import Mathlib.Data.List.Basic
import Mathlib.Data.List.Infix

/-!
# Streams of frames with a header

A frame is a header and as many elements after it as its `size` says. A header of size zero
stands alone and is no frame. A stream is read from the left: `frames` is the list of its
complete frames, and what comes after the last of them, a frame that is cut off, is not in it.

A reader that has consumed a `Whole` part of the stream is at the border of a frame, wherever
the stream goes on. All its steps keep a decomposition of the stream into a whole part, the part
of the frame it is in, and the rest (`frames_append`, `Whole.skip`, `Whole.frame`).
-/

namespace ITrace.Framing

variable {α : Type*}

/-- The complete frames of a stream. -/
def frames (size : α → Nat) : List α → List (List α)
  | [] => []
  | h :: rest =>
      if size h = 0 then frames size rest
      else if size h ≤ rest.length then
        (h :: rest.take (size h)) :: frames size (rest.drop (size h))
      else []
termination_by l => l.length
decreasing_by
  · exact Nat.lt_succ_self rest.length
  · exact Nat.lt_succ_of_le (List.length_drop ▸ Nat.sub_le rest.length (size h))

/-- A stream that ends at the border of a frame. -/
inductive Whole (size : α → Nat) : List α → Prop where
  | nil : Whole size []
  | skip {pre : List α} {h : α} (hpre : Whole size pre) (hh : size h = 0) :
      Whole size (pre ++ [h])
  | frame {pre : List α} {h : α} {body : List α} (hpre : Whole size pre)
      (hh : body.length = size h) (hb : body ≠ []) : Whole size (pre ++ h :: body)

variable {size : α → Nat}

@[simp] theorem frames_nil : frames size [] = [] := by rw [frames]

theorem frames_skip {h : α} (hh : size h = 0) (rest : List α) :
    frames size (h :: rest) = frames size rest := by
  rw [frames, if_pos hh]

theorem frames_frame {h : α} {body : List α} (hh : body.length = size h) (hb : body ≠ [])
    (rest : List α) : frames size (h :: body ++ rest) = (h :: body) :: frames size rest := by
  have hpos := List.length_pos_iff.mpr hb
  rw [List.cons_append, frames, if_neg (by omega), if_pos (by simp [hh]), ← hh,
    List.take_left, List.drop_left]

/-- A frame that is cut off is not among the complete ones. -/
theorem frames_cut {h : α} {body : List α} (hh : body.length < size h) :
    frames size (h :: body) = [] := by
  rw [frames, if_neg (by omega), if_neg (by omega)]

/-- What comes after a whole part is read as if nothing had come before it. -/
theorem frames_append {pre : List α} (hpre : Whole size pre) (rest : List α) :
    frames size (pre ++ rest) = frames size pre ++ frames size rest := by
  induction hpre generalizing rest with
  | nil => simp
  | skip _ hh ih =>
    rw [List.append_assoc, ih, ih, List.singleton_append, frames_skip hh, frames_skip hh,
      frames_nil, List.append_nil]
  | @frame pre h body _ hh hb ih =>
    rw [List.append_assoc, ih, ih, frames_frame hh hb]
    have hlast := frames_frame hh hb []
    rw [List.append_nil, frames_nil] at hlast
    rw [hlast, List.append_assoc, List.singleton_append]

/-- The frame that follows a whole part is the next one. -/
theorem frames_append_frame {pre : List α} (hpre : Whole size pre) {h : α} {body : List α}
    (hh : body.length = size h) (hb : body ≠ []) (rest : List α) :
    frames size (pre ++ (h :: body) ++ rest) =
      frames size pre ++ (h :: body) :: frames size rest := by
  rw [List.append_assoc, frames_append hpre, frames_frame hh hb]

/-- A header of size zero adds no frame to a whole part. -/
theorem frames_snoc_skip {pre : List α} (hpre : Whole size pre) {h : α} (hh : size h = 0) :
    frames size (pre ++ [h]) = frames size pre := by
  rw [frames_append hpre, frames_skip hh, frames_nil, List.append_nil]

/-- A frame adds itself to a whole part. -/
theorem frames_snoc_frame {pre : List α} (hpre : Whole size pre) {h : α} {body : List α}
    (hh : body.length = size h) (hb : body ≠ []) :
    frames size (pre ++ h :: body) = frames size pre ++ [h :: body] := by
  have := frames_append_frame hpre hh hb []
  rwa [List.append_nil, frames_nil] at this

/-- A frame that is cut off adds nothing to a whole part. -/
theorem frames_snoc_cut {pre : List α} (hpre : Whole size pre) {h : α} {body : List α}
    (hh : body.length < size h) : frames size (pre ++ h :: body) = frames size pre := by
  rw [frames_append hpre, frames_cut hh, List.append_nil]

/-! ### Streams made of frames -/

/-- A header, and after it as many elements as its size says. -/
def IsFrame (size : α → Nat) (f : List α) : Prop :=
  ∃ h body, f = h :: body ∧ body.length = size h ∧ body ≠ []

theorem isFrame_of_mem {l f : List α} (h : f ∈ frames size l) : IsFrame size f := by
  induction l using frames.induct size with
  | case1 =>
    rw [frames_nil] at h
    cases h
  | case2 hd rest hzero ih =>
    rw [frames_skip hzero] at h
    exact ih h
  | case3 hd rest hzero hle ih =>
    rw [frames, if_neg hzero, if_pos hle] at h
    rcases List.mem_cons.mp h with rfl | h
    · have hlen := List.length_take_of_le hle
      refine ⟨hd, rest.take (size hd), rfl, hlen, fun hnil => hzero ?_⟩
      rw [← hlen, hnil, List.length_nil]
    · exact ih h
  | case4 hd rest hzero hcut =>
    rw [frames, if_neg hzero, if_neg hcut] at h
    cases h

/-- Headers of size zero before a frame are no part of it. -/
theorem frames_skips {zs : List α} (hzs : ∀ z ∈ zs, size z = 0) (rest : List α) :
    frames size (zs ++ rest) = frames size rest := by
  induction zs with
  | nil => rfl
  | cons z zs ih =>
    rw [List.forall_mem_cons] at hzs
    rw [List.cons_append, frames_skip hzs.1, ih hzs.2]

theorem frames_isFrame_append {f : List α} (hf : IsFrame size f) (rest : List α) :
    frames size (f ++ rest) = f :: frames size rest := by
  obtain ⟨h, body, rfl, hlen, hne⟩ := hf
  exact frames_frame hlen hne rest

/-- Frames one after the other are read as these frames. -/
theorem frames_flatten_append {L : List (List α)} (hL : ∀ f ∈ L, IsFrame size f)
    (rest : List α) : frames size (L.flatten ++ rest) = L ++ frames size rest := by
  induction L with
  | nil => rfl
  | cons f L ih =>
    rw [List.forall_mem_cons] at hL
    rw [List.flatten_cons, List.append_assoc, frames_isFrame_append hL.1, ih hL.2,
      List.cons_append]

theorem frames_flatten {L : List (List α)} (hL : ∀ f ∈ L, IsFrame size f) :
    frames size L.flatten = L := by
  have h := frames_flatten_append hL []
  rwa [List.append_nil, frames_nil, List.append_nil] at h

/-- A proper beginning of a frame holds no frame. -/
theorem frames_of_cut {f p : List α} (hf : IsFrame size f) (hp : p <+: f) (hne : p ≠ f) :
    frames size p = [] := by
  obtain ⟨h, body, rfl, hlen, -⟩ := hf
  cases p with
  | nil => exact frames_nil
  | cons a p =>
    obtain ⟨rfl, hbody⟩ := List.cons_prefix_cons.mp hp
    apply frames_cut
    have hle := hbody.length_le
    have hshort : p.length ≠ body.length := by
      intro heq
      exact hne (by rw [hbody.eq_of_length heq])
    omega

/-- A beginning of a sequence of frames is some of the frames and then a proper beginning of the
next one, and it is read as the former. -/
theorem frames_of_prefix {L : List (List α)} {D : List α} (hL : ∀ f ∈ L, IsFrame size f)
    (hD : D <+: L.flatten) :
    ∃ k rest, D = (L.take k).flatten ++ rest ∧ frames size D = L.take k ∧
      (rest = [] ∨ ∃ f, L[k]? = some f ∧ rest <+: f ∧ rest ≠ f) := by
  induction L generalizing D with
  | nil =>
    have hnil : D = [] := List.prefix_nil.mp hD
    subst hnil
    exact ⟨0, [], rfl, frames_nil, .inl rfl⟩
  | cons f L ih =>
    rw [List.forall_mem_cons] at hL
    rw [List.flatten_cons] at hD
    rcases Nat.lt_or_ge D.length f.length with hlt | hge
    · have hp : D <+: f := List.prefix_of_prefix_length_le hD (List.prefix_append f _) (by omega)
      have hne : D ≠ f := by
        rintro rfl
        exact Nat.lt_irrefl _ hlt
      exact ⟨0, D, rfl, frames_of_cut hL.1 hp hne, .inr ⟨f, rfl, hp, hne⟩⟩
    · obtain ⟨D', rfl⟩ := List.prefix_of_prefix_length_le (List.prefix_append f _) hD hge
      obtain ⟨k, rest, rfl, hread, hrest⟩ := ih hL.2 ((List.prefix_append_right_inj f).mp hD)
      refine ⟨k + 1, rest, ?_, ?_, hrest⟩
      · rw [List.take_succ_cons, List.flatten_cons, List.append_assoc]
      · rw [frames_isFrame_append hL.1, hread, List.take_succ_cons]

/-- The first chunks of a list, and a part of the next, are a prefix of all of it. -/
theorem prefix_of_flatten_take {L : List (List α)} {k : Nat} {p : List α}
    (hp : p = [] ∨ ∃ f, L[k]? = some f ∧ p <+: f) : (L.take k).flatten ++ p <+: L.flatten := by
  have hdrop : p <+: (L.drop k).flatten := by
    rcases hp with rfl | ⟨f, hf, hp⟩
    · exact List.nil_prefix
    · obtain ⟨hlt, rfl⟩ := List.getElem?_eq_some_iff.mp hf
      rw [List.drop_eq_getElem_cons hlt, List.flatten_cons]
      exact hp.trans (List.prefix_append _ _)
  have hsplit : L.flatten = (L.take k).flatten ++ (L.drop k).flatten := by
    rw [← List.flatten_append, List.take_append_drop]
  rw [hsplit]
  exact (List.prefix_append_right_inj _).mpr hdrop

end ITrace.Framing
