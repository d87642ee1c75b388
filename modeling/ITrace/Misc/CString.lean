import ITrace.Misc.Runs

/-!
# C strings

Strings in arrays of `char`, with a terminator, and the functions of `<string.h>` on them. An array
is a list and a pointer into it an index. The searches of `strtok` find the maximal runs of
characters that are no delimiters, one after another (`strtok_found`, `Pending.next`).
-/

namespace ITrace

/-- The characters of a C string, without its terminator. -/
structure CString where
  chars : List UInt8
  zero_notMem : 0 ∉ chars

/-- `strlen` of the string that begins at `i`, `none` if the array holds no terminator from there
on. -/
def strlen (buf : List UInt8) (i : Nat) : Option Nat := (buf.drop i).findIdx? fun c => c = 0

/-- The characters of the string that begins at `i`. -/
def stringAt (buf : List UInt8) (i : Nat) : Option (List UInt8) :=
  (strlen buf i).map fun n => (buf.drop i).take n

/-- What `sprintf` stores for a text. -/
def sprintf (text : List UInt8) : List UInt8 := text ++ [0]

/-- The array `strtok` works on, and where its next search begins; without a pointer, the next
search finds nothing. -/
structure Strtok where
  buf : List UInt8
  saved : Option Nat

/-- The end of a search of `strtok`: the token begins at `first`, unless the string ends there, and
the delimiter after it is overwritten. -/
def takeToken (delims buf : List UInt8) (first : Nat) : Option Nat × Strtok :=
  if buf.getD first 0 = 0 then (none, ⟨buf, none⟩)
  else
    let stop := first + ((buf.drop first).takeWhile fun c => c ≠ 0 ∧ c ∉ delims).length
    if buf.getD stop 0 = 0 then (some first, ⟨buf, none⟩)
    else (some first, ⟨buf.set stop 0, some (stop + 1)⟩)

/-- A search of `strtok` from `start`, which skips delimiters first. -/
def strtokFrom (delims buf : List UInt8) (start : Nat) : Option Nat × Strtok :=
  takeToken delims buf (start + ((buf.drop start).takeWhile fun c => c ∈ delims).length)

/-- `strtok(str, delims)` with `str` at the beginning of `buf`. -/
def strtok (delims buf : List UInt8) : Option Nat × Strtok := strtokFrom delims buf 0

/-- `strtok(NULL, delims)`. -/
def Strtok.next (delims : List UInt8) (st : Strtok) : Option Nat × Strtok :=
  match st.saved with
  | none => (none, st)
  | some start => strtokFrom delims st.buf start

/-! ### Reading strings -/

variable {buf pre s junk : List UInt8}

theorem strlen_append (hs : 0 ∉ s) : strlen (pre ++ s ++ 0 :: junk) pre.length = some s.length := by
  rw [strlen, List.append_assoc, List.drop_left]
  induction s with
  | nil => rfl
  | cons c s ih =>
    rw [List.mem_cons, not_or] at hs
    have hc : ¬ c = 0 := fun h => hs.1 h.symm
    simp [List.findIdx?_cons, hc, ih hs.2]

theorem stringAt_append (hs : 0 ∉ s) : stringAt (pre ++ s ++ 0 :: junk) pre.length = some s := by
  rw [stringAt, strlen_append hs, Option.map_some, List.append_assoc, List.drop_left,
    List.take_left]

theorem stringAt_zero (hs : 0 ∉ s) (junk : List UInt8) : stringAt (s ++ 0 :: junk) 0 = some s := by
  have hstring : stringAt ([] ++ s ++ 0 :: junk) 0 = some s := stringAt_append hs
  simpa using hstring

/-- A text with a zero byte at its end has its terminator twice. -/
theorem stringAt_sprintf (hs : 0 ∉ s) : stringAt (sprintf (s ++ [0])) 0 = some s := by
  rw [sprintf, List.append_assoc]
  exact stringAt_zero hs _

/-- A string is read character by character. -/
theorem strlen_of_stringAt {t : List UInt8} {p : Nat} (h : stringAt buf p = some t) :
    strlen buf p = some t.length ∧
      ∀ i (hi : i < t.length), buf[p + i]? = some t[i] := by
  obtain ⟨n, hn, rfl⟩ := Option.map_eq_some_iff.mp h
  have hlt : n < (buf.drop p).length := (List.findIdx?_eq_some_iff_findIdx_eq.mp hn).1
  have hlen : ((buf.drop p).take n).length = n := by
    rw [List.length_take]
    omega
  refine ⟨by rw [hlen]; exact hn, fun i hi => ?_⟩
  rw [List.getElem_take, List.getElem_drop, List.getElem?_eq_getElem]

/-- There is no string where there is no terminator. -/
theorem stringAt_eq_none (h : 0 ∉ buf) : stringAt buf 0 = none := by
  rw [stringAt, strlen, List.drop_zero, Option.map_eq_none_iff, List.findIdx?_eq_none_iff]
  intro c hc
  simp only [decide_eq_false_iff_not]
  rintro rfl
  exact h hc

/-! ### `strtok` -/

theorem takeWhile_append_cons {p : UInt8 → Bool} {x : UInt8} (hx : p x = false)
    (l m : List UInt8) : (l ++ x :: m).takeWhile p = l.takeWhile p := by
  induction l with
  | nil => simp [hx]
  | cons a l ih =>
    cases ha : p a with
    | true => rw [List.cons_append, List.takeWhile_cons_of_pos ha, List.takeWhile_cons_of_pos ha, ih]
    | false => simp [ha]

/-- The searches to come find `ts`. -/
def Strtok.Pending (delims : List UInt8) (st : Strtok) (ts : List (List UInt8)) : Prop :=
  (st.saved = none ∧ ts = []) ∨
    ∃ pre rest junk, st.saved = some pre.length ∧ st.buf = pre ++ rest ++ 0 :: junk ∧ 0 ∉ rest ∧
      ts = runs (fun c => c ∈ delims) rest

theorem getD_append_cons (pre : List UInt8) (x : UInt8) (l : List UInt8) :
    (pre ++ x :: l).getD pre.length 0 = x := by
  simp

variable {delims rest t w : List UInt8} {ts : List (List UInt8)} {d : UInt8}

theorem takeWhile_append_head {p : UInt8 → Bool} {l m : List UInt8} (hl : ∀ x ∈ l, p x = true)
    (hm : ∀ x ∈ m.head?, p x = false) : (l ++ m).takeWhile p = l := by
  cases m with
  | nil => rwa [List.append_nil, List.takeWhile_eq_self_iff]
  | cons x m => rwa [takeWhile_append_cons (hm x rfl), List.takeWhile_eq_self_iff]

/-- The delimiters at the beginning are skipped. -/
theorem strtokFrom_append {l : List UInt8} (hs : ∀ c ∈ s, c ∈ delims)
    (hl : ∀ c ∈ l.head?, c ∉ delims) :
    strtokFrom delims (pre ++ (s ++ l)) pre.length =
      takeToken delims (pre ++ s ++ l) (pre ++ s).length := by
  have hskip : (s ++ l).takeWhile (fun c => c ∈ delims) = s :=
    takeWhile_append_head (by simpa using hs) (by simpa using hl)
  rw [strtokFrom, List.drop_left, hskip, List.append_assoc, List.length_append]

/-- A token, up to the end of the string or to a delimiter. -/
theorem takeToken_append (hne : w ≠ []) (hw : ∀ c ∈ w, c ≠ 0 ∧ c ∉ delims)
    (hd : d = 0 ∨ d ∈ delims) :
    takeToken delims (pre ++ w ++ d :: rest) pre.length =
      (some pre.length,
        if d = 0 then ⟨pre ++ w ++ d :: rest, none⟩
        else ⟨pre ++ w ++ 0 :: rest, some (pre ++ w ++ [0]).length⟩) := by
  obtain ⟨c, w', rfl⟩ := List.exists_cons_of_ne_nil hne
  have hfirst : (pre ++ c :: w' ++ d :: rest).getD pre.length 0 = c := by
    rw [List.append_assoc, List.cons_append, getD_append_cons]
  have htoken : ((pre ++ c :: w' ++ d :: rest).drop pre.length).takeWhile
      (fun c => c ≠ 0 ∧ c ∉ delims) = c :: w' := by
    rw [List.append_assoc, List.drop_left]
    apply takeWhile_append_head
    · simpa using hw
    · intro x hx
      cases hx
      simpa [imp_iff_not_or] using hd
  have hstop : (pre ++ c :: w' ++ d :: rest).getD (pre.length + (c :: w').length) 0 = d := by
    rw [← List.length_append, getD_append_cons]
  have hc : ¬ c = 0 := (hw c (List.mem_cons_self ..)).1
  simp only [takeToken, hfirst, if_neg hc, htoken, hstop]
  split
  · rfl
  · have hset : (pre ++ c :: w' ++ d :: rest).set (pre ++ c :: w').length 0 =
        pre ++ c :: w' ++ 0 :: rest := by
      rw [List.set_append_right _ _ (Nat.le_refl _), Nat.sub_self, List.set_cons_zero]
    have hlength : (pre ++ c :: w' ++ [0]).length = (pre ++ c :: w').length + 1 := by
      rw [List.length_append, List.length_singleton]
    rw [← List.length_append, hset, hlength]

theorem head_token (hne : w ≠ []) (hw : ∀ c ∈ w, c ≠ 0 ∧ c ∉ delims) (l : List UInt8) :
    ∀ c ∈ (w ++ l).head?, c ∉ delims := by
  obtain ⟨c, w', rfl⟩ := List.exists_cons_of_ne_nil hne
  intro x hx
  cases hx
  exact (hw c (List.mem_cons_self ..)).2

theorem token_of_run (hzero : 0 ∉ w) (hw : ∀ c ∈ w, decide (c ∈ delims) = false) :
    ∀ c ∈ w, c ≠ 0 ∧ c ∉ delims := by
  intro c hc
  constructor
  · rintro rfl
    exact hzero hc
  · simpa using hw c hc

/-- A search has the result `found`: `NULL`, or the first of `ts`, with the others pending. -/
def Found (delims : List UInt8) (found : Option Nat × Strtok) (ts : List (List UInt8)) : Prop :=
  match ts with
  | [] => found.1 = none
  | t :: ts => ∃ first st, found = (some first, st) ∧ stringAt st.buf first = some t ∧
      st.Pending delims ts

theorem strtokFrom_found (hdelims : 0 ∉ delims) (hrest : 0 ∉ rest) :
    Found delims (strtokFrom delims (pre ++ rest ++ 0 :: junk) pre.length)
      (runs (fun c => c ∈ delims) rest) := by
  have hfirst := firstRun (p := fun c => c ∈ delims) rest
  revert hfirst hrest
  generalize runs (fun c => c ∈ delims) rest = ts
  intro hrest hfirst
  cases hfirst with
  | none hds =>
    rw [List.append_assoc, strtokFrom_append (by simpa using hds) (by simpa using hdelims),
      takeToken, getD_append_cons, if_pos rfl]
    rfl
  | @last ds w hds hne hw =>
    rw [List.mem_append, not_or] at hrest
    have ht := token_of_run hrest.2 hw
    rw [List.append_assoc, List.append_assoc,
      strtokFrom_append (by simpa using hds) (head_token hne ht _), ← List.append_assoc,
      takeToken_append hne ht (.inl rfl), if_pos rfl]
    exact ⟨_, _, rfl, stringAt_append hrest.2, .inl ⟨rfl, rfl⟩⟩
  | @inner ds w after d hds hne hw hd =>
    rw [List.mem_append, List.mem_append, List.mem_cons, not_or, not_or, not_or] at hrest
    obtain ⟨-, hzero, hd0, hafter⟩ := hrest
    have ht := token_of_run hzero hw
    have hd' : d ∈ delims := by simpa using hd
    have hbuf : pre ++ (ds ++ (w ++ d :: after)) ++ 0 :: junk =
        pre ++ (ds ++ (w ++ d :: (after ++ 0 :: junk))) := by simp
    rw [hbuf, strtokFrom_append (by simpa using hds) (head_token hne ht _), ← List.append_assoc,
      takeToken_append hne ht (.inr hd'), if_neg (Ne.symm hd0)]
    refine ⟨_, _, rfl, stringAt_append hzero, .inr ⟨pre ++ ds ++ w ++ [0], after, junk, rfl, ?_, hafter, rfl⟩⟩
    simp

/-- The first search, with the string at the beginning of the array. -/
theorem strtok_found (hdelims : 0 ∉ delims) (hs : 0 ∉ s) :
    Found delims (strtok delims (s ++ 0 :: junk)) (runs (fun c => c ∈ delims) s) := by
  have hfound : Found delims (strtokFrom delims ([] ++ s ++ 0 :: junk) 0) _ :=
    strtokFrom_found hdelims hs
  exact hfound

/-- The searches that follow it. -/
theorem Strtok.Pending.next {st : Strtok} (h : st.Pending delims ts) (hdelims : 0 ∉ delims) :
    Found delims (st.next delims) ts := by
  rcases h with ⟨hsaved, rfl⟩ | ⟨pre, rest, junk, hsaved, hbuf, hrest, rfl⟩
  · rw [Strtok.next, hsaved]
    rfl
  · rw [Strtok.next, hsaved, hbuf]
    exact strtokFrom_found hdelims hrest

end ITrace
