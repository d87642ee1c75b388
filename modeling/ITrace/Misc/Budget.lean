import ITrace.Misc.Transfer
import Mathlib.Algebra.Ring.Nat
import Mathlib.Data.List.DropRight

/-!
# Loops that give up

A loop that transfers a buffer may put up with calls that move nothing, but only with so many in a
row: `GivesUp` says that it counts them, that moving something sets the count back, and that it
returns on an error. Such a loop makes at most `limit` calls for each cell, and from the answers
alone one can tell whether it gave up. Where a machine enters such loops again and again,
`Machine.run_cost_le` adds up what they cost.
-/

namespace ITrace

/-- How many of the last answers moved nothing. -/
def zerosAtEnd (es : List SysResult) : Nat := (es.rtakeWhile (· = .ok 0)).length

/-- There was an error, or `limit` answers in a row moved nothing. -/
def GaveUp (limit : Nat) (es : List SysResult) : Prop :=
  (∃ e, .err e ∈ es) ∨ List.replicate limit (.ok 0) <:+: es

/-- What the answers `es` moved. -/
def movedBy (es : List SysResult) : Nat := (es.map SysResult.moved).sum

section
variable {es : List SysResult} {answer : SysResult} {limit : Nat}

@[simp] theorem movedBy_concat : movedBy (es ++ [answer]) = movedBy es + answer.moved := by
  simp [movedBy]

theorem zerosAtEnd_zero (es : List SysResult) : zerosAtEnd (es ++ [.ok 0]) = zerosAtEnd es + 1 := by
  rw [zerosAtEnd, List.rtakeWhile_concat_pos _ _ _ (by simp), List.length_append]
  rfl

theorem zerosAtEnd_other (h : answer ≠ .ok 0) : zerosAtEnd (es ++ [answer]) = 0 := by
  rw [zerosAtEnd, List.rtakeWhile_concat_neg _ _ _ (by simpa using h)]
  rfl

theorem replicate_suffix_iff (k : Nat) (es : List SysResult) :
    List.replicate k (.ok 0) <:+ es ↔ k ≤ zerosAtEnd es := by
  induction es using List.reverseRecOn generalizing k with
  | nil => simp [zerosAtEnd]
  | append_singleton es answer ih =>
    cases k with
    | zero => simp
    | succ k =>
      rw [List.replicate_succ', List.suffix_concat_iff]
      by_cases h : answer = .ok 0
      · subst h
        simp [zerosAtEnd_zero, ih]
      · rw [zerosAtEnd_other h]
        simp [Ne.symm h]

/-- The answers so far were not given up on, and so neither is one more that moved something, or
nothing for less than the `limit`-th time. -/
theorem gaveUp_concat :
    GaveUp limit (es ++ [answer]) ↔
      GaveUp limit es ∨ (∃ e, answer = .err e) ∨ limit ≤ zerosAtEnd (es ++ [answer]) := by
  rw [GaveUp, GaveUp, List.infix_concat_iff, replicate_suffix_iff]
  simp only [List.mem_append, List.mem_singleton]
  constructor
  · rintro (⟨e, he | he⟩ | h | h)
    · exact .inl (.inl ⟨e, he⟩)
    · exact .inr (.inl ⟨e, he.symm⟩)
    · exact .inr (.inr h)
    · exact .inl (.inr h)
  · rintro ((⟨e, he⟩ | h) | ⟨e, he⟩ | h)
    · exact .inl ⟨e, .inl he⟩
    · exact .inr (.inr h)
    · exact .inl ⟨e, .inr he.symm⟩
    · exact .inr (.inl h)

theorem not_gaveUp_nil (hlimit : 0 < limit) : ¬ GaveUp limit [] := by
  rintro (⟨e, he⟩ | h)
  · cases he
  · have hnil := List.infix_nil.mp h
    rw [List.replicate_eq_nil_iff] at hnil
    omega

theorem zerosAtEnd_lt (h : ¬ GaveUp limit es) : zerosAtEnd es < limit := by
  by_contra hle
  exact h (.inr ((replicate_suffix_iff limit es).mpr (by omega)).isInfix)

end

/-- If what every event costs comes out of `μ`, and the events that satisfy `p` add `c` to it, then a
run costs no more than `μ` of its first state and `c` for each such event. -/
theorem Machine.run_cost_le {σ ε : Type*} {m : Machine σ ε} {I : σ → Prop} (p : ε → Bool) (c : Nat)
    (cost : ε → Nat) (μ : σ → Nat) (hI : ∀ s e s', I s → m.step s e = some s' → I s')
    (hμ : ∀ s e s', I s → m.step s e = some s' → μ s' + cost e ≤ μ s + if p e then c else 0)
    {s t : σ} {es : List ε} (hs : I s) (hrun : m.run s es = some t) :
    μ t + (es.map cost).sum ≤ μ s + c * es.countP p := by
  induction es generalizing s with
  | nil =>
    cases hrun
    exact Nat.le_refl _
  | cons e es ih =>
    obtain ⟨s', he, hes⟩ := Machine.run_cons_iff.mp hrun
    have hhead := hμ s e s' hs he
    have hrest := ih (hI s e s' hs he) hes
    rw [List.map_cons, List.sum_cons, List.countP_cons, Nat.mul_add]
    split at hhead <;> rename_i hp
    · rw [if_pos hp]
      omega
    · rw [if_neg hp]
      omega

/-- The cost of one for each event that satisfies `q`. -/
theorem sum_map_ite {ε : Type*} (q : ε → Bool) (es : List ε) :
    (es.map fun e => if q e then 1 else 0).sum = es.countP q := by
  induction es with
  | nil => rfl
  | cons e es ih => rw [List.map_cons, List.sum_cons, List.countP_cons, ih, Nat.add_comm]

namespace IoLoop

/-- A loop that moves `n` cells, as in `Moves`, goes on while fewer than `limit` answers in a row
moved nothing, and then returns, as it does after an error and after the last cell. -/
structure GivesUp {L : Type*} (lp : IoLoop L) (n : Nat) (zeros : L → Nat) (limit : Nat)
    (At : Nat → Call L → Prop) : Prop where
  pos : ∀ {moved l}, At moved (.running l) → 0 < lp.count l
  more : ∀ {moved l k}, At moved (.running l) → 0 < k → k ≤ lp.count l →
    (∃ l', lp.step l (.ok k) = .running l' ∧ zeros l' = 0) ∨
      ∃ ret, lp.step l (.ok k) = .returned ret ∧ moved + k = n
  nothing : ∀ {moved l}, At moved (.running l) →
    (∃ l', lp.step l (.ok 0) = .running l' ∧ zeros l' = zeros l + 1 ∧ zeros l' < limit) ∨
      ∃ ret, lp.step l (.ok 0) = .returned ret ∧ limit ≤ zeros l + 1
  error : ∀ {moved l}, At moved (.running l) → ∀ e, ∃ ret, lp.step l (.err e) = .returned ret

variable {L : Type*} {lp : IoLoop L} {rest zeros : L → Nat} {base n limit : Nat}
  {At : Nat → Call L → Prop} {start c d : Call L} {es : List SysResult} {answer : SysResult}

/-- The loop at its start: nothing has been counted, and it returns at once only if there is
nothing to move. -/
def AtStart (n : Nat) (zeros : L → Nat) (start : Call L) : Prop :=
  (∃ l, start = .running l ∧ zeros l = 0) ∨ ∃ ret, start = .returned ret ∧ n = 0

/-- What the answers so far tell about the loop. -/
def Told (n : Nat) (zeros : L → Nat) (limit : Nat) (At : Nat → Call L → Prop)
    (es : List SysResult) (c : Call L) : Prop :=
  At (movedBy es) c ∧
  match c with
  | .running l => zeros l = zerosAtEnd es ∧ ¬ GaveUp limit es
  | .returned _ => (movedBy es = n ∧ ¬ GaveUp limit es) ∨ (movedBy es < n ∧ GaveUp limit es)

section
variable (hmoves : lp.Moves rest base n At) (hgives : lp.GivesUp n zeros limit At)
include hmoves hgives

theorem Told.step (h : Told n zeros limit At es c)
    (he : (lp.calls start).step c answer = some d) :
    Told n zeros limit At (es ++ [answer]) d := by
  obtain ⟨l, rfl, rfl, hcount⟩ := calls_cases he
  obtain ⟨hat, hzeros, hgoes⟩ := h
  have hlt := zerosAtEnd_lt hgoes
  have hleft : movedBy es < n := by
    have hpos := hgives.pos hat
    have hle := hmoves.count_le hat
    have hsum := hmoves.rest_eq hat
    omega
  have hstill : (∀ e, answer ≠ .err e) → zerosAtEnd (es ++ [answer]) < limit →
      ¬ GaveUp limit (es ++ [answer]) := by
    intro hok hfew
    rw [gaveUp_concat, not_or, not_or]
    exact ⟨hgoes, fun ⟨e, h⟩ => hok e h, by omega⟩
  cases answer with
  | err e =>
    obtain ⟨ret, hret⟩ := hgives.error hat e
    have hat' := hmoves.step_err hat e
    have hsame : movedBy (es ++ [.err e]) = movedBy es := movedBy_concat
    unfold Told
    rw [hsame]
    refine ⟨hat', ?_⟩
    rw [hret]
    exact .inr ⟨hleft, gaveUp_concat.mpr (.inr (.inl ⟨e, rfl⟩))⟩
  | ok k =>
    have hat' := hmoves.step_ok hat hcount
    have hsum : movedBy (es ++ [.ok k]) = movedBy es + k := movedBy_concat
    unfold Told
    rw [hsum]
    refine ⟨hat', ?_⟩
    cases k with
    | zero =>
      have hmore := zerosAtEnd_zero es
      rcases hgives.nothing hat with ⟨l', hl', hone, hfew⟩ | ⟨ret, hret, hlast⟩
      · rw [hl']
        exact ⟨by omega, hstill (by simp) (by omega)⟩
      · rw [hret]
        exact .inr ⟨hleft, gaveUp_concat.mpr (.inr (.inr (by omega)))⟩
    | succ k =>
      have hzero : zerosAtEnd (es ++ [.ok (k + 1)]) = 0 := zerosAtEnd_other (by simp)
      have hgoes' : ¬ GaveUp limit (es ++ [.ok (k + 1)]) := hstill (by simp) (by omega)
      rcases hgives.more hat (Nat.succ_pos k) hcount with ⟨l', hl', hreset⟩ | ⟨ret, hret, hall⟩
      · rw [hl']
        exact ⟨by omega, hgoes'⟩
      · rw [hret]
        exact .inl ⟨hall, hgoes'⟩

/-- After every run. -/
theorem Told.run (hlimit : 0 < limit) (hat : At 0 start) (hstart : AtStart n zeros start)
    (hrun : (lp.calls start).run start es = some c) : Told n zeros limit At es c := by
  have hnone := not_gaveUp_nil hlimit
  refine Machine.run_history (I := Told n zeros limit At)
    (fun es c answer d hc he => Told.step hmoves hgives hc he) ?_ hrun
  refine ⟨hat, ?_⟩
  rcases hstart with ⟨l, rfl, hzero⟩ | ⟨ret, rfl, rfl⟩
  · exact ⟨hzero, hnone⟩
  · exact .inl ⟨rfl, hnone⟩

/-- Every answer uses up one of `limit` tries for each cell. -/
theorem GivesUp.spends : lp.Spends
    (fun c => (∃ moved, At moved c) ∧ ∀ l, c = .running l → zeros l < limit) (fun _ => true)
    (fun l => limit * rest l - zeros l) := by
  have hleft : ∀ {moved l}, At moved (.running l) → zeros l < limit → limit ≤ limit * rest l := by
    intro moved l hat hzeros
    have hpos := hgives.pos hat
    have hle := hmoves.count_le hat
    exact Nat.le_mul_of_pos_right limit (by omega)
  constructor
  · rintro l ⟨⟨moved, hat⟩, hzeros⟩
    have hall := hleft hat (hzeros l rfl)
    have hfew := hzeros l rfl
    omega
  · rintro l k ⟨⟨moved, hat⟩, hzeros⟩ hk
    refine ⟨⟨moved + k, hmoves.step_ok hat hk⟩, fun l' hl' => ?_⟩
    have hfew := hzeros l rfl
    cases k with
    | zero =>
      rcases hgives.nothing hat with ⟨l'', hl'', -, hlt⟩ | ⟨ret, hret, -⟩
      · rw [hl''] at hl'
        cases hl'
        exact hlt
      · rw [hret] at hl'
        cases hl'
    | succ k =>
      rcases hgives.more hat (Nat.succ_pos k) hk with ⟨l'', hl'', hreset⟩ | ⟨ret, hret, -⟩
      · rw [hl''] at hl'
        cases hl'
        omega
      · rw [hret] at hl'
        cases hl'
  · rintro l ⟨⟨moved, hat⟩, -⟩ e
    refine ⟨⟨moved, hmoves.step_err hat e⟩, fun l' hl' => ?_⟩
    obtain ⟨ret, hret⟩ := hgives.error hat e
    rw [hret] at hl'
    cases hl'
  · rintro l k ⟨⟨moved, hat⟩, hzeros⟩ hk
    have hall := hleft hat (hzeros l rfl)
    have hfew := hzeros l rfl
    have hrest := hmoves.rest_eq hat
    have hnext := hmoves.step_ok hat hk
    rw [if_pos rfl]
    cases hc : lp.step l (.ok k) with
    | returned ret =>
      show 0 + 1 ≤ _
      omega
    | running l' =>
      rw [hc] at hnext
      have hrest' := hmoves.rest_eq hnext
      show limit * rest l' - zeros l' + 1 ≤ _
      cases k with
      | zero =>
        have hsame : rest l' = rest l := by omega
        rcases hgives.nothing hat with ⟨l'', hl'', hone, -⟩ | ⟨ret, hret, -⟩
        · cases hc.symm.trans hl''
          rw [hsame]
          omega
        · cases hc.symm.trans hret
      | succ k =>
        have hsum : limit * rest l = limit * rest l' + (limit * k + limit) := by
          rw [← Nat.mul_succ, ← Nat.mul_add]
          congr 1
          omega
        omega
  · rintro l ⟨⟨moved, hat⟩, hzeros⟩ e
    have hall := hleft hat (hzeros l rfl)
    have hfew := hzeros l rfl
    obtain ⟨ret, hret⟩ := hgives.error hat e
    rw [hret, if_pos rfl]
    show 0 + 1 ≤ _
    omega

omit hgives in
theorem AtStart.left_le (limit : Nat) (hat : At 0 start) (hstart : AtStart n zeros start) :
    left (fun l => limit * rest l - zeros l) start ≤ limit * n := by
  rcases hstart with ⟨l, rfl, hzero⟩ | ⟨ret, rfl, -⟩
  · have hrest := hmoves.rest_eq hat
    have hsame : rest l = n := by omega
    show limit * rest l - zeros l ≤ _
    rw [hsame]
    omega
  · exact Nat.zero_le _

/-- A run makes at most `limit` calls for each cell. -/
theorem GivesUp.length_le (hlimit : 0 < limit) (hat : At 0 start) (hstart : AtStart n zeros start)
    (hrun : (lp.calls start).run start es = some c) : es.length ≤ limit * n := by
  have hle := hstart.left_le hmoves limit hat
  have hzeros : ∀ l, start = .running l → zeros l < limit := by
    rintro l rfl
    rcases hstart with ⟨l', hl', hzero⟩ | ⟨ret, hret, -⟩
    · cases hl'
      omega
    · cases hret
  have hspent := ((hgives.spends hmoves).run ⟨⟨0, hat⟩, hzeros⟩ hrun).2
  rw [List.countP_true] at hspent
  omega

/-- So it returns on every script, after at most that many calls. -/
theorem GivesUp.returns {σ : Type*} {M : Machine σ SysResult} {call : σ → Call L} {s : σ}
    {script : Nat → SysResult} (hlimit : 0 < limit) (hat : At 0 (call s))
    (hstart : AtStart n zeros (call s))
    (hcalls : ∀ es t, M.run s es = some t → (lp.calls (call s)).run (call s) es = some (call t))
    (hfollows : M.Follows (fun t => ∃ ret, call t = .returned ret) s script) :
    ∃ k t ret, k ≤ limit * n ∧ M.follow s script k = some t ∧ call t = .returned ret := by
  have hbound : ∀ k t, M.follow s script k = some t → ¬ (∃ ret, call t = .returned ret) →
      k < limit * n := by
    intro k t ht hrunning
    have hrun := hcalls _ t ht
    have hle := hgives.length_le hmoves hlimit hat hstart hrun
    rw [List.length_map, List.length_range] at hle
    by_contra hlast
    obtain ⟨t', ht'⟩ := hfollows k t ht hrunning
    have hnext : M.follow s script (k + 1) = some t' := by
      rw [Machine.follow_succ, ht, Option.bind_some, ht']
    have hle' := hgives.length_le hmoves hlimit hat hstart (hcalls _ t' hnext)
    rw [List.length_map, List.length_range] at hle'
    omega
  obtain ⟨k, t, hk, ht, ret, hret⟩ := hfollows.stops hbound
  exact ⟨k, t, ret, hk, ht, hret⟩

end

end IoLoop

end ITrace
