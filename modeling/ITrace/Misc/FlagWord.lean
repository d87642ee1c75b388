import Mathlib.Data.BitVec

/-!
# Words of flags

A program that clears and sets flags in a word replaces the bits of a mask and keeps the others.
`assign mask value word` is that operation, and `word & ~mask` and `word | mask` are cases of it.
Two assignments with disjoint masks commute, one absorbs those its mask covers, and a word is
read through a mask either from the last assignment or from before it.
-/

namespace ITrace

/-- `word` with the bits of `mask` taken from `value`. -/
def assign {w : Nat} (mask value word : BitVec w) : BitVec w :=
  (word &&& ~~~mask) ||| (value &&& mask)

variable {w : Nat} {m n u v x y : BitVec w}

theorem getLsbD_assign (m v x : BitVec w) (i : Nat) :
    (assign m v x).getLsbD i = if m.getLsbD i then v.getLsbD i else x.getLsbD i := by
  simp only [assign, BitVec.getLsbD_or, BitVec.getLsbD_and, BitVec.getLsbD_not]
  by_cases hi : i < w
  · cases m.getLsbD i <;> simp [hi]
  · have hx := BitVec.getLsbD_of_ge x i (by omega)
    have hv := BitVec.getLsbD_of_ge v i (by omega)
    simp [hx, hv]

@[simp] theorem assign_zero (v x : BitVec w) : assign 0#w v x = x := by
  simp [assign]

/-- Masks without a common bit. -/
theorem getLsbD_of_disjoint (h : m &&& n = 0) {i : Nat} (hi : m.getLsbD i = true) :
    n.getLsbD i = false := by
  have hbit := congrArg (BitVec.getLsbD · i) h
  simpa [hi] using hbit

/-- Masks of which the second has all bits of the first. -/
theorem getLsbD_of_covered (h : n &&& ~~~m = 0) {i : Nat} (hi : n.getLsbD i = true) :
    m.getLsbD i = true := by
  have hlt := BitVec.lt_of_getLsbD hi
  have hbit := congrArg (BitVec.getLsbD · i) h
  simpa [hi, hlt] using hbit

/-- Parts of masks without a common bit have none. -/
theorem disjoint_of_covered {m' n' : BitVec w} (hm : m &&& ~~~m' = 0) (hn : n &&& ~~~n' = 0)
    (h : m' &&& n' = 0) : m &&& n = 0 := by
  apply BitVec.eq_of_getLsbD_eq
  intro i _
  rw [BitVec.getLsbD_and]
  cases hmi : m.getLsbD i with
  | false => simp
  | true =>
    have hn' := getLsbD_of_disjoint h (getLsbD_of_covered hm hmi)
    have hni : n.getLsbD i = false := by
      rw [Bool.eq_false_iff]
      intro hni
      rw [getLsbD_of_covered hn hni] at hn'
      cases hn'
    simp [hni]

theorem and_not_eq_assign (m x : BitVec w) : x &&& ~~~m = assign m 0 x := by
  simp [assign]

theorem or_eq_assign (m x : BitVec w) : x ||| m = assign m m x := by
  apply BitVec.eq_of_getLsbD_eq
  intro i _
  rw [getLsbD_assign, BitVec.getLsbD_or]
  cases m.getLsbD i <;> simp

/-- Clearing a field and putting a value into it. -/
theorem and_not_or_eq_assign (h : v &&& ~~~m = 0) (x : BitVec w) :
    (x &&& ~~~m) ||| v = assign m v x := by
  apply BitVec.eq_of_getLsbD_eq
  intro i hi
  rw [getLsbD_assign]
  simp only [BitVec.getLsbD_or, BitVec.getLsbD_and, BitVec.getLsbD_not, hi]
  cases hv : v.getLsbD i with
  | true => simp [getLsbD_of_covered h hv]
  | false => cases m.getLsbD i <;> simp

theorem assign_comm (h : m &&& n = 0) (u v x : BitVec w) :
    assign m u (assign n v x) = assign n v (assign m u x) := by
  apply BitVec.eq_of_getLsbD_eq
  intro i _
  simp only [getLsbD_assign]
  cases hm : m.getLsbD i with
  | true => simp [getLsbD_of_disjoint h hm]
  | false => simp

/-- Two assignments are one. -/
theorem assign_assign (m n u v x : BitVec w) :
    assign m u (assign n v x) = assign (m ||| n) (assign m u v) x := by
  apply BitVec.eq_of_getLsbD_eq
  intro i _
  simp only [getLsbD_assign, BitVec.getLsbD_or]
  cases m.getLsbD i <;> simp

/-- An assignment hides those to bits of its mask. -/
theorem assign_absorb (h : n &&& ~~~m = 0) (u v x : BitVec w) :
    assign m u (assign n v x) = assign m u x := by
  apply BitVec.eq_of_getLsbD_eq
  intro i _
  simp only [getLsbD_assign]
  cases hn : n.getLsbD i with
  | true => simp [getLsbD_of_covered h hn]
  | false => simp

@[simp] theorem assign_same (m u v x : BitVec w) : assign m u (assign m v x) = assign m u x := by
  apply assign_absorb
  simp

/-- Words that agree outside `n` agree afterwards in the bits of the mask as well. -/
theorem assign_agree (h : x &&& ~~~n = y &&& ~~~n) (m v : BitVec w) :
    assign m v x &&& ~~~(n &&& ~~~m) = assign m v y &&& ~~~(n &&& ~~~m) := by
  apply BitVec.eq_of_getLsbD_eq
  intro i hi
  have hbit := congrArg (BitVec.getLsbD · i) h
  simp only [BitVec.getLsbD_and, BitVec.getLsbD_not, getLsbD_assign, hi] at hbit ⊢
  cases hm : m.getLsbD i <;> cases hn : n.getLsbD i <;> simp_all

/-- A word agrees with what it was in all bits but those of the mask. -/
theorem assign_and_not (h : m &&& ~~~n = 0) (v x : BitVec w) :
    assign m v x &&& ~~~n = x &&& ~~~n := by
  apply BitVec.eq_of_getLsbD_eq
  intro i hi
  simp only [BitVec.getLsbD_and, BitVec.getLsbD_not, getLsbD_assign, hi]
  cases hm : m.getLsbD i with
  | true => simp [getLsbD_of_covered h hm]
  | false => simp

/-- Words that agree in all bits. -/
theorem eq_of_and_not_zero (h : x &&& ~~~(0 : BitVec w) = y &&& ~~~(0 : BitVec w)) : x = y := by
  simpa using h

/-- Bits outside the mask are as before. -/
theorem assign_and_of_disjoint (h : m &&& n = 0) (v x : BitVec w) :
    assign m v x &&& n = x &&& n := by
  apply BitVec.eq_of_getLsbD_eq
  intro i _
  rw [BitVec.getLsbD_and, BitVec.getLsbD_and, getLsbD_assign]
  cases hm : m.getLsbD i with
  | true => simp [getLsbD_of_disjoint h hm]
  | false => simp

/-- Bits of the mask are those of the value. -/
theorem assign_and_of_covered (h : n &&& ~~~m = 0) (v x : BitVec w) :
    assign m v x &&& n = v &&& n := by
  apply BitVec.eq_of_getLsbD_eq
  intro i _
  rw [BitVec.getLsbD_and, BitVec.getLsbD_and, getLsbD_assign]
  cases hn : n.getLsbD i with
  | true => simp [getLsbD_of_covered h hn]
  | false => simp

end ITrace
