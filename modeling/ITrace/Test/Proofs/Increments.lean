import ITrace.Test.Proofs.Seams

/-!
# What `check_data_inc` returns

The running expectation of the loop is the last byte whether it was right or not, so every turn
compares a byte with its predecessor. The count is therefore the number of bytes that do not
succeed the one before, where the first one is compared with `start_val`, or with nothing.
-/

namespace ITrace.Test

open ITrace

/-- The bytes of an array, without what lies before it. -/
def elements (data : Int → UInt8) (i : Nat) : UInt8 := data i

/-- Byte `i` is not its predecessor plus 1, that of byte 0 being `startVal`. -/
def BreakAt (startVal : UInt8) (data : Int → UInt8) (i : Nat) : Prop :=
  ¬ Succeeds (predecessor startVal (elements data) i) (elements data i)

instance decidableBreakAt (startVal : UInt8) (data : Int → UInt8) (i : Nat) :
    Decidable (BreakAt startVal data i) :=
  inferInstanceAs (Decidable (¬ Succeeds _ _))

section
variable {startVal : UInt8} {data : Int → UInt8} {n : Nat}

theorem checkDataInc_errCnt (startVal : UInt8) (startValVaild : Int) (data : Int → UInt8)
    (length : Int) :
    (checkDataInc startVal startValVaild data length).errCnt =
      (List.range length.toNat).countP
        (BreakAt (if startValVaild = 1 then data 0 - 1 else startVal) data) := by
  rw [checkDataInc, turns_eq]
  change _ + breaks Succeeds _ ((List.range length.toNat).map (elements data)) = _
  rw [breaks_map_range]
  split
  · exact Nat.zero_add _
  · exact Nat.zero_add _

/-- A chain from `startVal` on is determined by it. -/
theorem chain_iff : (∀ i < n, ¬ BreakAt startVal data i) ↔
    ∀ i < n, data i = startVal + 1 + UInt8.ofNat i := by
  induction n with
  | zero => simp
  | succ n ih =>
    rw [Nat.forall_lt_succ_right, Nat.forall_lt_succ_right, ih]
    apply and_congr_right
    intro hchain
    rw [BreakAt, not_not, Succeeds]
    cases n with
    | zero => simp [predecessor, elements]
    | succ n =>
      have hnext : UInt8.ofNat (n + 1) = UInt8.ofNat n + 1 := by simp
      simp only [predecessor, elements]
      rw [hchain n (Nat.lt_succ_self n), hnext, UInt8.add_assoc]

/-- Byte 0 is no break if the expectation is set to it. -/
theorem breakAt_resync (startVal : UInt8) (data : Int → UInt8) (i : Nat) :
    BreakAt (data 0 - 1) data i ↔ 0 < i ∧ BreakAt startVal data i := by
  cases i with
  | zero => simp [BreakAt, Succeeds, predecessor, elements]
  | succ i => simp [BreakAt, predecessor]

end

/-- For every array: `check_data_inc` returns the number of bytes that are not
their predecessor plus 1 modulo 256, that of the first byte being `start_val`, and 0 exactly if the
bytes count on from there. With `start_val_vaild` 1 the first byte is left out, and `start_val`
makes no difference. -/
theorem checkDataInc_counts (startVal : UInt8) (startValVaild : Int) (data : Int → UInt8)
    (length : Int) :
    (startValVaild ≠ 1 →
      (checkDataInc startVal startValVaild data length).errCnt =
          (List.range length.toNat).countP (BreakAt startVal data) ∧
        ((checkDataInc startVal startValVaild data length).errCnt = 0 ↔
          ∀ i < length.toNat, data i = startVal + 1 + UInt8.ofNat i)) ∧
    (startValVaild = 1 → ∀ startVal',
      (checkDataInc startVal startValVaild data length).errCnt =
          (List.range length.toNat).countP (fun i => 0 < i ∧ BreakAt startVal data i) ∧
        (checkDataInc startVal startValVaild data length).errCnt =
          (checkDataInc startVal' startValVaild data length).errCnt) := by
  rw [checkDataInc_errCnt]
  constructor
  · intro hvalid
    rw [if_neg hvalid, ← chain_iff]
    refine ⟨rfl, ?_⟩
    rw [List.countP_eq_zero]
    simp
  · intro hvalid startVal'
    rw [checkDataInc_errCnt, if_pos hvalid, if_pos hvalid]
    refine ⟨?_, rfl⟩
    apply List.countP_congr
    intro i _
    simpa using breakAt_resync startVal data i

/-- The bytes 255, 0, 7, 8 after 254, and after a start value that is not used. -/
theorem checkDataInc_counts_wrap :
    (checkDataInc 254 0 (fun i => ([255, 0, 7, 8] : List UInt8).getD i.toNat 0) 4).errCnt = 1 ∧
    (checkDataInc 3 1 (fun i => ([255, 0, 7, 8] : List UInt8).getD i.toNat 0) 4).errCnt = 1 := by
  constructor
  · have hcount := (checkDataInc_counts 254 0
      (fun i => ([255, 0, 7, 8] : List UInt8).getD i.toNat 0) 4).1 (by decide)
    exact hcount.1.trans (by decide)
  · have hcount := (checkDataInc_counts 3 1
      (fun i => ([255, 0, 7, 8] : List UInt8).getD i.toNat 0) 4).2 rfl 0
    exact hcount.1.trans (by decide)

end ITrace.Test
