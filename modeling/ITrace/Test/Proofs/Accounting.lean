import ITrace.Test.Proofs.Increments

/-!
# The bytes the read tests account for

`sum` is the number of bytes read so far, and `print_control_cnt` doubles with every line printed
about it. A read is shorter than the first threshold, so doubling once always brings the threshold
back above the sum; the eighth doubling does not fit an `int`, and it is the first calculation of
the loop that does not.
-/

namespace ITrace.Test

open ITrace LinuxSocket

/-- The bytes read. -/
def total (chunks : List (List UInt8)) : Nat := (chunks.map List.length).sum

/-- The threshold after `k` milestones. -/
def threshold (k : Nat) : Nat := 10 * 1024 * 1024 * 2 ^ k

/-- `n` is the value of an `int`. -/
def Fits (n : Int) : Prop := -2 ^ 31 ≤ n ∧ n < 2 ^ 31

/-- What `check_data_inc` returns for the read of `chunk`. -/
def ReadTest.found (s : ReadTest) (chunk : List UInt8) : Nat :=
  (checkDataInc s.startVal (if s.isFirstRead then 0 else 1) (s.fill chunk).data
    chunk.length).errCnt

/-- The turn from `s` to `t`, in which `chunk` was read after `pre`, accounts for the bytes: `sum` is
their number, the threshold has doubled with each milestone, there is a milestone if the number
is over the threshold, and nothing that was calculated overflowed. -/
structure Accounts (pre : List (List UInt8)) (chunk : List UInt8) (s t : ReadTest) : Prop where
  sum : t.sum = total (pre ++ [chunk])
  printControlCnt : t.printControlCnt = threshold t.milestones.length
  reported : s.printControlCnt < total (pre ++ [chunk]) →
    t.milestones = s.milestones ++ [(total (pre ++ [chunk]) : Int)]
  sum_fits : Fits (s.sum + chunk.length)
  errCntSum_fits : Fits (s.errCntSum + s.found chunk)
  doubled_fits : t.milestones ≠ s.milestones → Fits (s.printControlCnt * 2)

/-- All turns of the run over `chunks` account for the bytes. -/
def AccountsAlong (m : Machine ReadTest ReadAnswer) (data : Int → UInt8)
    (chunks : List (List UInt8)) : Prop :=
  ∀ pre chunk, pre ++ [chunk] <+: chunks → ∃ s t,
    m.run (.start data) (pre.map .bytes) = some s ∧ m.step s (.bytes chunk) = some t ∧
      Accounts pre chunk s t

/-! ### Totals -/

section
variable {chunks pre : List (List UInt8)} {chunk : List UInt8} {bound : Nat}

@[simp] theorem total_concat : total (chunks ++ [chunk]) = total chunks + chunk.length := by
  simp [total]

theorem total_replicate (n : Nat) (chunk : List UInt8) :
    total (List.replicate n chunk) = n * chunk.length := by
  rw [total, List.map_replicate, List.sum_replicate_nat]

theorem total_le_of_prefix (h : pre <+: chunks) : total pre ≤ total chunks := by
  obtain ⟨rest, rfl⟩ := h
  simp [total]

/-- A total over the bound went over it with one of the reads. -/
theorem exists_crossing (h : bound < total chunks) :
    ∃ pre chunk, pre ++ [chunk] <+: chunks ∧ total pre ≤ bound ∧
      bound < total (pre ++ [chunk]) := by
  induction chunks using List.reverseRecOn with
  | nil => cases h
  | append_singleton chunks chunk ih =>
    by_cases hlast : total chunks ≤ bound
    · exact ⟨chunks, chunk, List.prefix_refl _, hlast, h⟩
    · obtain ⟨pre, c, hpre, hcross⟩ := ih (by omega)
      exact ⟨pre, c, hpre.trans (List.prefix_append _ _), hcross⟩

end

/-! ### One turn -/

namespace ReadTest

variable {s : ReadTest} {chunk : List UInt8}

theorem found_le (s : ReadTest) (chunk : List UInt8) : s.found chunk ≤ chunk.length := by
  rw [found, checkDataInc_errCnt]
  apply Nat.le_trans List.countP_le_length
  simp

theorem fed_found (s : ReadTest) (chunk : List UInt8) :
    (s.fed chunk).errCntSum = int32 (s.errCntSum + s.found chunk) := by
  rw [fed_eq, report_errCntSum, found]
  cases hfirst : s.isFirstRead <;> simp [carry, checkRead, touch, check, count, fill, hfirst]

/-- A turn up to its report. -/
theorem fed_report (s : ReadTest) (chunk : List UInt8) :
    ∃ u : ReadTest, s.fed chunk = u.report ∧ u.sum = int32 (s.sum + chunk.length) ∧
      u.printControlCnt = s.printControlCnt ∧ u.milestones = s.milestones := by
  rw [fed_eq]
  refine ⟨_, rfl, ?_⟩
  cases hfirst : s.isFirstRead <;> simp [carry, checkRead, touch, check, count, fill, hfirst]

/-- A turn that stays below the threshold. -/
theorem fed_below (h : int32 (s.sum + chunk.length) ≤ s.printControlCnt) :
    (s.fed chunk).sum = int32 (s.sum + chunk.length) ∧
      (s.fed chunk).printControlCnt = s.printControlCnt ∧
      (s.fed chunk).milestones = s.milestones := by
  obtain ⟨u, hu, hsum, hcnt, hmilestones⟩ := s.fed_report chunk
  rw [hu, report, if_neg (by omega)]
  exact ⟨hsum, hcnt, hmilestones⟩

/-- A turn that reports a milestone. -/
theorem fed_over (h : s.printControlCnt < int32 (s.sum + chunk.length)) :
    (s.fed chunk).sum = int32 (s.sum + chunk.length) ∧
      (s.fed chunk).printControlCnt = int32 (s.printControlCnt * 2) ∧
      (s.fed chunk).milestones = s.milestones ++ [int32 (s.sum + chunk.length)] := by
  obtain ⟨u, hu, hsum, hcnt, hmilestones⟩ := s.fed_report chunk
  rw [hu, report, if_pos (by omega)]
  simp only [hsum, hcnt, hmilestones, and_self]

end ReadTest

/-! ### Thresholds -/

theorem threshold_succ (k : Nat) : threshold (k + 1) = threshold k * 2 := by
  rw [threshold, threshold, Nat.pow_succ, ← Nat.mul_assoc]

theorem threshold_lt_iff {k j : Nat} : threshold k < threshold j ↔ k < j := by
  rw [threshold, threshold, Nat.mul_lt_mul_left (by decide)]
  exact Nat.pow_lt_pow_iff_right (by decide)

theorem threshold_le_iff {k j : Nat} : threshold k ≤ threshold j ↔ k ≤ j := by
  rw [← Nat.not_lt, ← Nat.not_lt, threshold_lt_iff]

/-- The last threshold that is an `int`. -/
theorem threshold_seven : threshold 7 = 1342177280 := by decide

/-! ### The invariant -/

/-- The loop after the reads `pre`, while nothing has overflowed. -/
structure Accounted (pre : List (List UInt8)) (s : ReadTest) : Prop where
  returned : s.returned = false
  sum : s.sum = total pre
  printControlCnt : s.printControlCnt = threshold s.milestones.length
  total_le : total pre ≤ threshold s.milestones.length
  milestones_le : s.milestones.length ≤ 7
  errCntSum : 0 ≤ s.errCntSum ∧ s.errCntSum ≤ total pre

section
variable {pre chunks : List (List UInt8)} {chunk : List UInt8} {s t : ReadTest}

theorem Accounted.start (data : Int → UInt8) : Accounted [] (.start data) where
  returned := rfl
  sum := rfl
  printControlCnt := rfl
  total_le := Nat.zero_le _
  milestones_le := Nat.zero_le 7
  errCntSum := ⟨Int.le_refl 0, Int.le_refl 0⟩

/-- The sums of a turn that reads no byte past the last threshold. -/
theorem Accounted.sums (h : Accounted pre s) (htotal : total (pre ++ [chunk]) ≤ threshold 7) :
    s.sum + chunk.length = total (pre ++ [chunk]) ∧
      int32 (s.sum + chunk.length) = total (pre ++ [chunk]) ∧ Fits (s.sum + chunk.length) ∧
      Fits (s.errCntSum + s.found chunk) ∧ 0 ≤ (s.fed chunk).errCntSum ∧
      (s.fed chunk).errCntSum ≤ total (pre ++ [chunk]) := by
  have hsum := h.sum
  have herr := h.errCntSum
  have hfound := s.found_le chunk
  have hconcat : total (pre ++ [chunk]) = total pre + chunk.length := total_concat
  have hlast := threshold_seven
  have hsum' : s.sum + chunk.length = total (pre ++ [chunk]) := by omega
  rw [ReadTest.fed_found, int32_of_lt (by omega) (by omega), int32_of_lt (by omega) (by omega)]
  exact ⟨hsum', hsum', ⟨by omega, by omega⟩, ⟨by omega, by omega⟩, by omega, by omega⟩

/-- A threshold that a total up to the last one has passed is not the last, and can be doubled. -/
theorem Accounted.double (h : Accounted pre s) {n : Nat} (hn : threshold s.milestones.length < n)
    (hlast : n ≤ threshold 7) :
    s.milestones.length < 7 ∧ Fits (s.printControlCnt * 2) ∧
      int32 (s.printControlCnt * 2) = threshold (s.milestones.length + 1) := by
  have hcnt := h.printControlCnt
  have hseven := threshold_seven
  have hk : s.milestones.length < 7 := threshold_lt_iff.mp (by omega)
  have hnext : threshold (s.milestones.length + 1) ≤ threshold 7 := threshold_le_iff.mpr hk
  rw [threshold_succ] at hnext ⊢
  rw [int32_of_lt (by omega) (by omega)]
  exact ⟨hk, ⟨by omega, by omega⟩, by omega⟩

/-- A read is smaller than every threshold. -/
theorem length_le_threshold (hlen : chunk.length ≤ 0x400000) (k : Nat) :
    chunk.length ≤ threshold k := by
  have hfirst : threshold 0 ≤ threshold k := threshold_le_iff.mpr (Nat.zero_le _)
  have hzero : threshold 0 = 10485760 := rfl
  omega

/-- A turn that reads no byte past the last threshold. -/
theorem Accounted.step (h : Accounted pre s) (hlen : chunk.length ≤ 0x400000)
    (htotal : total (pre ++ [chunk]) ≤ threshold 7) :
    Accounted (pre ++ [chunk]) (s.fed chunk) ∧ Accounts pre chunk s (s.fed chunk) := by
  obtain ⟨-, hsum, hsumFits, herrFits, herrNonneg, herrLe⟩ := h.sums htotal
  have hcnt := h.printControlCnt
  have hreturned : (s.fed chunk).returned = false := by rw [ReadTest.fed_returned, h.returned]
  by_cases hover : threshold s.milestones.length < total (pre ++ [chunk])
  · obtain ⟨hk, hfits, hdouble⟩ := h.double hover htotal
    obtain ⟨hs, hc, hm⟩ :=
      ReadTest.fed_over (by omega : s.printControlCnt < int32 (s.sum + chunk.length))
    rw [hsum] at hs hm
    have hlength : (s.fed chunk).milestones.length = s.milestones.length + 1 := by
      rw [hm, List.length_append, List.length_singleton]
    have hcnt' : (s.fed chunk).printControlCnt = threshold (s.fed chunk).milestones.length := by
      rw [hc, hdouble, hlength]
    have hbelow : total (pre ++ [chunk]) ≤ threshold (s.fed chunk).milestones.length := by
      have hbefore := h.total_le
      have hread := length_le_threshold hlen s.milestones.length
      rw [hlength, threshold_succ, total_concat]
      omega
    exact ⟨⟨hreturned, hs, hcnt', hbelow, by omega, herrNonneg, herrLe⟩,
      ⟨hs, hcnt', fun _ => hm, hsumFits, herrFits, fun _ => hfits⟩⟩
  · obtain ⟨hs, hc, hm⟩ := ReadTest.fed_below
      (by omega : int32 (s.sum + chunk.length) ≤ s.printControlCnt)
    rw [hsum] at hs
    have hcnt' : (s.fed chunk).printControlCnt = threshold (s.fed chunk).milestones.length := by
      rw [hc, hm, hcnt]
    have hbelow : total (pre ++ [chunk]) ≤ threshold (s.fed chunk).milestones.length := by
      rw [hm]
      omega
    have hmilestones : (s.fed chunk).milestones.length ≤ 7 := by
      rw [hm]
      exact h.milestones_le
    exact ⟨⟨hreturned, hs, hcnt', hbelow, hmilestones, herrNonneg, herrLe⟩,
      ⟨hs, hcnt', fun hreport => by omega, hsumFits, herrFits, fun hreport => absurd hm hreport⟩⟩

/-- Only from the last threshold on can a read take the total past it. -/
theorem Accounted.milestones_eq (h : Accounted pre s) (hlen : chunk.length ≤ 0x400000)
    (hover : threshold 7 < total (pre ++ [chunk])) : s.milestones.length = 7 := by
  have htotal_le := h.total_le
  have hmilestones := h.milestones_le
  have hread := length_le_threshold hlen s.milestones.length
  rw [total_concat] at hover
  by_contra hne
  have hk : s.milestones.length + 1 ≤ 7 := by omega
  have hnext : threshold (s.milestones.length + 1) ≤ threshold 7 := threshold_le_iff.mpr hk
  rw [threshold_succ] at hnext
  omega

/-- Such a turn reports the total, and doubles the threshold out of the range of `int`. -/
theorem Accounted.overflow (h : Accounted pre s) (hlen : chunk.length ≤ 0x400000)
    (hover : threshold 7 < total (pre ++ [chunk])) : ¬ Accounts pre chunk s t := by
  intro haccounts
  have hlast := threshold_seven
  have hcnt := h.printControlCnt
  rw [h.milestones_eq hlen hover] at hcnt
  have hreported := haccounts.reported (by omega)
  have hfits := haccounts.doubled_fits (by rw [hreported]; simp)
  unfold Fits at hfits
  omega

/-- Where `int` wraps, the threshold becomes negative. -/
theorem Accounted.wraps (h : Accounted pre s) (hlen : chunk.length ≤ 0x400000)
    (hover : threshold 7 < total (pre ++ [chunk])) :
    s.printControlCnt = 1342177280 ∧ (s.fed chunk).printControlCnt = -1610612736 := by
  have hlast := threshold_seven
  have hsum := h.sum
  have hcnt := h.printControlCnt
  have hbelow := h.total_le
  rw [h.milestones_eq hlen hover] at hcnt hbelow
  rw [total_concat] at hover
  have hsum' : int32 (s.sum + chunk.length) = s.sum + chunk.length :=
    int32_of_lt (by omega) (by omega)
  obtain ⟨-, hdoubled, -⟩ :=
    ReadTest.fed_over (by omega : s.printControlCnt < int32 (s.sum + chunk.length))
  have hwrap : int32 (1342177280 * 2) = -1610612736 := int32_of_ge (by decide) (by decide)
  rw [hdoubled, hcnt, hlast]
  exact ⟨rfl, hwrap⟩

end

/-! ### Runs -/

section
variable {maxLength : Nat} {chunks : List (List UInt8)}

/-- Up to the last threshold the loop goes on, and every turn accounts for its bytes. -/
theorem run_accounted (data : Int → UInt8) (hmax : maxLength ≤ 0x400000)
    (hlen : ∀ c ∈ chunks, c.length ≤ maxLength) (htotal : total chunks ≤ threshold 7) :
    ∃ s, (readTest maxLength ReadTest.dmaTurn).run (.start data) (chunks.map .bytes) = some s ∧
      Accounted chunks s := by
  induction chunks using List.reverseRecOn with
  | nil => exact ⟨_, rfl, .start data⟩
  | append_singleton chunks chunk ih =>
    have hlast := hlen chunk (List.mem_append_right _ (List.mem_singleton_self _))
    have hle := total_le_of_prefix (List.prefix_append chunks [chunk])
    obtain ⟨s, hrun, hs⟩ := ih (fun c hc => hlen c (List.mem_append_left _ hc)) (by omega)
    refine ⟨s.fed chunk, ?_, (hs.step (by omega) htotal).1⟩
    rw [List.map_append, Machine.run_append, hrun]
    exact Machine.run_cons_iff.mpr ⟨_, step_bytes hs.returned hlast, rfl⟩

/-- A run accounts for its bytes exactly up to the last threshold. -/
theorem accountsAlong_iff (data : Int → UInt8) (hmax : maxLength ≤ 0x400000)
    (hlen : ∀ c ∈ chunks, c.length ≤ maxLength) :
    AccountsAlong (readTest maxLength ReadTest.dmaTurn) data chunks ↔
      total chunks ≤ threshold 7 := by
  have hprefix {pre : List (List UInt8)} {chunk : List UInt8} (h : pre ++ [chunk] <+: chunks) :
      (∀ c ∈ pre, c.length ≤ maxLength) ∧ chunk.length ≤ maxLength := by
    refine ⟨fun c hc => hlen c (h.subset (List.mem_append_left _ hc)), ?_⟩
    exact hlen chunk (h.subset (List.mem_append_right _ (List.mem_singleton_self _)))
  constructor
  · intro halong
    by_contra hover
    obtain ⟨pre, chunk, hpre, hbelow, hcross⟩ := exists_crossing (Nat.lt_of_not_le hover)
    obtain ⟨hlens, hchunk⟩ := hprefix hpre
    obtain ⟨s, t, hrun, -, haccounts⟩ := halong pre chunk hpre
    obtain ⟨s', hrun', hs⟩ := run_accounted data hmax hlens hbelow
    cases hrun.symm.trans hrun'
    exact hs.overflow (by omega) hcross haccounts
  · intro htotal pre chunk hpre
    obtain ⟨hlens, hchunk⟩ := hprefix hpre
    have hle := total_le_of_prefix hpre
    have hbefore := total_le_of_prefix (List.prefix_append pre [chunk])
    obtain ⟨s, hrun, hs⟩ := run_accounted data hmax hlens (by omega)
    have hstep : _ ∧ Accounts pre chunk s (s.fed chunk) := hs.step (by omega) (by omega)
    exact ⟨s, s.fed chunk, hrun, step_bytes hs.returned hchunk, hstep.2⟩

end

/-- For every sequence of reads, in `read_dma_test` and in `cmd_status_trans_rw_test`: every turn
accounts for its bytes exactly if not more than 1342177280 bytes are read in all. After an empty
read the loops take `data[-1]`, from before their buffer, for the next `start_val`; where that
address can be read its value, which is arbitrary here, enters neither the sum nor the threshold. -/
theorem readTests_accountsAlong (data : Int → UInt8) (chunks : List (List UInt8)) :
    ((∀ c ∈ chunks, c.length ≤ AcqDataTrans.maxDmaLength) →
      (AccountsAlong readDmaTest data chunks ↔ total chunks ≤ 1342177280)) ∧
    ((∀ c ∈ chunks, c.length ≤ 0x1000) →
      (AccountsAlong cmdStatusTransRwTest data chunks ↔ total chunks ≤ 1342177280)) := by
  rw [← threshold_seven, cmdStatusTransRwTest_eq]
  constructor
  · exact accountsAlong_iff data (Nat.le_refl _)
  · exact accountsAlong_iff data (by decide)

/-- Three reads of 4 MiB, after which a milestone is printed. -/
theorem readTests_accountsAlong_threeReads :
    AccountsAlong readDmaTest (fun _ => 0) (List.replicate 3 (List.replicate 0x400000 0)) := by
  apply ((readTests_accountsAlong (fun _ => 0) _).1 ?_).mpr
  · rw [total_replicate, List.length_replicate]
    decide
  · intro c hc
    rw [List.eq_of_mem_replicate hc, List.length_replicate]
    exact Nat.le_refl _

/-- After 320 reads of 4 MiB the threshold is reached, and with one more it is doubled to a value
that is no `int`. In reads of 4 KiB that happens to the other test. -/
theorem threshold_overflows :
    ¬ AccountsAlong readDmaTest (fun _ => 0) (List.replicate 321 (List.replicate 0x400000 0)) ∧
      ¬ AccountsAlong cmdStatusTransRwTest (fun _ => 0)
        (List.replicate 327681 (List.replicate 0x1000 0)) ∧
      ∃ s t, readDmaTest.run (.start fun _ => 0)
          ((List.replicate 320 (List.replicate 0x400000 0)).map .bytes) = some s ∧
        readDmaTest.step s (.bytes (List.replicate 0x400000 0)) = some t ∧
        s.printControlCnt = 1342177280 ∧ t.printControlCnt = -1610612736 := by
  have hlen (n k : Nat) : ∀ c ∈ List.replicate k (List.replicate n (0 : UInt8)), c.length ≤ n := by
    intro c hc
    rw [List.eq_of_mem_replicate hc, List.length_replicate]
  have htotal (n k : Nat) : total (List.replicate k (List.replicate n 0)) = k * n := by
    rw [total_replicate, List.length_replicate]
  refine ⟨?_, ?_, ?_⟩
  · intro h
    have hle := (accountsAlong_iff _ (Nat.le_refl _) (hlen 0x400000 321)).mp h
    rw [htotal, threshold_seven] at hle
    omega
  · intro h
    rw [cmdStatusTransRwTest_eq] at h
    have hle := (accountsAlong_iff _ (by decide) (hlen 0x1000 327681)).mp h
    rw [htotal, threshold_seven] at hle
    omega
  · have hbelow : total (List.replicate 320 (List.replicate 0x400000 0)) ≤ threshold 7 := by
      rw [htotal, threshold_seven]
    have hlast : (List.replicate 0x400000 (0 : UInt8)).length ≤ 0x400000 := by
      rw [List.length_replicate]
    have hover : threshold 7 <
        total (List.replicate 320 (List.replicate 0x400000 0) ++ [List.replicate 0x400000 0]) := by
      rw [total_concat, htotal, List.length_replicate, threshold_seven]
      decide
    obtain ⟨s, hrun, hs⟩ :=
      run_accounted (fun _ => 0) (Nat.le_refl _) (hlen 0x400000 320) hbelow
    exact ⟨s, _, hrun, step_bytes hs.returned hlast, hs.wraps hlast hover⟩

end ITrace.Test
