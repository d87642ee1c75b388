import ITrace.Misc.Breaks
import ITrace.Test.ReadTests

/-!
# What the read tests count

Within a read `check_data_inc` counts every break of the increasing sequence. At the first byte of
a read it counts one only in the first read of all, so a break between two reads is lost; and after
an empty read the loops look at the element before the array.
-/

namespace ITrace.Test

open ITrace LinuxSocket

/-- A byte is its predecessor plus 1. -/
def Succeeds (a b : UInt8) : Prop := b = a + 1

instance decidableSucceeds : DecidableRel Succeeds :=
  fun a b => inferInstanceAs (Decidable (b = a + 1))

/-- What a test has to count in a stream: the bytes that are not their predecessor plus 1, where
the first byte has to be 1. -/
def discontinuities (stream : List UInt8) : Nat := breaks Succeeds 0 stream

/-- No read came back empty, and every read begins with the last byte of the one before plus 1. -/
def Seamless (chunks : List (List UInt8)) : Prop :=
  [] ∉ chunks ∧ chunks.IsChain (Meets Succeeds)

instance decidableSeamless (chunks : List (List UInt8)) : Decidable (Seamless chunks) :=
  inferInstanceAs (Decidable ([] ∉ chunks ∧ chunks.IsChain (Meets Succeeds)))

/-! ### `check_data_inc` -/

theorem turn_eq (data : Int → UInt8) (l : CheckDataInc) (i : Nat) :
    l.turn data i = ⟨data i, l.errCnt + (if Succeeds l.startVal (data i) then 0 else 1),
      l.indices ++ [(i : Int)]⟩ := by
  unfold CheckDataInc.turn Succeeds
  by_cases h : l.startVal + 1 = data i
  · simp [h]
  · have h' : ¬ data i = l.startVal + 1 := fun hd => h hd.symm
    simp [h, h']

/-- The loop of `check_data_inc` over the elements at `indices`. -/
theorem turns_eq (data : Int → UInt8) (indices : List Nat) (l : CheckDataInc) :
    indices.foldl (CheckDataInc.turn data) l =
      ⟨(indices.map fun i : Nat => data i).getLastD l.startVal,
        l.errCnt + breaks Succeeds l.startVal (indices.map fun i : Nat => data i),
        l.indices ++ indices.map fun i : Nat => (i : Int)⟩ := by
  induction indices generalizing l with
  | nil => simp
  | cons i indices ih =>
    rw [List.foldl_cons, ih, turn_eq, List.map_cons, List.map_cons, breaks_cons,
      List.getLastD_cons]
    simp only [Nat.add_assoc, List.append_assoc, List.singleton_append]

/-- `data` begins with `chunk`. -/
def Holds (data : Int → UInt8) (chunk : List UInt8) : Prop :=
  (List.range chunk.length).map (fun i : Nat => data i) = chunk

theorem checkDataInc_first {data : Int → UInt8} {chunk : List UInt8} (h : Holds data chunk)
    (startVal : UInt8) :
    (checkDataInc startVal 0 data chunk.length).errCnt = breaks Succeeds startVal chunk := by
  rw [checkDataInc, turns_eq, if_neg (by decide), Int.toNat_natCast, h, Nat.zero_add]

/-- With `start_val_vaild` 1 the first byte is taken as it is. -/
theorem checkDataInc_valid {data : Int → UInt8} {chunk : List UInt8} (h : Holds data chunk)
    (startVal : UInt8) :
    (checkDataInc startVal 1 data chunk.length).errCnt = breaksWithin Succeeds chunk := by
  rw [checkDataInc, turns_eq, if_pos rfl, Int.toNat_natCast, h, Nat.zero_add]
  cases chunk with
  | nil => rfl
  | cons b l =>
    have hb : data 0 = b := by
      have hhead := congrArg List.head? h
      simpa [List.range_succ_eq_map] using hhead
    rw [breaks_cons, breaksWithin, hb, if_pos (by simp [Succeeds]), Nat.zero_add]

/-- `check_data_inc` reads no other elements than these, and none at all only in an empty first
read. -/
theorem checkDataInc_indices (startVal : UInt8) (startValVaild : Int) (data : Int → UInt8)
    (length : Nat) :
    (checkDataInc startVal startValVaild data length).indices =
      (if startValVaild = 1 then [0] else []) ++ (List.range length).map fun i : Nat => (i : Int) := by
  rw [checkDataInc, turns_eq, Int.toNat_natCast]
  split <;> rfl

/-! ### One turn -/

namespace ReadTest

variable {s t : ReadTest} {chunk : List UInt8} {readRet : Int}

/-- Every element read so far was one of the last read that was not empty. -/
def Inside (s : ReadTest) : Prop := ∀ access ∈ s.accesses, 0 ≤ access.1 ∧ access.1 < access.2

theorem fill_holds (s : ReadTest) (chunk : List UInt8) : Holds (s.fill chunk).data chunk := by
  apply List.ext_getElem
  · simp
  · intro i h h'
    simp [fill, h']

@[simp] theorem report_errCntSum (s : ReadTest) : s.report.errCntSum = s.errCntSum := by
  unfold report
  split <;> rfl

@[simp] theorem report_isFirstRead (s : ReadTest) : s.report.isFirstRead = s.isFirstRead := by
  unfold report
  split <;> rfl

@[simp] theorem report_returned (s : ReadTest) : s.report.returned = s.returned := by
  unfold report
  split <;> rfl

@[simp] theorem report_accesses (s : ReadTest) : s.report.accesses = s.accesses := by
  unfold report
  split <;> rfl

/-- The loop after the answer `chunk`. -/
def fed (s : ReadTest) (chunk : List UInt8) : ReadTest := (s.fill chunk).dmaTurn chunk.length

theorem fed_eq (s : ReadTest) (chunk : List UInt8) :
    s.fed chunk = ((((s.fill chunk).count chunk.length).checkRead chunk.length).carry
      chunk.length).report := by
  rw [fed, dmaTurn, if_neg (by omega)]

@[simp] theorem fed_isFirstRead (s : ReadTest) (chunk : List UInt8) :
    (s.fed chunk).isFirstRead = false := by
  rw [fed_eq, report_isFirstRead]
  cases hfirst : s.isFirstRead <;> simp [carry, checkRead, touch, check, count, fill, hfirst]

@[simp] theorem fed_returned (s : ReadTest) (chunk : List UInt8) :
    (s.fed chunk).returned = s.returned := by
  rw [fed_eq, report_returned]
  cases hfirst : s.isFirstRead <;> simp [carry, checkRead, touch, check, count, fill, hfirst]

/-- In the first read `start_val` is the predecessor of the first byte; later it is not used. -/
theorem fed_errCntSum (s : ReadTest) (chunk : List UInt8) :
    (s.fed chunk).errCntSum = int32 (s.errCntSum +
      if s.isFirstRead then breaks Succeeds s.startVal chunk else breaksWithin Succeeds chunk) := by
  have hholds := fill_holds s chunk
  rw [fed_eq, report_errCntSum]
  cases hfirst : s.isFirstRead with
  | true =>
    rw [if_pos rfl, ← checkDataInc_first hholds s.startVal]
    simp [carry, checkRead, touch, check, count, fill, hfirst]
  | false =>
    rw [if_neg (by decide), ← checkDataInc_valid hholds s.startVal]
    simp [carry, checkRead, touch, check, count, fill, hfirst]

theorem fed_accesses (s : ReadTest) (chunk : List UInt8) :
    (s.fed chunk).accesses = s.accesses ++
      ((if s.isFirstRead then [] else [0]) ++ ((List.range chunk.length).map fun i : Nat => (i : Int))
        ++ [(chunk.length : Int) - 1]).map fun i => (i, (s.fill chunk).last) := by
  rw [fed_eq, report_accesses]
  cases hfirst : s.isFirstRead <;>
    simp [carry, checkRead, touch, check, count, fill, hfirst, checkDataInc_indices]

/-- A turn stays inside what was read exactly if its read was not empty. -/
theorem fed_inside : (s.fed chunk).Inside ↔ s.Inside ∧ chunk ≠ [] := by
  unfold Inside
  rw [fed_accesses, List.forall_mem_append]
  apply and_congr_right
  intro _
  cases chunk with
  | nil =>
    refine iff_of_false (fun h => ?_) (not_not_intro rfl)
    -- data[read_ret - 1] with read_ret 0
    have hbefore := h (-1, (s.fill []).last) (by simp)
    omega
  | cons b l =>
    have hlast : (s.fill (b :: l)).last = l.length + 1 := rfl
    simp only [List.forall_mem_map, hlast, List.length_cons]
    refine iff_of_true ?_ (List.cons_ne_nil _ _)
    intro i hi
    rw [List.mem_append, List.mem_append, List.mem_map] at hi
    rcases hi with (hi | ⟨j, hj, rfl⟩) | hi
    · have hzero : i = 0 := by
        revert hi
        cases s.isFirstRead <;> simp
      omega
    · rw [List.mem_range] at hj
      omega
    · rw [List.mem_singleton] at hi
      omega

end ReadTest

/-! ### A whole stream -/

/-- What the reads `chunks` add to `err_cnt_sum`. -/
def counted : List (List UInt8) → Nat
  | [] => 0
  | chunk :: chunks => breaks Succeeds 0 chunk + (chunks.map (breaksWithin Succeeds)).sum

/-- The breaks at their seams. -/
def lost : List (List UInt8) → Nat
  | [] => 0
  | chunk :: chunks => seamBreaks Succeeds (chunk.getLastD 0) chunks

theorem discontinuities_flatten (chunks : List (List UInt8)) :
    discontinuities chunks.flatten = counted chunks + lost chunks := by
  cases chunks with
  | nil => rfl
  | cons chunk chunks =>
    rw [discontinuities, List.flatten_cons, breaks_append, breaks_flatten, counted, lost]
    omega

theorem seamless_iff (chunks : List (List UInt8)) :
    Seamless chunks ↔ [] ∉ chunks ∧ lost chunks = 0 := by
  apply and_congr_right
  intro hne
  cases chunks with
  | nil => simp [lost]
  | cons chunk chunks =>
    cases chunk with
    | nil => exact absurd (List.mem_cons_self ..) hne
    | cons b l =>
      rw [lost, List.getLastD_cons]
      exact (seamBreaks_eq_zero_iff fun h => hne (List.mem_cons_of_mem _ h)).symm

section
variable {maxLength : Nat} {s : ReadTest} {chunks : List (List UInt8)}

theorem step_bytes (hreturned : s.returned = false) {chunk : List UInt8}
    (hlen : chunk.length ≤ maxLength) :
    (readTest maxLength ReadTest.dmaTurn).step s (.bytes chunk) = some (s.fed chunk) := by
  have hfits : ¬ maxLength < chunk.length := by omega
  simp [readTest, ReadAnswer.chunk, ReadAnswer.ret, hreturned, hfits, ReadTest.fed]

/-- After the first read every read adds the breaks within it. -/
theorem run_bytes (hreturned : s.returned = false) (hfirst : s.isFirstRead = false)
    (hlen : ∀ chunk ∈ chunks, chunk.length ≤ maxLength) {n : Int} (hn : s.errCntSum = int32 n) :
    ∃ t, (readTest maxLength ReadTest.dmaTurn).run s (chunks.map .bytes) = some t ∧
      t.errCntSum = int32 (n + (chunks.map (breaksWithin Succeeds)).sum) ∧
      (t.Inside ↔ s.Inside ∧ [] ∉ chunks) := by
  induction chunks generalizing s n with
  | nil => exact ⟨s, rfl, by simpa using hn, by simp⟩
  | cons chunk chunks ih =>
    have hstep := step_bytes hreturned (hlen chunk (List.mem_cons_self ..))
    have herr : (s.fed chunk).errCntSum = int32 (n + breaksWithin Succeeds chunk) := by
      rw [ReadTest.fed_errCntSum, hfirst, if_neg (by decide), hn, int32_add]
    obtain ⟨t, hrun, hsum, hinside⟩ := ih (by rw [ReadTest.fed_returned, hreturned])
      (ReadTest.fed_isFirstRead s chunk) (fun c hc => hlen c (List.mem_cons_of_mem _ hc)) herr
    refine ⟨t, Machine.run_cons_iff.mpr ⟨_, hstep, hrun⟩, ?_, ?_⟩
    · rw [hsum, List.map_cons, List.sum_cons, Nat.cast_add, Int.add_assoc]
    · rw [hinside, ReadTest.fed_inside, List.mem_cons, not_or, and_assoc, ne_comm]

theorem run_start (data : Int → UInt8) (hlen : ∀ chunk ∈ chunks, chunk.length ≤ maxLength) :
    ∃ t, (readTest maxLength ReadTest.dmaTurn).run (.start data) (chunks.map .bytes) = some t ∧
      t.errCntSum = int32 (counted chunks) ∧ (t.Inside ↔ [] ∉ chunks) := by
  have hnone : (ReadTest.start data).Inside := fun _ h => absurd h List.not_mem_nil
  cases chunks with
  | nil =>
    have hzero : int32 0 = 0 := int32_of_lt (Int.le_refl 0) (by decide)
    exact ⟨_, rfl, hzero.symm, by simp [hnone]⟩
  | cons chunk chunks =>
    have hstep := step_bytes (s := .start data) rfl (hlen chunk (List.mem_cons_self ..))
    have herr : ((ReadTest.start data).fed chunk).errCntSum =
        int32 (breaks Succeeds 0 chunk : Nat) := by
      rw [ReadTest.fed_errCntSum]
      exact congrArg int32 (Int.zero_add _)
    obtain ⟨t, hrun, hsum, hinside⟩ := run_bytes (by rw [ReadTest.fed_returned]; rfl)
      (ReadTest.fed_isFirstRead _ chunk) (fun c hc => hlen c (List.mem_cons_of_mem _ hc)) herr
    refine ⟨t, Machine.run_cons_iff.mpr ⟨_, hstep, hrun⟩, ?_, ?_⟩
    · rw [hsum, counted, Nat.cast_add]
    · rw [hinside, ReadTest.fed_inside, List.mem_cons, not_or, and_assoc, ne_comm]
      exact ⟨And.right, And.intro hnone⟩

end

/-- Two runs over `stream` have counted the same, and what one read of it all counts, which are
its discontinuities, and have read no element outside what they were given last. -/
def CountAlike (stream : List UInt8) (s t : ReadTest) : Prop :=
  s.errCntSum = t.errCntSum ∧
  (∀ data, Holds data stream → s.errCntSum = (checkDataInc 0 0 data stream.length).errCnt) ∧
  s.errCntSum = discontinuities stream ∧ s.Inside ∧ t.Inside

theorem int32_counted {n m : Nat} : int32 n = (n + m : Nat) ↔ m = 0 ∧ n + m < 2 ^ 31 := by
  have hlt := int32_lt n
  constructor
  · intro h
    have hn : int32 n = n := int32_of_lt (by omega) (by omega)
    omega
  · rintro ⟨rfl, hn⟩
    exact int32_of_lt (by omega) (by omega)

/-- The runs over two cuttings of one stream agree exactly if both are seamless and the number
fits its `int`. -/
theorem countAlike_iff {maxLength : Nat} (data data' : Int → UInt8)
    {cs ds : List (List UInt8)} {stream : List UInt8} (hcs : cs.flatten = stream)
    (hds : ds.flatten = stream) (hlen : ∀ c ∈ cs ++ ds, c.length ≤ maxLength) :
    ∃ s t, (readTest maxLength ReadTest.dmaTurn).run (.start data) (cs.map .bytes) = some s ∧
      (readTest maxLength ReadTest.dmaTurn).run (.start data') (ds.map .bytes) = some t ∧
      (CountAlike stream s t ↔
        Seamless cs ∧ Seamless ds ∧ discontinuities stream < 2 ^ 31) := by
  obtain ⟨s, hs, hsum, hinside⟩ :=
    run_start data fun c hc => hlen c (List.mem_append_left _ hc)
  obtain ⟨t, ht, htsum, htinside⟩ :=
    run_start data' fun c hc => hlen c (List.mem_append_right _ hc)
  have hdis := discontinuities_flatten cs
  have hdis' := discontinuities_flatten ds
  rw [hcs] at hdis
  rw [hds] at hdis'
  refine ⟨s, t, hs, ht, ?_⟩
  rw [seamless_iff, seamless_iff, CountAlike, hinside, htinside, hsum, htsum]
  constructor
  · rintro ⟨hsame, -, hall, hne, hne'⟩
    have hall' := hsame.symm.trans hall
    rw [hdis] at hall
    rw [hdis'] at hall'
    obtain ⟨hlost, hfits⟩ := int32_counted.mp hall
    exact ⟨⟨hne, hlost⟩, ⟨hne', (int32_counted.mp hall').1⟩, by omega⟩
  · rintro ⟨⟨hne, hlost⟩, ⟨hne', hlost'⟩, hfits⟩
    have hall : int32 (counted cs) = discontinuities stream := by
      rw [hdis]
      exact int32_counted.mpr ⟨hlost, by omega⟩
    have hall' : int32 (counted ds) = discontinuities stream := by
      rw [hdis']
      exact int32_counted.mpr ⟨hlost', by omega⟩
    refine ⟨hall.trans hall'.symm, fun d hd => ?_, hall, hne, hne'⟩
    rw [checkDataInc_first hd]
    exact hall

theorem cmdStatusTransRwTest_eq : cmdStatusTransRwTest = readTest 0x1000 ReadTest.dmaTurn := by
  have hturn : ReadTest.statusTurn = ReadTest.dmaTurn := by
    funext s readRet
    exact s.statusTurn_eq readRet
  rw [cmdStatusTransRwTest, hturn]

/-- For every stream of the device and every two ways it comes in reads, in `read_dma_test` and in
`cmd_status_trans_rw_test`: the two runs over it agree, count its discontinuities and stay in
the bytes they were given exactly if no read is empty, every read goes on where the one before
ended, and the number of discontinuities fits `err_cnt_sum`. -/
theorem readTests_countAlike (data data' : Int → UInt8) {cs ds : List (List UInt8)}
    {stream : List UInt8} (hcs : cs.flatten = stream) (hds : ds.flatten = stream) :
    ((∀ c ∈ cs ++ ds, c.length ≤ AcqDataTrans.maxDmaLength) →
      ∃ s t, readDmaTest.run (.start data) (cs.map .bytes) = some s ∧
        readDmaTest.run (.start data') (ds.map .bytes) = some t ∧
        (CountAlike stream s t ↔
          Seamless cs ∧ Seamless ds ∧ discontinuities stream < 2 ^ 31)) ∧
    ((∀ c ∈ cs ++ ds, c.length ≤ 0x1000) →
      ∃ s t, cmdStatusTransRwTest.run (.start data) (cs.map .bytes) = some s ∧
        cmdStatusTransRwTest.run (.start data') (ds.map .bytes) = some t ∧
        (CountAlike stream s t ↔
          Seamless cs ∧ Seamless ds ∧ discontinuities stream < 2 ^ 31)) := by
  constructor
  · exact countAlike_iff data data' hcs hds
  · rw [cmdStatusTransRwTest_eq]
    exact countAlike_iff data data' hcs hds

/-- The bytes 1, 2, 3 in two reads, and in one. -/
theorem readTests_countAlike_upToThree : ∃ s t,
    readDmaTest.run (.start fun _ => 0) [.bytes [1, 2], .bytes [3]] = some s ∧
    readDmaTest.run (.start fun _ => 0) [.bytes [1, 2, 3]] = some t ∧
    CountAlike [1, 2, 3] s t := by
  have htwo : List.flatten [[1, 2], [3]] = ([1, 2, 3] : List UInt8) := rfl
  have hone : List.flatten [[1, 2, 3]] = ([1, 2, 3] : List UInt8) := rfl
  obtain ⟨s, t, hs, ht, h⟩ :=
    (readTests_countAlike (fun _ => 0) (fun _ => 0) htwo hone).1 (by decide)
  exact ⟨s, t, hs, ht, h.mpr (by decide)⟩

/-- The bytes 1 and 5 in two reads are no error, and in one read they are; and after an empty
read the element before the array is read. -/
theorem brokenSeam_not_counted :
    (∃ s t, readDmaTest.run (.start fun _ => 0) [.bytes [1], .bytes [5]] = some s ∧
      readDmaTest.run (.start fun _ => 0) [.bytes [1, 5]] = some t ∧
      s.errCntSum = 0 ∧ t.errCntSum = 1 ∧ ¬ CountAlike [1, 5] s t) ∧
    (∃ s t, cmdStatusTransRwTest.run (.start fun _ => 0) [.bytes [1], .bytes [5]] = some s ∧
      cmdStatusTransRwTest.run (.start fun _ => 0) [.bytes [1, 5]] = some t ∧
      s.errCntSum = 0 ∧ t.errCntSum = 1 ∧ ¬ CountAlike [1, 5] s t) ∧
    ∃ s, readDmaTest.run (.start fun _ => 0) [.bytes [1], .bytes []] = some s ∧
      (-1, 1) ∈ s.accesses ∧ ¬ CountAlike [1] s s := by
  have hdiffer : ∀ {s t : ReadTest}, s.errCntSum = 0 → t.errCntSum = 1 →
      ¬ CountAlike [1, 5] s t := by
    intro s t hs ht h
    have hsame := h.1
    omega
  refine ⟨?_, ?_, ?_⟩
  · have hs : (readDmaTest.run (.start fun _ => 0) [.bytes [1], .bytes [5]]).map
        ReadTest.errCntSum = some 0 := by decide +kernel
    have ht : (readDmaTest.run (.start fun _ => 0) [.bytes [1, 5]]).map
        ReadTest.errCntSum = some 1 := by decide +kernel
    obtain ⟨s, hs, hsum⟩ := Option.map_eq_some_iff.mp hs
    obtain ⟨t, ht, htsum⟩ := Option.map_eq_some_iff.mp ht
    exact ⟨s, t, hs, ht, hsum, htsum, hdiffer hsum htsum⟩
  · have hs : (cmdStatusTransRwTest.run (.start fun _ => 0) [.bytes [1], .bytes [5]]).map
        ReadTest.errCntSum = some 0 := by decide +kernel
    have ht : (cmdStatusTransRwTest.run (.start fun _ => 0) [.bytes [1, 5]]).map
        ReadTest.errCntSum = some 1 := by decide +kernel
    obtain ⟨s, hs, hsum⟩ := Option.map_eq_some_iff.mp hs
    obtain ⟨t, ht, htsum⟩ := Option.map_eq_some_iff.mp ht
    exact ⟨s, t, hs, ht, hsum, htsum, hdiffer hsum htsum⟩
  · have hs : (readDmaTest.run (.start fun _ => 0) [.bytes [1], .bytes []]).map
        ReadTest.accesses = some [(0, 1), (0, 1), (0, 1), (-1, 1)] := by decide +kernel
    obtain ⟨s, hs, haccesses⟩ := Option.map_eq_some_iff.mp hs
    have hmem : (-1, 1) ∈ s.accesses := by
      rw [haccesses]
      decide
    refine ⟨s, hs, hmem, fun h => ?_⟩
    have hinside := h.2.2.2.1 _ hmem
    omega

end ITrace.Test
