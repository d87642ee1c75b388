import ITrace.LinuxSocket.SocketProtocol
import ITrace.Misc.Budget

/-!
# `read_data` and `write_data` move exactly what they are asked to

For lengths that are not negative as an `int` the two are loops that transfer a buffer and give up
at the eleventh call in a row that moved nothing, or at an error.
-/

namespace ITrace.LinuxSocket

open ITrace

/-- The loop of `read_data` and of `write_data`. -/
def dataLoop : IoLoop DataLoop := ⟨fun l => l.ptr.toNat, DataLoop.count, DataLoop.step⟩

/-- The calls in a row that may move nothing; the last of them ends the loop. -/
def maxZeros : Nat := 11

variable {fd : Int} {buf n : Nat}

theorem data_moves (buf : Nat) (hn : n < 2 ^ 31) :
    dataLoop.Moves (fun l => l.leftLen.toNat) buf n (DataAt buf n) := by
  constructor
  · intro moved l h
    show l.ptr.toNat = buf + moved
    rw [h.ptr_eq]
    omega
  · intro moved l h
    have hcount := h.count_eq hn
    have hleft := h.2.2.2
    show l.count ≤ l.leftLen.toNat
    omega
  · intro moved l h
    obtain ⟨-, -, hpos, hleft⟩ := h
    omega
  · intro moved l k h hk
    exact h.step_ok hn hk
  · intro moved l h e
    exact h.step_err e

theorem data_givesUp (buf : Nat) (hn : n < 2 ^ 31) :
    dataLoop.GivesUp n DataLoop.maxCount maxZeros (DataAt buf n) := by
  constructor
  · intro moved l h
    have hcount := h.count_eq hn
    obtain ⟨-, -, hpos, hleft⟩ := h
    show 0 < l.count
    omega
  · intro moved l k h hk hle
    have hcount := h.count_eq hn
    obtain ⟨-, -, hpos, hleft⟩ := h
    replace hle : k ≤ l.count := hle
    have hk' : int32 k = k := int32_of_lt (by omega) (by omega)
    have hrest : int32 (l.leftLen - k) = l.leftLen - k := int32_of_lt (by omega) (by omega)
    have hstep : l.step (.ok k) =
        DataLoop.loop { l with maxCount := 0, leftLen := l.leftLen - k } := by
      rw [DataLoop.step, hk', if_pos (by omega), hrest]
    show (∃ l', l.step (.ok k) = .running l' ∧ _) ∨ ∃ ret, l.step (.ok k) = .returned ret ∧ _
    rw [hstep, DataLoop.loop]
    by_cases hall : l.leftLen - k = 0
    · rw [if_neg (not_not_intro hall)]
      exact .inr ⟨_, rfl, by omega⟩
    · rw [if_pos hall]
      exact .inl ⟨_, rfl, rfl⟩
  · intro moved l h
    have hpos := h.2.2.1
    have hzero : int32 (0 : Nat) = 0 := int32_of_lt (Int.le_refl 0) (by decide)
    show (∃ l', l.step (.ok 0) = .running l' ∧ _) ∨ ∃ ret, l.step (.ok 0) = .returned ret ∧ _
    rw [DataLoop.step, hzero, if_neg (Int.lt_irrefl 0), if_pos rfl]
    by_cases hlast : l.maxCount + 1 > 10
    · rw [if_pos hlast]
      exact .inr ⟨_, rfl, hlast⟩
    · rw [if_neg hlast, DataLoop.loop, if_pos (by simp only; omega)]
      refine .inl ⟨_, rfl, rfl, ?_⟩
      show l.maxCount + 1 < 11
      omega
  · intro moved l h e
    exact ⟨_, rfl⟩

theorem dataLoop_atStart {len : Int} (hlen : len = n) :
    IoLoop.AtStart n DataLoop.maxCount (DataLoop.loop ⟨fd, buf, len, len, 0⟩) := by
  subst hlen
  rw [DataLoop.loop]
  by_cases hzero : (n : Int) = 0
  · rw [if_neg (not_not_intro hzero)]
    exact .inr ⟨_, rfl, by omega⟩
  · rw [if_pos hzero]
    exact .inl ⟨_, rfl, rfl⟩

/-- What the answers `es` tell about a call for `n` bytes that has moved `moved` of them. -/
def DataTold (n : Nat) (es : List SysResult) (moved : Nat) : Call DataLoop → Prop
  | .running l => l.maxCount = zerosAtEnd es ∧ moved < n ∧ ¬ GaveUp maxZeros es
  | .returned ret =>
      (ret = 1 ∧ moved = n ∧ ¬ GaveUp maxZeros es) ∨ (ret = -1 ∧ moved < n ∧ GaveUp maxZeros es)

theorem dataTold {es : List SysResult} {start c : Call DataLoop} {moved : Nat} (hn : n < 2 ^ 31)
    (hat : DataAt buf n 0 start) (hstart : IoLoop.AtStart n DataLoop.maxCount start)
    (hrun : (dataLoop.calls start).run start es = some c) (hmoved : DataAt buf n moved c) :
    DataTold n es moved c := by
  obtain ⟨htold, hsaid⟩ :=
    IoLoop.Told.run (data_moves buf hn) (data_givesUp buf hn) (by decide) hat hstart hrun
  cases c with
  | running l =>
    obtain ⟨-, -, hpos, hleft⟩ := hmoved
    exact ⟨hsaid.1, by omega, hsaid.2⟩
  | returned ret =>
    rcases hmoved with ⟨hret, hall⟩ | ⟨hret, hlt⟩
    · refine .inl ⟨hret, hall, ?_⟩
      rcases hsaid with ⟨-, hgoes⟩ | ⟨hlt, -⟩
      · exact hgoes
      · have hall := htold.all_moved hret
        omega
    · refine .inr ⟨hret, hlt, ?_⟩
      rcases hsaid with ⟨hall, -⟩ | ⟨-, hgave⟩
      · rcases htold with ⟨hone, -⟩ | ⟨-, hless⟩ <;> omega
      · exact hgave

theorem DataAt.moved_le {moved : Nat} {c : Call DataLoop} (h : DataAt buf n moved c) :
    moved ≤ n := by
  cases c with
  | running l =>
    obtain ⟨-, -, hpos, hleft⟩ := h
    omega
  | returned ret => rcases h with ⟨-, hall⟩ | ⟨-, hlt⟩ <;> omega

/-- For every length that is not negative as an `int`, at every point of every run, `write_data`
has sent the beginning of its buffer, and `read_data` has stored the beginning of the stream,
and has taken no more from it. They return 1 exactly with all of it, -1 exactly after an error or
eleven calls in a row that moved nothing; the calls that count for this are those since the
last that moved something. On every script they return, after at most 11 calls for each byte. -/
theorem dataLoops_exact (m : Mem UInt8) (fd : Int) (buf n : Nat) (hn : n < 2 ^ 31) :
    ((∀ es s, (dataLoop.sending m (writeData fd buf n)).run ⟨writeData fd buf n, []⟩ es = some s →
        es.length ≤ 11 * n ∧ s.out <+: m.load buf n ∧ DataTold n es s.out.length s.call) ∧
      ∀ script : Nat → SysResult, (dataLoop.sending m (writeData fd buf n)).Follows
          (fun s => ∃ ret, s.call = .returned ret) ⟨writeData fd buf n, []⟩ script →
        ∃ k s ret, k ≤ 11 * n ∧ (dataLoop.sending m (writeData fd buf n)).follow
          ⟨writeData fd buf n, []⟩ script k = some s ∧ s.call = .returned ret) ∧
    ∀ (stream : List UInt8) (maxBufLen : UInt32), maxBufLen.toNat = n →
      (∀ es s, (dataLoop.receiving m stream (readData fd buf maxBufLen)).run
          ⟨readData fd buf maxBufLen, m, stream⟩ es = some s →
        ∃ got, es.length ≤ 11 * n ∧ got ≤ n ∧ got ≤ stream.length ∧
          s.mem = m.store buf (stream.take got) ∧ s.mem.load buf got = stream.take got ∧
          s.incoming = stream.drop got ∧ DataTold n es got s.call) ∧
      ∀ script : Nat → SysResult, (dataLoop.receiving m stream (readData fd buf maxBufLen)).Follows
          (fun s => ∃ ret, s.call = .returned ret) ⟨readData fd buf maxBufLen, m, stream⟩ script →
        ∃ k s ret, k ≤ 11 * n ∧ (dataLoop.receiving m stream (readData fd buf maxBufLen)).follow
          ⟨readData fd buf maxBufLen, m, stream⟩ script k = some s ∧ s.call = .returned ret := by
  have hmoves := data_moves buf hn
  have hgives := data_givesUp buf hn
  have hlimit : 0 < maxZeros := by decide
  constructor
  · have hat := writeData_at fd buf n
    have hstart : IoLoop.AtStart n DataLoop.maxCount (writeData fd buf n) := dataLoop_atStart rfl
    constructor
    · intro es s hrun
      obtain ⟨hmoved, hout⟩ := hmoves.sent hat hrun
      have hcalls := IoLoop.calls_of_sending hrun
      refine ⟨hgives.length_le hmoves hlimit hat hstart hcalls, ?_, ?_⟩
      · rw [hout]
        exact m.load_prefix buf hmoved.moved_le
      · exact dataTold hn hat hstart hcalls hmoved
    · intro script hfollows
      exact hgives.returns hmoves hlimit hat hstart (fun es t => IoLoop.calls_of_sending) hfollows
  · rintro stream maxBufLen rfl
    have hat := readData_at fd buf hn
    have hstart : IoLoop.AtStart maxBufLen.toNat DataLoop.maxCount
        (readData fd buf maxBufLen) := by
      rw [readData, int32_of_lt (by omega) (by omega)]
      exact dataLoop_atStart rfl
    constructor
    · intro es s hrun
      obtain ⟨got, hgot, hle, hmem, hin⟩ := hmoves.received hat hrun
      have hcalls := IoLoop.calls_of_receiving hrun
      have hlen : (stream.take got).length = got := List.length_take_of_le hle
      have hload := Mem.load_store_same m buf (stream.take got)
      rw [hlen, ← hmem] at hload
      exact ⟨got, hgives.length_le hmoves hlimit hat hstart hcalls, hgot.moved_le, hle, hmem,
        hload, hin, dataTold hn hat hstart hcalls hgot⟩
    · intro script hfollows
      exact hgives.returns hmoves hlimit hat hstart (fun es t => IoLoop.calls_of_receiving) hfollows

/-- Two of three bytes are read, with a call between that moves nothing; a write that is answered
with eleven zeros fails after its first byte. -/
theorem dataLoops_exact_twoOfThree :
    (∃ s, (dataLoop.receiving (fun _ => (0 : UInt8)) [1, 2, 3] (readData 5 0 2)).run
        ⟨readData 5 0 2, fun _ => 0, [1, 2, 3]⟩ [.ok 1, .ok 0, .ok 1] = some s ∧
      s.call = .returned 1 ∧ s.mem.load 0 2 = [1, 2] ∧ s.incoming = [3]) ∧
    ∃ s, (dataLoop.sending (fun i => UInt8.ofNat (7 + i)) (writeData 5 0 2)).run
        ⟨writeData 5 0 2, []⟩ (.ok 1 :: List.replicate 11 (.ok 0)) = some s ∧
      s.call = .returned (-1) ∧ s.out <+: [7, 8] ∧
      GaveUp maxZeros (.ok 1 :: List.replicate 11 (.ok 0)) := by
  constructor
  · have hrun : ((dataLoop.receiving (fun _ => (0 : UInt8)) [1, 2, 3] (readData 5 0 2)).run
        ⟨readData 5 0 2, fun _ => 0, [1, 2, 3]⟩ [.ok 1, .ok 0, .ok 1]).map
          (fun s => (s.call, s.incoming)) = some (.returned 1, [3]) := by decide +kernel
    obtain ⟨s, hs, hend⟩ := Option.map_eq_some_iff.mp hrun
    obtain ⟨hret, hin⟩ := Prod.mk.inj hend
    obtain ⟨got, -, -, -, -, hload, -, htold⟩ :=
      ((dataLoops_exact (fun _ => (0 : UInt8)) 5 0 2 (by decide)).2 [1, 2, 3] 2 rfl).1 _ s hs
    rw [hret] at htold
    obtain ⟨-, rfl, -⟩ | ⟨hneg, -⟩ := htold
    · exact ⟨s, hs, hret, hload, hin⟩
    · cases hneg
  · have hrun : ((dataLoop.sending (fun i => UInt8.ofNat (7 + i)) (writeData 5 0 2)).run
        ⟨writeData 5 0 2, []⟩ (.ok 1 :: List.replicate 11 (.ok 0))).map (fun s => s.call) =
          some (.returned (-1)) := by decide +kernel
    obtain ⟨s, hs, hret⟩ := Option.map_eq_some_iff.mp hrun
    obtain ⟨-, hout, htold⟩ :=
      (dataLoops_exact (fun i => UInt8.ofNat (7 + i)) 5 0 2 (by decide)).1.1 _ s hs
    rw [hret] at htold
    obtain ⟨hone, -⟩ | ⟨-, -, hgave⟩ := htold
    · cases hone
    · exact ⟨s, hs, hret, hout, hgave⟩

/-! ### Lengths from the wire

`read_data` keeps its `unsigned int` length in an `int`. From `2 ^ 31` on that is negative: then the
first call already starts `2 ^ 32` bytes behind the beginning of the buffer and, as a `size_t`,
asks for almost all of the address space. -/

/-- The next call asks for a part of the `len` bytes from `buf` on, and the count of what is left
is not negative. -/
def StaysInside (buf : Int) (len : Nat) : Call DataLoop → Prop
  | .running l => buf ≤ l.ptr ∧ l.ptr + l.count ≤ buf + len ∧ 0 ≤ l.leftLen
  | .returned _ => True

theorem DataAt.staysInside {base : Int} {moved : Nat} {c : Call DataLoop}
    (h : DataAt base n moved c) (hn : n < 2 ^ 31) : StaysInside base n c := by
  cases c with
  | returned ret => trivial
  | running l =>
    have hptr := h.ptr_eq
    have hcount := h.count_eq hn
    have hpos := h.2.2.1
    exact ⟨by omega, by omega, by omega⟩

/-- Every state of a run has moved some bytes. -/
theorem calls_dataAt {base : Int} {es : List SysResult} {start c : Call DataLoop}
    (hn : n < 2 ^ 31) (hat : DataAt base n 0 start)
    (hrun : (dataLoop.calls start).run start es = some c) : ∃ moved, DataAt base n moved c := by
  refine Machine.run_invariant (I := fun c => ∃ moved, DataAt base n moved c) ?_ ⟨0, hat⟩ hrun
  rintro c answer d ⟨moved, hat⟩ he
  obtain ⟨l, rfl, rfl, hcount⟩ := IoLoop.calls_cases he
  cases answer with
  | ok k => exact ⟨moved + k, hat.step_ok hn hcount⟩
  | err e => exact ⟨moved, hat.step_err e⟩

/-- The first call for a length that does not fit an `int`. -/
theorem readData_negative (fd base : Int) {maxBufLen : UInt32} (hlen : 2 ^ 31 ≤ maxBufLen.toNat) :
    readData fd base maxBufLen =
      .running ⟨fd, base, maxBufLen.toNat, maxBufLen.toNat - 2 ^ 32, 0⟩ := by
  have hlt := maxBufLen.toNat_lt
  have hwrap : int32 maxBufLen.toNat = maxBufLen.toNat - 2 ^ 32 :=
    int32_of_ge (by omega) (by omega)
  rw [readData, hwrap, DataLoop.loop, if_pos (by simp only; omega)]

/-- For every length a head frame can carry: every call of every run of `read_data` stays inside
its buffer, with a count of bytes left that starts at the length and is never negative, exactly
if the length is below `2 ^ 31`. -/
theorem readData_inside_iff (fd base : Int) (maxBufLen : UInt32) :
    ((∀ l, readData fd base maxBufLen = .running l → l.leftLen = maxBufLen.toNat) ∧
      ∀ es c, (dataLoop.calls (readData fd base maxBufLen)).run (readData fd base maxBufLen) es =
        some c → StaysInside base maxBufLen.toNat c) ↔ maxBufLen.toNat < 2 ^ 31 := by
  constructor
  · rintro ⟨hstarts, -⟩
    by_contra hge
    have hfirst := hstarts _ (readData_negative fd base (by omega))
    simp only at hfirst
    omega
  · intro hlen
    have hat := readData_at fd base hlen
    refine ⟨fun l hl => ?_, fun es c hrun => ?_⟩
    · rw [hl] at hat
      have hleft := hat.2.2.2
      omega
    · obtain ⟨moved, hmoved⟩ := calls_dataAt hlen hat hrun
      exact hmoved.staysInside hlen

/-- A head frame with `len` `0x80000000`: no call of `read_data` is inside the buffer. -/
theorem readData_twoGiB_outside : ∃ l, readData 5 4096 0x80000000 = .running l ∧
    l.ptr = 4096 + 2 ^ 32 ∧ l.count = 2 ^ 64 - 2 ^ 31 ∧ l.leftLen = -2 ^ 31 ∧
    ¬ StaysInside 4096 (UInt32.toNat 0x80000000) (readData 5 4096 0x80000000) := by
  have hcall := readData_negative 5 4096 (by decide : 2 ^ 31 ≤ UInt32.toNat 0x80000000)
  refine ⟨_, hcall, by decide, by decide, by decide, ?_⟩
  rw [hcall]
  rintro ⟨-, -, hpos⟩
  revert hpos
  decide

end ITrace.LinuxSocket
