import ITrace.AcqDataTrans.Proofs.Moves
import ITrace.Misc.Ring

/-!
# The turns of the two buffers

The invariant of the acquisition pipeline. The two indices travel in a circle: DMA pipe, reader,
socket pipe, sender. Numbering the turns of both together, turn `k` is buffer `k % 2`, and the
four counters of the history cut the turns `[returned, returned + 2)` into the windows that the
sender's hand, the socket pipe, the reader's hand and the DMA pipe hold. The chunk of turn `k` is
the `k`-th the device delivered, and it sits in buffer `k % 2` until the sender has returned the
turn.
-/

namespace ITrace.AcqDataTrans

open ITrace.Ring

/-- The buffer of turn `k`. -/
def slot (k : Nat) : Fin 2 := ⟨k % 2, Nat.mod_lt k (by decide)⟩

/-- The index that stands for turn `k` in the pipes. -/
def token (k : Nat) : UInt8 := UInt8.ofNat (k % 2)

@[simp] theorem bufAt_token (k : Nat) : bufAt (token k) = some (slot k) := by
  rcases Nat.mod_two_eq_zero_or_one k with h | h <;> simp [bufAt, token, slot, h]

theorem slot_ne {j k : Nat} (hjk : j < k) (hk : k < j + 2) : slot j ≠ slot k := by
  intro h
  exact mod_ne_mod hjk hk (congrArg Fin.val h)

/-- Buffer `k % 2` holds `chunk`. -/
def Holds (s : State) (k : Nat) (chunk : List UInt8) : Prop :=
  (s.bufs (slot k)).length = chunk.length ∧
  s.mem.load (s.bufs (slot k)).data chunk.length = chunk

/-- The bytes of the chunks whose sending is over. -/
def sentBytes (s : State) : List UInt8 := (s.hist.delivered.take s.hist.sent).flatten

/-- The reader is `t` turns, `d` chunks and `r` device reads ahead of what it put into the socket
pipe. -/
def ReaderAhead (s : State) (t d r : Nat) : Prop :=
  s.hist.taken = s.hist.filled + t ∧ s.hist.delivered.length = s.hist.filled + d ∧
  s.hist.reads.length = s.hist.filled + r

/-- What holds at each program counter of `read_dma_thread`. -/
def ReaderAt (s : State) : Prop :=
  match s.reader.pc with
  | .whileCond | .readIndex | .testZero | .exited .stop | .exited .readIndexFailed =>
      ReaderAhead s 0 0 0
  | .setOffset => ReaderAhead s 1 0 0 ∧ s.reader.bufIndex = token s.hist.filled
  | .readDevice =>
      ReaderAhead s 1 0 0 ∧ s.reader.bufIndex = token s.hist.filled ∧
      s.addrOffset = some (token s.hist.filled)
  | .inRead => ReaderAhead s 1 0 1 ∧ s.reader.bufIndex = token s.hist.filled
  | .testNegative =>
      (if (s.bufs (slot s.hist.filled)).length < 0 then ReaderAhead s 1 0 1
        else ReaderAhead s 1 1 1) ∧ s.reader.bufIndex = token s.hist.filled
  | .writeIndex => ReaderAhead s 1 1 1 ∧ s.reader.bufIndex = token s.hist.filled
  | .exited .deviceFailed => ReaderAhead s 1 0 1
  | .exited .writeIndexFailed => ReaderAhead s 1 1 1

/-- The sender holds `held` turns, of which it has finished `sent`. -/
def SenderAhead (s : State) (held sent : Nat) : Prop :=
  s.hist.picked = s.hist.returned + held ∧ s.hist.sent = s.hist.returned + sent

/-- The sender has written the part `p` of the chunk of its turn. -/
def Partly (s : State) (chunk p : List UInt8) : Prop :=
  s.hist.delivered[s.hist.returned]? = some chunk ∧ p <+: chunk ∧ s.socketOut = sentBytes s ++ p

/-- `writen` is at `call` with the chunk of the sender's turn and has put `put` bytes of it. -/
def Writing (s : State) (chunk : List UInt8) (put : Nat) (call : Call Writen) : Prop :=
  WritenAt (s.bufs (slot s.hist.returned)).data chunk.length put call ∧
  Partly s chunk (chunk.take put)

/-- What holds at each program counter of `send_acq_data_thread`. -/
def SenderAt (s : State) : Prop :=
  match s.sender.pc with
  | .whileCond | .readIndex | .exited .stop | .exited .readIndexFailed =>
      SenderAhead s 0 0 ∧ s.socketOut = sentBytes s
  | .testLength =>
      SenderAhead s 1 0 ∧ s.socketOut = sentBytes s ∧ s.sender.bufIndex = token s.hist.returned
  | .writeSocket call =>
      SenderAhead s 1 0 ∧ s.sender.bufIndex = token s.hist.returned ∧
      ∃ chunk put, Writing s chunk put (.running call)
  | .testSent ret =>
      SenderAhead s 1 0 ∧ s.sender.bufIndex = token s.hist.returned ∧
      ∃ chunk put, Writing s chunk put (.returned ret)
  | .writeIndex =>
      SenderAhead s 1 1 ∧ s.socketOut = sentBytes s ∧ s.sender.bufIndex = token s.hist.returned
  | .exited .socketFailed => SenderAhead s 1 0 ∧ ∃ chunk p, Partly s chunk p
  | .exited .writeIndexFailed => SenderAhead s 1 1 ∧ s.socketOut = sentBytes s

/-- The counters run around the circle in order and the reader never gains a whole revolution. -/
structure InOrder (h : History) : Prop where
  returned_picked : h.returned ≤ h.picked
  picked_filled : h.picked ≤ h.filled
  filled_delivered : h.filled ≤ h.delivered.length
  delivered_taken : h.delivered.length ≤ h.taken
  taken_returned : h.taken ≤ h.returned + 2

/-- The invariant of the pipeline whose mapping starts at `startAddr`. -/
structure PipelineInv (startAddr : Nat) (s : State) : Prop where
  inOrder : InOrder s.hist
  dmaPipe : s.dmaPipe = window token s.hist.taken (s.hist.returned + 2)
  socketPipe : s.socketPipe = window token s.hist.picked s.hist.filled
  data : ∀ i : Fin 2, (s.bufs i).data = i * maxDmaLength + startAddr
  reads : ∀ k r, s.hist.reads[k]? = some r →
    r = DmaRead.mk (some (token k)) (slot k * maxDmaLength + startAddr)
  bounded : ∀ chunk ∈ s.hist.delivered, chunk.length ≤ maxDmaLength
  holds : ∀ k chunk, s.hist.returned ≤ k → s.hist.delivered[k]? = some chunk → Holds s k chunk
  reader : ReaderAt s
  sender : SenderAt s

theorem pipelineInv_of_started {startAddr : Nat} {s : State} (h : Started startAddr s) :
    PipelineInv startAddr s := by
  obtain ⟨hbufs, hdma, hsocket, hout, hr, hs, hh⟩ := h
  have hdata : ∀ i : Fin 2, (s.bufs i).data = i * maxDmaLength + startAddr := by
    intro i
    have := hbufs i
    simp only [initDmaReadBuffer, if_true, Option.some.injEq] at this
    rw [← this]
  refine ⟨?_, ?_, ?_, hdata, ?_, ?_, ?_, ?_, ?_⟩
  · rw [hh]
    constructor <;> simp
  · rw [hdma, hh]
    decide
  · rw [hsocket, hh]
    rfl
  · simp [hh]
  · simp [hh]
  · simp [hh]
  · simp [ReaderAt, hr, ReaderAhead, hh]
  · simp [SenderAt, hs, SenderAhead, sentBytes, hh, hout]

/-! ### Buffers -/

/-- The halves of the mapping do not meet. -/
theorem halves_disjoint {i j : Nat} (hij : i ≠ j) {n m startAddr : Nat} (hn : n ≤ maxDmaLength)
    (hm : m ≤ maxDmaLength) :
    i * maxDmaLength + startAddr + n ≤ j * maxDmaLength + startAddr ∨
    j * maxDmaLength + startAddr + m ≤ i * maxDmaLength + startAddr := by
  rcases Nat.lt_or_gt_of_ne hij with h | h
  · have := Nat.mul_le_mul_right maxDmaLength h
    rw [Nat.succ_mul] at this
    omega
  · have := Nat.mul_le_mul_right maxDmaLength h
    rw [Nat.succ_mul] at this
    omega

namespace PipelineInv

variable {startAddr : Nat} {s s' : State}

/-- What is stored into another buffer leaves the chunk of a turn in place. -/
theorem holds_store (h : PipelineInv startAddr s) {k j : Nat} {chunk bytes : List UInt8}
    (hne : slot k ≠ slot j) (hchunk : chunk.length ≤ maxDmaLength)
    (hbytes : bytes.length ≤ maxDmaLength) (hk : Holds s k chunk) :
    (s.mem.store (s.bufs (slot j)).data bytes).load (s.bufs (slot k)).data chunk.length = chunk := by
  rw [Mem.load_store_of_disjoint, hk.2]
  rw [h.data, h.data]
  exact halves_disjoint (fun he => hne (Fin.ext he)) hchunk hbytes

/-- The turns that hold a chunk are not the one the reader fills. -/
theorem slot_ne_filled (h : PipelineInv startAddr s) {k : Nat}
    (hpc : s.hist.delivered.length = s.hist.filled) (htaken : s.hist.taken = s.hist.filled + 1)
    (hk : s.hist.returned ≤ k) (hlt : k < s.hist.delivered.length) :
    slot k ≠ slot s.hist.filled := by
  have := h.inOrder.taken_returned
  exact slot_ne (by omega) (by omega)

/-- The sender has not sent more than was delivered. -/
theorem sent_le (h : PipelineInv startAddr s) : s.hist.sent ≤ s.hist.delivered.length := by
  have hs := h.sender
  have h₁ := h.inOrder.returned_picked
  have h₂ := h.inOrder.picked_filled
  have h₃ := h.inOrder.filled_delivered
  unfold SenderAt SenderAhead at hs
  split at hs <;> omega

end PipelineInv

end ITrace.AcqDataTrans
