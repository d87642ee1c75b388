import ITrace.AcqDataTrans.Pipeline

/-!
# What a step of the reader or of the sender can do

The step functions of `Pipeline` turned over: for each place where a thread can stand, what its
next step needs and what it leaves. An index pipe answers with its first byte or with an error, and
an error that is transient leaves the thread where it is.
-/

namespace ITrace.AcqDataTrans

variable {socketFd : Int} {s s' : State}

/-! ### What the index pipes answer -/

theorem pipeRead_cases {b b' : UInt8} {pipe pipe' : List UInt8} {r : SysResult}
    (h : pipeRead b pipe r = some (pipe', b')) :
    (∃ e, r = .err e) ∨ (r = .ok 1 ∧ pipe = b' :: pipe') := by
  unfold pipeRead at h
  split at h
  · cases h
    exact .inr ⟨rfl, rfl⟩
  · exact .inl ⟨_, rfl⟩
  · cases h

theorem pipeWrite_cases {b : UInt8} {pipe pipe' : List UInt8} {r : SysResult}
    (h : pipeWrite b pipe r = some pipe') :
    (∃ e, r = .err e) ∨ (r = .ok 1 ∧ pipe' = pipe ++ [b]) := by
  unfold pipeWrite at h
  split at h
  · cases h
    exact .inr ⟨rfl, rfl⟩
  · exact .inl ⟨_, rfl⟩
  · cases h

theorem indexRead_err (e : Errno) :
    indexRead.step (.err e) = if e.transient then .running indexRead else .returned (-1) := rfl

theorem indexWrite_err (e : Errno) :
    indexWrite.step (.err e) = if e.transient then .running indexWrite else .returned (-1) := rfl

/-! ### The reader -/

/-- The steps of `read_dma_thread`. -/
inductive ReadDmaMove (s : State) : ReaderEvent → State → Prop
  | whileCond (hpc : s.reader.pc = .whileCond) :
      ReadDmaMove s .local
        { s with reader.pc := if s.sysStatus ≠ .stop then .readIndex else .exited .stop }
  | readIndex (hpc : s.reader.pc = .readIndex) {pipe : List UInt8} {b : UInt8}
      (hpipe : s.dmaPipe = b :: pipe) :
      ReadDmaMove s (.pipe (.ok 1))
        { s with dmaPipe := pipe, reader := ⟨.setOffset, b⟩, hist.taken := s.hist.taken + 1 }
  | readIndexErr (hpc : s.reader.pc = .readIndex) (e : Errno) :
      ReadDmaMove s (.pipe (.err e))
        (if e.transient then s else { s with reader.pc := .exited .readIndexFailed })
  | setOffset (hpc : s.reader.pc = .setOffset) :
      ReadDmaMove s .ioctl
        { s with addrOffset := some s.reader.bufIndex, reader.pc := .readDevice }
  | readStart (hpc : s.reader.pc = .readDevice) {i : Fin 2} (hi : bufAt s.reader.bufIndex = some i) :
      ReadDmaMove s .readStart
        { s with reader.pc := .inRead,
                 hist.reads := s.hist.reads ++ [⟨s.addrOffset, (s.bufs i).data⟩] }
  | readProgress (hpc : s.reader.pc = .inRead) {i : Fin 2} (hi : bufAt s.reader.bufIndex = some i)
      {bytes : List UInt8} (hlen : bytes.length ≤ maxDmaLength) :
      ReadDmaMove s (.readProgress bytes) { s with mem := s.mem.store (s.bufs i).data bytes }
  | readDone (hpc : s.reader.pc = .inRead) {i : Fin 2} (hi : bufAt s.reader.bufIndex = some i)
      {chunk : List UInt8} (hlen : chunk.length ≤ maxDmaLength) :
      ReadDmaMove s (.readDone chunk)
        { s with mem := s.mem.store (s.bufs i).data chunk,
                 bufs := Function.update s.bufs i { s.bufs i with length := chunk.length },
                 hist.delivered := s.hist.delivered ++ [chunk],
                 reader.pc := .testNegative }
  | readFailed (hpc : s.reader.pc = .inRead) {i : Fin 2} (hi : bufAt s.reader.bufIndex = some i)
      (e : Errno) :
      ReadDmaMove s (.readFailed e)
        { s with bufs := Function.update s.bufs i { s.bufs i with length := -1 },
                 reader.pc := .testNegative }
  | testNegative (hpc : s.reader.pc = .testNegative) {i : Fin 2}
      (hi : bufAt s.reader.bufIndex = some i) :
      ReadDmaMove s .local
        { s with reader.pc := if (s.bufs i).length < 0 then .exited .deviceFailed else .writeIndex }
  | writeIndex (hpc : s.reader.pc = .writeIndex) :
      ReadDmaMove s (.pipe (.ok 1))
        { s with socketPipe := s.socketPipe ++ [s.reader.bufIndex], reader.pc := .testZero,
                 hist.filled := s.hist.filled + 1 }
  | writeIndexErr (hpc : s.reader.pc = .writeIndex) (e : Errno) :
      ReadDmaMove s (.pipe (.err e))
        (if e.transient then s else { s with reader.pc := .exited .writeIndexFailed })
  | testZero (hpc : s.reader.pc = .testZero) :
      ReadDmaMove s .local { s with reader.pc := .whileCond }

theorem readDmaThread_move {e : ReaderEvent} (he : readDmaThread s e = some s') :
    ReadDmaMove s e s' := by
  unfold readDmaThread at he
  split at he
  case h_1 hpc =>
    cases he
    exact .whileCond hpc
  case h_2 hpc =>
    obtain ⟨⟨pipe, b⟩, hp, rfl⟩ := Option.map_eq_some_iff.mp he
    rcases pipeRead_cases hp with ⟨e, rfl⟩ | ⟨rfl, hpipe⟩
    · have hmove := ReadDmaMove.readIndexErr hpc e
      rw [indexRead_err]
      cases htransient : e.transient <;> simpa [htransient] using hmove
    · exact .readIndex hpc hpipe
  case h_3 hpc =>
    cases he
    exact .setOffset hpc
  case h_4 hpc =>
    obtain ⟨i, hi, rfl⟩ := Option.map_eq_some_iff.mp he
    exact .readStart hpc hi
  case h_5 hpc =>
    obtain ⟨i, hi, he⟩ := Option.bind_eq_some_iff.mp he
    obtain ⟨hlen, he⟩ := Option.ite_none_right_eq_some.mp he
    cases he
    exact .readProgress hpc hi hlen
  case h_6 hpc =>
    obtain ⟨i, hi, he⟩ := Option.bind_eq_some_iff.mp he
    obtain ⟨hlen, he⟩ := Option.ite_none_right_eq_some.mp he
    cases he
    exact .readDone hpc hi hlen
  case h_7 hpc =>
    obtain ⟨i, hi, rfl⟩ := Option.map_eq_some_iff.mp he
    exact .readFailed hpc hi _
  case h_8 hpc =>
    obtain ⟨i, hi, rfl⟩ := Option.map_eq_some_iff.mp he
    exact .testNegative hpc hi
  case h_9 hpc =>
    obtain ⟨pipe, hp, rfl⟩ := Option.map_eq_some_iff.mp he
    rcases pipeWrite_cases hp with ⟨e, rfl⟩ | ⟨rfl, rfl⟩
    · have hmove := ReadDmaMove.writeIndexErr hpc e
      rw [indexWrite_err]
      cases htransient : e.transient <;> simpa [htransient] using hmove
    · exact .writeIndex hpc
  case h_10 hpc =>
    cases he
    exact .testZero hpc
  case h_11 => cases he

/-! ### The sender -/

/-- The steps of `send_acq_data_thread`. -/
inductive SendAcqMove (socketFd : Int) (s : State) : SenderEvent → State → Prop
  | whileCond (hpc : s.sender.pc = .whileCond) :
      SendAcqMove socketFd s .local
        { s with sender.pc := if s.sysStatus ≠ .stop then .readIndex else .exited .stop }
  | readIndex (hpc : s.sender.pc = .readIndex) {pipe : List UInt8} {b : UInt8}
      (hpipe : s.socketPipe = b :: pipe) :
      SendAcqMove socketFd s (.pipe (.ok 1))
        { s with socketPipe := pipe, sender := ⟨.testLength, b⟩, hist.picked := s.hist.picked + 1 }
  | readIndexErr (hpc : s.sender.pc = .readIndex) (e : Errno) :
      SendAcqMove socketFd s (.pipe (.err e))
        (if e.transient then s else { s with sender.pc := .exited .readIndexFailed })
  | start (hpc : s.sender.pc = .testLength) {i : Fin 2} (hi : bufAt s.sender.bufIndex = some i)
      (hlen : (s.bufs i).length > 0) :
      SendAcqMove socketFd s .local
        (sendCall s (writen socketFd (s.bufs i).data (s.bufs i).length.toNat))
  | skip (hpc : s.sender.pc = .testLength) {i : Fin 2} (hi : bufAt s.sender.bufIndex = some i)
      (hlen : ¬ (s.bufs i).length > 0) :
      SendAcqMove socketFd s .local { s with sender.pc := .writeIndex, hist.sent := s.hist.sent + 1 }
  | wrote {call : Writen} {k : Nat} (hpc : s.sender.pc = .writeSocket call) (hk : k ≤ call.nleft) :
      SendAcqMove socketFd s (.write (.ok k))
        (sendCall { s with socketOut := s.socketOut ++ s.mem.load call.ptr k } (call.step (.ok k)))
  | writeErr {call : Writen} (hpc : s.sender.pc = .writeSocket call) (e : Errno) :
      SendAcqMove socketFd s (.write (.err e)) (sendCall s (call.step (.err e)))
  | failed {ret : Int} (hpc : s.sender.pc = .testSent ret) {i : Fin 2}
      (hi : bufAt s.sender.bufIndex = some i) (hne : ret ≠ (s.bufs i).length) :
      SendAcqMove socketFd s .local { s with sender.pc := .exited .socketFailed }
  | sent {ret : Int} (hpc : s.sender.pc = .testSent ret) {i : Fin 2}
      (hi : bufAt s.sender.bufIndex = some i) (heq : ret = (s.bufs i).length) :
      SendAcqMove socketFd s .local { s with sender.pc := .writeIndex, hist.sent := s.hist.sent + 1 }
  | writeIndex (hpc : s.sender.pc = .writeIndex) :
      SendAcqMove socketFd s (.pipe (.ok 1))
        { s with dmaPipe := s.dmaPipe ++ [s.sender.bufIndex], sender.pc := .whileCond,
                 hist.returned := s.hist.returned + 1 }
  | writeIndexErr (hpc : s.sender.pc = .writeIndex) (e : Errno) :
      SendAcqMove socketFd s (.pipe (.err e))
        (if e.transient then s else { s with sender.pc := .exited .writeIndexFailed })

theorem sendAcqDataThread_move {e : SenderEvent} (he : sendAcqDataThread socketFd s e = some s') :
    SendAcqMove socketFd s e s' := by
  unfold sendAcqDataThread at he
  split at he
  case h_1 hpc =>
    cases he
    exact .whileCond hpc
  case h_2 hpc =>
    obtain ⟨⟨pipe, b⟩, hp, rfl⟩ := Option.map_eq_some_iff.mp he
    rcases pipeRead_cases hp with ⟨e, rfl⟩ | ⟨rfl, hpipe⟩
    · have hmove : SendAcqMove socketFd s (.pipe (.err e)) _ := .readIndexErr hpc e
      rw [indexRead_err]
      cases htransient : e.transient <;> simpa [htransient] using hmove
    · exact .readIndex hpc hpipe
  case h_3 hpc =>
    obtain ⟨i, hi, rfl⟩ := Option.map_eq_some_iff.mp he
    split
    · exact .start hpc hi (by assumption)
    · exact .skip hpc hi (by assumption)
  case h_4 hpc =>
    split at he
    · obtain ⟨hk, he⟩ := Option.ite_none_right_eq_some.mp he
      cases he
      exact .wrote hpc hk
    · cases he
      exact .writeErr hpc _
  case h_5 hpc =>
    obtain ⟨i, hi, rfl⟩ := Option.map_eq_some_iff.mp he
    split
    · exact .failed hpc hi (by assumption)
    · exact .sent hpc hi (not_not.mp (by assumption))
  case h_6 hpc =>
    obtain ⟨pipe, hp, rfl⟩ := Option.map_eq_some_iff.mp he
    rcases pipeWrite_cases hp with ⟨e, rfl⟩ | ⟨rfl, rfl⟩
    · have hmove : SendAcqMove socketFd s (.pipe (.err e)) _ := .writeIndexErr hpc e
      rw [indexWrite_err]
      cases htransient : e.transient <;> simpa [htransient] using hmove
    · exact .writeIndex hpc
  case h_7 => cases he

end ITrace.AcqDataTrans
