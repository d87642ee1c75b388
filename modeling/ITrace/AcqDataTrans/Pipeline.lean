import ITrace.General.Syscall
import ITrace.Misc.Machine
import ITrace.Misc.Mem
import Mathlib.Logic.Function.Basic

/-!
# The acquisition threads

`read_dma_thread` and `send_acq_data_thread` of `acq_data_trans/server.c`, started as
`create_acq_data_trans_server` starts them in the child, as one machine. A thread stands at a
program counter between two system calls or two accesses to shared memory, and every event is one
such step of one thread together with the kernel's answer, so that a run is an interleaving.

The two buffers share one mapping of `2 * MAX_DMA_LENGTH` bytes; a `DmaBuffer` carries the address
of its half. While the device read is under way the device may write anything into the buffer it
was given, whoever looks at it. The history fields are written by the steps and read by none.
-/

namespace ITrace.AcqDataTrans

open ITrace

/-- `MAX_DMA_LENGTH` (`general.h:33`). -/
def maxDmaLength : Nat := 0x400000

/-- `struct DmaBuffer` (`server.h:12-18`); `data` is an address. -/
structure DmaBuffer where
  index : Nat
  data : Nat
  length : Int
  capity : Nat

/-- `init_dma_read_buffer` (`server.c:240-253`), given whether `malloc` found room. -/
def initDmaReadBuffer (malloc : Bool) (index startAddr : Nat) : Option DmaBuffer :=
  if malloc then
    some { index, length := 0, capity := maxDmaLength, data := index * maxDmaLength + startAddr }
  else none

/-- Why `read_dma_thread` left its loop. -/
inductive ReadDmaExit where
  | stop
  | readIndexFailed
  | deviceFailed
  | writeIndexFailed
  deriving DecidableEq

/-- The program counter of `read_dma_thread` (`server.c:255-298`). -/
inductive ReadDmaPc where
  | whileCond
  | readIndex
  | setOffset
  | readDevice
  | inRead
  | testNegative
  | writeIndex
  | testZero
  | exited (why : ReadDmaExit)
  deriving DecidableEq

/-- Why `send_acq_data_thread` left its loop. -/
inductive SendAcqExit where
  | stop
  | readIndexFailed
  | socketFailed
  | writeIndexFailed
  deriving DecidableEq

/-- The program counter of `send_acq_data_thread` (`server.c:301-332`). -/
inductive SendAcqPc where
  | whileCond
  | readIndex
  | testLength
  | writeSocket (call : Writen)
  | testSent (ret : Int)
  | writeIndex
  | exited (why : SendAcqExit)
  deriving DecidableEq

/-- A thread of the pipeline: its program counter and its `char buf_index`. -/
structure Thread (Pc : Type) where
  pc : Pc
  bufIndex : UInt8
  deriving DecidableEq

/-- One `read` on the device: the argument of the last `CONFIG_ADDROFFSET` before it and the
address it was given. -/
structure DmaRead where
  addrOffset : Option UInt8
  target : Nat
  deriving DecidableEq

/-- What happened so far. The four counters are the indices the reader took from the DMA pipe and
put into the socket pipe, and those the sender took from the socket pipe and put back. -/
structure History where
  reads : List DmaRead
  delivered : List (List UInt8)
  sent : Nat
  taken : Nat
  filled : Nat
  picked : Nat
  returned : Nat

/-- The child process as far as its two data threads see it. -/
structure State where
  sysStatus : SystemStatus
  dmaPipe : List UInt8
  socketPipe : List UInt8
  bufs : Fin 2 → DmaBuffer
  mem : Mem UInt8
  addrOffset : Option UInt8
  socketOut : List UInt8
  reader : Thread ReadDmaPc
  sender : Thread SendAcqPc
  hist : History

/-- `buff_list[buf_index]`; there is no such element for an index from 2 on. -/
def bufAt (bufIndex : UInt8) : Option (Fin 2) :=
  if h : bufIndex.toNat < 2 then some ⟨bufIndex.toNat, h⟩ else none

/-- The only state of the loop in `readn(fd, &buf_index, 1)`. -/
def indexRead : Readn := ⟨0, 0, 1, 1⟩

/-- The only state of the loop in `writen(fd, &buf_index, 1)`. -/
def indexWrite : Writen := ⟨0, 0, 1, 1⟩

/-- `read` of one byte from a pipe whose write end is open: the first byte, or an error. -/
def pipeRead (bufIndex : UInt8) : List UInt8 → SysResult → Option (List UInt8 × UInt8)
  | b :: rest, .ok 1 => some (rest, b)
  | pipe, .err _ => some (pipe, bufIndex)
  | _, _ => none

/-- `write` of one byte into a pipe. -/
def pipeWrite (bufIndex : UInt8) (pipe : List UInt8) : SysResult → Option (List UInt8)
  | .ok 1 => some (pipe ++ [bufIndex])
  | .err _ => some pipe
  | _ => none

inductive ReaderEvent where
  | local
  | pipe (answer : SysResult)
  | ioctl
  | readStart
  | readProgress (bytes : List UInt8)
  | readDone (chunk : List UInt8)
  | readFailed (errno : Errno)

inductive SenderEvent where
  | local
  | pipe (answer : SysResult)
  | write (answer : SysResult)

inductive Event where
  | stop
  | reader (e : ReaderEvent)
  | sender (e : SenderEvent)

/-- A step of `read_dma_thread`. -/
def readDmaThread (s : State) : ReaderEvent → Option State := fun e =>
  match s.reader.pc, e with
  | .whileCond, .local =>
      some { s with reader.pc := if s.sysStatus ≠ .stop then .readIndex else .exited .stop }
  | .readIndex, .pipe answer =>
      (pipeRead s.reader.bufIndex s.dmaPipe answer).map fun (pipe, b) =>
        match indexRead.step answer with
        | .running _ => s
        | .returned 1 => { s with dmaPipe := pipe, reader := ⟨.setOffset, b⟩,
                                  hist.taken := s.hist.taken + 1 }
        | .returned _ => { s with reader.pc := .exited .readIndexFailed }
  | .setOffset, .ioctl =>
      some { s with addrOffset := some s.reader.bufIndex, reader.pc := .readDevice }
  | .readDevice, .readStart =>
      (bufAt s.reader.bufIndex).map fun i =>
        { s with reader.pc := .inRead,
                 hist.reads := s.hist.reads ++ [⟨s.addrOffset, (s.bufs i).data⟩] }
  | .inRead, .readProgress bytes =>
      (bufAt s.reader.bufIndex).bind fun i =>
        if bytes.length ≤ maxDmaLength then
          some { s with mem := s.mem.store (s.bufs i).data bytes }
        else none
  | .inRead, .readDone chunk =>
      (bufAt s.reader.bufIndex).bind fun i =>
        if chunk.length ≤ maxDmaLength then
          some { s with mem := s.mem.store (s.bufs i).data chunk,
                        bufs := Function.update s.bufs i { s.bufs i with length := chunk.length },
                        hist.delivered := s.hist.delivered ++ [chunk],
                        reader.pc := .testNegative }
        else none
  | .inRead, .readFailed _ =>
      (bufAt s.reader.bufIndex).map fun i =>
        { s with bufs := Function.update s.bufs i { s.bufs i with length := -1 },
                 reader.pc := .testNegative }
  | .testNegative, .local =>
      (bufAt s.reader.bufIndex).map fun i =>
        { s with reader.pc := if (s.bufs i).length < 0 then .exited .deviceFailed else .writeIndex }
  | .writeIndex, .pipe answer =>
      (pipeWrite s.reader.bufIndex s.socketPipe answer).map fun pipe =>
        match indexWrite.step answer with
        | .running _ => s
        | .returned 1 => { s with socketPipe := pipe, reader.pc := .testZero,
                                  hist.filled := s.hist.filled + 1 }
        | .returned _ => { s with reader.pc := .exited .writeIndexFailed }
  -- an empty chunk only makes the thread sleep
  | .testZero, .local => some { s with reader.pc := .whileCond }
  | _, _ => none

/-- What `send_acq_data_thread` does once `writen(socket_fd, data, length)` is where `call` says:
it waits for `write`, or it compares the result with `length`. -/
def sendCall (s : State) : Call Writen → State
  | .running l => { s with sender.pc := .writeSocket l }
  | .returned ret => { s with sender.pc := .testSent ret }

/-- A step of `send_acq_data_thread`. -/
def sendAcqDataThread (socketFd : Int) (s : State) : SenderEvent → Option State := fun e =>
  match s.sender.pc, e with
  | .whileCond, .local =>
      some { s with sender.pc := if s.sysStatus ≠ .stop then .readIndex else .exited .stop }
  | .readIndex, .pipe answer =>
      (pipeRead s.sender.bufIndex s.socketPipe answer).map fun (pipe, b) =>
        match indexRead.step answer with
        | .running _ => s
        | .returned 1 => { s with socketPipe := pipe, sender := ⟨.testLength, b⟩,
                                  hist.picked := s.hist.picked + 1 }
        | .returned _ => { s with sender.pc := .exited .readIndexFailed }
  | .testLength, .local =>
      (bufAt s.sender.bufIndex).map fun i =>
        if (s.bufs i).length > 0 then
          sendCall s (writen socketFd (s.bufs i).data (s.bufs i).length.toNat)
        else { s with sender.pc := .writeIndex, hist.sent := s.hist.sent + 1 }
  | .writeSocket call, .write answer =>
      match answer with
      | .ok k =>
          if k ≤ call.nleft then
            some (sendCall { s with socketOut := s.socketOut ++ s.mem.load call.ptr k }
              (call.step answer))
          else none
      | .err _ => some (sendCall s (call.step answer))
  | .testSent ret, .local =>
      (bufAt s.sender.bufIndex).map fun i =>
        if ret ≠ (s.bufs i).length then { s with sender.pc := .exited .socketFailed }
        else { s with sender.pc := .writeIndex, hist.sent := s.hist.sent + 1 }
  | .writeIndex, .pipe answer =>
      (pipeWrite s.sender.bufIndex s.dmaPipe answer).map fun pipe =>
        match indexWrite.step answer with
        | .running _ => s
        | .returned 1 => { s with dmaPipe := pipe, sender.pc := .whileCond,
                                  hist.returned := s.hist.returned + 1 }
        | .returned _ => { s with sender.pc := .exited .writeIndexFailed }
  | _, _ => none

/-- The state in which `create_acq_data_trans_server` has started both threads: the buffers are
the halves of the mapping at `startAddr`, and `init_index` is in the DMA pipe. -/
def Started (startAddr : Nat) (s : State) : Prop :=
  (∀ i : Fin 2, initDmaReadBuffer true i startAddr = some (s.bufs i)) ∧
  s.dmaPipe = [0x00, 0x01] ∧ s.socketPipe = [] ∧ s.socketOut = [] ∧
  s.reader.pc = .whileCond ∧ s.sender.pc = .whileCond ∧ s.hist = ⟨[], [], 0, 0, 0, 0, 0⟩

/-- The state to start from with a running system, empty memory and `addrOffset` not yet set. -/
def startState (startAddr : Nat) : State where
  sysStatus := .running
  dmaPipe := [0x00, 0x01]
  socketPipe := []
  bufs i := ⟨i, i * maxDmaLength + startAddr, 0, maxDmaLength⟩
  mem _ := 0
  addrOffset := none
  socketOut := []
  reader := ⟨.whileCond, 0⟩
  sender := ⟨.whileCond, 0⟩
  hist := ⟨[], [], 0, 0, 0, 0, 0⟩

theorem started_startState (startAddr : Nat) : Started startAddr (startState startAddr) :=
  ⟨fun _ => rfl, rfl, rfl, rfl, rfl, rfl, rfl⟩

/-- The pipeline that sends to `socketFd` and whose mapping starts at `startAddr`. -/
def pipeline (socketFd : Int) (startAddr : Nat) : Machine State Event where
  init := Started startAddr
  step s
    | .stop => some { s with sysStatus := .stop }
    | .reader e => readDmaThread s e
    | .sender e => sendAcqDataThread socketFd s e

/-- A chunk of three bytes goes to buffer 0 and out in two pieces, while the device is already
storing into buffer 1. -/
def threeBytes : List Event :=
  [.reader .local, .reader (.pipe (.ok 1)), .reader .ioctl, .reader .readStart,
   .reader (.readDone [1, 2, 3]), .reader .local, .reader (.pipe (.ok 1)), .reader .local,
   .sender .local, .sender (.pipe (.ok 1)), .sender .local, .sender (.write (.ok 2)),
   .reader .local, .reader (.pipe (.ok 1)), .reader .ioctl, .reader .readStart,
   .reader (.readProgress [9, 9, 9, 9]), .sender (.write (.err .EINTR)),
   .sender (.write (.ok 1)), .sender .local]

end ITrace.AcqDataTrans
