import ITrace.AcqDataTrans.Pipeline
import ITrace.LinuxSocket.SocketProtocol

/-!
# The read tests

`read_dma_test` and `cmd_status_trans_rw_test` from their loops on: each reads its device for ever
and counts the places where the bytes do not go up by one, with the `check_data_inc` that both
`test.c` hold. The array a read fills is a function of the index, so that an index outside it
has a value too. A `char` is a byte: only `+ 1`, `- 1` and comparisons are made with it.
-/

namespace ITrace.Test

open ITrace LinuxSocket

/-- The locals of `check_data_inc` (`acq_data_trans/test.c:94-111`, `cmd_status_trans/test.c:145-162`),
and the indices at which it has read `data`. `err_cnt` is at most `length`, which is an `int`. -/
structure CheckDataInc where
  startVal : UInt8
  errCnt : Nat
  indices : List Int

/-- One turn of the loop of `check_data_inc`. -/
def CheckDataInc.turn (data : Int → UInt8) (l : CheckDataInc) (i : Nat) : CheckDataInc :=
  let l := { l with startVal := l.startVal + 1, indices := l.indices ++ [(i : Int)] }
  if l.startVal ≠ data i then { l with startVal := data i, errCnt := l.errCnt + 1 } else l

/-- `check_data_inc(start_val, start_val_vaild, data, length)`; what it returns is `errCnt`. -/
def checkDataInc (startVal : UInt8) (startValVaild : Int) (data : Int → UInt8) (length : Int) :
    CheckDataInc :=
  (List.range length.toNat).foldl (CheckDataInc.turn data)
    (if startValVaild = 1 then ⟨data 0 - 1, 0, [0]⟩ else ⟨startVal, 0, []⟩)

/-- What `read` answers: the bytes it stored, or -1. -/
inductive ReadAnswer where
  | bytes (chunk : List UInt8)
  | failed

/-- The bytes `read` stored. -/
def ReadAnswer.chunk : ReadAnswer → List UInt8
  | .bytes chunk => chunk
  | .failed => []

/-- `read_ret`. -/
def ReadAnswer.ret : ReadAnswer → Int
  | .bytes chunk => chunk.length
  | .failed => -1

/-- The locals of the loops (`acq_data_trans/test.c:41-84`, `cmd_status_trans/test.c:90-136`).
`data` is `dma_fd_mmap_area` or `status_buf`, `isFirstRead` is `is_first_read`, which is 1 or 0,
and `milestones` are the values of `sum` printed as "read status, sum is". For the proofs, `last`
is the length of the last read that was not empty, and `accesses` are the indices at which `data`
was read so far, each with `last` at that time. -/
structure ReadTest where
  data : Int → UInt8
  isFirstRead : Bool
  startVal : UInt8
  errCntSum : Int
  sum : Int
  printControlCnt : Int
  milestones : List Int
  returned : Bool
  last : Nat
  accesses : List (Int × Nat)

namespace ReadTest

/-- The locals before the loop, with what `data` held. -/
def start (data : Int → UInt8) : ReadTest where
  data := data
  isFirstRead := true
  startVal := 0
  errCntSum := 0
  sum := 0
  printControlCnt := 10 * 1024 * 1024
  milestones := []
  returned := false
  last := 0
  accesses := []

/-- `read` has stored `chunk` at the beginning of `data`. -/
def fill (s : ReadTest) (chunk : List UInt8) : ReadTest :=
  { s with
    data := fun i => if 0 ≤ i then (chunk[i.toNat]?).getD (s.data i) else s.data i
    last := if chunk = [] then s.last else chunk.length }

/-- `sum += read_ret`. -/
def count (s : ReadTest) (readRet : Int) : ReadTest := { s with sum := int32 (s.sum + readRet) }

/-- `data` was read at `indices`. -/
def touch (s : ReadTest) (indices : List Int) : ReadTest :=
  { s with accesses := s.accesses ++ indices.map fun i => (i, s.last) }

/-- `err_cnt_sum += check_data_inc(start_val, start_val_vaild, data, read_ret)`. -/
def check (s : ReadTest) (startValVaild readRet : Int) : ReadTest :=
  let found := checkDataInc s.startVal startValVaild s.data readRet
  touch { s with errCntSum := int32 (s.errCntSum + found.errCnt) } found.indices

/-- The branch on `is_first_read`. -/
def checkRead (s : ReadTest) (readRet : Int) : ReadTest :=
  if s.isFirstRead then { s.check 0 readRet with isFirstRead := false } else s.check 1 readRet

/-- `start_val = data[read_ret - 1]`. -/
def carry (s : ReadTest) (readRet : Int) : ReadTest :=
  touch { s with startVal := s.data (readRet - 1) } [readRet - 1]

/-- The end of the turn, where a line is printed when `sum` is over `print_control_cnt`. -/
def report (s : ReadTest) : ReadTest :=
  if s.sum > s.printControlCnt then
    { s with
      milestones := s.milestones ++ [s.sum]
      printControlCnt := int32 (s.printControlCnt * 2) }
  else s

/-- One turn of the loop of `read_dma_test`, from the answer of `read` on. `buf_index` stays 0, so
`ioctl` names the same buffer each time. -/
def dmaTurn (s : ReadTest) (readRet : Int) : ReadTest :=
  if readRet < 0 then { s with returned := true }
  else (((s.count readRet).checkRead readRet).carry readRet).report

/-- One turn of the loop of `cmd_status_trans_rw_test`, which looks at `read_ret` twice. -/
def statusTurn (s : ReadTest) (readRet : Int) : ReadTest :=
  if readRet < 0 then { s with returned := true }
  else
    let s := s.count readRet
    if readRet < 0 then { s with returned := true }
    else ((s.checkRead readRet).carry readRet).report

/-- The second look at `read_ret` finds nothing. -/
theorem statusTurn_eq (s : ReadTest) (readRet : Int) : s.statusTurn readRet = s.dmaTurn readRet := by
  unfold statusTurn dmaTurn
  split <;> rfl

end ReadTest

/-- A loop that asks for `maxLength` bytes in each turn. -/
def readTest (maxLength : Nat) (turn : ReadTest → Int → ReadTest) : Machine ReadTest ReadAnswer where
  init s := ∃ data, s = .start data
  step s answer :=
    if s.returned || maxLength < answer.chunk.length then none
    else some (turn (s.fill answer.chunk) answer.ret)

/-- The loop of `read_dma_test`. -/
def readDmaTest : Machine ReadTest ReadAnswer :=
  readTest AcqDataTrans.maxDmaLength ReadTest.dmaTurn

/-- The loop of `cmd_status_trans_rw_test`, where `max_read_len_once` is `0x1000`. -/
def cmdStatusTransRwTest : Machine ReadTest ReadAnswer := readTest 0x1000 ReadTest.statusTurn

end ITrace.Test
