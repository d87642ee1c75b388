import ITrace.General.Syscall
import ITrace.Misc.Int32
import ITrace.Misc.LittleEndian
import Mathlib.Algebra.Group.Nat.Defs
import Mathlib.Algebra.Ring.Int.Defs

/-!
# The head-frame protocol

`linux_socket/socket_protocol.c`: the head frame, and `read_data` and `write_data`, which move
exactly as many bytes as they are asked to and answer 1, or -1. The two are the same loop around
another system call. `int` and `unsigned int` have 32 bits, pointers and `size_t` have 64.
-/

namespace ITrace.LinuxSocket

open ITrace

/-- The locals of `read_data` (`socket_protocol.c:22-47`) and of `write_data` (`:49-74`). -/
structure DataLoop where
  fd : Int
  buf : Int
  len : Int
  leftLen : Int
  maxCount : Nat
  deriving DecidableEq

namespace DataLoop

/-- The address the next call is given, `buf + len - left_len`. -/
def ptr (l : DataLoop) : Int := l.buf + l.len - l.leftLen

/-- The count it is given, `left_len` as a `size_t`. -/
def count (l : DataLoop) : Nat := (l.leftLen % 2 ^ 64).toNat

/-- What is returned after the loop. -/
def done (l : DataLoop) : Call DataLoop := .returned (if l.leftLen = 0 then 1 else -1)

/-- The head of the loop, `while(left_len)`. -/
def loop (l : DataLoop) : Call DataLoop := if l.leftLen ≠ 0 then .running l else l.done

/-- One turn of the loop, from the answer of the system call on. -/
def step (l : DataLoop) : SysResult → Call DataLoop
  | .err _ => l.done
  | .ok k =>
      if int32 k > 0 then
        loop { l with maxCount := 0, leftLen := int32 (l.leftLen - int32 k) }
      else if int32 k = 0 then
        if l.maxCount + 1 > 10 then l.done else loop { l with maxCount := l.maxCount + 1 }
      else l.done

end DataLoop

/-- `read_data(fd, buf, max_buf_len)` up to its first `read`. -/
def readData (fd buf : Int) (maxBufLen : UInt32) : Call DataLoop :=
  DataLoop.loop ⟨fd, buf, maxBufLen.toNat, int32 maxBufLen.toNat, 0⟩

/-- `write_data(fd, buf, buf_len)` up to its first `write`. -/
def writeData (fd buf bufLen : Int) : Call DataLoop :=
  DataLoop.loop ⟨fd, buf, bufLen, bufLen, 0⟩

/-- `struct head_frame_st` (`socket_protocol.h:38-44`). -/
structure HeadFrame where
  id : UInt32
  len : UInt32
  flag : UInt32
  res : UInt32
  deriving DecidableEq

/-- `sizeof(HeadFrame)`. -/
def sizeofHeadFrame : Nat := 16

/-- The bytes of a head frame in memory, and so on the wire. -/
def HeadFrame.bytes (hf : HeadFrame) : List UInt8 :=
  LittleEndian.bytes hf.id ++ LittleEndian.bytes hf.len ++ LittleEndian.bytes hf.flag ++
    LittleEndian.bytes hf.res

/-- The head frame at address `a`. -/
def HeadFrame.load (m : Mem UInt8) (a : Nat) : HeadFrame where
  id := LittleEndian.load m a
  len := LittleEndian.load m (a + 4)
  flag := LittleEndian.load m (a + 8)
  res := LittleEndian.load m (a + 12)

/-- `init_head_frame` (`socket_protocol.c:81-87`), whose arguments are `int`. -/
def initHeadFrame (id flag res len : Int) : HeadFrame :=
  { flag := UInt32.ofInt flag, id := UInt32.ofInt id, res := UInt32.ofInt res,
    len := UInt32.ofInt len }

/-- `read_head_frame(fd, hf)`. -/
def readHeadFrame (fd hf : Int) : Call DataLoop := readData fd hf (UInt32.ofNat sizeofHeadFrame)

@[simp] theorem HeadFrame.length_bytes (hf : HeadFrame) : hf.bytes.length = sizeofHeadFrame := rfl

/-- A head frame is read back where its bytes are. -/
theorem HeadFrame.load_of_bytes {m : Mem UInt8} {a : Nat} {hf : HeadFrame}
    (h : m.load a sizeofHeadFrame = hf.bytes) : HeadFrame.load m a = hf := by
  have hsplit : m.load a sizeofHeadFrame =
      m.load a 4 ++ m.load (a + 4) 4 ++ m.load (a + 8) 4 ++ m.load (a + 12) 4 := by
    rw [show sizeofHeadFrame = 4 + 4 + 4 + 4 from rfl, Mem.load_add, Mem.load_add, Mem.load_add]
  rw [hsplit, HeadFrame.bytes] at h
  obtain ⟨h, hres⟩ := List.append_inj' h rfl
  obtain ⟨h, hflag⟩ := List.append_inj' h rfl
  obtain ⟨hid, hlen⟩ := List.append_inj' h rfl
  rw [HeadFrame.load, LittleEndian.load_of_bytes hid, LittleEndian.load_of_bytes hlen,
    LittleEndian.load_of_bytes hflag, LittleEndian.load_of_bytes hres]

/-! ### What the loop counts -/

/-- The call has moved `moved` of its `len` bytes. -/
def DataAt (buf : Int) (len moved : Nat) : Call DataLoop → Prop
  | .running l => l.buf = buf ∧ l.len = len ∧ 0 < l.leftLen ∧ l.leftLen + moved = len
  | .returned ret => (ret = 1 ∧ moved = len) ∨ (ret = -1 ∧ moved < len)

theorem dataAt_loop {buf : Int} {len moved : Nat} {l : DataLoop} (hbuf : l.buf = buf)
    (hlen : l.len = len) (hnonneg : 0 ≤ l.leftLen) (hleft : l.leftLen + moved = len) :
    DataAt buf len moved l.loop := by
  unfold DataLoop.loop
  by_cases hzero : l.leftLen = 0
  · rw [if_neg (not_not_intro hzero), DataLoop.done, if_pos hzero]
    exact .inl ⟨rfl, by omega⟩
  · rw [if_pos hzero]
    exact ⟨hbuf, hlen, by omega, hleft⟩

theorem readData_at (fd buf : Int) {maxBufLen : UInt32} (hlen : maxBufLen.toNat < 2 ^ 31) :
    DataAt buf maxBufLen.toNat 0 (readData fd buf maxBufLen) := by
  unfold readData
  rw [int32_of_lt (by omega) (by omega)]
  exact dataAt_loop rfl rfl (by simp only; omega) (by simp only; omega)

theorem writeData_at (fd buf : Int) (len : Nat) : DataAt buf len 0 (writeData fd buf len) :=
  dataAt_loop rfl rfl (by simp only; omega) (by simp only; omega)

section
variable {buf : Int} {len moved : Nat} {l : DataLoop}

theorem DataAt.ptr_eq (h : DataAt buf len moved (.running l)) : l.ptr = buf + moved := by
  obtain ⟨hbuf, hlen, -, hleft⟩ := h
  unfold DataLoop.ptr
  omega

theorem DataAt.count_eq (h : DataAt buf len moved (.running l)) (hlen : len < 2 ^ 31) :
    l.count + moved = len := by
  obtain ⟨-, -, hpos, hleft⟩ := h
  unfold DataLoop.count
  omega

theorem DataAt.all_moved {ret : Int} (h : DataAt buf len moved (.returned ret)) (hret : ret = 1) :
    moved = len := by
  rcases h with ⟨-, hall⟩ | ⟨rfl, -⟩
  · exact hall
  · cases hret

theorem DataAt.done (h : DataAt buf len moved (.running l)) : DataAt buf len moved l.done := by
  obtain ⟨-, -, hpos, hleft⟩ := h
  have hne : l.leftLen ≠ 0 := by omega
  exact .inr ⟨if_neg hne, by omega⟩

/-- The system call moved `k` bytes more. -/
theorem DataAt.step_ok (h : DataAt buf len moved (.running l)) (hlen : len < 2 ^ 31) {k : Nat}
    (hk : k ≤ l.count) : DataAt buf len (moved + k) (l.step (.ok k)) := by
  have hcount := h.count_eq hlen
  have hdone := h.done
  obtain ⟨hbuf, hl, hpos, hleft⟩ := h
  have hk' : int32 k = k := int32_of_lt (by omega) (by omega)
  simp only [DataLoop.step, hk']
  by_cases hzero : k = 0
  · subst hzero
    rw [if_neg (by simp), if_pos (Int.natCast_zero : ((0 : Nat) : Int) = 0)]
    split
    · exact hdone
    · exact dataAt_loop hbuf hl (Int.le_of_lt hpos) hleft
  · rw [if_pos (by omega : (k : Int) > 0), int32_of_lt (by omega) (by omega)]
    exact dataAt_loop hbuf hl (by simp only; omega) (by simp only; omega)

theorem DataAt.step_err (h : DataAt buf len moved (.running l)) (e : Errno) :
    DataAt buf len moved (l.step (.err e)) :=
  h.done

end

end ITrace.LinuxSocket
