import ITrace.General.Syscall
import ITrace.Misc.Mem

/-!
# Writing to the command device

The functions of `cmd_status_trans/server.c` between a command and the device: the loop that
writes it in pieces, the comparison with the reset frame, and what the device sees of both.
-/

namespace ITrace.CmdStatusTrans

open ITrace

/-- What the device sees: a byte written to it, or an `ioctl` with `CSR_SET_CTRL_REGISTER`. -/
inductive DevOp where
  | byte (b : UInt8)
  | setCtrlRegister (arg : Nat)
  deriving DecidableEq, Repr

/-- `max_write_len_once` of `writen_to_cmd_status_dev`. -/
def maxWriteLenOnce : Nat := 0x1000

/-- The locals of `writen_to_cmd_status_dev` (`server.c:362-378`) and where its `writen` is. -/
structure WritenToDev where
  fd : Int
  data : Nat
  len : Nat
  leftLen : Nat
  call : Call Writen
  deriving DecidableEq

/-- `write_len` of the turn that starts with `leftLen` bytes left. -/
def writeLen (leftLen : Nat) : Nat := if leftLen > maxWriteLenOnce then maxWriteLenOnce else leftLen

/-- The head of the loop, with the call of `writen` in its body, and `return len` after it. -/
def WritenToDev.loop (fd : Int) (data len leftLen : Nat) : Call WritenToDev :=
  if 0 < leftLen then
    .running ⟨fd, data, len, leftLen, writen fd (data + len - leftLen) (writeLen leftLen)⟩
  else .returned len

/-- `writen_to_cmd_status_dev(fd, data, len)` up to its first `write`. -/
def writenToCmdStatusDev (fd : Int) (data len : Nat) : Call WritenToDev :=
  WritenToDev.loop fd data len len

/-- The rest of the turn once `writen` returned `ret`. -/
def WritenToDev.returned (l : WritenToDev) (ret : Int) : Call WritenToDev :=
  if ret ≠ writeLen l.leftLen then .returned (l.len - l.leftLen)
  else WritenToDev.loop l.fd l.data l.len (l.leftLen - ret.toNat)

/-- `char reset_frame[]` of `read_net_cmd_thread`. -/
def resetFrame : List UInt8 :=
  [0x0a, 0x53, 0xf8, 0x00, 0x00, 0x00, 0x00, 0xff, 0xfe, 0x00, 0x00]

/-- `reset_frame` in memory. -/
def resetFrameMem : Mem UInt8 := fun i => (resetFrame[i]?).getD 0

/-- `strncmp` of the C library: the first `n` characters, up to a common zero. -/
def strncmp (s t : Mem UInt8) (i : Nat) : Nat → Int
  | 0 => 0
  | n + 1 =>
      if s i ≠ t i then (s i).toNat - (t i).toNat
      else if s i = 0 then 0
      else strncmp s t (i + 1) n

/-- The size of the comparison with the reset frame, `sizeof(reset_frame) == 0`. -/
def resetCompareSize : Nat := if resetFrame.length = 0 then 1 else 0

/-- `(cmd_cache[0] == 0x0a) && (strncmp(reset_frame, cmd_cache, sizeof(reset_frame) == 0))`
(`server.c:234`). -/
def isResetFrame (cmdCache : Mem UInt8) : Bool :=
  cmdCache 0 = 0x0a && strncmp resetFrameMem cmdCache 0 resetCompareSize ≠ 0

/-- No bytes are compared, so no frame is taken for the reset frame. -/
theorem isResetFrame_eq_false (cmdCache : Mem UInt8) : isResetFrame cmdCache = false := by
  simp [isResetFrame, resetCompareSize, resetFrame, strncmp]

/-- The bytes of a list as the device sees them. -/
def devBytes (bs : List UInt8) : List DevOp := bs.map .byte

theorem devBytes_append (xs ys : List UInt8) :
    devBytes (xs ++ ys) = devBytes xs ++ devBytes ys := List.map_append

/-- `writen_to_cmd_status_dev(fd, data, len)` has put `put` of the bytes from `data` on. -/
def WritenToDevAt (data len put : Nat) : Call WritenToDev → Prop
  | .running l =>
      l.data = data ∧ l.len = len ∧ 0 < l.leftLen ∧ l.leftLen ≤ len ∧ ∃ k,
        put = len - l.leftLen + k ∧
        WritenAt (data + (len - l.leftLen)) (writeLen l.leftLen) k l.call
  | .returned ret => (ret = len ∧ put = len) ∨ (ret < len ∧ put < len)

theorem writeLen_pos {n : Nat} (h : 0 < n) : 0 < writeLen n := by
  unfold writeLen maxWriteLenOnce
  split <;> omega

theorem writeLen_le (n : Nat) : writeLen n ≤ n := by
  unfold writeLen
  split <;> omega

theorem WritenToDev.loop_at (fd : Int) (data len : Nat) {leftLen : Nat} (h : leftLen ≤ len) :
    WritenToDevAt data len (len - leftLen) (WritenToDev.loop fd data len leftLen) := by
  unfold WritenToDev.loop
  by_cases hpos : 0 < leftLen
  · rw [if_pos hpos]
    refine ⟨rfl, rfl, hpos, h, 0, rfl, ?_⟩
    rw [Nat.add_sub_assoc h]
    exact writen_at fd _ _
  · rw [if_neg hpos]
    exact .inl ⟨rfl, by omega⟩

theorem writenToCmdStatusDev_at (fd : Int) (data len : Nat) :
    WritenToDevAt data len 0 (writenToCmdStatusDev fd data len) := by
  have h := WritenToDev.loop_at fd data len (Nat.le_refl len)
  rwa [Nat.sub_self] at h

/-- `write` accepted `k` bytes more. -/
theorem WritenToDevAt.step_ok {data len put k : Nat} {l : WritenToDev} {call : Writen}
    (h : WritenToDevAt data len put (.running l)) (hc : l.call = .running call)
    (hk : k ≤ call.nleft) :
    WritenToDevAt data len (put + k) (.running { l with call := call.step (.ok k) }) := by
  obtain ⟨hdata, hlen, hpos, hle, j, hput, hw⟩ := h
  rw [hc] at hw
  exact ⟨hdata, hlen, hpos, hle, j + k, by simp only; omega, hw.step_ok hk⟩

theorem WritenToDevAt.step_err {data len put : Nat} {l : WritenToDev} {call : Writen}
    (h : WritenToDevAt data len put (.running l)) (hc : l.call = .running call) (e : Errno) :
    WritenToDevAt data len put (.running { l with call := call.step (.err e) }) := by
  obtain ⟨hdata, hlen, hpos, hle, j, hput, hw⟩ := h
  rw [hc] at hw
  exact ⟨hdata, hlen, hpos, hle, j, hput, hw.step_err e⟩

/-- `writen` returned: the function goes on with the next piece or returns. -/
theorem WritenToDevAt.step_returned {data len put : Nat} {l : WritenToDev} {ret : Int}
    (h : WritenToDevAt data len put (.running l)) (hc : l.call = .returned ret) :
    WritenToDevAt data len put (l.returned ret) := by
  obtain ⟨hdata, hlen, hpos, hle, j, hput, hw⟩ := h
  rw [hc] at hw
  have hwl := writeLen_le l.leftLen
  unfold WritenToDev.returned
  rcases hw with ⟨hret, hj⟩ | ⟨hret, hj⟩
  · rw [if_neg (by simp [hret]), hdata, hlen]
    have hloop := WritenToDev.loop_at l.fd data len
      (show l.leftLen - ret.toNat ≤ len by omega)
    have hsum : len - (l.leftLen - ret.toNat) = put := by omega
    rwa [hsum] at hloop
  · have hwp := writeLen_pos hpos
    rw [if_pos (by omega)]
    exact .inr ⟨by omega, by omega⟩

end ITrace.CmdStatusTrans
