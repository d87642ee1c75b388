import ITrace.CmdStatusTrans.Proofs.Moves
import ITrace.Misc.Framing

/-!
# The frames of the command stream

The invariant of `read_net_cmd_thread`: at each program counter, how much of the client's stream
was consumed, which part of it is in the cache, and what of it reached the device. The consumed
part is always a number of complete frames, all of them forwarded, and then the beginning of one
more that lies in the cache. Nothing the status thread does to `socket_fd` appears in it, since a
read that fails consumes nothing.
-/

namespace ITrace.CmdStatusTrans

open Framing

/-- The complete frames of a command stream: a length byte and as many bytes after it. -/
def cmdFrames (stream : List UInt8) : List (List UInt8) := frames UInt8.toNat stream

/-- The first `n` bytes of the cache are the part of the current frame that was consumed, and
`put` of them reached the device after all the frames before. -/
def Consumed (c : Child) (s : State) (n put : Nat) : Prop :=
  ∃ pre, Whole UInt8.toNat pre ∧ c.stream = pre ++ s.cmdCache.load 0 n ++ s.incoming ∧
    s.devLog = devBytes ((cmdFrames pre).flatten ++ (s.cmdCache.load 0 n).take put)

/-- What holds at each program counter of `read_net_cmd_thread`. -/
def CmdAt (c : Child) (s : State) : Prop :=
  match s.cmdPc with
  | .whileCond | .callHeader | .exited .stop | .exited .headerFailed => Consumed c s 0 0
  | .readHeader call => ReadnAt 0 1 0 (.running call) ∧ Consumed c s 0 0
  | .callBody => 0 < bodyLen s ∧ Consumed c s 1 0
  | .readBody call =>
      ∃ got, ReadnAt 1 (bodyLen s) got (.running call) ∧ Consumed c s (1 + got) 0
  | .dispatch => 0 < bodyLen s ∧ Consumed c s (1 + bodyLen s) 0
  | .resetSet | .resetClear => False
  | .writeDev call =>
      0 < bodyLen s ∧
      ∃ put, WritenToDevAt 0 (bodyLen s + 1) put (.running call) ∧
        Consumed c s (1 + bodyLen s) put
  | .exited .bodyFailed => ∃ got, got < bodyLen s ∧ Consumed c s (1 + got) 0
  | .exited .deviceFailed =>
      0 < bodyLen s ∧ ∃ put, put < bodyLen s + 1 ∧ Consumed c s (1 + bodyLen s) put

variable {c : Child} {s s' : State}

theorem cmdAt_of_started (h : Started c s) : CmdAt c s := by
  obtain ⟨-, -, hin, -, hlog, hpc, -, -⟩ := h
  simp only [CmdAt, hpc]
  exact ⟨[], .nil, by simp [hin, Mem.load], by simp [hlog, cmdFrames, devBytes]⟩

/-- The invariant is about the command thread, its cache, the stream and the device. -/
theorem CmdAt.congr (h : CmdAt c s) (hpc : s'.cmdPc = s.cmdPc) (hcache : s'.cmdCache = s.cmdCache)
    (hin : s'.incoming = s.incoming) (hlog : s'.devLog = s.devLog) : CmdAt c s' := by
  unfold CmdAt Consumed bodyLen at *
  rw [hpc, hcache, hin, hlog]
  exact h

/-! ### The cache -/

theorem load_zero_one (m : Mem UInt8) : m.load 0 1 = [m 0] := rfl

theorem load_frame (m : Mem UInt8) (n : Nat) : m.load 0 (1 + n) = m 0 :: m.load 1 n := by
  rw [Mem.load_add]
  rfl

/-- `k` bytes more of the stream were stored behind the consumed ones. -/
theorem Consumed.read {n k : Nat} (h : Consumed c s n 0) (hk : k ≤ s.incoming.length) :
    Consumed c { s with incoming := s.incoming.drop k,
                        cmdCache := s.cmdCache.store n (s.incoming.take k) } (n + k) 0 := by
  obtain ⟨pre, hpre, hstream, hlog⟩ := h
  have hlen : (s.incoming.take k).length = k := List.length_take_of_le hk
  have hload := Mem.load_store_append s.cmdCache (a := 0) (n := n) rfl (s.incoming.take k)
  rw [Nat.zero_add, hlen] at hload
  refine ⟨pre, hpre, ?_, ?_⟩
  · simp only [hload]
    rw [hstream, List.append_assoc, List.append_assoc, List.append_assoc, List.take_append_drop]
  · simpa using hlog

/-- A length byte of zero is skipped. -/
theorem Consumed.skip (h : Consumed c s 1 0) (hzero : bodyLen s = 0) : Consumed c s 0 0 := by
  obtain ⟨pre, hpre, hstream, hlog⟩ := h
  rw [load_zero_one] at hstream
  refine ⟨pre ++ [s.cmdCache 0], hpre.skip hzero, ?_, ?_⟩
  · simpa [Mem.load] using hstream
  · rw [cmdFrames, frames_snoc_skip hpre hzero]
    simpa [Mem.load, cmdFrames] using hlog

theorem length_body (s : State) :
    (s.cmdCache.load 1 (bodyLen s)).length = (s.cmdCache 0).toNat := Mem.length_load ..

theorem body_ne_nil (hpos : 0 < bodyLen s) : s.cmdCache.load 1 (bodyLen s) ≠ [] := by
  intro hnil
  have hlen := length_body s
  rw [hnil] at hlen
  exact absurd hlen (Nat.ne_of_lt hpos)

/-- A frame that reached the device completely is one of the frames before. -/
theorem Consumed.frame (h : Consumed c s (1 + bodyLen s) (bodyLen s + 1)) (hpos : 0 < bodyLen s) :
    Consumed c s 0 0 := by
  obtain ⟨pre, hpre, hstream, hlog⟩ := h
  have hlen := length_body s
  have hne := body_ne_nil hpos
  rw [load_frame] at hstream hlog
  refine ⟨pre ++ s.cmdCache 0 :: s.cmdCache.load 1 (bodyLen s), hpre.frame hlen hne, ?_, ?_⟩
  · simpa [Mem.load] using hstream
  · rw [cmdFrames, frames_snoc_frame hpre hlen hne]
    rw [List.take_of_length_le (by simp)] at hlog
    simpa [Mem.load, cmdFrames] using hlog

/-! ### The calls -/

theorem headerCall_at {got : Nat} {call : Call Readn} (hc : ReadnAt 0 1 got call)
    (h : Consumed c s got 0) : CmdAt c (headerCall s call) := by
  cases call with
  | running call =>
    have hgot : got = 0 := by
      obtain ⟨-, hpos, hleft, -⟩ := hc
      omega
    subst hgot
    exact ⟨hc, h⟩
  | returned ret =>
    simp only [headerCall]
    by_cases hret : ret = 1
    · have hgot : got = 1 := by
        rcases hc with ⟨hr, -⟩ | ⟨hr, -⟩ <;> omega
      subst hgot
      rw [if_pos hret]
      by_cases hzero : s.cmdCache 0 < 1
      · rw [if_pos hzero]
        have hlt : bodyLen s < 1 := UInt8.lt_iff_toNat_lt.mp hzero
        exact h.skip (by omega)
      · rw [if_neg hzero]
        have hle : ¬ bodyLen s < 1 := fun hlt => hzero (UInt8.lt_iff_toNat_lt.mpr hlt)
        exact ⟨by simp only [bodyLen] at *; omega, h⟩
    · have hgot : got = 0 := by
        rcases hc with ⟨hr, hle⟩ | ⟨-, hlt⟩ <;> omega
      subst hgot
      rw [if_neg hret]
      exact h

theorem bodyCall_at {got : Nat} {call : Call Readn} (hc : ReadnAt 1 (bodyLen s) got call)
    (hpos : 0 < bodyLen s) (h : Consumed c s (1 + got) 0) : CmdAt c (bodyCall s call) := by
  cases call with
  | running call => exact ⟨got, hc, h⟩
  | returned ret =>
    simp only [bodyCall]
    by_cases hret : ret = bodyLen s
    · have hgot : got = bodyLen s := by
        rcases hc with ⟨hr, -⟩ | ⟨hr, -⟩ <;> omega
      subst hgot
      rw [if_pos hret]
      exact ⟨hpos, h⟩
    · have hlt : got < bodyLen s := by
        rcases hc with ⟨hr, hle⟩ | ⟨-, hlt⟩ <;> omega
      rw [if_neg hret]
      exact ⟨got, hlt, h⟩

theorem devCall_at {put : Nat} {call : Call WritenToDev}
    (hc : WritenToDevAt 0 (bodyLen s + 1) put call) (hpos : 0 < bodyLen s)
    (h : Consumed c s (1 + bodyLen s) put) : CmdAt c (devCall s call) := by
  cases call with
  | running call => exact ⟨hpos, put, hc, h⟩
  | returned ret =>
    simp only [devCall]
    by_cases hret : ret = bodyLen s + 1
    · have hput : put = bodyLen s + 1 := by
        rcases hc with ⟨-, hput⟩ | ⟨hlt, -⟩
        · exact hput
        · omega
      subst hput
      rw [if_neg (not_not.mpr hret)]
      exact h.frame hpos
    · have hput : put < bodyLen s + 1 := by
        rcases hc with ⟨heq, -⟩ | ⟨-, hput⟩
        · exact absurd heq hret
        · exact hput
      rw [if_pos hret]
      exact ⟨hpos, put, hput, h⟩

/-! ### The steps -/

/-- The length byte stays where it is while the body is stored behind it. -/
theorem socketRead_bodyLen {call : Readn} {answer : SysResult} (hptr : 0 < call.ptr)
    (h : socketRead s call answer = some s') : bodyLen s' = bodyLen s := by
  rcases socketRead_cases h with ⟨k, -, -, -, -, rfl⟩ | ⟨e, -, -, rfl⟩
  · simp only [bodyLen]
    rw [Mem.store_of_lt _ _ hptr]
  · rfl

/-- `read` answered the header read. -/
theorem readHeader_at {call : Readn} {answer : SysResult}
    (hc : ReadnAt 0 1 0 (.running call)) (h : Consumed c s 0 0)
    (hr : socketRead s call answer = some s') : CmdAt c (headerCall s' (call.step answer)) := by
  have hptr := hc.2.2.2
  rcases socketRead_cases hr with ⟨k, rfl, -, hleft, hin, rfl⟩ | ⟨e, rfl, -, rfl⟩
  · rw [hptr]
    exact headerCall_at (hc.step_ok hleft) (h.read hin)
  · exact headerCall_at (hc.step_err e) h

/-- `read` answered the body read. -/
theorem readBody_at {call : Readn} {answer : SysResult} {got : Nat}
    (hc : ReadnAt 1 (bodyLen s) got (.running call)) (h : Consumed c s (1 + got) 0)
    (hr : socketRead s call answer = some s') : CmdAt c (bodyCall s' (call.step answer)) := by
  obtain ⟨-, hpos, hleft', hptr⟩ := id hc
  have hlen : bodyLen s' = bodyLen s := socketRead_bodyLen (by omega) hr
  rcases socketRead_cases hr with ⟨k, rfl, -, hleft, hin, rfl⟩ | ⟨e, rfl, -, rfl⟩
  · have hread := h.read hin
    rw [Nat.add_assoc, ← hptr] at hread
    refine bodyCall_at ?_ ?_ hread
    · rw [hlen]
      exact hc.step_ok hleft
    · rw [hlen]
      omega
  · exact bodyCall_at (hc.step_err e) (by omega) h

/-- `write` accepted `k` bytes of the frame in the cache. -/
theorem writeDev_at {l : WritenToDev} {call : Writen} {put k : Nat}
    (hc : WritenToDevAt 0 (bodyLen s + 1) put (.running l)) (hcall : l.call = .running call)
    (hpos : 0 < bodyLen s) (h : Consumed c s (1 + bodyLen s) put) (hk : k ≤ call.nleft) :
    CmdAt c { s with devLog := s.devLog ++ devBytes (s.cmdCache.load call.ptr k),
                     cmdPc := .writeDev { l with call := call.step (.ok k) } } := by
  refine ⟨hpos, put + k, hc.step_ok hcall hk, ?_⟩
  obtain ⟨-, -, -, hle, j, hput, hw⟩ := hc
  rw [hcall] at hw
  obtain ⟨-, -, hleft, hptr⟩ := hw
  have hwl := writeLen_le l.leftLen
  obtain ⟨pre, hpre, hstream, hlog⟩ := h
  have hload : s.cmdCache.load call.ptr k =
      ((s.cmdCache.load 0 (1 + bodyLen s)).drop put).take k := by
    have hsub := Mem.load_sub (m := s.cmdCache) (a := 0) (n := 1 + bodyLen s) rfl
      (i := put) (k := k) (by omega)
    rwa [show 0 + put = call.ptr by omega] at hsub
  refine ⟨pre, hpre, hstream, ?_⟩
  simp only
  rw [hlog, hload, ← devBytes_append, List.append_assoc, ← List.take_add]
  rfl

theorem readNetCmdThread_at {e : CmdEvent} (h : CmdAt c s)
    (he : readNetCmdThread s e = some s') : CmdAt c s' := by
  cases readNetCmdThread_move he with
  | whileCond hpc =>
    simp only [CmdAt, hpc] at h
    by_cases hstop : s.sysStatus = .stop
    · simp only [CmdAt, hstop, ne_eq, not_true, if_false]
      exact h
    · simp only [CmdAt, hstop, ne_eq, not_false_iff, if_true]
      exact h
  | callHeader hpc =>
    simp only [CmdAt, hpc] at h
    exact headerCall_at (readn_at s.socketFd 0 1) h
  | readHeader hpc hu =>
    simp only [CmdAt, hpc] at h
    exact readHeader_at h.1 h.2 hu
  | callBody hpc =>
    simp only [CmdAt, hpc] at h
    exact bodyCall_at (readn_at s.socketFd 1 (bodyLen s)) h.1 h.2
  | readBody hpc hu =>
    simp only [CmdAt, hpc] at h
    obtain ⟨got, hc, hcons⟩ := h
    exact readBody_at hc hcons hu
  | dispatch hpc =>
    simp only [CmdAt, hpc] at h
    exact devCall_at (writenToCmdStatusDev_at s.devFd 0 (bodyLen s + 1)) h.1 h.2
  | resetSet hpc | resetClear hpc => simp [CmdAt, hpc] at h
  | wrote hpc hcall hk =>
    simp only [CmdAt, hpc] at h
    obtain ⟨hpos, put, hc, hcons⟩ := h
    exact writeDev_at hc hcall hpos hcons hk
  | writeErr hpc hcall errno =>
    simp only [CmdAt, hpc] at h
    obtain ⟨hpos, put, hc, hcons⟩ := h
    exact ⟨hpos, put, hc.step_err hcall errno, hcons⟩
  | pieceDone hpc hcall =>
    simp only [CmdAt, hpc] at h
    obtain ⟨hpos, put, hc, hcons⟩ := h
    exact devCall_at (hc.step_returned hcall) hpos hcons

/-! ### What a thread leaves alone -/

/-- What the command thread does not change. -/
structure StatusKept (s s' : State) : Prop where
  sysStatus : s'.sysStatus = s.sysStatus
  socketFd : s'.socketFd = s.socketFd
  devFd : s'.devFd = s.devFd
  socketOut : s'.socketOut = s.socketOut
  statusPc : s'.statusPc = s.statusPc

/-- What the status thread does not change. -/
structure CmdKept (s s' : State) : Prop where
  sysStatus : s'.sysStatus = s.sysStatus
  incoming : s'.incoming = s.incoming
  devLog : s'.devLog = s.devLog
  cmdPc : s'.cmdPc = s.cmdPc
  cmdCache : s'.cmdCache = s.cmdCache

theorem StatusKept.trans {u : State} (h : StatusKept s u) (h' : StatusKept u s') :
    StatusKept s s' :=
  ⟨h'.sysStatus.trans h.sysStatus, h'.socketFd.trans h.socketFd, h'.devFd.trans h.devFd,
    h'.socketOut.trans h.socketOut, h'.statusPc.trans h.statusPc⟩

theorem headerCall_kept (s : State) (call : Call Readn) : StatusKept s (headerCall s call) := by
  cases call <;> exact ⟨rfl, rfl, rfl, rfl, rfl⟩

theorem bodyCall_kept (s : State) (call : Call Readn) : StatusKept s (bodyCall s call) := by
  cases call <;> exact ⟨rfl, rfl, rfl, rfl, rfl⟩

theorem devCall_kept (s : State) (call : Call WritenToDev) : StatusKept s (devCall s call) := by
  cases call <;> exact ⟨rfl, rfl, rfl, rfl, rfl⟩

theorem socketRead_kept {call : Readn} {answer : SysResult}
    (h : socketRead s call answer = some s') : StatusKept s s' := by
  rcases socketRead_cases h with ⟨k, -, -, -, -, rfl⟩ | ⟨e, -, -, rfl⟩ <;>
    exact ⟨rfl, rfl, rfl, rfl, rfl⟩

theorem readNetCmdThread_kept {e : CmdEvent} (he : readNetCmdThread s e = some s') :
    StatusKept s s' := by
  cases readNetCmdThread_move he with
  | callHeader => exact headerCall_kept _ _
  | readHeader _ hu => exact (socketRead_kept hu).trans (headerCall_kept _ _)
  | callBody => exact bodyCall_kept _ _
  | readBody _ hu => exact (socketRead_kept hu).trans (bodyCall_kept _ _)
  | dispatch | pieceDone => exact devCall_kept _ _
  | whileCond | resetSet | resetClear | wrote | writeErr => exact ⟨rfl, rfl, rfl, rfl, rfl⟩

theorem sendCall_kept (s : State) (call : Call Writen) : CmdKept s (sendCall s call) := by
  cases call <;> exact ⟨rfl, rfl, rfl, rfl, rfl⟩

theorem sendStatusDataThread_kept {e : StatusEvent} (he : sendStatusDataThread s e = some s') :
    CmdKept s s' := by
  cases sendStatusDataThread_move he with
  | callWrite | writeErr => exact sendCall_kept _ _
  | wrote =>
    unfold sendCall
    split <;> exact ⟨rfl, rfl, rfl, rfl, rfl⟩
  | malloc | whileCond | readDevice | readFailed | testSent => exact ⟨rfl, rfl, rfl, rfl, rfl⟩

theorem step_cmdAt {e : Event} (h : CmdAt c s) (he : (threads c).step s e = some s') :
    CmdAt c s' := by
  cases e with
  | stop =>
    cases he
    exact h.congr rfl rfl rfl rfl
  | cmd e => exact readNetCmdThread_at h he
  | status e =>
    have hk := sendStatusDataThread_kept he
    exact h.congr hk.cmdPc hk.cmdCache hk.incoming hk.devLog

/-- The invariant holds in every state of every run of the two threads. -/
theorem cmdAt_of_reachable (hs : (threads c).Reachable s) : CmdAt c s :=
  hs.invariant (fun _ (h : Started c _) => cmdAt_of_started h) fun _ _ _ h he => step_cmdAt h he

end ITrace.CmdStatusTrans
