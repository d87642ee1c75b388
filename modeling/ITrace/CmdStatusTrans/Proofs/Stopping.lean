import ITrace.CmdStatusTrans.Proofs.Buffers
import Mathlib.Data.List.Infix

/-!
# The command and status threads after Stop

Both threads look at `system_status` between two turns only. A turn of the command thread is one
frame and a turn of the status thread one chunk, so after Stop the device gets what is left of one
frame, and the client what is left of one chunk.
-/

namespace ITrace.CmdStatusTrans

/-- The events after which both threads stand where they stood: a call is made again. -/
def Event.waits : Event → Bool
  | .stop => true
  | .cmd (.socket (.err e)) => e.transient
  | .cmd (.device (.err e)) => e.transient
  | .status (.socket (.err e)) => e.transient
  | _ => false

/-- The steps `read_net_cmd_thread` has left at most once the status is Stop. -/
def ReadNetCmdPc.stepsLeft : ReadNetCmdPc → Nat
  | .callHeader => 517
  | .readHeader _ => 516
  | .callBody => 515
  | .readBody call => call.nleft + 259
  | .dispatch => 259
  | .writeDev l =>
      match l.call with
      | .running call => call.nleft + 2
      | .returned _ => 2
  | .resetSet => 3
  | .resetClear => 2
  | .whileCond => 1
  | .exited _ => 0

/-- The steps `send_status_data_thread` has left at most once the status is Stop. -/
def statusStepsLeft (s : State) : Nat :=
  match s.statusPc with
  | .readDevice => maxReadLenOnce + 4
  | .callWrite => s.readRet.toNat + 3
  | .writeSocket call => call.nleft + 2
  | .testSent _ => 2
  | .malloc => 2
  | .whileCond => 1
  | .exited _ => 0

/-- The bytes the socket can still get once the status is Stop. -/
def socketLeft (s : State) : Nat :=
  match s.statusPc with
  | .readDevice => maxReadLenOnce
  | .callWrite => s.readRet.toNat
  | .writeSocket call => call.nleft
  | _ => 0

variable {c : Child} {s s' t u : State} {es : List Event}

/-! ### The steps of the command thread -/

theorem headerCall_returned (u : State) (ret : Int) :
    (headerCall u (.returned ret)).cmdPc.stepsLeft ≤ 515 := by
  simp only [headerCall]
  split
  · split <;> simp [ReadNetCmdPc.stepsLeft]
  · simp [ReadNetCmdPc.stepsLeft]

theorem bodyCall_returned (u : State) (ret : Int) :
    (bodyCall u (.returned ret)).cmdPc.stepsLeft ≤ 259 := by
  simp only [bodyCall]
  split <;> simp [ReadNetCmdPc.stepsLeft]

theorem devCall_returned (u : State) (ret : Int) :
    (devCall u (.returned ret)).cmdPc.stepsLeft ≤ 1 := by
  simp only [devCall]
  split <;> simp [ReadNetCmdPc.stepsLeft]

/-- A frame is one piece, so the loop is through with the first call of `writen`. -/
theorem pieceDone_returned {l : WritenToDev} {ret : Int} (h : CmdAt c s)
    (hpc : s.cmdPc = .writeDev l) :
    ∃ r, l.returned ret = .returned r := by
  simp only [CmdAt, hpc] at h
  obtain ⟨-, put, ⟨-, hlen, hpos, hle, k, -, hw⟩, -⟩ := h
  have hlt := bodyLen_lt s
  have hwhole : writeLen l.leftLen = l.leftLen := by
    rw [writeLen, if_neg (by simp only [maxWriteLenOnce, maxFrame] at *; omega)]
  simp only [WritenToDev.returned, hwhole]
  split
  · exact ⟨_, rfl⟩
  · rename_i hret
    have hzero : l.leftLen - ret.toNat = 0 := by omega
    exact ⟨_, by rw [hzero]; rfl⟩

/-- The first call of `writen` for a frame. -/
theorem devCall_start (u : State) (fd : Int) {n : Nat} (hpos : 0 < n) :
    (devCall u (writenToCmdStatusDev fd 0 n)).cmdPc.stepsLeft ≤ n + 2 := by
  have hwl := writeLen_le n
  have hat := writen_at fd (0 + n - n) (writeLen n)
  rw [writenToCmdStatusDev, WritenToDev.loop, if_pos hpos]
  simp only [devCall, ReadNetCmdPc.stepsLeft]
  split
  · rename_i call hcall
    rw [hcall] at hat
    obtain ⟨-, -, hleft, -⟩ := hat
    omega
  · omega

/-- The device answered the `write` of a frame. -/
theorem writeDev_stepsLeft {l : WritenToDev} {call : Writen} (h : CmdAt c s)
    (hpc : s.cmdPc = .writeDev l) (hcall : l.call = .running call) (answer : SysResult) :
    (ReadNetCmdPc.writeDev { l with call := call.step answer }).stepsLeft <
      (ReadNetCmdPc.writeDev l).stepsLeft ∨
    (Event.cmd (.device answer)).waits = true ∧
      ReadNetCmdPc.writeDev { l with call := call.step answer } = .writeDev l := by
  simp only [CmdAt, hpc] at h
  obtain ⟨-, put, ⟨-, -, -, -, k, -, hw⟩, -⟩ := h
  rw [hcall] at hw
  obtain ⟨-, hpos, -, -⟩ := hw
  rcases Writen.step_cases hpos answer with ⟨e, rfl, htransient, hstep⟩ | ⟨ret, hstep⟩ |
    ⟨k, l', rfl, hstep, -, hless, -⟩
  · rw [hstep, ← hcall]
    exact .inr ⟨htransient, rfl⟩
  · rw [hstep]
    refine .inl ?_
    simp only [ReadNetCmdPc.stepsLeft, hcall]
    omega
  · rw [hstep]
    refine .inl ?_
    simp only [ReadNetCmdPc.stepsLeft, hcall]
    omega

theorem readNetCmdThread_stepsLeft {e : CmdEvent} (h : CmdAt c s) (hstop : s.sysStatus = .stop)
    (he : readNetCmdThread s e = some s') :
    s'.cmdPc.stepsLeft < s.cmdPc.stepsLeft ∨
    ((Event.cmd e).waits = true ∧ s'.cmdPc = s.cmdPc) := by
  have hlt : bodyLen s < 256 := bodyLen_lt s
  cases readNetCmdThread_move he with
  | whileCond hpc => simp [hstop, hpc, ReadNetCmdPc.stepsLeft]
  | callHeader hpc =>
    rw [readn_running _ _ Nat.one_pos, hpc]
    exact .inl (Nat.le_refl 517)
  | @readHeader call answer w hpc hu =>
    obtain ⟨-, hone⟩ := h.readHeader_inside hpc
    rw [hpc]
    rcases Readn.step_cases (l := call) (by omega) answer with ⟨e, rfl, htransient, hstep⟩ |
      ⟨ret, hstep⟩ | ⟨k, l', rfl, hstep, hpos, hless, -⟩
    · rw [hstep]
      exact .inr ⟨htransient, rfl⟩
    · rw [hstep]
      exact .inl (Nat.lt_succ_of_le (headerCall_returned w ret))
    · omega
  | callBody hpc =>
    simp only [CmdAt, hpc] at h
    rw [readn_running _ _ h.1, hpc]
    refine .inl ?_
    change bodyLen s + 259 < 515
    omega
  | @readBody call answer w hpc hu =>
    simp only [CmdAt, hpc] at h
    obtain ⟨got, ⟨-, hpos, -, -⟩, -⟩ := h
    rw [hpc]
    rcases Readn.step_cases hpos answer with ⟨e, rfl, htransient, hstep⟩ | ⟨ret, hstep⟩ |
      ⟨k, l', rfl, hstep, -, hless, -⟩
    · rw [hstep]
      exact .inr ⟨htransient, rfl⟩
    · have hret := bodyCall_returned w ret
      rw [hstep]
      refine .inl (Nat.lt_of_le_of_lt hret ?_)
      change 259 < call.nleft + 259
      omega
    · rw [hstep]
      refine .inl ?_
      change l'.nleft + 259 < call.nleft + 259
      omega
  | dispatch hpc =>
    simp only [CmdAt, hpc] at h
    have hstart := devCall_start s s.devFd (Nat.succ_pos (bodyLen s))
    rw [hpc]
    refine .inl (Nat.lt_of_le_of_lt hstart ?_)
    change bodyLen s + 1 + 2 < 259
    omega
  | resetSet hpc | resetClear hpc => simp [CmdAt, hpc] at h
  | @wrote l call k hpc hcall hk =>
    rw [hpc]
    exact writeDev_stepsLeft h hpc hcall (.ok k)
  | @writeErr l call hpc hcall errno =>
    rw [hpc]
    exact writeDev_stepsLeft h hpc hcall (.err errno)
  | @pieceDone l ret hpc hcall =>
    obtain ⟨r, hr⟩ : ∃ r, l.returned ret = .returned r := pieceDone_returned h hpc
    have hret := devCall_returned s r
    rw [hr, hpc]
    refine .inl (Nat.lt_of_le_of_lt hret ?_)
    simp [ReadNetCmdPc.stepsLeft, hcall]

/-! ### The steps of the status thread -/

theorem sendStatusDataThread_stepsLeft {e : StatusEvent} (h : StatusInside s)
    (hstop : s.sysStatus = .stop) (he : sendStatusDataThread s e = some s') :
    s'.socketOut.length + socketLeft s' ≤ s.socketOut.length + socketLeft s ∧
    (statusStepsLeft s' < statusStepsLeft s ∨
      ((Event.status e).waits = true ∧ statusStepsLeft s' = statusStepsLeft s)) := by
  cases sendStatusDataThread_move he with
  | malloc hpc found =>
    cases found <;> simp [statusStepsLeft, socketLeft, hpc]
  | whileCond hpc => simp [statusStepsLeft, socketLeft, hpc, hstop]
  | @readDevice hpc bytes hlen =>
    by_cases hnil : bytes.length = 0
    · simp [statusStepsLeft, socketLeft, hpc, hnil]
    · simp only [statusStepsLeft, socketLeft, hpc, hnil, if_false,
        Int.toNat_natCast]
      exact ⟨Nat.add_le_add_left hlen _, .inl (by omega)⟩
  | readFailed hpc errno afterPrint =>
    cases afterPrint.transient <;> simp [statusStepsLeft, socketLeft, hpc]
  | callWrite hpc =>
    have hat := writen_at s.socketFd 0 s.readRet.toNat
    cases hcall : writen s.socketFd 0 s.readRet.toNat with
    | running l =>
      rw [hcall] at hat
      obtain ⟨-, hpos, hleft, -⟩ := hat
      simp only [sendCall, statusStepsLeft, socketLeft, hpc]
      exact ⟨by omega, .inl (by omega)⟩
    | returned ret => simp [sendCall, statusStepsLeft, socketLeft, hpc]
  | @wrote call k hpc hk =>
    simp only [StatusInside, hpc] at h
    have hlen : (s.statusBuf.load call.ptr k).length = k := Mem.length_load ..
    rcases Writen.step_cases h.1 (.ok k) with ⟨e, hanswer, -⟩ | ⟨ret, hstep⟩ |
      ⟨j, l', hanswer, hstep, hpos, hless, -⟩
    · cases hanswer
    · rw [hstep]
      simp [sendCall, statusStepsLeft, socketLeft, hpc, hlen]
      have hpos := h.1
      omega
    · cases hanswer
      rw [hstep]
      simp only [sendCall, statusStepsLeft, socketLeft, hpc, List.length_append, hlen]
      exact ⟨by omega, .inl (by omega)⟩
  | @writeErr call hpc errno =>
    simp only [StatusInside, hpc] at h
    rcases Writen.step_cases h.1 (.err errno) with ⟨e, hanswer, htransient, hstep⟩ |
      ⟨ret, hstep⟩ | ⟨j, l', hanswer, -⟩
    · cases hanswer
      rw [hstep]
      simp [sendCall, statusStepsLeft, socketLeft, hpc, Event.waits, htransient]
    · rw [hstep]
      simp [sendCall, statusStepsLeft, socketLeft, hpc, h.1]
    · cases hanswer
  | testSent hpc => simp [statusStepsLeft, socketLeft, hpc]

/-! ### What the device gets -/

/-- The frame in the cache. -/
def cachedFrame (s : State) : List UInt8 := s.cmdCache.load 0 (1 + bodyLen s)

/-- What the device has got since `s`: nothing before the frame is dispatched, then the part of it
that was put since. -/
def DevSince (c : Child) (s u : State) : Prop :=
  match u.cmdPc with
  | .writeDev l =>
      ∃ a put, a ≤ put ∧ WritenToDevAt 0 (bodyLen u + 1) put (.running l) ∧
        cachedFrame u ∈ cmdFrames c.stream ∧
        u.devLog = s.devLog ++ devBytes (((cachedFrame u).take put).drop a)
  | .whileCond | .exited _ =>
      ∃ q, u.devLog = s.devLog ++ devBytes q ∧ (q = [] ∨ ∃ f ∈ cmdFrames c.stream, q <:+: f)
  | _ => u.devLog = s.devLog

theorem DevSince.quiet (hlog : u.devLog = s.devLog) (hpc : ∀ l, u.cmdPc ≠ .writeDev l) :
    DevSince c s u := by
  have hnil : ∃ q, u.devLog = s.devLog ++ devBytes q ∧
      (q = [] ∨ ∃ f ∈ cmdFrames c.stream, q <:+: f) :=
    ⟨[], by rw [hlog]; exact (List.append_nil _).symm, .inl rfl⟩
  cases h : u.cmdPc with
  | writeDev l => exact absurd h (hpc l)
  | whileCond | exited why => simpa only [DevSince, h] using hnil
  | _ => simpa only [DevSince, h] using hlog

theorem Consumed.cachedFrame_mem {put : Nat} (h : Consumed c s (1 + bodyLen s) put)
    (hpos : 0 < bodyLen s) : cachedFrame s ∈ cmdFrames c.stream := by
  obtain ⟨pre, hpre, hstream, -⟩ := h
  have hframes := Framing.frames_append_frame hpre (length_body s) (body_ne_nil hpos) s.incoming
  rw [cachedFrame, cmdFrames, hstream, load_frame, hframes]
  exact List.mem_append_right _ (List.mem_cons_self ..)

theorem DevSince.refl (h : CmdAt c s) : DevSince c s s := by
  cases hpc : s.cmdPc with
  | writeDev l =>
    simp only [CmdAt, hpc] at h
    obtain ⟨hpos, put, hc, hcons⟩ := h
    simp only [DevSince, hpc]
    refine ⟨put, put, Nat.le_refl put, hc, hcons.cachedFrame_mem hpos, ?_⟩
    rw [List.drop_take, Nat.sub_self, List.take_zero]
    exact (List.append_nil _).symm
  | _ => exact .quiet rfl (by simp [hpc])

theorem DevSince.part (h : DevSince c s u) :
    ∃ q, u.devLog = s.devLog ++ devBytes q ∧ (q = [] ∨ ∃ f ∈ cmdFrames c.stream, q <:+: f) := by
  unfold DevSince at h
  split at h
  · obtain ⟨a, put, -, -, hmem, hlog⟩ := h
    exact ⟨_, hlog, .inr ⟨_, hmem,
      (List.drop_suffix _ _).isInfix.trans (List.take_prefix _ _).isInfix⟩⟩
  · exact h
  · exact h
  · exact ⟨[], by rw [h]; exact (List.append_nil _).symm, .inl rfl⟩

/-- `writen_to_cmd_status_dev` stands at `call` with the frame in the cache. -/
theorem DevSince.devCall {a put : Nat} {call : Call WritenToDev}
    (hc : WritenToDevAt 0 (bodyLen u + 1) put call) (ha : a ≤ put)
    (hmem : cachedFrame u ∈ cmdFrames c.stream)
    (hlog : u.devLog = s.devLog ++ devBytes (((cachedFrame u).take put).drop a)) :
    DevSince c s (devCall u call) := by
  cases call with
  | running l => exact ⟨a, put, ha, hc, hmem, hlog⟩
  | returned ret =>
    have hpart : ((cachedFrame u).take put).drop a <:+: cachedFrame u :=
      (List.drop_suffix _ _).isInfix.trans (List.take_prefix _ _).isInfix
    have hq : ∃ q, u.devLog = s.devLog ++ devBytes q ∧
        (q = [] ∨ ∃ f ∈ cmdFrames c.stream, q <:+: f) :=
      ⟨_, hlog, .inr ⟨_, hmem, hpart⟩⟩
    by_cases hret : ret ≠ bodyLen u + 1
    · simpa only [DevSince, CmdStatusTrans.devCall, if_pos hret] using hq
    · simpa only [DevSince, CmdStatusTrans.devCall, if_neg hret] using hq

theorem headerCall_quiet (u : State) (call : Call Readn) :
    (headerCall u call).devLog = u.devLog ∧ ∀ l, (headerCall u call).cmdPc ≠ .writeDev l := by
  cases call with
  | running l => exact ⟨rfl, nofun⟩
  | returned ret =>
    refine ⟨rfl, fun l => ?_⟩
    simp only [headerCall]
    split
    · split <;> simp
    · simp

theorem bodyCall_quiet (u : State) (call : Call Readn) :
    (bodyCall u call).devLog = u.devLog ∧ ∀ l, (bodyCall u call).cmdPc ≠ .writeDev l := by
  cases call with
  | running l => exact ⟨rfl, nofun⟩
  | returned ret =>
    refine ⟨rfl, fun l => ?_⟩
    simp only [bodyCall]
    split <;> simp

theorem DevSince.cmd {e : CmdEvent} (h : DevSince c s u) (hat : CmdAt c u)
    (hstop : u.sysStatus = .stop) (he : readNetCmdThread u e = some s') : DevSince c s s' := by
  cases readNetCmdThread_move he with
  | whileCond hpc =>
    simpa only [DevSince, hpc, hstop, ne_eq, not_true, if_false] using h
  | callHeader hpc =>
    simp only [DevSince, hpc] at h
    obtain ⟨hlog, hquiet⟩ := headerCall_quiet u (readn u.socketFd 0 1)
    exact .quiet (hlog.trans h) hquiet
  | @readHeader call answer w hpc hu =>
    simp only [DevSince, hpc] at h
    obtain ⟨hlog, hquiet⟩ := headerCall_quiet w (call.step answer)
    exact .quiet (hlog.trans ((socketRead_devLog hu).trans h)) hquiet
  | callBody hpc =>
    simp only [DevSince, hpc] at h
    obtain ⟨hlog, hquiet⟩ := bodyCall_quiet u (readn u.socketFd 1 (bodyLen u))
    exact .quiet (hlog.trans h) hquiet
  | @readBody call answer w hpc hu =>
    simp only [DevSince, hpc] at h
    obtain ⟨hlog, hquiet⟩ := bodyCall_quiet w (call.step answer)
    exact .quiet (hlog.trans ((socketRead_devLog hu).trans h)) hquiet
  | dispatch hpc =>
    simp only [DevSince, hpc] at h
    simp only [CmdAt, hpc] at hat
    refine .devCall (writenToCmdStatusDev_at u.devFd 0 (bodyLen u + 1)) (Nat.le_refl 0)
      (hat.2.cachedFrame_mem hat.1) ?_
    rw [h]
    exact (List.append_nil _).symm
  | resetSet hpc | resetClear hpc => simp [CmdAt, hpc] at hat
  | @wrote l call k hpc hcall hk =>
    simp only [DevSince, hpc] at h
    obtain ⟨a, put, ha, hc, hmem, hlog⟩ := h
    refine ⟨a, put + k, by omega, hc.step_ok hcall hk, hmem, ?_⟩
    obtain ⟨-, -, -, hle, j, hput, hw⟩ := hc
    rw [hcall] at hw
    obtain ⟨-, -, hleft, hptr⟩ := hw
    have hwl := writeLen_le l.leftLen
    have hlen : (cachedFrame u).length = 1 + bodyLen u := Mem.length_load ..
    have hload : u.cmdCache.load call.ptr k = ((cachedFrame u).drop put).take k := by
      have hsub := Mem.load_sub (m := u.cmdCache) (a := 0) (n := 1 + bodyLen u) rfl
        (i := put) (k := k) (by omega)
      rwa [show 0 + put = call.ptr by omega] at hsub
    have htake : ((cachedFrame u).take (put + k)).drop a =
        ((cachedFrame u).take put).drop a ++ ((cachedFrame u).drop put).take k := by
      rw [List.take_add, List.drop_append_of_le_length]
      rw [List.length_take]
      omega
    change u.devLog ++ devBytes (u.cmdCache.load call.ptr k) =
      s.devLog ++ devBytes (((cachedFrame u).take (put + k)).drop a)
    rw [hlog, hload, htake, devBytes_append, List.append_assoc]
  | writeErr hpc hcall errno =>
    simp only [DevSince, hpc] at h
    obtain ⟨a, put, ha, hc, hmem, hlog⟩ := h
    exact ⟨a, put, ha, hc.step_err hcall errno, hmem, hlog⟩
  | pieceDone hpc hcall =>
    simp only [DevSince, hpc] at h
    obtain ⟨a, put, ha, hc, hmem, hlog⟩ := h
    exact .devCall (hc.step_returned hcall) ha hmem hlog

/-! ### Runs -/

/-- What holds all along a run that starts in `s` with the status Stop. -/
structure StoppedAt (c : Child) (s u : State) : Prop where
  cmd : CmdAt c u
  status : StatusInside u
  stop : u.sysStatus = .stop
  device : DevSince c s u
  socket : u.socketOut.length + socketLeft u ≤ s.socketOut.length + socketLeft s

/-- Both threads' steps. -/
def bothStepsLeft (s : State) : Nat := s.cmdPc.stepsLeft + statusStepsLeft s

theorem StoppedAt.step {e : Event} (h : StoppedAt c s u) (he : (threads c).step u e = some s') :
    StoppedAt c s s' ∧ bothStepsLeft s' + (if !e.waits then 1 else 0) ≤ bothStepsLeft u := by
  have hcmd := step_cmdAt h.cmd he
  have hstatus := (step_statusInside h.status he).1
  cases e with
  | stop =>
    cases he
    exact ⟨⟨hcmd, hstatus, rfl, h.device, h.socket⟩, Nat.le_refl _⟩
  | cmd e =>
    have hk := readNetCmdThread_kept he
    have hhand : s'.readRet = u.readRet := congrArg Prod.snd (readNetCmdThread_inHand he)
    have hsocket : socketLeft s' = socketLeft u := by
      rw [socketLeft, hk.statusPc, hhand, socketLeft]
    have hsteps : statusStepsLeft s' = statusStepsLeft u := by
      rw [statusStepsLeft, hk.statusPc, hhand, statusStepsLeft]
    refine ⟨⟨hcmd, hstatus, hk.sysStatus.trans h.stop, h.device.cmd h.cmd h.stop he, ?_⟩, ?_⟩
    · rw [hsocket, hk.socketOut]
      exact h.socket
    · simp only [bothStepsLeft, hsteps]
      rcases readNetCmdThread_stepsLeft h.cmd h.stop he with hless | ⟨hwaits, hpc⟩
      · split <;> omega
      · rw [hwaits, hpc]
        exact Nat.le_refl _
  | status e =>
    have hk := sendStatusDataThread_kept he
    obtain ⟨hsocket, hsteps⟩ := sendStatusDataThread_stepsLeft h.status h.stop he
    refine ⟨⟨hcmd, hstatus, hk.sysStatus.trans h.stop, ?_, hsocket.trans h.socket⟩, ?_⟩
    · have hdevice := h.device
      unfold DevSince cachedFrame bodyLen at hdevice ⊢
      rw [hk.cmdPc, hk.devLog, hk.cmdCache]
      exact hdevice
    · simp only [bothStepsLeft, hk.cmdPc]
      rcases hsteps with hless | ⟨hwaits, hsame⟩
      · split <;> omega
      · rw [hwaits, hsame]
        exact Nat.le_refl _

theorem cmd_stepsLeft_le (h : CmdAt c s) : s.cmdPc.stepsLeft ≤ 517 := by
  have hlt : bodyLen s < 256 := bodyLen_lt s
  cases hpc : s.cmdPc with
  | readBody call =>
    obtain ⟨-, hend⟩ := h.readBody_inside hpc
    simp only [ReadNetCmdPc.stepsLeft]
    omega
  | writeDev l =>
    simp only [ReadNetCmdPc.stepsLeft]
    split
    · rename_i call hcall
      have hend := h.writeDev_inside hpc hcall
      omega
    · omega
  | _ => simp [ReadNetCmdPc.stepsLeft]

theorem status_stepsLeft_le (h : StatusInside s) :
    statusStepsLeft s ≤ maxReadLenOnce + 4 ∧ socketLeft s ≤ maxReadLenOnce := by
  cases hpc : s.statusPc with
  | callWrite =>
    simp only [StatusInside, hpc] at h
    simp only [statusStepsLeft, socketLeft, hpc]
    omega
  | writeSocket call =>
    simp only [StatusInside, hpc] at h
    simp only [statusStepsLeft, socketLeft, hpc]
    omega
  | _ => simp [statusStepsLeft, socketLeft, hpc]

/-- From the moment the status is Stop, however the threads are interleaved and whatever the calls
answer, the device gets nothing but a part of one frame of the client's stream, the client at most
one status buffer, and both threads together make at most `max_read_len_once + 521` steps beside the
calls that are made again. -/
theorem threads_stop (hs : (threads c).Reachable s) (hstop : s.sysStatus = .stop)
    (hrun : (threads c).run s es = some t) :
    (∃ q, t.devLog = s.devLog ++ devBytes q ∧ (q = [] ∨ ∃ f ∈ cmdFrames c.stream, q <:+: f)) ∧
    t.socketOut.length ≤ s.socketOut.length + maxReadLenOnce ∧
    es.countP (fun e => !e.waits) ≤ maxReadLenOnce + 521 := by
  have hat := cmdAt_of_reachable hs
  have hinside := statusInside_of_reachable hs
  have hstart : StoppedAt c s s := ⟨hat, hinside, hstop, .refl hat, Nat.le_refl _⟩
  have hend : StoppedAt c s t :=
    Machine.run_invariant (I := StoppedAt c s) (fun _ _ _ h he => (h.step he).1) hstart hrun
  obtain ⟨hsteps, hsocket⟩ := status_stepsLeft_le hinside
  refine ⟨hend.device.part, ?_, ?_⟩
  · have h := hend.socket
    omega
  · have hbound := Machine.run_countP_le (I := StoppedAt c s) (C := fun _ _ => True)
      (p := fun e => !e.waits) (μ := bothStepsLeft) (fun _ _ _ h _ he => (h.step he).1)
      (fun _ _ _ h _ he => (h.step he).2) (Machine.eachStep_true s es) hstart hrun
    have hcmd := cmd_stepsLeft_le hat
    simp only [bothStepsLeft] at hbound
    omega

/-- The status becomes Stop while the first of the two frames is being written. -/
def stoppedWithinFrame : List Event :=
  [.cmd .local, .cmd .local, .cmd (.socket (.ok 1)), .cmd .local, .cmd (.socket (.ok 1)),
   .cmd .local, .cmd (.device (.ok 1)), .stop]

theorem threads_stop_twoFrames : ∃ s t,
    (threads twoFrames).run twoFrames.start stoppedWithinFrame = some s ∧
    (threads twoFrames).run s [.cmd (.device (.ok 1)), .cmd .local, .cmd .local] = some t ∧
    t.cmdPc = .exited .stop ∧
    ∃ q, t.devLog = s.devLog ++ devBytes q ∧ (q = [] ∨ ∃ f ∈ cmdFrames twoFrames.stream, q <:+: f) := by
  have hrun : ((threads twoFrames).run twoFrames.start stoppedWithinFrame).bind (fun s =>
      ((threads twoFrames).run s [.cmd (.device (.ok 1)), .cmd .local, .cmd .local]).map
        fun t => (s.sysStatus, t.cmdPc)) = some (.stop, .exited .stop) := by decide +kernel
  obtain ⟨s, hs, hrun⟩ := Option.bind_eq_some_iff.mp hrun
  obtain ⟨t, ht, hpc⟩ := Option.map_eq_some_iff.mp hrun
  obtain ⟨hstop, hpc⟩ := Prod.mk.inj hpc
  have hreach : (threads twoFrames).Reachable s := ⟨_, _, twoFrames.started_start, hs⟩
  exact ⟨s, t, hs, ht, hpc, (threads_stop hreach hstop ht).1⟩

end ITrace.CmdStatusTrans
