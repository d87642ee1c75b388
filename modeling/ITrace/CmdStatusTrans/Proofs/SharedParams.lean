import ITrace.CmdStatusTrans.Proofs.CmdFrames

/-!
# Two threads on one `CmdStatusRWThreadParams`

Whatever the status thread does to `socket_fd`, and whenever it does it, the device gets whole
frames of the client's stream in their order. The one place where the output may stop within a
frame is a device write. Once `socket_fd` is -1 the connection is over: nothing is written to it
any more, and no frame whose body was not yet being read is forwarded.
-/

namespace ITrace.CmdStatusTrans

open Framing

/-- A device write is in progress, or failed. -/
def ReadNetCmdPc.writing : ReadNetCmdPc → Bool
  | .writeDev _ | .exited .deviceFailed => true
  | _ => false

/-- The body of the current frame is being read or was read. -/
def ReadNetCmdPc.bodyStarted : ReadNetCmdPc → Bool
  | .readBody _ | .dispatch | .resetSet | .resetClear | .writeDev _ => true
  | _ => false

/-- The device got the first frames of the stream, and a part of the next one if it is being
written or its writing failed. -/
def Forwarded (c : Child) (s : State) : Prop :=
  ∃ k p, s.devLog = devBytes (((cmdFrames c.stream).take k).flatten ++ p) ∧
    (p = [] ∨ (s.cmdPc.writing = true ∧ ∃ f, (cmdFrames c.stream)[k]? = some f ∧ p <+: f))

variable {c : Child} {s s' t : State} {es : List Event}

/-! ### What the device got -/

theorem Consumed.forwarded {n : Nat} (h : Consumed c s n 0) : Forwarded c s := by
  obtain ⟨pre, hpre, hstream, hlog⟩ := h
  rw [List.append_assoc] at hstream
  have hframes : cmdFrames c.stream =
      cmdFrames pre ++ cmdFrames (s.cmdCache.load 0 n ++ s.incoming) := by
    rw [hstream]
    exact frames_append hpre _
  refine ⟨(cmdFrames pre).length, [], ?_, .inl rfl⟩
  rw [hframes, List.take_left' rfl]
  simpa using hlog

/-- While its frame is written the device has a part of the frame after those it has. -/
theorem Consumed.forwarded_writing {put : Nat} (h : Consumed c s (1 + bodyLen s) put)
    (hpos : 0 < bodyLen s) (hpc : s.cmdPc.writing = true) : Forwarded c s := by
  obtain ⟨pre, hpre, hstream, hlog⟩ := h
  have hlen := length_body s
  have hne := body_ne_nil hpos
  have hframes : cmdFrames c.stream =
      cmdFrames pre ++ s.cmdCache.load 0 (1 + bodyLen s) :: cmdFrames s.incoming := by
    rw [hstream, load_frame]
    exact frames_append_frame hpre hlen hne s.incoming
  refine ⟨(cmdFrames pre).length, (s.cmdCache.load 0 (1 + bodyLen s)).take put, ?_,
    .inr ⟨hpc, s.cmdCache.load 0 (1 + bodyLen s), ?_, List.take_prefix _ _⟩⟩
  · rw [hframes, List.take_left' rfl]
    exact hlog
  · rw [hframes]
    simp

theorem CmdAt.forwarded (h : CmdAt c s) : Forwarded c s := by
  unfold CmdAt at h
  split at h <;> rename_i hpc
  case h_5 => exact h.2.forwarded
  case h_6 => exact h.2.forwarded
  case h_7 =>
    obtain ⟨got, -, h⟩ := h
    exact h.forwarded
  case h_8 => exact h.2.forwarded
  case h_9 | h_10 => exact h.elim
  case h_11 =>
    obtain ⟨hpos, put, -, h⟩ := h
    exact h.forwarded_writing hpos (by rw [hpc]; rfl)
  case h_12 =>
    obtain ⟨got, -, h⟩ := h
    exact h.forwarded
  case h_13 =>
    obtain ⟨hpos, put, -, h⟩ := h
    exact h.forwarded_writing hpos (by rw [hpc]; rfl)
  all_goals exact h.forwarded

theorem Forwarded.isPrefix (h : Forwarded c s) :
    s.devLog <+: devBytes (cmdFrames c.stream).flatten := by
  obtain ⟨k, p, hlog, hp⟩ := h
  rw [hlog]
  exact (prefix_of_flatten_take (hp.imp_right fun ⟨_, hf⟩ => hf)).map _

/-! ### After the command thread left its loop -/

/-- A step that changes the device's log is a step of the command thread. -/
theorem devLog_of_exited {why : ReadNetCmdExit} (hpc : s.cmdPc = .exited why)
    (hrun : (threads c).run s es = some t) : t.devLog = s.devLog := by
  have hstep : ∀ (u : State) (e : Event) (u' : State),
      u.cmdPc = .exited why ∧ u.devLog = s.devLog → (threads c).step u e = some u' →
      u'.cmdPc = .exited why ∧ u'.devLog = s.devLog := by
    intro u e u' ⟨hu, hlog⟩ he
    cases e with
    | stop =>
      cases he
      exact ⟨hu, hlog⟩
    | cmd e => simp [threads, readNetCmdThread, hu] at he
    | status e =>
      have hk := sendStatusDataThread_kept he
      exact ⟨hk.cmdPc.trans hu, hk.devLog.trans hlog⟩
  exact (Machine.run_invariant hstep ⟨hpc, rfl⟩ hrun).2

theorem socketRead_devLog {call : Readn} {answer : SysResult}
    (h : socketRead s call answer = some s') : s'.devLog = s.devLog := by
  rcases socketRead_cases h with ⟨k, -, -, -, -, rfl⟩ | ⟨e, -, -, rfl⟩ <;> rfl

/-- A body read that does not return the length of the body ends the thread. -/
theorem readBody_failed {call : Readn} {answer : SysResult} {ret : Int}
    (hpc : s.cmdPc = .readBody call) (hret : call.step answer = .returned ret)
    (hne : ret ≠ bodyLen s) (hat : CmdAt c s)
    (he : readNetCmdThread s (.socket answer) = some s') :
    s'.cmdPc = .exited .bodyFailed ∧ s'.devLog = s.devLog := by
  simp only [CmdAt, hpc] at hat
  obtain ⟨got, hc, -⟩ := hat
  simp only [readNetCmdThread, hpc] at he
  obtain ⟨u, hu, rfl⟩ := Option.map_eq_some_iff.mp he
  have hlen : bodyLen u = bodyLen s :=
    socketRead_bodyLen (by have := hc.2.2.2; omega) hu
  simp only [hret, bodyCall]
  rw [hlen, if_neg hne]
  exact ⟨rfl, socketRead_devLog hu⟩

/-! ### After the connection was given up -/

/-- While `socket_fd` is -1 no write to the connection is under way. -/
def SocketIdle (s : State) : Prop := s.socketFd = -1 → ∀ call, s.statusPc ≠ .writeSocket call

/-- The status thread puts -1 into `socket_fd` after a call of `writen`, and the calls after that
make no `write`. -/
theorem sendStatusDataThread_socketFd {e : StatusEvent} (h : SocketIdle s)
    (he : sendStatusDataThread s e = some s') :
    SocketIdle s' ∧ (s.socketFd = -1 → s'.socketFd = -1 ∧ s'.socketOut = s.socketOut) := by
  have hkeep : ∀ (u : State) (call : Call Writen), (sendCall u call).socketFd = u.socketFd := by
    intro u call
    cases call <;> rfl
  cases sendStatusDataThread_move he with
  | malloc | whileCond | readDevice | readFailed =>
    refine ⟨fun _ call => ?_, fun hfd => ⟨hfd, rfl⟩⟩
    simp only
    split <;> simp
  | callWrite =>
    by_cases hfd : s.socketFd = -1
    · have hret : writen s.socketFd 0 s.readRet.toNat = .returned 0 := by
        rw [writen, if_pos (by omega)]
      rw [hret]
      exact ⟨fun _ call => by simp [sendCall], fun hfd => ⟨hfd, rfl⟩⟩
    · exact ⟨fun hfd' => absurd ((hkeep _ _).symm.trans hfd') hfd, fun hfd' => absurd hfd' hfd⟩
  | @wrote call _ hpc | @writeErr call hpc =>
    have hfd : s.socketFd ≠ -1 := fun hfd => h hfd call hpc
    exact ⟨fun hfd' => absurd ((hkeep _ _).symm.trans hfd') hfd, fun hfd' => absurd hfd' hfd⟩
  | testSent =>
    refine ⟨fun _ call => by simp, fun hfd => ⟨?_, rfl⟩⟩
    simp only
    split
    · rfl
    · exact hfd

/-- A step keeps `SocketIdle`, and from -1 on neither `socket_fd` nor the output changes. -/
theorem step_socketFd {e : Event} (h : SocketIdle s) (he : (threads c).step s e = some s') :
    SocketIdle s' ∧ (s.socketFd = -1 → s'.socketFd = -1 ∧ s'.socketOut = s.socketOut) := by
  cases e with
  | stop =>
    cases he
    exact ⟨h, fun hfd => ⟨hfd, rfl⟩⟩
  | cmd e =>
    have hk := readNetCmdThread_kept he
    refine ⟨fun hfd call => ?_, fun hfd => ⟨hk.socketFd.trans hfd, hk.socketOut⟩⟩
    rw [hk.statusPc]
    exact h (hk.socketFd.symm.trans hfd) call
  | status e => exact sendStatusDataThread_socketFd h he

theorem socketIdle_of_reachable (hs : (threads c).Reachable s) : SocketIdle s := by
  refine hs.invariant (fun s (h : Started c s) => ?_)
    (fun s e s' h he => (step_socketFd h he).1)
  intro _ call
  simp [h.2.2.2.2.2.2.2]

/-- From a state with `socket_fd` -1 on it is -1, and the connection gets nothing more. -/
theorem socketOut_of_givenUp (hs : (threads c).Reachable s) (hfd : s.socketFd = -1)
    (hrun : (threads c).run s es = some t) :
    t.socketFd = -1 ∧ t.socketOut = s.socketOut := by
  have hstep : ∀ (u : State) (e : Event) (u' : State),
      SocketIdle u ∧ u.socketFd = -1 ∧ u.socketOut = s.socketOut →
      (threads c).step u e = some u' →
      SocketIdle u' ∧ u'.socketFd = -1 ∧ u'.socketOut = s.socketOut := by
    intro u e u' ⟨hidle, hu, hout⟩ he
    obtain ⟨hidle', hkeep⟩ := step_socketFd hidle he
    obtain ⟨hfd', hout'⟩ := hkeep hu
    exact ⟨hidle', hfd', hout'.trans hout⟩
  exact (Machine.run_invariant hstep ⟨socketIdle_of_reachable hs, hfd, rfl⟩ hrun).2

/-- Before the body of a frame, or in a body read that can only fail, or done. -/
def ReadNetCmdPc.barred : ReadNetCmdPc → Bool
  | .readBody call => call.fd < 0
  | .dispatch | .resetSet | .resetClear | .writeDev _ => false
  | _ => true

/-- With `socket_fd` -1 the command thread does not get to another frame. -/
def Barred (s : State) : Prop := s.socketFd = -1 ∧ s.cmdPc.barred = true

theorem barred_of_not_bodyStarted {pc : ReadNetCmdPc} (h : pc.bodyStarted = false) :
    pc.barred = true := by
  cases pc <;> first | rfl | cases h

theorem headerCall_barred (s : State) (call : Call Readn) :
    (headerCall s call).cmdPc.barred = true ∧ (headerCall s call).devLog = s.devLog := by
  cases call with
  | running call => exact ⟨rfl, rfl⟩
  | returned ret =>
    refine ⟨?_, rfl⟩
    simp only [headerCall]
    by_cases hret : ret = 1
    · rw [if_pos hret]
      by_cases hzero : s.cmdCache 0 < 1
      · rw [if_pos hzero]
        rfl
      · rw [if_neg hzero]
        rfl
    · rw [if_neg hret]
      rfl

theorem readNetCmdThread_barred {e : CmdEvent} (hat : CmdAt c s) (h : Barred s)
    (he : readNetCmdThread s e = some s') : Barred s' ∧ s'.devLog = s.devLog := by
  have hfd' : s'.socketFd = -1 := (readNetCmdThread_kept he).socketFd.trans h.1
  obtain ⟨hfd, hbar⟩ := h
  suffices hpc' : s'.cmdPc.barred = true ∧ s'.devLog = s.devLog from ⟨⟨hfd', hpc'.1⟩, hpc'.2⟩
  cases readNetCmdThread_move he with
  | whileCond =>
    by_cases hstop : s.sysStatus = .stop <;> simp [hstop, ReadNetCmdPc.barred]
  | callHeader => exact headerCall_barred s _
  | readHeader _ hu =>
    rw [← socketRead_devLog hu]
    exact headerCall_barred _ _
  -- readn(-1, ...) makes its first read
  | callBody hpc =>
    simp only [CmdAt, hpc] at hat
    rw [readn_running _ _ hat.1, hfd]
    exact ⟨rfl, rfl⟩
  | @readBody call answer u hpc hu =>
    have hneg : call.fd < 0 := by simpa [hpc, ReadNetCmdPc.barred] using hbar
    rcases socketRead_cases hu with ⟨k, -, hk, -⟩ | ⟨e, rfl, hk, rfl⟩
    · omega
    · have hbad : e = .EBADF := hk.resolve_left (by omega)
      subst hbad
      have hne : (-1 : Int) ≠ bodyLen u := by omega
      simp only [Readn.step, Errno.transient, bodyCall]
      simp [hne, ReadNetCmdPc.barred]
  | dispatch hpc | resetSet hpc | resetClear hpc | wrote hpc | writeErr hpc | pieceDone hpc =>
    rw [hpc] at hbar
    cases hbar

/-- From a state with `socket_fd` -1 on no frame is forwarded whose body is not being read. -/
theorem devLog_of_givenUp (hs : (threads c).Reachable s) (hfd : s.socketFd = -1)
    (hpc : s.cmdPc.bodyStarted = false) (hrun : (threads c).run s es = some t) :
    t.devLog = s.devLog := by
  have hstep : ∀ (u : State) (e : Event) (u' : State),
      SocketIdle u ∧ CmdAt c u ∧ Barred u ∧ u.devLog = s.devLog →
      (threads c).step u e = some u' →
      SocketIdle u' ∧ CmdAt c u' ∧ Barred u' ∧ u'.devLog = s.devLog := by
    intro u e u' ⟨hidle, hat, hbar, hlog⟩ he
    obtain ⟨hidle', hkeep⟩ := step_socketFd hidle he
    refine ⟨hidle', step_cmdAt hat he, ?_⟩
    cases e with
    | stop =>
      cases he
      exact ⟨hbar, hlog⟩
    | cmd e =>
      obtain ⟨hbar', hlog'⟩ := readNetCmdThread_barred hat hbar he
      exact ⟨hbar', hlog'.trans hlog⟩
    | status e =>
      have hk := sendStatusDataThread_kept he
      refine ⟨⟨(hkeep hbar.1).1, ?_⟩, hk.devLog.trans hlog⟩
      rw [hk.cmdPc]
      exact hbar.2
  exact (Machine.run_invariant hstep ⟨socketIdle_of_reachable hs, cmdAt_of_reachable hs,
    ⟨hfd, barred_of_not_bodyStarted hpc⟩, rfl⟩ hrun).2.2.2

/-- The two threads on one `CmdStatusRWThreadParams`, in every run: the device has whole frames
and at most a part of one it is being given, a failed body read sends it nothing, and a
connection that was given up stays so for the sockets and for the frames after it. -/
theorem threads_shareParams (hs : (threads c).Reachable s) :
    s.devLog <+: devBytes (cmdFrames c.stream).flatten ∧ Forwarded c s ∧
    (∀ call answer ret s', s.cmdPc = .readBody call → call.step answer = .returned ret →
      ret ≠ bodyLen s → (threads c).step s (.cmd (.socket answer)) = some s' →
      ∀ es t, (threads c).run s' es = some t → t.devLog = s.devLog) ∧
    (s.socketFd = -1 → ∀ es t, (threads c).run s es = some t →
      t.socketFd = -1 ∧ t.socketOut = s.socketOut ∧
      (s.cmdPc.bodyStarted = false → t.devLog = s.devLog)) := by
  have hat := cmdAt_of_reachable hs
  refine ⟨hat.forwarded.isPrefix, hat.forwarded, ?_, ?_⟩
  · intro call answer ret s' hpc hret hne he es t hrun
    obtain ⟨hpc', hlog⟩ := readBody_failed hpc hret hne hat he
    exact (devLog_of_exited hpc' hrun).trans hlog
  · intro hfd es t hrun
    obtain ⟨hfd', hout⟩ := socketOut_of_givenUp hs hfd hrun
    exact ⟨hfd', hout, fun hpc => devLog_of_givenUp hs hfd hpc hrun⟩

/-- A client that sends a frame of one byte and a frame of two. -/
def twoFrames : Child := childOn [1, 7, 2, 8, 9]

/-- The status thread gives up the connection between the header and the body of the second
frame. -/
def givenUpWithinFrame : List Event :=
  [.cmd .local, .cmd .local, .cmd (.socket (.ok 1)), .cmd .local, .cmd (.socket (.ok 1)),
   .cmd .local, .cmd (.device (.ok 1)), .cmd (.device (.ok 1)), .cmd .local,
   .cmd .local, .cmd .local, .cmd (.socket (.ok 1)),
   .status (.malloc true), .status .local, .status (.readDevice [3, 4]), .status .local,
   .status (.socket (.ok 1)), .status (.socket (.err (.other 32))), .status .local]

theorem threads_shareParams_twoFrames : ∃ s,
    (threads twoFrames).run twoFrames.start givenUpWithinFrame = some s ∧
    s.cmdPc = .callBody ∧ s.socketFd = -1 ∧
    ∀ es t, (threads twoFrames).run s es = some t →
      t.socketOut = [3] ∧ t.devLog = devBytes [1, 7] := by
  have hrun : ((threads twoFrames).run twoFrames.start givenUpWithinFrame).map
      (fun s => (s.cmdPc, s.socketFd, s.socketOut, s.devLog)) =
        some (.callBody, -1, [3], devBytes [1, 7]) := by decide +kernel
  obtain ⟨s, hs, hpc⟩ := Option.map_eq_some_iff.mp hrun
  simp only [Prod.mk.injEq] at hpc
  obtain ⟨hpc, hfd, hout, hlog⟩ := hpc
  have hreach : (threads twoFrames).Reachable s := ⟨_, _, twoFrames.started_start, hs⟩
  refine ⟨s, hs, hpc, hfd, fun es t ht => ?_⟩
  obtain ⟨-, hout', hlog'⟩ := (threads_shareParams hreach).2.2.2 hfd es t ht
  exact ⟨hout'.trans hout, (hlog' (by rw [hpc]; rfl)).trans hlog⟩

end ITrace.CmdStatusTrans
