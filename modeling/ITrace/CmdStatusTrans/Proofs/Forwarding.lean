import ITrace.CmdStatusTrans.Proofs.SharedParams

/-!
# Every complete frame is forwarded

The command thread on its own, on a connection that delivers a finite stream in any pieces and
with any transient errors, and with a device that accepts every write in the end. The thread gets
to the end of the stream, and the device then has every complete frame of it.
-/

namespace ITrace.CmdStatusTrans

open Framing

/-- An answer that only delays the thread. -/
def Event.transient : Event → Bool
  | .cmd (.socket answer) | .cmd (.device answer) => answer.transient
  | _ => false

/-- The command thread runs alone; the errors are transient, a device write that succeeds accepts
something, and the connection ends only where the stream does. -/
def Benign (s : State) : Event → Prop
  | .cmd (.socket (.ok k)) => k = 0 → s.incoming = []
  | .cmd (.device (.ok k)) => 0 < k
  | .cmd (.socket (.err e)) | .cmd (.device (.err e)) => e.transient = true
  | .cmd .local | .cmd .ioctl => True
  | .stop | .status _ => False

instance (s : State) : (e : Event) → Decidable (Benign s e)
  | .cmd (.socket (.ok k)) => inferInstanceAs (Decidable (k = 0 → s.incoming = []))
  | .cmd (.device (.ok k)) => inferInstanceAs (Decidable (0 < k))
  | .cmd (.socket (.err e)) | .cmd (.device (.err e)) =>
      inferInstanceAs (Decidable (e.transient = true))
  | .cmd .local | .cmd .ioctl => inferInstanceAs (Decidable True)
  | .stop | .status _ => inferInstanceAs (Decidable False)

/-- Where the command thread is as long as nothing fails for good. -/
def ReadNetCmdPc.undisturbed (incoming : List UInt8) : ReadNetCmdPc → Prop
  | .readHeader call | .readBody call => 0 ≤ call.fd
  | .writeDev l => 0 ≤ l.fd ∧ ∀ ret, l.call = .returned ret → ret = writeLen l.leftLen
  | .exited .stop | .exited .deviceFailed => False
  | .exited .headerFailed | .exited .bodyFailed => incoming = []
  | _ => True

/-- What holds of the command thread as long as nothing fails for good. -/
structure Undisturbed (s : State) : Prop where
  running : s.sysStatus = .running
  socketFd : 0 ≤ s.socketFd
  devFd : 0 ≤ s.devFd
  cmdPc : s.cmdPc.undisturbed s.incoming

variable {c : Child} {s s' t : State} {es : List Event}

theorem undisturbed_of_started (h : Started c s) (hrunning : s.sysStatus = .running) :
    Undisturbed s := by
  obtain ⟨hfd, hdev, -, -, -, hpc, -, -⟩ := h
  refine ⟨hrunning, ?_, ?_, ?_⟩
  · rw [hfd]
    exact c.connFd_nonneg
  · rw [hdev]
    exact Int.le_of_lt c.devFd_pos
  · rw [hpc]
    trivial

/-! ### The calls -/

/-- What the loop of `readn` does with an answer that is no failure, from `s` to `s'`. -/
inductive ReadMove (s s' : State) (call : Readn) (n got : Nat) : SysResult → Call Readn → Prop
  | delay {answer : SysResult} (ht : answer.transient = true) (hs : s' = s) :
      ReadMove s s' call n got answer (.running call)
  | more {k : Nat} (hpos : 0 < k) (hlt : k < call.nleft)
      (hin : s'.incoming.length + k = s.incoming.length) :
      ReadMove s s' call n got (.ok k)
        (.running { call with nleft := call.nleft - k, ptr := call.ptr + k })
  | done {k : Nat} (hpos : 0 < k) (heq : k = call.nleft)
      (hin : s'.incoming.length + k = s.incoming.length) :
      ReadMove s s' call n got (.ok k) (.returned n)
  | eof (hin : s'.incoming = []) : ReadMove s s' call n got (.ok 0) (.returned got)

theorem readn_step_benign {call : Readn} {answer : SysResult} {vptr n got : Nat}
    (hat : ReadnAt vptr n got (.running call)) (hb : Benign s (.cmd (.socket answer)))
    (hr : socketRead s call answer = some s') :
    ReadMove s s' call n got answer (call.step answer) := by
  obtain ⟨hn, hpos, hleft, -⟩ := hat
  rcases socketRead_cases hr with ⟨k, rfl, -, hk, hin, rfl⟩ | ⟨e, rfl, -, rfl⟩
  · cases k with
    | zero =>
      have hret : (call.n : Int) - call.nleft = got := by omega
      simp only [Readn.step, hret]
      exact .eof (by simp [hb rfl])
    | succ k =>
      have hlen : (s.incoming.drop (k + 1)).length + (k + 1) = s.incoming.length := by
        rw [List.length_drop]
        omega
      simp only [Readn.step, Readn.loop]
      by_cases hlt : k + 1 < call.nleft
      · rw [if_pos (by omega)]
        exact .more (Nat.succ_pos k) hlt hlen
      · have hret : (call.n : Int) - ((call.nleft - (k + 1) : Nat) : Int) = n := by omega
        rw [if_neg (by omega), hret]
        exact .done (Nat.succ_pos k) (by omega) hlen
  · have he : e.transient = true := hb
    simp only [Readn.step, Readn.loop, he, hpos, if_true]
    exact .delay he rfl

/-- A call of `readn` on an open descriptor reads on, or has all it was to read, or has come to the
end of the stream. -/
theorem ReadMove.ends {call : Readn} {answer : SysResult} {r : Call Readn} {n got : Nat}
    (h : ReadMove s s' call n got answer r) (hfd : 0 ≤ call.fd) :
    (∃ l, r = .running l ∧ 0 ≤ l.fd) ∨ r = .returned n ∨
      (r = .returned got ∧ s'.incoming = []) := by
  cases h with
  | delay ht hs => exact .inl ⟨call, rfl, hfd⟩
  | more hpos hlt hin => exact .inl ⟨_, rfl, hfd⟩
  | done hpos heq hin => exact .inr (.inl rfl)
  | eof hin => exact .inr (.inr ⟨rfl, hin⟩)

theorem headerCall_undisturbed {call : Call Readn}
    (hcall : (∃ l, call = .running l ∧ 0 ≤ l.fd) ∨ call = .returned 1 ∨
      (call = .returned 0 ∧ s.incoming = [])) :
    (headerCall s call).cmdPc.undisturbed (headerCall s call).incoming := by
  rcases hcall with ⟨l, rfl, hfd⟩ | rfl | ⟨rfl, hin⟩
  · exact hfd
  · simp only [headerCall, if_true]
    by_cases hzero : s.cmdCache 0 < 1
    · rw [if_pos hzero]
      trivial
    · rw [if_neg hzero]
      trivial
  · exact hin

theorem bodyCall_undisturbed (got : Nat) {call : Call Readn}
    (hcall : (∃ l, call = .running l ∧ 0 ≤ l.fd) ∨ call = .returned (bodyLen s) ∨
      (call = .returned got ∧ s.incoming = [])) :
    (bodyCall s call).cmdPc.undisturbed (bodyCall s call).incoming := by
  rcases hcall with ⟨l, rfl, hfd⟩ | rfl | ⟨rfl, hin⟩
  · exact hfd
  · simp only [bodyCall, if_true]
    trivial
  · simp only [bodyCall]
    by_cases hgot : (got : Int) = bodyLen s
    · rw [if_pos hgot]
      trivial
    · rw [if_neg hgot]
      exact hin

/-- The next piece of a frame, or the end of it. -/
theorem devCall_loop_undisturbed {fd : Int} (hfd : 0 ≤ fd) (data leftLen : Nat) :
    (devCall s (WritenToDev.loop fd data (bodyLen s + 1) leftLen)).cmdPc.undisturbed
      (devCall s (WritenToDev.loop fd data (bodyLen s + 1) leftLen)).incoming := by
  by_cases hpos : 0 < leftLen
  · rw [WritenToDev.loop, if_pos hpos, writen_running hfd _ (writeLen_pos hpos)]
    exact ⟨hfd, fun ret hret => by cases hret⟩
  · rw [WritenToDev.loop, if_neg hpos]
    simp [devCall, ReadNetCmdPc.undisturbed]

/-- `write` on the device accepted something, or has to be made again. -/
theorem writen_step_benign {call : Writen} {answer : SysResult} {vptr n put : Nat} {ret : Int}
    (hat : WritenAt vptr n put (.running call)) (hb : Benign s (.cmd (.device answer)))
    (hret : call.step answer = .returned ret) : ret = n := by
  obtain ⟨hn, hpos, -, -⟩ := hat
  cases answer with
  | ok k =>
    cases k with
    | zero => exact absurd hb (Nat.lt_irrefl 0)
    | succ k =>
      simp only [Writen.step, Writen.loop] at hret
      split at hret
      · cases hret
      · cases hret
        rw [hn]
  | err e =>
    have he : e.transient = true := hb
    simp [Writen.step, Writen.loop, he, hpos] at hret

theorem readNetCmdThread_undisturbed {e : CmdEvent} (hat : CmdAt c s) (h : Undisturbed s)
    (hb : Benign s (.cmd e)) (he : readNetCmdThread s e = some s') : Undisturbed s' := by
  have hk := readNetCmdThread_kept he
  obtain ⟨hrunning, hfd, hdev, hpc'⟩ := h
  refine ⟨hk.sysStatus.trans hrunning, by rw [hk.socketFd]; exact hfd,
    by rw [hk.devFd]; exact hdev, ?_⟩
  cases readNetCmdThread_move he with
  | whileCond => simp [hrunning, ReadNetCmdPc.undisturbed]
  | callHeader => exact headerCall_undisturbed (.inl ⟨_, readn_running _ _ Nat.one_pos, hfd⟩)
  | readHeader hpc hu =>
    simp only [CmdAt, hpc] at hat
    rw [hpc] at hpc'
    exact headerCall_undisturbed ((readn_step_benign hat.1 hb hu).ends hpc')
  | callBody hpc =>
    simp only [CmdAt, hpc] at hat
    exact bodyCall_undisturbed 0 (.inl ⟨_, readn_running _ _ hat.1, hfd⟩)
  | readBody hpc hu =>
    simp only [CmdAt, hpc] at hat
    obtain ⟨got, hat, -⟩ := hat
    rw [hpc] at hpc'
    have hends := (readn_step_benign hat hb hu).ends hpc'
    rw [← socketRead_bodyLen (by have := hat.2.2.2; omega) hu] at hends
    exact bodyCall_undisturbed got hends
  | dispatch => exact devCall_loop_undisturbed hdev 0 _
  | resetSet hpc | resetClear hpc => simp [CmdAt, hpc] at hat
  | wrote hpc hcall | writeErr hpc hcall =>
    simp only [CmdAt, hpc] at hat
    rw [hpc] at hpc'
    obtain ⟨-, put, ⟨-, -, -, -, k, -, hw⟩, -⟩ := hat
    rw [hcall] at hw
    exact ⟨hpc'.1, fun ret hret => writen_step_benign hw hb hret⟩
  | pieceDone hpc hcall =>
    simp only [CmdAt, hpc] at hat
    rw [hpc] at hpc'
    obtain ⟨-, put, ⟨-, hlen, -⟩, -⟩ := hat
    rw [hpc'.2 _ hcall, WritenToDev.returned, if_neg (not_not.mpr rfl), hlen]
    exact devCall_loop_undisturbed hpc'.1 _ _

theorem step_undisturbed {e : Event} (hat : CmdAt c s) (h : Undisturbed s) (hb : Benign s e)
    (he : (threads c).step s e = some s') : Undisturbed s' := by
  cases e with
  | stop => exact absurd hb id
  | cmd e => exact readNetCmdThread_undisturbed hat h hb he
  | status e => exact absurd hb id

/-! ### The end of the stream -/

/-- A thread that left its loop undisturbed has forwarded the complete frames of the stream. -/
theorem devLog_of_undisturbed (hat : CmdAt c s) (h : Undisturbed s) {why : ReadNetCmdExit}
    (hpc : s.cmdPc = .exited why) : s.devLog = devBytes (cmdFrames c.stream).flatten := by
  have hin := h.cmdPc
  rw [hpc] at hin
  simp only [CmdAt, hpc] at hat
  cases why with
  | stop => exact hin.elim
  | deviceFailed => exact hin.elim
  | headerFailed =>
    obtain ⟨pre, -, hstream, hlog⟩ := hat
    have hpre : c.stream = pre := by
      rw [hstream, show s.incoming = [] from hin]
      simp [Mem.load]
    rw [hpre]
    simpa [Mem.load] using hlog
  | bodyFailed =>
    obtain ⟨got, hgot, pre, hpre, hstream, hlog⟩ := hat
    have hcut : (s.cmdCache.load 1 got).length < (s.cmdCache 0).toNat := by
      rw [Mem.length_load]
      exact hgot
    have hframes : cmdFrames c.stream = cmdFrames pre := by
      rw [hstream, show s.incoming = [] from hin, List.append_nil, load_frame]
      exact frames_snoc_cut hpre hcut
    rw [hframes]
    simpa using hlog

/-! ### The thread does not get stuck -/

theorem exists_socketRead {call : Readn} (hfd : 0 ≤ call.fd) (hpos : 0 < call.nleft) :
    ∃ k, (k = 0 → s.incoming = []) ∧ (socketRead s call (.ok k)).isSome = true := by
  cases hin : s.incoming with
  | nil =>
    refine ⟨0, fun _ => rfl, ?_⟩
    rw [socketRead, if_pos ⟨hfd, Nat.zero_le _, Nat.zero_le _⟩]
    rfl
  | cons b rest =>
    refine ⟨1, fun h => absurd h Nat.one_ne_zero, ?_⟩
    rw [socketRead, if_pos ⟨hfd, hpos, by simp [hin]⟩]
    rfl

/-- Until it has left its loop the thread can take a step that is more than a delay. -/
theorem exists_step (hat : CmdAt c s) (h : Undisturbed s)
    (hpc : ∀ why, s.cmdPc ≠ .exited why) :
    ∃ e, Benign s e ∧ e.transient = false ∧ ((threads c).step s e).isSome = true := by
  have hok := h.cmdPc
  cases hcase : s.cmdPc with
  | whileCond | callHeader | callBody | dispatch =>
    refine ⟨.cmd .local, trivial, rfl, ?_⟩
    simp only [threads, readNetCmdThread, hcase, Option.isSome_some]
  | readHeader call =>
    simp only [CmdAt, hcase] at hat
    rw [hcase] at hok
    obtain ⟨k, hk, hu⟩ := exists_socketRead hok hat.1.2.1
    refine ⟨.cmd (.socket (.ok k)), hk, rfl, ?_⟩
    simp only [threads, readNetCmdThread, hcase, Option.isSome_map, hu]
  | readBody call =>
    simp only [CmdAt, hcase] at hat
    rw [hcase] at hok
    obtain ⟨got, hat, -⟩ := hat
    obtain ⟨k, hk, hu⟩ := exists_socketRead hok hat.2.1
    refine ⟨.cmd (.socket (.ok k)), hk, rfl, ?_⟩
    simp only [threads, readNetCmdThread, hcase, Option.isSome_map, hu]
  | resetSet | resetClear => simp [CmdAt, hcase] at hat
  | writeDev l =>
    simp only [CmdAt, hcase] at hat
    obtain ⟨-, put, ⟨-, -, -, -, k, -, hw⟩, -⟩ := hat
    cases hcall : l.call with
    | running call =>
      rw [hcall] at hw
      refine ⟨.cmd (.device (.ok 1)), Nat.one_pos, rfl, ?_⟩
      simp only [threads, readNetCmdThread, hcase, hcall]
      rw [if_pos (Nat.succ_le_of_lt hw.2.1)]
      rfl
    | returned ret =>
      refine ⟨.cmd .local, trivial, rfl, ?_⟩
      simp only [threads, readNetCmdThread, hcase, hcall, Option.isSome_some]
  | exited why => exact absurd hcase (hpc why)

/-! ### The thread comes to an end -/

/-- The bytes `writen_to_cmd_status_dev` has still to write, and one for the turn's end. -/
def WritenToDev.left (l : WritenToDev) : Nat :=
  match l.call with
  | .running call => 2 * (l.leftLen - writeLen l.leftLen + call.nleft)
  | .returned _ => 2 * (l.leftLen - writeLen l.leftLen) + 1

/-- A bound on the steps the command thread takes from its program counter to the end of the
frame it is in, and on to the end of the loop. -/
def ReadNetCmdPc.steps (bodyLen : Nat) : ReadNetCmdPc → Nat
  | .whileCond => 3
  | .callHeader => 2
  | .readHeader _ => 1
  | .callBody => 8
  | .readBody call => 2 * (bodyLen - call.nleft) + 7
  | .dispatch => 2 * bodyLen + 6
  | .resetSet => 5
  | .resetClear => 4
  | .writeDev l => l.left + 3
  | .exited _ => 0

/-- A bound on the steps the command thread takes to the end of the stream. -/
def stepsLeft (s : State) : Nat := 8 * s.incoming.length + s.cmdPc.steps (bodyLen s)

/-- The steps an event counts for. -/
def Event.cost (e : Event) : Nat := if e.transient then 0 else 1

theorem headerCall_one_steps (s : State) :
    stepsLeft (headerCall s (.returned 1)) ≤ 8 * s.incoming.length + 8 := by
  simp only [stepsLeft, headerCall, if_true]
  by_cases hzero : s.cmdCache 0 < 1
  · rw [if_pos hzero]
    simp [ReadNetCmdPc.steps]
  · rw [if_neg hzero]
    simp [ReadNetCmdPc.steps]

theorem readHeader_steps {call : Readn} {answer : SysResult}
    (hat : ReadnAt 0 1 0 (.running call)) (hb : Benign s (.cmd (.socket answer)))
    (hr : socketRead s call answer = some s') :
    stepsLeft (headerCall s' (call.step answer)) + (Event.cmd (.socket answer)).cost ≤
      8 * s.incoming.length + 1 := by
  have hmove := readn_step_benign hat hb hr
  generalize call.step answer = r at hmove ⊢
  cases hmove with
  | delay ht hs =>
    rw [Event.cost, Event.transient, if_pos ht, hs]
    exact Nat.le_refl _
  | more hpos hlt hin =>
    obtain ⟨-, -, hleft, -⟩ := hat
    omega
  | done hpos heq hin =>
    have hone := headerCall_one_steps s'
    have hcost : (Event.cmd (.socket (.ok call.nleft))).cost = 1 := rfl
    obtain ⟨-, -, hleft, -⟩ := hat
    subst heq
    rw [hcost]
    refine Nat.le_trans (Nat.add_le_add_right hone 1) ?_
    omega
  | eof hin =>
    simp [stepsLeft, headerCall, hin, ReadNetCmdPc.steps, Event.cost, Event.transient,
      SysResult.transient]

theorem bodyCall_running_steps (s : State) (l : Readn) :
    stepsLeft (bodyCall s (.running l)) =
      8 * s.incoming.length + (2 * (bodyLen s - l.nleft) + 7) := rfl

theorem readBody_steps {call : Readn} {answer : SysResult} {got : Nat}
    (hat : ReadnAt 1 (bodyLen s) got (.running call)) (hb : Benign s (.cmd (.socket answer)))
    (hr : socketRead s call answer = some s') :
    stepsLeft (bodyCall s' (call.step answer)) + (Event.cmd (.socket answer)).cost ≤
      8 * s.incoming.length + (2 * (bodyLen s - call.nleft) + 7) := by
  have hlen : bodyLen s' = bodyLen s := socketRead_bodyLen (by have := hat.2.2.2; omega) hr
  have hmove := readn_step_benign hat hb hr
  obtain ⟨-, hpos', hleft, -⟩ := hat
  generalize call.step answer = r at hmove ⊢
  cases hmove with
  | delay ht hs =>
    rw [Event.cost, Event.transient, if_pos ht, hs]
    exact Nat.le_refl _
  | more hpos hlt hin =>
    rw [bodyCall_running_steps, hlen, Event.cost,
      if_neg (by simp [Event.transient, SysResult.transient])]
    simp only
    omega
  | done hpos heq hin =>
    have hkeep : stepsLeft (bodyCall s' (.returned (bodyLen s))) =
        8 * s'.incoming.length + (2 * bodyLen s + 6) := by
      simp only [stepsLeft, bodyCall]
      rw [if_pos (by rw [hlen]), ← hlen]
      rfl
    rw [hkeep, Event.cost, if_neg (by simp [Event.transient, SysResult.transient])]
    omega
  | eof hin =>
    have hkeep : stepsLeft (bodyCall s' (.returned got)) = 8 * s'.incoming.length := by
      simp only [stepsLeft, bodyCall]
      rw [if_neg (by omega)]
      rfl
    rw [hkeep, hin, Event.cost, if_neg (by simp [Event.transient, SysResult.transient])]
    simp only [List.length_nil]
    omega

/-- The next piece of a frame takes the steps that its bytes stand for. -/
theorem devCall_loop_steps {fd : Int} (hfd : 0 ≤ fd) (data leftLen : Nat) :
    stepsLeft (devCall s (WritenToDev.loop fd data (bodyLen s + 1) leftLen)) ≤
      8 * s.incoming.length + (2 * leftLen + 3) := by
  by_cases hpos : 0 < leftLen
  · have hle := writeLen_le leftLen
    rw [WritenToDev.loop, if_pos hpos, writen_running hfd _ (writeLen_pos hpos)]
    simp only [stepsLeft, devCall, ReadNetCmdPc.steps, WritenToDev.left]
    omega
  · rw [WritenToDev.loop, if_neg hpos]
    simp only [stepsLeft, devCall]
    rw [if_neg (by simp)]
    simp only [ReadNetCmdPc.steps]
    omega

/-- `write` accepted something, or has to be made again. -/
theorem writeDev_steps {l : WritenToDev} {call : Writen} {answer : SysResult} {vptr n put : Nat}
    (hat : WritenAt vptr n put (.running call)) (hb : Benign s (.cmd (.device answer)))
    (hk : ∀ k, answer = .ok k → k ≤ call.nleft) (hcall : l.call = .running call) :
    ({ l with call := call.step answer } : WritenToDev).left +
      (Event.cmd (.device answer)).cost ≤ l.left := by
  obtain ⟨-, hpos, -, -⟩ := hat
  have hleft : l.left = 2 * (l.leftLen - writeLen l.leftLen + call.nleft) := by
    rw [WritenToDev.left, hcall]
  rw [hleft]
  cases answer with
  | ok k =>
    have hkpos : 0 < k := hb
    have hle := hk k rfl
    obtain ⟨j, rfl⟩ := Nat.exists_eq_succ_of_ne_zero (Nat.ne_of_gt hkpos)
    rw [Event.cost, if_neg (by simp [Event.transient, SysResult.transient])]
    simp only [WritenToDev.left, Writen.step, Writen.loop]
    by_cases hlt : 0 < call.nleft - (j + 1)
    · rw [if_pos hlt]
      simp only
      omega
    · rw [if_neg hlt]
      simp only
      omega
  | err e =>
    have he : e.transient = true := hb
    rw [Event.cost, if_pos (by simpa [Event.transient, SysResult.transient] using he)]
    simp [WritenToDev.left, Writen.step, Writen.loop, he, hpos]

/-- Every step but a delay brings the command thread nearer to the end of the stream. -/
theorem readNetCmdThread_steps {e : CmdEvent} (hat : CmdAt c s) (h : Undisturbed s)
    (hb : Benign s (.cmd e)) (he : readNetCmdThread s e = some s') :
    stepsLeft s' + (Event.cmd e).cost ≤ stepsLeft s := by
  have hok := h.cmdPc
  have hleft : ∀ pc, s.cmdPc = pc →
      stepsLeft s = 8 * s.incoming.length + pc.steps (bodyLen s) := by
    rintro pc rfl
    rfl
  cases readNetCmdThread_move he with
  | whileCond hpc =>
    rw [hleft _ hpc]
    simp [stepsLeft, h.running, ReadNetCmdPc.steps, Event.cost, Event.transient]
  | callHeader hpc =>
    rw [hleft _ hpc, readn_running _ _ Nat.one_pos]
    simp [stepsLeft, headerCall, ReadNetCmdPc.steps, Event.cost, Event.transient]
  | readHeader hpc hu =>
    rw [hleft _ hpc]
    simp only [CmdAt, hpc] at hat
    exact readHeader_steps hat.1 hb hu
  | callBody hpc =>
    rw [hleft _ hpc]
    simp only [CmdAt, hpc] at hat
    rw [readn_running _ _ hat.1, bodyCall_running_steps]
    simp [ReadNetCmdPc.steps, Event.cost, Event.transient]
  | readBody hpc hu =>
    rw [hleft _ hpc]
    simp only [CmdAt, hpc] at hat
    obtain ⟨got, hat, -⟩ := hat
    exact readBody_steps hat hb hu
  | dispatch hpc =>
    rw [hleft _ hpc]
    have hloop := devCall_loop_steps (s := s) h.devFd 0 (bodyLen s + 1)
    simp only [ReadNetCmdPc.steps, Event.cost, Event.transient]
    rw [writenToCmdStatusDev]
    simp only [Bool.false_eq_true, if_false]
    omega
  | resetSet hpc | resetClear hpc => simp [CmdAt, hpc] at hat
  | wrote hpc hcall hk =>
    rw [hleft _ hpc]
    simp only [CmdAt, hpc] at hat
    obtain ⟨-, put, ⟨-, -, -, -, k, -, hw⟩, -⟩ := hat
    rw [hcall] at hw
    have hsteps := writeDev_steps hw hb (fun j hj => by cases hj; exact hk) hcall
    simp only [stepsLeft, ReadNetCmdPc.steps]
    omega
  | writeErr hpc hcall =>
    rw [hleft _ hpc]
    simp only [CmdAt, hpc] at hat
    obtain ⟨-, put, ⟨-, -, -, -, k, -, hw⟩, -⟩ := hat
    rw [hcall] at hw
    have hsteps := writeDev_steps hw hb (fun j hj => by cases hj) hcall
    simp only [stepsLeft, ReadNetCmdPc.steps]
    omega
  | @pieceDone l ret hpc hcall =>
    rw [hleft _ hpc]
    simp only [CmdAt, hpc] at hat
    rw [hpc] at hok
    obtain ⟨-, put, ⟨-, hlen, -⟩, -⟩ := hat
    rw [hok.2 _ hcall, WritenToDev.returned, if_neg (not_not.mpr rfl), hlen]
    have hloop := devCall_loop_steps (s := s) hok.1 l.data
      (l.leftLen - (writeLen l.leftLen : Int).toNat)
    simp only [ReadNetCmdPc.steps, WritenToDev.left, hcall, Event.cost, Event.transient,
      Bool.false_eq_true, if_false]
    rw [Int.toNat_natCast] at hloop ⊢
    omega

/-! ### The runs -/

/-- The invariant of the runs in which nothing fails for good. -/
theorem benign_invariant (h₀ : Started c s) (hrunning : s.sysStatus = .running)
    (hes : (threads c).EachStep Benign s es) (hrun : (threads c).run s es = some t) :
    (CmdAt c t ∧ Undisturbed t) ∧
    stepsLeft t + es.countP (fun e => !e.transient) ≤ 8 * c.stream.length + 3 := by
  have hI : ∀ u e u', CmdAt c u ∧ Undisturbed u → Benign u e → (threads c).step u e = some u' →
      CmdAt c u' ∧ Undisturbed u' := by
    intro u e u' ⟨hat, hu⟩ hb he
    exact ⟨step_cmdAt hat he, step_undisturbed hat hu hb he⟩
  have hμ : ∀ u e u', CmdAt c u ∧ Undisturbed u → Benign u e → (threads c).step u e = some u' →
      stepsLeft u' + (if !e.transient then 1 else 0) ≤ stepsLeft u := by
    intro u e u' ⟨hat, hu⟩ hb he
    cases e with
    | stop => exact absurd hb id
    | cmd e =>
      have hsteps := readNetCmdThread_steps hat hu hb he
      cases ht : (Event.cmd e).transient <;> simpa [Event.cost, ht] using hsteps
    | status e => exact absurd hb id
  have hs : CmdAt c s ∧ Undisturbed s := ⟨cmdAt_of_started h₀, undisturbed_of_started h₀ hrunning⟩
  refine ⟨Machine.run_invariant_of hI hes hs hrun, ?_⟩
  have hcount := Machine.run_countP_le hI hμ hes hs hrun
  obtain ⟨-, -, hin, -, -, hpc, -, -⟩ := h₀
  have hstart : stepsLeft s = 8 * c.stream.length + 3 := by
    simp [stepsLeft, hin, hpc, ReadNetCmdPc.steps]
  rwa [hstart] at hcount

/-- The command thread forwards the complete frames of the stream it gets: at every moment the
first of them and a part of the next, at the end all of them; and there is an end, since the
steps that are no delays are bounded and one of them can always be taken. -/
theorem readNetCmdThread_forwards (h₀ : Started c s) (hrunning : s.sysStatus = .running)
    (hes : (threads c).EachStep Benign s es) (hrun : (threads c).run s es = some t) :
    Forwarded c t ∧
    (∀ why, t.cmdPc = .exited why → t.devLog = devBytes (cmdFrames c.stream).flatten) ∧
    ((∀ why, t.cmdPc ≠ .exited why) →
      ∃ e, Benign t e ∧ e.transient = false ∧ ((threads c).step t e).isSome = true) ∧
    es.countP (fun e => !e.transient) ≤ 8 * c.stream.length + 3 := by
  obtain ⟨⟨hat, hu⟩, hcount⟩ := benign_invariant h₀ hrunning hes hrun
  exact ⟨hat.forwarded, fun why hpc => devLog_of_undisturbed hat hu hpc,
    fun hpc => exists_step hat hu hpc, Nat.le_trans (Nat.le_add_left _ _) hcount⟩

/-- A client that sends an empty header, a frame of two bytes and the beginning of another. -/
def cutFrame : Child := childOn [0, 2, 8, 9, 3, 1]

/-- The stream arrives in pieces, with two delays. -/
def cutFrameRun : List Event :=
  [.cmd .local, .cmd .local, .cmd (.socket (.ok 1)),
   .cmd .local, .cmd .local, .cmd (.socket (.err .EINTR)), .cmd (.socket (.ok 1)),
   .cmd .local, .cmd (.socket (.ok 1)), .cmd (.socket (.ok 1)), .cmd .local,
   .cmd (.device (.ok 2)), .cmd (.device (.err .EAGAIN)), .cmd (.device (.ok 1)), .cmd .local,
   .cmd .local, .cmd .local, .cmd (.socket (.ok 1)), .cmd .local, .cmd (.socket (.ok 1)),
   .cmd (.socket (.ok 0))]

theorem cmdFrames_cutFrame : cmdFrames cutFrame.stream = [[2, 8, 9]] := by
  simp [cmdFrames, cutFrame, childOn, frames]

theorem readNetCmdThread_forwards_cutFrame : ∃ t,
    (threads cutFrame).run cutFrame.start cutFrameRun = some t ∧
    t.cmdPc = .exited .bodyFailed ∧ t.devLog = devBytes [2, 8, 9] := by
  have hrun : ((threads cutFrame).run cutFrame.start cutFrameRun).map (fun s => s.cmdPc) =
      some (.exited .bodyFailed) := by decide +kernel
  have hbenign : (threads cutFrame).EachStep Benign cutFrame.start cutFrameRun := by
    decide +kernel
  obtain ⟨t, ht, hpc⟩ := Option.map_eq_some_iff.mp hrun
  obtain ⟨-, hend, -, -⟩ := readNetCmdThread_forwards cutFrame.started_start rfl hbenign ht
  have hlog := hend _ hpc
  rw [cmdFrames_cutFrame] at hlog
  exact ⟨t, ht, hpc, hlog⟩

end ITrace.CmdStatusTrans
