import ITrace.CmdStatusTrans.Proofs.CommandCodec
import ITrace.CmdStatusTrans.Startup

/-!
# The address reaches the SPM or no command does

The branch that sends the address is one write of one frame, so the device reads the address
command exactly if the program reports that it was sent, and no command at all otherwise. The same
holds of the two frames of `set_gtx_rx_ch_enable`.
-/

namespace ITrace.CmdStatusTrans

variable {rsv : Int} {fds : List Nat} {s s' : Spm} {es : List SpmEvent} {D : List UInt8}
  {cmd : Command}

/-- The beginning of a frame is read as the command if it is the whole frame, else as nothing. -/
theorem commands_of_isPrefix (h : D <+: cmd.bytes) :
    (D = cmd.bytes ∧ commands D = [cmd]) ∨ (D ≠ cmd.bytes ∧ commands D = []) := by
  by_cases heq : D = cmd.bytes
  · have hone := commands_encode [cmd]
    rw [encode, List.map_singleton, List.flatten_singleton] at hone
    exact .inl ⟨heq, heq ▸ hone⟩
  · exact .inr ⟨heq, commands_of_cut (.inr ⟨cmd, h, heq⟩)⟩

/-- The command with the last byte of the address. -/
def ipCommand (rsv : Int) : Command :=
  ⟨(ipWriteCmd rsv).tail, by simp [ipWriteCmd], by simp [ipWriteCmd]⟩

theorem length_ipWriteCmd (rsv : Int) : (ipWriteCmd rsv).length = ipWriteCmdSize := rfl

theorem load_ipWriteCmdMem (rsv : Int) :
    (ipWriteCmdMem rsv).load 0 ipWriteCmdSize = ipWriteCmd rsv := rfl

theorem toNat_lowByte (rsv : Int) : ((lowByte rsv).toNat : Int) = rsv % 256 := by
  have hlo := Int.emod_nonneg rsv (show (256 : Int) ≠ 0 by decide)
  have hhi := Int.emod_lt_of_pos rsv (show (0 : Int) < 256 by decide)
  rw [lowByte, UInt8.toNat_ofNat', Nat.mod_eq_of_lt (by omega)]
  omega

/-! ### The invariant -/

/-- `writen_to_cmd_status_dev` on `fd` stands at `call`, and what it gave away is what the device
has. -/
def IpSent (rsv : Int) (fd : Nat) (s : Spm) (call : Call WritenToDev) : Prop :=
  s.softResets = 1 ∧
  (devLoop.sending (ipWriteCmdMem rsv) (devCallStart fd 0 ipWriteCmdSize)).Reachable
    ⟨call, s.devBytes⟩

/-- What was reported is what the call returned. -/
def Reported (rsv : Int) (s : Spm) : Prop :=
  ∃ fd ret, IpSent rsv fd s (.returned ret) ∧ s.report = some (decide (ret = ipWriteCmdSize))

/-- What holds at each place of the branch. -/
def SpmAt (rsv : Int) (fds : List Nat) (s : Spm) : Prop :=
  match s.pc with
  | .openDevice => s = Spm.start fds
  | .softReset fd =>
      0 < fd ∧ s.fds = fd :: fds ∧ s.softResets = 0 ∧ s.devBytes = [] ∧ s.report = none
  | .write fd call =>
      0 < fd ∧ s.fds = fd :: fds ∧ IpSent rsv fd s (.running call) ∧ s.report = none
  | .close fd => s.fds = fd :: fds ∧ Reported rsv s
  | .exited =>
      ((s.fds = fds ∨ s.fds = 0 :: fds) ∧ s.devBytes = [] ∧ s.softResets = 0 ∧ s.report = none) ∨
      (s.fds = fds ∧ Reported rsv s)

/-- The steps that are left at most, not counting the calls that are made again. -/
def Spm.stepsLeft (s : Spm) : Nat :=
  match s.pc with
  | .openDevice => ipWriteCmdSize + 3
  | .softReset _ => ipWriteCmdSize + 2
  | .write _ call => call.rest + 1
  | .close _ => 1
  | .exited => 0

/-- The call goes on, or it has returned and its result is looked at. -/
theorem SpmAt.written {fd : Nat} {call : Call WritenToDev} (hfd : 0 < fd)
    (hfds : s.fds = fd :: fds) (hsent : IpSent rsv fd s call) (hreport : s.report = none) :
    SpmAt rsv fds (s.written fd call) ∧
    (s.written fd call).stepsLeft = IoLoop.left WritenToDev.rest call + 1 := by
  cases call with
  | running l => exact ⟨⟨hfd, hfds, hsent, hreport⟩, rfl⟩
  | returned ret => exact ⟨⟨hfds, fd, ret, hsent, rfl⟩, rfl⟩

/-- The device answered a `write`. -/
theorem SpmAt.device {fd : Nat} {call : WritenToDev} {answer : SysResult}
    {t : IoLoop.Sending WritenToDev UInt8} (hfd : 0 < fd) (hfds : s.fds = fd :: fds)
    (hsent : IpSent rsv fd s (.running call)) (hreport : s.report = none)
    (ht : (devLoop.sending (ipWriteCmdMem rsv) (devCallStart fd 0 ipWriteCmdSize)).step
      ⟨.running call, s.devBytes⟩ answer = some t) :
    SpmAt rsv fds ({ s with devBytes := t.out }.written fd t.call) ∧
    ({ s with devBytes := t.out }.written fd t.call).stepsLeft +
      (if !answer.transient then 1 else 0) ≤ call.rest + 1 := by
  obtain ⟨hreset, hsending⟩ := hsent
  have hstands := (dev_sent hsending).1
  have hlast := Machine.run_cons_iff.mpr ⟨t, ht, Machine.run_nil t⟩
  have hnext : IpSent rsv fd { s with devBytes := t.out } t.call := ⟨hreset, hsending.step ht⟩
  obtain ⟨hat, hsteps⟩ := SpmAt.written (s := { s with devBytes := t.out }) hfd hfds hnext hreport
  refine ⟨hat, ?_⟩
  obtain ⟨c, hc, hend⟩ := Machine.run_cons_iff.mp (IoLoop.calls_of_sending hlast)
  cases hend
  have hspends := (dev_moves 0 ipWriteCmdSize).spends (dev_retries 0 ipWriteCmdSize)
  have hspent := (hspends.step ⟨_, hstands⟩ hc).2
  have hbudget : IoLoop.left WritenToDev.rest (.running call) = call.rest := rfl
  rw [hbudget] at hspent
  rw [hsteps]
  omega

theorem spm_step {e : SpmEvent} (h : SpmAt rsv fds s) (he : (spm rsv fds).step s e = some s') :
    SpmAt rsv fds s' ∧ s'.stepsLeft + (if !e.waits then 1 else 0) ≤ s.stepsLeft := by
  change Spm.step rsv s e = some s' at he
  unfold Spm.step at he
  split at he
  case h_1 answer hpc =>
    simp only [SpmAt, hpc] at h
    subst h
    have hpart : (Spm.start fds).stepsLeft = ipWriteCmdSize + 3 := rfl
    rw [hpart]
    cases answer with
    | err e =>
      cases he
      exact ⟨.inl ⟨.inl rfl, rfl, rfl, rfl⟩, Nat.le_add_left 1 _⟩
    | ok fd =>
      obtain ⟨hnew, he⟩ := Option.ite_none_right_eq_some.mp he
      cases he
      by_cases hzero : fd ≤ 0
      · obtain rfl : fd = 0 := Nat.le_zero.mp hzero
        exact ⟨.inl ⟨.inr rfl, rfl, rfl, rfl⟩, Nat.le_add_left 1 _⟩
      · simp only [if_neg hzero]
        exact ⟨⟨Nat.pos_of_ne_zero (by omega), rfl, rfl, rfl, rfl⟩, Nat.le_refl _⟩
  case h_2 fd hpc =>
    simp only [SpmAt, hpc] at h
    obtain ⟨hfd, hfds, hresets, hbytes, hreport⟩ := h
    cases he
    have hsent : IpSent rsv fd { s with softResets := s.softResets + 1 }
        (devCallStart fd 0 ipWriteCmdSize) := by
      refine ⟨congrArg (· + 1) hresets, .of_init ?_⟩
      exact congrArg (IoLoop.Sending.mk _) hbytes
    obtain ⟨hat, hsteps⟩ := SpmAt.written (s := { s with softResets := s.softResets + 1 }) hfd hfds
      hsent hreport
    refine ⟨hat, ?_⟩
    have hle : IoLoop.left WritenToDev.rest (devCallStart fd 0 ipWriteCmdSize) ≤ ipWriteCmdSize := by
      have hstands := devCallStart_stands fd 0 ipWriteCmdSize
      cases hc : devCallStart fd 0 ipWriteCmdSize with
      | running l =>
        rw [hc] at hstands
        exact Nat.le_of_eq ((dev_moves 0 ipWriteCmdSize).rest_eq hstands)
      | returned ret => exact Nat.zero_le _
    have hpart : s.stepsLeft = ipWriteCmdSize + 2 := by rw [Spm.stepsLeft, hpc]
    rw [hsteps, hpart]
    simp only [SpmEvent.waits, Bool.not_false, if_true]
    omega
  case h_3 fd call answer hpc =>
    simp only [SpmAt, hpc] at h
    obtain ⟨hfd, hfds, hsent, hreport⟩ := h
    obtain ⟨t, ht, rfl⟩ := Option.map_eq_some_iff.mp he
    have hpart : s.stepsLeft = call.rest + 1 := by rw [Spm.stepsLeft, hpc]
    rw [hpart]
    exact SpmAt.device hfd hfds hsent hreport ht
  case h_4 fd hpc =>
    simp only [SpmAt, hpc] at h
    obtain ⟨hfds, hreported⟩ := h
    cases he
    refine ⟨.inr ⟨?_, hreported⟩, by simp [Spm.stepsLeft, hpc, SpmEvent.waits]⟩
    rw [hfds]
    exact List.erase_cons_head ..
  case h_5 => cases he

theorem spmAt_start (rsv : Int) (fds : List Nat) : SpmAt rsv fds (Spm.start fds) := rfl

theorem spmAt_of_run (hrun : (spm rsv fds).run (Spm.start fds) es = some s) :
    SpmAt rsv fds s :=
  Machine.run_invariant (I := SpmAt rsv fds) (fun _ _ _ h he => (spm_step h he).1)
    (spmAt_start rsv fds) hrun

/-- A branch that has not exited can go on. -/
theorem spm_goesOn (rsv : Int) (fds : List Nat) (hpc : s.pc ≠ .exited) :
    ∃ e s', (spm rsv fds).step s e = some s' ∧ e.waits = false := by
  cases hs : s.pc with
  | openDevice => exact ⟨.opened (.err .EBADF), _, by simp [spm, Spm.step, hs, Spm.opened]; rfl, rfl⟩
  | softReset fd => exact ⟨.ioctl, _, by simp [spm, Spm.step, hs]; rfl, rfl⟩
  | write fd call =>
    exact ⟨.device (.err .EBADF), _, by simp [spm, Spm.step, hs, IoLoop.sending]; rfl, rfl⟩
  | close fd => exact ⟨.close, _, by simp [spm, Spm.step, hs]; rfl, rfl⟩
  | exited => exact absurd hs hpc

/-! ### What the device reads -/

theorem IpSent.bytes_isPrefix {fd : Nat} {call : Call WritenToDev} (h : IpSent rsv fd s call) :
    s.devBytes <+: ipWriteCmd rsv := (dev_sent h.2).2.2

/-- The call returns the size of the command exactly if the device has it. -/
theorem Reported.iff (h : Reported rsv s) : s.report = some true ↔ s.devBytes = ipWriteCmd rsv := by
  obtain ⟨fd, ret, hsent, hreport⟩ := h
  obtain ⟨hstands, hbytes, -⟩ := dev_sent hsent.2
  have hlen : s.devBytes = ipWriteCmd rsv ↔ s.devBytes.length = ipWriteCmdSize := by
    rw [← load_ipWriteCmdMem, ← Mem.eq_load_iff hbytes]
  rw [hreport, hlen, Option.some.injEq, decide_eq_true_eq]
  rcases hstands with ⟨hret, hput⟩ | ⟨r, hret, hr, -, -, -, hput⟩
  · exact ⟨fun _ => hput, fun _ => hret⟩
  · have hless : s.devBytes.length < ipWriteCmdSize := hput
    constructor
    · intro h
      omega
    · intro h
      omega

theorem SpmAt.device_has (h : SpmAt rsv fds s) :
    s.devBytes <+: ipWriteCmd rsv ∧ (s.report = some true ↔ s.devBytes = ipWriteCmd rsv) ∧
    (s.devBytes ≠ [] → s.softResets = 1) := by
  have hnothing : s.devBytes = [] → s.report = none →
      s.devBytes <+: ipWriteCmd rsv ∧ (s.report = some true ↔ s.devBytes = ipWriteCmd rsv) ∧
      (s.devBytes ≠ [] → s.softResets = 1) := by
    intro hbytes hreport
    rw [hbytes, hreport]
    exact ⟨List.nil_prefix, by simp [ipWriteCmd], fun hne => absurd rfl hne⟩
  have hreported : Reported rsv s →
      s.devBytes <+: ipWriteCmd rsv ∧ (s.report = some true ↔ s.devBytes = ipWriteCmd rsv) ∧
      (s.devBytes ≠ [] → s.softResets = 1) := by
    intro h
    obtain ⟨fd, ret, hsent, -⟩ := id h
    exact ⟨hsent.bytes_isPrefix, h.iff, fun _ => hsent.1⟩
  unfold SpmAt at h
  split at h
  · rw [h]
    exact ⟨List.nil_prefix, by simp [Spm.start, ipWriteCmd], fun hne => absurd rfl hne⟩
  · exact hnothing h.2.2.2.1 h.2.2.2.2
  · obtain ⟨-, -, hsent, hreport⟩ := h
    refine ⟨hsent.bytes_isPrefix, ?_, fun _ => hsent.1⟩
    -- a call that runs has something left to write
    have hstands := (dev_sent hsent.2).1
    have hpos := (dev_retries 0 ipWriteCmdSize).pos hstands
    have hcount := (dev_moves 0 ipWriteCmdSize).count_le hstands
    have hrest := (dev_moves 0 ipWriteCmdSize).rest_eq hstands
    rw [hreport]
    refine ⟨nofun, fun heq => ?_⟩
    rw [heq, length_ipWriteCmd] at hrest
    omega
  · exact hreported h.2
  · rcases h with ⟨-, hbytes, -, hreport⟩ | ⟨-, hr⟩
    · exact hnothing hbytes hreport
    · exact hreported hr

/-- For every address and all answers of the system, at every point of a run of the branch: it has
reported that the address was sent exactly if the device reads the address command, whose body has
the last byte of the address in its place, and as long as it has not the device reads no command.
Nothing is written before the one soft reset. The branch makes at most 26 calls beside those that
are made again and can always go on until it exits, where the descriptors are those it started
with; only a device that was opened as descriptor 0 stays open. -/
theorem spm_sendsIp (hrun : (spm rsv fds).run (Spm.start fds) es = some s) :
    ((s.report = some true ∧ ∃ cmd b, commands s.devBytes = [cmd] ∧ cmd.bytes = ipWriteCmd rsv ∧
        cmd.body[16]? = some b ∧ (b.toNat : Int) = rsv % 256) ∨
      (s.report ≠ some true ∧ commands s.devBytes = [] ∧ s.devBytes <+: ipWriteCmd rsv)) ∧
    (s.devBytes ≠ [] → s.softResets = 1) ∧
    es.countP (fun e => !e.waits) ≤ 26 ∧
    (s.pc ≠ .exited → ∃ e s', (spm rsv fds).step s e = some s' ∧ e.waits = false) ∧
    (s.pc = .exited → s.fds = fds ∨ s.fds = 0 :: fds) := by
  have h := spmAt_of_run hrun
  obtain ⟨hpre, hiff, hreset⟩ := h.device_has
  have hcommands := @commands_of_isPrefix _ (ipCommand rsv) hpre
  refine ⟨?_, hreset, ?_, spm_goesOn rsv fds, fun hpc => ?_⟩
  · rcases hcommands with ⟨heq, hread⟩ | ⟨hne, hread⟩
    · exact .inl ⟨hiff.mpr heq, ipCommand rsv, lowByte rsv, hread, rfl, rfl, toNat_lowByte rsv⟩
    · exact .inr ⟨fun hreport => hne (hiff.mp hreport), hread, hpre⟩
  · have hbound := Machine.run_countP_le (m := spm rsv fds) (I := SpmAt rsv fds)
      (C := fun _ _ => True) (p := fun e => !e.waits) (μ := Spm.stepsLeft)
      (fun _ _ _ h _ he => (spm_step h he).1) (fun _ _ _ h _ he => (spm_step h he).2)
      (Machine.eachStep_true _ es) (spmAt_start rsv fds) hrun
    have hstart : (Spm.start fds).stepsLeft = 26 := rfl
    omega
  · simp only [SpmAt, hpc] at h
    rcases h with ⟨hfds, -⟩ | ⟨hfds, -⟩
    · exact hfds
    · exact .inl hfds

/-- The address 120 in two pieces, with an interrupted call between them. -/
def ipInTwoPieces : List SpmEvent :=
  [.opened (.ok 3), .ioctl, .device (.ok 20), .device (.err .EINTR), .device (.ok 3), .close]

theorem spm_sendsIp_ipInTwoPieces : ∃ s,
    (spm 120 [0, 1, 2]).run (Spm.start [0, 1, 2]) ipInTwoPieces = some s ∧
    s.report = some true ∧
    ∃ cmd b, commands s.devBytes = [cmd] ∧ cmd.body[16]? = some b ∧ (b.toNat : Int) = 120 := by
  have hrun : ((spm 120 [0, 1, 2]).run (Spm.start [0, 1, 2]) ipInTwoPieces).map Spm.report =
      some (some true) := by decide +kernel
  obtain ⟨s, hs, hreport⟩ := Option.map_eq_some_iff.mp hrun
  refine ⟨s, hs, hreport, ?_⟩
  rcases (spm_sendsIp hs).1 with ⟨-, cmd, b, hread, -, hb, hnat⟩ | ⟨hnot, -⟩
  · exact ⟨cmd, b, hread, hb, hnat⟩
  · exact absurd hreport hnot

/-! ### `set_gtx_rx_ch_enable` -/

/-- The frame of `set_gtx_rx_ch_enable` in memory. -/
def gtxFrameMem (op : Int) : Mem UInt8 := fun i => ((gtxFrame op)[i]?).getD 0

theorem load_gtxFrameMem (op : Int) :
    (gtxFrameMem op).load 0 (gtxFrame op).length = gtxFrame op := by
  unfold gtxFrameMem gtxFrame
  split <;> rfl

/-- Where `writen` of the frame has returned, on a negative descriptor too. -/
theorem gtxFrame_written {op fd : Int} {answers : List SysResult} {ret : Int} {out : List UInt8}
    (hrun : (writenLoop.sending (gtxFrameMem op) (writen fd 0 (gtxFrame op).length)).run
      ⟨writen fd 0 (gtxFrame op).length, []⟩ answers = some ⟨.returned ret, out⟩) :
    WritenAt 0 (gtxFrame op).length out.length (.returned ret) ∧
    out = (gtxFrameMem op).load 0 out.length := by
  by_cases hfd : fd < 0
  · have hat := writen_at fd 0 (gtxFrame op).length
    rw [writen, if_pos hfd] at hrun hat
    cases answers with
    | nil =>
      cases hrun
      exact ⟨hat, rfl⟩
    | cons answer answers => cases hrun
  · obtain ⟨hstands, hout⟩ :=
      (writen_moves 0 (gtxFrame op).length).sent (writen_stands (Int.not_lt.mp hfd)) hrun
    exact ⟨hstands.1, hout⟩

/-- For every descriptor, every `open` argument and all answers of `write`: `set_gtx_rx_ch_enable`
returns 11 exactly if the device reads its command, and -1 exactly if the device reads none. -/
theorem setGtxRxChEnable_sends (op : Int) {fd : Int} {answers : List SysResult}
    {ret : Int} {out : List UInt8}
    (hrun : (writenLoop.sending (gtxFrameMem op) (writen fd 0 (gtxFrame op).length)).run
      ⟨writen fd 0 (gtxFrame op).length, []⟩ answers = some ⟨.returned ret, out⟩) :
    (setGtxRxChEnable op ret = 11 ∧ ∃ cmd, commands out = [cmd] ∧ cmd.bytes = gtxFrame op) ∨
    (setGtxRxChEnable op ret = -1 ∧ commands out = []) := by
  obtain ⟨hstands, hout⟩ := gtxFrame_written hrun
  have hown : OwnFrame (gtxFrame op) := by
    unfold gtxFrame
    split
    · exact .enable
    · exact .disable
  obtain ⟨cmd, hcmd⟩ := command_of_ownFrame hown
  have hlen : (gtxFrame op).length = 11 := by
    unfold gtxFrame
    split <;> rfl
  have hpre : out <+: cmd.bytes := by
    have hle : out.length ≤ (gtxFrame op).length := by
      rcases hstands with ⟨-, hput⟩ | ⟨-, hput⟩ <;> omega
    rw [hcmd, ← load_gtxFrameMem op, hout]
    exact Mem.load_prefix _ _ hle
  have hwhole : out = cmd.bytes ↔ out.length = (gtxFrame op).length := by
    rw [hcmd, ← load_gtxFrameMem op, ← Mem.eq_load_iff hout, Mem.length_load, load_gtxFrameMem]
  rw [setGtxRxChEnable, hlen]
  rw [hlen] at hwhole
  rcases hstands with ⟨hret, hput⟩ | ⟨hret, hput⟩
  · rcases commands_of_isPrefix hpre with ⟨-, hread⟩ | ⟨hne, -⟩
    · exact .inl ⟨if_pos (by omega), cmd, hread, hcmd⟩
    · exact absurd (hwhole.mpr (by omega)) hne
  · rcases commands_of_isPrefix hpre with ⟨heq, -⟩ | ⟨-, hread⟩
    · have hfull := hwhole.mp heq
      omega
    · exact .inr ⟨if_neg (by omega), hread⟩

theorem setGtxRxChEnable_sends_twoPieces :
    ∃ cmd, commands enableDmaDataTrans = [cmd] ∧ cmd.bytes = enableDmaDataTrans := by
  have hrun : (writenLoop.sending (gtxFrameMem 1) (writen 3 0 (gtxFrame 1).length)).run
      ⟨writen 3 0 (gtxFrame 1).length, []⟩ [.ok 5, .err .EINTR, .ok 6] =
        some ⟨.returned 11, enableDmaDataTrans⟩ := rfl
  rcases setGtxRxChEnable_sends 1 hrun with ⟨-, cmd, hread, hcmd⟩ | ⟨hret, -⟩
  · exact ⟨cmd, hread, hcmd⟩
  · exact absurd hret (by decide)

end ITrace.CmdStatusTrans
