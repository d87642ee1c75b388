import ITrace.Test.Proofs.Accounting
import ITrace.Test.StatusTest

/-!
# The test misses the device

The condition in `cmd_status_trans_rw_test` assigns the result of its comparison. So the descriptor
of the device is lost as soon as it is there, and the test writes its frame to the standard input
and counts the bytes it reads from there.
-/

namespace ITrace.Test

open ITrace CmdStatusTrans

variable {fds : List Nat} {s s' : StatusTest} {es : List StatusTestEvent} {e : StatusTestEvent}

/-- What the calls of `read` answered. -/
def readAnswers (es : List StatusTestEvent) : List ReadAnswer :=
  es.filterMap fun
    | .read answer => some answer
    | _ => none

/-- `open` failed, or returned the descriptor 0. -/
def StatusTestEvent.FailedOpen : StatusTestEvent → Prop
  | .opened answer => ∀ fd, answer = .ok fd → fd = 0
  | _ => False

/-! ### One step -/

/-- The call of `writen_to_cmd_status_dev` keeps its descriptor. -/
theorem loop_fd {fd : Int} {data len leftLen : Nat} {l : WritenToDev}
    (h : WritenToDev.loop fd data len leftLen = .running l) : l.fd = fd := by
  unfold WritenToDev.loop at h
  split at h
  · cases h
    rfl
  · cases h

theorem settle_fd {l l' : WritenToDev} (h : WritenToDev.settle (.running l) = .running l') :
    l'.fd = l.fd := by
  unfold WritenToDev.settle at h
  simp only at h
  split at h
  · cases h
    rfl
  · unfold WritenToDev.returned at h
    split at h
    · cases h
    · exact loop_fd h

theorem devLoop_fd {l l' : WritenToDev} {answer : SysResult}
    (h : devLoop.step l answer = .running l') : l'.fd = l.fd := by
  simp only [devLoop] at h
  split at h
  · have hfd := settle_fd h
    exact hfd
  · unfold WritenToDev.returned at h
    split at h
    · cases h
    · exact loop_fd h

theorem devCallStart_fd {fd : Int} {data len : Nat} {l : WritenToDev}
    (h : devCallStart fd data len = .running l) : l.fd = fd := by
  rw [devCallStart, writenToCmdStatusDev] at h
  cases hloop : WritenToDev.loop fd data len len with
  | running l₀ =>
    rw [hloop] at h
    rw [settle_fd h, loop_fd hloop]
  | returned ret =>
    rw [hloop] at h
    cases h

/-- All along the call it is the descriptor of the call. -/
theorem sending_fd {m : Mem UInt8} {fd : Int} {data len : Nat} {l : WritenToDev}
    {out : List UInt8} (h : (devLoop.sending m (devCallStart fd data len)).Reachable
      ⟨.running l, out⟩) : l.fd = fd := by
  refine h.invariant
    (I := fun t : IoLoop.Sending WritenToDev UInt8 => ∀ l, t.call = .running l → l.fd = fd)
    ?_ ?_ l rfl
  · intro t ht l hl
    subst ht
    exact devCallStart_fd hl
  · intro t answer t' ht he l hl
    obtain ⟨l₀, hl₀, ⟨k, rfl, hk, rfl⟩ | ⟨e, rfl, rfl⟩⟩ := IoLoop.sending_cases he
    · rw [devLoop_fd hl, ht l₀ hl₀]
    · rw [devLoop_fd hl, ht l₀ hl₀]

/-! ### The invariant -/

/-- `writen_to_cmd_status_dev` on the descriptor 0 stands at `call`, and what it gave away is what
was written to 0. -/
def TestSent (s : StatusTest) (call : Call WritenToDev) : Prop :=
  s.cmdStatusFd = 0 ∧
  (devLoop.sending writeCmdMem (devCallStart 0 0 writeCmd.length)).Reachable ⟨call, s.out 0⟩

/-- The loop stands at `l` after the answers of `read`. -/
def Reads (es : List StatusTestEvent) (l : ReadTest) : Prop :=
  ∃ data, cmdStatusTransRwTest.run (.start data) (readAnswers es) = some l

/-- What holds at each place of the thread. -/
def StatusTestAt (es : List StatusTestEvent) (s : StatusTest) : Prop :=
  match s.pc with
  | .openDevice => es = [] ∧ s.out 0 = []
  | .softReset _ => readAnswers es = [] ∧ s.out 0 = []
  | .write call => readAnswers es = [] ∧ TestSent s (.running call)
  | .malloc => readAnswers es = [] ∧ s.cmdStatusFd = 0 ∧ s.out 0 <+: writeCmd
  | .loop l => Reads es l ∧ s.cmdStatusFd = 0 ∧ s.out 0 <+: writeCmd
  | .returned none => s.out 0 <+: writeCmd
  | .returned (some l) => Reads es l ∧ s.out 0 <+: writeCmd
  | .exited => s.out 0 = []

/-- What holds all along a run. -/
structure MissesDevice (es : List StatusTestEvent) (s : StatusTest) : Prop where
  others : ∀ fd, fd ≠ 0 → s.out fd = [] ∧ s.taken fd = 0
  counted : s.taken 0 = total ((readAnswers es).map ReadAnswer.chunk)
  kept : ∀ fd, .opened (.ok fd) ∈ es → fd ∈ s.fds
  failed : s.pc = .exited ↔ ∃ e ∈ es, e.FailedOpen
  at_pc : StatusTestAt es s

theorem TestSent.out_isPrefix {call : Call WritenToDev} (h : TestSent s call) :
    s.out 0 <+: writeCmd := (dev_sent h.2).2.2

theorem StatusTestAt.out_isPrefix (h : StatusTestAt es s) : s.out 0 <+: writeCmd := by
  have hnothing : s.out 0 = [] → s.out 0 <+: writeCmd := by
    intro hout
    rw [hout]
    exact List.nil_prefix
  unfold StatusTestAt at h
  split at h
  · exact hnothing h.2
  · exact hnothing h.2
  · exact h.2.out_isPrefix
  · exact h.2.2
  · exact h.2.2
  · exact h
  · exact h.2
  · exact hnothing h

theorem readAnswers_concat (es : List StatusTestEvent) (e : StatusTestEvent) :
    readAnswers (es ++ [e]) = readAnswers es ++ readAnswers [e] := List.filterMap_append

/-! ### Every step keeps it -/

section
variable (s)

@[simp] theorem written_frame (call : Call WritenToDev) :
    (s.written call).out = s.out ∧ (s.written call).taken = s.taken ∧
    (s.written call).fds = s.fds := by
  cases call <;> exact ⟨rfl, rfl, rfl⟩

theorem written_pc (call : Call WritenToDev) : (s.written call).pc ≠ .exited := by
  cases call <;> exact nofun

/-- A descriptor that was returned is lost to the comparison. -/
theorem opened_fd (fd : Nat) :
    s.opened fd = { s with cmdStatusFd := 0 }.written (devCallStart 0 0 writeCmd.length) := by
  have hnot : ¬ ((fd : Int) < 0) := by omega
  rw [StatusTest.opened, if_neg hnot]
  rfl

theorem opened_failed : s.opened (-1) = { s with cmdStatusFd := 1, pc := .exited } := rfl

end

/-- The call goes on, or it has returned and the next thing is `malloc`. -/
theorem TestSent.written {call : Call WritenToDev} (hes : readAnswers es = [])
    (h : TestSent s call) : StatusTestAt es (s.written call) := by
  have hpre := h.out_isPrefix
  cases call with
  | running l => exact ⟨hes, h⟩
  | returned ret => exact ⟨hes, h.1, hpre⟩

/-- A step that writes and reads nothing, and is no call of `open`. -/
theorem MissesDevice.quiet (h : MissesDevice es s) (hread : readAnswers [e] = [])
    (hopen : ∀ answer, e ≠ .opened answer) (hout : ∀ fd, fd ≠ 0 → s'.out fd = s.out fd)
    (htaken : s'.taken = s.taken) (hfds : s'.fds = s.fds) (hrun : s.pc ≠ .exited)
    (hpc : s'.pc ≠ .exited) (hat : StatusTestAt (es ++ [e]) s') : MissesDevice (es ++ [e]) s' where
  others fd hfd := by
    rw [hout fd hfd, htaken]
    exact h.others fd hfd
  counted := by
    rw [htaken, readAnswers_concat, hread, List.append_nil]
    exact h.counted
  kept fd hmem := by
    rcases List.mem_append.mp hmem with hmem | hmem
    · rw [hfds]
      exact h.kept fd hmem
    · exact absurd (List.mem_singleton.mp hmem).symm (hopen _)
  failed := by
    refine ⟨fun hex => absurd hex hpc, fun hex => ?_⟩
    obtain ⟨e', hmem, hfail⟩ := hex
    rcases List.mem_append.mp hmem with hmem | hmem
    · exact absurd (h.failed.mpr ⟨e', hmem, hfail⟩) hrun
    · rw [List.mem_singleton.mp hmem] at hfail
      unfold StatusTestEvent.FailedOpen at hfail
      split at hfail
      · exact absurd rfl (hopen _)
      · exact hfail.elim
  at_pc := hat

/-- The answer of `open`, the first step of all. -/
theorem MissesDevice.opening {answer : SysResult} (h : MissesDevice es s)
    (hpc : s.pc = .openDevice) (hout : s'.out = s.out) (htaken : s'.taken = s.taken)
    (hfds : ∀ fd, answer = .ok fd → fd ∈ s'.fds)
    (hexit : s'.pc = .exited ↔ (StatusTestEvent.opened answer).FailedOpen)
    (hnext : s'.pc = .exited ∨ ∃ fd, s'.pc = .softReset fd) :
    MissesDevice (es ++ [.opened answer]) s' := by
  have hat := h.at_pc
  simp only [StatusTestAt, hpc] at hat
  obtain ⟨rfl, hnothing⟩ := hat
  rw [← hout] at hnothing
  refine ⟨?_, ?_, ?_, ?_, ?_⟩
  · rw [hout, htaken]
    exact h.others
  · rw [htaken]
    exact h.counted
  · intro fd hmem
    rw [List.nil_append, List.mem_singleton] at hmem
    exact hfds fd (StatusTestEvent.opened.inj hmem).symm
  · rw [hexit, List.nil_append]
    simp only [List.mem_singleton, exists_eq_left]
  · unfold StatusTestAt
    rcases hnext with hex | ⟨fd, hreset⟩
    · rw [hex]
      exact hnothing
    · rw [hreset]
      exact ⟨rfl, hnothing⟩

/-- The device answered a `write`. -/
theorem MissesDevice.device {call : WritenToDev} {answer : SysResult}
    {t : IoLoop.Sending WritenToDev UInt8} (h : MissesDevice es s) (hpc : s.pc = .write call)
    (ht : (devLoop.sending writeCmdMem (devCallStart s.cmdStatusFd 0 writeCmd.length)).step
      ⟨.running call, s.out call.fd⟩ answer = some t) :
    MissesDevice (es ++ [.device answer])
      ({ s with out := Function.update s.out call.fd t.out }.written t.call) := by
  have hat := h.at_pc
  simp only [StatusTestAt, hpc] at hat
  obtain ⟨hes, hzero, hsending⟩ := hat
  rw [sending_fd hsending] at ht ⊢
  rw [hzero] at ht
  have hsent : TestSent { s with out := Function.update s.out 0 t.out } t.call := by
    refine ⟨hzero, ?_⟩
    simp only [Function.update_self]
    exact hsending.step ht
  obtain ⟨hout, htaken, hfds⟩ :=
    written_frame { s with out := Function.update s.out 0 t.out } t.call
  refine h.quiet rfl nofun ?_ htaken hfds (by simp [hpc]) (written_pc _ _) ?_
  · intro fd hne
    rw [hout]
    exact Function.update_of_ne hne ..
  · refine hsent.written ?_
    rw [readAnswers_concat, hes]
    rfl

/-- `read` answered. -/
theorem MissesDevice.read {l l' : ReadTest} {answer : ReadAnswer} (h : MissesDevice es s)
    (hpc : s.pc = .loop l) (hl : cmdStatusTransRwTest.step l answer = some l') :
    MissesDevice (es ++ [.read answer])
      { s with
        taken := Function.update s.taken s.cmdStatusFd
          (s.taken s.cmdStatusFd + answer.chunk.length)
        pc := if l'.returned then .returned (some l') else .loop l' } := by
  have hat := h.at_pc
  simp only [StatusTestAt, hpc] at hat
  obtain ⟨⟨data, hrun⟩, hzero, hpre⟩ := hat
  have hanswers : readAnswers (es ++ [.read answer]) = readAnswers es ++ [answer] :=
    readAnswers_concat es _
  have hreads : Reads (es ++ [.read answer]) l' := by
    refine ⟨data, ?_⟩
    rw [hanswers, Machine.run_append, hrun]
    exact Machine.run_cons_iff.mpr ⟨l', hl, Machine.run_nil l'⟩
  rw [hzero]
  refine ⟨?_, ?_, ?_, ?_, ?_⟩
  · intro fd hne
    simp only [Function.update_of_ne hne]
    exact h.others fd hne
  · simp only [Function.update_self]
    rw [hanswers, List.map_append, List.map_singleton, total_concat,
      h.counted]
  · intro fd hmem
    rcases List.mem_append.mp hmem with hmem | hmem
    · exact h.kept fd hmem
    · exact nomatch List.mem_singleton.mp hmem
  · constructor
    · intro hex
      simp only at hex
      split at hex <;> cases hex
    · intro ⟨e', hmem, hfail⟩
      rcases List.mem_append.mp hmem with hmem | hmem
      · have hex := h.failed.mpr ⟨e', hmem, hfail⟩
        rw [hpc] at hex
        cases hex
      · rw [List.mem_singleton.mp hmem] at hfail
        exact hfail.elim
  · unfold StatusTestAt
    cases hret : l'.returned with
    | true => exact ⟨hreads, hpre⟩
    | false => exact ⟨hreads, rfl, hpre⟩

theorem missesDevice_step (h : MissesDevice es s) (he : (statusTest fds).step s e = some s') :
    MissesDevice (es ++ [e]) s' := by
  change StatusTest.step s e = some s' at he
  unfold StatusTest.step at he
  split at he
  case h_1 fd hpc =>
    obtain ⟨-, he⟩ := Option.ite_none_right_eq_some.mp he
    cases he
    by_cases hzero : fd ≤ 0
    · simp only [if_pos hzero, opened_failed]
      refine h.opening hpc rfl rfl ?_ ?_ (.inl rfl)
      · intro fd' heq
        rw [SysResult.ok.inj heq]
        exact List.mem_cons_self ..
      · refine ⟨fun _ fd' heq => ?_, fun _ => rfl⟩
        rw [← SysResult.ok.inj heq]
        exact Nat.le_zero.mp hzero
    · simp only [if_neg hzero]
      refine h.opening hpc rfl rfl ?_ ?_ (.inr ⟨fd, rfl⟩)
      · intro fd' heq
        rw [SysResult.ok.inj heq]
        exact List.mem_cons_self ..
      · exact ⟨nofun, fun hfail => absurd (Nat.le_of_eq (hfail fd rfl)) hzero⟩
  case h_2 errno hpc =>
    cases he
    rw [opened_failed]
    exact h.opening hpc rfl rfl nofun ⟨fun _ => nofun, fun _ => rfl⟩ (.inl rfl)
  case h_3 fd hpc =>
    cases he
    have hat := h.at_pc
    simp only [StatusTestAt, hpc] at hat
    obtain ⟨hes, hnothing⟩ := hat
    rw [opened_fd]
    obtain ⟨hout, htaken, hfds⟩ := written_frame
      { s with softResets := s.softResets + 1, cmdStatusFd := 0 }
      (devCallStart 0 0 writeCmd.length)
    refine h.quiet rfl nofun (fun fd hne => congrFun hout fd) htaken hfds (by simp [hpc])
      (written_pc _ _) (TestSent.written ?_ ⟨rfl, .of_init ?_⟩)
    · rw [readAnswers_concat, hes]
      rfl
    · exact congrArg (IoLoop.Sending.mk _) hnothing
  case h_4 call answer hpc =>
    obtain ⟨t, ht, rfl⟩ := Option.map_eq_some_iff.mp he
    exact h.device hpc ht
  case h_5 hpc =>
    cases he
    have hat := h.at_pc
    simp only [StatusTestAt, hpc] at hat
    exact h.quiet rfl nofun (fun fd hne => rfl) rfl rfl (by simp [hpc]) nofun hat.2.2
  case h_6 data hpc =>
    cases he
    have hat := h.at_pc
    simp only [StatusTestAt, hpc] at hat
    obtain ⟨hes, hzero, hpre⟩ := hat
    refine h.quiet rfl nofun (fun fd hne => rfl) rfl rfl (by simp [hpc]) nofun
      ⟨⟨data, ?_⟩, hzero, hpre⟩
    rw [readAnswers_concat, hes]
    rfl
  case h_7 l answer hpc =>
    obtain ⟨l', hl, rfl⟩ := Option.map_eq_some_iff.mp he
    exact h.read hpc hl
  case h_8 => cases he

theorem missesDevice_start (fds : List Nat) : MissesDevice [] (.start fds) where
  others _ _ := ⟨rfl, rfl⟩
  counted := rfl
  kept _ hmem := nomatch hmem
  failed := ⟨nofun, fun ⟨_, hmem, _⟩ => nomatch hmem⟩
  at_pc := ⟨rfl, rfl⟩

/-- For all answers of the system, at every point of a run of the thread: the log on the descriptors
1 and 2 apart, nothing was written to or read from a descriptor other than the standard input,
which has the beginning of `write_cmd`; the device is not closed before the end of the process; the
process exits exactly if `open` failed or returned 0. In its loop, and where
it returned from it, the thread stands where the loop alone stands after the same answers, and the
bytes of these were taken from the standard input. -/
theorem statusTest_missesDevice (hrun : (statusTest fds).run (.start fds) es = some s) :
    (∀ fd, fd ≠ 0 → s.out fd = [] ∧ s.taken fd = 0) ∧
    s.out 0 <+: writeCmd ∧
    (∀ fd, .opened (.ok fd) ∈ es → fd ∈ s.fds) ∧
    (s.pc = .exited ↔ ∃ e ∈ es, e.FailedOpen) ∧
    s.taken 0 = total ((readAnswers es).map ReadAnswer.chunk) ∧
    ∀ l, s.pc = .loop l ∨ s.pc = .returned (some l) →
      ∃ data, cmdStatusTransRwTest.run (.start data) (readAnswers es) = some l := by
  have h : MissesDevice es s := Machine.run_history (m := statusTest fds) (I := MissesDevice)
    (fun es s e s' h he => missesDevice_step h he) (missesDevice_start fds) hrun
  refine ⟨h.others, h.at_pc.out_isPrefix, h.kept, h.failed, h.counted, fun l hl => ?_⟩
  have hat := h.at_pc
  rcases hl with hpc | hpc
  · simp only [StatusTestAt, hpc] at hat
    exact hat.1
  · simp only [StatusTestAt, hpc] at hat
    exact hat.1

/-- The device is there as descriptor 3. The frame goes to the standard input in two pieces, and two
reads take three bytes from there. -/
def deviceThere (data : Int → UInt8) : List StatusTestEvent :=
  [.opened (.ok 3), .ioctl, .device (.ok 4), .device (.ok 2), .malloc (some data),
    .read (.bytes [1, 2]), .read (.bytes [3])]

theorem statusTest_missesDevice_deviceThere : ∃ s,
    (statusTest [0, 1, 2]).run (.start [0, 1, 2]) (deviceThere fun _ => 0) = some s ∧
    s.out 0 = writeCmd ∧ s.out 3 = [] ∧ 3 ∈ s.fds ∧ s.taken 0 = 3 ∧ s.taken 3 = 0 := by
  have hrun : ((statusTest [0, 1, 2]).run (.start [0, 1, 2]) (deviceThere fun _ => 0)).map
      (fun s => s.out 0) = some writeCmd := by
    decide +kernel
  obtain ⟨s, hs, hout⟩ := Option.map_eq_some_iff.mp hrun
  obtain ⟨hothers, -, hkept, -, htaken, -⟩ := statusTest_missesDevice hs
  have hthree := hothers 3 (by decide)
  refine ⟨s, hs, hout, hthree.1, hkept 3 ?_, htaken, hthree.2⟩
  exact List.mem_cons_self ..

end ITrace.Test
