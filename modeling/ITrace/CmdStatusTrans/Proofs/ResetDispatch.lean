import ITrace.CmdStatusTrans.Proofs.Forwarding

/-!
# The reset frame

The frame that `read_net_cmd_thread` means to turn into a hardware reset is compared over
`sizeof(reset_frame) == 0` characters, that is over none: `strncmp` finds no difference and the
branch of `reset_hardware` is never taken. The reset frame goes to the device like any other.
-/

namespace ITrace.CmdStatusTrans

/-- What the device is to see of one frame. -/
def frameOps (f : List UInt8) : List DevOp :=
  if f = resetFrame then [.setCtrlRegister 1, .setCtrlRegister 0] else devBytes f

/-- What the device is to see of a stream: a reset for each reset frame, the bytes of the others,
in order. -/
def streamOps (stream : List UInt8) : List DevOp := (cmdFrames stream).flatMap frameOps

variable {c : Child} {s t : State} {es : List Event}

theorem flatMap_frameOps {fs : List (List UInt8)} (h : resetFrame ∉ fs) :
    fs.flatMap frameOps = devBytes fs.flatten := by
  induction fs with
  | nil => rfl
  | cons f fs ih =>
    have hf : f ≠ resetFrame := fun hf => h (by simp [hf])
    have hfs : resetFrame ∉ fs := fun hfs => h (List.mem_cons_of_mem f hfs)
    rw [List.flatMap_cons, List.flatten_cons, devBytes_append, ih hfs, frameOps, if_neg hf]

/-- A reset frame in the stream asks for an operation that is not the writing of a byte. -/
theorem setCtrlRegister_mem {fs : List (List UInt8)} (h : resetFrame ∈ fs) :
    DevOp.setCtrlRegister 1 ∈ fs.flatMap frameOps :=
  List.mem_flatMap.mpr ⟨resetFrame, h, by simp [frameOps]⟩

theorem setCtrlRegister_not_mem (bs : List UInt8) : DevOp.setCtrlRegister 1 ∉ devBytes bs := by
  simp [devBytes]

/-- `reset_hardware` is not called in any run of the two threads. -/
theorem no_reset (hs : (threads c).Reachable s) : DevOp.setCtrlRegister 1 ∉ s.devLog := by
  obtain ⟨k, p, hlog, -⟩ := (cmdAt_of_reachable hs).forwarded
  rw [hlog]
  exact setCtrlRegister_not_mem _

/-- The command thread does what it is meant to do at the end of a stream exactly if no complete
reset frame is in the stream, and then also at every moment before. -/
theorem readNetCmdThread_dispatches_iff (h₀ : Started c s) (hrunning : s.sysStatus = .running)
    (hes : (threads c).EachStep Benign s es) (hrun : (threads c).run s es = some t) :
    (resetFrame ∉ cmdFrames c.stream → t.devLog <+: streamOps c.stream) ∧
    (∀ why, t.cmdPc = .exited why →
      (t.devLog = streamOps c.stream ↔ resetFrame ∉ cmdFrames c.stream)) := by
  obtain ⟨⟨hat, hu⟩, -⟩ := benign_invariant h₀ hrunning hes hrun
  refine ⟨fun hreset => ?_, fun why hpc => ?_⟩
  · rw [streamOps, flatMap_frameOps hreset]
    exact hat.forwarded.isPrefix
  · rw [devLog_of_undisturbed hat hu hpc]
    constructor
    · intro hlog hreset
      have hmem := setCtrlRegister_mem hreset
      rw [← streamOps, ← hlog] at hmem
      exact setCtrlRegister_not_mem _ hmem
    · intro hreset
      rw [streamOps, flatMap_frameOps hreset]

/-- A client that sends a frame which agrees with the reset frame up to its first zero byte. -/
def nearReset : Child :=
  childOn [0x0a, 0x53, 0xf8, 0x00, 0x01, 0x00, 0x00, 0xff, 0xfe, 0x00, 0x00]

/-- A client that sends the reset frame. -/
def oneReset : Child := childOn resetFrame

/-- A frame of eleven bytes is received in three pieces and given to the device in one. -/
def elevenBytes : List Event :=
  [.cmd .local, .cmd .local, .cmd (.socket (.ok 1)), .cmd .local, .cmd (.socket (.ok 4)),
   .cmd (.socket (.ok 6)), .cmd .local, .cmd (.device (.ok 11)), .cmd .local,
   .cmd .local, .cmd .local, .cmd (.socket (.ok 0))]

theorem readNetCmdThread_dispatches_nearReset : ∃ t,
    (threads nearReset).run nearReset.start elevenBytes = some t ∧
    t.cmdPc = .exited .headerFailed ∧ t.devLog = streamOps nearReset.stream := by
  have hrun : ((threads nearReset).run nearReset.start elevenBytes).map (fun s => s.cmdPc) =
      some (.exited .headerFailed) := by decide +kernel
  have hbenign : (threads nearReset).EachStep Benign nearReset.start elevenBytes := by
    decide +kernel
  have hreset : resetFrame ∉ cmdFrames nearReset.stream := by
    simp [resetFrame, cmdFrames, nearReset, childOn, Framing.frames]
  obtain ⟨t, ht, hpc⟩ := Option.map_eq_some_iff.mp hrun
  have hiff := (readNetCmdThread_dispatches_iff nearReset.started_start rfl hbenign ht).2 _ hpc
  exact ⟨t, ht, hpc, hiff.mpr hreset⟩

/-- The reset frame is written to the device and the hardware is not reset. -/
theorem oneReset_not_dispatched : ∃ t,
    (threads oneReset).run oneReset.start elevenBytes = some t ∧
    (threads oneReset).EachStep Benign oneReset.start elevenBytes ∧
    t.cmdPc = .exited .headerFailed ∧ t.devLog = devBytes resetFrame ∧
    t.devLog ≠ streamOps oneReset.stream := by
  have hrun : ((threads oneReset).run oneReset.start elevenBytes).map
      (fun s => (s.cmdPc, s.devLog)) =
        some (.exited .headerFailed, devBytes resetFrame) := by decide +kernel
  have hbenign : (threads oneReset).EachStep Benign oneReset.start elevenBytes := by
    decide +kernel
  have hops : streamOps oneReset.stream = [.setCtrlRegister 1, .setCtrlRegister 0] := by
    simp [streamOps, cmdFrames, oneReset, childOn, resetFrame, Framing.frames, frameOps]
  obtain ⟨t, ht, hpc⟩ := Option.map_eq_some_iff.mp hrun
  rw [Prod.mk.injEq] at hpc
  refine ⟨t, ht, hbenign, hpc.1, hpc.2, ?_⟩
  rw [hpc.2, hops]
  decide

end ITrace.CmdStatusTrans
