import ITrace.AcqDataTrans.Proofs.SenderTurns
import ITrace.Misc.CopyLoop

/-!
# The pipeline is a copy loop

Seen from the socket, two threads, two pipes and two buffers are one loop that reads a chunk and
writes it before it reads the next. The loop reads a chunk where the sender takes its index, so
the chunks the reader is ahead with are not yet part of it.
-/

namespace ITrace.AcqDataTrans

variable {socketFd : Int} {startAddr : Nat} {s s' : State}

/-- The sender is at a chunk: it is being written, or its writing ended and is being looked at, or
failed. -/
def SendAcqPc.sending : SendAcqPc → Bool
  | .writeSocket _ | .testSent _ | .exited .socketFailed => true
  | _ => false

/-- The pipeline as a copy loop. -/
def asCopyLoop (s : State) : CopyLoop UInt8 where
  read := s.hist.delivered.take s.hist.picked
  pending := (s.hist.delivered.take s.hist.picked).flatten.drop s.socketOut.length
  out := s.socketOut
  failed := s.sender.pc = .exited .socketFailed

theorem asCopyLoop_congr (hread : s'.hist.delivered.take s'.hist.picked =
      s.hist.delivered.take s.hist.picked) (hout : s'.socketOut = s.socketOut)
    (hpc : s'.sender.pc = .exited .socketFailed ↔ s.sender.pc = .exited .socketFailed) :
    asCopyLoop s' = asCopyLoop s := by
  simp [asCopyLoop, hread, hout, hpc]

/-- Between two chunks the loop has nothing left to write. -/
theorem pending_of_sent (h : s.hist.picked = s.hist.sent) (hout : s.socketOut = sentBytes s) :
    (asCopyLoop s).pending = [] := by
  simp [asCopyLoop, hout, sentBytes, h]

/-- Within a chunk it has the rest of the chunk left. -/
theorem pending_of_partly (hs : SenderAhead s 1 0) {chunk p : List UInt8}
    (hp : Partly s chunk p) : (asCopyLoop s).pending = chunk.drop p.length := by
  obtain ⟨hc, -, ho⟩ := hp
  simp only [asCopyLoop, ho, sentBytes, hs.1, hs.2, Nat.add_zero]
  rw [List.take_add_one, hc, List.flatten_append, List.length_append, ← List.drop_drop,
    List.drop_left]
  simp

/-- The reader changes nothing the copy loop has reached. -/
theorem readDmaThread_frame {e : ReaderEvent} (he : readDmaThread s e = some s') :
    s'.sender = s.sender ∧ s'.socketOut = s.socketOut ∧ s'.hist.picked = s.hist.picked ∧
    s.hist.delivered <+: s'.hist.delivered := by
  cases readDmaThread_move he with
  | readDone => exact ⟨rfl, rfl, rfl, List.prefix_append _ _⟩
  | readIndexErr | writeIndexErr => split <;> exact ⟨rfl, rfl, rfl, List.prefix_refl _⟩
  | whileCond | readIndex | setOffset | readStart | readProgress | readFailed | testNegative
  | writeIndex | testZero => exact ⟨rfl, rfl, rfl, List.prefix_refl _⟩

/-- What a step of the sender is to the copy loop. -/
inductive SenderMove (s s' : State) : Prop where
  | quiet (hhist : s'.hist.delivered = s.hist.delivered ∧ s'.hist.picked = s.hist.picked)
      (hout : s'.socketOut = s.socketOut)
      (hpc : s'.sender.pc = .exited .socketFailed ↔ s.sender.pc = .exited .socketFailed)
  | pick (hpc : s.sender.pc = .readIndex) (hpc' : s'.sender.pc = .testLength)
      (hhist : s'.hist.delivered = s.hist.delivered ∧ s'.hist.picked = s.hist.picked + 1)
      (hout : s'.socketOut = s.socketOut)
  | wrote (call : Writen) (k : Nat) (hpc : s.sender.pc = .writeSocket call)
      (hpc' : s'.sender.pc ≠ .exited .socketFailed) (hk : k ≤ call.nleft)
      (hhist : s'.hist = s.hist) (hout : s'.socketOut = s.socketOut ++ s.mem.load call.ptr k)
  | fail (hpc' : s'.sender.pc = .exited .socketFailed) (hhist : s'.hist = s.hist)
      (hout : s'.socketOut = s.socketOut)

theorem sendCall_quiet {call : Call Writen} (hpc : s.sender.pc ≠ .exited .socketFailed) :
    SenderMove s (sendCall s call) := by
  cases call <;> exact .quiet ⟨rfl, rfl⟩ rfl (by simp [sendCall, hpc])

theorem sendAcqDataThread_senderMove {e : SenderEvent}
    (he : sendAcqDataThread socketFd s e = some s') : SenderMove s s' := by
  cases sendAcqDataThread_move he with
  | whileCond hpc =>
    refine .quiet ⟨rfl, rfl⟩ rfl ?_
    by_cases hstop : s.sysStatus = .stop <;> simp [hstop, hpc]
  | readIndex hpc => exact .pick hpc rfl ⟨rfl, rfl⟩ rfl
  | readIndexErr hpc e | writeIndexErr hpc e =>
    cases e.transient with
    | true => exact .quiet ⟨rfl, rfl⟩ rfl Iff.rfl
    | false => exact .quiet ⟨rfl, rfl⟩ rfl (by simp [hpc])
  | start hpc => exact sendCall_quiet (by simp [hpc])
  | skip hpc | sent hpc | writeIndex hpc => exact .quiet ⟨rfl, rfl⟩ rfl (by simp [hpc])
  | @wrote call k hpc hk =>
    refine .wrote call k hpc ?_ hk ?_ ?_
    all_goals cases call.step (.ok k) <;> simp [sendCall]
  | writeErr hpc => exact sendCall_quiet (by simp [hpc])
  | failed => exact .fail rfl rfl rfl

/-- The index of the next chunk reaches the sender: the loop reads the chunk. -/
theorem asCopyLoop_pick (h : PipelineInv startAddr s) (h' : PipelineInv startAddr s')
    (hpc : s.sender.pc = .readIndex) (hpc' : s'.sender.pc = .testLength)
    (hhist : s'.hist.delivered = s.hist.delivered ∧ s'.hist.picked = s.hist.picked + 1)
    (hout : s'.socketOut = s.socketOut) :
    ∃ chunk, (asCopyLoop s).step (.read chunk) = some (asCopyLoop s') := by
  have hs := h.sender
  simp only [SenderAt, hpc] at hs
  obtain ⟨⟨hp, hsent⟩, ho⟩ := hs
  have hlt : s.hist.picked < s.hist.delivered.length := by
    have h₁ := h'.inOrder.picked_filled
    have h₂ := h'.inOrder.filled_delivered
    rw [hhist.2] at h₁
    rw [hhist.1] at h₂
    omega
  have hflat : (s.hist.delivered.take s.hist.picked).flatten = s.socketOut := by
    rw [ho, sentBytes, hp, hsent]
  have hread : s.hist.delivered.take (s.hist.picked + 1) =
      s.hist.delivered.take s.hist.picked ++ [s.hist.delivered[s.hist.picked]] :=
    (List.take_append_getElem hlt).symm
  refine ⟨s.hist.delivered[s.hist.picked], ?_⟩
  have hidle : ((asCopyLoop s).pending.isEmpty && !(asCopyLoop s).failed) = true := by
    rw [pending_of_sent (hp.trans hsent.symm) ho]
    simp [asCopyLoop, hpc]
  rw [CopyLoop.step, if_pos hidle]
  simp only [asCopyLoop, hhist, hout, hread, List.flatten_append, hflat, hpc, hpc']
  simp

/-- `write` accepted bytes of the chunk: the loop writes them. -/
theorem asCopyLoop_wrote (h : PipelineInv startAddr s) {call : Writen} {k : Nat}
    (hpc : s.sender.pc = .writeSocket call) (hpc' : s'.sender.pc ≠ .exited .socketFailed)
    (hk : k ≤ call.nleft) (hhist : s'.hist = s.hist)
    (hout : s'.socketOut = s.socketOut ++ s.mem.load call.ptr k) :
    (asCopyLoop s).step (.write k) = some (asCopyLoop s') := by
  have hs := h.sender
  simp only [SenderAt, hpc] at hs
  obtain ⟨hahead, -, chunk, put, hw, hp⟩ := hs
  obtain ⟨-, -, hleft, hptr⟩ := hw
  have hlen : (chunk.take put).length = put := by
    rw [List.length_take]
    omega
  have hpend : (asCopyLoop s).pending = chunk.drop put := by
    rw [pending_of_partly hahead hp, hlen]
  have hload : s.mem.load call.ptr k = (asCopyLoop s).pending.take k := by
    rw [hpend, hptr]
    exact Mem.load_sub (h.holds _ _ (Nat.le_refl _) hp.1).2 (by omega)
  have hroom : (decide (k ≤ (asCopyLoop s).pending.length) && !(asCopyLoop s).failed) = true := by
    rw [hpend]
    simp [asCopyLoop, hpc]
    omega
  rw [CopyLoop.step, if_pos hroom, ← hload]
  simp [asCopyLoop, hhist, hout, hpc, hpc']

/-- A step of the sender is at most one step of the copy loop. -/
theorem sendAcqDataThread_asCopyLoop {e : SenderEvent} (h : PipelineInv startAddr s)
    (he : sendAcqDataThread socketFd s e = some s') :
    ∃ ds, (CopyLoop.machine UInt8).run (asCopyLoop s) ds = some (asCopyLoop s') := by
  cases sendAcqDataThread_senderMove he with
  | quiet hhist hout hpc =>
    exact ⟨[], by rw [asCopyLoop_congr (by rw [hhist.1, hhist.2]) hout hpc]; rfl⟩
  | pick hpc hpc' hhist hout =>
    obtain ⟨chunk, hc⟩ := asCopyLoop_pick h (h.sendAcqDataThread_inv he) hpc hpc' hhist hout
    exact ⟨[.read chunk], Machine.run_cons_iff.mpr ⟨_, hc, rfl⟩⟩
  | wrote call k hpc hpc' hk hhist hout =>
    exact ⟨[.write k],
      Machine.run_cons_iff.mpr ⟨_, asCopyLoop_wrote h hpc hpc' hk hhist hout, rfl⟩⟩
  | fail hpc' hhist hout =>
    refine ⟨[.fail], Machine.run_cons_iff.mpr ⟨_, ?_, rfl⟩⟩
    simp [CopyLoop.machine, CopyLoop.step, asCopyLoop, hpc', hhist, hout]

/-- The pipeline refines the copy loop. -/
theorem asCopyLoop_reachable (hs : (pipeline socketFd startAddr).Reachable s) :
    (CopyLoop.machine UInt8).Reachable (asCopyLoop s) := by
  refine hs.map (fun s (h : Started startAddr s) => ?_) (fun s e s' hr he => ?_)
  · obtain ⟨-, -, -, hout, -, hpc, hh⟩ := h
    exact .of_init (by simp [CopyLoop.machine, asCopyLoop, hh, hout, hpc])
  · have h := pipelineInv_of_reachable hr
    cases e with
    | stop =>
      cases he
      exact ⟨[], rfl⟩
    | reader e =>
      obtain ⟨hsender, hout, hpicked, hdel⟩ := readDmaThread_frame he
      obtain ⟨cs, hcs⟩ := hdel
      have hle : s.hist.picked ≤ s.hist.delivered.length :=
        Nat.le_trans h.inOrder.picked_filled h.inOrder.filled_delivered
      refine ⟨[], ?_⟩
      rw [asCopyLoop_congr ?_ hout (by rw [hsender])]
      · rfl
      · rw [hpicked, ← hcs, List.take_append_of_le_length hle]
    | sender e => exact sendAcqDataThread_asCopyLoop h he

/-- Read off the copy loop: the socket has accepted the first bytes of what the device delivered,
in the order in which it delivered them. -/
theorem socketOut_isPrefix (hs : (pipeline socketFd startAddr).Reachable s) :
    s.socketOut <+: (s.hist.delivered.take s.hist.picked).flatten :=
  ⟨_, CopyLoop.out_append_pending (asCopyLoop_reachable hs)⟩

/-! ### What the socket accepted -/

/-- `p` is a part of the chunk that is being sent, or whose sending failed; it is empty where
there is no such chunk. -/
def CurrentPart (s : State) (p : List UInt8) : Prop :=
  p = [] ∨ (s.sender.pc.sending = true ∧
    ∃ chunk, s.hist.delivered[s.hist.sent]? = some chunk ∧ p <+: chunk)

theorem Partly.currentPart {chunk p : List UInt8} (hp : Partly s chunk p)
    (hs : SenderAhead s 1 0) (hpc : s.sender.pc.sending = true) :
    ∃ p, s.socketOut = sentBytes s ++ p ∧ CurrentPart s p := by
  obtain ⟨hc, hpre, ho⟩ := hp
  refine ⟨p, ho, .inr ⟨hpc, chunk, ?_, hpre⟩⟩
  rw [hs.2]
  exact hc

/-- What the socket accepted is what was sent, and a part of the chunk that is being sent. -/
theorem PipelineInv.socketOut_eq (h : PipelineInv startAddr s) :
    ∃ p, s.socketOut = sentBytes s ++ p ∧ CurrentPart s p := by
  have hidle : s.socketOut = sentBytes s → ∃ p, s.socketOut = sentBytes s ++ p ∧
      CurrentPart s p := by
    intro ho
    exact ⟨[], by rw [ho, List.append_nil], .inl rfl⟩
  have hs := h.sender
  unfold SenderAt at hs
  split at hs <;> rename_i hpc
  case h_6 =>
    obtain ⟨ha, -, chunk, put, -, hp⟩ := hs
    exact hp.currentPart ha (by rw [hpc]; rfl)
  case h_7 =>
    obtain ⟨ha, -, chunk, put, -, hp⟩ := hs
    exact hp.currentPart ha (by rw [hpc]; rfl)
  case h_9 =>
    obtain ⟨ha, chunk, p, hp⟩ := hs
    exact hp.currentPart ha (by rw [hpc]; rfl)
  case h_5 => exact hidle hs.2.1
  case h_8 => exact hidle hs.2.1
  all_goals exact hidle hs.2

/-- After a failed `write` nothing is sent any more. -/
theorem socketOut_of_failed {t : State} {es : List Event}
    (hpc : s.sender.pc = .exited .socketFailed)
    (hrun : (pipeline socketFd startAddr).run s es = some t) : t.socketOut = s.socketOut := by
  have hstep : ∀ (u : State) (e : Event) (u' : State),
      u.sender.pc = .exited .socketFailed ∧ u.socketOut = s.socketOut →
      (pipeline socketFd startAddr).step u e = some u' →
      u'.sender.pc = .exited .socketFailed ∧ u'.socketOut = s.socketOut := by
    intro u e u' ⟨hu, ho⟩ he
    cases e with
    | stop =>
      cases he
      exact ⟨hu, ho⟩
    | reader e =>
      obtain ⟨hsender, hout, -⟩ := readDmaThread_frame he
      exact ⟨by rw [hsender, hu], by rw [hout, ho]⟩
    | sender e => simp [pipeline, sendAcqDataThread, hu] at he
  exact (Machine.run_invariant hstep ⟨hpc, rfl⟩ hrun).2

/-- Every run of the two threads does what a copy loop does, and every device read goes where
its turn says. -/
theorem pipeline_copies (hs : (pipeline socketFd startAddr).Reachable s) :
    (CopyLoop.machine UInt8).Reachable (asCopyLoop s) ∧
    (∃ p, s.socketOut =
        ((s.hist.delivered.take s.hist.sent).filter fun chunk => !chunk.isEmpty).flatten ++ p ∧
      CurrentPart s p) ∧
    (s.sender.pc = .exited .socketFailed → ∀ es t,
      (pipeline socketFd startAddr).run s es = some t → t.socketOut = s.socketOut) ∧
    (∀ (k : Nat) (r : DmaRead), s.hist.reads[k]? = some r →
      r = ⟨some (UInt8.ofNat (k % 2)), k % 2 * maxDmaLength + startAddr⟩) := by
  have h := pipelineInv_of_reachable hs
  refine ⟨asCopyLoop_reachable hs, ?_, fun hpc es t hrun => socketOut_of_failed hpc hrun,
    fun k r hk => h.reads k r hk⟩
  rw [List.flatten_filter_not_isEmpty]
  exact h.socketOut_eq

theorem pipeline_copies_threeBytes : ∃ s,
    (pipeline 5 0).run (startState 0) threeBytes = some s ∧ s.socketOut = [1, 2, 3] ∧
    s.hist.reads = [⟨some 0, 0⟩, ⟨some 1, maxDmaLength⟩] ∧
    (CopyLoop.machine UInt8).Reachable (asCopyLoop s) := by
  have hrun : ((pipeline 5 0).run (startState 0) threeBytes).map
      (fun s => (s.socketOut, s.hist.reads)) =
        some ([1, 2, 3], [⟨some 0, 0⟩, ⟨some 1, maxDmaLength⟩]) := by decide +kernel
  obtain ⟨s, hs, hout⟩ := Option.map_eq_some_iff.mp hrun
  rw [Prod.mk.injEq] at hout
  exact ⟨s, hs, hout.1, hout.2,
    (pipeline_copies ⟨startState 0, threeBytes, started_startState 0, hs⟩).1⟩

end ITrace.AcqDataTrans
