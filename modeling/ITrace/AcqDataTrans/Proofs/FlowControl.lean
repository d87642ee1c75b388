import ITrace.AcqDataTrans.Proofs.CopyLoop

/-!
# Flow control

The four counters of the pipeline bound how far a thread can run ahead of the other. The device
is never asked for more than two chunks that were not returned, the pipes stay nearly empty, the
two threads never wait for each other, and a thread that is left alone stops soon: the index its
partner had is lost with it.
-/

namespace ITrace.AcqDataTrans

variable {socketFd : Int} {startAddr : Nat} {s s' t : State} {es : List Event}

namespace PipelineInv

/-- A device read was started for every turn that was filled, and none without an index from the
DMA pipe. -/
theorem reads_between (h : PipelineInv startAddr s) :
    s.hist.filled ≤ s.hist.reads.length ∧ s.hist.reads.length ≤ s.hist.taken := by
  have hr := h.reader
  unfold ReaderAt ReaderAhead at hr
  split at hr
  case h_9 =>
    obtain ⟨hr, -⟩ := hr
    split at hr <;> omega
  all_goals omega

theorem returned_le_sent (h : PipelineInv startAddr s) : s.hist.returned ≤ s.hist.sent := by
  have hs := h.sender
  unfold SenderAt SenderAhead at hs
  split at hs <;> omega

/-- What a counter reached, the next one on the circle had reached before. -/
theorem filled_le_taken (h : PipelineInv startAddr s) : s.hist.filled ≤ s.hist.taken :=
  Nat.le_trans h.inOrder.filled_delivered h.inOrder.delivered_taken

theorem reads_le (h : PipelineInv startAddr s) :
    s.hist.reads.length ≤ s.hist.returned + 2 :=
  Nat.le_trans h.reads_between.2 h.inOrder.taken_returned

theorem length_dmaPipe_le (h : PipelineInv startAddr s) : s.dmaPipe.length ≤ 2 := by
  have h₁ := h.inOrder.returned_picked
  have h₂ := h.inOrder.picked_filled
  have h₃ := h.filled_le_taken
  rw [h.dmaPipe, Ring.length_window]
  omega

theorem length_socketPipe_le (h : PipelineInv startAddr s) : s.socketPipe.length ≤ 2 := by
  have h₁ := h.inOrder.returned_picked
  have h₂ := h.inOrder.taken_returned
  have h₃ := h.filled_le_taken
  rw [h.socketPipe, Ring.length_window]
  omega

/-- The index that the reader is about to put into the socket pipe is not in it yet. -/
theorem length_socketPipe_of_writeIndex (h : PipelineInv startAddr s)
    (hpc : s.reader.pc = .writeIndex) : s.socketPipe.length ≤ 1 := by
  have hr := h.reader
  simp only [ReaderAt, hpc] at hr
  have h₁ := h.inOrder.returned_picked
  have h₂ := h.inOrder.taken_returned
  have h₃ := hr.1.1
  rw [h.socketPipe, Ring.length_window]
  omega

theorem length_dmaPipe_of_writeIndex (h : PipelineInv startAddr s)
    (hpc : s.sender.pc = .writeIndex) : s.dmaPipe.length ≤ 1 := by
  have hs := h.sender
  simp only [SenderAt, hpc] at hs
  have h₁ := h.inOrder.picked_filled
  have h₂ := h.filled_le_taken
  have h₃ := hs.1.1
  rw [h.dmaPipe, Ring.length_window]
  omega

/-- With both threads at their pipes, the two pipes hold both indices. -/
theorem waiting (h : PipelineInv startAddr s) (hr : s.reader.pc = .readIndex)
    (hs : s.sender.pc = .readIndex) : s.dmaPipe ≠ [] ∨ s.socketPipe ≠ [] := by
  have hreader := h.reader
  have hsender := h.sender
  simp only [ReaderAt, hr] at hreader
  simp only [SenderAt, hs] at hsender
  have hlen : s.dmaPipe.length + s.socketPipe.length = 2 := by
    have h₁ := h.inOrder.picked_filled
    have h₂ := h.inOrder.taken_returned
    have h₃ := hreader.1
    have h₄ := hsender.1.1
    rw [h.dmaPipe, h.socketPipe, Ring.length_window, Ring.length_window]
    omega
  by_contra hempty
  obtain ⟨hdma, hsocket⟩ := not_or.mp hempty
  rw [not_not.mp hdma, not_not.mp hsocket] at hlen
  cases hlen

end PipelineInv

/-! ### When a thread has left -/

/-- Once its `write` to the socket failed the sender takes no index and puts none back. -/
theorem picked_of_socketFailed (hpc : s.sender.pc = .exited .socketFailed)
    (hrun : (pipeline socketFd startAddr).run s es = some t) :
    t.sender.pc = .exited .socketFailed ∧ t.hist.picked = s.hist.picked := by
  have hstep : ∀ (u : State) (e : Event) (u' : State),
      u.sender.pc = .exited .socketFailed ∧ u.hist.picked = s.hist.picked →
      (pipeline socketFd startAddr).step u e = some u' →
      u'.sender.pc = .exited .socketFailed ∧ u'.hist.picked = s.hist.picked := by
    intro u e u' ⟨hu, hpicked⟩ he
    cases e with
    | stop =>
      cases he
      exact ⟨hu, hpicked⟩
    | reader e =>
      obtain ⟨hsender, -, hp, -⟩ := readDmaThread_frame he
      exact ⟨by rw [hsender, hu], hp.trans hpicked⟩
    | sender e => simp [pipeline, sendAcqDataThread, hu] at he
  exact Machine.run_invariant hstep ⟨hpc, rfl⟩ hrun

/-- After the sender left with a failed `write`, one device read more is started at most. -/
theorem reads_of_socketFailed (hs : (pipeline socketFd startAddr).Reachable s)
    (hpc : s.sender.pc = .exited .socketFailed)
    (hrun : (pipeline socketFd startAddr).run s es = some t) :
    t.hist.reads.length ≤ s.hist.reads.length + 1 := by
  obtain ⟨hpct, hpicked⟩ := picked_of_socketFailed hpc hrun
  have hinv := pipelineInv_of_reachable hs
  have hinvt := pipelineInv_of_reachable (hs.run hrun)
  have hlost : t.hist.picked = t.hist.returned + 1 := by
    have hsender := hinvt.sender
    simp only [SenderAt, hpct] at hsender
    exact hsender.1.1
  have h₁ := hinvt.reads_le
  have h₂ := hinv.inOrder.picked_filled
  have h₃ := hinv.reads_between.1
  omega

/-- The sender leaves the reader and what it delivered alone. -/
theorem sendAcqDataThread_frame {e : SenderEvent}
    (he : sendAcqDataThread socketFd s e = some s') :
    s'.reader = s.reader ∧ s'.hist.delivered = s.hist.delivered := by
  have hcall : ∀ (u : State) (call : Call Writen), (sendCall u call).reader = u.reader ∧
      (sendCall u call).hist.delivered = u.hist.delivered := by
    intro u call
    cases call <;> exact ⟨rfl, rfl⟩
  cases sendAcqDataThread_move he with
  | start | wrote | writeErr => exact hcall _ _
  | readIndexErr | writeIndexErr => split <;> exact ⟨rfl, rfl⟩
  | whileCond | readIndex | skip | failed | sent | writeIndex => exact ⟨rfl, rfl⟩

/-- Once a device read failed nothing more is delivered. -/
theorem delivered_of_deviceFailed (hpc : s.reader.pc = .exited .deviceFailed)
    (hrun : (pipeline socketFd startAddr).run s es = some t) :
    t.hist.delivered = s.hist.delivered := by
  have hstep : ∀ (u : State) (e : Event) (u' : State),
      u.reader.pc = .exited .deviceFailed ∧ u.hist.delivered = s.hist.delivered →
      (pipeline socketFd startAddr).step u e = some u' →
      u'.reader.pc = .exited .deviceFailed ∧ u'.hist.delivered = s.hist.delivered := by
    intro u e u' ⟨hu, hdelivered⟩ he
    cases e with
    | stop =>
      cases he
      exact ⟨hu, hdelivered⟩
    | reader e => simp [pipeline, readDmaThread, hu] at he
    | sender e =>
      obtain ⟨hreader, hd⟩ := sendAcqDataThread_frame he
      exact ⟨by rw [hreader, hu], hd.trans hdelivered⟩
  exact (Machine.run_invariant hstep ⟨hpc, rfl⟩ hrun).2

/-- After the reader left with a failed device read, all that can still be sent is one chunk. -/
theorem sent_of_deviceFailed (hs : (pipeline socketFd startAddr).Reachable s)
    (hpc : s.reader.pc = .exited .deviceFailed)
    (hrun : (pipeline socketFd startAddr).run s es = some t) :
    t.hist.sent ≤ s.hist.sent + 1 ∧
    t.socketOut <+: (s.hist.delivered.take (s.hist.sent + 1)).flatten := by
  have hdelivered := delivered_of_deviceFailed hpc hrun
  have hinv := pipelineInv_of_reachable hs
  have hinvt := pipelineInv_of_reachable (hs.run hrun)
  have hlast : s.hist.delivered.length ≤ s.hist.sent + 1 := by
    have hreader := hinv.reader
    simp only [ReaderAt, hpc] at hreader
    have h₁ := hinv.inOrder.taken_returned
    have h₂ := hinv.returned_le_sent
    have h₃ := hreader.1
    have h₄ := hreader.2.1
    omega
  constructor
  · have hle := hinvt.sent_le
    rw [hdelivered] at hle
    exact Nat.le_trans hle hlast
  · have hout := socketOut_isPrefix (hs.run hrun)
    rw [hdelivered] at hout
    rw [List.take_of_length_le hlast]
    refine hout.trans ?_
    refine ⟨(s.hist.delivered.drop t.hist.picked).flatten, ?_⟩
    rw [← List.flatten_append, List.take_append_drop]

/-- The double buffer regulates itself, in every state of every run: no more than two device
reads beyond what the sender has returned, never more than two indices in a pipe and room for the
one that is written to it, no wait of both threads for each other; and a thread that lost its
partner to an error takes part in one more chunk. -/
theorem pipeline_regulates (hs : (pipeline socketFd startAddr).Reachable s) :
    s.hist.reads.length ≤ s.hist.returned + 2 ∧
    s.dmaPipe.length ≤ 2 ∧ s.socketPipe.length ≤ 2 ∧
    (s.reader.pc = .writeIndex → s.socketPipe.length ≤ 1 ∧
      ∃ s', (pipeline socketFd startAddr).step s (.reader (.pipe (.ok 1))) = some s') ∧
    (s.sender.pc = .writeIndex → s.dmaPipe.length ≤ 1 ∧
      ∃ s', (pipeline socketFd startAddr).step s (.sender (.pipe (.ok 1))) = some s') ∧
    ¬ (s.reader.pc = .readIndex ∧ s.dmaPipe = [] ∧ s.sender.pc = .readIndex ∧
      s.socketPipe = []) ∧
    (s.sender.pc = .exited .socketFailed → ∀ es t,
      (pipeline socketFd startAddr).run s es = some t →
      t.hist.reads.length ≤ s.hist.reads.length + 1) ∧
    (s.reader.pc = .exited .deviceFailed → ∀ es t,
      (pipeline socketFd startAddr).run s es = some t →
      t.hist.sent ≤ s.hist.sent + 1 ∧
      t.socketOut <+: (s.hist.delivered.take (s.hist.sent + 1)).flatten) := by
  have h := pipelineInv_of_reachable hs
  refine ⟨h.reads_le, h.length_dmaPipe_le, h.length_socketPipe_le, ?_, ?_, ?_, ?_, ?_⟩
  · intro hpc
    exact ⟨h.length_socketPipe_of_writeIndex hpc,
      Option.isSome_iff_exists.mp (by simp [pipeline, readDmaThread, hpc, pipeWrite])⟩
  · intro hpc
    exact ⟨h.length_dmaPipe_of_writeIndex hpc,
      Option.isSome_iff_exists.mp (by simp [pipeline, sendAcqDataThread, hpc, pipeWrite])⟩
  · rintro ⟨hr, hdma, hsender, hsocket⟩
    rcases h.waiting hr hsender with hne | hne
    · exact hne hdma
    · exact hne hsocket
  · intro hpc es t hrun
    exact reads_of_socketFailed hs hpc hrun
  · intro hpc es t hrun
    exact sent_of_deviceFailed hs hpc hrun

/-- The socket breaks within the first chunk. -/
def brokenPipe : List Event :=
  [.reader .local, .reader (.pipe (.ok 1)), .reader .ioctl, .reader .readStart,
   .reader (.readDone [1, 2, 3]), .reader .local, .reader (.pipe (.ok 1)), .reader .local,
   .sender .local, .sender (.pipe (.ok 1)), .sender .local, .sender (.write (.ok 2)),
   .sender (.write (.err (.other 32))), .sender .local]

theorem pipeline_regulates_brokenPipe : ∃ s,
    (pipeline 5 0).run (startState 0) brokenPipe = some s ∧
    s.sender.pc = .exited .socketFailed ∧ s.hist.reads.length = 1 ∧
    ∀ es t, (pipeline 5 0).run s es = some t → t.hist.reads.length ≤ 2 := by
  have hrun : ((pipeline 5 0).run (startState 0) brokenPipe).map
      (fun s => (s.sender.pc, s.hist.reads.length)) = some (.exited .socketFailed, 1) := by
    decide +kernel
  obtain ⟨s, hs, hpc⟩ := Option.map_eq_some_iff.mp hrun
  obtain ⟨hpc, hreads⟩ := Prod.mk.inj hpc
  have hreach : (pipeline 5 0).Reachable s := ⟨_, _, started_startState 0, hs⟩
  refine ⟨s, hs, hpc, hreads, fun es t ht => ?_⟩
  have hmore := (pipeline_regulates hreach).2.2.2.2.2.2.1 hpc es t ht
  rwa [hreads] at hmore

end ITrace.AcqDataTrans
