import ITrace.AcqDataTrans.Proofs.Stopping

/-!
# The pipeline keeps up

Neither thread turns round for nothing. Each step is paid for: by a place in the turn of its
thread, of which there are eight in one loop and six in the other, or by a byte the socket took.
So the number of steps is bounded by what the device delivered, the socket is behind the device by
two chunks at most, and as long as no call fails there is always a next step.
-/

namespace ITrace.AcqDataTrans

variable {socketFd : Int} {startAddr : Nat} {s s' t : State} {es : List Event}

/-! ### Work -/

/-- How far `read_dma_thread` is in its turn, counted from the step that put an index into the
socket pipe. -/
def ReadDmaPc.position : ReadDmaPc → Nat
  | .testZero => 0
  | .whileCond => 1
  | .readIndex | .exited .stop => 2
  | .setOffset | .exited .readIndexFailed => 3
  | .readDevice => 4
  | .inRead => 5
  | .testNegative => 6
  | .writeIndex | .exited .deviceFailed => 7
  | .exited .writeIndexFailed => 8

/-- How far `send_acq_data_thread` is in its turn, not counting the writes. -/
def SendAcqPc.position : SendAcqPc → Nat
  | .whileCond => 0
  | .readIndex | .exited .stop => 1
  | .testLength | .exited .readIndexFailed => 2
  | .writeSocket _ => 3
  | .testSent _ => 4
  | .writeIndex | .exited .socketFailed => 5
  | .exited .writeIndexFailed => 6

/-- What both threads have done. -/
def work (s : State) : Nat :=
  8 * s.hist.filled + s.reader.pc.position +
    (6 * s.hist.returned + s.sender.pc.position + s.socketOut.length)

theorem readDmaThread_works {e : ReaderEvent} (he : readDmaThread s e = some s') :
    work s + (if !(Event.reader e).waits then 1 else 0) ≤ work s' := by
  cases readDmaThread_move he with
  | whileCond hpc =>
    simp only [work, hpc, Event.waits, Bool.not_false, if_true]
    split
    · simp only [ReadDmaPc.position]
      omega
    · simp only [ReadDmaPc.position]
      omega
  | readIndexErr hpc errno | writeIndexErr hpc errno =>
    cases htransient : errno.transient with
    | true => simp [work, htransient, Event.waits]
    | false =>
      simp only [work, htransient, hpc, Event.waits, ReadDmaPc.position, Bool.not_false, if_true,
        Bool.false_eq_true, if_false]
      omega
  | testNegative hpc =>
    simp only [work, hpc, Event.waits, Bool.not_false, if_true]
    split
    · simp only [ReadDmaPc.position]
      omega
    · simp only [ReadDmaPc.position]
      omega
  | readProgress hpc => simp [work, Event.waits]
  | readIndex hpc | setOffset hpc | readStart hpc | readDone hpc | readFailed hpc | writeIndex hpc
  | testZero hpc =>
    simp only [work, hpc, Event.waits, ReadDmaPc.position, Bool.not_false, if_true]
    omega

/-- A call of `writen` that starts or goes on is further than the test of the length. -/
theorem sendCall_works (u : State) (call : Call Writen) :
    8 * u.hist.filled + u.reader.pc.position + (6 * u.hist.returned + 3 + u.socketOut.length) ≤
      work (sendCall u call) := by
  cases call <;> simp only [work, sendCall, SendAcqPc.position] <;> omega

theorem sendAcqDataThread_works {e : SenderEvent} (h : PipelineInv startAddr s)
    (he : sendAcqDataThread socketFd s e = some s') :
    work s + (if !(Event.sender e).waits then 1 else 0) ≤ work s' := by
  cases sendAcqDataThread_move he with
  | whileCond hpc =>
    simp only [work, hpc, Event.waits, Bool.not_false, if_true]
    split
    · simp only [SendAcqPc.position]
      omega
    · simp only [SendAcqPc.position]
      omega
  | readIndexErr hpc errno | writeIndexErr hpc errno =>
    cases htransient : errno.transient with
    | true => simp [work, htransient, Event.waits]
    | false =>
      simp only [work, htransient, hpc, Event.waits, SendAcqPc.position, Bool.not_false, if_true,
        Bool.false_eq_true, if_false]
      omega
  | @start hpc i hi hlen =>
    have hcall := sendCall_works s (writen socketFd (s.bufs i).data (s.bufs i).length.toNat)
    simp only [work, hpc, Event.waits, SendAcqPc.position, Bool.not_false, if_true] at hcall ⊢
    omega
  | @wrote call k hpc hk =>
    cases k with
    | zero =>
      -- the write took nothing, and `writen` returns -1
      simp only [work, hpc, Event.waits, Writen.step, sendCall, SendAcqPc.position, Bool.not_false,
        if_true, List.length_append]
      omega
    | succ k =>
      have hcall := sendCall_works { s with socketOut := s.socketOut ++ s.mem.load call.ptr (k + 1) }
        (call.step (.ok (k + 1)))
      have hload : (s.mem.load call.ptr (k + 1)).length = k + 1 := Mem.length_load ..
      simp only [List.length_append, hload] at hcall
      simp only [work, hpc, Event.waits, SendAcqPc.position, Bool.not_false, if_true] at hcall ⊢
      omega
  | @writeErr call hpc errno =>
    cases htransient : errno.transient with
    | true =>
      have hsender := h.sender
      simp only [SenderAt, hpc] at hsender
      obtain ⟨-, -, chunk, put, ⟨-, hpos, -⟩, -⟩ := hsender
      rw [Writen.step_transient hpos htransient]
      simp [work, sendCall, hpc, Event.waits, htransient]
    | false =>
      rw [Writen.step_lasting htransient]
      simp only [work, sendCall, hpc, Event.waits, htransient, SendAcqPc.position,
        Bool.not_false, if_true]
      omega
  | readIndex hpc | skip hpc | failed hpc | sent hpc | writeIndex hpc =>
    simp only [work, hpc, Event.waits, SendAcqPc.position, Bool.not_false, if_true]
    omega

theorem pipeline_works {e : Event} (h : PipelineInv startAddr s)
    (he : (pipeline socketFd startAddr).step s e = some s') :
    work s + (if !e.waits then 1 else 0) ≤ work s' := by
  cases e with
  | stop =>
    cases he
    exact Nat.le_refl _
  | reader e => exact readDmaThread_works he
  | sender e => exact sendAcqDataThread_works h he

/-! ### What the work is worth -/

theorem position_le (s : State) : s.reader.pc.position ≤ 8 ∧ s.sender.pc.position ≤ 6 := by
  constructor
  · cases s.reader.pc with
    | exited why => cases why <;> simp [ReadDmaPc.position]
    | _ => simp [ReadDmaPc.position]
  · cases s.sender.pc with
    | exited why => cases why <;> simp [SendAcqPc.position]
    | _ => simp [SendAcqPc.position]

theorem length_flatten_le {chunks : List (List UInt8)} {n : Nat}
    (h : ∀ chunk ∈ chunks, chunk.length ≤ n) : chunks.flatten.length ≤ chunks.length * n := by
  induction chunks with
  | nil => exact Nat.zero_le _
  | cons chunk chunks ih =>
    have hhead := h chunk List.mem_cons_self
    have htail := ih fun c hc => h c (List.mem_cons_of_mem chunk hc)
    rw [List.flatten_cons, List.length_append, List.length_cons, Nat.succ_mul]
    omega

namespace PipelineInv

/-- The two chunks that were not sent yet are all that the socket is behind. -/
theorem lag (h : PipelineInv startAddr s) :
    s.hist.delivered.flatten.length ≤ s.socketOut.length + 2 * maxDmaLength := by
  have hcounts : s.hist.delivered.length ≤ s.hist.sent + 2 := by
    have h₁ := h.inOrder.delivered_taken
    have h₂ := h.inOrder.taken_returned
    have h₃ := h.returned_le_sent
    omega
  have hout : (sentBytes s).length ≤ s.socketOut.length := by
    obtain ⟨p, hp, -⟩ := h.socketOut_eq
    rw [hp, List.length_append]
    exact Nat.le_add_right _ _
  have hpending : (s.hist.delivered.drop s.hist.sent).flatten.length ≤ 2 * maxDmaLength := by
    have hle := length_flatten_le fun chunk hc => h.bounded chunk (List.drop_subset s.hist.sent _ hc)
    rw [List.length_drop] at hle
    exact Nat.le_trans hle (Nat.mul_le_mul_right _ (by omega))
  rw [← List.take_append_drop s.hist.sent s.hist.delivered, List.flatten_append, List.length_append]
  exact Nat.add_le_add hout hpending

/-- Of what the chunks delivered pay for, the work of two chunks may be left. -/
theorem le_work (h : PipelineInv startAddr s) :
    14 * s.hist.delivered.length + s.hist.delivered.flatten.length ≤
      work s + 2 * maxDmaLength + 20 := by
  have hlag := h.lag
  have hfilled : s.hist.delivered.length ≤ s.hist.filled + 1 := by
    have hr := h.reader
    unfold ReaderAt ReaderAhead at hr
    split at hr
    case h_9 =>
      obtain ⟨hr, -⟩ := hr
      split at hr <;> omega
    all_goals omega
  have h₁ := h.inOrder.delivered_taken
  have h₂ := h.inOrder.taken_returned
  simp only [work]
  omega

end PipelineInv

/-- The work done is at most what the chunks delivered pay for. -/
theorem work_le (hs : (pipeline socketFd startAddr).Reachable s) :
    work s ≤ 14 * s.hist.delivered.length + s.hist.delivered.flatten.length + 14 := by
  have h := pipelineInv_of_reachable hs
  have hout : s.socketOut.length ≤ s.hist.delivered.flatten.length :=
    ((socketOut_isPrefix hs).trans (List.take_prefix ..).flatten).length_le
  have hreturned : s.hist.returned ≤ s.hist.filled :=
    Nat.le_trans h.inOrder.returned_picked h.inOrder.picked_filled
  have hfilled := h.inOrder.filled_delivered
  obtain ⟨hreader, hsender⟩ := position_le s
  simp only [work]
  omega

/-- In a run every step but the waits is work. -/
theorem work_of_run (hs : (pipeline socketFd startAddr).Reachable s)
    (hrun : (pipeline socketFd startAddr).run s es = some t) :
    work s + es.countP (fun e => !e.waits) ≤ work t := by
  induction es generalizing s with
  | nil =>
    cases hrun
    exact Nat.le_refl _
  | cons e es ih =>
    obtain ⟨s', he, hes⟩ := Machine.run_cons_iff.mp hrun
    have hstep := pipeline_works (pipelineInv_of_reachable hs) he
    have hrest := ih (hs.step he) hes
    rw [List.countP_cons]
    omega

/-! ### Runs without failures -/

/-- The status stays as it is, and no call fails for good. -/
def Event.Harmless (e : Event) : Prop := e ≠ .stop ∧ (e.fails = true → e.waits = true)

/-- Neither thread has left, and no result that is still to be looked at is a failure. -/
structure Untroubled (s : State) : Prop where
  running : s.sysStatus ≠ .stop
  reader : s.reader.pc.left = false
  sender : s.sender.pc.left = false
  read : s.reader.pc = .testNegative → 0 ≤ (s.bufs (slot s.hist.filled)).length
  sent : ∀ ret, s.sender.pc = .testSent ret →
    ∃ chunk, s.hist.delivered[s.hist.returned]? = some chunk ∧ ret = chunk.length

theorem Untroubled.of_started (h : Started startAddr s) (hstatus : s.sysStatus ≠ .stop) :
    Untroubled s := by
  obtain ⟨-, -, -, -, hr, hs, -⟩ := h
  constructor
  · exact hstatus
  · rw [hr]
    rfl
  · rw [hs]
    rfl
  · rw [hr]
    exact fun h => by cases h
  · rw [hs]
    exact fun ret h => by cases h

theorem Untroubled.readDmaThread {e : ReaderEvent} (hu : Untroubled s)
    (h : PipelineInv startAddr s) (hgood : (Event.reader e).Harmless)
    (he : readDmaThread s e = some s') : Untroubled s' := by
  cases readDmaThread_move he with
  | whileCond hpc =>
    rw [if_pos hu.running]
    exact { hu with reader := rfl, read := fun h => by cases h }
  | readIndexErr hpc errno | writeIndexErr hpc errno =>
    have htransient : errno.transient = true := hgood.2 rfl
    rw [if_pos htransient]
    exact hu
  | @readDone hpc i hi chunk hlen =>
    have hr := h.reader
    simp only [ReaderAt, hpc] at hr
    obtain ⟨-, hidx⟩ := hr
    rw [hidx, bufAt_token, Option.some.injEq] at hi
    subst hi
    refine ⟨hu.running, rfl, hu.sender, ?_, ?_⟩
    · intro _
      simp
    · intro ret hret
      obtain ⟨sending, hsending, hlength⟩ := hu.sent ret hret
      obtain ⟨hbound, -⟩ := List.getElem?_eq_some_iff.mp hsending
      exact ⟨sending, (List.getElem?_append_left hbound).trans hsending, hlength⟩
  | readFailed hpc => cases hgood.2 rfl
  | @testNegative hpc i hi =>
    have hr := h.reader
    simp only [ReaderAt, hpc] at hr
    rw [hr.2, bufAt_token, Option.some.injEq] at hi
    subst hi
    have hread := hu.read hpc
    rw [if_neg (by omega)]
    exact { hu with reader := rfl, read := fun h => by cases h }
  | readProgress hpc => exact { hu with }
  | readIndex hpc | setOffset hpc | readStart hpc | writeIndex hpc | testZero hpc =>
    exact { hu with reader := rfl, read := fun h => by cases h }

theorem Untroubled.sendAcqDataThread {e : SenderEvent} (hfd : 0 ≤ socketFd) (hu : Untroubled s)
    (h : PipelineInv startAddr s) (hgood : (Event.sender e).Harmless)
    (he : sendAcqDataThread socketFd s e = some s') : Untroubled s' := by
  have hs := h.sender
  cases sendAcqDataThread_move he with
  | whileCond hpc =>
    rw [if_pos hu.running]
    exact { hu with sender := rfl, sent := fun ret h => by cases h }
  | readIndexErr hpc errno | writeIndexErr hpc errno =>
    have htransient : errno.transient = true := hgood.2 rfl
    rw [if_pos htransient]
    exact hu
  | @start hpc i hi hlen =>
    rw [writen_running hfd _ (by omega)]
    exact { hu with sender := rfl, sent := fun ret h => by cases h }
  | @wrote call k hpc hk =>
    simp only [SenderAt, hpc] at hs
    obtain ⟨-, -, chunk, put, ⟨hn, -⟩, hchunk, -⟩ := hs
    cases k with
    | zero => cases hgood.2 rfl
    | succ k =>
      rw [Writen.step, Writen.loop]
      split
      · exact { hu with sender := rfl, sent := fun ret h => by cases h }
      · refine ⟨hu.running, hu.reader, rfl, hu.read, ?_⟩
        intro ret hret
        cases hret
        exact ⟨chunk, hchunk, by simp only [hn]⟩
  | @writeErr call hpc errno =>
    simp only [SenderAt, hpc] at hs
    obtain ⟨-, -, chunk, put, ⟨-, hpos, -⟩, -⟩ := hs
    have htransient : errno.transient = true := hgood.2 rfl
    rw [Writen.step_transient hpos htransient]
    exact { hu with sender := rfl, sent := fun ret h => by cases h }
  | @failed ret hpc i hi hne =>
    -- what `writen` returned is the length of the chunk
    obtain ⟨chunk, hchunk, hret⟩ := hu.sent ret hpc
    simp only [SenderAt, hpc] at hs
    rw [hs.2.1, bufAt_token, Option.some.injEq] at hi
    subst hi
    have hholds := h.holds _ chunk (Nat.le_refl _) hchunk
    rw [hholds.1] at hne
    exact absurd hret hne
  | readIndex hpc | skip hpc | sent hpc | writeIndex hpc =>
    exact { hu with sender := rfl, sent := fun ret h => by cases h }

theorem Untroubled.of_run {s₀ : State} (hfd : 0 ≤ socketFd) (h₀ : Started startAddr s₀)
    (hstatus : s₀.sysStatus ≠ .stop) (hgood : ∀ e ∈ es, e.Harmless)
    (hrun : (pipeline socketFd startAddr).run s₀ es = some s) : Untroubled s := by
  have hall : ∀ (es : List Event) (u : State), (∀ e ∈ es, e.Harmless) →
      (pipeline socketFd startAddr).Reachable u → Untroubled u →
      (pipeline socketFd startAddr).run u es = some s → Untroubled s := by
    intro es
    induction es with
    | nil =>
      intro u _ _ hu hrun
      cases hrun
      exact hu
    | cons e es ih =>
      intro u hgood hreach hu hrun
      obtain ⟨u', he, hes⟩ := Machine.run_cons_iff.mp hrun
      have hinv := pipelineInv_of_reachable hreach
      have hhead := hgood e List.mem_cons_self
      refine ih u' (fun e' he' => hgood e' (List.mem_cons_of_mem e he')) (hreach.step he) ?_ hes
      cases e with
      | stop => exact absurd rfl hhead.1
      | reader e => exact hu.readDmaThread hinv hhead he
      | sender e => exact hu.sendAcqDataThread hfd hinv hhead he
  exact hall es s₀ hgood (.of_init h₀) (.of_started h₀ hstatus) hrun

/-- For every interleaving and whatever the calls answer: in a piece `fs` of a run the steps that
are neither waits nor repeated calls are paid for by the chunks the device delivers in it, up to
fourteen for a chunk and one for each of its bytes, beside what two chunks were still worth at its
beginning. So the threads do not turn round for nothing, and without a delivery both come to a rest.
The socket is behind the device by two chunks at most. As long as no call has failed for good and
the status is not Stop, a step is possible that is neither a wait nor a failure. -/
theorem pipeline_keepsUp {s₀ : State} {fs : List Event} (hfd : 0 ≤ socketFd)
    (h₀ : Started startAddr s₀) (hstatus : s₀.sysStatus ≠ .stop)
    (hs : (pipeline socketFd startAddr).run s₀ es = some s)
    (ht : (pipeline socketFd startAddr).run s fs = some t) :
    fs.countP (fun e => !e.waits) + 14 * s.hist.delivered.length +
        s.hist.delivered.flatten.length ≤
      14 * t.hist.delivered.length + t.hist.delivered.flatten.length + 2 * maxDmaLength + 34 ∧
    s.hist.delivered.flatten.length ≤ s.socketOut.length + 2 * maxDmaLength ∧
    ((∀ e ∈ es, e.Harmless) → GoesOn socketFd startAddr s) := by
  have hreach : (pipeline socketFd startAddr).Reachable s := ⟨s₀, es, h₀, hs⟩
  have h := pipelineInv_of_reachable hreach
  refine ⟨?_, h.lag, fun hgood => ?_⟩
  · have hrun := work_of_run hreach ht
    have hafter := work_le (hreach.run ht)
    have hbefore := h.le_work
    omega
  · have hu := Untroubled.of_run hfd h₀ hstatus hgood hs
    rw [h.goesOn_iff]
    rintro (⟨hleft, -⟩ | ⟨-, -, hleft⟩ | ⟨-, -, hleft⟩)
    · exact absurd hleft (by simp [hu.reader])
    · exact absurd hleft (by simp [hu.sender])
    · exact absurd hleft (by simp [hu.reader])

theorem pipeline_keepsUp_threeBytes : ∃ s t,
    (pipeline 5 0).run (startState 0) threeBytes = some s ∧
    (pipeline 5 0).run s [.reader (.readDone [4, 5]), .reader .local] = some t ∧
    2 + 14 * 1 + 3 ≤ 14 * t.hist.delivered.length + t.hist.delivered.flatten.length +
      2 * maxDmaLength + 34 ∧ GoesOn 5 0 s := by
  have hrun : ((pipeline 5 0).run (startState 0) threeBytes).map
      (fun s => (s.reader, s.hist.delivered)) = some (⟨.inRead, 1⟩, [[1, 2, 3]]) := by
    decide +kernel
  obtain ⟨s, hs, hat⟩ := Option.map_eq_some_iff.mp hrun
  obtain ⟨hreader, hdelivered⟩ := Prod.mk.inj hat
  have hlast : ∃ t, (pipeline 5 0).run s [.reader (.readDone [4, 5]), .reader .local] = some t := by
    simp [Machine.run, pipeline, readDmaThread, hreader, bufAt, maxDmaLength]
  obtain ⟨t, ht⟩ := hlast
  obtain ⟨hsteps, -, hgo⟩ := pipeline_keepsUp (by decide) (started_startState 0) (by decide) hs ht
  rw [hdelivered] at hsteps
  refine ⟨s, t, hs, ht, hsteps, hgo ?_⟩
  simp [threeBytes, Event.Harmless, Event.fails, Event.waits, Errno.transient]

end ITrace.AcqDataTrans
