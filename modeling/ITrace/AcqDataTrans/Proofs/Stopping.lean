import ITrace.AcqDataTrans.Proofs.FlowControl
import ITrace.AcqDataTrans.Proofs.Ownership
import Mathlib.Data.List.Infix

/-!
# After Stop

`system_status` is looked at between two turns only, so both threads finish the turn they are in.
A thread that waits for an index when the status changes still takes one, if one comes; its
partner may have left by then, and then it waits for ever. What is left to do is counted here, in
steps of the two threads, in device reads and in bytes.
-/

namespace ITrace.AcqDataTrans

variable {socketFd : Int} {startAddr : Nat} {s s' t : State} {es : List Event}

/-- The events that leave both threads where they are: a call is made again, or the device stores
on. -/
def Event.waits : Event → Bool
  | .stop => true
  | .reader (.pipe (.err e)) => e.transient
  | .reader (.readProgress _) => true
  | .sender (.pipe (.err e)) => e.transient
  | .sender (.write (.err e)) => e.transient
  | _ => false

/-- The events in which a call fails. -/
def Event.fails : Event → Bool
  | .reader (.pipe (.err _)) => true
  | .reader (.readFailed _) => true
  | .sender (.pipe (.err _)) => true
  | .sender (.write (.err _)) => true
  | .sender (.write (.ok 0)) => true
  | _ => false

/-- The steps `read_dma_thread` has left once the status is Stop. -/
def ReadDmaPc.stepsLeft : ReadDmaPc → Nat
  | .readIndex => 8
  | .setOffset => 7
  | .readDevice => 6
  | .inRead => 5
  | .testNegative => 4
  | .writeIndex => 3
  | .testZero => 2
  | .whileCond => 1
  | .exited _ => 0

/-- The steps `send_acq_data_thread` has left at most once the status is Stop. -/
def SendAcqPc.stepsLeft : SendAcqPc → Nat
  | .readIndex => maxDmaLength + 5
  | .testLength => maxDmaLength + 4
  | .writeSocket call => call.nleft + 3
  | .testSent _ => 3
  | .writeIndex => 2
  | .whileCond => 1
  | .exited _ => 0

def stepsLeft (s : State) : Nat := s.reader.pc.stepsLeft + s.sender.pc.stepsLeft

/-- A thread waits for an index and the thread that would put one into its pipe has left. -/
def Abandoned (s : State) : Prop :=
  (s.reader.pc = .readIndex ∧ s.dmaPipe = [] ∧ s.sender.pc.left = true) ∨
  (s.sender.pc = .readIndex ∧ s.socketPipe = [] ∧ s.reader.pc.left = true)

/-! ### Steps -/

theorem readDmaThread_stepsLeft {e : ReaderEvent} (hstop : s.sysStatus = .stop)
    (he : readDmaThread s e = some s') :
    s'.sysStatus = .stop ∧ s'.sender = s.sender ∧
    s'.reader.pc.stepsLeft + (if !(Event.reader e).waits then 1 else 0) ≤ s.reader.pc.stepsLeft := by
  cases readDmaThread_move he with
  | whileCond hpc =>
    refine ⟨hstop, rfl, ?_⟩
    simp [hstop, hpc, Event.waits, ReadDmaPc.stepsLeft]
  | readIndexErr hpc errno =>
    cases htransient : errno.transient with
    | true => exact ⟨hstop, rfl, by simp [htransient, Event.waits]⟩
    | false => exact ⟨hstop, rfl, by simp [htransient, hpc, Event.waits, ReadDmaPc.stepsLeft]⟩
  | writeIndexErr hpc errno =>
    cases htransient : errno.transient with
    | true => exact ⟨hstop, rfl, by simp [htransient, Event.waits]⟩
    | false => exact ⟨hstop, rfl, by simp [htransient, hpc, Event.waits, ReadDmaPc.stepsLeft]⟩
  | readProgress hpc => exact ⟨hstop, rfl, by simp [Event.waits]⟩
  | testNegative hpc =>
    refine ⟨hstop, rfl, ?_⟩
    split <;> simp [hpc, Event.waits, ReadDmaPc.stepsLeft]
  | readIndex hpc | setOffset hpc | readStart hpc | readDone hpc | readFailed hpc | writeIndex hpc
  | testZero hpc => exact ⟨hstop, rfl, by simp [hpc, Event.waits, ReadDmaPc.stepsLeft]⟩

/-- Where the sender stands after an answer to its `write`. -/
theorem sendCall_stepsLeft {u : State} {call : Call Writen} {n put : Nat} {ptr : Nat}
    (hat : WritenAt ptr n put call) :
    (sendCall u call).sysStatus = u.sysStatus ∧ (sendCall u call).reader = u.reader ∧
    (sendCall u call).sender.pc.stepsLeft ≤ (n - put) + 3 := by
  cases call with
  | running l =>
    have hleft := hat.2.2.1
    refine ⟨rfl, rfl, ?_⟩
    simp only [sendCall, SendAcqPc.stepsLeft]
    omega
  | returned ret => exact ⟨rfl, rfl, Nat.le_add_left 3 _⟩

theorem sendAcqDataThread_stepsLeft {e : SenderEvent} (h : PipelineInv startAddr s)
    (hstop : s.sysStatus = .stop) (he : sendAcqDataThread socketFd s e = some s') :
    s'.sysStatus = .stop ∧ s'.reader = s.reader ∧
    s'.sender.pc.stepsLeft + (if !(Event.sender e).waits then 1 else 0) ≤ s.sender.pc.stepsLeft := by
  have hsender := h.sender
  cases sendAcqDataThread_move he with
  | whileCond hpc =>
    refine ⟨hstop, rfl, ?_⟩
    simp [hstop, hpc, Event.waits, SendAcqPc.stepsLeft]
  | readIndexErr hpc errno =>
    cases htransient : errno.transient with
    | true => exact ⟨hstop, rfl, by simp [htransient, Event.waits]⟩
    | false => exact ⟨hstop, rfl, by simp [htransient, hpc, Event.waits, SendAcqPc.stepsLeft]⟩
  | writeIndexErr hpc errno =>
    cases htransient : errno.transient with
    | true => exact ⟨hstop, rfl, by simp [htransient, Event.waits]⟩
    | false => exact ⟨hstop, rfl, by simp [htransient, hpc, Event.waits, SendAcqPc.stepsLeft]⟩
  | @start hpc i hi hlen =>
    simp only [SenderAt, hpc] at hsender
    obtain ⟨hs, -, hidx⟩ := hsender
    obtain ⟨chunk, hchunk, hholds⟩ := h.sender_chunk hs
    rw [hidx, bufAt_token, Option.some.injEq] at hi
    subst hi
    have hmax := h.bounded chunk (List.mem_of_getElem? hchunk)
    have hn : (s.bufs (slot s.hist.returned)).length.toNat = chunk.length := by
      rw [hholds.1, Int.toNat_natCast]
    obtain ⟨hst, hr, hle⟩ := sendCall_stepsLeft (u := s) (writen_at socketFd
      (s.bufs (slot s.hist.returned)).data (s.bufs (slot s.hist.returned)).length.toNat)
    refine ⟨hst.trans hstop, hr, ?_⟩
    rw [hpc]
    change _ + 1 ≤ maxDmaLength + 4
    omega
  | @wrote call k hpc hk =>
    simp only [SenderAt, hpc] at hsender
    obtain ⟨-, -, chunk, put, hw, -⟩ := hsender
    obtain ⟨hst, hr, hle⟩ := sendCall_stepsLeft
      (u := { s with socketOut := s.socketOut ++ s.mem.load call.ptr k }) (hw.step_ok hk)
    refine ⟨hst.trans hstop, hr, ?_⟩
    obtain ⟨-, hpos, hleft, -⟩ := hw
    rw [hpc]
    cases k with
    | zero =>
      change 3 + 1 ≤ call.nleft + 3
      omega
    | succ k =>
      change _ + 1 ≤ call.nleft + 3
      omega
  | @writeErr call hpc errno =>
    simp only [SenderAt, hpc] at hsender
    obtain ⟨-, -, chunk, put, hw, -⟩ := hsender
    obtain ⟨hn, hpos, -, -⟩ := hw
    cases htransient : errno.transient with
    | true =>
      rw [Writen.step_transient hpos htransient]
      refine ⟨hstop, rfl, ?_⟩
      simp [sendCall, hpc, Event.waits, htransient, SendAcqPc.stepsLeft]
    | false =>
      rw [Writen.step_lasting htransient]
      refine ⟨hstop, rfl, ?_⟩
      rw [hpc]
      simp only [sendCall, Event.waits, htransient, SendAcqPc.stepsLeft, Bool.not_false, if_true]
      omega
  | readIndex hpc | skip hpc | failed hpc | sent hpc | writeIndex hpc =>
    refine ⟨hstop, rfl, ?_⟩
    simp only [hpc, Event.waits, SendAcqPc.stepsLeft, Bool.not_false, if_true]
    omega

/-! ### Runs -/

/-- What holds all along a run that starts in `s` with the status Stop. -/
structure StoppedAt (startAddr : Nat) (s u : State) : Prop where
  inv : PipelineInv startAddr u
  stop : u.sysStatus = .stop
  taken : u.hist.taken + (if u.reader.pc = .readIndex then 1 else 0) ≤
    s.hist.taken + (if s.reader.pc = .readIndex then 1 else 0)
  picked : u.hist.picked + (if u.sender.pc = .readIndex then 1 else 0) ≤
    s.hist.picked + (if s.sender.pc = .readIndex then 1 else 0)
  delivered : s.hist.delivered <+: u.hist.delivered

/-- A thread takes an index where it waits for one, and after Stop it does not come back there. -/
theorem readDmaThread_taken {e : ReaderEvent} (hstop : s.sysStatus = .stop)
    (he : readDmaThread s e = some s') :
    s'.hist.taken + (if s'.reader.pc = .readIndex then 1 else 0) ≤
      s.hist.taken + (if s.reader.pc = .readIndex then 1 else 0) := by
  cases readDmaThread_move he with
  | whileCond hpc => simp [hstop]
  | readIndex hpc => simp [hpc]
  | readIndexErr hpc errno | writeIndexErr hpc errno => cases errno.transient <;> simp
  | readProgress hpc => exact Nat.le_refl _
  | testNegative hpc =>
    split <;> simp
  | setOffset hpc | readStart hpc | readDone hpc | readFailed hpc | writeIndex hpc
  | testZero hpc => simp

theorem sendAcqDataThread_picked {e : SenderEvent} (hstop : s.sysStatus = .stop)
    (he : sendAcqDataThread socketFd s e = some s') :
    s'.hist.taken = s.hist.taken ∧
    s'.hist.picked + (if s'.sender.pc = .readIndex then 1 else 0) ≤
      s.hist.picked + (if s.sender.pc = .readIndex then 1 else 0) := by
  have hcall : ∀ (u : State) (call : Call Writen), u.hist = s.hist →
      (sendCall u call).hist.taken = s.hist.taken ∧
      (sendCall u call).hist.picked +
          (if (sendCall u call).sender.pc = .readIndex then 1 else 0) ≤
        s.hist.picked + (if s.sender.pc = .readIndex then 1 else 0) := by
    intro u call hu
    cases call <;> simp [sendCall, hu]
  cases sendAcqDataThread_move he with
  | whileCond hpc => simp [hstop]
  | readIndex hpc => simp [hpc]
  | readIndexErr hpc errno | writeIndexErr hpc errno => cases errno.transient <;> simp
  | start | wrote | writeErr => exact hcall _ _ rfl
  | skip | failed | sent | writeIndex => simp

theorem StoppedAt.step {e : Event} (h : StoppedAt startAddr s t)
    (he : (pipeline socketFd startAddr).step t e = some s') : StoppedAt startAddr s s' := by
  cases e with
  | stop =>
    cases he
    exact ⟨{ h.inv with }, rfl, h.taken, h.picked, h.delivered⟩
  | reader e =>
    obtain ⟨hsender, -, hpicked, hdelivered⟩ := readDmaThread_frame he
    refine ⟨h.inv.readDmaThread_inv he, (readDmaThread_stepsLeft h.stop he).1,
      (readDmaThread_taken h.stop he).trans h.taken, ?_, h.delivered.trans hdelivered⟩
    rw [hsender, hpicked]
    exact h.picked
  | sender e =>
    obtain ⟨hreader, hdelivered⟩ := sendAcqDataThread_frame he
    obtain ⟨htaken, hpicked⟩ := sendAcqDataThread_picked h.stop he
    refine ⟨h.inv.sendAcqDataThread_inv he, (sendAcqDataThread_stepsLeft h.inv h.stop he).1, ?_,
      hpicked.trans h.picked, ?_⟩
    · rw [hreader, htaken]
      exact h.taken
    · rw [hdelivered]
      exact h.delivered

theorem StoppedAt.of_run (hs : (pipeline socketFd startAddr).Reachable s)
    (hstop : s.sysStatus = .stop) (hrun : (pipeline socketFd startAddr).run s es = some t) :
    StoppedAt startAddr s t :=
  Machine.run_invariant (I := StoppedAt startAddr s) (fun _ _ _ h he => h.step he)
    ⟨pipelineInv_of_reachable hs, hstop, Nat.le_refl _, Nat.le_refl _, List.prefix_refl _⟩ hrun

namespace PipelineInv

/-- The reader holds one index at most, and takes one where it holds none. -/
theorem taken_le (h : PipelineInv startAddr s) :
    s.hist.taken + (if s.reader.pc = .readIndex then 1 else 0) ≤ s.hist.reads.length + 1 ∧
    s.hist.taken + (if s.reader.pc = .readIndex then 1 else 0) ≤ s.hist.delivered.length + 1 := by
  have hr := h.reader
  unfold ReaderAt ReaderAhead at hr
  split at hr <;> rename_i hpc
  case h_9 =>
    obtain ⟨hr, -⟩ := hr
    split at hr <;> simp [hpc] <;> omega
  all_goals (simp [hpc]; omega)

theorem sender_stepsLeft (h : PipelineInv startAddr s) :
    s.sender.pc.stepsLeft ≤ maxDmaLength + 5 := by
  have hs := h.sender
  cases hpc : s.sender.pc with
  | writeSocket call =>
    simp only [SenderAt, hpc] at hs
    obtain ⟨-, -, chunk, put, ⟨-, -, hleft, -⟩, ⟨hchunk, -⟩⟩ := hs
    have hmax := h.bounded chunk (List.mem_of_getElem? hchunk)
    simp only [SendAcqPc.stepsLeft]
    omega
  | _ => simp [SendAcqPc.stepsLeft]

theorem picked_le (h : PipelineInv startAddr s) :
    s.hist.picked + (if s.sender.pc = .readIndex then 1 else 0) ≤ s.hist.sent + 1 := by
  have hs := h.sender
  unfold SenderAt SenderAhead at hs
  split at hs <;> rename_i hpc <;> simp [hpc] <;> omega

end PipelineInv

/-- After Stop the socket gets what is left of one chunk. -/
theorem StoppedAt.socketOut (h : StoppedAt startAddr s t) (hs : PipelineInv startAddr s)
    (ht : (pipeline socketFd startAddr).Reachable t) :
    t.socketOut <+: (t.hist.delivered.take (s.hist.sent + 1)).flatten ∧
    t.socketOut.length ≤ s.socketOut.length + maxDmaLength := by
  have hpicked : t.hist.picked ≤ s.hist.sent + 1 := by
    have h₁ := h.picked
    have h₂ := hs.picked_le
    omega
  have hpre : t.socketOut <+: (t.hist.delivered.take (s.hist.sent + 1)).flatten := by
    have htake : t.hist.delivered.take t.hist.picked <+: t.hist.delivered.take (s.hist.sent + 1) :=
      List.take_prefix_take_left hpicked
    exact (socketOut_isPrefix ht).trans htake.flatten
  refine ⟨hpre, hpre.length_le.trans ?_⟩
  -- of the chunks before the next one, all bytes had been sent
  have hsent : (t.hist.delivered.take s.hist.sent).flatten = sentBytes s := by
    rw [sentBytes, List.prefix_iff_eq_take.mp h.delivered, List.take_take,
      Nat.min_eq_left hs.sent_le]
  have hout : (sentBytes s).length ≤ s.socketOut.length := by
    obtain ⟨p, hp, -⟩ := hs.socketOut_eq
    rw [hp, List.length_append]
    exact Nat.le_add_right _ _
  rw [List.take_add_one, List.flatten_append, List.length_append, hsent]
  cases hnext : t.hist.delivered[s.hist.sent]? with
  | none => exact Nat.le_trans hout (Nat.le_add_right _ _)
  | some chunk =>
    have hmax := h.inv.bounded chunk (List.mem_of_getElem? hnext)
    simp only [Option.toList_some, List.flatten_singleton]
    omega

/-! ### What can still happen -/

/-- Something happens that is neither a wait nor a failure. -/
def GoesOn (socketFd : Int) (startAddr : Nat) (s : State) : Prop :=
  ∃ e s', (pipeline socketFd startAddr).step s e = some s' ∧ e.waits = false ∧ e.fails = false

namespace PipelineInv

/-- The reader goes on unless it has left or waits for an index. -/
theorem reader_goesOn (h : PipelineInv startAddr s) (hleft : s.reader.pc.left = false)
    (hindex : s.reader.pc = .readIndex → s.dmaPipe ≠ []) : GoesOn socketFd startAddr s := by
  have hr := h.reader
  have hgo : ∀ e : ReaderEvent, (Event.reader e).waits = false → (Event.reader e).fails = false →
      (readDmaThread s e).isSome → GoesOn socketFd startAddr s := by
    intro e hw hf hsome
    obtain ⟨s', he⟩ := Option.isSome_iff_exists.mp hsome
    exact ⟨.reader e, s', he, hw, hf⟩
  cases hpc : s.reader.pc with
  | whileCond => exact hgo .local rfl rfl (by simp [readDmaThread, hpc])
  | readIndex =>
    obtain ⟨b, pipe, hpipe⟩ := List.exists_cons_of_ne_nil (hindex hpc)
    exact hgo (.pipe (.ok 1)) rfl rfl (by simp [readDmaThread, hpc, hpipe, pipeRead])
  | setOffset => exact hgo .ioctl rfl rfl (by simp [readDmaThread, hpc])
  | readDevice =>
    simp only [ReaderAt, hpc] at hr
    exact hgo .readStart rfl rfl (by simp [readDmaThread, hpc, hr.2.1])
  | inRead =>
    simp only [ReaderAt, hpc] at hr
    exact hgo (.readDone []) rfl rfl (by simp [readDmaThread, hpc, hr.2])
  | testNegative =>
    simp only [ReaderAt, hpc] at hr
    exact hgo .local rfl rfl (by simp [readDmaThread, hpc, hr.2])
  | writeIndex => exact hgo (.pipe (.ok 1)) rfl rfl (by simp [readDmaThread, hpc, pipeWrite])
  | testZero => exact hgo .local rfl rfl (by simp [readDmaThread, hpc])
  | exited why => simp [hpc, ReadDmaPc.left] at hleft

theorem sender_goesOn (h : PipelineInv startAddr s) (hleft : s.sender.pc.left = false)
    (hindex : s.sender.pc = .readIndex → s.socketPipe ≠ []) : GoesOn socketFd startAddr s := by
  have hs := h.sender
  have hgo : ∀ e : SenderEvent, (Event.sender e).waits = false → (Event.sender e).fails = false →
      (sendAcqDataThread socketFd s e).isSome → GoesOn socketFd startAddr s := by
    intro e hw hf hsome
    obtain ⟨s', he⟩ := Option.isSome_iff_exists.mp hsome
    exact ⟨.sender e, s', he, hw, hf⟩
  cases hpc : s.sender.pc with
  | whileCond => exact hgo .local rfl rfl (by simp [sendAcqDataThread, hpc])
  | readIndex =>
    obtain ⟨b, pipe, hpipe⟩ := List.exists_cons_of_ne_nil (hindex hpc)
    exact hgo (.pipe (.ok 1)) rfl rfl (by simp [sendAcqDataThread, hpc, hpipe, pipeRead])
  | testLength =>
    simp only [SenderAt, hpc] at hs
    exact hgo .local rfl rfl (by simp [sendAcqDataThread, hpc, hs.2.2])
  | writeSocket call =>
    simp only [SenderAt, hpc] at hs
    obtain ⟨-, -, chunk, put, ⟨-, hpos, -⟩, -⟩ := hs
    have hone : 1 ≤ call.nleft := hpos
    exact hgo (.write (.ok 1)) rfl rfl (by simp [sendAcqDataThread, hpc, hone])
  | testSent ret =>
    simp only [SenderAt, hpc] at hs
    exact hgo .local rfl rfl (by simp [sendAcqDataThread, hpc, hs.2.1])
  | writeIndex => exact hgo (.pipe (.ok 1)) rfl rfl (by simp [sendAcqDataThread, hpc, pipeWrite])
  | exited why => simp [hpc, SendAcqPc.left] at hleft

end PipelineInv

/-- Threads that have left, and a thread that waits for one that has left, do nothing more. -/
theorem not_goesOn (h : (s.reader.pc.left = true ∧ s.sender.pc.left = true) ∨ Abandoned s) :
    ¬ GoesOn socketFd startAddr s := by
  have hreader : ∀ {e : ReaderEvent} {s' : State}, s.reader.pc.left = true →
      readDmaThread s e ≠ some s' := by
    intro e s' hleft he
    cases hpc : s.reader.pc <;> simp [hpc, ReadDmaPc.left] at hleft
    simp [readDmaThread, hpc] at he
  have hsender : ∀ {e : SenderEvent} {s' : State}, s.sender.pc.left = true →
      sendAcqDataThread socketFd s e ≠ some s' := by
    intro e s' hleft he
    cases hpc : s.sender.pc <;> simp [hpc, SendAcqPc.left] at hleft
    simp [sendAcqDataThread, hpc] at he
  rintro ⟨e, s', he, hwaits, hfails⟩
  rcases h with ⟨hr, hs⟩ | ⟨hpc, hempty, hs⟩ | ⟨hpc, hempty, hr⟩
  · cases e with
    | stop => cases hwaits
    | reader e => exact hreader hr he
    | sender e => exact hsender hs he
  · cases e with
    | stop => cases hwaits
    | sender e => exact hsender hs he
    | reader e =>
      cases readDmaThread_move he with
      | readIndex _ hpipe =>
        rw [hempty] at hpipe
        cases hpipe
      | readIndexErr => cases hfails
      | readProgress => cases hwaits
      | _ => simp_all
  · cases e with
    | stop => cases hwaits
    | reader e => exact hreader hr he
    | sender e =>
      cases sendAcqDataThread_move he with
      | readIndex _ hpipe =>
        rw [hempty] at hpipe
        cases hpipe
      | readIndexErr => cases hfails
      | _ => simp_all

theorem PipelineInv.goesOn_iff (h : PipelineInv startAddr s) :
    GoesOn socketFd startAddr s ↔
      ¬ ((s.reader.pc.left = true ∧ s.sender.pc.left = true) ∨ Abandoned s) := by
  refine ⟨fun hgo hend => not_goesOn hend hgo, fun hend => ?_⟩
  obtain ⟨hleft, habandoned⟩ := not_or.mp hend
  by_contra hstuck
  have hreader : s.reader.pc.left = true ∨ (s.reader.pc = .readIndex ∧ s.dmaPipe = []) := by
    by_contra hr
    obtain ⟨hr, hindex⟩ := not_or.mp hr
    exact hstuck (h.reader_goesOn (by simpa using hr) fun hpc hempty => hindex ⟨hpc, hempty⟩)
  have hsender : s.sender.pc.left = true ∨ (s.sender.pc = .readIndex ∧ s.socketPipe = []) := by
    by_contra hs
    obtain ⟨hs, hindex⟩ := not_or.mp hs
    exact hstuck (h.sender_goesOn (by simpa using hs) fun hpc hempty => hindex ⟨hpc, hempty⟩)
  rcases hreader with hr | ⟨hr, hdma⟩
  · rcases hsender with hs | ⟨hs, hsocket⟩
    · exact hleft ⟨hr, hs⟩
    · exact habandoned (.inr ⟨hs, hsocket, hr⟩)
  · rcases hsender with hs | ⟨hs, hsocket⟩
    · exact habandoned (.inl ⟨hr, hdma, hs⟩)
    · rcases h.waiting hr hs with hne | hne
      · exact hne hdma
      · exact hne hsocket

/-- The number of steps of a run after Stop that are not waits. -/
theorem steps_of_stopped (hs : PipelineInv startAddr s) (hstop : s.sysStatus = .stop)
    (hrun : (pipeline socketFd startAddr).run s es = some t) :
    es.countP (fun e => !e.waits) ≤ maxDmaLength + 13 := by
  have hbound := Machine.run_countP_le (m := pipeline socketFd startAddr)
    (I := fun u => PipelineInv startAddr u ∧ u.sysStatus = .stop) (C := fun _ _ => True)
    (p := fun e => !e.waits) (μ := stepsLeft) ?_ ?_ (Machine.eachStep_true s es) ⟨hs, hstop⟩ hrun
  · have hreader : s.reader.pc.stepsLeft ≤ 8 := by
      cases s.reader.pc <;> simp [ReadDmaPc.stepsLeft]
    have hsender := hs.sender_stepsLeft
    simp only [stepsLeft] at hbound
    omega
  · rintro u e u' ⟨hu, hstop⟩ - he
    cases e with
    | stop =>
      cases he
      exact ⟨{ hu with }, rfl⟩
    | reader e => exact ⟨hu.readDmaThread_inv he, (readDmaThread_stepsLeft hstop he).1⟩
    | sender e => exact ⟨hu.sendAcqDataThread_inv he, (sendAcqDataThread_stepsLeft hu hstop he).1⟩
  · rintro u e u' ⟨hu, hstop⟩ - he
    cases e with
    | stop =>
      cases he
      exact Nat.le_refl _
    | reader e =>
      obtain ⟨-, hsender, hle⟩ := readDmaThread_stepsLeft hstop he
      simp only [stepsLeft, hsender]
      omega
    | sender e =>
      obtain ⟨-, hreader, hle⟩ := sendAcqDataThread_stepsLeft hu hstop he
      simp only [stepsLeft, hreader]
      omega

/-- From the moment the status is Stop, however the threads are interleaved and whatever the calls
answer: at most one more device read is started and one more chunk delivered, the socket gets
nothing beyond the chunk after those already sent, and both threads together make at most
`MAX_DMA_LENGTH + 13` steps that are neither waits nor repeated calls. They go on without a failure
until both have left, or until one waits for an index that the other, having left, will not put
into its pipe. -/
theorem pipeline_stops (hs : (pipeline socketFd startAddr).Reachable s)
    (hstop : s.sysStatus = .stop) (hrun : (pipeline socketFd startAddr).run s es = some t) :
    t.hist.reads.length ≤ s.hist.reads.length + 1 ∧
    t.hist.delivered.length ≤ s.hist.delivered.length + 1 ∧
    t.socketOut <+: (t.hist.delivered.take (s.hist.sent + 1)).flatten ∧
    t.socketOut.length ≤ s.socketOut.length + maxDmaLength ∧
    es.countP (fun e => !e.waits) ≤ maxDmaLength + 13 ∧
    (GoesOn socketFd startAddr t ↔
      ¬ ((t.reader.pc.left = true ∧ t.sender.pc.left = true) ∨ Abandoned t)) := by
  have hinv := pipelineInv_of_reachable hs
  have hstopped := StoppedAt.of_run hs hstop hrun
  have hinvt := hstopped.inv
  obtain ⟨hreads, hdelivered⟩ := hinv.taken_le
  have htaken := hstopped.taken
  obtain ⟨hpre, hlen⟩ := hstopped.socketOut hinv (hs.run hrun)
  refine ⟨?_, ?_, hpre, hlen, steps_of_stopped hinv hstop hrun, hinvt.goesOn_iff⟩
  · have h := hinvt.reads_between.2
    omega
  · have h := hinvt.inOrder.delivered_taken
    omega

/-- The status becomes Stop while the reader waits for an index: the sender still finishes its
chunk, leaves, and the reader waits for ever. -/
def stopWhileWaiting : List Event :=
  [.reader .local, .reader (.pipe (.ok 1)), .reader .ioctl, .reader .readStart,
   .reader (.readDone [1, 2, 3]), .reader .local, .reader (.pipe (.ok 1)), .reader .local,
   .reader .local, .reader (.pipe (.ok 1)), .reader .ioctl, .reader .readStart,
   .reader (.readDone [4]), .reader .local, .reader (.pipe (.ok 1)), .reader .local,
   .reader .local, .stop]

theorem pipeline_stops_whileWaiting : ∃ s t,
    (pipeline 5 0).run (startState 0) stopWhileWaiting = some s ∧
    (pipeline 5 0).run s [.sender .local] = some t ∧ Abandoned t ∧
    ¬ GoesOn 5 0 t := by
  have hrun : ((pipeline 5 0).run (startState 0) stopWhileWaiting).map
      (fun s => (s.sysStatus, s.reader.pc, s.dmaPipe, s.sender.pc)) =
        some (.stop, .readIndex, [], .whileCond) := by decide +kernel
  obtain ⟨s, hs, hpc⟩ := Option.map_eq_some_iff.mp hrun
  simp only [Prod.mk.injEq] at hpc
  obtain ⟨hstop, hr, hdma, hsender⟩ := hpc
  have hreach : (pipeline 5 0).Reachable s := ⟨_, _, started_startState 0, hs⟩
  have hlast : (pipeline 5 0).run s [.sender .local] =
      some { s with sender.pc := .exited .stop } := by
    simp [Machine.run, pipeline, sendAcqDataThread, hsender, hstop]
  have habandoned : Abandoned { s with sender.pc := .exited .stop } := .inl ⟨hr, hdma, rfl⟩
  obtain ⟨-, -, -, -, -, hgo⟩ := pipeline_stops hreach hstop hlast
  exact ⟨s, _, hs, hlast, habandoned, fun h => hgo.mp h (.inr habandoned)⟩

end ITrace.AcqDataTrans
