import ITrace.AcqDataTrans.Proofs.ReaderTurns

/-!
# Steps of the sender

`send_acq_data_thread` keeps the invariant of the turns, and with it the equation between what
the socket accepted and what the device delivered.
-/

namespace ITrace.AcqDataTrans.PipelineInv

open ITrace.Ring

variable {socketFd : Int} {startAddr : Nat} {s s' : State}

/-- `readn(socket_index_r_fd, &buf_index, 1)` returned a byte: the oldest filled turn goes to the
sender. -/
theorem sender_pick (h : PipelineInv startAddr s) (hs : SenderAhead s 0 0)
    (hout : s.socketOut = sentBytes s) {pipe : List UInt8} {b : UInt8}
    (hpipe : s.socketPipe = b :: pipe) :
    PipelineInv startAddr { s with socketPipe := pipe, sender := ⟨.testLength, b⟩,
                                   hist.picked := s.hist.picked + 1 } := by
  rw [h.socketPipe] at hpipe
  obtain ⟨hlt, rfl, rfl⟩ := window_eq_cons hpipe
  obtain ⟨hp, hsent⟩ := hs
  have ho := h.inOrder
  refine { h with inOrder := { ho with returned_picked := ?_, picked_filled := hlt }
                  socketPipe := rfl, sender := ?_ }
  · exact Nat.le_succ_of_le ho.returned_picked
  · simp only [SenderAt, SenderAhead]
    exact ⟨⟨by omega, hsent⟩, hout, by rw [hp, Nat.add_zero]⟩

/-- The chunk of the turn the sender holds. -/
theorem sender_chunk (h : PipelineInv startAddr s) (hs : SenderAhead s 1 0) :
    ∃ chunk, s.hist.delivered[s.hist.returned]? = some chunk ∧ Holds s s.hist.returned chunk := by
  have hlt : s.hist.returned < s.hist.delivered.length := by
    have h₁ := h.inOrder.picked_filled
    have h₂ := h.inOrder.filled_delivered
    have h₃ := hs.1
    omega
  have hc := List.getElem?_eq_getElem hlt
  exact ⟨_, hc, h.holds _ _ (Nat.le_refl _) hc⟩

/-- Once the chunk of its turn is written, the sender has sent one chunk more. -/
theorem sender_finish (h : PipelineInv startAddr s) (hs : SenderAhead s 1 0)
    (hb : s.sender.bufIndex = token s.hist.returned) {chunk : List UInt8}
    (hp : Partly s chunk chunk) :
    PipelineInv startAddr { s with sender.pc := .writeIndex, hist.sent := s.hist.sent + 1 } := by
  obtain ⟨hc, -, ho⟩ := hp
  refine { h with inOrder := { h.inOrder with }, sender := ?_ }
  simp only [SenderAt, SenderAhead, sentBytes]
  refine ⟨⟨hs.1, by rw [hs.2]⟩, ?_, hb⟩
  rw [List.take_add_one, hs.2, Nat.add_zero, hc, List.flatten_append, ho, sentBytes, hs.2]
  simp

/-- `writen(socket_fd, data, length)` stands at `c` after the bytes `out` were accepted. -/
theorem sender_call (h : PipelineInv startAddr s) (hs : SenderAhead s 1 0)
    (hb : s.sender.bufIndex = token s.hist.returned) {chunk : List UInt8} {put : Nat}
    (hc : s.hist.delivered[s.hist.returned]? = some chunk) {out : List UInt8} {c : Call Writen}
    (hw : WritenAt (s.bufs (slot s.hist.returned)).data chunk.length put c)
    (ho : out = sentBytes s ++ chunk.take put) :
    PipelineInv startAddr (sendCall { s with socketOut := out } c) := by
  have hp : chunk.take put <+: chunk := List.take_prefix _ _
  cases c with
  | running l => exact { h with sender := ⟨hs, hb, chunk, put, hw, hc, hp, ho⟩ }
  | returned ret => exact { h with sender := ⟨hs, hb, chunk, put, hw, hc, hp, ho⟩ }

/-- The sender starts to write the chunk of its turn. -/
theorem sender_start (h : PipelineInv startAddr s) (hs : SenderAhead s 1 0)
    (hout : s.socketOut = sentBytes s) (hb : s.sender.bufIndex = token s.hist.returned) :
    PipelineInv startAddr (sendCall s (writen socketFd (s.bufs (slot s.hist.returned)).data
      (s.bufs (slot s.hist.returned)).length.toNat)) := by
  obtain ⟨chunk, hc, hlen, -⟩ := h.sender_chunk hs
  rw [hlen, Int.toNat_natCast]
  exact sender_call h hs hb hc (writen_at socketFd _ _) (by simp [hout])

/-- `write` accepted `k` bytes of the chunk of the sender's turn. -/
theorem sender_wrote (h : PipelineInv startAddr s) (hs : SenderAhead s 1 0)
    (hb : s.sender.bufIndex = token s.hist.returned) {chunk : List UInt8} {put : Nat}
    {call : Writen} (hw : Writing s chunk put (.running call)) {k : Nat} (hk : k ≤ call.nleft) :
    PipelineInv startAddr (sendCall { s with socketOut := s.socketOut ++ s.mem.load call.ptr k }
      (call.step (.ok k))) := by
  obtain ⟨hw, hc, -, ho⟩ := hw
  have hmem := (h.holds _ _ (Nat.le_refl _) hc).2
  obtain ⟨-, -, hleft, hptr⟩ := id hw
  refine sender_call h hs hb hc (hw.step_ok hk) ?_
  rw [ho, hptr, Mem.load_sub hmem (by omega), List.append_assoc, List.take_add]

/-- `write` failed while the chunk of the sender's turn was being written. -/
theorem sender_writeErr (h : PipelineInv startAddr s) (hs : SenderAhead s 1 0)
    (hb : s.sender.bufIndex = token s.hist.returned) {chunk : List UInt8} {put : Nat}
    {call : Writen} (hw : Writing s chunk put (.running call)) (e : Errno) :
    PipelineInv startAddr (sendCall s (call.step (.err e))) := by
  obtain ⟨hw, hc, -, ho⟩ := hw
  exact sender_call h hs hb hc (hw.step_err e) ho

/-- `writen(dma_index_w_fd, &buf_index, 1)` returned 1: the buffer is free for the turn after
next. -/
theorem sender_return (h : PipelineInv startAddr s) (hs : SenderAhead s 1 1)
    (hout : s.socketOut = sentBytes s) (hb : s.sender.bufIndex = token s.hist.returned) :
    PipelineInv startAddr { s with dmaPipe := s.dmaPipe ++ [s.sender.bufIndex],
                                   sender.pc := .whileCond,
                                   hist.returned := s.hist.returned + 1 } := by
  have ho := h.inOrder
  have htoken : token s.hist.returned = token (s.hist.returned + 2) := by simp [token]
  refine { h with inOrder := { ho with returned_picked := ?_, taken_returned := ?_ }
                  dmaPipe := ?_, holds := ?_, sender := ?_ }
  · exact hs.1.ge
  · exact Nat.le_succ_of_le ho.taken_returned
  · rw [h.dmaPipe, hb, htoken, window_snoc token ho.taken_returned]
  · intro k chunk hk hc
    exact h.holds k chunk (Nat.le_of_succ_le hk) hc
  · exact ⟨hs, hout⟩

theorem sendAcqDataThread_inv {e : SenderEvent} (h : PipelineInv startAddr s)
    (he : sendAcqDataThread socketFd s e = some s') : PipelineInv startAddr s' := by
  have hs := h.sender
  cases sendAcqDataThread_move he with
  -- while(*(params->sys_status) != Stop)
  | whileCond hpc =>
    refine { h with sender := ?_ }
    simp only [SenderAt, hpc] at hs
    by_cases hstop : s.sysStatus = .stop
    · simp only [SenderAt, hstop, ne_eq, not_true, if_false]
      exact hs
    · simp only [SenderAt, hstop, ne_eq, not_false_iff, if_true]
      exact hs
  -- readn(params->socket_index_r_fd, &buf_index, sizeof(buf_index))
  | readIndex hpc hpipe =>
    simp only [SenderAt, hpc] at hs
    exact sender_pick h hs.1 hs.2 hpipe
  | readIndexErr hpc e =>
    simp only [SenderAt, hpc] at hs
    cases e.transient with
    | true => exact h
    | false => exact { h with sender := hs }
  -- if(curr_dma_buf->length > 0)
  | start hpc hi hlen =>
    simp only [SenderAt, hpc] at hs
    obtain ⟨hahead, hout, hb⟩ := hs
    rw [hb, bufAt_token, Option.some.injEq] at hi
    subst hi
    exact sender_start h hahead hout hb
  | skip hpc hi hlen =>
    simp only [SenderAt, hpc] at hs
    obtain ⟨hahead, hout, hb⟩ := hs
    rw [hb, bufAt_token, Option.some.injEq] at hi
    subst hi
    obtain ⟨chunk, hc, hchunk, -⟩ := h.sender_chunk hahead
    have hnil : chunk = [] := List.length_eq_zero_iff.mp (by omega)
    subst hnil
    exact sender_finish h hahead hb ⟨hc, List.prefix_refl _, by simpa using hout⟩
  -- writen(params->socket_fd, curr_dma_buf->data, curr_dma_buf->length)
  | wrote hpc hk =>
    simp only [SenderAt, hpc] at hs
    obtain ⟨hahead, hb, chunk, put, hw⟩ := hs
    exact sender_wrote h hahead hb hw hk
  | writeErr hpc e =>
    simp only [SenderAt, hpc] at hs
    obtain ⟨hahead, hb, chunk, put, hw⟩ := hs
    exact sender_writeErr h hahead hb hw e
  -- ... != curr_dma_buf->length
  | failed hpc =>
    simp only [SenderAt, hpc] at hs
    obtain ⟨hahead, -, chunk, put, -, hp⟩ := hs
    exact { h with sender := ⟨hahead, chunk, _, hp⟩ }
  | @sent ret hpc i hi heq =>
    simp only [SenderAt, hpc] at hs
    obtain ⟨hahead, hb, chunk, put, hw, hp⟩ := hs
    rw [hb, bufAt_token, Option.some.injEq] at hi
    subst hi
    obtain ⟨c, hc, hlen, -⟩ := h.sender_chunk hahead
    obtain rfl : c = chunk := Option.some.inj (hc.symm.trans hp.1)
    have hret : ret = c.length := by rw [← hlen]; exact heq
    have hput : put = c.length := by
      rcases hw with ⟨-, hput⟩ | ⟨hle, hlt⟩
      · exact hput
      · omega
    rw [hput, List.take_length] at hp
    exact sender_finish h hahead hb hp
  -- writen(params->dma_index_w_fd, &buf_index, sizeof(buf_index))
  | writeIndex hpc =>
    simp only [SenderAt, hpc] at hs
    exact sender_return h hs.1 hs.2.1 hs.2.2
  | writeIndexErr hpc e =>
    simp only [SenderAt, hpc] at hs
    cases e.transient with
    | true => exact h
    | false => exact { h with sender := ⟨hs.1, hs.2.1⟩ }

end ITrace.AcqDataTrans.PipelineInv

namespace ITrace.AcqDataTrans

/-- The invariant holds in every state of every run of the pipeline. -/
theorem pipelineInv_of_reachable {socketFd : Int} {startAddr : Nat} {s : State}
    (hs : (pipeline socketFd startAddr).Reachable s) : PipelineInv startAddr s := by
  refine hs.invariant (fun s (h : Started startAddr s) => pipelineInv_of_started h) ?_
  intro s e s' h he
  cases e with
  | stop =>
    cases he
    exact { h with }
  | reader e => exact h.readDmaThread_inv he
  | sender e => exact h.sendAcqDataThread_inv he

end ITrace.AcqDataTrans
