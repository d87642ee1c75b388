import ITrace.AcqDataTrans.Proofs.Turns

/-!
# Steps of the reader

`read_dma_thread` keeps the invariant of the turns. The steps that move an index move one bound
of a window; the step that matters is the end of a device read, which must not touch a chunk the
sender has still to send.
-/

namespace ITrace.AcqDataTrans.PipelineInv

open ITrace.Ring

variable {startAddr : Nat} {s s' : State}

/-- What the sender relies on is untouched when a chunk is delivered and its buffer refilled. -/
theorem senderAt_deliver (h : PipelineInv startAddr s) (chunks : List (List UInt8))
    (hsender : s'.sender = s.sender) (hout : s'.socketOut = s.socketOut)
    (hhist : s'.hist = { s.hist with delivered := s.hist.delivered ++ chunks })
    (hdata : ∀ i, (s'.bufs i).data = (s.bufs i).data) : SenderAt s' := by
  have hbytes : sentBytes s' = sentBytes s := by
    simp only [sentBytes, hhist]
    rw [List.take_append_of_le_length h.sent_le]
  have hpartly : ∀ chunk p, Partly s chunk p → Partly s' chunk p := by
    rintro chunk p ⟨hc, hp, ho⟩
    refine ⟨?_, hp, by rw [hout, hbytes, ho]⟩
    simp only [hhist]
    rw [List.getElem?_append_left (List.getElem?_eq_some_iff.mp hc).1, hc]
  have hahead : ∀ a b, SenderAhead s a b → SenderAhead s' a b := by
    intro a b hab
    simpa only [SenderAhead, hhist] using hab
  have hret : s'.hist.returned = s.hist.returned := by rw [hhist]
  have hwriting : ∀ chunk put call, Writing s chunk put call → Writing s' chunk put call := by
    rintro chunk put call ⟨hw, hp⟩
    refine ⟨?_, hpartly _ _ hp⟩
    rw [hret, hdata]
    exact hw
  have hs := h.sender
  unfold SenderAt at hs ⊢
  rw [hsender, hbytes, hout, hret]
  split at hs
  all_goals first
    | exact ⟨hahead _ _ hs.1, hs.2⟩
    | skip
  · obtain ⟨ha, hb, chunk, put, hw⟩ := hs
    exact ⟨hahead _ _ ha, hb, chunk, put, hwriting _ _ _ hw⟩
  · obtain ⟨ha, hb, chunk, put, hw⟩ := hs
    exact ⟨hahead _ _ ha, hb, chunk, put, hwriting _ _ _ hw⟩
  · obtain ⟨ha, chunk, p, hp⟩ := hs
    exact ⟨hahead _ _ ha, chunk, p, hpartly _ _ hp⟩

/-- `readn(dma_index_r_fd, &buf_index, 1)` returned a byte: the next turn goes to the reader. -/
theorem reader_take (h : PipelineInv startAddr s) (hr : ReaderAhead s 0 0 0)
    {pipe : List UInt8} {b : UInt8} (hpipe : s.dmaPipe = b :: pipe) :
    PipelineInv startAddr { s with dmaPipe := pipe, reader := ⟨.setOffset, b⟩,
                                   hist.taken := s.hist.taken + 1 } := by
  rw [h.dmaPipe] at hpipe
  obtain ⟨hlt, rfl, rfl⟩ := window_eq_cons hpipe
  obtain ⟨ht, hd, hrd⟩ := hr
  have ho := h.inOrder
  refine { h with inOrder := { ho with delivered_taken := ?_, taken_returned := ?_ }
                  dmaPipe := rfl, reader := ?_ }
  · exact Nat.le_succ_of_le ho.delivered_taken
  · exact hlt
  · simp only [ReaderAt, ReaderAhead]
    exact ⟨⟨by omega, hd, hrd⟩, by rw [ht, Nat.add_zero]⟩

/-- The device starts to fill the buffer of the reader's turn. -/
theorem reader_start (h : PipelineInv startAddr s) (hr : ReaderAhead s 1 0 0)
    (hb : s.reader.bufIndex = token s.hist.filled) (ha : s.addrOffset = some (token s.hist.filled)) :
    PipelineInv startAddr
      { s with reader.pc := .inRead,
               hist.reads := s.hist.reads ++
                 [⟨s.addrOffset, (s.bufs (slot s.hist.filled)).data⟩] } := by
  obtain ⟨ht, hd, hrd⟩ := hr
  refine { h with inOrder := { h.inOrder with }, reads := ?_
                  reader := ⟨⟨ht, hd, by simp [hrd]⟩, hb⟩ }
  intro k r hk
  rw [List.getElem?_append] at hk
  split at hk
  · exact h.reads k r hk
  · rename_i hge
    obtain ⟨hz, hk⟩ := List.getElem?_eq_some_iff.mp hk
    have hkf : k = s.hist.filled := by simp at hz; omega
    rw [List.getElem_singleton] at hk
    rw [← hk, hkf, ha, h.data]

/-- The device stores into the buffer of the reader's turn without saying so yet. -/
theorem reader_progress (h : PipelineInv startAddr s) (hr : ReaderAhead s 1 0 1)
    {bytes : List UInt8} (hlen : bytes.length ≤ maxDmaLength) :
    PipelineInv startAddr
      { s with mem := s.mem.store (s.bufs (slot s.hist.filled)).data bytes } := by
  refine { h with holds := ?_ }
  intro k chunk hk hc
  obtain ⟨hlt, hget⟩ := List.getElem?_eq_some_iff.mp hc
  have hne := h.slot_ne_filled hr.2.1 hr.1 hk hlt
  have hchunk := h.bounded chunk (hget ▸ List.getElem_mem hlt)
  exact ⟨(h.holds k chunk hk hc).1, h.holds_store hne hchunk hlen (h.holds k chunk hk hc)⟩

/-- The device delivered a chunk into the buffer of the reader's turn. -/
theorem reader_deliver (h : PipelineInv startAddr s) (hr : ReaderAhead s 1 0 1)
    (hb : s.reader.bufIndex = token s.hist.filled) {chunk : List UInt8}
    (hlen : chunk.length ≤ maxDmaLength) :
    PipelineInv startAddr
      { s with mem := s.mem.store (s.bufs (slot s.hist.filled)).data chunk,
               bufs := Function.update s.bufs (slot s.hist.filled)
                 { s.bufs (slot s.hist.filled) with length := chunk.length },
               hist.delivered := s.hist.delivered ++ [chunk],
               reader.pc := .testNegative } := by
  obtain ⟨ht, hd, hrd⟩ := hr
  have hdata : ∀ i, (Function.update s.bufs (slot s.hist.filled)
      { s.bufs (slot s.hist.filled) with length := (chunk.length : Int) } i).data =
        (s.bufs i).data := by
    intro i
    by_cases hi : i = slot s.hist.filled <;> simp [Function.update, hi]
  have ho := h.inOrder
  refine { h with inOrder := { ho with filled_delivered := ?_, delivered_taken := ?_ }
                  data := fun i => (hdata i).trans (h.data i)
                  bounded := ?_, holds := ?_, reader := ?_
                  sender := senderAt_deliver h [chunk] rfl rfl rfl hdata }
  · simp only [List.length_append, List.length_singleton]
    omega
  · simp only [List.length_append, List.length_singleton]
    omega
  · intro c hc
    rcases List.mem_append.mp hc with hc | hc
    · exact h.bounded c hc
    · rw [List.mem_singleton.mp hc]
      exact hlen
  · intro k c hk hc
    rw [List.getElem?_append] at hc
    split at hc
    · -- an older turn: its buffer is the other one
      rename_i hlt
      have hne := h.slot_ne_filled hd ht hk hlt
      have hold := h.holds k c hk hc
      have hclen := h.bounded c (List.mem_of_getElem? hc)
      simp only [Holds, Function.update_of_ne hne]
      exact ⟨hold.1, h.holds_store hne hclen hlen hold⟩
    · rename_i hge
      obtain ⟨hz, hc⟩ := List.getElem?_eq_some_iff.mp hc
      have hkf : k = s.hist.filled := by simp at hz; omega
      rw [List.getElem_singleton] at hc
      subst hc hkf
      simp only [Holds, Function.update_self]
      exact ⟨trivial, Mem.load_store_same _ _ _⟩
  · simp only [ReaderAt, ReaderAhead, Function.update_self, List.length_append,
      List.length_singleton]
    rw [if_neg (by omega)]
    exact ⟨⟨ht, by omega, hrd⟩, hb⟩

/-- The device read failed: the buffer of the reader's turn has no length any more. -/
theorem reader_deviceFailed (h : PipelineInv startAddr s) (hr : ReaderAhead s 1 0 1)
    (hb : s.reader.bufIndex = token s.hist.filled) :
    PipelineInv startAddr
      { s with bufs := Function.update s.bufs (slot s.hist.filled)
                 { s.bufs (slot s.hist.filled) with length := -1 },
               reader.pc := .testNegative } := by
  have hdata : ∀ i, (Function.update s.bufs (slot s.hist.filled)
      { s.bufs (slot s.hist.filled) with length := -1 } i).data = (s.bufs i).data := by
    intro i
    by_cases hi : i = slot s.hist.filled <;> simp [Function.update, hi]
  refine { h with data := fun i => (hdata i).trans (h.data i), holds := ?_, reader := ?_
                  sender := senderAt_deliver h [] rfl rfl (by simp) hdata }
  · intro k c hk hc
    have hne := h.slot_ne_filled hr.2.1 hr.1 hk (List.getElem?_eq_some_iff.mp hc).1
    simpa only [Holds, Function.update_of_ne hne] using h.holds k c hk hc
  · simp only [ReaderAt, Function.update_self]
    rw [if_pos (by decide)]
    exact ⟨hr, hb⟩

/-- `writen(socket_index_w_fd, &buf_index, 1)` returned 1: the turn of the reader is in the socket
pipe. -/
theorem reader_put (h : PipelineInv startAddr s) (hr : ReaderAhead s 1 1 1)
    (hb : s.reader.bufIndex = token s.hist.filled) :
    PipelineInv startAddr { s with socketPipe := s.socketPipe ++ [s.reader.bufIndex],
                                   reader.pc := .testZero, hist.filled := s.hist.filled + 1 } := by
  obtain ⟨ht, hd, hrd⟩ := hr
  have ho := h.inOrder
  refine { h with inOrder := { ho with picked_filled := ?_, filled_delivered := ?_ }
                  socketPipe := ?_, reader := ⟨ht, hd, hrd⟩ }
  · exact Nat.le_succ_of_le ho.picked_filled
  · exact hd.ge
  · rw [h.socketPipe, hb, window_snoc token ho.picked_filled]

theorem readDmaThread_inv {e : ReaderEvent} (h : PipelineInv startAddr s)
    (he : readDmaThread s e = some s') : PipelineInv startAddr s' := by
  have hr := h.reader
  cases readDmaThread_move he with
  -- while(*(params->sys_status) != Stop)
  | whileCond hpc =>
    refine { h with reader := ?_ }
    simp only [ReaderAt, hpc] at hr
    by_cases hstop : s.sysStatus = .stop
    · simp only [ReaderAt, hstop, ne_eq, not_true, if_false]
      exact hr
    · simp only [ReaderAt, hstop, ne_eq, not_false_iff, if_true]
      exact hr
  -- readn(params->dma_index_r_fd, &buf_index, sizeof(buf_index))
  | readIndex hpc hpipe =>
    simp only [ReaderAt, hpc] at hr
    exact reader_take h hr hpipe
  | readIndexErr hpc e =>
    simp only [ReaderAt, hpc] at hr
    cases e.transient with
    | true => exact h
    | false => exact { h with reader := hr }
  -- ioctl(params->dma_fd, CONFIG_ADDROFFSET, buf_index)
  | setOffset hpc =>
    simp only [ReaderAt, hpc] at hr
    refine { h with reader := ?_ }
    exact ⟨hr.1, hr.2, congrArg some hr.2⟩
  -- read(params->dma_fd, curr_buf->data, MAX_DMA_LENGTH)
  | readStart hpc hi =>
    simp only [ReaderAt, hpc] at hr
    rw [hr.2.1, bufAt_token, Option.some.injEq] at hi
    subst hi
    exact reader_start h hr.1 hr.2.1 hr.2.2
  | readProgress hpc hi hlen =>
    simp only [ReaderAt, hpc] at hr
    rw [hr.2, bufAt_token, Option.some.injEq] at hi
    subst hi
    exact reader_progress h hr.1 hlen
  | readDone hpc hi hlen =>
    simp only [ReaderAt, hpc] at hr
    rw [hr.2, bufAt_token, Option.some.injEq] at hi
    subst hi
    exact reader_deliver h hr.1 hr.2 hlen
  | readFailed hpc hi =>
    simp only [ReaderAt, hpc] at hr
    rw [hr.2, bufAt_token, Option.some.injEq] at hi
    subst hi
    exact reader_deviceFailed h hr.1 hr.2
  -- if(curr_buf->length < 0)
  | testNegative hpc hi =>
    simp only [ReaderAt, hpc] at hr
    rw [hr.2, bufAt_token, Option.some.injEq] at hi
    subst hi
    refine { h with reader := ?_ }
    simp only [ReaderAt]
    split at hr
    · rw [if_pos (by assumption)]
      exact hr.1
    · rw [if_neg (by assumption)]
      exact hr
  -- writen(params->socket_index_w_fd, &buf_index, sizeof(buf_index))
  | writeIndex hpc =>
    simp only [ReaderAt, hpc] at hr
    exact reader_put h hr.1 hr.2
  | writeIndexErr hpc e =>
    simp only [ReaderAt, hpc] at hr
    cases e.transient with
    | true => exact h
    | false => exact { h with reader := hr.1 }
  | testZero hpc =>
    simp only [ReaderAt, hpc] at hr
    exact { h with reader := hr }

end ITrace.AcqDataTrans.PipelineInv
