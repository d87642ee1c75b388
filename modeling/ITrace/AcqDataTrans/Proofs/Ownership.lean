import ITrace.AcqDataTrans.Proofs.SenderTurns
import Mathlib.Data.List.Count

/-!
# Who holds a buffer

The two indices are conserved: the pipes and the hands of the two threads together hold an
interval of turns no longer than a revolution, so no index is in two places. That the reader
never fills the buffer the sender sends, and that the sender stays within its half of the
mapping, follow.
-/

namespace ITrace.AcqDataTrans

open ITrace.Ring

variable {socketFd : Int} {startAddr : Nat} {s : State}

/-- The reader has taken an index and not yet put it into the socket pipe. -/
def ReadDmaPc.holding : ReadDmaPc → Bool
  | .setOffset | .readDevice | .inRead | .testNegative | .writeIndex => true
  | _ => false

/-- The sender has taken an index and not yet put it back into the DMA pipe. -/
def SendAcqPc.holding : SendAcqPc → Bool
  | .testLength | .writeSocket _ | .testSent _ | .writeIndex => true
  | _ => false

/-- `read_dma_thread` has left its loop. -/
def ReadDmaPc.left : ReadDmaPc → Bool
  | .exited _ => true
  | _ => false

/-- `send_acq_data_thread` has left its loop. -/
def SendAcqPc.left : SendAcqPc → Bool
  | .exited _ => true
  | _ => false

/-- The index the reader holds. A thread that left its loop holds none: the index it had is
lost. -/
def readerHeld (s : State) : List UInt8 := if s.reader.pc.holding then [s.reader.bufIndex] else []

/-- The index the sender holds. -/
def senderHeld (s : State) : List UInt8 := if s.sender.pc.holding then [s.sender.bufIndex] else []

/-- All the places an index can be, around the circle. -/
def places (s : State) : List UInt8 :=
  senderHeld s ++ s.socketPipe ++ readerHeld s ++ s.dmaPipe

/-- The device read of the reader is under way and goes to buffer `i`. -/
def Filling (s : State) (i : Fin 2) : Prop :=
  s.reader.pc = .inRead ∧ bufAt s.reader.bufIndex = some i

/-- The sender is inside `writen(socket_fd, data, length)` on buffer `i`. -/
def Sending (s : State) (i : Fin 2) (call : Writen) : Prop :=
  s.sender.pc = .writeSocket call ∧ bufAt s.sender.bufIndex = some i

/-- The addresses of buffer `i`, its `MAX_DMA_LENGTH` bytes of the mapping at `startAddr`. -/
def InSlice (startAddr : Nat) (i : Fin 2) (a : Nat) : Prop :=
  i * maxDmaLength + startAddr ≤ a ∧ a < i * maxDmaLength + startAddr + maxDmaLength

/-! ### The hands as windows -/

theorem window_single (k : Nat) : window token k (k + 1) = [token k] := by
  rw [window_cons token (Nat.lt_succ_self k), window_self]

/-- The reader's hand is its window, or empty because the thread left its loop. -/
theorem readerHeld_cases (h : ReaderAt s) :
    readerHeld s = window token s.hist.filled s.hist.taken ∨
    (readerHeld s = [] ∧ s.reader.pc.left = true) := by
  have hnone : s.reader.pc.holding = false → ReaderAhead s 0 0 0 →
      readerHeld s = window token s.hist.filled s.hist.taken := by
    intro hpc ⟨ht, _⟩
    rw [ht, Nat.add_zero, window_self]
    simp [readerHeld, hpc]
  have hone : ∀ d r, s.reader.pc.holding = true → ReaderAhead s 1 d r →
      s.reader.bufIndex = token s.hist.filled →
      readerHeld s = window token s.hist.filled s.hist.taken := by
    intro d r hpc ⟨ht, _⟩ hb
    rw [ht, window_single, ← hb]
    simp [readerHeld, hpc]
  unfold ReaderAt at h
  split at h <;> rename_i hpc
  case h_1 | h_2 | h_3 => exact .inl (hnone (by rw [hpc]; rfl) h)
  case h_6 => exact .inl (hone _ _ (by rw [hpc]; rfl) h.1 h.2)
  case h_7 => exact .inl (hone _ _ (by rw [hpc]; rfl) h.1 h.2.1)
  case h_8 => exact .inl (hone _ _ (by rw [hpc]; rfl) h.1 h.2)
  case h_9 =>
    obtain ⟨h, hb⟩ := h
    split at h
    · exact .inl (hone _ _ (by rw [hpc]; rfl) h hb)
    · exact .inl (hone _ _ (by rw [hpc]; rfl) h hb)
  case h_10 => exact .inl (hone _ _ (by rw [hpc]; rfl) h.1 h.2)
  all_goals exact .inr ⟨by simp [readerHeld, hpc, ReadDmaPc.holding], by rw [hpc]; rfl⟩

/-- The sender's hand is its window, or empty because the thread left its loop. -/
theorem senderHeld_cases (h : SenderAt s) :
    senderHeld s = window token s.hist.returned s.hist.picked ∨
    (senderHeld s = [] ∧ s.sender.pc.left = true) := by
  have hnone : s.sender.pc.holding = false → SenderAhead s 0 0 →
      senderHeld s = window token s.hist.returned s.hist.picked := by
    intro hpc ⟨hp, _⟩
    rw [hp, Nat.add_zero, window_self]
    simp [senderHeld, hpc]
  have hone : ∀ d, s.sender.pc.holding = true → SenderAhead s 1 d →
      s.sender.bufIndex = token s.hist.returned →
      senderHeld s = window token s.hist.returned s.hist.picked := by
    intro d hpc ⟨hp, _⟩ hb
    rw [hp, window_single, ← hb]
    simp [senderHeld, hpc]
  unfold SenderAt at h
  split at h <;> rename_i hpc
  case h_1 | h_2 => exact .inl (hnone (by rw [hpc]; rfl) h.1)
  case h_5 | h_8 => exact .inl (hone _ (by rw [hpc]; rfl) h.1 h.2.2)
  case h_6 | h_7 => exact .inl (hone _ (by rw [hpc]; rfl) h.1 h.2.1)
  all_goals exact .inr ⟨by simp [senderHeld, hpc, SendAcqPc.holding], by rw [hpc]; rfl⟩

theorem window_circle {h : History} (ho : InOrder h) :
    window token h.returned h.picked ++ window token h.picked h.filled ++
      window token h.filled h.taken ++ window token h.taken (h.returned + 2) =
    window token h.returned (h.returned + 2) := by
  have h₁ := ho.returned_picked
  have h₂ := ho.picked_filled
  have h₃ := Nat.le_trans ho.filled_delivered ho.delivered_taken
  have h₄ := ho.taken_returned
  rw [window_append token h₁ h₂, window_append token (by omega) h₃,
    window_append token (by omega) h₄]

/-- The places hold no more than a revolution of turns. -/
theorem PipelineInv.places_sublist (h : PipelineInv startAddr s) :
    (places s).Sublist (window token s.hist.returned (s.hist.returned + 2)) := by
  rw [← window_circle h.inOrder, places, h.dmaPipe, h.socketPipe]
  have hr : (readerHeld s).Sublist (window token s.hist.filled s.hist.taken) := by
    rcases readerHeld_cases h.reader with hr | ⟨hr, -⟩
    · rw [hr]
    · rw [hr]
      exact List.nil_sublist _
  have hs : (senderHeld s).Sublist (window token s.hist.returned s.hist.picked) := by
    rcases senderHeld_cases h.sender with hs | ⟨hs, -⟩
    · rw [hs]
    · rw [hs]
      exact List.nil_sublist _
  exact ((hs.append (.refl _)).append hr).append (.refl _)

/-- As long as both threads are in their loops the places hold a whole revolution. -/
theorem PipelineInv.places_eq (h : PipelineInv startAddr s) (hr : s.reader.pc.left = false)
    (hs : s.sender.pc.left = false) :
    places s = window token s.hist.returned (s.hist.returned + 2) := by
  rw [← window_circle h.inOrder, places, h.dmaPipe, h.socketPipe]
  have hreader := (readerHeld_cases h.reader).resolve_right (by simp [hr])
  have hsender := (senderHeld_cases h.sender).resolve_right (by simp [hs])
  rw [hreader, hsender]

/-! ### Ownership -/

theorem token_congr (j k : Nat) (h : j % 2 = k % 2) : token j = token k := by
  simp [token, h]

theorem token_ne (j k : Nat) (h : j % 2 ≠ k % 2) : token j ≠ token k := by
  rcases Nat.mod_two_eq_zero_or_one j with hj | hj <;>
    rcases Nat.mod_two_eq_zero_or_one k with hk | hk <;> simp_all [token]

theorem PipelineInv.places_nodup (h : PipelineInv startAddr s) : (places s).Nodup :=
  h.places_sublist.nodup (nodup_window (Nat.le_refl _) token_ne)

theorem PipelineInv.mem_places (h : PipelineInv startAddr s) {b : UInt8} (hb : b ∈ places s) :
    b.toNat < 2 := by
  obtain ⟨k, -, -, rfl⟩ := mem_window.mp (h.places_sublist.subset hb)
  rcases Nat.mod_two_eq_zero_or_one k with hk | hk <;> simp [token, hk]

theorem bufAt_inj {b c : UInt8} {i : Fin 2} (hb : bufAt b = some i) (hc : bufAt c = some i) :
    b = c := by
  simp only [bufAt, Option.dite_none_right_eq_some, Option.some.injEq] at hb hc
  obtain ⟨hlt, hb⟩ := hb
  obtain ⟨hlt', hc⟩ := hc
  have h : b.toNat = c.toNat := by simpa using hb.trans hc.symm
  exact UInt8.toNat_inj.mp h

/-- Both threads never hold the same index. -/
theorem PipelineInv.held_ne (h : PipelineInv startAddr s) (hr : s.reader.pc.holding = true)
    (hs : s.sender.pc.holding = true) : s.reader.bufIndex ≠ s.sender.bufIndex := by
  intro heq
  have hnodup := h.places_nodup
  simp [places, readerHeld, senderHeld, hr, hs, heq] at hnodup

/-- What is being sent lies in the sender's half of the mapping. -/
theorem PipelineInv.sending_range (h : PipelineInv startAddr s) {i : Fin 2} {call : Writen}
    (hi : Sending s i call) :
    (s.bufs i).data = i * maxDmaLength + startAddr ∧
    call.n = (s.bufs i).length.toNat ∧ call.n ≤ maxDmaLength ∧
    (s.bufs i).data ≤ call.ptr ∧ call.ptr + call.nleft = (s.bufs i).data + call.n := by
  obtain ⟨hpc, hb⟩ := hi
  have hs := h.sender
  simp only [SenderAt, hpc] at hs
  obtain ⟨-, hidx, chunk, put, hw, hp⟩ := hs
  rw [hidx, bufAt_token, Option.some.injEq] at hb
  subst hb
  have hheld := (h.holds _ _ (Nat.le_refl _) hp.1).1
  have hlen := h.bounded chunk (List.mem_of_getElem? hp.1)
  obtain ⟨hn, -, hleft, hptr⟩ := hw
  exact ⟨h.data _, by rw [hheld, hn, Int.toNat_natCast], by omega, by omega, by omega⟩

theorem not_inSlice {i j : Fin 2} (hij : j ≠ i) {a : Nat} (ha : InSlice startAddr i a) :
    ¬ InSlice startAddr j a := by
  intro hj
  have hval : (i : Nat) ≠ j := fun h => hij (Fin.ext h.symm)
  have hle := Nat.le_refl maxDmaLength
  rcases halves_disjoint hval hle hle with h | h
  · exact absurd (Nat.lt_of_lt_of_le ha.2 h) (Nat.not_lt_of_le hj.1)
  · exact absurd (Nat.lt_of_lt_of_le hj.2 h) (Nat.not_lt_of_le ha.1)

/-- In every run each index is in at most one place, in exactly one while both threads are in
their loops, and is the index of a buffer; so the two threads never work on the same buffer, and
what is sent lies in the half that is its own. -/
theorem pipeline_ownership (hs : (pipeline socketFd startAddr).Reachable s) :
    (∀ i : Fin 2, (places s).count (UInt8.ofNat i) ≤ 1) ∧
    (s.reader.pc.left = false → s.sender.pc.left = false →
      ∀ i : Fin 2, (places s).count (UInt8.ofNat i) = 1) ∧
    (∀ b ∈ places s, b = 0x00 ∨ b = 0x01) ∧
    (∀ i j call, Filling s i → Sending s j call → i ≠ j) ∧
    (∀ i call, Sending s i call →
      call.n = (s.bufs i).length.toNat ∧ (s.bufs i).data ≤ call.ptr ∧
      call.ptr + call.nleft = (s.bufs i).data + call.n ∧
      ∀ a, (s.bufs i).data ≤ a → a < (s.bufs i).data + call.n →
        InSlice startAddr i a ∧ ∀ j, j ≠ i → ¬ InSlice startAddr j a) := by
  have h := pipelineInv_of_reachable hs
  have hcount : ∀ b, (places s).count b ≤ 1 := List.nodup_iff_count_le_one.mp h.places_nodup
  refine ⟨fun i => hcount _, ?_, ?_, ?_, ?_⟩
  · intro hr hl i
    have hmem : token i ∈ places s := by
      rw [h.places_eq hr hl]
      exact mem_window_revolution (by decide) _ _ token token_congr
    have htoken : token i = UInt8.ofNat i := by rw [token, Nat.mod_eq_of_lt i.isLt]
    rw [htoken] at hmem
    exact Nat.le_antisymm (hcount _) (List.one_le_count_iff.mpr hmem)
  · intro b hb
    have hlt := h.mem_places hb
    have hcases : b.toNat = 0 ∨ b.toNat = 1 := by omega
    rcases hcases with hb | hb
    · exact .inl (UInt8.toNat_inj.mp hb)
    · exact .inr (UInt8.toNat_inj.mp hb)
  · rintro i j call ⟨hr, hi⟩ ⟨hw, hj⟩ rfl
    have hne := h.held_ne (by rw [hr]; rfl) (by rw [hw]; rfl)
    exact hne (bufAt_inj hi hj)
  · intro i call hi
    obtain ⟨hdata, hn, hle, hptr, hend⟩ := h.sending_range hi
    refine ⟨hn, hptr, hend, fun a ha hlt => ?_⟩
    have hin : InSlice startAddr i a := by
      rw [hdata] at ha hlt
      exact ⟨ha, by omega⟩
    exact ⟨hin, fun j hij => not_inSlice hij hin⟩

theorem pipeline_ownership_threeBytes : ∃ s,
    (pipeline 5 0).run (startState 0) (threeBytes.take 17) = some s ∧
    Filling s 1 ∧ Sending s 0 ⟨5, 2, 3, 1⟩ ∧ (places s).count 0 = 1 ∧ (places s).count 1 = 1 ∧
    ∀ a < 3, InSlice 0 0 a ∧ ¬ InSlice 0 1 a := by
  have hrun : ((pipeline 5 0).run (startState 0) (threeBytes.take 17)).map
      (fun s => (s.reader, s.sender, (s.bufs 0).data)) =
        some (⟨.inRead, 1⟩, ⟨.writeSocket ⟨5, 2, 3, 1⟩, 0⟩, 0) := by decide +kernel
  obtain ⟨s, hs, hpc⟩ := Option.map_eq_some_iff.mp hrun
  simp only [Prod.mk.injEq] at hpc
  obtain ⟨hr, hw, hd⟩ := hpc
  have hreach : (pipeline 5 0).Reachable s :=
    ⟨startState 0, threeBytes.take 17, started_startState 0, hs⟩
  have hsending : Sending s 0 ⟨5, 2, 3, 1⟩ := by
    rw [Sending, hw]
    exact ⟨rfl, rfl⟩
  have hone := (pipeline_ownership hreach).2.1 (by rw [hr]; rfl) (by rw [hw]; rfl)
  obtain ⟨-, -, -, hrange⟩ := (pipeline_ownership hreach).2.2.2.2 0 _ hsending
  refine ⟨s, hs, ?_, hsending, hone 0, hone 1, fun a ha => ?_⟩
  · rw [Filling, hr]
    exact ⟨rfl, rfl⟩
  · rw [hd] at hrange
    obtain ⟨hin, hout⟩ := hrange a (Nat.zero_le a) (by omega)
    exact ⟨hin, hout 1 (by decide)⟩

end ITrace.AcqDataTrans
