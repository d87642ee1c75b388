import ITrace.LinuxSocket.Proofs.DataLoops
import ITrace.Misc.Channel

/-!
# A head frame from one end to the other

`write_data` of a head frame at the one end of a connection and `read_head_frame` at the other.
Both put up with ten calls in a row that move nothing, and with no error.
-/

namespace ITrace.LinuxSocket

open ITrace IoLoop

/-- The call of `write_data` for the head frame at `base`, the call of `read_head_frame` for the one
at `base'`, and a connection that holds up to `cap` bytes between them. -/
def headLink (cap : Nat) (src mem : Mem UInt8) (wfd rfd : Int) (base base' : Nat) :
    Machine (Linked DataLoop DataLoop UInt8) LinkEvent :=
  dataLoop.link dataLoop cap src mem (writeData wfd base sizeofHeadFrame) (readHeadFrame rfd base')

/-- Neither end saw an error, or eleven calls in a row that moved nothing. -/
def Kept (es : List LinkEvent) : Prop :=
  ¬ GaveUp maxZeros (es.filterMap LinkEvent.toSender) ∧
  ¬ GaveUp maxZeros (es.filterMap LinkEvent.toReceiver)

variable {buf n moved : Nat} {es : List LinkEvent} {s : Linked DataLoop DataLoop UInt8}

theorem length_toSender_toReceiver (es : List LinkEvent) :
    es.length = (es.filterMap LinkEvent.toSender).length +
      (es.filterMap LinkEvent.toReceiver).length := by
  induction es with
  | nil => rfl
  | cons e es ih =>
    cases e with
    | send answer =>
      have hs : (LinkEvent.send answer :: es).filterMap LinkEvent.toSender =
          answer :: es.filterMap LinkEvent.toSender := rfl
      have hr : (LinkEvent.send answer :: es).filterMap LinkEvent.toReceiver =
          es.filterMap LinkEvent.toReceiver := rfl
      rw [hs, hr, List.length_cons, List.length_cons, ih]
      omega
    | receive answer =>
      have hs : (LinkEvent.receive answer :: es).filterMap LinkEvent.toSender =
          es.filterMap LinkEvent.toSender := rfl
      have hr : (LinkEvent.receive answer :: es).filterMap LinkEvent.toReceiver =
          answer :: es.filterMap LinkEvent.toReceiver := rfl
      rw [hs, hr, List.length_cons, List.length_cons, ih]
      omega

/-- What a call returned, from the answers it got. -/
theorem data_returned {start : Call DataLoop} {answers : List SysResult} {ret : Int}
    (hn : n < 2 ^ 31) (hat : DataAt buf n 0 start)
    (hstart : AtStart n DataLoop.maxCount start)
    (hrun : (dataLoop.calls start).run start answers = some (.returned ret))
    (hmoved : DataAt buf n moved (.returned ret)) :
    (ret = 1 ↔ moved = n) ∧ (ret = 1 ↔ ¬ GaveUp maxZeros answers) ∧ (ret ≠ 1 → ret = -1) := by
  rcases dataTold hn hat hstart hrun hmoved with ⟨rfl, hall, hkept⟩ | ⟨rfl, hlt, hgave⟩
  · exact ⟨by simp [hall], by simp [hkept], fun hne => absurd rfl hne⟩
  · exact ⟨by omega, by simp [hgave], fun _ => rfl⟩

/-- For every head frame that `init_head_frame` makes, in every run of the two calls: if
`read_head_frame` returns 1 the frame it has stored is that head frame and `write_data` has put
all of it; it returns 1 or -1, and -1 exactly after an error or eleven reads in a row that got
nothing; nothing outside the head frame is written; at most 352 calls are made; and if neither
end gave up, both have returned 1 with the head frame delivered, or one more byte can be moved. -/
theorem headLink_delivers (cap : Nat) (hcap : 0 < cap) (m mem : Mem UInt8) (wfd rfd : Int)
    (base base' : Nat) (id flag res len : Int) (es : List LinkEvent)
    (s : Linked DataLoop DataLoop UInt8)
    (hrun : (headLink cap (m.store base (initHeadFrame id flag res len).bytes) mem wfd rfd base
      base').run ⟨writeData wfd base sizeofHeadFrame, readHeadFrame rfd base', [], mem⟩ es =
        some s) :
    es.length ≤ 352 ∧
    (∀ a, a < base' ∨ base' + sizeofHeadFrame ≤ a → s.mem a = mem a) ∧
    (∀ ret, s.receiver = .returned ret →
      (ret = 1 → HeadFrame.load s.mem base' = initHeadFrame id flag res len ∧ s.queue = [] ∧
        ∀ ret', s.sender = .returned ret' → ret' = 1) ∧
      (ret = 1 ↔ ¬ GaveUp maxZeros (es.filterMap LinkEvent.toReceiver)) ∧
      (ret ≠ 1 → ret = -1)) ∧
    (Kept es →
      (s.sender = .returned 1 ∧ s.receiver = .returned 1 ∧
        HeadFrame.load s.mem base' = initHeadFrame id flag res len) ∨
      ∃ e t, (headLink cap (m.store base (initHeadFrame id flag res len).bytes) mem wfd rfd base
        base').step s e = some t ∧ e.moved = 1) := by
  have hn : sizeofHeadFrame < 2 ^ 31 := by decide
  have hlimit : 0 < maxZeros := by decide
  have hout := data_moves base hn
  have hinto := data_moves base' hn
  have hat := writeData_at wfd base sizeofHeadFrame
  have hat' : DataAt base' sizeofHeadFrame 0 (readHeadFrame rfd base') := readData_at rfd base' hn
  have hstart : AtStart sizeofHeadFrame DataLoop.maxCount (writeData wfd base sizeofHeadFrame) :=
    dataLoop_atStart rfl
  have hstart' : AtStart sizeofHeadFrame DataLoop.maxCount (readHeadFrame rfd base') := by
    have h16 : int32 sizeofHeadFrame = sizeofHeadFrame := int32_of_lt (by decide) (by decide)
    have hcall : readHeadFrame rfd base' =
        DataLoop.loop ⟨rfd, base', sizeofHeadFrame, int32 sizeofHeadFrame, 0⟩ := rfl
    rw [hcall, h16]
    exact dataLoop_atStart rfl
  obtain ⟨put, got, hjoined, -⟩ := Joined.run hout hinto hat hat' hrun
  have hsends := calls_sender hrun
  have hreceives := calls_receiver hrun
  have hput := hjoined.put_le
  have hgot := hjoined.got_le
  -- what each end has once it has returned
  have hsent : ∀ ret, s.sender = .returned ret → (ret = 1 ↔ put = sizeofHeadFrame) ∧
      (ret = 1 ↔ ¬ GaveUp maxZeros (es.filterMap LinkEvent.toSender)) ∧ (ret ≠ 1 → ret = -1) := by
    intro ret hret
    have hsender := hjoined.sender
    rw [hret] at hsender hsends
    exact data_returned hn hat hstart hsends hsender
  have hreceived : ∀ ret, s.receiver = .returned ret → (ret = 1 ↔ got = sizeofHeadFrame) ∧
      (ret = 1 ↔ ¬ GaveUp maxZeros (es.filterMap LinkEvent.toReceiver)) ∧ (ret ≠ 1 → ret = -1) := by
    intro ret hret
    have hreceiver := hjoined.receiver
    rw [hret] at hreceiver hreceives
    exact data_returned hn hat' hstart' hreceives hreceiver
  have hframe : got = sizeofHeadFrame →
      HeadFrame.load s.mem base' = initHeadFrame id flag res len := by
    intro hall
    have hsrc := Mem.load_store_same m base (initHeadFrame id flag res len).bytes
    rw [HeadFrame.length_bytes] at hsrc
    apply HeadFrame.load_of_bytes
    rw [hjoined.mem, hall, hsrc]
    exact Mem.load_store_same mem base' (initHeadFrame id flag res len).bytes
  refine ⟨?_, ?_, fun ret hret => ⟨fun hone => ?_, (hreceived ret hret).2⟩, fun hkept => ?_⟩
  · have hlen := length_toSender_toReceiver es
    have hle := (data_givesUp base hn).length_le hout hlimit hat hstart hsends
    have hle' := (data_givesUp base' hn).length_le hinto hlimit hat' hstart' hreceives
    have h176 : maxZeros * sizeofHeadFrame = 176 := rfl
    omega
  · have hlen := Mem.length_load (m.store base (initHeadFrame id flag res len).bytes) base got
    rintro a (ha | ha)
    · rw [hjoined.mem, Mem.store_of_lt mem _ ha]
    · rw [hjoined.mem, Mem.store_of_ge mem _ (by omega)]
  · have hall := (hreceived ret hret).1.mp hone
    refine ⟨hframe hall, List.eq_nil_of_length_eq_zero ?_, fun ret' hret' => ?_⟩
    · rw [hjoined.length_queue]
      omega
    · exact (hsent ret' hret').1.mpr (by omega)
  · have hdone : ∀ ret, s.sender = .returned ret → ret = 1 ∧ put = sizeofHeadFrame := by
      intro ret hret
      obtain ⟨hall, hgave, -⟩ := hsent ret hret
      have hone := hgave.mpr hkept.1
      exact ⟨hone, hall.mp hone⟩
    have hdone' : ∀ ret, s.receiver = .returned ret → ret = 1 ∧ got = sizeofHeadFrame := by
      intro ret hret
      obtain ⟨hall, hgave, -⟩ := hreceived ret hret
      have hone := hgave.mpr hkept.2
      exact ⟨hone, hall.mp hone⟩
    rcases hjoined.progress hout hinto hcap (fun h => (data_givesUp base hn).pos h)
        (fun h => (data_givesUp base' hn).pos h) (fun ret hret => (hdone ret hret).2)
        (fun ret hret => (hdone' ret hret).2) with ⟨ret, ret', hs, hr, -⟩ | hmove
    · obtain ⟨rfl, -⟩ := hdone ret hs
      obtain ⟨rfl, hall⟩ := hdone' ret' hr
      exact .inl ⟨hs, hr, hframe hall⟩
    · exact .inr hmove

/-- The head frame goes through a connection for ten bytes, with reads that get nothing between. -/
def tenAtATime : List LinkEvent :=
  [.receive (.ok 0), .send (.ok 10), .receive (.ok 3), .receive (.ok 7), .receive (.ok 0),
   .send (.ok 6), .receive (.ok 6)]

theorem headLink_delivers_tenAtATime : ∃ s,
    (headLink 10 (Mem.store (fun _ => 0) 0 (initHeadFrame 1 2 3 (-1)).bytes) (fun _ => 0) 4 5 0
      0).run ⟨writeData 4 0 sizeofHeadFrame, readHeadFrame 5 0, [], fun _ => 0⟩ tenAtATime =
        some s ∧
    s.receiver = .returned 1 ∧ HeadFrame.load s.mem 0 = ⟨1, 0xffffffff, 2, 3⟩ := by
  have hrun : ((headLink 10 (Mem.store (fun _ => 0) 0 (initHeadFrame 1 2 3 (-1)).bytes)
      (fun _ => 0) 4 5 0 0).run
        ⟨writeData 4 0 sizeofHeadFrame, readHeadFrame 5 0, [], fun _ => 0⟩ tenAtATime).map
          (fun s => s.receiver) = some (.returned 1) := by decide +kernel
  obtain ⟨s, hs, hret⟩ := Option.map_eq_some_iff.mp hrun
  obtain ⟨-, -, hends, -⟩ := headLink_delivers 10 (by decide) _ _ 4 5 0 0 1 2 3 (-1) _ s hs
  obtain ⟨hload, -, -⟩ := (hends 1 hret).1 rfl
  exact ⟨s, hs, hret, hload⟩

end ITrace.LinuxSocket
