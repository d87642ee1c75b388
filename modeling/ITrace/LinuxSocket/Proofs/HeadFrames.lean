import ITrace.LinuxSocket.NetsockServer

/-!
# The protocol end to end

What a client sends with `write_data`, and what the server makes of it. `read_head_frame` answers
1 where the server looks for the size of a head frame, so the server drops every connection once
its first head frame is there.
-/

namespace ITrace.LinuxSocket

variable {fd listenFd : Int} {fds : List Int} {messages : List Message}

/-! ### What the client sends -/

/-- The client has sent the messages that are not left to do, and what it has written of the
next one. -/
def ClientAt (messages : List Message) (c : Client) : Prop :=
  ∃ sent, messages = sent ++ c.todo ∧
    match c.pc with
    | .next => c.out = sent.flatMap Message.bytes
    | .writeHead call => ∃ m ms put, c.todo = m :: ms ∧ DataAt 0 m.hf.bytes.length put call ∧
        c.out = sent.flatMap Message.bytes ++ m.hf.bytes.take put
    | .writeEntity call => ∃ m ms put, c.todo = m :: ms ∧ DataAt 0 m.payload.length put call ∧
        c.out = sent.flatMap Message.bytes ++ m.hf.bytes ++ m.payload.take put
    | .finished => c.todo = [] ∧ c.out = sent.flatMap Message.bytes
    | .failed => True

/-- A `write` of a part of `buf` sends on where the ones before stopped. -/
theorem client_write {c c' : Client} {base buf : List UInt8} {l : DataLoop} {answer : SysResult}
    {put : Nat} (hbuf : buf.length < 2 ^ 31) (hl : DataAt 0 buf.length put (.running l))
    (hout : c.out = base ++ buf.take put) (h : c.write buf l answer = some c') :
    c'.todo = c.todo ∧
      ∃ put, DataAt 0 buf.length put (l.step answer) ∧ c'.out = base ++ buf.take put := by
  cases answer with
  | err e =>
    cases h
    exact ⟨rfl, put, hl.step_err e, hout⟩
  | ok k =>
    obtain ⟨hk, h⟩ := Option.ite_none_right_eq_some.mp h
    cases h
    refine ⟨rfl, put + k, hl.step_ok hbuf hk, ?_⟩
    rw [hl.ptr_eq, Int.zero_add, Int.toNat_natCast, List.take_add, ← List.append_assoc, hout]

/-- The message that is written is the first one to do. -/
theorem writing_head {todo ms : List Message} {m : Message} {P : Message → Nat → Prop}
    (h : ∃ m ms put, todo = m :: ms ∧ P m put) (htodo : todo = m :: ms) : ∃ put, P m put := by
  obtain ⟨m', ms', put, htodo', hput⟩ := h
  cases htodo.symm.trans htodo'
  exact ⟨put, hput⟩

theorem step_clientAt {c c' : Client} {e : ClientEvent} (h : ClientAt messages c)
    (he : (client fd messages).step c e = some c') : ClientAt messages c' := by
  obtain ⟨sent, hmsgs, hpc⟩ := h
  change c.step fd e = some c' at he
  unfold Client.step at he
  split at he
  case h_1 heq htodo =>
    rw [heq] at hpc
    cases he
    exact ⟨sent, hmsgs, htodo, hpc⟩
  case h_2 m ms heq htodo =>
    rw [heq] at hpc
    cases he
    refine ⟨sent, hmsgs, m, ms, 0, htodo, writeData_at fd 0 sizeofHeadFrame, ?_⟩
    rw [List.take_zero, List.append_nil]
    exact hpc
  case h_3 l m ms answer heq htodo =>
    rw [heq] at hpc
    obtain ⟨put, hl, hout⟩ := writing_head hpc htodo
    obtain ⟨d, hd, rfl⟩ := Option.map_eq_some_iff.mp he
    obtain ⟨hsame, put', hl', hout'⟩ :=
      client_write (by rw [HeadFrame.length_bytes]; decide) hl hout hd
    exact ⟨sent, by rw [hmsgs, hsame], m, ms, put', hsame.trans htodo, hl', hout'⟩
  case h_4 ret m ms heq htodo =>
    rw [heq] at hpc
    obtain ⟨put, hl, hout⟩ := writing_head hpc htodo
    cases he
    by_cases hret : ret = 1
    · rw [hl.all_moved hret, List.take_of_length_le (Nat.le_refl _)] at hout
      simp only [hret, ne_eq, not_true_eq_false, if_false]
      by_cases hempty : m.payload = []
      · rw [if_pos hempty]
        refine ⟨sent ++ [m], by simp [hmsgs, htodo], ?_⟩
        simp [hout, Message.bytes, hempty]
      · rw [if_neg hempty]
        refine ⟨sent, hmsgs, m, ms, 0, htodo, writeData_at fd 0 m.payload.length, ?_⟩
        simp [hout]
    · simp only [hret, ne_eq, not_false_eq_true, if_true]
      exact ⟨sent, hmsgs, trivial⟩
  case h_5 l m ms answer heq htodo =>
    rw [heq] at hpc
    obtain ⟨put, hl, hout⟩ := writing_head hpc htodo
    obtain ⟨d, hd, rfl⟩ := Option.map_eq_some_iff.mp he
    obtain ⟨hsame, put', hl', hout'⟩ := client_write m.len_lt hl hout hd
    exact ⟨sent, by rw [hmsgs, hsame], m, ms, put', hsame.trans htodo, hl', hout'⟩
  case h_6 ret m ms heq htodo =>
    rw [heq] at hpc
    obtain ⟨put, hl, hout⟩ := writing_head hpc htodo
    cases he
    by_cases hret : ret = 1
    · rw [hl.all_moved hret, List.take_of_length_le (Nat.le_refl _)] at hout
      simp only [hret, ne_eq, not_true_eq_false, if_false]
      refine ⟨sent ++ [m], by simp [hmsgs, htodo], ?_⟩
      simp [hout, Message.bytes]
    · simp only [hret, ne_eq, not_false_eq_true, if_true]
      exact ⟨sent, hmsgs, trivial⟩
  case h_7 => cases he

/-- A client that finished has put the messages on the wire, one after the other. -/
theorem client_sends {c : Client} {ws : List ClientEvent}
    (hrun : (client fd messages).run (Client.start messages) ws = some c)
    (hpc : c.pc = .finished) : c.out = messages.flatMap Message.bytes := by
  have hstart : ClientAt messages (Client.start messages) := ⟨[], rfl, rfl⟩
  obtain ⟨sent, hmsgs, hat⟩ := Machine.run_invariant
    (fun _ _ _ h he => step_clientAt h he) hstart hrun
  rw [hpc] at hat
  rw [hmsgs, hat.1, List.append_nil]
  exact hat.2

/-! ### What the server makes of it -/

/-- The server reads the first head frame of the stream, or has left the connection without a
call of `protocol`. -/
structure HeadAt (stream : List UInt8) (s : State) : Prop where
  calls : s.calls = []
  ended : s.ended = true → stream.length < sizeofHeadFrame
  pc : match s.pc with
    | .readHead call => ∃ got, DataAt 0 sizeofHeadFrame got call ∧ s.incoming = stream.drop got
    | .realloc | .readEntity _ | .protocol => False
    | _ => True
  empty : stream = [] → (∃ l, s.pc = .readHead (.running l)) ∨ s.failed = true ∨ s.ended = true

theorem readHeadFrame_running (fd hf : Int) : ∃ l, readHeadFrame fd hf = .running l := by
  unfold readHeadFrame readData DataLoop.loop
  rw [int32_of_lt (by decide) (by decide)]
  exact ⟨_, if_pos (by simp only; decide)⟩

theorem headAt_of_accepted {s : State} (h : Accepted s) : HeadAt s.incoming s := by
  obtain ⟨hpc, hcalls, -, hended⟩ := h
  constructor
  · exact hcalls
  · simp [hended]
  · rw [hpc]
    exact ⟨0, readData_at s.connFd 0 (by decide), rfl⟩
  · obtain ⟨l, hl⟩ := readHeadFrame_running s.connFd 0
    exact fun _ => .inl ⟨l, hpc.trans (congrArg _ hl)⟩

/-- Whatever `read_head_frame` returns is not the size of a head frame. -/
theorem readHeadFrame_ret {ret : Int} {got : Nat}
    (h : DataAt 0 sizeofHeadFrame got (.returned ret)) : ret % 2 ^ 64 ≠ sizeofHeadFrame := by
  rcases h with ⟨rfl, -⟩ | ⟨rfl, -⟩ <;> decide

theorem socketRead_headAt {stream bytes : List UInt8} {s u : State} {l : DataLoop}
    {answer : SysResult} (h : HeadAt stream s) (hpc : s.pc = .readHead (.running l))
    (hu : s.read l answer = some (bytes, u)) (hf : Mem UInt8) :
    HeadAt stream { u with hf := hf, pc := .readHead (l.step answer) } := by
  have hread := h.pc
  rw [hpc] at hread
  obtain ⟨got, hl, hincoming⟩ := hread
  cases answer with
  | err e =>
    cases hu
    exact ⟨h.calls, h.ended, ⟨got, hl.step_err e, hincoming⟩, fun _ => .inr (.inl rfl)⟩
  | ok k =>
    obtain ⟨⟨hk, havail⟩, hu⟩ := Option.ite_none_right_eq_some.mp hu
    cases hu
    have hcount := hl.count_eq (by decide)
    constructor
    · exact h.calls
    · intro hended
      simp only [Bool.or_eq_true, Bool.and_eq_true, decide_eq_true_eq,
        List.isEmpty_iff] at hended
      rcases hended with hended | ⟨-, hnil⟩
      · exact h.ended hended
      -- nothing is left in the middle of the head frame
      · rw [hincoming, List.drop_eq_nil_iff] at hnil
        have hpos := hl.2.2.1
        have hleft := hl.2.2.2
        omega
    · exact ⟨got + k, hl.step_ok (by decide) hk, by rw [hincoming, List.drop_drop]⟩
    · intro hnil
      refine .inr (.inr ?_)
      subst hnil
      rw [List.drop_nil] at hincoming
      rw [hincoming] at havail
      simp [hincoming, Nat.le_zero.mp havail]

theorem step_headAt {stream : List UInt8} {s s' : State} {e : Event} (h : HeadAt stream s)
    (hone : ∀ answer, e ≠ .accept answer) (he : createNetsockServer s e = some s') :
    HeadAt stream s' := by
  have hpc := h.pc
  -- a state that is not in the middle of a read keeps what is known about the end
  have hempty : (∀ l, s.pc ≠ .readHead (.running l)) → stream = [] →
      s.failed = true ∨ s.ended = true := by
    intro hnot hnil
    exact (h.empty hnil).resolve_left fun ⟨l, hl⟩ => hnot l hl
  unfold createNetsockServer at he
  split at he
  case h_1 heq =>
    cases he
    exact ⟨h.calls, h.ended, trivial, fun hnil => .inr (hempty (by simp [heq]) hnil)⟩
  case h_2 ok heq =>
    cases he
    refine ⟨h.calls, h.ended, ?_, fun hnil => .inr (hempty (by simp [heq]) hnil)⟩
    cases ok <;> trivial
  case h_3 | h_4 => exact absurd rfl (hone _)
  case h_5 l answer heq =>
    obtain ⟨⟨bytes, u⟩, hu, rfl⟩ := Option.map_eq_some_iff.mp he
    exact socketRead_headAt h heq hu _
  case h_6 ret heq =>
    rw [heq] at hpc
    obtain ⟨got, hl, -⟩ := hpc
    cases he
    rw [if_pos (readHeadFrame_ret hl)]
    exact ⟨h.calls, h.ended, trivial, fun hnil => .inr (hempty (by simp [heq]) hnil)⟩
  case h_11 heq =>
    cases he
    exact ⟨h.calls, h.ended, trivial, fun hnil => .inr (hempty (by simp [heq]) hnil)⟩
  case h_12 => cases he
  all_goals
    rename_i heq
    rw [heq] at hpc
    exact hpc.elim

theorem socketRead_failed {bytes : List UInt8} {s u : State} {l : DataLoop} {answer : SysResult}
    (hu : s.read l answer = some (bytes, u)) :
    u.failed = true ↔ s.failed = true ∨ ∃ errno, answer = .err errno := by
  cases answer with
  | err e =>
    cases hu
    simp
  | ok k =>
    obtain ⟨-, hu⟩ := Option.ite_none_right_eq_some.mp hu
    cases hu
    simp

/-- Only a read that fails makes a failure, and only an `accept` forgets it. -/
theorem step_failed {s s' : State} {e : Event} (hone : ∀ answer, e ≠ .accept answer)
    (he : createNetsockServer s e = some s') :
    s'.failed = true ↔ s.failed = true ∨ ∃ errno, e = .read (.err errno) := by
  unfold createNetsockServer at he
  split at he
  case h_3 | h_4 => exact absurd rfl (hone _)
  case h_5 | h_8 =>
    obtain ⟨⟨bytes, u⟩, hu, rfl⟩ := Option.map_eq_some_iff.mp he
    simpa using socketRead_failed hu
  case h_7 ok _ =>
    cases he
    cases ok <;> simp
  case h_12 => cases he
  all_goals
    cases he
    simp

section
variable {stream : List UInt8} {s t : State} {es : List Event}

theorem run_headAt (h : HeadAt stream s) (hone : ∀ answer, .accept answer ∉ es)
    (hrun : (netsockServer listenFd fds).run s es = some t) : HeadAt stream t := by
  induction es generalizing s with
  | nil =>
    cases hrun
    exact h
  | cons e es ih =>
    obtain ⟨s', he, hes⟩ := Machine.run_cons_iff.mp hrun
    have he : createNetsockServer s e = some s' := he
    refine ih (step_headAt h ?_ he) (fun answer hmem => ?_) hes
    · rintro answer rfl
      exact hone answer List.mem_cons_self
    · exact hone answer (List.mem_cons_of_mem _ hmem)

theorem run_failed (hone : ∀ answer, .accept answer ∉ es)
    (hrun : (netsockServer listenFd fds).run s es = some t) :
    t.failed = true ↔ s.failed = true ∨ ∃ errno, .read (.err errno) ∈ es := by
  induction es generalizing s with
  | nil =>
    cases hrun
    simp
  | cons e es ih =>
    obtain ⟨s', he, hes⟩ := Machine.run_cons_iff.mp hrun
    have he : createNetsockServer s e = some s' := he
    rw [ih (fun answer hmem => hone answer (List.mem_cons_of_mem _ hmem)) hes,
      step_failed (fun answer heq => hone answer (heq ▸ List.mem_cons_self)) he]
    simp only [List.mem_cons, exists_or, eq_comm (a := e), or_assoc]

end

/-- The calls of `protocol` that the messages ask for. -/
def protocolCalls (messages : List Message) : List (HeadFrame × List UInt8) :=
  (messages.filter fun m => m.payload ≠ []).map fun m => (m.hf, m.payload)

/-- The connection was served: `protocol` was called for the messages with a payload, in order,
and the server left the connection only after a read had failed or had found the end of the
stream, in the second case after a call for each of them. -/
def Served (messages : List Message) (t : State) : Prop :=
  t.calls <+: protocolCalls messages ∧
  (t.dropped = true → (t.failed = true ∨ t.ended = true) ∧
    (t.failed = false → t.calls = protocolCalls messages))

theorem length_flatMap_bytes (h : messages ≠ []) :
    sizeofHeadFrame ≤ (messages.flatMap Message.bytes).length := by
  cases messages with
  | nil => exact absurd rfl h
  | cons m ms =>
    simp only [List.flatMap_cons, Message.bytes, List.length_append, HeadFrame.length_bytes]
    omega

/-- On a connection on which a client sends `messages`, and that the server has left, the server
served the client exactly if there was no message to serve, or a read failed. -/
theorem netsockServer_served {c : Client} {ws : List ClientEvent} {s t : State}
    {es : List Event} (hclient : (client fd messages).run (Client.start messages) ws = some c)
    (hsent : c.pc = .finished) (hs : Accepted s) (hstream : s.incoming = c.out)
    (hrun : (netsockServer listenFd fds).run s es = some t)
    (hone : ∀ answer, .accept answer ∉ es) (hdropped : t.dropped = true) :
    Served messages t ↔ messages = [] ∨ ∃ errno, .read (.err errno) ∈ es := by
  have hstart := headAt_of_accepted hs
  rw [hstream, client_sends hclient hsent] at hstart
  have hhead := run_headAt hstart hone hrun
  have hfailed := run_failed hone hrun
  rw [hs.2.2.1] at hfailed
  simp only [Bool.false_eq_true, false_or] at hfailed
  rw [← hfailed]
  constructor
  · intro hserved
    by_contra hnot
    obtain ⟨hmessages, hfine⟩ := not_or.mp hnot
    have hended := (hserved.2 hdropped).1.resolve_left hfine
    exact absurd (hhead.ended hended) (Nat.not_lt.mpr (length_flatMap_bytes hmessages))
  · rintro (rfl | hbroken)
    · refine ⟨by rw [hhead.calls]; exact List.nil_prefix, fun _ => ⟨?_, fun _ => hhead.calls⟩⟩
      refine (hhead.empty rfl).resolve_left fun ⟨l, hl⟩ => ?_
      simp [State.dropped, hl] at hdropped
    · refine ⟨by rw [hhead.calls]; exact List.nil_prefix, fun _ => ⟨.inl hbroken, fun hfine => ?_⟩⟩
      rw [hbroken] at hfine
      cases hfine

/-- A connection from which `stream` comes, as `accept` gives it to the server. -/
def accepted (stream : List UInt8) : State where
  listenFd := 3
  connFd := 4
  fds := [4, 3]
  pc := .readHead (readHeadFrame 4 0)
  hf _ := 0
  dataEntity _ := 0
  incoming := stream
  calls := []
  failed := false
  ended := false

/-- A message with one byte of payload. -/
def oneByte : Message where
  hf := ⟨1, 1, 0, 0⟩
  payload := [65]
  len_eq := rfl
  len_lt := by decide

/-- The steps in which the client sends it. -/
def oneByteSent : List ClientEvent :=
  [.local, .write (.ok 16), .local, .write (.ok 1), .local, .local]

/-- A read fails after five bytes of the head frame. -/
theorem netsockServer_served_failedRead : ∃ c t,
    (client 5 [oneByte]).run (Client.start [oneByte]) oneByteSent = some c ∧
    (netsockServer 3 [3]).run (accepted c.out) [.read (.ok 5), .read (.err .EBADF), .local] =
      some t ∧
    t.dropped = true ∧ Served [oneByte] t := by
  have hclient : ((client 5 [oneByte]).run (Client.start [oneByte]) oneByteSent).map
      (fun c => (c.pc, c.out)) = some (.finished, oneByte.bytes) := by decide +kernel
  have hserver : ((netsockServer 3 [3]).run (accepted oneByte.bytes)
      [.read (.ok 5), .read (.err .EBADF), .local]).map State.dropped = some true := by
    decide +kernel
  obtain ⟨c, hc, hout⟩ := Option.map_eq_some_iff.mp hclient
  obtain ⟨t, ht, hdropped⟩ := Option.map_eq_some_iff.mp hserver
  obtain ⟨hsent, hout⟩ := Prod.mk.inj hout
  rw [← hout] at ht
  refine ⟨c, t, hc, ht, hdropped, ?_⟩
  refine (netsockServer_served hc hsent ⟨rfl, rfl, rfl, rfl⟩ rfl ht ?_ hdropped).mpr (.inr ?_)
  · intro answer hmem
    simp at hmem
  · exact ⟨.EBADF, by simp⟩

/-- The server reads the head frame of the one message in one piece and drops the connection. -/
theorem oneByte_not_served : ∃ c t,
    (client 5 [oneByte]).run (Client.start [oneByte]) oneByteSent = some c ∧
    c.pc = .finished ∧
    (netsockServer 3 [3]).run (accepted c.out) [.read (.ok 16), .local] = some t ∧
    t.dropped = true ∧ ¬ Served [oneByte] t := by
  have hclient : ((client 5 [oneByte]).run (Client.start [oneByte]) oneByteSent).map
      (fun c => (c.pc, c.out)) = some (.finished, oneByte.bytes) := by decide +kernel
  have hserver : ((netsockServer 3 [3]).run (accepted oneByte.bytes)
      [.read (.ok 16), .local]).map (fun t => (t.dropped, t.failed, t.ended)) =
        some (true, false, false) := by decide +kernel
  obtain ⟨c, hc, hout⟩ := Option.map_eq_some_iff.mp hclient
  obtain ⟨t, ht, hleft⟩ := Option.map_eq_some_iff.mp hserver
  simp only [Prod.mk.injEq] at hout hleft
  obtain ⟨hdropped, hfine, hrest⟩ := hleft
  refine ⟨c, t, hc, hout.1, by rw [hout.2]; exact ht, hdropped, fun hserved => ?_⟩
  rcases (hserved.2 hdropped).1 with hfailed | hended
  · rw [hfine] at hfailed
    cases hfailed
  · rw [hrest] at hended
    cases hended

end ITrace.LinuxSocket
