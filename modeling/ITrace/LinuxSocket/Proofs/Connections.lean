import ITrace.LinuxSocket.Proofs.ConnDescriptors
import ITrace.LinuxSocket.Proofs.DataLoops

/-!
# One connection after the other

The whole run of `create_netsock_server` once it listens. Since `read_head_frame` does not return
the size of a head frame, every connection ends with its first one: it costs a bounded number of
steps, and after it the server listens again.
-/

namespace ITrace.LinuxSocket

variable {listenFd : Int} {fds : List Int} {s s' t : State} {es : List Event} {e : Event}

/-- What a `read` got. -/
def Event.moved : Event → Nat
  | .read answer => answer.moved
  | _ => 0

def Event.isRead : Event → Bool
  | .read _ => true
  | _ => false

/-! ### What is left of a connection -/

/-- The calls `read_head_frame` has left at most. -/
def headCalls (call : Call DataLoop) : Nat :=
  IoLoop.left (fun l : DataLoop => maxZeros * l.leftLen.toNat - l.maxCount) call

/-- The bytes it has left. -/
def headBytes (call : Call DataLoop) : Nat := IoLoop.left (fun l : DataLoop => l.leftLen.toNat) call

/-- The steps until the server returns, if it accepts no other connection. -/
def NetsockPc.stepsOwed : NetsockPc → Nat
  | .readHead call => headCalls call + 5
  | .drop => 4
  | .listenAgain => 3
  | .listen => 2
  | .accept => 1
  | _ => 0

def NetsockPc.readsOwed : NetsockPc → Nat
  | .readHead call => headCalls call
  | _ => 0

def NetsockPc.bytesOwed : NetsockPc → Nat
  | .readHead call => headBytes call
  | _ => 0

/-- The server has not got past a head frame, and has put up with fewer than eleven reads in a row
that got nothing. -/
def Patient (s : State) : Prop :=
  OnlyHeads s ∧ ∀ l, s.pc = .readHead (.running l) → l.maxCount < maxZeros

theorem headBytes_le {got : Nat} {call : Call DataLoop} (hat : DataAt 0 sizeofHeadFrame got call) :
    headBytes call ≤ sizeofHeadFrame - got := by
  cases call with
  | running l =>
    have hrest := (data_moves 0 (by decide)).rest_eq hat
    simp only [headBytes, IoLoop.left]
    omega
  | returned ret => exact Nat.zero_le _

/-- A head frame from its beginning. -/
theorem readHeadFrame_owed (fd : Int) :
    headCalls (readHeadFrame fd 0) ≤ 176 ∧ headBytes (readHeadFrame fd 0) ≤ 16 ∧
    ∀ l, readHeadFrame fd 0 = .running l → l.maxCount < maxZeros := by
  have hat : DataAt 0 sizeofHeadFrame 0 (readHeadFrame fd 0) := readData_at fd 0 (by decide)
  have hstart : IoLoop.AtStart sizeofHeadFrame DataLoop.maxCount (readHeadFrame fd 0) := by
    rw [readHeadFrame, readData, int32_of_lt (by decide) (by decide)]
    exact dataLoop_atStart rfl
  refine ⟨hstart.left_le (data_moves 0 (by decide)) maxZeros hat, headBytes_le hat, ?_⟩
  intro l hl
  rcases hstart with ⟨l', hl', hzero⟩ | ⟨ret, hret, -⟩
  · cases hl.symm.trans hl'
    rw [hzero]
    decide
  · cases hl.symm.trans hret

/-- One answer uses up a call, and the bytes it got. -/
theorem read_spends {l : DataLoop} {answer : SysResult} {got : Nat}
    (hat : DataAt 0 sizeofHeadFrame got (.running l)) (hzeros : l.maxCount < maxZeros)
    (hk : answer.moved ≤ l.count) :
    headCalls (l.step answer) + 1 ≤ headCalls (.running l) ∧
    headBytes (l.step answer) + answer.moved ≤ headBytes (.running l) ∧
    ∀ l', l.step answer = .running l' → l'.maxCount < maxZeros := by
  have hmoves := data_moves (n := sizeofHeadFrame) 0 (by decide)
  have hspends := (data_givesUp (n := sizeofHeadFrame) 0 (by decide)).spends hmoves
  have hcall : (dataLoop.calls (.running l)).step (.running l) answer = some (l.step answer) := by
    cases answer with
    | err e => rfl
    | ok k => exact if_pos hk
  obtain ⟨⟨-, hfew⟩, hless⟩ := hspends.step
    ⟨⟨got, hat⟩, fun l' hl' => by cases hl'; exact hzeros⟩ hcall
  refine ⟨hless, ?_, hfew⟩
  have hrest : l.leftLen.toNat + got = sizeofHeadFrame := hmoves.rest_eq hat
  have hcount : l.count ≤ l.leftLen.toNat := hmoves.count_le hat
  have hbytes : headBytes (.running l) = l.leftLen.toNat := rfl
  cases answer with
  | ok k =>
    replace hk : k ≤ l.count := hk
    have hnext := headBytes_le (hat.step_ok (by decide) hk)
    simp only [SysResult.moved]
    omega
  | err e =>
    have hnext := headBytes_le (hat.step_err e)
    simp only [SysResult.moved]
    omega

/-! ### Steps -/

/-- What `read` got was asked for. -/
theorem moved_le_count {l : DataLoop} {answer : SysResult} (hpc : s.pc = .readHead (.running l))
    (he : createNetsockServer s (.read answer) = some s') : answer.moved ≤ l.count := by
  cases answer with
  | err e => exact Nat.zero_le _
  | ok k =>
    simp only [createNetsockServer, hpc] at he
    obtain ⟨⟨bytes, u⟩, hu, -⟩ := Option.map_eq_some_iff.mp he
    obtain ⟨⟨hk, -⟩, -⟩ := Option.ite_none_right_eq_some.mp hu
    exact hk

/-- A step costs what it takes from the connection; only `accept` adds to what is owed. -/
theorem step_owed (h : Patient s) (he : createNetsockServer s e = some s') :
    Patient s' ∧
    s'.pc.stepsOwed + 1 ≤ s.pc.stepsOwed + (if e.accepted then 181 else 0) ∧
    s'.pc.readsOwed + (if e.isRead then 1 else 0) ≤
      s.pc.readsOwed + (if e.accepted then 176 else 0) ∧
    s'.pc.bytesOwed + e.moved ≤ s.pc.bytesOwed + (if e.accepted then 16 else 0) := by
  obtain ⟨hheads, hzeros⟩ := h
  obtain ⟨hmove, hheads'⟩ := serverMove_of_step hheads he
  cases hmove with
  | accept hpc hfd hfresh =>
    rename_i fd stream
    obtain ⟨hcalls, hbytes, hfew⟩ := readHeadFrame_owed fd
    refine ⟨⟨hheads', fun l hl => hfew l (NetsockPc.readHead.inj hl)⟩, ?_⟩
    · simp only [hpc, Event.accepted, Event.isRead, Event.moved, NetsockPc.stepsOwed,
        NetsockPc.readsOwed, NetsockPc.bytesOwed, if_true, Bool.false_eq_true, if_false]
      omega
  | @read l hpc answer s' hpc' hconn hlisten hfds =>
    simp only [OnlyHeads, hpc] at hheads
    obtain ⟨-, got, hat⟩ := hheads
    obtain ⟨hcalls, hbytes, hfew⟩ := read_spends hat (hzeros l hpc) (moved_le_count hpc he)
    refine ⟨⟨hheads', fun l' hl' => hfew l' ?_⟩, ?_⟩
    · rw [hpc'] at hl'
      exact NetsockPc.readHead.inj hl'
    · simp only [hpc, hpc', Event.accepted, Event.isRead, Event.moved, NetsockPc.stepsOwed,
        NetsockPc.readsOwed, NetsockPc.bytesOwed, if_true, Bool.false_eq_true, if_false]
      omega
  | listen hpc ok =>
    refine ⟨⟨hheads', ?_⟩, ?_⟩
    · cases ok <;> simp
    · cases ok <;> simp [hpc, Event.accepted, Event.isRead, Event.moved, NetsockPc.stepsOwed,
        NetsockPc.readsOwed, NetsockPc.bytesOwed]
  | headDone hpc | listenAgain hpc | acceptFails hpc | drop hpc =>
    refine ⟨⟨hheads', by simp⟩, ?_⟩
    simp [hpc, Event.accepted, Event.isRead, Event.moved, NetsockPc.stepsOwed, NetsockPc.readsOwed,
      NetsockPc.bytesOwed, headCalls, headBytes, IoLoop.left]

/-- No message is served, and nothing is stored but the head frame. -/
theorem step_servesNothing (h : OnlyHeads s) (he : createNetsockServer s e = some s') :
    s'.dataEntity = s.dataEntity ∧ (s.calls = [] → s'.calls = []) ∧
    (∀ ret, s'.pc = .returned ret → e = .listen false ∨ e = .accept none) := by
  unfold OnlyHeads at h
  unfold createNetsockServer at he
  split at he
  case h_2 ok heq =>
    cases he
    refine ⟨rfl, id, fun ret hret => ?_⟩
    cases ok with
    | true => cases hret
    | false => exact .inl rfl
  case h_3 heq =>
    cases he
    exact ⟨rfl, id, fun ret hret => .inr rfl⟩
  case h_4 fd stream heq =>
    obtain ⟨-, he⟩ := Option.ite_none_right_eq_some.mp he
    cases he
    exact ⟨rfl, fun _ => rfl, fun ret hret => by cases hret⟩
  case h_5 l answer heq =>
    obtain ⟨⟨bytes, u⟩, hu, rfl⟩ := Option.map_eq_some_iff.mp he
    cases answer with
    | ok k =>
      obtain ⟨-, hu⟩ := Option.ite_none_right_eq_some.mp hu
      cases hu
      exact ⟨rfl, id, fun ret hret => by cases hret⟩
    | err errno =>
      cases hu
      exact ⟨rfl, id, fun ret hret => by cases hret⟩
  case h_6 ret heq =>
    rw [heq] at h
    obtain ⟨-, got, hl⟩ := h
    cases he
    rw [if_pos (readHeadFrame_ret hl)]
    exact ⟨rfl, id, fun ret hret => by cases hret⟩
  case h_1 | h_11 =>
    cases he
    exact ⟨rfl, id, fun ret hret => by cases hret⟩
  case h_12 => cases he
  all_goals
    rename_i heq
    rw [heq] at h
    exact h.elim

/-! ### Runs -/

/-- Before the first connection. -/
theorem patient_init (hs : (netsockServer listenFd fds).init s) : Patient s := by
  refine ⟨?_, fun l hl => ?_⟩
  · simp [OnlyHeads, hs.2.2.2]
  · simp [hs.2.2.2] at hl

theorem run_steps_le (hs : Patient s) (hrun : (netsockServer listenFd fds).run s es = some t) :
    t.pc.stepsOwed + es.length ≤ s.pc.stepsOwed + 181 * es.countP Event.accepted := by
  have hcost := Machine.run_cost_le Event.accepted 181 (fun _ => 1) (fun s : State => s.pc.stepsOwed)
    (fun _ _ _ h he => (step_owed h he).1) (fun _ _ _ h he => (step_owed h he).2.1) hs hrun
  rwa [List.map_const', List.sum_replicate_nat, Nat.mul_one] at hcost

theorem run_reads_le (hs : Patient s) (hrun : (netsockServer listenFd fds).run s es = some t) :
    t.pc.readsOwed + es.countP Event.isRead ≤
      s.pc.readsOwed + 176 * es.countP Event.accepted := by
  have hcost := Machine.run_cost_le Event.accepted 176 (fun e => if e.isRead then 1 else 0)
    (fun s : State => s.pc.readsOwed) (fun _ _ _ h he => (step_owed h he).1)
    (fun _ _ _ h he => (step_owed h he).2.2.1) hs hrun
  rwa [sum_map_ite] at hcost

theorem run_bytes_le (hs : Patient s) (hrun : (netsockServer listenFd fds).run s es = some t) :
    t.pc.bytesOwed + (es.map Event.moved).sum ≤
      s.pc.bytesOwed + 16 * es.countP Event.accepted :=
  Machine.run_cost_le Event.accepted 16 Event.moved (fun s : State => s.pc.bytesOwed)
    (fun _ _ _ h he => (step_owed h he).1) (fun _ _ _ h he => (step_owed h he).2.2.2) hs hrun

/-- What has happened since `s`. -/
theorem run_servesNothing (hs : Patient s) (hcalls : s.calls = [])
    (hpc : ∀ ret, s.pc ≠ .returned ret) (hrun : (netsockServer listenFd fds).run s es = some t) :
    t.dataEntity = s.dataEntity ∧ t.calls = [] ∧
    ∀ ret, t.pc = .returned ret → .listen false ∈ es ∨ .accept none ∈ es := by
  refine (Machine.run_history (I := fun es t => Patient t ∧ t.dataEntity = s.dataEntity ∧
    t.calls = [] ∧ ∀ ret, t.pc = .returned ret → .listen false ∈ es ∨ .accept none ∈ es)
    ?_ ⟨hs, rfl, hcalls, fun ret hret => absurd hret (hpc ret)⟩ hrun).2
  rintro es t e t' ⟨hpatient, hentity, hnone, -⟩ he
  obtain ⟨hentity', hnone', hreturned⟩ := step_servesNothing hpatient.1 he
  refine ⟨(step_owed hpatient he).1, hentity'.trans hentity, hnone' hnone, fun ret hret => ?_⟩
  obtain rfl | rfl := hreturned ret hret
  · exact .inl (List.mem_append_right _ (List.mem_singleton_self _))
  · exact .inr (List.mem_append_right _ (List.mem_singleton_self _))

/-- For every run of `create_netsock_server` once it listens, with any number of clients and
whatever they send: `protocol` is called for no message and nothing is stored into the buffer for
the data. For each connection the server takes no more than a head frame, in no more than 176 reads
and 181 steps, those until the next `accept` included. It returns only after `listen` or `accept`
failed. -/
theorem netsockServer_takesHeads (hs : (netsockServer listenFd fds).init s) (hcalls : s.calls = [])
    (hrun : (netsockServer listenFd fds).run s es = some t) :
    t.calls = [] ∧ t.dataEntity = s.dataEntity ∧
    (es.map Event.moved).sum ≤ 16 * es.countP Event.accepted ∧
    es.countP Event.isRead ≤ 176 * es.countP Event.accepted ∧
    es.length ≤ 181 * es.countP Event.accepted + 3 ∧
    ∀ ret, t.pc = .returned ret → .listen false ∈ es ∨ .accept none ∈ es := by
  have hpatient := patient_init hs
  have hpc : s.pc = .listenAgain := hs.2.2.2
  have hsteps := run_steps_le hpatient hrun
  have hreads := run_reads_le hpatient hrun
  have hbytes := run_bytes_le hpatient hrun
  obtain ⟨hentity, hnone, hreturned⟩ :=
    run_servesNothing hpatient hcalls (fun ret => by simp [hpc]) hrun
  simp only [hpc, NetsockPc.stepsOwed, NetsockPc.readsOwed, NetsockPc.bytesOwed, Nat.zero_add]
    at hsteps hreads hbytes
  exact ⟨hnone, hentity, by omega, by omega, by omega, hreturned⟩

/-- Two clients. The first one's message comes in two pieces, and the server leaves it with the
payload unread; the second one sends nothing, and then `listen` fails. -/
def twoClients : List Event :=
  [.local, .listen true, .accept (some (4, [1, 0, 0, 0, 0, 0, 0, 0, 0, 0, 0, 0, 1, 0, 0, 0, 65])),
    .read (.ok 7), .read (.ok 9), .local, .local, .local, .listen true, .accept (some (4, []))] ++
    List.replicate 11 (.read (.ok 0)) ++ [.local, .local, .local, .listen false]

theorem netsockServer_takesHeads_twoClients : ∃ t,
    (netsockServer 3 [3]).run listening twoClients = some t ∧ t.calls = [] ∧
    (twoClients.map Event.moved).sum ≤ 32 ∧ twoClients.countP Event.isRead ≤ 352 := by
  have hrun : ((netsockServer 3 [3]).run listening twoClients).isSome = true := by
    decide +kernel
  obtain ⟨t, ht⟩ := Option.isSome_iff_exists.mp hrun
  have hinit : (netsockServer 3 [3]).init listening := ⟨rfl, rfl, rfl, rfl⟩
  obtain ⟨hcalls, -, hbytes, hreads, -⟩ := netsockServer_takesHeads hinit rfl ht
  exact ⟨t, ht, hcalls, hbytes, hreads⟩

end ITrace.LinuxSocket
