import ITrace.Server.Proofs.Descriptors
import ITrace.Server.Proofs.Shutdown

/-!
# The clients in order

Every connection the parent accepts is forked for exactly once, before it accepts the next one,
and the child in the table is the one of the last connection forked for. What carries this is
that `conn_fd` is the last connection accepted as long as its fork is still to come.
-/

namespace ITrace.Server

variable {code : ServerCode} {fds : List Int} {s s' : State} {es : List Event}

/-- The connections `accept` returned. -/
def accepted (es : List Event) : List Int :=
  es.filterMap fun
    | .parent (.accept answer) => answer
    | _ => none

/-- What the calls of `fork` returned in the parent, `none` where they failed. -/
def forks (es : List Event) : List (Option Nat) :=
  es.filterMap fun
    | .parent (.fork answer) => some answer
    | _ => none

/-- Between the `accept` that returned a connection and the `fork` for it. -/
def MainPc.holdsClient : MainPc → Bool
  | .kill | .wait | .isAlive | .fork => true
  | _ => false

/-- The step is neither an `accept` that returned a connection nor a `fork`. -/
def Event.Idle : Event → Prop
  | .parent (.accept (some _)) | .parent (.fork _) => False
  | _ => True

theorem accepted_append_idle {e : Event} (h : e.Idle) : accepted (es ++ [e]) = accepted es := by
  simp only [accepted, List.filterMap_append, List.append_right_eq_self]
  cases e with
  | parent e =>
    cases e with
    | accept answer =>
      cases answer with
      | none => rfl
      | some fd => exact h.elim
    | _ => rfl
  | _ => rfl

theorem forks_append_idle {e : Event} (h : e.Idle) : forks (es ++ [e]) = forks es := by
  simp only [forks, List.filterMap_append, List.append_right_eq_self]
  cases e with
  | parent e =>
    cases e with
    | fork answer => exact h.elim
    | _ => rfl
  | _ => rfl

@[simp] theorem accepted_append_accept (fd : Int) :
    accepted (es ++ [.parent (.accept (some fd))]) = accepted es ++ [fd] := by
  simp [accepted]

@[simp] theorem forks_append_accept (fd : Int) :
    forks (es ++ [.parent (.accept (some fd))]) = forks es := by
  simp [forks]

@[simp] theorem accepted_append_fork (answer : Option Nat) :
    accepted (es ++ [.parent (.fork answer)]) = accepted es := by
  simp [accepted]

@[simp] theorem forks_append_fork (answer : Option Nat) :
    forks (es ++ [.parent (.fork answer)]) = forks es ++ [answer] := by
  simp [forks]

/-! ### The invariant -/

/-- The connections and the forks of the events so far go together one by one. -/
structure Served (es : List Event) (s : State) : Prop where
  count : (forks es).length + (if s.parent.main.holdsClient then 1 else 0) = (accepted es).length
  pending : s.parent.main.holdsClient = true →
    (accepted es).getLast? = some s.parent.connFd
  child : ∀ c ∈ s.children,
    ((accepted es).zip (forks es)).getLast? = some (c.proc.connFd, some c.pid) ∧
    (c.zombie = false → c.proc.connFd ∈ c.proc.fds)
  stays : ∀ fd ∈ accepted es, fd ∈ s.parent.fds
  nodup : (accepted es).Nodup

/-- Every child of `s'` is one of `s`, with its connection as it was as long as it is alive. -/
def KeepsConn (s s' : State) : Prop :=
  ∀ c ∈ s'.children, ∃ d ∈ s.children, c.pid = d.pid ∧ c.proc.connFd = d.proc.connFd ∧
    (c.zombie = false → d.zombie = false ∧ d.proc.fds ⊆ c.proc.fds)

theorem KeepsConn.refl (s : State) : KeepsConn s s :=
  fun c hc => ⟨c, hc, rfl, rfl, fun hlive => ⟨hlive, List.Subset.refl _⟩⟩

theorem Inherited.keepsConn (h : Inherited s s') : KeepsConn s s' := by
  intro c hc
  obtain ⟨d, hd, hpid, hz, hproc⟩ := h c hc
  refine ⟨d, hd, hpid, ?_⟩
  rw [hz]
  rcases hproc with hproc | hproc <;> rw [hproc] <;>
    exact ⟨rfl, fun hlive => ⟨hlive, List.Subset.refl _⟩⟩

/-- A step of a child alone, where the step keeps `conn_fd`, and closes nothing but by ending the
child. -/
theorem OneWorker.keepsConn (hone : OneWorker s) {pid : Nat}
    {step : Proc → Option After} (hs : s.childStep pid step = some s')
    (hstep : ∀ p q, step p = some (.goesOn q) → q.connFd = p.connFd ∧ p.fds ⊆ q.fds)
    (hexit : ∀ p q, step p = some (.exits q) → q.connFd = p.connFd) :
    KeepsConn s s' := by
  obtain ⟨c, r, hcs, -, hlive, hr, rfl⟩ := hone.childStep_cases hs
  intro d hd
  rw [List.mem_singleton.mp hd]
  refine ⟨c, by simp [hcs], after_pid c r, ?_⟩
  cases r with
  | goesOn q =>
    obtain ⟨hconn, hfds⟩ := hstep c.proc q hr
    exact ⟨hconn, fun _ => ⟨hlive, hfds⟩⟩
  | exits q => exact ⟨hexit c.proc q hr, fun hz => by cases hz⟩

theorem Served.idle (h : Served es s) {e : Event} (he : e.Idle)
    (hmain : s'.parent.main.holdsClient = s.parent.main.holdsClient)
    (hconn : s.parent.main.holdsClient = true → s'.parent.connFd = s.parent.connFd)
    (hfds : s.parent.fds ⊆ s'.parent.fds) (hchildren : KeepsConn s s') :
    Served (es ++ [e]) s' := by
  refine ⟨?_, ?_, ?_, ?_, ?_⟩
  · rw [accepted_append_idle he, forks_append_idle he, hmain]
    exact h.count
  · intro hholds
    rw [hmain] at hholds
    rw [accepted_append_idle he, hconn hholds]
    exact h.pending hholds
  · intro c hc
    obtain ⟨d, hd, hpid, hcconn, hcfds⟩ := hchildren c hc
    obtain ⟨hlast, hopen⟩ := h.child d hd
    rw [accepted_append_idle he, forks_append_idle he, hpid, hcconn]
    refine ⟨hlast, fun hlive => ?_⟩
    obtain ⟨hdlive, hsubset⟩ := hcfds hlive
    exact hsubset (hopen hdlive)
  · rw [accepted_append_idle he]
    exact fun fd hfd => hfds (h.stays fd hfd)
  · rw [accepted_append_idle he]
    exact h.nodup

theorem Served.not_holding (h : Served es s) (hmain : s.parent.main.holdsClient = false) :
    (forks es).length = (accepted es).length := by
  simpa [hmain] using h.count

/-- A connection that `accept` returned. -/
theorem Served.accept (h : Served es s) (hpc : s.parent.main = .accept) {fd : Int}
    (hfresh : s.parent.Fresh fd) :
    Served (es ++ [.parent (.accept (some fd))])
      { s with parent.connFd := fd, parent.fds := fd :: s.parent.fds,
               parent.main := if s.parent.childPid > 0 then .kill else .fork } := by
  have hcount := h.not_holding (by rw [hpc]; rfl)
  have hholds : (if s.parent.childPid > 0 then MainPc.kill else .fork).holdsClient = true := by
    split <;> rfl
  refine ⟨?_, ?_, ?_, ?_, ?_⟩
  · simp [hholds, hcount]
  · intro _
    simp
  · intro c hc
    -- the new connection has no fork to go with it yet
    have hzip : (accepted es ++ [fd]).zip (forks es) = (accepted es).zip (forks es) := by
      have happend := @List.zip_append _ _ (accepted es) [fd] (forks es) [] hcount.symm
      simpa using happend
    rw [accepted_append_accept, forks_append_accept, hzip]
    exact h.child c hc
  · intro d hd
    rw [accepted_append_accept, List.mem_append, List.mem_singleton] at hd
    rcases hd with hd | rfl
    · exact List.mem_cons_of_mem _ (h.stays d hd)
    · exact List.mem_cons_self
  · rw [accepted_append_accept]
    refine List.nodup_append.mpr ⟨h.nodup, by simp, ?_⟩
    rintro a ha b hb rfl
    rw [List.mem_singleton] at hb
    subst hb
    exact hfresh.2 (h.stays a ha)

/-- A `fork`, and what it answered. -/
theorem Served.zip_fork (h : Served es s) (hmain : s.parent.main.holdsClient = true)
    (answer : Option Nat) : ∃ earlier,
    (accepted es).zip (forks es ++ [answer]) = earlier ++ [(s.parent.connFd, answer)] := by
  obtain ⟨earlier, hearlier⟩ := List.getLast?_eq_some_iff.mp (h.pending hmain)
  have hcount := h.count
  rw [hmain, hearlier, List.length_append] at hcount
  refine ⟨earlier.zip (forks es), ?_⟩
  rw [hearlier, List.zip_append (by simpa using hcount.symm)]
  rfl

theorem Served.fork (h : Served es s) (hmain : s.parent.main.holdsClient = true)
    {answer : Option Nat} {s' : State} (hparent : s'.parent.main = .closeConn)
    (hfds : s'.parent.fds = s.parent.fds)
    (hchildren : ∀ c ∈ s'.children, answer = some c.pid ∧ c.proc.connFd = s.parent.connFd ∧
      c.proc.fds = s.parent.fds) : Served (es ++ [.parent (.fork answer)]) s' := by
  have hcount := h.count
  rw [hmain] at hcount
  refine ⟨?_, ?_, ?_, ?_, ?_⟩
  · rw [accepted_append_fork, forks_append_fork, hparent]
    simpa [MainPc.holdsClient] using hcount
  · intro hholds
    rw [hparent] at hholds
    cases hholds
  · intro c hc
    obtain ⟨rfl, hconn, hcfds⟩ := hchildren c hc
    obtain ⟨earlier, hzip⟩ := h.zip_fork hmain (some c.pid)
    rw [accepted_append_fork, forks_append_fork, hzip, hconn, hcfds]
    exact ⟨by simp, fun _ => h.stays _ (List.mem_of_getLast? (h.pending hmain))⟩
  · rw [accepted_append_fork, hfds]
    exact h.stays
  · rw [accepted_append_fork]
    exact h.nodup

/-! ### Steps -/

theorem acceptLoop_served {e : ParentEvent} (hone : OneWorker s) (h : Served es s)
    (he : acceptLoop code s e = some s') : Served (es ++ [.parent e]) s' := by
  cases acceptLoop_move he with
  | noSocket hpc | createClear hpc | createClearFails hpc =>
    refine h.idle trivial ?_ (fun _ => rfl) (List.Subset.refl _) (.refl s)
    rw [hpc]
    rfl
  | socket hpc =>
    refine h.idle trivial ?_ (fun _ => rfl) (List.subset_cons_self _ _) (.refl s)
    rw [hpc]
    rfl
  | listen hpc ok =>
    refine h.idle trivial ?_ (fun _ => rfl) (List.Subset.refl _) (.refl s)
    rw [hpc]
    cases ok <;> rfl
  | acceptFails hpc =>
    refine h.idle trivial ?_ ?_ (List.Subset.refl _) (.refl s)
    · rw [hpc]
      simp only
      split
      · rfl
      · split <;> rfl
    · rw [hpc]
      rintro ⟨⟩
  | accept hpc hfresh => exact h.accept hpc hfresh
  | kill hpc =>
    refine h.idle trivial ?_ (fun _ => rfl) (List.Subset.refl _)
      (inherited_kill s s.parent.childPid).keepsConn
    rw [hpc]
    rfl
  | wait hpc hu =>
    obtain ⟨hparent, -⟩ := wait_parent hu
    refine h.idle trivial ?_ ?_ ?_ (inherited_wait hu).keepsConn
    · rw [hpc]
      rfl
    · simp [hparent]
    · simp [hparent]
  | isAlive hpc =>
    refine h.idle trivial ?_ (fun _ => rfl) (List.Subset.refl _) (.refl s)
    rw [hpc]
    simp only
    split <;> rfl
  | forkFails hpc =>
    refine h.fork (by rw [hpc]; rfl) rfl rfl fun c hc => ?_
    rw [show s.children = [] from hone.fork hpc] at hc
    cases hc
  | fork hpc =>
    refine h.fork (by rw [hpc]; rfl) rfl rfl fun c hc => ?_
    rw [show s.children = [] from hone.fork hpc, List.nil_append, List.mem_singleton] at hc
    subst hc
    exact ⟨rfl, rfl, rfl⟩
  | closeConn hpc =>
    refine h.idle trivial ?_ ?_ (List.Subset.refl _) (.refl s)
    · rw [hpc]
      simp only
      split <;> rfl
    · rw [hpc]
      rintro ⟨⟩
  | closeListen hpc =>
    refine h.idle trivial ?_ (fun _ => rfl) (List.Subset.refl _) (.refl s)
    rw [hpc]
    rfl

theorem parentClear_served {ct : ClearThread} {e : ClearEvent} (h : Served es s)
    (he : parentClear code s ct e = some s') : Served (es ++ [.parentClear e]) s' := by
  have hkeeps := (parentClear_children he).keepsConn
  cases parentClear_move he with
  | kill | exit => exact h.idle trivial rfl (fun _ => rfl) (List.Subset.refl _) hkeeps
  | wait _ hu =>
    obtain ⟨hparent, -⟩ := wait_parent hu
    refine h.idle trivial ?_ ?_ ?_ hkeeps <;> simp [hparent]
  | own hp =>
    obtain ⟨hmain, -, -, hfds, -, hconn, -⟩ := clearStep_main hp
    exact h.idle trivial (congrArg _ hmain) (fun _ => hconn) (by simp [hfds]) hkeeps

/-- A step of a child keeps its connection, and closes nothing. -/
theorem childMain_keepsConn {p q : Proc} {answer : InitAnswer}
    (h : p.mainStep answer = some (.goesOn q)) : q.connFd = p.connFd ∧ p.fds ⊆ q.fds := by
  obtain ⟨op, onFail, rest, -, h⟩ := mainStep_cases h
  obtain ⟨hconn, ⟨-, -, hfds, -⟩ | ⟨-, -, -, ⟨new, hfds, -⟩, -⟩⟩ := initStep_fds h
  · exact ⟨hconn, by rw [hfds]; exact List.Subset.refl _⟩
  · exact ⟨hconn, by rw [hfds]; exact List.subset_append_right new p.fds⟩

theorem step_served {e : Event} (hone : OneWorker s) (h : Served es s)
    (he : (server code fds).step s e = some s') : Served (es ++ [e]) s' := by
  have hchild : ∀ {pid : Nat} {step : Proc → Option After}, e.Idle →
      s.childStep pid step = some s' →
      (∀ p q, step p = some (.goesOn q) → q.connFd = p.connFd ∧ p.fds ⊆ q.fds) →
      (∀ p q, step p = some (.exits q) → q.connFd = p.connFd) → Served (es ++ [e]) s' := by
    intro pid step hidle hs hstep hexit
    have hparent := (childStep_parent hs).1
    refine h.idle hidle (by rw [hparent]) (fun _ => by rw [hparent]) ?_
      (hone.keepsConn hs hstep hexit)
    rw [hparent]
    exact List.Subset.refl _
  cases server_move he with
  | parent _ he => exact acceptLoop_served hone h he
  | parentClear _ he => exact parentClear_served h he
  | parentSignal => exact h.idle trivial rfl (fun _ => rfl) (List.Subset.refl _) (.refl s)
  | parentHandler => exact h.idle trivial rfl (fun _ => rfl) (List.Subset.refl _) (.refl s)
  | kill pid =>
    exact h.idle trivial rfl (fun _ => rfl) (List.Subset.refl _)
      (inherited_kill s pid).keepsConn
  | child he =>
    refine hchild trivial he (fun _ _ => childMain_keepsConn) fun p q hq => ?_
    obtain ⟨op, onFail, rest, -, hq⟩ := mainStep_cases hq
    obtain ⟨-, -, hconn, -⟩ := initStep_exits hq
    exact hconn
  | childClear he =>
    refine hchild trivial he (fun p q hq => ?_) fun p q hq => ?_ <;>
      obtain ⟨ct, -, hq⟩ := Option.bind_eq_some_iff.mp hq
    · obtain ⟨-, -, -, hfds, -, hconn, -⟩ := clearStep_main hq
      exact ⟨hconn, by rw [hfds]; exact List.Subset.refl _⟩
    · cases clearStep_move hq
      rfl
  | childExit he =>
    refine hchild trivial he (fun p q hq => by cases hq) fun p q hq => ?_
    cases hq
    rfl
  | childHandler he =>
    refine hchild trivial he (fun p q hq => ?_) fun p q hq => ?_ <;>
      obtain ⟨-, hq⟩ := Option.ite_none_right_eq_some.mp hq <;> cases hq
    exact ⟨rfl, List.Subset.refl _⟩

theorem served_startState (fds : List Int) : Served [] (startState fds) := by
  refine ⟨rfl, ?_, ?_, ?_, List.nodup_nil⟩
  · rintro ⟨⟩
  · intro c hc
    cases hc
  · intro fd hfd
    cases hfd

theorem run_served (hrun : (server code fds).run (startState fds) es = some s) : Served es s := by
  have h := (server code fds).run_history (I := fun es s => OneWorker s ∧ Served es s)
    (fun es s e s' h he => ⟨step_oneWorker h.1 he, step_served h.1 h.2 he⟩)
    ⟨oneWorker_startState fds, served_startState fds⟩ hrun
  exact h.2

/-- In every run of either server no two clients get the same descriptor, each connection accepted
is forked for once and in order, with at most the last one still to come, and the child in the
table, alive or a zombie, is the answer to the last of these forks, for the connection it has in
its `conn_fd`. While the child is alive, and its clear thread has not come to the loop that closes
the descriptors, this connection is open in it. -/
theorem server_servesInOrder (hrun : (server code fds).run (startState fds) es = some s) :
    (accepted es).Nodup ∧
    (forks es).length + (if s.parent.main.holdsClient then 1 else 0) = (accepted es).length ∧
    (s.parent.main.holdsClient = true → (accepted es).getLast? = some s.parent.connFd) ∧
    ∀ c ∈ s.children,
      ((accepted es).zip (forks es)).getLast? = some (c.proc.connFd, some c.pid) ∧
      (c.zombie = false → (∀ ct ∈ c.proc.clear, ct.pc ≠ .close) →
        c.proc.connFd ∈ c.proc.fds) := by
  have h := run_served hrun
  refine ⟨h.nodup, h.count, h.pending, fun c hc => ?_⟩
  obtain ⟨hlast, hopen⟩ := h.child c hc
  exact ⟨hlast, fun hlive _ => hopen hlive⟩

/-- The second client of `threeClients`, whose child has its descriptor 5; the first fork failed. -/
theorem server_servesInOrder_threeClients : ∃ s c,
    (server createCmdStatusTransServer [0, 1, 2]).run (startState [0, 1, 2])
      (threeClients.take 9) = some s ∧ s.children = [c] ∧
    ((accepted (threeClients.take 9)).zip (forks (threeClients.take 9))).getLast? =
      some (c.proc.connFd, some c.pid) ∧ c.proc.connFd = 5 := by
  have hrun : ((server createCmdStatusTransServer [0, 1, 2]).run (startState [0, 1, 2])
      (threeClients.take 9)).map (fun s => s.children.map fun c => c.proc.connFd) =
        some [5] := by decide +kernel
  obtain ⟨s, hs, hconn⟩ := Option.map_eq_some_iff.mp hrun
  obtain ⟨c, hcs, hc⟩ := List.map_eq_singleton_iff.mp hconn
  obtain ⟨hlast, -⟩ := (server_servesInOrder hs).2.2.2 c (hcs ▸ List.mem_singleton_self c)
  exact ⟨s, c, hs, hcs, hlast, hc⟩

end ITrace.Server
