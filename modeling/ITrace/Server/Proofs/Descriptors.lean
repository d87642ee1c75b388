import ITrace.Server.Proofs.OneWorker

/-!
# Open descriptors

What each process should have open at each point of the accept loop and of the child's
initialisation. `accept`, `open` and `pipe` keep to it; `close_fd`, which closes nothing, does
not. A child that calls it only to exit right after shows that in the table the call left.
-/

namespace ITrace.Server

variable {code : ServerCode} {fds : List Int} {s s' t : State} {es : List Event}

/-- What the parent should have open, besides the descriptors `fds` it started with. -/
def parentFds (fds : List Int) (p : Proc) : List Int :=
  match p.main with
  | .createSrvNetsock | .init _ | .pause => fds
  | .listen | .accept | .createClear | .exitCloseListen => p.listenFd :: fds
  | .kill | .wait | .isAlive | .fork | .closeConn => p.connFd :: p.listenFd :: fds

/-- The call `close_fd(1, &listen_fd)` of the child is still to come. -/
def MainPc.closeAhead : MainPc → Bool
  | .init todo => (todo.map Prod.fst).contains .closeListen
  | _ => false

/-- What a child should have open: what it opened itself, its connection, and `listen_fd` until
it comes to the call that closes it. -/
def childFds (fds : List Int) (p : Proc) : List Int :=
  p.own ++ p.connFd :: if p.main.closeAhead then p.listenFd :: fds else fds

/-- Every call of `close_fd` the process made closed its descriptor. -/
def Proc.Released (p : Proc) : Prop := ∀ call ∈ p.closeCalls, call.fd ∉ call.left

/-- Every process has open what it should have open, and every call of `close_fd` closed its
descriptor. -/
def Conserved (fds : List Int) (s : State) : Prop :=
  (s.parent.fds.Perm (parentFds fds s.parent) ∧ s.parent.Released) ∧
  ∀ c ∈ s.children, (c.zombie = false → c.proc.fds.Perm (childFds fds c.proc)) ∧ c.proc.Released

/-- The step is no call of `close_fd`, be it in an error branch, and no jump over one. -/
def NoCloseFd (s : State) : Event → Prop
  | .parent .closeFd => False
  | .child pid answer => answer ≠ .closed ∧
      (answer.failed = true → ∀ c ∈ s.children, c.pid = pid → c.proc.onFail.exits = false ∧
        (c.proc.onFail = .gotoExit → c.proc.main.closeAhead = false))
  | _ => True

instance (p : Proc) : Decidable p.Released :=
  inferInstanceAs (Decidable (∀ call ∈ p.closeCalls, _))

instance (fds : List Int) (s : State) : Decidable (Conserved fds s) :=
  inferInstanceAs (Decidable (_ ∧ ∀ c ∈ s.children, _))

instance (s : State) : (e : Event) → Decidable (NoCloseFd s e)
  | .parent .closeFd => isFalse id
  | .child pid answer => inferInstanceAs (Decidable (answer ≠ .closed ∧
      (answer.failed = true → ∀ c ∈ s.children, c.pid = pid → c.proc.onFail.exits = false ∧
        (c.proc.onFail = .gotoExit → c.proc.main.closeAhead = false))))
  | .parent (.netsock _) | .parent (.listen _) | .parent (.accept _) | .parent .kill
  | .parent (.wait _) | .parent (.isAlive _) | .parent (.fork _) | .parent (.createThread _)
  | .parentClear _ | .childClear _ _ | .childExit _ | .sigint _ | .sigHandler _ => isTrue trivial

/-! ### The parent -/

theorem not_perm_of_length_ne {l₁ l₂ l₃ : List Int} (h : l₁.Perm l₂)
    (hlen : l₃.length ≠ l₂.length) : ¬ l₁.Perm l₃ :=
  fun h' => hlen (h'.length_eq.symm.trans h.length_eq)

theorem not_perm_of_perm_cons {a : Int} {l₁ l₂ : List Int} (h : l₁.Perm (a :: l₂)) :
    ¬ l₁.Perm l₂ :=
  not_perm_of_length_ne h (by simp)

/-- A step of the parent keeps to what it should have open, unless it calls `close_fd`. -/
theorem acceptLoop_fds_iff {e : ParentEvent}
    (h : s.parent.fds.Perm (parentFds fds s.parent)) (he : acceptLoop code s e = some s') :
    s'.parent.fds.Perm (parentFds fds s'.parent) ↔ NoCloseFd s (.parent e) := by
  cases acceptLoop_move he with
  | noSocket hpc | kill hpc | forkFails hpc | fork hpc | createClear hpc
  | createClearFails hpc =>
    simp only [parentFds, hpc] at h
    exact iff_of_true h trivial
  | socket hpc =>
    simp only [parentFds, hpc] at h
    exact iff_of_true (h.cons _) trivial
  | listen hpc ok =>
    simp only [parentFds, hpc] at h
    cases ok <;> exact iff_of_true h trivial
  | acceptFails hpc =>
    simp only [parentFds, hpc] at h
    refine iff_of_true ?_ trivial
    by_cases hstop : s.parent.hasClearThread = false ∧ s.parent.sysStatus = .stop
    · simpa only [parentFds, hstop, and_self, if_true] using h
    · by_cases hlisten : s.parent.listenFd > 0
      · simpa only [parentFds, hstop, hlisten, if_false, if_true] using h
      · simpa only [parentFds, hstop, hlisten, if_false] using h
  | accept hpc =>
    simp only [parentFds, hpc] at h
    refine iff_of_true ?_ trivial
    by_cases hpid : s.parent.childPid > 0
    · simpa only [parentFds, hpid, if_true] using h.cons _
    · simpa only [parentFds, hpid, if_false] using h.cons _
  | wait hpc hu =>
    simp only [parentFds, hpc] at h
    rw [(wait_parent hu).1]
    exact iff_of_true h trivial
  | @isAlive hpc answer =>
    simp only [parentFds, hpc] at h
    refine iff_of_true ?_ trivial
    by_cases halive : isProcessAlive answer = 1
    · simpa only [parentFds, halive, if_true] using h
    · simpa only [parentFds, halive, if_false] using h
  -- the connection stays open
  | closeConn hpc =>
    simp only [parentFds, hpc] at h
    refine iff_of_false ?_ id
    cases s.parent.hasClearThread <;> exact not_perm_of_perm_cons h
  | closeListen hpc =>
    simp only [parentFds, hpc] at h
    exact iff_of_false (not_perm_of_perm_cons h) id

/-! ### The child -/

/-- The process opened the device. -/
def Proc.HasDevice (p : Proc) : Prop := 0 < p.devFd ∧ p.devFd ∈ p.fds

/-- What a step of the initialisation that does not end the process does to its descriptors. -/
theorem initStep_fds {p q : Proc} {op : InitOp} {onFail : OnFail}
    {rest : List (InitOp × OnFail)} {answer : InitAnswer}
    (h : p.initStep op onFail rest answer = some (.goesOn q)) :
    q.connFd = p.connFd ∧
    (answer = .closed ∧ op = .closeListen ∧ q.fds = p.fds ∧ q.own = p.own ∧
        q.main = initPc rest ∨
      answer ≠ .closed ∧ op ≠ .closeListen ∧ q.listenFd = p.listenFd ∧
        (∃ new, q.fds = new ++ p.fds ∧ q.own = new ++ p.own) ∧
        q.main = if answer.failed = true ∧ onFail = .gotoExit then .pause else initPc rest) := by
  generalize hr : After.goesOn q = r at h
  cases initStep_move h with
  | failed hfailed hop new =>
    rw [(initFailed_cases hr.symm).2]
    refine ⟨rfl, .inr ⟨?_, hop, rfl, ⟨new, rfl, rfl⟩, by simp [hfailed]⟩⟩
    rintro rfl
    cases hfailed
  | done hok hclosed hop _ new devFd =>
    cases hr
    exact ⟨rfl, .inr ⟨hclosed, hop, rfl, ⟨new, rfl, rfl⟩, by simp [hok]⟩⟩
  | closed hop =>
    cases hr
    exact ⟨rfl, .inl ⟨rfl, hop, rfl, rfl, rfl⟩⟩
  | created hop =>
    cases hr
    exact ⟨rfl, .inr ⟨by simp, by simp [hop], rfl, ⟨[], rfl, rfl⟩, by simp [InitAnswer.failed]⟩⟩

/-- What a step of the initialisation does to `devFd`. -/
theorem initStep_devFd {p q : Proc} {op : InitOp} {onFail : OnFail}
    {rest : List (InitOp × OnFail)} {answer : InitAnswer}
    (h : p.initStep op onFail rest answer = some (.goesOn q)) :
    (q.devFd = p.devFd ∧ (op = .openDevice → answer.failed = true)) ∨ q.HasDevice := by
  unfold Proc.initStep at h
  split at h
  case h_1 =>
    rw [(initFailed_cases (Option.some.inj h)).2]
    exact .inl ⟨rfl, fun _ => rfl⟩
  case h_2 fd =>
    obtain ⟨-, h⟩ := Option.ite_none_right_eq_some.mp h
    by_cases hneg : fd ≤ 0
    · simp only [hneg, if_true] at h
      rw [(initFailed_cases (Option.some.inj h)).2]
      exact .inl ⟨rfl, fun _ => by simpa [InitAnswer.failed] using hneg⟩
    · simp only [hneg, if_false] at h
      cases h
      exact .inr ⟨Int.not_le.mp hneg, List.mem_cons_self⟩
  case h_3 =>
    cases h
    exact .inl ⟨rfl, by simp⟩
  case h_5 =>
    obtain ⟨-, h⟩ := Option.ite_none_right_eq_some.mp h
    cases h
    exact .inl ⟨rfl, by simp⟩
  case h_6 | h_7 | h_8 | h_9 | h_10 =>
    cases h
    exact .inl ⟨rfl, by simp⟩
  case h_16 => cases h
  all_goals
    rw [(initFailed_cases (Option.some.inj h)).2]
    exact .inl ⟨rfl, by simp⟩

@[simp] theorem closeAhead_initPc (rest : List (InitOp × OnFail)) :
    (initPc rest).closeAhead = (rest.map Prod.fst).contains .closeListen := by
  cases rest <;> rfl

/-- The initialisation that is left calls `close_fd` for `listen_fd` once at most, and for the device
only if the device is open. -/
structure ClosesOnce (p : Proc) : Prop where
  once : ∀ todo, p.main = .init todo → (todo.map Prod.fst).count .closeListen ≤ 1
  opened : ∀ todo, p.main = .init todo → OpensFirst todo ∨ p.devFd ∈ p.fds

/-- At a step whose error branch is to close the device, the device is open. -/
theorem ClosesOnce.device {p : Proc} {op : InitOp} {onFail : OnFail}
    {rest : List (InitOp × OnFail)} (h : ClosesOnce p)
    (hmain : p.main = .init ((op, onFail) :: rest)) (hexits : onFail.exits = true) : p.devFd ∈ p.fds := by
  refine (h.opened _ hmain).resolve_left ?_
  rintro (⟨-, rfl⟩ | ⟨hexits', -⟩)
  · cases hexits
  · rw [hexits] at hexits'
    cases hexits'

theorem initStep_perm_iff {p q : Proc} {op : InitOp} {onFail : OnFail}
    {rest : List (InitOp × OnFail)} {answer : InitAnswer}
    (hmain : p.main = .init ((op, onFail) :: rest)) (honce : ClosesOnce p)
    (hperm : p.fds.Perm (childFds fds p))
    (h : p.initStep op onFail rest answer = some (.goesOn q)) :
    q.fds.Perm (childFds fds q) ↔ answer ≠ .closed ∧
      (answer.failed = true → onFail = .gotoExit → p.main.closeAhead = false) := by
  obtain ⟨hconn, hcases⟩ := initStep_fds h
  rcases hcases with ⟨rfl, rfl, hfds, hown, hq⟩ | ⟨hclosed, hop, hlisten, ⟨new, hfds, hown⟩, hq⟩
  · have hahead : p.main.closeAhead = true := by simp [hmain, MainPc.closeAhead]
    have hcount := honce.once _ hmain
    have hdone : q.main.closeAhead = false := by
      rw [hq, closeAhead_initPc]
      simpa [List.count_eq_zero] using hcount
    refine iff_of_false ?_ (fun h => h.1 rfl)
    rw [hfds]
    refine not_perm_of_length_ne hperm ?_
    simp [childFds, hahead, hdone, hown]
  · have hsame : p.main.closeAhead = (rest.map Prod.fst).contains .closeListen := by
      simp [hmain, MainPc.closeAhead, Ne.symm hop]
    have hq' : q.fds.Perm (childFds fds q) ↔ p.fds.Perm (p.own ++ p.connFd ::
        if q.main.closeAhead then p.listenFd :: fds else fds) := by
      rw [childFds, hfds, hown, hconn, hlisten, List.append_assoc, List.perm_append_left_iff]
    rw [hq', and_iff_right hclosed]
    by_cases hgoto : answer.failed = true ∧ onFail = .gotoExit
    · rw [if_pos hgoto] at hq
      cases hahead : p.main.closeAhead with
      | false =>
        rw [childFds, hahead] at hperm
        exact iff_of_true (by rw [hq]; exact hperm) fun _ _ => rfl
      | true =>
        have hdone : q.main.closeAhead = false := by rw [hq]; rfl
        refine iff_of_false ?_ fun h => by cases h hgoto.1 hgoto.2
        refine not_perm_of_length_ne hperm ?_
        simp [childFds, hahead, hdone]
    · rw [if_neg hgoto] at hq
      refine iff_of_true ?_ fun hfailed honfail => absurd ⟨hfailed, honfail⟩ hgoto
      rw [hq, closeAhead_initPc, ← hsame]
      exact hperm

/-- A step of the initialisation leaves the process at a later part of it, or past it. -/
theorem initStep_main {p q : Proc} {op : InitOp} {onFail : OnFail}
    {rest : List (InitOp × OnFail)} {answer : InitAnswer}
    (h : p.initStep op onFail rest answer = some (.goesOn q)) {todo : List (InitOp × OnFail)}
    (htodo : q.main = .init todo) : todo = rest := by
  have hq : q.main = .pause ∨ q.main = initPc rest := by
    obtain ⟨-, ⟨-, -, -, -, hq⟩ | ⟨-, -, -, -, hq⟩⟩ := initStep_fds h
    · exact .inr hq
    · rw [hq]
      split
      · exact .inl rfl
      · exact .inr rfl
  rcases hq with hq | hq <;> rw [hq] at htodo
  · cases htodo
  · cases rest with
    | nil => cases htodo
    | cons next rest =>
      cases htodo
      rfl

theorem initStep_closesOnce {p q : Proc} {op : InitOp} {onFail : OnFail}
    {rest : List (InitOp × OnFail)} {answer : InitAnswer}
    (hmain : p.main = .init ((op, onFail) :: rest)) (honce : ClosesOnce p)
    (h : p.initStep op onFail rest answer = some (.goesOn q)) : ClosesOnce q := by
  constructor
  · intro todo htodo
    rw [initStep_main h htodo]
    refine Nat.le_trans ?_ (honce.once _ hmain)
    rw [List.map_cons, List.count_cons]
    exact Nat.le_add_right _ _
  · intro todo htodo
    have hrest := initStep_main h htodo
    have hkept : q.devFd = p.devFd → p.devFd ∈ p.fds → q.devFd ∈ q.fds := by
      intro hdev hopen
      rw [hdev]
      obtain ⟨-, ⟨-, -, hfds, -⟩ | ⟨-, -, -, ⟨new, hfds, -⟩, -⟩⟩ := initStep_fds h
      · rwa [hfds]
      · rw [hfds]
        exact List.mem_append_right new hopen
    rcases initStep_devFd h with ⟨hdev, hfailed⟩ | hq
    · rcases honce.opened _ hmain with (⟨rfl, rfl⟩ | ⟨-, hopens⟩) | hopen
      -- the device could not be opened, so the process is past its initialisation
      · obtain ⟨-, ⟨-, hop, -⟩ | ⟨-, -, -, -, hq⟩⟩ := initStep_fds h
        · cases hop
        · rw [if_pos ⟨hfailed rfl, rfl⟩, htodo] at hq
          cases hq
      · rw [hrest]
        exact .inl hopens
      · exact .inr (hkept hdev hopen)
    · exact .inr hq.2

/-- What carries the descriptors through a run. -/
structure Tables (s : State) : Prop where
  one : OneWorker s
  once : ∀ c ∈ s.children, c.zombie = false → ClosesOnce c.proc

theorem Inherited.once (h : Inherited s s')
    (honce : ∀ c ∈ s.children, c.zombie = false → ClosesOnce c.proc) :
    ∀ c ∈ s'.children, c.zombie = false → ClosesOnce c.proc := by
  intro c hc hlive
  obtain ⟨d, hd, -, hz, hproc⟩ := h c hc
  have hd' := honce d hd (hz ▸ hlive)
  rcases hproc with hproc | hproc <;> rw [hproc] <;> exact ⟨hd'.once, hd'.opened⟩

theorem Tables.childStep (h : Tables s) {pid : Nat} {step : Proc → Option After}
    (hs : s.childStep pid step = some s')
    (hstep : ∀ p q, ClosesOnce p → step p = some (.goesOn q) → ClosesOnce q) : Tables s' := by
  refine ⟨h.one.childStep hs, ?_⟩
  obtain ⟨c, r, hcs, -, hlive, hr, rfl⟩ := h.one.childStep_cases hs
  have hc := h.once c (by simp [hcs]) hlive
  intro d hd hz
  rw [List.mem_singleton.mp hd] at hz ⊢
  cases r with
  | goesOn q => exact hstep c.proc q hc hr
  | exits q => cases hz

theorem ClosesOnce.of_main {p q : Proc} (h : ClosesOnce p) (hmain : q.main = p.main)
    (hdev : q.devFd = p.devFd) (hfds : q.fds = p.fds) : ClosesOnce q := by
  constructor
  · intro todo htodo
    exact h.once todo (hmain ▸ htodo)
  · intro todo htodo
    rw [hdev, hfds]
    exact h.opened todo (hmain ▸ htodo)

theorem acceptLoop_once {e : ParentEvent}
    (honce : ∀ c ∈ s.children, c.zombie = false → ClosesOnce c.proc)
    (he : acceptLoop code s e = some s') :
    ∀ c ∈ s'.children, c.zombie = false → ClosesOnce c.proc := by
  rcases acceptLoop_children he with hinherited | ⟨-, pid, hcs⟩
  · exact hinherited.once honce
  · intro c hc hlive
    rw [hcs] at hc
    rcases List.mem_append.mp hc with hc | hc
    · exact honce c hc hlive
    · rw [List.mem_singleton.mp hc]
      constructor
      · intro todo htodo
        rw [forked_main] at htodo
        cases htodo
        exact Nat.le_of_eq code.init_closes
      · intro todo htodo
        rw [forked_main] at htodo
        cases htodo
        exact .inl code.init_opens

theorem step_tables {e : Event} (h : Tables s) (he : (server code fds).step s e = some s') :
    Tables s' := by
  have hone := step_oneWorker h.one he
  cases server_move he with
  | parent _ he => exact ⟨hone, acceptLoop_once h.once he⟩
  | parentClear _ he => exact ⟨hone, (parentClear_children he).once h.once⟩
  | parentSignal => exact ⟨hone, h.once⟩
  | parentHandler => exact ⟨hone, h.once⟩
  | kill pid => exact ⟨hone, (inherited_kill s pid).once h.once⟩
  | child he =>
    refine h.childStep he fun p q honce hq => ?_
    obtain ⟨op, onFail, rest, hmain, hq⟩ := mainStep_cases hq
    exact initStep_closesOnce hmain honce hq
  | childClear he =>
    refine h.childStep he fun p q honce hq => ?_
    obtain ⟨ct, -, hq⟩ := Option.bind_eq_some_iff.mp hq
    obtain ⟨hmain, -, hdev, hfds, -⟩ := clearStep_main hq
    exact honce.of_main hmain hdev hfds
  | childExit he => exact h.childStep he fun p q _ hq => by cases hq
  | childHandler he =>
    refine h.childStep he fun p q honce hq => ?_
    obtain ⟨-, hq⟩ := Option.ite_none_right_eq_some.mp hq
    cases hq
    exact honce.of_main rfl rfl rfl

/-! ### Parent and child together -/

/-- A call that left its descriptor in the table. -/
theorem not_released_concat {p q : Proc} {fd : Int} {left : List Int}
    (h : q.closeCalls = p.closeCalls ++ [⟨fd, left⟩]) (hmem : fd ∈ left) : ¬ q.Released := by
  intro hreleased
  refine hreleased ⟨fd, left⟩ ?_ hmem
  rw [h]
  exact List.mem_append_right _ (List.mem_singleton_self _)

theorem Proc.Released.of_calls {p q : Proc} (h : p.Released)
    (hcalls : q.closeCalls = p.closeCalls) : q.Released := by
  rwa [Proc.Released, hcalls]

theorem Inherited.conserved (h : Inherited s s') (hcs : ∀ c ∈ s.children,
      (c.zombie = false → c.proc.fds.Perm (childFds fds c.proc)) ∧ c.proc.Released) :
    ∀ c ∈ s'.children,
      (c.zombie = false → c.proc.fds.Perm (childFds fds c.proc)) ∧ c.proc.Released := by
  intro c hc
  obtain ⟨d, hd, -, hz, hproc⟩ := h c hc
  obtain ⟨hperm, hreleased⟩ := hcs d hd
  rw [hz]
  rcases hproc with hproc | hproc <;> rw [hproc] <;> exact ⟨hperm, hreleased⟩

/-- A step of the parent that is no call of `close_fd` keeps its calls as they are. -/
theorem acceptLoop_released {e : ParentEvent} (h : s.parent.Released)
    (he : acceptLoop code s e = some s') (hes : NoCloseFd s (.parent e)) : s'.parent.Released := by
  cases acceptLoop_move he with
  | closeConn | closeListen => exact hes.elim
  | wait _ hu => exact h.of_calls (by rw [(wait_parent hu).1])
  | noSocket | socket | listen | acceptFails | accept | kill | isAlive | forkFails | fork
  | createClear | createClearFails => exact h

theorem acceptLoop_conserved_iff {e : ParentEvent} (h : Conserved fds s)
    (he : acceptLoop code s e = some s') :
    Conserved fds s' ↔ NoCloseFd s (.parent e) := by
  have hchildren : ∀ c ∈ s'.children,
      (c.zombie = false → c.proc.fds.Perm (childFds fds c.proc)) ∧ c.proc.Released := by
    rcases acceptLoop_children he with hinherited | ⟨hpc, pid, hcs⟩
    · exact hinherited.conserved h.2
    · intro c hc
      rw [hcs] at hc
      rcases List.mem_append.mp hc with hc | hc
      · exact h.2 c hc
      · rw [List.mem_singleton.mp hc]
        have hahead : (s.parent.forked code).main.closeAhead = true := by
          rw [forked_main]
          have hmem : .closeListen ∈ code.init.map Prod.fst :=
            List.count_pos_iff.mp (by rw [code.init_closes]; exact Nat.one_pos)
          simpa [MainPc.closeAhead] using hmem
        have hparent := h.1.1
        simp only [parentFds, hpc] at hparent
        refine ⟨fun _ => ?_, fun call hcall => absurd hcall List.not_mem_nil⟩
        rw [childFds, hahead]
        exact hparent
  have hfds := acceptLoop_fds_iff h.1.1 he
  constructor
  · intro hcons
    exact hfds.mp hcons.1.1
  · intro hes
    exact ⟨⟨hfds.mpr hes, acceptLoop_released h.1.2 he hes⟩, hchildren⟩

theorem parentClear_conserved {ct : ClearThread} {e : ClearEvent} (h : Conserved fds s)
    (he : parentClear code s ct e = some s') : Conserved fds s' := by
  refine ⟨?_, (parentClear_children he).conserved h.2⟩
  cases parentClear_move he with
  | kill | exit => exact h.1
  | wait _ hu =>
    rw [(wait_parent hu).1]
    exact h.1
  | own hp =>
    obtain ⟨hmain, -, -, hfds, hlisten, hconn, -, hcalls⟩ := clearStep_main hp
    refine ⟨?_, h.1.2.of_calls hcalls⟩
    rw [parentFds, hmain, hfds, hlisten, hconn]
    exact h.1.1

/-- A step of a child alone that is neither a call of `close_fd` nor skips one. -/
theorem Conserved.childStep (hone : OneWorker s) (h : Conserved fds s) {pid : Nat}
    {step : Proc → Option After} (hs : s.childStep pid step = some s')
    (hstep : ∀ p q, step p = some (.goesOn q) → p.fds.Perm (childFds fds p) →
      q.fds.Perm (childFds fds q) ∧ q.closeCalls = p.closeCalls)
    (hexit : ∀ p q, step p = some (.exits q) → q.closeCalls = p.closeCalls) :
    Conserved fds s' := by
  obtain ⟨c, r, hcs, -, hlive, hr, rfl⟩ := hone.childStep_cases hs
  obtain ⟨hperm, hreleased⟩ := h.2 c (by simp [hcs])
  refine ⟨h.1, fun d hd => ?_⟩
  rw [List.mem_singleton.mp hd]
  cases r with
  | goesOn q =>
    obtain ⟨hq, hcalls⟩ := hstep c.proc q hr (hperm hlive)
    exact ⟨fun _ => hq, hreleased.of_calls hcalls⟩
  | exits q => exact ⟨(fun hz => by cases hz), hreleased.of_calls (hexit c.proc q hr)⟩

theorem childMain_conserved_iff {pid : Nat} {answer : InitAnswer} (ht : Tables s)
    (h : Conserved fds s) (hs : s.childStep pid (fun p => p.mainStep answer) = some s') :
    Conserved fds s' ↔ NoCloseFd s (.child pid answer) := by
  obtain ⟨c, r, hcs, hpid, hlive, hr, rfl⟩ := ht.one.childStep_cases hs
  have hc : c ∈ s.children := by simp [hcs]
  have honce := ht.once c hc hlive
  obtain ⟨hperm, hreleased⟩ := h.2 c hc
  have hnoClose : NoCloseFd s (.child pid answer) ↔ answer ≠ .closed ∧
      (answer.failed = true → c.proc.onFail.exits = false ∧
        (c.proc.onFail = .gotoExit → c.proc.main.closeAhead = false)) := by
    simp [NoCloseFd, hcs, hpid]
  rw [hnoClose]
  obtain ⟨op, onFail, rest, hmain, hr⟩ := mainStep_cases hr
  have honFail : c.proc.onFail = onFail := by simp [Proc.onFail, hmain]
  rw [honFail]
  cases r with
  -- the table that `close_fd` left has the device in it
  | exits q =>
    obtain ⟨hfailed, hexits, -, new, hcalls⟩ := initStep_exits hr
    refine iff_of_false (fun hcons => ?_) fun hes => ?_
    · have hdevice := List.mem_append_right new (honce.device hmain hexits)
      exact not_released_concat hcalls hdevice (hcons.2 _ (List.mem_singleton_self _)).2
    · have hexits' := (hes.2 hfailed).1
      rw [hexits] at hexits'
      cases hexits'
  | goesOn q =>
    obtain ⟨hcalls, hgoesOn⟩ := initStep_calls hr
    have hq := initStep_perm_iff hmain honce (hperm hlive) hr
    constructor
    · intro hcons
      obtain ⟨hclosed, hjump⟩ := hq.mp ((hcons.2 _ (List.mem_singleton_self _)).1 hlive)
      exact ⟨hclosed, fun hfailed => ⟨hgoesOn hfailed, hjump hfailed⟩⟩
    · intro hes
      refine ⟨h.1, fun d hd => ?_⟩
      rw [List.mem_singleton.mp hd]
      exact ⟨fun _ => hq.mpr ⟨hes.1, fun hfailed => (hes.2 hfailed).2⟩,
        hreleased.of_calls (hcalls hes.1)⟩

theorem step_conserved_iff {e : Event} (ht : Tables s) (h : Conserved fds s)
    (he : (server code fds).step s e = some s') : Conserved fds s' ↔ NoCloseFd s e := by
  cases server_move he with
  | parent _ he => exact acceptLoop_conserved_iff h he
  | parentClear _ he => exact iff_of_true (parentClear_conserved h he) trivial
  | parentSignal => exact iff_of_true h trivial
  | parentHandler => exact iff_of_true h trivial
  | kill pid => exact iff_of_true ⟨h.1, (inherited_kill s pid).conserved h.2⟩ trivial
  | child he => exact childMain_conserved_iff ht h he
  | childClear he =>
    refine iff_of_true (h.childStep ht.one he (fun p q hq hperm => ?_) fun p q hq => ?_) trivial
    · obtain ⟨ct, -, hq⟩ := Option.bind_eq_some_iff.mp hq
      obtain ⟨hmain, -, -, hfds, hlisten, hconn, hown, hcalls⟩ := clearStep_main hq
      rw [childFds, hmain, hfds, hlisten, hconn, hown]
      exact ⟨hperm, hcalls⟩
    · obtain ⟨ct, -, hq⟩ := Option.bind_eq_some_iff.mp hq
      cases clearStep_move hq
      rfl
  | childExit he =>
    refine iff_of_true
      (h.childStep ht.one he (fun p q hq _ => by cases hq) fun p q hq => ?_) trivial
    cases hq
    rfl
  | childHandler he =>
    refine iff_of_true (h.childStep ht.one he (fun p q hq hperm => ?_) fun p q hq => ?_) trivial
    · obtain ⟨-, hq⟩ := Option.ite_none_right_eq_some.mp hq
      cases hq
      exact ⟨hperm, rfl⟩
    · obtain ⟨-, hq⟩ := Option.ite_none_right_eq_some.mp hq
      cases hq

/-- A run of either server has in all its states the descriptors open that should be, and every
call of `close_fd` in it closed its descriptor, exactly if it contains no such call and no child
jumps over one. -/
theorem server_conservesFds (hrun : (server code fds).run (startState fds) es = some t) :
    (server code fds).Always (Conserved fds) (startState fds) es ↔
      (server code fds).EachStep NoCloseFd (startState fds) es := by
  refine Machine.always_iff_eachStep (fun s e s' h he => step_tables h he)
    (fun s e s' ht h he => step_conserved_iff ht h he)
    ⟨oneWorker_startState fds, fun _ hc => absurd hc List.not_mem_nil⟩ ?_ hrun
  exact ⟨⟨.refl _, fun _ hcall => absurd hcall List.not_mem_nil⟩,
    fun _ hc => absurd hc List.not_mem_nil⟩

/-- The first client, up to the device of its child. -/
def firstDevice : List Event :=
  [.parent (.netsock (some 3)), .parent (.listen true), .parent (.accept (some 4)),
   .parent (.fork (some 100)), .child 100 (.opened (some 7))]

theorem server_conservesFds_firstDevice : ∃ s,
    (server createAcqDataTransServer [0, 1, 2]).run (startState [0, 1, 2]) firstDevice = some s ∧
      s.children.map (fun c => c.proc.fds) = [[7, 4, 3, 0, 1, 2]] ∧ Conserved [0, 1, 2] s := by
  have hrun : ((server createAcqDataTransServer [0, 1, 2]).run (startState [0, 1, 2])
      firstDevice).map (fun s => s.children.map fun c => c.proc.fds) =
        some [[7, 4, 3, 0, 1, 2]] := by decide +kernel
  obtain ⟨s, hs, hfds⟩ := Option.map_eq_some_iff.mp hrun
  exact ⟨s, hs, hfds, ((server_conservesFds hs).mpr (by decide +kernel)).last hs⟩

theorem leak_of_run (hrun : ((server code [0, 1, 2]).run (startState [0, 1, 2]) es).map
    (fun s => (s.parent.main, s.parent.fds, decide (Conserved [0, 1, 2] s))) =
      some (.accept, [4, 3, 0, 1, 2], false)) :
    ∃ s, (server code [0, 1, 2]).run (startState [0, 1, 2]) es = some s ∧
      s.parent.main = .accept ∧ s.parent.fds = [4, 3, 0, 1, 2] ∧ ¬ Conserved [0, 1, 2] s := by
  obtain ⟨s, hs, h⟩ := Option.map_eq_some_iff.mp hrun
  simp only [Prod.mk.injEq, decide_eq_false_iff_not] at h
  exact ⟨s, hs, h⟩

/-- Back at `accept`, the parent of either server still has the first connection open. -/
theorem connection_not_closed :
    (∃ s, (server createAcqDataTransServer [0, 1, 2]).run (startState [0, 1, 2]) firstClient =
      some s ∧ s.parent.main = .accept ∧ s.parent.fds = [4, 3, 0, 1, 2] ∧
      ¬ Conserved [0, 1, 2] s) ∧
    ∃ s, (server createCmdStatusTransServer [0, 1, 2]).run (startState [0, 1, 2]) firstClient =
      some s ∧ s.parent.main = .accept ∧ s.parent.fds = [4, 3, 0, 1, 2] ∧
      ¬ Conserved [0, 1, 2] s :=
  ⟨leak_of_run (by decide +kernel), leak_of_run (by decide +kernel)⟩

end ITrace.Server
