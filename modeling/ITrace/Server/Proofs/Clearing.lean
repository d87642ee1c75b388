import ITrace.Server.Proofs.Clients
import ITrace.Server.Proofs.Stop

/-!
# What a clear thread clears

`clear_thread` resets the hardware through the device of its process and ends the process. The
parent has no device, so its clear thread must not come to the reset; a child's must not run
before the device is open; and neither may come past its semaphore without a SIGINT.
-/

namespace ITrace.Server

variable {code : ServerCode} {fds : List Int} {s s' : State} {es : List Event}

/-- The clear thread has found `Stop`. -/
def ClearPc.pastCheck : ClearPc → Bool
  | .semWait | .check => false
  | .kill | .wait | .reset | .close => true

/-- Between a `fork` and the clear thread that may have to be created after it. -/
def MainPc.afterFork : MainPc → Bool
  | .closeConn | .createClear => true
  | _ => false

/-- The last `fork` of the run `es` came after `before` and made the child `pid`. -/
def ForkedAfter (before after es : List Event) (pid : Nat) : Prop :=
  es = before ++ .parent (.fork (some pid)) :: after ∧ forks after = []

/-- The device is opened before the clear thread is there, and a child that cannot open it has no
clear thread. -/
def OpensDevice (todo : List (InitOp × OnFail)) : Prop := (.openDevice, .gotoExit) ∈ todo

/-- A child has the device from the moment its clear thread may be created. -/
structure ReadyToClear (p : Proc) : Prop where
  clear : ∀ ct ∈ p.clear, ct.childPid = 0 ∧ p.HasDevice ∧
    (ct.pc.pastCheck = true → p.sysStatus = .stop)
  init : ∀ todo, p.main = .init todo →
    p.clear = none ∧ EndsInClear todo ∧ (OpensDevice todo ∨ p.HasDevice)

theorem ReadyToClear.of_eq {p q : Proc} (h : ReadyToClear p) (hclear : q.clear = p.clear)
    (hmain : q.main = p.main) (hdev : q.devFd = p.devFd) (hfds : q.fds = p.fds)
    (hstop : p.sysStatus = .stop → q.sysStatus = .stop) : ReadyToClear q := by
  have hdevice : p.HasDevice → q.HasDevice := by
    intro hp
    rwa [Proc.HasDevice, hdev, hfds]
  refine ⟨fun ct hct => ?_, fun todo htodo => ?_⟩
  · rw [hclear] at hct
    obtain ⟨hpid, hp, hpast⟩ := h.clear ct hct
    exact ⟨hpid, hdevice hp, fun hpc => hstop (hpast hpc)⟩
  · rw [hmain] at htodo
    obtain ⟨hnone, hends, hopens⟩ := h.init todo htodo
    exact ⟨hclear.trans hnone, hends, hopens.imp_right hdevice⟩

/-- A process that has left its initialisation without a clear thread. -/
theorem ReadyToClear.of_pause {p : Proc} (hmain : p.main = .pause) (hclear : p.clear = none) :
    ReadyToClear p := by
  refine ⟨fun ct hct => ?_, fun todo htodo => ?_⟩
  · rw [hclear] at hct
    cases hct
  · rw [hmain] at htodo
    cases htodo

theorem initStep_hasDevice {p q : Proc} {op : InitOp} {onFail : OnFail}
    {rest : List (InitOp × OnFail)} {answer : InitAnswer}
    (h : p.initStep op onFail rest answer = some (.goesOn q)) (hp : p.HasDevice) : q.HasDevice := by
  rcases initStep_devFd h with ⟨hdev, -⟩ | hq
  · obtain ⟨-, ⟨-, -, hfds, -⟩ | ⟨-, -, -, ⟨new, hfds, -⟩, -⟩⟩ := initStep_fds h
    · rwa [Proc.HasDevice, hdev, hfds]
    · rw [Proc.HasDevice, hdev, hfds]
      exact ⟨hp.1, List.mem_append_right new hp.2⟩
  · exact hq

/-- Behind a step the device is open or its `open` is still to come, unless the process has left
the initialisation. -/
theorem initStep_opens {p q : Proc} {op : InitOp} {onFail : OnFail}
    {rest : List (InitOp × OnFail)} {answer : InitAnswer}
    (h : p.initStep op onFail rest answer = some (.goesOn q))
    (hopens : OpensDevice ((op, onFail) :: rest) ∨ p.HasDevice) :
    q.main = .pause ∨ OpensDevice rest ∨ q.HasDevice := by
  rcases hopens with hopens | hp
  · rcases List.mem_cons.mp hopens with hhead | hrest
    · obtain ⟨rfl, rfl⟩ := Prod.mk.inj hhead
      rcases initStep_devFd h with ⟨-, hfailed⟩ | hq
      · obtain ⟨-, ⟨-, hop, -⟩ | ⟨-, -, -, -, hmain⟩⟩ := initStep_fds h
        · cases hop
        · rw [if_pos ⟨hfailed rfl, rfl⟩] at hmain
          exact .inl hmain
      · exact .inr (.inr hq)
    · exact .inr (.inl hrest)
  · exact .inr (.inr (initStep_hasDevice h hp))

theorem ReadyToClear.mainStep {p q : Proc} {answer : InitAnswer} (h : ReadyToClear p)
    (he : p.mainStep answer = some (.goesOn q)) : ReadyToClear q := by
  obtain ⟨op, onFail, rest, hmain, he⟩ := mainStep_cases he
  obtain ⟨hnone, hends, hopens⟩ := h.init _ hmain
  have hq := initStep_opens he hopens
  have next : q.clear = none → q.main = initPc rest → op ≠ .createClear → ReadyToClear q := by
    intro hclear hqmain hop
    refine ⟨fun ct hct => ?_, fun todo htodo => ?_⟩
    · rw [hclear] at hct
      cases hct
    · rw [initPc_of_endsInClear (hends.rest hop)] at hqmain
      rw [hqmain] at htodo hq
      cases htodo
      refine ⟨hclear, hends.rest hop, ?_⟩
      rcases hq with hpause | hq
      · cases hpause
      · exact hq
  generalize hr : After.goesOn q = r at he
  cases initStep_move he with
  | failed _ _ new =>
    have heq := (initFailed_cases hr.symm).2
    by_cases hgoto : onFail = .gotoExit
    · rw [if_pos hgoto] at heq
      rw [heq]
      exact .of_pause rfl hnone
    rw [if_neg hgoto] at heq
    by_cases hop : op = .createClear
    · subst hop
      rw [hends.nil_of_createClear] at heq
      rw [heq]
      exact .of_pause rfl hnone
    · exact next (by rw [heq]; exact hnone) (by rw [heq]) hop
  | done _ _ _ hop =>
    cases hr
    exact next hnone rfl hop
  | closed hop =>
    cases hr
    exact next hnone rfl (by simp [hop])
  | created hop =>
    cases hr
    subst hop
    have hnil := hends.nil_of_createClear
    subst hnil
    have hdevice : p.HasDevice := by
      refine hopens.resolve_left fun hmem => ?_
      cases List.mem_singleton.mp hmem
    refine ⟨?_, ?_⟩
    · rintro ct ⟨⟩
      exact ⟨rfl, hdevice, by rintro ⟨⟩⟩
    · rintro todo ⟨⟩

theorem ReadyToClear.clearStep {p q : Proc} {ct : ClearThread} {e : ClearEvent}
    (h : ReadyToClear p) (hct : p.clear = some ct)
    (he : p.clearStep code ct e = some (.goesOn q)) : ReadyToClear q := by
  obtain ⟨hpid, hdevice, hpast⟩ := h.clear ct hct
  have hinit : ∀ todo, p.main ≠ .init todo := by
    intro todo htodo
    rw [(h.init todo htodo).1] at hct
    cases hct
  have next : ∀ (sem : Nat) (u : ClearThread), u.childPid = 0 →
      (u.pc.pastCheck = true → p.sysStatus = .stop) →
      ReadyToClear { p with sem := sem, clear := some u } := by
    intro sem u hu hstop
    refine ⟨?_, fun todo htodo => absurd htodo (hinit todo)⟩
    rintro ct' ⟨⟩
    exact ⟨hu, hdevice, hstop⟩
  cases clearStep_move he with
  | wake hpc sem => exact next sem _ hpid (by rintro ⟨⟩)
  | check hpc =>
    refine next p.sem _ hpid ?_
    by_cases hstop : p.sysStatus = .stop
    · exact fun _ => hstop
    · rw [if_neg hstop]
      rintro ⟨⟩
  | reset hpc => exact next p.sem _ hpid fun _ => hpast (by rw [hpc]; rfl)

/-- The parent has forked once its clear thread is there or about to be created, that thread keeps
off the reset, and a `Stop` comes from a SIGINT. -/
structure ParentClears (code : ServerCode) (es : List Event) (p : Proc) : Prop where
  stop : p.sysStatus = .stop → .sigHandler none ∈ es
  forks : p.childPid ≠ 0 → forks es ≠ []
  forked : p.main.afterFork = true ∨ p.clear ≠ none → p.childPid ≠ 0
  clear : ∀ ct ∈ p.clear, code.afterStop ct.childPid ≠ .reset ∧ ct.pc ≠ .reset ∧
    (ct.pc.pastCheck = true → p.sysStatus = .stop)

theorem forks_ne_nil_append (h : forks es ≠ []) (e : Event) : forks (es ++ [e]) ≠ [] := by
  intro hnil
  rw [forks, List.filterMap_append] at hnil
  exact h (List.append_eq_nil_iff.mp hnil).1

theorem ParentClears.of_eq {p q : Proc} (h : ParentClears code es p) {e : Event}
    (hstop : q.sysStatus = p.sysStatus) (hpid : q.childPid = p.childPid)
    (hclear : q.clear = p.clear)
    (hmain : q.main.afterFork = true → p.childPid ≠ 0) :
    ParentClears code (es ++ [e]) q := by
  refine ⟨?_, ?_, ?_, ?_⟩
  · rw [hstop]
    exact fun h' => List.mem_append_left _ (h.stop h')
  · rw [hpid]
    exact fun h' => forks_ne_nil_append (h.forks h') e
  · rw [hpid, hclear]
    rintro (hcase | hcase)
    · exact hmain hcase
    · exact h.forked (.inr hcase)
  · rw [hclear, hstop]
    exact h.clear

theorem ParentClears.fork (h : ParentClears code es s.parent) {pid : Int} (hpid : pid ≠ 0)
    (answer : Option Nat) :
    ParentClears code (es ++ [.parent (.fork answer)])
      { s.parent with childPid := pid, main := .closeConn } :=
  ⟨fun h' => List.mem_append_left _ (h.stop h'), fun _ => by simp, fun _ => hpid, h.clear⟩

/-- A step of the parent's clear thread that does not end it. -/
theorem ParentClears.moved {p : Proc} (h : ParentClears code es p) (e : Event) {ct u : ClearThread}
    (hct : p.clear = some ct) (sem : Nat) (hpid : u.childPid = ct.childPid) (hreset : u.pc ≠ .reset)
    (hstop : u.pc.pastCheck = true → p.sysStatus = .stop) :
    ParentClears code (es ++ [e]) { p with sem := sem, clear := some u } := by
  refine ⟨fun h' => List.mem_append_left _ (h.stop h'),
    fun h' => forks_ne_nil_append (h.forks h') e, ?_, ?_⟩
  · exact fun _ => h.forked (.inr (by rw [hct]; exact Option.some_ne_none ct))
  · rintro v ⟨⟩
    exact ⟨by rw [hpid]; exact (h.clear ct hct).1, hreset, hstop⟩

/-- What is known of a child: how it was forked, and whether a SIGINT was handled since. -/
structure ChildClears (es : List Event) (c : Child) : Prop where
  ended : c.zombie = true → c.proc.clear = none
  ready : c.zombie = false → ReadyToClear c.proc
  stop : c.zombie = false → ∃ before after, ForkedAfter before after es c.pid ∧
    (c.proc.sysStatus = .stop → .sigHandler none ∈ before ∨ .sigHandler (some c.pid) ∈ after)

structure Clears (code : ServerCode) (es : List Event) (s : State) : Prop where
  parent : ParentClears code es s.parent
  exited : s.exited = true → .sigHandler none ∈ es ∧ forks es ≠ []
  child : ∀ c ∈ s.children, ChildClears es c

theorem ForkedAfter.append {before after : List Event} {pid : Nat}
    (h : ForkedAfter before after es pid) {e : Event} (he : forks [e] = []) :
    ForkedAfter before (after ++ [e]) (es ++ [e]) pid := by
  obtain ⟨rfl, hlast⟩ := h
  refine ⟨by simp, ?_⟩
  rw [forks, List.filterMap_append]
  exact List.append_eq_nil_iff.mpr ⟨hlast, he⟩

/-- A step that is no `fork`, and leaves of the child what a signal may. -/
theorem ChildClears.append {c d : Child} (h : ChildClears es d) (hpid : c.pid = d.pid)
    (hz : c.zombie = d.zombie)
    (hproc : c.proc = d.proc ∨ c.proc = { d.proc with pending := true })
    {e : Event} (he : forks [e] = []) : ChildClears (es ++ [e]) c := by
  have hclear : c.proc.clear = d.proc.clear := by rcases hproc with hproc | hproc <;> rw [hproc]
  have hstatus : c.proc.sysStatus = d.proc.sysStatus := by
    rcases hproc with hproc | hproc <;> rw [hproc]
  refine ⟨?_, ?_, ?_⟩ <;> rw [hz]
  · rw [hclear]
    exact h.ended
  · intro hlive
    have hready := h.ready hlive
    rcases hproc with hproc | hproc <;> rw [hproc]
    · exact hready
    · exact hready.of_eq rfl rfl rfl rfl id
  · intro hlive
    obtain ⟨before, after, hforked, hstop⟩ := h.stop hlive
    rw [hpid, hstatus]
    exact ⟨before, after ++ [e], hforked.append he,
      fun h' => (hstop h').imp_right (List.mem_append_left _)⟩

theorem Inherited.clears (hinherited : Inherited s s') (h : ∀ c ∈ s.children, ChildClears es c)
    {e : Event} (he : forks [e] = []) : ∀ c ∈ s'.children, ChildClears (es ++ [e]) c := by
  intro c hc
  obtain ⟨d, hd, hpid, hz, hproc⟩ := hinherited c hc
  exact (h d hd).append hpid hz hproc he

/-- A step of a child alone. -/
theorem Clears.childStep (hone : OneWorker s) (h : Clears code es s) {pid : Nat}
    {step : Proc → Option After} (hs : s.childStep pid step = some s') {e : Event}
    (he : forks [e] = [])
    (hstep : ∀ p q, ReadyToClear p → step p = some (.goesOn q) →
      ReadyToClear q ∧ (q.sysStatus = .stop → p.sysStatus = .stop ∨ e = .sigHandler (some pid))) :
    Clears code (es ++ [e]) s' := by
  obtain ⟨hparent, hexited⟩ := childStep_parent hs
  refine ⟨?_, ?_, ?_⟩
  · rw [hparent]
    exact h.parent.of_eq rfl rfl rfl fun hmain => h.parent.forked (.inl hmain)
  · rw [hexited]
    intro h'
    exact ⟨List.mem_append_left _ (h.exited h').1, forks_ne_nil_append (h.exited h').2 e⟩
  · obtain ⟨c, r, hcs, rfl, hlive, hr, rfl⟩ := hone.childStep_cases hs
    have hc := h.child c (by simp [hcs])
    intro d hd
    rw [List.mem_singleton.mp hd]
    cases r with
    | exits q => exact ⟨fun _ => rfl, (fun hz => by cases hz), fun hz => by cases hz⟩
    | goesOn q =>
      obtain ⟨hq, hqstop⟩ := hstep c.proc q (hc.ready hlive) hr
      obtain ⟨before, after, hforked, hstop⟩ := hc.stop hlive
      refine ⟨fun hz => ?_, fun _ => hq, fun _ => ⟨before, after ++ [e], hforked.append he, ?_⟩⟩
      · rw [show c.zombie = true from hz] at hlive
        cases hlive
      · intro h'
        rcases hqstop h' with hp | rfl
        · exact (hstop hp).imp_right (List.mem_append_left _)
        · exact .inr (List.mem_append_right _ (List.mem_singleton_self _))

/-- A step that is not the parent's, nor a child's own. -/
theorem Clears.of_parent (h : Clears code es s) {e : Event} (he : forks [e] = [])
    (hinherited : Inherited s s') (hexited : s'.exited = s.exited)
    (hparent : ParentClears code (es ++ [e]) s'.parent) : Clears code (es ++ [e]) s' := by
  refine ⟨hparent, ?_, hinherited.clears h.child he⟩
  rw [hexited]
  intro h'
  exact ⟨List.mem_append_left _ (h.exited h').1, forks_ne_nil_append (h.exited h').2 e⟩

end ITrace.Server
