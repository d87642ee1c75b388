import ITrace.Server.Proofs.OneWorker

/-!
# Stopping the worker

When the next client comes the parent signals its child and waits for it. The child ends if its
clear thread gets the semaphore that the signal handler posts. So the invariant follows a child
from the fork on: as long as no step of its initialisation fails with `goto Exit`, it is on the
way to its clear thread, or has it, or exits.
-/

namespace ITrace.Server

variable {code : ServerCode} {fds : List Int} {s s' : State} {es : List Event}

/-- The process has a clear thread, or is on the way to create it. -/
def Proc.WillClear (p : Proc) : Prop :=
  p.clear ≠ none ∨ ∃ todo, p.main = .init todo ∧ .createClear ∈ todo.map Prod.fst

/-- The clear thread comes to `exit(0)` within `n` steps of its own, whichever they are, and is
not blocked before it does: it has a next step, and where that is the return of `sem_wait` the
semaphore is posted. -/
def ExitsWithin (code : ServerCode) : Nat → Proc → Prop
  | 0, _ => False
  | n + 1, p => ∃ ct, p.clear = some ct ∧ (ct.pc = .semWait → 0 < p.sem) ∧
      (∃ e, (p.clearStep code ct e).isSome = true) ∧
      ∀ e q, p.clearStep code ct e = some (.goesOn q) → ExitsWithin code n q

/-- The process was signalled: a SIGINT is pending, or the handler ran, and its `sem_post` waits
for the clear thread or is taking it to `exit(0)`. -/
def Signalled (code : ServerCode) (p : Proc) : Prop :=
  p.pending = true ∨ (p.sysStatus = .stop ∧
    (p.clear = none → 0 < p.sem) ∧ (p.clear ≠ none → ExitsWithin code 4 p))

/-- The parent has signalled its child and waits for its end. -/
def Waiting (s : State) : Prop := s.parent.main = .wait ∨ s.parent.main = .isAlive

/-- The child the parent waits for has ended, or has a clear thread or will have one, and was
signalled. -/
def Stoppable (code : ServerCode) (s : State) : Prop :=
  Waiting s → ∀ c ∈ s.children, c.zombie = false → c.proc.WillClear ∧ Signalled code c.proc

/-- No step of a child's initialisation fails other than with `exit(0)`. -/
def NoFailedInit (s : State) : Event → Prop
  | .child pid answer =>
      answer.failed = true → ∀ c ∈ s.children, c.pid = pid → c.proc.onFail.exits = true
  | _ => True

instance (s : State) : (e : Event) → Decidable (NoFailedInit s e)
  | .child pid answer => inferInstanceAs (Decidable
      (answer.failed = true → ∀ c ∈ s.children, c.pid = pid → c.proc.onFail.exits = true))
  | .parent _ | .parentClear _ | .childClear _ _ | .childExit _ | .sigint _ | .sigHandler _ =>
      isTrue trivial

/-! ### The child -/

/-- A child in its initialisation, or past it and with its clear thread. -/
def ChildOk (p : Proc) : Prop :=
  (∃ todo, p.main = .init todo ∧ EndsInClear todo ∧ p.clear = none) ∨
  (p.main = .pause ∧ ∃ ct, p.clear = some ct ∧ ct.childPid = 0 ∧ ct.pc ≠ .kill ∧ ct.pc ≠ .wait)

/-- What `Signalled` says without looking ahead. -/
def Posted (p : Proc) : Prop :=
  p.pending = true ∨ (p.sysStatus = .stop ∧
    (0 < p.sem ∨ ∃ ct, p.clear = some ct ∧ ct.pc ≠ .semWait))

theorem EndsInClear.mem {todo : List (InitOp × OnFail)} (h : EndsInClear todo) :
    .createClear ∈ todo.map Prod.fst := by
  induction todo with
  | nil => exact h.elim
  | cons step rest ih =>
    cases rest with
    | nil => exact List.mem_singleton.mpr h.symm
    | cons next rest => exact List.mem_cons_of_mem _ (ih h.2)

theorem EndsInClear.rest {op : InitOp} {onFail : OnFail} {rest : List (InitOp × OnFail)}
    (h : EndsInClear ((op, onFail) :: rest)) (hop : op ≠ .createClear) : EndsInClear rest := by
  cases rest with
  | nil => exact absurd h hop
  | cons next rest => exact h.2

theorem EndsInClear.nil_of_createClear {onFail : OnFail} {rest : List (InitOp × OnFail)}
    (h : EndsInClear ((.createClear, onFail) :: rest)) : rest = [] := by
  cases rest with
  | nil => rfl
  | cons next rest => exact absurd rfl h.1

theorem ChildOk.willClear {p : Proc} (h : ChildOk p) : p.WillClear := by
  rcases h with ⟨todo, hmain, htodo, -⟩ | ⟨-, ct, hct, -⟩
  · exact .inr ⟨todo, hmain, htodo.mem⟩
  · exact .inl (by rw [hct]; exact Option.some_ne_none ct)

theorem ChildOk.init_of_main {p : Proc} {todo : List (InitOp × OnFail)} (h : ChildOk p)
    (hmain : p.main = .init todo) : EndsInClear todo ∧ p.clear = none := by
  rcases h with ⟨_, hinit, hends, hclear⟩ | ⟨hpause, -⟩
  · rw [hmain] at hinit
    cases hinit
    exact ⟨hends, hclear⟩
  · rw [hmain] at hpause
    cases hpause

/-- What a step of the initialisation that did not fail leaves. -/
theorem initStep_ok {p : Proc} {op : InitOp} {onFail : OnFail}
    {rest : List (InitOp × OnFail)} {answer : InitAnswer} {r : After}
    (h : p.initStep op onFail rest answer = some r) (hok : answer.failed = false) :
    ∃ q, r = .goesOn q ∧ q.main = initPc rest ∧ q.sysStatus = p.sysStatus ∧ q.sem = p.sem ∧
      q.pending = p.pending ∧
      ((op = .createClear ∧ q.clear = some ⟨.semWait, 0⟩) ∨
        (op ≠ .createClear ∧ q.clear = p.clear)) := by
  cases initStep_move h with
  | failed hfailed =>
    rw [hok] at hfailed
    cases hfailed
  | done _ _ _ hop => exact ⟨_, rfl, rfl, rfl, rfl, rfl, .inr ⟨hop, rfl⟩⟩
  | closed hop => exact ⟨_, rfl, rfl, rfl, rfl, rfl, .inr ⟨by simp [hop], rfl⟩⟩
  | created hop => exact ⟨_, rfl, rfl, rfl, rfl, rfl, .inl ⟨hop, rfl⟩⟩

/-- A step of the main thread that meets `NoFailedInit`. -/
theorem ChildOk.mainStep {p q : Proc} {answer : InitAnswer} (h : ChildOk p)
    (he : p.mainStep answer = some (.goesOn q))
    (hok : answer.failed = true → p.onFail.exits = true) :
    ChildOk q ∧ (Posted p → Posted q) := by
  obtain ⟨op, onFail, rest, hmain, he⟩ := mainStep_cases he
  by_cases hfailed : answer.failed = true
  · have hexits := hok hfailed
    simp only [Proc.onFail, hmain] at hexits
    rw [(initStep_calls he).2 hfailed] at hexits
    cases hexits
  · obtain ⟨hends, hclear⟩ := h.init_of_main hmain
    have hanswer : answer.failed = false := by simpa using hfailed
    obtain ⟨_, heq, hq, hstatus, hsem, hpending, hcreate⟩ := initStep_ok he hanswer
    cases heq
    rcases hcreate with ⟨rfl, hnew⟩ | ⟨hop, hsame⟩
    · rw [hends.nil_of_createClear] at hq
      refine ⟨.inr ⟨hq, ⟨.semWait, 0⟩, hnew, rfl, by simp, by simp⟩, ?_⟩
      intro hposted
      rcases hposted with hpend | ⟨hstop, hpos | ⟨ct, hct, -⟩⟩
      · exact .inl (hpending.trans hpend)
      · exact .inr ⟨hstatus.trans hstop, .inl (hsem ▸ hpos)⟩
      · rw [hclear] at hct
        cases hct
    · have hrest := hends.rest hop
      rw [initPc_of_endsInClear hrest] at hq
      refine ⟨.inl ⟨rest, hq, hrest, hsame.trans hclear⟩, ?_⟩
      intro hposted
      simpa only [Posted, hstatus, hsem, hpending, hsame] using hposted

theorem ServerCode.afterStop_ne (code : ServerCode) :
    code.afterStop 0 ≠ .kill ∧ code.afterStop 0 ≠ .wait ∧ code.afterStop 0 ≠ .semWait := by
  rcases code.afterStop_zero with h | h <;> simp [h]

theorem ChildOk.clearStep {p q : Proc} {ct : ClearThread} {e : ClearEvent} (h : ChildOk p)
    (hct : p.clear = some ct) (he : p.clearStep code ct e = some (.goesOn q)) :
    ChildOk q ∧ (Posted p → Posted q) := by
  rcases h with ⟨_, -, -, hnone⟩ | ⟨hmain, ct', hct', hpid, -⟩
  · rw [hct] at hnone
    cases hnone
  rw [hct] at hct'
  cases hct'
  obtain ⟨hkill, hwait, hsem⟩ := code.afterStop_ne
  cases clearStep_move he with
  | wake hpc sem =>
    refine ⟨.inr ⟨hmain, _, rfl, hpid, by simp, by simp⟩, ?_⟩
    intro hposted
    exact hposted.imp_right fun hstop => ⟨hstop.1, .inr ⟨_, rfl, by simp⟩⟩
  | check hpc =>
    by_cases hstop : p.sysStatus = .stop
    · simp only [hstop, if_true, hpid]
      refine ⟨.inr ⟨hmain, _, rfl, rfl, hkill, hwait⟩, ?_⟩
      intro hposted
      exact hposted.imp_right fun _ => ⟨rfl, .inr ⟨_, rfl, hsem⟩⟩
    · simp only [hstop, if_false]
      refine ⟨.inr ⟨hmain, _, rfl, hpid, by simp, by simp⟩, ?_⟩
      intro hposted
      exact hposted.imp_right fun h => absurd h.1 hstop
  | reset hpc =>
    refine ⟨.inr ⟨hmain, _, rfl, hpid, by simp, by simp⟩, ?_⟩
    intro hposted
    exact hposted.imp_right fun hstop => ⟨hstop.1, .inr ⟨_, rfl, by simp⟩⟩

/-- The steps a clear thread that finds `Stop` still has before it. -/
def ClearPc.left : ClearPc → Nat
  | .semWait => 4
  | .check => 3
  | .reset => 2
  | _ => 1

theorem exitsWithin_of_stop {n : Nat} {p : Proc} {ct : ClearThread} (hct : p.clear = some ct)
    (hpid : ct.childPid = 0) (hkill : ct.pc ≠ .kill) (hwait : ct.pc ≠ .wait)
    (hstop : p.sysStatus = .stop) (hsem : ct.pc = .semWait → 0 < p.sem) (hn : ct.pc.left ≤ n) :
    ExitsWithin code n p := by
  induction n generalizing p ct with
  | zero =>
    obtain ⟨pc, _⟩ := ct
    cases pc <;> simp [ClearPc.left] at hn
  | succ n ih =>
    refine ⟨ct, hct, hsem, ?_, ?_⟩
    · obtain ⟨pc, _⟩ := ct
      cases pc with
      | semWait => exact ⟨.semWait false, rfl⟩
      | check => exact ⟨.check, rfl⟩
      | kill => exact absurd rfl hkill
      | wait => exact absurd rfl hwait
      | reset => exact ⟨.reset, rfl⟩
      | close => exact ⟨.close, rfl⟩
    · intro e q he
      obtain ⟨hkill', hwait', hsem'⟩ := code.afterStop_ne
      cases clearStep_move he with
      | wake hpc sem =>
        rw [hpc] at hn
        exact ih rfl hpid (by simp) (by simp) hstop (by simp) (Nat.le_of_succ_le_succ hn)
      | check hpc =>
        rw [hpc] at hn
        simp only [hstop, if_true, hpid]
        have hleft : (code.afterStop 0).left ≤ 2 := by
          rcases code.afterStop_zero with h | h <;> simp [h, ClearPc.left]
        refine ih rfl rfl hkill' hwait' rfl (fun h => absurd h hsem') ?_
        exact Nat.le_trans hleft (Nat.le_of_succ_le_succ hn)
      | reset hpc =>
        rw [hpc] at hn
        exact ih rfl hpid (by simp) (by simp) hstop (by simp) (Nat.le_of_succ_le_succ hn)

/-- A child with its clear thread, or on the way to it, ends once it was signalled. -/
theorem ChildOk.signalled {p : Proc} (h : ChildOk p) (hposted : Posted p) :
    Signalled code p := by
  refine hposted.imp_right fun ⟨hstop, hpost⟩ => ⟨hstop, ?_⟩
  rcases h with ⟨_, -, -, hnone⟩ | ⟨-, ct, hct, hpid, hkill, hwait⟩
  · refine ⟨fun _ => ?_, fun h => absurd hnone h⟩
    rcases hpost with hpos | ⟨ct, hct, -⟩
    · exact hpos
    · rw [hnone] at hct
      cases hct
  · refine ⟨fun h => absurd h (by simp [hct]), fun _ => ?_⟩
    apply exitsWithin_of_stop hct hpid hkill hwait hstop
    · intro hpc
      rcases hpost with hpos | ⟨ct', hct', hne⟩
      · exact hpos
      · rw [hct] at hct'
        cases hct'
        exact absurd hpc hne
    · obtain ⟨pc, _⟩ := ct
      cases pc <;> simp [ClearPc.left]

/-! ### Parent and child together -/

structure Tended (s : State) : Prop where
  child : ∀ c ∈ s.children, c.zombie = false → ChildOk c.proc
  posted : Waiting s → ∀ c ∈ s.children, c.zombie = false → Posted c.proc

theorem Tended.of_parent (h : Tended s) {p : Proc}
    (hposted : Waiting { s with parent := p } →
      ∀ c ∈ s.children, c.zombie = false → Posted c.proc) :
    Tended { s with parent := p } :=
  ⟨h.child, hposted⟩

/-- A parent that waits neither before nor after, or before and after. -/
theorem Tended.of_main (h : Tended s) {p : Proc} (hmain : p.main = s.parent.main) :
    Tended { s with parent := p } := by
  refine h.of_parent fun hwait => h.posted ?_
  simpa only [Waiting, hmain] using hwait

theorem Tended.kill (h : Tended s) (pid : Int) : Tended (s.kill pid) := by
  constructor
  · intro c hc hlive
    obtain ⟨d, hd, -, hz, hproc⟩ := mem_kill hc
    have hok := h.child d hd (hz ▸ hlive)
    rcases hproc with ⟨hproc, -⟩ | hproc <;> rw [hproc] <;> exact hok
  · intro hwait c hc hlive
    obtain ⟨d, hd, -, hz, hproc⟩ := mem_kill hc
    rcases hproc with ⟨hproc, -⟩ | hproc
    · rw [hproc]
      exact h.posted hwait d hd (hz ▸ hlive)
    · rw [hproc]
      exact .inl rfl

theorem Tended.wait (h : Tended s) {answer : Option Nat} (hw : s.wait answer = some s') :
    Tended s' := by
  rcases wait_cases hw with rfl | ⟨pid, -, rfl⟩
  · exact h
  · constructor
    · intro c hc
      exact h.child c (List.mem_of_mem_filter hc)
    · intro hwait c hc
      exact h.posted hwait c (List.mem_of_mem_filter hc)

theorem Tended.childStep (hone : OneWorker s) (h : Tended s) {pid : Nat}
    {step : Proc → Option After} (hs : s.childStep pid step = some s')
    (hstep : ∀ c ∈ s.children, c.pid = pid → c.zombie = false → ∀ q,
      step c.proc = some (.goesOn q) → ChildOk q ∧ (Posted c.proc → Posted q)) : Tended s' := by
  obtain ⟨c, r, hcs, hpid, hlive, hr, rfl⟩ := hone.childStep_cases hs
  have hc : c ∈ s.children := by simp [hcs]
  cases r with
  | exits q =>
    constructor
    · intro d hd hz
      rw [List.mem_singleton.mp hd] at hz
      cases hz
    · intro _ d hd hz
      rw [List.mem_singleton.mp hd] at hz
      cases hz
  | goesOn q =>
    obtain ⟨hok, hposted⟩ := hstep c hc hpid hlive q hr
    constructor
    · intro d hd _
      rw [List.mem_singleton.mp hd]
      exact hok
    · intro hwait d hd _
      rw [List.mem_singleton.mp hd]
      exact hposted (h.posted hwait c hc hlive)

theorem acceptLoop_tended {e : ParentEvent} (hone : OneWorker s) (h : Tended s)
    (he : acceptLoop code s e = some s') : Tended s' := by
  cases acceptLoop_move he with
  | noSocket | socket | forkFails | createClear | createClearFails | closeListen =>
    exact h.of_parent (by simp [Waiting])
  | listen _ ok => cases ok <;> exact h.of_parent (by simp [Waiting])
  | acceptFails =>
    refine h.of_parent ?_
    simp only [Waiting]
    split
    · simp
    · split <;> simp
  | accept | closeConn =>
    refine h.of_parent ?_
    simp only [Waiting]
    split <;> simp
  -- the signal reaches the child: it is the one `child_pid` names
  | kill =>
    refine (h.kill s.parent.childPid).of_parent fun _ c hc hlive => ?_
    obtain ⟨d, hd, -, hz, hproc⟩ := mem_kill hc
    rcases hproc with ⟨-, hzombie⟩ | hproc
    · have hdead := hzombie (hone.pid d hd).1
      rw [← hz, hlive] at hdead
      cases hdead
    · rw [hproc]
      exact .inl rfl
  | wait hpc hu =>
    refine (h.wait hu).of_parent fun _ => ?_
    exact (h.wait hu).posted (.inl (by rw [(wait_parent hu).1, hpc]))
  | isAlive hpc => exact h.of_parent fun _ => h.posted (.inr hpc)
  | fork hpc =>
    have hnil := hone.fork hpc
    constructor
    · intro c hc _
      rw [hnil, List.nil_append, List.mem_singleton] at hc
      subst hc
      exact .inl ⟨code.init, forked_main code s.parent, code.init_ends, rfl⟩
    · simp [Waiting]

theorem parentClear_tended {ct : ClearThread} {e : ClearEvent} (h : Tended s)
    (he : parentClear code s ct e = some s') : Tended s' := by
  cases parentClear_move he with
  | kill => exact (h.kill ct.childPid).of_main rfl
  | wait _ hu => exact (h.wait hu).of_main rfl
  | own hp => exact h.of_main (clearStep_main hp).1
  | exit => exact ⟨h.child, h.posted⟩

theorem step_tended {e : Event} (hone : OneWorker s) (h : Tended s) (hC : NoFailedInit s e)
    (he : (server code fds).step s e = some s') : Tended s' := by
  cases server_move he with
  | parent _ he => exact acceptLoop_tended hone h he
  | parentClear _ he => exact parentClear_tended h he
  | parentSignal => exact h.of_main rfl
  | parentHandler => exact h.of_main rfl
  | kill pid => exact h.kill pid
  | child he =>
    refine h.childStep hone he fun c hc hpid hlive q hq => ?_
    exact (h.child c hc hlive).mainStep hq fun hfailed => hC hfailed c hc hpid
  | childClear he =>
    refine h.childStep hone he fun c hc _ hlive q hq => ?_
    obtain ⟨ct, hct, hq⟩ := Option.bind_eq_some_iff.mp hq
    exact (h.child c hc hlive).clearStep hct hq
  | childExit he => exact h.childStep hone he fun c hc _ hlive q hq => by cases hq
  | childHandler he =>
    refine h.childStep hone he fun c hc _ hlive q hq => ?_
    obtain ⟨-, hq⟩ := Option.ite_none_right_eq_some.mp hq
    cases hq
    exact ⟨h.child c hc hlive, fun _ => .inr ⟨rfl, .inl (Nat.succ_pos _)⟩⟩

theorem Tended.stoppable (h : Tended s) : Stoppable code s := by
  intro hwait c hc hlive
  have hok := h.child c hc hlive
  exact ⟨hok.willClear, hok.signalled (h.posted hwait c hc hlive)⟩

/-- In every run in which no step of a child's initialisation fails other than with `exit(0)`,
the child the parent waits for is gone, or it has or will have a clear thread that exits. -/
theorem server_stopsWorker
    (hes : (server code fds).EachStep NoFailedInit (startState fds) es) :
    (server code fds).Always (Stoppable code) (startState fds) es := by
  refine Machine.Always.mono (fun _ h => Tended.stoppable h)
    (Machine.always_of_eachStep (fun s e s' h he => step_oneWorker h he)
      (fun s e s' hone h hC he => step_tended hone h hC he) (oneWorker_startState fds) ?_ hes)
  exact ⟨fun _ hc => absurd hc List.not_mem_nil, fun _ _ hc => absurd hc List.not_mem_nil⟩

/-- A second client, for whom the parent stops the first one's child. -/
def replacedClient : List Event :=
  firstClient ++
  [.child 100 .closed, .child 100 (.opened (some 7)), .child 100 (.call true),
   .child 100 (.call true), .child 100 (.call true),
   .parent (.accept (some 5)), .parent .kill, .sigHandler (some 100)]

theorem server_stopsWorker_replacedClient : ∃ s,
    (server createCmdStatusTransServer [0, 1, 2]).run (startState [0, 1, 2]) replacedClient =
      some s ∧ Waiting s ∧ s.children.length = 1 ∧ Stoppable createCmdStatusTransServer s := by
  have hrun : ((server createCmdStatusTransServer [0, 1, 2]).run (startState [0, 1, 2])
      replacedClient).map (fun s => (s.parent.main, s.children.length)) = some (.wait, 1) := by
    decide +kernel
  obtain ⟨s, hs, h⟩ := Option.map_eq_some_iff.mp hrun
  obtain ⟨hmain, hlen⟩ := Prod.mk.inj h
  have hall : (server createCmdStatusTransServer [0, 1, 2]).Always
      (Stoppable createCmdStatusTransServer) (startState [0, 1, 2]) replacedClient :=
    server_stopsWorker (by decide +kernel)
  exact ⟨s, hs, .inl hmain, hlen, hall.last hs⟩

/-- A run to a state in which the parent waits for a child whose main thread is in `pause` and
that has no clear thread. -/
theorem not_stoppable_of_run
    (hrun : ((server code fds).run (startState fds) es).map (fun s =>
      (s.parent.main, s.children.map fun c => (c.zombie, c.proc.main, c.proc.clear))) =
        some (.wait, [(false, .pause, none)])) :
    ∃ s, (server code fds).run (startState fds) es = some s ∧ ¬ Stoppable code s := by
  obtain ⟨s, hs, h⟩ := Option.map_eq_some_iff.mp hrun
  obtain ⟨hwait, hcs⟩ := Prod.mk.inj h
  obtain ⟨c, hone, hc⟩ := List.map_eq_singleton_iff.mp hcs
  simp only [Prod.mk.injEq] at hc
  obtain ⟨hlive, hmain, hclear⟩ := hc
  refine ⟨s, hs, fun hstop => ?_⟩
  rcases (hstop (.inl hwait) c (by simp [hone]) hlive).1 with hne | ⟨todo, htodo, -⟩
  · exact hne hclear
  · rw [hmain] at htodo
    cases htodo

/-- As before, but the first client's child cannot open the device; `before` are the steps it
makes until then. -/
def failedDevice (before : List Event) : List Event :=
  firstClient ++ before ++
  [.child 100 (.opened none),
   .parent (.accept (some 5)), .parent .kill, .sigHandler (some 100)]

/-- In either server the parent waits for the child that could not open the device. -/
theorem failedDevice_not_stopped :
    (∃ s, (server createAcqDataTransServer [0, 1, 2]).run (startState [0, 1, 2])
      (failedDevice []) = some s ∧ ¬ Stoppable createAcqDataTransServer s) ∧
    ∃ s, (server createCmdStatusTransServer [0, 1, 2]).run (startState [0, 1, 2])
      (failedDevice [.child 100 .closed]) = some s ∧ ¬ Stoppable createCmdStatusTransServer s := by
  constructor
  · exact not_stoppable_of_run (by decide +kernel)
  · exact not_stoppable_of_run (by decide +kernel)

end ITrace.Server
