import ITrace.Server.AcceptLoop
import Mathlib.Data.List.Basic

/-!
# What a step of a server can do

The step functions of `Process` and `AcceptLoop` turned over: for each of them what it leaves,
so that no proof about a server takes them apart again. A child is only ever touched by a signal,
by a `wait` that reaps it, or by its own steps.
-/

namespace ITrace.Server

variable {code : ServerCode} {fds : List Int} {s s' : State}

/-! ### One process -/

theorem initFailed_cases {p q : Proc} {rest : List (InitOp × OnFail)} {onFail : OnFail}
    (h : p.initFailed rest onFail = .goesOn q) : onFail.exits = false ∧
      q = { p with main := if onFail = .gotoExit then .pause else initPc rest } := by
  cases onFail <;> cases h <;> exact ⟨rfl, rfl⟩

/-- An error branch that ends in `exit(0)` leaves a `close_fd` behind. -/
theorem initFailed_exits {p q : Proc} {rest : List (InitOp × OnFail)} {onFail : OnFail}
    (h : p.initFailed rest onFail = .exits q) : onFail.exits = true ∧ q.connFd = p.connFd ∧
      q.closeCalls = p.closeCalls ++ [⟨p.devFd, p.fds⟩] := by
  cases onFail <;> cases h <;> exact ⟨rfl, rfl, rfl⟩

/-- What a step of the initialisation leaves. -/
inductive InitMove (p : Proc) (op : InitOp) (onFail : OnFail) (rest : List (InitOp × OnFail)) :
    InitAnswer → After → Prop
  | failed {answer : InitAnswer} (hfailed : answer.failed = true) (hop : op ≠ .closeListen)
      (new : List Int) : InitMove p op onFail rest answer
        ({ p with fds := new ++ p.fds, own := new ++ p.own }.initFailed rest onFail)
  | done {answer : InitAnswer} (hok : answer.failed = false) (hclosed : answer ≠ .closed)
      (hop : op ≠ .closeListen) (hclear : op ≠ .createClear) (new : List Int) (devFd : Int) :
      InitMove p op onFail rest answer (.goesOn { p with
        fds := new ++ p.fds, own := new ++ p.own, devFd := devFd, main := initPc rest })
  | closed (hop : op = .closeListen) :
      InitMove p op onFail rest .closed (.goesOn { p.closeListen with main := initPc rest })
  | created (hop : op = .createClear) : InitMove p op onFail rest (.call true)
      (.goesOn { p with clear := some ⟨.semWait, 0⟩, main := initPc rest })

theorem initStep_move {p : Proc} {op : InitOp} {onFail : OnFail} {rest : List (InitOp × OnFail)}
    {answer : InitAnswer} {r : After}
    (h : p.initStep op onFail rest answer = some r) : InitMove p op onFail rest answer r := by
  unfold Proc.initStep at h
  split at h
  case h_2 fd =>
    obtain ⟨-, h⟩ := Option.ite_none_right_eq_some.mp h
    by_cases hneg : fd ≤ 0
    · simp only [hneg, if_true] at h
      cases h
      exact .failed (by simpa [InitAnswer.failed] using hneg) (by simp) [fd]
    · simp only [hneg, if_false] at h
      cases h
      exact .done (by simpa [InitAnswer.failed] using hneg) (by simp) (by simp) (by simp) [fd] fd
  case h_3 =>
    cases h
    exact .closed rfl
  case h_5 new =>
    obtain ⟨-, h⟩ := Option.ite_none_right_eq_some.mp h
    cases h
    exact .done rfl (by simp) (by simp) (by simp) new p.devFd
  case h_6 =>
    cases h
    exact .created rfl
  case h_7 | h_8 | h_9 | h_10 =>
    cases h
    exact .done rfl (by simp) (by simp) (by simp) [] p.devFd
  case h_16 => cases h
  all_goals
    cases h
    exact .failed rfl (by simp) []

/-- A step of the initialisation that does not end the process calls `close_fd` only for `listen_fd`,
and takes no error branch that ends the process. -/
theorem initStep_calls {p q : Proc} {op : InitOp} {onFail : OnFail}
    {rest : List (InitOp × OnFail)} {answer : InitAnswer}
    (h : p.initStep op onFail rest answer = some (.goesOn q)) :
    (answer ≠ .closed → q.closeCalls = p.closeCalls) ∧
    (answer.failed = true → onFail.exits = false) := by
  generalize hr : After.goesOn q = r at h
  cases initStep_move h with
  | failed =>
    obtain ⟨hexits, hq⟩ := initFailed_cases hr.symm
    rw [hq]
    exact ⟨fun _ => rfl, fun _ => hexits⟩
  | done hok =>
    cases hr
    exact ⟨fun _ => rfl, fun hfailed => by rw [hok] at hfailed; cases hfailed⟩
  | closed =>
    cases hr
    exact ⟨fun hne => absurd rfl hne, fun hfailed => by cases hfailed⟩
  | created =>
    cases hr
    exact ⟨fun _ => rfl, fun hfailed => by cases hfailed⟩

/-- A step that ends in `exit(0)` calls `close_fd` for the device, which stays in the table. -/
theorem initStep_exits {p q : Proc} {op : InitOp} {onFail : OnFail}
    {rest : List (InitOp × OnFail)} {answer : InitAnswer}
    (h : p.initStep op onFail rest answer = some (.exits q)) :
    answer.failed = true ∧ onFail.exits = true ∧ q.connFd = p.connFd ∧
    ∃ new, q.closeCalls = p.closeCalls ++ [⟨p.devFd, new ++ p.fds⟩] := by
  generalize hr : After.exits q = r at h
  cases initStep_move h with
  | failed hfailed hop new =>
    obtain ⟨hexits, hconn, hcalls⟩ := initFailed_exits hr.symm
    exact ⟨hfailed, hexits, hconn, new, hcalls⟩
  | done | closed | created => cases hr

/-- A step of a child's main thread is a step of its initialisation. -/
theorem mainStep_cases {p : Proc} {answer : InitAnswer} {r : After}
    (h : p.mainStep answer = some r) : ∃ op onFail rest,
      p.main = .init ((op, onFail) :: rest) ∧ p.initStep op onFail rest answer = some r := by
  unfold Proc.mainStep at h
  split at h
  · rename_i hmain
    exact ⟨_, _, _, hmain, h⟩
  · cases h

/-- What a step of a clear thread leaves that concerns no other process. -/
inductive ClearMove (code : ServerCode) (p : Proc) (ct : ClearThread) : After → Prop
  | wake (hpc : ct.pc = .semWait) (sem : Nat) :
      ClearMove code p ct (.goesOn { p with sem := sem, clear := some { ct with pc := .check } })
  | check (hpc : ct.pc = .check) :
      ClearMove code p ct (.goesOn { p with clear := some { ct with
        pc := if p.sysStatus = .stop then code.afterStop ct.childPid else .semWait } })
  | reset (hpc : ct.pc = .reset) :
      ClearMove code p ct (.goesOn { p with clear := some { ct with pc := .close } })
  | exit (hpc : ct.pc = .close) : ClearMove code p ct (.exits p)

theorem clearStep_move {p : Proc} {ct : ClearThread} {e : ClearEvent} {r : After}
    (he : p.clearStep code ct e = some r) : ClearMove code p ct r := by
  unfold Proc.clearStep at he
  split at he
  case h_1 hpc =>
    obtain ⟨-, he⟩ := Option.ite_none_right_eq_some.mp he
    cases he
    exact .wake hpc (p.sem - 1)
  case h_2 hpc =>
    cases he
    exact .wake hpc p.sem
  case h_3 hpc =>
    cases he
    exact .check hpc
  case h_4 hpc =>
    cases he
    exact .reset hpc
  case h_5 hpc =>
    cases he
    exact .exit hpc
  case h_6 => cases he

/-- A clear thread changes neither the place nor the variables of the main thread. -/
theorem clearStep_main {p p' : Proc} {ct : ClearThread} {e : ClearEvent}
    (he : p.clearStep code ct e = some (.goesOn p')) :
    p'.main = p.main ∧ p'.childPid = p.childPid ∧ p'.devFd = p.devFd ∧ p'.fds = p.fds ∧
    p'.listenFd = p.listenFd ∧ p'.connFd = p.connFd ∧ p'.own = p.own ∧
    p'.closeCalls = p.closeCalls := by
  cases clearStep_move he <;> exact ⟨rfl, rfl, rfl, rfl, rfl, rfl, rfl, rfl⟩

/-! ### The table of children -/

theorem mem_kill {pid : Int} {c : Child} (h : c ∈ (s.kill pid).children) :
    ∃ d ∈ s.children, c.pid = d.pid ∧ c.zombie = d.zombie ∧
      (c.proc = d.proc ∧ ((d.pid : Int) = pid → d.zombie = true) ∨
        c.proc = { d.proc with pending := true }) := by
  obtain ⟨d, hd, hc⟩ := List.mem_map.mp h
  refine ⟨d, hd, ?_⟩
  by_cases hcase : (d.pid : Int) = pid ∧ d.zombie = false
  · rw [if_pos hcase] at hc
    subst hc
    exact ⟨rfl, rfl, .inr rfl⟩
  · rw [if_neg hcase] at hc
    subst hc
    exact ⟨rfl, rfl, .inl ⟨rfl, fun hp => by simpa [hp] using hcase⟩⟩

theorem wait_cases {answer : Option Nat} (h : s.wait answer = some s') :
    s' = s ∨ ∃ pid, (∃ c ∈ s.children, c.pid = pid ∧ c.zombie = true) ∧
      s' = { s with children := s.children.filter fun c => c.pid ≠ pid } := by
  cases answer with
  | none =>
    cases h
    exact .inl rfl
  | some pid =>
    obtain ⟨hz, h⟩ := Option.ite_none_right_eq_some.mp h
    cases h
    exact .inr ⟨pid, hz, rfl⟩

/-- Every child of `s'` is one of `s`, with a SIGINT pending at most. -/
def Inherited (s s' : State) : Prop :=
  ∀ c ∈ s'.children, ∃ d ∈ s.children, c.pid = d.pid ∧ c.zombie = d.zombie ∧
    (c.proc = d.proc ∨ c.proc = { d.proc with pending := true })

theorem Inherited.of_children (h : s'.children = s.children) : Inherited s s' :=
  fun c hc => ⟨c, h ▸ hc, rfl, rfl, .inl rfl⟩

theorem inherited_kill (s : State) (pid : Int) : Inherited s (s.kill pid) := by
  intro c hc
  obtain ⟨d, hd, hpid, hz, hproc⟩ := mem_kill hc
  exact ⟨d, hd, hpid, hz, hproc.imp_left And.left⟩

theorem inherited_wait {answer : Option Nat} (h : s.wait answer = some s') : Inherited s s' := by
  rcases wait_cases h with rfl | ⟨pid, -, rfl⟩
  · exact .of_children rfl
  · exact fun c hc => ⟨c, List.mem_of_mem_filter hc, rfl, rfl, .inl rfl⟩

theorem wait_parent {answer : Option Nat} (h : s.wait answer = some s') :
    s'.parent = s.parent ∧ s'.exited = s.exited := by
  rcases wait_cases h with rfl | ⟨pid, -, rfl⟩ <;> exact ⟨rfl, rfl⟩

/-- A step of a child alone replaces the child. -/
theorem childStep_cases {pid : Nat} {step : Proc → Option After}
    (h : s.childStep pid step = some s') :
    ∃ c ∈ s.children, c.pid = pid ∧ c.zombie = false ∧ ∃ r, step c.proc = some r ∧
      s' = { s with children := s.children.map fun d => if d.pid = pid then d.after r else d } := by
  unfold State.childStep at h
  split at h
  · cases h
  · rename_i c hc
    obtain ⟨r, hr, rfl⟩ := Option.map_eq_some_iff.mp h
    have hpid := List.find?_some hc
    simp only [Bool.and_eq_true, decide_eq_true_eq, Bool.not_eq_true'] at hpid
    exact ⟨c, List.mem_of_find?_eq_some hc, hpid.1, hpid.2, r, hr, rfl⟩

@[simp] theorem after_pid (c : Child) (r : After) : (c.after r).pid = c.pid := by
  cases r <;> rfl

/-! ### The parent -/

/-- The steps of the parent's main thread. -/
inductive AcceptMove (code : ServerCode) (s : State) : ParentEvent → State → Prop
  | noSocket (hpc : s.parent.main = .createSrvNetsock) :
      AcceptMove code s (.netsock none) { s with parent.main := .pause }
  | socket (hpc : s.parent.main = .createSrvNetsock) {fd : Int} (hfresh : s.parent.Fresh fd) :
      AcceptMove code s (.netsock (some fd))
        { s with parent.listenFd := fd, parent.fds := fd :: s.parent.fds, parent.main := .listen }
  | listen (hpc : s.parent.main = .listen) (ok : Bool) :
      AcceptMove code s (.listen ok)
        { s with parent.main := if ok then .accept else .exitCloseListen }
  | acceptFails (hpc : s.parent.main = .accept) :
      AcceptMove code s (.accept none)
        { s with parent.connFd := -1, parent.main :=
            if s.parent.hasClearThread = false ∧ s.parent.sysStatus = .stop then .exitCloseListen
            else if s.parent.listenFd > 0 then .accept else .listen }
  | accept (hpc : s.parent.main = .accept) {fd : Int} (hfresh : s.parent.Fresh fd) :
      AcceptMove code s (.accept (some fd))
        { s with parent.connFd := fd, parent.fds := fd :: s.parent.fds,
                 parent.main := if s.parent.childPid > 0 then .kill else .fork }
  | kill (hpc : s.parent.main = .kill) :
      AcceptMove code s .kill { s.kill s.parent.childPid with parent.main := .wait }
  | wait (hpc : s.parent.main = .wait) {answer : Option Nat} {u : State}
      (hu : s.wait answer = some u) :
      AcceptMove code s (.wait answer) { u with parent.main := .isAlive }
  | isAlive (hpc : s.parent.main = .isAlive) {answer : SysResult}
      (hgone : ¬ (answer = .err .ESRCH ∧ ∃ c ∈ s.children, (c.pid : Int) = s.parent.childPid)) :
      AcceptMove code s (.isAlive answer)
        { s with parent.main := if isProcessAlive answer = 1 then .isAlive else .fork }
  | forkFails (hpc : s.parent.main = .fork) :
      AcceptMove code s (.fork none) { s with parent.childPid := -1, parent.main := .closeConn }
  | fork (hpc : s.parent.main = .fork) {pid : Nat} (hpos : 0 < pid)
      (hnew : ∀ c ∈ s.children, c.pid ≠ pid) :
      AcceptMove code s (.fork (some pid))
        { s with parent.childPid := pid, parent.main := .closeConn,
                 children := s.children ++ [⟨pid, s.parent.forked code, false⟩] }
  | closeConn (hpc : s.parent.main = .closeConn) :
      AcceptMove code s .closeFd
        { s with parent := { s.parent.closeConn with
            main := if s.parent.hasClearThread then .accept else .createClear } }
  | createClear (hpc : s.parent.main = .createClear) :
      AcceptMove code s (.createThread true)
        { s with parent.clear := some ⟨.semWait, code.sourcePid s.parent.childPid⟩,
                 parent.hasClearThread := true, parent.main := .accept }
  | createClearFails (hpc : s.parent.main = .createClear) :
      AcceptMove code s (.createThread false) { s with parent.main := .exitCloseListen }
  | closeListen (hpc : s.parent.main = .exitCloseListen) :
      AcceptMove code s .closeFd { s with parent := { s.parent.closeListen with main := .pause } }

theorem acceptLoop_move {e : ParentEvent} (he : acceptLoop code s e = some s') :
    AcceptMove code s e s' := by
  unfold acceptLoop at he
  split at he
  case h_1 hpc =>
    cases he
    exact .noSocket hpc
  case h_2 hpc =>
    obtain ⟨hfresh, he⟩ := Option.ite_none_right_eq_some.mp he
    cases he
    exact .socket hpc hfresh
  case h_3 hpc =>
    cases he
    exact .listen hpc _
  case h_4 hpc =>
    cases he
    exact .acceptFails hpc
  case h_5 hpc =>
    obtain ⟨hfresh, he⟩ := Option.ite_none_right_eq_some.mp he
    cases he
    exact .accept hpc hfresh
  case h_6 hpc =>
    cases he
    exact .kill hpc
  case h_7 hpc =>
    obtain ⟨u, hu, rfl⟩ := Option.map_eq_some_iff.mp he
    exact .wait hpc hu
  case h_8 hpc =>
    obtain ⟨hgone, he⟩ := Option.ite_none_left_eq_some.mp he
    cases he
    exact .isAlive hpc hgone
  case h_9 hpc =>
    cases he
    exact .forkFails hpc
  case h_10 hpc =>
    obtain ⟨⟨hpos, hnew⟩, he⟩ := Option.ite_none_right_eq_some.mp he
    cases he
    exact .fork hpc hpos hnew
  case h_11 hpc =>
    cases he
    exact .closeConn hpc
  case h_12 ok hpc =>
    cases he
    cases ok
    · exact .createClearFails hpc
    · exact .createClear hpc
  case h_13 hpc =>
    cases he
    exact .closeListen hpc
  case h_14 => cases he

/-- The steps of the parent's clear thread; `own` and `exit` concern no child. -/
inductive ParentClearMove (code : ServerCode) (s : State) (ct : ClearThread) :
    ClearEvent → State → Prop
  | kill (hpc : ct.pc = .kill) :
      ParentClearMove code s ct .kill
        { s.kill ct.childPid with parent.clear := some { ct with pc := .wait } }
  | wait (hpc : ct.pc = .wait) {answer : Option Nat} {u : State} (hu : s.wait answer = some u) :
      ParentClearMove code s ct (.wait answer)
        { u with parent.clear := some { ct with pc := .close } }
  | own {e : ClearEvent} {p : Proc} (hp : s.parent.clearStep code ct e = some (.goesOn p)) :
      ParentClearMove code s ct e { s with parent := p }
  | exit {e : ClearEvent} {p : Proc} (hexit : s.parent.clearStep code ct e = some (.exits p)) :
      ParentClearMove code s ct e { s with exited := true }

theorem parentClear_move {ct : ClearThread} {e : ClearEvent}
    (he : parentClear code s ct e = some s') : ParentClearMove code s ct e s' := by
  unfold parentClear at he
  split at he
  case h_1 hpc =>
    cases he
    exact .kill hpc
  case h_2 hpc =>
    obtain ⟨u, hu, rfl⟩ := Option.map_eq_some_iff.mp he
    exact .wait hpc hu
  case h_3 =>
    obtain ⟨r, hr, rfl⟩ := Option.map_eq_some_iff.mp he
    cases r with
    | goesOn p => exact .own hr
    | exits p => exact .exit hr

/-- After a step of the parent the children are those from before, unless it forked. -/
theorem acceptLoop_children {e : ParentEvent} (he : acceptLoop code s e = some s') :
    Inherited s s' ∨ (s.parent.main = .fork ∧ ∃ pid,
      s'.children = s.children ++ [⟨pid, s.parent.forked code, false⟩]) := by
  cases acceptLoop_move he with
  | kill => exact .inl (inherited_kill s s.parent.childPid)
  | wait _ hu => exact .inl fun c hc => inherited_wait hu c hc
  | fork hpc => exact .inr ⟨hpc, _, rfl⟩
  | noSocket | socket | listen | acceptFails | accept | isAlive | forkFails | closeConn
  | createClear | createClearFails | closeListen => exact .inl (.of_children rfl)

theorem parentClear_children {ct : ClearThread} {e : ClearEvent}
    (he : parentClear code s ct e = some s') : Inherited s s' := by
  cases parentClear_move he with
  | kill => exact inherited_kill s ct.childPid
  | wait _ hu => exact fun c hc => inherited_wait hu c hc
  | own | exit => exact .of_children rfl

/-! ### The whole server -/

/-- What a step of the server is, by the process and the thread that makes it. -/
inductive ServerMove (code : ServerCode) (s : State) : Event → State → Prop
  | parent {e : ParentEvent} {s' : State} (hrun : s.exited = false)
      (he : acceptLoop code s e = some s') : ServerMove code s (.parent e) s'
  | parentClear {ct : ClearThread} {e : ClearEvent} {s' : State} (hct : s.parent.clear = some ct)
      (he : Server.parentClear code s ct e = some s') : ServerMove code s (.parentClear e) s'
  | parentSignal : ServerMove code s (.sigint none) { s with parent.pending := true }
  | parentHandler : ServerMove code s (.sigHandler none) { s with parent := s.parent.sigHandler }
  | kill (pid : Nat) : ServerMove code s (.sigint (some pid)) (s.kill pid)
  | child {pid : Nat} {answer : InitAnswer} {s' : State}
      (he : s.childStep pid (fun p => p.mainStep answer) = some s') :
      ServerMove code s (.child pid answer) s'
  | childClear {pid : Nat} {e : ClearEvent} {s' : State}
      (he : s.childStep pid (fun p => p.childClearStep code e) = some s') :
      ServerMove code s (.childClear pid e) s'
  | childExit {pid : Nat} {s' : State}
      (he : s.childStep pid (fun p => some (.exits p)) = some s') :
      ServerMove code s (.childExit pid) s'
  | childHandler {pid : Nat} {s' : State}
      (he : s.childStep pid
        (fun p => if p.pending then some (.goesOn p.sigHandler) else none) = some s') :
      ServerMove code s (.sigHandler (some pid)) s'

theorem server_move {e : Event} (he : (server code fds).step s e = some s') :
    ServerMove code s e s' := by
  cases e with
  | parent e =>
    obtain ⟨hrun, he⟩ := Option.ite_none_left_eq_some.mp he
    exact .parent (by simpa using hrun) he
  | parentClear e =>
    obtain ⟨-, he⟩ := Option.ite_none_left_eq_some.mp he
    obtain ⟨ct, hct, he⟩ := Option.bind_eq_some_iff.mp he
    exact .parentClear hct he
  | child pid answer => exact .child he
  | childClear pid e => exact .childClear he
  | childExit pid => exact .childExit he
  | sigint who =>
    cases who with
    | none =>
      obtain ⟨-, he⟩ := Option.ite_none_left_eq_some.mp he
      cases he
      exact .parentSignal
    | some pid =>
      cases he
      exact .kill pid
  | sigHandler who =>
    cases who with
    | none =>
      obtain ⟨-, he⟩ := Option.ite_none_left_eq_some.mp he
      cases he
      exact .parentHandler
    | some pid => exact .childHandler he

end ITrace.Server
