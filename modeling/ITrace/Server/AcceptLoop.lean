import ITrace.Server.Process
import ITrace.Misc.Machine

/-!
# A server and its children

The parent in its accept loop together with the children it forked, as one machine. Every event
is a step of one thread of one process, a signal, or the end of a child; the kernel's answers are
part of the events. A child that ended stays in the table as a zombie until a `wait` of the
parent reaps it.
-/

namespace ITrace.Server

open ITrace

structure Child where
  pid : Nat
  proc : Proc
  zombie : Bool
  deriving DecidableEq

/-- Once the parent has `exited`, `parent` is as it was right before. -/
structure State where
  parent : Proc
  exited : Bool
  children : List Child
  deriving DecidableEq

inductive ParentEvent where
  | netsock (answer : Option Int)
  | listen (ok : Bool)
  | accept (answer : Option Int)
  | kill
  | wait (answer : Option Nat)
  | isAlive (answer : SysResult)
  | fork (answer : Option Nat)
  | closeFd
  | createThread (ok : Bool)

inductive Event where
  | parent (e : ParentEvent)
  | parentClear (e : ClearEvent)
  | child (pid : Nat) (answer : InitAnswer)
  | childClear (pid : Nat) (e : ClearEvent)
  | childExit (pid : Nat)
  | sigint (who : Option Nat)
  | sigHandler (who : Option Nat)

/-- `kill(pid, SIGINT)`. -/
def State.kill (s : State) (pid : Int) : State :=
  { s with children := s.children.map fun c =>
      if (c.pid : Int) = pid ∧ c.zombie = false then { c with proc.pending := true } else c }

/-- `wait`: a zombie is reaped, or the call failed or was interrupted. -/
def State.wait (s : State) : Option Nat → Option State
  | none => some s
  | some pid =>
      if ∃ c ∈ s.children, c.pid = pid ∧ c.zombie = true then
        some { s with children := s.children.filter fun c => c.pid ≠ pid }
      else none

/-- What a fork leaves of the parent in the child: the calling thread only, no pending signal,
and the variables and descriptors as they are. -/
def Proc.forked (code : ServerCode) (p : Proc) : Proc :=
  { p with main := initPc code.init, clear := none, pending := false, childPid := 0, own := [],
           closeCalls := [] }

theorem forked_main (code : ServerCode) (p : Proc) : (p.forked code).main = .init code.init :=
  initPc_of_endsInClear code.init_ends

/-- A step of the main thread of the parent (`acq server.c:18-221`, `cmd server.c:48-187`). -/
def acceptLoop (code : ServerCode) (s : State) : ParentEvent → Option State := fun e =>
  match s.parent.main, e with
  | .createSrvNetsock, .netsock none => some { s with parent.main := .pause }
  | .createSrvNetsock, .netsock (some fd) =>
      if s.parent.Fresh fd then
        some { s with parent.listenFd := fd, parent.fds := fd :: s.parent.fds,
                      parent.main := .listen }
      else none
  | .listen, .listen ok => some { s with parent.main := if ok then .accept else .exitCloseListen }
  | .accept, .accept none =>
      some { s with parent.connFd := -1, parent.main :=
        if s.parent.hasClearThread = false ∧ s.parent.sysStatus = .stop then .exitCloseListen
        else if s.parent.listenFd > 0 then .accept else .listen }
  | .accept, .accept (some fd) =>
      if s.parent.Fresh fd then
        some { s with parent.connFd := fd, parent.fds := fd :: s.parent.fds,
                      parent.main := if s.parent.childPid > 0 then .kill else .fork }
      else none
  | .kill, .kill => some { s.kill s.parent.childPid with parent.main := .wait }
  | .wait, .wait answer => (s.wait answer).map fun s => { s with parent.main := .isAlive }
  -- ESRCH means that there is no such process, not even a zombie
  | .isAlive, .isAlive answer =>
      if answer = .err .ESRCH ∧ ∃ c ∈ s.children, (c.pid : Int) = s.parent.childPid then none
      else some { s with parent.main := if isProcessAlive answer = 1 then .isAlive else .fork }
  | .fork, .fork none => some { s with parent.childPid := -1, parent.main := .closeConn }
  | .fork, .fork (some pid) =>
      if 0 < pid ∧ ∀ c ∈ s.children, c.pid ≠ pid then
        some { s with parent.childPid := pid, parent.main := .closeConn,
                      children := s.children ++ [⟨pid, s.parent.forked code, false⟩] }
      else none
  | .closeConn, .closeFd =>
      some { s with parent := { s.parent.closeConn with
        main := if s.parent.hasClearThread then .accept else .createClear } }
  | .createClear, .createThread ok =>
      some (if ok then
          { s with parent.clear := some ⟨.semWait, code.sourcePid s.parent.childPid⟩,
                   parent.hasClearThread := true, parent.main := .accept }
        else { s with parent.main := .exitCloseListen })
  | .exitCloseListen, .closeFd =>
      some { s with parent := { s.parent.closeListen with main := .pause } }
  | _, _ => none

/-- A step of the parent's clear thread. -/
def parentClear (code : ServerCode) (s : State) (ct : ClearThread) : ClearEvent → Option State :=
  fun e =>
    match ct.pc, e with
    | .kill, .kill =>
        some { s.kill ct.childPid with parent.clear := some { ct with pc := .wait } }
    | .wait, .wait answer =>
        (s.wait answer).map fun s => { s with parent.clear := some { ct with pc := .close } }
    | _, e =>
        (s.parent.clearStep code ct e).map fun
          | .goesOn p => { s with parent := p }
          | .exits _ => { s with exited := true }

/-- What is left of a process that has ended: it has no clear thread and no descriptor. -/
def Proc.ended (p : Proc) : Proc := { p with clear := none, fds := [], own := [] }

/-- What a child became: it goes on with another process image, or it is a zombie. -/
def Child.after (c : Child) : After → Child
  | .goesOn p => { c with proc := p }
  | .exits p => { c with proc := p.ended, zombie := true }

/-- A step of the child `pid` alone. -/
def State.childStep (s : State) (pid : Nat) (step : Proc → Option After) : Option State :=
  match s.children.find? fun c => c.pid = pid && !c.zombie with
  | none => none
  | some c =>
      (step c.proc).map fun r =>
        { s with children := s.children.map fun d => if d.pid = pid then d.after r else d }

/-- What a step of the child's main thread does. -/
def Proc.mainStep (p : Proc) (answer : InitAnswer) : Option After :=
  match p.main with
  | .init ((op, onFail) :: rest) => p.initStep op onFail rest answer
  | _ => none

/-- What a step of the child's clear thread does. -/
def Proc.childClearStep (code : ServerCode) (p : Proc) (e : ClearEvent) : Option After :=
  p.clear.bind fun ct => p.clearStep code ct e

/-- The state in which `main` calls the function. -/
def startState (fds : List Int) : State where
  parent := ⟨.running, 0, false, .createSrvNetsock, none, -1, -1, -1, 0, false, fds, [], []⟩
  exited := false
  children := []

/-- The server with the code `code`, in a process that has the descriptors `fds` open. -/
def server (code : ServerCode) (fds : List Int) : Machine State Event where
  init s := s = startState fds
  step s
    | .parent e => if s.exited then none else acceptLoop code s e
    | .parentClear e =>
        if s.exited then none else s.parent.clear.bind fun ct => parentClear code s ct e
    | .child pid answer => s.childStep pid fun p => p.mainStep answer
    | .childClear pid e => s.childStep pid fun p => p.childClearStep code e
    | .childExit pid => s.childStep pid fun p => some (.exits p)
    | .sigint none => if s.exited then none else some { s with parent.pending := true }
    | .sigint (some pid) => some (s.kill pid)
    | .sigHandler none =>
        if s.exited || !s.parent.pending then none
        else some { s with parent := s.parent.sigHandler }
    | .sigHandler (some pid) =>
        s.childStep pid fun p => if p.pending then some (.goesOn p.sigHandler) else none

end ITrace.Server
