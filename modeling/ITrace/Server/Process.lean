import ITrace.General.Syscall

/-!
# One process of a server

`create_acq_data_trans_server` and `create_cmd_status_trans_server` (in listening mode) are the
same accept loop; they differ in what the forked child does before its threads run, in the
`child_pid` they give to the parent's clear thread, and in how `clear_thread` leaves its loop.
`ServerCode` is what differs. This module has the state of one process, parent or child, and the
steps that concern no other process: the child's initialisation, `clear_thread`, `close_fd` and
the signal handler.

The threads that move data are not followed here: that they exist is part of the initialisation,
and a child may exit at any moment whatever they do.
-/

namespace ITrace.Server

open ITrace

/-- Where a clear thread stands. -/
inductive ClearPc where
  | semWait
  | check
  | kill
  | wait
  | reset
  | close
  deriving DecidableEq

/-- A thread in `clear_thread`, with the `child_pid` of its `ProcSource`. -/
structure ClearThread where
  pc : ClearPc
  childPid : Int
  deriving DecidableEq

/-- A step of the child's initialisation. -/
inductive InitOp where
  | openDevice
  | mmap
  | initDmaReadBuffer (index : Nat)
  | closeListen
  | pipes
  | writeInitIndex
  | createThread
  | createClear
  deriving DecidableEq

/-- What the child does when a step of its initialisation fails: `goto Exit`; `exit(0)` after
`close_fd(1, &dma_fd)` or `clear_dma_dev_sour(dma_fd_mmap_area, &dma_fd)`; or nothing but a
message. -/
inductive OnFail where
  | gotoExit
  | closeFd
  | clearDmaDevSour
  | fallThrough
  deriving DecidableEq

/-- The branch ends in `exit(0)`. Each of these calls `close_fd` for the device before. -/
def OnFail.exits : OnFail → Bool
  | .closeFd | .clearDmaDevSour => true
  | .gotoExit | .fallThrough => false

/-- Where the main thread of a process stands; `pause` is the loop at the end of `main`. -/
inductive MainPc where
  | createSrvNetsock
  | listen
  | accept
  | kill
  | wait
  | isAlive
  | fork
  | closeConn
  | createClear
  | exitCloseListen
  | init (todo : List (InitOp × OnFail))
  | pause
  deriving DecidableEq

/-- A call of `close_fd`: the descriptor it was to close, and the table it left. -/
structure CloseCall where
  fd : Int
  left : List Int
  deriving DecidableEq

/-- A process: its copy of the globals `system_status` and `g_sem`, whether a SIGINT is pending,
its threads, the variables of the function, and its table of open descriptors. Since it was forked
it opened the descriptors `own` itself and made the calls `closeCalls` of `close_fd`. -/
structure Proc where
  sysStatus : SystemStatus
  sem : Nat
  pending : Bool
  main : MainPc
  clear : Option ClearThread
  listenFd : Int
  connFd : Int
  devFd : Int
  childPid : Int
  hasClearThread : Bool
  fds : List Int
  own : List Int
  closeCalls : List CloseCall
  deriving DecidableEq

/-- The last step, and only the last, is the creation of the clear thread. -/
def EndsInClear : List (InitOp × OnFail) → Prop
  | [] => False
  | [(op, _)] => op = .createClear
  | (op, _) :: rest => op ≠ .createClear ∧ EndsInClear rest

/-- The device is opened before any step whose error branch is to close it. -/
def OpensFirst : List (InitOp × OnFail) → Prop
  | [] => True
  | (op, onFail) :: rest =>
      (op = .openDevice ∧ onFail = .gotoExit) ∨ (onFail.exits = false ∧ OpensFirst rest)

/-- What distinguishes the two servers. -/
structure ServerCode where
  /-- The child's initialisation, in order. -/
  init : List (InitOp × OnFail)
  /-- The `child_pid` of the `ProcSource` of the parent's clear thread. -/
  sourcePid : Int → Int
  /-- Where `clear_thread` goes when it finds `Stop`. -/
  afterStop : Int → ClearPc
  init_ends : EndsInClear init
  init_closes : (init.map Prod.fst).count .closeListen = 1
  init_opens : OpensFirst init
  afterStop_zero : afterStop 0 = .reset ∨ afterStop 0 = .close

/-- `close_fd(1, &fd)` (`socket_protocol.c:3-20`): the call of `close` is commented out, so the
table stays as it is and the variable is overwritten. -/
def closeFd (fds : List Int) (fd : Int) : List Int × Int := (fds, if fd ≠ 0 then -1 else fd)

/-- A call of `close_fd` for the descriptor `fd`, but for the variable. -/
def Proc.callCloseFd (p : Proc) (fd : Int) : Proc :=
  { p with fds := (closeFd p.fds fd).1,
           closeCalls := p.closeCalls ++ [⟨fd, (closeFd p.fds fd).1⟩] }

def Proc.closeListen (p : Proc) : Proc :=
  { p.callCloseFd p.listenFd with listenFd := (closeFd p.fds p.listenFd).2 }

def Proc.closeConn (p : Proc) : Proc :=
  { p.callCloseFd p.connFd with connFd := (closeFd p.fds p.connFd).2 }

def Proc.closeDevice (p : Proc) : Proc :=
  { p.callCloseFd p.devFd with devFd := (closeFd p.fds p.devFd).2 }

/-- `clear_dma_dev_sour(dma_fd_mmap_area, &dma_fd)` (`acq server.c:381-391`). It hands `close_fd`
the address of its own parameter, so `dma_fd` keeps its value. -/
def Proc.clearDmaDevSour (p : Proc) : Proc := p.callCloseFd p.devFd

/-- A descriptor the kernel may give out. -/
def Proc.Fresh (p : Proc) (fd : Int) : Prop := 0 ≤ fd ∧ fd ∉ p.fds

instance (p : Proc) (fd : Int) : Decidable (p.Fresh fd) := inferInstanceAs (Decidable (_ ∧ _))

/-- `sig_handler` on SIGINT (`acq main.c:8-32`, `cmd main.c:9-34`). -/
def Proc.sigHandler (p : Proc) : Proc :=
  { p with pending := false, sysStatus := .stop, sem := p.sem + 1 }

/-- After a step of the initialisation; after the last one the child falls into `main`'s loop. -/
def initPc : List (InitOp × OnFail) → MainPc
  | [] => .pause
  | op :: rest => .init (op :: rest)

theorem initPc_of_endsInClear {todo : List (InitOp × OnFail)} (h : EndsInClear todo) :
    initPc todo = .init todo := by
  cases todo with
  | nil => exact h.elim
  | cons step rest => rfl

/-- What the process does if the step of the initialisation it is at fails. -/
def Proc.onFail (p : Proc) : OnFail :=
  match p.main with
  | .init ((_, onFail) :: _) => onFail
  | _ => .fallThrough

/-- What a step leaves of a process: it goes on, or it has come to `exit(0)`. -/
inductive After where
  | goesOn (p : Proc)
  | exits (p : Proc)

/-- After a step that failed. -/
def Proc.initFailed (p : Proc) (rest : List (InitOp × OnFail)) : OnFail → After
  | .gotoExit => .goesOn { p with main := .pause }
  | .closeFd => .exits p.closeDevice
  | .clearDmaDevSour => .exits p.clearDmaDevSour
  | .fallThrough => .goesOn { p with main := initPc rest }

/-- The kernel's answer to a step of the initialisation. -/
inductive InitAnswer where
  | opened (fd : Option Int)
  | pipes (fds : Option (List Int))
  | call (ok : Bool)
  | closed
  deriving DecidableEq

/-- The step failed, as the code sees it: `open` must return more than 0. -/
def InitAnswer.failed : InitAnswer → Bool
  | .opened none => true
  | .opened (some fd) => fd ≤ 0
  | .pipes answer => answer.isNone
  | .call ok => !ok
  | .closed => false

/-- A step of the child's initialisation, with the error branch if it fails. -/
def Proc.initStep (p : Proc) (op : InitOp) (onFail : OnFail) (rest : List (InitOp × OnFail)) :
    InitAnswer → Option After := fun answer =>
  match op, answer with
  | .openDevice, .opened none => some (p.initFailed rest onFail)
  | .openDevice, .opened (some fd) =>
      if p.Fresh fd then
        let p := { p with fds := fd :: p.fds, own := fd :: p.own }
        some (if fd ≤ 0 then p.initFailed rest onFail
          else .goesOn { p with devFd := fd, main := initPc rest })
      else none
  | .closeListen, .closed => some (.goesOn { p.closeListen with main := initPc rest })
  | .pipes, .pipes none => some (p.initFailed rest onFail)
  | .pipes, .pipes (some new) =>
      if new.length = 4 ∧ new.Nodup ∧ ∀ fd ∈ new, p.Fresh fd then
        some (.goesOn { p with fds := new ++ p.fds, own := new ++ p.own, main := initPc rest })
      else none
  | .createClear, .call true =>
      some (.goesOn { p with clear := some ⟨.semWait, 0⟩, main := initPc rest })
  | .mmap, .call true | .initDmaReadBuffer _, .call true | .writeInitIndex, .call true
  | .createThread, .call true => some (.goesOn { p with main := initPc rest })
  | .mmap, .call false | .initDmaReadBuffer _, .call false | .writeInitIndex, .call false
  | .createThread, .call false | .createClear, .call false => some (p.initFailed rest onFail)
  | _, _ => none

/-- A step of a clear thread. `semWait taken` is a return of `sem_wait`, with or without having
decremented the semaphore. -/
inductive ClearEvent where
  | semWait (taken : Bool)
  | check
  | kill
  | wait (answer : Option Nat)
  | reset
  | close

/-- A step of `clear_thread` that concerns no other process. The last one closes the descriptors of
the `ProcSource` and calls `exit(0)`, which leaves none open. -/
def Proc.clearStep (code : ServerCode) (p : Proc) (ct : ClearThread) :
    ClearEvent → Option After := fun e =>
  match ct.pc, e with
  | .semWait, .semWait true =>
      if 0 < p.sem then
        some (.goesOn { p with sem := p.sem - 1, clear := some { ct with pc := .check } })
      else none
  | .semWait, .semWait false => some (.goesOn { p with clear := some { ct with pc := .check } })
  | .check, .check =>
      let pc := if p.sysStatus = .stop then code.afterStop ct.childPid else .semWait
      some (.goesOn { p with clear := some { ct with pc := pc } })
  | .reset, .reset => some (.goesOn { p with clear := some { ct with pc := .close } })
  | .close, .close => some (.exits p)
  | _, _ => none

/-- The child's initialisation in `create_acq_data_trans_server` (`acq server.c:71-188`). The
result of `mmap` is compared with `NULL`, so that `MAP_FAILED` does not count as a failure. -/
def acqInit : List (InitOp × OnFail) :=
  [(.openDevice, .gotoExit), (.mmap, .closeFd), (.initDmaReadBuffer 0, .clearDmaDevSour),
   (.initDmaReadBuffer 1, .clearDmaDevSour), (.closeListen, .fallThrough),
   (.pipes, .clearDmaDevSour), (.writeInitIndex, .clearDmaDevSour),
   (.createThread, .clearDmaDevSour), (.createThread, .clearDmaDevSour),
   (.createClear, .clearDmaDevSour)]

/-- `create_acq_data_trans_server`: the `ProcSource` of the parent keeps the `child_pid` 0 of
`init_proc_source`, and `clear_thread` (`acq server.c:349-379`) jumps from its loop to `Clear`. -/
def createAcqDataTransServer : ServerCode where
  init := acqInit
  sourcePid _ := 0
  afterStop _ := .close
  init_ends := by simp [acqInit, EndsInClear]
  init_closes := by decide
  init_opens := .inl ⟨rfl, rfl⟩
  afterStop_zero := .inr rfl

/-- The child's initialisation in `create_cmd_status_trans_server` (`cmd server.c:98-155`). -/
def cmdInit : List (InitOp × OnFail) :=
  [(.closeListen, .fallThrough), (.openDevice, .gotoExit), (.createThread, .gotoExit),
   (.createThread, .gotoExit), (.createClear, .fallThrough)]

/-- `create_cmd_status_trans_server`: `clear_thread` (`cmd server.c:320-360`) leaves its loop and
looks at `child_pid`. -/
def createCmdStatusTransServer : ServerCode where
  init := cmdInit
  sourcePid childPid := childPid
  afterStop childPid := if childPid > 0 then .kill else if childPid = 0 then .reset else .close
  init_ends := by simp [cmdInit, EndsInClear]
  init_closes := by decide
  init_opens := .inr ⟨rfl, .inl ⟨rfl, rfl⟩⟩
  afterStop_zero := .inl rfl

end ITrace.Server
