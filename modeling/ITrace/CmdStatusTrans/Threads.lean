import ITrace.CmdStatusTrans.Device
import ITrace.Misc.Machine

/-!
# The command thread and the status thread

`read_net_cmd_thread` and `send_status_data_thread` of `cmd_status_trans/server.c`, started as
`create_cmd_status_trans_server` starts them in the child: both get the same
`CmdStatusRWThreadParams`, so the status thread changes the `socket_fd` that the command thread
reads again before each of its calls. A thread stands at a program counter between two system
calls or two accesses to the shared parameters, and every event is one such step of one thread
together with the kernel's answer.

Both caches are local to their threads and start at address 0 of a memory of their own.
-/

namespace ITrace.CmdStatusTrans

open ITrace

/-- Why `read_net_cmd_thread` left its loop. -/
inductive ReadNetCmdExit where
  | stop
  | headerFailed
  | bodyFailed
  | deviceFailed
  deriving DecidableEq

/-- The program counter of `read_net_cmd_thread` (`server.c:211-258`). -/
inductive ReadNetCmdPc where
  | whileCond
  | callHeader
  | readHeader (call : Readn)
  | callBody
  | readBody (call : Readn)
  | dispatch
  | resetSet
  | resetClear
  | writeDev (call : WritenToDev)
  | exited (why : ReadNetCmdExit)
  deriving DecidableEq

/-- Why `send_status_data_thread` left its loop. -/
inductive SendStatusExit where
  | mallocFailed
  | stop
  | deviceFailed
  deriving DecidableEq

/-- The program counter of `send_status_data_thread` (`server.c:261-303`). -/
inductive SendStatusPc where
  | malloc
  | whileCond
  | readDevice
  | callWrite
  | writeSocket (call : Writen)
  | testSent (ret : Int)
  | exited (why : SendStatusExit)
  deriving DecidableEq

/-- `max_read_len_once` of `send_status_data_thread`. -/
def maxReadLenOnce : Nat := 0x1000

/-- The child process as far as its two threads see it. `incoming` is the part of the client's
stream that was not read yet. -/
structure State where
  sysStatus : SystemStatus
  socketFd : Int
  devFd : Int
  incoming : List UInt8
  socketOut : List UInt8
  devLog : List DevOp
  cmdPc : ReadNetCmdPc
  cmdCache : Mem UInt8
  statusPc : SendStatusPc
  statusBuf : Mem UInt8
  readRet : Int

inductive CmdEvent where
  | local
  | socket (answer : SysResult)
  | device (answer : SysResult)
  | ioctl

/-- A `read` of the device that fails leaves `errno`, and the `printc` after it `afterPrint`, which
is `errno` if nothing in `printf` failed. -/
inductive StatusEvent where
  | local
  | malloc (found : Bool)
  | readDevice (bytes : List UInt8)
  | readFailed (errno afterPrint : Errno)
  | socket (answer : SysResult)

inductive Event where
  | stop
  | cmd (e : CmdEvent)
  | status (e : StatusEvent)

/-- The argument of the body read, `cmd_cache[0]`. -/
def bodyLen (s : State) : Nat := (s.cmdCache 0).toNat

/-- `read` on the socket within `readn`; on the descriptor -1 it fails with `EBADF`. -/
def socketRead (s : State) (call : Readn) : SysResult → Option State
  | .ok k =>
      if 0 ≤ call.fd ∧ k ≤ call.nleft ∧ k ≤ s.incoming.length then
        some { s with incoming := s.incoming.drop k,
                      cmdCache := s.cmdCache.store call.ptr (s.incoming.take k) }
      else none
  | .err e => if 0 ≤ call.fd ∨ e = .EBADF then some s else none

/-- `readn(params->socket_fd, &cmd_cache, 1) == 1`, and the test of the length. -/
def headerCall (s : State) : Call Readn → State
  | .running call => { s with cmdPc := .readHeader call }
  | .returned ret =>
      { s with cmdPc := if ret = 1 then if s.cmdCache 0 < 1 then .whileCond else .callBody
                        else .exited .headerFailed }

/-- `readn(params->socket_fd, cmd_cache + 1, cmd_cache[0]) == cmd_cache[0]`. -/
def bodyCall (s : State) : Call Readn → State
  | .running call => { s with cmdPc := .readBody call }
  | .returned ret =>
      { s with cmdPc := if ret = bodyLen s then .dispatch else .exited .bodyFailed }

/-- `writen_to_cmd_status_dev(params->dev_fd, cmd_cache, cmd_cache[0] + 1)` and the test of its
result. -/
def devCall (s : State) : Call WritenToDev → State
  | .running call => { s with cmdPc := .writeDev call }
  | .returned ret =>
      { s with cmdPc := if ret ≠ bodyLen s + 1 then .exited .deviceFailed else .whileCond }

/-- A step of `read_net_cmd_thread`. -/
def readNetCmdThread (s : State) : CmdEvent → Option State := fun e =>
  match s.cmdPc, e with
  | .whileCond, .local =>
      some { s with cmdPc := if s.sysStatus ≠ .stop then .callHeader else .exited .stop }
  | .callHeader, .local => some (headerCall s (readn s.socketFd 0 1))
  | .readHeader call, .socket answer =>
      (socketRead s call answer).map fun s => headerCall s (call.step answer)
  | .callBody, .local => some (bodyCall s (readn s.socketFd 1 (bodyLen s)))
  | .readBody call, .socket answer =>
      (socketRead s call answer).map fun s => bodyCall s (call.step answer)
  | .dispatch, .local =>
      some (if isResetFrame s.cmdCache then { s with cmdPc := .resetSet }
        else devCall s (writenToCmdStatusDev s.devFd 0 (bodyLen s + 1)))
  -- reset_hardware(params->dev_fd)
  | .resetSet, .ioctl =>
      some { s with devLog := s.devLog ++ [.setCtrlRegister 1], cmdPc := .resetClear }
  | .resetClear, .ioctl =>
      some { s with devLog := s.devLog ++ [.setCtrlRegister 0], cmdPc := .whileCond }
  | .writeDev l, .device answer =>
      match l.call, answer with
      | .running call, .ok k =>
          if k ≤ call.nleft then
            some { s with devLog := s.devLog ++ devBytes (s.cmdCache.load call.ptr k),
                          cmdPc := .writeDev { l with call := call.step answer } }
          else none
      | .running call, .err _ =>
          some { s with cmdPc := .writeDev { l with call := call.step answer } }
      | .returned _, _ => none
  | .writeDev l, .local =>
      match l.call with
      | .running _ => none
      | .returned ret => some (devCall s (l.returned ret))
  | _, _ => none

/-- What `send_status_data_thread` does once `writen(params->socket_fd, status_buf, read_ret)` is
where `call` says. -/
def sendCall (s : State) : Call Writen → State
  | .running call => { s with statusPc := .writeSocket call }
  | .returned ret => { s with statusPc := .testSent ret }

/-- A step of `send_status_data_thread`. -/
def sendStatusDataThread (s : State) : StatusEvent → Option State := fun e =>
  match s.statusPc, e with
  | .malloc, .malloc found =>
      some { s with readRet := 0,
                    statusPc := if found then .whileCond else .exited .mallocFailed }
  | .whileCond, .local =>
      some { s with statusPc := if s.sysStatus ≠ .stop then .readDevice else .exited .stop }
  | .readDevice, .readDevice bytes =>
      if bytes.length ≤ maxReadLenOnce then
        some { s with statusBuf := s.statusBuf.store 0 bytes, readRet := bytes.length,
                      statusPc := if bytes.length = 0 then .whileCond else .callWrite }
      else none
  -- what is tested is the errno that the printc between the read and the test left
  | .readDevice, .readFailed _ afterPrint =>
      some { s with readRet := -1,
                    statusPc := if afterPrint.transient then .whileCond
                      else .exited .deviceFailed }
  | .callWrite, .local => some (sendCall s (writen s.socketFd 0 s.readRet.toNat))
  | .writeSocket call, .socket answer =>
      match answer with
      | .ok k =>
          if k ≤ call.nleft then
            some (sendCall { s with socketOut := s.socketOut ++ s.statusBuf.load call.ptr k }
              (call.step answer))
          else none
      | .err _ => some (sendCall s (call.step answer))
  | .testSent ret, .local =>
      some { s with socketFd := if ret ≠ s.readRet then -1 else s.socketFd, statusPc := .whileCond }
  | _, _ => none

/-- The child when it starts the threads: the connection it was forked for and the device it
opened, and the bytes the client sends on the connection. -/
structure Child where
  connFd : Int
  devFd : Int
  stream : List UInt8
  connFd_nonneg : 0 ≤ connFd
  devFd_pos : 0 < devFd

/-- The state in which `create_cmd_status_trans_server` starts both threads. -/
def Started (c : Child) (s : State) : Prop :=
  s.socketFd = c.connFd ∧ s.devFd = c.devFd ∧ s.incoming = c.stream ∧ s.socketOut = [] ∧
  s.devLog = [] ∧ s.cmdPc = .whileCond ∧ s.cmdCache = (fun _ => 0) ∧ s.statusPc = .malloc

/-- The two threads of the child. -/
def threads (c : Child) : Machine State Event where
  init := Started c
  step s
    | .stop => some { s with sysStatus := .stop }
    | .cmd e => readNetCmdThread s e
    | .status e => sendStatusDataThread s e

/-- The state to start from with a running system and an empty status buffer. -/
def Child.start (c : Child) : State where
  sysStatus := .running
  socketFd := c.connFd
  devFd := c.devFd
  incoming := c.stream
  socketOut := []
  devLog := []
  cmdPc := .whileCond
  cmdCache _ := 0
  statusPc := .malloc
  statusBuf _ := 0
  readRet := 0

theorem Child.started_start (c : Child) : Started c c.start :=
  ⟨rfl, rfl, rfl, rfl, rfl, rfl, rfl, rfl⟩

/-- A child with the socket 5 and the device 6. -/
def childOn (stream : List UInt8) : Child :=
  ⟨5, 6, stream, Int.natCast_nonneg 5, Int.natCast_succ_pos 5⟩

end ITrace.CmdStatusTrans
