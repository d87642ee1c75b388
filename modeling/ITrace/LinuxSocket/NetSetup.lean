import ITrace.LinuxSocket.NetsockServer

/-!
# Setting up sockets

`create_clt_netsock`, `create_srv_netsock` and the whole of `create_netsock_server` of
`linux_socket/linux_net_socket.c`, with the descriptors of the process. An event is the outcome of
one system call. `setsockopt` and `malloc` have none that is looked at, and the names in the log
messages are left out.
-/

namespace ITrace.LinuxSocket

open ITrace

/-- `MAX_TRY_CONN_TIMES` (`socket_protocol.h:23`). -/
def maxTryConnTimes : Nat := 15

/-- `MAX_TRY_BIND_TIMES` (`socket_protocol.h:24`). -/
def maxTryBindTimes : Nat := 15

/-- `close(fd)`; on -1 it fails with `EBADF`. -/
def closeDescriptor (fds : List Int) (fd : Int) : List Int :=
  if fd < 0 then fds else fds.erase fd

/-! ### `create_clt_netsock` -/

inductive CltPc where
  | socket
  | inetPton
  | connect (tryCount : Nat)
  | returned (ret : Int)
  deriving DecidableEq

/-- A call of `create_clt_netsock` (`linux_net_socket.c:4-58`). -/
structure CltNetsock where
  cltSockfd : Int
  fds : List Int
  pc : CltPc
  deriving DecidableEq

/-- `inet_pton` answers 1, 0 for an address it cannot read, or -1. -/
inductive CltEvent where
  | socket (answer : Option Int)
  | inetPton (ret : Int)
  | connect (ok : Bool)
  deriving DecidableEq

def CltNetsock.step (c : CltNetsock) : CltEvent → Option CltNetsock := fun e =>
  match c.pc, e with
  | .socket, .socket none =>
      some { c with cltSockfd := -1, fds := closeDescriptor c.fds (-1), pc := .returned (-1) }
  | .socket, .socket (some fd) =>
      if 0 ≤ fd ∧ fd ∉ c.fds then
        some { c with cltSockfd := fd, fds := fd :: c.fds, pc := .inetPton }
      else none
  | .inetPton, .inetPton ret =>
      some { c with pc := if ret < 0 then .returned (-1) else .connect 0 }
  | .connect tryCount, .connect ok =>
      some (if ok then { c with pc := .returned c.cltSockfd }
        else if maxTryConnTimes = tryCount + 1 then
          { c with fds := closeDescriptor c.fds c.cltSockfd, pc := .returned (-1) }
        else { c with pc := .connect (tryCount + 1) })
  | _, _ => none

/-- `create_clt_netsock` in a process with the descriptors `fds`. -/
def createCltNetsock (fds : List Int) : Machine CltNetsock CltEvent where
  init c := c = ⟨0, fds, .socket⟩
  step := CltNetsock.step

/-! ### `create_srv_netsock` -/

inductive SrvPc where
  | socket
  | bind (tryBindCount : Nat)
  | returned (ret : Int)
  deriving DecidableEq

/-- A call of `create_srv_netsock` (`linux_net_socket.c:60-107`). -/
structure SrvNetsock where
  srvSockfd : Int
  fds : List Int
  pc : SrvPc
  deriving DecidableEq

inductive SrvEvent where
  | socket (answer : Option Int)
  | bind (ok : Bool)
  deriving DecidableEq

def SrvNetsock.step (c : SrvNetsock) : SrvEvent → Option SrvNetsock := fun e =>
  match c.pc, e with
  | .socket, .socket none =>
      some { c with srvSockfd := -1, fds := closeDescriptor c.fds (-1), pc := .returned (-1) }
  | .socket, .socket (some fd) =>
      if 0 ≤ fd ∧ fd ∉ c.fds then
        some { c with srvSockfd := fd, fds := fd :: c.fds, pc := .bind 0 }
      else none
  | .bind tryBindCount, .bind ok =>
      some (if ok then { c with pc := .returned c.srvSockfd }
        else if tryBindCount + 1 = maxTryBindTimes then { c with pc := .returned (-1) }
        else { c with pc := .bind (tryBindCount + 1) })
  | _, _ => none

def SrvNetsock.start (fds : List Int) : SrvNetsock := ⟨0, fds, .socket⟩

/-- `create_srv_netsock` in a process with the descriptors `fds`. -/
def createSrvNetsock (fds : List Int) : Machine SrvNetsock SrvEvent where
  init c := c = .start fds
  step := SrvNetsock.step

/-! ### `create_netsock_server` -/

/-- A call of `create_netsock_server` (`linux_net_socket.c:109-213`): in `create_srv_netsock`, in
its loops, or returned before them. -/
inductive NetsockServer where
  | creating (call : SrvNetsock)
  | serving (s : State)
  | failed (fds : List Int)

inductive ServerEvent where
  | srv (e : SrvEvent)
  | server (e : Event)

/-- What it returned, with the descriptors then. -/
def NetsockServer.result : NetsockServer → Option (Int × List Int)
  | .creating _ => none
  | .serving s =>
      match s.pc with
      | .returned ret => some (ret, s.fds)
      | _ => none
  | .failed fds => some (-1, fds)

/-- From `create_srv_netsock` on, once that has returned; `hf` and `dataEntity` are what the head
frame and the buffer hold at first. -/
def NetsockServer.resume (hf dataEntity : Mem UInt8) (call : SrvNetsock) : NetsockServer :=
  match call.pc with
  | .returned ret =>
      if ret < 0 then .failed call.fds
      else .serving ⟨ret, -1, call.fds, .listenAgain, hf, dataEntity, [], [], false, false⟩
  | _ => .creating call

def NetsockServer.step (hf dataEntity : Mem UInt8) (c : NetsockServer) (e : ServerEvent) :
    Option NetsockServer :=
  match c, e with
  | .creating call, .srv e => (call.step e).map (NetsockServer.resume hf dataEntity)
  | .serving s, .server e => (createNetsockServer s e).map .serving
  | _, _ => none

/-- `create_netsock_server`, given whether `socket_info` is not `NULL`. -/
def NetsockServer.start (socketInfo : Bool) (fds : List Int) : NetsockServer :=
  if socketInfo then .creating (.start fds) else .failed fds

def createServer (hf dataEntity : Mem UInt8) (socketInfo : Bool) (fds : List Int) :
    Machine NetsockServer ServerEvent where
  init c := c = .start socketInfo fds
  step := NetsockServer.step hf dataEntity

end ITrace.LinuxSocket
