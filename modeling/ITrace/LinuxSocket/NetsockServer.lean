import ITrace.LinuxSocket.SocketProtocol
import ITrace.Misc.Machine

/-!
# The head-frame server and its client

`create_netsock_server` of `linux_socket/linux_net_socket.c` from its first `listen` on, and the
client of `linux_socket/main.c` in general form: for each message it writes the head frame and
then the payload, if there is one, and gives up where `write_data` fails. An event is one system
call, or what a party does between two of them.

The head frame and the buffer for the payload are at address 0 of memories of their own.
-/

namespace ITrace.LinuxSocket

open ITrace

/-! ### The client -/

/-- A head frame and the payload it announces. -/
structure Message where
  hf : HeadFrame
  payload : List UInt8
  len_eq : hf.len.toNat = payload.length
  len_lt : payload.length < 2 ^ 31

/-- What the message is on the wire. -/
def Message.bytes (m : Message) : List UInt8 := m.hf.bytes ++ m.payload

inductive ClientPc where
  | next
  | writeHead (call : Call DataLoop)
  | writeEntity (call : Call DataLoop)
  | finished
  | failed
  deriving DecidableEq

/-- The client with the messages it has not sent yet, and the bytes its socket accepted. -/
structure Client where
  todo : List Message
  out : List UInt8
  pc : ClientPc

inductive ClientEvent where
  | local
  | write (answer : SysResult)

/-- `write` of a part of `buf`. -/
def Client.write (c : Client) (buf : List UInt8) (l : DataLoop) : SysResult → Option Client
  | .ok k =>
      if k ≤ l.count then some { c with out := c.out ++ (buf.drop l.ptr.toNat).take k } else none
  | .err _ => some c

/-- A step of the client, which is connected on `fd`. -/
def Client.step (fd : Int) (c : Client) : ClientEvent → Option Client := fun e =>
  match c.pc, c.todo, e with
  | .next, [], .local => some { c with pc := .finished }
  | .next, _ :: _, .local => some { c with pc := .writeHead (writeData fd 0 sizeofHeadFrame) }
  | .writeHead (.running l), m :: _, .write answer =>
      (c.write m.hf.bytes l answer).map fun c => { c with pc := .writeHead (l.step answer) }
  | .writeHead (.returned ret), m :: ms, .local =>
      some (if ret ≠ 1 then { c with pc := .failed }
        else if m.payload = [] then { c with todo := ms, pc := .next }
        else { c with pc := .writeEntity (writeData fd 0 m.payload.length) })
  | .writeEntity (.running l), m :: _, .write answer =>
      (c.write m.payload l answer).map fun c => { c with pc := .writeEntity (l.step answer) }
  | .writeEntity (.returned ret), _ :: ms, .local =>
      some (if ret ≠ 1 then { c with pc := .failed } else { c with todo := ms, pc := .next })
  | _, _, _ => none

def Client.start (messages : List Message) : Client := ⟨messages, [], .next⟩

/-- A client that sends `messages`. -/
def client (fd : Int) (messages : List Message) : Machine Client ClientEvent where
  init c := c = Client.start messages
  step c e := c.step fd e

/-! ### The server -/

/-- The program counter of `create_netsock_server` (`linux_net_socket.c:151-206`). -/
inductive NetsockPc where
  | listenAgain
  | listen
  | accept
  | readHead (call : Call DataLoop)
  | realloc
  | readEntity (call : Call DataLoop)
  | protocol
  | drop
  | returned (ret : Int)
  deriving DecidableEq

/-- The server. `incoming` is what the client on the connection sends and was not read yet,
`calls` the calls of `protocol` with what they were given, `failed` and `ended` whether a read
failed and whether one found the end of the stream; all four are about the last connection. -/
structure State where
  listenFd : Int
  connFd : Int
  fds : List Int
  pc : NetsockPc
  hf : Mem UInt8
  dataEntity : Mem UInt8
  incoming : List UInt8
  calls : List (HeadFrame × List UInt8)
  failed : Bool
  ended : Bool

inductive Event where
  | local
  | listen (ok : Bool)
  | accept (answer : Option (Int × List UInt8))
  | read (answer : SysResult)
  | realloc (ok : Bool)

/-- `max_data_entity_len`, which stays as it is when the buffer grows. -/
def maxDataEntityLen : Nat := 1024

/-- The head frame read last. -/
def State.head (s : State) : HeadFrame := HeadFrame.load s.hf 0

/-- `read` on the connection: the bytes it stored, and what is left. -/
def State.read (s : State) (l : DataLoop) : SysResult → Option (List UInt8 × State)
  | .ok k =>
      if k ≤ l.count ∧ k ≤ s.incoming.length then
        some (s.incoming.take k, { s with incoming := s.incoming.drop k,
                                          ended := s.ended || (k = 0 && s.incoming.isEmpty) })
      else none
  | .err _ => some ([], { s with failed := true })

/-- A step of `create_netsock_server`. -/
def createNetsockServer (s : State) : Event → Option State := fun e =>
  match s.pc, e with
  | .listenAgain, .local =>
      some { s with connFd := if s.connFd > 0 then -1 else s.connFd, pc := .listen }
  | .listen, .listen ok => some { s with pc := if ok then .accept else .returned (-1) }
  | .accept, .accept none => some { s with connFd := -1, pc := .returned (-1) }
  | .accept, .accept (some (fd, stream)) =>
      if 0 ≤ fd ∧ fd ∉ s.fds then
        some { s with connFd := fd, fds := fd :: s.fds, incoming := stream, calls := [],
                      failed := false, ended := false, pc := .readHead (readHeadFrame fd 0) }
      else none
  | .readHead (.running l), .read answer =>
      (s.read l answer).map fun (bytes, s) =>
        { s with hf := s.hf.store l.ptr.toNat bytes, pc := .readHead (l.step answer) }
  -- an int that is compared with a size_t, and below with an unsigned int
  | .readHead (.returned ret), .local =>
      some { s with pc :=
        if ret % 2 ^ 64 ≠ sizeofHeadFrame then .drop
        else if s.head.len.toNat > 0 then
          if s.head.len.toNat > maxDataEntityLen then .realloc
          else .readEntity (readData s.connFd 0 s.head.len)
        else .readHead (readHeadFrame s.connFd 0) }
  | .realloc, .realloc ok =>
      some (if ok then { s with pc := .readEntity (readData s.connFd 0 s.head.len) }
        else { s with fds := (s.fds.erase s.connFd).erase s.listenFd, pc := .returned (-1) })
  | .readEntity (.running l), .read answer =>
      (s.read l answer).map fun (bytes, s) =>
        { s with dataEntity := s.dataEntity.store l.ptr.toNat bytes,
                 pc := .readEntity (l.step answer) }
  | .readEntity (.returned ret), .local =>
      some { s with pc := if ret % 2 ^ 32 ≠ s.head.len.toNat then .drop else .protocol }
  | .protocol, .local =>
      some { s with calls := s.calls ++ [(s.head, s.dataEntity.load 0 s.head.len.toNat)],
                    pc := .readHead (readHeadFrame s.connFd 0) }
  -- the connection is closed if its descriptor is not 0
  | .drop, .local =>
      some { s with fds := if s.connFd ≠ 0 then s.fds.erase s.connFd else s.fds,
                    pc := .listenAgain }
  | _, _ => none

/-- The server that listens on `listenFd`, in a process with the descriptors `fds`. -/
def netsockServer (listenFd : Int) (fds : List Int) : Machine State Event where
  init s := s.listenFd = listenFd ∧ s.connFd = -1 ∧ s.fds = fds ∧ s.pc = .listenAgain
  step := createNetsockServer

/-- The state right after `accept` returned a connection. -/
def Accepted (s : State) : Prop :=
  s.pc = .readHead (readHeadFrame s.connFd 0) ∧ s.calls = [] ∧ s.failed = false ∧
  s.ended = false

/-- The server has left the loop that reads from the connection. -/
def State.dropped (s : State) : Bool :=
  match s.pc with
  | .readHead _ | .realloc | .readEntity _ | .protocol => false
  | .listenAgain | .listen | .accept | .drop | .returned _ => true

end ITrace.LinuxSocket
