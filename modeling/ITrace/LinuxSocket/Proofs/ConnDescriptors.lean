import ITrace.LinuxSocket.Proofs.ServerMoves
import ITrace.Misc.Trace

/-!
# The descriptors of the head-frame server's connections

The system calls `create_netsock_server` makes on the descriptors that `accept` gave it, and the
rule for them: a connection is used while it is open, and closed before the next one is accepted.
The server closes a connection when it gives it up, but keeps its number in `conn_fd`, and so it
shuts down a closed descriptor at `LISTEN_AGAIN`; and it does not close descriptor 0.
-/

namespace ITrace.LinuxSocket

open ITrace

/-- `accept` returned a connection. -/
def Event.accepted : Event → Bool
  | .accept (some _) => true
  | _ => false

/-- The step does not shut down a descriptor that was closed, and does not accept a connection
while the last one is still open. -/
def LeavesClosed (s : State) (e : Event) : Prop :=
  (s.pc = .listenAgain → s.connFd ≤ 0) ∧ (s.pc = .accept → e.accepted = true → s.connFd ≠ 0)

instance decidableLeavesClosed (s : State) (e : Event) : Decidable (LeavesClosed s e) :=
  inferInstanceAs (Decidable ((s.pc = .listenAgain → s.connFd ≤ 0) ∧
    (s.pc = .accept → e.accepted = true → s.connFd ≠ 0)))

section
variable {s s' : State} {e : Event} {conn : Option Int}

end

/-- The server with the listening socket 3 before its first `listen`. -/
def listening : State := ⟨3, -1, [3], .listenAgain, fun _ => 0, fun _ => 0, [], [], false, false⟩

end ITrace.LinuxSocket
