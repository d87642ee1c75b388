import Mathlib.Data.Int.Notation

/-!
# System calls

What a system call answers. The kernel's answer is an argument of every step, so a function that
makes system calls is its first state and what it does with each answer.
-/

namespace ITrace

/-- The values of `errno` that are told apart, and the others. -/
inductive Errno where
  | EINTR
  | EAGAIN
  | ESRCH
  | EBADF
  | other (code : Nat)
  deriving DecidableEq, Repr

/-- A call that failed so may be made again. -/
def Errno.transient (e : Errno) : Bool := e = .EINTR || e = .EAGAIN

/-- What a system call returns: a count (0 for a call that only succeeds), or -1 and `errno`. -/
inductive SysResult where
  | ok (count : Nat)
  | err (errno : Errno)
  deriving DecidableEq, Repr

/-- The call failed, and not for good. -/
def SysResult.transient : SysResult → Bool
  | .ok _ => false
  | .err e => e.transient

/-- A C function that makes system calls, between two of them: still running with its locals, or
returned. -/
inductive Call (α : Type*) where
  | running (locals : α)
  | returned (ret : Int)
  deriving DecidableEq

end ITrace
