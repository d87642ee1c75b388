import ITrace.CmdStatusTrans.Commands
import ITrace.CmdStatusTrans.Proofs.DeviceWrites
import ITrace.Test.ReadTests
import Mathlib.Logic.Function.Basic

/-!
# The thread that runs at present

`main` of `cmd_status_trans` starts one thread with `cmd_status_trans_rw_test` and pauses for ever.
The thread opens the device, writes one frame and reads, each time with the descriptor that is in
the global `cmd_status_fd`. Here is the whole of it but for its log, with what every descriptor was
given and what was taken from it. The log goes to the descriptors 1 and 2 beside that.
-/

namespace ITrace.Test

open ITrace CmdStatusTrans

/-- `write_cmd` in memory. -/
def writeCmdMem : Mem UInt8 := fun i => (writeCmd[i]?).getD 0

/-- Where `cmd_status_trans_rw_test` (`cmd_status_trans/test.c:70-138`) stands; `exited` is after
`exit(0)`, and a thread that returned may have come to its loop before. -/
inductive StatusTestPc where
  | openDevice
  | softReset (fd : Nat)
  | write (call : WritenToDev)
  | malloc
  | loop (l : ReadTest)
  | returned (l : Option ReadTest)
  | exited

/-- The process. `out` are the bytes written to a descriptor, without the log on the descriptors 1
and 2, and `taken` is the number of bytes read from it. `fds` are the open descriptors, after
`exit(0)` those that were open until then. -/
structure StatusTest where
  pc : StatusTestPc
  cmdStatusFd : Int
  fds : List Nat
  softResets : Nat
  out : Int → List UInt8
  taken : Int → Nat

inductive StatusTestEvent where
  | opened (answer : SysResult)
  | ioctl
  | device (answer : SysResult)
  | malloc (block : Option (Int → UInt8))
  | read (answer : ReadAnswer)

namespace StatusTest

/-- `writen_to_cmd_status_dev` is where `call` says. What it returns is not looked at. -/
def written (s : StatusTest) : Call WritenToDev → StatusTest
  | .running call => { s with pc := .write call }
  | .returned _ => { s with pc := .malloc }

/-- `if(cmd_status_fd = open_cmd_status_device(CmdStatusDevicePath)< 0)` once the function returned
`ret`: what is assigned is the result of the comparison. -/
def opened (s : StatusTest) (ret : Int) : StatusTest :=
  let s := { s with cmdStatusFd := if ret < 0 then 1 else 0 }
  if s.cmdStatusFd ≠ 0 then { s with pc := .exited }
  else s.written (devCallStart s.cmdStatusFd 0 writeCmd.length)

/-- A step of the thread. `open_cmd_status_device` treats a descriptor 0 as a failure. -/
def step (s : StatusTest) : StatusTestEvent → Option StatusTest := fun e =>
  match s.pc, e with
  | .openDevice, .opened (.ok fd) =>
      if fd ∉ s.fds then
        let s := { s with fds := fd :: s.fds }
        some (if fd ≤ 0 then s.opened (-1) else { s with pc := .softReset fd })
      else none
  | .openDevice, .opened (.err _) => some (s.opened (-1))
  | .softReset fd, .ioctl => some ({ s with softResets := s.softResets + 1 }.opened fd)
  | .write call, .device answer =>
      ((devLoop.sending writeCmdMem (devCallStart s.cmdStatusFd 0 writeCmd.length)).step
        ⟨.running call, s.out call.fd⟩ answer).map fun t =>
          { s with out := Function.update s.out call.fd t.out }.written t.call
  | .malloc, .malloc none => some { s with pc := .returned none }
  | .malloc, .malloc (some data) => some { s with pc := .loop (.start data) }
  | .loop l, .read answer =>
      (cmdStatusTransRwTest.step l answer).map fun l =>
        { s with
          taken := Function.update s.taken s.cmdStatusFd
            (s.taken s.cmdStatusFd + answer.chunk.length)
          pc := if l.returned then .returned (some l) else .loop l }
  | _, _ => none

/-- The start of the thread in a process that has the descriptors `fds` open; a global is 0. -/
def start (fds : List Nat) : StatusTest := ⟨.openDevice, 0, fds, 0, fun _ => [], fun _ => 0⟩

end StatusTest

def statusTest (fds : List Nat) : Machine StatusTest StatusTestEvent where
  init s := s = .start fds
  step := StatusTest.step

end ITrace.Test
