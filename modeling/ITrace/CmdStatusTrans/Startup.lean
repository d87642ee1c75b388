import ITrace.CmdStatusTrans.Commands
import ITrace.CmdStatusTrans.Proofs.DeviceWrites

/-!
# Sending the address to an SPM

From the address `SPM_START_IP` on `create_cmd_status_trans_server` does not listen: it opens the
device, writes one command with the last byte of the address, and exits. Also here is
`set_gtx_rx_ch_enable`, the other function that writes a command of its own.
-/

namespace ITrace.CmdStatusTrans

open ITrace

/-- `SPM_START_IP` (`general.h`). -/
def spmStartIp : Int := 101

/-- `sizeof(ip_write_cmd)`. -/
def ipWriteCmdSize : Nat := 23

/-- `ip_write_cmd` in memory. -/
def ipWriteCmdMem (rsv : Int) : Mem UInt8 := fun i => ((ipWriteCmd rsv)[i]?).getD 0

/-- Where the branch of `create_cmd_status_trans_server` (`server.c:16-45`) stands. -/
inductive SpmPc where
  | openDevice
  | softReset (fd : Nat)
  | write (fd : Nat) (call : WritenToDev)
  | close (fd : Nat)
  | exited
  deriving DecidableEq

/-- The process as far as the branch goes. `report` is which of the two messages about the write
was printed, `softResets` how often the device was given `CSR_SET_SOFT_RESET`. -/
structure Spm where
  pc : SpmPc
  fds : List Nat
  softResets : Nat
  devBytes : List UInt8
  report : Option Bool
  deriving DecidableEq

inductive SpmEvent where
  | opened (answer : SysResult)
  | ioctl
  | device (answer : SysResult)
  | close
  deriving DecidableEq

/-- A call that is made again. -/
def SpmEvent.waits : SpmEvent → Bool
  | .device answer => answer.transient
  | _ => false

/-- What `open` answered in `open_cmd_status_device` (`server.c:197-208`): a result of 0 is treated
as a failure, though the descriptor is open. -/
def Spm.opened (s : Spm) : SysResult → Option Spm
  | .ok fd =>
      if fd ∉ s.fds then
        some { s with fds := fd :: s.fds, pc := if fd ≤ 0 then .exited else .softReset fd }
      else none
  | .err _ => some { s with pc := .exited }

/-- `writen_to_cmd_status_dev` is where `call` says; once it returned its result is compared. -/
def Spm.written (s : Spm) (fd : Nat) : Call WritenToDev → Spm
  | .running call => { s with pc := .write fd call }
  | .returned ret => { s with pc := .close fd, report := some (ret = ipWriteCmdSize) }

/-- A step of the branch, with `rsv` of the `SocketInfo`. -/
def Spm.step (rsv : Int) (s : Spm) : SpmEvent → Option Spm := fun e =>
  match s.pc, e with
  | .openDevice, .opened answer => s.opened answer
  | .softReset fd, .ioctl =>
      some ({ s with softResets := s.softResets + 1 }.written fd (devCallStart fd 0 ipWriteCmdSize))
  | .write fd call, .device answer =>
      ((devLoop.sending (ipWriteCmdMem rsv) (devCallStart fd 0 ipWriteCmdSize)).step
        ⟨.running call, s.devBytes⟩ answer).map fun t =>
          { s with devBytes := t.out }.written fd t.call
  | .close fd, .close => some { s with fds := s.fds.erase fd, pc := .exited }
  | _, _ => none

/-- The start of the branch in a process that has the descriptors `fds` open. -/
def Spm.start (fds : List Nat) : Spm := ⟨.openDevice, fds, 0, [], none⟩

/-- The branch, which is taken for an address from `SPM_START_IP` on. -/
def spm (rsv : Int) (fds : List Nat) : Machine Spm SpmEvent where
  init s := spmStartIp ≤ rsv ∧ s = Spm.start fds
  step := Spm.step rsv

/-- The frame `set_gtx_rx_ch_enable` writes (`server.c:390-402`). -/
def gtxFrame (op : Int) : List UInt8 :=
  if op = 1 then enableDmaDataTrans else disableDmaDataTrans

/-- What it returns once `writen` returned `ret`. -/
def setGtxRxChEnable (op ret : Int) : Int :=
  if ret = (gtxFrame op).length then (gtxFrame op).length else -1

end ITrace.CmdStatusTrans
