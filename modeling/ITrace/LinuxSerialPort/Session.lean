import ITrace.LinuxSerialPort.Proofs.Setters

/-!
# Sessions on a serial port

The rest of `linux_serial_port.c`, and a program that uses the library on one descriptor with one
`struct termios` of its own: in any order it reads the attributes of the port into it, changes it
with the setters, and configures the port.
-/

namespace ITrace.LinuxSerialPort

def crtscts : BitVec 32 := 0o20000000000

/-- `VTIME`, an index into `c_cc`. -/
def vtime : Fin 32 := 5

/-- `VMIN`, an index into `c_cc`. -/
def vmin : Fin 32 := 6

/-- `get_curr_serial_attr` (`linux_serial_port.c:289-292`). -/
def getCurrSerialAttr (port : Port) (oldAttr : Termios) : Termios := port.tcgetattr oldAttr

/-- `set_hardware_flow_ctl` (`linux_serial_port.c:367-376`). -/
def setHardwareFlowCtl (options : Termios) (on : Int) : Termios × Int :=
  if on ≠ 0 then ({ options with cCflag := options.cCflag ||| crtscts }, 0)
  else ({ options with cCflag := options.cCflag &&& ~~~crtscts }, 0)

/-- `set_over_time_and_char_recved` (`linux_serial_port.c:378-384`). -/
def setOverTimeAndCharRecved (options : Termios) (maxSec maxDataSize : Int) : Termios × Int :=
  let options := { options with cCc := options.cCc.set vtime (toChar maxSec) }
  let options := { options with cCc := options.cCc.set vmin (toChar maxDataSize) }
  (options, 0)

/-- `set_raw_input_mode` (`linux_serial_port.c:386-397`), whose body is commented out. -/
def setRawInputMode (options : Termios) (_on : Int) : Termios × Int := (options, 0)

/-- `set_software_flow_ctl` (`linux_serial_port.c:399-408`). -/
def setSoftwareFlowCtl (options : Termios) (on : Int) : Termios × Int :=
  if on ≠ 0 then ({ options with cIflag := options.cIflag ||| (ixon ||| ixoff ||| ixany) }, 0)
  else ({ options with cIflag := options.cIflag &&& ~~~(ixon ||| ixoff ||| ixany) }, 0)

/-! ### A program that uses the library -/

/-- A call of the library. `keepOld` is whether `old_attr` is the program's `struct termios`, and
not `NULL`. -/
inductive Call where
  | getCurrSerialAttr
  | setter (s : Setter)
  | setHardwareFlowCtl (on : Int)
  | setOverTimeAndCharRecved (maxSec maxDataSize : Int)
  | setRawInputMode (on : Int)
  | setSoftwareFlowCtl (on : Int)
  | setLocalRecv (on : Int)
  | setSerialPortAttr (spp : SerialPortParams) (keepOld : Bool)
  | setSerialPortQuick (baudRate : Int) (parity : UInt8) (dataBits stopBit : Int) (keepOld : Bool)

/-- The port, and the `struct termios` of the program. -/
structure Session where
  port : Port
  options : Termios

/-- After a call that may have closed the descriptor: nothing succeeds on it any more. -/
def Session.configured (s : Session) (outcome : Outcome) : Session where
  port := if outcome.closed then ⟨outcome.port.attr, false, false⟩ else outcome.port
  options := outcome.oldAttr.getD s.options

def Session.call (serialDevFd : Int) (s : Session) : Call → Session
  | .getCurrSerialAttr => { s with options := LinuxSerialPort.getCurrSerialAttr s.port s.options }
  | .setter c => { s with options := (c.call s.options).1 }
  | .setHardwareFlowCtl on =>
      { s with options := (LinuxSerialPort.setHardwareFlowCtl s.options on).1 }
  | .setOverTimeAndCharRecved maxSec maxDataSize =>
      { s with options :=
          (LinuxSerialPort.setOverTimeAndCharRecved s.options maxSec maxDataSize).1 }
  | .setRawInputMode on => { s with options := (LinuxSerialPort.setRawInputMode s.options on).1 }
  | .setSoftwareFlowCtl on =>
      { s with options := (LinuxSerialPort.setSoftwareFlowCtl s.options on).1 }
  | .setLocalRecv on => { s with options := (LinuxSerialPort.setLocalRecv s.options on).1 }
  | .setSerialPortAttr spp keepOld =>
      s.configured (LinuxSerialPort.setSerialPortAttr serialDevFd spp
        (if keepOld then some s.options else none) s.port)
  | .setSerialPortQuick baudRate parity dataBits stopBit keepOld =>
      s.configured (LinuxSerialPort.setSerialPortQuick serialDevFd baudRate parity dataBits stopBit
        (if keepOld then some s.options else none) s.port)

/-- A whole session. -/
def Session.run (serialDevFd : Int) (s : Session) (calls : List Call) : Session :=
  calls.foldl (Session.call serialDevFd) s

/-! ### What reaches the port -/

/-- A change that `set_serial_port_attr` makes of the attributes of the port: by one of its setters
with a value it accepts, or by the masks at its end. -/
inductive PortWrite where
  | setter (s : Setter) (h : s.Accepted)
  | rawMode

def PortWrite.kind : PortWrite → Option SetterKind
  | .setter s _ => some s.kind
  | .rawMode => none

def PortWrite.act (t : Termios) : PortWrite → Termios
  | .setter s _ => (s.call t).1
  | .rawMode => LinuxSerialPort.rawMode t

/-- A setter with a value it does not accept writes nothing. -/
def Setter.writes (s : Setter) : List PortWrite := if h : s.Accepted then [.setter s h] else []

def SerialPortParams.writes (spp : SerialPortParams) : List PortWrite :=
  spp.setters.flatMap Setter.writes ++ [.rawMode]

/-- The changes a call makes of the port. -/
def Call.writes : Call → List PortWrite
  | .setSerialPortAttr spp _ => spp.writes
  | .setSerialPortQuick baudRate parity dataBits stopBit _ =>
      SerialPortParams.writes ⟨baudRate, dataBits, stopBit, parity, 0, 1, 0⟩
  | _ => []

end ITrace.LinuxSerialPort
