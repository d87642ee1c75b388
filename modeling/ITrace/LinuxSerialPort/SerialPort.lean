import Mathlib.Data.BitVec

/-!
# The serial port

The lookup functions, the setters, `set_serial_port_attr` and `set_serial_port_quick` of
`linux_serial_port/linux_serial_port.c`. The constants are those of `<termios.h>` on Linux. A
`char` is a byte; as an `int` it is not negative, as on ARM. The log is left out.
-/

namespace ITrace.LinuxSerialPort

/-! ### `<termios.h>` -/

/-- `struct termios`, with the two speeds as fields of their own. -/
structure Termios where
  cIflag : BitVec 32
  cOflag : BitVec 32
  cCflag : BitVec 32
  cLflag : BitVec 32
  cLine : UInt8
  cCc : Vector UInt8 32
  cIspeed : BitVec 32
  cOspeed : BitVec 32
  deriving DecidableEq

/-- After `bzero`. -/
def Termios.zero : Termios := ⟨0, 0, 0, 0, 0, Vector.replicate 32 0, 0, 0⟩

def ignbrk : BitVec 32 := 0o1
def brkint : BitVec 32 := 0o2
def parmrk : BitVec 32 := 0o10
def inpck : BitVec 32 := 0o20
def istrip : BitVec 32 := 0o40
def inlcr : BitVec 32 := 0o100
def icrnl : BitVec 32 := 0o400
def ixon : BitVec 32 := 0o2000
def ixany : BitVec 32 := 0o4000
def ixoff : BitVec 32 := 0o10000

def opost : BitVec 32 := 0o1

def csize : BitVec 32 := 0o60
def cs5 : Int := 0o0
def cs6 : Int := 0o20
def cs7 : Int := 0o40
def cs8 : Int := 0o60
def cstopb : BitVec 32 := 0o100
def parenb : BitVec 32 := 0o400
def parodd : BitVec 32 := 0o1000

def isig : BitVec 32 := 0o1
def icanon : BitVec 32 := 0o2
def echo : BitVec 32 := 0o10
def echonl : BitVec 32 := 0o100
def iexten : BitVec 32 := 0o100000

/-- The speeds that have a constant. -/
inductive Baud where
  | b0 | b50 | b75 | b110 | b134 | b150 | b200 | b300 | b600 | b1200 | b1800 | b2400 | b4800
  | b9600 | b19200 | b38400 | b57600 | b115200 | b230400 | b460800 | b500000 | b576000 | b921600
  | b1000000 | b1152000 | b1500000 | b2000000 | b2500000 | b3000000 | b3500000 | b4000000
  deriving DecidableEq

namespace Baud

/-- The value of the constant, `B50` for `b50`. -/
def value : Baud → Int
  | b0 => 0o0 | b50 => 0o1 | b75 => 0o2 | b110 => 0o3 | b134 => 0o4 | b150 => 0o5 | b200 => 0o6
  | b300 => 0o7 | b600 => 0o10 | b1200 => 0o11 | b1800 => 0o12 | b2400 => 0o13 | b4800 => 0o14
  | b9600 => 0o15 | b19200 => 0o16 | b38400 => 0o17 | b57600 => 0o10001 | b115200 => 0o10002
  | b230400 => 0o10003 | b460800 => 0o10004 | b500000 => 0o10005 | b576000 => 0o10006
  | b921600 => 0o10007 | b1000000 => 0o10010 | b1152000 => 0o10011 | b1500000 => 0o10012
  | b2000000 => 0o10013 | b2500000 => 0o10014 | b3000000 => 0o10015 | b3500000 => 0o10016
  | b4000000 => 0o10017

/-- The number in its name, in bits a second. -/
def rate : Baud → Int
  | b0 => 0 | b50 => 50 | b75 => 75 | b110 => 110 | b134 => 134 | b150 => 150 | b200 => 200
  | b300 => 300 | b600 => 600 | b1200 => 1200 | b1800 => 1800 | b2400 => 2400 | b4800 => 4800
  | b9600 => 9600 | b19200 => 19200 | b38400 => 38400 | b57600 => 57600 | b115200 => 115200
  | b230400 => 230400 | b460800 => 460800 | b500000 => 500000 | b576000 => 576000
  | b921600 => 921600 | b1000000 => 1000000 | b1152000 => 1152000 | b1500000 => 1500000
  | b2000000 => 2000000 | b2500000 => 2500000 | b3000000 => 3000000 | b3500000 => 3500000
  | b4000000 => 4000000

end Baud

/-- `cfsetispeed`, for a supported speed. -/
def cfsetispeed (options : Termios) (speed : Int) : Termios :=
  { options with cIspeed := BitVec.ofInt 32 speed }

/-- `cfsetospeed`, for a supported speed. -/
def cfsetospeed (options : Termios) (speed : Int) : Termios :=
  { options with cOspeed := BitVec.ofInt 32 speed }

/-- A descriptor that may be of a terminal: its attributes, and whether `tcgetattr` and `tcsetattr`
succeed on it. -/
structure Port where
  attr : Termios
  readable : Bool
  settable : Bool

/-- What `tcgetattr` leaves in `old`. -/
def Port.tcgetattr (port : Port) (old : Termios) : Termios :=
  if port.readable then port.attr else old

/-- `tcsetattr` with `TCSANOW`: what it returns and the port after it. -/
def Port.tcsetattr (port : Port) (attr : Termios) : Int × Port :=
  if port.settable then (0, { port with attr := attr }) else (-1, port)

/-! ### The lookup functions -/

def stopBits1 : Int := 1
def stopBits2 : Int := 2

def parityOdd : Int := 0
def parityEven : Int := 1
def parityNo : Int := 2
def paritySpace : Int := 3

/-- `get_baud_rate_from_desc` (`linux_serial_port.c:3-172`). -/
def getBaudRateFromDesc (baudRateInput : Int) : Int :=
  match baudRateInput with
  | 4800 => Baud.b4800.value
  | 9600 => Baud.b9600.value
  | 19200 => Baud.b19200.value
  | 115200 => Baud.b115200.value
  | 0 => Baud.b0.value
  | 50 => Baud.b50.value
  | 75 => Baud.b75.value
  | 110 => Baud.b110.value
  | 134 => Baud.b134.value
  | 150 => Baud.b150.value
  | 200 => Baud.b200.value
  | 300 => Baud.b300.value
  | 600 => Baud.b600.value
  | 1200 => Baud.b1200.value
  | 1800 => Baud.b1800.value
  | 2400 => Baud.b2400.value
  | 38400 => Baud.b38400.value
  | 57600 => Baud.b57600.value
  | 230400 => Baud.b230400.value
  | 460800 => Baud.b460800.value
  | 500000 => Baud.b500000.value
  | 576000 => Baud.b576000.value
  | 921600 => Baud.b921600.value
  | 1000000 => Baud.b1000000.value
  | 1152000 => Baud.b1152000.value
  | 1500000 => Baud.b1500000.value
  | 2000000 => Baud.b2000000.value
  | 2500000 => Baud.b2500000.value
  | 3000000 => Baud.b3000000.value
  | 3500000 => Baud.b2500000.value
  | 4000000 => Baud.b4000000.value
  | _ => -1

/-- `get_data_bits_from_desc` (`linux_serial_port.c:174-201`). -/
def getDataBitsFromDesc (dataBits : Int) : Int :=
  if dataBits = 5 then cs5
  else if dataBits = 6 then cs6
  else if dataBits = 7 then cs7
  else if dataBits = 8 then cs8
  else -1

/-- `get_stop_bits_from_desc` (`linux_serial_port.c:203-217`). -/
def getStopBitsFromDesc (stopBits : Int) : Int :=
  if stopBits = 1 then stopBits1
  else if stopBits = 2 then stopBits2
  else -1

/-- `get_parity_from_desc` (`linux_serial_port.c:219-236`). -/
def getParityFromDesc (desc : UInt8) : Int :=
  if desc = 'n'.toUInt8 ∨ desc = 'N'.toUInt8 then parityNo
  else if desc = 'o'.toUInt8 ∨ desc = 'O'.toUInt8 then parityOdd
  else if desc = 'e'.toUInt8 ∨ desc = 'E'.toUInt8 then parityEven
  else if desc = 's'.toUInt8 ∨ desc = 'S'.toUInt8 then paritySpace
  else -1

/-! ### The setters -/

/-- `set_local_recv` (`linux_serial_port.c:410-421`), whose body is commented out. -/
def setLocalRecv (options : Termios) (_on : Int) : Termios × Int := (options, 0)

/-- `set_baud_rate` (`linux_serial_port.c:294-302`). -/
def setBaudRate (options : Termios) (baudRateDesc : Int) : Termios × Int :=
  if getBaudRateFromDesc baudRateDesc < 0 then (options, -1)
  else
    let options := cfsetispeed options (getBaudRateFromDesc baudRateDesc)
    let options := cfsetospeed options (getBaudRateFromDesc baudRateDesc)
    (options, 0)

/-- `set_stop_bits` (`linux_serial_port.c:304-324`). -/
def setStopBits (options : Termios) (stopBits : UInt8) : Termios × Int :=
  if getStopBitsFromDesc stopBits.toNat < 0 then (options, -1)
  else if getStopBitsFromDesc stopBits.toNat = stopBits1 then
    ({ options with cCflag := options.cCflag &&& ~~~cstopb }, 0)
  else if getStopBitsFromDesc stopBits.toNat = stopBits2 then
    ({ options with cCflag := options.cCflag ||| cstopb }, 0)
  else (options, 0)

/-- `set_data_bits` (`linux_serial_port.c:327-336`). -/
def setDataBits (options : Termios) (dataBits : UInt8) : Termios × Int :=
  if getDataBitsFromDesc dataBits.toNat < 0 then (options, -1)
  else
    let options := { options with cCflag := options.cCflag &&& ~~~csize }
    let options :=
      { options with
        cCflag := options.cCflag ||| BitVec.ofInt 32 (getDataBitsFromDesc dataBits.toNat) }
    (options, 0)

/-- `case PARITY_SPACE`, the end of the `switch` in `set_parity_bits`. -/
def paritySpaceCase (options : Termios) : Termios :=
  let options := { options with cCflag := options.cCflag &&& ~~~parenb }
  { options with cIflag := options.cIflag &&& ~~~(inpck ||| parmrk ||| istrip) }

/-- `set_parity_bits` (`linux_serial_port.c:338-365`). -/
def setParityBits (options : Termios) (parityDesc : UInt8) : Termios × Int :=
  if getParityFromDesc parityDesc < 0 then (options, -1)
  else
    let options := { options with cIflag := options.cIflag ||| inpck }
    if getParityFromDesc parityDesc = parityEven then
      let options := { options with cCflag := options.cCflag ||| parenb }
      let options := { options with cCflag := options.cCflag &&& ~~~parodd }
      ({ options with cIflag := options.cIflag ||| (inpck ||| parmrk ||| istrip) }, 0)
    else if getParityFromDesc parityDesc = parityOdd then
      let options := { options with cCflag := options.cCflag ||| parenb }
      let options := { options with cCflag := options.cCflag ||| parodd }
      ({ options with cIflag := options.cIflag ||| (inpck ||| parmrk ||| istrip) }, 0)
    else if getParityFromDesc parityDesc = parityNo then
      let options := { options with cCflag := options.cCflag &&& ~~~parenb }
      let options := { options with cIflag := options.cIflag &&& ~~~(inpck ||| parmrk ||| istrip) }
      -- there is no `break`
      (paritySpaceCase options, 0)
    else if getParityFromDesc parityDesc = paritySpace then (paritySpaceCase options, 0)
    else (options, 0)

/-! ### `set_serial_port_attr` -/

/-- `struct serial_port_params`. -/
structure SerialPortParams where
  baudRate : Int
  dataBit : Int
  stopBit : Int
  parityBits : UInt8
  maxOverTime : Int
  maxCharRecved : Int
  flowType : Int

/-- An `int` passed as a `char`. -/
def toChar (n : Int) : UInt8 := UInt8.ofNat (n % 256).toNat

/-- The masks at the end of `set_serial_port_attr`, for raw input and output. -/
def rawMode (newAttr : Termios) : Termios :=
  let newAttr :=
    { newAttr with cIflag := newAttr.cIflag &&& ~~~(ignbrk ||| brkint ||| icrnl ||| inlcr) }
  let newAttr := { newAttr with cIflag := newAttr.cIflag &&& ~~~(ixon ||| ixoff ||| ixany) }
  let newAttr := { newAttr with cOflag := newAttr.cOflag &&& ~~~opost }
  { newAttr with cLflag := newAttr.cLflag &&& ~~~(echo ||| echonl ||| icanon ||| iexten ||| isig) }

/-- What `set_serial_port_attr` makes of `new_attr` between `tcgetattr` and `tcsetattr`. The codes
of the setters go to the log only. -/
def updateAttr (newAttr : Termios) (spp : SerialPortParams) : Termios :=
  let newAttr := (setLocalRecv newAttr 1).1
  let newAttr := (setBaudRate newAttr spp.baudRate).1
  let newAttr := (setDataBits newAttr (toChar spp.dataBit)).1
  let newAttr := (setParityBits newAttr spp.parityBits).1
  let newAttr := (setStopBits newAttr (toChar spp.stopBit)).1
  rawMode newAttr

/-- The outcome of a call: what it returns, what it handed to `tcsetattr` if it came there, the
port, what `old_attr` points to if it is not `NULL`, and whether it closed the descriptor. -/
structure Outcome where
  ret : Int
  handed : Option Termios
  port : Port
  oldAttr : Option Termios
  closed : Bool

/-- `set_serial_port_attr` (`linux_serial_port.c:239-287`). -/
def setSerialPortAttr (serialDevFd : Int) (spp : SerialPortParams) (oldAttr : Option Termios)
    (port : Port) : Outcome :=
  if serialDevFd < 0 then ⟨-1, none, port, oldAttr, false⟩
  else
    let oldAttr := oldAttr.map port.tcgetattr
    let newAttr := updateAttr (port.tcgetattr .zero) spp
    let answer := port.tcsetattr newAttr
    if answer.1 ≠ 0 then ⟨-1, some newAttr, answer.2, oldAttr, true⟩
    else ⟨0, some newAttr, answer.2, oldAttr, false⟩

/-- `set_serial_port_quick` (`linux_serial_port.c:423-439`). -/
def setSerialPortQuick (serialDevFd baudRate : Int) (parity : UInt8) (dataBits stopBit : Int)
    (oldAttr : Option Termios) (port : Port) : Outcome :=
  let spp : SerialPortParams :=
    { baudRate := baudRate
      parityBits := parity
      stopBit := stopBit
      dataBit := dataBits
      -- FLOW_TYPE_HARDWARE
      flowType := 0
      maxCharRecved := 1
      maxOverTime := 0 }
  { setSerialPortAttr serialDevFd spp oldAttr port with ret := 0 }

end ITrace.LinuxSerialPort
