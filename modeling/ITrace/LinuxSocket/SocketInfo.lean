import ITrace.Misc.CString
import ITrace.Misc.LittleEndian
import ITrace.Misc.WriteLog

/-!
# The socket description

`init_socket_info` of `linux_socket/socket_protocol.c`, on a memory that holds a `SocketInfo` as it
is declared: `ip[64]`, `port`, `desc[128]` and `rsv`, one behind the other. `int` and
`unsigned int` have four bytes, the lowest one first.
-/

namespace ITrace.LinuxSocket

open ITrace

namespace SocketInfo

/-- `sizeof(ip)`. -/
def ipSize : Nat := 64

/-- `offsetof(SocketInfo, port)`. -/
def port : Nat := 64

/-- `offsetof(SocketInfo, desc)`. -/
def desc : Nat := 68

/-- `sizeof(desc)`. -/
def descSize : Nat := 128

/-- `offsetof(SocketInfo, rsv)`. -/
def rsv : Nat := 196

/-- `sizeof(SocketInfo)`. -/
def size : Nat := 200

end SocketInfo

/-- `init_socket_info` (`socket_protocol.c:89-94`) on the `SocketInfo` at the address `socketInfo`.
The text of each `sprintf` ends in the zero byte of a `%c`. -/
def initSocketInfo (mem : Logged UInt8) (socketInfo : Nat) (ip : CString) (port : UInt32)
    (socketDesc : CString) : Logged UInt8 :=
  let mem := mem.write (socketInfo + SocketInfo.desc) (sprintf (socketDesc.chars ++ [0]))
  let mem := mem.write socketInfo (sprintf (ip.chars ++ [0]))
  mem.write (socketInfo + SocketInfo.port) (LittleEndian.bytes port)

end ITrace.LinuxSocket
