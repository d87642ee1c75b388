import ITrace.Misc.Machine
import ITrace.Misc.CopyLoop
import ITrace.Misc.Ring
import ITrace.Misc.Framing
import ITrace.Misc.Script
import ITrace.Misc.Mem
import ITrace.Misc.SysCall
import ITrace.Misc.Transfer
import ITrace.Misc.Breaks
import ITrace.Misc.Budget
import ITrace.Misc.Trace
import ITrace.Misc.LittleEndian
import ITrace.Misc.Int32
import ITrace.Misc.FlagWord
import ITrace.Misc.LastWins
import ITrace.Misc.Runs
import ITrace.Misc.CString
import ITrace.Misc.WriteLog
import ITrace.Misc.Decimal
import ITrace.Misc.Hex
import ITrace.Misc.Calendar
import ITrace.Misc.Channel
import ITrace.General.Syscall
import ITrace.General.Proofs.ExactWrites
import ITrace.General.Proofs.ExactReads
import ITrace.General.Proofs.Pipes
import ITrace.AcqDataTrans.Pipeline
import ITrace.AcqDataTrans.Proofs.Moves
import ITrace.AcqDataTrans.Proofs.Turns
import ITrace.AcqDataTrans.Proofs.ReaderTurns
import ITrace.AcqDataTrans.Proofs.SenderTurns
import ITrace.AcqDataTrans.Proofs.CopyLoop
import ITrace.AcqDataTrans.Proofs.Ownership
import ITrace.AcqDataTrans.Proofs.FlowControl
import ITrace.AcqDataTrans.Proofs.Stopping
import ITrace.AcqDataTrans.Proofs.Progress
import ITrace.CmdStatusTrans.Device
import ITrace.CmdStatusTrans.Threads
import ITrace.CmdStatusTrans.Commands
import ITrace.CmdStatusTrans.Startup
import ITrace.CmdStatusTrans.Proofs.Moves
import ITrace.CmdStatusTrans.Proofs.CmdFrames
import ITrace.CmdStatusTrans.Proofs.SharedParams
import ITrace.CmdStatusTrans.Proofs.Forwarding
import ITrace.CmdStatusTrans.Proofs.ResetDispatch
import ITrace.CmdStatusTrans.Proofs.StatusDrain
import ITrace.CmdStatusTrans.Proofs.DeviceWrites
import ITrace.CmdStatusTrans.Proofs.CommandCodec
import ITrace.CmdStatusTrans.Proofs.IpCommand
import ITrace.CmdStatusTrans.Proofs.Buffers
import ITrace.CmdStatusTrans.Proofs.Stopping
import ITrace.Server.Process
import ITrace.Server.AcceptLoop
import ITrace.Server.Proofs.Moves
import ITrace.Server.Proofs.OneWorker
import ITrace.Server.Proofs.Stop
import ITrace.Server.Proofs.Descriptors
import ITrace.Server.Proofs.Shutdown
import ITrace.Server.Proofs.Clients
import ITrace.Server.Proofs.Clearing
import ITrace.LinuxSocket.SocketProtocol
import ITrace.LinuxSocket.NetsockServer
import ITrace.LinuxSocket.NetSetup
import ITrace.LinuxSocket.SocketInfo
import ITrace.LinuxSocket.Proofs.HeadFrames
import ITrace.LinuxSocket.Proofs.HeadLink
import ITrace.LinuxSocket.Proofs.DataLoops
import ITrace.LinuxSocket.Proofs.ServerMoves
import ITrace.LinuxSocket.Proofs.ConnDescriptors
import ITrace.LinuxSocket.Proofs.Connections
import ITrace.LinuxSocket.Proofs.SetupDescriptors
import ITrace.LinuxSocket.Proofs.InfoFields
import ITrace.LinuxSerialPort.SerialPort
import ITrace.LinuxSerialPort.Session
import ITrace.LinuxSerialPort.Proofs.Changes
import ITrace.LinuxSerialPort.Proofs.Setters
import ITrace.LinuxSerialPort.Proofs.Attr
import ITrace.LinuxSerialPort.Proofs.Independence
import ITrace.LinuxSerialPort.Proofs.Sessions
import ITrace.CstringExternLib.Cstring
import ITrace.CstringExternLib.LetterCase
import ITrace.CstringExternLib.PrintAsHex
import ITrace.CstringExternLib.Proofs.Splite
import ITrace.CstringExternLib.Proofs.Trim
import ITrace.CstringExternLib.Proofs.LetterCase
import ITrace.CstringExternLib.Proofs.HexLines
import ITrace.TimeExternLib.DateTimeTag
import ITrace.TimeExternLib.Proofs.Tags
import ITrace.TimeExternLib.Proofs.Delimited
import ITrace.Test.ReadTests
import ITrace.Test.StatusTest
import ITrace.Test.Proofs.Seams
import ITrace.Test.Proofs.Increments
import ITrace.Test.Proofs.Accounting
import ITrace.Test.Proofs.MissedDevice
