import ITrace.CmdStatusTrans.Proofs.CmdFrames

/-!
# Commands on the wire

What a stream of bytes says as commands, and the commands that the program writes itself:
`ip_write_cmd`, the two frames of `set_gtx_rx_ch_enable`, `reset_frame`, and the `write_cmd` of
`cmd_status_trans_rw_test`.
-/

namespace ITrace.CmdStatusTrans

open Framing

/-- A command: one byte at least, and as many as a length byte can say at most. -/
structure Command where
  body : List UInt8
  ne_nil : body ≠ []
  length_le : body.length ≤ 255
  deriving DecidableEq

/-- The length byte and the body. -/
def Command.bytes (cmd : Command) : List UInt8 := UInt8.ofNat cmd.body.length :: cmd.body

/-- Commands one after the other. -/
def encode (cmds : List Command) : List UInt8 := (cmds.map Command.bytes).flatten

/-- The command of a complete frame. -/
def ofFrame : List UInt8 → Option Command
  | [] => none
  | _ :: body => if h : body ≠ [] ∧ body.length ≤ 255 then some ⟨body, h.1, h.2⟩ else none

/-- The commands a stream holds. -/
def commands (stream : List UInt8) : List Command := (cmdFrames stream).filterMap ofFrame

/-- Commands with some zero bytes before each. -/
def padded (sent : List (Nat × Command)) : List UInt8 :=
  (sent.map fun (zeros, cmd) => List.replicate zeros 0 ++ cmd.bytes).flatten

/-- The beginning of a command that was cut off, or nothing. -/
def Cut (cut : List UInt8) : Prop := cut = [] ∨ ∃ cmd : Command, cut <+: cmd.bytes ∧ cut ≠ cmd.bytes

/-- The bytes that were written to the device. -/
def deviceBytes (log : List DevOp) : List UInt8 :=
  log.filterMap fun
    | .byte b => some b
    | .setCtrlRegister _ => none

/-! ### The commands of the program -/

/-- `server_info->rsv & 0xff` as a `char`. -/
def lowByte (rsv : Int) : UInt8 := UInt8.ofNat (rsv % 256).toNat

/-- `ip_write_cmd` of `create_cmd_status_trans_server` (`server.c:28-33`). -/
def ipWriteCmd (rsv : Int) : List UInt8 :=
  [0x16,
   0x20, 0x00, 0x00, 0x00,
   0x00, 0x00,
   0xff, 0xfd,
   0x0c, 0x00, 0x00, 0x00, 0x08, 0xb4, 0x00, 0x00, lowByte rsv, 0x00, 0x00, 0x00, 0x00,
   0x00]

/-- `enable_dma_data_trans` of `set_gtx_rx_ch_enable`. -/
def enableDmaDataTrans : List UInt8 :=
  [0x0a, 0x83, 0x80, 0x00, 0x00, 0x00, 0x00, 0xff, 0xa0, 0x00, 0x00]

/-- `disable_dma_data_trans` of `set_gtx_rx_ch_enable`. -/
def disableDmaDataTrans : List UInt8 :=
  [0x0a, 0x83, 0x80, 0x00, 0x00, 0x00, 0x00, 0xff, 0xa1, 0x00, 0x00]

/-- `write_cmd` of `cmd_status_trans_rw_test` (`test.c:72`). -/
def writeCmd : List UInt8 := [0x05, 0xff, 0x00, 0x00, 0x00, 0xff]

/-- The frames that the program puts together, `reset_frame` to compare with. -/
inductive OwnFrame : List UInt8 → Prop
  | ipWriteCmd (rsv : Int) : OwnFrame (ipWriteCmd rsv)
  | enable : OwnFrame enableDmaDataTrans
  | disable : OwnFrame disableDmaDataTrans
  | reset : OwnFrame resetFrame
  | writeCmd : OwnFrame writeCmd

end ITrace.CmdStatusTrans
