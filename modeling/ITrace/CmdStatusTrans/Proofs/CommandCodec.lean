import ITrace.CmdStatusTrans.Commands
import ITrace.CmdStatusTrans.Proofs.SharedParams

/-!
# Reading commands back

Commands that are written one after the other are read as these commands, whatever zero bytes
stand between them and wherever the last one is cut off. What the device was given is such a
sequence at any time, so it reads the commands the client sent, in their order and no others.
-/

namespace ITrace.CmdStatusTrans

open Framing

variable {cmd : Command} {cmds : List Command} {f stream : List UInt8} {c : Child} {s : State}

/-! ### Frames and commands -/

theorem Command.isFrame (cmd : Command) : IsFrame UInt8.toNat cmd.bytes := by
  have hle := cmd.length_le
  refine ⟨_, cmd.body, rfl, ?_, cmd.ne_nil⟩
  rw [UInt8.toNat_ofNat', Nat.mod_eq_of_lt (by omega)]

theorem ofFrame_bytes (cmd : Command) : ofFrame cmd.bytes = some cmd :=
  dif_pos ⟨cmd.ne_nil, cmd.length_le⟩

/-- Every frame is a command. -/
theorem ofFrame_of_isFrame (hf : IsFrame UInt8.toNat f) :
    ∃ cmd, ofFrame f = some cmd ∧ cmd.bytes = f := by
  obtain ⟨h, body, rfl, hlen, hne⟩ := hf
  have hlt := h.toNat_lt
  refine ⟨⟨body, hne, by omega⟩, dif_pos ⟨hne, by omega⟩, ?_⟩
  show UInt8.ofNat body.length :: body = h :: body
  rw [hlen, UInt8.ofNat_toNat]

theorem mem_map_bytes (hf : f ∈ cmds.map Command.bytes) : IsFrame UInt8.toNat f := by
  obtain ⟨cmd, -, rfl⟩ := List.mem_map.mp hf
  exact cmd.isFrame

theorem filterMap_ofFrame_bytes (cmds : List Command) :
    (cmds.map Command.bytes).filterMap ofFrame = cmds := by
  induction cmds with
  | nil => rfl
  | cons cmd cmds ih => rw [List.map_cons, List.filterMap_cons_some (ofFrame_bytes cmd), ih]

theorem map_bytes_filterMap {L : List (List UInt8)} (hL : ∀ f ∈ L, IsFrame UInt8.toNat f) :
    (L.filterMap ofFrame).map Command.bytes = L := by
  induction L with
  | nil => rfl
  | cons f L ih =>
    rw [List.forall_mem_cons] at hL
    obtain ⟨cmd, hcmd, hbytes⟩ := ofFrame_of_isFrame hL.1
    rw [List.filterMap_cons_some hcmd, List.map_cons, hbytes, ih hL.2]

/-- The commands of a stream are its frames. -/
theorem map_bytes_commands (stream : List UInt8) :
    (commands stream).map Command.bytes = cmdFrames stream :=
  map_bytes_filterMap fun _ => isFrame_of_mem

theorem encode_commands (stream : List UInt8) :
    encode (commands stream) = (cmdFrames stream).flatten := by
  rw [encode, map_bytes_commands]

theorem commands_encode (cmds : List Command) : commands (encode cmds) = cmds := by
  rw [commands, encode, cmdFrames, frames_flatten fun _ => mem_map_bytes, filterMap_ofFrame_bytes]

/-- The commands of a beginning of a sequence of commands are the first of them, and what it has
more is the beginning of the next one. -/
theorem commands_of_prefix {D : List UInt8} (hD : D <+: encode cmds) :
    ∃ k rest, D = encode (cmds.take k) ++ rest ∧ commands D = cmds.take k ∧
      (rest = [] ∨ ∃ cmd, cmds[k]? = some cmd ∧ rest <+: cmd.bytes ∧ rest ≠ cmd.bytes) := by
  obtain ⟨k, rest, hsplit, hread, hrest⟩ := frames_of_prefix (fun _ => mem_map_bytes) hD
  rw [← List.map_take] at hsplit hread
  refine ⟨k, rest, hsplit, ?_, hrest.imp_right ?_⟩
  · rw [commands, cmdFrames, hread, filterMap_ofFrame_bytes]
  · rintro ⟨f, hf, hcut⟩
    rw [List.getElem?_map] at hf
    obtain ⟨cmd, hcmd, rfl⟩ := Option.map_eq_some_iff.mp hf
    exact ⟨cmd, hcmd, hcut⟩

theorem commands_of_cut {cut : List UInt8} (hcut : Cut cut) : commands cut = [] := by
  have hnone : cmdFrames cut = [] := by
    rcases hcut with rfl | ⟨cmd, hp, hne⟩
    · exact frames_nil
    · exact frames_of_cut cmd.isFrame hp hne
  rw [commands, hnone]
  rfl

theorem cmdFrames_padded (sent : List (Nat × Command)) (rest : List UInt8) :
    cmdFrames (padded sent ++ rest) =
      (sent.map fun p => p.2.bytes) ++ cmdFrames rest := by
  induction sent with
  | nil => rfl
  | cons p sent ih =>
    have hzeros : ∀ z ∈ List.replicate p.1 (0 : UInt8), z.toNat = 0 := by
      intro z hz
      rw [List.eq_of_mem_replicate hz]
      rfl
    have hcons : padded (p :: sent) ++ rest =
        List.replicate p.1 0 ++ (p.2.bytes ++ (padded sent ++ rest)) := by
      simp [padded]
    rw [hcons, cmdFrames, frames_skips hzeros, frames_isFrame_append p.2.isFrame, ← cmdFrames, ih]
    rfl

theorem commands_padded (sent : List (Nat × Command)) {cut : List UInt8} (hcut : Cut cut) :
    commands (padded sent ++ cut) = sent.map Prod.snd := by
  have hnone := commands_of_cut hcut
  rw [commands] at hnone ⊢
  rw [cmdFrames_padded, List.filterMap_append, hnone, List.append_nil]
  have hmap : (sent.map fun p => p.2.bytes) = (sent.map Prod.snd).map Command.bytes := by
    rw [List.map_map]
    rfl
  rw [hmap, filterMap_ofFrame_bytes]

/-- Every frame that the program puts together is one command. -/
theorem command_of_ownFrame (h : OwnFrame f) : ∃ cmd : Command, cmd.bytes = f := by
  cases h with
  | ipWriteCmd rsv => exact ⟨⟨(ipWriteCmd rsv).tail, by simp [ipWriteCmd], by simp [ipWriteCmd]⟩, rfl⟩
  | enable => exact ⟨⟨enableDmaDataTrans.tail, by decide, by decide⟩, rfl⟩
  | disable => exact ⟨⟨disableDmaDataTrans.tail, by decide, by decide⟩, rfl⟩
  | reset => exact ⟨⟨resetFrame.tail, by decide, by decide⟩, rfl⟩
  | writeCmd => exact ⟨⟨writeCmd.tail, by decide, by decide⟩, rfl⟩

/-- The wire format: for every list of commands, with any number of zero bytes before each and
with the beginning of one more behind them, exactly these commands are read; so no two lists of
commands have the same bytes, no command begins with another one, and putting the commands of any
stream one after the other keeps them. Every frame that the program puts together is one of
these commands. -/
theorem commands_readBack :
    (∀ sent cut, Cut cut → commands (padded sent ++ cut) = sent.map Prod.snd) ∧
    (∀ cmds cmds', encode cmds = encode cmds' → cmds = cmds') ∧
    (∀ cmd cmd' : Command, cmd.bytes <+: cmd'.bytes → cmd = cmd') ∧
    (∀ stream, commands (encode (commands stream)) = commands stream) ∧
    ∀ f, OwnFrame f → ∃ cmd : Command, cmd.bytes = f ∧ commands f = [cmd] := by
  refine ⟨fun sent cut => commands_padded sent, fun cmds cmds' h => ?_, fun cmd cmd' h => ?_,
    fun stream => commands_encode _, fun f hf => ?_⟩
  · rw [← commands_encode cmds, h, commands_encode]
  · by_contra hne
    have hbytes : cmd.bytes ≠ cmd'.bytes := by
      intro heq
      have hread := (ofFrame_bytes cmd).symm.trans ((congrArg ofFrame heq).trans (ofFrame_bytes cmd'))
      exact hne (Option.some.inj hread)
    have hnone := commands_of_cut (.inr ⟨cmd', h, hbytes⟩)
    have hone := commands_encode [cmd]
    rw [encode, List.map_singleton, List.flatten_singleton, hnone] at hone
    cases hone
  · obtain ⟨cmd, rfl⟩ := command_of_ownFrame hf
    refine ⟨cmd, rfl, ?_⟩
    have hone := commands_encode [cmd]
    rwa [encode, List.map_singleton, List.flatten_singleton] at hone

/-! ### What the device reads -/

@[simp] theorem deviceBytes_devBytes (bs : List UInt8) : deviceBytes (devBytes bs) = bs := by
  induction bs with
  | nil => rfl
  | cons b bs ih => exact congrArg (b :: ·) ih

/-- Between two frames the device has all that was consumed. -/
theorem commands_of_consumed (h : Consumed c s 0 0) (hin : s.incoming = []) :
    deviceBytes s.devLog = encode (commands c.stream) := by
  obtain ⟨pre, hpre, hstream, hlog⟩ := h
  rw [hin, List.append_nil] at hstream
  have hsame : c.stream = pre := by simpa [Mem.load] using hstream
  rw [hlog, deviceBytes_devBytes, encode_commands, hsame]
  simp [Mem.load]

/-- For every stream of commands that a client sends, with zero bytes between them and cut off
anywhere, in every reachable state of the two threads: the bytes the device has, read as commands,
are the first `k` commands of the client; behind them it has at most a proper beginning of the
next one, and that only while that one is written or after its writing failed. Once the whole
stream is consumed and the command thread is back at its loop, the device has all commands and
nothing else. -/
theorem threads_keepCommands {sent : List (Nat × Command)} {cut : List UInt8} (hcut : Cut cut)
    (hstream : c.stream = padded sent ++ cut) (hs : (threads c).Reachable s) :
    (∃ k rest, deviceBytes s.devLog = encode ((sent.map Prod.snd).take k) ++ rest ∧
      commands (deviceBytes s.devLog) = (sent.map Prod.snd).take k ∧
      (rest = [] ∨ (s.cmdPc.writing = true ∧
        ∃ cmd, (sent.map Prod.snd)[k]? = some cmd ∧ rest <+: cmd.bytes ∧ rest ≠ cmd.bytes))) ∧
    (s.incoming = [] → s.cmdPc = .whileCond ∨ s.cmdPc = .callHeader →
      deviceBytes s.devLog = encode (sent.map Prod.snd)) := by
  have hat := cmdAt_of_reachable hs
  have hcmds : commands c.stream = sent.map Prod.snd := by rw [hstream, commands_padded sent hcut]
  constructor
  · obtain ⟨k, p, hlog, hp⟩ := hat.forwarded
    have hprefix : deviceBytes s.devLog <+: encode (commands c.stream) := by
      rw [hlog, deviceBytes_devBytes, encode_commands]
      exact prefix_of_flatten_take (hp.imp_right fun ⟨_, hf⟩ => hf)
    obtain ⟨j, rest, hsplit, hread, hrest⟩ := commands_of_prefix hprefix
    rw [hcmds] at hsplit hread hrest
    refine ⟨j, rest, hsplit, hread, ?_⟩
    rcases hp with rfl | ⟨hwriting, -⟩
    · left
      -- only whole frames were forwarded
      rw [hlog, deviceBytes_devBytes, List.append_nil, ← map_bytes_commands, hcmds] at hsplit
      rw [← List.map_take] at hsplit
      have hwhole : encode ((sent.map Prod.snd).take k) =
          encode ((sent.map Prod.snd).take j) ++ rest := hsplit
      have hread' := commands_encode ((sent.map Prod.snd).take k)
      rw [hlog, deviceBytes_devBytes, List.append_nil, ← map_bytes_commands, hcmds,
        ← List.map_take] at hread
      have hsame : (sent.map Prod.snd).take k = (sent.map Prod.snd).take j :=
        hread'.symm.trans hread
      rw [hsame] at hwhole
      exact List.self_eq_append_right.mp hwhole
    · exact hrest.imp_right fun h => ⟨hwriting, h⟩
  · intro hin hpc
    rw [← hcmds]
    apply commands_of_consumed _ hin
    rcases hpc with hpc | hpc
    · simpa only [CmdAt, hpc] using hat
    · simpa only [CmdAt, hpc] using hat

/-- The command with the body 7. -/
def seven : Command := ⟨[7], by decide, by decide⟩

/-- A zero byte, that command, and the length byte of a command of two bytes. -/
def sevenAndCut : Child := childOn (padded [(1, seven)] ++ [2])

def sevenRun : List Event :=
  [.cmd .local, .cmd .local, .cmd (.socket (.ok 1)), .cmd .local, .cmd .local,
   .cmd (.socket (.ok 1)), .cmd .local, .cmd (.socket (.ok 1)), .cmd .local,
   .cmd (.device (.ok 2)), .cmd .local]

theorem threads_keepCommands_seven : ∃ s, (threads sevenAndCut).Reachable s ∧
    commands (deviceBytes s.devLog) = [seven] ∧ deviceBytes s.devLog = [1, 7] := by
  have hrun : ((threads sevenAndCut).run sevenAndCut.start sevenRun).map
      (fun s => deviceBytes s.devLog) = some [1, 7] := by decide +kernel
  obtain ⟨s, hs, hlog⟩ := Option.map_eq_some_iff.mp hrun
  have hreach : (threads sevenAndCut).Reachable s := ⟨_, _, sevenAndCut.started_start, hs⟩
  have hcut : Cut [2] := .inr ⟨⟨[0, 0], by decide, by decide⟩, ⟨[0, 0], rfl⟩, by decide⟩
  obtain ⟨⟨k, rest, hbytes, hread, -⟩, -⟩ := threads_keepCommands hcut rfl hreach
  refine ⟨s, hreach, ?_, hlog⟩
  cases k with
  | zero =>
    -- the device has two bytes, and no proper beginning of a command says as much
    have hnone : commands [1, 7] = [] := by
      rw [hlog] at hread
      exact hread
    have hone : commands (encode [seven]) = [seven] := commands_encode [seven]
    exact absurd (hnone.symm.trans hone) (by simp)
  | succ k => rwa [List.map_singleton, List.take_of_length_le (by simp)] at hread

end ITrace.CmdStatusTrans
