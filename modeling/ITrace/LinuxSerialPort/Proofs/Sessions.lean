import ITrace.LinuxSerialPort.Session
import ITrace.LinuxSerialPort.Proofs.Attr
import ITrace.LinuxSerialPort.Proofs.Independence

/-!
# The last accepted value wins

Only `set_serial_port_attr` writes to the port, and what it starts from is what the port has. So
whatever a session does with its own `struct termios`, the port ends up with the last accepted
value of each of the four parameters, in raw mode; and nothing a session can do sets the hardware
flow control or the time-out of the port.
-/

namespace ITrace.LinuxSerialPort

variable {serialDevFd : Int} {s : Session} {t : Termios}

/-! ### Writes of the port -/

/-- A write as a change. -/
def PortWrite.change : PortWrite → Change
  | .setter s _ => s.change
  | .rawMode => rawChange

theorem PortWrite.act_eq (t : Termios) (w : PortWrite) : w.act t = w.change.apply t := by
  cases w with
  | setter s h =>
    rw [act, call_of_accepted h]
    rfl
  | rawMode => exact rawMode_eq t

theorem Fields.Disjoint.symm {f g : Fields} (h : f.Disjoint g) : g.Disjoint f := by
  obtain ⟨hi, ho, hc, hl, hs⟩ := h
  exact ⟨BitVec.and_comm _ _ ▸ hi, BitVec.and_comm _ _ ▸ ho, BitVec.and_comm _ _ ▸ hc,
    BitVec.and_comm _ _ ▸ hl, Bool.and_comm _ _ ▸ hs⟩

theorem rawChange_disjoint (s : Setter) : rawChange.mask.Disjoint s.change.mask := by
  have hkind : ∀ k : SetterKind, rawChange.mask.Disjoint k.fields := by
    intro k
    cases k <;> decide
  exact (hkind s.kind).mono (.refl _) (change_within s)

/-- The raw mode does not look at the parity. -/
theorem forget_rawChange (t : Termios) :
    forgetParodd (rawChange.apply t) = rawChange.apply (forgetParodd t) := by
  have henb : (rawChange.apply t).cCflag &&& parenb = t.cCflag &&& parenb :=
    assign_and_of_disjoint (by decide) _ _
  rw [forgetParodd, forgetParodd, henb]
  split
  · exact (Change.apply_comm (by decide) t).symm
  · rfl

theorem overwrites_port : Overwrites PortWrite.kind PortWrite.act Alike where
  refl := fun _ => rfl
  symm := Eq.symm
  trans := Eq.trans
  congr := fun w {t t'} h => by
    rw [Alike, w.act_eq, w.act_eq]
    cases w with
    | setter s _ =>
      simp only [PortWrite.change]
      rw [← forget_change, h, forget_change]
    | rawMode =>
      simp only [PortWrite.change]
      rw [forget_rawChange, h, forget_rawChange]
  comm := fun w w' t h => by
    simp only [PortWrite.act_eq]
    refine (Change.apply_comm ?_ t).symm
    cases w with
    | setter s _ =>
      cases w' with
      | setter s' _ => exact change_disjoint fun hkind => h (congrArg some hkind)
      | rawMode => exact (rawChange_disjoint s).symm
    | rawMode =>
      cases w' with
      | setter s' _ => exact rawChange_disjoint s'
      | rawMode => exact absurd rfl h
  absorb := fun w w' t h => by
    simp only [PortWrite.act_eq]
    cases w with
    | setter s _ =>
      cases w' with
      | setter s' _ => exact forget_absorb (Option.some.inj h) t
      | rawMode => cases h
    | rawMode =>
      cases w' with
      | setter s' _ => cases h
      | rawMode => exact congrArg forgetParodd (Change.apply_absorb (.refl _) t)

/-- The call of a setter is its writes. -/
theorem foldl_setter_writes (t : Termios) (s : Setter) :
    s.writes.foldl PortWrite.act t = (s.call t).1 := by
  by_cases h : s.Accepted
  · rw [Setter.writes, dif_pos h]
    rfl
  · rw [Setter.writes, dif_neg h, call_of_not_accepted h]
    rfl

theorem foldl_setters_writes (ss : List Setter) (t : Termios) :
    (ss.flatMap Setter.writes).foldl PortWrite.act t = ss.foldl (fun t s => (s.call t).1) t := by
  induction ss generalizing t with
  | nil => rfl
  | cons s ss ih =>
    rw [List.flatMap_cons, List.foldl_append, foldl_setter_writes, List.foldl_cons]
    exact ih _

theorem updateAttr_eq_writes (t : Termios) (spp : SerialPortParams) :
    updateAttr t spp = spp.writes.foldl PortWrite.act t := by
  rw [SerialPortParams.writes, List.foldl_append, foldl_setters_writes]
  rfl

/-! ### Sessions -/

/-- A configuration of a port on which it succeeds. -/
theorem port_configured (hfd : 0 ≤ serialDevFd) (hread : s.port.readable = true)
    (hset : s.port.settable = true) (spp : SerialPortParams) (oldAttr : Option Termios) :
    (s.configured (setSerialPortAttr serialDevFd spp oldAttr s.port)).port =
      { s.port with attr := spp.writes.foldl PortWrite.act s.port.attr } := by
  simp only [setSerialPortAttr_settable hfd hset, Session.configured, Port.tcgetattr, hread,
    if_true, updateAttr_eq_writes]
  rfl

/-- A call changes the port by its writes, and leaves it as good as it was. -/
theorem port_call (hfd : 0 ≤ serialDevFd) (hread : s.port.readable = true)
    (hset : s.port.settable = true) (c : Call) :
    (s.call serialDevFd c).port =
      { s.port with attr := c.writes.foldl PortWrite.act s.port.attr } := by
  cases c with
  | setSerialPortAttr spp keepOld => exact port_configured hfd hread hset spp _
  | setSerialPortQuick baudRate parity dataBits stopBit keepOld =>
    exact port_configured hfd hread hset ⟨baudRate, dataBits, stopBit, parity, 0, 1, 0⟩ _
  | getCurrSerialAttr | setter | setHardwareFlowCtl | setOverTimeAndCharRecved | setRawInputMode
  | setSoftwareFlowCtl | setLocalRecv => rfl

theorem port_run (hfd : 0 ≤ serialDevFd) (hread : s.port.readable = true)
    (hset : s.port.settable = true) (calls : List Call) :
    (s.run serialDevFd calls).port =
      { s.port with attr := (calls.flatMap Call.writes).foldl PortWrite.act s.port.attr } := by
  induction calls generalizing s with
  | nil => rfl
  | cons c calls ih =>
    have hcall := port_call hfd hread hset c
    rw [Session.run, List.foldl_cons, List.flatMap_cons, List.foldl_append]
    have hrest := ih (s := s.call serialDevFd c) (by rw [hcall]; exact hread)
      (by rw [hcall]; exact hset)
    rw [Session.run] at hrest
    rw [hrest, hcall]

theorem writes_outside (ws : List PortWrite) (t : Termios) :
    AgreeOutside managed (ws.foldl PortWrite.act t) t := by
  induction ws generalizing t with
  | nil => exact .refl _ _
  | cons w ws ih =>
    refine (ih (w.act t)).trans ?_
    cases w with
    | setter s h => exact call_outside s t
    | rawMode =>
      rw [PortWrite.act_eq]
      exact Change.apply_outside (by decide) t

/-- Two sessions on an open port that can be read and set, each with a `struct termios` of its own,
leave it alike if for each of the four parameters the last value accepted is the same, and both or
none configured the port: all that is managed is then the same, except that `PARODD` may differ
while `PARENB` is off. Whatever a session does, the port keeps what is not managed, among it
`CRTSCTS` and the time-out. -/
theorem sessions_lastValuesWin (hfd : 0 ≤ serialDevFd) {port : Port}
    (hread : port.readable = true) (hset : port.settable = true) (options options' : Termios)
    {calls calls' : List Call}
    (hlast : ∀ k, lastOf PortWrite.kind k (calls.flatMap Call.writes) =
      lastOf PortWrite.kind k (calls'.flatMap Call.writes)) :
    Alike (Session.run serialDevFd ⟨port, options⟩ calls).port.attr
      (Session.run serialDevFd ⟨port, options'⟩ calls').port.attr ∧
    AgreeOutside managed (Session.run serialDevFd ⟨port, options⟩ calls).port.attr port.attr ∧
    (Session.run serialDevFd ⟨port, options⟩ calls).port.attr.cCflag &&& crtscts =
      port.attr.cCflag &&& crtscts ∧
    (Session.run serialDevFd ⟨port, options⟩ calls).port.attr.cCc = port.attr.cCc := by
  have hport := port_run (s := ⟨port, options⟩) hfd hread hset calls
  have hport' := port_run (s := ⟨port, options'⟩) hfd hread hset calls'
  have houtside := writes_outside (calls.flatMap Call.writes) port.attr
  rw [hport, hport']
  refine ⟨overwrites_port.foldl_of_lastOf hlast port.attr, houtside, ?_, houtside.cc⟩
  have hkept : ∀ x : BitVec 32, x &&& crtscts = x &&& ~~~managed.cflag &&& crtscts := by
    intro x
    rw [BitVec.and_assoc, show ~~~managed.cflag &&& crtscts = crtscts by decide]
  rw [hkept, hkept port.attr.cCflag]
  exact congrArg (· &&& crtscts) houtside.cflag

/-- A session that also asks for the hardware flow control, and whose first configuration has odd
parity and an unknown rate, against one that configures 8 data bits and no parity at once. -/
theorem sessions_lastValuesWin_hardwareFlow :
    Alike
      (Session.run 3 ⟨⟨.zero, true, true⟩, .zero⟩
        [.setSerialPortAttr ⟨12345, 7, 1, 'o'.toUInt8, 0, 0, 0⟩ true, .setHardwareFlowCtl 1,
          .setSerialPortQuick 9600 'n'.toUInt8 8 1 false]).port.attr
      (Session.run 3 ⟨⟨.zero, true, true⟩, .zero⟩
        [.setSerialPortAttr ⟨9600, 8, 1, 'n'.toUInt8, 0, 0, 0⟩ false]).port.attr :=
  (sessions_lastValuesWin (by decide) rfl rfl .zero .zero (by rintro (_ | _ | _) <;> rfl)).1

end ITrace.LinuxSerialPort
