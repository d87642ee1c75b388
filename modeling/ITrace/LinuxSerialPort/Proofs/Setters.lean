import ITrace.LinuxSerialPort.Proofs.Changes
import ITrace.Misc.LastWins

/-!
# The setters as changes

A call of a setter with a value its lookup function knows is a `Change` of the fields of its kind.
-/

namespace ITrace.LinuxSerialPort

/-- A call of a setter. -/
inductive Setter where
  | baudRate (desc : Int)
  | dataBits (desc : UInt8)
  | stopBits (desc : UInt8)
  | parityBits (desc : UInt8)
  deriving DecidableEq

inductive SetterKind where
  | baudRate
  | dataBits
  | stopBits
  | parityBits
  deriving DecidableEq

/-- The fields that the setters of a kind write. -/
def SetterKind.fields : SetterKind → Fields
  | .baudRate => { Fields.none with speeds := true }
  | .dataBits => { Fields.none with cflag := csize }
  | .stopBits => { Fields.none with cflag := cstopb }
  | .parityBits =>
      { Fields.none with iflag := inpck ||| parmrk ||| istrip, cflag := parodd ||| parenb }

namespace Setter

def call (options : Termios) : Setter → Termios × Int
  | .baudRate desc => setBaudRate options desc
  | .dataBits desc => setDataBits options desc
  | .stopBits desc => setStopBits options desc
  | .parityBits desc => setParityBits options desc

def kind : Setter → SetterKind
  | .baudRate _ => .baudRate
  | .dataBits _ => .dataBits
  | .stopBits _ => .stopBits
  | .parityBits _ => .parityBits

/-- The lookup function knows the value. -/
def Accepted : Setter → Prop
  | .baudRate desc => 0 ≤ getBaudRateFromDesc desc
  | .dataBits desc => 0 ≤ getDataBitsFromDesc desc.toNat
  | .stopBits desc => 0 ≤ getStopBitsFromDesc desc.toNat
  | .parityBits desc => 0 ≤ getParityFromDesc desc

instance decidableAccepted (s : Setter) : Decidable s.Accepted := by
  cases s <;> exact Int.decLe ..

/-- The flags in `c_iflag` that go with a parity. -/
def parityCheck : BitVec 32 := inpck ||| parmrk ||| istrip

/-- What `set_parity_bits` does for a parity. -/
def parityChange (parity : Int) : Change :=
  if parity = parityEven then
    { mask := { Fields.none with iflag := parityCheck, cflag := parodd ||| parenb }
      value := { Termios.zero with cIflag := parityCheck, cCflag := parenb } }
  else if parity = parityOdd then
    { mask := { Fields.none with iflag := parityCheck, cflag := parodd ||| parenb }
      value := { Termios.zero with cIflag := parityCheck, cCflag := parodd ||| parenb } }
  else
    { mask := { Fields.none with iflag := parityCheck, cflag := parenb }
      value := .zero }

/-- What an accepted call does. -/
def change : Setter → Change
  | .baudRate desc =>
      { mask := { Fields.none with speeds := true }
        value := cfsetospeed (cfsetispeed .zero (getBaudRateFromDesc desc))
          (getBaudRateFromDesc desc) }
  | .dataBits desc =>
      { mask := { Fields.none with cflag := csize }
        value := { Termios.zero with
          cCflag := BitVec.ofInt 32 (getDataBitsFromDesc desc.toNat) } }
  | .stopBits desc =>
      { mask := { Fields.none with cflag := cstopb }
        value := { Termios.zero with
          cCflag := if getStopBitsFromDesc desc.toNat = stopBits1 then 0 else cstopb } }
  | .parityBits desc => parityChange (getParityFromDesc desc)

end Setter

/-! ### What the lookup functions answer -/

/-- Every speed. -/
def Baud.all : List Baud :=
  [b0, b50, b75, b110, b134, b150, b200, b300, b600, b1200, b1800, b2400, b4800, b9600, b19200,
    b38400, b57600, b115200, b230400, b460800, b500000, b576000, b921600, b1000000, b1152000,
    b1500000, b2000000, b2500000, b3000000, b3500000, b4000000]

theorem Baud.find_rate (b : Baud) : Baud.all.find? (fun c => c.rate = b.rate) = some b := by
  cases b <;> rfl

theorem Baud.rate_inj {b c : Baud} (h : b.rate = c.rate) : b = c := by
  have hb := b.find_rate
  rw [h, c.find_rate] at hb
  exact (Option.some.inj hb).symm

theorem getBaudRateFromDesc_rate (b : Baud) :
    getBaudRateFromDesc b.rate = if b = .b3500000 then Baud.b2500000.value else b.value := by
  cases b <;> rfl

theorem getDataBitsFromDesc_cases (n : Int) :
    getDataBitsFromDesc n = -1 ∧ ¬ (5 ≤ n ∧ n ≤ 8) ∨
      5 ≤ n ∧ n ≤ 8 ∧ getDataBitsFromDesc n = (n - 5) * 16 := by
  unfold getDataBitsFromDesc cs5 cs6 cs7 cs8
  split_ifs <;> omega

theorem getStopBitsFromDesc_cases (n : Int) :
    getStopBitsFromDesc n = -1 ∧ n ≠ 1 ∧ n ≠ 2 ∨
      (n = 1 ∨ n = 2) ∧ getStopBitsFromDesc n = n := by
  unfold getStopBitsFromDesc stopBits1 stopBits2
  split_ifs <;> omega

theorem getParityFromDesc_cases (desc : UInt8) :
    getParityFromDesc desc = -1 ∨ getParityFromDesc desc = parityNo ∨
      getParityFromDesc desc = parityOdd ∨ getParityFromDesc desc = parityEven ∨
      getParityFromDesc desc = paritySpace := by
  unfold getParityFromDesc
  split_ifs <;> simp

/-! ### What the setters do -/

theorem change_baudRate (options : Termios) {desc : Int} (h : (Setter.baudRate desc).Accepted) :
    setBaudRate options desc = ((Setter.baudRate desc).change.apply options, 0) := by
  have hnot : ¬ getBaudRateFromDesc desc < 0 := Int.not_lt.mpr h
  rw [setBaudRate, if_neg hnot]
  simp [Setter.change, Change.apply, Fields.none, cfsetispeed, cfsetospeed]

theorem dataBits_fit (desc : UInt8) (h : (Setter.dataBits desc).Accepted) :
    BitVec.ofInt 32 (getDataBitsFromDesc desc.toNat) &&& ~~~csize = 0 := by
  unfold Setter.Accepted at h
  unfold getDataBitsFromDesc at h ⊢
  split_ifs at h ⊢ <;> first | rfl | omega

theorem change_dataBits (options : Termios) {desc : UInt8} (h : (Setter.dataBits desc).Accepted) :
    setDataBits options desc = ((Setter.dataBits desc).change.apply options, 0) := by
  have hnot : ¬ getDataBitsFromDesc desc.toNat < 0 := Int.not_lt.mpr h
  rw [setDataBits, if_neg hnot]
  simp only [and_not_or_eq_assign (dataBits_fit desc h)]
  simp [Setter.change, Change.apply, Fields.none]

theorem change_stopBits (options : Termios) {desc : UInt8} (h : (Setter.stopBits desc).Accepted) :
    setStopBits options desc = ((Setter.stopBits desc).change.apply options, 0) := by
  have hnot : ¬ getStopBitsFromDesc desc.toNat < 0 := Int.not_lt.mpr h
  rw [setStopBits, if_neg hnot]
  rcases getStopBitsFromDesc_cases desc.toNat with ⟨hnone, -⟩ | ⟨hone | htwo, heq⟩
  · omega
  · have hval := heq.trans hone
    simp [Setter.change, Change.apply, Fields.none, hval, stopBits1, and_not_eq_assign]
  · have hval := heq.trans htwo
    simp [Setter.change, Change.apply, Fields.none, hval, stopBits1, stopBits2, or_eq_assign]

theorem inpck_covered : inpck &&& ~~~(inpck ||| parmrk ||| istrip) = 0 := by decide

/-- `c_iflag` with the parity checked. -/
theorem iflag_checked (x : BitVec 32) :
    (x ||| inpck) ||| (inpck ||| parmrk ||| istrip) =
      assign (inpck ||| parmrk ||| istrip) (inpck ||| parmrk ||| istrip) x := by
  rw [or_eq_assign inpck x, or_eq_assign (inpck ||| parmrk ||| istrip)]
  exact assign_absorb inpck_covered ..

/-- `c_iflag` with no parity checked. -/
theorem iflag_unchecked (x : BitVec 32) :
    assign (inpck ||| parmrk ||| istrip) 0 (x ||| inpck) =
      assign (inpck ||| parmrk ||| istrip) 0 x := by
  rw [or_eq_assign inpck x]
  exact assign_absorb inpck_covered ..

theorem cflag_even (x : BitVec 32) :
    (x ||| parenb) &&& ~~~parodd = assign (parodd ||| parenb) parenb x := by
  have hvalue : assign parodd 0 parenb = parenb := by decide
  rw [or_eq_assign, and_not_eq_assign, assign_assign, hvalue]

theorem cflag_odd (x : BitVec 32) :
    (x ||| parenb) ||| parodd = assign (parodd ||| parenb) (parodd ||| parenb) x := by
  have hvalue : assign parodd parodd parenb = parodd ||| parenb := by decide
  rw [or_eq_assign, or_eq_assign, assign_assign, hvalue]

theorem change_parityBits (options : Termios) {desc : UInt8}
    (h : (Setter.parityBits desc).Accepted) :
    setParityBits options desc = ((Setter.parityBits desc).change.apply options, 0) := by
  have hnot : ¬ getParityFromDesc desc < 0 := Int.not_lt.mpr h
  rw [setParityBits, if_neg hnot]
  rcases getParityFromDesc_cases desc with hnone | hval | hval | hval | hval
  · omega
  · have hcheck := iflag_unchecked options.cIflag
    simp only [Setter.change, Setter.parityChange, hval, and_not_eq_assign, paritySpaceCase]
    simp_all [parityNo, parityEven, parityOdd, Change.apply, Fields.none, Setter.parityCheck,
      Termios.zero]
  · simp only [Setter.change, Setter.parityChange, hval, iflag_checked, cflag_odd]
    simp [parityEven, parityOdd, Change.apply, Fields.none, Setter.parityCheck]
  · simp only [Setter.change, Setter.parityChange, hval, iflag_checked, cflag_even]
    simp [Change.apply, Fields.none, Setter.parityCheck]
  · have hcheck := iflag_unchecked options.cIflag
    simp only [Setter.change, Setter.parityChange, hval, and_not_eq_assign, paritySpaceCase]
    simp_all [paritySpace, parityNo, parityEven, parityOdd, Change.apply, Fields.none,
      Setter.parityCheck, Termios.zero]

/-- A call with an accepted value returns 0 and is its change. -/
theorem call_of_accepted {s : Setter} (h : s.Accepted) (options : Termios) :
    s.call options = (s.change.apply options, 0) := by
  cases s with
  | baudRate desc => exact change_baudRate options h
  | dataBits desc => exact change_dataBits options h
  | stopBits desc => exact change_stopBits options h
  | parityBits desc => exact change_parityBits options h

/-- A call with another value returns -1 and does nothing. -/
theorem call_of_not_accepted {s : Setter} (h : ¬ s.Accepted) (options : Termios) :
    s.call options = (options, -1) := by
  cases s <;> exact if_pos (Int.not_le.mp h)

/-- Calls with accepted values, one after another. -/
theorem calls_of_accepted {ss : List Setter} (h : ∀ s ∈ ss, s.Accepted) (options : Termios) :
    ss.foldl (fun t s => (s.call t).1) options = ss.foldl (fun t s => s.change.apply t) options := by
  induction ss generalizing options with
  | nil => rfl
  | cons s ss ih =>
    rw [List.foldl_cons, List.foldl_cons, call_of_accepted (h s (List.mem_cons_self ..))]
    apply ih
    intro s' hs'
    exact h s' (List.mem_cons_of_mem _ hs')

/-- The calls of `set_serial_port_attr`, in its order. -/
def SerialPortParams.setters (spp : SerialPortParams) : List Setter :=
  [.baudRate spp.baudRate, .dataBits (toChar spp.dataBit), .parityBits spp.parityBits,
    .stopBits (toChar spp.stopBit)]

theorem updateAttr_eq (t : Termios) (spp : SerialPortParams) :
    updateAttr t spp = rawMode (spp.setters.foldl (fun t s => (s.call t).1) t) := rfl

theorem parityBits_mask (desc : UInt8) :
    (Setter.parityBits desc).change.mask =
        { Fields.none with iflag := Setter.parityCheck, cflag := parodd ||| parenb } ∨
      (Setter.parityBits desc).change.mask =
        { Fields.none with iflag := Setter.parityCheck, cflag := parenb } := by
  simp only [Setter.change, Setter.parityChange]
  split_ifs <;> simp

theorem change_within (s : Setter) : s.change.mask.Within s.kind.fields := by
  cases s with
  | baudRate desc => exact .refl _
  | dataBits desc => exact .refl _
  | stopBits desc => exact .refl _
  | parityBits desc =>
    change Fields.Within _ SetterKind.parityBits.fields
    rcases parityBits_mask desc with hm | hm <;> rw [hm] <;> decide

theorem fields_disjoint {k k' : SetterKind} (h : k ≠ k') : k.fields.Disjoint k'.fields := by
  cases k <;> cases k' <;> first | exact absurd rfl h | decide

/-- Setters of different kinds write different fields. -/
theorem change_disjoint {s s' : Setter} (h : s.kind ≠ s'.kind) :
    s.change.mask.Disjoint s'.change.mask :=
  (fields_disjoint h).mono (change_within s) (change_within s')

end ITrace.LinuxSerialPort
