import ITrace.LinuxSerialPort.Proofs.Setters

/-!
# What `set_serial_port_attr` sets up

`Asked` says that a `termios` is what the parameters ask for, read from its own fields. The call
returns 0 whenever `tcsetattr` does, whatever the setters answered, and the table of speeds holds a
wrong constant; what it does is what was asked exactly where neither matters.
-/

namespace ITrace.LinuxSerialPort

/-! ### What a `termios` means -/

inductive Parity where
  | disabled
  | even
  | odd
  deriving DecidableEq

namespace Termios

/-- `CS5` to `CS8` are the values 0 to 3 of a field of two bits. -/
def dataBits (t : Termios) : Int := 5 + ((t.cCflag &&& csize) >>> 4).toNat

def stopBits (t : Termios) : Int := if t.cCflag &&& cstopb = 0 then 1 else 2

def parity (t : Termios) : Parity :=
  if t.cCflag &&& parenb = 0 then .disabled
  else if t.cCflag &&& parodd = 0 then .even
  else .odd

end Termios

/-- The parity a letter asks for. -/
def requestedParity (desc : UInt8) : Option Parity :=
  if desc ∈ ['n', 'N', 's', 'S'].map Char.toUInt8 then some .disabled
  else if desc ∈ ['e', 'E'].map Char.toUInt8 then some .even
  else if desc ∈ ['o', 'O'].map Char.toUInt8 then some .odd
  else none

/-- The four values are supported, as they are and not as `char`. -/
def Supported (spp : SerialPortParams) : Prop :=
  (∃ b ∈ Baud.all, b.rate = spp.baudRate) ∧ (5 ≤ spp.dataBit ∧ spp.dataBit ≤ 8) ∧
    (spp.stopBit = 1 ∨ spp.stopBit = 2) ∧ (requestedParity spp.parityBits).isSome

instance decidableSupported (spp : SerialPortParams) : Decidable (Supported spp) :=
  inferInstanceAs (Decidable (_ ∧ _))

/-- `t` is what `spp` asks for: both speeds are the constant named after the rate, and data bits,
stop bits and parity are the requested ones. -/
def Asked (spp : SerialPortParams) (t : Termios) : Prop :=
  (∃ b ∈ Baud.all, b.rate = spp.baudRate ∧ t.cIspeed = BitVec.ofInt 32 b.value ∧
    t.cOspeed = BitVec.ofInt 32 b.value) ∧
  t.dataBits = spp.dataBit ∧ t.stopBits = spp.stopBit ∧
  requestedParity spp.parityBits = some t.parity

instance decidableAsked (spp : SerialPortParams) (t : Termios) : Decidable (Asked spp t) :=
  inferInstanceAs (Decidable (_ ∧ _))

/-- The configuration is all or nothing: 0 means that what was handed to `tcsetattr` is what was
asked for, a value that is not supported gives -1 and leaves the port alone, and
`set_serial_port_quick` answers the same. -/
def AllOrNothing (serialDevFd : Int) (spp : SerialPortParams) (oldAttr : Option Termios)
    (port : Port) : Prop :=
  let call := setSerialPortAttr serialDevFd spp oldAttr port
  (call.ret = 0 → ∃ t ∈ call.handed, Asked spp t) ∧
  (¬ Supported spp → call.ret = -1 ∧ call.port.attr = port.attr) ∧
  (setSerialPortQuick serialDevFd spp.baudRate spp.parityBits spp.dataBit spp.stopBit oldAttr
    port).ret = call.ret

/-! ### The setters with supported values -/

theorem requestedParity_eq (desc : UInt8) :
    requestedParity desc =
      if getParityFromDesc desc = -1 then none
      else if getParityFromDesc desc = parityEven then some .even
      else if getParityFromDesc desc = parityOdd then some .odd
      else some .disabled := by
  by_cases hn : desc = 'n'.toUInt8 ∨ desc = 'N'.toUInt8
  · rcases hn with rfl | rfl <;> decide
  by_cases ho : desc = 'o'.toUInt8 ∨ desc = 'O'.toUInt8
  · rcases ho with rfl | rfl <;> decide
  by_cases he : desc = 'e'.toUInt8 ∨ desc = 'E'.toUInt8
  · rcases he with rfl | rfl <;> decide
  by_cases hs : desc = 's'.toUInt8 ∨ desc = 'S'.toUInt8
  · rcases hs with rfl | rfl <;> decide
  have hnone : getParityFromDesc desc = -1 := by
    rw [getParityFromDesc, if_neg hn, if_neg ho, if_neg he, if_neg hs]
  rw [not_or] at hn ho he hs
  rw [hnone, if_pos rfl, requestedParity]
  simp [hn, ho, he, hs]

theorem toNat_toChar {n : Int} (h0 : 0 ≤ n) (h : n < 256) : ((toChar n).toNat : Int) = n := by
  unfold toChar
  rw [UInt8.toNat_ofNat']
  omega

/-- Supported values are accepted by their setters. -/
theorem accepted_of_supported {spp : SerialPortParams} (h : Supported spp) :
    ∀ s ∈ spp.setters, s.Accepted := by
  obtain ⟨⟨b, -, hb⟩, ⟨h5, h8⟩, hstop, hparity⟩ := h
  have hbaud : (Setter.baudRate spp.baudRate).Accepted := by
    rw [← hb, Setter.Accepted, getBaudRateFromDesc_rate]
    cases b <;> decide
  have hdata : (Setter.dataBits (toChar spp.dataBit)).Accepted := by
    rw [Setter.Accepted, toNat_toChar (by omega) (by omega)]
    rcases getDataBitsFromDesc_cases spp.dataBit with ⟨-, hno⟩ | ⟨-, -, heq⟩ <;> omega
  have hparity' : (Setter.parityBits spp.parityBits).Accepted := by
    rw [requestedParity_eq] at hparity
    rw [Setter.Accepted]
    rcases getParityFromDesc_cases spp.parityBits with hval | hval | hval | hval | hval
    · simp [hval] at hparity
    all_goals rw [hval]; decide
  have hstop' : (Setter.stopBits (toChar spp.stopBit)).Accepted := by
    rw [Setter.Accepted, toNat_toChar (by omega) (by omega)]
    rcases getStopBitsFromDesc_cases spp.stopBit with ⟨-, h1, h2⟩ | ⟨-, heq⟩ <;> omega
  simp [SerialPortParams.setters, hbaud, hdata, hparity', hstop']

section
variable {spp : SerialPortParams} (h : ∀ s ∈ spp.setters, s.Accepted) (t : Termios)
include h

/-- The three fields of `c_cflag`, one after another. -/
theorem updateAttr_cflag :
    (updateAttr t spp).cCflag =
      assign cstopb (Setter.stopBits (toChar spp.stopBit)).change.value.cCflag
        (assign (Setter.parityBits spp.parityBits).change.mask.cflag
          (Setter.parityBits spp.parityBits).change.value.cCflag
          (assign csize (BitVec.ofInt 32 (getDataBitsFromDesc (toChar spp.dataBit).toNat))
            t.cCflag)) := by
  rw [updateAttr_eq, calls_of_accepted h]
  change assign _ _ (assign _ _ (assign _ _ (assign 0 _ t.cCflag))) = _
  rw [show (0 : BitVec 32) = 0#32 from rfl, assign_zero]
  rfl

theorem updateAttr_speeds :
    (updateAttr t spp).cIspeed = BitVec.ofInt 32 (getBaudRateFromDesc spp.baudRate) ∧
      (updateAttr t spp).cOspeed = BitVec.ofInt 32 (getBaudRateFromDesc spp.baudRate) := by
  have hspeeds : (Setter.parityBits spp.parityBits).change.mask.speeds = false := by
    rcases parityBits_mask spp.parityBits with hm | hm <;> rw [hm] <;> rfl
  rw [updateAttr_eq, calls_of_accepted h]
  simp only [SerialPortParams.setters, List.foldl_cons, List.foldl_nil, rawMode, Change.apply,
    hspeeds]
  exact ⟨rfl, rfl⟩

theorem updateAttr_csize :
    (updateAttr t spp).cCflag &&& csize =
      BitVec.ofInt 32 (getDataBitsFromDesc (toChar spp.dataBit).toNat) &&& csize := by
  have hparity : (Setter.parityBits spp.parityBits).change.mask.cflag &&& csize = 0 := by
    rcases parityBits_mask spp.parityBits with hm | hm <;> rw [hm] <;> decide
  rw [updateAttr_cflag h, assign_and_of_disjoint (by decide), assign_and_of_disjoint hparity,
    assign_and_of_covered (by decide)]

theorem updateAttr_cstopb :
    (updateAttr t spp).cCflag &&& cstopb =
      (Setter.stopBits (toChar spp.stopBit)).change.value.cCflag &&& cstopb := by
  rw [updateAttr_cflag h, assign_and_of_covered (by decide)]

/-- A flag of the parity field. -/
theorem updateAttr_parity (flag : BitVec 32) (hstop : cstopb &&& flag = 0)
    (hflag : flag &&& ~~~(Setter.parityBits spp.parityBits).change.mask.cflag = 0) :
    (updateAttr t spp).cCflag &&& flag =
      (Setter.parityBits spp.parityBits).change.value.cCflag &&& flag := by
  rw [updateAttr_cflag h, assign_and_of_disjoint hstop, assign_and_of_covered hflag]

/-- The parity is the requested one. -/
theorem updateAttr_requested : some (updateAttr t spp).parity = requestedParity spp.parityBits := by
  have hmask := parityBits_mask spp.parityBits
  have henb : parenb &&& ~~~(Setter.parityBits spp.parityBits).change.mask.cflag = 0 := by
    rcases hmask with hm | hm <;> rw [hm] <;> decide
  have hchange : (Setter.parityBits spp.parityBits).change =
      Setter.parityChange (getParityFromDesc spp.parityBits) := rfl
  rw [Termios.parity, updateAttr_parity h t parenb (by decide) henb, requestedParity_eq]
  rcases getParityFromDesc_cases spp.parityBits with hval | hval | hval | hval | hval
  · have haccepted := h (.parityBits spp.parityBits) (by simp [SerialPortParams.setters])
    rw [Setter.Accepted, hval] at haccepted
    omega
  · rw [hchange, hval, if_pos (by decide)]
    decide
  · have hodd := updateAttr_parity h t parodd (by decide)
    rw [hchange, hval] at hodd ⊢
    rw [hodd (by decide)]
    decide
  · have hodd := updateAttr_parity h t parodd (by decide)
    rw [hchange, hval] at hodd ⊢
    rw [hodd (by decide)]
    decide
  · rw [hchange, hval, if_pos (by decide)]
    decide

end

/-- With supported values the outcome is what was asked for, but for one rate. -/
theorem asked_iff {spp : SerialPortParams} (h : Supported spp) (t : Termios) :
    Asked spp (updateAttr t spp) ↔ spp.baudRate ≠ 3500000 := by
  have haccepted := accepted_of_supported h
  obtain ⟨⟨b, hmem, hb⟩, ⟨h5, h8⟩, hstop, hparity⟩ := h
  have hdata : (updateAttr t spp).dataBits = spp.dataBit := by
    have hn : spp.dataBit = 5 ∨ spp.dataBit = 6 ∨ spp.dataBit = 7 ∨ spp.dataBit = 8 := by omega
    rw [Termios.dataBits, updateAttr_csize haccepted]
    rcases hn with hn | hn | hn | hn <;> rw [hn] <;> decide
  have hstop : (updateAttr t spp).stopBits = spp.stopBit := by
    rw [Termios.stopBits, updateAttr_cstopb haccepted]
    rcases hstop with hn | hn <;> rw [hn] <;> decide
  have hparity : requestedParity spp.parityBits = some (updateAttr t spp).parity :=
    (updateAttr_requested haccepted t).symm
  obtain ⟨hispeed, hospeed⟩ := updateAttr_speeds haccepted t
  rw [Asked, hdata, hstop, ← hparity, hispeed, hospeed, ← hb, getBaudRateFromDesc_rate]
  constructor
  · rintro ⟨⟨c, -, hc, hspeed, -⟩, -⟩ hrate
    have hb' : b = .b3500000 := Baud.rate_inj hrate
    have hc' : c = .b3500000 := (Baud.rate_inj hc).trans hb'
    rw [hb', hc'] at hspeed
    exact absurd hspeed (by decide)
  · intro hrate
    have hne : b ≠ .b3500000 := fun hb' => hrate (congrArg Baud.rate hb')
    rw [if_neg hne]
    exact ⟨⟨b, hmem, rfl, rfl, rfl⟩, rfl, rfl, rfl⟩

/-! ### The call -/

section
variable {serialDevFd : Int} {spp : SerialPortParams} {oldAttr : Option Termios} {port : Port}

theorem setSerialPortAttr_negative (h : serialDevFd < 0) :
    setSerialPortAttr serialDevFd spp oldAttr port = ⟨-1, none, port, oldAttr, false⟩ :=
  if_pos h

theorem setSerialPortAttr_settable (h : 0 ≤ serialDevFd) (hset : port.settable = true) :
    setSerialPortAttr serialDevFd spp oldAttr port =
      ⟨0, some (updateAttr (port.tcgetattr .zero) spp),
        { port with attr := updateAttr (port.tcgetattr .zero) spp },
        oldAttr.map port.tcgetattr, false⟩ := by
  rw [setSerialPortAttr, if_neg (by omega)]
  simp [Port.tcsetattr, hset]

/-- The descriptor is closed if `tcsetattr` fails. -/
theorem setSerialPortAttr_notSettable (h : 0 ≤ serialDevFd) (hset : port.settable = false) :
    setSerialPortAttr serialDevFd spp oldAttr port =
      ⟨-1, some (updateAttr (port.tcgetattr .zero) spp), port, oldAttr.map port.tcgetattr, true⟩ := by
  rw [setSerialPortAttr, if_neg (by omega)]
  simp [Port.tcsetattr, hset]

end

/-- For every descriptor, every parameters and every port: the configuration is all or nothing
exactly if `tcsetattr` is reached and succeeds, the four values are supported, and the rate is not
the one whose constant the table has wrong. -/
theorem setSerialPortAttr_allOrNothing (serialDevFd : Int) (spp : SerialPortParams)
    (oldAttr : Option Termios) (port : Port) :
    AllOrNothing serialDevFd spp oldAttr port ↔
      0 ≤ serialDevFd ∧ port.settable = true ∧ Supported spp ∧ spp.baudRate ≠ 3500000 := by
  unfold AllOrNothing
  constructor
  · rintro ⟨hasked, hsupported, hquick⟩
    -- `set_serial_port_quick` returns 0 in any case
    change 0 = (setSerialPortAttr serialDevFd spp oldAttr port).ret at hquick
    have hfd : 0 ≤ serialDevFd := by
      by_contra hneg
      rw [setSerialPortAttr_negative (by omega)] at hquick
      cases hquick
    have hset : port.settable = true := by
      by_contra hnot
      rw [setSerialPortAttr_notSettable hfd (by simpa using hnot)] at hquick
      cases hquick
    rw [setSerialPortAttr_settable hfd hset] at hasked hsupported
    have hsup : Supported spp := by
      by_contra hnot
      cases (hsupported hnot).1
    obtain ⟨t, ht, hmeant⟩ := hasked rfl
    cases ht
    exact ⟨hfd, hset, hsup, (asked_iff hsup _).mp hmeant⟩
  · rintro ⟨hfd, hset, hsup, hrate⟩
    have hmeant := (asked_iff hsup (port.tcgetattr .zero)).mpr hrate
    have hret : (setSerialPortAttr serialDevFd spp oldAttr port).ret = 0 := by
      rw [setSerialPortAttr_settable hfd hset]
    refine ⟨fun _ => ?_, fun hnot => absurd hsup hnot, hret.symm⟩
    rw [setSerialPortAttr_settable hfd hset]
    exact ⟨_, rfl, hmeant⟩

/-- A port at 9600 baud with 8 data bits. -/
def idlePort : Port where
  attr := { Termios.zero with cCflag := csize, cIspeed := 0o15, cOspeed := 0o15 }
  readable := true
  settable := true

/-- `baud_rate`, `data_bit`, `stop_bit` and `parity_bits`, and the rest as in `main.c`. -/
def params (baudRate dataBit stopBit : Int) (parityBits : UInt8) : SerialPortParams :=
  ⟨baudRate, dataBit, stopBit, parityBits, 0, 0, 0⟩

/-- 3500000 sets 2500000; 12345 is refused by its setter but the call returns 0, with the old
speed and the other values changed; 264 data bits are 8 as a `char`; and on a bad descriptor
`set_serial_port_quick` returns 0. -/
theorem unsupported_not_refused :
    ((setSerialPortAttr 3 (params 3500000 8 1 'n'.toUInt8) none idlePort).ret = 0 ∧
      (setSerialPortAttr 3 (params 3500000 8 1 'n'.toUInt8) none idlePort).port.attr.cIspeed =
        BitVec.ofInt 32 Baud.b2500000.value ∧
      ¬ AllOrNothing 3 (params 3500000 8 1 'n'.toUInt8) none idlePort) ∧
    ((setSerialPortAttr 3 (params 12345 7 1 'n'.toUInt8) none idlePort).ret = 0 ∧
      (setSerialPortAttr 3 (params 12345 7 1 'n'.toUInt8) none idlePort).port.attr.cIspeed =
        BitVec.ofInt 32 Baud.b9600.value ∧
      (setSerialPortAttr 3 (params 12345 7 1 'n'.toUInt8) none idlePort).port.attr.dataBits = 7 ∧
      ¬ AllOrNothing 3 (params 12345 7 1 'n'.toUInt8) none idlePort) ∧
    ((setSerialPortAttr 3 (params 9600 264 1 'n'.toUInt8) none idlePort).ret = 0 ∧
      (setSerialPortAttr 3 (params 9600 264 1 'n'.toUInt8) none idlePort).port.attr.dataBits = 8 ∧
      ¬ AllOrNothing 3 (params 9600 264 1 'n'.toUInt8) none idlePort) ∧
    ((setSerialPortAttr (-1) (params 9600 8 1 'n'.toUInt8) none idlePort).ret = -1 ∧
      (setSerialPortQuick (-1) 9600 'n'.toUInt8 8 1 none idlePort).ret = 0 ∧
      ¬ AllOrNothing (-1) (params 9600 8 1 'n'.toUInt8) none idlePort) := by
  refine ⟨⟨by decide, by decide, fun h => ?_⟩, ⟨by decide, by decide, by decide, fun h => ?_⟩,
    ⟨by decide, by decide, fun h => ?_⟩, ⟨by decide, by decide, fun h => ?_⟩⟩
  · -- the speed handed over is not B3500000
    obtain ⟨t, ht, hmeant⟩ := h.1 (by decide)
    cases ht
    exact absurd hmeant (by decide)
  · exact absurd (h.2.1 (by decide)).1 (by decide)
  · exact absurd (h.2.1 (by decide)).1 (by decide)
  · exact absurd h.2.2 (by decide)

end ITrace.LinuxSerialPort
