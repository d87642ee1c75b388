import ITrace.LinuxSerialPort.Proofs.Setters
import ITrace.Misc.LastWins

/-!
# The setters forget the past

What a `termios` held before in the fields `set_serial_port_attr` manages makes no difference to
what it computes, with one exception: disabling the parity leaves `PARODD` as it was, which means
nothing while `PARENB` is clear. `Alike` looks past that bit. A parity setter, seen this way,
overwrites its whole field, so the setters are a case of `Overwrites`.
-/

namespace ITrace.LinuxSerialPort

/-- The fields `set_serial_port_attr` manages. -/
def managed : Fields where
  iflag := inpck ||| parmrk ||| istrip ||| ignbrk ||| brkint ||| icrnl ||| inlcr ||| ixon |||
    ixoff ||| ixany
  oflag := opost
  cflag := csize ||| cstopb ||| parenb ||| parodd
  lflag := echo ||| echonl ||| icanon ||| iexten ||| isig
  speeds := true

/-- `PARODD` cleared. -/
def clearParodd : Change where
  mask := { Fields.none with cflag := parodd }
  value := .zero

/-- Without `PARODD` where it means nothing. -/
def forgetParodd (t : Termios) : Termios :=
  if t.cCflag &&& parenb = 0 then clearParodd.apply t else t

/-- The same but for `PARODD` where `PARENB` is clear. -/
def Alike (t t' : Termios) : Prop := forgetParodd t = forgetParodd t'

/-- A call of a setter with a value it accepts. -/
def AcceptedSetter : Type := { s : Setter // s.Accepted }

def AcceptedSetter.kind (s : AcceptedSetter) : SetterKind := s.1.kind

/-- The `termios` after the call. -/
def AcceptedSetter.set (options : Termios) (s : AcceptedSetter) : Termios := (s.1.call options).1

/-- A whole sequence of calls. -/
def setAll (options : Termios) (ss : List AcceptedSetter) : Termios :=
  ss.foldl AcceptedSetter.set options

theorem AcceptedSetter.set_eq (options : Termios) (s : AcceptedSetter) :
    AcceptedSetter.set options s = s.1.change.apply options := by
  rw [set, call_of_accepted s.2]

/-! ### Looking past `PARODD` -/

/-- Parity off, and `PARODD` with it. -/
def parityOff : Change where
  mask := SetterKind.parityBits.fields
  value := .zero

theorem off_forget (t : Termios) :
    clearParodd.apply ((Setter.parityChange parityNo).apply t) = parityOff.apply t := by
  have hvalue : assign parodd 0 (0 : BitVec 32) = 0 := by decide
  have hcflag : assign parodd 0 (assign parenb 0 t.cCflag) = assign (parodd ||| parenb) 0 t.cCflag := by
    rw [assign_assign, hvalue]
  simp only [Setter.parityChange, parityNo, parityEven, parityOdd, clearParodd, parityOff,
    Change.apply, Fields.none, SetterKind.fields, Setter.parityCheck, Termios.zero] at hcflag ⊢
  simpa using hcflag

/-- A parity setter, looking past `PARODD`, writes all of its fields. -/
theorem parity_forget (parity : Int) :
    ∃ c : Change, c.mask = SetterKind.parityBits.fields ∧
      ∀ t, forgetParodd ((Setter.parityChange parity).apply t) = c.apply t := by
  by_cases heven : parity = parityEven
  · refine ⟨Setter.parityChange parityEven, rfl, fun t => ?_⟩
    have henb : ((Setter.parityChange parityEven).apply t).cCflag &&& parenb = parenb := by
      exact (assign_and_of_covered (by decide) ..).trans (by decide)
    rw [heven, forgetParodd, henb, if_neg (by decide)]
  by_cases hodd : parity = parityOdd
  · refine ⟨Setter.parityChange parityOdd, rfl, fun t => ?_⟩
    have henb : ((Setter.parityChange parityOdd).apply t).cCflag &&& parenb = parenb := by
      exact (assign_and_of_covered (by decide) ..).trans (by decide)
    rw [hodd, forgetParodd, henb, if_neg (by decide)]
  · refine ⟨parityOff, rfl, fun t => ?_⟩
    have hno : Setter.parityChange parity = Setter.parityChange parityNo := by
      rw [Setter.parityChange, if_neg heven, if_neg hodd]
      rfl
    have henb : ((Setter.parityChange parityNo).apply t).cCflag &&& parenb = 0 := by
      exact (assign_and_of_covered (by decide) ..).trans (by decide)
    rw [hno, forgetParodd, henb, if_pos rfl, off_forget]

/-- A setter of another kind does not look at the parity. -/
theorem forget_apply_of_ne {s : Setter} (h : s.kind ≠ .parityBits) (t : Termios) :
    forgetParodd (s.change.apply t) = s.change.apply (forgetParodd t) := by
  have hfields := (fields_disjoint h).mono (change_within s) (.refl _)
  have hclear : s.change.mask.Disjoint clearParodd.mask :=
    (fields_disjoint h).mono (change_within s) (by decide)
  have henb : (s.change.apply t).cCflag &&& parenb = t.cCflag &&& parenb :=
    assign_and_of_disjoint (disjoint_of_covered (by simp) (by decide) hfields.2.2.1) _ _
  rw [forgetParodd, forgetParodd, henb]
  split
  · exact (Change.apply_comm hclear t).symm
  · rfl

/-! ### The setters overwrite -/

theorem clearParodd_forget (t : Termios) :
    forgetParodd (clearParodd.apply t) = clearParodd.apply (forgetParodd t) := by
  have henb : (clearParodd.apply t).cCflag &&& parenb = t.cCflag &&& parenb :=
    assign_and_of_disjoint (by decide) _ _
  rw [forgetParodd, forgetParodd, henb]
  split <;> rfl

@[simp] theorem forget_forget (t : Termios) : forgetParodd (forgetParodd t) = forgetParodd t := by
  by_cases henb : t.cCflag &&& parenb = 0
  · have hforget : forgetParodd t = clearParodd.apply t := if_pos henb
    rw [hforget, clearParodd_forget, hforget, Change.apply_absorb (.refl _)]
  · have hforget : forgetParodd t = t := if_neg henb
    rw [hforget, hforget]

/-- A change of the whole parity field hides what `forgetParodd` does. -/
theorem apply_forget {c : Change} (h : c.mask = SetterKind.parityBits.fields) (t : Termios) :
    c.apply (forgetParodd t) = c.apply t := by
  unfold forgetParodd
  split
  · apply Change.apply_absorb
    rw [h]
    decide
  · rfl

/-- A setter sees a `termios` only as far as `Alike` does. -/
theorem forget_change (s : Setter) (t : Termios) :
    forgetParodd (s.change.apply (forgetParodd t)) = forgetParodd (s.change.apply t) := by
  by_cases hkind : s.kind = .parityBits
  · cases s with
    | parityBits desc =>
      obtain ⟨c, hmask, hc⟩ := parity_forget (getParityFromDesc desc)
      exact (hc _).trans ((apply_forget hmask t).trans (hc t).symm)
    | _ => cases hkind
  · rw [forget_apply_of_ne hkind, forget_apply_of_ne hkind, forget_forget]

/-- A setter hides an earlier one of its kind. -/
theorem forget_absorb {s s' : Setter} (h : s.kind = s'.kind) (t : Termios) :
    forgetParodd (s'.change.apply (s.change.apply t)) = forgetParodd (s'.change.apply t) := by
  by_cases hkind : s'.kind = .parityBits
  · cases s' with
    | parityBits desc =>
      obtain ⟨c, hmask, hc⟩ := parity_forget (getParityFromDesc desc)
      have hwithin : s.change.mask.Within c.mask := by
        rw [hmask, ← hkind, ← h]
        exact change_within s
      exact (hc _).trans ((Change.apply_absorb hwithin t).trans (hc t).symm)
    | _ => cases hkind
  · have hwithin : s.change.mask.Within s'.change.mask := by
      have hs := change_within s
      rw [h] at hs
      cases s' with
      | parityBits desc => exact absurd rfl hkind
      | _ => exact hs
    rw [Change.apply_absorb hwithin]

theorem overwrites : Overwrites AcceptedSetter.kind AcceptedSetter.set Alike where
  refl := fun _ => rfl
  symm := Eq.symm
  trans := Eq.trans
  congr := fun s {t t'} h => by
    rw [Alike, s.set_eq, s.set_eq, ← forget_change, h, forget_change]
  comm := fun s s' t h => by
    rw [s.set_eq, s'.set_eq, s'.set_eq, s.set_eq]
    exact (Change.apply_comm (change_disjoint h) t).symm
  absorb := fun s s' t h => by
    rw [Alike, s'.set_eq, s.set_eq, s'.set_eq]
    exact forget_absorb h t

/-! ### `set_serial_port_attr` -/

/-- The masks at the end of `set_serial_port_attr`. -/
def rawChange : Change where
  mask :=
    { Fields.none with
      iflag := (ixon ||| ixoff ||| ixany) ||| (ignbrk ||| brkint ||| icrnl ||| inlcr)
      oflag := opost
      lflag := echo ||| echonl ||| icanon ||| iexten ||| isig }
  value := .zero

theorem rawMode_eq (t : Termios) : rawMode t = rawChange.apply t := by
  have hvalue : assign (ixon ||| ixoff ||| ixany) 0 (0 : BitVec 32) = 0 := by decide
  simp only [rawMode, and_not_eq_assign, assign_assign, hvalue]
  simp [rawChange, Change.apply, Fields.none, Termios.zero]

/-- Looking past `PARODD`, the parity of an accepted `SerialPortParams` is written last. -/
theorem forget_updateAttr {spp : SerialPortParams} (h : ∀ s ∈ spp.setters, s.Accepted)
    (t : Termios) :
    forgetParodd (updateAttr t spp) =
      forgetParodd ((Setter.parityBits spp.parityBits).change.apply (rawChange.apply
        ((Setter.stopBits (toChar spp.stopBit)).change.apply
          ((Setter.dataBits (toChar spp.dataBit)).change.apply
            ((Setter.baudRate spp.baudRate).change.apply t))))) := by
  have hraw : rawChange.mask.Disjoint (Setter.parityBits spp.parityBits).change.mask :=
    Fields.Disjoint.mono (by decide : rawChange.mask.Disjoint SetterKind.parityBits.fields)
      (.refl _) (change_within (.parityBits spp.parityBits))
  have hstop : (Setter.stopBits (toChar spp.stopBit)).change.mask.Disjoint
      (Setter.parityBits spp.parityBits).change.mask := change_disjoint nofun
  rw [updateAttr_eq, calls_of_accepted h, rawMode_eq]
  simp only [SerialPortParams.setters, List.foldl_cons, List.foldl_nil]
  rw [Change.apply_comm hstop, Change.apply_comm hraw]

/-- The `termios` it computes does not depend on the managed fields before. -/
theorem updateAttr_alike {spp : SerialPortParams} (h : ∀ s ∈ spp.setters, s.Accepted)
    {t t' : Termios} (hagree : AgreeOutside managed t t') :
    Alike (updateAttr t spp) (updateAttr t' spp) := by
  obtain ⟨c, hmask, hc⟩ := parity_forget (getParityFromDesc spp.parityBits)
  -- every change takes its own fields out of the set in which the two may differ
  have hbaud := (Setter.baudRate spp.baudRate).change.apply_agree hagree
  have hdata := (Setter.dataBits (toChar spp.dataBit)).change.apply_agree hbaud
  have hstop := (Setter.stopBits (toChar spp.stopBit)).change.apply_agree hdata
  have hraw := rawChange.apply_agree hstop
  have hparity := c.apply_agree hraw
  have hnone : ((((managed.without SetterKind.baudRate.fields).without
      SetterKind.dataBits.fields).without SetterKind.stopBits.fields).without
      rawChange.mask).without c.mask = .none := by
    rw [hmask]
    decide
  rw [Alike, forget_updateAttr h, forget_updateAttr h]
  exact (hc _).trans ((AgreeOutside.eq (hnone ▸ hparity)).trans (hc _).symm)

theorem call_outside (s : Setter) (t : Termios) : AgreeOutside managed (s.call t).1 t := by
  by_cases h : s.Accepted
  · rw [call_of_accepted h]
    apply Change.apply_outside
    cases s with
    | parityBits desc => rcases parityBits_mask desc with hm | hm <;> rw [hm] <;> decide
    | baudRate desc => exact (by decide : SetterKind.baudRate.fields.Within managed)
    | dataBits desc => exact (by decide : SetterKind.dataBits.fields.Within managed)
    | stopBits desc => exact (by decide : SetterKind.stopBits.fields.Within managed)
  · rw [call_of_not_accepted h]
    exact .refl _ _

theorem calls_outside (ss : List Setter) (t : Termios) :
    AgreeOutside managed (ss.foldl (fun t s => (s.call t).1) t) t := by
  induction ss generalizing t with
  | nil => exact .refl _ _
  | cons s ss ih => exact (ih (s.call t).1).trans (call_outside s t)

/-- Nothing else is changed, whatever the parameters. -/
theorem updateAttr_outside (t : Termios) (spp : SerialPortParams) :
    AgreeOutside managed (updateAttr t spp) t := by
  rw [updateAttr_eq, rawMode_eq]
  exact (Change.apply_outside (by decide) _).trans (calls_outside spp.setters t)

/-- For every `termios` and all parameters: `set_serial_port_attr` hands to `tcsetattr` what
`updateAttr` makes of the attributes of the port; that does not depend on the managed fields before
if the four values are accepted, and changes no others. Calls of setters of different kinds with
accepted values have the same effect in every order, and a sequence of calls has that of the last
ones of each kind, but for `PARODD` without `PARENB`. -/
theorem setters_forgetPast :
    (∀ serialDevFd spp oldAttr port, 0 ≤ serialDevFd →
      (setSerialPortAttr serialDevFd spp oldAttr port).handed =
        some (updateAttr (port.tcgetattr .zero) spp)) ∧
    (∀ t t' spp, AgreeOutside managed t t' → (∀ s ∈ spp.setters, s.Accepted) →
      Alike (updateAttr t spp) (updateAttr t' spp)) ∧
    (∀ t spp, AgreeOutside managed (updateAttr t spp) t) ∧
    (∀ ss ss' : List AcceptedSetter, ss.Perm ss' → (ss.map AcceptedSetter.kind).Nodup →
      ∀ t, setAll t ss = setAll t ss') ∧
    (∀ ss ss' : List AcceptedSetter,
      (∀ k, lastOf AcceptedSetter.kind k ss = lastOf AcceptedSetter.kind k ss') →
      ∀ t, Alike (setAll t ss) (setAll t ss')) := by
  refine ⟨?_, ?_, updateAttr_outside, ?_, ?_⟩
  · intro serialDevFd spp oldAttr port hfd
    rw [setSerialPortAttr, if_neg (by omega)]
    simp only [Port.tcsetattr]
    split <;> simp
  · intro t t' spp hagree haccepted
    exact updateAttr_alike haccepted hagree
  · intro ss ss' hperm hkinds t
    exact overwrites.foldl_perm hperm hkinds t
  · intro ss ss' hlast t
    exact overwrites.foldl_of_lastOf hlast t

/-- 9600 baud, 8 data bits, 1 stop bit and no parity on a port that had odd parity and 5 data bits;
the calls for it in two orders; and no parity after odd parity. -/
theorem setters_forgetPast_oddParity :
    (setSerialPortAttr 3 ⟨9600, 8, 1, 'n'.toUInt8, 0, 0, 0⟩ none
        ⟨{ Termios.zero with cCflag := parenb ||| parodd }, true, true⟩).handed =
      some (updateAttr { Termios.zero with cCflag := parenb ||| parodd }
        ⟨9600, 8, 1, 'n'.toUInt8, 0, 0, 0⟩) ∧
    Alike (updateAttr { Termios.zero with cCflag := parenb ||| parodd }
        ⟨9600, 8, 1, 'n'.toUInt8, 0, 0, 0⟩)
      (updateAttr .zero ⟨9600, 8, 1, 'n'.toUInt8, 0, 0, 0⟩) ∧
    AgreeOutside managed (updateAttr .zero ⟨9600, 8, 1, 'n'.toUInt8, 0, 0, 0⟩) .zero ∧
    setAll .zero [⟨.dataBits 8, by decide⟩, ⟨.stopBits 2, by decide⟩] =
      setAll .zero [⟨.stopBits 2, by decide⟩, ⟨.dataBits 8, by decide⟩] ∧
    Alike (setAll .zero [⟨.parityBits 'o'.toUInt8, by decide⟩, ⟨.parityBits 'n'.toUInt8, by decide⟩])
      (setAll .zero [⟨.parityBits 'n'.toUInt8, by decide⟩]) := by
  obtain ⟨hhanded, halike, houtside, hperm, hlast⟩ := setters_forgetPast
  refine ⟨hhanded 3 _ none ⟨_, true, true⟩ (by decide), ?_, houtside .zero _, ?_, ?_⟩
  · apply halike
    · constructor <;> decide
    · decide
  · exact hperm _ _ (.swap ..) (by decide) .zero
  · apply hlast
    intro k
    cases k <;> rfl

end ITrace.LinuxSerialPort
