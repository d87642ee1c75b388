import ITrace.LinuxSerialPort.SerialPort
import ITrace.Misc.FlagWord

/-!
# Changes of a `termios`

Every setter with an accepted value, and the masks at the end of `set_serial_port_attr`, write
fixed values to fixed bits: they are a `Change`. Changes of different bits commute, a change hides
those within its bits, and two `termios` that differ in some bits differ in fewer of them after a
change.
-/

namespace ITrace.LinuxSerialPort

/-- Some of the bits of a `termios`, none of them in `c_line` and `c_cc`. -/
structure Fields where
  iflag : BitVec 32
  oflag : BitVec 32
  cflag : BitVec 32
  lflag : BitVec 32
  speeds : Bool
  deriving DecidableEq

namespace Fields

def none : Fields := ⟨0, 0, 0, 0, false⟩

/-- No bit is in both. -/
def Disjoint (f g : Fields) : Prop :=
  f.iflag &&& g.iflag = 0 ∧ f.oflag &&& g.oflag = 0 ∧ f.cflag &&& g.cflag = 0 ∧
    f.lflag &&& g.lflag = 0 ∧ (f.speeds && g.speeds) = false

instance decidableDisjoint (f g : Fields) : Decidable (f.Disjoint g) :=
  inferInstanceAs (Decidable (_ ∧ _))

/-- Every bit of the first is one of the second. -/
def Within (f g : Fields) : Prop :=
  f.iflag &&& ~~~g.iflag = 0 ∧ f.oflag &&& ~~~g.oflag = 0 ∧ f.cflag &&& ~~~g.cflag = 0 ∧
    f.lflag &&& ~~~g.lflag = 0 ∧ (f.speeds && !g.speeds) = false

instance decidableWithin (f g : Fields) : Decidable (f.Within g) :=
  inferInstanceAs (Decidable (_ ∧ _))

/-- The bits of `f` that are not in `g`. -/
def without (f g : Fields) : Fields :=
  ⟨f.iflag &&& ~~~g.iflag, f.oflag &&& ~~~g.oflag, f.cflag &&& ~~~g.cflag,
    f.lflag &&& ~~~g.lflag, f.speeds && !g.speeds⟩

theorem Within.refl (f : Fields) : f.Within f := by
  simp [Within]

theorem Disjoint.mono {f f' g g' : Fields} (h : f'.Disjoint g') (hf : f.Within f')
    (hg : g.Within g') : f.Disjoint g := by
  obtain ⟨hi, ho, hc, hl, hs⟩ := h
  obtain ⟨hfi, hfo, hfc, hfl, hfs⟩ := hf
  obtain ⟨hgi, hgo, hgc, hgl, hgs⟩ := hg
  refine ⟨disjoint_of_covered hfi hgi hi, disjoint_of_covered hfo hgo ho,
    disjoint_of_covered hfc hgc hc, disjoint_of_covered hfl hgl hl, ?_⟩
  revert hs hfs hgs
  cases f.speeds <;> cases g.speeds <;> simp_all

end Fields

/-- Two `termios` are the same but for the bits of `f`. -/
structure AgreeOutside (f : Fields) (t t' : Termios) : Prop where
  iflag : t.cIflag &&& ~~~f.iflag = t'.cIflag &&& ~~~f.iflag
  oflag : t.cOflag &&& ~~~f.oflag = t'.cOflag &&& ~~~f.oflag
  cflag : t.cCflag &&& ~~~f.cflag = t'.cCflag &&& ~~~f.cflag
  lflag : t.cLflag &&& ~~~f.lflag = t'.cLflag &&& ~~~f.lflag
  ispeed : f.speeds = false → t.cIspeed = t'.cIspeed
  ospeed : f.speeds = false → t.cOspeed = t'.cOspeed
  line : t.cLine = t'.cLine
  cc : t.cCc = t'.cCc

/-- The bits of `mask` become those of `value`. -/
structure Change where
  mask : Fields
  value : Termios

namespace Change

def apply (c : Change) (t : Termios) : Termios where
  cIflag := assign c.mask.iflag c.value.cIflag t.cIflag
  cOflag := assign c.mask.oflag c.value.cOflag t.cOflag
  cCflag := assign c.mask.cflag c.value.cCflag t.cCflag
  cLflag := assign c.mask.lflag c.value.cLflag t.cLflag
  cLine := t.cLine
  cCc := t.cCc
  cIspeed := if c.mask.speeds then c.value.cIspeed else t.cIspeed
  cOspeed := if c.mask.speeds then c.value.cOspeed else t.cOspeed

variable {c d : Change} {f : Fields} {t t' : Termios}

theorem apply_comm (h : c.mask.Disjoint d.mask) (t : Termios) :
    c.apply (d.apply t) = d.apply (c.apply t) := by
  obtain ⟨hi, ho, hc, hl, hs⟩ := h
  simp only [apply, assign_comm hi, assign_comm ho, assign_comm hc, assign_comm hl]
  cases hcs : c.mask.speeds <;> cases hds : d.mask.speeds <;> simp_all

theorem apply_absorb (h : d.mask.Within c.mask) (t : Termios) :
    c.apply (d.apply t) = c.apply t := by
  obtain ⟨hi, ho, hc, hl, hs⟩ := h
  simp only [apply, assign_absorb hi, assign_absorb ho, assign_absorb hc, assign_absorb hl]
  cases hcs : c.mask.speeds <;> cases hds : d.mask.speeds <;> simp_all

/-- After a change two `termios` agree on its bits as well. -/
theorem apply_agree (c : Change) (h : AgreeOutside f t t') :
    AgreeOutside (f.without c.mask) (c.apply t) (c.apply t') where
  iflag := assign_agree h.iflag _ _
  oflag := assign_agree h.oflag _ _
  cflag := assign_agree h.cflag _ _
  lflag := assign_agree h.lflag _ _
  ispeed := fun hs => by
    have heq := h.ispeed
    simp only [Fields.without, Bool.and_eq_false_iff] at hs
    simp only [apply]
    rcases hs with hs | hs <;> simp_all
  ospeed := fun hs => by
    have heq := h.ospeed
    simp only [Fields.without, Bool.and_eq_false_iff] at hs
    simp only [apply]
    rcases hs with hs | hs <;> simp_all
  line := h.line
  cc := h.cc

/-- A change leaves everything else as it was. -/
theorem apply_outside (h : c.mask.Within f) (t : Termios) : AgreeOutside f (c.apply t) t where
  iflag := assign_and_not h.1 _ _
  oflag := assign_and_not h.2.1 _ _
  cflag := assign_and_not h.2.2.1 _ _
  lflag := assign_and_not h.2.2.2.1 _ _
  ispeed := fun hs => by
    have hmask := h.2.2.2.2
    simp_all [apply]
  ospeed := fun hs => by
    have hmask := h.2.2.2.2
    simp_all [apply]
  line := rfl
  cc := rfl

end Change

namespace AgreeOutside

variable {f : Fields} {t t' t'' : Termios}

theorem refl (f : Fields) (t : Termios) : AgreeOutside f t t :=
  ⟨rfl, rfl, rfl, rfl, fun _ => rfl, fun _ => rfl, rfl, rfl⟩

theorem trans (h : AgreeOutside f t t') (h' : AgreeOutside f t' t'') : AgreeOutside f t t'' where
  iflag := h.iflag.trans h'.iflag
  oflag := h.oflag.trans h'.oflag
  cflag := h.cflag.trans h'.cflag
  lflag := h.lflag.trans h'.lflag
  ispeed := fun hs => (h.ispeed hs).trans (h'.ispeed hs)
  ospeed := fun hs => (h.ospeed hs).trans (h'.ospeed hs)
  line := h.line.trans h'.line
  cc := h.cc.trans h'.cc

/-- `termios` that agree everywhere are the same. -/
theorem eq (h : AgreeOutside .none t t') : t = t' := by
  have hi := eq_of_and_not_zero h.iflag
  have ho := eq_of_and_not_zero h.oflag
  have hc := eq_of_and_not_zero h.cflag
  have hl := eq_of_and_not_zero h.lflag
  have his := h.ispeed rfl
  have hos := h.ospeed rfl
  have hline := h.line
  have hcc := h.cc
  cases t
  cases t'
  simp_all

end AgreeOutside

end ITrace.LinuxSerialPort
