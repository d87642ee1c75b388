import ITrace.Misc.Mem

/-!
# Little-endian words

A 32-bit word as four bytes of a memory, the lowest byte at the lowest address.
-/

namespace ITrace

namespace LittleEndian

/-- The four bytes of a word. -/
def bytes (x : UInt32) : List UInt8 :=
  [UInt8.ofNat x.toNat, UInt8.ofNat (x.toNat / 256), UInt8.ofNat (x.toNat / 65536),
   UInt8.ofNat (x.toNat / 16777216)]

/-- The word that four bytes make. -/
def word (b₀ b₁ b₂ b₃ : UInt8) : UInt32 :=
  UInt32.ofNat (b₀.toNat + 256 * b₁.toNat + 65536 * b₂.toNat + 16777216 * b₃.toNat)

/-- The word at address `a`. -/
def load (m : Mem UInt8) (a : Nat) : UInt32 := word (m a) (m (a + 1)) (m (a + 2)) (m (a + 3))

@[simp] theorem length_bytes (x : UInt32) : (bytes x).length = 4 := rfl

theorem word_bytes (x : UInt32) :
    word (UInt8.ofNat x.toNat) (UInt8.ofNat (x.toNat / 256)) (UInt8.ofNat (x.toNat / 65536))
      (UInt8.ofNat (x.toNat / 16777216)) = x := by
  have hx := x.toNat_lt
  apply UInt32.toNat_inj.mp
  simp only [word, UInt32.toNat_ofNat', UInt8.toNat_ofNat']
  omega

/-- A word is read back where its bytes are. -/
theorem load_of_bytes {m : Mem UInt8} {a : Nat} {x : UInt32} (h : m.load a 4 = bytes x) :
    load m a = x := by
  simp only [Mem.load, bytes, List.cons.injEq, and_true] at h
  obtain ⟨h₀, h₁, h₂, h₃⟩ := h
  rw [load, h₀, h₁, h₂, h₃, word_bytes]

theorem toNat_load (m : Mem UInt8) (a : Nat) :
    (load m a).toNat = (m a).toNat + 256 * (m (a + 1)).toNat + 65536 * (m (a + 2)).toNat +
      16777216 * (m (a + 3)).toNat := by
  have h₀ := (m a).toNat_lt
  have h₁ := (m (a + 1)).toNat_lt
  have h₂ := (m (a + 2)).toNat_lt
  have h₃ := (m (a + 3)).toNat_lt
  rw [load, word, UInt32.toNat_ofNat']
  omega

/-- Words whose other bytes are the same differ in their lowest byte. -/
theorem load_eq_iff {m m' : Mem UInt8} {a : Nat} (h : m.load (a + 1) 3 = m'.load (a + 1) 3) :
    load m a = load m' a ↔ m a = m' a := by
  simp only [Mem.load, List.cons.injEq, and_true] at h
  obtain ⟨(h₁ : m (a + 1) = m' (a + 1)), (h₂ : m (a + 2) = m' (a + 2)),
    (h₃ : m (a + 3) = m' (a + 3))⟩ := h
  rw [← UInt32.toNat_inj, ← UInt8.toNat_inj, toNat_load, toNat_load, h₁, h₂, h₃]
  omega

end LittleEndian

end ITrace
