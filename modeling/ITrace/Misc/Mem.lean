import Mathlib.Data.List.Range

/-!
# Flat memory

A memory is a total map from addresses to cells. `load` reads a range and `store` overwrites
one. The lemmas say what a range reads after a store that fills it, misses it or continues
it, and how a range splits; a program that fills a buffer piece by piece, or sends it piece by
piece, is reasoned about with these alone.
-/

namespace ITrace

/-- A memory with cells of type `α`, addressed from 0. -/
abbrev Mem (α : Type*) := Nat → α

namespace Mem

variable {α : Type*}

/-- The `n` cells from address `a` on. -/
def load (m : Mem α) (a : Nat) : Nat → List α
  | 0 => []
  | n + 1 => m a :: m.load (a + 1) n

/-- The memory after the cells `bs` were written from address `a` on. -/
def store (m : Mem α) (a : Nat) (bs : List α) : Mem α :=
  fun x => if a ≤ x then (bs[x - a]?).getD (m x) else m x

@[simp] theorem length_load (m : Mem α) (a n : Nat) : (m.load a n).length = n := by
  induction n generalizing a with
  | zero => rfl
  | succ n ih => simp [load, ih]

theorem load_add (m : Mem α) (a n k : Nat) : m.load a (n + k) = m.load a n ++ m.load (a + n) k := by
  induction n generalizing a with
  | zero => simp [load]
  | succ n ih =>
    have e : a + (n + 1) = a + 1 + n := by omega
    rw [Nat.succ_add, load, ih (a + 1), e]
    rfl

theorem load_prefix (m : Mem α) (a : Nat) {k n : Nat} (h : k ≤ n) : m.load a k <+: m.load a n := by
  obtain ⟨r, rfl⟩ := Nat.exists_eq_add_of_le h
  rw [load_add]
  exact List.prefix_append ..

theorem drop_load (m : Mem α) (a : Nat) {k n : Nat} (h : k ≤ n) :
    (m.load a n).drop k = m.load (a + k) (n - k) := by
  obtain ⟨r, rfl⟩ := Nat.exists_eq_add_of_le h
  rw [load_add, List.drop_left' (length_load ..), Nat.add_sub_cancel_left]

/-- What was read from the beginning of a range is all of it if it has its length. -/
theorem eq_load_iff {m : Mem α} {a n : Nat} {bs : List α} (h : bs = m.load a bs.length) :
    bs = m.load a n ↔ bs.length = n := by
  constructor
  · intro hall
    rw [hall, length_load]
  · intro hlen
    rwa [hlen] at h

/-- Two memories that agree on a range read the same there. -/
theorem load_congr {m m' : Mem α} {a n : Nat} (h : ∀ x, a ≤ x → x < a + n → m x = m' x) :
    m.load a n = m'.load a n := by
  induction n generalizing a with
  | zero => rfl
  | succ n ih =>
    rw [load, load, h a (Nat.le_refl a) (by omega), ih fun x hx hx' => h x (by omega) (by omega)]

/-- A part of a range, read from the list the range holds. -/
theorem load_sub {m : Mem α} {a n : Nat} {bs : List α} (h : m.load a n = bs) {i k : Nat}
    (hik : i + k ≤ n) : m.load (a + i) k = (bs.drop i).take k := by
  obtain ⟨r, rfl⟩ := Nat.exists_eq_add_of_le hik
  rw [← h, load_add, load_add, List.append_assoc, List.drop_left' (length_load ..),
    List.take_left' (length_load ..)]

theorem store_of_lt (m : Mem α) {a x : Nat} (bs : List α) (h : x < a) : m.store a bs x = m x := by
  simp [store, Nat.not_le.mpr h]

theorem store_of_ge (m : Mem α) {a x : Nat} (bs : List α) (h : a + bs.length ≤ x) :
    m.store a bs x = m x := by
  have : bs[x - a]? = none := by rw [List.getElem?_eq_none_iff]; omega
  simp [store, this]

/-- A store leaves the ranges it does not touch as they were. -/
theorem load_store_of_disjoint (m : Mem α) {a b n : Nat} (bs : List α)
    (h : a + n ≤ b ∨ b + bs.length ≤ a) : (m.store b bs).load a n = m.load a n := by
  refine load_congr fun x hx hx' => ?_
  rcases h with h | h
  · exact store_of_lt m bs (by omega)
  · exact store_of_ge m bs (by omega)

theorem getElem_load (m : Mem α) (a : Nat) {n i : Nat} (h : i < (m.load a n).length) :
    (m.load a n)[i] = m (a + i) := by
  induction n generalizing a i with
  | zero => simp at h
  | succ n ih =>
    cases i with
    | zero => rfl
    | succ i =>
      have e : a + (i + 1) = a + 1 + i := by omega
      simp only [load, List.getElem_cons_succ, ih, e]

/-- What was stored is read back. -/
theorem load_store_same (m : Mem α) (a : Nat) (bs : List α) :
    (m.store a bs).load a bs.length = bs := by
  refine List.ext_getElem (length_load ..) fun i h hi => ?_
  simp [getElem_load, store, hi]

/-- Two stores, one right behind the other, are one store. -/
theorem store_store (m : Mem α) (a : Nat) (bs cs : List α) :
    (m.store a bs).store (a + bs.length) cs = m.store a (bs ++ cs) := by
  funext x
  by_cases hx : a + bs.length ≤ x
  · have hax : a ≤ x := by omega
    have hbs : bs[x - a]? = none := List.getElem?_eq_none (by omega)
    simp only [store, if_pos hx, if_pos hax, hbs, Option.getD_none]
    rw [List.getElem?_append_right (by omega), Nat.sub_add_eq]
  · rw [store, if_neg hx]
    by_cases hax : a ≤ x
    · simp only [store, if_pos hax]
      rw [List.getElem?_append_left (by omega)]
    · simp only [store, if_neg hax]

@[simp] theorem store_nil (m : Mem α) (a : Nat) : m.store a [] = m := by
  funext x
  simp [store]

/-- A store right behind a range continues it. -/
theorem load_store_append (m : Mem α) {a n : Nat} {bs : List α} (h : m.load a n = bs)
    (cs : List α) : (m.store (a + n) cs).load a (n + cs.length) = bs ++ cs := by
  rw [load_add, load_store_of_disjoint m cs (.inl (Nat.le_refl _)), load_store_same, h]

end Mem

end ITrace
