import ITrace.CstringExternLib.Cstring
import Mathlib.Data.List.DropRight

/-!
# What `cstring_trim` returns

The array is the string and its terminator and no more, so a read before or behind the string would
give `none`. The first loop ends at the first character that is no space and the second at the
last one that is neither space nor newline, unless the pointers run out of the string first.
-/

namespace ITrace.CstringExternLib

open ITrace

def isSpace (c : UInt8) : Bool := c = ' '.toUInt8

def isTrailing (c : UInt8) : Bool := c = ' '.toUInt8 ∨ c = '\n'.toUInt8

/-- Without its leading spaces, and then without its trailing spaces and newlines. -/
def trimmed (s : List UInt8) : List UInt8 := (s.dropWhile isSpace).rdropWhile isTrailing

variable {pre s m tail : List UInt8}

/-! ### The loops -/

theorem deref_append (pre : List UInt8) (c : UInt8) (l : List UInt8) :
    deref (pre ++ c :: l) pre.length = some c := by
  rw [deref, if_neg (by omega), Int.toNat_natCast, List.getElem?_append_right (Nat.le_refl _)]
  simp

theorem skipLeading_eq (hs : 0 ∉ pre ++ s) (hne : s ≠ []) {turns : Nat} (hturns : s.length ≤ turns) :
    skipLeading (pre ++ s ++ [0]) turns pre.length =
      some (if s.dropWhile isSpace = [] then .null
        else .at (pre ++ s.takeWhile isSpace).length) := by
  induction s generalizing pre turns with
  | nil => exact absurd rfl hne
  | cons c s ih =>
    have hlen : strlen (pre ++ c :: s ++ [0]) 0 = some (pre.length + (s.length + 1)) := by
      rw [(strlen_of_stringAt (stringAt_zero hs [])).1, List.length_append, List.length_cons]
    have hderef : deref (pre ++ c :: s ++ [0]) pre.length = some c := by
      rw [List.append_assoc, List.cons_append, deref_append]
    cases turns with
    | zero => cases hturns
    | succ turns =>
      simp only [skipLeading, hderef, hlen, Option.bind_eq_bind, Option.bind_some]
      by_cases hc : c = ' '.toUInt8
      · have hspace : isSpace c = true := decide_eq_true hc
        rw [if_pos hc, List.dropWhile_cons_of_pos hspace, List.takeWhile_cons_of_pos hspace]
        by_cases hend : s = []
        · subst hend
          simp
        · have hleft : s.length ≠ 0 := fun h => hend (List.eq_nil_of_length_eq_zero h)
          rw [List.append_cons] at hs
          rw [List.length_cons] at hturns
          rw [if_neg (by omega), List.append_cons pre c s]
          have hrest := ih hs hend (Nat.le_of_succ_le_succ hturns)
          rw [List.length_append, List.length_singleton] at hrest
          rw [hrest, List.append_cons pre c (s.takeWhile isSpace)]
      · have hspace : ¬ isSpace c = true := fun h => hc (of_decide_eq_true h)
        rw [if_neg hc, List.dropWhile_cons_of_neg hspace, List.takeWhile_cons_of_neg hspace,
          if_neg (List.cons_ne_nil c s), List.append_nil]

theorem dropTrailing_eq (hne : m ≠ []) {turns : Nat} (hturns : m.length ≤ turns) :
    dropTrailing (pre ++ m ++ tail) pre.length turns (pre.length + m.length - 1) =
      some (if m.rdropWhile isTrailing = [] then .null
        else .at (pre.length + (m.rdropWhile isTrailing).length - 1)) := by
  induction m using List.reverseRecOn generalizing tail turns with
  | nil => exact absurd rfl hne
  | append_singleton m c ih =>
    have hlast : (pre.length : Int) + (m ++ [c]).length - 1 = (pre ++ m).length := by
      rw [List.length_append, List.length_append, List.length_singleton]
      omega
    have hderef : deref (pre ++ (m ++ [c]) ++ tail) (pre ++ m).length = some c := by
      rw [← List.append_assoc, List.append_assoc (pre ++ m), List.singleton_append, deref_append]
    rw [List.length_append, List.length_singleton] at hturns
    cases turns with
    | zero => omega
    | succ turns =>
      rw [hlast]
      simp only [dropTrailing, hderef, Option.bind_eq_bind, Option.bind_some]
      by_cases hc : c = ' '.toUInt8 ∨ c = '\n'.toUInt8
      · have htrailing : isTrailing c = true := decide_eq_true hc
        rw [if_pos hc, List.rdropWhile_concat_pos _ _ _ htrailing]
        by_cases hend : m = []
        · subst hend
          rw [List.append_nil, if_pos (by omega)]
          rfl
        · have hleft : m.length ≠ 0 := fun h => hend (List.eq_nil_of_length_eq_zero h)
          have hrest := @ih ([c] ++ tail) hend _ (Nat.le_of_succ_le_succ hturns)
          rw [List.length_append, if_neg (by omega)]
          rw [← List.append_assoc, List.append_assoc pre m] at hrest
          rw [Int.natCast_add]
          simpa using hrest
      · have htrailing : ¬ isTrailing c = true := fun h => hc (of_decide_eq_true h)
        have hkept : (m ++ [c]).rdropWhile isTrailing = m ++ [c] :=
          List.rdropWhile_concat_neg _ _ _ htrailing
        rw [if_neg hc, hkept, if_neg (by simp), hlast]

/-! ### The copy -/

/-- The copy fills all but the last byte of the block. -/
theorem memcpy_malloc (malloc : (size : Nat) → Vector UInt8 size) (pre tail : List UInt8)
    {w : List UInt8} {size : Nat} (hsize : size = w.length) :
    ∃ c, memcpy (malloc (size + 1)).toList (pre ++ w ++ tail) pre.length size = some (w ++ [c]) := by
  subst hsize
  have hdst : (malloc (w.length + 1)).toList.length = w.length + 1 := Vector.length_toList
  have hrest : ((malloc (w.length + 1)).toList.drop w.length).length = 1 := by
    rw [List.length_drop]
    omega
  obtain ⟨c, hc⟩ := List.length_eq_one_iff.mp hrest
  have hbounds : pre.length + w.length ≤ (pre ++ w ++ tail).length ∧
      w.length ≤ (malloc (w.length + 1)).toList.length := by
    rw [List.length_append, List.length_append]
    omega
  use c
  rw [memcpy, if_pos hbounds, hc, List.append_assoc, List.drop_left, List.take_left]

/-- What `cstring_trim` returns. -/
theorem cstringTrim_eq (malloc : (size : Nat) → Vector UInt8 size) (s : CString) :
    cstringTrim malloc (s.chars ++ [0]) =
      some (if trimmed s.chars = [] then none else some (trimmed s.chars ++ [0])) := by
  obtain ⟨s, hs⟩ := s
  simp only [cstringTrim, (strlen_of_stringAt (stringAt_zero hs [])).1, Option.bind_eq_bind,
    Option.bind_some]
  by_cases hempty : s = []
  · subst hempty
    rfl
  have hlength : s.length ≠ 0 := fun h => hempty (List.eq_nil_of_length_eq_zero h)
  have hskip : skipLeading (s ++ [0]) (s.length + 1) 0 = _ :=
    @skipLeading_eq [] s hs hempty _ (Nat.le_succ s.length)
  rw [if_neg hlength, hskip, Option.bind_some, trimmed]
  by_cases hblank : s.dropWhile isSpace = []
  · rw [if_pos hblank, hblank]
    rfl
  -- The string is `lead ++ m` from here on, and `lead` is skipped.
  have hsplit : s.takeWhile isSpace ++ s.dropWhile isSpace = s := List.takeWhile_append_dropWhile
  rw [if_neg hblank]
  generalize s.takeWhile isSpace = lead at *
  generalize s.dropWhile isSpace = m at *
  subst hsplit
  rw [List.mem_append, not_or] at hs
  have hturns : m.length ≤ (lead ++ m).length + 1 := by
    rw [List.length_append]
    omega
  simp only [List.nil_append, Int.toNat_natCast, strlen_append hs.2, Option.bind_some,
    dropTrailing_eq hblank hturns]
  obtain ⟨dropped, hkept⟩ := List.rdropWhile_prefix isTrailing m
  by_cases hnothing : m.rdropWhile isTrailing = []
  · rw [if_pos hnothing, if_pos hnothing]
  rw [if_neg hnothing, if_neg hnothing]
  generalize m.rdropWhile isTrailing = w at *
  subst hkept
  have hsize : ((lead.length : Int) + w.length - 1 - lead.length + 1).toNat = w.length := by omega
  obtain ⟨c, hcopy⟩ := memcpy_malloc malloc lead (dropped ++ [0]) hsize
  have hsrc : lead ++ (w ++ dropped) ++ [0] = lead ++ w ++ (dropped ++ [0]) := by simp
  simp only [hsrc, hcopy, Option.bind_some]
  rw [hsize]
  simp

/-! ### Trimming twice -/

theorem dropWhile_of_prefix {p : UInt8 → Bool} {l w : List UInt8} (hw : w <+: l.dropWhile p) :
    w.dropWhile p = w := by
  cases w with
  | nil => rfl
  | cons c w =>
    apply List.dropWhile_cons_of_neg
    obtain ⟨rest, hrest⟩ := hw
    have hhead : (l.dropWhile p).head? = some c := by rw [← hrest]; rfl
    have hnot := List.head?_dropWhile_not p l
    rw [hhead] at hnot
    simpa using hnot

theorem trimmed_trimmed (s : List UInt8) : trimmed (trimmed s) = trimmed s := by
  have hlead : (trimmed s).dropWhile isSpace = trimmed s :=
    dropWhile_of_prefix (List.rdropWhile_prefix isTrailing _)
  rw [trimmed, hlead, trimmed, List.rdropWhile_idempotent]

theorem zero_notMem_trimmed (s : CString) : 0 ∉ trimmed s.chars := by
  intro h
  apply s.zero_notMem
  exact (List.dropWhile_sublist isSpace).subset ((List.rdropWhile_prefix isTrailing _).subset h)

/-- `cstring_trim` returns `NULL` if nothing is left of the string, else a string that is what is
left, and never reads outside its argument. A second call gives an equal string. -/
theorem cstringTrim_trimmed (malloc malloc' : (size : Nat) → Vector UInt8 size) (s : CString) :
    ∃ r, cstringTrim malloc (s.chars ++ [0]) = some r ∧
      (r = none ↔ trimmed s.chars = []) ∧
      ∀ data, r = some data →
        data = trimmed s.chars ++ [0] ∧ cstringTrim malloc' data = some (some data) := by
  refine ⟨_, cstringTrim_eq malloc s, ?_, ?_⟩
  · split
    · next h => simp [h]
    · next h => simp [h]
  · intro data hdata
    split at hdata
    · cases hdata
    · next hleft =>
      cases hdata
      have hagain := cstringTrim_eq malloc' ⟨trimmed s.chars, zero_notMem_trimmed s⟩
      rw [trimmed_trimmed, if_neg hleft] at hagain
      exact ⟨rfl, hagain⟩

example : cstringTrim (fun size => .replicate size 7) [32, 97, 32, 98, 10, 32, 0] =
    some (some [97, 32, 98, 0]) := by
  decide

end ITrace.CstringExternLib
