import ITrace.Misc.Runs

/-!
# Bytes in hexadecimal

What `%02X` prints, the number a hexadecimal numeral stands for, and lists in groups of one size,
as they are printed on lines. A byte is read back from its two digits (`hexValue_hexByte`).
-/

namespace ITrace

/-- A digit, in upper case. -/
def hexDigit (d : Nat) : UInt8 := if d < 10 then UInt8.ofNat (48 + d) else UInt8.ofNat (55 + d)

/-- `%02X`. -/
def hexByte (c : UInt8) : List UInt8 := [hexDigit (c.toNat / 16), hexDigit (c.toNat % 16)]

def hexDigitValue (c : UInt8) : Nat := if c.toNat < 58 then c.toNat - 48 else c.toNat - 55

/-- The number that a string of hexadecimal digits stands for. -/
def hexValue (s : List UInt8) : Nat := s.foldl (fun v c => 16 * v + hexDigitValue c) 0

theorem hexDigitValue_hexDigit {d : Nat} (hd : d < 16) : hexDigitValue (hexDigit d) = d := by
  revert d
  decide

/-- A digit is no blank and no newline. -/
theorem space_lt_hexDigit {d : Nat} (hd : d < 16) : 32 < (hexDigit d).toNat := by
  revert d
  decide

theorem hexValue_hexByte (c : UInt8) : hexValue (hexByte c) = c.toNat := by
  have hlt : c.toNat < 256 := c.toNat_lt
  have hhigh : c.toNat / 16 < 16 := by omega
  have hlow : c.toNat % 16 < 16 := Nat.mod_lt _ (by decide)
  simp only [hexValue, hexByte, List.foldl_cons, List.foldl_nil, hexDigitValue_hexDigit hhigh,
    hexDigitValue_hexDigit hlow]
  omega

theorem space_lt_of_mem_hexByte {c x : UInt8} (hx : x ∈ hexByte c) : 32 < x.toNat := by
  have hlt : c.toNat < 256 := c.toNat_lt
  simp only [hexByte, List.mem_cons, List.not_mem_nil, or_false] at hx
  rcases hx with rfl | rfl
  · exact space_lt_hexDigit (by omega)
  · exact space_lt_hexDigit (Nat.mod_lt _ (by decide))

/-! ### Groups -/

variable {α β : Type*}

/-- A list in groups of `k`, the last one of what is left. -/
def groups (k : Nat) (l : List α) : List (List α) :=
  if _h : 0 < k ∧ l ≠ [] then l.take k :: groups k (l.drop k) else []
termination_by l.length
decreasing_by
  rw [List.length_drop]
  have hpos := List.length_pos_iff.mpr _h.2
  omega

@[simp] theorem groups_nil (k : Nat) : groups k ([] : List α) = [] := by
  rw [groups, dif_neg (by simp)]

/-- A full group, and what follows it. -/
theorem groups_append {k : Nat} {xs : List α} (hk : 0 < k) (hxs : xs.length = k) (ys : List α) :
    groups k (xs ++ ys) = xs :: groups k ys := by
  have hne : xs ++ ys ≠ [] := by
    intro hnil
    rw [(List.append_eq_nil_iff.mp hnil).1] at hxs
    exact absurd hxs (Nat.ne_of_lt hk)
  rw [groups, dif_pos ⟨hk, hne⟩, ← hxs, List.take_left, List.drop_left]

/-- The last group. -/
theorem groups_short {k : Nat} {xs : List α} (hne : xs ≠ []) (hxs : xs.length ≤ k) :
    groups k xs = [xs] := by
  have hk : 0 < k := Nat.lt_of_lt_of_le (List.length_pos_iff.mpr hne) hxs
  rw [groups, dif_pos ⟨hk, hne⟩, List.take_of_length_le hxs, List.drop_of_length_le hxs, groups_nil]

end ITrace
