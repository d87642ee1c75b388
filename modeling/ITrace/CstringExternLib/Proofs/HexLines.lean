import ITrace.CstringExternLib.PrintAsHex

/-!
# Reading hexadecimal lines back

The bytes `print_as_hex` printed can be read back from the text, line by line: every line but the
last has as many as were asked for. The separator after a byte depends on its place in its line
only, so the text is made of the texts of the lines.
-/

namespace ITrace.CstringExternLib

open ITrace

/-- What is printed of `bytes` if the first of them is the byte `i`. -/
def hexText (num : Int) : Nat → List UInt8 → List UInt8
  | _, [] => []
  | i, c :: cs => hexByte c ++ separator num i :: hexText num (i + 1) cs

def isNewline (c : UInt8) : Bool := c = '\n'.toUInt8

def isBlank (c : UInt8) : Bool := c = ' '.toUInt8

/-- The numbers on each line of a text. -/
def readLines (text : List UInt8) : List (List Nat) :=
  (runs isNewline text).map fun line => (runs isBlank line).map hexValue

/-! ### The loop -/

theorem printHexLoop_eq {num : Int} (hnum : num ≠ 0) {newData : List UInt8} {left i : Nat}
    (h : i + left ≤ newData.length) :
    printHexLoop newData num left i = some (hexText num i ((newData.drop i).take left)) := by
  induction left generalizing i with
  | zero => simp [printHexLoop, hexText]
  | succ left ih =>
    have hi : i < newData.length := by omega
    rw [printHexLoop, List.getElem?_eq_getElem hi, List.drop_eq_getElem_cons hi]
    simp only [Option.bind_eq_bind, Option.bind_some, if_neg hnum, ih (i := i + 1) (by omega),
      List.take_succ_cons, hexText]

/-- The loop fails where it takes a remainder by zero, or reads past the array. -/
theorem printHexLoop_eq_none_iff {num : Int} {newData : List UInt8} {left i : Nat} :
    printHexLoop newData num left i = none ↔
      0 < left ∧ (num = 0 ∨ newData.length < i + left) := by
  induction left generalizing i with
  | zero => simp [printHexLoop]
  | succ left ih =>
    rw [printHexLoop]
    by_cases hi : i < newData.length
    · rw [List.getElem?_eq_getElem hi]
      by_cases hnum : num = 0
      · simp [hnum]
      · have hrest := ih (i := i + 1)
        simp only [hnum, false_or] at hrest
        simp only [Option.bind_eq_bind, Option.bind_some, if_neg hnum]
        cases hcase : printHexLoop newData num left (i + 1) with
        | none =>
          have hlong := hrest.mp hcase
          exact iff_of_true rfl ⟨Nat.succ_pos left, .inr (by omega)⟩
        | some rest =>
          refine iff_of_false (by simp) ?_
          rintro ⟨-, hzero | hlong⟩
          · exact hnum hzero
          · rw [hrest.mpr (by omega)] at hcase
            cases hcase
    · rw [List.getElem?_eq_none (by omega)]
      exact iff_of_true rfl ⟨Nat.succ_pos left, .inr (by omega)⟩

theorem length_hexText (num : Int) (i : Nat) (bytes : List UInt8) :
    (hexText num i bytes).length = 3 * bytes.length := by
  induction bytes generalizing i with
  | nil => rfl
  | cons c cs ih =>
    simp only [hexText, hexByte, List.length_append, List.length_cons, List.length_nil, ih]
    omega

theorem hexText_append (num : Int) (i : Nat) (xs ys : List UInt8) :
    hexText num i (xs ++ ys) = hexText num i xs ++ hexText num (i + xs.length) ys := by
  induction xs generalizing i with
  | nil => rfl
  | cons c cs ih =>
    have hlen : i + 1 + cs.length = i + (c :: cs).length := by
      rw [List.length_cons]
      omega
    rw [List.cons_append, hexText, ih, hlen, hexText, List.append_assoc, List.cons_append]

/-! ### Lines -/

theorem separator_eq (num : Int) (i : Nat) :
    separator num i = if num.natAbs ∣ i + 1 then '\n'.toUInt8 else ' '.toUInt8 := by
  have hdvd : ((i : Int) + 1).tmod num = 0 ↔ num.natAbs ∣ i + 1 := by
    rw [← Int.dvd_iff_tmod_eq_zero, ← Int.natAbs_dvd, ← Int.natCast_dvd_natCast]
    rfl
  simp only [separator, ne_eq, hdvd, ite_not]

/-- The text of bytes on one line, with a blank after each of them. -/
def lineText : List UInt8 → List UInt8
  | [] => []
  | c :: cs => hexByte c ++ ' '.toUInt8 :: lineText cs

/-- Bytes that do not reach the end of their line. -/
theorem hexText_line {num : Int} {i : Nat} {xs : List UInt8}
    (h : i % num.natAbs + xs.length < num.natAbs) : hexText num i xs = lineText xs := by
  induction xs generalizing i with
  | nil => rfl
  | cons c cs ih =>
    rw [List.length_cons] at h
    have hmod : (i + 1) % num.natAbs = i % num.natAbs + 1 := by
      rw [Nat.add_mod, Nat.mod_eq_of_lt (a := 1) (by omega), Nat.mod_eq_of_lt (by omega)]
    have hsep : separator num i = ' '.toUInt8 := by
      rw [separator_eq, if_neg]
      intro hdvd
      have hzero := Nat.mod_eq_zero_of_dvd hdvd
      omega
    rw [hexText, hsep, ih (by omega), lineText]

/-- A full line. -/
theorem hexText_fullLine {num : Int} {i : Nat} {xs : List UInt8} {c : UInt8}
    (hi : num.natAbs ∣ i) (hxs : xs.length + 1 = num.natAbs) :
    hexText num i (xs ++ [c]) = lineText xs ++ hexByte c ++ ['\n'.toUInt8] := by
  have hmod := Nat.mod_eq_zero_of_dvd hi
  have hsep : separator num (i + xs.length) = '\n'.toUInt8 := by
    rw [separator_eq, if_pos]
    rw [Nat.add_assoc, hxs]
    exact Nat.dvd_add hi (Nat.dvd_refl _)
  rw [hexText_append, hexText_line (by omega), hexText, hsep, hexText, List.append_assoc]

theorem mem_lineText {xs : List UInt8} {x : UInt8} (hx : x ∈ lineText xs) :
    x = ' '.toUInt8 ∨ 32 < x.toNat := by
  induction xs with
  | nil => cases hx
  | cons c cs ih =>
    rcases List.mem_append.mp hx with hx | hx
    · exact .inr (space_lt_of_mem_hexByte hx)
    · rcases List.mem_cons.mp hx with rfl | hx
      · exact .inl rfl
      · exact ih hx

theorem isNewline_lineText {xs : List UInt8} : ∀ x ∈ lineText xs, isNewline x = false := by
  intro x hx
  rcases mem_lineText hx with rfl | hx
  · rfl
  · simp only [isNewline, decide_eq_false_iff_not]
    rintro rfl
    exact absurd hx (by decide)

theorem isNewline_hexByte {c : UInt8} : ∀ x ∈ hexByte c, isNewline x = false := by
  intro x hx
  simp only [isNewline, decide_eq_false_iff_not]
  rintro rfl
  exact absurd (space_lt_of_mem_hexByte hx) (by decide)

theorem runs_hexByte (c : UInt8) : runs isBlank (hexByte c) = [hexByte c] := by
  refine runs_single (by simp [hexByte]) fun x hx => ?_
  simp only [isBlank, decide_eq_false_iff_not]
  rintro rfl
  exact absurd (space_lt_of_mem_hexByte hx) (by decide)

/-- The bytes of a line are read back, with what follows them. -/
theorem read_lineText (xs tail : List UInt8) :
    (runs isBlank (lineText xs ++ tail)).map hexValue =
      xs.map UInt8.toNat ++ (runs isBlank tail).map hexValue := by
  induction xs with
  | nil => rfl
  | cons c cs ih =>
    rw [lineText, List.append_assoc, List.cons_append, runs_append_cons rfl, runs_hexByte,
      List.map_append, ih, List.map_singleton, hexValue_hexByte, List.map_cons]
    rfl

/-- The text is read back line by line. -/
theorem readLines_hexText {num : Int} (hnum : num ≠ 0) {i : Nat} (hi : num.natAbs ∣ i)
    (bytes : List UInt8) :
    readLines (hexText num i bytes) = groups num.natAbs (bytes.map UInt8.toNat) := by
  have hk : 0 < num.natAbs := Int.natAbs_pos.mpr hnum
  induction hn : bytes.length using Nat.strongRecOn generalizing i bytes with
  | _ n ih =>
    by_cases hshort : bytes.length < num.natAbs
    · by_cases hnil : bytes = []
      · subst hnil
        simp [hexText, readLines]
      have hmod := Nat.mod_eq_zero_of_dvd hi
      have hne : lineText bytes ≠ [] := by
        cases bytes with
        | nil => exact absurd rfl hnil
        | cons c cs => simp [lineText, hexByte]
      have hread := read_lineText bytes []
      rw [List.append_nil, runs_nil, List.map_nil, List.append_nil] at hread
      rw [hexText_line (by omega), readLines, runs_single hne isNewline_lineText,
        List.map_singleton, hread,
        groups_short (by simpa using hnil) (by rw [List.length_map]; omega)]
    · -- a full line, and what follows it
      have hne : bytes.take num.natAbs ≠ [] := by
        intro hnil
        rw [List.take_eq_nil_iff] at hnil
        rcases hnil with hzero | hnil
        · omega
        · rw [hnil] at hshort
          exact hshort hk
      obtain ⟨xs, c, hline⟩ : ∃ xs c, bytes.take num.natAbs = xs ++ [c] :=
        ⟨_, _, (List.dropLast_concat_getLast hne).symm⟩
      have hlen : (xs ++ [c]).length = num.natAbs := by
        rw [← hline, List.length_take]
        omega
      have hxs : xs.length + 1 = num.natAbs := by simpa using hlen
      have hbytes : bytes = xs ++ [c] ++ bytes.drop num.natAbs := by
        rw [← hline, List.take_append_drop]
      generalize bytes.drop num.natAbs = rest at hbytes
      subst hbytes
      have hrest := ih rest.length (by rw [← hn]; simp; omega)
        (i := i + (xs ++ [c]).length) (Nat.dvd_add hi (hlen ▸ Nat.dvd_refl _)) rest rfl
      have hline' : ∀ x ∈ lineText xs ++ hexByte c, isNewline x = false := by
        intro x hx
        rcases List.mem_append.mp hx with hx | hx
        · exact isNewline_lineText x hx
        · exact isNewline_hexByte x hx
      have hread : (runs isBlank (lineText xs ++ hexByte c)).map hexValue =
          (xs ++ [c]).map UInt8.toNat := by
        rw [read_lineText, runs_hexByte, List.map_singleton, hexValue_hexByte, List.map_append]
        rfl
      rw [hexText_append, hexText_fullLine hi hxs, List.map_append,
        groups_append hk (by rw [List.length_map]; exact hlen), ← hrest, readLines, readLines,
        List.append_assoc _ _ (hexText _ _ _), List.singleton_append, runs_append_cons rfl,
        runs_single (by simp [hexByte]) hline', List.map_append, List.map_singleton, hread]
      rfl

/-- For every buffer, every length and every number of bytes to a line, `NULL` standing for 16:
`print_as_hex` reads outside the buffer or divides by zero exactly if it is told to. Otherwise it
prints three characters a byte, and these are read back as the bytes, on each line as many as were
asked for and on the last one the rest. -/
theorem printAsHex_readsBack (newData : List UInt8) (len : Int) (numPerLine : Option Int) :
    (printAsHex (some newData) len numPerLine = none ↔
      0 < len ∧ (numPerLine = some 0 ∨ newData.length < len)) ∧
    ∀ out, printAsHex (some newData) len numPerLine = some out →
      out.length = 3 * len.toNat ∧
      readLines out =
        groups (numPerLine.getD 16).natAbs ((newData.take len.toNat).map UInt8.toNat) := by
  have hnum : numPerLine.getD 16 = 0 ↔ numPerLine = some 0 := by
    cases numPerLine <;> simp
  have hnone : printAsHex (some newData) len numPerLine = none ↔
      0 < len ∧ (numPerLine = some 0 ∨ newData.length < len) := by
    rw [printAsHex, printHexLoop_eq_none_iff, hnum, Int.lt_toNat, Nat.zero_add]
    refine and_congr_right fun hpos => or_congr_right ?_
    omega
  refine ⟨hnone, fun out hout => ?_⟩
  by_cases hempty : len.toNat = 0
  · rw [printAsHex, hempty] at hout
    cases hout
    simp [hempty, readLines]
  have hfits : numPerLine ≠ some 0 ∧ len.toNat ≤ newData.length := by
    by_contra hcon
    rw [not_and_or, not_not] at hcon
    rw [hnone.mpr ⟨by omega, hcon.imp_right fun h => by omega⟩] at hout
    cases hout
  have hnonzero : numPerLine.getD 16 ≠ 0 := fun h => hfits.1 (hnum.mp h)
  rw [printAsHex, printHexLoop_eq hnonzero (by omega)] at hout
  cases hout
  rw [List.drop_zero]
  refine ⟨?_, readLines_hexText hnonzero (Nat.dvd_zero _) _⟩
  rw [length_hexText, List.length_take, Nat.min_eq_left hfits.2]

/-- Three bytes, two on a line. -/
theorem printAsHex_readsBack_threeBytes :
    readLines ("00 AB\n10 ".toList.map Char.toUInt8) = groups 2 [0, 171, 16] :=
  ((printAsHex_readsBack [0, 171, 16] 3 (some 2)).2 _ (by decide)).2

end ITrace.CstringExternLib
