import ITrace.CstringExternLib.LetterCase
import ITrace.CstringExternLib.Proofs.Splite
import ITrace.CstringExternLib.Proofs.Trim

/-!
# Words in another case

A conversion maps the characters of the string and touches nothing behind its terminator, and a
later conversion hides an earlier one. Neither makes a blank or a delimiter out of a letter, so the
words of a string can be converted before or after it is trimmed or split.
-/

namespace ITrace.CstringExternLib

open ITrace

variable {s pre junk : List UInt8} {op : Conversion}

/-! ### Characters -/

theorem toNat_toupper (c : UInt8) :
    (toupper c).toNat = if 97 ≤ c.toNat ∧ c.toNat ≤ 122 then c.toNat - 32 else c.toNat := by
  have hrange : ('a'.toUInt8 ≤ c ∧ c ≤ 'z'.toUInt8) ↔ (97 ≤ c.toNat ∧ c.toNat ≤ 122) := by
    rw [UInt8.le_iff_toNat_le, UInt8.le_iff_toNat_le]
    rfl
  simp only [toupper, hrange]
  split
  · next h =>
    rw [UInt8.toNat_sub_of_le _ _ (UInt8.le_iff_toNat_le.mpr (Nat.le_trans (by decide) h.1))]
    rfl
  · rfl

theorem toNat_tolower (c : UInt8) :
    (tolower c).toNat = if 65 ≤ c.toNat ∧ c.toNat ≤ 90 then c.toNat + 32 else c.toNat := by
  have hrange : ('A'.toUInt8 ≤ c ∧ c ≤ 'Z'.toUInt8) ↔ (65 ≤ c.toNat ∧ c.toNat ≤ 90) := by
    rw [UInt8.le_iff_toNat_le, UInt8.le_iff_toNat_le]
    rfl
  simp only [tolower, hrange]
  split
  · next h =>
    rw [UInt8.toNat_add]
    have hsmall : c.toNat + 32 < 256 := by omega
    exact Nat.mod_eq_of_lt hsmall
  · rfl

/-- A letter of either case. -/
def IsLetter (c : UInt8) : Prop :=
  (65 ≤ c.toNat ∧ c.toNat ≤ 90) ∨ (97 ≤ c.toNat ∧ c.toNat ≤ 122)

instance (c : UInt8) : Decidable (IsLetter c) := inferInstanceAs (Decidable (_ ∨ _))

/-- The later conversion decides. -/
theorem char_char (op op' : Conversion) (c : UInt8) : op'.char (op.char c) = op'.char c := by
  apply UInt8.toNat_inj.mp
  cases op <;> cases op' <;> simp only [Conversion.char, toNat_toupper, toNat_tolower] <;>
    split_ifs <;> omega

/-- Letters become letters, and nothing else does. -/
theorem char_eq_iff (op : Conversion) {c d : UInt8} (hd : ¬ IsLetter d) :
    op.char c = d ↔ c = d := by
  unfold IsLetter at hd
  rw [← UInt8.toNat_inj, ← UInt8.toNat_inj]
  cases op <;> simp only [Conversion.char, toNat_toupper, toNat_tolower] <;> split_ifs <;> omega

theorem zero_notMem_map (op : Conversion) (hs : 0 ∉ s) : 0 ∉ s.map op.char := by
  intro hmem
  obtain ⟨c, hc, hzero⟩ := List.mem_map.mp hmem
  rw [char_eq_iff op (by decide)] at hzero
  exact hs (hzero ▸ hc)

/-- A C string with its characters converted. -/
def converted (s : CString) (op : Conversion) : CString :=
  ⟨s.chars.map op.char, zero_notMem_map op s.zero_notMem⟩

/-! ### The loops -/

/-- The loop of `str2upper` runs down. -/
theorem upperLoop_eq (i : Nat) (s rest : List UInt8) (hi : s.length = i) :
    upperLoop i (s ++ rest) = some (s.map toupper ++ rest) := by
  induction i generalizing s rest with
  | zero =>
    rw [List.eq_nil_of_length_eq_zero hi]
    rfl
  | succ i ih =>
    obtain ⟨s, c, rfl⟩ : ∃ t c, s = t ++ [c] := by
      refine ⟨s.dropLast, s.getLast ?_, (List.dropLast_concat_getLast _).symm⟩
      rintro rfl
      cases hi
    have hlen : s.length = i := by simpa using hi
    have hget : (s ++ [c] ++ rest)[i]? = some c := by
      rw [List.append_assoc, List.getElem?_append_right (by omega), hlen, Nat.sub_self]
      rfl
    have hset : (s ++ [c] ++ rest).set i (toupper c) = s ++ toupper c :: rest := by
      rw [List.append_assoc, List.set_append_right _ _ (by omega), hlen, Nat.sub_self]
      rfl
    rw [upperLoop, hget]
    simp only [Option.bind_eq_bind, Option.bind_some, hset]
    rw [ih s (toupper c :: rest) hlen, List.map_append, List.append_assoc]
    rfl

/-- The loop of `str2lower` runs up to the terminator. -/
theorem lowerLoop_eq (pre : List UInt8) {s : List UInt8} (hs : 0 ∉ s) (junk : List UInt8)
    {turns : Nat} (hturns : s.length < turns) :
    lowerLoop turns pre.length (pre ++ s ++ 0 :: junk) =
      some (pre ++ s.map tolower ++ 0 :: junk) := by
  induction s generalizing pre turns with
  | nil =>
    obtain ⟨turns, rfl⟩ := Nat.exists_eq_add_of_lt hturns
    simp [lowerLoop]
  | cons c s ih =>
    rw [List.mem_cons, not_or] at hs
    rw [List.length_cons] at hturns
    obtain ⟨turns, rfl⟩ := Nat.exists_eq_succ_of_ne_zero (Nat.ne_of_gt (Nat.zero_lt_of_lt hturns))
    have hget : (pre ++ c :: s ++ 0 :: junk)[pre.length]? = some c := by
      rw [List.append_assoc, List.getElem?_append_right (Nat.le_refl _), Nat.sub_self]
      rfl
    have hset : (pre ++ c :: s ++ 0 :: junk).set pre.length (tolower c) =
        pre ++ [tolower c] ++ s ++ 0 :: junk := by
      rw [List.append_assoc, List.set_append_right _ _ (Nat.le_refl _), Nat.sub_self]
      simp
    have hlen : pre.length + 1 = (pre ++ [tolower c]).length := by simp
    rw [lowerLoop, hget]
    simp only [Option.bind_eq_bind, Option.bind_some, if_pos (Ne.symm hs.1), hset, hlen]
    rw [ih (pre ++ [tolower c]) hs.2 (by omega)]
    simp

/-- `str2upper` from `i` on. -/
theorem str2upper_of_int (s : CString) (junk : List UInt8) {i : Int}
    (hi : int32 (s.chars.length - 1) = i) :
    str2upper (s.chars ++ 0 :: junk) =
      if i < 0 then some (none, s.chars ++ 0 :: junk)
      else (upperLoop (i.toNat + 1) (s.chars ++ 0 :: junk)).map fun src => (some 0, src) := by
  have hlen := (strlen_of_stringAt (stringAt_zero s.zero_notMem junk)).1
  simp only [str2upper, hlen, Option.bind_eq_bind, Option.bind_some, hi]
  rw [Option.map_eq_bind]
  rfl

theorem str2upper_eq (s : CString) (junk : List UInt8) (hlen : s.chars.length ≤ 2 ^ 31) :
    str2upper (s.chars ++ 0 :: junk) =
      some (if s.chars = [] then none else some 0, s.chars.map toupper ++ 0 :: junk) := by
  by_cases hnil : s.chars = []
  · have hi : int32 (s.chars.length - 1) = -1 := by
      rw [hnil]
      exact int32_neg_one
    rw [str2upper_of_int s junk hi, if_pos (by decide), if_pos hnil, hnil]
    rfl
  · have hpos : 0 < s.chars.length := List.length_pos_iff.mpr hnil
    have hturns : ((s.chars.length : Int) - 1).toNat + 1 = s.chars.length := by omega
    rw [str2upper_of_int s junk (int32_of_lt (by omega) (by omega)), if_neg (by omega), hturns,
      upperLoop_eq s.chars.length s.chars _ rfl, if_neg hnil]
    rfl

/-- Of a longer string, up to 2^32 characters, `i` is negative from the start. -/
theorem str2upper_long (s : CString) (junk : List UInt8) (hlong : 2 ^ 31 < s.chars.length)
    (hlen : s.chars.length ≤ 2 ^ 32) :
    str2upper (s.chars ++ 0 :: junk) = some (none, s.chars ++ 0 :: junk) := by
  rw [str2upper_of_int s junk (int32_of_ge (by omega) (by omega)), if_pos (by omega)]

/-- The loop of `str2lower` has no `int` in it. -/
theorem str2lower_eq (s : CString) (junk : List UInt8) :
    str2lower (s.chars ++ 0 :: junk) = some (some 0, s.chars.map tolower ++ 0 :: junk) := by
  have hturns : s.chars.length < (s.chars ++ 0 :: junk).length + 1 := by
    rw [List.length_append]
    omega
  have hloop : lowerLoop _ 0 (s.chars ++ 0 :: junk) = some (s.chars.map tolower ++ 0 :: junk) :=
    lowerLoop_eq [] s.zero_notMem junk hturns
  simp only [str2lower, hloop, Option.bind_eq_bind, Option.bind_some]

/-- A call converts the characters of its string. Only `str2upper` of the empty string returns
`NULL`. -/
theorem call_eq (op : Conversion) (s : CString) (junk : List UInt8)
    (hlen : s.chars.length ≤ 2 ^ 31) :
    op.call (s.chars ++ 0 :: junk) =
      some (if op = .upper ∧ s.chars = [] then none else some 0,
        (converted s op).chars ++ 0 :: junk) := by
  cases op with
  | upper =>
    simp only [Conversion.call, str2upper_eq s junk hlen, true_and]
    rfl
  | lower =>
    rw [Conversion.call, str2lower_eq]
    rfl

/-- The last of a sequence of calls decides. -/
theorem convertAll_eq (ops : List Conversion) (op : Conversion) (s : CString)
    (junk : List UInt8) (hlen : s.chars.length ≤ 2 ^ 31) :
    convertAll (s.chars ++ 0 :: junk) (ops ++ [op]) =
      some ((converted s op).chars ++ 0 :: junk) := by
  induction ops generalizing s with
  | nil => simp [convertAll, call_eq op s junk hlen]
  | cons first ops ih =>
    have hrest := ih (converted s first) (by simpa [converted] using hlen)
    have hsame : converted (converted s first) op = converted s op := by
      simp only [converted, List.map_map]
      congr 2
      funext c
      exact char_char first op c
    rw [hsame] at hrest
    rw [List.cons_append, convertAll, List.foldlM_cons, call_eq first s junk hlen]
    exact hrest

/-! ### Words -/

theorem trimmed_map (op : Conversion) (s : List UInt8) :
    trimmed (s.map op.char) = (trimmed s).map op.char := by
  have hspace : isSpace ∘ op.char = isSpace := by
    funext c
    exact decide_eq_decide.mpr (char_eq_iff op (by decide))
  have htrailing : isTrailing ∘ op.char = isTrailing := by
    funext c
    exact decide_eq_decide.mpr
      (or_congr (char_eq_iff op (by decide)) (char_eq_iff op (by decide)))
  rw [trimmed, trimmed, List.dropWhile_map, hspace, List.rdropWhile, List.rdropWhile,
    ← List.map_reverse, List.dropWhile_map, htrailing, List.map_reverse]

/-- Delimiters that are no letters part a string at the same places. -/
theorem elements_converted (op : Conversion) {delims : CString}
    (hdelims : ∀ d ∈ delims.chars, ¬ IsLetter d) (s : CString) :
    elements delims (converted s op) = (elements delims s).map (List.map op.char) := by
  have hmem : (fun c => decide (c ∈ delims.chars)) ∘ op.char =
      fun c => decide (c ∈ delims.chars) := by
    funext c
    refine decide_eq_decide.mpr ⟨fun h => ?_, fun h => ?_⟩
    · rwa [(char_eq_iff op (hdelims _ h)).mp rfl]
    · rwa [(char_eq_iff op (hdelims _ h)).mpr rfl]
  rw [elements, converted, runs_map, hmem]

/-- A row in the table, after a string was split and after the converted string was. -/
theorem rowString_map (op : Conversion) {ts : List (List UInt8)} (hts : ∀ t ∈ ts, 0 ∉ t)
    (table : Mem UInt8) {maxElementNum i : Nat} (hi : i < maxElementNum) :
    rowString (stored table maxElementNum (ts.map (List.map op.char))) i =
      (rowString (stored table maxElementNum ts) i).map (List.map op.char) := by
  cases hget : ts[i]? with
  | none =>
    have hlen : ts.length ≤ i := List.getElem?_eq_none_iff.mp hget
    rw [rowString_of_empty hlen hi, rowString_of_empty (by rwa [List.length_map]) hi]
    rfl
  | some t =>
    have hzero := hts t (List.mem_of_getElem? hget)
    have hmap : (ts.map (List.map op.char))[i]? = some (t.map op.char) := by
      rw [List.getElem?_map, hget]
      rfl
    by_cases hshort : t.length < rowSize
    · rw [rowString_of_short hget hi hshort hzero,
        rowString_of_short hmap hi (by rwa [List.length_map]) (zero_notMem_map op hzero)]
      rfl
    · rw [rowString_of_long hget (by omega) hzero,
        rowString_of_long hmap (by rw [List.length_map]; omega) (zero_notMem_map op hzero)]
      rfl

/-- For every string of at most 2^31 characters and every sequence of calls of `str2upper` and
`str2lower`, of which `op` is the last: the string has each of its characters as `op` makes it, and
what is behind its terminator is as before. Trimming it gives the trimmed string with its
characters so converted, and splitting it at delimiters that are no letters gives as many elements,
and each of them converted. -/
theorem conversions_keepWords (ops : List Conversion) (op : Conversion) (s : CString)
    (malloc : (size : Nat) → Vector UInt8 size) (delims : CString)
    (hlen : s.chars.length ≤ 2 ^ 31) (hdelims : ∀ d ∈ delims.chars, ¬ IsLetter d) :
    ∃ u : CString, u.chars = s.chars.map op.char ∧
      (∀ junk, convertAll (s.chars ++ 0 :: junk) (ops ++ [op]) = some (u.chars ++ 0 :: junk)) ∧
      cstringTrim malloc (u.chars ++ [0]) =
        (cstringTrim malloc (s.chars ++ [0])).map (Option.map (List.map op.char)) ∧
      ∀ junk table maxElementNum, ∃ out out',
        cSplite (s.chars ++ 0 :: junk) delims.chars table maxElementNum = some out ∧
        cSplite (u.chars ++ 0 :: junk) delims.chars table maxElementNum = some out' ∧
        out'.ret = out.ret ∧ (s.chars ≠ [] → ∀ i < maxElementNum,
          rowString out'.result i = (rowString out.result i).map (List.map op.char)) := by
  refine ⟨converted s op, rfl, fun junk => convertAll_eq ops op s junk hlen, ?_, ?_⟩
  · have hzero : op.char 0 = 0 := (char_eq_iff op (by decide)).mpr rfl
    have htrim := trimmed_map op s.chars
    rw [cstringTrim_eq, cstringTrim_eq, show (converted s op).chars = s.chars.map op.char from rfl,
      htrim]
    by_cases hnothing : trimmed s.chars = []
    · simp [hnothing]
    · simp [hnothing, hzero]
  · intro junk table maxElementNum
    by_cases hempty : s.chars = []
    · have hempty' : (converted s op).chars = [] := List.map_eq_nil_iff.mpr hempty
      rw [hempty, hempty']
      exact ⟨_, _, rfl, rfl, rfl, fun h => absurd rfl h⟩
    · have hconverted : (converted s op).chars ≠ [] := by simpa [converted] using hempty
      have helements : runs (fun c => c ∈ delims.chars) (converted s op).chars = _ :=
        elements_converted op hdelims s
      refine ⟨_, _, cSplite_eq hempty delims junk table maxElementNum,
        cSplite_eq hconverted delims junk table maxElementNum, ?_, fun _ i hi => ?_⟩
      · simp only [helements, List.length_map]
      · simp only [helements]
        exact rowString_map op (fun t ht => zero_notMem_element ht) table hi

/-- The string ` aB` in lower case and then in upper case. -/
theorem conversions_keepWords_aB :
    ∃ u : CString, u.chars = [0x20, 0x41, 0x42] ∧
      convertAll [0x20, 0x61, 0x42, 0, 7] [.lower, .upper] = some (u.chars ++ [0, 7]) := by
  obtain ⟨u, hu, hall, -⟩ := conversions_keepWords [.lower] .upper ⟨[0x20, 0x61, 0x42], by decide⟩
    (fun size => .replicate size 0) ⟨[0x20], by decide⟩ (by decide)
    (List.forall_mem_singleton.mpr (by decide))
  exact ⟨u, hu, hall [7]⟩

end ITrace.CstringExternLib
