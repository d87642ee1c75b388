import ITrace.CstringExternLib.Proofs.Splite
import ITrace.TimeExternLib.Proofs.Tags

/-!
# Dates and times of day with a delimiter

The texts of `get_date_str` and `get_time_str` have three numbers of fixed width. Whatever the
delimiter, texts are ordered as their numbers are; and a delimiter that is no digit lets
`c_splite` find the numbers again.
-/

namespace ITrace.TimeExternLib

open ITrace CstringExternLib

/-- `"%04d%c%02d%c%02d"`, or without the delimiters. -/
def delimited (ds : List UInt8) (a b c : Int) : List UInt8 :=
  decimal 4 a ++ (ds ++ (decimal 2 b ++ (ds ++ decimal 2 c)))

/-- What stands between two numbers. -/
def between (delime : UInt8) : List UInt8 := if delime = 0 then [] else [delime]

theorem getDateStr_delimited (localtime : Int → Tm) (delime : UInt8) (t : Int) :
    getDateStr localtime delime t =
      delimited (between delime) ((localtime t).year + 1900) ((localtime t).mon + 1)
        (localtime t).mday ++ 0 :: [0] := by
  by_cases h : delime = 0
  · simp [getDateStr, delimited, between, sprintf, h]
  · simp [getDateStr, delimited, between, sprintf, h]

theorem getTimeStr_delimited (localtime : Int → Tm) (delime : UInt8) (t : Int) :
    getTimeStr localtime delime t =
      delimited (between delime) (localtime t).hour (localtime t).min (localtime t).sec ++
        0 :: [0] := by
  by_cases h : delime = 0
  · simp [getTimeStr, delimited, between, sprintf, h]
  · simp [getTimeStr, delimited, between, sprintf, h]

theorem zero_notMem_between (delime : UInt8) : 0 ∉ between delime := by
  unfold between
  split
  · exact List.not_mem_nil
  · next h => exact fun hmem => h (List.mem_singleton.mp hmem).symm

theorem zero_notMem_delimited {ds : List UInt8} (hds : 0 ∉ ds) (a b c : Int) :
    0 ∉ delimited ds a b c := by
  simp only [delimited, List.mem_append, not_or]
  exact ⟨zero_notMem_decimal 4 a, hds, zero_notMem_decimal 2 b, hds, zero_notMem_decimal 2 c⟩

/-! ### Order -/

/-- Three numbers, compared one after another. -/
def triple (a b c : Int) : Int ×ₗ Int ×ₗ Int := toLex (a, toLex (b, c))

theorem triple_le_iff {a b c a' b' c' : Int} : triple a b c ≤ triple a' b' c' ↔
    a < a' ∨ a = a' ∧ (b < b' ∨ b = b' ∧ (c < c' ∨ c = c')) := by
  simp only [triple, Prod.Lex.toLex_le_toLex]
  omega

section
variable {ds : List UInt8} {a b c a' b' c' : Int}

theorem strLE_delimited (ha : 0 ≤ a ∧ a < 10 ^ 4) (hb : TwoDigits b) (hc : TwoDigits c)
    (ha' : 0 ≤ a' ∧ a' < 10 ^ 4) (hb' : TwoDigits b') (hc' : TwoDigits c')
    (h : triple a b c ≤ triple a' b' c') : StrLE (delimited ds a b c) (delimited ds a' b' c') := by
  have hlast (h : c < c' ∨ c = c') : StrLE (decimal 2 c) (decimal 2 c') := by
    rw [← List.append_nil (decimal 2 c), ← List.append_nil (decimal 2 c')]
    exact strLE_decimal_append (by decide) hc hc' (h.imp_right fun h => ⟨h, .inl rfl⟩)
  have hsep {u v : List UInt8} (h : StrLE u v) : StrLE (ds ++ u) (ds ++ v) :=
    strLE_append rfl (.inr ⟨rfl, h⟩)
  apply strLE_decimal_append (by decide) ha ha'
  refine (triple_le_iff.mp h).imp_right (And.imp_right fun h => hsep ?_)
  apply strLE_decimal_append (by decide) hb hb'
  exact h.imp_right (And.imp_right fun h => hsep (hlast h))

/-- The text tells its numbers. -/
theorem delimited_injective (hb : TwoDigits b) (hc : TwoDigits c) (hb' : TwoDigits b')
    (hc' : TwoDigits c') (h : delimited ds a b c = delimited ds a' b' c') :
    triple a b c = triple a' b' c' := by
  have hlen {n : Int} (hn : TwoDigits n) : (decimal 2 n).length = 2 :=
    (decimal_of_fits (by decide) hn.1 hn.2).1
  obtain ⟨hfirst, hrest⟩ := List.append_inj' h (by
    simp only [List.length_append, hlen hb, hlen hc, hlen hb', hlen hc'])
  have hpair := List.append_cancel_left hrest
  obtain ⟨hsecond, hthird⟩ := List.append_inj hpair ((hlen hb).trans (hlen hb').symm)
  rw [decimal_injective hfirst, decimal_injective hsecond,
    decimal_injective (List.append_cancel_left hthird)]

/-- Texts are ordered as their numbers. -/
theorem strLE_delimited_iff (ha : 0 ≤ a ∧ a < 10 ^ 4) (hb : TwoDigits b) (hc : TwoDigits c)
    (ha' : 0 ≤ a' ∧ a' < 10 ^ 4) (hb' : TwoDigits b') (hc' : TwoDigits c') :
    StrLE (delimited ds a b c) (delimited ds a' b' c') ↔ triple a b c ≤ triple a' b' c' := by
  refine ⟨fun hle => ?_, strLE_delimited ha hb hc ha' hb' hc'⟩
  rcases le_total (triple a b c) (triple a' b' c') with h | h
  · exact h
  · have hback : StrLE (delimited ds a' b' c') (delimited ds a b c) :=
      strLE_delimited ha' hb' hc' ha hb hc h
    exact le_of_eq (delimited_injective hb hc hb' hc' (hle.antisymm hback))

end

/-! ### The numbers read back -/

/-- The elements of a text whose delimiter is no digit. -/
theorem runs_delimited {delime : UInt8} (h : ¬ IsDigit delime) {a b c : Int}
    (ha : 0 ≤ a ∧ a < 10 ^ 4) (hb : TwoDigits b) (hc : TwoDigits c) :
    runs (fun x => x ∈ [delime]) (delimited [delime] a b c) =
      [decimal 4 a, decimal 2 b, decimal 2 c] := by
  have hrun : ∀ (w : Nat) (n : Int), 0 < w → 0 ≤ n → n < 10 ^ w →
      runs (fun x => x ∈ [delime]) (decimal w n) = [decimal w n] := by
    intro w n hw h0 hn
    obtain ⟨hlen, hdigits, -⟩ := decimal_of_fits hw h0 hn
    refine runs_single ?_ fun x hx => ?_
    · rw [← List.length_pos_iff, hlen]
      exact hw
    · simp only [List.mem_singleton, decide_eq_false_iff_not]
      rintro rfl
      exact h (hdigits _ hx)
  have hpart : ∀ xs ys : List UInt8, runs (fun x => x ∈ [delime]) (xs ++ delime :: ys) =
      runs (fun x => x ∈ [delime]) xs ++ runs (fun x => x ∈ [delime]) ys :=
    runs_append_cons (by simp)
  rw [delimited, List.singleton_append, hpart, List.singleton_append, hpart, hrun 4 a (by decide) ha.1 ha.2, hrun 2 b (by decide) hb.1 hb.2,
    hrun 2 c (by decide) hc.1 hc.2]
  rfl

/-- The values of the numerals in the first three rows of a table. -/
def rowValues (result : Logged UInt8) : List (Option Nat) :=
  (List.range 3).map fun j => (rowString result j).map numeralValue

/-- `c_splite` finds the numbers of a text, in order. -/
theorem cSplite_delimited {delime : UInt8} (h0 : delime ≠ 0) (h : ¬ IsDigit delime) {a b c : Int}
    (ha : 0 ≤ a ∧ a < 10 ^ 4) (hb : TwoDigits b) (hc : TwoDigits c) (junk : List UInt8)
    (table : Mem UInt8) {maxElementNum : Nat} (hrows : 3 ≤ maxElementNum) :
    ∃ out, cSplite (delimited [delime] a b c ++ 0 :: junk) [delime] table maxElementNum = some out ∧
      out.ret = 3 ∧ rowValues out.result = [some a.toNat, some b.toNat, some c.toNat] := by
  have hzero : 0 ∉ [delime] := by simpa using h0.symm
  obtain ⟨hlenA, -, hvalueA⟩ := decimal_of_fits (w := 4) (by decide) ha.1 ha.2
  obtain ⟨hlenB, -, hvalueB⟩ := decimal_of_fits (w := 2) (by decide) hb.1 hb.2
  obtain ⟨hlenC, -, hvalueC⟩ := decimal_of_fits (w := 2) (by decide) hc.1 hc.2
  have hne : delimited [delime] a b c ≠ [] := by
    simp [delimited]
  have hsplite := cSplite_eq (s := ⟨_, zero_notMem_delimited hzero a b c⟩) hne ⟨[delime], hzero⟩
    junk table maxElementNum
  simp only [runs_delimited h ha hb hc] at hsplite
  refine ⟨_, hsplite, rfl, ?_⟩
  have hrow : ∀ (i w : Nat) (n : Int), [decimal 4 a, decimal 2 b, decimal 2 c][i]? = some (decimal w n) →
      i < 3 → (decimal w n).length < rowSize → (numeralValue (decimal w n) : Int) = n →
      (rowString (stored table maxElementNum [decimal 4 a, decimal 2 b, decimal 2 c]) i).map
        numeralValue = some n.toNat := by
    intro i w n hget hi hlen hvalue
    rw [rowString_of_short hget (by omega) hlen (zero_notMem_decimal w n), Option.map_some]
    congr 1
    omega
  have hA := hrow 0 4 a rfl (by decide) (by rw [hlenA]; decide) hvalueA
  have hB := hrow 1 2 b rfl (by decide) (by rw [hlenB]; decide) hvalueB
  have hC := hrow 2 2 c rfl (by decide) (by rw [hlenC]; decide) hvalueC
  rw [rowValues]
  simp only [show List.range 3 = [0, 1, 2] from rfl, List.map_cons, List.map_nil, hA, hB, hC]

/-! ### The results -/

/-- For every clock, two instants with years of four digits and every delimiter, which may be a
digit: the strings of `get_date_str` are ordered as the dates, and those of `get_time_str` as the
times of day. -/
theorem dateTimeStr_ordered (localtime : Int → Tm) (delime : UInt8) (t t' : Int)
    (h : FourDigitYear (localtime t)) (h' : FourDigitYear (localtime t')) :
    (∃ s s', stringAt (getDateStr localtime delime t) 0 = some s ∧
      stringAt (getDateStr localtime delime t') 0 = some s' ∧
      (StrLE s s' ↔ triple (localtime t).year (localtime t).mon (localtime t).mday ≤
        triple (localtime t').year (localtime t').mon (localtime t').mday)) ∧
    ∃ s s', stringAt (getTimeStr localtime delime t) 0 = some s ∧
      stringAt (getTimeStr localtime delime t') 0 = some s' ∧
      (StrLE s s' ↔ triple (localtime t).hour (localtime t).min (localtime t).sec ≤
        triple (localtime t').hour (localtime t').min (localtime t').sec) := by
  obtain ⟨hmon, hmday, hhour, hmin, hsec⟩ := (localtime t).fits
  obtain ⟨hmon', hmday', hhour', hmin', hsec'⟩ := (localtime t').fits
  have hzero := zero_notMem_delimited (zero_notMem_between delime)
  rw [getDateStr_delimited, getDateStr_delimited, getTimeStr_delimited, getTimeStr_delimited]
  refine ⟨⟨_, _, stringAt_zero (hzero _ _ _) _, stringAt_zero (hzero _ _ _) _, ?_⟩,
    ⟨_, _, stringAt_zero (hzero _ _ _) _, stringAt_zero (hzero _ _ _) _, ?_⟩⟩
  · rw [strLE_delimited_iff ⟨h.1, by omega⟩ hmon hmday ⟨h'.1, by omega⟩ hmon' hmday',
      triple_le_iff, triple_le_iff]
    omega
  · exact strLE_delimited_iff hhour hmin hsec hhour' hmin' hsec'

/-- The first second of 1970, and the last one of its first day. -/
def firstDay (t : Int) : Tm where
  sec := if t = 0 then 0 else 59
  min := if t = 0 then 0 else 59
  hour := if t = 0 then 0 else 23
  mday := 1
  mon := 0
  year := 70
  sec_range := by split <;> decide
  min_range := by split <;> decide
  hour_range := by split <;> decide
  mday_range := by decide
  mon_range := by decide

theorem dateTimeStr_ordered_firstDay : ∃ s s',
    stringAt (getTimeStr firstDay ':'.toUInt8 0) 0 = some s ∧
    stringAt (getTimeStr firstDay ':'.toUInt8 86399) 0 = some s' ∧ StrLE s s' := by
  obtain ⟨-, s, s', hs, hs', hle⟩ := dateTimeStr_ordered firstDay ':'.toUInt8 0 86399
    (by decide) (by decide)
  exact ⟨s, s', hs, hs', hle.mpr (triple_le_iff.mpr (.inl (by decide)))⟩

/-- For every clock, an instant with a year of four digits, every delimiter that is no digit and a
table of at least three rows: `c_splite` at the delimiter finds year, month and day in the string
of `get_date_str`, and hour, minute and second in that of `get_time_str`, whatever the table held
before. -/
theorem dateTimeStr_splitsBack (localtime : Int → Tm) {delime : UInt8} (h0 : delime ≠ 0)
    (hdigit : ¬ IsDigit delime) {t : Int} (h : FourDigitYear (localtime t)) (table : Mem UInt8)
    {maxElementNum : Nat} (hrows : 3 ≤ maxElementNum) :
    (∃ out, cSplite (getDateStr localtime delime t) [delime] table maxElementNum = some out ∧
      out.ret = 3 ∧ rowValues out.result = [some ((localtime t).year + 1900).toNat,
        some ((localtime t).mon + 1).toNat, some (localtime t).mday.toNat]) ∧
    ∃ out, cSplite (getTimeStr localtime delime t) [delime] table maxElementNum = some out ∧
      out.ret = 3 ∧ rowValues out.result = [some (localtime t).hour.toNat,
        some (localtime t).min.toNat, some (localtime t).sec.toNat] := by
  obtain ⟨hmon, hmday, hhour, hmin, hsec⟩ := (localtime t).fits
  rw [getDateStr_delimited, getTimeStr_delimited, between, if_neg h0]
  exact ⟨cSplite_delimited h0 hdigit ⟨h.1, by omega⟩ hmon hmday [0] table hrows,
    cSplite_delimited h0 hdigit hhour hmin hsec [0] table hrows⟩

theorem dateTimeStr_splitsBack_firstDay : ∃ out,
    cSplite (getDateStr firstDay '-'.toUInt8 0) ['-'.toUInt8] (fun _ => 7) 3 = some out ∧
      out.ret = 3 ∧ rowValues out.result = [some 1970, some 1, some 1] :=
  (dateTimeStr_splitsBack firstDay (by decide) (by unfold IsDigit; decide) (by decide)
    (fun _ => 7) (Nat.le_refl 3)).1

end ITrace.TimeExternLib
