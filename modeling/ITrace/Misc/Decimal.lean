import Mathlib.Tactic.IntervalCases
import Mathlib.Tactic.Ring
import Mathlib.Data.List.Lex

/-!
# Decimal numerals

The numerals that `printf` writes for `%0wd`, as bytes. Different numbers have different numerals,
and the numerals of numbers that fit the width are ordered as the numbers are, in the order of
`strcmp`.
-/

namespace ITrace

/-- The decimal digits of a number, the highest first. -/
def digits (n : Nat) : List UInt8 := (Nat.toDigits 10 n).map Char.toUInt8

/-- `%0wd`: padded with zeros to `w` characters, of which a sign is one. -/
def decimal (w : Nat) : Int → List UInt8
  | .ofNat n => (digits n).leftpad w '0'.toUInt8
  | .negSucc n => '-'.toUInt8 :: (digits (n + 1)).leftpad (w - 1) '0'.toUInt8

/-- The number that a string of digits stands for. -/
def numeralValue (s : List UInt8) : Nat := s.foldl (fun v c => 10 * v + (c.toNat - 48)) 0

def IsDigit (c : UInt8) : Prop := 48 ≤ c.toNat ∧ c.toNat ≤ 57

/-- `strcmp(s, t) < 0`. -/
def StrLT (s t : List UInt8) : Prop := List.Lex (fun c d : UInt8 => c.toNat < d.toNat) s t

/-- `strcmp(s, t) <= 0`. -/
def StrLE (s t : List UInt8) : Prop := s = t ∨ StrLT s t

instance (s t : List UInt8) : Decidable (StrLT s t) :=
  inferInstanceAs (Decidable (List.Lex (fun c d : UInt8 => c.toNat < d.toNat) s t))

instance (s t : List UInt8) : Decidable (StrLE s t) :=
  inferInstanceAs (Decidable (s = t ∨ StrLT s t))

/-! ### The order of strings -/

section
variable {s t u v : List UInt8}

theorem StrLT.append (h : StrLT s t) (hlen : s.length = t.length) (u v : List UInt8) :
    StrLT (s ++ u) (t ++ v) := by
  induction h with
  | nil => cases hlen
  | cons _ ih => exact .cons (ih (Nat.succ.inj hlen))
  | rel hlt => exact .rel hlt

theorem StrLT.prepend (s : List UInt8) (h : StrLT u v) : StrLT (s ++ u) (s ++ v) := by
  induction s with
  | nil => exact h
  | cons c s ih => exact .cons ih

/-- Strings that begin with parts of one length are ordered by these first. -/
theorem strLE_append (hlen : s.length = t.length) (h : StrLT s t ∨ s = t ∧ StrLE u v) :
    StrLE (s ++ u) (t ++ v) := by
  rcases h with hlt | ⟨rfl, rfl | hlt⟩
  · exact .inr (hlt.append hlen u v)
  · exact .inl rfl
  · exact .inr (hlt.prepend s)

theorem StrLT.asymm (h : StrLT s t) : ¬ StrLT t s := by
  induction h with
  | nil => rintro ⟨⟩
  | cons _ ih =>
    intro h
    cases h with
    | cons h => exact ih h
    | rel hlt => exact absurd hlt (Nat.lt_irrefl _)
  | rel hlt =>
    intro h
    cases h with
    | cons => exact absurd hlt (Nat.lt_irrefl _)
    | rel hlt' => exact absurd hlt' (Nat.lt_asymm hlt)

theorem StrLE.antisymm (h : StrLE s t) (h' : StrLE t s) : s = t := by
  rcases h with rfl | hlt
  · rfl
  rcases h' with rfl | hlt'
  · rfl
  exact absurd hlt' hlt.asymm

end

/-! ### The value of a string of digits -/

section
variable {c : UInt8} {s t : List UInt8}

theorem foldl_numeralValue (s : List UInt8) (v : Nat) :
    s.foldl (fun v c => 10 * v + (c.toNat - 48)) v = v * 10 ^ s.length + numeralValue s := by
  induction s generalizing v with
  | nil => simp [numeralValue]
  | cons c s ih =>
    have hcons : numeralValue (c :: s) = (10 * 0 + (c.toNat - 48)) * 10 ^ s.length + numeralValue s :=
      ih _
    rw [List.foldl_cons, ih, hcons, List.length_cons, Nat.pow_succ]
    ring

theorem numeralValue_cons (c : UInt8) (s : List UInt8) :
    numeralValue (c :: s) = (c.toNat - 48) * 10 ^ s.length + numeralValue s := by
  rw [numeralValue, List.foldl_cons, foldl_numeralValue, Nat.mul_zero, Nat.zero_add]

theorem numeralValue_concat (s : List UInt8) (c : UInt8) :
    numeralValue (s ++ [c]) = 10 * numeralValue s + (c.toNat - 48) := by
  rw [numeralValue, List.foldl_append, List.foldl_cons, List.foldl_nil, numeralValue]

theorem numeralValue_lt (hs : ∀ c ∈ s, IsDigit c) : numeralValue s < 10 ^ s.length := by
  induction s with
  | nil => exact Nat.one_pos
  | cons c s ih =>
    rw [List.forall_mem_cons] at hs
    have hc : c.toNat - 48 + 1 ≤ 10 := by
      have hle := hs.1.2
      omega
    have hrest := ih hs.2
    calc numeralValue (c :: s)
        < (c.toNat - 48) * 10 ^ s.length + 10 ^ s.length := by rw [numeralValue_cons]; omega
      _ = (c.toNat - 48 + 1) * 10 ^ s.length := by ring
      _ ≤ 10 * 10 ^ s.length := Nat.mul_le_mul_right _ hc
      _ = 10 ^ (c :: s).length := by rw [List.length_cons, Nat.pow_succ]; ring

/-- Strings of digits of one length are ordered by their values. -/
theorem strLT_of_numeralValue_lt (hs : ∀ c ∈ s, IsDigit c) (ht : ∀ c ∈ t, IsDigit c)
    (hlen : s.length = t.length) (h : numeralValue s < numeralValue t) : StrLT s t := by
  induction s generalizing t with
  | nil =>
    cases t with
    | nil => exact absurd h (Nat.lt_irrefl _)
    | cons d t => cases hlen
  | cons c s ih =>
    cases t with
    | nil => cases hlen
    | cons d t =>
      have hlen' : s.length = t.length := Nat.succ.inj hlen
      rw [List.forall_mem_cons] at hs ht
      rw [numeralValue_cons, numeralValue_cons, hlen'] at h
      rcases Nat.lt_trichotomy c.toNat d.toNat with hlt | heq | hgt
      · exact .rel hlt
      · cases UInt8.toNat_inj.mp heq
        exact .cons (ih hs.2 ht.2 hlen' (Nat.lt_of_add_lt_add_left h))
      · have hvalue := numeralValue_lt ht.2
        have hd := ht.1.1
        have hdigit : d.toNat - 48 + 1 ≤ c.toNat - 48 := by omega
        have hscaled := Nat.mul_le_mul_right (10 ^ t.length) hdigit
        rw [Nat.add_mul, Nat.one_mul] at hscaled
        omega

theorem numeralValue_leftpad (w : Nat) (s : List UInt8) :
    numeralValue (s.leftpad w '0'.toUInt8) = numeralValue s := by
  rw [List.leftpad]
  generalize w - s.length = n
  induction n with
  | zero => rfl
  | succ n ih =>
    have hzero : '0'.toUInt8.toNat - 48 = 0 := rfl
    rw [List.replicate_succ, List.cons_append, numeralValue_cons, ih, hzero, Nat.zero_mul,
      Nat.zero_add]

theorem isDigit_leftpad (w : Nat) (hs : ∀ c ∈ s, IsDigit c) :
    ∀ c ∈ s.leftpad w '0'.toUInt8, IsDigit c := by
  intro c hc
  rcases List.mem_append.mp hc with hc | hc
  · cases List.eq_of_mem_replicate hc
    exact ⟨by decide, by decide⟩
  · exact hs c hc

end

/-! ### The digits of a number -/

theorem toUInt8_digitChar {d : Nat} (hd : d < 10) : d.digitChar.toUInt8 = UInt8.ofNat (48 + d) := by
  interval_cases d <;> rfl

/-- The last digit is the number modulo ten. -/
theorem digits_eq (n : Nat) :
    digits n = (if n < 10 then [] else digits (n / 10)) ++ [UInt8.ofNat (48 + n % 10)] := by
  rw [digits, Nat.toDigits_eq_if (by decide)]
  split
  · next h =>
    rw [Nat.mod_eq_of_lt h, ← toUInt8_digitChar h]
    rfl
  · rw [List.map_append, ← toUInt8_digitChar (Nat.mod_lt n (by decide))]
    rfl

theorem toNat_digit {d : Nat} (hd : d < 10) : (UInt8.ofNat (48 + d)).toNat = 48 + d := by
  rw [UInt8.toNat_ofNat']
  omega

theorem isDigit_digits (n : Nat) : ∀ c ∈ digits n, IsDigit c := by
  induction n using Nat.strong_induction_on with
  | h n ih =>
    intro c hc
    rw [digits_eq, List.mem_append, List.mem_singleton] at hc
    rcases hc with hc | rfl
    · split at hc
      · cases hc
      · next h => exact ih (n / 10) (by omega) c hc
    · have hmod : n % 10 < 10 := Nat.mod_lt n (by decide)
      rw [IsDigit, toNat_digit hmod]
      omega

theorem numeralValue_digits (n : Nat) : numeralValue (digits n) = n := by
  induction n using Nat.strong_induction_on with
  | h n ih =>
    rw [digits_eq, numeralValue_concat, toNat_digit (Nat.mod_lt n (by decide))]
    split
    · rw [numeralValue, List.foldl_nil]
      omega
    · next h =>
      rw [ih (n / 10) (by omega)]
      omega

theorem length_digits_le {n w : Nat} (hw : 0 < w) (hn : n < 10 ^ w) : (digits n).length ≤ w := by
  rw [digits, List.length_map]
  exact (Nat.length_toDigits_le_iff (by decide) hw).mpr hn

/-! ### `%0wd` -/

theorem decimal_natCast (w n : Nat) : decimal w n = (digits n).leftpad w '0'.toUInt8 := rfl

section
variable {w : Nat} {m n : Int}

theorem decimal_injective (h : decimal w m = decimal w n) : m = n := by
  have hvalue {w m n : Nat} (h : (digits m).leftpad w '0'.toUInt8 = (digits n).leftpad w '0'.toUInt8) :
      m = n := by
    have heq := congrArg numeralValue h
    rwa [numeralValue_leftpad, numeralValue_leftpad, numeralValue_digits, numeralValue_digits] at heq
  -- A sign is no digit.
  have hsign {w n : Nat} {s : List UInt8} (h : (digits n).leftpad w '0'.toUInt8 = '-'.toUInt8 :: s) :
      False := by
    have hdigit := isDigit_leftpad w (isDigit_digits n) '-'.toUInt8 (by rw [h]; exact List.mem_cons_self ..)
    exact absurd hdigit.1 (by decide)
  cases m with
  | ofNat m =>
    cases n with
    | ofNat n => rw [hvalue h]
    | negSucc n => exact (hsign h).elim
  | negSucc m =>
    cases n with
    | ofNat n => exact (hsign h.symm).elim
    | negSucc n =>
      have heq : m + 1 = n + 1 := hvalue (List.cons.inj h).2
      rw [Nat.succ.inj heq]

/-- The numerals of the numbers that fit the width are their digits, padded to it. -/
theorem decimal_of_fits (hw : 0 < w) (hn : 0 ≤ n) (hfits : n < 10 ^ w) :
    (decimal w n).length = w ∧ (∀ c ∈ decimal w n, IsDigit c) ∧
      (numeralValue (decimal w n) : Int) = n := by
  obtain ⟨n, rfl⟩ := Int.eq_ofNat_of_zero_le hn
  have hlt : n < 10 ^ w := by exact_mod_cast hfits
  refine ⟨?_, isDigit_leftpad w (isDigit_digits n), ?_⟩
  · have hlen := length_digits_le hw hlt
    rw [decimal_natCast, List.length_leftpad]
    omega
  · rw [decimal_natCast, numeralValue_leftpad, numeralValue_digits]

theorem decimal_lt (hw : 0 < w) (hm : 0 ≤ m) (hmn : m < n) (hn : n < 10 ^ w) :
    StrLT (decimal w m) (decimal w n) := by
  obtain ⟨hlenM, hdigitM, hvalueM⟩ := decimal_of_fits hw hm (by omega)
  obtain ⟨hlenN, hdigitN, hvalueN⟩ := decimal_of_fits hw (by omega) hn
  apply strLT_of_numeralValue_lt hdigitM hdigitN (hlenM.trans hlenN.symm)
  omega

/-- Numerals of one width are ordered by their numbers first, and then by what follows them. -/
theorem strLE_decimal_append (hw : 0 < w) (hm : 0 ≤ m ∧ m < 10 ^ w) (hn : 0 ≤ n ∧ n < 10 ^ w)
    {u v : List UInt8} (h : m < n ∨ m = n ∧ StrLE u v) :
    StrLE (decimal w m ++ u) (decimal w n ++ v) := by
  have hlen : (decimal w m).length = (decimal w n).length :=
    (decimal_of_fits hw hm.1 hm.2).1.trans (decimal_of_fits hw hn.1 hn.2).1.symm
  apply strLE_append hlen
  rcases h with hlt | ⟨rfl, hle⟩
  · exact .inl (decimal_lt hw hm.1 hlt hn.2)
  · exact .inr ⟨rfl, hle⟩

/-- A numeral holds no terminator. -/
theorem zero_notMem_decimal (w : Nat) (n : Int) : 0 ∉ decimal w n := by
  have hdigit {w n : Nat} : 0 ∉ (digits n).leftpad w '0'.toUInt8 := fun h =>
    absurd (isDigit_leftpad w (isDigit_digits n) 0 h).1 (by decide)
  cases n with
  | ofNat n => exact hdigit
  | negSucc n =>
    rw [decimal, List.mem_cons, not_or]
    exact ⟨by decide, hdigit⟩

end

end ITrace
