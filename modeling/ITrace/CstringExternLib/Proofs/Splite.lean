import ITrace.CstringExternLib.Cstring

/-!
# What `c_splite` writes

The calls of `strtok` find the runs of the string one after another, and the inner loop stores the
first 32 characters of each in its row: the table after the call is `storeRows` of the runs over
the cleared table. The bounds of the two loops are the number of the runs and their lengths, so
the table is respected exactly if these fit it.
-/

namespace ITrace.CstringExternLib

open ITrace

/-- The elements `ts`, from row `j` on, as the inner loop stores them. -/
def storeRows (result : Logged UInt8) : Nat → List (List UInt8) → Logged UInt8
  | _, [] => result
  | j, t :: ts => storeRows (result.write (rowSize * j) (t.take rowSize)) (j + 1) ts

/-- A row of the table. -/
def row (result : Logged UInt8) (j : Nat) : List UInt8 := result.mem.load (rowSize * j) rowSize

/-! ### The loops -/

section
variable {buf t : List UInt8} {element j : Nat}

/-- The inner loop stores what of the element fits the rest of the row. -/
theorem copyElement_eq (h : stringAt buf element = some t) {left : Nat} (hleft : left ≤ rowSize)
    (result : Logged UInt8) :
    copyElement buf element j left result =
      some (result.write (rowSize * j + (rowSize - left)) ((t.drop (rowSize - left)).take left)) := by
  obtain ⟨hlen, hget⟩ := strlen_of_stringAt h
  induction left generalizing result with
  | zero => simp [copyElement]
  | succ left ih =>
    have hnext : rowSize - (left + 1) + 1 = rowSize - left := by omega
    simp only [copyElement, hlen, Option.bind_eq_bind, Option.bind_some]
    split
    · next hi =>
      rw [hget _ hi, Option.bind_some, ih (by omega), ← hnext, ← Nat.add_assoc]
      have hdrop : t.drop (rowSize - (left + 1)) =
          t[rowSize - (left + 1)] :: t.drop (rowSize - (left + 1) + 1) :=
        List.drop_eq_getElem_cons hi
      rw [hdrop, List.take_succ_cons]
      exact congrArg some (Logged.write_write result _ [_] _)
    · next hi =>
      rw [List.drop_of_length_le (by omega)]
      simp

end

/-- The outer loop stores one row for each token that is still to be found. -/
theorem spliteLoop_eq {delims : List UInt8} (hdelims : 0 ∉ delims) {ts : List (List UInt8)}
    {found : Option Nat × Strtok} (h : Found delims found ts) {turns : Nat}
    (hturns : ts.length < turns) (j : Nat) (result : Logged UInt8) :
    spliteLoop delims turns found j result =
      some ⟨j + ts.length, storeRows result j ts⟩ := by
  induction ts generalizing found turns j result with
  | nil =>
    obtain ⟨element, st⟩ := found
    obtain ⟨turns, rfl⟩ := Nat.exists_eq_add_of_lt hturns
    cases (h : element = none)
    rfl
  | cons t ts ih =>
    obtain ⟨first, st, rfl, hstring, hpending⟩ := h
    cases turns with
    | zero => cases hturns
    | succ turns =>
      rw [List.length_cons] at hturns
      have hfewer : ts.length < turns := by omega
      have hrest := ih (hpending.next hdelims) hfewer (j + 1)
        (result.write (rowSize * j) (t.take rowSize))
      simp only [spliteLoop, copyElement_eq hstring (Nat.le_refl _), Option.bind_eq_bind,
        Option.bind_some, Nat.sub_self, Nat.add_zero, List.drop_zero, hrest]
      rw [List.length_cons, Nat.add_assoc, Nat.add_comm 1]
      rfl

/-- `c_splite` of a string that is not empty. -/
theorem cSplite_eq {s : CString} (hs : s.chars ≠ []) (delims : CString) (junk : List UInt8)
    (result : Mem UInt8) (maxElementNum : Nat) :
    cSplite (s.chars ++ 0 :: junk) delims.chars result maxElementNum =
      some ⟨(runs (fun c => c ∈ delims.chars) s.chars).length,
        storeRows (clearRows (.start result) maxElementNum) 0
          (runs (fun c => c ∈ delims.chars) s.chars)⟩ := by
  have hlen : strlen (s.chars ++ 0 :: junk) 0 = some s.chars.length :=
    (strlen_of_stringAt (stringAt_zero s.zero_notMem junk)).1
  have hturns : (runs (fun c => c ∈ delims.chars) s.chars).length <
      (s.chars ++ 0 :: junk).length + 1 := by
    have hle := length_runs_le (p := fun c => c ∈ delims.chars) s.chars
    rw [List.length_append, List.length_cons]
    omega
  have hne : s.chars.length ≠ 0 := fun h => hs (List.eq_nil_of_length_eq_zero h)
  simp only [cSplite, hlen, Option.bind_eq_bind, Option.bind_some, if_neg hne]
  rw [spliteLoop_eq delims.zero_notMem (strtok_found delims.zero_notMem s.zero_notMem) hturns,
    Nat.zero_add]

/-! ### The rows -/

section
variable {result : Logged UInt8} {bs t : List UInt8} {ts : List (List UInt8)} {i j k : Nat}

theorem row_write_ne (hbs : bs.length ≤ rowSize) (hjk : j ≠ k) :
    row (result.write (rowSize * j) bs) k = row result k := by
  apply Mem.load_store_of_disjoint
  unfold rowSize at *
  omega

/-- What a write leaves of its row. -/
theorem row_write (hbs : bs.length ≤ rowSize) :
    row (result.write (rowSize * j) bs) j = bs ++ (row result j).drop bs.length := by
  obtain ⟨n, hn⟩ := Nat.exists_eq_add_of_le hbs
  rw [row, row, hn, Logged.write_mem, Mem.load_add, Mem.load_store_same,
    Mem.load_store_of_disjoint _ _ (.inr (Nat.le_refl _)), ← hn, Mem.drop_load _ _ hbs, hn,
    Nat.add_sub_cancel_left]

theorem storeRows_other (h : k < j ∨ j + ts.length ≤ k) :
    row (storeRows result j ts) k = row result k := by
  induction ts generalizing result j with
  | nil => rfl
  | cons t ts ih =>
    rw [List.length_cons] at h
    have hne : j ≠ k := by omega
    rw [storeRows, ih (by omega), row_write_ne (List.length_take_le ..) hne]

theorem storeRows_row (h : ts[i]? = some t) :
    row (storeRows result j ts) (j + i) =
      t.take rowSize ++ (row result (j + i)).drop (t.take rowSize).length := by
  induction ts generalizing result i j with
  | nil => cases h
  | cons t' ts ih =>
    rw [storeRows]
    cases i with
    | zero =>
      cases h
      change row (storeRows _ (j + 1) ts) j = _ ++ (row result j).drop _
      rw [storeRows_other (.inl (Nat.lt_add_one j)), row_write (List.length_take_le ..)]
    | succ i =>
      have hne : j ≠ j + 1 + i := by omega
      rw [Nat.add_comm i 1, ← Nat.add_assoc, ih h, row_write_ne (List.length_take_le ..) hne]

/-- The elements are written inside their rows. -/
theorem written_storeRows {x : Nat} (hx : x ∈ (storeRows result j ts).written) :
    x ∈ result.written ∨ x < rowSize * (j + ts.length) := by
  induction ts generalizing result j with
  | nil => exact .inl hx
  | cons t ts ih =>
    have htake := List.length_take_le rowSize t
    rw [List.length_cons]
    rcases ih hx with hx | hx
    · rcases Logged.mem_written_write.mp hx with hx | ⟨-, hx⟩
      · exact .inl hx
      · right
        unfold rowSize at *
        omega
    · right
      unfold rowSize at *
      omega

theorem clearRows_succ (result : Logged UInt8) (n : Nat) :
    clearRows result (n + 1) =
      (clearRows result n).write (rowSize * n) (List.replicate rowSize 0) := by
  rw [clearRows, List.range_succ, List.foldl_append]
  rfl

theorem clearRows_row {n : Nat} (hk : k < n) :
    row (clearRows result n) k = List.replicate rowSize 0 := by
  induction n with
  | zero => cases hk
  | succ n ih =>
    rw [clearRows_succ]
    by_cases hkn : n = k
    · rw [← hkn, row_write (by simp), List.drop_of_length_le (by simp [row]), List.append_nil]
    · rw [row_write_ne (by simp) hkn, ih (by omega)]

theorem written_clearRows {n x : Nat} (hx : x ∈ (clearRows result n).written) :
    x ∈ result.written ∨ x < rowSize * n := by
  induction n with
  | zero => exact .inl hx
  | succ n ih =>
    rw [clearRows_succ, Logged.mem_written_write, List.length_replicate] at hx
    rcases hx with hx | ⟨-, hx⟩
    · rcases ih hx with hx | hx
      · exact .inl hx
      · right
        unfold rowSize at *
        omega
    · right
      rwa [Nat.mul_succ]

end

/-! ### The table after the call -/

/-- The string in a row, if the row holds a terminator. -/
def rowString (result : Logged UInt8) (j : Nat) : Option (List UInt8) := stringAt (row result j) 0

section
variable {t : List UInt8} {ts : List (List UInt8)} {table : Mem UInt8} {maxElementNum i : Nat}

/-- The table after `ts` was stored in it. -/
abbrev stored (table : Mem UInt8) (maxElementNum : Nat) (ts : List (List UInt8)) : Logged UInt8 :=
  storeRows (clearRows (.start table) maxElementNum) 0 ts

theorem stored_row (h : ts[i]? = some t) :
    row (stored table maxElementNum ts) i = t.take rowSize ++
      (row (clearRows (.start table) maxElementNum) i).drop (t.take rowSize).length := by
  have hrow : row (stored table maxElementNum ts) (0 + i) = _ := storeRows_row h
  rwa [Nat.zero_add] at hrow

/-- An element that leaves room for its terminator has one. -/
theorem rowString_of_short (h : ts[i]? = some t) (hi : i < maxElementNum) (ht : t.length < rowSize)
    (hzero : 0 ∉ t) : rowString (stored table maxElementNum ts) i = some t := by
  have hrest : List.replicate (rowSize - t.length) (0 : UInt8) =
      0 :: List.replicate (rowSize - t.length - 1) 0 := by
    rw [← List.replicate_succ]
    congr 1
    omega
  rw [rowString, stored_row h, clearRows_row hi, List.take_of_length_le (Nat.le_of_lt ht),
    List.drop_replicate, hrest]
  exact stringAt_zero hzero _

/-- An element of 32 characters or more has no terminator in its row. -/
theorem rowString_of_long (h : ts[i]? = some t) (ht : rowSize ≤ t.length) (hzero : 0 ∉ t) :
    rowString (stored table maxElementNum ts) i = none := by
  have hfull : (t.take rowSize).length = rowSize := by
    rw [List.length_take]
    omega
  rw [rowString, stored_row h, hfull, List.drop_of_length_le (by simp [row]), List.append_nil]
  apply stringAt_eq_none
  intro hmem
  exact hzero (List.mem_of_mem_take hmem)

/-- A row behind the elements is empty. -/
theorem rowString_of_empty (h : ts.length ≤ i) (hi : i < maxElementNum) :
    rowString (stored table maxElementNum ts) i = some [] := by
  rw [rowString, storeRows_other (.inr (by omega)), clearRows_row hi]
  exact stringAt_zero List.not_mem_nil _

end

/-- The elements of a C string. -/
abbrev elements (delims str : CString) : List (List UInt8) :=
  runs (fun c => c ∈ delims.chars) str.chars

theorem zero_notMem_element {delims str : CString} {t : List UInt8} (ht : t ∈ elements delims str) :
    0 ∉ t :=
  fun h => str.zero_notMem (mem_of_mem_runs ht 0 h)

/-- The call has kept to its table of `maxElementNum` rows: it wrote nowhere else, it returned at
most as many, and each of these many rows holds a string that is the beginning of its element. -/
def KeepsTable (maxElementNum : Nat) (ts : List (List UInt8)) (out : Splite) : Prop :=
  (∀ a ∈ out.result.written, a < rowSize * maxElementNum) ∧ out.ret ≤ maxElementNum ∧
    ∀ j < out.ret, ∃ s t, rowString out.result j = some s ∧ s.length ≤ 31 ∧ ts[j]? = some t ∧
      s <+: t

/-- For every string that is not empty, all delimiters and every table: `c_splite` returns, and it
keeps to its table exactly if the string has no more elements than the table has rows and none of
them has more than 31 characters. -/
theorem cSplite_keepsTable (str delims : CString) (junk : List UInt8) (table : Mem UInt8)
    (maxElementNum : Nat) (hne : str.chars ≠ []) :
    ∃ out, cSplite (str.chars ++ 0 :: junk) delims.chars table maxElementNum = some out ∧
      (KeepsTable maxElementNum (elements delims str) out ↔
        (elements delims str).length ≤ maxElementNum ∧
          ∀ t ∈ elements delims str, t.length ≤ 31) := by
  refine ⟨_, cSplite_eq hne delims junk table maxElementNum, ?_⟩
  constructor
  · rintro ⟨-, hret, hrows⟩
    refine ⟨hret, fun t ht => ?_⟩
    by_contra hlong
    obtain ⟨i, hi, hget⟩ := List.getElem_of_mem ht
    obtain ⟨s, t', hstring, -⟩ := hrows i hi
    have hnone : rowString (stored table maxElementNum (elements delims str)) i = none :=
      rowString_of_long (List.getElem?_eq_some_iff.mpr ⟨hi, hget⟩) (by unfold rowSize; omega)
        (zero_notMem_element ht)
    cases hnone.symm.trans hstring
  · rintro ⟨hnum, hlen⟩
    refine ⟨fun a ha => ?_, hnum, fun j hj => ?_⟩
    · rcases written_storeRows ha with ha | ha
      · rcases written_clearRows ha with ha | ha
        · cases ha
        · exact ha
      · rw [Nat.zero_add] at ha
        exact Nat.lt_of_lt_of_le ha (Nat.mul_le_mul_left _ hnum)
    · have hget := List.getElem?_eq_getElem hj
      have hmem := List.getElem_mem hj
      have hj' : j < maxElementNum := Nat.lt_of_lt_of_le hj hnum
      refine ⟨_, _, rowString_of_short hget hj' ?_ (zero_notMem_element hmem), hlen _ hmem, hget,
        List.prefix_refl _⟩
      have hle := hlen _ hmem
      unfold rowSize
      omega

/-- The string `a b` in a table of two rows. -/
theorem cSplite_keepsTable_twoElements :
    ∃ out, cSplite (['a'.toUInt8, ' '.toUInt8, 'b'.toUInt8] ++ [0]) [' '.toUInt8] (fun _ => 7) 2 =
        some out ∧
      KeepsTable 2 [['a'.toUInt8], ['b'.toUInt8]] out := by
  have hruns : elements ⟨[' '.toUInt8], by decide⟩
      ⟨['a'.toUInt8, ' '.toUInt8, 'b'.toUInt8], by decide⟩ = [['a'.toUInt8], ['b'.toUInt8]] := by
    decide
  obtain ⟨out, hout, hkeeps⟩ := cSplite_keepsTable
    ⟨['a'.toUInt8, ' '.toUInt8, 'b'.toUInt8], by decide⟩ ⟨[' '.toUInt8], by decide⟩ []
    (fun _ => 7) 2 (by decide)
  rw [hruns] at hkeeps
  exact ⟨out, hout, hkeeps.mpr (by decide)⟩

/-- The string `a b` in a table of one row: 2 is returned, and `b` written behind the table. And 32
characters in a row of 32: the row has no terminator. -/
theorem element_not_kept :
    (∃ out, cSplite (['a'.toUInt8, ' '.toUInt8, 'b'.toUInt8] ++ [0]) [' '.toUInt8] (fun _ => 7) 1 =
        some out ∧
      out.ret = 2 ∧ 32 ∈ out.result.written ∧
        ¬ KeepsTable 1 [['a'.toUInt8], ['b'.toUInt8]] out) ∧
    ∃ out, cSplite (List.replicate 32 'a'.toUInt8 ++ [0]) [' '.toUInt8] (fun _ => 7) 1 = some out ∧
      rowString out.result 0 = none ∧ ¬ KeepsTable 1 [List.replicate 32 'a'.toUInt8] out := by
  constructor
  · refine ⟨_, rfl, by decide, by decide, fun h => ?_⟩
    exact absurd h.2.1 (by decide)
  · refine ⟨_, rfl, by decide, fun h => ?_⟩
    obtain ⟨s, t, hs, -⟩ := h.2.2 0 (by decide)
    cases hs

/-- For every string that is not empty and all delimiters: if its elements fit the table, `c_splite`
returns their number, the rows hold them one after another, none of them empty, and the other rows
are empty strings. -/
theorem cSplite_splits (str delims : CString) (junk : List UInt8) (table : Mem UInt8)
    (maxElementNum : Nat) (hne : str.chars ≠ [])
    (hnum : (elements delims str).length ≤ maxElementNum)
    (hlen : ∀ t ∈ elements delims str, t.length ≤ 31) :
    ∃ out, cSplite (str.chars ++ 0 :: junk) delims.chars table maxElementNum = some out ∧
      out.ret = (elements delims str).length ∧
      (∀ j (hj : j < (elements delims str).length),
        rowString out.result j = some (elements delims str)[j]) ∧
      (∀ j, (elements delims str).length ≤ j → j < maxElementNum →
        rowString out.result j = some []) ∧
      [] ∉ elements delims str := by
  refine ⟨_, cSplite_eq hne delims junk table maxElementNum, rfl, fun j hj => ?_,
    fun j hj hj' => rowString_of_empty hj hj', nil_notMem_runs _⟩
  have hmem := List.getElem_mem hj
  have hle := hlen _ hmem
  have hshort : (elements delims str)[j].length < rowSize := by
    unfold rowSize
    omega
  exact rowString_of_short (List.getElem?_eq_getElem hj) (Nat.lt_of_lt_of_le hj hnum) hshort
    (zero_notMem_element hmem)

/-- The string ` a  b ` in a table of three rows. -/
theorem cSplite_splits_twoElements :
    ∃ out, cSplite ([' '.toUInt8, 'a'.toUInt8, ' '.toUInt8, ' '.toUInt8, 'b'.toUInt8, ' '.toUInt8] ++
        [0]) [' '.toUInt8] (fun _ => 7) 3 = some out ∧
      out.ret = 2 ∧ rowString out.result 0 = some ['a'.toUInt8] ∧
      rowString out.result 1 = some ['b'.toUInt8] ∧ rowString out.result 2 = some [] := by
  have hruns : elements ⟨[' '.toUInt8], by decide⟩
      ⟨[' '.toUInt8, 'a'.toUInt8, ' '.toUInt8, ' '.toUInt8, 'b'.toUInt8, ' '.toUInt8], by decide⟩ =
      [['a'.toUInt8], ['b'.toUInt8]] := by
    decide
  obtain ⟨out, hout, hret, hrows, hempty, -⟩ := cSplite_splits
    ⟨[' '.toUInt8, 'a'.toUInt8, ' '.toUInt8, ' '.toUInt8, 'b'.toUInt8, ' '.toUInt8], by decide⟩
    ⟨[' '.toUInt8], by decide⟩ [] (fun _ => 7) 3 (by decide) (by decide) (by decide)
  exact ⟨out, hout, hret, hrows 0 (by decide), hrows 1 (by decide), hempty 2 (by decide) (by decide)⟩

end ITrace.CstringExternLib
