import ITrace.Misc.CString
import ITrace.Misc.WriteLog

/-!
# Trimming and splitting C strings

`cstring_trim` and `c_splite` of `cstring_extern_lib/cstring_extern_lib.c`. A result of `none` in
the model stands for a read outside the array that was passed, or for a loop with too few turns.
-/

namespace ITrace.CstringExternLib

open ITrace

/-! ### `c_splite` -/

/-- `sizeof(result[i])`: the table is `char result[][32]`, and `result[j]` begins at the address
`rowSize * j` of it. -/
def rowSize : Nat := 32

/-- The loop over `memset`. -/
def clearRows (result : Logged UInt8) (maxElementNum : Nat) : Logged UInt8 :=
  (List.range maxElementNum).foldl
    (fun result i => result.write (rowSize * i) (List.replicate rowSize 0)) result

/-- The inner loop from `i = rowSize - left` on. -/
def copyElement (buf : List UInt8) (element j : Nat) :
    Nat → Logged UInt8 → Option (Logged UInt8)
  | 0, result => some result
  | left + 1, result => do
    let i := rowSize - (left + 1)
    let len ← strlen buf element
    if i < len then
      let c ← buf[element + i]?
      copyElement buf element j left (result.write (rowSize * j + i) [c])
    else some result

/-- What `c_splite` returns, and the table after it. -/
structure Splite where
  ret : Nat
  result : Logged UInt8

/-- The outer loop, with what `strtok` returned last; at most `turns` turns. -/
def spliteLoop (delims : List UInt8) :
    Nat → Option Nat × Strtok → Nat → Logged UInt8 → Option Splite
  | 0, _, _, _ => none
  | _ + 1, (none, _), j, result => some ⟨j, result⟩
  | turns + 1, (some element, st), j, result => do
    let result ← copyElement st.buf element j rowSize result
    spliteLoop delims turns (st.next delims) (j + 1) result

/-- `c_splite` (`cstring_extern_lib.c:57-78`), with what the table holds before. The counters are no
`int`: `i` stays below `rowSize`, and `j` passes `max_element_num` before it can overflow. There
are fewer tokens than characters in `str`. -/
def cSplite (str delims : List UInt8) (result : Mem UInt8) (maxElementNum : Nat) :
    Option Splite := do
  let len ← strlen str 0
  if len = 0 then some ⟨0, .start result⟩
  else
    spliteLoop delims (str.length + 1) (strtok delims str) 0
      (clearRows (.start result) maxElementNum)

/-! ### `cstring_trim` -/

/-- `*p` for a pointer into the array, which may also point before it. -/
def deref (src : List UInt8) (p : Int) : Option UInt8 := if p < 0 then none else src[p.toNat]?

/-- The pointer a loop ends with, or `NULL` if the function returns it. -/
inductive Scan where
  | null
  | at (p : Int)
  deriving DecidableEq

/-- `while((*(start_ch) == ' '))`, in at most `turns` turns. -/
def skipLeading (src : List UInt8) : Nat → Nat → Option Scan
  | 0, _ => none
  | turns + 1, startCh => do
    let c ← deref src startCh
    if c = ' '.toUInt8 then
      let startCh := startCh + 1
      let len ← strlen src 0
      if startCh = len then some .null else skipLeading src turns startCh
    else some (.at startCh)

/-- `while((*(last_ch) == ' ') || (*(last_ch) == '\n'))`, in at most `turns` turns. -/
def dropTrailing (src : List UInt8) (startCh : Int) : Nat → Int → Option Scan
  | 0, _ => none
  | turns + 1, lastCh => do
    let c ← deref src lastCh
    if c = ' '.toUInt8 ∨ c = '\n'.toUInt8 then
      let lastCh := lastCh - 1
      if lastCh < startCh then some .null else dropTrailing src startCh turns lastCh
    else some (.at lastCh)

/-- `memcpy(dst, src + p, n)`. -/
def memcpy (dst src : List UInt8) (p n : Nat) : Option (List UInt8) :=
  if p + n ≤ src.length ∧ n ≤ dst.length then some ((src.drop p).take n ++ dst.drop n) else none

/-- `cstring_trim` (`cstring_extern_lib.c:2-29`): `some none` is `NULL`, and `some (some data)` a
pointer to the block that `malloc` returned, with its contents. -/
def cstringTrim (malloc : (size : Nat) → Vector UInt8 size) (src : List UInt8) :
    Option (Option (List UInt8)) := do
  let len ← strlen src 0
  if len = 0 then some none
  else
    match ← skipLeading src (len + 1) 0 with
    | .null => some none
    | .at startCh =>
      let rest ← strlen src startCh.toNat
      match ← dropTrailing src startCh (len + 1) (startCh + rest - 1) with
      | .null => some none
      | .at lastCh =>
        let size := (lastCh - startCh + 1).toNat
        let data ← memcpy (malloc (size + 1)).toList src startCh.toNat size
        if size < data.length then some (some (data.set size 0)) else none

end ITrace.CstringExternLib
