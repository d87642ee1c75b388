import ITrace.Misc.CString
import ITrace.Misc.Int32

/-!
# Upper and lower case

`str2upper` and `str2lower` of `cstring_extern_lib/cstring_extern_lib.c`, with `toupper` and
`tolower` as in the "C" locale. The string is at the beginning of an array, of which a pointer is an
index. A result of `none` stands for a read outside the array, or for a loop with too few turns.
-/

namespace ITrace.CstringExternLib

open ITrace

def toupper (c : UInt8) : UInt8 := if 'a'.toUInt8 ≤ c ∧ c ≤ 'z'.toUInt8 then c - 32 else c

def tolower (c : UInt8) : UInt8 := if 'A'.toUInt8 ≤ c ∧ c ≤ 'Z'.toUInt8 then c + 32 else c

/-- The loop of `str2upper`, with `i` one less than the argument. -/
def upperLoop : Nat → List UInt8 → Option (List UInt8)
  | 0, src => some src
  | i + 1, src => do
    let c ← src[i]?
    upperLoop i (src.set i (toupper c))

/-- `str2upper` (`cstring_extern_lib.c:31-42`): what it returns, `none` for `NULL`, and the
array. -/
def str2upper (src : List UInt8) : Option (Option Nat × List UInt8) := do
  let len ← strlen src 0
  let i := int32 (len - 1)
  if i < 0 then some (none, src)
  else
    let src ← upperLoop (i.toNat + 1) src
    some (some 0, src)

/-- The loop of `str2lower` at the pointer `p`, in at most `turns` turns. -/
def lowerLoop : Nat → Nat → List UInt8 → Option (List UInt8)
  | 0, _, _ => none
  | turns + 1, p, src => do
    let c ← src[p]?
    if c ≠ 0 then lowerLoop turns (p + 1) (src.set p (tolower c)) else some src

/-- `str2lower` (`cstring_extern_lib.c:44-53`). -/
def str2lower (src : List UInt8) : Option (Option Nat × List UInt8) := do
  let origin := 0
  let src ← lowerLoop (src.length + 1) origin src
  some (some origin, src)

/-- A call of the one or the other. -/
inductive Conversion where
  | upper
  | lower
  deriving DecidableEq

def Conversion.call (src : List UInt8) : Conversion → Option (Option Nat × List UInt8)
  | .upper => str2upper src
  | .lower => str2lower src

/-- What it does to a character. -/
def Conversion.char : Conversion → UInt8 → UInt8
  | .upper => toupper
  | .lower => tolower

/-- Calls one after another on one array. -/
def convertAll (src : List UInt8) (ops : List Conversion) : Option (List UInt8) :=
  ops.foldlM (fun src op => (op.call src).map Prod.snd) src

end ITrace.CstringExternLib
