import ITrace.Misc.Hex

/-!
# Printing bytes in hexadecimal

`print_as_hex` of `cstring_extern_lib/cstring_extern_lib.c`. A result of `none` stands for a read
outside the array that was passed, or for a remainder by zero.
-/

namespace ITrace.CstringExternLib

open ITrace

/-- What follows the byte `i`. The remainder has the sign of `i + 1`. -/
def separator (num : Int) (i : Nat) : UInt8 :=
  if ((i : Int) + 1).tmod num ≠ 0 then ' '.toUInt8 else '\n'.toUInt8

/-- The loop, from byte `i` on. -/
def printHexLoop (newData : List UInt8) (num : Int) : Nat → Nat → Option (List UInt8)
  | 0, _ => some []
  | left + 1, i => do
    let c ← newData[i]?
    if num = 0 then none
    else
      let rest ← printHexLoop newData num left (i + 1)
      some (hexByte c ++ separator num i :: rest)

/-- `print_as_hex` (`cstring_extern_lib.c:80-95`): what it prints. -/
def printAsHex (data : Option (List UInt8)) (len : Int) (numPerLine : Option Int) :
    Option (List UInt8) :=
  match data with
  | none => some []
  | some newData => printHexLoop newData (numPerLine.getD 16) len.toNat 0

end ITrace.CstringExternLib
