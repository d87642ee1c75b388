import Mathlib.Algebra.Group.Nat.Defs
import Mathlib.Algebra.Ring.Int.Defs

/-!
# The type `int`

A value converted to an `int` of 32 bits.
-/

namespace ITrace

/-- A value as an `int`. -/
@[irreducible] def int32 (x : Int) : Int := x.bmod (2 ^ 32)

theorem int32_of_lt {x : Int} (hnonneg : 0 ≤ x) (hlt : x < 2 ^ 31) : int32 x = x := by
  unfold int32
  exact Int.bmod_eq_of_le (by omega) (by omega)

/-- From 2^31 on a value comes out negative. -/
theorem int32_of_ge {x : Int} (hge : 2 ^ 31 ≤ x) (hlt : x < 2 ^ 32) : int32 x = x - 2 ^ 32 := by
  unfold int32
  rw [← Int.sub_bmod_right]
  exact Int.bmod_eq_of_le (by omega) (by omega)

theorem int32_neg_one : int32 (-1) = -1 := by
  unfold int32
  decide

theorem int32_lt (x : Int) : int32 x < 2 ^ 31 := by
  unfold int32
  exact Int.bmod_lt (by decide)

/-- A sum that wrapped on the way is the sum that wraps at the end. -/
theorem int32_add (x y : Int) : int32 (int32 x + y) = int32 (x + y) := by
  unfold int32
  exact Int.bmod_add_bmod

end ITrace
