import Mathlib.Algebra.Ring.Int.Defs
import Mathlib.Algebra.Ring.Nat
import Mathlib.Tactic.Common

/-- What a signed word of 64 bits holds of a sum or a product, in two's complement. -/
def Signed.int64 (x : Int) : Int := Int.bmod x (2 ^ 64)

namespace Signed

/-- A number that fits is held as it is. -/
theorem int64_eq {x : Int} (hlow : -2 ^ 63 ≤ x) (hhigh : x < 2 ^ 63) : int64 x = x := by
  apply Int.bmod_eq_of_le
  · omega
  · omega

theorem int64_bounds (x : Int) : -2 ^ 63 ≤ int64 x ∧ int64 x < 2 ^ 63 := by
  have hle : -(((2 ^ 64 : Nat) : Int) / 2) ≤ int64 x := Int.le_bmod (by decide)
  have hlt : int64 x < (((2 ^ 64 : Nat) : Int) + 1) / 2 := Int.bmod_lt (by decide)
  omega

/-- What is held is the number modulo the size of the word. -/
theorem dvd_int64_sub (x : Int) : (2 ^ 64 : Int) ∣ int64 x - x := Int.dvd_bmod_sub_self

end Signed
