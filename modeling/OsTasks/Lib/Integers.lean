import Mathlib.Algebra.Order.Ring.Int

/-!
# Integer conversions

The conversions of C between integer types, as functions of the mathematical integers: to
`size_t` (64 bits), to `uint32_t` and to `int` (32 bits, two's complement). A value that the
type can represent is not changed (`sizeT_of_fits`, `uint32_of_fits`, `int32_of_fits`).
-/

set_option autoImplicit false

namespace OsTasks.Lib

/-- An integer as a `size_t` of 64 bits. -/
def sizeT (x : Int) : Nat := (x % 2 ^ 64).toNat

/-- An integer as a `uint32_t`. -/
def uint32 (x : Int) : Nat := (x % 2 ^ 32).toNat

/-- An integer as an `int32_t`, in two's complement. -/
def int32 (x : Int) : Int := x.bmod (2 ^ 32)

theorem sizeT_of_fits {x : Nat} (fits : x < 2 ^ 64) : sizeT x = x := by
  rw [sizeT]
  omega

theorem uint32_of_fits {x : Nat} (fits : x < 2 ^ 32) : uint32 x = x := by
  rw [uint32]
  omega

theorem int32_of_fits {x : Int} (lower : -2 ^ 31 ≤ x) (upper : x < 2 ^ 31) : int32 x = x := by
  rw [int32]
  rw [Int.bmod_eq_emod]
  split <;> omega

end OsTasks.Lib
