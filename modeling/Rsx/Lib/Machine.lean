import Mathlib

/-!
# Fixed-width integers

The programs modelled here compute in `i64` and `u32`.  Values are kept as `Int` and `Nat`; the
operations that can leave the range go through the functions below: `wrap64` is release-mode
arithmetic, `sat64` the `saturating_*` family, and `asU32` the `as u32` cast.
-/

namespace Rsx

variable {x : Int}

def i64Max : Int := 9223372036854775807

def i64Min : Int := -9223372036854775808

/-- Two's complement wrap-around, as `+`, `-` and `*` compute on `i64`. -/
def wrap64 (x : Int) : Int :=
  x.bmod 18446744073709551616

/-- `saturating_add` and `saturating_sub` on `i64`. -/
def sat64 (x : Int) : Int :=
  max i64Min (min x i64Max)

def wrap128 (x : Int) : Int :=
  x.bmod 340282366920938463463374607431768211456

def FitsI64 (x : Int) : Prop :=
  i64Min ≤ x ∧ x ≤ i64Max
  deriving Decidable

def tryI64 (x : Int) : Option Int :=
  if FitsI64 x then some x else none

def u64Max : Nat := 18446744073709551615

def satU64 (n : Nat) : Nat :=
  min n u64Max

def asU32 (x : Int) : Nat :=
  (x % 4294967296).toNat

theorem wrap64_of_mem (hmin : i64Min ≤ x) (hmax : x ≤ i64Max) : wrap64 x = x := by
  unfold i64Min at hmin
  unfold i64Max at hmax
  exact Int.bmod_eq_of_le (by omega) (by omega)

theorem sat64_of_mem (hmin : i64Min ≤ x) (hmax : x ≤ i64Max) : sat64 x = x := by
  unfold sat64
  rw [min_eq_left hmax, max_eq_right hmin]

theorem sat64_mem (x : Int) : i64Min ≤ sat64 x ∧ sat64 x ≤ i64Max := by
  unfold sat64 i64Min i64Max
  omega

theorem sat64_mono {y : Int} (h : x ≤ y) : sat64 x ≤ sat64 y :=
  max_le_max_left _ (min_le_min_right _ h)

theorem wrap64_of_fits (h : FitsI64 x) : wrap64 x = x :=
  wrap64_of_mem h.1 h.2

theorem sat64_of_fits (h : FitsI64 x) : sat64 x = x :=
  sat64_of_mem h.1 h.2

theorem tryI64_of_fits (h : FitsI64 x) : tryI64 x = some x :=
  if_pos h

theorem wrap64_of_nonneg (hmin : 0 ≤ x) (hmax : x ≤ i64Max) : wrap64 x = x :=
  wrap64_of_mem (by unfold i64Min; omega) hmax

theorem sat64_of_nonneg (hmin : 0 ≤ x) (hmax : x ≤ i64Max) : sat64 x = x :=
  sat64_of_mem (by unfold i64Min; omega) hmax

theorem asU32_of_lt (hmin : 0 ≤ x) (hmax : x < 4294967296) : asU32 x = x.toNat := by
  unfold asU32
  rw [Int.emod_eq_of_lt hmin hmax]

theorem asU32_lt (x : Int) : (asU32 x : Int) < 4294967296 := by
  unfold asU32
  omega

end Rsx
