import Mathlib.Algebra.Group.Nat.Defs
import Mathlib.Tactic.Common

/-!
# Machine words

The operations on words of 32 bits that neither wrap nor fail, and what they come to in exact
arithmetic.  Signed words of 64 bits are integers in their range.

## Main definitions

* `Word.saturatingAdd` — addition that stops at the greatest word.
* `Word.checkedShl` — a shift by less than the width.
* `Word.clampI64`, `Word.saturatingSubI64` — signed numbers, stopped at the ends of the range.

## Main results

* `Word.toNat_saturatingAdd`, `Word.checkedShl_one` — what they come to.
-/

namespace Machine

namespace Word

/-- The greatest `u32`. -/
def maxU32 : UInt32 := 4294967295

/-- `u32::saturating_add`. -/
def saturatingAdd (a b : UInt32) : UInt32 :=
  if a.toNat + b.toNat < 4294967296 then a + b else maxU32

theorem toNat_saturatingAdd (a b : UInt32) :
    (saturatingAdd a b).toNat = min (a.toNat + b.toNat) 4294967295 := by
  rw [saturatingAdd]
  split
  · next h =>
    rw [UInt32.toNat_add, Nat.mod_eq_of_lt h]
    omega
  · next h =>
    show 4294967295 = _
    omega

/-- `u32::checked_shl`. -/
def checkedShl (a n : UInt32) : Option UInt32 := if n < 32 then some (a <<< n) else none

/-- One is shifted to a power of two, -/
theorem toNat_one_shl {n : UInt32} (h : n < 32) : ((1 : UInt32) <<< n).toNat = 2 ^ n.toNat := by
  have hn : n.toNat < 32 := UInt32.lt_iff_toNat_lt.mp h
  have hpow : 2 ^ n.toNat < 2 ^ 32 := Nat.pow_lt_pow_right (by decide) hn
  rw [UInt32.toNat_shiftLeft, Nat.mod_eq_of_lt hn, Nat.shiftLeft_eq, UInt32.toNat_one,
    Nat.one_mul, Nat.mod_eq_of_lt hpow]

/-- as long as the power is a word. -/
theorem checkedShl_one (n : UInt32) :
    ((checkedShl 1 n).map UInt32.toNat) = if n.toNat < 32 then some (2 ^ n.toNat) else none := by
  rw [checkedShl]
  by_cases h : n < 32
  · have hn : n.toNat < 32 := UInt32.lt_iff_toNat_lt.mp h
    rw [if_pos h, if_pos hn, Option.map_some, toNat_one_shl h]
  · have hn : ¬ n.toNat < 32 := fun hn => h (UInt32.lt_iff_toNat_lt.mpr hn)
    rw [if_neg h, if_neg hn, Option.map_none]

/-- The integer is an `i64`. -/
def InI64 (n : ℤ) : Prop := -9223372036854775808 ≤ n ∧ n ≤ 9223372036854775807

/-- The nearest `i64`. -/
def clampI64 (n : ℤ) : ℤ := max (-9223372036854775808) (min 9223372036854775807 n)

/-- `i64::saturating_sub`. -/
def saturatingSubI64 (a b : ℤ) : ℤ := clampI64 (a - b)

end Word

end Machine
