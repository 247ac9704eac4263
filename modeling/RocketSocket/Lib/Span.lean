import RocketSocket.Lib.Word

/-!
# Spans of time

`Duration` of the standard library: whole seconds in a word of 64 bits, and the nanoseconds of
one more.  Its operations are computed on the two parts; each is related to the number of
nanoseconds the span has.

## Main definitions

* `Span` — the seconds and the nanoseconds.
* `Span.checkedMul`, `Span.saturatingMul`, `Span.min`, `Span.asMillis`, `Span.ofMillis` — the
  operations.

## Main results

* `Span.toNanos_saturatingMul`, `Span.toNanos_min`, `Span.asMillis_eq`, `Span.toNanos_ofMillis`
  — what they come to in nanoseconds.
-/

namespace Machine

/-- A span of time. -/
structure Span where
  secs : ℕ
  nanos : ℕ
  /-- The seconds are a `u64`. -/
  secs_lt : secs < 18446744073709551616
  nanos_lt : nanos < 1000000000
  deriving DecidableEq, Repr

namespace Span

/-- The span in nanoseconds. -/
def toNanos (s : Span) : ℕ := s.secs * 1000000000 + s.nanos

/-- `Duration::ZERO`. -/
def zero : Span := ⟨0, 0, by decide, by decide⟩

/-- `Duration::MAX`. -/
def max : Span := ⟨18446744073709551615, 999999999, by decide, by decide⟩

/-- `Duration::from_secs`. -/
def ofSecs (secs : UInt64) : Span := ⟨secs.toNat, 0, secs.toNat_lt, by decide⟩

/-- `Duration::from_millis`. -/
def ofMillis (millis : UInt64) : Span where
  secs := millis.toNat / 1000
  nanos := millis.toNat % 1000 * 1000000
  secs_lt := Nat.lt_of_le_of_lt (Nat.div_le_self _ _) millis.toNat_lt
  nanos_lt := by omega

/-- `as_millis`, a `u128`. -/
def asMillis (s : Span) : ℕ := s.secs * 1000 + s.nanos / 1000000

/-- `Duration::checked_mul`: the nanoseconds are multiplied first and carried over. -/
def checkedMul (s : Span) (n : UInt32) : Option Span :=
  let total := s.nanos * n.toNat
  if h : s.secs * n.toNat + total / 1000000000 < 18446744073709551616 then
    some ⟨s.secs * n.toNat + total / 1000000000, total % 1000000000, h,
      Nat.mod_lt _ (by decide)⟩
  else none

/-- `Duration::saturating_mul`. -/
def saturatingMul (s : Span) (n : UInt32) : Span := (s.checkedMul n).getD max

/-- The order of the parts. -/
def ble (s t : Span) : Bool := s.secs < t.secs || (s.secs == t.secs && s.nanos ≤ t.nanos)

/-- `Ord::min`. -/
def min (s t : Span) : Span := if s.ble t then s else t

/-! ### In nanoseconds -/

variable (s t : Span)

theorem toNanos_lt : s.toNanos < 18446744073709551616000000000 := by
  have hsecs := s.secs_lt
  have hnanos := s.nanos_lt
  unfold toNanos
  omega

theorem ble_iff : s.ble t = true ↔ s.toNanos ≤ t.toNanos := by
  have hs := s.nanos_lt
  have ht := t.nanos_lt
  unfold ble toNanos
  simp only [Bool.or_eq_true, Bool.and_eq_true, decide_eq_true_iff, beq_iff_eq]
  omega

theorem toNanos_min : (s.min t).toNanos = Min.min s.toNanos t.toNanos := by
  unfold min
  split
  · next h => exact (Nat.min_eq_left ((ble_iff s t).mp h)).symm
  · next h =>
    rw [ble_iff] at h
    exact (Nat.min_eq_right (Nat.le_of_not_le h)).symm

theorem toNanos_ofMillis (millis : UInt64) :
    (ofMillis millis).toNanos = millis.toNat * 1000000 := by
  unfold ofMillis toNanos
  show millis.toNat / 1000 * 1000000000 + millis.toNat % 1000 * 1000000 = _
  omega

theorem asMillis_eq : s.asMillis = s.toNanos / 1000000 := by
  unfold asMillis toNanos
  omega

/-- What the two parts of a product add up to. -/
theorem mul_toNanos (n : ℕ) :
    s.toNanos * n = s.secs * n * 1000000000 + s.nanos * n := by
  rw [toNanos, Nat.add_mul, Nat.mul_right_comm]

/-- A product is found if it is a span, -/
theorem toNanos_of_checkedMul {n : UInt32} {s' : Span} (h : s.checkedMul n = some s') :
    s'.toNanos = s.toNanos * n.toNat := by
  have hmul := s.mul_toNanos n.toNat
  simp only [checkedMul] at h
  split at h
  · cases h
    show (s.secs * n.toNat + s.nanos * n.toNat / 1000000000) * 1000000000 +
      s.nanos * n.toNat % 1000000000 = _
    omega
  · cases h

/-- and one that is not found is longer than any. -/
theorem max_lt_of_checkedMul {n : UInt32} (h : s.checkedMul n = none) :
    max.toNanos < s.toNanos * n.toNat := by
  have hmul := s.mul_toNanos n.toNat
  have hmax : max.toNanos = 18446744073709551615999999999 := rfl
  simp only [checkedMul] at h
  split at h
  · cases h
  · next hlong => omega

theorem toNanos_le_max : s.toNanos ≤ max.toNanos := by
  have hlt := s.toNanos_lt
  have hmax : max.toNanos = 18446744073709551615999999999 := rfl
  omega

theorem toNanos_saturatingMul (n : UInt32) :
    (s.saturatingMul n).toNanos = Min.min (s.toNanos * n.toNat) max.toNanos := by
  rw [saturatingMul]
  cases h : s.checkedMul n with
  | none => exact (Nat.min_eq_right (Nat.le_of_lt (s.max_lt_of_checkedMul h))).symm
  | some s' =>
    have hle := s'.toNanos_le_max
    rw [s.toNanos_of_checkedMul h] at hle
    exact (s.toNanos_of_checkedMul h).trans (Nat.min_eq_left hle).symm

end Span

end Machine
