import RocketSocket.Model.Protocol
import Mathlib.Data.List.Basic

/-!
# Timestamps

`datetime.rs`: a point in time that is read from every shape a server uses for a date and
always written as `{"$date": millis}`.  Writing rounds down to a millisecond, and a date read
from text may lie outside the years that milliseconds are read back for, so not every timestamp
is read back from what it is written to.

The reading of RFC 3339 text is `OffsetDateTime::parse` of the `time` crate and is a parameter
here.

## Main definitions

* `Timestamp` — a point in time.
* `Timestamp.fromUnixMillis`, `Timestamp.unixMillis` — from and to milliseconds.
* `Timestamp.visit` — what `TimestampVisitor` reads.
* `Timestamp.toValue` — the EJSON form.
* `Timestamp.InRange`, `Timestamp.WholeMillis` — what decides what becomes of a timestamp.

## Main results

* `fromUnixMillis_unixMillis_isSome`, `fromUnixMillis_unixMillis_eq_some` — **a timestamp is
  read back if it is in range, and unchanged just if it has whole milliseconds as well.**
-/

namespace RocketSocket

namespace Timestamp

/-- `NANOS_PER_MILLI`. -/
def nanosPerMilli : ℤ := 1000000

/-- The start of the year -9999, the first instant in UTC. -/
def minNanos : ℤ := -377705116800000000000

/-- The end of the year 9999, the last instant in UTC. -/
def maxNanos : ℤ := 253402300799999999999

/-- An offset from UTC is less than 26 hours. -/
def maxOffset : ℤ := 93600000000000

end Timestamp

/-- A point in time, in nanoseconds since the epoch.  Local times are within the years ±9999,
so the instant may lie an offset outside of these.  The offset itself is not kept: two
timestamps are equal if they are the same instant. -/
structure Timestamp where
  nanos : ℤ
  representable : Timestamp.minNanos - Timestamp.maxOffset ≤ nanos ∧
    nanos ≤ Timestamp.maxNanos + Timestamp.maxOffset
  deriving DecidableEq, Repr

/-- The least `i64`. -/
def minI64 : ℤ := -9223372036854775808

/-- The greatest `i64`. -/
def maxI64 : ℤ := 9223372036854775807

/-- An `i64`, read from a number without a fraction. -/
def Value.asI64 : Value → Option ℤ
  | .int n => if minI64 ≤ n ∧ n ≤ maxI64 then some n else none
  | _ => none

/-- `trunc() as i64` of the double with the given bits, if it is finite. -/
def truncDouble (bits : UInt64) : Option ℤ :=
  let exponent := bits.toNat / 4503599627370496 % 2048
  let mantissa := bits.toNat % 4503599627370496 + 4503599627370496
  -- The value is `mantissa * 2 ^ (exponent - 1075)`; below exponent 1 it is no whole number.
  let magnitude := if exponent < 1075 then mantissa >>> (1075 - exponent)
    else mantissa <<< (exponent - 1075)
  if exponent = 2047 then none
  else if bits.toNat < 9223372036854775808 then some (min (magnitude : ℤ) maxI64)
  else some (max (-(magnitude : ℤ)) minI64)

namespace Timestamp

/-- The timestamp is in the range that milliseconds are read for. -/
def InRange (t : Timestamp) : Prop := minNanos ≤ t.nanos ∧ t.nanos ≤ maxNanos

instance (t : Timestamp) : Decidable t.InRange := inferInstanceAs (Decidable (_ ∧ _))

/-- The timestamp has no fraction of a millisecond. -/
def WholeMillis (t : Timestamp) : Prop := t.nanos % nanosPerMilli = 0

instance (t : Timestamp) : Decidable t.WholeMillis := inferInstanceAs (Decidable (_ = _))

theorem representable_of_le {nanos : ℤ} (h : minNanos ≤ nanos ∧ nanos ≤ maxNanos) :
    minNanos - maxOffset ≤ nanos ∧ nanos ≤ maxNanos + maxOffset := by
  unfold minNanos maxNanos at h
  unfold minNanos maxNanos maxOffset
  omega

/-- The timestamp of a number of milliseconds, if it is in range. -/
def fromUnixMillis (millis : ℤ) : Option Timestamp :=
  if h : minNanos ≤ millis * nanosPerMilli ∧ millis * nanosPerMilli ≤ maxNanos then
    some ⟨millis * nanosPerMilli, representable_of_le h⟩
  else none

/-- The milliseconds of a timestamp, rounded down. -/
def unixMillis (t : Timestamp) : ℤ := t.nanos / nanosPerMilli

/-- The EJSON form. -/
def toValue (t : Timestamp) : Value := .object [("$date", .int t.unixMillis)]

section Visit

variable (parse : String → Option Timestamp)

mutual

/-- What the visitor reads: nothing, `none`, from a value that is no date, and `some none` from
the forms of `null`. -/
def visit : Value → Option (Option Timestamp)
  | .null => some none
  | .bool _ => none
  | .int n => ((Value.int n).asI64.bind fromUnixMillis).map some
  | .float bits => ((truncDouble bits).bind fromUnixMillis).map some
  | .string s => (parse s).map some
  | .array _ => none
  | .object members => visitMap none members

/-- The members of an object: the last `$date` counts, and each has to be read. -/
def visitMap (found : Option (Option Timestamp)) :
    List (String × Value) → Option (Option Timestamp)
  | [] => found
  | (key, value) :: members =>
    if key = "$date" then
      match visit value with
      | some date => visitMap (some date) members
      | none => none
    else visitMap found members

end

/-- A timestamp that has to be there: the forms of `null` are refused. -/
def ofValue (value : Value) : Option Timestamp := (visit parse value).join

end Visit

/-! ### Reading back what was written -/

/-- The milliseconds of every timestamp fit an `i64`. -/
theorem asI64_unixMillis (t : Timestamp) :
    (Value.int t.unixMillis).asI64 = some t.unixMillis := by
  have h := t.representable
  refine if_pos ?_
  unfold unixMillis minI64 maxI64
  simp only [minNanos, maxNanos, maxOffset, nanosPerMilli] at h ⊢
  omega

theorem visit_toValue (parse : String → Option Timestamp) (t : Timestamp) :
    visit parse t.toValue = (fromUnixMillis t.unixMillis).map some := by
  have hdate : visit parse (.int t.unixMillis) = (fromUnixMillis t.unixMillis).map some := by
    rw [visit, asI64_unixMillis, Option.bind_some]
  rw [toValue, visit, visitMap, if_pos rfl, hdate]
  cases fromUnixMillis t.unixMillis with
  | none => rfl
  | some t' => rfl

theorem fromUnixMillis_unixMillis_isSome (t : Timestamp) :
    (fromUnixMillis t.unixMillis).isSome ↔ t.InRange := by
  have hiff : (minNanos ≤ t.unixMillis * nanosPerMilli ∧
      t.unixMillis * nanosPerMilli ≤ maxNanos) ↔ t.InRange := by
    unfold InRange unixMillis
    simp only [minNanos, maxNanos, nanosPerMilli]
    omega
  unfold fromUnixMillis
  split
  · next h => exact ⟨fun _ => hiff.mp h, fun _ => rfl⟩
  · next h => exact ⟨fun hsome => absurd hsome (by simp), fun hrange => absurd (hiff.mpr hrange) h⟩

theorem fromUnixMillis_unixMillis_eq_some (t : Timestamp) :
    fromUnixMillis t.unixMillis = some t ↔ t.InRange ∧ t.WholeMillis := by
  have hwhole : t.unixMillis * nanosPerMilli = t.nanos ↔ t.WholeMillis := by
    unfold unixMillis WholeMillis
    simp only [nanosPerMilli]
    omega
  constructor
  · intro h
    refine ⟨(fromUnixMillis_unixMillis_isSome t).mp (h ▸ rfl), hwhole.mp ?_⟩
    unfold fromUnixMillis at h
    split at h
    · exact congrArg Timestamp.nanos (Option.some.inj h)
    · cases h
  · rintro ⟨hrange, hmillis⟩
    obtain ⟨t', ht'⟩ :=
      Option.isSome_iff_exists.mp ((fromUnixMillis_unixMillis_isSome t).mpr hrange)
    rw [ht']
    unfold fromUnixMillis at ht'
    split at ht'
    · obtain rfl := Option.some.inj ht'
      obtain ⟨nanos, hrep⟩ := t
      simp only [Option.some.injEq, mk.injEq]
      exact hwhole.mpr hmillis
    · cases ht'

/-! ### The forms of a date -/

section Forms

variable {parse : String → Option Timestamp} {members : List (String × Value)}
  {found : Option (Option Timestamp)}

/-- Other members are skipped, -/
theorem visitMap_skip (h : "$date" ∉ members.map Prod.fst) :
    visitMap parse found members = found := by
  induction members with
  | nil => rw [visitMap]
  | cons member members ih =>
    obtain ⟨key, value⟩ := member
    rw [List.map_cons, List.mem_cons, not_or] at h
    rw [visitMap, if_neg (Ne.symm h.1), ih h.2]

theorem visitMap_append {front : List (String × Value)} (h : "$date" ∉ front.map Prod.fst) :
    visitMap parse found (front ++ members) = visitMap parse found members := by
  induction front with
  | nil => rfl
  | cons member front ih =>
    obtain ⟨key, value⟩ := member
    rw [List.map_cons, List.mem_cons, not_or] at h
    rw [List.cons_append, visitMap, if_neg (Ne.symm h.1), ih h.2]

/-- so that an object is the date in it. -/
theorem visit_object {front back : List (String × Value)} {value : Value}
    (hfront : "$date" ∉ front.map Prod.fst) (hback : "$date" ∉ back.map Prod.fst) :
    visit parse (.object (front ++ ("$date", value) :: back)) = visit parse value := by
  rw [visit, visitMap_append hfront, visitMap, if_pos rfl]
  cases visit parse value with
  | none => rfl
  | some date => exact visitMap_skip hback

end Forms

theorem unixMillis_of_fromUnixMillis {millis : ℤ} {t : Timestamp}
    (h : fromUnixMillis millis = some t) :
    t.nanos = millis * nanosPerMilli ∧ t.unixMillis = millis := by
  unfold fromUnixMillis at h
  split at h
  · cases h
    refine ⟨rfl, ?_⟩
    unfold unixMillis
    simp only [nanosPerMilli]
    omega
  · cases h

/-- **Timestamps round-trip on whole milliseconds and are rounded down otherwise.** -/
theorem round_trip (parse : String → Option Timestamp) :
    (∀ millis, minNanos ≤ millis * nanosPerMilli → millis * nanosPerMilli ≤ maxNanos →
      ∃ t, fromUnixMillis millis = some t ∧ t.unixMillis = millis) ∧
    (∀ t : Timestamp, t.InRange → ∃ t', ofValue parse t.toValue = some t' ∧
      t'.nanos = t.nanos / nanosPerMilli * nanosPerMilli ∧
      ofValue parse t'.toValue = some t') ∧
    (∀ t t' : Timestamp, t.nanos ≤ t'.nanos → t.unixMillis ≤ t'.unixMillis) ∧
    ∀ (millis : ℤ) (front back : List (String × Value)), "$date" ∉ front.map Prod.fst →
      "$date" ∉ back.map Prod.fst →
      ofValue parse (.object (front ++ ("$date", .int millis) :: back)) =
          ofValue parse (.int millis) ∧
        ofValue parse (.object [("$date", .int millis)]) = ofValue parse (.int millis) := by
  -- What is read back is the number of whole milliseconds.
  have hdecode : ∀ t : Timestamp, ofValue parse t.toValue = fromUnixMillis t.unixMillis := by
    intro t
    rw [ofValue, visit_toValue]
    cases fromUnixMillis t.unixMillis <;> rfl
  refine ⟨?_, ?_, ?_, ?_⟩
  · intro millis hlow hhigh
    exact ⟨_, dif_pos ⟨hlow, hhigh⟩, (unixMillis_of_fromUnixMillis (dif_pos ⟨hlow, hhigh⟩)).2⟩
  · intro t hrange
    -- Rounding down leaves the time in range.
    obtain ⟨t', ht'⟩ :=
      Option.isSome_iff_exists.mp ((fromUnixMillis_unixMillis_isSome t).mpr hrange)
    obtain ⟨hnanos, hmillis⟩ := unixMillis_of_fromUnixMillis ht'
    refine ⟨t', (hdecode t).trans ht', hnanos, ?_⟩
    rw [hdecode, hmillis, ht']
  · intro t t' hle
    exact Int.ediv_le_ediv (by decide) hle
  · intro millis front back hfront hback
    have hnil : "$date" ∉ ([] : List (String × Value)).map Prod.fst := List.not_mem_nil
    constructor
    · rw [ofValue, visit_object hfront hback]
      rfl
    · exact congrArg Option.join (visit_object hnil hnil)

end Timestamp

end RocketSocket
