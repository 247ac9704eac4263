import RocketSocket.Lib.Span
import RocketSocket.Rest.Answer

/-!
# How long to wait for the rate limiter

`RateLimit::retry_after_since`: the header of the server is an instant in milliseconds, signed and
not validated, and the clock may be anywhere.  The conversions are lossy at both ends, but the
wait is that of exact arithmetic.

## Main definitions

* `SystemTime` — a reading of the clock.
* `RateLimit.retryAfterSince` — the time to wait.

## Main results

* `headerI64_inI64` — what a header is parsed to.
* `RateLimit.toNanos_retryAfterSince` — the wait in exact arithmetic.
* `retryAfter_clamped` — **waits are clamped, and shrink as time goes on.**
-/

namespace RocketSocket

open Machine

/-! ### The clock -/

/-- A reading of the clock: whole seconds since the epoch, rounded down, and nanoseconds. -/
structure SystemTime where
  secs : ℤ
  nanos : ℕ
  secs_inI64 : Word.InI64 secs
  nanos_lt : nanos < 1000000000

namespace SystemTime

/-- Nanoseconds since the epoch. -/
def toNanos (t : SystemTime) : ℤ := t.secs * 1000000000 + t.nanos

/-- Whole milliseconds since the epoch, none before it. -/
def millis (t : SystemTime) : ℤ := max 0 (t.toNanos / 1000000)

/-- `duration_since(UNIX_EPOCH)`, unless it is before that. -/
def sinceEpoch (t : SystemTime) : Option Span :=
  if h : 0 ≤ t.secs then
    some ⟨t.secs.toNat, t.nanos, by have hsecs := t.secs_inI64.2; omega, t.nanos_lt⟩
  else none

theorem asMillis_sinceEpoch (t : SystemTime) :
    ((t.sinceEpoch.getD Span.zero).asMillis : ℤ) = t.millis := by
  have hnanos := t.nanos_lt
  rw [millis, toNanos, sinceEpoch, Span.asMillis_eq]
  split
  · show (((t.secs.toNat * 1000000000 + t.nanos) / 1000000 : ℕ) : ℤ) = _
    omega
  · show (0 : ℤ) = _
    omega

theorem millis_mono {t t' : SystemTime} (h : t.toNanos ≤ t'.toNanos) : t.millis ≤ t'.millis := by
  unfold millis
  omega

end SystemTime

/-! ### The wait -/

namespace RateLimit

/-- Ceiling of the wait. -/
def maxRetryAfter : Span := .ofSecs 3600

/-- How long to wait before retrying. -/
def retryAfterSince (r : RateLimit) (now : SystemTime) : Option Span := do
  let resetMs ← r.resetEpochMs
  let sinceEpoch := now.sinceEpoch.getD Span.zero
  let nowMs : ℤ :=
    if sinceEpoch.asMillis ≤ 9223372036854775807 then sinceEpoch.asMillis else 9223372036854775807
  let waitMs := Word.saturatingSubI64 resetMs nowMs
  if waitMs ≤ 0 then return Span.zero
  return (Span.ofMillis (UInt64.ofNat waitMs.natAbs)).min maxRetryAfter

variable {r : RateLimit} {reset : ℤ}

theorem retryAfterSince_eq (h : r.resetEpochMs = some reset) (now : SystemTime) :
    r.retryAfterSince now = some
      (if Word.saturatingSubI64 reset (min 9223372036854775807 now.millis) ≤ 0 then Span.zero
      else (Span.ofMillis (UInt64.ofNat
        (Word.saturatingSubI64 reset (min 9223372036854775807 now.millis)).natAbs)).min
          maxRetryAfter) := by
  have hmillis := now.asMillis_sinceEpoch
  have hnow : (if (now.sinceEpoch.getD Span.zero).asMillis ≤ 9223372036854775807 then
      ((now.sinceEpoch.getD Span.zero).asMillis : ℤ) else 9223372036854775807) =
        min 9223372036854775807 now.millis := by
    split <;> omega
  simp only [retryAfterSince, h, hnow, Option.bind_eq_bind, Option.bind_some]
  split <;> rfl

/-- The wait in exact arithmetic: where a conversion loses something the window is over. -/
theorem toNanos_retryAfterSince (h : r.resetEpochMs = some reset) (hreset : Word.InI64 reset)
    (now : SystemTime) : ∃ wait, r.retryAfterSince now = some wait ∧
      (wait.toNanos : ℤ) = 1000000 * max 0 (min 3600000 (reset - now.millis)) := by
  have hnow : 0 ≤ now.millis := Int.le_max_left _ _
  obtain ⟨hlow, hhigh⟩ := hreset
  refine ⟨_, retryAfterSince_eq h now, ?_⟩
  have hwait : Word.saturatingSubI64 reset (min 9223372036854775807 now.millis) =
      max (-9223372036854775808) (reset - min 9223372036854775807 now.millis) := by
    unfold Word.saturatingSubI64 Word.clampI64
    omega
  rw [hwait]
  split
  · show (0 : ℤ) = _
    omega
  · next hpos =>
    have hmax : maxRetryAfter.toNanos = 3600000000000 := by decide
    have hword : (max (-9223372036854775808)
        (reset - min 9223372036854775807 now.millis)).natAbs < 18446744073709551616 := by omega
    rw [Span.toNanos_min, Span.toNanos_ofMillis, UInt64.toNat_ofNat_of_lt' hword, hmax]
    omega

end RateLimit

/-- A signed header is an `i64`. -/
theorem headerI64_inI64 {headers : HeaderMap} {name : String} {n : ℤ}
    (h : headerI64 headers name = some n) : Word.InI64 n := by
  obtain ⟨value, -, hparse⟩ := Option.bind_eq_some_iff.mp h
  have hrange := Str.parseSigned_range hparse
  exact ⟨by omega, by omega⟩

/-- What the headers say of the reset is kept. -/
theorem RateLimit.resetEpochMs_of_headers {headers : HeaderMap} {r : RateLimit}
    (h : RateLimit.fromHeaders headers = some r) :
    r.resetEpochMs = headerI64 headers "x-ratelimit-reset" := by
  simp only [RateLimit.fromHeaders] at h
  split at h
  · cases h
    rfl
  · cases h

/-- **Waits are clamped, and shrink as time goes on.**  There is one just if the header was
parsed; whatever it says and wherever the clock is, the wait is the time to the reset in exact
arithmetic, cut to between zero and an hour; and later on it is no longer. -/
theorem retryAfter_clamped (headers : HeaderMap) (r : RateLimit)
    (hr : RateLimit.fromHeaders headers = some r) (now : SystemTime) :
    ((r.retryAfterSince now).isSome ↔ (headerI64 headers "x-ratelimit-reset").isSome) ∧
    ∀ reset, headerI64 headers "x-ratelimit-reset" = some reset →
      ∃ wait, r.retryAfterSince now = some wait ∧
        (wait.toNanos : ℤ) = 1000000 * max 0 (min 3600000 (reset - now.millis)) ∧
        Span.zero.toNanos ≤ wait.toNanos ∧ wait.toNanos ≤ RateLimit.maxRetryAfter.toNanos ∧
        ∀ later : SystemTime, now.toNanos ≤ later.toNanos →
          ∃ wait', r.retryAfterSince later = some wait' ∧ wait'.toNanos ≤ wait.toNanos := by
  have hkept := RateLimit.resetEpochMs_of_headers hr
  constructor
  · -- The header is parsed, or there is no wait.
    cases hreset : headerI64 headers "x-ratelimit-reset" with
    | none =>
      rw [hreset] at hkept
      rw [RateLimit.retryAfterSince, hkept]
      rfl
    | some reset =>
      rw [hreset] at hkept
      obtain ⟨wait, hwait, -⟩ :=
        RateLimit.toNanos_retryAfterSince hkept (headerI64_inI64 hreset) now
      rw [hwait]
      exact ⟨fun _ => rfl, fun _ => rfl⟩
  · intro reset hreset
    have hmax : RateLimit.maxRetryAfter.toNanos = 3600000000000 := by decide
    have hI64 := headerI64_inI64 hreset
    rw [hreset] at hkept
    obtain ⟨wait, hwait, hexact⟩ := RateLimit.toNanos_retryAfterSince hkept hI64 now
    refine ⟨wait, hwait, hexact, Nat.zero_le _, by omega, ?_⟩
    intro later hlater
    obtain ⟨wait', hwait', hexact'⟩ := RateLimit.toNanos_retryAfterSince hkept hI64 later
    -- A later clock leaves less time to the reset.
    have hmillis : now.millis ≤ later.millis := SystemTime.millis_mono hlater
    exact ⟨wait', hwait', by omega⟩

/-- A reset in two minutes: by the headers `x-ratelimit-reset: 120000`, at the epoch. -/
theorem retryAfter_clamped_two_minutes :
    ∃ wait, (RateLimit.retryAfterSince ⟨none, none, some 120000⟩
        ⟨0, 0, ⟨by decide, by decide⟩, by decide⟩) = some wait ∧
      (wait.toNanos : ℤ) = 120000000000 := by
  have h := (retryAfter_clamped [("x-ratelimit-reset", [49, 50, 48, 48, 48, 48])]
    ⟨none, none, some 120000⟩ (by decide) ⟨0, 0, ⟨by decide, by decide⟩, by decide⟩).2 120000
    (by decide)
  obtain ⟨wait, hwait, hexact, -⟩ := h
  exact ⟨wait, hwait, by rw [hexact]; decide⟩

end RocketSocket
