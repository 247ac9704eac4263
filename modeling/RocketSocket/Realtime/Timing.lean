import Mathlib.Algebra.Group.Nat.Defs
import Mathlib.Tactic.Common

/-!
# Clocks: liveness and reconnect pacing

The two policies that decide when the runner acts by itself: `liveness.rs` and
`backoff.rs`.  A duration is a number of nanoseconds and an instant the duration since
some fixed origin.  A platform has a latest instant, and adding a duration to an instant panics
past it.  The runner is followed in exact arithmetic, which is the platform's as long as no sum
passes the latest instant.

## Main definitions

* `Duration.debug` — how a duration reads in a message.
* `Instant.add` — an instant and a duration, on a platform with a latest instant.
* `LivenessPolicy` — how long a connection has been silent.
* `LivenessPolicy.nextDeadline`, `LivenessPolicy.dueAt` — the next deadline, if it is an instant
  of the platform, and in exact arithmetic.
* `Backoff` — exponential backoff with full jitter; the draw of the random number
  generator is an argument.

## Main results

* `LivenessPolicy.poll_cases` — what a poll answers, and what it remembers.
* `LivenessPolicy.nextDeadline_eq_some` — when the next deadline is found, and that it is exact.
* `Backoff.before_le`, `Backoff.before_mono`, `Backoff.before_pos` — how long the window
  before the `n`-th attempt is: at most the doubled base and the cap, never shorter than
  the one before, and not empty from the second on.
-/

namespace RocketSocket

/-- A span of time, in nanoseconds. -/
abbrev Duration := ℕ

/-- A reading of the monotonic clock. -/
abbrev Instant := ℕ

namespace Duration

/-- A duration of whole seconds. -/
def ofSecs (secs : ℕ) : Duration := secs * 10 ^ 9

/-- The longest duration: `u64` seconds and a nanosecond short of one more. -/
def max : Duration := 2 ^ 64 * 10 ^ 9 - 1

/-- The whole milliseconds of a duration. -/
def asMillis (d : Duration) : ℕ := d / 10 ^ 6

/-- Multiplication that stops at the longest duration. -/
def saturatingMul (d : Duration) (n : ℕ) : Duration := min (d * n) max

/-- `n` units of `10 ^ digits` as a decimal number without trailing zeros. -/
def decimal (n digits : ℕ) : String :=
  let frac := (Nat.toDigits 10 (n % 10 ^ digits)).leftpad digits '0'
  let frac := (frac.reverse.dropWhile (· == '0')).reverse
  toString (n / 10 ^ digits) ++ if frac = [] then "" else "." ++ String.ofList frac

/-- The text `{:?}` prints for a duration. -/
def debug (d : Duration) : String :=
  if 10 ^ 9 ≤ d then decimal d 9 ++ "s"
  else if 10 ^ 6 ≤ d then decimal d 6 ++ "ms"
  else if 10 ^ 3 ≤ d then decimal d 3 ++ "µs"
  else decimal d 0 ++ "ns"

example : debug (ofSecs 20) = "20s" ∧ debug 1500000000 = "1.5s" ∧ debug 0 = "0ns" := by decide

end Duration

/-- `Instant + Duration`, where `latest` is the latest instant of the platform; `none` if it
panics. -/
def Instant.add (latest t : Instant) (d : Duration) : Option Instant :=
  if t + d ≤ latest then some (t + d) else none

/-- The latest instant where an instant is an `i64` of seconds and some nanoseconds. -/
def Instant.latestOfSeconds : Instant := 2 ^ 63 * 10 ^ 9 - 1

/-! ### Liveness -/

/-- What the liveness policy wants next. -/
inductive Liveness where
  | healthy
  | sendPing
  | dead
  deriving DecidableEq, Repr

/-- Tracks how long a connection has been silent. -/
structure LivenessPolicy where
  idleBeforePing : Duration
  idleBeforeDead : Duration
  lastSeen : Instant
  pingInFlight : Bool
  /-- `with_thresholds` panics otherwise. -/
  leavesTime : idleBeforePing < idleBeforeDead

namespace LivenessPolicy

/-- Probe after this much silence. -/
def defaultPingAfter : Duration := .ofSecs 25

/-- Give up after this much silence. -/
def defaultDeadAfter : Duration := .ofSecs 45

/-- A policy with explicit thresholds. -/
def withThresholds (idleBeforePing idleBeforeDead : Duration) (now : Instant)
    (h : idleBeforePing < idleBeforeDead) : LivenessPolicy :=
  ⟨idleBeforePing, idleBeforeDead, now, false, h⟩

/-- Records inbound traffic. -/
def sawTraffic (p : LivenessPolicy) (now : Instant) : LivenessPolicy :=
  { p with lastSeen := now, pingInFlight := false }

/-- How long the connection has been silent. -/
def idleFor (p : LivenessPolicy) (now : Instant) : Duration := now - p.lastSeen

/-- Classifies the connection, and marks a probe as sent when it asks for one. -/
def poll (p : LivenessPolicy) (now : Instant) : LivenessPolicy × Liveness :=
  let idle := p.idleFor now
  if p.idleBeforeDead ≤ idle then (p, .dead)
  else if p.idleBeforePing ≤ idle ∧ p.pingInFlight = false then
    ({ p with pingInFlight := true }, .sendPing)
  else (p, .healthy)

/-- When the next poll could change the answer; `none` if it panics, on a platform with this
latest instant. -/
def nextDeadline (latest : Instant) (p : LivenessPolicy) (now : Instant) : Option Instant :=
  let target := if p.pingInFlight then p.idleBeforeDead else p.idleBeforePing
  Instant.add latest p.lastSeen (max target (p.idleFor now))

/-- When the next poll could change the answer, in exact arithmetic. -/
def dueAt (p : LivenessPolicy) (now : Instant) : Instant :=
  let target := if p.pingInFlight then p.idleBeforeDead else p.idleBeforePing
  p.lastSeen + max target (p.idleFor now)

/-- The deadline is found just if it is an instant of the platform, and then it is exact. -/
theorem nextDeadline_eq_some {latest : Instant} {p : LivenessPolicy} {now d : Instant} :
    p.nextDeadline latest now = some d ↔ p.dueAt now ≤ latest ∧ d = p.dueAt now := by
  unfold nextDeadline Instant.add
  rw [Option.ite_none_right_eq_some, Option.some.injEq, eq_comm (b := d)]
  rfl

/-- **What a poll answers.**  It asks for one probe in each silent stretch. -/
theorem poll_cases (p : LivenessPolicy) (now : Instant) :
    (p.poll now = (p, .dead) ∧ p.idleBeforeDead ≤ p.idleFor now) ∨
    (p.poll now = ({ p with pingInFlight := true }, .sendPing) ∧ p.pingInFlight = false ∧
      p.idleBeforePing ≤ p.idleFor now ∧ p.idleFor now < p.idleBeforeDead) ∨
    (p.poll now = (p, .healthy) ∧ p.idleFor now < p.idleBeforeDead ∧
      (p.idleFor now < p.idleBeforePing ∨ p.pingInFlight = true)) := by
  unfold poll
  by_cases hd : p.idleBeforeDead ≤ p.idleFor now
  · exact .inl ⟨if_pos hd, hd⟩
  · have hlt : p.idleFor now < p.idleBeforeDead := Nat.lt_of_not_le hd
    by_cases hp : p.idleBeforePing ≤ p.idleFor now ∧ p.pingInFlight = false
    · refine .inr (.inl ⟨?_, hp.2, hp.1, hlt⟩)
      rw [if_neg hd, if_pos hp]
    · refine .inr (.inr ⟨?_, hlt, ?_⟩)
      · rw [if_neg hd, if_neg hp]
      · by_cases hi : p.idleBeforePing ≤ p.idleFor now
        · exact .inr (by simpa [hi] using hp)
        · exact .inl (Nat.lt_of_not_le hi)

end LivenessPolicy

/-! ### Backoff -/

/-- Exponential backoff with full jitter. -/
structure Backoff where
  base : Duration
  cap : Duration
  /-- How often a delay was asked for since the last reset; a `u32`. -/
  attempt : ℕ
  deriving Repr

namespace Backoff

/-- The default first-retry window. -/
def defaultBase : Duration := .ofSecs 1

/-- The default ceiling on the retry window. -/
def defaultCap : Duration := .ofSecs 64

/-- The largest `u32`. -/
def maxAttempt : ℕ := 2 ^ 32 - 1

/-- The largest `u64`. -/
def maxMillis : ℕ := 2 ^ 64 - 1

/-- A backoff with an explicit schedule. -/
def withLimits (base cap : Duration) : Backoff := ⟨base, cap, 0⟩

/-- The retry window after `attempt` earlier attempts, at least one. -/
def window (b : Backoff) (attempt : ℕ) : Duration :=
  let doubling := if attempt - 1 < 32 then 2 ^ (attempt - 1) else maxAttempt
  min (Duration.saturatingMul b.base doubling) b.cap

/-- The next delay, advancing the schedule.  `draw` is what the generator would return
from a range large enough to hold it. -/
def nextDelay (b : Backoff) (draw : ℕ) : Backoff × Duration :=
  let attempt := b.attempt
  let b := { b with attempt := min (attempt + 1) maxAttempt }
  if attempt = 0 then (b, 0)
  else
    let millis := min (Duration.asMillis (b.window attempt)) maxMillis
    (b, if millis = 0 then 0 else min draw millis * 10 ^ 6)

/-- Clears the accumulated failures. -/
def reset (b : Backoff) : Backoff := { b with attempt := 0 }

/-- The most milliseconds the next delay can be. -/
def drawMillis (b : Backoff) : ℕ :=
  if b.attempt = 0 then 0 else min (Duration.asMillis (b.window b.attempt)) maxMillis

theorem nextDelay_eq (b : Backoff) (draw : ℕ) : b.nextDelay draw =
    ({ b with attempt := min (b.attempt + 1) maxAttempt }, min draw b.drawMillis * 10 ^ 6) := by
  unfold nextDelay drawMillis
  by_cases h0 : b.attempt = 0
  · rw [if_pos h0, if_pos h0, Nat.min_zero, Nat.zero_mul]
  · rw [if_neg h0, if_neg h0]
    show (_, if min (Duration.asMillis (b.window b.attempt)) maxMillis = 0 then 0 else _) = _
    split
    · next hm => rw [hm, Nat.min_zero, Nat.zero_mul]
    · rfl

/-- The delays the generator can draw are the milliseconds of the window. -/
theorem nextDelay_range (b : Backoff) (d : Duration) :
    (∃ draw, (b.nextDelay draw).2 = d) ↔ ∃ k ≤ b.drawMillis, d = k * 10 ^ 6 := by
  constructor
  · rintro ⟨draw, rfl⟩
    exact ⟨_, Nat.min_le_right draw _, by rw [nextDelay_eq]⟩
  · rintro ⟨k, hk, rfl⟩
    exact ⟨k, by rw [nextDelay_eq, Nat.min_eq_left hk]⟩

/-! #### The window before each attempt -/

/-- The counter when the `n`-th attempt since a reset is scheduled. -/
def counted (n : ℕ) : ℕ := min (n - 1) maxAttempt

/-- The window before the `n`-th attempt since a reset, in milliseconds. -/
def before (b : Backoff) (n : ℕ) : ℕ := drawMillis { b with attempt := counted n }

theorem counted_succ (n : ℕ) (hn : 0 < n) : counted (n + 1) = min (counted n + 1) maxAttempt := by
  unfold counted
  omega

/-- The number of bases in the window after `attempt` earlier attempts. -/
def doubling (attempt : ℕ) : ℕ := if attempt - 1 < 32 then 2 ^ (attempt - 1) else maxAttempt

theorem doubling_le (attempt : ℕ) : doubling attempt ≤ 2 ^ (attempt - 1) := by
  unfold doubling
  split
  · exact Nat.le_refl _
  · next h =>
    calc maxAttempt ≤ 2 ^ 32 := Nat.sub_le _ _
      _ ≤ 2 ^ (attempt - 1) := Nat.pow_le_pow_right (by omega) (by omega)

theorem doubling_mono {m n : ℕ} (h : m ≤ n) : doubling m ≤ doubling n := by
  unfold doubling
  by_cases hn : n - 1 < 32
  · rw [if_pos hn, if_pos (by omega)]
    exact Nat.pow_le_pow_right (by omega) (by omega)
  · rw [if_neg hn]
    split
    · calc 2 ^ (m - 1) ≤ 2 ^ 31 := Nat.pow_le_pow_right (by omega) (by omega)
        _ ≤ maxAttempt := by decide
    · exact Nat.le_refl _

theorem doubling_pos (attempt : ℕ) : 1 ≤ doubling attempt :=
  Nat.le_trans (by decide) (doubling_mono (Nat.zero_le attempt))

theorem window_mono (b : Backoff) {m n : ℕ} (h : m ≤ n) : b.window m ≤ b.window n := by
  have hclip : ∀ x y top cap : ℕ, x ≤ y → min (min x top) cap ≤ min (min y top) cap := by
    intro x y top cap hxy
    omega
  exact hclip _ _ _ _ (Nat.mul_le_mul_left b.base (doubling_mono h))

theorem before_one (b : Backoff) : b.before 1 = 0 := rfl

theorem counted_ne_zero {n : ℕ} (hn : 2 ≤ n) : counted n ≠ 0 := by
  unfold counted maxAttempt
  omega

theorem before_eq (b : Backoff) {n : ℕ} (hn : 2 ≤ n) :
    b.before n = min (Duration.asMillis (b.window (counted n))) maxMillis :=
  if_neg (counted_ne_zero hn)

/-- The window before the `n`-th attempt doubles, up to the cap. -/
theorem before_le (b : Backoff) {n : ℕ} (hn : 2 ≤ n) :
    b.before n * 10 ^ 6 ≤ min b.cap (b.base * 2 ^ (n - 2)) := by
  have hmillis : b.before n * 10 ^ 6 ≤ b.window (counted n) := by
    rw [before_eq b hn]
    calc min (Duration.asMillis (b.window (counted n))) maxMillis * 10 ^ 6
        ≤ b.window (counted n) / 10 ^ 6 * 10 ^ 6 := Nat.mul_le_mul_right _ (Nat.min_le_left _ _)
      _ ≤ b.window (counted n) := Nat.div_mul_le_self _ _
  have hbases : doubling (counted n) ≤ 2 ^ (n - 2) := by
    refine Nat.le_trans (doubling_le _) (Nat.pow_le_pow_right (by omega) ?_)
    unfold counted
    omega
  have hwindow : b.window (counted n) ≤ min b.cap (b.base * 2 ^ (n - 2)) := by
    refine Nat.le_min.2 ⟨Nat.min_le_right _ _, ?_⟩
    calc b.window (counted n) ≤ min (b.base * doubling (counted n)) Duration.max :=
          Nat.min_le_left _ _
      _ ≤ b.base * doubling (counted n) := Nat.min_le_left _ _
      _ ≤ b.base * 2 ^ (n - 2) := Nat.mul_le_mul_left _ hbases
  exact Nat.le_trans hmillis hwindow

/-- The windows never shrink. -/
theorem before_mono (b : Backoff) {m n : ℕ} (h : m ≤ n) : b.before m ≤ b.before n := by
  by_cases hm : m ≤ 1
  · have hzero : counted m = 0 := by
      unfold counted
      omega
    have hbefore : b.before m = 0 := if_pos hzero
    omega
  · rw [before_eq b (by omega), before_eq b (by omega)]
    have hcounted : counted m ≤ counted n := by
      unfold counted
      omega
    have hdiv : Duration.asMillis (b.window (counted m)) ≤
        Duration.asMillis (b.window (counted n)) := Nat.div_le_div_right (b.window_mono hcounted)
    omega

/-- With a base and a cap of a millisecond no window but the first is empty. -/
theorem before_pos (b : Backoff) (hbase : 10 ^ 6 ≤ b.base) (hcap : 10 ^ 6 ≤ b.cap) {n : ℕ}
    (hn : 2 ≤ n) : 0 < b.before n := by
  have hwindow : 10 ^ 6 ≤ b.window (counted n) := by
    have hbases : b.base ≤ b.base * doubling (counted n) :=
      Nat.le_mul_of_pos_right _ (doubling_pos _)
    have hmax : 10 ^ 6 ≤ Duration.max := by decide
    exact Nat.le_min.2 ⟨Nat.le_min.2 ⟨Nat.le_trans hbase hbases, hmax⟩, hcap⟩
  rw [before_eq b hn]
  have hmillis : 1 ≤ Duration.asMillis (b.window (counted n)) :=
    (Nat.le_div_iff_mul_le (by decide)).2 (by rwa [Nat.one_mul])
  have hmax : 1 ≤ maxMillis := by decide
  omega

end Backoff

end RocketSocket
