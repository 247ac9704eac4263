import RocketSocket.Lib.Span
import RocketSocket.Realtime.Timing

/-!
# The arithmetic of reconnect pacing

`Backoff::next_delay` in the words of the machine: a counter of 32 bits, spans with seconds of
64, and a step that fails wherever the source would panic.  It is the schedule of `Backoff` on
exact numbers, so no operation wraps, and the windows never shrink.

## Main definitions

* `Draw`, `Draw.top` — the random number generator, once.
* `BackoffWords`, `BackoffWords.nextDelay` — the backoff, and its next delay if nothing panics.
* `BackoffWords.exact` — the backoff in exact arithmetic.
* `BackoffWords.calls` — the backoff after a number of calls.

## Main results

* `BackoffWords.window_exact` — the window is that of exact arithmetic.
* `BackoffWords.nextDelay_drawn` — what the delay is, after the first.
* `BackoffWords.nextDelay_simulates` — nothing panics: **the words refine the numbers.**
* `backoff_never_wraps` — **the schedule over any number of calls.**
-/

namespace RocketSocket

open Machine

/-- What the random number generator returns the next time: for each range that is not empty, a
number in it. -/
structure Draw where
  pick : UInt64 → UInt64 → UInt64
  mem : ∀ low high, low ≤ high → low ≤ pick low high ∧ pick low high ≤ high

/-- A number in a range; it panics if that is empty. -/
def Draw.u64 (d : Draw) (low high : UInt64) : Option UInt64 :=
  if low ≤ high then some (d.pick low high) else none

/-- The generator that returns the greatest number of each range. -/
def Draw.top : Draw := ⟨fun _ high => high, fun _ _ h => ⟨h, UInt64.le_refl _⟩⟩

/-- Exponential backoff with full jitter. -/
structure BackoffWords where
  base : Span
  cap : Span
  attempt : UInt32
  deriving DecidableEq, Repr

namespace BackoffWords

/-- A backoff with an explicit schedule. -/
def withLimits (base cap : Span) : BackoffWords := ⟨base, cap, 0⟩

/-- The retry window after `attempt` earlier attempts; it panics if there are none. -/
def window (b : BackoffWords) (attempt : UInt32) : Option Span :=
  if 1 ≤ attempt then
    some ((b.base.saturatingMul ((Word.checkedShl 1 (attempt - 1)).getD Word.maxU32)).min b.cap)
  else none

/-- `u64::try_from(..).unwrap_or(u64::MAX)`. -/
def clampMillis (millis : ℕ) : UInt64 :=
  if millis < 18446744073709551616 then UInt64.ofNat millis else 18446744073709551615

/-- The next delay, advancing the schedule; `none` if it panics. -/
def nextDelay (b : BackoffWords) (draw : Draw) : Option (BackoffWords × Span) :=
  let attempt := b.attempt
  let b := { b with attempt := Word.saturatingAdd attempt 1 }
  if attempt = 0 then some (b, Span.zero)
  else do
    let window ← b.window attempt
    let millis := clampMillis window.asMillis
    if millis = 0 then return (b, Span.zero)
    let drawn ← draw.u64 0 millis
    return (b, Span.ofMillis drawn)

/-- The backoff in exact arithmetic. -/
def exact (b : BackoffWords) : Backoff := ⟨b.base.toNanos, b.cap.toNanos, b.attempt.toNat⟩

/-- The backoff after some calls. -/
def calls (b : BackoffWords) (draws : ℕ → Draw) : ℕ → Option BackoffWords
  | 0 => some b
  | n + 1 => (b.calls draws n).bind fun b => (b.nextDelay (draws n)).map Prod.fst

/-! ### The words against the numbers -/

variable {b b' : BackoffWords} {attempt : UInt32} {w delay : Span}

theorem toNat_clampMillis (millis : ℕ) :
    (clampMillis millis).toNat = min millis Backoff.maxMillis := by
  have hmax : Backoff.maxMillis = 18446744073709551615 := rfl
  rw [clampMillis]
  split
  · next h =>
    rw [UInt64.toNat_ofNat_of_lt' h]
    omega
  · next h =>
    show 18446744073709551615 = _
    omega

/-- The factor of the window is that of exact arithmetic. -/
theorem toNat_factor (h : 1 ≤ attempt) :
    ((Word.checkedShl 1 (attempt - 1)).getD Word.maxU32).toNat =
      Backoff.doubling attempt.toNat := by
  have hsub : (attempt - 1).toNat = attempt.toNat - 1 := UInt32.toNat_sub_of_le _ _ h
  have hshl := Word.checkedShl_one (attempt - 1)
  rw [Backoff.doubling, ← hsub]
  cases hfactor : Word.checkedShl 1 (attempt - 1) with
  | none =>
    rw [hfactor, Option.map_none] at hshl
    split at hshl
    · cases hshl
    · next hlong =>
      rw [if_neg hlong]
      rfl
  | some factor =>
    rw [hfactor, Option.map_some] at hshl
    split at hshl
    · next hshort =>
      rw [if_pos hshort]
      exact Option.some.inj hshl
    · cases hshl

/-- The window is that of exact arithmetic. -/
theorem window_exact (h : attempt ≠ 0) : ∃ w, b.window attempt = some w ∧
    w.toNanos = b.exact.window attempt.toNat := by
  have hpos : 1 ≤ attempt := by
    rw [UInt32.le_iff_toNat_le]
    exact Nat.pos_of_ne_zero fun hzero => h (UInt32.toNat_inj.mp hzero)
  refine ⟨_, if_pos hpos, ?_⟩
  rw [Span.toNanos_min, Span.toNanos_saturatingMul, toNat_factor hpos]
  rfl

theorem toNat_millis (h : b.attempt ≠ 0) (hw : w.toNanos = b.exact.window b.attempt.toNat) :
    (clampMillis w.asMillis).toNat = b.exact.drawMillis := by
  have hne : b.exact.attempt ≠ 0 := fun hzero => h (UInt32.toNat_inj.mp hzero)
  rw [toNat_clampMillis, Span.asMillis_eq, hw, Backoff.drawMillis, if_neg hne]
  rfl

/-- What is drawn is no longer than the window. -/
theorem drawn_le_window (h : b.attempt ≠ 0) (hw : w.toNanos = b.exact.window b.attempt.toNat)
    {n : ℕ} (hn : n ≤ b.exact.drawMillis) : n * 1000000 ≤ w.toNanos := by
  rw [← toNat_millis h hw, toNat_clampMillis, Span.asMillis_eq] at hn
  omega

/-- The counter goes up, and stops at the greatest word. -/
theorem exact_advanced (b : BackoffWords) :
    ({ b with attempt := Word.saturatingAdd b.attempt 1 } : BackoffWords).exact =
      { b.exact with attempt := min (b.exact.attempt + 1) Backoff.maxAttempt } :=
  congrArg (Backoff.mk _ _) (Word.toNat_saturatingAdd _ _)

/-- The first delay is zero. -/
theorem nextDelay_first (draw : Draw) (h : b.attempt = 0) : b.nextDelay draw =
    some ({ b with attempt := Word.saturatingAdd b.attempt 1 }, Span.zero) :=
  if_pos h

/-- Every later delay is what is drawn from the milliseconds of the window. -/
theorem nextDelay_drawn (draw : Draw) (h : b.attempt ≠ 0) (hwindow : b.window b.attempt = some w) :
    b.nextDelay draw = some ({ b with attempt := Word.saturatingAdd b.attempt 1 },
      Span.ofMillis (draw.pick 0 (clampMillis w.asMillis))) := by
  have hwindow' : ({ b with attempt := Word.saturatingAdd b.attempt 1 } :
      BackoffWords).window b.attempt = some w := hwindow
  have hle : (0 : UInt64) ≤ clampMillis w.asMillis := UInt64.zero_le
  simp only [nextDelay, if_neg h, hwindow', Option.bind_eq_bind, Option.bind_some]
  by_cases hzero : clampMillis w.asMillis = 0
  · -- Nothing is drawn from an empty window, where a draw would be zero as well.
    have hpick : draw.pick 0 0 = 0 :=
      UInt64.le_antisymm (draw.mem 0 0 (UInt64.le_refl 0)).2 UInt64.zero_le
    rw [if_pos hzero, hzero, hpick]
    rfl
  · rw [if_neg hzero, Draw.u64, if_pos hle]
    rfl

/-- **The words refine the numbers**: nothing panics, and both take the same step, where the
number drawn is that of the generator. -/
theorem nextDelay_simulates (b : BackoffWords) (draw : Draw) : ∃ b' delay,
    b.nextDelay draw = some (b', delay) ∧
      b' = { b with attempt := Word.saturatingAdd b.attempt 1 } ∧
      b.exact.nextDelay (draw.pick 0 (UInt64.ofNat b.exact.drawMillis)).toNat =
        (b'.exact, delay.toNanos) := by
  by_cases h0 : b.attempt = 0
  · refine ⟨_, _, nextDelay_first draw h0, rfl, ?_⟩
    have hmillis : b.exact.drawMillis = 0 := if_pos (congrArg UInt32.toNat h0)
    rw [Backoff.nextDelay_eq, exact_advanced, hmillis, Nat.min_zero, Nat.zero_mul]
    rfl
  · obtain ⟨w, hwindow, hw⟩ := window_exact (b := b) h0
    refine ⟨_, _, nextDelay_drawn draw h0 hwindow, rfl, ?_⟩
    have hmillis := toNat_millis h0 hw
    have hdrawn : (draw.pick 0 (clampMillis w.asMillis)).toNat ≤ b.exact.drawMillis := by
      rw [← hmillis]
      exact UInt64.le_iff_toNat_le.mp (draw.mem _ _ UInt64.zero_le).2
    rw [Backoff.nextDelay_eq, exact_advanced, ← hmillis, UInt64.ofNat_toNat, hmillis,
      Nat.min_eq_left hdrawn, Span.toNanos_ofMillis]
    rfl

/-- The counter after some calls. -/
theorem calls_eq (b : BackoffWords) (draws : ℕ → Draw) (h : b.attempt = 0) (k : ℕ) :
    ∃ attempt : UInt32, b.calls draws k = some { b with attempt := attempt } ∧
      attempt.toNat = min k Backoff.maxAttempt := by
  induction k with
  | zero => exact ⟨0, by rw [calls, ← h], (Nat.zero_min _).symm⟩
  | succ k ih =>
    obtain ⟨attempt, hcalls, hattempt⟩ := ih
    obtain ⟨b', delay, hnext, rfl, -⟩ := nextDelay_simulates { b with attempt := attempt } (draws k)
    refine ⟨Word.saturatingAdd attempt 1, ?_, ?_⟩
    · rw [calls, hcalls, Option.bind_some, hnext]
      rfl
    · have hmax : Backoff.maxAttempt = 4294967295 := rfl
      rw [Word.toNat_saturatingAdd, hattempt, hmax]
      show min (min k 4294967295 + 1) 4294967295 = _
      omega

/-- The counter is not zero after a call. -/
theorem counted_ne_zero {k : ℕ} (hk : 1 ≤ k) (h : attempt.toNat = min k Backoff.maxAttempt) :
    attempt ≠ 0 := by
  have hmax : Backoff.maxAttempt = 4294967295 := rfl
  rintro rfl
  have hzero : (0 : UInt32).toNat = 0 := rfl
  omega

/-- The window after at least one call. -/
theorem window_of_calls {base cap : Span} {draws : ℕ → Draw} {k : ℕ} (hk : 1 ≤ k)
    (h : (withLimits base cap).calls draws k = some b) : ∃ w,
    b.window b.attempt = some w ∧ w.toNanos = b.exact.window b.attempt.toNat ∧
      w.toNanos = (withLimits base cap).exact.window (min k Backoff.maxAttempt) := by
  obtain ⟨attempt, hcalls, hattempt⟩ := (withLimits base cap).calls_eq draws rfl k
  rw [hcalls] at h
  cases h
  obtain ⟨w, hwindow, hw⟩ := window_exact (b := { withLimits base cap with attempt := attempt })
    (counted_ne_zero hk hattempt)
  refine ⟨w, hwindow, hw, ?_⟩
  rw [hw, hattempt]
  rfl

/-- The windows in closed form, as long as the doubling is a word and after that. -/
theorem exact_window (b : BackoffWords) (n : ℕ) :
    b.exact.window n ≤ min b.cap.toNanos (b.base.toNanos * 2 ^ (n - 1)) ∧
      (n ≤ 32 → b.exact.window n = min b.cap.toNanos (b.base.toNanos * 2 ^ (n - 1))) := by
  have hcap : b.cap.toNanos ≤ Duration.max := b.cap.toNanos_le_max
  have hclip : ∀ x top cap : ℕ, cap ≤ top → min (min x top) cap = min cap x := by
    intro x top cap hle
    omega
  have hwindow : b.exact.window n = min b.cap.toNanos (b.base.toNanos * Backoff.doubling n) :=
    hclip _ _ _ hcap
  rw [hwindow]
  constructor
  · have hle : b.base.toNanos * Backoff.doubling n ≤ b.base.toNanos * 2 ^ (n - 1) :=
      Nat.mul_le_mul_left _ (Backoff.doubling_le n)
    exact Nat.le_min.mpr ⟨Nat.min_le_left _ _, Nat.le_trans (Nat.min_le_right _ _) hle⟩
  · intro hn
    have hdoubling : Backoff.doubling n = 2 ^ (n - 1) := if_pos (by omega)
    rw [hdoubling]

end BackoffWords

/-- **The schedule over any number of calls.**  Nothing panics and nothing wraps: each call counts
up, and takes the step of exact arithmetic.  After `k` calls the window is the base doubled
`k - 1` times, cut down to the cap, as long as the factor is a word, and no longer than that
later on; the windows never shrink; and the delay is what is drawn from the whole milliseconds of
the window, so no longer than that. -/
theorem backoff_never_wraps (base cap : Span) (draws : ℕ → Draw) (k : ℕ) :
    ∃ b b' delay, (BackoffWords.withLimits base cap).calls draws k = some b ∧
      b.nextDelay (draws k) = some (b', delay) ∧
      b'.base = base ∧ b'.cap = cap ∧ b'.attempt.toNat = min (k + 1) Backoff.maxAttempt ∧
      b.exact.nextDelay ((draws k).pick 0 (UInt64.ofNat b.exact.drawMillis)).toNat =
        (b'.exact, delay.toNanos) ∧
      (k = 0 → delay.toNanos = 0) ∧
      (1 ≤ k → ∃ window, b.window b.attempt = some window ∧
        (∃ millis : UInt64, millis.toNat = min (window.toNanos / 1000000) Backoff.maxMillis ∧
          delay.toNanos = ((draws k).pick 0 millis).toNat * 1000000) ∧
        delay.toNanos ≤ window.toNanos ∧
        window.toNanos ≤ min cap.toNanos (base.toNanos * 2 ^ (k - 1)) ∧
        (k ≤ 32 → window.toNanos = min cap.toNanos (base.toNanos * 2 ^ (k - 1))) ∧
        ∀ j b₀ window₀, 1 ≤ j → j ≤ k →
          (BackoffWords.withLimits base cap).calls draws j = some b₀ →
          b₀.window b₀.attempt = some window₀ → window₀.toNanos ≤ window.toNanos) := by
  have hmax : Backoff.maxAttempt = 4294967295 := rfl
  obtain ⟨attempt, hcalls, hattempt⟩ :=
    (BackoffWords.withLimits base cap).calls_eq draws rfl k
  set b : BackoffWords := { BackoffWords.withLimits base cap with attempt := attempt } with hb
  obtain ⟨b', delay, hnext, rfl, hsimulates⟩ := b.nextDelay_simulates (draws k)
  have hcounted : (Word.saturatingAdd attempt 1).toNat = min (k + 1) Backoff.maxAttempt := by
    rw [Word.toNat_saturatingAdd, hattempt, hmax]
    show min (min k 4294967295 + 1) 4294967295 = _
    omega
  refine ⟨b, _, delay, hcalls, hnext, rfl, rfl, hcounted, hsimulates, ?_, ?_⟩
  · rintro rfl
    have hzero : b.attempt = 0 := UInt32.toNat_inj.mp hattempt
    have hfirst := BackoffWords.nextDelay_first (draws 0) hzero
    rw [hnext] at hfirst
    cases hfirst
    rfl
  · intro hk
    obtain ⟨w, hwindow, hw, hexact⟩ := BackoffWords.window_of_calls hk hcalls
    have hne := BackoffWords.counted_ne_zero hk hattempt
    have hdrawn := BackoffWords.nextDelay_drawn (draws k) hne hwindow
    rw [hnext] at hdrawn
    cases hdrawn
    obtain ⟨hle, heq⟩ :=
      (BackoffWords.withLimits base cap).exact_window (min k Backoff.maxAttempt)
    rw [← hexact] at hle heq
    refine ⟨w, hwindow, ⟨BackoffWords.clampMillis w.asMillis, ?_, Span.toNanos_ofMillis _⟩,
      ?_, ?_, ?_, ?_⟩
    · rw [BackoffWords.toNat_clampMillis, Span.asMillis_eq]
    · rw [Span.toNanos_ofMillis]
      refine BackoffWords.drawn_le_window hne hw ?_
      rw [← BackoffWords.toNat_millis hne hw]
      exact UInt64.le_iff_toNat_le.mp ((draws k).mem _ _ UInt64.zero_le).2
    · -- The counter is no more than the number of calls.
      have hpow : base.toNanos * 2 ^ (min k Backoff.maxAttempt - 1) ≤
          base.toNanos * 2 ^ (k - 1) :=
        Nat.mul_le_mul_left _ (Nat.pow_le_pow_right (by decide) (by omega))
      exact Nat.le_trans hle (Nat.le_min.mpr
        ⟨Nat.min_le_left _ _, Nat.le_trans (Nat.min_le_right _ _) hpow⟩)
    · intro hshort
      have hcount : min k Backoff.maxAttempt = k := by omega
      rw [hcount] at heq
      exact heq hshort
    · intro j b₀ window₀ hj hjk hcalls₀ hwindow₀
      obtain ⟨w₀, hw₀, -, hexact₀⟩ := BackoffWords.window_of_calls hj hcalls₀
      rw [hwindow₀] at hw₀
      cases hw₀
      rw [hexact₀, hexact]
      exact Backoff.window_mono _ (by omega)

/-- With the greatest draws the delay doubles up to the cap: four seconds after three calls with a
base of one, and the cap of sixty-four after a hundred. -/
theorem backoff_never_wraps_doubled :
    (∃ b b' delay, (BackoffWords.withLimits (.ofSecs 1) (.ofSecs 64)).calls (fun _ => .top) 3 =
        some b ∧ b.nextDelay .top = some (b', delay) ∧ delay.toNanos = 4000000000) ∧
      ∃ b b' delay, (BackoffWords.withLimits (.ofSecs 1) (.ofSecs 64)).calls (fun _ => .top) 100 =
        some b ∧ b.nextDelay .top = some (b', delay) ∧ delay.toNanos = 64000000000 := by
  have hbase : (Span.ofSecs 1).toNanos = 1000000000 := rfl
  have hcap : (Span.ofSecs 64).toNanos = 64000000000 := rfl
  have hmax : Backoff.maxMillis = 18446744073709551615 := rfl
  constructor
  · obtain ⟨b, b', delay, hcalls, hnext, -, -, -, -, -, hlater⟩ :=
      backoff_never_wraps (.ofSecs 1) (.ofSecs 64) (fun _ => .top) 3
    obtain ⟨w, -, ⟨millis, hmillis, hdelay⟩, -, -, hwindow, -⟩ := hlater (by decide)
    have hw := hwindow (by decide)
    rw [hbase, hcap] at hw
    rw [hw, hmax] at hmillis
    refine ⟨b, b', delay, hcalls, hnext, hdelay.trans ?_⟩
    show millis.toNat * 1000000 = 4000000000
    omega
  · obtain ⟨b₀, _, _, hcalls₀, -, -, -, -, -, -, hearlier⟩ :=
      backoff_never_wraps (.ofSecs 1) (.ofSecs 64) (fun _ => .top) 32
    obtain ⟨w₀, hwindow₀, -, -, -, hshort, -⟩ := hearlier (by decide)
    have hw₀ := hshort (by decide)
    obtain ⟨b, b', delay, hcalls, hnext, -, -, -, -, -, hlater⟩ :=
      backoff_never_wraps (.ofSecs 1) (.ofSecs 64) (fun _ => .top) 100
    obtain ⟨w, -, ⟨millis, hmillis, hdelay⟩, -, hle, -, hmono⟩ := hlater (by decide)
    -- The window has reached the cap after thirty-two calls, and does not shrink.
    have hge := hmono 32 b₀ w₀ (by decide) (by decide) hcalls₀ hwindow₀
    rw [hbase, hcap] at hw₀ hle
    have hw : w.toNanos = 64000000000 := by omega
    rw [hw, hmax] at hmillis
    refine ⟨b, b', delay, hcalls, hnext, hdelay.trans ?_⟩
    show millis.toNat * 1000000 = 64000000000
    omega

end RocketSocket
