import Mathlib.Order.Bounds.Defs
import RocketSocket.Lib.History
import RocketSocket.Realtime.Runner

/-!
# The deadlines of the runner

One timer of the runner serves three deadlines: the probe, the death of a silent connection,
and the handshake.  The first two are those of the liveness policy, looked at over every
sequence of readings of a clock that never goes back.  The sum of the last sign of life and a
threshold is exact as long as it is an instant of the platform; past that, finding the deadline
panics.

## Main definitions

* `Tracked`, `Sign` — a liveness policy over time, and what is seen of it.
* `lastTraffic` — when the last frame was seen.
* `LivenessPolicy.FindsFirst` — the next deadline is found, and is exact.
* `World.taken` — what the runner takes from its sources.
* `Runner.rearm` — the timer is armed after a deadline step, on a platform with a latest instant.

## Main results

* `LivenessPolicy.dueAt_isLeast` — in exact arithmetic the deadline is the first time a poll has
  something to say.
* `liveness_exact_iff` — **when the liveness deadline is exact and does not spin**: just if it
  is an instant of the platform.
-/

namespace RocketSocket

open Machine

variable {κ : Type}

/-! ### The liveness policy -/

namespace LivenessPolicy

variable {p : LivenessPolicy} {now t : Instant}

/-- After this much silence a poll has something to say. -/
def patience (p : LivenessPolicy) : Duration :=
  if p.pingInFlight then p.idleBeforeDead else p.idleBeforePing

/-- The silence a poll at this time leaves the policy waiting for. -/
def awaited (p : LivenessPolicy) (now : Instant) : Duration :=
  if p.pingInFlight ∨ p.idleBeforePing ≤ p.idleFor now then p.idleBeforeDead
  else p.idleBeforePing

/-- The next deadline is found, and is the first time from now on at which a poll has something
to say. -/
def FindsFirst (latest : Instant) (p : LivenessPolicy) (now : Instant) : Prop :=
  ∃ d, p.nextDeadline latest now = some d ∧ IsLeast {t | now ≤ t ∧ (p.poll t).2 ≠ .healthy} d

theorem dueAt_eq (p : LivenessPolicy) (now : Instant) :
    p.dueAt now = p.lastSeen + max p.patience (now - p.lastSeen) := rfl

/-- The next deadline is an instant of the platform just if the sum behind it is one. -/
theorem dueAt_le_iff {latest : Instant} (h : now ≤ latest) :
    p.dueAt now ≤ latest ↔ p.lastSeen + p.patience ≤ latest := by
  have hmax : ∀ last patience now latest : ℕ, now ≤ latest →
      (last + max patience (now - last) ≤ latest ↔ last + patience ≤ latest) := by omega
  rw [dueAt_eq]
  exact hmax _ _ _ _ h

theorem patience_le (p : LivenessPolicy) : p.patience ≤ p.idleBeforeDead := by
  have htime := p.leavesTime
  unfold patience
  split
  · exact le_rfl
  · exact htime.le

/-- **A poll is healthy** as long as the silence is short. -/
theorem poll_healthy_iff : (p.poll t).2 = .healthy ↔ t - p.lastSeen < p.patience := by
  have hle := p.patience_le
  -- The poll finds the connection dead, asks for a ping, or has nothing to say.
  rcases p.poll_cases t with ⟨hpoll, hdead⟩ | ⟨hpoll, hflight, hping, -⟩ | ⟨hpoll, hlt, hquiet⟩
  · rw [hpoll]
    unfold idleFor at hdead
    constructor
    · intro h
      cases h
    · intro h
      exact absurd (h.trans_le (hle.trans hdead)) (lt_irrefl _)
  · rw [hpoll]
    unfold idleFor at hping
    constructor
    · intro h
      cases h
    · intro h
      rw [patience, hflight] at h
      exact absurd (h.trans_le hping) (lt_irrefl _)
  · rw [hpoll]
    refine ⟨fun _ => ?_, fun _ => rfl⟩
    unfold idleFor at hlt hquiet
    unfold patience
    split
    · exact hlt
    · next hflight => exact hquiet.resolve_right hflight

theorem poll_dead_iff : (p.poll t).2 = .dead ↔ p.idleBeforeDead ≤ t - p.lastSeen := by
  rcases p.poll_cases t with ⟨hpoll, hdead⟩ | ⟨hpoll, -, -, hlt⟩ | ⟨hpoll, hlt, -⟩
  · rw [hpoll]
    exact ⟨fun _ => hdead, fun _ => rfl⟩
  · rw [hpoll]
    unfold idleFor at hlt
    constructor
    · intro h
      cases h
    · intro h
      exact absurd (hlt.trans_le h) (lt_irrefl _)
  · rw [hpoll]
    unfold idleFor at hlt
    constructor
    · intro h
      cases h
    · intro h
      exact absurd (hlt.trans_le h) (lt_irrefl _)

/-- A poll that asks for a probe remembers it, and no poll forgets one. -/
theorem pingInFlight_poll (p : LivenessPolicy) (t : Instant) :
    (p.poll t).1.pingInFlight = (p.pingInFlight || (p.poll t).2 == .sendPing) ∧
      ((p.poll t).2 = .sendPing → p.pingInFlight = false) := by
  rcases p.poll_cases t with ⟨hpoll, -⟩ | ⟨hpoll, hflight, -⟩ | ⟨hpoll, -⟩
  · rw [hpoll]
    exact ⟨by cases p.pingInFlight <;> rfl, fun h => by cases h⟩
  · rw [hpoll]
    exact ⟨by rw [hflight]; rfl, fun _ => hflight⟩
  · rw [hpoll]
    exact ⟨by cases p.pingInFlight <;> rfl, fun h => by cases h⟩

/-- A poll changes nothing else. -/
theorem poll_frame (p : LivenessPolicy) (t : Instant) :
    (p.poll t).1.lastSeen = p.lastSeen ∧ (p.poll t).1.idleBeforePing = p.idleBeforePing ∧
      (p.poll t).1.idleBeforeDead = p.idleBeforeDead := by
  rcases p.poll_cases t with ⟨hpoll, -⟩ | ⟨hpoll, -⟩ | ⟨hpoll, -⟩
  · rw [hpoll]
    exact ⟨rfl, rfl, rfl⟩
  · rw [hpoll]
    exact ⟨rfl, rfl, rfl⟩
  · rw [hpoll]
    exact ⟨rfl, rfl, rfl⟩

/-- **The next deadline is the first time a poll has something to say.** -/
theorem dueAt_isLeast (h : p.lastSeen ≤ now) :
    IsLeast {t | now ≤ t ∧ (p.poll t).2 ≠ .healthy} (p.dueAt now) := by
  have hmember : ∀ last patience now : ℕ, last ≤ now →
      now ≤ last + max patience (now - last) ∧
        ¬ last + max patience (now - last) - last < patience := by omega
  have hleast : ∀ last patience now t : ℕ, last ≤ now → now ≤ t → ¬ t - last < patience →
      last + max patience (now - last) ≤ t := by omega
  rw [dueAt_eq]
  constructor
  · obtain ⟨hle, hpatience⟩ := hmember p.lastSeen p.patience now h
    refine ⟨hle, fun hhealthy => ?_⟩
    rw [poll_healthy_iff] at hhealthy
    exact hpatience hhealthy
  · rintro t ⟨hnow, hpoll⟩
    rw [Ne, poll_healthy_iff] at hpoll
    exact hleast _ _ _ _ h hnow hpoll

/-- The next deadline is exact just if the sum behind it is an instant of the platform. -/
theorem findsFirst_iff {latest : Instant} (h : p.lastSeen ≤ now) (hnow : now ≤ latest) :
    p.FindsFirst latest now ↔ p.lastSeen + p.patience ≤ latest := by
  rw [← dueAt_le_iff hnow]
  constructor
  · rintro ⟨d, hd, -⟩
    exact (nextDeadline_eq_some.mp hd).1
  · intro hle
    exact ⟨p.dueAt now, nextDeadline_eq_some.mpr ⟨hle, rfl⟩, dueAt_isLeast h⟩

/-- A poll that finds the connection alive leaves the policy waiting for as long as said. -/
theorem patience_poll (hpoll : (p.poll now).2 ≠ .dead) :
    (p.poll now).1.patience = p.awaited now := by
  rcases p.poll_cases now with ⟨heq, -⟩ | ⟨heq, -, hping, -⟩ | ⟨heq, -, hquiet⟩
  · rw [heq] at hpoll
    exact absurd rfl hpoll
  · rw [heq, awaited, if_pos (.inr hping)]
    rfl
  · rw [heq, awaited, patience]
    have hflight : p.pingInFlight ∨ p.idleBeforePing ≤ p.idleFor now ↔ p.pingInFlight :=
      or_iff_left_of_imp fun hping => hquiet.resolve_left (not_lt.mpr hping)
    exact (if_congr hflight rfl rfl).symm

/-- After a poll that finds the connection alive the next deadline is still to come. -/
theorem lt_dueAt (hpoll : (p.poll now).2 ≠ .dead) (later : Instant) :
    now < (p.poll now).1.dueAt later := by
  have hlater : ∀ last patience now more : ℕ, now - last < patience →
      now < last + max patience more := by omega
  rcases p.poll_cases now with ⟨heq, -⟩ | ⟨heq, -, -, hlt⟩ | ⟨heq, -, -⟩
  · rw [heq] at hpoll
    exact absurd rfl hpoll
  · rw [heq, dueAt_eq]
    exact hlater _ _ _ _ hlt
  · have hhealthy : now - p.lastSeen < p.patience := by
      rw [← poll_healthy_iff, heq]
    rw [heq, dueAt_eq]
    exact hlater _ _ _ _ hhealthy

end LivenessPolicy

/-! ### Readings of the clock -/

/-- What is done at a reading of the clock. -/
inductive Glance where
  /-- A frame was seen. -/
  | traffic
  | poll
  /-- The clock was only read. -/
  | idle
  deriving DecidableEq, Repr

/-- What is seen of a policy. -/
inductive Sign where
  | traffic (now : Instant)
  | polled (now : Instant) (verdict : Liveness)
  | idle (now : Instant)
  deriving DecidableEq, Repr

namespace Sign

/-- The time a frame was seen. -/
def seen? : Sign → Option Instant
  | traffic now => some now
  | _ => none

/-- The sign is a request for a probe. -/
def isProbe : Sign → Bool
  | polled _ verdict => verdict == .sendPing
  | _ => false

end Sign

/-- A policy, and the last reading of the clock. -/
structure Tracked where
  policy : LivenessPolicy
  clock : Instant

namespace Tracked

/-- A new policy. -/
def init (ping dead : Duration) (start : Instant) (h : ping < dead) : Tracked :=
  ⟨.withThresholds ping dead start h, start⟩

/-- One reading of a clock that never goes back. -/
def step (s : Tracked) (i : Instant × Glance) : Option (Tracked × List Sign) :=
  if s.clock ≤ i.1 then
    match i.2 with
    | .traffic => some (⟨s.policy.sawTraffic i.1, i.1⟩, [.traffic i.1])
    | .poll => some (⟨(s.policy.poll i.1).1, i.1⟩, [.polled i.1 (s.policy.poll i.1).2])
    | .idle => some (⟨s.policy, i.1⟩, [.idle i.1])
  else none

/-- **What a reading can do.** -/
theorem step_cases {s s' : Tracked} {i : Instant × Glance} {o : List Sign}
    (h : s.step i = some (s', o)) : ∃ now, s.clock ≤ now ∧
      ((s' = ⟨s.policy.sawTraffic now, now⟩ ∧ o = [.traffic now]) ∨
       (s' = ⟨(s.policy.poll now).1, now⟩ ∧ o = [.polled now (s.policy.poll now).2]) ∨
       (s' = ⟨s.policy, now⟩ ∧ o = [.idle now])) := by
  obtain ⟨now, glance⟩ := i
  rw [step] at h
  split at h
  · next hle =>
    refine ⟨now, hle, ?_⟩
    cases glance with
    | traffic =>
      cases h
      exact .inl ⟨rfl, rfl⟩
    | poll =>
      cases h
      exact .inr (.inl ⟨rfl, rfl⟩)
    | idle =>
      cases h
      exact .inr (.inr ⟨rfl, rfl⟩)
  · cases h

end Tracked

/-- When the last frame was seen, or the connection began. -/
def lastTraffic (start : Instant) (h : List Sign) : Instant :=
  ((h.filterMap Sign.seen?).getLast?).getD start

/-- No frame is seen. -/
def Unseen (h : List Sign) : Prop := ∀ x ∈ h, x.seen? = none

theorem lastTraffic_snoc (start : Instant) (h : List Sign) (x : Sign) :
    lastTraffic start (h ++ [x]) = x.seen?.getD (lastTraffic start h) := by
  rw [lastTraffic, lastTraffic, List.filterMap_append]
  cases hx : x.seen? with
  | none => simp [hx]
  | some now => simp [hx]

namespace Tracked

variable {ping dead : Duration} {start : Instant} {hlt : ping < dead}

/-- The thresholds stay, and the policy remembers when the last frame was seen. -/
structure Remembers (ping dead : Duration) (start : Instant) (h : List Sign) (s : Tracked) :
    Prop where
  ping : s.policy.idleBeforePing = ping
  dead : s.policy.idleBeforeDead = dead
  seen : s.policy.lastSeen = lastTraffic start h
  past : s.policy.lastSeen ≤ s.clock

theorem remembers_of_run {h : List Sign} {s : Tracked}
    (hrun : Run step (init ping dead start hlt) h s) : Remembers ping dead start h s := by
  refine hrun.invariant (I := Remembers ping dead start) ⟨rfl, rfl, rfl, le_rfl⟩ ?_
  intro h s i s' o hs hstep
  obtain ⟨now, hnow, ⟨rfl, rfl⟩ | ⟨rfl, rfl⟩ | ⟨rfl, rfl⟩⟩ := step_cases hstep
  · refine ⟨hs.ping, hs.dead, ?_, le_rfl⟩
    rw [lastTraffic_snoc]
    rfl
  · obtain ⟨hseen, hping, hdead⟩ := s.policy.poll_frame now
    refine ⟨hping.trans hs.ping, hdead.trans hs.dead, ?_, ?_⟩
    · rw [lastTraffic_snoc]
      exact hseen.trans hs.seen
    · show (s.policy.poll now).1.lastSeen ≤ now
      rw [hseen]
      exact hs.past.trans hnow
  · refine ⟨hs.ping, hs.dead, ?_, hs.past.trans hnow⟩
    rw [lastTraffic_snoc]
    exact hs.seen

/-- Since a frame was seen a probe was asked for at most once, and only if one is in flight. -/
def ProbesOnce (h : List Sign) (s : Tracked) : Prop :=
  ∀ pre stretch, h = pre ++ stretch → Unseen stretch →
    stretch.countP Sign.isProbe ≤ if s.policy.pingInFlight then 1 else 0

theorem probesOnce_of_run {h : List Sign} {s : Tracked}
    (hrun : Run step (init ping dead start hlt) h s) : ProbesOnce h s := by
  refine hrun.invariant (I := ProbesOnce) ?_ ?_
  · intro pre stretch heq _
    rw [(List.append_eq_nil_iff.mp heq.symm).2]
    exact Nat.zero_le _
  · intro h s i s' o hs hstep pre stretch heq hsilent
    -- The stretch is empty, or ends with what is seen now.
    rcases List.eq_nil_or_concat stretch with rfl | ⟨front, x, rfl⟩
    · exact Nat.zero_le _
    · rw [List.concat_eq_append] at heq hsilent ⊢
      rw [← List.append_assoc] at heq
      have hfront : Unseen front := fun y hy => hsilent y (List.mem_append_left _ hy)
      have hx : x.seen? = none := hsilent x (List.mem_append_right _ (List.mem_singleton_self x))
      obtain ⟨now, hnow, ⟨rfl, rfl⟩ | ⟨rfl, rfl⟩ | ⟨rfl, rfl⟩⟩ := step_cases hstep
      · obtain ⟨-, hlast⟩ := List.append_inj' heq rfl
        cases hlast
        cases hx
      · obtain ⟨hpre, hlast⟩ := List.append_inj' heq rfl
        cases hlast
        have hcount := hs pre front hpre hfront
        obtain ⟨hflight, hfirst⟩ := s.policy.pingInFlight_poll now
        rw [List.countP_append, List.countP_singleton]
        show _ ≤ if (s.policy.poll now).1.pingInFlight then 1 else 0
        rw [hflight]
        by_cases hprobe : (s.policy.poll now).2 = .sendPing
        · rw [hfirst hprobe] at hcount
          simp only [Sign.isProbe, hprobe] at hcount ⊢
          simpa using hcount
        · simp only [Sign.isProbe, beq_eq_false_iff_ne.mpr hprobe, Bool.or_false]
          simpa using hcount
      · obtain ⟨hpre, hlast⟩ := List.append_inj' heq rfl
        cases hlast
        rw [List.countP_append]
        simpa [Sign.isProbe] using hs pre front hpre hfront

/-- Between two frames a probe is asked for at most once. -/
theorem probes_le_one {h : List Sign} {s : Tracked}
    (hrun : Run step (init ping dead start hlt) h s) {pre stretch post : List Sign}
    (heq : h = pre ++ stretch ++ post) (hsilent : Unseen stretch) :
    stretch.countP Sign.isProbe ≤ 1 := by
  induction hrun generalizing post with
  | start =>
    rw [(List.append_eq_nil_iff.mp (List.append_eq_nil_iff.mp heq.symm).1).2]
    exact Nat.zero_le 1
  | @step h s s' i o hrun hstep ih =>
    rcases List.eq_nil_or_concat post with rfl | ⟨front, x, rfl⟩
    · rw [List.append_nil] at heq
      have hcount := probesOnce_of_run (hrun.step hstep) pre stretch heq hsilent
      refine hcount.trans ?_
      split <;> omega
    · rw [List.concat_eq_append, ← List.append_assoc] at heq
      have hone : ∃ y, o = [y] := by
        obtain ⟨now, -, ⟨-, rfl⟩ | ⟨-, rfl⟩ | ⟨-, rfl⟩⟩ := step_cases hstep
        · exact ⟨_, rfl⟩
        · exact ⟨_, rfl⟩
        · exact ⟨_, rfl⟩
      obtain ⟨y, rfl⟩ := hone
      exact ih (List.append_inj' heq rfl).1

end Tracked

/-! ### What the runner takes -/

/-- A socket is open. -/
def Location.Connected : Location → Prop
  | .writing | .flushing | .sources => True
  | _ => False

instance : (location : Location) → Decidable location.Connected
  | .writing | .flushing | .sources => isTrue trivial
  | .top | .idle _ | .opening _ | .closing _ | .stopped => isFalse id

namespace Runner

variable {now : Instant} {r : Runner κ} {step : Step κ}

/-- What `sources` takes. -/
def taken (r : Runner κ) (read : Option ReadReply) (command : Option (Option (Command κ × Bool)))
    (timer : Bool) : Option (Step κ) :=
  let acceptCommands := decide (r.app.length < r.config.outboxCapacity)
  let read := read.map ReadReply.step
  let command := if acceptCommands then command.map commandStep else none
  let step := if !r.turn then read.or command else command.or read
  step.or (if timer then some .deadline else none)

/-- The turn passes, and what is taken is done. -/
theorem sources_eq (read : Option ReadReply) (command : Option (Option (Command κ × Bool)))
    (timer : Bool) (r : Runner κ) : sources now read command timer r =
      (match r.taken read command timer with
        | some step => afterStep now step
        | none => pure .writing : RunAct κ Location) { r with turn := !r.turn } := by
  rfl

/-- **A step after which the socket stays open**: nothing failed, and the timer is armed. -/
theorem afterStep_open (h : ((afterStep now step).value r).Connected) :
    (take now step).value r = none ∧ ((take now step).state r).fatal = none ∧
      ((take now step).state r).shutdown = false ∧ (afterStep now step).value r = .writing ∧
      (afterStep now step).state r = (armTimer now).state
        (syncState.state ((take now step).state r)) := by
  cases hfatal : ((take now step).state r).fatal with
  | some fatal => simp [afterStep, syncState, hfatal, Location.Connected] at h
  | none =>
    cases hshutdown : ((take now step).state r).shutdown with
    | true => simp [afterStep, syncState, hfatal, hshutdown, Location.Connected] at h
    | false =>
      rcases houtcome : (take now step).value r with _ | ⟨reason⟩ | _ | fatal
      · refine ⟨rfl, rfl, rfl, ?_, ?_⟩
        · simp [afterStep, syncState, hfatal, hshutdown, houtcome]
        · simp [afterStep, syncState, hfatal, hshutdown, houtcome]
      · simp [afterStep, syncState, hfatal, hshutdown, houtcome, Location.Connected] at h
      · simp [afterStep, syncState, hfatal, hshutdown, houtcome, Location.Connected] at h
      · simp [afterStep, syncState, hfatal, hshutdown, houtcome, Location.Connected] at h

/-- A deadline step that does not close the connection: nothing is due. -/
theorem onDeadline_open (h : (onDeadline now).value r = none) :
    (r.liveness.poll now).2 ≠ .dead ∧
      ((onDeadline now).state r).liveness = (r.liveness.poll now).1 ∧
      ∀ d, ((onDeadline now).state r).handshakeDeadline = some d → now < d := by
  set deadline := if r.session.phase = .ready then none else r.handshakeDeadline with hdeadline
  by_cases hdue : deadline.any (· ≤ now) = true
  · simp [onDeadline, ← hdeadline, hdue] at h
  · have hlater : ∀ d, deadline = some d → now < d := by
      intro d hd
      rw [hd, Option.any_some, decide_eq_true_eq] at hdue
      exact not_le.mp hdue
    rcases hverdict : (r.liveness.poll now).2 with _ | _ | _
    · refine ⟨by simp, ?_, ?_⟩
      · simp [onDeadline, ← hdeadline, hdue, hverdict]
      · simpa [onDeadline, ← hdeadline, hdue, hverdict] using hlater
    · refine ⟨by simp, ?_, ?_⟩
      · simp [onDeadline, ← hdeadline, hdue, hverdict]
        rfl
      · intro d hd
        refine hlater d (Eq.trans ?_ hd)
        simp [onDeadline, ← hdeadline, hdue, hverdict]
        rfl
    · simp [onDeadline, ← hdeadline, hdue, hverdict] at h

/-- The timer armed after such a step is still to come. -/
theorem lt_armTimer (h : (onDeadline now).value r = none) (later : Instant) :
    now < ((armTimer later).state (syncState.state ((onDeadline now).state r))).timer := by
  obtain ⟨halive, hliveness, hlater⟩ := onDeadline_open h
  have hnext := LivenessPolicy.lt_dueAt halive later
  rw [← hliveness] at hnext
  simp only [armTimer, Act.state_modify]
  split
  case h_1 d hdeadline => exact lt_min hnext (hlater d hdeadline)
  case h_2 => exact hnext

/-- The timer is armed at `later`, after a deadline step at `now`; `none` if that panics. -/
def rearm (latest now later : Instant) (r : Runner κ) : Option (Runner κ) :=
  armTimerWithin latest later (syncState.state ((onDeadline now).state r))

variable {latest later : Instant}

/-- After a deadline step that leaves the connection open, the timer is armed just if the sum
behind the liveness deadline is an instant of the platform. -/
theorem rearm_eq_some (h : (onDeadline now).value r = none) (hlater : later ≤ latest)
    {r' : Runner κ} : rearm latest now later r = some r' ↔
      r.liveness.lastSeen + r.liveness.awaited now ≤ latest ∧
        r' = (armTimer later).state (syncState.state ((onDeadline now).state r)) := by
  obtain ⟨halive, hliveness, -⟩ := onDeadline_open h
  have hsum : (syncState.state ((onDeadline now).state r)).liveness.dueAt later ≤ latest ↔
      r.liveness.lastSeen + r.liveness.awaited now ≤ latest := by
    show ((onDeadline now).state r).liveness.dueAt later ≤ latest ↔ _
    rw [hliveness, LivenessPolicy.dueAt_le_iff hlater, LivenessPolicy.patience_poll halive,
      (r.liveness.poll_frame now).1]
  rw [rearm, armTimerWithin_eq_some, hsum]

end Runner

namespace World

/-- What a step takes from the sources. -/
def taken (w : World κ) : Input κ → Option (Step κ)
  | .poll read command timer => w.runner.taken read command timer
  | _ => none

variable {w w' : World κ} {input : Input κ} {o : List (Seen κ)}

/-- What is taken is done, and the turn passes. -/
theorem step_of_taken {step : Step κ} (hs : w.step input = some (w', o))
    (htaken : w.taken input = some step) : w'.clock = w.clock ∧
      w'.runner = (Runner.afterStep w.clock step).state
        { w.runner with turn := !w.runner.turn } ∧
      w'.location = (Runner.afterStep w.clock step).value
        { w.runner with turn := !w.runner.turn } := by
  cases input with
  | poll read command timer =>
    have htaken' : w.runner.taken read command timer = some step := htaken
    simp only [World.step] at hs
    split at hs
    · have he := Option.some.inj (Option.ite_none_right_eq_some.mp hs).2
      rw [advance, Runner.sources_eq, htaken'] at he
      obtain ⟨rfl, -⟩ := Prod.mk.inj he
      exact ⟨rfl, rfl, rfl⟩
    · cases hs
  | _ => cases htaken

end World

/-- **When the liveness deadline is exact and does not spin.**  Finding it adds a threshold to the
last sign of life: the death of the connection while a probe is in flight, the probe otherwise.
Just if that is an instant of the platform, the deadline is the first time a poll has something
to say, and after a deadline step the timer is armed for a later time.  The polls are right in
every case. -/
theorem liveness_exact_iff (latest : Instant) :
    (∀ (ping dead : Duration) (start : Instant) (hlt : ping < dead) (h : List Sign) (s : Tracked),
      Run Tracked.step (Tracked.init ping dead start hlt) h s →
        (∀ now, s.clock ≤ now → now ≤ latest → (s.policy.FindsFirst latest now ↔
          lastTraffic start h + (if s.policy.pingInFlight then dead else ping) ≤ latest)) ∧
        (∀ now, s.clock ≤ now →
          ((s.policy.poll now).2 = .dead ↔ dead ≤ now - lastTraffic start h)) ∧
        (∀ pre stretch post, h = pre ++ stretch ++ post → Unseen stretch →
          stretch.countP Sign.isProbe ≤ 1)) ∧
    (∀ (w w' : World κ) (input : Input κ) (o : List (Seen κ)), w.step input = some (w', o) →
      w.taken input = some .deadline → w'.location.Connected → w.clock ≤ latest →
        ((Runner.rearm latest w.clock w.clock { w.runner with turn := !w.runner.turn } =
            some w'.runner ∧ w.clock < w'.runner.timer) ↔
          w.runner.liveness.lastSeen + w.runner.liveness.awaited w.clock ≤ latest)) ∧
    (∀ (r : Runner κ) (now later : Instant), (Runner.onDeadline now).value r = none →
      later ≤ latest →
        ((∃ r', Runner.rearm latest now later r = some r' ∧ now < r'.timer) ↔
          r.liveness.lastSeen + r.liveness.awaited now ≤ latest)) := by
  -- The three parts about the policy alone, of its whole run.
  refine ⟨fun ping dead start hlt h s hrun => ⟨?_, ?_, ?_⟩, ?_, ?_⟩
  · intro now hnow hlatest
    have hs := Tracked.remembers_of_run hrun
    rw [LivenessPolicy.findsFirst_iff (hs.past.trans hnow) hlatest, LivenessPolicy.patience,
      hs.seen, hs.dead, hs.ping]
  · intro now hnow
    have hs := Tracked.remembers_of_run hrun
    rw [LivenessPolicy.poll_dead_iff, hs.dead, hs.seen]
  · intro pre stretch post
    exact Tracked.probes_le_one hrun
  · -- A deadline step of the connection, whose outcome is to go on.
    intro w w' input o hstep htaken hopen hlatest
    obtain ⟨-, hrunner, hlocation⟩ := World.step_of_taken hstep htaken
    rw [hlocation] at hopen
    obtain ⟨houtcome, -, -, -, hstate⟩ := Runner.afterStep_open hopen
    rw [hrunner, hstate, Runner.rearm_eq_some houtcome hlatest]
    exact ⟨fun h => h.1.1, fun h => ⟨⟨h, rfl⟩, Runner.lt_armTimer houtcome w.clock⟩⟩
  · -- Any runner at a deadline.
    intro r now later houtcome hlatest
    constructor
    · rintro ⟨r', hr', -⟩
      exact ((Runner.rearm_eq_some houtcome hlatest).mp hr').1
    · intro hle
      exact ⟨_, (Runner.rearm_eq_some houtcome hlatest).mpr ⟨hle, rfl⟩,
        Runner.lt_armTimer houtcome later⟩

/-- With the default thresholds the first deadline is found: the probe. -/
theorem liveness_exact_default : LivenessPolicy.FindsFirst Instant.latestOfSeconds
    (.withThresholds LivenessPolicy.defaultPingAfter LivenessPolicy.defaultDeadAfter 0
      (by decide)) 0 :=
  (((liveness_exact_iff (κ := Unit) Instant.latestOfSeconds).1 LivenessPolicy.defaultPingAfter
    LivenessPolicy.defaultDeadAfter 0 (by decide) [] _ .start).1 0 le_rfl (Nat.zero_le _)).mpr
    (by decide)

/-- A connection that is never given up: once a probe is in flight, no deadline is found. -/
theorem not_liveness_exact : ¬ ∀ (ping dead : Duration) (start : Instant) (hlt : ping < dead)
    (h : List Sign) (s : Tracked), dead ≤ Duration.max →
      Run Tracked.step (Tracked.init ping dead start hlt) h s →
        ∀ now, s.clock ≤ now → now ≤ Instant.latestOfSeconds →
          s.policy.FindsFirst Instant.latestOfSeconds now := by
  intro hall
  have hstart : Run Tracked.step (Tracked.init LivenessPolicy.defaultPingAfter Duration.max 0
    (by decide)) [] _ := .start
  have hrun := hstart.step (i := (LivenessPolicy.defaultPingAfter, Glance.poll)) rfl
  obtain ⟨d, hd, -⟩ := hall _ _ _ _ _ _ le_rfl hrun LivenessPolicy.defaultPingAfter le_rfl
    (by decide)
  have hle := (LivenessPolicy.nextDeadline_eq_some.mp hd).1
  revert hle
  decide

end RocketSocket
