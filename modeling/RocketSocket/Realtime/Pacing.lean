import RocketSocket.Realtime.Replies

/-!
# Reconnect pacing

What `Runner::run` and `Runner::disconnected` make of the backoff over whole runs.  A run
is looked at through the events that matter for its pace: the waits it schedules, the
sockets it opens, the logins that succeed on them, the connections it loses, and the
moments its counter returns to zero.

## Main definitions

* `Pace`, `World.paced` — the runner, observed through its pace.
* `waitsSince` — how many attempts were scheduled since the counter was last zero.
* `EndsStable`, `Unstable` — a session that lasted was just lost; none was.
* `Pacing` — the invariant.

## Main results

* `World.step_paced` — what a step does to the pace.
* `World.paced_of_run` — the invariant of a run.
* `reconnect_pacing` — **only a session that lasted clears the backoff**, and between two
  such sessions the windows grow.
-/

namespace RocketSocket

open Machine

variable {κ : Type}

/-! ### What a run shows of its pace -/

/-- What matters for the pace of reconnecting. -/
inductive Pace where
  /-- An attempt to connect was scheduled after a delay, drawn from so many milliseconds. -/
  | wait (delay : Duration) (millis : ℕ)
  /-- A socket was opened. -/
  | opened
  /-- A login succeeded. -/
  | ready (now : Instant)
  /-- The connection was lost, or none was made. -/
  | lost (now : Instant)
  /-- The counter of the backoff returned to zero. -/
  | reset
  deriving DecidableEq, Repr

/-- What an observation made at a time says of the pace. -/
def Obs.pace (now : Instant) : Seen κ → Option Pace
  | (_, .opened) => some .opened
  | (_, .emitted (.ready _)) => some (.ready now)
  | (_, .emitted (.disconnected _)) => some (.lost now)
  | _ => none

namespace World

/-- The wait a step schedules: `run` goes on to `idle`, or straight to `open`. -/
def waits (w w' : World κ) : Input κ → List Pace
  | .begin _ => match w'.location with
    | .idle wake => [.wait (wake - w.clock) w.runner.backoff.drawMillis]
    | .opening _ => [.wait 0 w.runner.backoff.drawMillis]
    | _ => []
  | _ => []

/-- The pace of a step. -/
def paces (w w' : World κ) (input : Input κ) (o : List (Seen κ)) : List Pace :=
  w.waits w' input ++ o.filterMap (Obs.pace w.clock) ++
    if w.runner.backoff.attempt ≠ 0 ∧ w'.runner.backoff.attempt = 0 then [.reset] else []

/-- The runner, observed through its pace. -/
def paced (w : World κ) (input : Input κ) : Option (World κ × List Pace) :=
  (w.step input).map fun p => (p.1, w.paces p.1 input p.2)

/-- Every run has a pace. -/
theorem exists_run_paced {config : Config} {h : List (Seen κ)} {w : World κ}
    (hrun : Run step (init config) h w) : ∃ h', Run paced (init config) h' w := by
  induction hrun with
  | start => exact ⟨[], .start⟩
  | step _ hs ih =>
    obtain ⟨h', hrun'⟩ := ih
    exact ⟨_, hrun'.step (by rw [paced, hs]; rfl)⟩

end World

/-- The number of waits counted after one more event. -/
def Pace.count (n : ℕ) : Pace → ℕ
  | .wait .. => n + 1
  | .reset => 0
  | _ => n

/-- How many attempts were scheduled since the counter was last zero. -/
def waitsSince (h : List Pace) : ℕ := h.foldl Pace.count 0

theorem waitsSince_snoc (h : List Pace) (x : Pace) :
    waitsSince (h ++ [x]) = x.count (waitsSince h) := by
  rw [waitsSince, List.foldl_append]
  rfl

/-- The last connection was lost, and its last login had succeeded long enough before. -/
def EndsStable (stableAfter : Duration) (h : List Pace) : Prop :=
  ∃ p t t', h = p ++ [.ready t, .lost t'] ∧ t + stableAfter ≤ t'

/-- No session that lasted is lost. -/
def Unstable (stableAfter : Duration) (h : List Pace) : Prop :=
  ∀ p q, h = p ++ q → ¬ EndsStable stableAfter p

/-! ### What the computations of the runner do to the pace -/

/-- What of the runner decides its pace. -/
structure Pacer where
  stableAfter : Duration
  backoff : Backoff
  readyAt : Option Instant

/-- What of the runner decides its pace. -/
def Runner.pacer (r : Runner κ) : Pacer := ⟨r.config.stableAfter, r.backoff, r.readyAt⟩

namespace Pacer

/-- The next attempt is scheduled. -/
def scheduled (draw : ℕ) (p : Pacer) : Pacer :=
  { p with backoff := (p.backoff.nextDelay draw).1 }

/-- The session ended: the backoff is cleared if it lasted. -/
def disconnected (now : Instant) (p : Pacer) : Pacer := { p with
  backoff := match p.readyAt with
    | some readyAt => if p.stableAfter ≤ now - readyAt then p.backoff.reset else p.backoff
    | none => p.backoff
  readyAt := none }

/-- The backoff is cleared only by a session that lasted. -/
theorem disconnected_cases (now : Instant) (p : Pacer) :
    p.disconnected now = { p with readyAt := none } ∨
    ∃ t, p.readyAt = some t ∧ p.stableAfter ≤ now - t ∧
      p.disconnected now = { p with backoff := p.backoff.reset, readyAt := none } := by
  unfold disconnected
  cases hready : p.readyAt with
  | none => exact .inl rfl
  | some t =>
    by_cases hstable : p.stableAfter ≤ now - t
    · exact .inr ⟨t, rfl, hstable, by simp only [if_pos hstable]⟩
    · exact .inl (by simp only [if_neg hstable])

/-- While a socket is driven nothing happens to the pace, or a login succeeds. -/
inductive Goes (now : Instant) : Pacer → List (Seen κ) → Pacer → Prop
  | quiet {p : Pacer} {o : List (Seen κ)} : (∀ x ∈ o, Obs.pace now x = none) → Goes now p o p
  | ready {p : Pacer} (g : ℕ) (epoch : Epoch) :
    Goes now p [(g, .emitted (.ready epoch))] { p with readyAt := some now }

end Pacer

namespace Runner

variable {now : Instant} {α β : Type}

/-! #### Computations that leave the pace alone -/

/-- The computation leaves the pace alone. -/
structure Rests (now : Instant) (x : RunAct κ α) : Prop where
  shows : Shows (fun x => Obs.pace now x = none) x
  pacer : ∀ r, (x.state r).pacer = r.pacer

theorem Rests.bind {x : RunAct κ α} {f : α → RunAct κ β} (hx : Rests now x)
    (hf : ∀ a, Rests now (f a)) : Rests now (x >>= f) := by
  refine ⟨.bind hx.shows fun a => (hf a).shows, fun r => ?_⟩
  rw [Act.state_bind, (hf _).pacer, hx.pacer]

theorem rests_pure (a : α) : Rests now (pure a : RunAct κ α) := ⟨.pure a, fun _ => rfl⟩

theorem rests_get : Rests now (Act.get : RunAct κ (Runner κ)) := ⟨.get, fun _ => rfl⟩

theorem rests_modify {g : Runner κ → Runner κ} (hg : ∀ r, (g r).pacer = r.pacer) :
    Rests now (Act.modify g : RunAct κ Unit) := ⟨.modify g, hg⟩

theorem rests_wire {x : Act (Wire κ) (Seen κ) α}
    (hx : Shows (fun x => Obs.pace now x = none) x) : Rests now (wire x) :=
  ⟨shows_wire hx, fun _ => rfl⟩

theorem rests_emit {event : Event} (hready : ∀ epoch, event ≠ .ready epoch)
    (hlost : ∀ reason, event ≠ .disconnected reason) :
    Rests now (emit event : RunAct κ Unit) := by
  refine rests_wire (.say fun w => ?_)
  cases event with
  | ready epoch => exact absurd rfl (hready epoch)
  | disconnected reason => exact absurd rfl (hlost reason)
  | _ => rfl

theorem rests_push (frame : ClientMessage) :
    Rests now (wire (Wire.pushPriority frame none) : RunAct κ Unit) :=
  rests_wire (.bind (.modify _) fun _ => .say fun _ => rfl)

theorem rests_settle (why : Ending) : Rests now (settle why : RunAct κ Unit) := by
  refine .bind (rests_wire ?_) fun _ => rests_modify fun _ => rfl
  rintro w ⟨g, x⟩ hx
  obtain ⟨-, rfl | ⟨m, p, -, rfl⟩⟩ := (w.mem_settleObs).mp hx
  · rfl
  · rfl

theorem rests_login : Rests now (apply now .login : RunAct κ Unit) := by
  refine .bind rests_get fun r => rests_wire fun w x hx => ?_
  rw [Wire.obs_login, List.mem_singleton] at hx
  subst hx
  rfl

theorem rests_hear (message : ServerMessage) :
    Rests now (wire (Wire.hear message) : RunAct κ (List Action)) := by
  refine rests_wire fun w x hx => ?_
  obtain rfl := List.mem_singleton.mp hx
  rfl

theorem rests_correlate (message : ServerMessage) :
    Rests now (wire (Wire.correlate message) : RunAct κ Unit) :=
  rests_wire (Wire.shows_correlate message fun _ _ _ _ => rfl)

theorem rests_handleCommand (command : Command κ) (dropped : Bool) :
    Rests now (handleCommand command dropped) := by
  refine .bind (rests_wire fun w x hx => ?_) fun _ => ?_
  · rcases w.take_cases command dropped with ⟨ho, -⟩ | ⟨_, -, ho, -⟩ | ⟨_, ho, -⟩ |
      ⟨_, _, -, -, ho, -⟩
    all_goals
      rw [ho, List.mem_singleton] at hx
      subst hx
      rfl
  · cases command with
    | shutdown => exact rests_modify fun _ => rfl
    | _ => exact rests_pure _

theorem rests_hand (accepted : Bool) :
    Rests now (wire (Wire.hand accepted) : RunAct κ Unit) := by
  refine rests_wire fun w x hx => ?_
  rcases w.hand_cases accepted with ⟨_, _, -, ho, -⟩ | ⟨_, _, -, -, ho, -⟩ | ⟨-, -, ho, -⟩
  · rw [ho, List.mem_singleton] at hx
    exact hx ▸ rfl
  · rw [ho, List.mem_singleton] at hx
    exact hx ▸ rfl
  · simp [ho] at hx

theorem rests_onDeadline : Rests now (onDeadline now : RunAct κ (Option Outcome)) := by
  refine .bind (rests_modify fun _ => rfl) fun _ => .bind rests_get fun r => ?_
  split
  · exact rests_pure _
  · refine .bind (rests_modify fun _ => rfl) fun _ => ?_
    split
    · exact rests_pure _
    · exact .bind (rests_push _) fun _ => rests_pure _
    · exact rests_pure _

theorem rests_stop : Rests now (stop : RunAct κ Location) := by
  refine .bind (rests_modify fun r => ?_) fun _ => .bind (rests_settle _) fun _ => rests_pure _
  split
  · rfl
  · rfl

theorem rests_connecting : Rests now (connecting now : RunAct κ Location) :=
  .bind (rests_modify fun _ => rfl) fun _ => .bind rests_get fun _ =>
    .bind (rests_emit (by simp) (by simp)) fun _ => .bind rests_get fun _ => rests_pure _

theorem rests_idleCommand {wake : Instant} (command : Option (Command κ × Bool)) :
    Rests now (idleCommand wake command) := by
  match command with
  | some (command, dropped) =>
    refine .bind (rests_handleCommand command dropped) fun _ => .bind rests_get fun r => ?_
    split
    · exact rests_stop
    · exact rests_pure _
  | none => exact .bind (rests_modify fun _ => rfl) fun _ => rests_stop

theorem rests_finish (fatal : Option Fatal) : Rests now (finish fatal : RunAct κ Location) := by
  refine .bind (rests_settle _) fun _ => ?_
  cases fatal with
  | none =>
    exact .bind (rests_modify fun _ => rfl) fun _ => .bind (rests_modify fun _ => rfl) fun _ =>
      rests_stop
  | some fatal =>
    exact .bind (rests_modify fun _ => rfl) fun _ => .bind (rests_emit (by simp) (by simp))
      fun _ => rests_stop

/-! #### Computations that drive a socket -/

/-- The computation only lets logins succeed. -/
abbrev Goes (now : Instant) (x : RunAct κ α) : Prop :=
  Performs pacer (Pacer.Goes now) (fun _ => True) x fun _ _ => True

theorem Rests.goes {x : RunAct κ α} (hx : Rests now x) : Goes now x := by
  intro r _
  rw [hx.pacer r]
  exact ⟨.single (.quiet (hx.shows r)), trivial⟩

theorem goes_modify {g : Runner κ → Runner κ} (hg : ∀ r, (g r).pacer = r.pacer) :
    Goes now (Act.modify g : RunAct κ Unit) := (rests_modify hg).goes

theorem goes_apply (action : Action) : Goes now (apply now action : RunAct κ Unit) := by
  cases action with
  | send frame => exact (rests_push frame).goes
  | login => exact rests_login.goes
  | resubscribe =>
    intro r _
    refine ⟨?_, trivial⟩
    -- The login is recorded before it is announced; the two are one step.
    show Chain _ r.pacer ([(r.generation, Obs.emitted (.ready _))] ++
      [(r.generation, Obs.emitted (.resubscribe _))]) _
    exact .append (.single (.ready r.generation _)) (.single (.quiet (by simp [Obs.pace])))
  | fatal fatal => exact goes_modify fun _ => rfl
  | protocolViolation msg => exact (rests_pure _).goes

theorem goes_onText (message : ServerMessage) :
    Goes now (onText now message : RunAct κ Unit) := by
  refine .bind (rests_hear message).goes fun actions => .bind ?_ fun _ =>
    .bind (rests_correlate message).goes fun _ => ?_
  · exact .forM actions fun action _ => goes_apply action
  · cases hevent : eventOf message with
    | none => exact (rests_pure _).goes
    | some event =>
      refine (rests_emit ?_ ?_).goes
      · exact fun epoch he => eventOf_ne_ready (he ▸ hevent) epoch rfl
      · rintro reason rfl
        cases message <;> simp [eventOf] at hevent

theorem goes_onFrame (frame : Frame) : Goes now (onFrame now frame : RunAct κ _) := by
  refine .bind (goes_modify fun _ => rfl) fun _ => ?_
  match frame with
  | .text (some message) => exact .bind (goes_onText message) fun _ => (rests_pure _).goes
  | .text none => exact (rests_pure _).goes
  | .close none => exact (rests_pure _).goes
  | .close (some (code, reason)) => exact (rests_pure _).goes
  | .binary => exact (rests_pure _).goes
  | .control => exact (rests_pure _).goes

theorem goes_take (step : Step κ) : Goes now (take now step) := by
  cases step with
  | frame frame => exact goes_onFrame frame
  | command command dropped =>
    exact .bind (rests_handleCommand command dropped).goes fun _ => (rests_pure _).goes
  | deadline => exact rests_onDeadline.goes
  | eof => exact (rests_pure _).goes
  | failed error => exact (rests_pure _).goes
  | handlesDropped => exact (rests_pure _).goes

/-! #### What ends a connection -/

/-- The observations are those of a lost connection. -/
def Loses (now : Instant) (p : Pacer) (o : List (Seen κ)) (p' : Pacer) : Prop :=
  o.filterMap (Obs.pace now) = [.lost now] ∧ p' = p.disconnected now

theorem loses_disconnected (reason : String) (r : Runner κ) :
    Loses now r.pacer ((disconnected now reason : RunAct κ Unit).obs r)
      ((disconnected now reason : RunAct κ Unit).state r).pacer := by
  constructor
  · show List.filterMap _ ((settle .lost : RunAct κ Unit).obs _ ++ [(_, .emitted _)]) = _
    rw [List.filterMap_append, List.filterMap_eq_nil_iff.2 ((rests_settle .lost).shows _)]
    rfl
  · rfl

/-- No socket is open, and an attempt is still to come. -/
def Attempting : Location → Prop
  | .top | .idle _ | .opening _ => True
  | _ => False

/-- The computation lets logins succeed and goes on with the socket or with closing it,
or loses the connection afterwards. -/
def Drives (now : Instant) (x : RunAct κ Location) : Prop := ∀ r,
  (Chain (Pacer.Goes now) r.pacer (x.obs r) (x.state r).pacer ∧ ¬ Attempting (x.value r)) ∨
  ∃ p o o', x.obs r = o ++ o' ∧ Chain (Pacer.Goes now) r.pacer o p ∧
    Loses now p o' (x.state r).pacer

theorem Drives.bind {x : RunAct κ α} {f : α → RunAct κ Location} (hx : Goes now x)
    (hf : ∀ a, Drives now (f a)) : Drives now (x >>= f) := by
  intro r
  have hc := (hx r trivial).1
  rcases hf (x.value r) (x.state r) with ⟨hc', hl⟩ | ⟨p, o, o', ho, hc', hlost⟩
  · exact .inl ⟨hc.append hc', hl⟩
  · refine .inr ⟨p, x.obs r ++ o, o', ?_, hc.append hc', hlost⟩
    rw [Act.obs_bind, ho, List.append_assoc]

theorem drives_pure {location : Location} (hl : ¬ Attempting location) :
    Drives now (pure location : RunAct κ Location) := fun _ => .inl ⟨.nil _, hl⟩

theorem drives_lost (reason : String) : Drives now (do
    disconnected now reason
    return .top : RunAct κ Location) := by
  exact fun r => .inr ⟨r.pacer, [], (disconnected now reason : RunAct κ Unit).obs r,
    List.append_nil _, .nil _, loses_disconnected reason r⟩

theorem drives_afterStep (step : Step κ) : Drives now (afterStep now step) := by
  refine .bind (goes_take step) fun outcome => .bind (goes_modify fun _ => rfl) fun _ =>
    .bind rests_get.goes fun r => ?_
  split
  · exact .bind (goes_modify fun _ => rfl) fun _ => drives_pure id
  · split
    · exact drives_pure id
    · split
      · exact drives_lost _
      · exact drives_pure id
      · exact drives_pure id
      · exact .bind (goes_modify fun _ => rfl) fun _ => drives_pure id

theorem drives_write (reply : SinkReply) : Drives now (write now reply : RunAct κ Location) := by
  refine .bind rests_get.goes fun r => ?_
  dsimp only
  split
  · exact drives_pure id
  · match reply with
    | .pending => exact drives_pure id
    | .failed error => exact drives_afterStep _
    | .ready (.error error) => exact .bind (rests_hand _).goes fun _ => drives_afterStep _
    | .ready (.ok ()) =>
      exact .bind (rests_hand _).goes fun _ => .bind (goes_modify fun _ => rfl) fun _ =>
        drives_pure id

theorem drives_flush (reply : FlushReply) : Drives now (flush now reply : RunAct κ Location) := by
  refine .bind rests_get.goes fun r => ?_
  split
  · match reply with
    | some (.ok ()) =>
      exact .bind (goes_modify fun _ => rfl) fun _ =>
        .bind (rests_wire (.modify _)).goes fun _ => drives_pure id
    | some (.error error) => exact drives_afterStep _
    | none => exact drives_pure id
  · exact drives_pure id

theorem drives_sources (read : Option ReadReply) (command : Option (Option (Command κ × Bool)))
    (timer : Bool) : Drives now (sources now read command timer) := by
  refine .bind rests_get.goes fun r => .bind (goes_modify fun _ => rfl) fun _ => ?_
  dsimp only
  split
  · exact drives_afterStep _
  · exact drives_pure id

/-! #### What makes a connection -/

theorem begin_shutdown {draw : ℕ} {r : Runner κ} (h : r.shutdown = true) :
    (begin now draw : RunAct κ Location) r = (stop : RunAct κ Location) r := by
  show (if r.shutdown = true then stop else _ : RunAct κ Location) r = _
  rw [if_pos h]

/-- The head of the loop schedules the next attempt. -/
theorem begin_next {draw : ℕ} {r : Runner κ} (h : ¬ r.shutdown = true) :
    (begin now draw : RunAct κ Location) r =
      (if (r.backoff.nextDelay draw).2 = 0 then connecting now else do
        setState .disconnected
        return .idle (now + (r.backoff.nextDelay draw).2) : RunAct κ Location)
      { r with backoff := (r.backoff.nextDelay draw).1 } := by
  show (if r.shutdown = true then stop else _ : RunAct κ Location) r = _
  rw [if_neg h]
  rfl

theorem value_finish (fatal : Option Fatal) (r : Runner κ) :
    (finish fatal : RunAct κ Location).value r = .stopped := by
  cases fatal <;> rfl

theorem obs_drive (r : Runner κ) :
    ((drive now : RunAct κ Location).obs r).filterMap (Obs.pace now) = [.opened] := rfl

end Runner

/-! ### What a step does to the pace -/

namespace World

/-- What a step does to the pace. -/
inductive Moves (w w' : World κ) (input : Input κ) (o : List (Seen κ)) : Prop
  /-- Nothing. -/
  | rests : o.filterMap (Obs.pace w.clock) = [] → w.waits w' input = [] →
    w'.runner.pacer = w.runner.pacer →
    (Runner.Attempting w'.location → Runner.Attempting w.location) → Moves w w' input o
  /-- The next attempt to connect is scheduled. -/
  | schedules (draw : ℕ) : Runner.Attempting w.location → o.filterMap (Obs.pace w.clock) = [] →
    w.waits w' input = [.wait (w.runner.backoff.nextDelay draw).2 w.runner.backoff.drawMillis] →
    w'.runner.pacer = w.runner.pacer.scheduled draw → Moves w w' input o
  /-- The attempt brought a socket. -/
  | opens : Runner.Attempting w.location → o.filterMap (Obs.pace w.clock) = [.opened] →
    w.waits w' input = [] → w'.runner.pacer = w.runner.pacer → Moves w w' input o
  /-- The socket is driven. -/
  | drives : Chain (Pacer.Goes w.clock) w.runner.pacer o w'.runner.pacer →
    w.waits w' input = [] → ¬ Runner.Attempting w'.location → Moves w w' input o
  /-- The socket is driven, and then the connection is lost. -/
  | loses {p : Pacer} {o₁ o₂ : List (Seen κ)} : o = o₁ ++ o₂ →
    Chain (Pacer.Goes w.clock) w.runner.pacer o₁ p →
    Runner.Loses w.clock p o₂ w'.runner.pacer → w.waits w' input = [] → Moves w w' input o

/-- The head of the loop: the task ends, or the next attempt is scheduled. -/
theorem begin_moves {w : World κ} (draw : ℕ) (hl : Runner.Attempting w.location) :
    Moves w (w.advance (Runner.begin w.clock draw)).1 (.begin draw)
      (w.advance (Runner.begin w.clock draw)).2 := by
  by_cases hshutdown : w.runner.shutdown = true
  · rw [advance, Runner.begin_shutdown hshutdown]
    have hstop : Runner.Rests w.clock (Runner.stop : RunAct κ Location) := Runner.rests_stop
    exact .rests (List.filterMap_eq_nil_iff.2 (hstop.shows w.runner)) rfl (hstop.pacer w.runner)
      False.elim
  · rw [advance, Runner.begin_next hshutdown]
    by_cases hzero : (w.runner.backoff.nextDelay draw).2 = 0
    · rw [if_pos hzero]
      have hconnect : Runner.Rests w.clock (Runner.connecting w.clock : RunAct κ Location) :=
        Runner.rests_connecting
      refine .schedules draw hl (List.filterMap_eq_nil_iff.2 (hconnect.shows _)) ?_ rfl
      rw [hzero]
      rfl
    · rw [if_neg hzero]
      refine .schedules draw hl rfl ?_ rfl
      show [Pace.wait (w.clock + _ - w.clock) _] = _
      rw [Nat.add_sub_cancel_left]

/-- **What a step does to the pace.** -/
theorem step_paced {w w' : World κ} {input : Input κ} {o : List (Seen κ)}
    (hs : w.step input = some (w', o)) : Moves w w' input o := by
  rcases step_cases hs with ⟨elapsed, rfl, rfl, rfl⟩ | ⟨x, hx, he⟩
  · exact .rests rfl rfl rfl id
  · obtain ⟨rfl, rfl⟩ := Prod.mk.inj he
    -- A step rests, or it drives the connection and may lose it at the end.
    have hrests : Runner.Rests w.clock x → w.waits (w.advance x).1 input = [] →
        (Runner.Attempting (x.value w.runner) → Runner.Attempting w.location) →
        Moves w (w.advance x).1 input (w.advance x).2 := fun hr hwaits hl =>
      .rests (List.filterMap_eq_nil_iff.2 (hr.shows w.runner)) hwaits (hr.pacer w.runner) hl
    have hdrives : Runner.Drives w.clock x → w.waits (w.advance x).1 input = [] →
        Moves w (w.advance x).1 input (w.advance x).2 := by
      intro hd hwaits
      rcases hd w.runner with ⟨hc, hl⟩ | ⟨p, o₁, o₂, ho, hc, hlost⟩
      · exact .drives hc hwaits hl
      · exact .loses ho hc hlost hwaits
    -- Which of the two it is depends on the location.
    cases hx with
    | begin draw hl => exact begin_moves draw (by simp [hl, Runner.Attempting])
    | elapsed hl =>
      exact hrests Runner.rests_connecting rfl fun _ => by simp [hl, Runner.Attempting]
    | command command hl =>
      exact hrests (Runner.rests_idleCommand command) rfl fun _ => by simp [hl, Runner.Attempting]
    | opened hl => exact .opens (by simp [hl, Runner.Attempting]) (Runner.obs_drive _) rfl rfl
    | openFailed reason hoffer hl =>
      refine .loses (List.append_nil _) (.nil _)
        (Runner.loses_disconnected reason w.runner) ?_
      cases input <;> rfl
    | sink reply hl => exact hdrives (Runner.drives_write reply) rfl
    | flush reply hl => exact hdrives (Runner.drives_flush reply) rfl
    | poll read command timer hl => exact hdrives (Runner.drives_sources read command timer) rfl
    | closed hl =>
      refine hrests (Runner.rests_finish _) rfl fun h => ?_
      rw [Runner.value_finish] at h
      exact h.elim

end World

/-! ### The invariant -/

/-- The backoff a configuration starts with. -/
def Config.backoff (config : Config) : Backoff :=
  .withLimits config.backoffBase config.backoffCap

/-- What the pace of a run promises at each event. -/
def Pace.Lawful (config : Config) (pre : List Pace) : Pace → Prop
  | .reset => EndsStable config.stableAfter pre
  | .wait delay millis =>
    millis = config.backoff.before (waitsSince pre + 1) ∧ ∃ k ≤ millis, delay = k * 10 ^ 6
  | _ => True

/-- The pace so far is lawful, the backoff counts the waits in it, and the last login is
remembered while nothing has happened since. -/
structure Pacing (config : Config) (now : Instant) (h : List Pace) (p : Pacer) : Prop where
  lawful : Each (Pace.Lawful config) h
  stableAfter : p.stableAfter = config.stableAfter
  backoff : p.backoff = { config.backoff with attempt := Backoff.counted (waitsSince h + 1) }
  readyAt : ∀ t, p.readyAt = some t → t ≤ now ∧ ∃ pre, h = pre ++ [.ready t]

namespace Pacing

variable {config : Config} {now : Instant} {h : List Pace} {p p' : Pacer}

theorem later (hp : Pacing config now h p) {now' : Instant} (hle : now ≤ now') :
    Pacing config now' h p where
  lawful := hp.lawful
  stableAfter := hp.stableAfter
  backoff := hp.backoff
  readyAt := fun t ht => ⟨Nat.le_trans (hp.readyAt t ht).1 hle, (hp.readyAt t ht).2⟩

/-- An event that is neither a wait nor a reset, after no login or as a login. -/
theorem snoc (hp : Pacing config now h p) {x : Pace} (hx : x.Lawful config h)
    (hcount : x.count (waitsSince h) = waitsSince h) {readyAt : Option Instant}
    (hready : ∀ t, readyAt = some t → t ≤ now ∧ x = .ready t) :
    Pacing config now (h ++ [x]) { p with readyAt } where
  lawful := each_snoc.2 ⟨hp.lawful, hx⟩
  stableAfter := hp.stableAfter
  backoff := by rw [waitsSince_snoc, hcount, hp.backoff]
  readyAt := by
    intro t ht
    obtain ⟨hle, rfl⟩ := hready t ht
    exact ⟨hle, h, rfl⟩

/-- What happens while a socket is driven. -/
theorem goes (hp : Pacing config now h p) {o : List (Seen κ)}
    (hc : Chain (Pacer.Goes now) p o p') :
    Pacing config now (h ++ o.filterMap (Obs.pace now)) p' ∧ p'.backoff = p.backoff := by
  refine hc.invariant (h := [])
    (I := fun o q => Pacing config now (h ++ o.filterMap (Obs.pace now)) q ∧
      q.backoff = p.backoff) (fun {h' q o q'} hq hgoes => ?_) ⟨?_, rfl⟩
  · obtain ⟨hq, hb⟩ := hq
    rw [List.filterMap_append, ← List.append_assoc]
    cases hgoes with
    | quiet ho =>
      rw [List.filterMap_eq_nil_iff.2 ho, List.append_nil]
      exact ⟨hq, hb⟩
    | ready g epoch =>
      refine ⟨hq.snoc (x := .ready now) trivial rfl ?_, hb⟩
      rintro t ht
      obtain rfl := Option.some.inj ht
      exact ⟨Nat.le_refl _, rfl⟩
  · rwa [List.filterMap_nil, List.append_nil]

/-- The event that clears the backoff. -/
def resetOf (p p' : Pacer) : List Pace :=
  if p.backoff.attempt ≠ 0 ∧ p'.backoff.attempt = 0 then [.reset] else []

theorem resetOf_of_eq (hb : p'.backoff = p.backoff) : resetOf p p' = [] :=
  if_neg fun h => h.1 (hb ▸ h.2)

/-- **What the end of a connection does.** -/
theorem loses (hp : Pacing config now h p) :
    Pacing config now (h ++ [.lost now] ++ resetOf p (p.disconnected now))
      (p.disconnected now) := by
  have hkeep : Pacing config now (h ++ [.lost now]) { p with readyAt := none } :=
    hp.snoc (x := .lost now) trivial rfl fun t ht => by simp at ht
  have hnone : resetOf p { p with readyAt := none } = [] := if_neg fun h => h.1 h.2
  -- The session was not ready or did not last, or it did both.
  rcases p.disconnected_cases now with he | ⟨t, ht, hstable, he⟩
  · rw [he, hnone, List.append_nil]
    exact hkeep
  · rw [he]
    -- There may be nothing to reset.
    by_cases hzero : p.backoff.attempt = 0
    · have hsame : p.backoff.reset = p.backoff := by rw [Backoff.reset, ← hzero]
      rw [hsame, hnone, List.append_nil]
      exact hkeep
    · rw [resetOf, if_pos ⟨hzero, rfl⟩]
      -- The reset is due to this session: it was ready at `t`, and has been lost since.
      obtain ⟨hle, pre, rfl⟩ := hp.readyAt t ht
      have hends : EndsStable config.stableAfter (pre ++ [.ready t] ++ [.lost now]) := by
        refine ⟨pre, t, now, List.append_assoc _ _ _, ?_⟩
        rw [← hp.stableAfter, Nat.add_comm]
        exact Nat.add_le_of_le_sub hle hstable
      refine ⟨each_snoc.2 ⟨hkeep.lawful, hends⟩, hp.stableAfter, ?_, fun t ht => by simp at ht⟩
      rw [waitsSince_snoc]
      show p.backoff.reset = _
      rw [hp.backoff]
      rfl

/-- The next attempt is scheduled. -/
theorem schedules (hp : Pacing config now h p) (hready : p.readyAt = none) (draw : ℕ) :
    Pacing config now
      (h ++ [.wait (p.backoff.nextDelay draw).2 p.backoff.drawMillis])
      (p.scheduled draw) where
  lawful := by
    refine each_snoc.2 ⟨hp.lawful, ?_, ?_⟩
    · rw [hp.backoff]
      rfl
    · exact (p.backoff.nextDelay_range _).1 ⟨draw, rfl⟩
  stableAfter := hp.stableAfter
  backoff := by
    rw [waitsSince_snoc, Pacer.scheduled, Backoff.nextDelay_eq]
    show _ = { config.backoff with attempt := Backoff.counted (waitsSince h + 1 + 1) }
    rw [Backoff.counted_succ _ (Nat.succ_pos _), hp.backoff]
  readyAt := fun t ht => by simp [Pacer.scheduled, hready] at ht

end Pacing

namespace World

/-- The pace of a run is lawful, and no login is remembered between two connections. -/
def Paced (config : Config) (h : List Pace) (w : World κ) : Prop :=
  Pacing config w.clock h w.runner.pacer ∧
    (Runner.Attempting w.location → w.runner.pacer.readyAt = none)

theorem paced_init (config : Config) : Paced config [] (init config : World κ) := by
  refine ⟨⟨each_nil, rfl, rfl, fun t ht => ?_⟩, fun _ => rfl⟩
  cases ht

theorem paces_eq {w w' : World κ} {input : Input κ} {o : List (Seen κ)} : w.paces w' input o =
    w.waits w' input ++ o.filterMap (Obs.pace w.clock) ++
      Pacing.resetOf w.runner.pacer w'.runner.pacer := rfl

theorem clock_le {w w' : World κ} {input : Input κ} {o : List (Seen κ)}
    (hs : w.step input = some (w', o)) : w.clock ≤ w'.clock := by
  rcases step_cases hs with ⟨elapsed, rfl, rfl, rfl⟩ | ⟨x, hx, he⟩
  · exact Nat.le_add_right _ _
  · obtain ⟨rfl, -⟩ := Prod.mk.inj he
    exact Nat.le_refl _

/-- What one step preserves. -/
theorem Paced.step {config : Config} {h : List Pace} {w w' : World κ} {input : Input κ}
    {o : List (Seen κ)} (hw : Paced config h w) (hs : w.step input = some (w', o)) :
    Paced config (h ++ w.paces w' input o) w' := by
  obtain ⟨hp, hbetween⟩ := hw
  have hclock := clock_le hs
  rw [paces_eq]
  cases step_paced hs with
  | rests ho hwaits hpacer hl =>
    rw [hwaits, ho, hpacer, Pacing.resetOf_of_eq rfl, List.append_nil, List.append_nil,
      List.append_nil]
    exact ⟨hpacer ▸ hp.later hclock, fun h => hpacer ▸ hbetween (hl h)⟩
  | schedules draw hl ho hwaits hpacer =>
    have hnext := hp.schedules (hbetween hl) draw
    -- A delay was drawn, so the counter is not zero and this is no reset.
    have hattempt : w'.runner.pacer.backoff.attempt ≠ 0 := by
      rw [hpacer]
      show (w.runner.backoff.nextDelay draw).1.attempt ≠ 0
      rw [Backoff.nextDelay_eq, Backoff.maxAttempt]
      show min (w.runner.backoff.attempt + 1) _ ≠ 0
      omega
    have hreset : Pacing.resetOf w.runner.pacer w'.runner.pacer = [] :=
      if_neg fun h => hattempt h.2
    rw [hwaits, ho, hreset, List.append_nil, List.append_nil]
    exact ⟨hpacer ▸ hnext.later hclock, fun _ => hpacer ▸ hbetween hl⟩
  | opens hl ho hwaits hpacer =>
    have hnone := hbetween hl
    have hopened : Pacing config w.clock (h ++ [.opened]) w.runner.pacer :=
      hp.snoc (x := .opened) trivial rfl fun t ht => absurd (hnone.symm.trans ht) (by simp)
    rw [hwaits, ho, hpacer, Pacing.resetOf_of_eq rfl, List.append_nil, List.nil_append]
    exact ⟨hpacer ▸ hopened.later hclock, fun _ => hpacer ▸ hnone⟩
  | drives hc hwaits hl =>
    obtain ⟨hp', hb⟩ := hp.goes hc
    rw [hwaits, Pacing.resetOf_of_eq hb, List.append_nil, List.nil_append]
    exact ⟨hp'.later hclock, fun h => absurd h hl⟩
  | @loses p o₁ o₂ ho hc hlost hwaits =>
    obtain ⟨hp', hb⟩ := hp.goes hc
    obtain ⟨ho₂, hpacer⟩ := hlost
    -- The backoff is reset where the connection is lost, and not before.
    have hreset : Pacing.resetOf w.runner.pacer w'.runner.pacer =
        Pacing.resetOf p (p.disconnected w.clock) := by
      rw [hpacer, Pacing.resetOf, Pacing.resetOf, hb]
    rw [hwaits, ho, hreset, List.filterMap_append, ho₂, List.nil_append, ← List.append_assoc,
      ← List.append_assoc]
    exact ⟨hpacer ▸ hp'.loses.later hclock, fun _ => hpacer ▸ rfl⟩

/-- **The invariant of a run.** -/
theorem paced_of_run {config : Config} {h : List Pace} {w : World κ}
    (hrun : Run paced (init config) h w) : Paced config h w := by
  refine hrun.invariant (I := Paced config) (paced_init config) fun {h w i w' o} hw hs => ?_
  obtain ⟨⟨w'', o'⟩, hs', he⟩ := Option.map_eq_some_iff.1 hs
  obtain ⟨rfl, rfl⟩ := Prod.mk.inj he
  exact hw.step hs'

end World

/-! ### Sessions that do not last -/

theorem Unstable.of_append {stableAfter : Duration} {p q : List Pace}
    (hu : Unstable stableAfter (p ++ q)) : Unstable stableAfter p :=
  fun p' q' hp => hu p' (q' ++ q) (by rw [hp, List.append_assoc])

/-- While no session lasts, the waits are counted. -/
theorem waitsSince_pos {config : Config} {p q : List Pace}
    (hlawful : Each (Pace.Lawful config) (p ++ q)) (hunstable : Unstable config.stableAfter q)
    {delay : Duration} {millis : ℕ} (hmem : .wait delay millis ∈ q) : 0 < waitsSince (p ++ q) := by
  induction q using List.reverseRecOn with
  | nil => simp at hmem
  | append_singleton q x ih =>
    rw [← List.append_assoc] at hlawful ⊢
    rw [waitsSince_snoc]
    obtain ⟨hbefore, hx⟩ := each_snoc.1 hlawful
    cases x with
    | wait delay' millis' => exact Nat.succ_pos _
    | reset =>
      exfalso
      have hmem : .wait delay millis ∈ q := by simpa using hmem
      obtain ⟨r, t, t', hr, hstable⟩ := hx
      rcases List.append_eq_append_iff.1 hr with ⟨l, rfl, rfl⟩ | ⟨l, rfl, hl⟩
      · -- The session that lasted was lost within `q`.
        exact hunstable (l ++ [.ready t, .lost t']) [.reset] rfl ⟨l, t, t', rfl, hstable⟩
      · -- Too short to hold a wait.
        have hmem : Pace.wait delay millis ∈ [.ready t, .lost t'] :=
          hl ▸ List.mem_append_right l hmem
        simp at hmem
    | opened => exact ih hbefore hunstable.of_append (by simpa using hmem)
    | ready now => exact ih hbefore hunstable.of_append (by simpa using hmem)
    | lost now => exact ih hbefore hunstable.of_append (by simpa using hmem)

/-- **Reconnect pacing.**  In every run the counter of the backoff returns to zero only when
a connection is lost whose last login succeeded at least `stableAfter` before.  The wait
before the `n`-th attempt since then is drawn from the `n`-th window: empty for the first,
at most the doubled base and the cap, and never shorter than the one before.  So while no
session lasts that long, no attempt after the first has an empty window. -/
theorem reconnect_pacing {config : Config} {h : List Pace} {w : World κ}
    (hrun : Run World.paced (World.init config) h w) :
    Each (fun pre x => x = .reset → EndsStable config.stableAfter pre) h ∧
    Each (fun pre x => ∀ delay millis, x = .wait delay millis →
      millis = config.backoff.before (waitsSince pre + 1) ∧ ∃ k ≤ millis, delay = k * 10 ^ 6) h ∧
    config.backoff.before 1 = 0 ∧
    (∀ n, 2 ≤ n → config.backoff.before n * 10 ^ 6 ≤
      min config.backoffCap (config.backoffBase * 2 ^ (n - 2))) ∧
    (∀ m n, m ≤ n → config.backoff.before m ≤ config.backoff.before n) ∧
    (10 ^ 6 ≤ config.backoffBase → 10 ^ 6 ≤ config.backoffCap → ∀ p q, h = p ++ q →
      Unstable config.stableAfter q → Each (fun pre x => ∀ delay millis, x = .wait delay millis →
        (∃ delay' millis', .wait delay' millis' ∈ pre) → 0 < millis) q) := by
  -- The run is lawful, and each part reads the law at the event it speaks of.
  have hlawful := (World.paced_of_run hrun).1.lawful
  refine ⟨?_, ?_, Backoff.before_one _, fun n hn => config.backoff.before_le hn,
    fun m n hmn => config.backoff.before_mono hmn, ?_⟩
  · refine hlawful.mono fun pre x hx hreset => ?_
    subst hreset
    exact hx
  · rintro pre x post hh delay millis rfl
    exact hlawful pre _ post hh
  · rintro hbase hcap p q rfl hunstable pre x post rfl delay millis rfl ⟨delay', millis', hmem⟩
    -- A wait behind another one is not the first since the counter was zero.
    have hwait := hlawful (p ++ pre) _ post (by rw [List.append_assoc])
    rw [← List.append_assoc] at hlawful
    have hpos := waitsSince_pos hlawful.of_append hunstable.of_append hmem
    rw [hwait.1]
    exact config.backoff.before_pos hbase hcap (Nat.succ_le_succ hpos)

/-- The server accepts the login and drops the socket at once. -/
def acceptAndDrop (id : String) : List (Input ℕ) :=
  [.opened, .sink (.ready (.ok ())), .sink .pending, .flush (some (.ok ())),
    .poll (some (.frame (.text (some (.connected "session"))))) none false,
    .sink (.ready (.ok ())), .sink .pending, .flush (some (.ok ())),
    .poll (some (.frame (.text (some (.result id none none))))) none false,
    .sink .pending, .flush none, .poll (some .eof) none false]

/-- The server does so twice. -/
def dropTwice : List (Input ℕ) :=
  [.begin 0] ++ acceptAndDrop "m0" ++ [.begin 7, .tick (7 * 10 ^ 6), .elapsed] ++
    acceptAndDrop "m1" ++ [.begin 3000]

/-- The first retry may follow within a second, the next within two. -/
def dropTwicePace : List Pace :=
  [.wait 0 0, .opened, .ready 0, .lost 0, .wait 7000000 1000, .opened, .ready 7000000,
    .lost 7000000, .wait 2000000000 2000]

theorem unstable_dropTwicePace : Unstable demoConfig.stableAfter dropTwicePace := by
  rintro p q hp ⟨r, t, t', rfl, hle⟩
  have hmem : Pace.lost t' ∈ dropTwicePace := by simp [hp]
  have hlate : demoConfig.stableAfter ≤ t' := Nat.le_trans (Nat.le_add_left _ _) hle
  have hearly : t' = 0 ∨ t' = 7000000 := by simpa [dropTwicePace] using hmem
  rcases hearly with rfl | rfl
  · exact absurd hlate (by decide)
  · exact absurd hlate (by decide)

/-- A server that drops every session at once earns no immediate retry but the first. -/
theorem reconnect_pacing_dropTwice :
    ∃ w : World ℕ, Run World.paced (World.init demoConfig) dropTwicePace w ∧
    Each (fun pre x => ∀ delay millis, x = .wait delay millis →
      (∃ delay' millis', .wait delay' millis' ∈ pre) → 0 < millis) dropTwicePace :=
  have hrun : Run World.paced (World.init demoConfig) _ _ :=
    run_execute dropTwice (by decide +kernel)
  have hpace : ((execute World.paced (World.init demoConfig) dropTwice).get
    (by decide +kernel)).2 = dropTwicePace := by decide +kernel
  have hrun' := hpace ▸ hrun
  ⟨_, hrun', (reconnect_pacing hrun').2.2.2.2.2 (by decide) (by decide) [] _ rfl
    unstable_dropTwicePace⟩

end RocketSocket
