import RocketSocket.Lib.Monitor
import RocketSocket.Realtime.Pacing

/-!
# The life of a connection, as its events tell it

What a consumer of the event stream can rely on, as a monitor: which events may follow
which, what number an attempt carries, which epoch a session is announced with.  Whatever
the server, the callers and the network do, the events a runner emits are read to the end;
and the state it shows to observers is the one the events and its location make out.

## Main definitions

* `Stage`, `Trail` — what the events so far say of the connection.
* `Trail.next` — **the order of events.**
* `Location.shown` — the state a runner shows at a location.
* `Gist` — what of the runner its events depend on.
* `Trail.Fits` — what holds of the trail and the runner where it awaits.

## Main results

* `World.step_obeys` — every step keeps to the order of events.
* `event_order` — **the event stream of every run keeps to its order.**
* `state_shown` — **the state shown is the one the events make out.**
-/

namespace RocketSocket

open Machine

variable {κ : Type}

/-! ### The order of events -/

/-- Where an attempt to connect stands. -/
inductive Stage where
  /-- No attempt is under way. -/
  | waiting
  /-- An attempt was started. -/
  | attempting
  /-- The server opened a session, and the login is outstanding. -/
  | greeted
  /-- The login succeeded, and the request to subscribe again is owed. -/
  | announced (epoch : Epoch)
  | ready
  /-- The connection failed for good. -/
  | over
  deriving DecidableEq

/-- An attempt is under way, and nothing is owed. -/
def Stage.UnderWay : Stage → Prop
  | .attempting | .greeted | .ready => True
  | _ => False

instance : DecidablePred Stage.UnderWay := fun stage => by
  unfold Stage.UnderWay
  split <;> infer_instance

/-- The phase of the session, once the socket is open. -/
def Stage.phase : Stage → Phase
  | .attempting => .handshaking
  | .greeted => .authenticating
  | .ready => .ready
  | _ => .disconnected

theorem Stage.phase_eq_authenticating {stage : Stage} :
    stage.phase = .authenticating ↔ stage = .greeted := by
  cases stage <;> simp [Stage.phase]

theorem Stage.phase_ne_disconnected {stage : Stage} (h : stage.UnderWay) :
    stage.phase ≠ .disconnected := by
  cases stage <;> simp_all [Stage.phase, Stage.UnderWay]

theorem Stage.UnderWay.ne_over {stage : Stage} (h : stage.UnderWay) : stage ≠ .over := by
  rintro rfl
  exact h

theorem Stage.phase_ne_fatallyClosed (stage : Stage) : stage.phase ≠ .fatallyClosed := by
  cases stage <;> simp [Stage.phase]

/-- The epoch after so many connections. -/
def Epoch.after (losses : ℕ) : Epoch := ⟨.ofNat losses⟩

theorem Epoch.next_after (losses : ℕ) : (Epoch.after losses).next = .after (losses + 1) := by
  simp [Epoch.next, Epoch.after]

/-- What the events so far say of the connection. -/
structure Trail where
  stage : Stage
  /-- How many attempts ended. -/
  losses : ℕ
  /-- How many attempts were made since the count last started anew; it saturates. -/
  count : ℕ
  /-- A session became ready in the latest attempt. -/
  proven : Bool

namespace Trail

/-- Before the first event. -/
def init : Trail := ⟨.waiting, 0, 0, false⟩

/-- The largest number an attempt carries. -/
def maxCount : ℕ := Backoff.maxAttempt - 1

/-- A failure that may end the stream: a login is rejected only when one is outstanding. -/
def Earns (t : Trail) : Fatal → Prop
  | .versionMismatch .. => True
  | _ => t.stage = .greeted

instance (t : Trail) : DecidablePred t.Earns := fun fatal => by
  unfold Earns
  split <;> infer_instance

/-- A frame that is passed on. -/
def Passes (message : ServerMessage) : Prop :=
  Runner.eventOf message = some (.frame message)

instance : DecidablePred Passes := fun message => by
  cases message with
  | added | changed | removed | addedBefore | movedBefore | error => exact isTrue rfl
  | _ => exact isFalse (by simp [Passes, Runner.eventOf])

/-- **The order of events.**  An attempt is numbered by the failures before it, counted anew
only after one that became ready; a session is announced with the number of attempts that
ended, and its announcement is followed at once by the request to subscribe again. -/
def next (t : Trail) : Event → Option Trail
  | .connecting attempt =>
    if t.stage = .waiting ∧ (attempt = t.count ∨ attempt = 0 ∧ t.proven = true) then
      some { t with stage := .attempting, count := min (attempt + 1) maxCount, proven := false }
    else none
  | .connected _ => if t.stage.UnderWay then some { t with stage := .greeted } else none
  | .ready epoch =>
    if t.stage = .greeted ∧ epoch = .after t.losses then
      some { t with stage := .announced epoch, proven := true }
    else none
  | .resubscribe epoch =>
    if t.stage = .announced epoch then some { t with stage := .ready } else none
  | .frame message => if t.stage.UnderWay ∧ Passes message then some t else none
  | .disconnected _ =>
    if t.stage.UnderWay then some { t with stage := .waiting, losses := t.losses + 1 } else none
  | .fatal fatal =>
    if t.stage.UnderWay ∧ t.Earns fatal then some { t with stage := .over } else none
  -- Only a consumer that fell behind is told so.
  | .lagged _ => none

/-- Reads the events among the observations. -/
def read (t : Trail) : Seen κ → Option Trail
  | (_, .emitted event) => t.next event
  | _ => some t

end Trail

/-- The events of a run, in order. -/
def events (h : List (Seen κ)) : List Event := h.filterMap fun
  | (_, .emitted event) => some event
  | _ => none

theorem Trail.follow_events (t : Trail) (h : List (Seen κ)) :
    follow Trail.next t (events h) = follow Trail.read t h := by
  refine (follow_filterMap fun t x => ?_).symm
  obtain ⟨g, x⟩ := x
  cases x <;> rfl

/-- The observation is not an event. -/
def Obs.Silent : Seen κ → Prop
  | (_, .emitted _) => False
  | _ => True

theorem Trail.read_of_silent : ∀ x : Seen κ, Obs.Silent x → ∀ t : Trail, t.read x = some t := by
  rintro ⟨g, x⟩ hx t
  cases x with
  | emitted event => exact absurd hx id
  | _ => rfl

/-- The state a runner shows at a location, when the events say where its attempt stands. -/
def Location.shown (stage : Stage) : Location → ConnectionState
  | .top | .idle _ => .disconnected
  | .opening _ => .connecting
  | .writing | .flushing | .sources | .closing none => stage.phase.state
  | .closing (some _) => .fatal
  | .stopped => if stage = .over then .fatal else .closed

/-! ### What of the runner its events depend on -/

/-- What of the runner its events depend on. -/
structure Gist where
  session : Session
  epoch : Epoch
  attempt : ℕ
  proven : Bool
  state : ConnectionState
  fatal : Option Fatal

/-- What of the runner its events depend on. -/
def Runner.gist (r : Runner κ) : Gist :=
  ⟨r.session, (r.table .methods).epoch, r.backoff.attempt, r.readyAt.isSome, r.state, r.fatal⟩

/-- What holds of the trail and of the runner while an attempt is under way. -/
structure Trail.Counts (t : Trail) (g : Gist) : Prop where
  underWay : t.stage.UnderWay
  epoch : g.epoch = .after t.losses
  count : min g.attempt maxCount = t.count
  proven : g.proven = true → t.proven = true

/-- A login is outstanding only while the session authenticates, or after it failed. -/
def Gist.Asks (g : Gist) : Prop :=
  g.session.loginCall.isSome → g.session.phase = .authenticating ∨ g.session.phase = .fatallyClosed

namespace Trail

variable (t : Trail) (g : Gist)

/-- The socket is open, and the session is where the events say. -/
def Linked : Prop := t.Counts g ∧ g.Asks ∧ g.session.phase = t.stage.phase ∧ g.fatal = none

/-- The session failed for good, for a reason that may end the stream. -/
def Failed : Prop :=
  t.stage.UnderWay ∧ g.session.phase = .fatallyClosed ∧
    ∃ fatal, g.fatal = some fatal ∧ t.Earns fatal

/-- What is left of handling a frame: to pass on the event, if it is one. -/
def Owes : Option Event → Prop
  | some (.connected _) =>
    t.Counts g ∧ g.Asks ∧ g.session.phase = .authenticating ∧ g.fatal = none
  | some (.frame message) => t.Linked g ∧ Passes message
  | some _ => False
  | none => t.Linked g ∨ t.Failed g

/-- What is left of handling a frame whose event is known: to carry out the actions first. -/
def Acts (event : Option Event) : List Action → Prop
  | [.login] => (∃ session, event = some (.connected session)) ∧ t.Counts g ∧
    g.session.phase = .authenticating ∧ g.fatal = none
  | [.fatal fatal] =>
    event = none ∧ t.stage.UnderWay ∧ g.session.phase = .fatallyClosed ∧ t.Earns fatal
  | [.resubscribe] =>
    event = none ∧ t.Counts g ∧ t.stage = .greeted ∧ g.Asks ∧ g.session.phase = .ready ∧
      g.fatal = none
  | [] | [.send _] | [.protocolViolation _] => t.Owes g event
  | _ => False

/-- Between two attempts; `seen` is the number of the last one, unless it is counted anew. -/
def Rests (seen : ℕ) : Prop :=
  t.stage = .waiting ∧ g.epoch = .after t.losses ∧ g.proven = false ∧ g.fatal = none ∧
    (seen = t.count ∨ seen = 0 ∧ t.proven = true)

/-- The attempt has ended, and the events do not say so yet. -/
def Ends : Prop :=
  t.stage.UnderWay ∧ g.epoch = .after (t.losses + 1) ∧ g.proven = false ∧ g.fatal = none ∧
    (min g.attempt maxCount = t.count ∨ min g.attempt maxCount = 0 ∧ t.proven = true)

/-- What holds of the trail and of the runner where it awaits. -/
def Fits : Location → Prop
  | .top => t.Rests g (min g.attempt maxCount)
  | .idle _ => t.Rests g (g.attempt - 1) ∧ g.attempt ≤ Backoff.maxAttempt ∧ 0 < g.attempt
  | .opening _ => t.Counts g ∧ t.stage = .attempting ∧ g.fatal = none
  | .writing | .flushing | .sources => t.Linked g
  | .closing none => t.stage.UnderWay
  | .closing (some fatal) => t.stage.UnderWay ∧ t.Earns fatal
  | .stopped => True

end Trail

/-- What the runner shows is no part of where it stands. -/
theorem Trail.Linked.shows {t : Trail} {g : Gist} (hl : t.Linked g) (state : ConnectionState) :
    t.Linked { g with state } :=
  ⟨⟨hl.1.underWay, hl.1.epoch, hl.1.count, hl.1.proven⟩, hl.2⟩

/-! ### The computations of the runner keep to the order -/

namespace Runner

variable {now : Instant} {α β : Type} {P Q : Trail → Gist → Prop}

/-- The trail and the runner satisfy `P`. -/
abbrev Has (P : Trail → Gist → Prop) (t : Trail) (r : Runner κ) : Prop := P t r.gist

/-- What a computation that ends at a location has to establish. -/
def Lands (location : Location) (t : Trail) (r : Runner κ) : Prop :=
  t.Fits r.gist location ∧ r.state = location.shown t.stage

/-- The computation emits nothing and changes nothing the events depend on. -/
structure Still (x : RunAct κ α) : Prop where
  shows : Shows Obs.Silent x
  gist : ∀ r, (x.state r).gist = r.gist

theorem Still.obeys {x : RunAct κ α} (hx : Still x) :
    Obeys Trail.read (Has P) x fun _ => Has P := by
  refine .of_shows Trail.read_of_silent hx.shows fun t r hr => ?_
  rw [Has, hx.gist]
  exact hr

theorem Still.bind {x : RunAct κ α} {f : α → RunAct κ β} (hx : Still x)
    (hf : ∀ a, Still (f a)) : Still (x >>= f) := by
  refine ⟨.bind hx.shows fun a => (hf a).shows, fun r => ?_⟩
  rw [Act.state_bind, (hf _).gist, hx.gist]

theorem still_pure (a : α) : Still (pure a : RunAct κ α) := ⟨.pure a, fun _ => rfl⟩

theorem still_get : Still (Act.get : RunAct κ (Runner κ)) := ⟨.get, fun _ => rfl⟩

theorem still_modify {f : Runner κ → Runner κ} (hf : ∀ r, (f r).gist = r.gist) :
    Still (Act.modify f : RunAct κ Unit) := ⟨.modify f, hf⟩

/-- A computation on the wire side that emits nothing and leaves the session and the epoch
alone. -/
theorem still_wire {x : Act (Wire κ) (Seen κ) α} (hx : Shows Obs.Silent x)
    (hw : ∀ w, (x.state w).session = w.session ∧
      ((x.state w).table .methods).epoch = (w.table .methods).epoch) : Still (wire x) := by
  refine ⟨shows_wire hx, fun r => ?_⟩
  obtain ⟨hsession, hepoch⟩ := hw r.toWire
  exact congrArg₂ (fun session epoch =>
    (⟨session, epoch, r.backoff.attempt, r.readyAt.isSome, r.state, r.fatal⟩ : Gist))
    hsession hepoch

theorem still_push (frame : ClientMessage) :
    Still (wire (Wire.pushPriority frame none) : RunAct κ Unit) :=
  still_wire (.bind (.modify _) fun _ => .say fun _ => trivial) fun _ => ⟨rfl, rfl⟩

theorem still_handleCommand (command : Command κ) (dropped : Bool) :
    Still (handleCommand command dropped) := by
  refine .bind (still_wire (fun w x hx => ?_) fun w => ?_) fun _ => ?_
  · rcases w.take_cases command dropped with ⟨ho, -⟩ | ⟨_, -, ho, -⟩ | ⟨_, ho, -⟩ |
      ⟨_, _, -, -, ho, -⟩
    all_goals
      rw [ho, List.mem_singleton] at hx
      subst hx
      trivial
  · rcases w.take_cases command dropped with ⟨-, hw⟩ | ⟨_, -, -, hw⟩ | ⟨waiter, -, hw⟩ |
      ⟨ack, out, -, -, -, hw⟩
    · rw [hw]
      exact ⟨rfl, rfl⟩
    · rw [hw]
      exact ⟨rfl, rfl⟩
    · rw [hw]
      refine ⟨rfl, ?_⟩
      rw [(Wire.sameIds_cancel _ _ .methods).2.2]
      exact (Wire.ids_register w _ .methods waiter).2.1
    · rw [hw]
      exact ⟨rfl, (Wire.ids_register w _ .methods _).2.1⟩
  · cases command with
    | shutdown => exact still_modify fun _ => rfl
    | _ => exact still_pure _

theorem still_correlate (message : ServerMessage) :
    Still (wire (Wire.correlate message) : RunAct κ Unit) := by
  refine still_wire (Wire.shows_correlate message fun _ _ _ _ => trivial) fun w => ?_
  exact (Wire.correlate_steps message (fun w' => w'.session = w.session ∧
    (w'.table .methods).epoch = (w.table .methods).epoch)
    (fun w' m outcome hw' => ⟨hw'.1, ((Wire.sameIds_answer w' m message outcome) .methods).2.2.trans
      hw'.2⟩) w ⟨rfl, rfl⟩).2

theorem still_hand (accepted : Bool) :
    Still (wire (Wire.hand accepted) : RunAct κ Unit) := by
  refine still_wire (fun w x hx => ?_) fun w => ⟨w.session_hand accepted, ?_⟩
  · rcases w.hand_cases accepted with ⟨_, _, -, ho, -⟩ | ⟨_, _, -, -, ho, -⟩ | ⟨-, -, ho, -⟩
    · rw [ho, List.mem_singleton] at hx
      exact hx ▸ trivial
    · rw [ho, List.mem_singleton] at hx
      exact hx ▸ trivial
    · simp [ho] at hx
  · rcases w.hand_cases accepted with ⟨_, _, -, -, hw⟩ | ⟨_, _, -, -, -, hw⟩ | ⟨-, -, -, hw⟩
    all_goals rw [hw]

theorem still_onDeadline : Still (onDeadline now : RunAct κ (Option Outcome)) := by
  refine .bind (still_modify fun _ => rfl) fun _ => .bind still_get fun r => ?_
  split
  · exact still_pure _
  · refine .bind (still_modify fun _ => rfl) fun _ => ?_
    split
    · exact still_pure _
    · exact .bind (still_push _) fun _ => still_pure _
    · exact still_pure _

/-- One event. -/
theorem obeys_emit {event : Event}
    (hevent : ∀ t g, P t g → ∃ t', t.next event = some t' ∧ Q t' g) :
    Obeys Trail.read (Has P) (emit event : RunAct κ Unit) fun _ => Has Q := by
  intro t r hr
  obtain ⟨t', hnext, hq⟩ := hevent t r.gist hr
  refine ⟨t', ?_, hq⟩
  show follow Trail.read t [(r.generation, .emitted event)] = _
  rw [follow_cons]
  exact Option.bind_eq_some_iff.mpr ⟨t', hnext, rfl⟩

/-- What ending a generation does to the gist. -/
theorem gist_settle (why : Ending) (r : Runner κ) :
    ((settle why).state r).gist = { r.gist with epoch := r.gist.epoch.next } := by
  have hepoch : ((((Wire.settle why).state r.toWire).table .methods).epoch : Epoch) =
      (r.table .methods).epoch.next := by
    show ((r.toWire.flushed.table .methods).disconnect.1).epoch = _
    rw [Correlator.epoch_disconnect, (Wire.sameIds_flushed r.toWire .methods).2.2]
  exact congrArg (fun epoch => (⟨r.session, epoch, r.backoff.attempt, r.readyAt.isSome, r.state,
    r.fatal⟩ : Gist)) hepoch

theorem silent_settle (why : Ending) : Shows Obs.Silent (settle why : RunAct κ Unit) := by
  refine .bind (shows_wire ?_) fun _ => .modify _
  rintro w ⟨g, x⟩ hx
  obtain ⟨-, rfl | ⟨m, p, -, rfl⟩⟩ := (w.mem_settleObs).mp hx
  · trivial
  · trivial

theorem obeys_settle (why : Ending) :
    Obeys Trail.read (fun t (r : Runner κ) => P t { r.gist with epoch := r.gist.epoch.next })
      (settle why) fun _ => Has P := by
  refine .of_shows Trail.read_of_silent (silent_settle why) fun t r hr => ?_
  rw [Has, gist_settle]
  exact hr

/-- The connection is lost: the attempt that was under way ended, and the next one is counted
anew only if it became ready. -/
theorem obeys_disconnected (reason : String) :
    Obeys Trail.read (Has fun t g => t.Counts g ∧ g.fatal = none)
      (disconnected now reason : RunAct κ Unit)
      fun _ => Has fun t g => t.Rests g (min g.attempt Trail.maxCount) ∧
        g.state = .disconnected := by
  -- The session ends, the epoch moves on, and the calls are settled before the event.
  refine .bind (Q := fun _ => Has fun t g => t.Ends { g with epoch := g.epoch.next })
    (.modify fun t r h => ?_) fun _ => .bind (Q := fun _ => Has fun t g =>
      t.Ends { g with epoch := g.epoch.next }) (.modify fun _ _ hr => hr) fun _ => ?_
  · obtain ⟨hc, hf⟩ := h
    have hproven : r.readyAt.isSome = true → t.proven = true := hc.proven
    refine ⟨hc.underWay, ?_, rfl, hf, ?_⟩
    · refine Eq.trans ?_ (Epoch.next_after t.losses)
      exact congrArg Epoch.next hc.epoch
    · -- The count starts anew only behind a session that was ready and lasted.
      cases hready : r.readyAt with
      | none => exact .inl hc.count
      | some readyAt =>
        by_cases hstable : r.config.stableAfter ≤ now - readyAt
        · refine .inr ⟨?_, hproven (by rw [hready]; rfl)⟩
          exact (congrArg (fun b : Backoff => min b.attempt Trail.maxCount) (if_pos hstable)).trans
            (Nat.zero_min _)
        · exact .inl ((congrArg (fun b : Backoff => min b.attempt Trail.maxCount)
            (if_neg hstable)).trans hc.count)
  refine .bind (obeys_settle (P := Trail.Ends) .lost) fun _ => ?_
  refine .bind (Q := fun _ => Has fun t g => t.Ends g ∧ g.state = .disconnected)
    (.modify fun _ _ hr => ⟨hr, rfl⟩) fun _ => obeys_emit fun t g ⟨he, hs⟩ => ?_
  obtain ⟨hunder, hepoch, hproven, hfatal, hcount⟩ := he
  exact ⟨_, if_pos hunder, ⟨rfl, hepoch, hproven, hfatal, hcount⟩, hs⟩

/-! #### Handling a frame -/

/-- The events a frame can be passed on as. -/
theorem eventOf_cases (message : ServerMessage) :
    (∃ session, message = .connected session ∧ eventOf message = some (.connected session)) ∨
    eventOf message = some (.frame message) ∨ eventOf message = none := by
  cases message with
  | connected session => exact .inl ⟨session, rfl, rfl⟩
  | added | changed | removed | addedBefore | movedBefore | error => exact .inr (.inl rfl)
  | _ => exact .inr (.inr rfl)

/-- What handling a frame leaves to be done, once the session has heard it. -/
theorem acts_handle {t : Trail} {g : Gist} (hl : t.Linked g) (message : ServerMessage) :
    t.Acts { g with session := (g.session.handle message).1 } (eventOf message)
      (g.session.handle message).2 := by
  obtain ⟨hc, hasks, hphase, hfatal⟩ := hl
  -- A frame that is no event, or is passed on, leaves the session as it is.
  have hsame : (∀ session, message ≠ .connected session) → t.Owes g (eventOf message) := by
    intro hne
    rcases eventOf_cases message with ⟨session, rfl, -⟩ | hevent | hevent
    · exact absurd rfl (hne session)
    · rw [hevent]
      exact ⟨⟨hc, hasks, hphase, hfatal⟩, hevent⟩
    · rw [hevent]
      exact .inl ⟨hc, hasks, hphase, hfatal⟩
  have hconnected : ∀ session, message = .connected session →
      g.session.handle message =
        ({ g.session with sessionId := some session, phase := .authenticating }, [.login]) := by
    rintro session rfl
    rfl
  -- An answer to the login finds the session authenticating.
  have hgreeted : g.session.loginCall.isSome → t.stage = .greeted := by
    intro hsome
    rcases hasks hsome with h | h
    · exact Stage.phase_eq_authenticating.mp (hphase.symm.trans h)
    · exact absurd (hphase.symm.trans h) t.stage.phase_ne_fatallyClosed
  rcases g.session.handle_cases message with ⟨session, hm, he⟩ | ⟨version, hm, he⟩ |
    ⟨id, result, hm, hid, he⟩ | ⟨id, result, error, hm, hid, he⟩ | ⟨id, hm, he⟩ | ⟨msg, he⟩ | he
  · rw [he, hm]
    exact ⟨⟨session, rfl⟩, ⟨hc.underWay, hc.epoch, hc.count, hc.proven⟩, rfl, hfatal⟩
  · rw [he, hm]
    exact ⟨rfl, hc.underWay, rfl, trivial⟩
  · rw [he, hm]
    refine ⟨rfl, ⟨hc.underWay, hc.epoch, hc.count, hc.proven⟩, hgreeted (by simp [hid]), ?_, rfl,
      hfatal⟩
    intro hnone
    simp at hnone
  · rw [he, hm]
    refine ⟨rfl, hc.underWay, rfl, ?_⟩
    have hstage := hgreeted (by simp [hid])
    unfold classifyLoginFailure
    dsimp only
    split
    · exact hstage
    · exact hstage
  · rw [he]
    exact hsame fun session => by simp [hm]
  · have hne : ∀ session, message ≠ .connected session := fun session hm => by
      rw [hconnected session hm] at he
      simp at he
    rw [he]
    exact hsame hne
  · have hne : ∀ session, message ≠ .connected session := fun session hm => by
      rw [hconnected session hm] at he
      simp at he
    rw [he]
    exact hsame hne

theorem obeys_login (event : Option Event) :
    Obeys Trail.read (Has fun t g => t.Acts g event [.login])
      (apply now .login : RunAct κ Unit) fun _ => Has fun t g => t.Owes g event := by
  refine .bind still_get.obeys fun r₀ => ?_
  refine .of_shows Trail.read_of_silent (shows_wire fun w x hx => ?_) fun t r hr => ?_
  · rw [Wire.obs_login, List.mem_singleton] at hx
    subst hx
    trivial
  · obtain ⟨⟨session, rfl⟩, hc, hphase, hfatal⟩ := hr
    have hepoch :
        ((((Wire.login r₀.config.credential.params).state r.toWire).table .methods).epoch : Epoch) =
          (r.table .methods).epoch :=
      (Wire.ids_register r.toWire .methods .methods .login).2.1
    exact ⟨⟨hc.underWay, hepoch.trans hc.epoch, hc.count, hc.proven⟩, fun _ => .inl hphase, hphase,
      hfatal⟩

theorem obeys_resubscribe (event : Option Event) :
    Obeys Trail.read (Has fun t g => t.Acts g event [.resubscribe])
      (apply now .resubscribe : RunAct κ Unit) fun _ => Has fun t g => t.Owes g event := by
  -- The epoch that is announced is the one of the runner when it began.
  refine .bind (Q := fun r₀ t r => (r₀.table .methods).epoch = .after t.losses ∧
    t.Acts r.gist event [.resubscribe]) (.get fun t r hr => ⟨hr.2.1.epoch, hr⟩) fun r₀ => ?_
  let Announces (stage : Stage) (t : Trail) (g : Gist) : Prop :=
    event = none ∧ t.stage = stage ∧ (r₀.table .methods).epoch = .after t.losses ∧
      g.epoch = .after t.losses ∧ min g.attempt Trail.maxCount = t.count ∧ g.Asks ∧
      g.session.phase = .ready ∧ g.fatal = none
  refine .bind (Q := fun _ => Has (Announces .greeted)) (.modify fun t r hr => ?_) fun _ => ?_
  · obtain ⟨hepoch, hevent, hc, hstage, hasks, hphase, hfatal⟩ := hr
    exact ⟨hevent, hstage, hepoch, hc.epoch, hc.count, hasks, hphase, hfatal⟩
  refine .bind (Q := fun _ => Has (Announces .greeted)) (.modify fun _ _ hr => hr) fun _ => ?_
  refine .bind (Q := fun _ => Has fun t g =>
    Announces (.announced (r₀.table .methods).epoch) t g ∧ t.proven = true)
    (obeys_emit fun t g ⟨hevent, hstage, hepoch, hrest⟩ => ?_) fun _ =>
      obeys_emit fun t g ⟨⟨hevent, hstage, _, hepoch, hcount, hasks, hphase, hfatal⟩, hproven⟩ => ?_
  · exact ⟨_, if_pos ⟨hstage, hepoch⟩, ⟨hevent, rfl, hepoch, hrest⟩, rfl⟩
  · subst hevent
    exact ⟨_, if_pos hstage, .inl ⟨⟨trivial, hepoch, hcount, fun _ => hproven⟩, hasks, hphase,
      hfatal⟩⟩

/-- Carrying out the actions of a frame. -/
theorem obeys_actions (event : Option Event) (actions : List Action) :
    Obeys Trail.read (Has fun t g => t.Acts g event actions)
      (actions.forM (apply now) : RunAct κ PUnit) fun _ => Has fun t g => t.Owes g event := by
  have hone : ∀ action, Obeys Trail.read (Has fun t g => t.Acts g event [action])
      (apply now action : RunAct κ Unit) fun _ => Has fun t g => t.Owes g event := by
    intro action
    cases action with
    | send frame => exact (still_push frame).obeys
    | login => exact obeys_login event
    | resubscribe => exact obeys_resubscribe event
    | fatal fatal =>
      refine .modify fun t r ⟨hevent, hunder, hphase, hearns⟩ => ?_
      subst hevent
      exact .inr ⟨hunder, hphase, fatal, rfl, hearns⟩
    | protocolViolation msg => exact (still_pure _).obeys
  match actions with
  | [] => exact (still_pure _).obeys
  | [action] => exact .bind (hone action) fun _ => (still_pure _).obeys
  | _ :: _ :: _ => exact fun t r hr => absurd hr (by simp [Has, Trail.Acts])

theorem obeys_onText (message : ServerMessage) :
    Obeys Trail.read (Has Trail.Linked) (onText now message : RunAct κ Unit)
      fun _ => Has fun t g => t.Linked g ∨ t.Failed g := by
  have hhear : Obeys Trail.read (Has Trail.Linked)
      (wire (Wire.hear message) : RunAct κ (List Action))
      fun actions => Has fun t g => t.Acts g (eventOf message) actions := by
    refine .of_shows Trail.read_of_silent (shows_wire fun w x hx => ?_) fun t r hr => ?_
    · obtain rfl := List.mem_singleton.mp hx
      trivial
    · exact acts_handle hr message
  refine .bind hhear fun actions => .bind (obeys_actions _ actions) fun _ =>
    .bind (still_correlate message).obeys fun _ => ?_
  rcases eventOf_cases message with ⟨session, -, hevent⟩ | hevent | hevent
  · rw [hevent]
    refine obeys_emit fun t g ⟨hc, hasks, hphase, hfatal⟩ => ?_
    exact ⟨_, if_pos hc.underWay, .inl ⟨⟨trivial, hc.epoch, hc.count, hc.proven⟩, hasks, hphase,
      hfatal⟩⟩
  · rw [hevent]
    exact obeys_emit fun t g ⟨hl, hpasses⟩ =>
      ⟨t, if_pos ⟨hl.1.underWay, hpasses⟩, .inl hl⟩
  · rw [hevent]
    exact (still_pure _).obeys

theorem obeys_onFrame (frame : Frame) :
    Obeys Trail.read (Has Trail.Linked) (onFrame now frame : RunAct κ (Option Outcome))
      fun _ => Has fun t g => t.Linked g ∨ t.Failed g := by
  have hend : ∀ outcome, Obeys Trail.read (Has Trail.Linked)
      (pure outcome : RunAct κ (Option Outcome)) fun _ => Has fun t g => t.Linked g ∨ t.Failed g :=
    fun outcome => .pure fun _ _ hr => .inl hr
  refine .bind (Q := fun _ => Has Trail.Linked) (.modify fun _ _ hr => hr) fun _ => ?_
  match frame with
  | .text (some message) => exact .bind (obeys_onText message) fun _ => (still_pure _).obeys
  | .text none => exact hend _
  | .close none => exact hend _
  | .close (some (code, reason)) => exact hend _
  | .binary => exact hend _
  | .control => exact hend _

theorem obeys_take (step : Step κ) :
    Obeys Trail.read (Has Trail.Linked) (take now step)
      fun _ => Has fun t g => t.Linked g ∨ t.Failed g := by
  have hstill : ∀ {x : RunAct κ (Option Outcome)}, Still x → Obeys Trail.read (Has Trail.Linked) x
      fun _ => Has fun t g => t.Linked g ∨ t.Failed g :=
    fun hx => hx.obeys.weaken (fun _ _ hr => hr) fun _ _ _ hr => .inl hr
  cases step with
  | frame frame => exact obeys_onFrame frame
  | command command dropped =>
    exact hstill (.bind (still_handleCommand command dropped) fun _ => still_pure _)
  | deadline => exact hstill still_onDeadline
  | _ => exact hstill (still_pure _)

/-! #### From location to location -/

theorem obeys_stop :
    Obeys Trail.read (fun t (r : Runner κ) =>
        r.state = .fatal ∧ t.stage = .over ∨ r.state ≠ .fatal ∧ t.stage ≠ .over)
      (stop : RunAct κ Location) fun location => Lands location := by
  let Shown (t : Trail) (g : Gist) : Prop := g.state = Location.shown t.stage .stopped
  refine .bind (Q := fun _ => Has Shown) (.modify fun t r hr => ?_) fun _ =>
    .bind (obeys_settle (P := Shown) .stopping) fun _ => .pure fun t r hr => ⟨trivial, hr⟩
  rcases hr with ⟨hstate, hstage⟩ | ⟨hstate, hstage⟩
  · rw [if_neg (by simp [hstate])]
    exact hstate.trans (if_pos hstage).symm
  · show _ = if t.stage = .over then _ else _
    rw [if_neg hstage]
    by_cases hclosed : r.state = .closed
    · rw [if_neg (by simp [hclosed])]
      exact hclosed
    · rw [if_pos ⟨hstate, hclosed⟩]
      rfl

/-- Stopping while no attempt is under way. -/
theorem obeys_stop_waiting {P : Trail → Gist → Prop}
    (hP : ∀ t g, P t g → t.stage = .waiting ∧ g.state = .disconnected) :
    Obeys Trail.read (Has P) (stop : RunAct κ Location) fun location => Lands location := by
  refine obeys_stop.weaken (fun t r hr => .inr ?_) fun _ _ _ hr => hr
  obtain ⟨hstage, hstate⟩ := hP t r.gist hr
  have hstate' : r.state = .disconnected := hstate
  simp [hstage, hstate']

theorem obeys_connecting :
    Obeys Trail.read (Has fun t g => t.Rests g (g.attempt - 1) ∧ g.attempt ≤ Backoff.maxAttempt ∧
      0 < g.attempt) (connecting now : RunAct κ Location) fun location => Lands location := by
  refine .bind (Q := fun _ => Has fun t g => (t.Rests g (g.attempt - 1) ∧
    g.attempt ≤ Backoff.maxAttempt ∧ 0 < g.attempt) ∧ g.state = .connecting)
    (.modify fun _ _ hr => ⟨hr, rfl⟩) fun _ => ?_
  refine .bind (Q := fun r₀ => Has fun t g => r₀.backoff.attempt = g.attempt ∧
    (t.Rests g (g.attempt - 1) ∧ g.attempt ≤ Backoff.maxAttempt ∧ 0 < g.attempt) ∧
      g.state = .connecting) (.get fun _ _ hr => ⟨rfl, hr⟩) fun r₀ => ?_
  refine .bind (Q := fun _ => Has fun t g =>
    (t.Counts g ∧ t.stage = .attempting ∧ g.fatal = none) ∧ g.state = .connecting)
    (obeys_emit fun t g ⟨hattempt, ⟨⟨hstage, hepoch, hproven, hfatal, hcount⟩, _, hpos⟩, hstate⟩ =>
      ?_) fun _ => ?_
  · rw [hattempt]
    refine ⟨_, if_pos ⟨hstage, hcount⟩, ⟨⟨trivial, hepoch, ?_, ?_⟩, rfl, hfatal⟩, hstate⟩
    · show _ = min (g.attempt - 1 + 1) Trail.maxCount
      rw [Nat.sub_add_cancel hpos]
    · intro hsome
      rw [hproven] at hsome
      cases hsome
  · exact .bind (.get (Q := fun _ => Has fun t g =>
      (t.Counts g ∧ t.stage = .attempting ∧ g.fatal = none) ∧ g.state = .connecting)
      fun _ _ hr => hr) fun _ => .pure fun _ _ hr => hr

theorem obeys_begin (draw : ℕ) :
    Obeys Trail.read (fun t (r : Runner κ) => Lands .top t r) (begin now draw)
      fun location => Lands location := by
  refine .bind (Q := fun _ t r => Lands .top t r) (.get fun _ _ hr => hr) fun r₀ => ?_
  split
  · -- A shutdown is asked for, and the runner stops.
    refine obeys_stop.weaken (fun t r hr => .inr ?_) fun _ _ _ hr => hr
    have hstate : r.state = .disconnected := hr.2
    simp [hr.1.1, hstate]
  · -- The delay is drawn, and one attempt more is counted.
    refine .bind (Q := fun r₀ t r => r₀ = r ∧ Lands .top t r) (.get fun _ _ hr => ⟨rfl, hr⟩)
      fun r₀ => ?_
    rw [show r₀.backoff.nextDelay draw = _ from Backoff.nextDelay_eq _ _]
    dsimp only
    refine .bind (Q := fun _ => Has fun t g => t.Rests g (g.attempt - 1) ∧
      g.attempt ≤ Backoff.maxAttempt ∧ 0 < g.attempt) (.modify fun t r hr => ?_) fun _ => ?_
    · -- What the trail has seen is the attempt before this one.
      obtain ⟨rfl, ⟨hstage, hepoch, hproven, hfatal, hcount⟩, -⟩ := hr
      have hseen : min (r₀.backoff.attempt + 1) Backoff.maxAttempt - 1 =
          min r₀.backoff.attempt Trail.maxCount := by
        rw [Trail.maxCount]
        omega
      refine ⟨?_, Nat.min_le_right _ _, ?_⟩
      · show t.Rests _ (min (r₀.backoff.attempt + 1) Backoff.maxAttempt - 1)
        rw [hseen]
        exact ⟨hstage, hepoch, hproven, hfatal, hcount⟩
      · show 0 < min (r₀.backoff.attempt + 1) Backoff.maxAttempt
        rw [Backoff.maxAttempt]
        omega
    -- An empty delay leads to the attempt at once.
    split
    · exact obeys_connecting
    · exact .bind (Q := fun _ => Has fun t g => (t.Rests g (g.attempt - 1) ∧
        g.attempt ≤ Backoff.maxAttempt ∧ 0 < g.attempt) ∧ g.state = .disconnected)
        (.modify fun _ _ hr => ⟨hr, rfl⟩) fun _ => .pure fun _ _ hr => hr

theorem obeys_idleCommand {wake : Instant} (command : Option (Command κ × Bool)) :
    Obeys Trail.read (fun t (r : Runner κ) => Lands (.idle wake) t r) (idleCommand wake command)
      fun location => Lands location := by
  have hstop : Obeys Trail.read (fun t (r : Runner κ) => Lands (.idle wake) t r)
      (stop : RunAct κ Location) fun location => Lands location :=
    obeys_stop_waiting (P := fun t g => t.Fits g (.idle wake) ∧ g.state = .disconnected)
      fun t g hr => ⟨hr.1.1.1, hr.2⟩
  match command with
  | some (command, dropped) =>
    have hcommand : Obeys Trail.read (fun t (r : Runner κ) => Lands (.idle wake) t r)
        (handleCommand command dropped) fun _ t r => Lands (.idle wake) t r :=
      (still_handleCommand command dropped).obeys
        (P := fun t g => t.Fits g (.idle wake) ∧ g.state = .disconnected)
    refine .bind hcommand fun _ => .bind (Q := fun _ t r => Lands (.idle wake) t r)
      (.get fun _ _ hr => hr) fun r₀ => ?_
    split
    · exact hstop
    · exact .pure fun _ _ hr => hr
  | none =>
    exact .bind (Q := fun _ t r => Lands (.idle wake) t r) (.modify fun _ _ hr => hr)
      fun _ => hstop

theorem obeys_lost (reason : String) :
    Obeys Trail.read (Has fun t g => t.Counts g ∧ g.fatal = none) (do
        disconnected now reason
        return .top : RunAct κ Location) fun location => Lands location :=
  .bind (obeys_disconnected reason) fun _ => .pure fun _ _ hr => hr

theorem obeys_drive {deadline : Instant} :
    Obeys Trail.read (fun t (r : Runner κ) => Lands (.opening deadline) t r) (drive now)
      fun location => Lands location := by
  have hopened : Still (wire (Wire.say .opened) : RunAct κ Unit) :=
    still_wire (.say fun _ => trivial) fun _ => ⟨rfl, rfl⟩
  refine .bind (hopened.obeys (P := fun t g => t.Counts g ∧ t.stage = .attempting ∧
    g.fatal = none) |>.weaken (fun t r hr => hr.1) fun _ _ _ hr => hr) fun _ => ?_
  refine .bind (Q := fun _ => Has fun t g => t.Counts g ∧ t.stage = .attempting ∧ g.fatal = none)
    (.modify fun _ _ hr => hr) fun _ => ?_
  -- The session begins, and its first frame is queued before the state is shown.
  have hconnect : Obeys Trail.read (Has fun t g => t.Counts g ∧ t.stage = .attempting ∧
      g.fatal = none) (wire Wire.connect : RunAct κ Action)
      fun action t r => action = .send .opening ∧ t.Linked r.gist := by
    refine .of_shows Trail.read_of_silent (shows_wire fun _ _ hx => ?_) fun t r hr => ?_
    · simp [Wire.connect, Act.obs] at hx
    · obtain ⟨hc, hstage, hfatal⟩ := hr
      refine ⟨rfl, ⟨hc.underWay, hc.epoch, hc.count, hc.proven⟩, fun h => ?_, ?_, hfatal⟩
      · exact absurd h (by simp [wire, Wire.connect, Act.state, Act.zoom, gist, Session.connect])
      · rw [hstage]
        rfl
  refine .bind hconnect fun action => .bind (Q := fun _ => Has Trail.Linked) ?_ fun _ => ?_
  · intro t r hr
    obtain ⟨rfl, hl⟩ := hr
    exact (still_push .opening).obeys (P := Trail.Linked) t r hl
  · refine .bind (Q := fun _ t r => Lands .writing t r) (.modify fun t r hr => ⟨hr.shows _, ?_⟩)
      fun _ => .bind (Q := fun _ t r => Lands .writing t r) (.modify fun _ _ hr => hr) fun _ =>
        .pure fun _ _ hr => hr
    exact congrArg Phase.state hr.2.2.1

/-- Whatever a step of the socket loop did, the events keep to their order. -/
theorem obeys_afterStep (step : Step κ) :
    Obeys Trail.read (Has Trail.Linked) (afterStep now step) fun location => Lands location := by
  -- What is taken is no fatal outcome: a fatal failure stands in the state.
  have htake : Obeys Trail.read (Has Trail.Linked) (take now step)
      fun outcome t r => NotFatal outcome ∧ (t.Linked r.gist ∨ t.Failed r.gist) := by
    intro t r hr
    obtain ⟨t', ht, hq⟩ := obeys_take step t r hr
    refine ⟨t', ht, ?_, hq⟩
    have hphase : r.session.phase = t.stage.phase := hr.2.2.1
    refine (does_take step r ⟨⟨?_, ?_⟩, hr.2.2.2⟩).2.1
    · rw [hphase]
      exact Stage.phase_ne_disconnected hr.1.underWay
    · rw [hphase]
      exact t.stage.phase_ne_fatallyClosed
  -- The state that is shown is that of the phase.
  let Synced (t : Trail) (g : Gist) : Prop :=
    (t.Linked g ∨ t.Failed g) ∧ g.state = g.session.phase.state
  refine .bind htake fun outcome => .bind (Q := fun _ t r => NotFatal outcome ∧ Synced t r.gist)
    (.modify fun t r ⟨ho, hr⟩ => ⟨ho, ?_, rfl⟩) fun _ => ?_
  · exact hr.imp (fun hl => hl.shows _) fun hf => hf
  refine .bind (Q := fun r₀ t r => r₀ = r ∧ NotFatal outcome ∧ Synced t r.gist)
    (.get fun _ _ hr => ⟨rfl, hr⟩) fun r₀ => ?_
  cases hf : r₀.fatal with
  | some fatal =>
    refine .bind (Q := fun _ t r => Lands (.closing (some fatal)) t r) (.modify ?_) fun _ =>
      .pure fun _ _ hr => hr
    -- The failure was noted by this step, so the session earned it.
    rintro t r ⟨rfl, -, hr | hr, hstate⟩
    · exact absurd (hf.symm.trans hr.2.2.2) (by simp)
    · obtain ⟨hunder, hphase, fatal', hf', hearns⟩ := hr
      obtain rfl := Option.some.inj (hf.symm.trans hf')
      exact ⟨⟨hunder, hearns⟩, by rw [hphase] at hstate; exact hstate⟩
  | none =>
    -- Without a failure the session is still linked.
    have hlinked : ∀ t (r : Runner κ), r₀ = r ∧ NotFatal outcome ∧ Synced t r.gist →
        Lands .writing t r := by
      rintro t r ⟨rfl, -, hr | hr, hstate⟩
      · exact ⟨hr, hstate.trans (congrArg Phase.state hr.2.2.1)⟩
      · obtain ⟨-, -, fatal, hf', -⟩ := hr
        exact absurd (hf.symm.trans hf') (by simp)
    dsimp only
    split
    · exact .pure fun t r hr => ⟨(hlinked t r hr).1.1.underWay, (hlinked t r hr).2⟩
    · match outcome with
      | some (.closed reason) =>
        refine (obeys_lost reason).weaken (fun t r hr => ?_) fun _ _ _ hr => hr
        exact ⟨(hlinked t r hr).1.1, (hlinked t r hr).1.2.2.2⟩
      | some .shutdown =>
        exact .pure fun t r hr => ⟨(hlinked t r hr).1.1.underWay, (hlinked t r hr).2⟩
      | some (.fatal fatal) => exact .pure fun t r hr => absurd rfl (hr.2.1 fatal)
      | none =>
        exact .bind (Q := fun _ t r => Lands .writing t r)
          (.modify fun t r hr => hlinked t r hr) fun _ => .pure fun _ _ hr => hr

/-- In the socket loop. -/
def Loops : Trail → Runner κ → Prop := Lands .writing

theorem obeys_step (step : Step κ) :
    Obeys Trail.read Loops (afterStep now step) fun location => Lands location :=
  (obeys_afterStep step).weaken (fun _ _ hr => hr.1) fun _ _ _ hr => hr

theorem obeys_pure {location : Location} (hl : location = .writing ∨ location = .flushing ∨
    location = .sources) : Obeys Trail.read Loops (pure location : RunAct κ Location)
      fun location => Lands location := by
  rcases hl with rfl | rfl | rfl
  all_goals exact .pure fun _ _ hr => hr

/-- A still computation in the socket loop. -/
theorem Still.loops {x : RunAct κ α} (hx : Still x) :
    Obeys Trail.read Loops x fun _ => Loops :=
  hx.obeys (P := fun t g => t.Linked g ∧ g.state = Location.shown t.stage .writing)

theorem obeys_write (reply : SinkReply) :
    Obeys Trail.read Loops (write now reply : RunAct κ Location)
      fun location => Lands location := by
  refine .bind still_get.loops fun r₀ => ?_
  dsimp only
  split
  · exact obeys_pure (by simp)
  · match reply with
    | .pending => exact obeys_pure (by simp)
    | .failed error => exact obeys_step _
    | .ready (.error error) => exact .bind (still_hand false).loops fun _ => obeys_step _
    | .ready (.ok ()) =>
      exact .bind (still_hand true).loops fun _ =>
        .bind (Still.loops (still_modify fun _ => rfl)) fun _ => obeys_pure (by simp)

theorem still_flushed : Still (wire (Act.modify Wire.flushed) : RunAct κ Unit) :=
  still_wire (.modify _) fun w => ⟨rfl, (w.sameIds_flushed .methods).2.2⟩

theorem obeys_flush (reply : FlushReply) :
    Obeys Trail.read Loops (flush now reply : RunAct κ Location)
      fun location => Lands location := by
  refine .bind still_get.loops fun r₀ => ?_
  split
  · match reply with
    | some (.ok ()) =>
      exact .bind (Still.loops (still_modify fun _ => rfl)) fun _ => .bind still_flushed.loops
        fun _ => obeys_pure (by simp)
    | some (.error error) => exact obeys_step _
    | none => exact obeys_pure (by simp)
  · exact obeys_pure (by simp)

theorem obeys_sources (read : Option ReadReply) (command : Option (Option (Command κ × Bool)))
    (timer : Bool) : Obeys Trail.read Loops (sources now read command timer)
      fun location => Lands location := by
  refine .bind still_get.loops fun r₀ => .bind (Still.loops (still_modify fun _ => rfl))
    fun _ => ?_
  dsimp only
  split
  · exact obeys_step _
  · exact obeys_pure (by simp)

theorem obeys_finish (fatal : Option Fatal) :
    Obeys Trail.read (fun t (r : Runner κ) => Lands (.closing fatal) t r) (finish fatal)
      fun location => Lands location := by
  cases fatal with
  -- The runner was told to stop: closed without an event.
  | none =>
    let Under (t : Trail) (_ : Gist) : Prop := t.stage.UnderWay
    refine .bind (Q := fun _ => Has Under)
      ((obeys_settle (P := Under) .stopping).weaken (fun _ _ hr => hr.1) fun _ _ _ hr => hr)
      fun _ => ?_
    refine .bind (Q := fun _ => Has Under) (.modify fun _ _ hr => hr) fun _ => ?_
    refine .bind (Q := fun _ t r => t.stage.UnderWay ∧ r.state = .closed)
      (.modify fun _ _ hr => ⟨hr, rfl⟩) fun _ => obeys_stop.weaken (fun t r hr => .inr ?_)
        fun _ _ _ hr => hr
    rw [hr.2]
    exact ⟨by simp, hr.1.ne_over⟩
  -- The failure is announced, and nothing after it.
  | some fatal =>
    let Due (t : Trail) (_ : Gist) : Prop := t.stage.UnderWay ∧ t.Earns fatal
    refine .bind (Q := fun _ => Has Due)
      ((obeys_settle (P := Due) .stopping).weaken (fun _ _ hr => hr.1) fun _ _ _ hr => hr)
      fun _ => ?_
    refine .bind (Q := fun _ => Has fun t g => Due t g ∧ g.state = .fatal)
      (.modify fun _ _ hr => ⟨hr, rfl⟩) fun _ => ?_
    refine .bind (Q := fun _ => Has fun t g => t.stage = .over ∧ g.state = .fatal)
      (obeys_emit fun t g hr => ⟨_, if_pos hr.1, rfl, hr.2⟩) fun _ =>
        obeys_stop.weaken (fun t r hr => .inl ⟨hr.2, hr.1⟩) fun _ _ _ hr => hr

end Runner

namespace World

/-- **Every step keeps to the order of events**, and leads from location to location. -/
theorem step_obeys {t : Trail} {w w' : World κ} {input : Input κ} {o : List (Seen κ)}
    (hw : Runner.Lands w.location t w.runner) (hs : w.step input = some (w', o)) :
    ∃ t', follow Trail.read t o = some t' ∧ Runner.Lands w'.location t' w'.runner := by
  rcases step_cases hs with ⟨elapsed, rfl, rfl, rfl⟩ | ⟨x, hx, he⟩
  · exact ⟨t, rfl, hw⟩
  · have hobeys : ∀ {P : Trail → Runner κ → Prop},
        Obeys Trail.read P x (fun location => Runner.Lands location) → P t w.runner →
        ∃ t', follow Trail.read t o = some t' ∧ Runner.Lands w'.location t' w'.runner := by
      intro P hx hP
      obtain ⟨t', ht, hq⟩ := hx t w.runner hP
      obtain ⟨rfl, rfl⟩ := Prod.mk.inj he
      exact ⟨t', ht, hq⟩
    have hat : ∀ {location}, w.location = location → Runner.Lands location t w.runner :=
      fun hl => hl ▸ hw
    -- Each computation keeps to the order from the location it is made at.
    cases hx with
    | begin draw hl => exact hobeys (Runner.obeys_begin draw) (hat hl)
    | elapsed hl => exact hobeys Runner.obeys_connecting (hat hl).1
    | command command hl => exact hobeys (Runner.obeys_idleCommand command) (hat hl)
    | opened hl => exact hobeys Runner.obeys_drive (hat hl)
    | openFailed reason hoffer hl =>
      exact hobeys (Runner.obeys_lost reason) ⟨(hat hl).1.1, (hat hl).1.2.2⟩
    | sink reply hl => exact hobeys (Runner.obeys_write reply) (hat hl)
    | flush reply hl =>
      have hloops : Runner.Lands .flushing t w.runner := hat hl
      exact hobeys (Runner.obeys_flush reply) hloops
    | poll read command timer hl =>
      have hloops : Runner.Lands .sources t w.runner := hat hl
      exact hobeys (Runner.obeys_sources read command timer) hloops
    | closed hl => exact hobeys (Runner.obeys_finish _) (hat hl)

/-- The trail of a run, and what it says of the runner. -/
theorem lands {config : Config} {h : List (Seen κ)} {w : World κ}
    (hrun : Run step (init config) h w) :
    ∃ t, follow Trail.read .init h = some t ∧ Runner.Lands w.location t w.runner := by
  have hinit : Runner.Lands .top .init (.new config 0 : Runner κ) :=
    ⟨⟨rfl, rfl, rfl, rfl, .inl rfl⟩, rfl⟩
  exact hrun.obeys (I := fun t w => Runner.Lands w.location t w.runner) hinit step_obeys

end World

/-- **The event stream of every run keeps to its order.**  Whatever the server sends, whatever
callers ask and wherever the network fails: every attempt is numbered by the failures in a row
before it, a session is ready only after it was opened in the same attempt, with the number of
attempts that ended as its epoch, and asks for the subscriptions at once; a frame arrives only
within an attempt; and nothing follows a terminal failure. -/
theorem event_order {config : Config} {h : List (Seen κ)} {w : World κ}
    (hrun : Run World.step (World.init config) h w) :
    (follow Trail.next .init (events h)).isSome := by
  obtain ⟨t, ht, -⟩ := World.lands hrun
  rw [Trail.follow_events, ht]
  rfl

/-- The run of a session that is dropped twice. -/
theorem event_order_dropTwice :
    ∃ (h : List (Seen ℕ)) (w : World ℕ), Run World.step (World.init demoConfig) h w ∧
      (events h).length = 10 ∧ (follow Trail.next .init (events h)).isSome := by
  have hrun : Run World.step (World.init demoConfig) _ _ :=
    run_execute dropTwice (by decide +kernel)
  exact ⟨_, _, hrun, by decide +kernel, event_order hrun⟩

/-- **The state shown is the one the events make out**, at every await of every run: a reader of
the events knows it but for the socket that is being opened or closed. -/
theorem state_shown {config : Config} {h : List (Seen κ)} {w : World κ}
    (hrun : Run World.step (World.init config) h w) :
    ∃ t, follow Trail.next .init (events h) = some t ∧
      w.runner.state = w.location.shown t.stage := by
  obtain ⟨t, ht, -, hstate⟩ := World.lands hrun
  exact ⟨t, by rw [Trail.follow_events, ht], hstate⟩

/-- The state shown while a second attempt waits. -/
theorem state_shown_dropTwice :
    ∃ (h : List (Seen ℕ)) (w : World ℕ), Run World.step (World.init demoConfig) h w ∧
      w.runner.state = .disconnected ∧ ∃ t, follow Trail.next .init (events h) = some t ∧
      w.runner.state = w.location.shown t.stage := by
  have hrun : Run World.step (World.init demoConfig) _ _ :=
    run_execute dropTwice (by decide +kernel)
  exact ⟨_, _, hrun, by decide +kernel, state_shown hrun⟩

end RocketSocket
