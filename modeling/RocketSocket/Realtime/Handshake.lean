import RocketSocket.Realtime.Deadlines

/-!
# The deadline of the handshake

`drive` sets `handshake_deadline` when the socket opens, and a login that succeeds clears it.
A run is looked at through its schedule: the inputs, and the time of each.  As long as no
session is opened again by a repeated `connected` frame, an unfinished handshake has the
deadline its socket began with; after such a frame it has none.

## Main definitions

* `Watch`, `Runner.watch` — what of the runner decides about the deadline.
* `World.timed`, `lastOpened` — the schedule of a run, and when its last socket was opened.
* `World.Steady` — no `connected` frame is taken in a ready session.
* `HandshakeBounded` — an unfinished handshake is under the deadline of its socket.

## Main results

* `Runner.take_watch` — what one step of the socket loop does.
* `handshake_bounded_of_steady` — **in a run of steady steps an unfinished handshake is under a
  deadline**, and any other step leaves one without.
-/

namespace RocketSocket

open Machine

variable {κ : Type}

/-! ### What decides about the deadline -/

/-- What of the runner decides about the deadline of the handshake. -/
structure Watch where
  phase : Phase
  fatal : Option Fatal
  shutdown : Bool
  deadline : Option Instant
  timeout : Duration

/-- What of the runner decides about the deadline of the handshake. -/
def Runner.watch (r : Runner κ) : Watch :=
  ⟨r.session.phase, r.fatal, r.shutdown, r.handshakeDeadline, r.config.handshakeTimeout⟩

namespace Watch

/-- What a message does. -/
inductive Hears : ServerMessage → Watch → Watch → Prop
  | connected (session : String) (w : Watch) :
    Hears (.connected session) w { w with phase := .authenticating }
  | ready {message : ServerMessage} (w : Watch) : (∀ session, message ≠ .connected session) →
    Hears message w { w with phase := .ready, deadline := none }
  | failed {message : ServerMessage} (fatal : Fatal) (w : Watch) :
    (∀ session, message ≠ .connected session) →
    Hears message w { w with phase := .fatallyClosed, fatal := some fatal }
  | other {message : ServerMessage} (w : Watch) : (∀ session, message ≠ .connected session) →
    Hears message w w

/-- What one step of the socket loop does. -/
inductive Steps : Step κ → Watch → Watch → Prop
  | heard {message : ServerMessage} {w w' : Watch} : Hears message w w' →
    Steps (.frame (.text (some message))) w w'
  | commanded (command : Command κ) (dropped shutdown : Bool) (w : Watch) :
    Steps (.command command dropped) w { w with shutdown := shutdown }
  | deadline (w : Watch) :
    Steps .deadline w { w with deadline := if w.phase = .ready then none else w.deadline }
  | other {step : Step κ} (w : Watch) :
    (∀ message, step ≠ .frame (.text (some message))) → Steps step w w

end Watch

namespace Runner

variable {α β : Type} {now : Instant} {r : Runner κ}

/-- The computation leaves all of it alone. -/
def Unwatched (x : RunAct κ α) : Prop := ∀ r, (x.state r).watch = r.watch

theorem Unwatched.bind {x : RunAct κ α} {f : α → RunAct κ β} (hx : Unwatched x)
    (hf : ∀ a, Unwatched (f a)) : Unwatched (x >>= f) := by
  intro r
  rw [Act.state_bind, hf _ _, hx]

theorem unwatched_wire {x : Act (Wire κ) (Seen κ) α}
    (hx : ∀ w, (x.state w).session.phase = w.session.phase) : Unwatched (wire x) := by
  intro r
  show Watch.mk (x.state r.toWire).session.phase _ _ _ _ = _
  rw [hx]
  rfl

theorem unwatched_login (params : List Value) :
    Unwatched (wire (Wire.login params) : RunAct κ Unit) := by
  refine unwatched_wire fun w => ?_
  rw [Wire.state_login]
  rfl

theorem unwatched_correlate (message : ServerMessage) :
    Unwatched (wire (Wire.correlate message) : RunAct κ Unit) := by
  refine unwatched_wire fun w => ?_
  rw [(Wire.correlate_steps message (fun w' => w'.session = w.session) (fun _ _ _ hw => hw)
    w rfl).2]

theorem unwatched_hand (accepted : Bool) :
    Unwatched (wire (Wire.hand accepted) : RunAct κ Unit) := by
  refine unwatched_wire fun w => ?_
  rw [Wire.session_hand]

theorem unwatched_emit (event : Event) : Unwatched (emit event : RunAct κ Unit) := fun _ => rfl

/-- A command can only ask for a shutdown. -/
theorem watch_handleCommand (command : Command κ) (dropped : Bool) (r : Runner κ) :
    ∃ shutdown, ((handleCommand command dropped).state r).watch =
      { r.watch with shutdown := shutdown } := by
  have hwire : ∀ command : Command κ, Unwatched (wire (Wire.handleCommand command dropped)) := by
    intro command
    refine unwatched_wire fun w => ?_
    cases command <;> cases dropped <;> rfl
  cases command with
  | shutdown => exact ⟨true, rfl⟩
  | call method params ack => exact ⟨r.shutdown, hwire (.call method params ack) r⟩
  | subscribe name params ack => exact ⟨r.shutdown, hwire (.subscribe name params ack) r⟩
  | unsubscribe id => exact ⟨r.shutdown, hwire (.unsubscribe id) r⟩

/-- Hearing a message: the session moves, and its actions are carried out. -/
theorem watch_onText (message : ServerMessage) (r : Runner κ) :
    Watch.Hears message r.watch ((onText now message).state r).watch := by
  -- What follows the actions leaves the rest alone.
  have hrest : Unwatched (wire (Wire.correlate message) >>= fun _ =>
      (eventOf message).elim (pure ()) emit : RunAct κ Unit) := by
    refine (unwatched_correlate message).bind fun _ => ?_
    cases eventOf message with
    | some event => exact unwatched_emit event
    | none => exact fun _ => rfl
  have hstate : ((onText now message).state r).watch =
      ((((r.session.handle message).2.forM (apply now) : RunAct κ PUnit).state
        { r with session := (r.session.handle message).1 }).watch) := by
    unfold onText
    cases hevent : eventOf message with
    | some event =>
      rw [hevent] at hrest
      exact hrest _
    | none =>
      rw [hevent] at hrest
      exact hrest _
  rw [hstate]
  rcases r.session.handle_cases message with ⟨session, rfl, he⟩ | ⟨version, rfl, he⟩ |
    ⟨id, result, rfl, -, he⟩ | ⟨id, result, error, rfl, -, he⟩ | ⟨id, rfl, he⟩ | ⟨msg, he⟩ | he
  · rw [he]
    show Watch.Hears _ _ ((wire (Wire.login _) : RunAct κ Unit).state _).watch
    rw [unwatched_login]
    exact .connected session r.watch
  · rw [he]
    exact .failed _ r.watch (by simp)
  · rw [he]
    exact .ready r.watch (by simp)
  · rw [he]
    exact .failed _ r.watch (by simp)
  · rw [he]
    exact .other r.watch (by simp)
  · rw [he]
    refine .other r.watch ?_
    rintro session rfl
    cases congrArg Prod.snd he
  · rw [he]
    refine .other r.watch ?_
    rintro session rfl
    cases congrArg Prod.snd he

/-- A deadline step clears the deadline of a session that is ready. -/
theorem watch_onDeadline (now : Instant) (r : Runner κ) : ((onDeadline now).state r).watch =
      { r.watch with
        deadline := if r.session.phase = .ready then none else r.handshakeDeadline } := by
  set deadline := if r.session.phase = .ready then none else r.handshakeDeadline with hdeadline
  by_cases hdue : deadline.any (· ≤ now) = true
  · simp [onDeadline, ← hdeadline, hdue, watch]
  · rcases hverdict : (r.liveness.poll now).2 with _ | _ | _
    · simp [onDeadline, ← hdeadline, hdue, hverdict, watch]
    · simp [onDeadline, ← hdeadline, hdue, hverdict, watch]
      exact ⟨rfl, rfl, rfl, rfl, rfl⟩
    · simp [onDeadline, ← hdeadline, hdue, hverdict, watch]

/-- **What one step of the socket loop does.** -/
theorem take_watch (now : Instant) (step : Step κ) (r : Runner κ) :
    Watch.Steps step r.watch ((take now step).state r).watch := by
  cases step with
  | frame frame =>
    match frame with
    | .text (some message) =>
      exact .heard (watch_onText message { r with liveness := r.liveness.sawTraffic now })
    | .text none => exact .other _ (by simp)
    | .close none => exact .other _ (by simp)
    | .close (some (code, reason)) => exact .other _ (by simp)
    | .binary => exact .other _ (by simp)
    | .control => exact .other _ (by simp)
  | eof => exact .other _ (by simp)
  | failed error => exact .other _ (by simp)
  | command command dropped =>
    obtain ⟨shutdown, heq⟩ := watch_handleCommand command dropped r
    show Watch.Steps _ _ ((handleCommand command dropped).state r).watch
    rw [heq]
    exact .commanded command dropped shutdown r.watch
  | handlesDropped => exact .other _ (by simp)
  | deadline =>
    show Watch.Steps _ _ ((onDeadline now).state r).watch
    rw [watch_onDeadline]
    exact .deadline r.watch

/-- If nothing failed, the socket stays open. -/
theorem afterStep_goes (now : Instant) (step : Step κ) (houtcome : (take now step).value r = none)
    (hfatal : ((take now step).state r).fatal = none)
    (hrunning : ((take now step).state r).shutdown = false) :
    (afterStep now step).value r = .writing ∧ (afterStep now step).state r =
      (armTimer now).state (syncState.state ((take now step).state r)) := by
  constructor
  · simp [afterStep, syncState, hfatal, hrunning, houtcome]
  · simp [afterStep, syncState, hfatal, hrunning, houtcome]

/-- A step after which no socket is open: the runner connects again, or it closes. -/
theorem afterStep_lost {step : Step κ} (h : ¬ ((afterStep now step).value r).Connected) :
    ((afterStep now step).state r).config = ((take now step).state r).config ∧
      (((afterStep now step).value r = .top ∧ ((afterStep now step).state r).shutdown = false) ∨
        ∃ fatal, (afterStep now step).value r = .closing fatal) := by
  -- A fatal failure comes first, then a shutdown, and only then the outcome of the step.
  cases hfatal : ((take now step).state r).fatal with
  | some fatal =>
    refine ⟨?_, .inr ⟨some fatal, ?_⟩⟩
    · simp [afterStep, syncState, hfatal]
    · simp [afterStep, syncState, hfatal]
  | none =>
    cases hshutdown : ((take now step).state r).shutdown with
    | true =>
      refine ⟨?_, .inr ⟨none, ?_⟩⟩
      · simp [afterStep, syncState, hfatal, hshutdown]
      · simp [afterStep, syncState, hfatal, hshutdown]
    | false =>
      rcases houtcome : (take now step).value r with _ | ⟨reason⟩ | _ | fatal
      · -- Going on would leave the socket open.
        simp [afterStep, syncState, hfatal, hshutdown, houtcome, Location.Connected] at h
      · have hlost : ∀ r : Runner κ, ((disconnected now reason).state r).config = r.config ∧
            ((disconnected now reason).state r).shutdown = r.shutdown := fun r => ⟨rfl, rfl⟩
        refine ⟨?_, .inl ⟨?_, ?_⟩⟩
        · simp [afterStep, syncState, hfatal, hshutdown, houtcome, (hlost _).1]
        · simp [afterStep, syncState, hfatal, hshutdown, houtcome]
        · simp [afterStep, syncState, hfatal, hshutdown, houtcome, (hlost _).2]
      · refine ⟨?_, .inr ⟨none, ?_⟩⟩
        · simp [afterStep, syncState, hfatal, hshutdown, houtcome]
        · simp [afterStep, syncState, hfatal, hshutdown, houtcome]
      · refine ⟨?_, .inr ⟨some fatal, ?_⟩⟩
        · simp [afterStep, syncState, hfatal, hshutdown, houtcome]
        · simp [afterStep, syncState, hfatal, hshutdown, houtcome]

end Runner

/-! ### Where the runner awaits -/

/-- What holds of an open socket: a ready session has no deadline, and an unfinished handshake
the one its socket began with. -/
structure Watch.InTime (opened : Option Instant) (w : Watch) : Prop where
  running : w.shutdown = false
  ready : w.phase = .ready → w.deadline = none
  bounded : w.phase = .handshaking ∨ w.phase = .authenticating →
    ∃ t, opened = some t ∧ w.deadline = some (t + w.timeout)

theorem Watch.InTime.hears {opened : Option Instant} {message : ServerMessage} {w w' : Watch}
    (hlive : w.phase ≠ .disconnected ∧ w.phase ≠ .fatallyClosed) (h : w.InTime opened)
    (hsteady : w.phase = .ready → ∀ session, message ≠ .connected session)
    (hears : Hears message w w') : w'.InTime opened := by
  cases hears with
  | connected session =>
    refine ⟨h.running, fun hphase => (by cases hphase), fun _ => h.bounded ?_⟩
    cases hphase : w.phase with
    | ready => exact absurd rfl (hsteady hphase session)
    | handshaking => exact .inl rfl
    | authenticating => exact .inr rfl
    | disconnected => exact absurd hphase hlive.1
    | fatallyClosed => exact absurd hphase hlive.2
  | ready =>
    refine ⟨h.running, fun _ => rfl, ?_⟩
    rintro (hphase | hphase)
    · cases hphase
    · cases hphase
  | failed =>
    refine ⟨h.running, fun hphase => (by cases hphase), ?_⟩
    rintro (hphase | hphase)
    · cases hphase
    · cases hphase
  | other => exact h

theorem Watch.InTime.steps {opened : Option Instant} {step : Step κ} {w w' : Watch}
    (hlive : w.phase ≠ .disconnected ∧ w.phase ≠ .fatallyClosed) (h : w.InTime opened)
    (hsteady : w.phase = .ready → ∀ session, step ≠ .frame (.text (some (.connected session))))
    (hsteps : Steps step w w') (hrunning : w'.shutdown = false) : w'.InTime opened := by
  cases hsteps with
  | heard hears =>
    refine h.hears hlive (fun hready session heq => ?_) hears
    subst heq
    exact hsteady hready session rfl
  | commanded command dropped shutdown => exact ⟨hrunning, h.ready, h.bounded⟩
  | deadline =>
    refine ⟨h.running, fun hready => if_pos hready, fun hphase => ?_⟩
    have hnot : w.phase ≠ .ready := by
      rintro hready
      rw [hready] at hphase
      rcases hphase with hphase | hphase
      · cases hphase
      · cases hphase
    obtain ⟨t, hopened, hdeadline⟩ := h.bounded hphase
    exact ⟨t, hopened, (if_neg hnot).trans hdeadline⟩
  | other => exact h

namespace Runner

variable {now : Instant} {r : Runner κ} {timeout : Duration} {opened : Option Instant}

/-- What holds of the runner where it awaits. -/
def Punctual (timeout : Duration) (opened : Option Instant) (r : Runner κ) (location : Location) :
    Prop :=
  r.config.handshakeTimeout = timeout ∧ match location with
    | .top | .idle _ | .opening _ => r.shutdown = false
    | .writing | .flushing | .sources => r.watch.InTime opened ∧
      ∀ d, r.handshakeDeadline = some d → r.timer ≤ d
    | .closing _ | .stopped => True

/-- The timer is armed no later than the deadline. -/
theorem armTimer_le {d : Instant} (h : r.handshakeDeadline = some d) :
    ((armTimer now).state r).timer ≤ d := by
  have htimer : ((armTimer now).state r).timer = min (r.liveness.dueAt now) d := by
    simp only [armTimer, Act.state_modify, h]
  rw [htimer]
  exact min_le_right _ _

/-- An unfinished handshake that is due is given up. -/
theorem afterStep_due (now : Instant) {d : Instant} (hphase : r.session.phase ≠ .ready)
    (hd : r.handshakeDeadline = some d) (hdue : d ≤ now) (hfatal : r.fatal = none)
    (hrunning : r.shutdown = false) :
    (afterStep now (.deadline : Step κ)).value r = .top := by
  have hwatch := watch_onDeadline now r
  have hfatal' : ((take now .deadline).state r).fatal = none :=
    (congrArg Watch.fatal hwatch).trans hfatal
  have hrunning' : ((take now .deadline).state r).shutdown = false :=
    (congrArg Watch.shutdown hwatch).trans hrunning
  have houtcome : (take now .deadline).value r = some (.closed
      ("the handshake did not complete within " ++
        Duration.debug r.config.handshakeTimeout)) := by
    simp [take, onDeadline, hphase, hd, hdue]
  simp [afterStep, syncState, hfatal', hrunning', houtcome]

/-- A step of the socket loop that opens no session again. -/
theorem punctual_afterStep {step : Step κ} (hlive : r.session.Live)
    (h : Punctual timeout opened r .sources)
    (hsteady : r.session.phase = .ready →
      ∀ session, step ≠ .frame (.text (some (.connected session)))) :
    Punctual timeout opened ((afterStep now step).state r) ((afterStep now step).value r) := by
  obtain ⟨htimeout, htime, -⟩ := h
  have hsteps := take_watch now step r
  have hconfig : ((take now step).state r).config.handshakeTimeout = timeout := by
    rw [← htimeout]
    show ((take now step).state r).watch.timeout = r.watch.timeout
    generalize ((take now step).state r).watch = w' at hsteps
    cases hsteps with
    | heard hears => cases hears <;> rfl
    | _ => rfl
  by_cases hopen : ((afterStep now step).value r).Connected
  · obtain ⟨-, -, hshutdown, hlocation, hstate⟩ := afterStep_open hopen
    have hnext := Watch.InTime.steps (w := r.watch) hlive htime hsteady hsteps hshutdown
    rw [hlocation, hstate]
    exact ⟨hconfig, hnext, fun d hd => armTimer_le hd⟩
  · obtain ⟨heq, ⟨hlocation, hshutdown⟩ | ⟨fatal, hlocation⟩⟩ := afterStep_lost hopen
    · rw [hlocation]
      exact ⟨(congrArg Config.handshakeTimeout heq).trans hconfig, hshutdown⟩
    · rw [hlocation]
      exact ⟨(congrArg Config.handshakeTimeout heq).trans hconfig, trivial⟩

/-- What does not look at the rest of the runner. -/
theorem Punctual.congr {r' : Runner κ} {location : Location}
    (h : Punctual timeout opened r location) (hwatch : r'.watch = r.watch)
    (htimer : r'.timer = r.timer) : Punctual timeout opened r' location := by
  have hconfig : r'.config.handshakeTimeout = r.config.handshakeTimeout :=
    congrArg Watch.timeout hwatch
  have hshutdown : r'.shutdown = r.shutdown := congrArg Watch.shutdown hwatch
  have hdeadline : r'.handshakeDeadline = r.handshakeDeadline := congrArg Watch.deadline hwatch
  unfold Punctual at h ⊢
  rw [hconfig, hwatch, hshutdown, hdeadline, htimer]
  exact h

/-- The socket is open, and the runner punctual. -/
def Open (timeout : Duration) (opened : Option Instant) (r : Runner κ) : Prop :=
  r.session.Live ∧ Punctual timeout opened r .sources

theorem ensures_afterStep {step : Step κ} {P : Runner κ → Prop}
    (hP : ∀ r, P r → Open timeout opened r ∧ (r.session.phase = .ready →
      ∀ session, step ≠ .frame (.text (some (.connected session))))) :
    Ensures P (afterStep now step) fun location r => Punctual timeout opened r location :=
  fun r hr => punctual_afterStep (hP r hr).1.1 (hP r hr).1.2 (hP r hr).2

theorem ensures_hand (accepted : Bool) :
    Ensures (Open timeout opened) (wire (Wire.hand accepted) : RunAct κ Unit)
      fun _ => Open timeout opened := by
  rintro r ⟨hlive, hr⟩
  refine ⟨?_, hr.congr (unwatched_hand accepted r) rfl⟩
  show (Act.state (Wire.hand accepted) r.toWire).session.Live
  rw [Wire.session_hand]
  exact hlive

/-- Passing a frame to the sink leaves the deadline alone, or the socket fails. -/
theorem ensures_write (reply : SinkReply) :
    Ensures (Open timeout opened) (write now reply : RunAct κ Location)
      fun location r => Punctual timeout opened r location := by
  have hfailed (error : String) : Ensures (Open timeout opened)
      (afterStep now (.failed error) : RunAct κ Location)
      fun location r => Punctual timeout opened r location :=
    ensures_afterStep fun r hr => ⟨hr, fun _ _ => by simp⟩
  refine .bind (Q := fun _ => Open timeout opened) (.get fun _ hr => hr) fun r₀ => ?_
  dsimp only
  split
  · exact .pure fun r hr => hr.2
  · match reply with
    | .pending => exact .pure fun r hr => hr.2
    | .failed error => exact hfailed error
    | .ready (.error error) => exact .bind (ensures_hand false) fun _ => hfailed error
    | .ready (.ok ()) =>
      refine .bind (ensures_hand true) fun _ => .bind (Q := fun _ => Open timeout opened)
        (.modify fun r hr => ⟨hr.1, hr.2.congr rfl rfl⟩) fun _ => .pure fun r hr => hr.2

/-- So does the flush. -/
theorem ensures_flush (reply : FlushReply) :
    Ensures (Open timeout opened) (flush now reply : RunAct κ Location)
      fun location r => Punctual timeout opened r location := by
  refine .bind (Q := fun _ => Open timeout opened) (.get fun _ hr => hr) fun r₀ => ?_
  split
  · match reply with
    | some (.ok ()) =>
      refine .bind (Q := fun _ => Open timeout opened)
        (.modify fun r hr => ⟨hr.1, hr.2.congr rfl rfl⟩) fun _ => ?_
      refine .bind (Q := fun _ => Open timeout opened) ?_ fun _ => .pure fun r hr => hr.2
      exact fun r hr => ⟨hr.1, hr.2.congr rfl rfl⟩
    | some (.error error) => exact ensures_afterStep fun r hr => ⟨hr, fun _ _ => by simp⟩
    | none => exact .pure fun r hr => hr.2
  · exact .pure fun r hr => hr.2

/-- What is taken from the sources is no repeated `connected` frame. -/
theorem punctual_sources {read : Option ReadReply} {command : Option (Option (Command κ × Bool))}
    {timer : Bool} (h : Open timeout opened r)
    (hsteady : r.session.phase = .ready → ∀ session,
      r.taken read command timer ≠ some (.frame (.text (some (.connected session))))) :
    Punctual timeout opened ((sources now read command timer).state r)
      ((sources now read command timer).value r) := by
  have hturn : Open timeout opened { r with turn := !r.turn } :=
    ⟨h.1, h.2.congr rfl rfl⟩
  cases htaken : r.taken read command timer with
  | none =>
    have heq : sources now read command timer r = (.writing, { r with turn := !r.turn }, []) := by
      rw [sources_eq, htaken]
      rfl
    rw [Act.state, Act.value, heq]
    exact hturn.2
  | some step =>
    have heq : sources now read command timer r =
        afterStep now step { r with turn := !r.turn } := by
      rw [sources_eq, htaken]
    rw [Act.state, Act.value, heq]
    refine punctual_afterStep hturn.1 hturn.2 fun hready session hstep => ?_
    rw [hstep] at htaken
    exact hsteady hready session htaken

/-! ### Without a socket -/

/-- Without a socket only the flag matters. -/
def Idles (timeout : Duration) (r : Runner κ) : Prop :=
  r.config.handshakeTimeout = timeout ∧ r.shutdown = false

/-- A new socket has the deadline of its handshake. -/
theorem ensures_drive : Ensures (Idles timeout) (drive now : RunAct κ Location)
    fun location r => Punctual timeout (some now) r location := by
  rintro r ⟨rfl, hrunning⟩
  refine ⟨rfl, ⟨hrunning, fun hready => (by cases hready), fun _ => ⟨now, rfl, rfl⟩⟩, ?_⟩
  rintro d hd
  exact armTimer_le hd

theorem ensures_stop : Ensures (fun r : Runner κ => r.config.handshakeTimeout = timeout) stop
    fun location r => Punctual timeout opened r location := by
  refine .bind (Q := fun _ r => r.config.handshakeTimeout = timeout) (.modify fun r hr => ?_)
    fun _ => .bind (Q := fun _ r => r.config.handshakeTimeout = timeout) (fun _ hr => hr)
    fun _ => .pure fun r hr => ⟨hr, trivial⟩
  split
  · exact hr
  · exact hr

theorem ensures_connecting : Ensures (Idles timeout) (connecting now : RunAct κ Location)
    fun location r => Punctual timeout opened r location :=
  fun _ hr => hr

theorem ensures_begin (draw : ℕ) : Ensures (Idles timeout) (begin now draw : RunAct κ Location)
    fun location r => Punctual timeout opened r location := by
  refine .bind (Q := fun _ => Idles timeout) (.get fun _ hr => hr) fun r₀ => ?_
  split
  · exact ensures_stop.weaken (fun _ hr => hr.1) fun _ _ hr => hr
  · refine .bind (Q := fun _ => Idles timeout) (.get fun _ hr => hr) fun r₁ => ?_
    refine .bind (Q := fun _ => Idles timeout) (.modify fun _ hr => hr) fun _ => ?_
    split
    · exact ensures_connecting
    · exact fun _ hr => hr

theorem ensures_idleCommand {wake : Instant} (command : Option (Command κ × Bool)) :
    Ensures (Idles timeout) (idleCommand wake command)
      fun location r => Punctual timeout opened r location := by
  match command with
  | some (command, dropped) =>
    refine .bind (Q := fun _ r => r.config.handshakeTimeout = timeout) (fun r hr => ?_)
      fun _ => ?_
    · obtain ⟨shutdown, heq⟩ := watch_handleCommand command dropped r
      exact (congrArg Watch.timeout heq).trans hr.1
    · refine .bind (Q := fun r₀ r => r₀ = r ∧ r.config.handshakeTimeout = timeout)
        (.get fun _ hr => ⟨rfl, hr⟩) fun r₀ => ?_
      split
      · exact ensures_stop.weaken (fun _ hr => hr.2) fun _ _ hr => hr
      · next hrunning =>
        rintro r ⟨rfl, hr⟩
        exact ⟨hr, Bool.eq_false_iff.mpr hrunning⟩
  | none =>
    exact .bind (Q := fun _ r => r.config.handshakeTimeout = timeout)
      (.modify fun _ hr => hr.1) fun _ => ensures_stop

theorem ensures_openFailed (reason : String) :
    Ensures (Idles timeout) (openFailed now reason : RunAct κ Location)
      fun location r => Punctual timeout opened r location :=
  fun _ hr => hr

theorem ensures_finish (fatal : Option Fatal) :
    Ensures (fun r : Runner κ => r.config.handshakeTimeout = timeout) (finish fatal)
      fun location r => Punctual timeout opened r location := by
  refine .bind (Q := fun _ r => r.config.handshakeTimeout = timeout) (fun _ hr => hr) fun _ => ?_
  cases fatal with
  | none =>
    exact .bind (Q := fun _ r => r.config.handshakeTimeout = timeout) (.modify fun _ hr => hr)
      fun _ => .bind (Q := fun _ r => r.config.handshakeTimeout = timeout) (fun _ hr => hr)
      fun _ => ensures_stop
  | some fatal =>
    exact .bind (Q := fun _ r => r.config.handshakeTimeout = timeout) (fun _ hr => hr)
      fun _ => .bind (Q := fun _ r => r.config.handshakeTimeout = timeout) (fun _ hr => hr)
      fun _ => ensures_stop

end Runner

/-! ### Runs -/

/-- When the last socket was opened, in a schedule. -/
def lastOpened (h : List (Instant × Input κ)) : Option Instant :=
  (h.filterMap fun x => match x.2 with
    | .opened => some x.1
    | _ => none).getLast?

theorem lastOpened_snoc {h : List (Instant × Input κ)} {now : Instant} {input : Input κ} :
    lastOpened (h ++ [(now, input)]) = match input with
      | .opened => some now
      | _ => lastOpened h := by
  rw [lastOpened, lastOpened, List.filterMap_append]
  cases input <;> simp

namespace World

/-- The runner, observed through its schedule. -/
def timed (w : World κ) (input : Input κ) : Option (World κ × List (Instant × Input κ)) :=
  (w.step input).map fun p => (p.1, [(w.clock, input)])

theorem timed_eq_some {w w' : World κ} {input : Input κ} {o : List (Instant × Input κ)} :
    w.timed input = some (w', o) ↔
      o = [(w.clock, input)] ∧ ∃ seen, w.step input = some (w', seen) := by
  rw [timed, Option.map_eq_some_iff]
  constructor
  · rintro ⟨⟨w₁, seen⟩, hstep, heq⟩
    cases heq
    exact ⟨rfl, seen, hstep⟩
  · rintro ⟨rfl, seen, hstep⟩
    exact ⟨_, hstep, rfl⟩

/-- A `connected` frame is taken in a session that is ready. -/
def reconnects (w : World κ) (input : Input κ) : Bool :=
  match w.taken input with
  | some (.frame (.text (some (.connected _)))) => decide (w.runner.session.phase = .ready)
  | _ => false

theorem reconnects_iff {w : World κ} {input : Input κ} : w.reconnects input = true ↔
    w.runner.session.phase = .ready ∧
      ∃ session, w.taken input = some (.frame (.text (some (.connected session)))) := by
  unfold reconnects
  split
  · next session htaken =>
    rw [decide_eq_true_eq, htaken]
    exact ⟨fun h => ⟨h, session, rfl⟩, fun h => h.1⟩
  · next hnot =>
    refine ⟨fun h => (by cases h), ?_⟩
    rintro ⟨-, session, htaken⟩
    exact absurd htaken (hnot session)

/-- No `connected` frame is taken in a session that is ready. -/
abbrev Steady (w : World κ) (input : Input κ) : Prop := w.reconnects input = false

/-- The runs of steady steps. -/
abbrev SteadyRun (config : Config) : List (Instant × Input κ) → World κ → Prop :=
  Run (restrict Steady timed) (init config)

variable {config : Config} {h : List (Instant × Input κ)} {w w' : World κ} {input : Input κ}
  {seen : List (Seen κ)}

theorem at_of_steadyRun (hrun : SteadyRun config h w) : w.runner.At w.location := by
  refine hrun.invariant (I := fun _ w => w.runner.At w.location) ⟨rfl, rfl⟩ ?_
  intro h w input w' o hw hs
  obtain ⟨-, seen, hstep⟩ := timed_eq_some.mp (restrict_eq_some.mp hs).2
  exact (step_at hw hstep).2

/-- **Every steady step keeps the runner punctual.** -/
theorem punctual_step (hat : w.runner.At w.location)
    (hw : w.runner.Punctual config.handshakeTimeout (lastOpened h) w.location)
    (hsteady : w.Steady input) (hstep : w.step input = some (w', seen)) :
    w'.runner.Punctual config.handshakeTimeout (lastOpened (h ++ [(w.clock, input)]))
      w'.location := by
  rw [lastOpened_snoc]
  -- Time passes, or the runner computes.
  rcases step_cases hstep with ⟨elapsed, rfl, rfl, -⟩ | ⟨x, hx, he⟩
  · exact hw
  · obtain ⟨rfl, -⟩ := Prod.mk.inj he
    cases hx with
    | begin draw hl =>
      rw [hl] at hw
      exact Runner.ensures_begin draw _ hw
    | elapsed hl =>
      rw [hl] at hw
      exact Runner.ensures_connecting _ hw
    | command command hl =>
      rw [hl] at hw
      exact Runner.ensures_idleCommand command _ hw
    | opened hl =>
      rw [hl] at hw
      exact Runner.ensures_drive _ hw
    | openFailed reason hoffer hl =>
      rw [hl] at hw
      exact Runner.ensures_openFailed reason _ hw
    | sink reply hl =>
      rw [hl] at hw hat
      exact Runner.ensures_write reply _ ⟨hat.1, hw⟩
    | flush reply hl =>
      rw [hl] at hw hat
      exact Runner.ensures_flush reply _ ⟨hat.1, hw⟩
    | poll read command timer hl =>
      rw [hl] at hw hat
      -- The step is no repeated `connected`, which is all that could take the deadline away.
      refine Runner.punctual_sources ⟨hat.1, hw⟩ fun hready session htaken => ?_
      have hnot := (@reconnects_iff κ w (.poll read command timer)).mpr ⟨hready, session, htaken⟩
      rw [hsteady] at hnot
      cases hnot
    | closed hl =>
      rw [hl] at hw
      exact Runner.ensures_finish _ _ hw.1

theorem punctual_of_steadyRun (hrun : SteadyRun config h w) :
    w.runner.Punctual config.handshakeTimeout (lastOpened h) w.location := by
  refine hrun.invariant_of (J := fun _ w => w.runner.At w.location)
    (I := fun h w => w.runner.Punctual config.handshakeTimeout (lastOpened h) w.location)
    at_of_steadyRun ⟨rfl, rfl⟩ ?_
  intro h w input w' o hat hw hs
  obtain ⟨hsteady, htimed⟩ := restrict_eq_some.mp hs
  obtain ⟨rfl, seen, hstep⟩ := timed_eq_some.mp htimed
  exact punctual_step hat hw hsteady hstep

end World

/-- An unfinished handshake is under the deadline of its socket: the timer is armed no later,
and from then on the runner reconnects as soon as it finds neither a frame nor a command. -/
def HandshakeBounded (config : Config) (h : List (Instant × Input κ)) (w : World κ) : Prop :=
  w.location.Connected →
    w.runner.session.phase = .handshaking ∨ w.runner.session.phase = .authenticating →
      ∃ opened, lastOpened h = some opened ∧
        w.runner.handshakeDeadline = some (opened + config.handshakeTimeout) ∧
        w.runner.timer ≤ opened + config.handshakeTimeout ∧
        (w.location = .sources → opened + config.handshakeTimeout ≤ w.clock →
          ∃ w' o, w.step (.poll none none true) = some (w', o) ∧ w'.location = .top)

/-- A punctual runner supervises its handshake. -/
theorem World.handshakeBounded {config : Config} {h : List (Instant × Input κ)} {w : World κ}
    (hat : w.runner.At w.location)
    (hw : w.runner.Punctual config.handshakeTimeout (lastOpened h) w.location) :
    HandshakeBounded config h w := by
  intro hopen hphase
  obtain ⟨htimeout, hpunctual⟩ : w.runner.config.handshakeTimeout = config.handshakeTimeout ∧
      (w.runner.watch.InTime (lastOpened h) ∧
        ∀ d, w.runner.handshakeDeadline = some d → w.runner.timer ≤ d) := by
    refine ⟨hw.1, ?_⟩
    -- With a socket open the runner writes, flushes or polls.
    cases hl : w.location <;> rw [hl] at hw hopen
    all_goals first | exact hw.2 | cases hopen
  obtain ⟨t, hopened, hdeadline⟩ := hpunctual.1.bounded hphase
  have hd : w.runner.handshakeDeadline = some (t + config.handshakeTimeout) :=
    htimeout ▸ hdeadline
  have htimer := hpunctual.2 _ hd
  refine ⟨t, hopened, hd, htimer, fun hl hdue => ?_⟩
  -- A poll that finds nothing else takes the deadline.
  have htaken : w.runner.taken none none true = some (.deadline : Step κ) := by
    simp [Runner.taken]
  have hnot : w.runner.session.phase ≠ .ready := by
    intro hready
    rw [hready] at hphase
    rcases hphase with hphase | hphase
    · cases hphase
    · cases hphase
  rw [hl] at hat
  have htop := Runner.afterStep_due w.clock (r := { w.runner with turn := !w.runner.turn })
    hnot hd hdue hat.2 hpunctual.1.running
  -- That poll is a step, and it leads back to the head of the loop.
  refine ⟨(w.advance (Runner.sources w.clock none none true)).1,
    (w.advance (Runner.sources w.clock none none true)).2, ?_, ?_⟩
  · simp only [World.step, hl]
    rw [if_pos fun _ => htimer.trans hdue]
  · show (Runner.sources w.clock none none true w.runner).1 = .top
    rw [Runner.sources_eq, htaken]
    exact htop

/-- A handshake without a deadline. -/
theorem unbounded {config : Config} {h : List (Instant × Input κ)} {w : World κ}
    (hopen : w.location.Connected) (hphase : w.runner.session.phase = .authenticating)
    (hnone : w.runner.handshakeDeadline = none) : ¬ HandshakeBounded config h w := by
  intro hbounded
  obtain ⟨t, -, hsome, -⟩ := hbounded hopen (.inr hphase)
  rw [hnone] at hsome
  cases hsome

/-- After a repeated `connected` frame the handshake has no deadline. -/
theorem World.not_handshakeBounded {config : Config} {h h' : List (Instant × Input κ)}
    {w w' : World κ} {input : Input κ} {seen : List (Seen κ)} (hrun : SteadyRun config h w)
    (hstep : w.step input = some (w', seen)) (hagain : w.reconnects input = true) :
    ¬ HandshakeBounded config h' w' := by
  obtain ⟨hready, session, htaken⟩ := reconnects_iff.mp hagain
  obtain ⟨-, hrunner, hlocation⟩ := step_of_taken hstep htaken
  have hat := at_of_steadyRun hrun
  have hw := punctual_of_steadyRun hrun
  -- A frame is taken only by a poll.
  have hsources : w.location = .sources := by
    cases input with
    | poll read command timer =>
      simp only [World.step] at hstep
      split at hstep
      · assumption
      · cases hstep
    | _ => cases htaken
  rw [hsources] at hat hw
  obtain ⟨-, htime, -⟩ := hw
  set r := { w.runner with turn := !w.runner.turn } with hr
  have hwatch : ((Runner.take w.clock (.frame (.text (some (.connected session))))).state r).watch =
      { w.runner.watch with phase := .authenticating } := by
    have hsteps := Runner.take_watch w.clock
      (.frame (.text (some (.connected session)))) r
    generalize ((Runner.take w.clock (.frame (.text (some (.connected session))))).state r).watch =
      w₁ at hsteps
    -- The repeated `connected` leads back to the handshake,
    cases hsteps with
    | heard hears =>
      cases hears with
      | connected => rfl
      | ready _ hne => exact absurd rfl (hne session)
      | failed _ _ hne => exact absurd rfl (hne session)
      | other _ hne => exact absurd rfl (hne session)
    | other _ hne => exact absurd rfl (hne _)
  obtain ⟨hwriting, hstate⟩ := Runner.afterStep_goes w.clock
    (.frame (.text (some (.connected session)))) (r := r) rfl
    ((congrArg Watch.fatal hwatch).trans hat.2)
    ((congrArg Watch.shutdown hwatch).trans htime.running)
  -- but the deadline of the first one is gone by then.
  have hphase : w'.runner.session.phase = .authenticating := by
    rw [hrunner, hstate]
    exact congrArg Watch.phase hwatch
  have hnone : w'.runner.handshakeDeadline = none := by
    rw [hrunner, hstate]
    exact (congrArg Watch.deadline hwatch).trans (htime.ready hready)
  exact unbounded (by rw [hlocation, hwriting]; trivial) hphase hnone

/-- **In a run of steady steps an unfinished handshake is under a deadline**, and any other step
leaves one without. -/
theorem handshake_bounded_of_steady (config : Config) :
    (∀ (h : List (Instant × Input κ)) (w : World κ), World.SteadyRun config h w →
      HandshakeBounded config h w) ∧
    (∀ (h : List (Instant × Input κ)) (w w' : World κ) (input : Input κ) (seen : List (Seen κ)),
      World.SteadyRun config h w → w.step input = some (w', seen) → ¬ w.Steady input →
        ¬ HandshakeBounded config (h ++ [(w.clock, input)]) w') := by
  refine ⟨fun h w hrun => ?_, fun h w w' input seen hrun hstep hnot => ?_⟩
  · exact World.handshakeBounded (World.at_of_steadyRun hrun) (World.punctual_of_steadyRun hrun)
  · exact World.not_handshakeBounded hrun hstep (Bool.of_not_eq_false hnot)

/-- The server sends `connected` again, when the session is ready. -/
def connectTwice : List (Input ℕ) :=
  becomeReady ++ [.sink .pending, .flush none,
    .poll (some (.frame (.text (some (.connected "again"))))) none false]

theorem connectTwice_enabled :
    (execute World.timed (World.init demoConfig) connectTwice).isSome := by
  decide +kernel

/-- Where that leads. -/
def connectedTwice : World ℕ :=
  ((execute World.timed (World.init demoConfig) connectTwice).get connectTwice_enabled).1

/-- The session is authenticated again, without a deadline. -/
theorem connectedTwice_spec : connectedTwice.location.Connected ∧
    connectedTwice.runner.session.phase = .authenticating ∧
      connectedTwice.runner.handshakeDeadline = none := by
  decide +kernel

/-- A run reaches it. -/
theorem exists_connectedTwice : ∃ (h : List (Instant × Input ℕ)) (w : World ℕ),
    Run World.timed (World.init demoConfig) h w ∧ w.location.Connected ∧
      w.runner.session.phase = .authenticating ∧ w.runner.handshakeDeadline = none :=
  ⟨_, connectedTwice, run_execute connectTwice connectTwice_enabled, connectedTwice_spec⟩

/-- A server that stops answering after a second `connected` frame is waited for without a
deadline. -/
theorem not_handshake_bounded : ¬ ∀ (config : Config) (h : List (Instant × Input ℕ))
    (w : World ℕ), Run World.timed (World.init config) h w → HandshakeBounded config h w := by
  intro hall
  obtain ⟨h, w, hrun, hopen, hphase, hnone⟩ := exists_connectedTwice
  exact unbounded hopen hphase hnone (hall demoConfig h w hrun)

end RocketSocket
