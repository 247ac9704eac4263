import RocketSocket.Realtime.Timing
import RocketSocket.Realtime.Wire

/-!
# The runner

The task that owns the socket: `Runner` in `connection.rs`.  The places where it awaits
are locations, and everything it does between two of them is one step: one reply of the
sink, one round over the sources, one command.  What the environment answers is the
input of the step, so a run may answer anything at any time.

Left out: the socket itself, the oneshot `login_reply` (it keeps a log line quiet), and
the texts that are only logged.

## Main definitions

* `Config`, `Credential`, `ConnectionState` — as in the source.
* `Runner` — the state of the task, and its functions.
* `Location`, `Input`, `World`, `World.step` — the task and its environment.
* `Runner.At` — what holds of the runner where it awaits.

## Main results

* `World.step_cases` — what a step can do.
* `World.step_at` — **every step of the runner is a chain of turns**, and leads from
  location to location.
* `World.turn_invariant`, `World.wire_invariant` — the induction rules for the runner.
-/

namespace RocketSocket

open Machine

variable {κ : Type}

/-! ### Configuration -/

/-- How to authenticate the session. -/
inductive Credential where
  | resume (token : String)
  | password (user password : String)

/-- The `params` array for the `login` method. -/
def Credential.params : Credential → List Value
  | .resume token => [.object [("resume", .string token)]]
  | .password name secret =>
    [.object [("password", .string secret), ("user", .object [("username", .string name)])]]

/-- Everything the runner needs to keep a connection alive.  The endpoint is left out:
only the code that opens the socket reads it. -/
structure Config where
  credential : Credential
  connectTimeout : Duration := .ofSecs 15
  handshakeTimeout : Duration := .ofSecs 20
  pingAfter : Duration := LivenessPolicy.defaultPingAfter
  deadAfter : Duration := LivenessPolicy.defaultDeadAfter
  commandCapacity : ℕ := 64
  outboxCapacity : ℕ := 256
  eventCapacity : ℕ := 1024
  backoffBase : Duration := Backoff.defaultBase
  backoffCap : Duration := Backoff.defaultCap
  stableAfter : Duration := .ofSecs 30
  /-- `spawn` panics otherwise. -/
  leavesTime : pingAfter < deadAfter := by decide

/-- Where the connection is, for observers. -/
inductive ConnectionState where
  | disconnected
  | connecting
  | handshaking
  | authenticating
  | ready
  | closed
  | fatal
  deriving DecidableEq, Repr

/-- The state that shows a phase. -/
def Phase.state : Phase → ConnectionState
  | .disconnected => .disconnected
  | .handshaking => .handshaking
  | .authenticating => .authenticating
  | .ready => .ready
  | .fatallyClosed => .fatal

/-! ### The state of the task -/

/-- The runner.  The flag `turn` alternates between reading first and commands first. -/
structure Runner (κ : Type) extends Wire κ where
  config : Config
  liveness : LivenessPolicy
  backoff : Backoff
  state : ConnectionState
  /-- When the current session reached `Ready`. -/
  readyAt : Option Instant
  needsFlush : Bool
  timer : Instant
  handshakeDeadline : Option Instant
  fatal : Option Fatal
  shutdown : Bool
  turn : Bool

/-- A websocket frame, as far as it is looked at: a text is what it decodes to. -/
inductive Frame where
  | text (message : Option ServerMessage)
  | close (frame : Option (ℕ × String))
  | binary
  | control

/-- One turn of the socket loop.  `dropped` says that the caller of a command is gone. -/
inductive Step (κ : Type) where
  | frame (frame : Frame)
  | eof
  | failed (error : String)
  | command (command : Command κ) (dropped : Bool)
  | handlesDropped
  | deadline

/-- Why the socket loop returned. -/
inductive Outcome where
  | closed (reason : String)
  | shutdown
  | fatal (fatal : Fatal)

/-- Where the task awaits. -/
inductive Location where
  /-- At the head of the loop of `run`. -/
  | top
  /-- In `idle`. -/
  | idle (wake : Instant)
  /-- In `open`. -/
  | opening (deadline : Instant)
  /-- In the write loop of `poll_step`. -/
  | writing
  /-- Before the flush. -/
  | flushing
  /-- Before the sources are polled. -/
  | sources
  /-- In `close_politely`, to shut down or because of a fatal failure. -/
  | closing (fatal : Option Fatal)
  /-- After `run`. -/
  | stopped

/-- A computation of the runner. -/
abbrev RunAct (κ α : Type) := Act (Runner κ) (Seen κ) α

namespace Runner

/-- The runner `spawn` starts. -/
def new (config : Config) (now : Instant) : Runner κ where
  toWire := .init
  config := { config with outboxCapacity := max config.outboxCapacity 1 }
  liveness := .withThresholds config.pingAfter config.deadAfter now config.leavesTime
  backoff := .withLimits config.backoffBase config.backoffCap
  state := .disconnected
  readyAt := none
  needsFlush := false
  timer := now
  handshakeDeadline := none
  fatal := none
  shutdown := false
  turn := false

/-- A computation on the wire side. -/
def wire {α : Type} (x : Act (Wire κ) (Seen κ) α) : RunAct κ α :=
  x.zoom Runner.toWire fun w r => { r with toWire := w }

/-- Publishes the state. -/
def setState (state : ConnectionState) : RunAct κ Unit := .modify fun r => { r with state }

/-- Publishes the state that goes with the phase of the session. -/
def syncState : RunAct κ Unit := .modify fun r => { r with state := r.session.phase.state }

/-- Sends an event to the consumers. -/
def emit (event : Event) : RunAct κ Unit := wire (Wire.say (.emitted event))

/-- Ends the current connection: drops unwritten frames and settles every waiter. -/
def settle (why : Ending) : RunAct κ Unit := do
  wire (Wire.settle why)
  Act.modify fun r => { r with needsFlush := false, handshakeDeadline := none }

/-- The connection is gone: everyone is told, and the backoff starts over if it had been stable. -/
def disconnected (now : Instant) (reason : String) : RunAct κ Unit := do
  Act.modify fun r => { r with
    backoff := match r.readyAt with
      | some readyAt => if r.config.stableAfter ≤ now - readyAt then r.backoff.reset else r.backoff
      | none => r.backoff
    readyAt := none }
  Act.modify fun r => { r with session := r.session.disconnected }
  settle .lost
  setState .disconnected
  emit (.disconnected reason)

/-- Does what the session asks for. -/
def apply (now : Instant) : Action → RunAct κ Unit
  | .send frame => wire (Wire.pushPriority frame none)
  | .login => do wire (Wire.login (← Act.get).config.credential.params)
  | .resubscribe => do
    let epoch := ((← Act.get).table .methods).epoch
    -- The backoff is deliberately not cleared here: see `disconnected`.
    Act.modify fun r => { r with handshakeDeadline := none, readyAt := some now }
    syncState
    emit (.ready epoch)
    emit (.resubscribe epoch)
  | .fatal fatal => .modify fun r => { r with fatal := some fatal }
  | .protocolViolation _ => pure ()

/-- The event a frame is passed on as, if the runner does not consume it. -/
def eventOf (message : ServerMessage) : Option Event :=
  match message with
  | .connected session => some (.connected session)
  | .added .. | .changed .. | .removed .. | .addedBefore .. | .movedBefore .. | .error .. =>
    some (.frame message)
  | _ => none

/-- A decoded frame: the session first, then the waiters, then the consumers. -/
def onText (now : Instant) (message : ServerMessage) : RunAct κ Unit := do
  let actions ← wire (Wire.hear message)
  actions.forM (apply now)
  wire (Wire.correlate message)
  match eventOf message with
  | some event => emit event
  | none => pure ()

/-- A frame of any kind is a sign of life; `some` if it ends the connection. -/
def onFrame (now : Instant) (frame : Frame) : RunAct κ (Option Outcome) := do
  Act.modify fun r => { r with liveness := r.liveness.sawTraffic now }
  match frame with
  | .text (some message) => do
    onText now message
    return none
  -- Undecodable: logged and dropped.
  | .text none => return none
  | .close none => return some (.closed "the server sent a close frame")
  | .close (some (code, reason)) =>
    return some (.closed ("the server closed with " ++ toString code ++ ": " ++ reason))
  | .binary => return none
  | .control => return none

/-- A command of a handle; `dropped` if its caller has gone. -/
def handleCommand (command : Command κ) (dropped : Bool) : RunAct κ Unit := do
  wire (Wire.handleCommand command dropped)
  match command with
  | .shutdown => Act.modify fun r => { r with shutdown := true }
  | _ => pure ()

/-- The timer has fired: the handshake is overdue, or the liveness policy is asked. -/
def onDeadline (now : Instant) : RunAct κ (Option Outcome) := do
  Act.modify fun r => { r with
    handshakeDeadline := if r.session.phase = .ready then none else r.handshakeDeadline }
  let r ← Act.get
  if r.handshakeDeadline.any (· ≤ now) then
    return some (.closed ("the handshake did not complete within " ++
      Duration.debug r.config.handshakeTimeout))
  let (liveness, verdict) := r.liveness.poll now
  Act.modify fun r => { r with liveness }
  match verdict with
  | .healthy => return none
  | .sendPing => do
    wire (Wire.pushPriority (.ping none) none)
    return none
  | .dead =>
    return some (.closed ("no traffic for " ++ Duration.debug r.config.deadAfter ++
      "; assuming the connection is dead"))

/-- Arms the timer for the next deadline, in exact arithmetic. -/
def armTimer (now : Instant) : RunAct κ Unit := .modify fun r =>
  let liveness := r.liveness.dueAt now
  { r with timer := match r.handshakeDeadline with
    | some handshake => min liveness handshake
    | none => liveness }

/-- Arms the timer on a platform with this latest instant; `none` if it panics. -/
def armTimerWithin (latest now : Instant) (r : Runner κ) : Option (Runner κ) :=
  (r.liveness.nextDeadline latest now).map fun liveness =>
    { r with timer := match r.handshakeDeadline with
      | some handshake => min liveness handshake
      | none => liveness }

/-- Where arming the timer does not panic, the exact arithmetic is the platform's. -/
theorem armTimerWithin_eq_some {latest now : Instant} {r r' : Runner κ} :
    armTimerWithin latest now r = some r' ↔
      r.liveness.dueAt now ≤ latest ∧ r' = (armTimer now).state r := by
  simp only [armTimerWithin, Option.map_eq_some_iff, LivenessPolicy.nextDeadline_eq_some]
  constructor
  · rintro ⟨d, ⟨hle, rfl⟩, rfl⟩
    exact ⟨hle, rfl⟩
  · rintro ⟨hle, rfl⟩
    exact ⟨_, ⟨hle, rfl⟩, rfl⟩

/-! ### From one await to the next -/

/-- After the loop of `run`. -/
def stop : RunAct κ Location := do
  Act.modify fun r =>
    if r.state ≠ .fatal ∧ r.state ≠ .closed then { r with state := .closed } else r
  settle .stopping
  return .stopped

/-- The second half of the loop of `run`, up to `open`. -/
def connecting (now : Instant) : RunAct κ Location := do
  setState .connecting
  emit (.connecting ((← Act.get).backoff.attempt - 1))
  return .opening (now + (← Act.get).config.connectTimeout)

/-- The head of the loop of `run`. -/
def begin (now : Instant) (draw : ℕ) : RunAct κ Location := do
  if (← Act.get).shutdown then stop
  else
    let (backoff, delay) := (← Act.get).backoff.nextDelay draw
    Act.modify fun r => { r with backoff }
    if delay = 0 then connecting now
    else
      setState .disconnected
      return .idle (now + delay)

/-- A command received, or the last handle dropped, in `idle`. -/
def idleCommand (wake : Instant) (command : Option (Command κ × Bool)) :
    RunAct κ Location := do
  match command with
  | some (command, dropped) =>
    handleCommand command dropped
    if (← Act.get).shutdown then stop else return .idle wake
  | none =>
    Act.modify fun r => { r with shutdown := true }
    stop

/-- `open` failed. -/
def openFailed (now : Instant) (reason : String) : RunAct κ Location := do
  disconnected now reason
  return .top

/-- `open` returned a socket: `drive`, up to its loop. -/
def drive (now : Instant) : RunAct κ Location := do
  wire (Wire.say .opened)
  Act.modify fun r => { r with
    liveness := .withThresholds r.config.pingAfter r.config.deadAfter now r.config.leavesTime
    handshakeDeadline := some (now + r.config.handshakeTimeout) }
  let action ← wire Wire.connect
  apply now action
  syncState
  armTimer now
  return .writing

/-- What one step of the socket loop does. -/
def take (now : Instant) : Step κ → RunAct κ (Option Outcome)
  | .frame received => onFrame now received
  | .eof => return some (.closed "the server closed the socket")
  | .failed error => return some (.closed ("socket error: " ++ error))
  | .command command dropped => do
    handleCommand command dropped
    return none
  | .handlesDropped => return some .shutdown
  | .deadline => onDeadline now

/-- The body of the loop of `drive`, and what `run` does when it returns. -/
def afterStep (now : Instant) (step : Step κ) : RunAct κ Location := do
  let outcome ← take now step
  syncState
  let r ← Act.get
  match r.fatal with
  | some fatal => do
    Act.modify fun r => { r with fatal := none }
    return .closing (some fatal)
  | none =>
    if r.shutdown then return .closing none
    else match outcome with
      | some (.closed reason) => do
        disconnected now reason
        return .top
      | some .shutdown => return .closing none
      | some (.fatal fatal) => return .closing (some fatal)
      | none => do
        armTimer now
        return .writing

/-- What the sink answers: `poll_ready` is pending, fails, or is ready, and then
`start_send` fails or accepts the frame. -/
inductive SinkReply where
  | pending
  | failed (error : String)
  | ready (sent : Except String Unit)

/-- One turn of the write loop of `poll_step`. -/
def write (now : Instant) (reply : SinkReply) : RunAct κ Location := do
  let r ← Act.get
  let applicationPending := decide (r.session.phase = .ready) && !r.app.isEmpty
  if r.priority.isEmpty && !applicationPending then return .flushing
  else match reply with
    | .pending => return .flushing
    | .failed error => afterStep now (.failed error)
    | .ready (.error error) =>
      wire (Wire.hand false)
      afterStep now (.failed error)
    | .ready (.ok ()) =>
      wire (Wire.hand true)
      Act.modify fun r => { r with needsFlush := true }
      return .writing

/-- What `poll_flush` answers; `none` is pending. -/
abbrev FlushReply := Option (Except String Unit)

/-- The flush of `poll_step`. -/
def flush (now : Instant) (reply : FlushReply) : RunAct κ Location := do
  if (← Act.get).needsFlush then
    match reply with
    | some (.ok ()) =>
      Act.modify fun r => { r with needsFlush := false }
      wire (Act.modify Wire.flushed)
      return .sources
    | some (.error error) => afterStep now (.failed error)
    | none => return .sources
  else return .sources

/-- What polling the socket for a frame answers; `none` is pending. -/
inductive ReadReply where
  | frame (frame : Frame)
  | eof
  | failed (error : String)

/-- The step a frame read is. -/
def ReadReply.step : ReadReply → Step κ
  | .frame received => .frame received
  | .eof => .eof
  | .failed error => .failed error

/-- The step a command received is; `none` when every handle is dropped. -/
def commandStep : Option (Command κ × Bool) → Step κ
  | some (command, dropped) => .command command dropped
  | none => .handlesDropped

/-- Reads and commands, alternating, and the timer last. -/
def sources (now : Instant) (read : Option ReadReply)
    (command : Option (Option (Command κ × Bool))) (timer : Bool) : RunAct κ Location := do
  let r ← Act.get
  let acceptCommands := decide (r.app.length < r.config.outboxCapacity)
  Act.modify fun r => { r with turn := !r.turn }
  let read := read.map ReadReply.step
  let command := if acceptCommands then command.map commandStep else none
  let step := if !r.turn then read.or command else command.or read
  match step.or (if timer then some .deadline else none) with
  | some step => afterStep now step
  | none => return .writing

/-- `close_politely` is over. -/
def finish (fatal : Option Fatal) : RunAct κ Location := do
  settle .stopping
  match fatal with
  | none =>
    Act.modify fun r => { r with session := r.session.disconnected }
    setState .closed
  | some fatal =>
    setState .fatal
    emit (.fatal fatal)
  stop

end Runner

/-! ### The runner in its environment -/

/-- What the environment does. -/
inductive Input (κ : Type) where
  /-- Time passes. -/
  | tick (elapsed : Duration)
  /-- The runner goes on; the generator draws a number. -/
  | begin (draw : ℕ)
  /-- The delay of `idle` is over. -/
  | elapsed
  /-- A command, or the last handle dropped, in `idle`. -/
  | command (command : Option (Command κ × Bool))
  | opened
  | openFailed (error : String)
  | openTimedOut
  | sink (reply : Runner.SinkReply)
  | flush (reply : Runner.FlushReply)
  | poll (read : Option Runner.ReadReply) (command : Option (Option (Command κ × Bool)))
    (timer : Bool)
  | closed

/-- The command a step offers to the runner, and whether its caller is gone. -/
def Input.offer : Input κ → Option (Command κ × Bool)
  | .command offered => offered
  | .poll _ (some offered) _ => offered
  | _ => none

/-- The runner, where it awaits, and the time. -/
structure World (κ : Type) where
  runner : Runner κ
  location : Location
  clock : Instant

namespace World

/-- The runner just spawned. -/
def init (config : Config) : World κ := ⟨.new config 0, .top, 0⟩

/-- Run the task to its next await. -/
def advance (w : World κ) (x : RunAct κ Location) : World κ × List (Seen κ) :=
  let (location, runner, o) := x w.runner
  (⟨runner, location, w.clock⟩, o)

/-- One step.  Timers do not fire early, and `idle` takes commands only while the
application lane has room. -/
def step (w : World κ) : Input κ → Option (World κ × List (Seen κ))
  | .tick elapsed => some ({ w with clock := w.clock + elapsed }, [])
  | .begin draw => match w.location with
    | .top => some (w.advance (Runner.begin w.clock draw))
    | _ => none
  | .elapsed => match w.location with
    | .idle wake => if wake ≤ w.clock then some (w.advance (Runner.connecting w.clock)) else none
    | _ => none
  | .command command => match w.location with
    | .idle wake =>
      if w.runner.app.length < w.runner.config.outboxCapacity then
        some (w.advance (Runner.idleCommand wake command))
      else none
    | _ => none
  | .opened => match w.location with
    | .opening _ => some (w.advance (Runner.drive w.clock))
    | _ => none
  | .openFailed error => match w.location with
    | .opening _ =>
      some (w.advance (Runner.openFailed w.clock ("websocket handshake failed: " ++ error)))
    | _ => none
  | .openTimedOut => match w.location with
    | .opening deadline =>
      if deadline ≤ w.clock then
        some (w.advance (Runner.openFailed w.clock "websocket handshake timed out"))
      else none
    | _ => none
  | .sink reply => match w.location with
    | .writing => some (w.advance (Runner.write w.clock reply))
    | _ => none
  | .flush reply => match w.location with
    | .flushing => some (w.advance (Runner.flush w.clock reply))
    | _ => none
  | .poll read command timer => match w.location with
    | .sources =>
      if timer = true → w.runner.timer ≤ w.clock then
        some (w.advance (Runner.sources w.clock read command timer))
      else none
    | _ => none
  | .closed => match w.location with
    | .closing fatal => some (w.advance (Runner.finish fatal))
    | _ => none

end World

/-! ### Every step is a chain of turns -/

namespace Runner

/-- What holds of the session and of the fatal failure, if any. -/
def Sits (p : Session → Option Fatal → Prop) (r : Runner κ) : Prop := p r.session r.fatal

/-- No socket is open. -/
def Down (s : Session) (fatal : Option Fatal) : Prop := s.phase = .disconnected ∧ fatal = none

/-- A socket is open. -/
def Driving (s : Session) (fatal : Option Fatal) : Prop := s.Live ∧ fatal = none

/-- A frame was handled: the socket goes on, or the failure is recorded. -/
def Handled (s : Session) (fatal : Option Fatal) : Prop :=
  Driving s fatal ∨ s.phase = .fatallyClosed ∧ fatal.isSome

/-- What holds of the runner where it awaits. -/
def At (r : Runner κ) : Location → Prop
  | .top | .idle _ | .opening _ => r.Sits Down
  | .writing | .flushing | .sources => r.Sits Driving
  | .closing none => True
  | .closing (some _) => r.session.phase = .fatallyClosed
  | .stopped => ¬ r.session.Live

variable {α : Type} {p q : Session → Option Fatal → Prop} {now : Instant}
  {cause : Cause}

/-- Started where `P` holds, `x` is a chain of what the runner does while it handles a
frame, or between frames, and ends where `Q` holds. -/
abbrev Does (cause : Cause) (P : Runner κ → Prop) (x : RunAct κ α)
    (Q : α → Runner κ → Prop) : Prop :=
  Performs Runner.toWire (Wire.During cause) P x Q

/-- A computation on the wire side does what it does there. -/
theorem does_wire {x : Act (Wire κ) (Seen κ) α} {P : Runner κ → Prop}
    {Q : α → Runner κ → Prop}
    (hx : ∀ r, P r → Chain (Wire.During cause) r.toWire (x.obs r.toWire) (x.state r.toWire) ∧
      Q (x.value r.toWire) { r with toWire := x.state r.toWire }) : Does cause P (wire x) Q := hx

/-- One wire step that leaves the session alone. -/
theorem does_wire_step {x : Act (Wire κ) (Seen κ) α}
    (hx : ∀ r : Runner κ, p r.session r.fatal →
      Wire.Step cause r.toWire (x.obs r.toWire) (x.state r.toWire))
    (hs : ∀ w, (x.state w).session = w.session) : Does cause (Sits p) (wire x) fun _ => Sits p := by
  refine does_wire fun r hr => ⟨.single (hx r hr).during, ?_⟩
  simpa only [Sits, hs] using hr

/-- A change outside the wire side and of no fatal failure. -/
theorem does_modify {g : Runner κ → Runner κ} (hw : ∀ r, (g r).toWire = r.toWire)
    (hf : ∀ r, (g r).fatal = r.fatal) :
    Does cause (Sits p) (Act.modify g : RunAct κ Unit) fun _ => Sits p := by
  refine .modify hw fun r hr => ?_
  simpa only [Sits, hw, hf] using hr

theorem does_get : Does cause (Sits p) (Act.get : RunAct κ (Runner κ)) fun _ => Sits p :=
  .get fun _ hr => hr

theorem does_pure {a : α} : Does cause (Sits p) (pure a : RunAct κ α) fun _ => Sits p :=
  .pure fun _ hr => hr

theorem does_setState (state : ConnectionState) :
    Does cause (Sits p) (setState state : RunAct κ Unit) fun _ => Sits p :=
  does_modify (fun _ => rfl) (fun _ => rfl)

theorem does_syncState : Does cause (Sits p) (syncState : RunAct κ Unit) fun _ => Sits p :=
  does_modify (fun _ => rfl) (fun _ => rfl)

theorem does_armTimer : Does cause (Sits p) (armTimer now : RunAct κ Unit) fun _ => Sits p :=
  does_modify (fun _ => rfl) (fun _ => rfl)

theorem does_emit {event : Event} (hevent : ∀ epoch, event ≠ .ready epoch) :
    Does cause (Sits p) (emit event : RunAct κ Unit) fun _ => Sits p :=
  does_wire_step (fun _ _ => .emitted event hevent) (fun _ => rfl)

theorem does_push {frame : ClientMessage} (hp : ∀ s f, p s f → s.Live)
    (hframe : ∀ id method params, frame ≠ .method id method params) :
    Does cause (Sits p) (wire (Wire.pushPriority frame none) : RunAct κ Unit) fun _ => Sits p :=
  does_wire_step (fun _ hr => .push frame (hp _ _ hr) hframe) (fun _ => rfl)

theorem does_handleCommand (command : Command κ) (dropped : Bool) :
    Does .between (Sits p) (handleCommand command dropped) fun _ => Sits p := by
  refine .bind (does_wire_step (fun r _ => .take command dropped) fun w => ?_)
    fun _ => ?_
  · cases command <;> cases dropped <;> rfl
  · cases command with
    | shutdown => exact does_modify (fun _ => rfl) (fun _ => rfl)
    | _ => exact does_pure

/-- Settling ends the generation; it is taken together with a change of the session
before it. -/
theorem settle_chain (r : Runner κ) (why : Ending) {session : Session}
    (hs : ¬ session.Live) : Chain Wire.Turn r.toWire ((settle why).obs { r with session })
      ((settle why).state { r with session }).toWire := by
  show Chain Wire.Turn r.toWire (Wire.settleObs why r.toWire ++ []) _
  rw [List.append_nil]
  exact .single (.step (.settle why session hs))

theorem does_settle {why : Ending} (hp : ∀ s f, p s f → ¬ s.Live) :
    Does .between (Sits p) (settle why : RunAct κ Unit) fun _ => Sits p :=
  fun r hr => ⟨settle_chain r why (hp _ _ hr), hr⟩

theorem does_disconnected {reason : String} :
    Does .between (Sits fun s f => s.phase ≠ .fatallyClosed ∧ f = none)
      (disconnected now reason : RunAct κ Unit) fun _ => Sits Down := by
  refine .bind (does_modify (fun _ => rfl) (fun _ => rfl)) fun _ => ?_
  refine .modify_bind fun r hr => ?_
  have hdown : Down r.session.disconnected r.fatal := by
    rcases r.session.phase_disconnected with h | ⟨-, h⟩
    · exact ⟨h, hr.2⟩
    · exact absurd h hr.1
  have hsettle := settle_chain r .lost r.session.not_live_disconnected
  have hrest : Does .between (Sits Down) (do
      setState .disconnected
      emit (.disconnected reason) : RunAct κ Unit) fun _ => Sits Down :=
    .bind (does_setState _) fun _ => does_emit (by simp)
  have hend := hrest ((settle .lost).state { r with session := r.session.disconnected }) hdown
  exact ⟨hsettle.append hend.1, hend.2⟩

/-! ### Handling a frame -/

theorem does_login {message : ServerMessage} : Does (.handling message)
    (Sits fun s f => s.phase = .authenticating ∧ f = none)
    (apply now .login : RunAct κ Unit) fun _ => Sits Driving := by
  refine .bind does_get fun r₀ => does_wire fun r hr => ?_
  refine ⟨.single (.login _ hr.1), ?_, hr.2⟩
  show r.session.phase ≠ _ ∧ r.session.phase ≠ _
  simp [hr.1]

theorem does_resubscribe :
    Does cause (Sits Driving) (apply now .resubscribe : RunAct κ Unit) fun _ => Sits Driving :=
  .bind does_get fun _ => .bind (does_modify (fun _ => rfl) (fun _ => rfl)) fun _ =>
    .bind does_syncState fun _ => fun _ hr => ⟨.single (Wire.Step.ready _).during, hr⟩

/-- What the actions of a frame need of the state the frame leaves. -/
def Follows (actions : List Action) (s : Session) (fatal : Option Fatal) : Prop :=
  fatal = none ∧ match actions with
    | [] => s.Live
    | [.login] => s.phase = .authenticating
    | [.fatal _] => s.phase = .fatallyClosed
    | [.send frame] => s.Live ∧ ∀ id method params, frame ≠ .method id method params
    | [.resubscribe] => s.Live
    | [.protocolViolation _] => s.Live
    | _ => False

theorem follows_handle {s : Session} (hs : s.Live) (message : ServerMessage) :
    Follows (s.handle message).2 (s.handle message).1 none := by
  refine ⟨rfl, ?_⟩
  rcases s.handle_cases message with ⟨_, -, he⟩ | ⟨_, -, he⟩ | ⟨_, _, -, -, he⟩ |
    ⟨_, _, _, -, -, he⟩ | ⟨_, -, he⟩ | ⟨_, he⟩ | he
  · rw [he]
  · rw [he]
  · rw [he]
    exact Session.live_of_ready rfl
  · rw [he]
  · rw [he]
    exact ⟨hs, by simp⟩
  · rw [he]
    exact hs
  · rw [he]
    exact hs

/-- Carrying out the actions of a frame. -/
theorem does_actions {message : ServerMessage} (actions : List Action) :
    Does (.handling message) (Sits (Follows actions)) (actions.forM (apply now) : RunAct κ PUnit)
      fun _ => Sits Handled := by
  -- One action at a time, and a frame asks for one at most.
  have hone : ∀ action, Does (.handling message) (Sits (Follows [action]))
      (apply now action : RunAct κ Unit) fun _ => Sits Handled := by
    intro action
    cases action with
    | send frame =>
      intro r hr
      obtain ⟨hf, hlive, hframe⟩ := hr
      have hpush : Does (.handling message) (Sits Driving)
          (wire (Wire.pushPriority frame none) : RunAct κ Unit) fun _ => Sits Driving :=
        does_push (fun _ _ h => h.1) hframe
      obtain ⟨hc, hq⟩ := hpush r ⟨hlive, hf⟩
      exact ⟨hc, .inl hq⟩
    | login =>
      exact does_login.weaken (fun r hr => ⟨hr.2, hr.1⟩) (fun _ _ hr => .inl hr)
    | resubscribe =>
      exact does_resubscribe.weaken (fun r hr => ⟨hr.2, hr.1⟩) (fun _ _ hr => .inl hr)
    -- The session has closed itself, and the failure is noted for the runner.
    | fatal fatal =>
      exact .modify (fun _ => rfl) fun r hr => .inr ⟨hr.2, rfl⟩
    | protocolViolation msg =>
      exact .pure fun r hr => .inl ⟨hr.2, hr.1⟩
  match actions with
  | [] => exact .pure fun r hr => .inl ⟨hr.2, hr.1⟩
  | [action] => exact .bind (hone action) fun _ => does_pure
  | _ :: _ :: _ =>
    intro r hr
    exact absurd hr.2 (by simp)

theorem does_correlate (message : ServerMessage) :
    Does (.handling message) (Sits p) (wire (Wire.correlate message) : RunAct κ Unit)
      fun _ => Sits p := by
  refine does_wire fun r hr => ?_
  obtain ⟨hc, hs⟩ := Wire.correlate_steps message (fun w => w.session = r.session)
    (fun _ _ _ hw => hw) r.toWire rfl
  refine ⟨hc, ?_⟩
  show p _ _
  rw [hs]
  exact hr

theorem eventOf_ne_ready {message : ServerMessage} {event : Event}
    (he : eventOf message = some event) (epoch : Epoch) : event ≠ .ready epoch := by
  rintro rfl
  cases message <;> simp [eventOf] at he

/-- Handling a frame is one turn, and the event it is passed on as another. -/
theorem does_onText (message : ServerMessage) :
    Does .between (Sits Driving) (onText now message : RunAct κ Unit) fun _ => Sits Handled := by
  intro r hr
  have hfollows := follows_handle hr.1 message
  rw [← hr.2] at hfollows
  -- Behind the session come its actions, the replies and the event.
  have hrest : Does (.handling message) (Sits (Follows (r.session.handle message).2)) (do
      (r.session.handle message).2.forM (apply now)
      wire (Wire.correlate message)
      match eventOf message with
      | some event => emit event
      | none => pure () : RunAct κ Unit) fun _ => Sits Handled := by
    refine .bind (does_actions _) fun _ => .bind (does_correlate message) fun _ => ?_
    cases hevent : eventOf message with
    | none => exact does_pure
    | some event => exact does_emit (eventOf_ne_ready hevent)
  have hend := hrest { r with session := (r.session.handle message).1 } hfollows
  -- Where it asks for the subscriptions, it announces the session.
  have hannounced : ∀ (actions : List Action) (r' : Runner κ), actions = [.resubscribe] →
      ∃ epoch, (r'.generation, .emitted (.ready epoch)) ∈ Act.obs (do
        actions.forM (apply now)
        wire (Wire.correlate message)
        match eventOf message with
        | some event => emit event
        | none => pure () : RunAct κ Unit) r' := by
    rintro _ r' rfl
    exact ⟨_, List.mem_append_left _ (List.mem_append_left _ (List.mem_cons_self ..))⟩
  exact ⟨.single (.frame hr.1 hend.1 (hannounced _ _)), hend.2⟩

/-- No step returns a fatal outcome: a failure is recorded, and found afterwards. -/
def NotFatal (outcome : Option Outcome) : Prop := ∀ fatal, outcome ≠ some (.fatal fatal)

theorem does_onFrame (frame : Frame) :
    Does .between (Sits Driving) (onFrame now frame : RunAct κ (Option Outcome))
      fun outcome r => NotFatal outcome ∧ r.Sits Handled := by
  have hclosed : ∀ reason, Does .between (Sits Driving)
      (pure (some (.closed reason)) : RunAct κ (Option Outcome))
      fun outcome r => NotFatal outcome ∧ r.Sits Handled :=
    fun reason => .pure fun _ hr => ⟨by simp [NotFatal], .inl hr⟩
  have hnone : ∀ {q}, (∀ s f, q s f → Handled s f) → Does .between (Sits q)
      (pure none : RunAct κ (Option Outcome)) fun outcome r => NotFatal outcome ∧ r.Sits Handled :=
    fun hq => .pure fun _ hr => ⟨by simp [NotFatal], hq _ _ hr⟩
  refine .bind (does_modify (fun _ => rfl) (fun _ => rfl)) fun _ => ?_
  match frame with
  | .text (some message) => exact .bind (does_onText message) fun _ => hnone fun _ _ h => h
  | .text none => exact hnone fun _ _ h => .inl h
  | .close none => exact hclosed _
  | .close (some (code, reason)) => exact hclosed _
  | .binary => exact hnone fun _ _ h => .inl h
  | .control => exact hnone fun _ _ h => .inl h

theorem does_onDeadline : Does .between (Sits Driving) (onDeadline now : RunAct κ (Option Outcome))
    fun outcome r => NotFatal outcome ∧ r.Sits Driving := by
  have hend : ∀ outcome, NotFatal outcome → Does .between (Sits Driving)
      (pure outcome : RunAct κ (Option Outcome))
      fun outcome r => NotFatal outcome ∧ r.Sits Driving :=
    fun _ ho => .pure fun _ hr => ⟨ho, hr⟩
  refine .bind (does_modify (fun _ => rfl) (fun _ => rfl)) fun _ => .bind does_get fun r => ?_
  split
  · exact hend _ (by simp [NotFatal])
  · refine .bind (does_modify (fun _ => rfl) (fun _ => rfl)) fun _ => ?_
    split
    · exact hend _ (by simp [NotFatal])
    · exact .bind (does_push (fun _ _ h => h.1) (by simp)) fun _ => hend _ (by simp [NotFatal])
    · exact hend _ (by simp [NotFatal])

/-! ### From location to location -/

/-- What a computation that ends at a location has to establish. -/
def Arrives (location : Location) (r : Runner κ) : Prop := r.At location

theorem does_stop (hp : ∀ s f, p s f → ¬ s.Live) :
    Does .between (Sits p) (stop : RunAct κ Location) Arrives := by
  refine .bind (does_modify ?_ ?_) fun _ => .bind (does_settle hp) fun _ =>
    .pure fun r hr => hp _ _ hr
  · intro r
    split <;> rfl
  · intro r
    split <;> rfl

theorem down_not_live : ∀ s fatal, Down s fatal → ¬ s.Live := fun _ _ h h' => h'.1 h.1

theorem does_connecting :
    Does .between (Sits Down) (connecting now : RunAct κ Location) Arrives :=
  .bind (does_setState _) fun _ => .bind does_get fun _ => .bind (does_emit (by simp)) fun _ =>
    .bind does_get fun _ => .pure fun _ hr => hr

theorem does_begin (draw : ℕ) :
    Does .between (Sits Down) (begin now draw : RunAct κ Location) Arrives := by
  refine .bind does_get fun r => ?_
  split
  · exact does_stop down_not_live
  · refine .bind does_get fun r => .bind (does_modify (fun _ => rfl) (fun _ => rfl)) fun _ => ?_
    split
    · exact does_connecting
    · exact .bind (does_setState _) fun _ => .pure fun _ hr => hr

theorem does_idleCommand {wake : Instant} (command : Option (Command κ × Bool)) :
    Does .between (Sits Down) (idleCommand wake command) Arrives := by
  match command with
  | some (command, dropped) =>
    refine .bind (does_handleCommand command dropped) fun _ => .bind does_get fun r => ?_
    split
    · exact does_stop down_not_live
    · exact .pure fun _ hr => hr
  | none =>
    exact .bind (does_modify (fun _ => rfl) (fun _ => rfl)) fun _ => does_stop down_not_live

theorem does_openFailed {reason : String} :
    Does .between (Sits Down) (openFailed now reason : RunAct κ Location) Arrives := by
  refine .bind (does_disconnected.weaken (fun r hr => ⟨?_, hr.2⟩) fun _ _ hr => hr) fun _ =>
    .pure fun _ hr => hr
  simp [hr.1]

theorem does_drive : Does .between (Sits Down) (drive now : RunAct κ Location) Arrives := by
  intro r hr
  have hrest : Does .between (Sits Driving) (do
      syncState
      armTimer now
      return .writing : RunAct κ Location) Arrives :=
    .bind does_syncState fun _ => .bind does_armTimer fun _ => .pure fun _ hr => hr
  -- Opening the socket and queueing the opening frame are one wire step.
  have hconnect : Chain Wire.Turn r.toWire
      ([] ++ [(r.generation, .opened), (r.generation, .pushed ⟨.opening, none⟩)]) _ :=
    .single (.step (.connect hr.1))
  have hend := hrest { r with
    session := r.session.connect.1
    priority := r.priority ++ [⟨.opening, none⟩]
    liveness := .withThresholds r.config.pingAfter r.config.deadAfter now r.config.leavesTime
    handshakeDeadline := some (now + r.config.handshakeTimeout) }
    ⟨Session.live_connect _, hr.2⟩
  exact ⟨hconnect.append hend.1, hend.2⟩

theorem does_take (step : Step κ) : Does .between (Sits Driving) (take now step)
    fun outcome r => NotFatal outcome ∧ r.Sits Handled := by
  have hend : ∀ outcome, NotFatal outcome → Does .between (Sits Driving)
      (pure outcome : RunAct κ (Option Outcome))
      fun outcome r => NotFatal outcome ∧ r.Sits Handled :=
    fun _ ho => .pure fun _ hr => ⟨ho, .inl hr⟩
  cases step with
  | frame frame => exact does_onFrame frame
  | eof => exact hend _ (by simp [NotFatal])
  | failed error => exact hend _ (by simp [NotFatal])
  | command command dropped =>
    exact .bind (does_handleCommand command dropped) fun _ => hend _ (by simp [NotFatal])
  | handlesDropped => exact hend _ (by simp [NotFatal])
  | deadline => exact does_onDeadline.weaken (fun _ hr => hr) fun _ _ hr => ⟨hr.1, .inl hr.2⟩

/-- Whatever a step of the socket loop did, the runner goes on, closes or reconnects. -/
theorem does_afterStep (step : Step κ) :
    Does .between (Sits Driving) (afterStep now step) Arrives := by
  refine .bind (does_take step) fun outcome => ?_
  refine .bind (Q := fun _ r => NotFatal outcome ∧ r.Sits Handled)
    (.modify (fun _ => rfl) fun _ hr => hr) fun _ => ?_
  refine .bind (Q := fun r₀ r => r₀ = r ∧ NotFatal outcome ∧ r.Sits Handled)
    (.get fun _ hr => ⟨rfl, hr⟩) fun r₀ => ?_
  -- A failure that was noted closes the session.
  cases hf : r₀.fatal with
  | some fatal =>
    refine .bind (Q := fun _ => Sits fun s _ => s.phase = .fatallyClosed)
      (.modify (fun _ => rfl) ?_) fun _ => .pure fun _ hr => hr
    rintro r ⟨rfl, -, hr | hr⟩
    · exact absurd (hr.2.symm.trans hf) (by simp)
    · exact hr.1
  | none =>
    -- Without one it is still driven.
    have hdrive : ∀ r, r₀ = r ∧ NotFatal outcome ∧ r.Sits Handled → r.Sits Driving := by
      rintro r ⟨rfl, -, hr | hr⟩
      · exact hr
      · exact absurd hr.2 (by simp [hf])
    dsimp only
    split
    · exact .pure fun _ _ => trivial
    · match outcome with
      | some (.closed reason) =>
        refine .bind (does_disconnected.weaken (fun r hr => ?_) fun _ _ hr => hr) fun _ =>
          .pure fun _ hr => hr
        exact ⟨(hdrive r hr).1.2, (hdrive r hr).2⟩
      | some .shutdown => exact .pure fun _ _ => trivial
      | some (.fatal fatal) => exact .pure fun r hr => absurd rfl (hr.2.1 fatal)
      | none =>
        exact .bind (does_armTimer.weaken hdrive fun _ _ hr => hr) fun _ =>
          .pure fun _ hr => hr

theorem does_write (reply : SinkReply) :
    Does .between (Sits Driving) (write now reply : RunAct κ Location) Arrives := by
  refine .bind (Q := fun r₀ r => r₀ = r ∧ r.Sits Driving) (.get fun _ hr => ⟨rfl, hr⟩)
    fun r₀ => ?_
  by_cases hpending :
      (r₀.priority.isEmpty && !(decide (r₀.session.phase = .ready) && !r₀.app.isEmpty)) = true
  · rw [if_pos hpending]
    exact .pure fun _ hr => hr.2
  · rw [if_neg hpending]
    -- Something is pending: a protocol frame, or an application frame in a ready session.
    have hready : r₀.priority = [] → r₀.session.phase = .ready := by
      intro hnil
      by_contra hphase
      exact hpending (by simp [hnil, hphase])
    have hhand : ∀ accepted, Does .between (fun r => r₀ = r ∧ r.Sits Driving)
        (wire (Wire.hand accepted) : RunAct κ Unit) fun _ => Sits Driving := by
      intro accepted
      refine does_wire fun r hr => ⟨?_, ?_⟩
      · obtain ⟨rfl, hr⟩ := hr
        exact .single (.step (.hand accepted hr.1 hready))
      · show Driving _ _
        rw [Wire.session_hand]
        exact hr.2
    match reply with
    | .pending => exact .pure fun _ hr => hr.2
    | .failed error => exact (does_afterStep _).weaken (fun _ hr => hr.2) fun _ _ hr => hr
    | .ready (.error error) => exact .bind (hhand false) fun _ => does_afterStep _
    | .ready (.ok ()) =>
      exact .bind (hhand true) fun _ => .bind (does_modify (fun _ => rfl) (fun _ => rfl))
        fun _ => .pure fun _ hr => hr

theorem does_flush (reply : FlushReply) :
    Does .between (Sits Driving) (flush now reply : RunAct κ Location) Arrives := by
  refine .bind does_get fun r => ?_
  split
  · match reply with
    | some (.ok ()) =>
      refine .bind (does_modify (fun _ => rfl) (fun _ => rfl)) fun _ => .bind ?_ fun _ =>
        .pure fun _ hr => hr
      exact does_wire_step (fun r _ => .flushed) (fun _ => rfl)
    | some (.error error) => exact does_afterStep _
    | none => exact .pure fun _ hr => hr
  · exact .pure fun _ hr => hr

theorem does_sources (read : Option ReadReply) (command : Option (Option (Command κ × Bool)))
    (timer : Bool) : Does .between (Sits Driving) (sources now read command timer) Arrives := by
  refine .bind does_get fun r => .bind (does_modify (fun _ => rfl) (fun _ => rfl)) fun _ => ?_
  dsimp only
  split
  · exact does_afterStep _
  · exact .pure fun _ hr => hr

theorem does_finish (fatal : Option Fatal) :
    Does .between (fun r => r.At (.closing fatal)) (finish fatal : RunAct κ Location) Arrives := by
  cases fatal with
  | none =>
    intro r _
    have hrest : Does .between (Sits fun s _ => ¬ s.Live) (do
        setState .closed
        stop : RunAct κ Location) Arrives :=
      .bind (does_setState _) fun _ => does_stop fun _ _ h => h
    have hsettle := settle_chain r .stopping r.session.not_live_disconnected
    have hend := hrest
      ((settle .stopping).state { r with session := r.session.disconnected })
      r.session.not_live_disconnected
    exact ⟨hsettle.append hend.1, hend.2⟩
  | some fatal =>
    have hlive : ∀ (s : Session) (f : Option Fatal), s.phase = .fatallyClosed → ¬ s.Live :=
      fun _ _ h h' => h'.2 h
    exact .bind (does_settle (p := fun s _ => s.phase = .fatallyClosed) hlive) fun _ =>
      .bind (does_setState _) fun _ => .bind (does_emit (by simp)) fun _ => does_stop hlive

end Runner

namespace World

/-- The computation an input makes the runner carry out where it awaits. -/
inductive Computes (w : World κ) : Input κ → RunAct κ Location → Prop
  | begin (draw : ℕ) : w.location = .top → Computes w (.begin draw) (Runner.begin w.clock draw)
  | elapsed {wake : Instant} : w.location = .idle wake →
    Computes w .elapsed (Runner.connecting w.clock)
  | command {wake : Instant} (command : Option (Command κ × Bool)) : w.location = .idle wake →
    Computes w (.command command) (Runner.idleCommand wake command)
  | opened {deadline : Instant} : w.location = .opening deadline →
    Computes w .opened (Runner.drive w.clock)
  | openFailed {input : Input κ} {deadline : Instant} (reason : String) : input.offer = none →
    w.location = .opening deadline → Computes w input (Runner.openFailed w.clock reason)
  | sink (reply : Runner.SinkReply) : w.location = .writing →
    Computes w (.sink reply) (Runner.write w.clock reply)
  | flush (reply : Runner.FlushReply) : w.location = .flushing →
    Computes w (.flush reply) (Runner.flush w.clock reply)
  | poll (read : Option Runner.ReadReply) (command : Option (Option (Command κ × Bool)))
    (timer : Bool) : w.location = .sources →
    Computes w (.poll read command timer) (Runner.sources w.clock read command timer)
  | closed {fatal : Option Fatal} : w.location = .closing fatal →
    Computes w .closed (Runner.finish fatal)

/-- **What a step can do**: let time pass, or carry out a computation of the runner. -/
theorem step_cases {w w' : World κ} {input : Input κ} {o : List (Seen κ)}
    (hs : w.step input = some (w', o)) :
    (∃ elapsed, input = .tick elapsed ∧ w' = { w with clock := w.clock + elapsed } ∧ o = []) ∨
      ∃ x, w.Computes input x ∧ w.advance x = (w', o) := by
  cases input with
  | tick elapsed =>
    obtain ⟨rfl, rfl⟩ := Prod.mk.inj (Option.some.inj hs)
    exact .inl ⟨elapsed, rfl, rfl, rfl⟩
  | begin draw =>
    simp only [step] at hs
    split at hs
    · next hl => exact .inr ⟨_, .begin draw hl, Option.some.inj hs⟩
    · simp at hs
  | elapsed =>
    simp only [step] at hs
    split at hs
    · next wake hl =>
      exact .inr ⟨_, .elapsed hl, Option.some.inj (Option.ite_none_right_eq_some.mp hs).2⟩
    · simp at hs
  | command command =>
    simp only [step] at hs
    split at hs
    · next wake hl =>
      exact .inr ⟨_, .command command hl, Option.some.inj (Option.ite_none_right_eq_some.mp hs).2⟩
    · simp at hs
  | opened =>
    simp only [step] at hs
    split at hs
    · next hl => exact .inr ⟨_, .opened hl, Option.some.inj hs⟩
    · simp at hs
  | openFailed error =>
    simp only [step] at hs
    split at hs
    · next hl => exact .inr ⟨_, .openFailed _ rfl hl, Option.some.inj hs⟩
    · simp at hs
  | openTimedOut =>
    simp only [step] at hs
    split at hs
    · next hl =>
      exact .inr ⟨_, .openFailed _ rfl hl, Option.some.inj (Option.ite_none_right_eq_some.mp hs).2⟩
    · simp at hs
  | sink reply =>
    simp only [step] at hs
    split at hs
    · next hl => exact .inr ⟨_, .sink reply hl, Option.some.inj hs⟩
    · simp at hs
  | flush reply =>
    simp only [step] at hs
    split at hs
    · next hl => exact .inr ⟨_, .flush reply hl, Option.some.inj hs⟩
    · simp at hs
  | poll read command timer =>
    simp only [step] at hs
    split at hs
    · next hl =>
      exact .inr ⟨_, .poll read command timer hl,
        Option.some.inj (Option.ite_none_right_eq_some.mp hs).2⟩
    · simp at hs
  | closed =>
    simp only [step] at hs
    split at hs
    · next hl => exact .inr ⟨_, .closed hl, Option.some.inj hs⟩
    · simp at hs

/-- **Every step of the runner is a chain of turns**, and leads from location to
location. -/
theorem step_at {w w' : World κ} {input : Input κ} {o : List (Seen κ)}
    (hw : w.runner.At w.location) (hs : w.step input = some (w', o)) :
    Chain Wire.Turn w.runner.toWire o w'.runner.toWire ∧ w'.runner.At w'.location := by
  rcases step_cases hs with ⟨elapsed, rfl, rfl, rfl⟩ | ⟨x, hx, he⟩
  · exact ⟨.nil _, hw⟩
  · have hdoes : ∀ {P : Runner κ → Prop}, Runner.Does .between P x Runner.Arrives → P w.runner →
        Chain Wire.Turn w.runner.toWire o w'.runner.toWire ∧ w'.runner.At w'.location := by
      intro P hx hP
      obtain ⟨hc, hq⟩ := hx _ hP
      obtain ⟨rfl, rfl⟩ := Prod.mk.inj he
      exact ⟨hc, hq⟩
    have hat : ∀ {location}, w.location = location → w.runner.At location := fun hl => hl ▸ hw
    cases hx with
    | begin draw hl => exact hdoes (Runner.does_begin draw) (hat hl)
    | elapsed hl => exact hdoes Runner.does_connecting (hat hl)
    | command command hl => exact hdoes (Runner.does_idleCommand command) (hat hl)
    | opened hl => exact hdoes Runner.does_drive (hat hl)
    | openFailed reason hoffer hl => exact hdoes Runner.does_openFailed (hat hl)
    | sink reply hl => exact hdoes (Runner.does_write reply) (hat hl)
    | flush reply hl => exact hdoes (Runner.does_flush reply) (hat hl)
    | poll read command timer hl =>
      exact hdoes (Runner.does_sources read command timer) (hat hl)
    | closed hl => exact hdoes (Runner.does_finish _) (hat hl)

/-- The location invariant holds along every run. -/
theorem run_at {config : Config} {h : List (Seen κ)} {w : World κ}
    (hrun : Run step (init config) h w) : w.runner.At w.location :=
  hrun.invariant (I := fun _ w => w.runner.At w.location) ⟨rfl, rfl⟩
    fun hw hs => (step_at hw hs).2

/-- **The induction rule for the runner**: what every turn preserves holds of the wire side
in every state a run reaches. -/
theorem turn_invariant {config : Config} {I : List (Seen κ) → Wire κ → Prop}
    (hinit : I [] .init) (hturn : ∀ {h w o w'}, I h w → Wire.Turn w o w' → I (h ++ o) w')
    {h : List (Seen κ)} {w : World κ} (hrun : Run step (init config) h w) :
    I h w.runner.toWire :=
  hrun.invariant_of (I := fun h w => I h w.runner.toWire) run_at hinit
    fun hw hI hs => (step_at hw hs).1.invariant hturn hI

/-- The induction rule for what every wire step preserves. -/
theorem wire_invariant {config : Config} {I : List (Seen κ) → Wire κ → Prop}
    (hinit : I [] .init)
    (hstep : ∀ {cause h w o w'}, I h w → Wire.Step cause w o w' → I (h ++ o) w')
    {h : List (Seen κ)} {w : World κ} (hrun : Run step (init config) h w) :
    I h w.runner.toWire :=
  turn_invariant hinit (fun hI ht => ht.invariant (J := fun _ => I) hstep
    (fun hI hlive => hstep hI (.hear _ hlive)) hstep id hI) hrun

end World

/-! ### The start of a run -/

/-- The inputs that bring a runner to a ready session. -/
def becomeReady : List (Input ℕ) :=
  [.begin 0, .opened, .sink (.ready (.ok ())), .sink .pending, .flush (some (.ok ())),
    .poll (some (.frame (.text (some (.connected "session"))))) none false,
    .sink (.ready (.ok ())), .sink .pending, .flush (some (.ok ())),
    .poll (some (.frame (.text (some (.result "m0" none none))))) none false]

/-- A call is accepted in a ready session. -/
def acceptCall : List (Input ℕ) :=
  [.sink .pending, .flush none, .poll none (some (some (.call "sendMessage" [] 0, false))) false]

/-- A configuration with the defaults. -/
def demoConfig : Config := { credential := .resume "token" }

end RocketSocket
