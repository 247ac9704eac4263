import RocketSocket.Lib.Act
import RocketSocket.Realtime.Correlate
import RocketSocket.Realtime.Session

/-!
# The wire side of the runner

The part of the runner that decides what reaches the socket and what every call is
answered: the session, the two correlators, the two outgoing queues and the marks of
the frames that were not flushed yet.  The functions are those of `connection.rs` that
touch nothing else.

A runner goes through *generations*: `settle` ends one and starts the next.  The
source counts them in the epochs of its correlators, which wrap; here a counter that
no function reads does it.  Everything the runner shows of itself is tagged with the
generation it happened in, and at most one socket is opened in each.

## Main definitions

* `Command`, `Event`, `Outbound`, `Mark` — what the runner works on.
* `Obs`, `Seen` — what a run shows.
* `Wire` — the state, and its operations `pushPriority`, `pushApp`, `login`, `flushed`,
  `correlate`, `handleCommand`, `settle`.
* `Wire.pendingOf` — the entry a mark stands for.

* `Wire.Step`, `Wire.Turn` — what the runner does to its wire side.

## Main results

* `pendingOf_register`, `pendingOf_cancel`, `pendingOf_answer`, `pendingOf_flushed`,
  `pendingOf_settle` — each operation on the entries.
* `mem_settleObs` — what ending a generation tells every waiter.
* `Turn.invariant` — **the induction rule for turns.**
-/

namespace RocketSocket

open Machine

variable {κ : Type}

/-! ### Commands, frames and events -/

/-- Which correlator to mark once a frame has been flushed: `Mark::Method(id)` or
`Mark::Sub(id)`. -/
structure Mark where
  side : Side
  id : String
  deriving DecidableEq, Repr

/-- A frame waiting for the sink. -/
structure Outbound where
  frame : ClientMessage
  mark : Option Mark

/-- Where the reply of a registered call goes: to the runner itself for its login, or to
the caller whose command it was. -/
inductive Waiter (κ : Type) where
  | login
  | caller (k : κ)
  deriving DecidableEq, Repr

/-- What a handle asks of the runner.  A command that registers a call carries its
caller's `ack`. -/
inductive Command (κ : Type) where
  | call (method : String) (params : List Value) (ack : κ)
  | subscribe (name : String) (params : List Value) (ack : κ)
  | unsubscribe (id : String)
  | shutdown

/-- The caller a command registers a call for. -/
def Command.ack : Command κ → Option κ
  | .call _ _ ack => some ack
  | .subscribe _ _ ack => some ack
  | _ => none

/-- The correlator a command registers its call with. -/
def Command.side : Command κ → Side
  | .subscribe .. => .subs
  | _ => .methods

/-- Something the runner wants the application to know. -/
inductive Event where
  | connecting (attempt : ℕ)
  | connected (session : String)
  | ready (epoch : Epoch)
  | resubscribe (epoch : Epoch)
  | frame (message : ServerMessage)
  | disconnected (reason : String)
  | fatal (fatal : Fatal)
  | lagged (missed : ℕ)

/-! ### Observations -/

/-- The two queues of outgoing frames. -/
inductive Lane where
  | priority
  | app
  deriving DecidableEq, Repr

/-- Why a generation ends: the connection is lost, or the runner stops. -/
inductive Ending where
  | lost
  | stopping
  deriving DecidableEq, Repr

/-- What a runner shows of itself. -/
inductive Obs (κ : Type) where
  /-- A socket was opened. -/
  | opened
  /-- A frame was received and decoded. -/
  | received (message : ServerMessage)
  /-- A frame was put on the priority lane. -/
  | pushed (out : Outbound)
  /-- A command was accepted in this phase; `out` is the frame it put on the
  application lane, if any. -/
  | took (command : Command κ) (phase : Phase) (out : Option Outbound)
  /-- A frame was passed to the sink's `start_send`, which accepted it or failed. -/
  | handed (lane : Lane) (out : Outbound) (accepted : Bool)
  /-- A reply was sent to a waiter, because of a frame or because its generation ended. -/
  | settled (cause : Option ServerMessage) (mark : Mark) (waiter : Waiter κ) (reply : Reply)
  /-- `settle` was called. -/
  | ended (why : Ending)
  /-- An event was broadcast. -/
  | emitted (event : Event)

/-- An observation, with the generation it was made in. -/
abbrev Seen (κ : Type) := ℕ × Obs κ

/-- When the runner makes a step: between two frames, to hear one, or while it handles it. -/
inductive Cause where
  | between
  | hearing
  | handling (message : ServerMessage)

/-! ### The state -/

/-- The wire side of the runner. -/
structure Wire (κ : Type) where
  session : Session
  /-- `methods` and `subs`. -/
  table : Side → Correlator (Waiter κ)
  /-- Protocol frames: `connect`, `login`, `ping`, `pong`. -/
  priority : List Outbound
  /-- Application frames: `method`, `sub`, `unsub`. -/
  app : List Outbound
  /-- The marks of the frames handed to the sink but not yet flushed. -/
  unflushed : List Mark
  /-- How often `settle` was called. -/
  generation : ℕ

namespace Wire

/-- The state a runner starts in. -/
def init : Wire κ where
  session := .new ClientMessage.ddpVersion
  table := fun side => .new side.idPrefix
  priority := []
  app := []
  unflushed := []
  generation := 0

/-- The entry a mark stands for. -/
def pendingOf (w : Wire κ) (m : Mark) : Option (Pending (Waiter κ)) :=
  (w.table m.side).pending.lookup m.id

/-- Replace one of the correlators. -/
def set (w : Wire κ) (side : Side) (c : Correlator (Waiter κ)) : Wire κ :=
  { w with table := Function.update w.table side c }

/-- Show something, tagged with the current generation. -/
def say (o : Obs κ) : Act (Wire κ) (Seen κ) Unit := Act.say fun w => (w.generation, o)

/-- Registers a call with one of the correlators. -/
def register (side : Side) (waiter : Waiter κ) : Act (Wire κ) (Seen κ) Mark := fun w =>
  let (id, c) := (w.table side).register waiter
  (⟨side, id⟩, w.set side c, [])

/-- Forgets a call. -/
def cancel (m : Mark) : Act (Wire κ) (Seen κ) Unit :=
  .modify fun w => w.set m.side ((w.table m.side).cancel m.id).1

/-- Queues a protocol frame. -/
def pushPriority (frame : ClientMessage) (mark : Option Mark) :
    Act (Wire κ) (Seen κ) Unit := do
  Act.modify fun w => { w with priority := w.priority ++ [⟨frame, mark⟩] }
  say (.pushed ⟨frame, mark⟩)

/-- Queues an application frame. -/
def pushApp (frame : ClientMessage) (mark : Option Mark) :
    Act (Wire κ) (Seen κ) Outbound := do
  Act.modify fun w => { w with app := w.app ++ [⟨frame, mark⟩] }
  return ⟨frame, mark⟩

/-- Begins a connection; the opening frame is the action returned. -/
def connect : Act (Wire κ) (Seen κ) Action := fun w =>
  let (session, action) := w.session.connect
  (action, { w with session }, [])

/-- Feeds one decoded frame to the session. -/
def hear (message : ServerMessage) : Act (Wire κ) (Seen κ) (List Action) := fun w =>
  let (session, actions) := w.session.handle message
  (actions, { w with session }, [(w.generation, .received message)])

/-- Passes the next frame to the sink: of the priority lane while it has one, else of the
application lane. -/
def hand (accepted : Bool) : Act (Wire κ) (Seen κ) Unit := fun w =>
  let sent (out : Outbound) := if accepted then out.mark.toList else []
  match w.priority, w.app with
  | out :: priority, _ =>
    ((), { w with priority, unflushed := w.unflushed ++ sent out },
      [(w.generation, .handed .priority out accepted)])
  | [], out :: app =>
    ((), { w with app, unflushed := w.unflushed ++ sent out },
      [(w.generation, .handed .app out accepted)])
  | [], [] => ((), w, [])

/-- `Action::Login`, carried out. -/
def login (params : List Value) : Act (Wire κ) (Seen κ) Unit := do
  let mark ← register .methods .login
  Act.modify fun w => { w with session := w.session.expectLogin mark.id }
  pushPriority (.method mark.id "login" params) (some mark)

/-- Marks the entry of a mark as sent. -/
def markSent (table : Side → Correlator (Waiter κ)) (m : Mark) :
    Side → Correlator (Waiter κ) :=
  Function.update table m.side ((table m.side).markSent m.id)

/-- Marks everything that was not flushed yet as sent. -/
def flushed (w : Wire κ) : Wire κ :=
  { w with table := w.unflushed.foldl markSent w.table, unflushed := [] }

/-- Delivers what a frame says about one call.  The source logs the resolution, and so
whether the caller still waits makes no difference. -/
def answer (message : ServerMessage) (m : Mark) (outcome : Except DdpError Value) :
    Act (Wire κ) (Seen κ) Unit := fun w =>
  let (c, _, settled) := (w.table m.side).resolve m.id outcome fun _ => false
  ((), w.set m.side c, settled.toList.map fun x =>
    (w.generation, .settled (some message) ⟨m.side, x.id⟩ x.reply x.outcome))

/-- Hands the replies a frame carries to their callers. -/
def correlate (message : ServerMessage) : Act (Wire κ) (Seen κ) Unit :=
  match message with
  | .result id result error =>
    answer message ⟨.methods, id⟩ <| match error with
      | some error => .error error
      -- An absent `result` means null rather than no answer.
      | none => .ok (result.getD .null)
  | .ready subs => subs.forM fun id => answer message ⟨.subs, id⟩ (.ok .null)
  | .nosub id error =>
    answer message ⟨.subs, id⟩ <| match error with
      | some error => .error error
      | none => .ok .null
  | _ => pure ()

/-- Registers the call of a command and queues its frame, unless the caller vanished
before its `ack` could be answered. -/
def registerCommand (command : Command κ) (side : Side) (ack : κ)
    (frame : String → ClientMessage) (dropped : Bool) : Act (Wire κ) (Seen κ) Unit := do
  let mark ← register side (.caller ack)
  let phase := (← Act.get).session.phase
  if dropped then
    cancel mark
    say (.took command phase none)
  else
    let out ← pushApp (frame mark.id) (some mark)
    say (.took command phase (some out))

/-- Carries out a command, apart from the flag `shutdown` sets. -/
def handleCommand (command : Command κ) (dropped : Bool) : Act (Wire κ) (Seen κ) Unit :=
  match command with
  | .call method params ack =>
    registerCommand command .methods ack (fun id => .method id method params) dropped
  | .subscribe name params ack =>
    registerCommand command .subs ack (fun id => .sub id name params) dropped
  | .unsubscribe id => do
    let out ← pushApp (.unsub id) none
    say (.took command (← Act.get).session.phase (some out))
  | .shutdown => do say (.took command (← Act.get).session.phase none)

/-- What ending the generation shows: the ending, and a reply to every waiter. -/
def settleObs (why : Ending) (w : Wire κ) : List (Seen κ) :=
  (w.generation, .ended why) :: [Side.methods, Side.subs].flatMap fun side =>
    (w.flushed.table side).disconnect.2.map fun x =>
      (w.generation, .settled none ⟨side, x.id⟩ x.reply x.outcome)

/-- Ends the current generation: drops unwritten frames and settles every waiter.  What
was handed to the sink but not flushed counts as sent. -/
def settle (why : Ending) : Act (Wire κ) (Seen κ) Unit := fun w =>
  ((), { w.flushed with
    table := fun side => (w.flushed.table side).disconnect.1
    priority := []
    app := []
    generation := w.generation + 1 }, settleObs why w)

/-! ### The entries -/

variable (w : Wire κ) (m m' : Mark)

@[simp] theorem pendingOf_init : (init : Wire κ).pendingOf m = none := rfl

@[simp] theorem table_set_self (side : Side) (c : Correlator (Waiter κ)) :
    (w.set side c).table side = c := Function.update_self ..

theorem table_set_of_ne {side side' : Side} (c : Correlator (Waiter κ)) (h : side' ≠ side) :
    (w.set side c).table side' = w.table side' := Function.update_of_ne h ..

theorem pendingOf_set (side : Side) (c : Correlator (Waiter κ)) :
    (w.set side c).pendingOf m =
      if m.side = side then c.pending.lookup m.id else w.pendingOf m := by
  by_cases h : m.side = side
  · subst h
    simp [pendingOf]
  · rw [if_neg h, pendingOf, table_set_of_ne w c h]
    rfl

/-- The next mark of a correlator. -/
def nextMark (side : Side) : Mark := ⟨side, callId (w.table side).idPrefix (w.table side).nextId⟩

@[simp] theorem value_register (side : Side) (waiter : Waiter κ) :
    (register side waiter).value w = w.nextMark side := rfl

@[simp] theorem obs_register (side : Side) (waiter : Waiter κ) :
    (register side waiter).obs w = [] := rfl

theorem pendingOf_register (side : Side) (waiter : Waiter κ) :
    ((register side waiter).state w).pendingOf m =
      if m = w.nextMark side then some ⟨(w.table side).epoch, false, waiter⟩
      else w.pendingOf m := by
  have hs : (register side waiter).state w = w.set side ((w.table side).register waiter).2 := rfl
  obtain ⟨s, id⟩ := m
  rw [hs, pendingOf_set, Correlator.lookup_register]
  by_cases h : s = side
  · subst h
    simp [nextMark, pendingOf]
  · simp [nextMark, h]

theorem pendingOf_cancel : ((cancel m).state w).pendingOf m' =
    if m' = m then none else w.pendingOf m' := by
  have hs : (cancel m).state w = w.set m.side ((w.table m.side).cancel m.id).1 := rfl
  obtain ⟨s, id⟩ := m
  obtain ⟨s', id'⟩ := m'
  rw [hs, pendingOf_set, Correlator.lookup_cancel]
  by_cases h : s' = s
  · subst h
    simp [pendingOf]
  · simp [h]

theorem lookup_markSent (table : Side → Correlator (Waiter κ)) :
    (markSent table m m'.side).pending.lookup m'.id = if m' = m
      then ((table m.side).pending.lookup m.id).map fun p => { p with sent := true }
      else (table m'.side).pending.lookup m'.id := by
  obtain ⟨s, id⟩ := m
  obtain ⟨s', id'⟩ := m'
  by_cases h : s' = s
  · subst h
    simp [markSent, Correlator.lookup_markSent]
  · simp [markSent, h]

/-- The marks of a completed flush are sent, and nothing else changes. -/
theorem pendingOf_flushed : w.flushed.pendingOf m = if m ∈ w.unflushed
    then (w.pendingOf m).map fun p => { p with sent := true } else w.pendingOf m := by
  have hfold : ∀ (marks : List Mark) (table : Side → Correlator (Waiter κ)),
      (marks.foldl markSent table m.side).pending.lookup m.id = if m ∈ marks
        then ((table m.side).pending.lookup m.id).map fun p => { p with sent := true }
        else (table m.side).pending.lookup m.id := by
    intro marks
    induction marks with
    | nil => intro table; simp
    | cons m₀ marks ih =>
      intro table
      rw [List.foldl_cons, ih, lookup_markSent]
      by_cases h₀ : m = m₀
      · subst h₀
        by_cases hm : m ∈ marks
        · simp [hm, Function.comp_def]
        · simp [hm]
      · simp [h₀]
  exact hfold w.unflushed w.table

/-- Whatever it delivers, a frame takes the entry of the call out of its table. -/
theorem state_answer (message : ServerMessage) (outcome : Except DdpError Value) :
    (answer message m outcome).state w = (cancel m).state w := by
  have hs : (answer message m outcome).state w =
      w.set m.side ((w.table m.side).resolve m.id outcome fun _ => false).1 := rfl
  rw [hs, Correlator.resolve_fst]
  rfl

theorem pendingOf_answer (message : ServerMessage) (outcome : Except DdpError Value) :
    ((answer message m outcome).state w).pendingOf m' =
      if m' = m then none else w.pendingOf m' := by
  rw [state_answer, pendingOf_cancel]

/-- The frame a login puts on the priority lane. -/
def loginFrame (params : List Value) : Outbound :=
  ⟨.method (w.nextMark .methods).id "login" params, some (w.nextMark .methods)⟩

theorem obs_login (params : List Value) :
    (login params).obs w = [(w.generation, .pushed (w.loginFrame params))] := rfl

theorem state_login (params : List Value) : (login params).state w =
    { (register .methods .login).state w with
      session := w.session.expectLogin (w.nextMark .methods).id
      priority := w.priority ++ [w.loginFrame params] } := rfl

/-- Two states of the tables that hand out the same ids, in the same epoch. -/
def SameIds (w w' : Wire κ) : Prop := ∀ side,
  (w'.table side).idPrefix = (w.table side).idPrefix ∧
  (w'.table side).nextId = (w.table side).nextId ∧
  (w'.table side).epoch = (w.table side).epoch

theorem sameIds_set {side : Side} {c : Correlator (Waiter κ)}
    (hp : c.idPrefix = (w.table side).idPrefix) (hn : c.nextId = (w.table side).nextId)
    (he : c.epoch = (w.table side).epoch) : SameIds w (w.set side c) := by
  intro side'
  by_cases h : side' = side
  · subst h
    rw [table_set_self]
    exact ⟨hp, hn, he⟩
  · rw [table_set_of_ne w c h]
    exact ⟨rfl, rfl, rfl⟩

theorem sameIds_cancel : SameIds w ((cancel m).state w) := sameIds_set w rfl rfl rfl

theorem sameIds_answer (message : ServerMessage) (outcome : Except DdpError Value) :
    SameIds w ((answer message m outcome).state w) := by
  rw [state_answer]
  exact sameIds_cancel w m

/-- A registration moves the counter of its table, and nothing else of the ids. -/
theorem ids_register (side side' : Side) (waiter : Waiter κ) :
    (((register side waiter).state w).table side').idPrefix = (w.table side').idPrefix ∧
    (((register side waiter).state w).table side').epoch = (w.table side').epoch ∧
    (((register side waiter).state w).table side').nextId =
      (w.table side').nextId + if side' = side then 1 else 0 := by
  have hs : (register side waiter).state w = w.set side ((w.table side).register waiter).2 := rfl
  rw [hs]
  by_cases h : side' = side
  · subst h
    simp
  · rw [table_set_of_ne w _ h]
    simp [h]

theorem sameIds_flushed : SameIds w w.flushed := by
  have hfold : ∀ (marks : List Mark) (table : Side → Correlator (Waiter κ)) (side : Side),
      (marks.foldl markSent table side).idPrefix = (table side).idPrefix ∧
      (marks.foldl markSent table side).nextId = (table side).nextId ∧
      (marks.foldl markSent table side).epoch = (table side).epoch := by
    intro marks
    induction marks with
    | nil => exact fun _ _ => ⟨rfl, rfl, rfl⟩
    | cons m marks ih =>
      intro table side
      have hone : SameIds { w with table } { w with table := markSent table m } :=
        sameIds_set { w with table } (by simp) (by simp) (by simp)
      obtain ⟨hp, hn, he⟩ := ih (markSent table m) side
      obtain ⟨hp', hn', he'⟩ := hone side
      exact ⟨hp.trans hp', hn.trans hn', he.trans he'⟩
  exact hfold w.unflushed w.table

/-- The reply to a call goes to its waiter, and a frame for no call sends none. -/
theorem obs_answer (message : ServerMessage) (outcome : Except DdpError Value)
    (hepoch : ∀ p, w.pendingOf m = some p → p.epoch = (w.table m.side).epoch) :
    (answer message m outcome).obs w = match w.pendingOf m with
      | some p => [(w.generation, .settled (some message) m p.reply (outcome.mapError .server))]
      | none => [] := by
  have ho : (answer message m outcome).obs w =
      ((w.table m.side).resolve m.id outcome fun _ => false).2.2.toList.map fun x =>
        (w.generation, .settled (some message) ⟨m.side, x.id⟩ x.reply x.outcome) := rfl
  rw [ho]
  cases hp : w.pendingOf m with
  | none =>
    have hp' : (w.table m.side).pending.lookup m.id = none := hp
    simp [Correlator.resolve, hp']
  | some p =>
    rw [Correlator.resolve_settlement _ _ _ _ hp (hepoch p hp)]
    rfl

@[simp] theorem pendingOf_settle (why : Ending) :
    ((settle why).state w).pendingOf m = none := rfl

/-- **What ending a generation tells every waiter.** -/
theorem mem_settleObs {why : Ending} {g : ℕ} {o : Obs κ} : (g, o) ∈ w.settleObs why ↔
    g = w.generation ∧ (o = .ended why ∨ ∃ m p, w.flushed.pendingOf m = some p ∧
      o = .settled none m p.reply (.error (if p.sent then .abandoned m.id else .notSent))) := by
  simp only [settleObs, List.mem_cons, List.mem_flatMap, List.mem_map, Prod.mk.injEq]
  constructor
  · rintro (⟨rfl, rfl⟩ | ⟨side, -, x, hx, rfl, rfl⟩)
    · exact ⟨rfl, .inl rfl⟩
    · obtain ⟨p, hp, hx⟩ := (Correlator.mem_disconnect _).mp hx
      refine ⟨rfl, .inr ⟨⟨side, x.id⟩, p, hp, ?_⟩⟩
      rw [hx]
      rfl
  · rintro ⟨rfl, rfl | ⟨m, p, hp, rfl⟩⟩
    · exact .inl ⟨rfl, rfl⟩
    · refine .inr ⟨m.side, by cases m.side <;> simp, Correlator.abandon m.id p, ?_, rfl, rfl⟩
      exact (Correlator.mem_disconnect _).mpr ⟨p, hp, rfl⟩

/-- **What accepting a command does.**  It changes nothing, queues an `unsub`, spends an id
on a caller that is gone, or registers a call and queues its frame. -/
theorem take_cases (command : Command κ) (dropped : Bool) :
    ((handleCommand command dropped).obs w =
        [(w.generation, .took command w.session.phase none)] ∧
      (handleCommand command dropped).state w = w) ∨
    (∃ out, out.mark = none ∧ (handleCommand command dropped).obs w =
        [(w.generation, .took command w.session.phase (some out))] ∧
      (handleCommand command dropped).state w = { w with app := w.app ++ [out] }) ∨
    (∃ waiter, (handleCommand command dropped).obs w =
        [(w.generation, .took command w.session.phase none)] ∧
      (handleCommand command dropped).state w =
        (cancel (w.nextMark command.side)).state ((register command.side waiter).state w)) ∨
    (∃ ack out, command.ack = some ack ∧ out.mark = some (w.nextMark command.side) ∧
      (handleCommand command dropped).obs w =
        [(w.generation, .took command w.session.phase (some out))] ∧
      (handleCommand command dropped).state w =
        { (register command.side (.caller ack)).state w with app := w.app ++ [out] }) := by
  cases command with
  | call method params ack =>
    -- The caller is gone: its id is spent and cancelled at once.
    cases dropped with
    | true => exact .inr (.inr (.inl ⟨.caller ack, rfl, rfl⟩))
    | false => exact .inr (.inr (.inr ⟨ack, _, rfl, rfl, rfl, rfl⟩))
  | subscribe name params ack =>
    cases dropped with
    | true => exact .inr (.inr (.inl ⟨.caller ack, rfl, rfl⟩))
    | false => exact .inr (.inr (.inr ⟨ack, _, rfl, rfl, rfl, rfl⟩))
  | unsubscribe id => exact .inr (.inl ⟨⟨.unsub id, none⟩, rfl, rfl, rfl⟩)
  | shutdown => exact .inl ⟨rfl, rfl⟩

/-- What passing a frame to the sink does. -/
theorem hand_cases (accepted : Bool) :
    (∃ out rest, w.priority = out :: rest ∧
      (hand accepted).obs w = [(w.generation, .handed .priority out accepted)] ∧
      (hand accepted).state w = { w with
        priority := rest
        unflushed := w.unflushed ++ if accepted then out.mark.toList else [] }) ∨
    (∃ out rest, w.priority = [] ∧ w.app = out :: rest ∧
      (hand accepted).obs w = [(w.generation, .handed .app out accepted)] ∧
      (hand accepted).state w = { w with
        app := rest
        unflushed := w.unflushed ++ if accepted then out.mark.toList else [] }) ∨
    (w.priority = [] ∧ w.app = [] ∧ (hand accepted).obs w = [] ∧
      (hand accepted).state w = w) := by
  obtain ⟨session, table, priority, app, unflushed, generation⟩ := w
  match priority, app with
  | out :: rest, app => exact .inl ⟨out, rest, rfl, rfl, rfl⟩
  | [], out :: rest => exact .inr (.inl ⟨out, rest, rfl, rfl, rfl, rfl⟩)
  | [], [] => exact .inr (.inr ⟨rfl, rfl, rfl, rfl⟩)

@[simp] theorem session_hand (accepted : Bool) :
    ((hand accepted).state w).session = w.session := by
  rcases hand_cases w accepted with ⟨_, _, -, -, h⟩ | ⟨_, _, -, -, -, h⟩ | ⟨-, -, -, h⟩
  all_goals rw [h]

/-! ### Steps -/

/-- What a frame answers: the mark, and the outcome it is answered with. -/
inductive Answers : ServerMessage → Mark → Except DdpError Value → Prop
  | result {id : String} {result : Option Value} :
    Answers (.result id result none) ⟨.methods, id⟩ (.ok (result.getD .null))
  | failure {id : String} {result : Option Value} {error : DdpError} :
    Answers (.result id result (some error)) ⟨.methods, id⟩ (.error error)
  | ready {subs : List String} {id : String} :
    id ∈ subs → Answers (.ready subs) ⟨.subs, id⟩ (.ok .null)
  | nosub {id : String} : Answers (.nosub id none) ⟨.subs, id⟩ (.ok .null)
  | refusal {id : String} {error : DdpError} :
    Answers (.nosub id (some error)) ⟨.subs, id⟩ (.error error)

/-- The steps everything the runner does to its wire side is made of, with what the
runner makes sure of before each.  Those it makes while it handles a frame are marked with
the frame; only they answer calls, and they take no command. -/
inductive Step : Cause → Wire κ → List (Seen κ) → Wire κ → Prop
  | emitted {cause : Cause} {w : Wire κ} (event : Event) :
    (∀ epoch, event ≠ .ready epoch) → Step cause w [(w.generation, .emitted event)] w
  | ready {cause : Cause} {w : Wire κ} (epoch : Epoch) :
    Step cause w
      [(w.generation, .emitted (.ready epoch)), (w.generation, .emitted (.resubscribe epoch))] w
  | push {cause : Cause} {w : Wire κ} (frame : ClientMessage) :
    w.session.Live → (∀ id method params, frame ≠ .method id method params) →
    Step cause w [(w.generation, .pushed ⟨frame, none⟩)]
      { w with priority := w.priority ++ [⟨frame, none⟩] }
  | login {message : ServerMessage} {w : Wire κ} (params : List Value) :
    w.session.phase = .authenticating →
    Step (.handling message) w ((login params).obs w) ((login params).state w)
  | answer {message : ServerMessage} {w : Wire κ} {m : Mark}
    {outcome : Except DdpError Value} : Answers message m outcome →
    Step (.handling message) w ((answer message m outcome).obs w)
      ((answer message m outcome).state w)
  | connect {w : Wire κ} : w.session.phase = .disconnected →
    Step .between w [(w.generation, .opened), (w.generation, .pushed ⟨.opening, none⟩)]
      { w with session := w.session.connect.1, priority := w.priority ++ [⟨.opening, none⟩] }
  | hear {w : Wire κ} (message : ServerMessage) : w.session.Live →
    Step .hearing w [(w.generation, .received message)]
      { w with session := (w.session.handle message).1 }
  | hand {w : Wire κ} (accepted : Bool) : w.session.Live →
    (w.priority = [] → w.session.phase = .ready) →
    Step .between w ((hand accepted).obs w) ((hand accepted).state w)
  | flushed {w : Wire κ} : Step .between w [] w.flushed
  | settle {w : Wire κ} (why : Ending) (session : Session) : ¬ session.Live →
    Step .between w (w.settleObs why) { (settle why).state w with session }
  | take {w : Wire κ} (command : Command κ) (dropped : Bool) :
    Step .between w ((handleCommand command dropped).obs w)
      ((handleCommand command dropped).state w)

/-- A turn of the runner: one step, or a frame received and the steps it causes.  The frame
that makes a session ready is announced. -/
inductive Turn : Wire κ → List (Seen κ) → Wire κ → Prop
  | step {w w' : Wire κ} {o : List (Seen κ)} : Step .between w o w' → Turn w o w'
  | frame {message : ServerMessage} {w w' : Wire κ} {o : List (Seen κ)} :
    w.session.Live →
    Chain (Step (.handling message)) { w with session := (w.session.handle message).1 } o w' →
    ((w.session.handle message).2 = [.resubscribe] →
      ∃ epoch, (w.generation, .emitted (.ready epoch)) ∈ o) →
    Turn w ((w.generation, .received message) :: o) w'

/-- What the runner does while it handles a frame, or between frames. -/
def During : Cause → Wire κ → List (Seen κ) → Wire κ → Prop
  | .between => Turn
  | cause => Step cause

theorem Step.during {cause : Cause} {w w' : Wire κ} {o : List (Seen κ)}
    (hs : Step cause w o w') : During cause w o w' := by
  cases cause with
  | between => exact .step hs
  | _ => exact hs

/-- Correlating a frame answers the calls it names. -/
theorem correlate_steps (message : ServerMessage) (P : Wire κ → Prop)
    (hP : ∀ w m outcome, P w → P ((answer message m outcome).state w)) :
    Performs id (Step (.handling message)) P (correlate message) fun _ => P := by
  have hone : ∀ m outcome, Answers message m outcome →
      Performs id (Step (.handling message)) P (answer message m outcome) fun _ => P :=
    fun m outcome ha w hw => ⟨.single (.answer ha), hP w m outcome hw⟩
  cases message with
  | result id result error =>
    cases error with
    | none => exact hone _ _ .result
    | some error => exact hone _ _ .failure
  | ready subs => exact .forM subs fun id hid => hone _ _ (.ready hid)
  | nosub id error =>
    cases error with
    | none => exact hone _ _ .nosub
    | some error => exact hone _ _ .refusal
  | _ => exact .pure fun _ hw => hw

/-- **The induction rule for turns.**  `I` holds between turns; while a frame is handled,
`J` of the frame does. -/
theorem Turn.invariant {I : List (Seen κ) → Wire κ → Prop}
    {J : ServerMessage → List (Seen κ) → Wire κ → Prop}
    (hstep : ∀ {h w o w'}, I h w → Step .between w o w' → I (h ++ o) w')
    (hhear : ∀ {h w message}, I h w → w.session.Live →
      J message (h ++ [(w.generation, .received message)])
        { w with session := (w.session.handle message).1 })
    (hhandle : ∀ {message h w o w'}, J message h w → Step (.handling message) w o w' →
      J message (h ++ o) w')
    (hend : ∀ {message h w}, J message h w → I h w)
    {w w' : Wire κ} {o h : List (Seen κ)} (ht : Turn w o w') (hI : I h w) :
    I (h ++ o) w' := by
  cases ht with
  | step hs => exact hstep hI hs
  | @frame message _ _ o hlive hc hready =>
    have hJ := hc.invariant (I := J message) hhandle (hhear hI hlive)
    rw [List.append_assoc] at hJ
    exact hend hJ

end Wire

end RocketSocket
