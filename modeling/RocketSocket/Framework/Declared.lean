import RocketSocket.Framework.Attribute
import RocketSocket.Framework.Entitled
import RocketSocket.Framework.Isolation
import RocketSocket.Model.Change
import RocketSocket.Realtime.Client

/-!
# Handlers that are declared

Functions under `#[event(..)]` are registered as handlers, and the events of the client are
dispatched to them.  A handler that is called takes its parameters from the event first, with the
extractors of `framework.rs`: its body runs just if every parameter could be taken.

The bodies are the application's, and so are the extractors it writes.  The text of the error
that reports a parameter is left out.

## Main definitions

* `EventMacro.Admits` — a message is what the arguments of an attribute ask for.
* `View` — what the framework reads of the documents of an event.
* `Extractor.fromEvent`, `extract` — the parameters of a body.
* `Host`, `Host.step` — a framework with the handlers that were declared.

## Main results

* `EventMacro.localVerdict_declared` — the filters declared let through what is asked for.
* `Host.ran_declared` — **a body that runs on a message was declared to**, and its author was
  granted what the attribute requires.
* `Host.bodies_declared` — **exactly the bodies whose filters pass and whose parameters are there
  run**, once and in order.
-/

namespace RocketSocket

open Machine

/-! ### What is asked for -/

namespace EventMacro

/-- The message is what the arguments ask for, where the bot takes itself for `me`. -/
structure Admits (args : List Item) (message : StreamMessage) (room : RoomId)
    (me : Option UserId) : Prop where
  others : Writes args .allowSelf ∨ me ≠ some message.u
  ordinary : Writes args .allowSystem ∨ message.t = none
  fresh : Writes args .allowEdits ∨ message.editedAt = none
  starts : ∀ text ∈ (declared args).textPrefix, message.msg.startsWith text = true
  here : ∀ id ∈ (declared args).room, room.text = id
  mentioned : Writes args .mentionsMe →
    ∃ user ∈ me, ∃ ids ∈ message.mentions, user.text ∈ ids

variable {args : List Item} {message : StreamMessage} {room : RoomId} {me : Option UserId}

theorem ite_some_eq_none {α : Type} {c : Prop} [Decidable c] {a : α} {x : Option α} :
    (if c then some a else x) = none ↔ ¬ c ∧ x = none := by
  split <;> simp [*]

theorem not_any {α : Type} {p : α → Bool} {x : Option α} :
    ¬ x.any p = true ↔ ∀ a ∈ x, p a = false := by
  cases x <;> simp

/-- **The filters declared let through what is asked for.** -/
theorem localVerdict_declared :
    (declared args).localVerdict message room me = none ↔ Admits args message room me := by
  have hothers : ¬ (!(declared args).allowSelf && me.any (message.u = ·)) = true ↔
      Writes args .allowSelf ∨ me ≠ some message.u := by
    cases me with
    | none => simp [declared]
    | some user => simp [declared, Decidable.or_iff_not_imp_left, @eq_comm _ user]
  have hordinary : ¬ (!(declared args).allowSystem && message.isSystem) = true ↔
      Writes args .allowSystem ∨ message.t = none := by
    simp [declared, StreamMessage.isSystem, Decidable.or_iff_not_imp_left]
  have hfresh : ¬ (!(declared args).allowEdits && message.isEdited) = true ↔
      Writes args .allowEdits ∨ message.editedAt = none := by
    simp [declared, StreamMessage.isEdited, Decidable.or_iff_not_imp_left]
  have hmentioned : ¬ ((declared args).mentionsMe && !me.any fun me =>
      message.mentions.any (·.contains me.text)) = true ↔ (Writes args .mentionsMe →
        ∃ user ∈ me, ∃ ids ∈ message.mentions, user.text ∈ ids) := by
    simp [declared, Option.any_eq_true]
  simp only [Filters.localVerdict, ite_some_eq_none, and_true, hothers, hordinary, hfresh,
    hmentioned, not_any, Bool.not_eq_false', decide_eq_false_iff_not, ne_eq, not_not]
  constructor
  · rintro ⟨h₁, h₂, h₃, h₄, h₅, h₆⟩
    exact ⟨h₁, h₂, h₃, h₄, h₅, h₆⟩
  · exact fun h => ⟨h.others, h.ordinary, h.fresh, h.starts, h.here, h.mentioned⟩

end EventMacro

/-! ### What arrives -/

/-- What the framework reads of the documents of an event. -/
structure View (P : Events.Payloads) where
  message : P.Message → StreamMessage
  /-- Whether the bot takes part in the room. -/
  participant : P.MyMessageMeta → Option Bool
  roleChange : P.RoleChange → RoleChange

variable {P : Events.Payloads} {δ β υ : Type}

/-- What the framework tells apart. -/
def View.stream (view : View P) : Events.StreamEvent P → StreamEvent
  | .myMessage message _ => .myMessage (view.message message)
  | .roomMessage room message => .roomMessage room (view.message message)
  | .rolesChanged change => .rolesChanged (view.roleChange change)
  | _ => .other

/-- The event, its stream event decoded. -/
def View.decoded (view : View P) : ClientEvent → DecodedEvent
  | .stream key args => .stream (view.stream (Events.decode key.stream key.event args))
  | .resubscribed epoch restored => .resubscribed epoch restored
  | .connection event => .connection event

/-! ### Parameters -/

/-- Why a body does not run. -/
inductive Extract where
  /-- The event is not the one the handler declared. -/
  | skip
  | failed (reason : String)
  deriving DecidableEq, Repr

/-- What every handler is handed: the bot's own data, and the bot. -/
structure Context (δ β : Type) where
  data : δ
  bot : β

/-- What a parameter is given. -/
inductive Given (P : Events.Payloads) (δ β υ : Type) where
  | context (context : Context δ β)
  | state (data : δ)
  | stream (event : Events.StreamEvent P)
  | messageCreate (message : P.Message) (participant : Option Bool)
  | messageDeleted (room : RoomId) (message : MessageId)
  | other (value : υ)

/-- The implementations of `FromEvent`, and those of the application. -/
inductive Extractor (δ β υ : Type) where
  | context
  | state
  | stream
  | messageCreate
  | messageDeleted
  | other (fromEvent : ClientEvent → Context δ β → Except Extract υ)

/-- The decoded event of a stream. -/
def ClientEvent.streamEvent (P : Events.Payloads) :
    ClientEvent → Except Extract (Events.StreamEvent P)
  | .stream key args => .ok (Events.decode key.stream key.event args)
  | _ => .error .skip

/-- `FromEvent::from_event`. -/
def Extractor.fromEvent (view : View P) (event : ClientEvent) (context : Context δ β) :
    Extractor δ β υ → Except Extract (Given P δ β υ)
  | .context => .ok (.context context)
  | .state => .ok (.state context.data)
  | .stream => (event.streamEvent P).map .stream
  | .messageCreate => do
    match ← event.streamEvent P with
    | .myMessage message metadata => .ok (.messageCreate message (view.participant metadata))
    | .roomMessage _ message => .ok (.messageCreate message none)
    | _ => .error .skip
  | .messageDeleted => do
    match ← event.streamEvent P with
    | .messageDeleted room message => .ok (.messageDeleted room message)
    | _ => .error .skip
  | .other fromEvent => (fromEvent event context).map .other

/-- `HandlerArgs::extract`: every parameter, or the first that could not be taken. -/
def extract (view : View P) (event : ClientEvent) (context : Context δ β)
    (parameters : List (EventMacro.Parameter (Extractor δ β υ))) :
    Except Extract (List (Given P δ β υ)) :=
  parameters.mapM fun parameter => parameter.extractor.fromEvent view event context

/-- How the future of a handler begins. -/
inductive Start (P : Events.Payloads) (δ β υ : Type) where
  | skipped
  /-- The handler fails, for this reason. -/
  | failed (reason : Extract)
  | runs (args : List (Given P δ β υ))

/-- What follows from the parameters. -/
def Start.ofExtract : Except Extract (List (Given P δ β υ)) → Start P δ β υ
  | .ok args => .runs args
  | .error .skip => .skipped
  | .error reason => .failed reason

/-- What the body runs with. -/
def Start.args : Start P δ β υ → Option (List (Given P δ β υ))
  | .runs args => some args
  | _ => none

/-- How a handler may end that began so: a body may do anything. -/
def Start.mayEnd : Start P δ β υ → HandlerOutcome → Bool
  | .skipped, outcome => outcome = .ok
  | .failed _, outcome => outcome = .error
  | .runs _, _ => true

/-- The handler that is registered. -/
def EventMacro.Expansion.handler (expansion : EventMacro.Expansion (Extractor δ β υ)) : Handler :=
  { name := expansion.name, filters := EventMacro.build expansion.filters }

/-! ### The framework with its handlers -/

/-- A framework with the handlers that were declared. -/
structure Host (δ β υ : Type) where
  expansions : List (EventMacro.Expansion (Extractor δ β υ))
  context : Context δ β
  framework : Framework
  /-- The event of each call of `dispatch`. -/
  arrived : List ClientEvent := []

/-- Who moves. -/
inductive HostInput where
  | dispatch (event : ClientEvent)
  /-- The handler that a call of `dispatch` awaits ends. -/
  | finish (i : ℕ) (outcome : HandlerOutcome)
  | other (input : DispatchInput)

/-- What a run shows. -/
inductive HostNote (P : Events.Payloads) (δ β υ : Type) where
  /-- The body of handler number `j` runs on the event of call number `i`. -/
  | ran (i j : ℕ) (args : List (Given P δ β υ))
  | other (note : HandlerNote)

/-- A call of `dispatch` begins. -/
def DispatchInput.begins : DispatchInput → Bool
  | .dispatch _ => true
  | _ => false

/-- The note of a step. -/
def HandlerNote.other? : HandlerNote → Option DispatchNote
  | .other note => some note
  | _ => none

/-- A call of `dispatch` begins. -/
def HandlerInput.begins : HandlerInput → Bool
  | .other input => input.begins
  | .finish .. => false

/-- The body that ran on the event of call number `i`, and with what. -/
def HostNote.ranOn (i : ℕ) : HostNote P δ β υ → Option (ℕ × List (Given P δ β υ))
  | .ran k j args => if k = i then some (j, args) else none
  | .other _ => none

/-- The note of the framework. -/
def HostNote.other? : HostNote P δ β υ → Option HandlerNote
  | .ran .. => none
  | .other note => some note

namespace Host

/-- The handlers are registered. -/
def init (expansions : List (EventMacro.Expansion (Extractor δ β υ))) (context : Context δ β)
    (config : RoleCacheConfig) (credentials : Option UserId) : Host δ β υ where
  expansions := expansions
  context := context
  framework := .init (expansions.map (·.handler)) config credentials

variable (view : View P) (host : Host δ β υ)

/-- `Handler::call`: handler number `j` is called on the event of call number `i`. -/
def start (i j : ℕ) : Option (Start P δ β υ) := do
  let expansion ← host.expansions[j]?
  let event ← host.arrived[i]?
  return .ofExtract (extract view event host.context expansion.parameters)

/-- What its body is given, if it runs. -/
def args (i j : ℕ) : Option (List (Given P δ β υ)) := (host.start view i j).bind Start.args

/-- What a note of the framework shows: where a handler is called its body may run. -/
def shows : HandlerNote → List (HostNote P δ β υ)
  | .other (.called i j) =>
    .other (.other (.called i j)) :: ((host.args view i j).map (.ran i j)).toList
  | note => [.other note]

/-- One step. -/
def step : HostInput → Option (Host δ β υ × List (HostNote P δ β υ))
  | .dispatch event => do
    let (framework, notes) ← host.framework.serve (.other (.dispatch (view.decoded event)))
    return ({ host with framework := framework, arrived := host.arrived ++ [event] },
      notes.flatMap (host.shows view))
  | .finish i outcome => do
    let dispatch ← host.framework.dispatches[i]?
    let j ← dispatch.phase.handler
    let start ← host.start view i j
    guard (start.mayEnd outcome)
    let (framework, notes) ← host.framework.serve (.finish i outcome)
    return ({ host with framework := framework }, notes.flatMap (host.shows view))
  | .other input => do
    guard (!input.begins)
    let (framework, notes) ← host.framework.serve (.other input)
    return ({ host with framework := framework }, notes.flatMap (host.shows view))

/-! ### The inversion of a step -/

end Host

namespace Framework

variable {f f' : Framework} {i j : ℕ} {d : Dispatch} {input : DispatchInput}

@[simp] theorem length_setPhase (phase : DispatchPhase) :
    (f.setPhase i d phase).dispatches.length = f.dispatches.length := List.length_set ..

theorem length_filter (filters : Filters) (message : StreamMessage) (room : RoomId)
    (me : Option UserId) :
    (f.filter i j d filters message room me).1.dispatches.length = f.dispatches.length := by
  unfold filter
  split
  · exact length_setPhase _
  · exact length_setPhase (f := { f with roles := _ }) _

theorem length_conclude (granted : Bool) :
    (f.conclude i j d granted).1.dispatches.length = f.dispatches.length := by
  unfold conclude
  split <;> exact length_setPhase _

theorem length_offer {notes : List DispatchNote} (h : f.offer i j d = some (f', notes)) :
    f'.dispatches.length = f.dispatches.length := by
  unfold offer at h
  split at h
  · obtain ⟨rfl, -⟩ := Prod.mk.inj (Option.some.inj h)
    exact length_setPhase _
  · next handler _ =>
    split at h
    · obtain ⟨rfl, -⟩ := Prod.mk.inj (Option.some.inj h)
      exact length_setPhase _
    · next message room _ =>
      split at h
      · next me _ =>
        have hlength := length_filter (f := f) (i := i) (j := j) (d := d) handler.filters
          message room me
        rwa [Option.some.inj h] at hlength
      · split_ifs at h
        obtain ⟨rfl, -⟩ := Prod.mk.inj (Option.some.inj h)
        exact length_setPhase _

theorem length_advance {notes : List DispatchNote} (h : f.advance i d = some (f', notes)) :
    f'.dispatches.length = f.dispatches.length := by
  unfold advance at h
  split at h
  · split_ifs at h
    obtain ⟨rfl, -⟩ := Prod.mk.inj (Option.some.inj h)
    exact length_setPhase _
  · exact length_offer h
  · obtain ⟨rfl, -⟩ := Prod.mk.inj (Option.some.inj h)
    exact length_setPhase _
  · obtain ⟨rfl, -⟩ := Prod.mk.inj (Option.some.inj h)
    exact length_setPhase _
  · next j _ _ =>
    obtain ⟨granted, -, h⟩ := Option.map_eq_some_iff.mp h
    have hlength := length_conclude (f := f) (i := i) (j := j) (d := d) granted
    rwa [h] at hlength
  · obtain ⟨rfl, -⟩ := Prod.mk.inj (Option.some.inj h)
    exact length_setPhase _
  · simp at h
  · simp at h

/-- Only where a call begins is there one more. -/
theorem length_step {notes : List DispatchNote} (hbegins : input.begins = false)
    (h : f.step input = some (f', notes)) : f'.dispatches.length = f.dispatches.length := by
  cases input with
  | dispatch event => simp [DispatchInput.begins] at hbegins
  | advance i =>
    obtain ⟨d, -, h⟩ := Option.bind_eq_some_iff.mp h
    exact length_advance h
  | cancel i =>
    simp only [step, Option.bind_eq_bind, Option.bind_eq_some_iff, Option.pure_def,
      Option.some.injEq, Prod.mk.injEq] at h
    obtain ⟨d, -, -, -, rfl, -⟩ := h
    exact length_setPhase (f := { f with roles := _ }) _
  | setCredentials user =>
    obtain ⟨rfl, -⟩ := Prod.mk.inj (Option.some.inj h)
    rfl
  | roles input =>
    simp only [step, Option.bind_eq_bind, Option.bind_eq_some_iff, Option.pure_def,
      Option.some.injEq, Prod.exists, Prod.mk.injEq] at h
    obtain ⟨-, -, roles, notes, -, rfl, -⟩ := h
    rfl

theorem other?_other (note : DispatchNote) : (HandlerNote.other note).other? = some note := rfl

theorem other?_filteredNotes : (f.filteredNotes input).filterMap HandlerNote.other? = [] := by
  unfold filteredNotes
  generalize input.advanced = advanced
  rcases advanced with - | i
  · rfl
  · rw [Option.bind_some]
    cases f.dispatches[i]?.bind f.filtered <;> rfl

/-- **A step in which handlers end is a step.** -/
theorem step_of_serve {served : HandlerInput} {notes : List HandlerNote}
    (hs : f.serve served = some (f', notes)) :
    ∃ input notes', f.step input = some (f', notes') ∧
      notes.filterMap HandlerNote.other? = notes' ∧ input.begins = served.begins := by
  cases served with
  | finish i outcome =>
    simp only [serve, Option.bind_eq_bind, Option.bind_eq_some_iff, Option.pure_def,
      Option.some.injEq, Prod.exists, Prod.mk.injEq] at hs
    obtain ⟨d, -, j, -, f'', notes', hstep, rfl, rfl⟩ := hs
    refine ⟨_, notes', hstep, ?_, ?_⟩
    · exact filterMap_map_cancel other?_other notes'
    · split <;> rfl
  | other input =>
    simp only [serve, Option.bind_eq_bind, Option.bind_eq_some_iff, Option.guard_eq_some',
      Option.pure_def, Option.some.injEq, Prod.exists, Prod.mk.injEq] at hs
    obtain ⟨-, -, f'', notes', hstep, rfl, rfl⟩ := hs
    refine ⟨input, notes', hstep, ?_, rfl⟩
    rw [List.filterMap_append, other?_filteredNotes, filterMap_map_cancel other?_other,
      List.nil_append]

/-- Where no handler ends none is said to. -/
theorem not_finished_other {notes : List HandlerNote} {outcome : HandlerOutcome}
    (hs : f.serve (.other input) = some (f', notes)) : .finished i j outcome ∉ notes := by
  simp only [serve, Option.bind_eq_bind, Option.bind_eq_some_iff, Option.guard_eq_some',
    Option.pure_def, Option.some.injEq, Prod.exists, Prod.mk.injEq] at hs
  obtain ⟨-, -, f'', notes', -, rfl, rfl⟩ := hs
  intro hmem
  rcases List.mem_append.mp hmem with hmem | hmem
  · unfold filteredNotes at hmem
    simp only [Option.mem_toList, Option.bind_eq_some_iff, Option.map_eq_some_iff] at hmem
    obtain ⟨k, -, d, -, p, -, heq⟩ := hmem
  · obtain ⟨note, -, heq⟩ := List.mem_map.mp hmem
    cases heq

/-- Where one ends it is the one that is awaited. -/
theorem finished_finish {notes : List HandlerNote} {k : ℕ} {outcome outcome' : HandlerOutcome}
    (hs : f.serve (.finish i outcome) = some (f', notes)) (hmem : .finished k j outcome' ∈ notes) :
    k = i ∧ f.dispatches[i]?.bind (·.phase.handler) = some j ∧ outcome' = outcome := by
  simp only [serve, Option.bind_eq_bind, Option.bind_eq_some_iff, Option.pure_def,
    Option.some.injEq, Prod.exists, Prod.mk.injEq] at hs
  obtain ⟨d, hi, l, hl, f'', notes', -, rfl, rfl⟩ := hs
  obtain ⟨rfl, rfl, rfl⟩ : k = i ∧ j = l ∧ outcome' = outcome := by simpa using hmem
  exact ⟨rfl, by rw [hi, Option.bind_some, hl], rfl⟩

/-- A call begins. -/
theorem serve_dispatch {event : DecodedEvent} {notes : List HandlerNote}
    (hs : f.serve (.other (.dispatch event)) = some (f', notes)) :
    f' = (f.beginDispatch event).1 ∧ ∀ i, callsOf i notes = [] := by
  simp only [serve, Option.bind_eq_bind, Option.bind_eq_some_iff, Option.guard_eq_some',
    Option.pure_def, Option.some.injEq, Prod.exists, Prod.mk.injEq] at hs
  obtain ⟨-, -, f'', notes', hstep, rfl, rfl⟩ := hs
  obtain ⟨rfl, rfl⟩ := Prod.mk.inj (Option.some.inj hstep)
  exact ⟨rfl, fun i => rfl⟩

end Framework

namespace Host

variable {view : View P} {host host' : Host δ β υ} {h o : List (HostNote P δ β υ)}
  {notes : List HandlerNote} {input : HostInput} {i j : ℕ}

/-- A handler ends as what its parameters begin allows. -/
def EndsWell (view : View P) (host : Host δ β υ) (notes : List HandlerNote) : Prop :=
  ∀ i j outcome, .finished i j outcome ∈ notes →
    ∃ start, host.start view i j = some start ∧ start.mayEnd outcome = true

theorem serve_of_step (hs : host.step view input = some (host', o)) :
    ∃ served framework notes, host.framework.serve served = some (framework, notes) ∧
      o = notes.flatMap (host.shows view) ∧ EndsWell view host notes ∧
      ((∃ event, served = .other (.dispatch (view.decoded event)) ∧
          host' = { host with framework := framework, arrived := host.arrived ++ [event] }) ∨
        served.begins = false ∧ host' = { host with framework := framework }) := by
  cases input with
  | dispatch event =>
    simp only [step, Option.bind_eq_bind, Option.bind_eq_some_iff, Option.pure_def,
      Option.some.injEq, Prod.exists, Prod.mk.injEq] at hs
    obtain ⟨framework, notes, hserve, rfl, rfl⟩ := hs
    refine ⟨_, framework, notes, hserve, rfl, fun i j outcome hmem => ?_, .inl ⟨event, rfl, rfl⟩⟩
    -- Only `finish` shows that a handler has ended.
    exact absurd hmem (Framework.not_finished_other hserve)
  | finish i outcome =>
    simp only [step, Option.bind_eq_bind, Option.bind_eq_some_iff, Option.guard_eq_some',
      Option.pure_def, Option.some.injEq, Prod.exists, Prod.mk.injEq] at hs
    obtain ⟨dispatch, hi, j, hj, start, hstart, -, hends, framework, notes, hserve, rfl, rfl⟩ := hs
    refine ⟨_, framework, notes, hserve, rfl, fun k l outcome' hmem => ?_, .inr ⟨rfl, rfl⟩⟩
    -- The end that is shown is that of this call, which its body allows.
    obtain ⟨rfl, hl, rfl⟩ := Framework.finished_finish hserve hmem
    obtain rfl : j = l := by simpa [hi, hj] using hl
    exact ⟨start, hstart, hends⟩
  | other input =>
    simp only [step, Option.bind_eq_bind, Option.bind_eq_some_iff, Option.guard_eq_some',
      Option.pure_def, Option.some.injEq, Prod.exists, Prod.mk.injEq] at hs
    obtain ⟨-, hbegins, framework, notes, hserve, rfl, rfl⟩ := hs
    refine ⟨_, framework, notes, hserve, rfl, fun i j outcome hmem => ?_, .inr ⟨?_, rfl⟩⟩
    · exact absurd hmem (Framework.not_finished_other hserve)
    · simpa [HandlerInput.begins] using hbegins

/-- What is shown of a step of the framework is that step, -/
theorem other?_shows : (notes.flatMap (host.shows view)).filterMap HostNote.other? = notes := by
  induction notes with
  | nil => rfl
  | cons note notes ih =>
    rw [List.flatMap_cons, List.filterMap_append, ih]
    have hnote : (host.shows view note).filterMap HostNote.other? = [note] := by
      unfold shows
      split
      · next k l =>
        cases host.args view k l <;> rfl
      · rfl
    rw [hnote, List.singleton_append]

/-- and the bodies that run are those of the handlers that are called. -/
theorem ranOn_shows : (notes.flatMap (host.shows view)).filterMap (HostNote.ranOn i) =
    (Framework.callsOf i notes).filterMap fun j => (host.args view i j).map (j, ·) := by
  induction notes with
  | nil => rfl
  | cons note notes ih =>
    rw [List.flatMap_cons, List.filterMap_append, ih, Framework.callsOf_cons,
      List.filterMap_append]
    congr 1
    unfold shows
    split
    · next k l =>
      by_cases hk : k = i
      · subst hk
        cases hargs : host.args view k l <;>
          simp [HostNote.ranOn, HandlerNote.calledOn, hargs, List.filterMap_cons]
      · cases host.args view k l <;> simp [HostNote.ranOn, HandlerNote.calledOn, hk]
    · next hcalled =>
      have hnone : note.calledOn i = none := by
        unfold HandlerNote.calledOn
        split
        · next k l => exact absurd rfl (hcalled k l)
        · rfl
      rw [hnone]
      rfl

/-- How a handler began does not change when more events arrive. -/
theorem start_snoc {framework : Framework} {event : ClientEvent} {start : Start P δ β υ}
    (hstart : host.start view i j = some start) :
    ({ host with framework := framework, arrived := host.arrived ++ [event] } :
      Host δ β υ).start view i j = some start := by
  simp only [Host.start, Option.bind_eq_bind, Option.bind_eq_some_iff, Option.pure_def,
    Option.some.injEq] at hstart ⊢
  obtain ⟨expansion, hexpansion, event', hevent, rfl⟩ := hstart
  have hlt := (List.getElem?_eq_some_iff.mp hevent).1
  exact ⟨expansion, hexpansion, event', (List.getElem?_append_left hlt).trans hevent, rfl⟩

/-- **The invariant.** -/
structure Hosts (view : View P) (h : List (HostNote P δ β υ)) (host : Host δ β υ) : Prop where
  length : host.framework.dispatches.length = host.arrived.length
  events : ∀ (i : ℕ) (d : Dispatch), host.framework.dispatches[i]? = some d →
    host.arrived[i]?.map view.decoded = some d.event
  ran : ∀ i, h.filterMap (HostNote.ranOn i) =
    (Framework.callsOf i (h.filterMap HostNote.other?)).filterMap fun j =>
      (host.args view i j).map (j, ·)
  ended : EndsWell view host (h.filterMap HostNote.other?)

variable {expansions : List (EventMacro.Expansion (Extractor δ β υ))} {context : Context δ β}
  {config : RoleCacheConfig} {credentials : Option UserId} {handlers : List Handler}

/-- A step keeps what the host is made of. -/
theorem frame_of_step (hs : host.step view input = some (host', o)) :
    host'.expansions = host.expansions ∧ host'.context = host.context := by
  obtain ⟨served, framework, notes, -, -, -, ⟨event, -, rfl⟩ | ⟨-, rfl⟩⟩ := serve_of_step hs
  · exact ⟨rfl, rfl⟩
  · exact ⟨rfl, rfl⟩

/-- **A run of the host is one of its framework.** -/
theorem framework_of_run
    (hrun : Run (step view) (init expansions context config credentials) h host) :
    Run Framework.serve (.init (expansions.map (·.handler)) config credentials)
      (h.filterMap HostNote.other?) host.framework := by
  refine hrun.simulate (π := Host.framework) fun hs => .inl ?_
  obtain ⟨served, framework, notes, hserve, rfl, -, hhost⟩ := serve_of_step hs
  refine ⟨served, ?_⟩
  rw [other?_shows, hserve]
  rcases hhost with ⟨event, -, rfl⟩ | ⟨-, rfl⟩ <;> rfl

/-- **A step keeps the invariant.** -/
theorem Hosts.step (hh : Hosts view h host)
    (hserved : Framework.Served handlers (h.filterMap HostNote.other?) host.framework)
    (hs : host.step view input = some (host', o)) : Hosts view (h ++ o) host' := by
  obtain ⟨served, framework, notes, hserve, rfl, hends, hhost⟩ := serve_of_step hs
  have hended : EndsWell view host ((h ++ notes.flatMap (host.shows view)).filterMap
      HostNote.other?) := by
    intro i j outcome hmem
    rw [List.filterMap_append, other?_shows] at hmem
    exact (List.mem_append.mp hmem).elim (hh.ended i j outcome) (hends i j outcome)
  have hran : ∀ i, (h ++ notes.flatMap (host.shows view)).filterMap (HostNote.ranOn i) =
      (Framework.callsOf i
        ((h ++ notes.flatMap (host.shows view)).filterMap HostNote.other?)).filterMap
        fun j => (host.args view i j).map (j, ·) := fun i => by
    rw [List.filterMap_append, hh.ran, ranOn_shows, List.filterMap_append, other?_shows,
      Framework.callsOf_append, List.filterMap_append]
  rcases hhost with ⟨event, rfl, rfl⟩ | ⟨hbegins, rfl⟩
  · obtain ⟨rfl, hcalls⟩ := Framework.serve_dispatch hserve
    refine ⟨?_, fun i d hi => ?_, fun i => ?_, fun i j outcome hmem => ?_⟩
    · show (host.framework.dispatches ++ [_]).length = (host.arrived ++ [event]).length
      rw [List.length_append, List.length_append, hh.length]
      rfl
    · change (host.framework.dispatches ++ [_])[i]? = some d at hi
      show (host.arrived ++ [event])[i]?.map view.decoded = _
      rcases getElem?_of_concat hi with ⟨rfl, rfl⟩ | hi
      · rw [hh.length, List.getElem?_concat_length]
        rfl
      · have hlt := (List.getElem?_eq_some_iff.mp hi).1
        rw [hh.length] at hlt
        rw [List.getElem?_append_left hlt]
        exact hh.events i d hi
    · rw [hran]
      rcases Nat.lt_or_ge i host.arrived.length with hlt | hge
      · refine List.filterMap_congr fun j _ => ?_
        show _ = (({ host with framework := _, arrived := host.arrived ++ [event] } :
          Host δ β υ).args view i j).map _
        simp only [args, start, List.getElem?_append_left hlt]
      · -- nothing is called on an event that is not there
        have hquiet : Framework.callsOf i (h.filterMap HostNote.other?) = [] :=
          (hserved.unborn i (hh.length ▸ hge)).calls
        rw [List.filterMap_append, other?_shows, Framework.callsOf_append, hquiet, hcalls]
        rfl
    · obtain ⟨start, hstart, hmay⟩ := hended i j outcome hmem
      exact ⟨start, start_snoc hstart, hmay⟩
  · obtain ⟨served', notes', hstep, -, heq⟩ := Framework.step_of_serve hserve
    have hlength := Framework.length_step (heq.trans hbegins) hstep
    refine ⟨hlength.trans hh.length, fun i d hi => ?_, hran, hended⟩
    have hlt := (List.getElem?_eq_some_iff.mp hi).1
    rw [hlength] at hlt
    obtain ⟨d', hi', hevent⟩ := Framework.events_move (Framework.moves_of_step hstep)
      (List.getElem?_eq_getElem hlt)
    obtain rfl : d = d' := Option.some.inj (hi.symm.trans hi')
    rw [hevent]
    exact hh.events i _ (List.getElem?_eq_getElem hlt)

/-- Every run keeps the invariant. -/
theorem hosts_of_run
    (hrun : Run (Host.step view) (init expansions context config credentials) h host) :
    Hosts view h host := by
  refine hrun.invariant_of (J := fun h host => Framework.Served (expansions.map (·.handler))
    (h.filterMap HostNote.other?) host.framework) (fun hrun => ?_) ?_ fun hserved hh hs =>
      hh.step hserved hs
  · exact Framework.served_of_run (framework_of_run hrun)
  · exact ⟨rfl, fun i d hi => by simp [init, Framework.init] at hi, fun i => rfl,
      fun i j outcome hmem => by simp at hmem⟩

/-! ### Bodies that run -/

variable {declarations : List (EventMacro.Declaration (Extractor δ β υ))}
  {args : List (Given P δ β υ)}

/-- The host keeps its handlers and its context. -/
theorem frame_of_run
    (hrun : Run (step view) (init expansions context config credentials) h host) :
    host.expansions = expansions ∧ host.context = context := by
  refine hrun.invariant (I := fun _ host => host.expansions = expansions ∧ host.context = context)
    ⟨rfl, rfl⟩ fun hh hs => ?_
  exact ⟨(frame_of_step hs).1.trans hh.1, (frame_of_step hs).2.trans hh.2⟩

/-- What a body is given is taken from its event. -/
theorem args_eq_some : host.args view i j = some args ↔ ∃ expansion event,
    host.expansions[j]? = some expansion ∧ host.arrived[i]? = some event ∧
      extract view event host.context expansion.parameters = .ok args := by
  have hrun (x : Except Extract (List (Given P δ β υ))) :
      (Start.ofExtract x).args = some args ↔ x = .ok args := by
    rcases x with (_ | _) | args' <;> simp [Start.ofExtract, Start.args]
  simp only [Host.args, start, Option.bind_eq_bind, Option.pure_def, Option.bind_eq_some_iff,
    Option.some.injEq]
  constructor
  · rintro ⟨start, ⟨expansion, hexpansion, event, hevent, rfl⟩, hargs⟩
    exact ⟨expansion, event, hexpansion, hevent, (hrun _).mp hargs⟩
  · rintro ⟨expansion, event, hexpansion, hevent, hargs⟩
    exact ⟨_, ⟨expansion, hexpansion, event, hevent, rfl⟩, (hrun _).mpr hargs⟩

theorem mem_ranOn : (j, args) ∈ h.filterMap (HostNote.ranOn i) ↔ .ran i j args ∈ h := by
  rw [List.mem_filterMap]
  constructor
  · rintro ⟨note, hnote, hran⟩
    cases note with
    | ran k l args' =>
      obtain ⟨rfl, heq⟩ := Option.ite_none_right_eq_some.mp hran
      obtain ⟨rfl, rfl⟩ := Prod.mk.inj (Option.some.inj heq)
      exact hnote
    | other note => simp [HostNote.ranOn] at hran
  · exact fun hran => ⟨_, hran, by simp [HostNote.ranOn]⟩

/-- A body that ran is one of a handler that was called. -/
theorem Hosts.called (hh : Hosts view h host) (hran : .ran i j args ∈ h) :
    .other (.other (.called i j)) ∈ h ∧ host.args view i j = some args := by
  have hmem := mem_ranOn.mpr hran
  rw [hh.ran] at hmem
  obtain ⟨k, hk, hmap⟩ := List.mem_filterMap.mp hmem
  obtain ⟨args', hargs, heq⟩ := Option.map_eq_some_iff.mp hmap
  obtain ⟨rfl, rfl⟩ := Prod.mk.inj heq
  refine ⟨?_, hargs⟩
  obtain ⟨note, hnote, hcalled⟩ := List.mem_filterMap.mp hk
  obtain ⟨note', hnote', hother⟩ := List.mem_filterMap.mp hnote
  unfold HandlerNote.calledOn at hcalled
  split at hcalled
  · split_ifs at hcalled with hi
    obtain rfl := Option.some.inj hcalled
    subst hi
    cases note' with
    | ran => simp [HostNote.other?] at hother
    | other note' =>
      obtain rfl := Option.some.inj hother
      exact hnote'
  · simp at hcalled

/-- A call of `dispatch` is about its event. -/
theorem Hosts.event_eq (hh : Hosts view h host) {d : Dispatch} {event : ClientEvent}
    (hi : host.framework.dispatches[i]? = some d) (hevent : host.arrived[i]? = some event) :
    d.event = view.decoded event := by
  have heq := hh.events i d hi
  rw [hevent] at heq
  exact (Option.some.inj heq).symm

/-- A run of the host is one of the calls of `dispatch`. -/
theorem dispatches_of_run
    (hrun : Run (step view) (init expansions context config credentials) h host) :
    Run Framework.step (.init (expansions.map (·.handler)) config credentials)
      ((h.filterMap HostNote.other?).filterMap HandlerNote.other?) host.framework := by
  refine (framework_of_run hrun).simulate (π := id) fun hs => .inl ?_
  obtain ⟨input, notes, hstep, rfl, -⟩ := Framework.step_of_serve hs
  exact ⟨input, hstep⟩

theorem handlerNote_other?_eq_some (x : HandlerNote) (note : DispatchNote) :
    x.other? = some note ↔ x = .other note := by
  cases x <;> simp [HandlerNote.other?]

theorem hostNote_other?_eq_some (x : HostNote P δ β υ) (note : HandlerNote) :
    x.other? = some note ↔ x = .other note := by
  cases x <;> simp [HostNote.other?]

/-- What the run of the calls of `dispatch` shows is what the run shows. -/
theorem mem_dispatches {note : DispatchNote} :
    note ∈ (h.filterMap HostNote.other?).filterMap HandlerNote.other? ↔
      .other (.other note) ∈ h := by
  rw [mem_filterMap_iff handlerNote_other?_eq_some, mem_filterMap_iff hostNote_other?_eq_some]

/-- A message that a parameter is given is that of the event. -/
theorem message_of_fromEvent {event : ClientEvent} {extractor : Extractor δ β υ}
    {message : P.Message} {participant : Option Bool}
    (hextract : extractor.fromEvent view event context =
      .ok (.messageCreate message participant)) :
    ∃ room, (view.decoded event).message = some (view.message message, room) := by
  cases extractor with
  | messageCreate =>
    cases event with
    | stream key args =>
      simp only [Extractor.fromEvent, ClientEvent.streamEvent, bind_eq_ok,
        Except.ok.injEq, exists_eq_left'] at hextract
      -- Of the streams only a message event decodes, and the one it carries is given.
      unfold View.decoded
      split at hextract <;> simp_all [View.stream, DecodedEvent.message]
    | resubscribed | connection => cases hextract
  | messageDeleted =>
    cases event with
    | stream key args =>
      simp only [Extractor.fromEvent, ClientEvent.streamEvent, bind_eq_ok,
        Except.ok.injEq, exists_eq_left'] at hextract
      split at hextract <;> simp at hextract
    | resubscribed | connection => cases hextract
  | stream => cases event <;> cases hextract
  | context => cases hextract
  | state => cases hextract
  | other fromEvent =>
    change Except.map Given.other (fromEvent event context) = _ at hextract
    cases hvalue : fromEvent event context <;> rw [hvalue] at hextract <;> cases hextract

/-- The handler of a declaration is one behind the filters declared. -/
theorem exists_declaration (hdeclared : declarations.mapM EventMacro.event = .ok expansions)
    {expansion : EventMacro.Expansion (Extractor δ β υ)} (hj : expansions[j]? = some expansion) :
    ∃ declaration, declarations[j]? = some declaration ∧
      declaration.function.inputs = expansion.parameters.map some ∧
      expansion.handler.filters = EventMacro.declared declaration.args := by
  obtain ⟨declaration, hdeclaration, hevent⟩ :=
    exists_of_forall₂ (mapM_eq_ok.mp hdeclared) hj
  obtain ⟨-, hfunction, -, -, hfilters⟩ := EventMacro.event_eq_ok.mp hevent
  refine ⟨declaration, hdeclaration, hfunction.inputs, ?_⟩
  show EventMacro.build expansion.filters = _
  have hbuild := congrArg EventMacro.build hfilters
  exact hbuild.trans EventMacro.build_render_declared

/-- **A body that runs was declared to.**  In every run, a body that runs on an event is given
the parameters its function has, each taken from the event, so that a message it is given is the
message of the event; and where the event is a message, it is what the arguments of the attribute
ask for, under an id that was read from the credentials, and the directory granted its author what
they require, in the room of the event. -/
theorem ran_declared (hdeclared : declarations.mapM EventMacro.event = .ok expansions)
    (hrun : Run (step view) (init expansions context config credentials) h host)
    (hran : .ran i j args ∈ h) :
    ∃ declaration parameters event, declarations[j]? = some declaration ∧
      declaration.function.inputs = parameters.map some ∧ host.arrived[i]? = some event ∧
      extract view event context parameters = .ok args ∧
      (∀ message participant, .messageCreate message participant ∈ args →
        ∃ room, (view.decoded event).message = some (view.message message, room)) ∧
      ∀ message room, (view.decoded event).message = some (message, room) →
        (∃ k me, .other (.other (.identified k me)) ∈ h ∧
          EventMacro.Admits declaration.args message room me) ∧
        ∃ n t, .other (.other (.role (.returned n (.verdict
          (EventMacro.declared declaration.args).authority message.u room) true t))) ∈ h := by
  have hh := hosts_of_run hrun
  obtain ⟨hcalled, hargs⟩ := hh.called hran
  obtain ⟨expansion, event, hexpansion, hevent, hextract⟩ := args_eq_some.mp hargs
  obtain ⟨hexpansions, hcontext⟩ := frame_of_run hrun
  rw [hexpansions] at hexpansion
  rw [hcontext] at hextract
  obtain ⟨declaration, hdeclaration, hinputs, hfilters⟩ := exists_declaration hdeclared hexpansion
  refine ⟨declaration, expansion.parameters, event, hdeclaration, hinputs, hevent, hextract,
    fun message participant hgiven => ?_, fun message room hmessage => ?_⟩
  · -- The parameter that was given the message is the declaration's at the same place.
    obtain ⟨n, hn⟩ := List.mem_iff_getElem?.mp hgiven
    obtain ⟨parameter, -, hparameter⟩ :=
      exists_of_forall₂ (mapM_eq_ok.mp hextract) hn
    exact message_of_fromEvent hparameter
  have hhandler : (expansions.map (·.handler))[j]? = some expansion.handler := by
    rw [List.getElem?_map, hexpansion, Option.map_some]
  have hdispatches := dispatches_of_run hrun
  have hcalled' := mem_dispatches.mpr hcalled
  constructor
  · -- The guard of the run before the call evaluated the filters of this very handler.
    obtain ⟨d, hi, hpasses⟩ := (Framework.guarded_of_run hdispatches).called i j hcalled'
    obtain ⟨handler, k, me, hhandler', hidentified, hverdict⟩ :=
      hpasses message room (hh.event_eq hi hevent ▸ hmessage)
    obtain rfl : handler = expansion.handler :=
      Option.some.inj (hhandler'.symm.trans hhandler)
    rw [hfilters] at hverdict
    exact ⟨k, me, mem_dispatches.mp hidentified, EventMacro.localVerdict_declared.mp hverdict⟩
  · -- The directory said yes to what the declared filters ask for.
    obtain ⟨d, hi, hgranted⟩ := (Framework.entitled_of_run hdispatches).called i j hcalled'
    obtain ⟨handler, n, t, hhandler', hreturned⟩ :=
      hgranted message room (hh.event_eq hi hevent ▸ hmessage)
    obtain rfl : handler = expansion.handler :=
      Option.some.inj (hhandler'.symm.trans hhandler)
    rw [hfilters] at hreturned
    exact ⟨n, t, mem_dispatches.mp hreturned⟩

/-- A handler that began ends as its parameters allow. -/
theorem mayEnd_of_finished (hh : Hosts view h host) {event : ClientEvent}
    {expansion : EventMacro.Expansion (Extractor δ β υ)} {out : HandlerOutcome}
    (hexpansion : host.expansions[j]? = some expansion) (hevent : host.arrived[i]? = some event)
    (hfinished : .other (.finished i j out) ∈ h) :
    (Start.ofExtract (extract view event host.context expansion.parameters)).mayEnd out = true := by
  have hmem : .finished i j out ∈ h.filterMap HostNote.other? :=
    List.mem_filterMap.mpr ⟨_, hfinished, rfl⟩
  obtain ⟨start, hstart, hmay⟩ := hh.ended i j out hmem
  simp only [Host.start, hexpansion, hevent, Option.bind_eq_bind, Option.bind_some,
    Option.pure_def, Option.some.injEq] at hstart
  rwa [hstart]

/-- **Exactly the bodies that pass run.**  In every run, where a call of `dispatch` returned:
the bodies that ran on its event are those of the handlers whose filters pass and whose parameters
can all be taken from the event, each once, in the order they were declared, and with these
parameters.  A handler whose filters pass but whose parameters decline the event ends without a
failure, and one that cannot take a parameter fails. -/
theorem bodies_declared (hdeclared : declarations.mapM EventMacro.event = .ok expansions)
    (hrun : Run (step view) (init expansions context config credentials) h host) {d : Dispatch}
    (hi : host.framework.dispatches[i]? = some d) (hreturned : d.phase = .returned)
    {reason : ℕ → Option Filtered} {outcome : ℕ → HandlerOutcome}
    (hagrees : Framework.Agrees (h.filterMap HostNote.other?) i reason outcome) :
    ∃ event, host.arrived[i]? = some event ∧
      h.filterMap (HostNote.ranOn i) =
        ((Framework.passing reason declarations.length).filterMap fun j =>
          expansions[j]?.bind fun expansion =>
            ((extract view event context expansion.parameters).toOption).map (j, ·)) ∧
      ∀ j ∈ Framework.passing reason declarations.length,
        ∃ expansion, expansions[j]? = some expansion ∧
          (∃ out, .other (.finished i j out) ∈ h) ∧
          ∀ out, .other (.finished i j out) ∈ h →
            (extract view event context expansion.parameters = .error .skip → out = .ok) ∧
            ∀ why, extract view event context expansion.parameters = .error (.failed why) →
              out = .error := by
  have hh := hosts_of_run hrun
  obtain ⟨hexpansions, hcontext⟩ := frame_of_run hrun
  have hlength : declarations.length = expansions.length :=
    (mapM_eq_ok.mp hdeclared).length_eq
  obtain ⟨event, hevent, -⟩ := Option.map_eq_some_iff.mp (hh.events i d hi)
  have hstands := (Framework.served_of_run (framework_of_run hrun)).stands i d hi
  rw [hreturned, List.length_map, ← hlength] at hstands
  obtain ⟨hcalls, -⟩ := hstands.calls reason outcome hagrees
  refine ⟨event, hevent, ?_, fun j hj => ?_⟩
  · rw [hh.ran, hcalls]
    refine List.filterMap_congr fun j _ => ?_
    refine Option.ext fun p => ?_
    simp only [Option.map_eq_some_iff, args_eq_some, Option.bind_eq_some_iff, hexpansions,
      hcontext, hevent]
    constructor
    · rintro ⟨args, ⟨expansion, event', hexpansion, heq, hextract⟩, rfl⟩
      obtain rfl := Option.some.inj heq
      exact ⟨expansion, hexpansion, args, by rw [hextract]; rfl, rfl⟩
    · rintro ⟨expansion, hexpansion, args, hextract, rfl⟩
      refine ⟨args, ⟨expansion, event, hexpansion, rfl, ?_⟩, rfl⟩
      cases hx : extract view event context expansion.parameters with
      | error => simp [hx, Except.toOption] at hextract
      | ok args' =>
        rw [hx] at hextract
        exact congrArg _ (Option.some.inj hextract)
  · -- it was called, so it ended
    have hlt : j < expansions.length := hlength ▸ (Framework.mem_passing.mp hj).1
    refine ⟨expansions[j], List.getElem?_eq_getElem hlt, ?_, fun out hfinished => ?_⟩
    · obtain ⟨out, hout⟩ := hstands.ended j (hcalls ▸ hj)
      obtain ⟨note, hnote, hother⟩ := List.mem_filterMap.mp hout
      cases note with
      | ran => cases hother
      | other note =>
        obtain rfl := Option.some.inj hother
        exact ⟨out, hnote⟩
    · have hexpansion : host.expansions[j]? = some expansions[j] := by
        rw [hexpansions]
        exact List.getElem?_eq_getElem hlt
      have hmay := mayEnd_of_finished hh hexpansion hevent hfinished
      rw [hcontext] at hmay
      constructor
      · intro hskip
        rw [hskip] at hmay
        exact of_decide_eq_true hmay
      · intro why hfailed
        rw [hfailed] at hmay
        exact of_decide_eq_true hmay

/-! ### A run -/

/-- The text under a key. -/
def textOf (key : String) (value : Value) : String :=
  ((value.asMembers.bind (·.lookup key)).bind Value.asStr).getD ""

/-- Messages are read by their keys. -/
def plain : View Events.rawPayloads where
  message value := {
    rid := ⟨textOf "rid" value⟩
    u := ⟨textOf "_id" ((value.asMembers.bind (·.lookup "u")).getD .null)⟩
    msg := textOf "msg" value }
  participant value := (value.asMembers.bind (·.lookup "roomParticipant")).bind Value.asBool
  roleChange _ := { action := .added, u := none, scope := none }

/-- Admins ban. -/
def ban : EventMacro.Declaration (Extractor Unit Unit Empty) where
  args := [⟨some "prefix", .literal "!ban"⟩, ⟨some "admin", .nothing⟩]
  function := {
    name := "ban"
    isAsync := true
    isGeneric := false
    hasOutput := true
    inputs := [some ⟨⟨some "Context", some "Data"⟩, .context⟩,
      some ⟨⟨some "MessageCreate", none⟩, .messageCreate⟩] }

/-- Everybody's deletions are logged. -/
def log : EventMacro.Declaration (Extractor Unit Unit Empty) where
  args := []
  function := {
    name := "log"
    isAsync := true
    isGeneric := false
    hasOutput := true
    inputs := [some ⟨⟨some "State", some "Data"⟩, .state⟩,
      some ⟨⟨some "MessageDeleted", none⟩, .messageDeleted⟩] }

/-- What they are turned into. -/
def banAndLog : List (EventMacro.Expansion (Extractor Unit Unit Empty)) :=
  [⟨"ban", "Data", (EventMacro.Arguments.declared ban.args).render,
      [⟨⟨some "Context", some "Data"⟩, .context⟩,
        ⟨⟨some "MessageCreate", none⟩, .messageCreate⟩]⟩,
    ⟨"log", "Data", (EventMacro.Arguments.declared log.args).render,
      [⟨⟨some "State", some "Data"⟩, .state⟩,
        ⟨⟨some "MessageDeleted", none⟩, .messageDeleted⟩]⟩]

theorem banAndLog_declared : [ban, log].mapM EventMacro.event = .ok banAndLog := rfl

/-- An admin writes. -/
def adminBans : ClientEvent := .stream ⟨"room-messages", "__my_messages__"⟩
  [.object [("_id", .string "m1"), ("rid", .string "GENERAL"), ("msg", .string "!ban bob"),
    ("u", .object [("_id", .string "admin")])], .object [("roomParticipant", .bool true)]]

/-- It is offered to both handlers. -/
def bans : List HostInput :=
  [.dispatch adminBans, .other (.advance 0), .other (.advance 0), .other (.advance 0),
    .other (.advance 0), .other (.advance 0), .other (.roles (.obtain 0 0 [])),
    .other (.roles (.lock 0)),
    .other (.roles (.answer 0 (.ok [{ id := ⟨"admin"⟩, roles := [⟨"admin"⟩] }]))),
    .other (.advance 0), .finish 0 .ok, .other (.advance 0), .other (.advance 0), .finish 0 .ok,
    .other (.advance 0)]

theorem bans_enabled :
    (execute (step plain) (init banAndLog ⟨(), ()⟩ {} (some ⟨"bot"⟩)) bans).isSome := by
  decide +kernel

/-- What they lead to. -/
def banned : Host Unit Unit Empty × List (HostNote Events.rawPayloads Unit Unit Empty) :=
  (execute (step plain) (init banAndLog ⟨(), ()⟩ {} (some ⟨"bot"⟩)) bans).get bans_enabled

/-- The admin's message. -/
theorem message_banned : (banned.1.arrived[0]?.map fun event => (plain.decoded event).message) =
    some (some ({ rid := ⟨"GENERAL"⟩, u := ⟨"admin"⟩, msg := "!ban bob" }, ⟨"GENERAL"⟩)) := by
  decide +kernel

/-- The other body does not run: its message is not there. -/
theorem ranOn_banned : (banned.2.filterMap (HostNote.ranOn 0)).map Prod.fst = [0] := by
  decide +kernel

/-- The admin is heard, and was granted what the attribute requires. -/
theorem ran_declared_banned :
    ∃ n t, .other (.other (.role (.returned n (.verdict .admin ⟨"admin"⟩ ⟨"GENERAL"⟩) true t))) ∈
      banned.2 := by
  obtain ⟨⟨j, args⟩, hmem, hj⟩ := List.mem_map.mp (ranOn_banned ▸ List.mem_singleton.mpr rfl)
  obtain rfl : j = 0 := hj
  obtain ⟨declaration, parameters, event, hdeclaration, -, hevent, -, -, hmessage⟩ :=
    ran_declared banAndLog_declared (run_execute bans bans_enabled) (mem_ranOn.mp hmem)
  obtain rfl : ban = declaration := Option.some.inj hdeclaration
  obtain ⟨event', hevent', hadmin⟩ := Option.map_eq_some_iff.mp message_banned
  obtain rfl : event = event' := Option.some.inj (hevent.symm.trans hevent')
  exact (hmessage _ _ hadmin).2

/-- The filters let everybody through, and every handler ends well. -/
def allowed : HandlerNote → Bool
  | .filtered _ _ reason => reason = none
  | .finished _ _ outcome => outcome = .ok
  | .other _ => true

theorem allowed_banned : (banned.2.filterMap HostNote.other?).all allowed = true := by
  decide +kernel

theorem phase_banned :
    (banned.1.framework.dispatches[0]?.map Dispatch.phase) = some .returned := by
  decide +kernel

/-- What asks for a deletion declines the message. -/
theorem skip_banned : ∀ event ∈ banned.1.arrived[0]?, ∀ expansion ∈ banAndLog[1]?,
    extract plain event ⟨(), ()⟩ expansion.parameters = .error .skip := by
  have hdeclines : (banned.1.arrived[0]?.all fun event => banAndLog[1]?.all fun expansion =>
      Start.mayEnd (.ofExtract (extract plain event ⟨(), ()⟩ expansion.parameters)) .ok &&
        (extract plain event ⟨(), ()⟩ expansion.parameters).toOption.isNone) = true := by
    decide +kernel
  intro event hevent expansion hexpansion
  rw [Option.mem_def] at hevent hexpansion
  rw [hevent, Option.all_some, hexpansion, Option.all_some, Bool.and_eq_true] at hdeclines
  rcases hextract : extract plain event ⟨(), ()⟩ expansion.parameters with (_ | why) | args
  · rfl
  · rw [hextract] at hdeclines
    exact absurd hdeclines.1 (by simp [Start.ofExtract, Start.mayEnd])
  · rw [hextract] at hdeclines
    exact absurd hdeclines.2 (by simp [Except.toOption])

/-- Both handlers are called.  The body that asks for a deletion does not run, and its handler
ends without a failure. -/
theorem bodies_declared_banned :
    (∃ event, banned.1.arrived[0]? = some event ∧
      banned.2.filterMap (HostNote.ranOn 0) = [0].filterMap fun j =>
        banAndLog[j]?.bind fun expansion =>
          ((extract plain event ⟨(), ()⟩ expansion.parameters).toOption).map (j, ·)) ∧
      .other (.finished 0 1 .ok) ∈ banned.2 ∧ .other (.finished 0 1 .error) ∉ banned.2 := by
  obtain ⟨d, hi, hphase⟩ := Option.map_eq_some_iff.mp phase_banned
  have hagrees : Framework.Agrees (banned.2.filterMap HostNote.other?) 0 (fun _ => none)
      (fun _ => .ok) :=
    ⟨fun j reason hmem => (of_decide_eq_true (List.all_eq_true.mp allowed_banned _ hmem)).symm,
      fun j outcome hmem => (of_decide_eq_true (List.all_eq_true.mp allowed_banned _ hmem)).symm⟩
  obtain ⟨event, hevent, hran, hended⟩ :=
    bodies_declared banAndLog_declared (run_execute bans bans_enabled) hi hphase hagrees
  obtain ⟨expansion, hexpansion, ⟨out, hout⟩, hends⟩ := hended 1 (by decide)
  have hskip := skip_banned event hevent expansion hexpansion
  refine ⟨⟨event, hevent, hran.trans ?_⟩, ?_, fun herror => ?_⟩
  · show [0, 1].filterMap _ = _
    rw [List.filterMap_cons, List.filterMap_cons (l := []), hexpansion, Option.bind_some, hskip]
    rfl
  · obtain rfl := (hends out hout).1 hskip
    exact hout
  · cases (hends .error herror).1 hskip

end Host

end RocketSocket
