import RocketSocket.Lib.Ring
import RocketSocket.Realtime.Ledger
import RocketSocket.Realtime.Runner
import RocketSocket.Realtime.Subscription

/-!
# The client and its supervisor

`Client` in `client.rs`: any number of calls of `Client::subscribe`, the supervisor that
consumes the connection's events and replays the registry, the channels between them, and
the runner in its environment.  Each place where a task awaits is a state of that task, so
a run interleaves them in any order.

Left out: the decoded form of a stream event, which only the application reads, and the
replies of `Client::call`, which nothing here reads.

## Main definitions

* `Caller`, `Slots` — who waits for the runner, and the oneshots it answers.
* `SubCall`, `Call`, `Supervisor` — where a task awaits.
* `System`, `System.step` — all of it.
* `Note`, `wires` — what a run shows, and what it shows of the runner.
-/

namespace RocketSocket

open Machine

/-! ### Callers -/

/-- Who waits for the reply of a command: a call of `Client::subscribe`, a replay of the
supervisor, or a call of `Client::call`, each counted by itself. -/
inductive Caller where
  | subscribe (k : ℕ)
  | replay (n : ℕ)
  | call (j : ℕ)
  deriving DecidableEq, Repr

/-- What the runner sent on the oneshots of every caller: the id its call was registered
under, and the reply. -/
structure Slots where
  ack : Caller → Option String
  reply : Caller → Option Reply

namespace Slots

/-- Nothing was sent. -/
def empty : Slots := ⟨fun _ => none, fun _ => none⟩

/-- What an observation of the runner puts into the slots. -/
def deliver (slots : Slots) : Seen Caller → Slots
  | (_, .took command _ (some out)) => match command.ack, out.mark with
    | some c, some m => { slots with ack := Function.update slots.ack c (some m.id) }
    | _, _ => slots
  | (_, .settled _ _ (.caller c) reply) =>
    { slots with reply := Function.update slots.reply c (some reply) }
  | _ => slots

end Slots

/-- Where a call of `Connection::subscribe` awaits: in `commands.send`, for the id its call
is registered under, or for the reply. -/
inductive SubCall where
  | sending
  | registering
  | waiting (id : String)
  deriving DecidableEq, Repr

/-- How far a call of `Client::subscribe` is. -/
inductive Call where
  | subscribing (key : StreamKey) (call : SubCall)
  /-- Acknowledged; waits for the registry. -/
  | recording (key : StreamKey) (id : String)
  | returned (outcome : Except CallError StreamKey)
  /-- Its future was dropped. -/
  | dropped

/-- The call is over. -/
def Call.isOver : Call → Bool
  | .returned _ | .dropped => true
  | _ => false

/-! ### The supervisor -/

/-- An event delivered to the application. -/
inductive ClientEvent where
  | stream (key : StreamKey) (args : List Value)
  | resubscribed (epoch : Epoch) (restored : ℕ)
  | connection (event : Event)

/-- An event of the connection; the generation it was broadcast in is read by nothing. -/
abbrev Stamped := ℕ × Event

/-- What is replayed: an id, a stream key and its parameters. -/
abbrev Replayed := String × StreamKey × List Value

/-- A replay in the middle of its loop.  `index` counts the calls of
`Connection::subscribe` the supervisor makes. -/
structure Replay where
  epoch : Epoch
  generation : ℕ
  restored : ℕ
  index : ℕ
  /-- The entry that is re-issued, -/
  entry : Replayed
  /-- and those after it. -/
  rest : List Replayed

/-- Where the supervisor awaits. -/
inductive Supervisor where
  /-- The next event. -/
  | receiving
  /-- The registry, to mark everything inactive. -/
  | losing (reason : String)
  /-- The registry, to take the snapshot of a replay. -/
  | replaying (epoch : Epoch) (generation : ℕ)
  /-- The call of `Connection::subscribe` of a replay. -/
  | issuing (replay : Replay) (call : SubCall)
  /-- The registry, after that call returned an id, -/
  | rekeying (replay : Replay) (newId : String)
  /-- or failed. -/
  | removing (replay : Replay) (error : CallError)
  /-- Room in the channel to the application. -/
  | forwarding (event : ClientEvent) (terminal : Bool)
  /-- Nothing: it returned. -/
  | finished

/-- The supervisor is inside a replay. -/
def Supervisor.InReplay : Supervisor → Prop
  | .replaying .. | .issuing .. | .rekeying .. | .removing .. => True
  | _ => False

instance : (supervisor : Supervisor) → Decidable supervisor.InReplay
  | .replaying .. | .issuing .. | .rekeying .. | .removing .. => isTrue trivial
  | .receiving | .losing _ | .forwarding .. | .finished => isFalse id

/-- The replay the supervisor is in the middle of. -/
def Supervisor.replay : Supervisor → Option Replay
  | .issuing r _ | .rekeying r _ | .removing r _ => some r
  | _ => none

/-- The generation of the event the supervisor replays for. -/
def Supervisor.generation : Supervisor → Option ℕ
  | .replaying _ g => some g
  | supervisor => supervisor.replay.map Replay.generation

/-! ### Notes -/

/-- What a run shows. -/
inductive Note where
  /-- The runner showed something. -/
  | wire (x : Seen Caller)
  /-- A broadcast overwrote an event the supervisor had not read; these are left. -/
  | overwrote (lost : Stamped) (left : List Stamped)
  /-- The runner stopped, and dropped its channels. -/
  | stopped
  /-- A call of `Connection::subscribe` returned. -/
  | returned (c : Caller) (outcome : Except CallError String)
  /-- A call of `Client::subscribe` put an entry into the registry. -/
  | inserted (k : ℕ) (id : String)
  /-- The supervisor received an event. -/
  | received (event : Stamped)
  /-- A replay took its snapshot of the registry. -/
  | replayStarted (generation : ℕ) (ids : List String)
  /-- A replay began to re-issue an entry. -/
  | issued (n : ℕ) (old : String)
  /-- A replay moved an entry onto a new id. -/
  | rekeyed (n : ℕ) (old new : String)
  /-- A replay removed an entry. -/
  | removed (n : ℕ) (old : String) (error : CallError)
  /-- A replay is over. -/
  | replayed (generation : ℕ) (restored : ℕ)

/-- What a run shows of the runner. -/
def wires (h : List Note) : List (Seen Caller) :=
  h.filterMap fun
    | .wire x => some x
    | _ => none

@[simp] theorem wires_append (h o : List Note) : wires (h ++ o) = wires h ++ wires o :=
  List.filterMap_append

/-- The events the runner broadcast. -/
def emittedEvents (h : List (Seen Caller)) : List Stamped :=
  h.filterMap fun
    | (g, .emitted event) => some (g, event)
    | _ => none

@[simp] theorem emittedEvents_append (h o : List (Seen Caller)) :
    emittedEvents (h ++ o) = emittedEvents h ++ emittedEvents o := List.filterMap_append

theorem mem_emittedEvents {h : List (Seen Caller)} {e : Stamped} :
    e ∈ emittedEvents h ↔ (e.1, .emitted e.2) ∈ h := by
  rw [emittedEvents, List.mem_filterMap]
  constructor
  · rintro ⟨⟨g, y⟩, hx, he⟩
    split at he
    · next heq =>
      obtain ⟨rfl, rfl⟩ := Prod.mk.inj heq
      obtain rfl := Option.some.inj he
      exact hx
    · simp at he
  · exact fun hx => ⟨_, hx, rfl⟩

theorem mem_wires {h : List Note} {x : Seen Caller} : x ∈ wires h ↔ .wire x ∈ h := by
  rw [wires, List.mem_filterMap]
  constructor
  · rintro ⟨note, hn, hx⟩
    cases note with
    | wire y => exact Option.some.inj hx ▸ hn
    | _ => simp at hx
  · exact fun hx => ⟨_, hx, rfl⟩

/-- What the runner shows at some point, a run shows at some point. -/
theorem wires_split {h : List Note} {l r : List (Seen Caller)} {x : Seen Caller}
    (hh : wires h = l ++ x :: r) :
    ∃ pre post, h = pre ++ .wire x :: post ∧ wires pre = l := by
  rw [wires, List.filterMap_eq_append_iff] at hh
  obtain ⟨pre, rest, rfl, hpre, hrest⟩ := hh
  obtain ⟨quiet, note, post, rfl, hquiet, hnote, -⟩ := List.filterMap_eq_cons_iff.mp hrest
  refine ⟨pre ++ quiet, post, ?_, ?_⟩
  · cases note with
    | wire y =>
      obtain rfl := Option.some.inj hnote
      simp
    | _ => simp at hnote
  · rw [wires_append, wires, hpre, wires, List.filterMap_eq_nil_iff.mpr hquiet, List.append_nil]

/-! ### The state -/

/-- The client, its supervisor, the application as far as it matters, and the runner. -/
structure System where
  world : World Caller
  /-- The command channel. -/
  commands : List (Command Caller)
  slots : Slots
  /-- The broadcast ring, as the supervisor sees it. -/
  ring : BroadcastRing Stamped
  registry : Registry
  /-- The calls of `Client::subscribe`. -/
  calls : List Call
  /-- How many calls of `Client::call` there were. -/
  asked : ℕ
  supervisor : Supervisor
  /-- How many calls of `Connection::subscribe` the supervisor made. -/
  replays : ℕ
  /-- The channel to the application. -/
  inbox : List ClientEvent
  /-- The application holds the `Client`, -/
  handle : Bool
  /-- and its `ClientEvents`. -/
  listening : Bool

/-- What a call of `Connection::subscribe` does next. -/
inductive Progress where
  | goesOn (call : SubCall)
  | returns (outcome : Except CallError String)

/-- What that shows. -/
def Progress.notes (c : Caller) : Progress → List Note
  | .goesOn _ => []
  | .returns outcome => [.returned c outcome]

/-- Where it leaves a call of `Client::subscribe`: an id is recorded next. -/
def Call.after (key : StreamKey) : Progress → Call
  | .goesOn call => .subscribing key call
  | .returns (.ok id) => .recording key id
  | .returns (.error error) => .returned (.error error)

/-- Where it leaves a replay. -/
def Supervisor.after (r : Replay) : Progress → Supervisor
  | .goesOn call => .issuing r call
  | .returns (.ok newId) => .rekeying r newId
  | .returns (.error error) => .removing r error

/-- What the application and the environment do, and which task goes on. -/
inductive Label where
  /-- The runner goes on without a command. -/
  | env (input : Input Caller)
  /-- The runner receives from the command channel in `idle`, -/
  | idle (gone : Bool)
  /-- or polls its sources. -/
  | poll (read : Option Runner.ReadReply) (offered gone timer : Bool)
  | subscribe (stream event : String)
  /-- A call of `Client::subscribe` goes on. -/
  | resume (k : ℕ)
  /-- Its future is dropped. -/
  | drop (k : ℕ)
  | call (method : String) (params : List Value)
  | shutdown
  | supervise
  /-- The application takes an event. -/
  | receive
  | dropHandle
  | dropEvents

/-- The input offers no command. -/
def Input.isPlain : Input Caller → Bool
  | .command _ | .poll .. => false
  | _ => true

namespace System

/-- `Client::spawn`. -/
def init (config : Config) : System where
  world := .init config
  commands := []
  slots := .empty
  ring := .new config.eventCapacity
  registry := .new
  calls := []
  asked := 0
  supervisor := .receiving
  replays := 0
  inbox := []
  handle := true
  listening := true

/-- The runner dropped its channels. -/
def stopped (s : System) : Bool :=
  match s.world.location with
  | .stopped => true
  | _ => false

/-- The command channel has room. -/
def hasRoom (s : System) : Bool :=
  decide (s.commands.length < max s.world.runner.config.commandCapacity 1)

/-! ### The runner -/

/-- `broadcast::Sender::send`. -/
def broadcast (event : Stamped) : Act System Note Unit := fun s =>
  ((), { s with ring := s.ring.send event }, match s.ring.overwritten with
    | some lost => [.overwrote lost (s.ring.send event).unread]
    | none => [])

/-- What the runner showed reaches the oneshots and the ring. -/
def see (x : Seen Caller) : Act System Note Unit := do
  Act.modify fun s => { s with slots := s.slots.deliver x }
  Act.say fun _ => .wire x
  match x with
  | (g, .emitted event) => broadcast (g, event)
  | _ => pure ()

/-- The runner makes a step; it takes its commands from the channel. -/
def advance (s : System) (input : Input Caller) : Option (System × List Note) :=
  (s.world.step input).map fun (world, o) =>
    let s' := { s with world, commands := s.commands.drop (tookCommands o).length }
    ((o.forM see).state s', (o.forM see).obs s' ++
      if s'.stopped && !s.stopped then [.stopped] else [])

/-- The caller of a command dropped its future; of `Client::call`, the environment says
so. -/
def gone (s : System) (command : Command Caller) (called : Bool) : Bool :=
  match command.ack with
  | some (.subscribe k) => match s.calls[k]? with
    | some .dropped => true
    | _ => false
  | some (.call _) => called
  | _ => false

/-- What `commands.recv` returns; it waits on `none`. -/
def front (s : System) (called : Bool) : Option (Option (Command Caller × Bool)) :=
  match s.commands, s.supervisor with
  | command :: _, _ => some (some (command, s.gone command called))
  | [], .finished => if s.handle then none else some none
  | [], _ => none

/-! ### `Connection::subscribe` -/

/-- One step of `Connection::subscribe`. -/
def connectionSubscribe (s : System) (c : Caller) (name : String) (params : List Value) :
    SubCall → Option (System × Progress)
  | .sending =>
    if s.stopped then some (s, .returns (.error .notSent))
    else if s.hasRoom then
      some ({ s with commands := s.commands ++ [.subscribe name params c] }, .goesOn .registering)
    else none
  | .registering => match s.slots.ack c with
    | some id => some (s, .goesOn (.waiting id))
    | none => if s.stopped then some (s, .returns (.error .notSent)) else none
  | .waiting id => match s.slots.reply c with
    | some (.ok _) => some (s, .returns (.ok id))
    | some (.error error) => some (s, .returns (.error error))
    | none => if s.stopped then some (s, .returns (.error .notSent)) else none

/-- One step of `Client::subscribe`. -/
def resume (s : System) (k : ℕ) : Option (System × List Note) :=
  match s.calls[k]? with
  | some (.subscribing key call) =>
    (s.connectionSubscribe (.subscribe k) key.publication key.params call).map fun (s, p) =>
      ({ s with calls := s.calls.set k (.after key p) }, p.notes (.subscribe k))
  | some (.recording key id) =>
    some ({ s with
      registry := s.registry.insert id key key.params
      calls := s.calls.set k (.returned (.ok key)) }, [.inserted k id])
  | _ => none

/-! ### `supervise` and `replay` -/

/-- The head of the loop of `replay`. -/
def loop (s : System) (epoch : Epoch) (generation restored : ℕ) :
    List Replayed → System × List Note
  | [] =>
    ({ s with supervisor := .forwarding (.resubscribed epoch restored) false },
      [.replayed generation restored])
  | entry :: rest =>
    ({ s with
      supervisor := .issuing ⟨epoch, generation, restored, s.replays, entry, rest⟩ .sending
      replays := s.replays + 1 }, [.issued s.replays entry.1])

/-- The arm of `supervise` an event takes. -/
def onEvent : Stamped → Supervisor
  | (_, .disconnected reason) => .losing reason
  | (g, .resubscribe epoch) => .replaying epoch g
  | (_, .frame message) => match message.asStreamEvent with
    | some stream => .forwarding (.stream ⟨stream.stream, stream.eventName⟩ stream.args) false
    | none => .forwarding (.connection (.frame message)) false
  | (_, .fatal fatal) => .forwarding (.connection (.fatal fatal)) true
  | (_, event) => .forwarding (.connection event) false

/-- One step of the supervisor. -/
def supervise (s : System) : Option (System × List Note) :=
  match s.supervisor with
  | .receiving => match s.ring.recv with
    | some (.lagged missed, ring) =>
      some ({ s with
        ring, supervisor := .forwarding (.connection (.lagged missed)) false }, [])
    | some (.value event, ring) =>
      some ({ s with ring, supervisor := onEvent event }, [.received event])
    | none => if s.stopped then some ({ s with supervisor := .finished }, []) else none
  | .losing reason =>
    some ({ s with
      registry := s.registry.connectionLost
      supervisor := .forwarding (.connection (.disconnected reason)) false }, [])
  | .replaying epoch g =>
    let pending := s.registry.toReplay
    let (s, o) := s.loop epoch g 0 pending
    some (s, .replayStarted g (pending.map Prod.fst) :: o)
  | .issuing r call =>
    (s.connectionSubscribe (.replay r.index) r.entry.2.1.publication r.entry.2.2 call).map
      fun (s, p) => ({ s with supervisor := .after r p }, p.notes (.replay r.index))
  | .rekeying r newId =>
    let (s, o) := { s with registry := (s.registry.rekey r.entry.1 newId).1 }.loop
      r.epoch r.generation (r.restored + 1) r.rest
    some (s, .rekeyed r.index r.entry.1 newId :: o)
  | .removing r error =>
    let (s, o) := { s with registry := (s.registry.remove r.entry.1).1 }.loop
      r.epoch r.generation r.restored r.rest
    some (s, .removed r.index r.entry.1 error :: o)
  | .forwarding event terminal =>
    if !s.listening then some ({ s with supervisor := .finished }, [])
    else if s.inbox.length < max s.world.runner.config.eventCapacity 1 then
      some ({ s with
        inbox := s.inbox ++ [event]
        supervisor := if terminal then .finished else .receiving }, [])
    else none
  | .finished => none

/-! ### One step -/

/-- One step of any of the tasks. -/
def step (s : System) : Label → Option (System × List Note)
  | .env input => if input.isPlain then s.advance input else none
  | .idle called => match s.front called with
    | some offered => s.advance (.command offered)
    | none => none
  | .poll read offered called timer =>
    s.advance (.poll read (if offered then s.front called else none) timer)
  | .subscribe stream event =>
    if s.handle then
      some ({ s with calls := s.calls ++ [.subscribing ⟨stream, event⟩ .sending] }, [])
    else none
  | .resume k => s.resume k
  | .drop k => match s.calls[k]? with
    | some call =>
      if call.isOver then none else some ({ s with calls := s.calls.set k .dropped }, [])
    | none => none
  | .call method params =>
    if s.handle && !s.stopped && s.hasRoom then
      some ({ s with
        commands := s.commands ++ [.call method params (.call s.asked)]
        asked := s.asked + 1 }, [])
    else none
  | .shutdown =>
    if s.handle && !s.stopped && s.hasRoom then
      some ({ s with commands := s.commands ++ [.shutdown] }, [])
    else none
  | .supervise => s.supervise
  | .receive => match s.inbox with
    | _ :: inbox => some ({ s with inbox }, [])
    | [] => none
  | .dropHandle =>
    if s.handle && s.calls.all Call.isOver then some ({ s with handle := false }, []) else none
  | .dropEvents => if s.listening then some ({ s with listening := false }, []) else none

end System

end RocketSocket
