import RocketSocket.Realtime.ClientRun
import RocketSocket.Realtime.Ends

/-!
# Callers and the command channel

`Connection` in `connection.rs`: the handles, any number of tasks that call a method or
subscribe and wait, the command channel between them and the runner, and the runner in its
environment.  When the runner ends it drops its end of the channel, and with it the commands
it never took; whoever waits on a oneshot whose sender was dropped is told so.

## Main definitions

* `Ask`, `Task` — what a handle asks for, and how far the task that waits for it is.
* `Channel`, `Channel.step` — the tasks, the channel and the runner.
* `Channel.Sound` — which commands are in the channel, and what their callers wait for.

## Main results

* `Channel.sound` — the invariant holds in every run.
* `never_strands` — when the runner has ended nobody waits in vain.
-/

namespace RocketSocket

open Machine

/-- What a handle asks for and waits. -/
inductive Ask where
  | call (method : String) (params : List Value)
  | subscribe (name : String) (params : List Value)

/-- The caller of the `k`-th task. -/
def Ask.caller (k : ℕ) : Ask → Caller
  | .call .. => .call k
  | .subscribe .. => .subscribe k

/-- The command of the `k`-th task. -/
def Ask.command (k : ℕ) : Ask → Command Caller
  | .call method params => .call method params (.call k)
  | .subscribe name params => .subscribe name params (.subscribe k)

/-- What a task returns: the value of a method call, or the id of a subscription. -/
inductive Answer where
  | value (value : Value)
  | id (id : String)

/-- What a task makes of its id and a reply without error. -/
def Ask.answer (id : String) (value : Value) : Ask → Answer
  | .call .. => .value value
  | .subscribe .. => .id id

/-- Where a task awaits, if it does. -/
inductive TaskState where
  /-- In `commands.send`, for the id its call is registered under, or for the reply. -/
  | awaiting (call : SubCall)
  | returned (outcome : Except CallError Answer)
  /-- Its future was dropped. -/
  | dropped

/-- The task is over. -/
def TaskState.isOver : TaskState → Bool
  | .returned _ | .dropped => true
  | .awaiting _ => false

/-- A state a task may be in while its command is in the channel. -/
def TaskState.Queued : TaskState → Prop
  | .awaiting .registering | .dropped | .returned (.error .notSent) => True
  | _ => False

/-- A call of `Connection::call` or `Connection::subscribe`. -/
structure Task where
  ask : Ask
  state : TaskState

/-- The handles, the tasks that wait, the command channel and the runner. -/
structure Channel where
  world : World Caller
  commands : List (Command Caller)
  slots : Slots
  tasks : List Task
  /-- A handle is left. -/
  handle : Bool

/-- What the application and the environment do, and which task goes on. -/
inductive ChannelLabel where
  /-- The runner goes on without a command. -/
  | env (input : Input Caller)
  /-- The runner receives from the channel in `idle`, -/
  | idle
  /-- or polls its sources. -/
  | poll (read : Option Runner.ReadReply) (offered timer : Bool)
  | ask (ask : Ask)
  /-- A task goes on. -/
  | resume (k : ℕ)
  /-- Its future is dropped. -/
  | drop (k : ℕ)
  | unsubscribe (id : String)
  | shutdown
  | dropHandle

namespace Channel

/-- `Connection::spawn`. -/
def init (config : Config) : Channel := ⟨.init config, [], .empty, [], true⟩

/-- The runner ended, and dropped its end of the channel. -/
def stopped (s : Channel) : Bool :=
  match s.world.location with
  | .stopped => true
  | _ => false

/-- The channel has room. -/
def hasRoom (s : Channel) : Bool :=
  decide (s.commands.length < max s.world.runner.config.commandCapacity 1)

/-- The runner makes a step; it takes its commands from the channel. -/
def advance (s : Channel) (input : Input Caller) : Option (Channel × List (Seen Caller)) :=
  (s.world.step input).map fun (world, o) =>
    ({ s with
      world
      commands := s.commands.drop (tookCommands o).length
      slots := o.foldl Slots.deliver s.slots }, o)

/-- The caller of a command dropped its future. -/
def gone (s : Channel) (command : Command Caller) : Bool :=
  match command.ack with
  | some (.call k) | some (.subscribe k) => match s.tasks[k]? with
    | some ⟨_, .dropped⟩ => true
    | _ => false
  | _ => false

/-- What `commands.recv` returns; it waits on `none`. -/
def front (s : Channel) : Option (Option (Command Caller × Bool)) :=
  match s.commands with
  | command :: _ => some (some (command, s.gone command))
  | [] => if s.handle then none else some none

/-- One step of `pending_of` and of what awaits the reply. -/
def resume (s : Channel) (k : ℕ) : Option Channel :=
  match s.tasks[k]? with
  | some ⟨ask, .awaiting call⟩ =>
    let goes (state : TaskState) : Channel := { s with tasks := s.tasks.set k ⟨ask, state⟩ }
    match call with
    | .sending =>
      if s.stopped then some (goes (.returned (.error .notSent)))
      else if s.hasRoom then
        some { goes (.awaiting .registering) with commands := s.commands ++ [ask.command k] }
      else none
    | .registering => match s.slots.ack (ask.caller k) with
      | some id => some (goes (.awaiting (.waiting id)))
      | none => if s.stopped then some (goes (.returned (.error .notSent))) else none
    | .waiting id => match s.slots.reply (ask.caller k) with
      | some (.ok value) => some (goes (.returned (.ok (ask.answer id value))))
      | some (.error error) => some (goes (.returned (.error error)))
      | none => if s.stopped then some (goes (.returned (.error .notSent))) else none
  | _ => none

/-- Posts a command nobody waits for. -/
def post (s : Channel) (command : Command Caller) : Option (Channel × List (Seen Caller)) :=
  if s.handle && !s.stopped && s.hasRoom then
    some ({ s with commands := s.commands ++ [command] }, [])
  else none

/-- One step of any of the tasks. -/
def step (s : Channel) : ChannelLabel → Option (Channel × List (Seen Caller))
  | .env input => if input.isPlain then s.advance input else none
  | .idle => match s.front with
    | some offered => s.advance (.command offered)
    | none => none
  | .poll read offered timer => s.advance (.poll read (if offered then s.front else none) timer)
  | .ask ask =>
    if s.handle then some ({ s with tasks := s.tasks ++ [⟨ask, .awaiting .sending⟩] }, [])
    else none
  | .resume k => (s.resume k).map fun s => (s, [])
  | .drop k => match s.tasks[k]? with
    | some task =>
      if task.state.isOver then none
      else some ({ s with tasks := s.tasks.set k ⟨task.ask, .dropped⟩ }, [])
    | none => none
  | .unsubscribe id => s.post (.unsubscribe id)
  | .shutdown => s.post .shutdown
  | .dropHandle =>
    if s.handle && s.tasks.all (·.state.isOver) then some ({ s with handle := false }, [])
    else none

/-! ### Who waits for what -/

/-- The callers whose commands were posted. -/
def posted (h : List (Seen Caller)) (s : Channel) : List Caller :=
  (tookCommands h ++ s.commands).filterMap Command.ack

/-- The ties between the tasks, the channel and the runner. -/
structure Sound (config : Config) (h : List (Seen Caller)) (s : Channel) : Prop where
  run : Run World.step (World.init config) h s.world
  slots : s.slots = h.foldl Slots.deliver .empty
  nodup : (s.posted h).Nodup
  posted : ∀ c ∈ s.posted h, ∃ (k : ℕ) (task : Task), s.tasks[k]? = some task ∧
    c = task.ask.caller k ∧ task.state ≠ .awaiting .sending
  queued : ∀ (k : ℕ) (task : Task), s.tasks[k]? = some task →
    task.ask.caller k ∈ s.commands.filterMap Command.ack → task.state.Queued

theorem caller_injective {ask ask' : Ask} {k k' : ℕ} (h : ask.caller k = ask'.caller k') :
    k = k' := by
  cases ask <;> cases ask' <;> simp_all [Ask.caller]

theorem ack_command (ask : Ask) (k : ℕ) : (ask.command k).ack = some (ask.caller k) := by
  cases ask <;> rfl

variable {config : Config} {h o : List (Seen Caller)} {s s' : Channel} {k : ℕ} {ask : Ask}
  {state state' : TaskState}

theorem sound_init : Sound config [] (init config) where
  run := .start
  slots := rfl
  nodup := List.nodup_nil
  posted := fun c hc => by simp [Channel.posted, tookCommands, init] at hc
  queued := fun k task hk => by simp [init] at hk

/-- The runner takes what is at the front of the channel. -/
theorem Sound.advance (hs : Sound config h s) {input : Input Caller}
    (hoffer : ∀ command dropped, input.offer = some (command, dropped) →
      ∃ rest, s.commands = command :: rest)
    (hstep : s.advance input = some (s', o)) : Sound config (h ++ o) s' := by
  obtain ⟨⟨world, o'⟩, hw, he⟩ := Option.map_eq_some_iff.mp hstep
  obtain ⟨rfl, rfl⟩ := Prod.mk.inj he
  have htook := World.tookCommands_append_drop hw hoffer
  have hposted : Channel.posted (h ++ o') { s with
      world
      commands := s.commands.drop (tookCommands o').length
      slots := o'.foldl Slots.deliver s.slots } = s.posted h := by
    rw [Channel.posted, tookCommands_append, List.append_assoc, htook, Channel.posted]
  refine ⟨hs.run.step hw, ?_, hposted ▸ hs.nodup, hposted ▸ hs.posted, fun k task hk hc => ?_⟩
  · rw [List.foldl_append, ← hs.slots]
  · have hsub := (List.drop_sublist (tookCommands o').length s.commands).filterMap Command.ack
    exact hs.queued k task hk (hsub.subset hc)

/-- A task goes on. -/
theorem Sound.set (hs : Sound config h s) (hk : s.tasks[k]? = some ⟨ask, state⟩)
    (hne : state' ≠ .awaiting .sending)
    (hqueued : ask.caller k ∈ s.commands.filterMap Command.ack → state'.Queued) :
    Sound config h { s with tasks := s.tasks.set k ⟨ask, state'⟩ } := by
  have hlt : k < s.tasks.length := (List.getElem?_eq_some_iff.1 hk).1
  refine ⟨hs.run, hs.slots, hs.nodup, fun c hc => ?_, fun k' task hk' hc => ?_⟩
  · obtain ⟨k', task, hk', rfl, hstate⟩ := hs.posted c hc
    by_cases heq : k = k'
    · subst heq
      rw [hk] at hk'
      obtain rfl := Option.some.inj hk'
      exact ⟨k, ⟨ask, state'⟩, by simp [hlt], rfl, hne⟩
    · exact ⟨k', task, by simp [heq, hk'], rfl, hstate⟩
  · rcases getElem?_of_set hk' with ⟨rfl, rfl⟩ | ⟨-, hk'⟩
    · exact hqueued hc
    · exact hs.queued k' task hk' hc

/-- A command is posted; its caller, if it has one, waits to be registered. -/
theorem Sound.post (hs : Sound config h s) {command : Command Caller}
    (hack : ∀ c, command.ack = some c → c ∉ s.posted h ∧ ∃ (k : ℕ) (task : Task),
      s.tasks[k]? = some task ∧ c = task.ask.caller k ∧ task.state = .awaiting .registering) :
    Sound config h { s with commands := s.commands ++ [command] } := by
  -- One caller more has posted, if the command has one.
  have hposted : Channel.posted h { s with commands := s.commands ++ [command] } =
      s.posted h ++ command.ack.toList := by
    rw [Channel.posted, ← List.append_assoc, List.filterMap_append, Channel.posted]
    cases hc : command.ack <;> simp [hc]
  -- The callers stay distinct, for the new one had posted nothing.
  refine ⟨hs.run, hs.slots, ?_, fun c hc => ?_, fun k task hk hc => ?_⟩
  · rw [hposted]
    cases hc : command.ack with
    | none => simpa using hs.nodup
    | some c => simpa using List.Nodup.concat (hack c hc).1 hs.nodup
  · rw [hposted, List.mem_append] at hc
    rcases hc with hc | hc
    · exact hs.posted c hc
    · obtain ⟨-, k, task, hk, hcaller, hstate⟩ := hack c (Option.mem_toList.1 hc)
      exact ⟨k, task, hk, hcaller, by simp [hstate]⟩
  · rw [List.filterMap_append, List.mem_append] at hc
    rcases hc with hc | hc
    · exact hs.queued k task hk hc
    · obtain ⟨command', hmem, hcommand⟩ := List.mem_filterMap.1 hc
      rw [List.mem_singleton.1 hmem] at hcommand
      -- The caller of the command that is added is still registering.
      obtain ⟨-, k', task', hk', hcaller, hstate⟩ := hack _ hcommand
      obtain rfl := caller_injective hcaller
      rw [hk] at hk'
      obtain rfl := Option.some.inj hk'
      rw [hstate]
      trivial

/-- A task at whose command the channel does not look may be anywhere. -/
theorem Sound.not_mem_commands (hs : Sound config h s) {c : Caller} {id : String}
    (hack : s.slots.ack c = some id) : c ∉ s.commands.filterMap Command.ack := by
  rw [hs.slots] at hack
  obtain ⟨g, m, ⟨command, phase, out, hx, hc, -⟩, -⟩ := Slots.tookOn_of_ack hack
  have htook : c ∈ (tookCommands h).filterMap Command.ack :=
    List.mem_filterMap.2 ⟨command, List.mem_filterMap.2 ⟨_, hx, rfl⟩, hc⟩
  have hnodup := hs.nodup
  rw [Channel.posted, List.filterMap_append, List.nodup_append] at hnodup
  exact fun hmem => hnodup.2.2 c htook c hmem rfl

/-- A task goes on by itself. -/
theorem Sound.resume (hs : Sound config h s) (hstep : s.resume k = some s') :
    Sound config h s' := by
  unfold Channel.resume at hstep
  split at hstep
  · next ask call hk =>
    -- A task that returns without having sent its command posts nothing.
    have hreturned : Sound config h
        { s with tasks := s.tasks.set k ⟨ask, .returned (.error .notSent)⟩ } :=
      hs.set hk (by simp) fun _ => trivial
    cases call with
    | sending =>
      simp only at hstep
      split at hstep
      · cases hstep
        exact hreturned
      · split at hstep
        · cases hstep
          have hset : Sound config h
              { s with tasks := s.tasks.set k ⟨ask, .awaiting .registering⟩ } :=
            hs.set hk (by simp) fun _ => trivial
          refine hset.post fun c hc => ?_
          obtain rfl := Option.some.inj ((ack_command ask k).symm.trans hc)
          refine ⟨fun hposted => ?_, k, ⟨ask, .awaiting .registering⟩, ?_, rfl, rfl⟩
          · obtain ⟨k', task, hk', hcaller, hne⟩ := hs.posted _ hposted
            obtain rfl := caller_injective hcaller
            rw [hk] at hk'
            exact hne (Option.some.inj hk' ▸ rfl)
          · simp [(List.getElem?_eq_some_iff.1 hk).1]
        · cases hstep
    | registering =>
      simp only at hstep
      split at hstep
      · next id hack =>
        cases hstep
        exact hs.set hk (by simp) fun hc => absurd hc (hs.not_mem_commands hack)
      · split at hstep
        · cases hstep
          exact hreturned
        · cases hstep
    | waiting id =>
      have hqueued : ask.caller k ∉ s.commands.filterMap Command.ack :=
        fun hc => hs.queued k _ hk hc
      simp only at hstep
      split at hstep
      · cases hstep
        exact hs.set hk (by simp) fun hc => absurd hc hqueued
      · cases hstep
        exact hs.set hk (by simp) fun hc => absurd hc hqueued
      · split at hstep
        · cases hstep
          exact hreturned
        · cases hstep
  · cases hstep

/-- A task that begins has posted nothing. -/
theorem Sound.begin (hs : Sound config h s) (ask : Ask) :
    Sound config h { s with tasks := s.tasks ++ [⟨ask, .awaiting .sending⟩] } := by
  refine ⟨hs.run, hs.slots, hs.nodup, fun c hc => ?_, fun k task hk hc => ?_⟩
  · obtain ⟨k, task, hk, hcaller, hne⟩ := hs.posted c hc
    have hlt := (List.getElem?_eq_some_iff.1 hk).1
    exact ⟨k, task, by rw [List.getElem?_append_left hlt, hk], hcaller, hne⟩
  · have hposted : task.ask.caller k ∈ s.posted h := by
      rw [Channel.posted, List.filterMap_append]
      exact List.mem_append_right _ hc
    obtain ⟨k', task', hk', hcaller, -⟩ := hs.posted _ hposted
    obtain rfl := caller_injective hcaller
    rw [List.getElem?_append_left (List.getElem?_eq_some_iff.1 hk').1] at hk
    exact hs.queued k task hk hc

/-- The front of the channel is what the runner is offered. -/
theorem offer_of_front {command : Command Caller} {dropped : Bool}
    (hfront : s.front = some (some (command, dropped))) : ∃ rest, s.commands = command :: rest := by
  unfold front at hfront
  split at hfront
  · next command' rest hcommands =>
    cases hfront
    exact ⟨rest, hcommands⟩
  · split at hfront
    · cases hfront
    · cases hfront

/-- One step of any of the tasks keeps the ties. -/
theorem Sound.step (hs : Sound config h s) {label : ChannelLabel}
    (hstep : s.step label = some (s', o)) : Sound config (h ++ o) s' := by
  cases label with
  | env input =>
    obtain ⟨hplain, hstep⟩ := Option.ite_none_right_eq_some.mp hstep
    refine hs.advance (fun command dropped hoffer => ?_) hstep
    -- A plain input offers the runner no command.
    cases input <;> simp [Input.offer, Input.isPlain] at hoffer hplain
  | idle =>
    simp only [Channel.step] at hstep
    split at hstep
    · next offered hfront =>
      refine hs.advance (fun command dropped hoffer => ?_) hstep
      exact offer_of_front (hfront.trans (congrArg some hoffer))
    · cases hstep
  | poll read offered timer =>
    refine hs.advance (fun command dropped hoffer => ?_) hstep
    cases offered with
    | false => cases hoffer
    | true =>
      simp only [if_true] at hoffer
      cases hfront : s.front with
      | none => rw [hfront] at hoffer; cases hoffer
      | some front =>
        rw [hfront] at hoffer
        exact offer_of_front (hfront.trans (congrArg some hoffer))
  | ask ask =>
    obtain ⟨-, he⟩ := Option.ite_none_right_eq_some.mp hstep
    cases he
    rw [List.append_nil]
    exact hs.begin ask
  | resume k =>
    obtain ⟨s₁, hresume, he⟩ := Option.map_eq_some_iff.mp hstep
    cases he
    rw [List.append_nil]
    exact hs.resume hresume
  | drop k =>
    simp only [Channel.step] at hstep
    split at hstep
    · next task hk =>
      split at hstep
      · cases hstep
      · cases hstep
        rw [List.append_nil]
        exact hs.set (show s.tasks[k]? = some ⟨task.ask, task.state⟩ from hk) (by simp)
          fun _ => trivial
    · cases hstep
  | unsubscribe id =>
    obtain ⟨-, he⟩ := Option.ite_none_right_eq_some.mp hstep
    cases he
    rw [List.append_nil]
    exact hs.post fun c hc => by cases hc
  | shutdown =>
    obtain ⟨-, he⟩ := Option.ite_none_right_eq_some.mp hstep
    cases he
    rw [List.append_nil]
    exact hs.post fun c hc => by cases hc
  | dropHandle =>
    obtain ⟨-, he⟩ := Option.ite_none_right_eq_some.mp hstep
    cases he
    rw [List.append_nil]
    exact ⟨hs.run, hs.slots, hs.nodup, hs.posted, hs.queued⟩

/-- The ties hold in every run. -/
theorem sound {h : List (Seen Caller)} (hrun : Run step (init config) h s) : Sound config h s :=
  hrun.invariant (I := fun h s => Sound config h s) sound_init fun hs hstep => hs.step hstep

theorem location_of_stopped (hstopped : s.stopped = true) : s.world.location = .stopped := by
  unfold stopped at hstopped
  split at hstopped
  · assumption
  · cases hstopped

/-- Once the runner has ended every task that is not over goes on. -/
theorem resume_of_stopped (hstopped : s.stopped = true) {task : Task}
    (hk : s.tasks[k]? = some task) (hover : task.state.isOver = false) :
    (s.resume k).isSome = true := by
  obtain ⟨ask, state⟩ := task
  cases state with
  | returned outcome => cases hover
  | dropped => cases hover
  | awaiting call =>
    unfold resume
    rw [hk]
    cases call with
    | sending => simp [hstopped]
    | registering => cases h : s.slots.ack (ask.caller k) <;> simp [h, hstopped]
    | waiting id =>
      cases h : s.slots.reply (ask.caller k) with
      | none => simp [h, hstopped]
      | some reply => cases reply <;> simp [h]

/-- The caller of a command that is left in the channel resolves to `NotSent`: it has, it
does next, or nobody is there to be told. -/
def NeverSent (s : Channel) (c : Caller) : Prop :=
  ∃ (k : ℕ) (task : Task), s.tasks[k]? = some task ∧ c = task.ask.caller k ∧
    (task.state = .dropped ∨ task.state = .returned (.error .notSent) ∨
      s.resume k = some { s with
        tasks := s.tasks.set k ⟨task.ask, .returned (.error .notSent)⟩ })

theorem Sound.neverSent (hs : Sound config h s) (hstopped : s.stopped = true) {c : Caller}
    (hc : c ∈ s.commands.filterMap Command.ack) : s.NeverSent c := by
  have hposted : c ∈ s.posted h := by
    rw [Channel.posted, List.filterMap_append]
    exact List.mem_append_right _ hc
  obtain ⟨k, task, hk, rfl, -⟩ := hs.posted c hposted
  refine ⟨k, task, hk, rfl, ?_⟩
  have hqueued := hs.queued k task hk hc
  obtain ⟨ask, state⟩ := task
  cases state with
  -- A command may be left by a call that was dropped, has come back as not sent, or still waits.
  | dropped => exact .inl rfl
  | returned outcome =>
    cases outcome with
    | ok answer => exact hqueued.elim
    | error error =>
      cases error with
      | notSent => exact .inr (.inl rfl)
      | _ => exact hqueued.elim
  | awaiting call =>
    cases call with
    | sending => exact hqueued.elim
    | waiting id => exact hqueued.elim
    | registering =>
      -- Nobody took the command, so nothing was registered for it.
      have hack : s.slots.ack (ask.caller k) = none := by
        cases hack : s.slots.ack (ask.caller k) with
        | none => rfl
        | some id => exact absurd hc (hs.not_mem_commands hack)
      refine .inr (.inr ?_)
      unfold Channel.resume
      rw [hk]
      simp [hack, hstopped]

end Channel

open Channel

/-- **The runner never strands a caller, and a fatal failure is final.**  However the runner
ended, both correlators are empty, every call that was registered was sent a reply, whoever
has a command left in the channel resolves to `NotSent`, and every task that waits goes on.
And at no time is anything announced or a socket opened after a fatal failure. -/
theorem never_strands {config : Config} {h : List (Seen Caller)} {s : Channel}
    (hrun : Run Channel.step (Channel.init config) h s) :
    (s.stopped = true →
      (∀ side, (s.world.runner.table side).pending = ∅) ∧
      (∀ g m waiter, IssuedFor g h m waiter →
        ∃ cause reply, (g, .settled cause m waiter reply) ∈ h) ∧
      (∀ command ∈ s.commands, ∀ c, command.ack = some c → s.NeverSent c) ∧
      ∀ (k : ℕ) (task : Task), s.tasks[k]? = some task → task.state.isOver = false →
        (s.resume k).isSome = true) ∧
    ∀ pre g fatal post, h = pre ++ (g, .emitted (.fatal fatal)) :: post →
      ∀ x ∈ post, x.2 ≠ .opened ∧ ∀ event, x.2 ≠ .emitted event := by
  have hs := sound hrun
  -- The tables are empty, every issued call is answered, and no task is left waiting.
  refine ⟨fun hstopped => ⟨?_, ?_, ?_, ?_⟩, ?_⟩
  · exact World.settled_of_stopped hs.run (location_of_stopped hstopped)
  · exact fun g m waiter hk =>
      World.answered_of_stopped hs.run (location_of_stopped hstopped) hk
  · exact fun command hmem c hc =>
      hs.neverSent hstopped (List.mem_filterMap.2 ⟨command, hmem, hc⟩)
  · exact fun k task hk hover => resume_of_stopped hstopped hk hover
  · -- Behind a fatal failure the wire is quiet.
    intro pre g fatal post hh x hx
    obtain ⟨mid, rest, rfl⟩ := List.append_of_mem hx
    have hfailed : Failed (pre ++ (g, .emitted (.fatal fatal)) :: mid) :=
      ⟨(g, .emitted (.fatal fatal)), by simp, trivial⟩
    have hquiet := (World.silent hs.run).1 _ x rest (by simp [hh]) hfailed
    constructor
    · rintro hx
      simp [hx, Obs.Quiet] at hquiet
    · rintro event hx
      simp [hx, Obs.Quiet] at hquiet

/-- A call is left in the channel behind the command that ends the runner while it waits out
a backoff. -/
def leaveBehind : List ChannelLabel :=
  [.env (.begin 0), .env (.openFailed "refused"), .env (.begin 5), .shutdown,
    .ask (.call "sendMessage" []), .resume 0, .idle]

/-- The call that was left behind resolves to `NotSent`. -/
theorem never_strands_leaveBehind :
    ∃ h s, Run Channel.step (Channel.init demoConfig) h s ∧ s.stopped = true ∧
      s.commands.length = 1 ∧ ∀ command ∈ s.commands, ∀ c, command.ack = some c →
        s.NeverSent c :=
  have hrun : Run Channel.step (Channel.init demoConfig) _ _ :=
    run_execute leaveBehind (by decide +kernel)
  have hstopped := by decide +kernel
  ⟨_, _, hrun, hstopped, by decide +kernel, ((never_strands hrun).1 hstopped).2.2.1⟩

end RocketSocket
