import RocketSocket.Realtime.Client
import RocketSocket.Realtime.Replies

/-!
# Runs of the client

What a step of the client can do, and what ties its tasks to the runner: a run of the
client is a run of its runner, every command is posted and taken once, and what a call of
`Connection::subscribe` returns is the reply the runner sent to it.

## Main definitions

* `System.Progresses`, `System.Move` — what a call of `Connection::subscribe`, and a step,
  can do.
* `Linked` — the ties between the tasks and the runner.
* `OutcomeOf` — where an outcome comes from.

## Main results

* `System.step_move` — **what a step can do.**
* `Linked.move` — every step keeps the ties.
* `linked_run` — **outcomes are the runner's replies**, in every state of every run.
-/

namespace RocketSocket

open Machine

namespace System

variable {s s' s₁ : System} {o : List Note} {c : Caller} {p : Progress}

/-! ### What a step can do -/

/-- What a call of `Connection::subscribe` can do next. -/
inductive Progresses (s : System) (c : Caller) (name : String) (params : List Value) :
    SubCall → System → Progress → Prop
  | send : s.stopped = false → Progresses s c name params .sending
    { s with commands := s.commands ++ [.subscribe name params c] } (.goesOn .registering)
  | register {id : String} : s.slots.ack c = some id →
    Progresses s c name params .registering s (.goesOn (.waiting id))
  | ok {id : String} {v : Value} : s.slots.reply c = some (.ok v) →
    Progresses s c name params (.waiting id) s (.returns (.ok id))
  | error {id : String} {e : CallError} : s.slots.reply c = some (.error e) →
    Progresses s c name params (.waiting id) s (.returns (.error e))
  | abandon {call : SubCall} : s.stopped = true →
    (call = .sending ∨ call = .registering ∧ s.slots.ack c = none ∨
      (∃ id, call = .waiting id) ∧ s.slots.reply c = none) →
    Progresses s c name params call s (.returns (.error .notSent))

theorem connectionSubscribe_progresses {name : String} {params : List Value} {call : SubCall}
    (hs : s.connectionSubscribe c name params call = some (s₁, p)) :
    s.Progresses c name params call s₁ p := by
  -- The channel is closed, or the command goes into it.
  cases call with
  | sending =>
    simp only [connectionSubscribe] at hs
    split at hs
    · next hstopped =>
      obtain ⟨rfl, rfl⟩ := Prod.mk.inj (Option.some.inj hs)
      exact .abandon hstopped (.inl rfl)
    · next hstopped =>
      obtain ⟨-, hs⟩ := Option.ite_none_right_eq_some.mp hs
      obtain ⟨rfl, rfl⟩ := Prod.mk.inj (Option.some.inj hs)
      exact .send (Bool.eq_false_iff.mpr hstopped)
  -- The runner has registered the call, or is gone without having done so.
  | registering =>
    simp only [connectionSubscribe] at hs
    split at hs
    · next id hack =>
      obtain ⟨rfl, rfl⟩ := Prod.mk.inj (Option.some.inj hs)
      exact .register hack
    · next hack =>
      obtain ⟨hstopped, hs⟩ := Option.ite_none_right_eq_some.mp hs
      obtain ⟨rfl, rfl⟩ := Prod.mk.inj (Option.some.inj hs)
      exact .abandon hstopped (.inr (.inl ⟨rfl, hack⟩))
  -- The reply has come, or the runner is gone without one.
  | waiting id =>
    simp only [connectionSubscribe] at hs
    split at hs
    · next v hreply =>
      obtain ⟨rfl, rfl⟩ := Prod.mk.inj (Option.some.inj hs)
      exact .ok hreply
    · next e hreply =>
      obtain ⟨rfl, rfl⟩ := Prod.mk.inj (Option.some.inj hs)
      exact .error hreply
    · next hreply =>
      obtain ⟨hstopped, hs⟩ := Option.ite_none_right_eq_some.mp hs
      obtain ⟨rfl, rfl⟩ := Prod.mk.inj (Option.some.inj hs)
      exact .abandon hstopped (.inr (.inr ⟨⟨id, rfl⟩, hreply⟩))

/-- A call of `Connection::subscribe` changes the command channel, and nothing else. -/
theorem Progresses.frame {name : String} {params : List Value} {call : SubCall}
    (hp : s.Progresses c name params call s₁ p) : s₁ = { s with commands := s₁.commands } := by
  cases hp <;> rfl

/-- What a step can do. -/
inductive Move (s : System) : List Note → System → Prop
  | runner {input : Input Caller} {world : World Caller} {o : List (Seen Caller)}
    {s₁ s' : System} {notes : List Note} : s.world.step input = some (world, o) →
    (∀ command dropped, input.offer = some (command, dropped) →
      ∃ rest, s.commands = command :: rest) →
    s₁ = { s with world, commands := s.commands.drop (tookCommands o).length } →
    s' = (o.forM see).state s₁ →
    notes = (o.forM see).obs s₁ ++ (if s₁.stopped && !s.stopped then [.stopped] else []) →
    Move s notes s'
  /-- The application takes an event, or drops a handle. -/
  | quiet (inbox : List ClientEvent) (handle listening : Bool) :
    Move s [] { s with inbox, handle, listening }
  | ask (method : String) (params : List Value) :
    Move s [] { s with
      commands := s.commands ++ [.call method params (.call s.asked)], asked := s.asked + 1 }
  | shutdown : Move s [] { s with commands := s.commands ++ [.shutdown] }
  | subscribe (key : StreamKey) :
    Move s [] { s with calls := s.calls ++ [.subscribing key .sending] }
  | drop {k : ℕ} {call : Call} : s.calls[k]? = some call → call.isOver = false →
    Move s [] { s with calls := s.calls.set k .dropped }
  | resume {k : ℕ} {key : StreamKey} {call : SubCall} {s₁ : System} {p : Progress} :
    s.calls[k]? = some (.subscribing key call) →
    s.Progresses (.subscribe k) key.publication key.params call s₁ p →
    Move s (p.notes (.subscribe k)) { s₁ with calls := s₁.calls.set k (.after key p) }
  | record {k : ℕ} {key : StreamKey} {id : String} : s.calls[k]? = some (.recording key id) →
    Move s [.inserted k id] { s with
      registry := s.registry.insert id key key.params
      calls := s.calls.set k (.returned (.ok key)) }
  /-- The supervisor reads that it missed events. -/
  | lag {missed : ℕ} {ring : BroadcastRing Stamped} : s.supervisor = .receiving →
    s.ring.recv = some (.lagged missed, ring) →
    Move s [] { s with ring, supervisor := .forwarding (.connection (.lagged missed)) false }
  | receive {event : Stamped} {ring : BroadcastRing Stamped} : s.supervisor = .receiving →
    s.ring.recv = some (.value event, ring) →
    Move s [.received event] { s with ring, supervisor := onEvent event }
  /-- The supervisor returns. -/
  | finish : s.supervisor = .receiving ∧ s.stopped = true ∨
      (∃ event terminal, s.supervisor = .forwarding event terminal) →
    Move s [] { s with supervisor := .finished }
  | lose {reason : String} : s.supervisor = .losing reason →
    Move s [] { s with
      registry := s.registry.connectionLost
      supervisor := .forwarding (.connection (.disconnected reason)) false }
  | snapshot {epoch : Epoch} {g : ℕ} : s.supervisor = .replaying epoch g →
    Move s (.replayStarted g (s.registry.toReplay.map Prod.fst) ::
      (s.loop epoch g 0 s.registry.toReplay).2) (s.loop epoch g 0 s.registry.toReplay).1
  | issue {r : Replay} {call : SubCall} {s₁ : System} {p : Progress} :
    s.supervisor = .issuing r call →
    s.Progresses (.replay r.index) r.entry.2.1.publication r.entry.2.2 call s₁ p →
    Move s (p.notes (.replay r.index)) { s₁ with supervisor := .after r p }
  | rekey {r : Replay} {newId : String} {s₁ : System} : s.supervisor = .rekeying r newId →
    s₁ = { s with registry := (s.registry.rekey r.entry.1 newId).1 } →
    Move s (.rekeyed r.index r.entry.1 newId ::
      (s₁.loop r.epoch r.generation (r.restored + 1) r.rest).2)
      (s₁.loop r.epoch r.generation (r.restored + 1) r.rest).1
  | remove {r : Replay} {error : CallError} {s₁ : System} : s.supervisor = .removing r error →
    s₁ = { s with registry := (s.registry.remove r.entry.1).1 } →
    Move s (.removed r.index r.entry.1 error ::
      (s₁.loop r.epoch r.generation r.restored r.rest).2)
      (s₁.loop r.epoch r.generation r.restored r.rest).1
  | forward {event : ClientEvent} {terminal : Bool} : s.supervisor = .forwarding event terminal →
    Move s [] { s with
      inbox := s.inbox ++ [event], supervisor := if terminal then .finished else .receiving }

/-- The arms of `supervise`. -/
theorem onEvent_cases (event : Stamped) :
    (∃ reason, event.2 = .disconnected reason ∧ onEvent event = .losing reason) ∨
    (∃ epoch, event.2 = .resubscribe epoch ∧ onEvent event = .replaying epoch event.1) ∨
    (∃ e terminal, (∀ epoch, event.2 ≠ .resubscribe epoch) ∧
      onEvent event = .forwarding e terminal) := by
  obtain ⟨g, event⟩ := event
  cases event with
  | disconnected reason => exact .inl ⟨reason, rfl, rfl⟩
  | resubscribe epoch => exact .inr (.inl ⟨epoch, rfl, rfl⟩)
  | frame message =>
    have hforward : ∃ e, onEvent (g, .frame message) = .forwarding e false := by
      simp only [onEvent]
      cases message.asStreamEvent with
      | some stream => exact ⟨_, rfl⟩
      | none => exact ⟨_, rfl⟩
    obtain ⟨e, he⟩ := hforward
    exact .inr (.inr ⟨e, false, by simp, he⟩)
  | _ => exact .inr (.inr ⟨_, _, by simp, rfl⟩)

/-- The head of the loop of a replay shows nothing of the runner, -/
theorem wires_loop {note : Note} (hnote : wires [note] = []) (s : System) (epoch : Epoch)
    (g restored : ℕ) (entries : List Replayed) :
    wires (note :: (s.loop epoch g restored entries).2) = [] := by
  rw [← List.singleton_append, wires_append, hnote]
  cases entries <;> rfl

/-- and neither does what a call of `Connection::subscribe` returns. -/
theorem wires_notes (c : Caller) (p : Progress) : wires (p.notes c) = [] := by
  cases p <;> rfl

/-- The supervisor's steps are moves. -/
theorem supervise_move (hs : s.supervise = some (s', o)) : s.Move o s' := by
  unfold supervise at hs
  split at hs
  · next hsup =>
    -- A lag, an event, or the end of the channel.
    split at hs
    · next missed ring hrecv =>
      obtain ⟨rfl, rfl⟩ := Prod.mk.inj (Option.some.inj hs)
      exact .lag hsup hrecv
    · next event ring hrecv =>
      obtain ⟨rfl, rfl⟩ := Prod.mk.inj (Option.some.inj hs)
      exact .receive hsup hrecv
    · obtain ⟨hstopped, hs⟩ := Option.ite_none_right_eq_some.mp hs
      obtain ⟨rfl, rfl⟩ := Prod.mk.inj (Option.some.inj hs)
      exact .finish (.inl ⟨hsup, hstopped⟩)
  · next reason hsup =>
    obtain ⟨rfl, rfl⟩ := Prod.mk.inj (Option.some.inj hs)
    exact .lose hsup
  · next epoch g hsup =>
    obtain ⟨rfl, rfl⟩ := Prod.mk.inj (Option.some.inj hs)
    exact .snapshot hsup
  · -- A subscribe call of the replay makes progress.
    next r call hsup =>
    obtain ⟨⟨s₁, p⟩, hp, he⟩ := Option.map_eq_some_iff.mp hs
    obtain ⟨rfl, rfl⟩ := Prod.mk.inj he
    exact .issue hsup (connectionSubscribe_progresses hp)
  · next r newId hsup =>
    obtain ⟨rfl, rfl⟩ := Prod.mk.inj (Option.some.inj hs)
    exact .rekey hsup rfl
  · next r error hsup =>
    obtain ⟨rfl, rfl⟩ := Prod.mk.inj (Option.some.inj hs)
    exact .remove hsup rfl
  · next event terminal hsup =>
    -- Nobody listens any more, or the event goes into the inbox.
    split at hs
    · obtain ⟨rfl, rfl⟩ := Prod.mk.inj (Option.some.inj hs)
      exact .finish (.inr ⟨event, terminal, hsup⟩)
    · obtain ⟨-, hs⟩ := Option.ite_none_right_eq_some.mp hs
      obtain ⟨rfl, rfl⟩ := Prod.mk.inj (Option.some.inj hs)
      exact .forward hsup
  · simp at hs

theorem resume_move {k : ℕ} (hs : s.resume k = some (s', o)) : s.Move o s' := by
  unfold resume at hs
  split at hs
  · next key call hcall =>
    obtain ⟨⟨s₁, p⟩, hp, he⟩ := Option.map_eq_some_iff.mp hs
    obtain ⟨rfl, rfl⟩ := Prod.mk.inj he
    exact .resume hcall (connectionSubscribe_progresses hp)
  · next key id hcall =>
    obtain ⟨rfl, rfl⟩ := Prod.mk.inj (Option.some.inj hs)
    exact .record hcall
  · simp at hs

/-- What is at the front of the channel. -/
theorem front_eq {called : Bool} {command : Command Caller} {dropped : Bool}
    (hf : s.front called = some (some (command, dropped))) :
    ∃ rest, s.commands = command :: rest := by
  unfold front at hf
  split at hf
  · next _ command' rest hcommands =>
    obtain ⟨rfl, -⟩ := Prod.mk.inj (Option.some.inj (Option.some.inj hf))
    exact ⟨rest, hcommands⟩
  · split at hf <;> simp at hf
  · simp at hf

theorem advance_move {input : Input Caller} (hs : s.advance input = some (s', o))
    (hoffer : ∀ command dropped, input.offer = some (command, dropped) →
      ∃ rest, s.commands = command :: rest) : s.Move o s' := by
  obtain ⟨⟨world, o'⟩, hw, he⟩ := Option.map_eq_some_iff.mp hs
  obtain ⟨rfl, rfl⟩ := Prod.mk.inj he
  exact .runner hw hoffer rfl rfl rfl

/-- **What a step can do.** -/
theorem step_move {label : Label} (hs : s.step label = some (s', o)) : s.Move o s' := by
  cases label with
  | env input =>
    obtain ⟨hplain, hs⟩ := Option.ite_none_right_eq_some.mp hs
    refine advance_move hs fun command dropped hoffer => ?_
    -- A plain input offers the runner no command.
    cases input with
    | command | poll => simp [Input.isPlain] at hplain
    | _ => simp [Input.offer] at hoffer
  | idle called =>
    simp only [step] at hs
    split at hs
    · next offered hfront =>
      refine advance_move hs fun command dropped hoffer => ?_
      exact front_eq (hfront.trans (congrArg some hoffer))
    · simp at hs
  | poll read offered called timer =>
    refine advance_move hs fun command dropped hoffer => ?_
    cases offered with
    | false => simp [Input.offer] at hoffer
    | true =>
      simp only [if_true] at hoffer
      cases hfront : s.front called with
      | none => simp [hfront, Input.offer] at hoffer
      | some x =>
        rw [hfront] at hoffer
        exact front_eq (hfront.trans (congrArg some hoffer))
  | subscribe stream event =>
    obtain ⟨-, hs⟩ := Option.ite_none_right_eq_some.mp hs
    obtain ⟨rfl, rfl⟩ := Prod.mk.inj (Option.some.inj hs)
    exact .subscribe _
  | resume k => exact resume_move hs
  | drop k =>
    simp only [step] at hs
    split at hs
    · next call hcall =>
      split at hs
      · simp at hs
      · next hover =>
        obtain ⟨rfl, rfl⟩ := Prod.mk.inj (Option.some.inj hs)
        exact .drop hcall (Bool.eq_false_iff.mpr hover)
    · simp at hs
  | call method params =>
    obtain ⟨-, hs⟩ := Option.ite_none_right_eq_some.mp hs
    obtain ⟨rfl, rfl⟩ := Prod.mk.inj (Option.some.inj hs)
    exact .ask method params
  | shutdown =>
    obtain ⟨-, hs⟩ := Option.ite_none_right_eq_some.mp hs
    obtain ⟨rfl, rfl⟩ := Prod.mk.inj (Option.some.inj hs)
    exact .shutdown
  | supervise => exact supervise_move hs
  | receive =>
    simp only [step] at hs
    split at hs
    · obtain ⟨rfl, rfl⟩ := Prod.mk.inj (Option.some.inj hs)
      exact .quiet _ _ _
    · simp at hs
  | dropHandle =>
    obtain ⟨-, hs⟩ := Option.ite_none_right_eq_some.mp hs
    obtain ⟨rfl, rfl⟩ := Prod.mk.inj (Option.some.inj hs)
    exact .quiet _ _ _
  | dropEvents =>
    obtain ⟨-, hs⟩ := Option.ite_none_right_eq_some.mp hs
    obtain ⟨rfl, rfl⟩ := Prod.mk.inj (Option.some.inj hs)
    exact .quiet _ _ _

end System

/-! ### Oneshots -/

namespace Slots

/-- The id an observation sends to a caller. -/
def ackIn (c : Caller) : Seen Caller → Option String
  | (_, .took command _ (some out)) => if command.ack = some c then out.mark.map Mark.id else none
  | _ => none

/-- The reply an observation sends to a caller. -/
def replyIn (c : Caller) : Seen Caller → Option Reply
  | (_, .settled _ _ (.caller c') reply) => if c' = c then some reply else none
  | _ => none

theorem ack_deliver (slots : Slots) (x : Seen Caller) (c : Caller) :
    (slots.deliver x).ack c = (ackIn c x).or (slots.ack c) := by
  obtain ⟨g, y⟩ := x
  cases y with
  | took command phase out =>
    cases out with
    | none => rfl
    | some out =>
      simp only [deliver, ackIn]
      split
      · next c' m hc' hm =>
        by_cases h : c = c'
        · subst h
          simp [hc', hm]
        · simp [hc', h, Ne.symm h]
      · next hnone =>
        split
        · next hc =>
          cases hm : out.mark with
          | none => rfl
          | some m => exact absurd hm (hnone c m hc)
        · rfl
  | settled cause m waiter reply => cases waiter <;> rfl
  | _ => rfl

theorem reply_deliver (slots : Slots) (x : Seen Caller) (c : Caller) :
    (slots.deliver x).reply c = (replyIn c x).or (slots.reply c) := by
  obtain ⟨g, y⟩ := x
  cases y with
  | took command phase out =>
    cases out with
    | none => rfl
    | some out =>
      simp only [deliver, replyIn]
      split <;> rfl
  | settled cause m waiter reply =>
    cases waiter with
    | login => rfl
    | caller c' =>
      by_cases h : c = c'
      · simp [deliver, replyIn, h]
      · simp [deliver, replyIn, h, Ne.symm h]
  | _ => rfl

/-- What was sent to a caller is the last that the history sends to it. -/
theorem foldl_deliver (h : List (Seen Caller)) (c : Caller) :
    (h.foldl deliver empty).ack c = (h.filterMap (ackIn c)).getLast? ∧
      (h.foldl deliver empty).reply c = (h.filterMap (replyIn c)).getLast? := by
  induction h using List.reverseRecOn with
  | nil => exact ⟨rfl, rfl⟩
  | append_singleton h x ih =>
    obtain ⟨hack, hreply⟩ := ih
    rw [List.foldl_append, List.foldl_cons, List.foldl_nil, ack_deliver, reply_deliver, hack,
      hreply, List.filterMap_append, List.filterMap_append, List.getLast?_append,
      List.getLast?_append]
    constructor
    · cases hx : ackIn c x <;> simp [hx]
    · cases hx : replyIn c x <;> simp [hx]

/-- An id that was sent to a caller is that of a call registered for it. -/
theorem tookOn_of_ack {h : List (Seen Caller)} {c : Caller} {id : String}
    (ha : (h.foldl deliver empty).ack c = some id) : ∃ g m, TookOn g h c m ∧ m.id = id := by
  rw [(foldl_deliver _ c).1] at ha
  obtain ⟨⟨g, y⟩, hx, hid⟩ := List.mem_filterMap.mp (List.mem_of_getLast? ha)
  unfold ackIn at hid
  split at hid
  · next command phase out heq =>
    obtain ⟨rfl, rfl⟩ := Prod.mk.inj heq
    obtain ⟨hack, hid⟩ := Option.ite_none_right_eq_some.mp hid
    obtain ⟨m, hm, rfl⟩ := Option.map_eq_some_iff.mp hid
    exact ⟨g, m, ⟨command, phase, out, hx, hack, hm⟩, rfl⟩
  · simp at hid

end Slots

/-- What the runner took was at the front of the channel it was offered from. -/
theorem World.tookCommands_append_drop {κ : Type} {w w' : World κ} {input : Input κ}
    {o : List (Seen κ)} {commands : List (Command κ)} (hs : w.step input = some (w', o))
    (hoffer : ∀ command dropped, input.offer = some (command, dropped) →
      ∃ rest, commands = command :: rest) :
    tookCommands o ++ commands.drop (tookCommands o).length = commands := by
  rcases World.tookCommands_step hs with htook | htook
  · rw [htook]
    rfl
  · rw [htook]
    cases hinput : input.offer with
    | none => rfl
    | some x =>
      obtain ⟨rest, rfl⟩ := hoffer x.1 x.2 hinput
      rfl

/-- The call of a caller was registered under an id. -/
def AckedAs (h : List Note) (c : Caller) (id : String) : Prop :=
  ∃ g m, TookOn g (wires h) c m ∧ m.id = id

/-- A caller was sent a reply. -/
def RepliedWith (h : List Note) (c : Caller) (reply : Reply) : Prop :=
  ∃ g cause m, (g, .settled cause m (.caller c) reply) ∈ wires h

theorem TookOn.mono {h o : List (Seen Caller)} {g : ℕ} {c : Caller} {m : Mark}
    (ht : TookOn g h c m) : TookOn g (h ++ o) c m := by
  obtain ⟨command, phase, out, hx, hack, hm⟩ := ht
  exact ⟨command, phase, out, List.mem_append_left _ hx, hack, hm⟩

theorem AckedAs.mono {h o : List Note} {c : Caller} {id : String} (ha : AckedAs h c id) :
    AckedAs (h ++ o) c id := by
  obtain ⟨g, m, ht, hm⟩ := ha
  exact ⟨g, m, by rw [wires_append]; exact ht.mono, hm⟩

theorem RepliedWith.mono {h o : List Note} {c : Caller} {reply : Reply}
    (hr : RepliedWith h c reply) : RepliedWith (h ++ o) c reply := by
  obtain ⟨g, cause, m, hx⟩ := hr
  exact ⟨g, cause, m, by rw [wires_append]; exact List.mem_append_left _ hx⟩

section slots

variable {h : List Note} {s : System} {c : Caller}

theorem acked_of_ack (hs : s.slots = (wires h).foldl Slots.deliver .empty) {id : String}
    (ha : s.slots.ack c = some id) : AckedAs h c id := by
  rw [hs] at ha
  exact Slots.tookOn_of_ack ha

theorem not_took_of_ack (hs : s.slots = (wires h).foldl Slots.deliver .empty)
    (ha : s.slots.ack c = none) {g : ℕ} {m : Mark} : ¬ TookOn g (wires h) c m := by
  rintro ⟨command, phase, out, hx, hack, hm⟩
  rw [hs, (Slots.foldl_deliver _ c).1, List.getLast?_eq_none_iff, List.filterMap_eq_nil_iff] at ha
  simpa [Slots.ackIn, hack, hm] using ha _ hx

theorem replied_of_reply (hs : s.slots = (wires h).foldl Slots.deliver .empty) {reply : Reply}
    (hr : s.slots.reply c = some reply) : RepliedWith h c reply := by
  rw [hs, (Slots.foldl_deliver _ c).2] at hr
  obtain ⟨⟨g, y⟩, hx, hreply⟩ := List.mem_filterMap.mp (List.mem_of_getLast? hr)
  unfold Slots.replyIn at hreply
  split at hreply
  · next cause m c' reply' heq =>
    obtain ⟨rfl, rfl⟩ := Prod.mk.inj heq
    obtain ⟨hc, hsome⟩ := Option.ite_none_right_eq_some.mp hreply
    subst hc
    exact ⟨g, cause, m, Option.some.inj hsome ▸ hx⟩
  · simp at hreply

theorem not_replied_of_reply (hs : s.slots = (wires h).foldl Slots.deliver .empty)
    (hr : s.slots.reply c = none) (reply : Reply) : ¬ RepliedWith h c reply := by
  rintro ⟨g, cause, m, hx⟩
  rw [hs, (Slots.foldl_deliver _ c).2, List.getLast?_eq_none_iff, List.filterMap_eq_nil_iff] at hr
  simpa [Slots.replyIn] using hr _ hx

end slots

/-! ### The ties -/

/-- Where the outcome of a call of `Connection::subscribe` comes from: an id is the one its
call was registered under, and a reply without error was sent; an error is the reply, or the
runner stopped without sending one. -/
def OutcomeOf (h : List Note) (c : Caller) : Except CallError String → Prop
  | .ok id => AckedAs h c id ∧ ∃ v, RepliedWith h c (.ok v)
  | .error e => RepliedWith h c (.error e) ∨
    e = .notSent ∧ .stopped ∈ h ∧ ∀ reply, ¬ RepliedWith h c reply

/-- The caller makes calls of `Connection::subscribe`, and began this one. -/
def Caller.Began (h : List Note) : Caller → Prop
  | .subscribe _ => True
  | .replay n => ∃ old, .issued n old ∈ h
  | .call _ => False

/-- What a task shows of itself follows from what it was told. -/
def NoteAt (h : List Note) : Note → Prop
  | .returned c outcome => c.Began h ∧ OutcomeOf h c outcome
  | .inserted k id => .returned (.subscribe k) (.ok id) ∈ h
  | .rekeyed n old new => .issued n old ∈ h ∧ .returned (.replay n) (.ok new) ∈ h
  | .removed n old error => .issued n old ∈ h ∧ .returned (.replay n) (.error error) ∈ h
  | _ => True

/-- What a call of `Client::subscribe` knows is so. -/
def Call.Sound (h : List Note) (k : ℕ) : Call → Prop
  | .subscribing _ (.waiting id) => AckedAs h (.subscribe k) id
  | .recording _ id => .returned (.subscribe k) (.ok id) ∈ h
  | _ => True

/-- A replay in the middle of its loop began to re-issue its entry. -/
def Replay.Began (h : List Note) (replays : ℕ) (r : Replay) : Prop :=
  r.index < replays ∧ .issued r.index r.entry.1 ∈ h

/-- What the supervisor knows is so. -/
def Supervisor.Sound (h : List Note) (replays : ℕ) : Supervisor → Prop
  | .issuing r call => r.Began h replays ∧
    ∀ id, call = .waiting id → AckedAs h (.replay r.index) id
  | .rekeying r newId => r.Began h replays ∧ .returned (.replay r.index) (.ok newId) ∈ h
  | .removing r error => r.Began h replays ∧ .returned (.replay r.index) (.error error) ∈ h
  | _ => True

theorem Replay.Began.mono {h o : List Note} {replays : ℕ} {r : Replay}
    (hr : r.Began h replays) : r.Began (h ++ o) replays :=
  ⟨hr.1, List.mem_append_left _ hr.2⟩

theorem Call.Sound.mono {h o : List Note} {k : ℕ} {call : Call} (hc : call.Sound h k) :
    call.Sound (h ++ o) k := by
  cases call with
  | subscribing key call =>
    cases call with
    | waiting id => exact AckedAs.mono hc
    | _ => trivial
  | recording key id => exact List.mem_append_left _ hc
  | _ => trivial

theorem Supervisor.Sound.mono {h o : List Note} {replays : ℕ} {supervisor : Supervisor}
    (hs : supervisor.Sound h replays) : supervisor.Sound (h ++ o) replays := by
  cases supervisor with
  | issuing r call => exact ⟨hs.1.mono, fun id hid => (hs.2 id hid).mono⟩
  | rekeying r newId => exact ⟨hs.1.mono, List.mem_append_left _ hs.2⟩
  | removing r error => exact ⟨hs.1.mono, List.mem_append_left _ hs.2⟩
  | _ => trivial

/-- A call of `Client::subscribe` past its send. -/
def Call.Past (call : Call) : Prop := ∀ key, call ≠ .subscribing key .sending

namespace System

/-- The callers whose commands were posted. -/
def acks (h : List Note) (s : System) : List Caller :=
  (tookCommands (wires h) ++ s.commands).filterMap Command.ack

/-- A caller whose command was posted is past the send. -/
def Posted (s : System) : Caller → Prop
  | .subscribe k => ∃ call, s.calls[k]? = some call ∧ call.Past
  | .replay n => n < s.replays ∧ ∀ r, s.supervisor = .issuing r .sending → r.index ≠ n
  | .call j => j < s.asked

end System

/-- The commands of subscriptions are subscriptions. -/
def Command.Subscribes (command : Command Caller) : Prop :=
  ∀ c, command.ack = some c → (∀ j, c ≠ .call j) → command.side = .subs

/-- The ties between the tasks and the runner. -/
structure Linked (config : Config) (h : List Note) (s : System) : Prop where
  run : Run World.step (World.init config) (wires h) s.world
  slots : s.slots = (wires h).foldl Slots.deliver .empty
  nodup : (s.acks h).Nodup
  posted : ∀ c ∈ s.acks h, s.Posted c
  subscribes : ∀ command ∈ tookCommands (wires h) ++ s.commands, command.Subscribes
  calls : ∀ k call, s.calls[k]? = some call → Call.Sound h k call
  supervisor : s.supervisor.Sound h s.replays
  stopped : s.stopped = true → .stopped ∈ h
  notes : Each NoteAt h

/-! ### What the runner shows reaches the tasks -/

namespace System

variable {s s' : System}

theorem state_see (x : Seen Caller) (s : System) : (see x).state s = { s with
    slots := s.slots.deliver x, ring := (emittedEvents [x]).foldl BroadcastRing.send s.ring } := by
  obtain ⟨g, y⟩ := x
  cases y <;> rfl

/-- What the runner showed changes the oneshots and the ring, and nothing else. -/
theorem state_forM_see (o : List (Seen Caller)) (s : System) : (o.forM see).state s = { s with
    slots := o.foldl Slots.deliver s.slots,
    ring := (emittedEvents o).foldl BroadcastRing.send s.ring } := by
  induction o generalizing s with
  | nil => rfl
  | cons x o ih =>
    have hsplit : emittedEvents (x :: o) = emittedEvents [x] ++ emittedEvents o :=
      emittedEvents_append [x] o
    refine (ih ((see x).state s)).trans ?_
    rw [state_see, hsplit, List.foldl_append, List.foldl_cons]

theorem obs_see (x : Seen Caller) (s : System) :
    ∃ rest, (see x).obs s = .wire x :: rest ∧
      ∀ note ∈ rest, ∃ lost left, note = .overwrote lost left := by
  obtain ⟨g, y⟩ := x
  cases y with
  | emitted event =>
    refine ⟨_, rfl, fun note hn => ?_⟩
    split at hn
    · next lost hlost => exact ⟨lost, _, List.mem_singleton.mp hn⟩
    · simp at hn
  | _ => exact ⟨[], rfl, by simp⟩

theorem wires_forM_see (o : List (Seen Caller)) (s : System) :
    wires ((o.forM see).obs s) = o := by
  induction o generalizing s with
  | nil => rfl
  | cons x o ih =>
    obtain ⟨rest, hx, hrest⟩ := obs_see x s
    have hnil : wires rest = [] := by
      rw [wires, List.filterMap_eq_nil_iff]
      intro note hn
      obtain ⟨lost, left, rfl⟩ := hrest note hn
      rfl
    have hobs : ((x :: o).forM see).obs s =
        (see x).obs s ++ (o.forM see).obs ((see x).state s) := rfl
    rw [hobs, hx, List.cons_append, wires, List.filterMap_cons, ← wires, wires_append, hnil, ih]
    rfl

/-- The runner shows itself, and what its broadcasts overwrite. -/
theorem mem_forM_see {o : List (Seen Caller)} {note : Note} (hn : note ∈ (o.forM see).obs s) :
    (∃ x ∈ o, note = .wire x) ∨ ∃ lost left, note = .overwrote lost left := by
  induction o generalizing s with
  | nil => simp at hn
  | cons x o ih =>
    obtain ⟨rest, hx, hrest⟩ := obs_see x s
    have hobs : ((x :: o).forM see).obs s =
        (see x).obs s ++ (o.forM see).obs ((see x).state s) := rfl
    rw [hobs, hx, List.mem_append] at hn
    rcases hn with hn | hn
    · rcases List.mem_cons.mp hn with rfl | hn
      · exact .inl ⟨x, List.mem_cons_self .., rfl⟩
      · exact .inr (hrest note hn)
    · rcases ih hn with ⟨y, hy, rfl⟩ | h
      · exact .inl ⟨y, List.mem_cons_of_mem _ hy, rfl⟩
      · exact .inr h

/-- What a step of the runner shows. -/
theorem mem_runner {s₁ : System} {o : List (Seen Caller)} {notes : List Note}
    (hnotes : notes = (o.forM see).obs s₁ ++ (if s₁.stopped && !s.stopped then [.stopped] else []))
    {note : Note} (hn : note ∈ notes) :
    (∃ x ∈ o, note = .wire x) ∨ (∃ lost left, note = .overwrote lost left) ∨ note = .stopped := by
  rw [hnotes, List.mem_append] at hn
  rcases hn with hn | hn
  · exact (mem_forM_see hn).imp_right .inl
  · split at hn
    · exact .inr (.inr (List.mem_singleton.mp hn))
    · simp at hn

/-- Callers past the send stay there. -/
theorem Posted.mono {c : Caller} (hp : s.Posted c)
    (hcalls : ∀ (k : ℕ) (call : Call), s.calls[k]? = some call → call.Past →
      ∃ call', s'.calls[k]? = some call' ∧ Call.Past call')
    (hreplays : s.replays ≤ s'.replays)
    (hsup : ∀ r, s'.supervisor = .issuing r .sending →
      s.supervisor = .issuing r .sending ∨ s.replays ≤ r.index)
    (hasked : s.asked ≤ s'.asked) : s'.Posted c := by
  cases c with
  | subscribe k =>
    obtain ⟨call, hcall, hne⟩ := hp
    exact hcalls k call hcall hne
  | replay n =>
    obtain ⟨hn, hne⟩ := hp
    refine ⟨Nat.lt_of_lt_of_le hn hreplays, fun r hr => ?_⟩
    rcases hsup r hr with hr | hr
    · exact hne r hr
    · omega
  | call j => exact Nat.lt_of_lt_of_le hp hasked

/-- A call goes on, past the send. -/
theorem getElem?_set_past {calls : List Call} {k : ℕ} {old new : Call}
    (hold : calls[k]? = some old) (hnew : new.Past) (j : ℕ) (call : Call)
    (hj : calls[j]? = some call) (hpast : call.Past) :
    ∃ call', (calls.set k new)[j]? = some call' ∧ Call.Past call' := by
  by_cases h : k = j
  · subst h
    obtain ⟨hk, -⟩ := List.getElem?_eq_some_iff.mp hold
    exact ⟨new, by simp [hk], hnew⟩
  · exact ⟨call, by rw [List.getElem?_set_ne h, hj], hpast⟩

/-- What a call that goes on leaves of the others. -/
theorem sound_set {h : List Note} {calls : List Call} {k : ℕ} {new : Call}
    (hcalls : ∀ j call, calls[j]? = some call → Call.Sound h j call) (hnew : Call.Sound h k new)
    (j : ℕ) (call : Call) (hj : (calls.set k new)[j]? = some call) : Call.Sound h j call := by
  rcases getElem?_of_set hj with ⟨rfl, rfl⟩ | ⟨-, hj⟩
  · exact hnew
  · exact hcalls j call hj

end System

namespace Linked

variable {config : Config} {h o : List Note} {s s' : System}

theorem init : Linked config [] (.init config) where
  run := .start
  slots := rfl
  nodup := List.nodup_nil
  posted := fun c hc => by simp [System.acks, System.init, wires, tookCommands] at hc
  subscribes := fun command hc => by simp [System.init, wires, tookCommands] at hc
  calls := fun k call hc => by simp [System.init] at hc
  supervisor := trivial
  stopped := fun hs => by simp [System.init, System.stopped, World.init] at hs
  notes := each_nil

/-- A step that the runner does not see and that posts nothing. -/
theorem frame (hl : Linked config h s) (hwires : wires o = []) (hworld : s'.world = s.world)
    (hslots : s'.slots = s.slots) (hcommands : s'.commands = s.commands)
    (hposted : ∀ c, s.Posted c → s'.Posted c)
    (hcalls : ∀ k call, s'.calls[k]? = some call → Call.Sound (h ++ o) k call)
    (hsup : s'.supervisor.Sound (h ++ o) s'.replays)
    (hnotes : Each (fun pre x => NoteAt (h ++ pre) x) o) : Linked config (h ++ o) s' := by
  have hsame : wires (h ++ o) = wires h := by rw [wires_append, hwires, List.append_nil]
  have hacks : s'.acks (h ++ o) = s.acks h := by rw [System.acks, System.acks, hsame, hcommands]
  refine ⟨?_, ?_, ?_, ?_, ?_, hcalls, hsup, ?_, each_append.mpr ⟨hl.notes, hnotes⟩⟩
  · rw [hsame, hworld]
    exact hl.run
  · rw [hsame, hslots]
    exact hl.slots
  · rw [hacks]
    exact hl.nodup
  · rw [hacks]
    exact fun c hc => hposted c (hl.posted c hc)
  · rw [hsame, hcommands]
    exact hl.subscribes
  · intro hs
    rw [System.stopped, hworld] at hs
    exact List.mem_append_left _ (hl.stopped hs)

/-- A command is posted, by a caller that posted none. -/
theorem post (hl : Linked config h s) {command : Command Caller} (hworld : s'.world = s.world)
    (hslots : s'.slots = s.slots) (hcommands : s'.commands = s.commands ++ [command])
    (hfresh : ∀ c, command.ack = some c → ¬ s.Posted c ∧ s'.Posted c)
    (hsubscribes : command.Subscribes) (hposted : ∀ c, s.Posted c → s'.Posted c)
    (hcalls : ∀ k call, s'.calls[k]? = some call → Call.Sound h k call)
    (hsup : s'.supervisor.Sound h s'.replays) : Linked config h s' := by
  -- One caller more, whose command was not posted before.
  have hacks : s'.acks h = s.acks h ++ command.ack.toList := by
    rw [System.acks, System.acks, hcommands, ← List.append_assoc, List.filterMap_append]
    cases hack : command.ack <;> simp [hack]
  refine ⟨hworld ▸ hl.run, hslots ▸ hl.slots, ?_, ?_, ?_, hcalls, hsup, ?_, hl.notes⟩
  · -- The callers are distinct: the new one was not among them.
    rw [hacks]
    refine hl.nodup.append ?_ ?_
    · cases command.ack <;> simp
    · intro c hc hc'
      exact (hfresh c (Option.mem_toList.mp hc')).1 (hl.posted c hc)
  · rw [hacks]
    intro c hc
    rcases List.mem_append.mp hc with hc | hc
    · exact hposted c (hl.posted c hc)
    · exact (hfresh c (Option.mem_toList.mp hc)).2
  · -- The commands of the replays are still subscriptions.
    rw [hcommands, ← List.append_assoc]
    intro command' hc
    rcases List.mem_append.mp hc with hc | hc
    · exact hl.subscribes command' hc
    · exact List.mem_singleton.mp hc ▸ hsubscribes
  · intro hs
    rw [System.stopped, hworld] at hs
    exact hl.stopped hs

/-- The runner makes a step. -/
theorem runner (hl : Linked config h s) {input : Input Caller} {world : World Caller}
    {o : List (Seen Caller)} {notes : List Note} {s₁ : System}
    (hw : s.world.step input = some (world, o))
    (hoffer : ∀ command dropped, input.offer = some (command, dropped) →
      ∃ rest, s.commands = command :: rest)
    (hs₁ : s₁ = { s with world, commands := s.commands.drop (tookCommands o).length })
    (hs' : s' = (o.forM System.see).state s₁)
    (hnotes : notes = (o.forM System.see).obs s₁ ++
      (if s₁.stopped && !s.stopped then [.stopped] else [])) :
    Linked config (h ++ notes) s' := by
  rw [System.state_forM_see, hs₁] at hs'
  have hwires : wires notes = o := by
    rw [hnotes, wires_append, System.wires_forM_see]
    split <;> simp [wires]
  have hall : wires (h ++ notes) = wires h ++ o := by rw [wires_append, hwires]
  -- What the runner takes comes off the front of the channel.
  have htook : tookCommands o ++ s.commands.drop (tookCommands o).length = s.commands :=
    World.tookCommands_append_drop hw hoffer
  have hcommands : tookCommands (wires (h ++ notes)) ++ s'.commands =
      tookCommands (wires h) ++ s.commands := by
    rw [hall, tookCommands_append, hs', List.append_assoc, htook]
  have hacks : s'.acks (h ++ notes) = s.acks h := by rw [System.acks, System.acks, hcommands]
  refine ⟨?_, ?_, ?_, ?_, ?_, ?_, ?_, ?_, ?_⟩
  · rw [hall, hs']
    exact hl.run.step hw
  · rw [hall, List.foldl_append, ← hl.slots, hs']
  · rw [hacks]
    exact hl.nodup
  · rw [hacks, hs']
    exact fun c hc => System.Posted.mono (hl.posted c hc)
      (fun k call hk hne => ⟨call, hk, hne⟩) (Nat.le_refl _) (fun r hr => .inl hr) (Nat.le_refl _)
  · rw [hcommands]
    exact hl.subscribes
  · rw [hs']
    exact fun k call hk => (hl.calls k call hk).mono
  · rw [hs']
    exact hl.supervisor.mono
  · intro hstopped
    have hstopped₁ : s₁.stopped = true := by
      rw [hs'] at hstopped
      rw [hs₁, System.stopped]
      exact hstopped
    cases hs : s.stopped with
    | true => exact List.mem_append_left _ (hl.stopped hs)
    | false => simp [hnotes, hstopped₁, hs]
  · refine each_append.mpr ⟨hl.notes, fun pre x post hp => ?_⟩
    have hx : x ∈ notes := by simp [hp]
    rcases System.mem_runner hnotes hx with ⟨y, -, rfl⟩ | ⟨lost, left, rfl⟩ | rfl
    · trivial
    · trivial
    · trivial

/-- What a call of `Connection::subscribe` returns is what it was sent. -/
theorem outcome (hl : Linked config h s) {c : Caller} {name : String} {params : List Value}
    {call : SubCall} {s₁ : System} {outcome : Except CallError String}
    (hack : ∀ id, call = .waiting id → AckedAs h c id)
    (hposted : call = .sending → ¬ s.Posted c)
    (hp : s.Progresses c name params call s₁ (.returns outcome)) :
    s₁ = s ∧ OutcomeOf h c outcome := by
  -- A caller whose command was not taken was sent no reply.
  have hreplied : ∀ reply, RepliedWith h c reply → ∃ g m, TookOn g (wires h) c m := by
    rintro reply ⟨g, cause, m, hx⟩
    have hledger := (World.attended hl.run).1
    exact ⟨g, m, hledger.fates.settledWaiter g cause m _ _ hx⟩
  cases hp with
  | ok hreply => exact ⟨rfl, hack _ rfl, _, replied_of_reply hl.slots hreply⟩
  | error hreply => exact ⟨rfl, .inl (replied_of_reply hl.slots hreply)⟩
  | abandon hstopped hcall =>
    refine ⟨rfl, .inr ⟨rfl, hl.stopped hstopped, fun reply hr => ?_⟩⟩
    rcases hcall with rfl | ⟨-, hnone⟩ | ⟨-, hnone⟩
    · obtain ⟨g, m, command, phase, out, hx, hack, -⟩ := hreplied reply hr
      have hmem : c ∈ s.acks h := by
        refine List.mem_filterMap.mpr ⟨command, List.mem_append_left _ ?_, hack⟩
        exact List.mem_filterMap.mpr ⟨_, hx, rfl⟩
      exact hposted rfl (hl.posted c hmem)
    · obtain ⟨g, m, ht⟩ := hreplied reply hr
      exact not_took_of_ack hl.slots hnone ht
    · exact not_replied_of_reply hl.slots hnone reply hr

/-- A call of `Client::subscribe` makes progress. -/
theorem resume (hl : Linked config h s) {k : ℕ} {key : StreamKey} {call : SubCall} {s₁ : System}
    {p : Progress} (hcall : s.calls[k]? = some (.subscribing key call))
    (hp : s.Progresses (.subscribe k) key.publication key.params call s₁ p) :
    Linked config (h ++ p.notes (.subscribe k))
      { s₁ with calls := s₁.calls.set k (.after key p) } := by
  -- A call that is still sending has posted no command.
  have hunposted : call = .sending → ¬ s.Posted (.subscribe k) := by
    rintro rfl ⟨call', hcall', hpast⟩
    obtain rfl := Option.some.inj (hcall.symm.trans hcall')
    exact hpast key rfl
  have hack : ∀ id, call = .waiting id → AckedAs h (.subscribe k) id := by
    rintro id rfl
    exact hl.calls k _ hcall
  cases p with
  | goesOn call' =>
    have hpast : Call.Past (.after key (.goesOn call')) := by
      cases hp <;> simp [Call.after, Call.Past]
    cases hp with
    | send hstopped =>
      show Linked config (h ++ []) _
      rw [List.append_nil]
      refine hl.post rfl rfl rfl ?_ ?_ ?_ ?_ hl.supervisor
      · rintro c hc
        obtain rfl := Option.some.inj hc
        refine ⟨hunposted rfl, _, ?_, hpast⟩
        obtain ⟨hk, -⟩ := List.getElem?_eq_some_iff.mp hcall
        simp [hk]
      · exact fun c _ _ => rfl
      · exact fun c hc => hc.mono (System.getElem?_set_past hcall hpast) (Nat.le_refl _)
          (fun r hr => .inl hr) (Nat.le_refl _)
      · exact System.sound_set hl.calls trivial
    | register hid =>
      refine hl.frame rfl rfl rfl rfl ?_ ?_ hl.supervisor.mono each_nil
      · exact fun c hc => hc.mono (System.getElem?_set_past hcall hpast) (Nat.le_refl _)
          (fun r hr => .inl hr) (Nat.le_refl _)
      · exact System.sound_set (fun j call hj => (hl.calls j call hj).mono)
          (acked_of_ack hl.slots hid).mono
  | returns outcome =>
    obtain ⟨rfl, houtcome⟩ := hl.outcome hack hunposted hp
    have hpast : Call.Past (.after key (.returns outcome)) := by
      cases outcome <;> simp [Call.after, Call.Past]
    refine hl.frame rfl rfl rfl rfl ?_ ?_ hl.supervisor.mono ?_
    · exact fun c hc => hc.mono (System.getElem?_set_past hcall hpast) (Nat.le_refl _)
        (fun r hr => .inl hr) (Nat.le_refl _)
    · refine System.sound_set (fun j call hj => (hl.calls j call hj).mono) ?_
      cases outcome with
      | ok id => exact List.mem_append_right _ (List.mem_singleton_self _)
      | error e => trivial
    · refine each_singleton.mpr ?_
      rw [List.append_nil]
      exact ⟨trivial, houtcome⟩

/-- A replay makes progress. -/
theorem issue (hl : Linked config h s) {r : Replay} {call : SubCall} {s₁ : System}
    {p : Progress} (hsup : s.supervisor = .issuing r call)
    (hp : s.Progresses (.replay r.index) r.entry.2.1.publication r.entry.2.2 call s₁ p) :
    Linked config (h ++ p.notes (.replay r.index)) { s₁ with supervisor := .after r p } := by
  have hsound := hl.supervisor
  rw [hsup] at hsound
  -- The replay itself posts the command of its entry.
  have hunposted : call = .sending → ¬ s.Posted (.replay r.index) := by
    rintro rfl ⟨-, hne⟩
    exact hne r hsup rfl
  -- The call goes on, or it is over.
  cases p with
  | goesOn call' =>
    have hpast : ∀ r', Supervisor.after r (.goesOn call') ≠ .issuing r' .sending := by
      cases hp <;> simp [Supervisor.after]
    cases hp with
    | send hstopped =>
      show Linked config (h ++ []) _
      rw [List.append_nil]
      refine hl.post rfl rfl rfl ?_ ?_ ?_ hl.calls ⟨hsound.1, by simp⟩
      · -- Only a call that has not posted yet can post.
        rintro c hc
        obtain rfl := Option.some.inj hc
        exact ⟨hunposted rfl, hsound.1.1, fun r' hr => absurd hr (hpast r')⟩
      · exact fun c _ _ => rfl
      · exact fun c hc => hc.mono (fun k call hk hp => ⟨call, hk, hp⟩) (Nat.le_refl _)
          (fun r' hr => absurd hr (hpast r')) (Nat.le_refl _)
    | register hid =>
      refine hl.frame rfl rfl rfl rfl ?_ (fun k call hk => (hl.calls k call hk).mono) ?_ each_nil
      · exact fun c hc => hc.mono (fun k call hk hp => ⟨call, hk, hp⟩) (Nat.le_refl _)
          (fun r' hr => absurd hr (hpast r')) (Nat.le_refl _)
      · refine ⟨hsound.1.mono, fun id hid' => ?_⟩
        -- The id it waits under is the one the runner acknowledged.
        obtain rfl := SubCall.waiting.inj hid'
        exact (acked_of_ack hl.slots hid).mono
  | returns outcome =>
    obtain ⟨rfl, houtcome⟩ := hl.outcome hsound.2 hunposted hp
    have hpast : ∀ r', Supervisor.after r (.returns outcome) ≠ .issuing r' .sending := by
      cases outcome <;> simp [Supervisor.after]
    refine hl.frame rfl rfl rfl rfl ?_ (fun k call hk => (hl.calls k call hk).mono) ?_ ?_
    · exact fun c hc => hc.mono (fun k call hk hp => ⟨call, hk, hp⟩) (Nat.le_refl _)
        (fun r' hr => absurd hr (hpast r')) (Nat.le_refl _)
    · -- What comes next is due to the outcome that is noted.
      cases outcome with
      | ok id => exact ⟨hsound.1.mono, List.mem_append_right _ (List.mem_singleton_self _)⟩
      | error e => exact ⟨hsound.1.mono, List.mem_append_right _ (List.mem_singleton_self _)⟩
    · refine each_singleton.mpr ?_
      rw [List.append_nil]
      exact ⟨⟨_, hsound.1.2⟩, houtcome⟩

/-- The head of the loop of a replay. -/
theorem loop (hl : Linked config h s) (note : Note) (hnote : NoteAt h note)
    (hwires : wires [note] = []) {s₁ : System} {registry : Registry}
    (hs₁ : s₁ = { s with registry }) (epoch : Epoch) (g restored : ℕ) (entries : List Replayed) :
    Linked config (h ++ note :: (s₁.loop epoch g restored entries).2)
      (s₁.loop epoch g restored entries).1 := by
  subst hs₁
  -- The note at the head is right, and so is what the loop adds to it.
  have hnotes : ∀ rest, (∀ x ∈ rest, ∀ pre, NoteAt pre x) →
      Each (fun pre x => NoteAt (h ++ pre) x) (note :: rest) := by
    refine fun rest hrest => each_cons.mpr ⟨by simpa using hnote, ?_⟩
    exact fun pre x post hp => hrest x (by simp [hp]) _
  cases entries with
  | nil =>
    refine hl.frame (System.wires_loop hwires _ _ _ _ _) rfl rfl rfl ?_
      (fun k call hk => (hl.calls k call hk).mono) trivial ?_
    · exact fun c hc => hc.mono (fun k call hk hp => ⟨call, hk, hp⟩) (Nat.le_refl _)
        (fun r hr => by simp [System.loop] at hr) (Nat.le_refl _)
    · exact hnotes _ (by simp [System.loop, NoteAt])
  | cons entry rest =>
    refine hl.frame (System.wires_loop hwires _ _ _ _ _) rfl rfl rfl ?_
      (fun k call hk => (hl.calls k call hk).mono) ?_ ?_
    · refine fun c hc => hc.mono (fun k call hk hp => ⟨call, hk, hp⟩) (Nat.le_succ _)
        (fun r hr => .inr ?_) (Nat.le_refl _)
      -- The replay of the next entry is new, so it has posted nothing.
      obtain ⟨rfl, -⟩ := Supervisor.issuing.inj hr
      exact Nat.le_refl _
    · exact ⟨⟨Nat.lt_succ_self _, by simp [System.loop]⟩, by simp⟩
    · exact hnotes _ (by simp [System.loop, NoteAt])

/-- The supervisor goes on to something that needs no tie. -/
theorem supervise (hl : Linked config h s) (hwires : wires o = []) (hworld : s'.world = s.world)
    (hslots : s'.slots = s.slots) (hcommands : s'.commands = s.commands)
    (hcalls : s'.calls = s.calls) (hasked : s'.asked = s.asked) (hreplays : s'.replays = s.replays)
    (hsup : ∀ r call, s'.supervisor ≠ .issuing r call)
    (hsound : s'.supervisor.Sound (h ++ o) s'.replays)
    (hnotes : Each (fun pre x => NoteAt (h ++ pre) x) o) : Linked config (h ++ o) s' := by
  refine hl.frame hwires hworld hslots hcommands ?_ ?_ hsound hnotes
  · exact fun c hc => hc.mono (fun k call hk hp => ⟨call, hcalls ▸ hk, hp⟩) hreplays.ge
      (fun r hr => absurd hr (hsup r _)) hasked.ge
  · exact fun k call hk => (hl.calls k call (hcalls ▸ hk)).mono

/-- **Every step keeps the ties.** -/
theorem move (hl : Linked config h s) (hm : s.Move o s') : Linked config (h ++ o) s' := by
  -- A command that is posted stays so while its caller waits.
  have hposted : ∀ {s' : System}, s'.calls = s.calls → s'.replays = s.replays →
      s'.supervisor = s.supervisor → s.asked ≤ s'.asked → ∀ c, s.Posted c → s'.Posted c := by
    intro s' hcalls hreplays hsup hasked c hc
    exact hc.mono (fun k call hk hp => ⟨call, hcalls ▸ hk, hp⟩) hreplays.ge
      (fun r hr => .inl (hsup ▸ hr)) hasked
  cases hm with
  | runner hw hoffer hs₁ hs' hnotes => exact hl.runner hw hoffer hs₁ hs' hnotes
  | quiet inbox handle listening =>
    exact hl.frame rfl rfl rfl rfl (hposted rfl rfl rfl (Nat.le_refl _))
      (fun k call hk => (hl.calls k call hk).mono) hl.supervisor.mono each_nil
  | ask method params =>
    rw [List.append_nil]
    refine hl.post rfl rfl rfl ?_ ?_ (hposted rfl rfl rfl (Nat.le_succ _)) hl.calls hl.supervisor
    · rintro c hc
      obtain rfl := Option.some.inj hc
      exact ⟨Nat.lt_irrefl _, Nat.lt_succ_self _⟩
    · rintro c hc hcall
      obtain rfl := Option.some.inj hc
      exact absurd rfl (hcall _)
  | shutdown =>
    rw [List.append_nil]
    exact hl.post rfl rfl rfl (fun c hc => by simp [Command.ack] at hc)
      (fun c hc => by simp [Command.ack] at hc) (hposted rfl rfl rfl (Nat.le_refl _)) hl.calls
      hl.supervisor
  | subscribe key =>
    refine hl.frame rfl rfl rfl rfl ?_ ?_ hl.supervisor.mono each_nil
    · refine fun c hc => hc.mono (fun k call hk hp => ⟨call, ?_, hp⟩) (Nat.le_refl _)
        (fun r hr => .inl hr) (Nat.le_refl _)
      rw [List.getElem?_append_left (List.getElem?_eq_some_iff.mp hk).1, hk]
    · intro k call hk
      rcases getElem?_of_concat hk with ⟨-, rfl⟩ | hk
      · trivial
      · exact (hl.calls k call hk).mono
  | drop hcall hover =>
    refine hl.frame rfl rfl rfl rfl ?_ ?_ hl.supervisor.mono each_nil
    · exact fun c hc => hc.mono (System.getElem?_set_past hcall (by simp [Call.Past]))
        (Nat.le_refl _) (fun r hr => .inl hr) (Nat.le_refl _)
    · exact System.sound_set (fun j call hj => (hl.calls j call hj).mono) trivial
  | resume hcall hp => exact hl.resume hcall hp
  | record hcall =>
    refine hl.frame rfl rfl rfl rfl ?_ ?_ hl.supervisor.mono (each_singleton.mpr ?_)
    · exact fun c hc => hc.mono (System.getElem?_set_past hcall (by simp [Call.Past]))
        (Nat.le_refl _) (fun r hr => .inl hr) (Nat.le_refl _)
    · exact System.sound_set (fun j call hj => (hl.calls j call hj).mono) trivial
    · rw [List.append_nil]
      exact hl.calls _ _ hcall
  | lag hsup hrecv =>
    exact hl.supervise rfl rfl rfl rfl rfl rfl rfl (by simp) trivial each_nil
  | receive hsup hrecv =>
    rename_i event ring
    refine hl.supervise rfl rfl rfl rfl rfl rfl rfl ?_ ?_ (each_singleton.mpr trivial)
    all_goals
      rcases System.onEvent_cases event with ⟨reason, -, he⟩ | ⟨epoch, -, he⟩ | ⟨e, terminal, -, he⟩
      all_goals simp [he, Supervisor.Sound]
  | finish hsup => exact hl.supervise rfl rfl rfl rfl rfl rfl rfl (by simp) trivial each_nil
  | lose hsup => exact hl.supervise rfl rfl rfl rfl rfl rfl rfl (by simp) trivial each_nil
  | @snapshot epoch g hsup =>
    exact hl.loop (.replayStarted g _) trivial rfl rfl _ _ _ _
  | issue hsup hp => exact hl.issue hsup hp
  | @rekey r newId s₁ hsup hs₁ =>
    have hsound := hl.supervisor
    rw [hsup] at hsound
    exact hl.loop (.rekeyed r.index r.entry.1 newId) ⟨hsound.1.2, hsound.2⟩ rfl hs₁ _ _ _ _
  | @remove r error s₁ hsup hs₁ =>
    have hsound := hl.supervisor
    rw [hsup] at hsound
    exact hl.loop (.removed r.index r.entry.1 error) ⟨hsound.1.2, hsound.2⟩ rfl hs₁ _ _ _ _
  | forward hsup =>
    rename_i event terminal
    refine hl.supervise rfl rfl rfl rfl rfl rfl rfl ?_ ?_ each_nil
    · cases terminal <;> simp
    · cases terminal <;> trivial

/-- A caller's command is taken once, under one mark. -/
theorem took_unique (hl : Linked config h s) {g g' : ℕ} {c : Caller} {m m' : Mark}
    (ht : TookOn g (wires h) c m) (ht' : TookOn g' (wires h) c m') : g = g' ∧ m = m' := by
  obtain ⟨command, phase, out, hx, hack, hm⟩ := ht
  obtain ⟨command', phase', out', hx', hack', hm'⟩ := ht'
  have hnodup : ((tookCommands (wires h)).filterMap Command.ack).Nodup := by
    have hacks := hl.nodup
    rw [System.acks, List.filterMap_append] at hacks
    exact hacks.of_append_left
  rw [tookCommands, List.filterMap_filterMap] at hnodup
  have heq := eq_of_nodup_filterMap hnodup hx hx' hack hack'
  obtain ⟨rfl, htook⟩ := Prod.mk.inj heq
  obtain ⟨-, -, hout⟩ := Obs.took.inj htook
  obtain rfl := Option.some.inj hout
  exact ⟨rfl, Option.some.inj (hm.symm.trans hm')⟩

/-- A call of `Connection::subscribe` that returned was told its outcome before. -/
theorem of_returned (hl : Linked config h s) {c : Caller} {outcome : Except CallError String}
    {pre rest : List Note} (hpre : h = pre ++ rest) (hx : .returned c outcome ∈ pre) :
    ∃ pre' rest', pre = pre' ++ .returned c outcome :: rest' ∧ c.Began pre' ∧
      OutcomeOf pre' c outcome := by
  obtain ⟨pre', rest', rfl⟩ := List.append_of_mem hx
  obtain ⟨hbegan, houtcome⟩ := hl.notes pre' (.returned c outcome) (rest' ++ rest) (by simp [hpre])
  exact ⟨pre', rest', rfl, hbegan, houtcome⟩

/-- A caller whose command was taken is past the send. -/
theorem posted_of_took (hl : Linked config h s) {g : ℕ} {c : Caller} {m : Mark}
    (ht : TookOn g (wires h) c m) : s.Posted c := by
  obtain ⟨command, phase, out, hx, hack, -⟩ := ht
  refine hl.posted c (List.mem_filterMap.mpr ⟨command, List.mem_append_left _ ?_, hack⟩)
  exact List.mem_filterMap.mpr ⟨_, hx, rfl⟩

/-- What `Connection::subscribe` registers is a subscription. -/
theorem side_of_took (hl : Linked config h s) {g : ℕ} {c : Caller} {m : Mark}
    (ht : TookOn g (wires h) c m) (hc : ∀ j, c ≠ .call j) : m.side = .subs := by
  obtain ⟨command, phase, out, hx, hack, hm⟩ := ht
  have hmem : command ∈ tookCommands (wires h) := List.mem_filterMap.mpr ⟨_, hx, rfl⟩
  have hside : command.side = .subs := hl.subscribes command (List.mem_append_left _ hmem) c hack hc
  have hlawful := (World.attended hl.run).1.lawful _ hx
  cases command with
  | subscribe name params ack =>
    obtain ⟨id, rfl⟩ := hlawful
    obtain rfl := Option.some.inj hm
    rfl
  | call method params ack => simp [Command.side] at hside
  | unsubscribe id => simp [Command.ack] at hack
  | shutdown => simp [Command.ack] at hack

/-- A reply without an error is due to a `ready` that lists the id, or to a `nosub` without an
error. -/
theorem cause_of_ok (hl : Linked config h s) {g : ℕ} {cause : Option ServerMessage} {m : Mark}
    {c : Caller} {v : Value} (hc : ∀ j, c ≠ .call j)
    (hx : (g, .settled cause m (.caller c) (.ok v)) ∈ wires h) :
    m.side = .subs ∧ ((∃ subs, cause = some (.ready subs) ∧ m.id ∈ subs) ∨
      cause = some (.nosub m.id none)) := by
  have hledger := (World.attended hl.run).1
  have hside : m.side = .subs :=
    hl.side_of_took (hledger.fates.settledWaiter g cause m _ _ hx) hc
  refine ⟨hside, ?_⟩
  have hlawful := hledger.lawful _ hx
  cases cause with
  | none =>
    -- The end of a generation sends errors.
    rcases hlawful with hreply | hreply <;> simp at hreply
  | some message =>
    obtain ⟨outcome, hanswers, hreply⟩ := hlawful
    cases hanswers with
    | result => simp at hside
    | failure => simp at hside
    | refusal => simp [Except.mapError] at hreply
    | nosub => exact .inr rfl
    | ready hid => exact .inl ⟨_, rfl, hid⟩

/-- An id that `Connection::subscribe` returned is the one its command was taken under, and
its caller was sent a reply without an error. -/
theorem settled_of_returned (hl : Linked config h s) {c : Caller} {id : String}
    (hx : .returned c (.ok id) ∈ h) : (∀ j, c ≠ .call j) ∧ ∃ g cause v,
      TookOn g (wires h) c ⟨.subs, id⟩ ∧
      (g, .settled cause ⟨.subs, id⟩ (.caller c) (.ok v)) ∈ wires h := by
  obtain ⟨pre, rest, rfl, hbegan, hacked, v, hreplied⟩ :=
    hl.of_returned (List.append_nil h).symm hx
  have hacked : AckedAs (pre ++ .returned c (.ok id) :: rest) c id := hacked.mono
  have hreplied : RepliedWith (pre ++ .returned c (.ok id) :: rest) c (.ok v) := hreplied.mono
  have hc : ∀ j, c ≠ .call j := by
    rintro j rfl
    exact hbegan
  obtain ⟨g, m, htook, rfl⟩ := hacked
  obtain ⟨g', cause, m', hsettled⟩ := hreplied
  have htook' := (World.attended hl.run).1.fates.settledWaiter g' cause m' _ _ hsettled
  obtain ⟨rfl, rfl⟩ := hl.took_unique htook' htook
  have hm : (⟨.subs, m'.id⟩ : Mark) = m' := by rw [← hl.side_of_took htook hc]
  exact ⟨hc, g', cause, v, hm.symm ▸ htook, hm.symm ▸ hsettled⟩

end Linked

/-- **Every state of every run keeps the ties.** -/
theorem linked_run {config : Config} {h : List Note} {s : System}
    (hrun : Run System.step (System.init config) h s) : Linked config h s :=
  hrun.invariant .init fun hl hs => hl.move (System.step_move hs)

/-! ### Runs to start from -/

/-- The sink takes a frame and flushes it, and the runner polls its sources next. -/
def written : List Label :=
  [.env (.sink (.ready (.ok ()))), .env (.sink .pending), .env (.flush (some (.ok ())))]

/-- Nothing is written before the runner polls its sources. -/
def unwritten : List Label := [.env (.sink .pending), .env (.flush none)]

/-- A frame is received. -/
def hears (message : ServerMessage) : Label :=
  .poll (some (.frame (.text (some message)))) false false false

/-- A connection is opened and becomes ready; the id of its login is given. -/
def connects (login : String) : List Label :=
  [.env (.begin 0), .env .opened] ++ written ++ [hears (.connected "session")] ++ written ++
    [hears (.result login none none)]

/-- The first call of `Client::subscribe` is made, and its `sub` is written. -/
def subscribes : List Label :=
  [.subscribe "room-messages" "GENERAL", .resume 0] ++ unwritten ++
    [.poll none true false false] ++ written ++ [.resume 0]

/-- The connection is lost. -/
def losesConnection : List Label := unwritten ++ [.poll (some .eof) false false false]

end RocketSocket
