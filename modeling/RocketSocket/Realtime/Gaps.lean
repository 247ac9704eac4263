import RocketSocket.Lib.Account
import RocketSocket.Realtime.ClientRun
import RocketSocket.Realtime.Ends
import RocketSocket.Realtime.Lifecycle
import RocketSocket.Realtime.Missed

/-!
# No event is lost in silence

Between the runner and the application lie the broadcast ring, the supervisor and a bounded
channel.  Each may be slow; the ring overwrites what is not read in time.  What the application
takes is nevertheless a full account of what the runner emitted: each event in its turn and
once, or counted in a `Lagged` that stands in the place of the events it counts.

## Main definitions

* `Tells` — the event the application gets for one of the connection.
* `Listener`, `Listener.step` — the client, and what `ClientEvents::recv` returned so far.
* `Supervisor.Holds` — the events the supervisor read and has not passed on.
* `Listener.Accounts` — what is taken, on its way and unread makes up what was emitted.

## Main results

* `Listener.step_accounts` — every step keeps the account.
* `accounts_run` — **what the application took accounts for what was emitted**, and for all of
  it once the stream ended.
-/

namespace RocketSocket

open Machine

/-! ### What the application is told -/

/-- The event the application gets for one of the connection. -/
inductive Tells : Event → ClientEvent → Prop
  | stream {message : ServerMessage} {stream : StreamFrame} :
    message.asStreamEvent = some stream →
      Tells (.frame message) (.stream ⟨stream.stream, stream.eventName⟩ stream.args)
  | resubscribed {epoch : Epoch} (restored : ℕ) :
    Tells (.resubscribe epoch) (.resubscribed epoch restored)
  | connection {event : Event} : (∀ epoch, event ≠ .resubscribe epoch) →
    (∀ message, event = .frame message → message.asStreamEvent = none) →
      Tells event (.connection event)

/-- So many events were missed. -/
def ClientEvent.gap (missed : ℕ) : ClientEvent := .connection (.lagged missed)

/-- How many events of the connection an event stands for. -/
def ClientEvent.weight : ClientEvent → ℕ
  | .connection (.lagged missed) => missed
  | _ => 1

/-- What the application took accounts for events of the connection. -/
abbrev AccountsFor (events : List Stamped) (taken : List ClientEvent) : Prop :=
  Account (fun e => Tells e.2) ClientEvent.gap events taken

/-! ### The application -/

/-- The client, and what `ClientEvents::recv` returned to the application. -/
structure Listener where
  system : System
  taken : List ClientEvent

namespace Listener

/-- `Client::spawn`. -/
def init (config : Config) : Listener := ⟨.init config, []⟩

/-- What `ClientEvents::recv` returns in a step. -/
def returns (s : System) : Label → List ClientEvent
  | .receive => s.inbox.head?.toList
  | _ => []

/-- One step of any task; where the application receives, it keeps what it gets. -/
def step (l : Listener) (label : Label) : Option (Listener × List Note) :=
  (l.system.step label).map fun (system, o) => (⟨system, l.taken ++ returns l.system label⟩, o)

/-- `ClientEvents::recv` returns `None`: the channel is empty and the supervisor returned. -/
def Ended (l : Listener) : Prop := l.system.inbox = [] ∧ l.system.supervisor = .finished

/-- A run of the listener is a run of the client, -/
theorem run_system {config : Config} {h : List Note} {l : Listener}
    (hrun : Run step (init config) h l) : Run System.step (System.init config) h l.system := by
  induction hrun with
  | start => exact .start
  | step _ hs ih =>
    obtain ⟨⟨system, o⟩, hsys, he⟩ := Option.map_eq_some_iff.mp hs
    obtain ⟨rfl, rfl⟩ := Prod.mk.inj he
    exact ih.step hsys

/-- and every run of the client is one of the listener. -/
theorem run_of_system {config : Config} {h : List Note} {s : System}
    (hrun : Run System.step (System.init config) h s) :
    ∃ taken, Run step (init config) h ⟨s, taken⟩ := by
  induction hrun with
  | start => exact ⟨[], .start⟩
  | @step _ s _ label _ _ hs ih =>
    obtain ⟨taken, ih⟩ := ih
    refine ⟨taken ++ returns s label, ih.step (i := label) ?_⟩
    simp only [step, hs, Option.map_some]

end Listener

/-! ### What is on its way -/

/-- The events the supervisor read and has not passed on; what it held when it returned is not
passed on any more. -/
def Supervisor.Holds (hand : List Stamped) : Supervisor → Prop
  | .receiving => hand = []
  | .losing reason => ∃ g, hand = [(g, .disconnected reason)]
  | .replaying epoch g => hand = [(g, .resubscribe epoch)]
  | .issuing r _ | .rekeying r _ | .removing r _ => hand = [(r.generation, .resubscribe r.epoch)]
  | .forwarding event terminal =>
    (∃ e, hand = [e] ∧ Tells e.2 event ∧ (terminal = true → ∃ fatal, e.2 = .fatal fatal)) ∨
      (hand ≠ [] ∧ event = .gap hand.length ∧ terminal = false)
  | .finished => True

/-- **The account** of what was emitted: what was taken and waits to be taken, then what the
supervisor holds, then what the ring holds.  A supervisor that returned while the application was
listening left nothing behind. -/
def Listener.Accounts (sent : List Stamped) (l : Listener) : Prop :=
  ∃ told hand, AccountsFor told (l.taken ++ l.system.inbox) ∧ l.system.supervisor.Holds hand ∧
    l.system.ring.Holds (told ++ hand) sent ∧
    (l.system.supervisor = .finished → l.system.listening = true →
      l.system.stopped = true ∧ told = sent)

namespace Listener

variable {h o : List Note} {sent : List Stamped} {l l' : Listener} {s s' : System}
  {taken : List ClientEvent}

/-- Before the first step. -/
theorem accounts_init (config : Config) : Accounts [] (init config) :=
  ⟨[], [], .nil, rfl, BroadcastRing.holds_new _, fun hend => by simp [init, System.init] at hend⟩

/-! ### The runner -/

theorem stopped_iff : s.stopped = true ↔ s.world.location = .stopped := by
  unfold System.stopped
  split <;> simp_all

/-- A runner that stopped shows nothing more. -/
theorem step_of_stopped {w w' : World Caller} {input : Input Caller} {seen : List (Seen Caller)}
    (hw : w.location = .stopped) (hs : w.step input = some (w', seen)) :
    seen = [] ∧ w'.location = .stopped := by
  rcases World.step_cases hs with ⟨elapsed, -, rfl, rfl⟩ | ⟨x, hx, -⟩
  · exact ⟨rfl, hw⟩
  · exact absurd hw hx.not_stopped

/-- What a step of the runner does to the client. -/
theorem advance_spec {input : Input Caller} (hs : s.advance input = some (s', o)) :
    s.world.step input = some (s'.world, wires o) ∧
      s'.ring = (emittedEvents (wires o)).foldl BroadcastRing.send s.ring ∧
      s'.inbox = s.inbox ∧ s'.supervisor = s.supervisor ∧ s'.listening = s.listening := by
  obtain ⟨⟨world, seen⟩, hw, he⟩ := Option.map_eq_some_iff.mp hs
  obtain ⟨hs', ho⟩ := Prod.mk.inj he
  have hwires : wires o = seen := by
    rw [← ho, wires_append, System.wires_forM_see]
    split <;> simp [wires]
  rw [← hs', System.state_forM_see, hwires]
  exact ⟨hw, rfl, rfl, rfl, rfl⟩

/-- The runner goes on: what it emits goes into the ring. -/
theorem Accounts.advance (ha : Accounts sent ⟨s, taken⟩) {input : Input Caller}
    (hs : s.advance input = some (s', o)) :
    Accounts (sent ++ emittedEvents (wires o)) ⟨s', taken⟩ := by
  obtain ⟨told, hand, haccount, hhand, hring, hreturned⟩ := ha
  obtain ⟨hw, hring', hinbox, hsupervisor, hlistening⟩ := advance_spec hs
  refine ⟨told, hand, ?_, ?_, ?_, ?_⟩ <;> simp only [hinbox, hring', hsupervisor, hlistening]
  · exact haccount
  · exact hhand
  · exact hring.foldl_send _
  · -- Where the supervisor returned the runner had stopped, and emits nothing.
    intro hend hlistens
    obtain ⟨hstopped, rfl⟩ := hreturned hend hlistens
    obtain ⟨hnothing, hstopped'⟩ := step_of_stopped (stopped_iff.mp hstopped) hw
    exact ⟨stopped_iff.mpr hstopped', by simp [hnothing, emittedEvents]⟩

/-! ### The application -/

/-- The application takes an event. -/
theorem Accounts.receive (ha : Accounts sent ⟨s, taken⟩) {event : ClientEvent}
    {inbox : List ClientEvent} (hinbox : s.inbox = event :: inbox) :
    Accounts sent ⟨{ s with inbox }, taken ++ [event]⟩ := by
  obtain ⟨told, hand, haccount, hrest⟩ := ha
  refine ⟨told, hand, ?_, hrest⟩
  simp only [hinbox] at haccount
  simpa using haccount

/-- The application stops to listen. -/
theorem Accounts.dropEvents (ha : Accounts sent ⟨s, taken⟩) :
    Accounts sent ⟨{ s with listening := false }, taken⟩ := by
  obtain ⟨told, hand, haccount, hhand, hring, -⟩ := ha
  exact ⟨told, hand, haccount, hhand, hring, fun _ hlistens => Bool.noConfusion hlistens⟩

/-- A step that touches nothing between the runner and the application. -/
theorem Accounts.frame (ha : Accounts sent ⟨s, taken⟩) (hinbox : s'.inbox = s.inbox)
    (hring : s'.ring = s.ring) (hsupervisor : s'.supervisor = s.supervisor)
    (hlistening : s'.listening = s.listening) (hworld : s'.world = s.world) :
    Accounts sent ⟨s', taken⟩ := by
  have hstopped : s'.stopped = s.stopped := by simp only [System.stopped, hworld]
  simpa only [Accounts, hinbox, hring, hsupervisor, hlistening, hstopped] using ha

/-- What a step of `Connection::subscribe` leaves alone. -/
theorem connectionSubscribe_frame {c : Caller} {name : String} {params : List Value}
    {call : SubCall} {s₁ : System} {p : Progress}
    (hs : s.connectionSubscribe c name params call = some (s₁, p)) :
    s₁.inbox = s.inbox ∧ s₁.ring = s.ring ∧ s₁.supervisor = s.supervisor ∧
      s₁.listening = s.listening ∧ s₁.world = s.world := by
  rw [(System.connectionSubscribe_progresses hs).frame]
  exact ⟨rfl, rfl, rfl, rfl, rfl⟩

/-- A call of `Client::subscribe` goes on. -/
theorem Accounts.resume (ha : Accounts sent ⟨s, taken⟩) {k : ℕ}
    (hs : s.resume k = some (s', o)) : Accounts sent ⟨s', taken⟩ := by
  unfold System.resume at hs
  split at hs
  · next key call hcall =>
    obtain ⟨⟨s₁, p⟩, hp, he⟩ := Option.map_eq_some_iff.mp hs
    obtain ⟨rfl, -⟩ := Prod.mk.inj he
    obtain ⟨hinbox, hring, hsupervisor, hlistening, hworld⟩ := connectionSubscribe_frame hp
    exact ha.frame hinbox hring hsupervisor hlistening hworld
  · obtain ⟨rfl, -⟩ := Prod.mk.inj (Option.some.inj hs)
    exact ha.frame rfl rfl rfl rfl rfl
  · simp at hs

/-! ### The supervisor -/

/-- The supervisor goes on with the events it holds. -/
theorem Accounts.holds (ha : Accounts sent ⟨s, taken⟩) (hinbox : s'.inbox = s.inbox)
    (hring : s'.ring = s.ring) (hne : s'.supervisor ≠ .finished)
    (hholds : ∀ hand, s.supervisor.Holds hand → s'.supervisor.Holds hand) :
    Accounts sent ⟨s', taken⟩ := by
  obtain ⟨told, hand, haccount, hhand, hring', -⟩ := ha
  exact ⟨told, hand, by rwa [hinbox], hholds hand hhand, by rwa [hring],
    fun hend => absurd hend hne⟩

/-- The arm of an event holds it. -/
theorem holds_onEvent (e : Stamped) :
    (System.onEvent e).Holds [e] ∧ System.onEvent e ≠ .finished := by
  obtain ⟨g, event⟩ := e
  cases event with
  | disconnected reason => exact ⟨⟨g, rfl⟩, by simp [System.onEvent]⟩
  | resubscribe epoch => exact ⟨rfl, by simp [System.onEvent]⟩
  | fatal fatal =>
    exact ⟨.inl ⟨_, rfl, .connection (by simp) (by simp), fun _ => ⟨fatal, rfl⟩⟩,
      by simp [System.onEvent]⟩
  | frame message =>
    simp only [System.onEvent]
    split
    · next stream hstream => exact ⟨.inl ⟨_, rfl, .stream hstream, by simp⟩, by simp⟩
    · next hnone =>
      refine ⟨.inl ⟨_, rfl, .connection (by simp) fun message' heq => ?_, by simp⟩, by simp⟩
      obtain rfl := Event.frame.inj heq
      exact hnone
  | _ => exact ⟨.inl ⟨_, rfl, .connection (by simp) (by simp), by simp⟩, by simp [System.onEvent]⟩

/-- The supervisor reads that it missed events, -/
theorem Accounts.lag (ha : Accounts sent ⟨s, taken⟩) (hreceiving : s.supervisor = .receiving)
    {missed : ℕ} {ring : BroadcastRing Stamped} (hx : s.ring.recv = some (.lagged missed, ring)) :
    Accounts sent ⟨{ s with
      ring, supervisor := .forwarding (.connection (.lagged missed)) false }, taken⟩ := by
  obtain ⟨told, hand, haccount, hhand, hring, -⟩ := ha
  simp only [hreceiving] at hhand
  obtain rfl : hand = [] := hhand
  rw [List.append_nil] at hring
  rcases hring.recv hx with ⟨lost, hne, hmissed, hring'⟩ | ⟨e, he, -⟩
  · obtain rfl := Received.lagged.inj hmissed
    exact ⟨told, lost, haccount, .inr ⟨hne, rfl, rfl⟩, hring', fun hend => by simp at hend⟩
  · simp at he

/-- or the next event. -/
theorem Accounts.next (ha : Accounts sent ⟨s, taken⟩) (hreceiving : s.supervisor = .receiving)
    {e : Stamped} {ring : BroadcastRing Stamped} (hx : s.ring.recv = some (.value e, ring)) :
    Accounts sent ⟨{ s with ring, supervisor := System.onEvent e }, taken⟩ := by
  obtain ⟨told, hand, haccount, hhand, hring, -⟩ := ha
  simp only [hreceiving] at hhand
  obtain rfl : hand = [] := hhand
  rw [List.append_nil] at hring
  rcases hring.recv hx with ⟨lost, -, hmissed, -⟩ | ⟨a, he, hring'⟩
  · simp at hmissed
  · obtain rfl := Received.value.inj he
    obtain ⟨hhand, hne⟩ := holds_onEvent e
    exact ⟨told, [e], haccount, hhand, hring', fun hend => absurd hend hne⟩

/-- The head of the loop of a replay still holds the event that asked for it. -/
theorem Accounts.loop (ha : Accounts sent ⟨s, taken⟩) {s₁ : System} (epoch : Epoch)
    (g restored : ℕ) (entries : List Replayed) (hinbox : s₁.inbox = s.inbox)
    (hring : s₁.ring = s.ring)
    (hheld : ∀ hand, s.supervisor.Holds hand → hand = [(g, .resubscribe epoch)]) :
    Accounts sent ⟨(s₁.loop epoch g restored entries).1, taken⟩ := by
  cases entries with
  | nil =>
    refine ha.holds hinbox hring (by simp [System.loop]) fun hand hhand => ?_
    exact .inl ⟨_, hheld hand hhand, .resubscribed restored, by simp⟩
  | cons entry rest =>
    exact ha.holds hinbox hring (by simp [System.loop]) hheld

/-- The supervisor passes on what it holds; behind a fatal failure there is nothing. -/
theorem Accounts.forward (ha : Accounts sent ⟨s, taken⟩) {event : ClientEvent} {terminal : Bool}
    (hforwarding : s.supervisor = .forwarding event terminal)
    (hlast : ∀ told g fatal rest, sent = told ++ [(g, .fatal fatal)] ++ rest →
      rest = [] ∧ s.stopped = true) :
    Accounts sent ⟨{ s with
      inbox := s.inbox ++ [event]
      supervisor := if terminal then .finished else .receiving }, taken⟩ := by
  obtain ⟨told, hand, haccount, hhand, hring, -⟩ := ha
  simp only [hforwarding] at hhand
  -- The event is the one in hand, or stands for what was missed.
  have haccount' : AccountsFor (told ++ hand) (taken ++ (s.inbox ++ [event])) := by
    rw [← List.append_assoc]
    rcases hhand with ⟨e, rfl, htells, -⟩ | ⟨hne, rfl, -⟩
    · exact haccount.told htells
    · exact haccount.missed hne
  refine ⟨told ++ hand, [], haccount', ?_, by rwa [List.append_nil], ?_⟩
  · cases terminal with
    | false => exact rfl
    | true => exact trivial
  · intro hend _
    -- Behind a fatal failure nothing is told any more.
    rcases hhand with ⟨⟨g, e⟩, rfl, -, hfatal⟩ | ⟨-, -, rfl⟩
    · cases terminal with
      | false => simp at hend
      | true =>
        obtain ⟨fatal, rfl⟩ := hfatal rfl
        obtain ⟨lost, rfl, -⟩ := hring
        obtain ⟨hnothing, hstopped⟩ := hlast told g fatal _ rfl
        exact ⟨hstopped, by rw [hnothing, List.append_nil]⟩
    · simp at hend

/-- The supervisor returns because nobody listens, -/
theorem Accounts.abandon (ha : Accounts sent ⟨s, taken⟩) (hlistening : s.listening = false) :
    Accounts sent ⟨{ s with supervisor := .finished }, taken⟩ := by
  obtain ⟨told, hand, haccount, -, hring, -⟩ := ha
  exact ⟨told, hand, haccount, trivial, hring, fun _ hlistens =>
    absurd (hlistening.symm.trans hlistens) Bool.false_ne_true⟩

/-- or because the stream ended and everything was read. -/
theorem Accounts.finish (ha : Accounts sent ⟨s, taken⟩) (hreceiving : s.supervisor = .receiving)
    (hnone : s.ring.recv = none) (hstopped : s.stopped = true) :
    Accounts sent ⟨{ s with supervisor := .finished }, taken⟩ := by
  obtain ⟨told, hand, haccount, hhand, hring, -⟩ := ha
  simp only [hreceiving] at hhand
  obtain rfl : hand = [] := hhand
  have hall := hring.eq_of_recv_eq_none hnone
  rw [List.append_nil] at hall
  exact ⟨told, [], haccount, trivial, hring, fun _ _ => ⟨hstopped, hall.symm⟩⟩

/-- **The supervisor keeps the account.** -/
theorem Accounts.supervise (ha : Accounts sent ⟨s, taken⟩)
    (hlast : ∀ told g fatal rest, sent = told ++ [(g, .fatal fatal)] ++ rest →
      rest = [] ∧ s.stopped = true)
    (hs : s.supervise = some (s', o)) : Accounts sent ⟨s', taken⟩ := by
  unfold System.supervise at hs
  split at hs
  · next hsupervisor =>
    split at hs
    · next missed ring hx =>
      obtain ⟨rfl, -⟩ := Prod.mk.inj (Option.some.inj hs)
      exact ha.lag hsupervisor hx
    · next e ring hx =>
      obtain ⟨rfl, -⟩ := Prod.mk.inj (Option.some.inj hs)
      exact ha.next hsupervisor hx
    · next hnone =>
      obtain ⟨hstopped, hs⟩ := Option.ite_none_right_eq_some.mp hs
      obtain ⟨rfl, -⟩ := Prod.mk.inj (Option.some.inj hs)
      exact ha.finish hsupervisor hnone hstopped
  · next reason hsupervisor =>
    obtain ⟨rfl, -⟩ := Prod.mk.inj (Option.some.inj hs)
    -- The loss of the connection is in hand until it is forwarded.
    refine ha.holds rfl rfl (by simp) fun hand hhand => ?_
    rw [hsupervisor] at hhand
    obtain ⟨g, rfl⟩ := hhand
    exact .inl ⟨_, rfl, .connection (by simp) (by simp), by simp⟩
  · next epoch g hsupervisor =>
    obtain ⟨rfl, -⟩ := Prod.mk.inj (Option.some.inj hs)
    exact ha.loop epoch g 0 _ rfl rfl fun hand hhand => by rwa [hsupervisor] at hhand
  · next r call hsupervisor =>
    obtain ⟨⟨s₁, p⟩, hp, he⟩ := Option.map_eq_some_iff.mp hs
    obtain ⟨rfl, -⟩ := Prod.mk.inj he
    obtain ⟨hinbox, hring, -⟩ := connectionSubscribe_frame hp
    -- All through the replay the one event in hand is that it takes place.
    have hafter : ∀ p, Supervisor.after r p ≠ .finished ∧
        (Supervisor.after r p).Holds [(r.generation, .resubscribe r.epoch)] := by
      rintro (call | (error | id)) <;> exact ⟨by simp [Supervisor.after], rfl⟩
    refine ha.holds hinbox hring (hafter p).1 fun hand hhand => ?_
    rw [hsupervisor] at hhand
    obtain rfl : hand = _ := hhand
    exact (hafter p).2
  · next r newId hsupervisor =>
    obtain ⟨rfl, -⟩ := Prod.mk.inj (Option.some.inj hs)
    exact ha.loop r.epoch r.generation _ r.rest rfl rfl fun hand hhand => by
      rwa [hsupervisor] at hhand
  · next r error hsupervisor =>
    obtain ⟨rfl, -⟩ := Prod.mk.inj (Option.some.inj hs)
    exact ha.loop r.epoch r.generation _ r.rest rfl rfl fun hand hhand => by
      rwa [hsupervisor] at hhand
  · next event terminal hsupervisor =>
    -- Nobody listens any more, or the event goes into the inbox.
    split at hs
    · next hlistening =>
      obtain ⟨rfl, -⟩ := Prod.mk.inj (Option.some.inj hs)
      exact ha.abandon (by simpa using hlistening)
    · obtain ⟨-, hs⟩ := Option.ite_none_right_eq_some.mp hs
      obtain ⟨rfl, -⟩ := Prod.mk.inj (Option.some.inj hs)
      exact ha.forward hsupervisor hlast
  · simp at hs

/-- The supervisor shows nothing of the runner, -/
theorem wires_supervise (hs : s.supervise = some (s', o)) : wires o = [] := by
  unfold System.supervise at hs
  split at hs
  · split at hs
    · exact (Prod.mk.inj (Option.some.inj hs)).2 ▸ rfl
    · exact (Prod.mk.inj (Option.some.inj hs)).2 ▸ rfl
    · obtain ⟨-, hs⟩ := Option.ite_none_right_eq_some.mp hs
      exact (Prod.mk.inj (Option.some.inj hs)).2 ▸ rfl
  · exact (Prod.mk.inj (Option.some.inj hs)).2 ▸ rfl
  · exact (Prod.mk.inj (Option.some.inj hs)).2 ▸ System.wires_loop rfl ..
  · obtain ⟨⟨s₁, p⟩, -, he⟩ := Option.map_eq_some_iff.mp hs
    exact (Prod.mk.inj he).2 ▸ System.wires_notes ..
  · exact (Prod.mk.inj (Option.some.inj hs)).2 ▸ System.wires_loop rfl ..
  · exact (Prod.mk.inj (Option.some.inj hs)).2 ▸ System.wires_loop rfl ..
  · split at hs
    · exact (Prod.mk.inj (Option.some.inj hs)).2 ▸ rfl
    · obtain ⟨-, hs⟩ := Option.ite_none_right_eq_some.mp hs
      exact (Prod.mk.inj (Option.some.inj hs)).2 ▸ rfl
  · simp at hs

/-- and neither does a call of `Client::subscribe`. -/
theorem wires_resume {k : ℕ} (hs : s.resume k = some (s', o)) : wires o = [] := by
  unfold System.resume at hs
  split at hs
  · obtain ⟨⟨s₁, p⟩, -, he⟩ := Option.map_eq_some_iff.mp hs
    exact (Prod.mk.inj he).2 ▸ System.wires_notes ..
  · exact (Prod.mk.inj (Option.some.inj hs)).2 ▸ rfl
  · simp at hs

/-- Nothing was emitted, and nothing taken. -/
theorem Accounts.quiet (ha : Accounts sent ⟨s, taken⟩) :
    Accounts (sent ++ emittedEvents (wires [])) ⟨s, taken ++ []⟩ := by
  simpa [wires, emittedEvents] using ha

/-- **Every step keeps the account.** -/
theorem step_accounts {label : Label} (ha : Accounts sent l)
    (hlast : ∀ told g fatal rest, sent = told ++ [(g, .fatal fatal)] ++ rest →
      rest = [] ∧ l.system.stopped = true)
    (hs : l.step label = some (l', o)) : Accounts (sent ++ emittedEvents (wires o)) l' := by
  obtain ⟨s, taken⟩ := l
  obtain ⟨⟨s', o'⟩, hsys, he⟩ := Option.map_eq_some_iff.mp hs
  obtain ⟨rfl, rfl⟩ := Prod.mk.inj he
  -- The account changes where the runner emits, the supervisor moves or an event is received.
  cases label with
  | env input =>
    obtain ⟨-, hsys⟩ := Option.ite_none_right_eq_some.mp hsys
    simpa [returns] using ha.advance hsys
  | idle called =>
    simp only [System.step] at hsys
    split at hsys
    · simpa [returns] using ha.advance hsys
    · simp at hsys
  | poll read offered called timer => simpa [returns] using ha.advance hsys
  | resume k => simpa [returns, wires_resume hsys, emittedEvents] using ha.resume hsys
  | supervise => simpa [returns, wires_supervise hsys, emittedEvents] using ha.supervise hlast hsys
  | receive =>
    simp only [System.step] at hsys
    split at hsys
    · next event inbox hinbox =>
      obtain ⟨rfl, rfl⟩ := Prod.mk.inj (Option.some.inj hsys)
      simpa [returns, hinbox, wires, emittedEvents] using ha.receive hinbox
    · simp at hsys
  | dropEvents =>
    obtain ⟨-, hsys⟩ := Option.ite_none_right_eq_some.mp hsys
    obtain ⟨rfl, rfl⟩ := Prod.mk.inj (Option.some.inj hsys)
    exact ha.dropEvents.quiet
  | drop k =>
    simp only [System.step] at hsys
    split at hsys
    · split at hsys
      · simp at hsys
      · -- A call that is dropped has no event in hand.
        obtain ⟨rfl, rfl⟩ := Prod.mk.inj (Option.some.inj hsys)
        exact Accounts.quiet (ha.frame rfl rfl rfl rfl rfl)
    · simp at hsys
  | subscribe | call | shutdown | dropHandle =>
    obtain ⟨-, hsys⟩ := Option.ite_none_right_eq_some.mp hsys
    obtain ⟨rfl, rfl⟩ := Prod.mk.inj (Option.some.inj hsys)
    exact Accounts.quiet (ha.frame rfl rfl rfl rfl rfl)

/-! ### Whole runs -/

/-- Behind a fatal failure nothing is emitted. -/
theorem nothing_after_fatal {seen : List (Seen Caller)} (hsilent : Silent seen)
    {told rest : List Stamped} {g : ℕ} {fatal : Fatal}
    (hsplit : emittedEvents seen = told ++ [(g, .fatal fatal)] ++ rest) :
    Failed seen ∧ rest = [] := by
  have hmem : (g, Event.fatal fatal) ∈ emittedEvents seen := by simp [hsplit]
  refine ⟨⟨_, mem_emittedEvents.mp hmem, trivial⟩, List.eq_nil_iff_forall_not_mem.mpr ?_⟩
  intro e he
  rw [List.append_assoc, emittedEvents, List.filterMap_eq_append_iff] at hsplit
  obtain ⟨pre, post, rfl, -, hpost⟩ := hsplit
  obtain ⟨before, after, rfl, hbefore, hafter⟩ := List.filterMap_eq_append_iff.mp hpost
  -- The failure is among what was shown before the event.
  have hfailed : (g, Event.fatal fatal) ∈ emittedEvents before := by
    rw [emittedEvents, hbefore]
    exact List.mem_singleton_self _
  obtain ⟨l, r, rfl⟩ := List.append_of_mem (mem_emittedEvents.mp (by rwa [emittedEvents, hafter]))
  have hseen := mem_emittedEvents.mp hfailed
  exact hsilent (pre ++ (before ++ l)) (e.1, .emitted e.2) r (by simp)
    ⟨_, List.mem_append_right _ (List.mem_append_left _ hseen), trivial⟩

/-- The account of every run, and why nothing follows a fatal failure. -/
theorem accounts {config : Config} {h : List Note} {l : Listener}
    (hrun : Run step (init config) h l) : Accounts (emittedEvents (wires h)) l := by
  induction hrun with
  | start => exact accounts_init config
  | @step h l label l' o hrun hs ih =>
    obtain ⟨hsilent, hstopped⟩ := World.silent (linked_run (run_system hrun)).run
    rw [wires_append, emittedEvents_append]
    refine step_accounts ih (fun told g fatal rest hsplit => ?_) hs
    obtain ⟨hfailed, hrest⟩ := nothing_after_fatal hsilent hsplit
    exact ⟨hrest, stopped_iff.mpr (hstopped hfailed)⟩

/-- Only a reader that fell behind makes a `Lagged`; the runner emits none. -/
theorem weight_of_tells {config : Config} {h : List Note} {l : Listener}
    (hrun : Run step (init config) h l) :
    ∀ e ∈ emittedEvents (wires h), ∀ c, Tells e.2 c → c.weight = 1 := by
  rintro ⟨g, e⟩ he c htells
  obtain ⟨t, hfollow, -⟩ := World.lands (linked_run (run_system hrun)).run
  obtain ⟨pre, post, hsplit⟩ := List.append_of_mem (mem_emittedEvents.mp he)
  rw [hsplit] at hfollow
  obtain ⟨m, -, hfollow⟩ := follow_prefix hfollow
  cases htells with
  | stream hstream => rfl
  | resubscribed restored => rfl
  | connection =>
    cases e with
    | lagged missed => simp [Trail.read, Trail.next] at hfollow
    | _ => rfl

end Listener

/-- A call of `Connection::subscribe` never waits for a runner that stopped. -/
theorem System.connectionSubscribe_isSome {s : System} (hstopped : s.stopped = true) (c : Caller)
    (name : String) (params : List Value) (call : SubCall) :
    (s.connectionSubscribe c name params call).isSome := by
  cases call with
  | sending => simp [connectionSubscribe, hstopped]
  | registering =>
    simp only [connectionSubscribe, hstopped, if_true]
    split <;> rfl
  | waiting id =>
    simp only [connectionSubscribe, hstopped, if_true]
    split <;> rfl

/-- Once the runner stopped the supervisor waits for nothing but room in the channel: an
application that goes on receiving comes to the end of the stream. -/
theorem Listener.ended_of_stuck {l : Listener} (hstopped : l.system.stopped = true)
    (hinbox : l.system.inbox = []) (hstuck : l.system.supervise = none) : l.Ended := by
  refine ⟨hinbox, ?_⟩
  unfold System.supervise at hstuck
  split at hstuck
  · split at hstuck
    · simp at hstuck
    · simp at hstuck
    · simp [hstopped] at hstuck
  · simp at hstuck
  · simp at hstuck
  · next r call _ =>
    have hsome := System.connectionSubscribe_isSome hstopped (.replay r.index)
      r.entry.2.1.publication r.entry.2.2 call
    rw [Option.map_eq_none_iff.mp hstuck] at hsome
    simp at hsome
  · simp at hstuck
  · simp at hstuck
  · split at hstuck
    · simp at hstuck
    · simp [hinbox] at hstuck
  · assumption

/-- **No event is lost in silence.**  Whatever the server, the network and the callers do, and
however slowly the supervisor and the application read: at any time what `ClientEvents::recv`
has returned accounts for the events the runner emitted first, each in its turn and once, or
counted by a `Lagged` in its place.  Once `recv` returns `None` to an application that listened
throughout, it accounts for all of them, and is exact if it has no `Lagged`; and `recv` does
return `None` once the runner stopped, the channel is empty and the supervisor has nothing left
to do. -/
theorem accounts_run {config : Config} {h : List Note} {l : Listener}
    (hrun : Run Listener.step (Listener.init config) h l) :
    (∃ told rest, emittedEvents (wires h) = told ++ rest ∧ AccountsFor told l.taken) ∧
    (l.Ended → l.system.listening = true →
      AccountsFor (emittedEvents (wires h)) l.taken ∧
      (emittedEvents (wires h)).length = (l.taken.map ClientEvent.weight).foldl (· + ·) 0 ∧
      ((∀ missed, .connection (.lagged missed) ∉ l.taken) →
        List.Forall₂ (fun e => Tells e.2) (emittedEvents (wires h)) l.taken)) ∧
    (l.system.stopped = true → l.system.inbox = [] → l.system.supervise = none → l.Ended) := by
  obtain ⟨told, hand, haccount, -, ⟨lost, hsent, -⟩, hreturned⟩ := Listener.accounts hrun
  refine ⟨?_, ?_, Listener.ended_of_stuck⟩
  · obtain ⟨first, rest, rfl, hfirst⟩ := haccount.of_append
    exact ⟨first, rest ++ (hand ++ (lost ++ l.system.ring.unread)), by simp [hsent], hfirst⟩
  · rintro ⟨hinbox, hend⟩ hlistens
    obtain ⟨-, rfl⟩ := hreturned hend hlistens
    rw [hinbox, List.append_nil] at haccount
    exact ⟨haccount, haccount.length_eq (Listener.weight_of_tells hrun) fun _ => rfl,
      haccount.forall₂⟩

/-- Two events are overwritten before the supervisor reads any; then the client is shut down. -/
def fallsBehind : List Label :=
  connects "m0" ++ [.supervise, .supervise, .receive, .supervise, .supervise, .receive, .supervise,
    .supervise, .supervise, .shutdown] ++ unwritten ++ [.poll none true false false, .env .closed,
    .receive, .supervise]

theorem fallsBehind_enabled :
    (execute Listener.step (Listener.init tightConfig) fallsBehind).isSome := by
  decide +kernel

/-- The four events emitted are two that were missed, and two that were passed on. -/
theorem accounts_fallsBehind : ∃ (h : List Note) (l : Listener),
    Run Listener.step (Listener.init tightConfig) h l ∧ l.taken.map ClientEvent.weight = [2, 1, 1] ∧
      l.Ended ∧ AccountsFor (emittedEvents (wires h)) l.taken := by
  have hrun := run_execute fallsBehind fallsBehind_enabled
  have hended := (accounts_run hrun).2.2 (by decide +kernel)
    (List.isEmpty_iff.mp (by decide +kernel)) (Option.isNone_iff_eq_none.mp (by decide +kernel))
  exact ⟨_, _, hrun, by decide +kernel, hended,
    ((accounts_run hrun).2.1 hended (by decide +kernel)).1⟩

end RocketSocket
