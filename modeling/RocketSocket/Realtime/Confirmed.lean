import RocketSocket.Realtime.ClientRun

/-!
# When a subscription is reported as established

`Connection::subscribe` returns the id of a subscription once its call was answered without
an error.  Two frames do that: a `ready` that lists the id, and a `nosub` without an error,
which says that the subscription ended.

## Main definitions

* `Confirmed`, `ConfirmedAt` — an id is returned, and remembered, only because of a `ready`
  on the connection its `sub` was written to.
* `Acknowledges` — the server ends no `sub` that still waits without an error, and confirms
  none before it was written.

## Main results

* `confirmed_of_acknowledges` — **ids are confirmed when the server acknowledges.**
* `not_confirmed` — a `nosub` without an error establishes a subscription.
-/

namespace RocketSocket

open Machine

/-! ### The property -/

/-- A `ready` that lists `id` arrived on a connection its `sub` was written to, and every
reply without an error that the caller was sent is due to such a frame. -/
def Confirmed (h : List (Seen Caller)) (c : Caller) (id : String) : Prop :=
  (∃ g subs, id ∈ subs ∧ (g, .received (.ready subs)) ∈ h ∧ ⟨.subs, id⟩ ∈ writtenMarks g h) ∧
  ∀ g cause m v, (g, .settled cause m (.caller c) (.ok v)) ∈ h →
    ∃ subs, cause = some (.ready subs) ∧ id ∈ subs

/-- **Established only on a `ready`**: what `Connection::subscribe` returns, and what the
registry remembers, is confirmed. -/
def ConfirmedAt (pre : List Note) : Note → Prop
  | .returned c (.ok id) => Confirmed (wires pre) c id
  | .inserted k id => Confirmed (wires pre) (.subscribe k) id
  | .rekeyed n _ new => Confirmed (wires pre) (.replay n) new
  | _ => True

/-- The subscriptions that wait for an answer of the server. -/
def waiting (g : ℕ) (h : List (Seen Caller)) : List Mark :=
  ((tookMarks g h).map Prod.snd).filter fun m => m ∉ answeredMarks g h

/-- The subscriptions a frame confirms, -/
def ServerMessage.confirms : ServerMessage → List Mark
  | .ready subs => subs.map (Mark.mk .subs)
  | _ => []

/-- and those it ends without an error. -/
def ServerMessage.ends : ServerMessage → List Mark
  | .nosub id none => [⟨.subs, id⟩]
  | _ => []

/-- What a frame confirms was written if it waits, and nothing a frame ends does. -/
def AcknowledgesAt (pre : List (Seen Caller)) : Seen Caller → Prop
  | (g, .received message) =>
    (∀ m ∈ message.confirms, m ∈ waiting g pre → m ∈ writtenMarks g pre) ∧
      ∀ m ∈ message.ends, m ∉ waiting g pre
  | _ => True

instance (pre : List (Seen Caller)) : (x : Seen Caller) → Decidable (AcknowledgesAt pre x)
  | (g, .received message) => inferInstanceAs (Decidable
    ((∀ m ∈ message.confirms, m ∈ waiting g pre → m ∈ writtenMarks g pre) ∧
      ∀ m ∈ message.ends, m ∉ waiting g pre))
  | (_, .opened) | (_, .pushed _) | (_, .took ..) | (_, .handed ..) | (_, .settled ..)
  | (_, .ended _) | (_, .emitted _) => isTrue trivial

/-- The server ends no `sub` that still waits without an error, and confirms none before it
was written. -/
def Acknowledges (h : List (Seen Caller)) : Prop := Each AcknowledgesAt h

instance (h : List (Seen Caller)) : Decidable (Acknowledges h) :=
  inferInstanceAs (Decidable (Each AcknowledgesAt h))

/-! ### Where an id comes from -/

theorem mem_waiting {g : ℕ} {h : List (Seen Caller)} {m : Mark} {c : Caller}
    (htook : TookOn g h c m) (hanswered : ¬ AnsweredOn g h m) : m ∈ waiting g h := by
  rw [waiting, List.mem_filter]
  refine ⟨List.mem_map.mpr ⟨(c, m), mem_tookMarks.mpr htook, rfl⟩, ?_⟩
  simpa [mem_answeredMarks] using hanswered

/-- A reply without an error to a call of `Connection::subscribe` is due to a `ready` that
lists its id, on the connection its `sub` was written to. -/
theorem Linked.ready_of_ok {config : Config} {h : List Note} {s : System}
    (hl : Linked config h s) (hacks : Acknowledges (wires h)) {pre : List (Seen Caller)}
    (hpre : pre <+: wires h) {g : ℕ} {cause : Option ServerMessage} {m : Mark} {c : Caller}
    {v : Value} (hc : ∀ j, c ≠ .call j)
    (hx : (g, .settled cause m (.caller c) (.ok v)) ∈ pre) :
    ∃ subs, cause = some (.ready subs) ∧ m.id ∈ subs ∧ (g, .received (.ready subs)) ∈ pre ∧
      m ∈ writtenMarks g pre := by
  obtain ⟨rest, hrest⟩ := hpre
  have hheard := (World.attended hl.run).2
  have hx' : (g, .settled cause m (.caller c) (.ok v)) ∈ wires h := by
    rw [← hrest]
    exact List.mem_append_left _ hx
  -- A subscription succeeds by a `ready` that lists it, or by a `nosub` without an error.
  obtain ⟨hside, hcause⟩ := hl.cause_of_ok hc hx'
  have hm : (⟨.subs, m.id⟩ : Mark) = m := by rw [← hside]
  obtain ⟨l, r, rfl⟩ := List.append_of_mem hx
  rw [← hrest] at hacks hheard
  -- The call was waiting when the frame was received.
  obtain ⟨pre', y, rest', rfl, hy, htook, hanswered⟩ :=
    hheard.of_append l _ r rfl cause m c _ rfl
  have hwaiting := mem_waiting htook hanswered
  obtain ⟨message, rfl⟩ : ∃ message, cause = some message := by
    rcases hcause with ⟨subs, rfl, -⟩ | rfl <;> exact ⟨_, rfl⟩
  obtain rfl : y = .received message := hy
  obtain ⟨hconfirms, hends⟩ := hacks pre' (g, .received message)
    (rest' ++ (g, .settled (some message) m (.caller c) (.ok v)) :: r ++ rest) (by simp)
  -- The `ready` lists only what was written; no `nosub` ends a call that waits.
  rcases hcause with ⟨subs, hmessage, hid⟩ | hmessage
  · obtain rfl := Option.some.inj hmessage
    have hwritten := hconfirms m (by rw [← hm]; exact List.mem_map_of_mem hid) hwaiting
    refine ⟨subs, rfl, hid, by simp, ?_⟩
    rw [writtenMarks_append, writtenMarks_append, List.append_assoc]
    exact List.mem_append_left _ hwritten
  · obtain rfl := Option.some.inj hmessage
    exact absurd hwaiting (hends m (by rw [← hm]; exact List.mem_singleton_self _))

/-- What `Connection::subscribe` returns is confirmed. -/
theorem Linked.confirmed {config : Config} {h : List Note} {s : System}
    (hl : Linked config h s) (hacks : Acknowledges (wires h)) {pre rest : List Note}
    (hpre : h = pre ++ rest) {c : Caller} {id : String} (hc : ∀ j, c ≠ .call j)
    (houtcome : OutcomeOf pre c (.ok id)) : Confirmed (wires pre) c id := by
  have hwires : wires pre <+: wires h := ⟨wires rest, by rw [hpre, wires_append]⟩
  obtain ⟨⟨g, m, htook, rfl⟩, v, g', cause, m', hx⟩ := houtcome
  -- Every reply to this caller answers its one mark, in its one generation.
  have hsame : ∀ {g' cause m' v}, (g', .settled cause m' (.caller c) (.ok v)) ∈ wires pre →
      g' = g ∧ m' = m := by
    intro g' cause m' v hx
    have htook' := (World.attended hl.run).1.fates.settledWaiter g' cause m' _ _ (hwires.subset hx)
    have htook : TookOn g (wires h) c m := by
      rw [hpre, wires_append]
      exact htook.mono
    exact hl.took_unique htook' htook
  have hside : m.side = .subs := by
    refine hl.side_of_took (g := g) ?_ hc
    rw [hpre, wires_append]
    exact htook.mono
  have hm : (⟨.subs, m.id⟩ : Mark) = m := by rw [← hside]
  refine ⟨?_, fun g' cause m' v hx => ?_⟩
  · obtain ⟨rfl, rfl⟩ := hsame hx
    obtain ⟨subs, -, hid, hready, hwritten⟩ := hl.ready_of_ok hacks hwires hc hx
    exact ⟨g', subs, hid, hready, hm ▸ hwritten⟩
  · obtain ⟨rfl, rfl⟩ := hsame hx
    obtain ⟨subs, hcause, hid, -⟩ := hl.ready_of_ok hacks hwires hc hx
    exact ⟨subs, hcause, hid⟩

/-- **Ids are confirmed when the server acknowledges**, in every state of every run: no
`nosub` makes `Connection::subscribe` return an id. -/
theorem confirmed_of_acknowledges {config : Config} {h : List Note} {s : System}
    (hrun : Run System.step (System.init config) h s) (hacks : Acknowledges (wires h)) :
    Each ConfirmedAt h := by
  have hl := linked_run hrun
  -- An id that was returned stays confirmed, until it is recorded and after.
  have hreturned : ∀ {pre rest c id}, h = pre ++ rest → .returned c (.ok id) ∈ pre →
      Confirmed (wires pre) c id := by
    intro pre rest c id hp hx
    obtain ⟨pre', rest', rfl, hbegan, hacked, v, hreplied⟩ := hl.of_returned hp hx
    refine hl.confirmed hacks hp ?_ ⟨hacked.mono, v, hreplied.mono⟩
    rintro j rfl
    exact hbegan
  intro pre x post hp
  have hx := hl.notes pre x post hp
  cases x with
  | returned c outcome =>
    cases outcome with
    | error e => trivial
    | ok id =>
      refine hl.confirmed hacks hp ?_ hx.2
      rintro j rfl
      exact hx.1
  | inserted k id => exact hreturned hp hx
  | rekeyed n old new => exact hreturned hp hx.2
  | _ => trivial

/-! ### Two runs -/

/-- The server acknowledges a subscription. -/
def acknowledged : List Label :=
  connects "m0" ++ subscribes ++ [hears (.ready ["s0"]), .resume 0, .resume 0]

theorem acknowledged_enabled :
    (execute System.step (System.init demoConfig) acknowledged).isSome := by
  decide +kernel

/-- The ids that calls of `Client::subscribe` recorded. -/
def recorded (h : List Note) : List String :=
  h.filterMap fun
    | .inserted _ id => some id
    | _ => none

/-- The subscription is remembered, and confirmed. -/
theorem confirmed_acknowledged : ∃ (h : List Note) (s : System),
    Run System.step (System.init demoConfig) h s ∧ Acknowledges (wires h) ∧
      recorded h = ["s0"] ∧ s.registry.ids = ["s0"] ∧ Each ConfirmedAt h := by
  have hrun := run_execute acknowledged acknowledged_enabled
  have hacks : Acknowledges (wires ((execute System.step (System.init demoConfig)
      acknowledged).get acknowledged_enabled).2) := by decide +kernel
  exact ⟨_, _, hrun, hacks, by decide +kernel, by decide +kernel,
    confirmed_of_acknowledges hrun hacks⟩

/-- The server ends a subscription without an error, instead of confirming it. -/
def endedAtOnce : List Label :=
  connects "m0" ++ subscribes ++ [hears (.nosub "s0" none), .resume 0, .resume 0]

theorem endedAtOnce_enabled :
    (execute System.step (System.init demoConfig) endedAtOnce).isSome := by
  decide +kernel

/-- The subscriptions that frames confirmed. -/
def confirmedMarks (h : List (Seen Caller)) : List Mark :=
  h.flatMap fun
    | (_, .received message) => message.confirms
    | _ => []

/-- **A `nosub` without an error establishes a subscription**: it is remembered, and no
`ready` arrived. -/
theorem not_confirmed : ¬ ∀ (config : Config) (h : List Note) (s : System),
    Run System.step (System.init config) h s → Each ConfirmedAt h := by
  intro hall
  have hconfirmed := hall _ _ _ (run_execute endedAtOnce endedAtOnce_enabled)
  -- In this run the subscription is put on record, and no `ready` confirms anything.
  have hrecorded : recorded ((execute System.step (System.init demoConfig) endedAtOnce).get
      endedAtOnce_enabled).2 = ["s0"] := by decide +kernel
  have hnone : confirmedMarks (wires ((execute System.step (System.init demoConfig)
      endedAtOnce).get endedAtOnce_enabled).2) = [] := by decide +kernel
  have hmem : "s0" ∈ recorded ((execute System.step (System.init demoConfig) endedAtOnce).get
      endedAtOnce_enabled).2 := by
    rw [hrecorded]
    exact List.mem_singleton_self _
  obtain ⟨note, hnote, hid⟩ := List.mem_filterMap.mp hmem
  obtain ⟨pre, post, hsplit⟩ := List.append_of_mem hnote
  split at hid
  · next k id =>
    obtain rfl := Option.some.inj hid
    obtain ⟨⟨g, subs, hlisted, hready, -⟩, -⟩ := hconfirmed pre _ post hsplit
    -- The rule would give one for it.
    have hconfirms : (⟨.subs, "s0"⟩ : Mark) ∈ (ServerMessage.ready subs).confirms :=
      List.mem_map_of_mem hlisted
    have hmark : (⟨.subs, "s0"⟩ : Mark) ∈ confirmedMarks (wires ((execute System.step
        (System.init demoConfig) endedAtOnce).get endedAtOnce_enabled).2) := by
      refine List.mem_flatMap.mpr ⟨(g, .received (.ready subs)), ?_, hconfirms⟩
      rw [hsplit, wires_append]
      exact List.mem_append_left _ hready
    rw [hnone] at hmark
    simp at hmark
  · simp at hid

end RocketSocket
