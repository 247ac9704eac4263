import RocketSocket.Realtime.Remembered

/-!
# What the supervisor hears

Every event carries the generation it was broadcast in.  Generations never go back, and the
supervisor reads the events in the order they were broadcast, less those that were
overwritten.

## Main definitions

* `endings` — how many generations ended.
* `Tagged` — generations in the order they were.
* `Heard` — what the supervisor received, and what the ring still holds for it.

## Main results

* `tagged_run` — **the tags of a run are sorted**, and its generation counts the endings.
* `heard_run` — **the supervisor hears the events in order.**
* `Heard.generation_le` — it replays for the newest generation it has heard of.
-/

namespace RocketSocket

open Machine

/-! ### Generations -/

section tags

variable {κ : Type} {cause : Cause}

/-- How many generations ended. -/
def endings (h : List (Seen κ)) : ℕ :=
  h.countP fun
    | (_, .ended _) => true
    | _ => false

@[simp] theorem endings_append (h o : List (Seen κ)) : endings (h ++ o) = endings h + endings o :=
  List.countP_append

theorem endings_eq_zero {h : List (Seen κ)} (hh : ∀ g why, (g, .ended why) ∉ h) :
    endings h = 0 := by
  rw [endings, List.countP_eq_zero]
  rintro ⟨g, y⟩ hx
  cases y with
  | ended why => exact absurd hx (hh g why)
  | _ => simp

theorem endings_settleObs (w : Wire κ) (why : Ending) : endings (w.settleObs why) = 1 := by
  have hrest : endings ([Side.methods, Side.subs].flatMap fun side =>
      (w.flushed.table side).disconnect.2.map fun x => ((w.generation,
        .settled none ⟨side, x.id⟩ x.reply x.outcome) : Seen κ)) = 0 := by
    refine endings_eq_zero fun g why' hx => ?_
    obtain ⟨side, -, hx⟩ := List.mem_flatMap.mp hx
    obtain ⟨x, -, heq⟩ := List.mem_map.mp hx
    simp at heq
  rw [Wire.settleObs, ← List.singleton_append, endings_append, hrest]
  rfl

/-- A step ends as many generations as it shows endings. -/
theorem Wire.Step.endings {w w' : Wire κ} {o : List (Seen κ)} (hs : Wire.Step cause w o w') :
    w'.generation = w.generation + endings o := by
  cases hs with
  | settle why session hlive =>
    rw [endings_settleObs]
    rfl
  | answer ha =>
    rw [endings_eq_zero]
    · rfl
    · intro g why hx
      obtain ⟨x, -, heq⟩ := List.mem_map.mp hx
      simp at heq
  | hand accepted hlive hready =>
    rcases w.hand_cases accepted with ⟨_, _, -, ho, hw⟩ | ⟨_, _, -, -, ho, hw⟩ | ⟨-, -, ho, hw⟩
    all_goals
      rw [hw, ho]
      rfl
  | take command dropped =>
    rcases w.take_cases command dropped with ⟨ho, hw⟩ | ⟨_, -, ho, hw⟩ | ⟨_, ho, hw⟩ |
      ⟨_, _, -, -, ho, hw⟩
    all_goals
      rw [hw, ho]
      rfl
  | _ => rfl

/-- The tags of a run never decrease, and the current generation counts the endings. -/
structure Tagged (h : List (Seen κ)) (w : Wire κ) : Prop where
  sorted : h.Pairwise fun x y => x.1 ≤ y.1
  bound : ∀ x ∈ h, x.1 ≤ w.generation
  count : w.generation = endings h

theorem Tagged.step {h o : List (Seen κ)} {w w' : Wire κ} (ht : Tagged h w)
    (hs : Wire.Step cause w o w') : Tagged (h ++ o) w' := by
  obtain ⟨htag, hle⟩ := hs.generation
  refine ⟨List.pairwise_append.mpr ⟨ht.sorted, ?_, fun x hx y hy => ?_⟩, fun x hx => ?_, ?_⟩
  · exact List.pairwise_of_forall_mem_list fun x hx y hy => (htag x hx).le.trans (htag y hy).ge
  · exact (ht.bound x hx).trans (htag y hy).ge
  · rcases List.mem_append.mp hx with hx | hx
    · exact (ht.bound x hx).trans hle
    · exact (htag x hx).le.trans hle
  · rw [endings_append, ← ht.count, hs.endings]

/-- **The tags of a run are sorted**, and its generation counts the endings. -/
theorem tagged_run {config : Config} {h : List (Seen κ)} {w : World κ}
    (hrun : Run World.step (World.init config) h w) : Tagged h w.runner.toWire :=
  World.wire_invariant ⟨List.Pairwise.nil, by simp, rfl⟩ (fun ht hs => ht.step hs) hrun

end tags

/-! ### Events -/

/-- The events the supervisor received. -/
def receivedEvents (h : List Note) : List Stamped :=
  h.filterMap fun
    | .received event => some event
    | _ => none

@[simp] theorem receivedEvents_append (h o : List Note) :
    receivedEvents (h ++ o) = receivedEvents h ++ receivedEvents o := List.filterMap_append

/-- What the supervisor received and has still to read is what was broadcast, in order and
less what was overwritten; and what it replays for is the last event it received. -/
structure Heard (h : List Note) (s : System) : Prop where
  events : (receivedEvents h ++ s.ring.unread).Sublist (emittedEvents (wires h))
  replaying : ∀ g, s.supervisor.generation = some g →
    ∃ epoch, (receivedEvents h).getLast? = some (g, .resubscribe epoch)
  started : ∀ g ids, .replayStarted g ids ∈ h → ∃ epoch, (g, .resubscribe epoch) ∈ receivedEvents h
  begun : ∀ r, s.supervisor.replay = some r → ∃ ids, .replayStarted r.generation ids ∈ h
  replayed : ∀ g n, .replayed g n ∈ h → ∃ ids, .replayStarted g ids ∈ h

namespace Heard

variable {h o : List Note} {s s' : System}

theorem init (config : Config) : Heard [] (.init config) where
  events := by simp [System.init, receivedEvents]
  replaying := fun g hg => by simp [System.init, Supervisor.generation, Supervisor.replay] at hg
  started := by simp
  begun := fun r hr => by simp [System.init, Supervisor.replay] at hr
  replayed := by simp

/-- A step at which the supervisor receives nothing. -/
theorem frame (hh : Heard h s) (hreceived : receivedEvents o = [])
    (hring : (receivedEvents h ++ s'.ring.unread).Sublist (emittedEvents (wires (h ++ o))))
    (hgeneration : ∀ g, s'.supervisor.generation = some g → s.supervisor.generation = some g)
    (hstarted : ∀ g ids, .replayStarted g ids ∈ o → s.supervisor.generation = some g)
    (hbegun : ∀ r, s'.supervisor.replay = some r →
      ∃ ids, .replayStarted r.generation ids ∈ h ++ o)
    (hreplayed : ∀ g n, .replayed g n ∈ o → ∃ ids, .replayStarted g ids ∈ h ++ o) :
    Heard (h ++ o) s' := by
  have hsame : receivedEvents (h ++ o) = receivedEvents h := by
    rw [receivedEvents_append, hreceived, List.append_nil]
  refine ⟨hsame ▸ hring, fun g hg => ?_, fun g ids hx => ?_, hbegun, fun g n hx => ?_⟩
  · rw [hsame]
    exact hh.replaying g (hgeneration g hg)
  · rw [hsame]
    rcases List.mem_append.mp hx with hx | hx
    · exact hh.started g ids hx
    · obtain ⟨epoch, hlast⟩ := hh.replaying g (hstarted g ids hx)
      exact ⟨epoch, List.mem_of_getLast? hlast⟩
  · rcases List.mem_append.mp hx with hx | hx
    · obtain ⟨ids, hx⟩ := hh.replayed g n hx
      exact ⟨ids, List.mem_append_left _ hx⟩
    · exact hreplayed g n hx

/-- A step of another task, or one after which the supervisor is not inside a replay. -/
theorem quiet (hh : Heard h s) (ho : ∀ note ∈ o, (∃ c outcome, note = .returned c outcome) ∨
      ∃ k id, note = .inserted k id)
    (hring : s'.ring.unread = s.ring.unread)
    (hsup : s'.supervisor.generation = s.supervisor.generation ∧
      s'.supervisor.replay = s.supervisor.replay ∨
      s'.supervisor.generation = none ∧ s'.supervisor.replay = none) : Heard (h ++ o) s' := by
  -- Such a step receives no event, shows nothing of the wire, and neither begins nor ends a replay.
  have hnone : ∀ note ∈ o, (∀ event, note ≠ .received event) ∧ (∀ x, note ≠ .wire x) ∧
      (∀ g ids, note ≠ .replayStarted g ids) ∧ ∀ g n, note ≠ .replayed g n := by
    intro note hn
    rcases ho note hn with ⟨c, outcome, rfl⟩ | ⟨k, id, rfl⟩ <;> simp
  have hreceived : receivedEvents o = [] := by
    rw [receivedEvents, List.filterMap_eq_nil_iff]
    intro note hn
    cases note with
    | received event => exact absurd rfl ((hnone _ hn).1 event)
    | _ => rfl
  have hwires : wires o = [] := by
    rw [wires, List.filterMap_eq_nil_iff]
    intro note hn
    cases note with
    | wire x => exact absurd rfl ((hnone _ hn).2.1 x)
    | _ => rfl
  refine hh.frame hreceived ?_ (fun g hg => ?_) (fun g ids hx => ?_) (fun r hr => ?_)
    fun g n hx => ?_
  · rw [hring, wires_append, hwires, List.append_nil]
    exact hh.events
  · -- The supervisor is inside the replay it was in, or in none.
    rcases hsup with ⟨hsup, -⟩ | ⟨hsup, -⟩
    · exact hsup ▸ hg
    · rw [hsup] at hg
      simp at hg
  · exact absurd rfl ((hnone _ hx).2.2.1 g ids)
  · rcases hsup with ⟨-, hsup⟩ | ⟨-, hsup⟩
    · obtain ⟨ids, hx⟩ := hh.begun r (hsup ▸ hr)
      exact ⟨ids, List.mem_append_left _ hx⟩
    · rw [hsup] at hr
      simp at hr
  · exact absurd rfl ((hnone _ hx).2.2.2 g n)

/-- The head of the loop of a replay. -/
theorem loop (hh : Heard h s) {note : Note} {s₁ : System} {registry : Registry}
    (hs₁ : s₁ = { s with registry }) {epoch : Epoch} {g restored : ℕ} {entries : List Replayed}
    (hgeneration : s.supervisor.generation = some g)
    (hnote : (∃ ids, note = .replayStarted g ids) ∨ (∃ n old new, note = .rekeyed n old new) ∨
      ∃ n old error, note = .removed n old error)
    (hbegun : ∃ ids, .replayStarted g ids ∈ h ++ [note]) :
    Heard (h ++ note :: (s₁.loop epoch g restored entries).2)
      (s₁.loop epoch g restored entries).1 := by
  obtain ⟨ids, hids⟩ := hbegun
  have hbegun : .replayStarted g ids ∈ h ++ note :: (s₁.loop epoch g restored entries).2 := by
    rw [List.append_cons]
    exact List.mem_append_left _ hids
  -- Neither the note nor the head of the loop receives anything.
  have hreceived : receivedEvents [note] = [] := by
    rcases hnote with ⟨_, rfl⟩ | ⟨_, _, _, rfl⟩ | ⟨_, _, _, rfl⟩ <;> rfl
  have hwires : wires [note] = [] := by
    rcases hnote with ⟨_, rfl⟩ | ⟨_, _, _, rfl⟩ | ⟨_, _, _, rfl⟩ <;> rfl
  have hloop : receivedEvents (s₁.loop epoch g restored entries).2 = [] ∧
      wires (s₁.loop epoch g restored entries).2 = [] := by
    cases entries <;> exact ⟨rfl, rfl⟩
  have hring : (s₁.loop epoch g restored entries).1.ring = s.ring := by
    rw [hs₁]
    cases entries <;> rfl
  refine hh.frame ?_ ?_ (fun g' hg' => ?_) (fun g' ids' hx => ?_) (fun r hr => ?_) fun g' n hx => ?_
  · rw [← List.singleton_append, receivedEvents_append, hreceived, hloop.1]
    rfl
  · rw [hring, wires_append, ← List.singleton_append, wires_append, hwires, hloop.2]
    simpa using hh.events
  · rw [hgeneration]
    cases entries with
    | nil => simp [System.loop, Supervisor.generation, Supervisor.replay] at hg'
    | cons entry rest => simpa [System.loop, Supervisor.generation, Supervisor.replay] using hg'
  · rcases List.mem_cons.mp hx with rfl | hx
    · rcases hnote with ⟨_, heq⟩ | ⟨_, _, _, heq⟩ | ⟨_, _, _, heq⟩
      · obtain ⟨rfl, -⟩ := Note.replayStarted.inj heq
        exact hgeneration
      · simp at heq
      · simp at heq
    · cases entries <;> simp [System.loop] at hx
  · cases entries with
    | nil => simp [System.loop, Supervisor.replay] at hr
    | cons entry rest =>
      obtain rfl := Option.some.inj hr
      exact ⟨ids, hbegun⟩
  · refine ⟨ids, ?_⟩
    rcases List.mem_cons.mp hx with rfl | hx
    · rcases hnote with ⟨_, heq⟩ | ⟨_, _, _, heq⟩ | ⟨_, _, _, heq⟩ <;> simp at heq
    · cases entries with
      | nil =>
        obtain ⟨rfl, -⟩ := Note.replayed.inj (List.mem_singleton.mp hx)
        exact hbegun
      | cons entry rest => simp [System.loop] at hx

/-- The runner makes a step. -/
theorem runner (hh : Heard h s) {world : World Caller} {o : List (Seen Caller)}
    {notes : List Note} {s₁ : System} {commands : List (Command Caller)}
    (hs₁ : s₁ = { s with world, commands }) (hs' : s' = (o.forM System.see).state s₁)
    (hnotes : notes = (o.forM System.see).obs s₁ ++
      (if s₁.stopped && !s.stopped then [.stopped] else [])) : Heard (h ++ notes) s' := by
  have hwires : wires notes = o := by
    rw [hnotes, wires_append, System.wires_forM_see]
    split <;> simp [wires]
  -- The runner receives no event, and neither begins nor ends a replay.
  have hnone : ∀ note ∈ notes, (∀ event, note ≠ .received event) ∧
      (∀ g ids, note ≠ .replayStarted g ids) ∧ ∀ g n, note ≠ .replayed g n := by
    intro note hn
    rcases System.mem_runner hnotes hn with ⟨x, -, rfl⟩ | ⟨lost, left, rfl⟩ | rfl <;> simp
  rw [System.state_forM_see, hs₁] at hs'
  refine hh.frame ?_ ?_ (fun g hg => ?_) (fun g ids hx => ?_) (fun r hr => ?_) fun g n hx => ?_
  · rw [receivedEvents, List.filterMap_eq_nil_iff]
    intro note hn
    cases note with
    | received event => exact absurd rfl ((hnone _ hn).1 event)
    | _ => rfl
  · -- What it emits goes into the ring, which may lose the oldest.
    rw [wires_append, hwires, emittedEvents_append, hs']
    exact BroadcastRing.unread_foldl_send_sublist _ hh.events
  · rw [hs'] at hg
    exact hg
  · exact absurd rfl ((hnone _ hx).2.1 g ids)
  · rw [hs'] at hr
    obtain ⟨ids, hx⟩ := hh.begun r hr
    exact ⟨ids, List.mem_append_left _ hx⟩
  · exact absurd rfl ((hnone _ hx).2.2 g n)

/-- **Every step keeps what the supervisor hears in order.** -/
theorem move (hh : Heard h s) (hm : s.Move o s') : Heard (h ++ o) s' := by
  -- The steps that say nothing, and those that only return from a call.
  have hnil : ∀ note ∈ ([] : List Note), (∃ c outcome, note = .returned c outcome) ∨
      ∃ k id, note = .inserted k id := by simp
  have hreturns : ∀ (c : Caller) (p : Progress), ∀ note ∈ p.notes c,
      (∃ c outcome, note = .returned c outcome) ∨ ∃ k id, note = .inserted k id := by
    intro c p note hn
    cases p with
    | goesOn call => simp [Progress.notes] at hn
    | returns outcome => exact .inl ⟨c, outcome, List.mem_singleton.mp hn⟩
  cases hm with
  | runner hw hoffer hs₁ hs' hnotes => exact hh.runner hs₁ hs' hnotes
  | record hcall =>
    exact hh.quiet (fun note hn => .inr ⟨_, _, List.mem_singleton.mp hn⟩) rfl (.inl ⟨rfl, rfl⟩)
  | @resume k key call s₁ p hcall hp =>
    obtain ⟨-, hsup, hring⟩ := hp.same
    refine hh.quiet (hreturns _ _) (congrArg BroadcastRing.unread hring) (.inl ?_)
    rw [hsup]
    exact ⟨rfl, rfl⟩
  | lag hsup hrecv =>
    refine hh.quiet hnil ?_ (.inr ⟨rfl, rfl⟩)
    rcases BroadcastRing.recv_cases hrecv with ⟨-, hunread⟩ | ⟨b, heq, -⟩
    · exact hunread
    · simp at heq
  | @receive event ring hsup hrecv =>
    rcases BroadcastRing.recv_cases hrecv with ⟨heq, -⟩ | ⟨b, heq, hunread⟩
    · simp at heq
    · obtain rfl := Received.value.inj heq
      have hreceived : receivedEvents (h ++ [.received event]) = receivedEvents h ++ [event] := by
        simp [receivedEvents]
      refine ⟨?_, fun g hg => ?_, fun g ids hx => ?_, fun r hr => ?_, fun g n hx => ?_⟩
      -- The event was the first of the unread ones.
      · have hevents := hh.events
        rw [hunread] at hevents
        rw [hreceived, wires_append]
        simpa [wires] using hevents
      · rw [hreceived, List.getLast?_concat]
        rcases System.onEvent_cases event with ⟨reason, -, he⟩ | ⟨epoch, hevent, he⟩ |
          ⟨e, terminal, -, he⟩
        · simp [he, Supervisor.generation, Supervisor.replay] at hg
        · simp only [he, Supervisor.generation, Option.some.injEq] at hg
          exact ⟨epoch, by rw [← hg, ← hevent]⟩
        · simp [he, Supervisor.generation, Supervisor.replay] at hg
      · rw [hreceived]
        obtain ⟨epoch, hmem⟩ := hh.started g ids (by simpa using hx)
        exact ⟨epoch, List.mem_append_left _ hmem⟩
      · rcases System.onEvent_cases event with ⟨_, -, he⟩ | ⟨_, -, he⟩ | ⟨_, _, -, he⟩ <;>
          simp [he, Supervisor.replay] at hr
      · obtain ⟨ids, hx⟩ := hh.replayed g n (by simpa using hx)
        exact ⟨ids, List.mem_append_left _ hx⟩
  | finish hsup => exact hh.quiet hnil rfl (.inr ⟨rfl, rfl⟩)
  | lose hsup => exact hh.quiet hnil rfl (.inr ⟨rfl, rfl⟩)
  | @snapshot epoch g hsup =>
    have hgeneration : s.supervisor.generation = some g := by rw [hsup]; rfl
    exact hh.loop rfl hgeneration (.inl ⟨_, rfl⟩)
      ⟨_, List.mem_append_right _ (List.mem_singleton_self _)⟩
  | @issue r call s₁ p hsup hp =>
    obtain ⟨-, -, hring⟩ := hp.same
    refine hh.quiet (hreturns _ _) (congrArg BroadcastRing.unread hring) (.inl ?_)
    rw [hsup]
    exact ⟨Supervisor.generation_after r p, Supervisor.replay_after r p⟩
  | @rekey r newId s₁ hsup hs₁ =>
    have hgeneration : s.supervisor.generation = some r.generation := by rw [hsup]; rfl
    obtain ⟨ids, hx⟩ := hh.begun r (by rw [hsup]; rfl)
    exact hh.loop hs₁ hgeneration (.inr (.inl ⟨_, _, _, rfl⟩)) ⟨ids, List.mem_append_left _ hx⟩
  | @remove r error s₁ hsup hs₁ =>
    have hgeneration : s.supervisor.generation = some r.generation := by rw [hsup]; rfl
    obtain ⟨ids, hx⟩ := hh.begun r (by rw [hsup]; rfl)
    exact hh.loop hs₁ hgeneration (.inr (.inr ⟨_, _, _, rfl⟩)) ⟨ids, List.mem_append_left _ hx⟩
  | @forward event terminal hsup =>
    refine hh.quiet hnil rfl (.inr ?_)
    cases terminal <;> exact ⟨rfl, rfl⟩
  | _ => exact hh.quiet hnil rfl (.inl ⟨rfl, rfl⟩)

end Heard

/-- **The supervisor hears the events in order**, in every state of every run. -/
theorem heard_run {config : Config} {h : List Note} {s : System}
    (hrun : Run System.step (System.init config) h s) : Heard h s :=
  hrun.invariant (.init config) fun hh hs => hh.move (System.step_move hs)

/-- The supervisor replays for the newest generation it has heard of. -/
theorem Heard.generation_le {h : List Note} {s : System} (hh : Heard h s)
    (hsorted : (wires h).Pairwise fun x y => x.1 ≤ y.1) {g g' : ℕ} {ids : List String}
    (hg : s.supervisor.generation = some g) (hstarted : .replayStarted g' ids ∈ h) : g' ≤ g := by
  obtain ⟨epoch, hlast⟩ := hh.replaying g hg
  obtain ⟨epoch', hmem⟩ := hh.started g' ids hstarted
  have hreceived : (receivedEvents h).Pairwise fun x y => x.1 ≤ y.1 := by
    have hall : (emittedEvents (wires h)).Pairwise fun x y => x.1 ≤ y.1 := by
      rw [emittedEvents, List.pairwise_filterMap]
      refine hsorted.imp fun {x y} hle e he e' he' => ?_
      obtain ⟨g, x⟩ := x
      obtain ⟨g', y⟩ := y
      cases x <;> cases y <;> simp_all
      rw [← he, ← he']
      exact hle
    exact hall.sublist ((List.sublist_append_left _ _).trans hh.events)
  obtain ⟨pre, hpre⟩ := List.getLast?_eq_some_iff.mp hlast
  rw [hpre] at hmem hreceived
  rcases List.mem_append.mp hmem with hmem | hmem
  · exact (List.pairwise_append.mp hreceived).2.2 _ hmem _ (List.mem_singleton_self _)
  · exact (congrArg Prod.fst (List.mem_singleton.mp hmem)).le

end RocketSocket
