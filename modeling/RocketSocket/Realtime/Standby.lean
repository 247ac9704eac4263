import Mathlib.Data.List.Nodup
import RocketSocket.Lib.Act

/-!
# Waiting inline for a future event

`Standby` is a registry of predicates, each with the sending half of a channel whose receiving
half is held by the future `wait_for` returned.  The channels are kept beside the registry, under
the number of the call that made them.  A predicate is a function of the event, so the lock around
the registry is never poisoned.

## Main definitions

* `Standby`, `Standby.waitFor`, `Standby.process`, `Standby.abandon` — the registry, its two
  calls, and what dropping a future does.
* `Standby.step` — any sequence of these.
* `pending` — the waiters of a history that are still live and unresolved.

## Main results

* `Standby.kept_of_run` — what holds of the registry and the channels after every run.
* `standby_hands_over` — **an event goes to the earliest pending waiter that accepts it**.
-/

namespace RocketSocket

open Machine

variable {ε : Type}

/-- A `tokio::sync::oneshot` channel whose sending half is still held, or was used. -/
inductive Oneshot (ε : Type) where
  /-- Nothing was sent. -/
  | waiting
  /-- An event was sent, and the receiving half was there to receive it. -/
  | sent (event : ε)
  /-- The receiving half is gone. -/
  | closed
  deriving DecidableEq

/-- A registered wait.  The sender is the number of its channel. -/
structure Standby.Waiter (ε : Type) where
  predicate : ε → Bool
  sender : ℕ

/-- The registry, and the channels made so far. -/
structure Standby (ε : Type) where
  waiters : List (Standby.Waiter ε) := []
  channels : List (Oneshot ε) := []

namespace Standby

/-- What is seen of the registry from outside. -/
inductive Notice (ε : Type) where
  | registered (waiter : Waiter ε)
  | received (sender : ℕ) (event : ε)
  | processed (event : ε) (matched : Bool)
  | abandoned (sender : ℕ)

/-- What may happen next. -/
inductive Turn (ε : Type) where
  | waitFor (predicate : ε → Bool)
  | process (event : ε)
  /-- The future of a wait is dropped. -/
  | drop (sender : ℕ)

/-- `Sender::is_closed`. -/
def isClosed (s : Standby ε) (sender : ℕ) : Bool :=
  match s.channels[sender]? with
  | some .closed => true
  | _ => false

/-- `Sender::send`. -/
def send (sender : ℕ) (event : ε) : Act (Standby ε) (Notice ε) Bool := do
  let s ← Act.get
  if s.isClosed sender then
    return false
  Act.modify fun s => { s with channels := s.channels.set sender (.sent event) }
  Act.say fun _ => .received sender event
  return true

/-- Registers a waiter for the next event that matches. -/
def waitFor (predicate : ε → Bool) : Act (Standby ε) (Notice ε) Unit := do
  let s ← Act.get
  let sender := s.channels.length
  Act.modify fun s => { s with channels := s.channels ++ [.waiting] }
  Act.modify fun s => { s with waiters := s.waiters ++ [⟨predicate, sender⟩] }
  Act.say fun _ => .registered ⟨predicate, sender⟩

/-- Hands an event to every waiter it matches; tells whether one took it. -/
def process (event : ε) : Act (Standby ε) (Notice ε) Bool := do
  Act.modify fun s =>
    { s with waiters := s.waiters.filter fun waiter => !s.isClosed waiter.sender }
  let s ← Act.get
  let index := s.waiters.findIdx fun waiter => waiter.predicate event
  if h : index < s.waiters.length then
    Act.modify fun s => { s with waiters := s.waiters.eraseIdx index }
    send (s.waiters[index]).sender event
  else
    return false

/-- The receiving half of a channel is dropped, and with it an event nobody took. -/
def abandon (sender : ℕ) (s : Standby ε) : Standby ε :=
  { s with channels := s.channels.set sender .closed }

/-- One call, or one future dropped. -/
def step (s : Standby ε) : Turn ε → Option (Standby ε × List (Notice ε))
  | .waitFor predicate => some ((waitFor predicate).state s, (waitFor predicate).obs s)
  | .process event => some ((process event).state s,
      (process event).obs s ++ [.processed event ((process event).value s)])
  | .drop sender =>
    if sender < s.channels.length ∧ s.isClosed sender = false then
      some (s.abandon sender, [.abandoned sender])
    else none

/-! ### Histories -/

/-- The waiters registered, in order. -/
def registered (h : List (Notice ε)) : List (Waiter ε) := h.filterMap fun
  | .registered waiter => some waiter
  | _ => none

/-- The channels an event was received from, in order. -/
def receivers (h : List (Notice ε)) : List ℕ := h.filterMap fun
  | .received sender _ => some sender
  | _ => none

/-- The channels whose future was dropped, in order. -/
def abandoned (h : List (Notice ε)) : List ℕ := h.filterMap fun
  | .abandoned sender => some sender
  | _ => none

/-- The waiters that are still live and unresolved, in the order of their registration. -/
def pending (h : List (Notice ε)) : List (Waiter ε) :=
  (registered h).filter fun w => w.sender ∉ abandoned h ∧ w.sender ∉ receivers h

@[simp] theorem registered_append (h o : List (Notice ε)) :
    registered (h ++ o) = registered h ++ registered o := List.filterMap_append

@[simp] theorem receivers_append (h o : List (Notice ε)) :
    receivers (h ++ o) = receivers h ++ receivers o := List.filterMap_append

@[simp] theorem abandoned_append (h o : List (Notice ε)) :
    abandoned (h ++ o) = abandoned h ++ abandoned o := List.filterMap_append

theorem mem_receivers {h : List (Notice ε)} {sender : ℕ} :
    sender ∈ receivers h ↔ ∃ event, Notice.received sender event ∈ h := by
  rw [receivers, List.mem_filterMap]
  constructor
  · rintro ⟨x, hx, hsome⟩
    cases x with
    | received sender' event => exact ⟨event, by cases hsome; exact hx⟩
    | _ => cases hsome
  · rintro ⟨event, hx⟩
    exact ⟨_, hx, rfl⟩

theorem mem_abandoned {h : List (Notice ε)} {sender : ℕ} :
    sender ∈ abandoned h ↔ Notice.abandoned sender ∈ h := by
  rw [abandoned, List.mem_filterMap]
  constructor
  · rintro ⟨x, hx, hsome⟩
    cases x with
    | abandoned sender' => cases hsome; exact hx
    | _ => cases hsome
  · intro hx
    exact ⟨_, hx, rfl⟩

/-! ### What a call does -/

/-- The registered waiters whose future is not dropped. -/
def live (s : Standby ε) : List (Waiter ε) := s.waiters.filter fun w => !s.isClosed w.sender

variable {s s' : Standby ε} {event : ε} {w : Waiter ε} {h o : List (Notice ε)} {sender : ℕ}

/-- The number of a channel that was not made belongs to no closed one. -/
theorem lt_of_isClosed (hc : s.isClosed sender = true) : sender < s.channels.length := by
  by_contra hge
  rw [isClosed, List.getElem?_eq_none (not_lt.mp hge)] at hc
  cases hc

/-- A new channel is open. -/
theorem isClosed_concat (l : List (Waiter ε)) :
    Standby.isClosed ⟨l, s.channels ++ [.waiting]⟩ sender = s.isClosed sender := by
  simp only [isClosed]
  rcases lt_trichotomy sender s.channels.length with hlt | rfl | hgt
  · rw [List.getElem?_append_left hlt]
  · rw [List.getElem?_concat_length, List.getElem?_eq_none le_rfl]
  · rw [List.getElem?_eq_none (Nat.le_of_lt hgt), List.getElem?_eq_none]
    rw [List.length_append]
    exact hgt

/-- Sending closes nothing. -/
theorem isClosed_sent (l : List (Waiter ε)) {sent : ℕ} (hopen : s.isClosed sent = false) :
    Standby.isClosed ⟨l, s.channels.set sent (.sent event)⟩ sender = s.isClosed sender := by
  by_cases heq : sent = sender
  · subst heq
    rw [hopen]
    simp only [isClosed, List.getElem?_set_self']
    cases s.channels[sent]? <;> rfl
  · simp only [isClosed, List.getElem?_set_ne heq]

/-- A dropped future closes its own channel. -/
theorem isClosed_abandon {dropped : ℕ} (hlt : dropped < s.channels.length) :
    (s.abandon dropped).isClosed sender = (s.isClosed sender || decide (sender = dropped)) := by
  by_cases heq : dropped = sender
  · subst heq
    simp [isClosed, abandon, hlt]
  · simp [isClosed, abandon, List.getElem?_set_ne heq, Ne.symm heq]

/-- The place in the reaped list of the first waiter that accepts an event. -/
def position (s : Standby ε) (event : ε) : ℕ := s.live.findIdx fun w => w.predicate event

/-- After the reap, a call is decided by the position it finds. -/
theorem process_eq : process event s =
    (if h : s.position event < s.live.length then do
      Act.modify fun t => { t with waiters := t.waiters.eraseIdx (s.position event) }
      send (s.live[s.position event]).sender event
    else pure false : Act (Standby ε) (Notice ε) Bool) { s with waiters := s.live } := rfl

/-- An event that no live waiter accepts only reaps. -/
theorem process_none (hnone : s.live.find? (·.predicate event) = none) :
    process event s = (false, { s with waiters := s.live }, []) := by
  have hlen : s.position event = s.live.length :=
    List.findIdx_eq_length.mpr fun w hw => by simpa using List.find?_eq_none.mp hnone w hw
  rw [process_eq, dif_neg (by omega)]
  rfl

/-- A live waiter is open. -/
theorem open_of_live (hw : w ∈ s.live) : s.isClosed w.sender = false := by
  simpa using (List.mem_filter.mp hw).2

/-- What is sent to an open channel is received. -/
theorem send_open (event : ε) (hopen : s.isClosed sender = false) :
    send sender event s =
      (true, { s with channels := s.channels.set sender (.sent event) },
        [.received sender event]) := by
  show (if s.isClosed sender = true then pure false else _ : Act (Standby ε) (Notice ε) Bool) s = _
  rw [if_neg (Bool.eq_false_iff.mp hopen)]
  rfl

/-- What is sent to a closed channel is lost. -/
theorem send_closed (hclosed : s.isClosed sender = true) :
    send sender event s = (false, s, []) := by
  show (if s.isClosed sender = true then pure false else _ : Act (Standby ε) (Notice ε) Bool) s = _
  rw [if_pos hclosed]
  rfl

/-- The first live waiter that accepts an event leaves the registry and receives it. -/
theorem process_found {l₁ l₂ : List (Waiter ε)} (hlive : s.live = l₁ ++ w :: l₂)
    (haccepts : w.predicate event = true) (hfirst : ∀ w' ∈ l₁, w'.predicate event = false) :
    process event s = (true,
      ⟨l₁ ++ l₂, s.channels.set w.sender (.sent event)⟩, [.received w.sender event]) := by
  have hposition : s.position event = l₁.length := by
    rw [position, hlive, List.findIdx_append, if_neg, List.findIdx_cons, haccepts]
    · simp
    · rw [List.findIdx_lt_length]
      rintro ⟨w', hw', hyes⟩
      exact Bool.false_ne_true ((hfirst w' hw').symm.trans hyes)
  have hlt : s.position event < s.live.length := by
    rw [hposition, hlive, List.length_append, List.length_cons]
    omega
  have hfound : s.live[s.position event] = w := by
    simp [hposition, hlive]
  have herase : s.live.eraseIdx (s.position event) = l₁ ++ l₂ := by
    rw [hposition, hlive, List.eraseIdx_append_of_length_le le_rfl]
    simp
  have hopen : s.isClosed w.sender = false := open_of_live (hlive ▸ by simp)
  have hsend := send_open (s := ⟨l₁ ++ l₂, s.channels⟩) event hopen
  rw [process_eq, dif_pos hlt, hfound, ← hsend, ← herase]
  rfl

/-- The waiters around it stay. -/
theorem process_some (hsome : s.live.find? (·.predicate event) = some w) :
    ∃ l₁ l₂, s.live = l₁ ++ w :: l₂ ∧ process event s = (true,
      ⟨l₁ ++ l₂, s.channels.set w.sender (.sent event)⟩, [.received w.sender event]) := by
  obtain ⟨haccepts, l₁, l₂, hlive, hfirst⟩ := List.find?_eq_some_iff_append.mp hsome
  exact ⟨l₁, l₂, hlive,
    process_found hlive haccepts fun w' hw' => by simpa using hfirst w' hw'⟩

/-! ### Runs -/

/-- What holds of the registry and the channels after a history. -/
structure Kept (h : List (Notice ε)) (s : Standby ε) : Prop where
  /-- The calls of `wait_for` are numbered. -/
  numbered : (registered h).map Waiter.sender = List.range s.channels.length
  /-- A channel is closed once its future is dropped. -/
  closed : ∀ sender, s.isClosed sender = true ↔ sender ∈ abandoned h
  /-- What is registered was registered in this order. -/
  order : s.waiters.Sublist (registered h)
  /-- What is registered and live waits for its event. -/
  live_eq : s.live = pending h
  /-- No waiter receives a second event. -/
  once : (receivers h).Nodup
  /-- A waiter that received an event is not registered any more. -/
  resolved : ∀ w ∈ s.waiters, w.sender ∉ receivers h
  /-- An event is received by a waiter that accepts it. -/
  accepted : ∀ sender event, .received sender event ∈ h →
    ∃ w ∈ registered h, w.sender = sender ∧ w.predicate event = true

theorem mem_pending : w ∈ pending h ↔
    w ∈ registered h ∧ w.sender ∉ abandoned h ∧ w.sender ∉ receivers h := by
  simp [pending]

/-- Two waiters have two channels. -/
theorem Kept.nodup (hk : Kept h s) : ((registered h).map Waiter.sender).Nodup :=
  hk.numbered ▸ List.nodup_range

/-- A channel that was not made is not mentioned. -/
theorem Kept.lt_length (hk : Kept h s) (hw : w ∈ registered h) : w.sender < s.channels.length := by
  rw [← List.mem_range, ← hk.numbered]
  exact List.mem_map_of_mem hw

theorem Kept.lt_of_received (hk : Kept h s) (hr : sender ∈ receivers h) :
    sender < s.channels.length := by
  obtain ⟨event, hr⟩ := mem_receivers.mp hr
  obtain ⟨w, hw, rfl, -⟩ := hk.accepted _ _ hr
  exact hk.lt_length hw

theorem kept_init : Kept ([] : List (Notice ε)) {} where
  numbered := rfl
  closed := by simp [isClosed, abandoned]
  order := List.Sublist.refl _
  live_eq := rfl
  once := List.nodup_nil
  resolved := by simp
  accepted := by simp

/-- Registering a waiter. -/
theorem Kept.waitFor (hk : Kept h s) (predicate : ε → Bool) :
    Kept (h ++ (waitFor predicate).obs s) ((waitFor predicate).state s) := by
  set w : Waiter ε := ⟨predicate, s.channels.length⟩
  -- The channel is new, so it was neither dropped nor served.
  have hnew : w.sender ∉ abandoned h ∧ w.sender ∉ receivers h := by
    refine ⟨fun ha => ?_, fun hr => lt_irrefl _ (hk.lt_of_received hr)⟩
    exact lt_irrefl _ (lt_of_isClosed ((hk.closed _).mpr ha))
  show Kept (h ++ [.registered w]) ⟨s.waiters ++ [w], s.channels ++ [.waiting]⟩
  have hregistered : registered (h ++ [.registered w]) = registered h ++ [w] :=
    registered_append h _
  have hreceivers : receivers (h ++ [.registered w]) = receivers h := by
    rw [receivers_append]
    exact List.append_nil _
  have habandoned : abandoned (h ++ [.registered w]) = abandoned h := by
    rw [abandoned_append]
    exact List.append_nil _
  constructor
  · rw [hregistered, List.map_append, hk.numbered, List.length_append, List.length_singleton,
      List.range_succ]
    rfl
  · intro sender
    rw [isClosed_concat, habandoned]
    exact hk.closed sender
  · rw [hregistered]
    exact hk.order.append (List.Sublist.refl _)
  · -- The new waiter is behind those that are live.
    have hlive : (s.waiters ++ [w]).filter (fun w' => !s.isClosed w'.sender) = s.live ++ [w] := by
      have hopen : s.isClosed w.sender = false :=
        Bool.eq_false_iff.mpr fun hc => hnew.1 ((hk.closed _).mp hc)
      rw [List.filter_append, List.filter_singleton, hopen]
      rfl
    rw [pending, hregistered, hreceivers, habandoned, List.filter_append, ← pending, ← hk.live_eq,
      List.filter_singleton, decide_eq_true hnew, cond_true, ← hlive]
    exact List.filter_congr fun w' _ => by rw [isClosed_concat]
  · rw [hreceivers]
    exact hk.once
  · rw [hreceivers]
    intro w' hw'
    rcases List.mem_append.mp hw' with hw' | hw'
    · exact hk.resolved w' hw'
    · rw [List.mem_singleton.mp hw']
      exact hnew.2
  · rw [hregistered]
    intro sender event hr
    rcases List.mem_append.mp hr with hr | hr
    · obtain ⟨w', hw', heq⟩ := hk.accepted sender event hr
      exact ⟨w', List.mem_append_left _ hw', heq⟩
    · cases List.mem_singleton.mp hr

/-- Dropping a future. -/
theorem Kept.abandon (hk : Kept h s) (hlt : sender < s.channels.length) :
    Kept (h ++ [.abandoned sender]) (s.abandon sender) := by
  have hregistered : registered (h ++ [.abandoned sender]) = registered h := by
    rw [registered_append]
    exact List.append_nil _
  have hreceivers : receivers (h ++ [.abandoned sender]) = receivers h := by
    rw [receivers_append]
    exact List.append_nil _
  have habandoned : abandoned (h ++ [.abandoned sender]) = abandoned h ++ [sender] :=
    abandoned_append h _
  constructor
  · rw [hregistered, hk.numbered]
    simp [Standby.abandon]
  · intro sender'
    rw [isClosed_abandon hlt, Bool.or_eq_true, decide_eq_true_eq, hk.closed, habandoned,
      List.mem_append, List.mem_singleton]
  · rw [hregistered]
    exact hk.order
  · -- Of the live waiters, the one whose future was dropped goes.
    have hlive : (s.abandon sender).live = s.live.filter fun w => w.sender ≠ sender := by
      rw [live, live, List.filter_filter]
      refine List.filter_congr fun w _ => ?_
      rw [isClosed_abandon hlt, Bool.not_or, Bool.and_comm, decide_not]
    rw [hlive, hk.live_eq, pending, pending, hregistered, hreceivers, habandoned,
      List.filter_filter]
    refine List.filter_congr fun w _ => ?_
    simp only [List.mem_append, List.mem_singleton, not_or]
    grind
  · rw [hreceivers]
    exact hk.once
  · rw [hreceivers]
    exact hk.resolved
  · rw [hregistered]
    intro sender' event hr
    rcases List.mem_append.mp hr with hr | hr
    · exact hk.accepted sender' event hr
    · cases List.mem_singleton.mp hr

/-- An event nobody pending accepts. -/
theorem Kept.unmatched (hk : Kept h s) (event : ε) :
    Kept (h ++ [.processed event false]) { s with waiters := s.live } := by
  have hregistered : registered (h ++ [.processed event false]) = registered h := by
    rw [registered_append]
    exact List.append_nil _
  have hreceivers : receivers (h ++ [.processed event false]) = receivers h := by
    rw [receivers_append]
    exact List.append_nil _
  have habandoned : abandoned (h ++ [.processed event false]) = abandoned h := by
    rw [abandoned_append]
    exact List.append_nil _
  refine ⟨hregistered ▸ hk.numbered, habandoned ▸ hk.closed, ?_, ?_, hreceivers ▸ hk.once, ?_, ?_⟩
  · rw [hregistered]
    exact List.filter_sublist.trans hk.order
  · rw [pending, hregistered, hreceivers, habandoned, ← pending, ← hk.live_eq]
    exact List.filter_filter.trans (List.filter_congr fun _ _ => Bool.and_self _)
  · rw [hreceivers]
    exact fun w hw => hk.resolved w (List.mem_of_mem_filter hw)
  · rw [hregistered]
    intro sender event' hr
    rcases List.mem_append.mp hr with hr | hr
    · exact hk.accepted sender event' hr
    · cases List.mem_singleton.mp hr

/-- An event the first pending waiter that accepts it receives. -/
theorem Kept.matched (hk : Kept h s) {l₁ l₂ : List (Waiter ε)} (hlive : s.live = l₁ ++ w :: l₂)
    (haccepts : w.predicate event = true) :
    Kept (h ++ [.received w.sender event, .processed event true])
      ⟨l₁ ++ l₂, s.channels.set w.sender (.sent event)⟩ := by
  have hw : w ∈ s.live := hlive ▸ by simp
  have hsub : (l₁ ++ l₂).Sublist s.waiters := by
    refine List.Sublist.trans ?_ (hlive ▸ List.filter_sublist : (l₁ ++ w :: l₂).Sublist s.waiters)
    exact (List.Sublist.refl l₁).append (List.sublist_cons_self w l₂)
  have hopen : s.isClosed w.sender = false := open_of_live hw
  have hmem : w ∈ s.waiters := List.mem_of_mem_filter hw
  -- The senders of the other live waiters are others.
  have hother : ∀ w' ∈ l₁ ++ l₂, w'.sender ≠ w.sender := by
    have hnodup : ((l₁ ++ w :: l₂).map Waiter.sender).Nodup := by
      rw [← hlive]
      exact hk.nodup.sublist ((List.filter_sublist.trans hk.order).map _)
    rw [(List.perm_middle.map Waiter.sender).nodup_iff, List.map_cons, List.nodup_cons] at hnodup
    exact fun w' hw' heq => hnodup.1 (heq ▸ List.mem_map_of_mem hw')
  have hregistered : registered (h ++ [.received w.sender event, .processed event true]) =
      registered h := by
    rw [registered_append]
    exact List.append_nil _
  have hreceivers : receivers (h ++ [.received w.sender event, .processed event true]) =
      receivers h ++ [w.sender] := receivers_append h _
  have habandoned : abandoned (h ++ [.received w.sender event, .processed event true]) =
      abandoned h := by
    rw [abandoned_append]
    exact List.append_nil _
  constructor
  · rw [hregistered, hk.numbered, List.length_set]
  · intro sender
    rw [isClosed_sent _ hopen, habandoned]
    exact hk.closed sender
  · rw [hregistered]
    exact hsub.trans hk.order
  · have hkept : Standby.live ⟨l₁ ++ l₂, s.channels.set w.sender (.sent event)⟩ = l₁ ++ l₂ := by
      refine List.filter_eq_self.mpr fun w' hw' => ?_
      rw [isClosed_sent _ hopen, open_of_live, Bool.not_false]
      rw [hlive]
      exact (List.Sublist.refl l₁).append (List.sublist_cons_self w l₂) |>.subset hw'
    have hpending : pending (h ++ [.received w.sender event, .processed event true]) =
        (pending h).filter fun w' => w'.sender ≠ w.sender := by
      rw [pending, pending, hregistered, hreceivers, habandoned, List.filter_filter]
      refine List.filter_congr fun w' _ => ?_
      simp only [List.mem_append, List.mem_singleton, not_or]
      grind
    rw [hkept, hpending, ← hk.live_eq, hlive, List.filter_append, List.filter_cons_of_neg (by simp)]
    rw [← List.filter_append]
    exact (List.filter_eq_self.mpr fun w' hw' => by simpa using hother w' hw').symm
  · rw [hreceivers, List.nodup_append]
    refine ⟨hk.once, List.nodup_singleton _, ?_⟩
    rintro sender hsender _ hw' rfl
    rw [List.mem_singleton.mp hw'] at hsender
    exact hk.resolved w hmem hsender
  · rw [hreceivers]
    intro w' hw' hr
    rcases List.mem_append.mp hr with hr | hr
    · exact hk.resolved w' (hsub.subset hw') hr
    · exact hother w' hw' (List.mem_singleton.mp hr)
  · rw [hregistered]
    intro sender event' hr
    rcases List.mem_append.mp hr with hr | hr
    · exact hk.accepted sender event' hr
    · rcases List.mem_cons.mp hr with heq | hr
      · cases heq
        exact ⟨w, hk.order.subset hmem, rfl, haccepts⟩
      · cases List.mem_singleton.mp hr

/-- What a step does keeps this. -/
theorem Kept.step {turn : Turn ε} (hk : Kept h s) (hs : s.step turn = some (s', o)) :
    Kept (h ++ o) s' := by
  cases turn with
  | waitFor predicate =>
    cases hs
    exact hk.waitFor predicate
  | process event =>
    cases hs
    cases hfind : s.live.find? (·.predicate event) with
    | none =>
      have heq := process_none hfind
      rw [Act.obs, Act.state, Act.value, heq]
      exact hk.unmatched event
    | some w =>
      obtain ⟨l₁, l₂, hlive, heq⟩ := process_some hfind
      rw [Act.obs, Act.state, Act.value, heq]
      exact hk.matched hlive (List.find?_eq_some_iff_append.mp hfind).1
  | drop sender =>
    obtain ⟨⟨hlt, -⟩, heq⟩ := Option.ite_none_right_eq_some.mp hs
    cases heq
    exact hk.abandon hlt

/-- What holds of the registry and the channels after every run. -/
theorem kept_of_run (hrun : Run step ({} : Standby ε) h s) : Kept h s :=
  hrun.invariant kept_init Kept.step

/-! ### Who receives an event -/

/-- A call hands its event to the first pending waiter that accepts it. -/
theorem Kept.process (hk : Kept h s) (event : ε) :
    (process event).obs s = (((pending h).find? (·.predicate event)).map fun w =>
        Notice.received w.sender event).toList ∧
      (process event).value s = ((pending h).find? (·.predicate event)).isSome := by
  rw [← hk.live_eq]
  cases hfind : s.live.find? (·.predicate event) with
  | none =>
    rw [Act.obs, Act.value, process_none hfind]
    exact ⟨rfl, rfl⟩
  | some w =>
    obtain ⟨l₁, l₂, -, heq⟩ := process_some hfind
    rw [Act.obs, Act.value, heq]
    exact ⟨rfl, rfl⟩

/-- Who receives an event is the first pending waiter that accepts it. -/
def Rightful (before : List (Notice ε)) (x : Notice ε) : Prop :=
  ∀ sender event, x = .received sender event →
    ∃ w, (pending before).find? (·.predicate event) = some w ∧ w.sender = sender

/-- It was not abandoned before. -/
theorem Rightful.not_abandoned {before : List (Notice ε)}
    (hr : Rightful before (.received sender event)) : .abandoned sender ∉ before := by
  obtain ⟨w, hw, rfl⟩ := hr sender event rfl
  rw [← mem_abandoned]
  exact (mem_pending.mp (List.mem_of_find?_eq_some hw)).2.1

theorem rightful_step {turn : Turn ε} (hk : Kept h s) (hs : s.step turn = some (s', o)) :
    Each (fun before x => Rightful (h ++ before) x) o := by
  cases turn with
  | waitFor predicate =>
    cases hs
    exact each_singleton.mpr fun sender event heq => by cases heq
  | process event =>
    cases hs
    rw [each_snoc, (hk.process event).1]
    refine ⟨?_, fun sender event heq => by cases heq⟩
    cases hfind : (pending h).find? (·.predicate event) with
    | none => exact each_nil
    | some w =>
      refine each_singleton.mpr fun sender event' heq => ?_
      cases heq
      exact ⟨w, by rw [List.append_nil, hfind], rfl⟩
  | drop sender =>
    cases (Option.ite_none_right_eq_some.mp hs).2
    exact each_singleton.mpr fun sender event heq => by cases heq

theorem rightful_of_run (hrun : Run step ({} : Standby ε) h s) : Each Rightful h :=
  hrun.invariant_of kept_of_run each_nil fun hk hr hs =>
    each_append.mpr ⟨hr, rightful_step hk hs⟩

end Standby

open Standby in
/-- **An event goes to the earliest pending waiter that accepts it**, and `process` says whether
there was one.  A waiter receives one event at most, one that it accepts, and none once it is
abandoned; the others keep the order of their registration. -/
theorem standby_hands_over {h : List (Notice ε)} {s : Standby ε}
    (hrun : Run Standby.step ({} : Standby ε) h s) :
    (∀ event : ε, (process event).obs s =
        (((pending h).find? (·.predicate event)).map fun w => .received w.sender event).toList ∧
      ((process event).value s = true ↔ ∃ sender, .received sender event ∈ (process event).obs s)) ∧
    Each Rightful h ∧ (receivers h).Nodup ∧
    (∀ sender event, .received sender event ∈ h →
      ∃ w ∈ registered h, w.sender = sender ∧ w.predicate event = true) ∧
    Each (fun before x => ∀ sender event, x = .received sender event → .abandoned sender ∉ before)
      h ∧
    s.live = pending h ∧ s.waiters.Sublist (registered h) := by
  have hk := kept_of_run hrun
  have hrightful := rightful_of_run hrun
  refine ⟨fun event => ?_, hrightful, hk.once, hk.accepted, ?_, hk.live_eq, hk.order⟩
  · obtain ⟨hobs, hvalue⟩ := hk.process event
    refine ⟨hobs, ?_⟩
    rw [hobs, hvalue]
    cases (pending h).find? (·.predicate event) with
    | none => simp
    | some w => simp
  · refine hrightful.mono fun before x hx sender event heq => ?_
    subst heq
    exact hx.not_abandoned

/-- Two waiters for the same events, the first of them given up. -/
def givenUp : List (Standby.Turn ℕ) :=
  [.waitFor fun n => n < 9, .waitFor fun n => n < 9, .drop 0, .process 7]

theorem givenUp_enabled : (execute Standby.step ({} : Standby ℕ) givenUp).isSome := by
  decide

theorem standby_hands_over_givenUp : ∃ h s, Run Standby.step ({} : Standby ℕ) h s ∧
    Standby.receivers h = [1] ∧ s.live = Standby.pending h :=
  ⟨_, _, run_execute givenUp givenUp_enabled, by decide,
    (standby_hands_over (run_execute givenUp givenUp_enabled)).2.2.2.2.2.1⟩

end RocketSocket
