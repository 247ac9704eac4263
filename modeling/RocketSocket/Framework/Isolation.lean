import RocketSocket.Framework.LoopGuard

/-!
# Handlers are isolated, but for panics

`dispatch` awaits one handler after the other.  What a handler returns it logs at most; a panic
unwinds through it, and the handlers that come later are not called.  In this machine the calls
of `dispatch` advance as before, a handler ends as the environment says, and a run shows what
the filters of each handler said.

## Main definitions

* `HandlerOutcome` — how a handler ends.
* `Framework.filtered` — what the filters of a handler say, when they do.
* `Framework.serve` — one step, handlers ending as told.
* `Framework.Served` — the invariant.

## Main results

* `Framework.Served.serve` — what one step preserves.
* `Framework.isolates_handlers` — **exactly the handlers whose filters pass are called**, once and
  in order, just if no panic comes before one of them.
* `Framework.not_isolates_handlers` — a panic takes the others with it.
-/

namespace RocketSocket

open Machine

/-- How a handler ends. -/
inductive HandlerOutcome where
  | ok
  /-- It returns an error, which is logged. -/
  | error
  | panicked
  deriving DecidableEq, Repr

/-- Who moves. -/
inductive HandlerInput where
  /-- The handler that a call of `dispatch` awaits ends. -/
  | finish (i : ℕ) (outcome : HandlerOutcome)
  | other (input : DispatchInput)

/-- What a run shows. -/
inductive HandlerNote where
  /-- `filtered` returned for handler number `j` on the event of call number `i`. -/
  | filtered (i j : ℕ) (reason : Option Filtered)
  | finished (i j : ℕ) (outcome : HandlerOutcome)
  | other (note : DispatchNote)

/-- The handler that is awaited. -/
def DispatchPhase.handler : DispatchPhase → Option ℕ
  | .running j => some j
  | _ => none

/-- The call of `dispatch` that goes on by itself. -/
def DispatchInput.advanced : DispatchInput → Option ℕ
  | .advance i => some i
  | _ => none

/-- The handler that a call of `dispatch` calls. -/
def HandlerNote.calledOn (i : ℕ) : HandlerNote → Option ℕ
  | .other (.called k j) => if k = i then some j else none
  | _ => none

namespace Framework

variable (f : Framework)

/-- The handler whose filters the next step of a call decides, and why it is filtered out if
it is. -/
def filtered (dispatch : Dispatch) : Option (ℕ × Option Filtered) :=
  match dispatch.phase with
  | .offering j => match f.handlers[j]? with
    | none => none
    | some handler => match dispatch.event.message with
      | none => some (j, none)
      | some (message, room) =>
        (f.me.bind (handler.filters.localVerdict message room)).map fun reason => (j, some reason)
  | .checking j n =>
    (f.roles.checks[n]?.bind (·.phase.granted)).map fun granted => (j, Filtered.ofGranted granted)
  | _ => none

/-- The note of that. -/
def filteredNotes (input : DispatchInput) : List HandlerNote :=
  (input.advanced.bind fun i => (f.dispatches[i]?.bind f.filtered).map fun p =>
    HandlerNote.filtered i p.1 p.2).toList

/-- One step.  A panic unwinds through the call, whose future is gone. -/
def serve : HandlerInput → Option (Framework × List HandlerNote)
  | .finish i outcome => do
    let dispatch ← f.dispatches[i]?
    let j ← dispatch.phase.handler
    let (f, notes) ← f.step (if outcome = .panicked then .cancel i else .advance i)
    return (f, .finished i j outcome :: notes.map .other)
  | .other input => do
    guard (∀ i ∈ input.advanced, ∀ dispatch ∈ f.dispatches[i]?, dispatch.phase.handler = none)
    let (f', notes) ← f.step input
    return (f', f.filteredNotes input ++ notes.map .other)

/-! ### The handlers that are called -/

/-- The handlers called on the event of call number `i`, in order. -/
def callsOf (i : ℕ) (h : List HandlerNote) : List ℕ := h.filterMap (HandlerNote.calledOn i)

/-- Those of the first `k` handlers whose filters pass. -/
def passing (reason : ℕ → Option Filtered) (k : ℕ) : List ℕ :=
  (List.range k).filter fun j => (reason j).isNone

/-- What the filters of each handler say of the event of call number `i`, and how each handler
would end, as far as the run shows it. -/
structure Agrees (h : List HandlerNote) (i : ℕ) (reason : ℕ → Option Filtered)
    (outcome : ℕ → HandlerOutcome) : Prop where
  filtered : ∀ j r, .filtered i j r ∈ h → reason j = r
  finished : ∀ j o, .finished i j o ∈ h → outcome j = o

variable {f} {h o : List HandlerNote} {i j k : ℕ} {reason : ℕ → Option Filtered}
  {outcome : ℕ → HandlerOutcome}

@[simp] theorem callsOf_nil : callsOf i [] = [] := rfl

@[simp] theorem callsOf_cons {note : HandlerNote} :
    callsOf i (note :: h) = (note.calledOn i).toList ++ callsOf i h := by
  rw [callsOf, List.filterMap_cons]
  cases note.calledOn i <;> rfl

@[simp] theorem callsOf_append : callsOf i (h ++ o) = callsOf i h ++ callsOf i o :=
  List.filterMap_append

theorem passing_succ_of_none (hj : reason j = none) :
    passing reason (j + 1) = passing reason j ++ [j] := by
  rw [passing, List.range_succ, List.filter_append]
  simp [passing, hj]

theorem passing_succ_of_some {r : Filtered} (hj : reason j = some r) :
    passing reason (j + 1) = passing reason j := by
  rw [passing, List.range_succ, List.filter_append]
  simp [passing, hj]

theorem mem_passing : j ∈ passing reason k ↔ j < k ∧ reason j = none := by
  simp [passing]

/-- The handlers that pass are as many as of the first ones, just if no later one passes. -/
theorem passing_eq_iff (hjk : j ≤ k) :
    passing reason j = passing reason k ↔ ∀ l < k, j ≤ l → reason l ≠ none := by
  obtain ⟨d, rfl⟩ := Nat.exists_eq_add_of_le hjk
  induction d with
  | zero =>
    refine ⟨fun _ l hl hjl => ?_, fun _ => rfl⟩
    omega
  | succ d ih =>
    rw [← Nat.add_assoc]
    cases hr : reason (j + d) with
    | none =>
      -- the last one passes, so there is one more
      rw [passing_succ_of_none hr]
      constructor
      · intro heq
        have hmem : j + d ∈ passing reason j := by
          rw [heq]
          simp
        have := (mem_passing.1 hmem).1
        omega
      · intro hnone
        exact absurd hr (hnone (j + d) (by omega) (by omega))
    | some r =>
      rw [passing_succ_of_some hr, ih (by omega)]
      constructor
      · intro hnone l hl hjl
        rcases Nat.lt_succ_iff_lt_or_eq.1 hl with hl | rfl
        · exact hnone l hl hjl
        · rw [hr]
          simp
      · exact fun hnone l hl hjl => hnone l (by omega) hjl

/-! ### Notes about one call -/

/-- None of the notes is about a handler of call number `i`. -/
structure Quiet (i : ℕ) (o : List HandlerNote) : Prop where
  calls : callsOf i o = []
  finished : ∀ j outcome, .finished i j outcome ∉ o

/-- No handler of call number `i` panicked. -/
def NoPanic (h : List HandlerNote) (i : ℕ) : Prop := ∀ j, .finished i j .panicked ∉ h

/-- Handler number `j` ended on the event of call number `i`. -/
def Ended (h : List HandlerNote) (i j : ℕ) : Prop := ∃ outcome, .finished i j outcome ∈ h

/-- The event was offered to the first `k` handlers, and each of them ended. -/
structure Offered (h : List HandlerNote) (i k : ℕ) : Prop where
  noPanic : NoPanic h i
  calls : ∀ reason outcome, Agrees h i reason outcome →
    callsOf i h = passing reason k ∧ ∀ j ∈ passing reason k, outcome j ≠ .panicked
  ended : ∀ j ∈ callsOf i h, Ended h i j

/-- It was offered to the handlers before number `j`, which was called. -/
structure Calling (h : List HandlerNote) (i j : ℕ) : Prop where
  calls : ∀ reason outcome, Agrees h i reason outcome → reason j = none ∧
    callsOf i h = passing reason (j + 1) ∧ ∀ k ∈ passing reason j, outcome k ≠ .panicked
  ended : ∀ k ∈ callsOf i h, k = j ∨ Ended h i k

theorem Agrees.of_append (ha : Agrees (h ++ o) i reason outcome) : Agrees h i reason outcome :=
  ⟨fun j r hr => ha.filtered j r (List.mem_append_left o hr),
    fun j r hr => ha.finished j r (List.mem_append_left o hr)⟩

theorem NoPanic.append (hn : NoPanic h i) (ho : ∀ j, .finished i j .panicked ∉ o) :
    NoPanic (h ++ o) i := by
  intro j hj
  rcases List.mem_append.1 hj with hj | hj
  · exact hn j hj
  · exact ho j hj

theorem Ended.append (he : Ended h i j) (o : List HandlerNote) : Ended (h ++ o) i j :=
  he.imp fun _ hmem => List.mem_append_left o hmem

theorem Offered.append (hs : Offered h i k) (ho : Quiet i o) : Offered (h ++ o) i k := by
  refine ⟨hs.noPanic.append fun j => ho.finished j _, fun reason outcome ha => ?_, fun j hj => ?_⟩
  · rw [callsOf_append, ho.calls, List.append_nil]
    exact hs.calls reason outcome ha.of_append
  · rw [callsOf_append, ho.calls, List.append_nil] at hj
    exact (hs.ended j hj).append o

theorem Calling.append (hs : Calling h i j) (ho : callsOf i o = []) : Calling (h ++ o) i j := by
  refine ⟨fun reason outcome ha => ?_, fun k hk => ?_⟩
  · rw [callsOf_append, ho, List.append_nil]
    exact hs.calls reason outcome ha.of_append
  · rw [callsOf_append, ho, List.append_nil] at hk
    exact (hs.ended k hk).imp_right fun he => he.append o

/-- A handler that is filtered out. -/
theorem Offered.filtered {r : Filtered} (hs : Offered h i j) :
    Offered (h ++ [.filtered i j (some r)]) i (j + 1) := by
  refine ⟨hs.noPanic.append (by simp), fun reason outcome ha => ?_, fun k hk => ?_⟩
  · have hr : reason j = some r := ha.filtered j _ (by simp)
    rw [passing_succ_of_some hr]
    simpa [HandlerNote.calledOn] using hs.calls reason outcome ha.of_append
  · rw [callsOf_append] at hk
    exact (hs.ended k (by simpa [HandlerNote.calledOn] using hk)).append _

/-- A handler that is called. -/
theorem Offered.called (hs : Offered h i j) :
    Calling (h ++ [.filtered i j none, .other (.called i j)]) i j := by
  refine ⟨fun reason outcome ha => ?_, fun k hk => ?_⟩
  · obtain ⟨hcalls, hended⟩ := hs.calls reason outcome ha.of_append
    have hr : reason j = none := ha.filtered j _ (by simp)
    refine ⟨hr, ?_, hended⟩
    rw [passing_succ_of_none hr, callsOf_append, hcalls]
    simp [HandlerNote.calledOn]
  · rw [callsOf_append] at hk
    rcases List.mem_append.1 hk with hk | hk
    · exact .inr ((hs.ended k hk).append _)
    · exact .inl (by simpa [HandlerNote.calledOn] using hk)

/-- A handler that returns. -/
theorem Calling.finished {out : HandlerOutcome} (hs : Calling h i j) (hn : NoPanic h i)
    (hout : out ≠ .panicked) : Offered (h ++ [.finished i j out]) i (j + 1) := by
  refine ⟨hn.append (by simpa using hout.symm), fun reason outcome ha => ?_, fun k hk => ?_⟩
  · obtain ⟨hr, hcalls, hended⟩ := hs.calls reason outcome ha.of_append
    refine ⟨by simpa [HandlerNote.calledOn] using hcalls, fun k hk => ?_⟩
    rw [passing_succ_of_none hr] at hk
    rcases List.mem_append.1 hk with hk | hk
    · exact hended k hk
    · rw [List.mem_singleton.1 hk, ha.finished j out (by simp)]
      exact hout
  · rw [callsOf_append] at hk
    rcases hs.ended k (by simpa [HandlerNote.calledOn] using hk) with rfl | he
    · exact ⟨out, List.mem_append_right _ (List.mem_singleton_self _)⟩
    · exact he.append _

/-! ### The invariant -/

/-- What the invariant says about call number `i` where it stands, with `n` handlers. -/
def Serves (n : ℕ) (h : List HandlerNote) (i : ℕ) : DispatchPhase → Prop
  | .observing _ => Offered h i 0
  | .offering j => j ≤ n ∧ Offered h i j
  | .identifying j | .identified j _ | .checking j _ => j < n ∧ Offered h i j
  | .running j => j < n ∧ NoPanic h i ∧ Calling h i j
  | .returned => Offered h i n
  | .cancelled => ∀ j, .finished i j .panicked ∈ h → j < n ∧ Calling h i j

/-- **The invariant.** -/
structure Served (handlers : List Handler) (h : List HandlerNote) (f : Framework) : Prop where
  handlers_eq : f.handlers = handlers
  stands : ∀ (i : ℕ) (d : Dispatch), f.dispatches[i]? = some d →
    Serves handlers.length h i d.phase
  unborn : ∀ i, f.dispatches.length ≤ i → Quiet i h

variable {handlers : List Handler} {f f' f₁ : Framework} {notes : List DispatchNote} {n : ℕ}
  {d : Dispatch} {phase : DispatchPhase} {input : DispatchInput} {config : RoleCacheConfig}
  {credentials : Option UserId}

theorem Quiet.append (ho : Quiet i h) (ho' : Quiet i o) : Quiet i (h ++ o) :=
  ⟨by rw [callsOf_append, ho.calls, ho'.calls, List.append_nil], fun j outcome hj =>
    (List.mem_append.1 hj).elim (ho.finished j outcome) (ho'.finished j outcome)⟩

theorem quiet_nil : Quiet i [] := ⟨rfl, by simp⟩

theorem quiet_filtered {r : Option Filtered} : Quiet i [.filtered k j r] :=
  ⟨rfl, by simp⟩

/-- What the directory shows is about no handler. -/
theorem quiet_roles (notes : List RoleNote) :
    Quiet i ((notes.map DispatchNote.role).map HandlerNote.other) := by
  constructor
  · induction notes with
    | nil => rfl
    | cons note notes ih => exact ih
  · simp

theorem Serves.noPanic (hs : Serves n h i phase) (hphase : phase.isSuspended = true) :
    NoPanic h i := by
  cases phase with
  | offering | identifying | checking => exact hs.2.1
  | running => exact hs.2.1
  | observing | identified | returned | cancelled => cases hphase

/-- A call that does not move stands as it did. -/
theorem Serves.append (hs : Serves n h i phase) (ho : Quiet i o) : Serves n (h ++ o) i phase := by
  cases phase with
  | observing => exact Offered.append hs ho
  | offering | identifying | identified | checking => exact ⟨hs.1, hs.2.append ho⟩
  | running j =>
    exact ⟨hs.1, hs.2.1.append fun j => ho.finished j _, hs.2.2.append ho.calls⟩
  | returned => exact Offered.append hs ho
  | cancelled =>
    intro j hj
    rcases List.mem_append.1 hj with hj | hj
    · exact ⟨(hs j hj).1, (hs j hj).2.append ho.calls⟩
    · exact absurd hj (ho.finished j _)

/-- No call moves. -/
theorem Served.frame (hs : Served handlers h f) (hhandlers : f'.handlers = f.handlers)
    (hdispatches : f'.dispatches = f.dispatches) (ho : ∀ k, Quiet k o) :
    Served handlers (h ++ o) f' := by
  refine ⟨hhandlers.trans hs.handlers_eq, fun k d hk => ?_, fun k hk => ?_⟩
  · rw [hdispatches] at hk
    exact (hs.stands k d hk).append (ho k)
  · rw [hdispatches] at hk
    exact (hs.unborn k hk).append (ho k)

/-- One call moves. -/
theorem Served.set (hs : Served handlers h f) (hhandlers : f₁.handlers = f.handlers)
    (hdispatches : f₁.dispatches = f.dispatches) (hi : f.dispatches[i]? = some d)
    (ho : ∀ k, k ≠ i → Quiet k o) (hmoved : Serves handlers.length (h ++ o) i phase) :
    Served handlers (h ++ o) (f₁.setPhase i d phase) := by
  have hlt : i < f.dispatches.length := (List.getElem?_eq_some_iff.1 hi).1
  refine ⟨hhandlers.trans hs.handlers_eq, fun k e hk => ?_, fun k hk => ?_⟩
  · change (f₁.dispatches.set i _)[k]? = some e at hk
    rw [hdispatches] at hk
    rcases getElem?_of_set hk with ⟨rfl, rfl⟩ | ⟨hki, hk⟩
    · exact hmoved
    · exact (hs.stands k e hk).append (ho k hki)
  · change (f₁.dispatches.set i _).length ≤ k at hk
    rw [List.length_set, hdispatches] at hk
    exact (hs.unborn k hk).append (ho k (by omega))

/-- A handler was filtered out or called: its filters decided. -/
theorem Served.decide (hs : Served handlers h f) (hi : f.dispatches[i]? = some d)
    (hj : j < handlers.length) (hoffered : Offered h i j) :
    (∀ r, Served handlers (h ++ [.filtered i j (some r)]) (f.setPhase i d (.offering (j + 1)))) ∧
      Served handlers (h ++ [.filtered i j none, .other (.called i j)])
        (f.setPhase i d (.running j)) := by
  refine ⟨fun r => ?_, ?_⟩
  · exact hs.set rfl rfl hi (fun k hk => quiet_filtered) ⟨hj, hoffered.filtered⟩
  · refine hs.set rfl rfl hi (fun k hk => ?_) ⟨hj, hoffered.1.append (by simp), hoffered.called⟩
    exact ⟨by simp [HandlerNote.calledOn, hk.symm], by simp⟩

/-! ### Steps -/

/-- The event is offered to the next handler. -/
theorem Served.offer (hs : Served handlers h f) (hi : f.dispatches[i]? = some d)
    (hphase : d.phase = .offering j) (hoffer : f.offer i j d = some (f', notes)) :
    Served handlers (h ++ (((f.filtered d).map fun p => HandlerNote.filtered i p.1 p.2).toList ++
      notes.map .other)) f' := by
  have hstands := hs.stands i d hi
  rw [hphase] at hstands
  obtain ⟨hle, hoffered⟩ := hstands
  unfold Framework.offer at hoffer
  split at hoffer
  · next hhandler =>
    -- there is no handler left
    obtain rfl : j = handlers.length := by
      have := List.getElem?_eq_none_iff.1 hhandler
      rw [hs.handlers_eq] at this
      omega
    obtain ⟨rfl, rfl⟩ := Prod.mk.inj (Option.some.inj hoffer)
    rw [show f.filtered d = none by simp only [Framework.filtered, hphase, hhandler]]
    exact hs.set rfl rfl hi (fun k hk => quiet_nil) (Offered.append hoffered quiet_nil)
  · next handler hhandler =>
    have hj : j < handlers.length := hs.handlers_eq ▸ (List.getElem?_eq_some_iff.1 hhandler).1
    split at hoffer
    · next hmessage =>
      obtain ⟨rfl, rfl⟩ := Prod.mk.inj (Option.some.inj hoffer)
      rw [show f.filtered d = some (j, none) by
        simp only [Framework.filtered, hphase, hhandler, hmessage]]
      exact (hs.decide hi hj hoffered).2
    · next message room hmessage =>
      have hfiltered : f.filtered d = (f.me.bind (handler.filters.localVerdict message room)).map
          fun reason => (j, some reason) := by
        simp only [Framework.filtered, hphase, hhandler, hmessage]
      rw [hfiltered]
      split at hoffer
      · next me hme =>
        rw [hme, Option.bind_some]
        replace hoffer := Option.some.inj hoffer
        unfold Framework.filter at hoffer
        split at hoffer
        · next r hr =>
          obtain ⟨rfl, rfl⟩ := Prod.mk.inj hoffer
          rw [hr]
          exact (hs.decide hi hj hoffered).1 r
        · next hr =>
          -- the directory is asked
          obtain ⟨rfl, rfl⟩ := Prod.mk.inj hoffer
          rw [hr]
          have hquiet : ∀ k, Quiet k ([.other (.checking i j f.roles.checks.length)] ++
              ((f.roles.ask (.verdict handler.filters.authority message.u room)).2.map
                DispatchNote.role).map HandlerNote.other) := fun k =>
            Quiet.append ⟨rfl, by simp⟩ (quiet_roles _)
          exact hs.set rfl rfl hi (fun k hk => hquiet k) ⟨hj, hoffered.append (hquiet i)⟩
      · next hme =>
        rw [hme]
        split_ifs at hoffer
        obtain ⟨rfl, rfl⟩ := Prod.mk.inj (Option.some.inj hoffer)
        exact hs.set rfl rfl hi (fun k hk => quiet_nil) ⟨hj, hoffered.append quiet_nil⟩

/-- A call goes on by itself. -/
theorem Served.advance (hs : Served handlers h f) (hi : f.dispatches[i]? = some d)
    (hhandler : d.phase.handler = none) (hadvance : f.advance i d = some (f', notes)) :
    Served handlers (h ++ (((f.filtered d).map fun p => HandlerNote.filtered i p.1 p.2).toList ++
      notes.map .other)) f' := by
  have hstands := hs.stands i d hi
  unfold Framework.advance at hadvance
  split at hadvance
  · next call hphase =>
    rw [hphase] at hstands
    split_ifs at hadvance
    obtain ⟨rfl, rfl⟩ := Prod.mk.inj (Option.some.inj hadvance)
    rw [show f.filtered d = none by simp only [Framework.filtered, hphase]]
    exact hs.set rfl rfl hi (fun k hk => ⟨rfl, by simp⟩)
      ⟨Nat.zero_le _, Offered.append hstands ⟨rfl, by simp⟩⟩
  · next j hphase => exact hs.offer hi hphase hadvance
  · next j hphase =>
    rw [hphase] at hstands
    obtain ⟨rfl, rfl⟩ := Prod.mk.inj (Option.some.inj hadvance)
    rw [show f.filtered d = none by simp only [Framework.filtered, hphase]]
    exact hs.set rfl rfl hi (fun k hk => ⟨rfl, by simp⟩)
      ⟨hstands.1, hstands.2.append ⟨rfl, by simp⟩⟩
  · next j user hphase =>
    rw [hphase] at hstands
    obtain ⟨rfl, rfl⟩ := Prod.mk.inj (Option.some.inj hadvance)
    rw [show f.filtered d = none by simp only [Framework.filtered, hphase]]
    exact hs.set rfl rfl hi (fun k hk => quiet_nil)
      ⟨hstands.1.le, hstands.2.append quiet_nil⟩
  · next j n hphase =>
    -- the directory answered, and that decides
    rw [hphase] at hstands
    obtain ⟨granted, hgranted, hconclude⟩ := Option.map_eq_some_iff.1 hadvance
    rw [show f.filtered d = some (j, Filtered.ofGranted granted) by
      simp only [Framework.filtered, hphase, hgranted, Option.map_some]]
    obtain ⟨hover, hcalled⟩ := hs.decide hi hstands.1 hstands.2
    unfold Framework.conclude at hconclude
    split at hconclude
    · next r hr =>
      obtain ⟨rfl, rfl⟩ := Prod.mk.inj hconclude
      rw [hr]
      exact hover r
    · next hr =>
      obtain ⟨rfl, rfl⟩ := Prod.mk.inj hconclude
      rw [hr]
      exact hcalled
  · next j hphase =>
    rw [hphase] at hhandler
    cases hhandler
  · cases hadvance
  · cases hadvance

/-- The handler that a call awaits ends. -/
theorem Served.finish {out : HandlerOutcome} (hs : Served handlers h f)
    (hi : f.dispatches[i]? = some d) (hhandler : d.phase.handler = some j)
    (hstep : f.step (if out = .panicked then .cancel i else .advance i) = some (f', notes)) :
    Served handlers (h ++ (.finished i j out :: notes.map .other)) f' := by
  have hstands := hs.stands i d hi
  obtain ⟨event, phase⟩ := d
  cases phase with
  | running j' =>
    obtain rfl : j' = j := Option.some.inj hhandler
    obtain ⟨hj, hn, hcalling⟩ := hstands
    have hothers : ∀ k, k ≠ i → Quiet k [.finished i j' out] := fun k hk =>
      ⟨rfl, by simp [hk]⟩
    split_ifs at hstep with hout
    · -- the panic unwinds
      subst hout
      simp only [Framework.step, hi, Option.bind_eq_bind, Option.bind_some, Option.guard_eq_some',
        Option.pure_def, Option.bind_eq_some_iff, Option.some.injEq, Prod.mk.injEq] at hstep
      obtain ⟨_, _, rfl, rfl⟩ := hstep
      refine hs.set rfl rfl hi hothers fun l hl => ?_
      rcases List.mem_append.1 hl with hl | hl
      · exact absurd hl (hn l)
      · obtain rfl : l = j' := by simpa using hl
        exact ⟨hj, hcalling.append rfl⟩
    · simp only [Framework.step, hi, Option.bind_some, Framework.advance, Option.some.injEq,
        Prod.mk.injEq] at hstep
      obtain ⟨rfl, rfl⟩ := hstep
      exact hs.set rfl rfl hi hothers ⟨hj, hcalling.finished hn hout⟩
  | observing | offering | identifying | identified | checking | returned | cancelled =>
    cases hhandler

/-- A step in which no handler ends. -/
theorem Served.other (hs : Served handlers h f)
    (hguard : ∀ i ∈ input.advanced, ∀ d ∈ f.dispatches[i]?, d.phase.handler = none)
    (hstep : f.step input = some (f', notes)) :
    Served handlers (h ++ (f.filteredNotes input ++ notes.map .other)) f' := by
  cases input with
  | dispatch event =>
    obtain ⟨rfl, rfl⟩ := Prod.mk.inj (Option.some.inj hstep)
    have hquiet : ∀ k, Quiet k (f.filteredNotes (.dispatch event) ++
        (f.beginDispatch event).2.map .other) := fun k => ⟨rfl, by simp [filteredNotes,
          DispatchInput.advanced, beginDispatch]⟩
    refine ⟨hs.handlers_eq, fun k e hk => ?_, fun k hk => ?_⟩
    · change (f.dispatches ++ [_])[k]? = some e at hk
      rcases getElem?_of_concat hk with ⟨rfl, rfl⟩ | hk
      · -- nothing was said of a call that did not exist
        have hborn := hs.unborn f.dispatches.length le_rfl
        have hoffered : Offered h f.dispatches.length 0 := ⟨fun j => hborn.finished j _,
          fun reason outcome _ => ⟨hborn.calls, by simp [passing]⟩, by simp [hborn.calls]⟩
        exact hoffered.append (hquiet _)
      · exact (hs.stands k e hk).append (hquiet k)
    · refine (hs.unborn k ?_).append (hquiet k)
      change (f.dispatches ++ [_]).length ≤ k at hk
      rw [List.length_append] at hk
      omega
  | advance i =>
    obtain ⟨d, hi, hadvance⟩ := Option.bind_eq_some_iff.1 hstep
    have hnotes : f.filteredNotes (.advance i) =
        ((f.filtered d).map fun p => HandlerNote.filtered i p.1 p.2).toList := by
      simp only [filteredNotes, DispatchInput.advanced, hi, Option.bind_some]
    rw [hnotes]
    exact hs.advance hi (hguard i rfl d hi) hadvance
  | cancel i =>
    simp only [step, Option.bind_eq_bind, Option.bind_eq_some_iff, Option.guard_eq_some',
      Option.pure_def, Option.some.injEq, Prod.mk.injEq] at hstep
    obtain ⟨d, hi, _, hsuspended, rfl, rfl⟩ := hstep
    refine hs.set rfl rfl hi (fun k hk => quiet_nil) fun j hj => ?_
    rw [show f.filteredNotes (.cancel i) ++ [].map HandlerNote.other = [] from rfl,
      List.append_nil] at hj
    exact absurd hj ((hs.stands i d hi).noPanic hsuspended j)
  | setCredentials user =>
    obtain ⟨rfl, rfl⟩ := Prod.mk.inj (Option.some.inj hstep)
    exact hs.frame rfl rfl fun k => quiet_nil
  | roles input =>
    simp only [step, Option.bind_eq_bind, Option.bind_eq_some_iff, Option.guard_eq_some',
      Option.pure_def, Option.some.injEq, Prod.exists, Prod.mk.injEq] at hstep
    obtain ⟨_, -, roles, notes, -, rfl, rfl⟩ := hstep
    exact hs.frame rfl rfl fun k => quiet_roles notes

/-- **One step.** -/
theorem Served.serve {input : HandlerInput} (hs : Served handlers h f)
    (hstep : f.serve input = some (f', o)) : Served handlers (h ++ o) f' := by
  cases input with
  | finish i out =>
    simp only [Framework.serve, Option.bind_eq_bind, Option.bind_eq_some_iff, Option.pure_def,
      Option.some.injEq, Prod.exists, Prod.mk.injEq] at hstep
    obtain ⟨d, hi, j, hhandler, _, notes, hstep, rfl, rfl⟩ := hstep
    exact hs.finish hi hhandler hstep
  | other input =>
    simp only [Framework.serve, Option.bind_eq_bind, Option.bind_eq_some_iff,
      Option.guard_eq_some', Option.pure_def, Option.some.injEq, Prod.exists,
      Prod.mk.injEq] at hstep
    obtain ⟨_, hguard, _, notes, hstep, rfl, rfl⟩ := hstep
    exact hs.other hguard hstep

/-- Every run keeps the invariant. -/
theorem served_of_run (hrun : Run serve (init handlers config credentials) h f) :
    Served handlers h f := by
  refine hrun.invariant ⟨rfl, fun i d hi => ?_, fun i hi => quiet_nil⟩ fun hs hstep =>
    hs.serve hstep
  exact absurd hi (by simp [init])

/-! ### The result -/

/-- **Handlers are isolated, but for panics.**  In every run, where a call of `dispatch` returned
or a panic unwound through it: the handlers whose filters pass are called on its event, each once
and in order, just if none of them that has another one after it panics.  What the filters say
of a handler, and how it ends, is what the run shows, and anything where it shows nothing. -/
theorem isolates_handlers (hrun : Run serve (init handlers config credentials) h f)
    (hi : f.dispatches[i]? = some d)
    (hended : d.phase = .returned ∨ ∃ j, .finished i j .panicked ∈ h)
    (hagrees : Agrees h i reason outcome) :
    callsOf i h = passing reason handlers.length ↔
      ∀ j < handlers.length, reason j = none → outcome j = .panicked →
        ∀ k < handlers.length, j < k → reason k ≠ none := by
  have hstands := (served_of_run hrun).stands i d hi
  by_cases hpanic : NoPanic h i
  · -- it returned: no handler that was called panicked
    have hreturned : d.phase = .returned := hended.resolve_right fun ⟨j, hj⟩ => hpanic j hj
    rw [hreturned] at hstands
    obtain ⟨hcalls, hended⟩ := hstands.calls reason outcome hagrees
    refine ⟨fun _ j hj hr ho => ?_, fun _ => hcalls⟩
    exact absurd ho (hended j (mem_passing.2 ⟨hj, hr⟩))
  · obtain ⟨j, hj⟩ : ∃ j, HandlerNote.finished i j .panicked ∈ h := by
      simpa [NoPanic] using hpanic
    -- a panic of the `j`-th unwound through it
    obtain ⟨hlt, hcalling⟩ : j < handlers.length ∧ Calling h i j := by
      obtain ⟨event, phase⟩ := d
      cases phase with
      | cancelled => exact hstands j hj
      | observing | returned => exact absurd hj (hstands.1 j)
      | offering | identifying | identified | checking | running =>
        exact absurd hj (hstands.2.1 j)
    obtain ⟨hr, hcalls, hended⟩ := hcalling.calls reason outcome hagrees
    rw [hcalls, passing_eq_iff hlt]
    constructor
    · intro hnone l hl hrl hol k hk hlk
      refine hnone k hk ?_
      -- the handlers before the `j`-th ended well
      have hjl : ¬ l < j := fun hlj => hended l (mem_passing.2 ⟨hlj, hrl⟩) hol
      omega
    · exact fun hlast k hk hjk => hlast j hlt hr (hagrees.finished j _ hj) k hk hjk

/-! ### Concrete runs -/

/-- Two handlers without filters. -/
def logAndReply : List Handler := [{ name := "log" }, { name := "reply" }]

/-- An event that is no message, and the first handler fails. -/
def firstFails (outcome : HandlerOutcome) : List HandlerInput :=
  [.other (.dispatch (.stream .other)), .other (.advance 0), .other (.advance 0),
    .finish 0 outcome]

/-- What the second handler does then. -/
def secondReplies : List HandlerInput :=
  [.other (.advance 0), .finish 0 .ok, .other (.advance 0)]

theorem isolates_handlers_error : ∃ (h : List HandlerNote) (f : Framework),
    Run serve (init logAndReply {} none) h f ∧ .finished 0 0 .error ∈ h ∧ callsOf 0 h = [0, 1] := by
  obtain ⟨h, f, hexecute, hi, hh⟩ : ∃ (h : List HandlerNote) (f : Framework),
      execute serve (init logAndReply {} none) (firstFails .error ++ secondReplies) =
        some (f, h) ∧
      f.dispatches[0]? = some ⟨.stream .other, .returned⟩ ∧
      h = [.other (.dispatched 0 none none), .other (.observed 0), .filtered 0 0 none,
        .other (.called 0 0), .finished 0 0 .error, .filtered 0 1 none, .other (.called 0 1),
        .finished 0 1 .ok] := ⟨_, _, rfl, rfl, rfl⟩
  have hrun := run_of_execute hexecute
  have hagrees : Agrees h 0 (fun _ => none) (fun j => if j = 0 then .error else .ok) := by
    rw [hh]
    constructor
    · simp only [List.mem_cons, List.not_mem_nil, HandlerNote.filtered.injEq, reduceCtorEq,
        false_or, or_false, true_and]
      rintro j r (⟨-, rfl⟩ | ⟨-, rfl⟩) <;> rfl
    · simp only [List.mem_cons, List.not_mem_nil, HandlerNote.finished.injEq, reduceCtorEq,
        false_or, or_false, true_and]
      rintro j out (⟨rfl, rfl⟩ | ⟨rfl, rfl⟩) <;> rfl
  refine ⟨h, f, hrun, by simp [hh], (isolates_handlers hrun hi (.inl rfl) hagrees).2 ?_⟩
  intro j hj hr hout
  split_ifs at hout

/-- **A panic takes the others with it**, though their filters pass. -/
theorem not_isolates_handlers : ∃ (h : List HandlerNote) (f : Framework),
    Run serve (init logAndReply {} none) h f ∧ .finished 0 0 .panicked ∈ h ∧
      f.filtered ⟨.stream .other, .offering 1⟩ = some (1, none) ∧
      Agrees h 0 (fun _ => none) (fun j => if j = 0 then .panicked else .ok) ∧
      callsOf 0 h ≠ passing (fun _ => none) logAndReply.length := by
  obtain ⟨h, f, hexecute, hfiltered, hh⟩ : ∃ (h : List HandlerNote) (f : Framework),
      execute serve (init logAndReply {} none) (firstFails .panicked) = some (f, h) ∧
      f.filtered ⟨.stream .other, .offering 1⟩ = some (1, none) ∧
      h = [.other (.dispatched 0 none none), .other (.observed 0), .filtered 0 0 none,
        .other (.called 0 0), .finished 0 0 .panicked] := ⟨_, _, rfl, rfl, rfl⟩
  refine ⟨h, f, run_of_execute hexecute, by simp [hh], hfiltered, ?_, by rw [hh]; decide⟩
  rw [hh]
  constructor
  · simp
  · simp

end Framework
end RocketSocket
