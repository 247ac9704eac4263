import RocketSocket.Framework.Fences
import RocketSocket.Framework.LoopGuard

/-!
# Whoever a handler hears is entitled to it

A handler that requires a role is called on a message only after the role directory said that
its author holds the role, in the room of the event.

## Main definitions

* `RoleDirectory.Recorded` — a call that returned is one whose answer the run shows.
* `Framework.Granted` — the directory granted what a handler requires.
* `Framework.Entitled` — the invariant.

## Main results

* `RoleDirectory.recorded_move` — every step of the directory keeps its answers on record.
* `Framework.entitled_of_run` — **every handler that is called was granted its requirement**.
-/

namespace RocketSocket

open Machine

namespace RoleDirectory

variable {d d' : RoleDirectory} {h notes : List RoleNote} {input : RoleInput} {n m : ℕ}
  {check c c' : Check} {lookup : Lookup} {rest : List Lookup} {entry : RoleEntry}

/-- A call that returned is one whose answer the run shows. -/
def Recorded (h : List RoleNote) (d : RoleDirectory) : Prop :=
  ∀ (n : ℕ) (c : Check) (granted : Bool), d.checks[n]? = some c → c.phase = .returned granted →
    ∃ t, .returned n c.question granted t ∈ h

theorem Recorded.mono (hr : Recorded h d) (hchecks : d'.checks = d.checks) (o : List RoleNote) :
    Recorded (h ++ o) d' := by
  intro n c granted hc hphase
  rw [hchecks] at hc
  obtain ⟨t, ht⟩ := hr n c granted hc hphase
  exact ⟨t, List.mem_append_left o ht⟩

/-- One call moves: where it returned the notes say so. -/
theorem Recorded.set (hr : Recorded h d) (hchecks : d'.checks = d.checks.set n c)
    (hreturned : ∀ granted, c.phase = .returned granted →
      ∃ t, RoleNote.returned n c.question granted t ∈ notes) : Recorded (h ++ notes) d' := by
  intro m c' granted hm hphase
  rw [hchecks] at hm
  rcases getElem?_of_set hm with ⟨rfl, rfl⟩ | ⟨-, hm⟩
  · obtain ⟨t, ht⟩ := hreturned granted hphase
    exact ⟨t, List.mem_append_right h ht⟩
  · obtain ⟨t, ht⟩ := hr m c' granted hm hphase
    exact ⟨t, List.mem_append_left notes ht⟩

/-- A lookup is over. -/
theorem Recorded.conclude (hr : Recorded h d) (d₁ : RoleDirectory) (hchecks : d₁.checks = d.checks)
    (before : List RoleNote) :
    Recorded (h ++ (before ++ (d₁.conclude n check lookup rest entry).2))
      (d₁.conclude n check lookup rest entry).1 := by
  unfold RoleDirectory.conclude
  simp only
  split
  · refine hr.set (n := n) (by rw [setCheck, hchecks]) fun granted hphase => ?_
    obtain rfl := CheckPhase.returned.inj hphase
    exact ⟨d₁.now, by simp⟩
  · refine hr.set (n := n) (by rw [setCheck, hchecks]) fun granted hphase => ?_
    simp at hphase

/-- **A step keeps the answers on record.** -/
theorem recorded_move (hr : Recorded h d) (hmove : Moves d input d' notes) :
    Recorded (h ++ notes) d' := by
  cases hmove with
  | ask question =>
    intro n c granted hn hphase
    unfold ask at hn ⊢
    simp only at hn ⊢
    -- A check that has nothing to look up is over at once.
    split at hn
    · next hfree =>
      rcases getElem?_of_concat hn with ⟨rfl, rfl⟩ | hn
      · obtain rfl := CheckPhase.returned.inj hphase
        exact ⟨d.now, by simp [hfree]⟩
      · obtain ⟨t, ht⟩ := hr n c granted hn hphase
        exact ⟨t, List.mem_append_left _ ht⟩
    · rcases getElem?_of_concat hn with ⟨rfl, rfl⟩ | hn
      · simp at hphase
      · obtain ⟨t, ht⟩ := hr n c granted hn hphase
        exact ⟨t, List.mem_append_left _ ht⟩
  | obtain hcheck hlookups hphase hslot =>
    refine hr.set (by rw [setCheck, (obtains_slotFor hslot).frame]) fun granted hp => ?_
    simp at hp
  | cached => exact hr.conclude d rfl []
  | start => exact hr.set rfl fun granted hp => by simp at hp
  | answer => exact hr.conclude (d.setSlot _ _) rfl [_]
  | expire => exact hr.conclude (d.setSlot _ _) rfl [_]
  | @cancel n check hcheck =>
    rcases abandon_eq d n check with heq | ⟨i, slot, -, heq⟩ <;> rw [heq] <;>
      exact hr.set rfl fun granted hp => by simp at hp
  | invalidate => exact hr.mono rfl _
  | @drop k drop drops hdrops =>
    exact hr.mono (by rw [(drops_performDrop d drop).frame]) _
  | tick => exact hr.mono rfl _

/-- A call keeps its question. -/
theorem question_move (hmove : Moves d input d' notes) (hc : d.checks[n]? = some c) :
    ∃ c', d'.checks[n]? = some c' ∧ c'.question = c.question := by
  have hlt : n < d'.checks.length :=
    Nat.lt_of_lt_of_le (List.getElem?_eq_some_iff.mp hc).1 (later_move hmove).checks
  obtain ⟨c', hc'⟩ : ∃ c', d'.checks[n]? = some c' := ⟨_, List.getElem?_eq_getElem hlt⟩
  refine ⟨c', hc', ?_⟩
  rcases advances_move hmove hc' with ⟨c₁, hc₁, hadvances⟩ | ⟨hge, -⟩
  · obtain rfl : c = c₁ := Option.some.inj (hc.symm.trans hc₁)
    cases hadvances <;> rfl
  · have := (List.getElem?_eq_some_iff.mp hc).1
    omega

/-- A new call has the question it was asked. -/
theorem question_ask (d : RoleDirectory) (question : Question) :
    ∃ c, (d.ask question).1.checks[d.checks.length]? = some c ∧ c.question = question := by
  unfold ask
  simp only
  split
  · exact ⟨_, List.getElem?_concat_length .., rfl⟩
  · exact ⟨_, List.getElem?_concat_length .., rfl⟩

end RoleDirectory

namespace Framework

/-- The directory granted what handler number `j` requires of the author of the message. -/
def Granted (handlers : List Handler) (h : List DispatchNote) (j : ℕ) (event : DecodedEvent) :
    Prop :=
  ∀ message room, event.message = some (message, room) → ∃ handler n t,
    handlers[j]? = some handler ∧
      .role (.returned n (.verdict handler.filters.authority message.u room) true t) ∈ h

/-- Call number `n` of the directory is about what handler number `j` requires. -/
def Asks (f : Framework) (j n : ℕ) (event : DecodedEvent) : Prop :=
  ∀ message room, event.message = some (message, room) → ∃ handler check,
    f.handlers[j]? = some handler ∧ f.roles.checks[n]? = some check ∧
      check.question = .verdict handler.filters.authority message.u room

/-- **The invariant.** -/
structure Entitled (handlers : List Handler) (h : List DispatchNote) (f : Framework) : Prop where
  handlers_eq : f.handlers = handlers
  recorded : RoleDirectory.Recorded (h.filterMap DispatchNote.role?) f.roles
  checking : ∀ (i : ℕ) (d : Dispatch) (j n : ℕ), f.dispatches[i]? = some d →
    d.phase = .checking j n → f.Asks j n d.event
  called : ∀ i j, .called i j ∈ h →
    ∃ d : Dispatch, f.dispatches[i]? = some d ∧ Granted handlers h j d.event

variable {handlers : List Handler} {f f' f₁ : Framework} {h h' notes : List DispatchNote}
  {i j n : ℕ} {d : Dispatch} {event : DecodedEvent} {input : DispatchInput}

theorem Granted.mono (hg : Granted handlers h j event) (hsub : h ⊆ h') :
    Granted handlers h' j event := by
  intro message room hmessage
  obtain ⟨handler, n, t, hhandler, hreturned⟩ := hg message room hmessage
  exact ⟨handler, n, t, hhandler, hsub hreturned⟩

/-- An offer calls a handler at once only on what is no message. -/
theorem called_of_offer (hs : f.offer i j d = some (f', notes)) {k l : ℕ}
    (hcalled : .called k l ∈ notes) : k = i ∧ l = j ∧ d.event.message = none := by
  unfold offer at hs
  split at hs
  · obtain ⟨-, rfl⟩ := Prod.mk.inj (Option.some.inj hs)
    simp at hcalled
  · next handler hhandler =>
    split at hs
    · next hmessage =>
      obtain ⟨-, rfl⟩ := Prod.mk.inj (Option.some.inj hs)
      obtain ⟨rfl, rfl⟩ : k = i ∧ l = j := by simpa using hcalled
      exact ⟨rfl, rfl, hmessage⟩
    · split at hs
      · replace hs := Option.some.inj hs
        unfold filter at hs
        split at hs
        · obtain ⟨-, rfl⟩ := Prod.mk.inj hs
          simp at hcalled
        · obtain ⟨-, rfl⟩ := Prod.mk.inj hs
          simp at hcalled
      · split_ifs at hs
        obtain ⟨-, rfl⟩ := Prod.mk.inj (Option.some.inj hs)
        simp at hcalled

/-- The call of the directory that a handler waits for decides whether it is called. -/
theorem called_of_conclude {granted : Bool} (hs : f.conclude i j d granted = (f', notes))
    {k l : ℕ} (hcalled : .called k l ∈ notes) : k = i ∧ l = j ∧ granted = true := by
  cases granted with
  | false =>
    obtain ⟨-, rfl⟩ := Prod.mk.inj hs
    simp at hcalled
  | true =>
    obtain ⟨-, rfl⟩ := Prod.mk.inj hs
    obtain ⟨rfl, rfl⟩ : k = i ∧ l = j := by simpa using hcalled
    exact ⟨rfl, rfl, rfl⟩

theorem phase_of_granted {phase : CheckPhase} {granted : Bool} (h : phase.granted = some granted) :
    phase = .returned granted := by
  cases phase with
  | returned => exact congrArg _ (Option.some.inj h)
  | _ => simp [CheckPhase.granted] at h

/-- Why a handler is called: the event is no message, or the directory said yes. -/
theorem called_of_step (hs : f.step input = some (f', notes)) (hcalled : .called i j ∈ notes) :
    ∃ d : Dispatch, f.dispatches[i]? = some d ∧ (d.event.message = none ∨ ∃ n check,
      d.phase = .checking j n ∧ f.roles.checks[n]? = some check ∧
        check.phase = .returned true) := by
  cases input with
  | advance k =>
    obtain ⟨d, hk, hs⟩ := Option.bind_eq_some_iff.mp hs
    unfold advance at hs
    split at hs
    · -- There is no handler left, and none is called.
      split_ifs at hs
      obtain ⟨-, rfl⟩ := Prod.mk.inj (Option.some.inj hs)
      simp at hcalled
    · -- The handler is called without a filter, so the event is no message.
      obtain ⟨rfl, -, hmessage⟩ := called_of_offer hs hcalled
      exact ⟨d, hk, .inl hmessage⟩
    · obtain ⟨-, rfl⟩ := Prod.mk.inj (Option.some.inj hs)
      simp at hcalled
    · obtain ⟨-, rfl⟩ := Prod.mk.inj (Option.some.inj hs)
      simp at hcalled
    · next n hphase =>
      obtain ⟨granted, hgranted, hs⟩ := Option.map_eq_some_iff.mp hs
      obtain ⟨check, hcheck, hreturned⟩ := Option.bind_eq_some_iff.mp hgranted
      obtain ⟨rfl, rfl, rfl⟩ := called_of_conclude hs hcalled
      exact ⟨d, hk, .inr ⟨n, check, hphase, hcheck, phase_of_granted hreturned⟩⟩
    · obtain ⟨-, rfl⟩ := Prod.mk.inj (Option.some.inj hs)
      simp at hcalled
    · simp at hs
    · simp at hs
  | dispatch event =>
    obtain ⟨-, rfl⟩ := Prod.mk.inj (Option.some.inj hs)
    simp at hcalled
  | setCredentials user =>
    obtain ⟨-, rfl⟩ := Prod.mk.inj (Option.some.inj hs)
    simp at hcalled
  | cancel k =>
    simp only [step, Option.bind_eq_bind, Option.bind_eq_some_iff, Option.pure_def,
      Option.some.injEq, Prod.mk.injEq] at hs
    obtain ⟨d, -, -, -, -, rfl⟩ := hs
    simp at hcalled
  | roles input =>
    simp only [step, Option.bind_eq_bind, Option.bind_eq_some_iff, Option.pure_def,
      Option.some.injEq, Prod.exists, Prod.mk.injEq] at hs
    obtain ⟨-, -, roles, notes, -, -, rfl⟩ := hs
    simp at hcalled

theorem Asks.move (ha : f.Asks j n event) (hmove : Moves f f' notes) : f'.Asks j n event := by
  intro message room hmessage
  obtain ⟨handler, check, hhandler, hcheck, hquestion⟩ := ha message room hmessage
  rw [← handlers_move hmove] at hhandler
  rcases roles_move hmove with ⟨input, hstep⟩ | ⟨hroles, -⟩
  · obtain ⟨check', hcheck', heq⟩ :=
      RoleDirectory.question_move (RoleDirectory.moves_of_step hstep) hcheck
    exact ⟨handler, check', hhandler, hcheck', heq.trans hquestion⟩
  · exact ⟨handler, check, hhandler, by rwa [hroles], hquestion⟩

/-- A call that waits for the directory asked what the handler requires. -/
theorem Entitled.asks_move (he : Entitled handlers h f) (hmove : Moves f f' notes)
    (hi : f'.dispatches[i]? = some d) (hphase : d.phase = .checking j n) :
    f'.Asks j n d.event := by
  have hmove' := hmove
  cases hmove with
  | dispatch event =>
    rcases getElem?_of_concat hi with ⟨-, rfl⟩ | hi
    · simp at hphase
    · exact (he.checking i d j n hi hphase).move hmove'
  | @goes k d₁ phase f₁ notes hk hgoes =>
    -- Only the call `k` moves, and only `ask` brings it before the directory.
    change (f₁.dispatches.set k _)[i]? = some d at hi
    rw [hgoes.dispatches] at hi
    rcases getElem?_of_set hi with ⟨rfl, rfl⟩ | ⟨-, hi⟩
    · cases hgoes with
      | @ask _ handler message room me hphase' hhandler hmessage hme hpass =>
        obtain ⟨rfl, rfl⟩ := DispatchPhase.checking.inj hphase
        intro message' room' hmessage'
        obtain ⟨rfl, rfl⟩ := Prod.mk.inj (Option.some.inj (hmessage.symm.trans hmessage'))
        obtain ⟨check, hcheck, hquestion⟩ := RoleDirectory.question_ask f.roles
          (.verdict handler.filters.authority message.u room)
        exact ⟨handler, check, hhandler, hcheck, hquestion⟩
      | _ => simp at hphase
    · exact (he.checking i d j n hi hphase).move hmove'
  | setCredentials => exact (he.checking i d j n hi hphase).move hmove'
  | roles => exact (he.checking i d j n hi hphase).move hmove'

/-- **A step keeps the invariant.** -/
theorem Entitled.step (he : Entitled handlers h f) (hs : f.step input = some (f', notes)) :
    Entitled handlers (h ++ notes) f' := by
  have hmove := moves_of_step hs
  refine ⟨(handlers_move hmove).trans he.handlers_eq, ?_, ?_, ?_⟩
  · rw [List.filterMap_append]
    rcases roles_move hmove with ⟨input, hstep⟩ | ⟨hroles, hnotes⟩
    · exact RoleDirectory.recorded_move he.recorded (RoleDirectory.moves_of_step hstep)
    · exact he.recorded.mono (by rw [hroles]) _
  · exact fun i d j n hi hphase => he.asks_move hmove hi hphase
  · intro i j hmem
    have hsub := List.subset_append_left h notes
    -- What was called before keeps its grounds, for its event stays.
    rcases List.mem_append.mp hmem with hmem | hmem
    · obtain ⟨d, hi, hgranted⟩ := he.called i j hmem
      obtain ⟨d', hi', hevent⟩ := events_move hmove hi
      exact ⟨d', hi', hevent ▸ hgranted.mono hsub⟩
    · -- A call made now is one the directory has answered with yes.
      obtain ⟨d, hi, hwhy⟩ := called_of_step hs hmem
      obtain ⟨d', hi', hevent⟩ := events_move hmove hi
      refine ⟨d', hi', ?_⟩
      rw [hevent]
      intro message room hmessage
      rcases hwhy with hnone | ⟨n, check, hphase, hcheck, hreturned⟩
      · rw [hnone] at hmessage
        simp at hmessage
      · obtain ⟨handler, check', hhandler, hcheck', hquestion⟩ :=
          he.checking i d j n hi hphase message room hmessage
        obtain rfl : check = check' := Option.some.inj (hcheck.symm.trans hcheck')
        obtain ⟨t, ht⟩ := he.recorded n check true hcheck hreturned
        rw [hquestion, mem_filterMap_role?] at ht
        exact ⟨handler, n, t, he.handlers_eq ▸ hhandler, hsub ht⟩

variable {config : RoleCacheConfig} {credentials : Option UserId}

/-- **Every run keeps the invariant**: whoever a handler hears was granted what it requires. -/
theorem entitled_of_run (hrun : Run Framework.step (init handlers config credentials) h f) :
    Entitled handlers h f := by
  refine hrun.invariant (I := Entitled handlers) ?_ fun he hs => he.step hs
  constructor
  · rfl
  · intro n c granted hc
    simp [init, RoleDirectory.init] at hc
  · intro i d j n hi
    simp [init] at hi
  · intro i j hmem
    simp at hmem

end Framework

end RocketSocket
