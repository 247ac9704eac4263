import RocketSocket.Lib.History
import RocketSocket.Realtime.Correlate

/-!
# Whole runs of two correlators

The runner keeps two correlators, one for methods and one for subscriptions.  Here
they are driven by any sequence of their operations, and what they do is compared
with an abstract ledger that only looks at the history: which call is registered
under an id since the last disconnect and not yet answered or cancelled.

Each registration creates a oneshot; the oneshot of the `k`-th registration of the
run is called `k`.

## Main definitions

* `Tables`, `Op`, `Fact` — the two correlators, their operations, and what happened.
* `outstanding h side id` — the abstract ledger.
* `Refines h t` — the tables hold exactly what the ledger says.

## Main results

* `refines_run` — **the tables refine the ledger** along every run.
* `correlator_run` — **the correlators over any run**: ids never repeat, every reply goes
  to the call it is for, and every call is answered at most once.
-/

namespace RocketSocket

open Machine

/-- The two correlators, and how many calls were registered so far. -/
structure Tables where
  table : Side → Correlator ℕ
  calls : ℕ

/-- The tables a runner starts with. -/
def Tables.init : Tables := ⟨fun side => .new side.idPrefix, 0⟩

/-- An operation on one correlator. -/
inductive Op where
  | register
  | markSent (id : String)
  | resolve (id : String) (outcome : Except DdpError Value) (gone : ℕ → Bool)
  | cancel (id : String)
  | disconnect

/-- What one operation did. -/
inductive Fact where
  | registered (side : Side) (id : String) (call : ℕ)
  | marked (side : Side) (id : String)
  | replied (side : Side) (id : String) (outcome : Except DdpError Value)
      (resolution : Resolution) (settled : Option (Settlement ℕ))
  | cancelled (side : Side) (id : String)
  | disconnected (side : Side) (settled : List (Settlement ℕ))

namespace Tables

/-- Replace one of the two correlators. -/
def set (t : Tables) (side : Side) (c : Correlator ℕ) : Tables :=
  { t with table := Function.update t.table side c }

/-- One operation on one correlator. -/
def step (t : Tables) : Side × Op → Option (Tables × List Fact)
  | (side, .register) =>
    let (id, c) := (t.table side).register t.calls
    some ({ t.set side c with calls := t.calls + 1 }, [.registered side id t.calls])
  | (side, .markSent id) => some (t.set side ((t.table side).markSent id), [.marked side id])
  | (side, .resolve id outcome gone) =>
    let (c, resolution, settled) := (t.table side).resolve id outcome gone
    some (t.set side c, [.replied side id outcome resolution settled])
  | (side, .cancel id) => some (t.set side ((t.table side).cancel id).1, [.cancelled side id])
  | (side, .disconnect) =>
    let (c, settled) := (t.table side).disconnect
    some (t.set side c, [.disconnected side settled])

@[simp] theorem table_set_self (t : Tables) (side : Side) (c : Correlator ℕ) :
    (t.set side c).table side = c := Function.update_self ..

@[simp] theorem table_set_of_ne {t : Tables} {side side' : Side} {c : Correlator ℕ}
    (h : side' ≠ side) : (t.set side c).table side' = t.table side' :=
  Function.update_of_ne h ..

@[simp] theorem calls_set (t : Tables) (side : Side) (c : Correlator ℕ) :
    (t.set side c).calls = t.calls := rfl

end Tables

/-! ### The ledger -/

/-- What one fact means for the call registered under `id`. -/
def Fact.update (side : Side) (id : String) (call : Option (ℕ × Bool)) :
    Fact → Option (ℕ × Bool)
  | .registered side' id' k => if side' = side ∧ id' = id then some (k, false) else call
  | .marked side' id' => if side' = side ∧ id' = id then call.map fun c => (c.1, true) else call
  | .replied side' id' _ _ _ => if side' = side ∧ id' = id then none else call
  | .cancelled side' id' => if side' = side ∧ id' = id then none else call
  | .disconnected side' _ => if side' = side then none else call

/-- The call registered under `id` since the last disconnect that was neither answered
nor cancelled, and whether it was marked as sent. -/
def outstanding (h : List Fact) (side : Side) (id : String) : Option (ℕ × Bool) :=
  h.foldl (Fact.update side id) none

@[simp] theorem outstanding_nil (side : Side) (id : String) : outstanding [] side id = none :=
  rfl

@[simp] theorem outstanding_snoc (h : List Fact) (x : Fact) (side : Side) (id : String) :
    outstanding (h ++ [x]) side id = x.update side id (outstanding h side id) := by
  simp [outstanding]

/-- The ids the correlators returned, in order. -/
def registeredIds (h : List Fact) : List String :=
  h.filterMap fun
    | .registered _ id _ => some id
    | _ => none

/-- The replies a fact sends. -/
def Fact.settlements : Fact → List (Settlement ℕ)
  | .replied _ _ _ _ settled => settled.toList
  | .disconnected _ settled => settled
  | _ => []

/-- The calls that were sent a reply, in order. -/
def settledCalls (h : List Fact) : List ℕ := (h.flatMap Fact.settlements).map Settlement.reply

/-- How often a correlator was asked to register. -/
def registrations (h : List Fact) (side : Side) : ℕ :=
  h.countP fun
    | .registered side' _ _ => decide (side' = side)
    | _ => false

/-- **The tables hold what the ledger says**, in the current epoch, and the counters
bound every id and every call handed out so far. -/
structure Refines (h : List Fact) (t : Tables) : Prop where
  lookup : ∀ side id, ((t.table side).pending.lookup id).map (fun p => (p.reply, p.sent)) =
    outstanding h side id
  epoch : ∀ side id p, (t.table side).pending.lookup id = some p →
    p.epoch = (t.table side).epoch
  idPrefix : ∀ side, (t.table side).idPrefix = side.idPrefix
  nextId : ∀ side, (t.table side).nextId = registrations h side
  issued : ∀ side id call, .registered side id call ∈ h →
    call < t.calls ∧ ∃ n < (t.table side).nextId, id = callId side.idPrefix n

/-! ### Refinement -/

theorem refines_init : Refines [] Tables.init where
  lookup := fun _ _ => rfl
  epoch := fun _ _ _ h => by simp [Tables.init, Correlator.new] at h
  idPrefix := fun _ => rfl
  nextId := fun _ => rfl
  issued := fun _ _ _ h => by simp at h

/-- An operation that only touches the entry of one id, or drops every entry, keeps the
refinement when the new table says what the fact says. -/
theorem Refines.set {h : List Fact} {t : Tables} (hr : Refines h t) {side : Side}
    {c : Correlator ℕ} {x : Fact}
    (hlookup : ∀ id, (c.pending.lookup id).map (fun p => (p.reply, p.sent)) =
      x.update side id (outstanding h side id))
    (hother : ∀ side' id, side' ≠ side →
      x.update side' id (outstanding h side' id) = outstanding h side' id)
    (hepoch : ∀ id p, c.pending.lookup id = some p → p.epoch = c.epoch)
    (hpre : c.idPrefix = (t.table side).idPrefix)
    (hnext : c.nextId = (t.table side).nextId)
    (hreg : ∀ side' id call, x ≠ .registered side' id call) :
    Refines (h ++ [x]) (t.set side c) := by
  -- No fact but a registration counts as one.
  have hcount : ∀ side', registrations (h ++ [x]) side' = registrations h side' := by
    intro side'
    cases x with
    | registered s i k => exact absurd rfl (hreg s i k)
    | _ => simp [registrations]
  refine ⟨fun side' id => ?_, fun side' id p hp => ?_, fun side' => ?_, fun side' => ?_,
    fun side' id call hm => ?_⟩
  · -- Each part is looked at in the table of the operation and in the other one.
    rw [outstanding_snoc]
    by_cases hs : side' = side
    · subst hs; rw [Tables.table_set_self]; exact hlookup id
    · rw [Tables.table_set_of_ne hs, hr.lookup, hother side' id hs]
  · by_cases hs : side' = side
    · subst hs; rw [Tables.table_set_self] at hp ⊢; exact hepoch id p hp
    · rw [Tables.table_set_of_ne hs] at hp ⊢; exact hr.epoch side' id p hp
  · by_cases hs : side' = side
    · subst hs; rw [Tables.table_set_self, hpre, hr.idPrefix]
    · rw [Tables.table_set_of_ne hs, hr.idPrefix]
  · rw [hcount]
    by_cases hs : side' = side
    · subst hs; rw [Tables.table_set_self, hnext, hr.nextId]
    · rw [Tables.table_set_of_ne hs, hr.nextId]
  · have hm' : .registered side' id call ∈ h := by
      rcases List.mem_append.mp hm with hm | hm
      · exact hm
      · exact absurd (List.mem_singleton.mp hm).symm (hreg side' id call)
    obtain ⟨hc, n, hn, hid⟩ := hr.issued side' id call hm'
    refine ⟨hc, n, ?_, hid⟩
    by_cases hs : side' = side
    · subst hs; rw [Tables.table_set_self, hnext]; exact hn
    · rw [Tables.table_set_of_ne hs]; exact hn

/-- A registration keeps the refinement: the new id is under no entry. -/
theorem Refines.register {h : List Fact} {t : Tables} (hr : Refines h t) (side : Side) :
    Refines (h ++ [.registered side ((t.table side).register t.calls).1 t.calls])
      { t.set side ((t.table side).register t.calls).2 with calls := t.calls + 1 } := by
  refine ⟨fun side' id => ?_, fun side' id p hp => ?_, fun side' => ?_, fun side' => ?_,
    fun side' id call hm => ?_⟩
  · rw [outstanding_snoc]
    simp only [Fact.update, Correlator.register_fst, hr.idPrefix]
    by_cases hs : side' = side
    · subst hs
      rw [Tables.table_set_self, Correlator.lookup_register, hr.idPrefix]
      -- The id is the new one, or it says what it said before.
      by_cases hid : id = callId side'.idPrefix (t.table side').nextId
      · simp [hid]
      · rw [if_neg hid, hr.lookup, if_neg (by simpa using fun h => hid h.symm)]
    · rw [Tables.table_set_of_ne hs, hr.lookup, if_neg (by simp [Ne.symm hs])]
  · by_cases hs : side' = side
    · subst hs
      rw [Tables.table_set_self, Correlator.lookup_register] at hp
      rw [Tables.table_set_self, Correlator.epoch_register]
      split at hp
      · obtain rfl := Option.some.inj hp; rfl
      · exact hr.epoch side' id p hp
    · rw [Tables.table_set_of_ne hs] at hp ⊢; exact hr.epoch side' id p hp
  · by_cases hs : side' = side
    · subst hs; rw [Tables.table_set_self, Correlator.idPrefix_register, hr.idPrefix]
    · rw [Tables.table_set_of_ne hs, hr.idPrefix]
  · -- The counter goes up where the call is registered.
    have hcount : registrations (h ++ [.registered side
        ((t.table side).register t.calls).1 t.calls]) side' =
        registrations h side' + if side = side' then 1 else 0 := by
      simp [registrations]
    rw [hcount]
    by_cases hs : side' = side
    · subst hs; simp [hr.nextId]
    · rw [Tables.table_set_of_ne hs, hr.nextId, if_neg (Ne.symm hs), Nat.add_zero]
  · rcases List.mem_append.mp hm with hm | hm
    · obtain ⟨hc, n, hn, hid⟩ := hr.issued side' id call hm
      refine ⟨Nat.lt_succ_of_lt hc, n, ?_, hid⟩
      by_cases hs : side' = side
      · subst hs; rw [Tables.table_set_self, Correlator.nextId_register]; omega
      · rw [Tables.table_set_of_ne hs]; exact hn
    · -- The new call has the old counter in its id.
      simp only [List.mem_singleton, Fact.registered.injEq, Correlator.register_fst] at hm
      obtain ⟨rfl, rfl, rfl⟩ := hm
      refine ⟨Nat.lt_succ_self _, (t.table side').nextId, ?_, by rw [hr.idPrefix]⟩
      rw [Tables.table_set_self, Correlator.nextId_register]
      exact Nat.lt_succ_self _

/-- **Every operation keeps the refinement.** -/
theorem Refines.step {h : List Fact} {t t' : Tables} {i : Side × Op} {o : List Fact}
    (hr : Refines h t) (hs : t.step i = some (t', o)) : Refines (h ++ o) t' := by
  obtain ⟨side, op⟩ := i
  cases op with
  | register =>
    simp only [Tables.step, Option.some.injEq, Prod.mk.injEq] at hs
    obtain ⟨rfl, rfl⟩ := hs
    exact hr.register side
  | markSent id =>
    simp only [Tables.step, Option.some.injEq, Prod.mk.injEq] at hs
    obtain ⟨rfl, rfl⟩ := hs
    refine hr.set (fun id' => ?_) (fun side' id' hne => ?_) (fun id' p hp => ?_) (by simp)
      (by simp) (by simp)
    -- The table agrees with the facts for the id itself and for every other one.
    · rw [Correlator.lookup_markSent, ← hr.lookup]
      by_cases hid : id' = id
      · subst hid; simp [Fact.update, Function.comp_def]
      · simp [Fact.update, hid, Ne.symm hid]
    · simp [Fact.update, Ne.symm hne]
    · rw [Correlator.lookup_markSent] at hp
      split at hp
      · obtain ⟨q, hq, rfl⟩ := Option.map_eq_some_iff.mp hp
        simpa using hr.epoch side id q hq
      · simpa using hr.epoch side id' p hp
  | resolve id outcome gone =>
    simp only [Tables.step, Option.some.injEq, Prod.mk.injEq] at hs
    obtain ⟨rfl, rfl⟩ := hs
    refine hr.set (fun id' => ?_) (fun side' id' hne => ?_) (fun id' p hp => ?_)
      (by simp [Correlator.resolve_fst]) (by simp [Correlator.resolve_fst]) (by simp)
    · rw [Correlator.lookup_resolve, ← hr.lookup]
      by_cases hid : id' = id
      · subst hid; simp [Fact.update]
      · simp [Fact.update, hid, Ne.symm hid]
    · simp [Fact.update, Ne.symm hne]
    · rw [Correlator.lookup_resolve] at hp
      rw [Correlator.resolve_fst]
      split at hp
      · simp at hp
      · exact hr.epoch side id' p hp
  | cancel id =>
    simp only [Tables.step, Option.some.injEq, Prod.mk.injEq] at hs
    obtain ⟨rfl, rfl⟩ := hs
    refine hr.set (fun id' => ?_) (fun side' id' hne => ?_) (fun id' p hp => ?_) (by simp)
      (by simp) (by simp)
    · rw [Correlator.lookup_cancel, ← hr.lookup]
      by_cases hid : id' = id
      · subst hid; simp [Fact.update]
      · simp [Fact.update, hid, Ne.symm hid]
    · simp [Fact.update, Ne.symm hne]
    · rw [Correlator.lookup_cancel] at hp
      split at hp
      · simp at hp
      · exact hr.epoch side id' p hp
  | disconnect =>
    simp only [Tables.step, Option.some.injEq, Prod.mk.injEq] at hs
    obtain ⟨rfl, rfl⟩ := hs
    refine hr.set (fun id' => ?_) (fun side' id' hne => ?_) (fun id' p hp => ?_) (by simp)
      (by simp) (by simp)
    · simp [Fact.update]
    · simp [Fact.update, Ne.symm hne]
    · simp at hp

/-- **The tables refine the ledger** along every run. -/
theorem refines_run {h : List Fact} {t : Tables} (hrun : Run Tables.step Tables.init h t) :
    Refines h t :=
  hrun.invariant refines_init Refines.step

/-! ### What a run shows -/

/-- What one fact has to be, after the history `h`, for every reply to go to the call it
is for. -/
def Fact.Correct (h : List Fact) : Fact → Prop
  | .replied side id outcome resolution settled =>
    match outstanding h side id with
    | some (call, _) =>
      settled = some ⟨id, call, outcome.mapError .server⟩ ∧
        (resolution = .delivered ∨ resolution = .callerGone)
    | none => settled = none ∧ resolution = .unknown
  | .disconnected side settled =>
    (settled.map Settlement.id).Nodup ∧ ∀ x, x ∈ settled ↔
      ∃ sent, outstanding h side x.id = some (x.reply, sent) ∧
        x.outcome = .error (if sent then .abandoned x.id else .notSent)
  | _ => True

/-- **A reply goes to the call registered under its id**, and a disconnect tells every
outstanding call how far it got. -/
theorem Refines.correct {h : List Fact} {t t' : Tables} {i : Side × Op} {o : List Fact}
    (hr : Refines h t) (hs : t.step i = some (t', o)) :
    Each (fun pre x => x.Correct (h ++ pre)) o := by
  obtain ⟨side, op⟩ := i
  cases op with
  | resolve id outcome gone =>
    simp only [Tables.step, Option.some.injEq, Prod.mk.injEq] at hs
    obtain ⟨-, rfl⟩ := hs
    rw [each_singleton, List.append_nil, Fact.Correct, ← hr.lookup]
    cases hp : (t.table side).pending.lookup id with
    | none => simp [Correlator.resolve, hp]
    | some p =>
      -- The entry is of this epoch, so the reply is not stale.
      have he := hr.epoch side id p hp
      refine ⟨Correlator.resolve_settlement _ _ _ _ hp he, ?_⟩
      simp only [Correlator.resolve, hp, he, ne_eq, not_true_eq_false, if_false]
      cases gone p.reply
      · exact .inl rfl
      · exact .inr rfl
  | disconnect =>
    simp only [Tables.step, Option.some.injEq, Prod.mk.injEq] at hs
    obtain ⟨-, rfl⟩ := hs
    rw [each_singleton, List.append_nil]
    refine ⟨Correlator.nodup_disconnect _, fun x => ?_⟩
    rw [Correlator.mem_disconnect, ← hr.lookup]
    -- What is shown are the entries, each with how far it got.
    constructor
    · rintro ⟨p, hp, hx⟩
      refine ⟨p.sent, ?_, ?_⟩
      · rw [hp, hx]; rfl
      · rw [hx]; rfl
    · obtain ⟨xid, xreply, xoutcome⟩ := x
      dsimp only
      rintro ⟨sent, ho, rfl⟩
      obtain ⟨p, hp, heq⟩ := Option.map_eq_some_iff.mp ho
      obtain ⟨rfl, rfl⟩ := Prod.mk.inj heq
      exact ⟨p, hp, rfl⟩
  | register | markSent | cancel =>
    simp only [Tables.step, Option.some.injEq, Prod.mk.injEq] at hs
    obtain ⟨-, rfl⟩ := hs
    rw [each_singleton]
    trivial

/-- A registration never returns an id or a call seen before. -/
def Fact.Fresh (h : List Fact) : Fact → Prop
  | .registered _ id call =>
    id ∉ registeredIds h ∧ ∀ side' id', .registered side' id' call ∉ h
  | _ => True

theorem mem_registeredIds {h : List Fact} {id : String} :
    id ∈ registeredIds h ↔ ∃ side call, .registered side id call ∈ h := by
  simp only [registeredIds, List.mem_filterMap]
  constructor
  · rintro ⟨x, hx, hid⟩
    cases x with
    | registered side id' call =>
      obtain rfl := Option.some.inj hid
      exact ⟨side, call, hx⟩
    | _ => simp at hid
  · rintro ⟨side, call, hx⟩
    exact ⟨_, hx, rfl⟩

theorem Refines.fresh {h : List Fact} {t t' : Tables} {i : Side × Op} {o : List Fact}
    (hr : Refines h t) (hs : t.step i = some (t', o)) :
    Each (fun pre x => x.Fresh (h ++ pre)) o := by
  obtain ⟨side, op⟩ := i
  cases op with
  | register =>
    simp only [Tables.step, Option.some.injEq, Prod.mk.injEq] at hs
    obtain ⟨-, rfl⟩ := hs
    rw [each_singleton, List.append_nil]
    refine ⟨fun hm => ?_, fun side' id' hm => ?_⟩
    · obtain ⟨side', call, hm⟩ := mem_registeredIds.mp hm
      obtain ⟨-, n, hn, hid⟩ := hr.issued _ _ _ hm
      rw [Correlator.register_fst, hr.idPrefix] at hid
      obtain ⟨rfl, hnn⟩ := callId_side_injective hid
      exact absurd hnn (Nat.ne_of_gt hn)
    · exact Nat.lt_irrefl _ (hr.issued _ _ _ hm).1
  | resolve | disconnect | markSent | cancel =>
    simp only [Tables.step, Option.some.injEq, Prod.mk.injEq] at hs
    obtain ⟨-, rfl⟩ := hs
    rw [each_singleton]
    trivial

/-- Along every run, registrations are fresh and replies go where the ledger says. -/
theorem ledger_run {h : List Fact} {t : Tables} (hrun : Run Tables.step Tables.init h t) :
    Each Fact.Fresh h ∧ Each Fact.Correct h := by
  refine hrun.invariant_of (I := fun h _ => Each Fact.Fresh h ∧ Each Fact.Correct h)
    refines_run ⟨each_nil, each_nil⟩ ?_
  intro h t i t' o hr hI hs
  exact ⟨each_append.mpr ⟨hI.1, hr.fresh hs⟩, each_append.mpr ⟨hI.2, hr.correct hs⟩⟩

/-! ### The ledger on its own -/

/-- A call is outstanding after one more fact only if it was before, or if the fact
registers it. -/
theorem outstanding_snoc_some {h : List Fact} {x : Fact} {side : Side} {id : String}
    {call : ℕ} {sent : Bool} (hx : outstanding (h ++ [x]) side id = some (call, sent)) :
    (∃ sent', outstanding h side id = some (call, sent')) ∨ x = .registered side id call := by
  rw [outstanding_snoc] at hx
  cases x with
  | registered side' id' call' =>
    simp only [Fact.update] at hx
    split at hx
    · -- The new call itself, or one that was outstanding before.
      next he =>
      obtain ⟨rfl, rfl⟩ := he
      obtain ⟨rfl, -⟩ := Prod.mk.inj (Option.some.inj hx)
      exact .inr rfl
    · exact .inl ⟨sent, hx⟩
  | marked side' id' =>
    simp only [Fact.update] at hx
    -- A mark changes only how far the call got.
    split at hx
    · obtain ⟨⟨call', sent'⟩, hc, heq⟩ := Option.map_eq_some_iff.mp hx
      obtain ⟨rfl, -⟩ := Prod.mk.inj heq
      exact .inl ⟨sent', hc⟩
    · exact .inl ⟨sent, hx⟩
  | replied | cancelled | disconnected =>
    simp only [Fact.update] at hx
    split at hx
    · simp at hx
    · exact .inl ⟨sent, hx⟩

theorem registered_of_outstanding {h : List Fact} {side : Side} {id : String} {call : ℕ}
    {sent : Bool} (ho : outstanding h side id = some (call, sent)) :
    .registered side id call ∈ h := by
  induction h using List.reverseRecOn generalizing sent with
  | nil => simp at ho
  | append_singleton h x ih =>
    rcases outstanding_snoc_some ho with ⟨sent', ho⟩ | rfl
    · exact List.mem_append_left _ (ih ho)
    · simp

/-- A call that is sent a reply was outstanding and is no longer. -/
theorem Fact.Correct.settlement {h : List Fact} {x : Fact} (hx : x.Correct h)
    {y : Settlement ℕ} (hy : y ∈ x.settlements) : ∃ side sent,
      outstanding h side y.id = some (y.reply, sent) ∧
        outstanding (h ++ [x]) side y.id = none := by
  cases x with
  | replied side id outcome resolution settled =>
    simp only [Fact.Correct] at hx
    cases ho : outstanding h side id with
    | none => simp [ho] at hx; simp [Fact.settlements, hx.1] at hy
    | some p =>
      rw [ho] at hx
      simp only [Fact.settlements, hx.1, Option.toList_some, List.mem_singleton] at hy
      obtain rfl := hy
      exact ⟨side, p.2, ho, by simp [Fact.update]⟩
  | disconnected side settled =>
    obtain ⟨sent, ho, -⟩ := (hx.2 y).mp hy
    exact ⟨side, sent, ho, by simp [Fact.update]⟩
  | registered | marked | cancelled => simp [Fact.settlements] at hy

theorem settledCalls_snoc (h : List Fact) (x : Fact) :
    settledCalls (h ++ [x]) = settledCalls h ++ x.settlements.map Settlement.reply := by
  simp [settledCalls]

/-- No two registrations share a call. -/
theorem registered_unique {h : List Fact} (hf : Each Fact.Fresh h) {side side' : Side}
    {id id' : String} {call : ℕ} (hx : .registered side id call ∈ h)
    (hx' : .registered side' id' call ∈ h) : side = side' ∧ id = id' := by
  induction h using List.reverseRecOn with
  | nil => simp at hx
  | append_singleton h x ih =>
    obtain ⟨hf, hfx⟩ := each_snoc.mp hf
    rcases List.mem_append.mp hx with hm | hm <;> rcases List.mem_append.mp hx' with hm' | hm'
    · exact ih hf hm hm'
    · obtain rfl := List.mem_singleton.mp hm'
      exact absurd hm (hfx.2 side id)
    · obtain rfl := List.mem_singleton.mp hm
      exact absurd hm' (hfx.2 side' id')
    · have heq := (List.mem_singleton.mp hm).trans (List.mem_singleton.mp hm').symm
      simp only [Fact.registered.injEq] at heq
      exact ⟨heq.1, heq.2.1⟩

/-- A call that was sent a reply was registered, and is not outstanding any more. -/
theorem settled_not_outstanding {h : List Fact} (hf : Each Fact.Fresh h)
    (hc : Each Fact.Correct h) {call : ℕ} (hcall : call ∈ settledCalls h) :
    (∃ side id, .registered side id call ∈ h) ∧
      ∀ side id sent, outstanding h side id ≠ some (call, sent) := by
  induction h using List.reverseRecOn with
  | nil => simp [settledCalls] at hcall
  | append_singleton h x ih =>
    obtain ⟨hf', hfx⟩ := each_snoc.mp hf
    obtain ⟨hc', hcx⟩ := each_snoc.mp hc
    rw [settledCalls_snoc, List.mem_append] at hcall
    rcases hcall with hcall | hcall
    · obtain ⟨⟨side, id, hreg⟩, hne⟩ := ih hf' hc' hcall
      refine ⟨⟨side, id, List.mem_append_left _ hreg⟩, fun side' id' sent ho => ?_⟩
      rcases outstanding_snoc_some ho with ⟨sent', ho⟩ | rfl
      · exact hne _ _ _ ho
      · exact hfx.2 _ _ hreg
    · obtain ⟨y, hy, rfl⟩ := List.mem_map.mp hcall
      obtain ⟨side, sent, ho, hnone⟩ := hcx.settlement hy
      have hreg := List.mem_append_left [x] (registered_of_outstanding ho)
      refine ⟨⟨side, y.id, hreg⟩, fun side' id' sent' ho' => ?_⟩
      obtain ⟨rfl, rfl⟩ := registered_unique hf hreg (registered_of_outstanding ho')
      rw [hnone] at ho'
      simp at ho'

/-- The calls one fact settles are distinct. -/
theorem Fact.Correct.nodup {h : List Fact} {x : Fact} (hf : Each Fact.Fresh h)
    (hx : x.Correct h) : (x.settlements.map Settlement.reply).Nodup := by
  cases x with
  | replied side id outcome resolution settled => cases settled <;> simp [Fact.settlements]
  | disconnected side settled =>
    refine (List.Nodup.of_map _ hx.1).map_on ?_
    intro y hy z hz hyz
    obtain ⟨sent, ho, hyo⟩ := (hx.2 y).mp hy
    obtain ⟨sent', ho', hzo⟩ := (hx.2 z).mp hz
    have hreg := registered_of_outstanding ho
    rw [hyz] at hreg
    obtain ⟨-, hid⟩ := registered_unique hf hreg (registered_of_outstanding ho')
    exact List.inj_on_of_nodup_map hx.1 hy hz hid
  | registered | marked | cancelled => simp [Fact.settlements]

theorem settledCalls_nodup {h : List Fact} (hf : Each Fact.Fresh h)
    (hc : Each Fact.Correct h) : (settledCalls h).Nodup := by
  induction h using List.reverseRecOn with
  | nil => simp [settledCalls]
  | append_singleton h x ih =>
    obtain ⟨hf', -⟩ := each_snoc.mp hf
    obtain ⟨hc', hcx⟩ := each_snoc.mp hc
    rw [settledCalls_snoc]
    refine (ih hf' hc').append (hcx.nodup hf') fun call hcall hx => ?_
    obtain ⟨y, hy, rfl⟩ := List.mem_map.mp hx
    obtain ⟨side, sent, ho, -⟩ := hcx.settlement hy
    exact (settled_not_outstanding hf' hc' hcall).2 _ _ _ ho

theorem registeredIds_nodup {h : List Fact} (hf : Each Fact.Fresh h) :
    (registeredIds h).Nodup := by
  induction h using List.reverseRecOn with
  | nil => exact List.nodup_nil
  | append_singleton h x ih =>
    obtain ⟨hf', hfx⟩ := each_snoc.mp hf
    have hsnoc : registeredIds (h ++ [x]) = registeredIds h ++ registeredIds [x] :=
      List.filterMap_append
    cases x with
    | registered side id call =>
      rw [hsnoc]
      refine (ih hf').append (List.nodup_singleton id) ?_
      exact List.disjoint_singleton.mpr hfx.1
    | _ => simpa [hsnoc, registeredIds] using ih hf'

/-- Once an id was answered it stays unknown: it is never registered again. -/
theorem outstanding_answered {h : List Fact} (hf : Each Fact.Fresh h)
    (hc : Each Fact.Correct h) {side : Side} {id : String} {outcome : Except DdpError Value}
    {resolution : Resolution} {y : Settlement ℕ}
    (hx : .replied side id outcome resolution (some y) ∈ h) :
    id ∈ registeredIds h ∧ outstanding h side id = none := by
  induction h using List.reverseRecOn with
  | nil => simp at hx
  | append_singleton h x ih =>
    obtain ⟨hf', hfx⟩ := each_snoc.mp hf
    obtain ⟨hc', hcx⟩ := each_snoc.mp hc
    -- The id was answered before, or it is answered now.
    rcases List.mem_append.mp hx with hx | hx
    · obtain ⟨hid, hnone⟩ := ih hf' hc' hx
      obtain ⟨side', call, hreg⟩ := mem_registeredIds.mp hid
      refine ⟨mem_registeredIds.mpr ⟨side', call, List.mem_append_left _ hreg⟩, ?_⟩
      cases ho : outstanding (h ++ [x]) side id with
      | none => rfl
      | some p =>
        rcases outstanding_snoc_some ho with ⟨sent, ho⟩ | rfl
        · rw [hnone] at ho; simp at ho
        · -- It would have to be registered again, and a new id is fresh.
          exact absurd hid hfx.1
    · obtain rfl := List.mem_singleton.mp hx
      simp only [Fact.Correct] at hcx
      cases ho : outstanding h side id with
      | none => simp [ho] at hcx
      | some p =>
        have hreg := List.mem_append_left [Fact.replied side id outcome resolution (some y)]
          (registered_of_outstanding ho)
        exact ⟨mem_registeredIds.mpr ⟨side, p.1, hreg⟩, by simp [Fact.update]⟩

/-! ### The correlator over whole runs -/

/-- **The correlators over any run of their operations.**  Ids are distinct across the
run and across the two tables, and the counter counts registrations; every entry is of
the current epoch, so no reply is stale; no call is sent two replies; a reply settles
the call outstanding under its id and nothing else, and once answered an id is unknown;
a disconnect empties its table, telling every outstanding call once how far it got. -/
theorem correlator_run {h : List Fact} {t : Tables}
    (hrun : Run Tables.step Tables.init h t) :
    (registeredIds h).Nodup ∧
    (∀ side, (t.table side).nextId = registrations h side) ∧
    (∀ side id p, (t.table side).pending.lookup id = some p →
      p.epoch = (t.table side).epoch) ∧
    (∀ side id outcome settled, .replied side id outcome .staleEpoch settled ∉ h) ∧
    (settledCalls h).Nodup ∧
    Each Fact.Correct h ∧
    Each (fun pre x => ∀ side id outcome resolution settled,
      x = .replied side id outcome resolution settled →
        (∃ outcome' resolution' y, .replied side id outcome' resolution' (some y) ∈ pre) →
          resolution = .unknown ∧ settled = none) h ∧
    (∀ pre side settled, h = pre ++ [.disconnected side settled] →
      ∀ id, (t.table side).pending.lookup id = none) := by
  have hr := refines_run hrun
  obtain ⟨hf, hc⟩ := ledger_run hrun
  refine ⟨registeredIds_nodup hf, hr.nextId, hr.epoch, ?_, settledCalls_nodup hf hc, hc, ?_, ?_⟩
  · -- A stale reply would settle an entry of another epoch.
    intro side id outcome settled hm
    obtain ⟨pre, post, hp⟩ := List.append_of_mem hm
    have hx := hc _ _ _ hp
    simp only [Fact.Correct] at hx
    cases ho : outstanding pre side id with
    | none => simp [ho] at hx
    | some p => simp [ho] at hx
  · -- Once answered, an id is outstanding no more.
    rintro pre x post hp side id outcome resolution settled rfl ⟨outcome', resolution', y, hy⟩
    have hpre : Each Fact.Fresh pre ∧ Each Fact.Correct pre := by
      rw [hp] at hf hc
      exact ⟨hf.of_append, hc.of_append⟩
    have hx := hc _ _ _ hp
    simp only [Fact.Correct, (outstanding_answered hpre.1 hpre.2 hy).2] at hx
    exact ⟨hx.2, hx.1⟩
  · rintro pre side settled rfl id
    have hl := hr.lookup side id
    rw [outstanding_snoc] at hl
    simpa [Fact.update] using hl

/-- A call that is sent, one that is not, and a disconnect. -/
def sentAndUnsent : List (Side × Op) :=
  [(.methods, .register), (.subs, .register), (.methods, .markSent "m0"),
    (.methods, .disconnect), (.subs, .disconnect)]

theorem sentAndUnsent_enabled : (execute Tables.step Tables.init sentAndUnsent).isSome := by
  decide +kernel

/-- In that run both calls are told how far they got, once. -/
theorem correlator_run_sentAndUnsent : ∃ (h : List Fact) (t : Tables),
    Run Tables.step Tables.init h t ∧ registeredIds h = ["m0", "s0"] ∧
      settledCalls h = [0, 1] ∧ (settledCalls h).Nodup ∧ Each Fact.Correct h := by
  obtain ⟨-, -, -, -, hnodup, hcorrect, -⟩ :=
    correlator_run (run_execute sentAndUnsent sentAndUnsent_enabled)
  exact ⟨_, _, run_execute sentAndUnsent sentAndUnsent_enabled, by decide +kernel,
    by decide +kernel, hnodup, hcorrect⟩

end RocketSocket
