import RocketSocket.Lib.History
import RocketSocket.Framework.Roles

/-!
# Runs of the role directory

What each step does, and the invariant every run keeps: a slot serves one lookup, whatever
stands in a slot came from a fetch of that lookup, and every answer comes from a slot.

## Main definitions

* `Moves` — the steps, case by case.
* `Known` — an entry is the outcome of a fetch that the run shows.
* `Sound` — the invariant.
* `Justified` — what an answer of a lookup, and the answer of a call, rest on.

## Main results

* `moves_of_step` — the inversion of a step.
* `sound_of_run`, `justified_of_run` — every run is sound, and its answers are justified.
-/

namespace RocketSocket

open Machine

/-- The slot a call has, whether it waits for it or holds it. -/
def CheckPhase.slot : CheckPhase → Option ℕ
  | .queued slot => some slot
  | .fetching slot _ _ => some slot
  | _ => none

namespace RoleDirectory

/-! ### The steps -/

/-- The steps, case by case. -/
inductive Moves (d : RoleDirectory) : RoleInput → RoleDirectory → List RoleNote → Prop
  | ask (question : Question) : Moves d (.ask question) (d.ask question).1 (d.ask question).2
  | obtain {n i : ℕ} {check : Check} {lookup : Lookup} {rest : List Lookup}
      {reading : Instant} {evicted : List RoomId} {d' : RoleDirectory}
      (hcheck : d.checks[n]? = some check) (hlookups : check.lookups = lookup :: rest)
      (hphase : check.phase = .starting)
      (hslot : d.slotFor reading evicted lookup = some (i, d')) :
      Moves d (.obtain n reading evicted) (d'.setCheck n { check with phase := .queued i })
        [.obtained n lookup i]
  | cached {n i : ℕ} {check : Check} {lookup : Lookup} {rest : List Lookup} {slot : Slot}
      {entry : RoleEntry} (hcheck : d.checks[n]? = some check)
      (hlookups : check.lookups = lookup :: rest) (hphase : check.phase = .queued i)
      (hslot : d.slots[i]? = some slot) (hentry : slot.entry = some entry)
      (hfresh : entry.isFresh d.config d.now = true) :
      Moves d (.lock n) (d.conclude n check lookup rest entry).1
        (d.conclude n check lookup rest entry).2
  | start {n i : ℕ} {check : Check} {lookup : Lookup} {rest : List Lookup} {slot : Slot}
      (hcheck : d.checks[n]? = some check) (hlookups : check.lookups = lookup :: rest)
      (hphase : check.phase = .queued i) (hslot : d.slots[i]? = some slot)
      (hlocked : slot.locked = false) :
      Moves d (.lock n)
        { d.setSlot i { slot with locked := true } with
          checks := d.checks.set n { check with phase := .fetching i d.now d.fetches }
          fetches := d.fetches + 1 }
        [.started d.fetches n lookup d.now]
  | answer {n i f : ℕ} {check : Check} {lookup : Lookup} {rest : List Lookup} {slot : Slot}
      {started : Instant} {answer : Except String (List RoleHolder)}
      (hcheck : d.checks[n]? = some check) (hlookups : check.lookups = lookup :: rest)
      (hphase : check.phase = .fetching i started f) (hslot : d.slots[i]? = some slot) :
      Moves d (.answer n answer) (d.receive n check lookup rest i slot started f answer).1
        (d.receive n check lookup rest i slot started f answer).2
  | expire {n i f : ℕ} {check : Check} {lookup : Lookup} {rest : List Lookup} {slot : Slot}
      {started : Instant} (hcheck : d.checks[n]? = some check)
      (hlookups : check.lookups = lookup :: rest) (hphase : check.phase = .fetching i started f)
      (hslot : d.slots[i]? = some slot) :
      Moves d (.expire n) (d.giveUp n check lookup rest i slot started f).1
        (d.giveUp n check lookup rest i slot started f).2
  | cancel {n : ℕ} {check : Check} (hcheck : d.checks[n]? = some check) :
      Moves d (.cancel n) (d.abandon n check) []
  | invalidate (call : Invalidation) :
      Moves d (.invalidate call) { d with invalidations := d.invalidations ++ [call.drops] } []
  | drop {k : ℕ} {drop : Drop} {drops : List Drop}
      (hdrops : d.invalidations[k]? = some (drop :: drops)) :
      Moves d (.drop k)
        { d.performDrop drop with invalidations := d.invalidations.set k drops }
        [.dropped k drop]
  | tick {δ : Duration} (hin : ∀ check ∈ d.checks, ∀ deadline ∈ check.deadline d.config,
        d.now + δ ≤ deadline) :
      Moves d (.tick δ) { d with now := d.now + δ } []

variable {d d' : RoleDirectory} {n k i f : ℕ} {check : Check} {lookup : Lookup}
  {rest : List Lookup} {slot : Slot} {entry : RoleEntry} {started : Instant}

theorem checkAt_eq_some :
    d.checkAt n = some (check, lookup, rest) ↔
      d.checks[n]? = some check ∧ check.lookups = lookup :: rest := by
  unfold checkAt
  constructor
  · intro h
    obtain ⟨c, hc, h⟩ := Option.bind_eq_some_iff.mp h
    split at h
    · next l r hl =>
      simp only [Option.some.injEq, Prod.mk.injEq] at h
      obtain ⟨rfl, rfl, rfl⟩ := h
      exact ⟨hc, hl⟩
    · cases h
  · rintro ⟨hc, hl⟩
    rw [hc, Option.bind_some, hl]

theorem waitsFor_eq_some {p : CheckPhase} : p.waitsFor = some i ↔ p = .queued i := by
  cases p <;> simp [CheckPhase.waitsFor]

theorem inFlight_eq_some {p : CheckPhase} :
    p.inFlight = some (i, started, f) ↔ p = .fetching i started f := by
  cases p <;> simp [CheckPhase.inFlight]

/-- **The inversion of a step.** -/
theorem moves_of_step {input : RoleInput} {notes : List RoleNote}
    (h : d.step input = some (d', notes)) : Moves d input d' notes := by
  cases input with
  | ask question =>
    simp only [step, Option.some.injEq, Prod.ext_iff] at h
    obtain ⟨rfl, rfl⟩ := h
    exact .ask question
  | obtain n reading evicted =>
    simp only [step, Option.bind_eq_bind, Option.bind_eq_some_iff, Option.guard_eq_some',
      Option.pure_def, Option.some.injEq, Prod.exists, Prod.mk.injEq, checkAt_eq_some] at h
    obtain ⟨check, lookup, rest, ⟨hcheck, hlookups⟩, _, ⟨hphase, -⟩, i, d₁, hslot, rfl, rfl⟩ := h
    exact .obtain hcheck hlookups hphase hslot
  | lock n =>
    simp only [step, Option.bind_eq_bind, Option.bind_eq_some_iff, Option.guard_eq_some',
      Option.pure_def, Option.some.injEq, Prod.exists, checkAt_eq_some, waitsFor_eq_some] at h
    obtain ⟨check, lookup, rest, ⟨hcheck, hlookups⟩, i, hphase, slot, hslot, _, hlocked, h⟩ := h
    -- Behind the mutex there is a fresh answer, or the fetch is started.
    unfold enter at h
    split at h
    · next entry hfresh =>
      obtain ⟨hentry, hfresh⟩ := Option.filter_eq_some_iff.mp hfresh
      obtain ⟨rfl, rfl⟩ := Prod.ext_iff.mp h
      exact .cached hcheck hlookups hphase hslot hentry hfresh
    · obtain ⟨rfl, rfl⟩ := Prod.ext_iff.mp h
      exact .start hcheck hlookups hphase hslot hlocked
  | answer n answer =>
    simp only [step, Option.bind_eq_bind, Option.bind_eq_some_iff, Option.pure_def,
      Option.some.injEq, Prod.exists, checkAt_eq_some, inFlight_eq_some] at h
    obtain ⟨check, lookup, rest, ⟨hcheck, hlookups⟩, i, started, f, hphase, slot, hslot, h⟩ := h
    obtain ⟨rfl, rfl⟩ := Prod.ext_iff.mp h
    exact .answer hcheck hlookups hphase hslot
  | expire n =>
    simp only [step, Option.bind_eq_bind, Option.bind_eq_some_iff, Option.guard_eq_some',
      Option.pure_def, Option.some.injEq, Prod.exists, checkAt_eq_some, inFlight_eq_some] at h
    obtain ⟨check, lookup, rest, ⟨hcheck, hlookups⟩, i, started, f, hphase, slot, hslot, _, -, h⟩ :=
      h
    obtain ⟨rfl, rfl⟩ := Prod.ext_iff.mp h
    exact .expire hcheck hlookups hphase hslot
  | cancel n =>
    simp only [step, Option.bind_eq_bind, Option.bind_eq_some_iff, Option.guard_eq_some',
      Option.pure_def, Option.some.injEq, Prod.mk.injEq] at h
    obtain ⟨check, hcheck, _, -, rfl, rfl⟩ := h
    exact .cancel hcheck
  | invalidate call =>
    simp only [step, Option.some.injEq, Prod.mk.injEq] at h
    obtain ⟨rfl, rfl⟩ := h
    exact .invalidate call
  | drop k =>
    simp only [step, Option.bind_eq_bind, Option.bind_eq_some_iff, Option.pure_def,
      Option.some.injEq, Prod.mk.injEq] at h
    obtain ⟨drops, hdrops, drop, hhead, rfl, rfl⟩ := h
    -- The guard that is dropped is the first of those left.
    cases drops with
    | nil => cases hhead
    | cons first drops =>
      obtain rfl := Option.some.inj hhead
      exact .drop hdrops
  | tick δ =>
    simp only [step] at h
    split at h
    · next hin =>
      simp only [Option.some.injEq, Prod.mk.injEq] at h
      obtain ⟨rfl, rfl⟩ := h
      exact .tick hin
    · cases h

/-! ### The slot of a lookup -/

/-- The slot a lookup would obtain now, if it would not make a new one. -/
def currentSlot (d : RoleDirectory) : Lookup → Option ℕ
  | .global => some d.global
  | .room id => (d.rooms.lookup id).map (·.slot)

/-- Evicting leaves every other room as it is. -/
theorem lookup_evict {maxRooms : ℕ} {rooms rooms' : Table RoomId RoomSlot} {evicted : List RoomId}
    (h : evict maxRooms rooms evicted = some rooms') (id : RoomId) :
    rooms'.lookup id = rooms.lookup id ∨ rooms'.lookup id = none := by
  induction evicted generalizing rooms with
  | nil =>
    unfold evict at h
    split at h
    · cases h
    · exact .inl (by rw [Option.some.inj h])
  | cons coldest evicted ih =>
    unfold evict at h
    split at h
    · rcases ih h with hsame | hnone
      · rw [Finmap.lookup_erase_eq] at hsame
        split at hsame
        · exact .inr hsame
        · exact .inl hsame
      · exact .inr hnone
    · cases h

/-- What obtaining a slot does: the slot is the current one, or a new one that becomes it, and
no other lookup gets another slot. -/
structure Obtains (d : RoleDirectory) (lookup : Lookup) (i : ℕ) (d' : RoleDirectory) : Prop where
  frame : d' = { d with slots := d'.slots, rooms := d'.rooms }
  slots : d'.slots = d.slots ∧ d.currentSlot lookup = some i ∨
    d'.slots = d.slots ++ [{ lookup := lookup }] ∧ i = d.slots.length
  current : d'.currentSlot lookup = some i
  others : ∀ other, other ≠ lookup →
    d'.currentSlot other = d.currentSlot other ∨ d'.currentSlot other = none

theorem obtains_slotFor {reading : Instant} {evicted : List RoomId}
    (h : d.slotFor reading evicted lookup = some (i, d')) : d.Obtains lookup i d' := by
  cases lookup with
  | global =>
    -- The global slot is there from the start; obtaining it changes nothing.
    simp only [slotFor, Option.ite_none_right_eq_some, Option.some.injEq, Prod.mk.injEq] at h
    obtain ⟨-, rfl, rfl⟩ := h
    exact ⟨rfl, .inl ⟨rfl, rfl⟩, rfl, fun _ _ => .inl rfl⟩
  | room id =>
    -- The write at the room leaves the other rooms.
    have hother : ∀ (rooms : Table RoomId RoomSlot) (new : RoomSlot) (other : RoomId),
        Lookup.room other ≠ .room id → (rooms.insert id new).lookup other = rooms.lookup other :=
      fun rooms new other hne => Finmap.lookup_insert_of_ne _ fun heq => hne (by rw [heq])
    change d.roomSlot id reading evicted = some (i, d') at h
    unfold roomSlot at h
    split at h
    · next existing hexisting =>
      split at h
      · -- The room has a slot, which is touched.
        simp only [Option.some.injEq, Prod.mk.injEq] at h
        obtain ⟨rfl, rfl⟩ := h
        refine ⟨rfl, .inl ⟨rfl, by simp [currentSlot, hexisting]⟩, by simp [currentSlot], ?_⟩
        intro other hne
        cases other with
        | global => exact .inl rfl
        | room other => exact .inl (by simp only [currentSlot, hother _ _ _ hne])
      · cases h
    · obtain ⟨rooms, hevict, h⟩ := Option.map_eq_some_iff.mp h
      -- The room has none: some are put out, and a new slot is appended.
      simp only [allocate, Prod.mk.injEq] at h
      obtain ⟨rfl, rfl⟩ := h
      refine ⟨rfl, .inr ⟨rfl, rfl⟩, by simp [currentSlot], ?_⟩
      intro other hne
      cases other with
      | global => exact .inl rfl
      | room other =>
        simp only [currentSlot, hother _ _ _ hne]
        rcases lookup_evict hevict other with hsame | hnone
        · exact .inl (by rw [hsame])
        · exact .inr (by rw [hnone]; rfl)

end RoleDirectory

/-- The lookups whose slot a step of an invalidating call replaces. -/
def Drop.Covers : Drop → Lookup → Prop
  | .global, lookup => lookup = .global
  | .room id, lookup => lookup = .room id
  | .rooms, lookup => lookup ≠ .global

namespace RoleDirectory

variable {d d' : RoleDirectory} {n k i f : ℕ} {check : Check} {lookup : Lookup}
  {rest : List Lookup} {slot : Slot} {entry : RoleEntry} {started : Instant} {drop : Drop}

/-- What a step of an invalidating call does: a lookup it covers has a new slot or none, and
no other lookup gets another slot. -/
structure Drops (d : RoleDirectory) (drop : Drop) (d' : RoleDirectory) : Prop where
  frame : d' = { d with slots := d'.slots, rooms := d'.rooms, global := d'.global }
  slots : d'.slots = d.slots ∨ d'.slots = d.slots ++ [{ lookup := .global }]
  covered : ∀ lookup i, drop.Covers lookup → d'.currentSlot lookup = some i →
    i = d.slots.length ∧ d'.slots[i]? = some { lookup := lookup }
  others : ∀ lookup, ¬drop.Covers lookup → d'.currentSlot lookup = d.currentSlot lookup

theorem drops_performDrop (d : RoleDirectory) (drop : Drop) :
    d.Drops drop (d.performDrop drop) := by
  cases drop with
  | global =>
    -- The global slot is replaced by an empty one, appended at the end.
    refine ⟨rfl, .inr rfl, ?_, ?_⟩
    · rintro lookup i rfl hi
      obtain rfl : d.slots.length = i := Option.some.inj hi
      exact ⟨rfl, List.getElem?_concat_length ..⟩
    · intro lookup hlookup
      cases lookup with
      | global => exact absurd rfl hlookup
      | room id => rfl
  | room id =>
    -- The room goes out of the map.
    refine ⟨rfl, .inl rfl, ?_, ?_⟩
    · rintro lookup i rfl hi
      simp [currentSlot, performDrop, Finmap.lookup_erase] at hi
    · intro lookup hlookup
      cases lookup with
      | global => rfl
      | room other =>
        have hne : other ≠ id := fun heq => hlookup (by rw [heq]; rfl)
        simp only [currentSlot, performDrop, Finmap.lookup_erase_ne hne]
  | rooms =>
    -- All rooms go out of the map, and only the global slot stays.
    refine ⟨rfl, .inl rfl, ?_, ?_⟩
    · intro lookup i hlookup hi
      cases lookup with
      | global => exact absurd rfl hlookup
      | room id => simp [currentSlot, performDrop] at hi
    · intro lookup hlookup
      cases lookup with
      | global => rfl
      | room id => exact absurd (fun heq => by cases heq) hlookup

/-! ### New calls -/

/-- A new call is at no slot, and nothing but the list of calls changes. -/
theorem ask_eq (d : RoleDirectory) (question : Question) : ∃ new : Check,
    new.lookups <:+ new.question.lookups ∧ new.phase.slot = none ∧
      (d.ask question).1 = { d with checks := d.checks ++ [new] } := by
  unfold ask
  simp only
  split
  · exact ⟨_, List.suffix_refl _, rfl, rfl⟩
  · exact ⟨_, List.suffix_refl _, rfl, rfl⟩

/-- What a run shows of a new call: that it was made, and its answer if that is free. -/
theorem ask_notes (d : RoleDirectory) (question : Question) :
    (d.ask question).2 = [.asked d.checks.length question] ∨ question.isFree = true ∧
      (d.ask question).2 = [.asked d.checks.length question,
        .returned d.checks.length question true d.now] := by
  unfold ask
  simp only
  split
  · next hfree => exact .inr ⟨hfree, rfl⟩
  · exact .inl rfl

/-! ### Ends of a lookup -/

/-- Where a call stands once a lookup of it is over: it is not at a slot. -/
theorem conclude_eq (d : RoleDirectory) (n : ℕ) (check : Check) (lookup : Lookup)
    (rest : List Lookup) (entry : RoleEntry) : ∃ phase : CheckPhase, phase.slot = none ∧
    (d.conclude n check lookup rest entry).1 =
      d.setCheck n { check with lookups := rest, phase := phase } := by
  unfold conclude
  simp only
  split
  · exact ⟨_, rfl, rfl⟩
  · exact ⟨_, rfl, rfl⟩

/-- What a run shows of the end of a lookup: its answer, and the answer of the call if this
one settles it. -/
theorem conclude_notes (d : RoleDirectory) (n : ℕ) (check : Check) (lookup : Lookup)
    (rest : List Lookup) (entry : RoleEntry) :
    (d.conclude n check lookup rest entry).2 = [.answered n lookup entry d.now] ∨
      (d.conclude n check lookup rest entry).2 = [.answered n lookup entry d.now,
        .returned n check.question (entry.grants check.question.user) d.now] := by
  unfold conclude
  simp only
  split
  · exact .inr rfl
  · exact .inl rfl

/-! ### The invariant -/

/-- The run shows the fetch the entry is the outcome of, and the answer it got if the entry
lists any holders. -/
def Known (h : List RoleNote) (lookup : Lookup) (entry : RoleEntry) : Prop :=
  (∃ n, .started entry.fetch n lookup entry.fetchedAt ∈ h) ∧
    ∀ users, entry.holders = some users → ∃ holders,
      .fetched entry.fetch lookup entry.fetchedAt holders ∈ h ∧
        fetch lookup (.ok holders) = .ok users

variable {h h' notes : List RoleNote}

theorem Known.mono (hknown : Known h lookup entry) (hsub : h ⊆ h') : Known h' lookup entry := by
  obtain ⟨⟨n, hstarted⟩, hholders⟩ := hknown
  refine ⟨⟨n, hsub hstarted⟩, fun users husers => ?_⟩
  obtain ⟨holders, hfetched, heq⟩ := hholders users husers
  exact ⟨holders, hsub hfetched, heq⟩

/-- Call number `n` stands where it should: it is at a slot of its current lookup, and the
fetch it waits for was started and is not overdue. -/
structure Stands (h : List RoleNote) (d : RoleDirectory) (n : ℕ) (check : Check) : Prop where
  suffix : check.lookups <:+ check.question.lookups
  atSlot : ∀ i, check.phase.slot = some i →
    ∃ slot : Slot, d.slots[i]? = some slot ∧ check.lookups.head? = some slot.lookup
  flight : ∀ i t f lookup, check.phase = .fetching i t f → check.lookups.head? = some lookup →
    .started f n lookup t ∈ h ∧ d.now ≤ t + d.config.timeout

/-- The slots of `d` are in `d'`, for the same lookups. -/
def Grows (d d' : RoleDirectory) : Prop :=
  ∀ (i : ℕ) (slot : Slot), d.slots[i]? = some slot →
    ∃ slot' : Slot, d'.slots[i]? = some slot' ∧ slot'.lookup = slot.lookup

theorem Grows.of_eq (hslots : d'.slots = d.slots) : d.Grows d' := by
  intro i slot hslot
  exact ⟨slot, by rw [hslots, hslot], rfl⟩

theorem Grows.of_append {new : Slot} (hslots : d'.slots = d.slots ++ [new]) : d.Grows d' := by
  intro i slot hslot
  refine ⟨slot, ?_, rfl⟩
  rw [hslots, List.getElem?_append_left (List.getElem?_eq_some_iff.mp hslot).1, hslot]

theorem Grows.of_set {new : Slot} (hslot : d.slots[i]? = some slot)
    (hslots : d'.slots = d.slots.set i new) (hlookup : new.lookup = slot.lookup) :
    d.Grows d' := by
  intro j old hold
  by_cases hij : i = j
  · subst hij
    obtain rfl : slot = old := Option.some.inj (hslot.symm.trans hold)
    refine ⟨new, ?_, hlookup⟩
    rw [hslots, List.getElem?_set_self (List.getElem?_eq_some_iff.mp hslot).1]
  · exact ⟨old, by rw [hslots, List.getElem?_set_ne hij, hold], rfl⟩

theorem Stands.mono (hstands : Stands h d n check) (hsub : h ⊆ h') (hgrows : d.Grows d')
    (hnow : d'.now = d.now) (hconfig : d'.config = d.config) : Stands h' d' n check where
  suffix := hstands.suffix
  atSlot := by
    intro i hi
    obtain ⟨slot, hslot, hhead⟩ := hstands.atSlot i hi
    obtain ⟨slot', hslot', hlookup⟩ := hgrows i slot hslot
    exact ⟨slot', hslot', by rw [hhead, hlookup]⟩
  flight := by
    intro i t f lookup hphase hhead
    obtain ⟨hstarted, hin⟩ := hstands.flight i t f lookup hphase hhead
    exact ⟨hsub hstarted, by rw [hnow, hconfig]; exact hin⟩

/-- A call that is at no slot stands anywhere. -/
theorem Stands.away (hsuffix : check.lookups <:+ check.question.lookups)
    (haway : check.phase.slot = none) : Stands h d n check where
  suffix := hsuffix
  atSlot := fun i hi => by rw [haway] at hi; cases hi
  flight := fun i t f lookup hphase _ => by rw [hphase] at haway; cases haway

/-- **The invariant.** -/
structure Sound (h : List RoleNote) (d : RoleDirectory) : Prop where
  current : ∀ lookup i, d.currentSlot lookup = some i →
    ∃ slot : Slot, d.slots[i]? = some slot ∧ slot.lookup = lookup
  entries : ∀ (i : ℕ) (slot : Slot) (entry : RoleEntry), d.slots[i]? = some slot →
    slot.entry = some entry → Known h slot.lookup entry
  checks : ∀ (n : ℕ) (check : Check), d.checks[n]? = some check → Stands h d n check
  fetches : ∀ f n lookup t, RoleNote.started f n lookup t ∈ h → f < d.fetches

/-- Where one call moves, and none of the slots forgets its lookup. -/
theorem Sound.checks_set {new : Check} (hs : Sound h d) (hsub : h ⊆ h') (hgrows : d.Grows d')
    (hnow : d'.now = d.now) (hconfig : d'.config = d.config)
    (hchecks : d'.checks = d.checks.set n new) (hnew : Stands h' d' n new) :
    ∀ (m : ℕ) (check : Check), d'.checks[m]? = some check → Stands h' d' m check := by
  intro m check hm
  rw [hchecks] at hm
  rcases getElem?_of_set hm with ⟨rfl, rfl⟩ | ⟨-, hm⟩
  · exact hnew
  · exact (hs.checks m check hm).mono hsub hgrows hnow hconfig

/-- Where the slots are rewritten at most at one place, whose new entry is known. -/
theorem Sound.entries_set {new : Slot} (hs : Sound h d) (hsub : h ⊆ h')
    (hnew : ∀ entry, new.entry = some entry → Known h' new.lookup entry) :
    ∀ (j : ℕ) (slot : Slot) (entry : RoleEntry), (d.slots.set i new)[j]? = some slot →
      slot.entry = some entry → Known h' slot.lookup entry := by
  intro j slot entry hj hentry
  rcases getElem?_of_set hj with ⟨-, rfl⟩ | ⟨-, hj⟩
  · exact hnew entry hentry
  · exact (hs.entries j slot entry hj hentry).mono hsub

/-- Where an empty slot is added. -/
theorem Sound.entries_append {new : Slot} (hs : Sound h d) (hsub : h ⊆ h')
    (hempty : new.entry = none) :
    ∀ (j : ℕ) (slot : Slot) (entry : RoleEntry), (d.slots ++ [new])[j]? = some slot →
      slot.entry = some entry → Known h' slot.lookup entry := by
  intro j slot entry hj hentry
  rcases getElem?_of_concat hj with ⟨-, rfl⟩ | hj
  · rw [hempty] at hentry
    cases hentry
  · exact (hs.entries j slot entry hj hentry).mono hsub

/-- The current slot of a lookup is one of that lookup, also after slots were added or
rewritten. -/
theorem Sound.current_grows (hs : Sound h d) (hgrows : d.Grows d')
    (hi : d.currentSlot lookup = some i) :
    ∃ slot : Slot, d'.slots[i]? = some slot ∧ slot.lookup = lookup := by
  obtain ⟨old, hold, hl⟩ := hs.current lookup i hi
  obtain ⟨slot', hslot', hl'⟩ := hgrows i old hold
  exact ⟨slot', hslot', hl'.trans hl⟩

/-- No note of these is of a fetch being started. -/
def NoStart (notes : List RoleNote) : Prop :=
  ∀ f n lookup t, RoleNote.started f n lookup t ∉ notes

theorem Sound.fetches_append (hs : Sound h d) (hnotes : NoStart notes)
    (hfetches : d'.fetches = d.fetches) (f n : ℕ) (lookup : Lookup) (t : Instant)
    (hmem : RoleNote.started f n lookup t ∈ h ++ notes) : f < d'.fetches := by
  rw [hfetches]
  rcases List.mem_append.mp hmem with hmem | hmem
  · exact hs.fetches f n lookup t hmem
  · exact absurd hmem (hnotes f n lookup t)

theorem noStart_conclude : NoStart (d.conclude n check lookup rest entry).2 := by
  intro f m lookup' t hmem
  rcases conclude_notes d n check lookup rest entry with heq | heq
  · rw [heq] at hmem
    simp at hmem
  · rw [heq] at hmem
    simp at hmem

/-- The calls stand where they should once one of them has left its slot. -/
theorem Sound.away {new : Check} (hs : Sound h d) (hsub : h ⊆ h') (hgrows : d.Grows d')
    (hnow : d'.now = d.now) (hconfig : d'.config = d.config)
    (hchecks : d'.checks = d.checks.set n new) (hsuffix : new.lookups <:+ new.question.lookups)
    (haway : new.phase.slot = none) :
    ∀ (m : ℕ) (check : Check), d'.checks[m]? = some check → Stands h' d' m check :=
  hs.checks_set hsub hgrows hnow hconfig hchecks (.away hsuffix haway)

/-- A lookup is over, and the slot it was at is rewritten. -/
theorem Sound.settle {new : Slot} (entry : RoleEntry) (hs : Sound h d)
    (hcheck : d.checks[n]? = some check)
    (hlookups : check.lookups = lookup :: rest) (hslot : d.slots[i]? = some slot)
    (hlookup : new.lookup = slot.lookup)
    (hnew : ∀ entry, new.entry = some entry → Known (h ++ notes) new.lookup entry)
    (hnotes : NoStart notes) :
    Sound (h ++ notes) ((d.setSlot i new).conclude n check lookup rest entry).1 := by
  obtain ⟨phase, haway, heq⟩ := conclude_eq (d.setSlot i new) n check lookup rest entry
  rw [heq]
  have hsub : h ⊆ h ++ notes := List.subset_append_left h notes
  have hgrows : d.Grows
      ((d.setSlot i new).setCheck n { check with lookups := rest, phase := phase }) :=
    .of_set hslot rfl hlookup
  have hsuffix : rest <:+ check.question.lookups :=
    List.IsSuffix.trans (hlookups ▸ List.suffix_cons lookup rest) (hs.checks n check hcheck).suffix
  refine ⟨fun l j hj => ?_, hs.entries_set hsub hnew,
    hs.away hsub hgrows rfl rfl rfl hsuffix haway, hs.fetches_append hnotes rfl⟩
  exact hs.current_grows hgrows hj

theorem setSlot_self (hslot : d.slots[i]? = some slot) : d.setSlot i slot = d := by
  obtain ⟨hi, rfl⟩ := List.getElem?_eq_some_iff.mp hslot
  unfold setSlot
  rw [List.set_getElem_self hi]

/-- The lookup a call is at is that of the slot it is at. -/
theorem Sound.lookup_eq (hs : Sound h d) (hcheck : d.checks[n]? = some check)
    (hlookups : check.lookups = lookup :: rest) (hphase : check.phase.slot = some i)
    (hslot : d.slots[i]? = some slot) : slot.lookup = lookup := by
  obtain ⟨slot', hslot', hhead⟩ := (hs.checks n check hcheck).atSlot i hphase
  obtain rfl : slot = slot' := Option.some.inj (hslot.symm.trans hslot')
  rw [hlookups, List.head?_cons, Option.some.injEq] at hhead
  exact hhead.symm

/-- The entry a fetch leaves in its slot, if it was answered. -/
theorem Sound.known_receive {answer : Except String (List RoleHolder)} (hs : Sound h d)
    (hcheck : d.checks[n]? = some check) (hlookups : check.lookups = lookup :: rest)
    (hphase : check.phase = .fetching i started f) (hsub : h ⊆ h')
    (hnote : fetchNote lookup started f answer ∈ h') :
    Known h' lookup
      { holders := (fetch lookup answer).toOption, fetchedAt := started, fetch := f } := by
  have hstarted := ((hs.checks n check hcheck).flight i started f lookup hphase
    (by rw [hlookups]; rfl)).1
  refine ⟨⟨n, hsub hstarted⟩, fun users husers => ?_⟩
  cases answer with
  | error reason => cases husers
  | ok holders => exact ⟨holders, hnote, congrArg Except.ok (Option.some.inj husers)⟩

/-- The entry a fetch leaves in its slot, if it failed. -/
theorem Sound.known_failed (hs : Sound h d) (hcheck : d.checks[n]? = some check)
    (hlookups : check.lookups = lookup :: rest) (hphase : check.phase = .fetching i started f)
    (hsub : h ⊆ h') : Known h' lookup { holders := none, fetchedAt := started, fetch := f } := by
  have hstarted := ((hs.checks n check hcheck).flight i started f lookup hphase
    (by rw [hlookups]; rfl)).1
  exact ⟨⟨n, hsub hstarted⟩, fun users husers => by cases husers⟩

theorem NoStart.cons {note : RoleNote} (hnote : ∀ f n lookup t, note ≠ .started f n lookup t)
    (hnotes : NoStart notes) : NoStart (note :: notes) := by
  intro f n lookup t hmem
  rcases List.mem_cons.mp hmem with heq | hmem
  · exact hnote f n lookup t heq.symm
  · exact hnotes f n lookup t hmem

theorem sound_ask (hs : Sound h d) (question : Question) :
    Sound (h ++ (d.ask question).2) (d.ask question).1 := by
  have hsub : h ⊆ h ++ (d.ask question).2 := List.subset_append_left h _
  obtain ⟨new, hsuffix, haway, hd'⟩ := ask_eq d question
  have hnotes : NoStart (d.ask question).2 := by
    intro f n l t hmem
    rcases ask_notes d question with heq | ⟨-, heq⟩
    · simp [heq] at hmem
    · simp [heq] at hmem
  rw [hd']
  refine ⟨hs.current, fun j slot e hj he => (hs.entries j slot e hj he).mono hsub, ?_,
    hs.fetches_append hnotes rfl⟩
  intro m c hm
  rcases getElem?_of_concat hm with ⟨-, rfl⟩ | hm
  · exact .away hsuffix haway
  · exact (hs.checks m c hm).mono hsub (.of_eq rfl) rfl rfl

theorem sound_obtain (hs : Sound h d) (hcheck : d.checks[n]? = some check)
    (hlookups : check.lookups = lookup :: rest) (hobtains : d.Obtains lookup i d') :
    Sound (h ++ [.obtained n lookup i]) (d'.setCheck n { check with phase := .queued i }) := by
  have hsub : h ⊆ h ++ [.obtained n lookup i] := List.subset_append_left h _
  have hgrows : d.Grows d' := by
    rcases hobtains.slots with ⟨heq, -⟩ | ⟨heq, -⟩
    · exact .of_eq heq
    · exact .of_append heq
  have hnow : d'.now = d.now := by rw [hobtains.frame]
  have hconfig : d'.config = d.config := by rw [hobtains.frame]
  have hchecks : d'.checks = d.checks := by rw [hobtains.frame]
  -- the slot obtained is one of the lookup
  have hi : ∃ slot : Slot, d'.slots[i]? = some slot ∧ slot.lookup = lookup := by
    rcases hobtains.slots with ⟨heq, hcurrent⟩ | ⟨heq, rfl⟩
    · rw [heq]
      exact hs.current lookup i hcurrent
    · exact ⟨{ lookup := lookup }, by rw [heq, List.getElem?_concat_length], rfl⟩
  refine ⟨fun l j hj => ?_, fun j slot e hj he => ?_, ?_, ?_⟩
  · by_cases hl : l = lookup
    · subst hl
      obtain rfl : i = j := Option.some.inj (hobtains.current.symm.trans hj)
      exact hi
    · rcases hobtains.others l hl with hsame | hnone
      · exact hs.current_grows hgrows (hsame ▸ hj)
      · exact absurd (hnone.symm.trans hj) (by simp)
  · change d'.slots[j]? = some slot at hj
    rcases hobtains.slots with ⟨heq, -⟩ | ⟨heq, -⟩
    · rw [heq] at hj
      exact (hs.entries j slot e hj he).mono hsub
    · rw [heq] at hj
      exact hs.entries_append hsub rfl j slot e hj he
  · refine hs.checks_set hsub hgrows hnow hconfig (by rw [setCheck, hchecks]) ?_
    refine ⟨(hs.checks n check hcheck).suffix, fun j hj => ?_,
      fun _ _ _ _ hphase => by cases hphase⟩
    obtain rfl : i = j := Option.some.inj hj
    obtain ⟨slot, hslot, hl⟩ := hi
    exact ⟨slot, hslot, by rw [hlookups, hl]; rfl⟩
  · refine hs.fetches_append ?_ (by rw [setCheck, hobtains.frame])
    intro f m l t hmem
    simp at hmem

theorem sound_start (hs : Sound h d) (hcheck : d.checks[n]? = some check)
    (hlookups : check.lookups = lookup :: rest) (hphase : check.phase = .queued i)
    (hslot : d.slots[i]? = some slot) :
    Sound (h ++ [.started d.fetches n lookup d.now])
      { d.setSlot i { slot with locked := true } with
        checks := d.checks.set n { check with phase := .fetching i d.now d.fetches }
        fetches := d.fetches + 1 } := by
  have hsub : h ⊆ h ++ [.started d.fetches n lookup d.now] := List.subset_append_left h _
  -- Locking the slot changes neither what it is for nor what is in it.
  have hgrows : d.Grows (d.setSlot i { slot with locked := true }) := .of_set hslot rfl rfl
  refine ⟨fun l j hj => ?_,
    hs.entries_set hsub fun e he => (hs.entries i slot e hslot he).mono hsub,
    hs.checks_set hsub hgrows rfl rfl rfl ?_, ?_⟩
  · exact hs.current_grows hgrows hj
  · have hold := hs.checks n check hcheck
    refine ⟨hold.suffix, fun j hj => ?_, fun j t f l hphase' hhead => ?_⟩
    · obtain ⟨old, hold, hl⟩ := hold.atSlot j (by rw [hphase]; exact hj)
      obtain ⟨slot', hslot', hl'⟩ := hgrows j old hold
      exact ⟨slot', hslot', by rw [hl, hl']⟩
    · -- The fetch that starts is for the head of what the check looks up.
      obtain ⟨rfl, rfl, rfl⟩ := CheckPhase.fetching.inj hphase'
      obtain rfl : lookup = l := by
        rw [hlookups] at hhead
        exact Option.some.inj hhead
      exact ⟨by simp, Nat.le_add_right _ _⟩
  · intro f m l t hmem
    rcases List.mem_append.mp hmem with hmem | hmem
    · exact Nat.lt_succ_of_lt (hs.fetches f m l t hmem)
    · simp only [List.mem_singleton, RoleNote.started.injEq] at hmem
      obtain ⟨rfl, -⟩ := hmem
      exact Nat.lt_succ_self _

/-- What a call that is dropped leaves: a slot it held is unlocked. -/
theorem abandon_eq (d : RoleDirectory) (n : ℕ) (check : Check) :
    d.abandon n check = d.setCheck n { check with phase := .cancelled } ∨
    ∃ i slot, d.slots[i]? = some slot ∧ d.abandon n check =
      (d.setSlot i { slot with locked := false }).setCheck n
        { check with phase := .cancelled } := by
  unfold abandon
  simp only
  split
  · next i slot hi =>
    obtain ⟨⟨j, t, f⟩, -, hj⟩ := Option.bind_eq_some_iff.mp hi
    obtain ⟨slot', hslot, heq⟩ := Option.map_eq_some_iff.mp hj
    obtain ⟨rfl, rfl⟩ := Prod.mk.inj heq
    exact .inr ⟨j, slot', hslot, rfl⟩
  · exact .inl rfl

theorem sound_abandon (hs : Sound h d) (hcheck : d.checks[n]? = some check) :
    Sound h (d.abandon n check) := by
  have hsuffix := (hs.checks n check hcheck).suffix
  rcases abandon_eq d n check with heq | ⟨i, slot, hslot, heq⟩
  · rw [heq]
    exact ⟨hs.current, hs.entries,
      hs.away (List.Subset.refl h) (.of_eq rfl) rfl rfl rfl hsuffix rfl, hs.fetches⟩
  · rw [heq]
    have hgrows : d.Grows (d.setSlot i { slot with locked := false }) := .of_set hslot rfl rfl
    refine ⟨fun l j hj => ?_,
      hs.entries_set (List.Subset.refl h) fun e he => hs.entries i slot e hslot he,
      hs.away (List.Subset.refl h) hgrows rfl rfl rfl hsuffix rfl, hs.fetches⟩
    exact hs.current_grows hgrows hj

theorem sound_drop {drops : List Drop} (hs : Sound h d) (hdrops : d.Drops drop d') :
    Sound (h ++ [.dropped k drop]) { d' with invalidations := d.invalidations.set k drops } := by
  have hsub : h ⊆ h ++ [.dropped k drop] := List.subset_append_left h _
  -- A drop only appends slots.
  have hgrows : d.Grows d' := by
    rcases hdrops.slots with heq | heq
    · exact .of_eq heq
    · exact .of_append heq
  have hnow : d'.now = d.now := by rw [hdrops.frame]
  have hconfig : d'.config = d.config := by rw [hdrops.frame]
  have hchecks : d'.checks = d.checks := by rw [hdrops.frame]
  refine ⟨fun l j hj => ?_, fun j slot e hj he => ?_, fun m c hm => ?_, ?_⟩
  · change d'.currentSlot l = some j at hj
    -- A lookup it covers has a new slot; the others have their old ones.
    by_cases hcovered : drop.Covers l
    · exact ⟨{ lookup := l }, (hdrops.covered l j hcovered hj).2, rfl⟩
    · rw [hdrops.others l hcovered] at hj
      exact hs.current_grows hgrows hj
  · change d'.slots[j]? = some slot at hj
    rcases hdrops.slots with heq | heq
    · rw [heq] at hj
      exact (hs.entries j slot e hj he).mono hsub
    · rw [heq] at hj
      exact hs.entries_append hsub rfl j slot e hj he
  · change d'.checks[m]? = some c at hm
    rw [hchecks] at hm
    exact (hs.checks m c hm).mono hsub hgrows hnow hconfig
  · refine hs.fetches_append ?_ (by rw [hdrops.frame])
    intro f m l t hmem
    simp at hmem

/-- **A step keeps the directory sound.** -/
theorem sound_move {input : RoleInput} (hs : Sound h d) (hmove : Moves d input d' notes) :
    Sound (h ++ notes) d' := by
  have hsub : h ⊆ h ++ notes := List.subset_append_left h notes
  cases hmove with
  | ask question => exact sound_ask hs question
  | @obtain n i check lookup rest reading evicted d₁ hcheck hlookups hphase hslot =>
    exact sound_obtain hs hcheck hlookups (obtains_slotFor hslot)
  | @cached n i check lookup rest slot entry hcheck hlookups hphase hslot hentry hfresh =>
    have hl := hs.lookup_eq hcheck hlookups (by rw [hphase]; rfl) hslot
    have hsettle := hs.settle entry hcheck hlookups hslot rfl
      (fun e he => (hs.entries i slot e hslot he).mono hsub) noStart_conclude
    rwa [setSlot_self hslot] at hsettle
  | @start n i check lookup rest slot hcheck hlookups hphase hslot hlocked =>
    exact sound_start hs hcheck hlookups hphase hslot
  | @answer n i f check lookup rest slot started answer hcheck hlookups hphase hslot =>
    have hl := hs.lookup_eq hcheck hlookups (by rw [hphase]; rfl) hslot
    refine hs.settle _ hcheck hlookups hslot rfl ?_ (.cons ?_ noStart_conclude)
    · intro e he
      obtain rfl := Option.some.inj he
      rw [hl]
      exact hs.known_receive hcheck hlookups hphase hsub (by simp [receive])
    · intro f' n' l t heq
      cases answer with
      | ok holders => cases heq
      | error reason => cases heq
  | @expire n i f check lookup rest slot started hcheck hlookups hphase hslot =>
    have hl := hs.lookup_eq hcheck hlookups (by rw [hphase]; rfl) hslot
    refine hs.settle _ hcheck hlookups hslot rfl ?_ (.cons (fun _ _ _ _ heq => by cases heq)
      noStart_conclude)
    intro e he
    obtain rfl := Option.some.inj he
    rw [hl]
    exact hs.known_failed hcheck hlookups hphase hsub
  | @cancel n check hcheck =>
    rw [List.append_nil]
    exact sound_abandon hs hcheck
  | invalidate call =>
    rw [List.append_nil]
    exact ⟨hs.current, hs.entries, fun m c hm => (hs.checks m c hm).mono (List.Subset.refl h)
      (.of_eq rfl) rfl rfl, hs.fetches⟩
  | @drop k drop drops hdrops => exact sound_drop hs (drops_performDrop d drop)
  | @tick δ hin =>
    rw [List.append_nil]
    refine ⟨hs.current, hs.entries, fun m c hm => ?_, hs.fetches⟩
    have hold := hs.checks m c hm
    refine ⟨hold.suffix, hold.atSlot, fun i t f l hphase hhead =>
      ⟨(hold.flight i t f l hphase hhead).1, ?_⟩⟩
    refine hin c (List.mem_of_getElem? hm) _ ?_
    simp [Check.deadline, hphase, CheckPhase.inFlight]

theorem sound_init (config : RoleCacheConfig) : Sound [] (init config) := by
  refine ⟨fun lookup i hi => ?_, fun i slot entry hi hentry => ?_, fun n check hn => ?_,
    fun f n lookup t hmem => by simp at hmem⟩
  · cases lookup with
    | global =>
      obtain rfl : 0 = i := Option.some.inj hi
      exact ⟨{ lookup := .global }, rfl, rfl⟩
    | room id => simp [currentSlot, init] at hi
  · obtain rfl : slot = { lookup := .global } := by
      have := List.mem_of_getElem? hi
      simpa [init] using this
    cases hentry
  · simp [init] at hn

variable {config : RoleCacheConfig}

/-- Every run is sound. -/
theorem sound_of_run (hrun : Run step (init config) h d) : Sound h d :=
  hrun.invariant (sound_init config) fun hs hstep => sound_move hs (moves_of_step hstep)

/-! ### What answers rest on -/

/-- An answer of a lookup rests on a fetch, which is not too old if it was answered; and the
answer of a call rests on the answer of one of its lookups. -/
def Justified (config : RoleCacheConfig) (pre : List RoleNote) : RoleNote → Prop
  | .answered _ lookup entry t => Known pre lookup entry ∧
      (entry.holders.isSome → t ≤ entry.fetchedAt + max config.ttl config.timeout)
  | .returned n question granted t => question.isFree = false →
      ∃ lookup ∈ question.lookups, ∃ entry,
        .answered n lookup entry t ∈ pre ∧ entry.grants question.user = granted
  | _ => True

/-- The end of a lookup is justified if its entry is. -/
theorem justified_conclude (hlookup : lookup ∈ check.question.lookups)
    (hknown : Known h lookup entry)
    (hage : entry.holders.isSome → d.now ≤ entry.fetchedAt + max config.ttl config.timeout) :
    Each (fun pre => Justified config (h ++ pre)) (d.conclude n check lookup rest entry).2 := by
  have hanswered : Justified config (h ++ []) (.answered n lookup entry d.now) := by
    rw [List.append_nil]
    exact ⟨hknown, hage⟩
  rcases conclude_notes d n check lookup rest entry with heq | heq
  · rw [heq, each_singleton]
    exact hanswered
  · rw [heq, each_cons, each_singleton]
    exact ⟨hanswered, fun _ => ⟨lookup, hlookup, entry, by simp, rfl⟩⟩

/-- The end of a lookup moves its call, and nothing else. -/
theorem conclude_frame : (d.conclude n check lookup rest entry).1 =
    { d with checks := (d.conclude n check lookup rest entry).1.checks } := by
  obtain ⟨phase, -, heq⟩ := conclude_eq d n check lookup rest entry
  rw [heq]
  rfl

/-- What only grows: the clock, the fetches started and the calls made; the settings stay. -/
structure Later (d d' : RoleDirectory) : Prop where
  config : d'.config = d.config
  now : d.now ≤ d'.now
  fetches : d.fetches ≤ d'.fetches
  checks : d.checks.length ≤ d'.checks.length

theorem Later.refl (d : RoleDirectory) : d.Later d := ⟨rfl, le_rfl, le_rfl, le_rfl⟩

theorem Later.trans {d₁ d₂ d₃ : RoleDirectory} (h : d₁.Later d₂) (h' : d₂.Later d₃) :
    d₁.Later d₃ :=
  ⟨h'.config.trans h.config, h.now.trans h'.now, h.fetches.trans h'.fetches,
    h.checks.trans h'.checks⟩

theorem later_conclude {d₁ : RoleDirectory} (hconfig : d₁.config = d.config)
    (hnow : d₁.now = d.now) (hfetches : d₁.fetches = d.fetches) (hchecks : d₁.checks = d.checks) :
    d.Later (d₁.conclude n check lookup rest entry).1 := by
  obtain ⟨phase, -, heq⟩ := conclude_eq d₁ n check lookup rest entry
  rw [heq]
  refine ⟨hconfig, hnow.ge, hfetches.ge, ?_⟩
  rw [setCheck, List.length_set, hchecks]

/-- **A step leaves the directory later.** -/
theorem later_move {input : RoleInput} (hmove : Moves d input d' notes) : d.Later d' := by
  cases hmove with
  | ask question =>
    obtain ⟨new, -, -, heq⟩ := ask_eq d question
    rw [heq]
    exact ⟨rfl, le_rfl, le_rfl, by simp⟩
  | obtain _ _ _ hslot =>
    rw [setCheck, (obtains_slotFor hslot).frame]
    exact ⟨rfl, le_rfl, le_rfl, (List.length_set ..).ge⟩
  | cached => exact later_conclude rfl rfl rfl rfl
  | start => exact ⟨rfl, le_rfl, Nat.le_succ _, (List.length_set ..).ge⟩
  | answer => exact later_conclude rfl rfl rfl rfl
  | expire => exact later_conclude rfl rfl rfl rfl
  | @cancel n check hcheck =>
    rcases abandon_eq d n check with heq | ⟨i, slot, -, heq⟩
    · rw [heq]
      exact ⟨rfl, le_rfl, le_rfl, (List.length_set ..).ge⟩
    · rw [heq]
      exact ⟨rfl, le_rfl, le_rfl, (List.length_set ..).ge⟩
  | invalidate => exact ⟨rfl, le_rfl, le_rfl, le_rfl⟩
  | @drop k drop drops hdrops =>
    rw [(drops_performDrop d drop).frame]
    exact ⟨rfl, le_rfl, le_rfl, le_rfl⟩
  | tick => exact ⟨rfl, Nat.le_add_right .., le_rfl, le_rfl⟩

theorem config_of_run (hrun : Run step (init config) h d) : d.config = config :=
  hrun.invariant (I := fun _ d => d.config = config) rfl fun hconfig hstep =>
    (later_move (moves_of_step hstep)).config.trans hconfig

/-- The lookup a call is at is one of its question. -/
theorem Sound.mem_lookups (hs : Sound h d) (hcheck : d.checks[n]? = some check)
    (hlookups : check.lookups = lookup :: rest) : lookup ∈ check.question.lookups :=
  (hs.checks n check hcheck).suffix.subset (by simp [hlookups])

/-- **What a step shows is justified by what was shown before.** -/
theorem justified_move {input : RoleInput} (hconfig : d.config = config) (hs : Sound h d)
    (hmove : Moves d input d' notes) : Each (fun pre => Justified config (h ++ pre)) notes := by
  subst hconfig
  cases hmove with
  | ask question =>
    rcases ask_notes d question with heq | ⟨hfree, heq⟩
    · rw [heq, each_singleton]
      trivial
    · rw [heq, each_cons, each_singleton]
      exact ⟨trivial, fun hnot => absurd (hfree.symm.trans hnot) (by simp)⟩
  | obtain => exact each_singleton.mpr trivial
  | @cached n i check lookup rest slot entry hcheck hlookups hphase hslot hentry hfresh =>
    have hl := hs.lookup_eq hcheck hlookups (by rw [hphase]; rfl) hslot
    refine justified_conclude (hs.mem_lookups hcheck hlookups)
      (hl ▸ hs.entries i slot entry hslot hentry) fun hknown => ?_
    -- a fresh answer is younger than the time to live
    rw [RoleEntry.isFresh, hknown, if_pos rfl, decide_eq_true_eq] at hfresh
    exact Nat.sub_le_iff_le_add'.mp (hfresh.le.trans (le_max_left _ _))
  | start => exact each_singleton.mpr trivial
  | @answer n i f check lookup rest slot started answer hcheck hlookups hphase hslot =>
    have hflight := (hs.checks n check hcheck).flight i started f lookup hphase
      (by rw [hlookups]; rfl)
    have hnote : Justified d.config (h ++ []) (fetchNote lookup started f answer) := by
      cases answer with
      | ok holders => trivial
      | error reason => trivial
    refine each_append.mpr ⟨each_singleton.mpr hnote, ?_⟩
    simp only [← List.append_assoc]
    refine justified_conclude (hs.mem_lookups hcheck hlookups)
      (hs.known_receive hcheck hlookups hphase (List.subset_append_left h _) (by simp)) fun _ => ?_
    -- a fetch in flight is not overdue
    exact hflight.2.trans (Nat.add_le_add_left (le_max_right _ _) _)
  | @expire n i f check lookup rest slot started hcheck hlookups hphase hslot =>
    refine each_append.mpr ⟨each_singleton.mpr trivial, ?_⟩
    simp only [← List.append_assoc]
    exact justified_conclude (hs.mem_lookups hcheck hlookups)
      (hs.known_failed hcheck hlookups hphase (List.subset_append_left h _))
      fun hknown => by cases hknown
  | cancel => exact each_nil
  | invalidate => exact each_nil
  | drop => exact each_singleton.mpr trivial
  | tick => exact each_nil

/-- Every answer of a run is justified. -/
theorem justified_of_run (hrun : Run step (init config) h d) : Each (Justified config) h := by
  refine hrun.invariant_of (J := fun h d => Sound h d ∧ d.config = config)
    (I := fun h _ => Each (Justified config) h)
    (fun hrun => ⟨sound_of_run hrun, config_of_run hrun⟩) each_nil ?_
  intro h d input d' notes hsound hjustified hstep
  exact each_append.mpr
    ⟨hjustified, justified_move hsound.2 hsound.1 (moves_of_step hstep)⟩

end RoleDirectory
end RocketSocket
