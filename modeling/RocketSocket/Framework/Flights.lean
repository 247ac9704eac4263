import RocketSocket.Framework.RoleRun

/-!
# Fetches in flight

A lookup holds the mutex of its slot while its fetch is in flight.  What every step does to
the mutexes is said once, and the invariant of the mutexes follows from it.

## Main definitions

* `Asks`, `Flying` — where a call stands in the lookup of a key, and whose fetch is in flight.
* `Turns` — what a step does to the mutexes.
* `Exclusive` — the invariant of the mutexes and of the numbers of the fetches.

## Main results

* `turns_of_step` — the inversion of a step.
* `exclusive_of_run` — in every run one fetch a slot is in flight.
-/

namespace RocketSocket

open Machine

/-- The note is neither of a fetch nor of an answer. -/
def RoleNote.IsCalm : RoleNote → Prop
  | .asked .. | .obtained .. | .returned .. | .dropped .. => True
  | _ => False

namespace RoleDirectory

variable {d d' : RoleDirectory} {h h' notes : List RoleNote} {input : RoleInput}
  {n m i j f : ℕ} {check c : Check} {key lookup : Lookup} {rest : List Lookup} {slot : Slot}
  {entry : RoleEntry} {t : Instant} {phase : CheckPhase} {config : RoleCacheConfig}

/-! ### What a step does to the mutexes -/

/-- Call number `n` stands so in the lookup of a key. -/
def Asks (d : RoleDirectory) (n : ℕ) (key : Lookup) (phase : CheckPhase) : Prop :=
  ∃ check rest, d.checks[n]? = some check ∧ check.lookups = key :: rest ∧ check.phase = phase

/-- Call number `n` holds slot `i`, and its fetch `f` is in flight. -/
def Flying (d : RoleDirectory) (n i : ℕ) (t : Instant) (f : ℕ) : Prop :=
  ∃ check, d.checks[n]? = some check ∧ check.phase = .fetching i t f

theorem Asks.flying (hasks : d.Asks n key (.fetching i t f)) : d.Flying n i t f := by
  obtain ⟨check, -, hcheck, -, hphase⟩ := hasks
  exact ⟨check, hcheck, hphase⟩

/-- What is in flight is in flight for a key. -/
theorem Flying.asks (hfly : d.Flying n i t f) (hs : Sound h d) :
    ∃ slot : Slot, d.slots[i]? = some slot ∧ d.Asks n slot.lookup (.fetching i t f) := by
  obtain ⟨check, hcheck, hphase⟩ := hfly
  obtain ⟨slot, hslot, hhead⟩ := (hs.checks n check hcheck).atSlot i (by rw [hphase]; rfl)
  obtain ⟨rest, hrest⟩ := List.head?_eq_some_iff.1 hhead
  exact ⟨slot, hslot, check, rest, hcheck, hrest, hphase⟩

/-- The key of a call is that of the slot it is at. -/
theorem Asks.lookup_eq (hasks : d.Asks n key phase) (hs : Sound h d)
    (hphase : phase.slot = some i) (hslot : d.slots[i]? = some slot) : slot.lookup = key := by
  obtain ⟨check, rest, hcheck, hlookups, rfl⟩ := hasks
  exact hs.lookup_eq hcheck hlookups hphase hslot

/-- The other calls stay in flight where one of them moves. -/
theorem flying_set (hchecks : d'.checks = d.checks.set n c) (hfly : d'.Flying m j t f) :
    m = n ∧ c.phase = .fetching j t f ∨ m ≠ n ∧ d.Flying m j t f := by
  obtain ⟨check, hm, hphase⟩ := hfly
  rw [hchecks] at hm
  rcases getElem?_of_set hm with ⟨rfl, rfl⟩ | ⟨hne, hm⟩
  · exact .inl ⟨rfl, hphase⟩
  · exact .inr ⟨hne, check, hm, hphase⟩

/-- A call that moves away from its slot has no fetch in flight. -/
theorem flying_away (hchecks : d'.checks = d.checks.set n c) (haway : c.phase.slot = none)
    (hfly : d'.Flying m j t f) : m ≠ n ∧ d.Flying m j t f := by
  rcases flying_set hchecks hfly with ⟨-, hphase⟩ | hother
  · rw [hphase] at haway
    cases haway
  · exact hother

/-- What a step does to the mutexes. -/
inductive Turns (input : RoleInput) (d d' : RoleDirectory) : List RoleNote → Prop
  /-- No mutex is taken. -/
  | calm {notes : List RoleNote}
      (hslots : d'.slots = d.slots ∨ ∃ lookup, d'.slots = d.slots ++ [{ lookup := lookup }])
      (hflying : ∀ m j t f, d'.Flying m j t f → d.Flying m j t f)
      (hfetches : d'.fetches = d.fetches) (hnotes : ∀ note ∈ notes, note.IsCalm) :
      Turns input d d' notes
  /-- A mutex is taken, a fresh answer found, and the mutex released. -/
  | hits {n i : ℕ} {lookup : Lookup} {slot : Slot} {entry : RoleEntry} {notes : List RoleNote}
      (hasks : d.Asks n lookup (.queued i)) (hslot : d.slots[i]? = some slot)
      (hlocked : slot.locked = false) (hentry : slot.entry = some entry)
      (hslots : d'.slots = d.slots) (hflying : ∀ m j t f, d'.Flying m j t f → d.Flying m j t f)
      (hfetches : d'.fetches = d.fetches) (hnotes : ∀ note ∈ notes, note.IsCalm) :
      Turns input d d' (.answered n lookup entry d.now :: notes)
  /-- A mutex is taken, and a fetch started. -/
  | starts {n i : ℕ} {lookup : Lookup} {slot : Slot} (hasks : d.Asks n lookup (.queued i))
      (hslot : d.slots[i]? = some slot) (hlocked : slot.locked = false)
      (hstale : ∀ entry, slot.entry = some entry → entry.isFresh d.config d.now = false)
      (hslots : d'.slots = d.slots.set i { slot with locked := true })
      (hflying : ∀ m j t f, d'.Flying m j t f →
        m = n ∧ j = i ∧ t = d.now ∧ f = d.fetches ∨ m ≠ n ∧ d.Flying m j t f)
      (hfetches : d'.fetches = d.fetches + 1) :
      Turns input d d' [.started d.fetches n lookup d.now]
  /-- A fetch is over, and its outcome stored. -/
  | ends {n i : ℕ} {lookup : Lookup} {slot : Slot} {entry : RoleEntry} {note : RoleNote}
      {notes : List RoleNote}
      (hasks : d.Asks n lookup (.fetching i entry.fetchedAt entry.fetch))
      (hslot : d.slots[i]? = some slot)
      (hslots : d'.slots = d.slots.set i { slot with entry := some entry, locked := false })
      (hflying : ∀ m j t f, d'.Flying m j t f → m ≠ n ∧ d.Flying m j t f)
      (hfetches : d'.fetches = d.fetches)
      (hnote : (∃ holders users, note = .fetched entry.fetch lookup entry.fetchedAt holders ∧
          fetch lookup (.ok holders) = .ok users ∧ entry.holders = some users) ∨
        ∃ error, note = .failed entry.fetch error ∧ entry.holders = none)
      (hnotes : ∀ note ∈ notes, note.IsCalm) :
      Turns input d d' (note :: .answered n lookup entry d.now :: notes)
  /-- A fetch is dropped half-way. -/
  | abandons {n i f : ℕ} {t : Instant} {lookup : Lookup} {slot : Slot}
      (hinput : input = .cancel n) (hasks : d.Asks n lookup (.fetching i t f))
      (hslot : d.slots[i]? = some slot)
      (hslots : d'.slots = d.slots.set i { slot with locked := false })
      (hflying : ∀ m j t f, d'.Flying m j t f → m ≠ n ∧ d.Flying m j t f)
      (hfetches : d'.fetches = d.fetches) : Turns input d d' []

/-- What a run shows of the end of a lookup. -/
theorem conclude_calm (d : RoleDirectory) (n : ℕ) (check : Check) (lookup : Lookup)
    (rest : List Lookup) (entry : RoleEntry) : ∃ notes,
    (d.conclude n check lookup rest entry).2 = .answered n lookup entry d.now :: notes ∧
      ∀ note ∈ notes, note.IsCalm := by
  rcases conclude_notes d n check lookup rest entry with heq | heq
  · exact ⟨[], heq, by simp⟩
  · exact ⟨_, heq, by simp [RoleNote.IsCalm]⟩

theorem flying_conclude (hfly : (d.conclude n check lookup rest entry).1.Flying m j t f) :
    m ≠ n ∧ d.Flying m j t f := by
  obtain ⟨phase, haway, heq⟩ := conclude_eq d n check lookup rest entry
  rw [heq] at hfly
  exact flying_away rfl haway hfly

/-- Taking a free mutex: a fresh answer is there, or a fetch is started. -/
theorem turns_lock (hstep : d.step (.lock n) = some (d', notes)) : Turns (.lock n) d d' notes := by
  simp only [step, Option.bind_eq_bind, Option.bind_eq_some_iff, Option.guard_eq_some',
    Option.pure_def, Option.some.injEq, Prod.exists, checkAt_eq_some, waitsFor_eq_some] at hstep
  obtain ⟨check, lookup, rest, ⟨hcheck, hlookups⟩, i, hphase, slot, hslot, _, hlocked, hstep⟩ :=
    hstep
  have hasks : d.Asks n lookup (.queued i) := ⟨check, rest, hcheck, hlookups, hphase⟩
  unfold enter at hstep
  split at hstep
  · -- The entry is fresh: it is answered, and nothing takes off.
    next entry hfresh =>
    obtain ⟨hentry, -⟩ := Option.filter_eq_some_iff.mp hfresh
    obtain ⟨more, hnotes, hcalm⟩ := conclude_calm d n check lookup rest entry
    obtain ⟨rfl, rfl⟩ := Prod.ext_iff.mp hstep
    rw [hnotes]
    refine .hits hasks hslot hlocked hentry ?_ (fun m j t f hfly => (flying_conclude hfly).2) ?_
      hcalm
    · rw [conclude_frame]
    · rw [conclude_frame]
  · -- There is no entry, or a stale one: the mutex is taken and a fetch starts.
    next hnone =>
    obtain ⟨rfl, rfl⟩ := Prod.ext_iff.mp hstep
    refine .starts hasks hslot hlocked (fun entry hentry => ?_) rfl (fun m j t f hfly => ?_) rfl
    · rw [hentry, Option.filter_eq_none_iff] at hnone
      simpa using hnone
    · rcases flying_set rfl hfly with ⟨hm, hphase⟩ | hother
      · obtain ⟨rfl, rfl, rfl⟩ := CheckPhase.fetching.inj hphase
        exact .inl ⟨hm, rfl, rfl, rfl⟩
      · exact .inr hother

/-- The end of a fetch. -/
theorem turns_store {note : RoleNote} (hcheck : d.checks[n]? = some check)
    (hlookups : check.lookups = lookup :: rest)
    (hphase : check.phase = .fetching i entry.fetchedAt entry.fetch)
    (hslot : d.slots[i]? = some slot)
    (hnote : (∃ holders users, note = .fetched entry.fetch lookup entry.fetchedAt holders ∧
        fetch lookup (.ok holders) = .ok users ∧ entry.holders = some users) ∨
      ∃ error, note = .failed entry.fetch error ∧ entry.holders = none) :
    Turns input d (d.store n check lookup rest i slot entry).1
      (note :: (d.store n check lookup rest i slot entry).2) := by
  obtain ⟨more, hnotes, hcalm⟩ := conclude_calm
    (d.setSlot i { slot with entry := some entry, locked := false }) n check lookup rest entry
  unfold store
  rw [hnotes]
  refine .ends ⟨check, rest, hcheck, hlookups, hphase⟩ hslot ?_ (fun m j t f hfly => ?_) ?_
    hnote hcalm
  · rw [conclude_frame]
    rfl
  · obtain ⟨hm, c, hc⟩ := flying_conclude hfly
    exact ⟨hm, c, hc⟩
  · rw [conclude_frame]
    rfl

/-- A call that is dropped releases the mutex it holds. -/
theorem turns_cancel (hs : Sound h d) (hcheck : d.checks[n]? = some check) :
    Turns (.cancel n) d (d.abandon n check) [] := by
  cases hphase : check.phase with
  | fetching i t f =>
    obtain ⟨slot, hslot, hasks⟩ := Flying.asks ⟨check, hcheck, hphase⟩ hs
    have heq : d.abandon n check = (d.setSlot i { slot with locked := false }).setCheck n
        { check with phase := .cancelled } := by
      simp only [abandon, hphase, CheckPhase.inFlight, Option.bind_some, hslot, Option.map_some]
      rfl
    rw [heq]
    exact .abandons rfl hasks hslot rfl (fun m j t f hfly => flying_away rfl rfl hfly) rfl
  | _ =>
    have heq : d.abandon n check = d.setCheck n { check with phase := .cancelled } := by
      unfold abandon
      rw [hphase]
      rfl
    rw [heq]
    exact .calm (.inl rfl) (fun m j t f hfly => (flying_away rfl rfl hfly).2) rfl (by simp)

/-- **What a step does to the mutexes.** -/
theorem turns_of_step (hs : Sound h d) (hstep : d.step input = some (d', notes)) :
    Turns input d d' notes := by
  cases moves_of_step hstep with
  | ask question =>
    obtain ⟨new, -, haway, heq⟩ := ask_eq d question
    refine .calm (.inl ?_) (fun m j t f hfly => ?_) ?_ fun note hnote => ?_
    · rw [heq]
    · obtain ⟨c, hm, hphase⟩ := hfly
      rw [heq] at hm
      rcases getElem?_of_concat hm with ⟨-, rfl⟩ | hm
      · rw [hphase] at haway
        cases haway
      · exact ⟨c, hm, hphase⟩
    · rw [heq]
    · rcases ask_notes d question with heq | ⟨-, heq⟩
      · rw [heq, List.mem_singleton] at hnote
        rw [hnote]
        trivial
      · rw [heq] at hnote
        rcases List.mem_pair.1 hnote with rfl | rfl <;> trivial
  | @obtain n i check lookup rest reading evicted d₁ hcheck hlookups hphase hslot =>
    have hobtains := obtains_slotFor hslot
    refine .calm ?_ (fun m j t f hfly => ?_) (by rw [setCheck, hobtains.frame])
      (by simp [RoleNote.IsCalm])
    -- The call queues for its slot, and no mutex changes hands.
    · rcases hobtains.slots with ⟨heq, -⟩ | ⟨heq, -⟩
      · exact .inl heq
      · exact .inr ⟨lookup, heq⟩
    · have hchecks : (d₁.setCheck n { check with phase := .queued i }).checks =
          d.checks.set n { check with phase := .queued i } := by
        rw [setCheck, hobtains.frame]
      rcases flying_set hchecks hfly with ⟨-, hphase⟩ | ⟨-, hother⟩
      · cases hphase
      · exact hother
  | cached => exact turns_lock hstep
  | start => exact turns_lock hstep
  | @answer n i f check lookup rest slot started answer hcheck hlookups hphase hslot =>
    refine turns_store hcheck hlookups hphase hslot ?_
    cases answer with
    | ok holders => exact .inl ⟨holders, _, rfl, rfl, rfl⟩
    | error reason => exact .inr ⟨_, rfl, rfl⟩
  | @expire n i f check lookup rest slot started hcheck hlookups hphase hslot =>
    exact turns_store hcheck hlookups hphase hslot (.inr ⟨_, rfl, rfl⟩)
  | cancel hcheck => exact turns_cancel hs hcheck
  | invalidate => exact .calm (.inl rfl) (fun _ _ _ _ hfly => hfly) rfl (by simp)
  | @drop k drop drops hdrops =>
    have hperform := drops_performDrop d drop
    refine .calm ?_ (fun m j t f hfly => ?_) (by rw [hperform.frame]) (by simp [RoleNote.IsCalm])
    · rcases hperform.slots with heq | heq
      · exact .inl heq
      · exact .inr ⟨_, heq⟩
    · obtain ⟨c, hm, hphase⟩ := hfly
      refine ⟨c, ?_, hphase⟩
      rw [hperform.frame] at hm
      exact hm
  | tick => exact .calm (.inl rfl) (fun _ _ _ _ hfly => hfly) rfl (by simp)

/-! ### Mutexes and numbers -/

/-- The run shows that a fetch succeeded. -/
def Succeeded (h : List RoleNote) (f : ℕ) : Prop :=
  ∃ lookup t holders, .fetched f lookup t holders ∈ h

/-- The run shows that a fetch failed, or was timed out. -/
def Failed (h : List RoleNote) (f : ℕ) : Prop := ∃ error, .failed f error ∈ h

/-- The run shows the end of a fetch. -/
def Ended (h : List RoleNote) (f : ℕ) : Prop := Succeeded h f ∨ Failed h f

theorem succeeded_append : Succeeded (h ++ notes) f ↔ Succeeded h f ∨ Succeeded notes f := by
  simp only [Succeeded, List.mem_append, exists_or]

theorem failed_append : Failed (h ++ notes) f ↔ Failed h f ∨ Failed notes f := by
  simp only [Failed, List.mem_append, exists_or]

theorem ended_append : Ended (h ++ notes) f ↔ Ended h f ∨ Ended notes f := by
  rw [Ended, succeeded_append, failed_append]
  exact or_or_or_comm

/-- No note of these is of the end of a fetch. -/
theorem not_ended_of_calm (hnotes : ∀ note ∈ notes, note.IsCalm) : ¬ Ended notes f := by
  rintro (⟨lookup, t, holders, hmem⟩ | ⟨error, hmem⟩)
  · exact hnotes _ hmem
  · exact hnotes _ hmem

theorem not_ended_answered (hnotes : ∀ note ∈ notes, note.IsCalm) :
    ¬ Ended (.answered n lookup entry t :: notes) f := by
  rintro (⟨_, _, _, hmem⟩ | ⟨_, hmem⟩)
  · exact hnotes _ (by simpa using hmem)
  · exact hnotes _ (by simpa using hmem)

/-- The outcome of a fetch is the end of no other. -/
theorem eq_of_ended {note : RoleNote}
    (hnote : (∃ holders users, note = .fetched entry.fetch lookup entry.fetchedAt holders ∧
        fetch lookup (.ok holders) = .ok users ∧ entry.holders = some users) ∨
      ∃ error, note = .failed entry.fetch error ∧ entry.holders = none)
    (he : Ended [note] f) : f = entry.fetch := by
  rcases hnote with ⟨holders, users, rfl, -, -⟩ | ⟨error, rfl, -⟩
  · rcases he with ⟨_, _, _, hmem⟩ | ⟨_, hmem⟩
    · simp only [List.mem_singleton, RoleNote.fetched.injEq] at hmem
      exact hmem.1
    · simp at hmem
  · rcases he with ⟨_, _, _, hmem⟩ | ⟨_, hmem⟩
    · simp at hmem
    · simp only [List.mem_singleton, RoleNote.failed.injEq] at hmem
      exact hmem.1

/-- The mutex of every fetch in flight is held by it alone, and its number is its own. -/
structure Exclusive (h : List RoleNote) (d : RoleDirectory) : Prop where
  locked : ∀ n i t f, d.Flying n i t f → ∃ slot, d.slots[i]? = some slot ∧ slot.locked = true
  alone : ∀ n m i t t' f f', d.Flying n i t f → d.Flying m i t' f' → n = m
  flying : ∀ n i t f, d.Flying n i t f → f < d.fetches ∧ ¬ Ended h f ∧ t ≤ d.now
  distinct : ∀ n m i j t t' f, d.Flying n i t f → d.Flying m j t' f → n = m
  ended : ∀ f, Ended h f → f < d.fetches

/-- Nobody holds a mutex that is free. -/
theorem Exclusive.not_flying (hx : Exclusive h d) (hslot : d.slots[i]? = some slot)
    (hfree : slot.locked = false) : ¬ d.Flying n i t f := by
  intro hfly
  obtain ⟨slot', hslot', hlocked⟩ := hx.locked n i t f hfly
  rw [Option.some.inj (hslot.symm.trans hslot'), hlocked] at hfree
  cases hfree

/-- Nothing is taken or released. -/
theorem Exclusive.calm (hx : Exclusive h d)
    (hslots : d'.slots = d.slots ∨ ∃ lookup, d'.slots = d.slots ++ [{ lookup := lookup }])
    (hflying : ∀ m j t f, d'.Flying m j t f → d.Flying m j t f)
    (hfetches : d'.fetches = d.fetches) (hnow : d.now ≤ d'.now)
    (hended : ∀ f, ¬ Ended notes f) : Exclusive (h ++ notes) d' where
  locked := by
    intro n i t f hfly
    obtain ⟨slot, hslot, hlocked⟩ := hx.locked n i t f (hflying n i t f hfly)
    refine ⟨slot, ?_, hlocked⟩
    -- A slot that is appended leaves those before it where they are.
    rcases hslots with heq | ⟨lookup, heq⟩
    · rw [heq, hslot]
    · rw [heq, List.getElem?_append_left (List.getElem?_eq_some_iff.1 hslot).1, hslot]
  alone := fun n m i t t' f f' hn hm => hx.alone n m i t t' f f' (hflying _ _ _ _ hn)
    (hflying _ _ _ _ hm)
  flying := by
    intro n i t f hfly
    obtain ⟨hlt, hnot, hle⟩ := hx.flying n i t f (hflying n i t f hfly)
    refine ⟨by rw [hfetches]; exact hlt, fun he => ?_, hle.trans hnow⟩
    exact (ended_append.1 he).elim hnot (hended f)
  distinct := fun n m i j t t' f hn hm => hx.distinct n m i j t t' f (hflying _ _ _ _ hn)
    (hflying _ _ _ _ hm)
  ended := by
    intro f he
    rw [hfetches]
    exact (ended_append.1 he).elim (hx.ended f) fun he => absurd he (hended f)

/-- The mutex of a fetch is released, and the run may show its end. -/
theorem Exclusive.release (hx : Exclusive h d) (hfly : d.Flying n i t f) {new : Slot}
    (hslots : d'.slots = d.slots.set i new)
    (hflying : ∀ m j t f, d'.Flying m j t f → m ≠ n ∧ d.Flying m j t f)
    (hfetches : d'.fetches = d.fetches) (hnow : d.now ≤ d'.now)
    (hended : ∀ f', Ended notes f' → f' = f) : Exclusive (h ++ notes) d' where
  locked := by
    intro m j t' f' hm
    obtain ⟨hne, hm⟩ := hflying m j t' f' hm
    obtain ⟨slot, hslot, hlocked⟩ := hx.locked m j t' f' hm
    -- The slot of another flight is another slot, for no two have one mutex.
    have hij : i ≠ j := by
      rintro rfl
      exact hne (hx.alone m n i t' t f' f hm hfly)
    exact ⟨slot, by rw [hslots, List.getElem?_set_ne hij, hslot], hlocked⟩
  alone := fun n m i t t' f f' hn hm => hx.alone n m i t t' f f' (hflying _ _ _ _ hn).2
    (hflying _ _ _ _ hm).2
  flying := by
    intro m j t' f' hm
    obtain ⟨hne, hm⟩ := hflying m j t' f' hm
    obtain ⟨hlt, hnot, hle⟩ := hx.flying m j t' f' hm
    refine ⟨by rw [hfetches]; exact hlt, fun he => ?_, hle.trans hnow⟩
    -- What had ended before was not in flight, and what ends now is the call's own fetch.
    rcases ended_append.1 he with he | he
    · exact hnot he
    · obtain rfl := hended f' he
      exact hne (hx.distinct m n j i t' t f' hm hfly)
  distinct := fun n m i j t t' f hn hm => hx.distinct n m i j t t' f (hflying _ _ _ _ hn).2
    (hflying _ _ _ _ hm).2
  ended := by
    intro f' he
    rw [hfetches]
    rcases ended_append.1 he with he | he
    · exact hx.ended f' he
    · rw [hended f' he]
      exact (hx.flying n i t f hfly).1

/-- A free mutex is taken for a new fetch. -/
theorem Exclusive.acquire (hx : Exclusive h d) (hslot : d.slots[i]? = some slot)
    (hfree : slot.locked = false) (hslots : d'.slots = d.slots.set i { slot with locked := true })
    (hflying : ∀ m j t f, d'.Flying m j t f →
      m = n ∧ j = i ∧ t = d.now ∧ f = d.fetches ∨ m ≠ n ∧ d.Flying m j t f)
    (hfetches : d'.fetches = d.fetches + 1) (hnow : d.now ≤ d'.now)
    (hended : ∀ f, ¬ Ended notes f) : Exclusive (h ++ notes) d' where
  locked := by
    intro m j t f hm
    rcases hflying m j t f hm with ⟨-, rfl, -, -⟩ | ⟨-, hm⟩
    · -- The call itself, whose slot is locked now.
      exact ⟨_, by rw [hslots, List.getElem?_set_self (List.getElem?_eq_some_iff.1 hslot).1], rfl⟩
    · -- Another call in flight, whose slot is not the one that was free.
      obtain ⟨slot', hslot', hlocked⟩ := hx.locked m j t f hm
      have hij : i ≠ j := by
        rintro rfl
        exact hx.not_flying hslot hfree hm
      exact ⟨slot', by rw [hslots, List.getElem?_set_ne hij, hslot'], hlocked⟩
  alone := by
    intro k m j t t' f f' hk hm
    rcases hflying k j t f hk with ⟨rfl, rfl, -, -⟩ | ⟨-, hk⟩
    · rcases hflying m j t' f' hm with ⟨rfl, -, -, -⟩ | ⟨-, hm⟩
      · rfl
      · exact absurd hm (hx.not_flying hslot hfree)
    · rcases hflying m j t' f' hm with ⟨rfl, rfl, -, -⟩ | ⟨-, hm⟩
      · exact absurd hk (hx.not_flying hslot hfree)
      · exact hx.alone k m j t t' f f' hk hm
  flying := by
    intro m j t f hm
    rw [hfetches]
    rcases hflying m j t f hm with ⟨-, -, rfl, rfl⟩ | ⟨-, hm⟩
    · refine ⟨Nat.lt_succ_self _, fun he => ?_, hnow⟩
      rcases ended_append.1 he with he | he
      · exact Nat.lt_irrefl _ (hx.ended _ he)
      · exact hended _ he
    · obtain ⟨hlt, hnot, hle⟩ := hx.flying m j t f hm
      refine ⟨Nat.lt_succ_of_lt hlt, fun he => ?_, hle.trans hnow⟩
      exact (ended_append.1 he).elim hnot (hended f)
  distinct := by
    intro k m j j' t t' f hk hm
    rcases hflying k j t f hk with ⟨rfl, -, -, hf⟩ | ⟨-, hk⟩
    · rcases hflying m j' t' f hm with ⟨rfl, -, -, -⟩ | ⟨-, hm⟩
      · rfl
      · exact absurd hf (hx.flying m j' t' f hm).1.ne
    · rcases hflying m j' t' f hm with ⟨-, -, -, hf⟩ | ⟨-, hm⟩
      · exact absurd hf (hx.flying k j t f hk).1.ne
      · exact hx.distinct k m j j' t t' f hk hm
  ended := by
    intro f he
    rw [hfetches]
    rcases ended_append.1 he with he | he
    · exact Nat.lt_succ_of_lt (hx.ended f he)
    · exact absurd he (hended f)

/-- What one step preserves. -/
theorem Exclusive.step (hx : Exclusive h d) (hnow : d.now ≤ d'.now)
    (hturns : Turns input d d' notes) : Exclusive (h ++ notes) d' := by
  cases hturns with
  | calm hslots hflying hfetches hnotes =>
    exact hx.calm hslots hflying hfetches hnow fun f => not_ended_of_calm hnotes
  | hits hasks hslot hlocked hentry hslots hflying hfetches hnotes =>
    exact hx.calm (.inl hslots) hflying hfetches hnow fun f => not_ended_answered hnotes
  | starts hasks hslot hlocked hstale hslots hflying hfetches =>
    refine hx.acquire hslot hlocked hslots hflying hfetches hnow fun f he => ?_
    rcases he with ⟨_, _, _, hmem⟩ | ⟨_, hmem⟩
    · simp at hmem
    · simp at hmem
  | ends hasks hslot hslots hflying hfetches hnote hnotes =>
    refine hx.release hasks.flying hslots hflying hfetches hnow fun f he => ?_
    rw [← List.singleton_append] at he
    rcases ended_append.1 he with he | he
    · exact eq_of_ended hnote he
    · exact absurd he (not_ended_answered hnotes)
  | abandons hinput hasks hslot hslots hflying hfetches =>
    refine hx.release hasks.flying hslots hflying hfetches hnow fun f he => ?_
    exact absurd he (not_ended_of_calm (by simp))

/-- **In every run one fetch a slot is in flight.** -/
theorem exclusive_of_run (hrun : Run step (init config) h d) : Exclusive h d := by
  refine hrun.invariant_of (J := Sound) (I := Exclusive) sound_of_run ?_ fun hs hx hstep =>
    hx.step (later_move (moves_of_step hstep)).now (turns_of_step hs hstep)
  have hnone : ∀ n i t f, ¬ (init config).Flying n i t f := by
    rintro n i t f ⟨check, hcheck, -⟩
    simp [init] at hcheck
  exact ⟨fun n i t f hfly => absurd hfly (hnone n i t f),
    fun n m i t t' f f' hfly => absurd hfly (hnone n i t f),
    fun n i t f hfly => absurd hfly (hnone n i t f),
    fun n m i j t t' f hfly => absurd hfly (hnone n i t f),
    fun f he => absurd he (not_ended_of_calm (by simp))⟩

end RoleDirectory
end RocketSocket
