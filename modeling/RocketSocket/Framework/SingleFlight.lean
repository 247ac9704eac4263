import RocketSocket.Framework.Flights

/-!
# Role lookups are single-flight

A lookup that finds no fresh answer fetches one while it holds the mutex of its slot, and
whoever queues behind it finds that answer.  So while the slot of a key is not replaced and
no fetch of the key is dropped half-way, its fetches follow each other at the pace of the
time to live, and every lookup returns what the last of them brought.

## Main definitions

* `Latest`, `Outcome` — the last fetch of a key, and what it brought.
* `Undisturbed` — the runs in question.
* `Keyed` — their invariant.

## Main results

* `Keyed.step` — what one step preserves.
* `single_flight` — **one fetch a key is in flight**, fetches are spaced, and answers are those
  of the last fetch.
-/

namespace RocketSocket

open Machine

namespace RoleDirectory

variable {d d' : RoleDirectory} {h h' notes : List RoleNote} {input : RoleInput}
  {n m i j f : ℕ} {check c : Check} {key lookup : Lookup} {rest : List Lookup} {slot : Slot}
  {entry : RoleEntry} {t : Instant} {phase : CheckPhase} {config : RoleCacheConfig}

/-! ### The last fetch of a key -/

/-- None of these notes is of a fetch of the key being started. -/
def NoFetch (key : Lookup) (h : List RoleNote) : Prop := ∀ f n t, .started f n key t ∉ h

/-- The last fetch of the key was started at `t`. -/
def Latest (key : Lookup) (h : List RoleNote) (f : ℕ) (t : Instant) : Prop :=
  ∃ pre n post, h = pre ++ .started f n key t :: post ∧ NoFetch key post

/-- The entry is what its fetch brought: the holders it listed, or that it failed. -/
def Outcome (key : Lookup) (h : List RoleNote) (entry : RoleEntry) : Prop :=
  (∃ holders users, .fetched entry.fetch key entry.fetchedAt holders ∈ h ∧
    fetch key (.ok holders) = .ok users ∧ entry.holders = some users ∧ ¬ Failed h entry.fetch) ∨
  Failed h entry.fetch ∧ entry.holders = none ∧ ¬ Succeeded h entry.fetch

theorem noFetch_append : NoFetch key (h ++ notes) ↔ NoFetch key h ∧ NoFetch key notes := by
  simp only [NoFetch, List.mem_append, not_or, forall_and]

theorem Latest.append (hl : Latest key h f t) (hnotes : NoFetch key notes) :
    Latest key (h ++ notes) f t := by
  obtain ⟨pre, n, post, rfl, hpost⟩ := hl
  exact ⟨pre, n, post ++ notes, by simp, noFetch_append.2 ⟨hpost, hnotes⟩⟩

/-- There is only one last fetch. -/
theorem Latest.unique (hl : Latest key h f t) {f' : ℕ} {t' : Instant} (hl' : Latest key h f' t') :
    f = f' ∧ t = t' := by
  obtain ⟨pre, n, post, rfl, hpost⟩ := hl
  obtain ⟨pre', n', post', heq, hpost'⟩ := hl'
  rcases List.append_eq_append_iff.1 heq with ⟨l, rfl, hl⟩ | ⟨l, rfl, hl⟩
  · cases l with
    | nil =>
      simp only [List.nil_append, List.cons.injEq, RoleNote.started.injEq] at hl
      exact ⟨hl.1.1, hl.1.2.2.2⟩
    | cons x l =>
      obtain ⟨rfl, rfl⟩ := List.cons.inj hl
      exact absurd (by simp) (hpost f' n' t')
  · cases l with
    | nil =>
      simp only [List.nil_append, List.cons.injEq, RoleNote.started.injEq] at hl
      exact ⟨hl.1.1.symm, hl.1.2.2.2.symm⟩
    | cons x l =>
      obtain ⟨rfl, rfl⟩ := List.cons.inj hl
      exact absurd (by simp) (hpost' f n t)

theorem Latest.mem (hl : Latest key h f t) : ∃ n, .started f n key t ∈ h := by
  obtain ⟨pre, n, post, rfl, -⟩ := hl
  exact ⟨n, by simp⟩

theorem Outcome.ended (ho : Outcome key h entry) : Ended h entry.fetch := by
  rcases ho with ⟨holders, users, hmem, -⟩ | ⟨hfailed, -⟩
  · exact .inl ⟨_, _, _, hmem⟩
  · exact .inr hfailed

/-- What a fetch brought stays what it brought. -/
theorem Outcome.append (ho : Outcome key h entry) (hnotes : ¬ Ended notes entry.fetch) :
    Outcome key (h ++ notes) entry := by
  rcases ho with ⟨holders, users, hmem, hfetch, hentry, hnot⟩ | ⟨hfailed, hentry, hnot⟩
  · refine .inl ⟨holders, users, List.mem_append_left _ hmem, hfetch, hentry, fun hf => ?_⟩
    exact (failed_append.1 hf).elim hnot fun hf => hnotes (.inr hf)
  · refine .inr ⟨failed_append.2 (.inl hfailed), hentry, fun hs => ?_⟩
    exact (succeeded_append.1 hs).elim hnot fun hs => hnotes (.inl hs)

/-- The end of a fetch. -/
theorem Outcome.of_end {note : RoleNote} (hnot : ¬ Ended h entry.fetch)
    (hnote : (∃ holders users, note = .fetched entry.fetch key entry.fetchedAt holders ∧
        fetch key (.ok holders) = .ok users ∧ entry.holders = some users) ∨
      ∃ error, note = .failed entry.fetch error ∧ entry.holders = none) :
    Outcome key (h ++ [note]) entry := by
  rcases hnote with ⟨holders, users, rfl, hfetch, hentry⟩ | ⟨error, rfl, hentry⟩
  · refine .inl ⟨holders, users, by simp, hfetch, hentry, fun hf => ?_⟩
    rcases failed_append.1 hf with hf | ⟨error, hmem⟩
    · exact hnot (.inr hf)
    · simp at hmem
  · refine .inr ⟨⟨error, by simp⟩, hentry, fun hs => ?_⟩
    rcases succeeded_append.1 hs with hs | ⟨_, _, _, hmem⟩
    · exact hnot (.inl hs)
    · simp at hmem

end RoleDirectory

/-! ### Undisturbed runs -/

instance (drop : Drop) (lookup : Lookup) : Decidable (drop.Covers lookup) := by
  unfold Drop.Covers
  cases drop <;> infer_instance

namespace RoleDirectory

variable {d d' : RoleDirectory} {h h' notes : List RoleNote} {input : RoleInput}
  {n m i j f : ℕ} {check c : Check} {key lookup : Lookup} {rest : List Lookup} {slot : Slot}
  {entry : RoleEntry} {t : Instant} {phase : CheckPhase} {config : RoleCacheConfig}

/-- The input does not cancel a call in the middle of its fetch of the key, does not
invalidate the key, and does not evict its room. -/
def Undisturbed (key : Lookup) (d : RoleDirectory) : RoleInput → Prop
  | .cancel n => ∀ check ∈ d.checks[n]?, check.lookups.head? = some key →
    check.phase.inFlight = none
  | .drop k => ∀ drops ∈ d.invalidations[k]?, ∀ drop ∈ drops.head?, ¬ drop.Covers key
  | .obtain _ _ evicted => ∀ id ∈ evicted, key ≠ .room id
  | _ => True

instance (key : Lookup) (d : RoleDirectory) (input : RoleInput) :
    Decidable (Undisturbed key d input) := by
  cases input <;> unfold Undisturbed <;> infer_instance

/-- Evicting leaves a room that is not evicted as it is. -/
theorem lookup_evict_of_not_mem {maxRooms : ℕ} {rooms rooms' : Table RoomId RoomSlot}
    {evicted : List RoomId} (h : evict maxRooms rooms evicted = some rooms') {id : RoomId}
    (hid : id ∉ evicted) : rooms'.lookup id = rooms.lookup id := by
  induction evicted generalizing rooms with
  | nil =>
    unfold evict at h
    rw [Option.some.inj (Option.ite_none_left_eq_some.1 h).2]
  | cons coldest evicted ih =>
    unfold evict at h
    obtain ⟨hne, hid⟩ := List.ne_and_not_mem_of_not_mem_cons hid
    rw [ih (Option.ite_none_right_eq_some.1 h).2 hid, Finmap.lookup_erase_ne hne]

/-- Obtaining a slot of another lookup. -/
theorem currentSlot_slotFor_of_ne {reading : Instant} {evicted : List RoomId}
    (h : d.slotFor reading evicted lookup = some (i, d')) (hne : key ≠ lookup)
    (hkey : ∀ id ∈ evicted, key ≠ .room id) : d'.currentSlot key = d.currentSlot key := by
  have hobtains := obtains_slotFor h
  cases key with
  | global =>
    rw [hobtains.frame]
    rfl
  | room id =>
    cases lookup with
    | global =>
      -- The global lookup does not write the map of rooms.
      obtain ⟨-, hd⟩ := Option.ite_none_right_eq_some.1 h
      rw [← (Prod.mk.inj (Option.some.inj hd)).2]
    | room other =>
      have hid : id ≠ other := fun heq => hne (by rw [heq])
      change d.roomSlot other reading evicted = some (i, d') at h
      unfold roomSlot at h
      split at h
      · -- The other room has a slot, and only its touch is written.
        obtain ⟨-, hd⟩ := Option.ite_none_right_eq_some.1 h
        rw [← (Prod.mk.inj (Option.some.inj hd)).2]
        show (Finmap.lookup id (d.rooms.insert _ _)).map _ = _
        rw [Finmap.lookup_insert_of_ne _ hid]
        rfl
      · -- The other room has none, and the key is not among those put out.
        obtain ⟨rooms, hevict, hd⟩ := Option.map_eq_some_iff.1 h
        obtain ⟨-, rfl⟩ := Prod.mk.inj hd
        show (Finmap.lookup id (rooms.insert _ _)).map _ = _
        rw [Finmap.lookup_insert_of_ne _ hid,
          lookup_evict_of_not_mem hevict fun hmem => hkey id hmem rfl]
        rfl

/-- Obtaining the slot of the lookup: the slot it has, or its first. -/
theorem currentSlot_slotFor {reading : Instant} {evicted : List RoomId}
    (h : d.slotFor reading evicted key = some (i, d')) : d'.currentSlot key = d.currentSlot key ∨
      d.currentSlot key = none ∧ d'.currentSlot key = some d.slots.length ∧
        d'.slots = d.slots ++ [{ lookup := key }] := by
  cases key with
  | global =>
    obtain ⟨-, hd⟩ := Option.ite_none_right_eq_some.1 h
    exact .inl (by rw [← (Prod.mk.inj (Option.some.inj hd)).2])
  | room id =>
    change d.roomSlot id reading evicted = some (i, d') at h
    unfold roomSlot at h
    split at h
    · -- The room has a slot, which stays its own.
      next existing hexisting =>
      obtain ⟨-, hd⟩ := Option.ite_none_right_eq_some.1 h
      rw [← (Prod.mk.inj (Option.some.inj hd)).2]
      exact .inl (by simp [currentSlot, hexisting])
    · -- The room has none, so this is its first.
      next hnone =>
      obtain ⟨rooms, -, hd⟩ := Option.map_eq_some_iff.1 h
      obtain ⟨-, rfl⟩ := Prod.mk.inj hd
      exact .inr ⟨by simp [currentSlot, hnone], by simp [currentSlot], rfl⟩

/-- The slot of a key that is not disturbed is its first for good. -/
theorem currentSlot_undisturbed (hcalm : Undisturbed key d input) (hmove : Moves d input d' notes) :
    d'.currentSlot key = d.currentSlot key ∨ d.currentSlot key = none ∧
      d'.currentSlot key = some d.slots.length ∧ d'.slots = d.slots ++ [{ lookup := key }] := by
  -- What ends a check, and what stores an answer, does not reassign a slot.
  have hconclude : ∀ (d : RoleDirectory) n check lookup rest entry,
      (d.conclude n check lookup rest entry).1.currentSlot key = d.currentSlot key := by
    intro d n check lookup rest entry
    rw [conclude_frame]
    cases key <;> rfl
  have hstore : ∀ n check lookup rest i slot entry,
      (d.store n check lookup rest i slot entry).1.currentSlot key = d.currentSlot key := by
    intro n check lookup rest i slot entry
    unfold store
    rw [hconclude]
    cases key <;> rfl
  cases hmove with
  | ask question =>
    obtain ⟨new, -, -, heq⟩ := ask_eq d question
    rw [heq]
    exact .inl (by cases key <;> rfl)
  | @obtain n i check lookup rest reading evicted d₁ hcheck hlookups hphase hslot =>
    have hset : (d₁.setCheck n { check with phase := .queued i }).currentSlot key =
        d₁.currentSlot key := by
      cases key <;> rfl
    rw [hset]
    -- The lookup is for the key itself, or for another that does not put it out.
    by_cases hkey : key = lookup
    · subst hkey
      exact currentSlot_slotFor hslot
    · exact .inl (currentSlot_slotFor_of_ne hslot hkey hcalm)
  | cached => exact .inl (hconclude ..)
  | start => exact .inl (by cases key <;> rfl)
  | answer => exact .inl (hstore ..)
  | expire => exact .inl (hstore ..)
  | @cancel n check hcheck =>
    left
    rcases abandon_eq d n check with heq | ⟨i, slot, -, heq⟩
    · rw [heq]
      cases key <;> rfl
    · rw [heq]
      cases key <;> rfl
  | invalidate => exact .inl (by cases key <;> rfl)
  | @drop k drop drops hdrops =>
    have hcovers : ¬ drop.Covers key := hcalm _ hdrops _ rfl
    left
    rw [← (drops_performDrop d drop).others key hcovers]
    cases key <;> rfl
  | tick => exact .inl (by cases key <;> rfl)

/-- A call at a slot was there before, or has just obtained it. -/
theorem asks_move (hmove : Moves d input d' notes) (hasks : d'.Asks m key phase)
    (hslot : phase.slot = some j) :
    (∃ phase', d.Asks m key phase' ∧ phase'.slot = some j) ∨ d'.currentSlot key = some j := by
  obtain ⟨c', rest', hm, hl, rfl⟩ := hasks
  -- The checks of other callers stay as they are.
  have hother : ∀ {n : ℕ} {c : Check}, d'.checks = d.checks.set n c → c.phase.slot = none →
      ∃ phase', d.Asks m key phase' ∧ phase'.slot = some j := by
    intro n c hchecks haway
    rw [hchecks] at hm
    rcases getElem?_of_set hm with ⟨-, rfl⟩ | ⟨-, hm⟩
    · rw [haway] at hslot
      cases hslot
    · exact ⟨_, ⟨c', rest', hm, hl, rfl⟩, hslot⟩
  have hconclude : ∀ {d₁ : RoleDirectory} {n check lookup rest entry},
      d' = (d₁.conclude n check lookup rest entry).1 → d₁.checks = d.checks →
      ∃ phase', d.Asks m key phase' ∧ phase'.slot = some j := by
    intro d₁ n check lookup rest entry hd' hchecks
    obtain ⟨phase, haway, heq⟩ := conclude_eq d₁ n check lookup rest entry
    exact hother (c := { check with lookups := rest, phase := phase })
      (by rw [hd', heq, setCheck, hchecks]) haway
  cases hmove with
  | ask question =>
    obtain ⟨new, -, haway, heq⟩ := ask_eq d question
    rw [heq] at hm
    rcases getElem?_of_concat hm with ⟨-, rfl⟩ | hm
    · rw [haway] at hslot
      cases hslot
    · exact .inl ⟨_, ⟨c', rest', hm, hl, rfl⟩, hslot⟩
  | @obtain n i check lookup rest reading evicted d₁ hcheck hlookups hphase hslotFor =>
    have hobtains := obtains_slotFor hslotFor
    have hchecks : d₁.checks = d.checks := by rw [hobtains.frame]
    rw [setCheck, hchecks] at hm
    rcases getElem?_of_set hm with ⟨-, rfl⟩ | ⟨-, hm⟩
    -- The call that obtains the slot, which is the current one of its key.
    · obtain rfl : i = j := Option.some.inj hslot
      obtain ⟨rfl, -⟩ := List.cons.inj (hlookups.symm.trans hl)
      right
      rw [← hobtains.current]
      cases lookup <;> rfl
    · exact .inl ⟨_, ⟨c', rest', hm, hl, rfl⟩, hslot⟩
  | cached => exact .inl (hconclude rfl rfl)
  | @start n i check lookup rest slot hcheck hlookups hphase hslot' hlocked =>
    left
    change (d.checks.set n _)[m]? = some c' at hm
    rcases getElem?_of_set hm with ⟨rfl, rfl⟩ | ⟨-, hm⟩
    · exact ⟨.queued i, ⟨check, rest', hcheck, hl, hphase⟩, hslot⟩
    · exact ⟨_, ⟨c', rest', hm, hl, rfl⟩, hslot⟩
  | answer => exact .inl (hconclude rfl rfl)
  | expire => exact .inl (hconclude rfl rfl)
  | @cancel n check hcheck =>
    rcases abandon_eq d n check with heq | ⟨i, slot, -, heq⟩
    · exact .inl (hother (n := n) (c := { check with phase := .cancelled }) (by rw [heq]; rfl) rfl)
    · exact .inl (hother (n := n) (c := { check with phase := .cancelled }) (by rw [heq]; rfl) rfl)
  | invalidate => exact .inl ⟨_, ⟨c', rest', hm, hl, rfl⟩, hslot⟩
  | @drop k drop drops hdrops =>
    rw [(drops_performDrop d drop).frame] at hm
    exact .inl ⟨_, ⟨c', rest', hm, hl, rfl⟩, hslot⟩
  | tick => exact .inl ⟨_, ⟨c', rest', hm, hl, rfl⟩, hslot⟩

/-- The invariant of an undisturbed key.  Its calls are at its slot; a fetch in flight is the
last one; and where none is, the slot holds what the last one brought. -/
structure Keyed (key : Lookup) (h : List RoleNote) (d : RoleDirectory) : Prop where
  standing : ∀ n phase i, d.Asks n key phase → phase.slot = some i → d.currentSlot key = some i
  unused : d.currentSlot key = none → NoFetch key h
  flying : ∀ i n t f, d.currentSlot key = some i → d.Flying n i t f → Latest key h f t
  idle : ∀ i slot, d.currentSlot key = some i → d.slots[i]? = some slot → slot.locked = false →
    slot.entry = none ∧ NoFetch key h ∨
    ∃ entry, slot.entry = some entry ∧ Latest key h entry.fetch entry.fetchedAt ∧
      entry.fetchedAt ≤ d.now ∧ Outcome key h entry

/-- What a step that does not disturb the key does to its slot and its calls. -/
structure Keeps (key : Lookup) (d d' : RoleDirectory) : Prop where
  current : d'.currentSlot key = d.currentSlot key ∨ d.currentSlot key = none ∧
    d'.currentSlot key = some d.slots.length ∧ d'.slots = d.slots ++ [{ lookup := key }]
  standing : ∀ n phase i, d'.Asks n key phase → phase.slot = some i → d'.currentSlot key = some i
  now : d.now ≤ d'.now

/-- The slot of a key stays. -/
theorem currentSlot_keep (hcurrent : d'.currentSlot key = d.currentSlot key ∨
      d.currentSlot key = none ∧ d'.currentSlot key = some d.slots.length ∧
        d'.slots = d.slots ++ [{ lookup := key }])
    (hi : d.currentSlot key = some i) : d'.currentSlot key = some i := by
  rcases hcurrent with heq | ⟨hnone, -⟩
  · rw [heq, hi]
  · rw [hnone] at hi
    cases hi

theorem Keyed.keeps (hk : Keyed key h d) (hcalm : Undisturbed key d input)
    (hmove : Moves d input d' notes) : Keeps key d d' := by
  have hcurrent := currentSlot_undisturbed hcalm hmove
  refine ⟨hcurrent, fun n phase i hasks hslot => ?_, (later_move hmove).now⟩
  rcases asks_move hmove hasks hslot with ⟨phase', hasks', hslot'⟩ | hi
  · exact currentSlot_keep hcurrent (hk.standing n phase' i hasks' hslot')
  · exact hi

/-- A step that is not at the slot of the key. -/
theorem Keyed.elsewhere (hk : Keyed key h d) (hs : Sound h d) (hx : Exclusive h d)
    (hkeeps : Keeps key d d')
    (hslots : ∀ (i : ℕ) (slot slot' : Slot), d.slots[i]? = some slot → slot.lookup = key →
      d'.slots[i]? = some slot' → slot' = slot)
    (hflying : ∀ i n t f, (∀ slot : Slot, d.slots[i]? = some slot → slot.lookup = key) →
      d'.Flying n i t f → d.Flying n i t f)
    (hnotes : NoFetch key notes)
    (hended : ∀ entry, Outcome key h entry → ¬ Ended notes entry.fetch) :
    Keyed key (h ++ notes) d' := by
  have hkey : ∀ i, d.currentSlot key = some i → ∀ slot : Slot, d.slots[i]? = some slot →
      slot.lookup = key := by
    intro i hi slot hslot
    obtain ⟨slot', hslot', hl⟩ := hs.current key i hi
    rw [Option.some.inj (hslot.symm.trans hslot'), hl]
  rcases hkeeps.current with heq | ⟨hnone, hsome, hnew⟩
  · refine ⟨hkeeps.standing, fun hnone => ?_, fun i n t f hi hfly => ?_,
      fun i slot hi hslot hfree => ?_⟩
    · exact noFetch_append.2 ⟨hk.unused (heq ▸ hnone), hnotes⟩
    · rw [heq] at hi
      exact (hk.flying i n t f hi (hflying i n t f (hkey i hi) hfly)).append hnotes
    · rw [heq] at hi
      obtain ⟨old, hold, hl⟩ := hs.current key i hi
      obtain rfl := hslots i old slot hold hl hslot
      rcases hk.idle i slot hi hold hfree with ⟨hentry, hno⟩ | ⟨e, hentry, hlatest, hle, hout⟩
      · exact .inl ⟨hentry, noFetch_append.2 ⟨hno, hnotes⟩⟩
      · exact .inr ⟨e, hentry, hlatest.append hnotes, hle.trans hkeeps.now,
          hout.append (hended e hout)⟩
  · -- The key gets its first slot, which is empty and held by nobody.
    refine ⟨hkeeps.standing, fun hnone' => ?_, fun i n t f hi hfly => ?_,
      fun i slot hi hslot hfree => ?_⟩
    · rw [hsome] at hnone'
      cases hnone'
    · obtain rfl : d.slots.length = i := Option.some.inj (hsome.symm.trans hi)
      have hold := hflying _ n t f (fun slot hslot => by simp at hslot) hfly
      obtain ⟨slot, hslot, -⟩ := hx.locked n _ t f hold
      simp at hslot
    · obtain rfl : d.slots.length = i := Option.some.inj (hsome.symm.trans hi)
      rw [hnew, List.getElem?_concat_length] at hslot
      obtain rfl := Option.some.inj hslot
      exact .inl ⟨rfl, noFetch_append.2 ⟨hk.unused hnone, hnotes⟩⟩

/-- A fetch of the key is started. -/
theorem Keyed.starts (hx : Exclusive h d) (hkeeps : Keeps key d d')
    (hi : d.currentSlot key = some i) (hslot : d.slots[i]? = some slot)
    (hlocked : slot.locked = false)
    (hslots : d'.slots = d.slots.set i { slot with locked := true })
    (hflying : ∀ m j t f, d'.Flying m j t f →
      m = n ∧ j = i ∧ t = d.now ∧ f = d.fetches ∨ m ≠ n ∧ d.Flying m j t f) :
    Keyed key (h ++ [.started d.fetches n key d.now]) d' := by
  have hi' := currentSlot_keep hkeeps.current hi
  refine ⟨hkeeps.standing, fun hnone => ?_, fun j m t f hj hfly => ?_,
    fun j slot' hj hslot' hfree => ?_⟩
  · rw [hi'] at hnone
    cases hnone
  · obtain rfl : i = j := Option.some.inj (hi'.symm.trans hj)
    rcases hflying m i t f hfly with ⟨-, -, rfl, rfl⟩ | ⟨-, hold⟩
    · exact ⟨h, n, [], rfl, by simp [NoFetch]⟩
    · exact absurd hold (hx.not_flying hslot hlocked)
  · obtain rfl : i = j := Option.some.inj (hi'.symm.trans hj)
    rw [hslots, List.getElem?_set_self (List.getElem?_eq_some_iff.1 hslot).1] at hslot'
    rw [← Option.some.inj hslot'] at hfree
    cases hfree

/-- A fetch of the key is over. -/
theorem Keyed.ends (hk : Keyed key h d) (hx : Exclusive h d) (hkeeps : Keeps key d d')
    (hi : d.currentSlot key = some i) (hslot : d.slots[i]? = some slot)
    (hfly : d.Flying n i entry.fetchedAt entry.fetch)
    (hslots : d'.slots = d.slots.set i { slot with entry := some entry, locked := false })
    (hflying : ∀ m j t f, d'.Flying m j t f → m ≠ n ∧ d.Flying m j t f)
    (hstarts : NoFetch key notes) (hout : Outcome key (h ++ notes) entry) :
    Keyed key (h ++ notes) d' := by
  have hi' := currentSlot_keep hkeeps.current hi
  refine ⟨hkeeps.standing, fun hnone => ?_, fun j m t f hj hfly' => ?_,
    fun j slot' hj hslot' _ => ?_⟩
  · rw [hi'] at hnone
    cases hnone
  · obtain rfl : i = j := Option.some.inj (hi'.symm.trans hj)
    obtain ⟨hne, hold⟩ := hflying m i t f hfly'
    exact absurd (hx.alone m n i t _ f _ hold hfly) hne
  · obtain rfl : i = j := Option.some.inj (hi'.symm.trans hj)
    rw [hslots, List.getElem?_set_self (List.getElem?_eq_some_iff.1 hslot).1] at hslot'
    obtain rfl := Option.some.inj hslot'
    exact .inr ⟨entry, rfl, (hk.flying i n _ _ hi hfly).append hstarts,
      (hx.flying _ _ _ _ hfly).2.2.trans hkeeps.now, hout⟩

theorem noFetch_of_calm (hnotes : ∀ note ∈ notes, note.IsCalm) : NoFetch key notes :=
  fun _ _ _ hmem => hnotes _ hmem

theorem noFetch_answered (hnotes : ∀ note ∈ notes, note.IsCalm) :
    NoFetch key (.answered n lookup entry t :: notes) := by
  intro f m t hmem
  exact hnotes (.started f m key t) (by simpa using hmem)

theorem noFetch_end {note : RoleNote} {more : List RoleNote}
    (hnote : (∃ holders users, note = .fetched entry.fetch lookup entry.fetchedAt holders ∧
        fetch lookup (.ok holders) = .ok users ∧ entry.holders = some users) ∨
      ∃ error, note = .failed entry.fetch error ∧ entry.holders = none)
    (hmore : NoFetch key more) : NoFetch key (note :: more) := by
  intro f m t hmem
  rcases List.mem_cons.1 hmem with heq | hmem
  · rcases hnote with ⟨holders, users, rfl, -⟩ | ⟨error, rfl, -⟩
    · cases heq
    · cases heq
  · exact hmore f m t hmem

/-- A slot of another key is not the slot of this one. -/
theorem set_ne {new slot' : Slot} {other : Slot} (hslots : d'.slots = d.slots.set i new)
    (hslot : d.slots[i]? = some slot) (hne : slot.lookup ≠ key) (hother : d.slots[j]? = some other)
    (hkey : other.lookup = key) (hslot' : d'.slots[j]? = some slot') : slot' = other := by
  have hij : i ≠ j := by
    rintro rfl
    rw [Option.some.inj (hslot.symm.trans hother)] at hne
    exact hne hkey
  rw [hslots, List.getElem?_set_ne hij] at hslot'
  exact Option.some.inj (hslot'.symm.trans hother)

/-- The end of another fetch is not that of one that has ended. -/
theorem not_ended_end {note : RoleNote} (hnot : ¬ Ended h entry.fetch)
    (hnote : (∃ holders users, note = .fetched entry.fetch lookup entry.fetchedAt holders ∧
        fetch lookup (.ok holders) = .ok users ∧ entry.holders = some users) ∨
      ∃ error, note = .failed entry.fetch error ∧ entry.holders = none)
    (hmore : ¬ Ended notes f) (hf : Ended h f) : ¬ Ended (note :: notes) f := by
  intro he
  rw [← List.singleton_append] at he
  rcases ended_append.1 he with he | he
  · exact hnot (eq_of_ended hnote he ▸ hf)
  · exact hmore he

/-- **What one step preserves.** -/
theorem Keyed.step (hk : Keyed key h d) (hs : Sound h d) (hx : Exclusive h d)
    (hcalm : Undisturbed key d input) (hstep : d.step input = some (d', notes)) :
    Keyed key (h ++ notes) d' := by
  have hkeeps := hk.keeps hcalm (moves_of_step hstep)
  cases turns_of_step hs hstep with
  | calm hslots hflying hfetches hnotes =>
    refine hk.elsewhere hs hx hkeeps (fun i slot slot' hslot _ hslot' => ?_)
      (fun i n t f _ => hflying n i t f) (noFetch_of_calm hnotes)
      fun e _ => not_ended_of_calm hnotes
    rcases hslots with heq | ⟨_, heq⟩
    · exact Option.some.inj ((heq ▸ hslot').symm.trans hslot)
    · rw [heq, List.getElem?_append_left (List.getElem?_eq_some_iff.1 hslot).1] at hslot'
      exact Option.some.inj (hslot'.symm.trans hslot)
  | hits hasks hslot hlocked hentry hslots hflying hfetches hnotes =>
    refine hk.elsewhere hs hx hkeeps (fun i slot slot' hslot _ hslot' => ?_)
      (fun i n t f _ => hflying n i t f) (noFetch_answered hnotes)
      fun e _ => not_ended_answered hnotes
    exact Option.some.inj ((hslots ▸ hslot').symm.trans hslot)
  | @starts n i lookup slot hasks hslot hlocked hstale hslots hflying hfetches =>
    have hlookup := hasks.lookup_eq hs rfl hslot
    -- A fetch for another key leaves the slot of this one as it is.
    by_cases hkey : lookup = key
    · subst hkey
      exact .starts hx hkeeps (hk.standing n _ i hasks rfl) hslot hlocked hslots hflying
    · refine hk.elsewhere hs hx hkeeps
        (fun j other slot' => set_ne hslots hslot (hlookup ▸ hkey)) (fun j m t f hj hfly => ?_)
        (fun f m t hmem => ?_) fun e _ he => ?_
      · rcases hflying m j t f hfly with ⟨-, rfl, -⟩ | ⟨-, hold⟩
        · exact absurd (hlookup ▸ hj slot hslot) hkey
        · exact hold
      · simp only [List.mem_singleton, RoleNote.started.injEq] at hmem
        exact hkey hmem.2.2.1.symm
      · rcases he with ⟨_, _, _, hmem⟩ | ⟨_, hmem⟩
        · simp at hmem
        · simp at hmem
  | @ends n i lookup slot entry note more hasks hslot hslots hflying hfetches hnote hmore =>
    have hlookup := hasks.lookup_eq hs rfl hslot
    have hnot := (hx.flying _ _ _ _ hasks.flying).2.1
    have hstarts : NoFetch key (note :: .answered n lookup entry d.now :: more) :=
      noFetch_end hnote (noFetch_answered hmore)
    by_cases hkey : lookup = key
    · subst hkey
      have hout : Outcome lookup (h ++ [note] ++ .answered n lookup entry d.now :: more) entry :=
        (Outcome.of_end hnot hnote).append (not_ended_answered hmore)
      rw [List.append_assoc] at hout
      exact hk.ends hx hkeeps (hk.standing n _ i hasks rfl) hslot hasks.flying hslots hflying
        hstarts hout
    · exact hk.elsewhere hs hx hkeeps
        (fun j other slot' => set_ne hslots hslot (hlookup ▸ hkey))
        (fun j m t f _ hfly => (hflying m j t f hfly).2) hstarts
        fun e hout => not_ended_end hnot hnote (not_ended_answered hmore) hout.ended
  | @abandons n i f t lookup slot hinput hasks hslot hslots hflying hfetches =>
    subst hinput
    have hlookup := hasks.lookup_eq hs rfl hslot
    -- No call for this key was disturbed.
    have hkey : lookup ≠ key := by
      rintro rfl
      obtain ⟨check, rest, hcheck, hlookups, hphase⟩ := hasks
      have hnone := hcalm check hcheck (by rw [hlookups]; rfl)
      rw [hphase] at hnone
      cases hnone
    exact hk.elsewhere hs hx hkeeps (fun j other slot' => set_ne hslots hslot (hlookup ▸ hkey))
      (fun j m t f _ hfly => (hflying m j t f hfly).2) (by simp [NoFetch])
      fun e _ => not_ended_of_calm (by simp)

theorem keyed_init (config : RoleCacheConfig) (key : Lookup) : Keyed key [] (init config) := by
  have hnone : ∀ n phase, ¬ (init config).Asks n key phase := by
    rintro n phase ⟨check, rest, hcheck, -⟩
    simp [init] at hcheck
  refine ⟨fun n phase i hasks => absurd hasks (hnone n phase), fun _ => by simp [NoFetch], ?_, ?_⟩
  · rintro i n t f - ⟨check, hcheck, -⟩
    simp [init] at hcheck
  · intro i slot hi hslot hfree
    left
    refine ⟨?_, by simp [NoFetch]⟩
    have hmem := List.mem_of_getElem? hslot
    rw [init, List.mem_singleton] at hmem
    rw [hmem]

/-! ### The pace of the fetches -/

/-- A fetch of the key starts after the last one has ended, and not too soon; and an answer is
what the last one brought. -/
def Spaced (config : RoleCacheConfig) (key : Lookup) (pre : List RoleNote) : RoleNote → Prop
  | .started _ _ lookup t' => lookup = key → ∀ f t, Latest key pre f t →
    (Succeeded pre f ∧ ¬ Failed pre f ∧ t + config.ttl ≤ t') ∨
      (Failed pre f ∧ ¬ Succeeded pre f ∧ t + config.failureTtl ≤ t')
  | .answered _ lookup entry _ => lookup = key →
    Latest key pre entry.fetch entry.fetchedAt ∧ Outcome key pre entry
  | _ => True

theorem spaced_of_calm (hnotes : ∀ note ∈ notes, note.IsCalm) :
    Each (fun pre => Spaced config key (h ++ pre)) notes := by
  rintro pre x post rfl
  have hcalm := hnotes x (by simp)
  cases x with
  | started => exact hcalm.elim
  | answered => exact hcalm.elim
  | _ => trivial

/-- A stale entry is as old as the time to live of its outcome. -/
theorem spaced_of_stale (hout : Outcome key h entry) (hle : entry.fetchedAt ≤ t)
    (hstale : entry.isFresh config t = false) :
    (Succeeded h entry.fetch ∧ ¬ Failed h entry.fetch ∧ entry.fetchedAt + config.ttl ≤ t) ∨
      (Failed h entry.fetch ∧ ¬ Succeeded h entry.fetch ∧
        entry.fetchedAt + config.failureTtl ≤ t) := by
  rw [RoleEntry.isFresh, decide_eq_false_iff_not, not_lt] at hstale
  rcases hout with ⟨holders, users, hmem, -, hentry, hnot⟩ | ⟨hfailed, hentry, hnot⟩
  · rw [hentry, Option.isSome_some, if_pos rfl] at hstale
    refine .inl ⟨⟨_, _, _, hmem⟩, hnot, ?_⟩
    rw [Nat.add_comm]
    exact Nat.add_le_of_le_sub hle hstale
  · rw [hentry, Option.isSome_none, if_neg (by simp)] at hstale
    refine .inr ⟨hfailed, hnot, ?_⟩
    rw [Nat.add_comm]
    exact Nat.add_le_of_le_sub hle hstale

/-- **What a step shows of the key.** -/
theorem spaced_step (hconfig : d.config = config) (hk : Keyed key h d) (hs : Sound h d)
    (hx : Exclusive h d) (hstep : d.step input = some (d', notes)) :
    Each (fun pre => Spaced config key (h ++ pre)) notes := by
  subst hconfig
  cases turns_of_step hs hstep with
  | calm hslots hflying hfetches hnotes => exact spaced_of_calm hnotes
  | @hits n i lookup slot entry more hasks hslot hlocked hentry hslots hflying hfetches hmore =>
    rw [← List.singleton_append]
    refine each_append.2 ⟨each_singleton.2 ?_, ?_⟩
    · -- The entry that is answered is what the latest fetch left there.
      rintro rfl
      rw [List.append_nil]
      rcases hk.idle i slot (hk.standing n _ i hasks rfl) hslot hlocked with
        ⟨hnone, -⟩ | ⟨e, he, hlatest, -, hout⟩
      · rw [hentry] at hnone
        cases hnone
      · obtain rfl := Option.some.inj (hentry.symm.trans he)
        exact ⟨hlatest, hout⟩
    · simp only [← List.append_assoc]
      exact spaced_of_calm hmore
  | @starts n i lookup slot hasks hslot hlocked hstale hslots hflying hfetches =>
    refine each_singleton.2 ?_
    rintro rfl f t hlatest
    rw [List.append_nil] at hlatest ⊢
    -- A fetch starts though one was made before: what that left is no longer fresh.
    rcases hk.idle i slot (hk.standing n _ i hasks rfl) hslot hlocked with
      ⟨-, hno⟩ | ⟨e, he, hlatest', hle, hout⟩
    · obtain ⟨m, hmem⟩ := hlatest.mem
      exact absurd hmem (hno f m t)
    · obtain ⟨rfl, rfl⟩ := hlatest.unique hlatest'
      exact spaced_of_stale hout hle (hstale e he)
  | @ends n i lookup slot entry note more hasks hslot hslots hflying hfetches hnote hmore =>
    have hfirst : note :: .answered n lookup entry d.now :: more =
        [note] ++ ([.answered n lookup entry d.now] ++ more) := rfl
    rw [hfirst]
    refine each_append.2 ⟨each_singleton.2 ?_, each_append.2 ⟨each_singleton.2 ?_, ?_⟩⟩
    · rcases hnote with ⟨holders, users, rfl, -⟩ | ⟨error, rfl, -⟩
      · trivial
      · trivial
    · rintro rfl
      rw [List.append_nil]
      have hlatest := hk.flying i n _ _ (hk.standing n _ i hasks rfl) hasks.flying
      exact ⟨hlatest.append (noFetch_end hnote (by simp [NoFetch])),
        .of_end (hx.flying _ _ _ _ hasks.flying).2.1 hnote⟩
    · simp only [← List.append_assoc]
      exact spaced_of_calm hmore
  | abandons => exact each_nil

/-- Every undisturbed run keeps the invariant of the key, and its fetches are spaced. -/
theorem keyed_of_run (hrun : Run (restrict (Undisturbed key) step) (init config) h d) :
    Keyed key h d ∧ Each (Spaced config key) h := by
  refine hrun.invariant_of
    (J := fun h d => Sound h d ∧ Exclusive h d ∧ d.config = config)
    (I := fun h d => Keyed key h d ∧ Each (Spaced config key) h)
    (fun hrun => ⟨sound_of_run hrun.of_restrict, exclusive_of_run hrun.of_restrict,
      config_of_run hrun.of_restrict⟩) ⟨keyed_init config key, each_nil⟩ ?_
  intro h d input d' notes hd hk hstep
  obtain ⟨hs, hx, hconfig⟩ := hd
  obtain ⟨hcalm, hstep⟩ := restrict_eq_some.1 hstep
  exact ⟨hk.1.step hs hx hcalm hstep,
    each_append.2 ⟨hk.2, spaced_step hconfig hk.1 hs hx hstep⟩⟩

/-- **Role lookups are single-flight and rate-bounded.**  In every run in which no call is
cancelled in the middle of its fetch of a key, the key is not invalidated and its room not
evicted: at any time one fetch of the key is in flight at most; when a fetch of it starts, the
one before has ended, and started the time to live earlier if it succeeded and the shorter one
if it failed; and what a lookup returns is what the last fetch of the key brought. -/
theorem single_flight (hrun : Run (restrict (Undisturbed key) step) (init config) h d) :
    (∀ n m i j t t' f f', d.Asks n key (.fetching i t f) → d.Asks m key (.fetching j t' f') →
      n = m) ∧
    Each (fun pre x => ∀ f' n t' f t, x = .started f' n key t' → Latest key pre f t →
      (Succeeded pre f ∧ ¬ Failed pre f ∧ t + config.ttl ≤ t') ∨
        (Failed pre f ∧ ¬ Succeeded pre f ∧ t + config.failureTtl ≤ t')) h ∧
    Each (fun pre x => ∀ n entry t, x = .answered n key entry t →
      Latest key pre entry.fetch entry.fetchedAt ∧ Outcome key pre entry) h := by
  obtain ⟨hk, hspaced⟩ := keyed_of_run hrun
  have hx := exclusive_of_run hrun.of_restrict
  refine ⟨fun n m i j t t' f f' hn hm => ?_, ?_, ?_⟩
  · have hi := hk.standing n _ i hn rfl
    have hj := hk.standing m _ j hm rfl
    obtain rfl : i = j := Option.some.inj (hi.symm.trans hj)
    exact hx.alone n m i t t' f f' hn.flying hm.flying
  · rintro pre x post hh f' n t' f t rfl hlatest
    exact hspaced pre _ post hh rfl f t hlatest
  · rintro pre x post hh n entry t rfl
    exact hspaced pre _ post hh rfl

/-- A leader fetches, another call queues behind it and finds its answer; the answer expires,
and a third call fetches anew, is queued behind, and is timed out. -/
def leads : List RoleInput :=
  let boss : UserId := ⟨"boss"⟩
  [.ask (.isAdmin boss), .ask (.isAdmin boss), .obtain 0 0 [], .obtain 1 0 [], .lock 0,
    .tick (.ofSecs 1), .answer 0 (.ok [⟨boss, [⟨"admin"⟩]⟩]), .lock 1, .tick (.ofSecs 299),
    .ask (.isAdmin boss), .ask (.isAdmin boss), .obtain 2 0 [], .lock 2, .obtain 3 0 [],
    .tick (.ofSecs 5), .expire 2, .lock 3]

theorem leads_enabled :
    (execute (restrict (Undisturbed .global) step) (init {}) leads).isSome := by
  decide +kernel

/-- The two fetches of the run are the time to live apart, and the last call returns what the
second brought. -/
theorem single_flight_leads : ∃ (h : List RoleNote) (d : RoleDirectory),
    Run (restrict (Undisturbed .global) step) (init {}) h d ∧
    .started 0 0 .global 0 ∈ h ∧ .started 1 2 .global (Duration.ofSecs 300) ∈ h ∧
    .answered 3 .global ⟨none, Duration.ofSecs 300, 1⟩ (Duration.ofSecs 305) ∈ h ∧
    Each (fun pre x => ∀ f' n t' f t, x = .started f' n .global t' → Latest .global pre f t →
      (Succeeded pre f ∧ ¬ Failed pre f ∧ t + (Duration.ofSecs 300) ≤ t') ∨
        (Failed pre f ∧ ¬ Succeeded pre f ∧ t + (Duration.ofSecs 30) ≤ t')) h ∧
    Each (fun pre x => ∀ n entry t, x = .answered n .global entry t →
      Latest .global pre entry.fetch entry.fetchedAt ∧ Outcome .global pre entry) h :=
  have hrun := run_execute leads leads_enabled
  ⟨_, _, hrun, by decide +kernel, by decide +kernel, by decide +kernel, (single_flight hrun).2⟩

end RoleDirectory
end RocketSocket
