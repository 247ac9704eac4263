import RocketSocket.Framework.RoleRun

/-!
# The bound of the room map

The directory remembers at most so many rooms, and makes place by forgetting the one that was
consulted least recently.  `room_slot` reads the clock before it takes the lock of the map, so
here the reading is a step of its own: lookups may take the lock in another order than that of
their readings, and then a room can be marked as consulted earlier than it was.

## Main definitions

* `Consulted` — a consultation of the map, as a run shows it.
* `RoomMap.step` — a step of the directory, with the readings of the clock apart.
* `Consulted.Fits` — what a consultation does to the rooms that are remembered.
* `Recent` — a room that is found is the most recently consulted, and one that is evicted the
  least recently.
* `ReadInOrder` — the lookup read the clock no earlier than those that took the lock before it.

## Main results

* `directory_of_run` — a run of the map is one of the directory: what holds of every run of that
  holds here.
* `evict_cases`, `roomSlot_cases` — what obtaining the slot of a room does to the map.
* `room_map_bounded` — the bound, and the order of eviction.
-/

namespace RocketSocket

open Machine

/-! ### The machine -/

/-- A consultation of the map. -/
structure Consulted where
  room : RoomId
  /-- The clock as the lookup read it. -/
  reading : Instant
  /-- The rooms that were remembered before, -/
  before : Finset RoomId
  /-- and those that are remembered after. -/
  after : Finset RoomId
  deriving DecidableEq

/-- The directory, and the clock as the lookups read it that are about to take the lock of the
map. -/
structure RoomMap where
  directory : RoleDirectory
  readings : Table ℕ Instant := ∅

/-- Who moves. -/
inductive RoomMapInput where
  | read (n : ℕ)
  | move (input : RoleInput)

namespace RoomMap

/-- A new cache, which nobody asked yet. -/
def init (config : RoleCacheConfig) : RoomMap := { directory := .init config }

variable (s : RoomMap)

/-- How many rooms are remembered. -/
def cachedRooms : ℕ := s.directory.rooms.size

/-- The lookup that a call is at. -/
def lookupOf (n : ℕ) : Option Lookup := (s.directory.checkAt n).map fun at_ => at_.2.1

/-- A lookup of a room reads the clock. -/
def read (n : ℕ) : Option (RoomMap × List Consulted) := do
  let (check, lookup, _) ← s.directory.checkAt n
  guard (check.phase = .starting ∧ lookup ≠ .global ∧ s.readings.lookup n = none)
  return ({ s with readings := s.readings.insert n s.directory.now }, [])

/-- A lookup of a room has the lock of the map. -/
def consult (n : ℕ) (reading : Instant) (evicted : List RoomId) (room : RoomId) :
    Option (RoomMap × List Consulted) := do
  guard (s.readings.lookup n = some reading)
  let (d, _) ← s.directory.step (.obtain n reading evicted)
  return ({ directory := d, readings := s.readings.erase n },
    [{ room := room, reading := reading, before := s.directory.rooms.keys,
       after := d.rooms.keys }])

/-- A step of the directory. -/
def move (input : RoleInput) : Option (RoomMap × List Consulted) :=
  (s.directory.step input).map fun (d, _) => ({ s with directory := d }, [])

/-- One step. -/
def step : RoomMapInput → Option (RoomMap × List Consulted)
  | .read n => s.read n
  | .move (.obtain n reading evicted) =>
    match s.lookupOf n with
    | some (.room room) => s.consult n reading evicted room
    | _ => s.move (.obtain n reading evicted)
  -- there is no await between the reading and the lock
  | .move (.cancel n) => if s.readings.lookup n = none then s.move (.cancel n) else none
  | .move input => s.move input

end RoomMap

/-! ### What a consultation does -/

/-- A room that is found is all there is to it; another is added, and where the map is full
one goes for it. -/
def Consulted.Fits (maxRooms : ℕ) (c : Consulted) : Prop :=
  (c.room ∈ c.before ∧ c.after = c.before) ∨
  (c.room ∉ c.before ∧ c.before.card < maxRooms ∧ c.after = insert c.room c.before) ∨
  (c.room ∉ c.before ∧ c.before.card = maxRooms ∧
    ∃ evicted ∈ c.before, c.after = insert c.room (c.before.erase evicted))

/-- The last consultation of the one room is no later than that of the other. -/
def NoLater (pre : List Consulted) (room other : RoomId) : Prop :=
  ∀ c ∈ pre, c.room = room → ∃ c' ∈ pre, c'.room = other ∧ c.reading ≤ c'.reading

/-- A room that is evicted was the least recently consulted. -/
def ColdestGoes (pre : List Consulted) (c : Consulted) : Prop :=
  ∀ evicted ∈ c.before, evicted ∉ c.after → ∀ other ∈ c.before, NoLater pre evicted other

/-- A room that is found is the most recently consulted then, and a room that is evicted was
the least recently consulted. -/
def Recent (pre : List Consulted) (c : Consulted) : Prop :=
  (c.room ∈ c.before → ∀ old ∈ pre, old.room ∈ c.before → old.reading ≤ c.reading) ∧
  ColdestGoes pre c

/-- The lookup read the clock no earlier than those that took the lock before it. -/
def ReadInOrder (pre : List Consulted) (c : Consulted) : Prop :=
  ∀ old ∈ pre, old.reading ≤ c.reading

instance {maxRooms : ℕ} {c : Consulted} : Decidable (c.Fits maxRooms) :=
  inferInstanceAs (Decidable (_ ∨ _))

instance {pre : List Consulted} {room other : RoomId} : Decidable (NoLater pre room other) :=
  inferInstanceAs (Decidable (∀ c ∈ pre, _))

instance {pre : List Consulted} {c : Consulted} : Decidable (ColdestGoes pre c) :=
  inferInstanceAs (Decidable (∀ evicted ∈ c.before, _))

instance {pre : List Consulted} {c : Consulted} : Decidable (Recent pre c) :=
  inferInstanceAs (Decidable (_ ∧ _))

instance {pre : List Consulted} {c : Consulted} : Decidable (ReadInOrder pre c) :=
  inferInstanceAs (Decidable (∀ old ∈ pre, _))

/-! ### The map under an obtained slot -/

namespace RoleDirectory

variable {d d' : RoleDirectory} {rooms rooms' : Table RoomId RoomSlot} {maxRooms i : ℕ}
  {reading : Instant} {evicted : List RoomId} {id : RoomId}

/-- Where the bound is kept, at most one room goes, and that only if the map is full. -/
theorem evict_cases (hpos : 0 < maxRooms) (hsize : rooms.size ≤ maxRooms)
    (h : evict maxRooms rooms evicted = some rooms') :
    (rooms.size < maxRooms ∧ rooms' = rooms) ∨
    (rooms.size = maxRooms ∧ ∃ coldest, IsColdest rooms coldest ∧
      rooms' = rooms.erase coldest) := by
  cases evicted with
  | nil =>
    unfold evict at h
    split at h
    · cases h
    · next hroom =>
      left
      exact ⟨by omega, (Option.some.inj h).symm⟩
  | cons coldest rest =>
    unfold evict at h
    split at h
    · next hfull =>
      obtain ⟨⟨-, hfull⟩, hcoldest⟩ := hfull
      have hone : (rooms.erase coldest).size < maxRooms := by
        rw [Finmap.size_erase hcoldest.1]
        omega
      right
      refine ⟨by omega, coldest, hcoldest, ?_⟩
      -- there is place for one more now
      cases rest with
      | nil =>
        unfold evict at h
        split at h
        · cases h
        · exact (Option.some.inj h).symm
      | cons second rest =>
        unfold evict at h
        split at h
        · next hfull' => exact absurd hfull'.1.2 (by omega)
        · cases h
    · cases h

/-- What obtaining the slot of a room does to the map. -/
theorem roomSlot_cases (h : d.roomSlot id reading evicted = some (i, d')) :
    d'.config = d.config ∧
    ((∃ existing, d.rooms.lookup id = some existing ∧
      d'.rooms = d.rooms.insert id { existing with touched := reading }) ∨
    (d.rooms.lookup id = none ∧ ∃ rooms, evict d.config.maxRooms d.rooms evicted = some rooms ∧
      d'.rooms = rooms.insert id { slot := i, touched := reading })) := by
  unfold roomSlot at h
  split at h
  · next existing hexisting =>
    split at h
    · simp only [Option.some.injEq, Prod.mk.injEq] at h
      obtain ⟨rfl, rfl⟩ := h
      exact ⟨rfl, .inl ⟨existing, hexisting, rfl⟩⟩
    · cases h
  · next hnone =>
    obtain ⟨rooms, hevict, h⟩ := Option.map_eq_some_iff.mp h
    simp only [allocate, Prod.mk.injEq] at h
    obtain ⟨rfl, rfl⟩ := h
    exact ⟨rfl, .inr ⟨hnone, rooms, hevict, rfl⟩⟩

/-- A step that obtains no slot remembers no new room, and touches none. -/
theorem lookup_rooms_of_move {input : RoleInput} {notes : List RoleNote} {slot : RoomSlot}
    (hmove : Moves d input d' notes)
    (hinput : ∀ n reading evicted, input ≠ .obtain n reading evicted)
    (hslot : d'.rooms.lookup id = some slot) : d.rooms.lookup id = some slot := by
  cases hmove with
  | ask question =>
    obtain ⟨new, -, -, heq⟩ := ask_eq d question
    rwa [heq] at hslot
  | obtain => exact absurd rfl (hinput _ _ _)
  | cached =>
    rw [conclude_frame] at hslot
    exact hslot
  | start => exact hslot
  | answer =>
    change (conclude ..).1.rooms.lookup id = some slot at hslot
    rw [conclude_frame] at hslot
    exact hslot
  | expire =>
    change (conclude ..).1.rooms.lookup id = some slot at hslot
    rw [conclude_frame] at hslot
    exact hslot
  | @cancel n check hcheck =>
    -- A waiter that gives up unlocks a slot at most; the map of rooms is not written.
    rcases abandon_eq d n check with heq | ⟨i, slot', -, heq⟩
    · rwa [heq] at hslot
    · rwa [heq] at hslot
  | invalidate => exact hslot
  | @drop k drop drops hdrops =>
    -- A drop takes rooms out and lets none in.
    cases drop with
    | global => exact hslot
    | room other =>
      change (d.rooms.erase other).lookup id = some slot at hslot
      rw [Finmap.lookup_erase_eq] at hslot
      split at hslot
      · cases hslot
      · exact hslot
    | rooms => simp [performDrop] at hslot
  | tick => exact hslot

end RoleDirectory

/-! ### Runs -/

namespace RoomMap

open RoleDirectory

variable {s s' : RoomMap} {h o : List Consulted} {config : RoleCacheConfig} {n : ℕ}

theorem move_eq_some {input : RoleInput} : s.move input = some (s', o) ↔
    ∃ d notes, s.directory.step input = some (d, notes) ∧
      s' = { s with directory := d } ∧ o = [] := by
  unfold move
  rw [Option.map_eq_some_iff]
  constructor
  · rintro ⟨⟨d, notes⟩, hstep, heq⟩
    simp only [Prod.mk.injEq] at heq
    exact ⟨d, notes, hstep, heq.1.symm, heq.2.symm⟩
  · rintro ⟨d, notes, hstep, rfl, rfl⟩
    exact ⟨(d, notes), hstep, rfl⟩

/-- A lookup that obtains its slot, step by step. -/
theorem obtain_eq_some {d d' : RoleDirectory} {notes : List RoleNote} {reading : Instant}
    {evicted : List RoomId} {lookup : Lookup} {check : Check} {rest : List Lookup}
    (hstep : d.step (.obtain n reading evicted) = some (d', notes))
    (hcheck : d.checkAt n = some (check, lookup, rest)) :
    check.phase = .starting ∧ ∃ i d₁, d.slotFor reading evicted lookup = some (i, d₁) ∧
      d' = d₁.setCheck n { check with phase := .queued i } ∧ notes = [.obtained n lookup i] := by
  simp only [RoleDirectory.step, hcheck, Option.bind_eq_bind, Option.bind_some,
    Option.bind_eq_some_iff, Option.guard_eq_some', Option.pure_def, Option.some.injEq,
    Prod.exists, Prod.mk.injEq] at hstep
  obtain ⟨_, ⟨hphase, -⟩, i, d₁, hslot, rfl, rfl⟩ := hstep
  exact ⟨hphase, i, d₁, hslot, rfl, rfl⟩

/-- A step that consults no map leaves it, but for rooms that are dropped. -/
theorem move_frame {input : RoleInput}
    (hinput : ∀ n reading evicted, input ≠ .obtain n reading evicted)
    (hmove : s.move input = some (s', o)) :
    s'.directory.config = s.directory.config ∧ o = [] ∧
      ∀ id slot, s'.directory.rooms.lookup id = some slot →
        s.directory.rooms.lookup id = some slot := by
  obtain ⟨d, notes, hstep, rfl, rfl⟩ := move_eq_some.1 hmove
  have hmoves := moves_of_step hstep
  exact ⟨(later_move hmoves).config, rfl,
    fun id slot hslot => lookup_rooms_of_move hmoves hinput hslot⟩

/-- The lock of a lookup of a room. -/
theorem consult_cases {reading : Instant} {evicted : List RoomId} {room : RoomId}
    (hlookup : s.lookupOf n = some (.room room))
    (hconsult : s.consult n reading evicted room = some (s', o)) :
    ∃ (check : Check) (i : ℕ) (d' : RoleDirectory),
      s.directory.roomSlot room reading evicted = some (i, d') ∧
      s'.directory = d'.setCheck n { check with phase := .queued i } ∧
      o = [{ room := room, reading := reading, before := s.directory.rooms.keys,
             after := d'.rooms.keys }] := by
  obtain ⟨⟨check, lookup, rest⟩, hcheck, hroom⟩ := Option.map_eq_some_iff.1 hlookup
  obtain rfl : lookup = .room room := hroom
  simp only [consult, Option.bind_eq_bind, Option.bind_eq_some_iff, Option.guard_eq_some',
    Option.pure_def, Option.some.injEq, Prod.exists, Prod.mk.injEq] at hconsult
  obtain ⟨_, -, d, notes, hstep, rfl, rfl⟩ := hconsult
  obtain ⟨-, i, d', hslot, rfl, -⟩ := obtain_eq_some hstep hcheck
  exact ⟨check, i, d', hslot, rfl, rfl⟩

/-- **What a step does**: a lookup of a room consults the map, by the clock as it was read, or
no new room is remembered and none is touched. -/
theorem step_cases {input : RoomMapInput} (hstep : s.step input = some (s', o)) :
    s'.directory.config = s.directory.config ∧
    ((o = [] ∧ ∀ id slot, s'.directory.rooms.lookup id = some slot →
      s.directory.rooms.lookup id = some slot) ∨
    ∃ room reading evicted i d',
      s.directory.roomSlot room reading evicted = some (i, d') ∧
        s'.directory.rooms = d'.rooms ∧
        o = [{ room := room, reading := reading, before := s.directory.rooms.keys,
               after := d'.rooms.keys }]) := by
  cases input with
  | read n =>
    simp only [step, read, Option.bind_eq_bind, Option.bind_eq_some_iff, Option.guard_eq_some',
      Option.pure_def, Option.some.injEq, Prod.exists, Prod.mk.injEq] at hstep
    obtain ⟨check, lookup, rest, -, _, -, rfl, rfl⟩ := hstep
    exact ⟨rfl, .inl ⟨rfl, fun _ _ hslot => hslot⟩⟩
  | move input =>
    cases input with
    | obtain n reading evicted =>
      simp only [step] at hstep
      split at hstep
      · -- A room's lookup consults the map, with the reading taken before.
        next room hlookup =>
        obtain ⟨check, i, d', hslot, hdirectory, rfl⟩ := consult_cases hlookup hstep
        rw [hdirectory]
        exact ⟨(roomSlot_cases hslot).1, .inr ⟨room, reading, evicted, i, d', hslot, rfl, rfl⟩⟩
      · -- The global lookup has its slot and leaves the map of rooms alone.
        next hlookup =>
        obtain ⟨d, notes, hd, rfl, rfl⟩ := move_eq_some.1 hstep
        obtain ⟨check, lookup, rest, hcheck⟩ : ∃ check lookup rest,
            s.directory.checkAt n = some (check, lookup, rest) := by
          cases hcheck : s.directory.checkAt n with
          | none => simp [RoleDirectory.step, hcheck] at hd
          | some at_ => exact ⟨at_.1, at_.2.1, at_.2.2, rfl⟩
        obtain ⟨-, i, d₁, hslot, rfl, -⟩ := obtain_eq_some hd hcheck
        cases lookup with
        | room room => exact absurd (by rw [lookupOf, hcheck]; rfl) (hlookup room)
        | global =>
          obtain ⟨-, heq⟩ := Option.ite_none_right_eq_some.1 hslot
          cases heq
          exact ⟨rfl, .inl ⟨rfl, fun _ _ hslot => hslot⟩⟩
    | cancel n =>
      have hmove := (Option.ite_none_right_eq_some.1 hstep).2
      exact And.imp_right Or.inl (move_frame (fun _ _ _ h => by cases h) hmove)
    | ask | lock | answer | expire | invalidate | drop | tick =>
      exact And.imp_right Or.inl (move_frame (fun _ _ _ h => by cases h) hstep)

/-- A step reads the clock, or is one of the directory. -/
theorem directory_of_step {input : RoomMapInput} (hstep : s.step input = some (s', o)) :
    s'.directory = s.directory ∨
      ∃ input notes, s.directory.step input = some (s'.directory, notes) := by
  -- A move of the map is a step of the directory under it.
  have hmove {input : RoleInput} (h : s.move input = some (s', o)) :
      ∃ notes, s.directory.step input = some (s'.directory, notes) := by
    obtain ⟨d, notes, hd, rfl, -⟩ := move_eq_some.1 h
    exact ⟨notes, hd⟩
  cases input with
  | read n =>
    simp only [step, read, Option.bind_eq_bind, Option.bind_eq_some_iff, Option.guard_eq_some',
      Option.pure_def, Option.some.injEq, Prod.exists, Prod.mk.injEq] at hstep
    obtain ⟨check, lookup, rest, -, _, -, rfl, -⟩ := hstep
    exact .inl rfl
  | move input =>
    cases input with
    | obtain n reading evicted =>
      simp only [step] at hstep
      split at hstep
      · simp only [consult, Option.bind_eq_bind, Option.bind_eq_some_iff, Option.guard_eq_some',
          Option.pure_def, Option.some.injEq, Prod.exists, Prod.mk.injEq] at hstep
        obtain ⟨_, -, d, notes, hd, rfl, -⟩ := hstep
        exact .inr ⟨_, notes, hd⟩
      · exact .inr ⟨_, hmove hstep⟩
    | cancel n => exact .inr ⟨_, hmove (Option.ite_none_right_eq_some.1 hstep).2⟩
    | ask | lock | answer | expire | invalidate | drop | tick => exact .inr ⟨_, hmove hstep⟩

/-- **A run of the map is one of the directory.** -/
theorem directory_of_run (hrun : Run step (init config) h s) :
    ∃ notes, Run RoleDirectory.step (.init config) notes s.directory := by
  induction hrun with
  | start => exact ⟨[], .start⟩
  | step _ hstep ih =>
    obtain ⟨notes, hd⟩ := ih
    rcases directory_of_step hstep with heq | ⟨input, notes', hnext⟩
    · exact ⟨notes, heq ▸ hd⟩
    · exact ⟨notes ++ notes', hd.step hnext⟩

/-- What stands at a room that is remembered is the reading of its last consultation. -/
structure Touched (h : List Consulted) (d : RoleDirectory) : Prop where
  shown : ∀ id slot, d.rooms.lookup id = some slot →
    ∃ c ∈ h, c.room = id ∧ c.reading = slot.touched
  latest : ∀ id slot, d.rooms.lookup id = some slot → ∀ c ∈ h, c.room = id →
    c.reading ≤ slot.touched

/-! #### One consultation -/

section Consultation

variable {d d' : RoleDirectory} {maxRooms i : ℕ} {evicted : List RoomId} {room : RoomId}

/-- **A consultation keeps the bound**, and forgets a room only for one that is not remembered
while the map is full. -/
theorem fits_roomSlot (hpos : 0 < d.config.maxRooms) (hsize : d.rooms.size ≤ d.config.maxRooms)
    {reading : Instant} (h : d.roomSlot room reading evicted = some (i, d')) :
    d'.rooms.size ≤ d.config.maxRooms ∧
      Consulted.Fits d.config.maxRooms ⟨room, reading, d.rooms.keys, d'.rooms.keys⟩ := by
  obtain ⟨-, ⟨existing, hexisting, hrooms⟩ | ⟨hnone, rooms, hevict, hrooms⟩⟩ := roomSlot_cases h
  · have hmem := Finmap.mem_keys_of_lookup hexisting
    have hkeys : d'.rooms.keys = d.rooms.keys := by
      rw [hrooms, Finmap.keys_insert, Finset.insert_eq_of_mem hmem]
    exact ⟨by rw [Finmap.size, hkeys]; exact hsize, .inl ⟨hmem, hkeys⟩⟩
  · have hmem : room ∉ d.rooms.keys := by simp [Finmap.mem_keys_iff, hnone]
    rcases evict_cases hpos hsize hevict with ⟨hlt, rfl⟩ | ⟨hfull, coldest, hcoldest, rfl⟩
    · refine ⟨?_, .inr (.inl ⟨hmem, hlt, by rw [hrooms, Finmap.keys_insert]⟩)⟩
      rw [hrooms, Finmap.size_insert hnone]
      exact hlt
    · refine ⟨?_, .inr (.inr ⟨hmem, hfull, coldest, hcoldest.1, ?_⟩)⟩
      · have hnone' : (d.rooms.erase coldest).lookup room = none := by
          rw [Finmap.lookup_erase_eq, hnone, ite_self]
        rw [hrooms, Finmap.size_insert hnone', Finmap.size_erase hcoldest.1]
        omega
      · rw [hrooms, Finmap.keys_insert, Finmap.keys_erase]

variable {h : List Consulted}

/-- **A consultation in order** evicts the least recently consulted room. -/
theorem recent_roomSlot (hpos : 0 < d.config.maxRooms) (hsize : d.rooms.size ≤ d.config.maxRooms)
    (htouched : Touched h d) {reading : Instant}
    (hslot : d.roomSlot room reading evicted = some (i, d'))
    (horder : ReadInOrder h ⟨room, reading, d.rooms.keys, d'.rooms.keys⟩) :
    Recent h ⟨room, reading, d.rooms.keys, d'.rooms.keys⟩ := by
  refine ⟨fun _ old hold _ => horder old hold, ?_⟩
  intro gone hgone hgone' other hother c hc hroom
  obtain ⟨-, ⟨existing, hexisting, hrooms⟩ | ⟨hnone, rooms, hevict, hrooms⟩⟩ :=
    roomSlot_cases hslot
  · rw [hrooms, Finmap.keys_insert] at hgone'
    exact absurd (Finset.mem_insert_of_mem hgone) hgone'
  · rw [hrooms, Finmap.keys_insert] at hgone'
    have hgone' : gone ∉ rooms.keys := fun hmem => hgone' (Finset.mem_insert_of_mem hmem)
    rcases evict_cases hpos hsize hevict with ⟨-, rfl⟩ | ⟨-, coldest, hcoldest, rfl⟩
    · exact absurd hgone hgone'
    · -- what went is the coldest room
      obtain rfl : gone = coldest := by
        by_contra hne
        rw [Finmap.keys_erase] at hgone'
        exact hgone' (Finset.mem_erase.2 ⟨hne, hgone⟩)
      have hcold := hcoldest.2 other hother
      obtain ⟨slot, hgoneSlot⟩ := Option.isSome_iff_exists.1 (Finmap.mem_keys_iff.1 hgone)
      obtain ⟨slot', hotherSlot⟩ := Option.isSome_iff_exists.1 (Finmap.mem_keys_iff.1 hother)
      obtain ⟨c', hc', hroom', hreading'⟩ := htouched.shown other slot' hotherSlot
      refine ⟨c', hc', hroom', ?_⟩
      change (d.rooms.lookup gone).elim 0 _ ≤ (d.rooms.lookup other).elim 0 _ at hcold
      rw [hgoneSlot, hotherSlot] at hcold
      calc c.reading ≤ slot.touched := htouched.latest gone slot hgoneSlot c hc hroom
        _ ≤ slot'.touched := hcold
        _ = c'.reading := hreading'.symm

/-- What stands at the rooms after a consultation in order. -/
theorem touched_roomSlot (htouched : Touched h d) {c : Consulted}
    (hslot : d.roomSlot c.room c.reading evicted = some (i, d'))
    (horder : ReadInOrder h c) : Touched (h ++ [c]) d' := by
  have hrooms : ∃ new : RoomSlot, new.touched = c.reading ∧
      d'.rooms.lookup c.room = some new ∧ ∀ id slot, id ≠ c.room →
        d'.rooms.lookup id = some slot → d.rooms.lookup id = some slot := by
    -- The room has the reading, and the other rooms are as they were or gone.
    obtain ⟨-, ⟨existing, -, hrooms⟩ | ⟨-, rooms, hevict, hrooms⟩⟩ := roomSlot_cases hslot
    · refine ⟨_, rfl, by rw [hrooms, Finmap.lookup_insert], fun id slot hne hid => ?_⟩
      rwa [hrooms, Finmap.lookup_insert_of_ne _ hne] at hid
    · refine ⟨_, rfl, by rw [hrooms, Finmap.lookup_insert], fun id slot hne hid => ?_⟩
      rw [hrooms, Finmap.lookup_insert_of_ne _ hne] at hid
      rcases lookup_evict hevict id with hsame | hgone
      · exact hsame ▸ hid
      · rw [hgone] at hid
        cases hid
  obtain ⟨new, hnew, hself, hothers⟩ := hrooms
  constructor
  · intro id slot hid
    -- At the room itself the consultation is the last one; elsewhere nothing has changed.
    by_cases hroom : id = c.room
    · subst hroom
      obtain rfl := Option.some.inj (hself.symm.trans hid)
      exact ⟨c, by simp, rfl, hnew.symm⟩
    · obtain ⟨old, hold, hroom', hreading⟩ := htouched.shown id slot (hothers id slot hroom hid)
      exact ⟨old, List.mem_append_left _ hold, hroom', hreading⟩
  · intro id slot hid old hold hroom'
    by_cases hroom : id = c.room
    · subst hroom
      obtain rfl := Option.some.inj (hself.symm.trans hid)
      rw [hnew]
      rcases List.mem_append.1 hold with hold | hold
      · exact horder old hold
      · rw [List.mem_singleton.1 hold]
    · rcases List.mem_append.1 hold with hold | hold
      · exact htouched.latest id slot (hothers id slot hroom hid) old hold hroom'
      · rw [List.mem_singleton.1 hold] at hroom'
        exact absurd hroom'.symm hroom

end Consultation

/-! #### Every consultation of a run -/

/-- What holds after every run: the bound, and that what is shown fits; and if every lookup
took the lock in the order of the readings, what stands at the rooms. -/
structure Kept (config : RoleCacheConfig) (h : List Consulted) (s : RoomMap) : Prop where
  configured : s.directory.config = config
  bound : s.cachedRooms ≤ config.maxRooms
  fits : Each (fun _ c => c.Fits config.maxRooms) h
  touched : Each ReadInOrder h → Touched h s.directory
  recent : Each ReadInOrder h → Each Recent h

theorem kept_init (config : RoleCacheConfig) : Kept config [] (init config) where
  configured := rfl
  bound := Nat.zero_le _
  fits := each_nil
  touched := fun _ => ⟨fun id slot hid => by simp [init, RoleDirectory.init] at hid,
    fun id slot hid => by simp [init, RoleDirectory.init] at hid⟩
  recent := fun _ => each_nil

theorem kept_step (hpos : 0 < config.maxRooms) (hkept : Kept config h s) {input : RoomMapInput}
    (hstep : s.step input = some (s', o)) : Kept config (h ++ o) s' := by
  obtain ⟨hconfig, ⟨rfl, hsub⟩ | ⟨room, reading, evicted, i, d', hslot, hrooms, rfl⟩⟩ :=
    step_cases hstep
  · -- The map is not consulted, and rooms may only have gone.
    rw [List.append_nil]
    refine ⟨hconfig.trans hkept.configured, le_trans ?_ hkept.bound, hkept.fits, fun horder => ?_,
      hkept.recent⟩
    · refine Finset.card_le_card fun id hid => ?_
      obtain ⟨slot, hslot⟩ := Option.isSome_iff_exists.1 (Finmap.mem_keys_iff.1 hid)
      exact Finmap.mem_keys_of_lookup (hsub id slot hslot)
    · have htouched := hkept.touched horder
      exact ⟨fun id slot hid => htouched.shown id slot (hsub id slot hid),
        fun id slot hid => htouched.latest id slot (hsub id slot hid)⟩
  · -- The map is consulted: room is made first, so it stays within its bound.
    have hmax := hkept.configured
    subst hmax
    obtain ⟨hbound, hfits⟩ := fits_roomSlot hpos hkept.bound hslot
    refine ⟨hconfig, ?_, each_snoc.2 ⟨hkept.fits, hfits⟩, fun horder => ?_, fun horder => ?_⟩
    · rw [cachedRooms, hrooms]
      exact hbound
    · obtain ⟨hbefore, hlast⟩ := each_snoc.1 horder
      have htouched := touched_roomSlot (hkept.touched hbefore) hslot hlast
      exact ⟨fun id slot hid => htouched.shown id slot (hrooms ▸ hid),
        fun id slot hid => htouched.latest id slot (hrooms ▸ hid)⟩
    · obtain ⟨hbefore, hlast⟩ := each_snoc.1 horder
      exact each_snoc.2 ⟨hkept.recent hbefore,
        recent_roomSlot hpos hkept.bound (hkept.touched hbefore) hslot hlast⟩

/-- **The room map is bounded, and evicts the room that was consulted least recently** as long
as the lookups take its lock in the order in which they read the clock.  The bound, and when a
room goes at all, do not depend on that. -/
theorem room_map_bounded {config : RoleCacheConfig} (hmax : 1 ≤ config.maxRooms)
    {h : List Consulted} {s : RoomMap} (hrun : Run step (init config) h s) :
    s.cachedRooms ≤ config.maxRooms ∧ Each (fun _ c => c.Fits config.maxRooms) h ∧
      (Each ReadInOrder h → Each Recent h) := by
  have hkept : Kept config h s :=
    hrun.invariant (I := Kept config) (kept_init config) fun hkept hstep =>
      kept_step hmax hkept hstep
  exact ⟨hkept.bound, hkept.fits, hkept.recent⟩

/-! ### Runs of two rooms -/

/-- A check of a room. -/
def askFor (room : String) : RoomMapInput := .move (.ask (.isRoomAdmin ⟨"u1"⟩ ⟨room⟩))

/-- Two rooms, the first looked up again, and a third. -/
def inTurn : List RoomMapInput :=
  [askFor "a", askFor "b", askFor "a", askFor "c", .read 0, .move (.obtain 0 0 []),
    .move (.tick 1), .read 1, .move (.obtain 1 1 []), .move (.tick 1), .read 2,
    .move (.obtain 2 2 []), .move (.tick 1), .read 3, .move (.obtain 3 3 [⟨"b"⟩])]

/-- The same, but the first check reads the clock before all others and takes the lock after
them. -/
def overtaken : List RoomMapInput :=
  [askFor "a", askFor "b", askFor "a", askFor "c", .read 0, .move (.tick 1), .read 1,
    .move (.obtain 1 1 []), .move (.tick 1), .read 2, .move (.obtain 2 2 []),
    .move (.obtain 0 0 []), .move (.tick 1), .read 3, .move (.obtain 3 3 [⟨"a"⟩])]

theorem inTurn_enabled : (execute step (init { maxRooms := 2 }) inTurn).isSome := by
  decide +kernel

theorem overtaken_enabled : (execute step (init { maxRooms := 2 }) overtaken).isSome := by
  decide +kernel

theorem room_map_bounded_inTurn : ∃ h s, Run step (init { maxRooms := 2 }) h s ∧
    s.cachedRooms ≤ 2 ∧ Each (fun _ c => c.Fits 2) h ∧ Each ReadInOrder h ∧ Each Recent h := by
  have hrun := run_execute inTurn inTurn_enabled
  obtain ⟨hbound, hfits, hrecent⟩ := room_map_bounded (by decide) hrun
  have horder : Each ReadInOrder ((execute step (init { maxRooms := 2 }) inTurn).get
      inTurn_enabled).2 := by decide +kernel
  exact ⟨_, _, hrun, hbound, hfits, horder, hrecent horder⟩

/-- A check that was overtaken makes the directory forget the room that was consulted last. -/
theorem not_room_map_recent : ∃ h s, Run step (init { maxRooms := 2 }) h s ∧
    ¬Each ColdestGoes h := by
  exact ⟨_, _, run_execute overtaken overtaken_enabled, by decide +kernel⟩

end RoomMap

end RocketSocket
