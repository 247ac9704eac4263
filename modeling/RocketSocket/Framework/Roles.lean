import RocketSocket.Model.Entity
import RocketSocket.Realtime.Timing

/-!
# The role directory

`roles.rs` of `rocketsocket`: who holds `admin`, or a room role, as the server tells it,
cached for a while.  A slot is a mutex around the last answer; the lookup that finds no fresh
answer in it fetches one while it holds the mutex.  Invalidation puts other slots in place of
the old ones.  Every place where a task awaits or takes a lock is a state of that task, so a
run interleaves any number of lookups and invalidations.

The texts that are only logged are left out.

## Main definitions

* `RoleCacheConfig`, `Lookup`, `RoleEntry`, `Slot` — the cache.
* `Question`, `Check` — a call of `verdict`, `is_admin` or `is_room_admin`, and where it
  stands.
* `Invalidation`, `Drop` — the invalidating calls, and the locked steps they make.
* `RoleDirectory.step` — one step of one task, of the server, or of the clock.
* `RoleNote` — what a run shows.
-/

namespace RocketSocket

open Machine

/-! ### Configuration and answers -/

/-- Who a handler is willing to hear from. -/
inductive Authority where
  | anyone
  | admin
  | roomAdmin
  | adminOrRoomAdmin
  deriving DecidableEq, Repr

/-- Why an event was filtered out. -/
inductive Filtered where
  | ownEvent
  | systemMessage
  | edit
  | bot
  | textPrefix
  | room
  | notMentioned
  | authority
  deriving DecidableEq, Repr

/-- How long a resolved answer is trusted, and how patient a lookup is. -/
structure RoleCacheConfig where
  ttl : Duration := .ofSecs 300
  failureTtl : Duration := .ofSecs 30
  timeout : Duration := .ofSecs 5
  maxRooms : ℕ := 512

/-- The global role that `admin` requires. -/
def adminRole : String := "admin"

/-- The room roles that `roomAdmin` accepts. -/
def roomAdminRoles : List String := ["owner", "moderator", "leader"]

/-- Which lookup to perform. -/
inductive Lookup where
  | global
  | room (id : RoomId)
  deriving DecidableEq, Repr

/-- The roles a lookup is about. -/
def Lookup.wanted : Lookup → List String
  | .global => [adminRole]
  | .room _ => roomAdminRoles

/-- One user in an answer of the server, with the roles it holds. -/
structure RoleHolder where
  id : UserId
  roles : List RoleId
  deriving DecidableEq, Repr

/-- Some of the roles held is wanted. -/
def holds (held : List RoleId) (wanted : List String) : Bool :=
  held.any fun role => wanted.contains role.text

/-- Why a lookup could not answer. -/
inductive RoleLookupError where
  | transport (reason : String)
  | timeout (after : Duration)
  deriving DecidableEq, Repr

/-- What a lookup makes of the answer of the REST client. -/
def fetch (lookup : Lookup) : Except String (List RoleHolder) →
    Except RoleLookupError (Finset UserId)
  | .ok holders =>
    .ok ((holders.filter fun holder => holds holder.roles lookup.wanted).map (·.id)).toFinset
  | .error reason => .error (.transport reason)

/-- One memoised answer. -/
structure RoleEntry where
  /-- The users holding the role, or `none` if the lookup failed. -/
  holders : Option (Finset UserId)
  /-- When the lookup that produced this was started. -/
  fetchedAt : Instant
  /-- Which fetch produced this; no function reads it. -/
  fetch : ℕ
  deriving DecidableEq

namespace RoleEntry

/-- The entry may still be used. -/
def isFresh (entry : RoleEntry) (config : RoleCacheConfig) (now : Instant) : Bool :=
  let ttl := if entry.holders.isSome then config.ttl else config.failureTtl
  now - entry.fetchedAt < ttl

/-- The entry grants the role: a failed lookup grants nothing. -/
def grants (entry : RoleEntry) (user : UserId) : Bool := entry.holders.any (user ∈ ·)

end RoleEntry

/-- A cache slot: a mutex around the last answer. -/
structure Slot where
  /-- The lookup the slot was made for; the source knows it from where the slot is kept. -/
  lookup : Lookup
  entry : Option RoleEntry := none
  locked : Bool := false
  deriving DecidableEq

/-- A room's slot, and when a lookup last consulted it. -/
structure RoomSlot where
  slot : ℕ
  touched : Instant
  deriving DecidableEq, Repr

/-! ### The tasks -/

/-- A call of the directory that answers. -/
inductive Question where
  | isAdmin (user : UserId)
  | isRoomAdmin (user : UserId) (room : RoomId)
  | verdict (authority : Authority) (author : UserId) (room : RoomId)
  deriving DecidableEq, Repr

/-- The lookups that decide a requirement, in the order they are made. -/
def Authority.lookups (room : RoomId) : Authority → List Lookup
  | .anyone => []
  | .admin => [.global]
  | .roomAdmin => [.room room]
  -- the workspace admins first, so that one of them costs no request for the room
  | .adminOrRoomAdmin => [.global, .room room]

namespace Question

/-- Whose roles are asked for. -/
def user : Question → UserId
  | .isAdmin user => user
  | .isRoomAdmin user _ => user
  | .verdict _ author _ => author

/-- The lookups that answer the question: the first that grants settles it. -/
def lookups : Question → List Lookup
  | .isAdmin _ => [.global]
  | .isRoomAdmin _ room => [.room room]
  | .verdict authority _ room => authority.lookups room

/-- The question is answered without a lookup. -/
def isFree : Question → Bool
  | .verdict .anyone _ _ => true
  | _ => false

end Question

/-- What `verdict` returns. -/
def Filtered.ofGranted (granted : Bool) : Option Filtered :=
  if granted then none else some .authority

/-- Where a call stands in its current lookup. -/
inductive CheckPhase where
  /-- It is about to obtain the slot. -/
  | starting
  /-- It has the slot and waits for the mutex. -/
  | queued (slot : ℕ)
  /-- It holds the mutex, and its fetch is in flight. -/
  | fetching (slot : ℕ) (started : Instant) (fetch : ℕ)
  | returned (granted : Bool)
  /-- The caller dropped the future. -/
  | cancelled
  deriving DecidableEq, Repr

namespace CheckPhase

/-- The slot whose mutex is waited for. -/
def waitsFor : CheckPhase → Option ℕ
  | .queued slot => some slot
  | _ => none

/-- The slot held, when the fetch in flight was started, and its number. -/
def inFlight : CheckPhase → Option (ℕ × Instant × ℕ)
  | .fetching slot started fetch => some (slot, started, fetch)
  | _ => none

/-- The call has not ended. -/
def isPending : CheckPhase → Bool
  | .starting | .queued _ | .fetching .. => true
  | .returned _ | .cancelled => false

end CheckPhase

/-- A call, and the lookups it may still make, the current one first. -/
structure Check where
  question : Question
  lookups : List Lookup
  phase : CheckPhase := .starting

/-- A lookup in flight is over by then. -/
def Check.deadline (check : Check) (config : RoleCacheConfig) : Option Instant :=
  check.phase.inFlight.map fun (_, started, _) => started + config.timeout

/-- A change of a role, as the stream reports it. -/
inductive RoleChangeKind where
  | added
  | removed
  | changed
  | other (wire : String)
  deriving DecidableEq, Repr

/-- The payload of `roles-change`. -/
structure RoleChange where
  action : RoleChangeKind
  /-- The user the role was granted to or revoked from. -/
  u : Option UserId
  /-- The room of a room role. -/
  scope : Option String
  deriving DecidableEq, Repr

/-- A step of an invalidating call, under one lock. -/
inductive Drop where
  | global
  | room (id : RoomId)
  | rooms
  deriving DecidableEq, Repr

/-- An invalidating call. -/
inductive Invalidation where
  | global
  | room (id : RoomId)
  | all
  | roleChange (change : RoleChange)
  deriving DecidableEq, Repr

/-- What `apply_role_change` invalidates. -/
def RoleChange.drops (change : RoleChange) : List Drop :=
  if change.u.isNone || change.action = .changed then [.global, .rooms]
  else match change.scope with
    | some room => [.room ⟨room⟩]
    | none => [.global]

/-- The steps of a call. -/
def Invalidation.drops : Invalidation → List Drop
  | .global => [.global]
  | .room id => [.room id]
  | .all => [.global, .rooms]
  | .roleChange change => change.drops

/-! ### The directory -/

/-- The directory, the calls in progress, and the clock.  A slot and a fetch are known by
their numbers. -/
structure RoleDirectory where
  config : RoleCacheConfig
  now : Instant := 0
  slots : List Slot := [{ lookup := .global }]
  global : ℕ := 0
  rooms : Table RoomId RoomSlot := ∅
  checks : List Check := []
  /-- The steps each invalidating call has still to make. -/
  invalidations : List (List Drop) := []
  /-- How many fetches were started. -/
  fetches : ℕ := 0

/-- Who moves. -/
inductive RoleInput where
  | ask (question : Question)
  /-- A call obtains the slot of its lookup.  It read the clock before it took the lock of the map,
  so the reading may be older; the rooms evicted are the map's choice. -/
  | obtain (n : ℕ) (reading : Instant) (evicted : List RoomId)
  | lock (n : ℕ)
  | answer (n : ℕ) (answer : Except String (List RoleHolder))
  | expire (n : ℕ)
  | cancel (n : ℕ)
  | invalidate (call : Invalidation)
  | drop (k : ℕ)
  | tick (d : Duration)

/-- What a run shows. -/
inductive RoleNote where
  | asked (n : ℕ) (question : Question)
  | obtained (n : ℕ) (lookup : Lookup) (slot : ℕ)
  | started (fetch n : ℕ) (lookup : Lookup) (at_ : Instant)
  /-- A fetch that was started then completed successfully. -/
  | fetched (fetch : ℕ) (lookup : Lookup) (started : Instant) (holders : List RoleHolder)
  | failed (fetch : ℕ) (error : RoleLookupError)
  | answered (n : ℕ) (lookup : Lookup) (entry : RoleEntry) (at_ : Instant)
  | returned (n : ℕ) (question : Question) (granted : Bool) (at_ : Instant)
  | dropped (k : ℕ) (drop : Drop)
  deriving DecidableEq

namespace RoleDirectory

/-- A directory with nothing in it. -/
def init (config : RoleCacheConfig) : RoleDirectory := { config := config }

variable (d : RoleDirectory)

/-! ### Obtaining a slot -/

/-- Adds an empty slot. -/
def allocate (lookup : Lookup) : ℕ × RoleDirectory :=
  (d.slots.length, { d with slots := d.slots ++ [{ lookup := lookup }] })

/-- No remembered room was consulted longer ago. -/
def IsColdest (rooms : Table RoomId RoomSlot) (id : RoomId) : Prop :=
  id ∈ rooms.keys ∧ ∀ other ∈ rooms.keys,
    ((rooms.lookup id).elim 0 (·.touched)) ≤ ((rooms.lookup other).elim 0 (·.touched))

instance (rooms : Table RoomId RoomSlot) (id : RoomId) : Decidable (IsColdest rooms id) :=
  inferInstanceAs (Decidable (_ ∧ _))

/-- Evicts the coldest room until there is place for one more.  Which of several equally cold
rooms goes is up to the map, so the rooms evicted are an argument. -/
def evict (maxRooms : ℕ) (rooms : Table RoomId RoomSlot) :
    List RoomId → Option (Table RoomId RoomSlot)
  | [] => if 0 < maxRooms ∧ maxRooms ≤ rooms.size then none else some rooms
  | coldest :: evicted =>
    if (0 < maxRooms ∧ maxRooms ≤ rooms.size) ∧ IsColdest rooms coldest then
      evict maxRooms (rooms.erase coldest) evicted
    else none

/-- The slot of a room, which is made if there is none, for a lookup with this reading of the
clock. -/
def roomSlot (id : RoomId) (reading : Instant) (evicted : List RoomId) :
    Option (ℕ × RoleDirectory) :=
  match d.rooms.lookup id with
  | some existing =>
    if evicted.isEmpty then
      some (existing.slot,
        { d with rooms := d.rooms.insert id { existing with touched := reading } })
    else none
  | none => (evict d.config.maxRooms d.rooms evicted).map fun rooms =>
      let (slot, d) := d.allocate (.room id)
      (slot, { d with rooms := rooms.insert id { slot := slot, touched := reading } })

/-- The slot of a lookup. -/
def slotFor (reading : Instant) (evicted : List RoomId) : Lookup → Option (ℕ × RoleDirectory)
  | .global => if evicted.isEmpty then some (d.global, d) else none
  | .room id => d.roomSlot id reading evicted

/-! ### Answering -/

/-- Call number `n` stands elsewhere now. -/
def setCheck (n : ℕ) (check : Check) : RoleDirectory :=
  { d with checks := d.checks.set n check }

/-- Rewrites a slot. -/
def setSlot (i : ℕ) (slot : Slot) : RoleDirectory := { d with slots := d.slots.set i slot }

/-- The current lookup of a call returned an entry: the call returns, or goes on to its next
lookup. -/
def conclude (n : ℕ) (check : Check) (lookup : Lookup) (rest : List Lookup) (entry : RoleEntry) :
    RoleDirectory × List RoleNote :=
  let granted := entry.grants check.question.user
  if granted || rest.isEmpty then
    (d.setCheck n { check with lookups := rest, phase := .returned granted },
      [.answered n lookup entry d.now, .returned n check.question granted d.now])
  else
    (d.setCheck n { check with lookups := rest, phase := .starting },
      [.answered n lookup entry d.now])

/-- The mutex is taken: a fresh entry is the answer, else a fetch is started. -/
def enter (n : ℕ) (check : Check) (lookup : Lookup) (rest : List Lookup) (i : ℕ) (slot : Slot) :
    RoleDirectory × List RoleNote :=
  match slot.entry.filter (·.isFresh d.config d.now) with
  | some cached => d.conclude n check lookup rest cached
  | none =>
    ({ d.setSlot i { slot with locked := true } with
        checks := d.checks.set n { check with phase := .fetching i d.now d.fetches }
        fetches := d.fetches + 1 },
      [.started d.fetches n lookup d.now])

/-- A fetch is over: its outcome is stored in the slot, which is released. -/
def store (n : ℕ) (check : Check) (lookup : Lookup) (rest : List Lookup) (i : ℕ) (slot : Slot)
    (entry : RoleEntry) : RoleDirectory × List RoleNote :=
  (d.setSlot i { slot with entry := some entry, locked := false }).conclude n check lookup rest
    entry

/-- What a run shows of the end of a fetch that was not timed out. -/
def fetchNote (lookup : Lookup) (started : Instant) (f : ℕ) :
    Except String (List RoleHolder) → RoleNote
  | .ok holders => .fetched f lookup started holders
  | .error reason => .failed f (.transport reason)

/-- The REST client answered in time. -/
def receive (n : ℕ) (check : Check) (lookup : Lookup) (rest : List Lookup) (i : ℕ) (slot : Slot)
    (started : Instant) (f : ℕ) (answer : Except String (List RoleHolder)) :
    RoleDirectory × List RoleNote :=
  let (d, notes) := d.store n check lookup rest i slot
    { holders := (fetch lookup answer).toOption, fetchedAt := started, fetch := f }
  (d, fetchNote lookup started f answer :: notes)

/-- The REST client did not answer in time. -/
def giveUp (n : ℕ) (check : Check) (lookup : Lookup) (rest : List Lookup) (i : ℕ) (slot : Slot)
    (started : Instant) (f : ℕ) : RoleDirectory × List RoleNote :=
  let (d', notes) := d.store n check lookup rest i slot
    { holders := none, fetchedAt := started, fetch := f }
  (d', .failed f (.timeout d.config.timeout) :: notes)

/-- The caller drops the future: a mutex it holds is released, its slot as it was. -/
def abandon (n : ℕ) (check : Check) : RoleDirectory :=
  let d' := d.setCheck n { check with phase := .cancelled }
  match check.phase.inFlight.bind fun (i, _) => d.slots[i]?.map (i, ·) with
  | some (i, slot) => d'.setSlot i { slot with locked := false }
  | none => d'

/-! ### Invalidating -/

/-- Makes one step of an invalidating call. -/
def performDrop : Drop → RoleDirectory
  | .global =>
    let (slot, d) := d.allocate .global
    { d with global := slot }
  | .room id => { d with rooms := d.rooms.erase id }
  | .rooms => { d with rooms := ∅ }

/-! ### Steps -/

/-- A call with the lookup it is at, and those after it. -/
def checkAt (n : ℕ) : Option (Check × Lookup × List Lookup) :=
  d.checks[n]?.bind fun check =>
    match check.lookups with
    | lookup :: rest => some (check, lookup, rest)
    | [] => none

/-- A new call. -/
def ask (question : Question) : RoleDirectory × List RoleNote :=
  let n := d.checks.length
  let check : Check := { question := question, lookups := question.lookups }
  if question.isFree then
    ({ d with checks := d.checks ++ [{ check with phase := .returned true }] },
      [.asked n question, .returned n question true d.now])
  else ({ d with checks := d.checks ++ [check] }, [.asked n question])

/-- One step.  A lookup in flight is timed out on time: the clock does not pass its
deadline. -/
def step : RoleInput → Option (RoleDirectory × List RoleNote)
  | .ask question => some (d.ask question)
  | .obtain n reading evicted => do
    let (check, lookup, _) ← d.checkAt n
    guard (check.phase = .starting ∧ reading ≤ d.now)
    let (slot, d) ← d.slotFor reading evicted lookup
    return (d.setCheck n { check with phase := .queued slot }, [.obtained n lookup slot])
  | .lock n => do
    let (check, lookup, rest) ← d.checkAt n
    let i ← check.phase.waitsFor
    let slot ← d.slots[i]?
    guard (slot.locked = false)
    return d.enter n check lookup rest i slot
  | .answer n answer => do
    let (check, lookup, rest) ← d.checkAt n
    let (i, started, f) ← check.phase.inFlight
    let slot ← d.slots[i]?
    return d.receive n check lookup rest i slot started f answer
  | .expire n => do
    let (check, lookup, rest) ← d.checkAt n
    let (i, started, f) ← check.phase.inFlight
    let slot ← d.slots[i]?
    guard (started + d.config.timeout ≤ d.now)
    return d.giveUp n check lookup rest i slot started f
  | .cancel n => do
    let check ← d.checks[n]?
    guard check.phase.isPending
    return (d.abandon n check, [])
  | .invalidate call => some ({ d with invalidations := d.invalidations ++ [call.drops] }, [])
  | .drop k => do
    let drops ← d.invalidations[k]?
    let drop ← drops.head?
    return ({ d.performDrop drop with invalidations := d.invalidations.set k drops.tail },
      [.dropped k drop])
  | .tick δ =>
    if ∀ check ∈ d.checks, ∀ deadline ∈ check.deadline d.config, d.now + δ ≤ deadline then
      some ({ d with now := d.now + δ }, [])
    else none

end RoleDirectory
end RocketSocket
