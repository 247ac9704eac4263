import Mathlib.Data.PNat.Basic
import RocketSocket.Cache.Merge

/-!
# The cache

The in-memory cache of `rocketsocket-cache`: rooms and users with an index by name, one
subscription for each room, a bounded ring of messages for each room, and the current user.
Each operation is the sequence of single-map operations the source makes, in its order.

## Main definitions

* `ResourceType`, `TombstonePolicy`, `CacheConfig` — the configuration.
* `Cache` — the maps.
* `upsert`, `reindex` — the two operations the kinds share.
* `Cache.storeRoom`, `Cache.storeUser`, `Cache.storeSubscription`, `Cache.storeMessage` and
  their siblings — the write paths.
* `Cache.stats` — the counts.
-/

namespace RocketSocket

open Machine

/-! ### Configuration -/

/-- A kind of entity the cache may store. -/
inductive ResourceType where
  | room
  | user
  | subscription
  | message
  | currentUser
  deriving DecidableEq, Repr

/-- What to do with a deletion tombstone. -/
inductive TombstonePolicy where
  /-- Keep it, in place of the previous body. -/
  | replace
  /-- Drop the message. -/
  | evict
  deriving DecidableEq, Repr

/-- How the cache is configured. -/
structure CacheConfig where
  /-- The flags that are set. -/
  resourceTypes : ResourceType → Bool := fun _ => true
  /-- How many messages are kept for each room; `0` caches none. -/
  messageCacheSize : ℕ := 100
  /-- How many users are kept, or `none` for no bound. -/
  userCacheSize : Option ℕ+ := some 10000
  tombstonePolicy : TombstonePolicy := .replace

/-- Whether a write merges into what is cached or replaces it. -/
inductive StoreMode where
  | merge
  | replace
  deriving DecidableEq, Repr

/-! ### The maps -/

/-- The cache.  A ring lists the newest message first; the queue of users lists the oldest
first. -/
structure Cache where
  config : CacheConfig
  rooms : Table RoomId Room := ∅
  roomsByName : Table String RoomId := ∅
  users : Table UserId User := ∅
  usersByUsername : Table String UserId := ∅
  subscriptions : Table RoomId Subscription := ∅
  messages : Table MessageId Message := ∅
  roomMessages : Table RoomId (List MessageId) := ∅
  currentUser : Option User := none
  userOrder : List UserId := []

/-- What an upsert stores. -/
def StoreMode.stored {V : Type} [Document V] (mode : StoreMode) (cached : Option V)
    (incoming : V) : V :=
  match cached, mode with
  | some cached, .merge => mergeDocuments cached incoming
  | _, _ => incoming

/-- Inserts or updates one entry; returns the previous value and something derived from the
stored one. -/
def upsert {K V R : Type} [DecidableEq K] [Document V] (map : Table K V) (key : K)
    (incoming : V) (mode : StoreMode) (derive : V → R) : (Option V × R) × Table K V :=
  let cached := map.lookup key
  let stored := mode.stored cached incoming
  ((cached, derive stored), map.insert key stored)

/-- Removes the index entry of a name, if there is a name and the entry is this key's. -/
def unindex {V : Type} [DecidableEq V] (index : Table String V) (name : Option String)
    (id : V) : Table String V :=
  name.elim index fun name => index.removeIf name (· = id)

/-- Moves a secondary index entry from `old` to `new`, without disturbing an entry that
another key has claimed. -/
def reindex {V : Type} [DecidableEq V] (index : Table String V) (old new : Option String)
    (id : V) : Table String V :=
  if old = new then index
  else
    let index := unindex index old id
    new.elim index fun new => index.insert new id

namespace Cache

/-- A cache with nothing in it. -/
def fromConfig (config : CacheConfig) : Cache := { config := config }

/-- The kind is cached. -/
def wants (c : Cache) (kind : ResourceType) : Bool := c.config.resourceTypes kind

/-! ### Rooms -/

/-- The id of the room with this name. -/
def roomIdByName (c : Cache) (name : String) : Option RoomId := c.roomsByName.lookup name

/-- Stores a room and moves its name in the index. -/
def storeRoom (c : Cache) (incoming : Room) (mode : StoreMode) : Option Room × Cache :=
  if !c.wants .room then (none, c)
  else
    let id := incoming.id
    let ((previous, newName), rooms) := upsert c.rooms id incoming mode (·.name)
    let oldName := previous.bind (·.name)
    (previous, { c with
      rooms := rooms
      roomsByName := reindex c.roomsByName oldName newName id })

/-- Stores a room as the whole truth. -/
def replaceRoom (c : Cache) (room : Room) : Option Room × Cache := c.storeRoom room .replace

/-- Merges a projected room. -/
def mergeRoom (c : Cache) (room : Room) : Option Room × Cache := c.storeRoom room .merge

/-- Removes a room, its name, its subscription and its messages. -/
def removeRoom (c : Cache) (id : RoomId) : Option Room × Cache :=
  let removed := c.rooms.lookup id
  let c := { c with
    rooms := c.rooms.erase id
    roomsByName := unindex c.roomsByName (removed.bind (·.name)) id
    subscriptions := c.subscriptions.erase id }
  (removed, match c.roomMessages.lookup id with
    | some ring => { c with
        roomMessages := c.roomMessages.erase id
        messages := c.messages.eraseAll ring }
    | none => c)

/-! ### Users -/

/-- The id of the user with this username. -/
def userIdByUsername (c : Cache) (username : String) : Option UserId :=
  c.usersByUsername.lookup username

/-- Removes a user and its username, without touching the queue. -/
def dropUser (c : Cache) (id : UserId) : Option User × Cache :=
  let removed := c.users.lookup id
  (removed, { c with
    users := c.users.erase id
    usersByUsername := unindex c.usersByUsername (removed.bind (·.username)) id })

/-- Pops up to so many ids from the front of the queue, but never the new one: what was
popped, and the queue left. -/
def popOldest (id : UserId) : ℕ → List UserId → List UserId × List UserId
  | 0, order => ([], order)
  | _ + 1, [] => ([], [])
  | n + 1, oldest :: order =>
    -- the user that just arrived is the freshest thing here
    if oldest = id then ([], oldest :: order)
    else
      let (evicted, order) := popOldest id n order
      (oldest :: evicted, order)

/-- Records a newly inserted user and evicts down to capacity. -/
def noteNewUser (c : Cache) (id : UserId) : Cache :=
  match c.config.userCacheSize with
  | none => c
  | some capacity =>
    let overCapacity := c.users.size - capacity
    let (evicted, order) := popOldest id overCapacity (c.userOrder ++ [id])
    evicted.foldl (fun c victim => (c.dropUser victim).2) { c with userOrder := order }

/-- Stores a user, moves its username in the index, and notes it if it is new. -/
def storeUser (c : Cache) (incoming : User) (mode : StoreMode) : Option User × Cache :=
  if !c.wants .user then (none, c)
  else
    let id := incoming.id
    let ((previous, newUsername), users) := upsert c.users id incoming mode (·.username)
    let oldUsername := previous.bind (·.username)
    let c := { c with
      users := users
      usersByUsername := reindex c.usersByUsername oldUsername newUsername id }
    (previous, if previous.isNone then c.noteNewUser id else c)

/-- Applies a user document to the current user, if it is the same user. -/
def refreshCurrentUser (c : Cache) (incoming : User) (mode : StoreMode) : Cache :=
  if !c.wants .currentUser then c
  else match c.currentUser with
    | some current =>
      if current.id = incoming.id then
        { c with currentUser := some (mode.stored (some current) incoming) }
      else c
    | none => c

/-- Stores a user as the whole truth. -/
def replaceUser (c : Cache) (user : User) : Option User × Cache :=
  let (previous, c) := c.storeUser user .replace
  (previous, c.refreshCurrentUser user .replace)

/-- Merges a user document, also into the current user. -/
def updateUser (c : Cache) (user : User) : Cache :=
  let (_, c) := c.storeUser user .merge
  c.refreshCurrentUser user .merge

/-- Removes a user, its username and its place in the queue. -/
def removeUser (c : Cache) (id : UserId) : Option User × Cache :=
  let (removed, c) := c.dropUser id
  (removed,
    if removed.isSome && c.config.userCacheSize.isSome then
      { c with userOrder := c.userOrder.filter (· ≠ id) }
    else c)

/-- Sets the logged-in user and stores it in the users map. -/
def setCurrentUser (c : Cache) (user : User) : Cache :=
  let c := if c.wants .currentUser then { c with currentUser := some user } else c
  (c.storeUser user .merge).2

/-! ### Subscriptions -/

/-- Stores a subscription, under its room. -/
def storeSubscription (c : Cache) (incoming : Subscription) (mode : StoreMode) :
    Option Subscription × Cache :=
  if !c.wants .subscription then (none, c)
  else
    let ((previous, ()), subscriptions) :=
      upsert c.subscriptions incoming.rid incoming mode fun _ => ()
    (previous, { c with subscriptions := subscriptions })

/-- Stores a subscription as the whole truth. -/
def replaceSubscription (c : Cache) (subscription : Subscription) :
    Option Subscription × Cache := c.storeSubscription subscription .replace

/-- Removes the subscription for a room. -/
def removeSubscription (c : Cache) (roomId : RoomId) : Option Subscription × Cache :=
  (c.subscriptions.lookup roomId, { c with subscriptions := c.subscriptions.erase roomId })

/-! ### Messages -/

/-- The ids cached for a room, newest first. -/
def roomMessageIds (c : Cache) (roomId : RoomId) : List MessageId :=
  (c.roomMessages.lookup roomId).getD []

/-- Pushes an id onto the front of a room's ring and evicts from the back. -/
def linkMessage (c : Cache) (roomId : RoomId) (id : MessageId) : Cache :=
  let capacity := c.config.messageCacheSize
  let ring := id :: c.roomMessageIds roomId
  -- the ids behind the first `capacity` are popped one by one, the last one first
  let evicted := (ring.drop capacity).reverse
  { c with
    roomMessages := c.roomMessages.insert roomId (ring.take capacity)
    messages := c.messages.eraseAll evicted }

/-- Takes an id out of a room's ring, and the ring out of the map once it is empty. -/
def unlinkMessage (c : Cache) (roomId : RoomId) (id : MessageId) : Cache :=
  match c.roomMessages.lookup roomId with
  | some ring =>
    let ring := ring.filter (· ≠ id)
    let c := { c with roomMessages := c.roomMessages.insert roomId ring }
    if ring.isEmpty then
      { c with roomMessages := c.roomMessages.removeIf roomId List.isEmpty }
    else c
  | none => c

/-- Removes a message and unlinks it from its room's ring. -/
def removeMessage (c : Cache) (id : MessageId) : Option Message × Cache :=
  let removed := c.messages.lookup id
  let c := { c with messages := c.messages.erase id }
  (removed, removed.elim c fun message => c.unlinkMessage message.rid id)

/-- Removes a message from a known room. -/
def removeMessageIn (c : Cache) (roomId : RoomId) (id : MessageId) : Option Message × Cache :=
  let removed := c.messages.lookup id
  let c := { c with messages := c.messages.erase id }
  (removed, c.unlinkMessage roomId id)

/-- Stores a message under the mode its kind asks for, and links a new one. -/
def insertMessage (c : Cache) (incoming : Message) (mode : StoreMode) : Option Message × Cache :=
  let ((previous, ()), messages) := upsert c.messages incoming.id incoming mode fun _ => ()
  let c := { c with messages := messages }
  (previous, if previous.isNone then c.linkMessage incoming.rid incoming.id else c)

/-- Stores a message.  A tombstone is dropped or replaces the body, as the policy says. -/
def storeMessage (c : Cache) (incoming : Message) (mode : StoreMode) : Option Message × Cache :=
  if !c.wants .message || c.config.messageCacheSize = 0 then (none, c)
  else if incoming.isDeletedTombstone then
    match c.config.tombstonePolicy with
    | .evict => c.removeMessageIn incoming.rid incoming.id
    | .replace => c.insertMessage incoming .replace
  else c.insertMessage incoming mode

/-- Stores a message as the whole truth. -/
def replaceMessage (c : Cache) (message : Message) : Option Message × Cache :=
  c.storeMessage message .replace

/-- Merges a projected message. -/
def mergeMessage (c : Cache) (message : Message) : Option Message × Cache :=
  c.storeMessage message .merge

/-! ### The whole cache -/

/-- Empties the cache. -/
def clear (c : Cache) : Cache := fromConfig c.config

end Cache

/-- Counts of what is cached. -/
structure CacheStats where
  rooms : ℕ
  users : ℕ
  subscriptions : ℕ
  messages : ℕ
  /-- The rooms with a ring. -/
  roomsWithMessages : ℕ
  deriving DecidableEq, Repr

/-- The counts of the maps. -/
def Cache.stats (c : Cache) : CacheStats where
  rooms := c.rooms.size
  users := c.users.size
  subscriptions := c.subscriptions.size
  messages := c.messages.size
  roomsWithMessages := c.roomMessages.size

end RocketSocket
