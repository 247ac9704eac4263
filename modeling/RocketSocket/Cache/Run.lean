import RocketSocket.Cache.Cache

/-!
# Runs of the cache

A sequential run is a list of public operations, applied one after the other to an empty
cache.  A `Vec` or `Option` payload is the sequence of the updates of its items.  What an
operation does to the messages is one of a few moves, and so is what it does to the rooms
and to the users; every invariant is proved of the moves.

## Main definitions

* `CacheOp`, `Cache.apply` — the operations that write.
* `Cache.run` — the state a list of operations leaves.
* `Cache.StaysSince` — the operation a document's current stay began with.
* `Cache.Frame` — only the maps of one kind of entity have changed.
* `MessageMove`, `RoomMove`, `UserMove` — what an operation does to one kind.

## Main results

* `Cache.run_induction` — the induction rule for runs.
* `Cache.apply_frame` — what an operation leaves alone.
* `Cache.apply_messages`, `Cache.apply_rooms`, `Cache.apply_users` — every operation is its
  move.
-/

namespace RocketSocket

open Machine

/-- A public operation that writes. -/
inductive CacheOp where
  | updateRoom (room : Room)
  | replaceRoom (room : Room)
  | mergeRoom (room : Room)
  | removeRoom (id : RoomId)
  | updateUser (user : User)
  | replaceUser (user : User)
  | removeUser (id : UserId)
  | setCurrentUser (user : User)
  | updateSubscription (subscription : Subscription)
  | replaceSubscription (subscription : Subscription)
  | removeSubscription (roomId : RoomId)
  | updateMessage (message : Message)
  | mergeMessage (message : Message)
  | replaceMessage (message : Message)
  | removeMessage (id : MessageId)
  | removeMessageIn (roomId : RoomId) (id : MessageId)
  | clear

namespace Cache

/-- The state an operation leaves. -/
def apply (c : Cache) : CacheOp → Cache
  | .updateRoom room => (c.storeRoom room .replace).2
  | .replaceRoom room => (c.replaceRoom room).2
  | .mergeRoom room => (c.mergeRoom room).2
  | .removeRoom id => (c.removeRoom id).2
  | .updateUser user => c.updateUser user
  | .replaceUser user => (c.replaceUser user).2
  | .removeUser id => (c.removeUser id).2
  | .setCurrentUser user => c.setCurrentUser user
  | .updateSubscription subscription => (c.storeSubscription subscription .merge).2
  | .replaceSubscription subscription => (c.replaceSubscription subscription).2
  | .removeSubscription roomId => (c.removeSubscription roomId).2
  | .updateMessage message => (c.storeMessage message .replace).2
  | .mergeMessage message => (c.mergeMessage message).2
  | .replaceMessage message => (c.replaceMessage message).2
  | .removeMessage id => (c.removeMessage id).2
  | .removeMessageIn roomId id => (c.removeMessageIn roomId id).2
  | .clear => c.clear

/-- The state a list of operations leaves, from an empty cache. -/
def run (config : CacheConfig) (ops : List CacheOp) : Cache :=
  ops.foldl apply (fromConfig config)

section Run

variable {config : CacheConfig} {ops : List CacheOp} {op : CacheOp}

@[simp] theorem run_nil : run config [] = fromConfig config := rfl

@[simp] theorem run_snoc : run config (ops ++ [op]) = (run config ops).apply op := by
  simp [run]

/-- **The induction rule for runs.**  What holds of an empty cache and is preserved by every
operation of the run holds of the state it leaves. -/
theorem run_induction {I : List CacheOp → Cache → Prop} (hnil : I [] (fromConfig config))
    (hsnoc : ∀ pre op, pre ++ [op] <+: ops → I pre (run config pre) →
      I (pre ++ [op]) ((run config pre).apply op)) : I ops (run config ops) := by
  suffices h : ∀ pre, pre <+: ops → I pre (run config pre) from h ops List.prefix_rfl
  intro pre
  induction pre using List.reverseRecOn with
  | nil => exact fun _ => hnil
  | append_singleton pre op ih =>
    intro hpre
    rw [run_snoc]
    exact hsnoc pre op hpre (ih ((List.prefix_append pre [op]).trans hpre))

/-! ### Stays -/

/-- The current stay of what `held` says began with operation number `n` of the run: it did
not hold before that operation and has held ever since. -/
def StaysSince (held : Cache → Prop) (config : CacheConfig) (ops : List CacheOp) (n : ℕ) :
    Prop :=
  n < ops.length ∧ ¬held (run config (ops.take n)) ∧
    ∀ k, n < k → k ≤ ops.length → held (run config (ops.take k))

variable {held : Cache → Prop} {n : ℕ}

/-- A stay that one more operation did not end is the stay of before, or begins with it. -/
theorem StaysSince.of_snoc (h : StaysSince held config (ops ++ [op]) n) :
    (held (run config ops) → StaysSince held config ops n) ∧
      (¬held (run config ops) → n = ops.length) := by
  obtain ⟨hlt, hnot, hsince⟩ := h
  rw [List.length_append, List.length_singleton] at hlt hsince
  have htake : ∀ k, k ≤ ops.length → (ops ++ [op]).take k = ops.take k :=
    fun k hk => List.take_append_of_le_length hk
  have hbefore : ∀ k, n < k → k ≤ ops.length → held (run config (ops.take k)) := by
    intro k hnk hk
    have := hsince k hnk (by omega)
    rwa [htake k hk] at this
  constructor
  · intro hheld
    rw [htake n (by omega)] at hnot
    refine ⟨lt_of_le_of_ne (by omega) ?_, hnot, hbefore⟩
    rintro rfl
    rw [List.take_length] at hnot
    exact hnot hheld
  · intro hheld
    by_contra hne
    have hlast := hbefore ops.length (by omega) le_rfl
    rw [List.take_length] at hlast
    exact hheld hlast

/-- What holds now, and did not in an empty cache, has a stay. -/
theorem exists_staysSince (hempty : ¬held (fromConfig config)) (h : held (run config ops)) :
    ∃ n, StaysSince held config ops n := by
  induction ops using List.reverseRecOn with
  | nil => exact absurd h hempty
  | append_singleton ops op ih =>
    have htake : ∀ k, k ≤ ops.length → (ops ++ [op]).take k = ops.take k :=
      fun k hk => List.take_append_of_le_length hk
    by_cases hbefore : held (run config ops)
    · obtain ⟨n, hlt, hnot, hsince⟩ := ih hbefore
      refine ⟨n, by simp; omega, by rwa [htake n hlt.le], fun k hnk hk => ?_⟩
      rw [List.length_append, List.length_singleton] at hk
      rcases Nat.lt_or_ge ops.length k with hlast | hk'
      · rwa [List.take_of_length_le (by simp; omega)]
      · rw [htake k hk']
        exact hsince k hnk hk'
    · refine ⟨ops.length, by simp, by rwa [htake _ le_rfl, List.take_length], fun k hnk _ => ?_⟩
      rwa [List.take_of_length_le (by simp; omega)]

end Run

/-! ### What an operation leaves alone -/

/-- `Frame c kind c'`: from `c` to `c'` only the maps of one kind of entity have changed. -/
inductive Frame (c : Cache) : ResourceType → Cache → Prop
  | room (rooms : Table RoomId Room) (roomsByName : Table String RoomId) :
      Frame c .room { c with rooms := rooms, roomsByName := roomsByName }
  | user (users : Table UserId User) (usersByUsername : Table String UserId)
      (userOrder : List UserId) (currentUser : Option User) :
      Frame c .user { c with
        users := users
        usersByUsername := usersByUsername
        userOrder := userOrder
        currentUser := currentUser }
  | subscription (subscriptions : Table RoomId Subscription) :
      Frame c .subscription { c with subscriptions := subscriptions }
  | message (messages : Table MessageId Message)
      (roomMessages : Table RoomId (List MessageId)) :
      Frame c .message { c with messages := messages, roomMessages := roomMessages }

variable {c c' c'' : Cache} {kind : ResourceType}

theorem Frame.trans (h : Frame c kind c') (h' : Frame c' kind c'') : Frame c kind c'' := by
  cases h with
  | room => cases h'; exact .room _ _
  | user => cases h'; exact .user _ _ _ _
  | subscription => cases h'; exact .subscription _
  | message => cases h'; exact .message _ _

theorem Frame.config_eq (h : Frame c kind c') : c'.config = c.config := by
  cases h <;> rfl

/-- The rooms are written by the operations on rooms only. -/
theorem Frame.rooms_eq (h : Frame c kind c') (hkind : kind ≠ .room) :
    c'.rooms = c.rooms ∧ c'.roomsByName = c.roomsByName := by
  cases h with
  | room => exact absurd rfl hkind
  | user => exact ⟨rfl, rfl⟩
  | subscription => exact ⟨rfl, rfl⟩
  | message => exact ⟨rfl, rfl⟩

/-- The subscriptions are written by the operations on subscriptions only. -/
theorem Frame.subscriptions_eq (h : Frame c kind c') (hkind : kind ≠ .subscription) :
    c'.subscriptions = c.subscriptions := by
  cases h with
  | room => rfl
  | user => rfl
  | subscription => exact absurd rfl hkind
  | message => rfl

/-- The messages and the rings are written by the operations on messages only. -/
theorem Frame.messages_eq (h : Frame c kind c') (hkind : kind ≠ .message) :
    c'.messages = c.messages ∧ c'.roomMessages = c.roomMessages := by
  cases h with
  | room => exact ⟨rfl, rfl⟩
  | user => exact ⟨rfl, rfl⟩
  | subscription => exact ⟨rfl, rfl⟩
  | message => exact absurd rfl hkind

/-- The users, their usernames and the queue. -/
def userStore (c : Cache) : Table UserId User × Table String UserId × List UserId :=
  (c.users, c.usersByUsername, c.userOrder)

/-- The users are written by the operations on users only, and so is the current one. -/
theorem Frame.users_eq (h : Frame c kind c') (hkind : kind ≠ .user) :
    c'.userStore = c.userStore ∧ c'.currentUser = c.currentUser := by
  cases h with
  | room => exact ⟨rfl, rfl⟩
  | user => exact absurd rfl hkind
  | subscription => exact ⟨rfl, rfl⟩
  | message => exact ⟨rfl, rfl⟩

theorem storeRoom_frame (room : Room) (mode : StoreMode) :
    Frame c .room (c.storeRoom room mode).2 := by
  unfold storeRoom
  split
  · exact .room c.rooms c.roomsByName
  · exact .room _ _

theorem dropUser_frame (id : UserId) : Frame c .user (c.dropUser id).2 := .user _ _ _ _

theorem noteNewUser_none {id : UserId} (h : c.config.userCacheSize = none) :
    c.noteNewUser id = c := by
  unfold noteNewUser
  rw [h]

theorem noteNewUser_some {id : UserId} {capacity : ℕ+}
    (h : c.config.userCacheSize = some capacity) : c.noteNewUser id =
      (popOldest id (c.users.size - capacity) (c.userOrder ++ [id])).1.foldl
        (fun c victim => (c.dropUser victim).2)
        { c with
          userOrder := (popOldest id (c.users.size - capacity) (c.userOrder ++ [id])).2 } := by
  unfold noteNewUser
  rw [h]

theorem noteNewUser_frame (id : UserId) : Frame c .user (c.noteNewUser id) := by
  cases h : c.config.userCacheSize with
  | none =>
    rw [noteNewUser_none h]
    exact .user c.users c.usersByUsername c.userOrder c.currentUser
  | some capacity =>
    rw [noteNewUser_some h]
    generalize popOldest id _ _ = popped
    obtain ⟨evicted, order⟩ := popped
    -- every victim is dropped from the maps, one after the other
    suffices hfold : ∀ c', Frame c .user c' →
        Frame c .user (evicted.foldl (fun c victim => (c.dropUser victim).2) c') from
      hfold _ (.user c.users c.usersByUsername order c.currentUser)
    intro c' hc'
    induction evicted generalizing c' with
    | nil => exact hc'
    | cons victim evicted ih => exact ih _ (hc'.trans (dropUser_frame victim))

/-- The state between the upsert of a user and the noting of a new one. -/
def putUser (c : Cache) (user : User) (mode : StoreMode) : Cache :=
  let stored := mode.stored (c.users.lookup user.id) user
  { c with
    users := c.users.insert user.id stored
    usersByUsername := reindex c.usersByUsername
      ((c.users.lookup user.id).bind (·.username)) stored.username user.id }

theorem storeUser_unwanted {user : User} {mode : StoreMode} (h : c.wants .user = false) :
    (c.storeUser user mode).2 = c := by
  unfold storeUser
  rw [h]
  rfl

/-- What storing a user leaves. -/
theorem storeUser_wanted {user : User} {mode : StoreMode} (h : c.wants .user = true) :
    (c.storeUser user mode).2 =
      if (c.users.lookup user.id).isNone then (c.putUser user mode).noteNewUser user.id
      else c.putUser user mode := by
  unfold storeUser
  rw [h]
  rfl

theorem storeUser_frame (user : User) (mode : StoreMode) :
    Frame c .user (c.storeUser user mode).2 := by
  cases hwants : c.wants .user with
  | false =>
    rw [storeUser_unwanted hwants]
    exact .user c.users c.usersByUsername c.userOrder c.currentUser
  | true =>
    have hput : Frame c .user (c.putUser user mode) := .user _ _ c.userOrder c.currentUser
    rw [storeUser_wanted hwants]
    split
    · exact hput.trans (noteNewUser_frame user.id)
    · exact hput

theorem removeUser_frame (id : UserId) : Frame c .user (c.removeUser id).2 := by
  unfold removeUser
  simp only
  split
  · exact (dropUser_frame id).trans (.user _ _ _ _)
  · exact dropUser_frame id

theorem refreshCurrentUser_frame (user : User) (mode : StoreMode) :
    ∃ current, c.refreshCurrentUser user mode = { c with currentUser := current } := by
  unfold refreshCurrentUser
  split
  · exact ⟨_, rfl⟩
  · split
    · split
      · exact ⟨_, rfl⟩
      · exact ⟨_, rfl⟩
    · exact ⟨_, rfl⟩

/-- Refreshing the current user after a write of users. -/
theorem Frame.refreshCurrentUser (h : Frame c .user c') (user : User) (mode : StoreMode) :
    Frame c .user (c'.refreshCurrentUser user mode) := by
  obtain ⟨current, hcurrent⟩ := refreshCurrentUser_frame (c := c') user mode
  rw [hcurrent]
  exact h.trans (.user _ _ _ _)

theorem setCurrentUser_frame (user : User) : Frame c .user (c.setCurrentUser user) := by
  unfold setCurrentUser
  split
  · exact Frame.trans (.user c.users c.usersByUsername c.userOrder (some user))
      (storeUser_frame user .merge)
  · exact storeUser_frame user .merge

theorem storeSubscription_frame (subscription : Subscription) (mode : StoreMode) :
    Frame c .subscription (c.storeSubscription subscription mode).2 := by
  unfold storeSubscription
  split
  · exact .subscription c.subscriptions
  · exact .subscription _

theorem unlinkMessage_frame (roomId : RoomId) (id : MessageId) :
    ∃ rings, c.unlinkMessage roomId id = { c with roomMessages := rings } := by
  unfold unlinkMessage
  split
  · simp only
    split
    · exact ⟨_, rfl⟩
    · exact ⟨_, rfl⟩
  · exact ⟨_, rfl⟩

theorem removeMessageIn_frame (roomId : RoomId) (id : MessageId) :
    Frame c .message (c.removeMessageIn roomId id).2 := by
  obtain ⟨rings, h⟩ := unlinkMessage_frame roomId id
    (c := { c with messages := c.messages.erase id })
  show Frame c .message (unlinkMessage { c with messages := c.messages.erase id } roomId id)
  rw [h]
  exact .message _ _

theorem insertMessage_frame (message : Message) (mode : StoreMode) :
    Frame c .message (c.insertMessage message mode).2 := by
  unfold insertMessage
  simp only
  split
  · exact .message _ _
  · exact .message _ _

theorem storeMessage_frame (message : Message) (mode : StoreMode) :
    Frame c .message (c.storeMessage message mode).2 := by
  unfold storeMessage
  split
  · exact .message c.messages c.roomMessages
  · split
    · cases c.config.tombstonePolicy with
      | evict => exact removeMessageIn_frame message.rid message.id
      | replace => exact insertMessage_frame message .replace
    · exact insertMessage_frame message mode

theorem removeMessage_frame (id : MessageId) : Frame c .message (c.removeMessage id).2 := by
  unfold removeMessage
  cases c.messages.lookup id with
  | none => exact .message _ _
  | some message => exact removeMessageIn_frame message.rid id

end Cache

/-- The kind of entity an operation writes, if it writes only one. -/
def CacheOp.kind : CacheOp → Option ResourceType
  | .updateRoom _ | .replaceRoom _ | .mergeRoom _ => some .room
  | .updateUser _ | .replaceUser _ | .removeUser _ | .setCurrentUser _ => some .user
  | .updateSubscription _ | .replaceSubscription _ | .removeSubscription _ => some .subscription
  | .updateMessage _ | .mergeMessage _ | .replaceMessage _ => some .message
  | .removeMessage _ | .removeMessageIn _ _ => some .message
  | .removeRoom _ | .clear => none

namespace Cache

variable {c : Cache} {op : CacheOp} {kind : ResourceType}

/-- **An operation writes the maps of its kind only.** -/
theorem apply_frame (hkind : op.kind = some kind) : Frame c kind (c.apply op) := by
  cases op with
  -- These two write maps of several kinds.
  | removeRoom id => cases hkind
  | clear => cases hkind
  | updateRoom room => cases hkind; exact storeRoom_frame room .replace
  | replaceRoom room => cases hkind; exact storeRoom_frame room .replace
  | mergeRoom room => cases hkind; exact storeRoom_frame room .merge
  | updateUser user =>
    cases hkind
    exact (storeUser_frame user .merge).refreshCurrentUser user .merge
  | replaceUser user =>
    cases hkind; exact (storeUser_frame user .replace).refreshCurrentUser user .replace
  | removeUser id => cases hkind; exact removeUser_frame id
  | setCurrentUser user => cases hkind; exact setCurrentUser_frame user
  | updateSubscription subscription =>
    cases hkind
    exact storeSubscription_frame subscription .merge
  | replaceSubscription subscription =>
    cases hkind; exact storeSubscription_frame subscription .replace
  | removeSubscription roomId => cases hkind; exact .subscription _
  | updateMessage message => cases hkind; exact storeMessage_frame message .replace
  | mergeMessage message => cases hkind; exact storeMessage_frame message .merge
  | replaceMessage message => cases hkind; exact storeMessage_frame message .replace
  | removeMessage id => cases hkind; exact removeMessage_frame id
  | removeMessageIn roomId id => cases hkind; exact removeMessageIn_frame roomId id

/-- The state once a room, its name and its subscription are removed. -/
def dropRoom (c : Cache) (id : RoomId) : Cache :=
  { c with
    rooms := c.rooms.erase id
    roomsByName := unindex c.roomsByName ((c.rooms.lookup id).bind (·.name)) id
    subscriptions := c.subscriptions.erase id }

theorem removeRoom_none {id : RoomId} (h : c.roomMessages.lookup id = none) :
    (c.removeRoom id).2 = c.dropRoom id := by
  unfold removeRoom
  simp only [h]
  rfl

theorem removeRoom_some {id : RoomId} {ring : List MessageId}
    (h : c.roomMessages.lookup id = some ring) : (c.removeRoom id).2 =
      { c.dropRoom id with
        roomMessages := c.roomMessages.erase id
        messages := c.messages.eraseAll ring } := by
  unfold removeRoom
  simp only [h]
  rfl

/-- What removing a room does beside its messages. -/
theorem removeRoom_frame (id : RoomId) : Frame (c.dropRoom id) .message (c.removeRoom id).2 := by
  cases h : c.roomMessages.lookup id with
  | none =>
    rw [removeRoom_none h]
    exact .message c.messages c.roomMessages
  | some ring =>
    rw [removeRoom_some h]
    exact .message _ _

/-- No operation changes the configuration. -/
theorem apply_config (c : Cache) (op : CacheOp) : (c.apply op).config = c.config := by
  cases op with
  | removeRoom id => exact (removeRoom_frame id).config_eq
  | clear => rfl
  | _ => exact (apply_frame (by rfl)).config_eq

@[simp] theorem run_config {config : CacheConfig} {ops : List CacheOp} :
    (run config ops).config = config := by
  induction ops using List.reverseRecOn with
  | nil => rfl
  | append_singleton ops op ih => rw [run_snoc, apply_config, ih]

end Cache

/-! ### Moves -/

/-- What an operation does to the rooms and their names. -/
inductive RoomMove where
  | keep
  | store (room : Room) (mode : StoreMode)
  | drop (id : RoomId)
  | clear

/-- What an operation does to the users, their usernames and the queue. -/
inductive UserMove where
  | keep
  | store (user : User) (mode : StoreMode)
  | remove (id : UserId)
  | clear

/-- What an operation does to the messages and the rings. -/
inductive MessageMove where
  | keep
  /-- Stores a live message, or a tombstone that replaces the body. -/
  | insert (message : Message) (mode : StoreMode)
  | remove (roomId : RoomId) (id : MessageId)
  | dropRoom (roomId : RoomId)
  | clear

/-- The room move of an operation. -/
def CacheOp.roomMove : CacheOp → RoomMove
  | .updateRoom room => .store room .replace
  | .replaceRoom room => .store room .replace
  | .mergeRoom room => .store room .merge
  | .removeRoom id => .drop id
  | .clear => .clear
  | _ => .keep

/-- The user move of an operation. -/
def CacheOp.userMove : CacheOp → UserMove
  | .updateUser user => .store user .merge
  | .replaceUser user => .store user .replace
  | .removeUser id => .remove id
  | .setCurrentUser user => .store user .merge
  | .clear => .clear
  | _ => .keep

namespace Cache

variable {c : Cache}

/-- The move of storing a message. -/
def storeMove (c : Cache) (message : Message) (mode : StoreMode) : MessageMove :=
  if !c.wants .message || c.config.messageCacheSize = 0 then .keep
  else if message.isDeletedTombstone then
    match c.config.tombstonePolicy with
    | .evict => .remove message.rid message.id
    | .replace => .insert message .replace
  else .insert message mode

/-- The message move of an operation. -/
def messageMove (c : Cache) : CacheOp → MessageMove
  | .updateMessage message => c.storeMove message .replace
  | .replaceMessage message => c.storeMove message .replace
  | .mergeMessage message => c.storeMove message .merge
  | .removeMessage id => (c.messages.lookup id).elim .keep fun message => .remove message.rid id
  | .removeMessageIn roomId id => .remove roomId id
  | .removeRoom id => .dropRoom id
  | .clear => .clear
  | _ => .keep

/-- The state after a room move. -/
def moveRooms (c : Cache) : RoomMove → Cache
  | .keep => c
  | .store room mode => (c.storeRoom room mode).2
  | .drop id => (c.removeRoom id).2
  | .clear => c.clear

/-- The state after a user move. -/
def moveUsers (c : Cache) : UserMove → Cache
  | .keep => c
  | .store user mode => (c.storeUser user mode).2
  | .remove id => (c.removeUser id).2
  | .clear => c.clear

/-- The state after a message move. -/
def moveMessages (c : Cache) : MessageMove → Cache
  | .keep => c
  | .insert message mode => (c.insertMessage message mode).2
  | .remove roomId id => (c.removeMessageIn roomId id).2
  | .dropRoom roomId => (c.removeRoom roomId).2
  | .clear => c.clear

/-- **Every operation moves the rooms as its move does.** -/
theorem apply_rooms (c : Cache) (op : CacheOp) :
    (c.apply op).rooms = (c.moveRooms op.roomMove).rooms ∧
      (c.apply op).roomsByName = (c.moveRooms op.roomMove).roomsByName := by
  cases op with
  | updateRoom room => exact ⟨rfl, rfl⟩
  | replaceRoom room => exact ⟨rfl, rfl⟩
  | mergeRoom room => exact ⟨rfl, rfl⟩
  | removeRoom id => exact ⟨rfl, rfl⟩
  | clear => exact ⟨rfl, rfl⟩
  | _ => exact (apply_frame (by rfl)).rooms_eq (by decide)

theorem storeMessage_eq (message : Message) (mode : StoreMode) :
    (c.storeMessage message mode).2 = c.moveMessages (c.storeMove message mode) := by
  unfold storeMessage storeMove
  split
  · rfl
  · split
    · cases c.config.tombstonePolicy with
      | evict => rfl
      | replace => rfl
    · rfl

/-- Removing a message that is not cached changes nothing. -/
theorem removeMessage_eq (id : MessageId) :
    (c.removeMessage id).2 = c.moveMessages (c.messageMove (.removeMessage id)) := by
  show _ = c.moveMessages ((c.messages.lookup id).elim .keep fun message =>
    .remove message.rid id)
  unfold removeMessage
  cases hm : c.messages.lookup id with
  | none =>
    have herase : c.messages.erase id = c.messages := by
      apply Finmap.ext_lookup
      intro k
      rw [Finmap.lookup_erase_eq]
      split
      · next hk => rw [hk, hm]
      · rfl
    simp only [herase, moveMessages, Option.elim_none]
  | some message => rfl

/-- **Every operation moves the messages as its move does.** -/
theorem apply_messages (c : Cache) (op : CacheOp) :
    (c.apply op).messages = (c.moveMessages (c.messageMove op)).messages ∧
      (c.apply op).roomMessages = (c.moveMessages (c.messageMove op)).roomMessages := by
  cases op with
  | removeRoom id => exact ⟨rfl, rfl⟩
  | updateMessage message => simp [apply, messageMove, storeMessage_eq]
  | mergeMessage message => simp [apply, messageMove, mergeMessage, storeMessage_eq]
  | replaceMessage message => simp [apply, messageMove, replaceMessage, storeMessage_eq]
  | removeMessage id => simp [apply, removeMessage_eq]
  | removeMessageIn roomId id => exact ⟨rfl, rfl⟩
  | clear => exact ⟨rfl, rfl⟩
  | _ => exact (apply_frame (by rfl)).messages_eq (by decide)

/-- The same cache with another current user. -/
def withCurrent (c : Cache) (current : Option User) : Cache := { c with currentUser := current }

@[simp] theorem userStore_withCurrent (current : Option User) :
    (c.withCurrent current).userStore = c.userStore := rfl

theorem foldl_dropUser_withCurrent (current : Option User) (ids : List UserId) :
    ids.foldl (fun c id => (c.dropUser id).2) (c.withCurrent current) =
      (ids.foldl (fun c id => (c.dropUser id).2) c).withCurrent current := by
  induction ids generalizing c with
  | nil => rfl
  | cons id ids ih => exact ih (c := (c.dropUser id).2)

theorem noteNewUser_withCurrent (current : Option User) (id : UserId) :
    (c.withCurrent current).noteNewUser id = (c.noteNewUser id).withCurrent current := by
  cases h : c.config.userCacheSize with
  | none => rw [noteNewUser_none h, noteNewUser_none (c := c.withCurrent current) h]
  | some capacity =>
    rw [noteNewUser_some h, noteNewUser_some (c := c.withCurrent current) h,
      ← foldl_dropUser_withCurrent]
    rfl

/-- Storing a user does not look at the current one. -/
theorem storeUser_withCurrent (current : Option User) (user : User) (mode : StoreMode) :
    ((c.withCurrent current).storeUser user mode).2 =
      (c.storeUser user mode).2.withCurrent current := by
  cases hwants : c.wants .user with
  | false => rw [storeUser_unwanted hwants, storeUser_unwanted (c := c.withCurrent current) hwants]
  | true =>
    have hput : (c.withCurrent current).putUser user mode =
      (c.putUser user mode).withCurrent current := rfl
    have hlookup : (c.withCurrent current).users.lookup user.id = c.users.lookup user.id := rfl
    rw [storeUser_wanted hwants, storeUser_wanted (c := c.withCurrent current) hwants, hlookup,
      hput]
    split
    · exact noteNewUser_withCurrent current user.id
    · rfl

theorem storeUser_currentUser (user : User) (mode : StoreMode) :
    (c.storeUser user mode).2.currentUser = c.currentUser := by
  have h := storeUser_withCurrent c.currentUser user mode (c := c)
  rw [show c.withCurrent c.currentUser = c from rfl] at h
  rw [h]
  rfl

theorem userStore_refreshCurrentUser (user : User) (mode : StoreMode) :
    (c.refreshCurrentUser user mode).userStore = c.userStore := by
  obtain ⟨current, h⟩ := refreshCurrentUser_frame (c := c) user mode
  rw [h]
  rfl

theorem userStore_setCurrentUser (user : User) :
    (c.setCurrentUser user).userStore = (c.storeUser user .merge).2.userStore := by
  unfold setCurrentUser
  split
  · show ((c.withCurrent (some user)).storeUser user .merge).2.userStore = _
    rw [storeUser_withCurrent, userStore_withCurrent]
  · rfl

/-- **Every operation moves the users as its move does.** -/
theorem apply_users (c : Cache) (op : CacheOp) :
    (c.apply op).userStore = (c.moveUsers op.userMove).userStore := by
  cases op with
  | removeRoom id => exact ((removeRoom_frame id).users_eq (by decide)).1
  | updateUser user => exact userStore_refreshCurrentUser user .merge
  | replaceUser user => exact userStore_refreshCurrentUser user .replace
  | removeUser id => rfl
  | setCurrentUser user => exact userStore_setCurrentUser user
  | clear => rfl
  | _ => exact ((apply_frame (by rfl)).users_eq (by decide)).1

end Cache

end RocketSocket
