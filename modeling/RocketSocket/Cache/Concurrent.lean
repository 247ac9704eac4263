import RocketSocket.Lib.Interleave
import RocketSocket.Cache.Run

/-!
# Concurrent callers of the cache

Every operation but `clear` as the single-map operations it makes, each of them atomic: the
map is locked for one access and released before the next.  The calls of any number of
callers interleave.

## Main definitions

* `Access`, `Cache.access` — the single-map operations.
* `Cache.accesses` — the accesses a call begins with.
* `Cache.concurrent` — the machine of all interleavings.

## Main results

* `alone_accesses` — a call that is not interrupted is the sequential operation.
* `exists_concurrent_run` — so every sequential run is one of the interleavings.
-/

namespace RocketSocket

open Machine

/-- An access to one map, and what its call does with the answer. -/
inductive Access where
  | upsertRoom (room : Room) (mode : StoreMode)
  | takeRoom (id : RoomId)
  | unnameRoom (name : String) (id : RoomId)
  | nameRoom (name : String) (id : RoomId)
  | upsertSubscription (subscription : Subscription) (mode : StoreMode)
  | takeSubscription (roomId : RoomId)
  | upsertMessage (message : Message) (mode : StoreMode)
  /-- Removes a message from the map and is done with it. -/
  | takeMessage (id : MessageId)
  /-- Removes a message from the map, to unlink it from its room's ring. -/
  | removeMessage (id : MessageId)
  | link (roomId : RoomId) (id : MessageId)
  | unlink (roomId : RoomId) (id : MessageId)
  | dropRing (roomId : RoomId)
  | takeRing (roomId : RoomId)
  | upsertUser (user : User) (mode : StoreMode)
  /-- Removes a user from the map, without touching the queue. -/
  | takeUser (id : UserId)
  /-- Removes a user from the map, to take it out of the queue. -/
  | removeUser (id : UserId)
  | unnameUser (name : String) (id : UserId)
  | nameUser (name : String) (id : UserId)
  /-- Reads how many users there are, for a new one. -/
  | countUsers (id : UserId) (capacity : ℕ+)
  /-- Pushes a new user on the queue and pops at most so many. -/
  | queueUser (id : UserId) (overCapacity : ℕ)
  | forgetUser (id : UserId)
  | writeCurrent (user : User)
  | readCurrent (user : User) (mode : StoreMode)
  | refreshCurrent (user : User) (mode : StoreMode)

namespace Cache

/-! ### The accesses -/

/-- The accesses of a reindex. -/
def renames (unname name : String → Access) (old new : Option String) : List Access :=
  if old = new then [] else old.toList.map unname ++ new.toList.map name

/-- The accesses that note a new user. -/
def notes (c : Cache) (id : UserId) : List Access :=
  c.config.userCacheSize.toList.map (.countUsers id)

/-- Makes one access; says which accesses its call makes next because of the answer. -/
def access (c : Cache) : Access → Cache × List Access
  | .upsertRoom room mode =>
    let ((previous, newName), rooms) := upsert c.rooms room.id room mode (·.name)
    ({ c with rooms := rooms },
      renames (.unnameRoom · room.id) (.nameRoom · room.id) (previous.bind (·.name)) newName)
  | .takeRoom id =>
    ({ c with rooms := c.rooms.erase id },
      ((c.rooms.lookup id).bind (·.name)).toList.map (.unnameRoom · id))
  | .unnameRoom name id =>
    ({ c with roomsByName := c.roomsByName.removeIf name (· = id) }, [])
  | .nameRoom name id => ({ c with roomsByName := c.roomsByName.insert name id }, [])
  | .upsertSubscription subscription mode =>
    ({ c with subscriptions :=
        (upsert c.subscriptions subscription.rid subscription mode fun _ => ()).2 }, [])
  | .takeSubscription roomId => ({ c with subscriptions := c.subscriptions.erase roomId }, [])
  | .upsertMessage message mode =>
    let ((previous, ()), messages) :=
      upsert c.messages message.id message mode fun _ => ()
    ({ c with messages := messages },
      if previous.isNone then [.link message.rid message.id] else [])
  | .takeMessage id => ({ c with messages := c.messages.erase id }, [])
  | .removeMessage id =>
    ({ c with messages := c.messages.erase id },
      (c.messages.lookup id).toList.map fun message => .unlink message.rid id)
  | .link roomId id =>
    let capacity := c.config.messageCacheSize
    let ring := id :: c.roomMessageIds roomId
    let evicted := (ring.drop capacity).reverse
    ({ c with roomMessages := c.roomMessages.insert roomId (ring.take capacity) },
      evicted.map .takeMessage)
  | .unlink roomId id =>
    match c.roomMessages.lookup roomId with
    | some ring =>
      let ring := ring.filter (· ≠ id)
      ({ c with roomMessages := c.roomMessages.insert roomId ring },
        if ring.isEmpty then [.dropRing roomId] else [])
    | none => (c, [])
  | .dropRing roomId =>
    ({ c with roomMessages := c.roomMessages.removeIf roomId List.isEmpty }, [])
  | .takeRing roomId =>
    match c.roomMessages.lookup roomId with
    | some ring =>
      ({ c with roomMessages := c.roomMessages.erase roomId }, ring.map .takeMessage)
    | none => (c, [])
  | .upsertUser user mode =>
    let ((previous, newUsername), users) := upsert c.users user.id user mode (·.username)
    ({ c with users := users },
      renames (.unnameUser · user.id) (.nameUser · user.id) (previous.bind (·.username))
          newUsername ++
        if previous.isNone then c.notes user.id else [])
  | .takeUser id =>
    ({ c with users := c.users.erase id },
      ((c.users.lookup id).bind (·.username)).toList.map (.unnameUser · id))
  | .removeUser id =>
    ({ c with users := c.users.erase id },
      ((c.users.lookup id).bind (·.username)).toList.map (.unnameUser · id) ++
        if (c.users.lookup id).isSome && c.config.userCacheSize.isSome then [.forgetUser id]
        else [])
  | .unnameUser name id =>
    ({ c with usersByUsername := c.usersByUsername.removeIf name (· = id) }, [])
  | .nameUser name id => ({ c with usersByUsername := c.usersByUsername.insert name id }, [])
  | .countUsers id capacity => (c, [.queueUser id (c.users.size - capacity)])
  | .queueUser id overCapacity =>
    let (evicted, order) := popOldest id overCapacity (c.userOrder ++ [id])
    ({ c with userOrder := order }, evicted.map .takeUser)
  | .forgetUser id => ({ c with userOrder := c.userOrder.filter (· ≠ id) }, [])
  | .writeCurrent user => ({ c with currentUser := some user }, [])
  | .readCurrent user mode =>
    -- the fast path under the read lock
    (c, if c.currentUser.any (·.id = user.id) then [.refreshCurrent user mode] else [])
  | .refreshCurrent user mode =>
    -- under the write lock the current user may be another one by now
    ({ c with currentUser := c.currentUser.map fun current =>
        if current.id = user.id then mode.stored (some current) user else current }, [])

section Access

variable {c : Cache} {roomId : RoomId} {id : MessageId} {ring : List MessageId}

theorem access_unlink_none (h : c.roomMessages.lookup roomId = none) :
    c.access (.unlink roomId id) = (c, []) := by
  simp only [access, h]

theorem access_unlink_some (h : c.roomMessages.lookup roomId = some ring) :
    c.access (.unlink roomId id) =
      ({ c with roomMessages := c.roomMessages.insert roomId (ring.filter (· ≠ id)) },
        if (ring.filter (· ≠ id)).isEmpty then [.dropRing roomId] else []) := by
  simp only [access, h]

theorem access_takeRing_none (h : c.roomMessages.lookup roomId = none) :
    c.access (.takeRing roomId) = (c, []) := by
  simp only [access, h]

theorem access_takeRing_some (h : c.roomMessages.lookup roomId = some ring) :
    c.access (.takeRing roomId) =
      ({ c with roomMessages := c.roomMessages.erase roomId }, ring.map .takeMessage) := by
  simp only [access, h]

end Access

/-! ### The calls -/

/-- The accesses that store a user. -/
def storesUser (c : Cache) (user : User) (mode : StoreMode) : List Access :=
  if c.wants .user then [.upsertUser user mode] else []

/-- The accesses that refresh the current user. -/
def refreshes (c : Cache) (user : User) (mode : StoreMode) : List Access :=
  if c.wants .currentUser then [.readCurrent user mode] else []

/-- The accesses that store a message: the configuration alone decides which. -/
def storesMessage (c : Cache) (message : Message) (mode : StoreMode) : List Access :=
  if !c.wants .message || c.config.messageCacheSize = 0 then []
  else if message.isDeletedTombstone then
    match c.config.tombstonePolicy with
    | .evict => [.takeMessage message.id, .unlink message.rid message.id]
    | .replace => [.upsertMessage message .replace]
  else [.upsertMessage message mode]

/-- The accesses that store a room. -/
def storesRoom (c : Cache) (room : Room) (mode : StoreMode) : List Access :=
  if c.wants .room then [.upsertRoom room mode] else []

/-- The accesses that store a subscription. -/
def storesSubscription (c : Cache) (subscription : Subscription) (mode : StoreMode) :
    List Access :=
  if c.wants .subscription then [.upsertSubscription subscription mode] else []

/-- The accesses a call begins with.  Emptying the cache is not one of the calls. -/
def accesses (c : Cache) : CacheOp → Option (List Access)
  | .updateRoom room | .replaceRoom room => some (c.storesRoom room .replace)
  | .mergeRoom room => some (c.storesRoom room .merge)
  | .removeRoom id => some [.takeRoom id, .takeSubscription id, .takeRing id]
  | .updateUser user => some (c.storesUser user .merge ++ c.refreshes user .merge)
  | .replaceUser user => some (c.storesUser user .replace ++ c.refreshes user .replace)
  | .removeUser id => some [.removeUser id]
  | .setCurrentUser user =>
    some ((if c.wants .currentUser then [.writeCurrent user] else []) ++
      c.storesUser user .merge)
  | .updateSubscription subscription => some (c.storesSubscription subscription .merge)
  | .replaceSubscription subscription => some (c.storesSubscription subscription .replace)
  | .removeSubscription roomId => some [.takeSubscription roomId]
  | .updateMessage message | .replaceMessage message => some (c.storesMessage message .replace)
  | .mergeMessage message => some (c.storesMessage message .merge)
  | .removeMessage id => some [.removeMessage id]
  | .removeMessageIn roomId id => some [.takeMessage id, .unlink roomId id]
  | .clear => none

/-- All the interleavings of any number of calls. -/
def concurrent : Pool Cache Access → PoolInput CacheOp →
    Option (Pool Cache Access × List (Made Cache Access)) :=
  Pool.step accesses access

/-! ### A call that is not interrupted -/

section Alone

variable {c c' : Cache} {V : Type} [DecidableEq V]

/-- Taking a name out of an index, where `put` says which index it is. -/
theorem alone_unname (put : Table String V → Cache) {unname : String → Access} {id : V}
    (hunname : ∀ t name, access (put t) (unname name) = (put (t.removeIf name (· = id)), []))
    (index : Table String V) (old : Option String) :
    Alone access (old.toList.map unname) (put index) (put (unindex index old id)) := by
  cases old with
  | none => exact .nil
  | some name =>
    refine .access (?_ : Alone access _ _ (put (index.removeIf name (· = id)))) .nil
    rw [hunname]
    exact .nil

/-- Moving a name in an index. -/
theorem alone_renames (put : Table String V → Cache) {unname name : String → Access} {id : V}
    (hunname : ∀ t old, access (put t) (unname old) = (put (t.removeIf old (· = id)), []))
    (hname : ∀ t new, access (put t) (name new) = (put (t.insert new id), []))
    (index : Table String V) (old new : Option String) :
    Alone access (renames unname name old new) (put index) (put (reindex index old new id)) := by
  unfold renames reindex
  split
  · exact .nil
  · refine (alone_unname put hunname index old).append ?_
    cases new with
    | none => exact .nil
    | some new =>
      refine .access (?_ : Alone access _ _ (put ((unindex index old id).insert new id))) .nil
      rw [hname]
      exact .nil

/-- Taking messages out of the map one by one. -/
theorem alone_takeMessages (ids : List MessageId) :
    Alone access (ids.map .takeMessage) c { c with messages := c.messages.eraseAll ids } := by
  induction ids generalizing c with
  | nil => exact .nil
  | cons id ids ih => exact .access .nil ih

theorem alone_takeUser (id : UserId) :
    Alone access (access c (.takeUser id)).2 (access c (.takeUser id)).1 (c.dropUser id).2 :=
  alone_unname (fun index => { c with users := c.users.erase id, usersByUsername := index })
    (fun _ _ => rfl) c.usersByUsername _

/-- Evicting users one by one. -/
theorem alone_takeUsers (ids : List UserId) :
    Alone access (ids.map .takeUser) c (ids.foldl (fun c id => (c.dropUser id).2) c) := by
  induction ids generalizing c with
  | nil => exact .nil
  | cons id ids ih => exact .access (alone_takeUser id) ih

theorem alone_notes (id : UserId) : Alone access (c.notes id) c (c.noteNewUser id) := by
  unfold notes
  cases h : c.config.userCacheSize with
  | none =>
    rw [noteNewUser_none h]
    exact .nil
  | some capacity =>
    rw [noteNewUser_some h]
    exact .access (.access (alone_takeUsers _) .nil) .nil

theorem alone_storesUser (user : User) (mode : StoreMode) :
    Alone access (c.storesUser user mode) c (c.storeUser user mode).2 := by
  unfold storesUser
  cases hwants : c.wants .user with
  | false =>
    rw [storeUser_unwanted hwants]
    exact .nil
  | true =>
    rw [storeUser_wanted hwants]
    refine .access (.append (alone_renames (fun index =>
      { c with
        users := c.users.insert user.id (mode.stored (c.users.lookup user.id) user)
        usersByUsername := index }) (fun _ _ => rfl) (fun _ _ => rfl) c.usersByUsername _ _)
      ?_) .nil
    show Alone access (if (c.users.lookup user.id).isNone then c.notes user.id else [])
      (c.putUser user mode) _
    split
    · exact alone_notes (c := c.putUser user mode) user.id
    · exact .nil

theorem alone_refreshes (user : User) (mode : StoreMode) :
    Alone access (c.refreshes user mode) c (c.refreshCurrentUser user mode) := by
  unfold refreshes refreshCurrentUser
  cases hwants : c.wants .currentUser with
  | false => exact .nil
  | true =>
    refine .access ?_ .nil
    show Alone access (if c.currentUser.any (·.id = user.id) then [.refreshCurrent user mode]
      else []) c _
    cases hcurrent : c.currentUser with
    | none => exact .nil
    | some current =>
      by_cases hid : current.id = user.id
      · simp only [Option.any_some, hid, decide_true, if_true, Bool.not_true]
        refine .access ?_ .nil
        simp only [access, hcurrent, Option.map_some, hid, if_true]
        exact .nil
      · simp only [Option.any_some, hid, decide_false, if_false, Bool.not_true]
        exact .nil

/-- The refresh that follows a write of users: whether there is one is settled before. -/
theorem alone_refreshes_of_config (h : c'.config = c.config) (user : User) (mode : StoreMode) :
    Alone access (c.refreshes user mode) c' (c'.refreshCurrentUser user mode) := by
  have hsame : c.refreshes user mode = c'.refreshes user mode := by
    unfold refreshes wants
    rw [h]
  rw [hsame]
  exact alone_refreshes user mode

theorem alone_removeUser (id : UserId) :
    Alone access [.removeUser id] c (c.removeUser id).2 := by
  refine .access (.append (alone_takeUser id) ?_) .nil
  unfold removeUser
  show Alone access _ _ (if (c.users.lookup id).isSome && c.config.userCacheSize.isSome then _
    else _)
  split
  · exact .access .nil .nil
  · exact .nil

theorem alone_setCurrentUser (user : User) :
    Alone access ((if c.wants .currentUser then [.writeCurrent user] else []) ++
      c.storesUser user .merge) c (c.setCurrentUser user) := by
  unfold setCurrentUser
  split
  · exact .access .nil (alone_storesUser (c := { c with currentUser := some user }) user .merge)
  · exact alone_storesUser user .merge

theorem alone_link (roomId : RoomId) (id : MessageId) :
    Alone access [.link roomId id] c (c.linkMessage roomId id) :=
  .access (alone_takeMessages _) .nil

theorem alone_unlink (roomId : RoomId) (id : MessageId) :
    Alone access [.unlink roomId id] c (c.unlinkMessage roomId id) := by
  refine .access ?_ .nil
  cases h : c.roomMessages.lookup roomId with
  | none =>
    rw [access_unlink_none h]
    unfold unlinkMessage
    rw [h]
    exact .nil
  | some ring =>
    rw [access_unlink_some h]
    unfold unlinkMessage
    simp only [h]
    split
    · exact .access .nil .nil
    · exact .nil

theorem alone_removeMessageIn (roomId : RoomId) (id : MessageId) :
    Alone access [.takeMessage id, .unlink roomId id] c (c.removeMessageIn roomId id).2 :=
  .access .nil (alone_unlink roomId id)

theorem alone_upsertMessage (message : Message) (mode : StoreMode) :
    Alone access [.upsertMessage message mode] c (c.insertMessage message mode).2 := by
  refine .access ?_ .nil
  unfold insertMessage
  show Alone access (if (c.messages.lookup message.id).isNone then _ else []) _
    (if (c.messages.lookup message.id).isNone then _ else _)
  split
  · exact alone_link message.rid message.id
  · exact .nil

theorem alone_storesMessage (message : Message) (mode : StoreMode) :
    Alone access (c.storesMessage message mode) c (c.storeMessage message mode).2 := by
  unfold storesMessage storeMessage
  split
  · exact .nil
  · split
    · cases c.config.tombstonePolicy with
      | evict => exact alone_removeMessageIn message.rid message.id
      | replace => exact alone_upsertMessage message .replace
    · exact alone_upsertMessage message mode

theorem alone_removeMessage (id : MessageId) :
    Alone access [.removeMessage id] c (c.removeMessage id).2 := by
  refine .access ?_ .nil
  show Alone access ((c.messages.lookup id).toList.map fun message => .unlink message.rid id)
    { c with messages := c.messages.erase id } ((c.messages.lookup id).elim _ _)
  cases c.messages.lookup id with
  | none => exact .nil
  | some message => exact alone_unlink message.rid id

theorem alone_storesRoom (room : Room) (mode : StoreMode) :
    Alone access (c.storesRoom room mode) c (c.storeRoom room mode).2 := by
  unfold storesRoom storeRoom
  cases c.wants .room with
  | false => exact .nil
  | true =>
    exact .access (alone_renames (fun index =>
      { c with
        rooms := c.rooms.insert room.id (mode.stored (c.rooms.lookup room.id) room)
        roomsByName := index }) (fun _ _ => rfl) (fun _ _ => rfl) c.roomsByName _ _) .nil

theorem alone_storesSubscription (subscription : Subscription) (mode : StoreMode) :
    Alone access (c.storesSubscription subscription mode) c
      (c.storeSubscription subscription mode).2 := by
  unfold storesSubscription storeSubscription
  cases c.wants .subscription with
  | false => exact .nil
  | true => exact .access .nil .nil

theorem alone_removeRoom (id : RoomId) :
    Alone access [.takeRoom id, .takeSubscription id, .takeRing id] c (c.removeRoom id).2 := by
  refine .access (alone_unname (fun index =>
    { c with rooms := c.rooms.erase id, roomsByName := index }) (fun _ _ => rfl)
    c.roomsByName _) (.access .nil ?_)
  show Alone access [.takeRing id] (c.dropRoom id) _
  refine .access ?_ .nil
  cases h : c.roomMessages.lookup id with
  | none =>
    rw [removeRoom_none h, access_takeRing_none (c := c.dropRoom id) h]
    exact .nil
  | some ring =>
    rw [removeRoom_some h, access_takeRing_some (c := c.dropRoom id) h]
    exact alone_takeMessages ring

/-- **A call that is not interrupted is the sequential operation.** -/
theorem alone_accesses {op : CacheOp} {call : List Access} (h : c.accesses op = some call) :
    Alone access call c (c.apply op) := by
  cases op with
  | clear => cases h
  | updateRoom room => cases h; exact alone_storesRoom room .replace
  | replaceRoom room => cases h; exact alone_storesRoom room .replace
  | mergeRoom room => cases h; exact alone_storesRoom room .merge
  | removeRoom id => cases h; exact alone_removeRoom id
  | updateUser user =>
    cases h
    exact (alone_storesUser user .merge).append (alone_refreshes_of_config
      (storeUser_frame user .merge).config_eq user .merge)
  | replaceUser user =>
    cases h
    exact (alone_storesUser user .replace).append (alone_refreshes_of_config
      (storeUser_frame user .replace).config_eq user .replace)
  | removeUser id => cases h; exact alone_removeUser id
  | setCurrentUser user => cases h; exact alone_setCurrentUser user
  | updateSubscription subscription => cases h; exact alone_storesSubscription subscription .merge
  | replaceSubscription subscription =>
    cases h; exact alone_storesSubscription subscription .replace
  | removeSubscription roomId => cases h; exact .access .nil .nil
  | updateMessage message => cases h; exact alone_storesMessage message .replace
  | mergeMessage message => cases h; exact alone_storesMessage message .merge
  | replaceMessage message => cases h; exact alone_storesMessage message .replace
  | removeMessage id => cases h; exact alone_removeMessage id
  | removeMessageIn roomId id => cases h; exact alone_removeMessageIn roomId id

/-- Every call but one that empties the cache is admitted. -/
theorem exists_accesses {op : CacheOp} (hop : op ≠ .clear) : ∃ call, c.accesses op = some call := by
  cases op with
  | clear => exact absurd rfl hop
  | _ => exact ⟨_, rfl⟩

/-- **Every sequential run is one of the interleavings**, as long as it does not empty the
cache. -/
theorem exists_concurrent_run (config : CacheConfig) (ops : List CacheOp)
    (hops : ∀ op ∈ ops, op ≠ .clear) :
    ∃ h calls, Pool.Idle ⟨run config ops, calls⟩ ∧
      Run concurrent ⟨fromConfig config, []⟩ h ⟨run config ops, calls⟩ := by
  induction ops using List.reverseRecOn with
  | nil => exact ⟨[], [], by simp [Pool.Idle], .start⟩
  | append_singleton ops op ih =>
    obtain ⟨h, calls, hidle, hrun⟩ := ih fun op hop => hops op (List.mem_append_left _ hop)
    obtain ⟨call, hcall⟩ := exists_accesses (c := run config ops) (hops op (by simp))
    rw [run_snoc]
    exact Pool.exists_run_of_call hcall (alone_accesses hcall) hidle hrun

end Alone

/-! ### What holds in every interleaving -/

/-- No access changes the configuration. -/
theorem access_config (c : Cache) (a : Access) : (c.access a).1.config = c.config := by
  cases a with
  | unlink roomId id =>
    cases h : c.roomMessages.lookup roomId with
    | none => rw [access_unlink_none h]
    | some ring => rw [access_unlink_some h]
  | takeRing roomId =>
    cases h : c.roomMessages.lookup roomId with
    | none => rw [access_takeRing_none h]
    | some ring => rw [access_takeRing_some h]
  | _ => rfl

/-- An access that is not to the users leaves them alone. -/
theorem access_unlink_users (c : Cache) (roomId : RoomId) (id : MessageId) :
    (c.access (.unlink roomId id)).1.users = c.users := by
  cases h : c.roomMessages.lookup roomId with
  | none => rw [access_unlink_none h]
  | some ring => rw [access_unlink_some h]

theorem access_takeRing_users (c : Cache) (roomId : RoomId) :
    (c.access (.takeRing roomId)).1.users = c.users := by
  cases h : c.roomMessages.lookup roomId with
  | none => rw [access_takeRing_none h]
  | some ring => rw [access_takeRing_some h]

end Cache
end RocketSocket
