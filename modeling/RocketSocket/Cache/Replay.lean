import RocketSocket.Cache.Gating
import RocketSocket.Cache.Index
import RocketSocket.Cache.Messages

/-!
# The cache as a store of independent documents

What the cache is for, said without its maps: under each key there is one document or none,
and what it is depends on what arrived for that key only.  Rooms, subscriptions and the
current user are at any time what replaying all their arrivals leaves.  Users and messages
are evicted as well; as long as one stays, it is what the arrivals since it came add up to.

## Main definitions

* `Arrival` — what an operation brings for a key.
* `replay` — what a list of arrivals leaves.
* `CacheOp.roomArrival` and its siblings — the arrivals for a key.
* `CacheOp.current` — what an operation makes of the current user.

## Main results

* `Cache.replay_of_staysSince` — what stays is replayed since it came.
* `cache_replays` — **the cache refines the store of documents.**
-/

namespace RocketSocket

open Machine

/-! ### Documents that come and go -/

/-- What an operation brings for a key. -/
inductive Arrival (V : Type) where
  /-- A document, merged into what is there or in its place. -/
  | store (mode : StoreMode) (doc : V)
  /-- The end of what is there. -/
  | gone

section Arrival

variable {V : Type} [Document V]

/-- What an arrival leaves under its key. -/
def Arrival.act (cached : Option V) : Arrival V → Option V
  | .store mode doc => some (mode.stored cached doc)
  | .gone => none

/-- What a list of arrivals leaves under their key. -/
def replay (arrivals : List (Arrival V)) : Option V := arrivals.foldl Arrival.act none

/-- What an operation leaves under a key for which it brings this, or nothing. -/
def Arrival.apply (cached : Option V) : Option (Arrival V) → Option V
  | some arrival => arrival.act cached
  | none => cached

theorem replay_snoc (ops : List CacheOp) (op : CacheOp) (f : CacheOp → Option (Arrival V)) :
    replay ((ops ++ [op]).filterMap f) = Arrival.apply (replay (ops.filterMap f)) (f op) := by
  rw [List.filterMap_append, replay, List.foldl_append]
  cases h : f op with
  | none => simp [h, replay, Arrival.apply]
  | some arrival => simp [h, replay, Arrival.apply]

variable {K : Type} [DecidableEq K] {t : Table K V} {key k : K}

/-- Storing a document is an arrival for its key. -/
theorem lookup_stored (mode : StoreMode) (doc : V) :
    (t.insert key (mode.stored (t.lookup key) doc)).lookup k =
      Arrival.apply (t.lookup k) (if key = k then some (.store mode doc) else none) := by
  rw [Finmap.lookup_insert_eq]
  by_cases hk : key = k
  · rw [if_pos hk.symm, if_pos hk, hk]
    rfl
  · rw [if_neg (Ne.symm hk), if_neg hk]
    rfl

/-- Storing a document under a flag. -/
theorem lookup_store (flag : Bool) (mode : StoreMode) (doc : V) :
    (if flag = true then t.insert key (mode.stored (t.lookup key) doc) else t).lookup k =
      Arrival.apply (t.lookup k)
        (if flag = true ∧ key = k then some (.store mode doc) else none) := by
  cases flag with
  | false => rfl
  | true =>
    rw [if_pos rfl, lookup_stored]
    by_cases hk : key = k
    · rw [if_pos hk, if_pos ⟨rfl, hk⟩]
    · rw [if_neg hk, if_neg fun h => hk h.2]

/-- Erasing a key is the end of what it had. -/
theorem lookup_gone :
    (t.erase key).lookup k =
      Arrival.apply (t.lookup k) (if key = k then some .gone else none) := by
  rw [Finmap.lookup_erase_eq]
  by_cases hk : key = k
  · rw [if_pos hk.symm, if_pos hk]
    rfl
  · rw [if_neg (Ne.symm hk), if_neg hk]
    rfl

end Arrival

/-! ### What arrives for a key -/

/-- What a move brings for a room. -/
def RoomMove.arrival (config : CacheConfig) (id : RoomId) : RoomMove → Option (Arrival Room)
  | .keep => none
  | .store room mode =>
    if config.resourceTypes .room ∧ room.id = id then some (.store mode room) else none
  | .drop roomId => if roomId = id then some .gone else none
  | .clear => some .gone

/-- What a move brings for a user. -/
def UserMove.arrival (config : CacheConfig) (id : UserId) : UserMove → Option (Arrival User)
  | .keep => none
  | .store user mode =>
    if config.resourceTypes .user ∧ user.id = id then some (.store mode user) else none
  | .remove userId => if userId = id then some .gone else none
  | .clear => some .gone

/-- What an operation brings for a room. -/
def CacheOp.roomArrival (config : CacheConfig) (id : RoomId) (op : CacheOp) :
    Option (Arrival Room) := op.roomMove.arrival config id

/-- What an operation brings for a user. -/
def CacheOp.userArrival (config : CacheConfig) (id : UserId) (op : CacheOp) :
    Option (Arrival User) := op.userMove.arrival config id

/-- What an operation brings for the subscription of a room.  It goes with the room. -/
def CacheOp.subscriptionArrival (config : CacheConfig) (roomId : RoomId) (op : CacheOp) :
    Option (Arrival Subscription) :=
  let store (subscription : Subscription) (mode : StoreMode) :=
    if config.resourceTypes .subscription ∧ subscription.rid = roomId then
      some (.store mode subscription)
    else none
  match op with
  | .updateSubscription subscription => store subscription .merge
  | .replaceSubscription subscription => store subscription .replace
  | .removeSubscription id | .removeRoom id => if id = roomId then some .gone else none
  | .clear => some .gone
  | _ => none

/-- What an operation brings for a message.  A tombstone ends it or takes its place, as the
policy says. -/
def CacheOp.messageArrival (config : CacheConfig) (id : MessageId) (op : CacheOp) :
    Option (Arrival Message) :=
  let store (message : Message) (mode : StoreMode) :=
    if (config.resourceTypes .message ∧ config.messageCacheSize ≠ 0) ∧ message.id = id then
      if message.isDeletedTombstone then
        match config.tombstonePolicy with
        | .evict => some .gone
        | .replace => some (.store .replace message)
      else some (.store mode message)
    else none
  match op with
  | .updateMessage message | .replaceMessage message => store message .replace
  | .mergeMessage message => store message .merge
  | .removeMessage messageId | .removeMessageIn _ messageId =>
    if messageId = id then some .gone else none
  | .clear => some .gone
  | _ => none

/-- The current user after a document of a user came: only its own changes it. -/
def refreshed (user : User) (mode : StoreMode) (cached : User) : User :=
  if cached.id = user.id then mode.stored (some cached) user else cached

/-- What an operation makes of the current user. -/
def CacheOp.current (config : CacheConfig) (current : Option User) (op : CacheOp) :
    Option User :=
  let wanted := config.resourceTypes .currentUser
  match op with
  | .setCurrentUser user => if wanted then some user else current
  | .updateUser user => if wanted then current.map (refreshed user .merge) else current
  | .replaceUser user => if wanted then current.map (refreshed user .replace) else current
  | .clear => none
  | _ => current

namespace Cache

/-! ### One operation, seen from a key -/

variable {config : CacheConfig} {c : Cache}

theorem lookup_rooms_apply (hc : c.config = config) (op : CacheOp) (id : RoomId) :
    (c.apply op).rooms.lookup id =
      Arrival.apply (c.rooms.lookup id) (op.roomArrival config id) := by
  subst hc
  rw [(apply_rooms c op).1, CacheOp.roomArrival]
  cases op.roomMove with
  | keep => rfl
  | store room mode =>
    have hrooms : (c.storeRoom room mode).2.rooms = if c.wants .room = true
        then c.rooms.insert room.id (mode.stored (c.rooms.lookup room.id) room) else c.rooms := by
      cases hwants : c.wants .room with
      | false => rw [storeRoom_unwanted hwants]; rfl
      | true => rw [storeRoom_wanted hwants]; rfl
    show (c.storeRoom room mode).2.rooms.lookup id = _
    rw [hrooms]
    exact lookup_store _ mode room
  | drop roomId =>
    have hrooms : (c.removeRoom roomId).2.rooms = c.rooms.erase roomId :=
      ((removeRoom_frame roomId).rooms_eq (by decide)).1
    show (c.removeRoom roomId).2.rooms.lookup id = _
    rw [hrooms]
    exact lookup_gone
  | clear => exact Finmap.lookup_empty id

theorem lookup_subscriptions_apply (hc : c.config = config) (op : CacheOp) (roomId : RoomId) :
    (c.apply op).subscriptions.lookup roomId =
      Arrival.apply (c.subscriptions.lookup roomId) (op.subscriptionArrival config roomId) := by
  subst hc
  -- A subscription is stored under its room, if subscriptions are wanted.
  have hstore : ∀ (subscription : Subscription) (mode : StoreMode),
      (c.storeSubscription subscription mode).2.subscriptions.lookup roomId =
        Arrival.apply (c.subscriptions.lookup roomId)
          (if c.wants .subscription = true ∧ subscription.rid = roomId then
            some (.store mode subscription) else none) := by
    intro subscription mode
    have hsubscriptions : (c.storeSubscription subscription mode).2.subscriptions =
        if c.wants .subscription = true then c.subscriptions.insert subscription.rid
          (mode.stored (c.subscriptions.lookup subscription.rid) subscription)
        else c.subscriptions := by
      unfold storeSubscription
      cases c.wants .subscription with
      | false => rfl
      | true => rfl
    rw [hsubscriptions]
    exact lookup_store _ mode subscription
  cases op with
  | updateSubscription subscription => exact hstore subscription .merge
  | replaceSubscription subscription => exact hstore subscription .replace
  | removeSubscription id => exact lookup_gone
  | removeRoom id =>
    -- The subscription goes with its room.
    have hsubscriptions : (c.removeRoom id).2.subscriptions = c.subscriptions.erase id :=
      (removeRoom_frame id).subscriptions_eq (by decide)
    show (c.removeRoom id).2.subscriptions.lookup roomId = _
    rw [hsubscriptions]
    exact lookup_gone
  | clear => exact Finmap.lookup_empty roomId
  | _ => exact congrArg (Finmap.lookup roomId) ((apply_frame (by rfl)).subscriptions_eq (by decide))

/-- A user is what arrived for it, or was evicted. -/
theorem lookup_users_apply (hc : c.config = config) (op : CacheOp) (id : UserId) :
    (c.apply op).users.lookup id = none ∨ (c.apply op).users.lookup id =
      Arrival.apply (c.users.lookup id) (op.userArrival config id) := by
  subst hc
  have husers : (c.apply op).users = (c.moveUsers op.userMove).users :=
    congrArg Prod.fst (apply_users c op)
  rw [husers, CacheOp.userArrival]
  cases op.userMove with
  | keep => exact .inr rfl
  | store user mode =>
    have hput : (c.putUser user mode).users.lookup id = Arrival.apply (c.users.lookup id)
        (if true = true ∧ user.id = id then some (.store mode user) else none) := by
      rw [show (c.putUser user mode).users.lookup id = _ from lookup_stored mode user]
      simp
    show (c.storeUser user mode).2.users.lookup id = none ∨
      (c.storeUser user mode).2.users.lookup id = Arrival.apply (c.users.lookup id)
        (if c.wants .user = true ∧ user.id = id then some (.store mode user) else none)
    cases hwants : c.wants .user with
    | false =>
      rw [storeUser_unwanted hwants]
      exact .inr rfl
    | true =>
      rw [storeUser_wanted hwants]
      split
      · -- A new user may have put others out.
        cases hid : ((c.putUser user mode).noteNewUser user.id).users.lookup id with
        | none => exact .inl rfl
        | some stored =>
          refine .inr (Eq.trans ?_ hput)
          exact ((evicts_noteNewUser (c.putUser user mode) user.id).1.users id stored hid).symm
      · exact .inr hput
  | remove userId =>
    have herase : (c.removeUser userId).2.users = c.users.erase userId := by
      unfold removeUser
      simp only
      split
      · rfl
      · rfl
    show (c.removeUser userId).2.users.lookup id = none ∨
      (c.removeUser userId).2.users.lookup id = _
    rw [herase]
    exact .inr lookup_gone
  | clear => exact .inr (Finmap.lookup_empty id)

/-- Storing a message that is kept. -/
theorem lookup_insertMessage (message : Message) (mode : StoreMode) (id : MessageId) :
    (c.insertMessage message mode).2.messages.lookup id = none ∨
      (c.insertMessage message mode).2.messages.lookup id = Arrival.apply (c.messages.lookup id)
        (if message.id = id then some (.store mode message) else none) := by
  have hput : (c.messages.insert message.id
      (mode.stored (c.messages.lookup message.id) message)).lookup id = _ :=
    lookup_stored mode message
  cases hcached : c.messages.lookup message.id with
  | some cached =>
    rw [insertMessage_cached hcached]
    rw [hcached] at hput
    exact .inr hput
  | none =>
    rw [insertMessage_new hcached]
    rw [hcached] at hput
    show (Finmap.eraseAll _ _).lookup id = none ∨ (Finmap.eraseAll _ _).lookup id = _
    rw [Finmap.lookup_eraseAll]
    split
    · exact .inl rfl
    · exact .inr hput

/-- Removing a message from its room. -/
theorem lookup_removeMessageIn_messages (roomId : RoomId) (messageId id : MessageId) :
    (c.removeMessageIn roomId messageId).2.messages.lookup id =
      Arrival.apply (c.messages.lookup id) (if messageId = id then some .gone else none) := by
  rw [removeMessageIn_messages]
  exact lookup_gone

/-- A message is what arrived for it, or was evicted. -/
theorem lookup_messages_apply (hc : c.config = config) (op : CacheOp) (id : MessageId) :
    (c.apply op).messages.lookup id = none ∨ (c.apply op).messages.lookup id =
      Arrival.apply (c.messages.lookup id) (op.messageArrival config id) := by
  subst hc
  have hstore : ∀ (message : Message) (mode : StoreMode),
      (c.moveMessages (c.storeMove message mode)).messages.lookup id = none ∨
      (c.moveMessages (c.storeMove message mode)).messages.lookup id =
        Arrival.apply (c.messages.lookup id)
          (if (c.config.resourceTypes .message ∧ c.config.messageCacheSize ≠ 0) ∧ message.id = id
            then if message.isDeletedTombstone then
              match c.config.tombstonePolicy with
              | .evict => some .gone
              | .replace => some (.store .replace message)
            else some (.store mode message)
          else none) := by
    intro message mode
    unfold storeMove
    by_cases hkeeps : c.config.resourceTypes .message ∧ c.config.messageCacheSize ≠ 0
    · have htest : (!c.wants .message || decide (c.config.messageCacheSize = 0)) = false := by
        simpa [wants] using hkeeps
      rw [htest, if_neg Bool.false_ne_true]
      simp only [and_iff_right hkeeps]
      split
      · cases c.config.tombstonePolicy with
        | evict => exact .inr (lookup_removeMessageIn_messages message.rid message.id id)
        | replace => exact lookup_insertMessage message .replace id
      · exact lookup_insertMessage message mode id
    · have htest : (!c.wants .message || decide (c.config.messageCacheSize = 0)) = true := by
        simpa [wants, imp_iff_not_or] using hkeeps
      rw [htest, if_pos rfl, if_neg fun h => hkeeps h.1]
      exact .inr rfl
  rw [(apply_messages c op).1]
  cases op with
  | updateMessage message => exact hstore message .replace
  | replaceMessage message => exact hstore message .replace
  | mergeMessage message => exact hstore message .merge
  | removeMessage messageId =>
    -- A message that is not cached is gone as it is.
    have hmove : c.messageMove (.removeMessage messageId) = (c.messages.lookup messageId).elim
        .keep fun message => .remove message.rid messageId := rfl
    rw [hmove]
    cases hcached : c.messages.lookup messageId with
    | none =>
      by_cases hid : messageId = id
      · subst hid
        exact .inl hcached
      · refine .inr ?_
        show c.messages.lookup id =
          Arrival.apply (c.messages.lookup id) (if messageId = id then some .gone else none)
        rw [if_neg hid]
        rfl
    | some message =>
      exact .inr (lookup_removeMessageIn_messages message.rid messageId id)
  | removeMessageIn roomId messageId =>
    exact .inr (lookup_removeMessageIn_messages roomId messageId id)
  | removeRoom roomId =>
    show (c.removeRoom roomId).2.messages.lookup id = none ∨
      (c.removeRoom roomId).2.messages.lookup id = _
    rw [lookup_removeRoom_messages]
    split
    · exact .inl rfl
    · exact .inr rfl
  | clear => exact .inr (Finmap.lookup_empty id)
  | _ => exact .inr rfl

theorem currentUser_refresh (user : User) (mode : StoreMode) :
    (c.refreshCurrentUser user mode).currentUser = if c.wants .currentUser = true
      then c.currentUser.map (refreshed user mode) else c.currentUser := by
  unfold refreshCurrentUser refreshed
  cases c.wants .currentUser with
  | false => rfl
  | true =>
    cases hcurrent : c.currentUser with
    | none => exact hcurrent
    | some current =>
      show (if current.id = user.id then _ else c).currentUser = some (if _ then _ else _)
      split
      · rfl
      · exact hcurrent

theorem currentUser_apply (hc : c.config = config) (op : CacheOp) :
    (c.apply op).currentUser = op.current config c.currentUser := by
  subst hc
  have hrefresh : ∀ (user : User) (mode : StoreMode),
      ((c.storeUser user mode).2.refreshCurrentUser user mode).currentUser =
        if c.wants .currentUser = true then c.currentUser.map (refreshed user mode)
        else c.currentUser := by
    intro user mode
    have hwants : (c.storeUser user mode).2.wants .currentUser = c.wants .currentUser :=
      congrArg (fun config : CacheConfig => config.resourceTypes .currentUser)
        (storeUser_frame user mode).config_eq
    rw [currentUser_refresh, storeUser_currentUser, hwants]
  cases op with
  | setCurrentUser user =>
    show (c.setCurrentUser user).currentUser = if c.wants .currentUser = true then _ else _
    unfold setCurrentUser
    rw [storeUser_currentUser]
    split
    · rfl
    · rfl
  | updateUser user => exact hrefresh user .merge
  | replaceUser user => exact hrefresh user .replace
  | removeUser id => exact removeUser_currentUser id
  | clear => rfl
  | removeRoom id => exact ((removeRoom_frame id).users_eq (by decide)).2
  | _ => exact ((apply_frame (by rfl)).users_eq (by decide)).2

/-! ### Runs, seen from a key -/

section Stays

variable {V : Type} [Document V] (look : Cache → Option V) {arrival : CacheOp → Option (Arrival V)}

/-- **What stays is replayed since it came.**  If every operation leaves nothing under a key or
what it brings, then a document there is what arrived since its stay began. -/
theorem replay_of_staysSince
    (hstep : ∀ pre op, look ((run config pre).apply op) = none ∨
      look ((run config pre).apply op) = Arrival.apply (look (run config pre)) (arrival op))
    {ops : List CacheOp} {n : ℕ} (h : StaysSince (fun c => (look c).isSome) config ops n) :
    replay ((ops.drop n).filterMap arrival) = look (run config ops) := by
  induction ops using List.reverseRecOn with
  | nil => exact absurd h.1 (Nat.not_lt_zero n)
  | append_singleton ops op ih =>
    have hheld : (look (run config (ops ++ [op]))).isSome := by
      have := h.2.2 (ops ++ [op]).length h.1 le_rfl
      rwa [List.take_length] at this
    have happly : look (run config (ops ++ [op])) =
        Arrival.apply (look (run config ops)) (arrival op) := by
      rw [run_snoc] at hheld ⊢
      rcases hstep ops op with hnone | heq
      · rw [hnone] at hheld
        cases hheld
      · exact heq
    by_cases hbefore : (look (run config ops)).isSome
    · have hstay := h.of_snoc.1 hbefore
      rw [List.drop_append_of_le_length hstay.1.le, replay_snoc, ih hstay, happly]
    · -- The stay begins with this operation.
      obtain rfl := h.of_snoc.2 hbefore
      rw [List.drop_left, happly, Option.not_isSome_iff_eq_none.mp hbefore]
      exact replay_snoc [] op arrival

end Stays

end Cache

/-- **The cache refines a store of independent documents**, whatever the operations and the
configuration.  A room, a subscription and the current user are what replaying all that arrived
for them leaves; a user or a message that is cached is what replaying the operations since its
stay began leaves.  So no document depends on what arrived for another key, and nothing of
before a removal or an eviction comes back. -/
theorem cache_replays (config : CacheConfig) (ops : List CacheOp) :
    (∀ id, (Cache.run config ops).rooms.lookup id =
      replay (ops.filterMap (CacheOp.roomArrival config id))) ∧
    (∀ roomId, (Cache.run config ops).subscriptions.lookup roomId =
      replay (ops.filterMap (CacheOp.subscriptionArrival config roomId))) ∧
    (Cache.run config ops).currentUser = ops.foldl (CacheOp.current config) none ∧
    (∀ id user, (Cache.run config ops).users.lookup id = some user →
      ∃ n, Cache.StaysSince (fun c => (c.users.lookup id).isSome) config ops n ∧
        replay ((ops.drop n).filterMap (CacheOp.userArrival config id)) = some user) ∧
    (∀ id message, (Cache.run config ops).messages.lookup id = some message →
      ∃ n, Cache.StaysSince (fun c => (c.messages.lookup id).isSome) config ops n ∧
        replay ((ops.drop n).filterMap (CacheOp.messageArrival config id)) = some message) := by
  refine ⟨fun id => ?_, fun roomId => ?_, ?_, fun id user huser => ?_,
    fun id message hmessage => ?_⟩
  · -- Rooms, subscriptions and the current user are never put out: by induction on the run.
    induction ops using List.reverseRecOn with
    | nil => exact Finmap.lookup_empty id
    | append_singleton ops op ih =>
      rw [Cache.run_snoc, Cache.lookup_rooms_apply Cache.run_config, ih, replay_snoc]
  · induction ops using List.reverseRecOn with
    | nil => exact Finmap.lookup_empty roomId
    | append_singleton ops op ih =>
      rw [Cache.run_snoc, Cache.lookup_subscriptions_apply Cache.run_config, ih, replay_snoc]
  · induction ops using List.reverseRecOn with
    | nil => rfl
    | append_singleton ops op ih =>
      rw [Cache.run_snoc, Cache.currentUser_apply Cache.run_config, ih, List.foldl_append]
      rfl
  · -- Users and messages may be put out: the replay begins where the last stay does.
    have hstay : ∃ n, Cache.StaysSince (fun c => (c.users.lookup id).isSome) config ops n :=
      Cache.exists_staysSince (by simp [Cache.fromConfig]) (by simp [huser])
    obtain ⟨n, hn⟩ := hstay
    exact ⟨n, hn, (Cache.replay_of_staysSince (fun c => c.users.lookup id)
      (fun pre op => Cache.lookup_users_apply Cache.run_config op id) hn).trans huser⟩
  · have hstay : ∃ n, Cache.StaysSince (fun c => (c.messages.lookup id).isSome) config ops n :=
      Cache.exists_staysSince (by simp [Cache.fromConfig]) (by simp [hmessage])
    obtain ⟨n, hn⟩ := hstay
    exact ⟨n, hn, (Cache.replay_of_staysSince (fun c => c.messages.lookup id)
      (fun pre op => Cache.lookup_messages_apply Cache.run_config op id) hn).trans hmessage⟩

end RocketSocket
