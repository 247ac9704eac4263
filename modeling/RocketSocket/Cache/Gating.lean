import RocketSocket.Cache.Run

/-!
# Resource gating does not interfere

Two caches run the same operations, one of them under fewer flags.  At every point the
smaller one is the larger one with the kinds it does not keep blanked out: blanking is a
simulation, and each operation commutes with it.

## Main definitions

* `CacheConfig.keeps` — the kinds a configuration stores at all.
* `CacheConfig.Within` — one configuration keeps what another does, and no more.
* `Cache.gate` — a cache with the kinds a configuration does not keep blanked out.
* `Cache.SameKind` — two caches hold the same of a kind.

## Main results

* `Cache.apply_gate` — every operation commutes with gating.
* `Cache.run_gate` — and so does every run.
* `gating` — flags do not interfere, and no capacity for messages is no flag for them.
-/

namespace RocketSocket

open Machine

/-- The cache stores entities of the kind: its flag is set, and messages have a capacity. -/
def CacheConfig.keeps (config : CacheConfig) (kind : ResourceType) : Bool :=
  config.resourceTypes kind && (kind ≠ .message || config.messageCacheSize ≠ 0)

/-- What the first configuration keeps, the second keeps within the same bounds. -/
structure CacheConfig.Within (config config' : CacheConfig) : Prop where
  keeps : ∀ kind, config.keeps kind = true → config'.keeps kind = true
  messageCacheSize : config.keeps .message = true →
    config.messageCacheSize = config'.messageCacheSize
  userCacheSize : config.userCacheSize = config'.userCacheSize
  tombstonePolicy : config.tombstonePolicy = config'.tombstonePolicy

theorem CacheConfig.Within.refl (config : CacheConfig) : config.Within config :=
  ⟨fun _ h => h, fun _ => rfl, rfl, rfl⟩

namespace Cache

/-- What a cache with this configuration would hold where `c` holds what it does: the kinds
it keeps as they are, nothing of the others. -/
def gate (config : CacheConfig) (c : Cache) : Cache where
  config := config
  rooms := if config.keeps .room then c.rooms else ∅
  roomsByName := if config.keeps .room then c.roomsByName else ∅
  users := if config.keeps .user then c.users else ∅
  usersByUsername := if config.keeps .user then c.usersByUsername else ∅
  userOrder := if config.keeps .user then c.userOrder else []
  currentUser := if config.keeps .currentUser then c.currentUser else none
  subscriptions := if config.keeps .subscription then c.subscriptions else ∅
  messages := if config.keeps .message then c.messages else ∅
  roomMessages := if config.keeps .message then c.roomMessages else ∅

variable {config : CacheConfig} {c : Cache}

@[simp] theorem unindex_empty {V : Type} [DecidableEq V] {name : Option String} {id : V} :
    unindex (∅ : Table String V) name id = ∅ := by
  cases name with
  | none => rfl
  | some name => simp [unindex]

@[simp] theorem gate_config : (c.gate config).config = config := rfl

/-- The write paths read the flag alone, except the one for messages. -/
theorem wants_gate {kind : ResourceType} (hkind : kind ≠ .message) :
    (c.gate config).wants kind = config.keeps kind := by
  unfold wants CacheConfig.keeps
  simp [hkind]

theorem wants_of_keeps {kind : ResourceType} (h : c.config.keeps kind = true) :
    c.wants kind = true := by
  unfold CacheConfig.keeps at h
  exact (Bool.and_eq_true_iff.1 h).1

/-- The test `store_message` makes is whether messages are kept. -/
theorem storeMessage_test :
    (!c.wants .message || c.config.messageCacheSize = 0) = !c.config.keeps .message := by
  unfold wants CacheConfig.keeps
  cases c.config.resourceTypes .message with
  | false => rfl
  | true => simp

/-! ### What no flag is read for -/

theorem dropUser_gate (id : UserId) :
    ((c.gate config).dropUser id).2 = (c.dropUser id).2.gate config := by
  unfold dropUser
  cases hk : config.keeps .user with
  | true => simp [gate, hk]
  | false => simp [gate, hk]

theorem removeUser_currentUser (id : UserId) : (c.removeUser id).2.currentUser = c.currentUser := by
  unfold removeUser
  simp only
  split
  · rfl
  · rfl

theorem foldl_dropUser_gate (ids : List UserId) :
    ids.foldl (fun c id => (c.dropUser id).2) (c.gate config) =
      (ids.foldl (fun c id => (c.dropUser id).2) c).gate config := by
  induction ids generalizing c with
  | nil => rfl
  | cons id ids ih => rw [List.foldl_cons, List.foldl_cons, dropUser_gate, ih]

theorem removeSubscription_gate (roomId : RoomId) :
    ((c.gate config).removeSubscription roomId).2 =
      (c.removeSubscription roomId).2.gate config := by
  unfold removeSubscription
  cases hk : config.keeps .subscription with
  | true => simp [gate, hk]
  | false => simp [gate, hk]

theorem unlinkMessage_gate (roomId : RoomId) (id : MessageId) :
    (c.gate config).unlinkMessage roomId id = (c.unlinkMessage roomId id).gate config := by
  unfold unlinkMessage
  cases hk : config.keeps .message with
  | true =>
    have hrings : (c.gate config).roomMessages = c.roomMessages := by simp [gate, hk]
    rw [hrings]
    cases c.roomMessages.lookup roomId with
    | none => rfl
    | some ring =>
      simp only
      split
      · simp [gate, hk]
      · simp [gate, hk]
  | false =>
    have hrings : (c.gate config).roomMessages = ∅ := by simp [gate, hk]
    rw [hrings, Finmap.lookup_empty]
    cases c.roomMessages.lookup roomId with
    | none => rfl
    | some ring =>
      simp only
      split
      · simp [gate, hk]
      · simp [gate, hk]

/-- The cache without a message, whose ring may still list it. -/
theorem eraseMessage_gate (id : MessageId) :
    { c.gate config with messages := (c.gate config).messages.erase id } =
      { c with messages := c.messages.erase id }.gate config := by
  cases hk : config.keeps .message with
  | true => simp [gate, hk]
  | false => simp [gate, hk]

theorem removeMessageIn_gate (roomId : RoomId) (id : MessageId) :
    ((c.gate config).removeMessageIn roomId id).2 =
      (c.removeMessageIn roomId id).2.gate config := by
  show unlinkMessage { c.gate config with messages := (c.gate config).messages.erase id } _ _ = _
  rw [eraseMessage_gate, unlinkMessage_gate]
  rfl

/-- Blanking out a kind forgets what was written to it. -/
theorem Frame.gate_eq {kind : ResourceType} {c' : Cache} (h : Frame c kind c')
    (hkind : kind ≠ .user) (hk : config.keeps kind = false) : c'.gate config = c.gate config := by
  cases h with
  | user => exact absurd rfl hkind
  | room => simp [gate, hk]
  | subscription => simp [gate, hk]
  | message => simp [gate, hk]

/-- The current user is no part of the users. -/
theorem Frame.gate_eq_user {c' : Cache} (h : Frame c .user c') (hk : config.keeps .user = false)
    (hcurrent : c'.currentUser = c.currentUser) : c'.gate config = c.gate config := by
  cases h with
  | user users usersByUsername userOrder currentUser =>
    cases hcurrent
    simp [gate, hk]

theorem removeMessage_gate (id : MessageId) :
    ((c.gate config).removeMessage id).2 = (c.removeMessage id).2.gate config := by
  cases hk : config.keeps .message with
  | true =>
    have hmessages : (c.gate config).messages = c.messages := by simp [gate, hk]
    rw [removeMessage_eq, removeMessage_eq, messageMove, messageMove, hmessages]
    cases c.messages.lookup id with
    | none => rfl
    | some message => exact removeMessageIn_gate message.rid id
  | false =>
    have hmessages : (c.gate config).messages = ∅ := by simp [gate, hk]
    rw [(removeMessage_frame id).gate_eq (by decide) hk, removeMessage_eq, messageMove,
      hmessages, Finmap.lookup_empty]
    rfl

/-- Removing a room writes the rooms, the subscriptions and the messages, each by what is
held of it. -/
theorem removeRoom_gate (id : RoomId) :
    ((c.gate config).removeRoom id).2 = (c.removeRoom id).2.gate config := by
  have hdrop : (c.gate config).dropRoom id = (c.dropRoom id).gate config := by
    unfold dropRoom
    cases hr : config.keeps .room with
    | true => cases hs : config.keeps .subscription <;> simp [gate, hr, hs]
    | false => cases hs : config.keeps .subscription <;> simp [gate, hr, hs]
  cases hk : config.keeps .message with
  | true =>
    have hrings : (c.gate config).roomMessages = c.roomMessages := by simp [gate, hk]
    cases hring : c.roomMessages.lookup id with
    | none => rw [removeRoom_none hring, removeRoom_none (by rw [hrings, hring]), hdrop]
    | some ring =>
      rw [removeRoom_some hring, removeRoom_some (by rw [hrings, hring]), hdrop]
      simp [gate, hk]
  | false =>
    have hrings : (c.gate config).roomMessages = ∅ := by simp [gate, hk]
    rw [(removeRoom_frame id).gate_eq (by decide) hk,
      removeRoom_none (by rw [hrings, Finmap.lookup_empty]), hdrop]

/-! ### What a flag is read for -/

section Within

variable (h : config.Within c.config)
include h

theorem storeRoom_gate (room : Room) (mode : StoreMode) :
    ((c.gate config).storeRoom room mode).2 = (c.storeRoom room mode).2.gate config := by
  cases hk : config.keeps .room with
  | true =>
    unfold storeRoom
    rw [wants_gate (by decide), hk, wants_of_keeps (h.keeps _ hk)]
    simp [gate, hk]
  | false =>
    rw [(storeRoom_frame room mode).gate_eq (by decide) hk]
    unfold storeRoom
    rw [wants_gate (by decide), hk]
    rfl

theorem storeSubscription_gate (subscription : Subscription) (mode : StoreMode) :
    ((c.gate config).storeSubscription subscription mode).2 =
      (c.storeSubscription subscription mode).2.gate config := by
  cases hk : config.keeps .subscription with
  | true =>
    unfold storeSubscription
    rw [wants_gate (by decide), hk, wants_of_keeps (h.keeps _ hk)]
    simp [gate, hk]
  | false =>
    rw [(storeSubscription_frame subscription mode).gate_eq (by decide) hk]
    unfold storeSubscription
    rw [wants_gate (by decide), hk]
    rfl

/-- Inserting reads the capacity, which is the same where messages are kept. -/
theorem insertMessage_gate (hk : config.keeps .message = true) (message : Message)
    (mode : StoreMode) :
    ((c.gate config).insertMessage message mode).2 =
      (c.insertMessage message mode).2.gate config := by
  unfold insertMessage linkMessage roomMessageIds
  have hsize := h.messageCacheSize hk
  cases hm : c.messages.lookup message.id with
  | none => simp [gate, hk, upsert, hm, hsize]
  | some previous => simp [gate, hk, upsert, hm]

theorem storeMessage_gate (message : Message) (mode : StoreMode) :
    ((c.gate config).storeMessage message mode).2 =
      (c.storeMessage message mode).2.gate config := by
  cases hk : config.keeps .message with
  | true =>
    rw [storeMessage_eq, storeMessage_eq, storeMove, storeMove, storeMessage_test,
      storeMessage_test, gate_config, hk, h.keeps _ hk, h.tombstonePolicy]
    simp only [Bool.not_true, Bool.false_eq_true, if_false]
    split
    · cases c.config.tombstonePolicy with
      | evict => exact removeMessageIn_gate message.rid message.id
      | replace => exact insertMessage_gate h hk message .replace
    · exact insertMessage_gate h hk message mode
  | false =>
    rw [(storeMessage_frame message mode).gate_eq (by decide) hk, storeMessage_eq, storeMove,
      storeMessage_test, gate_config, hk]
    rfl

theorem noteNewUser_gate (hk : config.keeps .user = true) (id : UserId) :
    (c.gate config).noteNewUser id = (c.noteNewUser id).gate config := by
  cases hsize : c.config.userCacheSize with
  | none =>
    rw [noteNewUser_none hsize, noteNewUser_none]
    rw [gate_config, h.userCacheSize, hsize]
  | some capacity =>
    have hsize' : (c.gate config).config.userCacheSize = some capacity := by
      rw [gate_config, h.userCacheSize, hsize]
    have husers : (c.gate config).users = c.users := by simp [gate, hk]
    have horder : (c.gate config).userOrder = c.userOrder := by simp [gate, hk]
    rw [noteNewUser_some hsize, noteNewUser_some hsize', husers, horder, ← foldl_dropUser_gate]
    simp [gate, hk]

theorem storeUser_gate (user : User) (mode : StoreMode) :
    ((c.gate config).storeUser user mode).2 = (c.storeUser user mode).2.gate config := by
  cases hk : config.keeps .user with
  | true =>
    have hwants : (c.gate config).wants .user = true := by rw [wants_gate (by decide), hk]
    have husers : (c.gate config).users = c.users := by simp [gate, hk]
    have hput : (c.gate config).putUser user mode = (c.putUser user mode).gate config := by
      simp [putUser, gate, hk]
    rw [storeUser_wanted hwants, storeUser_wanted (wants_of_keeps (h.keeps _ hk)), husers, hput]
    split
    · exact noteNewUser_gate (c := c.putUser user mode) h hk user.id
    · rfl
  | false =>
    have hwants : (c.gate config).wants .user = false := by rw [wants_gate (by decide), hk]
    rw [storeUser_unwanted hwants]
    exact ((storeUser_frame user mode).gate_eq_user hk (storeUser_currentUser user mode)).symm

theorem within_storeUser (user : User) (mode : StoreMode) :
    config.Within (c.storeUser user mode).2.config := by
  rw [(storeUser_frame user mode).config_eq]
  exact h

theorem refreshCurrentUser_gate (user : User) (mode : StoreMode) :
    (c.gate config).refreshCurrentUser user mode =
      (c.refreshCurrentUser user mode).gate config := by
  cases hk : config.keeps .currentUser with
  | true =>
    have hcurrent : (c.gate config).currentUser = c.currentUser := by simp [gate, hk]
    unfold refreshCurrentUser
    rw [wants_gate (by decide), hk, wants_of_keeps (h.keeps _ hk), hcurrent]
    cases c.currentUser with
    | none => rfl
    | some current =>
      by_cases hid : current.id = user.id
      · simp [gate, hk, hid]
      · simp [hid]
  | false =>
    obtain ⟨current, hwrite⟩ := refreshCurrentUser_frame (c := c) user mode
    rw [hwrite]
    unfold refreshCurrentUser
    rw [wants_gate (by decide), hk]
    simp [gate, hk]

theorem setCurrentUser_gate (user : User) :
    (c.gate config).setCurrentUser user = (c.setCurrentUser user).gate config := by
  unfold setCurrentUser
  rw [wants_gate (by decide)]
  cases hk : config.keeps .currentUser with
  | true =>
    rw [wants_of_keeps (h.keeps _ hk)]
    have hset : (c.gate config).withCurrent (some user) =
      (c.withCurrent (some user)).gate config := by simp [withCurrent, gate, hk]
    exact (congrArg (fun c => (c.storeUser user .merge).2) hset).trans
      (storeUser_gate (c := c.withCurrent (some user)) h user .merge)
  | false =>
    have hset : c.gate config = (c.withCurrent (some user)).gate config := by
      simp [withCurrent, gate, hk]
    cases c.wants .currentUser with
    | true =>
      exact (congrArg (fun c => (c.storeUser user .merge).2) hset).trans
        (storeUser_gate (c := c.withCurrent (some user)) h user .merge)
    | false => exact storeUser_gate h user .merge

theorem removeUser_gate (id : UserId) :
    ((c.gate config).removeUser id).2 = (c.removeUser id).2.gate config := by
  cases hk : config.keeps .user with
  | true =>
    have hsize := h.userCacheSize
    cases hremoved : (c.users.lookup id).isSome && c.config.userCacheSize.isSome with
    | true => simp [removeUser, dropUser, gate, hk, hsize, hremoved]
    | false => simp [removeUser, dropUser, gate, hk, hsize, hremoved]
  | false =>
    rw [(removeUser_frame id).gate_eq_user hk (removeUser_currentUser id)]
    simp [removeUser, dropUser, gate, hk]

/-- **Every operation commutes with gating.** -/
theorem apply_gate (op : CacheOp) : (c.gate config).apply op = (c.apply op).gate config := by
  cases op with
  | updateRoom room => exact storeRoom_gate h room .replace
  | replaceRoom room => exact storeRoom_gate h room .replace
  | mergeRoom room => exact storeRoom_gate h room .merge
  | removeRoom id => exact removeRoom_gate id
  | updateUser user =>
    exact (congrArg (refreshCurrentUser · user .merge) (storeUser_gate h user .merge)).trans
      (refreshCurrentUser_gate (within_storeUser h user .merge) user .merge)
  | replaceUser user =>
    exact (congrArg (refreshCurrentUser · user .replace) (storeUser_gate h user .replace)).trans
      (refreshCurrentUser_gate (within_storeUser h user .replace) user .replace)
  | removeUser id => exact removeUser_gate h id
  | setCurrentUser user => exact setCurrentUser_gate h user
  | updateSubscription subscription => exact storeSubscription_gate h subscription .merge
  | replaceSubscription subscription => exact storeSubscription_gate h subscription .replace
  | removeSubscription roomId => exact removeSubscription_gate roomId
  | updateMessage message => exact storeMessage_gate h message .replace
  | mergeMessage message => exact storeMessage_gate h message .merge
  | replaceMessage message => exact storeMessage_gate h message .replace
  | removeMessage id => exact removeMessage_gate id
  | removeMessageIn roomId id => exact removeMessageIn_gate roomId id
  | clear => simp [apply, clear, gate, fromConfig]

end Within

/-- **A smaller cache is a larger one gated**, whatever both have been through. -/
theorem run_gate {config' : CacheConfig} (h : config.Within config') (ops : List CacheOp) :
    run config ops = (run config' ops).gate config := by
  induction ops using List.reverseRecOn with
  | nil => simp [gate, fromConfig]
  | append_singleton ops op ih =>
    have hrun : config.Within (run config' ops).config := by
      rw [run_config]
      exact h
    rw [run_snoc, run_snoc, ih, apply_gate hrun]

/-! ### Kinds -/

/-- Two caches hold the same of a kind, in its maps and indices. -/
def SameKind (c c' : Cache) : ResourceType → Prop
  | .room => c.rooms = c'.rooms ∧ c.roomsByName = c'.roomsByName
  | .user =>
    c.users = c'.users ∧ c.usersByUsername = c'.usersByUsername ∧ c.userOrder = c'.userOrder
  | .subscription => c.subscriptions = c'.subscriptions
  | .message => c.messages = c'.messages ∧ c.roomMessages = c'.roomMessages
  | .currentUser => c.currentUser = c'.currentUser

/-- A cache holds nothing of a kind. -/
def HoldsNone (c : Cache) (kind : ResourceType) : Prop := c.SameKind (fromConfig c.config) kind

theorem holdsNone_gate {kind : ResourceType} (hk : config.keeps kind = false) :
    (c.gate config).HoldsNone kind := by
  cases kind <;> simp [HoldsNone, SameKind, gate, fromConfig, hk]

/-- Two configurations that agree on whether they keep a kind gate it alike. -/
theorem sameKind_gate_gate {config' : CacheConfig} {kind : ResourceType}
    (hkeeps : config.keeps kind = config'.keeps kind) :
    (c.gate config).SameKind (c.gate config') kind := by
  cases kind <;> simp [SameKind, gate, hkeeps]

/-- Two caches, one within the other, hold the same of a kind both keep or neither does. -/
theorem sameKind_run {config' : CacheConfig} {kind : ResourceType} (h : config.Within config')
    (hkeeps : config.keeps kind = config'.keeps kind) (ops : List CacheOp) :
    (run config ops).SameKind (run config' ops) kind := by
  have hsame := sameKind_gate_gate (c := run config' ops) hkeeps
  rwa [← run_gate h ops, ← run_gate (CacheConfig.Within.refl config') ops] at hsame

theorem holdsNone_run {kind : ResourceType} (hk : config.keeps kind = false)
    (ops : List CacheOp) : (run config ops).HoldsNone kind := by
  rw [run_gate (CacheConfig.Within.refl config) ops]
  exact holdsNone_gate hk

end Cache

namespace CacheConfig

/-- The configuration with every flag set. -/
def allFlags (config : CacheConfig) : CacheConfig := { config with resourceTypes := fun _ => true }

/-- The configuration with the flag for messages cleared. -/
def noMessages (config : CacheConfig) : CacheConfig :=
  { config with
    resourceTypes := fun kind => kind != .message && config.resourceTypes kind }

/-- The configuration with no capacity for messages. -/
def noMessageCapacity (config : CacheConfig) : CacheConfig := { config with messageCacheSize := 0 }

theorem within_allFlags (config : CacheConfig) : config.Within config.allFlags where
  keeps kind h := by
    unfold keeps at h ⊢
    exact Bool.and_eq_true_iff.2 ⟨rfl, (Bool.and_eq_true_iff.1 h).2⟩
  messageCacheSize _ := rfl
  userCacheSize := rfl
  tombstonePolicy := rfl

theorem keeps_noMessageCapacity (config : CacheConfig) :
    config.noMessageCapacity.keeps = config.noMessages.keeps := by
  funext kind
  cases kind <;> simp [keeps, noMessageCapacity, noMessages]

theorem within_noMessageCapacity (config : CacheConfig) :
    config.noMessageCapacity.Within config.noMessages where
  keeps kind h := by rwa [← keeps_noMessageCapacity]
  messageCacheSize h := by simp [keeps, noMessageCapacity] at h
  userCacheSize := rfl
  tombstonePolicy := rfl

end CacheConfig

open Cache

/-- **Resource gating does not interfere.**  After every prefix of every run, a cache holds of
each kind whose flag is set what it would hold with all flags set, and nothing of the others;
and a cache with no capacity for messages holds what it would hold with their flag cleared. -/
theorem gating (config : CacheConfig) (ops : List CacheOp) (n : ℕ) (kind : ResourceType) :
    (if config.resourceTypes kind
      then (run config (ops.take n)).SameKind (run config.allFlags (ops.take n)) kind
      else (run config (ops.take n)).HoldsNone kind) ∧
    (run config.noMessageCapacity (ops.take n)).SameKind
      (run config.noMessages (ops.take n)) kind := by
  refine ⟨?_, sameKind_run config.within_noMessageCapacity ?_ _⟩
  · split
    · next hflag =>
      refine sameKind_run config.within_allFlags ?_ _
      rw [CacheConfig.keeps, CacheConfig.keeps, hflag]
      rfl
    · next hflag =>
      refine holdsNone_run ?_ _
      simp [CacheConfig.keeps, hflag]
  · rw [CacheConfig.keeps_noMessageCapacity]

end RocketSocket
