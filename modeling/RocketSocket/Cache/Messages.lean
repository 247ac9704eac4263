import Mathlib.Algebra.Order.BigOperators.Group.Finset
import RocketSocket.Cache.Index

/-!
# Messages and rings

A cached message is evicted through the ring of its room, so every cached id must be in a
ring.  For arbitrary arguments that is all that holds, and it is enough to bound the messages
by the rooms.

## Main definitions

* `Cache.pushed`, `unlinked` — what linking and unlinking leave of a ring.
* `Cache.Linked` — every cached id is in a ring, and no ring is too long.

## Main results

* `lookup_unlinkMessage`, `lookup_removeMessageIn`, `lookup_removeRoom_messages` — what an
  operation leaves at each key.
* `linked_run` — every run keeps the messages linked.
* `messages_bounded` — so memory is bounded.
-/

namespace RocketSocket

open Machine

namespace Cache

variable {c : Cache} {roomId r : RoomId} {id k : MessageId} {message : Message}
  {mode : StoreMode}

/-! ### What a message operation leaves at each key -/

/-- The ids a ring has after `id` is linked, before the eviction. -/
def pushed (c : Cache) (roomId : RoomId) (id : MessageId) : List MessageId :=
  id :: c.roomMessageIds roomId

theorem mem_roomMessageIds :
    id ∈ c.roomMessageIds roomId ↔
      ∃ ring, c.roomMessages.lookup roomId = some ring ∧ id ∈ ring := by
  unfold roomMessageIds
  cases c.roomMessages.lookup roomId with
  | none => simp
  | some ring => simp

/-- Storing over a cached message. -/
theorem insertMessage_cached {cached : Message} (h : c.messages.lookup message.id = some cached) :
    (c.insertMessage message mode).2 = { c with
      messages := c.messages.insert message.id (mode.stored (some cached) message) } := by
  unfold insertMessage upsert
  simp only [h]
  rfl

/-- Storing a message that is not cached. -/
theorem insertMessage_new (h : c.messages.lookup message.id = none) :
    (c.insertMessage message mode).2 = { c with
      messages := (c.messages.insert message.id message).eraseAll
        ((c.pushed message.rid message.id).drop c.config.messageCacheSize).reverse
      roomMessages := c.roomMessages.insert message.rid
        ((c.pushed message.rid message.id).take c.config.messageCacheSize) } := by
  unfold insertMessage upsert
  simp only [h]
  rfl

/-- The ring of a room once an id is taken out; an empty ring is dropped. -/
def unlinked (ring : Option (List MessageId)) (id : MessageId) : Option (List MessageId) :=
  ring.bind fun ring =>
    if (ring.filter (· ≠ id)).isEmpty then none else some (ring.filter (· ≠ id))

theorem unlinkMessage_none (h : c.roomMessages.lookup roomId = none) :
    c.unlinkMessage roomId id = c := by
  unfold unlinkMessage
  rw [h]

theorem unlinkMessage_some {ring : List MessageId} (h : c.roomMessages.lookup roomId = some ring) :
    (c.unlinkMessage roomId id).roomMessages =
      if (ring.filter (· ≠ id)).isEmpty then
        (c.roomMessages.insert roomId (ring.filter (· ≠ id))).removeIf roomId List.isEmpty
      else c.roomMessages.insert roomId (ring.filter (· ≠ id)) := by
  unfold unlinkMessage
  rw [h]
  simp only
  split
  · rfl
  · rfl

theorem lookup_unlinkMessage :
    (c.unlinkMessage roomId id).roomMessages.lookup r =
      if r = roomId then unlinked (c.roomMessages.lookup roomId) id
      else c.roomMessages.lookup r := by
  cases hring : c.roomMessages.lookup roomId with
  | none =>
    rw [unlinkMessage_none hring]
    split
    · next hr => rw [hr, hring, unlinked, Option.bind_none]
    · rfl
  | some ring =>
    rw [unlinkMessage_some hring, unlinked, Option.bind_some]
    generalize ring.filter (· ≠ id) = left
    cases hempty : left.isEmpty with
    | true =>
      obtain rfl | hr := eq_or_ne r roomId
      · simp [Finmap.lookup_removeIf, hempty]
      · simp [hr, Finmap.lookup_removeIf, Finmap.lookup_insert_of_ne]
    | false =>
      obtain rfl | hr := eq_or_ne r roomId
      · simp
      · simp [hr, Finmap.lookup_insert_of_ne]

/-- A ring an id was taken out of. -/
theorem unlinked_eq_some {old : Option (List MessageId)} {ring : List MessageId}
    (h : unlinked old id = some ring) :
    ∃ full, old = some full ∧ ring = full.filter (· ≠ id) ∧ ring ≠ [] := by
  obtain ⟨full, hfull, hring⟩ := Option.bind_eq_some_iff.mp h
  split at hring
  · cases hring
  · next hempty =>
    obtain rfl := Option.some.inj hring
    exact ⟨full, hfull, rfl, by simpa using hempty⟩

/-- Taking an id out of a ring takes nothing else out of it. -/
theorem mem_unlinked {old : Option (List MessageId)} :
    (∃ ring, unlinked old id = some ring ∧ k ∈ ring) ↔
      k ≠ id ∧ ∃ ring, old = some ring ∧ k ∈ ring := by
  constructor
  · rintro ⟨ring, hring, hk⟩
    obtain ⟨full, rfl, rfl, -⟩ := unlinked_eq_some hring
    obtain ⟨hk, hne⟩ := List.mem_filter.mp hk
    exact ⟨of_decide_eq_true hne, full, rfl, hk⟩
  · rintro ⟨hne, full, rfl, hk⟩
    have hmem : k ∈ full.filter (· ≠ id) := List.mem_filter.mpr ⟨hk, decide_eq_true hne⟩
    refine ⟨full.filter (· ≠ id), ?_, hmem⟩
    rw [unlinked, Option.bind_some, if_neg]
    rw [List.isEmpty_iff]
    exact List.ne_nil_of_mem hmem

@[simp] theorem removeMessageIn_messages :
    (c.removeMessageIn roomId id).2.messages = c.messages.erase id := by
  obtain ⟨rings, h⟩ := unlinkMessage_frame roomId id
    (c := { c with messages := c.messages.erase id })
  show (unlinkMessage { c with messages := c.messages.erase id } roomId id).messages = _
  rw [h]

theorem lookup_removeMessageIn :
    (c.removeMessageIn roomId id).2.roomMessages.lookup r =
      if r = roomId then unlinked (c.roomMessages.lookup roomId) id
      else c.roomMessages.lookup r :=
  lookup_unlinkMessage (c := { c with messages := c.messages.erase id })

theorem lookup_removeRoom_messages :
    (c.removeRoom roomId).2.messages.lookup id =
      if id ∈ c.roomMessageIds roomId then none else c.messages.lookup id := by
  unfold roomMessageIds
  cases hring : c.roomMessages.lookup roomId with
  | none =>
    rw [removeRoom_none hring, Option.getD_none, if_neg List.not_mem_nil]
    rfl
  | some ring =>
    rw [removeRoom_some hring]
    exact Finmap.lookup_eraseAll ring

theorem lookup_removeRoom_roomMessages :
    (c.removeRoom roomId).2.roomMessages.lookup r =
      if r = roomId then none else c.roomMessages.lookup r := by
  cases hring : c.roomMessages.lookup roomId with
  | none =>
    rw [removeRoom_none hring]
    split
    · next hr => exact hr ▸ hring
    · rfl
  | some ring =>
    rw [removeRoom_some hring]
    exact Finmap.lookup_erase_eq

/-! ### Every cached message is in a ring -/

/-- Every cached id is in a ring, and no ring is longer than the bound. -/
structure Linked (c : Cache) : Prop where
  linked : ∀ id, (c.messages.lookup id).isSome → ∃ roomId, id ∈ c.roomMessageIds roomId
  bounded : ∀ roomId ring, c.roomMessages.lookup roomId = some ring →
    ring.length ≤ c.config.messageCacheSize

/-- The ids in the rings after a message is taken out of one. -/
theorem mem_roomMessageIds_removeMessageIn :
    k ∈ (c.removeMessageIn roomId id).2.roomMessageIds r ↔
      k ∈ c.roomMessageIds r ∧ ¬(r = roomId ∧ k = id) := by
  rw [mem_roomMessageIds, mem_roomMessageIds, lookup_removeMessageIn]
  by_cases hr : r = roomId
  · subst hr
    rw [if_pos rfl, mem_unlinked]
    constructor
    · exact fun ⟨hne, hk⟩ => ⟨hk, fun h => hne h.2⟩
    · exact fun ⟨hk, hne⟩ => ⟨fun h => hne ⟨rfl, h⟩, hk⟩
  · rw [if_neg hr]
    simp [hr]

theorem linked_insertMessage (h : c.Linked) :
    (c.insertMessage message mode).2.Linked := by
  cases hcached : c.messages.lookup message.id with
  | some cached =>
    -- the keys and the rings are those of before
    rw [insertMessage_cached hcached]
    refine ⟨fun k hk => h.linked k ?_, h.bounded⟩
    rw [Finmap.lookup_insert_eq] at hk
    split at hk
    · next hkey => rw [hkey, hcached]; rfl
    · exact hk
  | none =>
    rw [insertMessage_new hcached]
    constructor
    · intro k hk
      simp only [Finmap.lookup_eraseAll, List.mem_reverse] at hk
      by_cases hdropped : k ∈ (c.pushed message.rid message.id).drop c.config.messageCacheSize
      · simp [hdropped] at hk
      rw [if_neg hdropped, Finmap.lookup_insert_eq] at hk
      -- what is in the ring of the room and was not dropped is still in it
      have hkept : k ∈ c.pushed message.rid message.id →
          k ∈ (c.pushed message.rid message.id).take c.config.messageCacheSize := by
        intro hmem
        rw [← List.take_append_drop c.config.messageCacheSize (c.pushed _ _),
          List.mem_append] at hmem
        exact hmem.resolve_right hdropped
      by_cases hkey : k = message.id
      · refine ⟨message.rid, mem_roomMessageIds.mpr ⟨_, Finmap.lookup_insert _, hkept ?_⟩⟩
        rw [hkey]
        exact List.mem_cons_self
      · rw [if_neg hkey] at hk
        obtain ⟨r, hr⟩ := h.linked k hk
        by_cases hroom : r = message.rid
        · subst hroom
          exact ⟨message.rid, mem_roomMessageIds.mpr
            ⟨_, Finmap.lookup_insert _, hkept (List.mem_cons_of_mem _ hr)⟩⟩
        · obtain ⟨ring, hring, hmem⟩ := mem_roomMessageIds.mp hr
          exact ⟨r, mem_roomMessageIds.mpr
            ⟨ring, by rw [Finmap.lookup_insert_of_ne _ hroom, hring], hmem⟩⟩
    · intro r ring hring
      simp only [Finmap.lookup_insert_eq] at hring
      split at hring
      · obtain rfl := Option.some.inj hring
        exact List.length_take_le _ _
      · exact h.bounded r ring hring

theorem linked_removeMessageIn (h : c.Linked) : (c.removeMessageIn roomId id).2.Linked := by
  have hconfig := (removeMessageIn_frame (c := c) roomId id).config_eq
  constructor
  · intro k hk
    rw [removeMessageIn_messages, Finmap.lookup_erase_eq] at hk
    split at hk
    · simp at hk
    · next hkey =>
      obtain ⟨r, hr⟩ := h.linked k hk
      exact ⟨r, mem_roomMessageIds_removeMessageIn.mpr ⟨hr, fun hsame => hkey hsame.2⟩⟩
  · intro r ring hring
    rw [hconfig]
    rw [lookup_removeMessageIn] at hring
    split at hring
    · obtain ⟨full, hfull, rfl, -⟩ := unlinked_eq_some hring
      exact (List.length_filter_le _ _).trans (h.bounded roomId full hfull)
    · exact h.bounded r ring hring

theorem linked_removeRoom (h : c.Linked) : (c.removeRoom roomId).2.Linked := by
  have hconfig : (c.removeRoom roomId).2.config = c.config :=
    (removeRoom_frame (c := c) roomId).config_eq
  constructor
  · intro k hk
    rw [lookup_removeRoom_messages] at hk
    split at hk
    · simp at hk
    · next hgone =>
      obtain ⟨r, hr⟩ := h.linked k hk
      obtain ⟨ring, hring, hmem⟩ := mem_roomMessageIds.mp hr
      refine ⟨r, mem_roomMessageIds.mpr ⟨ring, ?_, hmem⟩⟩
      rw [lookup_removeRoom_roomMessages, if_neg, hring]
      rintro rfl
      exact hgone hr
  · intro r ring hring
    rw [hconfig]
    rw [lookup_removeRoom_roomMessages] at hring
    split at hring
    · cases hring
    · exact h.bounded r ring hring

theorem linked_fromConfig (config : CacheConfig) : (fromConfig config).Linked where
  linked := by
    intro id hid
    simp [fromConfig] at hid
  bounded := by
    intro roomId ring hring
    simp [fromConfig] at hring

/-- One move keeps every cached message in a ring. -/
theorem linked_move (h : c.Linked) (move : MessageMove) : (c.moveMessages move).Linked := by
  cases move with
  | keep => exact h
  | insert message mode => exact linked_insertMessage h
  | remove roomId id => exact linked_removeMessageIn h
  | dropRoom roomId => exact linked_removeRoom h
  | clear => exact linked_fromConfig c.config

theorem moveMessages_config (move : MessageMove) : (c.moveMessages move).config = c.config := by
  cases move with
  | keep => rfl
  | insert message mode => exact (insertMessage_frame message mode).config_eq
  | remove roomId id => exact (removeMessageIn_frame roomId id).config_eq
  | dropRoom roomId => exact (removeRoom_frame (c := c) roomId).config_eq
  | clear => rfl

theorem linked_apply (h : c.Linked) (op : CacheOp) : (c.apply op).Linked := by
  obtain ⟨hmessages, hrings⟩ := apply_messages c op
  obtain ⟨hlinked, hbounded⟩ := linked_move h (c.messageMove op)
  rw [moveMessages_config] at hbounded
  constructor
  · simpa only [hmessages, hrings, roomMessageIds] using hlinked
  · simpa only [hrings, apply_config] using hbounded

theorem linked_run (config : CacheConfig) (ops : List CacheOp) : (run config ops).Linked :=
  run_induction (I := fun _ c => c.Linked) (linked_fromConfig config)
    fun _ op _ h => linked_apply h op

/-- The number of cached messages is bounded by the rings that hold them. -/
theorem Linked.size_le (h : c.Linked) :
    c.messages.size ≤ c.config.messageCacheSize * c.roomMessages.size := by
  have hsub : c.messages.keys ⊆ c.roomMessages.keys.biUnion
      fun roomId => (c.roomMessageIds roomId).toFinset := by
    intro id hid
    obtain ⟨roomId, hmem⟩ := h.linked id (Finmap.mem_keys_iff.mp hid)
    obtain ⟨ring, hring, -⟩ := mem_roomMessageIds.mp hmem
    rw [Finset.mem_biUnion]
    exact ⟨roomId, Finmap.mem_keys_of_lookup hring, List.mem_toFinset.mpr hmem⟩
  have hcard : ∀ roomId ∈ c.roomMessages.keys,
      (c.roomMessageIds roomId).toFinset.card ≤ c.config.messageCacheSize := by
    intro roomId hroom
    obtain ⟨ring, hring⟩ := Option.isSome_iff_exists.mp (Finmap.mem_keys_iff.mp hroom)
    rw [roomMessageIds, hring, Option.getD_some]
    exact (List.toFinset_card_le ring).trans (h.bounded roomId ring hring)
  calc c.messages.size
      ≤ (c.roomMessages.keys.biUnion fun roomId => (c.roomMessageIds roomId).toFinset).card :=
        Finset.card_le_card hsub
    _ ≤ c.roomMessages.keys.card * c.config.messageCacheSize :=
        Finset.card_biUnion_le_card_mul _ _ _ hcard
    _ = c.config.messageCacheSize * c.roomMessages.size := Nat.mul_comm _ _

end Cache

open Cache

/-- **Message memory is bounded whatever the caller does.**  In every run every cached
message id is in a ring, no ring is longer than the bound, and so there are no more messages
than the rings can hold. -/
theorem messages_bounded (config : CacheConfig) (ops : List CacheOp) :
    (∀ id, ((run config ops).messages.lookup id).isSome →
      ∃ roomId ring, (run config ops).roomMessages.lookup roomId = some ring ∧ id ∈ ring) ∧
    (∀ roomId ring, (run config ops).roomMessages.lookup roomId = some ring →
      ring.length ≤ config.messageCacheSize) ∧
    (run config ops).stats.messages ≤
      config.messageCacheSize * (run config ops).stats.roomsWithMessages := by
  have hlinked := linked_run config ops
  refine ⟨?_, ?_, ?_⟩
  · intro id hid
    obtain ⟨roomId, hmem⟩ := hlinked.linked id hid
    exact ⟨roomId, mem_roomMessageIds.mp hmem⟩
  · have hbounded := hlinked.bounded
    rwa [run_config] at hbounded
  · have hsize := hlinked.size_le
    rwa [run_config] at hsize

end RocketSocket
