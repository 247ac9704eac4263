import RocketSocket.Cache.Messages

/-!
# Rings in agreement with the messages

Where every message id is used with one room only, the ring of a room lists exactly the
cached messages of the room, each once, in the order of their arrival.

## Main definitions

* `CacheOp.AddressedBy` — an operation names every message with its own room.
* `Cache.RingsAgree` — each ring lists the cached messages of its room.
* `Cache.Ordered` — the rings list the messages newest first.
* `StepAgrees` — what a single operation may do to the messages.

## Main results

* `ringsAgree_move` — one move keeps the agreement.
* `ordered_run` — the rings are in order of arrival.
* `rings_agree` — both, over every well addressed run, for every operation of it.
-/

namespace RocketSocket

open Machine

/-- Every message id the operation uses, it uses with the room `ridOf` gives it. -/
def CacheOp.AddressedBy (ridOf : MessageId → RoomId) : CacheOp → Prop
  | .updateMessage message => message.rid = ridOf message.id
  | .mergeMessage message => message.rid = ridOf message.id
  | .replaceMessage message => message.rid = ridOf message.id
  | .removeMessageIn roomId id => roomId = ridOf id
  | _ => True

/-- Every message id the move uses, it uses with its room. -/
def MessageMove.AddressedBy (ridOf : MessageId → RoomId) : MessageMove → Prop
  | .insert message _ => message.rid = ridOf message.id
  | .remove roomId id => roomId = ridOf id
  | _ => True

namespace Cache

variable {c : Cache} {ridOf : MessageId → RoomId} {roomId r : RoomId} {id k : MessageId}
  {message : Message} {mode : StoreMode} {ring : List MessageId}

/-- The rings and the messages agree. -/
structure RingsAgree (ridOf : MessageId → RoomId) (c : Cache) : Prop where
  /-- A message is cached under its id, and has the room of its id. -/
  addressed : ∀ id message, c.messages.lookup id = some message →
    message.id = id ∧ message.rid = ridOf id
  nodup : ∀ roomId ring, c.roomMessages.lookup roomId = some ring → ring.Nodup
  nonempty : ∀ roomId ring, c.roomMessages.lookup roomId = some ring → ring ≠ []
  bounded : ∀ roomId ring, c.roomMessages.lookup roomId = some ring →
    ring.length ≤ c.config.messageCacheSize
  /-- An id is in the ring of a room exactly when a message of that room has it. -/
  agree : ∀ roomId id, id ∈ c.roomMessageIds roomId ↔
    ∃ message, c.messages.lookup id = some message ∧ message.rid = roomId

/-- In terms of the rooms of the ids, an id is in a ring exactly when it is cached. -/
theorem RingsAgree.mem_iff (h : c.RingsAgree ridOf) :
    id ∈ c.roomMessageIds roomId ↔ (c.messages.lookup id).isSome ∧ ridOf id = roomId := by
  rw [h.agree, Option.isSome_iff_exists]
  constructor
  · rintro ⟨message, hmessage, rfl⟩
    exact ⟨⟨message, hmessage⟩, (h.addressed id message hmessage).2.symm⟩
  · rintro ⟨⟨message, hmessage⟩, rfl⟩
    exact ⟨message, hmessage, (h.addressed id message hmessage).2⟩

/-- The agreement from the rooms of the ids. -/
theorem RingsAgree.of_mem_iff
    (haddressed : ∀ id message, c.messages.lookup id = some message →
      message.id = id ∧ message.rid = ridOf id)
    (hrings : ∀ roomId ring, c.roomMessages.lookup roomId = some ring →
      ring.Nodup ∧ ring ≠ [] ∧ ring.length ≤ c.config.messageCacheSize)
    (hmem : ∀ roomId id, id ∈ c.roomMessageIds roomId ↔
      (c.messages.lookup id).isSome ∧ ridOf id = roomId) : c.RingsAgree ridOf where
  addressed := haddressed
  nodup := fun roomId ring h => (hrings roomId ring h).1
  nonempty := fun roomId ring h => (hrings roomId ring h).2.1
  bounded := fun roomId ring h => (hrings roomId ring h).2.2
  agree := by
    intro roomId id
    rw [hmem, Option.isSome_iff_exists]
    constructor
    · rintro ⟨⟨message, hmessage⟩, rfl⟩
      exact ⟨message, hmessage, (haddressed id message hmessage).2⟩
    · rintro ⟨message, hmessage, rfl⟩
      exact ⟨⟨message, hmessage⟩, (haddressed id message hmessage).2.symm⟩

/-- What a write stores keeps the identity of what was written. -/
theorem stored_identity (mode : StoreMode) (cached : Option Message) (incoming : Message) :
    (mode.stored cached incoming).id = incoming.id ∧
      (mode.stored cached incoming).rid = incoming.rid := by
  cases cached with
  | none => exact ⟨rfl, rfl⟩
  | some cached =>
    cases mode with
    | merge => exact mergeDocuments_identity cached incoming
    | replace => exact ⟨rfl, rfl⟩

theorem ringsAgree_fromConfig (config : CacheConfig) : (fromConfig config).RingsAgree ridOf := by
  refine .of_mem_iff ?_ ?_ ?_
  · intro id message h
    simp [fromConfig] at h
  · intro roomId ring h
    simp [fromConfig] at h
  · intro roomId id
    simp [fromConfig, roomMessageIds]

/-- Storing over a cached message. -/
theorem ringsAgree_insert_cached {cached : Message} (h : c.RingsAgree ridOf)
    (haddr : message.rid = ridOf message.id)
    (hcached : c.messages.lookup message.id = some cached) :
    (c.insertMessage message mode).2.RingsAgree ridOf := by
  rw [insertMessage_cached hcached]
  refine .of_mem_iff ?_ (fun roomId ring hring => ⟨h.nodup roomId ring hring,
    h.nonempty roomId ring hring, h.bounded roomId ring hring⟩) ?_
  · intro id m hm
    rw [Finmap.lookup_insert_eq] at hm
    split at hm
    · next hid =>
      obtain rfl := Option.some.inj hm
      obtain ⟨hkeepId, hkeepRid⟩ := stored_identity mode (some cached) message
      rw [hid, hkeepId, hkeepRid]
      exact ⟨rfl, haddr⟩
    · exact h.addressed id m hm
  · intro roomId id
    show id ∈ c.roomMessageIds roomId ↔ _
    rw [h.mem_iff, Finmap.lookup_insert_eq]
    split
    · next hid => rw [hid, hcached, Option.isSome_some, Option.isSome_some]
    · rfl

/-- The ids in the rings once a new message is linked. -/
theorem mem_roomMessageIds_insertMessage_new (hnew : c.messages.lookup message.id = none) :
    k ∈ (c.insertMessage message mode).2.roomMessageIds r ↔
      if r = message.rid then
        k ∈ (c.pushed message.rid message.id).take c.config.messageCacheSize
      else k ∈ c.roomMessageIds r := by
  rw [insertMessage_new hnew]
  unfold roomMessageIds
  simp only [Finmap.lookup_insert_eq]
  split
  · rw [Option.getD_some]
  · rfl

/-- Storing a new message. -/
theorem ringsAgree_insert_new (hcap : 1 ≤ c.config.messageCacheSize) (h : c.RingsAgree ridOf)
    (haddr : message.rid = ridOf message.id) (hnew : c.messages.lookup message.id = none) :
    (c.insertMessage message mode).2.RingsAgree ridOf := by
  have hfresh : message.id ∉ c.roomMessageIds message.rid := by
    rw [h.mem_iff, hnew]
    simp
  have hnodup : (c.pushed message.rid message.id).Nodup := by
    refine List.nodup_cons.mpr ⟨hfresh, ?_⟩
    unfold roomMessageIds
    cases hring : c.roomMessages.lookup message.rid with
    | none => exact List.nodup_nil
    | some ring => exact h.nodup _ ring hring
  have hdisjoint := List.disjoint_take_drop hnodup (le_refl c.config.messageCacheSize)
  -- an id is still cached unless the ring pushed it out
  have hlookup : ∀ id, (c.insertMessage message mode).2.messages.lookup id =
      if id ∈ (c.pushed message.rid message.id).drop c.config.messageCacheSize then none
      else if id = message.id then some message else c.messages.lookup id := by
    intro id
    rw [insertMessage_new hnew]
    simp only [Finmap.lookup_eraseAll, Finmap.lookup_insert_eq, List.mem_reverse]
  refine .of_mem_iff ?_ ?_ ?_
  · intro id m hm
    rw [hlookup] at hm
    split at hm
    · cases hm
    · split at hm
      · next hid =>
        obtain rfl := Option.some.inj hm
        exact ⟨hid.symm, hid ▸ haddr⟩
      · exact h.addressed id m hm
  · intro roomId ring hring
    have hconfig := (insertMessage_frame (c := c) message mode).config_eq
    rw [hconfig]
    rw [insertMessage_new hnew, Finmap.lookup_insert_eq] at hring
    split at hring
    · obtain rfl := Option.some.inj hring
      refine ⟨hnodup.sublist (List.take_sublist _ _), ?_, List.length_take_le _ _⟩
      -- the newest id is never pushed out
      rw [pushed, List.take_cons hcap]
      exact List.cons_ne_nil _ _
    · exact ⟨h.nodup roomId ring hring, h.nonempty roomId ring hring, h.bounded roomId ring hring⟩
  · intro roomId id
    rw [mem_roomMessageIds_insertMessage_new hnew, hlookup]
    have hpushed : id ∈ c.pushed message.rid message.id ↔
        id = message.id ∨ ((c.messages.lookup id).isSome ∧ ridOf id = message.rid) := by
      rw [pushed, List.mem_cons, h.mem_iff]
    have hsplit : id ∈ c.pushed message.rid message.id ↔
        id ∈ (c.pushed message.rid message.id).take c.config.messageCacheSize ∨
          id ∈ (c.pushed message.rid message.id).drop c.config.messageCacheSize := by
      rw [← List.mem_append, List.take_append_drop]
    by_cases hdropped : id ∈ (c.pushed message.rid message.id).drop c.config.messageCacheSize
    · -- pushed out of the ring of its room, and erased
      have hroom : ridOf id = message.rid := by
        rcases hpushed.mp (hsplit.mpr (.inr hdropped)) with rfl | ⟨-, hroom⟩
        · exact haddr.symm
        · exact hroom
      rw [if_pos hdropped]
      constructor
      · intro hmem
        split at hmem
        · exact absurd hdropped (hdisjoint hmem)
        · next hne => exact absurd (hroom.symm.trans (h.mem_iff.mp hmem).2).symm hne
      · rintro ⟨hsome, -⟩
        cases hsome
    · rw [if_neg hdropped]
      have hkept : id ∈ (c.pushed message.rid message.id).take c.config.messageCacheSize ↔
          id ∈ c.pushed message.rid message.id := by
        rw [hsplit, or_iff_left hdropped]
      by_cases hid : id = message.id
      · -- the new message, in the ring of its room only
        subst hid
        rw [if_pos rfl, ← haddr, hkept, hpushed, h.mem_iff, hnew]
        by_cases hroom : roomId = message.rid
        · simp [hroom]
        · simp [hroom, Ne.symm hroom]
      · rw [if_neg hid, hkept, hpushed, h.mem_iff]
        by_cases hroom : roomId = message.rid
        · simp [hroom, hid]
        · simp [hroom]

/-- Removing a message from its room. -/
theorem ringsAgree_remove (h : c.RingsAgree ridOf) :
    (c.removeMessageIn (ridOf id) id).2.RingsAgree ridOf := by
  refine .of_mem_iff ?_ ?_ ?_
  · intro k m hm
    rw [removeMessageIn_messages, Finmap.lookup_erase_eq] at hm
    split at hm
    · cases hm
    · exact h.addressed k m hm
  · intro roomId ring hring
    rw [(removeMessageIn_frame (c := c) (ridOf id) id).config_eq]
    rw [lookup_removeMessageIn] at hring
    split at hring
    · obtain ⟨full, hfull, rfl, hne⟩ := unlinked_eq_some hring
      exact ⟨(h.nodup _ full hfull).filter _, hne,
        (List.length_filter_le _ _).trans (h.bounded _ full hfull)⟩
    · exact ⟨h.nodup roomId ring hring, h.nonempty roomId ring hring, h.bounded roomId ring hring⟩
  · intro roomId k
    rw [mem_roomMessageIds_removeMessageIn, h.mem_iff, removeMessageIn_messages,
      Finmap.lookup_erase_eq]
    -- Only the id that is removed was unlinked.
    by_cases hk : k = id
    · subst hk
      rw [if_pos rfl]
      constructor
      · exact fun ⟨⟨_, hroom⟩, hne⟩ => absurd ⟨hroom.symm, rfl⟩ hne
      · exact fun ⟨hsome, _⟩ => by cases hsome
    · simp [hk]

/-- Removing a room. -/
theorem ringsAgree_removeRoom (h : c.RingsAgree ridOf) :
    (c.removeRoom roomId).2.RingsAgree ridOf := by
  refine .of_mem_iff ?_ ?_ ?_
  · intro k m hm
    rw [lookup_removeRoom_messages] at hm
    split at hm
    · cases hm
    · exact h.addressed k m hm
  · intro r ring hring
    have hconfig : (c.removeRoom roomId).2.config = c.config :=
      (removeRoom_frame (c := c) roomId).config_eq
    rw [hconfig]
    rw [lookup_removeRoom_roomMessages] at hring
    split at hring
    · cases hring
    · exact ⟨h.nodup r ring hring, h.nonempty r ring hring, h.bounded r ring hring⟩
  · intro r k
    have hmem : k ∈ c.roomMessageIds roomId ↔ _ := h.mem_iff
    rw [mem_roomMessageIds, lookup_removeRoom_roomMessages, lookup_removeRoom_messages]
    by_cases hk : k ∈ c.roomMessageIds roomId
    · -- erased with its ring, and in no other
      rw [if_pos hk]
      constructor
      · rintro ⟨ring, hring, hmem'⟩
        split at hring
        · cases hring
        · next hr =>
          have hother := h.mem_iff.mp (mem_roomMessageIds.mpr ⟨ring, hring, hmem'⟩)
          exact absurd (hother.2.symm.trans (hmem.mp hk).2) hr
      · exact fun ⟨hsome, _⟩ => by cases hsome
    · rw [if_neg hk]
      by_cases hr : r = roomId
      · subst hr
        rw [if_pos rfl]
        simpa using fun hsome hroom => hk (hmem.mpr ⟨hsome, hroom⟩)
      · rw [if_neg hr, ← mem_roomMessageIds, h.mem_iff]

/-- **One move keeps the rings and the messages in agreement.** -/
theorem ringsAgree_move (hcap : 1 ≤ c.config.messageCacheSize) (h : c.RingsAgree ridOf)
    (move : MessageMove) (haddr : move.AddressedBy ridOf) :
    (c.moveMessages move).RingsAgree ridOf := by
  cases move with
  | keep => exact h
  | insert message mode =>
    show (c.insertMessage message mode).2.RingsAgree ridOf
    cases hcached : c.messages.lookup message.id with
    | none => exact ringsAgree_insert_new hcap h haddr hcached
    | some cached => exact ringsAgree_insert_cached h haddr hcached
  | remove roomId id =>
    obtain rfl := haddr
    exact ringsAgree_remove h
  | dropRoom roomId => exact ringsAgree_removeRoom h
  | clear => exact ringsAgree_fromConfig c.config

theorem storeMove_addressed (haddr : message.rid = ridOf message.id) :
    (c.storeMove message mode).AddressedBy ridOf := by
  unfold storeMove
  split
  · trivial
  · split
    · cases c.config.tombstonePolicy with
      | evict => exact haddr
      | replace => exact haddr
    · exact haddr

/-- A well addressed operation makes a well addressed move. -/
theorem messageMove_addressed (h : c.RingsAgree ridOf) {op : CacheOp}
    (haddr : op.AddressedBy ridOf) : (c.messageMove op).AddressedBy ridOf := by
  cases op with
  | updateMessage message => exact storeMove_addressed haddr
  | mergeMessage message => exact storeMove_addressed haddr
  | replaceMessage message => exact storeMove_addressed haddr
  | removeMessage id =>
    show ((c.messages.lookup id).elim MessageMove.keep fun m => .remove m.rid id).AddressedBy ridOf
    cases hm : c.messages.lookup id with
    | none => trivial
    | some message => exact (h.addressed id message hm).2
  | removeMessageIn roomId id => exact haddr
  | _ => trivial

theorem RingsAgree.congr {c' : Cache} (h : c.RingsAgree ridOf)
    (hmessages : c'.messages = c.messages) (hrings : c'.roomMessages = c.roomMessages)
    (hconfig : c'.config = c.config) : c'.RingsAgree ridOf := by
  refine .of_mem_iff ?_ ?_ ?_
  · rw [hmessages]
    exact h.addressed
  · rw [hrings, hconfig]
    exact fun roomId ring hring =>
      ⟨h.nodup roomId ring hring, h.nonempty roomId ring hring, h.bounded roomId ring hring⟩
  · intro roomId id
    rw [mem_roomMessageIds, hrings, ← mem_roomMessageIds, hmessages]
    exact h.mem_iff

theorem ringsAgree_apply (hcap : 1 ≤ c.config.messageCacheSize) (h : c.RingsAgree ridOf)
    {op : CacheOp} (haddr : op.AddressedBy ridOf) : (c.apply op).RingsAgree ridOf := by
  obtain ⟨hmessages, hrings⟩ := apply_messages c op
  have hmove := ringsAgree_move hcap h _ (messageMove_addressed h haddr)
  refine hmove.congr hmessages hrings ?_
  rw [apply_config, moveMessages_config]

/-- **In every well addressed run the rings and the messages agree.** -/
theorem ringsAgree_run {config : CacheConfig} {ops : List CacheOp}
    (hcap : 1 ≤ config.messageCacheSize) (haddr : ∀ op ∈ ops, op.AddressedBy ridOf) :
    (run config ops).RingsAgree ridOf := by
  refine run_induction (I := fun _ c => c.RingsAgree ridOf) (ringsAgree_fromConfig config) ?_
  intro pre op hpre h
  refine ringsAgree_apply (by rwa [run_config]) h (haddr op ?_)
  exact hpre.subset (List.mem_append_right pre (List.mem_singleton_self op))

/-! ### The order of arrival -/

/-- The id is cached. -/
def HasMessage (id : MessageId) (c : Cache) : Prop := (c.messages.lookup id).isSome

/-- The rings list the messages newest first: the stay of a message in front of another
began later. -/
def Ordered (config : CacheConfig) (ops : List CacheOp) : Prop :=
  ∀ roomId, ((run config ops).roomMessageIds roomId).Pairwise fun newer older =>
    ∀ n m, StaysSince (HasMessage newer) config ops n → StaysSince (HasMessage older) config ops m →
      m < n

/-- The id a move links, if it links a new one. -/
def newlyLinked (c : Cache) : MessageMove → Option Message
  | .insert message _ => if (c.messages.lookup message.id).isNone then some message else none
  | _ => none

/-- What a move leaves of a ring: some of its ids in their order, or all of them behind the
new one, cut to capacity. -/
theorem roomMessageIds_move (move : MessageMove) (roomId : RoomId) :
    ((c.moveMessages move).roomMessageIds roomId).Sublist (c.roomMessageIds roomId) ∨
      ∃ message, c.newlyLinked move = some message ∧ roomId = message.rid ∧
        (c.moveMessages move).roomMessageIds roomId =
          (c.pushed message.rid message.id).take c.config.messageCacheSize := by
  cases move with
  | keep => exact .inl (List.Sublist.refl _)
  | insert message mode =>
    show ((c.insertMessage message mode).2.roomMessageIds roomId).Sublist _ ∨ _
    cases hcached : c.messages.lookup message.id with
    | some cached =>
      rw [insertMessage_cached hcached]
      exact .inl (List.Sublist.refl _)
    | none =>
      -- Only the ring of the message's room changes.
      by_cases hroom : roomId = message.rid
      · refine .inr ⟨message, by simp [newlyLinked, hcached], hroom, ?_⟩
        show (c.insertMessage message mode).2.roomMessageIds roomId = _
        rw [insertMessage_new hcached, roomMessageIds, hroom, Finmap.lookup_insert,
          Option.getD_some]
      · refine .inl ?_
        rw [insertMessage_new hcached, roomMessageIds, Finmap.lookup_insert_of_ne _ hroom]
        exact List.Sublist.refl _
  | remove r id =>
    refine .inl ?_
    show ((c.removeMessageIn r id).2.roomMessageIds roomId).Sublist _
    rw [roomMessageIds, lookup_removeMessageIn]
    split
    · next hroom =>
      -- The id is filtered out of its ring, which goes if nothing else is in it.
      cases hring : unlinked (c.roomMessages.lookup r) id with
      | none => exact List.nil_sublist _
      | some ring =>
        obtain ⟨full, hfull, rfl, -⟩ := unlinked_eq_some hring
        rw [hroom, roomMessageIds, hfull]
        exact List.filter_sublist
    · exact List.Sublist.refl _
  | dropRoom r =>
    refine .inl ?_
    show ((c.removeRoom r).2.roomMessageIds roomId).Sublist _
    rw [roomMessageIds, lookup_removeRoom_roomMessages]
    split
    · exact List.nil_sublist _
    · exact List.Sublist.refl _
  | clear => exact .inl (List.nil_sublist _)

theorem newlyLinked_eq_some {move : MessageMove} (h : c.newlyLinked move = some message) :
    c.messages.lookup message.id = none ∧ ∃ mode, move = .insert message mode := by
  cases move with
  | insert m mode =>
    unfold newlyLinked at h
    simp only at h
    split at h
    · next hnone =>
      obtain rfl := Option.some.inj h
      exact ⟨Option.isNone_iff_eq_none.mp hnone, mode, rfl⟩
    · cases h
  | _ => cases h

theorem RingsAgree.hasMessage (h : c.RingsAgree ridOf) (hid : id ∈ c.roomMessageIds roomId) :
    HasMessage id c := (h.mem_iff.mp hid).1

/-- One operation keeps the rings in the order of arrival. -/
theorem ordered_snoc {config : CacheConfig} {ops : List CacheOp} {op : CacheOp}
    (hagree : (run config ops).RingsAgree ridOf) (h : Ordered config ops) :
    Ordered config (ops ++ [op]) := by
  intro roomId
  -- ids that were in the ring before have the stays they had
  have hbefore : ((run config ops).roomMessageIds roomId).Pairwise fun newer older =>
      ∀ n m, StaysSince (HasMessage newer) config (ops ++ [op]) n →
        StaysSince (HasMessage older) config (ops ++ [op]) m → m < n := by
    refine (h roomId).imp_of_mem ?_
    intro newer older hnewer holder hlt n m hn hm
    exact hlt n m (hn.of_snoc.1 (hagree.hasMessage hnewer))
      (hm.of_snoc.1 (hagree.hasMessage holder))
  have hids : (run config (ops ++ [op])).roomMessageIds roomId =
      ((run config ops).moveMessages ((run config ops).messageMove op)).roomMessageIds roomId := by
    rw [run_snoc, roomMessageIds, (apply_messages _ op).2, ← roomMessageIds]
  rw [hids]
  rcases roomMessageIds_move ((run config ops).messageMove op) roomId with
    hsub | ⟨message, hlinked, rfl, htake⟩
  · exact hbefore.sublist hsub
  · rw [htake]
    refine List.Pairwise.sublist (List.take_sublist _ _) (List.pairwise_cons.mpr ⟨?_, hbefore⟩)
    -- the new id arrives now, every other one arrived before
    intro older holder n m hn hm
    have hnew : ¬HasMessage message.id (run config ops) := by
      rw [HasMessage, (newlyLinked_eq_some hlinked).1]
      simp
    rw [hn.of_snoc.2 hnew]
    exact (hm.of_snoc.1 (hagree.hasMessage holder)).1

/-- **The rings list the messages in the order they arrived.** -/
theorem ordered_run {config : CacheConfig} {ops : List CacheOp}
    (hcap : 1 ≤ config.messageCacheSize) (haddr : ∀ op ∈ ops, op.AddressedBy ridOf) :
    Ordered config ops := by
  induction ops using List.reverseRecOn with
  | nil =>
    intro roomId
    exact List.Pairwise.nil
  | append_singleton ops op ih =>
    have haddr' : ∀ op ∈ ops, op.AddressedBy ridOf :=
      fun op hop => haddr op (List.mem_append_left _ hop)
    exact ordered_snoc (ringsAgree_run hcap haddr') (ih haddr')

end Cache

/-! ### What a single operation may do -/

/-- The message an operation stores, if it stores one. -/
def CacheOp.stores : CacheOp → Option Message
  | .updateMessage message => some message
  | .mergeMessage message => some message
  | .replaceMessage message => some message
  | _ => none

/-- The room an operation is about, if it is about one. -/
def CacheOp.room (ridOf : MessageId → RoomId) : CacheOp → Option RoomId
  | .updateRoom room => some room.id
  | .replaceRoom room => some room.id
  | .mergeRoom room => some room.id
  | .removeRoom id => some id
  | .updateSubscription subscription => some subscription.rid
  | .replaceSubscription subscription => some subscription.rid
  | .removeSubscription roomId => some roomId
  | .updateMessage message => some message.rid
  | .mergeMessage message => some message.rid
  | .replaceMessage message => some message.rid
  | .removeMessage id => some (ridOf id)
  | .removeMessageIn roomId _ => some roomId
  | _ => none

/-- The room a move is about. -/
def MessageMove.room : MessageMove → Option RoomId
  | .insert message _ => some message.rid
  | .remove roomId _ => some roomId
  | .dropRoom roomId => some roomId
  | _ => none

namespace Cache

variable {c : Cache} {ridOf : MessageId → RoomId} {roomId r : RoomId} {id k : MessageId}
  {message : Message} {mode : StoreMode}

theorem storeMove_room (h : (c.storeMove message mode).room = some r) : r = message.rid := by
  unfold storeMove at h
  split at h
  · cases h
  · split at h
    · cases hpolicy : c.config.tombstonePolicy with
      | evict => rw [hpolicy] at h; exact (Option.some.inj h).symm
      | replace => rw [hpolicy] at h; exact (Option.some.inj h).symm
    · exact (Option.some.inj h).symm

/-- A move is about the room its operation is about. -/
theorem messageMove_room (hagree : c.RingsAgree ridOf) {op : CacheOp}
    (h : (c.messageMove op).room = some r) : op.room ridOf = some r := by
  cases op with
  | updateMessage message => exact congrArg some (storeMove_room h).symm
  | mergeMessage message => exact congrArg some (storeMove_room h).symm
  | replaceMessage message => exact congrArg some (storeMove_room h).symm
  | removeMessage id =>
    change ((c.messages.lookup id).elim MessageMove.keep fun m => .remove m.rid id).room = _ at h
    cases hm : c.messages.lookup id with
    | none => rw [hm] at h; cases h
    | some message =>
      rw [hm] at h
      exact (congrArg some (hagree.addressed id message hm).2).symm.trans h
  | removeMessageIn roomId id => exact h
  | removeRoom id => exact h
  | _ => cases h

theorem storeMove_ne_clear : c.storeMove message mode ≠ .clear := by
  unfold storeMove
  split
  · exact MessageMove.noConfusion
  · split
    · cases c.config.tombstonePolicy with
      | evict => exact MessageMove.noConfusion
      | replace => exact MessageMove.noConfusion
    · exact MessageMove.noConfusion

theorem messageMove_ne_clear {op : CacheOp} (h : op ≠ .clear) : c.messageMove op ≠ .clear := by
  cases op with
  | updateMessage message => exact storeMove_ne_clear
  | mergeMessage message => exact storeMove_ne_clear
  | replaceMessage message => exact storeMove_ne_clear
  | removeMessage id =>
    show ((c.messages.lookup id).elim MessageMove.keep fun m => .remove m.rid id) ≠ _
    cases c.messages.lookup id with
    | none => exact MessageMove.noConfusion
    | some message => exact MessageMove.noConfusion
  | clear => exact absurd rfl h
  | _ => exact MessageMove.noConfusion

/-- A move about another room leaves the ring of a room and its messages alone. -/
theorem move_other (hagree : c.RingsAgree ridOf) {move : MessageMove}
    (haddr : move.AddressedBy ridOf) (hclear : move ≠ .clear) (hroom : move.room ≠ some r) :
    (c.moveMessages move).roomMessages.lookup r = c.roomMessages.lookup r ∧
      ∀ id, ridOf id = r → (c.moveMessages move).messages.lookup id = c.messages.lookup id := by
  cases move with
  | keep => exact ⟨rfl, fun _ _ => rfl⟩
  | insert message mode =>
    have hr : r ≠ message.rid := fun h => hroom (h ▸ rfl)
    show (c.insertMessage message mode).2.roomMessages.lookup r = _ ∧
      ∀ id, _ → (c.insertMessage message mode).2.messages.lookup id = _
    have hid : ∀ id, ridOf id = r → id ≠ message.id := by
      rintro id hid rfl
      exact hr (hid.symm.trans haddr.symm)
    cases hcached : c.messages.lookup message.id with
    | some cached =>
      rw [insertMessage_cached hcached]
      exact ⟨rfl, fun id h => Finmap.lookup_insert_of_ne _ (hid id h)⟩
    | none =>
      rw [insertMessage_new hcached]
      refine ⟨Finmap.lookup_insert_of_ne _ hr, fun id h => ?_⟩
      simp only [Finmap.lookup_eraseAll, Finmap.lookup_insert_eq, List.mem_reverse]
      rw [if_neg, if_neg (hid id h)]
      -- what is pushed out of a ring has the room of the ring
      intro hdropped
      rcases List.mem_cons.mp (List.mem_of_mem_drop hdropped) with heq | hmem
      · exact hid id h heq
      · exact hr (h.symm.trans (hagree.mem_iff.mp hmem).2)
  | remove roomId id =>
    have hr : r ≠ roomId := fun h => hroom (h ▸ rfl)
    show (c.removeMessageIn roomId id).2.roomMessages.lookup r = _ ∧
      ∀ k, _ → (c.removeMessageIn roomId id).2.messages.lookup k = _
    rw [lookup_removeMessageIn, if_neg hr]
    refine ⟨rfl, fun k hk => ?_⟩
    rw [removeMessageIn_messages, Finmap.lookup_erase_ne]
    rintro rfl
    exact hr (hk.symm.trans haddr.symm)
  | dropRoom roomId =>
    have hr : r ≠ roomId := fun h => hroom (h ▸ rfl)
    show (c.removeRoom roomId).2.roomMessages.lookup r = _ ∧
      ∀ k, _ → (c.removeRoom roomId).2.messages.lookup k = _
    rw [lookup_removeRoom_roomMessages, if_neg hr]
    refine ⟨rfl, fun k hk => ?_⟩
    rw [lookup_removeRoom_messages, if_neg]
    intro hmem
    exact hr (hk.symm.trans (hagree.mem_iff.mp hmem).2)
  | clear => exact absurd rfl hclear

/-- A message that a new one pushes out is the last of a full ring. -/
theorem pushed_out (hcap : 1 ≤ c.config.messageCacheSize) (hagree : c.RingsAgree ridOf)
    (hnew : c.messages.lookup message.id = none) (hid : (c.messages.lookup id).isSome)
    (hgone : (c.insertMessage message mode).2.messages.lookup id = none) :
    ∃ front, c.roomMessageIds message.rid = front ++ [id] ∧
      (c.roomMessageIds message.rid).length = c.config.messageCacheSize := by
  have hdropped : id ∈ (c.pushed message.rid message.id).drop c.config.messageCacheSize := by
    by_contra hkept
    rw [insertMessage_new hnew] at hgone
    simp only [Finmap.lookup_eraseAll, Finmap.lookup_insert_eq, List.mem_reverse] at hgone
    rw [if_neg hkept] at hgone
    split at hgone
    · cases hgone
    · rw [hgone] at hid
      cases hid
  have hlen : (c.roomMessageIds message.rid).length ≤ c.config.messageCacheSize := by
    unfold roomMessageIds
    cases hring : c.roomMessages.lookup message.rid with
    | none => exact Nat.zero_le _
    | some ring => exact hagree.bounded _ ring hring
  -- behind the first `capacity` ids there is room for one only
  obtain ⟨n, hn⟩ : ∃ n, c.config.messageCacheSize = n + 1 :=
    ⟨c.config.messageCacheSize - 1, by omega⟩
  rw [hn, pushed, List.drop_succ_cons] at hdropped
  rw [hn] at hlen ⊢
  have hlast : ((c.roomMessageIds message.rid).drop n).length =
      (c.roomMessageIds message.rid).length - n := List.length_drop
  have hpos : 0 < ((c.roomMessageIds message.rid).drop n).length := List.length_pos_of_mem hdropped
  have hone : (c.roomMessageIds message.rid).drop n = [id] := by
    obtain ⟨k, hk⟩ := List.length_eq_one_iff.mp (by omega :
      ((c.roomMessageIds message.rid).drop n).length = 1)
    rw [hk] at hdropped ⊢
    rw [List.mem_singleton.mp hdropped]
  refine ⟨(c.roomMessageIds message.rid).take n, ?_, by omega⟩
  conv_lhs => rw [← List.take_append_drop n (c.roomMessageIds message.rid), hone]

theorem messageMove_of_stores {op : CacheOp} (h : op.stores = some message) :
    ∃ mode, c.messageMove op = c.storeMove message mode := by
  cases op with
  | updateMessage m => cases h; exact ⟨_, rfl⟩
  | mergeMessage m => cases h; exact ⟨_, rfl⟩
  | replaceMessage m => cases h; exact ⟨_, rfl⟩
  | _ => cases h

/-- What storing a message takes out of the cache, when the message was not in it: the
message whose ring was full and pushed it out. -/
theorem lost_storing (hcap : 1 ≤ c.config.messageCacheSize) (hagree : c.RingsAgree ridOf)
    {op : CacheOp} (hstores : op.stores = some message)
    (hnew : c.messages.lookup message.id = none) (hid : HasMessage id c)
    (hgone : ¬HasMessage id (c.apply op)) :
    ∃ front, c.roomMessageIds message.rid = front ++ [id] ∧
      (c.roomMessageIds message.rid).length = c.config.messageCacheSize := by
  obtain ⟨mode, hmove⟩ := messageMove_of_stores (c := c) hstores
  rw [HasMessage, (apply_messages c op).1, hmove, Option.not_isSome_iff_eq_none] at hgone
  unfold storeMove at hgone
  split at hgone
  · change c.messages.lookup id = none at hgone
    rw [HasMessage, hgone] at hid
    cases hid
  · split at hgone
    · cases hpolicy : c.config.tombstonePolicy with
      | evict =>
        -- a tombstone that evicts takes out its own message, which was not cached
        rw [hpolicy] at hgone
        simp only [moveMessages, removeMessageIn_messages, Finmap.lookup_erase_eq] at hgone
        split at hgone
        · next hsame => rw [HasMessage, hsame, hnew] at hid; cases hid
        · rw [HasMessage, hgone] at hid; cases hid
      | replace =>
        rw [hpolicy] at hgone
        exact pushed_out hcap hagree hnew hid hgone
    · exact pushed_out hcap hagree hnew hid hgone

/-- Storing over a cached message leaves the rings alone, unless it takes the message out. -/
theorem rings_of_storing_cached {op : CacheOp} (hstores : op.stores = some message)
    (hcached : HasMessage message.id c) (hkept : HasMessage message.id (c.apply op)) :
    (c.apply op).roomMessages = c.roomMessages := by
  obtain ⟨mode, hmove⟩ := messageMove_of_stores (c := c) hstores
  obtain ⟨cached, hcached⟩ := Option.isSome_iff_exists.mp hcached
  have hinsert : ∀ mode, (c.moveMessages (.insert message mode)).roomMessages = c.roomMessages := by
    intro mode
    show (c.insertMessage message mode).2.roomMessages = _
    rw [insertMessage_cached hcached]
  rw [HasMessage, (apply_messages c op).1, hmove] at hkept
  rw [(apply_messages c op).2, hmove]
  unfold storeMove at hkept ⊢
  split
  · rfl
  · split
    · cases hpolicy : c.config.tombstonePolicy with
      | evict => simp_all [moveMessages]
      | replace => exact hinsert .replace
    · exact hinsert mode

end Cache

open Cache

/-- What one operation of a well addressed run does to the messages. -/
structure StepAgrees (ridOf : MessageId → RoomId) (config : CacheConfig) (pre : List CacheOp)
    (op : CacheOp) : Prop where
  /-- Storing a new message takes out a message only if the ring of its room was full, and
  only the one that arrived earliest. -/
  evicts : ∀ message, op.stores = some message →
    (run config pre).messages.lookup message.id = none →
    ∀ id, HasMessage id (run config pre) → ¬HasMessage id (run config (pre ++ [op])) →
      ridOf id = message.rid ∧
      ((run config pre).roomMessageIds message.rid).length = config.messageCacheSize ∧
      ∃ n, StaysSince (HasMessage id) config pre n ∧
        ∀ id', HasMessage id' (run config pre) → ridOf id' = message.rid → id' ≠ id →
          ∃ n', StaysSince (HasMessage id') config pre n' ∧ n < n'
  /-- Storing over a cached message does not reorder the rings. -/
  updates : ∀ message, op.stores = some message → HasMessage message.id (run config pre) →
    HasMessage message.id (run config (pre ++ [op])) →
      (run config (pre ++ [op])).roomMessages = (run config pre).roomMessages
  /-- Every room the operation is not about keeps its ring and its messages. -/
  others : op ≠ .clear → ∀ roomId, op.room ridOf ≠ some roomId →
    (run config (pre ++ [op])).roomMessages.lookup roomId =
        (run config pre).roomMessages.lookup roomId ∧
      ∀ id, ridOf id = roomId → (run config (pre ++ [op])).messages.lookup id =
        (run config pre).messages.lookup id
  /-- Removing a room leaves nothing of it. -/
  removes : ∀ roomId, op = .removeRoom roomId →
    (∀ id message, (run config (pre ++ [op])).messages.lookup id = some message →
      message.rid ≠ roomId) ∧
    (run config (pre ++ [op])).roomMessages.lookup roomId = none ∧
    (run config (pre ++ [op])).subscriptions.lookup roomId = none ∧
    ∀ name, (run config (pre ++ [op])).roomIdByName name ≠ some roomId

section Run

variable {ridOf : MessageId → RoomId} {config : CacheConfig} {pre ops : List CacheOp}
  {op : CacheOp}

theorem evicts_oldest (hcap : 1 ≤ config.messageCacheSize)
    (hagree : (run config pre).RingsAgree ridOf) (hord : Ordered config pre) {message : Message}
    (hstores : op.stores = some message)
    (hnew : (run config pre).messages.lookup message.id = none) {id : MessageId}
    (hid : HasMessage id (run config pre)) (hgone : ¬HasMessage id (run config (pre ++ [op]))) :
    ridOf id = message.rid ∧
      ((run config pre).roomMessageIds message.rid).length = config.messageCacheSize ∧
      ∃ n, StaysSince (HasMessage id) config pre n ∧
        ∀ id', HasMessage id' (run config pre) → ridOf id' = message.rid → id' ≠ id →
          ∃ n', StaysSince (HasMessage id') config pre n' ∧ n < n' := by
  have hempty : ∀ k, ¬HasMessage k (fromConfig config) := by
    intro k hk
    simp [HasMessage, fromConfig] at hk
  rw [run_snoc] at hgone
  obtain ⟨front, hring, hlen⟩ := lost_storing (by rwa [run_config]) hagree hstores hnew hid hgone
  have hmem : id ∈ (run config pre).roomMessageIds message.rid := by
    rw [hring]
    exact List.mem_append_right front (List.mem_singleton_self id)
  rw [run_config] at hlen
  refine ⟨(hagree.mem_iff.mp hmem).2, hlen, ?_⟩
  obtain ⟨n, hn⟩ := exists_staysSince (hempty id) hid
  refine ⟨n, hn, fun id' hid' hroom hne => ?_⟩
  obtain ⟨n', hn'⟩ := exists_staysSince (hempty id') hid'
  refine ⟨n', hn', ?_⟩
  -- every other message of the room is in front of the one pushed out
  have hpair := hord message.rid
  rw [hring, List.pairwise_append] at hpair
  have hfront : id' ∈ front := by
    have hmem' := hagree.mem_iff.mpr ⟨hid', hroom⟩
    rw [hring, List.mem_append, List.mem_singleton] at hmem'
    exact hmem'.resolve_right hne
  exact hpair.2.2 id' hfront id (List.mem_singleton_self id) n' n hn' hn

/-- What a removed room leaves. -/
theorem removes_room {roomId : RoomId} (hagree : (run config pre).RingsAgree ridOf)
    (hsound : (run config pre).NamesSound) :
    (∀ id message, ((run config pre).removeRoom roomId).2.messages.lookup id = some message →
      message.rid ≠ roomId) ∧
    ((run config pre).removeRoom roomId).2.roomMessages.lookup roomId = none ∧
    ((run config pre).removeRoom roomId).2.subscriptions.lookup roomId = none ∧
    ∀ name, ((run config pre).removeRoom roomId).2.roomIdByName name ≠ some roomId := by
  refine ⟨?_, ?_, ?_, ?_⟩
  · intro id message hmessage
    rw [lookup_removeRoom_messages] at hmessage
    split at hmessage
    · cases hmessage
    · next hring =>
      rintro rfl
      exact hring ((hagree.agree _ _).mpr ⟨message, hmessage, rfl⟩)
  · rw [lookup_removeRoom_roomMessages, if_pos rfl]
  · rw [(removeRoom_frame (c := run config pre) roomId).subscriptions_eq (by decide)]
    exact Finmap.lookup_erase _ _
  · intro name hname
    -- an entry for the room would name a room that is no longer cached
    have hsound' : ((run config pre).removeRoom roomId).2.NamesSound :=
      namesSound_move hsound (.drop roomId)
    obtain ⟨room, hroom, -⟩ := hsound' name roomId hname
    rw [((removeRoom_frame (c := run config pre) roomId).rooms_eq (by decide)).1] at hroom
    exact absurd hroom (by simp [dropRoom, Finmap.lookup_erase])

/-- **The rings and the messages agree**: in every state of a well addressed run each ring
lists exactly the cached messages of its room, and every operation of the run evicts, updates
and removes only what it should. -/
theorem rings_agree (hcap : 1 ≤ config.messageCacheSize)
    (haddr : ∀ op ∈ ops, op.AddressedBy ridOf) :
    (run config ops).RingsAgree ridOf ∧
      ∀ pre op, pre ++ [op] <+: ops → StepAgrees ridOf config pre op := by
  refine ⟨ringsAgree_run hcap haddr, fun pre op hpre => ?_⟩
  have haddr' : ∀ op ∈ pre, op.AddressedBy ridOf :=
    fun op hop => haddr op (hpre.subset (List.mem_append_left _ hop))
  have hop : op.AddressedBy ridOf :=
    haddr op (hpre.subset (List.mem_append_right pre (List.mem_singleton_self op)))
  have hagree := ringsAgree_run hcap haddr'
  refine ⟨?_, ?_, ?_, ?_⟩
  · intro message hstores hnew id hid hgone
    exact evicts_oldest hcap hagree (ordered_run hcap haddr') hstores hnew hid hgone
  · intro message hstores hcached hkept
    rw [run_snoc] at hkept ⊢
    exact rings_of_storing_cached hstores hcached hkept
  · intro hclear roomId hroom
    rw [run_snoc, (apply_messages _ op).1, (apply_messages _ op).2]
    exact move_other hagree (messageMove_addressed hagree hop) (messageMove_ne_clear hclear)
      fun hmove => hroom (messageMove_room hagree hmove)
  · rintro roomId rfl
    rw [run_snoc]
    exact removes_room hagree (namesSound_run config pre)

end Run

/-! ### A run -/

/-- Every message of the run below but `n0` is of the room `r0`. -/
def overfillsRoom (id : MessageId) : RoomId := if id.text = "n0" then ⟨"r1"⟩ else ⟨"r0"⟩

/-- A message of its room. -/
def overfillsMessage (id : String) : Message := { id := ⟨id⟩, rid := overfillsRoom ⟨id⟩ }

/-- Three messages for a room of two, an update in between, and a room removed. -/
def overfills : List CacheOp :=
  [.updateMessage (overfillsMessage "m0"), .updateMessage (overfillsMessage "m1"),
    .mergeMessage (overfillsMessage "n0"), .replaceMessage (overfillsMessage "m0"),
    .updateMessage (overfillsMessage "m2"), .removeRoom ⟨"r1"⟩]

theorem rings_agree_overfills :
    (run { messageCacheSize := 2 } overfills).roomMessageIds ⟨"r0"⟩ = [⟨"m2"⟩, ⟨"m1"⟩] ∧
    (run { messageCacheSize := 2 } overfills).RingsAgree overfillsRoom ∧
    ∀ pre op, pre ++ [op] <+: overfills →
      StepAgrees overfillsRoom { messageCacheSize := 2 } pre op :=
  ⟨by decide +kernel, rings_agree (by decide)
    (by simp [overfills, CacheOp.AddressedBy, overfillsMessage])⟩

end RocketSocket
