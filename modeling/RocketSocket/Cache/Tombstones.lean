import RocketSocket.Cache.Gating
import RocketSocket.Cache.Rings

/-!
# Tombstones

A deletion that keeps the document leaves a tombstone, which the cache stores in place of the
body or drops the body for, whatever mode it is asked to store in.  Nothing an operation does
depends on more of a cached message than its room; so two runs that differ in the contents of
one message differ nowhere else, and a tombstone of that message makes them equal.

## Main definitions

* `MessageSend` — the operations that store a message.
* `Cache.SameBut` — two caches agree on the messages, but for the contents of some.

## Main results

* `sameBut_apply` — one operation keeps the agreement.
* `agrees_tombstone` — a tombstone of a message ends its difference.
* `tombstone_purges` — a tombstone purges the old body.
-/

namespace RocketSocket

open Machine

/-- An operation that stores a message. -/
inductive MessageSend where
  | update
  | merge
  | replace
  deriving DecidableEq, Repr

namespace MessageSend

/-- The operation on a message. -/
def op : MessageSend → Message → CacheOp
  | update => .updateMessage
  | merge => .mergeMessage
  | replace => .replaceMessage

/-- The mode it stores in. -/
def mode : MessageSend → StoreMode
  | update => .replace
  | merge => .merge
  | replace => .replace

end MessageSend

namespace Cache

variable {c c' : Cache} {ids : Set MessageId} {id k : MessageId} {message m m' d : Message}
  {mode : StoreMode} {config : CacheConfig} {ops : List CacheOp}

theorem messageMove_send (send : MessageSend) (message : Message) :
    c.messageMove (send.op message) = c.storeMove message send.mode := by
  cases send <;> rfl

/-- Two caches agree on the rings and on the messages, but of some messages, which are cached
in both or in neither, only the rooms are the same. -/
structure SameBut (ids : Set MessageId) (c c' : Cache) : Prop where
  config : c'.config = c.config
  rings : c'.roomMessages = c.roomMessages
  same : ∀ k ∉ ids, c'.messages.lookup k = c.messages.lookup k
  alike : ∀ k, (c'.messages.lookup k).map Message.rid = (c.messages.lookup k).map Message.rid

theorem SameBut.refl (ids : Set MessageId) (c : Cache) : SameBut ids c c :=
  ⟨rfl, rfl, fun _ _ => rfl, fun _ => rfl⟩

theorem SameBut.isSome_eq (h : SameBut ids c c') (k : MessageId) :
    (c'.messages.lookup k).isSome = (c.messages.lookup k).isSome := by
  have halike := congrArg Option.isSome (h.alike k)
  rwa [Option.isSome_map, Option.isSome_map] at halike

theorem SameBut.roomMessageIds_eq (h : SameBut ids c c') (roomId : RoomId) :
    c'.roomMessageIds roomId = c.roomMessageIds roomId := by
  rw [roomMessageIds, roomMessageIds, h.rings]

/-- The operations move two such caches alike. -/
theorem SameBut.messageMove_eq (h : SameBut ids c c') (op : CacheOp) :
    c'.messageMove op = c.messageMove op := by
  have hstore : ∀ message mode, c'.storeMove message mode = c.storeMove message mode := by
    intro message mode
    rw [storeMove, storeMove, wants, wants, h.config]
  cases op with
  | updateMessage message => exact hstore message .replace
  | mergeMessage message => exact hstore message .merge
  | replaceMessage message => exact hstore message .replace
  | removeMessage id =>
    show (c'.messages.lookup id).elim _ _ = (c.messages.lookup id).elim _ _
    have halike := h.alike id
    cases hm : c.messages.lookup id with
    | none =>
      rw [hm, Option.map_none, Option.map_eq_none_iff] at halike
      rw [halike]
    | some message =>
      rw [hm, Option.map_some, Option.map_eq_some_iff] at halike
      obtain ⟨message', hm', hrid⟩ := halike
      rw [hm', Option.elim_some, Option.elim_some, hrid]
  | _ => rfl

/-- Storing leaves two such caches agreeing, also where the messages stored differ in their
contents. -/
theorem SameBut.insert (h : SameBut ids c c') (hid : m'.id = m.id) (hrid : m'.rid = m.rid)
    (hsame : m.id ∉ ids → m' = m) :
    SameBut ids (c.insertMessage m mode).2 (c'.insertMessage m' mode).2 := by
  have hsome := h.isSome_eq m.id
  cases hm : c.messages.lookup m.id with
  | some cached =>
    -- It is cached on both sides, and written over in both.
    rw [hm, Option.isSome_some, Option.isSome_iff_exists] at hsome
    obtain ⟨cached', hm'⟩ := hsome
    have hm'' : c'.messages.lookup m'.id = some cached' := by rw [hid, hm']
    rw [insertMessage_cached hm, insertMessage_cached hm'', hid]
    refine ⟨h.config, h.rings, fun k hk => ?_, fun k => ?_⟩
    · simp only [Finmap.lookup_insert_eq]
      by_cases hkey : k = m.id
      · subst hkey
        rw [h.same m.id hk, hm] at hm'
        rw [if_pos rfl, if_pos rfl, hsame hk, hm']
      · rw [if_neg hkey, if_neg hkey, h.same k hk]
    · simp only [Finmap.lookup_insert_eq]
      by_cases hkey : k = m.id
      · rw [if_pos hkey, if_pos hkey, Option.map_some, Option.map_some,
          (stored_identity mode (some cached') m').2, (stored_identity mode (some cached) m).2,
          hrid]
      · rw [if_neg hkey, if_neg hkey, h.alike k]
  | none =>
    -- It is cached on neither side, and linked in both.
    rw [hm, Option.isSome_none, Option.isSome_eq_false_iff, Option.isNone_iff_eq_none] at hsome
    have hm' : c'.messages.lookup m'.id = none := by rw [hid, hsome]
    have hpushed : c'.pushed m'.rid m'.id = c.pushed m.rid m.id := by
      rw [pushed, pushed, hid, hrid, h.roomMessageIds_eq]
    rw [insertMessage_new hm, insertMessage_new hm', hpushed, h.config, hid, hrid, h.rings]
    refine ⟨rfl, rfl, fun k hk => ?_, fun k => ?_⟩
    · simp only [Finmap.lookup_eraseAll, Finmap.lookup_insert_eq]
      by_cases hkey : k = m.id
      · subst hkey
        rw [if_pos rfl, if_pos rfl, hsame hk]
      · rw [if_neg hkey, if_neg hkey, h.same k hk]
    · simp only [Finmap.lookup_eraseAll, Finmap.lookup_insert_eq]
      split
      · rfl
      · by_cases hkey : k = m.id
        · rw [if_pos hkey, if_pos hkey, Option.map_some, Option.map_some, hrid]
        · rw [if_neg hkey, if_neg hkey, h.alike k]

/-- Removing leaves two such caches agreeing, and ends the difference in what is removed. -/
theorem SameBut.remove (h : SameBut ids c c') (roomId : RoomId) (id : MessageId) :
    SameBut (ids \ {id}) (c.removeMessageIn roomId id).2 (c'.removeMessageIn roomId id).2 := by
  have hrings : ∀ r, (c'.removeMessageIn roomId id).2.roomMessages.lookup r =
      (c.removeMessageIn roomId id).2.roomMessages.lookup r := by
    intro r
    rw [lookup_removeMessageIn, lookup_removeMessageIn, h.rings]
  refine ⟨?_, Finmap.ext_lookup hrings, fun k hk => ?_, fun k => ?_⟩
  · exact ((c'.apply_config (.removeMessageIn roomId id)).trans h.config).trans
      (c.apply_config (.removeMessageIn roomId id)).symm
  · rw [removeMessageIn_messages, removeMessageIn_messages, Finmap.lookup_erase_eq,
      Finmap.lookup_erase_eq]
    by_cases hkey : k = id
    · rw [if_pos hkey, if_pos hkey]
    · rw [if_neg hkey, if_neg hkey]
      exact h.same k fun hmem => hk ⟨hmem, hkey⟩
  · rw [removeMessageIn_messages, removeMessageIn_messages, Finmap.lookup_erase_eq,
      Finmap.lookup_erase_eq]
    by_cases hkey : k = id
    · rw [if_pos hkey, if_pos hkey]
    · rw [if_neg hkey, if_neg hkey, h.alike k]

theorem SameBut.dropRoom (h : SameBut ids c c') (roomId : RoomId) :
    SameBut ids (c.removeRoom roomId).2 (c'.removeRoom roomId).2 := by
  have hrings : ∀ r, (c'.removeRoom roomId).2.roomMessages.lookup r =
      (c.removeRoom roomId).2.roomMessages.lookup r := by
    intro r
    rw [lookup_removeRoom_roomMessages, lookup_removeRoom_roomMessages, h.rings]
  refine ⟨?_, Finmap.ext_lookup hrings, fun k hk => ?_, fun k => ?_⟩
  · exact ((c'.apply_config (.removeRoom roomId)).trans h.config).trans
      (c.apply_config (.removeRoom roomId)).symm
  · rw [lookup_removeRoom_messages, lookup_removeRoom_messages, h.roomMessageIds_eq,
      h.same k hk]
  · rw [lookup_removeRoom_messages, lookup_removeRoom_messages, h.roomMessageIds_eq]
    split
    · rfl
    · exact h.alike k

/-- Operations keep the agreement if their moves do. -/
theorem SameBut.of_move {op op' : CacheOp} (hconfig : c'.config = c.config)
    (hmove : SameBut ids (c.moveMessages (c.messageMove op))
      (c'.moveMessages (c'.messageMove op'))) : SameBut ids (c.apply op) (c'.apply op') := by
  obtain ⟨hmessages, hrings⟩ := c.apply_messages op
  obtain ⟨hmessages', hrings'⟩ := c'.apply_messages op'
  refine ⟨?_, by rw [hrings, hrings', hmove.rings], fun k hk => ?_, fun k => ?_⟩
  · rw [apply_config, apply_config, hconfig]
  · rw [hmessages, hmessages', hmove.same k hk]
  · rw [hmessages, hmessages', hmove.alike k]

/-- **One operation keeps the agreement.** -/
theorem sameBut_apply (h : SameBut ids c c') (op : CacheOp) :
    SameBut ids (c.apply op) (c'.apply op) := by
  apply SameBut.of_move h.config
  rw [h.messageMove_eq]
  cases c.messageMove op with
  | keep => exact h
  | insert message mode => exact h.insert rfl rfl fun _ => rfl
  | remove roomId id =>
    obtain ⟨hconfig, hrings, hsame, halike⟩ := h.remove roomId id
    exact ⟨hconfig, hrings, fun k hk => hsame k fun hmem => hk hmem.1, halike⟩
  | dropRoom roomId => exact h.dropRoom roomId
  | clear =>
    show SameBut ids (fromConfig c.config) (fromConfig c'.config)
    rw [h.config]
    exact .refl ids _

/-- The agreement over a sequence of operations. -/
theorem sameBut_foldl (h : SameBut ids c c') (ops : List CacheOp) :
    SameBut ids (ops.foldl apply c) (ops.foldl apply c') := by
  induction ops generalizing c c' with
  | nil => exact h
  | cons op ops ih => exact ih (sameBut_apply h op)

/-! ### The message and its tombstone -/

/-- The move of sending a message that is no tombstone. -/
theorem storeMove_live (hlive : message.isDeletedTombstone = false) :
    c.storeMove message mode =
      if c.config.keeps .message then .insert message mode else .keep := by
  unfold storeMove
  rw [storeMessage_test, hlive]
  cases c.config.keeps .message with
  | false => rfl
  | true => rfl

/-- The move of sending a tombstone: the mode does not matter. -/
theorem storeMove_tombstone (hd : d.isDeletedTombstone = true)
    (hkeeps : c.config.keeps .message = true) : c.storeMove d mode =
      match c.config.tombstonePolicy with
      | .evict => .remove d.rid d.id
      | .replace => .insert d .replace := by
  unfold storeMove
  rw [storeMessage_test, hd, hkeeps]
  rfl

/-- Two caches that were the same, after messages that differ in their contents. -/
theorem sameBut_send (send : MessageSend) (hid : m'.id = m.id) (hrid : m'.rid = m.rid)
    (hlive : m.isDeletedTombstone = false) (hlive' : m'.isDeletedTombstone = false) :
    SameBut {m.id} (c.apply (send.op m)) (c.apply (send.op m')) := by
  apply SameBut.of_move rfl
  rw [messageMove_send, messageMove_send, storeMove_live hlive, storeMove_live hlive']
  split
  · exact (SameBut.refl {m.id} c).insert hid hrid fun hnot => absurd rfl hnot
  · exact .refl _ c

/-- What is cached of a message that was stored over whatever there was. -/
theorem lookup_insertMessage_replace :
    (c.insertMessage d .replace).2.messages.lookup d.id =
      if (c.messages.lookup d.id).isNone ∧
        d.id ∈ (c.pushed d.rid d.id).drop c.config.messageCacheSize then none else some d := by
  cases hcached : c.messages.lookup d.id with
  | some cached =>
    rw [insertMessage_cached hcached, Finmap.lookup_insert]
    rfl
  | none =>
    rw [insertMessage_new hcached]
    simp [Finmap.lookup_eraseAll]

/-- **A tombstone of a message ends its difference.** -/
theorem agrees_tombstone (send : MessageSend) (h : SameBut {d.id} c c')
    (hd : d.isDeletedTombstone = true)
    (hnone : c.config.keeps .message = false → c'.messages.lookup d.id = c.messages.lookup d.id) :
    SameBut ∅ (c.apply (send.op d)) (c'.apply (send.op d)) := by
  -- what agrees but for the one message, and on that too, agrees
  have hempty : ∀ {c c' : Cache}, SameBut {d.id} c c' →
      c'.messages.lookup d.id = c.messages.lookup d.id → SameBut ∅ c c' := by
    intro c c' h hlookup
    refine ⟨h.config, h.rings, fun k _ => ?_, h.alike⟩
    by_cases hkey : k = d.id
    · rw [hkey, hlookup]
    · exact h.same k hkey
  apply SameBut.of_move h.config
  rw [h.messageMove_eq, messageMove_send]
  cases hkeeps : c.config.keeps .message with
  | false =>
    have hkeep : c.storeMove d send.mode = .keep := by
      unfold storeMove
      rw [storeMessage_test, hkeeps]
      rfl
    rw [hkeep]
    exact hempty h (hnone hkeeps)
  | true =>
    rw [storeMove_tombstone hd hkeeps]
    cases c.config.tombstonePolicy with
    | evict =>
      have hremoved := h.remove d.rid d.id
      rwa [Set.sdiff_self] at hremoved
    | replace =>
      refine hempty (h.insert rfl rfl fun _ => rfl) ?_
      show (c'.insertMessage d .replace).2.messages.lookup d.id =
        (c.insertMessage d .replace).2.messages.lookup d.id
      rw [lookup_insertMessage_replace, lookup_insertMessage_replace, pushed, pushed, h.config,
        h.roomMessageIds_eq, ← Option.not_isSome, ← Option.not_isSome, h.isSome_eq]

/-- Where messages are not kept, none is cached. -/
theorem lookup_run_of_not_keeps (hkeeps : config.keeps .message = false) (id : MessageId) :
    (run config ops).messages.lookup id = none := by
  have hnone : (run config ops).messages = ∅ := (holdsNone_run hkeeps ops).1
  rw [hnone, Finmap.lookup_empty]

/-- What is cached right after the tombstone of a cached message. -/
theorem lookup_tombstone {cached : Message} (send : MessageSend)
    (hd : d.isDeletedTombstone = true)
    (hcached : (run config ops).messages.lookup d.id = some cached) :
    (run config (ops ++ [send.op d])).messages.lookup d.id =
      match config.tombstonePolicy with
      | .replace => some d
      | .evict => none := by
  have hkeeps : config.keeps .message = true := by
    by_contra hnot
    rw [lookup_run_of_not_keeps (by simpa using hnot)] at hcached
    cases hcached
  have hconfig : (run config ops).config = config := run_config
  rw [run_snoc, (apply_messages _ _).1, messageMove_send,
    storeMove_tombstone hd (by rw [hconfig, hkeeps]), hconfig]
  cases config.tombstonePolicy with
  | evict =>
    show ((run config ops).removeMessageIn d.rid d.id).2.messages.lookup d.id = none
    rw [removeMessageIn_messages, Finmap.lookup_erase]
  | replace =>
    show ((run config ops).insertMessage d .replace).2.messages.lookup d.id = some d
    rw [lookup_insertMessage_replace, hcached]
    rfl

/-- **A tombstone purges the old body.**  Right after it, what is cached of a message that was
cached is the tombstone itself, or nothing, as the policy says; and from then on, runs that
differ in the contents of an earlier live message of the same id and room agree on what is
cached of it. -/
theorem tombstone_purges (config : CacheConfig) {d : Message} (send : MessageSend)
    (hd : d.isDeletedTombstone = true) :
    (∀ ops cached, (run config ops).messages.lookup d.id = some cached →
      (run config (ops ++ [send.op d])).messages.lookup d.id =
        match config.tombstonePolicy with
        | .replace => some d
        | .evict => none) ∧
    ∀ (before between after : List CacheOp) (sent : MessageSend) (m m' : Message),
      m.id = d.id → m'.id = d.id → m'.rid = m.rid → m.isDeletedTombstone = false →
      m'.isDeletedTombstone = false →
      (run config (before ++ sent.op m :: between ++ send.op d :: after)).messages.lookup d.id =
        (run config (before ++ sent.op m' :: between ++ send.op d :: after)).messages.lookup
          d.id := by
  refine ⟨fun ops cached hcached => lookup_tombstone send hd hcached, ?_⟩
  intro before between after sent m m' hid hid' hrid hlive hlive'
  have hsplit : ∀ message, run config (before ++ sent.op message :: between ++ send.op d :: after) =
      after.foldl apply ((run config (before ++ sent.op message :: between)).apply
        (send.op d)) := by
    intro message
    simp [run]
  -- Up to the tombstone the runs differ in the contents of this one message,
  have hbefore : SameBut {d.id} (run config (before ++ sent.op m :: between))
      (run config (before ++ sent.op m' :: between)) := by
    have hsent := sameBut_send (c := run config before) sent (hid'.trans hid.symm) hrid hlive hlive'
    rw [hid] at hsent
    simpa [run] using sameBut_foldl hsent between
  -- and the tombstone takes these away.
  have hafter := sameBut_foldl (agrees_tombstone send hbefore hd fun hkeeps => by
    rw [run_config] at hkeeps
    rw [lookup_run_of_not_keeps hkeeps, lookup_run_of_not_keeps hkeeps]) after
  rw [hsplit, hsplit]
  exact (hafter.same d.id (Set.notMem_empty _)).symm

/-- A message of the room `r`, and its tombstone. -/
def secret : Message := { id := ⟨"m"⟩, rid := ⟨"r"⟩ }

/-- The tombstone of that message. -/
def secretTombstone : Message :=
  { id := ⟨"m"⟩, rid := ⟨"r"⟩, t := some .rm, editedAt := some { value := .int 9 } }

theorem tombstone_purges_secret :
    (run {} [.updateMessage secret, .mergeMessage secretTombstone]).messages.lookup ⟨"m"⟩ =
        some secretTombstone ∧
    (run {} [.updateMessage secret, .mergeMessage secretTombstone]).messages.lookup ⟨"m"⟩ =
      (run {} [.updateMessage { secret with t := some (.other "au") },
        .mergeMessage secretTombstone]).messages.lookup ⟨"m"⟩ := by
  have hpurges := tombstone_purges {} (d := secretTombstone) .merge rfl
  constructor
  · exact hpurges.1 [.updateMessage secret] secret rfl
  · exact hpurges.2 [] [] [] .update secret { secret with t := some (.other "au") } rfl rfl rfl
      rfl rfl

end Cache

end RocketSocket
