import RocketSocket.Cache.Concurrent
import RocketSocket.Cache.Messages

/-!
# No message is left without a ring

A message is evicted through a ring that lists it, so a cached message that no ring lists
stays for the life of the process.  While calls interleave, an id may be in the map and in
no ring, but then some call is about to link it or to remove it.  The one access that can
break this is an unlink: it takes out of the ring whatever stands there under its id, also
what another call has stored and linked since the unlinking call removed the message.

## Main definitions

* `Access.Settles`, `Cache.Reachable` — how an id can still be evicted.
* `Cache.UnlinksGone` — an unlink does not take the last way to reach a cached message.

## Main results

* `reachable_when_idle` — if every unlink is of that kind, then whenever no call is in
  progress every cached message is in a ring.
* `not_reachable_when_idle` — otherwise a cached message can be in no ring.
-/

namespace RocketSocket

open Machine

/-- The access puts the message in a ring or takes it out of the map. -/
def Access.Settles (id : MessageId) : Access → Prop
  | .link _ id' | .takeMessage id' | .removeMessage id' => id' = id
  | _ => False

instance (id : MessageId) : DecidablePred (Access.Settles id)
  | .link _ id' | .takeMessage id' | .removeMessage id' => inferInstanceAs (Decidable (id' = id))
  | .upsertRoom .. | .takeRoom _ | .unnameRoom .. | .nameRoom .. | .upsertSubscription ..
  | .takeSubscription _ | .upsertMessage .. | .unlink .. | .dropRing _ | .takeRing _
  | .upsertUser .. | .takeUser _ | .removeUser _ | .unnameUser .. | .nameUser ..
  | .countUsers .. | .queueUser .. | .forgetUser _ | .writeCurrent _ | .readCurrent ..
  | .refreshCurrent .. => isFalse fun h => h

/-- What an unlink takes out of which ring. -/
def Access.unlinked : Access → Option (RoomId × MessageId)
  | .unlink roomId id => some (roomId, id)
  | _ => none

namespace Cache

variable {c c' : Cache} {l more : Multiset Access} {a : Access} {id : MessageId}

/-- A ring lists the message, or a pending access settles it. -/
def Reachable (c : Cache) (pending : Multiset Access) (id : MessageId) : Prop :=
  (∃ roomId, id ∈ c.roomMessageIds roomId) ∨ ∃ a ∈ pending, a.Settles id

/-- Every cached message is reachable. -/
def NoLeak (c : Cache) (pending : Multiset Access) : Prop :=
  ∀ id, (c.messages.lookup id).isSome → c.Reachable pending id

/-- An access leaves a message reachable if it keeps the rings that list it, or settles it
anew. -/
theorem Reachable.after (h : c.Reachable (a ::ₘ l) id)
    (hring : ∀ roomId, id ∈ c.roomMessageIds roomId → c'.Reachable (more + l) id)
    (hself : a.Settles id → c'.Reachable (more + l) id) : c'.Reachable (more + l) id := by
  rcases h with ⟨roomId, hroom⟩ | ⟨b, hb, hsettles⟩
  · exact hring roomId hroom
  · rcases Multiset.mem_cons.mp hb with rfl | hb
    · exact hself hsettles
    · exact .inr ⟨b, Multiset.mem_add.mpr (.inr hb), hsettles⟩

/-- An access that leaves the messages and the rings alone. -/
theorem NoLeak.frame (h : c.NoLeak (a ::ₘ l)) (hmessages : c'.messages = c.messages)
    (hrings : c'.roomMessages = c.roomMessages) (ha : ∀ id, ¬a.Settles id) :
    c'.NoLeak (more + l) := by
  intro id hid
  rw [hmessages] at hid
  refine (h id hid).after (fun roomId hroom => .inl ⟨roomId, ?_⟩) fun hself => absurd hself (ha id)
  rwa [roomMessageIds, hrings]

/-- Taking an id out of the map keeps the rest reachable, also where the access settled it. -/
theorem NoLeak.erase {gone : MessageId} (h : c.NoLeak (a ::ₘ l))
    (ha : ∀ id, a.Settles id → gone = id) :
    NoLeak { c with messages := c.messages.erase gone } (more + l) := by
  intro id hid
  have hne : id ≠ gone := by
    rintro rfl
    simp [Finmap.lookup_erase] at hid
  rw [Finmap.lookup_erase_ne hne] at hid
  exact (h id hid).after (fun roomId hroom => .inl ⟨roomId, hroom⟩)
    fun hself => absurd (ha id hself).symm hne

/-- What a ring holds once one ring is rewritten. -/
theorem roomMessageIds_insert {roomId other : RoomId} {ring : List MessageId} :
    roomMessageIds { c with roomMessages := c.roomMessages.insert roomId ring } other =
      if other = roomId then ring else c.roomMessageIds other := by
  unfold roomMessageIds
  rw [Finmap.lookup_insert_eq]
  split
  · rfl
  · rfl

/-! ### One lemma for each access to the messages or the rings -/

theorem noLeak_upsertMessage {message : Message} {mode : StoreMode}
    (h : c.NoLeak (.upsertMessage message mode ::ₘ l)) :
    (c.access (.upsertMessage message mode)).1.NoLeak
      ((c.access (.upsertMessage message mode)).2 + l) := by
  intro id hid
  -- the id was cached already, or it is the new one and its link is pending
  by_cases hcached : (c.messages.lookup id).isSome
  · exact (h id hcached).after (fun roomId hroom => .inl ⟨roomId, hroom⟩) (fun hself => hself.elim)
  · have hnew : id = message.id := by
      by_contra hne
      refine hcached ?_
      rwa [access, upsert, Finmap.lookup_insert_of_ne _ hne] at hid
    subst hnew
    have hnone : c.messages.lookup message.id = none := by simpa using hcached
    refine .inr ⟨.link message.rid message.id, Multiset.mem_add.mpr (.inl ?_), rfl⟩
    simp [access, upsert, hnone]

theorem noLeak_link {roomId : RoomId} {id : MessageId} (h : c.NoLeak (.link roomId id ::ₘ l)) :
    (c.access (.link roomId id)).1.NoLeak ((c.access (.link roomId id)).2 + l) := by
  -- what stood in the ring, and the new id, are in it now or their eviction is pending
  have hpushed : ∀ k ∈ c.pushed roomId id,
      (c.access (.link roomId id)).1.Reachable ((c.access (.link roomId id)).2 + l) k := by
    intro k hk
    rw [← List.take_append_drop c.config.messageCacheSize (c.pushed roomId id)] at hk
    rcases List.mem_append.mp hk with hkept | hevicted
    · refine .inl ⟨roomId, ?_⟩
      rw [access, roomMessageIds_insert, if_pos rfl]
      exact hkept
    · refine .inr ⟨.takeMessage k, Multiset.mem_add.mpr (.inl ?_), rfl⟩
      simp only [access, List.mem_map, List.mem_reverse, Multiset.mem_coe]
      exact ⟨k, hevicted, rfl⟩
  intro k hk
  refine (h k hk).after (fun other hother => ?_)
    fun hself => hpushed k (hself ▸ List.mem_cons_self ..)
  by_cases hroom : other = roomId
  · exact hpushed k (hroom ▸ List.mem_cons_of_mem _ hother)
  · refine .inl ⟨other, ?_⟩
    rw [access, roomMessageIds_insert, if_neg hroom]
    exact hother

theorem noLeak_dropRing {roomId : RoomId} (h : c.NoLeak (.dropRing roomId ::ₘ l)) :
    (c.access (.dropRing roomId)).1.NoLeak ((c.access (.dropRing roomId)).2 + l) := by
  intro id hid
  refine (h id hid).after (fun other hother => .inl ⟨other, ?_⟩) fun hself => hself.elim
  -- only an empty ring is dropped
  obtain ⟨ring, hring, hmem⟩ := mem_roomMessageIds.mp hother
  refine mem_roomMessageIds.mpr ⟨ring, ?_, hmem⟩
  rw [access, Finmap.lookup_removeIf, if_neg, hring]
  rintro ⟨rfl, hempty⟩
  rw [hring, Option.any_some, List.isEmpty_iff] at hempty
  exact absurd (hempty ▸ hmem) List.not_mem_nil

theorem noLeak_takeRing {roomId : RoomId} (h : c.NoLeak (.takeRing roomId ::ₘ l)) :
    (c.access (.takeRing roomId)).1.NoLeak ((c.access (.takeRing roomId)).2 + l) := by
  cases hlookup : c.roomMessages.lookup roomId with
  | none =>
    rw [access_takeRing_none hlookup]
    exact h.frame rfl rfl fun id hself => hself
  | some ring =>
    rw [access_takeRing_some hlookup]
    intro id hid
    refine (h id hid).after (fun other hother => ?_) fun hself => hself.elim
    obtain ⟨ring', hring, hmem⟩ := mem_roomMessageIds.mp hother
    by_cases hroom : other = roomId
    · -- the messages of the ring are about to be removed
      subst hroom
      obtain rfl : ring = ring' := Option.some.inj (hlookup.symm.trans hring)
      exact .inr ⟨.takeMessage id, Multiset.mem_add.mpr (.inl (by simpa using hmem)), rfl⟩
    · exact .inl ⟨other, mem_roomMessageIds.mpr
        ⟨ring', by rwa [Finmap.lookup_erase_ne hroom], hmem⟩⟩

/-- Unlinking leaves a message that is still cached reachable: the ring does not list it, or
another ring does too, or another access is about to settle it. -/
def UnlinkSafe (c : Cache) (pending : Multiset Access) (roomId : RoomId) (id : MessageId) :
    Prop :=
  (c.messages.lookup id).isSome → id ∈ c.roomMessageIds roomId →
    (∃ other ∈ c.roomMessages.keys, other ≠ roomId ∧ id ∈ c.roomMessageIds other) ∨
      ∃ a ∈ pending, a.Settles id

instance (c : Cache) (pending : Multiset Access) (roomId : RoomId) (id : MessageId) :
    Decidable (c.UnlinkSafe pending roomId id) :=
  have : Decidable (∃ a ∈ pending, a.Settles id) := Multiset.decidableExistsMultiset
  inferInstanceAs (Decidable (_ → _ → _ ∨ _))

/-- If the access is an unlink, it is a safe one. -/
def UnlinksGone (m : Made Cache Access) : Prop :=
  ∀ unlinked ∈ m.access.unlinked, m.before.UnlinkSafe m.pending unlinked.1 unlinked.2

instance (m : Made Cache Access) : Decidable (UnlinksGone m) :=
  inferInstanceAs (Decidable (∀ unlinked ∈ m.access.unlinked, _))

theorem noLeak_unlink {roomId : RoomId} {id : MessageId} (h : c.NoLeak (.unlink roomId id ::ₘ l))
    (hgone : UnlinksGone ⟨c, .unlink roomId id, l⟩) :
    (c.access (.unlink roomId id)).1.NoLeak ((c.access (.unlink roomId id)).2 + l) := by
  cases hlookup : c.roomMessages.lookup roomId with
  | none =>
    rw [access_unlink_none hlookup]
    exact h.frame rfl rfl fun id hself => hself
  | some ring =>
    rw [access_unlink_some hlookup]
    intro k hk
    -- every other ring, and every other id, stays as it is
    have hkept : ∀ other, k ∈ c.roomMessageIds other → other ≠ roomId ∨ k ≠ id →
        k ∈ roomMessageIds { c with
          roomMessages := c.roomMessages.insert roomId (ring.filter (· ≠ id)) } other := by
      intro other hother hne
      rw [roomMessageIds_insert]
      split
      · next hroom =>
        obtain ⟨ring', hring, hmem⟩ := mem_roomMessageIds.mp hother
        obtain rfl : ring = ring' := Option.some.inj (hlookup.symm.trans (hroom ▸ hring))
        rw [List.mem_filter]
        exact ⟨hmem, by simpa using hne.resolve_left (not_not.mpr hroom)⟩
      · exact hother
    refine (h k hk).after (fun other hother => ?_) fun hself => hself.elim
    by_cases hne : other ≠ roomId ∨ k ≠ id
    · exact .inl ⟨other, hkept other hother hne⟩
    · -- this very id is taken out of this very ring: the condition says what is left
      obtain ⟨rfl, rfl⟩ : other = roomId ∧ k = id := by
        rw [not_or, not_not, not_not] at hne
        exact hne
      rcases hgone _ rfl hk hother with ⟨other', -, hne', hmem⟩ | ⟨b, hb, hsettles⟩
      · exact .inl ⟨other', hkept other' hmem (.inl hne')⟩
      · exact .inr ⟨b, Multiset.mem_add.mpr (.inr hb), hsettles⟩

/-- **An access keeps every cached message reachable**, unless it is an unlink that takes the
last way to reach one. -/
theorem noLeak_access (h : c.NoLeak (a ::ₘ l)) (hgone : UnlinksGone ⟨c, a, l⟩) :
    (c.access a).1.NoLeak ((c.access a).2 + l) := by
  cases a with
  | upsertMessage message mode => exact noLeak_upsertMessage h
  | takeMessage id => exact h.erase fun _ hself => hself
  | removeMessage id => exact h.erase fun _ hself => hself
  | link roomId id => exact noLeak_link h
  | unlink roomId id => exact noLeak_unlink h hgone
  | dropRing roomId => exact noLeak_dropRing h
  | takeRing roomId => exact noLeak_takeRing h
  | _ => exact h.frame rfl rfl fun _ hself => hself

/-- **No message leaks.**  However the calls interleave, if every unlink leaves what is still
cached reachable, then whenever no call is in progress every cached message is in a ring. -/
theorem reachable_when_idle {config : CacheConfig} {h : List (Made Cache Access)}
    {p : Pool Cache Access} (hrun : Run concurrent ⟨fromConfig config, []⟩ h p)
    (hgone : ∀ m ∈ h, UnlinksGone m) (hidle : p.Idle) {id : MessageId}
    (hid : (p.shared.messages.lookup id).isSome) :
    ∃ roomId, id ∈ p.shared.roomMessageIds roomId := by
  have hleak : p.shared.NoLeak p.pending := by
    refine Pool.invariant (I := NoLeak) (M := UnlinksGone) ?_ ?_ ?_ hrun hgone
    · intro id hid
      simp [fromConfig] at hid
    · intro c l op call hI _ id hid
      rcases hI id hid with hring | ⟨b, hb, hsettles⟩
      · exact .inl hring
      · exact .inr ⟨b, Multiset.mem_add.mpr (.inr hb), hsettles⟩
    · exact fun c a l => noLeak_access
  rcases hleak id hid with hring | ⟨b, hb, -⟩
  · exact hring
  · rw [Pool.pending_of_idle hidle] at hb
    exact absurd hb (Multiset.notMem_zero b)

/-! ### Runs -/

/-- A message of the room `r`. -/
def hello : Message := { id := ⟨"hello"⟩, rid := ⟨"r"⟩ }

/-- Another message of that room. -/
def bye : Message := { id := ⟨"bye"⟩, rid := ⟨"r"⟩ }

/-- One call removes a message while another stores a different one in the same ring. -/
def removesApart : List (PoolInput CacheOp) :=
  [.call (.updateMessage hello), .step 0, .step 0, .call (.removeMessage hello.id),
    .call (.updateMessage bye), .step 1, .step 2, .step 1, .step 2, .step 1]

theorem removesApart_enabled :
    (execute concurrent ⟨fromConfig {}, []⟩ removesApart).isSome := by
  decide +kernel

theorem reachable_removesApart : ∃ (h : List (Made Cache Access)) (p : Pool Cache Access),
    Run concurrent ⟨fromConfig {}, []⟩ h p ∧ (∀ m ∈ h, UnlinksGone m) ∧ p.Idle ∧
      (p.shared.messages.lookup bye.id).isSome ∧
      ∃ roomId, bye.id ∈ p.shared.roomMessageIds roomId := by
  have hrun := run_execute removesApart removesApart_enabled
  have hgone : ∀ m ∈ ((execute concurrent ⟨fromConfig {}, []⟩ removesApart).get
      removesApart_enabled).2, UnlinksGone m := by
    decide +kernel
  have hidle : ((execute concurrent ⟨fromConfig {}, []⟩ removesApart).get
      removesApart_enabled).1.Idle := by
    decide +kernel
  have hcached : (((execute concurrent ⟨fromConfig {}, []⟩ removesApart).get
      removesApart_enabled).1.shared.messages.lookup bye.id).isSome := by
    decide +kernel
  exact ⟨_, _, hrun, hgone, hidle, hcached, reachable_when_idle hrun hgone hidle hcached⟩

/-- A message is removed from the map, stored and linked again by another call, and then
unlinked by the first. -/
def unlinksStored : List (PoolInput CacheOp) :=
  [.call (.updateMessage hello), .step 0, .step 0, .call (.removeMessage hello.id), .step 1,
    .call (.updateMessage hello), .step 2, .step 2, .step 1, .step 1]

theorem unlinksStored_enabled :
    (execute concurrent ⟨fromConfig {}, []⟩ unlinksStored).isSome := by
  decide +kernel

/-- **A message can leak**: cached, with no call in progress, and in no ring. -/
theorem not_reachable_when_idle : ¬∀ (config : CacheConfig) (h : List (Made Cache Access))
    (p : Pool Cache Access), Run concurrent ⟨fromConfig config, []⟩ h p → p.Idle →
      ∀ id, (p.shared.messages.lookup id).isSome →
        ∃ roomId, id ∈ p.shared.roomMessageIds roomId := by
  intro hall
  have hring := hall {} _ _ (run_execute unlinksStored unlinksStored_enabled)
    (by decide +kernel) hello.id (by decide +kernel)
  have hnone : ((execute concurrent ⟨fromConfig {}, []⟩ unlinksStored).get
      unlinksStored_enabled).1.shared.roomMessages.keys = ∅ := by
    decide +kernel
  obtain ⟨roomId, hmem⟩ := hring
  obtain ⟨ring, hlookup, -⟩ := mem_roomMessageIds.mp hmem
  have hkey := Finmap.mem_keys_of_lookup hlookup
  rw [hnone] at hkey
  exact absurd hkey (Finset.notMem_empty roomId)

end Cache
end RocketSocket
