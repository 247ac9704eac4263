import Mathlib.Data.String.Basic
import RocketSocket.Lib.History
import RocketSocket.Lib.Roster
import RocketSocket.Lib.Table
import RocketSocket.Realtime.Subscription

/-!
# The registry and its reverse index

The registry keeps its entries twice, by id and, as lists of ids, by key.  What it stands for
is one roster: the entries in the order they were first inserted, an entry that is moved to a
new id keeping its place.  Every operation on the registry is an operation on the roster.

## Main definitions

* `RegistryOp`, `Registry.step` — the operations, ids being fresh where they have to be.
* `RegistryOp.onRoster`, `roster` — what the operations do to the roster.
* `Registry.Refines` — the registry stands for a roster.
* `Registry.Indexed` — the two maps agree.

## Main results

* `Registry.refines_apply` — every operation keeps the registry standing for its roster.
* `Registry.indexed` — two maps that stand for a roster agree.
* `registry_representation` — all of it, after every run.
-/

namespace RocketSocket

open Machine

/-- An operation on the registry. -/
inductive RegistryOp where
  | insert (id : String) (key : StreamKey) (params : List Value)
  | markReady (id : String)
  | remove (id : String)
  | connectionLost
  | markReplayed
  | rekey (old new : String)

/-- The id an operation brings in. -/
def RegistryOp.newId : RegistryOp → Option String
  | .insert id _ _ => some id
  | .rekey _ new => some new
  | _ => none

namespace Registry

/-- The registry an operation leaves. -/
def apply (r : Registry) : RegistryOp → Registry
  | .insert id key params => r.insert id key params
  | .markReady id => (r.markReady id).1
  | .remove id => (r.remove id).1
  | .connectionLost => r.connectionLost
  | .markReplayed => r.markReplayed
  | .rekey old new => (r.rekey old new).1

/-- An operation whose new id, if it has one, is not present. -/
def step (r : Registry) (op : RegistryOp) : Option (Registry × List RegistryOp) :=
  if op.newId.all (· ∉ r.ids) then some (r.apply op, [op]) else none

end Registry

/-- The entry in another state. -/
def Entry.withState (state : SubState) (entry : Entry) : Entry := { entry with state := state }

/-- What an operation does to the entries in the order they were first inserted. -/
def RegistryOp.onRoster : RegistryOp → Roster String Entry → Roster String Entry
  | .insert id key params => Roster.add id ⟨key, params, .pending⟩
  | .markReady id => Roster.rename id id (Entry.withState .ready)
  | .remove id => Roster.drop id
  | .connectionLost => Roster.update (Entry.withState .inactive)
  | .markReplayed => Roster.update (Entry.withState .pending)
  | .rekey old new => Roster.rename old new (Entry.withState .pending)

/-- The entries a sequence of operations leaves, in the order they were first inserted. -/
def roster (ops : List RegistryOp) : Roster String Entry :=
  ops.foldl (fun l op => op.onRoster l) []

@[simp] theorem roster_snoc {ops : List RegistryOp} {op : RegistryOp} :
    roster (ops ++ [op]) = op.onRoster (roster ops) := by
  simp [roster]

/-- The ids a roster lists for a key. -/
def Routed (l : Roster String Entry) (key : StreamKey) : List String :=
  l.named fun entry => entry.key = key

namespace Registry

/-- The registry stands for the roster. -/
structure Refines (r : Registry) (l : Roster String Entry) : Prop where
  nodup : l.names.Nodup
  byId : ∀ id entry, r.byId.lookup id = some entry ↔ (id, entry) ∈ l
  byKey : ∀ key, r.byKey.lookup key =
    if Routed l key = [] then none else some (Routed l key)

variable {r : Registry} {l : Roster String Entry} {id old new : String} {key : StreamKey}
  {entry : Entry} {params : List Value}

/-! ### The roster a registry stands for -/

theorem Refines.ids (h : r.Refines l) : id ∈ r.ids ↔ id ∈ l.names := by
  rw [Registry.ids, ← AList.mem_keys, ← AList.lookup_isSome, Option.isSome_iff_exists,
    Roster.names, List.mem_map]
  constructor
  · rintro ⟨entry, hentry⟩
    exact ⟨(id, entry), (h.byId id entry).1 hentry, rfl⟩
  · rintro ⟨⟨id, entry⟩, hmem, rfl⟩
    exact ⟨entry, (h.byId id entry).2 hmem⟩

/-- The index lists the ids of a key in the order of the roster. -/
theorem Refines.subscribers (h : r.Refines l) : r.subscribers key = Routed l key := by
  rw [Registry.subscribers, h.byKey]
  split
  · next hnil => rw [hnil]; rfl
  · rfl

theorem refines_new : Registry.new.Refines [] where
  nodup := List.nodup_nil
  byId id entry := by simp [Registry.new]
  byKey key := by simp [Registry.new, Routed, Roster.named, Roster.names]

theorem mem_routed : id ∈ Routed l key ↔ ∃ entry, (id, entry) ∈ l ∧ entry.key = key := by
  simp [Routed, Roster.mem_named]

/-- An id is listed for the key of its entry and for no other. -/
theorem Refines.mem_routed_iff (h : r.Refines l) (hmem : (id, entry) ∈ l) :
    id ∈ Routed l key ↔ entry.key = key := by
  rw [mem_routed]
  constructor
  · rintro ⟨entry', hmem', rfl⟩
    rw [Roster.eq_of_mem h.nodup hmem hmem']
  · rintro rfl
    exact ⟨entry, hmem, rfl⟩

/-- An id that is listed for a key makes the key's list the index holds. -/
theorem Refines.lookup_byKey (h : r.Refines l) (hmem : (id, entry) ∈ l) :
    r.byKey.lookup entry.key = some (Routed l entry.key) := by
  rw [h.byKey, if_neg]
  exact List.ne_nil_of_mem ((h.mem_routed_iff hmem).2 rfl)

theorem refines_insert (h : r.Refines l) (hid : id ∉ r.ids) :
    (r.insert id key params).Refines (l.add id ⟨key, params, .pending⟩) := by
  have hid' : id ∉ l.names := fun hmem => hid (h.ids.2 hmem)
  refine ⟨?_, fun id' entry => ?_, fun key' => ?_⟩
  · rw [Roster.names_add]
    simpa using List.Nodup.concat hid' h.nodup
  · show (r.byId.insert id _).lookup id' = _ ↔ _
    rw [AList.lookup_insert_eq, Roster.add, List.mem_append, List.mem_singleton, Prod.mk.injEq]
    split
    · next heq =>
      subst heq
      have hnot : (id', entry) ∉ l := fun hmem => hid' (List.mem_map_of_mem hmem)
      simp [hnot, eq_comm]
    · next hne => simp [hne, h.byId]
  · have hrouted : Routed (l.add id ⟨key, params, .pending⟩) key' =
        Routed l key' ++ if key = key' then [id] else [] := by
      simp [Routed, Roster.named_add]
    show (r.byKey.insert key (r.subscribers key ++ [id])).lookup key' = _
    rw [AList.lookup_insert_eq, hrouted]
    by_cases heq : key' = key
    · subst heq
      simp [h.subscribers]
    · rw [if_neg heq, if_neg (Ne.symm heq), List.append_nil, h.byKey]

theorem refines_remove (h : r.Refines l) : (r.remove id).1.Refines (l.drop id) := by
  unfold remove
  cases hlookup : r.byId.lookup id with
  | none =>
    have hid : id ∉ l.names := fun hmem => AList.lookup_eq_none.1 hlookup (h.ids.2 hmem)
    rw [Roster.drop_of_notMem hid]
    exact h
  | some entry =>
    have hmem := (h.byId id entry).1 hlookup
    have hrouted : ∀ key, Routed (l.drop id) key = (Routed l key).filter (· ≠ id) :=
      fun _ => Roster.named_drop
    simp only [h.lookup_byKey hmem]
    refine ⟨?_, fun id' entry' => ?_, fun key' => ?_⟩
    · rw [Roster.names_drop]
      exact h.nodup.filter _
    · show (r.byId.erase id).lookup id' = _ ↔ _
      rw [AList.lookup_erase_eq, Roster.mem_drop]
      split
      · next heq => simp [heq]
      · next hne => simp [hne, h.byId]
    · show (if _ then r.byKey.erase entry.key else r.byKey.insert entry.key _).lookup key' = _
      rw [← hrouted]
      by_cases heq : key' = entry.key
      · subst heq
        split
        · next hnil => simp [List.isEmpty_iff.1 hnil]
        · next hcons => simp [List.isEmpty_iff.not.1 hcons]
      · -- the id is in no other list, which is as it was
        have hnot : id ∉ Routed l key' := fun hin => heq ((h.mem_routed_iff hmem).1 hin).symm
        have hkept : Routed (l.drop id) key' = Routed l key' := by
          rw [hrouted, List.filter_eq_self]
          intro id' hid'
          simp only [ne_eq, decide_eq_true_eq]
          rintro rfl
          exact hnot hid'
        rw [hkept, ← h.byKey]
        split
        · rw [AList.lookup_erase_eq, if_neg heq]
        · rw [AList.lookup_insert_eq, if_neg heq]

/-- An entry is put into another state, under another id in the place of the old. -/
theorem Refines.rename {r' : Registry} {state : SubState} (h : r.Refines l)
    (hmem : (old, entry) ∈ l) (hnew : new ∈ l.names → new = old)
    (hbyId : ∀ id, r'.byId.lookup id = if id = new then some (entry.withState state)
      else if id = old then none else r.byId.lookup id)
    (hbyKey : ∀ key, r'.byKey.lookup key =
      (r.byKey.lookup key).map (List.map fun id => if id = old then new else id)) :
    r'.Refines (l.rename old new (Entry.withState state)) := by
  refine ⟨Roster.nodup_rename h.nodup hnew, fun id entry' => ?_, fun key => ?_⟩
  · -- The new id, the old one, and any other.
    rw [hbyId, Roster.mem_rename]
    by_cases hid : id = new
    · subst hid
      simp only [if_true, Option.some.injEq, Prod.mk.injEq, true_and]
      constructor
      · rintro rfl
        exact .inl ⟨entry, hmem, rfl⟩
      · rintro (⟨w, hw, rfl⟩ | ⟨hne, hmem'⟩)
        · rw [Roster.eq_of_mem h.nodup hmem hw]
        · exact absurd (hnew (List.mem_map_of_mem hmem')) hne
    · rw [if_neg hid]
      by_cases hold : id = old
      · rw [if_pos hold]
        constructor
        · intro hnone
          cases hnone
        · rintro (⟨w, -, heq⟩ | ⟨hne, -⟩)
          · exact absurd (Prod.mk.inj heq).1 hid
          · exact absurd hold hne
      · simp [hid, hold, h.byId]
  · -- The key's list has the new id in the place of the old.
    have hrouted : Routed (l.rename old new (Entry.withState state)) key =
        (Routed l key).map fun id => if id = old then new else id :=
      Roster.named_rename fun _ => rfl
    rw [hbyKey, hrouted, h.byKey]
    by_cases hnil : Routed l key = []
    · simp [hnil]
    · simp [hnil]

theorem refines_markReady (h : r.Refines l) :
    (r.markReady id).1.Refines (l.rename id id (Entry.withState .ready)) := by
  unfold markReady
  cases hlookup : r.byId.lookup id with
  | none =>
    have hid : id ∉ l.names := fun hmem => AList.lookup_eq_none.1 hlookup (h.ids.2 hmem)
    rw [Roster.rename_of_notMem hid]
    exact h
  | some entry =>
    refine h.rename ((h.byId id entry).1 hlookup) (fun _ => rfl) (fun id' => ?_) (fun key => ?_)
    · show (r.byId.insert id (entry.withState .ready)).lookup id' = _
      rw [AList.lookup_insert_eq]
      split
      · rfl
      · rfl
    · have hsame : (fun id' => if id' = id then id else id') = fun id' => id' := by
        funext id'
        split
        · next heq => rw [heq]
        · rfl
      rw [hsame]
      simp

theorem refines_rekey (h : r.Refines l) (hnew : new ∉ r.ids) :
    (r.rekey old new).1.Refines (l.rename old new (Entry.withState .pending)) := by
  unfold rekey
  cases hlookup : r.byId.lookup old with
  | none =>
    have hid : old ∉ l.names := fun hmem => AList.lookup_eq_none.1 hlookup (h.ids.2 hmem)
    rw [Roster.rename_of_notMem hid]
    exact h
  | some entry =>
    have hmem := (h.byId old entry).1 hlookup
    refine h.rename hmem (fun hin => absurd (h.ids.2 hin) hnew) (fun id => ?_) (fun key => ?_)
    · show ((r.byId.erase old).insert new (entry.withState .pending)).lookup id = _
      rw [AList.lookup_insert_eq, AList.lookup_erase_eq]
    · simp only [h.lookup_byKey hmem]
      rw [AList.lookup_insert_eq]
      split
      · next heq =>
        rw [heq, h.lookup_byKey hmem]
        rfl
      · next hne =>
        -- the old id is in no other list, which is as it was
        have hnot : old ∉ Routed l key := fun hin => hne ((h.mem_routed_iff hmem).1 hin).symm
        have hkept : ((Routed l key).map fun id => if id = old then new else id) =
            Routed l key := by
          refine (List.map_congr_left fun id hid => if_neg ?_).trans (List.map_id' _)
          rintro rfl
          exact hnot hid
        rw [h.byKey]
        split
        · rfl
        · rw [Option.map_some, hkept]

/-- A change to every entry that keeps its key. -/
theorem Refines.update {r' : Registry} {f : Entry → Entry} (h : r.Refines l)
    (hkey : ∀ entry, (f entry).key = entry.key) (hbyKey : r'.byKey = r.byKey)
    (hbyId : ∀ id, r'.byId.lookup id = (r.byId.lookup id).map f) : r'.Refines (l.update f) := by
  refine ⟨?_, fun id entry => ?_, fun key => ?_⟩
  · rw [Roster.names_update]
    exact h.nodup
  · rw [hbyId, Option.map_eq_some_iff, Roster.update, List.mem_map]
    constructor
    · rintro ⟨w, hw, rfl⟩
      exact ⟨(id, w), (h.byId id w).1 hw, rfl⟩
    · rintro ⟨⟨id', w⟩, hw, heq⟩
      cases heq
      exact ⟨w, (h.byId id' w).2 hw, rfl⟩
  · have hrouted : Routed (l.update f) key = Routed l key :=
      Roster.named_update fun entry => by rw [hkey]
    rw [hrouted, hbyKey, h.byKey]

theorem refines_connectionLost (h : r.Refines l) :
    r.connectionLost.Refines (l.update (Entry.withState .inactive)) :=
  h.update (fun _ => rfl) rfl (AList.lookup_of_map rfl)

theorem refines_markReplayed (h : r.Refines l) :
    r.markReplayed.Refines (l.update (Entry.withState .pending)) :=
  h.update (fun _ => rfl) rfl (AList.lookup_of_map rfl)

/-- **Every operation keeps the registry standing for its roster.** -/
theorem refines_apply {op : RegistryOp} (h : r.Refines l) (hop : ∀ id ∈ op.newId, id ∉ r.ids) :
    (r.apply op).Refines (op.onRoster l) := by
  cases op with
  | insert id key params => exact refines_insert h (hop id rfl)
  | markReady id => exact refines_markReady h
  | remove id => exact refines_remove h
  | connectionLost => exact refines_connectionLost h
  | markReplayed => exact refines_markReplayed h
  | rekey old new => exact refines_rekey h (hop new rfl)

/-! ### The two maps -/

/-- The map and the reverse index agree. -/
structure Indexed (r : Registry) : Prop where
  /-- An id is listed for a key exactly when that is the key of its entry. -/
  mem : ∀ id key, (∃ ids, r.byKey.lookup key = some ids ∧ id ∈ ids) ↔
    ∃ entry, r.byId.lookup id = some entry ∧ entry.key = key
  /-- The lists of the index hold every id once. -/
  once : (r.byKey.entries.flatMap fun e => e.2).Perm r.ids
  nonempty : ∀ key, r.byKey.lookup key ≠ some []

/-- The lists of the index hold every id once. -/
theorem Refines.perm_ids (h : r.Refines l) :
    (r.byKey.entries.flatMap fun e => e.2).Perm r.ids := by
  have hlookup : ∀ e ∈ r.byKey.entries, e.2 = Routed l e.1 := by
    intro e he
    have hsome : r.byKey.lookup e.1 = some e.2 := AList.mem_lookup_iff.2 he
    rw [h.byKey] at hsome
    split at hsome
    · cases hsome
    · exact (Option.some.inj hsome).symm
  refine (List.perm_ext_iff_of_nodup ?_ r.byId.keys_nodup).2 fun id => ?_
  · rw [List.nodup_flatMap]
    constructor
    · intro e he
      rw [hlookup e he]
      exact h.nodup.sublist Roster.named_sublist
    · -- no id has two keys
      have hkeys : r.byKey.entries.Pairwise fun e e' => e.1 ≠ e'.1 :=
        List.pairwise_map.1 r.byKey.keys_nodup
      refine hkeys.imp_of_mem fun {e e'} he he' hne id hid hid' => ?_
      have hin : id ∈ Routed l e.1 := hlookup e he ▸ hid
      have hin' : id ∈ Routed l e'.1 := hlookup e' he' ▸ hid'
      obtain ⟨entry, hmem, hkey⟩ := mem_routed.1 hin
      exact hne (hkey.symm.trans ((h.mem_routed_iff hmem).1 hin'))
  · rw [List.mem_flatMap]
    show _ ↔ id ∈ r.ids
    rw [h.ids]
    constructor
    · rintro ⟨e, he, hid⟩
      rw [hlookup e he] at hid
      exact Roster.named_sublist.subset hid
    · intro hid
      obtain ⟨⟨id, entry⟩, hmem, rfl⟩ := List.mem_map.1 hid
      refine ⟨⟨entry.key, Routed l entry.key⟩, ?_, (h.mem_routed_iff hmem).2 rfl⟩
      exact AList.mem_lookup_iff.1 (h.lookup_byKey hmem)

/-- Two maps that stand for a roster agree. -/
theorem Refines.indexed (h : r.Refines l) : r.Indexed := by
  refine ⟨fun id key => ?_, h.perm_ids, fun key hnil => ?_⟩
  · have hlisted : (∃ ids, r.byKey.lookup key = some ids ∧ id ∈ ids) ↔ id ∈ Routed l key := by
      rw [h.byKey]
      by_cases hnil : Routed l key = []
      · simp [hnil]
      · simp [hnil]
    rw [hlisted, mem_routed]
    exact exists_congr fun entry => and_congr_left' (h.byId id entry).symm
  · rw [h.byKey] at hnil
    split at hnil
    · cases hnil
    · next hne => exact hne (Option.some.inj hnil)

/-- The registry of every run stands for the roster its operations leave. -/
theorem refines_of_run {ops : List RegistryOp} (h : Run Registry.step Registry.new ops r) :
    r.Refines (roster ops) := by
  refine h.invariant (I := fun ops r => r.Refines (roster ops)) refines_new ?_
  intro ops r op r' o hr hstep
  rw [step] at hstep
  split at hstep
  · next hfresh =>
    cases hstep
    rw [roster_snoc]
    exact refines_apply hr (by simpa [Option.all_eq_true] using hfresh)
  · cases hstep

/-! ### What each operation leaves -/

theorem lookup_rekey (hentry : r.byId.lookup old = some entry) (id : String) :
    (r.rekey old new).1.byId.lookup id = if id = new then some (entry.withState .pending)
      else if id = old then none else r.byId.lookup id := by
  unfold rekey
  simp only [hentry]
  rw [AList.lookup_insert_eq, AList.lookup_erase_eq]
  rfl

theorem lookup_remove (id id' : String) :
    (r.remove id).1.byId.lookup id' = if id' = id then none else r.byId.lookup id' := by
  unfold remove
  cases hlookup : r.byId.lookup id with
  | some entry => exact AList.lookup_erase_eq
  | none =>
    show r.byId.lookup id' = _
    by_cases heq : id' = id
    · rw [if_pos heq, heq, hlookup]
    · rw [if_neg heq]

/-- What a subscription is for: the key and the parameters of its entry. -/
def intent (r : Registry) (id : String) : Option (StreamKey × List Value) :=
  (r.byId.lookup id).map fun entry => (entry.key, entry.params)

theorem intent_markReady (id id' : String) : (r.markReady id).1.intent id' = r.intent id' := by
  unfold markReady
  cases hlookup : r.byId.lookup id with
  | none => rfl
  | some entry =>
    show (Option.map _ ((r.byId.insert id (entry.withState .ready)).lookup id')) = _
    rw [AList.lookup_insert_eq, intent]
    split
    · next heq => rw [heq, hlookup]; rfl
    · rfl

theorem intent_of_map {r' : Registry} {state : SubState}
    (h : r'.byId.entries = r.byId.entries.map fun e => ⟨e.1, e.2.withState state⟩)
    (id : String) : r'.intent id = r.intent id := by
  rw [intent, AList.lookup_of_map h, Option.map_map]
  rfl

/-- The replay is sorted by id. -/
theorem pairwise_toReplay : (r.toReplay.map Prod.fst).Pairwise (· < ·) := by
  have hsorted : r.toReplay.Pairwise fun a b => a.1 ≤ b.1 := by
    have : Std.Total fun a b : String × StreamKey × List Value => a.1 ≤ b.1 :=
      ⟨fun a b => le_total a.1 b.1⟩
    have : IsTrans (String × StreamKey × List Value) fun a b => a.1 ≤ b.1 :=
      ⟨fun a b c => le_trans⟩
    exact List.pairwise_insertionSort _ _
  have hnodup := nodup_toReplay (r := r)
  rw [List.Nodup, List.pairwise_map] at hnodup
  rw [List.pairwise_map]
  exact (hsorted.and hnodup).imp fun h => lt_of_le_of_ne h.1 h.2

end Registry

open Registry

/-- **Subscription registry representation.**  After every run: the two maps agree; a key
lists its ids in the order of their first insertion, a moved entry in the place it had; and
each operation changes the entries it names and no others, in the way it is meant to. -/
theorem registry_representation {ops : List RegistryOp} {r : Registry}
    (h : Run Registry.step Registry.new ops r) :
    r.Indexed ∧
    (∀ key, r.subscribers key = Routed (roster ops) key) ∧
    (∀ old new entry, r.byId.lookup old = some entry → ∀ id,
      (r.rekey old new).1.byId.lookup id = if id = new then some (entry.withState .pending)
        else if id = old then none else r.byId.lookup id) ∧
    (∀ old new, r.byId.lookup old = none → (r.rekey old new).1 = r) ∧
    (∀ id id', (r.remove id).1.byId.lookup id' =
      if id' = id then none else r.byId.lookup id') ∧
    (∀ id, r.connectionLost.intent id = r.intent id ∧ r.markReplayed.intent id = r.intent id ∧
      ∀ id', (r.markReady id').1.intent id = r.intent id) ∧
    r.toReplay.Perm (r.byId.entries.map fun e => (e.1, e.2.key, e.2.params)) ∧
    (r.toReplay.map Prod.fst).Pairwise (· < ·) := by
  have hrefines := refines_of_run h
  refine ⟨hrefines.indexed, fun _ => hrefines.subscribers, fun _ _ _ hentry =>
    lookup_rekey hentry, fun old new hnone => ?_, lookup_remove, fun id => ⟨intent_of_map rfl id,
    intent_of_map rfl id, fun id' => intent_markReady id' id⟩,
    List.perm_insertionSort .., pairwise_toReplay⟩
  unfold rekey
  rw [hnone]

/-- Two subscriptions to a stream, the first moved to another id by a replay. -/
theorem registry_representation_rekey :
    ∃ ops r, Run Registry.step Registry.new ops r ∧
      r.subscribers ⟨"notify-room", "GENERAL/typing"⟩ = ["s9", "s1"] ∧ r.Indexed :=
  let inputs : List RegistryOp := [.insert "s0" ⟨"notify-room", "GENERAL/typing"⟩ [],
    .insert "s1" ⟨"notify-room", "GENERAL/typing"⟩ [], .connectionLost, .rekey "s0" "s9"]
  have hrun : Run Registry.step Registry.new _ _ := run_execute inputs (by decide +kernel)
  ⟨_, _, hrun, by decide +kernel, (registry_representation hrun).1⟩

end RocketSocket
