import Mathlib.Data.List.AList
import Mathlib.Data.List.Sort
import RocketSocket.Model.Protocol

/-!
# The subscription registry

Subscriptions do not survive a reconnect: `Session::close()` deactivates them without a
`nosub`.  The registry remembers every subscription as intent, separate from whether it is
currently live: `Registry` in `subscription.rs`.

## Main definitions

* `StreamKey` — a stream name and the event key within it.
* `Registry` — what is remembered, with its reverse index.
* `Registry.insert`, `markReady`, `remove`, `rekey`, `connectionLost`, `markReplayed` — the
  operations.
* `Registry.toReplay`, `subscribers` — what a reconnect sends again, and where an event goes.

## Main results

* `mem_insert`, `mem_remove`, `mem_rekey`, `ids_connectionLost` — what each operation
  remembers.
* `mem_toReplay`, `nodup_toReplay` — everything is replayed, once.
-/

namespace RocketSocket

/-- What a subscription is for: a stream name plus the event key within it. -/
structure StreamKey where
  stream : String
  event : String
  deriving DecidableEq, Repr

/-- The DDP publication name. -/
def StreamKey.publication (key : StreamKey) : String := "stream-" ++ key.stream

/-- The parameters a stream is subscribed with: its event key, and the modern object form of
the options. -/
def StreamKey.params (key : StreamKey) : List Value :=
  [.string key.event, .object [("args", .array []), ("useCollection", .bool false)]]

/-- Whether a remembered subscription is currently established on the wire. -/
inductive SubState where
  | pending
  | ready
  | inactive
  deriving DecidableEq, Repr

/-- One remembered subscription. -/
structure Entry where
  key : StreamKey
  params : List Value
  state : SubState

/-- Remembers subscription intent and routes incoming stream events. -/
structure Registry where
  /-- Keyed by DDP subscription id. -/
  byId : AList fun _ : String => Entry
  /-- Reverse index for routing. -/
  byKey : AList fun _ : StreamKey => List String

namespace Registry

/-- An empty registry. -/
def new : Registry := ⟨∅, ∅⟩

/-- Remembers a subscription under `id`. -/
def insert (r : Registry) (id : String) (key : StreamKey) (params : List Value) : Registry where
  byKey := r.byKey.insert key ((r.byKey.lookup key).getD [] ++ [id])
  byId := r.byId.insert id ⟨key, params, .pending⟩

/-- Marks a subscription acknowledged. -/
def markReady (r : Registry) (id : String) : Registry × Bool :=
  match r.byId.lookup id with
  | some entry => ({ r with byId := r.byId.insert id { entry with state := .ready } }, true)
  | none => (r, false)

/-- Forgets a subscription entirely. -/
def remove (r : Registry) (id : String) : Registry × Bool :=
  match r.byId.lookup id with
  | none => (r, false)
  | some entry =>
    let byKey := match r.byKey.lookup entry.key with
      | some ids =>
        let kept := ids.filter fun candidate => candidate ≠ id
        if kept.isEmpty then r.byKey.erase entry.key else r.byKey.insert entry.key kept
      | none => r.byKey
    ({ byId := r.byId.erase id, byKey }, true)

/-- Marks every subscription inactive, because the connection ended. -/
def connectionLost (r : Registry) : Registry where
  byKey := r.byKey
  byId := ⟨r.byId.entries.map fun e => ⟨e.1, { e.2 with state := .inactive }⟩, by
    have hnodup := r.byId.keys_nodup
    rw [AList.keys] at hnodup
    simpa [List.NodupKeys, List.keys, Function.comp_def] using hnodup⟩

/-- Everything to re-send after logging back in, in the order of the ids. -/
def toReplay (r : Registry) : List (String × StreamKey × List Value) :=
  (r.byId.entries.map fun e => (e.1, e.2.key, e.2.params)).insertionSort fun a b => a.1 ≤ b.1

/-- Marks every remembered subscription as sent again, after a replay. -/
def markReplayed (r : Registry) : Registry where
  byKey := r.byKey
  byId := ⟨r.byId.entries.map fun e => ⟨e.1, { e.2 with state := .pending }⟩, by
    have hnodup := r.byId.keys_nodup
    rw [AList.keys] at hnodup
    simpa [List.NodupKeys, List.keys, Function.comp_def] using hnodup⟩

/-- Moves a remembered subscription onto the id its replay was issued under. -/
def rekey (r : Registry) (old new : String) : Registry × Bool :=
  match r.byId.lookup old with
  | none => (r, false)
  | some entry =>
    let byKey := match r.byKey.lookup entry.key with
      | some ids => r.byKey.insert entry.key (ids.map fun id => if id = old then new else id)
      | none => r.byKey
    ({ byId := (r.byId.erase old).insert new { entry with state := .pending }, byKey }, true)

/-- The subscription ids interested in an incoming event. -/
def subscribers (r : Registry) (key : StreamKey) : List String := (r.byKey.lookup key).getD []

/-! ### What is remembered -/

/-- The ids remembered. -/
def ids (r : Registry) : List String := r.byId.keys

variable {r : Registry} {id id' old new : String}

@[simp] theorem ids_new : Registry.new.ids = [] := rfl

theorem mem_insert {key : StreamKey} {params : List Value} :
    id' ∈ (r.insert id key params).ids ↔ id' = id ∨ id' ∈ r.ids :=
  AList.mem_insert r.byId

theorem mem_remove : id' ∈ (r.remove id).1.ids ↔ id' ≠ id ∧ id' ∈ r.ids := by
  unfold remove
  split
  · next hnone =>
    have hid : id ∉ r.ids := AList.lookup_eq_none.mp hnone
    constructor
    · exact fun h => ⟨fun heq => hid (heq ▸ h), h⟩
    · exact fun h => h.2
  · exact AList.mem_erase

theorem mem_rekey (hold : old ∈ r.ids) :
    id' ∈ (r.rekey old new).1.ids ↔ id' = new ∨ id' ≠ old ∧ id' ∈ r.ids := by
  unfold rekey
  split
  · next hnone => exact absurd hold (AList.lookup_eq_none.mp hnone)
  · exact (AList.mem_insert _).trans (or_congr_right AList.mem_erase)

@[simp] theorem ids_connectionLost : r.connectionLost.ids = r.ids := by
  simp [ids, AList.keys, List.keys, connectionLost, Function.comp_def]

theorem map_fst_toReplay : (r.toReplay.map Prod.fst).Perm r.ids := by
  have hperm := (List.perm_insertionSort (fun a b : String × StreamKey × List Value => a.1 ≤ b.1)
    (r.byId.entries.map fun e => (e.1, e.2.key, e.2.params))).map Prod.fst
  rw [List.map_map] at hperm
  exact hperm

/-- Everything remembered is replayed, -/
theorem mem_toReplay : id ∈ r.toReplay.map Prod.fst ↔ id ∈ r.ids := map_fst_toReplay.mem_iff

/-- once. -/
theorem nodup_toReplay : (r.toReplay.map Prod.fst).Nodup :=
  map_fst_toReplay.nodup_iff.mpr r.byId.keys_nodup

end Registry

end RocketSocket
