import Mathlib.Data.Finmap
import Mathlib.Tactic.Common

/-!
# Tables

A table is a finite map from keys to values: what a concurrent hash map holds, with the
operations such a map has beyond lookup, insertion and erasure.

## Main definitions

* `Table K V` — the tables.
* `Finmap.size` — how many keys a table has.
* `Finmap.removeIf` — erases a key if its value passes a test.
* `Finmap.eraseAll` — erases the keys of a list, one after the other.
* `Finmap.filterMap` — rewrites or drops every value.
* `Finmap.ofPairs` — the table of a list of pairs.

## Main results

* `lookup_insert_eq`, `lookup_erase_eq`, `lookup_removeIf`, `lookup_eraseAll`,
  `lookup_filterMap`, `lookup_union_eq`, `lookup_ofPairs` — what each operation leaves at each
  key.
* `size_insert` — a new key is one more.
* `AList.lookup_insert_eq`, `AList.lookup_erase_eq`, `AList.lookup_of_map` — the same of lists of
  entries.
-/

namespace Machine

/-- A finite map from `K` to `V`. -/
abbrev Table (K V : Type) := Finmap fun _ : K => V

end Machine

namespace Finmap

open Machine

variable {K V W : Type}

/-- The number of keys. -/
def size (t : Table K V) : ℕ := t.keys.card

section Key

variable [DecidableEq K] {t : Table K V} {k k' : K} {v : V}

/-- Erases `k` if its value passes the test. -/
def removeIf (k : K) (p : V → Bool) (t : Table K V) : Table K V :=
  if (t.lookup k).any p then t.erase k else t

/-- Erases the keys of a list. -/
def eraseAll (ks : List K) (t : Table K V) : Table K V := ks.foldl (fun t k => t.erase k) t

/-! ### What an operation leaves at a key -/

theorem lookup_insert_eq :
    (t.insert k v).lookup k' = if k' = k then some v else t.lookup k' := by
  split
  · next h => rw [h, lookup_insert]
  · next h => exact lookup_insert_of_ne t h

theorem lookup_erase_eq :
    (t.erase k).lookup k' = if k' = k then none else t.lookup k' := by
  split
  · next h => rw [h, lookup_erase]
  · next h => exact lookup_erase_ne h

theorem lookup_removeIf {p : V → Bool} :
    (t.removeIf k p).lookup k' =
      if k' = k ∧ (t.lookup k).any p then none else t.lookup k' := by
  unfold removeIf
  by_cases hp : (t.lookup k).any p
  · simp [hp, lookup_erase_eq]
  · simp [hp]

theorem lookup_eraseAll (ks : List K) :
    (t.eraseAll ks).lookup k = if k ∈ ks then none else t.lookup k := by
  unfold eraseAll
  induction ks generalizing t with
  | nil => simp
  | cons k' ks ih =>
    rw [List.foldl_cons, ih, lookup_erase_eq]
    by_cases hk : k = k'
    · simp [hk]
    · simp [hk]

/-! ### The empty table -/

@[simp] theorem erase_empty : (∅ : Table K V).erase k = ∅ := rfl

@[simp] theorem removeIf_empty {p : V → Bool} : (∅ : Table K V).removeIf k p = ∅ := by
  simp [removeIf]

@[simp] theorem eraseAll_empty {ks : List K} : (∅ : Table K V).eraseAll ks = ∅ := by
  unfold eraseAll
  induction ks with
  | nil => rfl
  | cons k ks ih => rw [List.foldl_cons, erase_empty, ih]

/-! ### Keys -/

theorem mem_keys_iff : k ∈ t.keys ↔ (t.lookup k).isSome := by
  rw [mem_keys, lookup_isSome]

theorem mem_keys_of_lookup (h : t.lookup k = some v) : k ∈ t.keys := by
  rw [mem_keys_iff, h]
  rfl

theorem keys_insert : (t.insert k v).keys = Insert.insert k t.keys := by
  ext k'
  simp [mem_keys]

theorem size_insert (hk : t.lookup k = none) : (t.insert k v).size = t.size + 1 := by
  have hmem : k ∉ t.keys := by simp [mem_keys_iff, hk]
  rw [size, size, keys_insert, Finset.card_insert_of_notMem hmem]

theorem size_erase (hk : k ∈ t.keys) : (t.erase k).size = t.size - 1 := by
  rw [size, size, keys_erase, Finset.card_erase_of_mem hk]

end Key

/-! ### Rewriting every value -/

/-- Rewrites the value at every key, and drops the key where there is no new value. -/
def filterMap (f : K → V → Option W) (t : Table K V) : Table K W where
  entries := t.entries.filterMap fun e => (f e.1 e.2).map (Sigma.mk e.1)
  nodupKeys := by
    obtain ⟨⟨l⟩, hl⟩ := t
    have hsub : (l.filterMap fun e => (f e.1 e.2).map (Sigma.mk (β := fun _ => W) e.1)).keys.Sublist
        l.keys := by
      clear hl
      induction l with
      | nil => simp
      | cons e l ih =>
        cases hf : f e.1 e.2 with
        | none => simpa [hf] using ih.cons e.1
        | some w => simpa [hf] using ih.cons_cons e.1
    exact List.Nodup.sublist hsub hl

theorem lookup_filterMap [DecidableEq K] (f : K → V → Option W) (t : Table K V) (k : K) :
    (t.filterMap f).lookup k = (t.lookup k).bind (f k) := by
  ext w
  have hnew : (t.filterMap f).lookup k = some w ↔ Sigma.mk k w ∈ (t.filterMap f).entries :=
    lookup_eq_some_iff
  rw [hnew, filterMap, Multiset.mem_filterMap]
  constructor
  · rintro ⟨⟨k', v⟩, hv, hw⟩
    obtain ⟨w', hw', heq⟩ := Option.map_eq_some_iff.mp hw
    obtain ⟨rfl, hw''⟩ := Sigma.mk.inj heq
    rw [lookup_eq_some_iff.mpr hv]
    exact eq_of_heq hw'' ▸ hw'
  · intro hw
    obtain ⟨v, hv, hw'⟩ := Option.bind_eq_some_iff.mp hw
    exact ⟨⟨k, v⟩, lookup_eq_some_iff.mp hv, by simp [hw']⟩

/-! ### Tables from lists, and one over another -/

/-- The table of a list of pairs.  Of two pairs with one key the first counts. -/
def ofPairs [DecidableEq K] (l : List (K × V)) : Table K V :=
  l.foldr (fun e t => t.insert e.1 e.2) ∅

theorem lookup_ofPairs [DecidableEq K] (l : List (K × V)) (k : K) :
    (ofPairs l).lookup k = l.lookup k := by
  induction l with
  | nil => exact lookup_empty k
  | cons e l ih =>
    have hstep : ofPairs (e :: l) = (ofPairs l).insert e.1 e.2 := rfl
    rw [hstep, lookup_insert_eq, ih, List.lookup_cons]
    by_cases hk : k = e.1
    · simp [hk]
    · simp [hk, beq_false_of_ne hk]

/-- What the first table has at a key hides what the second has there. -/
theorem lookup_union_eq [DecidableEq K] (s t : Table K V) (k : K) :
    (s ∪ t).lookup k = (s.lookup k).or (t.lookup k) := by
  by_cases hk : k ∈ s
  · obtain ⟨v, hv⟩ := mem_iff.mp hk
    rw [lookup_union_left hk, hv, Option.some_or]
  · rw [lookup_union_right hk, lookup_eq_none.mpr hk, Option.none_or]

end Finmap

/-! ### Lists of entries -/

namespace AList

variable {K V : Type} [DecidableEq K]

theorem lookup_insert_eq {t : AList fun _ : K => V} {k k' : K}
    {v : V} : (t.insert k v).lookup k' = if k' = k then some v else t.lookup k' := by
  split
  · next h => rw [h, AList.lookup_insert]
  · next h => exact AList.lookup_insert_ne h

theorem lookup_erase_eq {t : AList fun _ : K => V} {k k' : K} :
    (t.erase k).lookup k' = if k' = k then none else t.lookup k' := by
  split
  · next h => rw [h, AList.lookup_erase]
  · next h => exact AList.lookup_erase_ne h

/-- Changing every value. -/
theorem lookup_of_map {t t' : AList fun _ : K => V} {f : V → V}
    (h : t'.entries = t.entries.map fun e => ⟨e.1, f e.2⟩) (k : K) :
    t'.lookup k = (t.lookup k).map f := by
  ext v
  rw [← Option.mem_def, AList.mem_lookup_iff, Option.map_eq_some_iff, h, List.mem_map]
  constructor
  · rintro ⟨⟨k', w⟩, hmem, heq⟩
    cases heq
    exact ⟨w, AList.mem_lookup_iff.2 hmem, rfl⟩
  · rintro ⟨w, hmem, rfl⟩
    exact ⟨⟨k, w⟩, AList.mem_lookup_iff.1 hmem, rfl⟩

end AList
