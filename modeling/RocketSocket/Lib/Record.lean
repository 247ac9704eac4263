import RocketSocket.Lib.Table
import RocketSocket.Lib.TaggedUnion

/-!
# Records

A record is read from and written to members under keys, each of its fields on its own.  A
field may write no member.  Written over another record, the members of one hide those of the
other field by field; where every field reads back what it wrote, the result of that is again
a record, with the fields of both.

## Main definitions

* `RecordField`, `Record` — a field with its two directions, and the records with such fields.
* `Record.read`, `Record.write` — from the members under the keys, and to a list of members.
* `Record.ofTable`, `Record.toTable` — the same from and to a table.
* `Record.overlay` — the fields one record writes, and the others as in another.
* `Record.Keeps` — every field reads back what it wrote.

## Main results

* `Record.read_eq_some` — a record is read just if each field is.
* `Record.lookup_write`, `Record.lookup_toTable` — what is written under a key.
* `Record.ofTable_union` — reading one table of members over another is done field by field.
* `Record.toTable_overlay`, `Record.ofTable_overlay` — the members of an overlay.
* `Record.overlay_assoc`, `Record.lookup_foldl_overlay` — overlays in a row.
-/

namespace Machine

open TaggedUnion

variable {W : Type}

/-- A field: its key, what it holds, how that is read from the member if there is one, and the
member it is written to if any. -/
structure RecordField (W : Type) where
  key : String
  Content : Type
  read : Option W → Option Content
  write : Content → Option W

/-- The records with such fields. -/
def Record {n : ℕ} (field : Fin n → RecordField W) : Type := ∀ j, (field j).Content

namespace Record

variable {n : ℕ} {field : Fin n → RecordField W}

/-- The record read from the members, if every field reads its own. -/
def read (members : Fin n → Option W) : Option (Record field) :=
  if h : ∀ j, ((field j).read (members j)).isSome then
    some fun j => ((field j).read (members j)).get (h j)
  else none

/-- The members the fields write, in the order of the fields. -/
def write (r : Record field) : List (String × W) :=
  present ((List.finRange n).map fun j => ((field j).key, (field j).write (r j)))

/-- The field writes a member. -/
def Carries (r : Record field) (j : Fin n) : Prop := ((field j).write (r j)).isSome = true

instance (r : Record field) (j : Fin n) : Decidable (r.Carries j) :=
  inferInstanceAs (Decidable (_ = true))

theorem not_carries_iff {r : Record field} {j : Fin n} :
    ¬ r.Carries j ↔ (field j).write (r j) = none := Option.not_isSome_iff_eq_none

/-- The fields `patch` writes are as in `patch`, the others as in `base`. -/
def overlay (base patch : Record field) : Record field := fun j =>
  if patch.Carries j then patch j else base j

/-- Every field reads back what it wrote. -/
def Keeps (r : Record field) : Prop := ∀ j, (field j).read ((field j).write (r j)) = some (r j)

/-! ### Reading -/

theorem read_eq_some {members : Fin n → Option W} {r : Record field} :
    read members = some r ↔ ∀ j, (field j).read (members j) = some (r j) := by
  unfold read
  constructor
  · intro h j
    split at h
    · next hread =>
      obtain rfl := Option.some.inj h
      exact (Option.some_get (hread j)).symm
    · cases h
  · intro h
    have hread : ∀ j, ((field j).read (members j)).isSome := by
      intro j
      rw [h j]
      rfl
    rw [dif_pos hread]
    refine congrArg some (funext fun j => ?_)
    exact Option.some.inj ((Option.some_get (hread j)).trans (h j))

theorem read_isSome {members : Fin n → Option W} :
    (read members : Option (Record field)).isSome ↔
      ∀ j, ((field j).read (members j)).isSome := by
  unfold read
  split
  · next h => exact ⟨fun _ => h, fun _ => rfl⟩
  · next h => exact ⟨fun hsome => absurd hsome (by simp), fun hread => absurd hread h⟩

/-! ### Writing -/

section Write

variable (hkeys : Function.Injective fun j => (field j).key)
include hkeys

theorem keys_nodup (r : Record field) : (((List.finRange n).map fun j =>
    ((field j).key, (field j).write (r j))).map Prod.fst).Nodup := by
  rw [List.map_map]
  exact (List.nodup_finRange n).map hkeys

/-- No key is written twice. -/
theorem keys_write_nodup (r : Record field) : (r.write.map Prod.fst).Nodup :=
  List.Nodup.sublist keys_present_sublist (keys_nodup hkeys r)

/-- Under the key of a field stands what the field writes. -/
theorem lookup_write (r : Record field) (j : Fin n) :
    r.write.lookup (field j).key = (field j).write (r j) := by
  have hfields : ((List.finRange n).map fun j =>
      ((field j).key, (field j).write (r j))).lookup (field j).key =
        some ((field j).write (r j)) := by
    have hj := List.mem_finRange j
    revert hj
    induction List.finRange n with
    | nil => intro hj; cases hj
    | cons j' js ih =>
      intro hj
      rw [List.map_cons, List.lookup_cons]
      by_cases hkey : (field j).key = (field j').key
      · obtain rfl : j = j' := hkeys hkey
        rw [beq_self_eq_true]
      · have hmem : j ∈ js := (List.mem_cons.mp hj).resolve_left fun h => hkey (by rw [h])
        rw [beq_eq_false_iff_ne.2 hkey]
        exact ih hmem
  rw [write, lookup_present (keys_nodup hkeys r), hfields]
  rfl

/-- Under any other key stands nothing. -/
theorem lookup_write_of_ne (r : Record field) {k : String} (hk : ∀ j, (field j).key ≠ k) :
    r.write.lookup k = none := by
  rw [write, lookup_present (keys_nodup hkeys r), List.lookup_eq_none_iff.2]
  · rfl
  · intro e he
    obtain ⟨j, -, rfl⟩ := List.mem_map.mp he
    exact bne_iff_ne.2 fun heq => hk j heq.symm

end Write

/-! ### Tables of members -/

section Tables

/-- The record read from a table. -/
def ofTable (t : Table String W) : Option (Record field) := read fun j => t.lookup (field j).key

/-- The members of a record as a table. -/
def toTable (r : Record field) : Table String W := Finmap.ofPairs r.write

/-- The record was read from some members. -/
def Decoded (r : Record field) : Prop := ∃ members, read members = some r

theorem decoded_of_ofTable {t : Table String W} {r : Record field} (h : ofTable t = some r) :
    r.Decoded := ⟨_, h⟩

variable (hkeys : Function.Injective fun j => (field j).key)
include hkeys

theorem lookup_toTable (r : Record field) (j : Fin n) :
    r.toTable.lookup (field j).key = (field j).write (r j) := by
  rw [toTable, Finmap.lookup_ofPairs, lookup_write hkeys]

theorem lookup_toTable_of_ne (r : Record field) {k : String} (hk : ∀ j, (field j).key ≠ k) :
    r.toTable.lookup k = none := by
  rw [toTable, Finmap.lookup_ofPairs, lookup_write_of_ne hkeys r hk]

/-- Reading the members of one record over those of another is done field by field. -/
theorem ofTable_union (base patch : Record field) :
    ofTable (patch.toTable ∪ base.toTable) =
      (read fun j => ((field j).write (patch j)).or ((field j).write (base j)) :
        Option (Record field)) := by
  refine congrArg read (funext fun j => ?_)
  rw [Finmap.lookup_union_eq, lookup_toTable hkeys, lookup_toTable hkeys]

/-- The members of an overlay are those of `patch` over those of `base`. -/
theorem toTable_overlay (base patch : Record field) :
    (overlay base patch).toTable = patch.toTable ∪ base.toTable := by
  refine Finmap.ext_lookup fun k => ?_
  rw [Finmap.lookup_union_eq]
  by_cases hk : ∃ j, (field j).key = k
  · obtain ⟨j, rfl⟩ := hk
    rw [lookup_toTable hkeys, lookup_toTable hkeys, lookup_toTable hkeys, overlay]
    split
    · next hc =>
      obtain ⟨w, hw⟩ := Option.isSome_iff_exists.mp hc
      rw [hw, Option.some_or]
    · next hc =>
      rw [not_carries_iff.mp hc, Option.none_or]
  · have hne : ∀ j, (field j).key ≠ k := fun j hj => hk ⟨j, hj⟩
    simp only [lookup_toTable_of_ne hkeys _ hne, Option.none_or]

omit hkeys in
theorem Keeps.overlay {base patch : Record field} (hbase : base.Keeps) (hpatch : patch.Keeps) :
    (overlay base patch).Keeps := by
  intro j
  unfold Record.overlay
  split
  · exact hpatch j
  · exact hbase j

/-- Where both records read back what they wrote, their members read as the overlay. -/
theorem ofTable_overlay {base patch : Record field} (hbase : base.Keeps)
    (hpatch : patch.Keeps) :
    ofTable (patch.toTable ∪ base.toTable) = some (overlay base patch) := by
  rw [← toTable_overlay hkeys, ofTable, read_eq_some]
  intro j
  rw [lookup_toTable hkeys]
  exact hbase.overlay hpatch j

end Tables

/-! ### Overlays in a row -/

theorem overlay_self (r : Record field) : overlay r r = r := by
  funext j
  exact ite_self _

theorem carries_overlay {base patch : Record field} {j : Fin n} :
    (overlay base patch).Carries j ↔ patch.Carries j ∨ base.Carries j := by
  by_cases h : patch.Carries j
  · have hj : overlay base patch j = patch j := if_pos h
    simp only [Carries, hj] at h ⊢
    simp [h]
  · have hj : overlay base patch j = base j := if_neg h
    simp only [Carries, hj] at h ⊢
    simp [h]

theorem overlay_assoc (a b c : Record field) :
    overlay (overlay a b) c = overlay a (overlay b c) := by
  funext j
  by_cases hc : c.Carries j
  · have hbc : (overlay b c).Carries j := carries_overlay.mpr (.inl hc)
    rw [overlay, if_pos hc, overlay, if_pos hbc, overlay, if_pos hc]
  · rw [overlay, if_neg hc, overlay, overlay]
    by_cases hb : b.Carries j
    · rw [if_pos hb, if_pos (carries_overlay.mpr (.inr hb)), overlay, if_neg hc]
    · have hbc : ¬ (overlay b c).Carries j := by
        rw [carries_overlay]
        exact not_or.mpr ⟨hc, hb⟩
      rw [if_neg hb, if_neg hbc]

/-- After any number of overlays the member under a key is that of the last record which has
one. -/
theorem lookup_foldl_overlay (hkeys : Function.Injective fun j => (field j).key) (r : Record field)
    (patches : List (Record field)) (k : String) :
    (patches.foldl overlay r).toTable.lookup k =
      (patches.reverse ++ [r]).findSome? fun p => p.toTable.lookup k := by
  induction patches generalizing r with
  | nil => simp
  | cons p patches ih =>
    have hp : (overlay r p).toTable.lookup k =
        (p.toTable.lookup k).or (r.toTable.lookup k) := by
      rw [toTable_overlay hkeys, Finmap.lookup_union_eq]
    rw [List.foldl_cons, ih, List.reverse_cons, List.append_assoc, List.findSome?_append,
      List.findSome?_append]
    congr 1
    simp only [List.findSome?_cons, List.findSome?_nil, hp, List.cons_append, List.nil_append]
    cases p.toTable.lookup k <;> cases r.toTable.lookup k <;> rfl

end Record

end Machine
