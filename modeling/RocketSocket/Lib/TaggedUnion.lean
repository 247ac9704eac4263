import Mathlib.Data.List.Infix
import Mathlib.Tactic.Common

/-!
# Internally tagged unions

An object is a list of members, each under a key.  A union of variants is read from an object
whose member under one key, the tag, says which variant it is; the other members are those of
the variant.  What is no variant is left to a catch-all.

A reader takes the tag for the name of a variant, or for its place among them.

## Main definitions

* `without key o` — the other members of an object.
* `present fields` — the members of an object whose fields may be left out.
* `TaggedUnion` — the variants, how the tag is read, and the catch-all.
* `TaggedUnion.read` — the union read from an object.

## Main results

* `lookup_present` — what is found of the fields written.
* `TaggedUnion.readTagged_eq_some` — when an object is a variant.
* `TaggedUnion.readTagged_of_name` — the variant a tag names is read.
-/

variable {ν α β : Type*}

namespace TaggedUnion

/-! ### Members -/

/-- The members of an object that are not under the key. -/
def without (key : String) (o : List (String × ν)) : List (String × ν) :=
  o.filter fun member => member.1 ≠ key

/-- The members of an object, of whose fields some may be left out. -/
def present (fields : List (String × Option ν)) : List (String × ν) :=
  fields.filterMap fun field => field.2.map (field.1, ·)

variable {key k : String} {o : List (String × ν)} {fields : List (String × Option ν)}

@[simp] theorem without_nil : without key ([] : List (String × ν)) = [] := rfl

theorem without_cons_self {v : ν} : without key ((key, v) :: o) = without key o := by
  simp [without]

theorem without_eq_self (hkey : key ∉ o.map Prod.fst) : without key o = o := by
  refine List.filter_eq_self.2 fun member hmember => ?_
  simp only [ne_eq, decide_not, Bool.not_eq_true', decide_eq_false_iff_not]
  rintro rfl
  exact hkey (List.mem_map_of_mem hmember)

theorem without_without : without key (without key o) = without key o := by
  simp [without]

/-- Leaving out a key leaves what is under the others. -/
theorem lookup_without (hk : k ≠ key) : (without key o).lookup k = o.lookup k := by
  induction o with
  | nil => rfl
  | cons member o ih =>
    obtain ⟨name, v⟩ := member
    by_cases hname : name = key
    · subst hname
      rw [without_cons_self, ih, List.lookup_cons, beq_eq_false_iff_ne.2 hk]
    · rw [without, List.filter_cons_of_pos (by simpa using hname), List.lookup_cons,
        List.lookup_cons, ← ih]
      rfl

/-- **What is found of the fields written**: the field, where it is not left out. -/
theorem lookup_present (hnodup : (fields.map Prod.fst).Nodup) :
    (present fields).lookup k = (fields.lookup k).join := by
  induction fields with
  | nil => rfl
  | cons field fields ih =>
    obtain ⟨name, value⟩ := field
    rw [List.map_cons, List.nodup_cons] at hnodup
    rw [List.lookup_cons]
    cases value with
    | none =>
      change (present fields).lookup k = _
      rw [ih hnodup.2]
      by_cases hk : k = name
      · subst hk
        rw [beq_self_eq_true, List.lookup_eq_none_iff.2]
        · rfl
        · intro field hfield
          refine bne_iff_ne.2 fun heq => hnodup.1 ?_
          exact List.mem_map.2 ⟨field, hfield, heq.symm⟩
      · rw [beq_eq_false_iff_ne.2 hk]
    | some v =>
      change ((name, v) :: present fields).lookup k = _
      rw [List.lookup_cons, ih hnodup.2]
      cases k == name <;> rfl

/-- A name that occurs once at most is looked up as its member. -/
theorem lookup_of_once {v : ν} (h : (o.map Prod.fst).count k ≤ 1) :
    o.lookup k = some v ↔ (k, v) ∈ o := by
  induction o with
  | nil => simp
  | cons member o ih =>
    obtain ⟨k', v'⟩ := member
    rw [List.map_cons, List.count_cons] at h
    rw [List.lookup_cons, List.mem_cons, Prod.mk.injEq]
    by_cases heq : k' = k
    · subst heq
      have hnone : (o.map Prod.fst).count k' = 0 := by simpa using h
      have hmem : (k', v) ∉ o := fun hmem =>
        List.count_eq_zero.mp hnone (List.mem_map_of_mem hmem)
      simp [hmem, eq_comm]
    · rw [if_neg (by simpa using heq)] at h
      simp [Ne.symm heq, ih h, beq_false_of_ne (Ne.symm heq)]

/-- The keys of what is written are among those of the fields. -/
theorem keys_present_sublist : ((present fields).map Prod.fst).Sublist (fields.map Prod.fst) := by
  induction fields with
  | nil => exact .slnil
  | cons field fields ih =>
    obtain ⟨name, value⟩ := field
    cases value with
    | none => exact ih.cons name
    | some v => exact ih.cons_cons name

/-- A member put before the others is the object it was taken from, but for the order. -/
theorem cons_without_perm {v : ν} (hnodup : (o.map Prod.fst).Nodup) (hv : o.lookup key = some v) :
    ((key, v) :: without key o).Perm o := by
  induction o with
  | nil => cases hv
  | cons member o ih =>
    obtain ⟨name, w⟩ := member
    rw [List.map_cons, List.nodup_cons] at hnodup
    by_cases hname : name = key
    · subst hname
      rw [List.lookup_cons_self] at hv
      rw [without_cons_self, without_eq_self hnodup.1, Option.some.inj hv]
    · rw [List.lookup_cons, beq_eq_false_iff_ne.2 (Ne.symm hname)] at hv
      rw [without, List.filter_cons_of_pos (by simpa using hname)]
      exact (List.Perm.swap ..).trans ((ih hnodup.2 hv).cons _)

/-! ### Variants -/

/-- What says which variant it is. -/
inductive Identifier where
  | name (tag : String)
  | index (n : ℕ)
  deriving DecidableEq, Repr

/-- A variant: its tag, and how its members are read. -/
structure Variant (ν α : Type*) where
  tag : String
  read : List (String × ν) → Option α

end TaggedUnion

open TaggedUnion

/-- A union of variants. -/
structure TaggedUnion (ν α : Type*) where
  /-- The key of the tag. -/
  key : String
  /-- How the tag is read. -/
  identify : ν → Option Identifier
  variants : List (Variant ν α)
  /-- What becomes of an object that is no variant. -/
  catchAll : List (String × ν) → Option α

namespace TaggedUnion

variable (u : TaggedUnion ν α)

/-- The variant that is meant. -/
def find : Identifier → Option (Variant ν α)
  | .name tag => u.variants.find? (·.tag = tag)
  | .index n => u.variants[n]?

/-- The variant an object is. -/
def readTagged (o : List (String × ν)) : Option α :=
  ((o.lookup u.key).bind u.identify).bind fun identifier =>
    (u.find identifier).bind fun variant => variant.read (without u.key o)

/-- The union read from an object. -/
def read (o : List (String × ν)) : Option α :=
  match u.readTagged o with
  | some a => some a
  | none => u.catchAll o

variable {u} {o : List (String × ν)} {a : α} {tag : String} {variant : Variant ν α}

theorem find_name (hnodup : (u.variants.map Variant.tag).Nodup) (hv : variant ∈ u.variants) :
    u.find (.name variant.tag) = some variant := by
  refine List.find?_eq_some_iff_append.2 ⟨by simp, ?_⟩
  obtain ⟨before, after, hsplit⟩ := List.append_of_mem hv
  refine ⟨before, after, hsplit, fun w hw => ?_⟩
  rw [hsplit, List.map_append, List.nodup_append] at hnodup
  have := hnodup.2.2 w.tag (List.mem_map_of_mem hw) variant.tag (by simp)
  simpa using this

theorem mem_of_find {identifier : Identifier} (hf : u.find identifier = some variant) :
    variant ∈ u.variants := by
  cases identifier with
  | name tag => exact List.mem_of_find?_eq_some hf
  | index n => exact List.mem_of_getElem? hf

theorem tag_of_find (hf : u.find (.name tag) = some variant) : variant.tag = tag := by
  simpa using List.find?_some hf

/-- **When an object is a variant.** -/
theorem readTagged_eq_some : u.readTagged o = some a ↔ ∃ value identifier variant,
    o.lookup u.key = some value ∧ u.identify value = some identifier ∧
      u.find identifier = some variant ∧ variant.read (without u.key o) = some a := by
  simp only [readTagged, Option.bind_eq_some_iff]
  constructor
  · rintro ⟨identifier, ⟨value, hvalue, hidentifier⟩, variant, hvariant, hread⟩
    exact ⟨value, identifier, variant, hvalue, hidentifier, hvariant, hread⟩
  · rintro ⟨value, identifier, variant, hvalue, hidentifier, hvariant, hread⟩
    exact ⟨identifier, ⟨value, hvalue, hidentifier⟩, variant, hvariant, hread⟩

/-- Only the tag and the other members count. -/
theorem readTagged_congr {o' : List (String × ν)} (hkey : o'.lookup u.key = o.lookup u.key)
    (hothers : without u.key o' = without u.key o) : u.readTagged o' = u.readTagged o := by
  rw [readTagged, readTagged, hkey, hothers]

/-- **The variant a tag names is read**, if its members can be. -/
theorem readTagged_of_name {value : ν} (hnodup : (u.variants.map Variant.tag).Nodup)
    (hv : variant ∈ u.variants) (hvalue : o.lookup u.key = some value)
    (hname : u.identify value = some (.name variant.tag)) :
    u.readTagged o = variant.read (without u.key o) := by
  simp only [readTagged, hvalue, hname, find_name hnodup hv, Option.bind_some]

theorem read_of_tagged (hr : u.readTagged o = some a) : u.read o = some a := by
  rw [read, hr]

theorem read_of_none (hr : u.readTagged o = none) : u.read o = u.catchAll o := by
  rw [read, hr]

end TaggedUnion
