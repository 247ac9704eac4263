import Mathlib.Data.List.Nodup
import Mathlib.Tactic.Common

/-!
# Rosters

A roster lists named values in the order they came in.  A value that is renamed keeps its
place.  The names of the values that pass a test are listed in the same order, which is what
an index of the roster has to agree with.

## Main definitions

* `Roster I V` — the rosters, and `Roster.add`, `drop`, `rename`, `update` on them.
* `Roster.names` — the names, and `Roster.named` those of the values that pass a test.

## Main results

* `named_add`, `named_drop`, `named_rename`, `named_update` — what each operation does to the
  names of the values that pass a test.
* `mem_rename`, `nodup_rename` — what renaming does to the values, and that names stay unique.
-/

namespace Machine

/-- Named values, oldest first. -/
abbrev Roster (I V : Type*) := List (I × V)

namespace Roster

variable {I V : Type*}

/-- The names of a roster. -/
def names (l : Roster I V) : List I := l.map Prod.fst

/-- The names of the values that pass a test. -/
def named (p : V → Bool) (l : Roster I V) : List I := names (l.filter fun e => p e.2)

/-- A new value comes last. -/
def add (i : I) (v : V) (l : Roster I V) : Roster I V := l ++ [(i, v)]

/-- Changes every value. -/
def update (f : V → V) (l : Roster I V) : Roster I V := l.map fun e => (e.1, f e.2)

variable [DecidableEq I]

/-- Takes a name off. -/
def drop (i : I) (l : Roster I V) : Roster I V := l.filter fun e => e.1 ≠ i

/-- Gives a value another name and changes it, in its place. -/
def rename (old new : I) (f : V → V) (l : Roster I V) : Roster I V :=
  l.map fun e => if e.1 = old then (new, f e.2) else e

variable {l : Roster I V} {i j old new : I} {v : V} {f : V → V} {p : V → Bool}

/-! ### Names -/

omit [DecidableEq I] in
@[simp] theorem names_add : (l.add i v).names = l.names ++ [i] := by
  simp [names, add]

omit [DecidableEq I] in
@[simp] theorem names_update : (l.update f).names = l.names := by
  simp [names, update]

theorem names_drop : (l.drop i).names = l.names.filter (· ≠ i) := by
  simp [names, drop, List.filter_map, Function.comp_def]

theorem names_rename :
    (l.rename old new f).names = l.names.map fun i => if i = old then new else i := by
  simp only [names, rename, List.map_map]
  refine List.map_congr_left fun e _ => ?_
  simp only [Function.comp_apply]
  split <;> rfl

/-- Names stay unique when the new one is the old one or is not taken. -/
theorem nodup_rename (h : l.names.Nodup) (hnew : new ∈ l.names → new = old) :
    (l.rename old new f).names.Nodup := by
  rw [names_rename]
  refine List.Nodup.map_on ?_ h
  intro i hi j hj hij
  split at hij
  · next hio =>
    split at hij
    · next hjo => rw [hio, hjo]
    · next hjo => exact absurd (hij ▸ hnew (hij ▸ hj)) hjo
  · next hio =>
    split at hij
    · exact absurd (hij ▸ hnew (hij ▸ hi)) hio
    · exact hij

/-! ### Values -/

theorem mem_rename {e : I × V} : e ∈ l.rename old new f ↔
    (∃ w, (old, w) ∈ l ∧ e = (new, f w)) ∨ (e.1 ≠ old ∧ e ∈ l) := by
  rw [rename, List.mem_map]
  constructor
  · rintro ⟨⟨i, w⟩, hmem, rfl⟩
    by_cases hi : i = old
    · subst hi
      exact .inl ⟨w, hmem, by simp⟩
    · exact .inr (by simpa [hi] using hmem)
  · rintro (⟨w, hmem, rfl⟩ | ⟨hne, hmem⟩)
    · exact ⟨_, hmem, by simp⟩
    · exact ⟨_, hmem, by simp [hne]⟩

omit [DecidableEq I] in
/-- A name stands for one value. -/
theorem eq_of_mem (h : l.names.Nodup) {w : V} (hv : (i, v) ∈ l) (hw : (i, w) ∈ l) : v = w := by
  have := List.inj_on_of_nodup_map h hv hw rfl
  exact (Prod.mk.inj this).2

theorem mem_drop {e : I × V} : e ∈ l.drop i ↔ e ∈ l ∧ e.1 ≠ i := by
  simp [drop]

theorem drop_of_notMem (hi : i ∉ l.names) : l.drop i = l := by
  refine List.filter_eq_self.2 fun e he => ?_
  simp only [ne_eq, decide_eq_true_eq]
  rintro rfl
  exact hi (List.mem_map_of_mem he)

theorem rename_of_notMem (hold : old ∉ l.names) : l.rename old new f = l := by
  have hsame : ∀ e ∈ l, (if e.1 = old then (new, f e.2) else e) = e := by
    intro e he
    rw [if_neg]
    rintro rfl
    exact hold (List.mem_map_of_mem he)
  rw [rename, List.map_congr_left hsame, List.map_id']

/-! ### The names of the values that pass a test -/

omit [DecidableEq I] in
theorem mem_named : i ∈ l.named p ↔ ∃ v, (i, v) ∈ l ∧ p v = true := by
  simp [named, names]

omit [DecidableEq I] in
theorem named_sublist : (l.named p).Sublist l.names :=
  (List.filter_sublist (l := l)).map Prod.fst

omit [DecidableEq I] in
theorem named_add : (l.add i v).named p = l.named p ++ if p v then [i] else [] := by
  rw [named, add, List.filter_append]
  cases h : p v with
  | true => simp [h, named, names]
  | false => simp [h, named, names]

omit [DecidableEq I] in
theorem named_update (hp : ∀ v, p (f v) = p v) : (l.update f).named p = l.named p := by
  simp [named, names, update, List.filter_map, Function.comp_def, hp]

theorem named_drop : (l.drop i).named p = (l.named p).filter (· ≠ i) := by
  simp only [named, drop, names, List.filter_filter, List.filter_map, Function.comp_def]
  simp [Bool.and_comm]

/-- A test that does not tell the new value from the old one lists the new name in the place
of the old. -/
theorem named_rename (hp : ∀ v, p (f v) = p v) :
    (l.rename old new f).named p = (l.named p).map fun i => if i = old then new else i := by
  induction l with
  | nil => rfl
  | cons e l ih =>
    have hcons : rename old new f (e :: l) =
      (if e.1 = old then (new, f e.2) else e) :: rename old new f l := rfl
    have htest : p (if e.1 = old then (new, f e.2) else e).2 = p e.2 := by
      split
      · exact hp e.2
      · rfl
    rw [named, hcons, List.filter_cons, htest, named, List.filter_cons]
    cases p e.2 with
    | false => exact ih
    | true =>
      simp only [names, if_true, List.map_cons, List.cons.injEq]
      exact ⟨by split <;> rfl, ih⟩

end Roster

end Machine
