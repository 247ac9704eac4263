import Mathlib.Tactic.Common

/-!
# Loops with fuel

A loop over the places of a text takes fuel, and has enough of it as long as there is more left
than places ahead.  One state leads to another if the loop with enough fuel goes on from the
second, again with enough.

## Main definitions

* `Leads` — the loop gets from one state to another.

## Main results

* `Leads.step`, `Leads.trans` — one step, and one run after another.
* `Leads.eq` — what the loop comes to.
-/

namespace Machine

variable {σ α : Type*} {f : ℕ → σ → α} {place : σ → ℕ} {n : ℕ} {s s' s'' : σ}

/-- The loop `f` with enough fuel for `n` places goes on from the second state. -/
def Leads (f : ℕ → σ → α) (place : σ → ℕ) (n : ℕ) (s s' : σ) : Prop :=
  ∀ fuel, n < place s + fuel → ∃ fuel', n < place s' + fuel' ∧ f fuel s = f fuel' s'

namespace Leads

theorem refl (s : σ) : Leads f place n s s := fun fuel hfuel => ⟨fuel, hfuel, rfl⟩

theorem trans (h : Leads f place n s s') (h' : Leads f place n s' s'') :
    Leads f place n s s'' := by
  intro fuel hfuel
  obtain ⟨fuel', hfuel', heq⟩ := h fuel hfuel
  obtain ⟨fuel'', hfuel'', heq'⟩ := h' fuel' hfuel'
  exact ⟨fuel'', hfuel'', heq.trans heq'⟩

/-- A step takes one unit of fuel, and there is one. -/
theorem step (hstep : ∀ fuel, f (fuel + 1) s = f fuel s') (hplace : place s ≤ n)
    (hlt : place s < place s') : Leads f place n s s' := by
  intro fuel hfuel
  obtain ⟨fuel, rfl⟩ : ∃ k, fuel = k + 1 := ⟨fuel - 1, by omega⟩
  exact ⟨fuel, by omega, hstep fuel⟩

/-- The loop comes to what it comes to from a later state. -/
theorem eq {a : α} (h : Leads f place n s s') {fuel : ℕ} (hfuel : n < place s + fuel)
    (hend : ∀ fuel', n < place s' + fuel' → f fuel' s' = a) : f fuel s = a := by
  obtain ⟨fuel', hfuel', heq⟩ := h fuel hfuel
  rw [heq]
  exact hend fuel' hfuel'

end Leads

end Machine
