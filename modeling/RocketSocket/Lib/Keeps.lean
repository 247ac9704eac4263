import RocketSocket.Lib.Act

/-!
# Computations that leave a part of the state alone

`Keeps π x`: wherever it starts, what `π` reads of the state is the same when `x` is over.
`Attests π S x` says besides that whatever `x` shows is what `S` allows where `π` reads that.
Both are kept by sequencing, and so a program is shown to have them piece by piece, once for
any property that sequencing keeps.

## Main definitions

* `Keeps π x` — `x` leaves what `π` reads as it was.
* `Attests π S x` — and shows only what goes with it.
* `Sequenced C` — sequencing keeps the property `C` of computations.

## Main results

* `Sequenced.forM` — loops.
* `Keeps.sequenced`, `Attests.sequenced` — **sequencing keeps both.**
-/

namespace Machine

variable {σ τ ρ ω α β : Type}

/-! ### What sequencing keeps -/

/-- Sequencing keeps a property of computations.  What follows `x` is asked of the values only
that `x` can return. -/
structure Sequenced (C : ∀ α : Type, Act σ ω α → Prop) : Prop where
  pure : ∀ {α : Type} (a : α), C α (Pure.pure a)
  get : C σ Act.get
  bind : ∀ {α β : Type} {x : Act σ ω α} {f : α → Act σ ω β}, C α x → (∀ s, C β (f (x.value s))) →
    C β (x >>= f)

theorem Sequenced.forM {C : ∀ α : Type, Act σ ω α → Prop} (hC : Sequenced C) {ι : Type}
    {f : ι → Act σ ω PUnit} (is : List ι) (hf : ∀ i ∈ is, C PUnit (f i)) : C PUnit (is.forM f) := by
  induction is with
  | nil => exact hC.pure _
  | cons i is ih =>
    refine hC.bind (hf i List.mem_cons_self) fun _ => ih fun j hj => ?_
    exact hf j (List.mem_cons_of_mem i hj)

/-! ### Keeping -/

/-- What `π` reads of the state is the same before and after. -/
def Keeps (π : σ → ρ) (x : Act σ ω α) : Prop := ∀ s, π (x.state s) = π s

variable {π : σ → ρ} {S : ρ → ω → Prop}

theorem Keeps.sequenced : Sequenced fun α (x : Act σ ω α) => Keeps π x where
  pure _ _ := rfl
  get _ := rfl
  bind hx hf s := (hf s _).trans (hx s)

/-! ### Attesting -/

/-- What `π` reads stays, and what is shown goes with it. -/
structure Attests (π : σ → ρ) (S : ρ → ω → Prop) (x : Act σ ω α) : Prop where
  keeps : Keeps π x
  attests : ∀ s, ∀ o ∈ x.obs s, S (π s) o

theorem Attests.sequenced : Sequenced fun α (x : Act σ ω α) => Attests π S x where
  pure _ := ⟨fun _ => rfl, fun _ _ ho => absurd ho List.not_mem_nil⟩
  get := ⟨fun _ => rfl, fun _ _ ho => absurd ho List.not_mem_nil⟩
  bind {_ _ x f} hx hf := by
    refine ⟨fun s => ((hf s).keeps _).trans (hx.keeps s), fun s o ho => ?_⟩
    rw [Act.obs_bind] at ho
    rcases List.mem_append.mp ho with ho | ho
    · exact hx.attests s o ho
    · rw [← hx.keeps s]
      exact (hf s).attests _ o ho

end Machine
