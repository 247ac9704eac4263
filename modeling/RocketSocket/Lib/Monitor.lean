import RocketSocket.Lib.Act

/-!
# Monitors

A monitor reads observations one at a time and stops at the first that is out of order.
The histories it reads to the end are a language, closed under prefixes, and what the
monitor remembers then is what an observer can know.  A computation obeys a monitor if the
monitor reads whatever the computation shows; so does a machine, over whole runs, if each of
its steps does.

## Main definitions

* `follow next m h` — what the monitor `next`, started in `m`, remembers of `h`.
* `Obeys next P x Q` — started where `P` holds of the monitor and of the state, `x` shows
  only what the monitor reads, and ends where `Q` holds.

## Main results

* `Obeys.bind`, `Obeys.weaken` — sequencing, consequence.
* `Run.obeys` — **what every step of a machine obeys, its runs obey.**
-/

namespace Machine

variable {μ σ ι ω α β : Type}

/-! ### Reading a history -/

/-- What a monitor remembers after it has read the observations, if it read them all. -/
def follow (next : μ → ω → Option μ) (m : μ) (h : List ω) : Option μ := h.foldlM next m

variable {next : μ → ω → Option μ} {m m' : μ} {h o : List ω} {x : ω}

@[simp] theorem follow_nil : follow next m [] = some m := rfl

@[simp] theorem follow_cons : follow next m (x :: h) = (next m x).bind fun m' => follow next m' h :=
  List.foldlM_cons ..

theorem follow_append :
    follow next m (h ++ o) = (follow next m h).bind fun m' => follow next m' o :=
  List.foldlM_append ..

/-- Observations that a monitor does not mind. -/
theorem follow_of_skips (ho : ∀ x ∈ o, ∀ m, next m x = some m) : follow next m o = some m := by
  induction o with
  | nil => rfl
  | cons x o ih =>
    rw [follow_cons, ho x List.mem_cons_self]
    exact ih fun y hy => ho y (List.mem_cons_of_mem x hy)

/-- What is read to the end is read up to any point. -/
theorem follow_prefix (hf : follow next m (h ++ o) = some m') :
    ∃ m₁, follow next m h = some m₁ ∧ follow next m₁ o = some m' := by
  rw [follow_append] at hf
  exact Option.bind_eq_some_iff.mp hf

/-- A monitor that minds only what `f` finds in an observation reads what `f` finds in a
history. -/
theorem follow_filterMap {ν : Type} {f : ω → Option ν} {next' : μ → ν → Option μ}
    (hf : ∀ m x, next m x = (f x).elim (some m) (next' m)) :
    follow next m h = follow next' m (h.filterMap f) := by
  induction h generalizing m with
  | nil => rfl
  | cons x h ih =>
    rw [follow_cons, hf, List.filterMap_cons]
    cases f x with
    | none => exact ih
    | some y =>
      rw [follow_cons]
      exact Option.bind_congr fun m' _ => ih

/-! ### Computations that obey a monitor -/

/-- Started where `P` holds of what the monitor remembers and of the state, the monitor reads
whatever `x` shows, and `Q` holds at the end. -/
def Obeys (next : μ → ω → Option μ) (P : μ → σ → Prop) (x : Act σ ω α)
    (Q : α → μ → σ → Prop) : Prop :=
  ∀ m s, P m s → ∃ m', follow next m (x.obs s) = some m' ∧ Q (x.value s) m' (x.state s)

namespace Obeys

variable {P P' : μ → σ → Prop} {Q Q' : α → μ → σ → Prop} {y : Act σ ω α}

theorem pure {a : α} (hQ : ∀ m s, P m s → Q a m s) :
    Obeys next P (Pure.pure a : Act σ ω α) Q :=
  fun m s hs => ⟨m, rfl, hQ m s hs⟩

theorem get {Q : σ → μ → σ → Prop} (hQ : ∀ m s, P m s → Q s m s) :
    Obeys next P (Act.get : Act σ ω σ) Q :=
  fun m s hs => ⟨m, rfl, hQ m s hs⟩

theorem modify {g : σ → σ} {Q : Unit → μ → σ → Prop} (hQ : ∀ m s, P m s → Q () m (g s)) :
    Obeys next P (Act.modify g : Act σ ω Unit) Q :=
  fun m s hs => ⟨m, rfl, hQ m s hs⟩

theorem bind {f : α → Act σ ω β} {Q' : β → μ → σ → Prop} (hy : Obeys next P y Q)
    (hf : ∀ a, Obeys next (Q a) (f a) Q') : Obeys next P (y >>= f) Q' := by
  intro m s hs
  obtain ⟨m₁, hm₁, hq⟩ := hy m s hs
  obtain ⟨m₂, hm₂, hq'⟩ := hf _ m₁ _ hq
  refine ⟨m₂, ?_, hq'⟩
  rw [Act.obs_bind, follow_append, hm₁]
  exact hm₂

/-- The rule of consequence. -/
theorem weaken (hy : Obeys next P y Q) (hP : ∀ m s, P' m s → P m s)
    (hQ : ∀ a m s, Q a m s → Q' a m s) : Obeys next P' y Q' := by
  intro m s hs
  obtain ⟨m', hm, hq⟩ := hy m s (hP m s hs)
  exact ⟨m', hm, hQ _ _ _ hq⟩

/-- A computation that shows nothing the monitor minds. -/
theorem of_shows {S : ω → Prop} (hS : ∀ x, S x → ∀ m, next m x = some m) (hy : Shows S y)
    (hQ : ∀ m s, P m s → Q (y.value s) m (y.state s)) : Obeys next P y Q :=
  fun m s hs => ⟨m, follow_of_skips fun x hx => hS x (hy s x hx), hQ m s hs⟩

end Obeys

/-- **What every step of a machine obeys, its runs obey.** -/
theorem Run.obeys {step : σ → ι → Option (σ × List ω)} {s₀ s : σ} {I : μ → σ → Prop}
    (hstart : I m s₀)
    (hstep : ∀ {m s i s' o}, I m s → step s i = some (s', o) →
      ∃ m', follow next m o = some m' ∧ I m' s')
    (hrun : Run step s₀ h s) : ∃ m', follow next m h = some m' ∧ I m' s := by
  refine hrun.invariant (I := fun h s => ∃ m', follow next m h = some m' ∧ I m' s)
    ⟨m, rfl, hstart⟩ ?_
  rintro h s i s' o ⟨m₁, hm₁, hI⟩ hs
  obtain ⟨m₂, hm₂, hI'⟩ := hstep hI hs
  exact ⟨m₂, by rw [follow_append, hm₁]; exact hm₂, hI'⟩

end Machine
