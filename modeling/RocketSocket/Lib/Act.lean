import RocketSocket.Lib.History

/-!
# Stateful computations that make observations

`Act σ ω α` is a computation over a state `σ` that returns an `α` and makes
observations of type `ω`.  What it does to a part of the state, seen through a
projection, is specified by a chain of steps of a relation, each making the
observations the relation says; what it does to the rest, by a pre- and a
postcondition.

## Main definitions

* `Act` — the monad, with `Act.get`, `Act.modify`, `Act.say` and `Act.zoom`.
* `Chain R s o s'` — finitely many `R`-steps from `s` to `s'`, observing `o`.
* `Performs π R P x Q` — started where `P` holds, `x` is through `π` a chain of
  `R`-steps, and ends where `Q` holds.
* `Ensures P x Q` — started where `P` holds, `x` ends where `Q` holds.
* `Leaves Q x` — wherever it starts, `x` ends where `Q` holds.
* `Shows P x` — every observation `x` makes satisfies `P`.

## Main results

* `Chain.invariant` — what every `R`-step preserves, a chain preserves.
* `Performs.bind`, `Performs.weaken`, `Performs.forM` — sequencing, consequence, loops.
* `Shows.bind`, `Shows.forM` — the same for what is observed.
-/

namespace Machine

/-- A computation over a state `σ` making observations `ω` and returning an `α`. -/
def Act (σ ω α : Type) := σ → α × σ × List ω

namespace Act

variable {σ τ ω α β : Type}

/-- Return a value. -/
protected def pure (a : α) : Act σ ω α := fun s => (a, s, [])

/-- Sequencing: the second computation runs in the state the first one left. -/
protected def bind (x : Act σ ω α) (f : α → Act σ ω β) : Act σ ω β := fun s =>
  let (a, s', o) := x s
  let (b, s'', o') := f a s'
  (b, s'', o ++ o')

instance : Monad (Act σ ω) where
  pure := Act.pure
  bind := Act.bind

/-- Read the state. -/
def get : Act σ ω σ := fun s => (s, s, [])

/-- Change the state. -/
def modify (f : σ → σ) : Act σ ω Unit := fun s => ((), f s, [])

/-- Make one observation, which may depend on the state. -/
def say (o : σ → ω) : Act σ ω Unit := fun s => ((), s, [o s])

/-- Run a computation on a part of the state. -/
def zoom (read : τ → σ) (write : σ → τ → τ) (x : Act σ ω α) : Act τ ω α := fun t =>
  let (a, s, o) := x (read t)
  (a, write s t, o)

/-- The state a computation leaves. -/
def state (x : Act σ ω α) (s : σ) : σ := (x s).2.1

/-- The observations a computation makes. -/
def obs (x : Act σ ω α) (s : σ) : List ω := (x s).2.2

/-- The value a computation returns. -/
def value (x : Act σ ω α) (s : σ) : α := (x s).1

variable {x : Act σ ω α} {f : α → Act σ ω β} {s : σ}

@[simp] theorem state_pure (a : α) : (pure a : Act σ ω α).state s = s := rfl

@[simp] theorem obs_pure (a : α) : (pure a : Act σ ω α).obs s = [] := rfl

@[simp] theorem value_pure (a : α) : (pure a : Act σ ω α).value s = a := rfl

@[simp] theorem state_bind : (x >>= f).state s = (f (x.value s)).state (x.state s) := rfl

@[simp] theorem obs_bind :
    (x >>= f).obs s = x.obs s ++ (f (x.value s)).obs (x.state s) := rfl

@[simp] theorem value_bind : (x >>= f).value s = (f (x.value s)).value (x.state s) := rfl

@[simp] theorem state_get : (get : Act σ ω σ).state s = s := rfl

@[simp] theorem obs_get : (get : Act σ ω σ).obs s = [] := rfl

@[simp] theorem value_get : (get : Act σ ω σ).value s = s := rfl

@[simp] theorem state_modify (g : σ → σ) : (modify g : Act σ ω Unit).state s = g s := rfl

@[simp] theorem obs_modify (g : σ → σ) : (modify g : Act σ ω Unit).obs s = [] := rfl

@[simp] theorem state_say (o : σ → ω) : (say o : Act σ ω Unit).state s = s := rfl

@[simp] theorem obs_say (o : σ → ω) : (say o : Act σ ω Unit).obs s = [o s] := rfl

@[simp] theorem state_zoom (read : τ → σ) (write : σ → τ → τ) (t : τ) :
    (zoom read write x).state t = write (x.state (read t)) t := rfl

@[simp] theorem obs_zoom (read : τ → σ) (write : σ → τ → τ) (t : τ) :
    (zoom read write x).obs t = x.obs (read t) := rfl

@[simp] theorem value_zoom (read : τ → σ) (write : σ → τ → τ) (t : τ) :
    (zoom read write x).value t = x.value (read t) := rfl

end Act

/-! ### Chains -/

variable {τ ω : Type} {R : τ → List ω → τ → Prop} {s s' s'' : τ} {o o' : List ω}

/-- `Chain R s o s'`: finitely many `R`-steps lead from `s` to `s'`, and `o` is what
they observe, in order. -/
inductive Chain (R : τ → List ω → τ → Prop) : τ → List ω → τ → Prop
  /-- No step. -/
  | nil (s : τ) : Chain R s [] s
  /-- One step and the rest of the chain. -/
  | cons {s s' s'' : τ} {o o' : List ω} : R s o s' → Chain R s' o' s'' → Chain R s (o ++ o') s''

theorem Chain.single (hR : R s o s') : Chain R s o s' := by
  simpa using Chain.cons hR (Chain.nil s')

theorem Chain.append (hc : Chain R s o s') (hc' : Chain R s' o' s'') :
    Chain R s (o ++ o') s'' := by
  induction hc with
  | nil => exact hc'
  | cons hR _ ih =>
    rw [List.append_assoc]
    exact .cons hR (ih hc')

/-- **The induction rule for chains.** -/
theorem Chain.invariant {I : List ω → τ → Prop}
    (hstep : ∀ {h s o s'}, I h s → R s o s' → I (h ++ o) s')
    (hc : Chain R s o s') {h : List ω} (hI : I h s) : I (h ++ o) s' := by
  induction hc generalizing h with
  | nil => simpa using hI
  | cons hR _ ih =>
    rw [← List.append_assoc]
    exact ih (hstep hI hR)

/-! ### Computations that perform a relation -/

variable {σ α β : Type} {π : σ → τ} {P P' : σ → Prop} {Q Q' : α → σ → Prop}

/-- Started where `P` holds, the computation `x` ends where `Q` holds of its value, and
through `π` it is a chain of `R`-steps. -/
def Performs (π : σ → τ) (R : τ → List ω → τ → Prop) (P : σ → Prop) (x : Act σ ω α)
    (Q : α → σ → Prop) : Prop :=
  ∀ s, P s → Chain R (π s) (x.obs s) (π (x.state s)) ∧ Q (x.value s) (x.state s)

theorem Performs.pure {a : α} (hQ : ∀ s, P s → Q a s) :
    Performs π R P (Pure.pure a : Act σ ω α) Q :=
  fun s hs => ⟨.nil (π s), hQ s hs⟩

theorem Performs.get {Q : σ → σ → Prop} (hQ : ∀ s, P s → Q s s) :
    Performs π R P (Act.get : Act σ ω σ) Q :=
  fun s hs => ⟨.nil (π s), hQ s hs⟩

theorem Performs.bind {x : Act σ ω α} {f : α → Act σ ω β} {Q' : β → σ → Prop}
    (hx : Performs π R P x Q) (hf : ∀ a, Performs π R (Q a) (f a) Q') :
    Performs π R P (x >>= f) Q' := by
  intro s hs
  obtain ⟨hc, hq⟩ := hx s hs
  obtain ⟨hc', hq'⟩ := hf _ _ hq
  exact ⟨hc.append hc', hq'⟩

/-- The rule of consequence. -/
theorem Performs.weaken {x : Act σ ω α} (hx : Performs π R P x Q)
    (hP : ∀ s, P' s → P s) (hQ : ∀ a s, Q a s → Q' a s) : Performs π R P' x Q' := by
  intro s hs
  obtain ⟨hc, hq⟩ := hx s (hP s hs)
  exact ⟨hc, hQ _ _ hq⟩

/-- A change that `π` does not see is no step at all. -/
theorem Performs.modify {g : σ → σ} {Q : Unit → σ → Prop} (hπ : ∀ s, π (g s) = π s)
    (hQ : ∀ s, P s → Q () (g s)) : Performs π R P (Act.modify g : Act σ ω Unit) Q := by
  intro s hs
  have hc := Chain.nil (R := R) (π s)
  exact ⟨by simpa [hπ s] using hc, hQ s hs⟩

/-- A change `π` does see, taken together with what follows it. -/
theorem Performs.modify_bind {g : σ → σ} {x : Act σ ω α}
    (hx : ∀ s, P s → Chain R (π s) (x.obs (g s)) (π (x.state (g s))) ∧
      Q (x.value (g s)) (x.state (g s))) :
    Performs π R P (Act.modify g >>= fun _ => x) Q := hx

/-- Running one computation for every element of a list. -/
theorem Performs.forM {ι : Type} {f : ι → Act σ ω PUnit} (is : List ι)
    (hf : ∀ i ∈ is, Performs π R P (f i) fun _ => P) :
    Performs π R P (is.forM f) fun _ => P := by
  induction is with
  | nil => exact .pure fun _ hs => hs
  | cons i is ih =>
    refine .bind (hf i (List.mem_cons_self ..)) fun _ => ih fun j hj => ?_
    exact hf j (List.mem_cons_of_mem _ hj)

/-! ### Where a computation leaves its state -/

/-- Wherever it starts, the computation ends where `Q` holds of its value. -/
def Leaves (Q : α → σ → Prop) (x : Act σ ω α) : Prop := ∀ s, Q (x.value s) (x.state s)

theorem Leaves.pure {a : α} (hQ : ∀ s, Q a s) : Leaves Q (Pure.pure a : Act σ ω α) := hQ

/-- What the second computation ends with, both do. -/
theorem Leaves.bind {x : Act σ ω α} {f : α → Act σ ω β} {Q : β → σ → Prop}
    (hf : ∀ a, Leaves Q (f a)) : Leaves Q (x >>= f) := fun _ => hf _ _

/-! ### Pre- and postconditions -/

/-- Started where `P` holds, the computation ends where `Q` holds of its value. -/
def Ensures (P : σ → Prop) (x : Act σ ω α) (Q : α → σ → Prop) : Prop :=
  ∀ s, P s → Q (x.value s) (x.state s)

namespace Ensures

variable {x : Act σ ω α}

theorem pure {a : α} (hQ : ∀ s, P s → Q a s) : Ensures P (Pure.pure a : Act σ ω α) Q := hQ

theorem get {Q : σ → σ → Prop} (hQ : ∀ s, P s → Q s s) :
    Ensures P (Act.get : Act σ ω σ) Q := hQ

theorem modify {g : σ → σ} {Q : Unit → σ → Prop} (hQ : ∀ s, P s → Q () (g s)) :
    Ensures P (Act.modify g : Act σ ω Unit) Q := hQ

theorem bind {f : α → Act σ ω β} {Q' : β → σ → Prop} (hx : Ensures P x Q)
    (hf : ∀ a, Ensures (Q a) (f a) Q') : Ensures P (x >>= f) Q' :=
  fun s hs => hf _ _ (hx s hs)

/-- The rule of consequence. -/
theorem weaken (hx : Ensures P x Q) (hP : ∀ s, P' s → P s) (hQ : ∀ a s, Q a s → Q' a s) :
    Ensures P' x Q' :=
  fun s hs => hQ _ _ (hx s (hP s hs))

end Ensures

/-! ### What a computation shows -/

/-- Every observation a computation makes satisfies `P`. -/
def Shows (P : ω → Prop) (x : Act σ ω α) : Prop := ∀ s, ∀ o ∈ x.obs s, P o

namespace Shows

variable {P : ω → Prop} {x : Act σ ω α} {f : α → Act σ ω β}

theorem pure (a : α) : Shows P (Pure.pure a : Act σ ω α) := fun s o ho => by simp at ho

theorem get : Shows P (Act.get : Act σ ω σ) := fun s o ho => by simp at ho

theorem modify (g : σ → σ) : Shows P (Act.modify g : Act σ ω Unit) := fun s o ho => by simp at ho

theorem say {g : σ → ω} (hg : ∀ s, P (g s)) : Shows P (Act.say g : Act σ ω Unit) := by
  intro s o ho
  rw [Act.obs_say, List.mem_singleton] at ho
  exact ho ▸ hg s

theorem zoom {read : τ → σ} {write : σ → τ → τ} (hx : Shows P x) :
    Shows P (Act.zoom read write x) := fun t => hx (read t)

theorem bind (hx : Shows P x) (hf : ∀ a, Shows P (f a)) : Shows P (x >>= f) := by
  intro s o ho
  rw [Act.obs_bind, List.mem_append] at ho
  rcases ho with ho | ho
  · exact hx s o ho
  · exact hf _ _ o ho

theorem forM {ι : Type} {f : ι → Act σ ω PUnit} (is : List ι) (hf : ∀ i, Shows P (f i)) :
    Shows P (is.forM f) := by
  induction is with
  | nil => exact .pure _
  | cons i is ih => exact .bind (hf i) fun _ => ih

end Shows

end Machine
