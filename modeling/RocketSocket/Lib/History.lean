import Mathlib.Data.List.Infix
import Mathlib.Tactic.Common

/-!
# Machines with a history

A machine is a partial function from a state and an input to a new state and the
observations the step makes.  Everything said about whole runs is said about the
list of the observations made so far, the *history*, and the state reached.

## Main definitions

* `Machine.Run step s₀ h s` — a run from `s₀` that made the observations `h` and
  reached `s`.
* `Machine.execute step s is` — the run over a fixed list of inputs, computed.
* `Machine.restrict P step` — the steps of a machine that meet a condition.
* `Machine.Each P h` — every observation of `h` satisfies `P` at its prefix.

## Main results

* `Run.invariant` — the induction rule for runs.
* `run_of_execute` — a computed run is a run.
* `getElem?_of_set`, `getElem?_of_concat` — the parties, after one of them moved or came.
* `each_append` — what a step has to prove of the observations it makes.
-/

namespace Machine

variable {σ ι ω : Type*}

/-! ### Runs -/

/-- `Run step s₀ h s`: some sequence of inputs leads from `s₀` to `s`, and `h` is
the list of the observations made on the way, in order. -/
inductive Run (step : σ → ι → Option (σ × List ω)) (s₀ : σ) : List ω → σ → Prop
  /-- The run without a step. -/
  | start : Run step s₀ [] s₀
  /-- One more step. -/
  | step {h : List ω} {s s' : σ} {i : ι} {o : List ω} :
      Run step s₀ h s → step s i = some (s', o) → Run step s₀ (h ++ o) s'

variable {step : σ → ι → Option (σ × List ω)} {s₀ s : σ} {h : List ω}

/-- **The induction rule.**  What holds of the initial state and the empty history,
and is preserved by every step, holds at the end of every run. -/
theorem Run.invariant {I : List ω → σ → Prop} (hstart : I [] s₀)
    (hstep : ∀ {h s i s' o}, I h s → step s i = some (s', o) → I (h ++ o) s')
    (hrun : Run step s₀ h s) : I h s := by
  induction hrun with
  | start => exact hstart
  | step _ hs ih => exact hstep ih hs

/-- The induction rule with an invariant already established. -/
theorem Run.invariant_of {J I : List ω → σ → Prop} (hJ : ∀ {h s}, Run step s₀ h s → J h s)
    (hstart : I [] s₀)
    (hstep : ∀ {h s i s' o}, J h s → I h s → step s i = some (s', o) → I (h ++ o) s')
    (hrun : Run step s₀ h s) : I h s := by
  induction hrun with
  | start => exact hstart
  | step hr hs ih => exact hstep (hJ hr) ih hs

/-- One run after another. -/
theorem Run.trans {h' : List ω} {s' : σ} (hrun : Run step s₀ h s) (hrun' : Run step s h' s') :
    Run step s₀ (h ++ h') s' := by
  induction hrun' with
  | start => rwa [List.append_nil]
  | step _ hs ih =>
    rw [← List.append_assoc]
    exact ih.step hs

/-- The run over a given list of inputs. -/
def execute (step : σ → ι → Option (σ × List ω)) : σ → List ι → Option (σ × List ω)
  | s, [] => some (s, [])
  | s, i :: is =>
    (step s i).bind fun p => (execute step p.1 is).map fun q => (q.1, p.2 ++ q.2)

/-- The first input is done, then the others. -/
theorem execute_cons_eq_some {i : ι} {is : List ι} {s' : σ} :
    execute step s (i :: is) = some (s', h) ↔ ∃ s₁ o₁ o₂,
      step s i = some (s₁, o₁) ∧ execute step s₁ is = some (s', o₂) ∧ h = o₁ ++ o₂ := by
  simp only [execute, Option.bind_eq_some_iff, Option.map_eq_some_iff]
  constructor
  · rintro ⟨⟨s₁, o₁⟩, hs, ⟨s₂, o₂⟩, he, heq⟩
    cases heq
    exact ⟨s₁, o₁, o₂, hs, he, rfl⟩
  · rintro ⟨s₁, o₁, o₂, hs, he, rfl⟩
    exact ⟨(s₁, o₁), hs, (s', o₂), he, rfl⟩

/-- A run can be continued by a computed one. -/
theorem Run.execute_append {is : List ι} {s' : σ} {o : List ω} (hrun : Run step s₀ h s)
    (he : execute step s is = some (s', o)) : Run step s₀ (h ++ o) s' := by
  induction is generalizing h s o with
  | nil =>
    simp only [execute, Option.some.injEq, Prod.mk.injEq] at he
    obtain ⟨rfl, rfl⟩ := he
    simpa using hrun
  | cons i is ih =>
    obtain ⟨s₁, o₁, o₂, hs, hrest, rfl⟩ := execute_cons_eq_some.mp he
    rw [← List.append_assoc]
    exact ih (hrun.step hs) hrest

/-- A computed run is a run. -/
theorem run_of_execute {is : List ι} (he : execute step s₀ is = some (s, h)) :
    Run step s₀ h s := by
  simpa using Run.start.execute_append he

/-- The run over inputs that are all enabled. -/
theorem run_execute (is : List ι) (he : (execute step s₀ is).isSome) :
    Run step s₀ ((execute step s₀ is).get he).2 ((execute step s₀ is).get he).1 :=
  run_of_execute (Option.some_get he).symm

/-- Runs of one machine seen as runs of another: each step of the first is a run of
the second, its observations translated by `f`. -/
theorem Run.simulate {σ' ι' ω' : Type*} {step' : σ' → ι' → Option (σ' × List ω')}
    {π : σ → σ'} {f : ω → Option ω'}
    (hsim : ∀ {s i s' o}, step s i = some (s', o) →
      (∃ i', step' (π s) i' = some (π s', o.filterMap f)) ∨
        (π s' = π s ∧ o.filterMap f = []))
    (hrun : Run step s₀ h s) : Run step' (π s₀) (h.filterMap f) (π s) := by
  induction hrun with
  | start => exact .start
  | step _ hs ih =>
    rw [List.filterMap_append]
    rcases hsim hs with ⟨i', hi'⟩ | ⟨hs', ho⟩
    · exact ih.step hi'
    · rw [hs', ho, List.append_nil]
      exact ih

/-- The steps whose input meets a condition in the state before it. -/
def restrict (P : σ → ι → Prop) [∀ s i, Decidable (P s i)] (step : σ → ι → Option (σ × List ω)) :
    σ → ι → Option (σ × List ω) := fun s i => if P s i then step s i else none

theorem restrict_eq_some {P : σ → ι → Prop} [∀ s i, Decidable (P s i)] {i : ι} {s' : σ}
    {o : List ω} : restrict P step s i = some (s', o) ↔ P s i ∧ step s i = some (s', o) :=
  Option.ite_none_right_eq_some

/-- Runs whose steps all meet the condition are runs. -/
theorem Run.of_restrict {P : σ → ι → Prop} [∀ s i, Decidable (P s i)]
    (hrun : Run (restrict P step) s₀ h s) : Run step s₀ h s := by
  induction hrun with
  | start => exact .start
  | step _ hs ih => exact ih.step (restrict_eq_some.1 hs).2

/-! ### Lists of parties -/

section Parties

variable {α : Type*} {l : List α} {x y : α} {n m : ℕ}

/-- Where one party moved, a party is that one, or as it was. -/
theorem getElem?_of_set (hm : (l.set n x)[m]? = some y) :
    m = n ∧ y = x ∨ m ≠ n ∧ l[m]? = some y := by
  rw [List.getElem?_set] at hm
  split at hm
  · next heq =>
    split at hm
    · exact .inl ⟨heq.symm, (Option.some.inj hm).symm⟩
    · cases hm
  · next hne => exact .inr ⟨Ne.symm hne, hm⟩

/-- Where a party came, a party is that one, or as it was. -/
theorem getElem?_of_concat (hm : (l ++ [x])[m]? = some y) :
    m = l.length ∧ y = x ∨ l[m]? = some y := by
  rcases Nat.lt_or_ge m l.length with hlt | hge
  · rw [List.getElem?_append_left hlt] at hm
    exact .inr hm
  · have hlt := (List.getElem?_eq_some_iff.1 hm).1
    rw [List.length_append, List.length_singleton] at hlt
    obtain rfl : m = l.length := by omega
    rw [List.getElem?_concat_length] at hm
    exact .inl ⟨rfl, (Option.some.inj hm).symm⟩

end Parties

/-! ### Properties of single observations -/

/-- Every observation of `h` satisfies `P` at the history before it. -/
def Each (P : List ω → ω → Prop) (h : List ω) : Prop :=
  ∀ pre x post, h = pre ++ x :: post → P pre x

variable {P : List ω → ω → Prop} {o : List ω} {x : ω}

@[simp] theorem each_nil : Each P [] := by
  intro pre x post h
  simp at h

/-- What `h ++ o` adds to `h` is checked at the prefixes that end in `o`. -/
theorem each_append :
    Each P (h ++ o) ↔ Each P h ∧ Each (fun pre x => P (h ++ pre) x) o := by
  constructor
  · refine fun he => ⟨fun pre x post hp => ?_, fun pre x post hp => ?_⟩
    · exact he pre x (post ++ o) (by simp [hp])
    · exact he (h ++ pre) x post (by simp [hp])
  · rintro ⟨hh, ho⟩ pre x post hp
    rcases List.append_eq_append_iff.mp hp with ⟨l, rfl, hl⟩ | ⟨l, hl, hr⟩
    · exact ho l x post hl
    · cases l with
      | nil =>
        obtain rfl : h = pre := by simpa using hl
        simpa using ho [] x post (by simpa using hr.symm)
      | cons y l =>
        simp only [List.cons_append, List.cons.injEq] at hr
        obtain ⟨rfl, rfl⟩ := hr
        exact hh pre x l hl

@[simp] theorem each_singleton : Each P [x] ↔ P [] x := by
  constructor
  · exact fun he => he [] x [] rfl
  · intro hx pre y post hp
    cases pre with
    | nil =>
      simp only [List.nil_append, List.cons.injEq] at hp
      exact hp.1 ▸ hx
    | cons z pre => simp at hp

theorem each_cons : Each P (x :: h) ↔ P [] x ∧ Each (fun pre y => P (x :: pre) y) h := by
  have := each_append (P := P) (h := [x]) (o := h)
  simpa using this

theorem Each.mono {Q : List ω → ω → Prop} (he : Each P h) (hPQ : ∀ pre x, P pre x → Q pre x) :
    Each Q h :=
  fun pre x post hp => hPQ pre x (he pre x post hp)

theorem each_snoc : Each P (h ++ [x]) ↔ Each P h ∧ P h x := by
  rw [each_append, each_singleton, List.append_nil]

theorem Each.of_append (he : Each P (h ++ o)) : Each P h := (each_append.mp he).1

/-- A property that can be decided of an observation can be decided of a history. -/
instance Each.decidable : (P : List ω → ω → Prop) → [∀ pre x, Decidable (P pre x)] →
    (h : List ω) → Decidable (Each P h)
  | _, _, [] => isTrue each_nil
  | P, _, x :: h =>
    have := Each.decidable (fun pre y => P (x :: pre) y) h
    decidable_of_iff _ each_cons.symm

end Machine
