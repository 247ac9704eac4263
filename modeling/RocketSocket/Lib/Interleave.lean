import Mathlib.Data.Multiset.AddSub
import RocketSocket.Lib.History

/-!
# Interleaved calls

Several callers share one state.  A call is the list of the accesses it still has to make;
each access is atomic, and may add accesses that its call makes next.  Between two accesses
of one call the others run as they please.

## Main definitions

* `Pool σ α` — the shared state and the calls in progress.
* `Pool.step begin exec` — a call begins, or makes its next access.
* `Made` — the observation of an access: the state before it and all the accesses pending.
* `Pool.Idle` — no call is in progress.
* `Alone exec l s s'` — the accesses `l`, made without interruption, lead from `s` to `s'`.

## Main results

* `Pool.invariant` — the induction rule: an invariant of the shared state and of the pending
  accesses, which a call extends and an access takes one from.
* `Pool.exists_run_of_alone` — a call that is not interrupted is one of the interleavings.
-/

namespace Machine

variable {σ α κ : Type*}

/-- A shared state, and for each call the accesses it still has to make. -/
structure Pool (σ α : Type*) where
  shared : σ
  calls : List (List α) := []

/-- Who moves. -/
inductive PoolInput (κ : Type*) where
  /-- A new call begins. -/
  | call (k : κ)
  /-- A call in progress makes its next access. -/
  | step (i : ℕ)

/-- An access was made: the state it found, and all the accesses pending beside it, the rest
of its own call included. -/
structure Made (σ α : Type*) where
  before : σ
  access : α
  pending : Multiset α

namespace Pool

/-- All the accesses still to be made. -/
def pending (p : Pool σ α) : Multiset α := p.calls.flatten

/-- No call is in progress. -/
def Idle (p : Pool σ α) : Prop := ∀ call ∈ p.calls, call.isEmpty

instance (p : Pool σ α) : Decidable p.Idle :=
  inferInstanceAs (Decidable (∀ call ∈ p.calls, call.isEmpty = true))

/-- `begin s k` are the accesses a call begins with, or `none` if it is not admitted; `exec`
makes one access and says which ones it adds. -/
def step (begin : σ → κ → Option (List α)) (exec : σ → α → σ × List α) (p : Pool σ α) :
    PoolInput κ → Option (Pool σ α × List (Made σ α))
  | .call k => (begin p.shared k).map fun call => ({ p with calls := p.calls ++ [call] }, [])
  | .step i =>
    match p.calls[i]? with
    | some (a :: rest) =>
      let (shared, more) := exec p.shared a
      some ({ shared := shared, calls := p.calls.set i (more ++ rest) },
        [{ before := p.shared, access := a, pending := (p.calls.set i rest).flatten }])
    | _ => none

section Pending

variable {calls : List (List α)} {i : ℕ}

/-- The accesses of one call, beside those of the others. -/
theorem flatten_set_perm {call : List α} (call' : List α) (h : calls[i]? = some call) :
    (((calls.set i call').flatten : List α) : Multiset α) =
      (call' : Multiset α) + ((calls.set i []).flatten : List α) := by
  induction calls generalizing i with
  | nil => simp at h
  | cons first calls ih =>
    cases i with
    | zero => simp
    | succ i =>
      have hrest := ih (i := i) (by simpa using h)
      simp only [List.set_cons_succ, List.flatten_cons, ← Multiset.coe_add] at hrest ⊢
      rw [hrest, ← Multiset.add_assoc, ← Multiset.add_assoc, Multiset.add_comm (first : Multiset α)]

theorem set_self {call : List α} (h : calls[i]? = some call) : calls.set i call = calls := by
  obtain ⟨hi, rfl⟩ := List.getElem?_eq_some_iff.mp h
  exact List.set_getElem_self hi

end Pending

theorem pending_of_idle {p : Pool σ α} (h : p.Idle) : p.pending = 0 := by
  rw [pending, Multiset.coe_eq_zero, List.flatten_eq_nil_iff]
  exact fun call hcall => List.isEmpty_iff.mp (h call hcall)

section Invariant

variable {begin : σ → κ → Option (List α)} {exec : σ → α → σ × List α}
  {s₀ : σ} {p : Pool σ α} {h : List (Made σ α)}

/-- What one step does to the shared state and to the pending accesses. -/
theorem step_cases {i : PoolInput κ} {p' : Pool σ α} {o : List (Made σ α)}
    (hs : step begin exec p i = some (p', o)) :
    (∃ k call, begin p.shared k = some call ∧ o = [] ∧ p'.shared = p.shared ∧
        p'.pending = (call : Multiset α) + p.pending) ∨
      ∃ a rest, o = [⟨p.shared, a, rest⟩] ∧ p.pending = a ::ₘ rest ∧
        p'.shared = (exec p.shared a).1 ∧
        p'.pending = ((exec p.shared a).2 : Multiset α) + rest := by
  cases i with
  | call k =>
    simp only [step, Option.map_eq_some_iff, Prod.mk.injEq] at hs
    obtain ⟨call, hcall, rfl, rfl⟩ := hs
    -- The call's accesses are added to those that are pending.
    refine .inl ⟨k, call, hcall, rfl, rfl, ?_⟩
    rw [pending, pending, List.flatten_append, ← Multiset.coe_add, List.flatten_singleton,
      Multiset.add_comm]
  | step i =>
    simp only [step] at hs
    split at hs
    · next a rest hi =>
      simp only [Option.some.injEq, Prod.mk.injEq] at hs
      obtain ⟨rfl, rfl⟩ := hs
      -- Its first access is made, and the rest stays pending.
      have hrest := flatten_set_perm rest hi
      refine .inr ⟨a, _, rfl, ?_, rfl, ?_⟩
      · have hall := flatten_set_perm (a :: rest) hi
        rw [set_self hi] at hall
        rw [pending, hall, hrest, ← Multiset.cons_coe, Multiset.cons_add]
      · rw [pending, flatten_set_perm _ hi, hrest, ← Multiset.coe_add, Multiset.add_assoc]
    · cases hs

/-- **The induction rule.**  An invariant of the shared state and of the pending accesses
holds initially, when nothing is pending; a call adds accesses; and an access that meets the
condition is replaced by those it adds. -/
theorem invariant {I : σ → Multiset α → Prop} {M : Made σ α → Prop} (hstart : I s₀ 0)
    (hcall : ∀ s l k call, I s l → begin s k = some call → I s ((call : Multiset α) + l))
    (hexec : ∀ s a l, I s (a ::ₘ l) → M ⟨s, a, l⟩ →
      I (exec s a).1 (((exec s a).2 : Multiset α) + l))
    (hrun : Run (step begin exec) ⟨s₀, []⟩ h p) (hall : ∀ m ∈ h, M m) :
    I p.shared p.pending := by
  revert hall
  induction hrun with
  | start => exact fun _ => hstart
  | @step h p p' i o _ hs ih =>
    intro hall
    have hI := ih fun m hm => hall m (List.mem_append_left _ hm)
    rcases step_cases hs with ⟨k, call, hcall', -, hshared, hpending⟩ |
      ⟨a, rest, rfl, hrest, hshared, hpending⟩
    · rw [hshared, hpending]
      exact hcall _ _ k call hI hcall'
    · rw [hshared, hpending]
      rw [hrest] at hI
      exact hexec _ a rest hI (hall _ (by simp))

end Invariant

end Pool

/-! ### A call that is not interrupted -/

/-- The accesses `l`, and those they add, made one after the other. -/
inductive Alone (exec : σ → α → σ × List α) : List α → σ → σ → Prop
  | nil {s : σ} : Alone exec [] s s
  | cons {a : α} {rest : List α} {s s' : σ} :
      Alone exec ((exec s a).2 ++ rest) (exec s a).1 s' → Alone exec (a :: rest) s s'

variable {begin : σ → κ → Option (List α)} {exec : σ → α → σ × List α} {s s' s'' : σ}

theorem Alone.append {l l' : List α} (h : Alone exec l s s') (h' : Alone exec l' s' s'') :
    Alone exec (l ++ l') s s'' := by
  induction h with
  | nil => exact h'
  | cons _ ih =>
    refine .cons ?_
    have hrest := ih h'
    rwa [List.append_assoc] at hrest

/-- An access, what it adds, and then the rest of the call. -/
theorem Alone.access {a : α} {rest : List α} (hadded : Alone exec (exec s a).2 (exec s a).1 s')
    (hrest : Alone exec rest s' s'') : Alone exec (a :: rest) s s'' :=
  .cons (hadded.append hrest)

namespace Pool

/-- A call in progress can run to its end without interruption. -/
theorem exists_run_of_alone {calls : List (List α)} {i : ℕ} {l : List α} {s₀ : Pool σ α}
    {h : List (Made σ α)} (halone : Alone exec l s s') (hi : calls[i]? = some l)
    (hrun : Run (step begin exec) s₀ h ⟨s, calls⟩) :
    ∃ h', Run (step begin exec) s₀ h' ⟨s', calls.set i []⟩ := by
  induction halone generalizing calls h with
  | nil =>
    rw [set_self hi]
    exact ⟨h, hrun⟩
  | @cons a rest s s' _ ih =>
    have hlt := (List.getElem?_eq_some_iff.mp hi).1
    have hs : step begin exec ⟨s, calls⟩ (.step i) = some
        (⟨(exec s a).1, calls.set i ((exec s a).2 ++ rest)⟩,
          [⟨s, a, (calls.set i rest).flatten⟩]) := by
      simp [step, hi]
    obtain ⟨h', hrun'⟩ := ih (by simp [hlt]) (hrun.step hs)
    rw [List.set_set] at hrun'
    exact ⟨h', hrun'⟩

/-- A whole call can be made without interruption: it leaves an idle pool idle. -/
theorem exists_run_of_call {k : κ} {call : List α} {calls : List (List α)} {s₀ : Pool σ α}
    {h : List (Made σ α)} (hbegin : begin s k = some call) (halone : Alone exec call s s')
    (hidle : Idle ⟨s, calls⟩) (hrun : Run (step begin exec) s₀ h ⟨s, calls⟩) :
    ∃ h' calls', Idle ⟨s', calls'⟩ ∧ Run (step begin exec) s₀ h' ⟨s', calls'⟩ := by
  have hs : step begin exec ⟨s, calls⟩ (.call k) = some (⟨s, calls ++ [call]⟩, []) := by
    simp [step, hbegin]
  obtain ⟨h', hrun'⟩ := exists_run_of_alone halone (i := calls.length) (by simp) (hrun.step hs)
  refine ⟨h', calls ++ [[]], ?_, ?_⟩
  · intro c hc
    rcases List.mem_append.mp hc with hc | hc
    · exact hidle c hc
    · rw [List.mem_singleton.mp hc]
      rfl
  · rwa [List.set_append_right _ _ le_rfl, Nat.sub_self] at hrun'

end Pool

end Machine
