import RocketSocket.Framework.Dispatch
import RocketSocket.Framework.Fences

/-!
# Grants across a gap in the event stream

An event that was missed may have been the one that revoked a role.  After a reconnect
`observe` drops every snapshot, so nothing fetched before it is granted from any more.  Where
the ring of events overran, nothing is dropped: the snapshots cached by then stand.

## Main definitions

* `DecodedEvent.ReportsGap` — the events that say that others may have been missed.
* `NoGrantSurvives` — no later check is granted from a snapshot fetched before the event.
* `RoleDirectory.Blank` — nothing that was fetched so far can be granted from.

## Main results

* `invalidations_of_observed` — `observe` is over when its invalidating call is.
* `noGrantSurvives_of_blank` — **no grant survives the gap**, if there is none when the ring
  overran.
* `not_noGrantSurvives` — an overrun of the ring does not drop the snapshots.
-/

namespace RocketSocket

open Machine

namespace DecodedEvent

/-- The ring of events overran, and some were lost. -/
def IsLagged : DecodedEvent → Prop
  | .connection (.lagged _) => True
  | _ => False

/-- The event says that stream events may have been missed. -/
def ReportsGap : DecodedEvent → Prop
  | .resubscribed .. => True
  | .connection (.lagged _) => True
  | _ => False

end DecodedEvent

/-- No slot that a lookup would obtain admits anybody, or has a fetch in flight. -/
def RoleDirectory.Blank (d : RoleDirectory) : Prop :=
  ∀ lookup i, d.currentSlot lookup = some i →
    (∀ (slot : Slot) (e : RoleEntry), d.slots[i]? = some slot → slot.entry = some e →
      ¬ Admits d.config d.now e) ∧
    ∀ (n : ℕ) (check : Check) (t : Instant) (g : ℕ), d.checks[n]? = some check →
      check.phase ≠ .fetching i t g

namespace Framework

/-- **No grant survives the event** that is dispatched next: once it has been observed, no call
of the directory that a `dispatch` makes is granted from an answer whose fetch was started
before the event. -/
def NoGrantSurvives (h₁ : List DispatchNote) (f₁ : Framework) (event : DecodedEvent) : Prop :=
  ∀ (f₂ f₃ f₄ : Framework) (o h₂ h₃ : List DispatchNote) (i j n : ℕ) (lookup : Lookup)
    (e : RoleEntry) (t : Instant) (user : UserId),
    f₁.step (.dispatch event) = some (f₂, o) →
    Run step f₂ h₂ f₃ → .observed f₁.dispatches.length ∈ h₂ →
    Run step f₃ h₃ f₄ → .checking i j n ∈ h₃ → .role (.answered n lookup e t) ∈ h₃ →
    e.grants user = true → ∀ m l s, .role (.started e.fetch m l s) ∉ h₁

variable {f f' f₁ f₂ f₃ f₄ : Framework} {h h₁ h₂ h₃ notes o : List DispatchNote}
  {event : DecodedEvent} {i j k n : ℕ} {d : Dispatch} {phase : DispatchPhase}

/-! ### What `observe` does -/

theorem Goes.eq_of_observed (hgoes : f.Goes k d phase f₁ notes) (hmem : .observed i ∈ notes) :
    i = k := by
  cases hgoes with
  | observed => simpa using hmem
  | _ => simp at hmem

/-- A call in `observe` stays there until its invalidating call has returned. -/
theorem observing_move (hmove : Moves f f' notes) {call : Option ℕ}
    (hi : f.dispatches[i]? = some d) (hphase : d.phase = .observing call) :
    (f'.dispatches[i]? = some d ∧ .observed i ∉ notes) ∨
      ((∀ k ∈ call, f.roles.invalidations[k]? = some []) ∧ f'.roles = f.roles) := by
  cases hmove with
  | dispatch event =>
    refine .inl ⟨?_, by simp [beginDispatch]⟩
    change (f.dispatches ++ [_])[i]? = some d
    rw [List.getElem?_append_left (List.getElem?_eq_some_iff.mp hi).1, hi]
  | @goes k d' phase f₁ notes hk hgoes =>
    -- The dispatch itself goes on, or another one does.
    by_cases hik : i = k
    · subst hik
      obtain rfl : d = d' := Option.some.inj (hi.symm.trans hk)
      cases hgoes with
      | observed hphase' hreturned =>
        obtain rfl := DispatchPhase.observing.inj (hphase.symm.trans hphase')
        exact .inr ⟨hreturned, rfl⟩
      | cancel hsuspended =>
        rw [hphase] at hsuspended
        cases hsuspended
      | ask hphase' => cases hphase.symm.trans hphase'
      | finish hphase' => cases hphase.symm.trans hphase'
      | unfiltered hphase' => cases hphase.symm.trans hphase'
      | skip hphase' => cases hphase.symm.trans hphase'
      | identify hphase' => cases hphase.symm.trans hphase'
      | read hphase' => cases hphase.symm.trans hphase'
      | fill hphase' => cases hphase.symm.trans hphase'
      | deny hphase' => cases hphase.symm.trans hphase'
      | grant hphase' => cases hphase.symm.trans hphase'
      | resume hphase' => cases hphase.symm.trans hphase'
    · refine .inl ⟨?_, fun hmem => hik (hgoes.eq_of_observed hmem)⟩
      change (f₁.dispatches.set k _)[i]? = some d
      rw [hgoes.dispatches, List.getElem?_set_ne (Ne.symm hik), hi]
  | setCredentials => exact .inl ⟨hi, by simp⟩
  | roles => exact .inl ⟨hi, by simp⟩

/-- **`observe` is over when its invalidating call has returned.** -/
theorem invalidations_of_observed (hi : f₁.dispatches[i]? = some d)
    (hphase : d.phase = .observing (some k)) (hrun : Run step f₁ h f)
    (hobserved : .observed i ∈ h) : f.roles.invalidations[k]? = some [] := by
  have hinv : (f.dispatches[i]? = some d ∧ .observed i ∉ h) ∨
      f.roles.invalidations[k]? = some [] := by
    refine hrun.invariant (I := fun h f => (f.dispatches[i]? = some d ∧ .observed i ∉ h) ∨
      f.roles.invalidations[k]? = some []) (.inl ⟨hi, List.not_mem_nil⟩) ?_
    intro h f input f' o hinv hstep
    have hmove := moves_of_step hstep
    rcases hinv with ⟨hi, hnot⟩ | hreturned
    · rcases observing_move hmove hi hphase with ⟨hi', hnot'⟩ | ⟨hreturned, hroles⟩
      · exact .inl ⟨hi', by simp [hnot, hnot']⟩
      · exact .inr (hroles ▸ hreturned k rfl)
    · exact .inr (RoleDirectory.returned_of_run hreturned (roles_of_run (Run.start.step hstep)))
  rcases hinv with ⟨-, hnot⟩ | hreturned
  · exact absurd hobserved hnot
  · exact hreturned

/-- A call of the directory is numbered when a `dispatch` makes it. -/
theorem checking_move (hmove : Moves f f' notes) (hmem : .checking i j n ∈ notes) :
    n = f.roles.checks.length := by
  cases hmove with
  | dispatch event => simp [beginDispatch] at hmem
  | goes hi hgoes =>
    cases hgoes with
    | ask =>
      simp only [List.mem_cons, DispatchNote.checking.injEq, List.mem_map, reduceCtorEq, and_false,
        exists_false, or_false] at hmem
      exact hmem.2.2
    | _ => simp at hmem
  | setCredentials => simp at hmem
  | roles => simp at hmem

/-- The calls of the directory that are made in a run are numbered from those before it on. -/
theorem length_le_of_checking (hrun : Run step f₁ h f) (hmem : .checking i j n ∈ h) :
    f₁.roles.checks.length ≤ n := by
  have hinv : f₁.roles.checks.length ≤ f.roles.checks.length ∧
      (.checking i j n ∈ h → f₁.roles.checks.length ≤ n) := by
    refine hrun.invariant (I := fun h f => f₁.roles.checks.length ≤ f.roles.checks.length ∧
      (.checking i j n ∈ h → f₁.roles.checks.length ≤ n)) ⟨le_rfl, by simp⟩ ?_
    rintro h f input f' o ⟨hle, hn⟩ hstep
    have hmove := moves_of_step hstep
    refine ⟨?_, fun hmem => ?_⟩
    · rcases roles_move hmove with ⟨_, hroles⟩ | ⟨hroles, -⟩
      · exact hle.trans (RoleDirectory.later_move (RoleDirectory.moves_of_step hroles)).checks
      · exact hroles ▸ hle
    · rcases List.mem_append.mp hmem with hmem | hmem
      · exact hn hmem
      · exact (checking_move hmove hmem).symm ▸ hle
  exact hinv.2 hmem

/-! ### Behind the gap -/

variable {handlers : List Handler} {config : RoleCacheConfig} {credentials : Option UserId}

theorem fenced_of_blank {d : RoleDirectory} (hblank : d.Blank) (lookup : Lookup) :
    d.Fenced (RoleDirectory.Admits d.config d.now) d.fetches lookup := by
  intro i hi
  obtain ⟨hentry, hflight⟩ := hblank lookup i hi
  constructor
  · exact fun slot e hslot he hadmits => absurd hadmits (hentry slot e hslot he)
  · exact fun n check t g hcheck hphase => absurd hphase (hflight n check t g hcheck)

/-- **Behind the gap every lookup is fenced**: after a reconnect, since every slot was dropped;
after an overrun of the ring, if there was nothing to drop. -/
theorem fenced_of_observed (hbefore : Run step (init handlers config credentials) h₁ f₁)
    (hgap : event.ReportsGap) (hblank : event.IsLagged → f₁.roles.Blank)
    (hdispatch : f₁.step (.dispatch event) = some (f₂, o)) (hobserve : Run step f₂ h₂ f₃)
    (hobserved : .observed f₁.dispatches.length ∈ h₂) (lookup : Lookup) :
    f₃.roles.Fenced (RoleDirectory.Admits config f₁.roles.now) f₁.roles.fetches lookup := by
  have hroles : Run RoleDirectory.step (.init config) _ f₂.roles :=
    roles_of_run (hbefore.step hdispatch)
  have hduring := roles_of_run hobserve
  have hf₂ : f₂ = (f₁.beginDispatch event).1 := congrArg Prod.fst (Option.some.inj hdispatch).symm
  cases event with
  | stream event => cases hgap
  | resubscribed epoch restored =>
    -- `Dispatcher::observe` drops every slot, and the dispatch waits until it has.
    have hcall : f₂.roles.invalidations[f₁.roles.invalidations.length]? =
        some Invalidation.all.drops := by
      rw [hf₂]
      exact List.getElem?_concat_length ..
    have hi : f₂.dispatches[f₁.dispatches.length]? = some
        { event := .resubscribed epoch restored
          phase := .observing (some f₁.roles.invalidations.length) } := by
      rw [hf₂]
      exact List.getElem?_concat_length ..
    have hfetches : f₁.roles.fetches = f₂.roles.fetches := by rw [hf₂]; rfl
    -- Every lookup is among those it drops.
    have hall : Invalidation.all.Covers lookup := trivial
    obtain ⟨drop, hdrop, hcovers⟩ := Invalidation.exists_drop hall
    rw [hfetches]
    exact RoleDirectory.fenced_of_returned hroles hcall hdrop hcovers hduring
      (invalidations_of_observed hi rfl hobserve hobserved)
  | connection event =>
    cases event with
    | lagged missed =>
      -- `Dispatcher::observe` leaves the directory as it is, so it has to be blank already.
      have hsame : f₂.roles = f₁.roles := by
        rw [hf₂]
        simp [beginDispatch, DecodedEvent.observe]
      rw [hsame] at hroles hduring
      have hfenced := fenced_of_blank (hblank trivial) lookup
      rw [RoleDirectory.config_of_run hroles] at hfenced
      exact (RoleDirectory.Fenced.of_run hroles hfenced le_rfl hduring).2
    | _ => cases hgap

theorem later_of_run {d d' : RoleDirectory} {h : List RoleNote}
    (hrun : Run RoleDirectory.step d h d') : d.Later d' :=
  hrun.invariant (I := fun _ d' => d.Later d') (.refl d) fun hlater hstep =>
    hlater.trans (RoleDirectory.later_move (RoleDirectory.moves_of_step hstep))

/-- **No grant survives the gap.**  In every run, once an event was observed that says that
others may have been missed, no check of a `dispatch` is granted from an answer fetched before
it; for an overrun of the ring, if the directory then held nothing to grant from. -/
theorem noGrantSurvives_of_blank
    (hbefore : Run step (init handlers config credentials) h₁ f₁)
    (hgap : event.ReportsGap) (hblank : event.IsLagged → f₁.roles.Blank) :
    NoGrantSurvives h₁ f₁ event := by
  intro f₂ f₃ f₄ o h₂ h₃ i j n lookup e t user hdispatch hobserve hobserved hafter hchecking
    hanswered hgrants m l s hstarted
  have hroles₁ : Run RoleDirectory.step (.init config) _ f₁.roles := roles_of_run hbefore
  have hroles₂ : Run RoleDirectory.step f₁.roles _ f₃.roles :=
    roles_of_run ((Run.start.step hdispatch).trans hobserve)
  have hlater := later_of_run hroles₂
  -- the check is asked behind the gap, so its answer was fetched behind it
  have hge : f₁.roles.fetches ≤ e.fetch :=
    RoleDirectory.fetched_after_asking (hroles₁.trans hroles₂) hlater.now
      (fenced_of_observed hbefore hgap hblank hdispatch hobserve hobserved) hlater.fetches
      (roles_of_run hafter) (length_le_of_checking hafter hchecking)
      (mem_filterMap_role?.mpr hanswered) hgrants
  -- and what was started before is numbered below that
  have hlt := (RoleDirectory.sound_of_run hroles₁).fetches e.fetch m l s
    (mem_filterMap_role?.mpr hstarted)
  omega

/-! ### Runs -/

/-- A handler for admins only. -/
def adminOnly : List Handler := [{ name := "ban", filters := { authority := .admin } }]

/-- A message of an admin. -/
def adminMessage : DecodedEvent :=
  .stream (.myMessage { rid := ⟨"GENERAL"⟩, u := ⟨"admin"⟩, msg := "!ban" })

/-- The admin is heard, after a fetch. -/
def hearsAdmin : List DispatchInput :=
  [.dispatch adminMessage, .advance 0, .advance 0, .advance 0, .advance 0, .advance 0,
    .roles (.obtain 0 0 []), .roles (.lock 0),
    .roles (.answer 0 (.ok [{ id := ⟨"admin"⟩, roles := [⟨"admin"⟩] }])), .advance 0]

theorem hearsAdmin_enabled :
    (execute step (init adminOnly {} (some ⟨"bot"⟩)) hearsAdmin).isSome := by
  decide +kernel

/-- The state when the admin was heard. -/
def heardAdmin : Framework :=
  ((execute step (init adminOnly {} (some ⟨"bot"⟩)) hearsAdmin).get hearsAdmin_enabled).1

/-- The snapshot it was heard by. -/
def adminEntry : RoleEntry := { holders := some {⟨"admin"⟩}, fetchedAt := 0, fetch := 0 }

/-- Five minutes later the snapshot is stale. -/
def goesStale : List DispatchInput := hearsAdmin ++ [.roles (.tick (.ofSecs 300))]

theorem goesStale_enabled :
    (execute step (init adminOnly {} (some ⟨"bot"⟩)) goesStale).isSome := by
  decide +kernel

/-- The state by then. -/
def goneStale : Framework :=
  ((execute step (init adminOnly {} (some ⟨"bot"⟩)) goesStale).get goesStale_enabled).1

theorem goneStale_blank : goneStale.roles.Blank := by
  have hslots : goneStale.roles.slots = [{ lookup := .global, entry := some adminEntry }] := by
    decide +kernel
  have hflight : goneStale.roles.checks.all (·.phase.inFlight.isNone) = true := by
    decide +kernel
  intro lookup i hi
  constructor
  · rintro slot e hslot he ⟨-, hfresh⟩
    -- there is one slot, and what is in it is stale
    rw [hslots] at hslot
    obtain rfl := List.mem_singleton.mp (List.mem_of_getElem? hslot)
    obtain rfl := Option.some.inj he
    exact absurd hfresh (by decide +kernel)
  · intro n check t g hcheck hphase
    have hnone := List.all_eq_true.mp hflight check (List.mem_of_getElem? hcheck)
    rw [hphase] at hnone
    cases hnone

/-- After a reconnect the snapshot is dropped, fresh as it is, and where the ring overran it is
too old to be used. -/
theorem noGrantSurvives_heardAdmin : ∃ h₁ h₂,
    .role (.started 0 0 .global 0) ∈ h₁ ∧ .called 0 0 ∈ h₁ ∧ h₂ = h₁ ∧
      NoGrantSurvives h₁ heardAdmin (.resubscribed ⟨2⟩ 1) ∧
      NoGrantSurvives h₂ goneStale (.connection (.lagged 1)) := by
  refine ⟨_, _, ?_, ?_, ?_,
    noGrantSurvives_of_blank (run_execute hearsAdmin hearsAdmin_enabled) trivial
      fun hlagged => hlagged.elim,
    noGrantSurvives_of_blank (run_execute goesStale goesStale_enabled) trivial
      fun _ => goneStale_blank⟩
  · decide +kernel
  · decide +kernel
  · decide +kernel

/-- The overrun of the ring is observed, -/
def observesLag : List DispatchInput := [.advance 1]

theorem observesLag_enabled : (execute step (heardAdmin.beginDispatch (.connection (.lagged 1))).1
    observesLag).isSome := by
  decide +kernel

/-- The state when it has been observed. -/
def observedLag : Framework := ((execute step
  (heardAdmin.beginDispatch (.connection (.lagged 1))).1 observesLag).get observesLag_enabled).1

/-- and the admin is heard again, from the old snapshot. -/
def hearsAgain : List DispatchInput :=
  [.dispatch adminMessage, .advance 2, .advance 2, .roles (.obtain 1 0 []), .roles (.lock 1),
    .advance 2]

theorem hearsAgain_enabled : (execute step observedLag hearsAgain).isSome := by
  decide +kernel

/-- **An overrun of the ring does not drop the snapshots**: whoever was demoted by an event that
was lost is heard as before. -/
theorem not_noGrantSurvives : ∃ h₁, Run step (init adminOnly {} (some ⟨"bot"⟩)) h₁ heardAdmin ∧
    (DecodedEvent.connection (.lagged 1)).ReportsGap ∧
    ¬ NoGrantSurvives h₁ heardAdmin (.connection (.lagged 1)) := by
  refine ⟨_, run_execute hearsAdmin hearsAdmin_enabled, trivial, fun hno => ?_⟩
  have hobserved : .observed heardAdmin.dispatches.length ∈ ((execute step
      (heardAdmin.beginDispatch (.connection (.lagged 1))).1 observesLag).get
        observesLag_enabled).2 := by
    decide +kernel
  have hchecking : .checking 2 0 1 ∈
      ((execute step observedLag hearsAgain).get hearsAgain_enabled).2 := by
    decide +kernel
  have hanswered : .role (.answered 1 .global adminEntry 0) ∈
      ((execute step observedLag hearsAgain).get hearsAgain_enabled).2 := by
    decide +kernel
  have hstarted : .role (.started 0 0 .global 0) ∈ ((execute step
      (init adminOnly {} (some ⟨"bot"⟩)) hearsAdmin).get hearsAdmin_enabled).2 := by
    decide +kernel
  exact hno _ _ _ _ _ _ 2 0 1 .global _ 0 ⟨"admin"⟩ rfl
    (run_execute observesLag observesLag_enabled) hobserved
    (run_execute hearsAgain hearsAgain_enabled) hchecking hanswered (by decide +kernel)
    0 .global 0 hstarted

end Framework
end RocketSocket
