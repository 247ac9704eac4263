import RocketSocket.Framework.RoleRun

/-!
# Invalidation beats a fetch in flight

A fetch writes its answer into the slot it was started for.  After an invalidation no lookup
obtains that slot any more, so whatever a later lookup returns was fetched later, also where
the old fetch completes in between.

## Main definitions

* `Advances` — how a step moves one call.
* `CleanSlot`, `Fenced` — nothing in a slot, or in the slot of a lookup, was fetched before a
  given fetch.
* `Invalidation.Covers` — the lookups a call is about.

## Main results

* `Fenced.of_run` — fences stand.
* `fetched_after_fence` — what a call returns that obtains a fenced slot.
* `fetched_after_invalidation` — so an invalidation beats every fetch in flight.
* `fetched_after_asking` — what a call returns that found nothing fresh when it asked.
-/

namespace RocketSocket

open Machine

namespace RoleDirectory

/-- How a step moves one call. -/
inductive Advances (d : RoleDirectory) (c : Check) : Check → Prop
  | stay : Advances d c c
  | obtain (i : ℕ) (lookup : Lookup) (hphase : c.phase = .starting)
      (hslot : d.currentSlot lookup = some i ∨ d.slots.length ≤ i) :
      Advances d c { c with phase := .queued i }
  | start (i : ℕ) (hphase : c.phase = .queued i) :
      Advances d c { c with phase := .fetching i d.now d.fetches }
  | settle (lookup : Lookup) (rest : List Lookup) (phase : CheckPhase)
      (hlookups : c.lookups = lookup :: rest) (haway : phase.slot = none) :
      Advances d c { c with lookups := rest, phase := phase }
  | cancel : Advances d c { c with phase := .cancelled }

variable {d d' : RoleDirectory} {h notes : List RoleNote} {input : RoleInput} {n m i f : ℕ}
  {check c : Check} {lookup : Lookup} {rest : List Lookup} {slot : Slot} {entry e : RoleEntry}
  {started t : Instant}

/-! ### What a step does to calls, slots and answers -/

/-- Where one call of the list advances. -/
theorem advances_set (hcheck : d.checks[n]? = some check) (hadvances : Advances d check c)
    (hchecks : d'.checks = d.checks.set n c) {c' : Check} (hm : d'.checks[m]? = some c') :
    ∃ c, d.checks[m]? = some c ∧ Advances d c c' := by
  rw [hchecks] at hm
  rcases getElem?_of_set hm with ⟨rfl, rfl⟩ | ⟨-, hm⟩
  · exact ⟨check, hcheck, hadvances⟩
  · exact ⟨c', hm, .stay⟩

theorem advances_conclude {d₁ : RoleDirectory} (hcheck : d.checks[n]? = some check)
    (hlookups : check.lookups = lookup :: rest) {c' : Check}
    (hm : (d₁.conclude n check lookup rest entry).1.checks[m]? = some c')
    (hchecks : d₁.checks = d.checks) :
    ∃ c, d.checks[m]? = some c ∧ Advances d c c' := by
  obtain ⟨phase, haway, heq⟩ := conclude_eq d₁ n check lookup rest entry
  rw [heq] at hm
  exact advances_set hcheck (.settle lookup rest phase hlookups haway)
    (by rw [setCheck, hchecks]) hm

/-- **A step advances every call that is in progress.** -/
theorem advances_move (hmove : Moves d input d' notes) {c' : Check}
    (hm : d'.checks[m]? = some c') :
    (∃ c, d.checks[m]? = some c ∧ Advances d c c') ∨
      d.checks.length ≤ m ∧ c'.phase.slot = none := by
  cases hmove with
  | ask question =>
    -- The check begins waiting for no slot.
    obtain ⟨new, -, haway, heq⟩ := ask_eq d question
    rw [heq] at hm
    rcases getElem?_of_concat hm with ⟨rfl, rfl⟩ | hm
    · exact .inr ⟨le_rfl, haway⟩
    · exact .inl ⟨c', hm, .stay⟩
  | @obtain n i check lookup rest reading evicted d₁ hcheck hlookups hphase hslot =>
    have hobtains := obtains_slotFor hslot
    refine .inl (advances_set hcheck (.obtain i lookup hphase ?_) ?_ hm)
    · -- The slot of the lookup was there, or it is appended.
      exact hobtains.slots.imp And.right fun hnew => hnew.2.ge
    · rw [setCheck, hobtains.frame]
  | cached hcheck hlookups => exact .inl (advances_conclude hcheck hlookups hm rfl)
  | start hcheck _ hphase => exact .inl (advances_set hcheck (.start _ hphase) rfl hm)
  | @answer n j f check lookup rest slot started answer hcheck hlookups =>
    change (RoleDirectory.conclude _ n check lookup rest _).1.checks[m]? = some c' at hm
    exact .inl (advances_conclude hcheck hlookups hm rfl)
  | @expire n j f check lookup rest slot started hcheck hlookups =>
    change (RoleDirectory.conclude _ n check lookup rest _).1.checks[m]? = some c' at hm
    exact .inl (advances_conclude hcheck hlookups hm rfl)
  | @cancel n check hcheck =>
    left
    -- A waiter gives up, or one whose fetch is in flight unlocks the slot.
    rcases abandon_eq d n check with heq | ⟨i, slot, -, heq⟩
    · rw [heq] at hm
      exact advances_set hcheck .cancel rfl hm
    · rw [heq] at hm
      exact advances_set hcheck .cancel rfl hm
  | invalidate => exact .inl ⟨c', hm, .stay⟩
  | @drop k drop drops hdrops =>
    refine .inl ⟨c', ?_, .stay⟩
    change (d.performDrop drop).checks[m]? = some c' at hm
    rwa [(drops_performDrop d drop).frame] at hm
  | tick => exact .inl ⟨c', hm, .stay⟩

/-- An entry in a slot is one that was there, or the outcome of a fetch into it. -/
def Enters (d : RoleDirectory) (i : ℕ) (e : RoleEntry) : Prop :=
  (∃ slot : Slot, d.slots[i]? = some slot ∧ slot.entry = some e) ∨
    ∃ (n : ℕ) (check : Check) (started : Instant), d.checks[n]? = some check ∧
      check.phase = .fetching i started e.fetch

theorem enters_set {new slot' : Slot} (hslots : d'.slots = d.slots.set i new)
    (hnew : ∀ e, new.entry = some e → d.Enters i e) {j : ℕ} (hj : d'.slots[j]? = some slot')
    (he : slot'.entry = some e) : d.Enters j e := by
  rw [hslots] at hj
  rcases getElem?_of_set hj with ⟨rfl, rfl⟩ | ⟨-, hj⟩
  · exact hnew e he
  · exact .inl ⟨slot', hj, he⟩

/-- A slot that is only locked or unlocked keeps its entry. -/
theorem enters_lock {slot' : Slot} {locked : Bool} (hslot : d.slots[i]? = some slot) {j : ℕ}
    (hj : (d.setSlot i { slot with locked := locked }).slots[j]? = some slot')
    (he : slot'.entry = some e) : d.Enters j e := by
  refine enters_set rfl (fun e he => ?_) hj he
  exact .inl ⟨slot, hslot, he⟩

theorem enters_append {new slot' : Slot} (hempty : new.entry = none)
    (hslots : d'.slots = d.slots ++ [new]) {j : ℕ} (hj : d'.slots[j]? = some slot')
    (he : slot'.entry = some e) : d.Enters j e := by
  rw [hslots] at hj
  rcases getElem?_of_concat hj with ⟨-, rfl⟩ | hj
  · -- The slot that is appended is empty.
    rw [hempty] at he
    cases he
  · exact .inl ⟨slot', hj, he⟩

theorem conclude_slots : (d.conclude n check lookup rest entry).1.slots = d.slots := by
  rw [conclude_frame]

/-- **Every entry after a step was there, or its fetch was in flight.** -/
theorem enters_move (hmove : Moves d input d' notes) {slot' : Slot}
    (hi : d'.slots[i]? = some slot') (he : slot'.entry = some e) : d.Enters i e := by
  cases hmove with
  | ask question =>
    obtain ⟨new, -, -, heq⟩ := ask_eq d question
    rw [heq] at hi
    exact .inl ⟨slot', hi, he⟩
  | @obtain n j check lookup rest reading evicted d₁ hcheck hlookups hphase hslot =>
    -- The slots are as before, or an empty one is appended.
    rcases (obtains_slotFor hslot).slots with ⟨heq, -⟩ | ⟨heq, -⟩
    · exact .inl ⟨slot', heq ▸ hi, he⟩
    · exact enters_append rfl heq hi he
  | cached =>
    rw [conclude_slots] at hi
    exact .inl ⟨slot', hi, he⟩
  | @start n j check lookup rest slot hcheck hlookups hphase hslot hlocked =>
    exact enters_lock hslot hi he
  | @answer n j f check lookup rest slot started answer hcheck hlookups hphase hslot =>
    change (RoleDirectory.conclude _ n check lookup rest _).1.slots[i]? = some slot' at hi
    rw [conclude_slots] at hi
    refine enters_set rfl (fun e he => ?_) hi he
    obtain rfl := Option.some.inj he
    exact .inr ⟨n, check, started, hcheck, hphase⟩
  | @expire n j f check lookup rest slot started hcheck hlookups hphase hslot =>
    change (RoleDirectory.conclude _ n check lookup rest _).1.slots[i]? = some slot' at hi
    rw [conclude_slots] at hi
    refine enters_set rfl (fun e he => ?_) hi he
    obtain rfl := Option.some.inj he
    exact .inr ⟨n, check, started, hcheck, hphase⟩
  | @cancel n check hcheck =>
    rcases abandon_eq d n check with heq | ⟨j, slot, hslot, heq⟩
    · rw [heq] at hi
      exact .inl ⟨slot', hi, he⟩
    · rw [heq] at hi
      exact enters_lock hslot hi he
  | invalidate => exact .inl ⟨slot', hi, he⟩
  | @drop k drop drops hdrops =>
    rcases (drops_performDrop d drop).slots with heq | heq
    · exact .inl ⟨slot', heq ▸ hi, he⟩
    · exact enters_append rfl heq hi he
  | tick => exact .inl ⟨slot', hi, he⟩

/-- A lookup at the slot may be answered with the entry: it is in the slot and fresh, or a fetch
into the slot brings it. -/
def Serves (d : RoleDirectory) (i : ℕ) (e : RoleEntry) : Prop :=
  (∃ slot : Slot, d.slots[i]? = some slot ∧ slot.entry = some e ∧
    e.isFresh d.config d.now = true) ∨
    ∃ (n : ℕ) (check : Check) (started : Instant), d.checks[n]? = some check ∧
      check.phase = .fetching i started e.fetch

theorem Serves.enters (hserves : d.Serves i e) : d.Enters i e :=
  hserves.imp (fun ⟨slot, hslot, he, _⟩ => ⟨slot, hslot, he⟩) id

/-- **Every answer comes from the slot the call is at**: the entry is in it, or the call's own
fetch brings it. -/
theorem answered_move (hmove : Moves d input d' notes)
    (hmem : .answered n lookup e t ∈ notes) : ∃ (check : Check) (rest : List Lookup) (i : ℕ),
      d.checks[n]? = some check ∧ check.lookups = lookup :: rest ∧ check.phase.slot = some i ∧
        d.Serves i e := by
  -- an answer among the notes of a lookup that ends is the one of that lookup
  have hof : ∀ {d₁ : RoleDirectory} {m : ℕ} {check : Check} {l : Lookup} {rest : List Lookup}
      {entry : RoleEntry}, .answered n lookup e t ∈ (d₁.conclude m check l rest entry).2 →
        n = m ∧ lookup = l ∧ e = entry := by
    intro d₁ m check l rest entry hmem
    rcases conclude_notes d₁ m check l rest entry with heq | heq
    · rw [heq] at hmem
      simp only [List.mem_singleton, RoleNote.answered.injEq] at hmem
      exact ⟨hmem.1, hmem.2.1, hmem.2.2.1⟩
    · rw [heq] at hmem
      simp only [List.mem_cons, RoleNote.answered.injEq, reduceCtorEq, List.not_mem_nil,
        or_false] at hmem
      exact ⟨hmem.1, hmem.2.1, hmem.2.2.1⟩
  cases hmove with
  | ask question =>
    rcases ask_notes d question with heq | ⟨-, heq⟩
    · simp [heq] at hmem
    · simp [heq] at hmem
  | obtain => simp at hmem
  | @cached m i check l rest slot entry hcheck hlookups hphase hslot hentry hfresh =>
    obtain ⟨rfl, rfl, rfl⟩ := hof hmem
    exact ⟨check, rest, i, hcheck, hlookups, by rw [hphase]; rfl,
      .inl ⟨slot, hslot, hentry, hfresh⟩⟩
  | start => simp at hmem
  | @answer m i f check l rest slot started answer hcheck hlookups hphase hslot =>
    rcases List.mem_cons.mp hmem with hnote | hmem
    · cases answer with
      | ok holders => cases hnote
      | error reason => cases hnote
    · obtain ⟨rfl, rfl, rfl⟩ := hof hmem
      exact ⟨check, rest, i, hcheck, hlookups, by rw [hphase]; rfl,
        .inr ⟨_, check, started, hcheck, hphase⟩⟩
  | @expire m i f check l rest slot started hcheck hlookups hphase hslot =>
    rcases List.mem_cons.mp hmem with hnote | hmem
    · cases hnote
    · obtain ⟨rfl, rfl, rfl⟩ := hof hmem
      exact ⟨check, rest, i, hcheck, hlookups, by rw [hphase]; rfl,
        .inr ⟨_, check, started, hcheck, hphase⟩⟩
  | cancel => simp at hmem
  | invalidate => simp at hmem
  | drop => simp at hmem
  | tick => simp at hmem

theorem currentSlot_conclude {l : Lookup} :
    (d.conclude n check lookup rest entry).1.currentSlot l = d.currentSlot l := by
  rw [conclude_frame]
  rfl

/-- **No step gives a lookup another slot**, unless it is a new one. -/
theorem currentSlot_move (hmove : Moves d input d' notes) (hi : d'.currentSlot lookup = some i) :
    d.currentSlot lookup = some i ∨ d.slots.length ≤ i := by
  cases hmove with
  | ask question =>
    obtain ⟨new, -, -, heq⟩ := ask_eq d question
    rw [heq] at hi
    exact .inl hi
  | @obtain n j check l rest reading evicted d₁ hcheck hlookups hphase hslot =>
    have hobtains := obtains_slotFor hslot
    change d₁.currentSlot lookup = some i at hi
    -- The lookup obtains its own slot; of the others it may put rooms out of the map.
    by_cases hl : lookup = l
    · subst hl
      obtain rfl : j = i := Option.some.inj (hobtains.current.symm.trans hi)
      rcases hobtains.slots with ⟨-, hcurrent⟩ | ⟨-, hnew⟩
      · exact .inl hcurrent
      · exact .inr hnew.ge
    · rcases hobtains.others lookup hl with hsame | hnone
      · exact .inl (hsame ▸ hi)
      · exact absurd (hnone.symm.trans hi) (by simp)
  | cached =>
    rw [currentSlot_conclude] at hi
    exact .inl hi
  | start => exact .inl hi
  | @answer n j f check l rest slot started answer hcheck hlookups hphase hslot =>
    change (RoleDirectory.conclude _ n check l rest _).1.currentSlot lookup = some i at hi
    rw [currentSlot_conclude] at hi
    exact .inl hi
  | @expire n j f check l rest slot started hcheck hlookups hphase hslot =>
    change (RoleDirectory.conclude _ n check l rest _).1.currentSlot lookup = some i at hi
    rw [currentSlot_conclude] at hi
    exact .inl hi
  | @cancel n check hcheck =>
    left
    rcases abandon_eq d n check with heq | ⟨j, slot, -, heq⟩
    · rw [heq] at hi
      exact hi
    · rw [heq] at hi
      exact hi
  | invalidate => exact .inl hi
  | @drop k drop drops hdrops =>
    have hdrop := drops_performDrop d drop
    by_cases hcovers : drop.Covers lookup
    · exact .inr (hdrop.covered lookup i hcovers hi).1.ge
    · exact .inl ((hdrop.others lookup hcovers).symm.trans hi)
  | tick => exact .inl hi

/-! ### Fences -/

variable {P : RoleEntry → Prop}

/-- Nothing in the slot was fetched before fetch number `f`, as far as it matters to `P`, and
no fetch before it is in flight for the slot. -/
structure CleanSlot (P : RoleEntry → Prop) (f : ℕ) (d : RoleDirectory) (i : ℕ) : Prop where
  entry : ∀ (slot : Slot) (e : RoleEntry), d.slots[i]? = some slot → slot.entry = some e → P e →
    f ≤ e.fetch
  flight : ∀ (n : ℕ) (check : Check) (t : Instant) (g : ℕ), d.checks[n]? = some check →
    check.phase = .fetching i t g → f ≤ g

/-- A lookup that obtained its slot now would obtain a clean one. -/
def Fenced (P : RoleEntry → Prop) (f : ℕ) (d : RoleDirectory) (lookup : Lookup) : Prop :=
  ∀ i, d.currentSlot lookup = some i → CleanSlot P f d i

theorem CleanSlot.of_enters (hclean : CleanSlot P f d i) (he : d.Enters i e) (hP : P e) :
    f ≤ e.fetch := by
  rcases he with ⟨slot, hslot, hentry⟩ | ⟨n, check, t, hcheck, hphase⟩
  · exact hclean.entry slot e hslot hentry hP
  · exact hclean.flight n check t e.fetch hcheck hphase

/-- A fetch in flight after a step was in flight before, or was just started by a call that
waited for the slot. -/
theorem flight_move (hmove : Moves d input d' notes) {n g : ℕ} {check : Check}
    (hcheck : d'.checks[n]? = some check) (hphase : check.phase = .fetching i t g) :
    (∃ c, d.checks[n]? = some c ∧ c.phase = .fetching i t g) ∨
      g = d.fetches ∧ ∃ c, d.checks[n]? = some c ∧ c.phase = .queued i := by
  rcases advances_move hmove hcheck with ⟨c, hc, hadvances⟩ | ⟨-, haway⟩
  · cases hadvances with
    | stay => exact .inl ⟨_, hc, hphase⟩
    | obtain j => cases hphase
    | start j hqueued =>
      obtain ⟨rfl, rfl, rfl⟩ := CheckPhase.fetching.inj hphase
      exact .inr ⟨rfl, c, hc, hqueued⟩
    | settle l rest phase hlookups haway =>
      change phase = .fetching i t g at hphase
      rw [hphase] at haway
      cases haway
    | cancel => cases hphase
  · rw [hphase] at haway
    cases haway

/-- **A clean slot stays clean.** -/
theorem CleanSlot.move (hclean : CleanSlot P f d i) (hf : f ≤ d.fetches)
    (hmove : Moves d input d' notes) : CleanSlot P f d' i where
  entry := fun _ _ hslot he hP => hclean.of_enters (enters_move hmove hslot he) hP
  flight := by
    intro n check t g hcheck hphase
    rcases flight_move hmove hcheck hphase with ⟨c, hc, hold⟩ | ⟨rfl, -⟩
    · exact hclean.flight n c t g hc hold
    · exact hf

/-- A slot that is made by a step is clean: nobody has it yet. -/
theorem cleanSlot_new (hs : Sound h d) (hnew : d.slots.length ≤ i)
    (hmove : Moves d input d' notes) : CleanSlot P f d' i := by
  have hnone : ∀ (n : ℕ) (c : Check), d.checks[n]? = some c → c.phase.slot ≠ some i := by
    intro n c hc hi
    obtain ⟨slot, hslot, -⟩ := (hs.checks n c hc).atSlot i hi
    exact absurd (List.getElem?_eq_some_iff.mp hslot).1 (Nat.not_lt.mpr hnew)
  constructor
  · intro slot e hslot he _
    rcases enters_move hmove hslot he with ⟨old, hold, -⟩ | ⟨n, c, t, hc, hphase⟩
    · exact absurd (List.getElem?_eq_some_iff.mp hold).1 (Nat.not_lt.mpr hnew)
    · exact absurd (by rw [hphase]; rfl) (hnone n c hc)
  · intro n check t g hcheck hphase
    rcases flight_move hmove hcheck hphase with ⟨c, hc, hold⟩ | ⟨-, c, hc, hold⟩
    · exact absurd (by rw [hold]; rfl) (hnone n c hc)
    · exact absurd (by rw [hold]; rfl) (hnone n c hc)

/-- **A fence stands.** -/
theorem Fenced.move (hs : Sound h d) (hfenced : Fenced P f d lookup) (hf : f ≤ d.fetches)
    (hmove : Moves d input d' notes) : Fenced P f d' lookup := by
  intro i hi
  rcases currentSlot_move hmove hi with hold | hnew
  · exact (hfenced i hold).move hf hmove
  · exact cleanSlot_new hs hnew hmove

/-- A step of an invalidating call fences the lookups it covers off from every fetch before
it. -/
theorem fenced_drop (hs : Sound h d) {k : ℕ} {drop : Drop} {drops : List Drop}
    (hdrops : d.invalidations[k]? = some (drop :: drops)) (hcovers : drop.Covers lookup) :
    Fenced P d.fetches
      { d.performDrop drop with invalidations := d.invalidations.set k drops } lookup := by
  intro i hi
  have hnew := ((drops_performDrop d drop).covered lookup i hcovers hi).1
  exact cleanSlot_new hs hnew.ge (.drop hdrops)

/-! ### What a lookup returns behind a fence -/

/-- Call number `n` is beyond `lookup`, or at it with slot `i`, or was dropped there. -/
def BoundTo (lookup : Lookup) (i : ℕ) (check : Check) : Prop :=
  lookup ∈ check.lookups → check.lookups.head? = some lookup ∧
    (check.phase.slot = some i ∨ check.phase = .cancelled)

theorem Question.nodup_lookups (question : Question) : question.lookups.Nodup := by
  cases question with
  | isAdmin => simp [Question.lookups]
  | isRoomAdmin => simp [Question.lookups]
  | verdict authority author room => cases authority <;> simp [Question.lookups, Authority.lookups]

theorem BoundTo.advances (hstands : Stands h d n check) (hbound : BoundTo lookup i check)
    (hadvances : Advances d check c) : BoundTo lookup i c := by
  cases hadvances with
  | stay => exact hbound
  | obtain j _ hphase =>
    intro hmem
    obtain ⟨-, hslot | hcancelled⟩ := hbound hmem
    · rw [hphase] at hslot
      cases hslot
    · rw [hphase] at hcancelled
      cases hcancelled
  | start j hphase =>
    intro hmem
    obtain ⟨hhead, hslot | hcancelled⟩ := hbound hmem
    · rw [hphase] at hslot
      exact ⟨hhead, .inl hslot⟩
    · rw [hphase] at hcancelled
      cases hcancelled
  | settle l rest phase hlookups haway =>
    -- the lookup that is over does not come again
    intro hmem
    have hnodup : (l :: rest).Nodup :=
      hlookups ▸ hstands.suffix.sublist.nodup (Question.nodup_lookups check.question)
    have hin : lookup ∈ check.lookups := hlookups ▸ List.mem_cons_of_mem l hmem
    obtain ⟨hhead, -⟩ := hbound hin
    rw [hlookups, List.head?_cons, Option.some.injEq] at hhead
    exact absurd (hhead ▸ hmem) (List.nodup_cons.mp hnodup).1
  | cancel => exact fun hmem => ⟨(hbound hmem).1, .inr rfl⟩

/-- Behind a fence: call number `n` is bound to a clean slot for `lookup`, and all it returned
for it is clean. -/
structure Behind (P : RoleEntry → Prop) (f : ℕ) (n : ℕ) (lookup : Lookup) (i : ℕ)
    (h : List RoleNote) (d : RoleDirectory) : Prop where
  fetches : f ≤ d.fetches
  clean : CleanSlot P f d i
  bound : ∃ check, d.checks[n]? = some check ∧ BoundTo lookup i check
  answered : ∀ e t, .answered n lookup e t ∈ h → P e → f ≤ e.fetch

theorem Behind.move {h₀ : List RoleNote} (hs : Sound h₀ d) (hbehind : Behind P f n lookup i h d)
    (hmove : Moves d input d' notes) : Behind P f n lookup i (h ++ notes) d' where
  fetches := hbehind.fetches.trans (later_move hmove).fetches
  clean := hbehind.clean.move hbehind.fetches hmove
  bound := by
    -- The call began before, so it is not one that this step begins.
    obtain ⟨check, hcheck, hbound⟩ := hbehind.bound
    have hlt := (List.getElem?_eq_some_iff.mp hcheck).1
    obtain ⟨c', hc'⟩ : ∃ c', d'.checks[n]? = some c' :=
      ⟨_, List.getElem?_eq_getElem (hlt.trans_le (later_move hmove).checks)⟩
    rcases advances_move hmove hc' with ⟨c, hc, hadvances⟩ | ⟨hge, -⟩
    · obtain rfl : check = c := Option.some.inj (hcheck.symm.trans hc)
      exact ⟨c', hc', hbound.advances (hs.checks n check hcheck) hadvances⟩
    · exact absurd hlt (Nat.not_lt.mpr hge)
  answered := by
    intro e t hmem hP
    rcases List.mem_append.mp hmem with hmem | hmem
    · exact hbehind.answered e t hmem hP
    · -- What is answered comes from the slot the call waits for, and that slot is clean.
      obtain ⟨check, rest, j, hcheck, hlookups, hslot, hserves⟩ := answered_move hmove hmem
      obtain ⟨check', hcheck', hbound⟩ := hbehind.bound
      obtain rfl : check = check' := Option.some.inj (hcheck.symm.trans hcheck')
      obtain ⟨-, hi | hcancelled⟩ := hbound (by simp [hlookups])
      · obtain rfl : j = i := Option.some.inj (hslot.symm.trans hi)
        exact hbehind.clean.of_enters hserves.enters hP
      · rw [hcancelled] at hslot
        cases hslot

variable {config : RoleCacheConfig} {h₁ h₂ h₃ h₄ : List RoleNote}
  {d₁ d₂ d₃ d₄ d₅ d₆ : RoleDirectory}

/-- A fence stands for a whole run. -/
theorem Fenced.of_run (hbefore : Run step (init config) h₁ d₁) (hfenced : Fenced P f d₁ lookup)
    (hf : f ≤ d₁.fetches) (hrun : Run step d₁ h₂ d₂) :
    f ≤ d₂.fetches ∧ Fenced P f d₂ lookup := by
  refine hrun.invariant_of (J := fun h d => Run step d₁ h d)
    (I := fun _ d => f ≤ d.fetches ∧ Fenced P f d lookup) id ⟨hf, hfenced⟩ ?_
  rintro h d input d' o hrun ⟨hf, hfenced⟩ hstep
  have hmove := moves_of_step hstep
  exact ⟨hf.trans (later_move hmove).fetches,
    hfenced.move (sound_of_run (hbefore.trans hrun)) hf hmove⟩

/-- **Behind a fence nothing older is returned**: a call that obtains its slot for a fenced
lookup never returns an entry that was fetched before the fence. -/
theorem fetched_after_fence (hbefore : Run step (init config) h₁ d₁)
    (hfenced : Fenced P f d₁ lookup) (hf : f ≤ d₁.fetches)
    {reading : Instant} {evicted : List RoomId}
    (hobtained : d₁.step (.obtain n reading evicted) = some (d₂, [.obtained n lookup i]))
    (hthen : Run step d₂ h₂ d₃) (hanswered : .answered n lookup e t ∈ h₂) (hP : P e) :
    f ≤ e.fetch := by
  have hmove := moves_of_step hobtained
  -- the slot obtained is the lookup's current one, so it is clean
  have hbehind : Behind P f n lookup i [] d₂ := by
    refine ⟨hf.trans (later_move hmove).fetches, ?_, ?_, fun e t hmem => by simp at hmem⟩
    · have hfenced₂ := hfenced.move (sound_of_run hbefore) hf hmove
      cases hmove with
      | obtain hcheck hlookups hphase hslot => exact hfenced₂ i (obtains_slotFor hslot).current
    · cases hmove with
      | @obtain _ _ check _ rest _ _ d' hcheck hlookups hphase hslot =>
        refine ⟨{ check with phase := .queued i }, ?_, fun _ => ⟨by rw [hlookups]; rfl, .inl rfl⟩⟩
        have hlt : n < d'.checks.length := by
          rw [(obtains_slotFor hslot).frame]
          exact (List.getElem?_eq_some_iff.mp hcheck).1
        exact List.getElem?_set_self hlt
  have hrun := hbefore.step hobtained
  have hend : Behind P f n lookup i h₂ d₃ := by
    refine hthen.invariant_of (J := fun h d => Run step d₂ h d)
      (I := fun h d => Behind P f n lookup i h d) id hbehind ?_
    intro h d input d' o hthen hbehind hstep
    exact hbehind.move (sound_of_run (hrun.trans hthen)) (moves_of_step hstep)
  exact hend.answered e t hanswered hP

/-! ### What a call returns that is asked behind fences -/

/-- The entry grants the role to somebody, and may still be used at that time. -/
def Admits (config : RoleCacheConfig) (t : Instant) (e : RoleEntry) : Prop :=
  (∃ user, e.grants user = true) ∧ e.isFresh config t = true

/-- A stale entry does not become fresh. -/
theorem isFresh_mono {s : Instant} (hfresh : e.isFresh config t = true) (hle : s ≤ t) :
    e.isFresh config s = true := by
  unfold RoleEntry.isFresh at hfresh ⊢
  simp only [decide_eq_true_eq] at hfresh ⊢
  exact (Nat.sub_le_sub_right hle _).trans_lt hfresh

/-- Behind fences: every lookup is fenced, and the calls from number `m` on are at clean slots
and were answered from nothing older. -/
structure AllBehind (config : RoleCacheConfig) (s : Instant) (f m : ℕ) (h : List RoleNote)
    (d : RoleDirectory) : Prop where
  now : s ≤ d.now
  fetches : f ≤ d.fetches
  fenced : ∀ lookup, Fenced (Admits config s) f d lookup
  clean : ∀ (n : ℕ) (check : Check) (i : ℕ), m ≤ n → d.checks[n]? = some check →
    check.phase.slot = some i → CleanSlot (Admits config s) f d i
  answered : ∀ n lookup e t user, m ≤ n → .answered n lookup e t ∈ h → e.grants user = true →
    f ≤ e.fetch

variable {s : Instant} {m : ℕ}

/-- **A step keeps the calls behind the fences.** -/
theorem AllBehind.move {h₀ : List RoleNote} (hs : Sound h₀ d) (hconfig : d.config = config)
    (hb : AllBehind config s f m h d) (hmove : Moves d input d' notes) :
    AllBehind config s f m (h ++ notes) d' where
  now := hb.now.trans (later_move hmove).now
  fetches := hb.fetches.trans (later_move hmove).fetches
  fenced := fun lookup => (hb.fenced lookup).move hs hb.fetches hmove
  clean := by
    intro n c' i hn hc' hslot
    rcases advances_move hmove hc' with ⟨c, hc, hadvances⟩ | ⟨-, haway⟩
    · cases hadvances with
      | stay => exact (hb.clean n c' i hn hc hslot).move hb.fetches hmove
      | obtain j lookup hphase hcurrent =>
        -- the slot is the lookup's current one, or it is new
        obtain rfl : j = i := Option.some.inj hslot
        rcases hcurrent with hcurrent | hnew
        · exact (hb.fenced lookup j hcurrent).move hb.fetches hmove
        · exact cleanSlot_new hs hnew hmove
      | start j hphase =>
        obtain rfl : j = i := Option.some.inj hslot
        exact (hb.clean n c j hn hc (by rw [hphase]; rfl)).move hb.fetches hmove
      | settle lookup rest phase hlookups haway => exact absurd (hslot.symm.trans haway) (by simp)
      | cancel => cases hslot
    · exact absurd (hslot.symm.trans haway) (by simp)
  answered := by
    intro n lookup e t user hn hmem hgrants
    rcases List.mem_append.mp hmem with hmem | hmem
    · exact hb.answered n lookup e t user hn hmem hgrants
    · obtain ⟨check, rest, i, hcheck, -, hslot, hserves⟩ := answered_move hmove hmem
      have hclean := hb.clean n check i hn hcheck hslot
      rcases hserves with ⟨slot, hi, he, hfresh⟩ | ⟨n', check', t', hc', hphase⟩
      · exact hclean.entry slot e hi he ⟨⟨user, hgrants⟩, isFresh_mono (hconfig ▸ hfresh) hb.now⟩
      · exact hclean.flight n' check' t' e.fetch hc' hphase

/-- **A call that is asked behind fences is granted nothing older**: where no slot a lookup would
obtain holds an entry that admits somebody, or has a fetch in flight, from before fetch number
`f`, no call asked from then on is granted from one. -/
theorem fetched_after_asking (hbefore : Run step (init config) h₁ d₁) (hnow : s ≤ d₁.now)
    (hfenced : ∀ lookup, Fenced (Admits config s) f d₁ lookup) (hf : f ≤ d₁.fetches)
    (hrun : Run step d₁ h₂ d₂) (hn : d₁.checks.length ≤ n)
    (hanswered : .answered n lookup e t ∈ h₂) {user : UserId} (hgrants : e.grants user = true) :
    f ≤ e.fetch := by
  have hstart : AllBehind config s f d₁.checks.length [] d₁ := by
    refine ⟨hnow, hf, hfenced, fun n check i hn hcheck => ?_, fun _ _ _ _ _ _ hmem => ?_⟩
    · exact absurd (List.getElem?_eq_some_iff.mp hcheck).1 (Nat.not_lt.mpr hn)
    · cases hmem
  have hend : AllBehind config s f d₁.checks.length h₂ d₂ := by
    refine hrun.invariant_of (J := fun h d => Run step d₁ h d)
      (I := fun h d => AllBehind config s f d₁.checks.length h d) id hstart ?_
    intro h d input d' o hthen hb hstep
    have hrun := hbefore.trans hthen
    exact hb.move (sound_of_run hrun) (config_of_run hrun) (moves_of_step hstep)
  exact hend.answered n lookup e t user hn hanswered hgrants

end RoleDirectory

/-! ### Invalidations -/

/-- The lookups an invalidating call is about: a change of a role document, or one that names
nobody, is about all of them; else the scope says which. -/
def Invalidation.Covers : Invalidation → Lookup → Prop
  | .global, lookup => lookup = .global
  | .room id, lookup => lookup = .room id
  | .all, _ => True
  | .roleChange change, lookup => change.u = none ∨ change.action = .changed ∨
      (change.scope = none ∧ lookup = .global) ∨
      ∃ room, change.scope = some room ∧ lookup = .room ⟨room⟩

/-- A call drops the slot of every lookup it is about. -/
theorem Invalidation.exists_drop {call : Invalidation} {lookup : Lookup}
    (hcovers : call.Covers lookup) : ∃ drop ∈ call.drops, drop.Covers lookup := by
  -- dropping the global slot and every room's slot drops all
  have hall : ∃ drop ∈ [Drop.global, Drop.rooms], drop.Covers lookup := by
    cases lookup with
    | global => exact ⟨.global, by simp, rfl⟩
    | room id => exact ⟨.rooms, by simp, fun heq => by cases heq⟩
  cases call with
  | global => exact ⟨.global, by simp [Invalidation.drops], hcovers⟩
  | room id => exact ⟨.room id, by simp [Invalidation.drops], hcovers⟩
  | all => exact hall
  | roleChange change =>
    show ∃ drop ∈ change.drops, drop.Covers lookup
    unfold RoleChange.drops
    split
    · exact hall
    · next hone =>
      simp only [Bool.or_eq_true, Option.isNone_iff_eq_none, decide_eq_true_eq, not_or] at hone
      rcases hcovers with hu | hchanged | ⟨hscope, rfl⟩ | ⟨room, hscope, rfl⟩
      · exact absurd hu hone.1
      · exact absurd hchanged hone.2
      · rw [hscope]
        exact ⟨.global, by simp, rfl⟩
      · rw [hscope]
        exact ⟨.room ⟨room⟩, by simp, rfl⟩

namespace RoleDirectory

variable {d d' d₁ d₂ d₃ d₄ d₅ d₆ : RoleDirectory} {notes h₁ h₂ h₃ h₄ : List RoleNote}
  {input : RoleInput} {k n i : ℕ} {drop : Drop} {l : List Drop} {config : RoleCacheConfig}
  {lookup : Lookup} {e : RoleEntry} {t : Instant}

theorem conclude_invalidations {check : Check} {rest : List Lookup} {entry : RoleEntry} :
    (d.conclude n check lookup rest entry).1.invalidations = d.invalidations := by
  rw [conclude_frame]

/-- Only its own steps take anything from an invalidating call. -/
theorem invalidations_move (hmove : Moves d input d' notes) (hl : d.invalidations[k]? = some l) :
    d'.invalidations[k]? = some l ∨
      ∃ drop drops, l = drop :: drops ∧ d'.invalidations[k]? = some drops ∧
        d' = { d.performDrop drop with invalidations := d.invalidations.set k drops } := by
  cases hmove with
  | ask question =>
    obtain ⟨new, -, -, heq⟩ := ask_eq d question
    rw [heq]
    exact .inl hl
  | obtain _ _ _ hslot =>
    left
    rw [setCheck, (obtains_slotFor hslot).frame]
    exact hl
  | cached => exact .inl (by rw [conclude_invalidations, hl])
  | start => exact .inl hl
  | @answer n j f check lookup rest slot started answer hcheck hlookups hphase hslot =>
    left
    show (RoleDirectory.conclude _ n check lookup rest _).1.invalidations[k]? = some l
    rw [conclude_invalidations]
    exact hl
  | @expire n j f check lookup rest slot started hcheck hlookups hphase hslot =>
    left
    show (RoleDirectory.conclude _ n check lookup rest _).1.invalidations[k]? = some l
    rw [conclude_invalidations]
    exact hl
  | @cancel n check hcheck =>
    left
    rcases abandon_eq d n check with heq | ⟨j, slot, -, heq⟩
    · rw [heq]
      exact hl
    · rw [heq]
      exact hl
  | invalidate call =>
    left
    -- A call that begins is appended, with all its drops before it.
    show (d.invalidations ++ [call.drops])[k]? = some l
    rw [List.getElem?_append_left (List.getElem?_eq_some_iff.mp hl).1, hl]
  | @drop k' drop drops hdrops =>
    -- The call's own drop is made, or that of another.
    by_cases hk : k' = k
    · subst hk
      obtain rfl : l = drop :: drops := Option.some.inj (hl.symm.trans hdrops)
      exact .inr ⟨drop, drops, rfl,
        List.getElem?_set_self (List.getElem?_eq_some_iff.mp hl).1, rfl⟩
    · left
      show (d.invalidations.set k' drops)[k]? = some l
      rw [List.getElem?_set_ne hk, hl]
  | tick => exact .inl hl

/-- A call that has returned stays so. -/
theorem returned_of_run {h : List RoleNote} (hreturned : d.invalidations[k]? = some [])
    (hrun : Run step d h d') : d'.invalidations[k]? = some [] := by
  refine hrun.invariant (I := fun _ d => d.invalidations[k]? = some []) hreturned ?_
  intro h d input d' o hreturned hstep
  rcases invalidations_move (moves_of_step hstep) hreturned with hsame | ⟨drop, drops, heq, -⟩
  · exact hsame
  · cases heq

variable {P : RoleEntry → Prop} {f : ℕ}

theorem CleanSlot.mono {g : ℕ} (hclean : CleanSlot P f d i) (hle : g ≤ f) : CleanSlot P g d i where
  entry := fun slot e hslot he hP => hle.trans (hclean.entry slot e hslot he hP)
  flight := fun n check t f' hcheck hphase => hle.trans (hclean.flight n check t f' hcheck hphase)

/-- **An invalidating call that has returned has fenced off every lookup it is about** from the
fetches that were started before it began. -/
theorem fenced_of_returned (hbefore : Run step (init config) h₁ d₁)
    (hcall : d₁.invalidations[k]? = some l) (hdrop : drop ∈ l) (hcovers : drop.Covers lookup)
    (hduring : Run step d₁ h₂ d₂) (hreturned : d₂.invalidations[k]? = some []) :
    Fenced P d₁.fetches d₂ lookup := by
  -- the step that drops the lookup's slot is still to be made, or the fence stands
  have hinv : d₁.fetches ≤ d₂.fetches ∧
      ((∃ l, d₂.invalidations[k]? = some l ∧ drop ∈ l) ∨ Fenced P d₁.fetches d₂ lookup) := by
    refine hduring.invariant_of (J := fun h d => Run step d₁ h d)
      (I := fun _ d => d₁.fetches ≤ d.fetches ∧
        ((∃ l, d.invalidations[k]? = some l ∧ drop ∈ l) ∨ Fenced P d₁.fetches d lookup))
      id ⟨le_rfl, .inl ⟨l, hcall, hdrop⟩⟩ ?_
    rintro h d input d' o hrun ⟨hle, hor⟩ hstep
    have hmove := moves_of_step hstep
    have hsound := sound_of_run (hbefore.trans hrun)
    refine ⟨hle.trans (later_move hmove).fetches, ?_⟩
    rcases hor with ⟨l, hl, hmem⟩ | hfenced
    · rcases invalidations_move hmove hl with hsame | ⟨first, drops, rfl, hdrops, rfl⟩
      · exact .inl ⟨l, hsame, hmem⟩
      · rcases List.mem_cons.mp hmem with rfl | hmem
        · exact .inr fun i hi => (fenced_drop hsound hl hcovers i hi).mono hle
        · exact .inl ⟨drops, hdrops, hmem⟩
    · exact .inr (hfenced.move hsound hle hmove)
  rcases hinv.2 with ⟨l, hl, hmem⟩ | hfenced
  · obtain rfl : l = [] := Option.some.inj (hl.symm.trans hreturned)
    cases hmem
  · exact hfenced

/-- **Invalidation beats a fetch in flight.**  Once an invalidating call has returned, a call
that obtains its slot for a lookup the invalidation is about never returns an entry whose
fetch was started before the invalidation: its fetch was started since. -/
theorem fetched_after_invalidation {call : Invalidation} {reading : Instant}
    {evicted : List RoomId}
    (hbefore : Run step (init config) h₁ d₁)
    (hcall : d₁.step (.invalidate call) = some (d₂, []))
    (hduring : Run step d₂ h₂ d₃)
    (hreturned : d₃.invalidations[d₁.invalidations.length]? = some [])
    (hafter : Run step d₃ h₃ d₄)
    (hobtained : d₄.step (.obtain n reading evicted) = some (d₅, [.obtained n lookup i]))
    (hthen : Run step d₅ h₄ d₆) (hanswered : .answered n lookup e t ∈ h₄)
    (hcovers : call.Covers lookup) :
    (∀ m l t, .started e.fetch m l t ∉ h₁) ∧
      ∃ m, .started e.fetch m lookup e.fetchedAt ∈ h₂ ++ h₃ ++ h₄ := by
  obtain ⟨drop, hdrop, hdropCovers⟩ := Invalidation.exists_drop hcovers
  have hrun₂ := hbefore.step hcall
  have hrun₃ := hrun₂.trans hduring
  have hrun₄ := hrun₃.trans hafter
  have hrun₆ := (hrun₄.step hobtained).trans hthen
  have hbegun : d₂.fetches = d₁.fetches ∧
      d₂.invalidations[d₁.invalidations.length]? = some call.drops := by
    obtain ⟨rfl, -⟩ := Prod.mk.inj (Option.some.inj hcall)
    exact ⟨rfl, List.getElem?_concat_length ..⟩
  -- the call fences the lookup off, and the fence still stands when the slot is obtained
  have hfenced : Fenced (fun _ => True) d₂.fetches d₃ lookup :=
    fenced_of_returned hrun₂ hbegun.2 hdrop hdropCovers hduring hreturned
  have hle : d₂.fetches ≤ d₃.fetches :=
    hduring.invariant (I := fun _ d => d₂.fetches ≤ d.fetches) le_rfl
      fun hle hstep => hle.trans (later_move (moves_of_step hstep)).fetches
  obtain ⟨hle₄, hfenced₄⟩ := Fenced.of_run hrun₃ hfenced hle hafter
  have hge := fetched_after_fence hrun₄ hfenced₄ hle₄ hobtained hthen hanswered trivial
  have hbefore' : ∀ m l t, RoleNote.started e.fetch m l t ∉ h₁ := by
    intro m l t hmem
    have hlt := (sound_of_run hbefore).fetches e.fetch m l t hmem
    omega
  refine ⟨hbefore', ?_⟩
  -- the run shows the fetch, and not before the call
  obtain ⟨pre, post, hsplit⟩ := List.append_of_mem
    (List.mem_append_right (h₁ ++ [] ++ h₂ ++ h₃ ++ [.obtained n lookup i]) hanswered)
  obtain ⟨⟨⟨m, hstarted⟩, -⟩, -⟩ := justified_of_run hrun₆ pre _ post hsplit
  have hmem : RoleNote.started e.fetch m lookup e.fetchedAt ∈
      h₁ ++ [] ++ h₂ ++ h₃ ++ [.obtained n lookup i] ++ h₄ := by
    rw [hsplit]
    exact List.mem_append_left _ hstarted
  refine ⟨m, ?_⟩
  simp only [List.mem_append, List.mem_singleton, List.not_mem_nil, reduceCtorEq, or_false]
    at hmem ⊢
  rcases hmem with ((hmem | hmem) | hmem) | hmem
  · exact absurd hmem (hbefore' m lookup e.fetchedAt)
  · exact .inl (.inl hmem)
  · exact .inl (.inr hmem)
  · exact .inr hmem

/-! ### A run -/

/-- An admin who loses the role. -/
def demoted : UserId := ⟨"demoted"⟩

/-- A fetch is in flight. -/
def startsFetch : List RoleInput := [.ask (.isAdmin demoted), .obtain 0 0 [], .lock 0]

theorem startsFetch_enabled : (execute step (init {}) startsFetch).isSome := by
  decide +kernel

/-- The state when an invalidation of the global key begins. -/
def invalidating : RoleDirectory :=
  let d := ((execute step (init {}) startsFetch).get startsFetch_enabled).1
  { d with invalidations := d.invalidations ++ [Invalidation.global.drops] }

theorem drop_enabled : (execute step invalidating [.drop 0]).isSome := by
  decide +kernel

/-- The old fetch completes after the invalidation, and somebody asks again. -/
def completesLate : List RoleInput :=
  [.answer 0 (.ok [{ id := demoted, roles := [⟨"admin"⟩] }]), .ask (.isAdmin demoted)]

theorem completesLate_enabled :
    (execute step ((execute step invalidating [.drop 0]).get drop_enabled).1
      completesLate).isSome := by
  decide +kernel

/-- The state when the second call is about to obtain its slot. -/
def askedAgain : RoleDirectory :=
  ((execute step ((execute step invalidating [.drop 0]).get drop_enabled).1 completesLate).get
    completesLate_enabled).1

theorem obtain_enabled : (askedAgain.step (.obtain 1 0 [])).isSome := by
  decide +kernel

/-- The second call fetches anew. -/
def fetchesAnew : List RoleInput := [.lock 1, .answer 1 (.ok [])]

theorem fetchesAnew_enabled :
    (execute step ((askedAgain.step (.obtain 1 0 [])).get obtain_enabled).1
      fetchesAnew).isSome := by
  decide +kernel

/-- What the second call returns was fetched by it, though the old answer came in between. -/
theorem fetchesAnew_answered : ∃ (h₁ h₂ h₃ h₄ : List RoleNote) (e : RoleEntry) (t : Instant),
    .started 0 0 .global 0 ∈ h₁ ∧ .fetched 0 .global 0 [⟨demoted, [⟨"admin"⟩]⟩] ∈ h₃ ∧
      .answered 1 .global e t ∈ h₄ ∧ (∀ m l t, .started e.fetch m l t ∉ h₁) ∧
      ∃ m, .started e.fetch m .global e.fetchedAt ∈ h₂ ++ h₃ ++ h₄ := by
  -- The second call obtains a slot of its own.
  have hobtained : askedAgain.step (.obtain 1 0 []) =
      some (((askedAgain.step (.obtain 1 0 [])).get obtain_enabled).1,
        [.obtained 1 .global 1]) := by
    have hnotes : ((askedAgain.step (.obtain 1 0 [])).get obtain_enabled).2 =
        [.obtained 1 .global 1] := by
      decide +kernel
    rw [← hnotes, Prod.mk.eta, Option.some_get]
  -- It returns the answer of fetch 1, and fetch 0 is the one from before the demotion.
  have hanswered : .answered 1 .global { holders := some ∅, fetchedAt := 0, fetch := 1 } 0 ∈
      ((execute step ((askedAgain.step (.obtain 1 0 [])).get obtain_enabled).1 fetchesAnew).get
        fetchesAnew_enabled).2 := by
    decide +kernel
  have hcall : ((execute step (init {}) startsFetch).get startsFetch_enabled).1.step
      (.invalidate .global) = some (invalidating, []) := rfl
  -- The rule, at this run.
  have hend := fetched_after_invalidation (run_execute startsFetch startsFetch_enabled) hcall
    (run_execute [.drop 0] drop_enabled) (by decide +kernel)
    (run_execute completesLate completesLate_enabled) hobtained
    (run_execute fetchesAnew fetchesAnew_enabled) hanswered rfl
  have hstarted : .started 0 0 .global 0 ∈
      ((execute step (init {}) startsFetch).get startsFetch_enabled).2 := by
    decide +kernel
  have hlate : .fetched 0 .global 0 [⟨demoted, [⟨"admin"⟩]⟩] ∈ ((execute step
      ((execute step invalidating [.drop 0]).get drop_enabled).1 completesLate).get
        completesLate_enabled).2 := by
    decide +kernel
  exact ⟨_, _, _, _, _, _, hstarted, hlate, hanswered, hend⟩

end RoleDirectory
end RocketSocket
