import RocketSocket.Realtime.Ledger

/-!
# What becomes of every call

The life of a mark: its frame is queued and its call registered, the frame is handed to
the sink, and the call is answered by a frame or told that its generation ended.

## Main definitions

* `Wire.queueMarks`, `Wire.waiterOf` — the frames that wait, and the calls that do.
* `Fates` — while its generation lasts a call is pending or answered, and afterwards it
  was sent a reply.
* `Obs.Lawful` — a reply says what its cause says.

## Main results

* `Fates.step` — every wire step keeps the fates.
* `lawful_step` — every reply a wire step sends is lawful.
* `Ledger.step` — **every wire step keeps the ledger**, all the invariants together.
-/

namespace RocketSocket

open Machine

variable {κ : Type} {cause : Cause}

/-- The marks of the frames that still wait. -/
def Wire.queueMarks (w : Wire κ) : List Mark := (w.priority ++ w.app).filterMap Outbound.mark

/-- The waiter of a pending call. -/
def Wire.waiterOf (w : Wire κ) (m : Mark) : Option (Waiter κ) :=
  (w.pendingOf m).map Pending.reply

theorem Wire.mem_queueMarks {w : Wire κ} {m : Mark} : m ∈ w.queueMarks ↔
    (∃ out ∈ w.priority, out.mark = some m) ∨ ∃ out ∈ w.app, out.mark = some m := by
  simp only [queueMarks, List.filterMap_append, List.mem_append, List.mem_filterMap]

/-- The waiters when a call has been registered under the next mark of its side. -/
theorem Wire.waiterOf_register (w : Wire κ) (side : Side) (k : Waiter κ) (m : Mark) :
    ((register side k).state w).waiterOf m =
      if m = w.nextMark side then some k else w.waiterOf m := by
  rw [waiterOf, pendingOf_register]
  by_cases hm : m = w.nextMark side
  · simp [hm]
  · simp [hm, waiterOf]

/-- What became of every mark: while its generation lasts the call is pending, unless a
frame answered it, and when it ends every waiter is sent a reply. -/
structure Fates (h : List (Seen κ)) (w : Wire κ) : Prop where
  fate : ∀ g, ∀ m ∈ issuedOn g h,
    (g = w.generation ∧ (w.waiterOf m ≠ none ∨ AnsweredOn g h m)) ∨
    (g < w.generation ∧ SettledOn g h m)
  queued : ∀ m ∈ w.queueMarks, m ∈ issuedOn w.generation h
  handed : ∀ g lane out accepted, (g, .handed lane out accepted) ∈ h →
    ∀ m, out.mark = some m → m ∈ issuedOn g h
  pending : ∀ m k, w.waiterOf m = some k →
    m ∈ issuedOn w.generation h ∧ (m ∈ w.queueMarks ∨ m ∈ handedMarks h)
  settled : ∀ g cause m k reply, (g, .settled cause m k reply) ∈ h →
    w.waiterOf m = none ∧ m ∈ issued h
  waiter : ∀ m k, w.waiterOf m = some k → IssuedFor w.generation h m k
  settledWaiter : ∀ g cause m k reply, (g, .settled cause m k reply) ∈ h → IssuedFor g h m k

theorem issuedOn_subset {h : List (Seen κ)} {g : ℕ} {m : Mark} (hm : m ∈ issuedOn g h) :
    m ∈ issued h := by
  obtain ⟨x, hx, hm⟩ := List.mem_filterMap.mp hm
  exact List.mem_filterMap.mpr ⟨x, (List.mem_filter.mp hx).1, hm⟩

/-- A step that issues nothing. -/
theorem issuedOn_append_quiet {h o : List (Seen κ)} {g : ℕ} (hissued : issued o = []) :
    issuedOn g (h ++ o) = issuedOn g h := by
  have hnil : issuedOn g o = [] := by
    rw [List.eq_nil_iff_forall_not_mem]
    intro m hm
    have := issuedOn_subset hm
    rw [hissued] at this
    simp at this
  rw [issuedOn_append, hnil, List.append_nil]

theorem IssuedFor.mono {h o : List (Seen κ)} {g : ℕ} {m : Mark} {k : Waiter κ}
    (ht : IssuedFor g h m k) : IssuedFor g (h ++ o) m k := by
  cases k with
  | login =>
    obtain ⟨out, hx, hm⟩ := ht
    exact ⟨out, List.mem_append_left _ hx, hm⟩
  | caller k =>
    obtain ⟨command, phase, out, hx, hk, hm⟩ := ht
    exact ⟨command, phase, out, List.mem_append_left _ hx, hk, hm⟩

theorem IssuedFor.mono_right {h o : List (Seen κ)} {g : ℕ} {m : Mark} {k : Waiter κ}
    (ht : IssuedFor g o m k) : IssuedFor g (h ++ o) m k := by
  cases k with
  | login =>
    obtain ⟨out, hx, hm⟩ := ht
    exact ⟨out, List.mem_append_right _ hx, hm⟩
  | caller k =>
    obtain ⟨command, phase, out, hx, hk, hm⟩ := ht
    exact ⟨command, phase, out, List.mem_append_right _ hx, hk, hm⟩

/-- The mark of a call that was registered is issued. -/
theorem IssuedFor.mem_issuedOn {h : List (Seen κ)} {g : ℕ} {m : Mark} {k : Waiter κ}
    (hk : IssuedFor g h m k) : m ∈ issuedOn g h := by
  cases k with
  | login =>
    obtain ⟨out, hx, hm⟩ := hk
    exact List.mem_filterMap.mpr ⟨_, List.mem_filter.mpr ⟨hx, by simp⟩, hm⟩
  | caller k =>
    obtain ⟨command, phase, out, hx, -, hm⟩ := hk
    exact List.mem_filterMap.mpr ⟨_, List.mem_filter.mpr ⟨hx, by simp⟩, hm⟩

/-- A mark is issued once, for one waiter. -/
theorem IssuedFor.unique {h : List (Seen κ)} (hnodup : (issued h).Nodup) {g g' : ℕ} {m : Mark}
    {k k' : Waiter κ} (hk : IssuedFor g h m k) (hk' : IssuedFor g' h m k') :
    g = g' ∧ k = k' := by
  -- Each issues the mark in one observation, and no mark is issued in two.
  cases k with
  | login =>
    obtain ⟨out, hx, hm⟩ := hk
    cases k' with
    | login =>
      obtain ⟨out', hx', hm'⟩ := hk'
      have heq := eq_of_nodup_filterMap hnodup hx hx' hm hm'
      exact ⟨(Prod.mk.inj heq).1, rfl⟩
    | caller k' =>
      obtain ⟨command', phase', out', hx', -, hm'⟩ := hk'
      have heq := eq_of_nodup_filterMap hnodup hx hx' hm hm'
      simp at heq
  | caller k =>
    obtain ⟨command, phase, out, hx, hack, hm⟩ := hk
    cases k' with
    | login =>
      obtain ⟨out', hx', hm'⟩ := hk'
      have heq := eq_of_nodup_filterMap hnodup hx hx' hm hm'
      simp at heq
    | caller k' =>
      obtain ⟨command', phase', out', hx', hack', hm'⟩ := hk'
      have heq := eq_of_nodup_filterMap hnodup hx hx' hm hm'
      -- It is the same command, and a command has one caller.
      obtain ⟨rfl, htook⟩ := Prod.mk.inj heq
      obtain ⟨rfl, -, -⟩ := Obs.took.inj htook
      rw [hack] at hack'
      exact ⟨rfl, congrArg Waiter.caller (Option.some.inj hack')⟩

theorem AnsweredOn.mono {h o : List (Seen κ)} {g : ℕ} {m : Mark} (ha : AnsweredOn g h m) :
    AnsweredOn g (h ++ o) m := by
  obtain ⟨message, k, reply, hx⟩ := ha
  exact ⟨message, k, reply, List.mem_append_left _ hx⟩

theorem SettledOn.mono {h o : List (Seen κ)} {g : ℕ} {m : Mark} (hs : SettledOn g h m) :
    SettledOn g (h ++ o) m := by
  obtain ⟨cause, k, reply, hx⟩ := hs
  exact ⟨cause, k, reply, List.mem_append_left _ hx⟩

theorem AnsweredOn.settledOn {h : List (Seen κ)} {g : ℕ} {m : Mark} (ha : AnsweredOn g h m) :
    SettledOn g h m := by
  obtain ⟨message, k, reply, hx⟩ := ha
  exact ⟨some message, k, reply, hx⟩

namespace Fates

variable {h o : List (Seen κ)} {w w' : Wire κ}

theorem init : Fates [] (.init : Wire κ) where
  fate := fun _ _ hm => by simp [issuedOn, issued] at hm
  queued := fun _ hm => by simp [Wire.queueMarks, Wire.init] at hm
  handed := fun _ _ _ _ hx => by simp at hx
  pending := fun _ _ hk => by simp [Wire.waiterOf] at hk
  settled := fun _ _ _ _ _ hx => by simp at hx
  waiter := fun _ _ hk => by simp [Wire.waiterOf] at hk
  settledWaiter := fun _ _ _ _ _ hx => by simp at hx

/-- A mark whose generation goes on, and whose waiter the step leaves alone. -/
theorem fate_append (hf : Fates h w) {g : ℕ} {m : Mark} (hm : m ∈ issuedOn g h)
    (hwaiter : w'.waiterOf m = w.waiterOf m) (hgen : w'.generation = w.generation) :
    (g = w'.generation ∧ (w'.waiterOf m ≠ none ∨ AnsweredOn g (h ++ o) m)) ∨
      (g < w'.generation ∧ SettledOn g (h ++ o) m) := by
  rw [hgen, hwaiter]
  rcases hf.fate g m hm with ⟨hg, hw | ha⟩ | ⟨hg, hs⟩
  · exact .inl ⟨hg, .inl hw⟩
  · exact .inl ⟨hg, .inr ha.mono⟩
  · exact .inr ⟨hg, hs.mono⟩

/-- The frames handed to the sink, where the step hands none. -/
theorem handed_append (hf : Fates h w) (hhanded : handedMarks o = []) {g : ℕ} {lane : Lane}
    {out : Outbound} {accepted : Bool} (hx : (g, .handed lane out accepted) ∈ h ++ o) {m : Mark}
    (hm : out.mark = some m) : m ∈ issuedOn g h := by
  rcases List.mem_append.mp hx with hx | hx
  · exact hf.handed g lane out accepted hx m hm
  · have hmem : m ∈ handedMarks o := List.mem_filterMap.mpr ⟨_, hx, hm⟩
    rw [hhanded] at hmem
    simp at hmem

/-- A step that moves no marked frame and settles nothing, and after which the same calls
are pending and the same frames wait. -/
theorem frame (hf : Fates h w) (hissued : issued o = []) (hhanded : handedMarks o = [])
    (hsettled : ∀ g cause m k reply, (g, .settled cause m k reply) ∉ o)
    (hwaiter : ∀ m, w'.waiterOf m = w.waiterOf m)
    (hqueue : ∀ m, m ∈ w'.queueMarks ↔ m ∈ w.queueMarks)
    (hgen : w'.generation = w.generation) : Fates (h ++ o) w' := by
  have hissuedOn : ∀ g, issuedOn g (h ++ o) = issuedOn g h := fun g => issuedOn_append_quiet hissued
  refine ⟨fun g m hm => ?_, fun m hm => ?_, fun g lane out accepted hx m hm => ?_,
    fun m k hk => ?_, fun g cause m k reply hx => ?_, fun m k hk => ?_,
    fun g cause m k reply hx => ?_⟩
  · -- A mark issued before has the fate it had.
    rw [hissuedOn] at hm
    exact hf.fate_append hm (hwaiter m) hgen
  · rw [hgen, hissuedOn]
    exact hf.queued m ((hqueue m).mp hm)
  · rw [hissuedOn]
    exact hf.handed_append hhanded hx hm
  · -- A call that is pending waits in a queue or was handed over.
    rw [hgen, hissuedOn, hqueue, handedMarks_append, hhanded, List.append_nil]
    exact hf.pending m k (hwaiter m ▸ hk)
  · rcases List.mem_append.mp hx with hx | hx
    · obtain ⟨hw, hm⟩ := hf.settled g cause m k reply hx
      exact ⟨(hwaiter m).trans hw, by simp [hm]⟩
    · exact absurd hx (hsettled g cause m k reply)
  · rw [hgen]
    exact (hf.waiter m k (hwaiter m ▸ hk)).mono
  · -- What is settled was settled before.
    rcases List.mem_append.mp hx with hx | hx
    · exact (hf.settledWaiter g cause m k reply hx).mono
    · exact absurd hx (hsettled g cause m k reply)

/-- A call is registered and its frame queued, under a mark not seen before. -/
theorem issue (hf : Fates h w) {m₀ : Mark} {k₀ : Waiter κ} {y : Obs κ}
    (hfresh : m₀ ∉ issued h) (hissued : issued [(w.generation, y)] = [m₀])
    (hhanded : ∀ lane out accepted, y ≠ .handed lane out accepted)
    (hsettled : ∀ cause m k reply, y ≠ .settled cause m k reply)
    (hcaller : IssuedFor w.generation [(w.generation, y)] m₀ k₀)
    (hwaiter : ∀ m, w'.waiterOf m = if m = m₀ then some k₀ else w.waiterOf m)
    (hqueue : ∀ m, m ∈ w'.queueMarks ↔ m ∈ w.queueMarks ∨ m = m₀)
    (hgen : w'.generation = w.generation) : Fates (h ++ [(w.generation, y)]) w' := by
  have hissuedOn : ∀ g m, m ∈ issuedOn g (h ++ [(w.generation, y)]) ↔
      m ∈ issuedOn g h ∨ g = w.generation ∧ m = m₀ := by
    intro g m
    rw [issuedOn_append, List.mem_append]
    refine or_congr_right ?_
    by_cases hg : w.generation = g
    · have hone : issuedOn g [(w.generation, y)] = [m₀] := by
        rw [issuedOn, List.filter_cons_of_pos (by simpa using hg), List.filter_nil, hissued]
      rw [hone]
      simp [hg]
    · have hnil : issuedOn g [(w.generation, y)] = [] := by
        rw [issuedOn, List.filter_cons_of_neg (by simpa using hg), List.filter_nil]
        rfl
      rw [hnil]
      simp [Ne.symm hg]
  -- A mark that is waited for was issued before, so it is another one.
  have hold : ∀ {m k}, w.waiterOf m = some k → m ≠ m₀ := by
    rintro m k hk rfl
    exact hfresh (issuedOn_subset (hf.pending m k hk).1)
  refine ⟨fun g m hm => ?_, fun m hm => ?_, fun g lane out accepted hx m hm => ?_,
    fun m k hk => ?_, fun g cause m k reply hx => ?_, fun m k hk => ?_,
    fun g cause m k reply hx => ?_⟩
  · rcases (hissuedOn g m).mp hm with hm | ⟨hg, hm⟩
    · have hne : m ≠ m₀ := fun h => hfresh (h ▸ issuedOn_subset hm)
      exact hf.fate_append hm ((hwaiter m).trans (if_neg hne)) hgen
    · rw [hgen, hwaiter]
      exact .inl ⟨hg, .inl (by simp [hm])⟩
  · rw [hgen, hissuedOn]
    rcases (hqueue m).mp hm with hm | hm
    · exact .inl (hf.queued m hm)
    · exact .inr ⟨rfl, hm⟩
  · rw [hissuedOn]
    rcases List.mem_append.mp hx with hx | hx
    · exact .inl (hf.handed g lane out accepted hx m hm)
    · exact absurd (Prod.mk.inj (List.mem_singleton.mp hx)).2.symm (hhanded lane out accepted)
  · rw [hgen, hissuedOn, hqueue, handedMarks_append, List.mem_append]
    rw [hwaiter] at hk
    split at hk
    · next hm => exact ⟨.inr ⟨rfl, hm⟩, .inl (.inr hm)⟩
    · obtain ⟨hi, hq⟩ := hf.pending m k hk
      exact ⟨.inl hi, hq.imp .inl .inl⟩
  · rcases List.mem_append.mp hx with hx | hx
    · obtain ⟨hw, hm⟩ := hf.settled g cause m k reply hx
      have hne : m ≠ m₀ := fun h => hfresh (h ▸ hm)
      rw [hwaiter, if_neg hne]
      exact ⟨hw, by simp [hm]⟩
    · exact absurd (Prod.mk.inj (List.mem_singleton.mp hx)).2.symm (hsettled cause m k reply)
  · rw [hgen]
    rw [hwaiter] at hk
    split at hk
    · next hm =>
      obtain rfl := Option.some.inj hk
      exact hm ▸ hcaller.mono_right
    · exact (hf.waiter m k hk).mono
  · rcases List.mem_append.mp hx with hx | hx
    · exact (hf.settledWaiter g cause m k reply hx).mono
    · exact absurd (Prod.mk.inj (List.mem_singleton.mp hx)).2.symm (hsettled cause m k reply)

/-- The head of a lane is passed to the sink. -/
theorem hand (hf : Fates h w) {lane : Lane} {out : Outbound} {accepted : Bool}
    (hwaiter : ∀ m, w'.waiterOf m = w.waiterOf m)
    (hqueue : ∀ m, m ∈ w.queueMarks ↔ m ∈ w'.queueMarks ∨ out.mark = some m)
    (hgen : w'.generation = w.generation) :
    Fates (h ++ [(w.generation, .handed lane out accepted)]) w' := by
  have hissuedOn : ∀ g, issuedOn g (h ++ [(w.generation, .handed lane out accepted)]) =
      issuedOn g h := fun g => issuedOn_append_quiet rfl
  refine ⟨fun g m hm => ?_, fun m hm => ?_, fun g lane' out' accepted' hx m hm => ?_,
    fun m k hk => ?_, fun g cause m k reply hx => ?_, fun m k hk => ?_,
    fun g cause m k reply hx => ?_⟩
  · rw [hissuedOn] at hm
    exact hf.fate_append hm (hwaiter m) hgen
  · rw [hgen, hissuedOn]
    exact hf.queued m ((hqueue m).mpr (.inl hm))
  · rw [hissuedOn]
    rcases List.mem_append.mp hx with hx | hx
    · exact hf.handed g lane' out' accepted' hx m hm
    · -- What is handed over now stood in the queue, so it was issued on this generation.
      obtain ⟨rfl, heq⟩ := Prod.mk.inj (List.mem_singleton.mp hx)
      obtain ⟨rfl, rfl, rfl⟩ := Obs.handed.inj heq
      exact hf.queued m ((hqueue m).mpr (.inr hm))
  · rw [hgen, hissuedOn, handedMarks_append, List.mem_append]
    obtain ⟨hi, hq⟩ := hf.pending m k (hwaiter m ▸ hk)
    refine ⟨hi, ?_⟩
    rcases hq with hq | hq
    · -- The frame is still queued, or it is the one that is handed over.
      rcases (hqueue m).mp hq with hq | hq
      · exact .inl hq
      · exact .inr (.inr (by simp [handedMarks, hq]))
    · exact .inr (.inl hq)
  · rw [hwaiter]
    obtain ⟨hw, hm⟩ := hf.settled g cause m k reply (by simpa using hx)
    exact ⟨hw, by simp [hm]⟩
  · rw [hgen]
    exact (hf.waiter m k (hwaiter m ▸ hk)).mono
  · exact (hf.settledWaiter g cause m k reply (by simpa using hx)).mono

/-- Calls leave the table, each sent a reply: one, when a frame answers it, or all, when
the generation ends. -/
theorem settle (hf : Fates h w) {cause : Option ServerMessage} (hissued : issued o = [])
    (hhanded : handedMarks o = [])
    (hsettled : ∀ g c m k reply, (g, .settled c m k reply) ∈ o →
      g = w.generation ∧ c = cause ∧ w.waiterOf m = some k ∧ w'.waiterOf m = none)
    (hwaiter : ∀ m, w'.waiterOf m = w.waiterOf m ∨ w'.waiterOf m = none ∧
      ∀ k, w.waiterOf m = some k → ∃ reply, (w.generation, .settled cause m k reply) ∈ o)
    (hqueue : ∀ m ∈ w'.queueMarks, m ∈ w.queueMarks)
    (hgen : w'.generation = w.generation ∧ cause ≠ none ∧ w'.queueMarks = w.queueMarks ∨
      w'.generation = w.generation + 1 ∧ w'.queueMarks = [] ∧ ∀ m, w'.waiterOf m = none) :
    Fates (h ++ o) w' := by
  have hissuedOn : ∀ g, issuedOn g (h ++ o) = issuedOn g h := fun g => issuedOn_append_quiet hissued
  have hkeep : ∀ m k, w'.waiterOf m = some k → w.waiterOf m = some k := by
    intro m k hk
    rcases hwaiter m with h | ⟨h, -⟩
    · rw [← h, hk]
    · rw [h] at hk
      simp at hk
  -- A call that was pending still is, or was sent a reply by this step.
  have hfate : ∀ m, w.waiterOf m ≠ none → w'.waiterOf m ≠ none ∨
      ∃ k reply, (w.generation, .settled cause m k reply) ∈ o := by
    intro m hm
    rcases hwaiter m with h | ⟨-, h⟩
    · exact .inl (h ▸ hm)
    · obtain ⟨k, hk⟩ := Option.ne_none_iff_exists'.mp hm
      obtain ⟨reply, hx⟩ := h k hk
      exact .inr ⟨k, reply, hx⟩
  refine ⟨fun g m hm => ?_, fun m hm => ?_, fun g lane out accepted hx m hm => ?_,
    fun m k hk => ?_, fun g c m k reply hx => ?_, fun m k hk => ?_,
    fun g c m k reply hx => ?_⟩
  · rw [hissuedOn] at hm
    rcases hf.fate g m hm with ⟨rfl, hw⟩ | ⟨hg, hs⟩
    · rcases hgen with ⟨hgen, hcause, -⟩ | ⟨hgen, -, hnone⟩
      · rw [hgen]
        refine .inl ⟨rfl, ?_⟩
        rcases hw with hw | ha
        · rcases hfate m hw with hw | ⟨k, reply, hx⟩
          · exact .inl hw
          · obtain ⟨message, rfl⟩ := Option.ne_none_iff_exists'.mp hcause
            exact .inr ⟨message, k, reply, List.mem_append_right _ hx⟩
        · exact .inr ha.mono
      · rw [hgen]
        refine .inr ⟨Nat.lt_succ_self _, ?_⟩
        rcases hw with hw | ha
        · rcases hfate m hw with hw | ⟨k, reply, hx⟩
          · exact absurd (hnone m) hw
          · exact ⟨cause, k, reply, List.mem_append_right _ hx⟩
        · exact ha.settledOn.mono
    · refine .inr ⟨?_, hs.mono⟩
      rcases hgen with ⟨hgen, -⟩ | ⟨hgen, -⟩ <;> omega
  · rcases hgen with ⟨hgen, -, -⟩ | ⟨-, hnil, -⟩
    · rw [hgen, hissuedOn]
      exact hf.queued m (hqueue m hm)
    · rw [hnil] at hm
      simp at hm
  · rw [hissuedOn]
    exact hf.handed_append hhanded hx hm
  · obtain ⟨hi, hq⟩ := hf.pending m k (hkeep m k hk)
    rcases hgen with ⟨hgen, -, hsame⟩ | ⟨-, -, hnone⟩
    · rw [hgen, hissuedOn, hsame, handedMarks_append, hhanded, List.append_nil]
      exact ⟨hi, hq⟩
    · rw [hnone] at hk
      simp at hk
  · rcases List.mem_append.mp hx with hx | hx
    · obtain ⟨hw, hm⟩ := hf.settled g c m k reply hx
      refine ⟨?_, by simp [hm]⟩
      rcases hwaiter m with h | ⟨h, -⟩
      · rw [h, hw]
      · exact h
    · obtain ⟨-, -, hw, hw'⟩ := hsettled g c m k reply hx
      exact ⟨hw', by simp [issuedOn_subset (hf.pending m k hw).1]⟩
  · rcases hgen with ⟨hgen, -⟩ | ⟨-, -, hnone⟩
    · rw [hgen]
      exact (hf.waiter m k (hkeep m _ hk)).mono
    · rw [hnone] at hk
      simp at hk
  · rcases List.mem_append.mp hx with hx | hx
    · exact (hf.settledWaiter g c m k reply hx).mono
    · obtain ⟨rfl, -, hw, -⟩ := hsettled g c m k reply hx
      exact (hf.waiter m k hw).mono

/-- Most steps neither issue nor hand over nor settle anything. -/
theorem quiet (hf : Fates h w) (hissued : issued o = []) (hhanded : handedMarks o = [])
    (hsettled : ∀ g cause m k reply, (g, .settled cause m k reply) ∉ o)
    (htable : w'.table = w.table) (hqueue : ∀ m, m ∈ w'.queueMarks ↔ m ∈ w.queueMarks)
    (hgen : w'.generation = w.generation) : Fates (h ++ o) w' := by
  refine hf.frame hissued hhanded hsettled (fun m => ?_) hqueue hgen
  simp only [Wire.waiterOf, Wire.pendingOf, htable]

/-- The login is a call as any other, under the next mark of its side. -/
theorem step_login (hi : Ids h w) (hf : Fates h w) (params : List Value) :
    Fates (h ++ (Wire.login params).obs w) ((Wire.login params).state w) := by
  refine @issue _ _ _ _ hf (w.nextMark .methods) .login _ (hi.fresh .methods) rfl (by simp)
    (by simp) ⟨_, List.mem_singleton_self _, rfl⟩ (fun m => ?_) (fun m => ?_) rfl
  · rw [Wire.state_login]
    exact Wire.waiterOf_register w .methods .login m
  · rw [Wire.state_login]
    simp only [Wire.queueMarks, List.filterMap_append, List.mem_append]
    have hone : m ∈ [w.loginFrame params].filterMap Outbound.mark ↔ m = w.nextMark .methods := by
      simp [Wire.loginFrame]
    rw [hone]
    show (_ ∨ _) ∨ m ∈ w.app.filterMap Outbound.mark ↔ _
    tauto

/-- The frame at the front is handed over, of the priority lane if there is one. -/
theorem step_hand (hf : Fates h w) (accepted : Bool) :
    Fates (h ++ (Wire.hand accepted).obs w) ((Wire.hand accepted).state w) := by
  rcases Wire.hand_cases w accepted with ⟨out, rest, hl, ho, hw⟩ |
    ⟨out, rest, hnil, hl, ho, hw⟩ | ⟨-, -, ho, hw⟩
  · rw [ho, hw]
    refine hf.hand (fun _ => rfl) (fun m => ?_) rfl
    simp only [Wire.queueMarks, hl, List.cons_append, List.mem_filterMap, List.mem_cons,
      exists_eq_or_imp]
    exact or_comm
  · rw [ho, hw]
    refine hf.hand (fun _ => rfl) (fun m => ?_) rfl
    simp only [Wire.queueMarks, hl, hnil, List.nil_append, List.mem_filterMap, List.mem_cons,
      exists_eq_or_imp]
    exact or_comm
  · rw [ho, hw, List.append_nil]
    exact hf

/-- A flush marks calls as sent; their waiters stay. -/
theorem step_flushed (hf : Fates h w) : Fates (h ++ []) w.flushed := by
  refine hf.frame rfl rfl (by simp) (fun m => ?_) (fun _ => Iff.rfl) rfl
  rw [Wire.waiterOf, Wire.pendingOf_flushed]
  split
  · simp [Wire.waiterOf, Function.comp_def]
  · rfl

/-- Only the call that a frame answers is settled, and by that frame. -/
theorem step_answer (hi : Ids h w) (hf : Fates h w) (message : ServerMessage) (m₀ : Mark)
    (outcome : Except DdpError Value) :
    Fates (h ++ (Wire.answer message m₀ outcome).obs w)
      ((Wire.answer message m₀ outcome).state w) := by
  have hobs := Wire.obs_answer w m₀ message outcome (hi.epoch m₀)
  have hpend := fun m => Wire.pendingOf_answer w m₀ m message outcome
  obtain ⟨hissued, hhanded⟩ := w.nil_of_answer message m₀ outcome
  refine @settle _ _ _ _ _ hf (some message) hissued hhanded
    (fun g c m k reply hx => ?_) (fun m => ?_) (fun m hm => hm) (.inl ⟨rfl, by simp, rfl⟩)
  · -- What is told is told by this frame, to the waiter of the call.
    rw [hobs] at hx
    cases hp : w.pendingOf m₀ with
    | none => simp [hp] at hx
    | some p =>
      simp only [hp, List.mem_singleton, Prod.mk.injEq, Obs.settled.injEq] at hx
      obtain ⟨rfl, rfl, rfl, rfl, -⟩ := hx
      exact ⟨rfl, rfl, by simp [Wire.waiterOf, hp], by simp [Wire.waiterOf, hpend]⟩
  · -- The call is told, and every other one still waits.
    by_cases hm : m = m₀
    · subst hm
      refine .inr ⟨by simp [Wire.waiterOf, hpend], fun k hk => ?_⟩
      obtain ⟨p, hp, rfl⟩ := Option.map_eq_some_iff.mp hk
      rw [hobs, hp]
      exact ⟨_, List.mem_singleton_self _⟩
    · exact .inl (by simp [Wire.waiterOf, hpend, hm])

/-- The connection is over, and every call that is pending is settled at once. -/
theorem step_settle (hf : Fates h w) (why : Ending) (session : Session) :
    Fates (h ++ w.settleObs why) { (Wire.settle why).state w with session } := by
  obtain ⟨hissued, hhanded⟩ := w.nil_of_settle why
  -- The flush before the end changes no waiter.
  have hreply : ∀ m k, w.waiterOf m = some k ↔
      ∃ p, w.flushed.pendingOf m = some p ∧ p.reply = k := by
    intro m k
    rw [Wire.pendingOf_flushed, Wire.waiterOf, Option.map_eq_some_iff]
    split
    · simp
    · rfl
  refine @settle _ _ _ _ _ hf none hissued hhanded (fun g c m k reply hx => ?_)
    (fun m => .inr ⟨rfl, fun k hk => ?_⟩) (fun m hm => ?_) (.inr ⟨rfl, rfl, fun _ => rfl⟩)
  · obtain ⟨rfl, h | ⟨m', p, hp, h⟩⟩ := (w.mem_settleObs).mp hx
    · simp at h
    · obtain ⟨rfl, rfl, rfl, -⟩ := Obs.settled.inj h
      exact ⟨rfl, rfl, (hreply m p.reply).mpr ⟨p, hp, rfl⟩, rfl⟩
  · obtain ⟨p, hp, rfl⟩ := (hreply m k).mp hk
    exact ⟨_, (w.mem_settleObs).mpr ⟨rfl, .inr ⟨m, p, hp, rfl⟩⟩⟩
  · simp [Wire.queueMarks, Wire.settle, Act.state] at hm

/-- A command is dropped, sent with no call, cancelled, or registered as one. -/
theorem step_take (hi : Ids h w) (hf : Fates h w) (command : Command κ) (dropped : Bool) :
    Fates (h ++ (Wire.handleCommand command dropped).obs w)
      ((Wire.handleCommand command dropped).state w) := by
  rcases Wire.take_cases w command dropped with ⟨ho, hw⟩ | ⟨out, hout, ho, hw⟩ |
    ⟨waiter, ho, hw⟩ | ⟨ack, out, hack, hout, ho, hw⟩
  · rw [ho, hw]
    exact hf.quiet rfl rfl (by simp) rfl (fun _ => Iff.rfl) rfl
  · rw [ho, hw]
    exact hf.quiet (by simp [issued, hout]) rfl (by simp) rfl (by simp [Wire.queueMarks, hout]) rfl
  · -- The waiter was dropped: the call is registered and taken back at once.
    rw [ho, hw]
    refine hf.frame rfl rfl (by simp) (fun m => ?_) (fun _ => Iff.rfl) rfl
    rw [Wire.waiterOf, Wire.pendingOf_cancel, Wire.pendingOf_register]
    split
    · next hm => rw [hm, Wire.waiterOf, hi.pendingOf_nextMark]
    · rfl
  · rw [ho, hw]
    refine @issue _ _ _ _ hf (w.nextMark command.side) (.caller ack) _ (hi.fresh _)
      (by simp [issued, hout]) (by simp) (by simp)
      ⟨command, _, out, List.mem_singleton_self _, hack, hout⟩
      (Wire.waiterOf_register w command.side (.caller ack)) (fun m => ?_) rfl
    show m ∈ (w.priority ++ (w.app ++ [out])).filterMap Outbound.mark ↔ _
    rw [← List.append_assoc, List.filterMap_append, List.mem_append]
    refine or_congr_right ?_
    simp [hout, eq_comm]

/-- **Every wire step keeps the fates.** -/
theorem step (hi : Ids h w) (hf : Fates h w) (hs : Wire.Step cause w o w') : Fates (h ++ o) w' := by
  cases hs with
  | emitted event hevent => exact hf.quiet rfl rfl (by simp) rfl (fun _ => Iff.rfl) rfl
  | ready epoch => exact hf.quiet rfl rfl (by simp) rfl (fun _ => Iff.rfl) rfl
  | connect hphase => exact hf.quiet rfl rfl (by simp) rfl (by simp [Wire.queueMarks]) rfl
  | hear message hlive => exact hf.quiet rfl rfl (by simp) rfl (fun _ => Iff.rfl) rfl
  | push frame hlive hframe => exact hf.quiet rfl rfl (by simp) rfl (by simp [Wire.queueMarks]) rfl
  | login params hphase => exact hf.step_login hi params
  | hand accepted hlive hready => exact hf.step_hand accepted
  | flushed => exact hf.step_flushed
  | answer ha => exact hf.step_answer hi _ _ _
  | settle why session hlive => exact hf.step_settle why session
  | take command dropped => exact hf.step_take hi command dropped

end Fates

/-! ### Replies -/

/-- A reply says what its cause says: a frame answers with its own outcome, and the end of a
generation with one of the two errors it has.  The frame of a command carries the id its call
is registered under. -/
def Obs.Lawful : Obs κ → Prop
  | .took (.call method params _) _ (some out) =>
    ∃ id, out = ⟨.method id method params, some ⟨.methods, id⟩⟩
  | .took (.subscribe name params _) _ (some out) =>
    ∃ id, out = ⟨.sub id name params, some ⟨.subs, id⟩⟩
  | .took (.unsubscribe id) _ (some out) => out = ⟨.unsub id, none⟩
  | .settled none m _ reply => reply = .error .notSent ∨ reply = .error (.abandoned m.id)
  | .settled (some message) m _ reply =>
    ∃ outcome, Wire.Answers message m outcome ∧ reply = outcome.mapError .server
  | _ => True

/-- Every reply a wire step sends is lawful. -/
theorem lawful_step {h o : List (Seen κ)} {w w' : Wire κ} (hi : Ids h w)
    (hs : Wire.Step cause w o w') : ∀ x ∈ o, x.2.Lawful := by
  cases hs with
  | answer ha =>
    rename_i message m outcome
    -- The reply carries what the frame says, for the entry is of this epoch.
    rw [Wire.obs_answer w m message outcome (hi.epoch m)]
    intro x hx
    cases hp : w.pendingOf m with
    | none => simp [hp] at hx
    | some p =>
      simp only [hp, List.mem_singleton] at hx
      subst hx
      exact ⟨outcome, ha, rfl⟩
  | settle why session hlive =>
    -- A call that is lost is told whether its frame had left.
    rintro ⟨g, x⟩ hx
    obtain ⟨-, rfl | ⟨m, p, -, rfl⟩⟩ := (w.mem_settleObs).mp hx
    · trivial
    · show _ ∨ _
      cases p.sent
      · exact .inl rfl
      · exact .inr rfl
  | hand accepted hlive hready =>
    rcases Wire.hand_cases w accepted with ⟨_, _, -, ho, -⟩ | ⟨_, _, -, -, ho, -⟩ | ⟨-, -, ho, -⟩
    all_goals
      rw [ho]
      simp [Obs.Lawful]
  | take command dropped =>
    intro x hx
    cases command with
    | call method params ack =>
      cases dropped with
      | false => exact List.mem_singleton.mp hx ▸ ⟨_, rfl⟩
      | true => exact List.mem_singleton.mp hx ▸ trivial
    | subscribe name params ack =>
      cases dropped with
      | false => exact List.mem_singleton.mp hx ▸ ⟨_, rfl⟩
      | true => exact List.mem_singleton.mp hx ▸ trivial
    | unsubscribe id => exact List.mem_singleton.mp hx ▸ rfl
    | shutdown => exact List.mem_singleton.mp hx ▸ trivial
  | login params hphase => simp [Wire.obs_login, Obs.Lawful]
  | _ => simp [Obs.Lawful]

/-- A generation that ended is over. -/
theorem Wire.Step.ended {w w' : Wire κ} {o : List (Seen κ)} (hs : Wire.Step cause w o w') {g : ℕ}
    {why : Ending} (hx : (g, .ended why) ∈ o) : g < w'.generation := by
  cases hs with
  | settle why session hlive =>
    exact Nat.lt_succ_of_le (Wire.obs_settle_of_mem hx).1.le
  | answer ha =>
    obtain ⟨y, -, heq⟩ := List.mem_map.mp hx
    simp at heq
  | hand accepted hlive hready =>
    rcases Wire.hand_cases w accepted with ⟨_, _, -, ho, -⟩ | ⟨_, _, -, -, ho, -⟩ | ⟨-, -, ho, -⟩
    all_goals
      rw [ho] at hx
      simp at hx
  | take command dropped =>
    rcases Wire.take_cases w command dropped with ⟨ho, -⟩ | ⟨_, -, ho, -⟩ | ⟨_, ho, -⟩ |
      ⟨_, _, -, -, ho, -⟩
    all_goals
      rw [ho] at hx
      simp at hx
  | login params hphase => simp [Wire.obs_login] at hx
  | _ => simp at hx

/-! ### All of them -/

/-- The invariants of the wire side. -/
structure Ledger (h : List (Seen κ)) (w : Wire κ) : Prop where
  ids : Ids h w
  queues : Queues h w
  fates : Fates h w
  lawful : ∀ x ∈ h, x.2.Lawful
  ended : ∀ g why, (g, .ended why) ∈ h → g < w.generation

namespace Ledger

variable {h o : List (Seen κ)} {w w' : Wire κ}

theorem init : Ledger [] (.init : Wire κ) := ⟨.init, .init, .init, by simp, by simp⟩

theorem step (hl : Ledger h w) (hs : Wire.Step cause w o w') : Ledger (h ++ o) w' := by
  refine ⟨hl.ids.step hs, hl.queues.step hs, hl.fates.step hl.ids hs, fun x hx => ?_,
    fun g why hx => ?_⟩
  · rcases List.mem_append.mp hx with hx | hx
    · exact hl.lawful x hx
    · exact lawful_step hl.ids hs x hx
  · rcases List.mem_append.mp hx with hx | hx
    · exact Nat.lt_of_lt_of_le (hl.ended g why hx) hs.generation.2
    · exact hs.ended hx

/-- The marked frames of the priority lane are logins. -/
theorem login_of_handed (hl : Ledger h w) {g : ℕ} {out : Outbound} {accepted : Bool}
    (hx : (g, .handed .priority out accepted) ∈ h) {m : Mark} (hm : out.mark = some m) :
    IssuedFor g h m .login := by
  have hhanded : out ∈ handedPriority g h :=
    List.mem_filterMap.mpr ⟨_, hx, by simp⟩
  have hpushed := (hl.queues.handed g).subset hhanded
  obtain ⟨⟨g', y⟩, hy, hread⟩ := List.mem_filterMap.mp hpushed
  split at hread
  · next heq =>
    obtain ⟨rfl, rfl⟩ := Prod.mk.inj heq
    obtain ⟨rfl, hout⟩ := Option.ite_none_right_eq_some.mp hread
    obtain rfl := Option.some.inj hout
    exact ⟨_, hy, hm⟩
  · simp at hread

end Ledger

end RocketSocket
