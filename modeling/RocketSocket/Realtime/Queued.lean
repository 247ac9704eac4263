import RocketSocket.Realtime.Fates
import RocketSocket.Realtime.Runner

/-!
# Calls accepted while the connection is down

`Connection::call` promises that a call issued while the connection is down is queued, not
failed.  The application lane outlives an attempt only when nothing ends the generation:
every failed attempt runs `disconnected`, whose `settle` clears the lane and tells every
waiter `NotSent`.

## Main definitions

* `downCalls` — the calls accepted while no session was ready.
* `Queued` — none of them is settled or dropped before its frame is handed over.
* `KeepsQueue` — no attempt fails, and no frame answers, while one of them waits.

## Main results

* `queued_of_keepsQueue` — **the promise holds in every run that keeps the queue.**
* `not_queued` — it is broken by a failed reconnect attempt.
-/

namespace RocketSocket

open Machine

variable {κ : Type} {cause : Cause}

/-- The calls whose commands were accepted while no session was ready. -/
def downCalls (h : List (Seen κ)) : List Mark :=
  h.filterMap fun
    | (_, .took _ phase (some out)) => if phase = .ready then none else out.mark
    | _ => none

/-- The runner stopped. -/
def Stopped (h : List (Seen κ)) : Prop :=
  (h.any fun
    | (_, .ended .stopping) => true
    | _ => false) = true

instance (h : List (Seen κ)) : Decidable (Stopped h) := inferInstanceAs (Decidable (_ = true))

/-- A reply goes to a call accepted while no session was ready only after its frame was
handed to a sink, or when the runner stops. -/
def SettlesHanded (pre : List (Seen κ)) (x : Seen κ) : Prop :=
  ∀ cause m waiter reply, x.2 = .settled cause m waiter reply → m ∈ downCalls pre →
    m ∈ handedMarks pre ∨ Stopped pre

/-- **Queued, not failed**: a call accepted while no session was ready is not settled before
its frame was handed to a sink, and until then it is pending and its frame waits. -/
structure Queued (h : List (Seen κ)) (w : Wire κ) : Prop where
  settled : Each SettlesHanded h
  kept : ∀ m ∈ downCalls h, m ∈ handedMarks h ∨ Stopped h ∨
    (m ∈ w.app.filterMap Outbound.mark ∧ w.waiterOf m ≠ none)

/-- The calls a frame answers. -/
def ServerMessage.answers : ServerMessage → List Mark
  | .result id _ _ => [⟨.methods, id⟩]
  | .ready subs => subs.map (Mark.mk .subs)
  | .nosub id _ => [⟨.subs, id⟩]
  | _ => []

theorem mem_answers {message : ServerMessage} {m : Mark} {outcome : Except DdpError Value}
    (ha : Wire.Answers message m outcome) : m ∈ message.answers := by
  cases ha with
  | ready hid => exact List.mem_map_of_mem hid
  | _ => exact List.mem_singleton_self _

/-- When an attempt fails or a connection is lost, the frames of all calls accepted while no
session was ready were handed over; and so was that of every such call a frame answers. -/
def KeepsAt (pre : List (Seen κ)) : Seen κ → Prop
  | (_, .ended .lost) => ∀ m ∈ downCalls pre, m ∈ handedMarks pre
  | (_, .received message) => ∀ m ∈ message.answers, m ∈ downCalls pre → m ∈ handedMarks pre
  | _ => True

instance (pre : List (Seen κ)) : (x : Seen κ) → Decidable (KeepsAt pre x)
  | (_, .ended .lost) => inferInstanceAs (Decidable (∀ m ∈ downCalls pre, m ∈ handedMarks pre))
  | (_, .received message) => inferInstanceAs
    (Decidable (∀ m ∈ message.answers, m ∈ downCalls pre → m ∈ handedMarks pre))
  | (_, .ended .stopping) | (_, .opened) | (_, .pushed _) | (_, .took ..) | (_, .handed ..)
  | (_, .settled ..) | (_, .emitted _) => isTrue trivial

/-- No attempt fails, and no frame answers, while a call accepted when no session was ready
still waits for its frame to be handed over. -/
def KeepsQueue (h : List (Seen κ)) : Prop := Each KeepsAt h

instance (h : List (Seen κ)) : Decidable (KeepsQueue h) :=
  inferInstanceAs (Decidable (Each KeepsAt h))

@[simp] theorem downCalls_append (h o : List (Seen κ)) :
    downCalls (h ++ o) = downCalls h ++ downCalls o := List.filterMap_append

@[simp] theorem stopped_append {h o : List (Seen κ)} :
    Stopped (h ++ o) ↔ Stopped h ∨ Stopped o := by
  simp only [Stopped, List.any_append, Bool.or_eq_true]

theorem issued_of_mem_downCalls {h : List (Seen κ)} {m : Mark} (hm : m ∈ downCalls h) :
    m ∈ issued h := by
  obtain ⟨⟨g, y⟩, hx, hread⟩ := List.mem_filterMap.mp hm
  split at hread
  · next heq =>
    obtain ⟨rfl, rfl⟩ := Prod.mk.inj heq
    split at hread
    · simp at hread
    · exact List.mem_filterMap.mpr ⟨_, hx, hread⟩
  · simp at hread

/-- Observations that move no frame accept no call. -/
theorem downCalls_eq_nil {o : List (Seen κ)} (ho : issued o = []) : downCalls o = [] := by
  rw [List.eq_nil_iff_forall_not_mem]
  intro m hm
  have hissued := issued_of_mem_downCalls hm
  rw [ho] at hissued
  simp at hissued

/-! ### The invariant -/

namespace Queued

variable {h o : List (Seen κ)} {w w' : Wire κ}

theorem init : Queued [] (.init : Wire κ) := ⟨each_nil, by simp [downCalls]⟩

/-- A step that accepts no call and sends no reply, after which the frames that waited wait
or were handed over, and the calls that were pending are. -/
theorem frame (hq : Queued h w) (ho : issued o = [])
    (hsettled : ∀ g cause m k reply, (g, .settled cause m k reply) ∉ o)
    (happ : ∀ m ∈ w.app.filterMap Outbound.mark,
      m ∈ w'.app.filterMap Outbound.mark ∨ m ∈ handedMarks o)
    (hwaiter : ∀ m, w.waiterOf m ≠ none → w'.waiterOf m ≠ none) : Queued (h ++ o) w' := by
  refine ⟨each_append.mpr ⟨hq.settled, ?_⟩, fun m hm => ?_⟩
  · rintro pre x post rfl cause m k reply hx
    exact absurd (by simp [← hx]) (hsettled x.1 cause m k reply)
  · rw [downCalls_append, downCalls_eq_nil ho, List.append_nil] at hm
    rw [handedMarks_append, List.mem_append, stopped_append]
    rcases hq.kept m hm with hh | hs | ⟨ha, hw⟩
    · exact .inl (.inl hh)
    · exact .inr (.inl (.inl hs))
    · rcases happ m ha with ha | hh
      · exact .inr (.inr ⟨ha, hwaiter m hw⟩)
      · exact .inl (.inr hh)

/-- A frame answers a call: one that was accepted while no session was ready was handed
over. -/
theorem answer (hl : Ledger h w) (hq : Queued h w) {message : ServerMessage} {m₀ : Mark}
    {outcome : Except DdpError Value} (hhanded : m₀ ∈ downCalls h → m₀ ∈ handedMarks h) :
    Queued (h ++ (Wire.answer message m₀ outcome).obs w)
      ((Wire.answer message m₀ outcome).state w) := by
  refine ⟨each_append.mpr ⟨hq.settled, ?_⟩, fun m hm => ?_⟩
  · rw [Wire.obs_answer w m₀ message outcome (hl.ids.epoch m₀)]
    cases w.pendingOf m₀ with
    | none => exact each_nil
    | some p =>
      refine each_singleton.mpr fun cause m k reply hx hm => ?_
      obtain ⟨-, rfl, -⟩ := Obs.settled.inj hx
      rw [List.append_nil] at hm ⊢
      exact .inl (hhanded hm)
  · rw [downCalls_append, downCalls_eq_nil (w.nil_of_answer message m₀ outcome).1,
      List.append_nil] at hm
    rw [handedMarks_append, List.mem_append, stopped_append]
    rcases hq.kept m hm with hh | hs | ⟨ha, hw⟩
    · exact .inl (.inl hh)
    · exact .inr (.inl (.inl hs))
    · by_cases heq : m = m₀
      · exact .inl (.inl (heq ▸ hhanded (heq ▸ hm)))
      · refine .inr (.inr ⟨ha, ?_⟩)
        rw [Wire.waiterOf, Wire.pendingOf_answer, if_neg heq]
        exact hw

/-- Ending the generation: the runner stops, or everything was handed over. -/
theorem settle (hq : Queued h w) {why : Ending} (session : Session)
    (hlost : why = .lost → ∀ m ∈ downCalls h, m ∈ handedMarks h) :
    Queued (h ++ w.settleObs why) { (Wire.settle why).state w with session } := by
  have hend : ∀ {m}, m ∈ downCalls h → ∀ rest : List (Seen κ),
      m ∈ handedMarks h ∨ Stopped ((w.generation, .ended why) :: rest) := by
    intro m hm rest
    cases why with
    | lost => exact .inl (hlost rfl m hm)
    | stopping => exact .inr rfl
  refine ⟨each_append.mpr ⟨hq.settled, ?_⟩, fun m hm => ?_⟩
  · -- The ending is shown before the replies.
    refine each_cons.mpr ⟨fun _ _ _ _ hx => by simp at hx, ?_⟩
    rintro pre x post hpost cause m k reply hx hm
    have hsub : ∀ y ∈ (w.generation, .ended why) :: pre, y ∈ w.settleObs why := by
      intro y hy
      rw [Wire.settleObs, hpost]
      simp only [List.mem_cons, List.mem_append] at hy ⊢
      tauto
    have hpre := nil_of_not_moves fun y hy => (Wire.obs_settle_of_mem (hsub y hy)).2
    rw [downCalls_append, downCalls_eq_nil hpre.2.1, List.append_nil] at hm
    rw [handedMarks_append, List.mem_append, stopped_append]
    rcases hend hm pre with hh | hs
    · exact .inl (.inl hh)
    · exact .inr (.inr hs)
  · rw [downCalls_append, downCalls_eq_nil (w.nil_of_settle why).1, List.append_nil] at hm
    rw [handedMarks_append, List.mem_append, stopped_append]
    rcases hend hm _ with hh | hs
    · exact .inl (.inl hh)
    · exact .inr (.inl (.inr hs))

/-- Calls are registered: those accepted while no session was ready are pending, and their
frames wait. -/
theorem accept (hq : Queued h w) {y : Obs κ}
    (hsettled : ∀ cause m k reply, y ≠ .settled cause m k reply)
    (happ : ∀ m ∈ w.app.filterMap Outbound.mark ++ downCalls [(w.generation, y)],
      m ∈ w'.app.filterMap Outbound.mark)
    (hwaiter : ∀ m, w.waiterOf m ≠ none ∨ m ∈ downCalls [(w.generation, y)] →
      w'.waiterOf m ≠ none) : Queued (h ++ [(w.generation, y)]) w' := by
  refine ⟨each_snoc.mpr ⟨hq.settled, fun cause m k reply hx => ?_⟩, fun m hm => ?_⟩
  · exact absurd hx (hsettled cause m k reply)
  · rw [downCalls_append, List.mem_append] at hm
    rw [handedMarks_append, List.mem_append, stopped_append]
    rcases hm with hm | hm
    · rcases hq.kept m hm with hh | hs | ⟨ha, hw⟩
      · exact .inl (.inl hh)
      · exact .inr (.inl (.inl hs))
      · exact .inr (.inr ⟨happ m (List.mem_append_left _ ha), hwaiter m (.inl hw)⟩)
    · exact .inr (.inr ⟨happ m (List.mem_append_right _ hm), hwaiter m (.inr hm)⟩)

/-- Steps that move no frame, and leave every call as it was. -/
theorem quiet (hq : Queued h w) (hissued : issued o = [])
    (hsettled : ∀ g cause m k reply, (g, .settled cause m k reply) ∉ o) (happ : w'.app = w.app)
    (htable : w'.table = w.table) : Queued (h ++ o) w' := by
  refine hq.frame hissued hsettled (fun m hm => .inl (happ ▸ hm)) fun m hm => ?_
  rwa [Wire.waiterOf, Wire.pendingOf, htable]

/-- A call that is registered is pending, and those before it still are. -/
theorem waiterOf_register_ne {side : Side} (waiter : Waiter κ) {m : Mark}
    (hm : w.waiterOf m ≠ none ∨ m = w.nextMark side) :
    ((Wire.register side waiter).state w).waiterOf m ≠ none := by
  rw [Wire.waiterOf_register]
  split
  · simp
  · next hne => exact hm.resolve_right hne

/-- The frame that leaves the lane is the one handed over. -/
theorem step_hand (hq : Queued h w) (accepted : Bool) :
    Queued (h ++ (Wire.hand accepted).obs w) ((Wire.hand accepted).state w) := by
  rcases Wire.hand_cases w accepted with ⟨out, rest, -, ho, hw⟩ |
    ⟨out, rest, -, hlane, ho, hw⟩ | ⟨-, -, ho, hw⟩
  · rw [ho, hw]
    exact hq.quiet rfl (by simp) rfl rfl
  · rw [ho, hw]
    refine hq.frame rfl (by simp) (fun m hm => ?_) fun m hm => hm
    rw [hlane, List.filterMap_cons] at hm
    cases hout : out.mark with
    | none =>
      rw [hout] at hm
      exact .inl hm
    | some m₀ =>
      rw [hout] at hm
      rcases List.mem_cons.mp hm with rfl | hm
      · exact .inr (by simp [handedMarks, hout])
      · exact .inl hm
  · rw [ho, hw, List.append_nil]
    exact hq

/-- A command that is accepted is registered as a call, and its frame joins the lane. -/
theorem step_take (hl : Ledger h w) (hq : Queued h w) (command : Command κ) (dropped : Bool) :
    Queued (h ++ (Wire.handleCommand command dropped).obs w)
      ((Wire.handleCommand command dropped).state w) := by
  rcases Wire.take_cases w command dropped with ⟨ho, hw⟩ | ⟨out, hout, ho, hw⟩ |
    ⟨waiter, ho, hw⟩ | ⟨ack, out, -, hout, ho, hw⟩
  · rw [ho, hw]
    exact hq.quiet rfl (by simp) rfl rfl
  · -- A frame with no mark is no call.
    rw [ho, hw]
    refine hq.accept (by simp) (fun m hm => ?_) fun m hm => ?_
    · simpa [downCalls, hout] using hm
    · exact hm.resolve_right (by simp [downCalls, hout])
  · rw [ho, hw]
    refine hq.frame rfl (by simp) (fun m hm => .inl hm) fun m hm => ?_
    -- A mark not seen before was not pending.
    have hne : m ≠ w.nextMark command.side := by
      rintro rfl
      rw [Wire.waiterOf, hl.ids.pendingOf_nextMark] at hm
      exact hm rfl
    rw [Wire.waiterOf, Wire.pendingOf_cancel, if_neg hne]
    exact waiterOf_register_ne waiter (.inl hm)
  · have hdown : ∀ m ∈ downCalls [((w.generation,
        .took command w.session.phase (some out)) : Seen κ)], m = w.nextMark command.side := by
      intro m hm
      have hissued := issued_of_mem_downCalls hm
      simpa [issued, hout] using hissued
    rw [ho, hw]
    refine hq.accept (by simp) (fun m hm => ?_) fun m hm => ?_
    · rw [List.filterMap_append, List.mem_append]
      rcases List.mem_append.mp hm with hm | hm
      · exact .inl hm
      · exact .inr (by simp [hout, hdown m hm])
    · exact waiterOf_register_ne (.caller ack) (hm.imp_right (hdown m))

/-- **Every wire step that keeps the queue keeps the invariant.**  What a frame answers was
handed over before the frame was received. -/
theorem step (hl : Ledger h w) (hq : Queued h w) (hkeeps : KeepsQueue (h ++ o))
    (hanswers : ∀ message, cause = .handling message → ∀ m ∈ message.answers,
      m ∈ downCalls h → m ∈ handedMarks h)
    (hs : Wire.Step cause w o w') : Queued (h ++ o) w' := by
  -- A call made while down is pending until a frame answers it or the connection is lost.
  cases hs with
  | emitted event hevent => exact hq.quiet rfl (by simp) rfl rfl
  | ready epoch => exact hq.quiet rfl (by simp) rfl rfl
  | connect hphase => exact hq.quiet rfl (by simp) rfl rfl
  | hear message hlive => exact hq.quiet rfl (by simp) rfl rfl
  | push frame hlive hframe => exact hq.quiet rfl (by simp) rfl rfl
  | login params hphase =>
    refine hq.accept (by simp) (fun m hm => ?_) fun m hm => ?_
    · exact (List.mem_append.mp hm).resolve_right (by simp [downCalls])
    · rw [Wire.state_login]
      exact @waiterOf_register_ne _ _ .methods .login m (.inl (by simpa [downCalls] using hm))
  | hand accepted hlive hready => exact hq.step_hand accepted
  | flushed =>
    refine hq.frame rfl (by simp) (fun m hm => .inl hm) fun m hm => ?_
    rw [Wire.waiterOf, Wire.pendingOf_flushed]
    split
    · simpa [Wire.waiterOf] using hm
    · exact hm
  | answer ha => exact answer hl hq (hanswers _ rfl _ (mem_answers ha))
  | settle why session hlive =>
    -- A loss would settle it unsent, which this run does not do.
    refine hq.settle session fun hlost => ?_
    subst hlost
    rw [Wire.settleObs, List.append_cons] at hkeeps
    exact (each_snoc.mp hkeeps.of_append).2
  | take command dropped => exact step_take hl hq command dropped

end Queued

/-! ### The promise -/

/-- What a frame answers was handed over, when the frame was received in a run that keeps
the queue. -/
def HandedBefore (message : ServerMessage) (h : List (Seen κ)) : Prop :=
  ∀ m ∈ message.answers, m ∈ downCalls h → m ∈ handedMarks h

/-- Handling a frame accepts no call. -/
theorem HandedBefore.step {message : ServerMessage} {h o : List (Seen κ)} {w w' : Wire κ}
    (hb : HandedBefore message h) (hs : Wire.Step (.handling message) w o w') :
    HandedBefore message (h ++ o) := by
  have hnil : downCalls o = [] := by
    cases hs with
    | answer ha =>
      exact downCalls_eq_nil (w.nil_of_answer message _ _).1
    | emitted event hevent => rfl
    | ready epoch => rfl
    | push frame hlive hframe => rfl
    | login params hphase => rfl
  intro m hm hdown
  rw [downCalls_append, hnil, List.append_nil] at hdown
  rw [handedMarks_append, List.mem_append]
  exact .inl (hb m hm hdown)

/-- The ledger, and the promise as long as the run keeps the queue. -/
def Upheld (h : List (Seen κ)) (w : Wire κ) : Prop :=
  Ledger h w ∧ (KeepsQueue h → Queued h w)

theorem Upheld.step {h o : List (Seen κ)} {w w' : Wire κ} (hu : Upheld h w)
    (hanswers : ∀ message, cause = .handling message → KeepsQueue h → HandedBefore message h)
    (hs : Wire.Step cause w o w') : Upheld (h ++ o) w' := by
  refine ⟨hu.1.step hs, fun hkeeps => ?_⟩
  have hq := hu.2 hkeeps.of_append
  exact hq.step hu.1 hkeeps (fun message hc => hanswers message hc hkeeps.of_append) hs

/-- Every turn upholds the promise: while a frame is handled, what it answers was handed
over before. -/
theorem Upheld.turn {h o : List (Seen κ)} {w w' : Wire κ} (hu : Upheld h w)
    (ht : Wire.Turn w o w') : Upheld (h ++ o) w' := by
  refine ht.invariant (J := fun message h w => Upheld h w ∧
    (KeepsQueue h → HandedBefore message h)) ?_ ?_ ?_ (fun hJ => hJ.1) hu
  · exact fun hu hs => hu.step (by simp) hs
  · intro h w message hu hlive
    refine ⟨hu.step (by simp) (.hear message hlive), fun hkeeps m hm hdown => ?_⟩
    have hat : ∀ m ∈ message.answers, m ∈ downCalls h → m ∈ handedMarks h :=
      (each_snoc.mp hkeeps).2
    rw [downCalls_append, List.mem_append] at hdown
    rw [handedMarks_append, List.mem_append]
    exact .inl (hat m hm (hdown.resolve_right (by simp [downCalls])))
  · intro message h w o w' ⟨hu, hb⟩ hs
    refine ⟨hu.step (fun _ hc => ?_) hs, fun hkeeps => (hb hkeeps.of_append).step hs⟩
    exact Cause.handling.inj hc ▸ hb

/-- **The promise holds in every run that keeps the queue**: a call accepted while no session
was ready is settled only after its frame was handed to a sink, or when the runner stops, and
waits until then. -/
theorem queued_of_keepsQueue {config : Config} {h : List (Seen κ)} {w : World κ}
    (hrun : Run World.step (World.init config) h w) (hkeeps : KeepsQueue h) :
    Queued h w.runner.toWire := by
  have hu := World.turn_invariant (I := Upheld) ⟨.init, fun _ => .init⟩ Upheld.turn hrun
  exact hu.2 hkeeps

/-! ### Two runs -/

/-- A call is accepted before the session is ready, and handed over when it is. -/
def queuedCall : List (Input ℕ) :=
  [.begin 0, .opened, .sink (.ready (.ok ())), .sink .pending, .flush (some (.ok ())),
    .poll none (some (some (.call "sendMessage" [] 0, false))) false,
    .sink .pending, .flush none,
    .poll (some (.frame (.text (some (.connected "session"))))) none false,
    .sink (.ready (.ok ())), .sink .pending, .flush (some (.ok ())),
    .poll (some (.frame (.text (some (.result "m1" none none))))) none false,
    .sink (.ready (.ok ()))]

theorem queuedCall_enabled :
    (execute World.step (World.init demoConfig) queuedCall).isSome := by
  decide +kernel

/-- The call waited for the session, and its frame was handed over. -/
theorem queued_queuedCall : ∃ (h : List (Seen ℕ)) (w : World ℕ),
    Run World.step (World.init demoConfig) h w ∧ KeepsQueue h ∧
      ⟨.methods, "m0"⟩ ∈ downCalls h ∧ ⟨.methods, "m0"⟩ ∈ handedMarks h ∧
      Queued h w.runner.toWire := by
  have hrun := run_execute queuedCall queuedCall_enabled
  have hkeeps : KeepsQueue ((execute World.step (World.init demoConfig) queuedCall).get
      queuedCall_enabled).2 := by decide +kernel
  exact ⟨_, _, hrun, hkeeps, by decide +kernel, by decide +kernel,
    queued_of_keepsQueue hrun hkeeps⟩

/-- A call is accepted in `idle`, after the first attempt failed, and the second attempt
fails as well. -/
def failedReconnect : List (Input ℕ) :=
  [.begin 0, .openFailed "refused", .begin 500, .command (some (.call "sendMessage" [] 0, false)),
    .tick (.ofSecs 60), .elapsed, .openFailed "refused"]

theorem failedReconnect_enabled :
    (execute World.step (World.init demoConfig) failedReconnect).isSome := by
  decide +kernel

/-- **The promise is broken by a failed reconnect attempt**: the call was never handed to a
sink, and its frame is gone. -/
theorem not_queued : ¬ ∀ (config : Config) (h : List (Seen ℕ)) (w : World ℕ),
    Run World.step (World.init config) h w → Queued h w.runner.toWire := by
  intro hall
  have hqueued := hall _ _ _ (run_execute failedReconnect failedReconnect_enabled)
  have hdown : ⟨.methods, "m0"⟩ ∈ downCalls ((execute World.step
      (World.init demoConfig) failedReconnect).get failedReconnect_enabled).2 := by
    decide +kernel
  rcases hqueued.kept _ hdown with hh | hs | ⟨ha, -⟩
  · exact absurd hh (by decide +kernel)
  · exact absurd hs (by decide +kernel)
  · exact absurd ha (by decide +kernel)

end RocketSocket
