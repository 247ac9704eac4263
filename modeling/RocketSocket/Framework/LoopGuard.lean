import RocketSocket.Framework.Dispatch

/-!
# The loop guard over whole runs

The bot's own id is resolved once, when the first message is filtered, from the credentials
the REST client holds at that moment.  Where it holds none, none is what the bot takes its id
for from then on, and it hears its own messages.

## Main definitions

* `LoopGuard` — no handler that did not ask for it is called on the bot's own message.
* `Recognised` — the credentials the bot's id was read from are those of whoever is to be
  kept out.
* `Guarded` — the invariant: whatever is called has passed its filters under the id read.

## Main results

* `guarded_of_run` — every run is guarded.
* `loopGuard_of_recognised` — **the loop guard holds**, if the bot is recognised.
* `not_loopGuard` — a login after the first message comes too late.
-/

namespace RocketSocket

open Machine

namespace Framework

/-- **The loop guard**: where a call of `dispatch` began with a message by the user whose
credentials the REST client held, no handler with `allowSelf` off is called on it. -/
def LoopGuard (handlers : List Handler) (h : List DispatchNote) : Prop :=
  ∀ i message room, .dispatched i (some (message, room)) (some message.u) ∈ h →
    ∀ j handler, handlers[j]? = some handler → handler.filters.allowSelf = false →
      .called i j ∉ h

/-- **The bot is recognised**: the credentials its id is read from, when the first message is
filtered, are those of the author of each message that the guard is to keep out, unless the
other filters keep it out as well. -/
def Recognised (handlers : List Handler) (h : List DispatchNote) : Prop :=
  ∀ i message room, .dispatched i (some (message, room)) (some message.u) ∈ h →
    ∀ handler ∈ handlers, handler.filters.allowSelf = false →
      ∀ i' credentials, .identified i' credentials ∈ h →
        handler.filters.others.localVerdict message room credentials = none →
          credentials = some message.u

/-! ### What a called handler has let through -/

/-- Handler number `j` lets the message through, under an id that was read. -/
def Passes (handlers : List Handler) (h : List DispatchNote) (j : ℕ)
    (event : DecodedEvent) : Prop :=
  ∀ message room, event.message = some (message, room) → ∃ handler i user,
    handlers[j]? = some handler ∧ .identified i user ∈ h ∧
      handler.filters.localVerdict message room user = none

/-- What the invariant says about a call of `dispatch`. -/
structure Vouched (handlers : List Handler) (h : List DispatchNote) (i : ℕ)
    (d : Dispatch) : Prop where
  identified : ∀ j user, d.phase = .identified j user → .identified i user ∈ h
  checking : ∀ j n, d.phase = .checking j n → Passes handlers h j d.event

/-- **The invariant.** -/
structure Guarded (handlers : List Handler) (h : List DispatchNote) (f : Framework) : Prop where
  handlers_eq : f.handlers = handlers
  me : ∀ user, f.me = some user → ∃ i, .identified i user ∈ h
  calls : ∀ (i : ℕ) (d : Dispatch), f.dispatches[i]? = some d → Vouched handlers h i d
  dispatched : ∀ i message credentials, .dispatched i message credentials ∈ h →
    ∃ d : Dispatch, f.dispatches[i]? = some d ∧ d.event.message = message
  called : ∀ i j, .called i j ∈ h →
    ∃ d : Dispatch, f.dispatches[i]? = some d ∧ Passes handlers h j d.event

variable {handlers : List Handler} {f f' f₁ : Framework} {h h' notes : List DispatchNote}
  {i j : ℕ} {d : Dispatch} {phase : DispatchPhase} {event : DecodedEvent}

theorem Passes.mono (hpasses : Passes handlers h j event) (hsub : h ⊆ h') :
    Passes handlers h' j event := by
  intro message room hmessage
  obtain ⟨handler, i, user, hhandler, hidentified, hpass⟩ := hpasses message room hmessage
  exact ⟨handler, i, user, hhandler, hsub hidentified, hpass⟩

/-- No call changes its event. -/
theorem events_move (hmove : Moves f f' notes) (hi : f.dispatches[i]? = some d) :
    ∃ d' : Dispatch, f'.dispatches[i]? = some d' ∧ d'.event = d.event := by
  cases hmove with
  | dispatch event =>
    refine ⟨d, ?_, rfl⟩
    change (f.dispatches ++ [_])[i]? = some d
    rw [List.getElem?_append_left (List.getElem?_eq_some_iff.mp hi).1, hi]
  | @goes k d₁ phase f₁ notes hk hgoes =>
    show ∃ d', (f₁.dispatches.set k _)[i]? = some d' ∧ _
    rw [hgoes.dispatches]
    by_cases hki : k = i
    · subst hki
      obtain rfl : d = d₁ := Option.some.inj (hi.symm.trans hk)
      exact ⟨_, List.getElem?_set_self (List.getElem?_eq_some_iff.mp hi).1, rfl⟩
    · exact ⟨d, (List.getElem?_set_ne hki).trans hi, rfl⟩
  | setCredentials => exact ⟨d, hi, rfl⟩
  | roles => exact ⟨d, hi, rfl⟩

theorem handlers_move (hmove : Moves f f' notes) : f'.handlers = f.handlers := by
  cases hmove with
  | goes _ hgoes => cases hgoes <;> rfl
  | _ => rfl

/-- The bot's own id is what was read. -/
theorem me_move (hg : Guarded handlers h f) (hmove : Moves f f' notes) {user : Option UserId}
    (hme : f'.me = some user) : ∃ i, .identified i user ∈ h := by
  cases hmove with
  | @goes i d phase f₁ notes hi hgoes =>
    cases hgoes with
    | fill hphase =>
      obtain rfl := Option.some.inj hme
      exact ⟨i, (hg.calls i d hi).identified _ _ hphase⟩
    | _ => exact hg.me user hme
  | _ => exact hg.me user hme

/-- A call that goes on is vouched for where it stands then. -/
theorem vouched_goes (hg : Guarded handlers h f) (hgoes : f.Goes i d phase f₁ notes) :
    Vouched handlers (h ++ notes) i { d with phase := phase } := by
  constructor
  · intro j user hphase
    cases hgoes with
    | read => simp_all
    | _ => cases hphase
  · intro j n hphase
    cases hgoes with
    | ask hphase' hhandler hmessage hme hpass =>
      obtain ⟨rfl, rfl⟩ := DispatchPhase.checking.inj hphase
      intro message room hmessage'
      obtain ⟨rfl, rfl⟩ := Prod.mk.inj (Option.some.inj (hmessage.symm.trans hmessage'))
      obtain ⟨i', hidentified⟩ := hg.me _ hme
      exact ⟨_, i', _, hg.handlers_eq ▸ hhandler, List.mem_append_left _ hidentified, hpass⟩
    | _ => cases hphase

/-- A handler is called where the call of `dispatch` waited for the directory, or where the
event is no message. -/
theorem called_goes (hg : Guarded handlers h f) (hi : f.dispatches[i]? = some d) {k : ℕ}
    (hgoes : f.Goes i d phase f₁ notes) (hmem : .called k j ∈ notes) :
    k = i ∧ Passes handlers h j d.event := by
  cases hgoes with
  | unfiltered hphase hmessage =>
    obtain ⟨rfl, rfl⟩ : k = i ∧ j = _ := by simpa using hmem
    exact ⟨rfl, fun message room hsome => by cases hmessage.symm.trans hsome⟩
  | grant hphase =>
    obtain ⟨rfl, rfl⟩ : k = i ∧ j = _ := by simpa using hmem
    exact ⟨rfl, (hg.calls _ d hi).checking _ _ hphase⟩
  | _ => simp at hmem

/-- **A step keeps the run guarded.** -/
theorem Guarded.move (hg : Guarded handlers h f) (hmove : Moves f f' notes) :
    Guarded handlers (h ++ notes) f' where
  handlers_eq := (handlers_move hmove).trans hg.handlers_eq
  me := by
    intro user hme
    obtain ⟨i, hmem⟩ := me_move hg hmove hme
    exact ⟨i, List.mem_append_left notes hmem⟩
  calls := by
    intro i d hi
    -- A dispatch was there before, has just begun, or is the one that goes on.
    rcases dispatches_move hmove hi with
      hold | ⟨rfl, event, rfl, rfl⟩ | ⟨d₁, phase, f₁, hd, hgoes, rfl⟩
    · have hv := hg.calls i d hold
      exact ⟨fun j user hphase => List.mem_append_left notes (hv.identified j user hphase),
        fun j n hphase => (hv.checking j n hphase).mono (List.subset_append_left h notes)⟩
    · obtain rfl : { event := event, phase := .observing _ } = d :=
        Option.some.inj ((List.getElem?_concat_length ..).symm.trans hi)
      -- It has asked for nothing yet.
      constructor
      · exact fun j user hphase => by cases hphase
      · exact fun j n hphase => by cases hphase
    · exact vouched_goes hg hgoes
  dispatched := by
    intro i message credentials hmem
    rcases List.mem_append.mp hmem with hmem | hmem
    · -- No step changes the event of a dispatch.
      obtain ⟨d, hi, hmessage⟩ := hg.dispatched i message credentials hmem
      obtain ⟨d', hi', hevent⟩ := events_move hmove hi
      exact ⟨d', hi', hevent ▸ hmessage⟩
    · -- Only a dispatch that begins is shown as one.
      cases hmove with
      | dispatch event =>
        obtain ⟨rfl, rfl, -⟩ := DispatchNote.dispatched.inj (List.mem_singleton.mp hmem)
        exact ⟨_, List.getElem?_concat_length .., rfl⟩
      | goes hi hgoes => cases hgoes <;> simp at hmem
      | setCredentials => simp at hmem
      | roles => simp at hmem
  called := by
    intro i j hmem
    have hsub := List.subset_append_left h notes
    rcases List.mem_append.mp hmem with hmem | hmem
    · -- What was vouched for at an earlier call stays vouched for.
      obtain ⟨d, hi, hpasses⟩ := hg.called i j hmem
      obtain ⟨d', hi', hevent⟩ := events_move hmove hi
      exact ⟨d', hi', hevent ▸ hpasses.mono hsub⟩
    · have hmove' := hmove
      cases hmove with
      | dispatch event => simp [beginDispatch] at hmem
      | goes hi hgoes =>
        obtain ⟨rfl, hpasses⟩ := called_goes hg hi hgoes hmem
        obtain ⟨d', hi', hevent⟩ := events_move hmove' hi
        exact ⟨d', hi', hevent ▸ hpasses.mono hsub⟩
      | setCredentials => simp at hmem
      | roles => simp at hmem

variable {config : RoleCacheConfig} {credentials : Option UserId}

/-- **Every run is guarded.** -/
theorem guarded_of_run (hrun : Run step (init handlers config credentials) h f) :
    Guarded handlers h f := by
  refine hrun.invariant (I := Guarded handlers) ?_ fun hg hstep => hg.move (moves_of_step hstep)
  constructor
  · rfl
  · exact fun user hme => by cases hme
  · exact fun i d hi => by cases hi
  · exact fun i message credentials hmem => by cases hmem
  · exact fun i j hmem => by cases hmem

/-- **The loop guard holds over every run** in which the bot is recognised, whatever the
credentials of the REST client are set to, and when. -/
theorem loopGuard_of_recognised (hrun : Run step (init handlers config credentials) h f)
    (hrecognised : Recognised handlers h) : LoopGuard handlers h := by
  intro i message room hdispatched j handler hhandler hguard hcalled
  have hg := guarded_of_run hrun
  obtain ⟨d, hi, hmessage⟩ := hg.dispatched i _ _ hdispatched
  obtain ⟨d', hi', hpasses⟩ := hg.called i j hcalled
  obtain rfl : d = d' := Option.some.inj (hi.symm.trans hi')
  -- the handler let the message through, under the id that was read
  obtain ⟨handler', i', user, hhandler', hidentified, hpass⟩ := hpasses message room hmessage
  obtain rfl : handler = handler' := Option.some.inj (hhandler.symm.trans hhandler')
  obtain ⟨hothers, hne⟩ := Filters.others_of_localVerdict hguard hpass
  exact hne (hrecognised i message room hdispatched handler (List.mem_of_getElem? hhandler)
    hguard i' user hidentified hothers)

/-! ### Runs -/

/-- The bot. -/
def bot : UserId := ⟨"bot"⟩

/-- A handler that answers everybody. -/
def echo : List Handler := [{ name := "echo" }]

/-- A message in the general room. -/
def messageBy (user : UserId) : StreamMessage := { rid := ⟨"GENERAL"⟩, u := user, msg := "hello" }

/-- Somebody's message is heard, -/
def hearsSomebody : List DispatchInput :=
  [.dispatch (.stream (.myMessage (messageBy ⟨"somebody"⟩))), .advance 0, .advance 0, .advance 0,
    .advance 0, .advance 0, .advance 0]

/-- and the bot's answer comes back. -/
def seesItself : List DispatchInput :=
  [.dispatch (.stream (.myMessage (messageBy bot))), .advance 1, .advance 1, .advance 1]

theorem seesItself_enabled :
    (execute step (init echo {} (some bot)) (hearsSomebody ++ seesItself)).isSome := by
  decide +kernel

/-- A bot that is logged in when it hears its first message does not hear itself. -/
theorem loopGuard_seesItself : ∃ h, .called 0 0 ∈ h ∧
    .dispatched 1 (some (messageBy bot, ⟨"GENERAL"⟩)) (some bot) ∈ h ∧ LoopGuard echo h := by
  refine ⟨_, ?_, ?_, loopGuard_of_recognised
    (run_execute (hearsSomebody ++ seesItself) seesItself_enabled) ?_⟩
  · decide +kernel
  · decide +kernel
  · -- the credentials are the bot's throughout
    have hbot : ((execute step (init echo {} (some bot)) (hearsSomebody ++ seesItself)).get
        seesItself_enabled).2.all (fun
          | .dispatched _ _ credentials => credentials = some bot
          | .identified _ credentials => credentials = some bot
          | _ => true) = true := by
      decide +kernel
    intro i message room hdispatched handler _ _ i' credentials hidentified _
    have hauthor := of_decide_eq_true (List.all_eq_true.mp hbot _ hdispatched)
    have hread := of_decide_eq_true (List.all_eq_true.mp hbot _ hidentified)
    rw [hread, hauthor]

/-- The bot logs in after the first message, and answers itself. -/
def logsInLate : List DispatchInput := hearsSomebody ++ .setCredentials (some bot) :: seesItself

theorem logsInLate_enabled : (execute step (init echo {} none) logsInLate).isSome := by
  decide +kernel

/-- **A login after the first message comes too late**: the bot goes on taking itself for
nobody, and a handler that did not ask for the bot's own messages is called on one. -/
theorem not_loopGuard : ∃ h f, Run step (init echo {} none) h f ∧ ¬ LoopGuard echo h := by
  refine ⟨_, _, run_execute logsInLate logsInLate_enabled, fun hguard => ?_⟩
  have hdispatched : .dispatched 1 (some (messageBy bot, ⟨"GENERAL"⟩)) (some bot) ∈
      ((execute step (init echo {} none) logsInLate).get logsInLate_enabled).2 := by
    decide +kernel
  have hcalled : .called 1 0 ∈
      ((execute step (init echo {} none) logsInLate).get logsInLate_enabled).2 := by
    decide +kernel
  exact hguard 1 _ _ hdispatched 0 _ rfl rfl hcalled

end Framework
end RocketSocket
