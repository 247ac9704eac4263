import RocketSocket.Realtime.Fates
import RocketSocket.Realtime.Runner

/-!
# What a run shows of commands, logins and replies

Three facts about the observations of a run that the client built on the runner rests on:
the runner takes a command only when it is offered one; a session that is ready was
announced, and every announcement asks for a replay; and a call is sent a reply because of
a frame that was received, or of an ending, while it waited.

## Main definitions

* `Announces` — every `Event::Ready` is followed by `Event::Resubscribe`.
* `HeardAt` — what is sent a reply waited when the cause of the reply was shown.

## Main results

* `World.tookCommands_step` — a step takes the command it is offered, or none.
* `World.announced` — **a ready session was announced.**
* `World.attended` — **every reply has its cause.**
-/

namespace RocketSocket

open Machine

variable {κ : Type} {cause : Cause}

/-! ### Commands -/

/-- The observation is not that a command was taken. -/
def Obs.Untaking : Seen κ → Prop
  | (_, .took ..) => False
  | _ => True

theorem tookCommands_eq_nil {h : List (Seen κ)} (hh : ∀ x ∈ h, Obs.Untaking x) :
    tookCommands h = [] := by
  rw [tookCommands, List.filterMap_eq_nil_iff]
  rintro ⟨g, y⟩ hx
  have hy := hh _ hx
  cases y with
  | took command phase out => exact absurd hy id
  | _ => rfl

theorem tookCommands_handleCommand (w : Wire κ) (command : Command κ) (dropped : Bool) :
    tookCommands ((Wire.handleCommand command dropped).obs w) = [command] := by
  rcases w.take_cases command dropped with ⟨ho, -⟩ | ⟨_, -, ho, -⟩ | ⟨_, ho, -⟩ |
    ⟨_, _, -, -, ho, -⟩
  all_goals
    rw [ho]
    rfl

/-- Anything a runner shows but that it took a command, or its fatal failure. -/
def Obs.Ordinary : Seen κ → Prop
  | (_, .took ..) => False
  | (_, .emitted (.fatal _)) => False
  | _ => True

theorem untaking_of_ordinary : ∀ x : Seen κ, Obs.Ordinary x → Obs.Untaking x := by
  rintro ⟨g, x⟩ hx
  cases x with
  | took command phase out => exact hx
  | _ => trivial

/-- What a frame says about calls is shown as their answers. -/
theorem Wire.shows_correlate {P : Seen κ → Prop} (message : ServerMessage)
    (hP : ∀ g m reply outcome, P (g, .settled (some message) m reply outcome)) :
    Shows P (Wire.correlate message : Act (Wire κ) (Seen κ) Unit) := by
  have hone : ∀ m outcome, Shows P
      (Wire.answer message m outcome : Act (Wire κ) (Seen κ) Unit) := by
    intro m outcome w x hx
    obtain ⟨y, -, rfl⟩ := List.mem_map.mp hx
    exact hP _ _ _ _
  cases message with
  | result id result error => exact hone _ _
  | ready subs => exact .forM subs fun _ => hone _ _
  | nosub id error => exact hone _ _
  | _ => exact .pure _

namespace Runner

/-! ### What the computations of the runner show -/

section Shows

variable {P : Seen κ → Prop} {now : Instant} {α : Type}

theorem shows_wire {x : Act (Wire κ) (Seen κ) α} (hx : Shows P x) : Shows P (wire x) := hx.zoom

variable (hP : ∀ x, Obs.Ordinary x → P x)
include hP

theorem shows_emit {event : Event} (hevent : ∀ fatal, event ≠ .fatal fatal) :
    Shows P (emit event : RunAct κ Unit) := by
  refine shows_wire (.say fun w => hP _ ?_)
  cases event with
  | fatal fatal => exact absurd rfl (hevent fatal)
  | _ => trivial

theorem shows_push (frame : ClientMessage) :
    Shows P (wire (Wire.pushPriority frame none) : RunAct κ Unit) :=
  shows_wire (.bind (.modify _) fun _ => .say fun _ => hP _ trivial)

theorem shows_settle (why : Ending) : Shows P (settle why : RunAct κ Unit) := by
  refine .bind (shows_wire ?_) fun _ => .modify _
  rintro w ⟨g, x⟩ hx
  obtain ⟨-, rfl | ⟨m, p, -, rfl⟩⟩ := (w.mem_settleObs).mp hx
  · exact hP _ trivial
  · exact hP _ trivial

theorem shows_disconnected (reason : String) :
    Shows P (disconnected now reason : RunAct κ Unit) :=
  .bind (.modify _) fun _ => .bind (.modify _) fun _ => .bind (shows_settle hP _) fun _ =>
    .bind (.modify _) fun _ => shows_emit hP (by simp)

theorem shows_apply (action : Action) : Shows P (apply now action : RunAct κ Unit) := by
  cases action with
  | send frame => exact shows_push hP frame
  | login =>
    refine .bind .get fun r => shows_wire fun w x hx => ?_
    rw [Wire.obs_login, List.mem_singleton] at hx
    subst hx
    exact hP _ trivial
  | resubscribe =>
    exact .bind .get fun _ => .bind (.modify _) fun _ => .bind (.modify _) fun _ =>
      .bind (shows_emit hP (by simp)) fun _ => shows_emit hP (by simp)
  | fatal fatal => exact .modify _
  | protocolViolation msg => exact .pure _

theorem shows_correlate (message : ServerMessage) :
    Shows P (wire (Wire.correlate message) : RunAct κ Unit) :=
  shows_wire (Wire.shows_correlate message fun _ _ _ _ => hP _ trivial)

theorem shows_onText (message : ServerMessage) :
    Shows P (onText now message : RunAct κ Unit) := by
  refine .bind (shows_wire fun w x hx => ?_) fun actions =>
    .bind (.forM actions (shows_apply hP)) fun _ => .bind (shows_correlate hP message) fun _ => ?_
  · obtain rfl := List.mem_singleton.mp hx
    exact hP _ trivial
  · cases hevent : eventOf message with
    | none => exact .pure _
    | some event =>
      refine shows_emit hP ?_
      rintro fatal rfl
      cases message <;> simp [eventOf] at hevent

theorem shows_onFrame (frame : Frame) :
    Shows P (onFrame now frame : RunAct κ (Option Outcome)) := by
  refine .bind (.modify _) fun _ => ?_
  match frame with
  | .text (some message) => exact .bind (shows_onText hP message) fun _ => .pure _
  | .text none => exact .pure _
  | .close none => exact .pure _
  | .close (some (code, reason)) => exact .pure _
  | .binary => exact .pure _
  | .control => exact .pure _

theorem shows_onDeadline : Shows P (onDeadline now : RunAct κ (Option Outcome)) := by
  refine .bind (.modify _) fun _ => .bind .get fun r => ?_
  split
  · exact .pure _
  · refine .bind (.modify _) fun _ => ?_
    split
    · exact .pure _
    · exact .bind (shows_push hP _) fun _ => .pure _
    · exact .pure _

theorem shows_hand (accepted : Bool) : Shows P (wire (Wire.hand accepted) : RunAct κ Unit) := by
  refine shows_wire fun w x hx => ?_
  rcases w.hand_cases accepted with ⟨_, _, -, ho, -⟩ | ⟨_, _, -, -, ho, -⟩ | ⟨-, -, ho, -⟩
  · rw [ho, List.mem_singleton] at hx
    exact hx ▸ hP _ trivial
  · rw [ho, List.mem_singleton] at hx
    exact hx ▸ hP _ trivial
  · simp [ho] at hx

theorem shows_stop : Shows P (stop : RunAct κ Location) :=
  .bind (.modify _) fun _ => .bind (shows_settle hP _) fun _ => .pure _

theorem shows_connecting : Shows P (connecting now : RunAct κ Location) :=
  .bind (.modify _) fun _ => .bind .get fun _ => .bind (shows_emit hP (by simp)) fun _ =>
    .bind .get fun _ => .pure _

theorem shows_begin (draw : ℕ) : Shows P (begin now draw : RunAct κ Location) := by
  refine .bind .get fun r => ?_
  split
  · exact shows_stop hP
  · refine .bind .get fun r => .bind (.modify _) fun _ => ?_
    split
    · exact shows_connecting hP
    · exact .bind (.modify _) fun _ => .pure _

theorem shows_openFailed (reason : String) :
    Shows P (openFailed now reason : RunAct κ Location) :=
  .bind (shows_disconnected hP _) fun _ => .pure _

theorem shows_drive : Shows P (drive now : RunAct κ Location) :=
  .bind (shows_wire (.say fun _ => hP _ trivial)) fun _ => .bind (.modify _) fun _ =>
    .bind (shows_wire fun _ _ hx => by simp [Wire.connect, Act.obs] at hx) fun _ =>
      .bind (shows_apply hP _) fun _ => .bind (.modify _) fun _ => .bind (.modify _) fun _ =>
        .pure _

theorem shows_finish (fatal : Option Fatal)
    (hfatal : ∀ g f, fatal = some f → P (g, .emitted (.fatal f))) :
    Shows P (finish fatal : RunAct κ Location) := by
  refine .bind (shows_settle hP _) fun _ => ?_
  cases fatal with
  | none => exact .bind (.modify _) fun _ => .bind (.modify _) fun _ => shows_stop hP
  | some fatal =>
    exact .bind (.modify _) fun _ => .bind (shows_wire (.say fun _ => hfatal _ _ rfl)) fun _ =>
      shows_stop hP

end Shows

/-- The computation takes no command. -/
abbrev TakesNone {α : Type} (x : RunAct κ α) : Prop := Shows Obs.Untaking x

variable {now : Instant} {α : Type}

/-- The command a step of the socket loop is. -/
def Step.commands : Step κ → List (Command κ)
  | .command command _ => [command]
  | _ => []

theorem tookCommands_bind {β : Type} {x : RunAct κ α} {f : α → RunAct κ β}
    (hf : ∀ a, TakesNone (f a)) (r : Runner κ) :
    tookCommands ((x >>= f).obs r) = tookCommands (x.obs r) := by
  rw [Act.obs_bind, tookCommands_append, tookCommands_eq_nil (hf _ _), List.append_nil]

theorem tookCommands_command (command : Command κ) (dropped : Bool) (r : Runner κ) :
    tookCommands ((handleCommand command dropped).obs r) = [command] := by
  refine (tookCommands_bind (x := wire (Wire.handleCommand command dropped)) (fun _ => ?_) r).trans
    (tookCommands_handleCommand r.toWire command dropped)
  cases command with
  | shutdown => exact .modify _
  | _ => exact .pure _

theorem tookCommands_take (step : Step κ) (r : Runner κ) :
    tookCommands ((take now step).obs r) = Step.commands step := by
  cases step with
  | command command dropped =>
    exact (tookCommands_bind (fun _ => .pure _) r).trans (tookCommands_command command dropped r)
  | frame frame => exact tookCommands_eq_nil (shows_onFrame untaking_of_ordinary frame r)
  | deadline => exact tookCommands_eq_nil (shows_onDeadline untaking_of_ordinary r)
  | _ => rfl

theorem tookCommands_afterStep (step : Step κ) (r : Runner κ) :
    tookCommands ((afterStep now step).obs r) = Step.commands step := by
  refine (tookCommands_bind (fun outcome => ?_) r).trans (tookCommands_take step r)
  refine .bind (.modify _) fun _ => .bind .get fun r => ?_
  split
  · exact .bind (.modify _) fun _ => .pure _
  · split
    · exact .pure _
    · split
      · exact .bind (shows_disconnected untaking_of_ordinary _) fun _ => .pure _
      · exact .pure _
      · exact .pure _
      · exact .bind (.modify _) fun _ => .pure _

theorem takesNone_afterStep {step : Step κ} (hs : Step.commands step = []) (now : Instant) :
    TakesNone (afterStep now step) := by
  intro r x hx
  obtain ⟨g, y⟩ := x
  cases y with
  | took command phase out =>
    have hmem : command ∈ tookCommands ((afterStep now step).obs r) :=
      List.mem_filterMap.mpr ⟨_, hx, rfl⟩
    rw [tookCommands_afterStep, hs] at hmem
    simp at hmem
  | _ => trivial

theorem takesNone_write (reply : SinkReply) : TakesNone (write now reply : RunAct κ Location) := by
  refine .bind .get fun r => ?_
  dsimp only
  split
  · exact .pure _
  · match reply with
    | .pending => exact .pure _
    | .failed error => exact takesNone_afterStep rfl _
    | .ready (.error error) =>
      exact .bind (shows_hand untaking_of_ordinary _) fun _ => takesNone_afterStep rfl _
    | .ready (.ok ()) =>
      exact .bind (shows_hand untaking_of_ordinary _) fun _ => .bind (.modify _) fun _ => .pure _

theorem tookCommands_idleCommand {wake : Instant} (offered : Option (Command κ × Bool))
    (r : Runner κ) : tookCommands ((idleCommand wake offered).obs r) = [] ∨
      tookCommands ((idleCommand wake offered).obs r) = (offered.map Prod.fst).toList := by
  match offered with
  | some (command, dropped) =>
    refine .inr ((tookCommands_bind (fun _ => ?_) r).trans (tookCommands_command command dropped r))
    refine .bind .get fun r => ?_
    split
    · exact shows_stop untaking_of_ordinary
    · exact .pure _
  | none =>
    have hstop : TakesNone (idleCommand wake none : RunAct κ Location) :=
      .bind (.modify _) fun _ => shows_stop untaking_of_ordinary
    exact .inl (tookCommands_eq_nil (hstop r))

theorem tookCommands_sources (read : Option ReadReply)
    (command : Option (Option (Command κ × Bool))) (timer : Bool) (r : Runner κ) :
    tookCommands ((sources now read command timer).obs r) = [] ∨
      tookCommands ((sources now read command timer).obs r) =
        (command.join.map Prod.fst).toList := by
  -- The step is what was read, the command offered, or the deadline.
  have hstep : ∀ step, (read.map ReadReply.step = some step ∨
      command.map commandStep = some step ∨ step = .deadline) →
      Step.commands step = [] ∨ Step.commands step = (command.join.map Prod.fst).toList := by
    rintro step (h | h | rfl)
    · obtain ⟨reply, -, rfl⟩ := Option.map_eq_some_iff.mp h
      cases reply <;> exact .inl rfl
    · obtain ⟨offered, rfl, rfl⟩ := Option.map_eq_some_iff.mp h
      match offered with
      | none => exact .inl rfl
      | some (command, dropped) => exact .inr rfl
    · exact .inl rfl
  have hchosen : ∀ (accept turn : Bool) step,
      ((if !turn
        then (read.map ReadReply.step).or (if accept then command.map commandStep else none)
        else (if accept then command.map commandStep else none).or (read.map ReadReply.step)).or
          (if timer then some .deadline else none)) = some step →
      read.map ReadReply.step = some step ∨ command.map commandStep = some step ∨
        step = .deadline := by
    intro accept turn step h
    cases accept <;> cases turn <;> cases timer <;>
      simp only [Bool.not_false, Bool.not_true, if_true, if_false, Option.or_eq_some_iff,
        Option.none_or, Option.or_none, Option.some.injEq, Bool.false_eq_true] at h <;> tauto
  simp only [sources, Act.obs_bind, Act.obs_get, Act.value_get, Act.state_get, Act.obs_modify,
    Act.state_modify, List.nil_append]
  split
  · next step heq =>
    rw [tookCommands_afterStep]
    exact hstep step (hchosen _ _ step heq)
  · exact .inl rfl

theorem takesNone_flush (reply : FlushReply) :
    TakesNone (flush now reply : RunAct κ Location) := by
  refine .bind .get fun r => ?_
  split
  · match reply with
    | some (.ok ()) =>
      exact .bind (.modify _) fun _ => .bind (shows_wire (.modify _)) fun _ => .pure _
    | some (.error error) => exact takesNone_afterStep rfl _
    | none => exact .pure _
  · exact .pure _

end Runner

/-- **A step takes the command it is offered, or none.** -/
theorem World.tookCommands_step {w w' : World κ} {input : Input κ} {o : List (Seen κ)}
    (hs : w.step input = some (w', o)) :
    tookCommands o = [] ∨ tookCommands o = (input.offer.map Prod.fst).toList := by
  rcases step_cases hs with ⟨elapsed, rfl, rfl, rfl⟩ | ⟨x, hx, he⟩
  · exact .inl rfl
  · obtain ⟨-, rfl⟩ := Prod.mk.inj he
    have hnone : Runner.TakesNone x → tookCommands (x w.runner).2.2 = [] :=
      fun hx => tookCommands_eq_nil (hx _)
    cases hx with
    | begin draw hl => exact .inl (hnone (Runner.shows_begin untaking_of_ordinary draw))
    | elapsed hl => exact .inl (hnone (Runner.shows_connecting untaking_of_ordinary))
    | command offered hl => exact Runner.tookCommands_idleCommand offered _
    | opened hl => exact .inl (hnone (Runner.shows_drive untaking_of_ordinary))
    | openFailed reason hoffer hl =>
      exact .inl (hnone (Runner.shows_openFailed untaking_of_ordinary _))
    | sink reply hl => exact .inl (hnone (Runner.takesNone_write reply))
    | flush reply hl => exact .inl (hnone (Runner.takesNone_flush reply))
    | poll read command timer hl =>
      have htook := @Runner.tookCommands_sources _ w.clock read command timer w.runner
      cases command with
      | none => exact htook
      | some offered => exact htook
    | closed hl =>
      exact .inl (hnone (Runner.shows_finish untaking_of_ordinary _ fun _ _ _ => trivial))

/-! ### Logins -/

/-- Every `Event::Ready` is followed by the `Event::Resubscribe` of its epoch. -/
def Announces (h : List (Seen κ)) : Prop :=
  ∀ pre g epoch post, h = pre ++ (g, .emitted (.ready epoch)) :: post →
    ∃ post', post = (g, .emitted (.resubscribe epoch)) :: post'

theorem Announces.append {h o : List (Seen κ)} (hh : Announces h) (ho : Announces o) :
    Announces (h ++ o) := by
  intro pre g epoch post hp
  rcases List.append_eq_append_iff.mp hp with ⟨l, rfl, hl⟩ | ⟨l, hl, hr⟩
  · exact ho l g epoch post hl
  · cases l with
    | nil => exact ho [] g epoch post (by simpa using hr.symm)
    | cons y l =>
      simp only [List.cons_append, List.cons.injEq] at hr
      obtain ⟨rfl, rfl⟩ := hr
      obtain ⟨post', rfl⟩ := hh pre g epoch l hl
      exact ⟨post' ++ o, rfl⟩

/-- Observations without an `Event::Ready`. -/
theorem announces_of_not_ready {o : List (Seen κ)}
    (ho : ∀ g epoch, (g, .emitted (.ready epoch)) ∉ o) : Announces o := by
  intro pre g epoch post hp
  exact absurd (by simp [hp]) (ho g epoch)

theorem announces_step {w w' : Wire κ} {o : List (Seen κ)} (hs : Wire.Step cause w o w') :
    Announces o := by
  cases hs with
  -- `Resubscribe` and `Ready` are shown in one step, in this order.
  | ready epoch =>
    intro pre g epoch' post hp
    cases pre with
    | nil =>
      simp only [List.nil_append, List.cons.injEq, Prod.mk.injEq, Obs.emitted.injEq,
        Event.ready.injEq] at hp
      obtain ⟨⟨rfl, rfl⟩, rfl⟩ := hp
      exact ⟨[], rfl⟩
    | cons y pre =>
      have hmem : (g, .emitted (.ready epoch')) ∈
          [((w.generation, .emitted (.resubscribe epoch)) : Seen κ)] := by
        rw [(List.cons.inj hp).2]
        exact List.mem_append_cons_self
      simp at hmem
  -- No other step shows a `Ready`.
  | emitted event hevent =>
    refine announces_of_not_ready fun g epoch hx => ?_
    obtain ⟨-, hx⟩ := Prod.mk.inj (List.mem_singleton.mp hx)
    exact hevent epoch (Obs.emitted.inj hx).symm
  | answer ha =>
    refine announces_of_not_ready fun g epoch hx => ?_
    obtain ⟨y, -, heq⟩ := List.mem_map.mp hx
    simp at heq
  | settle why session hlive =>
    refine announces_of_not_ready fun g epoch hx => ?_
    obtain ⟨-, hx | ⟨m, p, -, hx⟩⟩ := (w.mem_settleObs).mp hx
    all_goals simp at hx
  | hand accepted hlive hready =>
    refine announces_of_not_ready fun g epoch hx => ?_
    rcases w.hand_cases accepted with ⟨_, _, -, ho, -⟩ | ⟨_, _, -, -, ho, -⟩ | ⟨-, -, ho, -⟩
    all_goals simp [ho] at hx
  | take command dropped =>
    refine announces_of_not_ready fun g epoch hx => ?_
    rcases w.take_cases command dropped with ⟨ho, -⟩ | ⟨_, -, ho, -⟩ | ⟨_, ho, -⟩ |
      ⟨_, _, -, -, ho, -⟩
    all_goals simp [ho] at hx
  | login params hphase => exact announces_of_not_ready (by simp [Wire.obs_login])
  | _ => exact announces_of_not_ready (by simp)

/-- The phase a frame leaves a session in stays while the frame is handled. -/
theorem phase_of_handling {message : ServerMessage} {w w' : Wire κ} {o : List (Seen κ)}
    (hc : Chain (Wire.Step (.handling message)) w o w') :
    w'.session.phase = w.session.phase ∧ w'.generation = w.generation := by
  induction hc with
  | nil => exact ⟨rfl, rfl⟩
  | cons hs _ ih =>
    obtain ⟨hphase, hgen⟩ := ih
    cases hs with
    | _ => exact ⟨hphase, hgen⟩

/-- A session that is ready was announced in its generation. -/
def Announced (h : List (Seen κ)) (w : Wire κ) : Prop :=
  w.session.phase = .ready → ∃ epoch, (w.generation, .emitted (.ready epoch)) ∈ h

theorem Announced.turn {h o : List (Seen κ)} {w w' : Wire κ} (ha : Announced h w)
    (ht : Wire.Turn w o w') : Announced (h ++ o) w' := by
  have hkeep : w'.generation = w.generation → w.session.phase = .ready →
      ∃ epoch, (w'.generation, .emitted (.ready epoch)) ∈ h ++ o := by
    intro hgen hphase
    obtain ⟨epoch, hx⟩ := ha hphase
    exact ⟨epoch, List.mem_append_left _ (hgen ▸ hx)⟩
  intro hready
  cases ht with
  | step hs =>
    cases hs with
    | connect hphase => simp [Session.connect] at hready
    | settle why session hlive => exact absurd (Session.live_of_ready hready) hlive
    | hand accepted hlive hlane =>
      refine hkeep ?_ (w.session_hand accepted ▸ hready)
      rcases w.hand_cases accepted with ⟨_, _, -, -, hw⟩ | ⟨_, _, -, -, -, hw⟩ | ⟨-, -, -, hw⟩
      all_goals rw [hw]
    | take command dropped =>
      have hsame : ((Wire.handleCommand command dropped).state w).session = w.session ∧
          ((Wire.handleCommand command dropped).state w).generation = w.generation := by
        rcases w.take_cases command dropped with ⟨-, hw⟩ | ⟨_, -, -, hw⟩ | ⟨_, -, hw⟩ |
          ⟨_, _, -, -, -, hw⟩
        all_goals
          rw [hw]
          exact ⟨rfl, rfl⟩
      exact hkeep hsame.2 (hsame.1 ▸ hready)
    | _ => exact hkeep rfl hready
  | @frame message _ _ o hlive hc hannounce =>
    obtain ⟨hphase, hgen⟩ := phase_of_handling hc
    rw [hphase] at hready
    -- The frame found the session ready, or made it so.
    rcases w.session.handle_cases message with ⟨_, -, he⟩ | ⟨_, -, he⟩ | ⟨_, _, -, -, he⟩ |
      ⟨_, _, _, -, -, he⟩ | ⟨_, -, he⟩ | ⟨_, he⟩ | he
    · simp [he] at hready
    · simp [he] at hready
    · obtain ⟨epoch, hx⟩ := hannounce (by rw [he])
      exact ⟨epoch, List.mem_append_right _ (List.mem_cons_of_mem _ (hgen ▸ hx))⟩
    · simp [he] at hready
    all_goals exact hkeep hgen (by simpa [he] using hready)

/-- **A ready session was announced**, and every announcement asks for a replay. -/
theorem World.announced {config : Config} {h : List (Seen κ)} {w : World κ}
    (hrun : Run World.step (World.init config) h w) :
    Announced h w.runner.toWire ∧ Announces h := by
  refine World.turn_invariant (I := fun h w => Announced h w ∧ Announces h) ⟨?_, ?_⟩ ?_ hrun
  · exact fun hready => by simp [Wire.init, Session.new] at hready
  · exact announces_of_not_ready (by simp)
  · intro h w o w' hI ht
    refine ⟨hI.1.turn ht, ht.invariant (I := fun h _ => Announces h) (J := fun _ h _ => Announces h)
      (fun hI hs => hI.append (announces_step hs)) (fun hI _ => ?_)
      (fun hI hs => hI.append (announces_step hs)) id hI.2⟩
    exact hI.append (announces_of_not_ready (by simp))

/-! ### Replies -/

/-- What shows the cause of a reply: the frame that was received, or the ending. -/
def Obs.Causes : Option ServerMessage → Obs κ → Prop
  | some message, y => y = .received message
  | none, y => ∃ why, y = .ended why

/-- The cause of a reply was shown in the same generation, when the call waited. -/
def HeardAt (pre : List (Seen κ)) (x : Seen κ) : Prop :=
  ∀ cause m k reply, x.2 = .settled cause m (.caller k) reply →
    ∃ pre' y rest, pre = pre' ++ (x.1, y) :: rest ∧ y.Causes cause ∧ TookOn x.1 pre' k m ∧
      ¬ AnsweredOn x.1 pre' m

/-- While a frame is handled, the calls that wait are calls that waited when it was
received. -/
def Hearing (message : ServerMessage) (h : List (Seen κ)) (w : Wire κ) : Prop :=
  ∃ pre rest, h = pre ++ (w.generation, .received message) :: rest ∧
    ∀ m k, w.waiterOf m = some (.caller k) → TookOn w.generation pre k m ∧
      ¬ AnsweredOn w.generation pre m

theorem Hearing.step {message : ServerMessage} {h o : List (Seen κ)} {w w' : Wire κ}
    (hb : Hearing message h w) (hs : Wire.Step (.handling message) w o w') :
    Hearing message (h ++ o) w' := by
  obtain ⟨pre, rest, rfl, hwaits⟩ := hb
  -- A step that adds no caller keeps what is waited for.
  have hkeep : w'.generation = w.generation →
      (∀ m k, w'.waiterOf m = some (.caller k) → w.waiterOf m = some (.caller k)) →
      Hearing message (pre ++ (w.generation, .received message) :: rest ++ o) w' := by
    intro hgen hwaiter
    refine ⟨pre, rest ++ o, by simp [hgen], fun m k hk => ?_⟩
    rw [hgen]
    exact hwaits m k (hwaiter m k hk)
  -- The login is no caller, and an answer only takes one away.
  cases hs with
  | login params hphase =>
    refine hkeep rfl fun m k hk => ?_
    have hregister : ((Wire.register .methods .login).state w).waiterOf m = some (.caller k) := hk
    rw [Wire.waiterOf, Wire.pendingOf_register] at hregister
    split at hregister
    · simp at hregister
    · exact hregister
  | answer ha =>
    refine hkeep rfl fun m k hk => ?_
    rw [Wire.waiterOf, Wire.pendingOf_answer] at hk
    split at hk
    · simp at hk
    · exact hk
  | _ => exact hkeep rfl fun _ _ hk => hk

/-- Observations that send no reply. -/
theorem heardAt_of_not_settled {o h : List (Seen κ)}
    (ho : ∀ g cause m k reply, (g, .settled cause m (.caller k) reply) ∉ o) :
    Each (fun pre x => HeardAt (h ++ pre) x) o := by
  rintro pre ⟨g, y⟩ post hp cause m k reply rfl
  exact absurd (by simp [hp]) (ho g cause m k reply)

/-- What waits was taken in this generation, and not answered. -/
theorem Ledger.waits {h : List (Seen κ)} {w : Wire κ} (hl : Ledger h w) {m : Mark} {k : κ}
    (hk : w.waiterOf m = some (.caller k)) :
    TookOn w.generation h k m ∧ ¬ AnsweredOn w.generation h m := by
  refine ⟨hl.fates.waiter m _ hk, ?_⟩
  rintro ⟨message, waiter, reply, hx⟩
  have hnone := (hl.fates.settled _ _ _ _ _ hx).1
  rw [hk] at hnone
  simp at hnone

/-- What a step sends a reply waited when the cause was shown. -/
theorem heardAt_step {h o : List (Seen κ)} {w w' : Wire κ} (hl : Ledger h w)
    (hb : ∀ message, cause = .handling message → Hearing message h w)
    (hs : Wire.Step cause w o w') : Each (fun pre x => HeardAt (h ++ pre) x) o := by
  cases hs with
  | answer ha =>
    rename_i message m₀ outcome
    rw [Wire.obs_answer w m₀ message outcome (hl.ids.epoch m₀)]
    cases hp : w.pendingOf m₀ with
    | none => exact each_nil
    | some p =>
      rw [each_singleton, List.append_nil]
      intro cause m k reply hx
      obtain ⟨rfl, rfl, hk, -⟩ := Obs.settled.inj hx
      obtain ⟨pre, rest, rfl, hwaits⟩ := hb message rfl
      obtain ⟨htook, hanswered⟩ := hwaits m₀ k (by rw [Wire.waiterOf, hp, ← hk]; rfl)
      exact ⟨pre, _, rest, rfl, rfl, htook, hanswered⟩
  | settle why session hlive =>
    -- The ending is shown before the replies it causes.
    refine each_cons.mpr ⟨fun _ _ _ _ hx => by simp at hx, ?_⟩
    rintro pre ⟨g, y⟩ post hpost cause m k reply rfl
    have hmem : (g, .settled cause m (.caller k) reply) ∈ w.settleObs why := by
      rw [Wire.settleObs, hpost]
      simp
    obtain ⟨rfl, hx | ⟨m', p, hp, hx⟩⟩ := (w.mem_settleObs).mp hmem
    · simp at hx
    · obtain ⟨rfl, rfl, hk, -⟩ := Obs.settled.inj hx
      have hwaiter : w.waiterOf m = some (.caller k) := by
        rw [Wire.pendingOf_flushed] at hp
        split at hp
        · obtain ⟨q, hq, rfl⟩ := Option.map_eq_some_iff.mp hp
          rw [Wire.waiterOf, hq, hk]
          rfl
        · rw [Wire.waiterOf, hp, hk]
          rfl
      obtain ⟨htook, hanswered⟩ := hl.waits hwaiter
      exact ⟨h, _, pre, rfl, ⟨why, rfl⟩, htook, hanswered⟩
  | hand accepted hlive hready =>
    refine heardAt_of_not_settled fun g cause m k reply hx => ?_
    rcases w.hand_cases accepted with ⟨_, _, -, ho, -⟩ | ⟨_, _, -, -, ho, -⟩ | ⟨-, -, ho, -⟩
    all_goals simp [ho] at hx
  | take command dropped =>
    refine heardAt_of_not_settled fun g cause m k reply hx => ?_
    rcases w.take_cases command dropped with ⟨ho, -⟩ | ⟨_, -, ho, -⟩ | ⟨_, ho, -⟩ |
      ⟨_, _, -, -, ho, -⟩
    all_goals simp [ho] at hx
  | login params hphase => exact heardAt_of_not_settled (by simp [Wire.obs_login])
  | _ => exact heardAt_of_not_settled (by simp)

/-- The ledger, and that every reply to a caller was heard. -/
def Attended (h : List (Seen κ)) (w : Wire κ) : Prop := Ledger h w ∧ Each HeardAt h

theorem Attended.step {h o : List (Seen κ)} {w w' : Wire κ} (ha : Attended h w)
    (hb : ∀ message, cause = .handling message → Hearing message h w)
    (hs : Wire.Step cause w o w') : Attended (h ++ o) w' :=
  ⟨ha.1.step hs, each_append.mpr ⟨ha.2, heardAt_step ha.1 hb hs⟩⟩

theorem Attended.turn {h o : List (Seen κ)} {w w' : Wire κ} (ha : Attended h w)
    (ht : Wire.Turn w o w') : Attended (h ++ o) w' := by
  refine ht.invariant (J := fun message h w => Attended h w ∧ Hearing message h w) ?_ ?_ ?_
    (fun hJ => hJ.1) ha
  · exact fun ha hs => ha.step (by simp) hs
  · intro h w message ha hlive
    exact ⟨ha.step (by simp) (.hear message hlive), h, [], rfl, fun m k hk => ha.1.waits hk⟩
  · intro message h w o w' ⟨ha, hb⟩ hs
    exact ⟨ha.step (fun _ hc => Cause.handling.inj hc ▸ hb) hs, hb.step hs⟩

/-- **Every reply has its cause**, in every state of every run. -/
theorem World.attended {config : Config} {h : List (Seen κ)} {w : World κ}
    (hrun : Run World.step (World.init config) h w) : Attended h w.runner.toWire :=
  World.turn_invariant ⟨.init, each_nil⟩ Attended.turn hrun

end RocketSocket
