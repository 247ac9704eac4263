import RocketSocket.Lib.Keeps
import RocketSocket.Realtime.Deadlines
import RocketSocket.Realtime.Replies

/-!
# What the runner is made of

A property of computations that sequencing keeps holds of everything the runner does, if it
holds of the pieces: changes of the runner that touch neither the turn nor the configuration,
computations on the wire side that queue no protocol frame, the frames of the protocol itself,
and the login.  Only a poll of the sources touches the turn.

## Main definitions

* `Runner.aside` — whose turn it is, and the configuration.
* `Runner.Framed C` — sequencing keeps `C`, and the pieces have it.

## Main results

* `Runner.framed_take` … `Runner.framed_finish` — the computations of the runner.
* `World.framed_step` — **a step has every such property**, or is a poll of the sources.
-/

namespace RocketSocket

open Machine

variable {κ : Type}

/-- A frame of the protocol that is no call. -/
def ClientMessage.IsProtocol : ClientMessage → Prop
  | .connect .. | .ping _ | .pong _ => True
  | _ => False

/-- An observation that queues no protocol frame. -/
def Obs.Unpushed : Seen κ → Prop
  | (_, .pushed _) => False
  | _ => True

/-- What the session wants sent is a frame of the protocol. -/
theorem Session.isProtocol_of_send (s : Session) (message : ServerMessage) {frame : ClientMessage}
    (hsend : .send frame ∈ (s.handle message).2) : frame.IsProtocol := by
  rcases s.handle_cases message with ⟨_, _, h⟩ | ⟨_, _, h⟩ | ⟨_, _, _, _, h⟩ |
    ⟨_, _, _, _, _, h⟩ | ⟨_, _, h⟩ | ⟨_, h⟩ | h
  all_goals
    rw [h] at hsend
    simp only [List.mem_singleton, List.not_mem_nil, reduceCtorEq, Action.send.injEq] at hsend
  subst hsend
  trivial

namespace Runner

/-- Whose turn it is, and the configuration. -/
def aside (r : Runner κ) : Bool × Config := (r.turn, r.config)

/-- Sequencing keeps a property of computations, and what the runner is made of has it. -/
structure Framed (C : ∀ α : Type, RunAct κ α → Prop) : Prop extends Sequenced C where
  modify : ∀ {f : Runner κ → Runner κ}, (∀ r, (f r).aside = r.aside) → C Unit (Act.modify f)
  wire : ∀ {α : Type} {x : Act (Wire κ) (Seen κ) α}, Shows Obs.Unpushed x → C α (wire x)
  push : ∀ {frame : ClientMessage}, frame.IsProtocol →
    C Unit (Runner.wire (Wire.pushPriority frame none))
  login : ∀ now, C Unit (apply now .login)

variable {C : ∀ α : Type, RunAct κ α → Prop} (hC : Framed C) {now : Instant}
include hC

theorem framed_emit (event : Event) : C Unit (emit event) := hC.wire (.say fun _ => trivial)

theorem framed_setState (state : ConnectionState) : C Unit (setState state) :=
  hC.modify fun _ => rfl

theorem framed_settle (why : Ending) : C Unit (settle why) := by
  refine hC.bind (hC.wire ?_) fun _ => hC.modify fun _ => rfl
  rintro w ⟨g, x⟩ hx
  obtain ⟨-, rfl | ⟨m, p, -, rfl⟩⟩ := (w.mem_settleObs).mp hx
  · trivial
  · trivial

theorem framed_disconnected (reason : String) : C Unit (disconnected now reason) :=
  hC.bind (hC.modify fun _ => rfl) fun _ => hC.bind (hC.modify fun _ => rfl) fun _ =>
    hC.bind (framed_settle hC _) fun _ => hC.bind (framed_setState hC _) fun _ =>
      framed_emit hC _

theorem framed_apply {action : Action}
    (hsend : ∀ frame, action = .send frame → frame.IsProtocol) : C Unit (apply now action) := by
  cases action with
  | send frame => exact hC.push (hsend frame rfl)
  | login => exact hC.login now
  | resubscribe =>
    exact hC.bind hC.get fun _ => hC.bind (hC.modify fun _ => rfl) fun _ =>
      hC.bind (hC.modify fun _ => rfl) fun _ => hC.bind (framed_emit hC _) fun _ =>
        framed_emit hC _
  | fatal fatal => exact hC.modify fun _ => rfl
  | protocolViolation msg => exact hC.pure _

theorem framed_onText (message : ServerMessage) : C Unit (onText now message) := by
  refine hC.bind (hC.wire ?_) fun r => hC.bind (hC.forM _ fun action haction => ?_) fun _ =>
    hC.bind (hC.wire (Wire.shows_correlate message fun _ _ _ _ => trivial)) fun _ => ?_
  · rintro w x hx
    obtain rfl := List.mem_singleton.mp hx
    trivial
  · refine framed_apply hC fun frame hframe => ?_
    subst hframe
    exact r.session.isProtocol_of_send message haction
  · cases eventOf message with
    | none => exact hC.pure _
    | some event => exact framed_emit hC event

theorem framed_onFrame (frame : Frame) : C (Option Outcome) (onFrame now frame) := by
  refine hC.bind (hC.modify fun _ => rfl) fun _ => ?_
  cases frame with
  | text message =>
    cases message with
    | none => exact hC.pure _
    | some message => exact hC.bind (framed_onText hC message) fun _ => hC.pure _
  | close reason => cases reason <;> exact hC.pure _
  | binary | control => exact hC.pure _

theorem framed_handleCommand (command : Command κ) (dropped : Bool) :
    C Unit (handleCommand command dropped) := by
  refine hC.bind (hC.wire fun w x hx => ?_) fun _ => ?_
  · rcases w.take_cases command dropped with ⟨ho, -⟩ | ⟨_, -, ho, -⟩ | ⟨_, ho, -⟩ |
      ⟨_, _, -, -, ho, -⟩
    all_goals
      rw [ho, List.mem_singleton] at hx
      subst hx
      trivial
  · cases command with
    | shutdown => exact hC.modify fun _ => rfl
    | _ => exact hC.pure _

theorem framed_onDeadline : C (Option Outcome) (onDeadline now) := by
  refine hC.bind (hC.modify fun _ => rfl) fun _ => hC.bind hC.get fun r => ?_
  split
  · exact hC.pure _
  · refine hC.bind (hC.modify fun _ => rfl) fun _ => ?_
    split
    · exact hC.pure _
    · exact hC.bind (hC.push trivial) fun _ => hC.pure _
    · exact hC.pure _

theorem framed_stop : C Location stop :=
  hC.bind (hC.modify fun r => by split <;> rfl) fun _ => hC.bind (framed_settle hC _) fun _ =>
    hC.pure _

theorem framed_connecting : C Location (connecting now) :=
  hC.bind (framed_setState hC _) fun _ => hC.bind hC.get fun _ =>
    hC.bind (framed_emit hC _) fun _ => hC.bind hC.get fun _ => hC.pure _

theorem framed_begin (draw : ℕ) : C Location (begin now draw) := by
  refine hC.bind hC.get fun r => ?_
  split
  · exact framed_stop hC
  · refine hC.bind hC.get fun r => hC.bind (hC.modify fun _ => rfl) fun _ => ?_
    split
    · exact framed_connecting hC
    · exact hC.bind (framed_setState hC _) fun _ => hC.pure _

theorem framed_idleCommand {wake : Instant} (offered : Option (Command κ × Bool)) :
    C Location (idleCommand wake offered) := by
  cases offered with
  | some offer =>
    refine hC.bind (framed_handleCommand hC offer.1 offer.2) fun _ => hC.bind hC.get fun r => ?_
    split
    · exact framed_stop hC
    · exact hC.pure _
  | none => exact hC.bind (hC.modify fun _ => rfl) fun _ => framed_stop hC

theorem framed_openFailed (reason : String) : C Location (openFailed now reason) :=
  hC.bind (framed_disconnected hC _) fun _ => hC.pure _

theorem framed_drive : C Location (drive now) := by
  refine hC.bind (hC.wire (.say fun _ => trivial)) fun _ =>
    hC.bind (hC.modify fun _ => rfl) fun _ =>
      hC.bind (hC.wire fun w x hx => absurd hx List.not_mem_nil) fun r => hC.bind ?_ fun _ =>
        hC.bind (hC.modify fun _ => rfl) fun _ => hC.bind (hC.modify fun _ => rfl) fun _ =>
          hC.pure _
  refine framed_apply hC fun frame hframe => ?_
  obtain rfl := Action.send.inj hframe
  trivial

theorem framed_take (step : Step κ) : C (Option Outcome) (take now step) := by
  cases step with
  | frame frame => exact framed_onFrame hC frame
  | command command dropped =>
    exact hC.bind (framed_handleCommand hC command dropped) fun _ => hC.pure _
  | deadline => exact framed_onDeadline hC
  | _ => exact hC.pure _

theorem framed_afterStep (step : Step κ) : C Location (afterStep now step) := by
  refine hC.bind (framed_take hC step) fun outcome => hC.bind (hC.modify fun _ => rfl) fun _ =>
    hC.bind hC.get fun r => ?_
  split
  · exact hC.bind (hC.modify fun _ => rfl) fun _ => hC.pure _
  · split
    · exact hC.pure _
    · split
      · exact hC.bind (framed_disconnected hC _) fun _ => hC.pure _
      · exact hC.pure _
      · exact hC.pure _
      · exact hC.bind (hC.modify fun _ => rfl) fun _ => hC.pure _

theorem framed_hand (accepted : Bool) : C Unit (Runner.wire (Wire.hand accepted)) := by
  refine hC.wire fun w x hx => ?_
  rcases w.hand_cases accepted with ⟨_, _, -, ho, -⟩ | ⟨_, _, -, -, ho, -⟩ | ⟨-, -, ho, -⟩
  · rw [ho, List.mem_singleton] at hx
    exact hx ▸ trivial
  · rw [ho, List.mem_singleton] at hx
    exact hx ▸ trivial
  · simp [ho] at hx

theorem framed_write (reply : SinkReply) : C Location (write now reply) := by
  refine hC.bind hC.get fun r => ?_
  dsimp only
  split
  · exact hC.pure _
  · cases reply with
    | pending => exact hC.pure _
    | failed error => exact framed_afterStep hC _
    | ready result =>
      cases result with
      | error error => exact hC.bind (framed_hand hC _) fun _ => framed_afterStep hC _
      | ok accepted =>
        exact hC.bind (framed_hand hC _) fun _ => hC.bind (hC.modify fun _ => rfl) fun _ =>
          hC.pure _

theorem framed_flush (reply : FlushReply) : C Location (flush now reply) := by
  refine hC.bind hC.get fun r => ?_
  split
  · rcases reply with _ | error | flushed
    · exact hC.pure _
    · exact framed_afterStep hC _
    · exact hC.bind (hC.modify fun _ => rfl) fun _ => hC.bind (hC.wire (.modify _)) fun _ =>
        hC.pure _
  · exact hC.pure _

theorem framed_finish (fatal : Option Fatal) : C Location (finish fatal) := by
  refine hC.bind (framed_settle hC _) fun _ => ?_
  cases fatal with
  | none =>
    exact hC.bind (hC.modify fun _ => rfl) fun _ => hC.bind (framed_setState hC _) fun _ =>
      framed_stop hC
  | some fatal =>
    exact hC.bind (framed_setState hC _) fun _ => hC.bind (framed_emit hC _) fun _ =>
      framed_stop hC

end Runner

/-- The sources are polled. -/
def Input.polls : Input κ → Bool
  | .poll .. => true
  | _ => false

/-- **A step has every property that is kept by sequencing and that the pieces have**, or it is a
poll of the sources, and goes on with what is taken when the turn has passed. -/
theorem World.framed_step {C : ∀ α : Type, RunAct κ α → Prop} (hC : Runner.Framed C)
    {w w' : World κ} {input : Input κ} {o : List (Seen κ)} (hs : w.step input = some (w', o)) :
    (w'.runner = w.runner ∧ o = [] ∧ input.polls = false) ∨
      ∃ x r, C Location x ∧ w'.runner = x.state r ∧ o = x.obs r ∧ r.config = w.runner.config ∧
        r.turn = (w.runner.turn ^^ input.polls) := by
  rcases World.step_cases hs with ⟨elapsed, rfl, rfl, rfl⟩ | ⟨x, hx, he⟩
  · exact .inl ⟨rfl, rfl, rfl⟩
  · obtain ⟨rfl, rfl⟩ := Prod.mk.inj he
    right
    -- All steps but a poll compute on the runner as it is.
    have hplain : C Location x → input.polls = false → ∃ x' r, C Location x' ∧
        x.state w.runner = x'.state r ∧ x.obs w.runner = x'.obs r ∧ r.config = w.runner.config ∧
          r.turn = (w.runner.turn ^^ input.polls) := fun hx hpolls =>
      ⟨x, w.runner, hx, rfl, rfl, rfl, by rw [hpolls, Bool.xor_false]⟩
    cases hx with
    | begin draw hl => exact hplain (Runner.framed_begin hC draw) rfl
    | elapsed hl => exact hplain (Runner.framed_connecting hC) rfl
    | command offered hl => exact hplain (Runner.framed_idleCommand hC offered) rfl
    | opened hl => exact hplain (Runner.framed_drive hC) rfl
    | openFailed reason hoffer hl =>
      refine hplain (Runner.framed_openFailed hC _) ?_
      cases input with
      | poll read command timer => simp [World.step, hl] at hs
      | _ => rfl
    | sink reply hl => exact hplain (Runner.framed_write hC reply) rfl
    | flush reply hl => exact hplain (Runner.framed_flush hC reply) rfl
    | poll read command timer hl =>
      rw [Input.polls, Bool.xor_true]
      simp only [Act.state, Act.obs]
      -- A poll changes the turn first, and goes on with what it takes.
      rw [Runner.sources_eq]
      cases w.runner.taken read command timer with
      | none =>
        exact ⟨pure .writing, { w.runner with turn := !w.runner.turn }, hC.pure _,
          rfl, rfl, rfl, rfl⟩
      | some step =>
        exact ⟨_, { w.runner with turn := !w.runner.turn }, Runner.framed_afterStep hC step,
          rfl, rfl, rfl, rfl⟩
    | closed hl => exact hplain (Runner.framed_finish hC _) rfl

end RocketSocket
