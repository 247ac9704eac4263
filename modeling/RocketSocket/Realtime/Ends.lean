import RocketSocket.Realtime.Replies

/-!
# How a run ends

`Runner::run` has five ways out: a shutdown while a socket is open or while a backoff is
waited out, a fatal failure, and every handle dropped in either place.  All of them settle
every waiter, and a fatal failure is the last thing anyone is told.

## Main definitions

* `Runner.Settled` — nobody waits for a reply.
* `Obs.Quiet`, `Silent` — nothing is announced after a fatal failure, and no socket opened.

## Main results

* `World.settled_of_stopped` — when the task has ended nobody waits.
* `World.answered_of_stopped` — and every call that was registered was answered.
* `World.silent` — a fatal failure is the last event, and no attempt to connect follows it.
-/

namespace RocketSocket

open Machine

variable {κ : Type}

/-! ### Nobody waits -/

namespace Runner

variable {now : Instant}

/-- Neither correlator has an entry. -/
def Settled (r : Runner κ) : Prop := ∀ side, (r.table side).pending = ∅

/-- If the computation ends the task, nobody waits any more. -/
abbrev EndsSettled (x : RunAct κ Location) : Prop := Leaves (fun l r => l = .stopped → r.Settled) x

theorem endsSettled_pure {location : Location} (h : location ≠ .stopped) :
    EndsSettled (pure location : RunAct κ Location) := .pure fun _ hl => absurd hl h

theorem endsSettled_stop : EndsSettled (stop : RunAct κ Location) := fun _ _ _ => rfl

theorem endsSettled_connecting : EndsSettled (connecting now : RunAct κ Location) :=
  .bind fun _ => .bind fun _ => .bind fun _ => .bind fun _ => endsSettled_pure (by simp)

theorem endsSettled_begin (draw : ℕ) : EndsSettled (begin now draw : RunAct κ Location) := by
  refine .bind fun r => ?_
  split
  · exact endsSettled_stop
  · refine .bind fun r => .bind fun _ => ?_
    split
    · exact endsSettled_connecting
    · exact .bind fun _ => endsSettled_pure (by simp)

theorem endsSettled_idleCommand {wake : Instant} (command : Option (Command κ × Bool)) :
    EndsSettled (idleCommand wake command) := by
  match command with
  | some (command, dropped) =>
    refine .bind fun _ => .bind fun r => ?_
    split
    · exact endsSettled_stop
    · exact endsSettled_pure (by simp)
  | none => exact .bind fun _ => endsSettled_stop

theorem endsSettled_afterStep (step : Step κ) : EndsSettled (afterStep now step) := by
  refine .bind fun outcome => .bind fun _ => .bind fun r => ?_
  split
  · exact .bind fun _ => endsSettled_pure (by simp)
  · split
    · exact endsSettled_pure (by simp)
    · split
      · exact .bind fun _ => endsSettled_pure (by simp)
      · exact endsSettled_pure (by simp)
      · exact endsSettled_pure (by simp)
      · exact .bind fun _ => endsSettled_pure (by simp)

theorem endsSettled_write (reply : SinkReply) :
    EndsSettled (write now reply : RunAct κ Location) := by
  refine .bind fun r => ?_
  dsimp only
  split
  · exact endsSettled_pure (by simp)
  · match reply with
    | .pending => exact endsSettled_pure (by simp)
    | .failed error => exact endsSettled_afterStep _
    | .ready (.error error) => exact .bind fun _ => endsSettled_afterStep _
    | .ready (.ok ()) => exact .bind fun _ => .bind fun _ => endsSettled_pure (by simp)

theorem endsSettled_flush (reply : FlushReply) :
    EndsSettled (flush now reply : RunAct κ Location) := by
  refine .bind fun r => ?_
  split
  · match reply with
    | some (.ok ()) => exact .bind fun _ => .bind fun _ => endsSettled_pure (by simp)
    | some (.error error) => exact endsSettled_afterStep _
    | none => exact endsSettled_pure (by simp)
  · exact endsSettled_pure (by simp)

theorem endsSettled_sources (read : Option ReadReply)
    (command : Option (Option (Command κ × Bool))) (timer : Bool) :
    EndsSettled (sources now read command timer) := by
  refine .bind fun r => .bind fun _ => ?_
  dsimp only
  split
  · exact endsSettled_afterStep _
  · exact endsSettled_pure (by simp)

theorem endsSettled_finish (fatal : Option Fatal) :
    EndsSettled (finish fatal : RunAct κ Location) := by
  cases fatal with
  | none => exact .bind fun _ => .bind fun _ => .bind fun _ => endsSettled_stop
  | some fatal => exact .bind fun _ => .bind fun _ => .bind fun _ => endsSettled_stop

end Runner

namespace World

/-- A task that has ended computes nothing. -/
theorem Computes.not_stopped {w : World κ} {input : Input κ} {x : RunAct κ Location}
    (hx : w.Computes input x) : w.location ≠ .stopped := by
  cases hx <;> simp [*]

/-- However the task ends, nobody waits any more. -/
theorem Computes.endsSettled {w : World κ} {input : Input κ} {x : RunAct κ Location}
    (hx : w.Computes input x) : Runner.EndsSettled x := by
  cases hx with
  | begin draw hl => exact Runner.endsSettled_begin draw
  | elapsed hl => exact Runner.endsSettled_connecting
  | command command hl => exact Runner.endsSettled_idleCommand command
  | opened hl =>
    exact .bind fun _ => .bind fun _ => .bind fun _ => .bind fun _ => .bind fun _ =>
      .bind fun _ => Runner.endsSettled_pure (by simp)
  | openFailed reason hoffer hl => exact .bind fun _ => Runner.endsSettled_pure (by simp)
  | sink reply hl => exact Runner.endsSettled_write reply
  | flush reply hl => exact Runner.endsSettled_flush reply
  | poll read command timer hl => exact Runner.endsSettled_sources read command timer
  | closed hl => exact Runner.endsSettled_finish _

/-- **When the task has ended nobody waits.** -/
theorem settled_of_stopped {config : Config} {h : List (Seen κ)} {w : World κ}
    (hrun : Run step (init config) h w) (hstopped : w.location = .stopped) :
    w.runner.Settled := by
  refine hrun.invariant (I := fun _ w => w.location = .stopped → w.runner.Settled)
    (fun hl => by simp [init] at hl) (fun {h w i w' o} hw hs => ?_) hstopped
  rcases step_cases hs with ⟨elapsed, rfl, rfl, rfl⟩ | ⟨x, hx, he⟩
  · exact hw
  · obtain ⟨rfl, -⟩ := Prod.mk.inj he
    exact hx.endsSettled w.runner

/-- **And every call that was registered was answered**, to the one it was registered for. -/
theorem answered_of_stopped {config : Config} {h : List (Seen κ)} {w : World κ}
    (hrun : Run step (init config) h w) (hstopped : w.location = .stopped) {g : ℕ} {m : Mark}
    {k : Waiter κ} (hk : IssuedFor g h m k) :
    ∃ cause reply, (g, .settled cause m k reply) ∈ h := by
  have hl := (attended hrun).1
  have hnone : w.runner.toWire.waiterOf m = none := by
    rw [Wire.waiterOf, Wire.pendingOf, settled_of_stopped hrun hstopped]
    rfl
  have hsettled : SettledOn g h m := by
    rcases hl.fates.fate g m hk.mem_issuedOn with ⟨-, hwaits | hanswered⟩ | ⟨-, hsettled⟩
    · exact absurd hnone hwaits
    · exact hanswered.settledOn
    · exact hsettled
  obtain ⟨cause, k', reply, hx⟩ := hsettled
  obtain ⟨-, rfl⟩ := hk.unique hl.ids.nodup (hl.fates.settledWaiter _ _ _ _ _ hx)
  exact ⟨cause, reply, hx⟩

end World

/-! ### The last word -/

/-- The observation is a fatal failure announced. -/
def Obs.IsFatal : Obs κ → Prop
  | .emitted (.fatal _) => True
  | _ => False

/-- The observation announces nothing, and is no socket opened. -/
def Obs.Quiet : Obs κ → Prop
  | .emitted _ | .opened => False
  | _ => True

/-- A fatal failure was announced. -/
def Failed (h : List (Seen κ)) : Prop := ∃ x ∈ h, x.2.IsFatal

/-- Once a fatal failure is announced nothing else is, and no socket is opened. -/
def Silent (h : List (Seen κ)) : Prop := Each (fun pre x => Failed pre → x.2.Quiet) h

/-- What is neither taking a command nor the failure is no failure, nor is taking one. -/
theorem not_isFatal_of_ordinary : ∀ x : Seen κ, Obs.Ordinary x → ¬ x.2.IsFatal := by
  rintro ⟨g, x⟩ hx
  cases x with
  | emitted event =>
    cases event with
    | fatal fatal => exact hx.elim
    | _ => exact id
  | _ => exact id

namespace Runner

/-- The computation announces no fatal failure. -/
abbrev NeverFatal {α : Type} (x : RunAct κ α) : Prop := Shows (fun x => ¬ x.2.IsFatal) x

variable {now : Instant}

theorem neverFatal_handleCommand (command : Command κ) (dropped : Bool) :
    NeverFatal (handleCommand command dropped) := by
  refine .bind (shows_wire fun w x hx => ?_) fun _ => ?_
  · rcases w.take_cases command dropped with ⟨ho, -⟩ | ⟨_, -, ho, -⟩ | ⟨_, ho, -⟩ |
      ⟨_, _, -, -, ho, -⟩
    all_goals
      rw [ho, List.mem_singleton] at hx
      subst hx
      exact id
  · cases command with
    | shutdown => exact .modify _
    | _ => exact .pure _

theorem neverFatal_idleCommand {wake : Instant} (command : Option (Command κ × Bool)) :
    NeverFatal (idleCommand wake command) := by
  match command with
  | some (command, dropped) =>
    refine .bind (neverFatal_handleCommand command dropped) fun _ => .bind .get fun r => ?_
    split
    · exact shows_stop not_isFatal_of_ordinary
    · exact .pure _
  | none => exact .bind (.modify _) fun _ => shows_stop not_isFatal_of_ordinary

theorem neverFatal_take (step : Step κ) : NeverFatal (take now step) := by
  cases step with
  | frame frame => exact shows_onFrame not_isFatal_of_ordinary frame
  | command command dropped =>
    exact .bind (neverFatal_handleCommand command dropped) fun _ => .pure _
  | deadline => exact shows_onDeadline not_isFatal_of_ordinary
  | eof => exact .pure _
  | failed error => exact .pure _
  | handlesDropped => exact .pure _

theorem neverFatal_afterStep (step : Step κ) : NeverFatal (afterStep now step) := by
  refine .bind (neverFatal_take step) fun outcome => .bind (.modify _) fun _ =>
    .bind .get fun r => ?_
  split
  · exact .bind (.modify _) fun _ => .pure _
  · split
    · exact .pure _
    · split
      · exact .bind (shows_disconnected not_isFatal_of_ordinary _) fun _ => .pure _
      · exact .pure _
      · exact .pure _
      · exact .bind (.modify _) fun _ => .pure _

theorem neverFatal_write (reply : SinkReply) :
    NeverFatal (write now reply : RunAct κ Location) := by
  refine .bind .get fun r => ?_
  dsimp only
  split
  · exact .pure _
  · match reply with
    | .pending => exact .pure _
    | .failed error => exact neverFatal_afterStep _
    | .ready (.error error) =>
      exact .bind (shows_hand not_isFatal_of_ordinary _) fun _ => neverFatal_afterStep _
    | .ready (.ok ()) =>
      exact .bind (shows_hand not_isFatal_of_ordinary _) fun _ => .bind (.modify _) fun _ => .pure _

theorem neverFatal_flush (reply : FlushReply) :
    NeverFatal (flush now reply : RunAct κ Location) := by
  refine .bind .get fun r => ?_
  split
  · match reply with
    | some (.ok ()) =>
      exact .bind (.modify _) fun _ => .bind (shows_wire (.modify _)) fun _ => .pure _
    | some (.error error) => exact neverFatal_afterStep _
    | none => exact .pure _
  · exact .pure _

theorem neverFatal_sources (read : Option ReadReply)
    (command : Option (Option (Command κ × Bool))) (timer : Bool) :
    NeverFatal (sources now read command timer) := by
  refine .bind .get fun r => .bind (.modify _) fun _ => ?_
  dsimp only
  split
  · exact neverFatal_afterStep _
  · exact .pure _

theorem quiet_settle (why : Ending) :
    Shows (fun x => x.2.Quiet) (settle why : RunAct κ Unit) := by
  refine .bind (shows_wire ?_) fun _ => .modify _
  rintro w ⟨g, x⟩ hx
  obtain ⟨-, rfl | ⟨m, p, -, rfl⟩⟩ := (w.mem_settleObs).mp hx
  · trivial
  · trivial

theorem quiet_stop : Shows (fun x => x.2.Quiet) (stop : RunAct κ Location) :=
  .bind (.modify _) fun _ => .bind (quiet_settle _) fun _ => .pure _

end Runner

theorem not_isFatal_of_quiet {x : Obs κ} (hx : x.Quiet) : ¬ x.IsFatal := by
  cases x with
  | emitted event => exact hx.elim
  | _ => exact id

theorem not_failed {h : List (Seen κ)} (hh : ∀ x ∈ h, ¬ x.2.IsFatal) : ¬ Failed h := by
  rintro ⟨x, hx, hfatal⟩
  exact hh x hx hfatal

theorem not_failed_append {h o : List (Seen κ)} (hh : ¬ Failed h)
    (ho : ∀ x ∈ o, ¬ x.2.IsFatal) : ¬ Failed (h ++ o) := by
  rintro ⟨x, hx, hfatal⟩
  rcases List.mem_append.1 hx with hx | hx
  · exact hh ⟨x, hx, hfatal⟩
  · exact ho x hx hfatal

/-- What announces no failure is silent after one that was not announced either. -/
theorem Silent.append {h o : List (Seen κ)} (hs : Silent h) (hh : ¬ Failed h)
    (ho : ∀ x ∈ o, ¬ x.2.IsFatal) : Silent (h ++ o) := by
  refine each_append.2 ⟨hs, ?_⟩
  rintro pre x post rfl hf
  exact absurd hf (not_failed_append hh fun y hy => ho y (List.mem_append_left _ hy))

/-- After the failure the task only settles. -/
theorem Silent.finish {h : List (Seen κ)} (hs : Silent h) (hh : ¬ Failed h) (fatal : Option Fatal)
    (r : Runner κ) : Silent (h ++ (Runner.finish fatal : RunAct κ Location).obs r) := by
  cases fatal with
  | none =>
    refine hs.append hh ?_
    exact Runner.shows_finish not_isFatal_of_ordinary none (fun _ _ hf => by cases hf) r
  | some fatal =>
    show Silent (h ++ ((Runner.settle .stopping : RunAct κ Unit).obs r ++
      ([(_, .emitted (.fatal fatal))] ++ (Runner.stop : RunAct κ Location).obs _)))
    have hsettle : ∀ x ∈ (Runner.settle .stopping : RunAct κ Unit).obs r, ¬ x.2.IsFatal :=
      fun x hx => not_isFatal_of_quiet (Runner.quiet_settle .stopping r x hx)
    have hbefore := hs.append hh hsettle
    rw [← List.append_assoc]
    refine each_append.2 ⟨hbefore, each_append.2 ⟨each_singleton.2 fun hf => ?_, ?_⟩⟩
    · rw [List.append_nil] at hf
      exact absurd hf (not_failed_append hh hsettle)
    · rintro pre x post hpost -
      exact Runner.quiet_stop _ x (hpost ▸ List.mem_append_right _ List.mem_cons_self)

namespace World

/-- Only what ends the task announces a fatal failure. -/
theorem Computes.neverFatal {w : World κ} {input : Input κ} {x : RunAct κ Location}
    (hx : w.Computes input x) :
    (∃ fatal, x = Runner.finish fatal) ∨ Runner.NeverFatal x := by
  cases hx with
  | begin draw hl => exact .inr (Runner.shows_begin not_isFatal_of_ordinary draw)
  | elapsed hl => exact .inr (Runner.shows_connecting not_isFatal_of_ordinary)
  | command command hl => exact .inr (Runner.neverFatal_idleCommand command)
  | opened hl => exact .inr (Runner.shows_drive not_isFatal_of_ordinary)
  | openFailed reason hoffer hl =>
    exact .inr (Runner.shows_openFailed not_isFatal_of_ordinary reason)
  | sink reply hl => exact .inr (Runner.neverFatal_write reply)
  | flush reply hl => exact .inr (Runner.neverFatal_flush reply)
  | poll read command timer hl => exact .inr (Runner.neverFatal_sources read command timer)
  | closed hl => exact .inl ⟨_, rfl⟩

/-- **A fatal failure is the last event, and no attempt to connect follows it.** -/
theorem silent {config : Config} {h : List (Seen κ)} {w : World κ}
    (hrun : Run step (init config) h w) : Silent h ∧ (Failed h → w.location = .stopped) := by
  refine hrun.invariant (I := fun h w => Silent h ∧ (Failed h → w.location = .stopped))
    ⟨each_nil, fun hf => absurd hf (not_failed (by simp))⟩ fun {h w i w' o} hw hs => ?_
  obtain ⟨hsilent, hstopped⟩ := hw
  rcases step_cases hs with ⟨elapsed, rfl, rfl, rfl⟩ | ⟨x, hx, he⟩
  · rw [List.append_nil]
    exact ⟨hsilent, hstopped⟩
  · have hh : ¬ Failed h := fun hf => hx.not_stopped (hstopped hf)
    obtain ⟨rfl, rfl⟩ := Prod.mk.inj he
    rcases hx.neverFatal with ⟨fatal, rfl⟩ | hnever
    · refine ⟨hsilent.finish hh fatal w.runner, fun _ => ?_⟩
      cases fatal <;> rfl
    · have ho := hnever w.runner
      exact ⟨hsilent.append hh ho, fun hf => absurd hf (not_failed_append hh ho)⟩

end World

end RocketSocket
