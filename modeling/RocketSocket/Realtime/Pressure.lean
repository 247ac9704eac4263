import Mathlib.Data.Nat.Bits
import RocketSocket.Realtime.Framed

/-!
# Pressure

Callers hand commands to the runner faster than the socket takes frames, and the server sends
frames while callers wait.  The runner takes a command only while the application lane has
room, and of the socket and the callers it looks first at another each time.

## Main definitions

* `backlog` — the application frames a run accepted and has neither handed over nor dropped.
* `Poll`, `World.polled` — what each poll of the sources found and took.

## Main results

* `backlog_bounded` — **the application lane never holds more than its capacity.**
* `sources_fair` — **neither the socket nor the callers starve.**
-/

namespace RocketSocket

open Machine

variable {κ : Type}

/-! ### The application lane -/

/-- What an observation does to the number of frames on the application lane. -/
def Obs.lane (n : ℕ) : Seen κ → ℕ
  | (_, .took _ _ (some _)) => n + 1
  | (_, .handed .app _ _) => n - 1
  | (_, .ended _) => 0
  | _ => n

/-- The application frames that were accepted and neither handed to the sink nor dropped. -/
def backlog (h : List (Seen κ)) : ℕ := h.foldl Obs.lane 0

/-- A reply does nothing to the lane. -/
theorem foldl_lane_settled {o : List (Seen κ)} {n : ℕ}
    (ho : ∀ x ∈ o, ∃ g cause m waiter reply, x = (g, .settled cause m waiter reply)) :
    o.foldl Obs.lane n = n := by
  induction o with
  | nil => rfl
  | cons x o ih =>
    obtain ⟨⟨g, cause, m, waiter, reply, rfl⟩, hrest⟩ := List.forall_mem_cons.mp ho
    exact ih hrest

/-- **A step does to the lane what it shows.** -/
theorem Wire.Step.lane {cause : Cause} {w w' : Wire κ} {o : List (Seen κ)}
    (hs : Wire.Step cause w o w') : o.foldl Obs.lane w.app.length = w'.app.length := by
  -- Only a handover and an accepted command touch the lane.
  cases hs with
  | emitted | ready | push | connect | hear | flushed => rfl
  | login params => rfl
  | @answer message _ m outcome hanswers =>
    rw [Wire.state_answer]
    refine foldl_lane_settled fun x hx => ?_
    obtain ⟨y, -, rfl⟩ := List.mem_map.mp hx
    exact ⟨_, _, _, _, _, rfl⟩
  -- A frame of the other lane, one of this lane, or none.
  | hand accepted hlive hready =>
    rcases w.hand_cases accepted with ⟨out, rest, -, ho, hs⟩ | ⟨out, rest, -, happ, ho, hs⟩ |
      ⟨-, -, ho, hs⟩
    · rw [ho, hs]
      rfl
    · rw [ho, hs, happ]
      rfl
    · rw [ho, hs]
      rfl
  | settle why session hlive =>
    rw [Wire.settleObs, List.foldl_cons]
    refine foldl_lane_settled fun x hx => ?_
    obtain ⟨side, -, hx⟩ := List.mem_flatMap.mp hx
    obtain ⟨y, -, rfl⟩ := List.mem_map.mp hx
    exact ⟨_, _, _, _, _, rfl⟩
  | take command dropped =>
    rcases w.take_cases command dropped with ⟨ho, hs⟩ | ⟨out, -, ho, hs⟩ | ⟨waiter, ho, hs⟩ |
      ⟨ack, out, -, -, ho, hs⟩
    · rw [ho, hs]
      rfl
    · rw [ho, hs]
      simp [Obs.lane]
    · rw [ho, hs]
      rfl
    · rw [ho, hs]
      simp [Obs.lane]

variable {h o : List (Seen κ)} {w w' : World κ} {input : Input κ} {config : Config}

/-- **The lane holds what the run shows.** -/
theorem backlog_eq (hrun : Run World.step (World.init config) h w) :
    backlog h = w.runner.app.length := by
  refine World.wire_invariant (I := fun h w => backlog h = w.app.length) rfl ?_ hrun
  intro cause h w o w' hh hs
  rw [backlog, List.foldl_append]
  show o.foldl Obs.lane (backlog h) = _
  rw [hh]
  exact hs.lane

/-- Only a command that is taken makes the lane longer. -/
theorem foldl_lane_le (o : List (Seen κ)) (n : ℕ) :
    o.foldl Obs.lane n ≤ n + (tookCommands o).length := by
  induction o generalizing n with
  | nil => exact Nat.le_refl n
  | cons x o ih =>
    have hone : Obs.lane n x ≤ n + (tookCommands [x]).length := by
      obtain ⟨g, y⟩ := x
      cases y with
      | took command phase out =>
        cases out with
        | none => exact Nat.le_succ n
        | some out => exact Nat.le_refl _
      | handed lane out accepted =>
        cases lane with
        | priority => exact Nat.le_refl n
        | app => exact Nat.sub_le n 1
      | ended why => exact Nat.zero_le n
      | _ => exact Nat.le_refl n
    have hsplit : tookCommands (x :: o) = tookCommands [x] ++ tookCommands o :=
      tookCommands_append [x] o
    rw [List.foldl_cons, hsplit, List.length_append]
    have hrest := ih (Obs.lane n x)
    omega

namespace Runner

variable {now : Instant}

/-- Where the lane is full no command is taken. -/
theorem commands_of_full {r : Runner κ} {read : Option ReadReply}
    {command : Option (Option (Command κ × Bool))} {timer : Bool} {step : Step κ}
    (hfull : ¬ r.app.length < r.config.outboxCapacity)
    (htaken : r.taken read command timer = some step) : Step.commands step = [] := by
  simp only [taken, hfull, decide_false, Bool.false_eq_true, if_false, Option.or_none,
    Option.none_or, ite_self, Option.or_eq_some_iff, Option.map_eq_some_iff] at htaken
  rcases htaken with ⟨reply, -, rfl⟩ | ⟨-, htimer⟩
  · cases reply <;> rfl
  · obtain ⟨-, heq⟩ := Option.ite_none_right_eq_some.mp htimer
    rw [← Option.some.inj heq]
    rfl

theorem tookCommands_full {r : Runner κ} (read : Option ReadReply)
    (command : Option (Option (Command κ × Bool))) (timer : Bool)
    (hfull : ¬ r.app.length < r.config.outboxCapacity) :
    tookCommands ((sources now read command timer).obs r) = [] := by
  rw [Act.obs, sources_eq]
  cases htaken : r.taken read command timer with
  | none => rfl
  | some step => exact (tookCommands_afterStep step _).trans (commands_of_full hfull htaken)

end Runner

/-- **A command is taken only where the lane has room.** -/
theorem World.room_of_took (hs : w.step input = some (w', o)) (htook : tookCommands o ≠ []) :
    w.runner.app.length < w.runner.config.outboxCapacity := by
  cases input with
  | command command =>
    simp only [World.step] at hs
    split at hs
    · exact (Option.ite_none_right_eq_some.mp hs).1
    · simp at hs
  | poll read command timer =>
    by_contra hfull
    simp only [World.step] at hs
    split at hs
    · obtain ⟨-, rfl⟩ := Prod.mk.inj (Option.some.inj (Option.ite_none_right_eq_some.mp hs).2)
      exact htook (Runner.tookCommands_full read command timer hfull)
    · simp at hs
  | _ =>
    rcases World.tookCommands_step hs with hnone | hnone
    · exact absurd hnone htook
    · exact absurd hnone htook

/-! ### What only a poll of the sources touches -/

/-- The turn and the configuration stay in all that sequencing makes of the pieces. -/
theorem Runner.framed_keeps : Framed fun α (x : RunAct κ α) => Keeps aside x where
  toSequenced := Keeps.sequenced
  modify hf := hf
  wire _ _ := rfl
  push _ _ := rfl
  login _ _ := rfl

/-- **The turn passes with each poll of the sources**, and with nothing else. -/
theorem World.aside_step (hs : w.step input = some (w', o)) :
    w'.runner.aside = (w.runner.turn ^^ input.polls, w.runner.config) := by
  rcases World.framed_step Runner.framed_keeps hs with ⟨hr, -, hpolls⟩ |
    ⟨x, r, hkeeps, hr, -, hconfig, hturn⟩
  · rw [hr, hpolls, Bool.xor_false]
    rfl
  · rw [hr, hkeeps r, Runner.aside, hturn, hconfig]

/-! ### The lane is bounded -/

/-- The configuration of a run, with room for one command at least. -/
theorem World.config_of_run (hrun : Run World.step (World.init config) h w) :
    w.runner.config = { config with outboxCapacity := max config.outboxCapacity 1 } := by
  refine hrun.invariant (I := fun _ w => w.runner.config =
    { config with outboxCapacity := max config.outboxCapacity 1 }) rfl fun hw hs => ?_
  exact (congrArg Prod.snd (World.aside_step hs)).trans hw

/-- A run whose lane is never too long. -/
def Bounded (capacity : ℕ) (h : List (Seen κ)) : Prop :=
  ∀ pre post, h = pre ++ post → backlog pre ≤ capacity

/-- **The application lane never holds more than its capacity**, counted in frames accepted and
neither handed to the sink nor dropped, at any moment of a run; and what is counted is what the
lane holds. -/
theorem backlog_bounded (hrun : Run World.step (World.init config) h w) :
    Bounded (max config.outboxCapacity 1) h ∧ backlog h = w.runner.app.length := by
  refine ⟨?_, backlog_eq hrun⟩
  refine hrun.invariant_of (J := fun h w => Run World.step (World.init config) h w)
    (I := fun h _ => Bounded (max config.outboxCapacity 1) h) (fun hr => hr) ?_ ?_
  · intro pre post hp
    rw [(List.append_eq_nil_iff.mp hp.symm).1]
    exact Nat.zero_le _
  · intro h w input w' o hr hh hs pre post hp
    rcases List.append_eq_append_iff.mp hp with ⟨front, rfl, hfront⟩ | ⟨l, rfl, -⟩
    · -- the moment is within the step: at most one command was taken in it
      have hlane : backlog (h ++ front) ≤ w.runner.app.length + (tookCommands front).length := by
        rw [backlog, List.foldl_append, ← backlog_eq hr]
        exact foldl_lane_le front _
      have hroom := hh h [] (List.append_nil h).symm
      rw [backlog_eq hr] at hroom
      have htook : tookCommands o = tookCommands front ++ tookCommands post := by
        rw [hfront, tookCommands_append]
      cases hfew : tookCommands front with
      | nil =>
        rw [hfew] at hlane
        exact hlane.trans hroom
      | cons command rest =>
        have hlt := World.room_of_took hs (by simp [htook, hfew])
        rw [World.config_of_run hr] at hlt
        change w.runner.app.length < max config.outboxCapacity 1 at hlt
        have hone : (tookCommands o).length ≤ 1 := by
          rcases World.tookCommands_step hs with hnone | hoffer
          · simp [hnone]
          · rw [hoffer, Option.length_toList]
            split_ifs <;> omega
        rw [htook, List.length_append] at hone
        exact hlane.trans (by omega)
    · exact hh pre l rfl

/-- A frame and a call wait at every poll. -/
def bothBusy : List (Input ℕ) := becomeReady ++
  (List.range 3).flatMap fun n => [.sink .pending, .flush none,
    .poll (some (.frame .control)) (some (some (.call "sendMessage" [] n, false))) false]

/-- A runner with room for one application frame. -/
def narrowConfig : Config := { demoConfig with outboxCapacity := 1 }

theorem backlog_bounded_narrow : ∃ h : List (Seen ℕ), ∃ w,
    Run World.step (World.init narrowConfig) h w ∧ backlog h = 1 ∧ Bounded 1 h :=
  ⟨_, _, run_execute bothBusy (by decide +kernel), by decide +kernel,
    (backlog_bounded (run_execute bothBusy (by decide +kernel))).1⟩

/-! ### The sources are taken in turn -/

/-- Where the socket loop gets its next step from. -/
inductive Source where
  | socket
  | callers
  | timer
  deriving DecidableEq, Repr

/-- Where a step comes from. -/
def Step.source : Step κ → Source
  | .frame _ | .eof | .failed _ => .socket
  | .command .. | .handlesDropped => .callers
  | .deadline => .timer

/-- What a poll of the sources finds, and what it takes; `Runner.sources_eq` says that the runner
goes on with it. -/
structure Poll where
  /-- The socket has a frame, or it ended or failed. -/
  socket : Bool
  /-- A command waits, or every handle is dropped, and the lane has room. -/
  callers : Bool
  timer : Bool
  took : Option Source
  deriving DecidableEq, Repr

/-- A source has something at a poll. -/
def Poll.has (p : Poll) : Source → Bool
  | .socket => p.socket
  | .callers => p.callers
  | .timer => p.timer

/-- The first source that has something, where it is the turn of the callers or not. -/
def Poll.inTurn (p : Poll) (turn : Bool) : Option Source :=
  let socket := if p.socket then some Source.socket else none
  let callers := if p.callers then some Source.callers else none
  (if turn then callers.or socket else socket.or callers).or (if p.timer then some .timer else none)

namespace World

/-- The poll that a step is. -/
def poll (w : World κ) : Input κ → Option Poll
  | .poll read command timer => some {
      socket := read.isSome
      callers := decide (w.runner.app.length < w.runner.config.outboxCapacity) && command.isSome
      timer := timer
      took := (w.runner.taken read command timer).map Step.source }
  | _ => none

/-- The runner, observed through its polls. -/
def polled (w : World κ) (input : Input κ) : Option (World κ × List Poll) :=
  (w.step input).map fun p => (p.1, (w.poll input).toList)

variable {p : Poll}

/-- What a poll takes is the first that has something. -/
theorem took_poll (hp : w.poll input = some p) : p.took = p.inTurn w.runner.turn := by
  cases input with
  | poll read command timer =>
    obtain rfl := Option.some.inj hp
    have hsocket : (read.map (Runner.ReadReply.step (κ := κ))).map Step.source =
        if read.isSome then some .socket else none := by
      rcases read with _ | _ | _ | _ <;> rfl
    have hcallers : (if decide (w.runner.app.length < w.runner.config.outboxCapacity)
        then command.map Runner.commandStep else none).map Step.source =
        if decide (w.runner.app.length < w.runner.config.outboxCapacity) && command.isSome
          then some .callers else none := by
      cases decide (w.runner.app.length < w.runner.config.outboxCapacity) <;>
        rcases command with _ | _ | _ <;> rfl
    simp only [Runner.taken, Poll.inTurn, Option.map_or]
    rw [← hsocket, ← hcallers]
    cases w.runner.turn <;> cases timer <;> simp [Option.map_or, Step.source]
  | _ => simp [poll] at hp

/-- Only a poll of the sources is one. -/
theorem poll_isSome (w : World κ) (input : Input κ) : (w.poll input).isSome = input.polls := by
  cases input <;> rfl

end World

/-- Polls that take in turn, the callers first at the first of them or not. -/
def Alternates : Bool → List Poll → Prop
  | _, [] => True
  | turn, p :: polls => p.took = p.inTurn turn ∧ Alternates (!turn) polls

theorem alternates_append {turn : Bool} {polls polls' : List Poll} :
    Alternates turn (polls ++ polls') ↔
      Alternates turn polls ∧ Alternates (turn ^^ polls.length.bodd) polls' := by
  induction polls generalizing turn with
  | nil => simp [Alternates]
  | cons p polls ih =>
    rw [List.cons_append, Alternates, Alternates, ih, and_assoc, List.length_cons, Nat.bodd_succ]
    cases turn <;> simp

/-- **The polls of a run take in turn.** -/
theorem alternates_run {polls : List Poll}
    (hrun : Run World.polled (World.init config) polls w) :
    Alternates false polls ∧ w.runner.turn = polls.length.bodd := by
  refine hrun.invariant (I := fun polls w =>
    Alternates false polls ∧ w.runner.turn = polls.length.bodd) ⟨trivial, rfl⟩ ?_
  intro polls w input w' ps ⟨halt, hturn⟩ hp
  obtain ⟨⟨w₁, o⟩, hs, heq⟩ := Option.map_eq_some_iff.mp hp
  obtain ⟨rfl, rfl⟩ := Prod.mk.inj heq
  have hpass : w₁.runner.turn = (w.runner.turn ^^ input.polls) :=
    congrArg Prod.fst (World.aside_step hs)
  have hpolls := w.poll_isSome input
  rw [alternates_append, List.length_append]
  cases hp : w.poll input with
  | none =>
    rw [hp] at hpolls
    rw [hpass, ← hpolls, hturn]
    exact ⟨⟨halt, trivial⟩, by simp⟩
  | some p =>
    rw [hp] at hpolls
    rw [hpass, ← hpolls, hturn]
    refine ⟨⟨halt, ?_, trivial⟩, by simp⟩
    rw [Bool.false_xor, ← hturn]
    exact World.took_poll hp

namespace Poll

variable {p q : Poll} {turn : Bool} {source : Source}

/-- Of two polls in turn that both find a source ready, one takes it. -/
theorem inTurn_or (hsource : source ≠ .timer) (hp : p.has source) (hq : q.has source) :
    p.inTurn turn = some source ∨ q.inTurn (!turn) = some source := by
  cases source with
  | socket =>
    cases turn
    · exact .inl (by simp_all [inTurn, has])
    · exact .inr (by simp_all [inTurn, has])
  | callers =>
    cases turn
    · exact .inr (by simp_all [inTurn, has])
    · exact .inl (by simp_all [inTurn, has])
  | timer => exact absurd rfl hsource

/-- What is taken was there, and the timer comes last. -/
theorem inTurn_spec (p : Poll) (turn : Bool) :
    (∀ source, p.inTurn turn = some source → p.has source) ∧
      (p.inTurn turn = some .timer → !p.socket && !p.callers) ∧
        (p.inTurn turn = none → ∀ source, !p.has source) := by
  obtain ⟨socket, callers, timer, took⟩ := p
  refine ⟨fun source => ?_, ?_, fun hnone source => ?_⟩
  · cases source <;> cases turn <;> cases socket <;> cases callers <;> cases timer <;>
      simp [inTurn, has]
  · cases turn <;> cases socket <;> cases callers <;> simp [inTurn]
  · have hnothing : socket = false ∧ callers = false ∧ timer = false := by
      cases turn <;> cases socket <;> cases callers <;> cases timer <;> simp_all [inTurn]
    obtain ⟨rfl, rfl, rfl⟩ := hnothing
    cases source <;> rfl

end Poll

/-- A source that has something at every poll is taken at every second one. -/
theorem half_of_alternates {turn : Bool} {source : Source} (hsource : source ≠ .timer)
    {polls : List Poll} (halt : Alternates turn polls) (hhas : ∀ p ∈ polls, p.has source) :
    polls.length / 2 ≤ polls.countP (·.took = some source) := by
  -- two polls at a time: the turn is the same again after them
  induction polls using List.twoStepInduction with
  | nil => exact Nat.zero_le _
  | singleton p => simp
  | cons_cons p q polls ih _ =>
    obtain ⟨hp, hq, halt⟩ := halt
    rw [Bool.not_not] at halt
    have hrest := ih halt fun r hr => hhas r (List.mem_cons_of_mem _ (List.mem_cons_of_mem _ hr))
    have hone : p.inTurn turn = some source ∨ q.inTurn (!turn) = some source :=
      Poll.inTurn_or hsource (hhas p (by simp)) (hhas q (by simp))
    rw [← hp, ← hq] at hone
    simp only [List.countP_cons, List.length_cons, decide_eq_true_eq]
    rcases hone with hone | hone
    · rw [if_pos hone]
      omega
    · rw [if_pos hone]
      omega

/-- What one poll did is in order. -/
def Poll.Orderly (p : Poll) : Prop :=
  (∀ source, p.took = some source → p.has source) ∧
    (p.took = some .timer → !p.socket && !p.callers) ∧
      (p.took = none → ∀ source, !p.has source)

theorem orderly_of_alternates {turn : Bool} {polls : List Poll} (halt : Alternates turn polls) :
    ∀ p ∈ polls, p.Orderly := by
  induction polls generalizing turn with
  | nil => exact fun p hp => absurd hp List.not_mem_nil
  | cons p polls ih =>
    refine List.forall_mem_cons.mpr ⟨?_, ih halt.2⟩
    rw [Poll.Orderly, halt.1]
    exact p.inTurn_spec turn

/-- Polls among which neither of two sources starves. -/
def Shared (polls : List Poll) : Prop :=
  ∀ source, source ≠ .timer → ∀ pre span post, polls = pre ++ span ++ post →
    (∀ p ∈ span, p.has source) → span.length / 2 ≤ span.countP (·.took = some source)

/-- **Neither the socket nor the callers starve.**  In whatever span of the polls of a run one of
them has something each time, at least half of these polls take it, whatever the other brings;
every poll takes something that is there if anything is, and the timer only where neither the
socket nor the callers have anything. -/
theorem sources_fair {polls : List Poll}
    (hrun : Run World.polled (World.init config) polls w) :
    Shared polls ∧ ∀ p ∈ polls, p.Orderly := by
  have halt := (alternates_run hrun).1
  refine ⟨?_, orderly_of_alternates halt⟩
  rintro source hsource pre span post rfl hhas
  rw [alternates_append, alternates_append] at halt
  exact half_of_alternates hsource halt.1.2 hhas

theorem sources_fair_busy : ∃ polls, ∃ w : World ℕ,
    Run World.polled (World.init demoConfig) polls w ∧
    polls.map Poll.took = [some .socket, some .socket, some .socket, some .callers, some .socket] ∧
    Shared polls ∧ ∀ p ∈ polls, p.Orderly :=
  ⟨_, _, run_execute bothBusy (by decide +kernel), by decide +kernel,
    sources_fair (run_execute bothBusy (by decide +kernel))⟩

end RocketSocket
