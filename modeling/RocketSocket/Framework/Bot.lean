import RocketSocket.Framework.Endpoint
import RocketSocket.Lib.Entrywise
import RocketSocket.Realtime.Framed
import RocketSocket.Realtime.WireOrder

/-!
# One credential, both transports

`Bot::connect` logs in over REST, then opens the websocket with the token it was given.  The bot
is the two clients side by side: until `connect` returns nobody else has them, and after it the
calls of the one and the steps of the other interleave.

The base URL was parsed before; what the parser makes of it is in `Framework.Endpoint`.

## Main definitions

* `Bot.step` — one step of `connect`, or of one of the clients.
* `Origin` — where the token of a login comes from.
* `Credential.Says` — what the credential lets the priority lane say.

## Main results

* `RestClient.Traced.step` — where the token of a login comes from is known in every call.
* `World.says_of_run` — the priority lane says nothing but the protocol and the credential.
* `one_credential` — **the websocket logs in with the token of the REST login**, and nothing else.
-/

namespace RocketSocket

open Machine

variable {υ κ : Type}

/-! ### The bot -/

/-- Why a bot could not start. -/
inductive StartError where
  | url (error : BotError)
  | rest (error : RestError)
  deriving DecidableEq, Repr

/-- Where `connect` stands. -/
inductive BotStage where
  | begun
  /-- The login is the first call of the REST client. -/
  | loggingIn
  | failed (error : StartError)
  | connected (endpoint : List Char)
  deriving DecidableEq, Repr

/-- The bot, with the arguments of `connect`. -/
structure Bot (υ κ : Type) where
  baseUrl : List Char
  credentials : Credentials
  rest : RestClient υ
  stage : BotStage := .begun
  /-- The realtime client, once it was spawned. -/
  realtime : Option (World κ) := none

/-- What a bot shows. -/
inductive BotNote (υ κ : Type) where
  | rest (note : RestNote υ)
  | realtime (seen : Seen κ)

/-- Who moves. -/
inductive BotInput (υ κ : Type) where
  | login
  | rest (input : RestInput υ)
  /-- The login has returned. -/
  | spawn
  | realtime (input : Input κ)

/-- What a login returned. -/
def RestPhase.loginOutcome : RestPhase υ → Option (Except RestError (LoginOutcome υ))
  | .returned (.login outcome) => some outcome
  | _ => none

namespace Bot

/-- A bot about to connect, with a fresh REST client. -/
def init (http : Http) (baseUrl : List Char) (credentials : Credentials) : Bot υ κ :=
  { baseUrl := baseUrl, credentials := credentials, rest := .init http none }

variable (b : Bot υ κ)

/-- The default thresholds leave time between a ping and giving up. -/
theorem defaults_leaveTime : LivenessPolicy.defaultPingAfter < LivenessPolicy.defaultDeadAfter := by
  decide

/-- `Config::new`, with the token as a resume token. -/
def config (outcome : LoginOutcome υ) : Config where
  credential := .resume outcome.authentication.token.text
  leavesTime := defaults_leaveTime

/-- A step of the REST client. -/
def stepRest (stage : BotStage) (input : RestInput υ) : Option (Bot υ κ × List (BotNote υ κ)) :=
  (b.rest.step input).map fun p => ({ b with rest := p.1, stage := stage }, p.2.map .rest)

/-- `connect` goes on with what the login returned. -/
def spawn : Except RestError (LoginOutcome υ) → Bot υ κ
  | .error error => { b with stage := .failed (.rest error) }
  | .ok outcome =>
    match websocketUrl b.baseUrl with
    | .error error => { b with stage := .failed (.url error) }
    | .ok endpoint =>
      { b with stage := .connected endpoint, realtime := some (.init (config outcome)) }

/-- One step. -/
def step (b : Bot υ κ) : BotInput υ κ → Option (Bot υ κ × List (BotNote υ κ))
  | .login =>
    if b.stage = .begun then b.stepRest .loggingIn (.call (.login b.credentials)) else none
  | .rest input =>
    match b.stage, input with
    | .connected endpoint, input => b.stepRest (.connected endpoint) input
    -- Nobody else has the client yet.
    | .loggingIn, .call _ => none
    | .loggingIn, input => b.stepRest .loggingIn input
    | _, _ => none
  | .spawn =>
    if b.stage = .loggingIn then
      (b.rest.calls[0]?.bind RestPhase.loginOutcome).map fun outcome => (b.spawn outcome, [])
    else none
  | .realtime input => b.realtime.bind fun w => (w.step input).map fun p =>
      ({ b with realtime := some p.1 }, p.2.map .realtime)

end Bot

/-! ### Where a token comes from -/

/-- A login returns the token it was given, or one the server issued in it. -/
def Origin (h : List (RestNote υ)) (n : ℕ) (outcome : LoginOutcome υ) : Prop :=
  ∃ credentials, .called n (.login credentials) ∈ h ∧
    (credentials.asAuthentication = some outcome.authentication ∨
      .issued n outcome.authentication outcome.me ∈ h)

/-- What is known of a call where it stands. -/
def RestPhase.Known (h : List (RestNote υ)) (n : ℕ) : RestPhase υ → Prop
  | .begun call => .called n call ∈ h
  | .installed authentication _ | .validating authentication _ _ => ∃ credentials,
      .called n (.login credentials) ∈ h ∧ credentials.asAuthentication = some authentication
  | .loggingIn => ∃ credentials, .called n (.login credentials) ∈ h
  | .storing outcome | .returned (.login (.ok outcome)) => Origin h n outcome
  | _ => True

variable {h o : List (RestNote υ)} {n m : ℕ} {c c' : RestClient υ} {phase phase' : RestPhase υ}

theorem Origin.append {outcome : LoginOutcome υ} (ho : Origin h n outcome) :
    Origin (h ++ o) n outcome := by
  obtain ⟨credentials, hcalled, hor⟩ := ho
  exact ⟨credentials, List.mem_append_left _ hcalled,
    hor.imp_right (List.mem_append_left _)⟩

theorem RestPhase.Known.append (hk : phase.Known h n) : phase.Known (h ++ o) n := by
  cases phase with
  | begun call => exact List.mem_append_left _ hk
  | installed | validating =>
    obtain ⟨credentials, hcalled, has⟩ := hk
    exact ⟨credentials, List.mem_append_left _ hcalled, has⟩
  | loggingIn =>
    obtain ⟨credentials, hcalled⟩ := hk
    exact ⟨credentials, List.mem_append_left _ hcalled⟩
  | storing outcome => exact Origin.append hk
  | returned outcome =>
    rcases outcome with (error | outcome) | outcome | outcome | _
    · trivial
    · exact Origin.append hk
    · trivial
    · trivial
    · trivial
  | restoring | leaving | clearing | asking | dropped => trivial

/-- What a step of call number `n` leaves: the call moved on and is known, and no call was made. -/
structure Onward (h : List (RestNote υ)) (c : RestClient υ) (n : ℕ)
    (r : RestClient υ × List (RestNote υ)) : Prop where
  moved : ∃ phase', r.1.calls = c.calls.set n phase' ∧ phase'.Known (h ++ r.2) n
  uncalled : ∀ m call, .called m call ∉ r.2

namespace RestClient

theorem onward_finish {outcome : RestOutcome υ}
    (hk : (RestPhase.returned outcome).Known (h ++ [.returned n outcome]) n) :
    Onward h c n (c.finish n outcome) :=
  ⟨⟨_, rfl, hk⟩, by simp [finish]⟩

theorem onward_send {segments : List String} {sent : Authentication → RestPhase υ}
    {failed : RestError → RestClient υ × List (RestNote υ)}
    (hsent : ∀ a, (sent a).Known (h ++ [.sent n a]) n)
    (hfailed : ∀ error, Onward h c n (failed error)) :
    Onward h c n (c.send n segments sent failed) := by
  unfold send
  split
  · rename_i a hr
    exact ⟨⟨_, rfl, hsent a⟩, by simp⟩
  · exact hfailed _

/-- The first step of a call. -/
theorem onward_start {call : RestCall} (hk : .called n call ∈ h) :
    Onward h c n (c.start n call) := by
  cases call with
  | login credentials =>
    cases credentials with
    | personalAccessToken userId token =>
      exact ⟨⟨_, rfl, _, List.mem_append_left _ hk, rfl⟩, by simp [start]⟩
    | password user password =>
      simp only [start]
      split
      · exact ⟨⟨_, rfl, _, List.mem_append_left _ hk⟩, by simp⟩
      · exact onward_finish trivial
  | logout => exact onward_send (fun _ => trivial) fun _ => onward_finish trivial
  | me => exact onward_send (fun _ => trivial) fun _ => onward_finish trivial
  | setAuthentication authentication =>
    refine ⟨⟨_, rfl, trivial⟩, ?_⟩
    cases authentication <;> simp [start, setNote, finish]

/-- The next step of a call that does not wait for the server. -/
theorem onward_advance {r : RestClient υ × List (RestNote υ)} (hk : phase.Known h n)
    (hr : c.advance n phase = some r) : Onward h c n r := by
  cases phase with
  | begun call =>
    obtain rfl := Option.some.inj hr
    exact onward_start hk
  | installed own previous =>
    obtain rfl := Option.some.inj hr
    refine onward_send (fun a => RestPhase.Known.append hk) fun error => ?_
    exact ⟨⟨_, rfl, trivial⟩, by simp⟩
  | restoring previous error =>
    obtain rfl := Option.some.inj hr
    exact ⟨⟨_, rfl, trivial⟩, by simp⟩
  | storing outcome =>
    obtain rfl := Option.some.inj hr
    exact ⟨⟨_, rfl, Origin.append hk⟩, by simp⟩
  | clearing sent outcome =>
    obtain rfl := Option.some.inj hr
    exact ⟨⟨_, rfl, trivial⟩, by simp⟩
  | validating | loggingIn | leaving | asking | returned | dropped => cases hr

/-- The server answers a `me`. -/
theorem onward_receiveMe {r : RestClient υ × List (RestNote υ)} {answer : Except RestError υ}
    (hk : phase.Known h n) (hr : c.receiveMe n answer phase = some r) : Onward h c n r := by
  cases phase with
  | validating own previous sent =>
    cases answer with
    | ok me =>
      obtain rfl := Option.some.inj hr
      obtain ⟨credentials, hcalled, has⟩ := hk
      exact ⟨⟨_, rfl, credentials, List.mem_append_left _ hcalled, .inl has⟩, by simp⟩
    | error error =>
      obtain rfl := Option.some.inj hr
      exact ⟨⟨_, rfl, trivial⟩, by simp⟩
  | asking sent =>
    cases answer with
    | ok me =>
      obtain rfl := Option.some.inj hr
      exact ⟨⟨_, rfl, trivial⟩, by simp⟩
    | error error =>
      obtain rfl := Option.some.inj hr
      exact onward_finish trivial
  | begun | installed | restoring | loggingIn | storing | leaving | clearing | returned
  | dropped => cases hr

/-- The server answers a login with a password. -/
theorem onward_receiveLogin {r : RestClient υ × List (RestNote υ)}
    {answer : Except RestError (LoginOutcome υ)} (hk : phase.Known h n)
    (hr : c.receiveLogin n answer phase = some r) : Onward h c n r := by
  cases phase with
  | loggingIn =>
    obtain ⟨credentials, hcalled⟩ := hk
    cases answer with
    | ok outcome =>
      obtain rfl := Option.some.inj hr
      refine ⟨⟨_, rfl, credentials, List.mem_append_left _ hcalled, .inr ?_⟩, by simp⟩
      exact List.mem_append_right h (List.mem_singleton.mpr rfl)
    | error error =>
      obtain rfl := Option.some.inj hr
      exact onward_finish trivial
  | begun | installed | validating | restoring | storing | leaving | clearing | asking | returned
  | dropped => cases hr

/-- The server answers a logout. -/
theorem onward_receiveLogout {r : RestClient υ × List (RestNote υ)}
    {answer : Except RestError Unit} (hr : c.receiveLogout n answer phase = some r) :
    Onward h c n r := by
  cases phase with
  | leaving sent =>
    cases answer with
    | ok u =>
      obtain rfl := Option.some.inj hr
      exact ⟨⟨_, rfl, trivial⟩, by simp⟩
    | error error =>
      simp only [receiveLogout] at hr
      split_ifs at hr
      · obtain rfl := Option.some.inj hr
        exact ⟨⟨_, rfl, trivial⟩, by simp⟩
      · obtain rfl := Option.some.inj hr
        exact onward_finish trivial
  | begun | installed | validating | restoring | loggingIn | storing | clearing | asking | returned
  | dropped => cases hr

/-- Every call is known, and was made once. -/
structure Traced (h : List (RestNote υ)) (c : RestClient υ) : Prop where
  calls : ∀ n (phase : RestPhase υ), c.calls[n]? = some phase → phase.Known h n
  made : ∀ n call, .called n call ∈ h → n < c.calls.length
  once : ∀ n call call', .called n call ∈ h → .called n call' ∈ h → call = call'

/-- The step of one call. -/
theorem Traced.onward (ht : Traced h c) (hon : Onward h c n (c', o)) : Traced (h ++ o) c' := by
  obtain ⟨⟨phase', hcalls, hknown⟩, huncalled⟩ := hon
  -- A step of a call that is under way calls nothing.
  have hold : ∀ m call, .called m call ∈ h ++ o → .called m call ∈ h := fun m call hm =>
    (List.mem_append.mp hm).resolve_right (huncalled m call)
  refine ⟨fun m phase hm => ?_, fun m call hm => ?_, fun m call call' hm hm' => ?_⟩
  · -- Only the phase of the call `n` has changed.
    rw [show c'.calls = c.calls.set n phase' from hcalls] at hm
    rcases getElem?_of_set hm with ⟨rfl, rfl⟩ | ⟨-, hm⟩
    · exact hknown
    · exact (ht.calls m phase hm).append
  · rw [show c'.calls = c.calls.set n phase' from hcalls, List.length_set]
    exact ht.made m call (hold m call hm)
  · exact ht.once m call call' (hold m call hm) (hold m call' hm')

/-- **One step** of the REST client. -/
theorem Traced.step {input : RestInput υ} (ht : Traced h c)
    (hs : c.step input = some (c', o)) : Traced (h ++ o) c' := by
  cases input with
  | call call =>
    obtain ⟨rfl, rfl⟩ := Prod.mk.inj (Option.some.inj hs)
    -- The call that is added takes the next number, which no call before it has.
    have hnew : ∀ n call', .called n call' ∈ h ++ [RestNote.called c.calls.length call] →
        .called n call' ∈ h ∨ n = c.calls.length ∧ call' = call := by
      intro n call' hn
      simpa using hn
    refine ⟨fun n phase hn => ?_, fun n call' hn => ?_, fun n call₁ call₂ h₁ h₂ => ?_⟩
    · rcases getElem?_of_concat hn with ⟨rfl, rfl⟩ | hn
      · exact List.mem_append_right h (List.mem_singleton.mpr rfl)
      · exact (ht.calls n phase hn).append
    · rw [List.length_append, List.length_singleton]
      rcases hnew n call' hn with hn | ⟨rfl, -⟩
      · exact Nat.lt_succ_of_lt (ht.made n call' hn)
      · exact Nat.lt_succ_self _
    · rcases hnew n call₁ h₁ with hold₁ | ⟨rfl, rfl⟩
      · rcases hnew n call₂ h₂ with hold₂ | ⟨rfl, rfl⟩
        · exact ht.once n call₁ call₂ hold₁ hold₂
        · -- An older call of that number would have been numbered too high.
          exact absurd (ht.made _ call₁ hold₁) (Nat.lt_irrefl _)
      · rcases hnew _ call₂ h₂ with hold₂ | ⟨-, rfl⟩
        · exact absurd (ht.made _ call₂ hold₂) (Nat.lt_irrefl _)
        · rfl
  | go n =>
    obtain ⟨phase, hn, hr⟩ := Option.bind_eq_some_iff.mp hs
    exact ht.onward (onward_advance (ht.calls n phase hn) hr)
  | answerMe n answer =>
    obtain ⟨phase, hn, hr⟩ := Option.bind_eq_some_iff.mp hs
    exact ht.onward (onward_receiveMe (ht.calls n phase hn) hr)
  | answerLogin n answer =>
    obtain ⟨phase, hn, hr⟩ := Option.bind_eq_some_iff.mp hs
    exact ht.onward (onward_receiveLogin (ht.calls n phase hn) hr)
  | answerLogout n answer =>
    obtain ⟨phase, hn, hr⟩ := Option.bind_eq_some_iff.mp hs
    exact ht.onward (onward_receiveLogout hr)
  | drop n =>
    obtain ⟨phase, hn, hr⟩ := Option.bind_eq_some_iff.mp hs
    split_ifs at hr
    obtain ⟨rfl, rfl⟩ := Prod.mk.inj (Option.some.inj hr)
    exact ht.onward ⟨⟨_, rfl, trivial⟩, by simp⟩

end RestClient

/-! ### What the priority lane says -/

/-- A protocol frame the credential lets the priority lane say: one of the protocol, or a login
with this credential. -/
def Credential.Says (credential : Credential) (out : Outbound) : Prop :=
  out.frame.IsProtocol ∨ ∃ id, out.frame = .method id "login" credential.params

/-- What is queued goes with the credential. -/
def Credential.Queues (credential : Credential) : Seen κ → Prop
  | (_, .pushed out) => credential.Says out
  | _ => True

/-- All that the runner does goes with its credential. -/
theorem Runner.framed_attests : Framed fun α (x : RunAct κ α) =>
    Attests (fun r : Runner κ => r.config.credential) Credential.Queues x where
  toSequenced := Attests.sequenced
  modify hf := ⟨fun r => congrArg (fun a => a.2.credential) (hf r),
    fun _ _ ho => absurd ho List.not_mem_nil⟩
  wire hx := by
    refine ⟨fun _ => rfl, fun r o ho => ?_⟩
    have hquiet := hx r.toWire o ho
    obtain ⟨g, y⟩ := o
    cases y with
    | pushed out => exact absurd hquiet id
    | _ => trivial
  push hframe := by
    refine ⟨fun _ => rfl, fun r o ho => ?_⟩
    obtain rfl := List.mem_singleton.mp ho
    exact .inl hframe
  login now := by
    refine ⟨fun _ => rfl, fun r o ho => ?_⟩
    obtain rfl := List.mem_singleton.mp ho
    exact .inr ⟨_, rfl⟩

/-- **The priority lane says nothing but the protocol and the credential**, in every session. -/
theorem World.says_of_run {config : Config} {h : List (Seen κ)} {w : World κ}
    (hrun : Run World.step (World.init config) h w) {g : ℕ} {out : Outbound} {accepted : Bool}
    (hhanded : (g, .handed .priority out accepted) ∈ h) : config.credential.Says out := by
  -- The queues are looked at on the credential that the runner started with, which no step changes.
  have hqueues : (∀ x ∈ h, config.credential.Queues x) ∧
      w.runner.config.credential = config.credential := by
    refine hrun.invariant (I := fun h w => (∀ x ∈ h, config.credential.Queues x) ∧
      w.runner.config.credential = config.credential)
      ⟨fun _ hx => absurd hx List.not_mem_nil, rfl⟩ ?_
    rintro h w input w' o ⟨hh, hcredential⟩ hs
    rcases World.framed_step Runner.framed_attests hs with ⟨hr, rfl, -⟩ |
      ⟨x, r, hattests, hr, rfl, hconfig, -⟩
    · rw [hr, List.append_nil]
      exact ⟨hh, hcredential⟩
    · -- A turn of the runner: what it queues is what its own credential says.
      have hsame : r.config.credential = config.credential := by rw [hconfig, hcredential]
      refine ⟨fun y hy => ?_, ?_⟩
      · rcases List.mem_append.mp hy with hy | hy
        · exact hh y hy
        · rw [← hsame]
          exact hattests.attests r y hy
      · rw [hr]
        exact (hattests.keeps r).trans hsame
  have hq : Queues h w.runner.toWire := World.wire_invariant .init (fun hI hs => hI.step hs) hrun
  -- What was handed over on the lane was pushed on it before.
  have hin : out ∈ pushedOn g h := by
    refine (hq.handed g).subset (List.mem_filterMap.mpr ⟨_, hhanded, ?_⟩)
    simp
  obtain ⟨⟨g', y⟩, hy, hout⟩ := List.mem_filterMap.mp hin
  cases y with
  | pushed out' =>
    obtain ⟨-, heq⟩ := Option.ite_none_right_eq_some.mp hout
    obtain rfl := Option.some.inj heq
    exact hqueues.1 _ hy
  | _ => simp at hout

/-! ### The bot as a whole -/

namespace Bot

variable {b b' : Bot υ κ} {http : Http} {baseUrl : List Char} {credentials : Credentials}

/-- What the REST client showed. -/
def restNotes (h : List (BotNote υ κ)) : List (RestNote υ) :=
  h.filterMap fun
    | .rest note => some note
    | .realtime _ => none

/-- What the realtime client showed. -/
def seen (h : List (BotNote υ κ)) : List (Seen κ) :=
  h.filterMap fun
    | .realtime x => some x
    | .rest _ => none

/-- The token of the login, and where it comes from. -/
def Given (credentials : Credentials) (h : List (BotNote υ κ)) (outcome : LoginOutcome υ) : Prop :=
  credentials.asAuthentication = some outcome.authentication ∨
    .rest (.issued 0 outcome.authentication outcome.me) ∈ h

variable {h o : List (BotNote υ κ)} {outcome : LoginOutcome υ} {stage : BotStage}
  {input : BotInput υ κ}

theorem restNotes_append : restNotes (h ++ o) = restNotes h ++ restNotes o :=
  List.filterMap_append

theorem seen_append : seen (h ++ o) = seen h ++ seen o := List.filterMap_append

@[simp] theorem restNotes_rest (notes : List (RestNote υ)) :
    restNotes (notes.map (BotNote.rest (κ := κ))) = notes := by
  simp [restNotes, List.filterMap_map]

@[simp] theorem seen_rest (notes : List (RestNote υ)) :
    seen (notes.map (BotNote.rest (κ := κ))) = [] := by
  simp [seen, List.filterMap_map]

@[simp] theorem restNotes_realtime (notes : List (Seen κ)) :
    restNotes (notes.map (BotNote.realtime (υ := υ))) = [] := by
  simp [restNotes, List.filterMap_map]

@[simp] theorem seen_realtime (notes : List (Seen κ)) :
    seen (notes.map (BotNote.realtime (υ := υ))) = notes := by
  simp [seen, List.filterMap_map]

theorem mem_restNotes {note : RestNote υ} : note ∈ restNotes h ↔ .rest note ∈ h := by
  refine mem_filterMap_iff fun x note => ?_
  cases x with
  | rest note' => simp
  | realtime x => simp

theorem Given.append (hg : Given credentials h outcome) : Given credentials (h ++ o) outcome :=
  hg.imp_right (List.mem_append_left _)

/-- The REST client is on a run of its own; the login is its first call; and the realtime client
is on a run of its own, with the token of that login. -/
structure Linked (credentials : Credentials) (h : List (BotNote υ κ)) (b : Bot υ κ) : Prop where
  given : b.credentials = credentials
  traced : RestClient.Traced (restNotes h) b.rest
  fresh : b.stage = .begun → b.rest.calls = []
  login : b.stage ≠ .begun → .called 0 (.login credentials) ∈ restNotes h
  down : b.realtime = none → seen h = []
  alone : (∀ endpoint, b.stage ≠ .connected endpoint) → b.realtime = none
  up : ∀ w, b.realtime = some w → ∃ outcome, Given credentials h outcome ∧
    Run World.step (World.init (config outcome)) (seen h) w

namespace Linked

/-- A step of the REST client. -/
theorem rest {input : RestInput υ} (hl : Linked credentials h b)
    (hs : b.stepRest stage input = some (b', o)) (hstage : stage ≠ .begun)
    (halone : (∀ endpoint, stage ≠ .connected endpoint) → b.realtime = none)
    (hlogin : .called 0 (.login credentials) ∈ restNotes (h ++ o)) :
    Linked credentials (h ++ o) b' := by
  obtain ⟨⟨c, notes⟩, hstep, heq⟩ := Option.map_eq_some_iff.mp hs
  obtain ⟨rfl, rfl⟩ := Prod.mk.inj heq
  have hseen : seen (h ++ notes.map (BotNote.rest (κ := κ))) = seen h := by
    rw [seen_append, seen_rest, List.append_nil]
  refine ⟨hl.given, ?_, fun hbegun => absurd hbegun hstage, fun _ => hlogin, ?_, halone, ?_⟩
  · rw [restNotes_append, restNotes_rest]
    exact hl.traced.step hstep
  · rw [hseen]
    exact hl.down
  · intro w hw
    obtain ⟨outcome, hg, hrun⟩ := hl.up w hw
    rw [hseen]
    exact ⟨outcome, hg.append, hrun⟩

/-- What the login returned is the token given, or one issued in it. -/
theorem given_of_returned (hl : Linked credentials h b) (hstage : b.stage ≠ .begun)
    (hcall : b.rest.calls[0]? = some (.returned (.login (.ok outcome)))) :
    Given credentials h outcome := by
  obtain ⟨credentials', hcalled, hor⟩ := hl.traced.calls 0 _ hcall
  obtain rfl := RestCall.login.inj (hl.traced.once 0 _ _ hcalled (hl.login hstage))
  exact hor.imp_right mem_restNotes.mp

/-- `connect` goes on. -/
theorem spawn {r : Except RestError (LoginOutcome υ)} (hl : Linked credentials h b)
    (hstage : b.stage = .loggingIn) (hcall : b.rest.calls[0]? = some (.returned (.login r))) :
    Linked credentials h (b.spawn r) := by
  have hbegun : b.stage ≠ .begun := by simp [hstage]
  have hlogin := hl.login hbegun
  have hnone : b.realtime = none := hl.alone fun endpoint => by simp [hstage]
  cases r with
  | error error =>
    exact ⟨hl.given, hl.traced, fun hb => (by cases hb), fun _ => hlogin, hl.down,
      fun _ => hnone, hl.up⟩
  | ok outcome =>
    unfold Bot.spawn
    dsimp only
    split
    · exact ⟨hl.given, hl.traced, fun hb => (by cases hb), fun _ => hlogin, hl.down,
        fun _ => hnone, hl.up⟩
    · rename_i endpoint hurl
      refine ⟨hl.given, hl.traced, fun hb => (by cases hb), fun _ => hlogin,
        fun hw => (by cases hw), fun hne => absurd rfl (hne endpoint), fun w hw => ?_⟩
      obtain rfl := Option.some.inj hw
      refine ⟨outcome, hl.given_of_returned hbegun hcall, ?_⟩
      rw [hl.down hnone]
      exact .start

/-- **One step** of the bot. -/
theorem step (hl : Linked credentials h b) (hs : b.step input = some (b', o)) :
    Linked credentials (h ++ o) b' := by
  cases input with
  | login =>
    obtain ⟨hstage, hs⟩ := Option.ite_none_right_eq_some.mp hs
    -- Before the login there is no realtime client.
    have hnone : b.realtime = none := hl.alone fun endpoint => by simp [hstage]
    refine hl.rest hs (by simp) (fun _ => hnone) ?_
    obtain ⟨p, hp, heq⟩ := Option.map_eq_some_iff.mp hs
    obtain ⟨-, rfl⟩ := Prod.mk.inj heq
    obtain rfl := Option.some.inj hp
    rw [restNotes_append, restNotes_rest, hl.fresh hstage, hl.given]
    simp
  | rest input =>
    -- A REST step is taken while running, where the client stands, or while logging in.
    simp only [Bot.step] at hs
    split at hs
    · rename_i endpoint hstage
      refine hl.rest hs (by simp) (fun hne => absurd rfl (hne endpoint)) ?_
      rw [restNotes_append]
      exact List.mem_append_left _ (hl.login (by simp [hstage]))
    · cases hs
    · rename_i hstage _
      refine hl.rest hs (by simp) (fun _ => hl.alone fun endpoint => by simp [hstage]) ?_
      rw [restNotes_append]
      exact List.mem_append_left _ (hl.login (by simp [hstage]))
    · cases hs
  | spawn =>
    obtain ⟨hstage, hs⟩ := Option.ite_none_right_eq_some.mp hs
    obtain ⟨r, hr, heq⟩ := Option.map_eq_some_iff.mp hs
    obtain ⟨rfl, rfl⟩ := Prod.mk.inj heq
    -- The credential of the realtime client is what the first REST call came to.
    obtain ⟨phase, hcall, hphase⟩ := Option.bind_eq_some_iff.mp hr
    rw [List.append_nil]
    refine hl.spawn hstage ?_
    rw [hcall]
    unfold RestPhase.loginOutcome at hphase
    split at hphase
    · rw [Option.some.inj hphase]
    · cases hphase
  | realtime input =>
    obtain ⟨w, hw, hmap⟩ := Option.bind_eq_some_iff.mp hs
    obtain ⟨⟨w', notes⟩, hstep, heq⟩ := Option.map_eq_some_iff.mp hmap
    obtain ⟨rfl, rfl⟩ := Prod.mk.inj heq
    -- The realtime client shows nothing of the REST client's.
    have hrest : restNotes (h ++ notes.map (BotNote.realtime (υ := υ))) = restNotes h := by
      rw [restNotes_append, restNotes_realtime, List.append_nil]
    obtain ⟨outcome, hg, hrun⟩ := hl.up w hw
    refine ⟨hl.given, by rw [hrest]; exact hl.traced, hl.fresh,
      fun hb => by rw [hrest]; exact hl.login hb, fun hnone => (by cases hnone), ?_, ?_⟩
    · intro hne
      rw [hl.alone hne] at hw
      cases hw
    · intro w₁ hw₁
      obtain rfl := Option.some.inj hw₁
      rw [seen_append, seen_realtime]
      exact ⟨outcome, hg.append, hrun.step hstep⟩

end Linked

/-- **The websocket logs in with the token of the REST login**: whatever the two clients do and
however they interleave, each frame of the priority lane that reaches a socket is one of the
protocol, or a login with the resume form of one token, which was given to `connect` or issued
in its login. -/
theorem one_credential (hrun : Run Bot.step (Bot.init http baseUrl credentials) h b) {g : ℕ}
    {out : Outbound} {accepted : Bool}
    (hhanded : .realtime (g, .handed .priority out accepted) ∈ h) :
    ∃ outcome, Given credentials h outcome ∧ (out.frame.IsProtocol ∨
      ∃ id, out.frame = .method id "login"
        [.object [("resume", .string outcome.authentication.token.text)]]) := by
  have hl : Linked credentials h b := by
    refine hrun.invariant (I := Linked credentials) ?_ Linked.step
    exact ⟨rfl, ⟨by simp [Bot.init, RestClient.init], by simp [restNotes], by simp [restNotes]⟩,
      fun _ => rfl, fun hne => absurd rfl hne, fun _ => rfl, fun _ => rfl, fun w hw => by cases hw⟩
  have hseen : (g, .handed .priority out accepted) ∈ seen h :=
    List.mem_filterMap.mpr ⟨_, hhanded, rfl⟩
  cases hw : b.realtime with
  | none =>
    rw [hl.down hw] at hseen
    cases hseen
  | some w =>
    obtain ⟨outcome, hg, hrun⟩ := hl.up w hw
    exact ⟨outcome, hg, World.says_of_run hrun hseen⟩

/-- A personal access token. -/
def accessToken : Credentials := .personalAccessToken ⟨"bot"⟩ ⟨"secret"⟩

/-- A bot about to connect with it. -/
def tokenBot : Bot String ℕ :=
  .init ⟨true, fun _ => true⟩ "https://chat.example".toList accessToken

/-- It connects, and its websocket logs in. -/
def logsIn : List (BotInput String ℕ) :=
  [.login, .rest (.go 0), .rest (.go 0), .rest (.answerMe 0 (.ok "bot")), .spawn] ++
    [Input.begin 0, .opened, .sink (.ready (.ok ())), .sink .pending, .flush (some (.ok ())),
      .poll (some (.frame (.text (some (.connected "session"))))) none false,
      .sink (.ready (.ok ()))].map .realtime

theorem logsIn_enabled : (execute Bot.step tokenBot logsIn).isSome := by decide +kernel

/-- A call of the priority lane that reached a socket. -/
def handedCall : BotNote υ κ → Option (ℕ × Outbound × Bool)
  | .realtime (g, .handed .priority ⟨.method id method params, mark⟩ accepted) =>
    some (g, ⟨.method id method params, mark⟩, accepted)
  | _ => none

theorem mem_of_handedCall {x : BotNote υ κ} {p : ℕ × Outbound × Bool} (hx : x ∈ h)
    (hp : handedCall x = some p) :
    .realtime (p.1, .handed .priority p.2.1 p.2.2) ∈ h ∧ ¬ p.2.1.frame.IsProtocol := by
  unfold handedCall at hp
  split at hp
  · obtain rfl := Option.some.inj hp
    exact ⟨hx, id⟩
  · cases hp

theorem one_credential_logsIn : ∃ (h : List (BotNote String ℕ)) (b : Bot String ℕ) (g : ℕ)
    (out : Outbound) (accepted : Bool), Run Bot.step tokenBot h b ∧
    .realtime (g, .handed .priority out accepted) ∈ h ∧ ¬ out.frame.IsProtocol ∧
    ∃ outcome, Given accessToken h outcome ∧ (out.frame.IsProtocol ∨ ∃ id, out.frame =
      .method id "login" [.object [("resume", .string outcome.authentication.token.text)]]) := by
  have hrun := run_execute logsIn logsIn_enabled
  have hfound : (((execute Bot.step tokenBot logsIn).get logsIn_enabled).2.findSome?
      handedCall).isSome := by decide +kernel
  obtain ⟨p, hp⟩ := Option.isSome_iff_exists.mp hfound
  obtain ⟨x, hx, hcall⟩ := List.exists_of_findSome?_eq_some hp
  obtain ⟨hhanded, hnot⟩ := mem_of_handedCall hx hcall
  exact ⟨_, _, p.1, p.2.1, p.2.2, hrun, hhanded, hnot, one_credential hrun hhanded⟩

end Bot

end RocketSocket
