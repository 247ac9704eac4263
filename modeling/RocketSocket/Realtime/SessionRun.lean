import Mathlib.Data.List.Nodup
import RocketSocket.Lib.History
import RocketSocket.Realtime.Session

/-!
# Runs of the session

The session over any sequence of connections, frames in any order and number included.
Whoever drives it keeps one rule: right after a frame that asks for a login it names the id
of the call it sent, an id it has not used before, and at no other time.

## Main definitions

* `SessionOp`, `Session.step`, `Session.after` — the operations and the state they leave.
* `Allowed` — the rule of the driver, at one operation.
* `Expects`, `Unanswered` — what a history says of the login that is expected.
* `Stale` — the reasons why an id is not expected any more, or never was.
* `Session.afterwards` — the state a sequence of operations leaves, from any session.
* `Session.Reopens` — the frames that bring a terminal session back.

## Main results

* `Session.tracks` — the pending login is always one the history expects and that was not
  answered, and `Session.loginCall_of_expects` that such a login is pending.
* `session_safety` — when the session gets ready, and what it does with any other result.
* `stays_terminal_iff` — a terminal session stays terminal just if no frame brings it back.
-/

namespace RocketSocket

open Machine

/-- An operation on the session. -/
inductive SessionOp where
  | connect
  | handle (message : ServerMessage)
  | expectLogin (callId : String)
  | disconnected

/-- The id of the login an operation expects. -/
def SessionOp.expected : SessionOp → Option String
  | .expectLogin callId => some callId
  | _ => none

/-- The operation ends what there was of a connection. -/
def SessionOp.isReset : SessionOp → Bool
  | .connect | .disconnected => true
  | _ => false

/-- The action asks for a login. -/
def Action.isLogin : Action → Bool
  | .login => true
  | _ => false

/-- The action asks for the subscriptions to be issued again. -/
def Action.isResubscribe : Action → Bool
  | .resubscribe => true
  | _ => false

namespace Session

/-- One operation, and the actions it returns. -/
def step (s : Session) : SessionOp → Session × List Action
  | .connect => (s.connect.1, [s.connect.2])
  | .handle message => s.handle message
  | .expectLogin callId => (s.expectLogin callId, [])
  | .disconnected => (s.disconnected, [])

/-- The state a sequence of operations leaves, from a new session. -/
def after (version : String) (ops : List SessionOp) : Session :=
  ops.foldl (fun s op => (s.step op).1) (new version)

variable {version : String} {ops : List SessionOp} {op : SessionOp} {id : String}

@[simp] theorem after_nil : after version [] = new version := rfl

@[simp] theorem after_snoc :
    after version (ops ++ [op]) = ((after version ops).step op).1 := by
  simp [after]

/-- The last operation was a frame that asks for a login. -/
def asksLogin (version : String) (ops : List SessionOp) : Bool :=
  ops.getLast?.any fun op => ((after version ops.dropLast).step op).2.any Action.isLogin

@[simp] theorem asksLogin_snoc :
    asksLogin version (ops ++ [op]) = ((after version ops).step op).2.any Action.isLogin := by
  simp [asksLogin]

end Session

open Session

/-- The operation keeps the rule of the driver: `expect_login` right after a frame that asks
for a login, with a fresh id, and only then. -/
def Allowed (version : String) (ops : List SessionOp) (op : SessionOp) : Prop :=
  op.expected.isSome = asksLogin version ops ∧
    ∀ callId ∈ op.expected, callId ∉ ops.filterMap SessionOp.expected

instance {version : String} {ops : List SessionOp} {op : SessionOp} :
    Decidable (Allowed version ops op) :=
  inferInstanceAs (Decidable (_ ∧ _))

/-- Every operation keeps the rule. -/
def Disciplined (version : String) (ops : List SessionOp) : Prop := Each (Allowed version) ops

/-- `Expects ops id`: the latest `expect_login` is that of `id`, a `connected` frame came
before it, and no `connect` or `disconnected` came after that frame. -/
def Expects (ops : List SessionOp) (id : String) : Prop :=
  ∃ before session between after,
    ops = before ++ .handle (.connected session) :: between ++ .expectLogin id :: after ∧
    (∀ op ∈ between, op.isReset = false) ∧
    ∀ op ∈ after, op.isReset = false ∧ op.expected = none

/-- The operation is a result for the id. -/
def SessionOp.answers (id : String) : SessionOp → Bool
  | .handle (.result id' _ _) => id' == id
  | _ => false

/-- `Unanswered ops id`: no result for the id came since a login of that id was expected. -/
def Unanswered (ops : List SessionOp) (id : String) : Prop :=
  ∃ before after, ops = before ++ .expectLogin id :: after ∧ ∀ op ∈ after, op.answers id = false

/-- `Stale ops id`: the id was expected before a `connect` or `disconnected`, or before another
login, or it is no login's. -/
def Stale (ops : List SessionOp) (id : String) : Prop :=
  (∃ before after, ops = before ++ .expectLogin id :: after ∧
    ∃ op ∈ after, op.isReset = true ∨ op.expected ≠ none) ∨
  .expectLogin id ∉ ops

namespace Session

variable {version : String} {ops : List SessionOp} {op : SessionOp} {id : String}

/-- Only a `connected` frame asks for a login. -/
theorem connected_of_isLogin {s : Session}
    (h : (s.step op).2.any Action.isLogin = true) :
    ∃ session, op = .handle (.connected session) ∧ (s.step op).1.phase = .authenticating := by
  cases op with
  | connect => simp [step, connect, Action.isLogin] at h
  | expectLogin callId => simp [step] at h
  | disconnected => simp [step] at h
  | handle message =>
    simp only [step] at h ⊢
    rcases s.handle_cases message with ⟨session, hm, he⟩ | ⟨_, -, he⟩ | ⟨_, _, -, -, he⟩ |
      ⟨_, _, _, -, -, he⟩ | ⟨_, -, he⟩ | ⟨_, he⟩ | he
    · rw [he, hm]
      exact ⟨session, rfl, rfl⟩
    all_goals simp [he, Action.isLogin] at h

/-- A frame never names a login as pending, and while one is pending it does not make the
session ready. -/
theorem handle_loginCall {s : Session} {message : ServerMessage}
    (h : (s.handle message).1.loginCall = some id) :
    s.loginCall = some id ∧
      ((s.handle message).1.phase = .ready → s.phase = .ready) := by
  rcases s.handle_cases message with ⟨_, -, he⟩ | ⟨_, -, he⟩ | ⟨_, _, -, -, he⟩ |
    ⟨_, _, _, -, -, he⟩ | ⟨_, -, he⟩ | ⟨_, he⟩ | he
  all_goals rw [he] at h ⊢
  · exact ⟨h, fun hp => by cases hp⟩
  · exact ⟨h, fun hp => by cases hp⟩
  · cases h
  · cases h
  · exact ⟨h, fun hp => hp⟩
  · exact ⟨h, fun hp => hp⟩
  · exact ⟨h, fun hp => hp⟩

/-- A result for the pending login ends that. -/
theorem loginCall_of_answers {s : Session} {message : ServerMessage}
    (h : (SessionOp.handle message).answers id = true) :
    (s.handle message).1.loginCall ≠ some id := by
  cases message with
  | result id' result error =>
    obtain rfl : id' = id := beq_iff_eq.mp h
    by_cases hid : s.loginCall = some id'
    · have heq : (s.handle (.result id' result error)).1.loginCall = none := by
        cases error with
        | none => simp [Session.handle, ServerMessage.isMalformed, hid]
        | some error => simp [Session.handle, ServerMessage.isMalformed, hid]
      rw [heq]
      intro h
      cases h
    · rw [show s.handle (.result id' result error) = (s, []) from if_neg hid]
      exact hid
  | _ => cases h

/-- Any other operation on the same connection leaves the login pending. -/
theorem loginCall_step {s : Session} (hpending : s.loginCall = some id)
    (hreset : op.isReset = false) (hexpected : op.expected = none)
    (hanswers : op.answers id = false) : (s.step op).1.loginCall = some id := by
  cases op with
  | connect => cases hreset
  | disconnected => cases hreset
  | expectLogin callId => cases hexpected
  | handle message =>
    simp only [step]
    rcases s.handle_cases message with ⟨_, -, he⟩ | ⟨_, -, he⟩ | ⟨id', _, rfl, hid, -⟩ |
      ⟨id', _, _, rfl, hid, -⟩ | ⟨_, -, he⟩ | ⟨_, he⟩ | he
    case inr.inr.inl | inr.inr.inr.inl =>
      obtain rfl : id = id' := Option.some.inj (hpending.symm.trans hid)
      exact absurd hanswers (by simp [SessionOp.answers])
    all_goals
      rw [he]
      exact hpending

end Session

/-- A frame after an expected login leaves it expected. -/
theorem Expects.handle {ops : List SessionOp} {id : String} (h : Expects ops id)
    (message : ServerMessage) : Expects (ops ++ [.handle message]) id := by
  obtain ⟨before, session, between, after, rfl, hbetween, hafter⟩ := h
  refine ⟨before, session, between, after ++ [.handle message], by simp, hbetween, ?_⟩
  intro op hop
  rcases List.mem_append.1 hop with hop | hop
  · exact hafter op hop
  · rw [List.mem_singleton.1 hop]
    exact ⟨rfl, rfl⟩

/-- A login right after a `connected` frame is the one expected. -/
theorem expects_login {ops : List SessionOp} (session id : String) :
    Expects (ops ++ [.handle (.connected session)] ++ [.expectLogin id]) id :=
  ⟨ops, session, [], [], by simp, by simp, by simp⟩

/-- No result came for a login right after it was expected. -/
theorem unanswered_login (ops : List SessionOp) (id : String) :
    Unanswered (ops ++ [.expectLogin id]) id :=
  ⟨ops, [], rfl, by simp⟩

/-- An operation that is no result for the login leaves it without one. -/
theorem Unanswered.snoc {ops : List SessionOp} {op : SessionOp} {id : String}
    (h : Unanswered ops id) (hop : op.answers id = false) : Unanswered (ops ++ [op]) id := by
  obtain ⟨before, after, rfl, hafter⟩ := h
  refine ⟨before, after ++ [op], by simp, ?_⟩
  intro op' hop'
  rcases List.mem_append.1 hop' with hop' | hop'
  · exact hafter op' hop'
  · rwa [List.mem_singleton.1 hop']

/-- What holds after every disciplined run: the pending login is one the history expects and
that was not answered, and the session is not ready while it is pending. -/
structure Session.Tracks (version : String) (ops : List SessionOp) : Prop where
  expects : ∀ id, (after version ops).loginCall = some id → Expects ops id
  unanswered : ∀ id, (after version ops).loginCall = some id → Unanswered ops id
  notReady : ∀ id, (after version ops).loginCall = some id → (after version ops).phase ≠ .ready

namespace Session

variable {version : String} {ops : List SessionOp} {op : SessionOp} {id : String}

/-- A login that may be expected comes right after a `connected` frame. -/
theorem connected_of_allowed (h : Allowed version ops (.expectLogin id)) :
    (∃ before session, ops = before ++ [.handle (.connected session)]) ∧
      (after version ops).phase = .authenticating := by
  have hasks : asksLogin version ops = true := h.1.symm
  cases ops using List.reverseRecOn with
  | nil => simp [asksLogin] at hasks
  | append_singleton before last =>
    rw [asksLogin_snoc] at hasks
    obtain ⟨session, rfl, hphase⟩ := connected_of_isLogin hasks
    rw [after_snoc]
    exact ⟨⟨before, session, rfl⟩, hphase⟩

/-- The pending login is always one the history expects. -/
theorem tracks (h : Disciplined version ops) : Tracks version ops := by
  induction ops using List.reverseRecOn with
  | nil => constructor <;> exact fun id hid => by simp [new] at hid
  | append_singleton ops op ih =>
    obtain ⟨hops, hallowed⟩ := each_snoc.1 h
    obtain ⟨hexpects, hunanswered, hready⟩ := ih hops
    cases op with
    -- A new connection waits for no login.
    | connect => constructor <;> exact fun id hid => by simp [step] at hid
    | disconnected => constructor <;> exact fun id hid => by simp [step] at hid
    | expectLogin callId =>
      -- The login is sent once the connection is up, and is now the one that is expected.
      obtain ⟨⟨before, session, rfl⟩, hphase⟩ := connected_of_allowed hallowed
      constructor
      · intro id hid
        rw [after_snoc] at hid
        obtain rfl : callId = id := Option.some.inj hid
        exact expects_login session callId
      · intro id hid
        rw [after_snoc] at hid
        obtain rfl : callId = id := Option.some.inj hid
        exact unanswered_login _ callId
      · intro id _
        rw [after_snoc, step, phase_expectLogin, hphase]
        decide
    | handle message =>
      -- A frame leaves the login pending or answers it.
      constructor
      · intro id hid
        rw [after_snoc] at hid
        exact (hexpects id (handle_loginCall hid).1).handle message
      · intro id hid
        rw [after_snoc] at hid
        refine (hunanswered id (handle_loginCall hid).1).snoc (eq_false_of_ne_true fun h => ?_)
        exact loginCall_of_answers h hid
      · intro id hid hphase
        rw [after_snoc] at hid hphase
        obtain ⟨hpending, hkeeps⟩ := handle_loginCall hid
        exact hready id hpending (hkeeps hphase)

/-- What enters `ready` is an answer to the pending login, and nothing else asks for the
subscriptions. -/
theorem answered_of_step {s : Session}
    (h : (s.phase ≠ .ready ∧ (s.step op).1.phase = .ready) ∨ .resubscribe ∈ (s.step op).2) :
    ∃ id result, op = .handle (.result id result none) ∧ s.loginCall = some id ∧
      (s.step op).1.phase = .ready ∧ (s.step op).2 = [.resubscribe] := by
  cases op with
  | connect => simp [step, connect] at h
  | expectLogin callId => simp [step] at h
  | disconnected =>
    rcases h with ⟨hne, hready⟩ | hmem
    · rcases s.phase_disconnected with hp | ⟨hp, -⟩
      · exact absurd (hp.symm.trans hready) (by decide)
      · exact absurd (hp.symm.trans hready) (by decide)
    · simp [step] at hmem
  | handle message =>
    simp only [step] at h ⊢
    rcases s.handle_cases message with ⟨_, -, he⟩ | ⟨_, -, he⟩ | ⟨id, result, rfl, hid, he⟩ |
      ⟨_, _, _, -, -, he⟩ | ⟨_, -, he⟩ | ⟨_, he⟩ | he
    case inr.inr.inl =>
      rw [he]
      exact ⟨id, result, rfl, hid, rfl, rfl⟩
    all_goals
      rw [he] at h
      simp at h

/-- An id is expected at most once. -/
theorem nodup_expected (h : Disciplined version ops) :
    (ops.filterMap SessionOp.expected).Nodup := by
  induction ops using List.reverseRecOn with
  | nil => exact List.nodup_nil
  | append_singleton ops op ih =>
    obtain ⟨hops, -, hfresh⟩ := each_snoc.1 h
    rw [List.filterMap_append]
    cases hexpected : op.expected with
    | none => simpa [hexpected] using ih hops
    | some callId =>
      rw [hexpected] at hfresh
      simpa [hexpected] using List.Nodup.concat (hfresh callId rfl) (ih hops)

/-- An expected id is expected neither before nor after. -/
theorem once_expected {before after : List SessionOp}
    (h : Disciplined version (before ++ .expectLogin id :: after)) :
    .expectLogin id ∉ before ∧ .expectLogin id ∉ after := by
  have hnodup := nodup_expected h
  rw [List.filterMap_append, List.filterMap_cons_some (f := SessionOp.expected) rfl] at hnodup
  obtain ⟨-, hafter, hbefore⟩ := List.nodup_append.1 hnodup
  constructor
  · intro hmem
    exact hbefore id (List.mem_filterMap.2 ⟨_, hmem, rfl⟩) id List.mem_cons_self rfl
  · intro hmem
    exact (List.nodup_cons.1 hafter).1 (List.mem_filterMap.2 ⟨_, hmem, rfl⟩)

/-- A login the history expects is not a stale one. -/
theorem not_stale_of_expects (h : Disciplined version ops) (hexpects : Expects ops id) :
    ¬Stale ops id := by
  obtain ⟨before, session, between, after, hops, -, hafter⟩ := hexpects
  rintro (⟨before', after', hops', op, hop, hcancel⟩ | hnot)
  · obtain ⟨hnot, hnot'⟩ := once_expected (hops' ▸ h)
    have hsame := (List.append_cons_inj_of_notMem hnot hnot').1 (hops'.symm.trans hops)
    obtain ⟨-, -, rfl⟩ := hsame
    obtain ⟨hreset, hexpected⟩ := hafter op hop
    rcases hcancel with hcancel | hcancel
    · rw [hreset] at hcancel
      cases hcancel
    · exact hcancel hexpected
  · rw [hops] at hnot
    exact hnot (by simp)

/-- A login is pending as long as neither a result for it nor anything that ends it came. -/
theorem loginCall_of_between {before after : List SessionOp}
    (hafter : ∀ op ∈ after, op.isReset = false ∧ op.expected = none)
    (hanswers : ∀ op ∈ after, op.answers id = false) :
    (Session.after version (before ++ .expectLogin id :: after)).loginCall = some id := by
  induction after using List.reverseRecOn with
  | nil =>
    rw [after_snoc]
    rfl
  | append_singleton after op ih =>
    have hmem : op ∈ after ++ [op] := List.mem_append_right _ (List.mem_singleton_self op)
    rw [← List.cons_append, ← List.append_assoc, after_snoc]
    refine loginCall_step (ih ?_ ?_) (hafter op hmem).1 (hafter op hmem).2 (hanswers op hmem)
    · exact fun op' hop' => hafter op' (List.mem_append_left _ hop')
    · exact fun op' hop' => hanswers op' (List.mem_append_left _ hop')

/-- **A login the history expects, and that was not answered, is the pending one.** -/
theorem loginCall_of_expects (h : Disciplined version ops) (hexpects : Expects ops id)
    (hunanswered : Unanswered ops id) : (after version ops).loginCall = some id := by
  obtain ⟨before, session, between, after, hops, -, hafter⟩ := hexpects
  obtain ⟨before', after', hops', hanswers⟩ := hunanswered
  obtain ⟨hnot, hnot'⟩ := once_expected (hops' ▸ h)
  -- The id is expected once, so both speak of the same operation.
  have hops : ops = (before ++ .handle (.connected session) :: between) ++
      .expectLogin id :: after := by simp [hops]
  obtain ⟨rfl, -, rfl⟩ :=
    (List.append_cons_inj_of_notMem hnot hnot').1 (hops'.symm.trans hops)
  rw [hops]
  exact loginCall_of_between hafter hanswers

end Session

/-- **Session safety.**  At every operation of every disciplined run: a result without error for
the login the history expects, which had no answer yet, makes the session ready and asks for the
subscriptions; the session gets ready only there, and there and nowhere else asks for the
subscriptions; any other result changes nothing and asks for nothing; and a ping is answered with
one pong of the same id. -/
theorem session_safety {version : String} {ops : List SessionOp} {op : SessionOp}
    (h : Disciplined version (ops ++ [op])) :
    let s := after version ops
    let next := s.step op
    (∀ id result, op = .handle (.result id result none) → Expects ops id → Unanswered ops id →
      s.phase ≠ .ready ∧ next = ({ s with loginCall := none, phase := .ready }, [.resubscribe])) ∧
    (s.phase ≠ .ready → next.1.phase = .ready →
      ∃ id result, op = .handle (.result id result none) ∧ s.loginCall = some id ∧
        Expects ops id ∧ Unanswered ops id) ∧
    (.resubscribe ∈ next.2 ↔ s.phase ≠ .ready ∧ next.1.phase = .ready) ∧
    (∀ id result error, op = .handle (.result id result error) →
      s.loginCall ≠ some id ∨ Stale ops id → next = (s, [])) ∧
    ∀ id, op = .handle (.ping id) → next = (s, [.send (.pong id)]) := by
  intro s next
  have hops := (each_snoc.1 h).1
  obtain ⟨hexpects, hunanswered, hready⟩ := tracks hops
  refine ⟨?_, fun hne hphase => ?_, ⟨fun hmem => ?_, fun hentered => ?_⟩, ?_, ?_⟩
  · -- The expected login is the one the session waits for.
    rintro id result rfl hexpected hopen
    have hid := loginCall_of_expects hops hexpected hopen
    exact ⟨hready id hid, if_pos hid⟩
  · obtain ⟨id, result, hop, hid, -, -⟩ := answered_of_step (.inl ⟨hne, hphase⟩)
    exact ⟨id, result, hop, hid, hexpects id hid, hunanswered id hid⟩
  · obtain ⟨id, -, -, hid, hphase, -⟩ := answered_of_step (.inr hmem)
    exact ⟨hready id hid, hphase⟩
  · obtain ⟨_, _, -, -, -, hactions⟩ := answered_of_step (.inl hentered)
    show _ ∈ (s.step op).2
    rw [hactions]
    exact List.mem_singleton_self _
  · rintro id result error rfl hstale
    -- A stale login is no longer waited for.
    have hne : s.loginCall ≠ some id := by
      rcases hstale with hne | hstale
      · exact hne
      · exact fun hid => not_stale_of_expects hops (hexpects id hid) hstale
    exact if_neg hne
  · rintro id rfl
    rfl

/-- The answer to the login of a first connection makes the session ready and asks for the
subscriptions; the answer to another call, which comes before it, does nothing. -/
theorem session_safety_login :
    let ops := [.connect, .handle (.connected "s"), .expectLogin "m1"]
    let foreign := SessionOp.handle (.result "m2" none none)
    let answer := SessionOp.handle (.result "m1" none none)
    let s := after "1" (ops ++ [foreign])
    (after "1" ops).step foreign = (after "1" ops, []) ∧ s.phase = .authenticating ∧
      (s.step answer).1.phase = .ready ∧ (s.step answer).2 = [.resubscribe] := by
  intro ops foreign answer s
  have hforeign : Disciplined "1" (ops ++ [foreign]) := by
    unfold Disciplined
    decide
  have hanswer : Disciplined "1" (ops ++ [foreign] ++ [answer]) := by
    unfold Disciplined
    decide
  obtain ⟨-, -, -, hother, -⟩ := session_safety hforeign
  obtain ⟨hlogin, -⟩ := session_safety hanswer
  -- The login is still expected behind the foreign result, and still has no answer.
  have hlatest : Expects ([.connect] ++ [.handle (.connected "s")] ++ [.expectLogin "m1"]) "m1" :=
    expects_login "s" "m1"
  have hexpects : Expects (ops ++ [foreign]) "m1" := hlatest.handle _
  have hopen : Unanswered (ops ++ [foreign]) "m1" :=
    (unanswered_login [.connect, .handle (.connected "s")] "m1").snoc (by decide)
  obtain ⟨-, heq⟩ := hlogin "m1" none rfl hexpects hopen
  refine ⟨hother "m2" none none rfl (.inl (by decide)), rfl, ?_, ?_⟩
  · rw [heq]
  · rw [heq]

/-! ### Sessions that failed for good -/

namespace Session

/-- The state a sequence of operations leaves, from any session. -/
def afterwards (s : Session) (ops : List SessionOp) : Session :=
  ops.foldl (fun s op => (s.step op).1) s

/-- The operation left a terminal session, and asked neither for a login nor for the
subscriptions. -/
def LeavesTerminal (s : Session) (op : SessionOp) : Prop :=
  (s.step op).1.phase = .fatallyClosed ∧
    ∀ action ∈ (s.step op).2, action.isLogin = false ∧ action.isResubscribe = false

/-- The frames that move the phase without a look at it: `connected`, and a result without
error for the login the session expects. -/
def Reopens (s : Session) : SessionOp → Prop
  | .handle (.connected _) => True
  | .handle (.result id _ none) => s.loginCall = some id
  | _ => False

/-- Every operation of the sequence leaves the session terminal. -/
def StaysTerminal (s : Session) (ops : List SessionOp) : Prop :=
  Each (fun before op => (s.afterwards before).LeavesTerminal op) ops

variable {s : Session} {ops : List SessionOp} {op : SessionOp}

@[simp] theorem afterwards_nil : s.afterwards [] = s := rfl

@[simp] theorem afterwards_snoc :
    s.afterwards (ops ++ [op]) = ((s.afterwards ops).step op).1 := by
  simp [afterwards]

/-- Such a frame leaves the session in a phase that is not terminal. -/
theorem phase_of_reopens {message : ServerMessage} (h : s.Reopens (.handle message)) :
    (s.handle message).1.phase ≠ .fatallyClosed := by
  cases message with
  | connected session => exact fun hp => by cases hp
  | result id result error =>
    cases error with
    | none =>
      have hid : s.loginCall = some id := h
      rw [show s.handle (.result id result none) =
        ({ s with loginCall := none, phase := .ready }, [.resubscribe]) from if_pos hid]
      exact fun hp => by cases hp
    | some error => exact h.elim
  | _ => exact h.elim

/-- One operation on a terminal session.  Only the two arms of `handle` that write a phase
other than the terminal one can end it. -/
theorem leavesTerminal_iff (hs : s.phase = .fatallyClosed) (hop : op ≠ .connect) :
    s.LeavesTerminal op ↔ ¬s.Reopens op := by
  cases op with
  | connect => exact absurd rfl hop
  | expectLogin callId => simp [LeavesTerminal, Reopens, step, hs]
  | disconnected => simp [LeavesTerminal, Reopens, step, disconnected, hs]
  | handle message =>
    unfold LeavesTerminal
    simp only [step]
    rcases s.handle_cases message with ⟨_, rfl, he⟩ | ⟨_, rfl, he⟩ | ⟨id, _, rfl, hid, he⟩ |
      ⟨_, _, _, rfl, -, he⟩ | ⟨_, rfl, he⟩ | ⟨msg, he⟩ | he
    · simp [he, Reopens]
    · simp [he, Reopens, Action.isLogin, Action.isResubscribe]
    · simp [he, Reopens, hid]
    · simp [he, Reopens, Action.isLogin, Action.isResubscribe]
    · simp [he, hs, Reopens, Action.isLogin, Action.isResubscribe]
    · have hnot : ¬s.Reopens (.handle message) := by
        intro h
        exact phase_of_reopens h (by rw [he, hs])
      simp [he, hs, hnot, Action.isLogin, Action.isResubscribe]
    · have hnot : ¬s.Reopens (.handle message) := by
        intro h
        exact phase_of_reopens h (by rw [he, hs])
      simp [he, hs, hnot]

/-- While every operation leaves it terminal, the session is terminal. -/
theorem phase_of_staysTerminal (hs : s.phase = .fatallyClosed) (h : s.StaysTerminal ops) :
    (s.afterwards ops).phase = .fatallyClosed := by
  induction ops using List.reverseRecOn with
  | nil => exact hs
  | append_singleton ops op _ =>
    rw [afterwards_snoc]
    exact (each_snoc.1 h).2.1

end Session

/-- **A terminal session stays terminal** over a sequence of operations without a new
connection just if no frame of it brings it back. -/
theorem stays_terminal_iff {s : Session} {ops : List SessionOp}
    (hs : s.phase = .fatallyClosed) (hops : .connect ∉ ops) :
    s.StaysTerminal ops ↔ Each (fun before op => ¬(s.afterwards before).Reopens op) ops := by
  induction ops using List.reverseRecOn with
  | nil => exact ⟨fun _ => each_nil, fun _ => each_nil⟩
  | append_singleton ops op ih =>
    simp only [List.mem_append, List.mem_singleton, not_or] at hops
    obtain ⟨hbefore, hop⟩ := hops
    have hop : op ≠ .connect := fun h => hop h.symm
    unfold StaysTerminal at ih ⊢
    rw [each_snoc, each_snoc, ← ih hbefore]
    refine and_congr_right fun hstays => ?_
    exact leavesTerminal_iff (phase_of_staysTerminal hs hstays) hop

/-- A session whose version was refused, over a ping and the loss of its socket. -/
theorem stays_terminal_refused :
    let s := after "1" [.connect, .handle (.failed "1")]
    let ops := [SessionOp.handle (.ping none), .disconnected]
    s.StaysTerminal ops ↔ Each (fun before op => ¬(s.afterwards before).Reopens op) ops :=
  stays_terminal_iff rfl (by simp)

/-- A `connected` frame behind the refusal makes the session ask for a login. -/
theorem not_stays_terminal :
    let s := after "1" [.connect, .handle (.failed "1")]
    s.phase = .fatallyClosed ∧ .connect ∉ [SessionOp.handle (.connected "s")] ∧
      ¬s.StaysTerminal [.handle (.connected "s")] := by
  refine ⟨rfl, by simp, fun h => ?_⟩
  exact absurd (h [] _ [] rfl).1 (by decide)

end RocketSocket
