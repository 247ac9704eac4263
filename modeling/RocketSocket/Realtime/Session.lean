import RocketSocket.Model.Protocol

/-!
# The session state machine

The lifecycle of one connection, free of IO: `session.rs`.  It consumes decoded frames
and says what the runner should do about each.

## Main definitions

* `Phase`, `Fatal`, `Action` — where a connection is, and what is to be done.
* `Session.connect`, `expectLogin`, `disconnected`, `handle` — the transitions.
* `classifyLoginFailure` — what a rejected login means.

## Main results

* `Session.handle_cases` — everything a frame can make the session do.
-/

namespace RocketSocket

/-- Where a connection is in its lifecycle. -/
inductive Phase where
  | disconnected
  | handshaking
  | authenticating
  | ready
  | fatallyClosed
  deriving DecidableEq, Repr

/-- Why a connection can never succeed as configured. -/
inductive Fatal where
  | versionMismatch (version offered : String)
  | sessionExpired (reason : String)
  | loginRejected (reason : String)
  deriving DecidableEq, Repr

/-- Something a runner should do. -/
inductive Action where
  | send (frame : ClientMessage)
  | login
  | resubscribe
  | fatal (fatal : Fatal)
  | protocolViolation (msg : Option String)
  deriving Repr

/-- The connection lifecycle state machine. -/
structure Session where
  phase : Phase
  proposedVersion : String
  sessionId : Option String
  /-- The id of the login that is outstanding. -/
  loginCall : Option String
  deriving Repr

/-- Decides whether a failed login is worth ever retrying. -/
def classifyLoginFailure (error : DdpError) : Fatal :=
  let describe := (error.reason.or error.message).getD error.error.toText
  if error.isExpiredSession then .sessionExpired describe else .loginRejected describe

namespace Session

/-- A new, disconnected session proposing the given DDP version. -/
def new (proposedVersion : String) : Session := ⟨.disconnected, proposedVersion, none, none⟩

/-- Begins a connection; the action sends the opening frame. -/
def connect (s : Session) : Session × Action :=
  ({ s with phase := .handshaking, sessionId := none, loginCall := none },
    .send .opening)

/-- Records the call id of the `login` the runner just sent. -/
def expectLogin (s : Session) (callId : String) : Session :=
  { s with loginCall := some callId }

/-- Notes that the socket is gone.  A terminal phase stays terminal. -/
def disconnected (s : Session) : Session :=
  { s with
    phase := if s.phase ≠ .fatallyClosed then .disconnected else s.phase
    sessionId := none
    loginCall := none }

/-- Feeds one decoded frame in, returning what to do about it. -/
def handle (s : Session) (message : ServerMessage) : Session × List Action :=
  if message.isMalformed then
    let msg := match message with
      | .unknown unknown => unknown.msg
      | _ => none
    (s, [.protocolViolation msg])
  else match message with
    | .ping id => (s, [.send (.pong id)])
    | .connected session =>
      ({ s with sessionId := some session, phase := .authenticating }, [.login])
    | .failed version =>
      ({ s with phase := .fatallyClosed },
        [.fatal (.versionMismatch s.proposedVersion version)])
    | .result id _ error =>
      if s.loginCall = some id then
        let s := { s with loginCall := none }
        match error with
        | none => ({ s with phase := .ready }, [.resubscribe])
        | some error =>
          ({ s with phase := .fatallyClosed }, [.fatal (classifyLoginFailure error)])
      else (s, [])
    | _ => (s, [])

/-! ### What the transitions do -/

@[simp] theorem phase_connect (s : Session) : s.connect.1.phase = .handshaking := rfl

@[simp] theorem loginCall_connect (s : Session) : s.connect.1.loginCall = none := rfl

@[simp] theorem phase_expectLogin (s : Session) (id : String) :
    (s.expectLogin id).phase = s.phase := rfl

@[simp] theorem loginCall_expectLogin (s : Session) (id : String) :
    (s.expectLogin id).loginCall = some id := rfl

@[simp] theorem loginCall_disconnected (s : Session) : s.disconnected.loginCall = none := rfl

theorem phase_disconnected (s : Session) :
    s.disconnected.phase = .disconnected ∨
      s.disconnected.phase = .fatallyClosed ∧ s.phase = .fatallyClosed := by
  by_cases h : s.phase = .fatallyClosed
  · exact .inr ⟨by simp [disconnected, h], h⟩
  · exact .inl (by simp [disconnected, h])

/-- **Everything a frame can make the session do.**  Only `connected` asks for a login,
only an answer to the outstanding login moves the session to `ready`, and a frame that
does none of the listed things leaves the session as it is. -/
theorem handle_cases (s : Session) (message : ServerMessage) :
    (∃ session, message = .connected session ∧ s.handle message =
      ({ s with sessionId := some session, phase := .authenticating }, [.login])) ∨
    (∃ version, message = .failed version ∧ s.handle message =
      ({ s with phase := .fatallyClosed },
        [.fatal (.versionMismatch s.proposedVersion version)])) ∨
    (∃ id result, message = .result id result none ∧ s.loginCall = some id ∧
      s.handle message = ({ s with loginCall := none, phase := .ready }, [.resubscribe])) ∨
    (∃ id result error, message = .result id result (some error) ∧ s.loginCall = some id ∧
      s.handle message = ({ s with loginCall := none, phase := .fatallyClosed },
        [.fatal (classifyLoginFailure error)])) ∨
    (∃ id, message = .ping id ∧ s.handle message = (s, [.send (.pong id)])) ∨
    (∃ msg, s.handle message = (s, [.protocolViolation msg])) ∨
    s.handle message = (s, []) := by
  cases message with
  | ping id => exact .inr (.inr (.inr (.inr (.inl ⟨id, rfl, rfl⟩))))
  | connected session => exact .inl ⟨session, rfl, rfl⟩
  | failed version => exact .inr (.inl ⟨version, rfl, rfl⟩)
  | result id result error =>
    -- A result counts only for the login that is waited for.
    by_cases hid : s.loginCall = some id
    · cases error with
      | none =>
        exact .inr (.inr (.inl ⟨id, result, rfl, hid, if_pos hid⟩))
      | some error =>
        exact .inr (.inr (.inr (.inl ⟨id, result, error, rfl, hid, if_pos hid⟩)))
    · exact .inr (.inr (.inr (.inr (.inr (.inr (if_neg hid))))))
  | unknown u =>
    by_cases hm : (ServerMessage.unknown u).isMalformed = true
    · exact .inr (.inr (.inr (.inr (.inr (.inl ⟨u.msg, if_pos hm⟩)))))
    · exact .inr (.inr (.inr (.inr (.inr (.inr (if_neg hm))))))
  | _ => exact .inr (.inr (.inr (.inr (.inr (.inr rfl)))))

/-- A socket is open and has not failed for good. -/
def Live (s : Session) : Prop := s.phase ≠ .disconnected ∧ s.phase ≠ .fatallyClosed

theorem live_of_ready {s : Session} (h : s.phase = .ready) : s.Live := by
  simp [Live, h]

theorem live_connect (s : Session) : s.connect.1.Live := by
  simp [Live]

theorem not_live_disconnected (s : Session) : ¬ s.disconnected.Live := by
  rintro ⟨h, h'⟩
  rcases s.phase_disconnected with hp | ⟨hp, -⟩
  · exact h hp
  · exact h' hp

end Session

end RocketSocket
