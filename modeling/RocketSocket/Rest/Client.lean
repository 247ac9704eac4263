import RocketSocket.Lib.History
import RocketSocket.Model.Entity

/-!
# The REST client and its credentials

`Client` of `rocketsocket-rest`: the calls that read or write the credential slot all clones
share.  Every access of the slot and every round trip to the server is a step of its own, so a
run interleaves any number of calls.  What the server answers, as `decode` reads it, is the
input of a step.

The URLs, the second factor and the bodies of the requests are left out: no access of the slot
depends on them.  Which strings the HTTP library takes as a header, and whether the base URL
has a path, is a parameter.

## Main definitions

* `Authentication`, `Credentials` — as in the source.
* `RestError` — what can go wrong.
* `RestCall`, `RestPhase` — a call, and where it stands.
* `RestClient.step` — one step of one call, or of the server.
* `RestNote` — what a run shows.
-/

namespace RocketSocket

open Machine

/-! ### Credentials -/

/-- A login token. -/
structure AuthToken where
  text : String
  deriving DecidableEq, Repr

/-- The pair that authenticates every request. -/
structure Authentication where
  userId : UserId
  token : AuthToken
  deriving DecidableEq, Repr

/-- What the client authenticates with. -/
inductive Credentials where
  | personalAccessToken (userId : UserId) (token : AuthToken)
  | password (user password : String)
  deriving DecidableEq, Repr

/-- The ready-made pair, for credentials that are already a token. -/
def Credentials.asAuthentication : Credentials → Option Authentication
  | .personalAccessToken userId token => some ⟨userId, token⟩
  | .password .. => none

/-- What a login returns; `υ` is the type of the user documents. -/
structure LoginOutcome (υ : Type) where
  authentication : Authentication
  me : υ
  deriving DecidableEq, Repr

/-! ### Errors -/

/-- Which class of refusal a status is. -/
inductive ApiErrorKind where
  | badRequest
  | unauthorized
  | forbidden
  | notFound
  | tooManyRequests
  | server
  | other
  deriving DecidableEq, Repr

/-- Classify a status code. -/
def ApiErrorKind.fromStatus (status : ℕ) : ApiErrorKind :=
  if status = 400 then .badRequest
  else if status = 401 then .unauthorized
  else if status = 403 then .forbidden
  else if status = 404 then .notFound
  else if status = 429 then .tooManyRequests
  else if 500 ≤ status ∧ status ≤ 599 then .server
  else .other

/-- A refusal of the server, normalized. -/
structure ApiError where
  status : ℕ
  code : Option String
  message : Option String
  deriving DecidableEq, Repr

/-- Decided by the status alone. -/
def ApiError.kind (error : ApiError) : ApiErrorKind := .fromStatus error.status

/-- The credentials were missing or rejected. -/
def ApiError.isUnauthorized (error : ApiError) : Bool := error.kind = .unauthorized

/-- What can stop a call. -/
inductive RestError where
  | invalidUrl (endpoint reason : String)
  | transport (reason : String)
  | api (error : ApiError)
  | decode (status : ℕ) (snippet : String)
  | invalidRequest (reason : String)
  | notAuthenticated
  deriving DecidableEq, Repr

/-- The failure of the server, if it came from there. -/
def RestError.apiError : RestError → Option ApiError
  | .api error => some error
  | _ => none

/-! ### Calls -/

/-- A call of the client. -/
inductive RestCall where
  | login (credentials : Credentials)
  | logout
  | me
  | setAuthentication (authentication : Option Authentication)
  deriving DecidableEq, Repr

/-- What a call returns. -/
inductive RestOutcome (υ : Type) where
  | login (outcome : Except RestError (LoginOutcome υ))
  | logout (outcome : Except RestError Unit)
  | me (outcome : Except RestError υ)
  | setAuthentication

/-- Where a call stands. -/
inductive RestPhase (υ : Type) where
  | begun (call : RestCall)
  /-- A login installed its token, and is about to read the slot in `me`. -/
  | installed (authentication : Authentication) (previous : Option Authentication)
  /-- Its `me` was sent with the credentials read. -/
  | validating (authentication : Authentication) (previous : Option Authentication)
    (sent : Authentication)
  /-- Its `me` failed, and it is about to restore the slot. -/
  | restoring (previous : Option Authentication) (error : RestError)
  /-- A login with a password was sent. -/
  | loggingIn
  /-- It was answered, and is about to store its token. -/
  | storing (outcome : LoginOutcome υ)
  /-- A logout was sent with the credentials read. -/
  | leaving (sent : Authentication)
  /-- It was answered, and is about to clear the slot. -/
  | clearing (sent : Authentication) (outcome : Except RestError Unit)
  /-- A `me` of its own was sent. -/
  | asking (sent : Authentication)
  | returned (outcome : RestOutcome υ)
  /-- The caller dropped the future. -/
  | dropped

/-- The call is over. -/
def RestPhase.isOver {υ : Type} : RestPhase υ → Bool
  | .returned _ | .dropped => true
  | _ => false

/-- What the HTTP library decides. -/
structure Http where
  /-- The base URL can have path segments. -/
  hasPath : Bool
  isHeaderValue : String → Bool

/-- The client: the slot all clones share, and the calls made on any of them. -/
structure RestClient (υ : Type) where
  http : Http
  auth : Option Authentication
  calls : List (RestPhase υ) := []

/-- Who moves. -/
inductive RestInput (υ : Type) where
  | call (call : RestCall)
  /-- A call goes on to its next access of the slot, or to its request. -/
  | go (n : ℕ)
  | answerMe (n : ℕ) (answer : Except RestError υ)
  | answerLogin (n : ℕ) (answer : Except RestError (LoginOutcome υ))
  | answerLogout (n : ℕ) (answer : Except RestError Unit)
  | drop (n : ℕ)

/-- What a run shows. -/
inductive RestNote (υ : Type) where
  | called (n : ℕ) (call : RestCall)
  /-- The slot holds these credentials now, which a login or `set_authentication` brought. -/
  | installed (n : ℕ) (authentication : Authentication)
  /-- `set_authentication` emptied the slot. -/
  | emptied (n : ℕ)
  /-- A request was sent with the credentials read. -/
  | sent (n : ℕ) (authentication : Authentication)
  /-- The server reported the user of the credentials of a request. -/
  | reported (n : ℕ) (sent : Authentication) (me : υ)
  /-- The server issued a token for a user. -/
  | issued (n : ℕ) (authentication : Authentication) (me : υ)
  /-- A failed login replaced what the slot held. -/
  | restored (n : ℕ) (held previous : Option Authentication)
  /-- A logout that was sent with some credentials emptied the slot. -/
  | cleared (n : ℕ) (sent : Authentication) (held : Option Authentication)
  | returned (n : ℕ) (outcome : RestOutcome υ)

namespace RestClient

variable {υ : Type}

/-- A client without calls. -/
def init (http : Http) (auth : Option Authentication) : RestClient υ :=
  { http := http, auth := auth }

variable (c : RestClient υ)

/-! ### Requests -/

/-- Build an endpoint URL. -/
def endpoint (segments : List String) : Except RestError Unit :=
  if c.http.hasPath then .ok ()
  else .error (.invalidUrl ("/".intercalate segments) "the base URL cannot have path segments")

/-- The credentials a request carries. -/
def authenticatedRequest : Except RestError Authentication :=
  match c.auth with
  | none => .error .notAuthenticated
  | some auth =>
    if c.http.isHeaderValue auth.userId.text = false then
      .error (.invalidRequest "user id is not a valid header value")
    else if c.http.isHeaderValue auth.token.text = false then
      .error (.invalidRequest "auth token is not a valid header value")
    else .ok auth

/-- The request of an endpoint that needs credentials. -/
def request (segments : List String) : Except RestError Authentication := do
  c.endpoint segments
  c.authenticatedRequest

/-! ### Steps -/

/-- Call number `n` stands elsewhere now. -/
def setPhase (n : ℕ) (phase : RestPhase υ) : RestClient υ :=
  { c with calls := c.calls.set n phase }

/-- Rewrites the slot. -/
def setAuth (auth : Option Authentication) : RestClient υ := { c with auth := auth }

/-- Call number `n` returns. -/
def finish (n : ℕ) (outcome : RestOutcome υ) : RestClient υ × List (RestNote υ) :=
  (c.setPhase n (.returned outcome), [.returned n outcome])

/-- A request is sent with the credentials in the slot, or the call goes on without. -/
def send (n : ℕ) (segments : List String) (sent : Authentication → RestPhase υ)
    (failed : RestError → RestClient υ × List (RestNote υ)) : RestClient υ × List (RestNote υ) :=
  match c.request segments with
  | .ok authentication => (c.setPhase n (sent authentication), [.sent n authentication])
  | .error error => failed error

/-- The note that the slot holds what `set_authentication` was given. -/
def setNote (n : ℕ) : Option Authentication → RestNote υ
  | some authentication => .installed n authentication
  | none => .emptied n

/-- The first step of a call. -/
def start (n : ℕ) : RestCall → RestClient υ × List (RestNote υ)
  | .login (.personalAccessToken userId token) =>
    let authentication : Authentication := ⟨userId, token⟩
    ((c.setAuth (some authentication)).setPhase n (.installed authentication c.auth),
      [.installed n authentication])
  | .login (.password ..) =>
    match c.endpoint ["login"] with
    | .ok () => (c.setPhase n .loggingIn, [])
    | .error error => c.finish n (.login (.error error))
  | .logout => c.send n ["logout"] .leaving fun error => c.finish n (.logout (.error error))
  | .me => c.send n ["me"] .asking fun error => c.finish n (.me (.error error))
  | .setAuthentication authentication =>
    let (c, notes) := (c.setAuth authentication).finish n .setAuthentication
    (c, setNote n authentication :: notes)

/-- The next step of a call that does not wait for the server. -/
def advance (n : ℕ) : RestPhase υ → Option (RestClient υ × List (RestNote υ))
  | .begun call => some (c.start n call)
  | .installed authentication previous =>
    some (c.send n ["me"] (.validating authentication previous) fun error =>
      (c.setPhase n (.restoring previous error), []))
  | .restoring previous error =>
    let (c', notes) := (c.setAuth previous).finish n (.login (.error error))
    some (c', .restored n c.auth previous :: notes)
  | .storing outcome =>
    let (c, notes) := (c.setAuth (some outcome.authentication)).finish n (.login (.ok outcome))
    some (c, .installed n outcome.authentication :: notes)
  | .clearing sent outcome =>
    let (c', notes) := (c.setAuth none).finish n (.logout outcome)
    some (c', .cleared n sent c.auth :: notes)
  | _ => none

/-- The server answers a `me`. -/
def receiveMe (n : ℕ) (answer : Except RestError υ) :
    RestPhase υ → Option (RestClient υ × List (RestNote υ))
  | .validating authentication previous sent => match answer with
    | .ok me =>
      let (c, notes) := c.finish n (.login (.ok ⟨authentication, me⟩))
      some (c, .reported n sent me :: notes)
    | .error error => some (c.setPhase n (.restoring previous error), [])
  | .asking sent => match answer with
    | .ok me =>
      let (c, notes) := c.finish n (.me (.ok me))
      some (c, .reported n sent me :: notes)
    | .error error => some (c.finish n (.me (.error error)))
  | _ => none

/-- The server answers a login with a password. -/
def receiveLogin (n : ℕ) (answer : Except RestError (LoginOutcome υ)) :
    RestPhase υ → Option (RestClient υ × List (RestNote υ))
  | .loggingIn => match answer with
    | .ok outcome =>
      some (c.setPhase n (.storing outcome), [.issued n outcome.authentication outcome.me])
    | .error error => some (c.finish n (.login (.error error)))
  | _ => none

/-- The server answers a logout: the token is dead now, or was before. -/
def receiveLogout (n : ℕ) (answer : Except RestError Unit) :
    RestPhase υ → Option (RestClient υ × List (RestNote υ))
  | .leaving sent => match answer with
    | .ok () => some (c.setPhase n (.clearing sent (.ok ())), [])
    | .error error =>
      if error.apiError.any (·.isUnauthorized) then
        some (c.setPhase n (.clearing sent (.error error)), [])
      else some (c.finish n (.logout (.error error)))
  | _ => none

/-- One step. -/
def step : RestInput υ → Option (RestClient υ × List (RestNote υ))
  | .call call => some ({ c with calls := c.calls ++ [.begun call] },
      [.called c.calls.length call])
  | .go n => c.calls[n]?.bind (c.advance n)
  | .answerMe n answer => c.calls[n]?.bind (c.receiveMe n answer)
  | .answerLogin n answer => c.calls[n]?.bind (c.receiveLogin n answer)
  | .answerLogout n answer => c.calls[n]?.bind (c.receiveLogout n answer)
  | .drop n => c.calls[n]?.bind fun phase =>
      if phase.isOver then none else some (c.setPhase n .dropped, [])

end RestClient
end RocketSocket
