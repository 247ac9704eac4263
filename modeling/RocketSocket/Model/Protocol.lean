import Mathlib.Data.List.Infix
import Mathlib.Tactic.Common

/-!
# The DDP wire protocol

The frames of Rocket.Chat's JSON-over-websocket protocol, as decoded by
`rocketsocket-model`.  A frame is kept as its decoded form: the runner never looks
at the text again once it is read, and encoding a client frame cannot fail.

## Main definitions

* `Value` — a JSON value.
* `DdpError`, `ErrorCode` — the error object of a `result` or `nosub`.
* `ClientMessage`, `ServerMessage` — the frames of the two directions.
* `ServerMessage.isMalformed` — a modelled tag whose payload did not fit.
* `ServerMessage.asStreamEvent` — the stream event a `changed` frame carries.
-/

namespace RocketSocket

/-! ### JSON -/

/-- A JSON value.  A number is an integer or the bit pattern of a finite double. -/
inductive Value where
  | null
  | bool (b : Bool)
  | int (n : ℤ)
  | float (bits : UInt64)
  | string (s : String)
  | array (items : List Value)
  | object (members : List (String × Value))
  deriving Repr, Inhabited

/-- The members of a JSON object. -/
abbrev Members := List (String × Value)

/-- The string a value is, if it is one. -/
def Value.asStr : Value → Option String
  | .string s => some s
  | _ => none

/-- The array a value is, if it is one. -/
def Value.asArray : Value → Option (List Value)
  | .array items => some items
  | _ => none

/-! ### Errors -/

/-- A Meteor error code: a symbolic name or a bare number. -/
inductive ErrorCode where
  | number (code : ℤ)
  | string (code : String)
  deriving DecidableEq, Repr, Inhabited

/-- The text of a code. -/
def ErrorCode.toText : ErrorCode → String
  | .number code => toString code
  | .string code => code

/-- A Meteor error, as a `result` or `nosub` frame carries it. -/
structure DdpError where
  error : ErrorCode
  reason : Option String := none
  message : Option String := none
  errorType : Option String := none
  isClientSafe : Option Bool := none
  details : Option Value := none
  extra : Members := []
  deriving Repr, Inhabited

/-- `text` contains `pattern`. -/
def contains (text pattern : String) : Bool := decide (pattern.toList <:+: text.toList)

/-- Substring of the reason sent when the resume token was invalidated. -/
def reasonLoggedOut : String := "been logged out by the server"

/-- Substring of the reason sent when the resume token expired. -/
def reasonSessionExpired : String := "session has expired"

/-- The error says the resume token is dead. -/
def DdpError.isExpiredSession (e : DdpError) : Bool :=
  let isMatch text := contains text reasonLoggedOut || contains text reasonSessionExpired
  e.reason.any isMatch || e.message.any isMatch

/-! ### Frames of the client -/

/-- A frame sent by the client. -/
inductive ClientMessage where
  | connect (version : String) (support : List String)
  | method (id method : String) (params : List Value)
  | sub (id name : String) (params : List Value)
  | unsub (id : String)
  | ping (id : Option String)
  | pong (id : Option String)
  deriving Repr, Inhabited

/-- The only DDP version the server has ever accepted. -/
def ClientMessage.ddpVersion : String := "1"

/-- The standard opening handshake. -/
def ClientMessage.opening : ClientMessage :=
  .connect ClientMessage.ddpVersion [ClientMessage.ddpVersion]

/-! ### Frames of the server -/

/-- A frame the client does not recognise, kept whole. -/
structure UnknownMessage where
  msg : Option String
  rest : Members
  deriving Repr, Inhabited

/-- A frame received from the server. -/
inductive ServerMessage where
  | connected (session : String)
  | failed (version : String)
  | ping (id : Option String)
  | pong (id : Option String)
  | result (id : String) (result : Option Value) (error : Option DdpError)
  | updated (methods : List String)
  | nosub (id : String) (error : Option DdpError)
  | ready (subs : List String)
  | added (collection id : String) (fields : Option Members)
  | changed (collection id : String) (fields : Option Members) (cleared : Option (List String))
  | removed (collection id : String)
  | addedBefore (collection id : String) (fields : Option Members) (before : Option String)
  | movedBefore (collection id : String) (before : Option String)
  | error (reason : String) (offendingMessage : Option Value)
  | unknown (message : UnknownMessage)
  deriving Repr, Inhabited

/-- The tags `ServerMessage` models as typed variants. -/
def modelledTags : List String :=
  ["connected", "failed", "ping", "pong", "result", "updated", "nosub", "ready", "added",
    "changed", "removed", "addedBefore", "movedBefore", "error"]

/-- The frame names a modelled tag but did not decode as that variant. -/
def ServerMessage.isMalformed : ServerMessage → Bool
  | .unknown message => message.msg.any fun msg => modelledTags.contains msg
  | _ => false

/-- The stream event of a `changed` frame: its stream, its key and its arguments. -/
structure StreamFrame where
  stream : String
  eventName : String
  args : List Value

/-- The frame read as a stream event, if it is one. -/
def ServerMessage.asStreamEvent : ServerMessage → Option StreamFrame
  | .changed collection _ fields _ => do
    let stream ← collection.toList.dropPrefix? "stream-".toList
    let fields ← fields
    let eventName ← (← fields.lookup "eventName").asStr
    let args := ((fields.lookup "args").bind Value.asArray).getD []
    return ⟨String.ofList stream, eventName, args⟩
  | _ => none

example : (ServerMessage.changed "stream-notify-user" "id"
    (some [("args", .array []), ("eventName", .string "u1/message")]) none).asStreamEvent.map
      (fun e => (e.stream, e.eventName)) = some ("notify-user", "u1/message") := by decide

end RocketSocket
