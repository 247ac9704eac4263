import RocketSocket.Framework.Roles

/-!
# Handler filters

`filter.rs` of `rocketsocket`: what a handler is not willing to hear, as far as the message
itself and the bot's own id tell.

## Main definitions

* `StreamMessage` — a message, with what the filters read of it.
* `Filters` — the filters a handler was declared with; `{}` is `DEFAULT`.
* `Filters.localVerdict` — the filters that need no network access.

## Main results

* `localVerdict_own` — **the loop guard**: a bot that knows its id does not hear itself.
* `others_of_localVerdict` — what a handler with the guard hears.
-/

namespace RocketSocket

/-- A message as a stream event carries it, with what the filters read of it. -/
structure StreamMessage where
  rid : RoomId
  /-- The id of its author. -/
  u : UserId
  msg : String
  t : Option MessageType := none
  /-- When it was edited, in nanoseconds since the Unix epoch. -/
  editedAt : Option ℤ := none
  /-- The ids mentioned; `all` and `here` stand among them as they are. -/
  mentions : Option (List String) := none
  deriving DecidableEq, Repr

namespace StreamMessage

/-- It is a system message: any message that carries a type. -/
def isSystem (message : StreamMessage) : Bool := message.t.isSome

/-- It was edited. -/
def isEdited (message : StreamMessage) : Bool := message.editedAt.isSome

end StreamMessage

/-- The filters a handler was declared with.  The flags say what to allow. -/
structure Filters where
  allowSelf : Bool := false
  allowSystem : Bool := false
  allowEdits : Bool := false
  /-- A no-op in either position. -/
  allowBots : Bool := false
  textPrefix : Option String := none
  room : Option String := none
  mentionsMe : Bool := false
  authority : Authority := .anyone
  deriving DecidableEq, Repr

namespace Filters

/-- The filters that need no network access: why the message is rejected, or `none`. -/
def localVerdict (filters : Filters) (message : StreamMessage) (room : RoomId)
    (me : Option UserId) : Option Filtered :=
  if !filters.allowSelf && me.any (message.u = ·) then some .ownEvent
  else if !filters.allowSystem && message.isSystem then some .systemMessage
  else if !filters.allowEdits && message.isEdited then some .edit
  else if filters.textPrefix.any (!message.msg.startsWith ·) then some .textPrefix
  else if filters.room.any (room.text ≠ ·) then some .room
  else if filters.mentionsMe && !me.any fun me => message.mentions.any (·.contains me.text) then
    some .notMentioned
  else none

variable {filters : Filters} {message : StreamMessage} {room : RoomId} {me : Option UserId}

/-- **The loop guard.**  A handler that did not ask for the bot's own events does not get them,
where the bot's id is known. -/
theorem localVerdict_own (hguard : filters.allowSelf = false) :
    filters.localVerdict message room (some message.u) = some .ownEvent := by
  simp [localVerdict, hguard]

/-- The filters but for the loop guard. -/
def others (filters : Filters) : Filters := { filters with allowSelf := true }

/-- **What passes is nobody's own event**: the other filters pass it as well, and it is not by
the user the bot takes itself for. -/
theorem others_of_localVerdict (hguard : filters.allowSelf = false)
    (hpass : filters.localVerdict message room me = none) :
    filters.others.localVerdict message room me = none ∧ me ≠ some message.u := by
  constructor
  · unfold localVerdict at hpass
    split at hpass
    · cases hpass
    · exact hpass
  · rintro rfl
    rw [localVerdict_own hguard] at hpass
    cases hpass

end Filters
end RocketSocket
