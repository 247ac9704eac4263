import RocketSocket.Lib.Table
import RocketSocket.Model.Timestamp

/-!
# Entities and their JSON documents

The rooms, users, subscriptions and messages of `rocketsocket-model`, with the two
directions of their serde encoding.  A member the rest of the code reads has a field of its
own; all others are kept under their wire names in a `Fields`.  What they hold is not read, but
for the dates: an instant outside of the years that milliseconds are read for is written all the
same, and an object that such a date is in does not decode.

## Main definitions

* `RoomId`, `UserId`, `MessageId`, `RoleId` — the typed ids.
* `Datum`, `Fields` — the value of a member, and the members without a field of their own.
* `Value.isLate`, `Object.late` — a date that is written but not read back, and an object with one.
* `Document` — the class of types with a JSON document: `to_value` and `from_value`.
* `Room`, `User`, `Subscription`, `Message` — the entities.
* `Message.isDeletedTombstone` — an edit that records a deletion.
-/

namespace RocketSocket

open Machine

/-! ### Ids -/

/-- The id of a room. -/
structure RoomId where
  text : String
  deriving DecidableEq, Repr, Inhabited

/-- The id of a user. -/
structure UserId where
  text : String
  deriving DecidableEq, Repr, Inhabited

/-- The id of a message. -/
structure MessageId where
  text : String
  deriving DecidableEq, Repr, Inhabited

/-- The id of a role. -/
structure RoleId where
  text : String
  deriving DecidableEq, Repr

/-! ### Members -/

/-- A JSON object, its members unordered. -/
abbrev Object := Table String Value

/-- The value is JSON `null`. -/
def Value.isNull : Value → Bool
  | .null => true
  | _ => false

/-- What a member of a document holds: the JSON serde writes for it, and what that writing
drops.  A timestamp is written in whole milliseconds; `lost` lists the nanoseconds dropped
from the timestamps inside the member, each with its place. -/
structure Datum where
  value : Value
  lost : List (List String × ℕ) := []

/-- No member is reserved where there is none, -/
theorem unreserved_empty (reserved : List String) :
    ∀ k ∈ reserved, (∅ : Table String Datum).lookup k = none :=
  fun k _ => Finmap.lookup_empty k

/-- or `null`. -/
theorem present_empty :
    ∀ k d, (∅ : Table String Datum).lookup k = some d → d.value.isNull = false := by
  intro k d hd
  rw [Finmap.lookup_empty] at hd
  simp at hd

/-- The members of a document that are present, by wire name, without the `reserved` ones.
An absent member and one that is `null` decode alike, so no member is `null`. -/
structure Fields (reserved : List String) where
  table : Table String Datum := ∅
  unreserved : ∀ k ∈ reserved, table.lookup k = none := by exact unreserved_empty _
  present : ∀ k d, table.lookup k = some d → d.value.isNull = false := by exact present_empty

/-- No members. -/
def Fields.empty {reserved : List String} : Fields reserved := {}

/-- The members as serde writes them. -/
def Fields.toObject {reserved : List String} (f : Fields reserved) : Object :=
  f.table.filterMap fun _ d => some d.value

/-- The members serde reads from an object; a timestamp it reads has whole milliseconds. -/
def Fields.ofObject (reserved : List String) (o : Object) : Fields reserved where
  table := o.filterMap fun k v => if k ∈ reserved ∨ v.isNull then none else some { value := v }
  unreserved := by
    intro k hk
    rw [Finmap.lookup_filterMap]
    cases o.lookup k <;> simp [hk]
  present := by
    intro k d hd
    rw [Finmap.lookup_filterMap, Option.bind_eq_some_iff] at hd
    obtain ⟨v, -, hv⟩ := hd
    by_cases hnull : v.isNull = true
    · simp [hnull] at hv
    · split at hv
      · cases hv
      · simpa [← Option.some.inj hv] using hnull

/-- Writes a member if there is one: a member that is `None` gets no key. -/
def Object.put (k : String) (v : Option Value) (o : Object) : Object :=
  match v with
  | some v => o.insert k v
  | none => o

/-- Reads a required string. -/
def Object.required (k : String) (o : Object) : Option String := (o.lookup k).bind Value.asStr

/-- Reads an optional member: `some none` if it is absent or `null`, and `none` if it does
not decode. -/
def Object.optional {α : Type} (k : String) (read : Value → Option α) (o : Object) :
    Option (Option α) :=
  match o.lookup k with
  | none => some none
  | some v => if v.isNull then some none else (read v).map some

/-! ### Dates -/

/-- A date as it is written, of an instant that is not read back. -/
def Value.isLate : Value → Bool
  | .object [(key, .int millis)] => key == "$date" && (Timestamp.fromUnixMillis millis).isNone
  | _ => false

/-- An object with such a date under one of the keys. -/
def Value.lateMember (keys : List String) : Value → Bool
  | .object members => keys.any fun key => (members.lookup key).any Value.isLate
  | _ => false

/-- A list with such an object in it. -/
def Value.lateEntry (keys : List String) : Value → Bool
  | .array items => items.any (Value.lateMember keys)
  | _ => false

/-- One of the members that hold dates holds one that is not read back. -/
def Object.late (dates : List (String × (Value → Bool))) (o : Object) : Bool :=
  dates.any fun date => (o.lookup date.1).any date.2

/-! ### Documents -/

/-- A type with a JSON document: what serde's `to_value` and `from_value` do for it. -/
class Document (T : Type) where
  /-- The object a value serializes to, if it serializes to one. -/
  toObject : T → Option Object
  /-- The value an object deserializes to. -/
  ofObject : Object → Option T

/-- A room. -/
structure Room where
  id : RoomId
  name : Option String := none
  rest : Fields ["_id", "name"] := .empty

/-- The keys of the dates of a message. -/
def Message.dateKeys : List String := ["_updatedAt", "ts", "editedAt", "tlm", "dlm", "pinnedAt"]

/-- The dates of a room, those of its last message among them. -/
def Room.dates : List (String × (Value → Bool)) :=
  [("_updatedAt", Value.isLate), ("lastMessage", Value.lateMember Message.dateKeys),
   ("lm", Value.isLate), ("ts", Value.isLate), ("webRtcCallStartTime", Value.isLate),
   ("queuedAt", Value.isLate)]

instance : Document Room where
  toObject r := some <|
    (r.rest.toObject.put "name" (r.name.map .string)).insert "_id" (.string r.id.text)
  ofObject o :=
    if o.late Room.dates then none
    else do
      let id ← o.required "_id"
      let name ← o.optional "name" Value.asStr
      return { id := ⟨id⟩, name := name, rest := .ofObject _ o }

/-- A user. -/
structure User where
  id : UserId
  username : Option String := none
  rest : Fields ["_id", "username"] := .empty

/-- The dates of a user. -/
def User.dates : List (String × (Value → Bool)) :=
  [("_updatedAt", Value.isLate), ("createdAt", Value.isLate), ("statusExpiresAt", Value.isLate),
   ("lastLogin", Value.isLate)]

instance : Document User where
  toObject u := some <|
    (u.rest.toObject.put "username" (u.username.map .string)).insert "_id" (.string u.id.text)
  ofObject o :=
    if o.late User.dates then none
    else do
      let id ← o.required "_id"
      let username ← o.optional "username" Value.asStr
      return { id := ⟨id⟩, username := username, rest := .ofObject _ o }

/-- A subscription, which the cache reads only the room of. -/
structure Subscription where
  rid : RoomId
  rest : Fields ["rid"] := .empty

/-- The dates of a subscription, those of the old keys of its room among them. -/
def Subscription.dates : List (String × (Value → Bool)) :=
  [("_updatedAt", Value.isLate), ("ts", Value.isLate), ("ls", Value.isLate),
   ("lr", Value.isLate), ("oldRoomKeys", Value.lateEntry ["ts"]),
   ("suggestedOldRoomKeys", Value.lateEntry ["ts"]), ("abacLastTimeChecked", Value.isLate)]

instance : Document Subscription where
  toObject s := some <| s.rest.toObject.insert "rid" (.string s.rid.text)
  ofObject o :=
    if o.late Subscription.dates then none
    else do
      let rid ← o.required "rid"
      return { rid := ⟨rid⟩, rest := .ofObject _ o }

/-- The type of a system message.  Of the values the crate knows only `rm` is told apart. -/
inductive MessageType where
  | rm
  | other (wire : String)
  deriving DecidableEq, Repr, Inhabited

/-- The wire value. -/
def MessageType.asStr : MessageType → String
  | .rm => "rm"
  | .other wire => wire

/-- Every string is a message type. -/
def MessageType.ofStr (wire : String) : MessageType := if wire = "rm" then .rm else .other wire

/-- A message. -/
structure Message where
  id : MessageId
  rid : RoomId
  t : Option MessageType := none
  editedAt : Option Datum := none
  rest : Fields ["_id", "rid", "t", "editedAt"] := .empty

/-- The dates of a message. -/
def Message.dates : List (String × (Value → Bool)) := Message.dateKeys.map (·, Value.isLate)

instance : Document Message where
  toObject m :=
    let o := m.rest.toObject.put "t" (m.t.map fun t => .string t.asStr)
    let o := o.put "editedAt" (m.editedAt.map (·.value))
    some <| (o.insert "rid" (.string m.rid.text)).insert "_id" (.string m.id.text)
  ofObject o :=
    if o.late Message.dates then none
    else do
      let id ← o.required "_id"
      let rid ← o.required "rid"
      let t ← o.optional "t" fun v => v.asStr.map MessageType.ofStr
      let editedAt ← o.optional "editedAt" fun v => some { value := v }
      return { id := ⟨id⟩, rid := ⟨rid⟩, t := t, editedAt := editedAt, rest := .ofObject _ o }

/-- The message was edited. -/
def Message.isEdited (m : Message) : Bool := m.editedAt.isSome

/-- The message is what a deletion left: an edit to the type `rm`. -/
def Message.isDeletedTombstone (m : Message) : Bool := m.isEdited && m.t == some .rm

end RocketSocket
