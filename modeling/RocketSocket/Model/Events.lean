import RocketSocket.Model.Catalog
import RocketSocket.Model.Entity
import RocketSocket.Model.Frames

/-!
# Decoding stream events

`StreamEvent::decode` in `event.rs`: an event of a stream is decoded by the name of the stream,
the key of the event and the arguments, by position.  What does not decode is `unknown`, and
keeps all three.

The documents that serde reads from one argument are parameters: decoding only asks whether
they were read.

## Main definitions

* `Activity`, `ClientAction` — the enums of strings, which every string is read as.
* `Events.Payloads` — the documents that are read from an argument.
* `Events.StreamEvent` — the decoded events.
* `Events.opt`, `Events.req`, `Events.strAt`, `Events.stringsAt` — an argument by position.
* `Events.decode` — the decoder.
* `StreamEvent.declared` — the stream and the pattern of keys that an event is declared under.

## Main results

* `typed_upstream` — the events that are typed are in the catalog.
* `tryDecode_declaredFor` — what is decoded is declared under its stream and its key.
* `DeclaredFor.resolves` — what an event is declared in is the entry that its key resolves to.
* `decode_agrees` — **decoder and catalog agree on the keys.**
-/

namespace RocketSocket

/-! ### Enums of strings -/

/-- What a user is doing in a room. -/
inductive Activity where
  | userTyping
  | userRecording
  | userUploading
  | unknown (wire : String)
  deriving DecidableEq, Repr

/-- The activity a string stands for. -/
def Activity.ofWire : String → Activity
  | "user-typing" => userTyping
  | "user-recording" => userRecording
  | "user-uploading" => userUploading
  | other => unknown other

/-- What happened to a document. -/
inductive ClientAction where
  | inserted
  | updated
  | removed
  | changed
  | unknown (wire : String)
  deriving DecidableEq, Repr

/-- The action a string stands for. -/
def ClientAction.ofWire : String → ClientAction
  | "inserted" => inserted
  | "updated" => updated
  | "removed" => removed
  | "changed" => changed
  | other => unknown other

namespace Events

/-! ### Payloads -/

/-- A type that is read from one value. -/
class DeserializeOwned (T : Type) where
  /-- The value read, if it fits. -/
  deserialize : Value → Option T

instance : DeserializeOwned String := ⟨Value.asStr⟩

instance : DeserializeOwned ClientAction := ⟨fun value => value.asStr.map ClientAction.ofWire⟩

/-- The argument of `deleteMessage`. -/
structure DeletedMessage where
  id : MessageId
  deriving DecidableEq, Repr

/-- The fields of a struct are read by name from an object, and by place from an array. -/
instance : DeserializeOwned DeletedMessage where
  deserialize
    | .object o => (requireMember Value.asStr (o.lookup "_id")).map fun id => ⟨⟨id⟩⟩
    | .array [id] => id.asStr.map fun id => ⟨⟨id⟩⟩
    | _ => none

/-- The argument of `Users:NameChanged`. -/
structure NameChanged where
  id : UserId
  username : Option String
  name : Option String
  deriving DecidableEq, Repr

/-- Reads the fields. -/
def NameChanged.ofFields (id username name : Option Value) : Option NameChanged := do
  let id ← requireMember Value.asStr id
  let username ← optionalMember Value.asStr username
  let name ← optionalMember Value.asStr name
  return { id := ⟨id⟩, username := username, name := name }

instance : DeserializeOwned NameChanged where
  deserialize
    | .object o => NameChanged.ofFields (o.lookup "_id") (o.lookup "username") (o.lookup "name")
    | .array items =>
      if items.length ≤ 3 then NameChanged.ofFields items[0]? items[1]? items[2]? else none
    | _ => none

/-- The documents that are read from an argument. -/
structure Payloads where
  Message : Type
  MyMessageMeta : Type
  BulkDelete : Type
  DesktopNotification : Type
  Room : Type
  SubscriptionChange : Type
  UserDataEvent : Type
  PresenceStatus : Type
  PresenceSource : Type
  Timestamp : Type
  RoleChange : Type
  [message : DeserializeOwned Message]
  [myMessageMeta : DeserializeOwned MyMessageMeta]
  [bulkDelete : DeserializeOwned BulkDelete]
  [desktopNotification : DeserializeOwned DesktopNotification]
  [room : DeserializeOwned Room]
  [subscriptionChange : DeserializeOwned SubscriptionChange]
  [userDataEvent : DeserializeOwned UserDataEvent]
  [presenceStatus : DeserializeOwned PresenceStatus]
  [presenceSource : DeserializeOwned PresenceSource]
  [timestamp : DeserializeOwned Timestamp]
  [roleChange : DeserializeOwned RoleChange]
  /-- A message of which nothing more is known. -/
  [noMeta : Inhabited MyMessageMeta]

attribute [instance] Payloads.message Payloads.myMessageMeta Payloads.bulkDelete
  Payloads.desktopNotification Payloads.room Payloads.subscriptionChange Payloads.userDataEvent
  Payloads.presenceStatus Payloads.presenceSource Payloads.timestamp Payloads.roleChange
  Payloads.noMeta

variable {P : Payloads}

/-! ### Events -/

/-- A change of presence. -/
structure UserStatusChange (P : Payloads) where
  user : UserId
  username : Option String
  status : P.PresenceStatus
  statusText : Option String
  name : Option String
  roles : List RoleId
  statusSource : Option P.PresenceSource
  statusExpiresAt : Option P.Timestamp

/-- A decoded stream event. -/
inductive StreamEvent (P : Payloads) where
  | roomMessage (room : RoomId) (message : P.Message)
  | myMessage (message : P.Message) (metadata : P.MyMessageMeta)
  | userActivity (room : RoomId) (user : String) (activities : List Activity)
  | typing (room : RoomId) (user : String) (typing : Bool)
  | messageDeleted (room : RoomId) (message : MessageId)
  | messagesDeletedBulk (room : RoomId) (bulk : P.BulkDelete)
  | ephemeralMessage (user : UserId) (message : P.Message)
  | notification (user : UserId) (notification : P.DesktopNotification)
  | roomsChanged (user : UserId) (action : ClientAction) (room : P.Room)
  | subscriptionsChanged (user : UserId) (action : ClientAction)
      (subscription : P.SubscriptionChange)
  | userData (user : UserId) (event : P.UserDataEvent)
  | forceLogout (user : UserId) (session : Option String)
  | userStatusChanged (change : UserStatusChange P)
  | userNameChanged (user : UserId) (username name : Option String)
  | rolesChanged (change : P.RoleChange)
  /-- Whatever else, as it came. -/
  | unknown (stream event : String) (args : List Value)

namespace StreamEvent

/-- The event fell through. -/
def isUnknown : StreamEvent P → Bool
  | unknown .. => true
  | _ => false

/-- The stream and the pattern that the event is declared under. -/
def declared : StreamEvent P → Option (String × KeyPattern)
  | myMessage .. => some ("room-messages", .literal "__my_messages__")
  | roomMessage .. => some ("room-messages", .any)
  | userActivity .. => some ("notify-room", .suffix "user-activity")
  | typing .. => some ("notify-room", .suffix "typing")
  | messageDeleted .. => some ("notify-room", .suffix "deleteMessage")
  | messagesDeletedBulk .. => some ("notify-room", .suffix "deleteMessageBulk")
  | ephemeralMessage .. => some ("notify-user", .suffix "message")
  | notification .. => some ("notify-user", .suffix "notification")
  | roomsChanged .. => some ("notify-user", .suffix "rooms-changed")
  | subscriptionsChanged .. => some ("notify-user", .suffix "subscriptions-changed")
  | userData .. => some ("notify-user", .suffix "userData")
  | forceLogout .. => some ("notify-user", .suffix "force_logout")
  | userStatusChanged .. => some ("notify-logged", .literal "user-status")
  | userNameChanged .. => some ("notify-logged", .literal "Users:NameChanged")
  | rolesChanged .. => some ("notify-logged", .literal "roles-change")
  | unknown .. => none

end StreamEvent

/-! ### Arguments by position -/

section Arguments

variable {T : Type} [DeserializeOwned T]

/-- An argument that may be absent, or `null`; `none` if it is there but does not fit. -/
def opt (args : List Value) (index : ℕ) : Option (Option T) :=
  match args[index]? with
  | none | some .null => some none
  | some value => (DeserializeOwned.deserialize value).map some

/-- An argument that has to be there. -/
def req (args : List Value) (index : ℕ) : Option T := (opt args index).join

end Arguments

/-- A string that has to be there. -/
def strAt (args : List Value) (index : ℕ) : Option String := args[index]?.bind Value.asStr

/-- An array of strings that may be absent, or `null`; what is no string in it is skipped. -/
def stringsAt (args : List Value) (index : ℕ) : Option (List String) :=
  match args[index]? with
  | none | some .null => some []
  | some (.array items) => some (items.filterMap Value.asStr)
  | some _ => none

/-! ### The decoder -/

/-- Splits a key at its first slash; what is before it must not be empty. -/
def splitKey (eventName : String) : Option (String × String) :=
  (splitOnce '/' eventName).filter fun split => !split.1.isEmpty

/-- The events of `room-messages`. -/
def roomMessages (eventName : String) (args : List Value) : Option (StreamEvent P) :=
  if eventName = "__my_messages__" then do
    let message ← req args 0
    return .myMessage message ((opt args 1).join.getD default)
  else if eventName.isEmpty then none
  else do
    let message ← req args 0
    return .roomMessage ⟨eventName⟩ message

/-- The events of `notify-room`, by what follows the id of the room. -/
def roomEvent (room : RoomId) (key : String) (args : List Value) : Option (StreamEvent P) :=
  match key with
  | "user-activity" => do
    let user ← strAt args 0
    let activities ← stringsAt args 1
    return .userActivity room user (activities.map Activity.ofWire)
  | "typing" => do
    let user ← strAt args 0
    let typing ← args[1]?.bind Value.asBool
    return .typing room user typing
  | "deleteMessage" => do
    let deleted : DeletedMessage ← req args 0
    return .messageDeleted room deleted.id
  | "deleteMessageBulk" => do
    let bulk ← req args 0
    return .messagesDeletedBulk room bulk
  | _ => none

/-- An event of `notify-room`, whose key begins with the id of the room. -/
def notifyRoom (eventName : String) (args : List Value) : Option (StreamEvent P) :=
  (splitKey eventName).bind fun split => roomEvent ⟨split.1⟩ split.2 args

/-- The events of `notify-user`, by what follows the id of the user. -/
def userEvent (user : UserId) (key : String) (args : List Value) : Option (StreamEvent P) :=
  match key with
  | "message" => do
    let message ← req args 0
    return .ephemeralMessage user message
  | "notification" => do
    let notification ← req args 0
    return .notification user notification
  | "rooms-changed" => do
    let action ← req args 0
    let room ← req args 1
    return .roomsChanged user action room
  | "subscriptions-changed" => do
    let action ← req args 0
    let subscription ← req args 1
    return .subscriptionsChanged user action subscription
  | "userData" => do
    let event ← req args 0
    return .userData user event
  | "force_logout" => do
    let session ← opt args 0
    return .forceLogout user session
  | _ => none

/-- An event of `notify-user`, whose key begins with the id of the user. -/
def notifyUser (eventName : String) (args : List Value) : Option (StreamEvent P) :=
  (splitKey eventName).bind fun split => userEvent ⟨split.1⟩ split.2 args

/-- The tuple of `user-status`. -/
def userStatus (tuple : List Value) : Option (UserStatusChange P) := do
  let user ← strAt tuple 0
  if user.isEmpty then none
  else
    let username ← opt tuple 1
    let status ← req tuple 2
    let statusText ← opt tuple 3
    let name ← opt tuple 4
    let roles ← stringsAt tuple 5
    let statusSource ← opt tuple 6
    let statusExpiresAt ← opt tuple 7
    return {
      user := ⟨user⟩
      username := username
      status := status
      statusText := statusText
      name := name
      roles := roles.map RoleId.mk
      statusSource := statusSource
      statusExpiresAt := statusExpiresAt }

/-- The events of `notify-logged`. -/
def notifyLogged (eventName : String) (args : List Value) : Option (StreamEvent P) :=
  match eventName with
  | "user-status" => do
    let tuple ← args.head?.bind Value.asArray
    let change ← userStatus tuple
    return .userStatusChanged change
  | "Users:NameChanged" => do
    let changed : NameChanged ← req args 0
    return .userNameChanged changed.id changed.username changed.name
  | "roles-change" => do
    let change ← req args 0
    return .rolesChanged change
  | _ => none

/-- The attempt to decode. -/
def tryDecode (stream eventName : String) (args : List Value) : Option (StreamEvent P) :=
  match stripStream stream with
  | "room-messages" => roomMessages eventName args
  | "notify-room" => notifyRoom eventName args
  | "notify-user" => notifyUser eventName args
  | "notify-logged" => notifyLogged eventName args
  | _ => none

/-- Decodes an event.  It never fails. -/
def decode (stream eventName : String) (args : List Value) : StreamEvent P :=
  (tryDecode stream eventName args).getD (.unknown stream eventName args)

example : decode "stream-notify-room" "GENERAL/typing" [.string "alice", .bool true] =
    (.typing ⟨"GENERAL"⟩ "alice" true : StreamEvent P) := by rfl

variable {stream key : String} {args : List Value} {e : StreamEvent P}

/-! ### What is declared -/

/-- The streams and patterns that the events are declared under. -/
def typed : List (String × KeyPattern) := [
  ("room-messages", .literal "__my_messages__"),
  ("room-messages", .any),
  ("notify-room", .suffix "user-activity"),
  ("notify-room", .suffix "typing"),
  ("notify-room", .suffix "deleteMessage"),
  ("notify-room", .suffix "deleteMessageBulk"),
  ("notify-user", .suffix "message"),
  ("notify-user", .suffix "notification"),
  ("notify-user", .suffix "rooms-changed"),
  ("notify-user", .suffix "subscriptions-changed"),
  ("notify-user", .suffix "userData"),
  ("notify-user", .suffix "force_logout"),
  ("notify-logged", .literal "user-status"),
  ("notify-logged", .literal "Users:NameChanged"),
  ("notify-logged", .literal "roles-change")]

theorem StreamEvent.mem_typed {d : String × KeyPattern} (hd : e.declared = some d) :
    d ∈ typed := by
  cases e <;> cases hd <;> decide

/-- What is typed is still in the catalog. -/
theorem typed_upstream : ∀ d ∈ typed, ∃ spec ∈ Catalog.streams, spec.name = d.1 ∧
    ∃ entry ∈ spec.events, entry.key = d.2 := by decide

theorem StreamEvent.declared_eq_none : e.declared = none ↔ e.isUnknown = true := by
  cases e <;> simp [declared, isUnknown]

/-! ### What is decoded -/

/-- Whatever event there is, it is declared under `d`. -/
def Declares (d : String × KeyPattern) (event : Option (StreamEvent P)) : Prop :=
  ∀ e, event = some e → e.declared = some d

section Declares

variable {d : String × KeyPattern} {α : Type}

theorem declares_none : Declares d (none : Option (StreamEvent P)) := by
  intro e he
  cases he

theorem declares_pure (he : e.declared = some d) : Declares d (pure e) := by
  intro e' he'
  obtain rfl := Option.some.inj he'
  exact he

theorem declares_bind {o : Option α} {f : α → Option (StreamEvent P)}
    (hf : ∀ a, Declares d (f a)) : Declares d (o >>= f) := by
  intro e he
  obtain ⟨a, -, ha⟩ := Option.bind_eq_some_iff.1 he
  exact hf a e ha

end Declares

theorem roomMessages_declares : Declares ("room-messages",
    if key = "__my_messages__" then .literal "__my_messages__" else .any)
    (roomMessages key args : Option (StreamEvent P)) := by
  rw [roomMessages]
  by_cases hkey : key = "__my_messages__"
  · rw [if_pos hkey, if_pos hkey]
    exact declares_bind fun message => declares_pure rfl
  · rw [if_neg hkey, if_neg hkey]
    split
    · exact declares_none
    · exact declares_bind fun message => declares_pure rfl

theorem roomEvent_declares {room : RoomId} : Declares ("notify-room", .suffix key)
    (roomEvent room key args : Option (StreamEvent P)) := by
  unfold roomEvent
  split
  · exact declares_bind fun user => declares_bind fun activities => declares_pure rfl
  · exact declares_bind fun user => declares_bind fun typing => declares_pure rfl
  · exact declares_bind fun deleted => declares_pure rfl
  · exact declares_bind fun bulk => declares_pure rfl
  · exact declares_none

theorem userEvent_declares {user : UserId} : Declares ("notify-user", .suffix key)
    (userEvent user key args : Option (StreamEvent P)) := by
  unfold userEvent
  split
  · exact declares_bind fun message => declares_pure rfl
  · exact declares_bind fun notification => declares_pure rfl
  · exact declares_bind fun action => declares_bind fun room => declares_pure rfl
  · exact declares_bind fun action => declares_bind fun subscription => declares_pure rfl
  · exact declares_bind fun event => declares_pure rfl
  · exact declares_bind fun session => declares_pure rfl
  · exact declares_none

theorem notifyLogged_declares : Declares ("notify-logged", .literal key)
    (notifyLogged key args : Option (StreamEvent P)) := by
  unfold notifyLogged
  split
  · exact declares_bind fun tuple => declares_bind fun change => declares_pure rfl
  · exact declares_bind fun changed => declares_pure rfl
  · exact declares_bind fun change => declares_pure rfl
  · exact declares_none

/-- What the two splits of a key have in common. -/
theorem matchesKey_of_splitKey {split : String × String} (hsplit : splitKey key = some split) :
    (KeyPattern.suffix split.2).matchesKey key = true := by
  rw [splitKey, Option.filter_eq_some_iff] at hsplit
  exact KeyPattern.matchesKey_suffix.2
    ⟨split.1, by simpa using hsplit.2, splitOnce_eq_some.1 hsplit.1⟩

/-- An event is declared under a pattern that its key matches; the pattern for every key gives
way to `__my_messages__`. -/
def StreamEvent.DeclaredFor (stream key : String) (e : StreamEvent P) : Prop := ∃ pattern,
  e.declared = some (stream, pattern) ∧ pattern.matchesKey key = true ∧
    (pattern = .any → key ≠ "__my_messages__")

theorem roomMessages_declaredFor (he : roomMessages key args = some e) :
    e.DeclaredFor "room-messages" key := by
  have hdeclared := roomMessages_declares e he
  by_cases hkey : key = "__my_messages__"
  · rw [if_pos hkey] at hdeclared
    refine ⟨_, hdeclared, ?_, ?_⟩
    · exact beq_iff_eq.2 hkey
    · intro hany
      cases hany
  · rw [if_neg hkey] at hdeclared
    exact ⟨_, hdeclared, rfl, fun _ => hkey⟩

theorem notifyRoom_declaredFor (he : notifyRoom key args = some e) :
    e.DeclaredFor "notify-room" key := by
  obtain ⟨split, hsplit, he⟩ := Option.bind_eq_some_iff.1 he
  refine ⟨_, roomEvent_declares e he, matchesKey_of_splitKey hsplit, ?_⟩
  intro hany
  cases hany

theorem notifyUser_declaredFor (he : notifyUser key args = some e) :
    e.DeclaredFor "notify-user" key := by
  obtain ⟨split, hsplit, he⟩ := Option.bind_eq_some_iff.1 he
  refine ⟨_, userEvent_declares e he, matchesKey_of_splitKey hsplit, ?_⟩
  intro hany
  cases hany

theorem notifyLogged_declaredFor (he : notifyLogged key args = some e) :
    e.DeclaredFor "notify-logged" key := by
  refine ⟨_, notifyLogged_declares e he, ?_, ?_⟩
  · exact beq_self_eq_true key
  · intro hany
    cases hany

/-- **What is decoded is declared** under its stream and its key. -/
theorem tryDecode_declaredFor (he : tryDecode stream key args = some e) :
    e.DeclaredFor (stripStream stream) key := by
  unfold tryDecode at he
  split at he
  · rename_i hstream
    rw [hstream]
    exact roomMessages_declaredFor he
  · rename_i hstream
    rw [hstream]
    exact notifyRoom_declaredFor he
  · rename_i hstream
    rw [hstream]
    exact notifyUser_declaredFor he
  · rename_i hstream
    rw [hstream]
    exact notifyLogged_declaredFor he
  · cases he

/-! ### Decoder and catalog -/

/-- Only `room-messages` has a typed event that is declared under every key. -/
theorem events_of_any : ∀ d ∈ typed, d.2 = .any → ∀ spec ∈ Catalog.streams, spec.name = d.1 →
    spec.events = [⟨.literal "__my_messages__", [1], false⟩, ⟨.any, [1, 2, 3], false⟩] := by
  decide

/-- **What an event is declared in** is the entry that its key resolves to. -/
theorem StreamEvent.DeclaredFor.resolves (he : e.DeclaredFor (stripStream stream) key) :
    ∃ spec entry, Catalog.stream stream = some spec ∧ Catalog.event stream key = some entry ∧
      e.declared = some (spec.name, entry.key) := by
  obtain ⟨pattern, hdeclared, hmatches, hany⟩ := he
  have htyped := e.mem_typed hdeclared
  obtain ⟨spec, hspec, hname, entry, hentry, rfl⟩ := typed_upstream _ htyped
  have hstream := Catalog.stream_eq_some_iff.2 ⟨hspec, hname⟩
  refine ⟨spec, entry, hstream, ?_, by rw [hdeclared, hname]⟩
  rw [Catalog.event, hstream]
  refine (Catalog.event_eq_some_iff hspec).2 ⟨hentry, hmatches, ?_⟩
  intro hkey other hother hmatch
  have hevents := events_of_any _ htyped hkey spec hspec hname
  rw [hevents, List.mem_pair] at hentry hother
  obtain rfl | rfl := hentry
  · cases hkey
  · obtain rfl | rfl := hother
    · -- the entry before it is not for this key
      exact absurd (beq_iff_eq.1 hmatch) (hany hkey)
    · rfl

/-- What decoding yields: an event that was decoded, or what was passed. -/
theorem decode_cases (P : Payloads) (stream key : String) (args : List Value) :
    (∃ e : StreamEvent P, tryDecode stream key args = some e ∧
      decode stream key args = e ∧ e.isUnknown = false) ∨
    decode stream key args = (.unknown stream key args : StreamEvent P) := by
  cases he : (tryDecode stream key args : Option (StreamEvent P)) with
  | none => exact .inr (by rw [decode, he, Option.getD_none])
  | some e =>
    obtain ⟨pattern, hdeclared, -, -⟩ := tryDecode_declaredFor he
    refine .inl ⟨e, rfl, by rw [decode, he, Option.getD_some], ?_⟩
    rw [Bool.eq_false_iff, ne_eq, ← StreamEvent.declared_eq_none, hdeclared]
    exact Option.some_ne_none _

/-- **The two agree on a key.** -/
structure Agrees (P : Payloads) (stream key : String) (args : List Value) : Prop where
  /-- What is decoded is an event that is declared in the entry the key resolves to. -/
  resolves : (decode stream key args : StreamEvent P).isUnknown = false →
    ∃ spec entry, Catalog.stream stream = some spec ∧ Catalog.event stream key = some entry ∧
      (decode stream key args : StreamEvent P).declared = some (spec.name, entry.key) ∧
      ∀ other ∈ spec.events, other.key = entry.key → other = entry
  /-- A key without an entry is not decoded, -/
  undeclared : Catalog.event stream key = none →
    decode stream key args = (.unknown stream key args : StreamEvent P)
  /-- nor is one whose entry no event is declared in. -/
  untyped : ∀ spec entry, Catalog.stream stream = some spec →
    Catalog.event stream key = some entry →
    (∀ e : StreamEvent P, e.declared ≠ some (spec.name, entry.key)) →
    decode stream key args = (.unknown stream key args : StreamEvent P)
  /-- What is not decoded is kept as it was passed. -/
  kept : ∀ stream' key' args',
    decode stream key args = (.unknown stream' key' args' : StreamEvent P) →
    stream' = stream ∧ key' = key ∧ args' = args

/-- **Decoder and catalog agree on the keys.** -/
theorem decode_agrees (P : Payloads) (stream key : String) (args : List Value) :
    Agrees P stream key args := by
  obtain ⟨e, he, hdecode, hknown⟩ | hdecode := decode_cases P stream key args
  · -- The event was decoded, or it is kept as it came.
    obtain ⟨spec, entry, hstream, hevent, hdeclared⟩ := (tryDecode_declaredFor he).resolves
    constructor
    case resolves =>
      intro _
      refine ⟨spec, entry, hstream, hevent, hdecode ▸ hdeclared, fun other hother hkey => ?_⟩
      -- The keys of a stream are distinct, so no other entry matches.
      have hspec := (Catalog.stream_eq_some_iff.1 hstream).1
      have hentry := Catalog.mem_of_event hstream hevent
      exact List.inj_on_of_nodup_map (Catalog.keys_nodup spec hspec) hother hentry hkey
    case undeclared =>
      intro hnone
      rw [hevent] at hnone
      cases hnone
    case untyped =>
      intro spec' entry' hstream' hevent' hnone
      obtain rfl : spec = spec' := Option.some.inj (hstream.symm.trans hstream')
      obtain rfl : entry = entry' := Option.some.inj (hevent.symm.trans hevent')
      exact absurd hdeclared (hnone e)
    case kept =>
      intro stream' key' args' hunknown
      rw [hdecode] at hunknown
      rw [hunknown] at hknown
      cases hknown
  · constructor
    case resolves =>
      intro hknown
      rw [hdecode] at hknown
      cases hknown
    case undeclared => exact fun _ => hdecode
    case untyped => exact fun _ _ _ _ _ => hdecode
    case kept =>
      intro stream' key' args' hunknown
      rw [hdecode] at hunknown
      cases hunknown
      exact ⟨rfl, rfl, rfl⟩

end Events

end RocketSocket
