import RocketSocket.Lib.TaggedUnion
import RocketSocket.Model.Protocol

/-!
# Decoding the frames of the server

`ServerMessage` in `protocol.rs`: a union tagged by `msg`, with a last variant that has no tag
and takes every object.  serde reads the object into a buffer first, and then tries the tagged
variants.  A buffered tag is taken for the name of a variant if it is a string, and for the
place of a variant if it is a whole number that is not negative.

Members a variant has no field for are dropped; an error keeps them.

## Main definitions

* `requireMember`, `optionalMember`, `defaultMember`, `structFields` — how serde reads a struct.
* `DdpError.ofValue`, `DdpError.toValue` — the error object.
* `ServerMessage.variants` — the tagged variants and their fields.
* `ServerMessage.decode`, `ServerMessage.toObject` — the frame read and written.
* `ServerMessage.Canonical` — the frames that decoding yields.

## Main results

* `canonical_of_decode` — what is decoded is canonical.
* `decode_toObject` — **a canonical frame is decoded from what it is encoded to.**
-/

namespace RocketSocket

open TaggedUnion

/-! ### Values -/

/-- A `bool`. -/
def Value.asBool : Value → Option Bool
  | .bool b => some b
  | _ => none

/-- The members of an object. -/
def Value.asMembers : Value → Option Members
  | .object members => some members
  | _ => none

/-- A list of strings. -/
def Value.asStrings : Value → Option (List String)
  | .array items => items.mapM Value.asStr
  | _ => none

/-- A member that has to be there. -/
def requireMember {α : Type} (read : Value → Option α) (value : Option Value) : Option α :=
  value.bind read

/-- A member that may be left out, or `null`. -/
def optionalMember {α : Type} (read : Value → Option α) : Option Value → Option (Option α)
  | none | some .null => some none
  | some value => (read value).map some

/-- The fields of a struct: by name from an object that has none of them twice, by place from
an array. -/
def structFields (names : List String) : Value → Option (String → Option Value)
  | .object members =>
    if ∀ name ∈ names, (members.map Prod.fst).count name ≤ 1 then
      some fun name => members.lookup name
    else none
  | .array items =>
    if items.length ≤ names.length then some fun name => items[names.idxOf name]? else none
  | _ => none

/-- A member that has a default, and must not be `null`. -/
def defaultMember {α : Type} (read : Value → Option α) (default : α) : Option Value → Option α
  | none => some default
  | some value => read value

/-- A list of what is read from each item. -/
def Value.asListOf {α : Type} (read : Value → Option α) (value : Value) : Option (List α) :=
  value.asArray.bind fun items => items.mapM read

/-! ### Errors -/

/-- A code: a number that fits 64 bits, or a string. -/
def ErrorCode.ofValue : Value → Option ErrorCode
  | .int n =>
    if -9223372036854775808 ≤ n ∧ n ≤ 9223372036854775807 then some (.number n) else none
  | .string s => some (.string s)
  | _ => none

/-- How a code is written. -/
def ErrorCode.toValue : ErrorCode → Value
  | .number code => .int code
  | .string code => .string code

namespace DdpError

/-- The keys that have a field of their own. -/
def known : List String := ["error", "reason", "message", "errorType", "isClientSafe", "details"]

/-- Reads an error; what has no field of its own is kept. -/
def ofValue : Value → Option DdpError
  | .object o => do
    let error ← requireMember ErrorCode.ofValue (o.lookup "error")
    let reason ← optionalMember Value.asStr (o.lookup "reason")
    let message ← optionalMember Value.asStr (o.lookup "message")
    let errorType ← optionalMember Value.asStr (o.lookup "errorType")
    let isClientSafe ← optionalMember Value.asBool (o.lookup "isClientSafe")
    let details ← optionalMember some (o.lookup "details")
    return {
      error := error
      reason := reason
      message := message
      errorType := errorType
      isClientSafe := isClientSafe
      details := details
      extra := o.filter fun member => member.1 ∉ known }
  | _ => none

/-- The fields that are written. -/
def fields (e : DdpError) : List (String × Option Value) :=
  [("error", some e.error.toValue), ("reason", e.reason.map .string),
    ("message", e.message.map .string), ("errorType", e.errorType.map .string),
    ("isClientSafe", e.isClientSafe.map .bool), ("details", e.details)]

/-- Writes an error. -/
def toValue (e : DdpError) : Value := .object (present e.fields ++ e.extra)

end DdpError

/-! ### Frames -/

/-- Every object is read; a `msg` that is no string stays where it is. -/
def UnknownMessage.ofObject (o : Members) : UnknownMessage :=
  match o.lookup "msg" with
  | some (.string msg) => ⟨some msg, without "msg" o⟩
  | _ => ⟨none, o⟩

namespace ServerMessage

/-! #### The fields of each variant that has a tag -/

/-- The handshake was accepted. -/
def readConnected (o : Members) : Option ServerMessage := do
  let session ← requireMember Value.asStr (o.lookup "session")
  return .connected session

/-- The version was refused; the server names the one it speaks. -/
def readFailed (o : Members) : Option ServerMessage := do
  let version ← requireMember Value.asStr (o.lookup "version")
  return .failed version

/-- A ping of the server. -/
def readPing (o : Members) : Option ServerMessage := do
  let id ← optionalMember Value.asStr (o.lookup "id")
  return .ping id

/-- The answer to a ping. -/
def readPong (o : Members) : Option ServerMessage := do
  let id ← optionalMember Value.asStr (o.lookup "id")
  return .pong id

/-- What a method call came to. -/
def readResult (o : Members) : Option ServerMessage := do
  let id ← requireMember Value.asStr (o.lookup "id")
  let result ← optionalMember some (o.lookup "result")
  let error ← optionalMember DdpError.ofValue (o.lookup "error")
  return .result id result error

/-- The writes of these methods are visible. -/
def readUpdated (o : Members) : Option ServerMessage := do
  let methods ← requireMember Value.asStrings (o.lookup "methods")
  return .updated methods

/-- A subscription was refused, or has ended. -/
def readNosub (o : Members) : Option ServerMessage := do
  let id ← requireMember Value.asStr (o.lookup "id")
  let error ← optionalMember DdpError.ofValue (o.lookup "error")
  return .nosub id error

/-- These subscriptions are live. -/
def readReady (o : Members) : Option ServerMessage := do
  let subs ← requireMember Value.asStrings (o.lookup "subs")
  return .ready subs

/-- A document entered a collection. -/
def readAdded (o : Members) : Option ServerMessage := do
  let collection ← requireMember Value.asStr (o.lookup "collection")
  let id ← requireMember Value.asStr (o.lookup "id")
  let fields ← optionalMember Value.asMembers (o.lookup "fields")
  return .added collection id fields

/-- A document of a collection changed. -/
def readChanged (o : Members) : Option ServerMessage := do
  let collection ← requireMember Value.asStr (o.lookup "collection")
  let id ← requireMember Value.asStr (o.lookup "id")
  let fields ← optionalMember Value.asMembers (o.lookup "fields")
  let cleared ← optionalMember Value.asStrings (o.lookup "cleared")
  return .changed collection id fields cleared

/-- A document left a collection. -/
def readRemoved (o : Members) : Option ServerMessage := do
  let collection ← requireMember Value.asStr (o.lookup "collection")
  let id ← requireMember Value.asStr (o.lookup "id")
  return .removed collection id

/-- A document entered an ordered collection. -/
def readAddedBefore (o : Members) : Option ServerMessage := do
  let collection ← requireMember Value.asStr (o.lookup "collection")
  let id ← requireMember Value.asStr (o.lookup "id")
  let fields ← optionalMember Value.asMembers (o.lookup "fields")
  let before ← optionalMember Value.asStr (o.lookup "before")
  return .addedBefore collection id fields before

/-- A document of an ordered collection moved. -/
def readMovedBefore (o : Members) : Option ServerMessage := do
  let collection ← requireMember Value.asStr (o.lookup "collection")
  let id ← requireMember Value.asStr (o.lookup "id")
  let before ← optionalMember Value.asStr (o.lookup "before")
  return .movedBefore collection id before

/-- The server rejected a frame. -/
def readError (o : Members) : Option ServerMessage := do
  let reason ← requireMember Value.asStr (o.lookup "reason")
  let offendingMessage ← optionalMember some (o.lookup "offendingMessage")
  return .error reason offendingMessage

/-- The variants that have a tag, in the order of the source. -/
def variants : List (Variant Value ServerMessage) :=
  [⟨"connected", readConnected⟩, ⟨"failed", readFailed⟩, ⟨"ping", readPing⟩,
    ⟨"pong", readPong⟩, ⟨"result", readResult⟩, ⟨"updated", readUpdated⟩,
    ⟨"nosub", readNosub⟩, ⟨"ready", readReady⟩, ⟨"added", readAdded⟩,
    ⟨"changed", readChanged⟩, ⟨"removed", readRemoved⟩, ⟨"addedBefore", readAddedBefore⟩,
    ⟨"movedBefore", readMovedBefore⟩, ⟨"error", readError⟩]

/-- How a buffered tag is read. -/
def identify : Value → Option Identifier
  | .string msg => some (.name msg)
  | .int n => if 0 ≤ n then some (.index n.toNat) else none
  | _ => none

/-- The union. -/
def union : TaggedUnion Value ServerMessage where
  key := "msg"
  identify := identify
  variants := variants
  catchAll := fun o => some (.unknown (.ofObject o))

/-- Reads a frame. -/
def decode (o : Members) : Option ServerMessage := union.read o

/-- The tag of a variant that has one. -/
def tag : ServerMessage → Option String
  | .connected _ => some "connected"
  | .failed _ => some "failed"
  | .ping _ => some "ping"
  | .pong _ => some "pong"
  | .result .. => some "result"
  | .updated _ => some "updated"
  | .nosub .. => some "nosub"
  | .ready _ => some "ready"
  | .added .. => some "added"
  | .changed .. => some "changed"
  | .removed .. => some "removed"
  | .addedBefore .. => some "addedBefore"
  | .movedBefore .. => some "movedBefore"
  | .error .. => some "error"
  | .unknown _ => none

/-- The other fields that are written. -/
def fields : ServerMessage → List (String × Option Value)
  | .connected session => [("session", some (.string session))]
  | .failed version => [("version", some (.string version))]
  | .ping id | .pong id => [("id", id.map .string)]
  | .result id value failure =>
    [("id", some (.string id)), ("result", value), ("error", failure.map DdpError.toValue)]
  | .updated methods => [("methods", some (.array (methods.map .string)))]
  | .nosub id failure => [("id", some (.string id)), ("error", failure.map DdpError.toValue)]
  | .ready subs => [("subs", some (.array (subs.map .string)))]
  | .added collection id fields =>
    [("collection", some (.string collection)), ("id", some (.string id)),
      ("fields", fields.map .object)]
  | .changed collection id fields cleared =>
    [("collection", some (.string collection)), ("id", some (.string id)),
      ("fields", fields.map .object), ("cleared", cleared.map fun c => .array (c.map .string))]
  | .removed collection id =>
    [("collection", some (.string collection)), ("id", some (.string id))]
  -- `before` is written even when there is none
  | .addedBefore collection id fields before =>
    [("collection", some (.string collection)), ("id", some (.string id)),
      ("fields", fields.map .object), ("before", some ((before.map .string).getD .null))]
  | .movedBefore collection id before =>
    [("collection", some (.string collection)), ("id", some (.string id)),
      ("before", some ((before.map .string).getD .null))]
  | .error reason offendingMessage =>
    [("reason", some (.string reason)), ("offendingMessage", offendingMessage)]
  | .unknown _ => []

/-- Writes a frame. -/
def toObject : ServerMessage → Members
  | .unknown message => present [("msg", message.msg.map .string)] ++ message.rest
  | m => present (("msg", m.tag.map .string) :: m.fields)

end ServerMessage

/-! ### Reading what was written -/

section Members

variable {β : Type} {read : Value → Option β} {write : β → Value} {value : Option Value} {b : β}

theorem requireMember_eq_some :
    requireMember read value = some b ↔ ∃ v, value = some v ∧ read v = some b :=
  Option.bind_eq_some_iff

theorem optionalMember_eq_some (h : optionalMember read value = some (some b)) :
    ∃ v, v ≠ .null ∧ read v = some b := by
  unfold optionalMember at h
  split at h
  · cases h
  · cases h
  · next v hnull =>
    obtain ⟨b', hb, hb'⟩ := Option.map_eq_some_iff.1 h
    obtain rfl := Option.some.inj hb'
    exact ⟨v, hnull, hb⟩

/-- A member read as it is is not `null`. -/
theorem ne_null_of_optionalMember {r : Option Value}
    (h : optionalMember some value = some r) : r ≠ some .null := by
  rintro rfl
  obtain ⟨v, hv, heq⟩ := optionalMember_eq_some h
  exact hv (Option.some.inj heq)

theorem optionalMember_self {r : Option Value} (hr : r ≠ some .null) :
    optionalMember some r = some r := by
  unfold optionalMember
  split
  · rfl
  · exact absurd rfl hr
  · rfl

/-- An optional member that is written is read again. -/
theorem optionalMember_map {x : Option β} (hread : ∀ b ∈ x, read (write b) = some b)
    (hwrite : ∀ b, write b ≠ .null) : optionalMember read (x.map write) = some x := by
  cases x with
  | none => rfl
  | some b =>
    rw [Option.map_some]
    unfold optionalMember
    split
    · next heq => cases heq
    · next heq => exact absurd (Option.some.inj heq) (hwrite b)
    · next v hv heq =>
      rw [← Option.some.inj heq, hread b rfl]
      rfl

/-- A nullable member that is written is read again. -/
theorem optionalMember_getD_null {x : Option String} :
    optionalMember Value.asStr (some ((x.map .string).getD .null)) = some x := by
  cases x <;> rfl

theorem optionalMember_string {x : Option String} :
    optionalMember Value.asStr (x.map .string) = some x := by
  cases x <;> rfl

theorem optionalMember_bool {x : Option Bool} :
    optionalMember Value.asBool (x.map .bool) = some x := by
  cases x <;> rfl

theorem asStrings_map (l : List String) : (Value.array (l.map .string)).asStrings = some l := by
  change (l.map Value.string).mapM Value.asStr = some l
  induction l with
  | nil => rfl
  | cons s l ih =>
    rw [List.map_cons, List.mapM_cons, ih]
    rfl

end Members

namespace DdpError

/-- An error as it is read: what has a field of its own is not kept besides. -/
structure Canonical (e : DdpError) : Prop where
  error : ErrorCode.ofValue e.error.toValue = some e.error
  details : e.details ≠ some .null
  extra : ∀ member ∈ e.extra, member.1 ∉ known

theorem canonical_of_ofValue {v : Value} {e : DdpError} (h : ofValue v = some e) :
    e.Canonical := by
  cases v with
  | object o =>
    simp only [ofValue, Option.bind_eq_bind, Option.bind_eq_some_iff, Option.pure_def,
      Option.some.injEq] at h
    obtain ⟨code, hcode, _, -, _, -, _, -, _, -, details, hdetails, rfl⟩ := h
    refine ⟨?_, ne_null_of_optionalMember hdetails, fun member hmember => ?_⟩
    · obtain ⟨v, -, hv⟩ := requireMember_eq_some.1 hcode
      cases v with
      | int n =>
        simp only [ErrorCode.ofValue] at hv
        split_ifs at hv with hn
        obtain rfl := Option.some.inj hv
        exact if_pos hn
      | string s =>
        obtain rfl := Option.some.inj hv
        rfl
      | null | bool | float | array | object => cases hv
    · simpa using (List.mem_filter.1 hmember).2
  | null | bool | int | float | string | array => cases h

theorem keys_fields (e : DdpError) : e.fields.map Prod.fst = known := rfl

theorem lookup_toValue {e : DdpError} (hc : e.Canonical) {k : String} (hk : k ∈ known) :
    (present e.fields ++ e.extra).lookup k = (e.fields.lookup k).join := by
  have hextra : e.extra.lookup k = none := by
    refine List.lookup_eq_none_iff.2 fun member hmember => bne_iff_ne.2 ?_
    rintro rfl
    exact hc.extra member hmember hk
  rw [List.lookup_append, hextra, Option.or_none,
    lookup_present (by rw [keys_fields]; decide)]

/-- **An error is read from what it is written to.** -/
theorem ofValue_toValue {e : DdpError} (hc : e.Canonical) : ofValue e.toValue = some e := by
  -- What is left over has no name of the error's own, so it is what the error kept.
  have hextra : (present e.fields ++ e.extra).filter (fun member => member.1 ∉ known) =
      e.extra := by
    rw [List.filter_append, List.filter_eq_nil_iff.2, List.nil_append, List.filter_eq_self.2]
    · exact fun member hmember => by simpa using hc.extra member hmember
    · intro member hmember
      have hkey : member.1 ∈ e.fields.map Prod.fst :=
        keys_present_sublist.subset (List.mem_map_of_mem hmember)
      rw [keys_fields] at hkey
      simpa using hkey
  -- Each member is read as it was written.
  have hcode : requireMember ErrorCode.ofValue (e.fields.lookup "error").join = some e.error :=
    hc.error
  have hreason : optionalMember Value.asStr (e.fields.lookup "reason").join = some e.reason :=
    optionalMember_string
  have hmessage : optionalMember Value.asStr (e.fields.lookup "message").join =
    some e.message := optionalMember_string
  have htype : optionalMember Value.asStr (e.fields.lookup "errorType").join =
    some e.errorType := optionalMember_string
  have hsafe : optionalMember Value.asBool (e.fields.lookup "isClientSafe").join =
    some e.isClientSafe := optionalMember_bool
  have hdetails : optionalMember some (e.fields.lookup "details").join = some e.details :=
    optionalMember_self hc.details
  simp only [toValue, ofValue]
  rw [lookup_toValue hc (k := "error") (by decide), lookup_toValue hc (k := "reason") (by decide),
    lookup_toValue hc (k := "message") (by decide),
    lookup_toValue hc (k := "errorType") (by decide),
    lookup_toValue hc (k := "isClientSafe") (by decide),
    lookup_toValue hc (k := "details") (by decide), hextra, hcode, hreason, hmessage, htype,
    hsafe, hdetails]
  rfl

end DdpError

namespace ServerMessage

variable {o : Members} {m : ServerMessage} {variant : Variant Value ServerMessage}

/-- A frame as it is decoded: no member it keeps as it is is `null`, and of a frame without a
tag nothing can be made but that frame. -/
def Canonical : ServerMessage → Prop
  | .result _ value failure => value ≠ some .null ∧ ∀ e ∈ failure, e.Canonical
  | .nosub _ failure => ∀ e ∈ failure, e.Canonical
  | .error _ offendingMessage => offendingMessage ≠ some .null
  | .unknown message => union.read (toObject (.unknown message)) = some (.unknown message)
  | _ => True

theorem tags_nodup : (union.variants.map Variant.tag).Nodup := by decide

/-- The keys of the fields differ, and none is the tag's. -/
theorem keys_fields_nodup (m : ServerMessage) : ("msg" :: m.fields.map Prod.fst).Nodup := by
  cases m with
  | connected | failed | ping | pong | result | updated | nosub | ready | added | changed
  | removed | addedBefore | movedBefore | error | unknown =>
    simp [fields]

/-- What is written of a frame that has a tag. -/
theorem toObject_of_tag {t : String} (ht : m.tag = some t) :
    m.toObject = ("msg", .string t) :: present m.fields := by
  cases m with
  | unknown message => cases ht
  | connected | failed | ping | pong | result | updated | nosub | ready | added | changed
  | removed | addedBefore | movedBefore | error =>
    obtain rfl := Option.some.inj ht
    rfl

/-- A frame is decoded from what it is written to, if its variant reads its fields. -/
theorem decode_toObject_of_read (variant : Variant Value ServerMessage)
    (hv : variant ∈ variants) (ht : m.tag = some variant.tag)
    (hr : ∀ o : Members, (∀ k, k ≠ "msg" → o.lookup k = (m.fields.lookup k).join) →
      variant.read o = some m) : decode m.toObject = some m := by
  have hlookup : m.toObject.lookup union.key = some (.string variant.tag) := by
    rw [toObject_of_tag ht]
    exact List.lookup_cons_self
  have htagged : union.readTagged m.toObject = variant.read (without "msg" m.toObject) :=
    readTagged_of_name tags_nodup hv hlookup rfl
  refine read_of_tagged (htagged.trans (hr _ fun k hk => ?_))
  rw [lookup_without hk, toObject_of_tag ht, List.lookup_cons, beq_eq_false_iff_ne.2 hk,
    lookup_present (List.nodup_cons.1 (keys_fields_nodup m)).2]

/-- An optional error that is written is read again. -/
theorem optionalMember_error {failure : Option DdpError} (hc : ∀ e ∈ failure, e.Canonical) :
    optionalMember DdpError.ofValue (failure.map DdpError.toValue) = some failure :=
  optionalMember_map (fun e he => DdpError.ofValue_toValue (hc e he)) fun e => by
    simp [DdpError.toValue]

theorem optionalMember_members {x : Option Members} :
    optionalMember Value.asMembers (x.map .object) = some x := by
  cases x <;> rfl

theorem optionalMember_strings {x : Option (List String)} :
    optionalMember Value.asStrings (x.map fun c => .array (c.map .string)) = some x :=
  optionalMember_map (fun c hc => asStrings_map c) fun c => by simp

/-- **A canonical frame is decoded from what it is encoded to.** -/
theorem decode_toObject (hc : m.Canonical) : decode m.toObject = some m := by
  cases m with
  | unknown message => exact hc
  | connected session =>
    refine decode_toObject_of_read ⟨"connected", readConnected⟩ (by simp [variants]) rfl
      fun o ho => ?_
    simp [readConnected, ho, ServerMessage.fields, requireMember, Value.asStr]
  | failed version =>
    refine decode_toObject_of_read ⟨"failed", readFailed⟩ (by simp [variants]) rfl fun o ho => ?_
    simp [readFailed, ho, ServerMessage.fields, requireMember, Value.asStr]
  | ping id =>
    refine decode_toObject_of_read ⟨"ping", readPing⟩ (by simp [variants]) rfl fun o ho => ?_
    simp [readPing, ho, ServerMessage.fields, optionalMember_string]
  | pong id =>
    refine decode_toObject_of_read ⟨"pong", readPong⟩ (by simp [variants]) rfl fun o ho => ?_
    simp [readPong, ho, ServerMessage.fields, optionalMember_string]
  | result id value failure =>
    refine decode_toObject_of_read ⟨"result", readResult⟩ (by simp [variants]) rfl fun o ho => ?_
    simp [readResult, ho, ServerMessage.fields, List.lookup_cons, requireMember, Value.asStr,
      optionalMember_self hc.1, optionalMember_error hc.2]
  | updated methods =>
    refine decode_toObject_of_read ⟨"updated", readUpdated⟩ (by simp [variants]) rfl fun o ho => ?_
    simp [readUpdated, ho, ServerMessage.fields, requireMember, asStrings_map]
  | nosub id failure =>
    refine decode_toObject_of_read ⟨"nosub", readNosub⟩ (by simp [variants]) rfl fun o ho => ?_
    simp [readNosub, ho, ServerMessage.fields, List.lookup_cons, requireMember, Value.asStr,
      optionalMember_error hc]
  | ready subs =>
    refine decode_toObject_of_read ⟨"ready", readReady⟩ (by simp [variants]) rfl fun o ho => ?_
    simp [readReady, ho, ServerMessage.fields, requireMember, asStrings_map]
  | added collection id fields =>
    refine decode_toObject_of_read ⟨"added", readAdded⟩ (by simp [variants]) rfl fun o ho => ?_
    simp [readAdded, ho, ServerMessage.fields, List.lookup_cons, requireMember, Value.asStr,
      optionalMember_members]
  | changed collection id fields cleared =>
    refine decode_toObject_of_read ⟨"changed", readChanged⟩ (by simp [variants]) rfl fun o ho => ?_
    simp [readChanged, ho, ServerMessage.fields, List.lookup_cons, requireMember, Value.asStr,
      optionalMember_members, optionalMember_strings]
  | removed collection id =>
    refine decode_toObject_of_read ⟨"removed", readRemoved⟩ (by simp [variants]) rfl fun o ho => ?_
    simp [readRemoved, ho, ServerMessage.fields, List.lookup_cons, requireMember, Value.asStr]
  | addedBefore collection id fields before =>
    refine decode_toObject_of_read ⟨"addedBefore", readAddedBefore⟩ (by simp [variants]) rfl
      fun o ho => ?_
    simp [readAddedBefore, ho, ServerMessage.fields, List.lookup_cons, requireMember, Value.asStr,
      optionalMember_members, optionalMember_getD_null]
  | movedBefore collection id before =>
    refine decode_toObject_of_read ⟨"movedBefore", readMovedBefore⟩ (by simp [variants]) rfl
      fun o ho => ?_
    simp [readMovedBefore, ho, ServerMessage.fields, List.lookup_cons, requireMember, Value.asStr,
      optionalMember_getD_null]
  | error reason offendingMessage =>
    refine decode_toObject_of_read ⟨"error", readError⟩ (by simp [variants]) rfl fun o ho => ?_
    simp [readError, ho, ServerMessage.fields, List.lookup_cons, requireMember, Value.asStr,
      optionalMember_self hc]

/-- **What a variant reads** has its tag, and is canonical. -/
theorem canonical_of_read (hv : variant ∈ variants) (hr : variant.read o = some m) :
    m.tag = some variant.tag ∧ m.Canonical := by
  have herror : ∀ {value : Option Value} {failure : Option DdpError},
      optionalMember DdpError.ofValue value = some failure → ∀ e ∈ failure, e.Canonical := by
    rintro value _ hf e rfl
    obtain ⟨v, -, hv⟩ := optionalMember_eq_some hf
    exact DdpError.canonical_of_ofValue hv
  -- One case for each variant, in the order of the union.
  simp only [variants, List.mem_cons, List.not_mem_nil, or_false] at hv
  rcases hv with rfl | rfl | rfl | rfl | rfl | rfl | rfl | rfl | rfl | rfl | rfl | rfl | rfl | rfl
  all_goals
    simp only [readConnected, readFailed, readPing, readPong, readResult, readUpdated, readNosub,
      readReady, readAdded, readChanged, readRemoved, readAddedBefore, readMovedBefore, readError,
      Option.bind_eq_bind, Option.bind_eq_some_iff, Option.pure_def, Option.some.injEq] at hr
  · obtain ⟨_, -, rfl⟩ := hr
    exact ⟨rfl, trivial⟩
  · obtain ⟨_, -, rfl⟩ := hr
    exact ⟨rfl, trivial⟩
  · obtain ⟨_, -, rfl⟩ := hr
    exact ⟨rfl, trivial⟩
  · obtain ⟨_, -, rfl⟩ := hr
    exact ⟨rfl, trivial⟩
  · obtain ⟨_, -, _, hvalue, _, hfailure, rfl⟩ := hr
    exact ⟨rfl, ne_null_of_optionalMember hvalue, herror hfailure⟩
  · obtain ⟨_, -, rfl⟩ := hr
    exact ⟨rfl, trivial⟩
  · obtain ⟨_, -, _, hfailure, rfl⟩ := hr
    exact ⟨rfl, herror hfailure⟩
  · obtain ⟨_, -, rfl⟩ := hr
    exact ⟨rfl, trivial⟩
  · obtain ⟨_, -, _, -, _, -, rfl⟩ := hr
    exact ⟨rfl, trivial⟩
  · obtain ⟨_, -, _, -, _, -, _, -, rfl⟩ := hr
    exact ⟨rfl, trivial⟩
  · obtain ⟨_, -, _, -, rfl⟩ := hr
    exact ⟨rfl, trivial⟩
  · obtain ⟨_, -, _, -, _, -, _, -, rfl⟩ := hr
    exact ⟨rfl, trivial⟩
  · obtain ⟨_, -, _, -, _, -, rfl⟩ := hr
    exact ⟨rfl, trivial⟩
  · obtain ⟨_, -, _, hvalue, rfl⟩ := hr
    exact ⟨rfl, ne_null_of_optionalMember hvalue⟩

/-- What has no tag is written as it was read. -/
theorem toObject_ofObject_cases (o : Members) :
    (∃ msg, o.lookup "msg" = some (.string msg) ∧
      UnknownMessage.ofObject o = ⟨some msg, without "msg" o⟩ ∧
      toObject (.unknown (.ofObject o)) = ("msg", .string msg) :: without "msg" o) ∨
    UnknownMessage.ofObject o = ⟨none, o⟩ ∧ toObject (.unknown (.ofObject o)) = o := by
  unfold UnknownMessage.ofObject
  split
  · next msg hmsg => exact .inl ⟨msg, hmsg, rfl, rfl⟩
  · exact .inr ⟨rfl, rfl⟩

/-- **What is decoded is canonical.** -/
theorem canonical_of_decode (h : decode o = some m) : m.Canonical := by
  cases ht : union.readTagged o with
  | some m' =>
    obtain rfl : m' = m := Option.some.inj ((read_of_tagged ht).symm.trans h)
    obtain ⟨_, _, variant, -, -, hfind, hread⟩ := readTagged_eq_some.1 ht
    exact (canonical_of_read (mem_of_find hfind) hread).2
  | none =>
    have hread : union.read o = some (.unknown (.ofObject o)) := read_of_none ht
    obtain rfl : .unknown (.ofObject o) = m := Option.some.inj (hread.symm.trans h)
    change union.read (toObject _) = _
    rcases toObject_ofObject_cases o with ⟨msg, hmsg, hof, hto⟩ | ⟨hof, hto⟩
    · have hlookup : (("msg", .string msg) :: without "msg" o).lookup "msg" =
          some (Value.string msg) := List.lookup_cons_self
      have hwithout : without "msg" (("msg", Value.string msg) :: without "msg" o) =
          without "msg" o := by rw [without_cons_self, without_without]
      rw [hto, read_of_none ((readTagged_congr (hlookup.trans hmsg.symm) hwithout).trans ht)]
      change some (ServerMessage.unknown (.ofObject _)) = _
      rw [hof, UnknownMessage.ofObject, hlookup, hwithout]
    · rw [hto, hread]

end ServerMessage
end RocketSocket
