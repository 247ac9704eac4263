import RocketSocket.Lib.Str
import RocketSocket.Model.Frames
import RocketSocket.Rest.Client

/-!
# Reading the answers of the server

`decode` of `rocketsocket-rest`, and `ApiError::from_response`, which normalizes a refusal.  The
JSON reader is a parameter: it turns bytes into a document that still has every member of an
object, repeated ones too, and a typed read looks at the document only.  "A JSON object" is an
object as this reader sees it.

## Main definitions

* `JsonReader` — the reader of `serde_json`.
* `RateLimit.fromHeaders` — the rate limiter's headers.
* `FailureEnvelope`, `FailureEnvelope.normalize` — the wire form of a failure.
* `ApiRefusal.fromResponse` — what is kept of a failure.
* `HttpAnswer.decode` — a value, or the most specific error.

## Main results

* `FailureEnvelope.ofValue_object` — which objects are read as a failure.
* `normalises_iff` — **a refusal keeps what the server said**, just if its body is read as a
  failure and does not have a code and a message but no error.
-/

namespace RocketSocket

open Machine

/-- The reader of `serde_json`.  It has limits: bytes that are nested deeper than 128, have a
number beyond every `f64`, or a string that is no Unicode, are no document, as they are none for
`serde_json::Value`.  (A typed read passes over members of other names without these checks;
here it is refused with the document, which for a status of success is an error too.) -/
structure JsonReader where
  /-- The document some bytes are, with the members of an object in their order. -/
  parse : List UInt8 → Option Value
  /-- The text of a floating-point number. -/
  floatText : UInt64 → String
  /-- Bytes that are blank are no document. -/
  parse_blank : ∀ body, Str.trim (Str.fromUtf8Lossy body) = "" → parse body = none

/-! ### Headers -/

/-- The headers of a response, with their names in lower case. -/
abbrev HeaderMap := List (String × List UInt8)

/-- A header whose value is visible text. -/
def headerStr (headers : HeaderMap) (name : String) : Option String := do
  let value ← headers.lookup name
  if value.all fun b => (32 ≤ b && b < 127) || b == 9 then
    some (String.ofList (value.map fun b => Char.ofNat b.toNat))
  else none

/-- A header that is a `u64`. -/
def headerU64 (headers : HeaderMap) (name : String) : Option ℕ := do
  Str.parseUnsigned 18446744073709551615 (Str.trim (← headerStr headers name))

/-- A header that is an `i64`. -/
def headerI64 (headers : HeaderMap) (name : String) : Option ℤ := do
  Str.parseSigned 9223372036854775807 (Str.trim (← headerStr headers name))

/-- The `X-RateLimit-*` headers, parsed. -/
structure RateLimit where
  limit : Option ℕ := none
  remaining : Option ℕ := none
  resetEpochMs : Option ℤ := none
  deriving DecidableEq, Repr

/-- Parse the three headers. -/
def RateLimit.fromHeaders (headers : HeaderMap) : Option RateLimit :=
  let parsed : RateLimit :=
    { limit := headerU64 headers "x-ratelimit-limit",
      remaining := headerU64 headers "x-ratelimit-remaining",
      resetEpochMs := headerI64 headers "x-ratelimit-reset" }
  if parsed ≠ {} then some parsed else none

/-! ### Failures -/

/-- Truncate on a char boundary. -/
def truncate (text : String) (limit : ℕ) : String :=
  let bytes := Utf8.encode text.toList
  if bytes.length ≤ limit then text
  else String.ofList (Str.upTo (Str.floorBoundary bytes limit) text.toList)

/-- Render a JSON scalar as a string. -/
def scalarToString (reader : JsonReader) : Value → Option String
  | .string text => some text
  | .int n => some (toString n)
  | .float bits => some (reader.floatText bits)
  | .bool flag => some (toString flag)
  | _ => none

/-- The wire form of a failure body. -/
structure FailureEnvelope where
  error : Option Value := none
  errorType : Option String := none
  message : Option String := none
  details : Option Value := none

namespace FailureEnvelope

/-- The members a failure body is read for, in the order of the source. -/
def fieldNames : List String := ["error", "errorType", "message", "details"]

/-- Reads a failure body; members of other names are passed over. -/
def ofValue (value : Value) : Option FailureEnvelope := do
  let field ← structFields fieldNames value
  let error ← optionalMember some (field "error")
  let errorType ← optionalMember Value.asStr (field "errorType")
  let message ← optionalMember Value.asStr (field "message")
  let details ← optionalMember some (field "details")
  return { error := error, errorType := errorType, message := message, details := details }

/-- Collapse the wire shapes into a code and a message. -/
def normalize (reader : JsonReader) (envelope : FailureEnvelope) :
    Option String × Option String :=
  let error := envelope.error.bind (scalarToString reader)
  match envelope.errorType with
  | some code => (some code, error)
  | none =>
    match envelope.message, error with
    | some message, some code =>
      if message ≠ code then (some code, some message) else (none, some message)
    | some message, none => (none, some message)
    | none, _ => (none, error)

end FailureEnvelope

/-- A refusal of the server, with all that is kept of it. -/
structure ApiRefusal extends ApiError where
  details : Option Value
  rateLimit : Option RateLimit
  /-- The raw body, kept only when it was not JSON. -/
  rawBody : Option String

/-- How many bytes of a body that is no JSON are kept. -/
def bodySnippetLimit : ℕ := 512

/-- Build from a status, the headers and the raw body bytes. -/
def ApiRefusal.fromResponse (reader : JsonReader) (status : ℕ) (headers : HeaderMap)
    (body : List UInt8) : ApiRefusal :=
  let rateLimit := RateLimit.fromHeaders headers
  match (reader.parse body).bind FailureEnvelope.ofValue with
  | some envelope =>
    let (code, message) := envelope.normalize reader
    { status := status, code := code, message := message, details := envelope.details,
      rateLimit := rateLimit, rawBody := none }
  | none =>
    let text := Str.trim (Str.fromUtf8Lossy body)
    let snippet := truncate text bodySnippetLimit
    { status := status, code := none, message := if snippet ≠ "" then some snippet else none,
      details := none, rateLimit := rateLimit,
      rawBody := if snippet ≠ "" then some snippet else none }

/-! ### Answers -/

/-- What a request comes to. -/
inductive HttpAnswer where
  | response (status : ℕ) (headers : HeaderMap) (body : List UInt8)
  /-- No answer came, or its body broke off. -/
  | failed (reason : String)

/-- How many bytes of a body that does not decode are quoted. -/
def snippetLimit : ℕ := 512

/-- `StatusCode::is_success`. -/
def isSuccess (status : ℕ) : Bool := 200 ≤ status ∧ status < 300

/-- The body is JSON with `success: false`; an array is read by place, so `[false]` passes. -/
def isFailureEnvelope (body : Option Value) : Bool :=
  ((body.bind (structFields ["success"])).bind fun field =>
    optionalMember Value.asBool (field "success")) = some (some false)

/-- Turn a response into a value, or into the most specific error available; `read` is how a
document is read as a value. -/
def HttpAnswer.decode {α : Type} (reader : JsonReader) (read : Value → Option α) :
    HttpAnswer → Except RestError α
  | .failed reason => .error (.transport reason)
  | .response status headers body =>
    if isSuccess status = false then
      .error (.api (ApiRefusal.fromResponse reader status headers body).toApiError)
    else
      match (reader.parse body).bind read with
      | some value => .ok value
      | none =>
        if isFailureEnvelope (reader.parse body) then
          .error (.api (ApiRefusal.fromResponse reader status headers body).toApiError)
        else .error (.decode status (truncate (Str.fromUtf8Lossy body) snippetLimit))

/-! ### What is kept of a refusal -/

theorem truncate_isPrefix (text : String) (limit : ℕ) :
    (truncate text limit).toList <+: text.toList := by
  rw [truncate]
  split
  · exact List.prefix_refl _
  · rw [String.toList_ofList]
    exact Str.upTo_isPrefix _ _

/-- Of a text that is not empty something is left. -/
theorem truncate_eq_empty {text : String} {limit : ℕ} (hlimit : 4 ≤ limit) :
    truncate text limit = "" ↔ text = "" := by
  constructor
  · intro h
    rw [truncate] at h
    split at h
    · exact h
    · have hnil := congrArg String.toList h
      rw [String.toList_ofList, String.toList_empty] at hnil
      cases htext : text.toList with
      | nil => rwa [String.toList_eq_nil_iff] at htext
      | cons c rest =>
        -- The first character fits.
        have hsize : c.utf8Size = (Utf8.encode [c]).length := by
          rw [Utf8.encode_cons, List.length_append, String.length_utf8EncodeChar]
          rfl
        have hfits : c.utf8Size ≤ Str.floorBoundary (Utf8.encode text.toList) limit := by
          refine Str.le_floorBoundary ?_ (c.utf8Size_le_four.trans hlimit)
          rw [htext, hsize]
          exact Str.isBoundary_between [c] rest
        rw [htext, Str.upTo, if_pos (htext ▸ hfits)] at hnil
        cases hnil
  · rintro rfl
    rfl

namespace FailureEnvelope

/-- The members of an object fit the fields. -/
structure Readable (o : Members) : Prop where
  once : ∀ name ∈ fieldNames, (o.map Prod.fst).count name ≤ 1
  strings : ∀ name ∈ ["errorType", "message"], ∀ value, (name, value) ∈ o →
    value = .null ∨ ∃ text, value = .string text

/-- A field for any value is always read. -/
theorem optionalMember_some (reader : JsonReader) (value : Option Value) :
    ∃ read, optionalMember some value = some read ∧
      read.bind (scalarToString reader) = value.bind (scalarToString reader) := by
  cases value with
  | none => exact ⟨none, rfl, rfl⟩
  | some v =>
    cases v with
    | null => exact ⟨none, rfl, rfl⟩
    | _ => exact ⟨some _, rfl, rfl⟩

/-- A field for a string is read if it holds one, or nothing. -/
theorem optionalMember_asStr {value : Option Value}
    (h : ∀ v, value = some v → v = .null ∨ ∃ text, v = .string text) :
    optionalMember Value.asStr value = some (value.bind Value.asStr) := by
  cases value with
  | none => rfl
  | some v =>
    rcases h v rfl with rfl | ⟨text, rfl⟩
    · rfl
    · rfl

theorem strings_of_optionalMember {value : Option Value} {read : Option String}
    (h : optionalMember Value.asStr value = some read) {v : Value} (hv : value = some v) :
    v = .null ∨ ∃ text, v = .string text := by
  subst hv
  cases v with
  | null => exact .inl rfl
  | string text => exact .inr ⟨text, rfl⟩
  | _ => cases h

variable {o : Members}

/-- **Which objects are read as a failure.** -/
theorem ofValue_object (reader : JsonReader) (h : Readable o) :
    ∃ envelope, ofValue (.object o) = some envelope ∧
      envelope.errorType = (o.lookup "errorType").bind Value.asStr ∧
      envelope.message = (o.lookup "message").bind Value.asStr ∧
      envelope.error.bind (scalarToString reader) =
        (o.lookup "error").bind (scalarToString reader) := by
  have hfields : structFields fieldNames (.object o) = some fun name => o.lookup name :=
    if_pos h.once
  have hstring (name : String) (hname : name ∈ ["errorType", "message"])
      (hfield : name ∈ fieldNames) : optionalMember Value.asStr (o.lookup name) =
        some ((o.lookup name).bind Value.asStr) :=
    optionalMember_asStr fun v hv =>
      h.strings name hname v ((TaggedUnion.lookup_of_once (h.once name hfield)).mp hv)
  obtain ⟨error, herror, hscalar⟩ := optionalMember_some reader (o.lookup "error")
  obtain ⟨details, hdetails, -⟩ := optionalMember_some reader (o.lookup "details")
  refine ⟨⟨error, (o.lookup "errorType").bind Value.asStr, (o.lookup "message").bind Value.asStr,
    details⟩, ?_, rfl, rfl, hscalar⟩
  rw [ofValue, hfields]
  simp only [Option.bind_eq_bind, Option.bind_some, herror, hdetails,
    hstring "errorType" (by decide) (by decide), hstring "message" (by decide) (by decide)]
  rfl

/-- No other object is. -/
theorem readable_of_ofValue {envelope : FailureEnvelope}
    (h : ofValue (.object o) = some envelope) : Readable o := by
  simp only [ofValue, Option.bind_eq_bind, Option.bind_eq_some_iff] at h
  obtain ⟨field, hfield, -, -, errorType, herrorType, message, hmessage, -⟩ := h
  obtain ⟨honce, heq⟩ := Option.ite_none_right_eq_some.mp hfield
  cases heq
  refine ⟨honce, fun name hname value hmem => ?_⟩
  rcases List.mem_pair.mp hname with rfl | rfl
  · exact strings_of_optionalMember herrorType
      ((TaggedUnion.lookup_of_once (honce _ (by decide))).mpr hmem)
  · exact strings_of_optionalMember hmessage
      ((TaggedUnion.lookup_of_once (honce _ (by decide))).mpr hmem)

/-- A code and a message, but no error that is text. -/
def Clashes (reader : JsonReader) (o : Members) : Prop :=
  (∃ text, ("errorType", .string text) ∈ o) ∧ (∃ text, ("message", .string text) ∈ o) ∧
    ∀ value, ("error", value) ∈ o → scalarToString reader value = none

/-- The text an object has for its message: a string, or an error that is a scalar. -/
def HasText (reader : JsonReader) (o : Members) : Prop :=
  (∃ text, ("message", .string text) ∈ o) ∨
    ∃ value text, ("error", value) ∈ o ∧ scalarToString reader value = some text

end FailureEnvelope

/-- The text of a body, as far as it is kept. -/
def bodyText (body : List UInt8) : String := Str.trim (Str.fromUtf8Lossy body)

/-- A refusal keeps what the server said. -/
structure Normalises (reader : JsonReader) (body : List UInt8) (refusal : ApiRefusal) : Prop where
  /-- Of an object it has the code, and a message if there is one. -/
  object : ∀ o, reader.parse body = some (.object o) → refusal.rawBody = none ∧
    (∀ text, ("errorType", .string text) ∈ o → refusal.code = some text) ∧
    (FailureEnvelope.HasText reader o → refusal.message.isSome)
  /-- Of a body that is no JSON it has the text, cut short between two characters. -/
  text : reader.parse body = none →
    (bodyText body = "" → refusal.message = none ∧ refusal.rawBody = none) ∧
    (bodyText body ≠ "" → ∃ cut, cut ≠ "" ∧ cut.toList <+: (bodyText body).toList ∧
      refusal.message = some cut ∧ refusal.rawBody = some cut)

section Normalises

open FailureEnvelope

variable {reader : JsonReader} {body : List UInt8} {o : Members}

/-- What is kept of a text. -/
def snippetOf (body : List UInt8) : Option String :=
  if truncate (bodyText body) bodySnippetLimit ≠ "" then
    some (truncate (bodyText body) bodySnippetLimit)
  else none

theorem snippetOf_blank (h : bodyText body = "") : snippetOf body = none := by
  rw [snippetOf, if_neg]
  rw [not_not, truncate_eq_empty (by decide)]
  exact h

theorem snippetOf_text (h : bodyText body ≠ "") :
    ∃ cut, cut ≠ "" ∧ cut.toList <+: (bodyText body).toList ∧ snippetOf body = some cut := by
  have hcut : truncate (bodyText body) bodySnippetLimit ≠ "" :=
    fun heq => h ((truncate_eq_empty (by decide)).mp heq)
  refine ⟨truncate (bodyText body) bodySnippetLimit, hcut, truncate_isPrefix _ _, ?_⟩
  rw [snippetOf, if_pos hcut]

/-- A body that is read as no failure is kept as text. -/
theorem ApiRefusal.fromResponse_text (status : ℕ) (headers : HeaderMap)
    (h : (reader.parse body).bind ofValue = none) :
    (fromResponse reader status headers body).message = snippetOf body ∧
      (fromResponse reader status headers body).rawBody = snippetOf body := by
  have hkept : (if truncate (Str.trim (Str.fromUtf8Lossy body)) bodySnippetLimit ≠ "" then
      some (truncate (Str.trim (Str.fromUtf8Lossy body)) bodySnippetLimit) else none) =
      snippetOf body := ite_congr rfl (fun _ => rfl) fun _ => rfl
  simp only [fromResponse, h, hkept, and_self]

/-- The code and the message of an envelope. -/
theorem FailureEnvelope.normalize_spec (reader : JsonReader) (envelope : FailureEnvelope) :
    (∀ code, envelope.errorType = some code →
      (envelope.normalize reader).1 = some code ∧
        (envelope.normalize reader).2 = envelope.error.bind (scalarToString reader)) ∧
    (envelope.errorType = none → ((envelope.normalize reader).2.isSome ↔
      envelope.message.isSome ∨ (envelope.error.bind (scalarToString reader)).isSome)) := by
  rw [normalize]
  refine ⟨fun code hcode => ?_, fun hnone => ?_⟩
  · rw [hcode]
    exact ⟨rfl, rfl⟩
  · rw [hnone]
    dsimp only
    cases envelope.message with
    | none => simp
    | some message =>
      cases envelope.error.bind (scalarToString reader) with
      | none => simp
      | some code =>
        dsimp only
        split
        · simp
        · simp

/-- An object with fields that fit is normalized. -/
theorem ApiRefusal.fromResponse_object (status : ℕ) (headers : HeaderMap)
    (hbody : reader.parse body = some (.object o))
    (h : Readable o) : (fromResponse reader status headers body).rawBody = none ∧
      (∀ text, ("errorType", .string text) ∈ o →
        (fromResponse reader status headers body).code = some text) ∧
      ((fromResponse reader status headers body).message.isSome ↔
        HasText reader o ∧ ¬ Clashes reader o) := by
  obtain ⟨envelope, henvelope, htype, hmessage, herror⟩ := ofValue_object reader h
  -- Every field stands in the object once, so that its first value is its only one.
  have hmem {name : String} (hname : name ∈ fieldNames) {value : Value} :
      o.lookup name = some value ↔ (name, value) ∈ o :=
    TaggedUnion.lookup_of_once (h.once name hname)
  have hstring {name : String} (hname : name ∈ fieldNames) {text : String} :
      (o.lookup name).bind Value.asStr = some text ↔ (name, .string text) ∈ o := by
    rw [← hmem hname]
    cases o.lookup name with
    | none => simp
    | some v => cases v <;> simp [Value.asStr]
  have hresponse : (fromResponse reader status headers body).rawBody = none ∧
      (fromResponse reader status headers body).code = (envelope.normalize reader).1 ∧
      (fromResponse reader status headers body).message = (envelope.normalize reader).2 := by
    rw [fromResponse, hbody, Option.bind_some, henvelope]
    exact ⟨rfl, rfl, rfl⟩
  have hscalar : (∃ value text, ("error", value) ∈ o ∧ scalarToString reader value = some text) ↔
      (envelope.error.bind (scalarToString reader)).isSome := by
    simp only [herror, Option.isSome_iff_exists, Option.bind_eq_some_iff,
      hmem (show "error" ∈ fieldNames by decide)]
    exact exists_comm.trans (exists_congr fun text => Iff.rfl)
  obtain ⟨hraw, hcode, hmsg⟩ := hresponse
  obtain ⟨hsome, hnone⟩ := normalize_spec reader envelope
  refine ⟨hraw, fun text htext => ?_, ?_⟩
  · rw [hcode]
    exact (hsome text (htype.trans ((hstring (by decide)).mpr htext))).1
  · have hmessages : (∃ text, ("message", .string text) ∈ o) ↔ envelope.message.isSome := by
      rw [hmessage, Option.isSome_iff_exists]
      exact exists_congr fun text => (hstring (by decide)).symm
    rw [hmsg, HasText, Clashes, hmessages, hscalar]
    cases hcodes : envelope.errorType with
    | none =>
      -- Without a code the first text there is becomes the message.
      have hno : ¬ ∃ text, ("errorType", Value.string text) ∈ o := by
        rintro ⟨text, htext⟩
        rw [htype, (hstring (by decide)).mpr htext] at hcodes
        cases hcodes
      rw [hnone hcodes]
      exact ⟨fun hor => ⟨hor, fun hclash => hno hclash.1⟩, fun hor => hor.1⟩
    | some code =>
      -- With a code an error that has a text of its own takes the place of the message.
      have hyes : ∃ text, ("errorType", Value.string text) ∈ o :=
        ⟨code, (hstring (by decide)).mp (htype.symm.trans hcodes)⟩
      have hnot : (∀ value, ("error", value) ∈ o → scalarToString reader value = none) ↔
          ¬ (envelope.error.bind (scalarToString reader)).isSome := by
        rw [← hscalar]
        push Not
        refine forall_congr' fun value => ?_
        rw [Option.eq_none_iff_forall_ne_some]
        exact forall_comm
      rw [(hsome code hcodes).2, hnot]
      tauto

/-- **A refusal keeps what the server said**, just if its body is read as a failure and does not
have a code and a message but no error that is text. -/
theorem normalises_iff (reader : JsonReader) (status : ℕ) (headers : HeaderMap)
    (body : List UInt8) :
    Normalises reader body (ApiRefusal.fromResponse reader status headers body) ↔
      ∀ o, reader.parse body = some (.object o) → Readable o ∧ ¬ Clashes reader o := by
  constructor
  · intro hn o hbody
    obtain ⟨hraw, -, hmessage⟩ := hn.object o hbody
    have hreadable : Readable o := by
      by_contra hnot
      -- Otherwise what is kept is the text of the body, and not the object.
      have hnone : (reader.parse body).bind ofValue = none := by
        rw [hbody, Option.bind_some]
        cases hvalue : ofValue (.object o) with
        | none => rfl
        | some envelope => exact absurd (readable_of_ofValue hvalue) hnot
      have htext : bodyText body ≠ "" := by
        intro hblank
        rw [reader.parse_blank body hblank] at hbody
        cases hbody
      obtain ⟨cut, -, -, hcut⟩ := snippetOf_text htext
      rw [(ApiRefusal.fromResponse_text status headers hnone).2, hcut] at hraw
      cases hraw
    -- With a clash the message is not the text that was sent.
    refine ⟨hreadable, fun hclash => ?_⟩
    have hiff := (ApiRefusal.fromResponse_object status headers hbody hreadable).2.2
    exact (hiff.mp (hmessage (.inl hclash.2.1))).2 hclash
  · intro h
    refine ⟨fun o hbody => ?_, fun hbody => ?_⟩
    · obtain ⟨hreadable, hclash⟩ := h o hbody
      obtain ⟨hraw, hcode, hmessage⟩ :=
        ApiRefusal.fromResponse_object status headers hbody hreadable
      exact ⟨hraw, hcode, fun htext => hmessage.mpr ⟨htext, hclash⟩⟩
    · -- The body is not JSON, so its text is cut, if it has any.
      have hnone : (reader.parse body).bind ofValue = none := by
        rw [hbody]
        rfl
      obtain ⟨hmessage, hraw⟩ := ApiRefusal.fromResponse_text status headers hnone
      rw [hmessage, hraw]
      refine ⟨fun hblank => ⟨snippetOf_blank hblank, snippetOf_blank hblank⟩, fun htext => ?_⟩
      obtain ⟨cut, hne, hcut, heq⟩ := snippetOf_text htext
      exact ⟨cut, hne, hcut, heq, heq⟩

end Normalises

/-- A refusal whose code is a number. -/
def numberedBody : List UInt8 := Utf8.encode "\x7b\"errorType\":5\x7d".toList

/-- A reader, as far as that refusal goes. -/
def numberedReader : JsonReader where
  parse body := if body = numberedBody then some (.object [("errorType", .int 5)]) else none
  floatText _ := ""
  parse_blank body hblank := by
    refine if_neg ?_
    rintro rfl
    exact absurd hblank (by decide)

/-- The raw body of an object is kept. -/
theorem not_normalises : ¬ ∀ (reader : JsonReader) (status : ℕ) (headers : HeaderMap)
    (body : List UInt8),
    Normalises reader body (ApiRefusal.fromResponse reader status headers body) := by
  intro hall
  have hparse : numberedReader.parse numberedBody = some (.object [("errorType", .int 5)]) := by
    simp [numberedReader]
  have hraw := ((hall numberedReader 400 [] numberedBody).object _ hparse).1
  have hcut : (ApiRefusal.fromResponse numberedReader 400 [] numberedBody).rawBody =
      some "\x7b\"errorType\":5\x7d" := by
    decide +kernel
  rw [hcut] at hraw
  cases hraw

end RocketSocket
