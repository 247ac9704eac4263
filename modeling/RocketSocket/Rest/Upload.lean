import RocketSocket.Rest.Client

/-!
# Uploading a file

The two requests of an upload: one stores the bytes, the other posts the message that carries
them.  The calls run beside the logins and logouts of the same client, and each request is sent
with what is in the slot by then.  The workspace handles a request once or never, at any time
after it was sent, and its answer may be lost on the way back.

Which strings the HTTP library takes as a media type is a parameter.  Of the workspace the
module comment of `upload.rs` says what is stated here: it stores under a fresh id, it posts what
the same user stored in that room and what has not expired, and it does not ask whether that
was posted before.

## Main definitions

* `FileUpload`, `ConfirmUpload`, `UploadError` — as in the source.
* `UploadCall`, `UploadPhase`, `Upload` — a call, where it stands, and what it sent.
* `RestError.isCertain` — the request was refused, or never sent.
* `UploadWorld.step` — one step of a call, of the workspace, or of the network.
-/

namespace RocketSocket

open Machine

/-! ### Files -/

/-- The id of a stored file. -/
structure UploadId where
  text : String
  deriving DecidableEq, Repr

/-- File bytes and their metadata. -/
structure FileUpload where
  fileName : String
  contentType : Option String := none
  bytes : List UInt8
  deriving DecidableEq, Repr

/-- What the first request is answered with. -/
structure UploadedFile where
  id : UploadId
  url : String
  deriving DecidableEq, Repr

/-- The message that will carry the file. -/
structure ConfirmUpload where
  description : Option String := none
  fileName : Option String := none
  msg : Option String := none
  tmid : Option MessageId := none
  aliasName : Option String := none
  emoji : Option String := none
  avatar : Option String := none
  groupable : Option Bool := none
  customFields : Option String := none
  deriving DecidableEq, Repr

/-- Which half failed. -/
inductive UploadError where
  | upload (error : RestError)
  | confirm (file : UploadedFile) (source : RestError)
  deriving DecidableEq, Repr

/-- The orphaned upload, when there is one. -/
def UploadError.orphanedFile : UploadError → Option UploadedFile
  | .confirm file _ => some file
  | .upload _ => none

/-- The request was refused, or never sent: what stopped the call was found before, or the status
of the answer blames the request. -/
def RestError.isCertain : RestError → Bool
  | .transport _ | .decode .. => false
  | .api error => 400 ≤ error.status && error.status < 500
  | .invalidUrl .. | .invalidRequest _ | .notAuthenticated => true

/-! ### Requests -/

/-- A part of a multipart body. -/
structure Part where
  name : String
  fileName : String
  mime : Option String
  bytes : List UInt8
  deriving DecidableEq, Repr

/-- One of the two requests of an upload. -/
inductive UploadRequest where
  /-- `rooms.media/:rid` -/
  | media (rid : RoomId) (part : Part)
  /-- `rooms.mediaConfirm/:rid/:fileId` -/
  | confirm (rid : RoomId) (fileId : UploadId) (body : ConfirmUpload)
  deriving DecidableEq, Repr

/-- The field name is hard-coded on both sides. -/
def FileUpload.part (file : FileUpload) : Part :=
  ⟨"file", file.fileName, file.contentType, file.bytes⟩

namespace RestClient

variable {υ : Type} (c : RestClient υ)

/-- Step 1: store the bytes. -/
def uploadMedia (mimeError : String → Option String) (rid : RoomId) (file : FileUpload) :
    Except RestError (Authentication × UploadRequest) := do
  c.endpoint ["rooms.media", rid.text]
  match file.contentType.bind mimeError with
  | some error => throw (.invalidRequest ("invalid content type: " ++ error))
  | none => return (← c.authenticatedRequest, .media rid file.part)

/-- Step 2: post the message. -/
def confirmMedia (rid : RoomId) (fileId : UploadId) (confirm : ConfirmUpload) :
    Except RestError (Authentication × UploadRequest) := do
  return (← c.request ["rooms.mediaConfirm", rid.text, fileId.text], .confirm rid fileId confirm)

end RestClient

/-! ### Calls -/

/-- A call of the client: both steps, or one of them. -/
inductive UploadCall where
  | uploadFile (rid : RoomId) (file : FileUpload) (confirm : ConfirmUpload)
  | uploadMedia (rid : RoomId) (file : FileUpload)
  | confirmMedia (rid : RoomId) (fileId : UploadId) (confirm : ConfirmUpload)
  deriving DecidableEq, Repr

/-- What a call returns; `μ` is the type of the messages. -/
inductive UploadOutcome (μ : Type) where
  | uploadFile (outcome : Except UploadError μ)
  | uploadMedia (outcome : Except RestError UploadedFile)
  | confirmMedia (outcome : Except RestError μ)

/-- Where a call stands. -/
inductive UploadPhase (μ : Type) where
  | begun
  /-- The first request was sent. -/
  | storing
  /-- It was answered, and the second is to follow. -/
  | stored (file : UploadedFile)
  /-- The second was sent. -/
  | posting (file : UploadedFile)
  /-- It was sent alone. -/
  | confirming
  | returned (outcome : UploadOutcome μ)

/-- What the workspace made of a request. -/
inductive Verdict (μ : Type) where
  | refused (error : ApiError)
  | stored (file : UploadedFile)
  | posted (message : μ)

/-- A request that was sent, and what the workspace made of it so far. -/
structure Sent (μ : Type) where
  sender : Authentication
  request : UploadRequest
  verdict : Option (Verdict μ) := none

/-- A file the workspace keeps. -/
structure Stored where
  owner : UserId
  rid : RoomId
  part : Part
  file : UploadedFile
  deriving DecidableEq, Repr

/-- A message the workspace posted. -/
structure Posted (μ : Type) where
  rid : RoomId
  fileId : UploadId
  confirm : ConfirmUpload
  message : μ
  deriving DecidableEq, Repr

/-- What a request left in the workspace. -/
def Sent.stored {μ : Type} (s : Sent μ) : Option Stored :=
  match s.request, s.verdict with
  | .media rid part, some (.stored file) => some ⟨s.sender.userId, rid, part, file⟩
  | _, _ => none

/-- What a request posted. -/
def Sent.posted {μ : Type} (s : Sent μ) : Option (Posted μ) :=
  match s.request, s.verdict with
  | .confirm rid fileId confirm, some (.posted message) => some ⟨rid, fileId, confirm, message⟩
  | _, _ => none

/-- A call, where it stands, and the requests it sent. -/
structure Upload (μ : Type) where
  call : UploadCall
  phase : UploadPhase μ := .begun
  sent : List (Sent μ) := []
  /-- The caller dropped the future. -/
  dropped : Bool := false

namespace Upload

variable {υ μ : Type} (u : Upload μ)

/-- The call returns. -/
def finish (outcome : UploadOutcome μ) : Upload μ := { u with phase := .returned outcome }

/-- A request is sent, or the call returns without. -/
def ask (request : Except RestError (Authentication × UploadRequest)) (waiting : UploadPhase μ)
    (failed : RestError → UploadOutcome μ) : Upload μ :=
  match request with
  | .ok (sender, request) =>
    { u with phase := waiting, sent := u.sent ++ [⟨sender, request, none⟩] }
  | .error error => u.finish (failed error)

/-- A call goes on to its next request. -/
def go (c : RestClient υ) (mimeError : String → Option String) : Option (Upload μ) :=
  match u.call, u.phase with
  | .uploadFile rid file _, .begun =>
    some (u.ask (c.uploadMedia mimeError rid file) .storing fun error =>
      .uploadFile (.error (.upload error)))
  | .uploadFile rid _ confirm, .stored file =>
    some (u.ask (c.confirmMedia rid file.id confirm) (.posting file) fun error =>
      .uploadFile (.error (.confirm file error)))
  | .uploadMedia rid file, .begun =>
    some (u.ask (c.uploadMedia mimeError rid file) .storing fun error =>
      .uploadMedia (.error error))
  | .confirmMedia rid fileId confirm, .begun =>
    some (u.ask (c.confirmMedia rid fileId confirm) .confirming fun error =>
      .confirmMedia (.error error))
  | _, _ => none

/-- The first request is answered. -/
def heardMedia (answer : Except RestError UploadedFile) : Option (Upload μ) :=
  match u.call, u.phase, answer with
  | .uploadFile .., .storing, .ok file => some { u with phase := .stored file }
  | .uploadFile .., .storing, .error error => some (u.finish (.uploadFile (.error (.upload error))))
  | .uploadMedia .., .storing, answer => some (u.finish (.uploadMedia answer))
  | _, _, _ => none

/-- The second request is answered. -/
def heardConfirm (answer : Except RestError μ) : Option (Upload μ) :=
  match u.call, u.phase with
  | .uploadFile .., .posting file =>
    some (u.finish (.uploadFile (answer.mapError (.confirm file))))
  | .confirmMedia .., .confirming => some (u.finish (.confirmMedia answer))
  | _, _ => none

/-- A request is not answered as it should be. -/
def failed (error : RestError) : Option (Upload μ) :=
  (u.heardMedia (.error error)).or (u.heardConfirm (.error error))

/-- The answer of the workspace arrives. -/
def reply : Option (Upload μ) :=
  match u.sent.getLast?.bind Sent.verdict with
  | some (.stored file) => u.heardMedia (.ok file)
  | some (.posted message) => u.heardConfirm (.ok message)
  | some (.refused error) => u.failed (.api error)
  | none => none

/-- The future is dropped. -/
def drop : Option (Upload μ) :=
  match u.phase with
  | .returned _ => none
  | _ => some { u with dropped := true }

/-- The workspace is done with a request. -/
def serve (k : ℕ) (verdict : Verdict μ) : Upload μ :=
  { u with sent := u.sent.modify k ({ · with verdict := some verdict }) }

/-- What the workspace keeps for a call. -/
def stored : List Stored := u.sent.filterMap Sent.stored

/-- The messages posted for a call. -/
def posted : List (Posted μ) := u.sent.filterMap Sent.posted

/-- The workspace stored an upload for the call. -/
def stores (id : UploadId) : Bool := u.stored.any (·.file.id = id)

end Upload

/-! ### Client and workspace -/

/-- The client, the calls that upload, and the uploads that expired. -/
structure UploadWorld (υ μ : Type) where
  rest : RestClient υ
  /-- What is wrong with a media type. -/
  mimeError : String → Option String
  uploads : List (Upload μ) := []
  swept : List UploadId := []

/-- Who moves. -/
inductive UploadInput (υ μ : Type) where
  /-- Another call of the client, or its answer. -/
  | rest (input : RestInput υ)
  | call (call : UploadCall)
  | go (n : ℕ)
  /-- The workspace handles a request. -/
  | serve (n k : ℕ) (verdict : Verdict μ)
  /-- The answer arrives. -/
  | reply (n : ℕ)
  /-- Something else arrives, or nothing. -/
  | fail (n : ℕ) (error : RestError)
  | drop (n : ℕ)
  /-- An upload that was not confirmed expires. -/
  | sweep (id : UploadId)

namespace UploadWorld

variable {υ μ : Type}

/-- A client that uploads nothing yet. -/
def init (rest : RestClient υ) (mimeError : String → Option String) : UploadWorld υ μ :=
  { rest := rest, mimeError := mimeError }

variable (w : UploadWorld υ μ)

/-- Everything the workspace posted. -/
def posted : List (Posted μ) := w.uploads.flatMap Upload.posted

/-- The workspace has what a user stored in a room, and it has not expired. -/
def has (owner : UserId) (rid : RoomId) (id : UploadId) : Bool :=
  w.uploads.any (·.stored.any fun s => s.owner = owner && s.rid = rid && s.file.id = id) &&
    !w.swept.contains id

/-- What the workspace may make of a request. -/
def allows (s : Sent μ) : Verdict μ → Bool
  | .refused error => (RestError.api error).isCertain
  | .stored file => match s.request with
    | .media .. => !w.uploads.any (·.stores file.id)
    | .confirm .. => false
  | .posted _ => match s.request with
    | .media .. => false
    | .confirm rid fileId _ => w.has s.sender.userId rid fileId

/-- Call number `n` is another now. -/
def setUpload (n : ℕ) (u : Upload μ) : UploadWorld υ μ :=
  { w with uploads := w.uploads.set n u }

/-- Call number `n` becomes another. -/
def turn (n : ℕ) (next : Upload μ → Option (Upload μ)) : Option (UploadWorld υ μ) :=
  (w.uploads[n]?.bind next).map (w.setUpload n)

/-- A step of call number `n`, unless its future was dropped. -/
def poll (n : ℕ) (next : Upload μ → Option (Upload μ)) :
    Option (UploadWorld υ μ × List (RestNote υ)) :=
  (w.turn n fun u => if u.dropped then none else next u).map (·, [])

/-- One step.  It shows what the other calls show. -/
def step : UploadInput υ μ → Option (UploadWorld υ μ × List (RestNote υ))
  | .rest input => (w.rest.step input).map fun p => ({ w with rest := p.1 }, p.2)
  | .call call => some ({ w with uploads := w.uploads ++ [{ call := call }] }, [])
  | .go n => w.poll n fun u => u.go w.rest w.mimeError
  | .serve n k verdict => (w.turn n fun u => u.sent[k]?.bind fun s =>
      if s.verdict.isNone && w.allows s verdict then some (u.serve k verdict) else none).map (·, [])
  | .reply n => w.poll n Upload.reply
  | .fail n error => if error.isCertain then none else w.poll n fun u => u.failed error
  | .drop n => w.poll n Upload.drop
  | .sweep id => if w.posted.any (·.fileId = id) then none
      else some ({ w with swept := id :: w.swept }, [])

end UploadWorld
end RocketSocket
