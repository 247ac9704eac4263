import RocketSocket.Rest.Upload

/-!
# What an upload leaves behind

An upload is two requests, and each may be handled though its answer is lost.  What a call
returns says what the workspace has of it, as far as the client can know: a refusal is certain,
a lost answer is not.  A caller that confirms an orphan again posts it twice, unless it does so
only after a refusal.

## Main definitions

* `Attempt`, `Booked` — what a call has sent where it stands, and what became of it.
* `Upload.Settled` — what the workspace has of a call that returned.
* `UploadWorld.Careful` — the step confirms no upload that may have been posted.

## Main results

* `UploadWorld.step_cases` — what one step does to the calls.
* `upload_settled` — **what a call returns says what it left.**
* `posted_once` — **careful callers post an upload once.**
* `not_posted_once` — others do not.
-/

namespace RocketSocket

open Machine

variable {υ μ : Type}

/-! ### One request -/

/-- A request was sent once at most; what it was answered with, if it was, and by whom. -/
inductive Attempt (request : UploadRequest) :
    Option (Except RestError (Verdict μ)) → List (Sent μ) → Prop
  | sent {s : Sent μ} (hs : s.request = request) : Attempt request none [s]
  | done {s : Sent μ} {verdict : Verdict μ} (hs : s.request = request)
      (hverdict : s.verdict = some verdict) : Attempt request (some (.ok verdict)) [s]
  | unsent (error : RestError) : Attempt request (some (.error error)) []
  | failed {s : Sent μ} {error : RestError} (hs : s.request = request)
      (hcertain : error.isCertain → ∃ refusal, s.verdict = some (.refused refusal)) :
      Attempt request (some (.error error)) [s]

/-- The same request, and what the workspace made of it since. -/
def Sent.Later (s s' : Sent μ) : Prop :=
  s'.request = s.request ∧ ∀ verdict, s.verdict = some verdict → s'.verdict = some verdict

theorem Sent.Later.refl (s : Sent μ) : s.Later s := ⟨rfl, fun _ => id⟩

variable {request : UploadRequest} {answer : Option (Except RestError (Verdict μ))}
  {sent sent' : List (Sent μ)} {call : UploadCall} {phase : UploadPhase μ} {s s' : Sent μ}

theorem later_singleton (hl : List.Forall₂ Sent.Later [s] sent') :
    ∃ s', s.Later s' ∧ sent' = [s'] := by
  cases hl with
  | cons hs hnil =>
    cases hnil
    exact ⟨_, hs, rfl⟩

/-- What the workspace does later takes nothing back. -/
theorem Attempt.later (ha : Attempt request answer sent)
    (hl : List.Forall₂ Sent.Later sent sent') : Attempt request answer sent' := by
  cases ha with
  | sent hs =>
    obtain ⟨s', ⟨hrequest, -⟩, rfl⟩ := later_singleton hl
    exact .sent (hrequest.trans hs)
  | done hs hverdict =>
    obtain ⟨s', ⟨hrequest, hkeep⟩, rfl⟩ := later_singleton hl
    exact .done (hrequest.trans hs) (hkeep _ hverdict)
  | unsent error =>
    cases hl
    exact .unsent error
  | failed hs hcertain =>
    obtain ⟨s', ⟨hrequest, hkeep⟩, rfl⟩ := later_singleton hl
    exact .failed (hrequest.trans hs) fun hc => (hcertain hc).imp fun _ => hkeep _

/-! ### One call -/

/-- What the last request was answered with, as far as a call where it stands knows. -/
def UploadPhase.heard : UploadPhase μ → Option (Except RestError (Verdict μ))
  | .begun | .storing | .posting _ | .confirming => none
  | .stored file => some (.ok (.stored file))
  | .returned (.uploadFile (.ok message)) => some (.ok (.posted message))
  | .returned (.uploadFile (.error (.upload error))) => some (.error error)
  | .returned (.uploadFile (.error (.confirm _ error))) => some (.error error)
  | .returned (.uploadMedia outcome) => some (outcome.map .stored)
  | .returned (.confirmMedia outcome) => some (outcome.map .posted)

/-- What a call has sent where it stands, and what became of it. -/
inductive Booked : UploadCall → UploadPhase μ → List (Sent μ) → Prop
  | begun (call : UploadCall) : Booked call .begun []
  | media {rid file phase sent} (hp : phase = .storing ∨ ∃ r, phase = .returned (.uploadMedia r))
      (ha : Attempt (.media rid file.part) phase.heard sent) :
      Booked (.uploadMedia rid file) phase sent
  | confirm {rid fileId confirm phase sent}
      (hp : phase = .confirming ∨ ∃ r, phase = .returned (.confirmMedia r))
      (ha : Attempt (.confirm rid fileId confirm) phase.heard sent) :
      Booked (.confirmMedia rid fileId confirm) phase sent
  | first {rid file confirm phase sent}
      (hp : phase = .storing ∨ (∃ f, phase = .stored f) ∨
        ∃ error, phase = .returned (.uploadFile (.error (.upload error))))
      (ha : Attempt (.media rid file.part) phase.heard sent) :
      Booked (.uploadFile rid file confirm) phase sent
  | second {rid file confirm phase f} {s : Sent μ} {rest}
      (hp : phase = .posting f ∨
        ∃ r : Except RestError μ, phase = .returned (.uploadFile (r.mapError (.confirm f))))
      (hs : s.request = .media rid file.part) (hv : s.verdict = some (.stored f))
      (ha : Attempt (.confirm rid f.id confirm) phase.heard rest) :
      Booked (.uploadFile rid file confirm) phase (s :: rest)

/-- What the workspace does later takes nothing back. -/
theorem Booked.later (hb : Booked call phase sent) (hl : List.Forall₂ Sent.Later sent sent') :
    Booked call phase sent' := by
  cases hb with
  | begun call =>
    cases hl
    exact .begun call
  | media hp ha => exact .media hp (ha.later hl)
  | confirm hp ha => exact .confirm hp (ha.later hl)
  | first hp ha => exact .first hp (ha.later hl)
  | second hp hs hv ha =>
    cases hl with
    | cons h hrest => exact .second hp (h.1.trans hs) (h.2 _ hv) (ha.later hrest)

namespace Upload

variable {u u' : Upload μ} {c : RestClient υ} {mimeError : String → Option String}

/-- A call is booked as it should be. -/
def Books (u : Upload μ) : Prop := Booked u.call u.phase u.sent

theorem uploadMedia_eq_ok {rid : RoomId} {file : FileUpload} {a : Authentication}
    {request : UploadRequest} (h : c.uploadMedia mimeError rid file = .ok (a, request)) :
    request = .media rid file.part := by
  unfold RestClient.uploadMedia at h
  cases hendpoint : c.endpoint ["rooms.media", rid.text] with
  | error error => simp [hendpoint, bind, Except.bind] at h
  | ok =>
    cases hmime : file.contentType.bind mimeError with
    | some error =>
      simp [hendpoint, hmime, bind, Except.bind, throw, throwThe, MonadExceptOf.throw] at h
    | none =>
      cases hauth : c.authenticatedRequest with
      | error error => simp [hendpoint, hmime, hauth, bind, Except.bind] at h
      | ok b =>
        simp only [hendpoint, hmime, hauth, bind, Except.bind, pure, Except.pure,
          Except.ok.injEq, Prod.mk.injEq] at h
        exact h.2.symm

theorem confirmMedia_eq_ok {rid : RoomId} {fileId : UploadId} {confirm : ConfirmUpload}
    {a : Authentication} {request : UploadRequest}
    (h : c.confirmMedia rid fileId confirm = .ok (a, request)) :
    request = .confirm rid fileId confirm := by
  unfold RestClient.confirmMedia at h
  cases hrequest : c.request ["rooms.mediaConfirm", rid.text, fileId.text] with
  | error error => simp [hrequest, bind, Except.bind] at h
  | ok b =>
    simp only [hrequest, bind, Except.bind, pure, Except.pure, Except.ok.injEq,
      Prod.mk.injEq] at h
    exact h.2.symm

/-- A call that goes on. -/
theorem books_go (hb : u.Books) (hgo : u.go c mimeError = some u') : u'.Books := by
  obtain ⟨call, phase, sent, dropped⟩ := u
  cases hb with
  | begun call =>
    cases call with
    | uploadFile rid file confirm =>
      obtain rfl := Option.some.inj hgo
      cases hr : c.uploadMedia mimeError rid file with
      | ok p => exact .first (.inl rfl) (.sent (uploadMedia_eq_ok hr))
      | error error => exact .first (.inr (.inr ⟨error, rfl⟩)) (.unsent error)
    | uploadMedia rid file =>
      obtain rfl := Option.some.inj hgo
      cases hr : c.uploadMedia mimeError rid file with
      | ok p => exact .media (.inl rfl) (.sent (uploadMedia_eq_ok hr))
      | error error => exact .media (.inr ⟨_, rfl⟩) (.unsent error)
    | confirmMedia rid fileId confirm =>
      obtain rfl := Option.some.inj hgo
      cases hr : c.confirmMedia rid fileId confirm with
      | ok p => exact .confirm (.inl rfl) (.sent (confirmMedia_eq_ok hr))
      | error error => exact .confirm (.inr ⟨_, rfl⟩) (.unsent error)
  | media hp ha => rcases hp with rfl | ⟨r, rfl⟩ <;> cases hgo
  | confirm hp ha => rcases hp with rfl | ⟨r, rfl⟩ <;> cases hgo
  | @first rid file confirm phase sent hp ha =>
    rcases hp with rfl | ⟨f, rfl⟩ | ⟨error, rfl⟩
    · cases hgo
    · -- the file is stored, and its confirmation follows
      obtain rfl := Option.some.inj hgo
      cases ha with
      | done hs hv =>
        cases hr : c.confirmMedia rid f.id confirm with
        | ok p => exact .second (.inl rfl) hs hv (.sent (confirmMedia_eq_ok hr))
        | error error => exact .second (.inr ⟨.error error, rfl⟩) hs hv (.unsent error)
    · cases hgo
  | second hp hs hv ha => rcases hp with rfl | ⟨r, rfl⟩ <;> cases hgo

/-- The file is stored, and the call hears of it. -/
theorem books_heardMedia {file : UploadedFile} (hb : u.Books)
    (hv : u.sent.getLast?.bind Sent.verdict = some (.stored file))
    (hu : u.heardMedia (.ok file) = some u') : u'.Books := by
  obtain ⟨call, phase, sent, dropped⟩ := u
  cases hb with
  | begun call => cases call <;> cases hu
  | media hp ha =>
    rcases hp with rfl | ⟨r, rfl⟩
    · obtain rfl := Option.some.inj hu
      cases ha with
      | sent hs => exact .media (.inr ⟨_, rfl⟩) (.done hs hv)
    · cases hu
  | confirm hp ha => rcases hp with rfl | ⟨r, rfl⟩ <;> cases hu
  | first hp ha =>
    rcases hp with rfl | ⟨f, rfl⟩ | ⟨error, rfl⟩
    · obtain rfl := Option.some.inj hu
      cases ha with
      | sent hs => exact .first (.inr (.inl ⟨file, rfl⟩)) (.done hs hv)
    · cases hu
    · cases hu
  | second hp hs hv ha => rcases hp with rfl | ⟨r, rfl⟩ <;> cases hu

/-- The message is posted, and the call hears of it. -/
theorem books_heardConfirm {message : μ} (hb : u.Books)
    (hv : u.sent.getLast?.bind Sent.verdict = some (.posted message))
    (hu : u.heardConfirm (.ok message) = some u') : u'.Books := by
  obtain ⟨call, phase, sent, dropped⟩ := u
  cases hb with
  | begun call => cases call <;> cases hu
  | media hp ha => rcases hp with rfl | ⟨r, rfl⟩ <;> cases hu
  | confirm hp ha =>
    rcases hp with rfl | ⟨r, rfl⟩
    · obtain rfl := Option.some.inj hu
      cases ha with
      | sent hs => exact .confirm (.inr ⟨_, rfl⟩) (.done hs hv)
    · cases hu
  | first hp ha => rcases hp with rfl | ⟨f, rfl⟩ | ⟨error, rfl⟩ <;> cases hu
  | second hp hs hstored ha =>
    rcases hp with rfl | ⟨r, rfl⟩
    · obtain rfl := Option.some.inj hu
      cases ha with
      | sent ht => exact .second (.inr ⟨.ok message, rfl⟩) hs hstored (.done ht hv)
    · cases hu

/-- The call hears of no success. -/
theorem books_failed {error : RestError} (hb : u.Books)
    (hcertain : error.isCertain →
      ∃ refusal, u.sent.getLast?.bind Sent.verdict = some (.refused refusal))
    (hu : u.failed error = some u') : u'.Books := by
  obtain ⟨call, phase, sent, dropped⟩ := u
  -- A call that waits for an answer returns the failure; any other has none to hear of.
  cases hb with
  | begun call => cases call <;> cases hu
  | media hp ha =>
    rcases hp with rfl | ⟨r, rfl⟩
    · obtain rfl := Option.some.inj hu
      cases ha with
      | sent hs => exact .media (.inr ⟨_, rfl⟩) (.failed hs hcertain)
    · cases hu
  | confirm hp ha =>
    rcases hp with rfl | ⟨r, rfl⟩
    · obtain rfl := Option.some.inj hu
      cases ha with
      | sent hs => exact .confirm (.inr ⟨_, rfl⟩) (.failed hs hcertain)
    · cases hu
  | first hp ha =>
    rcases hp with rfl | ⟨f, rfl⟩ | ⟨error, rfl⟩
    · obtain rfl := Option.some.inj hu
      cases ha with
      | sent hs => exact .first (.inr (.inr ⟨_, rfl⟩)) (.failed hs hcertain)
    · cases hu
    · cases hu
  | second hp hs hstored ha =>
    rcases hp with rfl | ⟨r, rfl⟩
    · obtain rfl := Option.some.inj hu
      cases ha with
      | sent ht => exact .second (.inr ⟨.error error, rfl⟩) hs hstored (.failed ht hcertain)
    · cases hu

/-- The workspace handles a request: it was not handled before. -/
theorem books_serve {k : ℕ} {verdict : Verdict μ} (hb : u.Books) (hs : u.sent[k]? = some s)
    (hnone : s.verdict = none) : (u.serve k verdict).Books := by
  refine hb.later (List.forall₂_iff_get.mpr ⟨(List.length_modify _ _ _).symm, fun i hi hi' => ?_⟩)
  simp only [serve, List.get_eq_getElem, List.getElem_modify]
  split
  · rename_i hk
    subst hk
    obtain rfl : u.sent[k] = s := by simpa [List.getElem?_eq_some_iff, hi] using hs
    exact ⟨rfl, fun v hv => by simp [hnone] at hv⟩
  · exact .refl _

/-- What a step does to one call. -/
inductive Moves (w : UploadWorld υ μ) (u : Upload μ) : Upload μ → Prop
  | go {next : Upload μ} (hu : u.go w.rest w.mimeError = some next) : Moves w u next
  | serve {k : ℕ} {s : Sent μ} {verdict : Verdict μ} (hs : u.sent[k]? = some s)
      (hnone : s.verdict = none) (hallows : w.allows s verdict) : Moves w u (u.serve k verdict)
  | reply {next : Upload μ} (hu : u.reply = some next) : Moves w u next
  | fail {next : Upload μ} {error : RestError} (hcertain : error.isCertain = false)
      (hu : u.failed error = some next) : Moves w u next
  | drop {next : Upload μ} (hu : u.drop = some next) : Moves w u next

variable {w : UploadWorld υ μ}

/-- **One step of a call** keeps it booked. -/
theorem Moves.books (hm : Moves w u u') (hb : u.Books) : u'.Books := by
  cases hm with
  | go hu => exact books_go hb hu
  | serve hs hnone hallows => exact books_serve hb hs hnone
  | reply hu =>
    unfold Upload.reply at hu
    split at hu
    · exact books_heardMedia hb ‹_› hu
    · exact books_heardConfirm hb ‹_› hu
    · exact books_failed hb (fun _ => ⟨_, ‹_›⟩) hu
    · cases hu
  | fail hcertain hu => exact books_failed hb (fun hc => absurd hc (by simp [hcertain])) hu
  | drop hu =>
    unfold Upload.drop at hu
    split at hu
    · cases hu
    · obtain rfl := Option.some.inj hu
      exact hb

end Upload

/-! ### Runs -/

namespace UploadWorld

variable {w w' : UploadWorld υ μ} {h o : List (RestNote υ)} {input : UploadInput υ μ} {n : ℕ}
  {u u' : Upload μ}

theorem turn_eq_some {next : Upload μ → Option (Upload μ)} (hw : w.turn n next = some w') :
    ∃ u u', w.uploads[n]? = some u ∧ next u = some u' ∧ w'.uploads = w.uploads.set n u' := by
  obtain ⟨u', hu', rfl⟩ := Option.map_eq_some_iff.mp hw
  obtain ⟨u, hu, hnext⟩ := Option.bind_eq_some_iff.mp hu'
  exact ⟨u, u', hu, hnext, rfl⟩

theorem poll_eq_some {next : Upload μ → Option (Upload μ)} (hw : w.poll n next = some (w', o)) :
    ∃ u u', w.uploads[n]? = some u ∧ next u = some u' ∧ w'.uploads = w.uploads.set n u' := by
  obtain ⟨w₁, hturn, heq⟩ := Option.map_eq_some_iff.mp hw
  obtain ⟨rfl, -⟩ := Prod.mk.inj heq
  obtain ⟨u, u', hu, hnext, hset⟩ := turn_eq_some hturn
  split at hnext
  · cases hnext
  · exact ⟨u, u', hu, hnext, hset⟩

/-- **What one step does to the calls**: nothing, one more comes, or one moves. -/
theorem step_cases (hs : w.step input = some (w', o)) :
    w'.uploads = w.uploads ∨
      (∃ call, input = .call call ∧ w'.uploads = w.uploads ++ [{ call := call }]) ∨
        ∃ n u u', w.uploads[n]? = some u ∧ Upload.Moves w u u' ∧
          w'.uploads = w.uploads.set n u' := by
  cases input with
  | rest input =>
    obtain ⟨p, -, heq⟩ := Option.map_eq_some_iff.mp hs
    obtain ⟨rfl, -⟩ := Prod.mk.inj heq
    exact .inl rfl
  | call call =>
    obtain ⟨rfl, -⟩ := Prod.mk.inj (Option.some.inj hs)
    exact .inr (.inl ⟨call, rfl, rfl⟩)
  | go n =>
    obtain ⟨u, u', hu, hnext, hset⟩ := poll_eq_some hs
    exact .inr (.inr ⟨n, u, u', hu, .go hnext, hset⟩)
  | serve n k verdict =>
    obtain ⟨w₁, hturn, heq⟩ := Option.map_eq_some_iff.mp hs
    obtain ⟨rfl, -⟩ := Prod.mk.inj heq
    obtain ⟨u, u', hu, hnext, hset⟩ := turn_eq_some hturn
    obtain ⟨s, hs, hif⟩ := Option.bind_eq_some_iff.mp hnext
    -- The request has no verdict yet, and the workspace may give this one.
    obtain ⟨hguard, heq⟩ := Option.ite_none_right_eq_some.mp hif
    obtain ⟨hnone, hallows⟩ := Bool.and_eq_true_iff.mp hguard
    obtain rfl := Option.some.inj heq
    exact .inr (.inr ⟨n, u, _, hu, .serve hs (Option.isNone_iff_eq_none.mp hnone) hallows, hset⟩)
  | reply n =>
    obtain ⟨u, u', hu, hnext, hset⟩ := poll_eq_some hs
    exact .inr (.inr ⟨n, u, u', hu, .reply hnext, hset⟩)
  | fail n error =>
    obtain ⟨hcertain, hs⟩ := Option.ite_none_left_eq_some.mp hs
    obtain ⟨u, u', hu, hnext, hset⟩ := poll_eq_some hs
    exact .inr (.inr ⟨n, u, u', hu, .fail (Bool.not_eq_true _ ▸ hcertain) hnext, hset⟩)
  | drop n =>
    obtain ⟨u, u', hu, hnext, hset⟩ := poll_eq_some hs
    exact .inr (.inr ⟨n, u, u', hu, .drop hnext, hset⟩)
  | sweep id =>
    obtain ⟨-, hs⟩ := Option.ite_none_left_eq_some.mp hs
    obtain ⟨rfl, -⟩ := Prod.mk.inj (Option.some.inj hs)
    exact .inl rfl

/-! ### What a call left -/

/-- Every call is booked. -/
def Books (w : UploadWorld υ μ) : Prop := ∀ u ∈ w.uploads, u.Books

theorem Books.step (hb : w.Books) (hs : w.step input = some (w', o)) : w'.Books := by
  intro u hu
  rcases step_cases hs with heq | ⟨call, -, heq⟩ | ⟨n, v, v', hv, hm, heq⟩
  · exact hb u (heq ▸ hu)
  · rcases List.mem_append.mp (heq ▸ hu) with hu | hu
    · exact hb u hu
    · obtain rfl := List.mem_singleton.mp hu
      exact .begun call
  · rcases List.mem_or_eq_of_mem_set (heq ▸ hu) with hu | rfl
    · exact hb u hu
    · exact hm.books (hb v (List.mem_of_getElem? hv))

theorem Books.of_run {rest : RestClient υ} {mimeError : String → Option String}
    (hrun : Run UploadWorld.step (init rest mimeError) h w) : Books w :=
  hrun.invariant (I := fun _ w => Books w) (fun _ hu => absurd hu List.not_mem_nil) Books.step

end UploadWorld

namespace Upload

variable {u : Upload μ}

/-- What the workspace has of a call: a call that returned without an error left what it was to
leave; one that returned a refusal left nothing by the request refused; and any other left at
most that. -/
def Settled (u : Upload μ) : Prop :=
  match u.call, u.phase with
  | .uploadFile rid file confirm, .returned (.uploadFile (.ok message)) =>
    ∃ owner uploaded, u.stored = [⟨owner, rid, file.part, uploaded⟩] ∧
      u.posted = [⟨rid, uploaded.id, confirm, message⟩]
  | .uploadFile .., .returned (.uploadFile (.error (.upload error))) =>
    u.posted = [] ∧ u.stored.length ≤ 1 ∧ (error.isCertain → u.stored = [])
  | .uploadFile rid file _, .returned (.uploadFile (.error (.confirm uploaded error))) =>
    (∃ owner, u.stored = [⟨owner, rid, file.part, uploaded⟩]) ∧ u.posted.length ≤ 1 ∧
      (error.isCertain → u.posted = [])
  | .uploadMedia rid file, .returned (.uploadMedia (.ok uploaded)) =>
    u.posted = [] ∧ ∃ owner, u.stored = [⟨owner, rid, file.part, uploaded⟩]
  | .uploadMedia .., .returned (.uploadMedia (.error error)) =>
    u.posted = [] ∧ u.stored.length ≤ 1 ∧ (error.isCertain → u.stored = [])
  | .confirmMedia rid fileId confirm, .returned (.confirmMedia (.ok message)) =>
    u.stored = [] ∧ u.posted = [⟨rid, fileId, confirm, message⟩]
  | .confirmMedia .., .returned (.confirmMedia (.error error)) =>
    u.stored = [] ∧ u.posted.length ≤ 1 ∧ (error.isCertain → u.posted = [])
  | _, _ => u.stored.length ≤ 1 ∧ u.posted.length ≤ 1

end Upload

section

variable {rid : RoomId} {part : Part} {fileId : UploadId} {confirm : ConfirmUpload}

/-- A request leaves one thing at most. -/
theorem length_filterMap_le {α : Type} {f : Sent μ → Option α} (ha : Attempt request answer sent) :
    (sent.filterMap f).length ≤ 1 := by
  refine (List.length_filterMap_le f sent).trans ?_
  cases ha <;> simp

theorem Attempt.posted_media (ha : Attempt (.media rid part) answer sent) :
    sent.filterMap Sent.posted = [] := by
  cases ha with
  | unsent error => rfl
  | sent hs | done hs hv | failed hs hc => simp [Sent.posted, hs]

/-- A request for storing posts nothing. -/
theorem posted_cons {rest : List (Sent μ)} (hs : s.request = .media rid part) :
    (s :: rest).filterMap Sent.posted = rest.filterMap Sent.posted := by
  rw [List.filterMap_cons]
  simp [Sent.posted, hs]

theorem Attempt.stored_confirm (ha : Attempt (.confirm rid fileId confirm) answer sent) :
    sent.filterMap Sent.stored = [] := by
  cases ha with
  | unsent error => rfl
  | sent hs | done hs hv | failed hs hc => simp [Sent.stored, hs]

/-- A request that was refused left nothing. -/
theorem Attempt.of_certain {error : RestError}
    (ha : Attempt request (some (.error error)) sent) (hc : error.isCertain) :
    sent.filterMap Sent.stored = [] ∧ sent.filterMap Sent.posted = [] := by
  cases ha with
  | unsent error => exact ⟨rfl, rfl⟩
  | failed hs hcertain =>
    obtain ⟨refusal, hv⟩ := hcertain hc
    constructor
    · simp [Sent.stored, hv]
    · simp [Sent.posted, hv]

theorem Attempt.stored_media {file : UploadedFile}
    (ha : Attempt (.media rid part) (some (.ok (.stored file))) sent) :
    ∃ owner, sent.filterMap Sent.stored = [⟨owner, rid, part, file⟩] := by
  cases ha with
  | done hs hv => exact ⟨_, by simp [Sent.stored, hs, hv]; rfl⟩

/-- A message is posted with the upload that the request names. -/
theorem Attempt.fileId_of_posted (ha : Attempt (.confirm rid fileId confirm) answer sent) :
    ∀ p ∈ sent.filterMap Sent.posted, p.fileId = fileId := by
  intro p hp
  obtain ⟨s, hs, hpost⟩ := List.mem_filterMap.mp hp
  have hrequest : s.request = .confirm rid fileId confirm := by
    cases ha <;> simp_all
  unfold Sent.posted at hpost
  rw [hrequest] at hpost
  split at hpost
  · rename_i heq _
    obtain ⟨rfl, rfl, rfl⟩ := UploadRequest.confirm.inj heq
    obtain rfl := Option.some.inj hpost
    rfl
  · cases hpost

theorem Attempt.posted_confirm {message : μ}
    (ha : Attempt (.confirm rid fileId confirm) (some (.ok (.posted message))) sent) :
    sent.filterMap Sent.posted = [⟨rid, fileId, confirm, message⟩] := by
  cases ha with
  | done hs hv => simp [Sent.posted, hs, hv]

end

namespace Upload

variable {u : Upload μ}

/-- A call that is booked left what its phase says. -/
theorem Books.settled (hb : u.Books) : u.Settled := by
  obtain ⟨call, phase, sent, dropped⟩ := u
  cases hb with
  | begun call => cases call <;> exact ⟨Nat.zero_le _, Nat.zero_le _⟩
  | media hp ha =>
    have hposted := ha.posted_media
    have hstored := length_filterMap_le (f := Sent.stored) ha
    rcases hp with rfl | ⟨error | uploaded, rfl⟩
    · exact ⟨hstored, by rw [posted, hposted]; exact Nat.zero_le _⟩
    · exact ⟨hposted, hstored, fun hc => (ha.of_certain hc).1⟩
    · exact ⟨hposted, ha.stored_media⟩
  | confirm hp ha =>
    have hstored := ha.stored_confirm
    have hposted := length_filterMap_le (f := Sent.posted) ha
    rcases hp with rfl | ⟨error | message, rfl⟩
    · exact ⟨by rw [stored, hstored]; exact Nat.zero_le _, hposted⟩
    · exact ⟨hstored, hposted, fun hc => (ha.of_certain hc).2⟩
    · exact ⟨hstored, ha.posted_confirm⟩
  | first hp ha =>
    have hposted := ha.posted_media
    have hstored := length_filterMap_le (f := Sent.stored) ha
    have hnothing : ([] : List (Posted μ)).length ≤ 1 := Nat.zero_le _
    rcases hp with rfl | ⟨f, rfl⟩ | ⟨error, rfl⟩
    · exact ⟨hstored, by rw [posted, hposted]; exact hnothing⟩
    · exact ⟨hstored, by rw [posted, hposted]; exact hnothing⟩
    · exact ⟨hposted, hstored, fun hc => (ha.of_certain hc).1⟩
  -- The first request stored the file, and the second one posts it.
  | @second rid file confirm phase f s rest hp hs hv ha =>
    have hone : (s :: rest).filterMap Sent.stored = [⟨s.sender.userId, rid, file.part, f⟩] := by
      rw [List.filterMap_cons, ha.stored_confirm]
      simp [Sent.stored, hs, hv]
    have hrest : (s :: rest).filterMap Sent.posted = rest.filterMap Sent.posted :=
      posted_cons hs
    have hposted := length_filterMap_le (f := Sent.posted) ha
    rw [← hrest] at hposted
    rcases hp with rfl | ⟨error | message, rfl⟩
    · exact ⟨by rw [stored, hone]; exact Nat.le_refl _, hposted⟩
    · exact ⟨⟨_, hone⟩, hposted, fun hc => hrest.trans (ha.of_certain hc).2⟩
    · exact ⟨_, f, hone, hrest.trans ha.posted_confirm⟩

end Upload

/-- **What a call returns says what it left**, in every run, whatever the workspace, the network
and the other calls do, and for ever after. -/
theorem upload_settled {rest : RestClient υ} {mimeError : String → Option String}
    {h : List (RestNote υ)} {w : UploadWorld υ μ}
    (hrun : Run UploadWorld.step (UploadWorld.init rest mimeError) h w) :
    ∀ u ∈ w.uploads, u.Settled :=
  fun u hu => (UploadWorld.Books.of_run hrun u hu).settled

/-- A client that is logged in, with a library that takes every string. -/
def uploader : RestClient Unit := .init ⟨true, fun _ => true⟩ (some ⟨⟨"bot"⟩, ⟨"token"⟩⟩)

/-- A file is stored for a call. -/
def storeOne : List (UploadInput Unit String) :=
  [.call (.uploadFile ⟨"GENERAL"⟩ { fileName := "report.pdf", bytes := [] } {}), .go 0,
    .serve 0 0 (.stored ⟨⟨"upload"⟩, "/file-upload/upload/report.pdf"⟩)]

/-- Its answer is lost: it is stored, though the comment on `UploadError::Upload` says that nothing
was. -/
theorem upload_settled_lost : ∃ (h : List (RestNote Unit)) (w : UploadWorld Unit String),
    Run UploadWorld.step (.init uploader fun _ => none) h w ∧
    w.uploads.map (fun u => (u.stored.length, u.posted.length)) = [(1, 0)] ∧
    ∀ u ∈ w.uploads, u.Settled := by
  have hrun : Run UploadWorld.step (.init uploader fun _ => none) _ _ :=
    run_execute (storeOne ++ [.fail 0 (.transport "timeout")]) (by decide +kernel)
  exact ⟨_, _, hrun, by decide +kernel, upload_settled hrun⟩

/-! ### Posting an upload once -/

namespace Upload

/-- The call may post an upload, or may have. -/
def mayPost (u : Upload μ) (id : UploadId) : Bool :=
  match u.call with
  | .uploadFile .. => u.stores id
  | .confirmMedia _ fileId _ => fileId = id
  | .uploadMedia .. => false

/-- The confirmation was refused. -/
def refused (u : Upload μ) : Bool :=
  match u.phase with
  | .returned (.uploadFile (.error (.confirm _ error))) => error.isCertain
  | .returned (.confirmMedia (.error error)) => error.isCertain
  | _ => false

/-- The upload whose id the caller got, while it is not confirmed. -/
def handsOut (u : Upload μ) : Option UploadId :=
  match u.phase with
  | .returned (.uploadFile (.error error)) => error.orphanedFile.map UploadedFile.id
  | .returned (.uploadMedia (.ok file)) => some file.id
  | _ => none

variable {u u' : Upload μ} {w : UploadWorld υ μ} {id : UploadId}

theorem Books.stores_of_handsOut (hb : u.Books) (hid : u.handsOut = some id) : u.stores id := by
  have hsettled := hb.settled
  obtain ⟨call, phase, sent, dropped⟩ := u
  cases hb with
  | begun call => cases hid
  | media hp ha =>
    rcases hp with rfl | ⟨error | uploaded, rfl⟩
    · cases hid
    · cases hid
    · obtain ⟨-, owner, hstored⟩ := hsettled
      have heq : uploaded.id = id := Option.some.inj hid
      simp [stores, hstored, heq]
  | confirm hp ha => rcases hp with rfl | ⟨r, rfl⟩ <;> cases hid
  | first hp ha => rcases hp with rfl | ⟨f, rfl⟩ | ⟨error, rfl⟩ <;> cases hid
  | @second rid file confirm phase f s rest hp hs hv ha =>
    rcases hp with rfl | ⟨error | message, rfl⟩
    · cases hid
    · obtain ⟨⟨owner, hstored⟩, -⟩ := hsettled
      have heq : f.id = id := Option.some.inj hid
      simp [stores, hstored, heq]
    · cases hid

/-- A call posts one message at most, none if it was refused, and only what it may. -/
theorem Books.posted_spec (hb : u.Books) : u.posted.length ≤ 1 ∧ (u.refused → u.posted = []) ∧
    ∀ p ∈ u.posted, u.mayPost p.fileId := by
  obtain ⟨call, phase, sent, dropped⟩ := u
  cases hb with
  | begun call => exact ⟨Nat.zero_le _, fun _ => rfl, fun p hp => absurd hp List.not_mem_nil⟩
  | media hp ha =>
    rw [posted, ha.posted_media]
    exact ⟨Nat.zero_le _, fun _ => rfl, fun p hp => absurd hp List.not_mem_nil⟩
  | first hp ha =>
    rw [posted, ha.posted_media]
    exact ⟨Nat.zero_le _, fun _ => rfl, fun p hp => absurd hp List.not_mem_nil⟩
  -- A refused confirmation posted nothing, and any other one posts this file.
  | confirm hp ha =>
    refine ⟨length_filterMap_le ha, fun hr => ?_, fun p hpost => ?_⟩
    · rcases hp with rfl | ⟨error | message, rfl⟩
      · cases hr
      · exact (ha.of_certain hr).2
      · cases hr
    · exact decide_eq_true (ha.fileId_of_posted p hpost).symm
  | @second rid file confirm phase f s rest hp hs hv ha =>
    rw [posted, posted_cons hs]
    refine ⟨length_filterMap_le ha, fun hr => ?_, fun p hpost => ?_⟩
    · rcases hp with rfl | ⟨error | message, rfl⟩
      · cases hr
      · exact (ha.of_certain hr).2
      · cases hr
    · rw [ha.fileId_of_posted p hpost]
      simp [mayPost, stores, stored, Sent.stored, hs, hv]

/-- Nothing more is stored for a call that moves on its own, and it was not over before. -/
structure Continues (u u' : Upload μ) : Prop where
  call : u'.call = u.call
  stored : u'.stored = u.stored
  going : ∀ outcome, u.phase ≠ .returned outcome

theorem continues_ask {request : Except RestError (Authentication × UploadRequest)}
    {waiting : UploadPhase μ} {failed : RestError → UploadOutcome μ}
    (hgoing : ∀ outcome, u.phase ≠ .returned outcome) :
    Continues u (u.ask request waiting failed) := by
  cases request with
  | ok p =>
    refine ⟨rfl, ?_, hgoing⟩
    have hnone : Sent.stored (μ := μ) ⟨p.1, p.2, none⟩ = none := by
      cases hp : p.2 <;> simp [Sent.stored]
    simp [ask, stored, hnone]
  | error error => exact ⟨rfl, rfl, hgoing⟩

theorem continues_go {c : RestClient υ} {mimeError : String → Option String}
    (hu : u.go c mimeError = some u') : Continues u u' := by
  unfold Upload.go at hu
  split at hu
  all_goals first
    | obtain rfl := Option.some.inj hu
      exact continues_ask fun outcome => by simp_all
    | cases hu

theorem continues_heardMedia {answer : Except RestError UploadedFile}
    (hu : u.heardMedia answer = some u') : Continues u u' := by
  unfold heardMedia at hu
  split at hu
  all_goals first
    | obtain rfl := Option.some.inj hu
      exact ⟨rfl, rfl, fun outcome => by simp_all⟩
    | cases hu

theorem continues_heardConfirm {answer : Except RestError μ}
    (hu : u.heardConfirm answer = some u') : Continues u u' := by
  unfold heardConfirm at hu
  split at hu
  all_goals first
    | obtain rfl := Option.some.inj hu
      exact ⟨rfl, rfl, fun outcome => by simp_all⟩
    | cases hu

theorem continues_failed {error : RestError} (hu : u.failed error = some u') : Continues u u' := by
  rcases Option.or_eq_some_iff.mp hu with hu | ⟨-, hu⟩
  · exact continues_heardMedia hu
  · exact continues_heardConfirm hu

theorem continues_drop (hu : u.drop = some u') : Continues u u' := by
  unfold Upload.drop at hu
  split at hu
  · cases hu
  · rename_i hphase
    obtain rfl := Option.some.inj hu
    exact ⟨rfl, rfl, hphase⟩

theorem continues_reply (hu : u.reply = some u') : Continues u u' := by
  unfold Upload.reply at hu
  split at hu
  · exact continues_heardMedia hu
  · exact continues_heardConfirm hu
  · exact continues_failed hu
  · cases hu

/-- A call moves on its own, or the workspace handles a request of it. -/
theorem Moves.continues_or (hm : Moves w u u') : Continues u u' ∨
    ∃ k s verdict, u.sent[k]? = some s ∧ w.allows s verdict ∧ u' = u.serve k verdict := by
  cases hm with
  | go hu => exact .inl (continues_go hu)
  | serve hs hnone hallows => exact .inr ⟨_, _, _, hs, hallows, rfl⟩
  | reply hu => exact .inl (continues_reply hu)
  | fail hcertain hu => exact .inl (continues_failed hu)
  | drop hu => exact .inl (continues_drop hu)

theorem stores_serve {k : ℕ} {verdict : Verdict μ} (hid : (u.serve k verdict).stores id) :
    u.stores id ∨ ∃ file, verdict = .stored file ∧ file.id = id := by
  obtain ⟨x, hx, hfile⟩ := List.any_eq_true.mp hid
  obtain ⟨s, hs, hstored⟩ := List.mem_filterMap.mp hx
  obtain ⟨i, hi⟩ := List.mem_iff_getElem?.mp hs
  rw [serve, List.getElem?_modify] at hi
  obtain ⟨t, ht, rfl⟩ := Option.map_eq_some_iff.mp hi
  split at hstored
  · -- the request that is handled now
    right
    unfold Sent.stored at hstored
    split at hstored
    · rename_i file _ hverdict
      obtain rfl := Option.some.inj hstored
      exact ⟨file, Option.some.inj hverdict, of_decide_eq_true hfile⟩
    · cases hstored
  · left
    exact List.any_eq_true.mpr
      ⟨x, List.mem_filterMap.mpr ⟨t, List.mem_of_getElem? ht, hstored⟩, hfile⟩

theorem fresh_of_allows {file : UploadedFile} {s : Sent μ}
    (hallows : w.allows s (.stored file)) : ∀ v ∈ w.uploads, v.stores file.id = false := by
  simp only [UploadWorld.allows] at hallows
  split at hallows
  · simpa using hallows
  · cases hallows

/-- **What a move does to an upload.**  It stays the same call; if it returned it stays so; and
what is stored for it was stored before, or has a fresh id. -/
theorem Moves.spec (hm : Moves w u u') : u'.call = u.call ∧
    (∀ outcome, u.phase = .returned outcome → u'.phase = .returned outcome) ∧
      ∀ id, u'.stores id → u.stores id ∨ ∀ v ∈ w.uploads, v.stores id = false := by
  rcases hm.continues_or with hc | ⟨k, s, verdict, -, hallows, rfl⟩
  · refine ⟨hc.call, fun outcome hphase => absurd hphase (hc.going outcome), fun id hid => ?_⟩
    rw [stores, hc.stored] at hid
    exact .inl hid
  · refine ⟨rfl, fun outcome => id, fun id hid => ?_⟩
    rcases stores_serve hid with hid | ⟨file, rfl, rfl⟩
    · exact .inl hid
    · exact .inr (fresh_of_allows hallows)

theorem Moves.refused (hm : Moves w u u') (hr : u.refused) : u'.refused := by
  obtain ⟨outcome, hphase⟩ : ∃ outcome, u.phase = .returned outcome := by
    unfold Upload.refused at hr
    split at hr
    · exact ⟨_, ‹_›⟩
    · exact ⟨_, ‹_›⟩
    · cases hr
  rw [Upload.refused, hm.spec.2.1 outcome hphase, ← hphase]
  exact hr

theorem Moves.handsOut (hm : Moves w u u') (hid : u.handsOut = some id) :
    u'.handsOut = some id := by
  obtain ⟨outcome, hphase⟩ : ∃ outcome, u.phase = .returned outcome := by
    unfold Upload.handsOut at hid
    split at hid
    · exact ⟨_, ‹_›⟩
    · exact ⟨_, ‹_›⟩
    · cases hid
  rw [Upload.handsOut, hm.spec.2.1 outcome hphase, ← hphase]
  exact hid

theorem Moves.mayPost (hm : Moves w u u') (hid : u'.mayPost id) :
    u.mayPost id ∨ ∀ v ∈ w.uploads, v.stores id = false := by
  obtain ⟨hcall, -, hstores⟩ := hm.spec
  unfold Upload.mayPost at hid ⊢
  rw [hcall] at hid
  cases hc : u.call with
  | uploadFile rid file confirm =>
    rw [hc] at hid
    exact hstores id hid
  | uploadMedia rid file =>
    rw [hc] at hid
    cases hid
  | confirmMedia rid fileId confirm =>
    rw [hc] at hid
    exact .inl hid

end Upload

namespace UploadWorld

/-- The step confirms an upload only where its id was handed out and every call that may post it
was refused. -/
def Careful (w : UploadWorld υ μ) : UploadInput υ μ → Prop
  | .call (.confirmMedia _ fileId _) => (∃ u ∈ w.uploads, u.handsOut = some fileId) ∧
      ∀ u ∈ w.uploads, u.mayPost fileId → u.refused
  | _ => True

instance (w : UploadWorld υ μ) (input : UploadInput υ μ) : Decidable (w.Careful input) := by
  unfold Careful
  split <;> infer_instance

/-- Of two calls that may post an upload one was refused, at least. -/
structure Tidy (w : UploadWorld υ μ) : Prop where
  books : w.Books
  /-- No two calls were given one id. -/
  unique : ∀ (n m : ℕ) (id : UploadId) (u v : Upload μ), w.uploads[n]? = some u →
    w.uploads[m]? = some v → u.stores id → v.stores id → n = m
  /-- What is confirmed alone was handed out. -/
  known : ∀ u ∈ w.uploads, ∀ rid fileId confirm, u.call = .confirmMedia rid fileId confirm →
    ∃ v ∈ w.uploads, v.handsOut = some fileId
  alone : ∀ (n m : ℕ) (id : UploadId) (u v : Upload μ), n ≠ m → w.uploads[n]? = some u →
    w.uploads[m]? = some v → u.mayPost id → v.mayPost id → u.refused ∨ v.refused

variable {w w' : UploadWorld υ μ} {h o : List (RestNote υ)} {input : UploadInput υ μ} {n : ℕ}
  {u u' : Upload μ} {id : UploadId}

/-- What nobody stored nobody posts. -/
theorem Tidy.not_mayPost (ht : w.Tidy) (hfresh : ∀ v ∈ w.uploads, v.stores id = false) :
    ∀ v ∈ w.uploads, ¬ v.mayPost id := by
  intro v hv hid
  unfold Upload.mayPost at hid
  split at hid
  · rw [hfresh v hv] at hid
    cases hid
  · rename_i hcall
    obtain rfl := of_decide_eq_true hid
    obtain ⟨x, hx, hout⟩ := ht.known v hv _ _ _ hcall
    have hstores := (ht.books x hx).stores_of_handsOut hout
    rw [hfresh x hx] at hstores
    cases hstores
  · cases hid

/-- One more call. -/
theorem Tidy.concat {call : UploadCall} (ht : w.Tidy) (hc : w.Careful (.call call))
    (hw : w'.uploads = w.uploads ++ [{ call := call }]) (hb : w'.Books) : w'.Tidy := by
  -- Only a confirmation may post, and then every other call that may was refused before.
  have hnew : ∀ id, ({ call := call } : Upload μ).mayPost id →
      ∀ v ∈ w.uploads, v.mayPost id → v.refused := by
    intro id hid v hv hpost
    cases call with
    | uploadFile rid file confirm => cases hid
    | uploadMedia rid file => cases hid
    | confirmMedia rid fileId confirm =>
      obtain rfl := of_decide_eq_true hid
      exact hc.2 v hv hpost
  refine ⟨hb, ?_, ?_, ?_⟩
  · intro n m id u v hu hv hstores hstores'
    rw [hw] at hu hv
    -- The new call has stored nothing.
    rcases getElem?_of_concat hu with ⟨-, rfl⟩ | hu
    · cases hstores
    · rcases getElem?_of_concat hv with ⟨-, rfl⟩ | hv
      · cases hstores'
      · exact ht.unique n m id u v hu hv hstores hstores'
  · intro u hu rid fileId confirm hcall
    rw [hw] at hu ⊢
    obtain ⟨v, hv, hout⟩ : ∃ v ∈ w.uploads, v.handsOut = some fileId := by
      rcases List.mem_append.mp hu with hu | hu
      · exact ht.known u hu rid fileId confirm hcall
      · obtain rfl := List.mem_singleton.mp hu
        obtain rfl : call = .confirmMedia rid fileId confirm := hcall
        exact hc.1
    exact ⟨v, List.mem_append_left _ hv, hout⟩
  · intro n m id u v hne hu hv hpost hpost'
    rw [hw] at hu hv
    -- Either is the new call, or neither is.
    rcases getElem?_of_concat hu with ⟨rfl, rfl⟩ | hu
    · rcases getElem?_of_concat hv with ⟨rfl, rfl⟩ | hv
      · exact absurd rfl hne
      · exact .inr (hnew id hpost v (List.mem_of_getElem? hv) hpost')
    · rcases getElem?_of_concat hv with ⟨rfl, rfl⟩ | hv
      · exact .inl (hnew id hpost' u (List.mem_of_getElem? hu) hpost)
      · exact ht.alone n m id u v hne hu hv hpost hpost'

/-- One call moves. -/
theorem Tidy.set (ht : w.Tidy) (hn : w.uploads[n]? = some u) (hm : Upload.Moves w u u')
    (hw : w'.uploads = w.uploads.set n u') (hb : w'.Books) : w'.Tidy := by
  have hu : u ∈ w.uploads := List.mem_of_getElem? hn
  -- what holds of the call that moved and another
  have hstores : ∀ (id : UploadId) (m : ℕ) (v : Upload μ), w.uploads[m]? = some v → m ≠ n →
      u'.stores id → ¬ v.stores id := by
    intro id m v hv hne hid hid'
    rcases hm.spec.2.2 id hid with hid | hfresh
    · exact hne (ht.unique m n id v u hv hn hid' hid)
    · rw [hfresh v (List.mem_of_getElem? hv)] at hid'
      cases hid'
  have halone : ∀ (id : UploadId) (m : ℕ) (v : Upload μ), w.uploads[m]? = some v → m ≠ n →
      u'.mayPost id → v.mayPost id → u'.refused ∨ v.refused := by
    intro id m v hv hne hid hid'
    rcases hm.mayPost hid with hid | hfresh
    · exact (ht.alone n m id u v hne.symm hn hv hid hid').imp_left hm.refused
    · exact absurd hid' (ht.not_mayPost hfresh v (List.mem_of_getElem? hv))
  refine ⟨hb, ?_, ?_, ?_⟩
  · intro k m id x y hx hy hid hid'
    rw [hw] at hx hy
    rcases getElem?_of_set hx with ⟨rfl, rfl⟩ | ⟨hk, hold⟩
    · rcases getElem?_of_set hy with ⟨rfl, rfl⟩ | ⟨hm, hy⟩
      · rfl
      · exact absurd hid' (hstores id m y hy hm hid)
    · rcases getElem?_of_set hy with ⟨rfl, rfl⟩ | ⟨hm, hy⟩
      · exact absurd hid (hstores id k x hold hk hid')
      · exact ht.unique k m id x y hold hy hid hid'
  · intro x hx rid fileId confirm hcall
    rw [hw] at hx ⊢
    obtain ⟨v, hv, hout⟩ : ∃ v ∈ w.uploads, v.handsOut = some fileId := by
      rcases List.mem_or_eq_of_mem_set hx with hx | rfl
      · exact ht.known x hx rid fileId confirm hcall
      · exact ht.known u hu rid fileId confirm (hm.spec.1.symm.trans hcall)
    obtain ⟨m, hv⟩ := List.mem_iff_getElem?.mp hv
    by_cases hmn : m = n
    · subst hmn
      obtain rfl := Option.some.inj (hn.symm.trans hv)
      refine ⟨u', List.mem_of_getElem? (i := m) ?_, hm.handsOut hout⟩
      rw [List.getElem?_set_self (List.getElem?_eq_some_iff.mp hn).1]
    · refine ⟨v, List.mem_of_getElem? (i := m) ?_, hout⟩
      rw [List.getElem?_set_ne (Ne.symm hmn), hv]
  · intro k m id x y hne hx hy hid hid'
    rw [hw] at hx hy
    rcases getElem?_of_set hx with ⟨rfl, rfl⟩ | ⟨hk, hold⟩
    · rcases getElem?_of_set hy with ⟨rfl, rfl⟩ | ⟨hm, hy⟩
      · exact absurd rfl hne
      · exact halone id m y hy hm hid hid'
    · rcases getElem?_of_set hy with ⟨rfl, rfl⟩ | ⟨hm, hy⟩
      · exact (halone id k x hold hk hid' hid).symm
      · exact ht.alone k m id x y hne hold hy hid hid'

/-- **One careful step.** -/
theorem Tidy.step (ht : w.Tidy) (hc : w.Careful input) (hs : w.step input = some (w', o)) :
    w'.Tidy := by
  have hb := ht.books.step hs
  rcases step_cases hs with hw | ⟨call, rfl, hw⟩ | ⟨n, u, u', hn, hm, hw⟩
  · exact ⟨hb, hw ▸ ht.unique, hw ▸ ht.known, hw ▸ ht.alone⟩
  · exact ht.concat hc hw hb
  · exact ht.set hn hm hw hb

end UploadWorld

/-- Lists of which only one has an element, and only one. -/
theorem length_flatMap_le_one {α β : Type} {f : α → List β} {l : List α}
    (hone : ∀ x ∈ l, (f x).length ≤ 1) (hpair : l.Pairwise fun x y => f x = [] ∨ f y = []) :
    (l.flatMap f).length ≤ 1 := by
  induction l with
  | nil => exact Nat.zero_le _
  | cons x l ih =>
    obtain ⟨hx, hl⟩ := List.pairwise_cons.mp hpair
    obtain ⟨hfx, hrest⟩ := List.forall_mem_cons.mp hone
    rw [List.flatMap_cons]
    by_cases hempty : f x = []
    · rw [hempty]
      exact ih hrest hl
    · have hnil : l.flatMap f = [] :=
        List.flatMap_eq_nil_iff.mpr fun y hy => (hx y hy).resolve_left hempty
      rw [hnil, List.append_nil]
      exact hfx

/-- **Careful callers post an upload once**, at most, in every run. -/
theorem posted_once {rest : RestClient υ} {mimeError : String → Option String}
    {h : List (RestNote υ)} {w : UploadWorld υ μ}
    (hrun : Run (restrict UploadWorld.Careful UploadWorld.step) (UploadWorld.init rest mimeError)
      h w) (id : UploadId) : w.posted.countP (·.fileId = id) ≤ 1 := by
  have ht : w.Tidy := by
    refine hrun.invariant (I := fun _ w => w.Tidy) ?_ ?_
    · refine ⟨fun u hu => absurd hu List.not_mem_nil, ?_,
        fun u hu => absurd hu List.not_mem_nil, ?_⟩
      · intro n m id u v hu
        cases hu
      · intro n m id u v hne hu
        cases hu
    · intro h w input w' o ht hs
      obtain ⟨hc, hs⟩ := restrict_eq_some.mp hs
      exact ht.step hc hs
  -- Each call posts one message at most.
  rw [List.countP_eq_length_filter, UploadWorld.posted, List.filter_flatMap]
  refine length_flatMap_le_one (fun u hu => ?_) ?_
  · exact (List.length_filter_le _ _).trans (ht.books u hu).posted_spec.1
  · -- If two had posted this upload, one of them would have been refused, and have posted nothing.
    rw [List.pairwise_iff_getElem]
    intro n m hn hm hlt
    by_contra hboth
    obtain ⟨hu, hv⟩ := not_or.mp hboth
    obtain ⟨p, hp⟩ := List.exists_mem_of_ne_nil _ hu
    obtain ⟨q, hq⟩ := List.exists_mem_of_ne_nil _ hv
    obtain ⟨hp, hpid⟩ := List.mem_filter.mp hp
    obtain ⟨hq, hqid⟩ := List.mem_filter.mp hq
    obtain ⟨-, hnone, hmay⟩ := (ht.books _ (List.getElem_mem hn)).posted_spec
    obtain ⟨-, hnone', hmay'⟩ := (ht.books _ (List.getElem_mem hm)).posted_spec
    have hpost := hmay p hp
    have hpost' := hmay' q hq
    rw [of_decide_eq_true hpid] at hpost
    rw [of_decide_eq_true hqid] at hpost'
    rcases ht.alone n m id _ _ (Nat.ne_of_lt hlt) (List.getElem?_eq_getElem hn)
      (List.getElem?_eq_getElem hm) hpost hpost' with hr | hr
    · rw [hnone hr] at hp
      exact absurd hp List.not_mem_nil
    · rw [hnone' hr] at hq
      exact absurd hq List.not_mem_nil

/-- The message for it is refused, or posted and the answer lost, and the caller confirms it
again. -/
def confirmAgain (first : List (UploadInput Unit String)) : List (UploadInput Unit String) :=
  storeOne ++ [.reply 0, .go 0] ++ first ++
    [.call (.confirmMedia ⟨"GENERAL"⟩ ⟨"upload"⟩ {}), .go 1, .serve 1 0 (.posted "again"), .reply 1]

theorem posted_once_refused : ∃ (h : List (RestNote Unit)) (w : UploadWorld Unit String),
    Run (restrict UploadWorld.Careful UploadWorld.step) (.init uploader fun _ => none) h w ∧
    w.posted.map Posted.message = ["again"] ∧ w.posted.countP (·.fileId = ⟨"upload"⟩) ≤ 1 := by
  have hrun : Run (restrict UploadWorld.Careful UploadWorld.step)
      (.init uploader fun _ => none) _ _ :=
    run_execute (confirmAgain [.serve 0 1 (.refused ⟨403, none, none⟩), .reply 0])
      (by decide +kernel)
  exact ⟨_, _, hrun, by decide +kernel, posted_once hrun _⟩

/-- **Others do not**: after an answer that was lost the upload may have been posted. -/
theorem not_posted_once : ∃ (h : List (RestNote Unit)) (w : UploadWorld Unit String),
    Run UploadWorld.step (.init uploader fun _ => none) h w ∧
    w.posted.countP (·.fileId = ⟨"upload"⟩) = 2 := by
  have hrun : Run UploadWorld.step (.init uploader fun _ => none) _ _ :=
    run_execute (confirmAgain [.serve 0 1 (.posted "once"), .fail 0 (.transport "timeout")])
      (by decide +kernel)
  exact ⟨_, _, hrun, by decide +kernel⟩

end RocketSocket
