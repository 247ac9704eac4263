import RocketSocket.Rest.Answer

/-!
# Logging out

The answer to a logout decides whether the credential slot is cleared.  A document of any shape
is a value here, so a failure reported with a status of success passes for a logout: the branch
of `decode` that reports one is never taken.

## Main definitions

* `logoutAnswer` — what the client makes of the answer.
* `RestClient.logoutAlone` — a logout from its answer to its end.
* `Clears` — the answers that say the token is dead.

## Main results

* `isFailureEnvelope_iff` — the bodies that are a failure, whatever the status.
* `logoutAnswer_cases` — which answers the client takes for which.
* `keepsRetryable_iff` — **a logout keeps credentials that may still be needed**, just if the
  answer is no success whose body is a failure.
-/

namespace RocketSocket

open Machine

variable {υ : Type} {reader : JsonReader} {answer : HttpAnswer}

/-- What the client makes of the answer: any document will do, `{"success":false}` too. -/
def logoutAnswer (reader : JsonReader) (answer : HttpAnswer) : Except RestError Unit :=
  (answer.decode reader some).map fun _ => ()

/-- A logout from its answer to its end, when no other call moves. -/
def RestClient.logoutAlone (c : RestClient υ) (n : ℕ) (answer : Except RestError Unit) :
    Option (RestClient υ × List (RestNote υ)) :=
  (execute RestClient.step c [.answerLogout n answer, .go n]).or
    (execute RestClient.step c [.answerLogout n answer])

/-- The answers that say the token is dead: a success that is no failure in disguise, and 401. -/
def Clears (reader : JsonReader) : HttpAnswer → Prop
  | .response status _ body => status = 401 ∨
      isSuccess status = true ∧ (reader.parse body).isSome ∧
        isFailureEnvelope (reader.parse body) = false
  | .failed _ => False

/-- A success that is a failure in disguise: its body is read as a document that has `success:
false`, see `isFailureEnvelope_iff`. -/
def Disguised (reader : JsonReader) : HttpAnswer → Prop
  | .response status _ body =>
    isSuccess status = true ∧ isFailureEnvelope (reader.parse body) = true
  | .failed _ => False

/-- A logout keeps credentials that may still be needed: it clears the slot if the answer says the
token is dead, and otherwise returns an error and leaves the slot as it was. -/
def KeepsRetryable (reader : JsonReader) (c : RestClient υ) (n : ℕ) (answer : HttpAnswer) : Prop :=
  ∃ c' notes outcome, c.logoutAlone n (logoutAnswer reader answer) = some (c', notes) ∧
    c'.calls[n]? = some (.returned (.logout outcome)) ∧
    (Clears reader answer → c'.auth = none) ∧
    (¬ Clears reader answer → c'.auth = c.auth ∧ ∃ error, outcome = .error error)

/-- A refusal is about credentials if its status is 401. -/
theorem isUnauthorized_iff {error : ApiError} :
    error.isUnauthorized = true ↔ error.status = 401 := by
  rw [ApiError.isUnauthorized, decide_eq_true_eq, ApiError.kind, ApiErrorKind.fromStatus]
  split_ifs with h400 h401
  all_goals simp_all

/-- A flag that is read as `false` is the value `false`. -/
theorem optionalMember_asBool_false {value : Option Value} :
    optionalMember Value.asBool value = some (some false) ↔ value = some (.bool false) := by
  cases value with
  | none => simp [optionalMember]
  | some v => cases v <;> simp [optionalMember, Value.asBool]

/-- **The bodies that are a failure**: an object with one member `success`, which is `false`, and
an array of that value alone. -/
theorem isFailureEnvelope_iff {body : Option Value} :
    isFailureEnvelope body = true ↔
      (∃ members, body = some (.object members) ∧ ("success", .bool false) ∈ members ∧
        (members.map Prod.fst).count "success" = 1) ∨
      body = some (.array [.bool false]) := by
  have hread {field : String → Option Value} (hfields : body.bind (structFields ["success"]) =
      some field) : isFailureEnvelope body = true ↔ field "success" = some (.bool false) := by
    rw [isFailureEnvelope, hfields, Option.bind_some, decide_eq_true_eq,
      optionalMember_asBool_false]
  have hrefused (hfields : body.bind (structFields ["success"]) = none) :
      isFailureEnvelope body = false := by
    rw [isFailureEnvelope, hfields]
    rfl
  match body with
  | some (.object members) =>
    -- A name that stands twice is refused by the derived reader.
    by_cases honce : (members.map Prod.fst).count "success" ≤ 1
    · have hlookup : members.lookup "success" = some (.bool false) ↔
          ("success", Value.bool false) ∈ members := TaggedUnion.lookup_of_once honce
      rw [hread (if_pos (by simpa using honce)), hlookup]
      constructor
      · intro hmem
        have hpos : 0 < (members.map Prod.fst).count "success" :=
          List.count_pos_iff.mpr (List.mem_map_of_mem hmem)
        exact .inl ⟨members, rfl, hmem, by omega⟩
      · rintro (⟨_, ⟨⟩, hmem, -⟩ | ⟨⟨⟩⟩)
        exact hmem
    · rw [hrefused (if_neg (by simpa using honce))]
      constructor
      · intro h
        cases h
      · rintro (⟨_, ⟨⟩, -, hcount⟩ | ⟨⟨⟩⟩)
        omega
  -- An array is read by place, and has to have one item.
  | some (.array items) =>
    match items with
    | [] => rw [hread rfl]; simp
    | [item] => rw [hread rfl]; simp
    | _ :: _ :: _ => rw [hrefused rfl]; simp
  | none | some .null | some (.bool _) | some (.int _) | some (.float _) | some (.string _) =>
    rw [hrefused rfl]
    simp

/-- No document is no failure. -/
theorem isSome_of_isFailureEnvelope {body : Option Value} (h : isFailureEnvelope body = true) :
    body.isSome := by
  rcases isFailureEnvelope_iff.mp h with ⟨members, rfl, -⟩ | rfl
  · rfl
  · rfl

/-! ### What the client makes of an answer -/

/-- The answers the client takes for a logout. -/
def Accepted (reader : JsonReader) : HttpAnswer → Prop
  | .response status _ body => isSuccess status = true ∧ (reader.parse body).isSome
  | .failed _ => False

/-- The answers the client takes for a dead token. -/
def Rejected : HttpAnswer → Prop
  | .response status _ _ => status = 401
  | .failed _ => False

/-- **Which answers the client takes for which.** -/
theorem logoutAnswer_cases (reader : JsonReader) (answer : HttpAnswer) :
    (Accepted reader answer ∧ logoutAnswer reader answer = .ok ()) ∨
    (¬ Accepted reader answer ∧ ∃ error, logoutAnswer reader answer = .error error ∧
      (error.apiError.any (·.isUnauthorized) = true ↔ Rejected answer)) := by
  cases answer with
  | failed reason => exact .inr ⟨id, .transport reason, rfl, by simp [RestError.apiError, Rejected]⟩
  | response status headers body =>
    have hrefused : ((ApiRefusal.fromResponse reader status headers body).toApiError).status =
        status := by
      rw [ApiRefusal.fromResponse]
      split <;> rfl
    rw [logoutAnswer, HttpAnswer.decode]
    -- What is no success is a refusal; what is one has to be JSON.
    cases hsuccess : isSuccess status with
    | false =>
      refine .inr ⟨fun h => Bool.false_ne_true (hsuccess.symm.trans h.1), _, rfl, ?_⟩
      simp only [RestError.apiError, Option.any_some, isUnauthorized_iff, hrefused, Rejected]
    | true =>
      have hnot : status ≠ 401 := by
        rintro rfl
        cases hsuccess
      cases hparse : reader.parse body with
      | some value => exact .inl ⟨⟨hsuccess, by rw [hparse]; rfl⟩, rfl⟩
      | none =>
        refine .inr ⟨fun h => ?_, _, rfl, ?_⟩
        · have hsome := h.2
          rw [hparse] at hsome
          cases hsome
        · simp [RestError.apiError, Rejected, hnot]

/-! ### What becomes of the slot -/

variable {c : RestClient υ} {n : ℕ} {sent : Authentication}

/-- A logout that clears the slot. -/
theorem RestClient.logoutAlone_clears {outcome : Except RestError Unit}
    (hcall : c.calls[n]? = some (.leaving sent))
    (h : outcome = .ok () ∨ ∃ error, outcome = .error error ∧
      error.apiError.any (·.isUnauthorized) = true) :
    ∃ c' notes, c.logoutAlone n outcome = some (c', notes) ∧
      c'.calls[n]? = some (.returned (.logout outcome)) ∧ c'.auth = none := by
  have hlt : n < c.calls.length := (List.getElem?_eq_some_iff.mp hcall).1
  have hanswer : c.step (.answerLogout n outcome) =
      some (c.setPhase n (.clearing sent outcome), []) := by
    rw [step, hcall, Option.bind_some]
    rcases h with rfl | ⟨error, rfl, hunauthorized⟩
    · rfl
    · simp only [receiveLogout, hunauthorized, if_true]
  have hphase : (c.setPhase n (.clearing sent outcome)).calls[n]? =
      some (.clearing sent outcome) := by
    simp [setPhase, hlt]
  have hgo : (c.setPhase n (.clearing sent outcome)).step (.go n) =
      (c.setPhase n (.clearing sent outcome)).advance n (.clearing sent outcome) := by
    rw [step, hphase, Option.bind_some]
  rw [logoutAlone, execute, hanswer, Option.bind_some, execute, hgo]
  refine ⟨_, _, rfl, ?_, rfl⟩
  simp [setPhase, setAuth, hlt]

/-- A logout that leaves the slot. -/
theorem RestClient.logoutAlone_keeps {error : RestError}
    (hcall : c.calls[n]? = some (.leaving sent))
    (h : error.apiError.any (·.isUnauthorized) = false) :
    ∃ c' notes, c.logoutAlone n (.error error) = some (c', notes) ∧
      c'.calls[n]? = some (.returned (.logout (.error error))) ∧ c'.auth = c.auth := by
  have hlt : n < c.calls.length := (List.getElem?_eq_some_iff.mp hcall).1
  have hanswer : c.step (.answerLogout n (.error error)) =
      some (c.finish n (.logout (.error error))) := by
    rw [step, hcall, Option.bind_some]
    simp only [receiveLogout, h, Bool.false_eq_true, if_false]
  have hphase : (c.finish n (.logout (.error error))).1.calls[n]? =
      some (.returned (.logout (.error error))) := by
    simp [finish, setPhase, hlt]
  have hgo : (c.finish n (.logout (.error error))).1.step (.go n) = none := by
    rw [step, hphase, Option.bind_some]
    rfl
  refine ⟨(c.finish n (.logout (.error error))).1,
    (c.finish n (.logout (.error error))).2 ++ [], ?_, hphase, rfl⟩
  simp only [logoutAlone, execute, hanswer, Option.bind_some, hgo, Option.bind_none,
    Option.map_none, Option.none_or, Option.map_some]

/-- **A logout keeps credentials that may still be needed**, just if the answer is no success whose
body is a failure. -/
theorem keepsRetryable_iff (reader : JsonReader) (c : RestClient υ) (n : ℕ)
    (answer : HttpAnswer) (hcall : ∃ sent, c.calls[n]? = some (.leaving sent)) :
    KeepsRetryable reader c n answer ↔ ¬ Disguised reader answer := by
  obtain ⟨sent, hcall⟩ := hcall
  have hclears : Clears reader answer ↔
      Rejected answer ∨ Accepted reader answer ∧ ¬ Disguised reader answer := by
    cases answer with
    | failed reason => simp [Clears, Rejected, Accepted]
    | response status headers body =>
      simp only [Clears, Rejected, Accepted, Disguised]
      refine or_congr Iff.rfl ⟨fun h => ?_, fun h => ?_⟩
      · exact ⟨⟨h.1, h.2.1⟩, fun hd => Bool.false_ne_true (h.2.2.symm.trans hd.2)⟩
      · exact ⟨h.1.1, h.1.2, Bool.eq_false_iff.mpr fun hd => h.2 ⟨h.1.1, hd⟩⟩
  have hdisguised : Disguised reader answer → Accepted reader answer ∧ ¬ Rejected answer := by
    cases answer with
    | failed reason => exact False.elim
    | response status headers body =>
      intro h
      refine ⟨⟨h.1, isSome_of_isFailureEnvelope h.2⟩, ?_⟩
      rintro rfl
      cases h.1
  rcases logoutAnswer_cases reader answer with ⟨haccepted, hok⟩ | ⟨hnot, error, herror, hiff⟩
  · -- The slot is cleared, and no error returned.
    obtain ⟨c', notes, halone, hreturned, hauth⟩ := c.logoutAlone_clears hcall (.inl hok)
    constructor
    · rintro ⟨c₁, notes₁, outcome, halone₁, hreturned₁, -, hkept⟩ hd
      rw [halone] at halone₁
      cases halone₁
      rw [hreturned, hok] at hreturned₁
      cases hreturned₁
      have hnot : ¬ Clears reader answer := fun h =>
        (hclears.mp h).elim (hdisguised hd).2 fun h => h.2 hd
      obtain ⟨-, error, herror⟩ := hkept hnot
      cases herror
    · intro hd
      exact ⟨c', notes, _, halone, hreturned, fun _ => hauth,
        fun h => absurd (hclears.mpr (.inr ⟨haccepted, hd⟩)) h⟩
  · have hd : ¬ Disguised reader answer := fun hd => hnot (hdisguised hd).1
    refine ⟨fun _ => hd, fun _ => ?_⟩
    by_cases hrejected : Rejected answer
    · obtain ⟨c', notes, halone, hreturned, hauth⟩ := c.logoutAlone_clears hcall
        (.inr ⟨error, herror, hiff.mpr hrejected⟩)
      exact ⟨c', notes, _, halone, hreturned, fun _ => hauth,
        fun h => absurd (hclears.mpr (.inl hrejected)) h⟩
    · obtain ⟨c', notes, halone, hreturned, hauth⟩ := c.logoutAlone_keeps hcall
        (Bool.eq_false_iff.mpr fun h => hrejected (hiff.mp h))
      rw [← herror] at halone
      exact ⟨c', notes, _, halone, hreturned, fun h => absurd (hclears.mp h) (by tauto),
        fun _ => ⟨hauth, error, rfl⟩⟩

/-- A client that has sent a logout. -/
def loggingOut : RestClient Unit :=
  { http := ⟨true, fun _ => true⟩, auth := some ⟨⟨"user"⟩, ⟨"token"⟩⟩,
    calls := [.leaving ⟨⟨"user"⟩, ⟨"token"⟩⟩] }

/-- A failure in disguise. -/
def failureBody : List UInt8 := Utf8.encode "\x7b\"success\":false\x7d".toList

/-- A reader, as far as that failure goes. -/
def failureReader : JsonReader where
  parse body := if body = failureBody then some (.object [("success", .bool false)]) else none
  floatText _ := ""
  parse_blank body hblank := by
    refine if_neg ?_
    rintro rfl
    exact absurd hblank (by decide)

theorem keepsRetryable_loggingOut :
    KeepsRetryable failureReader loggingOut 0 (.response 503 [] []) ↔
      ¬ Disguised failureReader (.response 503 [] []) :=
  keepsRetryable_iff failureReader loggingOut 0 _ ⟨_, rfl⟩

/-- A failure with a status of success clears the slot. -/
theorem not_keepsRetryable : ¬ ∀ (reader : JsonReader) (c : RestClient Unit) (n : ℕ)
    (answer : HttpAnswer), (∃ sent, c.calls[n]? = some (.leaving sent)) →
      KeepsRetryable reader c n answer := by
  intro hall
  have hparse : failureReader.parse failureBody = some (.object [("success", .bool false)]) := by
    simp [failureReader]
  obtain ⟨c', notes, outcome, halone, -, -, hkept⟩ :=
    hall failureReader loggingOut 0 (.response 200 [] failureBody) ⟨_, rfl⟩
  have hanswer : logoutAnswer failureReader (.response 200 [] failureBody) = .ok () := by
    simp [logoutAnswer, HttpAnswer.decode, hparse, isSuccess, Except.map]
  rw [hanswer] at halone
  cases halone
  have hnot : ¬ Clears failureReader (.response 200 [] failureBody) := by
    rintro (h | ⟨-, -, h⟩)
    · cases h
    · rw [hparse] at h
      cases h
  cases (hkept hnot).1

end RocketSocket
