import RocketSocket.Lib.Str
import RocketSocket.Model.Protocol

/-!
# Codes of errors

In a deployment of microservices an error that is relayed comes with its message in the place
of its code, which is then left in brackets at the end of the text.

## Main definitions

* `ErrorCode.is` — a code is given by its text.
* `DdpError.hasCode` — the error has a code, relayed or not.
* `relayed` — the text that stands for a code after the relay.

## Main results

* `suffix_bracketed` — the last brackets of a text enclose one text only.
* `hasCode_relay` — **codes survive the relay.**
-/

namespace RocketSocket

open Machine

/-! ### Codes -/

namespace ErrorCode

/-- The code as a string, if it is symbolic. -/
def asStr : ErrorCode → Option String
  | string code => some code
  | number _ => none

/-- `str::parse::<i64>`. -/
def parseI64 (code : String) : Option ℤ := Str.parseSigned 9223372036854775807 code

/-- Compares against a textual code, accepting `"403"` for the numeric form. -/
def is (e : ErrorCode) (code : String) : Bool :=
  match e with
  | string value => value == code
  | number value => parseI64 code == some value

end ErrorCode

/-- The text ends with `pattern`. -/
def endsWith (text pattern : String) : Bool := decide (pattern.toList <:+ text.toList)

namespace DdpError

/-- Whether this error carries `code`, tolerating what the microservices make of it. -/
def hasCode (e : DdpError) (code : String) : Bool :=
  -- Only the string form can carry a relayed message.
  e.error.is code || e.error.asStr.any fun text => endsWith text ("[" ++ code ++ "]")

/-- Rocket.Chat's rate-limiter error code. -/
def codeTooManyRequests : String := "too-many-requests"

/-- The rate limiter refused the call. -/
def isTooManyRequests (e : DdpError) : Bool := e.hasCode codeTooManyRequests

end DdpError

/-- The message of an error, which the relay puts in the place of its code. -/
def relayed (reason code : String) : String := reason ++ " [" ++ code ++ "]"

/-- The text has no square brackets. -/
def Bracketless (text : String) : Prop := '[' ∉ text.toList ∧ ']' ∉ text.toList

instance (text : String) : Decidable (Bracketless text) := inferInstanceAs (Decidable (_ ∧ _))

/-! ### Brackets at the end -/

/-- Behind the last opening bracket there is one text only. -/
theorem eq_of_append_cons {α : Type*} {a : α} {front front' c d : List α} (hc : a ∉ c)
    (hd : a ∉ d) (h : front ++ a :: d = front' ++ a :: c) : c = d := by
  rcases List.append_eq_append_iff.mp h with ⟨between, -, hrest⟩ | ⟨between, -, hrest⟩
  · cases between with
    | nil => exact (List.cons.inj hrest).2.symm
    | cons x between => exact absurd (by simp [(List.cons.inj hrest).2]) hd
  · cases between with
    | nil => exact (List.cons.inj hrest).2
    | cons x between => exact absurd (by simp [(List.cons.inj hrest).2]) hc

/-- The last brackets of a text enclose one text only. -/
theorem suffix_bracketed {α : Type*} {a b : α} {front c d : List α} (hc : a ∉ c) (hd : a ∉ d) :
    a :: (d ++ [b]) <:+ front ++ a :: (c ++ [b]) ↔ c = d := by
  constructor
  · rintro ⟨front', h⟩
    rw [← List.cons_append, ← List.cons_append, ← List.append_assoc, ← List.append_assoc] at h
    exact eq_of_append_cons hc hd (List.append_inj_left' h rfl)
  · rintro rfl
    exact List.suffix_append _ _

section Relay

variable {e : DdpError} {reason code d : String} {n : ℤ}

theorem endsWith_relayed (hcode : Bracketless code) (hd : Bracketless d) :
    endsWith (relayed reason code) ("[" ++ d ++ "]") = true ↔ code = d := by
  have htext : (relayed reason code).toList =
      (reason.toList ++ [' ']) ++ '[' :: (code.toList ++ [']']) := by
    simp [relayed, String.toList_append]
  have hpattern : ("[" ++ d ++ "]").toList = '[' :: (d.toList ++ [']']) := by
    simp [String.toList_append]
  rw [endsWith, decide_eq_true_iff, htext, hpattern, suffix_bracketed hcode.1 hd.1,
    String.toList_inj]

/-- A text without brackets ends with none. -/
theorem not_endsWith (hcode : Bracketless code) : endsWith code ("[" ++ d ++ "]") = false := by
  rw [endsWith, decide_eq_false_iff_not]
  intro hsuffix
  refine hcode.1 (hsuffix.subset ?_)
  simp [String.toList_append]

theorem relayed_ne (hd : Bracketless d) : relayed reason code ≠ d := by
  rintro rfl
  refine hd.1 ?_
  simp [relayed, String.toList_append]

theorem hasCode_string (h : e.error = .string code) :
    e.hasCode d = true ↔ code = d ∨ endsWith code ("[" ++ d ++ "]") = true := by
  rw [DdpError.hasCode, h]
  simp [ErrorCode.is, ErrorCode.asStr]

theorem hasCode_number (h : e.error = .number n) :
    e.hasCode d = true ↔ ErrorCode.parseI64 d = some n := by
  rw [DdpError.hasCode, h]
  simp [ErrorCode.is, ErrorCode.asStr]

end Relay

/-- **Codes survive the relay.**  A relayed error has the code that its text ends with and no
other, whatever its reason; an error that is not relayed has its own; and a number has the texts
that it is read from. -/
theorem hasCode_relay (e : DdpError) (d : String) :
    (∀ reason code, Bracketless code → Bracketless d → e.error = .string (relayed reason code) →
      (e.hasCode d = true ↔ code = d)) ∧
    (∀ code, Bracketless code → e.error = .string code → (e.hasCode d = true ↔ code = d)) ∧
    (∀ n, e.error = .number n → (e.hasCode d = true ↔ ErrorCode.parseI64 d = some n)) := by
  refine ⟨?_, ?_, fun n h => hasCode_number h⟩
  · intro reason code hcode hd h
    rw [hasCode_string h, endsWith_relayed hcode hd, or_iff_right (relayed_ne hd)]
  · intro code hcode h
    rw [hasCode_string h, not_endsWith hcode]
    simp

/-- A refusal of the rate limiter is known as one behind the relay, -/
theorem hasCode_relay_too_many_requests : ∃ e : DdpError,
    e.error = .string "Please slow down [now]. [too-many-requests]" ∧
      e.isTooManyRequests = true := by
  let e : DdpError := { error := .string (relayed "Please slow down [now]." "too-many-requests") }
  exact ⟨e, rfl, ((hasCode_relay e _).1 _ _ (by decide) (by decide) rfl).mpr rfl⟩

end RocketSocket
