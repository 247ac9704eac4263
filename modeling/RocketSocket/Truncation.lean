import RocketSocket.Codegen.Scan
import RocketSocket.Lib.Cut
import RocketSocket.Rest.Answer

/-!
# Truncating untrusted text

The three `truncate`s: of the runner, which logs a frame that it cannot read, of the REST client,
which keeps a part of a body in an error, and of the codegen parser, which quotes the source.
They walk back to a character boundary by loops of their own, one of them without a guard, and
keep the same.

## Main definitions

* `Connection.truncate` — the runner's.
* `truncateChecked` — that of the REST client, with the steps that may panic.

## Main results

* `Codegen.truncate_eq`, `Connection.truncate_eq` — the parser and the runner keep what the REST
  client would.
* `truncates_safely` — **no character is cut in two**, and no more is lost than need be.
-/

namespace RocketSocket

open Machine Utf8

/-! ### The runner -/

namespace Connection

/-- The bytes of a frame that are logged. -/
def limit : ℕ := 256

/-- A frame as it is logged. -/
def truncate (text : String) : Option String :=
  if (encode text.toList).length ≤ limit then some text
  else do
    let stop ← Str.cutLoop false (encode text.toList) limit
    let front ← Str.sliceTo text stop
    return front ++ "…"

end Connection

/-! ### The REST client -/

/-- `truncate` with every step that may panic. -/
def truncateChecked (text : String) (limit : ℕ) : Option String :=
  if (encode text.toList).length ≤ limit then some text
  else do
    let stop ← Str.cutLoop true (encode text.toList) limit
    Str.sliceTo text stop

section Rest

variable {text : String} {limit : ℕ}

theorem truncate_of_le (h : (encode text.toList).length ≤ limit) : truncate text limit = text :=
  if_pos h

theorem truncate_of_lt (h : limit < (encode text.toList).length) : truncate text limit =
    String.ofList (Str.upTo (Str.floorBoundary (encode text.toList) limit) text.toList) :=
  if_neg (Nat.not_le.mpr h)

/-- The loop and the slice of a text that is too long. -/
theorem cut_eq (guarded : Bool) (h : limit < (encode text.toList).length) :
    ((Str.cutLoop guarded (encode text.toList) limit).bind fun stop => Str.sliceTo text stop) =
      some (truncate text limit) := by
  rw [Str.cutLoop_eq, Option.bind_some, Str.sliceTo_floorBoundary text h.le, truncate_of_lt h]

/-- None of the steps panics. -/
theorem truncateChecked_eq (text : String) (limit : ℕ) :
    truncateChecked text limit = some (truncate text limit) := by
  unfold truncateChecked
  split
  · next h => rw [truncate_of_le h]
  · next h => exact cut_eq true (Nat.lt_of_not_le h)

theorem kept_truncate (text : String) (limit : ℕ) :
    Str.Kept (encode text.toList) limit (encode (truncate text limit).toList) := by
  rcases Nat.lt_or_ge limit (encode text.toList).length with h | h
  · rw [truncate_of_lt h, String.toList_ofList]
    exact Str.kept_floorBoundary h
  · rw [truncate_of_le h]
    exact Str.kept_whole h

end Rest

/-- The runner keeps what the REST client would, and marks what it cut. -/
theorem Connection.truncate_eq (text : String) : Connection.truncate text =
    some (if (encode text.toList).length ≤ Connection.limit then
        RocketSocket.truncate text Connection.limit
      else RocketSocket.truncate text Connection.limit ++ "…") := by
  unfold Connection.truncate
  by_cases h : (encode text.toList).length ≤ Connection.limit
  · rw [if_pos h, if_pos h, truncate_of_le h]
  · have hcut := cut_eq false (Nat.lt_of_not_le h)
    rw [Str.cutLoop_eq, Option.bind_some] at hcut
    rw [if_neg h, if_neg h, Str.cutLoop_eq]
    show (Str.sliceTo text _).bind _ = _
    rw [hcut]
    rfl

/-! ### The parser -/

/-- The parser keeps what the REST client would, and marks what it cut. -/
theorem Codegen.truncate_eq (text : String) (limit : ℕ) :
    Codegen.truncate (Codegen.text text) limit =
      .ok (if (encode text.toList).length ≤ limit then
          Codegen.text (RocketSocket.truncate text limit)
        else Codegen.text (RocketSocket.truncate text limit ++ "…")) := by
  unfold Codegen.truncate
  by_cases h : (encode text.toList).length ≤ limit
  · have hshort : (Codegen.text text).length ≤ limit := h
    rw [if_pos hshort, if_pos h, truncate_of_le h]
  · have hlt := Nat.lt_of_not_le h
    have hle := Str.floorBoundary_le (encode text.toList) limit
    have hbound : Codegen.Bound (Codegen.text text)
        (Str.floorBoundary (Codegen.text text) limit) :=
      ⟨hle.trans hlt.le, Str.isBoundary_floorBoundary _ _⟩
    have hfront : (Codegen.text text).take (Str.floorBoundary (Codegen.text text) limit) =
        Codegen.text (RocketSocket.truncate text limit) := by
      rw [truncate_of_lt hlt, Codegen.text, Codegen.text, String.toList_ofList]
      exact (Str.encode_upTo (by omega) (Str.isBoundary_floorBoundary _ _)).symm
    have hlong : ¬ (Codegen.text text).length ≤ limit := h
    rw [if_neg hlong, if_neg h, Codegen.slice_eq Codegen.Bound.zero hbound (Nat.zero_le _)]
    show Codegen.Reading.ok (((Codegen.text text).drop 0).take _ ++ _) = _
    rw [List.drop_zero, Nat.sub_zero, hfront]
    simp only [Codegen.text, String.toList_append, encode_append]

/-! ### What is kept -/

/-- **No character is cut in two**, and no more is lost than need be.  Of every text the three
keep the whole, if it fits, and else the longest front that is text and fits, which the runner and
the parser mark with an ellipsis.  None of the loops counts below zero. -/
theorem truncates_safely (text : String) (limit : ℕ) :
    (∃ kept : String, Str.Kept (encode text.toList) Connection.limit (encode kept.toList) ∧
      Connection.truncate text =
        some (if (encode text.toList).length ≤ Connection.limit then kept else kept ++ "…")) ∧
    (∃ kept : String, Str.Kept (encode text.toList) limit (encode kept.toList) ∧
      truncateChecked text limit = some kept ∧ truncate text limit = kept) ∧
    ∃ kept : String, Str.Kept (encode text.toList) limit (encode kept.toList) ∧
      Str.cutLoop true (Codegen.text text) limit =
        some (Str.floorBoundary (Codegen.text text) limit) ∧
      Codegen.truncate (Codegen.text text) limit =
        .ok (if (encode text.toList).length ≤ limit then Codegen.text kept
          else Codegen.text (kept ++ "…")) :=
  ⟨⟨_, kept_truncate text Connection.limit, Connection.truncate_eq text⟩,
    ⟨_, kept_truncate text limit, truncateChecked_eq text limit, rfl⟩,
    ⟨_, kept_truncate text limit, Str.cutLoop_eq true _ _, Codegen.truncate_eq text limit⟩⟩

end RocketSocket
