import RocketSocket.Lib.Str

/-!
# Cutting text to a length

The loop that walks back from a byte index to where a character begins, and what is kept of a
text that is cut there.

## Main definitions

* `Str.cutLoop` — the loop, with or without a guard against an index below zero.
* `Str.sliceTo` — the text before an index.
* `Str.Kept` — the longest front of a text that fits and is text.

## Main results

* `Str.cutLoop_eq` — the loop ends at the last boundary, guarded or not.
* `Str.sliceTo_floorBoundary` — the text can be cut there.
* `Str.kept_floorBoundary` — **and no character too many is lost.**
-/

namespace Machine

namespace Str

open Utf8

/-! ### The loop -/

/-- `while !text.is_char_boundary(stop) { stop -= 1; }`, which also stops at zero if it is
guarded; `none` if it counts below zero. -/
def cutLoop (guarded : Bool) (text : List UInt8) (stop : ℕ) : Option ℕ :=
  if (guarded = true → 0 < stop) ∧ isBoundary text stop = false then
    match stop with
    | 0 => none
    | n + 1 => cutLoop guarded text n
  else some stop

/-- `&text[..stop]`, which panics inside a character. -/
def sliceTo (text : String) (stop : ℕ) : Option String :=
  if stop ≤ (encode text.toList).length ∧ isBoundary (encode text.toList) stop = true then
    some (String.ofList (upTo stop text.toList))
  else none

variable {text kept : List UInt8} {limit m n : ℕ}

/-- The loop ends at the last boundary, guarded or not: zero is one. -/
theorem cutLoop_eq (guarded : Bool) (text : List UInt8) (n : ℕ) :
    cutLoop guarded text n = some (floorBoundary text n) := by
  induction n with
  | zero =>
    have hzero : isBoundary text 0 = true := isBoundary_zero
    rw [cutLoop, if_neg (by simp [hzero])]
    rfl
  | succ n ih =>
    rw [cutLoop, floorBoundary]
    cases hb : isBoundary text (n + 1) with
    | true => rw [if_neg (by simp), if_pos rfl]
    | false =>
      rw [if_pos ⟨fun _ => Nat.succ_pos n, rfl⟩, if_neg (by simp)]
      exact ih

/-! ### The text before a boundary -/

theorem length_encode_cons (c : Char) (chars : List Char) :
    (encode (c :: chars)).length = c.utf8Size + (encode chars).length := by
  rw [encode_cons, List.length_append, String.length_utf8EncodeChar]

theorem upTo_encode (front back : List Char) :
    upTo (encode front).length (front ++ back) = front := by
  induction front with
  | nil =>
    have hzero : (encode ([] : List Char)).length = 0 := rfl
    rw [hzero, List.nil_append]
    cases back with
    | nil => rw [upTo]
    | cons c back => rw [upTo, if_neg (Nat.not_le.mpr c.utf8Size_pos)]
  | cons c front ih =>
    rw [length_encode_cons, List.cons_append, upTo, if_pos (Nat.le_add_right _ _),
      Nat.add_sub_cancel_left, ih]

/-- Before a boundary the characters are those of the bytes. -/
theorem encode_upTo {chars : List Char} (hle : n ≤ (encode chars).length)
    (hb : isBoundary (encode chars) n = true) :
    encode (upTo n chars) = (encode chars).take n := by
  obtain ⟨front, back, rfl, rfl⟩ := exists_split hle hb
  rw [upTo_encode, encode_append, List.take_left]

/-- A character has four bytes at most, so the next one would not fit. -/
theorem le_length_upTo (chars : List Char) (hle : n ≤ (encode chars).length) :
    n ≤ (encode (upTo n chars)).length + 3 := by
  induction chars generalizing n with
  | nil =>
    have hzero : (encode ([] : List Char)).length = 0 := rfl
    omega
  | cons c chars ih =>
    rw [length_encode_cons] at hle
    rw [upTo]
    split
    · next hfits =>
      have hrest := ih (n := n - c.utf8Size) (by omega)
      rw [length_encode_cons]
      omega
    · next hlong =>
      have hsize := c.utf8Size_le_four
      omega

/-- The text can be cut at the last boundary. -/
theorem sliceTo_floorBoundary (text : String) (hle : n ≤ (encode text.toList).length) :
    sliceTo text (floorBoundary (encode text.toList) n) =
      some (String.ofList (upTo (floorBoundary (encode text.toList) n) text.toList)) :=
  if_pos ⟨(floorBoundary_le _ _).trans hle, isBoundary_floorBoundary _ _⟩

/-- In any four places in a row there is a boundary. -/
theorem exists_boundary (chars : List Char) (hle : n ≤ (encode chars).length) :
    ∃ m ≤ n, n ≤ m + 3 ∧ isBoundary (encode chars) m = true := by
  obtain ⟨back, hback⟩ := upTo_isPrefix n chars
  refine ⟨_, length_upTo_le n chars, le_length_upTo chars hle, ?_⟩
  have hbetween := isBoundary_between (upTo n chars) back
  rwa [hback] at hbetween

/-! ### What is kept -/

/-- What is kept of a text is the longest front that fits and is text. -/
structure Kept (text : List UInt8) (limit : ℕ) (kept : List UInt8) : Prop where
  front : kept <+: text
  boundary : isBoundary text kept.length = true
  whole : text.length ≤ limit → kept = text
  fits : kept.length ≤ limit
  longest : ∀ m ≤ limit, m ≤ text.length → isBoundary text m = true → m ≤ kept.length
  enough : limit < text.length → 3 ≤ limit → limit - 3 ≤ kept.length

/-- Cut at the last boundary, no character too many is lost. -/
theorem kept_floorBoundary {chars : List Char} (hlong : limit < (encode chars).length) :
    Kept (encode chars) limit (encode (upTo (floorBoundary (encode chars) limit) chars)) := by
  have hle := floorBoundary_le (encode chars) limit
  rw [encode_upTo (by omega) (isBoundary_floorBoundary _ _)]
  have hlen : ((encode chars).take (floorBoundary (encode chars) limit)).length =
      floorBoundary (encode chars) limit := by
    rw [List.length_take]
    omega
  refine ⟨List.take_prefix _ _, ?_, fun h => by omega, by omega, ?_, ?_⟩
  · rw [hlen]
    exact isBoundary_floorBoundary _ _
  · intro m hm _ hb
    rw [hlen]
    exact le_floorBoundary hb hm
  · intro _ _
    obtain ⟨m, hm, hnear, hb⟩ := exists_boundary chars hlong.le
    have hfloor := le_floorBoundary hb hm
    omega

/-- A text that fits is kept. -/
theorem kept_whole (h : text.length ≤ limit) : Kept text limit text where
  front := List.prefix_refl _
  boundary := isBoundary_length
  whole := fun _ => rfl
  fits := h
  longest := fun _ _ hm _ => hm
  enough := fun hlong _ => by omega

end Str

end Machine
