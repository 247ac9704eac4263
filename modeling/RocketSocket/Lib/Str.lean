import Mathlib.Data.List.DropRight
import RocketSocket.Lib.Utf8

/-!
# Strings of the standard library

The functions on strings that a program takes for granted: text out of bytes that may be
invalid, white space, numbers, and the text before a byte index.

## Main definitions

* `Str.trim` — a string without the white space at its ends.
* `Str.fromUtf8Lossy` — the text of some bytes, invalid ones replaced.
* `Str.floorBoundary`, `Str.upTo` — the last character boundary up to an index, and the text
  before a boundary.
* `Str.parseUnsigned`, `Str.parseSigned` — decimal numbers.

## Main results

* `Str.upTo_isPrefix`, `Str.length_upTo_le` — the text before an index is a front part of the
  text, and no longer than that.
* `Str.isBoundary_between` — between two characters there is a boundary.
-/

namespace Machine

namespace Str

open Utf8

/-! ### White space -/

/-- The characters that have the Unicode property `White_Space`. -/
def whiteSpace : List Char :=
  ([9, 10, 11, 12, 13, 32, 0x85, 0xa0, 0x1680, 0x2000, 0x2001, 0x2002, 0x2003, 0x2004, 0x2005,
    0x2006, 0x2007, 0x2008, 0x2009, 0x200a, 0x2028, 0x2029, 0x202f, 0x205f, 0x3000] :
    List ℕ).map Char.ofNat

/-- The character is white space. -/
def isWhiteSpace (c : Char) : Bool := whiteSpace.contains c

/-- `str::trim`. -/
def trim (s : String) : String :=
  String.ofList ((s.toList.dropWhile isWhiteSpace).rdropWhile isWhiteSpace)

/-! ### Invalid bytes -/

/-- `utf8_char_width`: the length of a character by its first byte. -/
def charWidth (b : UInt8) : ℕ :=
  if b < 128 then 1
  else if 0xc2 ≤ b ∧ b ≤ 0xdf then 2
  else if 0xe0 ≤ b ∧ b ≤ 0xef then 3
  else if 0xf0 ≤ b ∧ b ≤ 0xf4 then 4
  else 0

/-- The second byte of a character, when it has three or four. -/
def secondByte (first second : UInt8) : Bool :=
  if first = 0xe0 then 0xa0 ≤ second && second ≤ 0xbf
  else if first = 0xed then 0x80 ≤ second && second ≤ 0x9f
  else if first = 0xf0 then 0x90 ≤ second && second ≤ 0xbf
  else if first = 0xf4 then 0x80 ≤ second && second ≤ 0x8f
  else isContinuation second

/-- How many bytes belong to the character at the front, and whether they are all of it. -/
def scanChar : List UInt8 → ℕ × Bool
  | [] => (0, true)
  | b :: rest =>
    match charWidth b with
    | 1 => (1, true)
    | 2 => if rest[0]?.any isContinuation then (2, true) else (1, false)
    | 3 =>
      if rest[0]?.any (secondByte b) then
        if rest[1]?.any isContinuation then (3, true) else (2, false)
      else (1, false)
    | 4 =>
      if rest[0]?.any (secondByte b) then
        if rest[1]?.any isContinuation then
          if rest[2]?.any isContinuation then (4, true) else (3, false)
        else (2, false)
      else (1, false)
    | _ => (1, false)

/-- The number of the character that some bytes encode. -/
def codePoint : List UInt8 → ℕ
  | [a] => a.toNat
  | [a, b] => a.toNat % 32 * 64 + b.toNat % 64
  | [a, b, c] => a.toNat % 16 * 4096 + b.toNat % 64 * 64 + c.toNat % 64
  | [a, b, c, d] =>
    a.toNat % 8 * 262144 + b.toNat % 64 * 4096 + c.toNat % 64 * 64 + d.toNat % 64
  | _ => 0

/-- What replaces bytes that are no character. -/
def replacement : Char := Char.ofNat 0xfffd

/-- The loop of `fromUtf8Lossy`; a byte for each round is enough. -/
def lossyLoop : ℕ → List UInt8 → List Char
  | 0, _ => []
  | fuel + 1, bytes =>
    if bytes.isEmpty then []
    else
      let (width, valid) := scanChar bytes
      (if valid then Char.ofNat (codePoint (bytes.take width)) else replacement) ::
        lossyLoop fuel (bytes.drop width)

/-- `String::from_utf8_lossy`. -/
def fromUtf8Lossy (bytes : List UInt8) : String :=
  String.ofList (lossyLoop bytes.length bytes)

example : fromUtf8Lossy [104, 0xc3, 0xa9, 0xff, 0xe2, 0x82, 33] = "hé\uFFFD\uFFFD!" := by decide

/-! ### The text before an index -/

/-- The last boundary up to an index. -/
def floorBoundary (text : List UInt8) : ℕ → ℕ
  | 0 => 0
  | n + 1 => if isBoundary text (n + 1) then n + 1 else floorBoundary text n

/-- The characters before a byte index. -/
def upTo : ℕ → List Char → List Char
  | _, [] => []
  | n, c :: chars => if c.utf8Size ≤ n then c :: upTo (n - c.utf8Size) chars else []

theorem floorBoundary_le (text : List UInt8) (n : ℕ) : floorBoundary text n ≤ n := by
  induction n with
  | zero => exact le_rfl
  | succ n ih =>
    rw [floorBoundary]
    split
    · exact le_rfl
    · exact ih.trans (Nat.le_succ n)

theorem isBoundary_floorBoundary (text : List UInt8) (n : ℕ) :
    isBoundary text (floorBoundary text n) = true := by
  induction n with
  | zero => exact isBoundary_zero
  | succ n ih =>
    rw [floorBoundary]
    split
    · assumption
    · exact ih

/-- A boundary up to the index is no later than the last. -/
theorem le_floorBoundary {text : List UInt8} {m n : ℕ} (hb : isBoundary text m = true)
    (hle : m ≤ n) : m ≤ floorBoundary text n := by
  induction n with
  | zero => exact hle
  | succ n ih =>
    rw [floorBoundary]
    split
    · exact hle
    · next hnot =>
      rcases hle.eq_or_lt with rfl | hlt
      · exact absurd hb hnot
      · exact ih (Nat.le_of_lt_succ hlt)

/-- Between two characters there is a boundary. -/
theorem isBoundary_between (front back : List Char) :
    isBoundary (encode (front ++ back)) (encode front).length = true := by
  rw [encode_append]
  cases back with
  | nil =>
    have hnil : encode front ++ encode [] = encode front := List.append_nil _
    rw [hnil]
    exact isBoundary_length
  | cons c back =>
    obtain ⟨b, rest, hcont, hc⟩ : ∃ b rest, isContinuation b = false ∧
        String.utf8EncodeChar c = b :: rest := by
      rcases encodeChar_cases c with ⟨b, hb, hc⟩ | ⟨b, rest, -, hcont, -, hc⟩
      · exact ⟨b, [], isContinuation_of_ascii hb, hc⟩
      · exact ⟨b, rest, hcont, hc⟩
    refine isBoundary_of_getElem (b := b) ?_ hcont
    rw [List.getElem?_append_right le_rfl, Nat.sub_self, encode_cons, hc]
    rfl

theorem upTo_isPrefix (n : ℕ) (chars : List Char) : upTo n chars <+: chars := by
  induction chars generalizing n with
  | nil => exact List.nil_prefix
  | cons c chars ih =>
    rw [upTo]
    split
    · exact List.cons_prefix_cons.mpr ⟨rfl, ih _⟩
    · exact List.nil_prefix

theorem length_upTo_le (n : ℕ) (chars : List Char) : (encode (upTo n chars)).length ≤ n := by
  induction chars generalizing n with
  | nil => exact Nat.zero_le n
  | cons c chars ih =>
    rw [upTo]
    split
    · next hle =>
      have hrest := ih (n - c.utf8Size)
      rw [encode_cons, List.length_append, String.length_utf8EncodeChar]
      omega
    · exact Nat.zero_le n

/-! ### Numbers -/

/-- The number that a run of decimal digits writes. -/
def digits (chars : List Char) : Option ℕ :=
  if chars.isEmpty then none
  else chars.foldl (fun found c => found.bind fun n =>
    if '0' ≤ c ∧ c ≤ '9' then some (n * 10 + (c.toNat - '0'.toNat)) else none) (some 0)

/-- Reading a number of an unsigned type, up to its greatest. -/
def parseUnsigned (max : ℕ) (s : String) : Option ℕ :=
  (digits (match s.toList with
    | '+' :: chars => chars
    | chars => chars)).filter (· ≤ max)

/-- Reading a number of a signed type, up to its greatest and down to one further below zero. -/
def parseSigned (max : ℕ) (s : String) : Option ℤ :=
  match s.toList with
  | '-' :: chars => ((digits chars).filter (· ≤ max + 1)).map fun n => -(n : ℤ)
  | _ => (parseUnsigned max s).map fun n => (n : ℤ)

theorem parseUnsigned_le {max n : ℕ} {s : String} (h : parseUnsigned max s = some n) :
    n ≤ max :=
  of_decide_eq_true (Option.filter_eq_some_iff.mp h).2

/-- What is read is a number of the type. -/
theorem parseSigned_range {max : ℕ} {s : String} {n : ℤ} (h : parseSigned max s = some n) :
    -(max + 1 : ℤ) ≤ n ∧ n ≤ max := by
  unfold parseSigned at h
  split at h
  · obtain ⟨_, hk, rfl⟩ := Option.map_eq_some_iff.mp h
    obtain ⟨k, hk, hpure⟩ := Option.bind_eq_some_iff.mp hk
    have hle : k ≤ max + 1 := of_decide_eq_true (Option.filter_eq_some_iff.mp hk).2
    cases hpure
    omega
  · obtain ⟨_, hk, rfl⟩ := Option.map_eq_some_iff.mp h
    obtain ⟨k, hk, hpure⟩ := Option.bind_eq_some_iff.mp hk
    have hle := parseUnsigned_le hk
    cases hpure
    omega

end Str

end Machine
