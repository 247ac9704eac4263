import Mathlib.Data.List.Basic
import Mathlib.Data.List.Forall2
import Mathlib.Tactic.Common

/-!
# UTF-8 text as bytes

A text as the list of its bytes, with the boundaries of its characters.  Next to a byte below
128 there is always a boundary, and rewriting such bytes to others of their kind keeps a text
one.

## Main definitions

* `Utf8.encode`, `Utf8.decode` — the bytes of a list of characters, and back.
* `Utf8.isBoundary` — an index is where a character begins, or the end.
* `Utf8.Aligned` — a continuation byte follows a byte of the same character.
* `Utf8.Recast` — one text is another with bytes below 128 rewritten.

## Main results

* `Utf8.encodeChar_cases` — the bytes of one character.
* `Utf8.aligned_encode` — encoded text is aligned.
* `Utf8.isBoundary_of_ascii`, `Utf8.isBoundary_after_ascii` — the boundaries beside a byte
  below 128.
* `Utf8.decode_encode` — **what is encoded is decoded**.
* `Utf8.exists_encode_append` — text cut at a boundary is text on both sides.
* `Utf8.exists_encode_of_recast` — a rewritten text is the encoding of characters again.
-/

namespace Machine

namespace Utf8

/-- The bytes of a list of characters. -/
def encode (chars : List Char) : List UInt8 := chars.flatMap String.utf8EncodeChar

/-- The text that some bytes encode. -/
def decode (bytes : List UInt8) : Option String :=
  ((ByteArray.mk bytes.toArray).utf8Decode?).map fun chars => String.ofList chars.toList

/-- A byte that continues a character. -/
def isContinuation (b : UInt8) : Bool := decide (128 ≤ b) && decide (b < 192)

/-- The index is where a character begins, or the end of the text. -/
def isBoundary (text : List UInt8) (i : ℕ) : Bool :=
  i == 0 || i == text.length || text[i]?.any fun b => !isContinuation b

/-- Every continuation byte follows a byte from 128 up. -/
def Aligned (text : List UInt8) : Prop := ∀ i b, text[i]? = some b → isContinuation b = true →
  ∃ j a, i = j + 1 ∧ text[j]? = some a ∧ 128 ≤ a

/-- The second text is the first with bytes below 128 rewritten to such bytes. -/
def Recast (text text' : List UInt8) : Prop :=
  List.Forall₂ (fun b b' => b = b' ∨ (b < 128 ∧ b' < 128)) text text'

/-! ### The bytes of a character -/

theorem isContinuation_iff {b : UInt8} : isContinuation b = true ↔ 128 ≤ b ∧ b < 192 := by
  simp [isContinuation]

theorem isContinuation_ofNat {n : ℕ} (hlo : 128 ≤ n) (hhi : n < 192) :
    isContinuation (UInt8.ofNat n) = true := by
  rw [isContinuation_iff, UInt8.le_iff_toNat_le, UInt8.lt_iff_toNat_lt, UInt8.toNat_ofNat']
  simp only [UInt8.reduceToNat]
  omega

theorem lead_ofNat {n : ℕ} (hlo : 192 ≤ n) (hhi : n < 256) :
    128 ≤ UInt8.ofNat n ∧ isContinuation (UInt8.ofNat n) = false := by
  rw [← Bool.not_eq_true, isContinuation_iff, UInt8.le_iff_toNat_le, UInt8.lt_iff_toNat_lt,
    UInt8.toNat_ofNat']
  simp only [UInt8.reduceToNat]
  omega

/-- **The bytes of a character**: one below 128, or a first one and others that continue it. -/
theorem encodeChar_cases (c : Char) :
    (∃ b, b < 128 ∧ String.utf8EncodeChar c = [b]) ∨
    ∃ b rest, 128 ≤ b ∧ isContinuation b = false ∧ (∀ b' ∈ rest, isContinuation b' = true) ∧
      String.utf8EncodeChar c = b :: rest := by
  -- There is no character above U+10FFFF, so four bytes do.
  have hvalid : c.val.toNat < 1114112 := by
    have h := c.valid
    simp only [UInt32.isValidChar, Nat.isValidChar] at h
    omega
  unfold String.utf8EncodeChar
  generalize c.val.toNat = v at hvalid
  -- One byte, two, three or four.
  by_cases h1 : v ≤ 127
  · refine .inl ⟨UInt8.ofNat v, ?_, by simp [h1]⟩
    rw [UInt8.lt_iff_toNat_lt, UInt8.toNat_ofNat']
    simp only [UInt8.reduceToNat]
    omega
  · right
    have hcont (n : ℕ) : isContinuation (UInt8.ofNat (n % 64 + 128)) = true :=
      isContinuation_ofNat (by omega) (by omega)
    by_cases h2 : v ≤ 2047
    · have hlead := lead_ofNat (n := v / 64 % 32 + 192) (by omega) (by omega)
      refine ⟨_, [UInt8.ofNat (v % 64 + 128)], hlead.1, hlead.2, ?_, by simp [h1, h2]⟩
      exact List.forall_mem_singleton.mpr (hcont v)
    · by_cases h3 : v ≤ 65535
      · have hlead := lead_ofNat (n := v / 4096 % 16 + 224) (by omega) (by omega)
        refine ⟨_, [UInt8.ofNat (v / 64 % 64 + 128), UInt8.ofNat (v % 64 + 128)], hlead.1,
          hlead.2, ?_, by simp [h1, h2, h3]⟩
        exact List.forall_mem_cons.mpr ⟨hcont _, List.forall_mem_singleton.mpr (hcont v)⟩
      · have hlead := lead_ofNat (n := v / 262144 % 8 + 240) (by omega) (by omega)
        refine ⟨_, [UInt8.ofNat (v / 4096 % 64 + 128), UInt8.ofNat (v / 64 % 64 + 128),
          UInt8.ofNat (v % 64 + 128)], hlead.1, hlead.2, ?_, by simp [h1, h2, h3]⟩
        exact List.forall_mem_cons.mpr ⟨hcont _, List.forall_mem_cons.mpr
          ⟨hcont _, List.forall_mem_singleton.mpr (hcont v)⟩⟩

theorem encode_cons (c : Char) (chars : List Char) :
    encode (c :: chars) = String.utf8EncodeChar c ++ encode chars := List.flatMap_cons

theorem encode_append (chars chars' : List Char) :
    encode (chars ++ chars') = encode chars ++ encode chars' := List.flatMap_append

theorem mk_encode (chars : List Char) :
    ByteArray.mk (encode chars).toArray = chars.utf8Encode :=
  ByteArray.ext List.data_toByteArray.symm

theorem decode_encode (chars : List Char) :
    decode (encode chars) = some (String.ofList chars) := by
  rw [decode, mk_encode, List.utf8Decode?_utf8Encode]
  rfl

/-- What is decoded is what was encoded. -/
theorem decode_eq_some {bytes : List UInt8} {s : String} (h : decode bytes = some s) :
    encode s.toList = bytes := by
  obtain ⟨chars, hchars, rfl⟩ := Option.map_eq_some_iff.mp h
  have hbytes := ByteArray.utf8Encode_get_utf8Decode? (b := ByteArray.mk bytes.toArray)
    (h := by rw [hchars]; rfl)
  simp only [hchars, Option.get_some] at hbytes
  rw [← mk_encode, ByteArray.mk.injEq] at hbytes
  rw [String.toList_ofList]
  exact congrArg Array.toList hbytes

/-- Different characters have different bytes. -/
theorem encode_injective {chars chars' : List Char} (h : encode chars = encode chars') :
    chars = chars' := by
  have heq := decode_encode chars
  rw [h, decode_encode, Option.some.injEq] at heq
  exact (String.ofList_injective heq).symm

theorem encode_eq_nil {chars : List Char} (h : encode chars = []) : chars = [] :=
  encode_injective h

/-! ### Alignment -/

theorem Aligned.append {text text' : List UInt8} (h : Aligned text) (h' : Aligned text') :
    Aligned (text ++ text') := by
  intro i b hb hcont
  rcases Nat.lt_or_ge i text.length with hi | hi
  · rw [List.getElem?_append_left hi] at hb
    obtain ⟨j, a, rfl, ha, hle⟩ := h i b hb hcont
    exact ⟨j, a, rfl, by rwa [List.getElem?_append_left (by omega)], hle⟩
  · rw [List.getElem?_append_right hi] at hb
    obtain ⟨j, a, hj, ha, hle⟩ := h' _ b hb hcont
    refine ⟨text.length + j, a, by omega, ?_, hle⟩
    rwa [List.getElem?_append_right (by omega), Nat.add_sub_cancel_left]

theorem aligned_encodeChar (c : Char) : Aligned (String.utf8EncodeChar c) := by
  rcases encodeChar_cases c with ⟨b, hb, hc⟩ | ⟨b, rest, hb, hlead, hrest, hc⟩
  · -- The one byte of the character continues nothing.
    intro i b' hb' hcont
    rw [hc, List.getElem?_singleton] at hb'
    split at hb'
    · obtain rfl := Option.some.inj hb'
      exact absurd (isContinuation_iff.mp hcont).1 (UInt8.not_le.mpr hb)
    · cases hb'
  · have hall : ∀ a ∈ b :: rest, 128 ≤ a := by
      intro a ha
      rcases List.mem_cons.mp ha with rfl | ha
      · exact hb
      · exact (isContinuation_iff.mp (hrest a ha)).1
    intro i b' hb' hcont
    rw [hc] at hb' ⊢
    -- The first byte does not continue another, and the others do.
    cases i with
    | zero =>
      obtain rfl := Option.some.inj hb'
      rw [hlead] at hcont
      cases hcont
    | succ j =>
      have hj : j < (b :: rest).length := by
        have h := (List.getElem?_eq_some_iff.mp hb').1
        omega
      exact ⟨j, (b :: rest)[j], rfl, List.getElem?_eq_getElem hj, hall _ (List.getElem_mem hj)⟩

/-- Encoded text is aligned. -/
theorem aligned_encode (chars : List Char) : Aligned (encode chars) := by
  induction chars with
  | nil => exact fun i b hb => absurd hb (by simp [encode])
  | cons c chars ih =>
    rw [encode_cons]
    exact (aligned_encodeChar c).append ih

/-! ### Boundaries -/

section Boundary

variable {text : List UInt8} {i : ℕ} {b : UInt8}

theorem isBoundary_zero : isBoundary text 0 = true := by simp [isBoundary]

theorem isBoundary_length : isBoundary text text.length = true := by simp [isBoundary]

theorem isBoundary_of_getElem (hb : text[i]? = some b) (hcont : isContinuation b = false) :
    isBoundary text i = true := by
  simp [isBoundary, hb, hcont]

theorem isContinuation_of_ascii (h : b < 128) : isContinuation b = false := by
  rw [← Bool.not_eq_true, isContinuation_iff]
  exact fun hcont => absurd hcont.1 (UInt8.not_le.mpr h)

/-- A byte below 128 begins a character, -/
theorem isBoundary_of_ascii (hb : text[i]? = some b) (h : b < 128) :
    isBoundary text i = true :=
  isBoundary_of_getElem hb (isContinuation_of_ascii h)

/-- and ends one. -/
theorem isBoundary_after_ascii (haligned : Aligned text) (hb : text[i]? = some b) (h : b < 128) :
    isBoundary text (i + 1) = true := by
  cases hnext : text[i + 1]? with
  | none =>
    have hlt := (List.getElem?_eq_some_iff.mp hb).1
    have hlen := List.getElem?_eq_none_iff.mp hnext
    have heq : i + 1 = text.length := by omega
    rw [heq]
    exact isBoundary_length
  | some c =>
    cases hcont : isContinuation c with
    | false => exact isBoundary_of_getElem hnext hcont
    | true =>
      obtain ⟨j, a, hj, ha, hle⟩ := haligned _ c hnext hcont
      obtain rfl : i = j := by omega
      rw [hb] at ha
      obtain rfl := Option.some.inj ha
      exact absurd hle (UInt8.not_le.mpr h)

/-- Inside a character there is no boundary. -/
theorem not_isBoundary_inside {c : Char} {rest : List UInt8} (hpos : 0 < i)
    (hlt : i < (String.utf8EncodeChar c).length) :
    isBoundary (String.utf8EncodeChar c ++ rest) i = false := by
  have hlen : i ≠ (String.utf8EncodeChar c ++ rest).length := by
    rw [List.length_append]
    omega
  obtain ⟨b, hb, hcont⟩ : ∃ b, (String.utf8EncodeChar c)[i]? = some b ∧
      isContinuation b = true := by
    rcases encodeChar_cases c with ⟨b, -, hc⟩ | ⟨b, tail, -, -, htail, hc⟩
    · rw [hc, List.length_singleton] at hlt
      omega
    · obtain ⟨j, rfl⟩ : ∃ j, i = j + 1 := ⟨i - 1, by omega⟩
      rw [hc, List.length_cons] at hlt
      refine ⟨tail[j], ?_, htail _ (List.getElem_mem _)⟩
      rw [hc, List.getElem?_cons_succ]
      exact List.getElem?_eq_getElem (Nat.lt_of_succ_lt_succ hlt)
  have hne : i ≠ 0 := Nat.pos_iff_ne_zero.mp hpos
  rw [isBoundary, beq_eq_false_iff_ne.mpr hne, beq_eq_false_iff_ne.mpr hlen,
    List.getElem?_append_left hlt, hb]
  simp [hcont]

/-- **At a boundary the characters are split.** -/
theorem exists_split {chars : List Char} (hle : i ≤ (encode chars).length)
    (hb : isBoundary (encode chars) i = true) :
    ∃ front back, chars = front ++ back ∧ (encode front).length = i := by
  induction chars generalizing i with
  | nil => exact ⟨[], [], rfl, (Nat.le_zero.mp hle).symm⟩
  | cons c chars ih =>
    rcases Nat.eq_zero_or_pos i with rfl | hpos
    · exact ⟨[], c :: chars, rfl, rfl⟩
    · rw [encode_cons] at hle hb
      rcases Nat.lt_or_ge i (String.utf8EncodeChar c).length with hlt | hge
      · rw [not_isBoundary_inside hpos hlt] at hb
        cases hb
      · obtain ⟨k, rfl⟩ := Nat.exists_eq_add_of_le hge
        rw [List.length_append] at hle
        have hrest : isBoundary (encode chars) k = true := by
          have hne : (String.utf8EncodeChar c).length + k ≠ 0 := Nat.pos_iff_ne_zero.mp hpos
          rw [isBoundary, List.getElem?_append_right hge, Nat.add_sub_cancel_left,
            List.length_append, beq_eq_false_iff_ne.mpr hne, Bool.false_or] at hb
          rw [isBoundary, Bool.or_assoc, Bool.or_eq_true]
          right
          simpa only [Bool.or_eq_true, beq_iff_eq, Nat.add_left_cancel_iff] using hb
        obtain ⟨front, back, rfl, hlen⟩ := ih (by omega) hrest
        refine ⟨c :: front, back, rfl, ?_⟩
        rw [encode_cons, List.length_append, hlen]

end Boundary

/-- Text cut at a boundary is text on both sides. -/
theorem exists_encode_append {chars : List Char} {a b : List UInt8} (h : encode chars = a ++ b)
    (hb : isBoundary (encode chars) a.length = true) :
    ∃ front back, chars = front ++ back ∧ a = encode front ∧ b = encode back := by
  have hle : a.length ≤ (encode chars).length := by
    rw [h, List.length_append]
    omega
  obtain ⟨front, back, rfl, hlen⟩ := exists_split hle hb
  rw [encode_append] at h
  obtain ⟨ha, hb'⟩ := List.append_inj h hlen
  exact ⟨front, back, rfl, ha.symm, hb'.symm⟩

/-- A character of one byte is found where the byte is. -/
theorem exists_encode_ascii {chars : List Char} {a t : List UInt8} {b : UInt8} {c : Char}
    (h : encode chars = a ++ b :: t) (hc : String.utf8EncodeChar c = [b]) (hb : b < 128) :
    ∃ front back, chars = front ++ c :: back ∧ a = encode front ∧ t = encode back := by
  have hget : (encode chars)[a.length]? = some b := by
    rw [h, List.getElem?_append_right (Nat.le_refl _), Nat.sub_self]
    rfl
  obtain ⟨front, back, rfl, ha, hback⟩ := exists_encode_append h (isBoundary_of_ascii hget hb)
  have hget' : (encode back)[0]? = some b := by
    rw [← hback]
    rfl
  have hbound : isBoundary (encode back) [b].length = true :=
    isBoundary_after_ascii (aligned_encode back) hget' hb
  obtain ⟨front', back', rfl, hfront', ht⟩ := exists_encode_append hback.symm hbound
  obtain rfl : front' = [c] := by
    refine encode_injective ?_
    rw [← hfront', ← hc]
    exact (List.flatMap_singleton _ _).symm
  exact ⟨front, back', rfl, ha, ht⟩

/-- No text begins with a byte that continues a character. -/
theorem takeWhile_isContinuation_encode (chars : List Char) :
    (encode chars).takeWhile isContinuation = [] := by
  cases chars with
  | nil => rfl
  | cons c chars =>
    rw [encode_cons]
    rcases encodeChar_cases c with ⟨b, hb, hc⟩ | ⟨b, rest, -, hlead, -, hc⟩
    · rw [hc, List.singleton_append, List.takeWhile_cons_of_neg]
      rw [isContinuation_of_ascii hb]
      exact Bool.false_ne_true
    · rw [hc, List.cons_append, List.takeWhile_cons_of_neg]
      rw [hlead]
      exact Bool.false_ne_true

/-- A text begins with a character of one byte where it begins with the byte. -/
theorem head_encode_ascii {chars : List Char} {b : UInt8} {c : Char}
    (hc : String.utf8EncodeChar c = [b]) (hb : b < 128) :
    (encode chars).head? = some b ↔ chars.head? = some c := by
  constructor
  · intro h
    obtain ⟨t, ht⟩ := List.head?_eq_some_iff.mp h
    obtain ⟨front, back, rfl, hfront, -⟩ := exists_encode_ascii (a := []) ht hc hb
    rw [encode_eq_nil hfront.symm]
    rfl
  · intro h
    obtain ⟨t, rfl⟩ := List.head?_eq_some_iff.mp h
    rw [encode_cons, hc]
    rfl

theorem mem_encode_ascii {chars : List Char} {b : UInt8} {c : Char}
    (hc : String.utf8EncodeChar c = [b]) (hb : b < 128) : b ∈ encode chars ↔ c ∈ chars := by
  constructor
  · intro hmem
    obtain ⟨a, t, h⟩ := List.append_of_mem hmem
    obtain ⟨front, back, rfl, -, -⟩ := exists_encode_ascii h hc hb
    exact List.mem_append_right front List.mem_cons_self
  · intro hmem
    refine List.mem_flatMap.mpr ⟨c, hmem, ?_⟩
    rw [hc]
    exact List.mem_singleton_self b

/-- What is between two boundaries is text. -/
theorem exists_encode_between {chars : List Char} {i j : ℕ} (hle : i ≤ j)
    (hj : j ≤ (encode chars).length) (hi : isBoundary (encode chars) i = true)
    (hj' : isBoundary (encode chars) j = true) :
    ∃ part, ((encode chars).drop i).take (j - i) = encode part := by
  obtain ⟨front, rest, hchars, rfl⟩ := exists_split (Nat.le_trans hle hj) hi
  obtain ⟨front', rest', hchars', rfl⟩ := exists_split hj hj'
  rcases List.append_eq_append_iff.mp (hchars.symm.trans hchars') with
    ⟨part, rfl, -⟩ | ⟨part, rfl, -⟩
  · refine ⟨part, ?_⟩
    rw [hchars', encode_append _ rest', encode_append front, List.append_assoc, List.drop_left,
      List.length_append, Nat.add_sub_cancel_left, List.take_left]
  · have hge : (encode front').length ≤ (encode (front' ++ part)).length := by
      rw [encode_append, List.length_append]
      omega
    exact ⟨[], by rw [Nat.sub_eq_zero_of_le hge, List.take_zero]; rfl⟩

/-! ### Rewriting bytes below 128 -/

theorem Recast.length_eq {text text' : List UInt8} (h : Recast text text') :
    text'.length = text.length := (List.Forall₂.length_eq h).symm

theorem Recast.append {a a' b b' : List UInt8} (h : Recast a a') (h' : Recast b b') :
    Recast (a ++ b) (a' ++ b') := by
  unfold Recast at h
  induction h with
  | nil => exact h'
  | cons hb _ ih => exact List.Forall₂.cons hb ih

theorem Recast.refl (text : List UInt8) : Recast text text := by
  unfold Recast
  induction text with
  | nil => exact List.Forall₂.nil
  | cons b text ih => exact List.Forall₂.cons (.inl rfl) ih

/-- A byte below 128 is the encoding of a character. -/
theorem exists_encodeChar {b : UInt8} (h : b < 128) : ∃ c, String.utf8EncodeChar c = [b] := by
  have hlt : b.toNat < 128 := UInt8.lt_iff_toNat_lt.mp h
  refine ⟨Char.ofNat b.toNat, ?_⟩
  have hval : (Char.ofNat b.toNat).val.toNat = b.toNat := by
    rw [Char.ofNat, dif_pos (Or.inl (by omega))]
    rfl
  unfold String.utf8EncodeChar
  rw [hval]
  simp only [show b.toNat ≤ 127 by omega, if_true, UInt8.ofNat_toNat]

/-- Bytes from 128 up are left as they are. -/
theorem eq_of_recast {text text' : List UInt8} (h : Recast text text')
    (hall : ∀ b ∈ text, 128 ≤ b) : text' = text := by
  unfold Recast at h
  induction h with
  | nil => rfl
  | @cons b b' text text' hb _ ih =>
    have heq : b = b' := hb.resolve_right fun hlt =>
      absurd (hall b List.mem_cons_self) (UInt8.not_le.mpr hlt.1)
    rw [ih fun a ha => hall a (List.mem_cons_of_mem b ha), heq]

theorem Recast.split {a b text' : List UInt8} (h : Recast (a ++ b) text') :
    ∃ a' b', Recast a a' ∧ Recast b b' ∧ text' = a' ++ b' := by
  induction a generalizing text' with
  | nil => exact ⟨[], text', List.Forall₂.nil, h, rfl⟩
  | cons c a ih =>
    obtain ⟨c', text'', hc, htext, rfl⟩ := List.forall₂_cons_left_iff.mp h
    obtain ⟨a', b', ha, hb, rfl⟩ := ih htext
    exact ⟨c' :: a', b', List.Forall₂.cons hc ha, hb, rfl⟩

/-- **A rewritten text is the encoding of characters again.** -/
theorem exists_encode_of_recast {chars : List Char} {text' : List UInt8}
    (h : Recast (encode chars) text') : ∃ chars', text' = encode chars' := by
  induction chars generalizing text' with
  | nil =>
    cases h
    exact ⟨[], rfl⟩
  | cons c chars ih =>
    rw [encode_cons] at h
    obtain ⟨front, back, hfront, hback, rfl⟩ := h.split
    obtain ⟨chars', rfl⟩ := ih hback
    obtain ⟨c', hc'⟩ : ∃ c', front = String.utf8EncodeChar c' := by
      rcases encodeChar_cases c with ⟨b, hb, hc⟩ | ⟨b, rest, hb, -, hrest, hc⟩
      · -- A character of one byte may become another of one byte.
        rw [hc] at hfront
        obtain ⟨b', tail, hb', htail, rfl⟩ := List.forall₂_cons_left_iff.mp hfront
        cases htail
        have hlt : b' < 128 := by
          rcases hb' with rfl | hlt
          · exact hb
          · exact hlt.2
        obtain ⟨c', hc'⟩ := exists_encodeChar hlt
        exact ⟨c', hc'.symm⟩
      · -- A longer one has no byte below 128, so it stays.
        refine ⟨c, eq_of_recast hfront ?_⟩
        rw [hc, List.forall_mem_cons]
        exact ⟨hb, fun b' hb' => (isContinuation_iff.mp (hrest b' hb')).1⟩
    exact ⟨c' :: chars', by rw [encode_cons, hc']⟩

end Utf8

end Machine
