import RocketSocket.Lib.Region
import RocketSocket.Codegen.Scan

/-!
# Blanking out comments

`stripComments` copies strings and code, and rewrites the bytes below 128 of a comment to
spaces.  Nothing moves and no other byte changes, so the text is one of characters again.

## Main results

* `find_iff` — `find` gives the first place of a part.
* `recast_blank` — a comment is blanked by rewriting bytes below 128.
* `stripComments_spec` — comments can always be blanked out, and the text stays aligned.
-/

namespace RocketSocket

namespace Codegen

open Machine Utf8

theorem recast_blank (t : Text) : Recast t (t.map blank) := by
  unfold Recast
  rw [List.forall₂_map_right_iff, List.forall₂_same]
  intro b _
  rw [blank]
  split
  · exact .inl rfl
  · next h =>
    rw [not_or, not_not] at h
    exact .inr ⟨h.2, by decide⟩

theorem prefix_of_find {part : Text} {t : Text} {p : ℕ} (h : find part t = some p) :
    part <+: t.drop p := by
  induction t generalizing p with
  | nil =>
    rw [find] at h
    split at h
    · next hempty =>
      rw [List.isEmpty_iff.mp hempty]
      exact List.nil_prefix
    · cases h
  | cons b t ih =>
    rw [find] at h
    split at h
    · next hfront =>
      cases h
      exact List.isPrefixOf_iff_prefix.mp hfront
    · obtain ⟨q, hq, rfl⟩ := Option.map_eq_some_iff.mp h
      exact ih hq

theorem find_eq_some {part t : Text} {n : ℕ} (h : part <+: t.drop n)
    (hfirst : ∀ k < n, ¬ part <+: t.drop k) : find part t = some n := by
  induction t generalizing n with
  | nil =>
    rw [List.drop_nil] at h
    have hpart := List.prefix_nil.mp h
    subst hpart
    cases n with
    | zero => rfl
    | succ n => exact absurd List.nil_prefix (hfirst 0 (Nat.succ_pos n))
  | cons b t ih =>
    cases n with
    | zero =>
      have hfront : part <+: b :: t := h
      rw [find, if_pos (List.isPrefixOf_iff_prefix.mpr hfront)]
    | succ n =>
      have hnot : ¬ part <+: b :: t := hfirst 0 (Nat.succ_pos n)
      have hrest := ih h fun k hk => hfirst (k + 1) (Nat.succ_lt_succ hk)
      rw [find, if_neg (fun hfront => hnot (List.isPrefixOf_iff_prefix.mp hfront)), hrest]
      rfl

/-- `find` gives the first place of a part. -/
theorem find_iff {part t : Text} {n : ℕ} : find part t = some n ↔ First part t n := by
  refine ⟨fun hfind => ?_, fun hfirst => find_eq_some hfirst.here hfirst.least⟩
  obtain ⟨m, hfirst⟩ := exists_first.mpr (isInfix_of_prefix_drop (prefix_of_find hfind))
  have hm := find_eq_some hfirst.here hfirst.least
  rw [hfind] at hm
  cases hm
  exact hfirst

theorem find_le {part : Text} {t : Text} {p : ℕ} (h : find part t = some p) :
    p + part.length ≤ t.length := by
  induction t generalizing p with
  | nil =>
    rw [find] at h
    split at h
    · next hempty =>
      cases h
      rw [List.isEmpty_iff.mp hempty, Nat.zero_add]
    · cases h
  | cons b t ih =>
    rw [find] at h
    split at h
    · next hfront =>
      cases h
      have hle := (List.isPrefixOf_iff_prefix.mp hfront).length_le
      omega
    · obtain ⟨q, hq, rfl⟩ := Option.map_eq_some_iff.mp h
      have hle := ih hq
      rw [List.length_cons]
      omega

section Strip

variable {src : Text} {i j : ℕ} {c : UInt8}

/-- What a range becomes is put behind what the text before it became. -/
theorem recast_take {out out' : Text} (hle : i ≤ j) (h : Recast (src.take i) out)
    (h' : Recast ((src.drop i).take (j - i)) out') : Recast (src.take j) (out ++ out') := by
  have hsplit : src.take j = src.take i ++ (src.drop i).take (j - i) := by
    rw [← List.take_add, Nat.add_sub_cancel' hle]
  rw [hsplit]
  exact h.append h'

theorem byteSlice_eq (hle : i ≤ j) (hlen : j ≤ src.length) :
    byteSlice src i j = .ok ((src.drop i).take (j - i)) := if_pos ⟨hle, hlen⟩

/-- A line comment is not empty. -/
theorem lt_lineEnd (hc : src[i]? = some c) (hne : c ≠ newline) :
    i < lineEnd src i ∧ lineEnd src i ≤ src.length := by
  have hlt := lt_length_of_getElem hc
  have hle := (List.takeWhile_prefix (fun b => decide (b ≠ newline)) (l := src.drop i)).length_le
  rw [List.length_drop] at hle
  have hpos : 0 < ((src.drop i).takeWhile fun b => decide (b ≠ newline)).length := by
    rw [← List.head?_drop] at hc
    obtain ⟨rest, hrest⟩ : ∃ rest, src.drop i = c :: rest := List.head?_eq_some_iff.mp hc
    rw [hrest, List.takeWhile_cons_of_pos (by simpa using hne)]
    exact Nat.succ_pos _
  rw [lineEnd]
  omega

/-! ### Lexemes -/

/-- What the lexer tells apart. -/
inductive Lexeme where
  | code
  | string
  | comment
  deriving DecidableEq, Repr

/-- The end of the block comment at `i`: after its `*/`, or the end of the text. -/
def blockEnd (src : Text) (i : ℕ) : ℕ :=
  ((find [star, slash] (src.drop (i + 2))).map fun p => i + 2 + p + 2).getD src.length

/-- What begins at an offset, and where it ends. -/
def lexemeAt (src : Text) (i : ℕ) : Option (Lexeme × ℕ) :=
  src[i]?.map fun c =>
    if isQuote c then (.string, after src i c)
    else if c = slash ∧ src[i + 1]? = some slash then (.comment, lineEnd src i)
    else if c = slash ∧ src[i + 1]? = some star then (.comment, blockEnd src i)
    else (.code, i + 1)

/-- A block comment is not empty. -/
theorem lt_blockEnd (hstar : src[i + 1]? = some star) :
    i < blockEnd src i ∧ blockEnd src i ≤ src.length := by
  have hlt := lt_length_of_getElem hstar
  rw [blockEnd]
  cases hfind : find [star, slash] (src.drop (i + 2)) with
  | none => exact ⟨by rw [Option.map_none, Option.getD_none]; omega, le_rfl⟩
  | some p =>
    have hle := find_le hfind
    rw [List.length_drop] at hle
    simp only [List.length_cons, List.length_nil] at hle
    rw [Option.map_some, Option.getD_some]
    omega

variable {kind : Lexeme}

/-- No lexeme is empty. -/
theorem lexemeAt_lt (h : lexemeAt src i = some (kind, j)) : i < j ∧ j ≤ src.length := by
  obtain ⟨c, hc, heq⟩ := Option.map_eq_some_iff.mp h
  split at heq
  · cases heq
    exact ⟨lt_after hc, after_le hc⟩
  · split at heq
    · next hslash =>
      cases heq
      exact lt_lineEnd hc (by rw [hslash.1]; decide)
    · split at heq
      · next hstar =>
        cases heq
        exact lt_blockEnd hstar.2
      · cases heq
        exact ⟨Nat.lt_succ_self i, lt_length_of_getElem hc⟩

theorem lexemeAt_eq_none : lexemeAt src i = none ↔ src.length ≤ i := by
  rw [lexemeAt, Option.map_eq_none_iff, List.getElem?_eq_none_iff]

/-- What becomes of a lexeme. -/
def Lexeme.rewrite (kind : Lexeme) (t : Text) : Text :=
  match kind with
  | .comment => t.map blank
  | _ => t

theorem Lexeme.recast_rewrite (kind : Lexeme) (t : Text) : Recast t (kind.rewrite t) := by
  cases kind with
  | comment => exact recast_blank t
  | code => exact Recast.refl t
  | string => exact Recast.refl t

/-- One round of the loop rewrites one lexeme. -/
theorem stripLoop_lexeme (haligned : Aligned src) (h : lexemeAt src i = some (kind, j))
    (fuel : ℕ) (out : Text) : stripLoop src (fuel + 1) i out =
      stripLoop src fuel j (out ++ kind.rewrite ((src.drop i).take (j - i))) := by
  obtain ⟨hlt, hle⟩ := lexemeAt_lt h
  have hslice := byteSlice_eq hlt.le hle
  obtain ⟨c, hc, heq⟩ := Option.map_eq_some_iff.mp h
  rw [stripLoop, hc]
  dsimp only
  split at heq
  · -- A string,
    next hquote =>
    cases heq
    rw [if_pos hquote, skipString_eq hc hquote, Reading.ok_bind, hslice, Reading.ok_bind]
    rfl
  · next hquote =>
    rw [if_neg hquote]
    split at heq
    · -- a line comment,
      next hslash =>
      cases heq
      rw [if_pos hslash, hslice, Reading.ok_bind]
      rfl
    · next hslash =>
      rw [if_neg hslash]
      split at heq
      · -- a block comment,
        next hstar =>
        cases heq
        have hbound : Bound src (i + 2) := Bound.after_ascii haligned hstar.2 (by decide)
        rw [if_pos hstar, sliceFrom_eq hbound, Reading.ok_bind]
        show (byteSlice src i (blockEnd src i) >>= _) = _
        rw [hslice, Reading.ok_bind]
        rfl
      · -- or one byte of code.
        next hstar =>
        cases heq
        have hone : (src.drop i).take (i + 1 - i) = [c] := by
          rw [Nat.add_sub_cancel_left, List.take_one, List.head?_drop, hc]
          rfl
        rw [if_neg hstar, hone]
        rfl

/-- The loop comes to the end of the text and has rewritten bytes below 128 only. -/
theorem stripLoop_spec (haligned : Aligned src) (fuel : ℕ) (hi : i ≤ src.length)
    (hfuel : src.length < i + fuel) {out : Text} (hout : Recast (src.take i) out) :
    ∃ out', stripLoop src fuel i out = .ok out' ∧ Recast src out' := by
  induction fuel generalizing i out with
  | zero => omega
  | succ fuel ih =>
    cases h : lexemeAt src i with
    | none =>
      have hlen := lexemeAt_eq_none.mp h
      rw [stripLoop, List.getElem?_eq_none hlen]
      rw [List.take_of_length_le hlen] at hout
      exact ⟨out, rfl, hout⟩
    | some p =>
      obtain ⟨kind, j⟩ := p
      obtain ⟨hlt, hle⟩ := lexemeAt_lt h
      rw [stripLoop_lexeme haligned h]
      exact ih hle (by omega) (recast_take hlt.le hout (kind.recast_rewrite _))

/-- Encoded characters are valid. -/
theorem fromUtf8_encode (chars : List Char) : fromUtf8 (encode chars) = .ok (encode chars) := by
  rw [fromUtf8, mk_encode, if_pos (ByteArray.validateUTF8_eq_true_iff.mpr
    ByteArray.isValidUTF8_utf8Encode)]

/-- **Comments can always be blanked out.** -/
theorem stripComments_spec (chars : List Char) : ∃ chars',
    stripComments (encode chars) = .ok (encode chars') ∧
      Recast (encode chars) (encode chars') := by
  obtain ⟨out, hout, hrecast⟩ : ∃ out,
      stripLoop (encode chars) ((encode chars).length + 1) 0 [] = .ok out ∧
        Recast (encode chars) out :=
    stripLoop_spec (aligned_encode chars) _ (Nat.zero_le _) (by omega) List.Forall₂.nil
  obtain ⟨chars', rfl⟩ := exists_encode_of_recast hrecast
  exact ⟨chars', by rw [stripComments, hout, Reading.ok_bind, fromUtf8_encode], hrecast⟩

end Strip

end Codegen

end RocketSocket
