import Mathlib.Data.List.TakeWhile
import RocketSocket.Codegen.Strip

/-!
# Where the comments of a text are

A text is a sequence of lexemes: strings, comments, and single bytes of code.  Blanking out
rewrites the comments, byte by byte, and leaves no comment behind.

## Main definitions

* `Lexes` — a sequence of lexemes leads from one offset to another.
* `CommentAt`, `InComment` — a comment of the text, and the offsets inside one.
* `Blanked` — a text up to an offset, with its comments blanked out.

## Main results

* `Lexes.disjoint`, `exists_lexeme` — the lexemes of a text cover it and do not overlap.
* `lexemeAt_recast` — a lexeme whose bytes stay is one again.
* `stripComments_blanked` — `strip_comments` blanks out the comments and nothing else.
* `stripComments_idem` — no comment is left.
-/

namespace RocketSocket

namespace Codegen

open Machine Utf8

section Comments

variable {src out line rest : Text} {i j k start stop : ℕ} {kind : Lexeme} {b : UInt8}

/-- A sequence of lexemes leads from the first offset to the second. -/
def Lexes (src : Text) : ℕ → ℕ → Prop :=
  Relation.ReflTransGen fun i j => ∃ kind, lexemeAt src i = some (kind, j)

/-- A comment stands between the offsets. -/
def CommentAt (src : Text) (start stop : ℕ) : Prop :=
  Lexes src 0 start ∧ lexemeAt src start = some (.comment, stop)

/-- An offset inside a comment. -/
def InComment (src : Text) (k : ℕ) : Prop :=
  ∃ start stop, CommentAt src start stop ∧ start ≤ k ∧ k < stop

theorem Lexes.le (h : Lexes src i j) : i ≤ j := by
  induction h with
  | refl => exact le_rfl
  | tail _ hstep ih =>
    obtain ⟨kind, h⟩ := hstep
    exact ih.trans (lexemeAt_lt h).1.le

/-- The next lexeme. -/
theorem Lexes.next (h : Lexes src 0 i) (hl : lexemeAt src i = some (kind, j)) : Lexes src 0 j :=
  h.tail ⟨kind, hl⟩

/-- Of two lexemes the first ends before the second begins. -/
theorem Lexes.apart (h : Lexes src i start) (hl : lexemeAt src i = some (kind, j))
    (hlt : i < start) : j ≤ start := by
  rcases Relation.ReflTransGen.cases_head h with rfl | ⟨j', ⟨kind', hl'⟩, hrest⟩
  · exact absurd hlt (lt_irrefl i)
  · rw [hl] at hl'
    cases hl'
    exact Lexes.le hrest

/-- **The lexemes of a text do not overlap.** -/
theorem Lexes.disjoint {kind' : Lexeme} (hi : Lexes src 0 i) (hl : lexemeAt src i = some (kind, j))
    (hstart : Lexes src 0 start) (hl' : lexemeAt src start = some (kind', stop)) :
    i = start ∨ j ≤ start ∨ stop ≤ i := by
  have hunique : Relator.RightUnique fun i j => ∃ kind, lexemeAt src i = some (kind, j) := by
    rintro i j j' ⟨kind, h⟩ ⟨kind', h'⟩
    rw [h] at h'
    cases h'
    rfl
  rcases Relation.ReflTransGen.total_of_right_unique hunique hi hstart with h | h
  · rcases (Lexes.le h).eq_or_lt with heq | hlt
    · exact .inl heq
    · exact .inr (.inl (Lexes.apart h hl hlt))
  · rcases (Lexes.le h).eq_or_lt with heq | hlt
    · exact .inl heq.symm
    · exact .inr (.inr (Lexes.apart h hl' hlt))

/-- An offset of a lexeme is in a comment if the lexeme is one. -/
theorem inComment_iff (hi : Lexes src 0 i) (hl : lexemeAt src i = some (kind, j)) (hk : i ≤ k)
    (hk' : k < j) : InComment src k ↔ kind = .comment := by
  constructor
  · rintro ⟨start, stop, ⟨hstart, hcomment⟩, hle, hlt⟩
    rcases hi.disjoint hl hstart hcomment with rfl | hapart | hapart
    · rw [hl] at hcomment
      cases hcomment
      rfl
    · omega
    · omega
  · rintro rfl
    exact ⟨i, j, ⟨hi, hl⟩, hk, hk'⟩

/-- Every offset is one of a lexeme. -/
theorem exists_lexeme (hk : k < src.length) :
    ∃ i j kind, Lexes src 0 i ∧ lexemeAt src i = some (kind, j) ∧ i ≤ k ∧ k < j := by
  have hnext (n : ℕ) (hn : n < src.length) : ∃ j kind, lexemeAt src n = some (kind, j) := by
    cases hl : lexemeAt src n with
    | none => exact absurd hn (not_lt.mpr (lexemeAt_eq_none.mp hl))
    | some p => exact ⟨p.2, p.1, rfl⟩
  induction k with
  | zero =>
    obtain ⟨j, kind, hl⟩ := hnext 0 hk
    exact ⟨0, j, kind, Relation.ReflTransGen.refl, hl, le_rfl, (lexemeAt_lt hl).1⟩
  | succ k ih =>
    obtain ⟨i, j, kind, hi, hl, hle, hlt⟩ := ih (by omega)
    rcases Nat.lt_or_ge (k + 1) j with h | h
    · exact ⟨i, j, kind, hi, hl, by omega, h⟩
    · obtain rfl : j = k + 1 := by omega
      obtain ⟨j', kind', hl'⟩ := hnext (k + 1) hk
      exact ⟨k + 1, j', kind', hi.next hl, hl', le_rfl, (lexemeAt_lt hl').1⟩

/-- What is written up to an offset: the comments are blanked out, the rest is copied. -/
structure Blanked (src out : Text) (i : ℕ) : Prop where
  length : out.length = i
  comment : ∀ k < i, InComment src k → out[k]? = src[k]?.map blank
  copied : ∀ k < i, ¬ InComment src k → out[k]? = src[k]?

/-- A lexeme more. -/
theorem Blanked.append (hout : Blanked src out i) (hi : Lexes src 0 i)
    (hl : lexemeAt src i = some (kind, j)) :
    Blanked src (out ++ kind.rewrite ((src.drop i).take (j - i))) j := by
  obtain ⟨hlt, hle⟩ := lexemeAt_lt hl
  have hpiece (k : ℕ) (hk : i ≤ k) (hk' : k < j) :
      ((src.drop i).take (j - i))[k - i]? = src[k]? := by
    rw [List.getElem?_take_of_lt (by omega), List.getElem?_drop, Nat.add_sub_cancel' hk]
  refine ⟨?_, fun k hk hc => ?_, fun k hk hc => ?_⟩
  · rw [List.length_append, hout.length, (kind.recast_rewrite _).length_eq, List.length_take,
      List.length_drop]
    omega
  · -- In front of the lexeme nothing changes; in it, a byte is blanked just if it is a comment.
    rcases Nat.lt_or_ge k i with hki | hki
    · rw [List.getElem?_append_left (hout.length.symm ▸ hki)]
      exact hout.comment k hki hc
    · obtain rfl := (inComment_iff hi hl hki hk).mp hc
      rw [List.getElem?_append_right (hout.length.symm ▸ hki), hout.length, Lexeme.rewrite,
        List.getElem?_map, hpiece k hki hk]
  · rcases Nat.lt_or_ge k i with hki | hki
    · rw [List.getElem?_append_left (hout.length.symm ▸ hki)]
      exact hout.copied k hki hc
    · have hkind : kind ≠ .comment := fun heq => hc ((inComment_iff hi hl hki hk).mpr heq)
      rw [List.getElem?_append_right (hout.length.symm ▸ hki), hout.length]
      cases kind with
      | comment => exact absurd rfl hkind
      | code => exact hpiece k hki hk
      | string => exact hpiece k hki hk

/-- The loop blanks out the comments that are left. -/
theorem stripLoop_blanked (haligned : Aligned src) (fuel : ℕ) (hfuel : src.length < i + fuel)
    (hi : Lexes src 0 i) (hout : Blanked src out i) (hle : i ≤ src.length) :
    ∃ out', stripLoop src fuel i out = .ok out' ∧ Blanked src out' src.length := by
  induction fuel generalizing i out with
  | zero => omega
  | succ fuel ih =>
    cases hl : lexemeAt src i with
    | none =>
      have hlen := lexemeAt_eq_none.mp hl
      obtain rfl : i = src.length := le_antisymm hle hlen
      rw [stripLoop, List.getElem?_eq_none hlen]
      exact ⟨out, rfl, hout⟩
    | some p =>
      obtain ⟨kind, j⟩ := p
      obtain ⟨hlt, hle'⟩ := lexemeAt_lt hl
      rw [stripLoop_lexeme haligned hl]
      exact ih (by omega) (hi.next hl) (hout.append hi hl) hle'

/-- **`strip_comments` blanks out the comments and nothing else.** -/
theorem stripComments_blanked (chars : List Char) : ∃ chars',
    stripComments (encode chars) = .ok (encode chars') ∧
      Recast (encode chars) (encode chars') ∧
      Blanked (encode chars) (encode chars') (encode chars).length := by
  obtain ⟨chars', hout, hrecast⟩ := stripComments_spec chars
  refine ⟨chars', hout, hrecast, ?_⟩
  have hstart : Blanked (encode chars) [] 0 :=
    ⟨rfl, fun k hk => absurd hk (Nat.not_lt_zero k), fun k hk => absurd hk (Nat.not_lt_zero k)⟩
  obtain ⟨out, hloop, hblanked⟩ := stripLoop_blanked (aligned_encode chars)
    ((encode chars).length + 1) (by omega) Relation.ReflTransGen.refl hstart (Nat.zero_le _)
  have hutf8 := hout
  rw [stripComments, hloop, Reading.ok_bind, fromUtf8] at hutf8
  split at hutf8
  · cases hutf8
    exact hblanked
  · cases hutf8

/-! ### A text without comments -/

theorem isContinuation_recast {b' : UInt8} (h : b = b' ∨ (b < 128 ∧ b' < 128)) :
    isContinuation b = isContinuation b' := by
  rcases h with rfl | ⟨h, h'⟩
  · rfl
  · rw [isContinuation_of_ascii h, isContinuation_of_ascii h']

/-- Rewriting bytes below 128 moves no boundary. -/
theorem nextBoundary_recast (h : Recast src out) (i : ℕ) :
    nextBoundary out i = nextBoundary src i := by
  have htake {t t' : Text} (ht : Recast t t') :
      (t'.takeWhile isContinuation).length = (t.takeWhile isContinuation).length := by
    unfold Recast at ht
    induction ht with
    | nil => rfl
    | @cons b b' t t' hb _ ih =>
      rw [List.takeWhile_cons, List.takeWhile_cons, isContinuation_recast hb]
      split
      · rw [List.length_cons, List.length_cons, ih]
      · rfl
  rw [nextBoundary, nextBoundary, h.length_eq, htake (List.forall₂_drop (i + 1) h)]

/-- A string whose bytes stay ends where it ended. -/
theorem skipLoop_recast (h : Recast src out) {quote : UInt8} (fuel : ℕ) (hi : i ≤ src.length)
    (hfuel : src.length ≤ i + fuel)
    (hsame : ∀ k, i ≤ k → k < skipLoop src quote fuel i → out[k]? = src[k]?) :
    skipLoop out quote fuel i = skipLoop src quote fuel i := by
  induction fuel generalizing i with
  | zero => rfl
  | succ fuel ih =>
    cases hc : src[i]? with
    | none =>
      have hc' : out[i]? = none := by
        rw [List.getElem?_eq_none_iff, h.length_eq]
        exact List.getElem?_eq_none_iff.mp hc
      rw [skipLoop, skipLoop, hc, hc']
    | some c =>
      have hlt := lt_length_of_getElem hc
      -- The byte is of the string.
      have hinside : i < skipLoop src quote (fuel + 1) i := by
        rw [skipLoop, hc]
        dsimp only
        split
        · obtain ⟨hnext, hle⟩ := lt_nextBoundary hlt
          exact hnext.trans_le (skipLoop_spec fuel hle (by omega)).1
        · split
          · exact Nat.lt_succ_self i
          · exact (skipLoop_spec (i := i + 1) fuel (by omega) (by omega)).1
      have hc' : out[i]? = some c := by rw [hsame i le_rfl hinside, hc]
      rw [skipLoop, hc] at hsame
      rw [skipLoop, skipLoop, hc, hc']
      dsimp only at hsame ⊢
      split
      · next heq =>
        obtain ⟨hnext, hle⟩ := lt_nextBoundary hlt
        rw [if_pos heq] at hsame
        rw [nextBoundary_recast h]
        exact ih hle (by omega) fun k hk => hsame k (by omega)
      · next hne =>
        rw [if_neg hne] at hsame
        split
        · rfl
        · next hquote =>
          rw [if_neg hquote] at hsame
          exact ih (by omega) (by omega) fun k hk => hsame k (by omega)

/-- A line ends before a newline, or with the text. -/
theorem lineEnd_eq (h : src.drop i = line ++ rest) (hline : ∀ b ∈ line, b ≠ newline)
    (hrest : ∀ b, rest.head? = some b → b = newline) : lineEnd src i = i + line.length := by
  have hnil : rest.takeWhile (fun b => decide (b ≠ newline)) = [] := by
    cases rest with
    | nil => rfl
    | cons b rest => rw [List.takeWhile_cons_of_neg (by simpa using hrest b rfl)]
  rw [lineEnd, h, List.takeWhile_append_of_pos (by simpa using hline), hnil, List.append_nil]

theorem take_drop_congr
    (hsame : ∀ k, i ≤ k → k < j → out[k]? = src[k]?) :
    (out.drop i).take (j - i) = (src.drop i).take (j - i) := by
  refine List.ext_getElem? fun k => ?_
  rw [List.getElem?_take, List.getElem?_take, List.getElem?_drop, List.getElem?_drop]
  split
  · exact hsame _ (by omega) (by omega)
  · rfl

/-- Behind a line there is a newline, if there is anything. -/
theorem getElem_lineEnd (h : src[lineEnd src i]? = some b) : b = newline := by
  have hsplit := List.takeWhile_append_dropWhile (p := fun b => decide (b ≠ newline))
    (l := src.drop i)
  have hnext := congrArg
    (List.drop ((src.drop i).takeWhile fun b => decide (b ≠ newline)).length) hsplit
  rw [List.drop_left, List.drop_drop, ← lineEnd] at hnext
  have hnot := List.head?_dropWhile_not (fun b => decide (b ≠ newline)) (src.drop i)
  rw [hnext, List.head?_drop, h] at hnot
  simpa using hnot

/-- A line whose bytes stay ends where it ended. -/
theorem lineEnd_congr (hlen : out.length = src.length)
    (hsame : ∀ k, i ≤ k → k < lineEnd src i → out[k]? = src[k]?)
    (hend : src[lineEnd src i]? = some newline → out[lineEnd src i]? = some newline) :
    lineEnd out i = lineEnd src i := by
  have htake := take_drop_congr hsame
  set line := (src.drop i).takeWhile fun b => decide (b ≠ newline) with hline
  have hstop : lineEnd src i = i + line.length := rfl
  rw [hstop, Nat.add_sub_cancel_left] at htake
  have hsrc : (src.drop i).take line.length = line := by
    rw [← List.takeWhile_append_dropWhile (l := src.drop i), ← hline, List.take_left]
  have hout : out.drop i = line ++ out.drop (i + line.length) := by
    rw [← List.take_append_drop line.length (out.drop i), htake, hsrc, List.drop_drop]
  have hmem : ∀ b ∈ line, b ≠ newline := fun b hb => by
    simpa using List.mem_takeWhile_imp hb
  rw [hstop] at hend
  refine lineEnd_eq hout hmem fun b hb => ?_
  rw [List.head?_drop] at hb
  obtain ⟨c, hc⟩ : ∃ c, src[i + line.length]? = some c :=
    ⟨_, List.getElem?_eq_getElem (hlen ▸ lt_length_of_getElem hb)⟩
  obtain rfl : c = newline := getElem_lineEnd (i := i) (hstop.symm ▸ hc)
  rw [hend hc] at hb
  exact (Option.some.inj hb).symm

/-- A block comment whose bytes stay ends where it ended. -/
theorem blockEnd_congr (hlen : out.length = src.length)
    (hsame : ∀ k, i ≤ k → k < blockEnd src i → out[k]? = src[k]?) :
    blockEnd out i = blockEnd src i := by
  cases hfind : find [star, slash] (src.drop (i + 2)) with
  -- No mark closes the comment: it goes to the end, which is the same.
  | none =>
    have hend : blockEnd src i = src.length := by
      rw [blockEnd, hfind]
      rfl
    have hdrop : out.drop (i + 2) = src.drop (i + 2) := by
      refine List.ext_getElem? fun k => ?_
      rw [List.getElem?_drop, List.getElem?_drop]
      rcases Nat.lt_or_ge (i + 2 + k) src.length with hlt | hge
      · exact hsame _ (by omega) (hend.symm ▸ hlt)
      · rw [List.getElem?_eq_none hge, List.getElem?_eq_none (hlen ▸ hge)]
    rw [blockEnd, blockEnd, hdrop, hlen]
  | some p =>
    have hend : blockEnd src i = i + 2 + p + 2 := by
      rw [blockEnd, hfind]
      rfl
    -- The bytes up to the mark are the same, so it is the first one there too.
    rw [hend] at hsame
    have htake := take_drop_congr (i := i + 2) (j := i + 2 + p + 2) fun k hk => hsame k (by omega)
    rw [show i + 2 + p + 2 - (i + 2) = p + 2 by omega] at htake
    have hfind' : find [star, slash] (out.drop (i + 2)) = some p :=
      find_iff.mpr ((find_iff.mp hfind).congr htake)
    rw [blockEnd, hfind', hend]
    rfl

/-- **A lexeme whose bytes stay is one again**, if no comment begins at its end that did not, and
no line ends later. -/
theorem lexemeAt_recast (hrecast : Recast src out) (hl : lexemeAt src i = some (kind, j))
    (hsame : ∀ k, i ≤ k → k < j → out[k]? = src[k]?)
    (hnext : ∀ b, b = slash ∨ b = star → out[i + 1]? = some b → src[i + 1]? = some b)
    (hend : kind = .comment → src[j]? = some newline → out[j]? = some newline) :
    lexemeAt out i = some (kind, j) := by
  obtain ⟨hlt, hle⟩ := lexemeAt_lt hl
  have hlen := hrecast.length_eq
  obtain ⟨c, hc, heq⟩ := Option.map_eq_some_iff.mp hl
  have hc' : out[i]? = some c := (hsame i le_rfl hlt).trans hc
  rw [lexemeAt, hc', Option.map_some, Option.some.injEq]
  split at heq
  · next hquote =>
    -- A string.
    cases heq
    have hafter : after out i c = after src i c := by
      rw [after, if_pos hquote] at hsame
      rw [after, after, if_pos hquote, if_pos hquote, hlen]
      exact skipLoop_recast hrecast _ (by omega) (by omega) fun k hk => hsame k (by omega)
    rw [if_pos hquote, hafter]
  · next hquote =>
    rw [if_neg hquote]
    split at heq
    · next hslash =>
      cases heq
      have hinside : i + 1 < lineEnd src i := by
        refine lt_of_le_of_ne hlt fun heq => ?_
        exact absurd (getElem_lineEnd (heq ▸ hslash.2)) (by decide)
      have hslash' : out[i + 1]? = some slash := (hsame _ (Nat.le_succ i) hinside).trans hslash.2
      rw [if_pos ⟨hslash.1, hslash'⟩, lineEnd_congr hlen hsame (hend rfl)]
    · next hslash =>
      rw [if_neg fun h => hslash ⟨h.1, hnext _ (.inl rfl) h.2⟩]
      split at heq
      · next hstar =>
        cases heq
        have hinside : i + 1 < blockEnd src i := by
          rw [blockEnd]
          cases find [star, slash] (src.drop (i + 2)) with
          | none => exact lt_length_of_getElem hstar.2
          | some p =>
            rw [Option.map_some, Option.getD_some]
            omega
        have hstar' : out[i + 1]? = some star := (hsame _ (Nat.le_succ i) hinside).trans hstar.2
        rw [if_pos ⟨hstar.1, hstar'⟩, blockEnd_congr hlen hsame]
      · next hstar =>
        cases heq
        rw [if_neg fun h => hstar ⟨h.1, hnext _ (.inr rfl) h.2⟩]

/-- What a byte is blanked to begins neither a string nor a comment. -/
theorem blank_plain (b : UInt8) : isQuote (blank b) = false ∧ blank b ≠ slash ∧ blank b ≠ star := by
  rw [blank]
  split
  · next h =>
    rcases h with rfl | h
    · decide
    · refine ⟨Bool.eq_false_iff.mpr fun hquote => h (isQuote_lt hquote), ?_, ?_⟩
      · rintro rfl
        exact h (by decide)
      · rintro rfl
        exact h (by decide)
  · decide

/-- A byte that was blanked is code. -/
theorem lexemeAt_blank (hb : out[k]? = some (blank b)) : lexemeAt out k = some (.code, k + 1) := by
  obtain ⟨hquote, hslash, -⟩ := blank_plain b
  rw [lexemeAt, hb, Option.map_some, if_neg (Bool.eq_false_iff.mp hquote),
    if_neg fun h => hslash h.1, if_neg fun h => hslash h.1]

/-- Every byte of a comment is code afterwards. -/
theorem Blanked.lexemeAt_comment (hout : Blanked src out src.length) (hk : InComment src k) :
    lexemeAt out k = some (.code, k + 1) := by
  obtain ⟨start, stop, ⟨-, hl⟩, -, hlt⟩ := id hk
  have hlen : k < src.length := hlt.trans_le (lexemeAt_lt hl).2
  refine @lexemeAt_blank out k src[k] ?_
  rw [hout.comment k hlen hk, List.getElem?_eq_getElem hlen, Option.map_some]

/-- Every other lexeme is as it was. -/
theorem Blanked.lexemeAt_other (hrecast : Recast src out) (hout : Blanked src out src.length)
    (hi : Lexes src 0 i) (hl : lexemeAt src i = some (kind, j)) (hkind : kind ≠ .comment) :
    lexemeAt out i = some (kind, j) := by
  obtain ⟨hlt, hle⟩ := lexemeAt_lt hl
  have hsame (k : ℕ) (hk : i ≤ k) (hk' : k < j) : out[k]? = src[k]? :=
    hout.copied k (hk'.trans_le hle) fun hc => hkind ((inComment_iff hi hl hk hk').mp hc)
  refine lexemeAt_recast hrecast hl hsame (fun b hb h => ?_) fun heq => absurd heq hkind
  have hlen : i + 1 < src.length := hrecast.length_eq ▸ lt_length_of_getElem h
  by_cases hc : InComment src (i + 1)
  · rw [hout.comment _ hlen hc, List.getElem?_eq_getElem hlen, Option.map_some,
      Option.some.injEq] at h
    obtain ⟨-, hslash, hstar⟩ := blank_plain src[i + 1]
    rcases hb with rfl | rfl
    · exact absurd h hslash
    · exact absurd h hstar
  · rwa [hout.copied _ hlen hc] at h

/-- The lexemes afterwards: no comment is one of them, and they end where a lexeme ended, or
inside a comment. -/
theorem Blanked.exists_lexeme (hrecast : Recast src out) (hout : Blanked src out src.length)
    (hlt : i < src.length) (hi : Lexes src 0 i ∨ InComment src i) :
    ∃ kind j, lexemeAt out i = some (kind, j) ∧ kind ≠ .comment ∧
      (Lexes src 0 j ∨ InComment src j) := by
  by_cases hc : InComment src i
  · refine ⟨.code, i + 1, hout.lexemeAt_comment hc, by decide, ?_⟩
    obtain ⟨start, stop, hcomment, hle, hstop⟩ := hc
    rcases Nat.lt_or_ge (i + 1) stop with h | h
    · exact .inr ⟨start, stop, hcomment, by omega, h⟩
    · obtain rfl : stop = i + 1 := by omega
      exact .inl (hcomment.1.next hcomment.2)
  · have hi' := hi.resolve_right hc
    cases hl : lexemeAt src i with
    | none => exact absurd hlt (not_lt.mpr (lexemeAt_eq_none.mp hl))
    | some p =>
      obtain ⟨kind, j⟩ := p
      have hkind : kind ≠ .comment := fun heq =>
        hc ((inComment_iff hi' hl le_rfl (lexemeAt_lt hl).1).mpr heq)
      exact ⟨kind, j, hout.lexemeAt_other hrecast hi' hl hkind, hkind, .inl (hi'.next hl)⟩

/-- The loop copies a text whose comments are blanked out. -/
theorem stripLoop_copies (hrecast : Recast src out) (haligned : Aligned out)
    (hout : Blanked src out src.length) (fuel : ℕ) (hfuel : src.length < i + fuel)
    (hle : i ≤ src.length) (hi : Lexes src 0 i ∨ InComment src i) :
    stripLoop out fuel i (out.take i) = .ok out := by
  induction fuel generalizing i with
  | zero => omega
  | succ fuel ih =>
    rcases hle.eq_or_lt with rfl | hlt
    · have hlen := hrecast.length_eq
      rw [stripLoop, List.getElem?_eq_none hlen.le, List.take_of_length_le hlen.le]
    · obtain ⟨kind, j, hl, hkind, hj⟩ := hout.exists_lexeme hrecast hlt hi
      obtain ⟨hij, hle'⟩ := lexemeAt_lt hl
      have hpiece : out.take i ++ kind.rewrite ((out.drop i).take (j - i)) = out.take j := by
        have hrewrite : kind.rewrite ((out.drop i).take (j - i)) = (out.drop i).take (j - i) := by
          cases kind with
          | comment => exact absurd rfl hkind
          | code => rfl
          | string => rfl
        rw [hrewrite, ← List.take_add, Nat.add_sub_cancel' hij.le]
      rw [stripLoop_lexeme haligned hl, hpiece]
      exact ih (by omega) (hrecast.length_eq ▸ hle') hj

/-- **No comment is left**: blanking out twice is blanking out once. -/
theorem stripComments_idem {chars chars' : List Char}
    (hrecast : Recast (encode chars) (encode chars'))
    (hout : Blanked (encode chars) (encode chars') (encode chars).length) :
    stripComments (encode chars') = .ok (encode chars') := by
  have hloop : stripLoop (encode chars') ((encode chars').length + 1) 0 [] =
      .ok (encode chars') :=
    stripLoop_copies hrecast (aligned_encode chars') hout _ (by rw [hrecast.length_eq]; omega)
      (Nat.zero_le _) (.inl Relation.ReflTransGen.refl)
  rw [stripComments, hloop, Reading.ok_bind, fromUtf8_encode]

end Comments

end Codegen

end RocketSocket
