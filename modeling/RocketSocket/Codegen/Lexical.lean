import RocketSocket.Codegen.Comments

/-!
# Strings and comments

The lexical grammar of a source text, in terms of its characters: where a string ends, where a
comment ends, and what is neither.  It says nothing about how the text is scanned.  The scanners
work on bytes; here they are shown to end a string and a comment where the grammar does.

## Main definitions

* `Quoted`, `StringSpelled`, `CommentSpelled`, `CodeSpelled` — what a string, a comment and a
  character of code are.
* `Lexed`, `InLexeme` — a text begins with whole lexemes, and an offset inside a lexeme of a kind.

## Main results

* `exists_inLexeme` — every byte of a text is in a lexeme.
* `StringSpelled.skipString` — `skip_string` ends a string where the grammar does.
* `inComment_iff_inLexeme` — the comments that are blanked out are those of the grammar.
* `stripComments_positions` — **`strip_comments` preserves positions.**
-/

namespace RocketSocket

namespace Codegen

open Machine Utf8

/-! ### The grammar -/

/-- The apostrophe, the quotation mark and the backtick. -/
def quoteChars : List Char := ([39, 34, 96] : List ℕ).map Char.ofNat

/-- What may stand between two quotes: other characters, and pairs of a backslash and any
character. -/
inductive Quoted (quote : Char) : List Char → Prop
  | nil : Quoted quote []
  | plain {c : Char} {t : List Char} : c ≠ quote → c ≠ '\\' → Quoted quote t → Quoted quote (c :: t)
  | escape {c : Char} {t : List Char} : Quoted quote t → Quoted quote ('\\' :: c :: t)

/-- The first text is a string, if the second follows: up to its quote, or to the end of the text,
where a backslash may be the last character. -/
inductive StringSpelled : List Char → List Char → Prop
  | closed {quote : Char} {body back : List Char} : quote ∈ quoteChars → Quoted quote body →
      StringSpelled (quote :: (body ++ [quote])) back
  | unclosed {quote : Char} {body : List Char} : quote ∈ quoteChars → Quoted quote body →
      StringSpelled (quote :: body) []
  | cutOff {quote : Char} {body : List Char} : quote ∈ quoteChars → Quoted quote body →
      StringSpelled (quote :: (body ++ ['\\'])) []

/-- The first text is a comment, if the second follows: up to the end of its line, to the first
`*/`, or to the end of the text. -/
inductive CommentSpelled : List Char → List Char → Prop
  | line {body back : List Char} : '\n' ∉ body → (∀ c, back.head? = some c → c = '\n') →
      CommentSpelled ('/' :: '/' :: body) back
  | block {body back : List Char} : ¬ ['*', '/'] <:+: body →
      CommentSpelled ('/' :: '*' :: (body ++ ['*', '/'])) back
  | unclosed {body : List Char} : ¬ ['*', '/'] <:+: body → CommentSpelled ('/' :: '*' :: body) []

/-- The first text is a character that begins no string and no comment, if the second follows. -/
inductive CodeSpelled : List Char → List Char → Prop
  | char {c : Char} {back : List Char} : c ∉ quoteChars →
      (c = '/' → back.head? ≠ some '/' ∧ back.head? ≠ some '*') → CodeSpelled [c] back

/-- The first text is one lexeme of the kind, if the second follows. -/
def Lexeme.Spells : Lexeme → List Char → List Char → Prop
  | .code => CodeSpelled
  | .string => StringSpelled
  | .comment => CommentSpelled

/-- The first text is a sequence of whole lexemes, if the second follows. -/
inductive Lexed : List Char → List Char → Prop
  | nil {back : List Char} : Lexed [] back
  | snoc {front lexeme back : List Char} {kind : Lexeme} : Lexed front (lexeme ++ back) →
      kind.Spells lexeme back → Lexed (front ++ lexeme) back

/-- The byte at this offset is one of a lexeme of the kind. -/
def InLexeme (kind : Lexeme) (chars : List Char) (k : ℕ) : Prop :=
  ∃ front lexeme back, chars = front ++ lexeme ++ back ∧ Lexed front (lexeme ++ back) ∧
    kind.Spells lexeme back ∧ (encode front).length ≤ k ∧ k < (encode (front ++ lexeme)).length

/-! ### Every text is one of lexemes -/

section Total

variable {quote : Char} {chars front back : List Char} {k : ℕ}

/-- A string goes on up to its quote, a last backslash, or the end of the text. -/
theorem exists_quoted (quote : Char) : ∀ t : List Char, ∃ body rest, t = body ++ rest ∧
    Quoted quote body ∧ (rest = [] ∨ rest = ['\\'] ∨ ∃ rest', rest = quote :: rest')
  | [] => ⟨[], [], rfl, .nil, .inl rfl⟩
  | c :: t => by
    by_cases hquote : c = quote
    · exact ⟨[], c :: t, rfl, .nil, .inr (.inr ⟨t, by rw [hquote]⟩)⟩
    · by_cases hescape : c = '\\'
      · subst hescape
        cases t with
        | nil => exact ⟨[], ['\\'], rfl, .nil, .inr (.inl rfl)⟩
        | cons c' t =>
          obtain ⟨body, rest, rfl, hbody, hrest⟩ := exists_quoted quote t
          exact ⟨'\\' :: c' :: body, rest, rfl, .escape hbody, hrest⟩
      · obtain ⟨body, rest, rfl, hbody, hrest⟩ := exists_quoted quote t
        exact ⟨c :: body, rest, rfl, .plain hquote hescape hbody, hrest⟩

theorem exists_string (hquote : quote ∈ quoteChars) (t : List Char) :
    ∃ lexeme back, quote :: t = lexeme ++ back ∧ StringSpelled lexeme back := by
  obtain ⟨body, rest, rfl, hbody, rfl | rfl | ⟨back, rfl⟩⟩ := exists_quoted quote t
  · exact ⟨quote :: body, [], by simp, .unclosed hquote hbody⟩
  · exact ⟨quote :: (body ++ ['\\']), [], by simp, .cutOff hquote hbody⟩
  · exact ⟨quote :: (body ++ [quote]), back, by simp, .closed hquote hbody⟩

theorem exists_line (t : List Char) : ∃ lexeme back, '/' :: '/' :: t = lexeme ++ back ∧
    CommentSpelled lexeme back := by
  refine ⟨'/' :: '/' :: t.takeWhile (· ≠ '\n'), t.dropWhile (· ≠ '\n'), ?_, .line ?_ ?_⟩
  · rw [List.cons_append, List.cons_append, List.takeWhile_append_dropWhile]
  · intro hmem
    simpa using List.mem_takeWhile_imp hmem
  · intro c hc
    have hnot := List.head?_dropWhile_not (fun c => decide (c ≠ '\n')) t
    rw [hc] at hnot
    simpa using hnot

/-- A block comment ends at its first `*/`, or goes on to the end. -/
theorem exists_block (t : List Char) : ∃ lexeme back, '/' :: '*' :: t = lexeme ++ back ∧
    CommentSpelled lexeme back := by
  by_cases hclosed : ['*', '/'] <:+: t
  · obtain ⟨n, hfirst⟩ := exists_first.mpr hclosed
    obtain ⟨back, hback⟩ := hfirst.here
    refine ⟨'/' :: '*' :: (t.take n ++ ['*', '/']), back, ?_, .block fun hinside => ?_⟩
    · rw [List.cons_append, List.cons_append, List.append_assoc, hback, List.take_append_drop]
    · obtain ⟨m, hm⟩ := exists_first.mpr hinside
      have hlen := hm.here.length_le
      rw [List.length_drop, List.length_take] at hlen
      simp only [List.length_cons, List.length_nil] at hlen
      refine hfirst.least m (by omega) (hm.here.trans ?_)
      rw [List.drop_take]
      exact List.take_prefix _ _
  · exact ⟨'/' :: '*' :: t, [], by simp, .unclosed hclosed⟩

/-- A text without quotes and slashes is code. -/
theorem lexed_code (h : ∀ c ∈ front, c ∉ quoteChars ∧ c ≠ '/') : Lexed front back := by
  induction front using List.reverseRecOn generalizing back with
  | nil => exact .nil
  | append_singleton front c ih =>
    obtain ⟨hquote, hslash⟩ := h c (List.mem_append_right front (List.mem_singleton_self c))
    have hcode : Lexeme.code.Spells [c] back := .char hquote fun heq => absurd heq hslash
    exact .snoc (ih fun c hc => h c (List.mem_append_left _ hc)) hcode

/-- **Every text begins with a lexeme**, if it is not empty. -/
theorem exists_spells (c : Char) (t : List Char) :
    ∃ kind lexeme back, c :: t = lexeme ++ back ∧ Lexeme.Spells kind lexeme back := by
  by_cases hquote : c ∈ quoteChars
  · exact ⟨.string, exists_string hquote t⟩
  · by_cases hslash : c = '/' ∧ (t.head? = some '/' ∨ t.head? = some '*')
    · obtain ⟨rfl, hnext | hnext⟩ := hslash
      · obtain ⟨t, rfl⟩ := List.head?_eq_some_iff.mp hnext
        exact ⟨.comment, exists_line t⟩
      · obtain ⟨t, rfl⟩ := List.head?_eq_some_iff.mp hnext
        exact ⟨.comment, exists_block t⟩
    · refine ⟨.code, [c], t, rfl, .char hquote fun hc => ?_⟩
      exact ⟨fun hnext => hslash ⟨hc, .inl hnext⟩, fun hnext => hslash ⟨hc, .inr hnext⟩⟩

theorem Lexeme.Spells.ne_nil {kind : Lexeme} {lexeme : List Char}
    (h : kind.Spells lexeme back) : lexeme ≠ [] := by
  cases kind with
  | code =>
    cases h
    exact List.cons_ne_nil _ _
  | string => cases h <;> exact List.cons_ne_nil _ _
  | comment => cases h <;> exact List.cons_ne_nil _ _

/-- From the end of a lexeme on, -/
theorem exists_inLexeme_behind (n : ℕ) (hn : back.length ≤ n) (h : Lexed front back)
    (hk : (encode front).length ≤ k) (hk' : k < (encode (front ++ back)).length) :
    ∃ kind, InLexeme kind (front ++ back) k := by
  induction n generalizing front back with
  | zero =>
    obtain rfl := List.length_eq_zero_iff.mp (Nat.le_zero.mp hn)
    rw [List.append_nil] at hk'
    omega
  | succ n ih =>
    cases back with
    | nil =>
      rw [List.append_nil] at hk'
      omega
    | cons c t =>
      obtain ⟨kind, lexeme, back, heq, hspells⟩ := exists_spells c t
      rw [heq] at hn h hk' ⊢
      rw [← List.append_assoc] at hk' ⊢
      rcases Nat.lt_or_ge k (encode (front ++ lexeme)).length with hlt | hge
      · exact ⟨kind, front, lexeme, back, rfl, h, hspells, hk, hlt⟩
      · have hpos := List.length_pos_iff.mpr hspells.ne_nil
        rw [List.length_append] at hn
        exact ih (by omega) (h.snoc hspells) hge hk'

/-- **every byte of a text is one of a lexeme.** -/
theorem exists_inLexeme (hk : k < (encode chars).length) : ∃ kind, InLexeme kind chars k :=
  exists_inLexeme_behind chars.length le_rfl .nil (Nat.zero_le k) hk

end Total

/-! ### Where the scanners get to -/

section Scanners

variable {src t : Text} {chars lexeme front back body : List Char} {quote c : Char}
  {q b : UInt8} {i j k : ℕ} {kind : Lexeme}

theorem length_of_drop (h : src.drop i = t) (hi : i ≤ src.length) : src.length = i + t.length := by
  rw [← h, List.length_drop]
  omega

theorem drop_encode (front lexeme back : List Char) :
    (encode (front ++ lexeme ++ back)).drop (encode front).length = encode (lexeme ++ back) := by
  rw [List.append_assoc, encode_append, List.drop_left]

/-- A quote is one byte. -/
theorem exists_quote (h : quote ∈ quoteChars) :
    ∃ q, String.utf8EncodeChar quote = [q] ∧ isQuote q = true ∧ quote ≠ '\\' := by
  simp only [quoteChars, List.map_cons, List.map_nil, List.mem_cons, List.not_mem_nil,
    or_false] at h
  rcases h with rfl | rfl | rfl
  · exact ⟨39, by decide, rfl, by decide⟩
  · exact ⟨34, by decide, rfl, by decide⟩
  · exact ⟨96, by decide, rfl, by decide⟩

/-- A byte that is a quote is one of a quote. -/
theorem not_isQuote (h : c ∉ quoteChars) (hb : b ∈ String.utf8EncodeChar c) :
    isQuote b = false := by
  have hmem : b ∈ encode [c] := by rwa [encode, List.flatMap_singleton]
  rw [← Bool.not_eq_true]
  intro hquote
  refine h ?_
  rcases isQuote_cases hquote with rfl | rfl | rfl
  · rw [← List.mem_singleton.mp ((mem_encode_ascii (c := Char.ofNat 39) (by decide)
      (by decide)).mp hmem)]
    decide
  · rw [← List.mem_singleton.mp ((mem_encode_ascii (c := Char.ofNat 34) (by decide)
      (by decide)).mp hmem)]
    decide
  · rw [← List.mem_singleton.mp ((mem_encode_ascii (c := Char.ofNat 96) (by decide)
      (by decide)).mp hmem)]
    decide

/-- The boundary after the first byte of a character is the end of the character. -/
theorem nextBoundary_char (h : src.drop i = encode (c :: chars)) :
    nextBoundary src i = i + (String.utf8EncodeChar c).length := by
  rw [encode_cons] at h
  have hcont := takeWhile_isContinuation_encode chars
  have hlen (b : UInt8) (t : Text) (hb : src.drop i = b :: t) :
      nextBoundary src i = i + 1 + (t.takeWhile isContinuation).length := by
    have hlt := lt_length_of_getElem (getElem_of_drop hb)
    have hrest : src.drop (i + 1) = t := drop_add (t := [b]) hb
    rw [nextBoundary, if_neg (not_le.mpr hlt), hrest]
  rcases encodeChar_cases c with ⟨b, -, hc⟩ | ⟨b, rest, -, -, hrest, hc⟩
  · rw [hc] at h ⊢
    rw [hlen b (encode chars) h, hcont]
    rfl
  · rw [hc] at h ⊢
    rw [hlen b (rest ++ encode chars) h, List.takeWhile_append_of_pos hrest, hcont,
      List.append_nil, List.length_cons]
    omega

/-- The inside of a string is walked through. -/
theorem Quoted.skipLoop (h : Quoted quote body) (hq : String.utf8EncodeChar quote = [q])
    (hascii : q < 128) (hsrc : src.drop i = encode (body ++ chars)) :
    ∃ m ≤ (encode body).length, ∀ n, Codegen.skipLoop src q (m + n) i =
      Codegen.skipLoop src q n (i + (encode body).length) := by
  induction h generalizing i with
  | nil => exact ⟨0, Nat.zero_le _, fun n => by rw [Nat.zero_add]; rfl⟩
  | @plain c t hquote hescape _ ih =>
    rw [List.cons_append, encode_cons] at hsrc
    obtain ⟨m, hm, hskip⟩ := ih (drop_add hsrc)
    have hplain : ∀ b ∈ String.utf8EncodeChar c, b ≠ backslash ∧ b ≠ q := by
      intro b hb
      have hmem : b ∈ encode [c] := by rwa [encode, List.flatMap_singleton]
      constructor
      · rintro rfl
        exact hescape (List.mem_singleton.mp
          ((mem_encode_ascii (c := '\\') (by decide) (by decide)).mp hmem)).symm
      · rintro rfl
        exact hquote (List.mem_singleton.mp ((mem_encode_ascii hq hascii).mp hmem)).symm
    refine ⟨(String.utf8EncodeChar c).length + m, ?_, fun n => ?_⟩
    · rw [encode_cons, List.length_append]
      omega
    · rw [Nat.add_assoc, skipLoop_bytes hsrc hplain, hskip, encode_cons, List.length_append,
        Nat.add_assoc]
  | @escape c t _ ih =>
    have hbackslash : String.utf8EncodeChar '\\' = [backslash] := by decide
    rw [List.cons_append, List.cons_append, encode_cons, hbackslash] at hsrc
    have hnext : src.drop (i + 1) = encode (c :: (t ++ chars)) := drop_add hsrc
    have hbound := nextBoundary_char hnext
    rw [encode_cons] at hnext
    -- The pair is one step.
    obtain ⟨m, hm, hskip⟩ := ih (drop_add hnext)
    refine ⟨m + 1, ?_, fun n => ?_⟩
    · simp only [encode_cons, List.length_append, hbackslash, List.length_singleton]
      omega
    · rw [Nat.add_right_comm, Codegen.skipLoop, getElem_of_drop hsrc]
      dsimp only
      rw [if_pos rfl, hbound, hskip]
      simp only [encode_cons, List.length_append, hbackslash, List.length_singleton]
      congr 1
      omega

/-- The scanner gets to the end of the inside. -/
theorem Quoted.after (h : Quoted quote body) (hq : String.utf8EncodeChar quote = [q])
    (hisQuote : isQuote q = true) (hsrc : src.drop i = encode (quote :: (body ++ chars))) :
    src[i]? = some q ∧ src.drop (i + 1 + (encode body).length) = encode chars ∧
      ∃ n, Codegen.after src i q =
        Codegen.skipLoop src q (n + 1) (i + 1 + (encode body).length) := by
  rw [encode_cons, hq, List.singleton_append] at hsrc
  have hget := getElem_of_drop hsrc
  have hnext : src.drop (i + 1) = encode (body ++ chars) := drop_add (t := [q]) hsrc
  have hlen := length_of_drop hsrc (lt_length_of_getElem hget).le
  obtain ⟨m, hm, hskip⟩ := h.skipLoop hq (isQuote_lt hisQuote) hnext
  rw [encode_append] at hnext hlen
  rw [List.length_cons, List.length_append] at hlen
  obtain ⟨n, hn⟩ : ∃ n, src.length = m + (n + 1) := ⟨src.length - m - 1, by omega⟩
  exact ⟨hget, drop_add hnext, n, by rw [Codegen.after, if_pos hisQuote, hn, hskip]⟩

/-- **A string ends where the grammar says.** -/
theorem StringSpelled.after (h : StringSpelled lexeme back)
    (hsrc : src.drop i = encode (lexeme ++ back)) :
    ∃ q, src[i]? = some q ∧ isQuote q = true ∧
      Codegen.after src i q = i + (encode lexeme).length := by
  cases h with
  | @closed quote body back hquote hbody =>
    obtain ⟨q, hq, hisQuote, -⟩ := exists_quote hquote
    rw [List.cons_append, List.append_assoc] at hsrc
    obtain ⟨hget, hend, n, hafter⟩ := hbody.after hq hisQuote hsrc
    refine ⟨q, hget, hisQuote, ?_⟩
    have hne : q ≠ backslash := by
      rcases isQuote_cases hisQuote with rfl | rfl | rfl <;> decide
    rw [List.singleton_append, encode_cons, hq, List.singleton_append] at hend
    rw [hafter, Codegen.skipLoop, getElem_of_drop hend]
    dsimp only
    rw [if_neg hne, if_pos rfl, encode_cons, encode_append, encode_cons, hq]
    simp only [List.length_append, List.length_singleton, List.length_nil, encode, List.flatMap_nil]
    omega
  | @unclosed quote body hquote hbody =>
    obtain ⟨q, hq, hisQuote, -⟩ := exists_quote hquote
    rw [List.cons_append] at hsrc
    obtain ⟨hget, hend, n, hafter⟩ := hbody.after hq hisQuote hsrc
    refine ⟨q, hget, hisQuote, ?_⟩
    have hnone : src[i + 1 + (encode body).length]? = none := by
      rw [← List.head?_drop, hend]
      rfl
    rw [hafter, Codegen.skipLoop, hnone, encode_cons, hq, List.length_append, List.length_singleton]
    exact Nat.add_assoc i 1 _
  | @cutOff quote body hquote hbody =>
    obtain ⟨q, hq, hisQuote, -⟩ := exists_quote hquote
    have hbackslash : encode ['\\'] = [backslash] := by decide
    rw [List.append_nil] at hsrc
    obtain ⟨hget, hend, n, hafter⟩ := hbody.after hq hisQuote hsrc
    refine ⟨q, hget, hisQuote, ?_⟩
    rw [hbackslash] at hend
    have hlast := getElem_of_drop hend
    have hlen := length_of_drop hend (lt_length_of_getElem hlast).le
    rw [List.length_singleton] at hlen
    -- The backslash is the last byte, and escapes nothing.
    have hbound : nextBoundary src (i + 1 + (encode body).length + 1) = src.length := by
      rw [nextBoundary, if_pos hlen.le]
    have hstop : Codegen.skipLoop src q n src.length = src.length := by
      cases n with
      | zero => rfl
      | succ n => rw [Codegen.skipLoop, List.getElem?_eq_none le_rfl]
    rw [hafter, Codegen.skipLoop, hlast]
    dsimp only
    rw [if_pos rfl, hbound, hstop, hlen, encode_cons, encode_append, hq, hbackslash]
    simp only [List.length_append, List.length_singleton]
    omega

/-- **`skip_string` ends a string where the grammar does.** -/
theorem StringSpelled.skipString (h : StringSpelled lexeme back) :
    Codegen.skipString (encode (front ++ lexeme ++ back)) (encode front).length =
      .ok (encode (front ++ lexeme)).length := by
  have hsrc := drop_encode front lexeme back
  obtain ⟨q, hget, hisQuote, hafter⟩ := h.after hsrc
  rw [skipString_eq hget hisQuote, hafter, encode_append front, List.length_append]

/-- The newline and the marks of a comment are one byte each. -/
theorem encode_slash (t : List Char) : encode ('/' :: t) = slash :: encode t := by
  rw [encode_cons, show String.utf8EncodeChar '/' = [slash] by decide]
  rfl

theorem encode_star (t : List Char) : encode ('*' :: t) = star :: encode t := by
  rw [encode_cons, show String.utf8EncodeChar '*' = [star] by decide]
  rfl

theorem newline_mem_encode : newline ∈ encode chars ↔ '\n' ∈ chars :=
  mem_encode_ascii (by decide) (by decide)

/-- A mark `*/` among the bytes is one among the characters. -/
theorem isInfix_of_encode (h : [star, slash] <:+: encode chars) : ['*', '/'] <:+: chars := by
  obtain ⟨a, t, heq⟩ := h
  rw [List.append_assoc] at heq
  obtain ⟨front, back, rfl, -, hback⟩ := exists_encode_ascii (c := '*') heq.symm (by decide)
    (by decide)
  obtain ⟨front', back', rfl, hfront', -⟩ := exists_encode_ascii (a := []) (c := '/') hback.symm
    (by decide) (by decide)
  obtain rfl := encode_eq_nil hfront'.symm
  exact ⟨front, back', by simp⟩

/-- The first `*/` behind a text that has none is the one that is put there. -/
theorem first_mark (h : ¬ ['*', '/'] <:+: body) :
    First [star, slash] (encode body ++ star :: slash :: t) (encode body).length := by
  refine ⟨?_, fun k hk hpart => ?_⟩
  · rw [List.drop_left]
    exact ⟨t, rfl⟩
  · rw [List.drop_append_of_le_length hk.le] at hpart
    obtain ⟨u, hu⟩ := hpart
    rcases hrest : (encode body).drop k with _ | ⟨x, _ | ⟨y, rest⟩⟩
    · exact absurd (List.drop_eq_nil_iff.mp hrest) (not_le.mpr hk)
    · -- Otherwise its slash would be a star.
      rw [hrest] at hu
      cases hu
    · rw [hrest] at hu
      cases hu
      exact h (isInfix_of_encode (isInfix_of_prefix_drop ⟨rest, hrest.symm⟩))

theorem lexemeAt_line (h : src.drop i = slash :: slash :: t) :
    lexemeAt src i = some (.comment, lineEnd src i) := by
  have hnext : src[i + 1]? = some slash := getElem_of_drop (drop_add (t := [slash]) h)
  rw [lexemeAt, getElem_of_drop h, Option.map_some, if_neg (by decide), if_pos ⟨rfl, hnext⟩]

theorem lexemeAt_block (h : src.drop i = slash :: star :: t) : lexemeAt src i =
    some (.comment, ((find [star, slash] t).map fun p => i + 2 + p + 2).getD src.length) := by
  have hnext : src[i + 1]? = some star := getElem_of_drop (drop_add (t := [slash]) h)
  have hinside : src.drop (i + 2) = t := drop_add (t := [slash, star]) h
  have hline : ¬ (slash = slash ∧ src[i + 1]? = some slash) := by
    rw [hnext]
    decide
  rw [lexemeAt, getElem_of_drop h, Option.map_some, if_neg (by decide), if_neg hline,
    if_pos ⟨rfl, hnext⟩, blockEnd, hinside]

/-- **A comment ends where the grammar says.** -/
theorem CommentSpelled.lexemeAt (h : CommentSpelled lexeme back)
    (hsrc : src.drop i = encode (lexeme ++ back)) :
    Codegen.lexemeAt src i = some (.comment, i + (encode lexeme).length) := by
  cases h with
  | @line body back hbody hback =>
    have hline : newline ∉ encode ('/' :: '/' :: body) := by
      rw [newline_mem_encode]
      simpa using hbody
    -- Behind a line comment comes a newline, or nothing.
    have hrest : ∀ b, (encode back).head? = some b → b = newline := by
      intro b hb
      cases back with
      | nil => cases hb
      | cons c back =>
        obtain rfl := hback c rfl
        rw [encode_cons, show String.utf8EncodeChar '\n' = [newline] by decide] at hb
        exact (Option.some.inj hb).symm
    have hend : lineEnd src i = i + (encode ('/' :: '/' :: body)).length := by
      rw [encode_append] at hsrc
      exact lineEnd_eq hsrc (fun b hb heq => hline (heq ▸ hb)) hrest
    rw [List.cons_append, List.cons_append, encode_slash, encode_slash] at hsrc
    rw [lexemeAt_line hsrc, hend]
  | @block body back hbody =>
    -- The mark that closes the comment is the first one behind its opening.
    have hinside : encode (body ++ ['*', '/'] ++ back) =
        encode body ++ star :: slash :: encode back := by
      rw [List.append_assoc, encode_append, List.cons_append, List.singleton_append, encode_star,
        encode_slash]
    rw [List.cons_append, List.cons_append, encode_slash, encode_star, hinside] at hsrc
    have hmark : encode ['*', '/'] = [star, slash] := by decide
    rw [lexemeAt_block hsrc, find_iff.mpr (first_mark hbody), Option.map_some, Option.getD_some,
      encode_slash, encode_star, encode_append, hmark]
    simp only [List.length_cons, List.length_append, List.length_nil]
    congr 2
    omega
  | @unclosed body hbody =>
    -- No mark is in the text, so the comment goes to its end.
    have hnone : find [star, slash] (encode body) = none := by
      cases hfind : find [star, slash] (encode body) with
      | none => rfl
      | some p => exact absurd (isInfix_of_encode (exists_first.mp ⟨p, find_iff.mp hfind⟩)) hbody
    rw [List.append_nil, encode_slash, encode_star] at hsrc
    rw [lexemeAt_block hsrc, hnone, encode_slash, encode_star,
      length_of_drop hsrc (lt_length_of_getElem (getElem_of_drop hsrc)).le]
    rfl

/-- A byte from 128 up is code. -/
theorem lexemeAt_high (hb : src[k]? = some b) (h : ¬ b < 128) :
    lexemeAt src k = some (.code, k + 1) := by
  have hquote : ¬ isQuote b = true := fun hquote => h (isQuote_lt hquote)
  have hslash : b ≠ slash := by
    rintro rfl
    exact h (by decide)
  rw [lexemeAt, hb, Option.map_some, if_neg hquote, if_neg fun h => hslash h.1,
    if_neg fun h => hslash h.1]

/-- **The bytes of a character of code are code.** -/
theorem CodeSpelled.lexemeAt (h : CodeSpelled lexeme back)
    (hsrc : src.drop i = encode (lexeme ++ back)) (hk : i ≤ k)
    (hk' : k < i + (encode lexeme).length) :
    Codegen.lexemeAt src k = some (.code, k + 1) := by
  cases h with
  | @char c back hquote hslash =>
    rw [List.singleton_append, encode_cons] at hsrc
    rw [encode, List.flatMap_singleton] at hk'
    rcases encodeChar_cases c with ⟨b, -, hc⟩ | ⟨b, rest, hb, -, hrest, hc⟩
    · rw [hc, List.length_singleton] at hk'
      obtain rfl : k = i := by omega
      have hplain := not_isQuote hquote (hc ▸ List.mem_singleton_self b)
      rw [hc] at hsrc
      have hback : src.drop (k + 1) = encode back := drop_add hsrc
      have hcode (mark : Char) {m : UInt8} (hmark : String.utf8EncodeChar mark = [m])
          (hm : m < 128) (hnext : c = '/' → back.head? ≠ some mark) :
          ¬ (b = slash ∧ src[k + 1]? = some m) := by
        rintro ⟨rfl, hget⟩
        have hchar : [c] = ['/'] := by
          refine encode_injective ?_
          rw [encode, List.flatMap_singleton, hc]
          decide
        rw [← List.head?_drop, hback] at hget
        exact hnext (List.singleton_inj.mp hchar) ((head_encode_ascii hmark hm).mp hget)
      rw [Codegen.lexemeAt, getElem_of_drop hsrc, Option.map_some,
        if_neg (Bool.eq_false_iff.mp hplain),
        if_neg (hcode '/' (by decide) (by decide) fun h => (hslash h).1),
        if_neg (hcode '*' (by decide) (by decide) fun h => (hslash h).2)]
    · -- All the bytes are from 128 up.
      obtain ⟨j, rfl⟩ := Nat.exists_eq_add_of_le hk
      have hj : j < (String.utf8EncodeChar c).length := by omega
      have hget : src[i + j]? = some (String.utf8EncodeChar c)[j] := by
        rw [← List.getElem?_drop, hsrc, List.getElem?_append_left hj, List.getElem?_eq_getElem hj]
      refine lexemeAt_high hget (UInt8.not_lt.mpr ?_)
      have hall : ∀ b' ∈ String.utf8EncodeChar c, 128 ≤ b' := by
        rw [hc]
        exact List.forall_mem_cons.mpr ⟨hb, fun b' hb' => (isContinuation_iff.mp (hrest b' hb')).1⟩
      exact hall _ (List.getElem_mem hj)

/-! ### Lexemes -/

/-- A lexeme is walked through, -/
theorem Lexeme.Spells.lexes (h : kind.Spells lexeme back)
    (hsrc : src.drop i = encode (lexeme ++ back)) (hk : i ≤ k)
    (hk' : k < i + (encode lexeme).length) :
    ∃ start stop, Lexes src i start ∧ Codegen.lexemeAt src start = some (kind, stop) ∧
      start ≤ k ∧ k < stop ∧ stop ≤ i + (encode lexeme).length := by
  cases kind with
  | code =>
    have hbyte (n : ℕ) (hn : i ≤ n) (hn' : n ≤ k) :
        Codegen.lexemeAt src n = some (.code, n + 1) :=
      CodeSpelled.lexemeAt h hsrc hn (hn'.trans_lt hk')
    have hwalk (n : ℕ) (hn : i + n ≤ k) : Lexes src i (i + n) := by
      induction n with
      | zero => exact Relation.ReflTransGen.refl
      | succ n ih => exact (ih (by omega)).tail ⟨.code, hbyte _ (by omega) (by omega)⟩
    have hlexes := hwalk (k - i) (by omega)
    rw [Nat.add_sub_cancel' hk] at hlexes
    exact ⟨k, k + 1, hlexes, hbyte k hk le_rfl, le_rfl, Nat.lt_succ_self k, hk'⟩
  | string =>
    obtain ⟨q, hget, hisQuote, hafter⟩ := StringSpelled.after h hsrc
    refine ⟨i, i + (encode lexeme).length, Relation.ReflTransGen.refl, ?_, hk, hk', le_rfl⟩
    rw [Codegen.lexemeAt, hget, Option.map_some, if_pos hisQuote, hafter]
  | comment =>
    exact ⟨i, i + (encode lexeme).length, Relation.ReflTransGen.refl,
      CommentSpelled.lexemeAt h hsrc, hk, hk', le_rfl⟩

/-- and the walk leads to its end. -/
theorem Lexeme.Spells.lexes_end (h : kind.Spells lexeme back)
    (hsrc : src.drop i = encode (lexeme ++ back)) :
    Lexes src i (i + (encode lexeme).length) := by
  have hpos : 0 < (encode lexeme).length :=
    List.length_pos_iff.mpr fun heq => h.ne_nil (encode_eq_nil heq)
  obtain ⟨start, stop, hlexes, hl, hle, hlt, hstop⟩ :=
    h.lexes (k := i + (encode lexeme).length - 1) hsrc (by omega) (by omega)
  obtain rfl : stop = i + (encode lexeme).length := by omega
  exact hlexes.tail ⟨kind, hl⟩

/-- Whole lexemes are walked through. -/
theorem Lexed.lexes (h : Lexed front back) :
    Lexes (encode (front ++ back)) 0 (encode front).length := by
  induction h with
  | nil => exact Relation.ReflTransGen.refl
  | @snoc front lexeme back kind _ hspells ih =>
    rw [← List.append_assoc] at ih
    have hsrc := drop_encode front lexeme back
    have hend := ih.trans (hspells.lexes_end hsrc)
    rwa [← List.length_append, ← encode_append] at hend

/-- A comment of the grammar is a lexeme that the scanners find. -/
theorem CommentSpelled.commentAt (h : CommentSpelled lexeme back)
    (hlexed : Lexed front (lexeme ++ back)) :
    CommentAt (encode (front ++ lexeme ++ back)) (encode front).length
      (encode (front ++ lexeme)).length := by
  have hstart := hlexed.lexes
  have hl := h.lexemeAt (drop_encode front lexeme back)
  rw [← List.append_assoc] at hstart
  rw [← List.length_append, ← encode_append] at hl
  exact ⟨hstart, hl⟩

theorem InLexeme.lt_length (h : InLexeme kind chars k) : k < (encode chars).length := by
  obtain ⟨front, lexeme, back, rfl, -, -, -, hk⟩ := h
  rw [encode_append, List.length_append]
  exact hk.trans_le (Nat.le_add_right _ _)

/-- What is within a lexeme of the grammar is within one that the scanners find. -/
theorem InLexeme.inComment_iff (h : InLexeme kind chars k) :
    InComment (encode chars) k ↔ kind = .comment := by
  obtain ⟨front, lexeme, back, rfl, hlexed, hspells, hk, hk'⟩ := h
  have hsrc := drop_encode front lexeme back
  rw [encode_append, List.length_append] at hk'
  obtain ⟨start, stop, hlexes, hl, hle, hlt, -⟩ := hspells.lexes hsrc hk hk'
  have hstart := hlexed.lexes
  rw [← List.append_assoc] at hstart
  exact Codegen.inComment_iff (hstart.trans hlexes) hl hle hlt

/-- **The comments that are blanked out are those of the grammar.** -/
theorem inComment_iff_inLexeme (hk : k < (encode chars).length) :
    InComment (encode chars) k ↔ InLexeme .comment chars k := by
  obtain ⟨kind, hinside⟩ := exists_inLexeme hk
  constructor
  · intro hin
    obtain rfl := hinside.inComment_iff.mp hin
    exact hinside
  · intro hin
    exact hin.inComment_iff.mpr rfl

/-- The index after a string: a boundary after its first byte, and not after the text. -/
theorem skipString_bound (haligned : Aligned src) (hb : src[i]? = some b) (hascii : b < 128) :
    ∃ j, skipString src i = .ok j ∧ i < j ∧ Bound src j := by
  have hlt := lt_length_of_getElem hb
  obtain ⟨hle, hend⟩ := @skipLoop_spec src b src.length (i + 1) hlt (by omega)
  refine ⟨skipLoop src b src.length (i + 1), ?_, hle, ?_⟩
  · rw [skipString, byteAt, hb]
    rfl
  · rcases hend with heq | ⟨k, hk, -, hquote⟩
    · rw [heq]
      exact Bound.length
    · rw [hk]
      exact Bound.after_ascii haligned hquote hascii

end Scanners

/-- **`strip_comments` preserves positions.**  The text it returns is one of the same length, with
every byte where it was: those outside comments, those of strings, newlines and the bytes from 128
up are the same, the others are spaces; and it returns that text as it is.  A string is skipped to
a boundary after its first byte, and to where the grammar ends it. -/
theorem stripComments_positions (s : String) :
    (∃ s', stripComments (text s) = .ok (text s') ∧ (text s').length = (text s).length ∧
      (∀ k b, (text s)[k]? = some b → ¬ InLexeme .comment s.toList k ∨ b = newline ∨ ¬ b < 128 →
        (text s')[k]? = some b) ∧
      (∀ k, InLexeme .string s.toList k → (text s')[k]? = (text s)[k]?) ∧
      (∀ k b, (text s)[k]? = some b → InLexeme .comment s.toList k → b ≠ newline → b < 128 →
        (text s')[k]? = some 32) ∧
      stripComments (text s') = .ok (text s')) ∧
    (∀ start b, (text s)[start]? = some b → b < 128 →
      ∃ stop, skipString (text s) start = .ok stop ∧ start < stop ∧ stop ≤ (text s).length ∧
        isBoundary (text s) stop = true) ∧
    ∀ front lexeme back, s.toList = front ++ lexeme ++ back → StringSpelled lexeme back →
      skipString (text s) (encode front).length = .ok (encode (front ++ lexeme)).length := by
  refine ⟨?_, fun start b hb hascii => ?_, fun front lexeme back heq hstring => ?_⟩
  · obtain ⟨chars', hout, hrecast, hblanked⟩ := stripComments_blanked s.toList
    have htext : text (String.ofList chars') = encode chars' := by
      rw [text, String.toList_ofList]
    refine ⟨String.ofList chars', by rw [htext]; exact hout, by rw [htext]; exact hrecast.length_eq,
      ?_, ?_, ?_, by rw [htext]; exact stripComments_idem hrecast hblanked⟩
    · rw [htext]
      intro k b hb hkept
      have hlt := lt_length_of_getElem hb
      -- A byte of a comment that is kept is a newline or not ASCII.
      by_cases hc : InComment (text s) k
      · have hinside := (inComment_iff_inLexeme hlt).mp hc
        have hsame : blank b = b := if_pos (hkept.resolve_left (not_not.mpr hinside))
        have hk := (hblanked.comment k hlt hc).trans (congrArg (Option.map blank) hb)
        rwa [Option.map_some, hsame] at hk
      · exact (hblanked.copied k hlt hc).trans hb
    · rw [htext]
      -- No byte is in a string and in a comment.
      intro k hk
      refine hblanked.copied k hk.lt_length fun hc => ?_
      cases hk.inComment_iff.mp hc
    · rw [htext]
      intro k b hb hinside hline hascii
      have hlt := lt_length_of_getElem hb
      have hk := (hblanked.comment k hlt ((inComment_iff_inLexeme hlt).mpr hinside)).trans
        (congrArg (Option.map blank) hb)
      have hspace : blank b = 32 := if_neg (by tauto)
      rwa [Option.map_some, hspace] at hk
  · obtain ⟨stop, hskip, hlt, hbound⟩ := skipString_bound (aligned_encode s.toList) hb hascii
    exact ⟨stop, hskip, hlt, hbound.le, hbound.boundary⟩
  · rw [text, heq]
    exact hstring.skipString

end Codegen

end RocketSocket
