import RocketSocket.Codegen.Lexical
import RocketSocket.Codegen.ReadBack

/-!
# Comments and spaces

A comment should mean what spaces in its place mean.  Blanking out leaves the bytes of a comment
from 128 up where they are, for they can be mistaken for no delimiter; but to the parser they
are a name, and a comment that has one may be an element of a tuple or stand in the way of a
stream.

## Main definitions

* `BlankedAt` — one comment of a text is blanked out.
* `spaces`, `Catalog.shape` — spaces in place of a comment, and what is compared.
* `Insignificant` — spaces may stand for the comment wherever it stands.

## Main results

* `stripComments_blankedAt` — blanking out one comment first changes nothing.
* `parseStripped_ne_ok` — a byte from 128 up in front of a stream is an error.
* `insignificant_iff` — **a comment is insignificant** just if all of its bytes are below 128.
-/

namespace RocketSocket

namespace Codegen

open Machine Utf8

/-! ### One comment blanked out -/

/-- One comment of a text is blanked out, and nothing else. -/
structure BlankedAt (src out : Text) (start stop : ℕ) : Prop where
  comment : CommentAt src start stop
  recast : Recast src out
  inside : ∀ k, start ≤ k → k < stop → out[k]? = src[k]?.map blank
  outside : ∀ k, k < start ∨ stop ≤ k → out[k]? = src[k]?

section BlankedAt

variable {src out out' : Text} {i j k start stop : ℕ} {kind : Lexeme} {b : UInt8}

/-- Two texts with all comments blanked out are the same. -/
theorem Blanked.unique (h : Blanked src out src.length) (h' : Blanked src out' src.length) :
    out = out' := by
  refine List.ext_getElem? fun k => ?_
  rcases Nat.lt_or_ge k src.length with hlt | hge
  · by_cases hc : InComment src k
    · rw [h.comment k hlt hc, h'.comment k hlt hc]
    · rw [h.copied k hlt hc, h'.copied k hlt hc]
  · rw [List.getElem?_eq_none (h.length.symm ▸ hge), List.getElem?_eq_none (h'.length.symm ▸ hge)]

namespace BlankedAt

/-- Every byte of the comment is code afterwards, -/
theorem lexemeAt_inside (h : BlankedAt src out start stop) (hk : start ≤ k) (hk' : k < stop) :
    lexemeAt out k = some (.code, k + 1) := by
  have hlen : k < src.length := hk'.trans_le (lexemeAt_lt h.comment.2).2
  refine @lexemeAt_blank out k src[k] ?_
  rw [h.inside k hk hk', List.getElem?_eq_getElem hlen, Option.map_some]

/-- and every other lexeme is as it was. -/
theorem lexemeAt_outside (h : BlankedAt src out start stop) (hi : Lexes src 0 i)
    (hl : lexemeAt src i = some (kind, j)) (hne : i ≠ start) :
    lexemeAt out i = some (kind, j) := by
  have hapart := (hi.disjoint hl h.comment.1 h.comment.2).resolve_left hne
  refine lexemeAt_recast h.recast hl (fun k hk hk' => h.outside k (by omega)) (fun b hb hnext => ?_)
    fun _ hline => ?_
  · by_cases hinside : start ≤ i + 1 ∧ i + 1 < stop
    · rw [h.inside _ hinside.1 hinside.2, Option.map_eq_some_iff] at hnext
      obtain ⟨a, -, rfl⟩ := hnext
      obtain ⟨-, hslash, hstar⟩ := blank_plain a
      rcases hb with heq | heq
      · exact absurd heq hslash
      · exact absurd heq hstar
    · rwa [h.outside _ (by omega)] at hnext
  · by_cases hinside : start ≤ j ∧ j < stop
    · rw [h.inside _ hinside.1 hinside.2, hline]
      rfl
    · rwa [h.outside _ (by omega)]

theorem lexes_inside (h : BlankedAt src out start stop) (n : ℕ) (hn : start + n ≤ stop) :
    Lexes out start (start + n) := by
  induction n with
  | zero => exact Relation.ReflTransGen.refl
  | succ n ih =>
    exact (ih (by omega)).tail ⟨.code, h.lexemeAt_inside (by omega) (by omega)⟩

/-- The lexemes of the text are those that it had. -/
theorem lexes (h : BlankedAt src out start stop) (hi : Lexes src 0 i) : Lexes out 0 i := by
  induction hi with
  | refl => exact Relation.ReflTransGen.refl
  | @tail i j hi hstep ih =>
    obtain ⟨kind, hl⟩ := hstep
    by_cases heq : i = start
    · subst heq
      have hcomment := h.comment.2
      rw [hl] at hcomment
      cases hcomment
      have hlt := (lexemeAt_lt hl).1
      have hwalk := h.lexes_inside (stop - i) (by omega)
      rw [Nat.add_sub_cancel' hlt.le] at hwalk
      exact ih.trans hwalk
    · exact ih.tail ⟨kind, h.lexemeAt_outside hi hl heq⟩

/-- What blanks out the comments of a text blanks out those that are left. -/
theorem blanked (h : BlankedAt src out start stop) (hout : Blanked src out' src.length) :
    Blanked out out' out.length := by
  have hlen := h.recast.length_eq
  have hwhere (k : ℕ) (hk : k < out.length) :
      (InComment out k ∧ out'[k]? = out[k]?.map blank) ∨
        (¬ InComment out k ∧ out'[k]? = out[k]?) := by
    rw [hlen] at hk
    obtain ⟨i, j, kind, hi, hl, hle, hlt⟩ := exists_lexeme hk
    have hout' := h.lexes hi
    have hin := inComment_iff hi hl hle hlt
    by_cases heq : i = start
    · subst heq
      have hcomment := h.comment.2
      rw [hl] at hcomment
      cases hcomment
      -- A byte of the comment.
      have hcode := h.lexemeAt_inside hle hlt
      have hwalk := h.lexes_inside (k - i) (by omega)
      rw [Nat.add_sub_cancel' hle] at hwalk
      refine .inr ⟨fun hc => ?_, ?_⟩
      · cases (inComment_iff (hout'.trans hwalk) hcode le_rfl (Nat.lt_succ_self k)).mp hc
      · rw [hout.comment k hk (hin.mpr rfl), h.inside k hle hlt]
    · have hapart := (hi.disjoint hl h.comment.1 h.comment.2).resolve_left heq
      have hsame := h.outside k (by omega)
      have hin' := inComment_iff hout' (h.lexemeAt_outside hi hl heq) hle hlt
      by_cases hc : InComment src k
      · exact .inl ⟨hin'.mpr (hin.mp hc), by rw [hout.comment k hk hc, hsame]⟩
      · exact .inr ⟨fun hc' => hc (hin.mpr (hin'.mp hc')), by rw [hout.copied k hk hc, hsame]⟩
  refine ⟨hout.length.trans hlen.symm, fun k hk hc => ?_, fun k hk hc => ?_⟩
  · exact ((hwhere k hk).resolve_right fun hnot => hnot.1 hc).2
  · exact ((hwhere k hk).resolve_left fun hyes => hc hyes.1).2

end BlankedAt

/-- **Blanking out one comment first changes nothing.** -/
theorem stripComments_blankedAt {chars chars' : List Char}
    (h : BlankedAt (encode chars) (encode chars') start stop) :
    stripComments (encode chars') = stripComments (encode chars) := by
  obtain ⟨out, hout, -, hblanked⟩ := stripComments_blanked chars
  obtain ⟨out', hout', -, hblanked'⟩ := stripComments_blanked chars'
  rw [hout, hout', hblanked'.unique (h.blanked hblanked)]

theorem blankedAt_append {front comment back : Text}
    (h : CommentAt (front ++ comment ++ back) front.length (front ++ comment).length) :
    BlankedAt (front ++ comment ++ back) (front ++ comment.map blank ++ back) front.length
      (front ++ comment).length := by
  have hlen : (front ++ comment.map blank).length = (front ++ comment).length := by simp
  refine ⟨h, ((Recast.refl front).append (recast_blank comment)).append (Recast.refl back),
    fun k hk hk' => ?_, fun k hk => ?_⟩
  · rw [List.getElem?_append_left (hlen.symm ▸ hk'), List.getElem?_append_left hk',
      List.getElem?_append_right hk, List.getElem?_append_right hk, List.getElem?_map]
  · rcases hk with hk | hk
    · have hk' : k < (front ++ comment).length := by rw [List.length_append]; omega
      rw [List.getElem?_append_left (hlen.symm ▸ hk'), List.getElem?_append_left hk',
        List.getElem?_append_left hk, List.getElem?_append_left hk]
    · rw [List.getElem?_append_right (hlen.symm ▸ hk), List.getElem?_append_right hk, hlen]

end BlankedAt

/-! ### Comments and spaces -/

/-- The spaces that may stand for a comment: as many bytes, with its newlines. -/
def spaces (comment : String) : String :=
  String.ofList ((text comment).map fun b => if b = newline then '\n' else ' ')

/-- The streams of a catalog, with the keys and the arities of their entries. -/
def Catalog.shape (catalog : Catalog) : List (Text × List (KeyPattern × List ℕ × Bool)) :=
  catalog.streams.map fun stream => (stream.name, stream.events.map fun event =>
    (event.key, event.args.arities, event.args.variadic))

/-- The shape of what is read, if anything is. -/
def Reading.shape (reading : Reading Catalog) :
    Option (List (Text × List (KeyPattern × List ℕ × Bool))) :=
  match reading with
  | .ok catalog => some catalog.shape
  | _ => none

/-- Wherever the comment stands, outside of strings, spaces may stand. -/
def Insignificant (comment : String) : Prop :=
  ∀ front back : String, Lexed front.toList (comment.toList ++ back.toList) →
    CommentSpelled comment.toList back.toList →
    (parse (front ++ comment ++ back)).shape = (parse (front ++ spaces comment ++ back)).shape

/-- The text is a comment where a line ends behind it. -/
def CommentText (comment : String) : Prop := CommentSpelled comment.toList ['\n']

theorem text_append (s s' : String) : text (s ++ s') = text s ++ text s' := by
  rw [text, String.toList_append, encode_append]
  rfl

theorem text_spaces (comment : String) :
    text (spaces comment) = (text comment).map fun b => if b = newline then newline else 32 := by
  rw [text, spaces, String.toList_ofList]
  induction text comment with
  | nil => rfl
  | cons b t ih =>
    rw [List.map_cons, encode_cons, ih, List.map_cons]
    split <;> rfl

/-- A comment whose bytes are all below 128 is blanked to spaces. -/
theorem text_spaces_of_ascii {comment : String} (h : ∀ b ∈ text comment, b < 128) :
    text (spaces comment) = (text comment).map blank := by
  rw [text_spaces]
  refine List.map_congr_left fun b hb => ?_
  have hiff : b = newline ∨ ¬ b < 128 ↔ b = newline := or_iff_left (not_not.mpr (h b hb))
  rw [blank]
  simp only [hiff]
  split
  · next heq => exact heq.symm
  · rfl

/-- A comment of the grammar is one to the scanner. -/
theorem commentAt_append {front comment back : String}
    (hlexed : Lexed front.toList (comment.toList ++ back.toList))
    (h : CommentSpelled comment.toList back.toList) :
    CommentAt (text front ++ text comment ++ text back) (text front).length
      (text front ++ text comment).length := by
  have hat := h.commentAt hlexed
  rwa [encode_append, encode_append] at hat

theorem insignificant_of_ascii {comment : String} (h : ∀ b ∈ text comment, b < 128) :
    Insignificant comment := by
  intro front back hlexed hcomment
  have hblanked := blankedAt_append (commentAt_append hlexed hcomment)
  rw [← text_spaces_of_ascii h, ← text_append, ← text_append, ← text_append, ← text_append]
    at hblanked
  have hstrip := stripComments_blankedAt hblanked
  rw [parse, parse, parseText, parseText]
  rw [show stripComments (text (front ++ spaces comment ++ back)) = _ from hstrip]
  rfl

/-! ### A comment in front of a stream -/

/-- What stands before the first stream, -/
def streamFront : String := "interface StreamerEvents\x7b"

/-- and a stream on the next line. -/
def streamBack : String := "\na:[\x7bkey:string;args:C[]\x7d]\x7d"

section Front

variable {src front comment back w rest : Text} {b : UInt8} {i : ℕ}

/-- A byte of code without quotes and slashes is a lexeme. -/
theorem lexemeAt_front (h : ∀ b ∈ front, isQuote b = false ∧ b ≠ slash) {n : ℕ}
    (hn : n < front.length) : lexemeAt (front ++ back) n = some (.code, n + 1) := by
  obtain ⟨hquote, hslash⟩ := h _ (List.getElem_mem hn)
  rw [lexemeAt, List.getElem?_append_left hn, List.getElem?_eq_getElem hn, Option.map_some,
    if_neg (Bool.eq_false_iff.mp hquote), if_neg fun h => hslash h.1, if_neg fun h => hslash h.1]

theorem lexes_front (h : ∀ b ∈ front, isQuote b = false ∧ b ≠ slash) (n : ℕ)
    (hn : n ≤ front.length) : Lexes (front ++ back) 0 n := by
  induction n with
  | zero => exact Relation.ReflTransGen.refl
  | succ n ih => exact (ih (by omega)).tail ⟨.code, lexemeAt_front h hn⟩

/-- No stream begins with a byte from 128 up. -/
theorem streamsLoop_stuck {stop fuel : ℕ} {streams : List Stream} (hw : Spaces w)
    (hb : ¬ b < 128) (hat : At src (w ++ b :: rest) i)
    (h : streamsLoop src stop fuel i [] = .ok streams) : streams = [] := by
  have hws : isWs b = false := Bool.eq_false_iff.mpr fun h => hb (isWs_lt h)
  have hquote : isQuote b = false := Bool.eq_false_iff.mpr fun h => hb (isQuote_lt h)
  have hname : isNameByte b = false := Bool.eq_false_iff.mpr fun h => hb (isNameByte_lt h).1
  have hskip := skipWs_spaces hat hw hws
  have hhead : src[i + w.length]? = some b := hat.right.head
  cases fuel with
  | zero => cases h
  | succ fuel =>
    rw [streamsLoop, hskip] at h
    obtain ⟨pos, hpos, h⟩ := Reading.bind_eq_ok.mp h
    rw [skipSemicolons] at hpos
    obtain ⟨t, ht, hpos⟩ := Reading.bind_eq_ok.mp hpos
    obtain ⟨hle, -, rfl⟩ := slice_eq_ok ht
    split at hpos
    · next hsemicolon =>
      have hc := ((head_slice_iff hle).mp hsemicolon).2
      rw [hhead, Option.some.injEq] at hc
      exact absurd (hc ▸ (by decide : semicolon < 128)) hb
    · cases hpos
      split at h
      · cases h
        rfl
      · next hlt =>
        -- The name of a stream is expected here.
        obtain ⟨read, hread, -⟩ := Reading.bind_eq_ok.mp h
        obtain ⟨name, hname', -⟩ := Reading.bind_eq_ok.mp hread
        have hrun : ((src.drop (i + w.length)).take (stop - (i + w.length))).takeWhile
            isNameByte = [] := by
          obtain ⟨tail, htail⟩ := List.head?_eq_some_iff.mp
            ((head_slice (not_le.mp hlt)).trans hhead)
          rw [htail, List.takeWhile_cons_of_neg (by rw [hname]; exact Bool.false_ne_true)]
        rw [propertyName, byteAt, hhead] at hname'
        simp only [Reading.ok_bind, hquote, Bool.false_eq_true, if_false, hrun, List.length_nil,
          Nat.add_zero, if_true] at hname'
        exact absurd hname' errAt_ne_ok

/-- **A byte from 128 up in front of a stream is an error.** -/
theorem parseStripped_ne_ok {catalog : Catalog} (hw : Spaces w) (hb : ¬ b < 128) :
    parseStripped (text streamFront ++ (w ++ b :: rest)) ≠ .ok catalog := by
  have hfront : text streamFront = needle ++ [braceOpen] := by decide
  set src := text streamFront ++ (w ++ b :: rest) with hsrc
  have hneedle : find needle src = some 0 := by
    refine find_eq_some ?_ fun k hk => absurd hk (Nat.not_lt_zero k)
    rw [hsrc, hfront, List.append_assoc]
    exact List.prefix_append _ _
  have hbrace : find [braceOpen] (src.drop 0) = some needle.length := by
    rw [List.drop_zero, hsrc, hfront, List.append_assoc]
    exact find_byte (by decide)
  have hat : At src (w ++ b :: rest) (0 + needle.length + 1) :=
    ⟨text streamFront, [], by rw [List.append_nil], by rw [hfront, List.length_append]; rfl⟩
  intro hok
  rw [parseStripped, hneedle] at hok
  dsimp only at hok
  rw [sliceFrom_eq Bound.zero, Reading.ok_bind, hbrace] at hok
  dsimp only at hok
  obtain ⟨stop, -, hok⟩ := Reading.bind_eq_ok.mp hok
  obtain ⟨streams, hstreams, hok⟩ := Reading.bind_eq_ok.mp hok
  obtain rfl := streamsLoop_stuck hw hb hat hstreams
  exact absurd hok err_ne_ok

/-- The first byte from 128 up of a comment is what is left of it but for whitespace. -/
theorem exists_blank (h : ¬ ∀ b ∈ comment, b < 128) :
    ∃ w b rest, comment.map blank = w ++ b :: rest ∧ Spaces w ∧ ¬ b < 128 := by
  induction comment with
  | nil => exact absurd (fun b hb => absurd hb List.not_mem_nil) h
  | cons c t ih =>
    by_cases hc : c < 128
    · obtain ⟨w, b, rest, heq, hw, hb⟩ := ih fun hall => h (List.forall_mem_cons.mpr ⟨hc, hall⟩)
      refine ⟨blank c :: w, b, rest, by rw [List.map_cons, heq]; rfl, ?_, hb⟩
      refine List.forall_mem_cons.mpr ⟨?_, hw⟩
      rw [blank]
      split
      · next hkept =>
        rw [hkept.resolve_right (not_not.mpr hc)]
        rfl
      · rfl
    · have hblank : blank c = c := if_pos (.inr hc)
      refine ⟨[], c, t.map blank, by rw [List.map_cons, hblank]; rfl, ?_, hc⟩
      exact fun b hb => absurd hb List.not_mem_nil

/-- The front of a text without comments is copied, and the first comment is blanked. -/
theorem Blanked.take_comment (hout : Blanked (front ++ comment ++ back) src
      (front ++ comment ++ back).length)
    (hfront : ∀ b ∈ front, isQuote b = false ∧ b ≠ slash)
    (hcomment : CommentAt (front ++ comment ++ back) front.length (front ++ comment).length) :
    src.take (front ++ comment).length = front ++ comment.map blank := by
  have hlen : (front ++ comment).length ≤ (front ++ comment ++ back).length := by simp
  refine List.ext_getElem? fun k => ?_
  rcases Nat.lt_or_ge k (front ++ comment).length with hk | hk
  · rw [List.getElem?_take_of_lt hk]
    rcases Nat.lt_or_ge k front.length with hlt | hge
    · have hcode : ¬ InComment (front ++ comment ++ back) k := fun hin => by
        rw [List.append_assoc] at hin
        have hbyte : lexemeAt (front ++ (comment ++ back)) k = some (.code, k + 1) :=
          lexemeAt_front hfront hlt
        cases (inComment_iff (lexes_front hfront k hlt.le) hbyte le_rfl (Nat.lt_succ_self k)).mp hin
      rw [hout.copied k (hk.trans_le hlen) hcode, List.getElem?_append_left hk,
        List.getElem?_append_left hlt, List.getElem?_append_left hlt]
    · have hin := (inComment_iff hcomment.1 hcomment.2 hge hk).mpr rfl
      rw [hout.comment k (hk.trans_le hlen) hin, List.getElem?_append_left hk,
        List.getElem?_append_right hge, List.getElem?_append_right hge, List.getElem?_map]
  · rw [List.getElem?_eq_none (by rw [List.length_take]; omega),
      List.getElem?_eq_none (by simpa using hk)]

end Front

theorem streamFront_code : ∀ b ∈ text streamFront, isQuote b = false ∧ b ≠ slash :=
  List.all_iff_forall_prop.mp (by decide)

theorem lexed_streamFront (back : List Char) : Lexed streamFront.toList back :=
  lexed_code (List.all_iff_forall_prop.mp (by decide))

/-- A comment stays one if more lines follow. -/
theorem CommentText.lines {comment : String} (h : CommentText comment) (back : List Char) :
    CommentSpelled comment.toList ('\n' :: back) := by
  unfold CommentText at h
  generalize comment.toList = lexeme at h
  cases h with
  | line hbody _ => exact .line hbody fun c hc => (Option.some.inj hc).symm
  | block hbody => exact .block hbody

/-- With such a comment there the interface is not read, -/
theorem parse_comment_ne_ok {comment : String} {catalog : Catalog}
    (h : CommentText comment) (hnot : ¬ ∀ b ∈ text comment, b < 128) :
    parse (streamFront ++ comment ++ streamBack) ≠ .ok catalog := by
  obtain ⟨chars, hstrip, -, hblanked⟩ :=
    stripComments_blanked (streamFront ++ comment ++ streamBack).toList
  obtain ⟨w, b, rest, hblank, hw, hb⟩ := exists_blank hnot
  have hcomment : CommentAt (text streamFront ++ text comment ++ text streamBack)
      (text streamFront).length (text streamFront ++ text comment).length :=
    commentAt_append (lexed_streamFront _) (h.lines _)
  change Blanked (text (streamFront ++ comment ++ streamBack)) (encode chars)
    (text (streamFront ++ comment ++ streamBack)).length at hblanked
  rw [text_append, text_append] at hblanked
  have htake := hblanked.take_comment streamFront_code hcomment
  -- Blanked out, it is whitespace up to its first byte from 128 up.
  have hchars := List.take_append_drop (text streamFront ++ text comment).length (encode chars)
  rw [htake, hblank, List.append_assoc, List.append_assoc, List.cons_append] at hchars
  intro hok
  rw [parse, parseText, text, hstrip, Reading.ok_bind, ← hchars] at hok
  exact parseStripped_ne_ok hw hb hok

/-- and with spaces there it is. -/
theorem parse_spaces (comment : String) :
    ∃ catalog, parse (streamFront ++ spaces comment ++ streamBack) = .ok catalog := by
  have hnil : Spaces [] := fun b hb => absurd hb List.not_mem_nil
  have hinert : Inert [] := ⟨fun b hb => absurd hb List.not_mem_nil, by decide, by decide⟩
  -- Every byte of the comment has become a space.
  have hspaces : Spaces (text (spaces comment) ++ [newline]) := by
    rw [text_spaces]
    refine List.forall_mem_append.mpr ⟨List.forall_mem_map.mpr fun b _ => ?_,
      List.forall_mem_singleton.mpr rfl⟩
    split <;> rfl
  have hname : Name (text "C") :=
    ⟨Solid.singleton rfl, List.forall_mem_singleton.mpr rfl⟩
  have hargs : ArgsSpelled [.array] (text "C[]") :=
    ⟨by decide, ⟨⟨67, _, rfl, rfl⟩, ⟨text "C[", bracketClose, rfl, rfl⟩⟩,
      .inl (@Listed.one Alternative [bar] AlternativeSpelled [] (text "C[]") [] .array hnil
        (@AlternativeSpelled.array (text "C") hname) hnil)⟩
  have hmembers : Listed [semicolon, comma] MemberSpelled [.key .any, .args [.array]]
      (text "key:string;args:C[]") :=
    @Listed.more Member [semicolon, comma] MemberSpelled [] (text "key:string") []
      (text "args:C[]") _ semicolon _ hnil
      (@MemberSpelled.key _ [] [] (text "string") hnil hnil .string) hnil (by decide)
      (@Listed.one Member [semicolon, comma] MemberSpelled [] (text "args:C[]") [] _ hnil
        (@MemberSpelled.args _ [] [] (text "C[]") hnil hnil hargs) hnil)
  have hevents : Listed [comma] EventSpelled [{ key := .any, args := [.array] }]
      (text "\x7bkey:string;args:C[]\x7d") :=
    @Listed.one EventDecl [comma] EventSpelled [] (text "\x7bkey:string;args:C[]\x7d") [] _ hnil
      ⟨_, _, .inl rfl, hmembers, rfl⟩ hnil
  have hstream : StreamSpelled { name := text "a", events := [{ key := .any, args := [.array] }] }
      (text "a:[\x7bkey:string;args:C[]\x7d]") :=
    ⟨text "a", [], [], _, .bare (by decide) (List.all_eq_true.mp (by decide)), hnil, hnil,
      by decide, hevents, rfl⟩
  -- The whole of the text, cut at the comment.
  have htext : text (streamFront ++ spaces comment ++ streamBack) = [] ++ (needle ++ [] ++
      braceOpen :: (text (spaces comment) ++ [newline] ++
        text "a:[\x7bkey:string;args:C[]\x7d]" ++ [] ++ braceClose :: [])) := by
    have hfront : text streamFront = needle ++ [braceOpen] := by decide
    have hback : text streamBack =
      newline :: (text "a:[\x7bkey:string;args:C[]\x7d]" ++ [braceClose]) := by decide
    rw [text_append, text_append, hfront, hback]
    simp
  have hspelled : InterfaceSpelled [_] (text (streamFront ++ spaces comment ++ streamBack)) :=
    ⟨[], [], _, [], hinert, by decide, hnil, List.cons_ne_nil _ [],
      .one hspaces hstream hnil, hinert, htext⟩
  have hstrip : stripComments (text (streamFront ++ spaces comment ++ streamBack)) =
      .ok (text (streamFront ++ spaces comment ++ streamBack)) := hspelled.stripComments
  obtain ⟨catalog, hread, -⟩ := hspelled.parseStripped (aligned_encode _)
  exact ⟨catalog, by rw [parse, parseText, hstrip, Reading.ok_bind, hread]⟩

/-- **A comment is insignificant wherever it stands**, just if all of it is below 128. -/
theorem insignificant_iff (comment : String) (h : CommentText comment) :
    Insignificant comment ↔ ∀ b ∈ text comment, b < 128 := by
  refine ⟨fun hins => ?_, insignificant_of_ascii⟩
  by_contra hnot
  obtain ⟨catalog, hread⟩ := parse_spaces comment
  have hshape := hins streamFront streamBack (lexed_streamFront _) (h.lines _)
  rw [hread] at hshape
  cases hparse : parse (streamFront ++ comment ++ streamBack) with
  | ok catalog' => exact parse_comment_ne_ok h hnot hparse
  | error e => rw [hparse] at hshape; cases hshape
  | panic => rw [hparse] at hshape; cases hshape
  | hang => rw [hparse] at hshape; cases hshape

/-- A comment of bytes below 128 is insignificant, -/
theorem insignificant_plain : Insignificant "/* two slots */" := by
  have hcomment : CommentText "/* two slots */" :=
    @CommentSpelled.block " two slots ".toList _ (by decide)
  exact (insignificant_iff "/* two slots */" hcomment).mpr (List.all_iff_forall_prop.mp (by decide))

/-- but one with an accent in it may be an element of a tuple. -/
theorem not_insignificant :
    (parse "interface StreamerEvents\x7ba:[\x7bkey:string;args:[A,/*é*/\n]\x7d]\x7d").shape =
        some [(text "a", [(.any, [2], false)])] ∧
      (parse "interface StreamerEvents\x7ba:[\x7bkey:string;args:[A,      \n]\x7d]\x7d").shape =
        some [(text "a", [(.any, [1], false)])] ∧
      ¬ Insignificant "/*é*/" := by
  have hslot :
      (parse "interface StreamerEvents\x7ba:[\x7bkey:string;args:[A,/*é*/\n]\x7d]\x7d").shape =
        some [(text "a", [(.any, [2], false)])] := rfl
  have hblank :
      (parse "interface StreamerEvents\x7ba:[\x7bkey:string;args:[A,      \n]\x7d]\x7d").shape =
        some [(text "a", [(.any, [1], false)])] := rfl
  refine ⟨hslot, hblank, fun h => ?_⟩
  have hshape := h "interface StreamerEvents\x7ba:[\x7bkey:string;args:[A," "\n]\x7d]\x7d"
    (lexed_code (List.all_iff_forall_prop.mp (by decide)))
    (@CommentSpelled.block "é".toList _ (by decide))
  have hsame := hslot.symm.trans (hshape.trans hblank)
  cases hsame

end Codegen

end RocketSocket
