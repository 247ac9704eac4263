import RocketSocket.Codegen.Grammar

/-!
# The codegen parser reads its format

Every list of the format is split at its separators, every item is trimmed to its own text, and
each function of the parser reads the text of what it is for.  Put together, `parse` reads
the file of any declaration back, in order, with the arities that its tuples can have.

## Main definitions

* `Parts` — the ranges of the items of a list.

## Main results

* `Listed.split` — the splitter finds the items of a list.
* `parseKey_spelled`, `parseArgs_spelled`, `parseEntry_spelled`, `parseEntries_spelled` — the
  parts of the format.
* `parse_spelled` — **`parse` reads its whole format.**
-/

namespace RocketSocket

namespace Codegen

open Machine Utf8

/-! ### The items of a list -/

/-- The ranges of a split list: each is blank, or holds the next item. -/
inductive Parts {α : Type} (src : Text) (Item : α → Text → Prop) :
    List α → List (ℕ × ℕ) → Prop
  | nil : Parts src Item [] []
  | blank {i j p : ℕ} {as : List α} {ps : List (ℕ × ℕ)} : trimRange src i j = (p, p) →
      Parts src Item as ps → Parts src Item as ((i, j) :: ps)
  | item {i j p : ℕ} {a : α} {t : Text} {as : List α} {ps : List (ℕ × ℕ)} : Item a t →
      At src t p → Bound src p → Bound src (p + t.length) →
      trimRange src i j = (p, p + t.length) → Parts src Item as ps →
      Parts src Item (a :: as) ((i, j) :: ps)

section Lists

variable {α : Type} {src : Text} {seps : List UInt8} {Item : α → Text → Prop} {as : List α}
  {t w w' : Text} {i k : ℕ} {b : UInt8}

/-- A place behind whitespace is a boundary, -/
theorem bound_after_spaces (haligned : Aligned src) (hat : At src w i) (hw : Spaces w)
    (hbound : Bound src i) : Bound src (i + w.length) := by
  rcases List.eq_nil_or_concat w with rfl | ⟨front, b, rfl⟩
  · exact hbound
  · rw [List.concat_eq_append] at hat hw ⊢
    have hb : isWs b = true := hw b (by simp)
    rw [List.length_append, List.length_singleton, ← Nat.add_assoc]
    exact Bound.after_ascii haligned hat.right.head (isWs_lt hb)

/-- and so is one before it. -/
theorem bound_before_spaces (hat : At src w i) (hw : Spaces w)
    (hbound : Bound src (i + w.length)) : Bound src i := by
  cases w with
  | nil => exact hbound
  | cons b w => exact Bound.of_ascii hat.head (isWs_lt (hw b List.mem_cons_self))

/-- An item with whitespace around it. -/
theorem trimmed_item (haligned : Aligned src) (hat : At src (w ++ t ++ w') i) (hw : Spaces w)
    (hw' : Spaces w') (ht : Solid t) (hstart : Bound src i)
    (hstop : Bound src (i + (w ++ t ++ w').length)) :
    At src t (i + w.length) ∧ Bound src (i + w.length) ∧
      Bound src (i + w.length + t.length) ∧
      trimRange src i (i + (w ++ t ++ w').length) =
        (i + w.length, i + w.length + t.length) := by
  have hbehind : At src w' (i + w.length + t.length) := by
    have h := hat.right
    rwa [List.length_append, ← Nat.add_assoc] at h
  refine ⟨hat.left.right, bound_after_spaces haligned hat.left.left hw hstart, ?_,
    trimRange_spaces hat hw hw' ht⟩
  refine bound_before_spaces hbehind hw' ?_
  rwa [List.length_append, List.length_append, ← Nat.add_assoc, ← Nat.add_assoc] at hstop

/-- A list is split into its items. -/
theorem Listed.pieces (haligned : Aligned src) (hseps : Separating seps)
    (hsub : seps ⊆ separators) (hitem : ∀ a t, Item a t → Nested seps k t ∧ Solid t)
    (h : Listed seps Item as t) (hat : At src t i) (hstart : Bound src i)
    (hstop : Bound src (i + t.length)) :
    ∃ ps, Pieces seps k t ps ∧ Parts src Item as (ranges i ps) := by
  have hspaces {w : Text} (hw : Spaces w) : Nested seps k w :=
    hw.nested.mono (Nat.zero_le k) hsub
  induction h generalizing i with
  -- Nothing but whitespace: one piece, with no item in it.
  | none hw => exact ⟨_, .last (hspaces hw), .blank (trimRange_blank hat hw) .nil⟩
  | one hw ha hw' =>
    obtain ⟨hnested, hsolid⟩ := hitem _ _ ha
    obtain ⟨hatItem, hfront, hback, htrim⟩ :=
      trimmed_item haligned hat hw hw' hsolid hstart hstop
    exact ⟨_, .last (((hspaces hw).append hnested).append (hspaces hw')),
      .item ha hatItem hfront hback htrim .nil⟩
  | @more w t w' rest a c as hw ha hw' hc _ ih =>
    -- The separator is ASCII, so the items on both sides end at boundaries.
    obtain ⟨hnested, hsolid⟩ := hitem _ _ ha
    have hsep := hat.right.head
    have hascii := (hseps c hc).1
    obtain ⟨hatItem, hfront, hback, htrim⟩ := trimmed_item haligned hat.left hw hw' hsolid hstart
      (Bound.of_ascii hsep hascii)
    obtain ⟨ps, hpieces, hparts⟩ := ih hat.right.tail
      (Bound.after_ascii haligned hsep hascii) (by
        rw [List.length_append, List.length_cons] at hstop
        rwa [Nat.add_assoc, Nat.add_assoc, Nat.add_comm 1])
    exact ⟨_, .cons (((hspaces hw).append hnested).append (hspaces hw')) hc hpieces,
      .item ha hatItem hfront hback htrim hparts⟩

/-- **The splitter finds the items of a list.** -/
theorem Listed.split (haligned : Aligned src) (hseps : Separating seps)
    (hsub : seps ⊆ separators) (hitem : ∀ a t, Item a t → Nested seps k t ∧ Solid t)
    (hk : k ≤ maxI32) (h : Listed seps Item as t) (hat : At src t i) (hstart : Bound src i)
    (hstop : Bound src (i + t.length)) :
    ∃ ps, splitTopLevel src i (i + t.length) seps = .ok ps ∧ Parts src Item as ps := by
  obtain ⟨ps, hpieces, hparts⟩ := h.pieces haligned hseps hsub hitem hat hstart hstop
  exact ⟨_, splitTopLevel_pieces hseps hpieces hk hat, hparts⟩

end Lists

/-! ### Keys -/

section Keys

variable {src t u : Text} {i : ℕ} {quote b : UInt8}

theorem stripFront_append (front t : Text) : stripFront front (front ++ t) = some t := by
  rw [stripFront, if_pos (List.isPrefixOf_iff_prefix.mpr (List.prefix_append front t)),
    List.drop_left]

theorem stripBack_append (t back : Text) : stripBack back (t ++ back) = some t := by
  rw [stripBack, if_pos (List.isSuffixOf_iff_suffix.mpr (List.suffix_append t back)),
    List.length_append, Nat.add_sub_cancel, List.take_left]

/-- One pair of quotes with none inside. -/
theorem stripQuotes_enclosed (h : quote ∉ t) : stripQuotes (quote :: (t ++ [quote])) quote =
    some t := by
  have hfront : stripFront [quote] (quote :: (t ++ [quote])) = some (t ++ [quote]) :=
    stripFront_append [quote] _
  simp only [stripQuotes, hfront, Option.bind_some, stripBack_append, Option.bind_eq_bind]
  rw [if_neg (by simpa using h)]

theorem stripQuotes_other (h : b ≠ quote) : stripQuotes (b :: t) quote = none := by
  have hfront : stripFront [quote] (b :: t) = none := by
    rw [stripFront, if_neg]
    simpa using Ne.symm h
  simp only [stripQuotes, hfront, Option.bind_none, Option.bind_eq_bind]

theorem PlainText.contains (h : PlainText t) :
    (t.contains dollar || t.contains backslash) = false := by
  simp only [Bool.or_eq_false_iff, List.contains_eq_mem, decide_eq_false_iff_not]
  exact ⟨fun hmem => (h dollar hmem).2.2 rfl, fun hmem => (h backslash hmem).2.1 rfl⟩

theorem hasPart_plain (h : PlainText t) : hasPart t [dollar, braceOpen] = false := by
  rw [hasPart, Option.isSome_eq_false_iff, Option.isNone_iff_eq_none]
  induction t with
  | nil => rfl
  | cons b t ih =>
    obtain ⟨hb, ht⟩ := List.forall_mem_cons.mp h
    rw [find, if_neg (by simpa using fun heq => absurd heq.symm hb.2.2), ih ht]
    rfl

theorem suffixOf_spelled (ht : PlainText t) (hne : t ≠ []) :
    suffixOf (hole ++ slash :: t) = some t := by
  have hslash : stripFront [slash] (slash :: t) = some t := stripFront_append [slash] t
  simp only [suffixOf, stripFront_append, Option.bind_some, hslash, Option.bind_eq_bind,
    hasPart_plain ht, Bool.not_false, Bool.and_true, Bool.not_eq_true', List.isEmpty_eq_false_iff]
  rw [if_pos hne]

theorem suffixOf_prefixed (ht : PlainText t) (hne : t ≠ []) :
    suffixOf (t ++ slash :: hole) = none := by
  obtain ⟨b, rest, rfl⟩ := List.exists_cons_of_ne_nil hne
  have hb := (ht b List.mem_cons_self).2.2
  have hfront : stripFront hole (b :: rest ++ slash :: hole) = none := by
    rw [stripFront, if_neg]
    rw [List.isPrefixOf_iff_prefix]
    rintro ⟨back, hback⟩
    exact hb (List.cons.inj hback).1.symm
  simp only [suffixOf, hfront, Option.bind_none, Option.bind_eq_bind]

theorem prefixOf_spelled (ht : PlainText t) (hne : t ≠ []) :
    prefixOf (t ++ slash :: hole) = some t := by
  have hhole : stripBack hole (t ++ slash :: hole) = some (t ++ [slash]) := by
    have h := stripBack_append (t ++ [slash]) hole
    rwa [List.append_assoc] at h
  simp only [prefixOf, hhole, stripBack_append, Option.bind_some, Option.bind_eq_bind,
    hasPart_plain ht, Bool.not_false, Bool.and_true, Bool.not_eq_true', List.isEmpty_eq_false_iff]
  rw [if_pos hne]

/-- **A key is read.** -/
theorem parseKey_spelled {key : KeyPattern} (h : KeySpelled key t) (hat : At src t i)
    (hstart : Bound src i) (hstop : Bound src (i + t.length)) :
    parseKey src i (i + t.length) = .ok key := by
  rw [parseKey, hat.slice hstart hstop, Reading.ok_bind]
  have hhole : backtick ∉ hole := by decide
  have hslash : backtick ≠ slash := by decide
  have hsingle (t : Text) : stripQuotes (backtick :: t) singleQuote = none :=
    stripQuotes_other (by decide)
  have hdouble (t : Text) : stripQuotes (backtick :: t) doubleQuote = none :=
    stripQuotes_other (by decide)
  have hstring (t : Text) : backtick :: t ≠ text "string" := by
    intro heq
    exact absurd (List.cons.inj heq).1 (by decide)
  cases h with
  | @literal quote t hquote ht =>
    have hinner : (stripQuotes (quote :: (t ++ [quote])) singleQuote).or
        (stripQuotes (quote :: (t ++ [quote])) doubleQuote) = some t := by
      have hstrip := stripQuotes_enclosed (ht.not_mem (isQuote_of_or hquote)).1
      rcases hquote with rfl | rfl
      · rw [hstrip, Option.some_or]
      · rw [stripQuotes_other (by decide), Option.none_or, hstrip]
    rw [hinner]
    dsimp only
    rw [ht.contains]
    rfl
  | string => rfl
  | hole =>
    rw [hsingle, hdouble, Option.none_or]
    dsimp only
    rw [if_neg (hstring _), stripQuotes_enclosed hhole]
    dsimp only
    rw [if_pos rfl]
    rfl
  | @suffixed t ht hne =>
    have hnot := (ht.not_mem (rfl : isQuote backtick = true)).1
    rw [hsingle, hdouble, Option.none_or]
    dsimp only
    rw [if_neg (hstring _), stripQuotes_enclosed (by simp [hhole, hslash, hnot])]
    dsimp only
    rw [if_neg (by simp), suffixOf_spelled ht hne]
    rfl
  | @prefixed t ht hne =>
    have hnot := (ht.not_mem (rfl : isQuote backtick = true)).1
    -- A prefix makes the template longer than a hole alone.
    have hlong : t ++ slash :: hole ≠ hole := by
      intro heq
      have hlen := congrArg List.length heq
      rw [List.length_append, List.length_cons] at hlen
      omega
    rw [hsingle, hdouble, Option.none_or]
    dsimp only
    rw [if_neg (hstring _), stripQuotes_enclosed (by simp [hhole, hslash, hnot])]
    dsimp only
    rw [if_neg hlong, suffixOf_prefixed ht hne, prefixOf_spelled ht hne]
    rfl

end Keys

/-! ### What is before a colon -/

section Colon

variable {src t u v w w' : Text} {i k : ℕ}

theorem separating_colon : Separating [colon] := by decide

theorem findTopLevel_none (h : Nested [colon] k t) (hk : k ≤ maxI32) (hat : At src t i) :
    findTopLevel src i (i + t.length) [colon] = .ok none := by
  rw [findTopLevel, splitTopLevel_pieces separating_colon (.last h) hk hat]
  rfl

theorem findTopLevel_some (h : Nested [colon] k t) (h' : Nested [colon] k u) (hk : k ≤ maxI32)
    (hat : At src (t ++ colon :: u) i) :
    findTopLevel src i (i + (t ++ colon :: u).length) [colon] = .ok (some (i + t.length)) := by
  rw [findTopLevel, splitTopLevel_pieces separating_colon
    (.cons h (List.mem_singleton.mpr rfl) (.last h')) hk hat]
  rfl

/-- An element is optional if what is before its colon ends with a question mark. -/
theorem isOptionalElement_eq {stop : ℕ} {found : Option ℕ} (hat : At src (u ++ w) i)
    (hu : Solid u) (hw : Spaces w) (hfind : findTopLevel src i stop [colon] = .ok found)
    (hend : found.getD stop = i + (u ++ w).length) (hstart : Bound src i)
    (hstop : Bound src (i + u.length)) :
    isOptionalElement src i stop = .ok (decide (u.getLast? = some question)) := by
  have htrim : (trimRange src i (i + (u ++ w).length)).2 = i + u.length := by
    have h : trimRange src i (i + ([] ++ u ++ w).length) =
        (i + ([] : Text).length, i + ([] : Text).length + u.length) :=
      trimRange_spaces (by rwa [List.nil_append]) (fun b hb => absurd hb List.not_mem_nil) hw hu
    rw [List.nil_append] at h
    rw [h]
    rfl
  rw [isOptionalElement, hfind, Reading.ok_bind, hend, htrim, hat.left.slice hstart hstop]
  rfl

end Colon

/-! ### Elements -/

section Elements

variable {src t : Text} {i : ℕ}

theorem Name.last {t : Text} (h : Name t) : decide (t.getLast? = some question) = false := by
  rw [decide_eq_false_iff_not]
  intro hlast
  have hword := h.word question (List.mem_of_getLast? hlast)
  cases hword

/-- **An element is read as optional if it is.** -/
theorem isOptionalElement_spelled {optional : Bool} (h : ElementSpelled optional t)
    (hat : At src t i) (hstart : Bound src i) (hstop : Bound src (i + t.length)) :
    isOptionalElement src i (i + t.length) = .ok optional := by
  have hsub : [colon] ⊆ separators := by decide
  have hmax : ((0 : ℕ) : ℤ) ≤ maxI32 := by decide
  have hnil : Spaces [] := fun b hb => absurd hb List.not_mem_nil
  have hnested {t : Text} (h : Nested separators 0 t) : Nested [colon] 0 t := h.mono le_rfl hsub
  cases h with
  | bare htype =>
    rw [isOptionalElement_eq (w := []) (by rwa [List.append_nil]) htype.solid hnil
      (findTopLevel_none (hnested htype.nested) hmax hat) (by rw [List.append_nil]; rfl) hstart
      hstop, htype.last]
  | @optional type w htype hw =>
    rw [isOptionalElement_eq (w := []) (by rwa [List.append_nil])
      (htype.solid.between (Solid.singleton rfl)) hnil
      (findTopLevel_none (hnested (nested_optional htype hw)) hmax hat)
      (by rw [List.append_nil]; rfl) hstart hstop]
    simp
  | @labelled label w w' type hlabel hw hw' htype =>
    -- The colon is found at the top level, and what is in front of it is the label.
    have hcolon : Bound src (i + (label ++ w).length) :=
      Bound.of_ascii hat.right.head (by decide)
    have hlabelEnd : Bound src (i + label.length) := by
      refine bound_before_spaces hat.left.right hw ?_
      rwa [List.length_append, ← Nat.add_assoc] at hcolon
    rw [isOptionalElement_eq hat.left hlabel.solid hw
      (findTopLevel_some (hnested (hlabel.nested.append hw.nested))
        (hnested (hw'.nested.append htype.nested)) hmax hat) rfl hstart hlabelEnd, hlabel.last]
  | @labelledOptional label w w' w'' type hlabel hw hw' hw'' htype =>
    have hcolon : Bound src (i + (label ++ w ++ [question] ++ w').length) :=
      Bound.of_ascii hat.right.head (by decide)
    have hlabelEnd : Bound src (i + (label ++ w ++ [question]).length) := by
      refine bound_before_spaces hat.left.right hw' ?_
      rwa [@List.length_append _ (label ++ w ++ [question]), ← Nat.add_assoc] at hcolon
    rw [isOptionalElement_eq hat.left (hlabel.solid.between (Solid.singleton rfl)) hw'
      (findTopLevel_some (hnested ((nested_optional hlabel hw).append hw'.nested))
        (hnested (hw''.nested.append htype.nested)) hmax hat) rfl hstart hlabelEnd]
    simp

theorem ElementSpelled.first {optional : Bool} (h : ElementSpelled optional t) :
    (text "...").isPrefixOf t = false := by
  have hdots : text "..." = [46, 46, 46] := rfl
  have hname {label rest : Text} (h : Name label) :
      (text "...").isPrefixOf (label ++ rest) = false := by
    obtain ⟨b, tail, rfl, -⟩ := h.solid.first
    have hb := h.word b List.mem_cons_self
    rw [Bool.eq_false_iff, ne_eq, List.isPrefixOf_iff_prefix]
    rintro ⟨back, hback⟩
    rw [hdots] at hback
    rw [← (List.cons.inj hback).1] at hb
    cases hb
  cases h with
  | bare htype =>
    have h := @hname _ [] htype
    rwa [List.append_nil] at h
  | optional htype _ => rw [List.append_assoc]; exact hname htype
  | labelled hlabel _ _ _ => rw [List.append_assoc]; exact hname hlabel
  | labelledOptional hlabel _ _ _ _ =>
    simp only [List.append_assoc]
    exact hname hlabel

/-- How an element counts. -/
def countElement (counts : ℕ × ℕ) (optional : Bool) : ℕ × ℕ :=
  (counts.1 + 1, if optional then counts.2 else counts.1 + 1)

theorem countElements_spelled {elements : List Bool} {ps : List (ℕ × ℕ)}
    (h : Parts src ElementSpelled elements ps) (counts : ℕ × ℕ) :
    countElements src ps counts = .ok (elements.foldl countElement counts) := by
  induction h generalizing counts with
  | nil => rfl
  | blank htrim _ ih =>
    rw [countElements, htrim]
    dsimp only
    rw [if_pos rfl]
    exact ih counts
  | @item i j p optional t as ps helement hat hstart hstop htrim _ ih =>
    have hpos := helement.solid.pos
    rw [countElements, htrim]
    dsimp only
    rw [if_neg (by omega), hat.slice hstart hstop, Reading.ok_bind, helement.first,
      if_neg Bool.false_ne_true, isOptionalElement_spelled helement hat hstart hstop,
      Reading.ok_bind, List.foldl_cons]
    exact ih _

/-- The counts of required elements with optional ones behind them. -/
theorem foldl_countElement (required optional : ℕ) :
    (List.replicate required false ++ List.replicate optional true).foldl countElement (0, 0) =
      (required + optional, required) := by
  rw [List.foldl_append]
  have hrequired (n : ℕ) : (List.replicate n false).foldl countElement (0, 0) = (n, n) := by
    induction n with
    | zero => rfl
    | succ n ih => rw [List.replicate_succ', List.foldl_append, ih]; rfl
  have hoptional (n : ℕ) : (List.replicate n true).foldl countElement (required, required) =
      (required + n, required) := by
    induction n with
    | zero => rfl
    | succ n ih => rw [List.replicate_succ', List.foldl_append, ih]; rfl
  rw [hrequired, hoptional]

end Elements

/-! ### Arguments -/

section Args

variable {src t : Text} {i : ℕ}

theorem addArities_spec (arities : List ℕ) (required n : ℕ) (h : arities.Nodup) :
    (addArities arities required n).Nodup ∧ ∀ m, m ∈ addArities arities required n ↔
      m ∈ arities ∨ m ∈ List.range' required (n + 1 - required) := by
  rw [addArities]
  generalize List.range' required (n + 1 - required) = added
  induction added generalizing arities with
  | nil => exact ⟨h, fun m => by simp⟩
  | cons a added ih =>
    rw [List.foldl_cons]
    cases hmem : arities.contains a with
    | true =>
      -- The number is there already.
      obtain ⟨hnodup, hspec⟩ := ih arities h
      rw [if_pos rfl]
      refine ⟨hnodup, fun m => (hspec m).trans ?_⟩
      have ha : a ∈ arities := by simpa using hmem
      rw [List.mem_cons]
      constructor
      · exact fun hm => hm.imp_right .inr
      · rintro (hm | rfl | hm)
        · exact .inl hm
        · exact .inl ha
        · exact .inr hm
    | false =>
      -- The number is new, and is put behind the others.
      have ha : a ∉ arities := by simpa using hmem
      have hnew : (arities ++ [a]).Nodup := by
        rw [List.nodup_append']
        exact ⟨h, List.nodup_singleton a, by simpa using ha⟩
      obtain ⟨hnodup, hspec⟩ := ih _ hnew
      rw [if_neg Bool.false_ne_true]
      refine ⟨hnodup, fun m => (hspec m).trans ?_⟩
      rw [List.mem_append, List.mem_singleton, List.mem_cons, or_assoc]

/-- What the alternatives of a union are read as. -/
structure Found (alternatives : List Alternative) (found found' : List ℕ × Bool) : Prop where
  nodup : found'.1.Nodup
  mem : ∀ m, m ∈ found'.1 ↔ m ∈ found.1 ∨ m ∈ alternatives.flatMap Alternative.lengths
  variadic : found'.2 = (found.2 || alternatives.contains .array)

/-- A tuple is read. -/
theorem parseTuple_spelled {required optional : ℕ} (haligned : Aligned src)
    (h : Listed [comma] ElementSpelled
      (List.replicate required false ++ List.replicate optional true) t)
    (hat : At src (bracketOpen :: (t ++ [bracketClose])) i) :
    balanced src i bracketOpen bracketClose = .ok (i + 1 + t.length) ∧
      ∃ elements, splitTopLevel src (i + 1) (i + 1 + t.length) [comma] = .ok elements ∧
        countElements src elements (0, 0) = .ok (required + optional, required) := by
  have hnested : Nested [] 0 t :=
    h.nested (fun _ _ h => h.nested.mono le_rfl (List.nil_subset _))
      (List.all_iff_forall_prop.mp (by decide)) (by decide)
  have hstart : Bound src (i + 1) := Bound.after_ascii haligned hat.head (by decide)
  have hstop : Bound src (i + 1 + t.length) := Bound.of_ascii hat.tail.right.head (by decide)
  obtain ⟨elements, hsplit, hparts⟩ := h.split (k := 0) haligned (by decide) (by decide)
    (fun _ _ h => ⟨h.nested, h.solid⟩) (by decide) hat.tail.left hstart hstop
  refine ⟨balanced_nested (.inr ⟨rfl, rfl⟩) hnested hat, elements, hsplit, ?_⟩
  rw [countElements_spelled hparts, foldl_countElement]

theorem parseAlternatives_spelled {alternatives : List Alternative} {ps : List (ℕ × ℕ)}
    (haligned : Aligned src) (h : Parts src AlternativeSpelled alternatives ps)
    (found : List ℕ × Bool) (hnodup : found.1.Nodup) :
    ∃ found', parseAlternatives src ps found = .ok found' ∧
      Found alternatives found found' := by
  induction h generalizing found with
  | nil => exact ⟨found, rfl, hnodup, fun m => by simp, by simp⟩
  | blank htrim _ ih =>
    rw [parseAlternatives, htrim]
    dsimp only
    rw [if_pos rfl]
    exact ih found hnodup
  | @item i j p alternative t as ps hspelled hat hstart hstop htrim _ ih =>
    have hpos := hspelled.solid.pos
    rw [parseAlternatives, htrim]
    dsimp only
    rw [if_neg (by omega), hat.slice hstart hstop, Reading.ok_bind]
    cases hspelled with
    | @tuple required optional t ht =>
      obtain ⟨hbalanced, elements, hsplit, hcount⟩ := parseTuple_spelled haligned ht hat
      have hlen : p + (bracketOpen :: (t ++ [bracketClose])).length = p + 1 + t.length + 1 := by
        rw [List.length_cons, List.length_append, List.length_singleton]
        omega
      obtain ⟨harities, hspec⟩ := addArities_spec found.1 required (required + optional) hnodup
      obtain ⟨found', hrest, hfound⟩ :=
        ih (addArities found.1 required (required + optional), found.2) harities
      refine ⟨found', ?_, hfound.nodup, fun m => ?_, ?_⟩
      · rw [if_pos ⟨rfl, List.getLast?_concat (l := bracketOpen :: t)⟩, hbalanced,
          Reading.ok_bind, hlen, if_neg (not_not.mpr rfl), Nat.add_sub_cancel, hsplit,
          Reading.ok_bind, hcount]
        exact hrest
      · rw [hfound.mem, hspec, List.flatMap_cons, List.mem_append, or_assoc,
          Alternative.lengths, Nat.add_assoc, Nat.add_sub_cancel_left]
      · rw [hfound.variadic]
        rfl
    | @array type htype =>
      obtain ⟨found', hrest, hfound⟩ := ih (found.1, true) hnodup
      -- A name does not begin with a bracket, so the array is no tuple.
      have hopen : (type ++ [bracketOpen, bracketClose]).head? ≠ some bracketOpen := by
        obtain ⟨b, rest, rfl, -⟩ := htype.solid.first
        have hb := htype.word b List.mem_cons_self
        intro heq
        cases heq
        cases hb
      refine ⟨found', ?_, hfound.nodup, fun m => ?_, ?_⟩
      · rw [if_neg (fun h => hopen h.1), if_pos]
        · exact hrest
        · exact List.isSuffixOf_iff_suffix.mpr (List.suffix_append _ _)
      · rw [hfound.mem]
        rfl
      · rw [hfound.variadic, List.contains_cons]
        simp

/-- The alternatives of a union are found, whether or not a `|` stands before the first one. -/
theorem ArgsSpelled.split {args : List Alternative} (haligned : Aligned src)
    (h : ArgsSpelled args t) (hat : At src t i) (hstart : Bound src i)
    (hstop : Bound src (i + t.length)) :
    ∃ ps, splitTopLevel src i (i + t.length) [bar] = .ok ps ∧
      Parts src AlternativeSpelled args ps := by
  have hsep : Separating [bar] := by decide
  have hsub : [bar] ⊆ separators := by decide
  have hmax : ((1 : ℕ) : ℤ) ≤ maxI32 := by decide
  have hitem (a : Alternative) (t : Text) (h : AlternativeSpelled a t) :
      Nested [bar] 1 t ∧ Solid t := ⟨h.nested.mono le_rfl hsub, h.solid⟩
  rcases h.2.2 with h | ⟨w, rest, hw, hrest, rfl⟩
  · exact h.split haligned hsep hsub hitem hmax hat hstart hstop
  · obtain ⟨ps, hpieces, hparts⟩ := hrest.pieces haligned hsep hsub hitem hat.right.tail
      (Bound.after_ascii haligned hat.right.head (by decide)) (by
        rw [List.length_append, List.length_cons] at hstop
        rwa [Nat.add_assoc, Nat.add_assoc, Nat.add_comm 1])
    have hpieces' := Pieces.cons (hw.nested.mono (Nat.zero_le 1) hsub)
      (List.mem_singleton.mpr rfl) hpieces
    exact ⟨_, splitTopLevel_pieces hsep hpieces' hmax hat,
      .blank (trimRange_blank hat.left hw) hparts⟩

theorem insertionSort_eq_sort {l l' : List ℕ} (h : l.Nodup) (hmem : ∀ m, m ∈ l ↔ m ∈ l') :
    l.insertionSort (· ≤ ·) = l'.toFinset.sort := by
  have hset : (l.insertionSort (· ≤ ·)).toFinset = l'.toFinset := by
    ext m
    rw [List.mem_toFinset, List.mem_insertionSort, hmem, List.mem_toFinset]
  have hnodup : (l.insertionSort (· ≤ ·)).Nodup :=
    (List.perm_insertionSort (· ≤ ·) l).nodup_iff.mpr h
  rw [← hset]
  exact ((List.toFinset_sort _ hnodup).mpr (List.pairwise_insertionSort _ l)).symm

/-- **A union is read.** -/
theorem parseArgs_spelled {args : List Alternative} (haligned : Aligned src)
    (h : ArgsSpelled args t) (hat : At src t i) (hstart : Bound src i)
    (hstop : Bound src (i + t.length)) :
    ∃ spec, parseArgs src i (i + t.length) = .ok spec ∧
      spec.arities = (args.flatMap Alternative.lengths).toFinset.sort ∧
      spec.variadic = args.contains .array := by
  obtain ⟨ps, hsplit, hparts⟩ := h.split haligned hat hstart hstop
  obtain ⟨⟨arities, variadic⟩, hread, hfound⟩ :=
    parseAlternatives_spelled haligned hparts ([], false) List.nodup_nil
  have hmem : ∀ m, m ∈ arities ↔ m ∈ args.flatMap Alternative.lengths := fun m =>
    (hfound.mem m).trans (by simp)
  have hvariadic : variadic = args.contains .array := hfound.variadic
  -- The first alternative is an array, or has a length.
  have hsome : (arities.isEmpty && !variadic) = false := by
    obtain ⟨a, rest, rfl⟩ := List.exists_cons_of_ne_nil h.1
    cases a with
    | tuple required optional =>
      have hfirst : required ∈ arities := by
        rw [hmem, List.flatMap_cons, List.mem_append, Alternative.lengths, List.mem_range'_1]
        exact .inl ⟨le_rfl, by omega⟩
      rw [Bool.and_eq_false_iff, List.isEmpty_eq_false_iff]
      exact .inl (List.ne_nil_of_mem hfirst)
    | array =>
      rw [hvariadic, List.contains_cons]
      simp
  refine ⟨{ source := normalise t, arities := arities.insertionSort (· ≤ ·),
            variadic := variadic }, ?_, ?_, hvariadic⟩
  · rw [parseArgs, hsplit, Reading.ok_bind, hread, Reading.ok_bind]
    dsimp only
    rw [hsome, if_neg Bool.false_ne_true, hat.slice hstart hstop]
    rfl
  · exact insertionSort_eq_sort hfound.nodup hmem

end Args

/-! ### Names of members -/

section Trim

variable {t w : Text} {b : UInt8}

theorem findSome_eq_some {α β : Type} {f : α → Option β} {l : List α} {b : β}
    (h : ∀ a ∈ l, f a = none ∨ f a = some b) (hsome : ∃ a ∈ l, f a = some b) :
    l.findSome? f = some b := by
  induction l with
  | nil =>
    obtain ⟨a, ha, -⟩ := hsome
    cases ha
  | cons a l ih =>
    obtain ⟨ha, hl⟩ := List.forall_mem_cons.mp h
    rw [List.findSome?_cons]
    rcases ha with ha | ha
    · rw [ha]
      refine ih hl ?_
      obtain ⟨a', ha', hf⟩ := hsome
      rcases List.mem_cons.mp ha' with rfl | ha'
      · rw [ha] at hf
        cases hf
      · exact ⟨a', ha', hf⟩
    · rw [ha]

/-- The only white space that ends with a byte below 128 is that byte. -/
theorem whiteSpace_single : ∀ c ∈ whiteSpace, c ≠ [] ∧
    (c.getLast?.any (fun b => b < 128) = true → c.length = 1) := by decide +kernel

theorem whiteSpace_mem (h : isWs b = true) : [b] ∈ whiteSpace := by
  rcases isWs_cases h with rfl | rfl | rfl | rfl | rfl <;> decide +kernel

theorem findSome_stripBack (hb : isWs b = true) :
    (whiteSpace.findSome? fun c => stripBack c (t ++ [b])) = some t := by
  refine findSome_eq_some (fun c hc => ?_) ⟨[b], whiteSpace_mem hb, stripBack_append t [b]⟩
  cases hsuffix : c.isSuffixOf (t ++ [b]) with
  | false => exact .inl (by rw [stripBack, hsuffix]; rfl)
  | true =>
    obtain ⟨hne, hsingle⟩ := whiteSpace_single c hc
    obtain ⟨front, e, rfl⟩ := (List.eq_nil_or_concat c).resolve_left hne
    rw [List.concat_eq_append] at *
    obtain ⟨rest, hrest⟩ := List.isSuffixOf_iff_suffix.mp hsuffix
    rw [← List.append_assoc] at hrest
    obtain ⟨hfront, he⟩ := List.append_inj' hrest rfl
    obtain rfl : e = b := List.cons.inj he |>.1
    have hlen := hsingle (by simpa using isWs_lt hb)
    rw [List.length_append, List.length_singleton] at hlen
    obtain rfl : front = [] := List.eq_nil_of_length_eq_zero (by omega)
    exact .inr (stripBack_append t [e])

/-- Whitespace behind a name is trimmed off it. -/
theorem trim_name {name : Text}
    (hfront : ∀ w, (whiteSpace.findSome? fun c => stripFront c (name ++ w)) = none)
    (hback : (whiteSpace.findSome? fun c => stripBack c name) = none) (hw : Spaces w) :
    trim (name ++ w) = name := by
  have hstart (n : ℕ) : trimEnd stripFront n (name ++ w) = name ++ w := by
    cases n with
    | zero => rfl
    | succ n => rw [trimEnd, hfront]
  have hend (n : ℕ) (hn : w.length ≤ n) : trimEnd stripBack n (name ++ w) = name := by
    induction w using List.reverseRecOn generalizing n with
    | nil =>
      rw [List.append_nil]
      cases n with
      | zero => rfl
      | succ n => rw [trimEnd, hback]
    | append_singleton w b ih =>
      rw [List.length_append, List.length_singleton] at hn
      obtain ⟨n, rfl⟩ : ∃ m, n = m + 1 := ⟨n - 1, by omega⟩
      rw [← List.append_assoc, trimEnd, findSome_stripBack (hw b (by simp))]
      exact ih (fun c hc => hw c (List.mem_append_left _ hc)) (fun m => by
        cases m with
        | zero => rfl
        | succ m => rw [trimEnd, hfront]) n (by omega)
  rw [trim, hstart, hend _ (by rw [List.length_append]; omega)]

theorem findSome_stripFront {rest : Text} (hb : ∀ c ∈ whiteSpace, c.head? ≠ some b) :
    (whiteSpace.findSome? fun c => stripFront c (b :: rest)) = none := by
  rw [List.findSome?_eq_none_iff]
  intro c hc
  rw [stripFront, if_neg]
  rw [List.isPrefixOf_iff_prefix]
  rintro ⟨back, hback⟩
  obtain ⟨hne, -⟩ := whiteSpace_single c hc
  obtain ⟨e, tail, rfl⟩ := List.exists_cons_of_ne_nil hne
  exact hb _ hc (congrArg some (List.cons.inj hback).1)

theorem trim_key (hw : Spaces w) : trim (text "key" ++ w) = text "key" :=
  trim_name (fun _ => findSome_stripFront (by decide +kernel)) (by decide +kernel) hw

theorem trim_args (hw : Spaces w) : trim (text "args" ++ w) = text "args" :=
  trim_name (fun _ => findSome_stripFront (by decide +kernel)) (by decide +kernel) hw

end Trim

/-! ### Entries -/

section Entries

variable {src t : Text} {i : ℕ}

/-- What the parser takes of a member: its name, and the range of its value. -/
theorem member_parts {name w w' v : Text} {k : ℕ} (haligned : Aligned src)
    (hname : Nested separators 0 name) (hw : Spaces w) (hw' : Spaces w')
    (hv : Nested [colon] k v) (hk : k ≤ maxI32) (hsolid : Solid v)
    (hat : At src (name ++ w ++ colon :: (w' ++ v)) i) (hstart : Bound src i)
    (hstop : Bound src (i + (name ++ w ++ colon :: (w' ++ v)).length)) :
    ∃ colonAt p, findTopLevel src i (i + (name ++ w ++ colon :: (w' ++ v)).length) [colon] =
        .ok (some colonAt) ∧
      slice src i colonAt = .ok (name ++ w) ∧
      trimRange src (colonAt + 1) (i + (name ++ w ++ colon :: (w' ++ v)).length) =
        (p, p + v.length) ∧
      At src v p ∧ Bound src p ∧ Bound src (p + v.length) := by
  have hsub : [colon] ⊆ separators := by decide
  have hcolon : Bound src (i + (name ++ w).length) := Bound.of_ascii hat.right.head (by decide)
  have hbehind : Bound src (i + (name ++ w).length + 1) :=
    Bound.after_ascii haligned hat.right.head (by decide)
  -- Behind the colon comes the value, with whitespace in front of it only.
  have hvalue : At src (w' ++ v ++ []) (i + (name ++ w).length + 1) := by
    rw [List.append_nil]
    exact hat.right.tail
  have hlen : i + (name ++ w ++ colon :: (w' ++ v)).length =
      i + (name ++ w).length + 1 + (w' ++ v ++ []).length := by
    simp only [List.length_append, List.length_cons, List.length_nil]
    omega
  -- The colon behind the name is the first one at the top level.
  have hfind := findTopLevel_some (k := k)
    ((hname.append hw.nested).mono (Nat.zero_le k) hsub)
    ((hw'.nested.mono (Nat.zero_le k) hsub).append hv) hk hat
  obtain ⟨hatValue, hfront, hback, htrim⟩ := trimmed_item haligned hvalue hw'
    (fun b hb => absurd hb List.not_mem_nil) hsolid hbehind (hlen ▸ hstop)
  refine ⟨_, _, hfind, hat.left.slice hstart hcolon, ?_, hatValue, hfront, hback⟩
  rw [hlen, htrim]

/-- Blank parts are skipped. -/
theorem parseMembers_nil {ps : List (ℕ × ℕ)} {as : List Member}
    (h : Parts src MemberSpelled as ps) (has : as = []) (members : Members) :
    parseMembers src ps members = .ok members := by
  induction h with
  | nil => rfl
  | blank htrim _ ih =>
    rw [parseMembers, htrim]
    dsimp only
    rw [if_pos rfl]
    exact ih has
  | item _ _ _ _ _ _ _ => cases has

/-- The key is read. -/
theorem parseMembers_key {ps : List (ℕ × ℕ)} {as rest : List Member} {key : KeyPattern}
    (haligned : Aligned src) (h : Parts src MemberSpelled as ps) (has : as = .key key :: rest)
    (members : Members) (hmembers : members.key = none) :
    ∃ source ps', Parts src MemberSpelled rest ps' ∧ parseMembers src ps members =
      parseMembers src ps' { members with key := some (key, source) } := by
  induction h with
  | nil => cases has
  | blank htrim _ ih =>
    -- A blank piece is passed over.
    obtain ⟨source, ps', hparts, heq⟩ := ih has
    refine ⟨source, ps', hparts, ?_⟩
    rw [parseMembers, htrim]
    dsimp only
    rw [if_pos rfl]
    exact heq
  | @item i j p a t as ps hmember hat hstart hstop htrim hparts ih =>
    cases has
    have hpos := hmember.solid.pos
    cases hmember with
    | @key key w w' t hw hw' hspelled =>
      -- The member is the key: its name is in front of the colon, its text behind.
      obtain ⟨colonAt, v, hfind, hname, hvalue, hatValue, hfront, hback⟩ := member_parts
        haligned (nested_of_word (List.all_eq_true.mp (by decide))) hw hw'
        (hspelled.nested.mono le_rfl (by decide))
        (by decide) hspelled.solid hat hstart hstop
      refine ⟨t, ps, hparts, ?_⟩
      rw [parseMembers, htrim]
      dsimp only
      rw [if_neg (by omega), hfind, Reading.ok_bind]
      dsimp only
      rw [hname, Reading.ok_bind, trim_key hw, if_pos rfl, hmembers, hvalue]
      dsimp only
      rw [if_neg (by decide), parseKey_spelled hspelled hatValue hfront hback, Reading.ok_bind,
        hatValue.slice hfront hback]
      rfl

/-- The arguments are read. -/
theorem parseMembers_args {ps : List (ℕ × ℕ)} {as rest : List Member} {args : List Alternative}
    (haligned : Aligned src) (h : Parts src MemberSpelled as ps)
    (has : as = .args args :: rest) (members : Members) (hmembers : members.args = none) :
    ∃ spec ps', (spec.arities = (args.flatMap Alternative.lengths).toFinset.sort ∧
        spec.variadic = args.contains .array) ∧ Parts src MemberSpelled rest ps' ∧
      parseMembers src ps members = parseMembers src ps' { members with args := some spec } := by
  induction h with
  | nil => cases has
  | blank htrim _ ih =>
    obtain ⟨spec, ps', hspec, hparts, heq⟩ := ih has
    -- A blank piece is passed over.
    refine ⟨spec, ps', hspec, hparts, ?_⟩
    rw [parseMembers, htrim]
    dsimp only
    rw [if_pos rfl]
    exact heq
  | @item i j p a t as ps hmember hat hstart hstop htrim hparts ih =>
    cases has
    have hpos := hmember.solid.pos
    cases hmember with
    | @args args w w' t hw hw' hspelled =>
      -- The member is the arguments.
      obtain ⟨colonAt, v, hfind, hname, hvalue, hatValue, hfront, hback⟩ := member_parts
        haligned (nested_of_word (List.all_eq_true.mp (by decide))) hw hw'
        (hspelled.nested.mono le_rfl (by decide))
        (by decide) hspelled.2.1 hat hstart hstop
      obtain ⟨spec, hread, hspec⟩ := parseArgs_spelled haligned hspelled hatValue hfront hback
      have hne : text "args" ≠ text "key" := by decide
      refine ⟨spec, ps, hspec, hparts, ?_⟩
      rw [parseMembers, htrim]
      dsimp only
      rw [if_neg (by omega), hfind, Reading.ok_bind]
      dsimp only
      rw [hname, Reading.ok_bind, trim_args hw, if_neg hne, if_pos rfl, hmembers, hvalue]
      dsimp only
      rw [if_neg (by decide), hread]
      rfl

/-- **An entry is read.** -/
theorem parseEntry_spelled {event : EventDecl} (haligned : Aligned src)
    (h : EventSpelled event t) (hat : At src t i) :
    ∃ e, parseEntry src (i + 1) (i + t.length - 1) = .ok e ∧ e.Declares event := by
  obtain ⟨declared, body, hdeclared, hbody, rfl⟩ := h
  have hlen : i + (braceOpen :: (body ++ [braceClose])).length - 1 = i + 1 + body.length := by
    rw [List.length_cons, List.length_append, List.length_singleton]
    omega
  have hstart : Bound src (i + 1) := Bound.after_ascii haligned hat.head (by decide)
  have hstop : Bound src (i + 1 + body.length) :=
    Bound.of_ascii hat.tail.right.head (by decide)
  obtain ⟨ps, hsplit, hparts⟩ := hbody.split haligned (by decide) (by decide)
    (fun _ _ h => ⟨h.nested, h.solid⟩) (by decide) hat.tail.left hstart hstop
  have hread (source : Text) (spec : ArgsSpec)
      (hspec : spec.arities = (event.args.flatMap Alternative.lengths).toFinset.sort ∧
        spec.variadic = event.args.contains .array)
      (hmembers : parseMembers src ps {} =
        .ok { key := some (event.key, source), args := some spec }) :
      ∃ e, parseEntry src (i + 1) (i + 1 + body.length) = .ok e ∧ e.Declares event := by
    refine ⟨{ key := event.key, keySource := source, args := spec }, ?_, rfl, hspec.1, hspec.2⟩
    rw [parseEntry, hsplit, Reading.ok_bind, hmembers]
    rfl
  rw [hlen]
  rcases hdeclared with rfl | rfl
  · -- The key first, then the arguments;
    obtain ⟨source, ps', hparts, heq⟩ := parseMembers_key haligned hparts rfl {} rfl
    obtain ⟨spec, ps'', hspec, hparts, heq'⟩ := parseMembers_args haligned hparts rfl
      { key := some (event.key, source) } rfl
    exact hread source spec hspec (by rw [heq, heq', parseMembers_nil hparts rfl])
  · -- or the other way round.
    obtain ⟨spec, ps', hspec, hparts, heq⟩ := parseMembers_args haligned hparts rfl {} rfl
    obtain ⟨source, ps'', hparts, heq'⟩ := parseMembers_key haligned hparts rfl
      { args := some spec } rfl
    exact hread source spec hspec (by rw [heq, heq', parseMembers_nil hparts rfl])

theorem parseObjects_spelled {events : List EventDecl} {ps : List (ℕ × ℕ)}
    (haligned : Aligned src) (h : Parts src EventSpelled events ps) (before : List Event) :
    ∃ read, parseObjects src ps before = .ok (before ++ read) ∧
      List.Forall₂ Event.Declares read events := by
  induction h generalizing before with
  | nil => exact ⟨[], by rw [List.append_nil]; rfl, .nil⟩
  | blank htrim _ ih =>
    rw [parseObjects, htrim]
    dsimp only
    rw [if_pos rfl]
    exact ih before
  | @item i j p event t as ps hspelled hat hstart hstop htrim _ ih =>
    have hpos := hspelled.solid.pos
    obtain ⟨e, hread, hdeclares⟩ := parseEntry_spelled haligned hspelled hat
    obtain ⟨read, hrest, hall⟩ := ih (before ++ [e])
    have hbraces : t.head? = some braceOpen ∧ t.getLast? = some braceClose := by
      obtain ⟨members, body, -, -, rfl⟩ := hspelled
      exact ⟨rfl, List.getLast?_concat (l := braceOpen :: body)⟩
    refine ⟨e :: read, ?_, .cons hdeclares hall⟩
    rw [parseObjects, htrim]
    dsimp only
    rw [if_neg (by omega), hat.slice hstart hstop, Reading.ok_bind, if_pos hbraces, hread,
      Reading.ok_bind, hrest, List.append_assoc]
    rfl

/-- **The entries of a stream are read.** -/
theorem parseEntries_spelled {events : List EventDecl} (haligned : Aligned src)
    (h : Listed [comma] EventSpelled events t) (hne : events ≠ []) (hat : At src t i)
    (hstart : Bound src i) (hstop : Bound src (i + t.length)) :
    ∃ read, parseEntries src i (i + t.length) = .ok read ∧
      List.Forall₂ Event.Declares read events := by
  obtain ⟨ps, hsplit, hparts⟩ := h.split (k := 2) haligned (by decide) (by decide)
    (fun _ _ h => ⟨h.nested.mono le_rfl (by decide), h.solid⟩) (by decide) hat hstart hstop
  obtain ⟨read, hread, hall⟩ := parseObjects_spelled haligned hparts []
  have hsome : read.isEmpty = false := by
    rw [List.isEmpty_eq_false_iff]
    rintro rfl
    cases hall
    exact hne rfl
  refine ⟨read, ?_, hall⟩
  rw [parseEntries, hsplit, Reading.ok_bind, hread, Reading.ok_bind, List.nil_append, hsome]
  rfl

end Entries

/-! ### Streams -/

section Streams

variable {src t w : Text} {i stop : ℕ} {b : UInt8}

/-- **A stream name is read.** -/
theorem propertyName_spelled {name rest : Text} (haligned : Aligned src)
    (h : NameSpelled name t) (hat : At src (t ++ b :: rest) i) (hb : isNameByte b = false)
    (hlt : i + t.length < stop) (hstart : Bound src i) (hbound : Bound src (i + t.length)) :
    propertyName src i stop = .ok (name, i + t.length) := by
  cases h with
  | @quoted quote name hquote hname =>
    have hisQuote := isQuote_of_or hquote
    have hascii := isQuote_lt hisQuote
    -- A quoted name has neither its quote nor a backslash inside.
    obtain ⟨hnot, hescape⟩ := hname.not_mem hisQuote
    have hbacktick : quote ≠ backtick := by rcases hquote with rfl | rfl <;> decide
    have hinner := hat.left.tail.left.slice (Bound.after_ascii haligned hat.left.head hascii)
      (Bound.of_ascii hat.left.tail.right.head hascii)
    have hend : i + name.length + 2 - 1 = i + 1 + name.length := by omega
    have hcontains : name.contains backslash = false := by simpa using hescape
    rw [propertyName, byteAt, hat.left.head]
    simp only [Reading.ok_bind, hisQuote, if_true, if_neg hbacktick,
      skipString_eq hat.left.head hisQuote, after_plain hat.left hisQuote hnot hescape, hend,
      hinner, hcontains, Bool.false_eq_true, if_false]
    rw [List.length_cons, List.length_append, List.length_singleton, Nat.add_assoc]
    rfl
  | bare hne hname =>
    obtain ⟨c, tail, hcons⟩ := List.exists_cons_of_ne_nil hne
    have hc := hname c (hcons ▸ List.mem_cons_self)
    have hquote := (isNameByte_lt hc).2
    have hhead : src[i]? = some c := by
      rw [hcons] at hat
      exact hat.head
    -- A bare name ends where the first other byte is.
    have hrun : ((src.drop i).take (stop - i)).takeWhile isNameByte = t := by
      obtain ⟨front, back, rfl, rfl⟩ := hat
      obtain ⟨n, hn⟩ : ∃ n, stop - front.length = t.length + (n + 1) :=
        ⟨stop - front.length - t.length - 1, by omega⟩
      rw [List.append_assoc, List.drop_left, hn, List.append_assoc, List.take_length_add_append,
        List.cons_append, List.take_succ_cons, List.takeWhile_append_of_pos hname,
        List.takeWhile_cons_of_neg (by rw [hb]; decide), List.append_nil]
    have hpos : 0 < t.length := by rw [hcons]; exact Nat.succ_pos _
    rw [propertyName, byteAt, hhead]
    simp only [Reading.ok_bind, hquote, Bool.false_eq_true, if_false, hrun]
    rw [if_neg (by omega), hat.left.slice hstart hbound]
    rfl

/-- The byte a stream begins with. -/
theorem StreamSpelled.first {stream : StreamDecl} (h : StreamSpelled stream t) :
    ∃ b rest, t = b :: rest ∧ b < 128 ∧ isWs b = false ∧ b ≠ semicolon := by
  obtain ⟨name, w, w', body, hname, -, -, -, -, rfl⟩ := h
  cases hname with
  | @quoted quote name hquote _ =>
    refine ⟨quote, _, rfl, ?_⟩
    rcases hquote with rfl | rfl <;> decide
  | bare hne hname =>
    obtain ⟨c, tail, hcons⟩ := List.exists_cons_of_ne_nil hne
    have hc := hname c (hcons ▸ List.mem_cons_self)
    refine ⟨c, tail ++ w ++ colon :: (w' ++ bracketOpen :: (body ++ [bracketClose])),
      by rw [hcons]; rfl, (isNameByte_lt hc).1, ?_, ?_⟩
    · rw [← Bool.not_eq_true]
      intro hws
      rcases isWs_cases hws with rfl | rfl | rfl | rfl | rfl <;> cases hc
    · rintro rfl
      cases hc

/-- **A stream is read.** -/
theorem readStream_spelled {stream : StreamDecl} (haligned : Aligned src)
    (h : StreamSpelled stream t) (hat : At src t i) (hstop : i + t.length ≤ stop)
    (hbound : Bound src stop) (hstart : Bound src i) :
    ∃ s, readStream src stop i = .ok (s, i + t.length - 1) ∧ s.Declares stream := by
  obtain ⟨name, w, w', body, hname, hw, hw', hne, hbody, rfl⟩ := h
  have hlen : i + (name ++ w ++ colon :: (w' ++ bracketOpen :: (body ++ [bracketClose]))).length =
      i + name.length + w.length + 1 + w'.length + 1 + body.length + 1 := by
    simp only [List.length_append, List.length_cons, List.length_nil]
    omega
  rw [hlen] at hstop ⊢
  have hatW : At src (w ++ colon :: (w' ++ bracketOpen :: (body ++ [bracketClose])))
      (i + name.length) := by
    rw [List.append_assoc] at hat
    exact hat.right
  have hatColon := hatW.right
  have hatOpen := hatColon.tail.right
  have hcolon := skipWs_spaces hatW hw rfl
  have hopen := skipWs_spaces hatColon.tail hw' rfl
  have hboundColon := Bound.of_ascii hatColon.head (by decide)
  have hboundOpen := Bound.of_ascii hatOpen.head (by decide)
  have hboundName : Bound src (i + name.length) := bound_before_spaces hatW.left hw hboundColon
  -- The name ends before whitespace or the colon.
  obtain ⟨b, rest, hrest, hb⟩ : ∃ b rest, w ++ colon ::
      (w' ++ bracketOpen :: (body ++ [bracketClose])) = b :: rest ∧ isNameByte b = false := by
    cases w with
    | nil => exact ⟨colon, _, rfl, rfl⟩
    | cons b w =>
      refine ⟨b, _, rfl, ?_⟩
      rcases isWs_cases (hw b List.mem_cons_self) with rfl | rfl | rfl | rfl | rfl <;> rfl
  have hatName : At src (name ++ b :: rest) i := by
    rw [← hrest, ← List.append_assoc]
    exact hat
  have hread : propertyName src i stop = .ok (stream.name, i + name.length) :=
    propertyName_spelled haligned hname hatName hb (by omega) hstart hboundName
  have hclose := balanced_nested (.inr ⟨rfl, rfl⟩) (nested_events hbody) hatOpen
  obtain ⟨events, hevents, hall⟩ := parseEntries_spelled haligned hbody hne hatOpen.tail.left
    (Bound.after_ascii haligned hatOpen.head (by decide))
    (Bound.of_ascii hatOpen.tail.right.head (by decide))
  refine ⟨{ name := stream.name, events := events }, ?_, rfl, hall⟩
  rw [readStream, hread, Reading.ok_bind]
  dsimp only
  rw [hcolon, slice_eq hboundColon hbound (by omega), Reading.ok_bind, head_slice (by omega),
    hatColon.head, if_neg (not_not.mpr rfl), hopen, slice_eq hboundOpen hbound (by omega),
    Reading.ok_bind, head_slice (by omega), hatOpen.head, if_neg (not_not.mpr rfl), hclose,
    Reading.ok_bind, hevents]
  rfl

/-- What may stand before a stream, apart from whitespace: the separator of the one before. -/
def Lead (lead : Text) : Prop := lead = [] ∨ ∃ w, Spaces w ∧ lead = w ++ [semicolon]

/-- The separator and whitespace are skipped. -/
theorem skipSemicolons_lead {lead rest : Text} (hlead : Lead lead) (hw : Spaces w)
    (hb : b < 128 ∧ isWs b = false ∧ b ≠ semicolon)
    (hat : At src (lead ++ (w ++ b :: rest)) i)
    (hle : i + lead.length + w.length ≤ stop) (hstop : Bound src stop) :
    skipSemicolons src stop (src.length + 1) (skipWs src i) =
      .ok (i + lead.length + w.length) := by
  obtain ⟨hascii, hws, hne⟩ := hb
  have hatW := hat.right
  have hhead := hatW.right.head
  have hlen := lt_length_of_getElem hhead
  have hskip := skipWs_spaces hatW hw hws
  -- At the byte behind them the loop stops, with whatever fuel is left.
  have hend (fuel : ℕ) : skipSemicolons src stop (fuel + 1) (i + lead.length + w.length) =
      .ok (i + lead.length + w.length) := by
    rw [skipSemicolons, slice_eq (Bound.of_ascii hhead hascii) hstop hle, Reading.ok_bind, if_neg]
    · rfl
    · intro heq
      have hc := ((head_slice_iff hle).mp heq).2
      rw [hhead] at hc
      exact hne (Option.some.inj hc)
  rcases hlead with rfl | ⟨w₀, hw₀, rfl⟩
  · -- No separator is in front,
    exact hskip ▸ hend src.length
  · -- or there is one, behind whitespace.
    rw [List.append_assoc, List.singleton_append] at hat
    have hsemicolon := hat.right.head
    have hskip₀ := skipWs_spaces hat hw₀ rfl
    rw [List.length_append, List.length_singleton] at hle hskip hlen hend ⊢
    obtain ⟨fuel, hfuel⟩ : ∃ k, src.length = k + 1 := ⟨src.length - 1, by omega⟩
    rw [hskip₀, skipSemicolons, slice_eq (Bound.of_ascii hsemicolon (by decide)) hstop (by omega),
      Reading.ok_bind, head_slice (by omega), hsemicolon, if_pos rfl, Nat.add_assoc i, hskip, hfuel]
    exact hend fuel

/-- Nothing but whitespace is left of the interface. -/
theorem streamsLoop_end {lead : Text} {fuel : ℕ} (hlead : Lead lead) (hw : Spaces w)
    (hat : At src (lead ++ (w ++ [braceClose])) i)
    (hstop : stop = i + lead.length + w.length) (before : List Stream) :
    streamsLoop src stop (fuel + 1) i before = .ok before := by
  have hbound : Bound src stop := by
    rw [hstop]
    exact Bound.of_ascii hat.right.right.head (by decide)
  rw [streamsLoop, skipSemicolons_lead hlead hw (by decide) hat hstop.ge hbound,
    Reading.ok_bind, if_pos hstop.le]
  rfl

/-- One stream of the interface is read. -/
theorem streamsLoop_item {lead rest : Text} {stream : StreamDecl} (haligned : Aligned src)
    (hlead : Lead lead) (hw : Spaces w) (h : StreamSpelled stream t)
    (hat : At src (lead ++ (w ++ (t ++ rest))) i)
    (hle : i + lead.length + w.length + t.length ≤ stop) (hstop : Bound src stop) :
    ∃ s, s.Declares stream ∧ ∀ fuel before, streamsLoop src stop (fuel + 1) i before =
      streamsLoop src stop fuel (i + lead.length + w.length + t.length) (before ++ [s]) := by
  obtain ⟨b, tail, hcons, hb⟩ := h.first
  have hpos : 0 < t.length := by rw [hcons]; exact Nat.succ_pos _
  have hatStream : At src t (i + lead.length + w.length) := hat.right.right.left
  have hstart : Bound src (i + lead.length + w.length) := by
    rw [hcons] at hatStream
    exact Bound.of_ascii hatStream.head hb.1
  have hatByte : At src (lead ++ (w ++ b :: (tail ++ rest))) i := by rwa [hcons] at hat
  have hskip := skipSemicolons_lead hlead hw hb hatByte (by omega) hstop
  obtain ⟨s, hread, hdeclares⟩ := readStream_spelled haligned h hatStream hle hstop hstart
  refine ⟨s, hdeclares, fun fuel before => ?_⟩
  rw [streamsLoop, hskip, Reading.ok_bind, if_neg (by omega), hread, Reading.ok_bind]
  dsimp only
  rw [Nat.sub_add_cancel (by omega)]

/-- **The streams of the interface are read.** -/
theorem streamsLoop_spelled {streams : List StreamDecl} {lead : Text} {fuel : ℕ}
    (haligned : Aligned src) (h : Listed [semicolon] StreamSpelled streams t) (hlead : Lead lead)
    (hat : At src (lead ++ (t ++ [braceClose])) i) (hstop : stop = i + lead.length + t.length)
    (hfuel : src.length < i + fuel) (before : List Stream) :
    ∃ read, streamsLoop src stop fuel i before = .ok (before ++ read) ∧
      List.Forall₂ Stream.Declares read streams := by
  have hbound : Bound src stop := by
    rw [hstop]
    exact Bound.of_ascii hat.right.right.head (by decide)
  have hlen := hat.le
  simp only [List.length_append, List.length_singleton] at hlen
  obtain ⟨fuel, rfl⟩ : ∃ k, fuel = k + 1 := ⟨fuel - 1, by omega⟩
  induction h generalizing i lead before fuel with
  | none hw =>
    rw [streamsLoop_end hlead hw hat hstop]
    exact ⟨[], by rw [List.append_nil], .nil⟩
  | @one w t w' stream hw hs hw' =>
    have hat' : At src (lead ++ (w ++ (t ++ (w' ++ [braceClose])))) i := by
      simpa only [List.append_assoc] using hat
    simp only [List.length_append] at hstop hlen
    -- The last stream, and what is behind it up to the brace.
    obtain ⟨s, hdeclares, hloop⟩ :=
      streamsLoop_item haligned hlead hw hs hat' (by omega : _ ≤ stop) hbound
    obtain ⟨fuel, rfl⟩ : ∃ k, fuel = k + 1 := ⟨fuel - 1, by omega⟩
    refine ⟨[s], ?_, .cons hdeclares .nil⟩
    rw [hloop, streamsLoop_end (.inl rfl : Lead []) hw' hat'.right.right.right]
    rw [List.length_nil]
    omega
  | @more w t w' rest stream c as hw hs hw' hc _ ih =>
    obtain rfl := List.mem_singleton.mp hc
    have hat' : At src (lead ++ (w ++ (t ++ (w' ++ [semicolon] ++ (rest ++ [braceClose]))))) i := by
      simpa only [List.append_assoc, List.cons_append, List.nil_append] using hat
    simp only [List.length_append, List.length_cons] at hstop hlen
    obtain ⟨s, hdeclares, hloop⟩ :=
      streamsLoop_item haligned hlead hw hs hat' (by omega : _ ≤ stop) hbound
    have hpos : 0 < t.length := by
      obtain ⟨b, tail, rfl, -⟩ := hs.first
      exact Nat.succ_pos _
    obtain ⟨fuel, rfl⟩ : ∃ k, fuel = k + 1 := ⟨fuel - 1, by omega⟩
    -- The separator is what leads the rest.
    obtain ⟨read, hrest, hall⟩ := ih (.inr ⟨w', hw', rfl⟩) hat'.right.right.right
      (by simp only [List.length_append, List.length_singleton]; omega) (before ++ [s])
      (by simp only [List.length_append, List.length_singleton]; omega) fuel (by omega)
    refine ⟨s :: read, ?_, .cons hdeclares hall⟩
    rw [hloop, hrest, List.append_assoc]
    rfl

end Streams

end Codegen

end RocketSocket
