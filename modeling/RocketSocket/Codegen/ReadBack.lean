import RocketSocket.Codegen.Format

/-!
# The codegen parser reads a whole file

The header is found where it stands, because no part of it is the beginning of another, and
blanking comments changes nothing where there are none.  So `parse` reads the file of any
declaration back, with every stream and entry in order.

## Main results

* `find_needle` — the header is found behind any text without it.
* `stripComments_inert` — nothing is blanked out of a text without comments.
* `parseStripped_spelled` — the interface is read.
* `parse_spelled` — **`parse` reads its whole format.**
-/

namespace RocketSocket

namespace Codegen

open Machine Utf8

/-! ### The header -/

theorem find_byte {b : UInt8} {t rest : Text} (h : b ∉ t) :
    find [b] (t ++ b :: rest) = some t.length := by
  refine find_eq_some ?_ fun k hk => ?_
  · rw [List.drop_left]
    exact ⟨rest, rfl⟩
  · rintro ⟨back, hback⟩
    rw [List.drop_append_of_le_length hk.le, List.drop_eq_getElem_cons hk] at hback
    exact h ((List.cons.inj hback).1 ▸ List.getElem_mem hk)

/-- The header is found behind any text without it: only its first byte is an `i`, so it cannot
begin in the text and end in itself. -/
theorem find_needle {front rest : Text} (h : ¬ needle <:+: front) :
    find needle (front ++ (needle ++ rest)) = some front.length := by
  have hunique : ∀ d < needle.length, 0 < d → needle[d]? ≠ some 105 := by decide
  refine find_eq_some ?_ fun k hk => ?_
  · rw [List.drop_left]
    exact List.prefix_append needle rest
  · rintro ⟨back, hback⟩
    rw [List.drop_append_of_le_length hk.le] at hback
    rcases Nat.lt_or_ge (front.length - k) needle.length with hlt | hge
    · have hget := congrArg (fun t : Text => t[front.length - k]?) hback
      rw [List.getElem?_append_left hlt, List.getElem?_append_right (by rw [List.length_drop]),
        List.length_drop, Nat.sub_self, List.getElem?_append_left (by decide)] at hget
      exact hunique _ hlt (by omega) hget
    · have hfront : needle <+: front.drop k := by
        have htake := congrArg (List.take needle.length) hback
        rw [List.take_left, List.take_append_of_le_length (by rwa [List.length_drop])] at htake
        rw [htake]
        exact List.take_prefix _ _
      exact h (hfront.isInfix.trans (List.drop_suffix k front).isInfix)

/-- **The interface is read.** -/
theorem parseStripped_spelled {streams : List StreamDecl} {front w body back : Text}
    (hfront : ¬ needle <:+: front) (hw : Spaces w) (hne : streams ≠ [])
    (h : Listed [semicolon] StreamSpelled streams body)
    (haligned : Aligned (front ++ (needle ++ w ++ braceOpen :: (body ++ braceClose :: back)))) :
    ∃ catalog,
      parseStripped (front ++ (needle ++ w ++ braceOpen :: (body ++ braceClose :: back))) =
        .ok catalog ∧ List.Forall₂ Stream.Declares catalog.streams streams := by
  set src := front ++ (needle ++ w ++ braceOpen :: (body ++ braceClose :: back)) with hsrc
  have hheader : find needle src = some front.length := by
    rw [hsrc, List.append_assoc]
    exact find_needle hfront
  -- Between the header and its brace there is whitespace only.
  have hbrace : find [braceOpen] (src.drop front.length) = some (needle ++ w).length := by
    rw [hsrc, List.drop_left]
    refine find_byte fun hmem => ?_
    rcases List.mem_append.mp hmem with hmem | hmem
    · exact absurd hmem (by decide)
    · exact absurd (hw _ hmem) (by decide)
  have hat : At src (braceOpen :: (body ++ [braceClose]))
      (front.length + (needle ++ w).length) :=
    ⟨front ++ (needle ++ w), back, by simp [hsrc], List.length_append⟩
  have hbound : Bound src front.length := by
    refine Bound.of_ascii (b := 105) ?_ (by decide)
    rw [hsrc, List.getElem?_append_right le_rfl, Nat.sub_self]
    rfl
  -- The streams are well nested, so the brace that closes them is the last one.
  have hclose := balanced_nested (.inl ⟨rfl, rfl⟩) (nested_streams h) hat
  have hat' : At src ([] ++ (body ++ [braceClose])) (front.length + (needle ++ w).length + 1) :=
    hat.tail
  obtain ⟨read, hread, hall⟩ : ∃ read,
      streamsLoop src (front.length + (needle ++ w).length + 1 + body.length) (src.length + 1)
          (front.length + (needle ++ w).length + 1) [] = .ok ([] ++ read) ∧
        List.Forall₂ Stream.Declares read streams :=
    streamsLoop_spelled haligned h (.inl rfl : Lead []) hat' rfl (by omega) []
  have hsome : read.isEmpty = false := by
    rw [List.isEmpty_eq_false_iff]
    rintro rfl
    cases hall
    exact hne rfl
  refine ⟨{ streams := read }, ?_, hall⟩
  rw [parseStripped, hheader]
  dsimp only
  rw [sliceFrom_eq hbound, Reading.ok_bind, hbrace]
  dsimp only
  rw [hclose, Reading.ok_bind, hread, Reading.ok_bind, List.nil_append, hsome]
  rfl

/-! ### Texts without comments -/

/-- The loop of `stripComments` with all its fuel goes on from the second state. -/
abbrev StripLeads (src : Text) : ℕ × Text → ℕ × Text → Prop :=
  Leads (fun fuel s => stripLoop src fuel s.1 s.2) Prod.fst src.length

section Strip

variable {src t o : Text} {i k : ℕ} {b : UInt8} {seps : List UInt8}

/-- A byte that begins neither a string nor a comment is copied. -/
theorem stripLeads_code (hb : src[i]? = some b) (hquote : isQuote b = false)
    (hcomment : b = slash → src[i + 1]? ≠ some slash ∧ src[i + 1]? ≠ some star) :
    StripLeads src (i, o) (i + 1, o ++ [b]) := by
  refine Leads.step (fun fuel => ?_) (lt_length_of_getElem hb).le (Nat.lt_succ_self i)
  dsimp only
  rw [stripLoop, hb]
  simp only [hquote, Bool.false_eq_true, if_false]
  rw [if_neg (fun h => (hcomment h.1).1 h.2), if_neg (fun h => (hcomment h.1).2 h.2)]

/-- A string is copied. -/
theorem stripLeads_string (hb : src[i]? = some b) (hquote : isQuote b = true) :
    StripLeads src (i, o)
      (after src i b, o ++ (src.drop i).take (after src i b - i)) := by
  refine Leads.step (fun fuel => ?_) (lt_length_of_getElem hb).le (lt_after hb)
  dsimp only
  rw [stripLoop, hb]
  simp only [hquote, if_true, skipString_eq hb hquote, Reading.ok_bind,
    byteSlice_eq (lt_after hb).le (after_le hb)]

theorem stripLeads_plain (hat : At src (b :: (t ++ [b])) i) (hquote : isQuote b = true)
    (ht : b ∉ t) (hescape : backslash ∉ t) : StripLeads src (i, o)
      (i + (b :: (t ++ [b])).length, o ++ b :: (t ++ [b])) := by
  have hend : after src i b = i + (b :: (t ++ [b])).length := by
    rw [after_plain hat hquote ht hescape, List.length_cons, List.length_append,
      List.length_singleton]
    omega
  have h := stripLeads_string (o := o) hat.head hquote
  rwa [hend, Nat.add_sub_cancel_left, hat.take] at h

/-- A nested text has no comments. -/
theorem Nested.stripLeads (h : Nested seps k t) (hat : At src t i) :
    StripLeads src (i, o) (i + t.length, o ++ t) := by
  induction h generalizing i o with
  | nil =>
    rw [List.append_nil]
    exact Leads.refl _
  | @code seps k b t hcode _ _ ih =>
    -- A byte of code is copied.
    obtain ⟨hquote, -, -, -, -, hslash⟩ := isCode_cases hcode
    have hfirst := stripLeads_code (o := o) hat.head hquote fun heq => absurd heq hslash
    have hrest := ih (o := o ++ [b]) hat.tail
    rw [List.append_assoc, List.singleton_append] at hrest
    rw [List.length_cons, Nat.add_comm t.length, ← Nat.add_assoc]
    exact hfirst.trans hrest
  | @string seps k quote s t hquote hs hescape _ ih =>
    -- A string is copied as a whole.
    have hrest := ih (o := o ++ quote :: (s ++ [quote])) hat.right
    rw [List.append_assoc] at hrest
    rw [List.length_append, ← Nat.add_assoc]
    exact (stripLeads_plain hat.left hquote hs hescape).trans hrest
  | @group seps k opens closes inner t hmatch _ _ ihinner ih =>
    -- A group is copied bracket by bracket: neither of the two opens a comment.
    have hslash : opens ≠ slash ∧ closes ≠ slash := by
      rcases hmatch with ⟨rfl, rfl⟩ | ⟨rfl, rfl⟩ <;> decide
    obtain ⟨hopens, hcloses, -⟩ := hmatch.facts
    have hat' : At src (inner ++ ([closes] ++ t)) (i + 1) := by
      rw [← List.append_assoc]
      exact hat.tail
    have hfirst := stripLeads_code (o := o) hat.head hopens fun heq => absurd heq hslash.1
    have hmiddle := ihinner (o := o ++ [opens]) hat'.left
    have hlast := stripLeads_code (o := o ++ [opens] ++ inner) hat'.right.left.head hcloses
      fun heq => absurd heq hslash.2
    have hrest := ih (o := o ++ [opens] ++ inner ++ [closes]) hat'.right.right
    have hlen : i + (opens :: (inner ++ [closes]) ++ t).length =
        i + 1 + inner.length + 1 + t.length := by
      simp only [List.length_append, List.length_cons, List.length_nil]
      omega
    have ho : o ++ (opens :: (inner ++ [closes]) ++ t) =
        o ++ [opens] ++ inner ++ [closes] ++ t := by simp
    rw [hlen, ho]
    exact hfirst.trans (hmiddle.trans (hlast.trans hrest))

theorem Inert.tail (h : Inert (b :: t)) : Inert t :=
  ⟨fun c hc => h.quotes c (List.mem_cons_of_mem b hc),
    fun hpart => h.line (hpart.trans (List.suffix_cons b t).isInfix),
    fun hpart => h.block (hpart.trans (List.suffix_cons b t).isInfix)⟩

/-- A text without quotes and comments is copied. -/
theorem Inert.stripLeads (h : Inert t) (hat : At src t i)
    (hnext : src[i + t.length]? ≠ some slash ∧ src[i + t.length]? ≠ some star) :
    StripLeads src (i, o) (i + t.length, o ++ t) := by
  induction t generalizing i o with
  | nil =>
    rw [List.append_nil]
    exact Leads.refl _
  | cons b t ih =>
    rw [List.length_cons, Nat.add_comm t.length, ← Nat.add_assoc] at hnext ⊢
    -- A slash that is followed by one or by a star would open a comment.
    have hcomment : b = slash → src[i + 1]? ≠ some slash ∧ src[i + 1]? ≠ some star := by
      rintro rfl
      cases t with
      | nil => exact hnext
      | cons c t =>
        rw [hat.tail.head]
        constructor
        · intro heq
          cases heq
          exact h.line ⟨[], t, rfl⟩
        · intro heq
          cases heq
          exact h.block ⟨[], t, rfl⟩
    have hfirst := stripLeads_code (o := o) hat.head (h.quotes b List.mem_cons_self) hcomment
    have hrest := ih (o := o ++ [b]) h.tail hat.tail hnext
    rw [List.append_assoc, List.singleton_append] at hrest
    exact hfirst.trans hrest

end Strip

/-- A text without comments stays as it is. -/
theorem stripComments_inert {front middle back : Text} {seps : List UInt8} {k : ℕ}
    {chars : List Char} (hchars : encode chars = front ++ (middle ++ back))
    (hfront : Inert front) (hmiddle : Nested seps k middle) (hback : Inert back)
    (hfirst : middle.head? ≠ some slash ∧ middle.head? ≠ some star) (hne : middle ≠ []) :
    stripComments (encode chars) = .ok (encode chars) := by
  set src := encode chars with hsrc
  have hatFront : At src front 0 := ⟨[], middle ++ back, hchars, rfl⟩
  have hatMiddle : At src middle front.length := ⟨front, back, by simp [hchars], rfl⟩
  have hatBack : At src back (front.length + middle.length) :=
    ⟨front ++ middle, [], by simp [hchars], List.length_append⟩
  have hlen : src.length = front.length + middle.length + back.length := by
    rw [hchars, List.length_append, List.length_append, Nat.add_assoc]
  have hnext : src[0 + front.length]? = middle.head? := by
    obtain ⟨b, rest, rfl⟩ := List.exists_cons_of_ne_nil hne
    rw [Nat.zero_add, hatMiddle.head]
    rfl
  have hend : src[front.length + middle.length + back.length]? = none := by
    rw [List.getElem?_eq_none_iff, hlen]
  -- The three parts are copied one after the other,
  have hleads : StripLeads src (0, []) (src.length, src) := by
    have h₁ := hfront.stripLeads (o := []) hatFront (by rwa [hnext])
    have h₂ := hmiddle.stripLeads (o := [] ++ front) hatMiddle
    have h₃ := hback.stripLeads (o := [] ++ front ++ middle) hatBack (by rw [hend]; simp)
    rw [Nat.zero_add] at h₁
    have hall := h₁.trans (h₂.trans h₃)
    rwa [List.nil_append, List.append_assoc, ← hchars, ← hlen] at hall
  -- and the loop ends with the text.
  have hloop : stripLoop src (src.length + 1) 0 [] = .ok src := by
    refine Leads.eq hleads (by dsimp only; omega) fun fuel hfuel => ?_
    obtain ⟨fuel, rfl⟩ : ∃ n, fuel = n + 1 := ⟨fuel - 1, by dsimp only at hfuel; omega⟩
    dsimp only
    rw [stripLoop, List.getElem?_eq_none_iff.mpr le_rfl]
  rw [stripComments, hloop, Reading.ok_bind, hsrc, fromUtf8_encode]

/-- A file of the format has no comments, -/
theorem InterfaceSpelled.stripComments {streams : List StreamDecl} {chars : List Char}
    (h : InterfaceSpelled streams (encode chars)) :
    stripComments (encode chars) = .ok (encode chars) := by
  obtain ⟨front, w, body, back, hfront, -, hw, -, hbody, hback, htext⟩ := h
  have hmiddle : Nested [] 4 (needle ++ w ++ braceOpen :: (body ++ [braceClose])) := by
    refine Nested.append ?_ (nested_group (.inl ⟨rfl, rfl⟩) (nested_streams hbody))
    exact ((nested_of_word (List.all_eq_true.mp (by decide))).append hw.nested).mono (Nat.zero_le 4)
      (List.nil_subset _)
  have hchars : encode chars = front ++
      ((needle ++ w ++ braceOpen :: (body ++ [braceClose])) ++ back) := by
    rw [htext]
    simp
  have hfirst : (needle ++ w ++ braceOpen :: (body ++ [braceClose])).head? = some 105 := rfl
  exact stripComments_inert hchars hfront hmiddle hback (by rw [hfirst]; decide) (by simp)

/-- and its interface is read. -/
theorem InterfaceSpelled.parseStripped {streams : List StreamDecl} {t : Text}
    (h : InterfaceSpelled streams t) (haligned : Aligned t) :
    ∃ catalog, parseStripped t = .ok catalog ∧
      List.Forall₂ Stream.Declares catalog.streams streams := by
  obtain ⟨front, w, body, back, -, hneedle, hw, hne, hbody, -, rfl⟩ := h
  exact parseStripped_spelled hneedle hw hne hbody haligned

/-- **`parse` reads its whole format.** -/
theorem parse_spelled (source : String) (streams : List StreamDecl)
    (h : InterfaceSpelled streams (text source)) :
    ∃ catalog, parse source = .ok catalog ∧
      List.Forall₂ Stream.Declares catalog.streams streams := by
  have hstrip : Codegen.stripComments (text source) = .ok (text source) := h.stripComments
  obtain ⟨catalog, hread, hall⟩ := h.parseStripped (aligned_encode source.toList)
  exact ⟨catalog, by rw [parse, parseText, hstrip, Reading.ok_bind, hread], hall⟩

/-- A stream with one entry, whose arguments are a tuple or an array. -/
theorem parse_spelled_stream : ∃ catalog,
    parse "interface StreamerEvents\x7ba: [\x7bkey: 'k'; args: | [A, b?: B] | C[]\x7d];\x7d" =
      .ok catalog ∧ List.Forall₂ Stream.Declares catalog.streams
        [{ name := text "a",
           events := [{ key := .literal (text "k"), args := [.tuple 1 1, .array] }] }] := by
  have hnil : Spaces [] := fun b hb => absurd hb List.not_mem_nil
  have hspace : Spaces [32] := List.all_eq_true.mp (by decide)
  have hname {b : UInt8} (hws : isWs b = false) (hword : isWordByte b = true) : Name [b] :=
    ⟨Solid.singleton hws, List.forall_mem_singleton.mpr hword⟩
  have helements : Listed [comma] ElementSpelled [false, true] (text "A, b?: B") :=
    @Listed.more Bool [comma] ElementSpelled [] (text "A") [] (text " b?: B") false comma [true]
      hnil (.bare (hname rfl rfl)) hnil (by decide)
      (@Listed.one Bool [comma] ElementSpelled [32] (text "b?: B") [] true hspace
        (@ElementSpelled.labelledOptional (text "b") [] [] [32] (text "B") (hname rfl rfl) hnil
          hnil hspace (hname rfl rfl)) hnil)
  have halternatives : Listed [bar] AlternativeSpelled [.tuple 1 1, .array]
      (text " [A, b?: B] | C[]") :=
    @Listed.more Alternative [bar] AlternativeSpelled [32] (text "[A, b?: B]") [32]
      (text " C[]") (.tuple 1 1) bar [.array] hspace
      (@AlternativeSpelled.tuple 1 1 (text "A, b?: B") helements) hspace (by decide)
      (@Listed.one Alternative [bar] AlternativeSpelled [32] (text "C[]") [] .array hspace
        (@AlternativeSpelled.array (text "C") (hname rfl rfl)) hnil)
  have hargs : ArgsSpelled [.tuple 1 1, .array] (text "| [A, b?: B] | C[]") :=
    ⟨by decide, ⟨⟨bar, _, rfl, rfl⟩, ⟨text "| [A, b?: B] | C[", 93, rfl, rfl⟩⟩,
      .inr ⟨[], _, hnil, halternatives, rfl⟩⟩
  have hkey : KeySpelled (.literal (text "k")) (text "'k'") :=
    @KeySpelled.literal singleQuote (text "k") (.inl rfl)
      (List.forall_mem_singleton.mpr (by decide))
  have hmembers : Listed [semicolon, comma] MemberSpelled
      [.key (.literal (text "k")), .args [.tuple 1 1, .array]]
      (text "key: 'k'; args: | [A, b?: B] | C[]") :=
    @Listed.more Member [semicolon, comma] MemberSpelled [] (text "key: 'k'") []
      (text " args: | [A, b?: B] | C[]") _ semicolon _ hnil
      (@MemberSpelled.key _ [] [32] (text "'k'") hnil hspace hkey) hnil (by decide)
      (@Listed.one Member [semicolon, comma] MemberSpelled [32]
        (text "args: | [A, b?: B] | C[]") [] _ hspace
        (@MemberSpelled.args _ [] [32] (text "| [A, b?: B] | C[]") hnil hspace hargs) hnil)
  have hevents : Listed [comma] EventSpelled
      [{ key := .literal (text "k"), args := [.tuple 1 1, .array] }]
      (text "\x7bkey: 'k'; args: | [A, b?: B] | C[]\x7d") :=
    @Listed.one EventDecl [comma] EventSpelled []
      (text "\x7bkey: 'k'; args: | [A, b?: B] | C[]\x7d") [] _ hnil
      ⟨_, _, .inl rfl, hmembers, rfl⟩ hnil
  have hstreams : Listed [semicolon] StreamSpelled
      [{ name := text "a",
         events := [{ key := .literal (text "k"), args := [.tuple 1 1, .array] }] }]
      (text "a: [\x7bkey: 'k'; args: | [A, b?: B] | C[]\x7d];") :=
    @Listed.more StreamDecl [semicolon] StreamSpelled []
      (text "a: [\x7bkey: 'k'; args: | [A, b?: B] | C[]\x7d]") [] [] _ semicolon [] hnil
      ⟨text "a", [], [32], _, .bare (by decide) (List.all_eq_true.mp (by decide)), hnil, hspace,
        by decide, hevents, rfl⟩ hnil (by decide) (.none hnil)
  have hinert : Inert [] := ⟨fun b hb => absurd hb List.not_mem_nil, by decide, by decide⟩
  exact parse_spelled _ _
    ⟨[], [], _, [], hinert, by decide, hnil, by decide, hstreams, hinert, rfl⟩

end Codegen

end RocketSocket
