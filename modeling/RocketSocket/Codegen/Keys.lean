import RocketSocket.Codegen.Format
import RocketSocket.Model.Catalog

/-!
# From a key to its pattern

A key of the interface is classified by `parse_key`, written by `render_catalog` as an
expression of the generated module, and read by the compiler as a pattern that an event name
is matched with.  Declared key and pattern agree where the key has no carriage return, which
the compiler leaves out or refuses, and the text before the slash of a prefix has no slash
itself: an event name is split at its first one.

## Main definitions

* `quote`, `KeyPattern.render` — the expression that is emitted.
* `normalizeNewlines`, `readLiteral`, `compileKey` — the pattern that it is.
* `KeyMatches` — the pattern of a key matches what the key stands for.

## Main results

* `parseKey_cases` — the keys that are accepted.
* `compileKey_render` — what becomes of the text of a pattern.
* `keyMatches_iff` — **a pattern matches what it was generated from**, just if the key has no
  carriage return and its prefix no slash.
-/

namespace RocketSocket

namespace Codegen

open Machine Utf8

/-- The carriage return, which a literal drops before a newline. -/
abbrev carriageReturn : UInt8 := 13

/-! ### The pattern that is emitted -/

/-- One character of a string literal. -/
def escape (b : UInt8) : Text :=
  if b = doubleQuote then [backslash, doubleQuote]
  else if b = backslash then [backslash, backslash]
  else [b]

/-- Renders a string literal. -/
def quote (value : Text) : Text := doubleQuote :: (value.flatMap escape ++ [doubleQuote])

/-- A variant of `KeyPattern` with a text. -/
def variant (name : String) (value : Text) : Text :=
  text "KeyPattern::" ++ (text name ++ parenOpen :: (quote value ++ [parenClose]))

/-- The `key` of an `EventSpec`, as `render_catalog` writes it. -/
def KeyPattern.render : KeyPattern → Text
  | literal v => variant "Literal" v
  | suffixed v => variant "Suffix" v
  | prefixed v => variant "Prefix" v
  | any => text "KeyPattern::Any"

/-! ### The pattern that is compiled -/

/-- The compiler reads a carriage return and a newline as a newline. -/
def normalizeNewlines : Text → Text
  | [] => []
  | b :: rest =>
    if b = carriageReturn ∧ rest.head? = some newline then normalizeNewlines rest
    else b :: normalizeNewlines rest

/-- The value of a string literal after its first quote, and what is after the literal;
`escaped` says that a backslash has just been read.  There are only the escapes that `quote`
writes, and a carriage return is refused. -/
def readLiteral (escaped : Bool) : Text → Option (Text × Text)
  | [] => none
  | b :: rest =>
    if escaped then
      if b = doubleQuote ∨ b = backslash then
        (readLiteral false rest).map fun read => (b :: read.1, read.2)
      else none
    else if b = doubleQuote then some ([], rest)
    else if b = carriageReturn then none
    else if b = backslash then readLiteral true rest
    else (readLiteral false rest).map fun read => (b :: read.1, read.2)

/-- A string literal in parentheses. -/
def readArgument (t : Text) : Option String := do
  let rest ← stripFront [parenOpen, doubleQuote] t
  let (value, rest) ← readLiteral false rest
  if rest = [parenClose] then decode value else none

/-- The variant that a path names, with its field if it has one. -/
def readVariant (name argument : Text) : Option RocketSocket.KeyPattern :=
  if name = text "Any" then if argument = [] then some .any else none
  else if name = text "Literal" then (readArgument argument).map .literal
  else if name = text "Suffix" then (readArgument argument).map .suffix
  else if name = text "Prefix" then (readArgument argument).map .prefixed
  else none

/-- The pattern that an expression of the generated module is. -/
def compileKey (emitted : Text) : Option RocketSocket.KeyPattern := do
  let rest ← stripFront (text "KeyPattern::") (normalizeNewlines emitted)
  readVariant (rest.takeWhile isAlphanumeric) (rest.dropWhile isAlphanumeric)

/-- The pattern of a key matches what the key stands for: an event name that has any text
without a slash in the place of the hole, or the event name that it quotes. -/
structure KeyMatches (key : String) (p : KeyPattern) : Prop where
  template : ∀ front back v : List Char,
    key.toList = '\x60' :: (front ++ "$\x7bstring\x7d".toList ++ back ++ ['\x60']) →
    v ≠ [] → '/' ∉ v →
    (compileKey p.render).any (fun q => q.matchesKey (String.ofList (front ++ v ++ back))) = true
  literal : ∀ quote inner, quote = '\'' ∨ quote = '"' →
    key.toList = quote :: (inner ++ [quote]) → ∀ concrete : String,
    ((compileKey p.render).any fun q => q.matchesKey concrete) = true ↔
      concrete = String.ofList inner

/-! ### What becomes of the text -/

section Text

variable {a t v : Text} {b : UInt8}

theorem normalizeNewlines_append (h : carriageReturn ∉ a) :
    normalizeNewlines (a ++ t) = a ++ normalizeNewlines t := by
  induction a with
  | nil => rfl
  | cons b a ih =>
    obtain ⟨hb, ha⟩ := not_or.mp (List.mem_cons.not.mp h)
    rw [List.cons_append, normalizeNewlines, if_neg (fun hcr => hb hcr.1.symm), ih ha,
      List.cons_append]

theorem normalizeNewlines_eq (h : carriageReturn ∉ t) : normalizeNewlines t = t := by
  have hnil := normalizeNewlines_append (t := []) h
  rwa [List.append_nil, normalizeNewlines, List.append_nil] at hnil

/-- Nothing else is left out. -/
theorem mem_normalizeNewlines (hb : b ∈ t) (hne : b ≠ carriageReturn) :
    b ∈ normalizeNewlines t := by
  induction t with
  | nil => exact hb
  | cons c t ih =>
    rw [normalizeNewlines]
    split
    · next hcr =>
      rcases List.mem_cons.mp hb with rfl | hb
      · exact absurd hcr.1 hne
      · exact ih hb
    · rcases List.mem_cons.mp hb with rfl | hb
      · exact List.mem_cons_self
      · exact List.mem_cons_of_mem c (ih hb)

theorem escape_head (b : UInt8) : (escape b).head? = some newline ↔ b = newline := by
  rw [escape]
  split
  · next h =>
    rw [h]
    decide
  · split
    · next h =>
      rw [h]
      decide
    · simp

theorem escape_carriageReturn (h : b ≠ carriageReturn) : carriageReturn ∉ escape b := by
  rw [escape]
  split
  · decide
  · split
    · decide
    · simpa using h.symm

/-- Escapes and line breaks do not meet. -/
theorem normalizeNewlines_escape (hb : t.head? ≠ some newline) (ht : carriageReturn ∉ t) :
    normalizeNewlines (v.flatMap escape ++ t) = (normalizeNewlines v).flatMap escape ++ t := by
  induction v with
  | nil => exact normalizeNewlines_eq ht
  | cons b v ih =>
    -- An escape begins with a backslash or the byte itself, so no newline comes to the front.
    have hhead : (v.flatMap escape ++ t).head? = some newline ↔ v.head? = some newline := by
      cases v with
      | nil => simpa using hb
      | cons c v =>
        obtain ⟨d, tail, hd⟩ : ∃ d tail, escape c = d :: tail := by
          rw [escape]
          split
          · exact ⟨_, _, rfl⟩
          · split <;> exact ⟨_, _, rfl⟩
        have hc := escape_head c
        rw [hd] at hc
        rw [List.flatMap_cons, hd]
        simpa using hc
    rw [List.flatMap_cons, List.append_assoc, normalizeNewlines]
    by_cases hcr : b = carriageReturn
    · -- A carriage return is written as it is, and goes just if a newline follows.
      subst hcr
      have hescape : escape carriageReturn = [carriageReturn] := by decide
      rw [hescape, List.singleton_append, normalizeNewlines, ih]
      simp only [true_and, hhead]
      split
      · rfl
      · rw [List.flatMap_cons, hescape]
        rfl
    · rw [if_neg (fun h => hcr h.1), normalizeNewlines_append (escape_carriageReturn hcr), ih,
        List.flatMap_cons, List.append_assoc]

theorem readLiteral_escape_cons (h : b ≠ carriageReturn) :
    readLiteral false (escape b ++ t) =
      (readLiteral false t).map fun read => (b :: read.1, read.2) := by
  rw [escape]
  split
  · next hb =>
    subst hb
    rfl
  · next hquote =>
    split
    · next hb =>
      subst hb
      rfl
    · next hslash =>
      rw [List.singleton_append, readLiteral, if_neg Bool.false_ne_true, if_neg hquote, if_neg h,
        if_neg hslash]

/-- An escaped text is read back, if there is no carriage return in it. -/
theorem readLiteral_escape (v rest : Text) :
    readLiteral false (v.flatMap escape ++ doubleQuote :: rest) =
      if carriageReturn ∈ v then none else some (v, rest) := by
  induction v with
  | nil => rfl
  | cons b v ih =>
    rw [List.flatMap_cons, List.append_assoc]
    by_cases hb : b = carriageReturn
    · subst hb
      rw [if_pos List.mem_cons_self]
      rfl
    · rw [readLiteral_escape_cons hb, ih]
      simp only [List.mem_cons, Ne.symm hb, false_or]
      split <;> rfl

theorem normalizeNewlines_quote (ht : carriageReturn ∉ t) :
    normalizeNewlines (quote v ++ t) = quote (normalizeNewlines v) ++ t := by
  have hquote : carriageReturn ∉ [doubleQuote] := by decide
  have hend : carriageReturn ∉ doubleQuote :: t := by
    rw [List.mem_cons]
    exact not_or.mpr ⟨by decide, ht⟩
  have hbody := normalizeNewlines_escape (v := v) (t := doubleQuote :: t)
    (fun h => absurd (Option.some.inj h) (by decide)) hend
  have hall := normalizeNewlines_append (t := v.flatMap escape ++ doubleQuote :: t) hquote
  rw [hbody] at hall
  simpa [quote] using hall

theorem readArgument_quote (v : Text) :
    readArgument (parenOpen :: (quote v ++ [parenClose])) =
      if carriageReturn ∈ v then none else decode v := by
  have hfront : stripFront [parenOpen, doubleQuote] (parenOpen :: (quote v ++ [parenClose])) =
      some (v.flatMap escape ++ doubleQuote :: [parenClose]) := by
    have happend := stripFront_append [parenOpen, doubleQuote]
      (v.flatMap escape ++ doubleQuote :: [parenClose])
    simpa [quote] using happend
  rw [readArgument, hfront, Option.bind_eq_bind, Option.bind_some, readLiteral_escape]
  split <;> rfl

/-- The value that the compiler reads for an emitted text. -/
def compiledValue (v : Text) : Option String :=
  if carriageReturn ∈ normalizeNewlines v then none else decode (normalizeNewlines v)

/-- The pattern that the compiler reads for an emitted one. -/
def KeyPattern.compiled : KeyPattern → Option RocketSocket.KeyPattern
  | literal v => (compiledValue v).map .literal
  | suffixed v => (compiledValue v).map .suffix
  | prefixed v => (compiledValue v).map .prefixed
  | any => some .any

theorem compileKey_variant (name : String)
    (hname : ∀ b ∈ text name, isAlphanumeric b = true) (v : Text) :
    compileKey (variant name v) =
      readVariant (text name) (parenOpen :: (quote (normalizeNewlines v) ++ [parenClose])) := by
  have hpath : carriageReturn ∉ text "KeyPattern::" := by decide
  have hname' : carriageReturn ∉ text name ++ [parenOpen] := by
    rw [List.mem_append]
    rintro (h | h)
    · exact absurd (hname _ h) (by decide)
    · exact absurd h (by decide)
  have hnormal : normalizeNewlines (text name ++ parenOpen :: (quote v ++ [parenClose])) =
      text name ++ parenOpen :: (quote (normalizeNewlines v) ++ [parenClose]) := by
    rw [List.append_cons, normalizeNewlines_append hname', normalizeNewlines_quote (by decide),
      List.append_assoc, List.singleton_append]
  rw [compileKey, variant, normalizeNewlines_append hpath, hnormal, stripFront_append,
    Option.bind_eq_bind, Option.bind_some, List.takeWhile_append_of_pos hname,
    List.dropWhile_append_of_pos hname, List.takeWhile_cons_of_neg (by decide),
    List.dropWhile_cons_of_neg (by decide), List.append_nil]

/-- **What becomes of the text of a pattern.** -/
theorem compileKey_render (p : KeyPattern) : compileKey p.render = p.compiled := by
  cases p with
  | literal v =>
    rw [KeyPattern.render, compileKey_variant _ (List.all_eq_true.mp (by decide)), readVariant,
      if_neg (by decide), if_pos rfl, readArgument_quote]
    rfl
  | suffixed v =>
    rw [KeyPattern.render, compileKey_variant _ (List.all_eq_true.mp (by decide)), readVariant,
      if_neg (by decide), if_neg (by decide), if_pos rfl, readArgument_quote]
    rfl
  | prefixed v =>
    rw [KeyPattern.render, compileKey_variant _ (List.all_eq_true.mp (by decide)), readVariant,
      if_neg (by decide), if_neg (by decide), if_neg (by decide), if_pos rfl, readArgument_quote]
    rfl
  | any => decide

end Text

/-! ### The keys that are accepted -/

section Accepted

variable {t r front back inner src key : Text} {start stop : ℕ} {p : KeyPattern}

theorem stripFront_eq_some (h : stripFront front t = some r) : t = front ++ r := by
  rw [stripFront] at h
  split at h
  · next hfront =>
    obtain ⟨rest, rfl⟩ := List.isPrefixOf_iff_prefix.mp hfront
    rw [List.drop_left, Option.some.injEq] at h
    rw [h]
  · cases h

theorem stripBack_eq_some (h : stripBack back t = some r) : t = r ++ back := by
  rw [stripBack] at h
  split at h
  · next hback =>
    obtain ⟨rest, rfl⟩ := List.isSuffixOf_iff_suffix.mp hback
    rw [List.length_append, Nat.add_sub_cancel, List.take_left, Option.some.injEq] at h
    rw [h]
  · cases h

theorem stripQuotes_eq_some {quote : UInt8} (h : stripQuotes t quote = some inner) :
    t = quote :: (inner ++ [quote]) := by
  rw [stripQuotes, Option.bind_eq_bind, Option.bind_eq_some_iff] at h
  obtain ⟨inner', hinner, h⟩ := h
  obtain ⟨rest, hfront, hback⟩ := Option.bind_eq_some_iff.mp hinner
  split at h
  · cases h
  · obtain rfl := Option.some.inj h
    rw [stripFront_eq_some hfront, stripBack_eq_some hback]
    rfl

/-- The bytes that begin a hole are nowhere in the text. -/
def Holeless (t : Text) : Prop := ∀ k, ¬ [dollar, braceOpen] <+: t.drop k

theorem holeless_of_hasPart (h : hasPart t [dollar, braceOpen] = false) : Holeless t := by
  intro k hk
  rw [hasPart, Option.isSome_eq_false_iff, Option.isNone_iff_eq_none] at h
  induction t generalizing k with
  | nil =>
    rw [List.drop_nil] at hk
    exact absurd (List.prefix_nil.mp hk) (by decide)
  | cons b t ih =>
    rw [find] at h
    split at h
    · cases h
    · next hnot =>
      cases k with
      | zero => exact hnot (List.isPrefixOf_iff_prefix.mpr hk)
      | succ k => exact ih (Option.map_eq_none_iff.mp h) k hk

theorem suffixOf_eq_some (h : suffixOf inner = some r) :
    inner = hole ++ slash :: r ∧ Holeless r := by
  rw [suffixOf, Option.bind_eq_bind, Option.bind_eq_some_iff] at h
  obtain ⟨r', hr, h⟩ := h
  obtain ⟨rest, hhole, hslash⟩ := Option.bind_eq_some_iff.mp hr
  split at h
  · next hcond =>
    obtain rfl := Option.some.inj h
    simp only [Bool.and_eq_true, Bool.not_eq_true'] at hcond
    refine ⟨?_, holeless_of_hasPart hcond.2⟩
    rw [stripFront_eq_some hhole, stripFront_eq_some hslash]
    rfl
  · cases h

theorem prefixOf_eq_some (h : prefixOf inner = some r) :
    inner = r ++ slash :: hole ∧ Holeless r := by
  rw [prefixOf, Option.bind_eq_bind, Option.bind_eq_some_iff] at h
  obtain ⟨r', hr, h⟩ := h
  obtain ⟨rest, hhole, hslash⟩ := Option.bind_eq_some_iff.mp hr
  split at h
  · next hcond =>
    obtain rfl := Option.some.inj h
    simp only [Bool.and_eq_true, Bool.not_eq_true'] at hcond
    refine ⟨?_, holeless_of_hasPart hcond.2⟩
    rw [stripBack_eq_some hhole, stripBack_eq_some hslash, List.append_assoc]
    rfl
  · cases h

/-- A key that is accepted, and its pattern. -/
inductive Accepted : Text → KeyPattern → Prop
  | literal {quote : UInt8} {inner : Text} : quote = singleQuote ∨ quote = doubleQuote →
      Accepted (quote :: (inner ++ [quote])) (.literal inner)
  | string : Accepted (text "string") .any
  | hole : Accepted (backtick :: (hole ++ [backtick])) .any
  | suffixed {t : Text} : Holeless t →
      Accepted (backtick :: (Codegen.hole ++ slash :: t ++ [backtick])) (.suffixed t)
  | prefixed {t : Text} : Holeless t →
      Accepted (backtick :: (t ++ slash :: Codegen.hole ++ [backtick])) (.prefixed t)

/-- **The keys that are accepted.** -/
theorem parseKey_cases (hslice : slice src start stop = .ok key)
    (h : parseKey src start stop = .ok p) : Accepted key p := by
  rw [parseKey, hslice, Reading.ok_bind] at h
  -- A quoted key,
  split at h
  · next inner hinner =>
    split at h
    · exact absurd h err_ne_ok
    · cases h
      rcases Option.or_eq_some_iff.mp hinner with hquote | ⟨-, hquote⟩
      · rw [stripQuotes_eq_some hquote]
        exact .literal (.inl rfl)
      · rw [stripQuotes_eq_some hquote]
        exact .literal (.inr rfl)
  · -- any string,
    split at h
    · next hstring =>
      cases h
      rw [hstring]
      exact .string
    · -- or a template: the hole alone, with a suffix, or with a prefix.
      split at h
      · next inner hinner =>
        rw [stripQuotes_eq_some hinner]
        split at h
        · next hhole =>
          cases h
          rw [hhole]
          exact .hole
        · split at h
          · next t ht =>
            cases h
            obtain ⟨hinner', hless⟩ := suffixOf_eq_some ht
            rw [hinner']
            exact .suffixed hless
          · split at h
            · next t ht =>
              cases h
              obtain ⟨hinner', hless⟩ := prefixOf_eq_some ht
              rw [hinner']
              exact .prefixed hless
            · exact absurd h err_ne_ok
      · exact absurd h err_ne_ok

/-- There is one hole in a suffix, -/
theorem hole_suffixed {a b : Text} (hless : Holeless t)
    (h : a ++ hole ++ b = hole ++ slash :: t) : a = [] ∧ b = slash :: t := by
  rw [List.append_assoc] at h
  have hget : (hole ++ slash :: t)[a.length]? = some dollar := by
    rw [← h, List.getElem?_append_right le_rfl, Nat.sub_self]
    rfl
  have hother : ∀ n < 10, 0 < n → (hole ++ [slash])[n]? ≠ some dollar := by decide
  rcases Nat.eq_zero_or_pos a.length with hzero | hpos
  · obtain rfl := List.length_eq_zero_iff.mp hzero
    exact ⟨rfl, List.append_cancel_left h⟩
  · rw [List.append_cons] at hget h
    rcases Nat.lt_or_ge a.length 10 with hlt | hge
    · rw [List.getElem?_append_left hlt] at hget
      exact absurd hget (hother _ hlt hpos)
    · have hlen : (hole ++ [slash]).length ≤ a.length := hge
      have hdrop := congrArg (List.drop a.length) h
      rw [List.drop_left, List.drop_append, List.drop_of_length_le hlen, List.nil_append] at hdrop
      exact absurd ⟨_, hdrop⟩ (hless _)

/-- and one in a prefix. -/
theorem hole_prefixed {a b : Text} (hless : Holeless t)
    (h : a ++ hole ++ b = t ++ slash :: hole) : a = t ++ [slash] ∧ b = [] := by
  rw [List.append_assoc, List.append_cons] at h
  have hlen := congrArg List.length h
  simp only [List.length_append, List.length_singleton] at hlen
  have hget (k : ℕ) (hk : k < 9) : ((t ++ [slash]) ++ hole)[a.length + k]? = hole[k]? := by
    rw [← h, List.getElem?_append_right (Nat.le_add_right _ _), Nat.add_sub_cancel_left,
      List.getElem?_append_left hk]
  have hslash : ((t ++ [slash]) ++ hole)[t.length]? = some slash := by
    rw [List.append_assoc, List.getElem?_append_right le_rfl, Nat.sub_self]
    rfl
  rcases Nat.lt_or_ge t.length a.length with hlt | hge
  · have heq : a.length = (t ++ [slash]).length := by
      rw [List.length_append, List.length_singleton]
      omega
    obtain ⟨ha, hb⟩ := List.append_inj h heq
    exact ⟨ha, List.append_right_eq_self.mp hb⟩
  · exfalso
    -- A hole further to the front would have to begin in the prefix or at the slash.
    have hfirst := hget 0 (by omega)
    have hsecond := hget 1 (by omega)
    rcases Nat.lt_or_ge (a.length + 1) t.length with hlt | hge'
    · have hdrop := congrArg (List.drop a.length) h
      rw [List.drop_left, List.append_assoc, List.drop_append_of_le_length hge] at hdrop
      have hhole : [dollar, braceOpen] <+: hole ++ b := ⟨hole.drop 2 ++ b, rfl⟩
      have hrest : t.drop a.length <+: hole ++ b := ⟨_, hdrop.symm⟩
      refine hless a.length (List.prefix_of_prefix_length_le hhole hrest ?_)
      rw [List.length_drop]
      exact (by omega : 2 ≤ t.length - a.length)
    · rcases Nat.eq_or_lt_of_le hge with heq | hlt
      · rw [Nat.add_zero, heq, hslash] at hfirst
        exact absurd hfirst (by decide)
      · rw [show a.length + 1 = t.length by omega, hslash] at hsecond
        exact absurd hsecond (by decide)

/-- **The keys whose pattern is a prefix.** -/
theorem Accepted.prefixed_iff {front : Text} (h : Accepted t p) :
    p = .prefixed front ↔ t = backtick :: (front ++ slash :: Codegen.hole ++ [backtick]) := by
  constructor
  · rintro rfl
    cases h
    rfl
  · intro ht
    cases h with
    | literal hquote =>
      rw [List.cons.injEq] at ht
      obtain rfl | rfl := hquote
      · exact absurd ht.1 (by decide)
      · exact absurd ht.1 (by decide)
    | string => exact absurd (List.cons.inj ht).1 (by decide)
    | hole =>
      -- The hole alone is too short.
      have hlen := congrArg List.length ht
      simp only [List.length_cons, List.length_append] at hlen
      omega
    | @suffixed r hless =>
      have hinner := List.append_cancel_right (List.cons.inj ht).2
      have hsplit : (front ++ [slash]) ++ Codegen.hole ++ [] = Codegen.hole ++ slash :: r := by
        rw [List.append_nil, ← List.append_cons, hinner]
      exact absurd (hole_suffixed hless hsplit).1 (by simp)
    | prefixed hless =>
      rw [List.append_cancel_right (List.append_cancel_right (List.cons.inj ht).2)]

end Accepted

/-! ### Characters -/

section Characters

variable {key : String} {inner t : Text} {b : UInt8} {c : Char} {chars : List Char}

/-- What a byte encloses is what its character encloses. -/
theorem exists_enclosed (h : text key = b :: (inner ++ [b])) (hc : String.utf8EncodeChar c = [b])
    (hb : b < 128) : ∃ chars, key.toList = c :: (chars ++ [c]) ∧ inner = encode chars := by
  obtain ⟨front, back, hkey, hfront, hback⟩ := exists_encode_ascii (a := []) h hc hb
  obtain rfl := encode_eq_nil hfront.symm
  obtain ⟨chars, back', rfl, hinner, hback'⟩ := exists_encode_ascii hback.symm hc hb
  -- The hole alone is shorter.
  obtain rfl := encode_eq_nil hback'.symm
  exact ⟨chars, hkey, hinner⟩

theorem compiledValue_encode (h : carriageReturn ∉ encode chars) :
    compiledValue (encode chars) = some (String.ofList chars) := by
  rw [compiledValue, normalizeNewlines_eq h, if_neg h, decode_encode]

/-- A text is compiled without its carriage returns. -/
theorem compiledValue_eq_some {s : String} (h : compiledValue t = some s) :
    encode s.toList = normalizeNewlines t ∧ carriageReturn ∉ encode s.toList := by
  rw [compiledValue] at h
  split at h
  · cases h
  · next hnot =>
    have heq := decode_eq_some h
    rw [heq]
    exact ⟨rfl, hnot⟩

end Characters

/-! ### The pattern matches the key -/

section Matches

variable {key : String} {p : KeyPattern} {t : Text}

theorem hole_eq : encode "$\x7bstring\x7d".toList = hole := rfl

/-- A quoted key. -/
theorem keyMatches_literal {b : UInt8} {inner : Text}
    (hquote : b = singleQuote ∨ b = doubleQuote) (h : text key = b :: (inner ++ [b])) :
    KeyMatches key (.literal inner) ↔ carriageReturn ∉ text key := by
  obtain ⟨c, hc, hencode, hb⟩ : ∃ c, (c = '\'' ∨ c = '"') ∧ String.utf8EncodeChar c = [b] ∧
      b < 128 := by
    rcases hquote with rfl | rfl
    · exact ⟨'\'', .inl rfl, rfl, by decide⟩
    · exact ⟨'"', .inr rfl, rfl, by decide⟩
  have hcr : carriageReturn ∈ text key ↔ carriageReturn ∈ inner := by
    rw [h]
    rcases hquote with rfl | rfl <;> simp [carriageReturn, singleQuote, doubleQuote]
  obtain ⟨chars, hkey, rfl⟩ := exists_enclosed h hencode hb
  rw [hcr]
  constructor
  · intro hmatches
    -- The string that is quoted matches, so the literal has been read as it was.
    have hself := (hmatches.literal c chars hc hkey (String.ofList chars)).mpr rfl
    rw [compileKey_render, KeyPattern.compiled, Option.any_map, Option.any_eq_true] at hself
    obtain ⟨s, hs, heq⟩ := hself
    obtain rfl : String.ofList chars = s := by simpa [RocketSocket.KeyPattern.matchesKey] using heq
    have hnot := (compiledValue_eq_some hs).2
    rwa [String.toList_ofList] at hnot
  · intro hnot
    have hcompiled : compileKey (KeyPattern.literal (encode chars)).render =
        some (.literal (String.ofList chars)) := by
      rw [compileKey_render, KeyPattern.compiled, compiledValue_encode hnot]
      rfl
    constructor
    · -- A quoted key is no template.
      intro front back v htemplate
      rw [hkey, List.cons.injEq] at htemplate
      obtain ⟨rfl, -⟩ := htemplate
      rcases hc with hc | hc <;> exact absurd hc (by decide)
    · intro quote inner _ hinner concrete
      rw [hkey, List.cons.injEq] at hinner
      obtain ⟨rfl, hinner⟩ := hinner
      obtain rfl := List.append_cancel_right hinner
      rw [hcompiled]
      simp [RocketSocket.KeyPattern.matchesKey]

/-- What is in backticks is no string literal. -/
theorem not_quoted {chars inner : List Char} {quote : Char}
    (hkey : key.toList = '\x60' :: (chars ++ ['\x60'])) (hquote : quote = '\'' ∨ quote = '"') :
    key.toList ≠ quote :: (inner ++ [quote]) := by
  intro hinner
  rw [hkey, List.cons.injEq] at hinner
  rcases hquote with rfl | rfl <;> exact absurd hinner.1 (by decide)

theorem mem_backticks {inner : Text} (h : text key = backtick :: (inner ++ [backtick])) :
    carriageReturn ∈ text key ↔ carriageReturn ∈ inner := by
  rw [h]
  simp [carriageReturn, backtick]

/-- A text has one first slash. -/
theorem first_slash {a b a' b' : List Char} (h : a ++ '/' :: b = a' ++ '/' :: b')
    (ha : '/' ∉ a) (ha' : '/' ∉ a') : a = a' ∧ b = b' := by
  have hsplit {c d : List Char} (hc : '/' ∉ c) :
      splitOnce '/' (String.ofList (c ++ '/' :: d)) = some (String.ofList c, String.ofList d) := by
    rw [splitOnce_eq_some, String.toList_ofList, String.toList_ofList, String.toList_ofList]
    exact ⟨rfl, hc⟩
  have heq := hsplit (d := b) ha
  rw [h, hsplit ha', Option.some.injEq, Prod.mk.injEq] at heq
  exact ⟨(String.ofList_injective heq.1).symm, (String.ofList_injective heq.2).symm⟩

/-- A hole with a suffix. -/
theorem keyMatches_suffixed (hless : Holeless t)
    (h : text key = backtick :: (hole ++ slash :: t ++ [backtick])) :
    KeyMatches key (.suffixed t) ↔ carriageReturn ∉ text key := by
  have hcr : carriageReturn ∈ text key ↔ carriageReturn ∈ t := by
    rw [mem_backticks h, List.mem_append, List.mem_cons]
    exact ⟨fun hmem => (hmem.resolve_left (by decide)).resolve_left (by decide),
      fun hmem => .inr (.inr hmem)⟩
  obtain ⟨chars, hkey, hchars⟩ := exists_enclosed (c := '\x60') h rfl (by decide)
  obtain ⟨front, ending, rfl, hfront, rfl⟩ :=
    exists_encode_ascii (c := '/') hchars.symm rfl (by decide)
  obtain rfl : front = "$\x7bstring\x7d".toList := encode_injective hfront.symm
  rw [hcr]
  constructor
  · intro hmatches
    -- The template with `x` in the hole has to match.
    have hself := hmatches.template [] ('/' :: ending) ['x'] (by rw [hkey]; simp) (by simp)
      (by decide)
    rw [compileKey_render, KeyPattern.compiled, Option.any_map, Option.any_eq_true] at hself
    obtain ⟨s, hs, heq⟩ := hself
    obtain ⟨head, -, hsplit, hhead⟩ := RocketSocket.KeyPattern.matchesKey_suffix.mp heq
    rw [String.toList_ofList, List.nil_append] at hsplit
    obtain ⟨-, rfl⟩ := first_slash hsplit (by decide) hhead
    exact (compiledValue_eq_some hs).2
  · intro hnot
    constructor
    · -- Whatever stands in the hole, the first slash is the one behind it.
      intro front back v htemplate hv hslash
      rw [hkey, List.cons.injEq] at htemplate
      have hinner := congrArg encode (List.append_cancel_right htemplate.2)
      rw [encode_append, encode_append, encode_append, hole_eq] at hinner
      obtain ⟨hfront, hback⟩ := hole_suffixed hless hinner.symm
      obtain rfl := encode_eq_nil hfront
      obtain rfl : back = '/' :: ending := encode_injective hback
      rw [compileKey_render, KeyPattern.compiled, compiledValue_encode hnot, Option.map_some,
        Option.any_some, RocketSocket.KeyPattern.matchesKey_suffix]
      refine ⟨String.ofList v, fun hempty => hv (String.ofList_injective hempty), ?_, ?_⟩
      · rw [String.toList_ofList, String.toList_ofList, String.toList_ofList, List.nil_append]
      · rwa [String.toList_ofList]
    · exact fun quote inner hquote hinner => absurd hinner (not_quoted hkey hquote)

/-- A prefix with a hole. -/
theorem keyMatches_prefixed (hless : Holeless t)
    (h : text key = backtick :: (t ++ slash :: hole ++ [backtick])) :
    KeyMatches key (.prefixed t) ↔ carriageReturn ∉ text key ∧ slash ∉ t := by
  have hcr : carriageReturn ∈ text key ↔ carriageReturn ∈ t := by
    rw [mem_backticks h, List.mem_append, List.mem_cons]
    exact ⟨fun hmem => hmem.resolve_right fun hend =>
      (hend.resolve_left (by decide)) |> absurd <| by decide, fun hmem => .inl hmem⟩
  obtain ⟨chars, hkey, hchars⟩ := exists_enclosed (c := '\x60') h rfl (by decide)
  obtain ⟨start, back, rfl, rfl, hback⟩ :=
    exists_encode_ascii (c := '/') hchars.symm rfl (by decide)
  obtain rfl : back = "$\x7bstring\x7d".toList := encode_injective hback.symm
  have hslash (s : List Char) : slash ∈ encode s ↔ '/' ∈ s :=
    mem_encode_ascii rfl (by decide)
  rw [hcr, hslash]
  constructor
  · intro hmatches
    -- The template with `x` in the hole has to match: the prefix ends at the first slash.
    have hself := hmatches.template (start ++ ['/']) [] ['x'] (by rw [hkey]; simp) (by simp)
      (by decide)
    rw [compileKey_render, KeyPattern.compiled, Option.any_map, Option.any_eq_true] at hself
    obtain ⟨s, hs, heq⟩ := hself
    obtain ⟨rest, -, hsplit, hstart⟩ := RocketSocket.KeyPattern.matchesKey_prefixed.mp heq
    obtain ⟨hnormal, hnot⟩ := compiledValue_eq_some hs
    have hslash' : '/' ∉ start := by
      rw [← hslash]
      intro hmem
      have hmem' := mem_normalizeNewlines hmem (by decide)
      rw [← hnormal, hslash] at hmem'
      exact hstart hmem'
    rw [String.toList_ofList, List.append_nil, List.append_assoc] at hsplit
    obtain ⟨hstart', -⟩ := first_slash hsplit hslash' hstart
    rw [hstart']
    exact ⟨hnot, hstart⟩
  · rintro ⟨hnot, hslash'⟩
    constructor
    -- Whatever stands in the hole, the first slash is the one in front of it.
    · intro front back v htemplate hv hslash
      rw [hkey, List.cons.injEq] at htemplate
      have hinner := congrArg encode (List.append_cancel_right htemplate.2)
      rw [encode_append, encode_append, encode_append, hole_eq] at hinner
      obtain ⟨hfront, hback⟩ := hole_prefixed hless hinner.symm
      obtain rfl := encode_eq_nil hback
      obtain rfl : front = start ++ ['/'] := by
        refine encode_injective ?_
        rw [hfront, encode_append]
        rfl
      rw [compileKey_render, KeyPattern.compiled, compiledValue_encode hnot, Option.map_some,
        Option.any_some, RocketSocket.KeyPattern.matchesKey_prefixed]
      refine ⟨String.ofList v, fun hempty => hv (String.ofList_injective hempty), ?_, ?_⟩
      · rw [String.toList_ofList, String.toList_ofList, String.toList_ofList, List.append_nil,
          List.append_assoc]
        rfl
      · rwa [String.toList_ofList]
    · exact fun quote inner hquote hinner => absurd hinner (not_quoted hkey hquote)

/-- Any event name at all. -/
theorem keyMatches_any
    (hkey : ∀ quote, quote = '\'' ∨ quote = '"' → key.toList.head? ≠ some quote) :
    KeyMatches key .any := by
  have hany : compileKey KeyPattern.any.render = some .any := compileKey_render .any
  constructor
  · intro front back v _ _ _
    rw [hany]
    rfl
  · intro quote inner hquote hinner
    refine absurd ?_ (hkey quote hquote)
    rw [hinner]
    rfl

/-- **A key and its pattern.** -/
theorem Accepted.matches_pattern (h : Accepted t p) (hkey : text key = t) :
    KeyMatches key p ↔ carriageReturn ∉ t ∧
      ∀ front, t = backtick :: (front ++ slash :: Codegen.hole ++ [backtick]) → slash ∉ front := by
  simp only [← h.prefixed_iff]
  subst hkey
  generalize htext : text key = t at h
  cases h with
  | literal hquote =>
    rw [keyMatches_literal hquote htext, htext]
    simp
  | string =>
    have hchars : key.toList = "string".toList := encode_injective htext
    refine iff_of_true (keyMatches_any ?_) ⟨by decide, by simp⟩
    rw [hchars]
    rintro quote (rfl | rfl) <;> decide
  | hole =>
    have hchars : key.toList = "\x60$\x7bstring\x7d\x60".toList := encode_injective htext
    refine iff_of_true (keyMatches_any ?_) ⟨by decide, by simp⟩
    rw [hchars]
    rintro quote (rfl | rfl) <;> decide
  | suffixed hless =>
    rw [keyMatches_suffixed hless htext, htext]
    simp
  | prefixed hless =>
    rw [keyMatches_prefixed hless htext, htext]
    simp

/-- A slice of a text is a text. -/
theorem exists_text {source : String} {start stop : ℕ} {t : Text}
    (h : slice (text source) start stop = .ok t) : ∃ key, text key = t := by
  rw [slice] at h
  split at h
  · next hbounds =>
    obtain ⟨hle, hlen, hstart, hstop⟩ := hbounds
    obtain ⟨part, hpart⟩ := exists_encode_between hle hlen hstart hstop
    cases h
    exact ⟨String.ofList part, by rw [text, String.toList_ofList]; exact hpart.symm⟩
  · cases h

/-- **A pattern matches what it was generated from**, just if the key has no carriage return
and its prefix no slash. -/
theorem keyMatches_iff (source : String) (start stop : ℕ) (p : KeyPattern)
    (h : parseKey (text source) start stop = .ok p) :
    ∃ key : String, slice (text source) start stop = .ok (text key) ∧
      (KeyMatches key p ↔ carriageReturn ∉ text key ∧
        ∀ front, text key = backtick :: (front ++ slash :: hole ++ [backtick]) →
          slash ∉ front) := by
  obtain ⟨t, hslice, -⟩ := Reading.bind_eq_ok.mp h
  obtain ⟨key, rfl⟩ := exists_text hslice
  exact ⟨key, hslice, (parseKey_cases hslice h).matches_pattern rfl⟩

theorem keyMatches_iff_suffix : ∃ key : String,
    slice (text "key: `$\x7bstring\x7d/typing`") 5 23 = .ok (text key) ∧
      (KeyMatches key (.suffixed (text "typing")) ↔ carriageReturn ∉ text key ∧
        ∀ front, text key = backtick :: (front ++ slash :: hole ++ [backtick]) →
          slash ∉ front) :=
  keyMatches_iff _ _ _ _ (by decide)

/-- A prefix of two segments is accepted, and its pattern matches nothing. -/
theorem not_keyMatches :
    parseKey (text "`a/b/$\x7bstring\x7d`") 0 15 = .ok (.prefixed (text "a/b")) ∧
      slice (text "`a/b/$\x7bstring\x7d`") 0 15 = .ok (text "`a/b/$\x7bstring\x7d`") ∧
        ¬ KeyMatches "`a/b/$\x7bstring\x7d`" (.prefixed (text "a/b")) := by
  refine ⟨by decide, by decide, fun hmatches => ?_⟩
  have hself := hmatches.template "a/b/".toList [] ['x'] rfl (by decide) (by decide)
  have hvalue : compiledValue (text "a/b") = some "a/b" := compiledValue_encode (by decide)
  rw [compileKey_render, KeyPattern.compiled, hvalue] at hself
  exact absurd hself (by decide)

end Matches

end Codegen

end RocketSocket
