import Mathlib.Tactic.Common
import RocketSocket.Lib.Utf8

/-!
# Constant items

What a compiler reads out of a run of `pub const` items: the tokens of the text, and the values,
which are strings, words, paths, calls, slices and records.  Whitespace and comments stand
between tokens, and a separator may stand behind the last item of a list, so a formatter that
moves either changes nothing.

## Main definitions

* `Token`, `Mode`, `scan`, `tokens` — the tokens of a text, one byte at a time.
* `Expr`, `expr`, `constants` — the values, and the items that name them.
* `Spells`, `SpellsItems`, `SpellsFields` — the tokens an expression may be written with.

## Main results

* `Scans.append` — texts are scanned one after the other.
* `Spells.read` — **an expression is read from any of its spellings**.
* `constants_spelled` — and so are the items.
-/

namespace Machine

namespace Constant

/-! ### Tokens -/

/-- A mark of punctuation. -/
inductive Mark where
  | amp
  | comma
  | colon
  | semicolon
  | equals
  | bracketOpen
  | bracketClose
  | parenOpen
  | parenClose
  | braceOpen
  | braceClose
  deriving DecidableEq, Repr

/-- The bytes of the marks. -/
def marks : List (UInt8 × Mark) := [(38, .amp), (44, .comma), (58, .colon), (59, .semicolon),
  (61, .equals), (91, .bracketOpen), (93, .bracketClose), (40, .parenOpen), (41, .parenClose),
  (123, .braceOpen), (125, .braceClose)]

/-- A token: an identifier, a number or a keyword; the value of a string; a mark. -/
inductive Token where
  | word (w : List UInt8)
  | string (value : List UInt8)
  | mark (m : Mark)
  deriving DecidableEq, Repr

/-- What the scanner is in the middle of, with the bytes of it read so far, last one first. -/
inductive Mode where
  | code
  /-- One slash, which has to be followed by another. -/
  | slash
  /-- A comment, up to the end of its line. -/
  | comment
  | word (back : List UInt8)
  | string (back : List UInt8)
  /-- A string, after a backslash. -/
  | escape (back : List UInt8)
  deriving DecidableEq, Repr

/-- A byte between tokens. -/
def isBlank (b : UInt8) : Bool := b == 9 || b == 10 || b == 32

/-- A byte of a word. -/
def isWord (b : UInt8) : Bool :=
  (48 ≤ b && b ≤ 57) || (65 ≤ b && b ≤ 90) || (97 ≤ b && b ≤ 122) || b == 95

/-- A byte outside of words, strings and comments. -/
def start (b : UInt8) : Option (List Token × Mode) :=
  if isBlank b then some ([], .code)
  else if isWord b then some ([], .word [b])
  else if b = 34 then some ([], .string [])
  else if b = 47 then some ([], .slash)
  else (marks.lookup b).map fun m => ([.mark m], .code)

/-- One byte: the tokens that end with it.  A string has only the escapes of the quote and of
the backslash, and a carriage return is refused, which a compiler does in strings and in
comments. -/
def step : Mode → UInt8 → Option (List Token × Mode)
  | .code, b => start b
  | .slash, b => if b = 47 then some ([], .comment) else none
  | .comment, b => if b = 13 then none else some ([], if b = 10 then .code else .comment)
  | .word back, b =>
    if isWord b then some ([], .word (b :: back))
    else (start b).map fun r => (.word back.reverse :: r.1, r.2)
  | .string back, b =>
    if b = 34 then some ([.string back.reverse], .code)
    else if b = 13 then none
    else if b = 92 then some ([], .escape back)
    else some ([], .string (b :: back))
  | .escape back, b => if b = 34 ∨ b = 92 then some ([], .string (b :: back)) else none

/-- The tokens that end in a text. -/
def scan : Mode → List UInt8 → Option (List Token × Mode)
  | m, [] => some ([], m)
  | m, b :: t => (step m b).bind fun r => (scan r.2 t).map fun r' => (r.1 ++ r'.1, r'.2)

/-- What is left at the end of the text. -/
def Mode.rest : Mode → Option (List Token)
  | .code | .comment => some []
  | .word back => some [.word back.reverse]
  | .slash | .string _ | .escape _ => none

/-- The tokens of a text. -/
def tokens (t : List UInt8) : Option (List Token) :=
  (scan .code t).bind fun r => r.2.rest.map fun rest => r.1 ++ rest

/-- A text that is scanned. -/
def Scans (m : Mode) (t : List UInt8) (ts : List Token) (m' : Mode) : Prop :=
  scan m t = some (ts, m')

section Scan

variable {m m' m'' : Mode} {b : UInt8} {t t' : List UInt8} {ts ts' : List Token}

theorem Scans.nil : Scans m [] [] m := rfl

theorem Scans.cons (hb : step m b = some (ts, m')) (h : Scans m' t ts' m'') :
    Scans m (b :: t) (ts ++ ts') m'' := by
  have h' : scan m' t = some (ts', m'') := h
  rw [Scans, scan, hb, Option.bind_some, h']
  rfl

/-- **Texts are scanned one after the other.** -/
theorem Scans.append (h : Scans m t ts m') (h' : Scans m' t' ts' m'') :
    Scans m (t ++ t') (ts ++ ts') m'' := by
  induction t generalizing m ts with
  | nil =>
    cases h
    exact h'
  | cons b t ih =>
    obtain ⟨r, hb, hr⟩ := Option.bind_eq_some_iff.mp h
    obtain ⟨r', hr', heq⟩ := Option.map_eq_some_iff.mp hr
    cases heq
    rw [List.append_assoc]
    exact Scans.cons hb (ih hr')

/-- There is no carriage return in a text that is scanned. -/
theorem Scans.plain (h : Scans m t ts m') : 13 ∉ t := by
  induction t generalizing m ts with
  | nil => exact List.not_mem_nil
  | cons b t ih =>
    obtain ⟨r, hb, hr⟩ := Option.bind_eq_some_iff.mp h
    obtain ⟨r', hr', heq⟩ := Option.map_eq_some_iff.mp hr
    cases heq
    rw [List.mem_cons, not_or]
    refine ⟨?_, ih hr'⟩
    rintro rfl
    cases m <;> cases hb

theorem Scans.tokens (h : Scans .code t ts .code) : tokens t = some ts := by
  have h' : scan .code t = some (ts, .code) := h
  rw [Constant.tokens, h', Option.bind_some]
  exact congrArg some (List.append_nil ts)

/-- The bytes of a word. -/
theorem scans_word (back : List UInt8) (ht : ∀ b ∈ t, isWord b = true) :
    Scans (.word back) t [] (.word (t.reverse ++ back)) := by
  induction t generalizing back with
  | nil => exact .nil
  | cons b t ih =>
    have hb : step (.word back) b = some ([], .word (b :: back)) :=
      if_pos (ht b List.mem_cons_self)
    rw [List.reverse_cons, List.append_assoc]
    exact Scans.cons hb (ih (b :: back) fun c hc => ht c (List.mem_cons_of_mem b hc))

/-- A word up to the byte that ends it. -/
theorem scans_ended (hne : t ≠ []) (ht : ∀ b ∈ t, isWord b = true) (hword : isWord b = false)
    (hb : start b = some (ts, m)) : Scans .code (t ++ [b]) (.word t :: ts) m := by
  cases t with
  | nil => exact absurd rfl hne
  | cons c t =>
    have hc : isWord c = true := ht c List.mem_cons_self
    have hblank : isBlank c = false := by
      rw [Bool.eq_false_iff]
      intro hblank
      simp only [isBlank, Bool.or_eq_true, beq_iff_eq] at hblank
      rcases hblank with (rfl | rfl) | rfl <;> exact absurd hc (by decide)
    have hfirst : step .code c = some ([], .word [c]) := by
      rw [step, start, hblank, if_neg Bool.false_ne_true, if_pos hc]
    have hrest := scans_word [c] fun b hb => ht b (List.mem_cons_of_mem c hb)
    have hlast : step (.word (t.reverse ++ [c])) b = some (.word (c :: t) :: ts, m) := by
      rw [step, hword, if_neg Bool.false_ne_true, hb]
      simp
    have hend : Scans (.word (t.reverse ++ [c])) [b] (.word (c :: t) :: ts) m := by
      have hone := Scans.cons hlast Scans.nil
      rwa [List.append_nil] at hone
    exact Scans.cons hfirst (hrest.append hend)

end Scan

/-! ### Expressions -/

/-- A constant expression. -/
inductive Expr where
  | string (value : List UInt8)
  /-- A number, or one of the truth values. -/
  | word (w : List UInt8)
  /-- A variant without fields. -/
  | path (type name : List UInt8)
  /-- A variant with a field. -/
  | call (type name : List UInt8) (arg : Expr)
  /-- A reference to an array. -/
  | list (items : List Expr)
  | record (type : List UInt8) (fields : List (List UInt8 × Expr))

mutual

/-- Reads an expression, and what is behind it. -/
def expr : ℕ → List Token → Option (Expr × List Token)
  | 0, _ => none
  | _ + 1, .string value :: rest => some (.string value, rest)
  | fuel + 1, .mark .amp :: .mark .bracketOpen :: rest =>
    (items fuel rest).map fun r => (.list r.1, r.2)
  | fuel + 1, .word w :: rest =>
    match rest with
    | .mark .colon :: .mark .colon :: .word name :: .mark .parenOpen :: rest =>
      match expr fuel rest with
      | some (arg, .mark .parenClose :: rest) => some (.call w name arg, rest)
      | _ => none
    | .mark .colon :: .mark .colon :: .word name :: rest => some (.path w name, rest)
    | .mark .braceOpen :: rest => (fields fuel rest).map fun r => (.record w r.1, r.2)
    | rest => some (.word w, rest)
  | _ + 1, _ => none

/-- Reads the items of an array, up to its end. -/
def items : ℕ → List Token → Option (List Expr × List Token)
  | 0, _ => none
  | _ + 1, .mark .bracketClose :: rest => some ([], rest)
  | fuel + 1, ts =>
    match expr fuel ts with
    | some (e, .mark .comma :: rest) => (items fuel rest).map fun r => (e :: r.1, r.2)
    | some (e, .mark .bracketClose :: rest) => some ([e], rest)
    | _ => none

/-- Reads the fields of a record, up to its end. -/
def fields : ℕ → List Token → Option (List (List UInt8 × Expr) × List Token)
  | 0, _ => none
  | _ + 1, .mark .braceClose :: rest => some ([], rest)
  | fuel + 1, .word name :: .mark .colon :: ts =>
    match expr fuel ts with
    | some (e, .mark .comma :: rest) => (fields fuel rest).map fun r => ((name, e) :: r.1, r.2)
    | some (e, .mark .braceClose :: rest) => some ([(name, e)], rest)
    | _ => none
  | _ + 1, _ => none

end

/-! ### Spellings -/

mutual

/-- The tokens of an expression. -/
inductive Spells : Expr → List Token → Prop
  | string (value : List UInt8) : Spells (.string value) [.string value]
  | word (w : List UInt8) : Spells (.word w) [.word w]
  | path (type name : List UInt8) :
      Spells (.path type name) [.word type, .mark .colon, .mark .colon, .word name]
  | call (type name : List UInt8) {arg : Expr} {ts : List Token} : Spells arg ts →
      Spells (.call type name arg) (.word type :: .mark .colon :: .mark .colon :: .word name ::
        .mark .parenOpen :: (ts ++ [.mark .parenClose]))
  | list {es : List Expr} {ts : List Token} : SpellsItems es ts →
      Spells (.list es) (.mark .amp :: .mark .bracketOpen :: ts)
  | record (type : List UInt8) {fs : List (List UInt8 × Expr)} {ts : List Token} :
      SpellsFields fs ts → Spells (.record type fs) (.word type :: .mark .braceOpen :: ts)

/-- The tokens of the items of an array, with its end. -/
inductive SpellsItems : List Expr → List Token → Prop
  | nil : SpellsItems [] [.mark .bracketClose]
  | last {e : Expr} {ts : List Token} : Spells e ts →
      SpellsItems [e] (ts ++ [.mark .bracketClose])
  | cons {e : Expr} {es : List Expr} {ts us : List Token} : Spells e ts → SpellsItems es us →
      SpellsItems (e :: es) (ts ++ .mark .comma :: us)

/-- The tokens of the fields of a record, with its end. -/
inductive SpellsFields : List (List UInt8 × Expr) → List Token → Prop
  | nil : SpellsFields [] [.mark .braceClose]
  | last {e : Expr} {ts : List Token} (name : List UInt8) : Spells e ts →
      SpellsFields [(name, e)] (.word name :: .mark .colon :: (ts ++ [.mark .braceClose]))
  | cons {e : Expr} {fs : List (List UInt8 × Expr)} {ts us : List Token} (name : List UInt8) :
      Spells e ts → SpellsFields fs us →
      SpellsFields ((name, e) :: fs) (.word name :: .mark .colon :: (ts ++ .mark .comma :: us))

end

/-- A mark that ends an expression. -/
def Mark.ends : Mark → Bool
  | .comma | .semicolon | .bracketClose | .parenClose | .braceClose => true
  | _ => false

/-- Behind an expression there is a mark that ends it. -/
inductive Ended : List Token → Prop
  | mk (m : Mark) (rest : List Token) : m.ends = true → Ended (.mark m :: rest)

section Read

variable {e : Expr} {es : List Expr} {fs : List (List UInt8 × Expr)} {ts rest : List Token}
  {fuel : ℕ}

/-- An array does not end with the first token of an item. -/
theorem Spells.head (h : Spells e ts) :
    ∃ t ts', ts = t :: ts' ∧ t ≠ .mark .bracketClose := by
  cases h <;> exact ⟨_, _, rfl, by simp⟩

/-- A word on its own. -/
theorem expr_word (w : List UInt8) (h : Ended rest) :
    expr (fuel + 1) (.word w :: rest) = some (.word w, rest) := by
  obtain ⟨m, rest, hm⟩ := h
  cases m <;> first | rfl | cases hm

/-- A path on its own. -/
theorem expr_path (type name : List UInt8) (h : Ended rest) :
    expr (fuel + 1) (.word type :: .mark .colon :: .mark .colon :: .word name :: rest) =
      some (.path type name, rest) := by
  obtain ⟨m, rest, hm⟩ := h
  cases m <;> first | rfl | cases hm

/-- The first item of an array. -/
theorem items_of_ne {t : Token} (ht : t ≠ .mark .bracketClose) :
    items (fuel + 1) (t :: ts) =
      match expr fuel (t :: ts) with
      | some (e, .mark .comma :: rest) => (items fuel rest).map fun r => (e :: r.1, r.2)
      | some (e, .mark .bracketClose :: rest) => some ([e], rest)
      | _ => none := by
  rw [items]
  rintro rest heq
  exact ht (List.cons.inj heq).1

mutual

/-- **An expression is read from any of its spellings**, up to the mark that ends it. -/
theorem Spells.read : ∀ {e : Expr} {ts : List Token}, Spells e ts →
    ∀ (fuel : ℕ) (rest : List Token), ts.length < fuel → Ended rest →
      expr fuel (ts ++ rest) = some (e, rest)
  | _, _, .string value, fuel + 1, rest, _, _ => rfl
  | _, _, .word w, fuel + 1, rest, _, hrest => expr_word w hrest
  | _, _, .path type name, fuel + 1, rest, _, hrest => expr_path type name hrest
  | _, _, .call type name harg, fuel + 1, rest, hfuel, hrest => by
    have hread := harg.read fuel (.mark .parenClose :: rest)
      (by simp at hfuel; omega) ⟨_, _, rfl⟩
    rw [List.cons_append, List.cons_append, List.cons_append, List.cons_append, List.cons_append,
      List.append_assoc, List.singleton_append, expr, hread]
  | _, _, .list hitems, fuel + 1, rest, hfuel, hrest => by
    have hread := hitems.read fuel rest (by simp at hfuel; omega)
    rw [List.cons_append, List.cons_append, expr, hread]
    rfl
  | _, _, .record type hfields, fuel + 1, rest, hfuel, hrest => by
    have hread := hfields.read fuel rest (by simp at hfuel; omega)
    rw [List.cons_append, List.cons_append, expr, hread]
    rfl

theorem SpellsItems.read : ∀ {es : List Expr} {ts : List Token}, SpellsItems es ts →
    ∀ (fuel : ℕ) (rest : List Token), ts.length < fuel → items fuel (ts ++ rest) = some (es, rest)
  | _, _, .nil, fuel + 1, rest, _ => rfl
  | _, _, .last he, fuel + 1, rest, hfuel => by
    have hread := he.read fuel (.mark .bracketClose :: rest)
      (by simp at hfuel; omega) ⟨_, _, rfl⟩
    obtain ⟨t, ts, rfl, ht⟩ := he.head
    rw [List.cons_append] at hread
    rw [List.append_assoc, List.cons_append, items_of_ne ht, List.singleton_append, hread]
  | _, _, @SpellsItems.cons e es ts us he hes, fuel + 1, rest, hfuel => by
    have hread := he.read fuel (.mark .comma :: (us ++ rest))
      (by simp at hfuel; omega) ⟨_, _, rfl⟩
    have hitems := hes.read fuel rest (by simp at hfuel; omega)
    obtain ⟨t, ts, rfl, ht⟩ := he.head
    rw [List.cons_append] at hread
    rw [List.append_assoc, List.cons_append, items_of_ne ht, List.cons_append, hread]
    simp only [hitems, Option.map_some]

theorem SpellsFields.read : ∀ {fs : List (List UInt8 × Expr)} {ts : List Token},
    SpellsFields fs ts → ∀ (fuel : ℕ) (rest : List Token), ts.length < fuel →
      fields fuel (ts ++ rest) = some (fs, rest)
  | _, _, .nil, fuel + 1, rest, _ => rfl
  | _, _, .last name he, fuel + 1, rest, hfuel => by
    have hread := he.read fuel (.mark .braceClose :: rest)
      (by simp at hfuel; omega) ⟨_, _, rfl⟩
    rw [List.cons_append, List.cons_append, List.append_assoc, List.singleton_append, fields, hread]
  | _, _, @SpellsFields.cons e fs ts us name he hfs, fuel + 1, rest, hfuel => by
    have hread := he.read fuel (.mark .comma :: (us ++ rest))
      (by simp at hfuel; omega) ⟨_, _, rfl⟩
    have hfields := hfs.read fuel rest (by simp at hfuel; omega)
    rw [List.cons_append, List.cons_append, List.append_assoc, List.cons_append, fields, hread]
    simp only [hfields, Option.map_some]

end

end Read

/-! ### Items -/

/-- A `pub const` item. -/
structure Item where
  name : List UInt8
  value : Expr

/-- The text of a word. -/
def word (s : String) : Token := .word (Utf8.encode s.toList)

/-- Reads the items up to the end of the text.  The type of an item is skipped. -/
def constantsFrom : ℕ → List Token → Option (List Item)
  | _, [] => some []
  | fuel + 1, pub :: const :: .word name :: .mark .colon :: ts =>
    if pub = word "pub" ∧ const = word "const" then
      match ts.dropWhile (· ≠ .mark .equals) with
      | .mark .equals :: ts =>
        match expr (ts.length + 1) ts with
        | some (value, .mark .semicolon :: rest) =>
          (constantsFrom fuel rest).map fun found => ⟨name, value⟩ :: found
        | _ => none
      | _ => none
    else none
  | _, _ => none

/-- The items of a text. -/
def constants (t : List UInt8) : Option (List Item) :=
  (tokens t).bind fun ts => constantsFrom ts.length ts

/-- The tokens of an item. -/
def SpellsItem (item : Item) (ts : List Token) : Prop :=
  ∃ type us, (∀ t ∈ type, t ≠ Token.mark .equals) ∧ Spells item.value us ∧
    ts = word "pub" :: word "const" :: .word item.name :: .mark .colon ::
      (type ++ .mark .equals :: (us ++ [.mark .semicolon]))

/-- **The items are read from any of their spellings.** -/
theorem constantsFrom_spelled {found : List Item} {tss : List (List Token)}
    (h : List.Forall₂ SpellsItem found tss) {fuel : ℕ} (hfuel : tss.flatten.length ≤ fuel) :
    constantsFrom fuel tss.flatten = some found := by
  induction h generalizing fuel with
  | nil => cases fuel <;> rfl
  | @cons item ts found tss hitem _ ih =>
    obtain ⟨type, us, htype, hspells, rfl⟩ := hitem
    simp only [List.flatten_cons, List.length_append, List.length_cons] at hfuel
    obtain ⟨fuel, rfl⟩ : ∃ k, fuel = k + 1 := ⟨fuel - 1, by omega⟩
    have hdrop (rest : List Token) :
        (type ++ Token.mark .equals :: rest).dropWhile (· ≠ .mark .equals) =
          .mark .equals :: rest := by
      rw [List.dropWhile_append_of_pos fun t ht => decide_eq_true (htype t ht)]
      rfl
    have hread := hspells.read ((us ++ .mark .semicolon :: tss.flatten).length + 1)
      (.mark .semicolon :: tss.flatten) (by rw [List.length_append]; omega) ⟨_, _, rfl⟩
    have hrest := ih (by omega : tss.flatten.length ≤ fuel)
    simp only [List.flatten_cons, List.cons_append, List.append_assoc, List.nil_append,
      constantsFrom, and_self, if_true, hdrop, hread, hrest, Option.map_some]

/-- So are they from the text. -/
theorem constants_spelled {found : List Item} {tss : List (List Token)} {t : List UInt8}
    (hscan : Scans .code t tss.flatten .code) (h : List.Forall₂ SpellsItem found tss) :
    constants t = some found := by
  rw [constants, hscan.tokens, Option.bind_some, constantsFrom_spelled h (Nat.le_refl _)]

end Constant

end Machine
