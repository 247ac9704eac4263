import RocketSocket.Codegen.ReadBack
import RocketSocket.Codegen.Texts
import RocketSocket.Lib.Constant

/-!
# From the interface to the generated module

The constants of the generated module as `render_catalog` writes them, and as the compiler reads
them: what is read is the catalog.

To compile is to be read by the grammar of items and literals; what a lint may deny, such as a
character in a literal that changes the direction of the text, is not looked at.  The types and
the lookup functions that the module also has are the same for every catalog and are not part of
the text here; the lookups are `StreamSpec.event` and `Module.event`.

## Main definitions

* `Catalog.render` — the constants that are emitted.
* `Module`, `compile` — the constants that are compiled.

## Main results

* `constants_render` — the emitted text is read as the items it was written for.
* `compile_render` — **the compiled module is the catalog**.
-/

namespace RocketSocket

namespace Codegen

open Machine Constant

/-! ### The text that is emitted -/

/-- Number of entries across all streams. -/
def Catalog.eventCount (catalog : Catalog) : ℕ :=
  catalog.streams.foldl (fun count stream => count + stream.events.length) 0

/-- A line, some levels in. -/
def line (level : ℕ) (body : Text) : Text :=
  List.replicate (4 * level) 32 ++ (body ++ [newline])

/-- A number in decimal. -/
def decimal (n : ℕ) : Text := text (toString n)

/-- The lengths of an entry. -/
def renderArities (arities : List ℕ) : Text := (text ", ").intercalate (arities.map decimal)

/-- An entry of a stream. -/
def Event.render (event : Event) : Text :=
  line 4 (text "EventSpec \x7b") ++
  (line 5 (text "key: " ++ (event.key.render ++ [comma])) ++
  (line 5 (text "arities: &[" ++ (renderArities event.args.arities ++ text "],")) ++
  (line 5 (text "variadic: " ++ (text (toString event.args.variadic) ++ [comma])) ++
  (line 5 (text "args: " ++ (quote event.args.source ++ [comma])) ++
  line 4 (text "\x7d,")))))

/-- A stream. -/
def Stream.render (stream : Stream) : Text :=
  line 2 (text "StreamSpec \x7b") ++
  (line 3 (text "name: " ++ (quote stream.name ++ [comma])) ++
  (line 3 (text "events: &[") ++
  (stream.events.flatMap Event.render ++
  (line 3 (text "],") ++
  line 2 (text "\x7d,")))))

/-- The commit the catalog is read from. -/
def upstreamCommit : String := "ea163f56b53b1dd40d49af39e0406397cbd24939"

/-- Its version. -/
def upstreamVersion : String := "8.8.0-develop"

/-- The constants of the module, as `render_catalog` writes them. -/
def Catalog.render (catalog : Catalog) : Text :=
  ([newline] ++ line 1 (text "/// Rocket.Chat commit the catalog was generated from.") ++
    line 1 (text "pub const UPSTREAM_COMMIT: &str = \"" ++ text upstreamCommit ++ text "\";")) ++
  (([newline] ++ line 1 (text "/// `apps/meteor` version at [`UPSTREAM_COMMIT`].") ++
    line 1 (text "pub const UPSTREAM_VERSION: &str = \"" ++ text upstreamVersion ++ text "\";")) ++
  (([newline] ++ line 1 (text "/// Number of streams declared upstream.") ++
    line 1 (text "pub const STREAM_COUNT: usize = " ++
      (decimal catalog.streams.length ++ [semicolon]))) ++
  (([newline] ++ line 1 (text
      "/// Number of `\x7b key; args \x7d` entries declared upstream, across all streams.") ++
    line 1 (text "pub const EVENT_COUNT: usize = " ++
      (decimal catalog.eventCount ++ [semicolon]))) ++
  ([newline] ++ line 1 (text "/// Every stream, in upstream declaration order.") ++
    line 1 (text "pub const STREAMS: &[StreamSpec] = &[") ++
    (catalog.streams.flatMap Stream.render ++
    line 1 (text "];"))))))

/-! ### The module that is compiled -/

/-- An entry of the module, with the text of its type. -/
structure Entry where
  spec : EventSpec
  args : String

/-- A stream of the module. -/
structure Table where
  name : String
  entries : List Entry

/-- The constants of the module. -/
structure Module where
  upstreamCommit : String
  upstreamVersion : String
  streamCount : ℕ
  eventCount : ℕ
  tables : List Table

/-- A string. -/
def compileString : Expr → Option String
  | .string v => Utf8.decode v
  | _ => none

/-- A number in decimal. -/
def compileNumber : Expr → Option ℕ
  | .word w => (Utf8.decode w).bind fun s =>
    if s.toList ≠ [] ∧ s.toList.all Char.isDigit then some (Nat.ofDigitChars 10 s.toList 0)
    else none
  | _ => none

/-- A truth value. -/
def compileBool : Expr → Option Bool
  | .word w => if w = text "true" then some true else if w = text "false" then some false else none
  | _ => none

/-- A slice. -/
def compileList {α : Type} (compile : Expr → Option α) : Expr → Option (List α)
  | .list es => es.mapM compile
  | _ => none

/-- A field of a record that has just these fields. -/
def field (type : String) (names : List String) (name : String) : Expr → Option Expr
  | .record t fs =>
    if t = text type ∧ (fs.map Prod.fst).Perm (names.map text) then
      (fs.find? fun f => f.1 = text name).map Prod.snd
    else none
  | _ => none

/-- A pattern. -/
def compilePattern : Expr → Option RocketSocket.KeyPattern
  | .path type name =>
    if type = text "KeyPattern" ∧ name = text "Any" then some .any else none
  | .call type name arg =>
    if type = text "KeyPattern" then
      if name = text "Literal" then (compileString arg).map .literal
      else if name = text "Suffix" then (compileString arg).map .suffix
      else if name = text "Prefix" then (compileString arg).map .prefixed
      else none
    else none
  | _ => none

/-- An `EventSpec`. -/
def compileEvent (e : Expr) : Option Entry := do
  let field := field "EventSpec" ["key", "arities", "variadic", "args"]
  let key ← (field "key" e).bind compilePattern
  let arities ← (field "arities" e).bind (compileList compileNumber)
  let variadic ← (field "variadic" e).bind compileBool
  let args ← (field "args" e).bind compileString
  return ⟨⟨key, arities, variadic⟩, args⟩

/-- A `StreamSpec`. -/
def compileStream (e : Expr) : Option Table := do
  let field := field "StreamSpec" ["name", "events"]
  let name ← (field "name" e).bind compileString
  let entries ← (field "events" e).bind (compileList compileEvent)
  return ⟨name, entries⟩

/-- The value of a constant. -/
def constant (items : List Item) (name : String) : Option Expr :=
  (items.find? fun item => item.name = text name).map Item.value

/-- The constants of a text, by the grammar and lints aside. -/
def compile (t : Text) : Option Module := do
  let items ← constants (normalizeNewlines t)
  let commit ← (constant items "UPSTREAM_COMMIT").bind compileString
  let version ← (constant items "UPSTREAM_VERSION").bind compileString
  let streamCount ← (constant items "STREAM_COUNT").bind compileNumber
  let eventCount ← (constant items "EVENT_COUNT").bind compileNumber
  let tables ← (constant items "STREAMS").bind (compileList compileStream)
  return ⟨commit, version, streamCount, eventCount, tables⟩

/-- The table without its types. -/
def Table.spec (table : Table) : StreamSpec := ⟨table.name, table.entries.map Entry.spec⟩

/-- The lookup of the module, with or without `stream-`. -/
def Module.event (m : Module) (streamName key : String) : Option EventSpec :=
  ((m.tables.map Table.spec).find? fun spec => spec.name == stripStream streamName).bind
    fun spec => spec.event key

/-! ### The expressions it writes -/

/-- The expression of a pattern. -/
def KeyPattern.expr : KeyPattern → Expr
  | literal v => .call (text "KeyPattern") (text "Literal") (.string v)
  | suffixed v => .call (text "KeyPattern") (text "Suffix") (.string v)
  | prefixed v => .call (text "KeyPattern") (text "Prefix") (.string v)
  | any => .path (text "KeyPattern") (text "Any")

/-- The expression of an entry. -/
def Event.expr (event : Event) : Expr :=
  .record (text "EventSpec") [(text "key", event.key.expr),
    (text "arities", .list (event.args.arities.map fun n => .word (decimal n))),
    (text "variadic", .word (text (toString event.args.variadic))),
    (text "args", .string event.args.source)]

/-- The expression of a stream. -/
def Stream.expr (stream : Stream) : Expr :=
  .record (text "StreamSpec") [(text "name", .string stream.name),
    (text "events", .list (stream.events.map Event.expr))]

/-- The items of the module. -/
def Catalog.items (catalog : Catalog) : List Item := [
  ⟨text "UPSTREAM_COMMIT", .string (text upstreamCommit)⟩,
  ⟨text "UPSTREAM_VERSION", .string (text upstreamVersion)⟩,
  ⟨text "STREAM_COUNT", .word (decimal catalog.streams.length)⟩,
  ⟨text "EVENT_COUNT", .word (decimal catalog.eventCount)⟩,
  ⟨text "STREAMS", .list (catalog.streams.map Stream.expr)⟩]

section Scan

variable {t body : Text} {ts : List Token} {v : Text} {m : Mark} {b : UInt8}

theorem scans_blanks (n : ℕ) : Scans .code (List.replicate n 32) [] .code := by
  induction n with
  | zero => exact .nil
  | succ n ih =>
    have hblank : step .code 32 = some ([], .code) := rfl
    exact Scans.cons hblank ih

theorem scans_newline : Scans .code [newline] [] .code := rfl

/-- A line is what stands in it. -/
theorem scans_line (level : ℕ) (h : Scans .code body ts .code) :
    Scans .code (line level body) ts .code := by
  have hline := (scans_blanks (4 * level)).append (h.append scans_newline)
  rwa [List.nil_append, List.append_nil] at hline

theorem scans_escape {back : Text} (hb : b ≠ carriageReturn) :
    Scans (.string back) (escape b) [] (.string (b :: back)) := by
  rw [escape]
  split
  · next hquote =>
    subst hquote
    rfl
  · next hquote =>
    split
    · next hslash =>
      subst hslash
      rfl
    · next hslash =>
      have hstep : step (.string back) b = some ([], .string (b :: back)) := by
        rw [step, if_neg hquote, if_neg hb, if_neg hslash]
      exact Scans.cons hstep .nil

/-- **A string literal is the text it was made of**, if there is no carriage return in it. -/
theorem scans_quote (hv : carriageReturn ∉ v) : Scans .code (quote v) [.string v] .code := by
  have hbody (back : Text) :
      Scans (.string back) (v.flatMap escape) [] (.string (v.reverse ++ back)) := by
    induction v generalizing back with
    | nil => exact .nil
    | cons b v ih =>
      obtain ⟨hb, hv⟩ := not_or.mp (List.mem_cons.not.mp hv)
      rw [List.flatMap_cons, List.reverse_cons, List.append_assoc]
      exact (scans_escape (Ne.symm hb)).append (ih hv (b :: back))
  have hopen : Scans .code [doubleQuote] [] (.string []) := rfl
  have hend : Scans (.string (v.reverse ++ [])) [doubleQuote] [.string v] .code := by
    show some ([Token.string (v.reverse ++ []).reverse] ++ [], Mode.code) = _
    rw [List.append_nil, List.append_nil, List.reverse_reverse]
  exact hopen.append ((hbody []).append hend)

/-- A digit is a byte of a word. -/
theorem isWord_digit {c : Char} (hc : c.isDigit = true) :
    ∀ b ∈ String.utf8EncodeChar c, isWord b = true := by
  obtain ⟨hlo, hhi⟩ := Bool.and_eq_true_iff.mp hc
  have hlo' : 48 ≤ c.val.toNat := of_decide_eq_true hlo
  have hhi' : c.val.toNat ≤ 57 := of_decide_eq_true hhi
  unfold String.utf8EncodeChar
  rw [if_pos (by omega : c.val.toNat ≤ 127), List.forall_mem_singleton]
  simp only [isWord, Bool.or_eq_true, Bool.and_eq_true, decide_eq_true_eq]
  refine .inl (.inl (.inl ⟨?_, ?_⟩))
  · rw [UInt8.le_iff_toNat_le, UInt8.toNat_ofNat']
    simp only [UInt8.reduceToNat]
    omega
  · rw [UInt8.le_iff_toNat_le, UInt8.toNat_ofNat']
    simp only [UInt8.reduceToNat]
    omega

theorem isWord_decimal (n : ℕ) : ∀ b ∈ decimal n, isWord b = true := by
  intro b hb
  rw [decimal, text, Utf8.encode] at hb
  obtain ⟨c, hc, hb⟩ := List.mem_flatMap.mp hb
  refine isWord_digit ?_ b hb
  rw [Nat.toString_eq_repr, Nat.toList_repr] at hc
  exact Nat.isDigit_of_mem_toDigits (by decide) (by decide) hc

theorem decimal_ne_nil (n : ℕ) : decimal n ≠ [] := by
  intro h
  have hchars := Utf8.encode_eq_nil h
  rw [Nat.toString_eq_repr, Nat.toList_repr] at hchars
  exact Nat.toDigits_ne_nil hchars

/-- A number and the mark that ends it. -/
theorem scans_decimal (mark : Mark) (n : ℕ) (hword : isWord b = false)
    (hb : start b = some ([.mark mark], .code)) :
    Scans .code (decimal n ++ [b]) [.word (decimal n), .mark mark] .code := by
  exact scans_ended (decimal_ne_nil n) (isWord_decimal n) hword hb

/-- The lengths of an entry, as the items of an array. -/
theorem scans_arities (arities : List ℕ) :
    ∃ ts, Scans .code (renderArities arities ++ [bracketClose]) ts .code ∧
      SpellsItems (arities.map fun n => .word (decimal n)) ts := by
  induction arities with
  | nil => exact ⟨_, rfl, .nil⟩
  | cons n arities ih =>
    cases arities with
    | nil =>
      refine ⟨_, ?_, .last (.word (decimal n))⟩
      rw [renderArities, List.map_singleton, List.intercalate_singleton]
      exact scans_decimal .bracketClose n rfl rfl
    | cons n' arities =>
      obtain ⟨ts, hscan, hspells⟩ := ih
      refine ⟨_, ?_, .cons (.word (decimal n)) hspells⟩
      have hfront := scans_decimal (b := comma) .comma n rfl rfl
      have hspace : Scans .code [32] [] .code := rfl
      have hall := hfront.append (hspace.append hscan)
      have htext : renderArities (n :: n' :: arities) ++ [bracketClose] =
          decimal n ++ [comma] ++ ([32] ++ (renderArities (n' :: arities) ++ [bracketClose])) := by
        rw [renderArities, List.map_cons, List.map_cons, List.intercalate_cons_cons]
        simp only [List.append_assoc]
        rfl
      rw [htext]
      exact hall

/-- A pattern, with a comma. -/
theorem KeyPattern.scans {key : KeyPattern} (h : key.Proper) :
    ∃ ts, Scans .code (key.render ++ [comma]) (ts ++ [.mark .comma]) .code ∧
      Spells key.expr ts := by
  -- The three variants with a text are written alike.
  have hvariant (name : String) {v : Text} (hv : carriageReturn ∉ v)
      (hname : Scans .code (text "KeyPattern::" ++ text name ++ [parenOpen])
        [.word (text "KeyPattern"), .mark .colon, .mark .colon, .word (text name),
          .mark .parenOpen] .code) :
      ∃ ts, Scans .code (variant name v ++ [comma]) (ts ++ [.mark .comma]) .code ∧
        Spells (.call (text "KeyPattern") (text name) (.string v)) ts := by
    refine ⟨_, ?_, .call _ _ (.string v)⟩
    have hclose : Scans .code [parenClose] [.mark .parenClose] .code := rfl
    have hcomma : Scans .code [comma] [.mark .comma] .code := rfl
    have hall := hname.append ((scans_quote hv).append (hclose.append hcomma))
    have htext : variant name v ++ [comma] =
        text "KeyPattern::" ++ text name ++ [parenOpen] ++
          (quote v ++ ([parenClose] ++ [comma])) := by
      rw [variant]
      simp only [List.append_assoc, List.cons_append, List.nil_append]
    rw [htext]
    exact hall
  cases key with
  | literal v => exact hvariant "Literal" h.plain rfl
  | suffixed v => exact hvariant "Suffix" h.plain rfl
  | prefixed v => exact hvariant "Prefix" h.plain rfl
  | any => exact ⟨[.word (text "KeyPattern"), .mark .colon, .mark .colon, .word (text "Any")], rfl,
      .path _ _⟩

/-- A truth value, with a comma. -/
theorem scans_bool (b : Bool) : Scans .code (text (toString b) ++ [comma])
    [.word (text (toString b)), .mark .comma] .code := by
  cases b
  · rfl
  · rfl

/-- A string literal, with a comma. -/
theorem scans_quote_comma {v : Text} (hv : carriageReturn ∉ v) :
    Scans .code (quote v ++ [comma]) [.string v, .mark .comma] .code :=
  (scans_quote hv).append (rfl : Scans .code [comma] [.mark .comma] .code)

/-- **The text of an entry is its expression**, with a comma. -/
theorem Event.Proper.scans {event : Event} (h : event.Proper) :
    ∃ ts, Scans .code event.render (ts ++ [.mark .comma]) .code ∧ Spells event.expr ts := by
  obtain ⟨key, hkey, hkey'⟩ := KeyPattern.scans h.key
  obtain ⟨arities, harities, harities'⟩ := scans_arities event.args.arities
  have hclose : Scans .code [comma] [.mark .comma] .code := rfl
  have hhead : Scans .code (text "EventSpec \x7b")
    [.word (text "EventSpec"), .mark .braceOpen] .code := rfl
  have hkeyName : Scans .code (text "key: ") [.word (text "key"), .mark .colon] .code := rfl
  have haritiesName : Scans .code (text "arities: &[") [.word (text "arities"), .mark .colon,
    .mark .amp, .mark .bracketOpen] .code := rfl
  have hvariadicName : Scans .code (text "variadic: ") [.word (text "variadic"), .mark .colon]
    .code := rfl
  have hargsName : Scans .code (text "args: ") [.word (text "args"), .mark .colon] .code := rfl
  have hend : Scans .code (text "\x7d,") [.mark .braceClose, .mark .comma] .code := rfl
  have hall := (scans_line 4 hhead).append ((scans_line 5 (hkeyName.append hkey)).append
    ((scans_line 5 (haritiesName.append (harities.append hclose))).append
    ((scans_line 5 (hvariadicName.append (scans_bool event.args.variadic))).append
    ((scans_line 5 (hargsName.append (scans_quote_comma h.source.plain))).append
    (scans_line 4 hend)))))
  refine ⟨_, ?_, .record _ (.cons _ hkey' (.cons _ (.list harities') (.cons _ (.word _)
    (.cons _ (.string _) .nil))))⟩
  simp only [List.append_assoc, List.cons_append, List.nil_append] at hall ⊢
  exact hall

/-- The items of an array, one after the other, and its end. -/
theorem scans_items {α : Type} {render : α → Text} {expr : α → Expr} {close : Text} {m : Mark}
    (hclose : Scans .code close [.mark .bracketClose, .mark m] .code) {as : List α}
    (h : ∀ a ∈ as, ∃ ts, Scans .code (render a) (ts ++ [.mark .comma]) .code ∧
      Spells (expr a) ts) :
    ∃ ts, Scans .code (as.flatMap render ++ close) (ts ++ [.mark m]) .code ∧
      SpellsItems (as.map expr) ts := by
  induction as with
  | nil => exact ⟨[.mark .bracketClose], hclose, .nil⟩
  | cons a as ih =>
    obtain ⟨ha, has⟩ := List.forall_mem_cons.mp h
    obtain ⟨ts, hscan, hspells⟩ := ha
    obtain ⟨us, hscan', hspells'⟩ := ih has
    refine ⟨ts ++ .mark .comma :: us, ?_, .cons hspells hspells'⟩
    have hall := hscan.append hscan'
    rw [List.flatMap_cons]
    simp only [List.append_assoc, List.cons_append, List.nil_append] at hall ⊢
    exact hall

/-- **The text of a stream is its expression**, with a comma. -/
theorem Stream.Proper.scans {stream : Stream} (h : stream.Proper) :
    ∃ ts, Scans .code stream.render (ts ++ [.mark .comma]) .code ∧ Spells stream.expr ts := by
  have hclose : Scans .code (text "],") [.mark .bracketClose, .mark .comma] .code := rfl
  obtain ⟨events, hevents, hevents'⟩ := scans_items (scans_line 3 hclose)
    fun event hevent => Event.Proper.scans (h.events event hevent)
  have hhead : Scans .code (text "StreamSpec \x7b")
    [.word (text "StreamSpec"), .mark .braceOpen] .code := rfl
  have hname : Scans .code (text "name: ") [.word (text "name"), .mark .colon] .code := rfl
  have heventsName : Scans .code (text "events: &[") [.word (text "events"), .mark .colon,
    .mark .amp, .mark .bracketOpen] .code := rfl
  have hend : Scans .code (text "\x7d,") [.mark .braceClose, .mark .comma] .code := rfl
  have hall := (scans_line 2 hhead).append
    ((scans_line 3 (hname.append (scans_quote_comma h.name.plain))).append
    ((scans_line 3 heventsName).append (hevents.append (scans_line 2 hend))))
  refine ⟨_, ?_, .record _ (.cons _ (.string _) (.cons _ (.list hevents') .nil))⟩
  rw [Stream.render]
  simp only [List.append_assoc, List.cons_append, List.nil_append] at hall ⊢
  exact hall

/-- A blank line, and a comment. -/
theorem scans_comment {comment : Text} (h : Scans .code (comment ++ [newline]) [] .code) :
    Scans .code ([newline] ++ line 1 comment) [] .code :=
  scans_newline.append ((scans_blanks 4).append h)

/-- A number that is declared, with its comment. -/
theorem scans_count (comment front name : Text) (n : ℕ)
    (hcomment : Scans .code (comment ++ [newline]) [] .code)
    (hfront : Scans .code front [word "pub", word "const", .word name, .mark .colon,
      word "usize", .mark .equals] .code) :
    ∃ ts, Scans .code ([newline] ++ line 1 comment ++ line 1 (front ++ (decimal n ++ [semicolon])))
      ts .code ∧ SpellsItem ⟨name, .word (decimal n)⟩ ts := by
  have hcount := scans_decimal (b := semicolon) .semicolon n rfl rfl
  have hall := (scans_comment hcomment).append (scans_line 1 (hfront.append hcount))
  exact ⟨_, hall, [word "usize"], _, by simp [word], .word _, rfl⟩

theorem scans_commit : ∃ ts, Scans .code ([newline] ++
      line 1 (text "/// Rocket.Chat commit the catalog was generated from.") ++
      line 1 (text "pub const UPSTREAM_COMMIT: &str = \"" ++ text upstreamCommit ++ text "\";"))
    ts .code ∧ SpellsItem ⟨text "UPSTREAM_COMMIT", .string (text upstreamCommit)⟩ ts := by
  refine ⟨[word "pub", word "const", word "UPSTREAM_COMMIT", .mark .colon, .mark .amp, word "str",
    .mark .equals, .string (text upstreamCommit), .mark .semicolon], ?_,
    [.mark .amp, word "str"], _, by simp [word], .string _, rfl⟩
  unfold Scans
  decide +kernel

theorem scans_version : ∃ ts, Scans .code ([newline] ++
      line 1 (text "/// `apps/meteor` version at [`UPSTREAM_COMMIT`].") ++
      line 1 (text "pub const UPSTREAM_VERSION: &str = \"" ++ text upstreamVersion ++ text "\";"))
    ts .code ∧ SpellsItem ⟨text "UPSTREAM_VERSION", .string (text upstreamVersion)⟩ ts := by
  refine ⟨[word "pub", word "const", word "UPSTREAM_VERSION", .mark .colon, .mark .amp, word "str",
    .mark .equals, .string (text upstreamVersion), .mark .semicolon], ?_,
    [.mark .amp, word "str"], _, by simp [word], .string _, rfl⟩
  unfold Scans
  decide +kernel

theorem scans_streams {catalog : Catalog} (h : catalog.Proper) :
    ∃ ts, Scans .code ([newline] ++
        line 1 (text "/// Every stream, in upstream declaration order.") ++
        line 1 (text "pub const STREAMS: &[StreamSpec] = &[") ++
        (catalog.streams.flatMap Stream.render ++ line 1 (text "];"))) ts .code ∧
      SpellsItem ⟨text "STREAMS", .list (catalog.streams.map Stream.expr)⟩ ts := by
  have hend : Scans .code (text "];") [.mark .bracketClose, .mark .semicolon] .code := rfl
  obtain ⟨streams, hstreams, hstreams'⟩ := scans_items (scans_line 1 hend)
    fun stream hstream => Stream.Proper.scans (h stream hstream)
  have hhead : Scans .code (text "pub const STREAMS: &[StreamSpec] = &[")
    [word "pub", word "const", word "STREAMS", .mark .colon, .mark .amp, .mark .bracketOpen,
      word "StreamSpec", .mark .bracketClose, .mark .equals, .mark .amp, .mark .bracketOpen]
    .code := rfl
  have hcomment : Scans .code ([newline] ++
      line 1 (text "/// Every stream, in upstream declaration order.")) [] .code := by
    unfold Scans
    decide +kernel
  exact ⟨_, (hcomment.append (scans_line 1 hhead)).append hstreams,
    [.mark .amp, .mark .bracketOpen, word "StreamSpec", .mark .bracketClose], _, by simp [word],
    .list hstreams', rfl⟩

/-- **The text of the constants is read as the items it was written for.** -/
theorem constants_render {catalog : Catalog} (h : catalog.Proper) :
    constants (normalizeNewlines catalog.render) = some catalog.items := by
  obtain ⟨commit, hcommit, hcommit'⟩ := scans_commit
  obtain ⟨version, hversion, hversion'⟩ := scans_version
  obtain ⟨streamCount, hstreamCount, hstreamCount'⟩ := scans_count
    (text "/// Number of streams declared upstream.")
    (text "pub const STREAM_COUNT: usize = ") (text "STREAM_COUNT") catalog.streams.length
    (by unfold Scans; decide +kernel) rfl
  obtain ⟨eventCount, heventCount, heventCount'⟩ := scans_count
    (text "/// Number of `\x7b key; args \x7d` entries declared upstream, across all streams.")
    (text "pub const EVENT_COUNT: usize = ") (text "EVENT_COUNT") catalog.eventCount
    (by unfold Scans; decide +kernel) rfl
  obtain ⟨streams, hstreams, hstreams'⟩ := scans_streams h
  have hall := hcommit.append (hversion.append (hstreamCount.append (heventCount.append hstreams)))
  have htokens : commit ++ (version ++ (streamCount ++ (eventCount ++ streams))) =
      [commit, version, streamCount, eventCount, streams].flatten := by simp
  rw [htokens] at hall
  have hplain : carriageReturn ∉ catalog.render := hall.plain
  rw [normalizeNewlines_eq hplain]
  exact constants_spelled hall (.cons hcommit' (.cons hversion' (.cons hstreamCount'
    (.cons heventCount' (.cons hstreams' .nil)))))

end Scan

/-! ### The module is the catalog -/

/-- The entry is the one that was read. -/
structure Entry.Holds (entry : Entry) (event : Event) : Prop where
  key : event.key.compiled = some entry.spec.key
  arities : entry.spec.arities = event.args.arities
  variadic : entry.spec.variadic = event.args.variadic
  args : text entry.args = event.args.source

/-- The table is the stream that was read. -/
structure Table.Holds (table : Table) (stream : Stream) : Prop where
  name : text table.name = stream.name
  entries : List.Forall₂ Entry.Holds table.entries stream.events

/-- The module is the catalog that was read. -/
structure Module.Holds (m : Module) (catalog : Catalog) : Prop where
  upstreamCommit : m.upstreamCommit = Codegen.upstreamCommit
  upstreamVersion : m.upstreamVersion = Codegen.upstreamVersion
  streamCount : m.streamCount = catalog.streams.length
  eventCount : m.eventCount = catalog.eventCount
  tables : List.Forall₂ Table.Holds m.tables catalog.streams

section Compile

variable {α β γ : Type}

theorem compileString_proper {v : Text} (hv : Proper v) :
    ∃ s, compileString (.string v) = some s ∧ text s = v := by
  obtain ⟨chars, rfl⟩ := hv.encoded
  refine ⟨String.ofList chars, Utf8.decode_encode chars, ?_⟩
  rw [text, String.toList_ofList]

theorem compileString_text (s : String) : compileString (.string (text s)) = some s := by
  have h := Utf8.decode_encode s.toList
  rwa [String.ofList_toList] at h

theorem compileNumber_decimal (n : ℕ) : compileNumber (.word (decimal n)) = some n := by
  have hdecode : Utf8.decode (decimal n) = some (toString n) := compileString_text (toString n)
  have hchars : (toString n).toList = Nat.toDigits 10 n := by
    rw [Nat.toString_eq_repr, Nat.toList_repr]
  have hall : (Nat.toDigits 10 n).all Char.isDigit = true := by
    rw [List.all_eq_true]
    exact fun c hc => Nat.isDigit_of_mem_toDigits (by decide) (by decide) hc
  rw [compileNumber, hdecode, Option.bind_some, hchars, if_pos ⟨Nat.toDigits_ne_nil, hall⟩,
    Nat.ofDigitChars_ten_toDigits]

theorem compileBool_text (b : Bool) : compileBool (.word (text (toString b))) = some b := by
  cases b
  · rfl
  · rfl

/-- A list is compiled if its items are. -/
theorem mapM_map {f : β → Option α} {expr : γ → β} {R : α → γ → Prop} {cs : List γ}
    (h : ∀ c ∈ cs, ∃ a, f (expr c) = some a ∧ R a c) :
    ∃ as, (cs.map expr).mapM f = some as ∧ List.Forall₂ R as cs := by
  induction cs with
  | nil => exact ⟨[], rfl, .nil⟩
  | cons c cs ih =>
    obtain ⟨hc, hcs⟩ := List.forall_mem_cons.mp h
    obtain ⟨a, ha, hr⟩ := hc
    obtain ⟨as, has, hrs⟩ := ih hcs
    refine ⟨a :: as, ?_, .cons hr hrs⟩
    rw [List.map_cons, List.mapM_cons, ha, has]
    rfl

/-- A pattern is compiled to what its text says. -/
theorem compilePattern_expr {p : KeyPattern} (h : p.Proper) :
    ∃ q, compilePattern p.expr = some q ∧ p.compiled = some q := by
  have hvalue {v : Text} (hv : Proper v) :
      ∃ s, compileString (.string v) = some s ∧ compiledValue v = some s := by
    obtain ⟨s, hs, -⟩ := compileString_proper hv
    refine ⟨s, hs, ?_⟩
    rw [compiledValue, normalizeNewlines_eq hv.plain, if_neg hv.plain]
    exact hs
  cases p with
  | literal v =>
    obtain ⟨s, hs, hs'⟩ := hvalue h
    exact ⟨.literal s, congrArg (Option.map RocketSocket.KeyPattern.literal) hs,
      congrArg (Option.map RocketSocket.KeyPattern.literal) hs'⟩
  | suffixed v =>
    obtain ⟨s, hs, hs'⟩ := hvalue h
    exact ⟨.suffix s, congrArg (Option.map RocketSocket.KeyPattern.suffix) hs,
      congrArg (Option.map RocketSocket.KeyPattern.suffix) hs'⟩
  | prefixed v =>
    obtain ⟨s, hs, hs'⟩ := hvalue h
    exact ⟨.prefixed s, congrArg (Option.map RocketSocket.KeyPattern.prefixed) hs,
      congrArg (Option.map RocketSocket.KeyPattern.prefixed) hs'⟩
  | any => exact ⟨.any, rfl, rfl⟩

/-- The fields of a record of the right type. -/
theorem field_record {type name : String} {names : List String} {fs : List (Text × Expr)} {e : Expr}
    (hnames : fs.map Prod.fst = names.map text)
    (he : (fs.find? fun f => f.1 = text name).map Prod.snd = some e) :
    field type names name (.record (text type) fs) = some e := by
  rw [field, if_pos ⟨rfl, .of_eq hnames⟩, he]

theorem compileEvent_expr {event : Event} (h : event.Proper) :
    ∃ entry : Entry, compileEvent event.expr = some entry ∧ entry.Holds event := by
  obtain ⟨key, hkey, hkey'⟩ := compilePattern_expr h.key
  obtain ⟨args, hargs, hargs'⟩ := compileString_proper h.source
  obtain ⟨arities, harities, heq⟩ := mapM_map (f := compileNumber) (R := Eq)
    fun n (_ : n ∈ event.args.arities) => ⟨n, compileNumber_decimal n, rfl⟩
  rw [List.forall₂_eq_eq_eq] at heq
  subst heq
  refine ⟨⟨⟨key, event.args.arities, event.args.variadic⟩, args⟩, ?_, hkey', rfl, rfl, hargs'⟩
  have hlist : compileList compileNumber
      (.list (event.args.arities.map fun n => .word (decimal n))) = some event.args.arities :=
    harities
  have hkeyField : field "EventSpec" ["key", "arities", "variadic", "args"] "key" event.expr =
      some event.key.expr := field_record rfl rfl
  have haritiesField : field "EventSpec" ["key", "arities", "variadic", "args"] "arities"
      event.expr = some (.list (event.args.arities.map fun n => .word (decimal n))) :=
    field_record rfl rfl
  have hvariadicField : field "EventSpec" ["key", "arities", "variadic", "args"] "variadic"
      event.expr = some (.word (text (toString event.args.variadic))) := field_record rfl rfl
  have hargsField : field "EventSpec" ["key", "arities", "variadic", "args"] "args" event.expr =
      some (.string event.args.source) := field_record rfl rfl
  simp only [compileEvent, hkeyField, haritiesField, hvariadicField, hargsField,
    Option.bind_eq_bind, Option.bind_some, hkey, hlist, compileBool_text, hargs]
  rfl

theorem compileStream_expr {stream : Stream} (h : stream.Proper) :
    ∃ table : Table, compileStream stream.expr = some table ∧ table.Holds stream := by
  obtain ⟨name, hname, hname'⟩ := compileString_proper h.name
  obtain ⟨entries, hentries, hholds⟩ :=
    mapM_map fun event hevent => compileEvent_expr (h.events event hevent)
  refine ⟨⟨name, entries⟩, ?_, hname', hholds⟩
  have hlist : compileList compileEvent (.list (stream.events.map Event.expr)) = some entries :=
    hentries
  have hnameField : field "StreamSpec" ["name", "events"] "name" stream.expr =
      some (.string stream.name) := field_record rfl rfl
  have heventsField : field "StreamSpec" ["name", "events"] "events" stream.expr =
      some (.list (stream.events.map Event.expr)) := field_record rfl rfl
  simp only [compileStream, hnameField, heventsField, Option.bind_eq_bind, Option.bind_some, hname,
    hlist]
  rfl

/-- What is compiled is what was written. -/
theorem Catalog.Proper.compiles {catalog : Catalog} (h : catalog.Proper) :
    ∃ m : Module, compile catalog.render = some m ∧ m.Holds catalog := by
  obtain ⟨tables, htables, hholds⟩ :=
    mapM_map fun stream hstream => compileStream_expr (h stream hstream)
  have hlist : compileList compileStream (.list (catalog.streams.map Stream.expr)) = some tables :=
    htables
  have hconstant : constant catalog.items "UPSTREAM_COMMIT" = some (.string (text upstreamCommit)) ∧
      constant catalog.items "UPSTREAM_VERSION" = some (.string (text upstreamVersion)) ∧
      constant catalog.items "STREAM_COUNT" = some (.word (decimal catalog.streams.length)) ∧
      constant catalog.items "EVENT_COUNT" = some (.word (decimal catalog.eventCount)) ∧
      constant catalog.items "STREAMS" = some (.list (catalog.streams.map Stream.expr)) :=
    ⟨rfl, rfl, rfl, rfl, rfl⟩
  obtain ⟨hcommit, hversion, hstreamCount, heventCount, hstreams⟩ := hconstant
  refine ⟨⟨upstreamCommit, upstreamVersion, catalog.streams.length, catalog.eventCount, tables⟩,
    ?_, rfl, rfl, rfl, rfl, hholds⟩
  simp only [compile, constants_render h, hcommit, hversion, hstreamCount, heventCount,
    hstreams, Option.bind_eq_bind, Option.bind_some, compileString_text, compileNumber_decimal,
    hlist]
  rfl

/-- **The compiled module is the catalog**: what is written follows the grammar of items and
literals, and is read as the names, the patterns of the keys, the numbers of arguments and the
types, all of them and in their order.  This holds of every source that `parse` accepts, if there
is no carriage return in it. -/
theorem compile_render {source : String} {catalog : Catalog}
    (hsource : carriageReturn ∉ text source) (h : parse source = .ok catalog) :
    ∃ m : Module, compile catalog.render = some m ∧ m.Holds catalog :=
  (parse_proper hsource h).compiles

/-- A stream whose argument has a string in its type. -/
theorem compile_render_stream : ∃ m : Module,
    compile (Catalog.render ⟨[⟨text "a", [⟨.suffixed (text "t"), text "`$\x7bstring\x7d/t`",
      ⟨text "[] | [\"x\"]", [0, 1], false⟩⟩]⟩]⟩) = some m ∧
    m.Holds ⟨[⟨text "a", [⟨.suffixed (text "t"), text "`$\x7bstring\x7d/t`",
      ⟨text "[] | [\"x\"]", [0, 1], false⟩⟩]⟩]⟩ := by
  have hsource : carriageReturn ∉ text ("interface StreamerEvents\x7ba:[" ++
      "\x7bkey:`$\x7bstring\x7d/t`;args:[]\n|  [\"x\"]\x7d]\x7d") := by decide +kernel
  exact compile_render hsource (by decide +kernel)

end Compile

end Codegen

end RocketSocket
