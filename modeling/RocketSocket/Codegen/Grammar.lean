import Mathlib.Data.Bool.AllAny
import Mathlib.Data.Finset.Sort
import RocketSocket.Codegen.Nested

/-!
# The format of the interface

What `parse` is written to read, as relations between a declaration and its text.  Any
whitespace may stand between tokens, a separator may stand behind the last item of a list, and
the text around the interface is free of quotes and comments.

## Main definitions

* `Listed` — items with separators between them.
* `KeySpelled`, `ElementSpelled`, `AlternativeSpelled`, `ArgsSpelled` — keys and arguments.
* `MemberSpelled`, `EventSpelled`, `StreamSpelled`, `InterfaceSpelled` — the declarations.
* `Event.Declares`, `Stream.Declares` — what is read is what was declared, source text apart.

## Main results

* `Listed.nested` — a list of nested items is nested.
* `EventSpelled.nested`, `StreamSpelled.nested` — every text of the format is nested.
-/

namespace RocketSocket

namespace Codegen

open Machine Utf8

/-! ### Lists -/

/-- Items with separators between them, and perhaps one behind the last. -/
inductive Listed {α : Type} (seps : List UInt8) (Item : α → Text → Prop) : List α → Text → Prop
  | none {w : Text} : Spaces w → Listed seps Item [] w
  | one {w t w' : Text} {a : α} : Spaces w → Item a t → Spaces w' →
      Listed seps Item [a] (w ++ t ++ w')
  | more {w t w' rest : Text} {a : α} {c : UInt8} {as : List α} : Spaces w → Item a t →
      Spaces w' → c ∈ seps → Listed seps Item as rest →
      Listed seps Item (a :: as) (w ++ t ++ w' ++ c :: rest)

/-! ### Keys -/

/-- A text without quotes, escapes and holes. -/
def PlainText (t : Text) : Prop := ∀ b ∈ t, isQuote b = false ∧ b ≠ backslash ∧ b ≠ dollar

/-- The text of a key. -/
inductive KeySpelled : KeyPattern → Text → Prop
  | literal {quote : UInt8} {t : Text} : quote = singleQuote ∨ quote = doubleQuote →
      PlainText t → KeySpelled (.literal t) (quote :: (t ++ [quote]))
  | string : KeySpelled .any (text "string")
  | hole : KeySpelled .any (backtick :: (hole ++ [backtick]))
  | suffixed {t : Text} : PlainText t → t ≠ [] →
      KeySpelled (.suffixed t) (backtick :: (hole ++ slash :: t ++ [backtick]))
  | prefixed {t : Text} : PlainText t → t ≠ [] →
      KeySpelled (.prefixed t) (backtick :: (t ++ slash :: hole ++ [backtick]))

/-! ### Arguments -/

/-- A byte of a label or of the name of a type. -/
def isWordByte (b : UInt8) : Bool := isNameByte b || 128 ≤ b || isWs b

/-- A label, or the name of a type. -/
structure Name (t : Text) : Prop where
  solid : Solid t
  word : ∀ b ∈ t, isWordByte b = true

/-- An element of a tuple, and whether it is optional. -/
inductive ElementSpelled : Bool → Text → Prop
  | bare {type : Text} : Name type → ElementSpelled false type
  | optional {type w : Text} : Name type → Spaces w →
      ElementSpelled true (type ++ w ++ [question])
  | labelled {label w w' type : Text} : Name label → Spaces w → Spaces w' → Name type →
      ElementSpelled false (label ++ w ++ colon :: (w' ++ type))
  | labelledOptional {label w w' w'' type : Text} : Name label → Spaces w → Spaces w' →
      Spaces w'' → Name type →
      ElementSpelled true (label ++ w ++ [question] ++ w' ++ colon :: (w'' ++ type))

/-- An alternative of an `args:` type. -/
inductive Alternative where
  /-- Some required elements, and then some optional ones. -/
  | tuple (required optional : ℕ)
  /-- An unbounded array. -/
  | array
  deriving DecidableEq, Repr

/-- The text of an alternative. -/
inductive AlternativeSpelled : Alternative → Text → Prop
  | tuple {required optional : ℕ} {t : Text} :
      Listed [comma] ElementSpelled
        (List.replicate required false ++ List.replicate optional true) t →
      AlternativeSpelled (.tuple required optional) (bracketOpen :: (t ++ [bracketClose]))
  | array {type : Text} : Name type →
      AlternativeSpelled .array (type ++ [bracketOpen, bracketClose])

/-- The text of a union, with or without a `|` before its first alternative. -/
def ArgsSpelled (args : List Alternative) (t : Text) : Prop :=
  args ≠ [] ∧ Solid t ∧ (Listed [bar] AlternativeSpelled args t ∨
    ∃ w rest, Spaces w ∧ Listed [bar] AlternativeSpelled args rest ∧ t = w ++ bar :: rest)

/-! ### Declarations -/

/-- An entry as it is declared. -/
structure EventDecl where
  key : KeyPattern
  args : List Alternative

/-- A stream as it is declared. -/
structure StreamDecl where
  name : Text
  events : List EventDecl

/-- A member of an entry. -/
inductive Member where
  | key (key : KeyPattern)
  | args (args : List Alternative)

/-- The text of a member. -/
inductive MemberSpelled : Member → Text → Prop
  | key {key : KeyPattern} {w w' t : Text} : Spaces w → Spaces w' → KeySpelled key t →
      MemberSpelled (.key key) (text "key" ++ w ++ colon :: (w' ++ t))
  | args {args : List Alternative} {w w' t : Text} : Spaces w → Spaces w' →
      ArgsSpelled args t → MemberSpelled (.args args) (text "args" ++ w ++ colon :: (w' ++ t))

/-- The text of an entry: its members come in either order. -/
def EventSpelled (event : EventDecl) (t : Text) : Prop :=
  ∃ members body, (members = [.key event.key, .args event.args] ∨
      members = [.args event.args, .key event.key]) ∧
    Listed [semicolon, comma] MemberSpelled members body ∧
    t = braceOpen :: (body ++ [braceClose])

/-- The text of a stream name: a string, or a bare name. -/
inductive NameSpelled : Text → Text → Prop
  | quoted {quote : UInt8} {name : Text} : quote = singleQuote ∨ quote = doubleQuote →
      PlainText name → NameSpelled name (quote :: (name ++ [quote]))
  | bare {name : Text} : name ≠ [] → (∀ b ∈ name, isNameByte b = true) → NameSpelled name name

/-- The text of a stream. -/
def StreamSpelled (stream : StreamDecl) (t : Text) : Prop :=
  ∃ name w w' body, NameSpelled stream.name name ∧ Spaces w ∧ Spaces w' ∧
    stream.events ≠ [] ∧ Listed [comma] EventSpelled stream.events body ∧
    t = name ++ w ++ colon :: (w' ++ bracketOpen :: (body ++ [bracketClose]))

/-- Code without quotes and comments. -/
structure Inert (t : Text) : Prop where
  quotes : ∀ b ∈ t, isQuote b = false
  line : ¬ [slash, slash] <:+: t
  block : ¬ [slash, star] <:+: t

/-- The text of a file that declares these streams. -/
def InterfaceSpelled (streams : List StreamDecl) (t : Text) : Prop :=
  ∃ front w body back, Inert front ∧ ¬ needle <:+: front ∧ Spaces w ∧ streams ≠ [] ∧
    Listed [semicolon] StreamSpelled streams body ∧ Inert back ∧
    t = front ++ (needle ++ w ++ braceOpen :: (body ++ braceClose :: back))

/-! ### What is declared -/

/-- The lengths of an alternative. -/
def Alternative.lengths : Alternative → List ℕ
  | .tuple required optional => List.range' required (optional + 1)
  | .array => []

/-- The entry that is read is the one declared: the arities are the sorted lengths of its tuples,
each of them once. -/
structure Event.Declares (event : Event) (decl : EventDecl) : Prop where
  key : event.key = decl.key
  arities : event.args.arities = (decl.args.flatMap Alternative.lengths).toFinset.sort
  variadic : event.args.variadic = decl.args.contains .array

/-- The stream that is read is the one declared. -/
structure Stream.Declares (stream : Stream) (decl : StreamDecl) : Prop where
  name : stream.name = decl.name
  events : List.Forall₂ Event.Declares stream.events decl.events

/-! ### Solid texts -/

section Solid

variable {t u m : Text} {b c : UInt8}

theorem Solid.singleton (hb : isWs b = false) : Solid [b] :=
  ⟨⟨b, [], rfl, hb⟩, ⟨[], b, rfl, hb⟩⟩

theorem Solid.between (ht : Solid t) (hu : Solid u) : Solid (t ++ m ++ u) := by
  obtain ⟨b, rest, rfl, hb⟩ := ht.first
  obtain ⟨front, c, rfl, hc⟩ := hu.last
  exact ⟨⟨b, rest ++ m ++ (front ++ [c]), rfl, hb⟩,
    ⟨b :: rest ++ m ++ front, c, by simp only [List.append_assoc], hc⟩⟩

theorem Solid.enclosed (hb : isWs b = false) (hc : isWs c = false) :
    Solid (b :: (t ++ [c])) := (Solid.singleton hb).between (m := t) (Solid.singleton hc)

theorem isWs_of_isQuote (h : isQuote b = true) : isWs b = false := by
  rcases isQuote_cases h with rfl | rfl | rfl <;> rfl

theorem Solid.pos (h : Solid t) : 0 < t.length := by
  obtain ⟨b, rest, rfl, -⟩ := h.first
  exact Nat.succ_pos _

end Solid

/-! ### Nested texts -/

/-- The separators of every list, and the colon. -/
def separators : List UInt8 := [comma, semicolon, bar, colon]

/-- The bytes that mean something to a scanner. -/
def special : List UInt8 := [singleQuote, doubleQuote, backtick, braceOpen, bracketOpen, parenOpen,
  braceClose, bracketClose, parenClose, less, greater, slash] ++ separators

theorem isCode_of_not_special {b : UInt8} (h : b ∉ special) :
    isCode b = true ∧ b ∉ separators := by
  rw [special, List.mem_append, not_or] at h
  refine ⟨?_, h.2⟩
  simpa [isCode, isQuote, isOpener, isCloser, and_assoc] using h.1

theorem not_special_of_isWordByte {b : UInt8} (h : isWordByte b = true) : b ∉ special := by
  have hall : ∀ c ∈ special, isWordByte c = false := List.all_iff_forall_prop.mp (by decide)
  intro hb
  rw [hall b hb] at h
  cases h

theorem isWordByte_of_isWs {b : UInt8} (h : isWs b = true) : isWordByte b = true := by
  rw [isWordByte, h, Bool.or_true]

theorem isWordByte_of_isNameByte {b : UInt8} (h : isNameByte b = true) :
    isWordByte b = true := by
  rw [isWordByte, h, Bool.true_or, Bool.true_or]

/-- A text of such bytes is nested. -/
theorem nested_of_word {t : Text} (h : ∀ b ∈ t, isWordByte b = true) : Nested separators 0 t :=
  Nested.of_code fun b hb => isCode_of_not_special (not_special_of_isWordByte (h b hb))

theorem Spaces.nested {w : Text} (h : Spaces w) : Nested separators 0 w :=
  nested_of_word fun b hb => isWordByte_of_isWs (h b hb)

theorem Name.nested {t : Text} (h : Name t) : Nested separators 0 t := nested_of_word h.word

theorem nested_string {quote : UInt8} {seps : List UInt8} {k : ℕ} {t : Text}
    (hquote : isQuote quote = true) (ht : quote ∉ t) (hescape : backslash ∉ t) :
    Nested seps k (quote :: (t ++ [quote])) := by
  rw [← List.append_nil (quote :: (t ++ [quote]))]
  exact .string hquote ht hescape .nil

theorem nested_group {opens closes : UInt8} {seps : List UInt8} {k : ℕ} {t : Text}
    (hmatch : Matching opens closes) (ht : Nested [] k t) :
    Nested seps (k + 1) (opens :: (t ++ [closes])) := by
  rw [← List.append_nil (opens :: (t ++ [closes]))]
  exact .group hmatch ht .nil

theorem nested_byte {seps : List UInt8} {k : ℕ} {b : UInt8} (hb : isCode b = true)
    (hsep : b ∉ seps) : Nested seps k [b] := .code hb hsep .nil

theorem PlainText.not_mem {t : Text} {quote : UInt8} (h : PlainText t)
    (hquote : isQuote quote = true) : quote ∉ t ∧ backslash ∉ t := by
  constructor
  · intro hmem
    rw [(h quote hmem).1] at hquote
    cases hquote
  · exact fun hmem => (h backslash hmem).2.1 rfl

theorem isQuote_of_or {quote : UInt8} (h : quote = singleQuote ∨ quote = doubleQuote) :
    isQuote quote = true := by
  rcases h with rfl | rfl <;> rfl

/-- A list is nested if its items are. -/
theorem Listed.nested {α : Type} {seps avoided : List UInt8} {k : ℕ} {Item : α → Text → Prop}
    {as : List α} {t : Text} (hitem : ∀ a t, Item a t → Nested avoided k t)
    (hseps : ∀ c ∈ seps, isCode c = true ∧ c ∉ avoided) (havoided : avoided ⊆ separators)
    (h : Listed seps Item as t) : Nested avoided k t := by
  have hspaces {w : Text} (hw : Spaces w) : Nested avoided k w :=
    hw.nested.mono (Nat.zero_le k) havoided
  induction h with
  | none hw => exact hspaces hw
  | one hw ha hw' => exact ((hspaces hw).append (hitem _ _ ha)).append (hspaces hw')
  | more hw ha hw' hc _ ih =>
    exact (((hspaces hw).append (hitem _ _ ha)).append (hspaces hw')).append
      (.code (hseps _ hc).1 (hseps _ hc).2 ih)

/-! ### The texts of the format -/

theorem KeySpelled.solid {key : KeyPattern} {t : Text} (h : KeySpelled key t) : Solid t := by
  cases h with
  | literal hquote _ =>
    have hws := isWs_of_isQuote (isQuote_of_or hquote)
    exact Solid.enclosed hws hws
  | string =>
    exact ⟨⟨115, text "tring", rfl, rfl⟩, ⟨text "strin", 103, rfl, rfl⟩⟩
  | hole => exact Solid.enclosed rfl rfl
  | suffixed _ _ => exact Solid.enclosed rfl rfl
  | prefixed _ _ => exact Solid.enclosed rfl rfl

theorem KeySpelled.nested {key : KeyPattern} {t : Text} (h : KeySpelled key t) :
    Nested separators 0 t := by
  have hhole : backtick ∉ Codegen.hole ∧ backslash ∉ Codegen.hole := by decide
  have hslash : backtick ≠ slash ∧ backslash ≠ slash := by decide
  cases h with
  | literal hquote ht =>
    have hisQuote := isQuote_of_or hquote
    obtain ⟨hnot, hescape⟩ := ht.not_mem hisQuote
    exact nested_string hisQuote hnot hescape
  | string => exact nested_of_word (List.all_eq_true.mp (by decide))
  | hole => exact nested_string rfl hhole.1 hhole.2
  | suffixed ht _ =>
    obtain ⟨hnot, hescape⟩ := ht.not_mem (rfl : isQuote backtick = true)
    refine nested_string rfl ?_ ?_
    · simp [hhole, hslash, hnot]
    · simp [hhole, hslash, hescape]
  | prefixed ht _ =>
    obtain ⟨hnot, hescape⟩ := ht.not_mem (rfl : isQuote backtick = true)
    refine nested_string rfl ?_ ?_
    · simp [hhole, hslash, hnot]
    · simp [hhole, hslash, hescape]

theorem ElementSpelled.solid {optional : Bool} {t : Text} (h : ElementSpelled optional t) :
    Solid t := by
  cases h with
  | bare htype => exact htype.solid
  | optional htype _ => exact htype.solid.between (Solid.singleton rfl)
  | @labelled label w w' type hlabel _ _ htype =>
    have hsolid := hlabel.solid.between (m := w ++ colon :: w') htype.solid
    simpa using hsolid
  | @labelledOptional label w w' w'' type hlabel _ _ _ htype =>
    have hsolid := hlabel.solid.between (m := w ++ [question] ++ w' ++ colon :: w'') htype.solid
    simpa using hsolid

/-- A label with its question mark, and what is before the colon of an element. -/
theorem nested_optional {t w : Text} (ht : Name t) (hw : Spaces w) :
    Nested separators 0 (t ++ w ++ [question]) :=
  (ht.nested.append hw.nested).append (nested_byte rfl (by decide))

theorem ElementSpelled.nested {optional : Bool} {t : Text} (h : ElementSpelled optional t) :
    Nested [comma] 0 t := by
  have hsub : [comma] ⊆ separators := by decide
  have hcolon {w t : Text} (hw : Spaces w) (ht : Name t) : Nested [comma] 0 (colon :: (w ++ t)) :=
    .code rfl (by decide) ((hw.nested.append ht.nested).mono le_rfl hsub)
  cases h with
  | bare htype => exact htype.nested.mono le_rfl hsub
  | optional htype hw => exact (nested_optional htype hw).mono le_rfl hsub
  | labelled hlabel hw hw' htype =>
    exact ((hlabel.nested.append hw.nested).mono le_rfl hsub).append (hcolon hw' htype)
  | labelledOptional hlabel hw hw' hw'' htype =>
    exact (((nested_optional hlabel hw).append hw'.nested).mono le_rfl hsub).append
      (hcolon hw'' htype)

theorem AlternativeSpelled.solid {alternative : Alternative} {t : Text}
    (h : AlternativeSpelled alternative t) : Solid t := by
  cases h with
  | tuple _ => exact Solid.enclosed rfl rfl
  | @array type htype =>
    have hsolid := htype.solid.between (m := [bracketOpen]) (Solid.singleton
      (rfl : isWs bracketClose = false))
    simpa using hsolid

theorem AlternativeSpelled.nested {alternative : Alternative} {t : Text}
    (h : AlternativeSpelled alternative t) : Nested separators 1 t := by
  cases h with
  | tuple ht =>
    refine nested_group (.inr ⟨rfl, rfl⟩) (ht.nested (fun _ _ h => ?_)
      (List.all_iff_forall_prop.mp (by decide)) (by decide))
    exact h.nested.mono le_rfl (List.nil_subset _)
  | array htype =>
    exact (htype.nested.mono (Nat.zero_le 1) (List.Subset.refl _)).append
      (nested_group (t := []) (.inr ⟨rfl, rfl⟩) .nil)

theorem ArgsSpelled.nested {args : List Alternative} {t : Text} (h : ArgsSpelled args t) :
    Nested [comma, semicolon, colon] 1 t := by
  have hsub : [comma, semicolon, colon] ⊆ separators := by decide
  have hlisted {t : Text} (h : Listed [bar] AlternativeSpelled args t) :
      Nested [comma, semicolon, colon] 1 t :=
    h.nested (fun _ _ h => h.nested.mono le_rfl hsub)
      (List.all_iff_forall_prop.mp (by decide)) hsub
  rcases h.2.2 with h | ⟨w, rest, hw, hrest, rfl⟩
  · exact hlisted h
  · exact (hw.nested.mono (Nat.zero_le 1) hsub).append (.code rfl (by decide) (hlisted hrest))

theorem MemberSpelled.solid {member : Member} {t : Text} (h : MemberSpelled member t) :
    Solid t := by
  have hkey : Solid (text "key") := ⟨⟨107, text "ey", rfl, rfl⟩, ⟨text "ke", 121, rfl, rfl⟩⟩
  have hargs : Solid (text "args") := ⟨⟨97, text "rgs", rfl, rfl⟩, ⟨text "arg", 115, rfl, rfl⟩⟩
  cases h with
  | @key key w w' t _ _ ht =>
    have hsolid := hkey.between (m := w ++ colon :: w') ht.solid
    simpa using hsolid
  | @args args w w' t _ _ ht =>
    have hsolid := hargs.between (m := w ++ colon :: w') ht.2.1
    simpa using hsolid

theorem MemberSpelled.nested {member : Member} {t : Text} (h : MemberSpelled member t) :
    Nested [semicolon, comma] 1 t := by
  have hsub : [semicolon, comma] ⊆ separators := by decide
  have hname {name w : Text} (hname : ∀ b ∈ name, isWordByte b = true) (hw : Spaces w) :
      Nested [semicolon, comma] 1 (name ++ w) :=
    ((nested_of_word hname).append hw.nested).mono (Nat.zero_le 1) hsub
  cases h with
  | key hw hw' ht =>
    refine (hname (List.all_eq_true.mp (by decide)) hw).append (.code rfl (by decide) ?_)
    exact (hw'.nested.append ht.nested).mono (Nat.zero_le 1) hsub
  | args hw hw' ht =>
    refine (hname (List.all_eq_true.mp (by decide)) hw).append (.code rfl (by decide) ?_)
    exact (hw'.nested.mono (Nat.zero_le 1) hsub).append (ht.nested.mono le_rfl (by decide))

theorem EventSpelled.solid {event : EventDecl} {t : Text} (h : EventSpelled event t) :
    Solid t := by
  obtain ⟨members, body, -, -, rfl⟩ := h
  exact Solid.enclosed rfl rfl

theorem EventSpelled.nested {event : EventDecl} {t : Text} (h : EventSpelled event t) :
    Nested separators 2 t := by
  obtain ⟨members, body, -, hbody, rfl⟩ := h
  refine nested_group (.inl ⟨rfl, rfl⟩) (hbody.nested (fun _ _ h => ?_)
    (List.all_iff_forall_prop.mp (by decide)) (by decide))
  exact h.nested.mono le_rfl (List.nil_subset _)

theorem NameSpelled.nested {name t : Text} (h : NameSpelled name t) : Nested separators 0 t := by
  cases h with
  | quoted hquote ht =>
    have hisQuote := isQuote_of_or hquote
    obtain ⟨hnot, hescape⟩ := ht.not_mem hisQuote
    exact nested_string hisQuote hnot hescape
  | bare _ ht => exact nested_of_word fun b hb => isWordByte_of_isNameByte (ht b hb)

theorem nested_events {events : List EventDecl} {body : Text}
    (h : Listed [comma] EventSpelled events body) : Nested [] 2 body :=
  h.nested (fun _ _ h => h.nested.mono le_rfl (List.nil_subset _))
    (List.all_iff_forall_prop.mp (by decide)) (by decide)

theorem StreamSpelled.nested {stream : StreamDecl} {t : Text} (h : StreamSpelled stream t) :
    Nested [] 3 t := by
  obtain ⟨name, w, w', body, hname, hw, hw', -, hbody, rfl⟩ := h
  have hsub : [] ⊆ separators := List.nil_subset _
  refine ((hname.nested.append hw.nested).mono (Nat.zero_le 3) hsub).append
    (.code rfl List.not_mem_nil ?_)
  exact (hw'.nested.mono (Nat.zero_le 3) hsub).append
    (nested_group (.inr ⟨rfl, rfl⟩) (nested_events hbody))

theorem nested_streams {streams : List StreamDecl} {body : Text}
    (h : Listed [semicolon] StreamSpelled streams body) : Nested [] 3 body :=
  h.nested (fun _ _ h => h.nested) (List.all_iff_forall_prop.mp (by decide)) (by decide)

end Codegen

end RocketSocket
