import RocketSocket.Framework.Filter
import RocketSocket.Lib.Entrywise

/-!
# The attribute of a handler

`#[event(..)]` of `rocketsocket-macros`: a function is turned into a handler, behind the filters
that the attribute names.  The macro reads the arguments of the attribute one after the other,
writes a chain of builder calls for them, and looks through the parameters of the function for
the type of the bot's data.

The tokens are those the macro reads.  An error of the parser it calls has its own text, which is
left out; so are the places that errors point at.

## Main definitions

* `Item`, `Word` — an argument of the attribute, and what the macro takes it for.
* `parseFilters`, `Arguments.render` — the arguments read, and the calls written.
* `BuilderCall.run`, `build` — the builder of `filter.rs`.
* `declared` — the filters that a list of arguments asks for.
* `Item.Accepted` — an argument that is no mistake.
* `Function`, `expand` — a handler as it is written, and what it is turned into.

## Main results

* `parseFilters_eq_ok` — **the filters built are the filters declared**, and what is refused is
  a mistake.
* `event_eq_ok` — which functions are turned into which handlers.
-/

namespace RocketSocket

open Machine

namespace EventMacro

/-! ### The arguments -/

/-- What follows the path of an argument. -/
inductive Tail where
  | nothing
  /-- `=` and a string literal. -/
  | literal (text : String)
  /-- Anything else. -/
  | other
  deriving DecidableEq, Repr

/-- An argument of the attribute. -/
structure Item where
  /-- Its path, where that is one identifier. -/
  path : Option String
  tail : Tail
  deriving DecidableEq, Repr

/-- What the macro takes a path for. -/
inductive Word where
  | allowSelf
  | allowSystem
  | allowEdits
  | allowBots
  | mentionsMe
  | textPrefix
  | room
  | authority (wanted : Authority)
  /-- It asks for the default of the loop guard, -/
  | notSelf
  /-- or for another default. -/
  | blocked
  | unknown (path : String)
  deriving DecidableEq, Repr

/-- The arms of the match. -/
def Word.of : String → Word
  | "allow_self" => .allowSelf
  | "allow_system" | "system" => .allowSystem
  | "allow_edits" | "edits" => .allowEdits
  | "allow_bots" | "bots" => .allowBots
  | "mentions_me" => .mentionsMe
  | "prefix" => .textPrefix
  | "room" => .room
  | "admin" => .authority .admin
  | "room_admin" => .authority .roomAdmin
  | "any_admin" => .authority .adminOrRoomAdmin
  | "not_self" | "no_self" | "skip_self" => .notSelf
  | "skip_edits" | "no_edits" | "skip_system" | "no_system" | "no_bots" => .blocked
  | other => .unknown other

/-- What the macro takes an argument for. -/
def Item.word (item : Item) : Word := .of (item.path.getD "")

/-- Why nothing is generated. -/
inductive MacroError where
  /-- The parser of attributes expected something else. -/
  | malformed
  | message (text : String)
  deriving DecidableEq, Repr

/-- The filter arguments, as written. -/
structure Arguments where
  allowSelf : Bool := false
  allowSystem : Bool := false
  allowEdits : Bool := false
  allowBots : Bool := false
  mentionsMe : Bool := false
  textPrefix : Option String := none
  room : Option String := none
  authority : Option Authority := none
  deriving DecidableEq, Repr

/-- The text after the `=`. -/
def Tail.text : Tail → Except MacroError String
  | .literal text => .ok text
  | _ => .error .malformed

/-- Another argument, or the end, follows at once. -/
def Tail.finish {α : Type} (a : α) : Tail → Except MacroError α
  | .nothing => .ok a
  | _ => .error .malformed

/-- One argument is read. -/
def Arguments.read (filters : Arguments) (item : Item) : Except MacroError Arguments :=
  match item.word with
  | .allowSelf => item.tail.finish { filters with allowSelf := true }
  | .allowSystem => item.tail.finish { filters with allowSystem := true }
  | .allowEdits => item.tail.finish { filters with allowEdits := true }
  | .allowBots => item.tail.finish { filters with allowBots := true }
  | .mentionsMe => item.tail.finish { filters with mentionsMe := true }
  | .textPrefix => item.tail.text.map fun text => { filters with textPrefix := some text }
  | .room => item.tail.text.map fun text => { filters with room := some text }
  | .authority authority => item.tail.finish { filters with authority := some authority }
  | .notSelf => .error (.message ("the bot already never hears itself; that is the default. Use " ++
      "`allow_self` to opt *in* to seeing your own events"))
  | .blocked => .error (.message
      "this is already the default; the flags name what to allow, not what to block")
  | .unknown other => .error (.message ("unknown filter `" ++ other ++ "`; expected one of " ++
      "allow_self, allow_system, allow_edits, allow_bots, mentions_me, prefix = \"..\", " ++
      "room = \"..\", admin, room_admin, any_admin"))

/-- Parses `#[event(allow_self, prefix = "!", admin)]`. -/
def parseFilters (args : List Item) : Except MacroError Arguments :=
  args.foldlM Arguments.read {}

/-! ### The calls that are written -/

/-- A call of the builder of filters. -/
inductive BuilderCall where
  | allowSelf (yes : Bool)
  | allowSystem (yes : Bool)
  | allowEdits (yes : Bool)
  | allowBots (yes : Bool)
  | mentionsMe (yes : Bool)
  | textPrefix (text : Option String)
  | room (id : Option String)
  | authority (wanted : Authority)
  deriving DecidableEq, Repr

/-- `Filters::allow_self` and its siblings. -/
def BuilderCall.run (filters : Filters) : BuilderCall → Filters
  | .allowSelf yes => { filters with allowSelf := yes }
  | .allowSystem yes => { filters with allowSystem := yes }
  | .allowEdits yes => { filters with allowEdits := yes }
  | .allowBots yes => { filters with allowBots := yes }
  | .mentionsMe yes => { filters with mentionsMe := yes }
  | .textPrefix text => { filters with textPrefix := text }
  | .room id => { filters with room := id }
  | .authority wanted => { filters with authority := wanted }

/-- `Filters::DEFAULT` and the calls after it. -/
def build (calls : List BuilderCall) : Filters := calls.foldl BuilderCall.run {}

/-- Renders the runtime value. -/
def Arguments.render (filters : Arguments) : List BuilderCall :=
  [.allowSelf filters.allowSelf, .allowSystem filters.allowSystem,
    .allowEdits filters.allowEdits, .allowBots filters.allowBots,
    .mentionsMe filters.mentionsMe, .textPrefix filters.textPrefix, .room filters.room,
    .authority (filters.authority.getD .anyone)]

/-! ### What is declared -/

/-- An argument that is no mistake. -/
def Item.Accepted (item : Item) : Prop :=
  match item.word with
  | .textPrefix | .room => ∃ text, item.tail = .literal text
  | .notSelf | .blocked | .unknown _ => False
  | _ => item.tail = .nothing

/-- The argument is written somewhere. -/
def Writes (args : List Item) (word : Word) : Prop := ∃ item ∈ args, item.word = word

instance (args : List Item) (word : Word) : Decidable (Writes args word) :=
  inferInstanceAs (Decidable (∃ item ∈ args, item.word = word))

/-- The text that an argument gives for a word. -/
def Item.gives (word : Word) (item : Item) : Option String :=
  match item.tail with
  | .literal text => if item.word = word then some text else none
  | _ => none

/-- The authority that an argument asks for. -/
def Item.asks (item : Item) : Option Authority :=
  match item.word with
  | .authority authority => some authority
  | _ => none

/-- What the arguments declare: a flag is up if it is written anywhere, and of texts and
requirements the last one counts. -/
def Arguments.declared (args : List Item) : Arguments where
  allowSelf := Writes args .allowSelf
  allowSystem := Writes args .allowSystem
  allowEdits := Writes args .allowEdits
  allowBots := Writes args .allowBots
  mentionsMe := Writes args .mentionsMe
  textPrefix := (args.filterMap (Item.gives .textPrefix)).getLast?
  room := (args.filterMap (Item.gives .room)).getLast?
  authority := (args.filterMap Item.asks).getLast?

/-- **The filters that are declared.** -/
def declared (args : List Item) : Filters where
  allowSelf := Writes args .allowSelf
  allowSystem := Writes args .allowSystem
  allowEdits := Writes args .allowEdits
  allowBots := Writes args .allowBots
  mentionsMe := Writes args .mentionsMe
  textPrefix := (args.filterMap (Item.gives .textPrefix)).getLast?
  room := (args.filterMap (Item.gives .room)).getLast?
  authority := ((args.filterMap Item.asks).getLast?).getD .anyone

/-! ### What is read is what is declared -/

variable {args : List Item} {item : Item} {filters filters' : Arguments}

/-- An argument that is read says what it declares. -/
theorem read_eq_ok : filters.read item = .ok filters' ↔ item.Accepted ∧ filters' =
    { filters with
      allowSelf := filters.allowSelf || item.word = .allowSelf
      allowSystem := filters.allowSystem || item.word = .allowSystem
      allowEdits := filters.allowEdits || item.word = .allowEdits
      allowBots := filters.allowBots || item.word = .allowBots
      mentionsMe := filters.mentionsMe || item.word = .mentionsMe
      textPrefix := (item.gives .textPrefix).or filters.textPrefix
      room := (item.gives .room).or filters.room
      authority := item.asks.or filters.authority } := by
  unfold Arguments.read Item.Accepted Item.gives Item.asks
  cases item.word <;> cases item.tail <;> simp [Tail.finish, Tail.text, Except.map, eq_comm]

theorem writes_concat (word : Word) :
    decide (Writes (args ++ [item]) word) = (decide (Writes args word) || item.word = word) := by
  rw [Bool.eq_iff_iff, Bool.or_eq_true, decide_eq_true_iff, decide_eq_true_iff,
    decide_eq_true_iff]
  simp [Writes]

theorem getLast?_filterMap_concat {α : Type} (f : Item → Option α) :
    ((args ++ [item]).filterMap f).getLast? = (f item).or (args.filterMap f).getLast? := by
  rw [List.filterMap_append, List.getLast?_append]
  cases hitem : f item <;> simp [hitem]

/-- One more argument. -/
theorem declared_concat : Arguments.declared (args ++ [item]) =
    { Arguments.declared args with
      allowSelf := (Arguments.declared args).allowSelf || item.word = .allowSelf
      allowSystem := (Arguments.declared args).allowSystem || item.word = .allowSystem
      allowEdits := (Arguments.declared args).allowEdits || item.word = .allowEdits
      allowBots := (Arguments.declared args).allowBots || item.word = .allowBots
      mentionsMe := (Arguments.declared args).mentionsMe || item.word = .mentionsMe
      textPrefix := (item.gives .textPrefix).or (Arguments.declared args).textPrefix
      room := (item.gives .room).or (Arguments.declared args).room
      authority := item.asks.or (Arguments.declared args).authority } := by
  simp only [Arguments.declared, writes_concat, getLast?_filterMap_concat]

/-- **What is read is what is declared**, and what is refused is a mistake. -/
theorem parseFilters_eq_ok : parseFilters args = .ok filters ↔
    (∀ item ∈ args, item.Accepted) ∧ filters = .declared args := by
  induction args using List.reverseRecOn generalizing filters with
  | nil => exact ⟨fun h => ⟨by simp, (Except.ok.inj h).symm⟩, fun h => congrArg Except.ok h.2.symm⟩
  | append_singleton args item ih =>
    have hstep : parseFilters (args ++ [item]) =
        (parseFilters args).bind fun filters => filters.read item := by
      rw [parseFilters, List.foldlM_append]
      exact bind_congr fun filters => bind_pure _
    rw [hstep, declared_concat, List.forall_mem_append, List.forall_mem_singleton]
    cases hread : parseFilters args with
    | error error =>
      have hnot : ¬ ∀ item ∈ args, item.Accepted := fun h => by
        have hok : parseFilters args = .ok (.declared args) := ih.mpr ⟨h, rfl⟩
        simp [hread] at hok
      exact ⟨fun h => by simp [Except.bind] at h, fun h => absurd h.1.1 hnot⟩
    | ok read =>
      obtain ⟨haccepted, rfl⟩ := ih.mp hread
      refine read_eq_ok.trans ⟨fun h => ⟨⟨haccepted, h.1⟩, h.2⟩, fun h => ⟨h.1.2, h.2⟩⟩

/-- The calls that are written build the filters that are declared. -/
theorem build_render_declared : build (Arguments.declared args).render = declared args := rfl

/-! ### The function -/

/-- The type of a parameter, as it is written. -/
structure WrittenType where
  /-- The last segment of its path, if it is one. -/
  segment : Option String
  /-- Its first argument in angle brackets, if that is a type. -/
  argument : Option String
  deriving DecidableEq, Repr

/-- The type of the bot's data, if the type names it. -/
def WrittenType.dataType (ty : WrittenType) : Option String :=
  if ty.segment = some "Context" ∨ ty.segment = some "State" then ty.argument else none

/-- A parameter; `ξ` is what its type takes from an event. -/
structure Parameter (ξ : Type) where
  ty : WrittenType
  extractor : ξ

/-- The function under the attribute. -/
structure Function (ξ : Type) where
  name : String
  isAsync : Bool
  isGeneric : Bool
  hasOutput : Bool
  /-- Its parameters; `none` is a `self`. -/
  inputs : List (Option (Parameter ξ))

/-- What is generated: a handler. -/
structure Expansion (ξ : Type) where
  name : String
  /-- The type of the bot's data. -/
  data : String
  filters : List BuilderCall
  parameters : List (Parameter ξ)

variable {ξ : Type}

/-- The handler's parameters. -/
def collectParameters (function : Function ξ) : Except MacroError (List (Parameter ξ)) :=
  function.inputs.mapM fun
    | some typed => .ok typed
    | none => .error (.message "an event handler is a free function, not a method")

/-- Finds the bot's data type. -/
def inferDataType (parameters : List (Parameter ξ)) : Except MacroError String :=
  match parameters.findSome? fun parameter => parameter.ty.dataType with
  | some data => .ok data
  | none => .error (.message ("an event handler must take a `Context<D>` or `State<D>` " ++
      "parameter, so the macro can name the bot's data type in the handler it returns"))

/-- Turns the function into a handler. -/
def expand (function : Function ξ) (filters : Arguments) : Except MacroError (Expansion ξ) :=
  if !function.isAsync then .error (.message "an event handler must be `async`")
  else if function.isGeneric then
    .error (.message ("an event handler cannot be generic: it is stored as a value, so its type " ++
      "must be known at registration"))
  else if !function.hasOutput then
    .error (.message ("an event handler must return `Result<(), E>`, so a failure is reported " ++
      "rather than swallowed"))
  else do
    let parameters ← collectParameters function
    if parameters.isEmpty then
      .error (.message "an event handler needs at least one parameter: the event it handles")
    else do
      let data ← inferDataType parameters
      return { name := function.name, data, filters := filters.render, parameters }

/-- The attribute on a function. -/
structure Declaration (ξ : Type) where
  args : List Item
  function : Function ξ

/-- The attribute: its arguments are read first. -/
def event (declaration : Declaration ξ) : Except MacroError (Expansion ξ) := do
  let filters ← parseFilters declaration.args
  expand declaration.function filters

/-- A function that can be a handler. -/
structure Function.Accepted (function : Function ξ) (parameters : List (Parameter ξ)) : Prop where
  isAsync : function.isAsync = true
  isGeneric : function.isGeneric = false
  hasOutput : function.hasOutput = true
  inputs : function.inputs = parameters.map some

variable {function : Function ξ} {expansion : Expansion ξ} {declaration : Declaration ξ}

theorem ite_error_eq_ok {β : Type} {refused : Prop} [Decidable refused] {error : MacroError}
    {x : Except MacroError β} {b : β} :
    (if refused then .error error else x) = .ok b ↔ ¬ refused ∧ x = .ok b := by
  split <;> simp [*]

/-- Every input is a typed one. -/
theorem collectParameters_eq_ok {parameters : List (Parameter ξ)} :
    collectParameters function = .ok parameters ↔ function.inputs = parameters.map some := by
  rw [collectParameters, mapM_eq_ok, ← List.forall₂_eq_eq_eq, List.forall₂_map_right_iff]
  constructor
  · refine List.Forall₂.imp fun input parameter h => ?_
    cases input with
    | none => simp at h
    | some typed => rw [Except.ok.inj h]
  · refine List.Forall₂.imp fun input parameter h => ?_
    rw [h]

theorem inferDataType_eq_ok {parameters : List (Parameter ξ)} {data : String} :
    inferDataType parameters = .ok data ↔
      (parameters.findSome? fun parameter => parameter.ty.dataType) = some data := by
  unfold inferDataType
  cases parameters.findSome? fun parameter => parameter.ty.dataType <;> simp

/-- **What is generated**, and of which functions. -/
theorem event_eq_ok : event declaration = .ok expansion ↔
    (∀ item ∈ declaration.args, item.Accepted) ∧
      declaration.function.Accepted expansion.parameters ∧
      expansion.name = declaration.function.name ∧
      (expansion.parameters.findSome? fun parameter => parameter.ty.dataType) =
        some expansion.data ∧
      expansion.filters = (Arguments.declared declaration.args).render := by
  unfold event expand
  simp only [bind_eq_ok, parseFilters_eq_ok, ite_error_eq_ok, collectParameters_eq_ok,
    inferDataType_eq_ok]
  constructor
  · rintro ⟨filters, ⟨haccepted, rfl⟩, hasync, hgeneric, houtput, parameters, hinputs, -, data,
      hdata, he⟩
    obtain rfl := Except.ok.inj he
    exact ⟨haccepted, ⟨by simpa using hasync, by simpa using hgeneric, by simpa using houtput,
      hinputs⟩, rfl, hdata, rfl⟩
  · rintro ⟨haccepted, ⟨hasync, hgeneric, houtput, hinputs⟩, hname, hdata, hfilters⟩
    refine ⟨_, ⟨haccepted, rfl⟩, by simpa using hasync, by simpa using hgeneric,
      by simpa using houtput, expansion.parameters, hinputs, ?_, expansion.data, hdata, ?_⟩
    · -- a parameter that names the data is one
      intro hnone
      rw [List.isEmpty_iff.mp hnone] at hdata
      simp at hdata
    · rw [← hname, ← hfilters]
      rfl

end EventMacro

end RocketSocket
