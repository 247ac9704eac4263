import RocketSocket.Lib.Record
import RocketSocket.Model.Codec

/-!
# Structs and documents

What serde derives for a struct: every member is read and written on its own, by one of a few
ways to declare it.  The entities are documents of such structs, and a struct may stand inside
a member of another.

## Main definitions

* `Member` — a member of a struct; `required`, `optional`, `optionalDate`, `defaulted` and
  `skipped` are the ways the source declares one.
* `Schema`, `Doc` — a struct and its values; `Schema.codec` reads and writes it in a member.
* `Doc.instants` — all timestamps in a document.

## Main results

* `Doc.keeps_iff` — a document comes back as itself just if all its timestamps are kept.
-/

namespace RocketSocket

open Machine

/-! ### Members of a struct -/

/-- A member of a struct.  What it reads does not depend on the others; `blank` says that a
content that is not written is what an absent member is read as. -/
structure Member extends RecordField Value where
  instants : Content → List Timestamp
  rereads : ∀ {m c}, read m = some c → ((read (write c)).isSome ↔ ∀ t ∈ instants c, t.InRange)
  keeps : ∀ {m c}, read m = some c → (read (write c) = some c ↔ ∀ t ∈ instants c, t.Kept)
  blank : ∀ {m c}, read m = some c → write c = none → read none = some c

namespace Member

variable {α : Type}

section Required

variable {codec : Codec α} {m : Option Value} {a : α}

theorem read_of_requireMember (h : requireMember codec.read m = some a) :
    ∃ v, codec.read v = some a := by
  obtain ⟨v, -, hv⟩ := Option.bind_eq_some_iff.mp h
  exact ⟨v, hv⟩

theorem required_rereads (h : requireMember codec.read m = some a) :
    (requireMember codec.read (some (codec.write a))).isSome ↔
      ∀ t ∈ codec.instants a, t.InRange := by
  obtain ⟨v, hv⟩ := read_of_requireMember h
  exact codec.rereads hv

theorem required_keeps (h : requireMember codec.read m = some a) :
    requireMember codec.read (some (codec.write a)) = some a ↔
      ∀ t ∈ codec.instants a, t.Kept := by
  obtain ⟨v, hv⟩ := read_of_requireMember h
  exact codec.keeps hv

end Required

/-- A member that has to be there. -/
def required (key : String) (codec : Codec α) : Member where
  key := key
  Content := α
  read := requireMember codec.read
  write a := some (codec.write a)
  instants := codec.instants
  rereads := required_rereads
  keeps := required_keeps
  blank _ h := absurd h (Option.some_ne_none _)

section Optional

variable {codec : Codec α} {m : Option Value} {c : Option α}

/-- The timestamps of a content that may be missing. -/
def optionalInstants (codec : Codec α) (c : Option α) : List Timestamp :=
  c.elim [] codec.instants

theorem read_of_optionalMember {a : α} (h : optionalMember codec.read m = some (some a)) :
    ∃ v, v.isNull = false ∧ codec.read v = some a := by
  unfold optionalMember at h
  split at h
  · cases h
  · cases h
  · next v hv =>
    obtain ⟨b, hb, hba⟩ := Option.map_eq_some_iff.mp h
    obtain rfl := Option.some.inj hba
    refine ⟨v, ?_, hb⟩
    cases v with
    | null => exact absurd rfl hv
    | _ => rfl

theorem optionalMember_of_nonnull {read : Value → Option α} {v : Value}
    (hv : v.isNull = false) : optionalMember read (some v) = (read v).map some := by
  cases v with
  | null => cases hv
  | _ => rfl

theorem optional_rereads (h : optionalMember codec.read m = some c) :
    (optionalMember codec.read (c.map codec.write)).isSome ↔
      ∀ t ∈ optionalInstants codec c, t.InRange := by
  cases c with
  | none => exact ⟨fun _ t ht => (List.not_mem_nil ht).elim, fun _ => rfl⟩
  | some a =>
    obtain ⟨v, hnull, hv⟩ := read_of_optionalMember h
    rw [Option.map_some, optionalMember_of_nonnull (codec.nonnull hnull hv), Option.isSome_map]
    exact codec.rereads hv

theorem optional_keeps (h : optionalMember codec.read m = some c) :
    optionalMember codec.read (c.map codec.write) = some c ↔
      ∀ t ∈ optionalInstants codec c, t.Kept := by
  cases c with
  | none => exact ⟨fun _ t ht => (List.not_mem_nil ht).elim, fun _ => rfl⟩
  | some a =>
    obtain ⟨v, hnull, hv⟩ := read_of_optionalMember h
    rw [Option.map_some, optionalMember_of_nonnull (codec.nonnull hnull hv)]
    refine Iff.trans ?_ (codec.keeps hv)
    cases codec.read (codec.write a) <;> simp

theorem optional_blank (h : c.map codec.write = none) :
    optionalMember codec.read none = some c := by
  rw [Option.map_eq_none_iff.mp h]
  rfl

end Optional

/-- A member that may be absent or `null`, and is not written if it is missing. -/
def optional (key : String) (codec : Codec α) : Member where
  key := key
  Content := Option α
  read := optionalMember codec.read
  write := Option.map codec.write
  instants := optionalInstants codec
  rereads := optional_rereads
  keeps := optional_keeps
  blank _ := optional_blank

section OptionalDate

variable {parse : String → Option Timestamp} {c : Option Timestamp}

/-- What `datetime::option` reads. -/
def readOptionalDate (parse : String → Option Timestamp) :
    Option Value → Option (Option Timestamp)
  | none => some none
  | some v => Timestamp.visit parse v

theorem optionalDate_rereads : (readOptionalDate parse (c.map Timestamp.toValue)).isSome ↔
    ∀ t ∈ c.toList, t.InRange := by
  cases c with
  | none => exact ⟨fun _ t ht => (List.not_mem_nil ht).elim, fun _ => rfl⟩
  | some t =>
    rw [Option.map_some, readOptionalDate, Timestamp.visit_toValue, Option.isSome_map,
      Option.toList_some, List.forall_mem_singleton]
    exact Timestamp.fromUnixMillis_unixMillis_isSome t

theorem optionalDate_keeps : readOptionalDate parse (c.map Timestamp.toValue) = some c ↔
    ∀ t ∈ c.toList, t.Kept := by
  cases c with
  | none => exact ⟨fun _ t ht => (List.not_mem_nil ht).elim, fun _ => rfl⟩
  | some t =>
    rw [Option.map_some, readOptionalDate, Timestamp.visit_toValue, Option.toList_some,
      List.forall_mem_singleton, Timestamp.Kept, ← Timestamp.fromUnixMillis_unixMillis_eq_some]
    cases Timestamp.fromUnixMillis t.unixMillis <;> simp

theorem optionalDate_blank (h : c.map Timestamp.toValue = none) :
    readOptionalDate parse none = some c := by
  rw [Option.map_eq_none_iff.mp h]
  rfl

end OptionalDate

/-- A timestamp that may be absent or have a form of `null`, `{"$date": null}` among them. -/
def optionalDate (parse : String → Option Timestamp) (key : String) : Member where
  key := key
  Content := Option Timestamp
  read := readOptionalDate parse
  write := Option.map Timestamp.toValue
  instants := Option.toList
  rereads _ := optionalDate_rereads
  keeps _ := optionalDate_keeps
  blank _ := optionalDate_blank

section Listed

/-- The codec reads back an empty list or map, which holds no timestamp. -/
structure KeepsEmpty (codec : Codec (List α)) : Prop where
  read : codec.read (codec.write []) = some []
  instants : codec.instants [] = []

variable {codec : Codec (List α)} {m : Option Value} {c : List α}

theorem listed_rereads (hempty : KeepsEmpty codec)
    (h : defaultMember codec.read [] m = some c) :
    (codec.read (codec.write c)).isSome ↔ ∀ t ∈ codec.instants c, t.InRange := by
  cases m with
  | none =>
    obtain rfl := Option.some.inj h
    simp [hempty.read, hempty.instants]
  | some v => exact codec.rereads h

theorem listed_keeps (hempty : KeepsEmpty codec)
    (h : defaultMember codec.read [] m = some c) :
    codec.read (codec.write c) = some c ↔ ∀ t ∈ codec.instants c, t.Kept := by
  cases m with
  | none =>
    obtain rfl := Option.some.inj h
    simp [hempty.read, hempty.instants]
  | some v => exact codec.keeps h

/-- The member of a list that is left out if it is empty. -/
def writeListed (codec : Codec (List α)) (c : List α) : Option Value :=
  if c.isEmpty then none else some (codec.write c)

theorem unlessEmpty_rereads (hempty : KeepsEmpty codec)
    (h : defaultMember codec.read [] m = some c) :
    (defaultMember codec.read [] (writeListed codec c)).isSome ↔
      ∀ t ∈ codec.instants c, t.InRange := by
  cases c with
  | nil => simp [writeListed, defaultMember, hempty.instants]
  | cons a c => exact listed_rereads hempty h

theorem unlessEmpty_keeps (hempty : KeepsEmpty codec)
    (h : defaultMember codec.read [] m = some c) :
    defaultMember codec.read [] (writeListed codec c) = some c ↔
      ∀ t ∈ codec.instants c, t.Kept := by
  cases c with
  | nil => simp [writeListed, defaultMember, hempty.instants]
  | cons a c => exact listed_keeps hempty h

theorem unlessEmpty_blank (h : writeListed codec c = none) :
    defaultMember codec.read [] none = some c := by
  cases c with
  | nil => rfl
  | cons a c => cases h

end Listed

/-- A list or map that may be absent, but not `null`, and is always written. -/
def defaulted (key : String) (codec : Codec (List α)) (hempty : KeepsEmpty codec) : Member where
  key := key
  Content := List α
  read := defaultMember codec.read []
  write c := some (codec.write c)
  instants := codec.instants
  rereads := listed_rereads hempty
  keeps := listed_keeps hempty
  blank _ h := absurd h (Option.some_ne_none _)

/-- A list or map that may be absent, but not `null`, and is not written if it is empty. -/
def skipped (key : String) (codec : Codec (List α)) (hempty : KeepsEmpty codec) : Member where
  key := key
  Content := List α
  read := defaultMember codec.read []
  write := writeListed codec
  instants := codec.instants
  rereads := unlessEmpty_rereads hempty
  keeps := unlessEmpty_keeps hempty
  blank _ := unlessEmpty_blank

end Member

/-! ### Structs -/

/-- A struct: its members, no two under one name. -/
structure Schema where
  members : List Member
  nodup : (members.map fun member => member.key).Nodup

namespace Schema

/-- The name of a member. -/
def field (s : Schema) (j : Fin s.members.length) : RecordField Value :=
  (s.members.get j).toRecordField

/-- The names of the members. -/
def names (s : Schema) : List String := s.members.map fun member => member.key

theorem field_key_injective (s : Schema) : Function.Injective fun j => (s.field j).key := by
  intro j j' h
  have hmember : s.members.get j = s.members.get j' :=
    List.inj_on_of_nodup_map s.nodup (List.get_mem _ j) (List.get_mem _ j') h
  exact List.nodup_iff_injective_get.mp (List.Nodup.of_map _ s.nodup) hmember

end Schema

/-- A value of a struct. -/
abbrev Doc (s : Schema) : Type := Record s.field

namespace Doc

variable {s : Schema}

/-- The timestamps in the members of a document that pass the test. -/
def instantsOf (d : Doc s) (p : Fin s.members.length → Prop) [DecidablePred p] :
    List Timestamp :=
  ((List.finRange s.members.length).filter p).flatMap fun j => (s.members.get j).instants (d j)

/-- The timestamps in a document. -/
def instants (d : Doc s) : List Timestamp := d.instantsOf fun _ => True

theorem forall_instantsOf {d : Doc s} {p : Fin s.members.length → Prop} [DecidablePred p]
    {P : Timestamp → Prop} : (∀ t ∈ d.instantsOf p, P t) ↔
      ∀ j, p j → ∀ t ∈ (s.members.get j).instants (d j), P t := by
  rw [instantsOf, List.forall_mem_flatMap]
  simp

theorem forall_instants {d : Doc s} {P : Timestamp → Prop} :
    (∀ t ∈ d.instants, P t) ↔ ∀ j, ∀ t ∈ (s.members.get j).instants (d j), P t := by
  simp [instants, forall_instantsOf]

/-- A document that was read is read back member by member. -/
theorem member_keeps {d : Doc s} (h : d.Decoded) (j : Fin s.members.length) :
    (s.field j).read ((s.field j).write (d j)) = some (d j) ↔
      ∀ t ∈ (s.members.get j).instants (d j), t.Kept := by
  obtain ⟨members, hread⟩ := h
  exact (s.members.get j).keeps (Record.read_eq_some.mp hread j)

theorem member_rereads {d : Doc s} (h : d.Decoded) (j : Fin s.members.length) :
    ((s.field j).read ((s.field j).write (d j))).isSome ↔
      ∀ t ∈ (s.members.get j).instants (d j), t.InRange := by
  obtain ⟨members, hread⟩ := h
  exact (s.members.get j).rereads (Record.read_eq_some.mp hread j)

/-- **A document comes back as itself just if all its timestamps are kept.** -/
theorem keeps_iff {d : Doc s} (h : d.Decoded) : d.Keeps ↔ ∀ t ∈ d.instants, t.Kept := by
  rw [forall_instants]
  exact forall_congr' (member_keeps h)

end Doc

namespace Schema

variable {s : Schema} {v : Value} {d : Doc s}

/-- A document read from a member that is a struct. -/
def readStruct (s : Schema) (v : Value) : Option (Doc s) :=
  (structFields s.names v).bind fun field => Record.read fun j => field (s.field j).key

theorem decoded_of_readStruct (h : s.readStruct v = some d) : d.Decoded := by
  obtain ⟨field, -, hread⟩ := Option.bind_eq_some_iff.mp h
  exact ⟨_, hread⟩

theorem readStruct_write (d : Doc s) : s.readStruct (.object d.write) =
    (Record.read fun j => (s.field j).write (d j) : Option (Doc s)) := by
  have hcount : ∀ name ∈ s.names, (d.write.map Prod.fst).count name ≤ 1 := fun name _ =>
    List.nodup_iff_count_le_one.mp (Record.keys_write_nodup s.field_key_injective d) name
  rw [readStruct, structFields, if_pos hcount, Option.bind_some]
  exact congrArg Record.read (funext fun j => Record.lookup_write s.field_key_injective d j)

theorem struct_rereads (h : s.readStruct v = some d) :
    (s.readStruct (.object d.write)).isSome ↔ ∀ t ∈ d.instants, t.InRange := by
  rw [readStruct_write, Record.read_isSome, Doc.forall_instants]
  exact forall_congr' (Doc.member_rereads (decoded_of_readStruct h))

theorem struct_keeps (h : s.readStruct v = some d) :
    s.readStruct (.object d.write) = some d ↔ ∀ t ∈ d.instants, t.Kept := by
  rw [readStruct_write, Record.read_eq_some, Doc.forall_instants]
  exact forall_congr' (Doc.member_keeps (decoded_of_readStruct h))

/-- A struct in a member. -/
def codec (s : Schema) : Codec (Doc s) where
  read := s.readStruct
  write d := .object d.write
  instants := Doc.instants
  rereads := struct_rereads
  keeps := struct_keeps
  nonnull _ _ := rfl

end Schema

/-- The document of an entity. -/
instance (s : Schema) : Document (Doc s) where
  toObject d := some d.toTable
  ofObject := Record.ofTable

end RocketSocket
