import RocketSocket.Model.Entity
import RocketSocket.Model.Frames
import RocketSocket.Model.Timestamp
import Mathlib.Data.String.Basic

/-!
# Reading and writing values

serde's two directions for the types the entities are made of.  What may be lost between the
two directions is the timestamps: each codec names those inside a value, and a value that was
read comes back from what it is written to just if each of them does.

## Main definitions

* `Timestamp.Kept` — the timestamp is read back unchanged.
* `Codec` — the two directions for a type, with what comes back.
* `Codec.string`, `Codec.i64`, `Codec.list`, `Codec.map` and so on — the types of the members.
-/

namespace RocketSocket

open Machine

/-- The timestamp is read back unchanged from what it is written to. -/
def Timestamp.Kept (t : Timestamp) : Prop := t.InRange ∧ t.WholeMillis

instance (t : Timestamp) : Decidable t.Kept := inferInstanceAs (Decidable (_ ∧ _))

/-- The two directions for a type.  `instants` are the timestamps inside a value; a value that
was read is read back just if all of them are in range, and as itself just if they have whole
milliseconds as well.  Only `null` is written as `null`. -/
structure Codec (α : Type) where
  read : Value → Option α
  write : α → Value
  instants : α → List Timestamp
  rereads : ∀ {v a}, read v = some a →
    ((read (write a)).isSome ↔ ∀ t ∈ instants a, t.InRange)
  keeps : ∀ {v a}, read v = some a → (read (write a) = some a ↔ ∀ t ∈ instants a, t.Kept)
  nonnull : ∀ {v a}, v.isNull = false → read v = some a → (write a).isNull = false

namespace Codec

variable {α : Type}

/-- The codec of a type without timestamps, whose values all come back. -/
def timeless (read : Value → Option α) (write : α → Value)
    (keeps : ∀ {v a}, read v = some a → read (write a) = some a)
    (nonnull : ∀ {v a}, v.isNull = false → read v = some a → (write a).isNull = false) :
    Codec α where
  read := read
  write := write
  instants _ := []
  rereads h := by simp [keeps h]
  keeps h := by simp [keeps h]
  nonnull := nonnull

/-- A string, or an id, which is transparent to serde. -/
def string : Codec String := timeless Value.asStr .string (fun _ => rfl) (fun _ _ => rfl)

/-- A `bool`. -/
def bool : Codec Bool := timeless Value.asBool .bool (fun _ => rfl) (fun _ _ => rfl)

/-! ### Numbers -/

theorem asI64_keeps {v : Value} {n : ℤ} (h : v.asI64 = some n) :
    (Value.int n).asI64 = some n := by
  cases v with
  | int m =>
    have hm : m = n := by
      simp only [Value.asI64] at h
      split at h
      · exact Option.some.inj h
      · cases h
    rw [← hm] at h ⊢
    exact h
  | _ => cases h

/-- An `i64`. -/
def i64 : Codec ℤ := timeless Value.asI64 .int asI64_keeps (fun _ _ => rfl)

/-- The bits of the double nearest to a natural number, of two that are as near the even one. -/
def doubleOfNat (n : ℕ) : ℕ :=
  if n = 0 then 0
  else
    let exponent := Nat.log2 n
    let mantissa :=
      if exponent ≤ 52 then n <<< (52 - exponent)
      else
        let unit := 1 <<< (exponent - 52)
        let quotient := n / unit
        let rest := 2 * (n % unit)
        if unit < rest ∨ (rest = unit ∧ quotient % 2 = 1) then quotient + 1 else quotient
    -- The leading bit of the mantissa is not stored, and so counts as one exponent.
    (exponent + 1022) * 4503599627370496 + mantissa

/-- The bits of `n as f64`. -/
def doubleOfInt (n : ℤ) : UInt64 :=
  if n < 0 then UInt64.ofNat (9223372036854775808 + doubleOfNat n.natAbs)
  else UInt64.ofNat (doubleOfNat n.natAbs)

/-- The bits of an `f64`, which may arrive as a number without a fraction. -/
def readF64 : Value → Option UInt64
  | .int n => some (doubleOfInt n)
  | .float bits => some bits
  | _ => none

/-- An `f64`, by its bits. -/
def f64 : Codec UInt64 := timeless readF64 .float (fun _ => rfl) (fun _ _ => rfl)

/-! ### Raw JSON and enums -/

theorem value_nonnull {v a : Value} (hv : v.isNull = false) (h : some v = some a) :
    a.isNull = false := Option.some.inj h ▸ hv

/-- A value kept as it is. -/
def value : Codec Value := timeless some id (fun _ => rfl) value_nonnull

/-- A wire enum: one of the values the crate knows, by its place, or any other string. -/
inductive WireEnum (known : List String) where
  | known (place : Fin known.length)
  | unknown (wire : String)
  deriving DecidableEq

namespace WireEnum

variable {known : List String}

/-- The value as it appears on the wire. -/
def asStr : WireEnum known → String
  | .known place => known.get place
  | .unknown wire => wire

/-- Every string is a value of the enum. -/
def ofStr (wire : String) : WireEnum known :=
  if h : known.idxOf wire < known.length then .known ⟨known.idxOf wire, h⟩ else .unknown wire

theorem asStr_ofStr (wire : String) : (ofStr wire : WireEnum known).asStr = wire := by
  unfold ofStr
  split
  · next h => exact List.idxOf_get h
  · rfl

/-- The value a string stands for. -/
def read (v : Value) : Option (WireEnum known) := v.asStr.map ofStr

theorem read_asStr {v : Value} {e : WireEnum known} (h : read v = some e) :
    (read (.string e.asStr) : Option (WireEnum known)) = some e := by
  obtain ⟨wire, -, rfl⟩ := Option.map_eq_some_iff.mp h
  rw [read, asStr_ofStr]
  rfl

end WireEnum

/-- A wire enum. -/
def wireEnum (known : List String) : Codec (WireEnum known) :=
  timeless WireEnum.read (fun e => .string e.asStr) WireEnum.read_asStr (fun _ _ => rfl)

/-! ### Timestamps -/

theorem timestamp_rereads (parse : String → Option Timestamp) (t : Timestamp) :
    (Timestamp.ofValue parse t.toValue).isSome ↔ t.InRange := by
  rw [Timestamp.ofValue, Timestamp.visit_toValue, ← Timestamp.fromUnixMillis_unixMillis_isSome]
  cases Timestamp.fromUnixMillis t.unixMillis <;> rfl

theorem timestamp_keeps (parse : String → Option Timestamp) (t : Timestamp) :
    Timestamp.ofValue parse t.toValue = some t ↔ t.Kept := by
  rw [Timestamp.ofValue, Timestamp.visit_toValue, Timestamp.Kept,
    ← Timestamp.fromUnixMillis_unixMillis_eq_some]
  cases Timestamp.fromUnixMillis t.unixMillis with
  | none => simp
  | some t' => simp

/-- A timestamp that has to be there. -/
def timestamp (parse : String → Option Timestamp) : Codec Timestamp where
  read := Timestamp.ofValue parse
  write := Timestamp.toValue
  instants t := [t]
  rereads {_ t} _ := (timestamp_rereads parse t).trans List.forall_mem_singleton.symm
  keeps {_ t} _ := (timestamp_keeps parse t).trans List.forall_mem_singleton.symm
  nonnull _ _ := rfl

/-! ### Lists -/

section List

variable {β : Type} {read : β → Option α} {write : α → β}

theorem exists_of_mapM {items : List β} {l : List α} (h : items.mapM read = some l) :
    ∀ a ∈ l, ∃ v ∈ items, read v = some a := by
  induction items generalizing l with
  | nil =>
    obtain rfl := Option.some.inj h
    intro a ha
    cases ha
  | cons v items ih =>
    simp only [List.mapM_cons, Option.bind_eq_bind, Option.bind_eq_some_iff] at h
    obtain ⟨b, hb, bs, hbs, hl⟩ := h
    obtain rfl := Option.some.inj hl
    intro a ha
    rcases List.mem_cons.mp ha with rfl | ha
    · exact ⟨v, List.mem_cons_self, hb⟩
    · obtain ⟨w, hw, hread⟩ := ih hbs a ha
      exact ⟨w, List.mem_cons_of_mem v hw, hread⟩

theorem mapM_isSome {items : List β} :
    (items.mapM read).isSome ↔ ∀ v ∈ items, (read v).isSome := by
  induction items with
  | nil => simp
  | cons v items ih =>
    rw [List.mapM_cons, List.forall_mem_cons, ← ih]
    cases read v with
    | none => simp
    | some a => cases items.mapM read <;> simp

theorem mapM_map_eq_some {l : List α} :
    (l.map write).mapM read = some l ↔ ∀ a ∈ l, read (write a) = some a := by
  induction l with
  | nil => simp
  | cons a l ih =>
    rw [List.map_cons, List.mapM_cons, List.forall_mem_cons, ← ih]
    simp only [Option.bind_eq_bind, Option.pure_def, Option.bind_eq_some_iff, Option.some.injEq,
      List.cons.injEq]
    constructor
    · rintro ⟨b, hb, bs, hbs, rfl, rfl⟩
      exact ⟨hb, hbs⟩
    · rintro ⟨hb, hbs⟩
      exact ⟨a, hb, l, hbs, rfl, rfl⟩

end List

section Vec

variable {codec : Codec α} {v : Value} {l : List α}

theorem exists_of_asListOf (h : v.asListOf codec.read = some l) :
    ∀ a ∈ l, ∃ item, codec.read item = some a := by
  obtain ⟨items, -, hl⟩ := Option.bind_eq_some_iff.mp h
  intro a ha
  obtain ⟨item, -, hitem⟩ := exists_of_mapM hl a ha
  exact ⟨item, hitem⟩

theorem list_rereads (h : v.asListOf codec.read = some l) :
    ((Value.array (l.map codec.write)).asListOf codec.read).isSome ↔
      ∀ t ∈ l.flatMap codec.instants, t.InRange := by
  change ((l.map codec.write).mapM codec.read).isSome ↔ _
  rw [mapM_isSome, List.forall_mem_map, List.forall_mem_flatMap]
  refine forall₂_congr fun a ha => ?_
  obtain ⟨item, hitem⟩ := exists_of_asListOf h a ha
  exact codec.rereads hitem

theorem list_keeps (h : v.asListOf codec.read = some l) :
    (Value.array (l.map codec.write)).asListOf codec.read = some l ↔
      ∀ t ∈ l.flatMap codec.instants, t.Kept := by
  change (l.map codec.write).mapM codec.read = some l ↔ _
  rw [mapM_map_eq_some, List.forall_mem_flatMap]
  refine forall₂_congr fun a ha => ?_
  obtain ⟨item, hitem⟩ := exists_of_asListOf h a ha
  exact codec.keeps hitem

end Vec

/-- A `Vec`. -/
def list (codec : Codec α) : Codec (List α) where
  read := Value.asListOf codec.read
  write l := .array (l.map codec.write)
  instants l := l.flatMap codec.instants
  rereads := list_rereads
  keeps := list_keeps
  nonnull _ _ := rfl

/-- The strings of a list, without its elements that are `null`. -/
def readNullableStrings (v : Value) : Option (List String) :=
  (v.asListOf fun item => optionalMember Value.asStr (some item)).map (List.filterMap id)

theorem nullableStrings_keeps (l : List String) :
    readNullableStrings (.array (l.map .string)) = some l := by
  have hread : ((Value.array (l.map .string)).asListOf fun item =>
      optionalMember Value.asStr (some item)) = some (l.map some) := by
    change ((l.map Value.string).mapM fun item => optionalMember Value.asStr (some item)) = _
    induction l with
    | nil => rfl
    | cons s l ih =>
      rw [List.map_cons, List.mapM_cons, ih]
      rfl
  rw [readNullableStrings, hread, Option.map_some]
  simp

/-- The lists of `nullable_strings`. -/
def nullableStrings : Codec (List String) :=
  timeless readNullableStrings (fun l => .array (l.map .string)) (fun _ => nullableStrings_keeps _)
    (fun _ _ => rfl)

/-! ### Maps

A `BTreeMap` is kept as the list of its entries in the order of the keys. -/

section Map

/-- Puts an entry in its place, over an older one with the same key. -/
def insertEntry (entry : String × α) : List (String × α) → List (String × α)
  | [] => [entry]
  | first :: l =>
    if entry.1 < first.1 then entry :: first :: l
    else if entry.1 = first.1 then entry :: l
    else first :: insertEntry entry l

/-- The map with such entries, of which later ones replace earlier ones. -/
def mapOfEntries (entries : List (String × α)) : List (String × α) :=
  entries.foldl (fun l entry => insertEntry entry l) []

/-- The keys are in order, and none stands twice. -/
def Sorted (l : List (String × α)) : Prop := (l.map Prod.fst).Pairwise (· < ·)

theorem mem_insertEntry {entry e : String × α} {l : List (String × α)}
    (h : e ∈ insertEntry entry l) : e = entry ∨ e ∈ l := by
  induction l with
  | nil => exact .inl (List.mem_singleton.mp h)
  | cons first l ih =>
    rw [insertEntry] at h
    split at h
    · exact List.mem_cons.mp h
    · split at h
      · exact (List.mem_cons.mp h).imp_right (List.mem_cons_of_mem first)
      · rcases List.mem_cons.mp h with rfl | h
        · exact .inr List.mem_cons_self
        · exact (ih h).imp_right (List.mem_cons_of_mem first)

theorem Sorted.insertEntry {l : List (String × α)} (h : Sorted l) (entry : String × α) :
    Sorted (insertEntry entry l) := by
  induction l with
  | nil => exact List.pairwise_singleton _ _
  | cons first l ih =>
    have hcons := List.pairwise_cons.mp h
    rw [Codec.insertEntry]
    split
    · next hlt =>
      refine List.pairwise_cons.mpr ⟨fun k hk => ?_, h⟩
      rcases List.mem_cons.mp hk with rfl | hk
      · exact hlt
      · exact hlt.trans (hcons.1 k hk)
    · split
      · next heq =>
        refine List.pairwise_cons.mpr ⟨fun k hk => ?_, hcons.2⟩
        rw [heq]
        exact hcons.1 k hk
      · next hlt hne =>
        refine List.pairwise_cons.mpr ⟨fun k hk => ?_, ih hcons.2⟩
        obtain ⟨e, he, rfl⟩ := List.mem_map.mp hk
        rcases mem_insertEntry he with rfl | he
        · exact lt_of_le_of_ne (not_lt.mp hlt) fun heq => hne heq.symm
        · exact hcons.1 _ (List.mem_map_of_mem he)

theorem insertEntry_last {l : List (String × α)} {entry : String × α}
    (h : ∀ e ∈ l, e.1 < entry.1) : insertEntry entry l = l ++ [entry] := by
  induction l with
  | nil => rfl
  | cons first l ih =>
    have hlt := h first List.mem_cons_self
    rw [insertEntry, if_neg hlt.not_gt, if_neg hlt.ne', List.cons_append,
      ih fun e he => h e (List.mem_cons_of_mem first he)]

theorem sorted_mapOfEntries (entries : List (String × α)) : Sorted (mapOfEntries entries) := by
  unfold mapOfEntries
  have hnil : Sorted ([] : List (String × α)) := List.Pairwise.nil
  revert hnil
  generalize ([] : List (String × α)) = l
  intro hl
  induction entries generalizing l with
  | nil => exact hl
  | cons entry entries ih => exact ih _ (hl.insertEntry entry)

theorem mem_mapOfEntries {entries : List (String × α)} :
    ∀ e ∈ mapOfEntries entries, e ∈ entries := by
  have hfold : ∀ l : List (String × α), ∀ e ∈
      entries.foldl (fun l entry => insertEntry entry l) l, e ∈ l ∨ e ∈ entries := by
    induction entries with
    | nil => exact fun l e he => .inl he
    | cons entry entries ih =>
      intro l e he
      rcases ih _ e he with he | he
      · rcases mem_insertEntry he with rfl | he
        · exact .inr List.mem_cons_self
        · exact .inl he
      · exact .inr (List.mem_cons_of_mem entry he)
  intro e he
  exact (hfold [] e he).resolve_left (List.not_mem_nil)

theorem mapOfEntries_of_sorted {l : List (String × α)} (h : Sorted l) : mapOfEntries l = l := by
  have hfold : ∀ front : List (String × α), Sorted (front ++ l) →
      l.foldl (fun l entry => insertEntry entry l) front = front ++ l := by
    clear h
    induction l with
    | nil => exact fun front _ => (List.append_nil front).symm
    | cons entry l ih =>
      intro front hsorted
      have hlast : ∀ e ∈ front, e.1 < entry.1 := by
        intro e he
        rw [Sorted, List.map_append, List.pairwise_append] at hsorted
        exact hsorted.2.2 _ (List.mem_map_of_mem he) _ List.mem_cons_self
      rw [List.foldl_cons, insertEntry_last hlast, ih]
      · rw [List.append_assoc, List.singleton_append]
      · rwa [List.append_assoc, List.singleton_append]
  exact hfold [] h

variable {codec : Codec α} {v : Value} {l : List (String × α)}

/-- The value of an entry. -/
def readEntry (codec : Codec α) (member : String × Value) : Option (String × α) :=
  (codec.read member.2).map (Prod.mk member.1)

/-- The entry as a member. -/
def writeEntry (codec : Codec α) (entry : String × α) : String × Value :=
  (entry.1, codec.write entry.2)

/-- The map an object holds. -/
def readMap (codec : Codec α) (v : Value) : Option (List (String × α)) :=
  (v.asMembers.bind fun members => members.mapM (readEntry codec)).map mapOfEntries

/-- A map that was read is in order, and its values were read. -/
theorem of_readMap (h : readMap codec v = some l) :
    Sorted l ∧ ∀ e ∈ l, ∃ item, codec.read item = some e.2 := by
  obtain ⟨entries, hentries, rfl⟩ := Option.map_eq_some_iff.mp h
  obtain ⟨members, -, hmembers⟩ := Option.bind_eq_some_iff.mp hentries
  refine ⟨sorted_mapOfEntries entries, fun e he => ?_⟩
  obtain ⟨member, -, hread⟩ := exists_of_mapM hmembers e (mem_mapOfEntries e he)
  obtain ⟨a, ha, rfl⟩ := Option.map_eq_some_iff.mp hread
  exact ⟨member.2, ha⟩

theorem readEntry_writeEntry (e : String × α) : readEntry codec (writeEntry codec e) =
    (codec.read (codec.write e.2)).map (Prod.mk e.1) := rfl

theorem map_rereads (h : readMap codec v = some l) :
    (readMap codec (.object (l.map (writeEntry codec)))).isSome ↔
      ∀ t ∈ l.flatMap fun e => codec.instants e.2, t.InRange := by
  obtain ⟨-, hall⟩ := of_readMap h
  change (((l.map (writeEntry codec)).mapM (readEntry codec)).map mapOfEntries).isSome ↔ _
  rw [Option.isSome_map, mapM_isSome, List.forall_mem_map, List.forall_mem_flatMap]
  refine forall₂_congr fun e he => ?_
  obtain ⟨item, hitem⟩ := hall e he
  rw [readEntry_writeEntry, Option.isSome_map]
  exact codec.rereads hitem

/-- The entries of a map that is written come back in their order. -/
theorem keys_of_mapM {entries : List (String × α)}
    (h : (l.map (writeEntry codec)).mapM (readEntry codec) = some entries) :
    entries.map Prod.fst = l.map Prod.fst := by
  induction l generalizing entries with
  | nil =>
    obtain rfl := Option.some.inj h
    rfl
  | cons e l ih =>
    simp only [List.map_cons, List.mapM_cons, Option.bind_eq_bind, Option.bind_eq_some_iff] at h
    obtain ⟨b, hb, bs, hbs, hentries⟩ := h
    obtain rfl := Option.some.inj hentries
    rw [readEntry_writeEntry] at hb
    obtain ⟨a, -, rfl⟩ := Option.map_eq_some_iff.mp hb
    rw [List.map_cons, List.map_cons, ih hbs]

theorem map_keeps (h : readMap codec v = some l) :
    readMap codec (.object (l.map (writeEntry codec))) = some l ↔
      ∀ t ∈ l.flatMap fun e => codec.instants e.2, t.Kept := by
  obtain ⟨hsorted, hall⟩ := of_readMap h
  have hmap : readMap codec (.object (l.map (writeEntry codec))) = some l ↔
      (l.map (writeEntry codec)).mapM (readEntry codec) = some l := by
    change ((l.map (writeEntry codec)).mapM (readEntry codec)).map mapOfEntries = some l ↔ _
    constructor
    · intro hread
      obtain ⟨entries, hentries, heq⟩ := Option.map_eq_some_iff.mp hread
      -- What comes back has the keys of `l`, so it is in order already.
      have hkeys : Sorted entries := by
        rw [Sorted, keys_of_mapM hentries]
        exact hsorted
      rw [mapOfEntries_of_sorted hkeys] at heq
      rw [hentries, heq]
    · intro hread
      rw [hread, Option.map_some, mapOfEntries_of_sorted hsorted]
  rw [hmap, mapM_map_eq_some, List.forall_mem_flatMap]
  refine forall₂_congr fun e he => ?_
  obtain ⟨item, hitem⟩ := hall e he
  rw [readEntry_writeEntry, ← codec.keeps hitem]
  cases codec.read (codec.write e.2) with
  | none => simp
  | some a =>
    obtain ⟨k, b⟩ := e
    simp

end Map

/-- A `BTreeMap` with strings as keys. -/
def map (codec : Codec α) : Codec (List (String × α)) where
  read := readMap codec
  write l := .object (l.map (writeEntry codec))
  instants l := l.flatMap fun e => codec.instants e.2
  rereads := map_rereads
  keeps := map_keeps
  nonnull _ _ := rfl

end Codec

end RocketSocket
