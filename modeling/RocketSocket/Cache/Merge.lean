import RocketSocket.Model.Entity

/-!
# Merging a projected document into a cached one

A payload carries only some members of its entity.  A merge writes the members it carries
over the cached ones, at the top level of the two JSON documents.

## Main definitions

* `mergeDocuments` — the merge, which falls back to the incoming document.
* `FallsBack` — when it does.

## Main results

* `mergeDocuments_eq_incoming_iff` — a merge yields the incoming document where it falls back on
  it, or where nothing but that is read from the overlaid object.
* `fallsBack_of_late` — **a date that is not read back makes a merge fall back.**
* `mergeDocuments_required` — a merged document keeps the required strings of the incoming
  one, and so its identity.
-/

namespace RocketSocket

open Machine

/-- The cached document overlaid with every member the incoming one carried.  If either does
not serialize to an object, or the overlaid object does not decode, the incoming document is
the answer. -/
def mergeDocuments {T : Type} [Document T] (cached incoming : T) : T :=
  match Document.toObject cached, Document.toObject incoming with
  | some merged, some patch => (Document.ofObject (patch ∪ merged)).getD incoming
  | _, _ => incoming

/-- The merge answers with the incoming document: one of the two does not serialize to an
object, or the overlaid object does not decode. -/
def FallsBack {T : Type} [Document T] (cached incoming : T) : Prop :=
  ∀ merged patch, Document.toObject cached = some merged →
    Document.toObject incoming = some patch → Document.ofObject (T := T) (patch ∪ merged) = none

/-- **When a merge yields the incoming document**: it falls back on it, or reads it again. -/
theorem mergeDocuments_eq_incoming_iff {T : Type} [Document T] {cached incoming : T} :
    mergeDocuments cached incoming = incoming ↔ FallsBack cached incoming ∨
      ∃ merged patch, Document.toObject cached = some merged ∧
        Document.toObject incoming = some patch ∧
        Document.ofObject (patch ∪ merged) = some incoming := by
  unfold mergeDocuments FallsBack
  cases hcached : Document.toObject cached with
  | none => simp
  | some merged =>
    cases hincoming : Document.toObject incoming with
    | none => simp
    | some patch =>
      cases hread : (Document.ofObject (patch ∪ merged) : Option T) with
      | none => simp [hread]
      | some d => simp [hread]

/-- A date the incoming object has is one of the overlaid object. -/
theorem Object.late_union {dates : List (String × (Value → Bool))} {patch merged : Object}
    (h : patch.late dates = true) : Object.late dates (patch ∪ merged) = true := by
  obtain ⟨date, hdate, hlate⟩ := List.any_eq_true.mp h
  obtain ⟨value, hvalue, hlate⟩ := (Option.any_eq_true _ _).mp hlate
  refine List.any_eq_true.mpr ⟨date, hdate, (Option.any_eq_true _ _).mpr ⟨value, ?_, hlate⟩⟩
  rw [Finmap.lookup_union_left (Finmap.mem_of_lookup_eq_some hvalue)]
  exact hvalue

/-- **A merge falls back where a date of the payload is not read back.** -/
theorem fallsBack_of_late {T : Type} [Document T] {dates : List (String × (Value → Bool))}
    (hrefuses : ∀ o : Object, o.late dates = true → (Document.ofObject o : Option T) = none)
    {cached incoming : T} {patch : Object} (hpatch : Document.toObject incoming = some patch)
    (hlate : patch.late dates = true) : FallsBack cached incoming := by
  intro merged patch' _ hpatch'
  obtain rfl := Option.some.inj (hpatch.symm.trans hpatch')
  exact hrefuses _ (Object.late_union hlate)

/-- A required string the incoming object has, the overlaid one has. -/
theorem Object.required_union {patch merged : Object} {k s : String}
    (h : patch.lookup k = some (.string s)) : Object.required k (patch ∪ merged) = some s := by
  have hmem : k ∈ patch := Finmap.mem_of_lookup_eq_some h
  rw [Object.required, Finmap.lookup_union_left hmem, h]
  rfl

/-- **A merged document keeps the required strings of the incoming one**: a member that every
document writes and reads back under `k`. -/
theorem mergeDocuments_required {T : Type} [Document T] {field : T → String} {k : String}
    (hto : ∀ d o, Document.toObject d = some o → o.lookup k = some (.string (field d)))
    (hof : ∀ (o : Object) d, Document.ofObject o = some d → o.required k = some (field d))
    (cached incoming : T) : field (mergeDocuments cached incoming) = field incoming := by
  unfold mergeDocuments
  split
  · next merged patch _ hpatch =>
    cases hd : (Document.ofObject (patch ∪ merged) : Option T) with
    | none => rfl
    | some d =>
      have hread := hof _ d hd
      rw [Object.required_union (hto incoming patch hpatch)] at hread
      exact (Option.some.inj hread).symm
  · rfl

/-! ### The identity of the entities -/

theorem Message.lookup_toObject (m : Message) (o : Object) (h : Document.toObject m = some o) :
    o.lookup "_id" = some (.string m.id.text) ∧ o.lookup "rid" = some (.string m.rid.text) := by
  obtain rfl := Option.some.inj h
  constructor
  · rw [Finmap.lookup_insert]
  · rw [Finmap.lookup_insert_of_ne _ (by decide), Finmap.lookup_insert]

theorem Message.required_of_ofObject (o : Object) (m : Message)
    (h : Document.ofObject o = some m) :
    o.required "_id" = some m.id.text ∧ o.required "rid" = some m.rid.text := by
  simp only [Document.ofObject, Option.ite_none_left_eq_some, Option.bind_eq_bind,
    Option.bind_eq_some_iff] at h
  obtain ⟨-, id, hid, rid, hrid, t, -, editedAt, -, hm⟩ := h
  obtain rfl := Option.some.inj hm
  exact ⟨hid, hrid⟩

/-- A merged message has the identity of the incoming one. -/
theorem mergeDocuments_identity (cached incoming : Message) :
    (mergeDocuments cached incoming).id = incoming.id ∧
      (mergeDocuments cached incoming).rid = incoming.rid := by
  have hid := mergeDocuments_required (fun m o h => (Message.lookup_toObject m o h).1)
    (fun o m h => (Message.required_of_ofObject o m h).1) cached incoming
  have hrid := mergeDocuments_required (fun m o h => (Message.lookup_toObject m o h).2)
    (fun o m h => (Message.required_of_ofObject o m h).2) cached incoming
  exact ⟨congrArg MessageId.mk hid, congrArg RoomId.mk hrid⟩

theorem User.lookup_toObject (u : User) (o : Object) (h : Document.toObject u = some o) :
    o.lookup "_id" = some (.string u.id.text) := by
  obtain rfl := Option.some.inj h
  exact Finmap.lookup_insert _

theorem User.required_of_ofObject (o : Object) (u : User) (h : Document.ofObject o = some u) :
    o.required "_id" = some u.id.text := by
  simp only [Document.ofObject, Option.ite_none_left_eq_some, Option.bind_eq_bind,
    Option.bind_eq_some_iff] at h
  obtain ⟨-, id, hid, username, -, hu⟩ := h
  obtain rfl := Option.some.inj hu
  exact hid

/-- A merged user has the id of the incoming one. -/
theorem mergeDocuments_userId (cached incoming : User) :
    (mergeDocuments cached incoming).id = incoming.id :=
  congrArg UserId.mk
    (mergeDocuments_required User.lookup_toObject User.required_of_ofObject cached incoming)

end RocketSocket
