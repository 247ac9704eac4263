import RocketSocket.Cache.Merge
import RocketSocket.Model.Coarse

/-!
# The merge rule

What a merge of two documents of one entity yields, member by member of their structs.  Where
every timestamp is one of UTC and has whole milliseconds, both documents come back from what
they are written to; then the merge is the overlay of the incoming document over the cached
one.

## Main definitions

* `Doc.Settled` — a decoded document whose timestamps are whole milliseconds in UTC.
* `MergeRule` — the laws of a merge.

## Main results

* `ofObject_merge` — what the merged object decodes to, member by member.
* `fallsBack_iff` — whether a merge falls back can be seen of the members the cache reads.
* `mergeDocuments_eq_overlay` — the merge of settled documents is an overlay.
* `merge_rule` — **settled documents of an entity merge by the rule.**
-/

namespace RocketSocket

open Machine

/-- The document was decoded, and its timestamps are whole milliseconds in the range of
UTC. -/
def Doc.Settled {s : Schema} (d : Doc s) : Prop := d.Decoded ∧ ∀ t ∈ d.instants, t.Kept

section Schema

variable {s : Schema}

/-! ### One merge -/

theorem mergeDocuments_def (c i : Doc s) :
    mergeDocuments c i = (Record.ofTable (i.toTable ∪ c.toTable)).getD i := rfl

/-- **What the merged object decodes to**: every member is read from the one the incoming
document writes, or else from the one the cached document does. -/
theorem ofObject_merge (c i : Doc s) :
    Record.ofTable (i.toTable ∪ c.toTable) =
      (Record.read fun j => ((s.field j).write (i j)).or ((s.field j).write (c j)) :
        Option (Doc s)) :=
  Record.ofTable_union s.field_key_injective c i

theorem Doc.Settled.keeps {d : Doc s} (h : d.Settled) : d.Keeps := (Doc.keeps_iff h.1).mpr h.2

variable {c i : Doc s}

theorem not_fallsBack (hc : c.Keeps) (hi : i.Keeps) : ¬ FallsBack c i := by
  intro h
  have hnone : Record.ofTable (i.toTable ∪ c.toTable) = (none : Option (Doc s)) :=
    h c.toTable i.toTable rfl rfl
  rw [Record.ofTable_overlay s.field_key_injective hc hi] at hnone
  cases hnone

/-- A merge of whole documents falls back just if the entity the cache keeps of them does not
decode from the merged object. -/
theorem fallsBack_iff {parse : String → Option Timestamp} {entity : Entity}
    {c i : Doc (entity.schema parse)} (hc : c.Decoded) (hi : i.Decoded) :
    FallsBack c i ↔ entity.decodes (i.toTable ∪ c.toTable) = false := by
  rw [← Bool.not_eq_true, decodes_merged_iff hc hi, Option.not_isSome_iff_eq_none]
  constructor
  · exact fun h => h c.toTable i.toTable rfl rfl
  · rintro h merged patch ⟨⟩ ⟨⟩
    exact h

theorem mergeDocuments_eq_overlay (hc : c.Keeps) (hi : i.Keeps) :
    mergeDocuments c i = Record.overlay c i := by
  rw [mergeDocuments_def, Record.ofTable_overlay s.field_key_injective hc hi]
  rfl

/-! ### Merges in a row -/

/-- Merging one document after the other is overlaying one after the other. -/
theorem foldl_mergeDocuments (hc : c.Keeps) (projections : List (Doc s))
    (hp : ∀ p ∈ projections, p.Keeps) :
    projections.foldl mergeDocuments c = projections.foldl Record.overlay c := by
  induction projections generalizing c with
  | nil => rfl
  | cons p projections ih =>
    have hkeeps : p.Keeps := hp p List.mem_cons_self
    rw [List.foldl_cons, List.foldl_cons, mergeDocuments_eq_overlay hc hkeeps]
    exact ih (hc.overlay hkeeps) fun q hq => hp q (List.mem_cons_of_mem p hq)

/-- The laws of merging `i` and then others into `c`.  The members of `d.toTable` are what the
document `d` is encoded to, and so what it carries. -/
structure MergeRule (c i : Doc s) : Prop where
  /-- The merge does not fall back. -/
  decodes : ¬ FallsBack c i
  /-- Each member is that of the incoming document, and else that of the cached one. -/
  members : ∀ k, (mergeDocuments c i).toTable.lookup k =
    (i.toTable.lookup k).or (c.toTable.lookup k)
  /-- A document merged into itself is the same. -/
  idempotent : mergeDocuments c c = c
  /-- What was merged in once changes nothing the second time. -/
  repeated : mergeDocuments (mergeDocuments c i) i = mergeDocuments c i
  /-- Merging is associative. -/
  associative : ∀ e : Doc s, e.Settled →
    mergeDocuments (mergeDocuments c i) e = mergeDocuments c (mergeDocuments i e)
  /-- After any sequence of projections, each member is that of the last which carried it. -/
  sequence : ∀ projections : List (Doc s), (∀ p ∈ projections, p.Settled) → ∀ k,
    (projections.foldl mergeDocuments c).toTable.lookup k =
      (c :: projections).reverse.findSome? fun p => p.toTable.lookup k

theorem mergeRule_of_settled (hc : c.Settled) (hi : i.Settled) : MergeRule c i where
  decodes := not_fallsBack hc.keeps hi.keeps
  members k := by
    rw [mergeDocuments_eq_overlay hc.keeps hi.keeps,
      Record.toTable_overlay s.field_key_injective, Finmap.lookup_union_eq]
  idempotent := by
    rw [mergeDocuments_eq_overlay hc.keeps hc.keeps, Record.overlay_self]
  repeated := by
    rw [mergeDocuments_eq_overlay hc.keeps hi.keeps,
      mergeDocuments_eq_overlay (hc.keeps.overlay hi.keeps) hi.keeps, Record.overlay_assoc,
      Record.overlay_self]
  associative e he := by
    rw [mergeDocuments_eq_overlay hc.keeps hi.keeps, mergeDocuments_eq_overlay hi.keeps he.keeps,
      mergeDocuments_eq_overlay (hc.keeps.overlay hi.keeps) he.keeps,
      mergeDocuments_eq_overlay hc.keeps (hi.keeps.overlay he.keeps), Record.overlay_assoc]
  sequence projections hp k := by
    rw [foldl_mergeDocuments hc.keeps projections fun p hmem => (hp p hmem).keeps,
      Record.lookup_foldl_overlay s.field_key_injective, List.reverse_cons]

end Schema

/-- **The merge rule**: settled documents of an entity merge by it. -/
theorem merge_rule (parse : String → Option Timestamp) (entity : Entity)
    (c i : Doc (entity.schema parse)) (hc : c.Settled) (hi : i.Settled) : MergeRule c i :=
  mergeRule_of_settled hc hi

/-- A document that decodes to one which passes the test. -/
theorem exists_of_ofObject {s : Schema} {o : Object} {p : Doc s → Bool}
    (h : (Document.ofObject o : Option (Doc s)).any p) :
    ∃ d : Doc s, Document.ofObject o = some d ∧ d.Decoded ∧ p d := by
  cases hd : (Document.ofObject o : Option (Doc s)) with
  | none =>
    rw [hd] at h
    cases h
  | some d =>
    rw [hd, Option.any_some] at h
    exact ⟨d, rfl, Record.decoded_of_ofTable hd, h⟩

/-- All timestamps of the document are kept. -/
def Doc.allKept {s : Schema} (d : Doc s) : Bool := d.instants.all fun t => decide t.Kept

theorem Doc.settled_of_allKept {s : Schema} {d : Doc s} (hd : d.Decoded) (h : d.allKept) :
    d.Settled :=
  ⟨hd, fun t ht => of_decide_eq_true (List.all_eq_true.mp h t ht)⟩

/-- A cached user. -/
def cachedUser : Object := Finmap.ofPairs
  [("_id", .string "u1"), ("name", .string "Alice"),
    ("lastLogin", .object [("$date", .int 1704067200000)])]

/-- A projection of that user. -/
def projectedUser : Object := Finmap.ofPairs
  [("_id", .string "u1"), ("name", .string "Alice A."), ("status", .string "away")]

theorem merge_rule_user : ∃ c i : Doc (Entity.user.schema fun _ => none),
    Document.ofObject cachedUser = some c ∧ Document.ofObject projectedUser = some i ∧
      MergeRule c i := by
  obtain ⟨c, hc, hcd, hckept⟩ := exists_of_ofObject (s := Entity.user.schema fun _ => none)
    (o := cachedUser) (p := Doc.allKept) (by decide +kernel)
  obtain ⟨i, hi, hid, hikept⟩ := exists_of_ofObject (s := Entity.user.schema fun _ => none)
    (o := projectedUser) (p := Doc.allKept) (by decide +kernel)
  exact ⟨c, i, hc, hi, merge_rule (fun _ => none) .user c i
    (Doc.settled_of_allKept hcd hckept) (Doc.settled_of_allKept hid hikept)⟩

end RocketSocket
