import RocketSocket.Cache.MergeRule

/-!
# What a merge loses

A merge writes and reads back what the payload did not carry, and a timestamp does not always
survive that.  A fraction of a millisecond, as text may have, is dropped; a date outside the
range of UTC, which text with an offset may name, makes the merged object undecodable, and then
the incoming document replaces the cached one.

## Main definitions

* `Doc.beyond` — the timestamps of a document in the members another one does not carry.
* `MergedInRange` — everything the merged object is made of is in range.
* `LosesNothing` — what a merge should keep.

## Main results

* `mergeDocuments_self_iff` — when a document merged into itself is the same.
* `keeps_others_iff` — when the members that were not carried are unchanged.
* `loses_nothing_iff` — **the exact condition for a merge to lose nothing.**
-/

namespace RocketSocket

open Machine

section Schema

variable {s : Schema}

/-- The timestamps in the members of `d` that `i` does not carry. -/
def Doc.beyond (d i : Doc s) : List Timestamp := d.instantsOf fun j => ¬ i.Carries j

/-- The timestamps of the incoming document are in range, and so are those of the cached one
that stay. -/
def MergedInRange (d i : Doc s) : Prop := ∀ t ∈ i.instants ++ d.beyond i, t.InRange

/-- The merges of `d` lose nothing: `d` merged into itself is the same, and what `i` does not
carry is as before. -/
structure LosesNothing (d i : Doc s) : Prop where
  itself : mergeDocuments d d = d
  others : ∀ j, ¬ i.Carries j → mergeDocuments d i j = d j

variable {d i : Doc s}

/-! ### A member that is not carried -/

/-- A member that is not written was read as absent. -/
theorem read_none_of_not_carries (hd : d.Decoded) {j : Fin s.members.length}
    (hj : ¬ d.Carries j) : (s.field j).read none = some (d j) := by
  obtain ⟨members, hread⟩ := hd
  exact (s.members.get j).blank (Record.read_eq_some.mp hread j)
    (Record.not_carries_iff.mp hj)

/-- It holds no timestamp that would not come back. -/
theorem kept_of_not_carries (hd : d.Decoded) {j : Fin s.members.length} (hj : ¬ d.Carries j) :
    ∀ t ∈ (s.members.get j).instants (d j), t.Kept := by
  refine (Doc.member_keeps hd j).mp ?_
  rw [Record.not_carries_iff.mp hj]
  exact read_none_of_not_carries hd hj

/-- Of two documents that do not carry a member, it is the same in both. -/
theorem eq_of_not_carries (hd : d.Decoded) (hi : i.Decoded) {j : Fin s.members.length}
    (hdj : ¬ d.Carries j) (hij : ¬ i.Carries j) : i j = d j := by
  have h := read_none_of_not_carries hi hij
  rw [read_none_of_not_carries hd hdj] at h
  exact (Option.some.inj h).symm

/-! ### A document merged into itself -/

/-- **A document merged into itself is the same** just if it does not decode again, so that the
merge falls back on it, or no timestamp loses a fraction. -/
theorem mergeDocuments_self_iff (hd : d.Decoded) : mergeDocuments d d = d ↔
    ((∀ t ∈ d.instants, t.InRange) → ∀ t ∈ d.instants, t.WholeMillis) := by
  have hmerged : Record.ofTable (d.toTable ∪ d.toTable) =
      (Record.read fun j => (s.field j).write (d j) : Option (Doc s)) := by
    rw [ofObject_merge]
    simp only [Option.or_self]
  have hdecodes : (Record.read fun j => (s.field j).write (d j) : Option (Doc s)).isSome ↔
      ∀ t ∈ d.instants, t.InRange := by
    rw [Record.read_isSome, Doc.forall_instants]
    exact forall_congr' (Doc.member_rereads hd)
  rw [mergeDocuments_def, hmerged]
  -- The merged document decodes, or the incoming one is taken as it is.
  cases hread : (Record.read fun j => (s.field j).write (d j) : Option (Doc s)) with
  | none =>
    rw [hread] at hdecodes
    exact ⟨fun _ hrange => absurd (hdecodes.mpr hrange) (by simp), fun _ => rfl⟩
  | some m =>
    rw [hread] at hdecodes
    have hrange := hdecodes.mp rfl
    have hkeeps : m = d ↔ d.Keeps := by
      rw [Record.Keeps, ← Record.read_eq_some, hread, Option.some.injEq]
    rw [Option.getD_some, hkeeps, Doc.keeps_iff hd]
    constructor
    · intro hkept _ t ht
      exact (hkept t ht).2
    · intro hwhole t ht
      exact ⟨hrange t ht, hwhole hrange t ht⟩

/-! ### The members that were not carried -/

/-- The merged object decodes just if all it is made of is in range. -/
theorem merged_isSome (hd : d.Decoded) (hi : i.Decoded) :
    (Record.read fun j => ((s.field j).write (i j)).or ((s.field j).write (d j)) :
      Option (Doc s)).isSome ↔ MergedInRange d i := by
  rw [Record.read_isSome, MergedInRange, List.forall_mem_append, Doc.forall_instants, Doc.beyond,
    Doc.forall_instantsOf, ← forall_and]
  refine forall_congr' fun j => ?_
  by_cases hj : i.Carries j
  · obtain ⟨w, hw⟩ := Option.isSome_iff_exists.mp hj
    have hiff := Doc.member_rereads hi j
    rw [hw] at hiff
    rw [hw, Option.some_or, hiff]
    exact ⟨fun hrange => ⟨hrange, fun hnot => absurd hj hnot⟩, And.left⟩
  · rw [Record.not_carries_iff.mp hj, Option.none_or, Doc.member_rereads hd j]
    constructor
    · exact fun hrange => ⟨fun t ht => (kept_of_not_carries hi hj t ht).1, fun _ => hrange⟩
    · exact fun h => h.2 hj

/-- **The members that were not carried are unchanged** just if the merged object decodes and no
timestamp in them loses a fraction, or it does not and there are none of them. -/
theorem keeps_others_iff (hd : d.Decoded) (hi : i.Decoded) :
    (∀ j, ¬ i.Carries j → mergeDocuments d i j = d j) ↔
      (MergedInRange d i → ∀ t ∈ d.beyond i, t.WholeMillis) ∧
      (¬ MergedInRange d i → ∀ j, d.Carries j → i.Carries j) := by
  have hdecodes := merged_isSome hd hi
  rw [mergeDocuments_def, ofObject_merge]
  cases hread : (Record.read fun j => ((s.field j).write (i j)).or ((s.field j).write (d j)) :
      Option (Doc s)) with
  | none =>
    rw [hread] at hdecodes
    have hrange : ¬ MergedInRange d i := fun h => absurd (hdecodes.mpr h) (by simp)
    -- The incoming document replaces the other one, so what it does not carry is gone.
    rw [Option.getD_none]
    constructor
    · intro hsame
      refine ⟨fun h => absurd h hrange, fun _ j hdj => ?_⟩
      by_contra hij
      rw [Record.Carries, ← hsame j hij] at hdj
      exact hij hdj
    · rintro ⟨-, hcarried⟩ j hij
      exact eq_of_not_carries hd hi (fun hdj => hij (hcarried hrange j hdj)) hij
  | some m =>
    rw [hread] at hdecodes
    have hrange : MergedInRange d i := hdecodes.mp rfl
    rw [Option.getD_some]
    -- What was not carried is read back from what the cached document wrote.
    have hmember : ∀ j, ¬ i.Carries j →
        (m j = d j ↔ ∀ t ∈ (s.members.get j).instants (d j), t.Kept) := by
      intro j hj
      have hj' := Record.read_eq_some.mp hread j
      rw [Record.not_carries_iff.mp hj, Option.none_or] at hj'
      rw [← Doc.member_keeps hd j, hj', Option.some.injEq]
    have hbeyond := (List.forall_mem_append.mp hrange).2
    constructor
    · intro hsame
      refine ⟨fun _ => ?_, fun h => absurd hrange h⟩
      rw [Doc.beyond, Doc.forall_instantsOf]
      exact fun j hj t ht => ((hmember j hj).mp (hsame j hj) t ht).2
    · rintro ⟨hwhole, -⟩ j hj
      refine (hmember j hj).mpr fun t ht => ?_
      have hmem : t ∈ d.beyond i := by
        have hself : ∀ t ∈ d.beyond i, t ∈ d.beyond i := fun _ ht => ht
        rw [Doc.beyond, Doc.forall_instantsOf] at hself
        exact hself j hj t ht
      exact ⟨hbeyond t hmem, hwhole hrange t hmem⟩

end Schema

/-- **When the merges of a document lose nothing.**  Either its own dates all have whole
milliseconds or one of them is out of range; and where the merged object is in range, the dates
that stay have whole milliseconds, while otherwise nothing is left to stay. -/
theorem loses_nothing_iff (parse : String → Option Timestamp) (entity : Entity)
    (d i : Doc (entity.schema parse)) (hd : d.Decoded) (hi : i.Decoded) :
    LosesNothing d i ↔
      ((∀ t ∈ d.instants, t.InRange) → ∀ t ∈ d.instants, t.WholeMillis) ∧
      (MergedInRange d i → ∀ t ∈ d.beyond i, t.WholeMillis) ∧
      (¬ MergedInRange d i → ∀ j, d.Carries j → i.Carries j) := by
  rw [← mergeDocuments_self_iff hd, ← keeps_others_iff hd hi]
  exact ⟨fun h => ⟨h.itself, h.others⟩, fun h => ⟨h.1, h.2⟩⟩

theorem loses_nothing_user : ∃ d i : Doc (Entity.user.schema fun _ => none),
    Document.ofObject cachedUser = some d ∧ Document.ofObject projectedUser = some i ∧
      LosesNothing d i := by
  obtain ⟨d, hd, hdd, hdkept⟩ := exists_of_ofObject (s := Entity.user.schema fun _ => none)
    (o := cachedUser) (p := Doc.allKept) (by decide +kernel)
  obtain ⟨i, hi, hid, hikept⟩ := exists_of_ofObject (s := Entity.user.schema fun _ => none)
    (o := projectedUser) (p := Doc.allKept) (by decide +kernel)
  have hwhole := (Doc.settled_of_allKept hdd hdkept).2
  have hrange := (Doc.settled_of_allKept hid hikept).2
  refine ⟨d, i, hd, hi, (loses_nothing_iff (fun _ => none) .user d i hdd hid).mpr ?_⟩
  have hbeyond : ∀ t ∈ d.beyond i, t.Kept := by
    rw [Doc.forall_instants] at hwhole
    rw [Doc.beyond, Doc.forall_instantsOf]
    exact fun j _ => hwhole j
  have hmerged : MergedInRange d i := by
    rw [MergedInRange, List.forall_mem_append]
    exact ⟨fun t ht => (hrange t ht).1, fun t ht => (hbeyond t ht).1⟩
  exact ⟨fun _ t ht => (hwhole t ht).2, fun _ t ht => (hbeyond t ht).2,
    fun h => absurd hmerged h⟩

/-! ### Dates in text -/

/-- Half a millisecond into the year 2024, and the last second of the year 9999 far west of
UTC. -/
def parseDates (s : String) : Option Timestamp :=
  if s = "2024-01-01T00:00:00.000500Z" then some ⟨1704067200000500000, by decide⟩
  else if s = "9999-12-31T23:59:59-23:59" then some ⟨253402387139000000000, by decide⟩
  else none

/-- A user created half a millisecond into a year. -/
def preciseUser : Object := Finmap.ofPairs
  [("_id", .string "u1"), ("createdAt", .string "2024-01-01T00:00:00.000500Z")]

/-- A projection with a date that is out of range in UTC. -/
def lateUser : Object := Finmap.ofPairs
  [("_id", .string "u1"), ("createdAt", .string "9999-12-31T23:59:59-23:59")]

/-- The dates of the document are in range, and one has a fraction of a millisecond. -/
def Doc.losesFraction {s : Schema} (d : Doc s) : Bool :=
  decide (∀ t ∈ d.instants, t.InRange) && decide (∃ t ∈ d.instants, ¬ t.WholeMillis)

/-- A date of the incoming document is out of range, and it does not carry a member that the
cached one does. -/
def Doc.isWipedBy {s : Schema} (d i : Doc s) : Bool :=
  decide (∃ t ∈ i.instants, ¬ t.InRange) && decide (∃ j, d.Carries j ∧ ¬ i.Carries j)

/-- Merged into itself, a user whose date has a fraction of a millisecond is another; and merged
with a projection whose date is out of range, a user loses the name it had. -/
theorem not_loses_nothing :
    (∃ d : Doc (Entity.user.schema parseDates),
      Document.ofObject preciseUser = some d ∧ mergeDocuments d d ≠ d) ∧
    ∃ d i : Doc (Entity.user.schema parseDates),
      Document.ofObject cachedUser = some d ∧ Document.ofObject lateUser = some i ∧
        ∃ j, ¬ i.Carries j ∧ mergeDocuments d i j ≠ d j := by
  constructor
  · obtain ⟨d, hd, hdd, hloses⟩ := exists_of_ofObject (s := Entity.user.schema parseDates)
      (o := preciseUser) (p := Doc.losesFraction) (by decide +kernel)
    refine ⟨d, hd, fun hself => ?_⟩
    rw [Doc.losesFraction, Bool.and_eq_true, decide_eq_true_iff, decide_eq_true_iff] at hloses
    obtain ⟨hrange, t, ht, hfraction⟩ := hloses
    exact hfraction ((mergeDocuments_self_iff hdd).mp hself hrange t ht)
  · obtain ⟨d, hd, hdd, hlost⟩ := exists_of_ofObject (s := Entity.user.schema parseDates)
      (o := cachedUser) (p := fun d => (Document.ofObject lateUser).any d.isWipedBy)
      (by decide +kernel)
    obtain ⟨i, hi, hid, hwiped⟩ := exists_of_ofObject hlost
    rw [Doc.isWipedBy, Bool.and_eq_true, decide_eq_true_iff, decide_eq_true_iff] at hwiped
    obtain ⟨⟨t, ht, hlate⟩, j, hdj, hij⟩ := hwiped
    have hmerged : ¬ MergedInRange d i := fun h => hlate ((List.forall_mem_append.mp h).1 t ht)
    refine ⟨d, i, hd, hi, ?_⟩
    by_contra hkeeps
    push Not at hkeeps
    exact hij (((keeps_others_iff hdd hid).mp hkeeps).2 hmerged j hdj)

end RocketSocket
