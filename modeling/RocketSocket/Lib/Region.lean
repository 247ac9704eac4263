import Mathlib.Data.List.Basic
import Mathlib.Data.Nat.Find
import Mathlib.Tactic.Common

/-!
# The region between two markers

A text with two markers in it, and what is between them written anew.  What is before the
region and what is after it stay where they are, and the markers are found again, if no part of
one is a part of the other and a separator that neither has keeps the new text apart from both.

## Main definitions

* `First` — where a part of a text begins first.
* `Apart` — the second of two markers cannot begin in the first.
* `Region`, `refill` — the region between two markers, and another text in its place.

## Main results

* `First.unique`, `exists_first` — a part of a text has one first place.
* `Region.gap` — the markers do not overlap.
* `Region.refill` — **a region that is written anew is a region**, at the same place.
* `refill_refill` — of two texts written one after the other the second is left.
-/

namespace Machine

variable {α : Type*} {part opening closing text text' t t' front back : List α} {sep : α}
  {b e e' k n n' : ℕ}

/-! ### The first place of a part -/

/-- The part begins here, and nowhere before. -/
structure First (part t : List α) (n : ℕ) : Prop where
  here : part <+: t.drop n
  least : ∀ k < n, ¬ part <+: t.drop k

theorem First.unique (h : First part t n) (h' : First part t n') : n = n' := by
  rcases Nat.lt_trichotomy n n' with hlt | heq | hgt
  · exact absurd h.here (h'.least n hlt)
  · exact heq
  · exact absurd h'.here (h.least n' hgt)

theorem isInfix_of_prefix_drop (h : part <+: t.drop n) : part <:+: t :=
  h.isInfix.trans (List.drop_suffix n t).isInfix

/-- A part of a text has a first place. -/
theorem exists_first : (∃ n, First part t n) ↔ part <:+: t := by
  constructor
  · rintro ⟨n, h⟩
    exact isInfix_of_prefix_drop h.here
  · rintro ⟨front, back, rfl⟩
    have hsome : ∃ n, part <+: (front ++ part ++ back).drop n := by
      refine ⟨front.length, ?_⟩
      rw [List.append_assoc, List.drop_left]
      exact List.prefix_append part back
    classical
    exact ⟨Nat.find hsome, Nat.find_spec hsome, fun k hk => Nat.find_min hsome hk⟩

/-- A part that ends before a place is a part of the text up to that place. -/
theorem prefix_drop_of_take (hle : k + part.length ≤ n) (h : part <+: t.drop k) :
    part <+: (t.take n).drop k := by
  rw [List.drop_take]
  exact List.prefix_take_iff.mpr ⟨h, by omega⟩

/-- The first place is where it was as long as the text is the same up to its end. -/
theorem First.congr (h : First part t n) (hsame : t'.take (n + part.length) =
    t.take (n + part.length)) : First part t' n := by
  have hiff : ∀ k ≤ n, part <+: t'.drop k ↔ part <+: t.drop k := by
    intro k hk
    have hle : k + part.length ≤ n + part.length := Nat.add_le_add_right hk _
    constructor
    · intro hpart
      have hpart := prefix_drop_of_take hle hpart
      rw [hsame, List.drop_take] at hpart
      exact hpart.trans (List.take_prefix _ _)
    · intro hpart
      have hpart := prefix_drop_of_take hle hpart
      rw [← hsame, List.drop_take] at hpart
      exact hpart.trans (List.take_prefix _ _)
  exact ⟨(hiff n (Nat.le_refl n)).mpr h.here, fun k hk hpart =>
    h.least k hk ((hiff k (Nat.le_of_lt hk)).mp hpart)⟩

/-- A part without the separator is on one side of it. -/
theorem prefix_drop_separated (hsep : sep ∉ part)
    (h : part <+: (front ++ sep :: back).drop k) :
    part <+: front.drop k ∨ front.length < k ∧ part <+: back.drop (k - front.length - 1) := by
  rcases Nat.lt_or_ge front.length k with hlt | hge
  · right
    obtain ⟨d, rfl⟩ := Nat.exists_eq_add_of_lt hlt
    have hplace : front.length + d + 1 - front.length - 1 = d := by omega
    rw [hplace]
    rw [Nat.add_assoc, List.drop_length_add_append, List.drop_succ_cons] at h
    exact ⟨hlt, h⟩
  · left
    rw [List.drop_append_of_le_length hge] at h
    rcases List.prefix_or_prefix_of_prefix h (List.prefix_append (front.drop k) (sep :: back))
      with hshort | hlong
    · exact hshort
    · -- Otherwise the part would go on with the separator.
      obtain ⟨rest, rfl⟩ := hlong
      rw [List.prefix_append_right_inj] at h
      cases rest with
      | nil => exact ⟨[], by simp⟩
      | cons x rest =>
        obtain ⟨u, hu⟩ := h
        have hx : x = sep := (List.cons.inj hu).1
        exact absurd (by simp [hx]) hsep

/-! ### The region -/

/-- The second marker cannot begin inside the first. -/
def Apart (opening closing : List α) : Prop :=
  ∀ d < opening.length, ¬ opening.drop d <+: closing ∧ ¬ closing <+: opening.drop d

/-- The region between the first opening and the first closing marker. -/
structure Region (opening closing t : List α) (b e : ℕ) : Prop where
  opened : First opening t b
  closed : First closing t e
  ordered : b ≤ e

/-- What is between the markers is written anew, with a separator on both sides. -/
def refill (opening : List α) (sep : α) (t : List α) (b e : ℕ) (text : List α) : List α :=
  t.take (b + opening.length) ++ sep :: (text ++ sep :: t.drop e)

/-- The markers do not overlap. -/
theorem Region.gap (hapart : Apart opening closing) (h : Region opening closing t b e) :
    b + opening.length ≤ e := by
  by_contra hlt
  obtain ⟨d, rfl⟩ := Nat.exists_eq_add_of_le h.ordered
  have hd : d < opening.length := by omega
  have hopen : opening.drop d <+: t.drop (b + d) := by
    obtain ⟨rest, hrest⟩ := h.opened.here
    exact ⟨rest, by rw [← List.drop_drop, ← hrest, List.drop_append_of_le_length (by omega)]⟩
  rcases List.prefix_or_prefix_of_prefix hopen h.closed.here with hin | hin
  · exact (hapart d hd).1 hin
  · exact (hapart d hd).2 hin

theorem Region.end_lt (h : Region opening closing t b e) (hne : closing ≠ []) :
    e < t.length := by
  have hlen := h.closed.here.length_le
  have hpos := List.length_pos_of_ne_nil hne
  rw [List.length_drop] at hlen
  omega

section Refill

variable (hapart : Apart opening closing) (hne : closing ≠ [])
  (hregion : Region opening closing t b e)

include hapart hne hregion

/-- How much of the text is kept before the region. -/
theorem Region.length_head : (t.take (b + opening.length)).length = b + opening.length := by
  have hgap := hregion.gap hapart
  have hend := hregion.end_lt hne
  rw [List.length_take]
  omega

theorem Region.take_refill :
    (refill opening sep t b e text).take (b + opening.length) = t.take (b + opening.length) := by
  have hhead := hregion.length_head hapart hne
  rw [refill, List.take_append_of_le_length (Nat.le_of_eq hhead.symm),
    List.take_of_length_le (Nat.le_of_eq hhead)]

theorem Region.drop_refill :
    (refill opening sep t b e text).drop (b + opening.length + text.length + 2) = t.drop e := by
  have hhead := hregion.length_head hapart hne
  have hplace : b + opening.length + text.length + 2 =
      (t.take (b + opening.length)).length + (text.length + 1 + 1) := by omega
  rw [refill, hplace, List.drop_length_add_append, List.drop_succ_cons,
    List.drop_length_add_append, List.drop_succ_cons, List.drop_zero]

/-- A region that is written anew is a region: the markers do not have the separator, so neither
begins in the new text or beside it. -/
theorem Region.refill (hclose : sep ∉ closing) (htext : ¬ closing <:+: text) :
    Region opening closing (refill opening sep t b e text) b
      (b + opening.length + text.length + 2) := by
  have hhead := hregion.length_head hapart hne
  have hgap := hregion.gap hapart
  have hpos := List.length_pos_of_ne_nil hne
  refine ⟨hregion.opened.congr (hregion.take_refill hapart hne), ⟨?_, ?_⟩, by omega⟩
  · rw [hregion.drop_refill hapart hne]
    exact hregion.closed.here
  · intro k hk hpart
    rcases prefix_drop_separated hclose hpart with hin | ⟨hlt, hin⟩
    · -- It would be a closing marker of the text before the first one.
      have hle := hin.length_le
      rw [List.length_drop, hhead] at hle
      rw [List.drop_take] at hin
      exact hregion.closed.least k (by omega) (hin.trans (List.take_prefix _ _))
    · rcases prefix_drop_separated hclose hin with hin | ⟨hlt', hin⟩
      · exact htext (isInfix_of_prefix_drop hin)
      · omega

/-- Of two texts written one after the other the second is left. -/
theorem Region.refill_refill : Machine.refill opening sep (Machine.refill opening sep t b e text) b
    (b + opening.length + text.length + 2) text' = Machine.refill opening sep t b e text' := by
  rw [Machine.refill, hregion.take_refill hapart hne, hregion.drop_refill hapart hne]
  rfl

end Refill

end Machine
