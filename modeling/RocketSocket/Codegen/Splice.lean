import RocketSocket.Lib.Region
import RocketSocket.Codegen.Strip

/-!
# The generated region of a file

`splice` of `render.rs` puts the generated table between two marker comments of a file that
also has hand-written code.

## Main definitions

* `beginMarker`, `endMarker` — the comments around the region.
* `splice` — the file with the region written anew.

## Main results

* `splice_eq`, `splice_fails` — the file is cut between its first markers, or there is an error.
* `splice_regenerates` — **regenerating touches the region only**, and leaves what a later
  regeneration needs.
-/

namespace RocketSocket

namespace Codegen

open Machine Utf8

/-- Opening marker of the generated region. -/
def beginMarker : Text := text "// ---------- GENERATED-BEGIN ----------"

/-- Closing marker of the generated region. -/
def endMarker : Text := text "// ---------- GENERATED-END ----------"

/-- The generated region could not be located in the target file. -/
structure RenderError where
  message : Text
  deriving DecidableEq, Repr

/-- There is no marker of this kind. -/
def noMarker (marker : Text) : RenderError :=
  ⟨text "target file has no \x60" ++ marker ++ text "\x60 marker"⟩

/-- Replaces the text between the markers in `existing` with `generated`. -/
def splice (existing generated : Text) : Reading (Except RenderError Text) :=
  match find beginMarker existing with
  | none => return .error (noMarker beginMarker)
  | some begins =>
    match find endMarker existing with
    | none => return .error (noMarker endMarker)
    | some ends =>
      if ends < begins then
        return .error ⟨text "generated-region markers are in the wrong order"⟩
      else do
        let head ← slice existing 0 (begins + beginMarker.length)
        let tail ← sliceFrom existing ends
        return .ok (head ++ newline :: (generated ++ newline :: tail))

/-! ### The markers -/

theorem apart_markers : Apart beginMarker endMarker := by
  unfold Apart
  decide

theorem newline_notMem_endMarker : newline ∉ endMarker := by decide

theorem endMarker_ne_nil : endMarker ≠ [] := by decide

/-- The generated region of a file. -/
abbrev Generated (existing : Text) (begins ends : ℕ) : Prop :=
  Region beginMarker endMarker existing begins ends

/-- A file with its region written anew. -/
def regenerated (existing : Text) (begins ends : ℕ) (generated : Text) : Text :=
  refill beginMarker newline existing begins ends generated

section Cut

variable {existing generated : Text} {begins ends : ℕ}

/-- The file can be cut behind its opening marker, whose last byte is below 128, -/
theorem Generated.bound_head (h : Generated existing begins ends) (haligned : Aligned existing) :
    Bound existing (begins + beginMarker.length) := by
  obtain ⟨rest, hrest⟩ := h.opened.here
  have hlast : existing[begins + 39]? = some 45 := by
    rw [← List.getElem?_drop, ← hrest, List.getElem?_append_left (by decide)]
    decide
  exact Bound.after_ascii haligned hlast (by decide)

/-- and before its closing marker, whose first byte is. -/
theorem Generated.bound_tail (h : Generated existing begins ends) : Bound existing ends := by
  obtain ⟨rest, hrest⟩ := h.closed.here
  have hfirst : existing[ends]? = some 47 := by
    rw [← Nat.add_zero ends, ← List.getElem?_drop, ← hrest,
      List.getElem?_append_left (by decide)]
    decide
  exact Bound.of_ascii hfirst (by decide)

/-- Between the markers the generated text is put, -/
theorem splice_eq (haligned : Aligned existing) (h : Generated existing begins ends) :
    splice existing generated = .ok (.ok (regenerated existing begins ends generated)) := by
  have hhead := slice_eq Bound.zero (h.bound_head haligned) (Nat.zero_le _)
  rw [splice, find_iff.mpr h.opened, find_iff.mpr h.closed]
  show (if ends < begins then _ else _) = _
  rw [if_neg (Nat.not_lt.mpr h.ordered), hhead, Reading.ok_bind, sliceFrom_eq h.bound_tail]
  rfl

/-- and without them in order there is an error. -/
theorem splice_fails (h : ¬ ∃ begins ends, Generated existing begins ends) :
    ∃ error, splice existing generated = .ok (.error error) := by
  rw [splice]
  cases hbegin : find beginMarker existing with
  | none => exact ⟨_, rfl⟩
  | some begins =>
    cases hend : find endMarker existing with
    | none => exact ⟨_, rfl⟩
    | some ends =>
      by_cases hlt : ends < begins
      · exact ⟨_, if_pos hlt⟩
      · exact absurd ⟨begins, ends, find_iff.mp hbegin, find_iff.mp hend, Nat.le_of_not_lt hlt⟩ h

end Cut

/-! ### Regeneration -/

section Regeneration

variable {existing generated : Text} {begins ends : ℕ}

/-- The region is found again in the new file. -/
theorem Generated.regenerated (h : Generated existing begins ends)
    (hfree : ¬ endMarker <:+: generated) :
    Generated (regenerated existing begins ends generated) begins
      (begins + beginMarker.length + generated.length + 2) :=
  h.refill apart_markers endMarker_ne_nil newline_notMem_endMarker hfree

/-- What is between two boundaries of a text is one. -/
theorem exists_text_slice {existing : String} {start stop : ℕ}
    (hstart : Bound (text existing) start) (hstop : Bound (text existing) stop)
    (hle : start ≤ stop) :
    ∃ s : String, ((text existing).drop start).take (stop - start) = text s := by
  obtain ⟨part, hpart⟩ := exists_encode_between hle hstop.le hstart.boundary hstop.boundary
  exact ⟨String.ofList part, hpart.trans (by rw [text, String.toList_ofList])⟩

/-- The new file is a text. -/
theorem exists_text_regenerated {existing generated : String}
    (h : Generated (text existing) begins ends) :
    ∃ s : String, Codegen.regenerated (text existing) begins ends (text generated) = text s := by
  have haligned : Aligned (text existing) := aligned_encode _
  obtain ⟨head, hhead⟩ := exists_text_slice Bound.zero (h.bound_head haligned) (Nat.zero_le _)
  obtain ⟨tail, htail⟩ := exists_text_slice h.bound_tail Bound.length h.bound_tail.le
  rw [List.drop_zero, Nat.sub_zero] at hhead
  rw [List.take_of_length_le (by rw [List.length_drop])] at htail
  refine ⟨head ++ "\n" ++ generated ++ "\n" ++ tail, ?_⟩
  rw [Codegen.regenerated, refill, hhead, htail]
  simp only [text, String.toList_append, encode_append, List.append_assoc]
  rfl

/-- Whatever is put into the new file is put where it would be in the old one. -/
theorem splice_regenerated {existing generated : String}
    (h : Generated (text existing) begins ends) (hfree : ¬ endMarker <:+: text generated)
    (generated' : Text) :
    splice (Codegen.regenerated (text existing) begins ends (text generated)) generated' =
      splice (text existing) generated' := by
  have haligned : Aligned (text existing) := aligned_encode _
  have haligned' : Aligned (Codegen.regenerated (text existing) begins ends
      (text generated)) := by
    obtain ⟨s, hs⟩ : ∃ s : String,
        Codegen.regenerated (text existing) begins ends (text generated) = text s :=
      exists_text_regenerated h
    rw [hs]
    exact aligned_encode _
  rw [splice_eq haligned' (h.regenerated hfree), splice_eq haligned h]
  exact congrArg (fun t => Reading.ok (Except.ok t))
    (h.refill_refill apart_markers endMarker_ne_nil)

/-- **Regenerating touches the region only**, and leaves what a later regeneration needs.  It
goes through just if both markers are there, the first opening one not after the first closing
one; the closing marker must not be in the generated text. -/
theorem splice_regenerates (existing generated : String)
    (hfree : ¬ endMarker <:+: text generated) :
    ((∃ out, splice (text existing) (text generated) = .ok (.ok out)) ↔
      ∃ begins ends, First beginMarker (text existing) begins ∧
        First endMarker (text existing) ends ∧ begins ≤ ends) ∧
    ((¬ ∃ out, splice (text existing) (text generated) = .ok (.ok out)) →
      ∃ error, splice (text existing) (text generated) = .ok (.error error)) ∧
    ∀ out, splice (text existing) (text generated) = .ok (.ok out) →
      (∃ s : String, out = text s) ∧
      (∀ begins ends, First beginMarker (text existing) begins →
        First endMarker (text existing) ends →
        out = (text existing).take (begins + beginMarker.length) ++
          newline :: (text generated ++ newline :: (text existing).drop ends)) ∧
      splice out (text generated) = .ok (.ok out) ∧
      ∀ generated' : String,
        splice out (text generated') = splice (text existing) (text generated') := by
  have haligned : Aligned (text existing) := aligned_encode _
  by_cases hregion : ∃ begins ends, Generated (text existing) begins ends
  · -- With both markers in order the text between them is replaced.
    obtain ⟨begins, ends, h⟩ := hregion
    have heq : splice (text existing) (text generated) = _ := splice_eq haligned h
    refine ⟨⟨fun _ => ⟨begins, ends, h.opened, h.closed, h.ordered⟩, fun _ => ⟨_, heq⟩⟩,
      fun hnot => absurd ⟨_, heq⟩ hnot, ?_⟩
    intro out hout
    rw [heq] at hout
    obtain rfl : Codegen.regenerated _ _ _ _ = out := by
      cases hout
      rfl
    -- The new text has the markers where the old one had them.
    have hagain := splice_regenerated h hfree
    refine ⟨exists_text_regenerated h, ?_, (hagain _).trans heq, fun generated' => hagain _⟩
    intro begins' ends' hbegin hend
    rw [hbegin.unique h.opened, hend.unique h.closed]
    rfl
  · -- Without them it fails, and there is nothing more to say.
    obtain ⟨error, herror⟩ : ∃ error,
        splice (text existing) (text generated) = .ok (.error error) := splice_fails hregion
    refine ⟨⟨?_, ?_⟩, fun _ => ⟨error, herror⟩, ?_⟩
    · rintro ⟨out, hout⟩
      rw [herror] at hout
      cases hout
    · rintro ⟨begins, ends, hbegin, hend, hle⟩
      exact absurd ⟨begins, ends, hbegin, hend, hle⟩ hregion
    · intro out hout
      rw [herror] at hout
      cases hout

/-- A file with a row between its markers. -/
def fileWithRow : String :=
  "// ---------- GENERATED-BEGIN ----------\nrow\n// ---------- GENERATED-END ----------\n"

/-- The row is replaced, and replacing it again changes nothing. -/
theorem splice_regenerates_row : ∃ out,
    splice (text fileWithRow) (text "rows") = .ok (.ok out) ∧
      splice out (text "rows") = .ok (.ok out) := by
  have hfree : ¬ endMarker <:+: text "rows" := fun h => absurd h.length_le (by decide)
  have h := splice_regenerates fileWithRow "rows" hfree
  have hbegin : find beginMarker (text fileWithRow) = some 0 := by decide
  have hend : find endMarker (text fileWithRow) = some 45 := by decide
  obtain ⟨out, hout⟩ := h.1.mpr ⟨0, 45, find_iff.mp hbegin, find_iff.mp hend, by decide⟩
  exact ⟨out, hout, (h.2.2 out hout).2.2.1⟩

end Regeneration

end Codegen

end RocketSocket
