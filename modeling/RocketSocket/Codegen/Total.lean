import RocketSocket.Codegen.Split
import RocketSocket.Codegen.Strip

/-!
# When the codegen parser returns

Every slice of the parser is between two boundaries, every scanner ends, and no depth counter
falls below zero, with two exceptions.  The list of a stream is closed by the first `]` that
balances its `[`, and the interface by the first `}` that balances its `{`; neither looks at
the other, so a list can be closed behind the interface, and the next slice then runs backwards.
The counters of the splitter are `i32`s, and a text of two gigabytes can fill one.

## Main definitions

* `InterfaceAt`, `ListAt`, `ValueAt` — the braces of the interface, the brackets of a stream.
* `Reaches` — an offset at which `parse` looks for the next stream.
* `Readable` — neither exception occurs.

## Main results

* `parseEntries_returns_iff` — the entries of a stream are read unless a counter overflows.
* `stripComments_spec` — comments can always be blanked out.
* `parse_returns_iff` — **`parse` returns if and only if the text is readable.**
-/

namespace RocketSocket

namespace Codegen

open Machine Utf8

/-! ### Keys and arguments -/

section Inner

variable {src : Text} {start stop i j : ℕ}

theorem Within.err_returns {α : Type} (h : Within src start stop i j) (message context : Text) :
    (err src i message context : Reading α).Returns :=
  Codegen.err_returns h.site.bound message context

theorem Within.errAt_returns {α : Type} (h : Within src start stop i j) (message : String) :
    (errAt src i message i j : Reading α).Returns :=
  Codegen.errAt_returns h.site.bound h.site.bound h.bound h.le message

theorem Within.slice_eq (h : Within src start stop i j) :
    slice src i j = .ok ((src.drop i).take (j - i)) :=
  Codegen.slice_eq h.site.bound h.bound h.le

theorem parseKey_returns (h : Within src start stop i j) : (parseKey src i j).Returns := by
  rw [parseKey, h.slice_eq, Reading.ok_bind]
  split
  · split
    · exact h.err_returns _ _
    · trivial
  · split
    · trivial
    · split
      · split
        · trivial
        · split
          · trivial
          · split
            · trivial
            · exact h.err_returns _ _
      · exact h.err_returns _ _

variable (haligned : Aligned src) (hno : ¬ Overflows src start stop)

include haligned hno

/-- The trimmed range of a part lies in the range as well. -/
theorem Within.exists_trim {part : ℕ × ℕ} (h : Within src start stop part.1 part.2) :
    ∃ p q, trimRange src part.1 part.2 = (p, q) ∧ Within src start stop p q :=
  ⟨_, _, rfl, h.trim haligned hno⟩

theorem isOptionalElement_returns (h : Within src start stop i j) :
    (isOptionalElement src i j).Returns := by
  obtain ⟨hret, hfound⟩ := h.find haligned (by decide : Plain [colon]) hno
  rw [isOptionalElement, Reading.returns_bind]
  refine ⟨hret, fun labelEnd hlabel => ?_⟩
  have hlabel : Within src start stop i (labelEnd.getD j) := by
    cases labelEnd with
    | none => exact h
    | some p => exact (hfound p hlabel).1
  have htrim := hlabel.trim haligned hno
  have hle : i ≤ (trimRange src i (labelEnd.getD j)).2 :=
    (Nat.le_add_right i _).trans htrim.le
  rw [Codegen.slice_eq h.site.bound htrim.bound hle]
  trivial

theorem countElements_returns (parts : List (ℕ × ℕ))
    (h : ∀ part ∈ parts, Within src start stop part.1 part.2) (counts : ℕ × ℕ) :
    (countElements src parts counts).Returns := by
  induction parts generalizing counts with
  | nil => exact trivial
  | cons part parts ih =>
    obtain ⟨hpart, hparts⟩ := List.forall_mem_cons.mp h
    obtain ⟨p, q, hrange, htrim⟩ := hpart.exists_trim haligned hno
    rw [countElements, hrange]
    dsimp only
    split
    · exact ih hparts _
    · rw [htrim.slice_eq, Reading.ok_bind]
      split
      · exact htrim.errAt_returns _
      · rw [Reading.returns_bind]
        exact ⟨isOptionalElement_returns haligned hno htrim, fun _ _ => ih hparts _⟩

/-- The inside of a pair of delimiters. -/
theorem Within.inside {p q : ℕ} {opens closes : UInt8} (h : Within src start stop p q)
    (hopen : src[p]? = some opens) (hclose : src[q - 1]? = some closes) (hlt : p < q - 1)
    (hopens : opens < 128 ∧ isQuote opens = false ∧ isCloser opens = false)
    (hcloses : closes < 128) : Within src start stop (p + 1) (q - 1) := by
  have hle := h.le_stop
  exact ⟨h.site.byte haligned hno hopen (by omega) hopens.1 hopens.2.1 hopens.2.2, hlt,
    by omega, Bound.of_ascii hclose hcloses⟩

theorem parseAlternatives_returns (parts : List (ℕ × ℕ))
    (h : ∀ part ∈ parts, Within src start stop part.1 part.2) (found : List ℕ × Bool) :
    (parseAlternatives src parts found).Returns := by
  induction parts generalizing found with
  | nil => exact trivial
  | cons part parts ih =>
    obtain ⟨hpart, hparts⟩ := List.forall_mem_cons.mp h
    obtain ⟨p, q, hrange, htrim⟩ := hpart.exists_trim haligned hno
    rw [parseAlternatives, hrange]
    dsimp only
    split
    · -- A blank piece is passed over.
      exact ih hparts _
    · next hne =>
      rw [htrim.slice_eq, Reading.ok_bind]
      split
      · next hbrackets =>
        -- A tuple: its brackets close, and its elements are counted.
        have hopen : src[p]? = some bracketOpen := by
          rw [← hbrackets.1, head_slice (lt_of_le_of_ne htrim.le hne)]
        obtain ⟨hret, hok⟩ := balanced_spec rfl (by decide : bracketOpen ≠ bracketClose)
          htrim.site.bound hopen
        rw [Reading.returns_bind]
        refine ⟨hret, fun close hclose => ?_⟩
        split
        · exact htrim.err_returns _ _
        · next heq =>
          obtain ⟨hlt, -, hlast⟩ := hok close hclose
          obtain rfl : q = close + 1 := (not_not.mp heq).symm
          have htuple := htrim.inside haligned hno hopen hlast hlt (by decide) (by decide)
          obtain ⟨hret, helements⟩ := htuple.split haligned (by decide : Plain [comma]) hno
          rw [Reading.returns_bind]
          refine ⟨hret, fun elements hel => ?_⟩
          rw [Reading.returns_bind]
          refine ⟨countElements_returns haligned hno elements (helements elements hel) _, ?_⟩
          exact fun counts _ => ih hparts _
      · -- An array, or an error.
        split
        · exact ih hparts _
        · exact htrim.err_returns _ _

theorem parseArgs_returns (h : Within src start stop i j) : (parseArgs src i j).Returns := by
  obtain ⟨hret, hparts⟩ := h.split haligned (by decide : Plain [bar]) hno
  rw [parseArgs, Reading.returns_bind]
  refine ⟨hret, fun parts hsplit => ?_⟩
  rw [Reading.returns_bind]
  refine ⟨parseAlternatives_returns haligned hno parts (hparts parts hsplit) _, ?_⟩
  rintro ⟨arities, variadic⟩ -
  dsimp only
  split
  · exact h.errAt_returns _
  · rw [h.slice_eq]
    trivial

/-! ### Entries -/

theorem parseMembers_returns (parts : List (ℕ × ℕ))
    (h : ∀ part ∈ parts, Within src start stop part.1 part.2) (members : Members) :
    (parseMembers src parts members).Returns := by
  induction parts generalizing members with
  | nil => exact trivial
  | cons part parts ih =>
    obtain ⟨hpart, hparts⟩ := List.forall_mem_cons.mp h
    obtain ⟨p, q, hrange, htrim⟩ := hpart.exists_trim haligned hno
    rw [parseMembers, hrange]
    dsimp only
    split
    · -- A blank piece is passed over.
      exact ih hparts _
    · obtain ⟨hret, hok⟩ := htrim.find haligned (by decide : Plain [colon]) hno
      rw [Reading.returns_bind]
      refine ⟨hret, fun found hfound => ?_⟩
      cases found with
      | none => exact htrim.errAt_returns _
      | some colonAt =>
        obtain ⟨hname, hvalue⟩ := hok colonAt hfound
        have hvalue := hvalue.trim haligned hno
        dsimp only
        rw [hname.slice_eq, Reading.ok_bind]
        split
        · -- The member is the key, the arguments, or an error.
          split
          · exact htrim.errAt_returns _
          · rw [Reading.returns_bind]
            refine ⟨parseKey_returns hvalue, fun key _ => ?_⟩
            rw [hvalue.slice_eq, Reading.ok_bind]
            exact ih hparts _
        · split
          · split
            · exact htrim.errAt_returns _
            · rw [Reading.returns_bind]
              exact ⟨parseArgs_returns haligned hno hvalue, fun args _ => ih hparts _⟩
          · rw [htrim.slice_eq, Reading.ok_bind]
            exact htrim.err_returns _ _

theorem parseEntry_returns (h : Within src start stop i j) : (parseEntry src i j).Returns := by
  obtain ⟨hret, hparts⟩ := h.split haligned (by decide : Plain [semicolon, comma]) hno
  rw [parseEntry, Reading.returns_bind]
  refine ⟨hret, fun parts hsplit => ?_⟩
  rw [Reading.returns_bind]
  refine ⟨parseMembers_returns haligned hno parts (hparts parts hsplit) _, fun members _ => ?_⟩
  split
  · exact h.errAt_returns _
  · split
    · exact h.errAt_returns _
    · trivial

theorem parseObjects_returns (parts : List (ℕ × ℕ))
    (h : ∀ part ∈ parts, Within src start stop part.1 part.2) (events : List Event) :
    (parseObjects src parts events).Returns := by
  induction parts generalizing events with
  | nil => exact trivial
  | cons part parts ih =>
    obtain ⟨hpart, hparts⟩ := List.forall_mem_cons.mp h
    obtain ⟨p, q, hrange, htrim⟩ := hpart.exists_trim haligned hno
    rw [parseObjects, hrange]
    dsimp only
    split
    · exact ih hparts _
    · next hne =>
      have hlt : p < q := lt_of_le_of_ne htrim.le hne
      rw [htrim.slice_eq, Reading.ok_bind, head_slice hlt, getLast_slice hlt htrim.bound.le]
      split
      · next hbraces =>
        -- One byte cannot be both braces.
        have hinside : p < q - 1 := by
          refine lt_of_le_of_ne (by omega) fun heq => ?_
          rw [← heq, hbraces.1] at hbraces
          exact absurd hbraces.2 (by decide)
        have hobject := htrim.inside haligned hno hbraces.1 hbraces.2 hinside (by decide)
          (by decide)
        rw [Reading.returns_bind]
        exact ⟨parseEntry_returns haligned hno hobject, fun event _ => ih hparts _⟩
      · exact htrim.errAt_returns _

end Inner

/-- **The entries of a stream are read unless a counter overflows.** -/
theorem parseEntries_returns_iff {src : Text} {start stop : ℕ} (haligned : Aligned src)
    (hstart : Bound src start) (hstop : Bound src stop) (hle : start ≤ stop) :
    (parseEntries src start stop).Returns ↔ ¬ Overflows src start stop := by
  have hplain : Plain [comma] := by decide
  constructor
  · intro h
    rw [parseEntries, Reading.returns_bind] at h
    exact (splitTopLevel_returns_iff haligned hplain hstart hstop hle).mp h.1
  · intro hno
    have hwithin : Within src start stop start stop :=
      ⟨Site.refl hstart hle, hle, le_rfl, hstop⟩
    obtain ⟨hret, hparts⟩ := hwithin.split haligned hplain hno
    rw [parseEntries, Reading.returns_bind]
    refine ⟨hret, fun parts hsplit => ?_⟩
    rw [Reading.returns_bind]
    refine ⟨parseObjects_returns haligned hno parts (hparts parts hsplit) _, fun events _ => ?_⟩
    split
    · exact hwithin.errAt_returns _
    · trivial

/-! ### The places of the main loop -/

/-- A place that a scanner from `start` gets to, at which the text can be sliced. -/
structure Place (src : Text) (start pos : ℕ) : Prop where
  bound : Bound src pos
  path : Path src start pos

section Places

variable {src : Text} {start stop pos : ℕ} {c : UInt8}

theorem Place.byte (haligned : Aligned src) (h : Place src start pos) (hc : src[pos]? = some c)
    (hascii : c < 128) (hquote : isQuote c = false) : Place src start (pos + 1) :=
  ⟨Bound.after_ascii haligned hc hascii, h.path.trans (Path.byte hc hquote)⟩

theorem Place.run (haligned : Aligned src) (h : Place src start pos) (n : ℕ)
    (hall : ∀ k < n, ∃ c, src[pos + k]? = some c ∧ c < 128 ∧ isQuote c = false) :
    Place src start (pos + n) := by
  induction n with
  | zero => exact h
  | succ n ih =>
    obtain ⟨c, hc, hascii, hquote⟩ := hall n (Nat.lt_succ_self n)
    exact (ih fun k hk => hall k (Nat.lt_succ_of_lt hk)).byte haligned hc hascii hquote

theorem exists_ws {k : ℕ} (hle : pos ≤ k) (hlt : k < skipWs src pos) :
    ∃ c, src[k]? = some c ∧ isWs c = true := by
  obtain ⟨d, rfl⟩ := Nat.exists_eq_add_of_le hle
  obtain ⟨c, hc, hws⟩ := exists_of_lt_takeWhile (f := isWs) (l := src.drop pos) (k := d)
    (Nat.lt_of_add_lt_add_left hlt)
  exact ⟨c, by rw [← hc, List.getElem?_drop], hws⟩

theorem le_skipWs (src : Text) (pos : ℕ) : pos ≤ skipWs src pos := Nat.le_add_right _ _

theorem Place.skipWs (haligned : Aligned src) (h : Place src start pos) :
    Place src start (skipWs src pos) := by
  refine h.run haligned _ fun k hk => ?_
  obtain ⟨c, hc, hws⟩ := exists_ws (Nat.le_add_right pos k) (Nat.add_lt_add_left hk pos)
  exact ⟨c, hc, isWs_lt hws, isQuote_of_isWs hws⟩

/-- Whitespace ends before a brace. -/
theorem skipWs_le (hstop : src[stop]? = some braceClose) (h : pos ≤ stop) :
    Codegen.skipWs src pos ≤ stop := by
  by_contra hlt
  obtain ⟨c, hc, hws⟩ := exists_ws h (not_le.mp hlt)
  rw [hstop, Option.some.injEq] at hc
  subst hc
  cases hws

/-- A property name ends no later than the range it is read in. -/
theorem propertyName_spec (haligned : Aligned src) (hplace : Place src start pos)
    (hpath : Path src start stop) (hstop : src[stop]? = some braceClose) (hlt : pos < stop) :
    (propertyName src pos stop).Returns ∧ ∀ name after,
      propertyName src pos stop = .ok (name, after) →
        Place src start after ∧ pos < after ∧ after ≤ stop := by
  have hlen := lt_length_of_getElem hstop
  have hbound : Bound src stop := Bound.of_ascii hstop (by decide)
  obtain ⟨c, hc⟩ : ∃ c, src[pos]? = some c := ⟨_, List.getElem?_eq_getElem (hlt.trans hlen)⟩
  have herr (message : String) : ∃ e, (errAt src pos message pos stop : Reading (Text × ℕ)) =
      .error e := exists_errAt hplace.bound hplace.bound hbound hlt.le message
  rw [propertyName, byteAt, hc]
  simp only [Reading.ok_bind]
  split
  · next hquote =>
    split
    · obtain ⟨e, he⟩ := herr "a stream name must be a plain string"
      rw [he]
      exact ⟨trivial, fun name after h => by cases h⟩
    · -- The string ends before the brace, because the brace is no part of a string.
      have hafter : Codegen.after src pos c ≤ stop :=
        ((hplace.path.between hpath hlt.le).after hlt hc).le
      obtain ⟨k, hk, hposk, hkc⟩ : ∃ k, Codegen.after src pos c = k + 1 ∧ pos < k ∧
          src[k]? = some c := (after_string hc hquote).2.resolve_left (by omega)
      have hascii := isQuote_lt hquote
      rw [skipString_eq hc hquote, Reading.ok_bind, hk, Nat.add_sub_cancel,
        slice_eq (Bound.after_ascii haligned hc hascii) (Bound.of_ascii hkc hascii) hposk,
        Reading.ok_bind]
      split
      · obtain ⟨e, he⟩ := exists_err (α := Text × ℕ) hplace.bound
          (text "escapes in a stream name are not supported")
          ((src.drop (pos + 1)).take (k - (pos + 1)))
        rw [he]
        exact ⟨trivial, fun name after h => by cases h⟩
      · refine ⟨trivial, fun name after h => ?_⟩
        cases h
        refine ⟨⟨?_, ?_⟩, by omega, by omega⟩
        · exact hk ▸ bound_after_string haligned hc hquote
        · exact hplace.path.tail ⟨c, hc, hk⟩
  -- A bare name: it is a run of bytes below 128.
  · set n := (((src.drop pos).take (stop - pos)).takeWhile isNameByte).length with hn
    have hnle : n ≤ stop - pos := by
      have hfront := (List.takeWhile_prefix isNameByte
        (l := (src.drop pos).take (stop - pos))).length_le
      rw [List.length_take] at hfront
      omega
    have hend : Place src start (pos + n) := by
      refine hplace.run haligned n fun k hk => ?_
      obtain ⟨d, hd, hname⟩ := exists_of_lt_takeWhile hk
      rw [List.getElem?_take, if_pos (by omega), List.getElem?_drop] at hd
      exact ⟨d, hd, isNameByte_lt hname⟩
    split
    · obtain ⟨e, he⟩ := herr "expected a stream name"
      rw [he]
      exact ⟨trivial, fun name after h => by cases h⟩
    · rw [slice_eq hplace.bound hend.bound (Nat.le_add_right pos n), Reading.ok_bind]
      refine ⟨trivial, fun name after h => ?_⟩
      cases h
      exact ⟨hend, by omega, by omega⟩

end Places

/-! ### Streams -/

/-- The stream whose name is at `pos` has a list that opens at `b` and is closed at `close`. -/
def ListAt (src : Text) (stop pos b close : ℕ) : Prop :=
  ∃ name after, propertyName src pos stop = .ok (name, after) ∧
    (skipWs src after < stop ∧ src[skipWs src after]? = some colon) ∧
    skipWs src (skipWs src after + 1) = b ∧ (b < stop ∧ src[b]? = some bracketOpen) ∧
    balanced src b bracketOpen bracketClose = .ok close

/-- The stream that is next from `pos` has a list that opens at `b` and is closed at `close`. -/
def ValueAt (src : Text) (stop pos b close : ℕ) : Prop :=
  ∃ p, skipSemicolons src stop (src.length + 1) (skipWs src pos) = .ok p ∧ p < stop ∧
    ListAt src stop p b close

/-- `parse` looks for the next stream at this offset. -/
inductive Reaches (src : Text) (stop start : ℕ) : ℕ → Prop
  | start : Reaches src stop start start
  | next {pos b close : ℕ} {events : List Event} : Reaches src stop start pos →
      ValueAt src stop pos b close → parseEntries src (b + 1) close = .ok events →
      Reaches src stop start (close + 1)

/-- The braces of the interface. -/
def InterfaceAt (src : Text) (brace stop : ℕ) : Prop :=
  ∃ start i, find needle src = some start ∧ find [braceOpen] (src.drop start) = some i ∧
    brace = start + i ∧ balanced src brace braceOpen braceClose = .ok stop

/-- No list is closed behind the interface, and none fills a counter of the splitter. -/
def Readable (source : Text) : Prop :=
  ∀ src brace stop, stripComments source = .ok src → InterfaceAt src brace stop →
    ∀ pos, Reaches src stop (brace + 1) pos →
      pos ≤ stop ∧ ∀ b close, ValueAt src stop pos b close → ¬ Overflows src (b + 1) close

section Streams

variable {src : Text} {start stop pos : ℕ}

theorem skipSemicolons_spec (haligned : Aligned src) (hstop : src[stop]? = some braceClose)
    (fuel : ℕ) (hplace : Place src start pos) (hle : pos ≤ stop)
    (hfuel : src.length < pos + fuel) : (skipSemicolons src stop fuel pos).Returns ∧
      ∀ p, skipSemicolons src stop fuel pos = .ok p →
        Place src start p ∧ pos ≤ p ∧ p ≤ stop := by
  have hbound : Bound src stop := Bound.of_ascii hstop (by decide)
  induction fuel generalizing pos with
  | zero =>
    have hlen := hplace.bound.le
    omega
  | succ fuel ih =>
    rw [skipSemicolons, slice_eq hplace.bound hbound hle, Reading.ok_bind]
    split
    · next hhead =>
      obtain ⟨hlt, hc⟩ := (head_slice_iff hle).mp hhead
      have hnext := (hplace.byte haligned hc (by decide) rfl).skipWs haligned
      have hpos := le_skipWs src (pos + 1)
      obtain ⟨hret, hok⟩ := ih hnext (skipWs_le hstop hlt) (by omega)
      refine ⟨hret, fun p hp => ?_⟩
      obtain ⟨hp, hle', hstop'⟩ := hok p hp
      exact ⟨hp, by omega, hstop'⟩
    · refine ⟨trivial, fun p hp => ?_⟩
      cases hp
      exact ⟨hplace, le_rfl, hle⟩

/-- What is behind the list of a stream. -/
theorem ListAt.spec {b close : ℕ} (haligned : Aligned src) (hpath : Path src start stop)
    (hstop : src[stop]? = some braceClose) (hplace : Place src start pos) (hlt : pos < stop)
    (h : ListAt src stop pos b close) : pos < b ∧ b < close ∧ Bound src (b + 1) ∧
      Bound src close ∧ Place src start (close + 1) := by
  obtain ⟨name, after, hname, ⟨hcolon, hc⟩, rfl, ⟨hb, hopen⟩, hclose⟩ := h
  obtain ⟨hafter, hposlt, hle⟩ :=
    (propertyName_spec haligned hplace hpath hstop hlt).2 name after hname
  have hplaceColon := hafter.skipWs haligned
  have hplaceB := (hplaceColon.byte haligned hc (by decide) rfl).skipWs haligned
  obtain ⟨hbclose, hpathClose, hcloses⟩ := (balanced_spec rfl
    (by decide : bracketOpen ≠ bracketClose) hplaceB.bound hopen).2 close hclose
  have hplaceOpen := hplaceB.byte haligned hopen (by decide) rfl
  have hboundClose : Bound src close := Bound.of_ascii hcloses (by decide)
  have hws := le_skipWs src after
  have hws' := le_skipWs src (skipWs src after + 1)
  exact ⟨by omega, hbclose, hplaceOpen.bound, hboundClose,
    Place.byte haligned ⟨hboundClose, hplaceOpen.path.trans hpathClose⟩ hcloses (by decide) rfl⟩

/-- A stream is read up to its entries. -/
theorem readStream_of_listAt {b close : ℕ} (haligned : Aligned src)
    (hpath : Path src start stop) (hstop : src[stop]? = some braceClose)
    (hplace : Place src start pos) (hlt : pos < stop) (h : ListAt src stop pos b close) :
    ∃ name, readStream src stop pos = (do
      let events ← parseEntries src (b + 1) close
      return ({ name := name, events := events }, close)) := by
  have hbound : Bound src stop := Bound.of_ascii hstop (by decide)
  obtain ⟨name, after, hname, ⟨hcolon, hc⟩, rfl, ⟨hb, hopen⟩, hclose⟩ := h
  have hplaceColon :=
    ((propertyName_spec haligned hplace hpath hstop hlt).2 name after hname).1.skipWs haligned
  have hplaceB := (hplaceColon.byte haligned hc (by decide) rfl).skipWs haligned
  refine ⟨name, ?_⟩
  rw [readStream, hname, Reading.ok_bind]
  dsimp only
  rw [slice_eq hplaceColon.bound hbound hcolon.le, Reading.ok_bind, head_slice hcolon, hc,
    if_neg (not_not.mpr rfl), slice_eq hplaceB.bound hbound hb.le, Reading.ok_bind,
    head_slice hb, hopen, if_neg (not_not.mpr rfl), hclose, Reading.ok_bind]

/-- A stream that has no list is an error. -/
theorem exists_listAt (haligned : Aligned src) (hpath : Path src start stop)
    (hstop : src[stop]? = some braceClose) (hplace : Place src start pos) (hlt : pos < stop) :
    (∃ e, readStream src stop pos = .error e) ∨ ∃ b close, ListAt src stop pos b close := by
  have hbound : Bound src stop := Bound.of_ascii hstop (by decide)
  obtain ⟨hret, hok⟩ := propertyName_spec haligned hplace hpath hstop hlt
  rcases hret.cases with ⟨⟨name, after⟩, hname⟩ | ⟨e, he⟩
  · obtain ⟨hafter, hposlt, hle⟩ := hok name after hname
    have hplaceColon := hafter.skipWs haligned
    have hleColon : skipWs src after ≤ stop := skipWs_le hstop hle
    rw [readStream, hname, Reading.ok_bind]
    dsimp only
    -- Behind the name comes a colon,
    rw [slice_eq hplaceColon.bound hbound hleColon, Reading.ok_bind]
    split
    · exact .inl (exists_err hplaceColon.bound _ _)
    · next hhead =>
      obtain ⟨hcolon, hc⟩ := (head_slice_iff hleColon).mp (not_not.mp hhead)
      have hplaceB := (hplaceColon.byte haligned hc (by decide) rfl).skipWs haligned
      have hleB : skipWs src (skipWs src after + 1) ≤ stop := skipWs_le hstop hcolon
      -- and behind that a bracket that is closed.
      rw [slice_eq hplaceB.bound hbound hleB, Reading.ok_bind]
      split
      · exact .inl (exists_err hplaceB.bound _ _)
      · next hhead =>
        obtain ⟨hb, hopen⟩ := (head_slice_iff hleB).mp (not_not.mp hhead)
        rcases (balanced_spec rfl (by decide : bracketOpen ≠ bracketClose) hplaceB.bound
          hopen).1.cases with ⟨close, hclose⟩ | ⟨e, he⟩
        · exact .inr ⟨_, close, name, after, hname, ⟨hcolon, hc⟩, rfl, ⟨hb, hopen⟩, hclose⟩
        · exact .inl ⟨e, by rw [he]; rfl⟩
  · exact .inl ⟨e, by rw [readStream, he]; rfl⟩

/-- A place from which the next stream is looked for is on the way from the opening brace. -/
theorem Reaches.place (haligned : Aligned src) (hpath : Path src start stop)
    (hstop : src[stop]? = some braceClose) (hbound : Bound src start)
    (h : Reaches src stop start pos) : Place src start pos := by
  induction h with
  | start => exact ⟨hbound, Relation.ReflTransGen.refl⟩
  | @next pos b close events _ hvalue _ ih =>
    obtain ⟨p, hp, hlt, hlist⟩ := hvalue
    by_cases hle : skipWs src pos ≤ stop
    · have hplace := ih.skipWs haligned
      have hp := (skipSemicolons_spec haligned hstop _ hplace hle
        (by have := hplace.bound.le; omega)).2 p hp
      exact (hlist.spec haligned hpath hstop hp.1 hlt).2.2.2.2
    · rw [skipSemicolons, slice_panics (not_le.mp hle)] at hp
      cases hp

/-- What the loop does with the next stream. -/
theorem streamsLoop_of_valueAt {b close : ℕ} (haligned : Aligned src)
    (hpath : Path src start stop) (hstop : src[stop]? = some braceClose)
    (hplace : Place src start pos) (hle : pos ≤ stop) (h : ValueAt src stop pos b close)
    (fuel : ℕ) (streams : List Stream) :
    ∃ name, streamsLoop src stop (fuel + 1) pos streams = (do
      let events ← parseEntries src (b + 1) close
      streamsLoop src stop fuel (close + 1) (streams ++ [{ name := name, events := events }])) := by
  obtain ⟨p, hp, hlt, hlist⟩ := h
  have hplaceP := ((skipSemicolons_spec haligned hstop _ (hplace.skipWs haligned)
    (skipWs_le hstop hle) (by have := (hplace.skipWs haligned).bound.le; omega)).2 p hp).1
  obtain ⟨name, hread⟩ := readStream_of_listAt haligned hpath hstop hplaceP hlt hlist
  refine ⟨name, ?_⟩
  rw [streamsLoop, hp, Reading.ok_bind, if_neg (not_le.mpr hlt), hread]
  cases parseEntries src (b + 1) close <;> rfl

/-- The main loop returns if every list is read and closed in the interface. -/
theorem streamsLoop_returns (haligned : Aligned src) (hpath : Path src start stop)
    (hstop : src[stop]? = some braceClose) (hbound : Bound src start)
    (hgood : ∀ pos, Reaches src stop start pos →
      pos ≤ stop ∧ ∀ b close, ValueAt src stop pos b close → ¬ Overflows src (b + 1) close)
    (fuel : ℕ) (h : Reaches src stop start pos) (hfuel : src.length < pos + fuel)
    (streams : List Stream) : (streamsLoop src stop fuel pos streams).Returns := by
  induction fuel generalizing pos streams with
  | zero =>
    have hlen := (h.place haligned hpath hstop hbound).bound.le
    omega
  | succ fuel ih =>
    have hplace := h.place haligned hpath hstop hbound
    obtain ⟨hle, hno⟩ := hgood pos h
    have hws := hplace.skipWs haligned
    obtain ⟨hret, hok⟩ := skipSemicolons_spec haligned hstop (src.length + 1) hws
      (skipWs_le hstop hle) (by omega)
    rcases hret.cases with ⟨p, hp⟩ | ⟨e, he⟩
    · obtain ⟨hplaceP, hposp, hpstop⟩ := hok p hp
      -- The loop is at the end of the interface, or a stream is read.
      by_cases hend : stop ≤ p
      · rw [streamsLoop, hp, Reading.ok_bind, if_pos hend]
        trivial
      · have hlt : p < stop := not_le.mp hend
        rcases exists_listAt haligned hpath hstop hplaceP hlt with ⟨e, he⟩ | ⟨b, close, hlist⟩
        · rw [streamsLoop, hp, Reading.ok_bind, if_neg hend, he]
          trivial
        · have hvalue : ValueAt src stop pos b close := ⟨p, hp, hlt, hlist⟩
          obtain ⟨name, hloop⟩ :=
            streamsLoop_of_valueAt haligned hpath hstop hplace hle hvalue fuel streams
          obtain ⟨hpb, hbclose, hb, hclose, -⟩ :=
            hlist.spec haligned hpath hstop hplaceP hlt
          -- The entries of its list are read, and the loop goes on behind it.
          rw [hloop, Reading.returns_bind, parseEntries_returns_iff haligned hb hclose hbclose]
          refine ⟨hno b close hvalue, fun events hevents => ?_⟩
          have hpos := le_skipWs src pos
          exact ih (h.next hvalue hevents) (by omega) _
    · rw [streamsLoop, he]
      trivial

/-- The main loop gets to every such place. -/
theorem exists_streamsLoop (haligned : Aligned src) (hpath : Path src start stop)
    (hstop : src[stop]? = some braceClose) (hbound : Bound src start)
    (h : Reaches src stop start pos) : ∃ fuel streams, src.length < pos + fuel ∧
      streamsLoop src stop (src.length + 1) start [] =
        streamsLoop src stop fuel pos streams := by
  induction h with
  | start => exact ⟨src.length + 1, [], by omega, rfl⟩
  | @next pos b close events hreach hvalue hevents ih =>
    obtain ⟨fuel, streams, hfuel, heq⟩ := ih
    have hplace := hreach.place haligned hpath hstop hbound
    have hws := hplace.skipWs haligned
    have hpos := le_skipWs src pos
    obtain ⟨p, hp, hlt, hlist⟩ := hvalue
    -- A slice that ends in front of its start would have panicked.
    have hle : skipWs src pos ≤ stop := by
      by_contra hgt
      rw [skipSemicolons, slice_panics (not_le.mp hgt)] at hp
      cases hp
    have hplaceP := (skipSemicolons_spec haligned hstop _ hws hle
      (by have := hws.bound.le; omega)).2 p hp
    obtain ⟨hpb, hbclose, -⟩ := hlist.spec haligned hpath hstop hplaceP.1 hlt
    have hlen := lt_length_of_getElem hstop
    obtain ⟨fuel, rfl⟩ : ∃ k, fuel = k + 1 := ⟨fuel - 1, by omega⟩
    obtain ⟨name, hloop⟩ := streamsLoop_of_valueAt haligned hpath hstop hplace (by omega)
      ⟨p, hp, hlt, hlist⟩ fuel streams
    refine ⟨fuel, streams ++ [{ name := name, events := events }], by omega, ?_⟩
    rw [heq, hloop, hevents, Reading.ok_bind]

/-- **The main loop returns if and only if** every list is read and closed in the interface. -/
theorem streamsLoop_returns_iff (haligned : Aligned src) (hpath : Path src start stop)
    (hstop : src[stop]? = some braceClose) (hbound : Bound src start) :
    (streamsLoop src stop (src.length + 1) start []).Returns ↔
      ∀ pos, Reaches src stop start pos →
        pos ≤ stop ∧ ∀ b close, ValueAt src stop pos b close → ¬ Overflows src (b + 1) close := by
  constructor
  · intro hret pos h
    have hplace := h.place haligned hpath hstop hbound
    obtain ⟨fuel, streams, hfuel, heq⟩ := exists_streamsLoop haligned hpath hstop hbound h
    have hlen := hplace.bound.le
    obtain ⟨fuel, rfl⟩ : ∃ k, fuel = k + 1 := ⟨fuel - 1, by omega⟩
    rw [heq] at hret
    have hle : pos ≤ stop := by
      by_contra hgt
      have hws := le_skipWs src pos
      rw [streamsLoop, skipSemicolons, slice_panics (by omega : stop < skipWs src pos)] at hret
      exact hret
    refine ⟨hle, fun b close hvalue hover => ?_⟩
    obtain ⟨name, hloop⟩ :=
      streamsLoop_of_valueAt haligned hpath hstop hplace hle hvalue fuel streams
    rw [hloop, parseEntries, splitTopLevel_panics (by decide) hover] at hret
    exact hret
  · exact fun hgood => streamsLoop_returns haligned hpath hstop hbound hgood _ Reaches.start
      (by omega) []

end Streams

/-! ### The parser -/

theorem getElem_of_find_head {b : UInt8} {part t : Text} {p : ℕ}
    (h : find (b :: part) t = some p) : t[p]? = some b := by
  obtain ⟨rest, hrest⟩ := prefix_of_find h
  rw [← List.head?_drop, ← hrest]
  rfl

/-- The text of an interface is read unless a list is closed behind it or fills a counter. -/
theorem parseStripped_returns_iff {src : Text} (haligned : Aligned src) :
    (parseStripped src).Returns ↔ ∀ brace stop, InterfaceAt src brace stop →
      ∀ pos, Reaches src stop (brace + 1) pos →
        pos ≤ stop ∧ ∀ b close, ValueAt src stop pos b close → ¬ Overflows src (b + 1) close := by
  rw [parseStripped]
  cases hneedle : find needle src with
  | none =>
    refine ⟨fun _ brace stop hinterface => ?_, fun _ => err_returns Bound.zero _ _⟩
    obtain ⟨start, i, hstart, -⟩ := hinterface
    rw [hneedle] at hstart
    cases hstart
  | some start =>
    have hbound : Bound src start :=
      Bound.of_ascii (getElem_of_find_head hneedle) (by decide)
    dsimp only
    rw [sliceFrom_eq hbound, Reading.ok_bind]
    cases hbrace : find [braceOpen] (src.drop start) with
    | none =>
      refine ⟨fun _ brace stop hinterface => ?_, fun _ => err_returns hbound _ _⟩
      obtain ⟨start', i, hstart, hi, -⟩ := hinterface
      rw [hneedle, Option.some.injEq] at hstart
      rw [← hstart, hbrace] at hi
      cases hi
    | some i =>
      have hopen : src[start + i]? = some braceOpen := by
        rw [← List.getElem?_drop]
        exact getElem_of_find_head hbrace
      have hboundBrace : Bound src (start + i) := Bound.of_ascii hopen (by decide)
      have hboundBody : Bound src (start + i + 1) :=
        Bound.after_ascii haligned hopen (by decide)
      obtain ⟨hret, hok⟩ := balanced_spec rfl (by decide : braceOpen ≠ braceClose) hboundBrace
        hopen
      -- There is one interface at most: the first brace after the first header.
      have hinterface (brace stop : ℕ) : InterfaceAt src brace stop ↔
          brace = start + i ∧ balanced src brace braceOpen braceClose = .ok stop := by
        constructor
        · rintro ⟨start', i', hstart, hi, hrest⟩
          rw [hneedle, Option.some.injEq] at hstart
          rw [← hstart, hbrace, Option.some.injEq] at hi
          rwa [hstart, hi]
        · exact fun h => ⟨start, i, hneedle, hbrace, h⟩
      dsimp only
      rcases hret.cases with ⟨stop, hstop⟩ | ⟨e, he⟩
      · obtain ⟨-, hpath, hclose⟩ := hok stop hstop
        have hloop := streamsLoop_returns_iff haligned hpath hclose hboundBody
        -- Whatever the loop reads, the last step returns.
        have hrest (streams : List Stream) : (if streams.isEmpty = true then
            err src (start + i + 1) (text "`StreamerEvents` parsed as empty") []
            else pure { streams := streams } : Reading Catalog).Returns := by
          split
          · exact err_returns hboundBody _ _
          · trivial
        rw [hstop, Reading.ok_bind, Reading.returns_bind, hloop]
        constructor
        · rintro ⟨hgood, -⟩ brace stop' hat
          obtain ⟨rfl, hstop'⟩ := (hinterface brace stop').mp hat
          rw [hstop] at hstop'
          cases hstop'
          exact hgood
        · exact fun h => ⟨h (start + i) stop ((hinterface _ _).mpr ⟨rfl, hstop⟩),
            fun streams _ => hrest streams⟩
      · rw [he]
        refine ⟨fun _ brace stop hat => ?_, fun _ => trivial⟩
        obtain ⟨rfl, hstop⟩ := (hinterface brace stop).mp hat
        rw [he] at hstop
        cases hstop

/-- **`parse` returns if and only if the text is readable.** -/
theorem parse_returns_iff (source : String) :
    (parse source).Returns ↔ Readable (text source) := by
  obtain ⟨chars, hstrip, -⟩ := stripComments_spec source.toList
  have hsource : stripComments (text source) = .ok (encode chars) := hstrip
  rw [parse, parseText, hsource, Reading.ok_bind,
    parseStripped_returns_iff (aligned_encode chars)]
  constructor
  · intro h src brace stop hsrc
    rw [hsource] at hsrc
    cases hsrc
    exact h brace stop
  · exact fun h brace stop => h (encode chars) brace stop hsource

/-- A parenthesis in a list can hide a brace from the scanner that looks for brackets. -/
theorem not_parse_returns :
    ¬ (parse "interface StreamerEvents\x7ba:[\x7bkey:'k';args:[(\x7d]\x7d]\x7d").Returns := by
  have hpanic : parse "interface StreamerEvents\x7ba:[\x7bkey:'k';args:[(\x7d]\x7d]\x7d" =
      .panic := by decide +kernel
  rw [hpanic]
  exact Reading.not_returns_panic

end Codegen

end RocketSocket
