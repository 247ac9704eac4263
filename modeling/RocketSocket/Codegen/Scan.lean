import Mathlib.Logic.Relation
import RocketSocket.Codegen.Parse

/-!
# What the scanners of the codegen parser return

The scanners step over a byte or a whole string at a time, so the places they visit from one
offset form a path.  A slice between two boundaries is fine, and every place beside a byte
below 128 is one.

## Main definitions

* `Bound` — an offset at which the text can be sliced.
* `after`, `Path` — the next place of a scanner, and the places it gets to.
* `Deepens` — what a byte does to the depth of `balanced`.

## Main results

* `skipLoop_spec` — a string ends at the end of the text or after its quote.
* `Path.between` — of two places of one path the later is on the path from the earlier.
* `balanced_spec` — `balanced` returns, and the place it finds is on the path.
-/

namespace RocketSocket

namespace Codegen

open Machine Utf8

/-! ### What a call comes to -/

namespace Reading

variable {α β : Type} {x : Reading α} {f : α → Reading β}

@[simp] theorem returns_ok (a : α) : (ok a).Returns := trivial

@[simp] theorem returns_error (e : ParseError) : (error e : Reading α).Returns := trivial

@[simp] theorem not_returns_panic : ¬ (panic : Reading α).Returns := id

@[simp] theorem not_returns_hang : ¬ (hang : Reading α).Returns := id

@[simp] theorem pure_eq (a : α) : (pure a : Reading α) = ok a := rfl

@[simp] theorem ok_bind (a : α) : (ok a >>= f) = f a := rfl

@[simp] theorem error_bind (e : ParseError) : ((error e : Reading α) >>= f) = error e := rfl

@[simp] theorem panic_bind : ((panic : Reading α) >>= f) = panic := rfl

theorem Returns.cases (h : x.Returns) : (∃ a, x = ok a) ∨ ∃ e, x = error e := by
  cases x with
  | ok a => exact .inl ⟨a, rfl⟩
  | error e => exact .inr ⟨e, rfl⟩
  | panic => exact h.elim
  | hang => exact h.elim

/-- A call and the next one return if the first one does, and the next one on what it gave. -/
theorem returns_bind : (x >>= f).Returns ↔ x.Returns ∧ ∀ a, x = ok a → (f a).Returns := by
  cases x with
  | ok a =>
    constructor
    · exact fun h => ⟨trivial, fun b hb => by cases hb; exact h⟩
    · exact fun h => h.2 a rfl
  | error e => exact ⟨fun _ => ⟨trivial, fun b hb => by cases hb⟩, fun _ => trivial⟩
  | panic => exact ⟨fun h => h.elim, fun h => h.1.elim⟩
  | hang => exact ⟨fun h => h.elim, fun h => h.1.elim⟩

theorem bind_eq_ok {b : β} : (x >>= f) = ok b ↔ ∃ a, x = ok a ∧ f a = ok b := by
  constructor
  · intro h
    cases x with
    | ok a => exact ⟨a, rfl, h⟩
    | error e => cases h
    | panic => cases h
    | hang => cases h
  · rintro ⟨a, rfl, h⟩
    exact h

end Reading

/-! ### Slices and errors -/

/-- An offset at which the text can be sliced. -/
structure Bound (src : Text) (i : ℕ) : Prop where
  le : i ≤ src.length
  boundary : isBoundary src i = true

section Bound

variable {src : Text} {i start stop : ℕ} {b : UInt8}

theorem Bound.zero : Bound src 0 := ⟨Nat.zero_le _, isBoundary_zero⟩

theorem Bound.length : Bound src src.length := ⟨le_rfl, isBoundary_length⟩

theorem lt_length_of_getElem (hb : src[i]? = some b) : i < src.length :=
  (List.getElem?_eq_some_iff.mp hb).1

theorem Bound.of_ascii (hb : src[i]? = some b) (h : b < 128) : Bound src i :=
  ⟨(lt_length_of_getElem hb).le, isBoundary_of_ascii hb h⟩

theorem Bound.after_ascii (haligned : Aligned src) (hb : src[i]? = some b) (h : b < 128) :
    Bound src (i + 1) :=
  ⟨lt_length_of_getElem hb, isBoundary_after_ascii haligned hb h⟩

theorem slice_eq (hstart : Bound src start) (hstop : Bound src stop) (h : start ≤ stop) :
    slice src start stop = .ok ((src.drop start).take (stop - start)) := by
  rw [slice, if_pos ⟨h, hstop.le, hstart.boundary, hstop.boundary⟩]

/-- What is sliced is a range of the text. -/
theorem slice_eq_ok {t : Text} (h : slice src start stop = .ok t) :
    start ≤ stop ∧ stop ≤ src.length ∧ (src.drop start).take (stop - start) = t := by
  rw [slice] at h
  split at h
  · next hall =>
    cases h
    exact ⟨hall.1, hall.2.1, rfl⟩
  · cases h

theorem slice_panics (h : stop < start) : slice src start stop = .panic := by
  rw [slice, if_neg fun hall => absurd hall.1 (by omega)]

theorem sliceFrom_eq (h : Bound src start) : sliceFrom src start = .ok (src.drop start) := by
  rw [sliceFrom, slice_eq h Bound.length h.le, List.take_of_length_le (by simp)]

/-- The slice of a range begins with the byte the range begins with. -/
theorem head_slice (h : start < stop) :
    ((src.drop start).take (stop - start)).head? = src[start]? := by
  rw [List.head?_take, if_neg (by omega), List.head?_drop]

theorem head_slice_iff (h : start ≤ stop) :
    ((src.drop start).take (stop - start)).head? = some b ↔
      start < stop ∧ src[start]? = some b := by
  rcases h.lt_or_eq with hlt | rfl
  · rw [head_slice hlt]
    exact ⟨fun hb => ⟨hlt, hb⟩, fun hb => hb.2⟩
  · simp

/-- The slice of a range ends with the byte before the end of the range. -/
theorem getLast_slice (h : start < stop) (hstop : stop ≤ src.length) :
    ((src.drop start).take (stop - start)).getLast? = src[stop - 1]? := by
  rw [List.getLast?_eq_getElem?, List.length_take, List.length_drop, List.getElem?_take,
    if_pos (by omega), List.getElem?_drop]
  congr 1
  omega

/-- Cutting a text is always possible. -/
theorem exists_truncate (t : Text) (max : ℕ) : ∃ t', truncate t max = .ok t' := by
  rw [truncate]
  split
  · exact ⟨t, rfl⟩
  · have hcut := Str.floorBoundary_le t max
    have hbound : Bound t (Str.floorBoundary t max) :=
      ⟨by omega, Str.isBoundary_floorBoundary t max⟩
    rw [slice_eq Bound.zero hbound (Nat.zero_le _)]
    exact ⟨_, rfl⟩

/-- An error at a boundary is one. -/
theorem exists_err {α : Type} (h : Bound src i) (message context : Text) :
    ∃ e, (err src i message context : Reading α) = .error e := by
  obtain ⟨t, ht⟩ := exists_truncate (normalise context) 120
  rw [err, Nat.min_eq_left h.le, slice_eq Bound.zero h (Nat.zero_le i), Reading.ok_bind, ht]
  exact ⟨_, rfl⟩

/-- An error is no result. -/
theorem err_ne_ok {α : Type} {src : Text} {i : ℕ} {message context : Text} {a : α} :
    err src i message context ≠ .ok a := by
  intro h
  obtain ⟨_, -, h⟩ := Reading.bind_eq_ok.mp h
  obtain ⟨_, -, h⟩ := Reading.bind_eq_ok.mp h
  cases h

theorem errAt_ne_ok {α : Type} {src : Text} {i start stop : ℕ} {message : String} {a : α} :
    errAt src i message start stop ≠ .ok a := by
  intro h
  obtain ⟨_, -, h⟩ := Reading.bind_eq_ok.mp h
  exact err_ne_ok h

theorem err_returns {α : Type} (h : Bound src i) (message context : Text) :
    (err src i message context : Reading α).Returns := by
  obtain ⟨e, he⟩ := exists_err (α := α) h message context
  rw [he]
  trivial

theorem exists_errAt {α : Type} (h : Bound src i) (hstart : Bound src start)
    (hstop : Bound src stop) (hle : start ≤ stop) (message : String) :
    ∃ e, (errAt src i message start stop : Reading α) = .error e := by
  rw [errAt, slice_eq hstart hstop hle]
  exact exists_err h _ _

theorem errAt_returns {α : Type} (h : Bound src i) (hstart : Bound src start)
    (hstop : Bound src stop) (hle : start ≤ stop) (message : String) :
    (errAt src i message start stop : Reading α).Returns := by
  obtain ⟨e, he⟩ := exists_errAt (α := α) h hstart hstop hle message
  rw [he]
  trivial

end Bound

/-! ### Paths -/

/-- The place after the byte at an index, or after the string that it begins. -/
def after (src : Text) (i : ℕ) (c : UInt8) : ℕ :=
  if isQuote c then skipLoop src c src.length (i + 1) else i + 1

/-- A scanner that is at the first place gets to the second. -/
def Path (src : Text) : ℕ → ℕ → Prop :=
  Relation.ReflTransGen fun i j => ∃ c, src[i]? = some c ∧ after src i c = j

theorem lt_nextBoundary {src : Text} {i : ℕ} (h : i < src.length) :
    i < nextBoundary src (i + 1) ∧ nextBoundary src (i + 1) ≤ src.length := by
  rw [nextBoundary]
  split
  · exact ⟨h, le_rfl⟩
  · have hlen := (List.takeWhile_prefix isContinuation (l := src.drop (i + 1 + 1))).length_le
    rw [List.length_drop] at hlen
    omega

/-- **A string ends at the end of the text, or after its quote.** -/
theorem skipLoop_spec {src : Text} {quote : UInt8} (fuel : ℕ) {i : ℕ} (hi : i ≤ src.length)
    (hfuel : src.length ≤ i + fuel) :
    i ≤ skipLoop src quote fuel i ∧ (skipLoop src quote fuel i = src.length ∨
      ∃ k, skipLoop src quote fuel i = k + 1 ∧ i ≤ k ∧ src[k]? = some quote) := by
  induction fuel generalizing i with
  | zero =>
    rw [skipLoop]
    exact ⟨le_rfl, .inl (by omega)⟩
  | succ fuel ih =>
    rw [skipLoop]
    cases hc : src[i]? with
    | none =>
      have hlen := List.getElem?_eq_none_iff.mp hc
      dsimp only
      exact ⟨le_rfl, .inl (by omega)⟩
    | some c =>
      have hlt := lt_length_of_getElem hc
      dsimp only
      split
      · -- A backslash takes the next character with it.
        obtain ⟨hnext, hle⟩ := lt_nextBoundary hlt
        obtain ⟨h, hend⟩ := ih hle (by omega)
        refine ⟨by omega, hend.imp_right ?_⟩
        rintro ⟨k, hk, hki, hquote⟩
        exact ⟨k, hk, by omega, hquote⟩
      · split
        · next heq => exact ⟨by omega, .inr ⟨i, rfl, le_rfl, by rw [hc, heq]⟩⟩
        · obtain ⟨h, hend⟩ := ih (i := i + 1) (by omega) (by omega)
          refine ⟨by omega, hend.imp_right ?_⟩
          rintro ⟨k, hk, hki, hquote⟩
          exact ⟨k, hk, by omega, hquote⟩

section Drop

variable {src t t' : Text} {i : ℕ} {b : UInt8}

theorem getElem_of_drop (h : src.drop i = b :: t) : src[i]? = some b := by
  rw [← List.head?_drop, h]
  rfl

theorem drop_add (h : src.drop i = t ++ t') : src.drop (i + t.length) = t' := by
  rw [← List.drop_drop, h, List.drop_left]

/-- A string is walked through up to a backslash or its quote. -/
theorem skipLoop_bytes {quote : UInt8} (h : src.drop i = t ++ t')
    (hplain : ∀ b ∈ t, b ≠ backslash ∧ b ≠ quote) (n : ℕ) :
    skipLoop src quote (t.length + n) i = skipLoop src quote n (i + t.length) := by
  induction t generalizing i with
  | nil => rw [List.length_nil, Nat.zero_add, Nat.add_zero]
  | cons b t ih =>
    obtain ⟨hescape, hquote⟩ := hplain b List.mem_cons_self
    have hnext : src.drop (i + 1) = t ++ t' := drop_add (t := [b]) h
    rw [List.length_cons, Nat.succ_add, skipLoop, getElem_of_drop h]
    dsimp only
    rw [if_neg hescape, if_neg hquote, ih hnext fun b hb => hplain b (List.mem_cons_of_mem _ hb)]
    congr 1
    omega

end Drop

section Path

variable {src : Text} {i j k stop : ℕ} {c : UInt8}

theorem isQuote_cases (h : isQuote c = true) : c = 39 ∨ c = 34 ∨ c = 96 := by
  simpa [isQuote, or_assoc] using h

theorem isQuote_lt (h : isQuote c = true) : c < 128 := by
  rcases isQuote_cases h with rfl | rfl | rfl <;> decide

theorem isWs_cases (h : isWs c = true) : c = 9 ∨ c = 10 ∨ c = 12 ∨ c = 13 ∨ c = 32 := by
  simpa [isWs, or_assoc] using h

theorem isWs_lt (h : isWs c = true) : c < 128 := by
  rcases isWs_cases h with rfl | rfl | rfl | rfl | rfl <;> decide

theorem isQuote_of_isWs (h : isWs c = true) : isQuote c = false := by
  rcases isWs_cases h with rfl | rfl | rfl | rfl | rfl <;> rfl

theorem isNameByte_lt (h : isNameByte c = true) : c < 128 ∧ isQuote c = false := by
  constructor
  · simp only [isNameByte, isAlphanumeric, Bool.or_eq_true, Bool.and_eq_true, decide_eq_true_eq,
      beq_iff_eq, UInt8.le_iff_toNat_le, UInt8.reduceToNat] at h
    rw [UInt8.lt_iff_toNat_lt]
    rcases h with (((h | h) | h) | rfl) | rfl
    · exact h.2.trans_lt (by decide)
    · exact h.2.trans_lt (by decide)
    · exact h.2.trans_lt (by decide)
    · decide
    · decide
  · rw [← Bool.not_eq_true]
    intro hquote
    rcases isQuote_cases hquote with rfl | rfl | rfl <;> cases h

theorem after_byte (h : isQuote c = false) : after src i c = i + 1 := by
  rw [after, h]
  rfl

/-- A string that begins in the text. -/
theorem after_string (hc : src[i]? = some c) (h : isQuote c = true) :
    i < after src i c ∧ (after src i c = src.length ∨
      ∃ k, after src i c = k + 1 ∧ i < k ∧ src[k]? = some c) := by
  have hlt := lt_length_of_getElem hc
  obtain ⟨hle, hend⟩ := @skipLoop_spec src c src.length (i + 1) (by omega) (by omega)
  rw [after, h, if_pos rfl]
  exact ⟨hle, hend⟩

theorem lt_after (hc : src[i]? = some c) : i < after src i c := by
  cases h : isQuote c with
  | true => exact (after_string hc h).1
  | false => rw [after_byte h]; omega

theorem after_le (hc : src[i]? = some c) : after src i c ≤ src.length := by
  have hlt := lt_length_of_getElem hc
  cases h : isQuote c with
  | true =>
    rcases (after_string hc h).2 with hend | ⟨k, hk, -, hquote⟩
    · omega
    · have hklt := lt_length_of_getElem hquote
      omega
  | false => rw [after_byte h]; omega

/-- The end of a string is a boundary. -/
theorem bound_after_string (haligned : Aligned src) (hc : src[i]? = some c)
    (h : isQuote c = true) : Bound src (after src i c) := by
  rcases (after_string hc h).2 with hend | ⟨k, hk, -, hquote⟩
  · rw [hend]
    exact Bound.length
  · rw [hk]
    exact Bound.after_ascii haligned hquote (isQuote_lt h)

theorem skipString_eq (hc : src[i]? = some c) (h : isQuote c = true) :
    skipString src i = .ok (after src i c) := by
  rw [skipString, byteAt, hc, after, h]
  rfl

theorem Path.byte (hc : src[i]? = some c) (h : isQuote c = false) : Path src i (i + 1) :=
  Relation.ReflTransGen.single ⟨c, hc, after_byte h⟩

theorem Path.le (h : Path src i j) : i ≤ j := by
  induction h with
  | refl => exact le_rfl
  | tail _ hstep ih =>
    obtain ⟨c, hc, rfl⟩ := hstep
    exact ih.trans (lt_after hc).le

/-- Of two places that a scanner gets to, it gets from the first to the second. -/
theorem Path.between (hj : Path src i j) (hk : Path src i k) (hle : j ≤ k) : Path src j k := by
  have hunique : Relator.RightUnique fun i j => ∃ c, src[i]? = some c ∧ after src i c = j := by
    rintro i j k ⟨c, hc, rfl⟩ ⟨c', hc', rfl⟩
    rw [hc] at hc'
    rw [Option.some.inj hc']
  rcases Relation.ReflTransGen.total_of_right_unique hunique hj hk with h | h
  · exact h
  · have hkj : k = j := le_antisymm (Path.le h) hle
    rw [hkj]
    exact Relation.ReflTransGen.refl

/-- A scanner that gets further takes the step. -/
theorem Path.after (h : Path src i j) (hlt : i < j) (hc : src[i]? = some c) :
    Path src (after src i c) j := by
  rcases Relation.ReflTransGen.cases_head h with rfl | ⟨k, ⟨c', hc', rfl⟩, hpath⟩
  · exact absurd hlt (lt_irrefl i)
  · rw [hc] at hc'
    rw [Option.some.inj hc']
    exact hpath

end Path

/-! ### Balanced delimiters -/

/-- The depth that `balanced` counts, before and after a byte that does not end it. -/
inductive Deepens (opens closes c : UInt8) : ℕ → ℕ → Prop
  | same {depth : ℕ} : isQuote c = true ∨ c ≠ opens ∧ c ≠ closes →
      Deepens opens closes c depth depth
  | opened {depth : ℕ} : c = opens → Deepens opens closes c depth (depth + 1)
  | closed {depth : ℕ} : c = closes → Deepens opens closes c (depth + 2) (depth + 1)

section Balanced

variable {src : Text} {openAt i depth : ℕ} {opens closes c : UInt8}

/-- A byte ends `balanced`, or it goes on after it.  The depth is zero only where it begins. -/
theorem balancedLoop_cases (openAt : ℕ) (closes : UInt8) (hopens : isQuote opens = false)
    (hc : src[i]? = some c) (hdepth : 0 < depth ∨ c = opens) (fuel : ℕ) :
    (c = closes ∧ depth = 1 ∧ balancedLoop src openAt opens closes (fuel + 1) i depth = .ok i) ∨
    ∃ depth', Deepens opens closes c depth depth' ∧ 0 < depth' ∧
      balancedLoop src openAt opens closes (fuel + 1) i depth =
        balancedLoop src openAt opens closes fuel (after src i c) depth' := by
  rw [balancedLoop, hc]
  dsimp only
  cases hquote : isQuote c with
  -- A string is skipped; the depth is not zero, as no string opens the group.
  | true =>
    have hpos : 0 < depth := by
      refine hdepth.resolve_right ?_
      rintro rfl
      rw [hopens] at hquote
      cases hquote
    exact .inr ⟨depth, .same (.inl hquote), hpos,
      by rw [if_pos rfl, skipString_eq hc hquote, Reading.ok_bind]⟩
  | false =>
    rw [after_byte hquote, if_neg Bool.false_ne_true]
    by_cases hopen : c = opens
    · exact .inr ⟨depth + 1, .opened hopen, Nat.succ_pos depth, if_pos hopen⟩
    · have hpos : 0 < depth := hdepth.resolve_right hopen
      rw [if_neg hopen]
      by_cases hclose : c = closes
      · rw [if_pos hclose, if_neg (by omega)]
        by_cases hone : depth = 1
        · exact .inl ⟨hclose, hone, if_pos hone⟩
        · -- A bracket closes an inner group.
          obtain ⟨n, rfl⟩ : ∃ n, depth = n + 2 := ⟨depth - 2, by omega⟩
          exact .inr ⟨n + 1, .closed hclose, Nat.succ_pos n, if_neg hone⟩
      · exact .inr ⟨depth, .same (.inr ⟨hopen, hclose⟩), hpos, if_neg hclose⟩

theorem balancedLoop_returns (hopens : isQuote opens = false) (hbound : Bound src openAt)
    (fuel : ℕ) (hi : i ≤ src.length) (hfuel : src.length < i + fuel)
    (hdepth : 0 < depth ∨ src[i]? = some opens) :
    (balancedLoop src openAt opens closes fuel i depth).Returns := by
  induction fuel generalizing i depth with
  | zero => omega
  | succ fuel ih =>
    cases hc : src[i]? with
    | none =>
      obtain ⟨e, he⟩ := exists_err (α := ℕ) hbound
        (text "unbalanced `" ++ [opens] ++ text "`") (src.drop openAt)
      rw [balancedLoop, hc]
      dsimp only
      rw [sliceFrom_eq hbound, Reading.ok_bind, he]
      trivial
    | some c =>
      rw [hc, Option.some.injEq] at hdepth
      obtain ⟨-, -, heq⟩ | ⟨depth', -, hpos, heq⟩ :=
        balancedLoop_cases openAt closes hopens hc hdepth fuel
      · rw [heq]
        trivial
      · have hlt := lt_after hc
        rw [heq]
        exact ih (after_le hc) (by omega) (.inl hpos)

/-- The closing delimiter is on the path. -/
theorem balancedLoop_path (hopens : isQuote opens = false) (fuel : ℕ) {close : ℕ}
    (hdepth : 0 < depth ∨ src[i]? = some opens)
    (h : balancedLoop src openAt opens closes fuel i depth = .ok close) :
    Path src i close ∧ src[close]? = some closes := by
  induction fuel generalizing i depth with
  | zero => cases h
  | succ fuel ih =>
    cases hc : src[i]? with
    | none =>
      rw [balancedLoop, hc] at h
      obtain ⟨_, -, h⟩ := Reading.bind_eq_ok.mp h
      exact absurd h err_ne_ok
    | some c =>
      rw [hc, Option.some.injEq] at hdepth
      obtain ⟨rfl, -, heq⟩ | ⟨depth', -, hpos, heq⟩ :=
        balancedLoop_cases openAt closes hopens hc hdepth fuel
      · rw [heq] at h
        cases h
        exact ⟨Relation.ReflTransGen.refl, hc⟩
      · rw [heq] at h
        obtain ⟨hpath, hclose⟩ := ih (.inl hpos) h
        exact ⟨Relation.ReflTransGen.head ⟨c, hc, rfl⟩ hpath, hclose⟩

/-- **`balanced` returns, and the delimiter it finds is on the path** from the one it matches. -/
theorem balanced_spec (hopens : isQuote opens = false) (hne : opens ≠ closes)
    (hbound : Bound src openAt) (hopen : src[openAt]? = some opens) :
    (balanced src openAt opens closes).Returns ∧
      ∀ close, balanced src openAt opens closes = .ok close →
        openAt < close ∧ Path src (openAt + 1) close ∧ src[close]? = some closes := by
  have hbalanced : balanced src openAt opens closes =
      balancedLoop src openAt opens closes (src.length + 1) openAt 0 := by
    rw [balanced, byteAt, hopen]
    simp only [Reading.ok_bind, ne_eq, not_true_eq_false, if_false]
  rw [hbalanced]
  refine ⟨balancedLoop_returns hopens hbound _ hbound.le (by omega) (.inr hopen),
    fun close h => ?_⟩
  obtain ⟨hpath, hclose⟩ := balancedLoop_path hopens _ (.inr hopen) h
  have hlt : openAt < close := by
    refine lt_of_le_of_ne hpath.le fun heq => hne ?_
    rw [← heq, hopen] at hclose
    exact Option.some.inj hclose
  have hafter := hpath.after hlt hopen
  rw [after_byte hopens] at hafter
  exact ⟨hlt, hafter, hclose⟩

end Balanced

end Codegen

end RocketSocket
