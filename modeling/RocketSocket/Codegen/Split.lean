import Mathlib.Data.List.TakeWhile
import RocketSocket.Codegen.Scan

/-!
# What the splitter of the codegen parser returns

The splitter counts brackets and angle brackets in `i32`s, and panics where one of them is
full.  Nothing else stops it: its parts are ranges of the text again, and a splitter that is
run on one of them counts no higher than the first one did there.

## Main definitions

* `Nesting`, `Counted` — what the splitter has counted at a place, and the places it visits.
* `Overflows` — a counter of the splitter is full where it is to go up.
* `Within` — a range inside the range of a splitter that begins on its way.

## Main results

* `Overflows.outer` — a counter that overflows in an inner range does so in the outer one.
* `splitLoop_read` — one step of the splitter.
* `splitTopLevel_returns_iff` — it returns if and only if no counter overflows.
* `Within.split`, `Within.find`, `Within.trim` — the ranges that the parser goes on with.
-/

namespace RocketSocket

namespace Codegen

open Machine Utf8

/-! ### What the splitter counts -/

/-- The counters of the splitter, and the last byte it read that is no whitespace. -/
@[ext]
structure Nesting where
  depth : ℤ := 0
  angle : ℤ := 0
  prev : UInt8 := 32

/-- What one byte does to the counters, if none of them is full. -/
def Nesting.bump (n : Nesting) (c : UInt8) : Option Nesting :=
  if isOpener c then if n.depth = maxI32 then none else some { n with depth := n.depth + 1 }
  else if isCloser c then some { n with depth := n.depth - 1 }
  else if c = less ∧ isTypeEnd n.prev then
    if n.angle = maxI32 then none else some { n with angle := n.angle + 1 }
  else if c = greater ∧ n.angle > 0 ∧ n.prev ≠ equals then some { n with angle := n.angle - 1 }
  else some n

/-- What a byte, or the string that it begins, does to them. -/
def Nesting.read (n : Nesting) (c : UInt8) : Option Nesting :=
  if isQuote c then some { n with prev := singleQuote }
  else (n.bump c).map fun m => { m with prev := if isWs c then n.prev else c }

/-- The splitter that starts at an offset gets to a place with these counters. -/
inductive Counted (src : Text) (start : ℕ) : ℕ → Nesting → Prop
  | start : Counted src start start {}
  | read {i : ℕ} {n m : Nesting} {c : UInt8} : Counted src start i n → src[i]? = some c →
      n.read c = some m → 0 ≤ m.depth → Counted src start (after src i c) m

/-- A counter is full where it is to go up. -/
def Overflows (src : Text) (start stop : ℕ) : Prop :=
  ∃ i n c, Counted src start i n ∧ i < stop ∧ src[i]? = some c ∧ n.read c = none

/-- The counters are in range. -/
structure Nesting.Fits (n : Nesting) : Prop where
  depth : 0 ≤ n.depth ∧ n.depth ≤ maxI32
  angle : 0 ≤ n.angle ∧ n.angle ≤ maxI32

/-- The counters of an inner scan next to the ones of the outer scan: nothing is higher, and
they have read the same last byte unless the inner one has read nothing yet. -/
structure Nesting.Below (m n : Nesting) : Prop where
  depth : m.depth ≤ n.depth
  angle : m.angle ≤ n.angle
  prev : m.prev = n.prev ∨ (m.prev = 32 ∧ m.angle = 0)

/-- What becomes of the counters. -/
theorem Nesting.bump_cases {n m : Nesting} {c : UInt8} (h : n.bump c = some m) :
    (isOpener c = true ∧ n.depth ≠ maxI32 ∧ m = { n with depth := n.depth + 1 }) ∨
    (isOpener c = false ∧ isCloser c = true ∧ m = { n with depth := n.depth - 1 }) ∨
    (isOpener c = false ∧ isCloser c = false ∧ c = less ∧ isTypeEnd n.prev = true ∧
      n.angle ≠ maxI32 ∧ m = { n with angle := n.angle + 1 }) ∨
    (isOpener c = false ∧ isCloser c = false ∧ c = greater ∧ n.angle > 0 ∧ n.prev ≠ equals ∧
      m = { n with angle := n.angle - 1 }) ∨
    (isOpener c = false ∧ isCloser c = false ∧ ¬ (c = less ∧ isTypeEnd n.prev = true) ∧
      ¬ (c = greater ∧ n.angle > 0 ∧ n.prev ≠ equals) ∧ m = n) := by
  rw [Nesting.bump] at h
  cases hopener : isOpener c with
  | true =>
    -- An opening bracket, which the counter may have no room for;
    rw [hopener, if_pos rfl] at h
    split at h
    · cases h
    · next hfull => exact .inl ⟨rfl, hfull, (Option.some.inj h).symm⟩
  | false =>
    rw [hopener, if_neg Bool.false_ne_true] at h
    cases hcloser : isCloser c with
    | true =>
      -- a closing one;
      rw [hcloser, if_pos rfl] at h
      exact .inr (.inl ⟨rfl, rfl, (Option.some.inj h).symm⟩)
    | false =>
      rw [hcloser, if_neg Bool.false_ne_true] at h
      -- an angle that opens, closes, or is no angle.
      split at h
      · next hless =>
        split at h
        · cases h
        · next hfull =>
          exact .inr (.inr (.inl ⟨rfl, rfl, hless.1, hless.2, hfull, (Option.some.inj h).symm⟩))
      · next hless =>
        split at h
        · next hgreater =>
          exact .inr (.inr (.inr (.inl
            ⟨rfl, rfl, hgreater.1, hgreater.2.1, hgreater.2.2, (Option.some.inj h).symm⟩)))
        · next hgreater =>
          exact .inr (.inr (.inr (.inr ⟨rfl, rfl, hless, hgreater, (Option.some.inj h).symm⟩)))

section Counted

variable {src : Text} {start stop i : ℕ} {m n m' n' : Nesting} {c : UInt8}

/-- A count that falls below zero is at a closing delimiter. -/
theorem Nesting.isCloser_of_read (hn : 0 ≤ n.depth) (h : n.read c = some m)
    (hdepth : m.depth < 0) : isCloser c = true := by
  rw [Nesting.read] at h
  split at h
  · cases h
    exact absurd hdepth (not_lt.mpr hn)
  · obtain ⟨k, hk, rfl⟩ := Option.map_eq_some_iff.mp h
    have hk' : k.depth < 0 := hdepth
    rcases Nesting.bump_cases hk with ⟨-, -, rfl⟩ | ⟨-, hc, -⟩ | ⟨-, -, -, -, -, rfl⟩ |
      ⟨-, -, -, -, -, rfl⟩ | ⟨-, -, -, -, rfl⟩
    · exact absurd (Int.lt_of_lt_of_le (Int.lt_succ n.depth) (Int.le_of_lt hk')) (not_lt.mpr hn)
    · exact hc
    · exact absurd hk' (not_lt.mpr hn)
    · exact absurd hk' (not_lt.mpr hn)
    · exact absurd hk' (not_lt.mpr hn)

theorem isCloser_lt (h : isCloser c = true) : c < 128 := by
  have hcases : c = 125 ∨ c = 93 ∨ c = 41 := by simpa [isCloser, or_assoc] using h
  rcases hcases with rfl | rfl | rfl <;> decide

theorem Nesting.Fits.bump (hn : n.Fits) (h : n.bump c = some m) (hdepth : 0 ≤ m.depth) :
    m.Fits := by
  obtain ⟨⟨hd, hd'⟩, ha, ha'⟩ := hn
  rcases Nesting.bump_cases h with ⟨-, hfull, rfl⟩ | ⟨-, -, rfl⟩ | ⟨-, -, -, -, hfull, rfl⟩ |
    ⟨-, -, -, hpos, -, rfl⟩ | ⟨-, -, -, -, rfl⟩
  · exact ⟨⟨hdepth, Int.add_one_le_of_lt (lt_of_le_of_ne hd' hfull)⟩, ha, ha'⟩
  · exact ⟨⟨hdepth, (Int.sub_le_self _ zero_le_one).trans hd'⟩, ha, ha'⟩
  · exact ⟨⟨hd, hd'⟩, Int.le_add_one ha, Int.add_one_le_of_lt (lt_of_le_of_ne ha' hfull)⟩
  · exact ⟨⟨hd, hd'⟩, Int.le_sub_one_of_lt hpos, (Int.sub_le_self _ zero_le_one).trans ha'⟩
  · exact ⟨⟨hd, hd'⟩, ha, ha'⟩

theorem Nesting.Fits.read (hn : n.Fits) (h : n.read c = some m) (hdepth : 0 ≤ m.depth) :
    m.Fits := by
  rw [Nesting.read] at h
  split at h
  · cases h
    exact ⟨hn.depth, hn.angle⟩
  · obtain ⟨k, hk, rfl⟩ := Option.map_eq_some_iff.mp h
    have hfits := hn.bump hk hdepth
    exact ⟨hfits.depth, hfits.angle⟩

theorem Counted.fits (h : Counted src start i n) : n.Fits := by
  induction h with
  | start => exact ⟨⟨le_rfl, by decide⟩, le_rfl, by decide⟩
  | read _ _ hread hdepth ih => exact ih.read hread hdepth

theorem Counted.path (h : Counted src start i n) : Path src start i := by
  induction h with
  | start => exact Relation.ReflTransGen.refl
  | read _ hc _ _ ih => exact ih.tail ⟨_, hc, rfl⟩

theorem Nesting.bump_of_isWs (h : isWs c = true) : n.bump c = some n := by
  rcases isWs_cases h with rfl | rfl | rfl | rfl | rfl <;> rfl

/-- A byte keeps the inner counters below the outer ones: what is counted outside and not
inside is a `<` right at the beginning, or a `>` that closes one from before it. -/
theorem Nesting.Below.bump (h : m.Below n) (hn : n.Fits) (hm : m.bump c = some m')
    (hn' : n.bump c = some n') : m'.depth ≤ n'.depth ∧ m'.angle ≤ n'.angle := by
  obtain ⟨hdepth, hangle, hprev⟩ := h
  obtain ⟨-, hpos, -⟩ := hn
  have hfirst : isTypeEnd 32 = false := rfl
  rcases Nesting.bump_cases hm with ⟨ho, -, rfl⟩ | ⟨ho, hc, rfl⟩ | ⟨ho, hc, hless, hend, -, rfl⟩ |
      ⟨ho, hc, hgreater, hopen, hne, rfl⟩ | ⟨ho, hc, hless, hgreater, rfl⟩ <;>
    rcases Nesting.bump_cases hn' with ⟨ho', -, rfl⟩ | ⟨ho', hc', rfl⟩ |
      ⟨ho', hc', hless', hend', -, rfl⟩ | ⟨ho', hc', hgreater', hopen', hne', rfl⟩ |
      ⟨ho', hc', hless', hgreater', rfl⟩ <;>
    grind

theorem Nesting.Below.read (h : m.Below n) (hn : n.Fits) (hm : m.read c = some m')
    (hn' : n.read c = some n') : m'.Below n' := by
  rw [Nesting.read] at hm hn'
  cases hquote : isQuote c with
  | true =>
    rw [hquote, if_pos rfl, Option.some.injEq] at hm hn'
    subst hm hn'
    exact ⟨h.depth, h.angle, .inl rfl⟩
  | false =>
    rw [hquote, if_neg Bool.false_ne_true] at hm hn'
    obtain ⟨k, hk, rfl⟩ := Option.map_eq_some_iff.mp hm
    obtain ⟨l, hl, rfl⟩ := Option.map_eq_some_iff.mp hn'
    obtain ⟨hdepth, hangle⟩ := h.bump hn hk hl
    refine ⟨hdepth, hangle, ?_⟩
    cases hws : isWs c with
    | true =>
      rw [Nesting.bump_of_isWs hws, Option.some.injEq] at hk
      subst hk
      exact h.prev
    | false => exact .inl rfl

/-- A counter that is full inside is full outside. -/
theorem Nesting.Below.full (h : m.Below n) (hn : n.Fits) (hm : m.read c = none) :
    n.read c = none := by
  obtain ⟨hdepth, hangle, hprev⟩ := h
  obtain ⟨⟨-, hfull⟩, -, hfull'⟩ := hn
  have hfirst : isTypeEnd 32 = false := rfl
  have hzero : (0 : ℤ) < maxI32 := by decide
  rw [Nesting.read] at hm ⊢
  split at hm
  · cases hm
  · rw [Option.map_eq_none_iff, Nesting.bump] at hm
    rw [if_neg (by assumption), Option.map_eq_none_iff, Nesting.bump]
    grind

/-- Where an inner scan is, the outer one has been, as long as the outer one can go on. -/
theorem Counted.nested {inner : ℕ} (houter : Counted src start inner n)
    (hno : ¬ Overflows src start stop) (h : Counted src inner i m) (hi : i ≤ stop) :
    ∃ k, Counted src start i k ∧ m.Below k := by
  induction h with
  | start =>
    have hfits := houter.fits
    exact ⟨n, houter, hfits.depth.1, hfits.angle.1, .inr ⟨rfl, rfl⟩⟩
  | @read j p q c hj hc hread hdepth ih =>
    have hlt : j < stop := lt_of_lt_of_le (lt_after hc) hi
    obtain ⟨k, hk, hbelow⟩ := ih hlt.le
    cases hout : k.read c with
    | none => exact absurd ⟨j, k, c, hk, hlt, hc, hout⟩ hno
    | some l =>
      have hl := hbelow.read hk.fits hread hout
      exact ⟨l, hk.read hc hout (hdepth.trans hl.depth), hl⟩

/-- **A counter that overflows in an inner range does so in the outer one.** -/
theorem Overflows.outer {inner stop' : ℕ} (h : Overflows src inner stop')
    (houter : Counted src start inner n) (hle : stop' ≤ stop) : Overflows src start stop := by
  by_contra hno
  obtain ⟨i, m, c, hcounted, hlt, hc, hnone⟩ := h
  obtain ⟨k, hk, hbelow⟩ := houter.nested hno hcounted (by omega)
  exact hno ⟨i, k, c, hk, by omega, hc, hbelow.full hk.fits hnone⟩

end Counted

/-! ### The splitter -/

/-- Separators that mean nothing else to the splitter. -/
def Plain (seps : List UInt8) : Prop := ∀ c ∈ seps, c < 128 ∧ isQuote c = false ∧
  isOpener c = false ∧ isCloser c = false ∧ c ≠ less ∧ c ≠ greater

instance (seps : List UInt8) : Decidable (Plain seps) := List.decidableBAll _ seps

/-- The counters of a state of the splitter. -/
def Split.nesting (s : Split) : Nesting := { depth := s.depth, angle := s.angle, prev := s.prev }

/-- A separator at depth zero. -/
def Split.Cuts (s : Split) (seps : List UInt8) (c : UInt8) : Prop :=
  s.depth = 0 ∧ s.angle = 0 ∧ c ∈ seps

instance (s : Split) (seps : List UInt8) (c : UInt8) : Decidable (s.Cuts seps c) :=
  inferInstanceAs (Decidable (_ ∧ _ ∧ _))

/-- The state after a byte, or the string that it begins, that left the counters at `n`. -/
def Split.past (s : Split) (src : Text) (seps : List UInt8) (c : UInt8) (n : Nesting) : Split where
  i := after src s.i c
  start := if s.Cuts seps c then s.i + 1 else s.start
  parts := if s.Cuts seps c then s.parts ++ [(s.start, s.i)] else s.parts
  depth := n.depth
  angle := n.angle
  prev := n.prev

section Split

variable {src : Text} {start stop : ℕ} {seps : List UInt8} {s : Split} {c : UInt8} {n : Nesting}

@[simp] theorem Split.nesting_depth : s.nesting.depth = s.depth := rfl

@[simp] theorem Split.nesting_angle : s.nesting.angle = s.angle := rfl

@[simp] theorem Split.nesting_prev : s.nesting.prev = s.prev := rfl

@[simp] theorem Split.nesting_past : (s.past src seps c n).nesting = n := rfl

@[simp] theorem Split.i_past : (s.past src seps c n).i = after src s.i c := rfl

theorem Split.start_past (h : s.Cuts seps c) : (s.past src seps c n).start = s.i + 1 := if_pos h

theorem Split.start_past_of_not (h : ¬ s.Cuts seps c) :
    (s.past src seps c n).start = s.start := if_neg h

theorem Split.parts_past (h : s.Cuts seps c) :
    (s.past src seps c n).parts = s.parts ++ [(s.start, s.i)] := if_pos h

theorem Split.parts_past_of_not (h : ¬ s.Cuts seps c) :
    (s.past src seps c n).parts = s.parts := if_neg h

/-- The counters in the loop are the ones of the nesting. -/
theorem Split.count_eq (hplain : Plain seps) (hquote : isQuote c = false)
    (h : s.nesting.bump c = some n) : s.count seps c = .ok
      { s with
        depth := n.depth
        angle := n.angle
        start := if s.Cuts seps c then s.i + 1 else s.start
        parts := if s.Cuts seps c then s.parts ++ [(s.start, s.i)] else s.parts } := by
  -- A byte that moves a counter is no separator.
  have hcut (hsep : ¬ (c < 128 ∧ isQuote c = false ∧ isOpener c = false ∧ isCloser c = false ∧
      c ≠ less ∧ c ≠ greater)) : ¬ s.Cuts seps c := fun hall => hsep (hplain c hall.2.2)
  rw [Split.count]
  rcases Nesting.bump_cases h with ⟨ho, hfull, rfl⟩ | ⟨ho, hc, rfl⟩ |
    ⟨ho, hc, hless, hend, hfull, rfl⟩ | ⟨ho, hc, hgreater, hopen, hne, rfl⟩ |
    ⟨ho, hc, hless, hgreater, rfl⟩
  · rw [Split.nesting_depth] at hfull
    have hcut := hcut (by simp [ho])
    simp [ho, hfull, hcut]
  · have hcut := hcut (by simp [hc])
    simp [ho, hc, hcut]
  · rw [Split.nesting_prev] at hend
    rw [Split.nesting_angle] at hfull
    subst hless
    have hcut := hcut (by simp)
    simp [ho, hc, hend, hfull, hcut]
  · rw [Split.nesting_angle] at hopen
    rw [Split.nesting_prev] at hne
    subst hgreater
    have hcut := hcut (by simp)
    simp [ho, hc, hopen, hne, hcut, show greater ≠ less by decide]
  · rw [Split.nesting_prev] at hless
    rw [Split.nesting_angle, Split.nesting_prev] at hgreater
    rw [if_neg (by simp [ho]), if_neg (by simp [hc]), if_neg hless, if_neg hgreater]
    -- A byte that moves none may cut.
    by_cases hcuts : s.Cuts seps c
    · have hsep : s.depth = 0 ∧ s.angle = 0 ∧ c ∈ seps := hcuts
      rw [if_pos hsep, if_pos hcuts, if_pos hcuts]
      rfl
    · have hsep : ¬ (s.depth = 0 ∧ s.angle = 0 ∧ c ∈ seps) := hcuts
      rw [if_neg hsep, if_neg hcuts, if_neg hcuts]
      rfl

theorem Split.count_full (h : s.nesting.bump c = none) : s.count seps c = .panic := by
  rw [Nesting.bump, Split.nesting_depth, Split.nesting_angle, Split.nesting_prev] at h
  rw [Split.count]
  split at h
  · next ho =>
    split at h
    · next hfull => rw [if_pos ho, if_pos hfull]
    · cases h
  · next ho =>
    split at h
    · cases h
    · next hc =>
      split at h
      · next hless =>
        split at h
        · next hfull => rw [if_neg ho, if_neg hc, if_pos hless, if_pos hfull]
        · cases h
      · split at h <;> cases h

/-- The loop at a byte where a counter is full, -/
theorem splitLoop_full (hi : s.i < stop) (hc : src[s.i]? = some c)
    (h : s.nesting.read c = none) (fuel : ℕ) :
    splitLoop src start stop seps (fuel + 1) s = .panic := by
  rw [Nesting.read] at h
  split at h
  · cases h
  · next hquote =>
    rw [Option.map_eq_none_iff] at h
    rw [splitLoop, if_pos hi, byteAt, hc]
    simp only [Reading.ok_bind, if_neg hquote, Split.count_full h, Reading.panic_bind]

/-- at a closing delimiter that nothing opened, -/
theorem splitLoop_error (hplain : Plain seps) (hi : s.i < stop) (hc : src[s.i]? = some c)
    (h : s.nesting.read c = some n) (hs : 0 ≤ s.depth) (hn : n.depth < 0) (fuel : ℕ) :
    splitLoop src start stop seps (fuel + 1) s =
      errAt src s.i "unbalanced closing delimiter" start stop := by
  rw [Nesting.read] at h
  split at h
  · cases h
    exact absurd hn (not_lt.mpr hs)
  · next hquote =>
    obtain ⟨m, hm, rfl⟩ := Option.map_eq_some_iff.mp h
    have hcount := Split.count_eq hplain (Bool.not_eq_true _ ▸ hquote) hm
    rw [splitLoop, if_pos hi, byteAt, hc]
    simp only [Reading.ok_bind, if_neg hquote, hcount]
    exact if_pos hn

/-- and at any other byte. -/
theorem splitLoop_read (hplain : Plain seps) (hi : s.i < stop) (hc : src[s.i]? = some c)
    (h : s.nesting.read c = some n) (hn : 0 ≤ n.depth) (fuel : ℕ) :
    splitLoop src start stop seps (fuel + 1) s =
      splitLoop src start stop seps fuel (s.past src seps c n) := by
  rw [Nesting.read] at h
  split at h
  · next hquote =>
    cases h
    have hcut : ¬ s.Cuts seps c := fun hall => by
      rw [(hplain c hall.2.2).2.1] at hquote
      cases hquote
    rw [splitLoop, if_pos hi, byteAt, hc]
    simp only [Reading.ok_bind, if_pos hquote, skipString_eq hc hquote]
    rw [Split.past, if_neg hcut, if_neg hcut]
    rfl
  · next hquote =>
    obtain ⟨m, hm, rfl⟩ := Option.map_eq_some_iff.mp h
    have hcount := Split.count_eq hplain (Bool.not_eq_true _ ▸ hquote) hm
    rw [splitLoop, if_pos hi, byteAt, hc]
    simp only [Reading.ok_bind, if_neg hquote, hcount]
    rw [if_neg (not_lt.mpr hn), Split.past, after_byte (Bool.not_eq_true _ ▸ hquote)]
    rfl

end Split

/-! ### The parts of a range -/

/-- A place that the splitter of a range gets to, at which the text can be sliced. -/
structure Site (src : Text) (start stop i : ℕ) : Prop where
  bound : Bound src i
  le : i ≤ stop
  counted : ∃ n, Counted src start i n

/-- A range inside the range of a splitter that begins on its way. -/
structure Within (src : Text) (start stop i j : ℕ) : Prop where
  site : Site src start stop i
  le : i ≤ j
  le_stop : j ≤ stop
  bound : Bound src j

/-- A part that a separator ends. -/
structure Cut (src : Text) (start stop : ℕ) (part : ℕ × ℕ) : Prop where
  within : Within src start stop part.1 part.2
  next : Site src start stop (part.2 + 1)

section Parts

variable {src : Text} {start stop i j : ℕ} {seps : List UInt8}

theorem Site.refl (hstart : Bound src start) (hle : start ≤ stop) :
    Site src start stop start := ⟨hstart, hle, _, Counted.start⟩

/-- The splitter comes to a result or an error unless a counter overflows, and every part is
within the range. -/
theorem splitLoop_spec (haligned : Aligned src) (hplain : Plain seps) (hstart : Bound src start)
    (hstop : Bound src stop) (hle : start ≤ stop) (fuel : ℕ) {s : Split}
    (hcounted : Counted src start s.i s.nesting) (hlen : s.i ≤ src.length)
    (hfuel : src.length < s.i + fuel) (hfrom : Site src start stop s.start)
    (hfromle : s.start ≤ s.i) (hparts : ∀ p ∈ s.parts, Cut src start stop p) :
    ((splitLoop src start stop seps fuel s).Returns ∨ Overflows src start stop) ∧
      ∀ parts, splitLoop src start stop seps fuel s = .ok parts →
        ∃ cuts last, parts = cuts ++ [(last, stop)] ∧ Site src start stop last ∧
          ∀ p ∈ cuts, Cut src start stop p := by
  induction fuel generalizing s with
  | zero => omega
  | succ fuel ih =>
    by_cases hi : s.i < stop
    · obtain ⟨c, hc⟩ : ∃ c, src[s.i]? = some c :=
        ⟨_, List.getElem?_eq_getElem (lt_of_lt_of_le hi hstop.le)⟩
      cases hread : s.nesting.read c with
      | none =>
        rw [splitLoop_full hi hc hread]
        exact ⟨.inr ⟨s.i, _, c, hcounted, hi, hc, hread⟩, fun parts h => by cases h⟩
      | some n =>
        have hdepth : 0 ≤ s.depth := hcounted.fits.depth.1
        by_cases hn : n.depth < 0
        · have hbound : Bound src s.i :=
            Bound.of_ascii hc (isCloser_lt (Nesting.isCloser_of_read hdepth hread hn))
          obtain ⟨e, he⟩ := exists_errAt (α := List (ℕ × ℕ)) hbound hstart hstop hle
            "unbalanced closing delimiter"
          rw [splitLoop_error hplain hi hc hread hdepth hn, he]
          exact ⟨.inl trivial, fun parts h => by cases h⟩
        · rw [not_lt] at hn
          have hnext : Counted src start (after src s.i c) n := hcounted.read hc hread hn
          have hlt : s.i < after src s.i c := lt_after hc
          rw [splitLoop_read hplain hi hc hread hn]
          by_cases hcut : s.Cuts seps c
          · -- The byte is a separator, and the next part begins behind it.
            obtain ⟨hascii, hquote, -⟩ := hplain c hcut.2.2
            have hsite : Site src start stop (s.i + 1) := by
              rw [after_byte hquote] at hnext
              exact ⟨Bound.after_ascii haligned hc hascii, hi, n, hnext⟩
            refine ih hnext (after_le hc) (by rw [Split.i_past]; omega) ?_ ?_ ?_
            · rwa [Split.start_past hcut]
            · rw [Split.start_past hcut, Split.i_past]
              exact hlt
            · rw [Split.parts_past hcut, List.forall_mem_append, List.forall_mem_singleton]
              exact ⟨hparts, ⟨hfrom, hfromle, hi.le, Bound.of_ascii hc hascii⟩, hsite⟩
          · refine ih hnext (after_le hc) (by rw [Split.i_past]; omega) ?_ ?_ ?_
            · rwa [Split.start_past_of_not hcut]
            · rw [Split.start_past_of_not hcut, Split.i_past]
              omega
            · rwa [Split.parts_past_of_not hcut]
    · rw [splitLoop, if_neg hi]
      split
      · obtain ⟨e, he⟩ := exists_errAt (α := List (ℕ × ℕ)) hstart hstart hstop hle
          "unbalanced delimiter"
        rw [he]
        exact ⟨.inl trivial, fun parts h => by cases h⟩
      · refine ⟨.inl trivial, fun parts h => ?_⟩
        cases h
        exact ⟨s.parts, s.start, rfl, hfrom, hparts⟩

/-- The parts of a range: the last one goes to its end. -/
theorem splitTopLevel_spec (haligned : Aligned src) (hplain : Plain seps)
    (hstart : Bound src start) (hstop : Bound src stop) (hle : start ≤ stop) :
    ((splitTopLevel src start stop seps).Returns ∨ Overflows src start stop) ∧
      ∀ parts, splitTopLevel src start stop seps = .ok parts →
        ∃ cuts last, parts = cuts ++ [(last, stop)] ∧ Site src start stop last ∧
          ∀ p ∈ cuts, Cut src start stop p := by
  rw [splitTopLevel]
  refine splitLoop_spec haligned hplain hstart hstop hle _ Counted.start hstart.le ?_
    (Site.refl hstart hle) le_rfl (fun p hp => absurd hp (List.not_mem_nil))
  dsimp only
  omega

/-- The loop gets to every place of the range that the counters allow. -/
theorem exists_splitLoop (hplain : Plain seps) {n : Nesting} (h : Counted src start i n)
    (hi : i < stop) : ∃ fuel s, s.i = i ∧ s.nesting = n ∧ src.length < i + fuel ∧
      splitTopLevel src start stop seps = splitLoop src start stop seps fuel s := by
  induction h with
  | start => exact ⟨src.length + 1, { i := start, start := start }, rfl, rfl, by omega, rfl⟩
  | @read j n m c hj hc hread hdepth ih =>
    have hlt : j < after src j c := lt_after hc
    obtain ⟨fuel, s, rfl, rfl, hfuel, heq⟩ := ih (by omega)
    have hlen := lt_length_of_getElem hc
    obtain ⟨fuel, rfl⟩ : ∃ k, fuel = k + 1 := ⟨fuel - 1, by omega⟩
    refine ⟨fuel, s.past src seps c m, rfl, rfl, by omega, ?_⟩
    rw [heq, splitLoop_read hplain (by omega) hc hread hdepth]

/-- The splitter panics where a counter overflows. -/
theorem splitTopLevel_panics (hplain : Plain seps) (h : Overflows src start stop) :
    splitTopLevel src start stop seps = .panic := by
  obtain ⟨i, n, c, hcounted, hi, hc, hnone⟩ := h
  obtain ⟨fuel, s, rfl, rfl, hfuel, heq⟩ := exists_splitLoop hplain hcounted hi
  have hlen := lt_length_of_getElem hc
  obtain ⟨fuel, rfl⟩ : ∃ k, fuel = k + 1 := ⟨fuel - 1, by omega⟩
  rw [heq, splitLoop_full hi hc hnone]

/-- **The splitter returns if and only if no counter overflows.** -/
theorem splitTopLevel_returns_iff (haligned : Aligned src) (hplain : Plain seps)
    (hstart : Bound src start) (hstop : Bound src stop) (hle : start ≤ stop) :
    (splitTopLevel src start stop seps).Returns ↔ ¬ Overflows src start stop := by
  constructor
  · intro h hover
    rw [splitTopLevel_panics hplain hover] at h
    exact h
  · exact (splitTopLevel_spec haligned hplain hstart hstop hle).1.resolve_right

end Parts

/-! ### Ranges within a range -/

theorem exists_of_lt_takeWhile {α : Type} {f : α → Bool} {l : List α} {k : ℕ}
    (h : k < (l.takeWhile f).length) : ∃ a, l[k]? = some a ∧ f a = true := by
  have hfront := List.takeWhile_prefix f (l := l)
  refine ⟨_, ?_, List.mem_takeWhile_imp (List.getElem_mem h)⟩
  rw [hfront.getElem h]
  exact List.getElem?_eq_getElem (lt_of_lt_of_le h hfront.length_le)

section Within

variable {src : Text} {start stop i j p q : ℕ} {seps : List UInt8} {c : UInt8}

theorem Site.nested (hno : ¬ Overflows src start stop) (h : Within src start stop i j)
    (hp : Site src i j p) : Site src start stop p := by
  obtain ⟨n, hn⟩ := h.site.counted
  obtain ⟨m, hm⟩ := hp.counted
  have hle : p ≤ stop := hp.le.trans h.le_stop
  obtain ⟨k, hk, -⟩ := hn.nested hno hm hle
  exact ⟨hp.bound, hle, k, hk⟩

/-- A range within an inner range is within the outer one. -/
theorem Within.nested (hno : ¬ Overflows src start stop) (h : Within src start stop i j)
    (hp : Within src i j p q) : Within src start stop p q :=
  ⟨hp.site.nested hno h, hp.le, hp.le_stop.trans h.le_stop, hp.bound⟩

theorem Within.not_overflows (hno : ¬ Overflows src start stop)
    (h : Within src start stop i j) : ¬ Overflows src i j := by
  obtain ⟨n, hn⟩ := h.site.counted
  exact fun hover => hno (hover.outer hn h.le_stop)

/-- The place after a byte that leaves the counters alone or opens a delimiter. -/
theorem Site.byte (haligned : Aligned src) (hno : ¬ Overflows src start stop)
    (h : Site src start stop i) (hc : src[i]? = some c) (hi : i < stop) (hascii : c < 128)
    (hquote : isQuote c = false) (hcloser : isCloser c = false) :
    Site src start stop (i + 1) := by
  obtain ⟨n, hn⟩ := h.counted
  refine ⟨Bound.after_ascii haligned hc hascii, hi, ?_⟩
  cases hread : n.read c with
  | none => exact absurd ⟨i, n, c, hn, hi, hc, hread⟩ hno
  | some m =>
    have hm : 0 ≤ m.depth := by
      by_contra hneg
      rw [Nesting.isCloser_of_read hn.fits.depth.1 hread (not_le.mp hneg)] at hcloser
      cases hcloser
    have hnext := hn.read hc hread hm
    rw [after_byte hquote] at hnext
    exact ⟨m, hnext⟩

/-- A place stays on the way over whitespace. -/
theorem Site.skip (haligned : Aligned src) (hno : ¬ Overflows src start stop)
    (h : Site src start stop i) (n : ℕ) (hn : i + n ≤ stop)
    (hws : ∀ k < n, ∃ c, src[i + k]? = some c ∧ isWs c = true) :
    Site src start stop (i + n) := by
  induction n with
  | zero => exact h
  | succ n ih =>
    obtain ⟨c, hc, hcws⟩ := hws n (Nat.lt_succ_self n)
    have hcloser : isCloser c = false := by
      rcases isWs_cases hcws with rfl | rfl | rfl | rfl | rfl <;> rfl
    have hlt : i + n < stop := hn
    exact (ih hlt.le fun k hk => hws k (Nat.lt_succ_of_lt hk)).byte haligned hno hc hlt
      (isWs_lt hcws) (isQuote_of_isWs hcws) hcloser

/-- What is trimmed off a range is whitespace. -/
theorem trimRange_spec (hle : i ≤ j) (hj : j ≤ src.length) : ∃ front back,
    trimRange src i j = (i + front, j - back) ∧ front + back ≤ j - i ∧
    (∀ k < front, ∃ c, src[i + k]? = some c ∧ isWs c = true) ∧
    ∀ k, j - back ≤ k → k < j → ∃ c, src[k]? = some c ∧ isWs c = true := by
  set part := (src.drop i).take (j - i) with hpart
  have hlen : part.length = j - i := by
    rw [hpart, List.length_take, List.length_drop]
    omega
  have hget (k : ℕ) (hk : k < j - i) : part[k]? = src[i + k]? := by
    rw [hpart, List.getElem?_take, if_pos hk, List.getElem?_drop]
  have hfront : (part.takeWhile isWs).length ≤ j - i :=
    hlen ▸ (List.takeWhile_prefix isWs).length_le
  set front := (part.takeWhile isWs).length with hfrontdef
  have hback : ((part.drop front).reverse.takeWhile isWs).length ≤ j - i - front := by
    have hle := (List.takeWhile_prefix isWs (l := (part.drop front).reverse)).length_le
    rwa [List.length_reverse, List.length_drop, hlen] at hle
  set back := ((part.drop front).reverse.takeWhile isWs).length with hbackdef
  refine ⟨front, back, rfl, by omega, fun k hk => ?_, fun k hk hlt => ?_⟩
  · obtain ⟨c, hc, hws⟩ := exists_of_lt_takeWhile hk
    exact ⟨c, by rw [← hget k (by omega), hc], hws⟩
  · -- The byte is counted from the end of the range.
    obtain ⟨c, hc, hws⟩ := exists_of_lt_takeWhile (f := isWs)
      (l := (part.drop front).reverse) (k := j - 1 - k) (by omega)
    rw [List.getElem?_reverse (by rw [List.length_drop, hlen]; omega), List.length_drop, hlen,
      List.getElem?_drop, hget _ (by omega)] at hc
    refine ⟨c, ?_, hws⟩
    rw [← hc]
    congr 1
    omega

/-- Trimming leaves a range within the outer one. -/
theorem Within.trim (haligned : Aligned src) (hno : ¬ Overflows src start stop)
    (h : Within src start stop i j) :
    Within src start stop (trimRange src i j).1 (trimRange src i j).2 := by
  obtain ⟨front, back, heq, hlen, hfront, hback⟩ := trimRange_spec h.le h.bound.le
  have hle := h.le
  have hstop := h.le_stop
  rw [heq]
  refine ⟨h.site.skip haligned hno front (by omega) hfront, ?_, (Nat.sub_le j back).trans hstop, ?_⟩
  · dsimp only
    omega
  · dsimp only
    rcases Nat.eq_zero_or_pos back with hzero | hpos
    · rw [hzero]
      exact h.bound
    · -- The last byte that was taken off is whitespace.
      obtain ⟨c, hc, hws⟩ := hback (j - back) le_rfl (by omega)
      exact Bound.of_ascii hc (isWs_lt hws)

/-- **The parts of an inner range lie within the outer one.** -/
theorem Within.split (haligned : Aligned src) (hplain : Plain seps)
    (hno : ¬ Overflows src start stop) (h : Within src start stop i j) :
    (splitTopLevel src i j seps).Returns ∧ ∀ parts, splitTopLevel src i j seps = .ok parts →
      ∀ part ∈ parts, Within src start stop part.1 part.2 := by
  have hret := splitTopLevel_returns_iff haligned hplain h.site.bound h.bound h.le
  have hok := (splitTopLevel_spec haligned hplain h.site.bound h.bound h.le).2
  refine ⟨hret.mpr (h.not_overflows hno), fun parts hparts => ?_⟩
  obtain ⟨cuts, last, rfl, hlast, hcuts⟩ := hok parts hparts
  rw [List.forall_mem_append, List.forall_mem_singleton]
  exact ⟨fun part hpart => Within.nested hno h (hcuts part hpart).within,
    hlast.nested hno h, hlast.le, h.le_stop, h.bound⟩

/-- A separator that is found has an inner range on either side. -/
theorem Within.find (haligned : Aligned src) (hplain : Plain seps)
    (hno : ¬ Overflows src start stop) (h : Within src start stop i j) :
    (findTopLevel src i j seps).Returns ∧ ∀ p, findTopLevel src i j seps = .ok (some p) →
      Within src start stop i p ∧ Within src start stop (p + 1) j := by
  have hret := splitTopLevel_returns_iff haligned hplain h.site.bound h.bound h.le
  have hok := (splitTopLevel_spec haligned hplain h.site.bound h.bound h.le).2
  rw [findTopLevel, Reading.returns_bind]
  refine ⟨⟨hret.mpr (h.not_overflows hno), fun parts _ => ?_⟩, fun p hp => ?_⟩
  · split <;> trivial
  · obtain ⟨parts, hparts, hfound⟩ := Reading.bind_eq_ok.mp hp
    obtain ⟨cuts, last, rfl, hlast, hcuts⟩ := hok parts hparts
    cases cuts with
    | nil => cases hfound
    | cons first cuts =>
      have hfirst := hcuts first List.mem_cons_self
      have hpath : i ≤ first.1 := by
        obtain ⟨n, hn⟩ := hfirst.within.site.counted
        exact hn.path.le
      -- The separator that is found is where the first piece ends.
      have hp : p = first.2 := by
        cases cuts with
        | nil => cases hfound; rfl
        | cons second cuts => cases hfound; rfl
      rw [hp]
      exact ⟨⟨h.site, hpath.trans hfirst.within.le, hfirst.within.le_stop.trans h.le_stop,
        hfirst.within.bound⟩, hfirst.next.nested hno h, hfirst.next.le, h.le_stop, h.bound⟩

end Within

end Codegen

end RocketSocket
