import RocketSocket.Codegen.Split
import RocketSocket.Codegen.Strip
import RocketSocket.Lib.Fuel

/-!
# The scanners on nested text

A text is nested if its strings are closed, its brackets match and its separators stand inside
brackets.  Every scanner reads past such a text as a whole: the splitter comes out with the
counters it went in with, and `balanced` with the depth.

## Main definitions

* `At` — a text stands at an offset.
* `Nested` — a text with matching brackets, and no separator outside of them.
* `Pieces`, `ranges` — nested texts with separators between them, and where they stand.

## Main results

* `splitTopLevel_pieces` — the splitter splits at the separators.
* `balanced_nested` — the delimiter that closes a nested text is found.
* `trimRange_spaces` — whitespace around a text is trimmed.
-/

namespace RocketSocket

namespace Codegen

open Machine Utf8

/-! ### Where a text stands -/

/-- A text stands at an offset. -/
def At (src t : Text) (i : ℕ) : Prop := ∃ front back, src = front ++ t ++ back ∧ front.length = i

section At

variable {src t u : Text} {i k : ℕ} {b : UInt8}

theorem At.left (h : At src (t ++ u) i) : At src t i := by
  obtain ⟨front, back, rfl, rfl⟩ := h
  exact ⟨front, u ++ back, by simp only [List.append_assoc], rfl⟩

theorem At.right (h : At src (t ++ u) i) : At src u (i + t.length) := by
  obtain ⟨front, back, rfl, rfl⟩ := h
  exact ⟨front ++ t, back, by simp only [List.append_assoc], List.length_append⟩

theorem At.tail (h : At src (b :: t) i) : At src t (i + 1) := At.right (t := [b]) h

theorem At.le (h : At src t i) : i + t.length ≤ src.length := by
  obtain ⟨front, back, rfl, rfl⟩ := h
  simp only [List.length_append]
  omega

theorem At.take (h : At src t i) : (src.drop i).take t.length = t := by
  obtain ⟨front, back, rfl, rfl⟩ := h
  rw [List.append_assoc, List.drop_left, List.take_left]

theorem At.getElem (h : At src t i) (hk : k < t.length) : src[i + k]? = t[k]? := by
  rw [← List.getElem?_drop, ← List.getElem?_take_of_lt hk, h.take]

theorem At.head (h : At src (b :: t) i) : src[i]? = some b :=
  h.getElem (k := 0) (Nat.succ_pos _)

/-- The slice of the range of a text is the text. -/
theorem At.slice (h : At src t i) (hstart : Bound src i) (hstop : Bound src (i + t.length)) :
    slice src i (i + t.length) = .ok t := by
  rw [slice_eq hstart hstop (Nat.le_add_right i _), Nat.add_sub_cancel_left, h.take]

end At

/-! ### Strings -/

/-- A string without an escape ends at its quote. -/
theorem skipLoop_plain {src t : Text} {quote : UInt8} {i : ℕ} (h : At src (t ++ [quote]) i)
    (hquote : quote ∉ t) (hescape : backslash ∉ t) (hne : quote ≠ backslash) {fuel : ℕ}
    (hfuel : t.length < fuel) : skipLoop src quote fuel i = i + t.length + 1 := by
  obtain ⟨front, back, rfl, rfl⟩ := h
  obtain ⟨n, rfl⟩ : ∃ n, fuel = t.length + (n + 1) := ⟨fuel - t.length - 1, by omega⟩
  have hdrop : (front ++ (t ++ [quote]) ++ back).drop front.length = t ++ quote :: back := by simp
  have hplain : ∀ b ∈ t, b ≠ backslash ∧ b ≠ quote := by
    intro b hb
    exact ⟨fun heq => hescape (heq ▸ hb), fun heq => hquote (heq ▸ hb)⟩
  rw [skipLoop_bytes hdrop hplain, skipLoop, getElem_of_drop (drop_add hdrop)]
  simp only [if_neg hne, if_true]

theorem after_plain {src t : Text} {quote : UInt8} {i : ℕ}
    (h : At src (quote :: (t ++ [quote])) i) (hisQuote : isQuote quote = true)
    (hquote : quote ∉ t) (hescape : backslash ∉ t) : after src i quote = i + t.length + 2 := by
  have hlen := h.le
  have hne : quote ≠ backslash := by
    rcases isQuote_cases hisQuote with rfl | rfl | rfl <;> decide
  simp only [List.length_cons, List.length_append, List.length_nil] at hlen
  rw [after, if_pos hisQuote, skipLoop_plain h.tail hquote hescape hne (by omega)]
  omega

/-! ### Nested text -/

/-- A byte that is code, and no scanner does anything about. -/
def isCode (b : UInt8) : Bool :=
  !isQuote b && !isOpener b && !isCloser b && b != less && b != greater && b != slash

/-- Two delimiters that match. -/
def Matching (opens closes : UInt8) : Prop :=
  (opens = braceOpen ∧ closes = braceClose) ∨ (opens = bracketOpen ∧ closes = bracketClose)

/-- A text of code, strings and groups, at most `k` deep, that has none of the separators outside
of its groups. -/
inductive Nested : List UInt8 → ℕ → Text → Prop
  | nil {seps : List UInt8} {k : ℕ} : Nested seps k []
  | code {seps : List UInt8} {k : ℕ} {b : UInt8} {t : Text} : isCode b = true → b ∉ seps →
      Nested seps k t → Nested seps k (b :: t)
  | string {seps : List UInt8} {k : ℕ} {quote : UInt8} {s t : Text} : isQuote quote = true →
      quote ∉ s → backslash ∉ s → Nested seps k t →
      Nested seps k (quote :: (s ++ [quote]) ++ t)
  | group {seps : List UInt8} {k : ℕ} {opens closes : UInt8} {inner t : Text} :
      Matching opens closes → Nested [] k inner → Nested seps (k + 1) t →
      Nested seps (k + 1) (opens :: (inner ++ [closes]) ++ t)

section Nested

variable {seps seps' : List UInt8} {k k' : ℕ} {t u : Text} {b : UInt8}

theorem isCode_cases (h : isCode b = true) : isQuote b = false ∧ isOpener b = false ∧
    isCloser b = false ∧ b ≠ less ∧ b ≠ greater ∧ b ≠ slash := by
  simpa [isCode, and_assoc] using h

theorem Nested.append (h : Nested seps k t) (h' : Nested seps k u) : Nested seps k (t ++ u) := by
  induction h with
  | nil => exact h'
  | code hcode hsep _ ih => exact .code hcode hsep (ih h')
  | string hquote hs hescape _ ih =>
    rw [List.append_assoc]
    exact .string hquote hs hescape (ih h')
  | group hmatch hinner _ _ ih =>
    rw [List.append_assoc]
    exact .group hmatch hinner (ih h')

/-- A text is still nested if it may be deeper and has to avoid less. -/
theorem Nested.mono (h : Nested seps k t) (hk : k ≤ k') (hseps : seps' ⊆ seps) :
    Nested seps' k' t := by
  induction h generalizing seps' k' with
  | nil => exact .nil
  | code hcode hsep _ ih => exact .code hcode (fun hmem => hsep (hseps hmem)) (ih hk hseps)
  | string hquote hs hescape _ ih => exact .string hquote hs hescape (ih hk hseps)
  | group hmatch _ _ ihinner ih =>
    obtain ⟨k', rfl⟩ : ∃ l, k' = l + 1 := ⟨k' - 1, by omega⟩
    exact .group hmatch (ihinner (by omega) (List.Subset.refl [])) (ih hk hseps)

theorem Nested.of_code (h : ∀ b ∈ t, isCode b = true ∧ b ∉ seps) : Nested seps k t := by
  induction t with
  | nil => exact .nil
  | cons b t ih =>
    obtain ⟨hb, ht⟩ := List.forall_mem_cons.mp h
    exact .code hb.1 hb.2 (ih ht)

end Nested

/-! ### The splitter -/

/-- A state of the splitter that is `n` bytes further and `d` brackets deeper, and has the same
parts. -/
structure Split.Moved (s s' : Split) (n : ℕ) (d : ℤ) : Prop where
  i : s'.i = s.i + n
  start : s'.start = s.start
  parts : s'.parts = s.parts
  depth : s'.depth = s.depth + d
  angle : s'.angle = s.angle

theorem Split.Moved.trans {s s' s'' : Split} {n m : ℕ} {d e : ℤ} (h : s.Moved s' n d)
    (h' : s'.Moved s'' m e) : s.Moved s'' (n + m) (d + e) :=
  ⟨by rw [h'.i, h.i, Nat.add_assoc], h'.start.trans h.start, h'.parts.trans h.parts,
    by rw [h'.depth, h.depth, Int.add_assoc], h'.angle.trans h.angle⟩

section Splitter

variable {src t : Text} {start stop k : ℕ} {seps avoided : List UInt8} {s : Split} {c : UInt8}

/-- The splitter with all its fuel goes on from the second state. -/
abbrev SplitLeads (src : Text) (start stop : ℕ) (seps : List UInt8) : Split → Split → Prop :=
  Leads (splitLoop src start stop seps) Split.i src.length

/-- A byte, or the string that it begins, that does not cut. -/
theorem splitLeads_byte (hplain : Plain seps) {n : Nesting} {m : ℕ} {d : ℤ} (hi : s.i < stop)
    (hc : src[s.i]? = some c) (h : s.nesting.read c = some n) (hn : 0 ≤ s.depth + d)
    (hafter : after src s.i c = s.i + m) (hdepth : n.depth = s.depth + d)
    (hangle : n.angle = s.angle) (hcut : ¬ s.Cuts seps c) :
    ∃ s', SplitLeads src start stop seps s s' ∧ s.Moved s' m d := by
  rw [← hdepth] at hn
  exact ⟨s.past src seps c n, Leads.step (splitLoop_read hplain hi hc h hn)
    (lt_length_of_getElem hc).le (lt_after hc), hafter, Split.start_past_of_not hcut,
    Split.parts_past_of_not hcut, hdepth, hangle⟩

theorem Nesting.read_code {n : Nesting} (h : isCode c = true) :
    n.read c = some { n with prev := if isWs c then n.prev else c } := by
  obtain ⟨hquote, hopener, hcloser, hless, hgreater, -⟩ := isCode_cases h
  have hbump : n.bump c = some n := by
    simp [Nesting.bump, hopener, hcloser, hless, hgreater]
  rw [Nesting.read, hquote, if_neg Bool.false_ne_true, hbump]
  rfl

theorem splitLeads_code (hplain : Plain seps) (hi : s.i < stop) (hc : src[s.i]? = some c)
    (hcode : isCode c = true) (hdepth : 0 ≤ s.depth) (hcut : ¬ s.Cuts seps c) :
    ∃ s', SplitLeads src start stop seps s s' ∧ s.Moved s' 1 0 := by
  exact splitLeads_byte hplain hi hc (Nesting.read_code hcode) (by omega)
    (after_byte (isCode_cases hcode).1) (Int.add_zero _).symm rfl hcut

theorem splitLeads_string (hplain : Plain seps) (hat : At src (c :: (t ++ [c])) s.i)
    (hi : s.i < stop) (hquote : isQuote c = true) (ht : c ∉ t) (hescape : backslash ∉ t)
    (hdepth : 0 ≤ s.depth) :
    ∃ s', SplitLeads src start stop seps s s' ∧ s.Moved s' (c :: (t ++ [c])).length 0 := by
  have hread : s.nesting.read c = some { s.nesting with prev := singleQuote } := if_pos hquote
  have hcut : ¬ s.Cuts seps c := fun hall => by
    rw [(hplain c hall.2.2).2.1] at hquote
    cases hquote
  refine splitLeads_byte hplain hi hat.head hread (by omega) ?_ (Int.add_zero _).symm rfl hcut
  rw [after_plain hat hquote ht hescape, List.length_cons, List.length_append,
    List.length_singleton]
  omega

theorem opener_facts (h : isOpener c = true) : isQuote c = false ∧ isWs c = false := by
  have hcases : c = 123 ∨ c = 91 ∨ c = 40 := by simpa [isOpener, or_assoc] using h
  rcases hcases with rfl | rfl | rfl <;> exact ⟨rfl, rfl⟩

theorem closer_facts (h : isCloser c = true) :
    isQuote c = false ∧ isWs c = false ∧ isOpener c = false := by
  have hcases : c = 125 ∨ c = 93 ∨ c = 41 := by simpa [isCloser, or_assoc] using h
  rcases hcases with rfl | rfl | rfl <;> exact ⟨rfl, rfl, rfl⟩

theorem splitLeads_open (hplain : Plain seps) (hi : s.i < stop) (hc : src[s.i]? = some c)
    (hopener : isOpener c = true) (hdepth : 0 ≤ s.depth) (hfull : s.depth < maxI32) :
    ∃ s', SplitLeads src start stop seps s s' ∧ s.Moved s' 1 1 := by
  obtain ⟨hquote, hws⟩ := opener_facts hopener
  have hread : s.nesting.read c = some { s.nesting with depth := s.depth + 1, prev := c } := by
    rw [Nesting.read, hquote, if_neg Bool.false_ne_true, Nesting.bump, if_pos hopener,
      Split.nesting_depth, if_neg hfull.ne, hws]
    rfl
  have hcut : ¬ s.Cuts seps c := fun hall => by
    rw [(hplain c hall.2.2).2.2.1] at hopener
    cases hopener
  exact splitLeads_byte hplain hi hc hread (by omega) (after_byte hquote) rfl rfl hcut

theorem splitLeads_close (hplain : Plain seps) (hi : s.i < stop) (hc : src[s.i]? = some c)
    (hcloser : isCloser c = true) (hdepth : 1 ≤ s.depth) :
    ∃ s', SplitLeads src start stop seps s s' ∧ s.Moved s' 1 (-1) := by
  obtain ⟨hquote, hws, hopener⟩ := closer_facts hcloser
  have hread : s.nesting.read c = some { s.nesting with depth := s.depth - 1, prev := c } := by
    rw [Nesting.read, hquote, if_neg Bool.false_ne_true, Nesting.bump, hopener,
      if_neg Bool.false_ne_true, if_pos hcloser, hws]
    rfl
  have hcut : ¬ s.Cuts seps c := fun hall => by
    rw [(hplain c hall.2.2).2.2.2.1] at hcloser
    cases hcloser
  exact splitLeads_byte hplain hi hc hread (by omega) (after_byte hquote) rfl rfl hcut

/-- **The splitter reads past a nested text.** -/
theorem Nested.splitLeads (hplain : Plain seps) (h : Nested avoided k t) (hat : At src t s.i)
    (hstop : s.i + t.length ≤ stop) (hdepth : 0 ≤ s.depth) (hfull : s.depth + k ≤ maxI32)
    (havoid : ∀ c ∈ seps, s.depth ≠ 0 ∨ c ∈ avoided) :
    ∃ s', SplitLeads src start stop seps s s' ∧ s.Moved s' t.length 0 := by
  induction h generalizing s with
  | nil => exact ⟨s, Leads.refl s, rfl, rfl, rfl, (Int.add_zero _).symm, rfl⟩
  | @code avoided k b t hcode hsep _ ih =>
    rw [List.length_cons] at hstop
    have hcut : ¬ s.Cuts seps b := fun hall =>
      (havoid b hall.2.2).elim (fun hne => hne hall.1) hsep
    obtain ⟨s', hleads, hmoved⟩ : ∃ s', SplitLeads src start stop seps s s' ∧ s.Moved s' 1 0 :=
      splitLeads_code hplain (by omega) hat.head hcode hdepth hcut
    have hsame : s'.depth = s.depth := by rw [hmoved.depth, Int.add_zero]
    obtain ⟨s'', hleads', hmoved'⟩ := ih (by rw [hmoved.i]; exact hat.tail)
      (by rw [hmoved.i]; omega) (by rwa [hsame]) (by rwa [hsame]) (by rwa [hsame])
    refine ⟨s'', hleads.trans hleads', ?_⟩
    rw [List.length_cons, Nat.add_comm]
    exact hmoved.trans hmoved'
  | @string avoided k quote u t hquote hu hescape _ ih =>
    rw [List.length_append] at hstop
    have hpos : 0 < (quote :: (u ++ [quote])).length := Nat.succ_pos _
    obtain ⟨s', hleads, hmoved⟩ : ∃ s', SplitLeads src start stop seps s s' ∧
        s.Moved s' (quote :: (u ++ [quote])).length 0 :=
      splitLeads_string hplain hat.left (by omega) hquote hu hescape hdepth
    have hsame : s'.depth = s.depth := by rw [hmoved.depth, Int.add_zero]
    obtain ⟨s'', hleads', hmoved'⟩ := ih (by rw [hmoved.i]; exact hat.right)
      (by rw [hmoved.i]; omega) (by rwa [hsame]) (by rwa [hsame]) (by rwa [hsame])
    refine ⟨s'', hleads.trans hleads', ?_⟩
    rw [List.length_append]
    exact hmoved.trans hmoved'
  | @group avoided k opens closes inner t hmatch _ _ ihinner ih =>
    have hdelims : isOpener opens = true ∧ isCloser closes = true := by
      rcases hmatch with ⟨rfl, rfl⟩ | ⟨rfl, rfl⟩ <;> exact ⟨rfl, rfl⟩
    simp only [List.length_append, List.length_cons, List.length_nil] at hstop
    push_cast at hfull
    -- Inside the group the depth is not zero, so that no separator cuts there.
    obtain ⟨s₁, hleads₁, hmoved₁⟩ : ∃ s', SplitLeads src start stop seps s s' ∧ s.Moved s' 1 1 :=
      splitLeads_open hplain (by omega) hat.head hdelims.1 hdepth (by omega)
    have hi₁ := hmoved₁.i
    have hd₁ := hmoved₁.depth
    have hat₁ : At src (inner ++ ([closes] ++ t)) s₁.i := by
      rw [hi₁, ← List.append_assoc]
      exact hat.tail
    obtain ⟨s₂, hleads₂, hmoved₂⟩ := ihinner (s := s₁) hat₁.left (by omega) (by omega)
      (by omega) (fun c _ => .inl (by omega))
    have hi₂ := hmoved₂.i
    have hd₂ := hmoved₂.depth
    have hat₂ : At src ([closes] ++ t) s₂.i := by
      rw [hi₂]
      exact hat₁.right
    obtain ⟨s₃, hleads₃, hmoved₃⟩ : ∃ s', SplitLeads src start stop seps s₂ s' ∧
        s₂.Moved s' 1 (-1) :=
      splitLeads_close hplain (by omega) hat₂.left.head hdelims.2 (by omega)
    have hi₃ := hmoved₃.i
    have hd₃ := hmoved₃.depth
    -- Behind it the depth is what it was before.
    have hsame : s₃.depth = s.depth := by omega
    obtain ⟨s₄, hleads₄, hmoved₄⟩ := ih (s := s₃) (by rw [hi₃]; exact hat₂.right) (by omega)
      (by omega) (by push_cast; omega) (by rwa [hsame])
    refine ⟨s₄, hleads₁.trans (hleads₂.trans (hleads₃.trans hleads₄)), ?_⟩
    have hmoved := hmoved₁.trans (hmoved₂.trans (hmoved₃.trans hmoved₄))
    refine ⟨hmoved.i.trans ?_, hmoved.start, hmoved.parts, hmoved.depth, hmoved.angle⟩
    simp only [List.length_append, List.length_cons, List.length_nil]
    omega

end Splitter

/-! ### Pieces -/

/-- Nested texts with separators between them. -/
inductive Pieces (seps : List UInt8) (k : ℕ) : Text → List Text → Prop
  | last {t : Text} : Nested seps k t → Pieces seps k t [t]
  | cons {t rest : Text} {c : UInt8} {ps : List Text} : Nested seps k t → c ∈ seps →
      Pieces seps k rest ps → Pieces seps k (t ++ c :: rest) (t :: ps)

/-- Where pieces stand that have one byte between each two. -/
def ranges : ℕ → List Text → List (ℕ × ℕ)
  | _, [] => []
  | i, p :: ps => (i, i + p.length) :: ranges (i + p.length + 1) ps

/-- Separators that are code and no whitespace. -/
def Separating (seps : List UInt8) : Prop :=
  ∀ c ∈ seps, c < 128 ∧ isCode c = true ∧ isWs c = false

instance (seps : List UInt8) : Decidable (Separating seps) := List.decidableBAll _ seps

theorem Separating.plain {seps : List UInt8} (h : Separating seps) : Plain seps := by
  intro c hc
  obtain ⟨hascii, hcode, -⟩ := h c hc
  obtain ⟨hquote, hopener, hcloser, hless, hgreater, -⟩ := isCode_cases hcode
  exact ⟨hascii, hquote, hopener, hcloser, hless, hgreater⟩

/-- The loop splits at the separators between pieces. -/
theorem splitLoop_pieces {src t : Text} {start k fuel : ℕ} {seps : List UInt8} {ps : List Text}
    (hseps : Separating seps) (h : Pieces seps k t ps) (hk : k ≤ maxI32) {s : Split}
    (hat : At src t s.i) (hstart : s.start = s.i) (hdepth : s.depth = 0) (hangle : s.angle = 0)
    (hfuel : src.length < s.i + fuel) :
    splitLoop src start (s.i + t.length) seps fuel s = .ok (s.parts ++ ranges s.i ps) := by
  have hplain := hseps.plain
  induction h generalizing s fuel with
  | @last t hnested =>
    obtain ⟨s', hleads, hmoved⟩ : ∃ s', SplitLeads src start (s.i + t.length) seps s s' ∧
        s.Moved s' t.length 0 :=
      hnested.splitLeads hplain hat le_rfl hdepth.ge (by omega) (fun c hc => .inr hc)
    refine hleads.eq hfuel fun fuel' hfuel' => ?_
    have hlen := hat.le
    have hi := hmoved.i
    obtain ⟨fuel', rfl⟩ : ∃ l, fuel' = l + 1 := ⟨fuel' - 1, by omega⟩
    have hd := hmoved.depth
    rw [splitLoop, if_neg (by omega), if_neg (by omega), hmoved.parts, hmoved.start, hstart]
    rfl
  | @cons t rest c ps hnested hc _ ih =>
    have hlen := hat.le
    rw [List.length_append, List.length_cons] at hlen ⊢
    obtain ⟨s', hleads, hmoved⟩ : ∃ s',
        SplitLeads src start (s.i + (t.length + (rest.length + 1))) seps s s' ∧
          s.Moved s' t.length 0 :=
      hnested.splitLeads hplain hat.left (by omega) hdepth.ge (by omega) (fun c hc => .inr hc)
    refine hleads.eq hfuel fun fuel' hfuel' => ?_
    have hi := hmoved.i
    have hd := hmoved.depth
    obtain ⟨fuel', rfl⟩ : ∃ l, fuel' = l + 1 := ⟨fuel' - 1, by omega⟩
    have hrest : At src (c :: rest) s'.i := by
      rw [hi]
      exact hat.right
    -- The separator cuts, and the next piece begins behind it.
    have hcuts : s'.Cuts seps c := ⟨by omega, hmoved.angle.trans hangle, hc⟩
    have hcode := (hseps c hc).2.1
    rw [splitLoop_read hplain (by omega) hrest.head (Nesting.read_code hcode)
      (by rw [Split.nesting_depth]; omega)]
    set s₂ := s'.past src seps c
      { s'.nesting with prev := if isWs c then s'.nesting.prev else c } with hs₂
    have hi₂ : s₂.i = s'.i + 1 := after_byte (isCode_cases hcode).1
    have hend : s.i + (t.length + (rest.length + 1)) = s₂.i + rest.length := by omega
    have hloop := ih (s := s₂) (by rw [hi₂]; exact hrest.tail)
      (by rw [hi₂]; exact Split.start_past hcuts) (by omega : s'.depth = 0) hcuts.2.1
      (by omega : src.length < s₂.i + fuel')
    rw [hend, hloop, hs₂, Split.parts_past hcuts, hmoved.parts, hmoved.start, hstart, hi,
      List.append_assoc]
    rw [← hs₂, hi₂, hi]
    rfl

/-- **The splitter splits at the separators.** -/
theorem splitTopLevel_pieces {src t : Text} {i k : ℕ} {seps : List UInt8} {ps : List Text}
    (hseps : Separating seps) (h : Pieces seps k t ps) (hk : k ≤ maxI32) (hat : At src t i) :
    splitTopLevel src i (i + t.length) seps = .ok (ranges i ps) := by
  have hfuel : src.length < i + (src.length + 1) := by omega
  have hloop : splitLoop src i (i + t.length) seps (src.length + 1) { i := i, start := i } =
      .ok ([] ++ ranges i ps) :=
    splitLoop_pieces hseps h hk (s := { i := i, start := i }) hat rfl rfl rfl hfuel
  exact hloop

/-! ### Balanced delimiters -/

/-- A state of `balanced` with all its fuel goes on from the second one. -/
abbrev BalancedLeads (src : Text) (openAt : ℕ) (opens closes : UInt8) : ℕ × ℕ → ℕ × ℕ → Prop :=
  Leads (fun fuel s => balancedLoop src openAt opens closes fuel s.1 s.2) Prod.fst src.length

section Balanced

variable {src t : Text} {openAt i d k : ℕ} {opens closes b : UInt8} {seps : List UInt8}

theorem balancedLeads_other (hb : src[i]? = some b) (hquote : isQuote b = false)
    (hopens : b ≠ opens) (hcloses : b ≠ closes) :
    BalancedLeads src openAt opens closes (i, d) (i + 1, d) := by
  refine Leads.step (fun fuel => ?_) (lt_length_of_getElem hb).le (Nat.lt_succ_self i)
  dsimp only
  rw [balancedLoop, hb]
  simp only [hquote, Bool.false_eq_true, if_false, if_neg hopens, if_neg hcloses]

theorem balancedLeads_open (hb : src[i]? = some opens) (hquote : isQuote opens = false) :
    BalancedLeads src openAt opens closes (i, d) (i + 1, d + 1) := by
  refine Leads.step (fun fuel => ?_) (lt_length_of_getElem hb).le (Nat.lt_succ_self i)
  dsimp only
  rw [balancedLoop, hb]
  simp only [hquote, Bool.false_eq_true, if_false, if_true]

theorem balancedLeads_close (hb : src[i]? = some closes) (hquote : isQuote closes = false)
    (hne : closes ≠ opens) :
    BalancedLeads src openAt opens closes (i, d + 2) (i + 1, d + 1) := by
  refine Leads.step (fun fuel => ?_) (lt_length_of_getElem hb).le (Nat.lt_succ_self i)
  dsimp only
  rw [balancedLoop, hb]
  simp only [hquote, Bool.false_eq_true, if_false, if_neg hne, if_true]
  rw [if_neg (by omega), if_neg (by omega)]
  rfl

theorem balancedLeads_string (hat : At src (b :: (t ++ [b])) i) (hquote : isQuote b = true)
    (ht : b ∉ t) (hescape : backslash ∉ t) :
    BalancedLeads src openAt opens closes (i, d)
      (i + (b :: (t ++ [b])).length, d) := by
  have hlen := hat.le
  have hafter := after_plain hat hquote ht hescape
  rw [List.length_cons, List.length_append, List.length_singleton] at hlen ⊢
  refine Leads.step (fun fuel => ?_) (by dsimp only; omega) (by dsimp only; omega)
  dsimp only
  rw [balancedLoop, hat.head]
  simp only [hquote, if_true, skipString_eq hat.head hquote, Reading.ok_bind, hafter]
  congr 1

theorem Matching.facts (h : Matching opens closes) : isQuote opens = false ∧
    isQuote closes = false ∧ closes ≠ opens := by
  rcases h with ⟨rfl, rfl⟩ | ⟨rfl, rfl⟩ <;> exact ⟨rfl, rfl, by decide⟩

/-- `balanced` reads past a nested text. -/
theorem Nested.balancedLeads (hmatch : Matching opens closes) (h : Nested seps k t)
    (hat : At src t i) :
    BalancedLeads src openAt opens closes (i, d + 1) (i + t.length, d + 1) := by
  obtain ⟨hopens, hcloses, hne⟩ := hmatch.facts
  induction h generalizing i d with
  | nil => exact Leads.refl _
  | @code seps k b t hcode _ _ ih =>
    obtain ⟨hquote, hopener, hcloser, -⟩ := isCode_cases hcode
    have hother : b ≠ opens ∧ b ≠ closes := by
      constructor
      · rintro rfl
        rcases hmatch with ⟨rfl, rfl⟩ | ⟨rfl, rfl⟩ <;> cases hopener
      · rintro rfl
        rcases hmatch with ⟨rfl, rfl⟩ | ⟨rfl, rfl⟩ <;> cases hcloser
    have hrest := ih (d := d) hat.tail
    rw [List.length_cons, Nat.add_comm t.length, ← Nat.add_assoc]
    exact (balancedLeads_other hat.head hquote hother.1 hother.2).trans hrest
  | @string seps k quote s t hquote hs hescape _ ih =>
    have hrest := ih (d := d) hat.right
    rw [List.length_append, ← Nat.add_assoc]
    exact (balancedLeads_string hat.left hquote hs hescape).trans hrest
  | @group seps k opens' closes' inner t hmatch' _ _ ihinner ih =>
    obtain ⟨hopens', hcloses', hne'⟩ := hmatch'.facts
    have hat' : At src (inner ++ ([closes'] ++ t)) (i + 1) := by
      rw [← List.append_assoc]
      exact hat.tail
    have hclose := hat'.right.left.head
    have hlen : i + (opens' :: (inner ++ [closes']) ++ t).length =
        i + 1 + inner.length + 1 + t.length := by
      simp only [List.length_append, List.length_cons, List.length_nil]
      omega
    have hrest := ih (d := d) hat'.right.right
    rw [hlen]
    by_cases heq : opens' = opens
    · -- The group is one of the delimiters that are counted.
      have heq' : closes' = closes := by
        subst heq
        rcases hmatch with ⟨rfl, rfl⟩ | ⟨rfl, rfl⟩ <;>
          rcases hmatch' with ⟨h, rfl⟩ | ⟨h, rfl⟩ <;> first | rfl | exact absurd h (by decide)
      subst heq heq'
      have hinner := ihinner (d := d + 1) hat'.left
      exact (balancedLeads_open hat.head hopens').trans
        (hinner.trans ((balancedLeads_close hclose hcloses' hne').trans hrest))
    · have hother : opens' ≠ closes ∧ closes' ≠ opens ∧ closes' ≠ closes := by
        rcases hmatch with ⟨rfl, rfl⟩ | ⟨rfl, rfl⟩ <;>
          rcases hmatch' with ⟨rfl, rfl⟩ | ⟨rfl, rfl⟩ <;>
          first | exact absurd rfl heq | decide
      have hinner := ihinner (d := d) hat'.left
      exact (balancedLeads_other hat.head hopens' heq hother.1).trans
        (hinner.trans ((balancedLeads_other hclose hcloses' hother.2.1 hother.2.2).trans hrest))

/-- **The delimiter that closes a nested text is found.** -/
theorem balanced_nested (hmatch : Matching opens closes) (h : Nested seps k t)
    (hat : At src (opens :: (t ++ [closes])) i) :
    balanced src i opens closes = .ok (i + 1 + t.length) := by
  obtain ⟨hopens, hcloses, hne⟩ := hmatch.facts
  have hleads : BalancedLeads src i opens closes (i, 0) (i + 1 + t.length, 1) :=
    (balancedLeads_open hat.head hopens).trans
      (h.balancedLeads (d := 0) hmatch hat.tail.left)
  have hclose := hat.tail.right.head
  rw [balanced, byteAt, hat.head]
  simp only [Reading.ok_bind, ne_eq, not_true_eq_false, if_false]
  refine Leads.eq (s := (i, 0)) hleads (by dsimp only; omega) fun fuel hfuel => ?_
  have hlt := lt_length_of_getElem hclose
  obtain ⟨fuel, rfl⟩ : ∃ l, fuel = l + 1 := ⟨fuel - 1, by dsimp only at hfuel; omega⟩
  dsimp only
  rw [balancedLoop, hclose]
  simp only [hcloses, Bool.false_eq_true, if_false, if_neg hne, if_true]
  rfl

end Balanced

/-! ### Whitespace -/

/-- Whitespace between tokens. -/
def Spaces (w : Text) : Prop := ∀ b ∈ w, isWs b = true

/-- A text with no whitespace at its ends, and not empty. -/
structure Solid (t : Text) : Prop where
  first : ∃ b rest, t = b :: rest ∧ isWs b = false
  last : ∃ front b, t = front ++ [b] ∧ isWs b = false

section Spaces

variable {src t w w' : Text} {i : ℕ} {b : UInt8}

theorem takeWhile_spaces (hw : Spaces w) (hb : isWs b = false) :
    (w ++ b :: t).takeWhile isWs = w := by
  rw [List.takeWhile_append_of_pos hw, List.takeWhile_cons_of_neg (by rw [hb]; decide),
    List.append_nil]

/-- Whitespace around a text is trimmed. -/
theorem trimRange_spaces (hat : At src (w ++ t ++ w') i) (hw : Spaces w) (hw' : Spaces w')
    (ht : Solid t) : trimRange src i (i + (w ++ t ++ w').length) =
      (i + w.length, i + w.length + t.length) := by
  obtain ⟨b, rest, hfirst, hb⟩ := ht.first
  obtain ⟨front, c, hlast, hc⟩ := ht.last
  have hfront : (w ++ t ++ w').takeWhile isWs = w := by
    rw [hfirst, List.append_assoc, List.cons_append, takeWhile_spaces hw hb]
  have hback : ((w ++ t ++ w').drop w.length).reverse.takeWhile isWs = w'.reverse := by
    rw [List.append_assoc, List.drop_left, hlast, List.reverse_append, List.reverse_append,
      List.reverse_singleton, List.singleton_append]
    exact takeWhile_spaces (fun b hb => hw' b (List.mem_reverse.mp hb)) hc
  rw [trimRange, Nat.add_sub_cancel_left, hat.take, hfront, hback, List.length_reverse,
    List.length_append, List.length_append]
  congr 1
  omega

/-- Nothing but whitespace is trimmed to nothing. -/
theorem trimRange_blank (hat : At src w i) (hw : Spaces w) :
    trimRange src i (i + w.length) = (i + w.length, i + w.length) := by
  have hall : w.takeWhile isWs = w := List.takeWhile_eq_self_iff.mpr hw
  rw [trimRange, Nat.add_sub_cancel_left, hat.take, hall, List.drop_length]
  rfl

theorem skipWs_spaces (hat : At src (w ++ b :: t) i) (hw : Spaces w) (hb : isWs b = false) :
    skipWs src i = i + w.length := by
  obtain ⟨front, back, rfl, rfl⟩ := hat
  rw [skipWs, List.append_assoc, List.drop_left, List.append_assoc, List.cons_append,
    takeWhile_spaces hw hb]

end Spaces

end Codegen

end RocketSocket
