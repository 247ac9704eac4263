import RocketSocket.Codegen.Keys

/-!
# The texts of a catalog

What `parse` hands on is cut out of its source, so it is the encoding of characters again, and
has a carriage return only where the source has one.  The types of the arguments have none at
all: their whitespace is collapsed.

## Main definitions

* `Encoded`, `Proper` — encoded characters, and those without a carriage return.
* `Hereditary` — a property of a text that its parts share, as these two are.
* `Catalog.Proper` — the texts of a catalog are.
* `Reading.Yields` — what a call returns, if it returns.

## Main results

* `hereditary_encoded`, `hereditary_proper` — a part of a text is encoded, or proper, as it is.
* `Encoded.normalise` — a text whose whitespace is collapsed is proper.
* `parse_encoded`, `parse_proper` — **so are all the texts of a catalog**.
-/

namespace RocketSocket

namespace Codegen

open Machine Utf8

/-! ### Proper texts -/

/-- Encoded characters. -/
def Encoded (t : Text) : Prop := ∃ chars, t = encode chars

/-- Encoded characters, none of them a carriage return. -/
structure Proper (t : Text) : Prop where
  encoded : Encoded t
  plain : carriageReturn ∉ t

/-- A property of encoded characters that the parts of a text share with it. -/
structure Hereditary (T : Text → Prop) : Prop where
  encoded : ∀ {t}, T t → Encoded t
  slice : ∀ {src t start stop}, T src → slice src start stop = .ok t → T t
  /-- The parts beside a byte below 128. -/
  around : ∀ {front back b}, T (front ++ b :: back) → b < 128 → T front ∧ T back

section Proper

variable {T : Text → Prop} {src t front back : Text} {b : UInt8} {start stop : ℕ}

theorem Encoded.slice (h : Encoded src) (hslice : slice src start stop = .ok t) : Encoded t := by
  obtain ⟨chars, rfl⟩ := h
  rw [Codegen.slice] at hslice
  split at hslice
  · next hbounds =>
    obtain ⟨hle, hlen, hstart, hstop⟩ := hbounds
    cases hslice
    exact exists_encode_between hle hlen hstart hstop
  · cases hslice

theorem Encoded.around (h : Encoded (front ++ b :: back)) (hb : b < 128) :
    Encoded front ∧ Encoded back := by
  obtain ⟨chars, heq⟩ := h
  obtain ⟨c, hc⟩ := exists_encodeChar hb
  obtain ⟨left, right, -, hleft, hright⟩ := exists_encode_ascii heq.symm hc hb
  exact ⟨⟨left, hleft⟩, ⟨right, hright⟩⟩

/-- A part of a text has no byte that the text has not. -/
theorem mem_of_slice {c : UInt8} (hslice : slice src start stop = .ok t) (hc : c ∈ t) :
    c ∈ src := by
  rw [Codegen.slice] at hslice
  split at hslice
  · cases hslice
    exact List.mem_of_mem_drop (List.mem_of_mem_take hc)
  · cases hslice

theorem hereditary_proper : Hereditary Proper where
  encoded h := h.encoded
  slice h hslice := ⟨h.encoded.slice hslice, fun hmem => h.plain (mem_of_slice hslice hmem)⟩
  around := by
    intro front back b h hb
    obtain ⟨hfront, hback⟩ := h.encoded.around hb
    have hplain := h.plain
    rw [List.mem_append, List.mem_cons, not_or, not_or] at hplain
    exact ⟨⟨hfront, hplain.1⟩, ⟨hback, hplain.2.2⟩⟩

/-- What is between two quotes. -/
theorem Hereditary.enclosed (hT : Hereditary T) (h : T (b :: (t ++ [b]))) (hb : b < 128) :
    T t := by
  rw [← List.nil_append (b :: (t ++ [b]))] at h
  exact (hT.around (hT.around h hb).2 hb).1

theorem Proper.nil : Proper [] := ⟨⟨[], rfl⟩, List.not_mem_nil⟩

theorem Proper.append (h : Proper front) (h' : Proper back) : Proper (front ++ back) := by
  obtain ⟨chars, rfl⟩ := h.encoded
  obtain ⟨chars', rfl⟩ := h'.encoded
  refine ⟨⟨chars ++ chars', (encode_append chars chars').symm⟩, ?_⟩
  rw [List.mem_append, not_or]
  exact ⟨h.plain, h'.plain⟩

theorem Proper.singleton (hb : b < 128) (hne : b ≠ carriageReturn) : Proper [b] := by
  obtain ⟨c, hc⟩ := exists_encodeChar hb
  refine ⟨⟨[c], ?_⟩, List.mem_singleton.not.mpr hne.symm⟩
  rw [← hc]
  exact (List.flatMap_singleton _ _).symm

/-- A run of bytes that are no whitespace is taken over as it is. -/
theorem normaliseLoop_solid {run rest out : Text} {space : Bool} (hne : run ≠ [])
    (hrun : ∀ b ∈ run, isWs b = false) :
    normaliseLoop space out (run ++ rest) =
      normaliseLoop false ((if space then out ++ [32] else out) ++ run) rest := by
  induction run generalizing space out with
  | nil => exact absurd rfl hne
  | cons b run ih =>
    have hb : isWs b = false := hrun b List.mem_cons_self
    have hout : (if space then out ++ [32, b] else out ++ [b]) =
        (if space then out ++ [32] else out) ++ [b] := by
      cases space
      · rfl
      · exact (List.append_assoc out [32] [b]).symm
    rw [List.cons_append, normaliseLoop, hb, if_neg Bool.false_ne_true, hout]
    cases hrun' : run with
    | nil => rfl
    | cons c run' =>
      rw [← hrun', ih (by rw [hrun']; exact List.cons_ne_nil _ _)
        fun d hd => hrun d (List.mem_cons_of_mem b hd), if_neg Bool.false_ne_true,
        List.append_assoc, List.singleton_append]

theorem isWs_of_not_ascii (h : ¬ b < 128) : isWs b = false := by
  rw [Bool.eq_false_iff]
  intro hws
  refine h ?_
  simp only [isWs, Bool.or_eq_true, beq_iff_eq] at hws
  rcases hws with (((rfl | rfl) | rfl) | rfl) | rfl <;> decide

theorem Encoded.normaliseLoop {out : Text} (hout : Proper out) (space : Bool) (ht : Encoded t) :
    Proper (normaliseLoop space out t) := by
  obtain ⟨chars, rfl⟩ := ht
  induction chars generalizing out space with
  | nil => exact hout
  | cons c chars ih =>
    have hsolid (hrun : ∀ b ∈ String.utf8EncodeChar c, isWs b = false) :
        Proper (Codegen.normaliseLoop space out (encode (c :: chars))) := by
      -- a carriage return is whitespace
      have hc : Proper (String.utf8EncodeChar c) := by
        refine ⟨⟨[c], (List.flatMap_singleton _ _).symm⟩, fun hmem => ?_⟩
        exact absurd (hrun _ hmem) (by decide)
      rw [encode_cons, normaliseLoop_solid (String.utf8EncodeChar_ne_nil) hrun]
      refine ih (Proper.append ?_ hc) false
      cases space
      · exact hout
      · exact hout.append (.singleton (by decide) (by decide))
    rcases encodeChar_cases c with ⟨b, -, hone⟩ | ⟨b, rest, hb, -, hcont, hmany⟩
    · by_cases hws : isWs b = true
      · rw [encode_cons, hone, List.singleton_append, Codegen.normaliseLoop, if_pos hws]
        exact ih hout _
      · refine hsolid fun d hd => ?_
        rw [hone, List.mem_singleton] at hd
        rw [hd]
        exact Bool.not_eq_true _ ▸ hws
    · refine hsolid fun d hd => isWs_of_not_ascii (UInt8.not_lt.mpr ?_)
      rw [hmany, List.mem_cons] at hd
      rcases hd with rfl | hd
      · exact hb
      · exact (isContinuation_iff.mp (hcont d hd)).1

/-- A text whose whitespace is collapsed has no carriage return. -/
theorem Encoded.normalise (h : Encoded t) : Proper (normalise t) :=
  Encoded.normaliseLoop Proper.nil false h

/-- Comments that are blanked out leave spaces. -/
theorem Lexeme.plain_rewrite {kind : Lexeme} (h : carriageReturn ∉ t) :
    carriageReturn ∉ kind.rewrite t := by
  cases kind with
  | comment =>
    intro hmem
    obtain ⟨b, hb, heq⟩ := List.mem_map.mp hmem
    rw [blank] at heq
    split at heq
    · exact h (heq ▸ hb)
    · cases heq
  | code => exact h
  | string => exact h

theorem stripLoop_plain (haligned : Aligned src) (hsrc : carriageReturn ∉ src) {i fuel : ℕ}
    {out t : Text} (hout : carriageReturn ∉ out) (h : stripLoop src fuel i out = .ok t) :
    carriageReturn ∉ t := by
  induction fuel generalizing i out with
  | zero => cases h
  | succ fuel ih =>
    cases hlex : lexemeAt src i with
    | none =>
      rw [stripLoop, List.getElem?_eq_none (lexemeAt_eq_none.mp hlex)] at h
      cases h
      exact hout
    | some p =>
      obtain ⟨kind, j⟩ := p
      rw [stripLoop_lexeme haligned hlex] at h
      refine ih ?_ h
      rw [List.mem_append, not_or]
      exact ⟨hout, Lexeme.plain_rewrite fun hmem =>
        hsrc (List.mem_of_mem_drop (List.mem_of_mem_take hmem))⟩

theorem Encoded.stripComments (h : Encoded src) (hstrip : stripComments src = .ok t) :
    Encoded t := by
  obtain ⟨chars, rfl⟩ := h
  obtain ⟨chars', hchars', -⟩ := stripComments_spec chars
  rw [hstrip] at hchars'
  cases hchars'
  exact ⟨chars', rfl⟩

theorem Proper.stripComments (h : Proper src) (hstrip : stripComments src = .ok t) :
    Proper t := by
  refine ⟨h.encoded.stripComments hstrip, ?_⟩
  obtain ⟨chars, rfl⟩ := h.encoded
  obtain ⟨out, hout, hok⟩ := Reading.bind_eq_ok.mp hstrip
  have hplain := stripLoop_plain (aligned_encode chars) h.plain List.not_mem_nil hout
  rw [fromUtf8] at hok
  split at hok
  · cases hok
    exact hplain
  · cases hok

end Proper

/-! ### What a call returns -/

section Yields

variable {α β : Type} {x : Reading α} {f : α → Reading β} {P : α → Prop} {Q : β → Prop} {b : β}

/-- What a call returns, if it returns. -/
def Reading.Yields (x : Reading α) (P : α → Prop) : Prop := ∀ a, x = .ok a → P a

theorem Reading.Yields.bind (hx : x.Yields P) (hf : ∀ a, P a → (f a).Yields Q) :
    (x >>= f).Yields Q := by
  intro b hb
  obtain ⟨a, ha, hb⟩ := Reading.bind_eq_ok.mp hb
  exact hf a (hx a ha) b hb

/-- A call whose value is of no matter. -/
theorem Reading.Yields.after (hf : ∀ a, (f a).Yields Q) : (x >>= f).Yields Q :=
  Reading.Yields.bind (P := fun _ => True) (fun _ _ => trivial) fun a _ => hf a

theorem Reading.Yields.pure (hb : Q b) : Reading.Yields (Pure.pure b) Q := by
  rintro _ ⟨⟩
  exact hb

theorem Reading.Yields.ite {c : Prop} [Decidable c] {x y : Reading β} (hx : x.Yields Q)
    (hy : y.Yields Q) : (if c then x else y).Yields Q := by
  split
  · exact hx
  · exact hy

theorem Reading.Yields.err {src message context : Text} {i : ℕ} :
    Reading.Yields (err src i message context) Q := fun _ h => absurd h err_ne_ok

theorem Reading.Yields.errAt {src : Text} {i start stop : ℕ} {message : String} :
    Reading.Yields (errAt src i message start stop) Q := fun _ h => absurd h errAt_ne_ok

end Yields

/-! ### The texts that are read -/

/-- The text of a pattern has a property. -/
def KeyPattern.All (T : Text → Prop) : KeyPattern → Prop
  | literal v | suffixed v | prefixed v => T v
  | any => True

/-- The key of an entry has a property, and the type of its arguments is proper. -/
structure Event.All (T : Text → Prop) (event : Event) : Prop where
  key : event.key.All T
  source : Codegen.Proper event.args.source

/-- The name of a stream and its entries have a property. -/
structure Stream.All (T : Text → Prop) (stream : Stream) : Prop where
  name : T stream.name
  events : ∀ event ∈ stream.events, event.All T

/-- The texts of a catalog have a property. -/
def Catalog.All (T : Text → Prop) (catalog : Catalog) : Prop :=
  ∀ stream ∈ catalog.streams, stream.All T

/-- The text of a pattern is proper. -/
abbrev KeyPattern.Proper (p : KeyPattern) : Prop := p.All Codegen.Proper

/-- The texts of an entry are proper. -/
abbrev Event.Proper (event : Event) : Prop := event.All Codegen.Proper

/-- The texts of a stream are proper. -/
abbrev Stream.Proper (stream : Stream) : Prop := stream.All Codegen.Proper

/-- The texts of a catalog are proper. -/
abbrev Catalog.Proper (catalog : Catalog) : Prop := catalog.All Codegen.Proper

section Parse

variable {T : Text → Prop} {src key : Text} {p : KeyPattern}

theorem Accepted.all (hT : Hereditary T) (h : Accepted key p) (hkey : T key) : p.All T := by
  cases h with
  | literal hquote => exact hT.enclosed hkey (by rcases hquote with rfl | rfl <;> decide)
  | string => trivial
  | hole => trivial
  | suffixed _ => exact (hT.around (hT.enclosed hkey (by decide)) (by decide)).2
  | prefixed _ => exact (hT.around (hT.enclosed hkey (by decide)) (by decide)).1

theorem parseKey_all (hT : Hereditary T) (hsrc : T src) (start stop : ℕ) :
    (parseKey src start stop).Yields (KeyPattern.All T) := by
  intro p hp
  obtain ⟨key, hslice, -⟩ := Reading.bind_eq_ok.mp hp
  exact (parseKey_cases hslice hp).all hT (hT.slice hsrc hslice)

theorem parseArgs_all (hT : Hereditary T) (hsrc : T src) (start stop : ℕ) :
    (parseArgs src start stop).Yields fun args => Proper args.source := by
  refine .after fun parts => .after fun found => .ite .errAt ?_
  exact .bind (P := T) (fun t ht => hT.slice hsrc ht) fun t ht => .pure (hT.encoded ht).normalise

/-- The members found so far have such texts. -/
structure Members.All (T : Text → Prop) (members : Members) : Prop where
  key : ∀ found ∈ members.key, found.1.All T
  args : ∀ args ∈ members.args, Codegen.Proper args.source

theorem parseMembers_all (hT : Hereditary T) (hsrc : T src) (parts : List (ℕ × ℕ))
    {members : Members} (h : members.All T) :
    (parseMembers src parts members).Yields (Members.All T) := by
  induction parts generalizing members with
  | nil => exact .pure h
  | cons part parts ih =>
    rw [parseMembers]
    refine .ite (ih h) (.after fun found => ?_)
    cases found with
    | none => exact .errAt
    | some colonAt =>
      refine .after fun name => .ite (.ite .errAt ?_) (.ite (.ite .errAt ?_) (.after fun _ => .err))
      · refine .bind (parseKey_all hT hsrc _ _) fun key hkey => .after fun keySource => ih ?_
        exact ⟨fun found hfound => Option.some.inj hfound ▸ hkey, h.args⟩
      · refine .bind (parseArgs_all hT hsrc _ _) fun args hargs => ih ?_
        exact ⟨h.key, fun found hfound => Option.some.inj hfound ▸ hargs⟩

theorem parseEntry_all (hT : Hereditary T) (hsrc : T src) (start stop : ℕ) :
    (parseEntry src start stop).Yields (Event.All T) := by
  have hnone : Members.All T {} := ⟨fun _ h => absurd h (by simp), fun _ h => absurd h (by simp)⟩
  refine .after fun parts => .bind (parseMembers_all hT hsrc parts hnone) fun members h => ?_
  cases hkey : members.key with
  | none => exact .errAt
  | some found =>
    cases hargs : members.args with
    | none => exact .errAt
    | some args => exact .pure ⟨h.key found hkey, h.args args hargs⟩

theorem parseObjects_all (hT : Hereditary T) (hsrc : T src) (parts : List (ℕ × ℕ))
    {events : List Event} (h : ∀ event ∈ events, event.All T) :
    (parseObjects src parts events).Yields fun events => ∀ event ∈ events, event.All T := by
  induction parts generalizing events with
  | nil => exact .pure h
  | cons part parts ih =>
    rw [parseObjects]
    refine .ite (ih h) (.after fun object => .ite ?_ .errAt)
    refine .bind (parseEntry_all hT hsrc _ _) fun event hevent => ih ?_
    exact List.forall_mem_append.mpr ⟨h, List.forall_mem_singleton.mpr hevent⟩

theorem parseEntries_all (hT : Hereditary T) (hsrc : T src) (start stop : ℕ) :
    (parseEntries src start stop).Yields fun events => ∀ event ∈ events, event.All T := by
  refine .after fun parts => ?_
  exact .bind (parseObjects_all hT hsrc parts (List.forall_mem_nil _)) fun events h =>
    .ite .errAt (.pure h)

theorem propertyName_all (hT : Hereditary T) (hsrc : T src) (start stop : ℕ) :
    (propertyName src start stop).Yields fun found => T found.1 := by
  refine .after fun c => .ite (.ite .errAt (.after fun after => ?_)) (.ite .errAt ?_)
  · exact .bind (P := T) (fun t ht => hT.slice hsrc ht) fun inner h => .ite .err (.pure h)
  · exact .bind (P := T) (fun t ht => hT.slice hsrc ht) fun name h => .pure h

theorem readStream_all (hT : Hereditary T) (hsrc : T src) (stop pos : ℕ) :
    (readStream src stop pos).Yields fun found => found.1.All T := by
  refine .bind (propertyName_all hT hsrc _ _) fun found hname => .after fun rest => ?_
  refine .ite .err (.after fun rest => .ite .err (.after fun close => ?_))
  exact .bind (parseEntries_all hT hsrc _ _) fun events h => .pure ⟨hname, h⟩

theorem streamsLoop_all (hT : Hereditary T) (hsrc : T src) (stop fuel pos : ℕ)
    {streams : List Stream} (h : ∀ stream ∈ streams, stream.All T) :
    (streamsLoop src stop fuel pos streams).Yields fun streams =>
      ∀ stream ∈ streams, stream.All T := by
  induction fuel generalizing pos streams with
  | zero =>
    intro _ hok
    simp [streamsLoop] at hok
  | succ fuel ih =>
    refine .after fun pos => .ite (.pure h) ?_
    refine .bind (readStream_all hT hsrc _ _) fun found hfound => ?_
    exact ih _ (List.forall_mem_append.mpr ⟨h, List.forall_mem_singleton.mpr hfound⟩)

theorem parseStripped_all (hT : Hereditary T) (hsrc : T src) :
    (parseStripped src).Yields (Catalog.All T) := by
  rw [parseStripped]
  split
  · exact .err
  · refine .after fun rest => ?_
    split
    · exact .err
    · refine .after fun stop => ?_
      exact .bind (streamsLoop_all hT hsrc _ _ _ (List.forall_mem_nil _)) fun streams h =>
        .ite .err (.pure h)

/-- **The texts of a catalog are proper**, if its source is. -/
theorem parse_proper {source : String} {catalog : Catalog}
    (hsource : carriageReturn ∉ text source) (h : parse source = .ok catalog) :
    catalog.Proper := by
  have hproper : Proper (text source) := ⟨⟨_, rfl⟩, hsource⟩
  obtain ⟨src, hsrc, h⟩ := Reading.bind_eq_ok.mp h
  exact parseStripped_all hereditary_proper (hproper.stripComments hsrc) catalog h

end Parse

end Codegen

end RocketSocket
