import Mathlib.Data.List.Forall2
import RocketSocket.Lib.Ring

/-!
# Records that name their gaps

A reader that may fall behind its source keeps a record: an entry for each value it read, and,
where it missed some, an entry that says how many.  Such a record accounts for what was sent
when each value, in the order it was sent, is in one entry and no more.  A reader of a ring
keeps one, whatever is sent between its reads.

## Main definitions

* `Account` — the record accounts for the values.
* `BroadcastRing.Holds` — what was sent, apart from what was read.

## Main results

* `Account.length_eq`, `Account.forall₂` — the entries count the values; without a gap they are
  the values.
* `Account.of_append` — the beginning of a record accounts for a beginning.
* `BroadcastRing.Holds.send`, `BroadcastRing.Holds.recv` — what a send and a read keep.
-/

namespace Machine

variable {α β : Type*}

/-- A record accounts for what was sent: an entry `Tells` of one value, or is the `gap` of the
length of some that follow one another. -/
inductive Account (Tells : α → β → Prop) (gap : ℕ → β) : List α → List β → Prop
  | nil : Account Tells gap [] []
  | told {sent : List α} {record : List β} {a : α} {b : β} :
    Account Tells gap sent record → Tells a b → Account Tells gap (sent ++ [a]) (record ++ [b])
  | missed {sent lost : List α} {record : List β} :
    Account Tells gap sent record → lost ≠ [] →
      Account Tells gap (sent ++ lost) (record ++ [gap lost.length])

namespace Account

variable {Tells : α → β → Prop} {gap : ℕ → β} {sent : List α} {record later : List β}

/-- The beginning of a record accounts for a beginning of what was sent. -/
theorem of_append (ha : Account Tells gap sent (record ++ later)) :
    ∃ first rest, sent = first ++ rest ∧ Account Tells gap first record := by
  induction later using List.reverseRecOn generalizing sent with
  | nil => exact ⟨sent, [], (List.append_nil sent).symm, by rwa [List.append_nil] at ha⟩
  | append_singleton later b ih =>
    -- The last entry is taken off, and what it stands for goes to the rest.
    generalize hrecord : record ++ (later ++ [b]) = whole at ha
    rw [← List.append_assoc] at hrecord
    cases ha with
    | nil => simp at hrecord
    | @told before _ a _ ha _ =>
      obtain ⟨rfl, -⟩ := List.append_inj' hrecord rfl
      obtain ⟨first, rest, rfl, hfirst⟩ := ih ha
      exact ⟨first, rest ++ [a], List.append_assoc .., hfirst⟩
    | @missed before lost _ ha _ =>
      obtain ⟨rfl, -⟩ := List.append_inj' hrecord rfl
      obtain ⟨first, rest, rfl, hfirst⟩ := ih ha
      exact ⟨first, rest ++ lost, List.append_assoc .., hfirst⟩

/-- **The entries count the values**, if an entry that tells of a value counts one. -/
theorem length_eq {weight : β → ℕ} (ha : Account Tells gap sent record)
    (hone : ∀ a ∈ sent, ∀ b, Tells a b → weight b = 1) (hgap : ∀ n, weight (gap n) = n) :
    sent.length = (record.map weight).foldl (· + ·) 0 := by
  induction ha with
  | nil => rfl
  | told ha htells ih =>
    have hrest := ih fun a hm => hone a (List.mem_append_left _ hm)
    have hlast := hone _ (List.mem_append_right _ (List.mem_singleton_self _)) _ htells
    simp [hrest, hlast, List.foldl_append]
  | missed ha hne ih =>
    have hrest := ih fun a hm => hone a (List.mem_append_left _ hm)
    simp [hrest, hgap, List.foldl_append]

/-- **A record without a gap tells of every value.** -/
theorem forall₂ (ha : Account Tells gap sent record) (hgap : ∀ n, gap n ∉ record) :
    List.Forall₂ Tells sent record := by
  induction ha with
  | nil => exact .nil
  | told ha htells ih =>
    have hrest := ih fun n hm => hgap n (List.mem_append_left _ hm)
    exact List.rel_append hrest (.cons htells .nil)
  | missed ha hne ih =>
    exact absurd (List.mem_append_right _ (List.mem_singleton_self _)) (hgap _)

end Account

/-! ### The reader of a ring -/

namespace BroadcastRing

variable {r r' : BroadcastRing α} {read sent : List α}

/-- What was sent: what was read, then what was overwritten since, then what is unread. -/
def Holds (r : BroadcastRing α) (read sent : List α) : Prop :=
  ∃ lost, sent = read ++ (lost ++ r.unread) ∧ lost.length = r.missed

/-- Nothing was sent. -/
theorem holds_new (capacity : ℕ) : (new capacity : BroadcastRing α).Holds [] [] := ⟨[], rfl, rfl⟩

/-- A send keeps it, -/
theorem Holds.send (hr : r.Holds read sent) (a : α) : (r.send a).Holds read (sent ++ [a]) := by
  obtain ⟨lost, rfl, hlost⟩ := hr
  unfold BroadcastRing.send
  split
  · exact ⟨lost, by simp, hlost⟩
  · next hfull =>
    -- The oldest value goes over to the overwritten ones.
    have hne : r.unread ≠ [] := by
      intro hunread
      have hpositive := r.positive
      rw [hunread, List.length_nil] at hfull
      omega
    have hhead := List.cons_head_tail hne
    refine ⟨lost ++ [r.unread.head hne], ?_, by simp [hlost]⟩
    rw [List.append_assoc lost, List.singleton_append, ← List.cons_append, hhead]
    simp

/-- and so do many. -/
theorem Holds.foldl_send (hr : r.Holds read sent) (values : List α) :
    (values.foldl BroadcastRing.send r).Holds read (sent ++ values) := by
  induction values generalizing r sent with
  | nil => simpa using hr
  | cons a values ih => simpa using ih (hr.send a)

/-- **A read moves on**: past the values that were overwritten, or past one value when there
are none. -/
theorem Holds.recv (hr : r.Holds read sent) {x : Received α} (hx : r.recv = some (x, r')) :
    (∃ lost, lost ≠ [] ∧ x = .lagged lost.length ∧ r'.Holds (read ++ lost) sent) ∨
      ∃ a, x = .value a ∧ r'.Holds (read ++ [a]) sent := by
  obtain ⟨lost, rfl, hlost⟩ := hr
  unfold BroadcastRing.recv at hx
  split at hx
  · next hmissed =>
    obtain ⟨rfl, rfl⟩ := Prod.mk.inj (Option.some.inj hx)
    have hne : lost ≠ [] := by
      rintro rfl
      exact hmissed hlost.symm
    exact .inl ⟨lost, hne, congrArg Received.lagged hlost.symm, [], by simp, rfl⟩
  · next hmissed =>
    obtain rfl : lost = [] := List.eq_nil_of_length_eq_zero (hlost.trans (not_not.mp hmissed))
    split at hx
    · simp at hx
    · next a rest hunread =>
      obtain ⟨rfl, rfl⟩ := Prod.mk.inj (Option.some.inj hx)
      exact .inr ⟨a, rfl, [], by simp [hunread], hlost⟩

/-- Where there is nothing to read, everything was read. -/
theorem Holds.eq_of_recv_eq_none (hr : r.Holds read sent) (hx : r.recv = none) : sent = read := by
  obtain ⟨lost, rfl, hlost⟩ := hr
  unfold BroadcastRing.recv at hx
  split at hx
  · simp at hx
  · next hmissed =>
    obtain rfl : lost = [] := List.eq_nil_of_length_eq_zero (hlost.trans (not_not.mp hmissed))
    split at hx
    · next hunread => simp [hunread]
    · simp at hx

end BroadcastRing

end Machine
