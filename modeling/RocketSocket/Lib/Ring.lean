import Mathlib.Data.List.Infix
import Mathlib.Tactic.Common

/-!
# A bounded ring with one reader

A broadcast ring keeps the last `capacity` values sent.  A reader that falls further
behind finds the oldest values overwritten: its next read says how many it missed, and the
one after returns the oldest value still kept.

## Main definitions

* `BroadcastRing` — the values its reader has not read and that are still kept, with how many it
  missed.
* `BroadcastRing.send`, `BroadcastRing.overwritten`, `BroadcastRing.recv` — the operations.

## Main results

* `BroadcastRing.mem_send` — a value that was unread still is, or is the one overwritten.
* `BroadcastRing.unread_send_sublist`, `BroadcastRing.unread_foldl_send_sublist` — what is
  unread, in the order it was sent.
-/

namespace Machine

/-- A ring of positive capacity, as its reader sees it. -/
structure BroadcastRing (α : Type*) where
  capacity : ℕ
  /-- What was sent and not read, oldest first, as far as it is kept. -/
  unread : List α
  /-- How many values were overwritten since the last read. -/
  missed : ℕ
  fits : unread.length ≤ capacity
  positive : 0 < capacity

/-- What a read returns. -/
inductive Received (α : Type*) where
  /-- So many values were overwritten. -/
  | lagged (missed : ℕ)
  | value (a : α)

namespace BroadcastRing

variable {α : Type*}

/-- An empty ring; a capacity of zero is raised to one. -/
def new (capacity : ℕ) : BroadcastRing α :=
  ⟨max capacity 1, [], 0, Nat.zero_le _, Nat.lt_of_lt_of_le Nat.one_pos (Nat.le_max_right ..)⟩

/-- The value the next send overwrites, if the ring is full. -/
def overwritten (r : BroadcastRing α) : Option α :=
  if r.unread.length < r.capacity then none else r.unread.head?

/-- Sends a value; a full ring drops its oldest one. -/
def send (r : BroadcastRing α) (a : α) : BroadcastRing α :=
  if h : r.unread.length < r.capacity then
    { r with unread := r.unread ++ [a], fits := by simpa using Nat.succ_le_of_lt h }
  else
    { r with
      unread := r.unread.tail ++ [a]
      missed := r.missed + 1
      fits := by
        have hfits := r.fits
        have hpositive := r.positive
        simp only [List.length_append, List.length_tail, List.length_singleton]
        omega }

/-- Reads: the number of missed values first, then the oldest one kept. -/
def recv (r : BroadcastRing α) : Option (Received α × BroadcastRing α) :=
  if r.missed ≠ 0 then some (.lagged r.missed, { r with missed := 0 })
  else match h : r.unread with
    | [] => none
    | a :: rest => some (.value a, { r with
        unread := rest
        fits := by
          have hfits := r.fits
          rw [h, List.length_cons] at hfits
          omega })

variable {r r' : BroadcastRing α} {a b : α}

@[simp] theorem unread_new (capacity : ℕ) : (new capacity : BroadcastRing α).unread = [] := rfl

theorem unread_send : (r.send a).unread =
    (if r.unread.length < r.capacity then r.unread else r.unread.tail) ++ [a] := by
  unfold send
  split <;> rfl

/-- The value just sent is unread. -/
theorem mem_send_self : a ∈ (r.send a).unread := by
  rw [unread_send]
  exact List.mem_append_right _ (List.mem_singleton_self a)

/-- A value that was unread still is, or is the one overwritten. -/
theorem mem_send (hb : b ∈ r.unread) : b ∈ (r.send a).unread ∨ r.overwritten = some b := by
  rw [unread_send, overwritten]
  split
  · exact .inl (List.mem_append_left _ hb)
  · cases hunread : r.unread with
    | nil =>
      rw [hunread] at hb
      simp at hb
    | cons c rest =>
      rw [hunread] at hb
      rcases List.mem_cons.mp hb with rfl | hb
      · exact .inr rfl
      · exact .inl (List.mem_append_left _ hb)

/-- What a read does. -/
theorem recv_cases {x : Received α} (hr : r.recv = some (x, r')) :
    (x = .lagged r.missed ∧ r'.unread = r.unread) ∨
      ∃ b, x = .value b ∧ r.unread = b :: r'.unread := by
  unfold recv at hr
  split at hr
  · obtain ⟨rfl, rfl⟩ := Prod.mk.inj (Option.some.inj hr)
    exact .inl ⟨rfl, rfl⟩
  · split at hr
    · simp at hr
    · next c rest hunread =>
      obtain ⟨rfl, rfl⟩ := Prod.mk.inj (Option.some.inj hr)
      exact .inr ⟨c, rfl, hunread⟩

/-- What was read and what is unread, in the order it was sent: a send keeps the order, -/
theorem unread_send_sublist {read sent : List α} (hs : (read ++ r.unread).Sublist sent) :
    (read ++ (r.send a).unread).Sublist (sent ++ [a]) := by
  rw [unread_send, ← List.append_assoc]
  refine List.Sublist.append ?_ (List.Sublist.refl [a])
  split
  · exact hs
  · exact ((List.Sublist.refl read).append (List.tail_sublist _)).trans hs

/-- and so do many. -/
theorem unread_foldl_send_sublist {read sent : List α} (values : List α)
    (hs : (read ++ r.unread).Sublist sent) :
    (read ++ (values.foldl send r).unread).Sublist (sent ++ values) := by
  induction values generalizing r sent with
  | nil => simpa using hs
  | cons a values ih =>
    have hall := ih (unread_send_sublist (a := a) hs)
    rwa [List.append_assoc] at hall

end BroadcastRing

end Machine
