import Mathlib.Data.List.AList
import RocketSocket.Model.Protocol

/-!
# Correlating calls with their replies

DDP multiplexes every call over one socket and matches replies by a client-chosen id,
so the client owns the table of pending calls: `correlate.rs`.  The sending half of
the oneshot a registered call waits on is a parameter `ρ`; what the correlator sends
on it is returned, so that whoever drives the correlator can deliver it.

## Main definitions

* `Epoch`, `CallError`, `Reply` — connection generations, and what a call gets.
* `Correlator` — the pending-call table.
* `Correlator.register`, `markSent`, `resolve`, `cancel`, `disconnect` — its operations.

## Main results

* `callId_injective`, `callId_side_injective` — ids of one correlator differ, and so do
  ids of the two correlators.
* `lookup_register`, `lookup_markSent`, `lookup_resolve`, `lookup_cancel`,
  `mem_disconnect` — each operation, as a change of the table seen as a map.
-/

namespace RocketSocket

/-! ### Epochs, errors and replies -/

/-- A connection generation. -/
structure Epoch where
  /-- The counter. -/
  val : UInt64
  deriving DecidableEq, Repr, Inhabited

/-- The next generation; the counter wraps. -/
def Epoch.next (e : Epoch) : Epoch := ⟨e.val + 1⟩

/-- Why a call will never be answered. -/
inductive CallError where
  /-- The server answered with an error. -/
  | server (e : DdpError)
  /-- The connection ended before the frame reached the wire. -/
  | notSent
  /-- The frame was written, but the connection ended before a reply arrived. -/
  | abandoned (id : String)
  deriving Repr, Inhabited

/-- What a registered call is answered with. -/
abbrev Reply := Except CallError Value

/-! ### The table -/

variable {ρ : Type}

/-- One pending call. -/
structure Pending (ρ : Type) where
  /-- The generation it was registered in. -/
  epoch : Epoch
  /-- Its frame was written to the socket. -/
  sent : Bool
  /-- Where its reply goes. -/
  reply : ρ

/-- What `Correlator.resolve` did with a reply. -/
inductive Resolution where
  /-- Handed to the waiting caller. -/
  | delivered
  /-- No such call is pending. -/
  | unknown
  /-- The call belonged to a superseded connection, so the reply was dropped. -/
  | staleEpoch
  /-- The caller stopped waiting before the reply arrived. -/
  | callerGone
  deriving DecidableEq, Repr

/-- The pending-call table for one client.  `nextId` is a `u64` in the source: it
counts registrations, so no run of fewer than `2 ^ 64` of them tells the two apart. -/
structure Correlator (ρ : Type) where
  /-- The current generation. -/
  epoch : Epoch
  /-- How many calls were registered. -/
  nextId : ℕ
  /-- What every id starts with. -/
  idPrefix : String
  /-- The calls without a reply, by id. -/
  pending : AList fun _ : String => Pending ρ

/-- One reply a correlator sends: the call's id, where it goes, and the reply. -/
structure Settlement (ρ : Type) where
  /-- The id the call was registered under. -/
  id : String
  /-- The sending half of its oneshot. -/
  reply : ρ
  /-- What is sent. -/
  outcome : Reply

/-- The id of the `n`-th call of a correlator. -/
def callId (idPrefix : String) (n : ℕ) : String := idPrefix ++ toString n

/-- The two correlators of a runner. -/
inductive Side where
  | methods
  | subs
  deriving DecidableEq, Repr

/-- The prefix a correlator is created with. -/
def Side.idPrefix : Side → String
  | .methods => "m"
  | .subs => "s"

namespace Correlator

/-- A correlator whose ids carry `idPrefix`. -/
def new (idPrefix : String) : Correlator ρ := ⟨⟨0⟩, 0, idPrefix, ∅⟩

/-- Registers a call, returning its id. -/
def register (c : Correlator ρ) (reply : ρ) : String × Correlator ρ :=
  let id := callId c.idPrefix c.nextId
  (id, { c with
    nextId := c.nextId + 1
    pending := c.pending.insert id ⟨c.epoch, false, reply⟩ })

/-- Marks a registered call as written to the socket. -/
def markSent (c : Correlator ρ) (id : String) : Correlator ρ :=
  match c.pending.lookup id with
  | some pending => { c with pending := c.pending.insert id { pending with sent := true } }
  | none => c

/-- Delivers a reply to its caller.  `gone` says of a sending half that its receiver
was dropped. -/
def resolve (c : Correlator ρ) (id : String) (outcome : Except DdpError Value)
    (gone : ρ → Bool) : Correlator ρ × Resolution × Option (Settlement ρ) :=
  match c.pending.lookup id with
  | none => (c, .unknown, none)
  | some pending =>
    let c := { c with pending := c.pending.erase id }
    if pending.epoch ≠ c.epoch then (c, .staleEpoch, none)
    else (c, if gone pending.reply then .callerGone else .delivered,
      some ⟨id, pending.reply, outcome.mapError .server⟩)

/-- Forgets one pending call without delivering anything. -/
def cancel (c : Correlator ρ) (id : String) : Correlator ρ × Bool :=
  ({ c with pending := c.pending.erase id }, (c.pending.lookup id).isSome)

/-- What a pending call is told when its connection ends. -/
def abandon (id : String) (pending : Pending ρ) : Settlement ρ :=
  ⟨id, pending.reply, .error (if pending.sent then .abandoned id else .notSent)⟩

/-- Ends the current connection: settles every waiter and starts a new epoch.  The
source returns only how many there were. -/
def disconnect (c : Correlator ρ) : Correlator ρ × List (Settlement ρ) :=
  ({ c with pending := ∅, epoch := c.epoch.next },
    c.pending.entries.map fun e => abandon e.1 e.2)

end Correlator

/-! ### Ids -/

theorem toDigits_injective {m n : ℕ} (h : Nat.toDigits 10 m = Nat.toDigits 10 n) : m = n := by
  rw [← Nat.ofDigitChars_ten_toDigits (n := m), h, Nat.ofDigitChars_ten_toDigits]

theorem toList_callId (p : String) (n : ℕ) :
    (callId p n).toList = p.toList ++ Nat.toDigits 10 n := by
  simp [callId]

/-- The decimal rendering of the counter is injective, so ids of one correlator are
distinct. -/
theorem callId_injective (p : String) : Function.Injective (callId p) := by
  intro m n h
  have hl := congrArg String.toList h
  rw [toList_callId, toList_callId, List.append_cancel_left_eq] at hl
  exact toDigits_injective hl

/-- Ids whose prefixes start with different characters are different. -/
theorem callId_ne {a b : Char} {p q : List Char} (hab : a ≠ b) (m n : ℕ) :
    callId (String.ofList (a :: p)) m ≠ callId (String.ofList (b :: q)) n := by
  intro h
  have hl := congrArg String.toList h
  simp only [toList_callId, String.toList_ofList, List.cons_append, List.cons.injEq] at hl
  exact hab hl.1

/-- No id is handed out twice, whichever correlator it comes from. -/
theorem callId_side_injective {side side' : Side} {m n : ℕ}
    (h : callId side.idPrefix m = callId side'.idPrefix n) : side = side' ∧ m = n := by
  cases side <;> cases side'
  · exact ⟨rfl, callId_injective _ h⟩
  · exact absurd h (callId_ne (p := []) (q := []) (by decide) m n)
  · exact absurd h (callId_ne (p := []) (q := []) (by decide) m n)
  · exact ⟨rfl, callId_injective _ h⟩

namespace Correlator

/-! ### The operations on the table -/

variable (c : Correlator ρ) (w : ρ)

@[simp] theorem register_fst : (c.register w).1 = callId c.idPrefix c.nextId := rfl

@[simp] theorem nextId_register : (c.register w).2.nextId = c.nextId + 1 := rfl

@[simp] theorem idPrefix_register : (c.register w).2.idPrefix = c.idPrefix := rfl

@[simp] theorem epoch_register : (c.register w).2.epoch = c.epoch := rfl

theorem lookup_register (id : String) : (c.register w).2.pending.lookup id =
    if id = callId c.idPrefix c.nextId then some ⟨c.epoch, false, w⟩
    else c.pending.lookup id := by
  split
  · next h => rw [h]; exact AList.lookup_insert _
  · next h => exact AList.lookup_insert_ne h

@[simp] theorem nextId_markSent (id : String) : (c.markSent id).nextId = c.nextId := by
  unfold markSent; split <;> rfl

@[simp] theorem idPrefix_markSent (id : String) : (c.markSent id).idPrefix = c.idPrefix := by
  unfold markSent; split <;> rfl

@[simp] theorem epoch_markSent (id : String) : (c.markSent id).epoch = c.epoch := by
  unfold markSent; split <;> rfl

theorem lookup_markSent (id id' : String) : (c.markSent id).pending.lookup id' =
    if id' = id then (c.pending.lookup id).map fun p => { p with sent := true }
    else c.pending.lookup id' := by
  cases hp : c.pending.lookup id with
  | none =>
    have hm : c.markSent id = c := by simp [markSent, hp]
    rw [hm]
    split
    · next h => rw [h, hp]; rfl
    · rfl
  | some p =>
    have hm : (c.markSent id).pending = c.pending.insert id { p with sent := true } := by
      simp [markSent, hp]
    rw [hm]
    split
    · next h => rw [h]; exact AList.lookup_insert _
    · next h => exact AList.lookup_insert_ne h

@[simp] theorem nextId_cancel (id : String) : (c.cancel id).1.nextId = c.nextId := rfl

@[simp] theorem idPrefix_cancel (id : String) : (c.cancel id).1.idPrefix = c.idPrefix := rfl

@[simp] theorem epoch_cancel (id : String) : (c.cancel id).1.epoch = c.epoch := rfl

theorem lookup_cancel (id id' : String) : (c.cancel id).1.pending.lookup id' =
    if id' = id then none else c.pending.lookup id' := by
  split
  · next h => rw [h]; exact AList.lookup_erase id _
  · next h => exact AList.lookup_erase_ne h

section resolve

variable (id : String) (outcome : Except DdpError Value) (gone : ρ → Bool)

/-- Whatever it answers, a reply takes the entry out of the table. -/
theorem resolve_fst : (c.resolve id outcome gone).1 = (c.cancel id).1 := by
  cases hp : c.pending.lookup id with
  | none =>
    have hid : id ∉ c.pending.entries.keys := by
      rw [← AList.keys, ← AList.mem_keys, ← AList.lookup_eq_none]
      exact hp
    have he : c.pending.erase id = c.pending := AList.ext (List.kerase_of_notMem_keys hid)
    simp [resolve, cancel, hp, he]
  | some p =>
    simp only [resolve, cancel, hp, ne_eq, ite_not]
    split <;> rfl

/-- A reply for a pending call of the current epoch is sent to that call's waiter. -/
theorem resolve_settlement {p : Pending ρ} (hp : c.pending.lookup id = some p)
    (he : p.epoch = c.epoch) : (c.resolve id outcome gone).2.2 =
      some ⟨id, p.reply, outcome.mapError .server⟩ := by
  simp [resolve, hp, he]

theorem lookup_resolve (id' : String) :
    (c.resolve id outcome gone).1.pending.lookup id' =
      if id' = id then none else c.pending.lookup id' := by
  rw [resolve_fst, lookup_cancel]

end resolve

@[simp] theorem nextId_disconnect : c.disconnect.1.nextId = c.nextId := rfl

@[simp] theorem idPrefix_disconnect : c.disconnect.1.idPrefix = c.idPrefix := rfl

@[simp] theorem epoch_disconnect : c.disconnect.1.epoch = c.epoch.next := rfl

@[simp] theorem lookup_disconnect (id : String) :
    c.disconnect.1.pending.lookup id = none := rfl

/-- Disconnecting sends exactly one error to every pending call. -/
theorem mem_disconnect {x : Settlement ρ} : x ∈ c.disconnect.2 ↔
    ∃ p, c.pending.lookup x.id = some p ∧ x = abandon x.id p := by
  have hiff : ∀ id p, c.pending.lookup id = some p ↔ (⟨id, p⟩ : Sigma _) ∈ c.pending.entries :=
    fun id p => AList.mem_lookup_iff
  simp only [disconnect, List.mem_map]
  constructor
  · rintro ⟨⟨id, p⟩, he, rfl⟩
    exact ⟨p, (hiff id p).mpr he, rfl⟩
  · rintro ⟨p, hp, hx⟩
    exact ⟨⟨x.id, p⟩, (hiff x.id p).mp hp, hx.symm⟩

/-- No id is settled twice by one disconnect. -/
theorem nodup_disconnect : (c.disconnect.2.map Settlement.id).Nodup := by
  have h := c.pending.nodupKeys
  rw [List.NodupKeys, List.keys] at h
  simpa [disconnect, abandon, Function.comp_def] using h

end Correlator

end RocketSocket
