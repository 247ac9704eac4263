import Mathlib.Logic.Relation
import RocketSocket.Realtime.Heard

/-!
# One `sub` for a call, on every connection

Over its life an entry of the registry is established by a chain of callers: the call of
`Client::subscribe` that recorded it, and one replay after another.  Each replay re-issues
the id the one before it was given, so the chain never branches, and its frames are taken in
generations that never decrease.  Two of them reach the wire of one connection only when a
replay re-issues what that connection had already answered.

## Main definitions

* `Reissues`, `StandsFor` — the callers that write a `sub` for one call.
* `Single` — at most one `sub` for a call is written on a connection.
* `Needed` — no replay writes the `sub` of an entry where its id was answered.
* `Issuing` — replays are numbered, and no id is re-issued twice.

## Main results

* `Issuing.move` — every step keeps the replays apart.
* `reissues_unique`, `generation_le_of_chain` — the chain of a call.
* `single_of_needed` — **one `sub` for a call, on every connection.**
* `not_single` — a connection that becomes ready late for its supervisor gets two.
-/

namespace RocketSocket

open Machine

/-! ### The property -/

/-- The ids that calls of `Connection::subscribe` returned. -/
def returnedIds (h : List Note) : List (Caller × String) :=
  h.filterMap fun
    | .returned c (.ok id) => some (c, id)
    | _ => none

/-- The entries that replays began to re-issue. -/
def issuedEntries (h : List Note) : List (ℕ × String) :=
  h.filterMap fun
    | .issued n old => some (n, old)
    | _ => none

/-- The caller `c'` is a replay that re-issues the id `c` was given. -/
def Reissues (h : List Note) (c c' : Caller) : Prop :=
  ∃ id n, (c, id) ∈ returnedIds h ∧ (n, id) ∈ issuedEntries h ∧ c' = .replay n

/-- What the caller writes is for the `k`-th call of `Client::subscribe`: it is that call, or
one of the replays of what it subscribed to. -/
def StandsFor (h : List Note) (k : ℕ) (c : Caller) : Prop :=
  Relation.ReflTransGen (Reissues h) (.subscribe k) c

/-- The mark of a `sub` for the `k`-th call of `Client::subscribe`, taken in generation `g`. -/
def SubFor (h : List Note) (g k : ℕ) (m : Mark) : Prop :=
  ∃ c, StandsFor h k c ∧ TookOn g (wires h) c m

/-- **At most one live subscription for each remembered one**: of the frames written on one
connection no two are for the same call of `Client::subscribe`. -/
def Single (h : List Note) : Prop :=
  ∀ g, (writtenMarks g (wires h)).Pairwise fun m m' => ∀ k, SubFor h g k m → ¬ SubFor h g k m'

/-- A replay's `sub` is written where the id it replaces was not answered. -/
def NeededAt (pre : List Note) : Note → Prop
  | .wire (g, .handed .app out _) => ∀ x ∈ tookMarks g (wires pre), out.mark = some x.2 →
    ∀ e ∈ issuedEntries pre, x.1 = .replay e.1 → ⟨.subs, e.2⟩ ∉ answeredMarks g (wires pre)
  | _ => True

instance (pre : List Note) : (x : Note) → Decidable (NeededAt pre x)
  | .wire (g, .handed .app out _) => inferInstanceAs (Decidable (∀ x ∈ tookMarks g (wires pre),
      out.mark = some x.2 → ∀ e ∈ issuedEntries pre, x.1 = .replay e.1 →
        ⟨.subs, e.2⟩ ∉ answeredMarks g (wires pre)))
  | .wire (_, .handed .priority ..) | .wire (_, .opened) | .wire (_, .received _)
  | .wire (_, .pushed _) | .wire (_, .took ..) | .wire (_, .settled ..) | .wire (_, .ended _)
  | .wire (_, .emitted _) | .overwrote .. | .stopped | .returned .. | .inserted .. | .received _
  | .replayStarted .. | .issued .. | .rekeyed .. | .removed .. | .replayed .. => isTrue trivial

/-- No replay writes the `sub` of an entry on a connection that answered the entry's id. -/
def Needed (h : List Note) : Prop := Each NeededAt h

instance (h : List Note) : Decidable (Needed h) :=
  inferInstanceAs (Decidable (Each NeededAt h))

@[simp] theorem issuedEntries_append (h o : List Note) :
    issuedEntries (h ++ o) = issuedEntries h ++ issuedEntries o := List.filterMap_append

theorem mem_returnedIds {h : List Note} {c : Caller} {id : String} :
    (c, id) ∈ returnedIds h ↔ .returned c (.ok id) ∈ h := by
  rw [returnedIds, List.mem_filterMap]
  constructor
  · rintro ⟨note, hn, hread⟩
    split at hread
    · obtain ⟨rfl, rfl⟩ := Prod.mk.inj (Option.some.inj hread)
      exact hn
    · simp at hread
  · exact fun hn => ⟨_, hn, rfl⟩

theorem mem_issuedEntries {h : List Note} {n : ℕ} {old : String} :
    (n, old) ∈ issuedEntries h ↔ .issued n old ∈ h := by
  rw [issuedEntries, List.mem_filterMap]
  constructor
  · rintro ⟨note, hn, hread⟩
    split at hread
    · obtain ⟨rfl, rfl⟩ := Prod.mk.inj (Option.some.inj hread)
      exact hn
    · simp at hread
  · exact fun hn => ⟨_, hn, rfl⟩

/-! ### Answers -/

/-- A call is answered in one generation. -/
theorem Ledger.answered_unique {h : List (Seen Caller)} {w : Wire Caller} (hl : Ledger h w)
    {g g' : ℕ} {m : Mark} (ha : AnsweredOn g h m) (ha' : AnsweredOn g' h m) : g = g' := by
  obtain ⟨message, waiter, reply, hx⟩ := ha
  obtain ⟨message', waiter', reply', hx'⟩ := ha'
  exact ((hl.fates.settledWaiter _ _ _ _ _ hx).unique hl.ids.nodup
    (hl.fates.settledWaiter _ _ _ _ _ hx')).1

namespace Linked

variable {config : Config} {h : List Note} {s : System} {c c' : Caller} {id id' : String}

/-- An id that `Connection::subscribe` returned was answered in the generation its command
was taken in. -/
theorem established (hl : Linked config h s) (hx : .returned c (.ok id) ∈ h) :
    ∃ g, TookOn g (wires h) c ⟨.subs, id⟩ ∧ AnsweredOn g (wires h) ⟨.subs, id⟩ := by
  obtain ⟨hc, g, cause, v, htook, hsettled⟩ := hl.settled_of_returned hx
  obtain ⟨-, ⟨subs, rfl, -⟩ | rfl⟩ := hl.cause_of_ok hc hsettled
  · exact ⟨g, htook, _, _, _, hsettled⟩
  · exact ⟨g, htook, _, _, _, hsettled⟩

/-- A caller is given one id, -/
theorem returned_id_unique (hl : Linked config h s) (hx : .returned c (.ok id) ∈ h)
    (hx' : .returned c (.ok id') ∈ h) : id = id' := by
  obtain ⟨g, htook, -⟩ := hl.established hx
  obtain ⟨g', htook', -⟩ := hl.established hx'
  obtain ⟨-, hm⟩ := hl.took_unique htook htook'
  exact (Mark.mk.inj hm).2

/-- and an id is given to one caller. -/
theorem returned_caller_unique (hl : Linked config h s) (hx : .returned c (.ok id) ∈ h)
    (hx' : .returned c' (.ok id) ∈ h) : c = c' := by
  obtain ⟨g, htook, -⟩ := hl.established hx
  obtain ⟨g', htook', -⟩ := hl.established hx'
  have hissued : IssuedFor g (wires h) ⟨.subs, id⟩ (.caller c) := htook
  have hissued' : IssuedFor g' (wires h) ⟨.subs, id⟩ (.caller c') := htook'
  exact Waiter.caller.inj (hissued.unique (World.attended hl.run).1.ids.nodup hissued').2

/-- What was put into the registry was returned. -/
theorem returned_of_put (hl : Linked config h s) {id : String} (hp : PutIn h id) :
    (∃ k, .inserted k id ∈ h ∧ .returned (.subscribe k) (.ok id) ∈ h) ∨
    ∃ n old, .rekeyed n old id ∈ h ∧ .issued n old ∈ h ∧ .returned (.replay n) (.ok id) ∈ h := by
  rcases hp with ⟨k, hx⟩ | ⟨n, old, hx⟩
  · obtain ⟨pre, post, rfl⟩ := List.append_of_mem hx
    have hnote : .returned (.subscribe k) (.ok id) ∈ pre := hl.notes pre _ post rfl
    exact .inl ⟨k, hx, List.mem_append_left _ hnote⟩
  · obtain ⟨pre, post, rfl⟩ := List.append_of_mem hx
    obtain ⟨hissued, hreturned⟩ := hl.notes pre (.rekeyed n old id) post rfl
    exact .inr ⟨n, old, hx, List.mem_append_left _ hissued, List.mem_append_left _ hreturned⟩

end Linked

/-! ### Replays are kept apart -/

/-- A call of `Client::subscribe` whose id was put into the registry is over. -/
def Recorded (h : List Note) (s : System) : Prop :=
  ∀ k id, .inserted k id ∈ h → ∃ outcome, s.calls[k]? = some (.returned outcome)

namespace System

variable {s s' : System} {o : List Note}

/-- A call that returned stays so. -/
theorem Move.returned (hm : s.Move o s') {k : ℕ} {outcome : Except CallError StreamKey}
    (hk : s.calls[k]? = some (.returned outcome)) : s'.calls[k]? = some (.returned outcome) := by
  -- A call that is changed was not over.
  have hset : ∀ {j : ℕ} {old new : Call}, s.calls[j]? = some old → old ≠ .returned outcome →
      (s.calls.set j new)[k]? = some (.returned outcome) := by
    intro j old new hj hne
    have hjk : j ≠ k := by
      rintro rfl
      exact hne (Option.some.inj (hj.symm.trans hk))
    rw [List.getElem?_set_ne hjk, hk]
  have hloop : ∀ {s₁ : System} {epoch g restored} {entries : List Replayed},
      s₁.calls = s.calls → (s₁.loop epoch g restored entries).1.calls = s.calls := by
    intro s₁ epoch g restored entries hcalls
    cases entries <;> exact hcalls
  -- A step writes to one call, or it appends one.
  cases hm with
  | runner hw hoffer hs₁ hs' hnotes =>
    rw [state_forM_see, hs₁] at hs'
    rw [hs']
    exact hk
  | subscribe key =>
    show (s.calls ++ _)[k]? = _
    rw [List.getElem?_append_left (List.getElem?_eq_some_iff.mp hk).1, hk]
  | drop hcall hover =>
    refine hset hcall ?_
    rintro rfl
    simp [Call.isOver] at hover
  | resume hcall hp =>
    rw [congrArg System.calls hp.frame]
    exact hset hcall (by simp)
  | record hcall => exact hset hcall (by simp)
  | issue hsup hp =>
    rw [congrArg System.calls hp.frame]
    exact hk
  | snapshot hsup => rw [hloop rfl, hk]
  | rekey hsup hs₁ => rw [hloop (by rw [hs₁]), hk]
  | remove hsup hs₁ => rw [hloop (by rw [hs₁]), hk]
  | _ => exact hk

/-- A call whose id is put into the registry returns. -/
theorem Move.inserted (hm : s.Move o s') {k : ℕ} {id : String} (hx : .inserted k id ∈ o) :
    ∃ outcome, s'.calls[k]? = some (.returned outcome) := by
  have hloop : ∀ {s₁ : System} {note : Note} {epoch g restored} {entries : List Replayed},
      .inserted k id ∈ note :: (s₁.loop epoch g restored entries).2 → note = .inserted k id := by
    intro s₁ note epoch g restored entries hx
    rcases List.mem_cons.mp hx with hx | hx
    · exact hx.symm
    · cases entries <;> simp [loop] at hx
  cases hm with
  | runner hw hoffer hs₁ hs' hnotes =>
    rcases mem_runner hnotes hx with ⟨x, -, hx⟩ | ⟨lost, left, hx⟩ | hx <;> simp at hx
  | @record k key id hcall =>
    obtain ⟨rfl, rfl⟩ := Note.inserted.inj (List.mem_singleton.mp hx)
    obtain ⟨hlt, -⟩ := List.getElem?_eq_some_iff.mp hcall
    exact ⟨.ok key, by simp [hlt]⟩
  | @resume k key call s₁ p hcall hp => cases p <;> simp [Progress.notes] at hx
  | @issue r call s₁ p hsup hp => cases p <;> simp [Progress.notes] at hx
  | receive hsup hrecv => simp at hx
  | snapshot hsup => simpa using hloop hx
  | rekey hsup hs₁ => simpa using hloop hx
  | remove hsup hs₁ => simpa using hloop hx
  | _ => simp at hx

end System

theorem recorded_run {config : Config} {h : List Note} {s : System}
    (hrun : Run System.step (System.init config) h s) : Recorded h s := by
  refine hrun.invariant (I := Recorded) (fun k id hx => by simp at hx) ?_
  intro h s i s' o hr hs k id hx
  have hm := System.step_move hs
  rcases List.mem_append.mp hx with hx | hx
  · obtain ⟨outcome, hk⟩ := hr k id hx
    exact ⟨outcome, hm.returned hk⟩
  · exact hm.inserted hx

/-- Replays are numbered in the order they begin; none re-issues what another did, and an id
that was re-issued leaves the registry before the next one begins. -/
structure Issuing (h : List Note) (s : System) : Prop where
  numbers : (issuedEntries h).map Prod.fst = List.range s.replays
  once : ((issuedEntries h).map Prod.snd).Nodup
  put : ∀ e ∈ issuedEntries h, PutIn h e.2
  gone : ∀ e ∈ issuedEntries h, e.2 ∈ s.registry.ids → s.supervisor.todo.head? = some e.2
  moved : ∀ n old new, .rekeyed n old new ∈ h → (n, old) ∈ issuedEntries h ∧ old ∉ s.registry.ids

namespace Issuing

variable {h o : List Note} {s s' : System}

theorem init (config : Config) : Issuing [] (.init config) :=
  ⟨rfl, List.nodup_nil, by simp [issuedEntries], by simp [issuedEntries], by simp⟩

/-- A replay re-issues one entry. -/
theorem old_unique (hi : Issuing h s) {n : ℕ} {old old' : String}
    (hx : (n, old) ∈ issuedEntries h) (hx' : (n, old') ∈ issuedEntries h) : old = old' := by
  have hnodup : ((issuedEntries h).map Prod.fst).Nodup := hi.numbers ▸ List.nodup_range
  have heq := List.inj_on_of_nodup_map hnodup hx hx' rfl
  exact (Prod.mk.inj heq).2

/-- An entry is re-issued by one replay. -/
theorem number_unique (hi : Issuing h s) {n n' : ℕ} {old : String}
    (hx : (n, old) ∈ issuedEntries h) (hx' : (n', old) ∈ issuedEntries h) : n = n' := by
  have heq := List.inj_on_of_nodup_map hi.once hx hx' rfl
  exact (Prod.mk.inj heq).1

/-- A replay that was counted began. -/
theorem exists_old (hi : Issuing h s) {n : ℕ} (hn : n < s.replays) :
    ∃ old, (n, old) ∈ issuedEntries h := by
  have hmem : n ∈ (issuedEntries h).map Prod.fst := hi.numbers ▸ List.mem_range.mpr hn
  obtain ⟨⟨_, old⟩, he, rfl⟩ := List.mem_map.mp hmem
  exact ⟨old, he⟩

theorem bound (hi : Issuing h s) {n : ℕ} {old : String} (hx : (n, old) ∈ issuedEntries h) :
    n < s.replays := by
  have hmem : n ∈ List.range s.replays := hi.numbers ▸ List.mem_map.mpr ⟨_, hx, rfl⟩
  exact List.mem_range.mp hmem

/-- What was re-issued and left the registry does not come back, when a step puts only new
ids into it. -/
theorem moved_append (hi : Issuing h s)
    (hids : ∀ id ∈ s'.registry.ids, id ∈ s.registry.ids ∨ ¬ PutIn h id) {n : ℕ}
    {old new : String} (hx : .rekeyed n old new ∈ h) :
    (n, old) ∈ issuedEntries (h ++ o) ∧ old ∉ s'.registry.ids := by
  obtain ⟨hissued, hgone⟩ := hi.moved n old new hx
  rw [issuedEntries_append]
  refine ⟨List.mem_append_left _ hissued, fun hid => ?_⟩
  rcases hids old hid with hid | hnew
  · exact hgone hid
  · exact hnew (hi.put _ hissued)

/-- A step that begins no replay: what it puts into the registry is new. -/
theorem frame (hi : Issuing h s) (hissued : issuedEntries o = [])
    (hrekeyed : ∀ n old new, .rekeyed n old new ∉ o) (hreplays : s'.replays = s.replays)
    (htodo : s'.supervisor.todo = s.supervisor.todo)
    (hids : ∀ id ∈ s'.registry.ids, id ∈ s.registry.ids ∨ ¬ PutIn h id) :
    Issuing (h ++ o) s' := by
  have hsame : issuedEntries (h ++ o) = issuedEntries h := by
    rw [issuedEntries_append, hissued, List.append_nil]
  refine ⟨?_, ?_, fun e he => ?_, fun e he hid => ?_, fun n old new hx => ?_⟩
  · rw [hsame, hreplays]
    exact hi.numbers
  · rw [hsame]
    exact hi.once
  · rw [hsame] at he
    exact (hi.put e he).mono
  · rw [hsame] at he
    rcases hids e.2 hid with hid | hnew
    · rw [htodo]
      exact hi.gone e he hid
    · exact absurd (hi.put e he) hnew
  · rcases List.mem_append.mp hx with hx | hx
    · exact hi.moved_append hids hx
    · exact absurd hx (hrekeyed n old new)

/-- The entry a replay was at is dealt with, and the replay of the next one begins, if there
is one: none of the ids that are left was re-issued. -/
theorem next (hi : Issuing h s) (entry : Option String)
    (hissued : issuedEntries o = entry.toList.map fun old => (s.replays, old))
    (hreplays : s'.replays = s.replays + entry.toList.length)
    (hhead : s'.supervisor.todo.head? = entry)
    (hentry : ∀ old ∈ entry, old ∈ s'.registry.ids ∧ PutIn h old)
    (hrekeyed : ∀ n old new, .rekeyed n old new ∈ o →
      (n, old) ∈ issuedEntries h ∧ s.supervisor.todo.head? = some old)
    (hids : ∀ id ∈ s'.registry.ids,
      id ∈ s.registry.ids ∧ s.supervisor.todo.head? ≠ some id ∨ ¬ PutIn h id) :
    Issuing (h ++ o) s' := by
  -- What was re-issued is not in the registry any more.
  have hgone : ∀ e ∈ issuedEntries h, e.2 ∉ s'.registry.ids := by
    intro e he hid
    rcases hids e.2 hid with ⟨hid, hne⟩ | hnew
    · exact hne (hi.gone e he hid)
    · exact hnew (hi.put e he)
  have hsame : issuedEntries (h ++ o) =
      issuedEntries h ++ entry.toList.map fun old => (s.replays, old) := by
    rw [issuedEntries_append, hissued]
  have hcases : ∀ e ∈ issuedEntries (h ++ o), e ∈ issuedEntries h ∨ entry = some e.2 := by
    intro e he
    rw [hsame] at he
    rcases List.mem_append.mp he with he | he
    · exact .inl he
    · obtain ⟨old, hold, rfl⟩ := List.mem_map.mp he
      exact .inr (Option.mem_toList.mp hold)
  refine ⟨?_, ?_, fun e he => ?_, fun e he hid => ?_, fun n old new hx => ?_⟩
  · rw [hsame, List.map_append, hi.numbers, hreplays]
    cases entry with
    | none => simp
    | some old => simp [List.range_succ]
  · rw [hsame, List.map_append]
    refine hi.once.append ?_ fun id hid hid' => ?_
    · cases entry <;> simp
    · obtain ⟨e, he, rfl⟩ := List.mem_map.mp hid
      obtain ⟨e', he', heq⟩ := List.mem_map.mp hid'
      obtain ⟨old, hold, rfl⟩ := List.mem_map.mp he'
      obtain rfl : old = e.2 := heq
      exact hgone e he (hentry _ (Option.mem_toList.mp hold)).1
  · rcases hcases e he with he | he
    · exact (hi.put e he).mono
    · exact (hentry _ he).2.mono
  · rcases hcases e he with he | he
    · exact absurd hid (hgone e he)
    · rw [hhead, he]
  · have hold : (n, old) ∈ issuedEntries h := by
      rcases List.mem_append.mp hx with hx | hx
      · exact (hi.moved n old new hx).1
      · exact (hrekeyed n old new hx).1
    refine ⟨?_, hgone _ hold⟩
    rw [issuedEntries_append]
    exact List.mem_append_left _ hold

/-- The head of the loop of a replay. -/
theorem loop (hi : Issuing h s) {note : Note} {s₁ : System} {registry : Registry}
    (hs₁ : s₁ = { s with registry }) (hnote : issuedEntries [note] = [])
    (hrekeyed : ∀ n old new, note = .rekeyed n old new →
      (n, old) ∈ issuedEntries h ∧ s.supervisor.todo.head? = some old)
    (hids : ∀ id ∈ registry.ids,
      id ∈ s.registry.ids ∧ s.supervisor.todo.head? ≠ some id ∨ ¬ PutIn h id)
    (epoch : Epoch) (g restored : ℕ) (entries : List Replayed)
    (hentries : ∀ id ∈ entries.map Prod.fst, id ∈ registry.ids ∧ id ∈ s.registry.ids)
    (hput : ∀ id ∈ s.registry.ids, PutIn h id) :
    Issuing (h ++ note :: (s₁.loop epoch g restored entries).2)
      (s₁.loop epoch g restored entries).1 := by
  subst hs₁
  -- What is moved to a new id is the entry that was issued last.
  have hmoved : ∀ rest : List Note, (∀ n old new, .rekeyed n old new ∉ rest) →
      ∀ n old new, .rekeyed n old new ∈ note :: rest →
        (n, old) ∈ issuedEntries h ∧ s.supervisor.todo.head? = some old := by
    intro rest hrest n old new hx
    rcases List.mem_cons.mp hx with hx | hx
    · exact hrekeyed n old new hx.symm
    · exact absurd hx (hrest n old new)
  have hissued : ∀ rest, issuedEntries (note :: rest) = issuedEntries rest := by
    intro rest
    have happend := issuedEntries_append [note] rest
    rwa [hnote] at happend
  cases entries with
  | nil =>
    exact hi.next none (hissued _) rfl rfl (by simp) (hmoved [.replayed g restored] (by simp)) hids
  | cons entry rest =>
    refine hi.next (some entry.1) (hissued _) rfl rfl ?_
      (hmoved [.issued s.replays entry.1] (by simp)) hids
    -- The next entry is in the registry, so it was put in.
    rintro old hold
    obtain rfl := Option.some.inj hold
    obtain ⟨hin, hid⟩ := hentries entry.1 (by simp)
    exact ⟨hin, hput _ hid⟩

/-- An id that is about to be recorded was not put into the registry before, -/
theorem not_put_of_recording {config : Config} (hl : Linked config h s) (hr : Recorded h s)
    {k : ℕ} {key : StreamKey} {id : String} (hcall : s.calls[k]? = some (.recording key id)) :
    ¬ PutIn h id := by
  have hreturned : .returned (.subscribe k) (.ok id) ∈ h := hl.calls k _ hcall
  intro hput
  rcases hl.returned_of_put hput with ⟨k', hx, hreturned'⟩ | ⟨n, old, -, -, hreturned'⟩
  · obtain rfl := Caller.subscribe.inj (hl.returned_caller_unique hreturned' hreturned)
    obtain ⟨outcome, hover⟩ := hr k' id hx
    rw [hcall] at hover
    simp at hover
  · have hc := hl.returned_caller_unique hreturned' hreturned
    simp at hc

/-- and neither was the id that a replay is about to move its entry onto. -/
theorem not_put_of_rekeying {config : Config} (hi : Issuing h s) (hl : Linked config h s)
    (hk : Kept h s.registry s.supervisor.todo) {r : Replay} {newId : String}
    (hsup : s.supervisor = .rekeying r newId) : ¬ PutIn h newId := by
  have hsound := hl.supervisor
  rw [hsup] at hsound
  obtain ⟨⟨-, hissued⟩, hreturned⟩ := hsound
  intro hput
  rcases hl.returned_of_put hput with ⟨k, -, hreturned'⟩ | ⟨n, old, hx, -, hreturned'⟩
  · have hc := hl.returned_caller_unique hreturned' hreturned
    simp at hc
  · -- The replay moved its entry already, so the entry is not in the registry any more.
    obtain rfl := Caller.replay.inj (hl.returned_caller_unique hreturned' hreturned)
    obtain ⟨hissued', hgone⟩ := hi.moved _ _ _ hx
    obtain rfl := hi.old_unique hissued' (mem_issuedEntries.mpr hissued)
    refine hgone (hk.todo _ ?_)
    rw [hsup]
    exact List.mem_cons_self ..

/-- A call that is resumed puts nothing in the registry and goes on with the replay. -/
theorem progress (hi : Issuing h s) {c : Caller} {publication : String} {params : List Value}
    {call : SubCall} {s₁ : System} {p : Progress} (hp : s.Progresses c publication params call s₁ p)
    (hreplays : s'.replays = s₁.replays) (hregistry : s'.registry = s₁.registry)
    (htodo : s'.supervisor.todo = s.supervisor.todo) : Issuing (h ++ p.notes c) s' := by
  have hnotes : issuedEntries (p.notes c) = [] ∧ ∀ n old new, .rekeyed n old new ∉ p.notes c := by
    cases p <;> simp [Progress.notes, issuedEntries]
  refine hi.frame hnotes.1 hnotes.2 ?_ htodo fun id hid => .inl ?_
  · rw [hreplays, hp.frame]
  · rwa [hregistry, hp.same.1] at hid

/-- The entry that was dealt with leaves the list, and its new id was never put in. -/
theorem rekey {config : Config} (hi : Issuing h s) (hl : Linked config h s)
    (hk : Kept h s.registry s.supervisor.todo) {r : Replay} {newId : String} {s₁ : System}
    (hsup : s.supervisor = .rekeying r newId)
    (hs₁ : s₁ = { s with registry := (s.registry.rekey r.entry.1 newId).1 }) :
    Issuing (h ++ .rekeyed r.index r.entry.1 newId ::
        (s₁.loop r.epoch r.generation (r.restored + 1) r.rest).2)
      (s₁.loop r.epoch r.generation (r.restored + 1) r.rest).1 := by
  have htodo : s.supervisor.todo = r.entry.1 :: r.rest.map Prod.fst := by rw [hsup]; rfl
  have hold : r.entry.1 ∈ s.registry.ids := hk.todo _ (by rw [htodo]; exact List.mem_cons_self ..)
  have hnodup := hk.nodup
  rw [htodo] at hnodup
  have hsound := hl.supervisor
  rw [hsup] at hsound
  refine hi.loop hs₁ rfl (fun n old new hx => ?_) (fun id hid => ?_) _ _ _ _ (fun id hid => ?_)
    hk.put
  · obtain ⟨rfl, rfl, -⟩ := Note.rekeyed.inj hx
    exact ⟨mem_issuedEntries.mpr hsound.1.2, by rw [htodo]; rfl⟩
  · rcases (Registry.mem_rekey hold).mp hid with rfl | ⟨hne, hid⟩
    · exact .inr (hi.not_put_of_rekeying hl hk hsup)
    · refine .inl ⟨hid, ?_⟩
      rw [htodo]
      exact fun heq => hne (Option.some.inj heq).symm
  · -- The entries behind it are other ones, and stay.
    have hin : id ∈ s.registry.ids := hk.todo _ (by rw [htodo]; exact List.mem_cons_of_mem _ hid)
    refine ⟨(Registry.mem_rekey hold).mpr (.inr ⟨fun heq => ?_, hin⟩), hin⟩
    exact (List.nodup_cons.mp hnodup).1 (heq ▸ hid)

/-- An entry is removed, and the others stay as they are. -/
theorem remove (hi : Issuing h s) (hk : Kept h s.registry s.supervisor.todo) {r : Replay}
    {error : CallError} {s₁ : System} (hsup : s.supervisor = .removing r error)
    (hs₁ : s₁ = { s with registry := (s.registry.remove r.entry.1).1 }) :
    Issuing (h ++ .removed r.index r.entry.1 error ::
        (s₁.loop r.epoch r.generation r.restored r.rest).2)
      (s₁.loop r.epoch r.generation r.restored r.rest).1 := by
  have htodo : s.supervisor.todo = r.entry.1 :: r.rest.map Prod.fst := by rw [hsup]; rfl
  have hnodup := hk.nodup
  rw [htodo] at hnodup
  refine hi.loop hs₁ rfl (by simp) (fun id hid => ?_) _ _ _ _ (fun id hid => ?_) hk.put
  · obtain ⟨hne, hid⟩ := Registry.mem_remove.mp hid
    refine .inl ⟨hid, ?_⟩
    rw [htodo]
    exact fun heq => hne (Option.some.inj heq).symm
  · have hin : id ∈ s.registry.ids := hk.todo _ (by rw [htodo]; exact List.mem_cons_of_mem _ hid)
    refine ⟨Registry.mem_remove.mpr ⟨fun heq => ?_, hin⟩, hin⟩
    exact (List.nodup_cons.mp hnodup).1 (heq ▸ hid)

/-- **Every step keeps the replays apart.** -/
theorem move {config : Config} (hi : Issuing h s) (hl : Linked config h s)
    (hk : Kept h s.registry s.supervisor.todo) (hr : Recorded h s) (hm : s.Move o s') :
    Issuing (h ++ o) s' := by
  cases hm with
  | runner hw hoffer hs₁ hs' hnotes =>
    rw [System.state_forM_see, hs₁] at hs'
    refine hi.frame ?_ (fun n old new hx => ?_) ?_ ?_ (fun id hid => .inl ?_)
    · rw [issuedEntries, List.filterMap_eq_nil_iff]
      intro note hn
      rcases System.mem_runner hnotes hn with ⟨x, -, rfl⟩ | ⟨lost, left, rfl⟩ | rfl <;> rfl
    · rcases System.mem_runner hnotes hx with ⟨x, -, hx⟩ | ⟨lost, left, hx⟩ | hx <;> simp at hx
    · rw [hs']
    · rw [hs']
    · rw [hs'] at hid
      exact hid
  | @record k key id hcall =>
    refine hi.frame rfl (by simp) rfl rfl fun id' hid => ?_
    rcases Registry.mem_insert.mp hid with rfl | hid
    · exact .inr (not_put_of_recording hl hr hcall)
    · exact .inl hid
  | resume hcall hp => exact hi.progress hp rfl rfl (congrArg _ hp.same.2.1)
  | @issue r call s₁ p hsup hp =>
    refine hi.progress hp rfl rfl ?_
    rw [hsup]
    exact Supervisor.todo_after r p
  | @snapshot epoch g hsup =>
    -- Nothing was left to do, and every entry of the snapshot is live.
    have hnone : s.supervisor.todo = [] := by rw [hsup]; rfl
    refine hi.loop rfl rfl (by simp) (fun id hid => .inl ⟨hid, by simp [hnone]⟩) _ _ _ _
      (fun id hid => ?_) hk.put
    have hin := Registry.mem_toReplay.mp hid
    exact ⟨hin, hin⟩
  | rekey hsup hs₁ => exact hi.rekey hl hk hsup hs₁
  | remove hsup hs₁ => exact hi.remove hk hsup hs₁
  | @receive event ring hsup hrecv =>
    have htodo : (System.onEvent event).todo = s.supervisor.todo := by
      rw [hsup]
      rcases System.onEvent_cases event with ⟨_, -, he⟩ | ⟨_, -, he⟩ | ⟨_, _, -, he⟩ <;>
        rw [he] <;> rfl
    exact hi.frame rfl (by simp) rfl htodo fun id hid => .inl hid
  | lag hsup hrecv =>
    exact hi.frame rfl (by simp) rfl (by rw [hsup]; rfl) fun id hid => .inl hid
  | finish hsup =>
    refine hi.frame rfl (by simp) rfl ?_ fun id hid => .inl hid
    rcases hsup with ⟨hsup, -⟩ | ⟨event, terminal, hsup⟩ <;> rw [hsup] <;> rfl
  | lose hsup =>
    refine hi.frame rfl (by simp) rfl (by rw [hsup]; rfl) fun id hid => .inl ?_
    exact Registry.ids_connectionLost ▸ hid
  | @forward event terminal hsup =>
    refine hi.frame rfl (by simp) rfl ?_ fun id hid => .inl hid
    rw [hsup]
    cases terminal <;> rfl
  | _ => exact hi.frame rfl (by simp) rfl rfl fun id hid => .inl hid

end Issuing

/-- **Replays are kept apart**, in every state of every run. -/
theorem issuing_run {config : Config} {h : List Note} {s : System}
    (hrun : Run System.step (System.init config) h s) : Issuing h s := by
  induction hrun with
  | start => exact .init config
  | step hr hs ih =>
    exact ih.move (linked_run hr) (kept_run hr) (recorded_run hr) (System.step_move hs)

/-! ### What comes before a frame -/

section queued

variable {κ : Type} {cause : Cause}

/-- A frame that is passed to the sink was queued before, in the same generation. -/
def QueuedAt (pre : List (Seen κ)) (x : Seen κ) : Prop :=
  ∀ lane out accepted m, x.2 = .handed lane out accepted → out.mark = some m → m ∈ issuedOn x.1 pre

theorem queuedAt_of_not_handed {o h : List (Seen κ)}
    (ho : ∀ g lane out accepted, (g, .handed lane out accepted) ∉ o) :
    Each (fun pre x => QueuedAt (h ++ pre) x) o := by
  rintro pre ⟨g, y⟩ post hp lane out accepted m rfl
  exact absurd (by simp [hp]) (ho g lane out accepted)

theorem queuedAt_step {h o : List (Seen κ)} {w w' : Wire κ} (hf : Fates h w)
    (hs : Wire.Step cause w o w') : Each (fun pre x => QueuedAt (h ++ pre) x) o := by
  cases hs with
  | hand accepted hlive hready =>
    rcases w.hand_cases accepted with ⟨out, rest, hlane, ho, -⟩ | ⟨out, rest, -, hlane, ho, -⟩ |
      ⟨-, -, ho, -⟩
    · -- The frame that is handed over stood at the head of its lane.
      rw [ho, each_singleton, List.append_nil]
      intro lane out' accepted' m hx hm
      obtain ⟨-, rfl, -⟩ := Obs.handed.inj hx
      exact hf.queued m (Wire.mem_queueMarks.mpr (.inl ⟨out, by simp [hlane], hm⟩))
    · rw [ho, each_singleton, List.append_nil]
      intro lane out' accepted' m hx hm
      obtain ⟨-, rfl, -⟩ := Obs.handed.inj hx
      exact hf.queued m (Wire.mem_queueMarks.mpr (.inr ⟨out, by simp [hlane], hm⟩))
    · rw [ho]
      exact each_nil
  | answer ha =>
    refine queuedAt_of_not_handed fun g lane out accepted hx => ?_
    exact (Wire.obs_answer_of_mem hx).2 trivial
  | settle why session hlive =>
    refine queuedAt_of_not_handed fun g lane out accepted hx => ?_
    exact (Wire.obs_settle_of_mem hx).2 trivial
  | take command dropped =>
    refine queuedAt_of_not_handed fun g lane out accepted hx => ?_
    rcases w.take_cases command dropped with ⟨ho, -⟩ | ⟨_, -, ho, -⟩ | ⟨_, ho, -⟩ |
      ⟨_, _, -, -, ho, -⟩
    all_goals simp [ho] at hx
  | login params hphase => exact queuedAt_of_not_handed (by simp [Wire.obs_login])
  | _ => exact queuedAt_of_not_handed (by simp)

/-- **Frames are queued before they are written**, in every run. -/
theorem queuedAt_run {config : Config} {h : List (Seen κ)} {w : World κ}
    (hrun : Run World.step (World.init config) h w) : Each QueuedAt h :=
  (World.wire_invariant (I := fun h w => Ledger h w ∧ Each QueuedAt h) ⟨.init, each_nil⟩
    (fun hI hs => ⟨hI.1.step hs, each_append.mpr ⟨hI.2, queuedAt_step hI.1.fates hs⟩⟩) hrun).2

/-- A caller's frame was taken before it is written. -/
theorem Ledger.took_before {h pre post : List (Seen κ)} {w : Wire κ} (hl : Ledger h w)
    (hq : Each QueuedAt h) {g g' : ℕ} {lane : Lane} {out : Outbound} {accepted : Bool} {c : κ}
    {m : Mark} (hh : h = pre ++ (g, .handed lane out accepted) :: post)
    (hm : out.mark = some m) (ht : TookOn g' h c m) : TookOn g' pre c m := by
  have hissued : m ∈ issued pre := issuedOn_subset (hq pre _ post hh lane out accepted m rfl hm)
  obtain ⟨y, hy, hread⟩ := List.mem_filterMap.mp hissued
  obtain ⟨command, phase, out', hx, hack, hm'⟩ := ht
  have hy' : y ∈ h := by
    rw [hh]
    exact List.mem_append_left _ hy
  have heq := eq_of_nodup_filterMap hl.ids.nodup hy' hx hread hm'
  exact ⟨command, phase, out', heq ▸ hy, hack, hm'⟩

/-- No frame is written twice. -/
theorem Ledger.nodup_writtenMarks {h : List (Seen κ)} {w : Wire κ} (hl : Ledger h w) (g : ℕ) :
    (writtenMarks g h).Nodup := by
  -- What is written was handed over, and what was handed over was accepted,
  have haccepted : ((acceptedFrames h).filterMap Outbound.mark).Sublist (issued h) := by
    rw [acceptedFrames, List.filterMap_filterMap]
    refine sublist_filterMap h ?_
    rintro ⟨g', y⟩ m hx
    obtain ⟨out, hread, hm⟩ := Option.bind_eq_some_iff.mp hx
    split at hread
    · next heq =>
      obtain ⟨rfl, rfl⟩ := Prod.mk.inj heq
      rw [hread]
      exact hm
    · simp at hread
  have hhanded : (writtenMarks g h).Sublist ((handedApp h).filterMap Outbound.mark) := by
    rw [handedApp, List.filterMap_filterMap]
    refine sublist_filterMap h ?_
    rintro ⟨g', y⟩ m hx
    split at hx
    · next heq =>
      obtain ⟨rfl, rfl⟩ := Prod.mk.inj heq
      exact (Option.ite_none_right_eq_some.mp hx).2
    · simp at hx
  have happ : (handedApp h).Sublist (acceptedFrames h) :=
    (List.sublist_append_left _ _).trans hl.queues.app
  -- and no mark is accepted twice.
  exact hl.ids.nodup.sublist (hhanded.trans ((happ.filterMap _).trans haccepted))

end queued

/-- Only the runner shows what the runner does, and it begins no replay. -/
theorem System.Move.wires_or_replays {s s' : System} {o : List Note} (hm : s.Move o s') :
    wires o = [] ∨ s'.replays = s.replays := by
  cases hm with
  | runner hw hoffer hs₁ hs' hnotes =>
    rw [state_forM_see, hs₁] at hs'
    exact .inr (by rw [hs'])
  | resume hcall hp => exact .inl (wires_notes _ _)
  | issue hsup hp => exact .inl (wires_notes _ _)
  | snapshot hsup => exact .inl (wires_loop rfl _ _ _ _ _)
  | rekey hsup hs₁ => exact .inl (wires_loop rfl _ _ _ _ _)
  | remove hsup hs₁ => exact .inl (wires_loop rfl _ _ _ _ _)
  | _ => exact .inl rfl

/-- The id that a replay re-issues was answered. -/
theorem Issuing.answered {config : Config} {h : List Note} {s : System} (hi : Issuing h s)
    (hl : Linked config h s) {n : ℕ} {old : String} (hx : (n, old) ∈ issuedEntries h) :
    ∃ g, AnsweredOn g (wires h) ⟨.subs, old⟩ := by
  rcases hl.returned_of_put (hi.put _ hx) with ⟨k, -, hreturned⟩ | ⟨n', old', -, -, hreturned⟩
  · obtain ⟨g, -, hanswered⟩ := hl.established hreturned
    exact ⟨g, hanswered⟩
  · obtain ⟨g, -, hanswered⟩ := hl.established hreturned
    exact ⟨g, hanswered⟩

/-- When the command of a replay is taken, the replay has begun, and the id it re-issues was
answered. -/
def BeginsFirst (h : List Note) : Prop :=
  ∀ pre post, h = pre ++ post → ∀ g n m, TookOn g (wires pre) (.replay n) m →
    ∃ old g', (n, old) ∈ issuedEntries pre ∧ AnsweredOn g' (wires pre) ⟨.subs, old⟩

theorem beginsFirst_run {config : Config} {h : List Note} {s : System}
    (hrun : Run System.step (System.init config) h s) : BeginsFirst h := by
  induction hrun with
  | start =>
    intro pre post hp g n m htook
    obtain ⟨rfl, rfl⟩ := List.append_eq_nil_iff.mp hp.symm
    obtain ⟨_, _, _, hx, -⟩ := htook
    simp [wires] at hx
  | @step h s s' i o hr hs ih =>
    intro pre post hp g n m htook
    rcases List.append_eq_append_iff.mp hp with ⟨l, rfl, hl⟩ | ⟨l, rfl, -⟩
    · have hprefix : ∃ old g', (n, old) ∈ issuedEntries h ∧
          AnsweredOn g' (wires h) ⟨.subs, old⟩ := by
        rcases (System.step_move hs).wires_or_replays with hwires | hreplays
        · have hnil : wires l = [] := by
            rw [hl, wires_append] at hwires
            exact (List.append_eq_nil_iff.mp hwires).1
          rw [wires_append, hnil, List.append_nil] at htook
          exact ih h [] (List.append_nil h).symm g n m htook
        · -- The runner takes the command of a replay that was counted before the step.
          have htook' : TookOn g (wires (h ++ o)) (.replay n) m := by
            rw [hp, wires_append]
            exact htook.mono
          have hposted : n < s'.replays := ((linked_run (hr.step hs)).posted_of_took htook').1
          obtain ⟨old, hissued⟩ := (issuing_run hr).exists_old (hreplays ▸ hposted)
          obtain ⟨g', hanswered⟩ := (issuing_run hr).answered (linked_run hr) hissued
          exact ⟨old, g', hissued, hanswered⟩
      obtain ⟨old, g', hissued, hanswered⟩ := hprefix
      refine ⟨old, g', ?_, ?_⟩
      · rw [issuedEntries_append]
        exact List.mem_append_left _ hissued
      · rw [wires_append]
        exact hanswered.mono
    · exact ih pre l rfl g n m htook

/-! ### The chain of a call -/

section chain

variable {config : Config} {h : List Note} {s : System} {c c' : Caller}

/-- What a caller was given is re-issued by one replay. -/
theorem reissues_unique (hl : Linked config h s) (hi : Issuing h s) :
    Relator.RightUnique (Reissues h) := by
  rintro c c₁ c₂ ⟨id, n, hid, hissued, rfl⟩ ⟨id', n', hid', hissued', rfl⟩
  obtain rfl := hl.returned_id_unique (mem_returnedIds.mp hid) (mem_returnedIds.mp hid')
  rw [hi.number_unique hissued hissued']

/-- The command of a replay is taken in the generation that answered the id it re-issues, or
later. -/
theorem generation_le_of_reissues (hl : Linked config h s) (hi : Issuing h s)
    (hb : BeginsFirst h) {n : ℕ} {old : String} (hissued : (n, old) ∈ issuedEntries h)
    {g g' : ℕ} {m : Mark} (ha : AnsweredOn g (wires h) ⟨.subs, old⟩)
    (ht : TookOn g' (wires h) (.replay n) m) : g ≤ g' := by
  obtain ⟨command, phase, out, hx, hack, hm⟩ := ht
  obtain ⟨l, r, hsplit⟩ := List.append_of_mem hx
  obtain ⟨pre, post, rfl, rfl⟩ := wires_split hsplit
  -- The answer came before the command was taken.
  obtain ⟨old', g₀, hissued', message, waiter, reply, hanswered⟩ :=
    hb (pre ++ [.wire (g', .took command phase (some out))]) post (by simp) g' n m
      ⟨command, phase, out, by simp [wires], hack, hm⟩
  have hsame : issuedEntries (pre ++ [.wire (g', .took command phase (some out))]) =
      issuedEntries pre := by simp [issuedEntries]
  have hbefore : (g₀, .settled (some message) ⟨.subs, old'⟩ waiter reply) ∈ wires pre := by
    simpa [wires] using hanswered
  rw [hsame] at hissued'
  obtain rfl : old' = old := by
    refine hi.old_unique ?_ hissued
    rw [issuedEntries_append]
    exact List.mem_append_left _ hissued'
  have hanswered' : AnsweredOn g₀ (wires (pre ++
      .wire (g', .took command phase (some out)) :: post)) ⟨.subs, old'⟩ := by
    rw [wires_append]
    exact AnsweredOn.mono ⟨message, waiter, reply, hbefore⟩
  obtain rfl := (World.attended hl.run).1.answered_unique ha hanswered'
  have hsorted := (tagged_run hl.run).sorted
  rw [hsplit] at hsorted
  exact (List.pairwise_append.mp hsorted).2.2 _ hbefore _ (List.mem_cons_self ..)

/-- **The frames of a chain are taken in generations that never decrease.** -/
theorem generation_le_of_chain (hl : Linked config h s) (hi : Issuing h s) (hb : BeginsFirst h)
    (hchain : Relation.ReflTransGen (Reissues h) c c') {g g' : ℕ} {m m' : Mark}
    (ht : TookOn g (wires h) c m) (ht' : TookOn g' (wires h) c' m') : g ≤ g' := by
  induction hchain generalizing g' m' with
  | refl => exact (hl.took_unique ht ht').1.le
  | tail hchain hnext ih =>
    obtain ⟨id, n, hid, hissued, rfl⟩ := hnext
    obtain ⟨g₀, htook, hanswered⟩ := hl.established (mem_returnedIds.mp hid)
    exact (ih htook).trans (generation_le_of_reissues hl hi hb hissued hanswered ht')

/-- Of two frames of a chain that were taken in one generation, the later is of a replay that
re-issues what this generation answered. -/
theorem echo_of_chain (hl : Linked config h s) (hi : Issuing h s) (hb : BeginsFirst h)
    (hchain : Relation.ReflTransGen (Reissues h) c c') {g : ℕ} {m m' : Mark}
    (ht : TookOn g (wires h) c m) (ht' : TookOn g (wires h) c' m') (hne : m ≠ m') :
    ∃ n old, c' = .replay n ∧ (n, old) ∈ issuedEntries h ∧
      AnsweredOn g (wires h) ⟨.subs, old⟩ := by
  rcases hchain.cases_tail with rfl | ⟨b, hbefore, id, n, hid, hissued, rfl⟩
  · exact absurd (hl.took_unique ht ht').2 hne
  · obtain ⟨g₀, htook, hanswered⟩ := hl.established (mem_returnedIds.mp hid)
    have hge : g ≤ g₀ := generation_le_of_chain hl hi hb hbefore ht htook
    have hle : g₀ ≤ g := generation_le_of_reissues hl hi hb hissued hanswered ht'
    obtain rfl : g₀ = g := by omega
    exact ⟨n, id, rfl, hissued, hanswered⟩

end chain

/-- A replay that re-issues what a connection answered does not write its `sub` there. -/
theorem not_written_of_needed {config : Config} {h : List Note} {s : System}
    (hrun : Run System.step (System.init config) h s) (hneeded : Needed h) {g n : ℕ}
    {old : String} {m : Mark} (hissued : (n, old) ∈ issuedEntries h)
    (ha : AnsweredOn g (wires h) ⟨.subs, old⟩) (ht : TookOn g (wires h) (.replay n) m) :
    m ∉ writtenMarks g (wires h) := by
  have hl := linked_run hrun
  have hledger := (World.attended hl.run).1
  intro hwritten
  obtain ⟨out, accepted, hx, hm⟩ := mem_writtenMarks.mp hwritten
  obtain ⟨l, r, hsplit⟩ := List.append_of_mem hx
  have hbefore := hledger.took_before (queuedAt_run hl.run) hsplit hm ht
  obtain ⟨pre, post, hpre, rfl⟩ := wires_split hsplit
  obtain ⟨old', g₀, hissued', hanswered⟩ := beginsFirst_run hrun pre _ hpre g n m hbefore
  obtain rfl : old' = old := by
    refine (issuing_run hrun).old_unique ?_ hissued
    rw [hpre, issuedEntries_append]
    exact List.mem_append_left _ hissued'
  have hanswered' : AnsweredOn g₀ (wires h) ⟨.subs, old'⟩ := by
    rw [hpre, wires_append]
    exact hanswered.mono
  obtain rfl := hledger.answered_unique ha hanswered'
  have hat : NeededAt pre (.wire (g, .handed .app out accepted)) := hneeded pre _ post hpre
  exact hat _ (mem_tookMarks.mpr hbefore) hm _ hissued' rfl (mem_answeredMarks.mpr hanswered)

/-- **One `sub` for a call, on every connection**, in every run whose replays write only what
the connection did not answer. -/
theorem single_of_needed {config : Config} {h : List Note} {s : System}
    (hrun : Run System.step (System.init config) h s) (hneeded : Needed h) : Single h := by
  have hl := linked_run hrun
  have hi := issuing_run hrun
  have hb := beginsFirst_run hrun
  intro g
  refine ((World.attended hl.run).1.nodup_writtenMarks g).pairwise_of_forall_ne ?_
  rintro m hm m' hm' hne k ⟨c, hc, htook⟩ ⟨c', hc', htook'⟩
  rcases hc.total_of_right_unique (reissues_unique hl hi) hc' with hchain | hchain
  · obtain ⟨n, old, rfl, hissued, hanswered⟩ := echo_of_chain hl hi hb hchain htook htook' hne
    exact not_written_of_needed hrun hneeded hissued hanswered htook' hm'
  · obtain ⟨n, old, rfl, hissued, hanswered⟩ :=
      echo_of_chain hl hi hb hchain htook' htook hne.symm
    exact not_written_of_needed hrun hneeded hissued hanswered htook hm

/-! ### Two runs -/

theorem replaysOne_enabled :
    (execute System.step (System.init demoConfig) replaysOne).isSome := by
  decide +kernel

/-- A call is replayed on a second connection: each of the two carries one `sub` for it. -/
theorem single_replaysOne : ∃ (h : List Note) (s : System),
    Run System.step (System.init demoConfig) h s ∧ Needed h ∧ issuedEntries h = [(0, "s0")] ∧
      writtenMarks 0 (wires h) = [⟨.subs, "s0"⟩] ∧ writtenMarks 1 (wires h) = [⟨.subs, "s1"⟩] ∧
      Single h := by
  have hrun := run_execute replaysOne replaysOne_enabled
  have hneeded : Needed ((execute System.step (System.init demoConfig) replaysOne).get
      replaysOne_enabled).2 := by decide +kernel
  exact ⟨_, _, hrun, hneeded, by decide +kernel, by decide +kernel, by decide +kernel,
    single_of_needed hrun hneeded⟩

/-- A subscription is made, acknowledged and recorded before the supervisor reads the first
event of the connection. -/
def replayedBehind : List Label :=
  connects "m0" ++ subscribes ++ [hears (.ready ["s0"]), .resume 0, .resume 0] ++
    List.replicate 9 .supervise ++ unwritten ++ [.poll none true false false] ++ written

theorem replayedBehind_enabled :
    (execute System.step (System.init demoConfig) replayedBehind).isSome := by
  decide +kernel

/-- **A connection that becomes ready late for its supervisor gets two**: the replay finds the
subscription that was made in the meantime, and writes a second `sub` for it. -/
theorem not_single : ¬ ∀ (config : Config) (h : List Note) (s : System),
    Run System.step (System.init config) h s → Single h := by
  intro hall
  have hsingle := hall _ _ _ (run_execute replayedBehind replayedBehind_enabled) 0
  have hwritten : writtenMarks 0 (wires ((execute System.step (System.init demoConfig)
      replayedBehind).get replayedBehind_enabled).2) = [⟨.subs, "s0"⟩, ⟨.subs, "s1"⟩] := by
    decide +kernel
  rw [hwritten, List.pairwise_pair] at hsingle
  refine hsingle 0 ⟨.subscribe 0, .refl, mem_tookMarks.mp ?_⟩
    ⟨.replay 0, .single ⟨"s0", 0, ?_, ?_, rfl⟩, mem_tookMarks.mp ?_⟩
  · decide +kernel
  · decide +kernel
  · decide +kernel
  · decide +kernel

end RocketSocket
