import RocketSocket.Realtime.ClientRun

/-!
# What the registry remembers

Entries enter the registry when a call of `Client::subscribe` returns, and only replays move
or remove them.  A replay removes an entry whatever the error of its `sub` was: a connection
that dies in the middle of a replay costs the entry that was being re-issued.

## Main definitions

* `Supervisor.todo` — the entries a replay still has to re-issue.
* `Registering` — what a step does to the registry.
* `Kept` — an entry is remembered, under the id it was moved to, until a replay removes it.
* `Durable` — it is removed only because the server refused it.
* `Restores` — no connection ends, and the runner does not stop, in the middle of a replay.

## Main results

* `System.Move.registering` — **what a step does to the registry.**
* `Kept.step` — every step keeps the entries.
* `durable_of_restores` — **only refusals remove entries, when replays are not cut off.**
* `not_durable` — a connection lost in the middle of a replay removes one.
-/

namespace RocketSocket

open Machine

/-! ### Steps of the registry -/

/-- The entries a replay still has to re-issue, the one it is at first. -/
def Supervisor.todo : Supervisor → List String
  | .issuing r _ | .rekeying r _ | .removing r _ => r.entry.1 :: r.rest.map Prod.fst
  | _ => []

@[simp] theorem Supervisor.todo_after (r : Replay) (p : Progress) :
    (Supervisor.after r p).todo = r.entry.1 :: r.rest.map Prod.fst := by
  match p with
  | .goesOn _ | .returns (.ok _) | .returns (.error _) => rfl

@[simp] theorem Supervisor.replay_after (r : Replay) (p : Progress) :
    (Supervisor.after r p).replay = some r := by
  match p with
  | .goesOn _ | .returns (.ok _) | .returns (.error _) => rfl

@[simp] theorem Supervisor.generation_after (r : Replay) (p : Progress) :
    (Supervisor.after r p).generation = some r.generation := by
  match p with
  | .goesOn _ | .returns (.ok _) | .returns (.error _) => rfl

/-- The note is about the registry. -/
def Note.Registers : Note → Prop
  | .inserted .. | .replayStarted .. | .rekeyed .. | .removed .. => True
  | _ => False

/-- What a step does to the registry, and to what a replay still has to re-issue. -/
inductive Registering : Registry → List String → List Note → Registry → List String → Prop
  | quiet {r r' : Registry} {todo : List String} {o : List Note} :
    (∀ note ∈ o, ¬ note.Registers) → r'.ids = r.ids → Registering r todo o r' todo
  | insert {r : Registry} {todo : List String} (k : ℕ) (id : String) (key : StreamKey) :
    Registering r todo [.inserted k id] (r.insert id key key.params) todo
  | snapshot {r : Registry} (g : ℕ) {o : List Note} : (∀ note ∈ o, ¬ note.Registers) →
    Registering r [] (.replayStarted g (r.toReplay.map Prod.fst) :: o) r
      (r.toReplay.map Prod.fst)
  | rekey {r : Registry} {todo : List String} {o : List Note} (n : ℕ) (old new : String) :
    (∀ note ∈ o, ¬ note.Registers) →
    Registering r (old :: todo) (.rekeyed n old new :: o) (r.rekey old new).1 todo
  | remove {r : Registry} {todo : List String} {o : List Note} (n : ℕ) (old : String)
    (error : CallError) : (∀ note ∈ o, ¬ note.Registers) →
    Registering r (old :: todo) (.removed n old error :: o) (r.remove old).1 todo

namespace System

variable {s s' : System} {o : List Note}

@[simp] theorem registry_loop (s : System) (epoch : Epoch) (g restored : ℕ)
    (entries : List Replayed) : (s.loop epoch g restored entries).1.registry = s.registry := by
  cases entries <;> rfl

@[simp] theorem todo_loop (s : System) (epoch : Epoch) (g restored : ℕ)
    (entries : List Replayed) :
    (s.loop epoch g restored entries).1.supervisor.todo = entries.map Prod.fst := by
  cases entries <;> rfl

theorem not_registers_loop (s : System) (epoch : Epoch) (g restored : ℕ)
    (entries : List Replayed) : ∀ note ∈ (s.loop epoch g restored entries).2,
    ¬ note.Registers := by
  cases entries <;> simp [loop, Note.Registers]

theorem not_registers_notes (c : Caller) (p : Progress) :
    ∀ note ∈ p.notes c, ¬ note.Registers := by
  cases p <;> simp [Progress.notes, Note.Registers]

/-- A call of `Connection::subscribe` leaves the registry, the supervisor and the ring
alone. -/
theorem Progresses.same {c : Caller} {name : String} {params : List Value} {call : SubCall}
    {s₁ : System} {p : Progress} (hp : s.Progresses c name params call s₁ p) :
    s₁.registry = s.registry ∧ s₁.supervisor = s.supervisor ∧ s₁.ring = s.ring := by
  rw [hp.frame]
  exact ⟨rfl, rfl, rfl⟩

/-- **What a step does to the registry.** -/
theorem Move.registering (hm : s.Move o s') :
    Registering s.registry s.supervisor.todo o s'.registry s'.supervisor.todo := by
  have hnil : ∀ note ∈ ([] : List Note), ¬ note.Registers := by simp
  cases hm with
  | @runner input world o s₁ s' notes hw hoffer hs₁ hs' hnotes =>
    rw [state_forM_see, hs₁] at hs'
    rw [hs']
    refine .quiet (fun note hn => ?_) rfl
    rcases mem_runner hnotes hn with ⟨x, -, rfl⟩ | ⟨lost, left, rfl⟩ | rfl <;>
      simp [Note.Registers]
  | record hcall => exact .insert _ _ _
  | @resume k key call s₁ p hcall hp =>
    obtain ⟨hregistry, hsup, -⟩ := hp.same
    show Registering s.registry s.supervisor.todo _ s₁.registry s₁.supervisor.todo
    rw [hregistry, hsup]
    exact .quiet (not_registers_notes _ p) rfl
  | receive hsup hrecv =>
    rename_i event ring
    -- An event that is received begins with nothing to do.
    have htodo : (onEvent event).todo = [] := by
      rcases onEvent_cases event with ⟨_, -, he⟩ | ⟨_, -, he⟩ | ⟨_, _, -, he⟩ <;>
        rw [he] <;> rfl
    show Registering s.registry s.supervisor.todo _ s.registry (onEvent event).todo
    rw [htodo, hsup]
    exact .quiet (by simp [Note.Registers]) rfl
  | lag hsup hrecv =>
    rw [hsup]
    exact .quiet hnil rfl
  | finish hsup =>
    rcases hsup with ⟨hsup, -⟩ | ⟨event, terminal, hsup⟩ <;> rw [hsup] <;> exact .quiet hnil rfl
  | lose hsup =>
    rw [hsup]
    exact .quiet hnil Registry.ids_connectionLost
  | snapshot hsup =>
    rw [hsup, registry_loop, todo_loop]
    exact .snapshot _ (not_registers_loop _ _ _ _ _)
  | @issue r call s₁ p hsup hp =>
    have htodo : (Supervisor.after r p).todo = s.supervisor.todo := by
      rw [hsup, Supervisor.todo_after]
      rfl
    show Registering s.registry s.supervisor.todo _ s₁.registry (Supervisor.after r p).todo
    rw [hp.same.1, htodo]
    exact .quiet (not_registers_notes _ p) rfl
  | rekey hsup hs₁ =>
    rw [hsup, registry_loop, todo_loop, hs₁]
    exact .rekey _ _ _ (not_registers_loop _ _ _ _ _)
  | remove hsup hs₁ =>
    rw [hsup, registry_loop, todo_loop, hs₁]
    exact .remove _ _ _ (not_registers_loop _ _ _ _ _)
  | @forward event terminal hsup =>
    rw [hsup]
    cases terminal <;> exact .quiet hnil rfl
  | _ => exact .quiet hnil rfl

end System

/-! ### What becomes of an entry -/

/-- The ids an entry that was recorded under `id` went through. -/
inductive Became (h : List Note) (id : String) : String → Prop
  | self : Became h id id
  | rekeyed {n : ℕ} {old new : String} :
    Became h id old → .rekeyed n old new ∈ h → Became h id new

/-- An id was put into the registry. -/
def PutIn (h : List Note) (id : String) : Prop :=
  (∃ k, .inserted k id ∈ h) ∨ ∃ n old, .rekeyed n old id ∈ h

/-- An entry is remembered until a replay removes it, and what a replay still has to re-issue
is remembered, once each. -/
structure Kept (h : List Note) (r : Registry) (todo : List String) : Prop where
  nodup : todo.Nodup
  todo : ∀ id ∈ todo, id ∈ r.ids
  kept : ∀ k id, .inserted k id ∈ h → ∃ now, Became h id now ∧
    (now ∈ r.ids ∨ ∃ n error, .removed n now error ∈ h)
  put : ∀ id ∈ r.ids, PutIn h id

theorem Became.mono {h o : List Note} {id now : String} (hb : Became h id now) :
    Became (h ++ o) id now := by
  induction hb with
  | self => exact .self
  | rekeyed _ hx ih => exact .rekeyed ih (List.mem_append_left _ hx)

theorem PutIn.mono {h o : List Note} {id : String} (hp : PutIn h id) : PutIn (h ++ o) id := by
  rcases hp with ⟨k, hx⟩ | ⟨n, old, hx⟩
  · exact .inl ⟨k, List.mem_append_left _ hx⟩
  · exact .inr ⟨n, old, List.mem_append_left _ hx⟩

namespace Kept

variable {h o : List Note} {r r' : Registry} {todo todo' : List String}

theorem init : Kept [] .new [] := ⟨List.nodup_nil, by simp, by simp, by simp⟩

/-- An entry that was remembered still is, unless the step moved or removed it. -/
theorem kept_append (hk : Kept h r todo) (hnew : ∀ k id, .inserted k id ∈ o → id ∈ r'.ids)
    (hold : ∀ id ∈ r.ids, id ∈ r'.ids ∨ (∃ n new, .rekeyed n id new ∈ o ∧ new ∈ r'.ids) ∨
      ∃ n error, .removed n id error ∈ o) (k : ℕ) (id : String)
    (hx : .inserted k id ∈ h ++ o) : ∃ now, Became (h ++ o) id now ∧
      (now ∈ r'.ids ∨ ∃ n error, .removed n now error ∈ h ++ o) := by
  rcases List.mem_append.mp hx with hx | hx
  · obtain ⟨now, hbecame, hnow | ⟨n, error, hremoved⟩⟩ := hk.kept k id hx
    · rcases hold now hnow with hnow | ⟨n, new, hmoved, hnew⟩ | ⟨n, error, hremoved⟩
      · exact ⟨now, hbecame.mono, .inl hnow⟩
      · exact ⟨new, .rekeyed hbecame.mono (List.mem_append_right _ hmoved), .inl hnew⟩
      · exact ⟨now, hbecame.mono, .inr ⟨n, error, List.mem_append_right _ hremoved⟩⟩
    · exact ⟨now, hbecame.mono, .inr ⟨n, error, List.mem_append_left _ hremoved⟩⟩
  · exact ⟨id, .self, .inl (hnew k id hx)⟩

/-- **Every step keeps the entries.** -/
theorem step (hk : Kept h r todo) (hs : Registering r todo o r' todo') :
    Kept (h ++ o) r' todo' := by
  -- What is not about the registry puts no entry into it.
  have hnone : ∀ {note : Note} {o : List Note}, note.Registers →
      (∀ note ∈ o, ¬ note.Registers) → note ∉ o := fun hn ho hx => ho _ hx hn
  cases hs with
  | quiet ho hids =>
    refine ⟨hk.nodup, fun id hid => hids ▸ hk.todo id hid, ?_, fun id hid => ?_⟩
    · refine hk.kept_append (fun k id hx => absurd trivial (ho _ hx)) fun id hid => .inl ?_
      exact hids ▸ hid
    · exact (hk.put id (hids ▸ hid)).mono
  | insert k id key =>
    refine ⟨hk.nodup, fun id' hid => Registry.mem_insert.mpr (.inr (hk.todo id' hid)), ?_, ?_⟩
    · refine hk.kept_append (fun k' id' hx => ?_) fun id' hid =>
        .inl (Registry.mem_insert.mpr (.inr hid))
      obtain ⟨rfl, rfl⟩ := Note.inserted.inj (List.mem_singleton.mp hx)
      exact Registry.mem_insert.mpr (.inl rfl)
    · intro id' hid
      rcases Registry.mem_insert.mp hid with rfl | hid
      · exact .inl ⟨k, by simp⟩
      · exact (hk.put id' hid).mono
  | snapshot g ho =>
    refine ⟨Registry.nodup_toReplay, fun id hid => Registry.mem_toReplay.mp hid, ?_,
      fun id hid => (hk.put id hid).mono⟩
    refine hk.kept_append (fun k id hx => ?_) fun id hid => .inl hid
    rcases List.mem_cons.mp hx with hx | hx
    · simp at hx
    · exact absurd trivial (ho _ hx)
  | rekey n old new ho =>
    have hold : old ∈ r.ids := hk.todo old (List.mem_cons_self ..)
    obtain ⟨hnotin, hnodup⟩ := List.nodup_cons.mp hk.nodup
    refine ⟨hnodup, fun id hid => ?_, ?_, fun id hid => ?_⟩
    · refine (Registry.mem_rekey hold).mpr (.inr ⟨fun heq => hnotin (heq ▸ hid), ?_⟩)
      exact hk.todo id (List.mem_cons_of_mem _ hid)
    · refine hk.kept_append (fun k id hx => ?_) fun id hid => ?_
      · rcases List.mem_cons.mp hx with hx | hx
        · simp at hx
        · exact absurd trivial (ho _ hx)
      · by_cases heq : id = old
        · refine .inr (.inl ⟨n, new, heq ▸ List.mem_cons_self .., ?_⟩)
          exact (Registry.mem_rekey hold).mpr (.inl rfl)
        · exact .inl ((Registry.mem_rekey hold).mpr (.inr ⟨heq, hid⟩))
    · rcases (Registry.mem_rekey hold).mp hid with rfl | ⟨-, hid⟩
      · exact .inr ⟨n, old, by simp⟩
      · exact (hk.put id hid).mono
  | remove n old error ho =>
    obtain ⟨hnotin, hnodup⟩ := List.nodup_cons.mp hk.nodup
    refine ⟨hnodup, fun id hid => ?_, ?_, fun id hid => ?_⟩
    · refine Registry.mem_remove.mpr ⟨fun heq => hnotin (heq ▸ hid), ?_⟩
      exact hk.todo id (List.mem_cons_of_mem _ hid)
    · refine hk.kept_append (fun k id hx => ?_) fun id hid => ?_
      · rcases List.mem_cons.mp hx with hx | hx
        · simp at hx
        · exact absurd trivial (ho _ hx)
      · by_cases heq : id = old
        · exact .inr (.inr ⟨n, error, heq ▸ List.mem_cons_self ..⟩)
        · exact .inl (Registry.mem_remove.mpr ⟨heq, hid⟩)
    · exact (hk.put id (Registry.mem_remove.mp hid).2).mono

end Kept

/-- Every state of every run keeps the entries. -/
theorem kept_run {config : Config} {h : List Note} {s : System}
    (hrun : Run System.step (System.init config) h s) :
    Kept h s.registry s.supervisor.todo :=
  hrun.invariant (I := fun h (s : System) => Kept h s.registry s.supervisor.todo) .init
    fun hk hs => hk.step (System.step_move hs).registering

/-! ### Durable subscriptions -/

/-- A replay removes an entry only when the server refused the `sub` it was re-issued
with. -/
def RefusedAt (pre : List Note) : Note → Prop
  | .removed n old error => .issued n old ∈ pre ∧ ∃ g id e, error = .server e ∧
    TookOn g (wires pre) (.replay n) ⟨.subs, id⟩ ∧
    (g, .received (.nosub id (some e))) ∈ wires pre
  | _ => True

/-- **Forgotten only when the server refuses**: an entry that `Client::subscribe` recorded is
remembered, under the id it was moved to, unless a replay removed it; and a replay removes
only what the server refused. -/
structure Durable (h : List Note) (s : System) : Prop where
  kept : ∀ k id, .inserted k id ∈ h → ∃ now, Became h id now ∧
    (now ∈ s.registry.ids ∨ ∃ n error, .removed n now error ∈ h)
  refused : Each RefusedAt h

/-- The caller is a replay. -/
def Caller.isReplay : Caller → Bool
  | .replay _ => true
  | _ => false

/-- The callers that were sent a reply. -/
def repliedTo (h : List (Seen Caller)) : List Caller :=
  h.filterMap fun
    | (_, .settled _ _ (.caller c) _) => some c
    | _ => none

/-- The replays that began to re-issue an entry. -/
def issuedReplays (h : List Note) : List Caller :=
  h.filterMap fun
    | .issued n _ => some (.replay n)
    | _ => none

/-- The runner stopped. -/
def hasStopped (h : List Note) : Bool :=
  h.any fun
    | .stopped => true
    | _ => false

/-- When a generation ends, every `sub` that replays issued on it was answered; when the
runner stops, every replay was sent its reply; and none begins after that. -/
def RestoresAt (pre : List Note) : Note → Prop
  | .wire (g, .ended _) => ∀ x ∈ tookMarks g (wires pre), x.1.isReplay = true →
    x.2 ∈ answeredMarks g (wires pre)
  | .stopped => ∀ c ∈ issuedReplays pre, c ∈ repliedTo (wires pre)
  | .issued .. => hasStopped pre = false
  | _ => True

instance (pre : List Note) : (x : Note) → Decidable (RestoresAt pre x)
  | .wire (g, .ended _) => inferInstanceAs (Decidable (∀ x ∈ tookMarks g (wires pre),
      x.1.isReplay = true → x.2 ∈ answeredMarks g (wires pre)))
  | .stopped => inferInstanceAs
    (Decidable (∀ c ∈ issuedReplays pre, c ∈ repliedTo (wires pre)))
  | .issued .. => inferInstanceAs (Decidable (hasStopped pre = false))
  | .wire (_, .opened) | .wire (_, .received _) | .wire (_, .pushed _) | .wire (_, .took ..)
  | .wire (_, .handed ..) | .wire (_, .settled ..) | .wire (_, .emitted _) | .overwrote ..
  | .returned .. | .inserted .. | .received _ | .replayStarted .. | .rekeyed ..
  | .removed .. | .replayed .. => isTrue trivial

/-- No connection ends, and the runner does not stop, in the middle of a replay. -/
def Restores (h : List Note) : Prop := Each RestoresAt h

instance (h : List Note) : Decidable (Restores h) :=
  inferInstanceAs (Decidable (Each RestoresAt h))

theorem mem_repliedTo {h : List (Seen Caller)} {c : Caller} :
    c ∈ repliedTo h ↔ ∃ g cause m reply, (g, .settled cause m (.caller c) reply) ∈ h := by
  rw [repliedTo, List.mem_filterMap]
  constructor
  · rintro ⟨⟨g, y⟩, hx, hc⟩
    split at hc
    · next heq =>
      obtain ⟨rfl, rfl⟩ := Prod.mk.inj heq
      obtain rfl := Option.some.inj hc
      exact ⟨_, _, _, _, hx⟩
    · simp at hc
  · rintro ⟨g, cause, m, reply, hx⟩
    exact ⟨_, hx, rfl⟩

theorem hasStopped_eq_true {h : List Note} (hx : .stopped ∈ h) : hasStopped h = true :=
  List.any_eq_true.mpr ⟨_, hx, rfl⟩

/-- An error that a replay was sent is the server's, when no generation ends in the middle
of a replay. -/
theorem Linked.refused_of_error {config : Config} {h : List Note} {s : System}
    (hl : Linked config h s) (hrestores : Restores h) {pre rest : List Note}
    (hpre : h = pre ++ rest) {g n : ℕ} (cause : Option ServerMessage) (m : Mark)
    {error : CallError}
    (hx : (g, .settled cause m (.caller (.replay n)) (.error error)) ∈ wires pre) :
    ∃ id e, error = .server e ∧ TookOn g (wires pre) (.replay n) ⟨.subs, id⟩ ∧
      (g, .received (.nosub id (some e))) ∈ wires pre := by
  have hwires : wires h = wires pre ++ wires rest := by rw [hpre, wires_append]
  obtain ⟨hledger, hheard⟩ := World.attended hl.run
  have hx' : (g, .settled cause m (.caller (.replay n)) (.error error)) ∈ wires h := by
    rw [hwires]
    exact List.mem_append_left _ hx
  have hside : m.side = .subs :=
    hl.side_of_took (hledger.fates.settledWaiter g cause m _ _ hx') (by simp)
  have hlawful := hledger.lawful _ hx'
  rw [hwires] at hheard
  obtain ⟨l, r, hsplit⟩ := List.append_of_mem hx
  obtain ⟨pre', y, rest', rfl, hy, htook, hanswered⟩ :=
    hheard.of_append l _ r hsplit cause m _ _ rfl
  have hcause : (g, y) ∈ wires pre := by simp [hsplit]
  have htook' : TookOn g (wires pre) (.replay n) m := by
    rw [hsplit, List.append_assoc]
    exact htook.mono
  cases cause with
  | none =>
    -- The generation ended while the replay waited.
    obtain ⟨why, rfl⟩ := hy
    have hwhole : wires h = pre' ++ (g, .ended why) :: (rest' ++
        (g, .settled none m (.caller (.replay n)) (.error error)) :: r ++ wires rest) := by
      rw [hwires, hsplit]
      simp
    obtain ⟨p, post, hp, rfl⟩ := wires_split hwhole
    have hall := hrestores p (.wire (g, .ended why)) post hp
    exact absurd (mem_answeredMarks.mp (hall _ (mem_tookMarks.mpr htook) rfl)) hanswered
  | some message =>
    obtain rfl : y = .received message := hy
    obtain ⟨outcome, hanswers, hreply⟩ := hlawful
    cases hanswers with
    | result => simp at hside
    | failure => simp at hside
    | ready => simp [Except.mapError] at hreply
    | nosub => simp [Except.mapError] at hreply
    | @refusal id e =>
      simp only [Except.mapError, Except.error.injEq] at hreply
      exact ⟨id, e, hreply, htook', hcause⟩

/-- A replay that began before the runner stopped was sent its reply. -/
theorem replied_of_stopped {h pre rest : List Note} {n : ℕ} {old : String}
    (hrestores : Restores h) (hpre : h = pre ++ rest) (hissued : .issued n old ∈ pre)
    (hstopped : .stopped ∈ pre) : .replay n ∈ repliedTo (wires pre) := by
  obtain ⟨l, r, rfl⟩ := List.append_of_mem hissued
  rcases List.mem_append.mp hstopped with hbefore | hafter
  · -- No replay begins after the runner stopped.
    have hnone : hasStopped l = false := hrestores l (.issued n old) (r ++ rest) (by simp [hpre])
    rw [hasStopped_eq_true hbefore] at hnone
    simp at hnone
  · obtain ⟨l', r', rfl⟩ := List.append_of_mem ((List.mem_cons.mp hafter).resolve_left (by simp))
    have hall : ∀ c ∈ issuedReplays (l ++ .issued n old :: l'),
        c ∈ repliedTo (wires (l ++ .issued n old :: l')) :=
      hrestores _ .stopped (r' ++ rest) (by simp [hpre])
    have hreplied := hall (.replay n) (List.mem_filterMap.mpr ⟨.issued n old, by simp, rfl⟩)
    obtain ⟨g, cause, m, reply, hx⟩ := mem_repliedTo.mp hreplied
    refine mem_repliedTo.mpr ⟨g, cause, m, reply, ?_⟩
    have hsame : l ++ .issued n old :: (l' ++ .stopped :: r') =
        (l ++ .issued n old :: l') ++ .stopped :: r' := by simp
    rw [hsame, wires_append]
    exact List.mem_append_left _ hx

/-- **Only refusals remove entries, when replays are not cut off**, in every state of every
run. -/
theorem durable_of_restores {config : Config} {h : List Note} {s : System}
    (hrun : Run System.step (System.init config) h s) (hrestores : Restores h) :
    Durable h s := by
  have hl := linked_run hrun
  refine ⟨(kept_run hrun).kept, fun pre x post hp => ?_⟩
  have hnote := hl.notes pre x post hp
  cases x with
  | removed n old error =>
    obtain ⟨hissued, hreturned⟩ := hnote
    refine ⟨hissued, ?_⟩
    obtain ⟨pre', rest', rfl, ⟨old', hbegan⟩, houtcome⟩ := hl.of_returned hp hreturned
    rcases houtcome with ⟨g, cause, m, hx⟩ | ⟨-, hstopped, hnone⟩
    · refine ⟨g, ?_⟩
      refine hl.refused_of_error hrestores hp cause m ?_
      rw [wires_append]
      exact List.mem_append_left _ hx
    · -- It was sent no reply, so it was not waiting when the runner stopped.
      rw [List.append_assoc] at hp
      have hreplied := replied_of_stopped hrestores hp hbegan hstopped
      obtain ⟨g, cause, m, reply, hx⟩ := mem_repliedTo.mp hreplied
      exact absurd ⟨g, cause, m, hx⟩ (hnone reply)
  | _ => trivial

/-! ### Two runs -/

/-- A subscription is remembered, the connection is lost, and on the next one the replay
writes its `sub`. -/
def replaysOne : List Label :=
  connects "m0" ++ List.replicate 9 .supervise ++ subscribes ++
    [hears (.ready ["s0"]), .resume 0, .resume 0] ++ losesConnection ++ connects "m1" ++
    List.replicate 12 .supervise ++ unwritten ++ [.poll none true false false] ++ written ++
    [.supervise]

/-- The server refuses the `sub` of the replay. -/
def refusedReplay : List Label :=
  replaysOne ++ [hears (.nosub "s1" (some { error := .string "not-allowed" })), .supervise,
    .supervise]

theorem refusedReplay_enabled :
    (execute System.step (System.init demoConfig) refusedReplay).isSome := by
  decide +kernel

/-- The entries that replays removed. -/
def removedIds (h : List Note) : List String :=
  h.filterMap fun
    | .removed _ old _ => some old
    | _ => none

/-- The entry is removed, and the server refused it. -/
theorem durable_refusedReplay : ∃ (h : List Note) (s : System),
    Run System.step (System.init demoConfig) h s ∧ Restores h ∧ removedIds h = ["s0"] ∧
      s.registry.ids = [] ∧ Durable h s := by
  have hrun := run_execute refusedReplay refusedReplay_enabled
  have hrestores : Restores ((execute System.step (System.init demoConfig)
      refusedReplay).get refusedReplay_enabled).2 := by decide +kernel
  exact ⟨_, _, hrun, hrestores, by decide +kernel, by decide +kernel,
    durable_of_restores hrun hrestores⟩

/-- The connection is lost before the server answers the `sub` of the replay. -/
def cutOffReplay : List Label :=
  replaysOne ++ [.poll (some .eof) false false false, .supervise, .supervise]

theorem cutOffReplay_enabled :
    (execute System.step (System.init demoConfig) cutOffReplay).isSome := by
  decide +kernel

/-- A replay removed an entry that the server did not refuse. -/
def removesUnrefused (h : List Note) : Bool :=
  h.any fun
    | .removed _ _ (.server _) => false
    | .removed .. => true
    | _ => false

/-- **A connection lost in the middle of a replay removes an entry** that the server did not
refuse. -/
theorem not_durable : ¬ ∀ (config : Config) (h : List Note) (s : System),
    Run System.step (System.init config) h s → Durable h s := by
  intro hall
  have hdurable := hall _ _ _ (run_execute cutOffReplay cutOffReplay_enabled)
  have hremoves : removesUnrefused ((execute System.step (System.init demoConfig)
      cutOffReplay).get cutOffReplay_enabled).2 = true := by decide +kernel
  obtain ⟨note, hnote, hunrefused⟩ := List.any_eq_true.mp hremoves
  obtain ⟨pre, post, hp⟩ := List.append_of_mem hnote
  have hrefused := hdurable.refused pre note post hp
  cases note with
  | removed n old error =>
    obtain ⟨-, g, id, e, rfl, -⟩ := hrefused
    simp at hunrefused
  | _ => simp at hunrefused

end RocketSocket
