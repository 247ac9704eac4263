import RocketSocket.Realtime.Heard

/-!
# Remembered subscriptions that are live

When the supervisor has handled the `Resubscribe` of the current connection, everything it
remembers was re-issued on it, and everything remembered since was acknowledged on it: unless
a call of `Client::subscribe` records, after the snapshot of the replay was taken, an id that
an earlier connection acknowledged.

## Main definitions

* `ackedIds` — what a generation acknowledged.
* `Restored` — every remembered entry was acknowledged on the current connection.
* `NeverRefuses`, `Records` — the server answers with `ready`, and ids are recorded in time.
* `TakesLater` — no `sub` of a replay is taken before the generation it replays for.

## Main results

* `TakesLater.move` — every step keeps it.
* `restored_of_records` — **no remembered subscription is silently dead.**
* `not_restored` — an id recorded too late is.
-/

namespace RocketSocket

open Machine

/-! ### The property -/

/-- The ids that a `ready` acknowledged in generation `g`. -/
def ackedIds (g : ℕ) (h : List (Seen Caller)) : List String :=
  h.filterMap fun
    | (g', .settled (some (.ready _)) m (.caller _) (.ok _)) => if g' = g then some m.id else none
    | _ => none

/-- The generations a replay took its snapshot for. -/
def snapshots (h : List Note) : List ℕ :=
  h.filterMap fun
    | .replayStarted g _ => some g
    | _ => none

/-- The current generation. -/
def System.generation (s : System) : ℕ := s.world.runner.generation

/-- **No remembered subscription is silently dead**: when the session is ready, the
`Resubscribe` of the current generation was handled, no call of `Client::subscribe` is pending
and the supervisor is in no replay, every entry was acknowledged on the current connection. -/
def Restored (h : List Note) (s : System) : Prop :=
  s.world.runner.session.phase = .ready → (∃ restored, .replayed s.generation restored ∈ h) →
    (∀ call ∈ s.calls, call.isOver = true) → ¬ s.supervisor.InReplay →
    ∀ id ∈ s.registry.ids, id ∈ ackedIds s.generation (wires h)

/-- The server answers no `sub` with a `nosub`. -/
def NeverRefuses (h : List (Seen Caller)) : Prop :=
  (h.all fun
    | (_, .received (.nosub ..)) => false
    | _ => true) = true

instance (h : List (Seen Caller)) : Decidable (NeverRefuses h) :=
  inferInstanceAs (Decidable (_ = true))

/-- An id is recorded while the generation that acknowledged it lasts, or before a replay
takes its snapshot for the generation that follows. -/
def RecordsAt (pre : List Note) : Note → Prop
  | .inserted _ id => id ∈ ackedIds (endings (wires pre)) (wires pre) ∨
    endings (wires pre) ∉ snapshots pre
  | _ => True

instance (pre : List Note) : (x : Note) → Decidable (RecordsAt pre x)
  | .inserted _ id => inferInstanceAs (Decidable (id ∈ ackedIds (endings (wires pre)) (wires pre) ∨
      endings (wires pre) ∉ snapshots pre))
  | .wire _ | .overwrote .. | .stopped | .returned .. | .received _ | .replayStarted ..
  | .issued .. | .rekeyed .. | .removed .. | .replayed .. => isTrue trivial

/-- Every id is recorded in time. -/
def Records (h : List Note) : Prop := Each RecordsAt h

instance (h : List Note) : Decidable (Records h) :=
  inferInstanceAs (Decidable (Each RecordsAt h))

@[simp] theorem ackedIds_append (g : ℕ) (h o : List (Seen Caller)) :
    ackedIds g (h ++ o) = ackedIds g h ++ ackedIds g o := List.filterMap_append

@[simp] theorem snapshots_append (h o : List Note) :
    snapshots (h ++ o) = snapshots h ++ snapshots o := List.filterMap_append

theorem mem_snapshots {g : ℕ} {h : List Note} :
    g ∈ snapshots h ↔ ∃ ids, .replayStarted g ids ∈ h := by
  rw [snapshots, List.mem_filterMap]
  constructor
  · rintro ⟨note, hn, hg⟩
    cases note with
    | replayStarted g' ids => exact Option.some.inj hg ▸ ⟨ids, hn⟩
    | _ => simp at hg
  · rintro ⟨ids, hn⟩
    exact ⟨_, hn, rfl⟩

/-! ### The invariant -/

/-- A replay that is new began after its event; one that goes on is the same. -/
theorem System.Move.replay {s s' : System} {o : List Note} (hm : s.Move o s') {r : Replay}
    (hr : s'.supervisor.replay = some r) :
    s.supervisor.replay = some r ∨ r.index = s.replays ∧ wires o = [] := by
  -- A replay that the loop begins takes the next number.
  have hloop : ∀ {s₁ : System} {note : Note} {epoch g restored} {entries : List Replayed},
      s₁.replays = s.replays → wires [note] = [] →
      (s₁.loop epoch g restored entries).1.supervisor.replay = some r →
      r.index = s.replays ∧ wires (note :: (s₁.loop epoch g restored entries).2) = [] := by
    intro s₁ note epoch g restored entries hreplays hnote hr
    refine ⟨?_, System.wires_loop hnote _ _ _ _ _⟩
    cases entries with
    | nil => simp [System.loop, Supervisor.replay] at hr
    | cons entry rest =>
      obtain rfl := Option.some.inj hr
      exact hreplays
  cases hm with
  | runner hw hoffer hs₁ hs' hnotes =>
    rw [System.state_forM_see, hs₁] at hs'
    rw [hs'] at hr
    exact .inl hr
  | @resume k key call s₁ p hcall hp =>
    have hsup : s₁.supervisor.replay = some r := hr
    rw [hp.same.2.1] at hsup
    exact .inl hsup
  | @receive event ring hsup hrecv =>
    -- An event that is received may begin a replay, but takes its snapshot only later.
    have hnone : (System.onEvent event).replay = none := by
      rcases System.onEvent_cases event with ⟨_, -, he⟩ | ⟨_, -, he⟩ | ⟨_, _, -, he⟩ <;>
        rw [he] <;> rfl
    exact absurd (hnone.symm.trans hr) (by simp)
  | @issue r' call s₁ p hsup hp =>
    refine .inl ?_
    rw [hsup]
    exact (Supervisor.replay_after r' p).symm.trans hr
  | snapshot hsup => exact .inr (hloop rfl rfl hr)
  | rekey hsup hs₁ => exact .inr (hloop (by rw [hs₁]) rfl hr)
  | remove hsup hs₁ => exact .inr (hloop (by rw [hs₁]) rfl hr)
  | @forward event terminal hsup => cases terminal <;> simp [Supervisor.replay] at hr
  | lag | finish | lose => simp [Supervisor.replay] at hr
  | _ => exact .inl hr

/-- The event a replay is for was broadcast. -/
theorem Heard.generation_mem {h : List Note} {s : System} (hh : Heard h s) {g : ℕ}
    (hg : s.supervisor.generation = some g) :
    ∃ epoch, (g, .emitted (.resubscribe epoch)) ∈ wires h := by
  obtain ⟨epoch, hlast⟩ := hh.replaying g hg
  have hmem : ((g, .resubscribe epoch) : Stamped) ∈ emittedEvents (wires h) :=
    hh.events.subset (List.mem_append_left _ (List.mem_of_getLast? hlast))
  exact ⟨epoch, mem_emittedEvents.mp hmem⟩

theorem Supervisor.generation_of_replay {supervisor : Supervisor} {r : Replay}
    (hr : supervisor.replay = some r) : supervisor.generation = some r.generation := by
  cases supervisor with
  | issuing | rekeying | removing =>
    obtain rfl := Option.some.inj hr
    rfl
  | _ => simp [Supervisor.replay] at hr

theorem TookOn.of_append {g : ℕ} {h o : List (Seen Caller)} {c : Caller} {m : Mark}
    (ht : TookOn g (h ++ o) c m) : TookOn g h c m ∨ TookOn g o c m := by
  obtain ⟨command, phase, out, hx, hack, hm⟩ := ht
  rcases List.mem_append.mp hx with hx | hx
  · exact .inl ⟨command, phase, out, hx, hack, hm⟩
  · exact .inr ⟨command, phase, out, hx, hack, hm⟩

/-- The `sub` of a replay is not taken before the generation it replays for. -/
def TakesLater (h : List Note) (s : System) : Prop :=
  ∀ r, s.supervisor.replay = some r → ∀ g m, TookOn g (wires h) (.replay r.index) m →
    r.generation ≤ g

theorem TakesLater.move {config : Config} {h o : List Note} {s s' : System}
    (ht : TakesLater h s) (hl : Linked config h s) (hh : Heard h s)
    (hsorted : (wires (h ++ o)).Pairwise fun x y => x.1 ≤ y.1) (hm : s.Move o s') :
    TakesLater (h ++ o) s' := by
  intro r hr g m htook
  rw [wires_append] at htook hsorted
  rcases hm.replay hr with hr | ⟨hindex, hwires⟩
  · rcases htook.of_append with htook | ⟨command, phase, out, hx, -⟩
    · exact ht r hr g m htook
    · obtain ⟨epoch, hmem⟩ := hh.generation_mem (Supervisor.generation_of_replay hr)
      exact (List.pairwise_append.mp hsorted).2.2 _ hmem _ hx
  · -- No command of this replay was posted before.
    rw [hwires, List.append_nil] at htook
    have hposted : r.index < s.replays := (hl.posted_of_took htook).1
    omega

/-- What is not acknowledged on the current connection will still be re-issued: no replay took
its snapshot for this connection, or the one that did has it still to do. -/
def Live (h : List Note) (s : System) : Prop :=
  ∀ id ∈ s.registry.ids, id ∈ ackedIds s.generation (wires h) ∨ s.generation ∉ snapshots h ∨
    s.supervisor.generation = some s.generation ∧ id ∈ s.supervisor.todo

theorem mem_ackedIds {g : ℕ} {h : List (Seen Caller)} {subs : List String} {m : Mark}
    {c : Caller} {v : Value} (hx : (g, .settled (some (.ready subs)) m (.caller c) (.ok v)) ∈ h) :
    m.id ∈ ackedIds g h :=
  List.mem_filterMap.mpr ⟨_, hx, by simp⟩

/-- An id that `Connection::subscribe` returned was acknowledged in the generation its command
was taken in. -/
theorem Linked.acked_of_returned {config : Config} {h : List Note} {s : System}
    (hl : Linked config h s) (hnever : NeverRefuses (wires h)) {c : Caller} {id : String}
    (hx : .returned c (.ok id) ∈ h) :
    ∃ g m, TookOn g (wires h) c m ∧ m.id = id ∧ id ∈ ackedIds g (wires h) := by
  obtain ⟨hc, g, cause, v, htook, hsettled⟩ := hl.settled_of_returned hx
  obtain ⟨-, ⟨subs, rfl, -⟩ | rfl⟩ := hl.cause_of_ok hc hsettled
  · exact ⟨g, _, htook, rfl, mem_ackedIds hsettled⟩
  · -- The server sent no `nosub`.
    have hheard := (World.attended hl.run).2
    obtain ⟨l, r, hsplit⟩ := List.append_of_mem hsettled
    obtain ⟨pre', y, rest', rfl, rfl, -, -⟩ := hheard l _ r hsplit _ _ c _ rfl
    have hmem : (g, .received (.nosub id none)) ∈ wires h := by
      rw [hsplit]
      simp
    have hall := List.all_eq_true.mp hnever _ hmem
    simp at hall

namespace Live

variable {config : Config} {h o : List Note} {s s' : System}

theorem init (config : Config) : Live [] (.init config) := by
  intro id hid
  simp [System.init] at hid

/-- A step of another task than the runner, after which the same entries are to be
re-issued. -/
theorem frame (hlive : Live h s) (hwires : wires o = []) (hsnapshots : snapshots o = [])
    (hworld : s'.world = s.world) (hids : ∀ id ∈ s'.registry.ids, id ∈ s.registry.ids)
    (htodo : s'.supervisor.todo = s.supervisor.todo ∧
      s'.supervisor.generation = s.supervisor.generation ∨ s.supervisor.todo = []) :
    Live (h ++ o) s' := by
  intro id hid
  have hgeneration : s'.generation = s.generation := congrArg (·.runner.generation) hworld
  rw [wires_append, hwires, List.append_nil, snapshots_append, hsnapshots, List.append_nil,
    hgeneration]
  rcases hlive id (hids id hid) with hacked | hnone | ⟨hg, hin⟩
  · exact .inl hacked
  · exact .inr (.inl hnone)
  · rcases htodo with ⟨htodo, hsame⟩ | htodo
    · exact .inr (.inr ⟨hsame ▸ hg, htodo ▸ hin⟩)
    · rw [htodo] at hin
      simp at hin

/-- The head of the loop of a replay, after its entry was dealt with. -/
theorem loop (hlive : Live h s) {r : Replay} {note : Note} {s₁ : System}
    {registry : Registry} (hs₁ : s₁ = { s with registry })
    (hgeneration : s.supervisor.generation = some r.generation)
    (htodo : s.supervisor.todo = r.entry.1 :: r.rest.map Prod.fst) (hnote : wires [note] = [])
    (hsnapshots : snapshots [note] = []) (restored : ℕ)
    (hids : ∀ id ∈ registry.ids, id ∈ s.registry.ids ∧ id ≠ r.entry.1 ∨
      id ∈ ackedIds s.generation (wires h) ∨ s.generation ∉ snapshots h) :
    Live (h ++ note :: (s₁.loop r.epoch r.generation restored r.rest).2)
      (s₁.loop r.epoch r.generation restored r.rest).1 := by
  intro id hid
  have hquiet : wires (note :: (s₁.loop r.epoch r.generation restored r.rest).2) = [] ∧
      snapshots (note :: (s₁.loop r.epoch r.generation restored r.rest).2) = [] := by
    rw [← List.singleton_append, wires_append, snapshots_append, hnote, hsnapshots]
    cases r.rest <;> exact ⟨rfl, rfl⟩
  have hworld : (s₁.loop r.epoch r.generation restored r.rest).1.generation = s.generation := by
    rw [hs₁]
    cases r.rest <;> rfl
  rw [System.registry_loop, hs₁] at hid
  rw [wires_append, hquiet.1, List.append_nil, snapshots_append, hquiet.2, List.append_nil, hworld,
    System.todo_loop]
  rcases hids id hid with ⟨hid, hne⟩ | hacked | hnone
  · rcases hlive id hid with hacked | hnone | ⟨hg, hin⟩
    · exact .inl hacked
    · exact .inr (.inl hnone)
    · -- It is not the entry that was dealt with, so it is still to do.
      rw [htodo] at hin
      have hrest := (List.mem_cons.mp hin).resolve_left hne
      refine .inr (.inr ⟨?_, hrest⟩)
      rw [hgeneration] at hg
      cases hentries : r.rest with
      | nil =>
        rw [hentries] at hrest
        simp at hrest
      | cons entry rest => exact hg
  · exact .inl hacked
  · exact .inr (.inl hnone)

/-- The runner makes a step: while the generation lasts nothing changes, and no snapshot was
taken for one that begins. -/
theorem runner (hlive : Live h s) (hh : Heard h s)
    (ht : Tagged (wires h) s.world.runner.toWire)
    (ht' : Tagged (wires (h ++ o)) s'.world.runner.toWire)
    (hregistry : s'.registry = s.registry) (hsup : s'.supervisor = s.supervisor)
    (hsnapshots : snapshots o = []) : Live (h ++ o) s' := by
  intro id hid
  rw [hregistry] at hid
  rw [snapshots_append, hsnapshots, List.append_nil, wires_append, ackedIds_append, hsup]
  have hle : s.generation ≤ s'.generation := by
    show s.world.runner.generation ≤ s'.world.runner.generation
    rw [ht.count, ht'.count, wires_append, endings_append]
    exact Nat.le_add_right _ _
  -- A generation that only begins now has no snapshot yet.
  rcases Nat.eq_or_lt_of_le hle with heq | hlt
  · rw [← heq]
    rcases hlive id hid with hacked | hnone | hin
    · exact .inl (List.mem_append_left _ hacked)
    · exact .inr (.inl hnone)
    · exact .inr (.inr hin)
  · refine .inr (.inl fun hmem => ?_)
    obtain ⟨ids, hstarted⟩ := mem_snapshots.mp hmem
    obtain ⟨epoch, hreceived⟩ := hh.started _ ids hstarted
    have hemitted : ((s'.generation, .resubscribe epoch) : Stamped) ∈ emittedEvents (wires h) :=
      hh.events.subset (List.mem_append_left _ hreceived)
    have hbound : s'.generation ≤ s.generation := ht.bound _ (mem_emittedEvents.mp hemitted)
    omega

/-- A call that is resumed leaves the registry, the replay and the runner alone. -/
theorem progress (hlive : Live h s) {c : Caller} {publication : String} {params : List Value}
    {call : SubCall} {s₁ : System} {p : Progress} (hp : s.Progresses c publication params call s₁ p)
    (hworld : s'.world = s₁.world) (hregistry : s'.registry = s₁.registry)
    (hsup : s'.supervisor.todo = s.supervisor.todo ∧
      s'.supervisor.generation = s.supervisor.generation) : Live (h ++ p.notes c) s' := by
  have hnotes : wires (p.notes c) = [] ∧ snapshots (p.notes c) = [] := by
    cases p <;> exact ⟨rfl, rfl⟩
  refine hlive.frame hnotes.1 hnotes.2 ?_ (fun id hid => ?_) (.inl hsup)
  · rw [hworld, hp.frame]
  · rwa [hregistry, hp.same.1] at hid

/-- An id is recorded: this is the one step that the assumption on the recording is about. -/
theorem record (hlive : Live h s) (ht : Tagged (wires h) s.world.runner.toWire) {k : ℕ}
    {id : String} (hat : RecordsAt h (.inserted k id)) (hworld : s'.world = s.world)
    (hsup : s'.supervisor = s.supervisor)
    (hids : ∀ id' ∈ s'.registry.ids, id' = id ∨ id' ∈ s.registry.ids) :
    Live (h ++ [.inserted k id]) s' := by
  intro id' hid
  have hgeneration : s'.generation = s.generation := congrArg (·.runner.generation) hworld
  have hsame : wires (h ++ [.inserted k id]) = wires h ∧
      snapshots (h ++ [.inserted k id]) = snapshots h := by simp [wires, snapshots]
  rw [hsame.1, hsame.2, hgeneration, hsup]
  rcases hids id' hid with rfl | hid
  · -- The generations that ended are those before the current one.
    rw [RecordsAt, ← ht.count] at hat
    exact hat.imp_right .inl
  · exact hlive id' hid

/-- A replay begins: its snapshot holds every entry, and of an older generation it says nothing
new. -/
theorem snapshot (hlive : Live h s) {epoch : Epoch} {g : ℕ}
    (hsup : s.supervisor = .replaying epoch g) :
    Live (h ++ .replayStarted g (s.registry.toReplay.map Prod.fst) ::
      (s.loop epoch g 0 s.registry.toReplay).2) (s.loop epoch g 0 s.registry.toReplay).1 := by
  intro id hid
  rw [System.registry_loop] at hid
  have hin : id ∈ s.registry.toReplay.map Prod.fst := Registry.mem_toReplay.mpr hid
  -- The loop shows one snapshot, and nothing of the wire.
  have hquiet : wires (.replayStarted g (s.registry.toReplay.map Prod.fst) ::
      (s.loop epoch g 0 s.registry.toReplay).2) = [] ∧
      snapshots (.replayStarted g (s.registry.toReplay.map Prod.fst) ::
      (s.loop epoch g 0 s.registry.toReplay).2) = [g] := by
    cases s.registry.toReplay <;> exact ⟨rfl, rfl⟩
  have hgeneration : (s.loop epoch g 0 s.registry.toReplay).1.generation = s.generation := by
    cases s.registry.toReplay <;> rfl
  rw [wires_append, hquiet.1, List.append_nil, snapshots_append, hquiet.2, hgeneration,
    System.todo_loop]
  -- The replay is for this generation, and every entry is to be made, or for an older one.
  by_cases hg : s.generation = g
  · refine .inr (.inr ⟨?_, hin⟩)
    rw [hg]
    cases hentries : s.registry.toReplay with
    | nil =>
      rw [hentries] at hin
      simp at hin
    | cons entry rest => rfl
  · rcases hlive id hid with hacked | hnone | ⟨-, hin⟩
    · exact .inl hacked
    · refine .inr (.inl ?_)
      simp [hnone, hg]
    · rw [hsup] at hin
      simp [Supervisor.todo] at hin

/-- An entry is re-issued under a new id, which the server acknowledged in the generation that
is replayed for, or in a later one. -/
theorem rekey (hlive : Live h s) (hl : Linked config h s)
    (hk : Kept h s.registry s.supervisor.todo) (hh : Heard h s) (hlater : TakesLater h s)
    (ht : Tagged (wires h) s.world.runner.toWire) (hnever : NeverRefuses (wires h)) {r : Replay}
    {newId : String} {s₁ : System} (hsup : s.supervisor = .rekeying r newId)
    (hs₁ : s₁ = { s with registry := (s.registry.rekey r.entry.1 newId).1 }) :
    Live (h ++ .rekeyed r.index r.entry.1 newId ::
        (s₁.loop r.epoch r.generation (r.restored + 1) r.rest).2)
      (s₁.loop r.epoch r.generation (r.restored + 1) r.rest).1 := by
  have hreplay : s.supervisor.replay = some r := by rw [hsup]; rfl
  have hgeneration := Supervisor.generation_of_replay hreplay
  have htodo : s.supervisor.todo = r.entry.1 :: r.rest.map Prod.fst := by rw [hsup]; rfl
  have hold : r.entry.1 ∈ s.registry.ids := hk.todo _ (by rw [htodo]; exact List.mem_cons_self ..)
  refine hlive.loop hs₁ hgeneration htodo rfl rfl (r.restored + 1) fun id hid => ?_
  rcases (Registry.mem_rekey hold).mp hid with rfl | ⟨hne, hid⟩
  · have hsound := hl.supervisor
    rw [hsup] at hsound
    obtain ⟨g, m, htook, -, hacked⟩ := hl.acked_of_returned hnever hsound.2
    have hge : r.generation ≤ g := hlater r hreplay g m htook
    have hbound : g ≤ s.generation := by
      obtain ⟨command, phase, out, hx, -⟩ := htook
      exact ht.bound _ hx
    -- If a replay took its snapshot for the current generation, this is the one.
    by_cases hmem : s.generation ∈ snapshots h
    · obtain ⟨ids, hstarted⟩ := mem_snapshots.mp hmem
      have hle := hh.generation_le ht.sorted hgeneration hstarted
      obtain rfl : g = s.generation := by omega
      exact .inr (.inl hacked)
    · exact .inr (.inr hmem)
  · exact .inl ⟨hid, hne⟩

/-- **Every step that records in time keeps the entries live.** -/
theorem move (hlive : Live h s) (hl : Linked config h s)
    (hk : Kept h s.registry s.supervisor.todo) (hh : Heard h s) (hlater : TakesLater h s)
    (ht : Tagged (wires h) s.world.runner.toWire)
    (ht' : Tagged (wires (h ++ o)) s'.world.runner.toWire) (hrecords : Records (h ++ o))
    (hnever : NeverRefuses (wires h)) (hm : s.Move o s') : Live (h ++ o) s' := by
  cases hm with
  | runner hw hoffer hs₁ hs' hnotes =>
    refine hlive.runner hh ht ht' ?_ ?_ ?_
    · rw [hs', System.state_forM_see, hs₁]
    · rw [hs', System.state_forM_see, hs₁]
    · rw [snapshots, List.filterMap_eq_nil_iff]
      intro note hn
      rcases System.mem_runner hnotes hn with ⟨x, -, rfl⟩ | ⟨lost, left, rfl⟩ | rfl <;> rfl
  | record hcall =>
    exact hlive.record ht (each_snoc.mp hrecords).2 rfl rfl fun _ hid => Registry.mem_insert.mp hid
  | resume hcall hp =>
    refine hlive.progress hp rfl rfl ?_
    rw [hp.same.2.1]
    exact ⟨rfl, rfl⟩
  | @issue r call s₁ p hsup hp =>
    refine hlive.progress hp rfl rfl ?_
    rw [hsup]
    exact ⟨Supervisor.todo_after r p, Supervisor.generation_after r p⟩
  | snapshot hsup => exact hlive.snapshot hsup
  | rekey hsup hs₁ => exact hlive.rekey hl hk hh hlater ht hnever hsup hs₁
  | @remove r error s₁ hsup hs₁ =>
    have hreplay : s.supervisor.replay = some r := by rw [hsup]; rfl
    have hgeneration := Supervisor.generation_of_replay hreplay
    refine hlive.loop hs₁ hgeneration (by rw [hsup]; rfl) rfl rfl r.restored fun id hid => ?_
    -- The entry that was refused is gone, and the others are still to be made.
    obtain ⟨hne, hid⟩ := Registry.mem_remove.mp hid
    exact .inl ⟨hid, hne⟩
  | receive hsup hrecv =>
    exact hlive.frame rfl rfl rfl (fun id hid => hid) (.inr (by rw [hsup]; rfl))
  | lag hsup hrecv =>
    exact hlive.frame rfl rfl rfl (fun id hid => hid) (.inr (by rw [hsup]; rfl))
  | finish hsup =>
    refine hlive.frame rfl rfl rfl (fun id hid => hid) (.inr ?_)
    rcases hsup with ⟨hsup, -⟩ | ⟨event, terminal, hsup⟩ <;> rw [hsup] <;> rfl
  -- The ids are kept when the connection is lost.
  | lose hsup =>
    refine hlive.frame rfl rfl rfl (fun id hid => ?_) (.inr (by rw [hsup]; rfl))
    exact Registry.ids_connectionLost ▸ hid
  | forward hsup =>
    exact hlive.frame rfl rfl rfl (fun id hid => hid) (.inr (by rw [hsup]; rfl))
  | _ => exact hlive.frame rfl rfl rfl (fun id hid => hid) (.inl ⟨rfl, rfl⟩)

end Live

/-- The replays of every run take their `sub`s later. -/
theorem takesLater_run {config : Config} {h : List Note} {s : System}
    (hrun : Run System.step (System.init config) h s) : TakesLater h s := by
  induction hrun with
  | start =>
    intro r hr
    simp [System.init, Supervisor.replay] at hr
  | step hr hs ih =>
    have hsorted := (tagged_run (linked_run (hr.step hs)).run).sorted
    exact ih.move (linked_run hr) (heard_run hr) hsorted (System.step_move hs)

/-- **No remembered subscription is silently dead**, in every state of every run that records
its ids in time. -/
theorem restored_of_records {config : Config} {h : List Note} {s : System}
    (hrun : Run System.step (System.init config) h s) (hnever : NeverRefuses (wires h))
    (hrecords : Records h) : Restored h s := by
  have hlive : Live h s := by
    induction hrun with
    | start => exact .init config
    | @step h s s' i o hr hs ih =>
      have hearlier : NeverRefuses (wires h) := by
        rw [NeverRefuses, wires_append, List.all_append, Bool.and_eq_true] at hnever
        exact hnever.1
      have hl := linked_run hr
      exact (ih hearlier hrecords.of_append).move hl (kept_run hr) (heard_run hr)
        (takesLater_run hr) (tagged_run hl.run) (tagged_run (linked_run (hr.step hs)).run)
        hrecords hearlier (System.step_move hs)
  intro _ hreplayed _ houtside id hid
  obtain ⟨restored, hreplayed⟩ := hreplayed
  obtain ⟨ids, hstarted⟩ := (heard_run hrun).replayed _ _ hreplayed
  rcases hlive id hid with hacked | hnone | ⟨-, hin⟩
  · exact hacked
  · exact absurd (mem_snapshots.mpr ⟨ids, hstarted⟩) hnone
  · -- Outside a replay nothing is left to re-issue.
    cases hsup : s.supervisor with
    | issuing | rekeying | removing =>
      rw [hsup] at houtside
      exact absurd trivial houtside
    | _ =>
      rw [hsup] at hin
      simp [Supervisor.todo] at hin

/-! ### Two runs -/

/-- A subscription is remembered and acknowledged again by the replay on the second
connection. -/
def replayedInTime : List Label :=
  replaysOne ++ [hears (.ready ["s1"]), .supervise, .supervise, .supervise]

theorem replayedInTime_enabled :
    (execute System.step (System.init demoConfig) replayedInTime).isSome := by
  decide +kernel

/-- The entry is live on the second connection. -/
theorem restored_replayedInTime : ∃ (h : List Note) (s : System),
    Run System.step (System.init demoConfig) h s ∧ NeverRefuses (wires h) ∧ Records h ∧
      s.world.runner.session.phase = .ready ∧ s.generation = 1 ∧ s.registry.ids = ["s1"] ∧
      Restored h s := by
  have hrun := run_execute replayedInTime replayedInTime_enabled
  have hnever : NeverRefuses (wires ((execute System.step (System.init demoConfig)
      replayedInTime).get replayedInTime_enabled).2) := by decide +kernel
  have hrecords : Records ((execute System.step (System.init demoConfig)
      replayedInTime).get replayedInTime_enabled).2 := by decide +kernel
  exact ⟨_, _, hrun, hnever, hrecords, by decide +kernel, by decide +kernel, by decide +kernel,
    restored_of_records hrun hnever hrecords⟩

/-- The acknowledgement of the first connection is recorded after the second one became ready
and the replay took its snapshot. -/
def recordedLate : List Label :=
  connects "m0" ++ List.replicate 9 .supervise ++ subscribes ++
    [hears (.ready ["s0"]), .resume 0] ++ losesConnection ++ connects "m1" ++
    List.replicate 12 .supervise ++ [.resume 0]

theorem recordedLate_enabled :
    (execute System.step (System.init demoConfig) recordedLate).isSome := by
  decide +kernel

/-- The generations whose replays are over. -/
def replayedGenerations (h : List Note) : List ℕ :=
  h.filterMap fun
    | .replayed g _ => some g
    | _ => none

/-- **An id recorded too late is silently dead**: the session is ready, its `Resubscribe` was
handled, nothing is pending, and the connection never acknowledged the entry. -/
theorem not_restored : ¬ ∀ (config : Config) (h : List Note) (s : System),
    Run System.step (System.init config) h s → NeverRefuses (wires h) → Restored h s := by
  intro hall
  have hrestored := hall _ _ _ (run_execute recordedLate recordedLate_enabled)
    (by decide +kernel)
  have hreplayed : 1 ∈ replayedGenerations ((execute System.step (System.init demoConfig)
      recordedLate).get recordedLate_enabled).2 := by decide +kernel
  have hgeneration : ((execute System.step (System.init demoConfig) recordedLate).get
      recordedLate_enabled).1.generation = 1 := by decide +kernel
  obtain ⟨note, hnote, hg⟩ := List.mem_filterMap.mp hreplayed
  cases note with
  | replayed g restored =>
    obtain rfl := Option.some.inj hg
    have hacked := hrestored (by decide +kernel) ⟨restored, hgeneration.symm ▸ hnote⟩
      (by decide +kernel) (by decide +kernel) "s0" (by decide +kernel)
    exact absurd hacked (by decide +kernel)
  | _ => simp at hg

end RocketSocket
