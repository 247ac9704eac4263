import RocketSocket.Realtime.Restored

/-!
# Logins and replays

Every login of a session is announced, and the announcement asks for a replay: unless it is
overwritten in the ring before the supervisor reads it.

## Main definitions

* `owed` — a login was announced, and no replay took its snapshot since.
* `Replays` — when the supervisor has read everything, no replay is owed.
* `Spares` — an unread `Resubscribe` is overwritten only when it is not needed.
* `Owing` — a replay that is owed is asked for in the ring, or about to begin.

## Main results

* `Owing.move` — every step that spares what is needed keeps it.
* `replays_of_spares` — **every login is followed by a replay**, as long as what is needed is
  spared.
* `not_replays` — a frame that overwrites the only `Resubscribe` loses the replay.
-/

namespace RocketSocket

open Machine

/-! ### The property -/

/-- What a note says about the replay that is owed. -/
def owedBy : Note → Option Bool
  | .wire (_, .emitted (.ready _)) => some true
  | .replayStarted .. => some false
  | _ => none

/-- A login was announced, and no replay took its snapshot since. -/
def owed (h : List Note) : Bool := ((h.filterMap owedBy).getLast?).getD false

/-- What a note says about the replay that is about to begin. -/
def startingBy : Note → Option Bool
  | .received (_, .resubscribe _) => some true
  | .replayStarted .. => some false
  | _ => none

/-- The supervisor received a `Resubscribe`, and did not take its snapshot yet. -/
def starting (h : List Note) : Bool := ((h.filterMap startingBy).getLast?).getD false

/-- A replay took its snapshot of the registry after the last login was announced. -/
def ReplayedSince (h : List Note) : Prop :=
  ∃ pre g epoch post, h = pre ++ .wire (g, .emitted (.ready epoch)) :: post ∧
    (∀ g epoch, .wire (g, .emitted (.ready epoch)) ∉ post) ∧
    ∃ g' ids, .replayStarted g' ids ∈ post

/-- **Every re-login is followed by a replay**: when the supervisor has consumed every event
and is in no replay, and the session is ready, a replay was started after the most recent
login. -/
def Replays (h : List Note) (s : System) : Prop :=
  s.ring.unread = [] → s.ring.missed = 0 → ¬ s.supervisor.InReplay →
    s.world.runner.session.phase = .ready → ReplayedSince h

/-- The event asks for a replay. -/
def Event.isResubscribe : Event → Bool
  | .resubscribe _ => true
  | _ => false

/-- The event announces a login; the `Resubscribe` follows it. -/
def Event.isReady : Event → Bool
  | .ready _ => true
  | _ => false

/-- An unread `Resubscribe` is overwritten only when no replay is owed, or one is about to
begin, or another `Resubscribe` is left or follows. -/
def SparesAt (pre : List Note) : Note → Prop
  | .overwrote (_, .resubscribe _) left => owed pre = false ∨ starting pre = true ∨
    (left.any fun e => e.2.isResubscribe) = true ∨ (left.getLast?.any fun e => e.2.isReady) = true
  | _ => True

/-- No `Resubscribe` that is needed is overwritten. -/
def Spares (h : List Note) : Prop := Each SparesAt h

/-! ### Reading the history -/

section reading

variable {h o : List Note} {note : Note}

theorem owed_append_of_nil (ho : o.filterMap owedBy = []) : owed (h ++ o) = owed h := by
  rw [owed, List.filterMap_append, ho, List.append_nil, owed]

theorem starting_append_of_nil (ho : o.filterMap startingBy = []) :
    starting (h ++ o) = starting h := by
  rw [starting, List.filterMap_append, ho, List.append_nil, starting]

theorem owed_snoc_of_some {b : Bool} (hb : owedBy note = some b) : owed (h ++ [note]) = b := by
  simp [owed, List.filterMap_append, hb]

theorem starting_snoc_of_some {b : Bool} (hb : startingBy note = some b) :
    starting (h ++ [note]) = b := by
  simp [starting, List.filterMap_append, hb]

/-- The last login that was announced. -/
theorem exists_last_ready (hready : ∃ g epoch, .wire (g, .emitted (.ready epoch)) ∈ h) :
    ∃ pre g epoch post, h = pre ++ .wire (g, .emitted (.ready epoch)) :: post ∧
      ∀ g epoch, .wire (g, .emitted (.ready epoch)) ∉ post := by
  induction h using List.reverseRecOn with
  | nil => simp at hready
  | append_singleton h note ih =>
    by_cases hnote : ∃ g epoch, note = .wire (g, .emitted (.ready epoch))
    · obtain ⟨g, epoch, rfl⟩ := hnote
      exact ⟨h, g, epoch, [], rfl, by simp⟩
    · obtain ⟨g, epoch, hmem⟩ := hready
      have hne : ∀ g epoch, .wire (g, .emitted (.ready epoch)) ≠ note :=
        fun g epoch heq => hnote ⟨g, epoch, heq.symm⟩
      have hmem := (List.mem_append.mp hmem).resolve_right fun hx =>
        hne g epoch (List.mem_singleton.mp hx)
      obtain ⟨pre, g, epoch, post, rfl, hlast⟩ := ih ⟨g, epoch, hmem⟩
      refine ⟨pre, g, epoch, post ++ [note], by simp, fun g epoch hx => ?_⟩
      rcases List.mem_append.mp hx with hx | hx
      · exact hlast g epoch hx
      · exact hne g epoch (List.mem_singleton.mp hx)

/-- When no replay is owed, one was started after the last login. -/
theorem replayedSince_of_not_owed (hready : ∃ g epoch, .wire (g, .emitted (.ready epoch)) ∈ h)
    (howed : owed h = false) : ReplayedSince h := by
  obtain ⟨pre, g, epoch, post, rfl, hlast⟩ := exists_last_ready hready
  refine ⟨pre, g, epoch, post, rfl, hlast, ?_⟩
  by_contra hnone
  -- Nothing after the last login takes the debt away.
  have hpost : post.filterMap owedBy = [] := by
    rw [List.filterMap_eq_nil_iff]
    intro note hn
    unfold owedBy
    split
    · exact absurd hn (hlast _ _)
    · exact absurd ⟨_, _, hn⟩ hnone
    · rfl
  rw [List.append_cons, owed_append_of_nil hpost, owed_snoc_of_some rfl] at howed
  simp at howed

end reading

/-! ### The invariant -/

/-- A replay that is owed is asked for by an unread `Resubscribe`, or about to begin. -/
def Asked (h : List Note) (s : System) : Prop :=
  (∃ e ∈ s.ring.unread, e.2.isResubscribe = true) ∨ starting h = true

/-- The last thing the runner showed is an announcement; its `Resubscribe` follows. -/
def Announcing (h : List Note) : Prop :=
  ∃ l g epoch, wires h = l ++ [(g, .emitted (.ready epoch))]

/-- What a broadcast keeps of the ring, and what it shows. -/
theorem System.broadcast_cases (s : System) (event : Stamped) :
    ((System.broadcast event).obs s = [] ∧ ∀ e ∈ s.ring.unread, e ∈ (s.ring.send event).unread) ∨
    ∃ lost, (System.broadcast event).obs s = [.overwrote lost (s.ring.send event).unread] ∧
      ∀ e ∈ s.ring.unread, e ∈ (s.ring.send event).unread ∨ e = lost := by
  cases hlost : s.ring.overwritten with
  | none =>
    refine .inl ⟨?_, fun e he => ?_⟩
    · simp [System.broadcast, Act.obs, hlost]
    · rcases BroadcastRing.mem_send he with he | he
      · exact he
      · rw [hlost] at he
        simp at he
  | some lost =>
    refine .inr ⟨lost, ?_, fun e he => ?_⟩
    · simp [System.broadcast, Act.obs, hlost]
    · rcases BroadcastRing.mem_send he with he | he
      · exact .inl he
      · rw [hlost] at he
        exact .inr (Option.some.inj he).symm

section runner

variable {h : List Note} {s : System}

/-- An event that announces no session leaves the debt, though its `Resubscribe` may be
overwritten. -/
theorem asked_emitted {g : ℕ} {event : Event} (hready : ¬ event.isReady = true)
    (hspares : Spares (h ++ (System.see (g, .emitted event)).obs s))
    (hasked : owed h = true → Asked h s)
    (howed : owed (h ++ (System.see (g, .emitted event)).obs s) = true) :
    Asked (h ++ (System.see (g, .emitted event)).obs s)
      ((System.see (g, .emitted event)).state s) := by
  have hobs : (System.see (g, .emitted event)).obs s = .wire (g, .emitted event) ::
      (System.broadcast (g, event)).obs s := rfl
  have hring : ((System.see (g, .emitted event)).state s).ring = s.ring.send (g, event) := rfl
  have hlast : (s.ring.send (g, event)).unread.getLast? = some (g, event) := by
    rw [BroadcastRing.unread_send, List.getLast?_concat]
  have hquiet : ∀ note ∈ (System.broadcast (g, event)).obs s,
      owedBy note = none ∧ startingBy note = none := by
    intro note hn
    rcases System.broadcast_cases s (g, event) with ⟨ho, -⟩ | ⟨lost, ho, -⟩
    · simp [ho] at hn
    · rw [ho, List.mem_singleton] at hn
      subst hn
      exact ⟨rfl, rfl⟩
  rw [hobs] at hspares howed ⊢
  have hstarting : starting (h ++ .wire (g, .emitted event) ::
      (System.broadcast (g, event)).obs s) = starting h := by
    refine starting_append_of_nil (List.filterMap_eq_nil_iff.mpr fun note hn => ?_)
    rcases List.mem_cons.mp hn with rfl | hn
    · rfl
    · exact (hquiet note hn).2
  have hby : owedBy (.wire (g, .emitted event)) = none := by
    cases event with
    | ready epoch => simp [Event.isReady] at hready
    | _ => rfl
  have hsame : owed (h ++ [.wire (g, .emitted event)]) = owed h :=
    owed_append_of_nil (by simp [hby])
  rw [List.append_cons, owed_append_of_nil (List.filterMap_eq_nil_iff.mpr fun note hn =>
    (hquiet note hn).1), hsame] at howed
  rcases hasked howed with ⟨e, he, hask⟩ | hstart
  · rcases System.broadcast_cases s (g, event) with ⟨-, hmem⟩ | ⟨lost, ho, hmem⟩
    · exact .inl ⟨e, hring ▸ hmem e he, hask⟩
    · rcases hmem e he with he | rfl
      · exact .inl ⟨e, hring ▸ he, hask⟩
      · -- It is overwritten, which the run allows only where the debt is paid otherwise.
        obtain ⟨g', lost⟩ := e
        rw [ho, List.append_cons] at hspares
        have hat := (each_snoc.mp hspares).2
        cases lost with
        | resubscribe epoch =>
          rcases hat with hnot | hstart | hleft | hleft
          · rw [hsame, howed] at hnot
            simp at hnot
          · rw [starting_append_of_nil rfl] at hstart
            exact .inr (hstarting.trans hstart)
          · obtain ⟨e, he, hask⟩ := List.any_eq_true.mp hleft
            exact .inl ⟨e, hring ▸ he, hask⟩
          · rw [hlast] at hleft
            exact absurd hleft hready
        | _ => simp [Event.isResubscribe] at hask
  · exact .inr (hstarting.trans hstart)

/-- One more thing the runner shows, in a history where every announcement is followed by its
`Resubscribe`. -/
theorem asked_see {x : Seen Caller} {rest : List (Seen Caller)}
    (hannounces : Announces (wires h ++ x :: rest))
    (hspares : Spares (h ++ (System.see x).obs s))
    (hasked : owed h = true → Asked h s ∨ Announcing h) :
    owed (h ++ (System.see x).obs s) = true →
      Asked (h ++ (System.see x).obs s) ((System.see x).state s) ∨
        Announcing (h ++ (System.see x).obs s) := by
  -- What follows an announcement is its `Resubscribe`.
  have hnext : Announcing h → ∃ g epoch, x = (g, .emitted (.resubscribe epoch)) := by
    rintro ⟨l, g, epoch, hl⟩
    rw [hl, List.append_assoc, List.singleton_append] at hannounces
    obtain ⟨post, hpost⟩ := hannounces l g epoch (x :: rest) rfl
    exact ⟨g, epoch, (List.cons.inj hpost).1⟩
  obtain ⟨g, y⟩ := x
  cases y with
  | emitted event =>
    intro howed
    by_cases hready : event.isReady = true
    · cases event with
      | ready epoch =>
        refine .inr ⟨wires h, g, epoch, ?_⟩
        show wires (h ++ .wire (g, .emitted (.ready epoch)) ::
          (System.broadcast (g, .ready epoch)).obs s) = _
        rcases System.broadcast_cases s (g, .ready epoch) with ⟨ho, -⟩ | ⟨lost, ho, -⟩
        · simp [ho, wires]
        · simp [ho, wires]
      | _ => simp [Event.isReady] at hready
    by_cases hresubscribe : event.isResubscribe = true
    · exact .inl (.inl ⟨(g, event), BroadcastRing.mem_send_self, hresubscribe⟩)
    have hnot : ¬ Announcing h := by
      intro ha
      obtain ⟨g', epoch, heq⟩ := hnext ha
      obtain ⟨-, hevent⟩ := Prod.mk.inj heq
      obtain rfl := Obs.emitted.inj hevent
      simp [Event.isResubscribe] at hresubscribe
    exact .inl (asked_emitted hready hspares (fun howed => (hasked howed).resolve_right hnot)
      howed)
  | _ =>
    intro howed
    have hnot : ¬ Announcing h := fun ha => by
      obtain ⟨g', epoch, heq⟩ := hnext ha
      simp at heq
    have hsame : owed h = true := by rwa [owed_append_of_nil (by rfl)] at howed
    rcases (hasked hsame).resolve_right hnot with hunread | hstart
    · exact .inl (.inl hunread)
    · exact .inl (.inr ((starting_append_of_nil rfl).trans hstart))

/-- Everything the runner shows in a step. -/
theorem asked_forM (o : List (Seen Caller)) (hannounces : Announces (wires h ++ o))
    (hspares : Spares (h ++ (o.forM System.see).obs s))
    (hasked : owed h = true → Asked h s ∨ Announcing h) :
    owed (h ++ (o.forM System.see).obs s) = true →
      Asked (h ++ (o.forM System.see).obs s) ((o.forM System.see).state s) ∨
        Announcing (h ++ (o.forM System.see).obs s) := by
  induction o generalizing h s with
  | nil => simpa using hasked
  | cons x o ih =>
    have hobs : ((x :: o).forM System.see).obs s =
        (System.see x).obs s ++ (o.forM System.see).obs ((System.see x).state s) := rfl
    have hstate : ((x :: o).forM System.see).state s =
        (o.forM System.see).state ((System.see x).state s) := rfl
    have hwires : wires (h ++ (System.see x).obs s) ++ o = wires h ++ x :: o := by
      have hone := System.wires_forM_see [x] s
      have hsingle : ([x].forM System.see).obs s = (System.see x).obs s := by
        show (System.see x).obs s ++ [] = (System.see x).obs s
        rw [List.append_nil]
      rw [wires_append, ← hsingle, hone, List.append_assoc]
      rfl
    rw [hobs, ← List.append_assoc] at hspares ⊢
    rw [hstate]
    exact ih (hwires ▸ hannounces) hspares (asked_see hannounces hspares.of_append hasked)

end runner

/-- A replay that is owed is asked for. -/
def Owing (h : List Note) (s : System) : Prop := owed h = true → Asked h s

/-- Nothing is about to begin unless the supervisor is about to take a snapshot. -/
def Starts (h : List Note) (s : System) : Prop :=
  starting h = true → ∃ epoch g, s.supervisor = .replaying epoch g

/-- The note is one of the runner or of a snapshot, or of an event received. -/
def Note.Stirs : Note → Prop
  | .wire _ | .received _ | .replayStarted .. => True
  | _ => False

theorem filterMap_of_not_stirs {o : List Note} (ho : ∀ note ∈ o, ¬ note.Stirs) :
    o.filterMap owedBy = [] ∧ o.filterMap startingBy = [] := by
  rw [List.filterMap_eq_nil_iff, List.filterMap_eq_nil_iff]
  constructor
  all_goals
    intro note hn
    cases note with
    | wire | received | replayStarted => exact absurd trivial (ho _ hn)
    | _ => rfl

theorem not_stirs_notes (c : Caller) (p : Progress) : ∀ note ∈ p.notes c, ¬ note.Stirs := by
  cases p <;> simp [Progress.notes, Note.Stirs]

theorem not_stirs_loop (s : System) (epoch : Epoch) (g restored : ℕ) (entries : List Replayed) :
    ∀ note ∈ (s.loop epoch g restored entries).2, ¬ note.Stirs := by
  cases entries <;> simp [System.loop, Note.Stirs]

theorem unread_loop (s : System) (epoch : Epoch) (g restored : ℕ) (entries : List Replayed) :
    (s.loop epoch g restored entries).1.ring = s.ring := by
  cases entries <;> rfl

section moves

variable {h o : List Note} {s s' : System}

/-- A step that does not stir. -/
theorem Owing.frame (hw : Owing h s) (ho : ∀ note ∈ o, ¬ note.Stirs)
    (hring : s'.ring.unread = s.ring.unread) : Owing (h ++ o) s' := by
  obtain ⟨howed, hstarting⟩ := filterMap_of_not_stirs ho
  intro hh
  rw [owed_append_of_nil howed] at hh
  rcases hw hh with hunread | hstart
  · exact .inl (hring ▸ hunread)
  · exact .inr ((starting_append_of_nil hstarting).trans hstart)

theorem Starts.frame (hs : Starts h s) (ho : ∀ note ∈ o, ¬ note.Stirs)
    (hsup : s'.supervisor = s.supervisor ∨ ∀ epoch g, s.supervisor ≠ .replaying epoch g) :
    Starts (h ++ o) s' := by
  intro hstart
  rw [starting_append_of_nil (filterMap_of_not_stirs ho).2] at hstart
  obtain ⟨epoch, g, hreplaying⟩ := hs hstart
  rcases hsup with hsup | hsup
  · exact ⟨epoch, g, hsup.trans hreplaying⟩
  · exact absurd hreplaying (hsup epoch g)

/-- A snapshot pays the debt. -/
theorem owed_of_snapshot (g : ℕ) (ids : List String) (ho : ∀ note ∈ o, ¬ note.Stirs) :
    owed (h ++ .replayStarted g ids :: o) = false ∧
      starting (h ++ .replayStarted g ids :: o) = false := by
  obtain ⟨howed, hstarting⟩ := filterMap_of_not_stirs ho
  rw [List.append_cons, owed_append_of_nil howed, starting_append_of_nil hstarting]
  exact ⟨owed_snoc_of_some rfl, starting_snoc_of_some rfl⟩

theorem Starts.move (hs : Starts h s) (hm : s.Move o s') : Starts (h ++ o) s' := by
  have hnil : ∀ note ∈ ([] : List Note), ¬ note.Stirs := by simp
  cases hm with
  | runner hw hoffer hs₁ hs' hnotes =>
    rw [System.state_forM_see, hs₁] at hs'
    intro hstart
    rw [starting_append_of_nil] at hstart
    · rw [hs']
      exact hs hstart
    · rw [List.filterMap_eq_nil_iff]
      intro note hn
      rcases System.mem_runner hnotes hn with ⟨x, -, rfl⟩ | ⟨lost, left, rfl⟩ | rfl <;> rfl
  | record hcall => exact hs.frame (by simp [Note.Stirs]) (.inl rfl)
  | @resume k key call s₁ p hcall hp => exact hs.frame (not_stirs_notes _ p) (.inl hp.same.2.1)
  | @receive event ring hsup hrecv =>
    intro hstart
    obtain ⟨g, event⟩ := event
    -- The supervisor was waiting for an event, so no snapshot was due.
    have hnot : starting h = false := by
      rw [Bool.eq_false_iff]
      intro hstart
      obtain ⟨epoch, g', heq⟩ := hs hstart
      rw [hsup] at heq
      simp at heq
    cases event with
    | resubscribe epoch => exact ⟨epoch, g, rfl⟩
    | _ =>
      rw [starting_append_of_nil (by rfl), hnot] at hstart
      simp at hstart
  | lag hsup hrecv => exact hs.frame hnil (.inr (by simp [hsup]))
  | finish hsup =>
    refine hs.frame hnil (.inr ?_)
    rcases hsup with ⟨hsup, -⟩ | ⟨_, _, hsup⟩ <;> simp [hsup]
  | lose hsup => exact hs.frame hnil (.inr (by simp [hsup]))
  | snapshot hsup =>
    intro hstart
    rw [(owed_of_snapshot _ _ (not_stirs_loop _ _ _ _ _)).2] at hstart
    simp at hstart
  | @issue r call s₁ p hsup hp => exact hs.frame (not_stirs_notes _ p) (.inr (by simp [hsup]))
  | rekey hsup hs₁ =>
    refine hs.frame (fun note hn => ?_) (.inr (by simp [hsup]))
    rcases List.mem_cons.mp hn with rfl | hn
    · exact id
    · exact not_stirs_loop _ _ _ _ _ note hn
  | remove hsup hs₁ =>
    refine hs.frame (fun note hn => ?_) (.inr (by simp [hsup]))
    rcases List.mem_cons.mp hn with rfl | hn
    · exact id
    · exact not_stirs_loop _ _ _ _ _ note hn
  | forward hsup => exact hs.frame hnil (.inr (by simp [hsup]))
  | _ => exact hs.frame hnil (.inl rfl)

/-- **Every step that spares what is needed keeps a replay that is owed asked for.** -/
theorem Owing.move (hw : Owing h s) (hspares : Spares (h ++ o))
    (hannounces : Announces (wires (h ++ o))) (hm : s.Move o s') : Owing (h ++ o) s' := by
  have hnil : ∀ note ∈ ([] : List Note), ¬ note.Stirs := by simp
  cases hm with
  | @runner input world seen s₁ _ _ hw' hoffer hs₁ hs' hnotes =>
    have hring : s₁.ring = s.ring := by rw [hs₁]
    have hall : wires (h ++ (seen.forM System.see).obs s₁) = wires h ++ seen := by
      rw [wires_append, System.wires_forM_see]
    have hstop : ∀ note ∈ (if s₁.stopped && !s.stopped then [Note.stopped] else []),
        ¬ note.Stirs := by
      intro note hn
      split at hn
      · obtain rfl := List.mem_singleton.mp hn
        exact id
      · simp at hn
    have hwires : wires (if s₁.stopped && !s.stopped then [Note.stopped] else []) = [] := by
      split <;> rfl
    rw [hnotes, ← List.append_assoc] at hspares hannounces ⊢
    rw [wires_append, hwires, List.append_nil, hall] at hannounces
    have hstep := asked_forM seen hannounces hspares.of_append (s := s₁) fun howed =>
      .inl ((hw howed).imp_left fun hunread => hring ▸ hunread)
    have howing : Owing (h ++ (seen.forM System.see).obs s₁) s' := by
      intro howed
      rw [hs']
      refine (hstep howed).resolve_right ?_
      -- Nothing follows the last announcement, which its `Resubscribe` would.
      rintro ⟨l, g, epoch, hl⟩
      rw [← hall, hl] at hannounces
      obtain ⟨post, hpost⟩ := hannounces l g epoch [] rfl
      simp at hpost
    exact howing.frame hstop rfl
  | record hcall => exact hw.frame (by simp [Note.Stirs]) rfl
  | @resume k key call s₁ p hcall hp =>
    have hring := hp.same.2.2
    exact hw.frame (not_stirs_notes _ p) (congrArg BroadcastRing.unread hring)
  | @receive event ring hsup hrecv =>
    rcases BroadcastRing.recv_cases hrecv with ⟨heq, -⟩ | ⟨b, heq, hunread⟩
    · simp at heq
    · obtain rfl := Received.value.inj heq
      obtain ⟨g, event⟩ := event
      intro howed
      rw [owed_append_of_nil (by rfl)] at howed
      by_cases hresubscribe : event.isResubscribe = true
      · -- The supervisor takes the snapshot next.
        cases event with
        | resubscribe epoch => exact .inr (starting_snoc_of_some rfl)
        | _ => simp [Event.isResubscribe] at hresubscribe
      · rcases hw howed with ⟨e, he, hask⟩ | hstart
        · rw [hunread] at he
          rcases List.mem_cons.mp he with rfl | he
          · exact absurd hask hresubscribe
          · exact .inl ⟨e, he, hask⟩
        · refine .inr ?_
          cases event with
          | resubscribe epoch => exact starting_snoc_of_some rfl
          | _ => exact (starting_append_of_nil (by rfl)).trans hstart
  | lag hsup hrecv =>
    refine hw.frame hnil ?_
    rcases BroadcastRing.recv_cases hrecv with ⟨-, hunread⟩ | ⟨b, heq, -⟩
    · exact hunread
    · simp at heq
  | snapshot hsup =>
    intro howed
    rw [(owed_of_snapshot _ _ (not_stirs_loop _ _ _ _ _)).1] at howed
    simp at howed
  | @issue r call s₁ p hsup hp =>
    have hring := hp.same.2.2
    exact hw.frame (not_stirs_notes _ p) (congrArg BroadcastRing.unread hring)
  | rekey hsup hs₁ =>
    refine hw.frame (fun note hn => ?_) (by rw [unread_loop, hs₁])
    rcases List.mem_cons.mp hn with rfl | hn
    · exact id
    · exact not_stirs_loop _ _ _ _ _ note hn
  | remove hsup hs₁ =>
    refine hw.frame (fun note hn => ?_) (by rw [unread_loop, hs₁])
    rcases List.mem_cons.mp hn with rfl | hn
    · exact id
    · exact not_stirs_loop _ _ _ _ _ note hn
  | _ => exact hw.frame hnil rfl

end moves

/-- **Every login is followed by a replay, as long as what is needed is spared**, in every
state of every run. -/
theorem replays_of_spares {config : Config} {h : List Note} {s : System}
    (hrun : Run System.step (System.init config) h s) (hspares : Spares h) : Replays h s := by
  have howing : Owing h s := by
    induction hrun with
    | start =>
      intro howed
      simp [owed] at howed
    | step hr hs ih =>
      have hannounces := (World.announced (linked_run (hr.step hs)).run).2
      exact (ih hspares.of_append).move hspares hannounces (System.step_move hs)
  have hstarts : Starts h s :=
    hrun.invariant (by intro hstart; simp [starting] at hstart)
      fun hI hs => hI.move (System.step_move hs)
  intro hunread _ houtside hphase
  obtain ⟨epoch, hx⟩ := (World.announced (linked_run hrun).run).1 hphase
  refine replayedSince_of_not_owed ⟨_, epoch, mem_wires.mp hx⟩ ?_
  rw [Bool.eq_false_iff]
  intro howed
  rcases howing howed with ⟨e, he, -⟩ | hstart
  · rw [hunread] at he
    simp at he
  · obtain ⟨epoch, g, hsup⟩ := hstarts hstart
    rw [hsup] at houtside
    exact houtside trivial

/-! ### Two runs -/

instance (pre : List Note) : (x : Note) → Decidable (SparesAt pre x)
  | .overwrote (_, .resubscribe _) left => inferInstanceAs (Decidable (owed pre = false ∨
      starting pre = true ∨ (left.any fun e => e.2.isResubscribe) = true ∨
      (left.getLast?.any fun e => e.2.isReady) = true))
  | .overwrote (_, .connecting _) _ | .overwrote (_, .connected _) _ | .overwrote (_, .ready _) _
  | .overwrote (_, .frame _) _ | .overwrote (_, .disconnected _) _ | .overwrote (_, .fatal _) _
  | .overwrote (_, .lagged _) _ | .wire _ | .stopped | .returned .. | .inserted .. | .received _
  | .replayStarted .. | .issued .. | .rekeyed .. | .removed .. | .replayed .. => isTrue trivial

instance (h : List Note) : Decidable (Spares h) := inferInstanceAs (Decidable (Each SparesAt h))

/-- A client whose ring holds two events. -/
def tightConfig : Config := { demoConfig with eventCapacity := 2 }

/-- A ring of two events overwrites the first ones, and the supervisor reads the rest. -/
def readsInTime : List Label :=
  connects "m0" ++ [.supervise, .supervise, .supervise, .supervise, .receive, .supervise,
    .supervise, .receive, .supervise]

theorem readsInTime_enabled :
    (execute System.step (System.init tightConfig) readsInTime).isSome := by
  decide +kernel

/-- Events were overwritten, and the replay was started. -/
theorem replays_readsInTime : ∃ (h : List Note) (s : System),
    Run System.step (System.init tightConfig) h s ∧ Spares h ∧ snapshots h = [0] ∧
      ¬ s.supervisor.InReplay ∧ s.world.runner.session.phase = .ready ∧ Replays h s := by
  have hrun := run_execute readsInTime readsInTime_enabled
  have hspares : Spares ((execute System.step (System.init tightConfig) readsInTime).get
      readsInTime_enabled).2 := by decide +kernel
  exact ⟨_, _, hrun, hspares, by decide +kernel, by decide +kernel, by decide +kernel,
    replays_of_spares hrun hspares⟩

/-- Two frames arrive before the supervisor reads anything. -/
def readsLate : List Label :=
  connects "m0" ++ unwritten ++ [hears (.changed "stream-room-messages" "id" none none)] ++
    unwritten ++ [hears (.changed "stream-room-messages" "id" none none)] ++
    [.supervise, .supervise, .supervise, .supervise, .receive, .supervise, .supervise]

theorem readsLate_enabled :
    (execute System.step (System.init tightConfig) readsLate).isSome := by
  decide +kernel

/-- **A frame that overwrites the only `Resubscribe` loses the replay**: the supervisor has
read everything, the session is ready, and no replay was ever started. -/
theorem not_replays : ¬ ∀ (config : Config) (h : List Note) (s : System),
    Run System.step (System.init config) h s → Replays h s := by
  intro hall
  have hreplays := hall _ _ _ (run_execute readsLate readsLate_enabled)
  have hunread : ((execute System.step (System.init tightConfig) readsLate).get
      readsLate_enabled).1.ring.unread = [] := by
    rw [← List.isEmpty_iff]
    decide +kernel
  have hnone : snapshots ((execute System.step (System.init tightConfig) readsLate).get
      readsLate_enabled).2 = [] := by decide +kernel
  obtain ⟨pre, g, epoch, post, hsplit, -, g', ids, hstarted⟩ :=
    hreplays hunread (by decide +kernel) (by decide +kernel) (by decide +kernel)
  have hmem : g' ∈ snapshots ((execute System.step (System.init tightConfig) readsLate).get
      readsLate_enabled).2 := by
    refine mem_snapshots.mpr ⟨ids, ?_⟩
    rw [hsplit]
    exact List.mem_append_right _ (List.mem_cons_of_mem _ hstarted)
  rw [hnone] at hmem
  simp at hmem

end RocketSocket
