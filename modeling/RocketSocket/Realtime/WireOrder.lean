import RocketSocket.Realtime.Ledger
import RocketSocket.Realtime.Runner

/-!
# The order of frames on the wire

What reaches the sink of each socket, in which order: `connect` first, nothing of the
application before a login was answered, no application frame ahead of a protocol frame,
and no protocol frame on a socket it was not queued for.

## Main definitions

* `lastLogin` — the id of the last login among some protocol frames.
* `Logins` — what the session knows about the logins of the current generation.

## Main results

* `wire_order` — **the order of frames on the wire**, over every run of the runner.
-/

namespace RocketSocket

open Machine

variable {κ : Type} {cause : Cause}

/-- The id of a login, the only method on the priority lane. -/
def loginId (out : Outbound) : Option String :=
  match out.frame with
  | .method id _ _ => some id
  | _ => none

/-- The id of the last login among some protocol frames. -/
def lastLogin (frames : List Outbound) : Option String := (frames.filterMap loginId).getLast?

theorem lastLogin_snoc_of_none {frames : List Outbound} {out : Outbound}
    (hout : loginId out = none) : lastLogin (frames ++ [out]) = lastLogin frames := by
  simp [lastLogin, hout]

theorem lastLogin_snoc_of_some {frames : List Outbound} {out : Outbound} {id : String}
    (hout : loginId out = some id) : lastLogin (frames ++ [out]) = some id := by
  simp [lastLogin, hout]

/-! ### What the session knows of its logins -/

/-- The first protocol frame of a generation opens it, at most one socket is opened in it,
a login that is outstanding is the last one queued, and a ready session had its last login
answered. -/
structure Logins (h : List (Seen κ)) (w : Wire κ) : Prop where
  first : ∀ g, ∀ out ∈ (pushedOn g h).head?, out.frame = .opening
  opened : ∀ g, (g, .opened) ∈ h ↔ pushedOn g h ≠ []
  down : w.session.phase = .disconnected → pushedOn w.generation h = []
  up : w.session.Live → pushedOn w.generation h ≠ []
  login : w.session.Live → ∀ id, w.session.loginCall = some id →
    lastLogin (pushedOn w.generation h) = some id
  ready : w.session.phase = .ready → ∃ id result, lastLogin (pushedOn w.generation h) = some id ∧
    (w.generation, .received (.result id result none)) ∈ h

namespace Logins

variable {h o : List (Seen κ)} {w w' : Wire κ}

theorem init : Logins [] (.init : Wire κ) where
  first := fun _ _ hx => by simp [pushedOn] at hx
  opened := fun _ => by simp [pushedOn]
  down := fun _ => rfl
  up := fun hl => absurd rfl hl.1
  login := fun hl => absurd rfl hl.1
  ready := fun hr => by simp [Wire.init, Session.new] at hr

/-- A step that queues no protocol frame and leaves the session alone. -/
theorem frame (hl : Logins h w) (hpushed : ∀ g, pushedOn g o = [])
    (hopened : ∀ g, (g, .opened) ∉ o) (hsession : w'.session = w.session)
    (hgen : w'.generation = w.generation) : Logins (h ++ o) w' := by
  have hsame : ∀ g, pushedOn g (h ++ o) = pushedOn g h := by
    intro g
    rw [pushedOn_append, hpushed, List.append_nil]
  refine ⟨?_, ?_, ?_, ?_, ?_, ?_⟩
  · intro g
    rw [hsame]
    exact hl.first g
  · intro g
    rw [hsame, List.mem_append, or_iff_left (hopened g)]
    exact hl.opened g
  · rw [hsession, hgen, hsame]
    exact hl.down
  · rw [hsession, hgen, hsame]
    exact hl.up
  · rw [hsession, hgen, hsame]
    exact hl.login
  · rw [hsession, hgen, hsame]
    intro hready
    obtain ⟨id, result, hid, hmem⟩ := hl.ready hready
    exact ⟨id, result, hid, List.mem_append_left _ hmem⟩

/-- A frame that was received moves the session on. -/
theorem hear (hl : Logins h w) (message : ServerMessage) (hlive : w.session.Live) :
    Logins (h ++ [(w.generation, .received message)])
      { w with session := (w.session.handle message).1 } := by
  have hframe : Logins (h ++ [(w.generation, .received message)]) w :=
    hl.frame (fun _ => rfl) (by simp) rfl rfl
  have hup := hframe.up hlive
  have hlogin := hframe.login hlive
  rcases w.session.handle_cases message with ⟨_, rfl, he⟩ | ⟨_, rfl, he⟩ |
    ⟨id, result, rfl, hid, he⟩ | ⟨_, _, _, rfl, -, he⟩ | ⟨_, rfl, he⟩ | ⟨_, he⟩ | he
  · rw [he]
    exact ⟨hframe.first, hframe.opened, by simp, fun _ => hup, fun _ => hlogin, by simp⟩
  · rw [he]
    exact ⟨hframe.first, hframe.opened, by simp, fun hl' => absurd rfl hl'.2,
      fun hl' => absurd rfl hl'.2, by simp⟩
  · rw [he]
    refine ⟨hframe.first, hframe.opened, by simp, fun _ => hup, by simp, fun _ => ?_⟩
    exact ⟨id, result, hlogin id hid, by simp⟩
  · rw [he]
    exact ⟨hframe.first, hframe.opened, by simp, fun hl' => absurd rfl hl'.2,
      fun hl' => absurd rfl hl'.2, by simp⟩
  all_goals
    rw [he]
    exact hframe

/-- A protocol frame is queued behind the one that opened the socket. -/
theorem push (hl : Logins h w) {out : Outbound} (hlive : w.session.Live)
    (hgen : w'.generation = w.generation) (hphase : w'.session.phase = w.session.phase)
    (hlogin : ∀ id, w'.session.loginCall = some id → lastLogin (pushedOn w.generation h ++ [out]) =
      some id)
    (hready : w.session.phase = .ready → loginId out = none) :
    Logins (h ++ [(w.generation, .pushed out)]) w' := by
  -- The frame is one of this generation.
  have hpushed : ∀ g, pushedOn g (h ++ [(w.generation, .pushed out)]) =
      pushedOn g h ++ if w.generation = g then [out] else [] := by
    intro g
    by_cases hg : w.generation = g
    · simp [pushedOn, hg]
    · simp [pushedOn, hg]
  have hcurrent : pushedOn w.generation (h ++ [(w.generation, .pushed out)]) =
      pushedOn w.generation h ++ [out] := by rw [hpushed, if_pos rfl]
  have hup := hl.up hlive
  refine ⟨fun g x hx => ?_, fun g => ?_, fun hd => ?_, fun _ => ?_, fun _ id hid => ?_,
    fun hr => ?_⟩
  · -- It is not the first of its generation, which is up.
    rw [hpushed] at hx
    by_cases hg : w.generation = g
    · subst hg
      rw [List.head?_append_of_ne_nil _ hup] at hx
      exact hl.first _ x hx
    · rw [if_neg hg, List.append_nil] at hx
      exact hl.first g x hx
  · rw [hpushed]
    by_cases hg : w.generation = g
    · subst hg
      simpa using (hl.opened _).mpr hup
    · simpa [hg] using hl.opened g
  · exact absurd (hphase ▸ hd) hlive.1
  · rw [hgen, hcurrent]
    simp
  · rw [hgen, hcurrent]
    exact hlogin id hid
  · -- Once ready, no login is queued, so the last one stays.
    rw [hphase] at hr
    obtain ⟨id, result, hid, hmem⟩ := hl.ready hr
    refine ⟨id, result, ?_, ?_⟩
    · rw [hgen, hcurrent, lastLogin_snoc_of_none (hready hr)]
      exact hid
    · rw [hgen]
      exact List.mem_append_left _ hmem

/-- **Every wire step keeps what the session knows of its logins.** -/
theorem step (hq : Queues h w) (hl : Logins h w) (hs : Wire.Step cause w o w') :
    Logins (h ++ o) w' := by
  cases hs with
  | emitted event hevent => exact hl.frame (fun _ => rfl) (by simp) rfl rfl
  | ready epoch => exact hl.frame (fun _ => rfl) (by simp) rfl rfl
  | connect hphase =>
    have hnil := hl.down hphase
    -- The opening frame is the first that is pushed on the new connection.
    have hpushed : ∀ g, pushedOn g (h ++ [(w.generation, .opened),
        (w.generation, .pushed ⟨.opening, none⟩)]) =
        if w.generation = g then [⟨.opening, none⟩] else pushedOn g h := by
      intro g
      by_cases hg : w.generation = g
      · subst hg
        rw [pushedOn_append, hnil]
        simp [pushedOn]
      · simp [pushedOn, hg]
    refine ⟨fun g x hx => ?_, fun g => ?_, by simp, fun _ => ?_, by simp, by simp⟩
    · rw [hpushed] at hx
      split at hx
      · simp at hx
        rw [← hx]
      · exact hl.first g x hx
    · rw [hpushed]
      by_cases hg : w.generation = g
      · simp [hg]
      · have hmem : ((g, .opened) : Seen κ) ∈ h ++ [(w.generation, .opened),
            (w.generation, .pushed ⟨.opening, none⟩)] ↔ (g, .opened) ∈ h := by
          simp [Ne.symm hg]
        rw [hmem, if_neg hg]
        exact hl.opened g
    · show pushedOn w.generation _ ≠ []
      rw [hpushed, if_pos rfl]
      simp
  | hear message hlive => exact hl.hear message hlive
  | push frame hlive hframe =>
    -- A frame that is pushed with no call is no login.
    have hnone : loginId ⟨frame, none⟩ = none := by
      cases frame with
      | method id method params => exact absurd rfl (hframe id method params)
      | _ => rfl
    refine hl.push hlive rfl rfl (fun id hid => ?_) fun _ => hnone
    rw [lastLogin_snoc_of_none hnone]
    exact hl.login hlive id hid
  | login params hphase =>
    have hlive : w.session.Live := by simp [Session.Live, hphase]
    refine hl.push hlive rfl rfl (fun id hid => ?_) fun hr => ?_
    · rw [@lastLogin_snoc_of_some _ _ (w.nextMark .methods).id rfl]
      exact hid
    · rw [hphase] at hr
      simp at hr
  | hand accepted hlive hready =>
    rcases Wire.hand_cases w accepted with ⟨out, rest, -, ho, hw⟩ | ⟨out, rest, -, -, ho, hw⟩ |
      ⟨-, -, ho, hw⟩
    all_goals
      rw [ho, hw]
      exact hl.frame (fun _ => rfl) (by simp) rfl rfl
  | flushed => exact hl.frame (fun _ => rfl) (by simp) rfl rfl
  | answer ha =>
    refine hl.frame (fun g => ?_) (fun g hm => ?_) rfl rfl
    · exact ((nil_of_not_moves fun x hx => (Wire.obs_answer_of_mem hx).2).2.2.2.1 g).1
    · obtain ⟨y, -, hy⟩ := List.mem_map.mp hm
      simp at hy
  | settle why session hlive =>
    -- Nothing was pushed yet on the connection after this one.
    have hnil := (hq.later (Nat.lt_succ_self w.generation)).1
    have hpushed : ∀ g, pushedOn g (w.settleObs why) = [] := fun g =>
      ((nil_of_not_moves fun x hx => (Wire.obs_settle_of_mem hx).2).2.2.2.1 g).1
    have hopened : ∀ g, ((g, .opened) : Seen κ) ∉ w.settleObs why := by
      intro g hm
      obtain ⟨-, h | ⟨m, p, -, h⟩⟩ := (w.mem_settleObs).mp hm <;> simp at h
    have hsame : Logins (h ++ w.settleObs why) w := hl.frame hpushed hopened rfl rfl
    refine ⟨hsame.first, hsame.opened, fun _ => ?_, fun hl' => absurd hl' hlive,
      fun hl' => absurd hl' hlive, fun hr => absurd (Session.live_of_ready hr) hlive⟩
    rw [pushedOn_append, hpushed, List.append_nil]
    exact hnil
  | take command dropped =>
    rcases Wire.take_cases w command dropped with ⟨ho, hw⟩ | ⟨_, -, ho, hw⟩ | ⟨_, ho, hw⟩ |
      ⟨_, _, -, -, ho, hw⟩
    all_goals
      rw [ho, hw]
      exact hl.frame (fun _ => rfl) (by simp) rfl rfl

end Logins

/-! ### The order of frames -/

/-- What a frame passed to the sink has to find: its socket, opened once; `connect`, if it
is the first; and, if it is of the application, a login that was answered on the same
socket with no other login and no other protocol frame waiting. -/
def InOrder (pre : List (Seen κ)) : Seen κ → Prop
  | (g, .opened) => (g, .opened) ∉ pre
  | (g, .handed lane out _) =>
    (g, .opened) ∈ pre ∧
    ((∀ lane' out' accepted, (g, .handed lane' out' accepted) ∉ pre) → out.frame = .opening) ∧
    (lane = .app → handedPriority g pre = pushedOn g pre ∧
      ∃ id result, lastLogin (handedPriority g pre) = some id ∧
        (g, .received (.result id result none)) ∈ pre)
  | _ => True

/-- A socket is opened where nothing was queued, and what is handed over is the head of the
priority lane, or of the application lane when that one is empty. -/
theorem inOrder_step {h o : List (Seen κ)} {w w' : Wire κ} (hq : Queues h w)
    (hl : Logins h w) (hs : Wire.Step cause w o w') : Each (fun pre => InOrder (h ++ pre)) o := by
  cases hs with
  | connect hphase =>
    rw [each_cons, each_singleton]
    refine ⟨fun hm => ?_, trivial⟩
    rw [List.append_nil] at hm
    exact (hl.opened _).mp hm (hl.down hphase)
  | hand accepted hlive hready =>
    have hopened := (hl.opened _).mpr (hl.up hlive)
    rcases Wire.hand_cases w accepted with ⟨out, rest, hlane, ho, -⟩ |
      ⟨out, rest, hnil, -, ho, -⟩ | ⟨-, -, ho, -⟩
    · rw [ho, each_singleton, List.append_nil]
      refine ⟨hopened, fun hfirst => ?_, by simp⟩
      -- Nothing was handed over on this socket, so the head of the lane opens it.
      have hnone : handedPriority w.generation h = [] := by
        rw [handedPriority, List.filterMap_eq_nil_iff]
        rintro ⟨g, y⟩ hy
        split
        · next heq =>
          obtain ⟨rfl, rfl⟩ := Prod.mk.inj heq
          exact if_neg fun hg => hfirst _ _ _ (hg ▸ hy)
        · rfl
      have hpushed := hq.priority
      rw [hnone, List.nil_append, hlane] at hpushed
      exact hl.first w.generation out (by rw [← hpushed]; rfl)
    · rw [ho, each_singleton, List.append_nil]
      have hall : handedPriority w.generation h = pushedOn w.generation h := by
        have hpushed := hq.priority
        rwa [hnil, List.append_nil] at hpushed
      obtain ⟨id, result, hid, hmem⟩ := hl.ready (hready hnil)
      refine ⟨hopened, fun hfirst => ?_, fun _ => ⟨hall, id, result, by rw [hall]; exact hid, hmem⟩⟩
      -- The frame that opened the socket was handed over, so this one is not the first.
      obtain ⟨first, hfirst'⟩ := List.exists_mem_of_ne_nil _ (hall ▸ hl.up hlive)
      obtain ⟨⟨g, y⟩, hy, hread⟩ := List.mem_filterMap.mp hfirst'
      split at hread
      · next heq =>
        obtain ⟨rfl, rfl⟩ := Prod.mk.inj heq
        obtain ⟨hg, -⟩ := Option.ite_none_right_eq_some.mp hread
        exact absurd (hg ▸ hy) (hfirst _ _ _)
      · simp at hread
    · rw [ho]
      exact each_nil
  | answer ha =>
    intro pre x post hx
    obtain ⟨y, -, rfl⟩ := List.mem_map.mp (hx ▸ List.mem_append_cons_self)
    trivial
  | settle why session hlive =>
    rintro pre ⟨g, y⟩ post hx
    have hmem : (g, y) ∈ w.settleObs why := hx ▸ List.mem_append_cons_self
    obtain ⟨-, rfl | ⟨m, p, -, rfl⟩⟩ := (w.mem_settleObs).mp hmem
    · trivial
    · trivial
  | take command dropped =>
    rcases Wire.take_cases w command dropped with ⟨ho, -⟩ | ⟨_, -, ho, -⟩ | ⟨_, ho, -⟩ |
      ⟨_, _, -, -, ho, -⟩
    all_goals
      rw [ho, each_singleton]
      trivial
  | flushed => exact each_nil
  | ready epoch => exact each_cons.mpr ⟨trivial, each_singleton.mpr trivial⟩
  | emitted | hear | login | push =>
    exact each_singleton.mpr trivial

/-- **The order of frames on the wire.**  At most one socket is opened in a generation, and
frames are handed over while one is open.  On each socket `connect` is handed over first,
and a frame of the application only when the last login handed over on that socket was
answered without error and every protocol frame queued for it was handed over.  The
application frames are handed over in the order of the commands that queued them, and
those of the priority lane on the socket they were queued for, in order. -/
theorem wire_order {config : Config} {h : List (Seen κ)} {w : World κ}
    (hrun : Run World.step (World.init config) h w) :
    Each InOrder h ∧ (handedApp h).Sublist (acceptedFrames h) ∧
      ∀ g, handedPriority g h <+: pushedOn g h := by
  obtain ⟨hq, -, horder⟩ := World.wire_invariant
    (I := fun h w => Queues h w ∧ Logins h w ∧ Each InOrder h)
    ⟨.init, .init, each_nil⟩
    (fun hI hs => ⟨hI.1.step hs, Logins.step hI.1 hI.2.1 hs,
      each_append.mpr ⟨hI.2.2, inOrder_step hI.1 hI.2.1 hs⟩⟩) hrun
  exact ⟨horder, (List.sublist_append_left _ _).trans hq.app, hq.handed⟩

/-- A call accepted in a ready session and handed over. -/
def handCall : List (Input ℕ) := becomeReady ++ acceptCall ++ [.sink (.ready (.ok ()))]

theorem handCall_enabled : (execute World.step (World.init demoConfig) handCall).isSome := by
  decide +kernel

/-- In that run an application frame is handed over, and everything is in order. -/
theorem wire_order_handCall : ∃ (h : List (Seen ℕ)) (w : World ℕ),
    Run World.step (World.init demoConfig) h w ∧ (handedApp h).length = 1 ∧
      Each InOrder h ∧ (handedApp h).Sublist (acceptedFrames h) := by
  have horder := wire_order (run_execute handCall handCall_enabled)
  exact ⟨_, _, run_execute handCall handCall_enabled, by decide +kernel, horder.1, horder.2.1⟩

end RocketSocket
