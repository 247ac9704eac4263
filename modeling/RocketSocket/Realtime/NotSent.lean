import RocketSocket.Realtime.Fates
import RocketSocket.Realtime.Runner

/-!
# When a call is reported as not sent

`CallError::NotSent` promises that the server cannot have seen the call.  It is exact as
long as the sink accepts what it is handed: a frame whose `start_send` fails loses its
mark, and its call is reported as not sent although the sink has seen the frame.

## Main definitions

* `notSentCalls`, `ReportedRight` — the promise of `NotSent` and `Abandoned`.
* `SinkKeeps` — the sink never fails on the frame of a call that still waits.

## Main results

* `reportedRight_of_sinkKeeps` — **the promise holds when the sink keeps what it is
  handed.**
* `not_reportedRight` — it is broken by a sink that fails on the frame of a call.
-/

namespace RocketSocket

open Machine

variable {κ : Type} {cause : Cause}

/-- The calls of commands that were told their frame never reached the wire. -/
def notSentCalls (h : List (Seen κ)) : List Mark :=
  h.filterMap fun
    | (_, .settled _ m (.caller _) (.error .notSent)) => some m
    | _ => none

/-- A call is reported as not sent only if its frame was never passed to the sink, and a
call whose frame was, and that got no reply before its generation ended, is told that it
was abandoned. -/
def ReportedRight (h : List (Seen κ)) : Prop :=
  (∀ m ∈ notSentCalls h, m ∉ handedMarks h) ∧
  ∀ g k m why, TookOn g h k m → m ∈ handedMarks h → (g, .ended why) ∈ h →
    ¬ AnsweredOn g h m → (g, .settled none m (.caller k) (.error (.abandoned m.id))) ∈ h

/-- The sink's `start_send` fails on an application frame only when no call waits for
it. -/
def SinkKeeps (h : List (Seen κ)) : Prop :=
  Each (fun pre x => ∀ out m, x.2 = .handed .app out false → out.mark = some m →
    AnsweredOn x.1 pre m) h

@[simp] theorem notSentCalls_append (h o : List (Seen κ)) :
    notSentCalls (h ++ o) = notSentCalls h ++ notSentCalls o := List.filterMap_append

theorem mem_notSentCalls {h : List (Seen κ)} {m : Mark} : m ∈ notSentCalls h ↔
    ∃ g cause k, (g, .settled cause m (.caller k) (.error .notSent)) ∈ h := by
  rw [notSentCalls, List.mem_filterMap]
  constructor
  · rintro ⟨⟨g, y⟩, hx, hm⟩
    split at hm
    · next heq =>
      obtain ⟨rfl, rfl⟩ := Prod.mk.inj heq
      obtain rfl := Option.some.inj hm
      exact ⟨_, _, _, hx⟩
    · simp at hm
  · rintro ⟨g, cause, k, hx⟩
    exact ⟨_, hx, rfl⟩

theorem mem_handedMarks {h : List (Seen κ)} {m : Mark} : m ∈ handedMarks h ↔
    ∃ g lane out accepted, (g, .handed lane out accepted) ∈ h ∧ out.mark = some m := by
  rw [handedMarks, List.mem_filterMap]
  constructor
  · rintro ⟨⟨g, y⟩, hx, hm⟩
    split at hm
    · next heq =>
      obtain ⟨rfl, rfl⟩ := Prod.mk.inj heq
      exact ⟨_, _, _, _, hx, hm⟩
    · simp at hm
  · rintro ⟨g, lane, out, accepted, hx, hm⟩
    exact ⟨_, hx, hm⟩

/-! ### The invariant -/

/-- A call whose frame was handed over and that is still pending is marked as sent, or will
be by the next flush or the end of its generation; and no frame of a call that was reported
as not sent was handed over, or will be. -/
structure Sending (h : List (Seen κ)) (w : Wire κ) : Prop where
  sent : ∀ g out accepted, (g, .handed .app out accepted) ∈ h →
    ∀ m p, out.mark = some m → w.pendingOf m = some p → p.sent = true ∨ m ∈ w.unflushed
  notSent : ∀ m ∈ notSentCalls h, m ∉ handedMarks h ∧ m ∉ w.queueMarks

namespace Sending

variable {h o : List (Seen κ)} {w w' : Wire κ}

theorem init : Sending [] (.init : Wire κ) where
  sent := fun _ _ _ hx => by simp at hx
  notSent := fun _ hm => by simp [notSentCalls] at hm

/-- A step that hands nothing over and reports nothing, after which every pending call is
new or as far as it was, and every waiting frame is new or waited before. -/
theorem frame (hl : Ledger h w) (hs : Sending h w) (hhanded : handedMarks o = [])
    (hreported : notSentCalls o = [])
    (hpending : ∀ m p', w'.pendingOf m = some p' → m ∉ issued h ∨
      ∃ p, w.pendingOf m = some p ∧ (p.sent = true ∨ m ∈ w.unflushed →
        p'.sent = true ∨ m ∈ w'.unflushed))
    (hqueue : ∀ m ∈ w'.queueMarks, m ∈ w.queueMarks ∨ m ∉ issued h) :
    Sending (h ++ o) w' := by
  refine ⟨fun g out accepted hx m p' hm hp' => ?_, fun m hm => ?_⟩
  · rcases List.mem_append.mp hx with hx | hx
    · rcases hpending m p' hp' with hnew | ⟨p, hp, himp⟩
      · exact absurd (issuedOn_subset (hl.fates.handed g .app out accepted hx m hm)) hnew
      · exact himp (hs.sent g out accepted hx m p hm hp)
    · have hmem : m ∈ handedMarks o := mem_handedMarks.mpr ⟨g, .app, out, accepted, hx, hm⟩
      rw [hhanded] at hmem
      simp at hmem
  · rw [notSentCalls_append, hreported, List.append_nil] at hm
    obtain ⟨hh, hq⟩ := hs.notSent m hm
    rw [handedMarks_append, hhanded, List.append_nil]
    refine ⟨hh, fun hq' => ?_⟩
    rcases hqueue m hq' with hq' | hnew
    · exact hq hq'
    · obtain ⟨g, cause, k, hx⟩ := mem_notSentCalls.mp hm
      exact hnew (hl.fates.settled g cause m _ _ hx).2

/-- The frame of a call is handed over: it was not reported, and it is marked when the
sink accepted it. -/
theorem hand (hl : Ledger h w) (hs : Sending h w) {lane : Lane} {out : Outbound}
    {accepted : Bool} (hmark : ∀ m, out.mark = some m → m ∈ w.queueMarks)
    (hkeeps : accepted = false → lane = .app → ∀ m, out.mark = some m →
      AnsweredOn w.generation h m)
    (hpending : ∀ m, w'.pendingOf m = w.pendingOf m)
    (hunflushed : w'.unflushed = w.unflushed ++ if accepted then out.mark.toList else [])
    (hqueue : ∀ m ∈ w'.queueMarks, m ∈ w.queueMarks) :
    Sending (h ++ [(w.generation, .handed lane out accepted)]) w' := by
  refine ⟨fun g out' accepted' hx m p hm hp => ?_, fun m hm => ?_⟩
  · rw [hpending] at hp
    rw [hunflushed, List.mem_append]
    rcases List.mem_append.mp hx with hx | hx
    · exact (hs.sent g out' accepted' hx m p hm hp).imp_right .inl
    · obtain ⟨-, heq⟩ := Prod.mk.inj (List.mem_singleton.mp hx)
      obtain ⟨rfl, rfl, rfl⟩ := Obs.handed.inj heq
      cases accepted' with
      | true => exact .inr (.inr (by simp [hm]))
      | false =>
        -- A frame that the sink refused was answered already, so its call is not pending.
        obtain ⟨message, k, reply, hx⟩ := hkeeps rfl rfl m hm
        have hnone := (hl.fates.settled _ _ _ _ _ hx).1
        rw [Wire.waiterOf, hp] at hnone
        simp at hnone
  · have hsame : notSentCalls (h ++ [(w.generation, .handed lane out accepted)]) =
        notSentCalls h := by simp [notSentCalls]
    rw [hsame] at hm
    obtain ⟨hh, hq⟩ := hs.notSent m hm
    refine ⟨fun hmem => ?_, fun hq' => hq (hqueue m hq')⟩
    rw [handedMarks_append, List.mem_append] at hmem
    rcases hmem with hmem | hmem
    · exact hh hmem
    · exact hq (hmark m (by simpa [handedMarks] using hmem))

/-- Ending the generation reports as not sent only what was never handed over. -/
theorem settle (hl : Ledger h w) (hs : Sending h w) (why : Ending) (session : Session) :
    Sending (h ++ w.settleObs why) { (Wire.settle why).state w with session } := by
  obtain ⟨-, hhanded⟩ := w.nil_of_settle why
  refine ⟨fun g out accepted hx m p hm hp => ?_, fun m hm => ?_⟩
  · simp [Wire.pendingOf, Wire.settle, Act.state] at hp
  · have hqueue : m ∉ Wire.queueMarks { (Wire.settle why).state w with session } := by
      simp [Wire.queueMarks, Wire.settle, Act.state]
    refine ⟨?_, hqueue⟩
    rw [handedMarks_append, hhanded, List.append_nil]
    rw [notSentCalls_append, List.mem_append] at hm
    rcases hm with hm | hm
    · exact (hs.notSent m hm).1
    · obtain ⟨g, cause, k, hx⟩ := mem_notSentCalls.mp hm
      obtain ⟨-, hx | ⟨m', p, hp, hx⟩⟩ := (w.mem_settleObs).mp hx
      · simp at hx
      · obtain ⟨-, rfl, hk, hreply⟩ := Obs.settled.inj hx
        have hunsent : p.sent = false := by
          cases hsent : p.sent with
          | true => simp [hsent] at hreply
          | false => rfl
        -- The flush that ends the generation would have marked the call.
        rw [Wire.pendingOf_flushed] at hp
        intro hmem
        obtain ⟨g', lane, out, accepted, hx', hm⟩ := mem_handedMarks.mp hmem
        have hwaiter : w.waiterOf m = some (.caller k) := by
          rw [Wire.waiterOf]
          split at hp
          · obtain ⟨q, hq, rfl⟩ := Option.map_eq_some_iff.mp hp
            rw [hq, hk]
            rfl
          · rw [hp, hk]
            rfl
        cases lane with
        | priority =>
          have hlogin := hl.login_of_handed hx' hm
          have hcaller := hl.fates.waiter m _ hwaiter
          exact absurd (hlogin.unique hl.ids.nodup hcaller).2 (by simp)
        | app =>
          split at hp
          · obtain ⟨q, -, rfl⟩ := Option.map_eq_some_iff.mp hp
            simp at hunsent
          · next hflush =>
            rcases hs.sent g' out accepted hx' m p hm hp with hsent | hmem
            · rw [hunsent] at hsent
              simp at hsent
            · exact hflush hmem

/-- Steps that hand nothing over and report nothing, and leave every call as it was. -/
theorem quiet (hl : Ledger h w) (hs : Sending h w) (hhanded : handedMarks o = [])
    (hreported : notSentCalls o = []) (htable : w'.table = w.table)
    (hunflushed : w'.unflushed = w.unflushed)
    (hqueue : ∀ m ∈ w'.queueMarks, m ∈ w.queueMarks ∨ m ∉ issued h) : Sending (h ++ o) w' := by
  refine frame hl hs hhanded hreported (fun m p' hp' => .inr ⟨p', ?_, ?_⟩) hqueue
  · rw [← hp', Wire.pendingOf, Wire.pendingOf, htable]
  · rw [hunflushed]
    exact id

/-- A call that is registered now has a mark that was not issued before. -/
theorem pending_register (hl : Ledger h w) {side : Side} (waiter : Waiter κ) {m : Mark}
    {p' : Pending (Waiter κ)} (hp' : ((Wire.register side waiter).state w).pendingOf m = some p') :
    m ∉ issued h ∨ ∃ p, w.pendingOf m = some p ∧ (p.sent = true ∨ m ∈ w.unflushed →
      p'.sent = true ∨ m ∈ w.unflushed) := by
  rw [Wire.pendingOf_register] at hp'
  split at hp'
  · next hm => exact .inl (hm ▸ hl.ids.fresh side)
  · exact .inr ⟨p', hp', id⟩

/-- A frame that joins the application lane has no mark or a new one. -/
theorem mem_queueMarks_app {out : Outbound} (hout : ∀ m, out.mark = some m → m ∉ issued h)
    {m : Mark} (hm : m ∈ Wire.queueMarks { w with app := w.app ++ [out] }) :
    m ∈ w.queueMarks ∨ m ∉ issued h := by
  rw [Wire.mem_queueMarks] at hm ⊢
  rcases hm with hm | ⟨out', hout', hm⟩
  · exact .inl (.inl hm)
  · rcases List.mem_append.mp hout' with hout' | hout'
    · exact .inl (.inr ⟨out', hout', hm⟩)
    · obtain rfl := List.mem_singleton.mp hout'
      exact .inr (hout m hm)

/-- The login waits in the priority lane, under a new mark. -/
theorem step_login (hl : Ledger h w) (hs : Sending h w) (params : List Value) :
    Sending (h ++ (Wire.login params).obs w) ((Wire.login params).state w) := by
  refine frame hl hs rfl rfl (fun m p' hp' => pending_register hl .login hp') (fun m hm => ?_)
  rw [Wire.state_login, Wire.mem_queueMarks] at hm
  rcases hm with ⟨out, hout, hm⟩ | hm
  · rcases List.mem_append.mp hout with hout | hout
    · exact .inl (Wire.mem_queueMarks.mpr (.inl ⟨out, hout, hm⟩))
    · obtain rfl := List.mem_singleton.mp hout
      obtain rfl := Option.some.inj hm
      exact .inr (hl.ids.fresh .methods)
  · exact .inl (Wire.mem_queueMarks.mpr (.inr hm))

/-- A frame is handed over to a sink that keeps what it is handed. -/
theorem step_hand (hl : Ledger h w) (hs : Sending h w) (accepted : Bool)
    (hkeeps : SinkKeeps (h ++ (Wire.hand accepted).obs w)) :
    Sending (h ++ (Wire.hand accepted).obs w) ((Wire.hand accepted).state w) := by
  rcases Wire.hand_cases w accepted with ⟨out, rest, hlane, ho, hw⟩ |
    ⟨out, rest, hnil, hlane, ho, hw⟩ | ⟨-, -, ho, hw⟩
  · rw [ho, hw]
    -- The front of the priority lane is handed over,
    refine hand hl hs (fun m hm => ?_) (by simp) (fun _ => rfl) rfl (fun m hm => ?_)
    · exact Wire.mem_queueMarks.mpr (.inl ⟨out, by simp [hlane], hm⟩)
    · rw [Wire.mem_queueMarks] at hm ⊢
      rw [hlane]
      exact hm.imp_left (Exists.imp fun out' hout' => hout'.imp_left (List.mem_cons_of_mem _))
  · rw [ho] at hkeeps ⊢
    rw [hw]
    -- or the front of the other one: here the sink has to keep what it is handed.
    refine hand hl hs (fun m hm => ?_) (fun hfalse _ m hm => ?_) (fun _ => rfl) rfl
      (fun m hm => ?_)
    · exact Wire.mem_queueMarks.mpr (.inr ⟨out, by simp [hlane], hm⟩)
    · exact (each_snoc.mp hkeeps).2 out m (by rw [hfalse]) hm
    · rw [Wire.mem_queueMarks] at hm ⊢
      rw [hlane]
      exact hm.imp_right (Exists.imp fun out' hout' => hout'.imp_left (List.mem_cons_of_mem _))
  · rw [ho, hw, List.append_nil]
    exact hs

/-- A flush marks what was handed over as sent. -/
theorem step_flushed (hl : Ledger h w) (hs : Sending h w) : Sending (h ++ []) w.flushed := by
  refine frame hl hs rfl rfl (fun m p' hp' => .inr ?_) (fun m hm => .inl hm)
  rw [Wire.pendingOf_flushed] at hp'
  split at hp'
  · obtain ⟨p, hp, rfl⟩ := Option.map_eq_some_iff.mp hp'
    exact ⟨p, hp, fun _ => .inl rfl⟩
  · next hflush =>
    exact ⟨p', hp', fun hsent => .inl (hsent.resolve_right hflush)⟩

/-- An answer is the server's, so it never says that the call was not sent. -/
theorem step_answer (hl : Ledger h w) (hs : Sending h w) {message : ServerMessage} {m₀ : Mark}
    {outcome : Except DdpError Value} (ha : Wire.Answers message m₀ outcome) :
    Sending (h ++ (Wire.answer message m₀ outcome).obs w)
      ((Wire.answer message m₀ outcome).state w) := by
  have hreported : notSentCalls ((Wire.answer message m₀ outcome).obs w) = [] := by
    rw [List.eq_nil_iff_forall_not_mem]
    intro m hm
    obtain ⟨g, cause, k, hx⟩ := mem_notSentCalls.mp hm
    obtain ⟨y, -, heq⟩ := List.mem_map.mp hx
    obtain ⟨rfl, -⟩ := Obs.settled.inj (Prod.mk.inj heq).2
    obtain ⟨outcome', -, hreply⟩ := lawful_step hl.ids (.answer ha) _ hx
    cases outcome' <;> simp [Except.mapError] at hreply
  refine frame hl hs (w.nil_of_answer message m₀ outcome).2 hreported
    (fun m p' hp' => .inr ⟨p', ?_, id⟩) (fun m hm => .inl hm)
  rw [Wire.pendingOf_answer] at hp'
  split at hp'
  · simp at hp'
  · exact hp'

/-- A command is dropped, sent with no call, cancelled, or registered as one. -/
theorem step_take (hl : Ledger h w) (hs : Sending h w) (command : Command κ) (dropped : Bool) :
    Sending (h ++ (Wire.handleCommand command dropped).obs w)
      ((Wire.handleCommand command dropped).state w) := by
  rcases Wire.take_cases w command dropped with ⟨ho, hw⟩ | ⟨out, hout, ho, hw⟩ |
    ⟨waiter, ho, hw⟩ | ⟨ack, out, hack, hout, ho, hw⟩
  · rw [ho, hw]
    exact quiet hl hs rfl rfl rfl rfl fun m hm => .inl hm
  · rw [ho, hw]
    exact quiet hl hs rfl rfl rfl rfl fun m hm => mem_queueMarks_app (by simp [hout]) hm
  · -- The waiter was dropped: the call is registered and taken back at once.
    rw [ho, hw]
    refine frame hl hs rfl rfl (fun m p' hp' => ?_) (fun m hm => .inl hm)
    rw [Wire.pendingOf_cancel] at hp'
    split at hp'
    · simp at hp'
    · exact pending_register hl waiter hp'
  · rw [ho, hw]
    refine frame hl hs rfl rfl (fun m p' hp' => pending_register hl (.caller ack) hp')
      (fun m hm => mem_queueMarks_app (fun m' hm' => ?_) hm)
    rw [hout] at hm'
    obtain rfl := Option.some.inj hm'
    exact hl.ids.fresh _

/-- **Every wire step whose sink keeps what it is handed keeps the invariant.** -/
theorem step (hl : Ledger h w) (hs : Sending h w) (hkeeps : SinkKeeps (h ++ o))
    (hstep : Wire.Step cause w o w') : Sending (h ++ o) w' := by
  cases hstep with
  | emitted event hevent => exact quiet hl hs rfl rfl rfl rfl fun m hm => .inl hm
  | ready epoch => exact quiet hl hs rfl rfl rfl rfl fun m hm => .inl hm
  | connect hphase =>
    exact quiet hl hs rfl rfl rfl rfl fun m hm => .inl (by simpa [Wire.queueMarks] using hm)
  | hear message hlive => exact quiet hl hs rfl rfl rfl rfl fun m hm => .inl hm
  | push frame hlive hframe =>
    exact quiet hl hs rfl rfl rfl rfl fun m hm => .inl (by simpa [Wire.queueMarks] using hm)
  | login params hphase => exact step_login hl hs params
  | hand accepted hlive hready => exact step_hand hl hs accepted hkeeps
  | flushed => exact step_flushed hl hs
  | answer ha => exact step_answer hl hs ha
  | settle why session hlive => exact settle hl hs why session
  | take command dropped => exact step_take hl hs command dropped

end Sending

/-! ### The promise -/

/-- The ledger and, as long as the sink keeps what it is handed, the invariant. -/
theorem sending_run {config : Config} {h : List (Seen κ)} {w : World κ}
    (hrun : Run World.step (World.init config) h w) :
    Ledger h w.runner.toWire ∧ (SinkKeeps h → Sending h w.runner.toWire) :=
  World.wire_invariant (I := fun h w => Ledger h w ∧ (SinkKeeps h → Sending h w))
    ⟨.init, fun _ => .init⟩
    (fun hI hs => ⟨hI.1.step hs, fun hk => .step hI.1 (hI.2 hk.of_append) hk hs⟩) hrun

/-- **The promise of `NotSent` holds when the sink keeps what it is handed**, in every state
of every run. -/
theorem reportedRight_of_sinkKeeps {config : Config} {h : List (Seen κ)} {w : World κ}
    (hrun : Run World.step (World.init config) h w) (hkeeps : SinkKeeps h) :
    ReportedRight h := by
  obtain ⟨hl, hsending⟩ := sending_run hrun
  have hs := hsending hkeeps
  refine ⟨fun m hm => (hs.notSent m hm).1, fun g k m why htook hm hended hanswered => ?_⟩
  obtain ⟨g', lane, out, accepted, hx, hout⟩ := mem_handedMarks.mp hm
  have hissued : m ∈ issuedOn g h :=
    IssuedFor.mem_issuedOn (show IssuedFor g h m (.caller k) from htook)
  -- The generation is over, so the call was sent a reply in it.
  rcases hl.fates.fate g m hissued with ⟨hg, -⟩ | ⟨-, cause, k', reply, hx'⟩
  · exact absurd hg (Nat.ne_of_lt (hl.ended g why hended))
  · have hk := hl.fates.settledWaiter g cause m k' reply hx'
    obtain ⟨-, rfl⟩ := hk.unique hl.ids.nodup (show IssuedFor g h m (.caller k) from htook)
    cases cause with
    | some message => exact absurd ⟨message, _, reply, hx'⟩ hanswered
    | none =>
      rcases hl.lawful _ hx' with rfl | rfl
      · -- It was handed over, so it was not reported as not sent.
        have hreported : m ∈ notSentCalls h := mem_notSentCalls.mpr ⟨g, none, k, hx'⟩
        exact absurd hm (hs.notSent m hreported).1
      · exact hx'

/-- A sink that never fails on an application frame keeps everything. -/
theorem sinkKeeps_of_all {h : List (Seen κ)} (hall : (h.all fun
    | (_, .handed .app _ false) => false
    | _ => true) = true) : SinkKeeps h := by
  rintro pre ⟨g, y⟩ post rfl out m rfl -
  simp at hall

/-! ### Two runs -/

/-- The sink accepts the frame of the call, and the connection is lost before it is
flushed. -/
def lostConnection : List (Input ℕ) :=
  becomeReady ++ acceptCall ++
    [.sink (.ready (.ok ())), .sink .pending, .flush none, .poll (some .eof) none false]

theorem lostConnection_enabled :
    (execute World.step (World.init demoConfig) lostConnection).isSome := by
  decide +kernel

/-- The call was handed over and is told that it was abandoned. -/
theorem reportedRight_lostConnection : ∃ (h : List (Seen ℕ)) (w : World ℕ),
    Run World.step (World.init demoConfig) h w ∧ SinkKeeps h ∧
      ⟨.methods, "m1"⟩ ∈ handedMarks h ∧ ReportedRight h := by
  have hrun := run_execute lostConnection lostConnection_enabled
  have hkeeps : SinkKeeps ((execute World.step (World.init demoConfig) lostConnection).get
      lostConnection_enabled).2 := sinkKeeps_of_all (by decide +kernel)
  exact ⟨_, _, hrun, hkeeps, by decide +kernel, reportedRight_of_sinkKeeps hrun hkeeps⟩

/-- The frame of the call is passed to the sink, and `start_send` fails. -/
def failingSink : List (Input ℕ) :=
  becomeReady ++ acceptCall ++ [.sink (.ready (.error "broken pipe"))]

theorem failingSink_enabled :
    (execute World.step (World.init demoConfig) failingSink).isSome := by
  decide +kernel

/-- **The promise is broken by a sink that fails**: the call was passed to the sink, and it
is reported as not sent. -/
theorem not_reportedRight : ¬ ∀ (config : Config) (h : List (Seen ℕ)) (w : World ℕ),
    Run World.step (World.init config) h w → ReportedRight h := by
  intro hall
  have hright := hall _ _ _ (run_execute failingSink failingSink_enabled)
  have hreported : ⟨.methods, "m1"⟩ ∈ notSentCalls ((execute World.step
      (World.init demoConfig) failingSink).get failingSink_enabled).2 := by decide +kernel
  have hhanded : ⟨.methods, "m1"⟩ ∈ handedMarks ((execute World.step
      (World.init demoConfig) failingSink).get failingSink_enabled).2 := by decide +kernel
  exact hright.1 _ hreported hhanded

end RocketSocket
