import RocketSocket.Realtime.Wire

/-!
# What the wire side remembers of its history

The history of observations, read as lists, and the first invariants that tie the state
of the wire side to it: which ids were handed out, and what the two queues still hold.

## Main definitions

* `tookCommands`, `issued`, `acceptedFrames`, `pushedOn`, `handedApp`, `handedPriority`,
  `handedMarks`, `tookMarks`, `answeredMarks`, `writtenMarks` — the history, read as lists.
* `TookOn`, `AnsweredOn`, `SettledOn` — what became of a mark.
* `Ids` — no id is handed out twice.
* `Queues` — what was queued was handed over or still waits.

## Main results

* `Ids.step`, `Queues.step` — every wire step keeps them.
-/

namespace RocketSocket

open Machine

variable {κ : Type} {cause : Cause}

/-! ### Reading the history -/

/-- The commands taken. -/
def tookCommands (h : List (Seen κ)) : List (Command κ) :=
  h.filterMap fun
    | (_, .took command _ _) => some command
    | _ => none

/-- The frames that commands put on the application lane. -/
def acceptedFrames (h : List (Seen κ)) : List Outbound :=
  h.filterMap fun
    | (_, .took _ _ out) => out
    | _ => none

/-- The frames that were put on the priority lane in generation `g`. -/
def pushedOn (g : ℕ) (h : List (Seen κ)) : List Outbound :=
  h.filterMap fun
    | (g', .pushed out) => if g' = g then some out else none
    | _ => none

/-- The application frames passed to the sink. -/
def handedApp (h : List (Seen κ)) : List Outbound :=
  h.filterMap fun
    | (_, .handed .app out _) => some out
    | _ => none

/-- The protocol frames passed to the sink in generation `g`. -/
def handedPriority (g : ℕ) (h : List (Seen κ)) : List Outbound :=
  h.filterMap fun
    | (g', .handed .priority out _) => if g' = g then some out else none
    | _ => none

/-- The marks of the frames that were queued. -/
def issued (h : List (Seen κ)) : List Mark :=
  h.filterMap fun
    | (_, .pushed out) => out.mark
    | (_, .took _ _ (some out)) => out.mark
    | _ => none

/-- The marks of the frames that were queued in generation `g`. -/
def issuedOn (g : ℕ) (h : List (Seen κ)) : List Mark := issued (h.filter fun x => x.1 = g)

/-- The marks of the frames passed to the sink. -/
def handedMarks (h : List (Seen κ)) : List Mark :=
  h.filterMap fun
    | (_, .handed _ out _) => out.mark
    | _ => none

/-- The frame of a caller's command was queued under a mark in generation `g`. -/
def TookOn (g : ℕ) (h : List (Seen κ)) (k : κ) (m : Mark) : Prop :=
  ∃ command phase out, (g, .took command phase (some out)) ∈ h ∧ command.ack = some k ∧
    out.mark = some m

/-- A call was registered for a waiter and its frame queued in generation `g`. -/
def IssuedFor (g : ℕ) (h : List (Seen κ)) (m : Mark) : Waiter κ → Prop
  | .caller k => TookOn g h k m
  | .login => ∃ out, (g, .pushed out) ∈ h ∧ out.mark = some m

/-- The call of a mark was answered by a frame in generation `g`. -/
def AnsweredOn (g : ℕ) (h : List (Seen κ)) (m : Mark) : Prop :=
  ∃ message waiter reply, (g, .settled (some message) m waiter reply) ∈ h

/-- The call of a mark was sent a reply in generation `g`. -/
def SettledOn (g : ℕ) (h : List (Seen κ)) (m : Mark) : Prop :=
  ∃ cause waiter reply, (g, .settled cause m waiter reply) ∈ h

/-- The callers whose commands were taken in generation `g`, with the marks of their frames. -/
def tookMarks (g : ℕ) (h : List (Seen κ)) : List (κ × Mark) :=
  h.filterMap fun
    | (g', .took command _ (some out)) =>
      if g' = g then command.ack.bind fun k => out.mark.map fun m => (k, m) else none
    | _ => none

/-- The calls that frames answered in generation `g`. -/
def answeredMarks (g : ℕ) (h : List (Seen κ)) : List Mark :=
  h.filterMap fun
    | (g', .settled (some _) m _ _) => if g' = g then some m else none
    | _ => none

/-- The marks of the application frames passed to the sink in generation `g`. -/
def writtenMarks (g : ℕ) (h : List (Seen κ)) : List Mark :=
  h.filterMap fun
    | (g', .handed .app out _) => if g' = g then out.mark else none
    | _ => none

theorem mem_tookMarks {g : ℕ} {h : List (Seen κ)} {k : κ} {m : Mark} :
    (k, m) ∈ tookMarks g h ↔ TookOn g h k m := by
  rw [tookMarks, List.mem_filterMap]
  constructor
  · rintro ⟨⟨g', y⟩, hx, hread⟩
    split at hread
    · next command phase out heq =>
      obtain ⟨rfl, rfl⟩ := Prod.mk.inj heq
      obtain ⟨rfl, hbind⟩ := Option.ite_none_right_eq_some.mp hread
      obtain ⟨k', hack, hmap⟩ := Option.bind_eq_some_iff.mp hbind
      obtain ⟨m', hm, hpair⟩ := Option.map_eq_some_iff.mp hmap
      obtain ⟨rfl, rfl⟩ := Prod.mk.inj hpair
      exact ⟨command, phase, out, hx, hack, hm⟩
    · simp at hread
  · rintro ⟨command, phase, out, hx, hack, hm⟩
    exact ⟨_, hx, by simp [hack, hm]⟩

theorem mem_answeredMarks {g : ℕ} {h : List (Seen κ)} {m : Mark} :
    m ∈ answeredMarks g h ↔ AnsweredOn g h m := by
  rw [answeredMarks, List.mem_filterMap]
  constructor
  · rintro ⟨⟨g', y⟩, hx, hread⟩
    split at hread
    · next message m' waiter reply heq =>
      obtain ⟨rfl, rfl⟩ := Prod.mk.inj heq
      obtain ⟨rfl, hm⟩ := Option.ite_none_right_eq_some.mp hread
      obtain rfl := Option.some.inj hm
      exact ⟨message, waiter, reply, hx⟩
    · simp at hread
  · rintro ⟨message, waiter, reply, hx⟩
    exact ⟨_, hx, by simp⟩

theorem mem_writtenMarks {g : ℕ} {h : List (Seen κ)} {m : Mark} : m ∈ writtenMarks g h ↔
    ∃ out accepted, (g, .handed .app out accepted) ∈ h ∧ out.mark = some m := by
  rw [writtenMarks, List.mem_filterMap]
  constructor
  · rintro ⟨⟨g', y⟩, hx, hread⟩
    split at hread
    · next out accepted heq =>
      obtain ⟨rfl, rfl⟩ := Prod.mk.inj heq
      obtain ⟨rfl, hm⟩ := Option.ite_none_right_eq_some.mp hread
      exact ⟨out, accepted, hx, hm⟩
    · simp at hread
  · rintro ⟨out, accepted, hx, hm⟩
    exact ⟨_, hx, by simp [hm]⟩

/-- Two elements that are read as the same thing are one, when nothing is read twice. -/
theorem eq_of_nodup_filterMap {α β : Type} {f : α → Option β} {l : List α} {x y : α} {b : β}
    (hl : (l.filterMap f).Nodup) (hx : x ∈ l) (hy : y ∈ l) (hfx : f x = some b)
    (hfy : f y = some b) : x = y := by
  induction l with
  | nil => simp at hx
  | cons z l ih =>
    have hnodup : (l.filterMap f).Nodup := hl.sublist ((List.sublist_cons_self z l).filterMap f)
    have hhead : ∀ u ∈ l, f u = some b → f z ≠ some b := by
      intro u hu hfu hz
      rw [List.filterMap_cons_some hz] at hl
      exact (List.nodup_cons.mp hl).1 (List.mem_filterMap.mpr ⟨u, hu, hfu⟩)
    rcases List.mem_cons.mp hx with hzx | hx' <;> rcases List.mem_cons.mp hy with hzy | hy'
    · exact hzx.trans hzy.symm
    · exact absurd (hzx ▸ hfx) (hhead y hy' hfy)
    · exact absurd (hzy ▸ hfy) (hhead x hx' hfx)
    · exact ih hnodup hx' hy'

/-- What is read by one function is read, in its place, by another that reads it the same. -/
theorem sublist_filterMap {α β : Type} {f f' : α → Option β} (l : List α)
    (hf : ∀ x b, f x = some b → f' x = some b) :
    (l.filterMap f).Sublist (l.filterMap f') := by
  induction l with
  | nil => exact List.Sublist.refl _
  | cons x l ih =>
    cases hx : f x with
    | some b =>
      rw [List.filterMap_cons_some hx, List.filterMap_cons_some (hf x b hx)]
      exact ih.cons_cons b
    | none =>
      rw [List.filterMap_cons_none hx]
      exact ih.trans ((List.sublist_cons_self x l).filterMap f')

section append

variable (h o : List (Seen κ)) (g : ℕ)

@[simp] theorem tookCommands_append :
    tookCommands (h ++ o) = tookCommands h ++ tookCommands o := List.filterMap_append

@[simp] theorem acceptedFrames_append :
    acceptedFrames (h ++ o) = acceptedFrames h ++ acceptedFrames o := List.filterMap_append

@[simp] theorem pushedOn_append : pushedOn g (h ++ o) = pushedOn g h ++ pushedOn g o :=
  List.filterMap_append

@[simp] theorem handedApp_append : handedApp (h ++ o) = handedApp h ++ handedApp o :=
  List.filterMap_append

@[simp] theorem handedPriority_append :
    handedPriority g (h ++ o) = handedPriority g h ++ handedPriority g o :=
  List.filterMap_append

@[simp] theorem issued_append : issued (h ++ o) = issued h ++ issued o :=
  List.filterMap_append

@[simp] theorem issuedOn_append : issuedOn g (h ++ o) = issuedOn g h ++ issuedOn g o := by
  rw [issuedOn, List.filter_append, issued_append]
  rfl

@[simp] theorem handedMarks_append :
    handedMarks (h ++ o) = handedMarks h ++ handedMarks o := List.filterMap_append

@[simp] theorem tookMarks_append : tookMarks g (h ++ o) = tookMarks g h ++ tookMarks g o :=
  List.filterMap_append

@[simp] theorem answeredMarks_append :
    answeredMarks g (h ++ o) = answeredMarks g h ++ answeredMarks g o := List.filterMap_append

@[simp] theorem writtenMarks_append :
    writtenMarks g (h ++ o) = writtenMarks g h ++ writtenMarks g o := List.filterMap_append

end append

/-- The observation is about a frame in a queue. -/
def Obs.Moves : Obs κ → Prop
  | .pushed _ | .took _ _ (some _) | .handed _ _ _ => True
  | _ => False

/-- Observations that move no frame are not read. -/
theorem nil_of_not_moves {o : List (Seen κ)} (ho : ∀ x ∈ o, ¬ x.2.Moves) :
    acceptedFrames o = [] ∧ issued o = [] ∧ handedApp o = [] ∧
      (∀ g, pushedOn g o = [] ∧ handedPriority g o = []) ∧ handedMarks o = [] := by
  simp only [acceptedFrames, issued, handedApp, pushedOn, handedPriority, handedMarks,
    List.filterMap_eq_nil_iff]
  refine ⟨?_, ?_, ?_, fun g => ⟨?_, ?_⟩, ?_⟩
  all_goals
    rintro ⟨g', y⟩ hx
    have hy := ho _ hx
    cases y with
    | pushed | handed => exact absurd trivial hy
    | took command phase out =>
      cases out with
      | none => rfl
      | some out => exact absurd trivial hy
    | _ => rfl

namespace Wire

theorem obs_answer_of_mem {w : Wire κ} {message : ServerMessage} {m : Mark}
    {outcome : Except DdpError Value} {x : Seen κ} (hx : x ∈ (answer message m outcome).obs w) :
    x.1 = w.generation ∧ ¬ x.2.Moves := by
  obtain ⟨y, -, rfl⟩ := List.mem_map.mp hx
  exact ⟨rfl, id⟩

theorem obs_settle_of_mem {w : Wire κ} {why : Ending} {x : Seen κ}
    (hx : x ∈ w.settleObs why) : x.1 = w.generation ∧ ¬ x.2.Moves := by
  obtain ⟨g, y⟩ := x
  obtain ⟨hg, rfl | ⟨m, p, -, rfl⟩⟩ := (w.mem_settleObs).mp hx
  · exact ⟨hg, id⟩
  · exact ⟨hg, id⟩

/-- An answer moves no frame, -/
theorem nil_of_answer (w : Wire κ) (message : ServerMessage) (m : Mark)
    (outcome : Except DdpError Value) :
    issued ((answer message m outcome).obs w) = [] ∧
      handedMarks ((answer message m outcome).obs w) = [] := by
  obtain ⟨-, hissued, -, -, hhanded⟩ := nil_of_not_moves fun x hx => (obs_answer_of_mem hx).2
  exact ⟨hissued, hhanded⟩

/-- and neither does the end of a generation. -/
theorem nil_of_settle (w : Wire κ) (why : Ending) :
    issued (w.settleObs why) = [] ∧ handedMarks (w.settleObs why) = [] := by
  obtain ⟨-, hissued, -, -, hhanded⟩ := nil_of_not_moves fun x hx => (obs_settle_of_mem hx).2
  exact ⟨hissued, hhanded⟩

/-- What a step shows is tagged with the generation it starts in. -/
theorem Step.generation {w w' : Wire κ} {o : List (Seen κ)} (hs : Step cause w o w') :
    (∀ x ∈ o, x.1 = w.generation) ∧ w.generation ≤ w'.generation := by
  cases hs with
  | hand accepted hlive hready =>
    rcases hand_cases w accepted with ⟨_, _, -, ho, hw⟩ | ⟨_, _, -, -, ho, hw⟩ | ⟨-, -, ho, hw⟩
    all_goals
      rw [hw, ho]
      simp
  | answer ha => exact ⟨fun x hx => (obs_answer_of_mem hx).1, Nat.le_refl _⟩
  | settle why session hlive =>
    exact ⟨fun x hx => (obs_settle_of_mem hx).1, Nat.le_succ _⟩
  | take command dropped =>
    rcases take_cases w command dropped with ⟨ho, hw⟩ | ⟨_, -, ho, hw⟩ | ⟨_, ho, hw⟩ |
      ⟨_, _, -, -, ho, hw⟩
    all_goals
      rw [hw, ho]
      exact ⟨by simp, Nat.le_refl _⟩
  | login params hphase => exact ⟨by simp [obs_login], Nat.le_refl _⟩
  | flushed => exact ⟨by simp, Nat.le_refl _⟩
  | _ => exact ⟨by simp, Nat.le_refl _⟩

end Wire

/-! ### Ids -/

/-- No id is handed out twice, and only calls whose frames were queued are pending, all of
them in the current epoch. -/
structure Ids (h : List (Seen κ)) (w : Wire κ) : Prop where
  idPrefix : ∀ side, (w.table side).idPrefix = side.idPrefix
  issued_lt : ∀ m ∈ issued h, ∃ n < (w.table m.side).nextId, m.id = callId m.side.idPrefix n
  nodup : (issued h).Nodup
  epoch : ∀ m p, w.pendingOf m = some p → p.epoch = (w.table m.side).epoch
  pending : ∀ m p, w.pendingOf m = some p → m ∈ issued h

namespace Ids

variable {h o : List (Seen κ)} {w w' : Wire κ}

theorem init : Ids [] (.init : Wire κ) where
  idPrefix := fun _ => rfl
  issued_lt := fun _ hm => by simp [issued] at hm
  nodup := List.nodup_nil
  epoch := fun _ _ hp => by simp at hp
  pending := fun _ _ hp => by simp at hp

theorem fresh (hi : Ids h w) (side : Side) : w.nextMark side ∉ issued h := by
  intro hm
  obtain ⟨n, hn, hid⟩ := hi.issued_lt _ hm
  rw [Wire.nextMark, hi.idPrefix] at hid
  exact absurd (callId_side_injective hid).2 (Nat.ne_of_gt hn)

theorem pendingOf_nextMark (hi : Ids h w) (side : Side) :
    w.pendingOf (w.nextMark side) = none := by
  cases hp : w.pendingOf (w.nextMark side) with
  | none => rfl
  | some p => exact absurd (hi.pending _ _ hp) (hi.fresh side)

/-- A step that queues no marked frame keeps the ids when it registers nothing. -/
theorem frame (hi : Ids h w) (ho : issued o = [])
    (hpre : ∀ side, (w'.table side).idPrefix = (w.table side).idPrefix)
    (hnext : ∀ side, (w.table side).nextId ≤ (w'.table side).nextId)
    (hpending : ∀ m p', w'.pendingOf m = some p' →
      p'.epoch = (w'.table m.side).epoch ∧ ∃ p, w.pendingOf m = some p) :
    Ids (h ++ o) w' := by
  have hissued : issued (h ++ o) = issued h := by rw [issued_append, ho, List.append_nil]
  refine ⟨fun side => (hpre side).trans (hi.idPrefix side), ?_, ?_, ?_, ?_⟩
  · rw [hissued]
    intro m hm
    obtain ⟨n, hn, hid⟩ := hi.issued_lt m hm
    exact ⟨n, Nat.lt_of_lt_of_le hn (hnext m.side), hid⟩
  · rw [hissued]
    exact hi.nodup
  · exact fun m p hp => (hpending m p hp).1
  · intro m p hp
    obtain ⟨-, p', hp'⟩ := hpending m p hp
    rw [hissued]
    exact hi.pending m p' hp'

/-- The same, for a step after which the tables hand out the same ids. -/
theorem frame_of_sameIds (hi : Ids h w) (ho : issued o = []) (hs : Wire.SameIds w w')
    (hpending : ∀ m p', w'.pendingOf m = some p' →
      ∃ p, w.pendingOf m = some p ∧ p'.epoch = p.epoch) : Ids (h ++ o) w' := by
  refine hi.frame ho (fun side => (hs side).1) (fun side => (hs side).2.1.ge) ?_
  intro m p' hp'
  obtain ⟨p, hp, he⟩ := hpending m p' hp'
  exact ⟨by rw [he, hi.epoch m p hp, (hs m.side).2.2], p, hp⟩

/-- Queueing the frame of a call just registered keeps the ids. -/
theorem register (hi : Ids h w) {side : Side} {waiter : Waiter κ}
    (ho : issued o = [w.nextMark side])
    (ht : w'.table = ((Wire.register side waiter).state w).table) : Ids (h ++ o) w' := by
  -- The one entry more is that of the new mark.
  have hpend : ∀ m, w'.pendingOf m = if m = w.nextMark side
      then some ⟨(w.table side).epoch, false, waiter⟩ else w.pendingOf m := by
    intro m
    rw [← Wire.pendingOf_register, Wire.pendingOf, Wire.pendingOf, ht]
  have hsame := fun side' => w.ids_register side side' waiter
  rw [← ht] at hsame
  have hissued : issued (h ++ o) = issued h ++ [w.nextMark side] := by rw [issued_append, ho]
  refine ⟨fun side' => (hsame side').1.trans (hi.idPrefix side'), ?_, ?_, ?_, ?_⟩
  · rw [hissued]
    intro m hm
    -- An old id lies below the old counter, and the new one below the new counter.
    rcases List.mem_append.mp hm with hm | hm
    · obtain ⟨n, hn, hid⟩ := hi.issued_lt m hm
      exact ⟨n, by rw [(hsame m.side).2.2]; omega, hid⟩
    · obtain rfl := List.mem_singleton.mp hm
      refine ⟨(w.table side).nextId, ?_, by rw [← hi.idPrefix]; rfl⟩
      have hn := (hsame side).2.2
      rw [if_pos rfl] at hn
      exact hn ▸ Nat.lt_succ_self _
  · -- No id below the counter is the new one.
    rw [hissued]
    exact hi.nodup.append (List.nodup_singleton _)
      (List.disjoint_singleton.mpr (hi.fresh side))
  · intro m p hp
    rw [hpend] at hp
    rw [(hsame m.side).2.1]
    split at hp
    · next hm =>
      obtain rfl := Option.some.inj hp
      rw [hm]
      rfl
    · exact hi.epoch m p hp
  · intro m p hp
    rw [hpend] at hp
    rw [hissued]
    split at hp
    · next hm => simp [hm]
    · exact List.mem_append_left _ (hi.pending m p hp)

/-- **Every wire step keeps the ids.** -/
theorem step (hi : Ids h w) (hs : Wire.Step cause w o w') : Ids (h ++ o) w' := by
  -- Most steps register nothing and issue nothing.
  have hsame : ∀ {w' : Wire κ}, w'.table = w.table → issued o = [] → Ids (h ++ o) w' := by
    intro w' ht ho
    refine hi.frame_of_sameIds ho (fun side => by rw [ht]; exact ⟨rfl, rfl, rfl⟩) ?_
    intro m p' hp'
    rw [Wire.pendingOf, ht] at hp'
    exact ⟨p', hp', rfl⟩
  cases hs with
  | emitted event hevent => exact hsame rfl rfl
  | ready epoch => exact hsame rfl rfl
  | connect hphase => exact hsame rfl rfl
  | hear message hlive => exact hsame rfl rfl
  | push frame hlive hframe => exact hsame rfl rfl
  | login params hphase => exact @Ids.register _ _ _ _ _ hi .methods .login rfl rfl
  | hand accepted hlive hready =>
    rcases Wire.hand_cases w accepted with ⟨out, rest, -, ho, hw⟩ | ⟨out, rest, -, -, ho, hw⟩ |
      ⟨-, -, ho, hw⟩
    all_goals
      rw [hw]
      exact hsame rfl (by rw [ho]; rfl)
  | flushed =>
    refine hi.frame_of_sameIds rfl w.sameIds_flushed fun m p' hp' => ?_
    rw [Wire.pendingOf_flushed] at hp'
    split at hp'
    · obtain ⟨p, hp, rfl⟩ := Option.map_eq_some_iff.mp hp'
      exact ⟨p, hp, rfl⟩
    · exact ⟨p', hp', rfl⟩
  | answer ha =>
    rename_i message m₀ outcome
    refine hi.frame_of_sameIds (w.nil_of_answer message m₀ outcome).1
      (w.sameIds_answer m₀ message outcome) fun m p' hp' => ?_
    rw [Wire.pendingOf_answer] at hp'
    split at hp'
    · simp at hp'
    · exact ⟨p', hp', rfl⟩
  | settle why session hlive =>
    refine hi.frame (w.nil_of_settle why).1 (fun side => (w.sameIds_flushed side).1)
      (fun side => (w.sameIds_flushed side).2.1.ge) fun m p' hp' => ?_
    simp [Wire.pendingOf, Wire.settle, Act.state] at hp'
  | take command dropped =>
    rcases Wire.take_cases w command dropped with ⟨ho, hw⟩ | ⟨out, hout, ho, hw⟩ |
      ⟨waiter, ho, hw⟩ | ⟨ack, out, -, hout, ho, hw⟩
    · rw [hw]
      exact hsame rfl (by rw [ho]; rfl)
    · rw [hw]
      exact hsame rfl (by rw [ho]; simp [issued, hout])
    · rw [hw, ho]
      -- The call is registered and cancelled at once: its number is used up all the same.
      have hids := fun side => w.ids_register command.side side waiter
      have hcancel := Wire.sameIds_cancel ((Wire.register command.side waiter).state w)
        (w.nextMark command.side)
      refine hi.frame rfl (fun side => (hcancel side).1.trans (hids side).1) ?_ ?_
      · intro side
        rw [(hcancel side).2.1, (hids side).2.2]
        omega
      · intro m p' hp'
        rw [Wire.pendingOf_cancel, Wire.pendingOf_register] at hp'
        rw [(hcancel m.side).2.2, (hids m.side).2.1]
        split at hp'
        · simp at hp'
        · exact ⟨hi.epoch m p' hp', p', hp'⟩
    · rw [hw, ho]
      exact hi.register (by simp [issued, hout]) rfl

end Ids

/-! ### Queues -/

/-- What was passed to the sink and what still waits is what was queued: the application
lane in the order the commands were accepted, the priority lane exactly. -/
structure Queues (h : List (Seen κ)) (w : Wire κ) : Prop where
  app : (handedApp h ++ w.app).Sublist (acceptedFrames h)
  priority : handedPriority w.generation h ++ w.priority = pushedOn w.generation h
  handed : ∀ g, handedPriority g h <+: pushedOn g h
  bound : ∀ x ∈ h, x.1 ≤ w.generation

namespace Queues

variable {h o : List (Seen κ)} {w w' : Wire κ}

theorem init : Queues [] (.init : Wire κ) where
  app := List.Sublist.refl _
  priority := rfl
  handed := fun _ => List.prefix_refl _
  bound := fun _ hx => by simp at hx

/-- Nothing was queued or handed over in a generation that has not begun. -/
theorem later (hq : Queues h w) {g : ℕ} (hg : w.generation < g) :
    pushedOn g h = [] ∧ handedPriority g h = [] := by
  have hne : ∀ x ∈ h, x.1 ≠ g := fun x hx => Nat.ne_of_lt (Nat.lt_of_le_of_lt (hq.bound x hx) hg)
  simp only [pushedOn, handedPriority, List.filterMap_eq_nil_iff]
  refine ⟨?_, ?_⟩
  all_goals
    rintro ⟨g', y⟩ hx
    have hg' : g' ≠ g := hne _ hx
    split
    · next heq =>
      obtain ⟨rfl, -⟩ := Prod.mk.inj heq
      rw [if_neg hg']
    · rfl

/-- A step that moves no frame and keeps both lanes and the generation. -/
theorem frame (hq : Queues h w) (ho : ∀ x ∈ o, x.1 = w.generation ∧ ¬ x.2.Moves)
    (happ : w'.app = w.app) (hpriority : w'.priority = w.priority)
    (hgen : w'.generation = w.generation) : Queues (h ++ o) w' := by
  obtain ⟨h₁, -, h₃, h₄, -⟩ := nil_of_not_moves fun x hx => (ho x hx).2
  refine ⟨?_, ?_, fun g => ?_, fun x hx => ?_⟩
  · simpa [h₁, h₃, happ] using hq.app
  · simpa [h₄, hgen, hpriority] using hq.priority
  · simpa [h₄] using hq.handed g
  · rw [hgen]
    rcases List.mem_append.mp hx with hx | hx
    · exact hq.bound x hx
    · exact (ho x hx).1.le

/-- A frame joins the end of a lane. -/
theorem push (hq : Queues h w) {out : Outbound} (happ : w'.app = w.app)
    (hpriority : w'.priority = w.priority ++ [out]) (hgen : w'.generation = w.generation) :
    Queues (h ++ [(w.generation, .pushed out)]) w' := by
  have hnone : ∀ g, handedPriority g [((w.generation, .pushed out) : Seen κ)] = [] :=
    fun _ => rfl
  refine ⟨?_, ?_, fun g => ?_, fun x hx => ?_⟩
  · simpa [acceptedFrames, handedApp, happ] using hq.app
  · rw [handedPriority_append, pushedOn_append, hgen, hnone, hpriority, List.append_nil,
      ← List.append_assoc, hq.priority]
    simp [pushedOn]
  · rw [handedPriority_append, pushedOn_append, hnone, List.append_nil]
    exact (hq.handed g).trans (List.prefix_append _ _)
  · rw [hgen]
    rcases List.mem_append.mp hx with hx | hx
    · exact hq.bound x hx
    · exact (congrArg Prod.fst (List.mem_singleton.mp hx)).le

theorem accept (hq : Queues h w) {command : Command κ} {phase : Phase} {out : Outbound}
    (happ : w'.app = w.app ++ [out]) (hpriority : w'.priority = w.priority)
    (hgen : w'.generation = w.generation) :
    Queues (h ++ [(w.generation, .took command phase (some out))]) w' := by
  refine ⟨?_, ?_, fun g => ?_, fun x hx => ?_⟩
  · rw [acceptedFrames_append, handedApp_append, happ]
    have hnone : handedApp [((w.generation, .took command phase (some out)) : Seen κ)] = [] :=
      rfl
    rw [hnone, List.append_nil, ← List.append_assoc]
    exact hq.app.append (List.Sublist.refl _)
  · simpa [handedPriority, pushedOn, hgen, hpriority] using hq.priority
  · simpa [handedPriority, pushedOn] using hq.handed g
  · rw [hgen]
    rcases List.mem_append.mp hx with hx | hx
    · exact hq.bound x hx
    · exact (congrArg Prod.fst (List.mem_singleton.mp hx)).le

theorem hand (hq : Queues h w) (accepted : Bool) :
    Queues (h ++ (Wire.hand accepted).obs w) ((Wire.hand accepted).state w) := by
  -- The priority lane goes first, then the application lane, or neither has anything.
  rcases Wire.hand_cases w accepted with ⟨out, rest, hl, ho, hw⟩ |
    ⟨out, rest, -, hl, ho, hw⟩ | ⟨-, -, ho, hw⟩
  · rw [ho, hw]
    refine ⟨?_, ?_, fun g => ?_, fun x hx => ?_⟩
    · simpa [acceptedFrames, handedApp] using hq.app
    · have hprio := hq.priority
      rw [hl] at hprio
      simpa [handedPriority, pushedOn] using hprio
    · rw [handedPriority_append, pushedOn_append]
      -- Only the lane of this generation has lost its head.
      by_cases hg : g = w.generation
      · subst hg
        refine ⟨rest, ?_⟩
        have hprio := hq.priority
        rw [hl] at hprio
        simpa [handedPriority, pushedOn] using hprio
      · simpa [handedPriority, pushedOn, Ne.symm hg] using hq.handed g
    · rcases List.mem_append.mp hx with hx | hx
      · exact hq.bound x hx
      · exact (congrArg Prod.fst (List.mem_singleton.mp hx)).le
  · rw [ho, hw]
    refine ⟨?_, ?_, fun g => ?_, fun x hx => ?_⟩
    · have happ := hq.app
      rw [hl] at happ
      simpa [acceptedFrames, handedApp] using happ
    · simpa [handedPriority, pushedOn] using hq.priority
    · simpa [handedPriority, pushedOn] using hq.handed g
    · rcases List.mem_append.mp hx with hx | hx
      · exact hq.bound x hx
      · exact (congrArg Prod.fst (List.mem_singleton.mp hx)).le
  · rw [ho, hw, List.append_nil]
    exact hq

theorem settle (hq : Queues h w) (why : Ending) (session : Session) :
    Queues (h ++ w.settleObs why) { (Wire.settle why).state w with session } := by
  have hmoves : ∀ x ∈ w.settleObs why, ¬ x.2.Moves := fun x hx => (Wire.obs_settle_of_mem hx).2
  obtain ⟨h₁, -, h₃, h₄, -⟩ := nil_of_not_moves hmoves
  obtain ⟨hpushed, hhanded⟩ := hq.later (Nat.lt_succ_self w.generation)
  refine ⟨?_, ?_, fun g => ?_, fun x hx => ?_⟩
  · rw [acceptedFrames_append, handedApp_append, h₁, h₃]
    show (handedApp h ++ [] ++ []).Sublist (acceptedFrames h ++ [])
    rw [List.append_nil, List.append_nil, List.append_nil]
    exact (List.sublist_append_left _ _).trans hq.app
  · rw [handedPriority_append, pushedOn_append, (h₄ _).1, (h₄ _).2]
    show handedPriority (w.generation + 1) h ++ [] ++ [] = pushedOn (w.generation + 1) h ++ []
    rw [hpushed, hhanded]
    rfl
  · simpa [h₄] using hq.handed g
  · rcases List.mem_append.mp hx with hx | hx
    · exact Nat.le_succ_of_le (hq.bound x hx)
    · exact Nat.le_succ_of_le (Wire.obs_settle_of_mem hx).1.le

/-- **Every wire step keeps the queues.** -/
theorem step (hq : Queues h w) (hs : Wire.Step cause w o w') : Queues (h ++ o) w' := by
  have hquiet : ∀ {w' : Wire κ} {y : Obs κ}, ¬ y.Moves → w'.app = w.app →
      w'.priority = w.priority → w'.generation = w.generation →
      Queues (h ++ [(w.generation, y)]) w' := by
    intro w' y hy happ hpriority hgen
    refine hq.frame (fun x hx => ?_) happ hpriority hgen
    obtain rfl := List.mem_singleton.mp hx
    exact ⟨rfl, hy⟩
  cases hs with
  | emitted event hevent => exact hquiet id rfl rfl rfl
  | ready epoch =>
    refine hq.frame (fun x hx => ?_) rfl rfl rfl
    simp only [List.mem_cons, List.not_mem_nil, or_false] at hx
    rcases hx with rfl | rfl <;> exact ⟨rfl, id⟩
  | connect hphase =>
    -- The opening is noted first, and then the opening frame is pushed.
    have hopened : Queues (h ++ [(w.generation, .opened)]) w := hquiet id rfl rfl rfl
    rw [List.append_cons]
    exact hopened.push rfl rfl rfl
  | hear message hlive => exact hquiet id rfl rfl rfl
  | push frame hlive hframe => exact hq.push rfl rfl rfl
  | login params hphase => exact hq.push rfl rfl rfl
  | hand accepted hlive hready => exact hq.hand accepted
  | flushed => exact hq.frame (by simp) rfl rfl rfl
  | answer ha =>
    exact hq.frame (fun x hx => Wire.obs_answer_of_mem hx) rfl rfl rfl
  | settle why session hlive => exact hq.settle why session
  | take command dropped =>
    rcases Wire.take_cases w command dropped with ⟨ho, hw⟩ | ⟨out, -, ho, hw⟩ |
      ⟨waiter, ho, hw⟩ | ⟨ack, out, -, -, ho, hw⟩
    · rw [ho, hw]
      exact hquiet id rfl rfl rfl
    · rw [ho, hw]
      exact hq.accept rfl rfl rfl
    · rw [ho, hw]
      exact hquiet id rfl rfl rfl
    · rw [ho, hw]
      exact hq.accept rfl rfl rfl

end Queues

end RocketSocket
