import RocketSocket.Realtime.Standby

/-!
# A call of `process` while futures are dropped

The lock keeps other calls away from the registry, but not a task from dropping its future: the
receiving half of a channel is not under the lock.  So `process` is taken apart into the checks of
`retain`, the questions of `position`, the removal and the `send`, and futures may be dropped
between any two of them.

## Main definitions

* `Standby.Call`, `Standby.Call.move` — a call under way, and its next step or a future dropped.
* `Standby.spared` — the waiters that pass the reap.
* `Standby.Received` — what a call does with its event, given how futures are dropped.

## Main results

* `Standby.chain_process` — a call that is not disturbed is `process`.
* `Standby.received_of_call` — who receives the event of a call.
* `delivered_iff_chosen_stays` — **when a waiter that stays is served, or none gets the event**.
-/

namespace RocketSocket

open Machine

variable {ε : Type}

namespace Standby

/-- How far a call of `process` is. -/
inductive Stage (ε : Type) where
  /-- In `retain`: the waiters kept so far, and those to be checked. -/
  | reap (kept rest : List (Waiter ε))
  /-- In `position`: the place of the waiter to be asked next. -/
  | scan (index : ℕ)
  /-- The waiter is removed and the lock released. -/
  | send (waiter : Waiter ε)
  | done (matched : Bool)

/-- A call under way. -/
structure Call (ε : Type) where
  standby : Standby ε
  stage : Stage ε

/-- What happens next: the call goes on, or a future is dropped. -/
inductive Move where
  | go
  | drop (sender : ℕ)
  deriving DecidableEq

namespace Call

/-- A call that has begun. -/
def start (s : Standby ε) : Call ε := ⟨s, .reap [] s.waiters⟩

/-- The next step of the call. -/
def go (event : ε) (c : Call ε) : Option (Call ε × List (Notice ε)) :=
  match c.stage with
  | .reap kept (waiter :: rest) =>
    if c.standby.isClosed waiter.sender then
      some ({ c with stage := .reap kept rest }, [])
    else
      some ({ c with stage := .reap (kept ++ [waiter]) rest }, [])
  | .reap kept [] => some (⟨{ c.standby with waiters := kept }, .scan 0⟩, [])
  | .scan index =>
    if h : index < c.standby.waiters.length then
      if c.standby.waiters[index].predicate event then
        some (⟨{ c.standby with waiters := c.standby.waiters.eraseIdx index },
          .send c.standby.waiters[index]⟩, [])
      else
        some ({ c with stage := .scan (index + 1) }, [])
    else
      some ({ c with stage := .done false }, [])
  | .send waiter =>
    let sent := Standby.send waiter.sender event
    some (⟨sent.state c.standby, .done (sent.value c.standby)⟩, sent.obs c.standby)
  | .done _ => none

/-- The call is over. -/
def ended (c : Call ε) : Bool :=
  match c.stage with
  | .done _ => true
  | _ => false

/-- The next step of the call, or a future dropped meanwhile. -/
def move (event : ε) (c : Call ε) : Move → Option (Call ε × List (Notice ε))
  | .go => c.go event
  | .drop sender =>
    if c.ended = false ∧ sender < c.standby.channels.length ∧
        c.standby.isClosed sender = false then
      some ({ c with standby := c.standby.abandon sender }, [.abandoned sender])
    else none

end Call

/-! ### A call that is not disturbed -/

variable {s : Standby ε} {event : ε} {w : Waiter ε} {sender : ℕ}

/-- The steps of a call alone. -/
abbrev Undisturbed (event : ε) : Call ε → List (Notice ε) → Call ε → Prop :=
  Chain fun c o c' => c.go event = some (c', o)

/-- The reap keeps the live waiters. -/
theorem chain_reap (kept rest : List (Waiter ε)) :
    Undisturbed event ⟨s, .reap kept rest⟩ []
      ⟨{ s with waiters := kept ++ rest.filter fun w => !s.isClosed w.sender }, .scan 0⟩ := by
  induction rest generalizing kept with
  | nil =>
    rw [List.filter_nil, List.append_nil]
    exact .single rfl
  | cons w rest ih =>
    cases hclosed : s.isClosed w.sender with
    | true =>
      rw [List.filter_cons_of_neg (by simp [hclosed])]
      exact .cons (o := []) (by simp [Call.go, hclosed]) (ih kept)
    | false =>
      have hrest := ih (kept ++ [w])
      rw [List.append_assoc, List.singleton_append] at hrest
      rw [List.filter_cons_of_pos (by simp [hclosed])]
      exact .cons (o := []) (by simp [Call.go, hclosed]) hrest

/-- The scan passes the waiters that do not accept the event. -/
theorem chain_scan {l₁ l₂ : List (Waiter ε)} (hno : ∀ w ∈ l₁, w.predicate event = false)
    (hs : s.waiters = l₁ ++ l₂) :
    Undisturbed event ⟨s, .scan 0⟩ [] ⟨s, .scan l₁.length⟩ := by
  induction l₁ using List.reverseRecOn generalizing l₂ with
  | nil => exact .nil _
  | append_singleton l₁ w ih =>
    have hw : w.predicate event = false := hno w (by simp)
    have hlt : l₁.length < s.waiters.length := by
      simp [hs]
    have hget : s.waiters[l₁.length] = w := by
      simp [hs]
    have hstep : Call.go event ⟨s, .scan l₁.length⟩ = some (⟨s, .scan (l₁ ++ [w]).length⟩, []) := by
      simp [Call.go, hlt, hget, hw]
    rw [List.append_assoc] at hs
    exact (ih (fun w' hw' => hno w' (List.mem_append_left _ hw')) hs).append (.single hstep)

/-- A call that is not disturbed is `process`. -/
theorem chain_process (event : ε) (s : Standby ε) :
    Undisturbed event (.start s) ((process event).obs s)
      ⟨(process event).state s, .done ((process event).value s)⟩ := by
  have hreap : Undisturbed event (.start s) [] ⟨{ s with waiters := s.live }, .scan 0⟩ :=
    chain_reap [] s.waiters
  -- Nobody accepts the event, or a first one does.
  cases hfind : s.live.find? (·.predicate event) with
  | none =>
    have hno : ∀ w ∈ s.live, w.predicate event = false := fun w hw => by
      simpa using List.find?_eq_none.mp hfind w hw
    rw [Act.obs, Act.state, Act.value, process_none hfind]
    refine (hreap.append (chain_scan hno (List.append_nil _).symm)).append (.single ?_)
    simp [Call.go]
  | some w =>
    obtain ⟨haccepts, l₁, l₂, hlive, hfirst⟩ := List.find?_eq_some_iff_append.mp hfind
    have hno : ∀ w ∈ l₁, w.predicate event = false := fun w hw => by simpa using hfirst w hw
    have hopen : s.isClosed w.sender = false := open_of_live (List.mem_of_find?_eq_some hfind)
    have hprocess := process_found hlive haccepts hno
    -- The first that accepts it is taken out, and the event is sent to it.
    have hremove : Call.go event ⟨{ s with waiters := s.live }, .scan l₁.length⟩ =
        some (⟨⟨l₁ ++ l₂, s.channels⟩, .send w⟩, []) := by
      simp [Call.go, hlive, haccepts, List.eraseIdx_append_of_length_le le_rfl]
    have hsend : Call.go event ⟨⟨l₁ ++ l₂, s.channels⟩, .send w⟩ =
        some (⟨(process event).state s, .done ((process event).value s)⟩,
          (process event).obs s) := by
      have hsent := send_open (s := ⟨l₁ ++ l₂, s.channels⟩) event hopen
      simp only [Call.go, Act.obs, Act.state, Act.value, hprocess, hsent]
    exact ((hreap.append (chain_scan hno hlive)).append (.single hremove)).append (.single hsend)

/-! ### A call while futures are dropped -/

/-- The moves before the step of the call with number `k`. -/
def before : ℕ → List Move → List Move
  | _, [] => []
  | 0, .go :: _ => []
  | k + 1, .go :: moves => .go :: before k moves
  | k, .drop sender :: moves => .drop sender :: before k moves

/-- The waiters that pass the reap: the future of each is not dropped before the check, and the
check of a waiter is the step of the call with the number of its place. -/
def spared (s : Standby ε) (waiters : List (Waiter ε)) (moves : List Move) : List (Waiter ε) :=
  (waiters.zipIdx.filter fun p =>
    !s.isClosed p.1.sender && decide (.drop p.1.sender ∉ before p.2 moves)).map Prod.fst

/-- What a call does with its event, when it finds the waiters `l` after the reap. -/
def Received (event : ε) (s : Standby ε) (moves : List Move) (l : List (Waiter ε))
    (o : List (Notice ε)) : Prop :=
  ∀ sender event', .received sender event' ∈ o ↔
    ∃ w, l.find? (·.predicate event) = some w ∧ sender = w.sender ∧ event' = event ∧
      s.isClosed w.sender = false ∧ .drop w.sender ∉ moves

variable {c c' : Call ε} {moves : List Move} {o : List (Notice ε)} {l : List (Waiter ε)}

/-- A future dropped on the way. -/
theorem Received.drop (hlt : sender < s.channels.length)
    (hr : Received event (s.abandon sender) moves l o) :
    Received event s (.drop sender :: moves) l (.abandoned sender :: o) := by
  intro sender' event'
  rw [List.mem_cons, or_iff_right (by simp), hr sender' event']
  refine exists_congr fun w => ?_
  rw [isClosed_abandon hlt, Bool.or_eq_false_iff, decide_eq_false_iff_not, List.mem_cons, not_or,
    Move.drop.injEq]
  tauto

/-- A step of the call that sends nothing. -/
theorem Received.go {s' : Standby ε} {l' : List (Waiter ε)} (hchannels : s'.channels = s.channels)
    (hfind : l'.find? (·.predicate event) = l.find? (·.predicate event))
    (hr : Received event s' moves l' o) : Received event s (.go :: moves) l o := by
  have hclosed : ∀ sender, s'.isClosed sender = s.isClosed sender := fun sender => by
    rw [isClosed, isClosed, hchannels]
  intro sender event'
  rw [hr sender event', hfind]
  simp [hclosed]

/-- The waiters that pass are the same, when a future is dropped before the first check. -/
theorem spared_drop (hlt : sender < s.channels.length) (rest : List (Waiter ε)) :
    spared s rest (.drop sender :: moves) = spared (s.abandon sender) rest moves := by
  refine congrArg (List.map Prod.fst) (List.filter_congr fun p _ => ?_)
  have hbefore : before p.2 (.drop sender :: moves) = .drop sender :: before p.2 moves := by
    rw [before]
  rw [hbefore, isClosed_abandon hlt]
  by_cases heq : p.1.sender = sender
  · simp [heq]
  · simp [heq]

/-- A waiter that is checked passes if its channel is open. -/
theorem spared_go (rest : List (Waiter ε)) : spared s (w :: rest) (.go :: moves) =
    if s.isClosed w.sender then spared s rest moves else w :: spared s rest moves := by
  have hrest : (rest.zipIdx 1).filter (fun p => !s.isClosed p.1.sender &&
      decide (Move.drop p.1.sender ∉ before p.2 (.go :: moves))) =
      (rest.zipIdx.filter fun p => !s.isClosed p.1.sender &&
        decide (Move.drop p.1.sender ∉ before p.2 moves)).map (Prod.map id (· + 1)) := by
    rw [List.zipIdx_succ, List.filter_map]
    refine congrArg (List.map _) (List.filter_congr fun p _ => ?_)
    simp [before]
  rw [spared, List.zipIdx_cons, List.filter_cons, hrest]
  cases hclosed : s.isClosed w.sender <;> simp [before, spared]

/-- A call that is over moves no more. -/
theorem execute_ended (hended : c.ended = true)
    (he : execute (Call.move event) c moves = some (c', o)) : moves = [] ∧ c' = c ∧ o = [] := by
  cases moves with
  | nil =>
    cases he
    exact ⟨rfl, rfl, rfl⟩
  | cons m moves =>
    obtain ⟨s₁, o₁, o₂, hs, -⟩ := execute_cons_eq_some.mp he
    cases m with
    | go =>
      obtain ⟨standby, stage⟩ := c
      cases stage with
      | done matched => cases hs
      | _ => cases hended
    | drop sender =>
      have hnot := (Option.ite_none_right_eq_some.mp hs).1.1
      rw [hended] at hnot
      cases hnot

/-- A dropped future, in a call that ends. -/
theorem move_drop {c₁ : Call ε} {o₁ : List (Notice ε)}
    (hs : c.move event (.drop sender) = some (c₁, o₁)) :
    sender < c.standby.channels.length ∧ c₁ = { c with standby := c.standby.abandon sender } ∧
      o₁ = [.abandoned sender] := by
  obtain ⟨⟨-, hlt, -⟩, heq⟩ := Option.ite_none_right_eq_some.mp hs
  cases heq
  exact ⟨hlt, rfl, rfl⟩

/-- At the `send`. -/
theorem received_of_send (haccepts : w.predicate event = true) (hended : c'.ended = true)
    (he : execute (Call.move event) ⟨s, .send w⟩ moves = some (c', o)) :
    Received event s moves [w] o := by
  induction moves generalizing s o with
  | nil =>
    cases he
    cases hended
  | cons m moves ih =>
    obtain ⟨c₁, o₁, o₂, hs, hrest, rfl⟩ := execute_cons_eq_some.mp he
    cases m with
    | go =>
      obtain ⟨rfl, rfl⟩ := Prod.mk.inj (Option.some.inj hs)
      obtain ⟨rfl, -, rfl⟩ := execute_ended rfl hrest
      intro sender event'
      have hfind : [w].find? (·.predicate event) = some w := by
        simp [haccepts]
      rw [List.append_nil, hfind]
      -- Its receiver is gone, or it gets the event.
      cases hclosed : s.isClosed w.sender with
      | true =>
        rw [Act.obs, send_closed hclosed]
        simp [hclosed]
      | false =>
        rw [Act.obs, send_open _ hclosed]
        simp [hclosed]
    | drop sender =>
      obtain ⟨hlt, rfl, rfl⟩ := move_drop hs
      exact (ih hrest).drop hlt

/-- In the `position`. -/
theorem received_of_scan {index : ℕ} (hended : c'.ended = true)
    (hfrom : ∀ w ∈ s.waiters.take index, w.predicate event = false)
    (he : execute (Call.move event) ⟨s, .scan index⟩ moves = some (c', o)) :
    Received event s moves s.waiters o := by
  induction moves generalizing s o index with
  | nil =>
    cases he
    cases hended
  | cons m moves ih =>
    obtain ⟨c₁, o₁, o₂, hs, hrest, rfl⟩ := execute_cons_eq_some.mp he
    cases m with
    | go =>
      simp only [Call.move, Call.go] at hs
      split at hs
      case isTrue hlt =>
        have htake : s.waiters = s.waiters.take index ++ s.waiters[index] ::
            s.waiters.drop (index + 1) := by
          rw [List.getElem_cons_drop, List.take_append_drop]
        split at hs
        case isTrue haccepts =>
          -- The waiter at the index is the first that accepts the event.
          cases hs
          refine (received_of_send haccepts hended hrest).go rfl ?_
          have hfirst : s.waiters.find? (·.predicate event) = some s.waiters[index] := by
            refine List.find?_eq_some_iff_append.mpr ⟨haccepts, _, _, htake, fun w hw => ?_⟩
            rw [hfrom w hw, Bool.not_false]
          rw [hfirst]
          simp [haccepts]
        case isFalse hrejects =>
          cases hs
          refine (ih (fun w hw => ?_) hrest).go rfl rfl
          rw [List.take_succ_eq_append_getElem hlt, List.mem_append, List.mem_singleton] at hw
          rcases hw with hw | rfl
          · exact hfrom w hw
          · exact Bool.eq_false_iff.mpr hrejects
      case isFalse hge =>
        cases hs
        obtain ⟨rfl, -, rfl⟩ := execute_ended rfl hrest
        rw [List.take_of_length_le (not_lt.mp hge)] at hfrom
        have hnone : s.waiters.find? (·.predicate event) = none :=
          List.find?_eq_none.mpr fun w hw => by simp [hfrom w hw]
        intro sender event'
        simp [hnone]
    | drop sender =>
      obtain ⟨hlt, rfl, rfl⟩ := move_drop hs
      exact (ih (s := s.abandon sender) hfrom hrest).drop hlt

/-- In the `retain`. -/
theorem received_of_reap (kept : List (Waiter ε)) {rest : List (Waiter ε)}
    (hended : c'.ended = true)
    (he : execute (Call.move event) ⟨s, .reap kept rest⟩ moves = some (c', o)) :
    Received event s moves (kept ++ spared s rest moves) o := by
  induction moves generalizing s o kept rest with
  | nil =>
    cases he
    cases hended
  | cons m moves ih =>
    obtain ⟨c₁, o₁, o₂, hs, hrest, rfl⟩ := execute_cons_eq_some.mp he
    cases m with
    -- The call goes on, or a receiver is dropped in between.
    | go =>
      cases rest with
      | nil =>
        cases hs
        refine (received_of_scan (s := { s with waiters := kept }) hended (by simp) hrest).go rfl ?_
        rw [spared, List.zipIdx_nil, List.filter_nil, List.map_nil, List.append_nil]
      | cons w rest =>
        rw [spared_go]
        simp only [Call.move, Call.go] at hs
        -- The waiter is reaped if its receiver is gone at this time.
        split at hs
        case isTrue hclosed =>
          cases hs
          rw [if_pos hclosed]
          exact (ih kept hrest).go rfl rfl
        case isFalse hopen =>
          cases hs
          rw [if_neg hopen]
          refine (ih (kept ++ [w]) hrest).go rfl ?_
          rw [List.append_assoc, List.singleton_append]
    | drop sender =>
      obtain ⟨hlt, rfl, rfl⟩ := move_drop hs
      rw [spared_drop hlt]
      exact (ih kept hrest).drop hlt

/-- Who receives the event of a call: the first waiter that passes the reap and accepts it,
unless its future is dropped before the `send`. -/
theorem received_of_call (hended : c'.ended = true)
    (he : execute (Call.move event) (.start s) moves = some (c', o)) :
    Received event s moves (spared s s.waiters moves) o :=
  received_of_reap [] hended he

/-- A waiter that is live throughout the call. -/
def Stays (s : Standby ε) (moves : List Move) (w : Waiter ε) : Prop :=
  w ∈ s.waiters ∧ s.isClosed w.sender = false ∧ .drop w.sender ∉ moves

theorem before_subset (k : ℕ) (moves : List Move) : before k moves ⊆ moves := by
  fun_induction before k moves with
  | case1 => exact List.Subset.refl _
  | case2 => exact List.nil_subset _
  | case3 k moves ih => exact List.cons_subset_cons _ ih
  | case4 k sender moves ih => exact List.cons_subset_cons _ ih

theorem mem_spared : w ∈ spared s s.waiters moves ↔
    ∃ k, s.waiters[k]? = some w ∧ s.isClosed w.sender = false ∧
      .drop w.sender ∉ before k moves := by
  simp [spared, List.mem_zipIdx_iff_getElem?]

/-- A waiter that stays passes the reap. -/
theorem Stays.mem_spared (hw : Stays s moves w) : w ∈ spared s s.waiters moves := by
  obtain ⟨k, hk⟩ := List.mem_iff_getElem?.mp hw.1
  exact Standby.mem_spared.mpr ⟨k, hk, hw.2.1, fun hd => hw.2.2 (before_subset k moves hd)⟩

/-- The waiter the event is meant for is still there at the `send`. -/
def ChosenStays (event : ε) (s : Standby ε) (moves : List Move) : Prop :=
  ∀ w, (spared s s.waiters moves).find? (·.predicate event) = some w → .drop w.sender ∉ moves

/-- If a waiter that accepts the event is live throughout the call, such a waiter receives it. -/
def Delivered (event : ε) (s : Standby ε) (moves : List Move) (o : List (Notice ε)) : Prop :=
  (∃ w, Stays s moves w ∧ w.predicate event = true) →
    ∃ w, Stays s moves w ∧ w.predicate event = true ∧ .received w.sender event ∈ o

end Standby

open Standby

/-- **When a waiter that stays is served, or none gets the event**: exactly if the first waiter
that passes the reap and accepts the event is still there at the `send`, or no waiter that accepts
it stays. -/
theorem delivered_iff_chosen_stays {event : ε} {s : Standby ε} {moves : List Move} {c : Call ε}
    {o : List (Notice ε)} (he : execute (Call.move event) (.start s) moves = some (c, o))
    (hended : c.ended = true) : Delivered event s moves o ↔
      ((∃ w, Stays s moves w ∧ w.predicate event = true) → ChosenStays event s moves) := by
  have hreceived := received_of_call hended he
  refine forall_congr' fun ⟨w₀, hstays, hyes⟩ => ⟨?_, fun hchosen => ?_⟩
  · rintro ⟨w, -, -, hw⟩ w' hw'
    obtain ⟨w'', hw'', -, -, -, hnot⟩ := (hreceived _ _).mp hw
    rw [hw'] at hw''
    cases hw''
    exact hnot
  · have hsome : ((spared s s.waiters moves).find? (·.predicate event)).isSome :=
      List.find?_isSome.mpr ⟨w₀, hstays.mem_spared, hyes⟩
    obtain ⟨w, hw⟩ := Option.isSome_iff_exists.mp hsome
    obtain ⟨k, hk, hopen, -⟩ := mem_spared.mp (List.mem_of_find?_eq_some hw)
    have hnot := hchosen w hw
    exact ⟨w, ⟨List.mem_of_getElem? hk, hopen, hnot⟩, (List.find?_eq_some_iff_append.mp hw).1,
      (hreceived _ _).mpr ⟨w, hw, rfl, rfl, hopen, hnot⟩⟩

/-- Two waiters for any event. -/
def twoWaiting : Standby ℕ :=
  ⟨[⟨fun _ => true, 0⟩, ⟨fun _ => true, 1⟩], [.waiting, .waiting]⟩

theorem run_twoWaiting : ∃ h, Run Standby.step ({} : Standby ℕ) h twoWaiting := by
  have he : execute Standby.step ({} : Standby ℕ)
      [.waitFor fun _ => true, .waitFor fun _ => true] = some (twoWaiting, _) := rfl
  exact ⟨_, run_of_execute he⟩

/-- The first of them gives up after its check. -/
def givesUp : List Move := [.go, .drop 0, .go, .go, .go, .go]

theorem execute_givesUp : execute (Call.move 7) (.start twoWaiting) givesUp =
    some (⟨⟨[⟨fun _ => true, 1⟩], [.closed, .waiting]⟩, .done false⟩, [.abandoned 0]) := rfl

theorem delivered_iff_chosen_stays_givesUp : Delivered 7 twoWaiting givesUp [.abandoned 0] ↔
    ((∃ w, Stays twoWaiting givesUp w ∧ w.predicate 7 = true) →
      ChosenStays 7 twoWaiting givesUp) :=
  delivered_iff_chosen_stays execute_givesUp rfl

/-- The event of a waiter that gives up is lost for the other one. -/
theorem not_delivered : ¬ ∀ (h : List (Notice ℕ)) (s : Standby ℕ) (event : ℕ)
    (moves : List Move) (c : Call ℕ) (o : List (Notice ℕ)), Run Standby.step {} h s →
      execute (Call.move event) (.start s) moves = some (c, o) → c.ended = true →
        Delivered event s moves o := by
  intro hall
  obtain ⟨h, hrun⟩ := run_twoWaiting
  obtain ⟨w, -, -, hw⟩ := hall h twoWaiting 7 givesUp _ _ hrun execute_givesUp rfl
    ⟨⟨fun _ => true, 1⟩, ⟨by simp [twoWaiting], rfl, by decide⟩, rfl⟩
  cases List.mem_singleton.mp hw

end RocketSocket
