import RocketSocket.Framework.Filter
import RocketSocket.Framework.RoleRun
import RocketSocket.Lib.Entrywise
import RocketSocket.Realtime.Wire

/-!
# The framework

`framework.rs` of `rocketsocket`: an event is offered to every handler, one after the other,
behind the handler's filters.  Any number of calls of `dispatch` may be in progress, and the
credentials of the REST client may be set at any time, so every place where a call awaits is a
state of that call.

The body of a handler is the application's; a run shows only that it was called.

## Main definitions

* `DecodedEvent` — the events that are dispatched.
* `Framework`, `DispatchPhase` — the framework, and where a call of `dispatch` stands.
* `Framework.step` — one step of a call, of the REST client, or of the role directory.
* `DispatchNote` — what a run shows.
* `Framework.Goes`, `Framework.Moves` — the steps, case by case.

## Main results

* `moves_of_step` — the inversion of a step.
* `dispatches_move` — what a step does to one call.
* `roles_move`, `roles_of_run` — a run of the framework is one of its role directory.
-/

namespace RocketSocket

open Machine

/-! ### Events -/

/-- A decoded stream event, as far as the framework tells them apart. -/
inductive StreamEvent where
  | myMessage (message : StreamMessage)
  | roomMessage (room : RoomId) (message : StreamMessage)
  | rolesChanged (change : RoleChange)
  | other

/-- A `ClientEvent`, its stream event decoded. -/
inductive DecodedEvent where
  | stream (event : StreamEvent)
  | resubscribed (epoch : Epoch) (restored : ℕ)
  | connection (event : Event)

namespace DecodedEvent

/-- The message of the event and its room: only such events can be filtered. -/
def message : DecodedEvent → Option (StreamMessage × RoomId)
  | .stream (.myMessage message) => some (message, message.rid)
  | .stream (.roomMessage room message) => some (message, room)
  | _ => none

/-- The invalidating call `observe` makes. -/
def observe : DecodedEvent → Option Invalidation
  | .stream (.rolesChanged change) => some (.roleChange change)
  | .resubscribed .. => some .all
  | _ => none

end DecodedEvent

/-! ### The framework -/

/-- A registered handler. -/
structure Handler where
  name : String
  filters : Filters := {}
  deriving DecidableEq, Repr

/-- Where a call of `dispatch` stands. -/
inductive DispatchPhase where
  /-- It is in `observe`, and in the invalidating call of the directory `observe` makes. -/
  | observing (call : Option ℕ)
  /-- It is about to offer the event to handler number `j`. -/
  | offering (j : ℕ)
  /-- It holds the permit to fill in the bot's own id, and awaits the credentials. -/
  | identifying (j : ℕ)
  /-- It has read them. -/
  | identified (j : ℕ) (user : Option UserId)
  /-- It awaits its call number `n` of the directory. -/
  | checking (j n : ℕ)
  /-- It awaits the handler. -/
  | running (j : ℕ)
  | returned
  /-- The caller dropped the future. -/
  | cancelled
  deriving DecidableEq, Repr

namespace DispatchPhase

/-- The permit of the cell is held. -/
def identifies : DispatchPhase → Bool
  | .identifying _ | .identified .. => true
  | _ => false

/-- The call of the directory that is awaited. -/
def check : DispatchPhase → Option ℕ
  | .checking _ n => some n
  | _ => none

/-- The call is where its future can be dropped. -/
def isSuspended : DispatchPhase → Bool
  | .offering _ | .identifying _ | .checking .. | .running _ => true
  | _ => false

end DispatchPhase

/-- A call of `dispatch`. -/
structure Dispatch where
  event : DecodedEvent
  phase : DispatchPhase

/-- What a call of the directory has returned. -/
def CheckPhase.granted : CheckPhase → Option Bool
  | .returned granted => some granted
  | _ => none

/-- The call of the directory that an input drops. -/
def RoleInput.cancelled : RoleInput → Option ℕ
  | .cancel n => some n
  | _ => none

/-- The framework, the credentials of the REST client, and the calls in progress. -/
structure Framework where
  handlers : List Handler
  roles : RoleDirectory
  /-- The user whose credentials the REST client holds. -/
  credentials : Option UserId
  /-- The bot's own id, resolved once. -/
  me : Option (Option UserId) := none
  dispatches : List Dispatch := []

/-- Who moves. -/
inductive DispatchInput where
  | dispatch (event : DecodedEvent)
  | advance (i : ℕ)
  | cancel (i : ℕ)
  /-- A login, a logout, or `set_authentication`. -/
  | setCredentials (user : Option UserId)
  | roles (input : RoleInput)

/-- What a run shows. -/
inductive DispatchNote where
  /-- A call begins, with the message of its event and the credentials of that moment. -/
  | dispatched (i : ℕ) (message : Option (StreamMessage × RoomId)) (credentials : Option UserId)
  | observed (i : ℕ)
  /-- The credentials are read to fill in the bot's own id. -/
  | identified (i : ℕ) (credentials : Option UserId)
  | checking (i j n : ℕ)
  /-- Handler number `j` is called on the event of call number `i`. -/
  | called (i j : ℕ)
  | role (note : RoleNote)
  deriving DecidableEq

/-- The note of the directory. -/
def DispatchNote.role? : DispatchNote → Option RoleNote
  | .role note => some note
  | _ => none

namespace Framework

/-- A framework with its handlers registered. -/
def init (handlers : List Handler) (config : RoleCacheConfig) (credentials : Option UserId) :
    Framework :=
  { handlers := handlers, roles := .init config, credentials := credentials }

variable (f : Framework)

/-- Call number `i` stands elsewhere now. -/
def setPhase (i : ℕ) (dispatch : Dispatch) (phase : DispatchPhase) : Framework :=
  { f with dispatches := f.dispatches.set i { dispatch with phase := phase } }

/-- The handler is called. -/
def callHandler (i j : ℕ) (dispatch : Dispatch) : Framework × List DispatchNote :=
  (f.setPhase i dispatch (.running j), [.called i j])

/-- The handler is passed over. -/
def passOver (i j : ℕ) (dispatch : Dispatch) : Framework × List DispatchNote :=
  (f.setPhase i dispatch (.offering (j + 1)), [])

/-- The filters of a handler are applied: those that need the server ask the directory. -/
def filter (i j : ℕ) (dispatch : Dispatch) (filters : Filters) (message : StreamMessage)
    (room : RoomId) (me : Option UserId) : Framework × List DispatchNote :=
  match filters.localVerdict message room me with
  | some _ => f.passOver i j dispatch
  | none =>
    let (roles, notes) := f.roles.ask (.verdict filters.authority message.u room)
    ({ f with roles := roles }.setPhase i dispatch (.checking j f.roles.checks.length),
      .checking i j f.roles.checks.length :: notes.map .role)

/-- The event is offered to handler number `j`.  The first message ever filtered fills in the
bot's own id; meanwhile the others wait. -/
def offer (i j : ℕ) (dispatch : Dispatch) : Option (Framework × List DispatchNote) :=
  match f.handlers[j]? with
  | none => some (f.setPhase i dispatch .returned, [])
  | some handler =>
    match dispatch.event.message with
    | none => some (f.callHandler i j dispatch)
    | some (message, room) =>
      match f.me with
      | some me => some (f.filter i j dispatch handler.filters message room me)
      | none =>
        if f.dispatches.any (·.phase.identifies) then none
        else some (f.setPhase i dispatch (.identifying j), [])

/-- The awaited call of the directory has returned. -/
def conclude (i j : ℕ) (dispatch : Dispatch) (granted : Bool) : Framework × List DispatchNote :=
  match Filtered.ofGranted granted with
  | some _ => f.passOver i j dispatch
  | none => f.callHandler i j dispatch

/-- A call of `dispatch` goes on. -/
def advance (i : ℕ) (dispatch : Dispatch) : Option (Framework × List DispatchNote) :=
  match dispatch.phase with
  | .observing call =>
    if ∀ k ∈ call, f.roles.invalidations[k]? = some [] then
      some (f.setPhase i dispatch (.offering 0), [.observed i])
    else none
  | .offering j => f.offer i j dispatch
  | .identifying j =>
    some (f.setPhase i dispatch (.identified j f.credentials), [.identified i f.credentials])
  | .identified j user => some ({ f with me := some user }.setPhase i dispatch (.offering j), [])
  | .checking j n =>
    (f.roles.checks[n]?.bind (·.phase.granted)).map (f.conclude i j dispatch)
  | .running j => some (f.setPhase i dispatch (.offering (j + 1)), [])
  | .returned | .cancelled => none

/-- A call of `dispatch` begins. -/
def beginDispatch (event : DecodedEvent) : Framework × List DispatchNote :=
  let calls := event.observe.toList.map Invalidation.drops
  ({ f with
      roles := { f.roles with invalidations := f.roles.invalidations ++ calls }
      dispatches := f.dispatches ++ [
        { event := event
          phase := .observing (event.observe.map fun _ => f.roles.invalidations.length) }] },
    [.dispatched f.dispatches.length event.message f.credentials])

/-- The directory without the call that is awaited, whose future is dropped. -/
def abandon (dispatch : Dispatch) : RoleDirectory :=
  ((dispatch.phase.check.bind fun n => f.roles.step (.cancel n)).elim f.roles (·.1))

/-- One step.  A call of the directory that `dispatch` awaits is dropped only with it. -/
def step : DispatchInput → Option (Framework × List DispatchNote)
  | .dispatch event => some (f.beginDispatch event)
  | .advance i => f.dispatches[i]?.bind (f.advance i)
  | .cancel i => do
    let dispatch ← f.dispatches[i]?
    guard dispatch.phase.isSuspended
    return ({ f with roles := f.abandon dispatch }.setPhase i dispatch .cancelled, [])
  | .setCredentials user => some ({ f with credentials := user }, [])
  | .roles input => do
    guard (∀ n ∈ input.cancelled, ∀ dispatch ∈ f.dispatches, dispatch.phase.check ≠ some n)
    let (roles, notes) ← f.roles.step input
    return ({ f with roles := roles }, notes.map .role)

/-! ### The steps, case by case -/

/-- How a call of `dispatch` goes on: where it stands then, what else of the framework moves,
and what the run shows. -/
inductive Goes (f : Framework) (i : ℕ) (dispatch : Dispatch) :
    DispatchPhase → Framework → List DispatchNote → Prop
  | observed {call : Option ℕ} (hphase : dispatch.phase = .observing call)
      (hreturned : ∀ k ∈ call, f.roles.invalidations[k]? = some []) :
      Goes f i dispatch (.offering 0) f [.observed i]
  | finish {j : ℕ} (hphase : dispatch.phase = .offering j) : Goes f i dispatch .returned f []
  | unfiltered {j : ℕ} (hphase : dispatch.phase = .offering j)
      (hmessage : dispatch.event.message = none) : Goes f i dispatch (.running j) f [.called i j]
  | skip {j : ℕ} (hphase : dispatch.phase = .offering j) :
      Goes f i dispatch (.offering (j + 1)) f []
  | ask {j : ℕ} {handler : Handler} {message : StreamMessage} {room : RoomId}
      {me : Option UserId} (hphase : dispatch.phase = .offering j)
      (hhandler : f.handlers[j]? = some handler)
      (hmessage : dispatch.event.message = some (message, room)) (hme : f.me = some me)
      (hpass : handler.filters.localVerdict message room me = none) :
      Goes f i dispatch (.checking j f.roles.checks.length)
        { f with roles := (f.roles.ask (.verdict handler.filters.authority message.u room)).1 }
        (.checking i j f.roles.checks.length ::
          (f.roles.ask (.verdict handler.filters.authority message.u room)).2.map .role)
  | identify {j : ℕ} (hphase : dispatch.phase = .offering j) (hme : f.me = none)
      (hfree : f.dispatches.any (·.phase.identifies) = false) :
      Goes f i dispatch (.identifying j) f []
  | read {j : ℕ} (hphase : dispatch.phase = .identifying j) :
      Goes f i dispatch (.identified j f.credentials) f [.identified i f.credentials]
  | fill {j : ℕ} {user : Option UserId} (hphase : dispatch.phase = .identified j user) :
      Goes f i dispatch (.offering j) { f with me := some user } []
  | deny {j n : ℕ} (hphase : dispatch.phase = .checking j n) :
      Goes f i dispatch (.offering (j + 1)) f []
  | grant {j n : ℕ} (hphase : dispatch.phase = .checking j n) :
      Goes f i dispatch (.running j) f [.called i j]
  | resume {j : ℕ} (hphase : dispatch.phase = .running j) :
      Goes f i dispatch (.offering (j + 1)) f []
  | cancel (hsuspended : dispatch.phase.isSuspended = true) :
      Goes f i dispatch .cancelled { f with roles := f.abandon dispatch } []

/-- The steps, case by case. -/
inductive Moves (f : Framework) : Framework → List DispatchNote → Prop
  | dispatch (event : DecodedEvent) : Moves f (f.beginDispatch event).1 (f.beginDispatch event).2
  | goes {i : ℕ} {dispatch : Dispatch} {phase : DispatchPhase} {f₁ : Framework}
      {notes : List DispatchNote} (hi : f.dispatches[i]? = some dispatch)
      (hgoes : f.Goes i dispatch phase f₁ notes) : Moves f (f₁.setPhase i dispatch phase) notes
  | setCredentials (user : Option UserId) : Moves f { f with credentials := user } []
  | roles {input : RoleInput} {d : RoleDirectory} {notes : List RoleNote}
      (hstep : f.roles.step input = some (d, notes)) :
      Moves f { f with roles := d } (notes.map .role)

variable {f f' f₁ : Framework} {h notes : List DispatchNote} {input : DispatchInput}
  {i j : ℕ} {dispatch : Dispatch} {phase : DispatchPhase}

theorem moves_of_offer (hi : f.dispatches[i]? = some dispatch)
    (hphase : dispatch.phase = .offering j) (h : f.offer i j dispatch = some (f', notes)) :
    Moves f f' notes := by
  unfold offer at h
  split at h
  · -- There is no handler left.
    cases h
    exact .goes hi (.finish hphase)
  · next handler hhandler =>
    split at h
    · -- The event is no message, and no filter is asked.
      next hmessage =>
      cases h
      exact .goes hi (.unfiltered hphase hmessage)
    · next message room hmessage =>
      split at h
      · next me hme =>
        unfold filter at h
        split at h
        · -- The filters answer without a role.
          cases h
          exact .goes hi (.skip hphase)
        · next hpass =>
          cases h
          exact .goes hi (.ask hphase hhandler hmessage hme hpass)
      · next hme =>
        split at h
        · -- Whose bot this is is not known yet: the cell is waited for, or taken if nobody has it.
          cases h
        · next hfree =>
          cases h
          exact .goes hi (.identify hphase hme (Bool.not_eq_true _ ▸ hfree))

theorem moves_of_advance (hi : f.dispatches[i]? = some dispatch)
    (h : f.advance i dispatch = some (f', notes)) : Moves f f' notes := by
  unfold advance at h
  split at h
  · next call hphase =>
    split at h
    · next hreturned =>
      cases h
      exact .goes hi (.observed hphase hreturned)
    · cases h
  · next j hphase => exact moves_of_offer hi hphase h
  · next j hphase =>
    cases h
    exact .goes hi (.read hphase)
  · next j user hphase =>
    cases h
    exact .goes hi (.fill hphase)
  · next j n hphase =>
    obtain ⟨granted, -, h⟩ := Option.map_eq_some_iff.mp h
    cases granted with
    | false =>
      cases h
      exact .goes hi (.deny hphase)
    | true =>
      cases h
      exact .goes hi (.grant hphase)
  · next j hphase =>
    cases h
    exact .goes hi (.resume hphase)
  · cases h
  · cases h

/-- **The inversion of a step.** -/
theorem moves_of_step (h : f.step input = some (f', notes)) : Moves f f' notes := by
  cases input with
  | dispatch event =>
    cases h
    exact .dispatch event
  | advance i =>
    obtain ⟨dispatch, hi, h⟩ := Option.bind_eq_some_iff.mp h
    exact moves_of_advance hi h
  | cancel i =>
    simp only [step, Option.bind_eq_bind, Option.bind_eq_some_iff, Option.guard_eq_some',
      Option.pure_def, Option.some.injEq, Prod.mk.injEq] at h
    obtain ⟨dispatch, hi, _, hsuspended, rfl, rfl⟩ := h
    exact .goes hi (.cancel hsuspended)
  | setCredentials user =>
    cases h
    exact .setCredentials user
  | roles input =>
    simp only [step, Option.bind_eq_bind, Option.bind_eq_some_iff, Option.guard_eq_some',
      Option.pure_def, Option.some.injEq, Prod.exists, Prod.mk.injEq] at h
    obtain ⟨_, -, d, notes, hstep, rfl, rfl⟩ := h
    exact .roles hstep

/-! ### What a step does to one call -/

theorem Goes.dispatches (hgoes : f.Goes i dispatch phase f₁ notes) :
    f₁.dispatches = f.dispatches := by
  cases hgoes <;> rfl

/-- A call after a step is as it was, or new, or it went on. -/
theorem dispatches_move (hmove : Moves f f' notes) (hi : f'.dispatches[i]? = some dispatch) :
    f.dispatches[i]? = some dispatch ∨
      (i = f.dispatches.length ∧
        ∃ event, f' = (f.beginDispatch event).1 ∧ notes = (f.beginDispatch event).2) ∨
      ∃ d phase f₁, f.dispatches[i]? = some d ∧ f.Goes i d phase f₁ notes ∧
        dispatch = { d with phase := phase } := by
  cases hmove with
  | dispatch event =>
    change (f.dispatches ++ [_])[i]? = some dispatch at hi
    rcases getElem?_of_concat hi with ⟨rfl, -⟩ | hi
    · exact .inr (.inl ⟨rfl, event, rfl, rfl⟩)
    · exact .inl hi
  | @goes k d phase f₁ notes hk hgoes =>
    change (f₁.dispatches.set k _)[i]? = some dispatch at hi
    rw [hgoes.dispatches] at hi
    rcases getElem?_of_set hi with ⟨rfl, rfl⟩ | ⟨-, hi⟩
    · exact .inr (.inr ⟨d, phase, f₁, hk, hgoes, rfl⟩)
    · exact .inl hi
  | setCredentials => exact .inl hi
  | roles => exact .inl hi

/-! ### The directory of a run -/

theorem role?_role (note : RoleNote) : (DispatchNote.role note).role? = some note := rfl

/-- Dropping the future of a call drops the call of the directory that it awaits. -/
theorem abandon_cases (f : Framework) (dispatch : Dispatch) :
    (∃ n, f.roles.step (.cancel n) = some (f.abandon dispatch, [])) ∨
      f.abandon dispatch = f.roles := by
  cases hstep : dispatch.phase.check.bind fun n => f.roles.step (.cancel n) with
  | none => exact .inr (by rw [abandon, hstep, Option.elim_none])
  | some p =>
    obtain ⟨d, notes⟩ := p
    obtain ⟨n, -, hn⟩ := Option.bind_eq_some_iff.mp hstep
    -- dropping a call shows nothing
    have hnotes : notes = [] := by
      cases RoleDirectory.moves_of_step hn
      rfl
    refine .inl ⟨n, ?_⟩
    rw [abandon, hstep, Option.elim_some, hn, hnotes]

/-- **A step of the framework is at most one of its directory.** -/
theorem roles_move (hmove : Moves f f' notes) :
    (∃ input, f.roles.step input = some (f'.roles, notes.filterMap DispatchNote.role?)) ∨
      (f'.roles = f.roles ∧ notes.filterMap DispatchNote.role? = []) := by
  cases hmove with
  | dispatch event =>
    cases hobserve : event.observe with
    | none => exact .inr ⟨by simp [beginDispatch, hobserve], rfl⟩
    | some call => exact .inl ⟨.invalidate call, by simp [beginDispatch, hobserve]; rfl⟩
  | @goes i dispatch phase f₁ notes hi hgoes =>
    cases hgoes with
    | @ask j handler message room =>
      refine .inl ⟨.ask (.verdict handler.filters.authority message.u room), ?_⟩
      rw [List.filterMap_cons_none (by rfl), filterMap_map_cancel role?_role]
      rfl
    | cancel =>
      rcases f.abandon_cases dispatch with ⟨n, hn⟩ | heq
      · exact .inl ⟨.cancel n, hn⟩
      · exact .inr ⟨heq, rfl⟩
    | observed => exact .inr ⟨rfl, rfl⟩
    | finish => exact .inr ⟨rfl, rfl⟩
    | unfiltered => exact .inr ⟨rfl, rfl⟩
    | skip => exact .inr ⟨rfl, rfl⟩
    | identify => exact .inr ⟨rfl, rfl⟩
    | read => exact .inr ⟨rfl, rfl⟩
    | fill => exact .inr ⟨rfl, rfl⟩
    | deny => exact .inr ⟨rfl, rfl⟩
    | grant => exact .inr ⟨rfl, rfl⟩
    | resume => exact .inr ⟨rfl, rfl⟩
  | setCredentials => exact .inr ⟨rfl, rfl⟩
  | roles hstep => exact .inl ⟨_, by rwa [filterMap_map_cancel role?_role]⟩

/-- **A run of the framework is one of its directory.** -/
theorem roles_of_run {f₀ : Framework} (hrun : Run step f₀ h f) :
    Run RoleDirectory.step f₀.roles (h.filterMap DispatchNote.role?) f.roles :=
  hrun.simulate fun hstep => roles_move (moves_of_step hstep)

theorem role?_eq_some (x : DispatchNote) (note : RoleNote) :
    x.role? = some note ↔ x = .role note := by
  cases x <;> simp [DispatchNote.role?]

theorem mem_filterMap_role? {note : RoleNote} :
    note ∈ h.filterMap DispatchNote.role? ↔ .role note ∈ h :=
  mem_filterMap_iff role?_eq_some

end Framework
end RocketSocket
