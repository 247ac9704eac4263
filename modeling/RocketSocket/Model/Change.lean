import RocketSocket.Model.Events
import RocketSocket.Model.Schema

/-!
# The subscription of a change

The second argument of `subscriptions-changed` is a whole subscription or the stub that is
declared for a removal.  The whole one is tried first, and a stub has no members but its own,
so a subscription that is not read as one is not read as a stub either.

## Main definitions

* `Schema.readStrict` — a struct without other members.
* `Schema.subscriptionStub` — the stub.
* `SubscriptionChange`, `withChanges` — what the event carries.

## Main results

* `Schema.readStrict_of_unknown` — an object with another member is not read strictly.
* `decode_subscriptionsChanged` — the event of a change.
* `subscription_not_downgraded` — **a subscription is never read as a stub**, unless it has
  nothing else.
-/

namespace RocketSocket

open Machine

namespace Schema

/-- Reads a struct, and refuses an object with members of other names. -/
def readStrict (s : Schema) (v : Value) : Option (Doc s) :=
  match v with
  | .object members =>
    if ∀ key ∈ members.map Prod.fst, key ∈ s.names then s.readStruct v else none
  | _ => s.readStruct v

section Strict

variable {s : Schema} {members : Members}

theorem readStrict_of_unknown (h : ∃ key ∈ members.map Prod.fst, key ∉ s.names) :
    s.readStrict (.object members) = none := by
  obtain ⟨key, hkey, hunknown⟩ := h
  exact if_neg fun hall => hunknown (hall key hkey)

end Strict

/-- The reduced subscription that is declared for a removal. -/
def subscriptionStubMembers : List Member :=
  [.required "_id" .string, .optional "rid" .string, .optional "u" userRef.codec,
   .optional "t" (.wireEnum WireValues.roomType)]

theorem subscriptionStub_nodup :
    ((subscriptionStubMembers).map fun member => member.key).Nodup := by decide

/-- The schema of a stub of a subscription. -/
def subscriptionStub : Schema := ⟨subscriptionStubMembers, subscriptionStub_nodup⟩

end Schema

/-- The subscription carried by `subscriptions-changed`. -/
inductive SubscriptionChange (parse : String → Option Timestamp) where
  /-- A complete subscription. -/
  | full (subscription : Doc (Schema.subscription parse))
  /-- The reduced form. -/
  | stub (stub : Doc Schema.subscriptionStub)

namespace Events

variable {parse : String → Option Timestamp}

/-- The complete form is tried first. -/
def readChange (parse : String → Option Timestamp) (v : Value) :
    Option (SubscriptionChange parse) :=
  match (Schema.subscription parse).readStruct v with
  | some subscription => some (.full subscription)
  | none => (Schema.subscriptionStub.readStrict v).map .stub

instance : DeserializeOwned (SubscriptionChange parse) := ⟨readChange parse⟩

/-- The payloads, with what a subscription change is read as. -/
def withChanges (P : Payloads) (parse : String → Option Timestamp) : Payloads :=
  { P with SubscriptionChange := SubscriptionChange parse, subscriptionChange := inferInstance }

variable {P : Payloads} {stream event user : String} {args : List Value} {action : ClientAction}
  {v : Value} {o : Members}

theorem req_eq {T : Type} [DeserializeOwned T] {index : ℕ} (h : args[index]? = some v)
    (hnull : v.isNull = false) : (req args index : Option T) = DeserializeOwned.deserialize v := by
  have hjoin : ∀ read : Option T, (read.map some).join = read := by
    intro read
    cases read <;> rfl
  rw [req, opt, h]
  cases v with
  | null => cases hnull
  | _ => exact hjoin _

/-- The event of a change. -/
theorem decode_subscriptionsChanged (hstream : stripStream stream = "notify-user")
    (hkey : splitKey event = some (user, "subscriptions-changed"))
    (haction : (req args 0 : Option ClientAction) = some action)
    (hsecond : args[1]? = some v) (hnull : v.isNull = false) :
    (decode stream event args : StreamEvent (withChanges P parse)) =
      ((readChange parse v).map fun change => .subscriptionsChanged ⟨user⟩ action change).getD
        (.unknown stream event args) := by
  have hchange : (req args 1 : Option (SubscriptionChange parse)) = readChange parse v :=
    req_eq hsecond hnull
  have hevent : (userEvent ⟨user⟩ "subscriptions-changed" args :
      Option (StreamEvent (withChanges P parse))) =
        (req args 0).bind fun action => (readChange parse v).bind fun change =>
          some (.subscriptionsChanged ⟨user⟩ action change) := by
    rw [← hchange]
    rfl
  rw [decode, tryDecode, hstream]
  show (notifyUser event args).getD _ = _
  rw [notifyUser, hkey, Option.bind_some, hevent, haction, Option.bind_some]
  cases readChange parse v with
  | none => rfl
  | some change => rfl

/-- **A subscription is never read as a stub**, unless it has nothing that a stub does not have:
what is read as a complete one is kept as one, and what is not, but has more than a stub, is kept
as it came. -/
theorem subscription_not_downgraded (hstream : stripStream stream = "notify-user")
    (hkey : splitKey event = some (user, "subscriptions-changed"))
    (haction : (req args 0 : Option ClientAction) = some action)
    (hsecond : args[1]? = some (.object o)) :
    (∀ subscription, (Schema.subscription parse).readStruct (.object o) = some subscription →
      (decode stream event args : StreamEvent (withChanges P parse)) =
        .subscriptionsChanged ⟨user⟩ action (.full subscription)) ∧
    ((Schema.subscription parse).readStruct (.object o) = none →
      (∀ user' action' stub, (decode stream event args : StreamEvent (withChanges P parse)) =
          .subscriptionsChanged user' action' (.stub stub) →
        ∀ key ∈ o.map Prod.fst, key ∈ ["_id", "rid", "u", "t"]) ∧
      ((∃ key ∈ o.map Prod.fst, key ∉ ["_id", "rid", "u", "t"]) →
        (decode stream event args : StreamEvent (withChanges P parse)) =
          .unknown stream event args)) := by
  have hdecode : (decode stream event args : StreamEvent (withChanges P parse)) = _ :=
    decode_subscriptionsChanged hstream hkey haction hsecond rfl
  constructor
  · intro subscription hfull
    rw [hdecode, readChange, hfull]
    rfl
  · intro hnone
    have hunknown : (∃ key ∈ o.map Prod.fst, key ∉ ["_id", "rid", "u", "t"]) →
        (decode stream event args : StreamEvent (withChanges P parse)) =
          .unknown stream event args := by
      intro h
      rw [hdecode, readChange, hnone]
      show ((Schema.subscriptionStub.readStrict (.object o)).map _ |>.map _).getD _ = _
      -- A member that no stub has is refused.
      rw [Schema.readStrict_of_unknown h]
      rfl
    refine ⟨?_, hunknown⟩
    intro user' action' stub hstub
    by_contra hkeys
    rw [hunknown (by simpa using hkeys)] at hstub
    cases hstub

/-- A value that is read as it is. -/
instance : DeserializeOwned Value := ⟨some⟩

/-- Every payload as it is. -/
def rawPayloads : Payloads where
  Message := Value
  MyMessageMeta := Value
  BulkDelete := Value
  DesktopNotification := Value
  Room := Value
  SubscriptionChange := Value
  UserDataEvent := Value
  PresenceStatus := Value
  PresenceSource := Value
  Timestamp := Value
  RoleChange := Value

/-- A subscription that has lost its room. -/
def roomless : Members := [("_id", .string "s1"), ("open", .bool true), ("unread", .int 3)]

/-- It is kept as it came. -/
theorem roomless_not_downgraded :
    (decode "stream-notify-user" "u1/subscriptions-changed"
        [.string "updated", .object roomless] :
      StreamEvent (withChanges rawPayloads fun _ => none)) =
      .unknown "stream-notify-user" "u1/subscriptions-changed"
        [.string "updated", .object roomless] := by
  have hnone : (Schema.subscription fun _ => none).readStruct (.object roomless) = none := by
    rw [← Option.isNone_iff_eq_none]
    decide
  have hkey : splitKey "u1/subscriptions-changed" = some ("u1", "subscriptions-changed") := by
    decide
  have haction : (req [.string "updated", .object roomless] 0 : Option ClientAction) =
      some .updated := rfl
  exact ((subscription_not_downgraded (P := rawPayloads) (by decide) hkey haction rfl).2
    hnone).2 ⟨"open", by decide, by decide⟩

end Events

end RocketSocket
