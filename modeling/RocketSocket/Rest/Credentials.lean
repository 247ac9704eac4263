import RocketSocket.Rest.Client

/-!
# Calls that share a credential slot

A login with a personal access token installs it, validates it and may put back what was there
before; a logout clears the slot long after it read it.  In between every other call may put
credentials into the slot, and then they are displaced, cleared, or validated for another's.
When no call puts credentials while another is in between, each touches only its own.

## Main definitions

* `inPlace` — whose credentials the slot holds.
* `OwnOnly` — what a call may do to the slot, and return.
* `RestClient.Waits` — the step puts no credentials in the way of another call.
* `RestPhase.Kept`, `RestClient.Sound` — the invariant of runs whose steps wait.

## Main results

* `RestClient.Sound.step` — what one step preserves.
* `own_credentials` — **calls touch only their own credentials** while every step waits.
* `own_credentials_fails` — otherwise they do not.
-/

namespace RocketSocket

open Machine

variable {υ : Type} {h o : List (RestNote υ)} {held : Option (ℕ × Authentication)}
  {n m : ℕ} {a : Authentication}

/-! ### Whose credentials are in place -/

/-- What the slot holds after a note, and the call that put it there, if the note says so.  Who
puts something back counts as who put it there. -/
def RestNote.place : RestNote υ → Option (Option (ℕ × Authentication))
  | .installed n authentication => some (some (n, authentication))
  | .emptied _ | .cleared .. => some none
  | .restored n _ previous => some (previous.map (n, ·))
  | _ => none

/-- What the slot holds after some notes, and the call that put it there. -/
def placed (held : Option (ℕ × Authentication)) : List (RestNote υ) → Option (ℕ × Authentication)
  | [] => held
  | note :: h => placed (note.place.getD held) h

/-- What some call put into the slot and is still there. -/
def inPlace (h : List (RestNote υ)) : Option (ℕ × Authentication) := placed none h

theorem placed_append : placed held (h ++ o) = placed (placed held h) o := by
  induction h generalizing held with
  | nil => rfl
  | cons note h ih => exact ih

theorem inPlace_append : inPlace (h ++ o) = placed (inPlace h) o := placed_append

/-! ### The property -/

/-- A failed login leaves what another call put into the slot since; its own token overwrote
all before.  A logout clears the slot of what it sent.  The user a login returns is the one
the server reported, or issued the token for, in that login. -/
def OwnOnly (pre : List (RestNote υ)) : RestNote υ → Prop
  | .restored n _ previous => ∀ m a, inPlace pre = some (m, a) → m ≠ n → previous = some a
  | .cleared _ sent held => ∀ a, held = some a → a = sent
  | .returned n (.login (.ok outcome)) =>
    .reported n outcome.authentication outcome.me ∈ pre ∨
      .issued n outcome.authentication outcome.me ∈ pre
  | _ => True

/-! ### Waiting -/

/-- The credentials a call puts into the slot in its next step. -/
def RestPhase.puts : RestPhase υ → Option Authentication
  | .begun (.login credentials) => credentials.asAuthentication
  | .begun (.setAuthentication authentication) => authentication
  | .storing outcome => some outcome.authentication
  | .restoring previous _ => previous
  | _ => none

/-- A call where it stands is not disturbed by these credentials.  A login between its
installation and its return is, unless it would put the same back; a logout that was sent is,
unless it was sent with the same. -/
def RestPhase.Bears (a : Authentication) : RestPhase υ → Prop
  | .installed own previous => a = own ∧ previous = some a
  | .validating _ previous _ | .restoring previous _ => previous = some a
  | .leaving sent | .clearing sent _ => a = sent
  | _ => True

instance (phase : RestPhase υ) : Decidable (phase.Bears a) := by
  cases phase <;> unfold RestPhase.Bears <;> infer_instance

namespace RestClient

variable {c c' : RestClient υ} {phase phase' : RestPhase υ}

/-- The call that puts credentials into the slot in this step, and the credentials. -/
def puts (c : RestClient υ) : RestInput υ → Option (ℕ × Authentication)
  | .go n => (c.calls[n]?.bind RestPhase.puts).map (n, ·)
  | _ => none

/-- The step puts no credentials into the slot that disturb another call. -/
def Waits (c : RestClient υ) (input : RestInput υ) : Prop :=
  ∀ put ∈ c.puts input, ∀ m < c.calls.length, m ≠ put.1 →
    ∀ phase ∈ c.calls[m]?, phase.Bears put.2

instance (c : RestClient υ) (input : RestInput υ) : Decidable (c.Waits input) := by
  unfold Waits
  infer_instance

end RestClient

/-! ### The invariant of one call -/

/-- Everything another call put into the slot would be put back. -/
def Spared (h : List (RestNote υ)) (n : ℕ) (previous : Option Authentication) : Prop :=
  ∀ m a, inPlace h = some (m, a) → m ≠ n → previous = some a

/-- What a call relies on where it stands. -/
def RestPhase.Kept (h : List (RestNote υ)) (c : RestClient υ) (n : ℕ) : RestPhase υ → Prop
  | .installed own previous => (∀ a, c.auth = some a → a = own) ∧ Spared h n previous
  | .validating own previous sent => sent = own ∧ Spared h n previous
  | .restoring previous _ => Spared h n previous
  | .storing outcome => .issued n outcome.authentication outcome.me ∈ h
  | .leaving sent | .clearing sent _ => ∀ a, c.auth = some a → a = sent
  | _ => True

/-- What a step of call number `n` does to the slot: nothing, it empties it, or it puts
credentials into it that some phase bears. -/
def Slotted (c c' : RestClient υ) (o : List (RestNote υ)) (n : ℕ)
    (Allowed : Authentication → Prop) : Prop :=
  (c'.auth = c.auth ∧ ∀ held, placed held o = held) ∨
    (c'.auth = none ∧ ∀ held, placed held o = none) ∨
      ∃ a, Allowed a ∧ c'.auth = some a ∧ ∀ held, placed held o = some (n, a)

variable {c c' : RestClient υ} {phase phase' : RestPhase υ} {previous : Option Authentication}
  {input : RestInput υ} {Allowed : Authentication → Prop}

theorem Slotted.mono (hs : Slotted c c' o n Allowed) {Allowed' : Authentication → Prop}
    (hmono : ∀ a, Allowed a → Allowed' a) : Slotted c c' o n Allowed' := by
  rcases hs with hs | hs | ⟨a, ha, hs⟩
  · exact .inl hs
  · exact .inr (.inl hs)
  · exact .inr (.inr ⟨a, hmono a ha, hs⟩)

/-- What a slot holds at most, it holds at most after the step of a call that puts only that
into it. -/
theorem Slotted.auth (hs : Slotted c c' o n (· = a)) (ha : ∀ b, c.auth = some b → b = a) :
    ∀ b, c'.auth = some b → b = a := by
  intro b hb
  rcases hs with ⟨hauth, -⟩ | ⟨hauth, -⟩ | ⟨d, rfl, hauth, -⟩
  · exact ha b (hauth ▸ hb)
  · rw [hauth] at hb
    exact absurd hb (by simp)
  · rw [hauth] at hb
    exact (Option.some.inj hb).symm

theorem Spared.append (hsp : Spared h n previous) (ho : ∀ held, placed held o = held) :
    Spared (h ++ o) n previous := by
  intro m a hplace hm
  rw [inPlace_append, ho] at hplace
  exact hsp m a hplace hm

/-- What would be put back covers what a call puts into the slot that would be put back. -/
theorem Slotted.spared (hs : Slotted c c' o m fun a => previous = some a)
    (hsp : Spared h n previous) : Spared (h ++ o) n previous := by
  rcases hs with ⟨-, hs⟩ | ⟨-, hs⟩ | ⟨d, hprevious, -, hs⟩
  · exact hsp.append hs
  · intro k a hplace hk
    rw [inPlace_append, hs] at hplace
    exact absurd hplace (by simp)
  · intro k a hplace hk
    rw [inPlace_append, hs] at hplace
    obtain ⟨-, rfl⟩ := Prod.mk.inj (Option.some.inj hplace)
    exact hprevious

/-- **A call keeps what it relies on** in the steps of the others it bears. -/
theorem RestPhase.Kept.other (hk : phase.Kept h c m) (hs : Slotted c c' o n phase.Bears) :
    phase.Kept (h ++ o) c' m := by
  cases phase with
  | installed own previous =>
    refine ⟨(hs.mono fun a ha => ha.1).auth hk.1, (hs.mono fun a ha => ha.2).spared hk.2⟩
  | validating own previous sent => exact ⟨hk.1, Slotted.spared hs hk.2⟩
  | restoring previous error => exact Slotted.spared hs hk
  | storing outcome => exact List.mem_append_left o hk
  | leaving sent => exact Slotted.auth hs hk
  | clearing sent outcome => exact Slotted.auth hs hk
  | begun | loggingIn | asking | returned | dropped => trivial

/-! ### The steps of one call -/

/-- What a step of call number `n` leaves: one call that moved on and keeps what it relies on, a
slot it wrote only what is allowed, and notes of its own. -/
structure Turns (h : List (RestNote υ)) (c : RestClient υ) (n : ℕ)
    (Allowed : Authentication → Prop) (r : RestClient υ × List (RestNote υ)) : Prop where
  moved : ∃ phase', r.1.calls = c.calls.set n phase' ∧ phase'.Kept (h ++ r.2) r.1 n
  slotted : Slotted c r.1 r.2 n Allowed
  own : Each (fun pre note => OwnOnly (h ++ pre) note) r.2

/-- A step that does not write the slot. -/
theorem Turns.of_quiet (hk : phase'.Kept (h ++ o) (c.setPhase n phase') n)
    (ho : ∀ held, placed held o = held)
    (hown : Each (fun pre note => OwnOnly (h ++ pre) note) o) :
    Turns h c n Allowed (c.setPhase n phase', o) :=
  ⟨⟨phase', rfl, hk⟩, .inl ⟨rfl, ho⟩, hown⟩

namespace RestClient

/-- A call that returns without writing the slot. -/
theorem turns_finish {outcome : RestOutcome υ} (hown : OwnOnly h (.returned n outcome)) :
    Turns h c n Allowed (c.finish n outcome) := by
  refine .of_quiet trivial (fun held => rfl) ?_
  rw [each_singleton, List.append_nil]
  exact hown

theorem auth_of_request {segments : List String} (hr : c.request segments = .ok a) :
    c.auth = some a := by
  unfold request at hr
  cases he : c.endpoint segments with
  | error error =>
    rw [he] at hr
    exact absurd hr (by simp [bind, Except.bind])
  | ok u =>
    rw [he] at hr
    replace hr : c.authenticatedRequest = .ok a := hr
    unfold authenticatedRequest at hr
    split at hr
    · exact absurd hr (by simp)
    · rename_i auth hauth
      split_ifs at hr
      rw [hauth, Except.ok.inj hr]

/-- A request is sent with what is in the slot. -/
theorem turns_send {segments : List String} {sent : Authentication → RestPhase υ}
    {failed : RestError → RestClient υ × List (RestNote υ)}
    (hsent : ∀ a, c.auth = some a →
      (sent a).Kept (h ++ [.sent n a]) (c.setPhase n (sent a)) n)
    (hfailed : ∀ error, Turns h c n Allowed (failed error)) :
    Turns h c n Allowed (c.send n segments sent failed) := by
  unfold send
  split
  · rename_i a hr
    refine .of_quiet (hsent a (auth_of_request hr)) (fun held => rfl) ?_
    exact each_singleton.2 trivial
  · exact hfailed _

/-- The first step of a call. -/
theorem turns_start (call : RestCall) :
    Turns h c n (fun a => (RestPhase.begun call : RestPhase υ).puts = some a) (c.start n call) := by
  cases call with
  | login credentials =>
    cases credentials with
    -- A token is put in place at once.
    | personalAccessToken userId token =>
      refine ⟨⟨_, rfl, ?_, ?_⟩, .inr (.inr ⟨_, rfl, rfl, fun held => rfl⟩), ?_⟩
      · exact fun a ha => (Option.some.inj ha).symm
      · intro m a hplace hm
        rw [inPlace_append] at hplace
        exact absurd (Prod.mk.inj (Option.some.inj hplace)).1.symm hm
      · exact each_singleton.2 trivial
    | password user password =>
      -- A password is sent to the server first, if the request can be made.
      simp only [start]
      split
      · exact .of_quiet trivial (fun held => rfl) each_nil
      · exact turns_finish trivial
  | logout =>
    refine turns_send (fun a ha b hb => ?_) fun error => turns_finish trivial
    exact Option.some.inj (hb.symm.trans ha)
  | me => exact turns_send (fun a ha => trivial) fun error => turns_finish trivial
  | setAuthentication authentication =>
    refine ⟨⟨_, rfl, trivial⟩, ?_, ?_⟩
    · cases authentication with
      | none => exact .inr (.inl ⟨rfl, fun held => rfl⟩)
      | some a => exact .inr (.inr ⟨a, rfl, rfl, fun held => rfl⟩)
    · refine each_cons.2 ⟨?_, each_singleton.2 trivial⟩
      cases authentication <;> trivial

/-- The next step of a call that does not wait for the server. -/
theorem turns_advance {r : RestClient υ × List (RestNote υ)} (hk : phase.Kept h c n)
    (hr : c.advance n phase = some r) : Turns h c n (fun a => phase.puts = some a) r := by
  cases phase with
  | begun call =>
    obtain rfl := Option.some.inj hr
    exact turns_start call
  | installed own previous =>
    obtain rfl := Option.some.inj hr
    -- The slot still holds what the call put there, so that is what is sent.
    refine turns_send (fun a ha => ⟨hk.1 a ha, ?_⟩) fun error => ?_
    · exact hk.2.append fun held => rfl
    · exact .of_quiet (by rw [List.append_nil]; exact hk.2) (fun held => rfl) each_nil
  | restoring previous error =>
    obtain rfl := Option.some.inj hr
    refine ⟨⟨_, rfl, trivial⟩, ?_, ?_⟩
    · -- Before the login the slot was empty, or held other credentials.
      cases previous with
      | none => exact .inr (.inl ⟨rfl, fun held => rfl⟩)
      | some a => exact .inr (.inr ⟨a, rfl, rfl, fun held => rfl⟩)
    · refine each_cons.2 ⟨?_, each_singleton.2 trivial⟩
      rw [List.append_nil]
      exact hk
  | storing outcome =>
    obtain rfl := Option.some.inj hr
    refine ⟨⟨_, rfl, trivial⟩, .inr (.inr ⟨_, rfl, rfl, fun held => rfl⟩), ?_⟩
    refine each_cons.2 ⟨trivial, each_singleton.2 (.inr ?_)⟩
    exact List.mem_append_left _ hk
  -- The logout was answered, and clears the slot.
  | clearing sent outcome =>
    obtain rfl := Option.some.inj hr
    refine ⟨⟨_, rfl, trivial⟩, .inr (.inl ⟨rfl, fun held => rfl⟩), ?_⟩
    exact each_cons.2 ⟨hk, each_singleton.2 trivial⟩
  | validating | loggingIn | leaving | asking | returned | dropped => cases hr

/-- The server answers a `me`. -/
theorem turns_receiveMe {r : RestClient υ × List (RestNote υ)} {answer : Except RestError υ}
    (hk : phase.Kept h c n) (hr : c.receiveMe n answer phase = some r) :
    Turns h c n (fun _ => False) r := by
  cases phase with
  | validating own previous sent =>
    obtain ⟨rfl, hsp⟩ := hk
    cases answer with
    -- The credentials were accepted, and stay.
    | ok me =>
      obtain rfl := Option.some.inj hr
      refine .of_quiet trivial (fun held => rfl) ?_
      exact each_cons.2 ⟨trivial, each_singleton.2 (.inl (by simp))⟩
    -- They were refused, and the call is about to restore the slot.
    | error error =>
      obtain rfl := Option.some.inj hr
      exact .of_quiet (by rw [List.append_nil]; exact hsp) (fun held => rfl) each_nil
  | asking sent =>
    cases answer with
    | ok me =>
      obtain rfl := Option.some.inj hr
      refine .of_quiet trivial (fun held => rfl) ?_
      exact each_cons.2 ⟨trivial, each_singleton.2 trivial⟩
    | error error =>
      obtain rfl := Option.some.inj hr
      exact turns_finish trivial
  | begun | installed | restoring | loggingIn | storing | leaving | clearing | returned
  | dropped => cases hr

/-- The server answers a login with a password. -/
theorem turns_receiveLogin {r : RestClient υ × List (RestNote υ)}
    {answer : Except RestError (LoginOutcome υ)} (hr : c.receiveLogin n answer phase = some r) :
    Turns h c n (fun _ => False) r := by
  cases phase with
  | loggingIn =>
    cases answer with
    | ok outcome =>
      obtain rfl := Option.some.inj hr
      refine .of_quiet ?_ (fun held => rfl) (each_singleton.2 trivial)
      exact List.mem_append_right h (List.mem_singleton.2 rfl)
    | error error =>
      obtain rfl := Option.some.inj hr
      exact turns_finish trivial
  | begun | installed | validating | restoring | storing | leaving | clearing | asking | returned
  | dropped => cases hr

/-- The server answers a logout. -/
theorem turns_receiveLogout {r : RestClient υ × List (RestNote υ)} {answer : Except RestError Unit}
    (hk : phase.Kept h c n) (hr : c.receiveLogout n answer phase = some r) :
    Turns h c n (fun _ => False) r := by
  cases phase with
  | leaving sent =>
    cases answer with
    | ok u =>
      obtain rfl := Option.some.inj hr
      exact .of_quiet hk (fun held => rfl) each_nil
    | error error =>
      simp only [receiveLogout] at hr
      split_ifs at hr
      · obtain rfl := Option.some.inj hr
        exact .of_quiet hk (fun held => rfl) each_nil
      · obtain rfl := Option.some.inj hr
        exact turns_finish trivial
  | begun | installed | validating | restoring | loggingIn | storing | clearing | asking | returned
  | dropped => cases hr

/-! ### Runs -/

/-- Every call keeps what it relies on, and what was noted is its own. -/
structure Sound (h : List (RestNote υ)) (c : RestClient υ) : Prop where
  calls : ∀ n (phase : RestPhase υ), c.calls[n]? = some phase → phase.Kept h c n
  own : Each OwnOnly h

/-- The step of one call, the others bearing what it puts into the slot. -/
theorem Sound.turns (hs : Sound h c) (ht : Turns h c n Allowed (c', o))
    (hbear : ∀ a, Allowed a → ∀ m phase, m ≠ n → c.calls[m]? = some phase → phase.Bears a) :
    Sound (h ++ o) c' := by
  obtain ⟨phase', hcalls, hkept⟩ := ht.moved
  refine ⟨fun m phase hm => ?_, each_append.2 ⟨hs.own, ht.own⟩⟩
  rw [show c'.calls = c.calls.set n phase' from hcalls] at hm
  rcases getElem?_of_set hm with ⟨rfl, rfl⟩ | ⟨hmn, hm⟩
  · exact hkept
  · exact (hs.calls m phase hm).other (ht.slotted.mono fun a ha => hbear a ha m phase hmn hm)

/-- **One step** that waits. -/
theorem Sound.step (hs : Sound h c) (hw : c.Waits input) (hstep : c.step input = some (c', o)) :
    Sound (h ++ o) c' := by
  cases input with
  | call call =>
    obtain ⟨rfl, rfl⟩ := Prod.mk.inj (Option.some.inj hstep)
    refine ⟨fun n phase hn => ?_, each_append.2 ⟨hs.own, each_singleton.2 trivial⟩⟩
    -- The new call has done nothing yet.
    rcases getElem?_of_concat hn with ⟨-, rfl⟩ | hn
    · trivial
    · exact (hs.calls n phase hn).other (n := n) (.inl ⟨rfl, fun held => rfl⟩)
  | go n =>
    obtain ⟨phase, hn, hr⟩ := Option.bind_eq_some_iff.1 hstep
    -- The credentials it puts disturb no other call, for the step waits.
    refine hs.turns (turns_advance (hs.calls n phase hn) hr) fun a ha m phase' hm hget => ?_
    refine hw (n, a) ?_ m (List.getElem?_eq_some_iff.1 hget).1 hm phase' hget
    simp [puts, hn, ha]
  | answerMe n answer =>
    obtain ⟨phase, hn, hr⟩ := Option.bind_eq_some_iff.1 hstep
    exact hs.turns (turns_receiveMe (hs.calls n phase hn) hr) fun _ => False.elim
  | answerLogin n answer =>
    obtain ⟨phase, hn, hr⟩ := Option.bind_eq_some_iff.1 hstep
    exact hs.turns (turns_receiveLogin hr) fun _ => False.elim
  | answerLogout n answer =>
    obtain ⟨phase, hn, hr⟩ := Option.bind_eq_some_iff.1 hstep
    exact hs.turns (turns_receiveLogout (hs.calls n phase hn) hr) fun _ => False.elim
  | drop n =>
    obtain ⟨phase, hn, hr⟩ := Option.bind_eq_some_iff.1 hstep
    split_ifs at hr
    obtain ⟨rfl, rfl⟩ := Prod.mk.inj (Option.some.inj hr)
    -- A call that is dropped leaves the slot as it is.
    have ht : Turns h c n (fun _ => False) (c.setPhase n .dropped, []) :=
      .of_quiet trivial (fun held => rfl) each_nil
    exact hs.turns ht fun _ => False.elim

end RestClient

/-- **Calls touch only their own credentials** in every run whose steps put none in the way of
a login that was installed and has not returned, or of a logout that was sent. -/
theorem own_credentials {http : Http} {auth : Option Authentication}
    (hrun : Run (restrict RestClient.Waits RestClient.step) (RestClient.init http auth) h c) :
    Each OwnOnly h := by
  refine (hrun.invariant (I := RestClient.Sound) ⟨fun n phase hn => ?_, each_nil⟩ ?_).own
  · simp [RestClient.init] at hn
  · intro h c input c' o hs hstep
    obtain ⟨hw, hstep⟩ := restrict_eq_some.1 hstep
    exact hs.step hw hstep

/-! ### Concrete runs -/

/-- An HTTP library that takes every string as a header. -/
def lenientHttp : Http := ⟨true, fun _ => true⟩

/-- The pair of a user whose token is the name spelled out. -/
def tokenOf (name : String) : Authentication := ⟨⟨name⟩, ⟨name⟩⟩

/-- The call that installs and validates it. -/
def patLogin (name : String) : RestCall := .login (.personalAccessToken ⟨name⟩ ⟨name⟩)

/-- The server does not know the token. -/
def rejected : RestError := .api ⟨401, none, none⟩

/-- A login that fails, another with a password, and a logout, one after the other. -/
def apart : List (RestInput String) :=
  [.call (patLogin "alice"), .call (.login (.password "bob" "secret")), .call .logout,
    .go 0, .go 0, .answerMe 0 (.error rejected), .go 0,
    .go 1, .answerLogin 1 (.ok ⟨tokenOf "bob", "bob"⟩), .go 1,
    .go 2, .answerLogout 2 (.ok ()), .go 2]

theorem own_credentials_apart :
    ∃ (h : List (RestNote String)) (c : RestClient String),
      Run (restrict RestClient.Waits RestClient.step)
        (RestClient.init lenientHttp (some (tokenOf "carol"))) h c ∧
      .restored 0 (some (tokenOf "alice")) (some (tokenOf "carol")) ∈ h ∧
      .cleared 2 (tokenOf "bob") (some (tokenOf "bob")) ∈ h ∧ Each OwnOnly h := by
  have hrun : Run (restrict RestClient.Waits RestClient.step)
      (RestClient.init lenientHttp (some (tokenOf "carol"))) _ _ :=
    run_execute apart (by decide +kernel)
  refine ⟨_, _, hrun, ?_, ?_, own_credentials hrun⟩
  · exact List.mem_of_getElem? (i := 5) rfl
  · exact List.mem_of_getElem? (i := 11) rfl

/-- Two logins overlap, `set_authentication` is called during a login that fails, and again
during a logout. -/
def overlapping : List (RestInput String) :=
  [.call (patLogin "alice"), .call (patLogin "bob"), .go 0, .go 1, .go 0,
    .answerMe 0 (.ok "bob"), .go 1, .answerMe 1 (.ok "bob"),
    .call (patLogin "alice"), .go 2, .go 2, .call (.setAuthentication (some (tokenOf "carol"))),
    .go 3, .answerMe 2 (.error rejected), .go 2,
    .call .logout, .go 4, .call (.setAuthentication (some (tokenOf "carol"))), .go 5,
    .answerLogout 4 (.ok ()), .go 4]

/-- What that run shows. -/
def overlapped : List (RestNote String) :=
  ((execute RestClient.step (RestClient.init lenientHttp none) overlapping).map (·.2)).getD []

/-- **They do not touch only their own** when they overlap: the first login returns the user of
the second, the third displaces what was set meanwhile, and the logout clears it. -/
theorem own_credentials_fails :
    ∃ (h : List (RestNote String)) (c : RestClient String),
      Run RestClient.step (RestClient.init lenientHttp none) h c ∧
      (∃ pre post, h = pre ++ .returned 0 (.login (.ok ⟨tokenOf "alice", "bob"⟩)) :: post ∧
        ¬ OwnOnly pre (.returned 0 (.login (.ok ⟨tokenOf "alice", "bob"⟩)))) ∧
      (∃ pre post, h = pre ++ .restored 2 (some (tokenOf "carol")) (some (tokenOf "bob")) :: post ∧
        ¬ OwnOnly pre (.restored 2 (some (tokenOf "carol")) (some (tokenOf "bob")))) ∧
      ∃ pre post, h = pre ++ .cleared 4 (tokenOf "bob") (some (tokenOf "carol")) :: post ∧
        ¬ OwnOnly pre (.cleared 4 (tokenOf "bob") (some (tokenOf "carol"))) := by
  have hrun : Run RestClient.step (RestClient.init lenientHttp none) _ _ :=
    run_execute overlapping (by decide +kernel)
  refine ⟨overlapped, _, hrun, ?_, ?_, ?_⟩
  · refine ⟨[.called 0 (patLogin "alice"), .called 1 (patLogin "bob"),
      .installed 0 (tokenOf "alice"), .installed 1 (tokenOf "bob"), .sent 0 (tokenOf "bob"),
      .reported 0 (tokenOf "bob") "bob"], _, rfl, ?_⟩
    simp [OwnOnly, tokenOf]
  · refine ⟨overlapped.take 16, overlapped.drop 17, rfl, fun hown => ?_⟩
    have := hown 3 (tokenOf "carol") rfl (by decide)
    revert this
    decide
  · refine ⟨overlapped.take 23, overlapped.drop 24, rfl, fun hown => ?_⟩
    exact absurd (hown (tokenOf "carol") rfl) (by decide)

end RocketSocket
