import RocketSocket.Framework.Grants
import RocketSocket.Rest.Answer

/-!
# Room authority

What a response of `rooms.roles` grants.  An entry of it carries its own room id, its user and
its roles; the directory keeps the users of the entries with a wanted role under the room it
asked for.  So an entry about another room grants there too: a room authority rests on an entry
about the room just if the response has one whenever it has any entry that names the user.

## Main definitions

* `RoomRoleHolder`, `RoomRolesEnvelope` — the body of a response, and how it is read.
* `Response.roomRoles` — what the REST client makes of a response.
* `Response.Names`, `Response.NamesIn` — a response names a user, in any room or in one.
* `AnswersWith` — the lookups of a room are answered with one response.

## Main results

* `fetched_of_run` — what the run shows as fetched for the room is what the response holds.
* `granted_of_names` — who is named in any room is granted.
* `room_authority_iff` — when every grant in a room rests on an entry about that room.
-/

namespace RocketSocket

open Machine

/-! ### The body of a response -/

/-- The user of an entry. -/
structure RoomRoleUser where
  id : UserId
  username : Option String
  name : Option String
  deriving DecidableEq, Repr

/-- The roles of one user within a room. -/
structure RoomRoleHolder where
  rid : RoomId
  u : RoomRoleUser
  roles : List RoleId
  deriving DecidableEq, Repr

/-- The body of a response of `rooms.roles`. -/
structure RoomRolesEnvelope where
  success : Bool
  roles : List RoomRoleHolder
  deriving DecidableEq, Repr

/-- Reads the holder of a role. -/
def RoomRoleUser.ofValue (value : Value) : Option RoomRoleUser := do
  let field ← structFields ["_id", "username", "name"] value
  let id ← requireMember Value.asStr (field "_id")
  let username ← optionalMember Value.asStr (field "username")
  let name ← optionalMember Value.asStr (field "name")
  return { id := ⟨id⟩, username := username, name := name }

/-- Reads an entry of `rooms.roles`. -/
def RoomRoleHolder.ofValue (value : Value) : Option RoomRoleHolder := do
  let field ← structFields ["rid", "u", "roles"] value
  let rid ← requireMember Value.asStr (field "rid")
  let u ← requireMember RoomRoleUser.ofValue (field "u")
  let roles ← defaultMember Value.asStrings [] (field "roles")
  return { rid := ⟨rid⟩, u := u, roles := roles.map RoleId.mk }

/-- Reads the body of a response of `rooms.roles`. -/
def RoomRolesEnvelope.ofValue (value : Value) : Option RoomRolesEnvelope := do
  let field ← structFields ["success", "roles"] value
  let success ← defaultMember Value.asBool false (field "success")
  let roles ← defaultMember (Value.asListOf RoomRoleHolder.ofValue) [] (field "roles")
  return { success := success, roles := roles }

/-! ### What the REST client makes of it -/

/-- A response: its status, and its body if that is JSON. -/
structure Response where
  status : ℕ
  body : Option Value

/-- Why a response is no answer: the cases of `RestError` that one can be turned into. -/
inductive ResponseError where
  /-- The server reported a failure. -/
  | api (status : ℕ)
  | decode (status : ℕ)
  | missingSuccess (endpoint : String)
  deriving DecidableEq, Repr

namespace Response

/-- A response turned into what it should hold; the status is looked at before the body. -/
def decode {α : Type} (read : Value → Option α) (response : Response) : Except ResponseError α :=
  if ¬(200 ≤ response.status ∧ response.status < 300) then .error (.api response.status)
  else match response.body.bind read with
    | some value => .ok value
    | none =>
      if isFailureEnvelope response.body then .error (.api response.status)
      else .error (.decode response.status)

/-- The entries of a response of `rooms.roles`. -/
def roomRoles (response : Response) : Except ResponseError (List RoomRoleHolder) :=
  (response.decode RoomRolesEnvelope.ofValue).bind fun envelope =>
    if envelope.success then .ok envelope.roles else .error (.missingSuccess "rooms.roles")

end Response

/-- What the directory reads of an entry: the room is not part of it. -/
def RoomRoleHolder.holder (entry : RoomRoleHolder) : RoleHolder :=
  { id := entry.u.id, roles := entry.roles }

/-- The entry gives the user a role that a room authority needs. -/
def RoomRoleHolder.Names (entry : RoomRoleHolder) (user : UserId) : Prop :=
  entry.u.id = user ∧ ∃ role ∈ entry.roles, role.text ∈ roomAdminRoles

namespace Response

/-- The response confirms success, and an entry of it names the user. -/
def Names (response : Response) (user : UserId) : Prop :=
  ∃ envelope, response.decode RoomRolesEnvelope.ofValue = .ok envelope ∧
    envelope.success = true ∧ ∃ entry ∈ envelope.roles, entry.Names user

/-- The response confirms success, and an entry of it about the room names the user. -/
def NamesIn (response : Response) (room : RoomId) (user : UserId) : Prop :=
  ∃ envelope, response.decode RoomRolesEnvelope.ofValue = .ok envelope ∧
    envelope.success = true ∧ ∃ entry ∈ envelope.roles, entry.rid = room ∧ entry.Names user

variable {response : Response} {user : UserId} {entries : List RoomRoleHolder}

/-- A response has entries only if it confirms success. -/
theorem roomRoles_eq_ok : response.roomRoles = .ok entries ↔ ∃ envelope,
    response.decode RoomRolesEnvelope.ofValue = .ok envelope ∧ envelope.success = true ∧
      envelope.roles = entries := by
  unfold roomRoles
  cases response.decode RoomRolesEnvelope.ofValue with
  | error e => simp [Except.bind]
  | ok envelope =>
    cases hsuccess : envelope.success with
    | false => simp [Except.bind, hsuccess]
    | true => simp [Except.bind, hsuccess]

/-- A response names whom its entries list, whatever room they are about. -/
theorem names_iff (room : RoomId) (hentries : response.roomRoles = .ok entries) :
    response.Names user ↔ (Lookup.room room).Lists (entries.map RoomRoleHolder.holder) user := by
  obtain ⟨envelope, hdecode, hsuccess, rfl⟩ := roomRoles_eq_ok.1 hentries
  constructor
  · rintro ⟨envelope', hdecode', -, entry, hentry, hid, hrole⟩
    obtain rfl : envelope = envelope' := Except.ok.inj (hdecode.symm.trans hdecode')
    exact ⟨entry.holder, List.mem_map_of_mem hentry, hid, hrole⟩
  · rintro ⟨holder, hholder, hid, hrole⟩
    obtain ⟨entry, hentry, rfl⟩ := List.mem_map.1 hholder
    exact ⟨envelope, hdecode, hsuccess, entry, hentry, hid, hrole⟩

end Response

/-! ### Runs that are answered with one response -/

namespace RoleDirectory

/-- A successful answer of a lookup of the room is the one that the response holds. -/
def AnswersWith (room : RoomId) (response : Response) (d : RoleDirectory) : RoleInput → Prop
  | .answer n (.ok holders) =>
    (d.checkAt n).map (fun at_ => at_.2.1) = some (.room room) →
      response.roomRoles.toOption.map (·.map RoomRoleHolder.holder) = some holders
  | _ => True

instance {room : RoomId} {response : Response} {d : RoleDirectory} :
    ∀ input, Decidable (AnswersWith room response d input)
  | .answer _ (.ok _) => inferInstanceAs (Decidable (_ → _))
  | .answer _ (.error _) => .isTrue trivial
  | .ask _ | .obtain .. | .lock _ | .expire _ | .cancel _ | .invalidate _ | .drop _ | .tick _ =>
    .isTrue trivial

/-- The steps of a directory whose server answers the lookups of the room with the response. -/
def stepWith (room : RoomId) (response : Response) :
    RoleDirectory → RoleInput → Option (RoleDirectory × List RoleNote) :=
  restrict (AnswersWith room response) step

variable {config : RoleCacheConfig} {h notes : List RoleNote} {d d' : RoleDirectory}
  {n f : ℕ} {user : UserId} {room : RoomId} {response : Response} {t : Instant}

/-- What is shown as fetched is the answer the step was made with. -/
theorem answer_of_fetched {input : RoleInput} {lookup : Lookup} {started : Instant}
    {holders : List RoleHolder} (hmove : Moves d input d' notes)
    (hmem : .fetched f lookup started holders ∈ notes) :
    ∃ n check rest, input = .answer n (.ok holders) ∧
      d.checkAt n = some (check, lookup, rest) := by
  -- The end of a check shows what was answered, and no fetch.
  have hconclude : ∀ {d : RoleDirectory} {n check l rest entry},
      RoleNote.fetched f lookup started holders ∉ (d.conclude n check l rest entry).2 := by
    intro d n check l rest entry hmem
    rcases conclude_notes d n check l rest entry with heq | heq
    · rw [heq] at hmem
      simp at hmem
    · rw [heq] at hmem
      simp at hmem
  cases hmove with
  | ask question =>
    rcases ask_notes d question with heq | ⟨-, heq⟩
    · rw [heq] at hmem
      simp at hmem
    · rw [heq] at hmem
      simp at hmem
  | obtain => simp at hmem
  | cached => exact absurd hmem hconclude
  | start => simp at hmem
  | @answer n i f' check l rest slot started' answer hcheck hlookups =>
    -- The note is the fetch itself, if it succeeded, or one of the end of the check.
    rcases List.mem_cons.1 hmem with hnote | hmem
    · cases answer with
      | error reason => cases hnote
      | ok holders' =>
        cases hnote
        exact ⟨n, check, rest, rfl, checkAt_eq_some.2 ⟨hcheck, hlookups⟩⟩
    · exact absurd hmem hconclude
  | expire =>
    rcases List.mem_cons.1 hmem with hnote | hmem
    · cases hnote
    · exact absurd hmem hconclude
  | cancel => simp at hmem
  | invalidate => simp at hmem
  | drop => simp at hmem
  | tick => simp at hmem

/-- **What a run shows as fetched for the room** is what the response holds. -/
theorem fetched_of_run (hrun : Run (stepWith room response) (init config) h d) :
    ∀ f started holders, .fetched f (.room room) started holders ∈ h →
      ∃ entries, response.roomRoles = .ok entries ∧
        holders = entries.map RoomRoleHolder.holder := by
  refine hrun.invariant (I := fun h _ => ∀ f started holders,
    .fetched f (.room room) started holders ∈ h → ∃ entries, response.roomRoles = .ok entries ∧
      holders = entries.map RoomRoleHolder.holder) (fun f started holders hmem => by
        simp at hmem) ?_
  intro h d input d' notes ih hstep f started holders hmem
  obtain ⟨hanswers, hstep⟩ := restrict_eq_some.1 hstep
  rcases List.mem_append.1 hmem with hmem | hmem
  · exact ih f started holders hmem
  · obtain ⟨n, check, rest, rfl, hcheck⟩ := answer_of_fetched (moves_of_step hstep) hmem
    have hholders := hanswers (by rw [hcheck]; rfl)
    cases hentries : response.roomRoles with
    | error e =>
      rw [hentries] at hholders
      cases hholders
    | ok entries =>
      rw [hentries] at hholders
      exact ⟨entries, rfl, (Option.some.inj hholders).symm⟩

/-- Who is granted in a room is named by the response. -/
theorem names_of_granted (hrun : Run (stepWith room response) (init config) h d)
    (hmem : .returned n (.isRoomAdmin user room) true t ∈ h) : response.Names user := by
  have hplain : Run step (init config) h d := hrun.of_restrict
  have heach := justified_of_run hplain
  obtain ⟨pre, post, rfl⟩ := List.append_of_mem hmem
  obtain ⟨lookup, hlookup, entry, hanswered, hgrants⟩ := heach pre _ post rfl rfl
  obtain rfl : lookup = .room room := List.mem_singleton.1 hlookup
  obtain ⟨f, m, started, holders, -, hfetched, hlists, -⟩ :=
    listedAt_of_grants heach.of_append hanswered hgrants
  obtain ⟨entries, hentries, rfl⟩ := fetched_of_run hrun f started holders
    (List.mem_append_left _ hfetched)
  exact (Response.names_iff room hentries).2 hlists

/-! ### The first check of a room -/

/-- The directory in the first check of a room, with the check at a phase. -/
def inFirstCheck (config : RoleCacheConfig) (user : UserId) (room : RoomId) (phase : CheckPhase)
    (locked : Bool) (fetches : ℕ) : RoleDirectory :=
  { init config with
    slots := [{ lookup := .global }, { lookup := .room room, locked := locked }]
    rooms := (∅ : Table RoomId RoomSlot).insert room { slot := 1, touched := 0 }
    checks := [{ question := .isRoomAdmin user room, lookups := [.room room], phase := phase }]
    fetches := fetches }

/-- The first check of a room obtains a new slot. -/
theorem slotFor_first (config : RoleCacheConfig) (user : UserId) (room : RoomId) :
    ((init config).ask (.isRoomAdmin user room)).1.slotFor 0 [] (.room room) =
      some (1, inFirstCheck config user room .starting false 0) := by
  have hevict : evict config.maxRooms ∅ [] = some ∅ := by
    refine if_neg ?_
    rintro ⟨hpos, hfull⟩
    exact absurd (hpos.trans_le hfull) (lt_irrefl 0)
  show (evict config.maxRooms ∅ []).map _ = _
  rw [hevict]
  rfl

/-- An entry that grants settles its call. -/
theorem returned_conclude (check : Check) {lookup : Lookup} {rest : List Lookup}
    {entry : RoleEntry} (hgrants : entry.grants check.question.user = true) :
    .returned n check.question true d.now ∈ (d.conclude n check lookup rest entry).2 := by
  unfold conclude
  rw [hgrants]
  exact List.mem_cons_of_mem _ List.mem_cons_self

/-- The first check of a room gets to its fetch. -/
theorem run_firstCheck (config : RoleCacheConfig) (user : UserId) (room : RoomId)
    (response : Response) : ∃ h, Run (stepWith room response) (init config) h
      (inFirstCheck config user room (.fetching 1 0 0) true 1) := by
  have hask : stepWith room response (init config) (.ask (.isRoomAdmin user room)) =
      some ((init config).ask (.isRoomAdmin user room)) := rfl
  have hobtain : stepWith room response ((init config).ask (.isRoomAdmin user room)).1
      (.obtain 0 0 []) = some (inFirstCheck config user room (.queued 1) false 0,
        [.obtained 0 (.room room) 1]) := by
    refine restrict_eq_some.2 ⟨trivial, ?_⟩
    show ((slotFor _ 0 [] (.room room)).bind _) = _
    rw [slotFor_first]
    rfl
  have hlock : stepWith room response (inFirstCheck config user room (.queued 1) false 0)
      (.lock 0) = some (inFirstCheck config user room (.fetching 1 0 0) true 1,
        [.started 0 0 (.room room) 0]) := rfl
  exact ⟨_, ((Run.start.step hask).step hobtain).step hlock⟩

/-- **Who is named in any room is granted**: the first check of the room passes. -/
theorem granted_of_names (config : RoleCacheConfig) (user : UserId) (room : RoomId)
    (hnames : response.Names user) :
    ∃ h d, Run (stepWith room response) (init config) h d ∧
      .returned 0 (.isRoomAdmin user room) true 0 ∈ h := by
  obtain ⟨envelope, hdecode, hsuccess, -⟩ := id hnames
  have hentries := Response.roomRoles_eq_ok.2 ⟨envelope, hdecode, hsuccess, rfl⟩
  have hlists := (Response.names_iff room hentries).1 hnames
  obtain ⟨h, hrun⟩ := run_firstCheck config user room response
  let holders := envelope.roles.map RoomRoleHolder.holder
  have hgrants : RoleEntry.grants
      { holders := (fetch (.room room) (.ok holders)).toOption, fetchedAt := 0, fetch := 0 }
      user = true :=
    decide_eq_true ((mem_fetch rfl user).2 hlists)
  let check : Check :=
    { question := .isRoomAdmin user room, lookups := [.room room], phase := .fetching 1 0 0 }
  have hanswer : stepWith room response
      (inFirstCheck config user room (.fetching 1 0 0) true 1) (.answer 0 (.ok holders)) =
      some (receive (inFirstCheck config user room (.fetching 1 0 0) true 1) 0 check
        (.room room) [] 1 { lookup := .room room, locked := true } 0 0 (.ok holders)) := by
    refine restrict_eq_some.2 ⟨fun _ => ?_, rfl⟩
    rw [hentries]
    rfl
  refine ⟨_, _, hrun.step hanswer, List.mem_append_right _ (List.mem_cons_of_mem _ ?_)⟩
  exact returned_conclude check hgrants

/-- **When every grant in a room rests on an entry about that room**: just if the response has
an entry about the room that names the user, whenever it has any that does. -/
theorem room_authority_iff (config : RoleCacheConfig) (user : UserId) (room : RoomId)
    (response : Response) :
    (∀ h d, Run (stepWith room response) (init config) h d →
      ∀ n t, .returned n (.isRoomAdmin user room) true t ∈ h → response.NamesIn room user) ↔
    (response.Names user → response.NamesIn room user) := by
  constructor
  · intro hruns hnames
    obtain ⟨h, d, hrun, hmem⟩ := granted_of_names config user room hnames
    exact hruns h d hrun 0 0 hmem
  · intro hnames h d hrun n t hmem
    exact hnames (names_of_granted hrun hmem)

/-! ### A response about another room -/

/-- An owner of `GENERAL`. -/
def owner : RoomRoleHolder :=
  { rid := ⟨"GENERAL"⟩, u := { id := ⟨"alice"⟩, username := none, name := none }
    roles := [⟨"owner"⟩] }

/-- A response whose only entry is that of the owner of `GENERAL`. -/
def ownerResponse : Response :=
  { status := 200
    body := some (.object [("success", .bool true), ("roles", .array [.object [
      ("rid", .string "GENERAL"), ("u", .object [("_id", .string "alice")]),
      ("roles", .array [.string "owner"])]])]) }

theorem decode_ownerResponse : ownerResponse.decode RoomRolesEnvelope.ofValue =
    .ok { success := true, roles := [owner] } := rfl

/-- The owner of `GENERAL` is granted in the room `other`, if that is what the server says. -/
theorem not_room_authority :
    ¬∀ h d, Run (stepWith ⟨"other"⟩ ownerResponse) (init {}) h d →
      ∀ n t, .returned n (.isRoomAdmin ⟨"alice"⟩ ⟨"other"⟩) true t ∈ h →
        ownerResponse.NamesIn ⟨"other"⟩ ⟨"alice"⟩ := by
  intro hruns
  obtain ⟨h, d, hrun, hmem⟩ := granted_of_names {} ⟨"alice"⟩ ⟨"other"⟩
    ⟨_, decode_ownerResponse, rfl, owner, List.mem_singleton_self _, rfl, ⟨"owner"⟩,
      List.mem_singleton_self _, by decide⟩
  obtain ⟨envelope, hdecode, -, entry, hentry, hrid, -⟩ := hruns h d hrun 0 0 hmem
  obtain rfl := Except.ok.inj (decode_ownerResponse.symm.trans hdecode)
  obtain rfl := List.mem_singleton.1 hentry
  exact absurd hrid (by decide)

end RoleDirectory

end RocketSocket
