import RocketSocket.Framework.RoleRun

/-!
# Role checks fail closed

A check passes only on the word of the server: some lookup the requirement needs was fetched
and answered, the answer lists the author with an accepted role, and it is not too old.  A
lookup that fails, or is timed out, passes nobody.

## Main definitions

* `ListedAt` — a fetch lists a user, and is not too old.

## Main results

* `mem_fetch` — whom a successful fetch reports.
* `granted_of_fetched` — what every check that passes rests on.
-/

namespace RocketSocket

open Machine

/-- The user is listed with a role the lookup is about. -/
def Lookup.Lists (lookup : Lookup) (holders : List RoleHolder) (user : UserId) : Prop :=
  ∃ holder ∈ holders, holder.id = user ∧ ∃ role ∈ holder.roles, role.text ∈ lookup.wanted

/-- **A successful fetch reports exactly the users listed with a wanted role.** -/
theorem mem_fetch {lookup : Lookup} {holders : List RoleHolder} {users : Finset UserId}
    (h : fetch lookup (.ok holders) = .ok users) (user : UserId) :
    user ∈ users ↔ lookup.Lists holders user := by
  obtain rfl := Except.ok.inj h
  simp only [List.mem_toFinset, List.mem_map, List.mem_filter, holds, List.any_eq_true,
    List.contains_iff_mem, Lookup.Lists]
  constructor
  · rintro ⟨holder, ⟨hmem, hrole⟩, rfl⟩
    exact ⟨holder, hmem, rfl, hrole⟩
  · rintro ⟨holder, hmem, rfl, hrole⟩
    exact ⟨holder, ⟨hmem, hrole⟩, rfl⟩

namespace RoleDirectory

variable {config : RoleCacheConfig} {h pre post : List RoleNote} {d : RoleDirectory}
  {n : ℕ} {author : UserId} {room : RoomId} {authority : Authority} {granted : Bool} {t : Instant}

/-- The run shows a fetch for `lookup` that was started at most so long before `t` and was
answered with a list that has the user. -/
def ListedAt (config : RoleCacheConfig) (pre : List RoleNote) (lookup : Lookup) (user : UserId)
    (t : Instant) : Prop :=
  ∃ f m started holders, .started f m lookup started ∈ pre ∧
    .fetched f lookup started holders ∈ pre ∧ lookup.Lists holders user ∧
      t ≤ started + max config.ttl config.timeout

/-- A lookup that grants rests on a fetch that lists the user. -/
theorem listedAt_of_grants {lookup : Lookup} {entry : RoleEntry} {user : UserId}
    (heach : Each (Justified config) pre) (hmem : .answered n lookup entry t ∈ pre)
    (hgrants : entry.grants user = true) : ListedAt config pre lookup user t := by
  obtain ⟨before, after, rfl⟩ := List.append_of_mem hmem
  obtain ⟨⟨⟨m, hstarted⟩, hholders⟩, hage⟩ := heach before _ after rfl
  -- an entry that grants lists holders, and the user among them
  obtain ⟨users, husers, huser⟩ : ∃ users, entry.holders = some users ∧ user ∈ users := by
    unfold RoleEntry.grants at hgrants
    cases hentry : entry.holders with
    | none => rw [hentry] at hgrants; cases hgrants
    | some users =>
      rw [hentry] at hgrants
      exact ⟨users, rfl, of_decide_eq_true hgrants⟩
  obtain ⟨holders, hfetched, hfetch⟩ := hholders users husers
  exact ⟨entry.fetch, m, entry.fetchedAt, holders, List.mem_append_left _ hstarted,
    List.mem_append_left _ hfetched, (mem_fetch hfetch user).mp huser, hage (by rw [husers]; rfl)⟩

/-- **Role checks fail closed.**  When `verdict` lets an author pass, and the requirement is
one at all, then before that a lookup the requirement needs was fetched and answered, the
answer lists the author with an accepted role, and the fetch was started at most the time to
live or the timeout of a lookup before. -/
theorem granted_of_fetched (hrun : Run step (init config) h d)
    (hsplit : h = pre ++ .returned n (.verdict authority author room) granted t :: post)
    (hnone : Filtered.ofGranted granted = none) (hneeds : authority ≠ .anyone) :
    ∃ lookup ∈ authority.lookups room, ListedAt config pre lookup author t := by
  have heach := justified_of_run hrun
  obtain rfl : granted = true := by
    cases granted with
    | true => rfl
    | false => cases hnone
  have hfree : (Question.verdict authority author room).isFree = false := by
    cases authority with
    | anyone => exact absurd rfl hneeds
    | _ => rfl
  obtain ⟨lookup, hlookup, entry, hanswered, hgrants⟩ := heach pre _ post hsplit hfree
  exact ⟨lookup, hlookup, listedAt_of_grants ((hsplit ▸ heach).of_append) hanswered hgrants⟩

/-! ### A run -/

/-- A moderator of the room `r`. -/
def moderator : UserId := ⟨"moderator"⟩

/-- A check that fetches, and later one that finds the answer fresh. -/
def asksTwice : List RoleInput :=
  [.ask (.verdict .adminOrRoomAdmin moderator ⟨"r"⟩), .obtain 0 0 [], .lock 0, .tick (.ofSecs 5),
    .expire 0, .obtain 0 0 [], .lock 0, .tick (.ofSecs 1),
    .answer 0 (.ok [{ id := moderator, roles := [⟨"moderator"⟩] }]),
    .ask (.verdict .roomAdmin moderator ⟨"r"⟩), .tick (.ofSecs 298), .obtain 1 0 [], .lock 1]

theorem asksTwice_enabled : (execute step (init {}) asksTwice).isSome := by
  decide +kernel

theorem listedAt_asksTwice : ∃ (h pre post : List RoleNote) (d : RoleDirectory) (n : ℕ)
    (t : Instant), Run step (init {}) h d ∧
      h = pre ++ .returned n (.verdict .roomAdmin moderator ⟨"r"⟩) true t :: post ∧
      ∃ lookup ∈ Authority.roomAdmin.lookups ⟨"r"⟩, ListedAt {} pre lookup moderator t := by
  have hrun := run_execute asksTwice asksTwice_enabled
  have hlast : ((execute step (init {}) asksTwice).get asksTwice_enabled).2.getLast? =
      some (.returned 1 (.verdict .roomAdmin moderator ⟨"r"⟩) true (Duration.ofSecs 304)) := by
    decide +kernel
  obtain ⟨pre, hsplit⟩ := List.getLast?_eq_some_iff.mp hlast
  exact ⟨_, pre, [], _, 1, _, hrun, hsplit,
    granted_of_fetched hrun hsplit rfl (by decide)⟩

end RoleDirectory
end RocketSocket
