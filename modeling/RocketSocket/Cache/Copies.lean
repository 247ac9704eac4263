import RocketSocket.Cache.Index

/-!
# The two copies of the current user

The logged-in user is kept apart from the users map, so that it outlives its eviction.  While
both copies are there they should be one document.

## Main definitions

* `Cache.CopiesAgree` — the users map holds no other document of the current user.
* `CacheOp.KeepsCopies` — when an operation keeps it so.

## Main results

* `copies_agree_iff` — a run keeps the copies equal if and only if all its operations do.
* `keepsCopies_of_late` — a user with a date that is not read back does.
-/

namespace RocketSocket

open Machine

namespace Cache

variable {c : Cache} {user : User} {mode : StoreMode}

/-- If the users map holds a document of the current user, it is that document. -/
def CopiesAgree (c : Cache) : Prop :=
  ∀ current, c.currentUser = some current →
    ∀ cached, c.users.lookup current.id = some cached → cached = current

end Cache

/-- The operation keeps the two copies equal: merging a user that is set as the current one into
what the users map has of it yields just that user; and so does merging an update of the current
user into the other copy, while the users map does not hold it.  The user carries every member
then, or the merge falls back on it. -/
def CacheOp.KeepsCopies (c : Cache) : CacheOp → Prop
  | .setCurrentUser user => ∀ cached, c.users.lookup user.id = some cached →
      mergeDocuments cached user = user
  | .updateUser user => ∀ current, c.currentUser = some current → current.id = user.id →
      c.users.lookup user.id = none → mergeDocuments current user = user
  | _ => True

/-- A merge falls back on a user with a date that is not read back, -/
theorem mergeDocuments_of_late {user : User} {o : Object} (ho : Document.toObject user = some o)
    (hlate : o.late User.dates = true) (cached : User) : mergeDocuments cached user = user :=
  mergeDocuments_eq_incoming_iff.mpr (.inl (fallsBack_of_late (fun _ h => if_pos h) ho hlate))

/-- so that the copies stay equal whichever of them such a user is written to. -/
theorem keepsCopies_of_late {user : User} {o : Object} (ho : Document.toObject user = some o)
    (hlate : o.late User.dates = true) (c : Cache) :
    (CacheOp.setCurrentUser user).KeepsCopies c ∧ (CacheOp.updateUser user).KeepsCopies c :=
  ⟨fun cached _ => mergeDocuments_of_late ho hlate cached,
    fun current _ _ _ => mergeDocuments_of_late ho hlate current⟩

namespace Cache

variable {c : Cache} {user : User} {mode : StoreMode} {id : UserId}

/-- What storing a user leaves under its own id. -/
theorem lookup_storeUser_self (user : User) (mode : StoreMode) (hwants : c.wants .user = true) :
    (c.storeUser user mode).2.users.lookup user.id =
      some (mode.stored (c.users.lookup user.id) user) := by
  obtain ⟨hevicts, hself⟩ := evicts_storeUser user mode hwants
  obtain ⟨stored, hstored⟩ := Option.isSome_iff_exists.mp hself
  have hput := hevicts.users user.id stored hstored
  rw [putUser, Finmap.lookup_insert] at hput
  rw [hstored, hput]

/-- What storing a user leaves under another id was there before. -/
theorem lookup_storeUser_of_ne {cached : User} (hwants : c.wants .user = true)
    (hne : id ≠ user.id) (h : (c.storeUser user mode).2.users.lookup id = some cached) :
    c.users.lookup id = some cached := by
  have hput := (evicts_storeUser user mode hwants).1.users id cached h
  rwa [putUser, Finmap.lookup_insert_of_ne _ hne] at hput

/-- Refreshing leaves any other current user alone. -/
theorem refreshCurrentUser_of_ne {current : User} (hcurrent : c.currentUser = some current)
    (hne : current.id ≠ user.id) : c.refreshCurrentUser user mode = c := by
  unfold refreshCurrentUser
  split
  · rfl
  · rw [hcurrent]
    simp only [if_neg hne]

theorem refreshCurrentUser_none (hcurrent : c.currentUser = none) :
    c.refreshCurrentUser user mode = c := by
  unfold refreshCurrentUser
  split
  · rfl
  · rw [hcurrent]

/-- Refreshing the current user writes it as the users map is written. -/
theorem refreshCurrentUser_self {current : User} (hwants : c.wants .currentUser = true)
    (hcurrent : c.currentUser = some current) (hid : current.id = user.id) :
    c.refreshCurrentUser user mode =
      { c with currentUser := some (mode.stored (some current) user) } := by
  unfold refreshCurrentUser
  rw [hwants, hcurrent]
  simp only [if_pos hid, Bool.not_true, Bool.false_eq_true, if_false]

theorem stored_userId (mode : StoreMode) (cached : Option User) (incoming : User) :
    (mode.stored cached incoming).id = incoming.id := by
  cases cached with
  | none => rfl
  | some cached =>
    cases mode with
    | merge => exact mergeDocuments_userId cached incoming
    | replace => rfl

/-- **A write of both copies keeps them equal exactly if the one that is not cached would be
stored as the other is.** -/
theorem copiesAgree_refresh (user : User) (mode : StoreMode) (hwants : c.wants .user = true)
    (hcurrent : c.wants .currentUser = true) (h : c.CopiesAgree) :
    ((c.storeUser user mode).2.refreshCurrentUser user mode).CopiesAgree ↔
      ∀ current, c.currentUser = some current → current.id = user.id →
        c.users.lookup user.id = none → mode.stored (some current) user = user := by
  have hwants' : (c.storeUser user mode).2.wants .currentUser = true := by
    rw [wants, (storeUser_frame user mode).config_eq]
    exact hcurrent
  cases hc : c.currentUser with
  | none =>
    rw [refreshCurrentUser_none ((storeUser_currentUser user mode).trans hc)]
    constructor
    · exact fun _ current hcur => by cases hcur
    · intro _ current hcur
      rw [storeUser_currentUser, hc] at hcur
      cases hcur
  | some current =>
    have hcur := (storeUser_currentUser user mode).trans hc
    by_cases hid : current.id = user.id
    · rw [refreshCurrentUser_self hwants' hcur hid]
      have hstored := lookup_storeUser_self user mode hwants
      constructor
      · rintro hagree _ ⟨⟩ - hnone
        rw [hnone] at hstored
        refine (hagree _ rfl user ?_).symm
        rw [stored_userId]
        exact hstored
      · intro hkeeps _ hnew cached hcached
        obtain rfl := Option.some.inj hnew
        change (c.storeUser user mode).2.users.lookup _ = some cached at hcached
        rw [stored_userId, hstored] at hcached
        obtain rfl := Option.some.inj hcached
        cases hlookup : c.users.lookup user.id with
        | none => exact (hkeeps current rfl hid hlookup).symm
        | some old =>
          -- both copies were one document before, and are written alike
          obtain rfl := h current hc old (hid ▸ hlookup)
          rfl
    · rw [refreshCurrentUser_of_ne hcur hid]
      constructor
      · exact fun _ _ heq hsame => absurd (Option.some.inj heq ▸ hsame) hid
      · intro _ current' hcur' cached hcached
        rw [hcur] at hcur'
        obtain rfl := Option.some.inj hcur'
        exact h current hc cached (lookup_storeUser_of_ne hwants hid hcached)

/-- Setting the current user keeps the copies equal exactly if it carries all that is cached
of it. -/
theorem copiesAgree_setCurrentUser (hwants : c.wants .user = true)
    (hcurrent : c.wants .currentUser = true) :
    (c.setCurrentUser user).CopiesAgree ↔
      ∀ cached, c.users.lookup user.id = some cached → mergeDocuments cached user = user := by
  have hset : c.setCurrentUser user =
      (c.storeUser user .merge).2.withCurrent (some user) := by
    rw [← storeUser_withCurrent]
    unfold setCurrentUser
    rw [hcurrent]
    rfl
  have hstored := lookup_storeUser_self user .merge hwants
  rw [hset]
  constructor
  · intro hagree cached hcached
    rw [hcached] at hstored
    exact hagree user rfl _ hstored
  · rintro hkeeps _ ⟨⟩ cached hcached
    change (c.storeUser user .merge).2.users.lookup user.id = some cached at hcached
    rw [hstored] at hcached
    obtain rfl := Option.some.inj hcached
    cases hlookup : c.users.lookup user.id with
    | none => rfl
    | some old => exact hkeeps old hlookup

/-- What leaves the current user alone and only takes users out keeps the copies equal. -/
theorem CopiesAgree.of_subset {c' : Cache} (h : c.CopiesAgree)
    (hcurrent : c'.currentUser = c.currentUser)
    (husers : ∀ id user, c'.users.lookup id = some user → c.users.lookup id = some user) :
    c'.CopiesAgree :=
  fun current hcur cached hcached => h current (hcurrent ▸ hcur) cached (husers _ _ hcached)

/-- What leaves both copies alone keeps them equal. -/
theorem CopiesAgree.of_same {c' : Cache} (h : c.CopiesAgree)
    (hsame : c'.userStore = c.userStore ∧ c'.currentUser = c.currentUser) : c'.CopiesAgree := by
  have husers : c'.users = c.users := congrArg Prod.fst hsame.1
  refine h.of_subset hsame.2 fun id user huser => ?_
  rwa [husers] at huser

/-- **One operation keeps the copies equal if and only if its condition holds.** -/
theorem copiesAgree_apply (hwants : c.wants .user = true)
    (hcurrent : c.wants .currentUser = true) (h : c.CopiesAgree) (op : CacheOp) :
    (c.apply op).CopiesAgree ↔ op.KeepsCopies c := by
  cases op with
  | updateUser user => exact copiesAgree_refresh user _ hwants hcurrent h
  | replaceUser user =>
    refine (copiesAgree_refresh _ .replace hwants hcurrent h).trans ?_
    exact ⟨fun _ => trivial, fun _ _ _ _ _ => rfl⟩
  | setCurrentUser user => exact copiesAgree_setCurrentUser hwants hcurrent
  | removeUser id =>
    refine ⟨fun _ => trivial, fun _ => ?_⟩
    -- The copy kept apart stays, and the users map loses one entry.
    have hdrop : ∀ k user, (c.users.erase id).lookup k = some user →
        c.users.lookup k = some user := by
      intro k user hk
      rw [Finmap.lookup_erase_eq] at hk
      split at hk
      · cases hk
      · exact hk
    show (c.removeUser id).2.CopiesAgree
    unfold removeUser
    simp only
    split
    · exact h.of_subset rfl hdrop
    · exact h.of_subset rfl hdrop
  | removeRoom id =>
    exact ⟨fun _ => trivial, fun _ =>
      h.of_same ((removeRoom_frame (c := c) id).users_eq (by decide))⟩
  | clear =>
    -- Afterwards there is no current user.
    refine ⟨fun _ => trivial, fun _ current hcur => ?_⟩
    cases hcur
  | _ => exact ⟨fun _ => trivial, fun _ => h.of_same ((apply_frame (by rfl)).users_eq (by decide))⟩

end Cache

open Cache

section Run

variable {config : CacheConfig} {ops : List CacheOp}

/-- **The two copies of the current user agree in every state of a run if and only if every
operation of the run keeps them equal.** -/
theorem copies_agree_iff (hwants : config.resourceTypes .user = true)
    (hcurrent : config.resourceTypes .currentUser = true) :
    (∀ pre, pre <+: ops → (run config pre).CopiesAgree) ↔
      ∀ pre op, pre ++ [op] <+: ops → op.KeepsCopies (run config pre) := by
  have hwants' : ∀ pre, (run config pre).wants .user = true := by
    intro pre
    rwa [wants, run_config]
  have hcurrent' : ∀ pre, (run config pre).wants .currentUser = true := by
    intro pre
    rwa [wants, run_config]
  constructor
  · -- The copies agree before the operation and after it, so it kept them equal.
    intro hagree pre op hpre
    have hnow := hagree (pre ++ [op]) hpre
    rw [run_snoc] at hnow
    have hbefore := hagree pre ((List.prefix_append pre [op]).trans hpre)
    exact (copiesAgree_apply (hwants' pre) (hcurrent' pre) hbefore op).mp hnow
  · intro hkeeps pre hpre
    induction pre using List.reverseRecOn with
    | nil =>
      intro current hcur
      cases hcur
    | append_singleton pre op ih =>
      have hbefore := ih ((List.prefix_append pre [op]).trans hpre)
      rw [run_snoc]
      exact (copiesAgree_apply (hwants' pre) (hcurrent' pre) hbefore op).mpr (hkeeps pre op hpre)

end Run

/-! ### Runs -/

/-- The document of a user with its name. -/
def alice : User := { id := ⟨"alice"⟩, username := some "alice" }

/-- A payload that carries nothing but the id. -/
def aliceStub : User := { id := ⟨"alice"⟩ }

/-- A payload with a date that lies in the year 10000 in UTC, as `9999-12-31T23:59:59-23:59`
does. -/
def aliceLate : User where
  id := ⟨"alice"⟩
  rest := .ofObject _ (.ofPairs [("createdAt", .object [("$date", .int 253402387139000)])])

-- The merge falls back on it, so the users map loses the name as the other copy does.
example : ((run {} [.updateUser alice, .setCurrentUser aliceLate]).users.lookup ⟨"alice"⟩).map
    (·.username) = some none := by decide +kernel

/-- The current user is removed from the users map and seen again in a partial payload. -/
def rebuiltFromStub : List CacheOp :=
  [.setCurrentUser alice, .removeUser alice.id, .updateUser aliceStub]

/-- A user map that is rebuilt from a partial payload drifts from the copy kept apart. -/
theorem not_copies_agree : ¬∀ (config : CacheConfig) (ops : List CacheOp),
    config.resourceTypes .user = true → config.resourceTypes .currentUser = true →
    (run config ops).CopiesAgree := by
  intro h
  have hagree := h {} rebuiltFromStub rfl rfl
  -- the one copy has the name, the other has not
  have hkept : (run {} rebuiltFromStub).currentUser.bind (·.username) = some "alice" := by
    decide +kernel
  have hid : (run {} rebuiltFromStub).currentUser.map (·.id) = some ⟨"alice"⟩ := by
    decide +kernel
  have hrebuilt : ((run {} rebuiltFromStub).users.lookup ⟨"alice"⟩).map (·.username) =
      some none := by
    decide +kernel
  obtain ⟨current, hcurrent, hname⟩ := Option.bind_eq_some_iff.mp hkept
  obtain ⟨cached, hcached, hcachedName⟩ := Option.map_eq_some_iff.mp hrebuilt
  rw [hcurrent, Option.map_some, Option.some.injEq] at hid
  obtain rfl := hagree current hcurrent cached (hid ▸ hcached)
  rw [hname] at hcachedName
  cases hcachedName

/-- The current user is seen again in a partial payload while the users map holds it. -/
def refreshedInPlace : List CacheOp := [.setCurrentUser alice, .updateUser aliceStub]

theorem copies_agree_refreshedInPlace :
    ((run {} refreshedInPlace).users.lookup ⟨"alice"⟩).bind (·.username) = some "alice" ∧
    ((∀ pre, pre <+: refreshedInPlace → (run {} pre).CopiesAgree) ↔
      ∀ pre op, pre ++ [op] <+: refreshedInPlace → op.KeepsCopies (run {} pre)) :=
  ⟨by decide +kernel, copies_agree_iff rfl rfl⟩

end RocketSocket
