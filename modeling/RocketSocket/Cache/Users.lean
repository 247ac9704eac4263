import RocketSocket.Cache.Index

/-!
# The queue of users

With a user capacity the cache keeps the ids of its users in a queue, in the order of their
first insertion, and evicts from its front.

## Main definitions

* `Cache.QueueAgrees` — the queue lists the cached users, each once, within capacity.
* `Cache.Queued` — the queue is in the order in which the stays began.
* `UserStepAgrees` — what a single operation may do to the users.

## Main results

* `storeUser_new` — what inserting a user evicts.
* `users_fifo` — eviction is first-in first-out by first insertion, over every run.
-/

namespace RocketSocket

open Machine

namespace Cache

variable {c : Cache} {id k : UserId} {user : User} {mode : StoreMode} {capacity : ℕ+}
  {order : List UserId}

/-- The user is cached. -/
def HasUser (id : UserId) (c : Cache) : Prop := (c.users.lookup id).isSome

theorem hasUser_of_users {users : Table UserId User} (h : c.users = users) :
    HasUser id c ↔ (users.lookup id).isSome := by
  rw [HasUser, h]

/-- The queue and the users agree. -/
structure QueueAgrees (capacity : ℕ+) (c : Cache) : Prop where
  nodup : c.userOrder.Nodup
  keys : c.userOrder.toFinset = c.users.keys
  bounded : c.users.size ≤ capacity

theorem QueueAgrees.mem_iff (h : c.QueueAgrees capacity) : id ∈ c.userOrder ↔ HasUser id c := by
  rw [← List.mem_toFinset, h.keys, Finmap.mem_keys_iff]
  rfl

theorem QueueAgrees.length_eq (h : c.QueueAgrees capacity) :
    c.userOrder.length = c.users.size := by
  rw [Finmap.size, ← h.keys, List.toFinset_card_of_nodup h.nodup]

/-- Agreement from what the queue lists. -/
theorem QueueAgrees.of_mem_iff (hnodup : c.userOrder.Nodup)
    (hmem : ∀ id, id ∈ c.userOrder ↔ HasUser id c) (hlen : c.userOrder.length ≤ capacity) :
    c.QueueAgrees capacity := by
  have hkeys : c.userOrder.toFinset = c.users.keys := by
    ext id
    rw [List.mem_toFinset, hmem, Finmap.mem_keys_iff]
    rfl
  refine ⟨hnodup, hkeys, ?_⟩
  rwa [Finmap.size, ← hkeys, List.toFinset_card_of_nodup hnodup]

/-- Popping nothing. -/
theorem popOldest_zero : popOldest id 0 order = ([], order) := rfl

/-- Popping one id that is not the new one. -/
theorem popOldest_one (h : k ≠ id) : popOldest id 1 (k :: order) = ([k], order) := by
  unfold popOldest
  rw [if_neg h, popOldest_zero]

/-- **What inserting a user evicts**: nothing below capacity, and at capacity the user at the
front of the queue. -/
theorem storeUser_new (mode : StoreMode) (h : c.QueueAgrees capacity)
    (hcap : c.config.userCacheSize = some capacity)
    (hwants : c.wants .user = true) (hnew : c.users.lookup user.id = none) :
    (c.users.size < capacity ∧
      (c.storeUser user mode).2.users = c.users.insert user.id user ∧
      (c.storeUser user mode).2.userOrder = c.userOrder ++ [user.id]) ∨
    ∃ victim rest, c.userOrder = victim :: rest ∧ c.users.size = capacity ∧
      (c.storeUser user mode).2.users = (c.users.insert user.id user).erase victim ∧
      (c.storeUser user mode).2.userOrder = rest ++ [user.id] := by
  have hput : (c.putUser user mode).users = c.users.insert user.id user := by
    rw [putUser, hnew]
    rfl
  have hsize : (c.putUser user mode).users.size = c.users.size + 1 := by
    rw [hput, Finmap.size_insert hnew]
  have hlen := h.length_eq
  have hbounded := h.bounded
  have hpos := capacity.pos
  have hcap' : (c.putUser user mode).config.userCacheSize = some capacity := hcap
  rw [storeUser_wanted hwants, if_pos (by rw [hnew]; rfl), noteNewUser_some hcap', hsize]
  rcases Nat.lt_or_ge c.users.size capacity with hlt | hge
  · -- below capacity nothing is popped
    refine .inl ⟨hlt, ?_, ?_⟩
    · rw [show c.users.size + 1 - capacity = 0 by omega, popOldest_zero]
      exact hput
    · rw [show c.users.size + 1 - capacity = 0 by omega, popOldest_zero]
      rfl
  · -- at capacity the front of the queue is, which is not the new user
    obtain ⟨victim, rest, horder⟩ : ∃ victim rest, c.userOrder = victim :: rest := by
      cases horder : c.userOrder with
      | nil => rw [horder, List.length_nil] at hlen; omega
      | cons victim rest => exact ⟨victim, rest, rfl⟩
    have hvictim : victim ≠ user.id := by
      rintro rfl
      have hmem : user.id ∈ c.userOrder := by
        rw [horder]
        exact List.mem_cons_self
      have hhas := h.mem_iff.mp hmem
      rw [HasUser, hnew] at hhas
      cases hhas
    have hpop : popOldest user.id (c.users.size + 1 - capacity)
        ((c.putUser user mode).userOrder ++ [user.id]) = ([victim], rest ++ [user.id]) := by
      rw [show (c.putUser user mode).userOrder = victim :: rest from horder,
        show c.users.size + 1 - capacity = 1 by omega]
      exact popOldest_one hvictim
    refine .inr ⟨victim, rest, horder, by omega, ?_, ?_⟩
    · rw [hpop, ← hput]
      rfl
    · rw [hpop]
      rfl

/-- Storing over a cached user touches neither the keys nor the queue. -/
theorem storeUser_cached (mode : StoreMode) (hcached : HasUser user.id c) :
    (c.storeUser user mode).2.userOrder = c.userOrder ∧
      ∀ id, HasUser id (c.storeUser user mode).2 ↔ HasUser id c := by
  cases hwants : c.wants .user with
  | false => rw [storeUser_unwanted hwants]; exact ⟨rfl, fun _ => Iff.rfl⟩
  | true =>
    obtain ⟨cached, hcached⟩ := Option.isSome_iff_exists.mp hcached
    rw [storeUser_wanted hwants, hcached]
    refine ⟨rfl, fun id => ?_⟩
    show ((c.users.insert user.id _).lookup id).isSome ↔ _
    rw [HasUser, Finmap.lookup_insert_eq]
    split
    · next hid => rw [hid, hcached, Option.isSome_some, Option.isSome_some]
    · rfl

/-- Who is cached once a new user is. -/
theorem hasUser_insert : ((c.users.insert user.id user).lookup id).isSome ↔
    id = user.id ∨ HasUser id c := by
  rw [Finmap.lookup_insert_eq, HasUser]
  split
  · next hid => simp [hid]
  · next hid => simp [hid]

/-- Who is cached once a user is dropped. -/
theorem hasUser_erase {users : Table UserId User} :
    ((users.erase k).lookup id).isSome ↔ id ≠ k ∧ (users.lookup id).isSome := by
  rw [Finmap.lookup_erase_eq]
  split
  · next hid => simp [hid]
  · next hid => simp [hid]

/-- Removing a user takes its id out of the queue. -/
theorem removeUser_spec (id : UserId) (h : c.QueueAgrees capacity)
    (hcap : c.config.userCacheSize = some capacity) :
    (c.removeUser id).2.users = c.users.erase id ∧
      (c.removeUser id).2.userOrder = c.userOrder.filter (· ≠ id) := by
  have hdrop : c.dropUser id = (c.users.lookup id, (c.dropUser id).2) := rfl
  have hcap' : (c.dropUser id).2.config.userCacheSize = some capacity := hcap
  unfold removeUser
  rw [hdrop]
  simp only [hcap', Option.isSome_some, Bool.and_true]
  cases hcached : c.users.lookup id with
  | some cached => exact ⟨rfl, rfl⟩
  | none =>
    refine ⟨rfl, ?_⟩
    -- an absent user has no place in the queue
    have habsent : id ∉ c.userOrder := by
      rw [h.mem_iff, HasUser, hcached]
      simp
    refine (List.filter_eq_self.mpr fun k hk => ?_).symm
    rw [decide_eq_true_eq]
    rintro rfl
    exact habsent hk

theorem queueAgrees_fromConfig (config : CacheConfig) :
    (fromConfig config).QueueAgrees capacity := by
  refine .of_mem_iff List.nodup_nil ?_ (Nat.zero_le _)
  intro id
  simp [fromConfig, HasUser]

theorem queueAgrees_storeUser (h : c.QueueAgrees capacity)
    (hcap : c.config.userCacheSize = some capacity) :
    (c.storeUser user mode).2.QueueAgrees capacity := by
  by_cases hcached : HasUser user.id c
  -- A cached user keeps its place.
  · obtain ⟨horder, hkeys⟩ := storeUser_cached mode hcached
    refine .of_mem_iff (horder ▸ h.nodup) ?_ ?_
    · intro id
      rw [horder, hkeys, h.mem_iff]
    · rw [horder, h.length_eq]
      exact h.bounded
  · cases hwants : c.wants .user with
    | false => rwa [storeUser_unwanted hwants]
    | true =>
      have hfresh : user.id ∉ c.userOrder := fun hmem => hcached (h.mem_iff.mp hmem)
      have hlen := h.length_eq
      rcases storeUser_new mode h hcap hwants (Option.not_isSome_iff_eq_none.mp hcached) with
        ⟨hlt, husers, horder⟩ | ⟨victim, rest, hfront, hfull, husers, horder⟩
      · refine .of_mem_iff ?_ ?_ ?_
        · rw [horder]
          exact List.concat_eq_append ▸ h.nodup.concat hfresh
        · intro id
          rw [horder, List.mem_append, List.mem_singleton, h.mem_iff, hasUser_of_users husers,
            hasUser_insert, or_comm]
        · rw [horder, List.length_append, List.length_singleton]
          omega
      · have hnodup := h.nodup
        rw [hfront, List.nodup_cons] at hnodup
        -- What is left behind the victim are the other cached users.
        have hmem : ∀ id, id ∈ rest ↔ id ≠ victim ∧ HasUser id c := by
          intro id
          rw [← h.mem_iff, hfront, List.mem_cons]
          constructor
          · intro hid
            exact ⟨fun heq => hnodup.1 (heq ▸ hid), .inr hid⟩
          · exact fun ⟨hne, hid⟩ => hid.resolve_left hne
        refine .of_mem_iff ?_ ?_ ?_
        · rw [horder]
          exact List.concat_eq_append ▸ hnodup.2.concat fun hid => hcached ((hmem _).mp hid).2
        · intro id
          have hvictim : user.id ≠ victim := by
            rintro rfl
            exact hfresh (hfront ▸ List.mem_cons_self)
          rw [horder, List.mem_append, List.mem_singleton, hmem, hasUser_of_users husers,
            hasUser_erase, hasUser_insert]
          constructor
          · rintro (⟨hne, hid⟩ | rfl)
            · exact ⟨hne, .inr hid⟩
            · exact ⟨hvictim, .inl rfl⟩
          · rintro ⟨hne, rfl | hid⟩
            · exact .inr rfl
            · exact .inl ⟨hne, hid⟩
        · rw [hfront, List.length_cons] at hlen
          rw [horder, List.length_append, List.length_singleton]
          omega

/-- **One move keeps the queue and the users in agreement.** -/
theorem queueAgrees_move (h : c.QueueAgrees capacity)
    (hcap : c.config.userCacheSize = some capacity) (move : UserMove) :
    (c.moveUsers move).QueueAgrees capacity := by
  cases move with
  | keep => exact h
  | store user mode => exact queueAgrees_storeUser h hcap
  | remove id =>
    show (c.removeUser id).2.QueueAgrees capacity
    obtain ⟨husers, horder⟩ := removeUser_spec id h hcap
    refine .of_mem_iff ?_ ?_ ?_
    · rw [horder]
      exact h.nodup.filter _
    · intro k
      rw [horder, List.mem_filter, h.mem_iff, hasUser_of_users husers, hasUser_erase,
        decide_eq_true_eq, and_comm]
      rfl
    · rw [horder]
      exact (List.length_filter_le _ _).trans (h.length_eq ▸ h.bounded)
  | clear => exact queueAgrees_fromConfig c.config

theorem queueAgrees_apply (h : c.QueueAgrees capacity)
    (hcap : c.config.userCacheSize = some capacity) (op : CacheOp) :
    (c.apply op).QueueAgrees capacity := by
  have hmove := queueAgrees_move h hcap op.userMove
  have hstore := apply_users c op
  simp only [userStore, Prod.mk.injEq] at hstore
  obtain ⟨husers, -, horder⟩ := hstore
  obtain ⟨hnodup, hkeys, hbounded⟩ := hmove
  rw [← horder] at hnodup hkeys
  rw [← husers] at hkeys hbounded
  exact ⟨hnodup, hkeys, hbounded⟩

theorem queueAgrees_run {config : CacheConfig} (ops : List CacheOp)
    (hcap : config.userCacheSize = some capacity) : (run config ops).QueueAgrees capacity :=
  run_induction (I := fun _ c => c.QueueAgrees capacity) (queueAgrees_fromConfig config)
    fun _ op _ h => queueAgrees_apply h (by rwa [run_config]) op

/-! ### The order of insertion -/

/-- The queue is in the order in which the current stays of its users began. -/
def Queued (config : CacheConfig) (ops : List CacheOp) : Prop :=
  (run config ops).userOrder.Pairwise fun older newer =>
    ∀ n m, StaysSince (HasUser older) config ops n → StaysSince (HasUser newer) config ops m →
      n < m

/-- What a move leaves of the queue: some of its ids in their order, and perhaps a new one
behind them. -/
theorem userOrder_move (h : c.QueueAgrees capacity)
    (hcap : c.config.userCacheSize = some capacity) (move : UserMove) :
    (c.moveUsers move).userOrder.Sublist c.userOrder ∨
      ∃ front id, front.Sublist c.userOrder ∧ ¬HasUser id c ∧
        (c.moveUsers move).userOrder = front ++ [id] := by
  cases move with
  | keep => exact .inl (List.Sublist.refl _)
  | store user mode =>
    show (c.storeUser user mode).2.userOrder.Sublist _ ∨ _
    by_cases hcached : HasUser user.id c
    · rw [(storeUser_cached mode hcached).1]
      exact .inl (List.Sublist.refl _)
    · cases hwants : c.wants .user with
      | false =>
        rw [storeUser_unwanted hwants]
        exact .inl (List.Sublist.refl _)
      | true =>
        rcases storeUser_new mode h hcap hwants
          (Option.not_isSome_iff_eq_none.mp hcached) with
          ⟨-, -, horder⟩ | ⟨victim, rest, hfront, -, -, horder⟩
        · -- Below capacity the new id is put behind the queue;
          exact .inr ⟨c.userOrder, user.id, List.Sublist.refl _, hcached, horder⟩
        · -- at capacity the front leaves for it.
          refine .inr ⟨rest, user.id, ?_, hcached, horder⟩
          rw [hfront]
          exact List.sublist_cons_self victim rest
  | remove id =>
    refine .inl ?_
    show (c.removeUser id).2.userOrder.Sublist _
    rw [(removeUser_spec id h hcap).2]
    exact List.filter_sublist
  | clear => exact .inl (List.nil_sublist _)

/-- One operation keeps the queue in the order of insertion. -/
theorem queued_snoc {config : CacheConfig} {ops : List CacheOp} {op : CacheOp}
    (hcap : config.userCacheSize = some capacity) (h : Queued config ops) :
    Queued config (ops ++ [op]) := by
  have hagree := queueAgrees_run ops hcap
  -- ids that were in the queue before have the stays they had
  have hbefore : (run config ops).userOrder.Pairwise fun older newer =>
      ∀ n m, StaysSince (HasUser older) config (ops ++ [op]) n →
        StaysSince (HasUser newer) config (ops ++ [op]) m → n < m := by
    refine h.imp_of_mem ?_
    intro older newer holder hnewer hlt n m hn hm
    exact hlt n m (hn.of_snoc.1 (hagree.mem_iff.mp holder))
      (hm.of_snoc.1 (hagree.mem_iff.mp hnewer))
  have horder : (run config (ops ++ [op])).userOrder =
      ((run config ops).moveUsers op.userMove).userOrder := by
    have hstore := apply_users (run config ops) op
    simp only [userStore, Prod.mk.injEq] at hstore
    rw [run_snoc, hstore.2.2]
  unfold Queued
  rw [horder]
  rcases userOrder_move hagree (by rwa [run_config]) op.userMove with
    hsub | ⟨front, id, hsub, hnew, hsnoc⟩
  · exact hbefore.sublist hsub
  · rw [hsnoc]
    refine List.pairwise_append.mpr ⟨hbefore.sublist hsub, List.pairwise_singleton _ _, ?_⟩
    -- the new id arrives now, every other one arrived before
    intro older holder newer hnewer n m hn hm
    obtain rfl := List.mem_singleton.mp hnewer
    rw [hm.of_snoc.2 hnew]
    exact (hn.of_snoc.1 (hagree.mem_iff.mp (hsub.subset holder))).1

theorem queued_run {config : CacheConfig} (ops : List CacheOp)
    (hcap : config.userCacheSize = some capacity) : Queued config ops := by
  induction ops using List.reverseRecOn with
  | nil => exact List.Pairwise.nil
  | append_singleton ops op ih => exact queued_snoc hcap ih

end Cache

/-! ### What a single operation may do -/

/-- The user an operation stores, if it stores one. -/
def CacheOp.storesUser : CacheOp → Option User
  | .updateUser user => some user
  | .replaceUser user => some user
  | .setCurrentUser user => some user
  | _ => none

open Cache

/-- What one operation of a run does to the users. -/
structure UserStepAgrees (config : CacheConfig) (capacity : ℕ+) (pre : List CacheOp)
    (op : CacheOp) : Prop where
  /-- Below capacity a new user is added and nobody evicted. -/
  fits : ∀ user, op.storesUser = some user → ¬HasUser user.id (run config pre) →
    (run config pre).users.size < capacity →
    ∀ id, HasUser id (run config (pre ++ [op])) ↔ id = user.id ∨ HasUser id (run config pre)
  /-- At capacity a new user evicts exactly the one whose stay began earliest. -/
  evicts : ∀ user, op.storesUser = some user → ¬HasUser user.id (run config pre) →
    (run config pre).users.size = capacity →
    ∃ victim n, HasUser victim (run config pre) ∧
      StaysSince (HasUser victim) config pre n ∧
      (∀ id, HasUser id (run config pre) → id ≠ victim →
        ∃ m, StaysSince (HasUser id) config pre m ∧ n < m) ∧
      ∀ id, HasUser id (run config (pre ++ [op])) ↔
        id = user.id ∨ (HasUser id (run config pre) ∧ id ≠ victim)
  /-- Seeing a cached user again evicts nobody and does not renew its place. -/
  refreshes : ∀ user, op.storesUser = some user → HasUser user.id (run config pre) →
    (run config (pre ++ [op])).userOrder = (run config pre).userOrder ∧
      ∀ id, HasUser id (run config (pre ++ [op])) ↔ HasUser id (run config pre)
  /-- Removing a user, cached or not, takes out that user only. -/
  removes : ∀ id, op = .removeUser id →
    (run config (pre ++ [op])).userOrder = (run config pre).userOrder.filter (· ≠ id) ∧
      ∀ k, HasUser k (run config (pre ++ [op])) ↔ HasUser k (run config pre) ∧ k ≠ id

section Run

variable {config : CacheConfig} {capacity : ℕ+} {pre ops : List CacheOp} {op : CacheOp}
  {user : User}

theorem userMove_of_storesUser (h : op.storesUser = some user) :
    ∃ mode, op.userMove = .store user mode := by
  cases op with
  | updateUser u => cases h; exact ⟨_, rfl⟩
  | replaceUser u => cases h; exact ⟨_, rfl⟩
  | setCurrentUser u => cases h; exact ⟨_, rfl⟩
  | _ => cases h

/-- What an operation does to the users, in the state of a run. -/
theorem users_snoc (config : CacheConfig) (pre : List CacheOp) (op : CacheOp) :
    (run config (pre ++ [op])).users = ((run config pre).moveUsers op.userMove).users ∧
      (run config (pre ++ [op])).userOrder =
        ((run config pre).moveUsers op.userMove).userOrder := by
  have hstore := apply_users (run config pre) op
  simp only [userStore, Prod.mk.injEq] at hstore
  rw [run_snoc]
  exact ⟨hstore.1, hstore.2.2⟩

/-- The user at the front of the queue is the one whose stay began earliest. -/
theorem front_earliest (hcap : config.userCacheSize = some capacity) {victim : UserId}
    {rest : List UserId} (hfront : (run config pre).userOrder = victim :: rest) :
    ∃ n, HasUser victim (run config pre) ∧ StaysSince (HasUser victim) config pre n ∧
      ∀ id, HasUser id (run config pre) → id ≠ victim →
        ∃ m, StaysSince (HasUser id) config pre m ∧ n < m := by
  have hempty : ∀ id, ¬HasUser id (fromConfig config) := by
    intro id hid
    simp [HasUser, fromConfig] at hid
  have hagree := queueAgrees_run pre hcap
  have hvictim : HasUser victim (run config pre) := by
    rw [← hagree.mem_iff, hfront]
    exact List.mem_cons_self
  obtain ⟨n, hn⟩ := exists_staysSince (hempty victim) hvictim
  refine ⟨n, hvictim, hn, fun id hid hne => ?_⟩
  obtain ⟨m, hm⟩ := exists_staysSince (hempty id) hid
  refine ⟨m, hm, ?_⟩
  -- everybody else is behind the front
  have hpair := queued_run pre hcap
  rw [Queued, hfront, List.pairwise_cons] at hpair
  have hrest : id ∈ rest := by
    have hmem := hagree.mem_iff.mpr hid
    rw [hfront, List.mem_cons] at hmem
    exact hmem.resolve_left hne
  exact hpair.1 id hrest n m hn hm

theorem userStepAgrees (hcap : config.userCacheSize = some capacity)
    (hwants : config.resourceTypes .user = true) (pre : List CacheOp) (op : CacheOp) :
    UserStepAgrees config capacity pre op := by
  have hagree := queueAgrees_run pre hcap
  have hcap' : (run config pre).config.userCacheSize = some capacity := by rwa [run_config]
  have hwants' : (run config pre).wants .user = true := by rwa [wants, run_config]
  obtain ⟨husers, horder⟩ := users_snoc config pre op
  refine ⟨?_, ?_, ?_, ?_⟩
  · -- A new user below capacity,
    intro user hstores hnew hlt id
    obtain ⟨mode, hmove⟩ := userMove_of_storesUser hstores
    rw [hmove] at husers
    rcases storeUser_new mode hagree hcap' hwants'
      (Option.not_isSome_iff_eq_none.mp hnew) with
      ⟨-, hinsert, -⟩ | ⟨victim, rest, -, hfull, -, -⟩
    · rw [hasUser_of_users (husers.trans hinsert), hasUser_insert]
    · exact absurd hfull hlt.ne
  · -- a new user at capacity,
    intro user hstores hnew hfull
    obtain ⟨mode, hmove⟩ := userMove_of_storesUser hstores
    rw [hmove] at husers
    rcases storeUser_new mode hagree hcap' hwants'
      (Option.not_isSome_iff_eq_none.mp hnew) with
      ⟨hlt, -, -⟩ | ⟨victim, rest, hfront, -, herase, -⟩
    · exact absurd hfull hlt.ne
    · obtain ⟨n, hvictim, hn, hothers⟩ := front_earliest hcap hfront
      refine ⟨victim, n, hvictim, hn, hothers, fun id => ?_⟩
      have hne : user.id ≠ victim := by
        rintro rfl
        exact hnew hvictim
      rw [hasUser_of_users (husers.trans herase), hasUser_erase, hasUser_insert]
      constructor
      · rintro ⟨hid, rfl | hhas⟩
        · exact .inl rfl
        · exact .inr ⟨hhas, hid⟩
      · rintro (rfl | ⟨hhas, hid⟩)
        · exact ⟨hne, .inl rfl⟩
        · exact ⟨hid, .inr hhas⟩
  · -- a user that is cached,
    intro user hstores hcached
    obtain ⟨mode, hmove⟩ := userMove_of_storesUser hstores
    rw [hmove] at husers horder
    obtain ⟨hsame, hkeys⟩ := storeUser_cached mode hcached
    refine ⟨horder.trans hsame, fun id => ?_⟩
    rw [hasUser_of_users husers]
    exact hkeys id
  · -- and one that is removed.
    rintro id rfl
    obtain ⟨herase, hfilter⟩ := removeUser_spec id hagree hcap'
    refine ⟨horder.trans hfilter, fun k => ?_⟩
    rw [hasUser_of_users (husers.trans herase), hasUser_erase, and_comm]
    rfl

/-- **User eviction is first-in first-out by first insertion.**  In every state of a run the
queue lists the cached users, each once, in the order in which their stays began, and every
operation adds, evicts and removes only whom it should. -/
theorem users_fifo (hcap : config.userCacheSize = some capacity)
    (hwants : config.resourceTypes .user = true) :
    (run config ops).QueueAgrees capacity ∧ Queued config ops ∧
      ∀ pre op, pre ++ [op] <+: ops → UserStepAgrees config capacity pre op :=
  ⟨queueAgrees_run _ hcap, queued_run _ hcap, fun pre op _ => userStepAgrees hcap hwants pre op⟩

end Run

/-! ### A run -/

/-- A user without any member. -/
def bareUser (id : String) : User := { id := ⟨id⟩ }

/-- In a cache of two: a third user evicts the first although it was seen again, and one
that was removed comes back last. -/
def takesTurns : List CacheOp :=
  [.updateUser (bareUser "u0"), .replaceUser (bareUser "u1"), .updateUser (bareUser "u0"),
    .setCurrentUser (bareUser "u2"), .removeUser ⟨"u1"⟩, .removeUser ⟨"u3"⟩,
    .updateUser (bareUser "u1")]

theorem users_fifo_takesTurns :
    (run { userCacheSize := some 2 } takesTurns).userOrder = [⟨"u2"⟩, ⟨"u1"⟩] ∧
    (run { userCacheSize := some 2 } takesTurns).QueueAgrees 2 ∧
    Queued { userCacheSize := some 2 } takesTurns ∧
    ∀ pre op, pre ++ [op] <+: takesTurns → UserStepAgrees { userCacheSize := some 2 } 2 pre op :=
  ⟨by decide +kernel, users_fifo rfl rfl⟩

end RocketSocket
