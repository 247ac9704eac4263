import Mathlib.Algebra.Order.Group.Multiset
import RocketSocket.Cache.Concurrent

/-!
# The capacity of the users map

An insert counts the users before it takes the queue lock, and drops the users it popped
after it has released it.  While calls interleave the map may be over its capacity, but then
some call is still to count, to pop, or to drop what it popped.  The one access that can break
this is the one under the queue lock: it pops at most what its call counted, and stops at its
own id, so it may pop less than the surplus that is left.

## Main definitions

* `Cache.staying`, `surplus` — the users no pending access drops, and how many the pending
  accesses may still pop.
* `Cache.Covered` — the surplus over the capacity is accounted for.
* `Cache.EvictsSurplus` — what is popped covers the surplus.

## Main results

* `users_within_capacity` — if every access under the queue lock pops what it has to, then
  whenever no call is in progress the map is within its capacity.
* `not_users_within_capacity` — otherwise the map can stay over its capacity.
-/

namespace RocketSocket

open Machine

namespace Access

/-- The access counts the users, against this capacity. -/
def Counts (capacity : ℕ+) : Access → Prop
  | .countUsers _ capacity' => capacity' = capacity
  | _ => False

/-- The user the access takes out of the map. -/
def dropped : Access → Option UserId
  | .takeUser id | .removeUser id => some id
  | _ => none

/-- Who the access pushes on the queue, and how many it may pop. -/
def queued : Access → Option (UserId × ℕ)
  | .queueUser id overCapacity => some (id, overCapacity)
  | _ => none

/-- How many users the access may pop. -/
def mayPop (a : Access) : ℕ := a.queued.elim 0 (·.2)

instance (capacity : ℕ+) : DecidablePred (Counts capacity)
  | .countUsers _ capacity' => inferInstanceAs (Decidable (capacity' = capacity))
  | .upsertRoom .. | .takeRoom _ | .unnameRoom .. | .nameRoom .. | .upsertSubscription ..
  | .takeSubscription _ | .upsertMessage .. | .takeMessage _ | .removeMessage _ | .link ..
  | .unlink .. | .dropRing _ | .takeRing _ | .upsertUser .. | .takeUser _ | .removeUser _
  | .unnameUser .. | .nameUser .. | .queueUser .. | .forgetUser _ | .writeCurrent _
  | .readCurrent .. | .refreshCurrent .. => isFalse fun h => h

end Access

/-- How many users the pending accesses may pop. -/
def surplus (pending : Multiset Access) : ℕ := (pending.map Access.mayPop).sum

@[simp] theorem surplus_zero : surplus 0 = 0 := rfl

theorem surplus_add (l l' : Multiset Access) : surplus (l + l') = surplus l + surplus l' := by
  rw [surplus, Multiset.map_add, Multiset.sum_add]
  rfl

theorem surplus_cons (a : Access) (l : Multiset Access) :
    surplus (a ::ₘ l) = a.mayPop + surplus l := by
  rw [surplus, Multiset.map_cons, Multiset.sum_cons]
  rfl

namespace Cache

variable {c c' : Cache} {l more : Multiset Access} {a : Access} {id : UserId}
  {capacity : ℕ+}

/-- The users that no pending access takes out of the map. -/
def staying (c : Cache) (pending : Multiset Access) : Finset UserId :=
  c.users.keys.filter (· ∉ pending.filterMap Access.dropped)

theorem mem_staying : id ∈ c.staying l ↔
    id ∈ c.users.keys ∧ ∀ a ∈ l, a.dropped ≠ some id := by
  simp [staying]

/-- Some call is still to count, or the users that stay are at most the capacity and what the
pending accesses may pop. -/
def Covered (capacity : ℕ+) (c : Cache) (pending : Multiset Access) : Prop :=
  (∃ a ∈ pending, a.Counts capacity) ∨ (c.staying pending).card ≤ capacity + surplus pending

/-- An access that neither counts nor pops, after which nobody stays who did not before. -/
theorem Covered.after (h : c.Covered capacity (a ::ₘ l)) (hcounts : ¬a.Counts capacity)
    (hpops : a.mayPop = 0) (hkeys : c'.staying (more + l) ⊆ c.staying (a ::ₘ l)) :
    c'.Covered capacity (more + l) := by
  rcases h with ⟨b, hb, hb'⟩ | h
  · rcases Multiset.mem_cons.mp hb with rfl | hb
    · exact absurd hb' hcounts
    · exact .inl ⟨b, Multiset.mem_add.mpr (.inr hb), hb'⟩
  · right
    have hcard := Finset.card_le_card hkeys
    rw [surplus_cons] at h
    rw [surplus_add]
    omega

/-- Nobody stays anew while no user enters the map: the access neither drops one of them nor
adds to the map. -/
theorem staying_subset (hkeys : ∀ id ∈ c'.users.keys, id ∈ c.users.keys ∧ a.dropped ≠ some id) :
    c'.staying (more + l) ⊆ c.staying (a ::ₘ l) := by
  intro id hid
  obtain ⟨hkey, hrest⟩ := mem_staying.mp hid
  obtain ⟨hbefore, hself⟩ := hkeys id hkey
  refine mem_staying.mpr ⟨hbefore, fun b hb => ?_⟩
  rcases Multiset.mem_cons.mp hb with rfl | hb
  · exact hself
  · exact hrest b (Multiset.mem_add.mpr (.inr hb))

/-- An access that leaves the users alone. -/
theorem Covered.frame (h : c.Covered capacity (a ::ₘ l)) (hcounts : ¬a.Counts capacity)
    (hpops : a.mayPop = 0) (hdrops : a.dropped = none) (husers : c'.users = c.users) :
    c'.Covered capacity (more + l) := by
  refine h.after hcounts hpops (staying_subset fun id hid => ?_)
  rw [husers] at hid
  exact ⟨hid, by simp [hdrops]⟩

/-- Dropping a user from the map. -/
theorem Covered.drop (h : c.Covered capacity (a ::ₘ l)) (hcounts : ¬a.Counts capacity)
    (hpops : a.mayPop = 0) (hdrops : a.dropped = some id)
    (husers : c'.users = c.users.erase id) : c'.Covered capacity (more + l) := by
  refine h.after hcounts hpops (staying_subset fun other hother => ?_)
  rw [husers, Finmap.keys_erase, Finset.mem_erase] at hother
  rw [hdrops, ne_eq, Option.some.injEq]
  exact ⟨hother.2, Ne.symm hother.1⟩

/-! ### One lemma for each access to the users or the queue -/

theorem covered_upsertUser {user : User} {mode : StoreMode}
    (hcap : c.config.userCacheSize = some capacity)
    (h : c.Covered capacity (.upsertUser user mode ::ₘ l)) :
    (c.access (.upsertUser user mode)).1.Covered capacity
      ((c.access (.upsertUser user mode)).2 + l) := by
  cases hcached : c.users.lookup user.id with
  | none =>
    -- a new user is still to be counted
    refine .inl ⟨.countUsers user.id capacity, Multiset.mem_add.mpr (.inl ?_), rfl⟩
    simp [access, upsert, hcached, notes, hcap]
  | some cached =>
    refine h.after (fun hself => hself) rfl (staying_subset fun id hid => ⟨?_, ?_⟩)
    · rw [access, upsert, Finmap.keys_insert,
        Finset.insert_eq_of_mem (Finmap.mem_keys_of_lookup hcached)] at hid
      exact hid
    · simp [Access.dropped]

theorem covered_countUsers {capacity' : ℕ+}
    (h : c.Covered capacity (.countUsers id capacity' ::ₘ l)) :
    (c.access (.countUsers id capacity')).1.Covered capacity
      ((c.access (.countUsers id capacity')).2 + l) := by
  by_cases hcap : capacity' = capacity
  · -- what was just counted may be popped
    subst hcap
    right
    have hcard : (c.staying ((c.access (.countUsers id capacity')).2 + l)).card ≤ c.users.size :=
      Finset.card_le_card (Finset.filter_subset _ _)
    show (c.staying ((c.access (.countUsers id capacity')).2 + l)).card ≤
      capacity' + surplus (([.queueUser id (c.users.size - capacity')] : List Access) + l)
    rw [← Multiset.cons_coe, Multiset.cons_add, surplus_cons]
    show _ ≤ _ + ((c.users.size - capacity') + _)
    omega
  · exact h.frame hcap rfl rfl rfl

/-- The ids that are popped: from the front of the queue, at most so many, and none from the
new one on. -/
theorem popOldest_fst {order : List UserId} {n : ℕ} :
    (popOldest id n (order ++ [id])).1 = (order.take n).takeWhile (· ≠ id) := by
  induction n generalizing order with
  | zero => simp [popOldest]
  | succ n ih =>
    cases order with
    | nil => simp [popOldest]
    | cons oldest order =>
      rw [List.cons_append, popOldest, List.take_succ_cons]
      by_cases hself : oldest = id
      · simp [hself]
      · rw [if_neg hself, List.takeWhile_cons_of_pos (by simpa using hself), ← ih]

/-- The users that are popped and those another access drops cover the surplus, up to what
the other pending accesses may pop; or another call is still to count. -/
def PopsEnough (capacity : ℕ+) (c : Cache) (pending : Multiset Access) (id : UserId)
    (overCapacity : ℕ) : Prop :=
  (∃ a ∈ pending, a.Counts capacity) ∨
    (c.staying pending \ ((c.userOrder.take overCapacity).takeWhile (· ≠ id)).toFinset).card ≤
      capacity + surplus pending

instance (pending : Multiset Access) (overCapacity : ℕ) :
    Decidable (PopsEnough capacity c pending id overCapacity) :=
  have : Decidable (∃ a ∈ pending, a.Counts capacity) := Multiset.decidableExistsMultiset
  inferInstanceAs (Decidable (_ ∨ _))

/-- If the access is the one under the queue lock, it pops enough. -/
def EvictsSurplus (capacity : ℕ+) (m : Made Cache Access) : Prop :=
  ∀ queued ∈ m.access.queued, PopsEnough capacity m.before m.pending queued.1 queued.2

instance (m : Made Cache Access) : Decidable (EvictsSurplus capacity m) :=
  inferInstanceAs (Decidable (∀ queued ∈ m.access.queued, _))

theorem covered_queueUser {overCapacity : ℕ}
    (hpops : PopsEnough capacity c l id overCapacity) :
    (c.access (.queueUser id overCapacity)).1.Covered capacity
      ((c.access (.queueUser id overCapacity)).2 + l) := by
  rcases hpops with ⟨b, hb, hcounts⟩ | hpops
  · exact .inl ⟨b, Multiset.mem_add.mpr (.inr hb), hcounts⟩
  · right
    rw [surplus_add]
    refine le_trans (Finset.card_le_card fun k hk => ?_) (le_trans hpops (by omega))
    -- whoever stays now was not popped, and stayed before
    obtain ⟨hkey, hrest⟩ := mem_staying.mp hk
    rw [Finset.mem_sdiff, List.mem_toFinset, ← popOldest_fst]
    refine ⟨mem_staying.mpr ⟨hkey, fun b hb => hrest b (Multiset.mem_add.mpr (.inr hb))⟩, ?_⟩
    intro hpopped
    refine hrest (.takeUser k) (Multiset.mem_add.mpr (.inl ?_)) rfl
    exact List.mem_map_of_mem hpopped

/-- **An access keeps the surplus accounted for**, unless it is under the queue lock and pops
too little. -/
theorem covered_access (hcap : c.config.userCacheSize = some capacity)
    (h : c.Covered capacity (a ::ₘ l)) (hevicts : EvictsSurplus capacity ⟨c, a, l⟩) :
    (c.access a).1.Covered capacity ((c.access a).2 + l) := by
  cases a with
  | upsertUser user mode => exact covered_upsertUser hcap h
  | takeUser id => exact h.drop (fun hself => hself) rfl rfl rfl
  | removeUser id => exact h.drop (fun hself => hself) rfl rfl rfl
  | countUsers id capacity' => exact covered_countUsers h
  | queueUser id overCapacity =>
    have hpops : PopsEnough capacity c l id overCapacity := hevicts (id, overCapacity) rfl
    exact covered_queueUser hpops
  | unlink roomId id =>
    exact h.frame (fun hself => hself) rfl rfl (access_unlink_users c roomId id)
  | takeRing roomId =>
    exact h.frame (fun hself => hself) rfl rfl (access_takeRing_users c roomId)
  | _ => exact h.frame (fun hself => hself) rfl rfl rfl

/-- **The users map is within its capacity.**  However the calls interleave, if every access
under the queue lock pops what it has to, then whenever no call is in progress there are at
most as many users as the capacity. -/
theorem users_within_capacity {config : CacheConfig} (hcap : config.userCacheSize = some capacity)
    {h : List (Made Cache Access)} {p : Pool Cache Access}
    (hrun : Run concurrent ⟨fromConfig config, []⟩ h p)
    (hevicts : ∀ m ∈ h, EvictsSurplus capacity m) (hidle : p.Idle) :
    p.shared.stats.users ≤ capacity := by
  have hcovered : p.shared.config.userCacheSize = some capacity ∧
      p.shared.Covered capacity p.pending := by
    refine Pool.invariant
      (I := fun c l => c.config.userCacheSize = some capacity ∧ c.Covered capacity l)
      (M := EvictsSurplus capacity) ?_ ?_ ?_ hrun hevicts
    · exact ⟨hcap, .inr (by simp [staying, fromConfig])⟩
    · -- A call that begins has all its accesses before it.
      rintro c l op call ⟨hconfig, hI⟩ -
      refine ⟨hconfig, ?_⟩
      rcases hI with ⟨b, hb, hcounts⟩ | hI
      · exact .inl ⟨b, Multiset.mem_add.mpr (.inr hb), hcounts⟩
      · right
        rw [surplus_add]
        refine le_trans (Finset.card_le_card fun k hk => ?_) (le_trans hI (by omega))
        obtain ⟨hkey, hrest⟩ := mem_staying.mp hk
        exact mem_staying.mpr ⟨hkey, fun b hb => hrest b (Multiset.mem_add.mpr (.inr hb))⟩
    · -- An access that is made is pending no more.
      rintro c a l ⟨hconfig, hI⟩ hm
      exact ⟨by rw [access_config, hconfig], covered_access hconfig hI hm⟩
  -- With no call in progress nothing is pending, and every user stays.
  rw [Pool.pending_of_idle hidle] at hcovered
  rcases hcovered.2 with ⟨b, hb, -⟩ | hcard
  · exact absurd hb (Multiset.notMem_zero b)
  · have hall : p.shared.staying 0 = p.shared.users.keys := by
      ext id
      simp [mem_staying]
    rwa [hall, surplus_zero, Nat.add_zero] at hcard

/-! ### Runs -/

/-- A cache for one user. -/
def single : CacheConfig := { userCacheSize := some 1 }

/-- A user. -/
def bob : User := { id := ⟨"bob"⟩ }

/-- Another user. -/
def carol : User := { id := ⟨"carol"⟩ }

/-- The second insert counts and pops after the first has queued its user. -/
def countsLater : List (PoolInput CacheOp) :=
  [.call (.updateUser bob), .step 0, .call (.updateUser carol), .step 0, .step 1, .step 0,
    .step 1, .step 1, .step 1, .step 0, .step 1]

theorem countsLater_enabled :
    (execute concurrent ⟨fromConfig single, []⟩ countsLater).isSome := by
  decide +kernel

theorem users_countsLater : ∃ (h : List (Made Cache Access)) (p : Pool Cache Access),
    single.userCacheSize = some 1 ∧ Run concurrent ⟨fromConfig single, []⟩ h p ∧
      (∀ m ∈ h, EvictsSurplus 1 m) ∧ p.Idle ∧ (p.shared.users.lookup carol.id).isSome ∧
      p.shared.stats.users ≤ 1 := by
  have hrun := run_execute countsLater countsLater_enabled
  have hevicts : ∀ m ∈ ((execute concurrent ⟨fromConfig single, []⟩ countsLater).get
      countsLater_enabled).2, EvictsSurplus 1 m := by
    decide +kernel
  have hidle : ((execute concurrent ⟨fromConfig single, []⟩ countsLater).get
      countsLater_enabled).1.Idle := by
    decide +kernel
  exact ⟨_, _, rfl, hrun, hevicts, hidle, by decide +kernel,
    users_within_capacity rfl hrun hevicts hidle⟩

/-- The second insert counts, and pops nothing but its own id, while the first, which counted
before, has not queued its user yet. -/
def countsBetween : List (PoolInput CacheOp) :=
  [.call (.updateUser bob), .step 0, .step 0, .call (.updateUser carol), .step 1, .step 1,
    .step 1, .step 1, .step 0, .step 0]

theorem countsBetween_enabled :
    (execute concurrent ⟨fromConfig single, []⟩ countsBetween).isSome := by
  decide +kernel

/-- **The users map can stay over its capacity**, with no call in progress. -/
theorem not_users_within_capacity : ¬∀ (config : CacheConfig) (capacity : ℕ+)
    (h : List (Made Cache Access)) (p : Pool Cache Access),
    config.userCacheSize = some capacity → Run concurrent ⟨fromConfig config, []⟩ h p →
      p.Idle → p.shared.stats.users ≤ capacity := by
  intro hall
  have hle := hall single 1 _ _ rfl (run_execute countsBetween countsBetween_enabled)
    (by decide +kernel)
  revert hle
  decide +kernel

end Cache
end RocketSocket
