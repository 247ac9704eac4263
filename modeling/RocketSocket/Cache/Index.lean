import RocketSocket.Cache.Run

/-!
# The name and username indices

An index maps the name of a cached document to its key.  It is kept up by deltas: the name a
document had before a write and the one it has after.

## Main definitions

* `IndexSound`, `IndexComplete` — no entry misnames a document; every named document has its
  entry.
* `NamesDistinct` — no two documents have one name.

## Main results

* `IndexSound.store`, `IndexSound.drop` and their siblings — what the two writes preserve.
* `namesSound_run`, `namesComplete_run` and their siblings — both indices are sound in every
  run, and complete while names are distinct.
-/

namespace RocketSocket

open Machine

section Index

variable {K V : Type} [DecidableEq K] {docs : Table K V} {name : V → Option String}
  {index : Table String K} {k k' : K} {v v' : V} {n : String} {old new : Option String}

/-- Every entry names a cached document by its name. -/
def IndexSound (docs : Table K V) (name : V → Option String) (index : Table String K) : Prop :=
  ∀ n k, index.lookup n = some k → ∃ v, docs.lookup k = some v ∧ name v = some n

/-- Every named document has its entry. -/
def IndexComplete (docs : Table K V) (name : V → Option String) (index : Table String K) : Prop :=
  ∀ k v n, docs.lookup k = some v → name v = some n → index.lookup n = some k

/-- No two cached documents have one name. -/
def NamesDistinct (docs : Table K V) (name : V → Option String) : Prop :=
  ∀ k v k' v' n, docs.lookup k = some v → docs.lookup k' = some v' →
    name v = some n → name v' = some n → k = k'

theorem lookup_unindex :
    (unindex index old k).lookup n =
      if old = some n ∧ index.lookup n = some k then none else index.lookup n := by
  cases old with
  | none => simp [unindex]
  | some old =>
    unfold unindex
    rw [Option.elim_some, Finmap.lookup_removeIf]
    by_cases hn : n = old
    · subst hn
      cases index.lookup n with
      | none => simp
      | some k' => simp
    · simp [hn, Ne.symm hn]

theorem lookup_reindex :
    (reindex index old new k).lookup n =
      if old = new then index.lookup n
      else if new = some n then some k
      else (unindex index old k).lookup n := by
  unfold reindex
  split
  · rfl
  · cases new with
    | none => simp
    | some new =>
      rw [Option.elim_some, Finmap.lookup_insert_eq]
      by_cases hn : n = new
      · simp [hn]
      · simp [hn, Ne.symm hn]

/-- Writing a document and moving its name keeps the index sound. -/
theorem IndexSound.store (h : IndexSound docs name index) :
    IndexSound (docs.insert k v) name
      (reindex index ((docs.lookup k).bind name) (name v) k) := by
  intro n k' hk'
  rw [lookup_reindex] at hk'
  split at hk'
  · next hsame =>
    -- the name is unchanged, and with it the index
    obtain ⟨v', hv', hn⟩ := h n k' hk'
    by_cases hkk : k' = k
    · subst hkk
      refine ⟨v, Finmap.lookup_insert docs, ?_⟩
      rw [← hsame, hv', Option.bind_some, hn]
    · exact ⟨v', by rw [Finmap.lookup_insert_of_ne docs hkk, hv'], hn⟩
  · split at hk'
    · next hnew =>
      obtain rfl := Option.some.inj hk'
      exact ⟨v, Finmap.lookup_insert docs, hnew⟩
    · rw [lookup_unindex] at hk'
      split at hk'
      · cases hk'
      · next hkept =>
        obtain ⟨v', hv', hn⟩ := h n k' hk'
        have hkk : k' ≠ k := by
          rintro rfl
          exact hkept ⟨by rw [hv', Option.bind_some, hn], hk'⟩
        exact ⟨v', by rw [Finmap.lookup_insert_of_ne docs hkk, hv'], hn⟩

/-- Erasing a document and its name keeps the index sound. -/
theorem IndexSound.drop (h : IndexSound docs name index) :
    IndexSound (docs.erase k) name (unindex index ((docs.lookup k).bind name) k) := by
  intro n k' hk'
  rw [lookup_unindex] at hk'
  split at hk'
  · cases hk'
  · next hkept =>
    obtain ⟨v', hv', hn⟩ := h n k' hk'
    have hkk : k' ≠ k := by
      rintro rfl
      exact hkept ⟨by rw [hv', Option.bind_some, hn], hk'⟩
    exact ⟨v', by rw [Finmap.lookup_erase_ne hkk, hv'], hn⟩

/-- Another key's entry survives the removal of a name. -/
theorem lookup_unindex_of_ne (h : index.lookup n = some k') (hne : k' ≠ k) :
    (unindex index old k).lookup n = some k' := by
  rw [lookup_unindex, if_neg, h]
  rintro ⟨-, hk⟩
  rw [h] at hk
  exact hne (Option.some.inj hk)

/-- Writing a document keeps every entry but those of the name it takes over. -/
theorem IndexComplete.store (h : IndexComplete docs name index)
    (hv' : (docs.insert k v).lookup k' = some v') (hn : name v' = some n)
    (hdistinct : k' = k ∨ name v ≠ some n) :
    (reindex index ((docs.lookup k).bind name) (name v) k).lookup n = some k' := by
  rw [lookup_reindex]
  by_cases hkk : k' = k
  · -- the document just written: its entry was right, or is written now
    subst hkk
    rw [Finmap.lookup_insert] at hv'
    obtain rfl := Option.some.inj hv'
    split
    · next hsame =>
      obtain ⟨cached, hcached, hname⟩ := Option.bind_eq_some_iff.mp (hsame.trans hn)
      exact h k' cached n hcached hname
    · rfl
  · rw [Finmap.lookup_insert_of_ne docs hkk] at hv'
    have hentry := h k' v' n hv' hn
    split
    · exact hentry
    · rw [if_neg (hdistinct.resolve_left hkk)]
      exact lookup_unindex_of_ne hentry hkk

/-- Erasing a document keeps the entries of the others. -/
theorem IndexComplete.drop (h : IndexComplete docs name index) :
    IndexComplete (docs.erase k) name (unindex index old k) := by
  intro k' v' n hv' hn
  rw [Finmap.lookup_erase_eq] at hv'
  split at hv'
  · cases hv'
  · next hkk => exact lookup_unindex_of_ne (h k' v' n hv' hn) hkk

@[simp] theorem indexSound_empty : IndexSound (∅ : Table K V) name ∅ := by
  intro n k hk
  cases hk

@[simp] theorem indexComplete_empty : IndexComplete (∅ : Table K V) name ∅ := by
  intro k v n hv
  cases hv

end Index

namespace Cache

variable {c : Cache}

/-! ### Rooms -/

/-- The index of rooms is sound. -/
def NamesSound (c : Cache) : Prop := IndexSound c.rooms (·.name) c.roomsByName

/-- The index of rooms is complete. -/
def NamesComplete (c : Cache) : Prop := IndexComplete c.rooms (·.name) c.roomsByName

theorem storeRoom_unwanted {room : Room} {mode : StoreMode} (h : c.wants .room = false) :
    (c.storeRoom room mode).2 = c := by
  unfold storeRoom
  rw [h]
  rfl

/-- What storing a room leaves. -/
theorem storeRoom_wanted {room : Room} {mode : StoreMode} (h : c.wants .room = true) :
    (c.storeRoom room mode).2 = { c with
      rooms := c.rooms.insert room.id (mode.stored (c.rooms.lookup room.id) room)
      roomsByName := reindex c.roomsByName ((c.rooms.lookup room.id).bind (·.name))
        (mode.stored (c.rooms.lookup room.id) room).name room.id } := by
  unfold storeRoom
  rw [h]
  rfl

theorem namesSound_move (h : c.NamesSound) (move : RoomMove) : (c.moveRooms move).NamesSound := by
  cases move with
  | keep => exact h
  | store room mode =>
    show (c.storeRoom room mode).2.NamesSound
    cases hwants : c.wants .room with
    | false => rwa [storeRoom_unwanted hwants]
    | true =>
      rw [storeRoom_wanted hwants]
      exact IndexSound.store h
  | drop id =>
    obtain ⟨hrooms, hindex⟩ := (removeRoom_frame (c := c) id).rooms_eq (by decide)
    show (c.removeRoom id).2.NamesSound
    unfold NamesSound
    rw [hrooms, hindex]
    exact IndexSound.drop h
  | clear => exact indexSound_empty

theorem namesComplete_move (h : c.NamesComplete) (move : RoomMove)
    (hdistinct : NamesDistinct (c.moveRooms move).rooms (·.name)) :
    (c.moveRooms move).NamesComplete := by
  cases move with
  | keep => exact h
  | store room mode =>
    change NamesDistinct (c.storeRoom room mode).2.rooms _ at hdistinct
    show (c.storeRoom room mode).2.NamesComplete
    cases hwants : c.wants .room with
    | false => rwa [storeRoom_unwanted hwants]
    | true =>
      rw [storeRoom_wanted hwants] at hdistinct ⊢
      intro id cached n hcached hn
      refine IndexComplete.store h hcached hn ?_
      -- a room whose name the stored one took over would share it now
      by_contra hne
      rw [not_or, not_not] at hne
      exact hne.1 (hdistinct _ _ _ _ n hcached (Finmap.lookup_insert _) hn hne.2)
  | drop id =>
    obtain ⟨hrooms, hindex⟩ := (removeRoom_frame (c := c) id).rooms_eq (by decide)
    show (c.removeRoom id).2.NamesComplete
    unfold NamesComplete
    rw [hrooms, hindex]
    exact IndexComplete.drop h
  | clear => exact indexComplete_empty

theorem namesSound_apply (h : c.NamesSound) (op : CacheOp) : (c.apply op).NamesSound := by
  have hmove := namesSound_move h op.roomMove
  unfold NamesSound at hmove ⊢
  rwa [(apply_rooms c op).1, (apply_rooms c op).2]

theorem namesSound_run (config : CacheConfig) (ops : List CacheOp) :
    (run config ops).NamesSound :=
  run_induction (I := fun _ c => c.NamesSound) indexSound_empty
    fun _ op _ h => namesSound_apply h op

theorem namesComplete_run {config : CacheConfig} {ops : List CacheOp}
    (hdistinct : ∀ pre, pre <+: ops → NamesDistinct (run config pre).rooms (·.name)) :
    (run config ops).NamesComplete := by
  refine run_induction (I := fun _ c => c.NamesComplete) indexComplete_empty ?_
  intro pre op hpre h
  have hnow := hdistinct (pre ++ [op]) hpre
  rw [run_snoc, (apply_rooms _ op).1] at hnow
  have hmove := namesComplete_move h op.roomMove hnow
  unfold NamesComplete at hmove ⊢
  rwa [(apply_rooms _ op).1, (apply_rooms _ op).2]

/-! ### Users -/

/-- The index of users is sound. -/
def UsernamesSound (c : Cache) : Prop := IndexSound c.users (·.username) c.usersByUsername

/-- The index of users is complete. -/
def UsernamesComplete (c : Cache) : Prop := IndexComplete c.users (·.username) c.usersByUsername

variable {c' c'' : Cache} {id : UserId} {ids order : List UserId} {n : ℕ}

/-- The user that just arrived is not among those popped. -/
theorem notMem_popOldest : id ∉ (popOldest id n order).1 := by
  induction n generalizing order with
  | zero => exact List.not_mem_nil
  | succ n ih =>
    cases order with
    | nil => exact List.not_mem_nil
    | cons oldest order =>
      unfold popOldest
      split
      · exact List.not_mem_nil
      · next hne =>
        rw [List.mem_cons, not_or]
        exact ⟨Ne.symm hne, ih⟩

theorem foldl_dropUser_users :
    (ids.foldl (fun c id => (c.dropUser id).2) c).users = c.users.eraseAll ids := by
  induction ids generalizing c with
  | nil => rfl
  | cons id ids ih => exact ih (c := (c.dropUser id).2)

/-- `c.Evicts c'`: from `c` to `c'` users were dropped, each with its own index entry. -/
structure Evicts (c c' : Cache) : Prop where
  sound : c.UsernamesSound → c'.UsernamesSound
  users : ∀ id user, c'.users.lookup id = some user → c.users.lookup id = some user
  entries : ∀ id username, (c'.users.lookup id).isSome →
    c.usersByUsername.lookup username = some id → c'.usersByUsername.lookup username = some id

theorem Evicts.refl : c.Evicts c := ⟨id, fun _ _ => id, fun _ _ _ => id⟩

theorem Evicts.trans (h : c.Evicts c') (h' : c'.Evicts c'') : c.Evicts c'' where
  sound := h'.sound ∘ h.sound
  users := fun id user huser => h.users id user (h'.users id user huser)
  entries := by
    intro id username hid hentry
    obtain ⟨user, huser⟩ := Option.isSome_iff_exists.mp hid
    have hid' : (c'.users.lookup id).isSome := by rw [h'.users id user huser]; rfl
    exact h'.entries id username hid (h.entries id username hid' hentry)

theorem evicts_dropUser : c.Evicts (c.dropUser id).2 where
  sound := IndexSound.drop
  users := by
    intro k user huser
    rw [show (c.dropUser id).2.users = c.users.erase id from rfl, Finmap.lookup_erase_eq] at huser
    split at huser
    · cases huser
    · exact huser
  entries := by
    intro k username hk hentry
    refine lookup_unindex_of_ne hentry ?_
    rintro rfl
    rw [show (c.dropUser k).2.users = c.users.erase k from rfl, Finmap.lookup_erase] at hk
    cases hk

theorem evicts_foldl_dropUser : c.Evicts (ids.foldl (fun c id => (c.dropUser id).2) c) := by
  induction ids generalizing c with
  | nil => exact .refl
  | cons id ids ih => exact evicts_dropUser.trans ih

/-- Noting a new user drops others, never the new one. -/
theorem evicts_noteNewUser (c : Cache) (id : UserId) :
    c.Evicts (c.noteNewUser id) ∧
      (c.noteNewUser id).users.lookup id = c.users.lookup id := by
  cases h : c.config.userCacheSize with
  | none =>
    rw [noteNewUser_none h]
    exact ⟨.refl, rfl⟩
  | some capacity =>
    rw [noteNewUser_some h]
    constructor
    · -- the queue is no part of the index
      have hqueue : c.Evicts { c with
          userOrder := (popOldest id (c.users.size - capacity) (c.userOrder ++ [id])).2 } :=
        ⟨fun hs => hs, fun _ _ hu => hu, fun _ _ _ he => he⟩
      exact hqueue.trans evicts_foldl_dropUser
    · rw [foldl_dropUser_users, Finmap.lookup_eraseAll, if_neg notMem_popOldest]

/-- Storing a user is the write of one user and the eviction of others. -/
theorem evicts_storeUser (user : User) (mode : StoreMode) (h : c.wants .user = true) :
    (c.putUser user mode).Evicts (c.storeUser user mode).2 ∧
      ((c.storeUser user mode).2.users.lookup user.id).isSome := by
  have hput : ((c.putUser user mode).users.lookup user.id).isSome := by
    rw [putUser, Finmap.lookup_insert]
    rfl
  rw [storeUser_wanted h]
  split
  · obtain ⟨hevicts, hself⟩ := evicts_noteNewUser (c.putUser user mode) user.id
    exact ⟨hevicts, by rwa [hself]⟩
  · exact ⟨.refl, hput⟩

theorem usernamesSound_move (h : c.UsernamesSound) (move : UserMove) :
    (c.moveUsers move).UsernamesSound := by
  cases move with
  | keep => exact h
  | store user mode =>
    show (c.storeUser user mode).2.UsernamesSound
    cases hwants : c.wants .user with
    | false => rwa [storeUser_unwanted hwants]
    | true => exact (evicts_storeUser user mode hwants).1.sound (IndexSound.store h)
  | remove id =>
    show (c.removeUser id).2.UsernamesSound
    unfold removeUser
    simp only
    split
    · exact IndexSound.drop h
    · exact IndexSound.drop h
  | clear => exact indexSound_empty

theorem usernamesComplete_move (h : c.UsernamesComplete) (move : UserMove)
    (hdistinct : NamesDistinct (c.moveUsers move).users (·.username)) :
    (c.moveUsers move).UsernamesComplete := by
  cases move with
  | keep => exact h
  | store user mode =>
    change NamesDistinct (c.storeUser user mode).2.users _ at hdistinct
    show (c.storeUser user mode).2.UsernamesComplete
    cases hwants : c.wants .user with
    | false => rwa [storeUser_unwanted hwants]
    | true =>
      obtain ⟨hevicts, hself⟩ := evicts_storeUser user mode hwants
      intro id cached n hcached hn
      refine hevicts.entries id n (by rw [hcached]; rfl) ?_
      refine IndexComplete.store h (hevicts.users id cached hcached) hn ?_
      -- a user whose name the stored one took over would share it now, or was evicted
      by_contra hne
      rw [not_or, not_not] at hne
      obtain ⟨stored, hstored⟩ := Option.isSome_iff_exists.mp hself
      have hput := hevicts.users user.id stored hstored
      rw [putUser, Finmap.lookup_insert] at hput
      obtain rfl := Option.some.inj hput
      exact hne.1 (hdistinct _ _ _ _ n hcached hstored hn hne.2)
  | remove id =>
    show (c.removeUser id).2.UsernamesComplete
    unfold removeUser
    simp only
    split
    · exact IndexComplete.drop h
    · exact IndexComplete.drop h
  | clear => exact indexComplete_empty

theorem usernamesSound_run (config : CacheConfig) (ops : List CacheOp) :
    (run config ops).UsernamesSound := by
  refine run_induction (I := fun _ c => c.UsernamesSound) indexSound_empty ?_
  intro pre op _ h
  have hmove := usernamesSound_move h op.userMove
  have hstore := apply_users (run config pre) op
  simp only [userStore, Prod.mk.injEq] at hstore
  unfold UsernamesSound at hmove ⊢
  rwa [hstore.1, hstore.2.1]

theorem usernamesComplete_run {config : CacheConfig} {ops : List CacheOp}
    (hdistinct : ∀ pre, pre <+: ops → NamesDistinct (run config pre).users (·.username)) :
    (run config ops).UsernamesComplete := by
  refine run_induction (I := fun _ c => c.UsernamesComplete) indexComplete_empty ?_
  intro pre op hpre h
  have hstore := apply_users (run config pre) op
  simp only [userStore, Prod.mk.injEq] at hstore
  have hnow := hdistinct (pre ++ [op]) hpre
  rw [run_snoc, hstore.1] at hnow
  have hmove := usernamesComplete_move h op.userMove hnow
  unfold UsernamesComplete at hmove ⊢
  rwa [hstore.1, hstore.2.1]

end Cache

open Cache

/-- **The name and username indices.**  In every run an index entry names a cached document
by its name; and while no two documents shared a name in any state of the run, every named
document has its entry. -/
theorem indices_agree (config : CacheConfig) (ops : List CacheOp) :
    (∀ name id, (run config ops).roomIdByName name = some id →
      ∃ room, (run config ops).rooms.lookup id = some room ∧ room.name = some name) ∧
    (∀ username id, (run config ops).userIdByUsername username = some id →
      ∃ user, (run config ops).users.lookup id = some user ∧ user.username = some username) ∧
    ((∀ pre, pre <+: ops → NamesDistinct (run config pre).rooms (·.name)) →
      ∀ id room name, (run config ops).rooms.lookup id = some room → room.name = some name →
        (run config ops).roomIdByName name = some id) ∧
    ((∀ pre, pre <+: ops → NamesDistinct (run config pre).users (·.username)) →
      ∀ id user username, (run config ops).users.lookup id = some user →
        user.username = some username →
        (run config ops).userIdByUsername username = some id) :=
  ⟨namesSound_run config ops, usernamesSound_run config ops, namesComplete_run,
    usernamesComplete_run⟩

end RocketSocket
