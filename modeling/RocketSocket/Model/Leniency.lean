import RocketSocket.Model.Events

/-!
# The leniency of decoding

Extra elements at the end of an event are ignored, and `null` is absence: the rules at the head
of `event.rs`, as laws of `StreamEvent::decode` that relate two lists of arguments.

Every helper that reads a position takes `null` there for nothing.  So an event depends only on
what is *passed* at the positions that its decoder reads.

## Main definitions

* `Events.passed` — what there is at a position, `null` counting for nothing.
* `Events.Alike` — two decoded events, both typed and equal, or neither typed.
* `Events.reads` — how many positions the decoder of an event reads.
* `Events.SameUpTo` — the same is passed at the first positions.

## Main results

* `tryDecode_congr` — the decoder sees what is passed at the positions it reads, and no more.
* `decode_lenient` — the laws of leniency.
-/

namespace RocketSocket.Events

variable {P : Payloads} {args args' tuple tuple' : List Value} {index n : ℕ}

/-! ### What is passed at a position -/

/-- What there is at a position; `null` counts for nothing. -/
def passed (args : List Value) (index : ℕ) : Option Value :=
  match args[index]? with
  | none | some .null => none
  | some value => some value

/-- The same is passed at the first `n` positions. -/
def SameUpTo (n : ℕ) (args args' : List Value) : Prop :=
  ∀ index < n, passed args index = passed args' index

/-- What takes `null` for nothing depends on what is passed. -/
theorem apply_passed {β : Type*} {g : Option Value → β} (hnull : g (some .null) = g none) :
    g args[index]? = g (passed args index) := by
  unfold passed
  split
  · next h => rw [h]
  · next h => rw [h, hnull]
  · next value h => rw [h]

theorem congr_passed {β : Type*} {g : Option Value → β} (hnull : g (some .null) = g none)
    (h : passed args index = passed args' index) : g args[index]? = g args'[index]? := by
  rw [apply_passed hnull, apply_passed hnull, h]

section Helpers

variable (h : passed args index = passed args' index)

include h

theorem opt_congr {T : Type} [DeserializeOwned T] :
    (opt args index : Option (Option T)) = opt args' index := by
  have hopt : ∀ args, (opt args index : Option (Option T)) = opt args[index]?.toList 0 := by
    intro args
    cases hvalue : args[index]? with
    | none => simp [opt, hvalue]
    | some value => simp [opt, hvalue]
  rw [hopt args, hopt args']
  exact congr_passed (g := fun value => opt value.toList 0) rfl h

theorem req_congr {T : Type} [DeserializeOwned T] :
    (req args index : Option T) = req args' index := by
  rw [req, req, opt_congr h]

theorem strAt_congr : strAt args index = strAt args' index :=
  congr_passed (g := fun value => value.bind Value.asStr) rfl h

theorem boolAt_congr : args[index]?.bind Value.asBool = args'[index]?.bind Value.asBool :=
  congr_passed (g := fun value => value.bind Value.asBool) rfl h

theorem arrayAt_congr : args[index]?.bind Value.asArray = args'[index]?.bind Value.asArray :=
  congr_passed (g := fun value => value.bind Value.asArray) rfl h

theorem stringsAt_congr : stringsAt args index = stringsAt args' index := by
  have hstrings : ∀ args, stringsAt args index = stringsAt args[index]?.toList 0 := by
    intro args
    cases hvalue : args[index]? with
    | none => simp [stringsAt, hvalue]
    | some value => simp [stringsAt, hvalue]
  rw [hstrings args, hstrings args']
  exact congr_passed (g := fun value => stringsAt value.toList 0) rfl h

end Helpers

theorem SameUpTo.mono {m : ℕ} (h : SameUpTo n args args') (hm : m ≤ n) :
    SameUpTo m args args' :=
  fun index hindex => h index (by omega)

/-- Whatever comes after the first `n` positions, the same is passed at them. -/
theorem sameUpTo_append (hn : n ≤ args.length) (extra : List Value) :
    SameUpTo n (args ++ extra) args := by
  intro index hindex
  unfold passed
  rw [List.getElem?_append_left (by omega)]

/-- After any number of `null`s at the end, the same is passed everywhere. -/
theorem sameUpTo_nulls (args : List Value) (count n : ℕ) :
    SameUpTo n (args ++ List.replicate count .null) args := by
  intro index _
  unfold passed
  rcases Nat.lt_or_ge index args.length with hlt | hge
  · rw [List.getElem?_append_left hlt]
  · rw [List.getElem?_append_right hge, List.getElem?_eq_none hge, List.getElem?_replicate]
    by_cases hcount : index - args.length < count
    · rw [if_pos hcount]
    · rw [if_neg hcount]

/-! ### The positions that are read -/

/-- How many positions a decoder reads, of the first ones: for `room-messages`, -/
def roomMessagesReads (eventName : String) : ℕ :=
  if eventName = "__my_messages__" then 2 else if eventName.isEmpty then 0 else 1

/-- for `notify-room`, by what follows the id of the room, -/
def roomEventReads : String → ℕ
  | "user-activity" => 2
  | "typing" => 2
  | "deleteMessage" => 1
  | "deleteMessageBulk" => 1
  | _ => 0

/-- for `notify-user`, by what follows the id of the user, -/
def userEventReads : String → ℕ
  | "message" => 1
  | "notification" => 1
  | "rooms-changed" => 2
  | "subscriptions-changed" => 2
  | "userData" => 1
  | "force_logout" => 1
  | _ => 0

/-- and for `notify-logged`. -/
def notifyLoggedReads : String → ℕ
  | "user-status" => 1
  | "Users:NameChanged" => 1
  | "roles-change" => 1
  | _ => 0

/-- How many positions the decoder of an event reads. -/
def reads (stream eventName : String) : ℕ :=
  match stripStream stream with
  | "room-messages" => roomMessagesReads eventName
  | "notify-room" => (splitKey eventName).elim 0 fun split => roomEventReads split.2
  | "notify-user" => (splitKey eventName).elim 0 fun split => userEventReads split.2
  | "notify-logged" => notifyLoggedReads eventName
  | _ => 0

/-- How many positions the inner tuple of `user-status` has. -/
def userStatusReads : ℕ := 8

variable {key : String}

theorem roomMessages_congr (h : SameUpTo (roomMessagesReads key) args args') :
    (roomMessages key args : Option (StreamEvent P)) = roomMessages key args' := by
  unfold roomMessagesReads at h
  unfold roomMessages
  split at h
  · next hkey =>
    rw [if_pos hkey, if_pos hkey, req_congr (h 0 (by omega)), opt_congr (h 1 (by omega))]
  · next hkey =>
    rw [if_neg hkey, if_neg hkey]
    split at h
    · next hempty => rw [if_pos hempty, if_pos hempty]
    · next hempty =>
      rw [if_neg hempty, if_neg hempty, req_congr (h 0 (by omega))]

theorem roomEvent_congr {room : RoomId} (h : SameUpTo (roomEventReads key) args args') :
    (roomEvent room key args : Option (StreamEvent P)) = roomEvent room key args' := by
  unfold roomEvent
  split
  · rw [strAt_congr (h 0 (by decide)), stringsAt_congr (h 1 (by decide))]
  · rw [strAt_congr (h 0 (by decide)), boolAt_congr (h 1 (by decide))]
  · rw [req_congr (h 0 (by decide))]
  · rw [req_congr (h 0 (by decide))]
  · rfl

theorem notifyRoom_congr (h : SameUpTo ((splitKey key).elim 0 fun split => roomEventReads split.2)
    args args') : (notifyRoom key args : Option (StreamEvent P)) = notifyRoom key args' := by
  unfold notifyRoom
  cases hsplit : splitKey key with
  | none => rfl
  | some split =>
    rw [hsplit] at h
    exact roomEvent_congr h

theorem userEvent_congr {user : UserId} (h : SameUpTo (userEventReads key) args args') :
    (userEvent user key args : Option (StreamEvent P)) = userEvent user key args' := by
  unfold userEvent
  split
  · rw [req_congr (h 0 (by decide))]
  · rw [req_congr (h 0 (by decide))]
  · rw [req_congr (h 0 (by decide)), req_congr (h 1 (by decide))]
  · rw [req_congr (h 0 (by decide)), req_congr (h 1 (by decide))]
  · rw [req_congr (h 0 (by decide))]
  · rw [opt_congr (h 0 (by decide))]
  · rfl

theorem notifyUser_congr (h : SameUpTo ((splitKey key).elim 0 fun split => userEventReads split.2)
    args args') : (notifyUser key args : Option (StreamEvent P)) = notifyUser key args' := by
  unfold notifyUser
  cases hsplit : splitKey key with
  | none => rfl
  | some split =>
    rw [hsplit] at h
    exact userEvent_congr h

/-- The tuple of `user-status` is read as the arguments are. -/
theorem userStatus_congr (h : SameUpTo userStatusReads tuple tuple') :
    (userStatus tuple : Option (UserStatusChange P)) = userStatus tuple' := by
  unfold userStatus
  rw [strAt_congr (h 0 (by decide)), opt_congr (h 1 (by decide)), req_congr (h 2 (by decide)),
    opt_congr (h 3 (by decide)), opt_congr (h 4 (by decide)), stringsAt_congr (h 5 (by decide)),
    opt_congr (h 6 (by decide)), opt_congr (h 7 (by decide))]

theorem notifyLogged_congr (h : SameUpTo (notifyLoggedReads key) args args') :
    (notifyLogged key args : Option (StreamEvent P)) = notifyLogged key args' := by
  unfold notifyLogged
  split
  · rw [List.head?_eq_getElem?, List.head?_eq_getElem?, arrayAt_congr (h 0 (by decide))]
  · rw [req_congr (h 0 (by decide))]
  · rw [req_congr (h 0 (by decide))]
  · rfl

/-- **The decoder sees what is passed at the positions it reads**, and no more. -/
theorem tryDecode_congr {stream : String} (h : SameUpTo (reads stream key) args args') :
    (tryDecode stream key args : Option (StreamEvent P)) = tryDecode stream key args' := by
  unfold tryDecode
  split
  · next hstream =>
    rw [reads, hstream] at h
    exact roomMessages_congr h
  · next hstream =>
    rw [reads, hstream] at h
    exact notifyRoom_congr h
  · next hstream =>
    rw [reads, hstream] at h
    exact notifyUser_congr h
  · next hstream =>
    rw [reads, hstream] at h
    exact notifyLogged_congr h
  · rfl

/-! ### The laws -/

/-- Two decoded events are both typed, and equal, or neither is typed. -/
def Alike (e e' : StreamEvent P) : Prop :=
  e.isUnknown = e'.isUnknown ∧ (e'.isUnknown = false → e = e')

theorem alike_of_tryDecode {stream : String}
    (h : (tryDecode stream key args : Option (StreamEvent P)) = tryDecode stream key args') :
    Alike (decode stream key args : StreamEvent P) (decode stream key args') := by
  unfold decode
  rw [h]
  cases (tryDecode stream key args' : Option (StreamEvent P)) with
  | none => exact ⟨rfl, fun hknown => by cases hknown⟩
  | some e => exact ⟨rfl, fun _ => rfl⟩

theorem alike_of_sameUpTo {stream : String} (h : SameUpTo (reads stream key) args args') :
    Alike (decode stream key args : StreamEvent P) (decode stream key args') :=
  alike_of_tryDecode (tryDecode_congr h)

/-- A change of presence is decoded by what its tuple has at the positions that are read. -/
theorem alike_of_tuple {stream : String} {rest : List Value}
    (hstream : stripStream stream = "notify-logged") (h : SameUpTo userStatusReads tuple tuple') :
    Alike (decode stream "user-status" (.array tuple :: rest) : StreamEvent P)
      (decode stream "user-status" (.array tuple' :: rest)) := by
  apply alike_of_tryDecode
  unfold tryDecode
  rw [hstream]
  show (userStatus tuple).bind _ = (userStatus tuple').bind _
  rw [userStatus_congr h]

/-- **The laws of leniency**, for an event of a stream and a list of arguments. -/
structure Lenient (P : Payloads) (stream key : String) (args : List Value) : Prop where
  /-- Values at positions beyond those that are read change nothing, -/
  extra : ∀ extra, reads stream key ≤ args.length →
    Alike (decode stream key (args ++ extra) : StreamEvent P) (decode stream key args)
  /-- nor do `null`s at the end, wherever that is. -/
  nulls : ∀ count,
    Alike (decode stream key (args ++ List.replicate count .null) : StreamEvent P)
      (decode stream key args)
  /-- The same holds of values at the end of the tuple of `user-status`, -/
  tupleExtra : stripStream stream = "notify-logged" → key = "user-status" →
    ∀ tuple rest extra, args = .array tuple :: rest → userStatusReads ≤ tuple.length →
    Alike (decode stream key (.array (tuple ++ extra) :: rest) : StreamEvent P)
      (decode stream key args)
  /-- and of `null`s there. -/
  tupleNulls : stripStream stream = "notify-logged" → key = "user-status" →
    ∀ tuple rest count, args = .array tuple :: rest →
    Alike (decode stream key (.array (tuple ++ List.replicate count .null) :: rest) :
      StreamEvent P) (decode stream key args)

/-- **The decoder is lenient.** -/
theorem decode_lenient (P : Payloads) (stream key : String) (args : List Value) :
    Lenient P stream key args where
  extra := fun extra hlength => alike_of_sameUpTo (sameUpTo_append hlength extra)
  nulls := fun count => alike_of_sameUpTo (sameUpTo_nulls args count _)
  tupleExtra := by
    rintro hstream rfl tuple rest extra rfl hlength
    exact alike_of_tuple hstream (sameUpTo_append hlength extra)
  tupleNulls := by
    rintro hstream rfl tuple rest count rfl
    exact alike_of_tuple hstream (sameUpTo_nulls tuple count _)

example : decode "stream-notify-user" "u1/force_logout" [.null, .bool true] =
    (.forceLogout ⟨"u1"⟩ none : StreamEvent P) := by rfl

end RocketSocket.Events
