import RocketSocket.Model.Schema

/-!
# The members the cache reads

The entities with only some members of their own decode where the structs of all members do.
Of the members they do not read they look at the dates alone: nothing else that is written may
fail to be read back.

## Main definitions

* `Codec.Judged`, `Member.Judged` — a test fails on what is read, and holds of a date that is
  written out of range.
* `Schema.Dated` — where the dates of a struct are.
* `Entity.decodes` — the entity is read from an object.

## Main results

* `Schema.Dated.merged` — the object of a merge decodes just if no date in it is late.
* `Room.ofObject_of_schema` and its like — what decodes as the struct decodes as the entity.
* `decodes_merged_iff` — **the entity decodes from the object of a merge just if its struct
  does.**
-/

namespace RocketSocket

open Machine

/-! ### Tests for dates -/

section Judged

variable {α : Type} {parse : String → Option Timestamp} {late : Value → Bool} {v : Value}

/-- The test fails on every value that is read, and on a value that is written only if its dates
are in range. -/
structure Codec.Judged (codec : Codec α) (late : Value → Bool) : Prop where
  read : ∀ {v a}, codec.read v = some a → late v = false
  written : ∀ {v a}, codec.read v = some a → late (codec.write a) = false →
    ∀ t ∈ codec.instants a, t.InRange

/-- The same of a member, if it is there. -/
structure Member.Judged (member : Member) (late : Value → Bool) : Prop where
  read : ∀ {m c}, member.read m = some c → m.any late = false
  written : ∀ {m c}, member.read m = some c → (member.write c).any late = false →
    ∀ t ∈ member.instants c, t.InRange

theorem visit_of_isLate (h : v.isLate = true) : Timestamp.visit parse v = none := by
  unfold Value.isLate at h
  split at h
  · next key millis =>
    obtain ⟨hkey, hnone⟩ := Bool.and_eq_true_iff.mp h
    have hmillis : (Value.int millis).asI64.bind Timestamp.fromUnixMillis = none := by
      rw [Value.asI64]
      split
      · exact Option.isNone_iff_eq_none.mp hnone
      · rfl
    rw [Timestamp.visit, Timestamp.visitMap, if_pos (beq_iff_eq.mp hkey), Timestamp.visit, hmillis]
    rfl
  · cases h

theorem isLate_of_visit {found : Option Timestamp} (h : Timestamp.visit parse v = some found) :
    v.isLate = false := by
  rw [Bool.eq_false_iff]
  intro hlate
  rw [visit_of_isLate hlate] at h
  cases h

theorem inRange_of_isLate {t : Timestamp} (h : t.toValue.isLate = false) : t.InRange := by
  have hsome : (Timestamp.fromUnixMillis t.unixMillis).isNone = false := h
  rw [← Timestamp.fromUnixMillis_unixMillis_isSome, ← Option.not_isNone, hsome]
  rfl

theorem judged_timestamp : (Codec.timestamp parse).Judged Value.isLate where
  read h := by
    cases hvisit : Timestamp.visit parse _ with
    | none =>
      have hnone : Timestamp.ofValue parse _ = none := congrArg Option.join hvisit
      exact absurd (h.symm.trans hnone) (Option.some_ne_none _)
    | some found => exact isLate_of_visit hvisit
  written _ hwritten t ht := by
    obtain rfl := List.mem_singleton.mp ht
    exact inRange_of_isLate hwritten

theorem judged_optionalDate {key : String} :
    (Member.optionalDate parse key).Judged Value.isLate where
  read {m c} h := by
    cases m with
    | none => rfl
    | some v => exact isLate_of_visit h
  written {m c} _ hwritten t ht := by
    cases c with
    | none => cases ht
    | some t' =>
      obtain rfl := List.mem_singleton.mp ht
      exact inRange_of_isLate hwritten

theorem judged_required {codec : Codec α} {key : String} (h : codec.Judged late) :
    (Member.required key codec).Judged late where
  read {m c} hread := by
    obtain ⟨v, rfl, hv⟩ := Option.bind_eq_some_iff.mp hread
    exact h.read hv
  written {m c} hread hwritten := by
    obtain ⟨v, -, hv⟩ := Option.bind_eq_some_iff.mp hread
    exact h.written hv hwritten

theorem judged_optional {codec : Codec α} {key : String} (h : codec.Judged late)
    (hnull : late .null = false) : (Member.optional key codec).Judged late where
  read {m c} hread := by
    cases m with
    | none => rfl
    | some v =>
      cases hv : v.isNull with
      | true =>
        cases v with
        | null => exact hnull
        | _ => cases hv
      | false =>
        change optionalMember codec.read (some v) = some c at hread
        rw [Member.optionalMember_of_nonnull hv] at hread
        obtain ⟨a, ha, -⟩ := Option.map_eq_some_iff.mp hread
        exact h.read ha
  written {m c} hread hwritten t ht := by
    cases c with
    | none => cases ht
    | some a =>
      obtain ⟨v, -, hv⟩ := Member.read_of_optionalMember hread
      exact h.written hv hwritten t ht

theorem judged_list {codec : Codec α} {keys : List String}
    (h : codec.Judged (Value.lateMember keys)) :
    (Codec.list codec).Judged (Value.lateEntry keys) where
  read {v l} hread := by
    obtain ⟨items, hitems, hl⟩ := Option.bind_eq_some_iff.mp hread
    cases v with
    | array items' =>
      obtain rfl := Option.some.inj hitems
      have hall := Codec.mapM_isSome.mp (Option.isSome_of_eq_some hl)
      refine List.any_eq_false.mpr fun item hitem => ?_
      obtain ⟨a, ha⟩ := Option.isSome_iff_exists.mp (hall item hitem)
      rw [h.read ha]
      exact Bool.false_ne_true
    | _ => rfl
  written {v l} hread hwritten := by
    have hentries : ∀ a ∈ l, Value.lateMember keys (codec.write a) = false := by
      intro a ha
      exact Bool.eq_false_iff.mpr
        (List.any_eq_false.mp hwritten (codec.write a) (List.mem_map_of_mem ha))
    change ∀ t ∈ l.flatMap codec.instants, t.InRange
    rw [List.forall_mem_flatMap]
    intro a ha
    obtain ⟨item, hitem⟩ := Codec.exists_of_asListOf hread a ha
    exact h.written hitem (hentries a ha)

end Judged

/-! ### Where the dates are -/

/-- The member holds no dates. -/
def Member.Timeless (member : Member) : Prop := ∀ c, member.instants c = []

/-- The member holds no dates, or is listed with a test for them. -/
def Member.Told (dates : List (String × (Value → Bool))) (member : Member) : Prop :=
  member.Timeless ∨ ∃ date ∈ dates, date.1 = member.key ∧ member.Judged date.2

/-- What is listed are members with tests for their dates, and the others hold none. -/
structure Schema.Dated (s : Schema) (dates : List (String × (Value → Bool))) : Prop where
  listed : ∀ date ∈ dates, ∃ member ∈ s.members, member.key = date.1 ∧ member.Judged date.2
  others : ∀ member ∈ s.members, member.Told dates

namespace Schema.Dated

variable {s : Schema} {dates : List (String × (Value → Bool))} {f : String → Option Value}
  {c i d : Doc s}

/-- Where the members are read no date is late. -/
theorem read (hs : s.Dated dates)
    (hread : (Record.read fun j => f (s.field j).key) = some d) :
    ∀ date ∈ dates, (f date.1).any date.2 = false := by
  intro date hdate
  obtain ⟨member, hmember, hkey, hjudged⟩ := hs.listed date hdate
  obtain ⟨j, rfl⟩ := List.mem_iff_get.mp hmember
  have hj := hjudged.read (Record.read_eq_some.mp hread j)
  rwa [show (s.field j).key = date.1 from hkey] at hj

/-- Where a member is written and no date is late its dates are in range. -/
theorem written (hs : s.Dated dates) (hlate : ∀ date ∈ dates, (f date.1).any date.2 = false)
    (hd : d.Decoded) {j : Fin s.members.length}
    (hj : f (s.field j).key = (s.field j).write (d j)) :
    ∀ t ∈ (s.members.get j).instants (d j), t.InRange := by
  obtain ⟨members, hread⟩ := hd
  rcases hs.others (s.members.get j) (List.get_mem _ j) with hnone | ⟨date, hdate, hkey, hjudged⟩
  · have hempty : (s.members.get j).instants (d j) = [] := hnone (d j)
    rw [hempty]
    exact List.forall_mem_nil _
  · refine hjudged.written (Record.read_eq_some.mp hread j) ?_
    have hdate := hlate date hdate
    rwa [hkey, show f (s.members.get j).key = _ from hj] at hdate

end Schema.Dated

theorem judged_struct {s : Schema} {keys : List String}
    (hs : s.Dated (keys.map (·, Value.isLate))) : s.codec.Judged (Value.lateMember keys) where
  read {v d} hread := by
    obtain ⟨look, hlook, hread⟩ := Option.bind_eq_some_iff.mp hread
    cases v with
    | object members =>
      obtain rfl := Option.some.inj (Option.ite_none_right_eq_some.mp hlook).2
      refine List.any_eq_false.mpr fun key hkey => ?_
      exact Bool.eq_false_iff.mp (hs.read (f := fun name => members.lookup name) hread
        (key, Value.isLate) (List.mem_map_of_mem hkey))
    | _ => rfl
  written {v d} hread hwritten := by
    change ∀ t ∈ d.instants, t.InRange
    rw [Doc.forall_instants]
    intro j
    refine hs.written (f := fun key => d.write.lookup key) ?_
      (Schema.decoded_of_readStruct hread) (Record.lookup_write s.field_key_injective d j)
    intro date hdate
    obtain ⟨key, hkey, rfl⟩ := List.mem_map.mp hdate
    exact Bool.eq_false_iff.mpr (List.any_eq_false.mp hwritten key hkey)

/-! ### Merges -/

namespace Schema.Dated

variable {s : Schema} {dates : List (String × (Value → Bool))} {c i : Doc s} {o : Object}

/-- What decodes has no late date. -/
theorem not_late (hs : s.Dated dates) {d : Doc s} (h : Document.ofObject o = some d) :
    o.late dates = false := by
  refine List.any_eq_false.mpr fun date hdate => Bool.eq_false_iff.mp ?_
  exact hs.read (f := fun key => o.lookup key) h date hdate

/-- **The object of a merge decodes just if no date in it is late.** -/
theorem merged (hs : s.Dated dates) (hc : c.Decoded) (hi : i.Decoded) :
    (Document.ofObject (i.toTable ∪ c.toTable) : Option (Doc s)).isSome ↔
      Object.late dates (i.toTable ∪ c.toTable) = false := by
  constructor
  · intro h
    obtain ⟨d, hd⟩ := Option.isSome_iff_exists.mp h
    exact hs.not_late hd
  · intro hlate
    have hdates : ∀ date ∈ dates,
        ((i.toTable ∪ c.toTable : Object).lookup date.1).any date.2 = false :=
      fun date hdate => Bool.eq_false_iff.mpr (List.any_eq_false.mp hlate date hdate)
    refine Record.read_isSome.mpr fun j => ?_
    have hlookup : (i.toTable ∪ c.toTable : Object).lookup (s.field j).key =
        ((s.field j).write (i j)).or ((s.field j).write (c j)) := by
      rw [Finmap.lookup_union_eq, Record.lookup_toTable s.field_key_injective,
        Record.lookup_toTable s.field_key_injective]
    rw [hlookup]
    -- The member is that of the payload, or of the cached document, or there is none.
    cases hwrite : (s.field j).write (i j) with
    | some value =>
      rw [hwrite, Option.some_or, ← hwrite] at hlookup
      rw [Option.some_or, ← hwrite, Doc.member_rereads hi j]
      exact hs.written (f := fun key => (i.toTable ∪ c.toTable : Object).lookup key) hdates hi
        hlookup
    | none =>
      rw [hwrite, Option.none_or] at hlookup
      rw [Option.none_or, Doc.member_rereads hc j]
      exact hs.written (f := fun key => (i.toTable ∪ c.toTable : Object).lookup key) hdates hc
        hlookup

end Schema.Dated

/-! ### The dates of the entities -/

section Timeless

variable {α : Type} {codec : Codec α} {key : String}

/-- The values of the type hold no dates. -/
def Codec.Timeless (codec : Codec α) : Prop := ∀ a, codec.instants a = []

@[simp] theorem timeless_string : Codec.string.Timeless := fun _ => rfl

@[simp] theorem timeless_bool : Codec.bool.Timeless := fun _ => rfl

@[simp] theorem timeless_i64 : Codec.i64.Timeless := fun _ => rfl

@[simp] theorem timeless_f64 : Codec.f64.Timeless := fun _ => rfl

@[simp] theorem timeless_value : Codec.value.Timeless := fun _ => rfl

@[simp] theorem timeless_wireEnum (known : List String) : (Codec.wireEnum known).Timeless :=
  fun _ => rfl

@[simp] theorem timeless_nullableStrings : Codec.nullableStrings.Timeless := fun _ => rfl

@[simp] theorem timeless_sysMes : Codec.sysMes.Timeless := fun _ => rfl

@[simp] theorem timeless_rolePrioritiesCreated : Codec.rolePrioritiesCreated.Timeless :=
  fun _ => rfl

@[simp] theorem timeless_list (h : codec.Timeless) : (Codec.list codec).Timeless := by
  intro l
  exact List.flatMap_eq_nil_iff.mpr fun a _ => h a

@[simp] theorem timeless_map (h : codec.Timeless) : (Codec.map codec).Timeless := by
  intro l
  exact List.flatMap_eq_nil_iff.mpr fun e _ => h e.2

@[simp] theorem timeless_required (h : codec.Timeless) : (Member.required key codec).Timeless := h

@[simp] theorem timeless_optional (h : codec.Timeless) :
    (Member.optional key codec).Timeless := by
  intro c
  cases c with
  | none => rfl
  | some a => exact h a

@[simp] theorem timeless_defaulted {codec : Codec (List α)} {hempty : Member.KeepsEmpty codec}
    (h : codec.Timeless) : (Member.defaulted key codec hempty).Timeless := h

@[simp] theorem timeless_skipped {codec : Codec (List α)} {hempty : Member.KeepsEmpty codec}
    (h : codec.Timeless) : (Member.skipped key codec hempty).Timeless := h

theorem timeless_struct {s : Schema} (h : ∀ member ∈ s.members, member.Timeless) :
    s.codec.Timeless := by
  intro d
  refine List.flatMap_eq_nil_iff.mpr fun j _ => ?_
  exact h (s.members.get j) (List.get_mem _ j) (d j)

end Timeless

namespace Schema

@[simp] theorem timeless_userRef : userRef.codec.Timeless :=
  timeless_struct (by simp [userRef, userRefMembers])

@[simp] theorem timeless_messageMention : messageMention.codec.Timeless :=
  timeless_struct (by simp [messageMention, messageMentionMembers])

@[simp] theorem timeless_channelMention : channelMention.codec.Timeless :=
  timeless_struct (by simp [channelMention, channelMentionMembers])

@[simp] theorem timeless_urlHeaders : urlHeaders.codec.Timeless :=
  timeless_struct (by simp [urlHeaders, urlHeadersMembers])

@[simp] theorem timeless_messageUrl : messageUrl.codec.Timeless :=
  timeless_struct (by simp [messageUrl, messageUrlMembers])

@[simp] theorem timeless_reaction : reaction.codec.Timeless :=
  timeless_struct (by simp [reaction, reactionMembers])

@[simp] theorem timeless_star : star.codec.Timeless :=
  timeless_struct (by simp [star, starMembers])

@[simp] theorem timeless_messageFile : messageFile.codec.Timeless :=
  timeless_struct (by simp [messageFile, messageFileMembers])

@[simp] theorem timeless_announcementDetails : announcementDetails.codec.Timeless :=
  timeless_struct (by simp [announcementDetails, announcementDetailsMembers])

@[simp] theorem timeless_userEmail : userEmail.codec.Timeless :=
  timeless_struct (by simp [userEmail, userEmailMembers])

end Schema

section Told

variable {α : Type} {parse : String → Option Timestamp} {codec : Codec α} {key : String}
  {dates : List (String × (Value → Bool))}

@[simp] theorem told_required (h : codec.Timeless) : (Member.required key codec).Told dates :=
  .inl (timeless_required h)

@[simp] theorem told_optional (h : codec.Timeless) : (Member.optional key codec).Told dates :=
  .inl (timeless_optional h)

@[simp] theorem told_timestamp (h : (key, Value.isLate) ∈ dates) :
    (Member.required key (Codec.timestamp parse)).Told dates :=
  .inr ⟨_, h, rfl, judged_required judged_timestamp⟩

@[simp] theorem told_optionalDate (h : (key, Value.isLate) ∈ dates) :
    (Member.optionalDate parse key).Told dates :=
  .inr ⟨_, h, rfl, judged_optionalDate⟩

/-- A member with dates inside. -/
theorem told_nested {late : Value → Bool} (hcodec : codec.Judged late)
    (hnull : late .null = false) (h : (key, late) ∈ dates) :
    (Member.optional key codec).Told dates :=
  .inr ⟨_, h, rfl, judged_optional hcodec hnull⟩

end Told

namespace Schema

/-- A member at some place of the schema is listed. -/
theorem listed_at {s : Schema} {late : Value → Bool} {key : String} {member : Member} (n : ℕ)
    (h : s.members[n]? = some member) (hkey : member.key = key) (hjudged : member.Judged late) :
    ∃ member ∈ s.members, member.key = key ∧ member.Judged late :=
  ⟨member, List.mem_of_getElem? h, hkey, hjudged⟩

variable (parse : String → Option Timestamp)

theorem user_dated : (user parse).Dated User.dates where
  listed := by
    intro date hdate
    simp only [User.dates, List.mem_cons, List.not_mem_nil, or_false] at hdate
    rcases hdate with rfl | rfl | rfl | rfl
    · exact listed_at 1 rfl rfl judged_optionalDate
    · exact listed_at 2 rfl rfl judged_optionalDate
    · exact listed_at 16 rfl rfl judged_optionalDate
    · exact listed_at 18 rfl rfl judged_optionalDate
  others := by
    simp [user, userMembers, User.dates]

theorem message_dated : (message parse).Dated Message.dates where
  listed := by
    intro date hdate
    simp only [Message.dates, Message.dateKeys, List.map_cons, List.map_nil, List.mem_cons,
      List.not_mem_nil, or_false] at hdate
    rcases hdate with rfl | rfl | rfl | rfl | rfl | rfl
    · exact listed_at 1 rfl rfl (judged_required judged_timestamp)
    · exact listed_at 4 rfl rfl (judged_required judged_timestamp)
    · exact listed_at 7 rfl rfl judged_optionalDate
    · exact listed_at 21 rfl rfl judged_optionalDate
    · exact listed_at 25 rfl rfl judged_optionalDate
    · exact listed_at 30 rfl rfl judged_optionalDate
  others := by
    simp [message, messageMembers, Message.dates, Message.dateKeys]

theorem room_dated : (room parse).Dated Room.dates where
  listed := by
    intro date hdate
    simp only [Room.dates, List.mem_cons, List.not_mem_nil, or_false] at hdate
    rcases hdate with rfl | rfl | rfl | rfl | rfl | rfl
    · exact listed_at 1 rfl rfl (judged_required judged_timestamp)
    · exact listed_at 28 rfl rfl (judged_optional (judged_struct (message_dated parse)) rfl)
    · exact listed_at 29 rfl rfl judged_optionalDate
    · exact listed_at 30 rfl rfl judged_optionalDate
    · exact listed_at 31 rfl rfl judged_optionalDate
    · exact listed_at 57 rfl rfl judged_optionalDate
  others := by
    have hlast : (Member.optional "lastMessage" (message parse).codec).Told Room.dates :=
      told_nested (judged_struct (message_dated parse)) rfl (by simp [Room.dates])
    simpa [room, roomMembers, Room.dates] using hlast

theorem oldRoomKey_dated : (oldRoomKey parse).Dated (["ts"].map (·, Value.isLate)) where
  listed := by
    intro date hdate
    simp only [List.map_cons, List.map_nil, List.mem_cons, List.not_mem_nil, or_false] at hdate
    rcases hdate with rfl
    · exact listed_at 1 rfl rfl judged_optionalDate
  others := by
    simp [oldRoomKey, oldRoomKeyMembers]

theorem subscription_dated : (subscription parse).Dated Subscription.dates where
  listed := by
    intro date hdate
    simp only [Subscription.dates, List.mem_cons, List.not_mem_nil, or_false] at hdate
    have hkeys := judged_list (judged_struct (oldRoomKey_dated parse))
    rcases hdate with rfl | rfl | rfl | rfl | rfl | rfl | rfl
    · exact listed_at 1 rfl rfl (judged_required judged_timestamp)
    · exact listed_at 5 rfl rfl (judged_required judged_timestamp)
    · exact listed_at 13 rfl rfl judged_optionalDate
    · exact listed_at 14 rfl rfl judged_optionalDate
    · exact listed_at 30 rfl rfl (judged_optional hkeys rfl)
    · exact listed_at 31 rfl rfl (judged_optional hkeys rfl)
    · exact listed_at 56 rfl rfl judged_optionalDate
  others := by
    have hkeys := judged_list (judged_struct (oldRoomKey_dated parse))
    have hold : (Member.optional "oldRoomKeys" (.list (oldRoomKey parse).codec)).Told
        Subscription.dates := told_nested hkeys rfl (by simp [Subscription.dates])
    have hsuggested : (Member.optional "suggestedOldRoomKeys"
        (.list (oldRoomKey parse).codec)).Told Subscription.dates :=
      told_nested hkeys rfl (by simp [Subscription.dates])
    simpa [subscription, subscriptionMembers, Subscription.dates] using ⟨hold, hsuggested⟩

end Schema

/-! ### The entities -/

section Read

variable {α β : Type} {o : Object} {k : String} {read : Value → Option α}
  {read' : Value → Option β} {c : Option α}

theorem optional_of_optionalMember (hread : ∀ v a, read v = some a → (read' v).isSome)
    (h : optionalMember read (o.lookup k) = some c) : ∃ c', o.optional k read' = some c' := by
  unfold Object.optional
  cases hk : o.lookup k with
  | none => exact ⟨none, rfl⟩
  | some v =>
    rw [hk] at h
    cases hnull : v.isNull with
    | true => exact ⟨none, by simp [hnull]⟩
    | false =>
      rw [Member.optionalMember_of_nonnull hnull] at h
      obtain ⟨a, ha, -⟩ := Option.map_eq_some_iff.mp h
      obtain ⟨b, hb⟩ := Option.isSome_iff_exists.mp (hread v a ha)
      exact ⟨some b, by simp [hnull, hb]⟩

theorem isSome_of_read (v : Value) (a : α) (h : read v = some a) : (read v).isSome := by
  rw [h]
  rfl

end Read

section Coarse

variable {parse : String → Option Timestamp} {o : Object}

theorem Room.ofObject_of_schema {d : Doc (Schema.room parse)}
    (h : Document.ofObject o = some d) :
    ∃ r : Room, Document.ofObject o = some r ∧ r.id.text = d (0 : Fin 72) := by
  have hread := Record.read_eq_some.mp h
  obtain ⟨id, hid, hd⟩ : ∃ id : String, o.required "_id" = some id ∧ id = d (0 : Fin 72) :=
    ⟨_, hread (0 : Fin 72), rfl⟩
  obtain ⟨name, hname⟩ : ∃ c, o.optional "name" Value.asStr = some c :=
    optional_of_optionalMember isSome_of_read (hread (3 : Fin 72))
  have hlate := (Schema.room_dated parse).not_late h
  simp only [Document.ofObject, hlate, hid, hname, Bool.false_eq_true, if_false,
    Option.bind_eq_bind, Option.bind_some]
  exact ⟨_, rfl, hd⟩

theorem User.ofObject_of_schema {d : Doc (Schema.user parse)}
    (h : Document.ofObject o = some d) :
    ∃ u : User, Document.ofObject o = some u ∧ u.id.text = d (0 : Fin 45) := by
  have hread := Record.read_eq_some.mp h
  obtain ⟨id, hid, hd⟩ : ∃ id : String, o.required "_id" = some id ∧ id = d (0 : Fin 45) :=
    ⟨_, hread (0 : Fin 45), rfl⟩
  obtain ⟨username, husername⟩ : ∃ c, o.optional "username" Value.asStr = some c :=
    optional_of_optionalMember isSome_of_read (hread (3 : Fin 45))
  have hlate := (Schema.user_dated parse).not_late h
  simp only [Document.ofObject, hlate, hid, husername, Bool.false_eq_true, if_false,
    Option.bind_eq_bind, Option.bind_some]
  exact ⟨_, rfl, hd⟩

theorem Subscription.ofObject_of_schema {d : Doc (Schema.subscription parse)}
    (h : Document.ofObject o = some d) :
    ∃ s : Subscription, Document.ofObject o = some s ∧ s.rid.text = d (2 : Fin 58) := by
  obtain ⟨rid, hrid, hd⟩ : ∃ rid : String, o.required "rid" = some rid ∧ rid = d (2 : Fin 58) :=
    ⟨_, Record.read_eq_some.mp h (2 : Fin 58), rfl⟩
  have hlate := (Schema.subscription_dated parse).not_late h
  simp only [Document.ofObject, hlate, hrid, Bool.false_eq_true, if_false,
    Option.bind_eq_bind, Option.bind_some]
  exact ⟨_, rfl, hd⟩

theorem Message.ofObject_of_schema {d : Doc (Schema.message parse)}
    (h : Document.ofObject o = some d) :
    ∃ m : Message, Document.ofObject o = some m ∧ m.id.text = d (0 : Fin 45) ∧
      m.rid.text = d (2 : Fin 45) := by
  have hread := Record.read_eq_some.mp h
  obtain ⟨id, hid, hd⟩ : ∃ id : String, o.required "_id" = some id ∧ id = d (0 : Fin 45) :=
    ⟨_, hread (0 : Fin 45), rfl⟩
  obtain ⟨rid, hrid, hd'⟩ : ∃ rid : String, o.required "rid" = some rid ∧ rid = d (2 : Fin 45) :=
    ⟨_, hread (2 : Fin 45), rfl⟩
  -- Any text is a type, if need be an unknown one.
  have htype : ∀ v e, (Codec.wireEnum WireValues.messageType).read v = some e →
      (v.asStr.map MessageType.ofStr).isSome := by
    intro v e he
    obtain ⟨wire, hwire, -⟩ := Option.map_eq_some_iff.mp he
    rw [hwire]
    rfl
  obtain ⟨t, ht⟩ := optional_of_optionalMember (k := "t") htype (hread (6 : Fin 45))
  -- A date is kept as it came, if there is one.
  obtain ⟨editedAt, hedited⟩ : ∃ c, o.optional "editedAt" (fun v =>
      some ({ value := v } : Datum)) = some c := by
    unfold Object.optional
    cases o.lookup "editedAt" with
    | none => exact ⟨none, rfl⟩
    | some v =>
      cases hnull : v.isNull with
      | true => exact ⟨none, by simp [hnull]⟩
      | false => exact ⟨some { value := v }, by simp [hnull]⟩
  -- What the schema reads holds no date out of range.
  have hlate := (Schema.message_dated parse).not_late h
  simp only [Document.ofObject, hlate, hid, hrid, ht, hedited, Bool.false_eq_true, if_false,
    Option.bind_eq_bind, Option.bind_some]
  exact ⟨_, rfl, hd, hd'⟩

end Coarse

/-- The dates of an entity. -/
def Entity.dates : Entity → List (String × (Value → Bool))
  | .room => Room.dates
  | .user => User.dates
  | .subscription => Subscription.dates
  | .message => Message.dates

/-- The entity is read from an object. -/
def Entity.decodes (o : Object) : Entity → Bool
  | .room => (Document.ofObject o : Option Room).isSome
  | .user => (Document.ofObject o : Option User).isSome
  | .subscription => (Document.ofObject o : Option Subscription).isSome
  | .message => (Document.ofObject o : Option Message).isSome

section Entities

variable {parse : String → Option Timestamp} {entity : Entity} {o : Object}

theorem Entity.dated (parse : String → Option Timestamp) (entity : Entity) :
    (entity.schema parse).Dated entity.dates := by
  cases entity with
  | room => exact Schema.room_dated parse
  | user => exact Schema.user_dated parse
  | subscription => exact Schema.subscription_dated parse
  | message => exact Schema.message_dated parse

/-- What decodes as the struct decodes as the entity. -/
theorem Entity.decodes_of_schema {d : Doc (entity.schema parse)}
    (h : Document.ofObject o = some d) : entity.decodes o = true := by
  cases entity with
  | room =>
    obtain ⟨r, hr, -⟩ := Room.ofObject_of_schema h
    exact Option.isSome_of_eq_some hr
  | user =>
    obtain ⟨u, hu, -⟩ := User.ofObject_of_schema h
    exact Option.isSome_of_eq_some hu
  | subscription =>
    obtain ⟨s, hs, -⟩ := Subscription.ofObject_of_schema h
    exact Option.isSome_of_eq_some hs
  | message =>
    obtain ⟨m, hm, -⟩ := Message.ofObject_of_schema h
    exact Option.isSome_of_eq_some hm

/-- What decodes as the entity has no late date. -/
theorem Entity.not_late_of_decodes (h : entity.decodes o = true) :
    o.late entity.dates = false := by
  rw [Bool.eq_false_iff]
  intro hlate
  cases entity with
  | room =>
    rw [Entity.decodes, show (Document.ofObject o : Option Room) = none from if_pos hlate] at h
    cases h
  | user =>
    rw [Entity.decodes, show (Document.ofObject o : Option User) = none from if_pos hlate] at h
    cases h
  | subscription =>
    rw [Entity.decodes, show (Document.ofObject o : Option Subscription) = none from
      if_pos hlate] at h
    cases h
  | message =>
    rw [Entity.decodes, show (Document.ofObject o : Option Message) = none from if_pos hlate] at h
    cases h

/-- **The entity decodes from the object of a merge just if its struct does**, so that a merge
falls back on the payload where the merge of the whole documents does. -/
theorem decodes_merged_iff {c i : Doc (entity.schema parse)} (hc : c.Decoded) (hi : i.Decoded) :
    entity.decodes (i.toTable ∪ c.toTable) = true ↔
      (Document.ofObject (i.toTable ∪ c.toTable) : Option (Doc (entity.schema parse))).isSome := by
  constructor
  · intro h
    exact ((entity.dated parse).merged hc hi).mpr (Entity.not_late_of_decodes h)
  · intro h
    obtain ⟨d, hd⟩ := Option.isSome_iff_exists.mp h
    exact Entity.decodes_of_schema hd

end Entities

end RocketSocket
