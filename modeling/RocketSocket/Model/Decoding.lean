import RocketSocket.Model.Frames

/-!
# Every frame of the server decodes

A frame that is no variant is kept whole, and a frame read back is the same frame.  But a tag
that is a whole number is taken for the place of a variant, so a frame may be read as one whose
`msg` is no string.

## Main definitions

* `JsonObject` — an object as JSON has it: no two members under one key, inside of it either.
* `Fits` — an object has the tag of a variant, and its members fit the fields.
* `DecodesWell` — what decoding makes of an object.
* `ByPlace` — the tag of an object is the place of a variant that its members fit.

## Main results

* `decodesWell_iff` — **an object decodes well**, just if its tag is not the place of a variant.
* `not_decodesWell` — `{"msg": 2}` is read as a `ping`.
-/

namespace RocketSocket

open TaggedUnion

/-- No object in the value has two members under one key. -/
inductive Value.Distinct : Value → Prop
  | null : Distinct .null
  | bool (b : Bool) : Distinct (.bool b)
  | int (n : ℤ) : Distinct (.int n)
  | float (bits : UInt64) : Distinct (.float bits)
  | string (s : String) : Distinct (.string s)
  | array {items : List Value} : (∀ item ∈ items, Distinct item) → Distinct (.array items)
  | object {members : Members} : (members.map Prod.fst).Nodup →
      (∀ member ∈ members, Distinct member.2) → Distinct (.object members)

/-- An object as JSON has it. -/
structure JsonObject where
  members : Members
  distinct : (Value.object members).Distinct

theorem JsonObject.parts (o : JsonObject) :
    (o.members.map Prod.fst).Nodup ∧ ∀ member ∈ o.members, member.2.Distinct := by
  obtain ⟨members, hdistinct⟩ := o
  cases hdistinct with
  | object hnodup hmembers => exact ⟨hnodup, hmembers⟩

namespace Value

/-- A member of an object. -/
theorem distinct_of_lookup {o : Members} {k : String} (h : ∀ member ∈ o, member.2.Distinct) :
    ∀ v ∈ o.lookup k, v.Distinct := by
  intro v hv
  obtain ⟨front, back, rfl, -⟩ := List.lookup_eq_some_iff.1 hv
  exact h (k, v) (List.mem_append_right front List.mem_cons_self)

/-- A member that is a string, -/
theorem distinct_string (x : Option String) : ∀ v ∈ x.map Value.string, v.Distinct := by
  intro v hv
  obtain ⟨s, -, rfl⟩ := Option.map_eq_some_iff.1 hv
  exact .string s

/-- or a list of strings. -/
theorem distinct_strings (x : Option (List String)) :
    ∀ v ∈ x.map fun l => array (l.map .string), v.Distinct := by
  intro v hv
  obtain ⟨l, -, rfl⟩ := Option.map_eq_some_iff.1 hv
  exact .array (List.forall_mem_map.2 fun s _ => .string s)

theorem distinct_getD_null (x : Option String) :
    ∀ v ∈ some ((x.map Value.string).getD .null), v.Distinct := by
  intro v hv
  obtain rfl := Option.some.inj hv
  cases x with
  | none => exact .null
  | some s => exact .string s

/-- What an optional member is read to can be written. -/
theorem distinct_of_optionalMember {β : Type} {read : Value → Option β} {write : β → Value}
    {value : Option Value} {r : Option β}
    (hread : ∀ v b, v.Distinct → read v = some b → (write b).Distinct)
    (hvalue : ∀ v ∈ value, v.Distinct) (h : optionalMember read value = some r) :
    ∀ v ∈ r.map write, v.Distinct := by
  unfold optionalMember at h
  split at h
  · obtain rfl := Option.some.inj h
    exact fun v hv => by cases hv
  · obtain rfl := Option.some.inj h
    exact fun v hv => by cases hv
  · next v _ =>
    obtain ⟨b, hb, rfl⟩ := Option.map_eq_some_iff.1 h
    intro v' hv'
    obtain rfl := Option.some.inj hv'
    exact hread v b (hvalue v rfl) hb

theorem distinct_of_self {value r : Option Value} (hvalue : ∀ v ∈ value, v.Distinct)
    (h : optionalMember some value = some r) : ∀ v ∈ r, v.Distinct := by
  have hself : ∀ v ∈ r.map id, v.Distinct := by
    refine distinct_of_optionalMember (fun v b hv heq => ?_) hvalue h
    obtain rfl := Option.some.inj heq
    exact hv
  rwa [Option.map_id_fun, id] at hself

theorem distinct_of_members {value : Option Value} {r : Option Members}
    (hvalue : ∀ v ∈ value, v.Distinct) (h : optionalMember Value.asMembers value = some r) :
    ∀ v ∈ r.map Value.object, v.Distinct := by
  refine distinct_of_optionalMember (fun v b hv heq => ?_) hvalue h
  cases v with
  | object members =>
    obtain rfl := Option.some.inj heq
    exact hv
  | _ => cases heq

end Value

/-- The members of a written object. -/
theorem distinct_present {fields : List (String × Option Value)}
    (h : ∀ field ∈ fields, ∀ v ∈ field.2, v.Distinct) :
    ∀ member ∈ present fields, member.2.Distinct := by
  intro member hmember
  obtain ⟨field, hfield, hmap⟩ := List.mem_filterMap.1 hmember
  obtain ⟨v, hv, rfl⟩ := Option.map_eq_some_iff.1 hmap
  exact h field hfield v hv

/-- An error can be written as it was read. -/
theorem DdpError.distinct_toValue {v : Value} {e : DdpError} (hv : v.Distinct)
    (h : ofValue v = some e) : e.toValue.Distinct := by
  have hcanonical := canonical_of_ofValue h
  cases hv with
  | @object o hnodup hmembers =>
    simp only [ofValue, Option.bind_eq_bind, Option.bind_eq_some_iff, Option.pure_def,
      Option.some.injEq] at h
    obtain ⟨code, -, reason, -, message, -, errorType, -, safe, -, details, hdetails, heq⟩ := h
    have hcode : ∀ v ∈ some e.error.toValue, v.Distinct := by
      intro v hv
      obtain rfl := Option.some.inj hv
      cases e.error with
      | number n => exact .int n
      | string s => exact .string s
    have hbool : ∀ v ∈ e.isClientSafe.map Value.bool, v.Distinct := by
      intro v hv
      obtain ⟨b, -, rfl⟩ := Option.map_eq_some_iff.1 hv
      exact .bool b
    have hself : ∀ v ∈ e.details, v.Distinct := by
      rw [← heq]
      exact Value.distinct_of_self (Value.distinct_of_lookup hmembers) hdetails
    have hfields : ∀ field ∈ e.fields, ∀ v ∈ field.2, v.Distinct := by
      simp only [fields, List.forall_mem_cons, List.not_mem_nil, IsEmpty.forall_iff,
      implies_true, and_true]
      exact ⟨hcode, Value.distinct_string _, Value.distinct_string _, Value.distinct_string _,
        hbool, hself⟩
    -- What is left over is part of what was read.
    have hextra : e.extra.Sublist o := by
      rw [← heq]
      exact List.filter_sublist
    refine .object ?_ (List.forall_mem_append.2 ⟨distinct_present hfields, fun member hmember =>
      hmembers member (hextra.subset hmember)⟩)
    rw [List.map_append, List.nodup_append]
    refine ⟨keys_present_sublist.nodup (by rw [keys_fields]; decide),
      hnodup.sublist (hextra.map _), ?_⟩
    -- No name of an own member is among those left over.
    rintro k hk _ hk' rfl
    obtain ⟨member, hmember, rfl⟩ := List.mem_map.1 hk'
    exact hcanonical.extra member hmember (keys_fields e ▸ keys_present_sublist.subset hk)
  | _ => cases h

namespace ServerMessage

/-- The object has the tag of the variant, and its members fit the fields. -/
def Fits (o : Members) (variant : Variant Value ServerMessage) : Prop :=
  o.lookup "msg" = some (.string variant.tag) ∧ (variant.read (without "msg" o)).isSome

/-- **What decoding makes of an object.** -/
structure DecodesWell (o : JsonObject) : Prop where
  /-- It decodes. -/
  total : ∃ m, decode o.members = some m
  /-- It is a variant just if it has the tag and its members fit the fields, -/
  typed : ∀ variant ∈ variants, ∀ m, decode o.members = some m ∧ m.tag = some variant.tag ↔
    o.members.lookup "msg" = some (.string variant.tag) ∧
      variant.read (without "msg" o.members) = some m
  /-- and otherwise is kept, to be encoded as it was. -/
  unknown : (∀ variant ∈ variants, ¬ Fits o.members variant) → ∃ message,
    decode o.members = some (.unknown message) ∧ (toObject (.unknown message)).Perm o.members
  /-- It is malformed just if it is kept under the tag of a variant. -/
  malformed : ∀ m, decode o.members = some m → (m.isMalformed = true ↔
    ∃ message msg, m = .unknown message ∧ message.msg = some msg ∧
      msg ∈ variants.map Variant.tag)
  /-- What it is encoded to decodes to the same frame. -/
  again : ∀ m, decode o.members = some m →
    ∃ o' : JsonObject, o'.members = m.toObject ∧ decode o'.members = some m

/-- The tag is the place of a variant, and the members fit its fields. -/
def ByPlace (o : Members) : Prop := ∃ (n : ℕ) (variant : Variant Value ServerMessage),
  o.lookup "msg" = some (.int n) ∧ variants[n]? = some variant ∧
    (variant.read (without "msg" o)).isSome

variable {o : Members} {m : ServerMessage} {variant : Variant Value ServerMessage}

/-! ### What is decoded -/

/-- **When a variant is decoded.** -/
theorem decode_tagged : union.readTagged o = some m ↔
    (∃ variant ∈ variants, o.lookup "msg" = some (.string variant.tag) ∧
      variant.read (without "msg" o) = some m) ∨
    ∃ (n : ℕ) (variant : Variant Value ServerMessage), o.lookup "msg" = some (.int n) ∧
      variants[n]? = some variant ∧ variant.read (without "msg" o) = some m := by
  rw [readTagged_eq_some]
  constructor
  · rintro ⟨value, identifier, variant, hvalue, hidentify, hfind, hread⟩
    -- The tag is a name or an index.
    cases value with
    | string msg =>
      obtain rfl := Option.some.inj hidentify
      refine .inl ⟨variant, mem_of_find hfind, ?_, hread⟩
      rw [tag_of_find hfind]
      exact hvalue
    | int n =>
      change (if 0 ≤ n then some (Identifier.index n.toNat) else none) = _ at hidentify
      split_ifs at hidentify with hn
      obtain rfl := Option.some.inj hidentify
      exact .inr ⟨n.toNat, variant, by rw [Int.toNat_of_nonneg hn]; exact hvalue, hfind, hread⟩
    | null | bool | float | array | object => cases hidentify
  · rintro (⟨variant, hv, hlookup, hread⟩ | ⟨n, variant, hlookup, hvariant, hread⟩)
    · exact ⟨_, _, variant, hlookup, rfl, find_name tags_nodup hv, hread⟩
    · refine ⟨_, .index n, variant, hlookup, ?_, hvariant, hread⟩
      change (if (0 : ℤ) ≤ n then some (Identifier.index (n : ℤ).toNat) else none) = _
      rw [if_pos (Int.natCast_nonneg n), Int.toNat_natCast]

/-- Every object decodes. -/
theorem decode_total (o : Members) : ∃ m, decode o = some m := by
  cases ht : union.readTagged o with
  | some m => exact ⟨m, read_of_tagged ht⟩
  | none => exact ⟨_, read_of_none ht⟩

/-- What decodes is a variant with its tag, or is kept. -/
theorem decode_cases (h : decode o = some m) :
    (union.readTagged o = some m ∧ ∃ variant ∈ variants, m.tag = some variant.tag) ∨
      union.readTagged o = none ∧ m = .unknown (.ofObject o) := by
  cases ht : union.readTagged o with
  | some m' =>
    obtain rfl : m' = m := Option.some.inj ((read_of_tagged ht).symm.trans h)
    obtain ⟨_, _, variant, -, -, hfind, hread⟩ := readTagged_eq_some.1 ht
    exact .inl ⟨rfl, variant, mem_of_find hfind, (canonical_of_read (mem_of_find hfind) hread).1⟩
  | none => exact .inr ⟨rfl, Option.some.inj (h.symm.trans (read_of_none ht))⟩

/-- The tags kept by hand are those of the variants. -/
theorem modelledTags_eq : modelledTags = variants.map Variant.tag := rfl

theorem isMalformed_iff : m.isMalformed = true ↔ ∃ message msg, m = .unknown message ∧
    message.msg = some msg ∧ msg ∈ variants.map Variant.tag := by
  rw [← modelledTags_eq]
  cases m with
  | unknown message =>
    simp only [isMalformed, Option.any_eq_true_iff_get, List.contains_iff_mem]
    constructor
    · rintro ⟨hsome, hmem⟩
      exact ⟨message, _, rfl, (Option.some_get hsome).symm, hmem⟩
    · rintro ⟨_, msg, heq, hmsg, hmem⟩
      obtain rfl := ServerMessage.unknown.inj heq
      refine ⟨by rw [hmsg]; rfl, ?_⟩
      simpa [hmsg] using hmem
  | connected | failed | ping | pong | result | updated | nosub | ready | added | changed
  | removed | addedBefore | movedBefore | error => simp [isMalformed]

/-- What is kept is encoded as it was, but for the order. -/
theorem toObject_ofObject_perm (hnodup : (o.map Prod.fst).Nodup) :
    (toObject (.unknown (.ofObject o))).Perm o := by
  rcases toObject_ofObject_cases o with ⟨msg, hmsg, -, hto⟩ | ⟨-, hto⟩
  · rw [hto]
    exact cons_without_perm hnodup hmsg
  · rw [hto]

/-- What a variant reads can be written as it was read. -/
theorem distinct_of_read (ho : ∀ member ∈ o, member.2.Distinct) (hv : variant ∈ variants)
    (hr : variant.read o = some m) : ∀ field ∈ m.fields, ∀ v ∈ field.2, v.Distinct := by
  have hmember (k : String) : ∀ v ∈ o.lookup k, v.Distinct := Value.distinct_of_lookup ho
  have herror {failure : Option DdpError}
      (h : optionalMember DdpError.ofValue (o.lookup "error") = some failure) :
      ∀ v ∈ failure.map DdpError.toValue, v.Distinct :=
    Value.distinct_of_optionalMember (fun _ _ => DdpError.distinct_toValue) (hmember _) h
  have hstring (s : String) : ∀ v ∈ some (Value.string s), v.Distinct :=
    Value.distinct_string (some s)
  have hstrings (l : List String) : ∀ v ∈ some (Value.array (l.map .string)), v.Distinct :=
    Value.distinct_strings (some l)
  -- One case for each variant, in the order of the union.
  simp only [variants, List.mem_cons, List.not_mem_nil, or_false] at hv
  rcases hv with rfl | rfl | rfl | rfl | rfl | rfl | rfl | rfl | rfl | rfl | rfl | rfl | rfl | rfl
  all_goals
    simp only [readConnected, readFailed, readPing, readPong, readResult, readUpdated, readNosub,
      readReady, readAdded, readChanged, readRemoved, readAddedBefore, readMovedBefore, readError,
      Option.bind_eq_bind, Option.bind_eq_some_iff, Option.pure_def, Option.some.injEq] at hr
  · obtain ⟨_, -, rfl⟩ := hr
    exact List.forall_mem_singleton.2 (hstring _)
  · obtain ⟨_, -, rfl⟩ := hr
    exact List.forall_mem_singleton.2 (hstring _)
  · obtain ⟨_, -, rfl⟩ := hr
    exact List.forall_mem_singleton.2 (Value.distinct_string _)
  · obtain ⟨_, -, rfl⟩ := hr
    exact List.forall_mem_singleton.2 (Value.distinct_string _)
  · obtain ⟨_, -, _, hvalue, _, hfailure, rfl⟩ := hr
    simp only [fields, List.forall_mem_cons, List.not_mem_nil, IsEmpty.forall_iff,
      implies_true, and_true]
    exact ⟨hstring _, Value.distinct_of_self (hmember _) hvalue, herror hfailure⟩
  · obtain ⟨_, -, rfl⟩ := hr
    exact List.forall_mem_singleton.2 (hstrings _)
  · obtain ⟨_, -, _, hfailure, rfl⟩ := hr
    simp only [fields, List.forall_mem_cons, List.not_mem_nil, IsEmpty.forall_iff,
      implies_true, and_true]
    exact ⟨hstring _, herror hfailure⟩
  · obtain ⟨_, -, rfl⟩ := hr
    exact List.forall_mem_singleton.2 (hstrings _)
  · obtain ⟨_, -, _, -, _, hfields, rfl⟩ := hr
    simp only [fields, List.forall_mem_cons, List.not_mem_nil, IsEmpty.forall_iff,
      implies_true, and_true]
    exact ⟨hstring _, hstring _, Value.distinct_of_members (hmember _) hfields⟩
  · obtain ⟨_, -, _, -, _, hfields, _, -, rfl⟩ := hr
    simp only [fields, List.forall_mem_cons, List.not_mem_nil, IsEmpty.forall_iff,
      implies_true, and_true]
    exact ⟨hstring _, hstring _, Value.distinct_of_members (hmember _) hfields,
      Value.distinct_strings _⟩
  · obtain ⟨_, -, _, -, rfl⟩ := hr
    simp only [fields, List.forall_mem_cons, List.not_mem_nil, IsEmpty.forall_iff,
      implies_true, and_true]
    exact ⟨hstring _, hstring _⟩
  · obtain ⟨_, -, _, -, _, hfields, _, -, rfl⟩ := hr
    simp only [fields, List.forall_mem_cons, List.not_mem_nil, IsEmpty.forall_iff,
      implies_true, and_true]
    exact ⟨hstring _, hstring _, Value.distinct_of_members (hmember _) hfields,
      Value.distinct_getD_null _⟩
  · obtain ⟨_, -, _, -, _, -, rfl⟩ := hr
    simp only [fields, List.forall_mem_cons, List.not_mem_nil, IsEmpty.forall_iff,
      implies_true, and_true]
    exact ⟨hstring _, hstring _, Value.distinct_getD_null _⟩
  · obtain ⟨_, -, _, hvalue, rfl⟩ := hr
    simp only [fields, List.forall_mem_cons, List.not_mem_nil, IsEmpty.forall_iff,
      implies_true, and_true]
    exact ⟨hstring _, Value.distinct_of_self (hmember _) hvalue⟩

/-- No two members of what a frame is encoded to are under one key. -/
theorem distinct_toObject (hnodup : (o.map Prod.fst).Nodup)
    (ho : ∀ member ∈ o, member.2.Distinct) (h : decode o = some m) :
    (Value.object m.toObject).Distinct := by
  rcases decode_cases h with ⟨htagged, variant, -, htag⟩ | ⟨-, rfl⟩
  · obtain ⟨_, _, variant', -, -, hfind, hread⟩ := readTagged_eq_some.1 htagged
    have hfields := distinct_of_read (fun member hmember => ho member (List.mem_filter.1 hmember).1)
      (mem_of_find hfind) hread
    rw [toObject_of_tag htag]
    refine .object ?_ (List.forall_mem_cons.2 ⟨.string _, distinct_present hfields⟩)
    obtain ⟨hmsg, hkeys⟩ := List.nodup_cons.1 (keys_fields_nodup m)
    exact List.nodup_cons.2 ⟨fun hmem => hmsg (keys_present_sublist.subset hmem),
      hkeys.sublist keys_present_sublist⟩
  · have hperm := toObject_ofObject_perm hnodup
    exact .object ((hperm.map Prod.fst).nodup_iff.2 hnodup)
      fun member hmember => ho member (hperm.subset hmember)

/-! ### The result -/

/-- **An object decodes well** just if its tag is not the place of a variant that its members
fit. -/
theorem decodesWell_iff (o : JsonObject) : DecodesWell o ↔ ¬ ByPlace o.members := by
  obtain ⟨hnodup, hmembers⟩ := o.parts
  constructor
  · rintro hwell ⟨n, variant, hlookup, hvariant, hread⟩
    obtain ⟨m, hm⟩ := Option.isSome_iff_exists.1 hread
    have hv : variant ∈ variants := List.mem_of_getElem? hvariant
    have htagged := decode_tagged.2 (.inr ⟨n, variant, hlookup, hvariant, hm⟩)
    have htag := (canonical_of_read hv hm).1
    have := ((hwell.typed variant hv m).1 ⟨read_of_tagged htagged, htag⟩).1
    rw [hlookup] at this
    cases this
  · intro hplace
    refine ⟨decode_total _, fun variant hv m => ⟨?_, ?_⟩, fun hfits => ?_,
      fun m _ => isMalformed_iff, fun m hm => ?_⟩
    · rintro ⟨hm, htag⟩
      rcases decode_cases hm with ⟨ht, -⟩ | ⟨-, rfl⟩
      · rcases decode_tagged.1 ht with ⟨w, hw, hlookup, hread⟩ | ⟨n, w, hlookup, hw, hread⟩
        · -- the tags differ, so it is the same variant
          have heq : w.tag = variant.tag :=
            Option.some.inj ((canonical_of_read hw hread).1.symm.trans htag)
          have hfind := find_name tags_nodup hw
          rw [heq, find_name tags_nodup hv] at hfind
          obtain rfl := Option.some.inj hfind
          exact ⟨hlookup, hread⟩
        · exact absurd ⟨n, w, hlookup, hw, by rw [hread]; rfl⟩ hplace
      · cases htag
    · rintro ⟨hlookup, hread⟩
      have ht := decode_tagged.2 (.inl ⟨variant, hv, hlookup, hread⟩)
      exact ⟨read_of_tagged ht, (canonical_of_read hv hread).1⟩
    · have hnone : union.readTagged o.members = none := by
        refine Option.eq_none_iff_forall_ne_some.2 fun m hm => ?_
        rcases decode_tagged.1 hm with ⟨w, hw, hlookup, hread⟩ | ⟨n, w, hlookup, hw, hread⟩
        · exact hfits w hw ⟨hlookup, by rw [hread]; rfl⟩
        · exact hplace ⟨n, w, hlookup, hw, by rw [hread]; rfl⟩
      exact ⟨_, read_of_none hnone, toObject_ofObject_perm hnodup⟩
    · exact ⟨⟨m.toObject, distinct_toObject hnodup hmembers hm⟩, rfl,
        decode_toObject (canonical_of_decode hm)⟩

/-- **A tag that is no string may be read**: `{"msg": 2}` is a `ping`. -/
theorem not_decodesWell : ∃ o : JsonObject, o.members = [("msg", .int 2)] ∧
    decode o.members = some (.ping none) ∧ ¬ DecodesWell o := by
  have hdistinct : (Value.object [("msg", .int 2)]).Distinct :=
    .object (by decide) (List.forall_mem_singleton.2 (.int 2))
  refine ⟨⟨[("msg", .int 2)], hdistinct⟩, rfl, rfl, fun hwell => ?_⟩
  refine (decodesWell_iff _).1 hwell ⟨2, _, rfl, rfl, rfl⟩

end ServerMessage
end RocketSocket
