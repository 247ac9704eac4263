import Mathlib.Data.List.Infix
import Mathlib.Data.List.TakeWhile
import Mathlib.Tactic.Common

/-!
# The catalog of streams

The generated part of `event.rs`: the streams of the server, and the events each declares.  An
event is declared under a pattern of keys, and a key resolves to the first entry of its stream
whose pattern it matches.

The text of an entry's `args` is left out: nothing reads it.

## Main definitions

* `splitOnce`, `stripStream` — what `event.rs` does with a key, and with the name of a stream.
* `KeyPattern`, `KeyPattern.matchesKey` — the patterns of keys.
* `Catalog.streams` — the streams, as declared.
* `Catalog.stream`, `Catalog.event` — the lookups.

## Main results

* `splitOnce_eq_some` — where a text is split.
* `matchesKey_suffix`, `matchesKey_prefixed` — the composite keys a pattern stands for.
* `event_eq_some_iff` — **the entry a key resolves to**: the one its pattern matches, where a
  pattern that matches every key comes last.
-/

namespace RocketSocket

/-! ### Texts -/

/-- Splits a text at the first `sep`. -/
def splitOnce (sep : Char) (s : String) : Option (String × String) :=
  match s.toList.dropWhile (· ≠ sep) with
  | [] => none
  | _ :: rest => some (String.ofList (s.toList.takeWhile (· ≠ sep)), String.ofList rest)

/-- The name of a stream, without the `stream-` it may have in front. -/
def stripStream (name : String) : String :=
  ((name.toList.dropPrefix? "stream-".toList).map String.ofList).getD name

variable {sep : Char} {s head rest : String}

/-- **Where a text is split**: the head ends at the first separator. -/
theorem splitOnce_eq_some : splitOnce sep s = some (head, rest) ↔
    s.toList = head.toList ++ sep :: rest.toList ∧ sep ∉ head.toList := by
  constructor
  · intro hsplit
    rw [splitOnce] at hsplit
    have hs := List.takeWhile_append_dropWhile (p := (· ≠ sep)) (l := s.toList)
    have hsep := List.head?_dropWhile_not (· ≠ sep) s.toList
    -- There is no separator, or the head ends at the first one.
    cases hdrop : s.toList.dropWhile (· ≠ sep) with
    | nil =>
      rw [hdrop] at hsplit
      cases hsplit
    | cons c tail =>
      rw [hdrop] at hsplit hs hsep
      obtain rfl : c = sep := by simpa using hsep
      cases hsplit
      rw [String.toList_ofList, String.toList_ofList]
      refine ⟨hs.symm, fun hmem => ?_⟩
      simpa using List.mem_takeWhile_imp hmem
  · -- The head has no separator, so it is taken whole.
    rintro ⟨hs, hhead⟩
    have hne : ∀ c ∈ head.toList, decide (c ≠ sep) = true := by
      intro c hc
      rw [decide_eq_true_eq]
      rintro rfl
      exact hhead hc
    rw [splitOnce, hs, List.takeWhile_append_of_pos hne, List.dropWhile_append_of_pos hne]
    simp

/-! ### Patterns -/

/-- The shape of an event key. -/
inductive KeyPattern where
  /-- One key. -/
  | literal (value : String)
  /-- Free text, a slash, then this suffix. -/
  | suffix (ending : String)
  /-- This prefix, a slash, then free text. -/
  | prefixed (start : String)
  /-- Every key. -/
  | any
  deriving DecidableEq, Repr

namespace KeyPattern

/-- The key matches the pattern; a composite key is split at its first slash. -/
def matchesKey (key : String) : KeyPattern → Bool
  | literal value => key == value
  | suffix ending => (splitOnce '/' key).any fun split => !split.1.isEmpty && split.2 == ending
  | prefixed start => (splitOnce '/' key).any fun split => split.1 == start && !split.2.isEmpty
  | any => true

variable {key ending start : String} {p q : KeyPattern}

/-- A suffix stands for the keys that have it after their first slash, and something before. -/
theorem matchesKey_suffix : (suffix ending).matchesKey key = true ↔ ∃ head : String,
    head ≠ "" ∧ key.toList = head.toList ++ '/' :: ending.toList ∧ '/' ∉ head.toList := by
  rw [matchesKey, Option.any_eq_true]
  constructor
  · rintro ⟨⟨head, rest⟩, hsplit, hmatches⟩
    obtain ⟨hhead, rfl⟩ : head ≠ "" ∧ rest = ending := by simpa using hmatches
    exact ⟨head, hhead, splitOnce_eq_some.1 hsplit⟩
  · rintro ⟨head, hhead, hkey⟩
    exact ⟨_, splitOnce_eq_some.2 hkey, by simpa using hhead⟩

/-- A prefix stands for the keys that have it before their first slash, and something after. -/
theorem matchesKey_prefixed : (prefixed start).matchesKey key = true ↔ ∃ rest : String,
    rest ≠ "" ∧ key.toList = start.toList ++ '/' :: rest.toList ∧ '/' ∉ start.toList := by
  rw [matchesKey, Option.any_eq_true]
  constructor
  · rintro ⟨⟨head, rest⟩, hsplit, hmatches⟩
    obtain ⟨rfl, hrest⟩ : head = start ∧ rest ≠ "" := by simpa using hmatches
    exact ⟨rest, hrest, splitOnce_eq_some.1 hsplit⟩
  · rintro ⟨rest, hrest, hkey⟩
    exact ⟨_, splitOnce_eq_some.2 hkey, by simpa using hrest⟩

/-- The patterns have no key in common; a suffix and a prefix may have one. -/
def apart : KeyPattern → KeyPattern → Bool
  | literal value, q => !q.matchesKey value
  | p, literal value => !p.matchesKey value
  | suffix a, suffix b => a != b
  | prefixed a, prefixed b => a != b
  | _, _ => false

theorem matchesKey_of_apart (hapart : p.apart q = true) (hp : p.matchesKey key = true) :
    q.matchesKey key = false := by
  rw [Bool.eq_false_iff]
  intro hq
  cases p with
  | literal value =>
    obtain rfl : key = value := by simpa [matchesKey] using hp
    simp [apart, hq] at hapart
  | any => cases q <;> simp [apart, matchesKey] at hapart
  | suffix a =>
    cases q with
    | literal value =>
      obtain rfl : key = value := by simpa [matchesKey] using hq
      simp [apart, hp] at hapart
    | suffix b =>
      obtain ⟨_, -, ha⟩ := matchesKey_suffix.1 hp
      obtain ⟨_, -, hb⟩ := matchesKey_suffix.1 hq
      -- Both heads end at the first slash, so they are one.
      have heq := (splitOnce_eq_some.2 ha).symm.trans (splitOnce_eq_some.2 hb)
      cases heq
      simp [apart] at hapart
    | prefixed b => simp [apart] at hapart
    | any => simp [apart] at hapart
  | prefixed a =>
    cases q with
    | literal value =>
      obtain rfl : key = value := by simpa [matchesKey] using hq
      simp [apart, hp] at hapart
    | suffix b => simp [apart] at hapart
    | prefixed b =>
      obtain ⟨_, -, ha⟩ := matchesKey_prefixed.1 hp
      obtain ⟨_, -, hb⟩ := matchesKey_prefixed.1 hq
      -- Both rests begin behind the first slash, so they are one.
      have heq := (splitOnce_eq_some.2 ha).symm.trans (splitOnce_eq_some.2 hb)
      cases heq
      simp [apart] at hapart
    | any => simp [apart] at hapart

/-- A pattern may be declared before another: the two are apart, or the other is for every
key. -/
def before (p q : KeyPattern) : Bool := p.apart q || (p != any && q == any)

theorem before_iff : p.before q = true ↔ p.apart q = true ∨ p ≠ any ∧ q = any := by
  simp [before]

theorem not_before_any : any.before p = false := by
  cases p <;> simp [before, apart, matchesKey]

end KeyPattern

/-! ### The catalog -/

/-- An entry of a stream. -/
structure EventSpec where
  /-- The keys it is for. -/
  key : KeyPattern
  /-- The declared numbers of arguments, ascending. -/
  arities : List ℕ
  /-- The arguments are an array of any length. -/
  variadic : Bool
  deriving DecidableEq, Repr

/-- A stream. -/
structure StreamSpec where
  /-- Its name, without `stream-`. -/
  name : String
  /-- Its entries, as declared. -/
  events : List EventSpec
  deriving DecidableEq, Repr

/-- The entry a key resolves to: the first one it matches. -/
def StreamSpec.event (spec : StreamSpec) (key : String) : Option EventSpec :=
  spec.events.find? fun entry => entry.key.matchesKey key

namespace Catalog

/-- The streams, as declared. -/
def streams : List StreamSpec := [
  ⟨"roles", [
      ⟨.literal "roles", [1], false⟩]⟩,
  ⟨"notify-room", [
      ⟨.suffix "user-activity", [2], false⟩,
      ⟨.suffix "typing", [2], false⟩,
      ⟨.suffix "deleteMessageBulk", [1], false⟩,
      ⟨.suffix "deleteMessage", [1], false⟩,
      ⟨.suffix "e2e.keyRequest", [1], false⟩,
      ⟨.suffix "videoconf", [1], false⟩,
      ⟨.suffix "messagesRead", [1], false⟩,
      ⟨.suffix "messagesImported", [1], false⟩]⟩,
  ⟨"room-messages", [
      ⟨.literal "__my_messages__", [1], false⟩,
      ⟨.any, [1, 2, 3], false⟩]⟩,
  ⟨"notify-all", [
      ⟨.literal "public-info", [1], false⟩,
      ⟨.literal "public-settings-changed", [2], false⟩,
      ⟨.literal "deleteCustomSound", [1], false⟩,
      ⟨.literal "updateCustomSound", [1], false⟩,
      ⟨.literal "license", [0, 1], false⟩]⟩,
  ⟨"notify-user", [
      ⟨.suffix "rooms-changed", [2], false⟩,
      ⟨.suffix "subscriptions-changed", [2], false⟩,
      ⟨.suffix "message", [1], false⟩,
      ⟨.suffix "force_logout", [1], false⟩,
      ⟨.suffix "webdav", [1], false⟩,
      ⟨.suffix "e2ekeyRequest", [2], false⟩,
      ⟨.suffix "notification", [1], false⟩,
      ⟨.suffix "call.hangup", [1], false⟩,
      ⟨.suffix "uiInteraction", [1], false⟩,
      ⟨.suffix "video-conference", [1], false⟩,
      ⟨.suffix "media-signal", [1], false⟩,
      ⟨.suffix "userData", [1], false⟩,
      ⟨.suffix "updateInvites", [1], false⟩,
      ⟨.suffix "departmentAgentData", [1], false⟩,
      ⟨.suffix "calendar", [1], false⟩,
      ⟨.suffix "banners", [1], false⟩]⟩,
  ⟨"importers", [
      ⟨.literal "progress", [1], false⟩]⟩,
  ⟨"notify-logged", [
      ⟨.literal "updateCustomUserStatus", [1], false⟩,
      ⟨.literal "permissions-changed", [2], false⟩,
      ⟨.literal "deleteEmojiCustom", [1], false⟩,
      ⟨.literal "updateEmojiCustom", [1], false⟩,
      ⟨.literal "new-banner", [1], false⟩,
      ⟨.literal "banner-changed", [1], false⟩,
      ⟨.literal "roles-change", [1], false⟩,
      ⟨.literal "Users:NameChanged", [1], false⟩,
      ⟨.literal "private-settings-changed", [2], false⟩,
      ⟨.literal "deleteCustomUserStatus", [1], false⟩,
      ⟨.literal "user-status", [1], false⟩,
      ⟨.literal "Users:Deleted", [1], false⟩,
      ⟨.literal "updateAvatar", [1], false⟩,
      ⟨.literal "omnichannel.priority-changed", [1], false⟩]⟩,
  ⟨"room-data", [
      ⟨.any, [1], false⟩]⟩,
  ⟨"notify-room-users", [
      ⟨.suffix "video-conference", [1], false⟩,
      ⟨.suffix "userData", [], true⟩]⟩,
  ⟨"livechat-room", [
      ⟨.any, [1], false⟩]⟩,
  ⟨"user-presence", [
      ⟨.any, [1], false⟩]⟩,
  ⟨"integrationHistory", [
      ⟨.any, [1], false⟩]⟩,
  ⟨"canned-responses", [
      ⟨.literal "canned-responses", [1, 2], false⟩]⟩,
  ⟨"livechat-inquiry-queue-observer", [
      ⟨.literal "public", [1], false⟩,
      ⟨.prefixed "department", [1], false⟩,
      ⟨.prefixed "agent", [1], false⟩,
      ⟨.any, [1], false⟩]⟩,
  ⟨"apps", [
      ⟨.literal "app/added", [1], false⟩,
      ⟨.literal "app/removed", [1], false⟩,
      ⟨.literal "app/updated", [1], false⟩,
      ⟨.literal "app/statusUpdate", [1], false⟩,
      ⟨.literal "app/settingUpdated", [1], false⟩,
      ⟨.literal "command/added", [1], false⟩,
      ⟨.literal "command/disabled", [1], false⟩,
      ⟨.literal "command/updated", [1], false⟩,
      ⟨.literal "command/removed", [1], false⟩,
      ⟨.literal "actions/changed", [0], false⟩,
      ⟨.literal "apps", [1], false⟩]⟩,
  ⟨"apps-engine", [
      ⟨.literal "app/added", [1], false⟩,
      ⟨.literal "app/removed", [1], false⟩,
      ⟨.literal "app/updated", [1], false⟩,
      ⟨.literal "app/statusUpdate", [1], false⟩,
      ⟨.literal "app/settingUpdated", [1], false⟩,
      ⟨.literal "command/added", [1], false⟩,
      ⟨.literal "command/disabled", [1], false⟩,
      ⟨.literal "command/updated", [1], false⟩,
      ⟨.literal "command/removed", [1], false⟩,
      ⟨.literal "actions/changed", [0], false⟩]⟩,
  ⟨"local", [
      ⟨.literal "broadcast", [], true⟩]⟩]

/-- A stream by its name, with or without `stream-`. -/
def stream (name : String) : Option StreamSpec :=
  streams.find? fun spec => spec.name == stripStream name

/-- The entry that a stream and a key resolve to. -/
def event (streamName key : String) : Option EventSpec :=
  (stream streamName).bind fun spec => spec.event key

variable {name key : String} {spec : StreamSpec} {entry : EventSpec}

/-- No two streams share a name. -/
theorem streams_nodup : (streams.map StreamSpec.name).Nodup := by decide

/-- In each stream the patterns are apart, but for a last one that is for every key. -/
theorem streams_ordered : ∀ spec ∈ streams,
    spec.events.Pairwise fun a b => a.key.before b.key = true := by decide

/-- No two entries of a stream share a pattern. -/
theorem keys_nodup : ∀ spec ∈ streams, (spec.events.map EventSpec.key).Nodup := by decide

/-- **The entry a key resolves to**: the one its pattern matches, where a pattern for every key
gives way to the others. -/
theorem event_eq_some_iff (hspec : spec ∈ streams) : spec.event key = some entry ↔
    entry ∈ spec.events ∧ entry.key.matchesKey key = true ∧ (entry.key = .any →
      ∀ other ∈ spec.events, other.key.matchesKey key = true → other = entry) := by
  have hordered := streams_ordered spec hspec
  rw [StreamSpec.event, List.find?_eq_some_iff_append]
  constructor
  · rintro ⟨hmatches, before, after, hevents, hbefore⟩
    rw [hevents] at hordered ⊢
    refine ⟨List.mem_append_right _ List.mem_cons_self, hmatches, ?_⟩
    intro hany other hother hmatch
    rw [List.mem_append, List.mem_cons] at hother
    obtain hother | rfl | hother := hother
    · have := hbefore other hother
      rw [hmatch] at this
      cases this
    · rfl
    · -- nothing is declared after the pattern for every key
      rw [List.pairwise_append, List.pairwise_cons] at hordered
      have := hordered.2.1.1 other hother
      rw [hany, KeyPattern.not_before_any] at this
      cases this
  · rintro ⟨hmem, hmatches, hany⟩
    obtain ⟨before, after, hevents⟩ := List.mem_iff_append.1 hmem
    refine ⟨hmatches, before, after, hevents, fun other hother => ?_⟩
    rw [hevents, List.pairwise_append] at hordered
    have hbefore := hordered.2.2 other hother entry List.mem_cons_self
    rw [KeyPattern.before_iff] at hbefore
    rw [Bool.not_eq_true', Bool.eq_false_iff]
    intro hmatch
    obtain hapart | ⟨hother', hentry⟩ := hbefore
    · have := KeyPattern.matchesKey_of_apart hapart hmatch
      rw [hmatches] at this
      cases this
    · rw [hany hentry other (hevents ▸ List.mem_append_left _ hother) hmatch] at hother'
      exact hother' hentry

/-- **The stream a name resolves to**: the one of that name. -/
theorem stream_eq_some_iff : stream name = some spec ↔
    spec ∈ streams ∧ spec.name = stripStream name := by
  constructor
  · intro hstream
    exact ⟨List.mem_of_find?_eq_some hstream, by simpa using List.find?_some hstream⟩
  · rintro ⟨hmem, hname⟩
    obtain ⟨before, after, hstreams⟩ := List.mem_iff_append.1 hmem
    refine List.find?_eq_some_iff_append.2 ⟨by simpa using hname, before, after, hstreams, ?_⟩
    intro other hother
    have hnodup := streams_nodup
    rw [hstreams, List.map_append, List.nodup_append] at hnodup
    have hne := hnodup.2.2 other.name (List.mem_map_of_mem hother) spec.name (by simp)
    simpa [hname] using hne

theorem mem_of_event (hstream : stream name = some spec) (hevent : event name key = some entry) :
    entry ∈ spec.events := by
  rw [event, hstream] at hevent
  exact List.mem_of_find?_eq_some hevent

end Catalog

end RocketSocket
