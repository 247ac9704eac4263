import RocketSocket.Model.Document

/-!
# The entities

The structs of `entity.rs`, member by member in the order of the source, with their names on
the wire, and the documents of the four entities.

## Main definitions

* `Schema.message`, `Schema.room`, `Schema.subscription`, `Schema.user` — the entities.
* `Entity`, `Entity.schema` — the four of them as one type.
-/

namespace RocketSocket

open Machine

/-! ### Wire enums -/

namespace WireValues

/-- The values of `MessageType` the crate knows. -/
def messageType : List String :=
  ["e2e", "uj", "ui", "uir", "ul", "ru", "au", "mute_unmute", "r", "ut", "wm", "rm",
   "subscription-role-added", "subscription-role-removed", "room-archived", "room-unarchived",
   "room_changed_privacy", "room_changed_description", "room_changed_announcement",
   "room_changed_avatar", "room_changed_topic", "room_e2e_enabled", "room_e2e_disabled",
   "user-muted", "user-unmuted", "user-banned", "user-unbanned", "room-removed-read-only",
   "room-set-read-only", "room-allowed-reacting", "room-disallowed-reacting", "command",
   "videoconf", "message_pinned", "message_pinned_e2e", "new-moderator", "moderator-removed",
   "new-owner", "owner-removed", "new-leader", "leader-removed", "discussion-created",
   "abac-removed-user-from-room", "removed-user-from-team", "added-user-to-team", "ult",
   "user-converted-to-team", "user-converted-to-channel", "user-removed-room-from-team",
   "user-deleted-room-from-team", "user-added-room-to-team", "ujt", "livechat_navigation_history",
   "livechat_transfer_history", "livechat_transcript_history", "livechat_video_call",
   "livechat_transfer_history_fallback", "livechat-close", "livechat-started",
   "omnichannel_priority_change_history", "omnichannel_sla_change_history",
   "omnichannel_placed_chat_on_hold", "omnichannel_on_hold_chat_resumed"]

/-- The values of `RoomType` the crate knows. -/
def roomType : List String :=
  ["c", "p", "d", "l"]

/-- The values of `UserStatus` the crate knows. -/
def userStatus : List String :=
  ["online", "away", "busy", "offline", "disabled"]

/-- The values of `PresenceSource` the crate knows. -/
def presenceSource : List String :=
  ["internal", "external", "manual"]

/-- The values of `E2eStatus` the crate knows. -/
def e2eStatus : List String :=
  ["pending", "done"]

/-- The values of `MentionType` the crate knows. -/
def mentionType : List String :=
  ["user", "team"]

/-- The values of `NotificationPreference` the crate knows. -/
def notificationPreference : List String :=
  ["all", "mentions", "nothing"]

/-- The values of `PreferenceOrigin` the crate knows. -/
def preferenceOrigin : List String :=
  ["subscription", "user"]

/-- The values of `UnreadAlert` the crate knows. -/
def unreadAlert : List String :=
  ["default", "all", "mentions", "nothing"]

/-- The values of `SubscriptionStatus` the crate knows. -/
def subscriptionStatus : List String :=
  ["INVITED", "BANNED"]

end WireValues

/-! ### Untagged unions -/

namespace Codec

/-- `SysMes`: a switch, or the hidden types. -/
def readSysMes (v : Value) : Option (Bool ⊕ List (WireEnum WireValues.messageType)) :=
  match v.asBool with
  | some enabled => some (.inl enabled)
  | none => (v.asListOf WireEnum.read).map .inr

/-- A switch as it is, and the types as their strings. -/
def writeSysMes : Bool ⊕ List (WireEnum WireValues.messageType) → Value
  | .inl enabled => .bool enabled
  | .inr hidden => .array (hidden.map fun t => .string t.asStr)

theorem sysMes_keeps {v : Value} {c : Bool ⊕ List (WireEnum WireValues.messageType)}
    (h : readSysMes v = some c) : readSysMes (writeSysMes c) = some c := by
  cases c with
  | inl enabled => rfl
  | inr hidden =>
    have hlist : v.asListOf (wireEnum WireValues.messageType).read = some hidden := by
      unfold readSysMes at h
      split at h
      · cases h
      · obtain ⟨hidden', hread, heq⟩ := Option.map_eq_some_iff.mp h
        rw [← Sum.inr.inj heq]
        exact hread
    have hback := (list_keeps hlist).mpr fun t ht => by simp [wireEnum, timeless] at ht
    exact congrArg (Option.map Sum.inr) hback

theorem sysMes_nonnull (c : Bool ⊕ List (WireEnum WireValues.messageType)) :
    (writeSysMes c).isNull = false := by
  cases c <;> rfl

/-- `SysMes`. -/
def sysMes : Codec (Bool ⊕ List (WireEnum WireValues.messageType)) :=
  timeless readSysMes writeSysMes sysMes_keeps fun {_ c} _ _ => sysMes_nonnull c

/-- `RolePrioritiesCreated`: a version, or a flag. -/
def readRolePrioritiesCreated (v : Value) : Option (ℤ ⊕ Bool) :=
  match v.asI64 with
  | some version => some (.inl version)
  | none => v.asBool.map .inr

/-- A version or a flag as it is. -/
def writeRolePrioritiesCreated : ℤ ⊕ Bool → Value
  | .inl version => .int version
  | .inr flag => .bool flag

theorem rolePrioritiesCreated_keeps {v : Value} {c : ℤ ⊕ Bool}
    (h : readRolePrioritiesCreated v = some c) :
    readRolePrioritiesCreated (writeRolePrioritiesCreated c) = some c := by
  cases c with
  | inl version =>
    have hversion : v.asI64 = some version := by
      unfold readRolePrioritiesCreated at h
      split at h
      · next hv =>
        rw [hv]
        exact congrArg some (Sum.inl.inj (Option.some.inj h))
      · obtain ⟨flag, -, heq⟩ := Option.map_eq_some_iff.mp h
        cases heq
    rw [writeRolePrioritiesCreated, readRolePrioritiesCreated, asI64_keeps hversion]
  | inr flag => rfl

theorem rolePrioritiesCreated_nonnull (c : ℤ ⊕ Bool) :
    (writeRolePrioritiesCreated c).isNull = false := by
  cases c <;> rfl

/-- `RolePrioritiesCreated`. -/
def rolePrioritiesCreated : Codec (ℤ ⊕ Bool) :=
  timeless readRolePrioritiesCreated writeRolePrioritiesCreated rolePrioritiesCreated_keeps
    fun {_ c} _ _ => rolePrioritiesCreated_nonnull c

theorem keepsEmpty_nullableStrings : Member.KeepsEmpty nullableStrings := ⟨rfl, rfl⟩

theorem keepsEmpty_value : Member.KeepsEmpty (map value) := ⟨rfl, rfl⟩

end Codec

/-! ### Structs -/

namespace Schema

open Codec WireValues

/-- The members of a stub of a user. -/
def userRefMembers : List Member :=
  [.required "_id" .string, .optional "username" .string, .optional "name" .string]

theorem userRef_nodup : ((userRefMembers).map fun member => member.key).Nodup := by decide

/-- A stub of a user. -/
def userRef : Schema := ⟨userRefMembers, userRef_nodup⟩

/-- The members of an entry of `mentions`. -/
def messageMentionMembers : List Member :=
  [.required "_id" .string, .optional "type" (.wireEnum mentionType), .optional "name" .string,
   .optional "username" .string, .optional "fname" .string]

theorem messageMention_nodup :
    ((messageMentionMembers).map fun member => member.key).Nodup := by decide

/-- An entry of `mentions`. -/
def messageMention : Schema := ⟨messageMentionMembers, messageMention_nodup⟩

/-- The members of an entry of `channels`. -/
def channelMentionMembers : List Member :=
  [.required "_id" .string, .optional "name" .string]

theorem channelMention_nodup :
    ((channelMentionMembers).map fun member => member.key).Nodup := by decide

/-- An entry of `channels`. -/
def channelMention : Schema := ⟨channelMentionMembers, channelMention_nodup⟩

/-- The members of the headers of a URL preview. -/
def urlHeadersMembers : List Member :=
  [.optional "contentLength" .string, .optional "contentType" .string]

theorem urlHeaders_nodup : ((urlHeadersMembers).map fun member => member.key).Nodup := by decide

/-- The headers of a URL preview. -/
def urlHeaders : Schema := ⟨urlHeadersMembers, urlHeaders_nodup⟩

/-- The members of a URL found in a message. -/
def messageUrlMembers : List Member :=
  [.required "url" .string, .optional "source" .string,
   .skipped "meta" (.map .value) keepsEmpty_value, .optional "headers" urlHeaders.codec,
   .optional "ignoreParse" .bool, .optional "parsedUrl" .value]

theorem messageUrl_nodup : ((messageUrlMembers).map fun member => member.key).Nodup := by decide

/-- A URL found in a message. -/
def messageUrl : Schema := ⟨messageUrlMembers, messageUrl_nodup⟩

/-- The members of one emoji's worth of reactions. -/
def reactionMembers : List Member :=
  [.defaulted "usernames" .nullableStrings keepsEmpty_nullableStrings,
   .optional "names" .nullableStrings, .optional "federationReactionEventIds" (.map .string)]

theorem reaction_nodup : ((reactionMembers).map fun member => member.key).Nodup := by decide

/-- One emoji's worth of reactions. -/
def reaction : Schema := ⟨reactionMembers, reaction_nodup⟩

/-- The members of an entry of `starred`. -/
def starMembers : List Member :=
  [.required "_id" .string]

theorem star_nodup : ((starMembers).map fun member => member.key).Nodup := by decide

/-- An entry of `starred`. -/
def star : Schema := ⟨starMembers, star_nodup⟩

/-- The members of an uploaded file. -/
def messageFileMembers : List Member :=
  [.required "_id" .string, .optional "name" .string, .optional "type" .string,
   .optional "format" .string, .optional "size" .i64, .optional "typeGroup" .string]

theorem messageFile_nodup : ((messageFileMembers).map fun member => member.key).Nodup := by decide

/-- An uploaded file. -/
def messageFile : Schema := ⟨messageFileMembers, messageFile_nodup⟩

/-- The members of a message. -/
def messageMembers (parse : String → Option Timestamp) : List Member :=
  [.required "_id" .string, .required "_updatedAt" (.timestamp parse), .required "rid" .string,
   .required "msg" .string, .required "ts" (.timestamp parse), .required "u" userRef.codec,
   .optional "t" (.wireEnum messageType), .optionalDate parse "editedAt",
   .optional "editedBy" userRef.codec, .optional "attachments" (.list .value),
   .optional "mentions" (.list messageMention.codec),
   .optional "channels" (.list channelMention.codec), .optional "md" .value,
   .optional "blocks" .value, .optional "urls" (.list messageUrl.codec),
   .optional "reactions" (.map reaction.codec), .optional "file" messageFile.codec,
   .optional "files" (.list messageFile.codec), .optional "tmid" .string, .optional "tshow" .bool,
   .optional "tcount" .i64, .optionalDate parse "tlm", .optional "replies" (.list .string),
   .optional "drid" .string, .optional "dcount" .i64, .optionalDate parse "dlm",
   .optional "groupable" .bool, .optional "parseUrls" .bool, .optional "unread" .bool,
   .optional "pinned" .bool, .optionalDate parse "pinnedAt", .optional "pinnedBy" userRef.codec,
   .optional "starred" (.list star.codec), .optional "private" .bool, .optional "temp" .bool,
   .optional "_hidden" .bool, .optional "imported" .bool, .optional "e2e" (.wireEnum e2eStatus),
   .optional "alias" .string, .optional "avatar" .string, .optional "emoji" .string,
   .optional "role" .string, .optional "bot" .value, .optional "token" .string,
   .optional "customFields" .value]

theorem message_nodup (parse : String → Option Timestamp) :
    ((messageMembers parse).map fun member => member.key).Nodup := by
  change ((messageMembers fun _ => none).map fun member => member.key).Nodup
  decide

/-- A message. -/
def message (parse : String → Option Timestamp) : Schema :=
  ⟨messageMembers parse, message_nodup parse⟩

/-- The members of the styling of an announcement. -/
def announcementDetailsMembers : List Member :=
  [.optional "style" .string]

theorem announcementDetails_nodup :
    ((announcementDetailsMembers).map fun member => member.key).Nodup := by decide

/-- The styling of an announcement. -/
def announcementDetails : Schema := ⟨announcementDetailsMembers, announcementDetails_nodup⟩

/-- The members of a room. -/
def roomMembers (parse : String → Option Timestamp) : List Member :=
  [.required "_id" .string, .required "_updatedAt" (.timestamp parse),
   .required "t" (.wireEnum roomType), .optional "name" .string, .optional "fname" .string,
   .optional "msgs" .i64, .optional "usersCount" .i64, .optional "u" userRef.codec,
   .optional "uids" (.list .string), .optional "usernames" (.list .string),
   .optional "default" .bool, .optional "broadcast" .bool, .optional "featured" .bool,
   .optional "topic" .string, .optional "description" .string, .optional "announcement" .string,
   .optional "announcementDetails" announcementDetails.codec, .optional "joinCodeRequired" .bool,
   .optional "encrypted" .bool, .optional "e2eKeyId" .string,
   .optional "usersWaitingForE2EKeys" (.list .value), .optional "ro" .bool,
   .optional "reactWhenReadOnly" .bool, .optional "sysMes" sysMes, .optional "cl" .bool,
   .optional "archived" .bool, .optional "muted" (.list .string),
   .optional "unmuted" (.list .string), .optional "lastMessage" (message parse).codec,
   .optionalDate parse "lm", .optionalDate parse "ts", .optionalDate parse "webRtcCallStartTime",
   .optional "prid" .string, .optional "avatarETag" .string, .optional "teamMain" .bool,
   .optional "teamId" .string, .optional "teamDefault" .bool, .optional "open" .bool,
   .optional "unread" .i64, .optional "alert" .bool, .optional "favorite" .bool,
   .optional "hideUnreadStatus" .bool, .optional "hideMentionStatus" .bool,
   .optional "autoTranslate" .bool, .optional "autoTranslateLanguage" .string,
   .optional "retention" .value, .optional "abacAttributes" (.list .value),
   .optional "rolePrioritiesCreated" rolePrioritiesCreated, .optional "customFields" .value,
   .optional "federated" .bool, .optional "federation" .value, .optional "v" .value,
   .optional "source" .value, .optional "servedBy" .value, .optional "departmentId" .string,
   .optional "onHold" .bool, .optional "waitingResponse" .value, .optionalDate parse "queuedAt",
   .optional "tags" (.list .string), .optional "livechatData" .value, .optional "metrics" .value,
   .optional "transcriptRequest" .value, .optional "priorityId" .string,
   .optional "priorityWeight" .i64, .optional "slaId" .string,
   .optional "estimatedWaitingTimeQueue" .f64, .optional "contactId" .string,
   .optional "verified" .bool, .optional "sms" .value, .optional "code" .value,
   .optional "label" .string, .optional "sentiment" .value]

theorem room_nodup (parse : String → Option Timestamp) :
    ((roomMembers parse).map fun member => member.key).Nodup := by
  change ((roomMembers fun _ => none).map fun member => member.key).Nodup
  decide

/-- A room. -/
def room (parse : String → Option Timestamp) : Schema := ⟨roomMembers parse, room_nodup parse⟩

/-- The members of a superseded key of a room. -/
def oldRoomKeyMembers (parse : String → Option Timestamp) : List Member :=
  [.optional "e2eKeyId" .string, .optionalDate parse "ts", .optional "E2EKey" .string]

theorem oldRoomKey_nodup (parse : String → Option Timestamp) :
    ((oldRoomKeyMembers parse).map fun member => member.key).Nodup := by
  change ((oldRoomKeyMembers fun _ => none).map fun member => member.key).Nodup
  decide

/-- A superseded key of a room. -/
def oldRoomKey (parse : String → Option Timestamp) : Schema :=
  ⟨oldRoomKeyMembers parse, oldRoomKey_nodup parse⟩

/-- The members of a user's membership of a room. -/
def subscriptionMembers (parse : String → Option Timestamp) : List Member :=
  [.required "_id" .string, .required "_updatedAt" (.timestamp parse), .required "rid" .string,
   .required "u" userRef.codec, .required "t" (.wireEnum roomType),
   .required "ts" (.timestamp parse), .optional "name" .string, .required "open" .bool,
   .required "unread" .i64, .required "userMentions" .i64, .required "groupMentions" .i64,
   .optional "fname" .string, .optional "alert" .bool, .optionalDate parse "ls",
   .optionalDate parse "lr", .optional "f" .bool, .optional "hideUnreadStatus" .bool,
   .optional "hideMentionStatus" .bool, .optional "teamMain" .bool, .optional "teamId" .string,
   .optional "broadcast" .bool, .optional "prid" .string, .optional "tunread" (.list .string),
   .optional "tunreadGroup" (.list .string), .optional "tunreadUser" (.list .string),
   .optional "roles" (.list .string), .optional "onHold" .bool, .optional "encrypted" .bool,
   .optional "E2EKey" .string, .optional "E2ESuggestedKey" .string,
   .optional "oldRoomKeys" (.list (oldRoomKey parse).codec),
   .optional "suggestedOldRoomKeys" (.list (oldRoomKey parse).codec),
   .optional "unreadAlert" (.wireEnum unreadAlert),
   .optional "desktopNotifications" (.wireEnum notificationPreference),
   .optional "mobilePushNotifications" (.wireEnum notificationPreference),
   .optional "emailNotifications" (.wireEnum notificationPreference),
   .optional "desktopPrefOrigin" (.wireEnum preferenceOrigin),
   .optional "mobilePrefOrigin" (.wireEnum preferenceOrigin),
   .optional "emailPrefOrigin" (.wireEnum preferenceOrigin),
   .optional "audioNotificationValue" .string, .optional "disableNotifications" .bool,
   .optional "muteGroupMentions" .bool, .optional "userHighlights" (.list .string),
   .optional "ignored" (.list .string), .optional "archived" .bool,
   .optional "autoTranslate" .bool, .optional "autoTranslateLanguage" .string,
   .optional "blocked" .value, .optional "blocker" .value, .optional "draft" .string,
   .optional "threadDrafts" (.map .string), .optional "status" (.wireEnum subscriptionStatus),
   .optional "inviter" userRef.codec, .optional "v" .value, .optional "department" .value,
   .optional "code" .value, .optionalDate parse "abacLastTimeChecked",
   .optional "customFields" .value]

theorem subscription_nodup (parse : String → Option Timestamp) :
    ((subscriptionMembers parse).map fun member => member.key).Nodup := by
  change ((subscriptionMembers fun _ => none).map fun member => member.key).Nodup
  decide

/-- A user's membership of a room. -/
def subscription (parse : String → Option Timestamp) : Schema :=
  ⟨subscriptionMembers parse, subscription_nodup parse⟩

/-- The members of an email address of a user. -/
def userEmailMembers : List Member :=
  [.required "address" .string, .optional "verified" .bool]

theorem userEmail_nodup : ((userEmailMembers).map fun member => member.key).Nodup := by decide

/-- An email address of a user. -/
def userEmail : Schema := ⟨userEmailMembers, userEmail_nodup⟩

/-- The members of a user. -/
def userMembers (parse : String → Option Timestamp) : List Member :=
  [.required "_id" .string, .optionalDate parse "_updatedAt", .optionalDate parse "createdAt",
   .optional "username" .string, .optional "name" .string, .optional "nickname" .string,
   .optional "bio" .string, .optional "roles" (.list .string), .optional "type" .string,
   .optional "active" .bool, .optional "inactiveReason" .string,
   .optional "status" (.wireEnum userStatus), .optional "statusDefault" (.wireEnum userStatus),
   .optional "statusConnection" .string, .optional "statusText" .string,
   .optional "statusSource" (.wireEnum presenceSource), .optionalDate parse "statusExpiresAt",
   .optional "statusId" .string, .optionalDate parse "lastLogin",
   .optional "emails" (.list userEmail.codec), .optional "avatarOrigin" .string,
   .optional "avatarETag" .string, .optional "avatarUrl" .string, .optional "utcOffset" .f64,
   .optional "language" .string, .optional "phone" .string, .optional "reason" .string,
   .optional "e2e" .value, .optional "settings" .value, .optional "customFields" .value,
   .optional "banners" .value, .optional "defaultRoom" .string, .optional "ldap" .bool,
   .optional "requirePasswordChange" .bool, .optional "requirePasswordChangeReason" .string,
   .optional "roomRolePriorities" (.map .i64), .optional "__rooms" (.list .string),
   .optional "importIds" (.list .string), .optional "inviteToken" .string,
   .optional "freeSwitchExtension" .string, .optional "canViewAllInfo" .bool,
   .optional "providerId" .string, .optional "abacAttributes" (.list .value),
   .optional "federated" .bool, .optional "federation" .value]

theorem user_nodup (parse : String → Option Timestamp) :
    ((userMembers parse).map fun member => member.key).Nodup := by
  change ((userMembers fun _ => none).map fun member => member.key).Nodup
  decide

/-- A user. -/
def user (parse : String → Option Timestamp) : Schema := ⟨userMembers parse, user_nodup parse⟩

end Schema

/-- The entities the cache holds. -/
inductive Entity where
  | room
  | user
  | subscription
  | message
  deriving DecidableEq, Repr

/-- The struct of an entity. -/
def Entity.schema (parse : String → Option Timestamp) : Entity → Schema
  | .room => Schema.room parse
  | .user => Schema.user parse
  | .subscription => Schema.subscription parse
  | .message => Schema.message parse

end RocketSocket
