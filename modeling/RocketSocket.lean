import RocketSocket.Cache.MergeLoss
import RocketSocket.Realtime.Confirmed
import RocketSocket.Realtime.Missed
import RocketSocket.Realtime.CorrelateRun
import RocketSocket.Realtime.NotSent
import RocketSocket.Realtime.Queued
import RocketSocket.Realtime.WireOrder
import RocketSocket.Cache.Cache
import RocketSocket.Cache.Run
import RocketSocket.Cache.Index
import RocketSocket.Cache.Messages
import RocketSocket.Cache.Rings
import RocketSocket.Cache.Users
import RocketSocket.Cache.Copies
import RocketSocket.Cache.Concurrent
import RocketSocket.Cache.Leaks
import RocketSocket.Cache.Capacity
import RocketSocket.Framework.RoleRun
import RocketSocket.Framework.Grants
import RocketSocket.Framework.Fences
import RocketSocket.Framework.Dispatch
import RocketSocket.Framework.Gap
import RocketSocket.Framework.LoopGuard
import RocketSocket.Realtime.Single
import RocketSocket.Cache.Gating
import RocketSocket.Realtime.SessionRun
import RocketSocket.Lib.Roster
import RocketSocket.Realtime.Routing
import RocketSocket.Realtime.Ends
import RocketSocket.Realtime.Channel
import RocketSocket.Realtime.Pacing
import RocketSocket.Realtime.Deadlines
import RocketSocket.Realtime.Pressure
import RocketSocket.Realtime.Handshake
import RocketSocket.Realtime.Standby
import RocketSocket.Realtime.StandbyRace
import RocketSocket.Framework.SingleFlight
import RocketSocket.Framework.Flights
import RocketSocket.Rest.Credentials
import RocketSocket.Rest.Answer
import RocketSocket.Rest.Logout
import RocketSocket.Rest.Orphans
import RocketSocket.Framework.Isolation
import RocketSocket.Lib.TaggedUnion
import RocketSocket.Model.Frames
import RocketSocket.Model.Decoding
import RocketSocket.Model.Catalog
import RocketSocket.Model.Events
import RocketSocket.Model.Leniency
import RocketSocket.Framework.RoomAuthority
import RocketSocket.Framework.RoomMap
import RocketSocket.Cache.Tombstones
import RocketSocket.Lib.Record
import RocketSocket.Lib.Utf8
import RocketSocket.Lib.Str
import RocketSocket.Lib.Fuel
import RocketSocket.Codegen.Parse
import RocketSocket.Codegen.Scan
import RocketSocket.Codegen.Split
import RocketSocket.Codegen.Strip
import RocketSocket.Codegen.Comments
import RocketSocket.Codegen.Total
import RocketSocket.Codegen.Nested
import RocketSocket.Codegen.Grammar
import RocketSocket.Codegen.Format
import RocketSocket.Codegen.ReadBack
import RocketSocket.Model.Timestamp
import RocketSocket.Model.Codec
import RocketSocket.Model.Document
import RocketSocket.Model.Schema
import RocketSocket.Cache.MergeRule
import RocketSocket.Codegen.Keys
import RocketSocket.Framework.Endpoint
import RocketSocket.Framework.Bot
import RocketSocket.Codegen.Splice
import RocketSocket.Lib.Cut
import RocketSocket.Lib.Span
import RocketSocket.Model.Change
import RocketSocket.Model.Codes
import RocketSocket.Realtime.Schedule
import RocketSocket.Rest.Pagination
import RocketSocket.Rest.RetryAfter
import RocketSocket.Truncation
import RocketSocket.Codegen.Slots
import RocketSocket.Codegen.Spacing
import RocketSocket.Realtime.Lifecycle
import RocketSocket.Realtime.Gaps
import RocketSocket.Cache.Replay
import RocketSocket.Codegen.Lookup
import RocketSocket.Framework.Declared
