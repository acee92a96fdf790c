import WsKit.Base.Utf8
import WsKit.Base.Str
import WsKit.Base.Ascii
import WsKit.Base.Decimal
import WsKit.Base.Outcome
import WsKit.Codec
import WsKit.Origin
import WsKit.OriginMatch
import WsKit.OriginNormal
import WsKit.Base.Fields
import WsKit.Base.AsciiBytes
import WsKit.Base.FormData
import WsKit.UrlDecode
import WsKit.Extractor
import WsKit.BearerGrammar
import WsKit.QueryParams
import WsKit.MatchingFields
import WsKit.Cookies
import WsKit.CookieEntries
import WsKit.Envelope
import WsKit.Base.Reader
import WsKit.Base.Chunks
import WsKit.Compression
import WsKit.Decompression
import WsKit.InflationLimit
import WsKit.WireForm
import WsKit.ExtensionOffer
import WsKit.Base.Machine
import WsKit.Base.Simulation
import WsKit.Counter
import WsKit.Base.Ledger
import WsKit.Hub
import WsKit.UpgradeGate
import WsKit.Base.Map
import WsKit.Base.Channel
import WsKit.Base.Listening
import WsKit.HubBroadcast
import WsKit.Stats
import WsKit.Gauges
import WsKit.Answers
import WsKit.Room
import WsKit.RoomManager
import WsKit.RoomStore
import WsKit.RoomRefinement
import WsKit.RoomThreads
import WsKit.RoomAgreement
import WsKit.Base.Threads
import WsKit.RoomGauge
import WsKit.RoomCleanup
import WsKit.Base.Linearization
import WsKit.RoomHistory
import WsKit.RoomClients
import WsKit.RoomFrame
import WsKit.RoomOutline
import WsKit.RoomListeners
import WsKit.RoomTraffic
import WsKit.StatsThreads
import WsKit.ExportedCounters
import WsKit.StatsRollUp
import WsKit.Snapshots
import WsKit.SnapshotTotals
import WsKit.Base.Glob
import WsKit.Channels
import WsKit.RemoteInput
import WsKit.Base.LittleEndian
import WsKit.NodeIds
import WsKit.Base.Broker
import WsKit.Cluster
import WsKit.FanOut
import WsKit.FanOutSafety
import WsKit.FanOutComplete
import WsKit.LocalHalf
import WsKit.Delivery
import WsKit.Roster
