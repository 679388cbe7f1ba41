import Flingd.Base.Traced
import Flingd.Base.Walk
import Flingd.Base.Bytes
import Flingd.Base.Decimal
import Flingd.Base.StdMap
import Flingd.Base.Fifo
import Flingd.Base.Outcome
import Flingd.Base.Spread
import Flingd.Base.Turns
import Flingd.Base.Ledger
import Flingd.Base.Presence
import Flingd.Base.Region
import Flingd.Base.Framing
import Flingd.Base.Utf
import Flingd.Base.Json
import Flingd.Base.JsonReader
import Flingd.Base.Transcode
import Flingd.Base.Rapidjson
import Flingd.Base.Regex
import Flingd.Base.Xml
import Flingd.Base.Elements
import Flingd.Base.Erased
import Flingd.Mdns.Buffer
import Flingd.Mdns.Reader
import Flingd.Mdns.Wire
import Flingd.Mdns.Writer
import Flingd.Mdns.Packet
import Flingd.Mdns.Layout
import Flingd.Mdns.Parts
import Flingd.Mdns.Termination
import Flingd.Mdns.Bounds
import Flingd.Mdns.Stores
import Flingd.Mdns.Spelling
import Flingd.Mdns.Written
import Flingd.Mdns.Delimited
import Flingd.Mdns.Pointers
import Flingd.Mdns.Visits
import Flingd.Mdns.Forward
import Flingd.Mdns.Destroyed
import Flingd.Mdns.RoundTrip
import Flingd.Mdns.Records
import Flingd.Mdns.Message
import Flingd.Mdns.Composer
import Flingd.Mdns.RdLength
import Flingd.Mdns.MDNSServer
import Flingd.Mdns.Composed
import Flingd.Mdns.Response
import Flingd.Http.UrlParser
import Flingd.Http.Urls
import Flingd.Http.Queries
import Flingd.Http.Targets
import Flingd.Peers.PeerServer
import Flingd.Peers.Tables
import Flingd.Peers.Bounces
import Flingd.Peers.Events
import Flingd.Peers.PeerText
import Flingd.Net.NetworkManager
import Flingd.Peers.Bindings
import Flingd.Peers.IdTaken
import Flingd.Peers.StoreAndForward
import Flingd.Peers.Replaced
import Flingd.Peers.Relays
import Flingd.Peers.Removed
import Flingd.Peers.Tidy
import Flingd.Peers.Consistent
import Flingd.Peers.Cleanup
import Flingd.Peers.CleanPass
import Flingd.Peers.Mailboxes
import Flingd.Peers.Vouched
import Flingd.App.ApplicationManager
import Flingd.App.Daemon
import Flingd.App.Phases
import Flingd.App.Calls
import Flingd.App.Holdings
import Flingd.App.Launches
import Flingd.App.Requests
import Flingd.App.Steps
import Flingd.App.Runs
import Flingd.App.Deleted
import Flingd.App.Queue
import Flingd.App.Order
import Flingd.App.Paths
import Flingd.App.OneAtATime
import Flingd.App.Closing
import Flingd.App.ReceiverText
import Flingd.App.StatusDocument
import Flingd.App.StatusRead
import Flingd.Platform.PlatformPal
import Flingd.Platform.PalText
import Flingd.Platform.Segments
import Flingd.Platform.Announced
import Flingd.Platform.Flint
import Flingd.Platform.Reads
import Flingd.Platform.Platform
import Flingd.Platform.Kinds
import Flingd.Sdk.MessageChannel
import Flingd.Sdk.FlintReceiverManager
import Flingd.Sdk.Dialogue
import Flingd.Sdk.Transmission
import Flingd.Sdk.MessageBusManager
import Flingd.Sdk.MediaInfo
import Flingd.Sdk.MediaManager
import Flingd.Sdk.MediaAnswers
import Flingd.Sdk.ReceiverLoop
import Flingd.Sdk.Shutdown
import Flingd.App.Names
import Flingd.App.Stopped
import Flingd.App.Refused
import Flingd.App.Answers
import Flingd.App.Receivers
import Flingd.App.Turns
import Flingd.Platform.Shown
import Flingd.App.PostText
import Flingd.App.FlintServer
import Flingd.App.Answered
import Flingd.App.Accessors
import Flingd.App.SessionManager
import Flingd.App.Sessions
import Flingd.App.Forgotten
import Flingd.App.Touched
import Flingd.Inbound
import Flingd.Ws.WebsocketServer
import Flingd.Ws.Links
import Flingd.Ws.Routes
import Flingd.Ws.Attendance
import Flingd.Ws.TearDown
import Flingd.Ws.Arrivals
import Flingd.Sdk.BusPath
import Flingd.Sdk.Audience
import Flingd.Sdk.LastWord
import Flingd.Sdk.Rendezvous
import Flingd.Sdk.PlayerState
import Flingd.Sdk.Accessors
import Flingd.Sdk.Numbers
import Flingd.Sdk.Echo
import Flingd.Ssdp.Discovery
import Flingd.Ssdp.Searches
import Flingd.Base.Templates
import Flingd.App.DeviceDesc
