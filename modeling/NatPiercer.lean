import NatPiercer.Lib.Text
import NatPiercer.Lib.Utf8
import NatPiercer.Lib.HashMap
import NatPiercer.Lib.LockProg
import NatPiercer.Lib.Run
import NatPiercer.Lib.SocketAddr
import NatPiercer.Lib.Vec
import NatPiercer.Lib.Flood
import NatPiercer.Proto.ControlText
import NatPiercer.Proto.Packet
import NatPiercer.Signaling.Structures
import NatPiercer.Signaling.HandlersUtils
import NatPiercer.Signaling.Notifications
import NatPiercer.Signaling.Heartbeat
import NatPiercer.Signaling.Handlers
import NatPiercer.Signaling.Server
import NatPiercer.Signaling.ChannelStep
import NatPiercer.Signaling.Step
import NatPiercer.Signaling.Locking
import NatPiercer.Signaling.ChannelCases
import NatPiercer.Signaling.Membership
import NatPiercer.Signaling.Eligibility
import NatPiercer.Signaling.Cleanup
import NatPiercer.Signaling.Told
import NatPiercer.Client.Structures
import NatPiercer.Client.Handlers
import NatPiercer.Client.Networking
import NatPiercer.Client.Main
import NatPiercer.Client.Hearing
import NatPiercer.Client.Relaying
import NatPiercer.Client.Tables
import NatPiercer.System.Mirroring
import NatPiercer.Client.Calls
import NatPiercer.Signaling.Order
import NatPiercer.System.Tells
import NatPiercer.System.Joint
import NatPiercer.System.Handover
import NatPiercer.System.ActingRelay
import NatPiercer.System.Delivery
import NatPiercer.System.Party
import NatPiercer.System.Lines
import NatPiercer.System.Settled
import NatPiercer.System.Routing
import NatPiercer.System.ExactlyOnce
import NatPiercer.Lib.Interleave
import NatPiercer.Signaling.Served
import NatPiercer.Signaling.Outsiders
import NatPiercer.Signaling.Sections
import NatPiercer.Signaling.Rosters
import NatPiercer.Signaling.PeerIds
import NatPiercer.Client.Heard
import NatPiercer.Client.Setup
import NatPiercer.Client.Control
import NatPiercer.Client.Framing
import NatPiercer.Client.Keepalive
import NatPiercer.System.Welcome
import NatPiercer.System.Introductions
import NatPiercer.System.Reports
import NatPiercer.Signaling.Stability
import NatPiercer.Signaling.Elections
import NatPiercer.System.Answers
import NatPiercer.System.Scripts
import NatPiercer.System.Isolation
import NatPiercer.Signaling.DataRouting
import NatPiercer.System.RelaysTold
import NatPiercer.System.Announcements
import NatPiercer.System.Sizes
import NatPiercer.Client.Arguments
import NatPiercer.System.Sessions
import NatPiercer.System.Conversation
import NatPiercer.Signaling.Departures
import NatPiercer.Signaling.Echoes
import NatPiercer.Signaling.Expiry
import NatPiercer.Signaling.Pickers
import NatPiercer.Signaling.Tidying
import NatPiercer.Signaling.Reconnects
import NatPiercer.Signaling.Addresses
import NatPiercer.Lib.Table
import NatPiercer.Lib.Edit
import NatPiercer.Client.Following
import NatPiercer.Client.NatDetection
import NatPiercer.Client.Tick
import NatPiercer.Client.Editing
import NatPiercer.Client.Invariants
import NatPiercer.Signaling.Counting
import NatPiercer.Lib.Checked
import NatPiercer.Proto.Indexed
import NatPiercer.Signaling.Indexed
import NatPiercer.Signaling.IndexedHeartbeat
import NatPiercer.Client.Indexed
import NatPiercer.System.Bounds
import NatPiercer.Signaling.Lifetimes
import NatPiercer.Lib.Beats
import NatPiercer.System.Heartbeats
import NatPiercer.Client.Entries
import NatPiercer.System.Keepalive
import NatPiercer.Client.Punching
import NatPiercer.System.Detection
import NatPiercer.Lib.Threads
import NatPiercer.Lib.Rely
import NatPiercer.Client.Code
import NatPiercer.Client.Turns
import NatPiercer.Client.Threads
import NatPiercer.Client.Contract
import NatPiercer.Client.Together
import NatPiercer.Lib.Mutex
import NatPiercer.Signaling.Tasks
