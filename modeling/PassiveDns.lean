import PassiveDns.Address
import PassiveDns.Admission
import PassiveDns.Capture.Blocks
import PassiveDns.Capture.Classic
import PassiveDns.Capture.Error
import PassiveDns.Capture.File
import PassiveDns.Capture.Replay
import PassiveDns.Capture.Window
import PassiveDns.Command.Execute
import PassiveDns.Command.Job
import PassiveDns.Command.Key
import PassiveDns.Command.Request
import PassiveDns.Config.Ratio
import PassiveDns.Config.Settings
import PassiveDns.Dns.Code
import PassiveDns.Dns.Message
import PassiveDns.Dns.Name
import PassiveDns.Dns.Record
import PassiveDns.Dns.Wire
import PassiveDns.FileFault
import PassiveDns.Main
import PassiveDns.Metrics
import PassiveDns.Observation
import PassiveDns.Octets
import PassiveDns.Packet.Basic
import PassiveDns.Packet.Classify
import PassiveDns.Packet.Header
import PassiveDns.Pipeline.Network
import PassiveDns.Pipeline.Run
import PassiveDns.Pipeline.Station
import PassiveDns.Proofs.Datagrams
import PassiveDns.Proofs.Dns.Carrying
import PassiveDns.Proofs.Dns.Drafts
import PassiveDns.Proofs.Dns.Messages
import PassiveDns.Proofs.Dns.Names
import PassiveDns.Proofs.Dns.Records
import PassiveDns.Proofs.Dns.Spelling
import PassiveDns.Proofs.FanOut
import PassiveDns.Proofs.Fragments.Completion
import PassiveDns.Proofs.Fragments.Gathering
import PassiveDns.Proofs.Fragments.Origin
import PassiveDns.Proofs.Fragments.Taking
import PassiveDns.Proofs.Fragments.Transparency
import PassiveDns.Proofs.Lists
import PassiveDns.Proofs.Octets
import PassiveDns.Proofs.Packet.Chain
import PassiveDns.Proofs.Packet.Layout
import PassiveDns.Proofs.Pipeline.Account
import PassiveDns.Proofs.Pipeline.Delivery
import PassiveDns.Proofs.Pipeline.Keeping
import PassiveDns.Proofs.Pipeline.Ledger
import PassiveDns.Proofs.Pipeline.Moves
import PassiveDns.Proofs.Pipeline.Progress
import PassiveDns.Proofs.Pipeline.Replay
import PassiveDns.Proofs.Pipeline.Sending
import PassiveDns.Proofs.Pipeline.Termination
import PassiveDns.Proofs.Pipeline.Traffic
import PassiveDns.Proofs.Stream.Chunking
import PassiveDns.Proofs.Stream.Conversation
import PassiveDns.Proofs.Stream.Cutting
import PassiveDns.Proofs.Stream.Delivered
import PassiveDns.Proofs.Stream.InOrder
import PassiveDns.Proofs.Stream.Isolation
import PassiveDns.Proofs.Stream.Placement
import PassiveDns.Proofs.Stream.Reopening
import PassiveDns.Proofs.Stream.Sequence
import PassiveDns.Proofs.Stream.Session
import PassiveDns.Proofs.Stream.Sharding
import PassiveDns.Proofs.Stream.SingleFlow
import PassiveDns.Proofs.Stream.Start
import PassiveDns.Proofs.Stream.Tracking
import PassiveDns.Proofs.Stream.Transmission
import PassiveDns.Proofs.Stream.Waiting
import PassiveDns.Proofs.Table
import PassiveDns.Proofs.Utf8
import PassiveDns.Proofs.Verdict
import PassiveDns.Reassembly
import PassiveDns.Shutdown
import PassiveDns.Sink.Device
import PassiveDns.Sink.FanOut
import PassiveDns.Sink.JsonLines
import PassiveDns.Stream.Connections
import PassiveDns.Stream.Framing
import PassiveDns.Stream.Reorder
import PassiveDns.Table
import PassiveDns.Text.Decimal
import PassiveDns.Text.Digits
import PassiveDns.Text.Json
import PassiveDns.Text.Quoted
import PassiveDns.Text.Split
import PassiveDns.Text.Unprintable
import PassiveDns.Text.Utf8
import PassiveDns.Timestamp
import PassiveDns.Toml.Parser
import PassiveDns.Toml.Value
import PassiveDns.Proofs.Dns.Watched
import PassiveDns.Proofs.Dns.Consumption
import PassiveDns.Proofs.Dns.Access
import PassiveDns.Proofs.Fragments.Bookkeeping
import PassiveDns.Proofs.Stream.Ranges
import PassiveDns.Proofs.Stream.Lifecycle
import PassiveDns.Proofs.Stream.Accounting
import PassiveDns.Proofs.Packet.Tunnels
import PassiveDns.Proofs.Outlets
import PassiveDns.Proofs.HandOut
import PassiveDns.Proofs.Pipeline.History
import PassiveDns.Proofs.Pipeline.Wiring
import PassiveDns.Proofs.Pipeline.Balance
import PassiveDns.Proofs.Fragments.Ending
import PassiveDns.Proofs.Fragments.Effects
import PassiveDns.Proofs.Fragments.Eviction
import PassiveDns.Proofs.Dns.Confinement
import PassiveDns.Proofs.Dns.Suffixes
import PassiveDns.Proofs.Dns.Chains
import PassiveDns.Proofs.Dns.Following
import PassiveDns.Proofs.Dns.Announcing
import PassiveDns.Proofs.Packet.Padding
import PassiveDns.Proofs.Packet.Places
import PassiveDns.Proofs.Sampling
import PassiveDns.Proofs.Duplicates
import PassiveDns.Proofs.Masking
import PassiveDns.Proofs.Capture.Refills
import PassiveDns.Proofs.Capture.Readout
import PassiveDns.Proofs.Capture.Records
import PassiveDns.Proofs.Capture.Blocks
import PassiveDns.Proofs.Capture.Sections
import PassiveDns.Proofs.Fragments.Ceilings
import PassiveDns.Proofs.Digits
import PassiveDns.Proofs.Ratios
import PassiveDns.Proofs.Awaiting
import PassiveDns.Proofs.Documents
import PassiveDns.Proofs.Lines
