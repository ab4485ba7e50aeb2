import Sidevers.Lib.Run
import Sidevers.Lib.Table
import Sidevers.Net.Gate
import Sidevers.Proofs.Gate
import Sidevers.Core.Cbor
import Sidevers.Core.Device
import Sidevers.Core.Profile
import Sidevers.Lib.Lww
import Sidevers.Net.Error
import Sidevers.Net.Relationships
import Sidevers.Net.Side
import Sidevers.Proofs.CoHolders
import Sidevers.Proofs.Deltas
import Sidevers.Proofs.Reload
import Sidevers.Core.DeviceWire
import Sidevers.Core.Handshake
import Sidevers.Core.PeerWire
import Sidevers.Core.SideWire
import Sidevers.Lib.CborItem
import Sidevers.Lib.PrefixFree
import Sidevers.Lib.Consumes
import Sidevers.Lib.Sql
import Sidevers.Net.Endpoint
import Sidevers.Net.Handshake
import Sidevers.Net.Membership
import Sidevers.Net.Pool
import Sidevers.Net.ServeVerse
import Sidevers.Net.SideSchema
import Sidevers.Net.StorageProtocol
import Sidevers.Net.VerseNode
import Sidevers.Proofs.Addressee
import Sidevers.Proofs.CborReads
import Sidevers.Proofs.Handshake
import Sidevers.Proofs.Pool
import Sidevers.Proofs.Retirement
import Sidevers.Proofs.SideMigration
import Sidevers.Proofs.SignedForms
import Sidevers.Proofs.VerseConsents
import Sidevers.Proofs.VerseKeys
import Sidevers.Proofs.VerseMembers
import Sidevers.Proofs.VerseOrder
import Sidevers.Proofs.VerseRemoval
import Sidevers.Proofs.VerseRouting
import Sidevers.Proofs.WireForms
import Sidevers.Core.CborValue
import Sidevers.Core.Direct
import Sidevers.Core.EnvelopeWire
import Sidevers.Core.Qr
import Sidevers.Lib.Registry
import Sidevers.Lib.Regroup
import Sidevers.Net.Forward
import Sidevers.Net.ForwardWire
import Sidevers.Net.Gossip
import Sidevers.Net.Groups
import Sidevers.Net.StorageNode
import Sidevers.Proofs.Base32
import Sidevers.Proofs.CborItems
import Sidevers.Proofs.CborSkips
import Sidevers.Proofs.ContractForms
import Sidevers.Proofs.DeviceForms
import Sidevers.Proofs.DirectForms
import Sidevers.Proofs.EnvelopeForms
import Sidevers.Proofs.HandshakeAgreement
import Sidevers.Proofs.Mailbox
import Sidevers.Proofs.Membership
import Sidevers.Proofs.Provenance
import Sidevers.Proofs.QrForms
import Sidevers.Proofs.SessionRegistries
import Sidevers.Proofs.StorageSteps
import Sidevers.Net.Gates
import Sidevers.Net.Reputation
import Sidevers.Proofs.RateIsolation
import Sidevers.Net.ReplayJournal
import Sidevers.Proofs.Restart
import Sidevers.Net.Pairing
import Sidevers.Proofs.Pairing
import Sidevers.Lib.TwoCopies
import Sidevers.Net.SideCalls
import Sidevers.Proofs.SideCalls
import Sidevers.Lib.Tasks
import Sidevers.Net.LifecycleCalls
import Sidevers.Proofs.LifecycleCalls
import Sidevers.Proofs.Retraction
import Sidevers.Lib.Rows
import Sidevers.Net.ObjectCalls
import Sidevers.Proofs.ObjectCalls
import Sidevers.Net.Serving
import Sidevers.Proofs.WireSizes
import Sidevers.Proofs.Serving
import Sidevers.Net.Broadcast
import Sidevers.Core.Amendment
import Sidevers.Proofs.Amendments
import Sidevers.Net.Chunking
import Sidevers.Proofs.Chunking
import Sidevers.Core.HandshakeWire
import Sidevers.Core.RecordWire
import Sidevers.Proofs.RecordForms
import Sidevers.Core.Keystore
import Sidevers.Proofs.Keystore
import Sidevers.Net.Ingest
import Sidevers.Proofs.Ingest
import Sidevers.Net.Publishing
import Sidevers.Proofs.Publishing
import Sidevers.Net.AcceptPairing
import Sidevers.Proofs.AcceptPairing
import Sidevers.Net.ServeLoops
import Sidevers.Proofs.DroppedTypes
import Sidevers.Proofs.Misbehaviour
import Sidevers.Proofs.BroadcastSteps
import Sidevers.Proofs.Broadcast
import Sidevers.Lib.TokenBucket
import Sidevers.Proofs.TokenBuckets
import Sidevers.Lib.Shed
import Sidevers.Net.Eviction
import Sidevers.Proofs.Eviction
import Sidevers.Proofs.ForwardWire
import Sidevers.Lib.Bech32m
import Sidevers.Proofs.Groups
import Sidevers.Core.Address
import Sidevers.Proofs.AddressText
import Sidevers.Lib.Trace
import Sidevers.Net.VerseFanout
import Sidevers.Proofs.VerseFanout
import Sidevers.Proofs.VerseAmends
import Sidevers.Lib.Recency
import Sidevers.Net.Clients
import Sidevers.Net.Discovery
import Sidevers.Proofs.Clients
import Sidevers.Proofs.Discovery
import Sidevers.Proofs.Transfers
import Sidevers.Lib.Channel
import Sidevers.Lib.Utf8
import Sidevers.Net.Inbox
import Sidevers.Proofs.Inbox
import Sidevers.Net.DirectClients
import Sidevers.Proofs.DirectClients
import Sidevers.Proofs.Media
import Sidevers.Lib.UnixPath
import Sidevers.Net.Backups
import Sidevers.Proofs.Backups
