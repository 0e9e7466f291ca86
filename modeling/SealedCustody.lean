import SealedCustody.Account
import SealedCustody.Address
import SealedCustody.Address.Ip
import SealedCustody.Address.Socket
import SealedCustody.Bootstrap
import SealedCustody.Cipher.Aes256
import SealedCustody.Cipher.Gcm
import SealedCustody.CommandLine
import SealedCustody.Config
import SealedCustody.Config.Description
import SealedCustody.Connection
import SealedCustody.Connection.Closures
import SealedCustody.Connection.Links
import SealedCustody.Connection.Table
import SealedCustody.Criteria
import SealedCustody.Custody
import SealedCustody.Daemon
import SealedCustody.Digest.Sha256
import SealedCustody.Digest.Sha512
import SealedCustody.Disk
import SealedCustody.Envelope
import SealedCustody.Error
import SealedCustody.Error.Description
import SealedCustody.Event
import SealedCustody.Event.Channel
import SealedCustody.Identity
import SealedCustody.Identity.Ed25519
import SealedCustody.Identity.KeyFile
import SealedCustody.Instant
import SealedCustody.Json.Access
import SealedCustody.Json.Format
import SealedCustody.Json.Number
import SealedCustody.Json.Token
import SealedCustody.Json.Tree
import SealedCustody.Json.Value
import SealedCustody.LogFilter
import SealedCustody.LogFilter.Directive
import SealedCustody.LogFilter.Pattern
import SealedCustody.Machine
import SealedCustody.Main
import SealedCustody.Mesh.Exchange
import SealedCustody.Mesh.Job
import SealedCustody.Mesh.Link
import SealedCustody.Mesh.LiveStream
import SealedCustody.Mesh.Negotiation
import SealedCustody.Mesh.Nodes
import SealedCustody.Mesh.Program
import SealedCustody.Mesh.Question
import SealedCustody.Mesh.Run
import SealedCustody.Mesh.Scenario
import SealedCustody.Mesh.World
import SealedCustody.Metrics
import SealedCustody.Metrics.Description
import SealedCustody.Node
import SealedCustody.Node.Description
import SealedCustody.Number.Base128
import SealedCustody.Number.Binary64
import SealedCustody.Number.Decimal
import SealedCustody.Number.Shortest
import SealedCustody.PeerId
import SealedCustody.Peers
import SealedCustody.Protobuf
import SealedCustody.Request
import SealedCustody.Request.Lifecycle
import SealedCustody.Request.Manager
import SealedCustody.Request.Status
import SealedCustody.Store
import SealedCustody.Stream.Description
import SealedCustody.Stream.Framing
import SealedCustody.Stream.Handler
import SealedCustody.Table
import SealedCustody.Text.Alphanumeric
import SealedCustody.Text.Base58
import SealedCustody.Text.Base64
import SealedCustody.Text.Blank
import SealedCustody.Text.Hex
import SealedCustody.Text.Utf8
import SealedCustody.Toml.Reader
import SealedCustody.Toml.Value
import SealedCustody.Toml.Writer
import SealedCustody.Verification.Walk
import SealedCustody.Wire.Catalog
import SealedCustody.Wire.Message
import SealedCustody.Wire.ProtocolId
import SealedCustody.Proofs.Store.History
import SealedCustody.Proofs.Lifecycle.Course
import SealedCustody.Proofs.Store.Revision
import SealedCustody.Proofs.Lifecycle.Session
import SealedCustody.Proofs.Lifecycle.Acceptance
import SealedCustody.Proofs.Lifecycle.Decision
import SealedCustody.Proofs.Lifecycle.Failure
import SealedCustody.Proofs.Connection.Run
import SealedCustody.Proofs.Criteria.Completion
import SealedCustody.Proofs.Connection.Tables
import SealedCustody.Proofs.Connection.Convergence
import SealedCustody.Proofs.Envelope.Opening
import SealedCustody.Proofs.Json.Characters
import SealedCustody.Proofs.Number.Rounding
import SealedCustody.Proofs.Number.Overflow
import SealedCustody.Proofs.Json.Numerals
import SealedCustody.Proofs.Json.Grammar
import SealedCustody.Proofs.Json.Lexing
import SealedCustody.Proofs.Json.Members
import SealedCustody.Proofs.Json.RoundTrip
import SealedCustody.Proofs.Json.Parsing
import SealedCustody.Proofs.Json.Depth
import SealedCustody.Proofs.Json.Forms
import SealedCustody.Proofs.Json.Schema
import SealedCustody.Proofs.Wire.Messages
import SealedCustody.Proofs.Wire.Schemas
import SealedCustody.Proofs.Custody.Answers
import SealedCustody.Proofs.Verification.Network
import SealedCustody.Proofs.Verification.Enrolment
import SealedCustody.Proofs.Mesh.Evolution
import SealedCustody.Proofs.Connection.Callers
import SealedCustody.Proofs.Connection.Handout
import SealedCustody.Proofs.Connection.Signals
import SealedCustody.Proofs.Connection.Endpoint
import SealedCustody.Proofs.Connection.Attempts
import SealedCustody.Proofs.Connection.News
import SealedCustody.Proofs.Connection.Health
import SealedCustody.Proofs.Node.Building
import SealedCustody.Proofs.Store.Conduct
import SealedCustody.Proofs.Store.Accounts
import SealedCustody.Proofs.Lifecycle.Reading
import SealedCustody.Proofs.Lifecycle.Refusal
import SealedCustody.Proofs.Lifecycle.Rounds
import SealedCustody.Proofs.Lifecycle.WellFormed
import SealedCustody.Proofs.Custody.Receipts
import SealedCustody.Proofs.Custody.Keeping
import SealedCustody.Proofs.Custody.Offers
import SealedCustody.Proofs.Custody.Uploads
import SealedCustody.Proofs.Cipher.Field
import SealedCustody.Proofs.Cipher.Permutation
import SealedCustody.Proofs.Envelope.Sealing
import SealedCustody.Proofs.Envelope.Tampering
import SealedCustody.Proofs.Verification.Round
import SealedCustody.Proofs.Connection.Survival
import SealedCustody.Proofs.Store.Listing
import SealedCustody.Proofs.Stream.Framing
import SealedCustody.Proofs.Wire.Queries
import SealedCustody.Proofs.Json.Sizes
import SealedCustody.Proofs.Custody.Replication
import SealedCustody.Proofs.Criteria.Integers
import SealedCustody.Proofs.Criteria.Equality
import SealedCustody.Proofs.Connection.Closures
import SealedCustody.Proofs.Event.Reception
import SealedCustody.Proofs.Bootstrap.Vigil
import SealedCustody.Proofs.Criteria.Trichotomy
import SealedCustody.Proofs.Criteria.Validation
import SealedCustody.Proofs.Text.Splitting
import SealedCustody.Proofs.Criteria.Paths
import SealedCustody.Proofs.Criteria.Privacy
import SealedCustody.Proofs.Wire.Identifiers
import SealedCustody.Proofs.Address.Splitting
import SealedCustody.Proofs.Metrics.Latency
import SealedCustody.Proofs.Identity.Encoding
import SealedCustody.Proofs.Disk.Writing
import SealedCustody.Proofs.Identity.KeyFile
import SealedCustody.Proofs.Bootstrap.Backoff
import SealedCustody.Proofs.Mesh.Keepers
