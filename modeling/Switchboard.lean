import Switchboard.Auth.Token
import Switchboard.Breaker
import Switchboard.Call.Address
import Switchboard.Call.Attempt
import Switchboard.Call.Client
import Switchboard.Call.Naming
import Switchboard.Call.Response
import Switchboard.Call.Scratch
import Switchboard.Call.Segment
import Switchboard.Call.Status
import Switchboard.Call.Target
import Switchboard.Decimal
import Switchboard.Digest.Keyed
import Switchboard.Digest.Sha1
import Switchboard.Digest.Sha256
import Switchboard.Digest.Words
import Switchboard.Flow.Audio
import Switchboard.Flow.Branch
import Switchboard.Flow.Definition
import Switchboard.Flow.Message
import Switchboard.Flow.Printer
import Switchboard.Flow.Reader
import Switchboard.Flow.Schedule
import Switchboard.Flow.Step
import Switchboard.Input.Field
import Switchboard.Input.Issue
import Switchboard.Input.Number
import Switchboard.Json.Basic
import Switchboard.Json.Equality
import Switchboard.Json.Printer
import Switchboard.Json.Reader
import Switchboard.Markup
import Switchboard.Mask
import Switchboard.Media
import Switchboard.Phone
import Switchboard.Proofs.Attempt.Attribution
import Switchboard.Proofs.Attempt.Consistency
import Switchboard.Proofs.Attempt.Decision
import Switchboard.Proofs.Attempt.EndedLegs
import Switchboard.Proofs.Attempt.Failure
import Switchboard.Proofs.Attempt.FirstAnswer
import Switchboard.Proofs.Attempt.LateJoin
import Switchboard.Proofs.Attempt.Listing
import Switchboard.Proofs.Attempt.RegistrationOrder
import Switchboard.Proofs.Attempt.Ringing
import Switchboard.Proofs.Attempt.Step
import Switchboard.Proofs.Attempt.Storage
import Switchboard.Proofs.Breaker.Counting
import Switchboard.Proofs.Breaker.Probing
import Switchboard.Proofs.Call.Destinations
import Switchboard.Proofs.Call.Masking
import Switchboard.Proofs.Call.Names
import Switchboard.Proofs.Call.Numbers
import Switchboard.Proofs.Decimal.Binary
import Switchboard.Proofs.Decimal.Rounding
import Switchboard.Proofs.Decimal.Scientific
import Switchboard.Proofs.Decimal.Shortest
import Switchboard.Proofs.Flow.Addresses
import Switchboard.Proofs.Flow.Bodies
import Switchboard.Proofs.Flow.Defects
import Switchboard.Proofs.Flow.Hours
import Switchboard.Proofs.Flow.Paths
import Switchboard.Proofs.Flow.Prompts
import Switchboard.Proofs.Flow.Reading
import Switchboard.Proofs.Flow.Rereading
import Switchboard.Proofs.Flow.RoundTrip
import Switchboard.Proofs.Flow.Speech
import Switchboard.Proofs.Flow.Tree
import Switchboard.Proofs.Input.Values
import Switchboard.Proofs.Json.Numbers
import Switchboard.Proofs.Json.Rereading
import Switchboard.Proofs.Service.Acts
import Switchboard.Proofs.Service.Alike
import Switchboard.Proofs.Service.Asides
import Switchboard.Proofs.Service.Bridging
import Switchboard.Proofs.Service.Callbacks
import Switchboard.Proofs.Service.Continuations
import Switchboard.Proofs.Service.Deeds
import Switchboard.Proofs.Service.Dialing
import Switchboard.Proofs.Service.Disposing
import Switchboard.Proofs.Service.Endings
import Switchboard.Proofs.Service.FlowsInUse
import Switchboard.Proofs.Service.HandedOn
import Switchboard.Proofs.Service.Interleaving
import Switchboard.Proofs.Service.Keeping
import Switchboard.Proofs.Service.LateReports
import Switchboard.Proofs.Service.Manners
import Switchboard.Proofs.Service.Mutation
import Switchboard.Proofs.Service.Places
import Switchboard.Proofs.Service.Placing
import Switchboard.Proofs.Service.Resegmenting
import Switchboard.Proofs.Service.Run
import Switchboard.Proofs.Service.Schedules
import Switchboard.Proofs.Service.Scope
import Switchboard.Proofs.Service.Scoped
import Switchboard.Proofs.Service.Serial
import Switchboard.Proofs.Service.StoredFlows
import Switchboard.Proofs.Service.StoredMedia
import Switchboard.Proofs.Service.TakingMessages
import Switchboard.Proofs.Service.Transcribing
import Switchboard.Proofs.Service.Transcripts
import Switchboard.Proofs.Service.Transfers
import Switchboard.Proofs.Store.Chains
import Switchboard.Proofs.Store.DialedOnce
import Switchboard.Proofs.Store.Handovers
import Switchboard.Proofs.Store.Ids
import Switchboard.Proofs.Store.Lives
import Switchboard.Proofs.Store.Onward
import Switchboard.Proofs.Store.Redelivery
import Switchboard.Proofs.Store.Rows
import Switchboard.Proofs.Text.Digits
import Switchboard.Proofs.Text.Numeral
import Switchboard.Proofs.Text.Percent
import Switchboard.Proofs.Text.Split
import Switchboard.Proofs.Transcript.Moments
import Switchboard.Proofs.Transcript.Parts
import Switchboard.Proofs.Transcript.Rereading
import Switchboard.Proofs.Transcript.Speakers
import Switchboard.Proofs.Transcript.Tiling
import Switchboard.Proofs.Web.Callers
import Switchboard.Proofs.Web.Chains
import Switchboard.Proofs.Web.ClosedSegments
import Switchboard.Proofs.Web.Descent
import Switchboard.Proofs.Web.DialEnds
import Switchboard.Proofs.Web.DialedOnce
import Switchboard.Proofs.Web.FlowChanges
import Switchboard.Proofs.Web.Lasting
import Switchboard.Proofs.Web.LateReports
import Switchboard.Proofs.Web.Loops
import Switchboard.Proofs.Web.Manners
import Switchboard.Proofs.Web.Names
import Switchboard.Proofs.Web.Positions
import Switchboard.Proofs.Web.Records
import Switchboard.Proofs.Web.Redelivery
import Switchboard.Proofs.Web.Relaying
import Switchboard.Proofs.Web.Requests
import Switchboard.Proofs.Web.Resuming
import Switchboard.Proofs.Web.RoundRobin
import Switchboard.Proofs.Web.Superseding
import Switchboard.Proofs.Web.Tenants
import Switchboard.Provider.Account
import Switchboard.Provider.Request
import Switchboard.Service.Calls
import Switchboard.Service.Conference
import Switchboard.Service.Directory
import Switchboard.Service.Fault
import Switchboard.Service.Flows
import Switchboard.Service.Interpreter
import Switchboard.Service.Lifecycle
import Switchboard.Service.Recordings
import Switchboard.Service.Speech
import Switchboard.Service.State
import Switchboard.Service.Task
import Switchboard.Service.Transcripts
import Switchboard.Service.Transfer
import Switchboard.Settings
import Switchboard.Store.Basic
import Switchboard.Store.Calls
import Switchboard.Store.Columns
import Switchboard.Store.Directory
import Switchboard.Store.Flows
import Switchboard.Store.Speech
import Switchboard.Text.Base64
import Switchboard.Text.Blank
import Switchboard.Text.Digit
import Switchboard.Text.Numeral
import Switchboard.Text.Percent
import Switchboard.Text.Split
import Switchboard.Time.Calendar
import Switchboard.Time.Moment
import Switchboard.Time.Zone
import Switchboard.Transcript.Basic
import Switchboard.Transcript.Diarized
import Switchboard.Transcript.Stored
import Switchboard.Transcript.Window
import Switchboard.Web.Guard
import Switchboard.Web.Hooks
import Switchboard.Web.Limit
import Switchboard.Web.Management
import Switchboard.Web.Message
import Switchboard.Web.Route
import Switchboard.Web.Serving
