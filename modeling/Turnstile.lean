import Turnstile.Binary64.Basic
import Turnstile.Binary64.Decimal
import Turnstile.Binary64.Notation
import Turnstile.Bits
import Turnstile.Cache.Captured
import Turnstile.Cache.Entries
import Turnstile.Cache.Lookups
import Turnstile.Cache.Service
import Turnstile.Cache.Stage
import Turnstile.Calendar
import Turnstile.Clock
import Turnstile.Connection.Basic
import Turnstile.Connection.Frame
import Turnstile.Gateway.Api
import Turnstile.Gateway.Basic
import Turnstile.Gateway.Challenge
import Turnstile.Gateway.Cors
import Turnstile.Gateway.Exchange
import Turnstile.Gateway.Occasion
import Turnstile.Http.Form
import Turnstile.Http.Head
import Turnstile.Http.Headers
import Turnstile.Http.Method
import Turnstile.Http.Peer
import Turnstile.Http.Reading
import Turnstile.Http.Request
import Turnstile.Http.Response
import Turnstile.Http.Status
import Turnstile.Identity.Caller
import Turnstile.Identity.Claims
import Turnstile.Identity.Digest
import Turnstile.Identity.Token
import Turnstile.Json.Numeral
import Turnstile.Json.Printer
import Turnstile.Json.Reader
import Turnstile.Json.Tree
import Turnstile.Json.Value
import Turnstile.Keyed
import Turnstile.Main
import Turnstile.Proofs.Binary64.Rounding
import Turnstile.Proofs.Binary64.Shortest
import Turnstile.Proofs.Bits
import Turnstile.Proofs.Cache.Bulk
import Turnstile.Proofs.Cache.Captured
import Turnstile.Proofs.Cache.Chronicle
import Turnstile.Proofs.Cache.Entries
import Turnstile.Proofs.Cache.Queries
import Turnstile.Proofs.Cache.Service
import Turnstile.Proofs.Cache.Sharing
import Turnstile.Proofs.Cache.Stage
import Turnstile.Proofs.Cache.Tally
import Turnstile.Proofs.Connection.Dispatch
import Turnstile.Proofs.Connection.Farewell
import Turnstile.Proofs.Connection.Framing
import Turnstile.Proofs.Connection.Oversize
import Turnstile.Proofs.Gateway.Budget
import Turnstile.Proofs.Gateway.Course
import Turnstile.Proofs.Gateway.Coverage
import Turnstile.Proofs.Gateway.Endpoints
import Turnstile.Proofs.Gateway.Fields
import Turnstile.Proofs.Gateway.Guards
import Turnstile.Proofs.Gateway.Horizon
import Turnstile.Proofs.Gateway.Identified
import Turnstile.Proofs.Gateway.Keeping
import Turnstile.Proofs.Gateway.Quiet
import Turnstile.Proofs.Gateway.Stacks
import Turnstile.Proofs.Gateway.Watched
import Turnstile.Proofs.Http.Delimiting
import Turnstile.Proofs.Http.Form
import Turnstile.Proofs.Http.Lengths
import Turnstile.Proofs.Http.Scanning
import Turnstile.Proofs.Identity.Claims
import Turnstile.Proofs.Identity.Token
import Turnstile.Proofs.Json.Decimals
import Turnstile.Proofs.Json.Proper
import Turnstile.Proofs.Json.Strings
import Turnstile.Proofs.Keyed
import Turnstile.Proofs.Route.Dispatch
import Turnstile.Proofs.Route.Matching
import Turnstile.Proofs.Run
import Turnstile.Proofs.Schema.Addresses
import Turnstile.Proofs.Schema.Approval
import Turnstile.Proofs.Schema.Canonical
import Turnstile.Proofs.Schema.Checksum
import Turnstile.Proofs.Schema.Entities
import Turnstile.Proofs.Schema.Formats
import Turnstile.Proofs.Schema.Nesting
import Turnstile.Proofs.Schema.Payloads
import Turnstile.Proofs.Schema.Sanitize
import Turnstile.Proofs.Schema.Satisfaction
import Turnstile.Proofs.Schema.Tags
import Turnstile.Proofs.Schema.Unique
import Turnstile.Proofs.Schema.Violations
import Turnstile.Proofs.Settings.Seconds
import Turnstile.Proofs.Text.Blank
import Turnstile.Proofs.Text.Utf8
import Turnstile.Proofs.Throttle.Attempts
import Turnstile.Proofs.Throttle.Levies
import Turnstile.Proofs.Throttle.Blocks
import Turnstile.Proofs.Throttle.Budgets
import Turnstile.Proofs.Throttle.Charges
import Turnstile.Proofs.Throttle.Cleanup
import Turnstile.Proofs.Throttle.Counter
import Turnstile.Proofs.Throttle.Forecast
import Turnstile.Proofs.Throttle.Remaining
import Turnstile.Proofs.Throttle.Standstill
import Turnstile.Proofs.Throttle.Strokes
import Turnstile.Proofs.Throttle.Windows
import Turnstile.Route.Pattern
import Turnstile.Route.Router
import Turnstile.Run
import Turnstile.Schedule
import Turnstile.Schema.Address
import Turnstile.Schema.Basic
import Turnstile.Schema.Constraint
import Turnstile.Schema.Failures
import Turnstile.Schema.Formats
import Turnstile.Schema.Payload
import Turnstile.Schema.Report
import Turnstile.Schema.Sanitize
import Turnstile.Settings.Basic
import Turnstile.Settings.Environment
import Turnstile.Settings.RateLimits
import Turnstile.Slots
import Turnstile.Text.Ascii
import Turnstile.Text.Blank
import Turnstile.Text.Quoted
import Turnstile.Text.Utf8
import Turnstile.Text.Visible
import Turnstile.Throttle.Counter
import Turnstile.Throttle.Plan
import Turnstile.Throttle.Stage
