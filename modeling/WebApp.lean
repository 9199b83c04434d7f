import WebApp.Address
import WebApp.App
import WebApp.Assoc
import WebApp.Background
import WebApp.Bytes
import WebApp.Config
import WebApp.Connection
import WebApp.Datum
import WebApp.Dependency.Basic
import WebApp.Dependency.Resolver
import WebApp.Dependency.Scope
import WebApp.Dispatch
import WebApp.Encoding.Base64
import WebApp.Encoding.Form
import WebApp.Endpoint.Basic
import WebApp.Endpoint.Context
import WebApp.Endpoint.Param
import WebApp.Error
import WebApp.Event
import WebApp.Exceptions
import WebApp.Http.Head
import WebApp.Http.Headers
import WebApp.Http.Method
import WebApp.Http.Reply
import WebApp.Http.Request
import WebApp.Http.Response
import WebApp.Http.Status
import WebApp.Inspect
import WebApp.Json.Access
import WebApp.Json.Fault
import WebApp.Json.Printer
import WebApp.Json.Reader
import WebApp.Json.Scan
import WebApp.Json.Shape
import WebApp.Json.Value
import WebApp.Middleware.AccessLog
import WebApp.Middleware.ErrorPage
import WebApp.Middleware.Layer
import WebApp.Number.Binary64
import WebApp.Number.Integer
import WebApp.Number.Shortest
import WebApp.Proofs.App.ImplicitOptions
import WebApp.Proofs.App.Made
import WebApp.Proofs.App.OptionsCoverage
import WebApp.Proofs.App.Registry
import WebApp.Proofs.App.Tables
import WebApp.Proofs.Assoc
import WebApp.Proofs.Connection.Pace
import WebApp.Proofs.Connection.Pipelining
import WebApp.Proofs.Dependency.CallOrder
import WebApp.Proofs.Dependency.Graph
import WebApp.Proofs.Dependency.PlainRecursion
import WebApp.Proofs.Dependency.ResolverRuns
import WebApp.Proofs.Dependency.ScopeRuns
import WebApp.Proofs.Dispatch.Brackets
import WebApp.Proofs.Dispatch.Discretion
import WebApp.Proofs.Dispatch.Answers
import WebApp.Proofs.Dispatch.Failures
import WebApp.Proofs.Dispatch.Origins
import WebApp.Proofs.Dispatch.Precedence
import WebApp.Proofs.Dispatch.Rounds
import WebApp.Proofs.Dispatch.Stages
import WebApp.Proofs.Dispatch.Teardowns
import WebApp.Proofs.Http.HeadStream
import WebApp.Proofs.Http.Wire
import WebApp.Proofs.Json.Strings
import WebApp.Proofs.Json.Texts
import WebApp.Proofs.Routing.Entries
import WebApp.Proofs.Routing.Grammar
import WebApp.Proofs.Routing.Grown
import WebApp.Proofs.Routing.Growth
import WebApp.Proofs.Routing.Matching
import WebApp.Proofs.Routing.Orderly
import WebApp.Proofs.Routing.Values
import WebApp.Proofs.Security.SlidingLog
import WebApp.Proofs.Task.Given
import WebApp.Proofs.Task.Runs
import WebApp.Proofs.Text.Utf8
import WebApp.Routing.Pattern
import WebApp.Routing.Router
import WebApp.Routing.Table
import WebApp.Routing.Tree
import WebApp.Security.Cors
import WebApp.Security.Credentials
import WebApp.Security.Limiter
import WebApp.Task.Basic
import WebApp.Task.Routine
import WebApp.Task.Thread
import WebApp.Task.World
import WebApp.Text.Basic
import WebApp.Text.Extender
import WebApp.Text.Printable
import WebApp.Text.Utf8
import WebApp.Proofs.Endpoint.Inputs
import WebApp.Proofs.Http.Client
import WebApp.Proofs.Number.Decimal
import WebApp.Proofs.Http.FieldMap
import WebApp.Proofs.Http.WireFormat
import WebApp.Proofs.Http.Splitting
import WebApp.Proofs.Connection.Arrival
import WebApp.Proofs.Connection.Framing
import WebApp.Proofs.Connection.Ambiguity
import WebApp.Proofs.Task.Pauses
import WebApp.Proofs.Task.History
import WebApp.Proofs.Task.Queues
import WebApp.Proofs.Dispatch.Background
import WebApp.Proofs.Dependency.ScopeHistories
import WebApp.Proofs.Dependency.DataFlow
import WebApp.Proofs.Dispatch.Nesting
import WebApp.Proofs.Security.LateChecks
import WebApp.Proofs.Dispatch.Isolation
import WebApp.Proofs.Security.Vary
import WebApp.Proofs.Security.Grants
import WebApp.Proofs.Http.Overlay
import WebApp.Proofs.Security.Decoration
import WebApp.Proofs.Security.Retry
import WebApp.Proofs.Security.Tracking
import WebApp.Proofs.Routing.Routers
import WebApp.Proofs.App.Inclusion
import WebApp.Proofs.Dispatch.Binding
import WebApp.Proofs.Routing.Layouts
import WebApp.Proofs.App.Refusals
import WebApp.Proofs.Text.Trimming
import WebApp.Proofs.Http.Cookies
import WebApp.Proofs.Encoding.Base64
import WebApp.Proofs.Security.BasicCredentials
import WebApp.Proofs.Http.RequestText
import WebApp.Proofs.Connection.Persistence
import WebApp.Proofs.Dependency.Descent
