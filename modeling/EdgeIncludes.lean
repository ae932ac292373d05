import EdgeIncludes.Bytes
import EdgeIncludes.Eligibility
import EdgeIncludes.Include.Request
import EdgeIncludes.Include.Target
import EdgeIncludes.Json.Token
import EdgeIncludes.Json.Value
import EdgeIncludes.Log
import EdgeIncludes.Markup.Event
import EdgeIncludes.Markup.Trim
import EdgeIncludes.Page.Builder
import EdgeIncludes.Page.Document
import EdgeIncludes.Page.Fragment
import EdgeIncludes.Page.Intake
import EdgeIncludes.Response.Assembly
import EdgeIncludes.Response.Effect
import EdgeIncludes.Response.Proxy
import EdgeIncludes.Response.Stream
import EdgeIncludes.Scan.Carry
import EdgeIncludes.Scan.Cursors
import EdgeIncludes.Scan.Scanner
import EdgeIncludes.Scan.State
import EdgeIncludes.Settings
import EdgeIncludes.Tag
import EdgeIncludes.Text.Field
import EdgeIncludes.Text.Shown
import EdgeIncludes.Text.Utf8
import EdgeIncludes.Proofs.Markup.Coalescing
import EdgeIncludes.Proofs.Markup.Lexeme
import EdgeIncludes.Proofs.Markup.Parts
import EdgeIncludes.Proofs.Markup.Units
import EdgeIncludes.Proofs.Scan.Draft
import EdgeIncludes.Proofs.Scan.Noting
import EdgeIncludes.Proofs.Scan.Reading
import EdgeIncludes.Proofs.Scan.Chunking
import EdgeIncludes.Proofs.Scan.Grammar
import EdgeIncludes.Proofs.Scan.Tokenisation
import EdgeIncludes.Proofs.Scan.Quoting
import EdgeIncludes.Proofs.Scan.Offsets
import EdgeIncludes.Proofs.Scan.Watch
import EdgeIncludes.Proofs.Scan.Recall
import EdgeIncludes.Proofs.Scan.Lockstep
import EdgeIncludes.Proofs.Scan.Safety
import EdgeIncludes.Proofs.Scan.Accounting
import EdgeIncludes.Proofs.Page.History
import EdgeIncludes.Proofs.Page.Selection
import EdgeIncludes.Proofs.Page.Joining
import EdgeIncludes.Proofs.Page.Builder
import EdgeIncludes.Proofs.Page.Delivery
import EdgeIncludes.Proofs.Page.Forest
import EdgeIncludes.Proofs.Page.Group
import EdgeIncludes.Proofs.Page.Growth
import EdgeIncludes.Proofs.Page.Meaning
import EdgeIncludes.Proofs.Page.Slots
import EdgeIncludes.Proofs.Text.Numeral
import EdgeIncludes.Proofs.Response.Timeline
import EdgeIncludes.Proofs.Response.Fetching
import EdgeIncludes.Proofs.Response.Turns
import EdgeIncludes.Proofs.Response.Rules
import EdgeIncludes.Proofs.Response.Recursion
import EdgeIncludes.Proofs.Response.Phases
import EdgeIncludes.Proofs.Response.Lifecycle
import EdgeIncludes.Proofs.Response.Accounts
import EdgeIncludes.Proofs.Response.Conduct
import EdgeIncludes.Proofs.Response.Attendance
import EdgeIncludes.Proofs.Response.Course
import EdgeIncludes.Proofs.Response.Discipline
import EdgeIncludes.Proofs.Response.Outcomes
import EdgeIncludes.Proofs.Response.Confluence
import EdgeIncludes.Proofs.Page.Exceptions
import EdgeIncludes.Proofs.Page.Placement
import EdgeIncludes.Proofs.Page.Ignoring
import EdgeIncludes.Proofs.Include.Target
import EdgeIncludes.Proofs.Page.Sources
import EdgeIncludes.Proofs.Response.Requests
import EdgeIncludes.Proofs.Response.Hosting
import EdgeIncludes.Proofs.Response.Isolation
import EdgeIncludes.Proofs.Response.Reception
import EdgeIncludes.Proofs.Response.Deliveries
import EdgeIncludes.Proofs.Scan.Shortcut
import EdgeIncludes.Proofs.Page.Canonical
import EdgeIncludes.Proofs.Scan.Values
import EdgeIncludes.Proofs.Page.Reuse
import EdgeIncludes.Proofs.Scan.Rebasing
