import SeqAsm.Arith.Basic
import SeqAsm.Arith.Binomial
import SeqAsm.Arith.Digits
import SeqAsm.Arith.Report
import SeqAsm.Arith.Root
import SeqAsm.Cache
import SeqAsm.CallGraph.Basic
import SeqAsm.CallGraph.Closure
import SeqAsm.CallGraph.Components
import SeqAsm.CallGraph.Crawl
import SeqAsm.CallGraph.Dot
import SeqAsm.CallGraph.Summary
import SeqAsm.Cli.Arguments
import SeqAsm.Cli.Help
import SeqAsm.Cli.Request
import SeqAsm.Cli.Run
import SeqAsm.Datum
import SeqAsm.Dependency
import SeqAsm.Diagnostic.Basic
import SeqAsm.Diagnostic.Cause
import SeqAsm.Diagnostic.Code
import SeqAsm.Diagnostic.Span
import SeqAsm.Event
import SeqAsm.Files
import SeqAsm.Ids
import SeqAsm.Limits
import SeqAsm.Loader
import SeqAsm.Machine
import SeqAsm.Main
import SeqAsm.Opcode
import SeqAsm.Operand
import SeqAsm.Program.Basic
import SeqAsm.Program.Defect
import SeqAsm.Program.Form
import SeqAsm.Program.Parser
import SeqAsm.Program.Printer
import SeqAsm.Proofs.Cache.Nested
import SeqAsm.Proofs.Cache.Schedule
import SeqAsm.Proofs.Cache.SingleFlight
import SeqAsm.Proofs.Cache.Tickets
import SeqAsm.Proofs.CallGraph.Agreement
import SeqAsm.Proofs.CallGraph.Built
import SeqAsm.Proofs.CallGraph.Closure
import SeqAsm.Proofs.CallGraph.Components
import SeqAsm.Proofs.CallGraph.Crawl
import SeqAsm.Proofs.CallGraph.Search
import SeqAsm.Proofs.CallGraph.Tarjan
import SeqAsm.Proofs.Dependency.AtHand
import SeqAsm.Proofs.Dependency.Calls
import SeqAsm.Proofs.Dependency.Exact
import SeqAsm.Proofs.Dependency.Memo
import SeqAsm.Proofs.Dependency.Resolution
import SeqAsm.Proofs.Dependency.Search
import SeqAsm.Proofs.Machine.Acts
import SeqAsm.Proofs.Machine.Again
import SeqAsm.Proofs.Machine.Checked
import SeqAsm.Proofs.Machine.Coupling
import SeqAsm.Proofs.Machine.Crashes
import SeqAsm.Proofs.Machine.Failures
import SeqAsm.Proofs.Machine.Hosts
import SeqAsm.Proofs.Machine.Limits
import SeqAsm.Proofs.Machine.Lockstep
import SeqAsm.Proofs.Machine.Passage
import SeqAsm.Proofs.Machine.Replay
import SeqAsm.Proofs.Machine.Sizes
import SeqAsm.Proofs.Machine.Termination
import SeqAsm.Proofs.Machine.Trail
import SeqAsm.Proofs.Program.Form
import SeqAsm.Proofs.Program.Lines
import SeqAsm.Proofs.Program.RoundTrip
import SeqAsm.Proofs.Program.WellFormed
import SeqAsm.Proofs.Running
import SeqAsm.Proofs.Session.Calls
import SeqAsm.Proofs.Session.Invariant
import SeqAsm.Proofs.Session.Limits
import SeqAsm.Proofs.Session.Plain
import SeqAsm.Proofs.Session.Preflight
import SeqAsm.Proofs.Session.Requests
import SeqAsm.Proofs.Session.Results
import SeqAsm.Proofs.Session.Shared
import SeqAsm.Proofs.Session.Waiting
import SeqAsm.Proofs.Session.Watch
import SeqAsm.Proofs.Sexp.Written
import SeqAsm.Proofs.Statement.Written
import SeqAsm.Proofs.Store
import SeqAsm.Proofs.Text.Decimal
import SeqAsm.Query
import SeqAsm.Registers
import SeqAsm.Session
import SeqAsm.Sexp.Basic
import SeqAsm.Sexp.Lexeme
import SeqAsm.Sexp.Reader
import SeqAsm.Statement.Basic
import SeqAsm.Statement.Scanner
import SeqAsm.Store
import SeqAsm.Text.Digit
import SeqAsm.Text.Lines
import SeqAsm.Text.Numeral
import SeqAsm.Text.Printable
import SeqAsm.Text.Quoted
import SeqAsm.Text.Real
import SeqAsm.Text.Space
import SeqAsm.Proofs.Session.Trail
import SeqAsm.Proofs.Machine.Loops
import SeqAsm.Proofs.Session.Comparison
import SeqAsm.Proofs.Statement.Layout
import SeqAsm.Proofs.Store.Directory
import SeqAsm.Proofs.Program.Layout
import SeqAsm.Proofs.Program.Matching
import SeqAsm.Proofs.Statement.Grammar
import SeqAsm.Proofs.Program.Defects
import SeqAsm.Proofs.Program.Flaws
import SeqAsm.Proofs.Registers.History
import SeqAsm.Proofs.CallGraph.Reached
import SeqAsm.Proofs.CallGraph.Recursion
import SeqAsm.Proofs.Dependency.Loads
import SeqAsm.Proofs.Machine.Unnumbered
import SeqAsm.Proofs.Program.NodeLines
import SeqAsm.Proofs.Arith.Binomial
import SeqAsm.Proofs.Arith.Root
import SeqAsm.Proofs.Arith.Digits
import SeqAsm.Proofs.Arith.Limit
import SeqAsm.Proofs.Arith.Domain
import SeqAsm.Proofs.Program.Refusals
import SeqAsm.Proofs.Text.Dot
import SeqAsm.Proofs.CallGraph.Drawing
