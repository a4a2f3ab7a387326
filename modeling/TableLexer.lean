import TableLexer.Text.Outline
import TableLexer.Predicate.Classes
import TableLexer.Action
import TableLexer.Limits
import TableLexer.Error
import TableLexer.LineEndings.Source
import TableLexer.Factory
import TableLexer.Journal
import TableLexer.Table
import TableLexer.Draft
import TableLexer.Machine
import TableLexer.Scan
import TableLexer.Json.NumberLiteral
import TableLexer.Json.Record
import TableLexer.Log.Format
import TableLexer.Settings
import TableLexer.Settings.Document
import TableLexer.Setup
import TableLexer.Proofs.PushPull
import TableLexer.Proofs.Accounting
import TableLexer.Proofs.Closure
import TableLexer.Proofs.Newlines
import TableLexer.Proofs.Bounds
import TableLexer.Proofs.Ledger
import TableLexer.Proofs.Online
import TableLexer.Proofs.Chains
import TableLexer.Proofs.Failure
import TableLexer.Proofs.Tracking
import TableLexer.Proofs.Revisions
import TableLexer.Proofs.Trace
import TableLexer.Proofs.Verdict
import TableLexer.Proofs.Gaps
import TableLexer.Proofs.Normalized
import TableLexer.Proofs.Pauses
import TableLexer.Proofs.SizeHints
import TableLexer.Proofs.Loops
import TableLexer.Proofs.Joints
import TableLexer.Proofs.Documents
import TableLexer.Proofs.ShortCircuits
import TableLexer.Proofs.Unambiguous
import TableLexer.Proofs.Probes
import TableLexer.Proofs.Overflow
import TableLexer.Proofs.RoundTrips
