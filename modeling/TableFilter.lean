import TableFilter.Main
import TableFilter.Proofs.Condition.Return
import TableFilter.Proofs.Session.Reloading
import TableFilter.Proofs.Session.Refusal
import TableFilter.Proofs.Synchronizer.Entries
import TableFilter.Proofs.Synchronizer.Precedence
import TableFilter.Proofs.Synchronizer.Reconciliation
import TableFilter.Proofs.Synchronizer.Reopening
import TableFilter.Proofs.Json.Literals
import TableFilter.Proofs.Field.RoundTrip
import TableFilter.Proofs.Table.RoundTrip
import TableFilter.Proofs.Condition.Spec
import TableFilter.Proofs.Query.Places
import TableFilter.Proofs.CommandLine.Compile
import TableFilter.Proofs.Calendar.EndOfDay
import TableFilter.Proofs.SavedFilter
import TableFilter.Proofs.Document.Junk
import TableFilter.Proofs.Condition.Presence
import TableFilter.Proofs.Condition.Amounts
import TableFilter.Proofs.Session.Moves
