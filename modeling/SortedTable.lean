import SortedTable.Key.PrefixEnd
import SortedTable.Key.Text
import SortedTable.Interval.Distinct
import SortedTable.Interval.Intersection
import SortedTable.Interval.Pieces
import SortedTable.Interval.Text
import SortedTable.Table
import SortedTable.Selection.Registry
import SortedTable.Selection.Text
import SortedTable.Selection.Workspace
import SortedTable.Cell.Register
import SortedTable.Cell.Row
import SortedTable.Setting.Session
import SortedTable.Version
import SortedTable.Proofs.Cell.Equality
import SortedTable.Proofs.Cell.Refusal
import SortedTable.Proofs.Cell.Reversal
import SortedTable.Proofs.Cell.Slicing
import SortedTable.Proofs.Interval.Prefixed
import SortedTable.Proofs.Interval.Refusal
import SortedTable.Proofs.Interval.Tighter
import SortedTable.Proofs.Interval.Totality
import SortedTable.Proofs.Journal.Refusals
import SortedTable.Proofs.Key.Quotation
import SortedTable.Proofs.Selection.FirstBuild
import SortedTable.Proofs.Selection.Legible
import SortedTable.Proofs.Selection.Pieces
import SortedTable.Proofs.Selection.Run
import SortedTable.Proofs.Selection.Survivors
import SortedTable.Proofs.Setting.Recognition
import SortedTable.Proofs.Setting.Settled
import SortedTable.Proofs.Table.Scan
import SortedTable.Proofs.Version.Legible
