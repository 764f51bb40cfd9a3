import Blotter.Exact
import Blotter.Journal.Console
import Blotter.Main
import Blotter.Proofs.Averages
import Blotter.Proofs.Cells
import Blotter.Proofs.Chronology
import Blotter.Proofs.Columns
import Blotter.Proofs.Conjunction
import Blotter.Proofs.Declines
import Blotter.Proofs.Endings
import Blotter.Proofs.Extremes
import Blotter.Proofs.Medians
import Blotter.Proofs.Patterns
import Blotter.Proofs.Reconciliation
import Blotter.Proofs.Refinement
import Blotter.Proofs.Refusals
import Blotter.Proofs.Reordering
import Blotter.Proofs.SessionRuns
import Blotter.Proofs.SettingsHistory
import Blotter.Proofs.SpanEnds
import Blotter.Proofs.Tails
import Blotter.Proofs.TaxViews
import Blotter.Proofs.Tokens
import Blotter.Proofs.TradingDays
import Blotter.Proofs.Windows
import Blotter.Proofs.Workers
import Blotter.Sorting
