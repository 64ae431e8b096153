import Spreadsheet.Disk.FileTree
import Spreadsheet.Main
import Spreadsheet.Proofs.FloatBits
import Spreadsheet.Proofs.Literal
import Spreadsheet.Proofs.Numerals
import Spreadsheet.Proofs.WholeNumbers
import Spreadsheet.Proofs.ColumnLabels
import Spreadsheet.Proofs.AddressText
import Spreadsheet.Proofs.AddressSpelling
import Spreadsheet.Proofs.Except
import Spreadsheet.Proofs.Grammar
import Spreadsheet.Proofs.GrammarSoundness
import Spreadsheet.Proofs.Places
import Spreadsheet.Proofs.ErrorPositions
import Spreadsheet.Proofs.GrammarCompleteness
import Spreadsheet.Proofs.ParserResult
import Spreadsheet.Proofs.Renaming
import Spreadsheet.Proofs.RenderingRoundTrip
import Spreadsheet.Proofs.GridText
import Spreadsheet.Proofs.Precedents
import Spreadsheet.Proofs.TopologicalOrder
import Spreadsheet.Proofs.Grid
import Spreadsheet.Proofs.Rewiring
import Spreadsheet.Proofs.Wiring
import Spreadsheet.Proofs.DependencyOrder
import Spreadsheet.Proofs.Currency
import Spreadsheet.Proofs.Lines
import Spreadsheet.Proofs.LineCells
import Spreadsheet.Proofs.Restating
import Spreadsheet.Proofs.Reshaping
import Spreadsheet.Proofs.Reflow
import Spreadsheet.Proofs.Soundness
import Spreadsheet.Proofs.Reachable
import Spreadsheet.Proofs.FailedCalls
import Spreadsheet.Proofs.SheetInvariants
import Spreadsheet.Proofs.CellText
import Spreadsheet.Proofs.WalkSteps
import Spreadsheet.Proofs.DependencySort
import Spreadsheet.Proofs.CycleCheck
import Spreadsheet.Proofs.Counterparts
import Spreadsheet.Proofs.Retyping
import Spreadsheet.Proofs.Registration
import Spreadsheet.Proofs.Following
import Spreadsheet.Proofs.Insertion
import Spreadsheet.Proofs.Deletion
import Spreadsheet.Proofs.Propagation
import Spreadsheet.Proofs.SubscriptionOrder
import Spreadsheet.Proofs.ShortestPath
import Spreadsheet.Proofs.CyclePath
import Spreadsheet.Proofs.CsvReading
import Spreadsheet.Proofs.ScriptRuns
import Spreadsheet.Proofs.History
import Spreadsheet.Proofs.NumberOrder
import Spreadsheet.Proofs.Extremes
import Spreadsheet.Proofs.ChangeReports
import Spreadsheet.Proofs.InsertionOrder
import Spreadsheet.Proofs.UndoneInsertion
import Spreadsheet.Proofs.RenderingRoom
import Spreadsheet.Proofs.WrittenFiles
import Spreadsheet.Proofs.ProgramRuns
