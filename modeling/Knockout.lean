import Knockout.Disk
import Knockout.Main
import Knockout.Proofs.GrammarReading
import Knockout.Proofs.SourceCoverage
import Knockout.Proofs.EntryReading
import Knockout.Proofs.Acceptance
import Knockout.Proofs.BlockBoundaries
import Knockout.Proofs.Visits
import Knockout.Proofs.Concatenation
import Knockout.Proofs.Pruning
import Knockout.Proofs.PrunedEntries
import Knockout.Proofs.PrunedDocument
import Knockout.Proofs.RowTallies
import Knockout.Proofs.StandingsReference
import Knockout.Proofs.DotReading
import Knockout.Proofs.GraphReading
import Knockout.Proofs.Advances
import Knockout.Proofs.BracketDrawing
import Knockout.Proofs.LabelReading
import Knockout.Proofs.ConfinedTexts
import Knockout.Proofs.TableTotals
import Knockout.Proofs.FillReading
import Knockout.Proofs.MatchAgreement
import Knockout.Proofs.Emission
import Knockout.Proofs.PlainReading
import Knockout.Proofs.Strictness
import Knockout.Proofs.DeclaredParts
import Knockout.Proofs.Policies
import Knockout.Proofs.Ledger
import Knockout.Proofs.CommandEffects
import Knockout.Proofs.MirroredAssembly
import Knockout.Proofs.Layout
import Knockout.Proofs.KeywordCasing
import Knockout.Proofs.EntrySources
import Knockout.Proofs.TournamentSources
import Knockout.Proofs.WrittenScores
import Knockout.Proofs.SourcePositions
import Knockout.Proofs.LineLocality
import Knockout.Proofs.ReportedFindings
import Knockout.Proofs.StableOrder
import Knockout.Proofs.TableOrder
import Knockout.Proofs.ExactFigures
import Knockout.Proofs.Conservation
import Knockout.Proofs.GoalOrder
import Knockout.Proofs.PlayerTallies
import Knockout.Proofs.AnchoredReports
import Knockout.Proofs.SkippedRuns
import Knockout.Proofs.DroppedEntries
import Knockout.Proofs.ReportBudget
import Knockout.Proofs.LoneKeywords
import Knockout.Proofs.GridAlignment
