import Wireframe.DiagnosticForm
import Wireframe.Element.Options
import Wireframe.Json.Printer
import Wireframe.Json.Schema
import Wireframe.Proofs.AcceptedTypes
import Wireframe.Proofs.ColumnTables
import Wireframe.Proofs.Correspondence
import Wireframe.Proofs.Coverage
import Wireframe.Proofs.DepthReports
import Wireframe.Proofs.DiagnosticPaths
import Wireframe.Proofs.DialectTrees
import Wireframe.Proofs.DistinctNames
import Wireframe.Proofs.DocumentOrder
import Wireframe.Proofs.DuplicateKeys
import Wireframe.Proofs.FallbackFields
import Wireframe.Proofs.FieldSearch
import Wireframe.Proofs.Idempotence
import Wireframe.Proofs.KeptEntries
import Wireframe.Proofs.LastLocations
import Wireframe.Proofs.LooserSettings
import Wireframe.Proofs.MarkedLocations
import Wireframe.Proofs.Misfits
import Wireframe.Proofs.NullsLeftOut
import Wireframe.Proofs.NumberPatterns
import Wireframe.Proofs.OptionLists
import Wireframe.Proofs.OptionRequests
import Wireframe.Proofs.PathReading
import Wireframe.Proofs.Patterns
import Wireframe.Proofs.PlacedDiagnostics
import Wireframe.Proofs.PlainLexemes
import Wireframe.Proofs.PlainTags
import Wireframe.Proofs.RelaxedRules
import Wireframe.Proofs.ReportLines
import Wireframe.Proofs.ReportedNodes
import Wireframe.Proofs.RoundTrip
import Wireframe.Proofs.SameKeys
import Wireframe.Proofs.SizeReports
import Wireframe.Proofs.Spellings
import Wireframe.Proofs.Stages
import Wireframe.Proofs.StrictClosure
import Wireframe.Proofs.TableFilters
import Wireframe.Proofs.TimestampPatterns
import Wireframe.Proofs.Totality
import Wireframe.Verdict
