import EdgarSec.Foundation.Files
import EdgarSec.Foundation.Sha256
import EdgarSec.Lib.Levels
import EdgarSec.Lib.Settle
import EdgarSec.Dag.ManifestRoundTrip
import EdgarSec.Dag.Retention
import EdgarSec.Dag.RetainedLineage
import EdgarSec.Dag.Interleaving
import EdgarSec.Dag.PurgeRace
import EdgarSec.Dag.LosslessDelta
import EdgarSec.Dag.StagedParts
import EdgarSec.Dag.FailedPublication
import EdgarSec.Dag.LineageOrder
import EdgarSec.Dag.GreatestPurge
import EdgarSec.Dag.KeyBounds
import EdgarSec.SecHttp.RateLimit
import EdgarSec.SecHttp.SizeRefusals
import EdgarSec.Dag.FingerprintIdentity
import EdgarSec.Acquisition.RunLock
import EdgarSec.Acquisition.Ledger
import EdgarSec.Cohort.Deletion
import EdgarSec.Broker.Replies
import EdgarSec.Inventory.Resumption
import EdgarSec.Inventory.Provenance
import EdgarSec.Inventory.PointQuery
import EdgarSec.Xbrl.PartitionVerdicts
import EdgarSec.Document.ExactExtraction
import EdgarSec.Document.ReaderAgreement
import EdgarSec.Document.PageStripping
import EdgarSec.FilingCatalog.Canonical
import EdgarSec.MetadataSync.RunLock
import EdgarSec.MetadataSync.ChunkDone
import EdgarSec.MetadataSync.WorkerBundles
import EdgarSec.MetadataSync.MergeExact
import EdgarSec.FilingCatalog.PlanPublication
import EdgarSec.FilingCatalog.PlanExpansion
import EdgarSec.DocumentPlanning.UrlSafety
import EdgarSec.Xbrl.Subsumption
import EdgarSec.Xbrl.Equivalence
import EdgarSec.Inventory.BoundedResults
import EdgarSec.Cohort.Identifiers
import EdgarSec.Cohort.Shadowing
import EdgarSec.Xbrl.GapFilling
import EdgarSec.Xbrl.ReportedFigures
import EdgarSec.Storage.StagedWriter
import EdgarSec.Storage.StagedCommits
import EdgarSec.Acquisition.FirstWriter
import EdgarSec.Broker.StagedExits
import EdgarSec.Xbrl.FinerGroups
import EdgarSec.Xbrl.DimensionalResolution
import EdgarSec.Xbrl.ConsumptionOrder
import EdgarSec.Xbrl.Scoping
import EdgarSec.Xbrl.Identities
import EdgarSec.Xbrl.RestatedDuplicates
import EdgarSec.Xbrl.Evaluation
import EdgarSec.Xbrl.Derivations
import EdgarSec.Lexical.PhraseSearch
import EdgarSec.Lexical.ShortCircuit
import EdgarSec.Lexical.TieBreaks
import EdgarSec.Patterns.LongestMatch
import EdgarSec.Selection.CellAllocation
import EdgarSec.FilingCatalog.DateSql
import EdgarSec.Tables.RowRuns
import EdgarSec.Document.PageRuns
import EdgarSec.Document.PageInference
import EdgarSec.Foundation.Lines
import EdgarSec.Document.PageAlignment
import EdgarSec.Lib.Substitution
import EdgarSec.Tables.Protection
import EdgarSec.Tables.SpanRewriting
import EdgarSec.Tables.HybridPre
import EdgarSec.Tables.HybridRestoring
import EdgarSec.Document.SignatureMask
import EdgarSec.Document.SignatureRestoring
import EdgarSec.DocumentPlanning.ScopeOrder
import EdgarSec.Document.MarkerAnalysis
import EdgarSec.Dag.PartBudget
import EdgarSec.Xbrl.SubsetSearch
import EdgarSec.Tables.SpanOwnership
import EdgarSec.DocumentPlanning.FirstPublisher
import EdgarSec.Xbrl.FiscalYears
import EdgarSec.Acquisition.OperationProcessing
import EdgarSec.Acquisition.ProcessingRun
import EdgarSec.Acquisition.OperationResults
import EdgarSec.Acquisition.ProcessingPhases
import EdgarSec.Acquisition.RetryIndependence
import EdgarSec.Selection.EraBands
import EdgarSec.Dates.Formats
import EdgarSec.Dates.Healing
import EdgarSec.Tables.ColumnWidths
import EdgarSec.Tables.WidthBalance
import EdgarSec.Cohort.Expressions
import EdgarSec.Dag.CompactionParity
import EdgarSec.DocumentPlanning.EvidenceStream
