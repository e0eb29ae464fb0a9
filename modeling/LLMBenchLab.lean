import LLMBenchLab.Table
import LLMBenchLab.Transaction
import LLMBenchLab.Store
import LLMBenchLab.Evidence
import LLMBenchLab.RunLeases
import LLMBenchLab.Admission
import LLMBenchLab.Attempts
import LLMBenchLab.System
import LLMBenchLab.LeaseSteps
import LLMBenchLab.Frames
import LLMBenchLab.RunInvariants
import LLMBenchLab.Constraints
import LLMBenchLab.Cancellation
import LLMBenchLab.Fencing
import LLMBenchLab.WorkerInvariants
import LLMBenchLab.Dispatch
import LLMBenchLab.Books
import LLMBenchLab.Sessions
import LLMBenchLab.Materialization
import LLMBenchLab.Lifecycle
import LLMBenchLab.Limits
import LLMBenchLab.EvidenceIntegrity
import LLMBenchLab.Grouping
import LLMBenchLab.Progress
import LLMBenchLab.Metrics
import LLMBenchLab.Framing
import LLMBenchLab.Streams
import LLMBenchLab.Chunking
import LLMBenchLab.Effects
import LLMBenchLab.Generation
import LLMBenchLab.AttemptProtocol
import LLMBenchLab.Credentials
import LLMBenchLab.Interleaving
import LLMBenchLab.ModelRegistry
import LLMBenchLab.ModelRequests
import LLMBenchLab.CredentialSafety
import LLMBenchLab.Widths
import LLMBenchLab.Backlog
import LLMBenchLab.Policies
import LLMBenchLab.Json
import LLMBenchLab.Numerals
import LLMBenchLab.Patterns
import LLMBenchLab.AuditEvents
import LLMBenchLab.AuditAppends
import LLMBenchLab.AuditArchive
import LLMBenchLab.ArchiveRoundTrip
import LLMBenchLab.ArchiveErrors
import LLMBenchLab.Costs
import LLMBenchLab.Evaluators
import LLMBenchLab.NumericEvaluator
import LLMBenchLab.ScoredEvidence
import LLMBenchLab.FormatStrings
import LLMBenchLab.PromptTemplates
import LLMBenchLab.StandardDatasets
import LLMBenchLab.Redaction
import LLMBenchLab.ProviderResults
import LLMBenchLab.Paging
import LLMBenchLab.Leaderboard
import LLMBenchLab.FairDispatch
import LLMBenchLab.WorkerProgress
import LLMBenchLab.Searching
import LLMBenchLab.AnswerStatements
import LLMBenchLab.TableDigests
import LLMBenchLab.ImportLedger
import LLMBenchLab.RetentionCycle
import LLMBenchLab.ImportOutcome
