import SimpleZanzibar.Lib.CutEvaluation
import SimpleZanzibar.Lib.StratifiedFixpoint
import SimpleZanzibar.Domain
import SimpleZanzibar.Lib.Action
import SimpleZanzibar.Store.Filter
import SimpleZanzibar.Store.Interner
import SimpleZanzibar.Store.LiveRows
import SimpleZanzibar.Lib.BinarySearch
import SimpleZanzibar.Store.Posting
import SimpleZanzibar.Store.Identity
import SimpleZanzibar.Store.Indexed
import SimpleZanzibar.Store.IndexedCorrect
import SimpleZanzibar.Store.QueryCorrect
import SimpleZanzibar.Store.View
import SimpleZanzibar.Store.ViewCorrect
import SimpleZanzibar.Store.Fold
import SimpleZanzibar.Store.Batches
import SimpleZanzibar.Store.DirectMatch
import SimpleZanzibar.Schema
import SimpleZanzibar.SchemaCorrect
import SimpleZanzibar.Eval.Context
import SimpleZanzibar.Eval.Check
import SimpleZanzibar.Eval.ContextCorrect
import SimpleZanzibar.Eval.System
import SimpleZanzibar.Eval.CheckCorrect
import SimpleZanzibar.Store.Sections
import SimpleZanzibar.Store.SectionsCorrect
import SimpleZanzibar.Writer
import SimpleZanzibar.WriterCorrect
import SimpleZanzibar.Preconditions
import SimpleZanzibar.Eval.FreshCheck
import SimpleZanzibar.Eval.Memo
import SimpleZanzibar.Eval.Representation
import SimpleZanzibar.Eval.Expand
import SimpleZanzibar.Eval.LookupSubjects
import SimpleZanzibar.Store.LimitedQuery
import SimpleZanzibar.Eval.ExpandCorrect
import SimpleZanzibar.Eval.LookupSubjectsCorrect
import SimpleZanzibar.Eval.FanoutScans
import SimpleZanzibar.Lib.LittleEndian
import SimpleZanzibar.Lib.PreorderWords
import SimpleZanzibar.SchemaHash
import SimpleZanzibar.SchemaHashCorrect
import SimpleZanzibar.Store.Mutations
import SimpleZanzibar.Store.Materialized
import SimpleZanzibar.Dsl
import SimpleZanzibar.PolicyText
import SimpleZanzibar.Engine
import SimpleZanzibar.EngineCorrect
import SimpleZanzibar.EngineProtocol
import SimpleZanzibar.Lib.ByteCursor
import SimpleZanzibar.Snapshot.Format
import SimpleZanzibar.Snapshot.Symbols
import SimpleZanzibar.Snapshot.Postings
import SimpleZanzibar.Snapshot.Indexes
import SimpleZanzibar.Snapshot.Encode
import SimpleZanzibar.Snapshot.File
import SimpleZanzibar.Snapshot.IndexesCorrect
import SimpleZanzibar.Snapshot.SymbolsCorrect
import SimpleZanzibar.Snapshot.LoadCorrect
import SimpleZanzibar.Snapshot.LoadedEngine
import SimpleZanzibar.Eval.Limits
import SimpleZanzibar.Eval.LookupPlan
import SimpleZanzibar.Eval.LookupPlanCorrect
import SimpleZanzibar.Eval.LookupResources
import SimpleZanzibar.Eval.SchemaInvariant
import SimpleZanzibar.Eval.SafeEvaluation
import SimpleZanzibar.Eval.CheckErrors
import SimpleZanzibar.SchemaEdits
import SimpleZanzibar.Eval.LookupArms
import SimpleZanzibar.Eval.ArmSearch
import SimpleZanzibar.Eval.LookupRejection
import SimpleZanzibar.Eval.Congruence
import SimpleZanzibar.Eval.MemoDepth
import SimpleZanzibar.Eval.CoveredRuns
import SimpleZanzibar.Lib.Coverage
import SimpleZanzibar.Snapshot.PostingCodec
import SimpleZanzibar.Lib.AsciiText
import SimpleZanzibar.RelationshipText
import SimpleZanzibar.Lib.NumberText
import SimpleZanzibar.ConsistencyTokens
import SimpleZanzibar.Store.Atomicity
import SimpleZanzibar.Lib.Points
import SimpleZanzibar.Eval.ActiveKeys
import SimpleZanzibar.Eval.ContextRuns
import SimpleZanzibar.Eval.AnalysesEnd
import SimpleZanzibar.Eval.WalksEnd
import SimpleZanzibar.Eval.FrontierEnds
import SimpleZanzibar.Eval.LookupSubjectsCollector
import SimpleZanzibar.Eval.LookupSubjectsComplete
import SimpleZanzibar.Eval.PermissionLookups
import SimpleZanzibar.SchemaExport
import SimpleZanzibar.TenantShards
import SimpleZanzibar.WriterActor
import SimpleZanzibar.PolicyExport
import SimpleZanzibar.Snapshot.EnvelopeCorrect
import SimpleZanzibar.Snapshot.IndexGroups
import SimpleZanzibar.Snapshot.IndexSections
import SimpleZanzibar.Snapshot.IndexesAccepted
import SimpleZanzibar.Snapshot.RoundTrip
import SimpleZanzibar.Snapshot.EngineRuns
