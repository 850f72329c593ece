import Jobflow.Lib.InsertionMap
import Jobflow.Lib.EventSystem
import Jobflow.Lib.DependencyGraph
import Jobflow.Lib.LevelOrder
import Jobflow.Lib.LevelPool
import Jobflow.Lib.LongestChain
import Jobflow.Lib.PostOrder
import Jobflow.Lib.StableSort
import Jobflow.Lib.TicketQueue
import Jobflow.Lib.TokenLoop
import Jobflow.Js.Number
import Jobflow.Js.Order
import Jobflow.Js.Rounding
import Jobflow.Js.Digits
import Jobflow.Js.Value
import Jobflow.Js.Json
import Jobflow.Js.JsonParser
import Jobflow.Js.JsonTexts
import Jobflow.Js.JsonEquality
import Jobflow.Js.JsonReading
import Jobflow.Js.JsonRoundTrip
import Jobflow.Js.Date
import Jobflow.Expressions.Syntax
import Jobflow.Expressions.Evaluator
import Jobflow.Expressions.Lexing
import Jobflow.Expressions.Grammar
import Jobflow.Expressions.Scan
import Jobflow.Expressions.Literals
import Jobflow.Expressions.Names
import Jobflow.Domain
import Jobflow.Validators
import Jobflow.Jobs
import Jobflow.Engine
import Jobflow.Workers
import Jobflow.Saga
import Jobflow.SagaRuns
import Jobflow.Scheduling
import Jobflow.Stores
import Jobflow.Execution
import Jobflow.Progress
import Jobflow.System
import Jobflow.Effects
import Jobflow.Ownership
import Jobflow.Atomicity
import Jobflow.Runs
import Jobflow.RunInvariant
import Jobflow.NewRun
import Jobflow.Executed
import Jobflow.Invocations
import Jobflow.Termination
import Jobflow.Fate
import Jobflow.Completion
import Jobflow.Retries
import Jobflow.HandlerBudget
import Jobflow.Backoff
import Jobflow.Recovery
import Jobflow.History
import Jobflow.Constraints
import Jobflow.Locks
import Jobflow.RunLocks
import Jobflow.DagPlanner
import Jobflow.CriticalPath
import Jobflow.CycleCheck
import Jobflow.Dsl.Lexer
import Jobflow.Dsl.Parser
import Jobflow.Dsl.Grammar
import Jobflow.Dsl.FrontEnd
import Jobflow.TaskNames
import Jobflow.Dsl.Optimizer
import Jobflow.Dsl.TaskOrder
import Jobflow.ParallelExecutor
import Jobflow.ParallelResults
import Jobflow.CancelGuard
import Jobflow.RunSteps
import Jobflow.Spent
import Jobflow.Tally
import Jobflow.Sharing
import Jobflow.Cancellation
import Jobflow.Snapshots
import Jobflow.Agreement
import Jobflow.SeriesKeys
import Jobflow.MetricsRegistry
import Jobflow.Histograms
import Jobflow.Counters
import Jobflow.Metrics
import Jobflow.Course
import Jobflow.Reregistration
import Jobflow.Lineage
import Jobflow.Compensation
import Jobflow.Cron
import Jobflow.NextRun
import Jobflow.Schedules
import Jobflow.CronGrammar
import Jobflow.CronTicker
import Jobflow.CronSteps
import Jobflow.Disabling
import Jobflow.Occurrences
import Jobflow.Starvation
import Jobflow.Resumption
import Jobflow.Batch
import Jobflow.BatchSystem
import Jobflow.BatchCalls
import Jobflow.BatchPool
import Jobflow.BatchedRuns
import Jobflow.BatchTally
import Jobflow.TakenRuns
import Jobflow.BatchOutcome
import Jobflow.PoolDiscipline
import Jobflow.CircuitBreaker
import Jobflow.HttpInvoker
import Jobflow.WorkflowDiff
import Jobflow.RunQuery
import Jobflow.Journal
import Jobflow.JournalCrash
import Jobflow.ObjectDiff
import Jobflow.DiffCompleteness
import Jobflow.Redaction
import Jobflow.Lib.Delimiters
import Jobflow.Lib.Recency
import Jobflow.RateLimit
import Jobflow.WebhookSigner
import Jobflow.RunExport
import Jobflow.SqlQueryBuilder
import Jobflow.ApiKeys
import Jobflow.Webhooks
import Jobflow.Listings
import Jobflow.Dsl.Positions
import Jobflow.EventBus
import Jobflow.Lib.FixedWidth
import Jobflow.Lib.Projection
import Jobflow.Js.IsoDate
import Jobflow.Js.FloorDiv
import Jobflow.Retention
import Jobflow.TimeSeries
import Jobflow.Migrations
import Jobflow.OneRun
import Jobflow.Isolation
import Jobflow.Js.JsonIndented
import Jobflow.SnapshotStore
import Jobflow.RunBundles
import Jobflow.SequentialRun
import Jobflow.DslRuns
import Jobflow.Js.ParsedValues
import Jobflow.Zod
import Jobflow.RunReports
import Jobflow.JobDocuments
import Jobflow.JobImports
