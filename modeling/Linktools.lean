import Linktools.Archive.Histories
import Linktools.Asset.Histories
import Linktools.Budget.Accounting
import Linktools.Cache.BufferHistories
import Linktools.Cache.MemoryHistories
import Linktools.Cache.TurnLifetimes
import Linktools.Config.Stores
import Linktools.Container.Hooks
import Linktools.Container.Installed
import Linktools.Conversation.ForkReplays
import Linktools.Conversation.ForkedReads
import Linktools.Conversation.TimelineWalks
import Linktools.Evaluation.PurgeHistories
import Linktools.Execution.ExecutionHistories
import Linktools.Execution.RetentionHolds
import Linktools.Execution.StartOnce
import Linktools.Memory.MutationHistories
import Linktools.Persistence.CancelRequests
import Linktools.Persistence.ErrorFields
import Linktools.Persistence.EventPages
import Linktools.Persistence.LeaseFencing
import Linktools.Persistence.NodeFinality
import Linktools.Persistence.ReconcileFixpoint
import Linktools.Persistence.RecoverableGraphs
import Linktools.Persistence.SchedulingProgress
import Linktools.Persistence.TaskHistories
import Linktools.Runtime.CompactionTails
import Linktools.State.BatchWrites
import Linktools.State.RecordLeases
import Linktools.Storage.LeaseCoordinators
import Linktools.Storage.StreamHistories
import Linktools.Tool.Fencing
import Linktools.Transcript.MessageSnapshots
import Linktools.Turn.AnswerHistories
import Linktools.Workspace.Globs
import Linktools.Workspace.TextPages
