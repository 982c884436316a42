import AiryFS.Assets.AssetRuns
import AiryFS.Changes.PollingClient
import AiryFS.Changes.PrefixFilter
import AiryFS.Changes.WebhookOutbox
import AiryFS.Client.Completion
import AiryFS.Client.DownloadSafety
import AiryFS.Client.NdjsonStream
import AiryFS.Container.CursorSafety
import AiryFS.Container.MountCommands
import AiryFS.Container.OneCommand
import AiryFS.Container.PtyServer
import AiryFS.Container.ReplyStream
import AiryFS.Container.ServiceLogs
import AiryFS.Exec.Circuit
import AiryFS.Exec.SseStream
import AiryFS.Exec.StreamSafety
import AiryFS.Files.CopySafety
import AiryFS.Files.ReadTree
import AiryFS.Files.ReplaceTextSafety
import AiryFS.Files.SerialWrites
import AiryFS.Hrana.Sequence
import AiryFS.Hrana.TransactionControl
import AiryFS.Jobs.CancelWins
import AiryFS.Jobs.CommandLine
import AiryFS.Jobs.Following
import AiryFS.Jobs.NotStranded
import AiryFS.Jobs.OutputExact
import AiryFS.Leases.LeaseSafety
import AiryFS.Leases.LiveHandles
import AiryFS.Mounts.HopBound
import AiryFS.Mounts.MountCache
import AiryFS.Mounts.MountGraph
import AiryFS.Remote.InvalidationPoller
import AiryFS.S3.Pages
import AiryFS.Schedules.CronMeaning
import AiryFS.Schedules.ExactlyOnce
import AiryFS.Search.FindNames
import AiryFS.Search.Glob
import AiryFS.Sites.ByteRanges
import AiryFS.Sites.Confined
import AiryFS.Snapshots.ExactDiff
import AiryFS.Snapshots.QuotaSafety
import AiryFS.Transfer.ImportSafety
import AiryFS.Transfer.Uploads
import AiryFS.Trash.UndoOrder
