import Hammerwork.Laws.PutBack
import Hammerwork.Laws.Orphans
import Hammerwork.Laws.Propagation
import Hammerwork.Laws.WorkflowProgress
import Hammerwork.Laws.NoneLeftBehind
import Hammerwork.Laws.PayloadPrivacy
import Hammerwork.Laws.HandedOnce
import Hammerwork.Laws.PiiProtection
import Hammerwork.Laws.BoundedAttempts
import Hammerwork.Laws.HeldFailure
import Hammerwork.Laws.ResultOwnership
import Hammerwork.Laws.PoolSupervision
import Hammerwork.Laws.PayloadReach
import Hammerwork.Laws.MigrationRuns
import Hammerwork.Laws.BackupRoundtrip
import Hammerwork.Laws.LiveUpdates
import Hammerwork.Laws.AutoscaleBounds
import Hammerwork.Laws.TokenRate
import Hammerwork.Laws.AlertCooldown
import Hammerwork.Laws.WebhookAccounting
import Hammerwork.Laws.StreamDelivery
import Hammerwork.Laws.StreamConservation
import Hammerwork.Laws.TemplateRendering
import Hammerwork.Laws.BatchDisposal
import Hammerwork.Laws.HeldLeases
import Hammerwork.Laws.StuckDependents
import Hammerwork.Laws.FailFast
import Hammerwork.Laws.BatchClaims
import Hammerwork.Laws.BatchFill
import Hammerwork.Laws.MemoryResults
import Hammerwork.Laws.CronRuns
import Hammerwork.Laws.Settling
import Hammerwork.Laws.FailingDependents
import Hammerwork.Laws.RunCounting
import Hammerwork.Laws.SealAndOpen
import Hammerwork.Laws.ArchiveEligibility
import Hammerwork.Laws.ScheduledPass
import Hammerwork.Laws.SameOrigin
import Hammerwork.Laws.LoginLockout
import Hammerwork.Laws.SplitCuts
import Hammerwork.Laws.RetryDelays
import Hammerwork.Laws.LongestChains
import Hammerwork.Laws.DurationTexts
import Hammerwork.Laws.TrendCounts
import Hammerwork.Laws.RunsInTurn
