import MailPortal.Lib.Runs
import MailPortal.Lib.Table
import MailPortal.Outbox.Faithful
import MailPortal.Outbox.Invariant
import MailPortal.Outbox.Service
import MailPortal.Outbox.Refinement
import MailPortal.Outbox.Runs
import MailPortal.Lib.Incremental
import MailPortal.Lib.Lines
import MailPortal.Mime.QuotedPrintable
import MailPortal.Mime.Flowed
import MailPortal.Lib.Trie
import MailPortal.Mime.BodyOutput
import MailPortal.Mime.Boundaries
import MailPortal.Mime.Splitter
import MailPortal.Mime.ByteMachine
import MailPortal.Mime.DelimiterGrammar
import MailPortal.Mime.LineScan
import MailPortal.Mime.Recognition
import MailPortal.Mime.BodyBytes
import MailPortal.Mime.Conservation
import MailPortal.Automation.Definition
import MailPortal.Automation.Rules
import MailPortal.Automation.Changes
import MailPortal.Automation.References
import MailPortal.Automation.RunStore
import MailPortal.Automation.EnabledCap
import MailPortal.Automation.RunChanges
import MailPortal.Automation.Leases
import MailPortal.Automation.AtMostOnce
import MailPortal.Cost.Ledger
import MailPortal.Cost.Controller
import MailPortal.Cost.Balance
import MailPortal.Cost.Budget
import MailPortal.Push.Outbox
import MailPortal.Push.Process
import MailPortal.Push.Invariant
import MailPortal.Push.Delivery
import MailPortal.Lib.Double
import MailPortal.Lib.Json
import MailPortal.Outbox.Snapshot
import MailPortal.Lib.Sql
import MailPortal.Outbox.Storage
import MailPortal.Outbox.Schedule
import MailPortal.Outbox.LeaseRecovery
import MailPortal.Auth.LoginThrottle
import MailPortal.Auth.ThrottleAccounting
import MailPortal.Import.Fingerprint
import MailPortal.Import.PromotionIntent
import MailPortal.Import.PromotionSeal
import MailPortal.Recovery.Issue
import MailPortal.Recovery.IssueAtomic
import MailPortal.Recovery.Consume
import MailPortal.Recovery.Delivery
import MailPortal.Recovery.System
import MailPortal.Recovery.Bonds
import MailPortal.Recovery.Fence
import MailPortal.Recovery.TokenBounds
import MailPortal.Lib.JsonRecord
import MailPortal.Lib.Alone
import MailPortal.Platform.R2
import MailPortal.Derived.Objects
import MailPortal.Derived.RepairAttempt
import MailPortal.Derived.CleanupIntent
import MailPortal.Derived.Ledger
import MailPortal.Derived.RepairReconcile
import MailPortal.Derived.RepairOnce
import MailPortal.Derived.IntentFate
import MailPortal.Derived.IntentController
import MailPortal.Derived.IntentSweep
import MailPortal.Derived.IntentRules
import MailPortal.Derived.IntentKept
import MailPortal.Revocation.Invariant
import MailPortal.Revocation.NeverForgotten
import MailPortal.Revocation.Outbox
import MailPortal.Import.ClaimInvariant
import MailPortal.Import.ExclusiveIdentity
import MailPortal.Import.EmailClaims
import MailPortal.Drafts.NoLostUpdate
import MailPortal.Drafts.OwnedOrCleaned
import MailPortal.Bulk.Progress
import MailPortal.Feed.Cursor
import MailPortal.Feed.Page
import MailPortal.Feed.Paging
import MailPortal.Text.HtmlEntities
import MailPortal.Search.Compositional
import MailPortal.Search.PlanMeaning
import MailPortal.Automation.FirstRuleWins
import MailPortal.Reminders.ChangesOnce
import MailPortal.Derived.ProofMatches
import MailPortal.Documents.NumbersContainer
import MailPortal.Documents.ZipArchive
import MailPortal.Recovery.IpNormalForm
import MailPortal.Attachments.FixedNames
import MailPortal.Documents.XmlDocument
import MailPortal.Documents.CfbWorkbook
import MailPortal.Mime.PackedArray
import MailPortal.Attachments.KindsAlike
import MailPortal.Threading.KeptChain
import MailPortal.TodayBrief.WholeDay
import MailPortal.Semantic.AttachmentChunks
import MailPortal.Recipients.Sendable
import MailPortal.Feed.NothingSkipped
