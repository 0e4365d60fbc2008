import RatatoskrX.Foundation.Table
import RatatoskrX.Foundation.Transition
import RatatoskrX.Foundation.ReadCommitted
import RatatoskrX.Foundation.BigEndian
import RatatoskrX.Schema
import RatatoskrX.Budget
import RatatoskrX.Audit
import RatatoskrX.Snapshot
import RatatoskrX.Reconciliation
import RatatoskrX.Incremental
import RatatoskrX.Folders
import RatatoskrX.Writeback
import RatatoskrX.Journal
import RatatoskrX.Frames
import RatatoskrX.Operations
import RatatoskrX.SyncCalls
import RatatoskrX.WriteCalls
import RatatoskrX.Schedule
import RatatoskrX.WriteInvariant
import RatatoskrX.WriteProgress
import RatatoskrX.WriteSystem
import RatatoskrX.Ledger
import RatatoskrX.Capability
import RatatoskrX.Lifecycle
import RatatoskrX.Durability
import RatatoskrX.Retry
import RatatoskrX.Evidence
import RatatoskrX.Staging
import RatatoskrX.Registry
import RatatoskrX.Authority
import RatatoskrX.Uncertainty
import RatatoskrX.Traversal
import RatatoskrX.Recency
import RatatoskrX.Observations
import RatatoskrX.Gaps
import RatatoskrX.Memberships
import RatatoskrX.MembershipRuns
import RatatoskrX.Eligibility
import RatatoskrX.Preview
import RatatoskrX.Windows
import RatatoskrX.Envelopes
import RatatoskrX.Permalink
import RatatoskrX.Capture
import RatatoskrX.CaptureCommits
import RatatoskrX.CaptureSteps
import RatatoskrX.CaptureReports
import RatatoskrX.Foundation.Incarnation
import RatatoskrX.SourceHistory
import RatatoskrX.CaptureTimes
import RatatoskrX.ArticleUrls
import RatatoskrX.SocialSources
import RatatoskrX.Publication
import RatatoskrX.Library
import RatatoskrX.LibraryCommits
import RatatoskrX.LibrarySteps
import RatatoskrX.Takedown
import RatatoskrX.Relay
import RatatoskrX.RelayRuns
import RatatoskrX.Sealing
import RatatoskrX.Connection
import RatatoskrX.ConnectionMoves
import RatatoskrX.ConnectionHistory
import RatatoskrX.Revocation
import RatatoskrX.RefreshTurns
import RatatoskrX.LegacyImport
import RatatoskrX.Dominance
import RatatoskrX.LegacyTransition
import RatatoskrX.Reviewability
import RatatoskrX.ShadowClasses
import RatatoskrX.RefusedDecisions
import RatatoskrX.Reimports
import RatatoskrX.Callbacks
import RatatoskrX.CallbackRuns
import RatatoskrX.ArticleRuns
import RatatoskrX.ArticleRaces
import RatatoskrX.Alone
import RatatoskrX.RunEndings
import RatatoskrX.ScanRuns
import RatatoskrX.Escalation
import RatatoskrX.Watermarks
import RatatoskrX.PublishedPages
import RatatoskrX.PublishingRuns
import RatatoskrX.StagedRuns
import RatatoskrX.FullTraversals
import RatatoskrX.SealedEnvelopes
import RatatoskrX.RefreshRuns
import RatatoskrX.MemberExtraction
import RatatoskrX.WireOrder
import RatatoskrX.Preservation
import RatatoskrX.StatusPermalinks
import RatatoskrX.UrlSpellings
import RatatoskrX.ExternalLinks
import RatatoskrX.LegacyCsv
import RatatoskrX.WireTimestamps
import RatatoskrX.JsonlClosure
import RatatoskrX.KnowledgeLinks
import RatatoskrX.RequestKeys
import RatatoskrX.ResendSchedule
import RatatoskrX.CaptureAttempts
import RatatoskrX.TokenForms
import RatatoskrX.SavedArchive
import RatatoskrX.WriteTruth
import RatatoskrX.RelayRecovery
import RatatoskrX.CaptureTruth
import RatatoskrX.CommandConsumer
import RatatoskrX.DeletionAcks
import RatatoskrX.AuthorizationFlow
import RatatoskrX.TransitionCli
import RatatoskrX.ServiceProcess
import RatatoskrX.Preflights
