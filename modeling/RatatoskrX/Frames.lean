import RatatoskrX.Foundation.Outcome
import RatatoskrX.Reconciliation
import RatatoskrX.Journal

/-! Which tables each transaction may change. A proof about one table reads the few
transactions that touch it and takes the rest from here. -/
namespace RatatoskrX.Frames
open Outcome Relational Schema Audit Budget Snapshot Folders Writeback Journal Reconciliation

inductive Relation where
  | accounts | credentials | authorizations | budgetWindows | consents | operations | auditEvents | posts
  | bookmarks | syncRuns | snapshots | snapshotItems | snapshotAuthority | incrementalState | repairs | folders
  | folderItems | folderSnapshotItems | folderAuthority | membershipObservations | capabilityLimits
  deriving DecidableEq, Repr

def touched : Commit → List Relation
  | .createRun _ => [.syncRuns,.snapshots]
  | .resumeRun _ | .markFailed .. | .createScan _ | .createLimitRun .. => [.syncRuns]
  | .stagePage .. => [.posts,.snapshotItems,.syncRuns]
  | .completeRun .. =>
    [.bookmarks,.repairs,.operations,.auditEvents,.syncRuns,.snapshots,.incrementalState,.snapshotAuthority]
  | .observePage .. => [.posts,.bookmarks,.syncRuns]
  | .completeScan .. | .markGap .. | .stopScan .. => [.syncRuns,.incrementalState]
  | .createFolderRun .. => [.folders,.syncRuns,.snapshots]
  | .stageFolderPage .. => [.posts,.folderSnapshotItems,.syncRuns]
  | .completeFolderRun .. => [.folderItems,.membershipObservations,.syncRuns,.snapshots,.folderAuthority]
  | .markCapabilityLimited .. => [.syncRuns,.capabilityLimits]
  | .charge .. | .refund .. => [.budgetWindows]
  | .recordConsent .. => [.consents,.auditEvents]
  | .claimOperation _ | .refuseOperation .. | .completeOperation .. | .completeUncertain ..
  | .completeProviderFailure .. | .completeDryRun .. => [.operations]
  | .consumeConsent .. => [.consents,.operations,.auditEvents]
  | .completeConfirmed .. => [.bookmarks,.operations,.auditEvents]
  | .appendAudit .. => [.auditEvents]
  | .connectAccount _ => [.accounts]
  | .storeCredential _ => [.credentials]
  | .storeAuthorization _ => [.authorizations]
  | .persistPosts _ => [.posts]

structure Agree (tables : List Relation) (db after : Database) : Prop where
  budgetWindows : .budgetWindows ∉ tables → after.budgetWindows = db.budgetWindows
  consents : .consents ∉ tables → after.consents = db.consents
  operations : .operations ∉ tables → after.operations = db.operations
  auditEvents : .auditEvents ∉ tables → after.auditEvents = db.auditEvents
  posts : .posts ∉ tables → after.posts = db.posts
  bookmarks : .bookmarks ∉ tables → after.bookmarks = db.bookmarks
  syncRuns : .syncRuns ∉ tables → after.syncRuns = db.syncRuns
  snapshots : .snapshots ∉ tables → after.snapshots = db.snapshots
  snapshotItems : .snapshotItems ∉ tables → after.snapshotItems = db.snapshotItems
  snapshotAuthority : .snapshotAuthority ∉ tables → after.snapshotAuthority = db.snapshotAuthority
  repairs : .repairs ∉ tables → after.repairs = db.repairs
  accounts : .accounts ∉ tables → after.accounts = db.accounts
  credentials : .credentials ∉ tables → after.credentials = db.credentials
  authorizations : .authorizations ∉ tables → after.authorizations = db.authorizations
  incrementalState : .incrementalState ∉ tables → after.incrementalState = db.incrementalState
  folders : .folders ∉ tables → after.folders = db.folders
  folderItems : .folderItems ∉ tables → after.folderItems = db.folderItems
  folderSnapshotItems : .folderSnapshotItems ∉ tables → after.folderSnapshotItems = db.folderSnapshotItems
  folderAuthority : .folderAuthority ∉ tables → after.folderAuthority = db.folderAuthority
  membershipObservations : .membershipObservations ∉ tables → after.membershipObservations = db.membershipObservations
  capabilityLimits : .capabilityLimits ∉ tables → after.capabilityLimits = db.capabilityLimits

theorem Agree.refl (tables db) : Agree tables db db := by constructor <;> intro _ <;> rfl

theorem Agree.trans {tables a b c} (first : Agree tables a b) (second : Agree tables b c) : Agree tables a c where
  budgetWindows h := (second.budgetWindows h).trans (first.budgetWindows h)
  consents h := (second.consents h).trans (first.consents h)
  operations h := (second.operations h).trans (first.operations h)
  auditEvents h := (second.auditEvents h).trans (first.auditEvents h)
  posts h := (second.posts h).trans (first.posts h)
  bookmarks h := (second.bookmarks h).trans (first.bookmarks h)
  syncRuns h := (second.syncRuns h).trans (first.syncRuns h)
  snapshots h := (second.snapshots h).trans (first.snapshots h)
  snapshotItems h := (second.snapshotItems h).trans (first.snapshotItems h)
  snapshotAuthority h := (second.snapshotAuthority h).trans (first.snapshotAuthority h)
  repairs h := (second.repairs h).trans (first.repairs h)
  accounts h := (second.accounts h).trans (first.accounts h)
  credentials h := (second.credentials h).trans (first.credentials h)
  authorizations h := (second.authorizations h).trans (first.authorizations h)
  incrementalState h := (second.incrementalState h).trans (first.incrementalState h)
  folders h := (second.folders h).trans (first.folders h)
  folderItems h := (second.folderItems h).trans (first.folderItems h)
  folderSnapshotItems h := (second.folderSnapshotItems h).trans (first.folderSnapshotItems h)
  folderAuthority h := (second.folderAuthority h).trans (first.folderAuthority h)
  membershipObservations h := (second.membershipObservations h).trans (first.membershipObservations h)
  capabilityLimits h := (second.capabilityLimits h).trans (first.capabilityLimits h)

theorem Agree.widen {tables wider db after} (h : Agree tables db after) (sub : tables ⊆ wider) :
    Agree wider db after where
  budgetWindows n := h.budgetWindows (fun m => n (sub m))
  consents n := h.consents (fun m => n (sub m))
  operations n := h.operations (fun m => n (sub m))
  auditEvents n := h.auditEvents (fun m => n (sub m))
  posts n := h.posts (fun m => n (sub m))
  bookmarks n := h.bookmarks (fun m => n (sub m))
  syncRuns n := h.syncRuns (fun m => n (sub m))
  snapshots n := h.snapshots (fun m => n (sub m))
  snapshotItems n := h.snapshotItems (fun m => n (sub m))
  snapshotAuthority n := h.snapshotAuthority (fun m => n (sub m))
  repairs n := h.repairs (fun m => n (sub m))
  accounts n := h.accounts (fun m => n (sub m))
  credentials n := h.credentials (fun m => n (sub m))
  authorizations n := h.authorizations (fun m => n (sub m))
  incrementalState n := h.incrementalState (fun m => n (sub m))
  folders n := h.folders (fun m => n (sub m))
  folderItems n := h.folderItems (fun m => n (sub m))
  folderSnapshotItems n := h.folderSnapshotItems (fun m => n (sub m))
  folderAuthority n := h.folderAuthority (fun m => n (sub m))
  membershipObservations n := h.membershipObservations (fun m => n (sub m))
  capabilityLimits n := h.capabilityLimits (fun m => n (sub m))

theorem Agree.fold {α : Type} {tables} {f : Database → α → Database} (one : ∀ db x, Agree tables db (f db x))
    (xs : List α) (db) : Agree tables db (xs.foldl f db) := by
  induction xs generalizing db with
  | nil => exact .refl _ _
  | cons x rest ih => exact (one db x).trans (ih _)

theorem persistPostsFrame (providerIds : List String) (db) : Agree [.posts] db (Snapshot.persistPosts db providerIds).1 := by
  induction providerIds generalizing db with
  | nil => exact .refl _ _
  | cons providerId rest ih =>
    have first : Agree [.posts] db (upsertPost db providerId).1 := by
      unfold upsertPost
      split
      · exact .refl _ _
      · constructor <;> intro h <;> first | rfl | simp at h
    exact first.trans (ih _)

theorem stageItemFrame (t snapshot db post) : Agree [.snapshotItems] db (Snapshot.stageItem t snapshot db post) := by
  constructor <;> intro h <;> first | rfl | simp at h

theorem updateRunFrame (db p f keeps) : Agree [.syncRuns] db (updateRun db p f keeps) := by
  constructor <;> intro h <;> first | rfl | simp at h

theorem stagePageFrame {db run page t after} (ok : Snapshot.stagePage db run page t = .ok after) :
    Agree [.posts,.snapshotItems,.syncRuns] db after := by
  obtain ⟨providerIds,items,_,rfl⟩ := Snapshot.stagedForm ok
  exact ((persistPostsFrame providerIds db).widen (by simp)).trans
    (((Agree.fold (stageItemFrame t run.snapshotId) _ _).widen (by simp)).trans
      ((updateRunFrame _ _ _ _).widen (by simp)))

theorem observeFrame (account runId t db post) :
    Agree [.bookmarks] db (Incremental.observeBookmark account runId t db post) := by
  constructor <;> intro h <;> first | rfl | simp at h

theorem observePageFrame {db account runId page t after}
    (ok : Incremental.observePage db account runId page t = .ok after) :
    Agree [.posts,.bookmarks,.syncRuns] db after := by
  obtain ⟨providerIds,items,_,rfl⟩ := Incremental.observedForm ok
  exact ((persistPostsFrame providerIds db).widen (by simp)).trans
    (((Agree.fold (observeFrame account runId t) _ _).widen (by simp)).trans ((updateRunFrame _ _ _ _).widen (by simp)))

theorem stageFolderItemFrame (t snapshot db post) :
    Agree [.folderSnapshotItems] db (Folders.stageItem t snapshot db post) := by
  constructor <;> intro h <;> first | rfl | simp at h

theorem stageFolderPageFrame {db run page t after} (ok : Folders.stagePage db run page t = .ok after) :
    Agree [.posts,.folderSnapshotItems,.syncRuns] db after := by
  obtain ⟨providerIds,items,_,rfl⟩ := Folders.stagedForm ok
  exact ((persistPostsFrame providerIds db).widen (by simp)).trans
    (((Agree.fold (stageFolderItemFrame t run.snapshotId) _ _).widen (by simp)).trans ((updateRunFrame _ _ _ _).widen (by simp)))

theorem reconciledFrame (db : Database) (run t) : Agree [.folderItems,.membershipObservations] db
    (Folders.recordAbsentMemberships
      (Folders.upsertActiveMemberships (Folders.recordAddedObservations db run t) run) run t).1 := by
  have observed : ∀ kind db post, Agree [.membershipObservations] db
      (Folders.observe run.snapshotId run.folderId kind t db post) := by
    intro kind db post
    constructor <;> intro h <;> first | rfl | simp at h
  have activated : ∀ db staged, Agree [.folderItems] db (Folders.activateMembership run.folderId db staged) := by
    intro db staged
    constructor <;> intro h <;> first | rfl | simp at h
  have removed : ∀ db, Agree [.folderItems,.membershipObservations] db
      (Folders.recordAbsentMemberships db run t).1 := by
    intro db
    refine Agree.trans ?_ ((Agree.fold (observed .removed) _ _).widen (by simp))
    constructor <;> intro h <;> first | rfl | simp at h
  exact ((Agree.fold (observed .added) _ _).widen (by simp)).trans
    (((Agree.fold activated _ _).widen (by simp)).trans (removed _))

theorem completeFolderRunFrame {db run t after} (ok : Folders.completeRun db run t = .ok after) :
    Agree [.folderItems,.membershipObservations,.syncRuns,.snapshots,.folderAuthority] db after := by
  obtain ⟨_,statistics,rfl⟩ := Folders.completedForm ok
  have recorded : ∀ db, Agree [.syncRuns,.snapshots,.folderAuthority] db
      (Folders.replaceAuthority (recordCompletion db run.id run.snapshotId t statistics) run.folderId
        run.snapshotId t) := by
    intro db
    constructor <;> intro h <;> first | rfl | simp at h
  exact ((reconciledFrame db run t).widen (by simp)).trans ((recorded _).widen (by simp))

theorem completeRunFrame {db account run t after} (ok : Snapshot.completeRun db account run t = .ok after) :
    Agree (touched (.completeRun account run t)) db after := by
  obtain ⟨_,_,_,_,_,_,_,rfl,_⟩ := committedForm ok
  constructor <;> intro h <;> first | rfl | simp [touched] at h

theorem setUsageFrame (db account budgetClass windowStart f) :
    Agree [.budgetWindows] db (setUsage db account budgetClass windowStart f) := by
  constructor <;> intro h <;> first | rfl | simp at h

theorem chargeFrame {db after : Database} {gate : BudgetGate} {account cost now reservation}
    (ok : gate.reserve db account cost now = .ok (after,reservation)) : Agree [.budgetWindows] db after := by
  obtain ⟨_,charged,_⟩ := reserveForm.mp ok
  obtain ⟨ensured,_,inserted,_,_,rfl⟩ := chargeForm.mp charged
  rw [ensureForm inserted]
  refine Agree.trans ?_ (setUsageFrame _ _ _ _ _)
  constructor <;> intro h <;> first | rfl | simp at h

theorem auditFrame {db after} (h : AuditOnly db after) : Agree [.auditEvents] db after := by
  obtain ⟨events,rfl⟩ := h
  constructor <;> intro h <;> first | rfl | simp at h

theorem moveFrame (db operationId guard f keeps claims) :
    Agree [.operations] db (moveOperation db operationId guard f keeps claims) := by
  constructor <;> intro h <;> first | rfl | simp at h

theorem projectFrame (db operationId account providerPostId action t) :
    Agree [.bookmarks] db (projectConfirmedBookmark db operationId account providerPostId action t).1 := by
  unfold projectConfirmedBookmark
  split
  · exact .refl _ _
  · split <;> constructor <;> intro h <;> first | rfl | simp at h

theorem consumedForm {db operationId request action t cost after}
    (ok : Writeback.consumeConsent db operationId request action t cost = some after) :
    ∃ consent, admittingConsent db request action t = some consent ∧
      after = appendJoined (moveOperation (markConsumed db request.consentId t) operationId .received inFlightRow
        (fun _ => rfl) (fun _ => rfl)) operationId t (admissionStages cost) (fun _ => none) := by
  simp only [Writeback.consumeConsent,bind,Option.bind_eq_some_iff,Option.some.injEq] at ok
  obtain ⟨consent,found,rfl⟩ := ok
  exact ⟨consent,found,rfl⟩

theorem confirmedRest (db : Database) (operationId account providerPostId action requestId t) :
    Agree [.operations,.auditEvents] (projectConfirmedBookmark db operationId account providerPostId action t).1
      (Writeback.completeConfirmed db operationId account providerPostId action requestId t) :=
  ((moveFrame ..).widen (by simp)).trans ((auditFrame (joinedAuditOnly ..)).widen (by simp))

theorem frame {c : Commit} {db after} (applied : c.effect db = some after) : Agree (touched c) db after := by
  cases c with
  | createRun account =>
    simp only [Commit.effect,Snapshot.createRun] at applied
    split at applied
    · cases Option.some.inj applied
      constructor <;> intro h <;> first | rfl | simp [touched] at h
    · simp at applied
  | stagePage run page t stamp => exact stagePageFrame (accepted applied)
  | completeRun account run t => exact completeRunFrame (accepted applied)
  | createScan account =>
    simp only [Commit.effect,Incremental.createRun] at applied
    split at applied
    · cases Option.some.inj applied
      constructor <;> intro h <;> first | rfl | simp [touched] at h
    · simp at applied
  | observePage account runId page t => exact observePageFrame (accepted applied)
  | completeScan runId watermark t =>
    simp only [Commit.effect,Incremental.completeRun,bind,Option.bind_eq_some_iff] at applied
    obtain ⟨run,_,last⟩ := applied
    cases Option.some.inj last
    constructor <;> intro h <;> first | rfl | simp [touched] at h
  | createFolderRun account folder =>
    simp only [Commit.effect,Folders.createRun] at applied
    split at applied
    · cases Option.some.inj applied
      constructor <;> intro h <;> first | rfl | simp [touched] at h
    · simp at applied
  | createLimitRun account capability =>
    simp only [Commit.effect] at applied
    split at applied
    · cases Option.some.inj applied
      constructor <;> intro h <;> first | rfl | simp [touched] at h
    · simp at applied
  | stageFolderPage run page t => exact stageFolderPageFrame (accepted applied)
  | completeFolderRun run t => exact completeFolderRunFrame (accepted applied)
  | markCapabilityLimited runId capability t =>
    simp only [Commit.effect,Folders.markCapabilityLimited,bind,Option.bind_eq_some_iff] at applied
    obtain ⟨run,_,last⟩ := applied
    cases Option.some.inj last
    constructor <;> intro h <;> first | rfl | simp [touched] at h
  | charge gate account cost now =>
    obtain ⟨⟨charged,reservation⟩,ok,rfl⟩ := Option.map_eq_some_iff.mp applied
    exact chargeFrame (accepted ok)
  | recordConsent consent now =>
    simp only [Commit.effect,insertConsent] at applied
    split at applied
    · cases Option.some.inj applied
      constructor <;> intro h <;> first | rfl | simp [touched] at h
    · simp at applied
  | claimOperation operation =>
    simp only [Commit.effect,insertOperation] at applied
    split at applied
    · cases Option.some.inj applied
      constructor <;> intro h <;> first | rfl | simp [touched] at h
    · simp at applied
  | consumeConsent operationId request action t cost =>
    obtain ⟨consent,_,rfl⟩ := consumedForm applied
    refine Agree.trans ?_ ((auditFrame (joinedAuditOnly ..)).widen (by simp [touched]))
    constructor <;> intro h <;> first | rfl | simp [touched] at h
  | completeConfirmed operationId account providerPostId action requestId t =>
    cases Option.some.inj applied
    exact ((projectFrame ..).widen (by simp [touched])).trans ((confirmedRest ..).widen (by simp [touched]))
  | appendAudit operationId eventClass details now =>
    cases Option.some.inj applied
    exact auditFrame (detailsAuditOnly ..)
  | persistPosts providerIds =>
    cases Option.some.inj applied
    exact persistPostsFrame ..
  | _ =>
    cases Option.some.inj applied
    constructor <;> intro h <;> first | rfl | simp [touched] at h

end RatatoskrX.Frames
