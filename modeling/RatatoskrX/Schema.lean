import Mathlib.Data.List.Nodup
import RatatoskrX.Foundation.Table

/-! The rows of schema.sql that bookmark synchronization and write-back read or
write, and the archive database over them. Identities are opaque: gen_random_uuid
draws one that its table does not hold, so collisions of random identities are not
modelled. Columns that no modelled statement reads (row creation and update times,
post content, sealed payloads) are left out. -/
namespace RatatoskrX.Schema
open Relational

abbrev Uuid := Nat

/- chrono's DateTime<Utc> at the microsecond resolution of timestamptz. The two
bounds are MIN_UTC and MAX_UTC. -/
def minMicros : Int := -8334601228800 * 1000000
def maxMicros : Int := 8210266876799 * 1000000 + 999999

structure DateTime where
  micros : Int
  representable : minMicros ≤ micros ∧ micros ≤ maxMicros
  deriving DecidableEq, Repr

namespace DateTime

def ofMicros (n : Int) : Option DateTime :=
  if h : minMicros ≤ n ∧ n ≤ maxMicros then some ⟨n,h⟩ else none

theorem epochRepresentable : minMicros ≤ 0 ∧ 0 ≤ maxMicros := by decide

theorem openingRepresentable : minMicros ≤ 1784797200000000 ∧ 1784797200000000 ≤ maxMicros := by decide

/-- DateTime::checked_add_signed with a delta in whole seconds. -/
def checkedAddSigned (t : DateTime) (seconds : Int) : Option DateTime :=
  ofMicros (t.micros + seconds * 1000000)

instance : LE DateTime := ⟨fun a b => a.micros ≤ b.micros⟩
instance : LT DateTime := ⟨fun a b => a.micros < b.micros⟩
instance (a b : DateTime) : Decidable (a ≤ b) := inferInstanceAs (Decidable (a.micros ≤ b.micros))
instance (a b : DateTime) : Decidable (a < b) := inferInstanceAs (Decidable (a.micros < b.micros))

end DateTime

def maxI32 : Int := 2147483647

/-- i32::try_from of a count that the database returned as i64 or u64. -/
def toI32 (n : Nat) : Option Int := if (n : Int) ≤ maxI32 then some n else none

inductive AccountState where
  | connected | refreshRequired | reauthRequired | revoked | suspended | paused
  deriving DecidableEq, Repr

structure Account where
  id : Uuid
  internalUserId : Uuid
  state : AccountState
  deriving DecidableEq, Repr

inductive CredentialStatus where | active | expired | revoked
  deriving DecidableEq, Repr

structure Credential where
  id : Uuid
  accountId : Uuid
  grantedScopes : List String
  status : CredentialStatus
  createdAt : DateTime
  deriving DecidableEq, Repr

inductive AuthorizationStatus where | active | revoked
  deriving DecidableEq, Repr

structure WriteAuthorization where
  accountId : Uuid
  grantedScopes : List String
  status : AuthorizationStatus
  deriving DecidableEq, Repr

inductive BudgetClass where | read | bookmarkWrite
  deriving DecidableEq, Repr

structure BudgetWindow where
  accountId : Uuid
  budgetClass : BudgetClass
  windowStart : DateTime
  windowSeconds : Int
  requestCap : Int
  usedRequests : Int
  deriving DecidableEq, Repr

inductive BookmarkAction where | add | remove
  deriving DecidableEq, Repr

inductive ExecutionMode where | live | dryRun
  deriving DecidableEq, Repr

structure Consent where
  id : Uuid
  accountId : Uuid
  internalUserId : Uuid
  action : BookmarkAction
  providerPostId : String
  approvedAt : DateTime
  expiresAt : DateTime
  surface : String
  consumedAt : Option DateTime
  deriving DecidableEq, Repr

inductive OperationStatus where
  | received | refused | dryRun | providerInFlight | succeeded | failed | uncertain
  | projectionPending | reconciledSucceeded | reconciledNotCurrent
  deriving DecidableEq, Repr

abbrev Digest := String

structure Operation where
  id : Uuid
  accountId : Uuid
  internalUserId : Uuid
  consentId : Option Uuid
  action : BookmarkAction
  providerPostId : String
  executionMode : ExecutionMode
  idempotencyDigest : Digest
  requestFingerprint : Digest
  status : OperationStatus
  outcome : Option String
  providerRequestId : Option String
  rateLimitResetAt : Option DateTime
  projectionObservedAt : Option DateTime
  deriving DecidableEq, Repr

inductive EventClass where
  | consentRecorded | requestReceived | gateAdmitted | gateRefused | dryRunCompleted
  | idempotentReplay | idempotencyConflict | budgetRefused | providerAttempted
  | providerClassified | projectionReconciled | outcomeUncertain | operationCompleted
  | snapshotReconciled
  deriving DecidableEq, Repr

/- The members of an audit row's details object, in the order they are written. -/
inductive DetailValue where
  | text (value : String)
  | number (value : Int)
  | instant (value : DateTime)
  | identity (value : Uuid)
  | null
  deriving DecidableEq, Repr

abbrev Details := List (String × DetailValue)

structure AuditEvent where
  ordinal : Nat
  accountId : Uuid
  operationId : Option Uuid
  consentId : Option Uuid
  internalUserId : Uuid
  action : BookmarkAction
  providerPostId : String
  surface : String
  eventClass : EventClass
  occurredAt : DateTime
  correlationId : Option Uuid
  idempotencyDigest : Option Digest
  providerRequestId : Option String
  details : Details
  deriving DecidableEq, Repr

structure Post where
  id : Uuid
  providerId : String
  deriving DecidableEq, Repr

structure Bookmark where
  id : Uuid
  accountId : Uuid
  postId : Uuid
  firstObservedSavedAt : DateTime
  lastObservedSavedAt : DateTime
  observedRemovedAt : Option DateTime
  observedRemovedSnapshotId : Option Uuid
  lastWriteOperationId : Option Uuid
  lastWriteObservedAt : Option DateTime
  observedRemovedWriteOperationId : Option Uuid
  lastIncrementalRunId : Option Uuid
  deriving DecidableEq, Repr

abbrev Bookmark.key (b : Bookmark) : Uuid × Uuid := (b.accountId,b.postId)

inductive RunType where
  | incremental | full | folderListing | folderMembership | complianceRevalidation
  deriving DecidableEq, Repr

inductive RunState where | running | completed | failed | cancelled
  deriving DecidableEq, Repr

structure SyncRun where
  id : Uuid
  accountId : Uuid
  runType : RunType
  state : RunState
  checkpoint : Option String
  pagesFetched : Int
  itemsObserved : Int
  addedCount : Int
  retainedCount : Int
  removedCount : Int
  finishedAt : Option DateTime
  deriving DecidableEq, Repr

structure Snapshot where
  id : Uuid
  syncRunId : Uuid
  folderId : Option Uuid
  complete : Bool
  completedAt : Option DateTime
  pageCount : Int
  deriving DecidableEq, Repr

structure SnapshotItem where
  snapshotId : Uuid
  postId : Uuid
  observedAt : DateTime
  deriving DecidableEq, Repr

abbrev SnapshotItem.key (i : SnapshotItem) : Uuid × Uuid := (i.snapshotId,i.postId)

theorem SnapshotItem.observedKey (observedAt : DateTime) (i : SnapshotItem) :
    key {i with observedAt := observedAt} = key i := rfl

structure Authority where
  accountId : Uuid
  snapshotId : Uuid
  updatedAt : DateTime
  deriving DecidableEq, Repr

inductive IncrementalResult where
  | idle | completed | gap | budgetExhausted | providerUnavailable | requestCap | fullSnapshotRequired
  deriving DecidableEq, Repr

structure IncrementalState where
  accountId : Uuid
  watermarkProviderPostId : Option String
  requiresFullSnapshot : Bool
  lastOutcome : IncrementalResult
  lastIncrementalRunId : Option Uuid
  updatedAt : DateTime
  deriving DecidableEq, Repr

inductive RepairReason where | incrementalDrift
  deriving DecidableEq, Repr

structure Repair where
  snapshotId : Uuid
  bookmarkId : Uuid
  reason : RepairReason
  deriving DecidableEq, Repr

abbrev Repair.key (r : Repair) : Uuid × Uuid := (r.snapshotId,r.bookmarkId)

structure Folder where
  id : Uuid
  accountId : Uuid
  providerId : String
  name : Option String
  deriving DecidableEq, Repr

abbrev Folder.key (f : Folder) : Uuid × String := (f.accountId,f.providerId)

structure FolderItem where
  folderId : Uuid
  postId : Uuid
  firstObservedInFolderAt : DateTime
  observedRemovedFromFolderAt : Option DateTime
  observedRemovedSnapshotId : Option Uuid
  deriving DecidableEq, Repr

abbrev FolderItem.key (i : FolderItem) : Uuid × Uuid := (i.folderId,i.postId)

structure FolderAuthority where
  folderId : Uuid
  snapshotId : Uuid
  updatedAt : DateTime
  deriving DecidableEq, Repr

inductive ObservationKind where | added | removed
  deriving DecidableEq, Repr

structure MembershipObservation where
  snapshotId : Uuid
  folderId : Uuid
  postId : Uuid
  kind : ObservationKind
  observedAt : DateTime
  deriving DecidableEq, Repr

abbrev MembershipObservation.key (o : MembershipObservation) : Uuid × Uuid × Uuid × ObservationKind :=
  (o.snapshotId,o.folderId,o.postId,o.kind)

inductive FolderCapability where | listing | membership
  deriving DecidableEq, Repr

structure CapabilityLimit where
  accountId : Uuid
  capability : FolderCapability
  lastRunId : Uuid
  recordedAt : DateTime
  deriving DecidableEq, Repr

abbrev CapabilityLimit.key (l : CapabilityLimit) : Uuid × FolderCapability := (l.accountId,l.capability)

abbrev BudgetWindow.key (w : BudgetWindow) : Uuid × BudgetClass × DateTime :=
  (w.accountId,w.budgetClass,w.windowStart)

abbrev Operation.claim (o : Operation) : Uuid × Digest := (o.accountId,o.idempotencyDigest)

/- Each table is keyed by what its lookups use; a second unique constraint of the
schema that a statement relies on is a field of its own. -/
structure Database where
  accounts : Table Account Account.id
  credentials : Table Credential Credential.id
  authorizations : Table WriteAuthorization WriteAuthorization.accountId
  budgetWindows : Table BudgetWindow BudgetWindow.key
  consents : Table Consent Consent.id
  operations : Table Operation Operation.id
  auditEvents : List AuditEvent
  posts : Table Post Post.providerId
  bookmarks : Table Bookmark Bookmark.key
  syncRuns : Table SyncRun SyncRun.id
  snapshots : Table Snapshot Snapshot.id
  snapshotItems : Table SnapshotItem SnapshotItem.key
  snapshotAuthority : Table Authority Authority.accountId
  incrementalState : Table IncrementalState IncrementalState.accountId
  repairs : Table Repair Repair.key
  folders : Table Folder Folder.key
  folderItems : Table FolderItem FolderItem.key
  folderSnapshotItems : Table SnapshotItem SnapshotItem.key
  folderAuthority : Table FolderAuthority FolderAuthority.folderId
  membershipObservations : Table MembershipObservation MembershipObservation.key
  capabilityLimits : Table CapabilityLimit CapabilityLimit.key
  operationClaims : operations.UniqueOn Operation.claim
  postIds : posts.UniqueOn Post.id
  bookmarkIds : bookmarks.UniqueOn Bookmark.id
  folderIds : folders.UniqueOn Folder.id

namespace Database

def empty : Database where
  accounts := .empty
  credentials := .empty
  authorizations := .empty
  budgetWindows := .empty
  consents := .empty
  operations := .empty
  auditEvents := []
  posts := .empty
  bookmarks := .empty
  syncRuns := .empty
  snapshots := .empty
  snapshotItems := .empty
  snapshotAuthority := .empty
  incrementalState := .empty
  repairs := .empty
  folders := .empty
  folderItems := .empty
  folderSnapshotItems := .empty
  folderAuthority := .empty
  membershipObservations := .empty
  capabilityLimits := .empty
  operationClaims := List.nodup_nil
  postIds := List.nodup_nil
  bookmarkIds := List.nodup_nil
  folderIds := List.nodup_nil

def bookmark (db : Database) (account post : Uuid) : Option Bookmark := db.bookmarks.find (account,post)

/-- A bookmark row is active while observed_removed_at is null. -/
def Active (db : Database) (account post : Uuid) : Prop :=
  ∃ b, db.bookmark account post = some b ∧ b.observedRemovedAt = none

instance (db account post) : Decidable (Active db account post) :=
  match h : db.bookmark account post with
  | none => .isFalse (by simp [Active,h])
  | some b => decidable_of_iff (b.observedRemovedAt = none) (by simp [Active,h])

def Staged (db : Database) (snapshot post : Uuid) : Prop :=
  (db.snapshotItems.find (snapshot,post)).isSome = true

instance (db snapshot post) : Decidable (Staged db snapshot post) := by
  unfold Staged; infer_instance

def itemsOf (db : Database) (snapshot : Uuid) : List SnapshotItem :=
  db.snapshotItems.rows.filter (fun i => i.snapshotId = snapshot)

def postId (db : Database) (providerId : String) : Option Uuid :=
  (db.posts.find providerId).map (·.id)

/-- INSERT INTO bookmarks with a generated id, ON CONFLICT (account_id, post_id) DO UPDATE. -/
def upsertBookmark (db : Database) (row : Bookmark) (merge : Bookmark → Bookmark)
    (keeps : ∀ b, (merge b).key = b.key) (keepsId : ∀ b, (merge b).id = b.id) : Database :=
  {db with
    bookmarks := db.bookmarks.upsert {row with id := freshId (db.bookmarks.rows.map Bookmark.id)} merge keeps
    bookmarkIds := db.bookmarkIds.upsert keepsId (freshIdAbsent _)}

def updateBookmarks (db : Database) (p : Bookmark → Bool) (f : Bookmark → Bookmark)
    (keeps : ∀ b, (f b).key = b.key) (keepsId : ∀ b, (f b).id = b.id) : Database :=
  {db with bookmarks := db.bookmarks.update p f keeps, bookmarkIds := db.bookmarkIds.update keepsId}

def updateOperations (db : Database) (p : Operation → Bool) (f : Operation → Operation)
    (keeps : ∀ o, (f o).id = o.id) (keepsClaim : ∀ o, (f o).claim = o.claim) : Database :=
  {db with operations := db.operations.update p f keeps, operationClaims := db.operationClaims.update keepsClaim}

theorem bookmarkUpsert (db : Database) (row merge keeps keepsId account post) :
    (db.upsertBookmark row merge keeps keepsId).bookmark account post =
      if row.key = (account,post) then
        some ((db.bookmark account post).elim {row with id := freshId (db.bookmarks.rows.map Bookmark.id)} merge)
      else db.bookmark account post :=
  Table.findUpsert ..

theorem bookmarkUpdate (db : Database) (p f keeps keepsId account post) :
    (db.updateBookmarks p f keeps keepsId).bookmark account post =
      (db.bookmark account post).map (fun b => if p b then f b else b) :=
  Table.findUpdate _ _ _ keeps _

theorem operationUpdate (db : Database) (p f keeps keepsClaim id) :
    (db.updateOperations p f keeps keepsClaim).operations.find id =
      (db.operations.find id).map (fun o => if p o then f o else o) :=
  Table.findUpdate _ _ _ keeps _

theorem stagedItem {db : Database} {snapshot post} :
    db.Staged snapshot post ↔ ∃ i ∈ db.itemsOf snapshot, i.postId = post := by
  unfold Staged itemsOf
  rw [Option.isSome_iff_exists]
  constructor
  · rintro ⟨i,found⟩
    obtain ⟨member,keyed⟩ := Table.findIff.mp found
    cases keyed
    exact ⟨i,List.mem_filter.mpr ⟨member,by simp⟩,rfl⟩
  · rintro ⟨i,member,rfl⟩
    obtain ⟨inside,same⟩ := List.mem_filter.mp member
    have snapshotSame : i.snapshotId = snapshot := by simpa using same
    exact ⟨i,Table.findIff.mpr ⟨inside,by rw [← snapshotSame]⟩⟩

end Database
end RatatoskrX.Schema
