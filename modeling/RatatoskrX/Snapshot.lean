import RatatoskrX.Audit
import RatatoskrX.Budget

/-! The statements and transactions of the full bookmark snapshot. A page reaches
this layer as the provider ids of its normalized posts; users, relations, media
and the published social sources are written in the same transactions and read by
none of the functions here. A publication that fails is a fault of its transaction
here; PublishingRuns decides it. complete_run is serializable and is one step. -/
namespace RatatoskrX.Snapshot
open Relational Schema Audit

/-- normalized is none where normalize refuses the page's envelope. -/
structure BookmarkPage where
  normalized : Option (List String)
  nextToken : Option String
  deriving DecidableEq, Repr

structure Run where
  id : Uuid
  accountId : Uuid
  snapshotId : Uuid
  checkpoint : Option String
  deriving DecidableEq, Repr

inductive SnapshotError where
  | runUnavailable
  | budget (error : Budget.BudgetError)
  | normalize | contract | query | queue | article | persistedAuthorMissing | statisticsOverflow
  deriving DecidableEq, Repr

structure ReconciliationStatistics where
  added : Int
  retained : Int
  removed : Int
  deriving DecidableEq, Repr

def insertSyncRun (db : Database) (account : Uuid) (runType : RunType) : Database × Uuid :=
  let id := freshId (db.syncRuns.rows.map SyncRun.id)
  ({db with
    syncRuns := db.syncRuns.append ⟨id,account,runType,.running,none,0,0,0,0,0,none⟩ (freshIdAbsent _)},id)

def insertSnapshot (db : Database) (runId : Uuid) (folderId : Option Uuid) : Database × Uuid :=
  let id := freshId (db.snapshots.rows.map Snapshot.id)
  ({db with snapshots := db.snapshots.append ⟨id,runId,folderId,false,none,0⟩ (freshIdAbsent _)},id)

/-- create_run; none is the violated foreign key of an unknown account. -/
def createRun (db : Database) (account : Uuid) : Option (Database × Run) :=
  if (db.accounts.find account).isSome then
    let run := insertSyncRun db account .full
    let snapshot := insertSnapshot run.1 run.2 none
    some (snapshot.1,⟨run.2,account,snapshot.2,none⟩)
  else none

/-- The select of resume_run. -/
def findResumable (db : Database) (account runId : Uuid) : Option Run := do
  let run ← db.syncRuns.find runId
  let snapshot ← db.snapshots.rows.find? (fun s => s.syncRunId = runId)
  if run.accountId = account ∧ run.runType = .full ∧ (run.state = .running ∨ run.state = .failed) then
    some ⟨runId,account,snapshot.id,run.checkpoint⟩
  else none

def updateRun (db : Database) (p : SyncRun → Bool) (f : SyncRun → SyncRun)
    (keeps : ∀ r, (f r).id = r.id) : Database :=
  {db with syncRuns := db.syncRuns.update p f keeps}

/-- The update of resume_run, which is not conditional on the state the select read. -/
def markRunning (db : Database) (runId : Uuid) : Database :=
  updateRun db (fun r => r.id = runId) (fun r => {r with state := .running, finishedAt := none}) (fun _ => rfl)

def markFailed (db : Database) (runId : Uuid) (now : DateTime) : Database :=
  updateRun db (fun r => r.id = runId) (fun r => {r with state := .failed, finishedAt := some now}) (fun _ => rfl)

def upsertPost (db : Database) (providerId : String) : Database × Uuid :=
  match h : db.posts.find providerId with
  | some post => (db,post.id)
  | none =>
    let id := freshId (db.posts.rows.map Post.id)
    ({db with
      posts := db.posts.append ⟨id,providerId⟩ (Table.findNone.mp h)
      postIds := db.postIds.append (freshIdAbsent _)},id)

/-- persist_posts: the returned map from provider id to post id. -/
def persistPosts (db : Database) : List String → Database × List (String × Uuid)
  | [] => (db,[])
  | providerId::rest =>
    let post := upsertPost db providerId
    let others := persistPosts post.1 rest
    (others.1,if providerId ∈ others.2.map Prod.fst then others.2 else (providerId,post.2)::others.2)

def stageItem (at_ : DateTime) (snapshot : Uuid) (db : Database) (post : Uuid) : Database :=
  {db with
    snapshotItems := db.snapshotItems.upsert ⟨snapshot,post,at_⟩ (fun i => {i with observedAt := at_})
      (SnapshotItem.observedKey at_)}

abbrev advancedRow (nextToken : Option String) (items : Int) (r : SyncRun) : SyncRun :=
  {r with
    checkpoint := nextToken, pagesFetched := r.pagesFetched + 1, itemsObserved := r.itemsObserved + items}

theorem advancedId (nextToken items r) : (advancedRow nextToken items r).id = r.id := rfl

/- Both integer counters stay in range, or the update fails. -/
def counted (items : Int) (r : SyncRun) : Bool := r.pagesFetched + 1 ≤ maxI32 && r.itemsObserved + items ≤ maxI32

/-- The guarded checkpoint update of stage_page. -/
def advanceRun (db : Database) (runId : Uuid) (nextToken : Option String) (items : Int) : Option Database :=
  if db.syncRuns.rows.all (fun r => !(r.id = runId && r.state = .running) || counted items r) then
    some (updateRun db (fun r => r.id = runId && r.state = .running) (advancedRow nextToken items)
      (advancedId nextToken items))
  else none

def stagePosts (db : Database) (snapshot : Uuid) (providerIds : List String) (observedAt : DateTime) : Database :=
  let posts := persistPosts db providerIds
  (posts.2.map Prod.snd).foldl (stageItem observedAt snapshot) posts.1

def stagePage (db : Database) (run : Run) (page : BookmarkPage) (observedAt : DateTime) :
    Except SnapshotError Database :=
  match page.normalized with
  | none => .error .normalize
  | some providerIds => match toI32 providerIds.length with
    | none => .error .statisticsOverflow
    | some items =>
      match advanceRun (stagePosts db run.snapshotId providerIds observedAt) run.id page.nextToken items with
      | none => .error .query
      | some db => .ok db

/-- lock_finalization: the row pair must exist, be incomplete and be running. -/
def lockFinalization (db : Database) (account : Uuid) (run : Run) : Bool :=
  match db.snapshots.find run.snapshotId, db.syncRuns.find run.id with
  | some snapshot, some row =>
    decide (snapshot.syncRunId = run.id ∧ row.accountId = account ∧ snapshot.complete = false ∧
      row.state = .running)
  | _, _ => false

def activeMatch (account : Uuid) (item : SnapshotItem) (b : Bookmark) : Bool :=
  b.accountId = account && b.postId = item.postId && b.observedRemovedAt = none

def addedCount (db : Database) (account snapshot : Uuid) : Nat :=
  ((db.itemsOf snapshot).filter (fun i => !db.bookmarks.rows.any (activeMatch account i))).length

def retainedCount (db : Database) (account snapshot : Uuid) : Nat :=
  ((db.itemsOf snapshot).flatMap (fun i => db.bookmarks.rows.filter (activeMatch account i))).length

def savedRow (account : Uuid) (item : SnapshotItem) : Bookmark :=
  ⟨0,account,item.postId,item.observedAt,item.observedAt,none,none,none,none,none,none⟩

abbrev resaved (item : SnapshotItem) (b : Bookmark) : Bookmark :=
  {b with
    lastObservedSavedAt := item.observedAt, observedRemovedAt := none, observedRemovedSnapshotId := none,
    lastIncrementalRunId := none}

def activateItem (account : Uuid) (db : Database) (item : SnapshotItem) : Database :=
  db.upsertBookmark (savedRow account item) (resaved item) (fun _ => rfl) (fun _ => rfl)

def upsertActiveBookmarks (db : Database) (account snapshot : Uuid) : Database :=
  (db.itemsOf snapshot).foldl (activateItem account) db

def absent (db : Database) (account snapshot : Uuid) (b : Bookmark) : Bool :=
  b.accountId = account && b.observedRemovedAt = none &&
    !(db.snapshotItems.rows.any (fun i => i.snapshotId = snapshot && i.postId = b.postId))

def recordRepair (snapshot : Uuid) (db : Database) (b : Bookmark) : Database :=
  if b.lastIncrementalRunId.isNone then db
  else {db with repairs := db.repairs.insertIgnore ⟨snapshot,b.id,.incrementalDrift⟩}

abbrev struck (snapshot : Uuid) (completedAt : DateTime) (b : Bookmark) : Bookmark :=
  {b with observedRemovedAt := some completedAt, observedRemovedSnapshotId := some snapshot}

/-- record_absent_bookmarks, with the number of rows its update returned. -/
def recordAbsentBookmarks (db : Database) (account snapshot : Uuid) (completedAt : DateTime) :
    Database × Nat :=
  let removed := db.bookmarks.rows.filter (absent db account snapshot)
  let updated := db.updateBookmarks (absent db account snapshot) (struck snapshot completedAt)
    (fun _ => rfl) (fun _ => rfl)
  (removed.foldl (recordRepair snapshot) updated,removed.length)

def reconcileBookmarks (db : Database) (account : Uuid) (run : Run) (completedAt : DateTime) :
    Option (Database × ReconciliationStatistics) := do
  let added := addedCount db account run.snapshotId
  let retained := retainedCount db account run.snapshotId
  let removed := recordAbsentBookmarks (upsertActiveBookmarks db account run.snapshotId) account
    run.snapshotId completedAt
  some (removed.1,⟨← toI32 added,← toI32 retained,← toI32 removed.2⟩)

/- The exists subquery: the operation's post is among the staged items. -/
def presentIn (db : Database) (snapshot : Uuid) (o : Operation) : Bool :=
  (db.itemsOf snapshot).any (fun i =>
    db.posts.rows.any (fun p => p.id = i.postId && p.providerId = o.providerPostId))

def reconciledStatus (action : BookmarkAction) (present : Bool) : OperationStatus :=
  if (action = .add && present) || (action = .remove && !present) then .reconciledSucceeded
  else .reconciledNotCurrent

def reconciledOutcome (present : Bool) : String :=
  if present then "complete_snapshot_present" else "complete_snapshot_absent"

def statusName : OperationStatus → String
  | .received => "received"
  | .refused => "refused"
  | .dryRun => "dry_run"
  | .providerInFlight => "provider_in_flight"
  | .succeeded => "succeeded"
  | .failed => "failed"
  | .uncertain => "uncertain"
  | .projectionPending => "projection_pending"
  | .reconciledSucceeded => "reconciled_succeeded"
  | .reconciledNotCurrent => "reconciled_not_current"

abbrev settledRow (completedAt : DateTime) (present : Bool) (action : BookmarkAction) (o : Operation) : Operation :=
  {o with
    status := reconciledStatus action present, outcome := some (reconciledOutcome present),
    projectionObservedAt := some completedAt}

def reconcileOperation (snapshot : Uuid) (completedAt : DateTime) (db : Database) (selected : Operation × Bool) :
    Database :=
  let updated := db.updateOperations (fun o => o.id = selected.1.id && o.status = .uncertain)
    (settledRow completedAt selected.2 selected.1.action) (fun _ => rfl) (fun _ => rfl)
  appendJoined updated selected.1.id completedAt
    [(.snapshotReconciled,[("snapshot_id",.identity snapshot),
      ("result",.text (statusName (reconciledStatus selected.1.action selected.2)))])]
    Operation.providerRequestId

def uncertainOf (db : Database) (account snapshot : Uuid) : List (Operation × Bool) :=
  (db.operations.rows.filter (fun o => o.accountId = account && o.status = .uncertain)).map
    (fun o => (o,presentIn db snapshot o))

def reconcileUncertainBookmarkWrites (db : Database) (account snapshot : Uuid) (completedAt : DateTime) :
    Database :=
  (uncertainOf db account snapshot).foldl (reconcileOperation snapshot completedAt) db

abbrev finishedRow (completedAt : DateTime) (statistics : ReconciliationStatistics) (r : SyncRun) : SyncRun :=
  {r with
    state := .completed, finishedAt := some completedAt, addedCount := statistics.added,
    retainedCount := statistics.retained, removedCount := statistics.removed, checkpoint := none}

abbrev sealedRow (completedAt : DateTime) (pages : Int) (s : Snapshot) : Snapshot :=
  {s with complete := true, completedAt := some completedAt, pageCount := pages}

def recordCompletion (db : Database) (runId snapshotId : Uuid) (completedAt : DateTime)
    (statistics : ReconciliationStatistics) : Database :=
  let finished := updateRun db (fun r => r.id = runId) (finishedRow completedAt statistics) (fun _ => rfl)
  let pages := ((finished.syncRuns.find runId).map SyncRun.pagesFetched).getD 0
  {finished with
    snapshots := finished.snapshots.update (fun s => s.id = snapshotId) (sealedRow completedAt pages)
      (fun _ => rfl)}

def clearFullSnapshotRequirement (db : Database) (account : Uuid) (completedAt : DateTime) : Database :=
  {db with
    incrementalState := db.incrementalState.update (fun s => s.accountId = account)
      (fun s => {s with requiresFullSnapshot := false, lastOutcome := .idle, updatedAt := completedAt})
      (fun _ => rfl)}

def replaceAuthority (db : Database) (account snapshot : Uuid) (completedAt : DateTime) : Database :=
  {db with
    snapshotAuthority := db.snapshotAuthority.upsert ⟨account,snapshot,completedAt⟩
      (fun a => {a with snapshotId := snapshot, updatedAt := completedAt}) (fun _ => rfl)}

def completeRun (db : Database) (account : Uuid) (run : Run) (completedAt : DateTime) :
    Except SnapshotError Database :=
  if lockFinalization db account run then
    match reconcileBookmarks db account run completedAt with
    | none => .error .statisticsOverflow
    | some (reconciled,statistics) =>
      let settled := reconcileUncertainBookmarkWrites reconciled account run.snapshotId completedAt
      let recorded := recordCompletion settled run.id run.snapshotId completedAt statistics
      .ok (replaceAuthority (clearFullSnapshotRequirement recorded account completedAt) account run.snapshotId
        completedAt)
  else .error .runUnavailable

theorem stagedForm {db run page t after} (ok : stagePage db run page t = .ok after) :
    ∃ providerIds items, page.normalized = some providerIds ∧
      after = updateRun (stagePosts db run.snapshotId providerIds t)
        (fun r => r.id = run.id && r.state = .running) (advancedRow page.nextToken items) (fun _ => rfl) := by
  unfold stagePage at ok
  split at ok
  · simp at ok
  rename_i providerIds normalized
  split at ok
  · simp at ok
  rename_i items _
  split at ok
  · simp at ok
  rename_i advanced
  unfold advanceRun at advanced
  split at advanced
  · exact ⟨providerIds,items,normalized,((Option.some.inj advanced).trans (Except.ok.inj ok)).symm⟩
  · simp at advanced

end RatatoskrX.Snapshot
