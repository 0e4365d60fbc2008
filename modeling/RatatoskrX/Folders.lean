import RatatoskrX.Incremental

/-! The statements and transactions of the native folder membership snapshot. Its
page counters and its completion are the full snapshot's without the state guard
and over the folder's own item tables. -/
namespace RatatoskrX.Folders
open Relational Schema Snapshot

structure NativeFolder where
  providerId : String
  name : Option String
  deriving DecidableEq, Repr

structure FolderRun where
  id : Uuid
  snapshotId : Uuid
  folderId : Uuid
  checkpoint : Option String
  deriving DecidableEq, Repr

inductive FolderSnapshotOutcome where
  | incomplete (runId : Uuid)
  | completed (runId snapshotId : Uuid)
  | capabilityLimited (runId : Uuid) (capability : FolderCapability)
  deriving DecidableEq, Repr

def folderRunType : FolderCapability → RunType
  | .listing => .folderListing
  | .membership => .folderMembership

def upsertFolder (db : Database) (account : Uuid) (folder : NativeFolder) : Database × Uuid :=
  let id := freshId (db.folders.rows.map Folder.id)
  let upserted : Database := {db with
    folders := db.folders.upsert ⟨id,account,folder.providerId,folder.name⟩
      (fun f => {f with name := folder.name}) (fun _ => rfl)
    folderIds := db.folderIds.upsert (fun _ => rfl) (freshIdAbsent _)}
  (upserted,((db.folders.find (account,folder.providerId)).map Folder.id).getD id)

def createRun (db : Database) (account : Uuid) (folder : NativeFolder) : Option (Database × FolderRun) :=
  if (db.accounts.find account).isSome then
    let row := upsertFolder db account folder
    let run := insertSyncRun row.1 account .folderMembership
    let snapshot := insertSnapshot run.1 run.2 (some row.2)
    some (snapshot.1,⟨run.2,snapshot.2,row.2,none⟩)
  else none

/-- The select of resume_run. -/
def findResumable (db : Database) (account runId : Uuid) (folder : NativeFolder) : Option FolderRun := do
  let run ← db.syncRuns.find runId
  let snapshot ← db.snapshots.rows.find? (fun s => s.syncRunId = runId)
  let folderId ← snapshot.folderId
  let row ← db.folders.rows.find? (fun f => f.id = folderId)
  if run.accountId = account ∧ run.runType = .folderMembership ∧
      (run.state = .running ∨ run.state = .failed) ∧ row.providerId = folder.providerId then
    some ⟨runId,snapshot.id,folderId,run.checkpoint⟩
  else none

def stageItem (observedAt : DateTime) (snapshot : Uuid) (db : Database) (post : Uuid) : Database :=
  {db with
    folderSnapshotItems := db.folderSnapshotItems.upsert ⟨snapshot,post,observedAt⟩
      (fun i => {i with observedAt := observedAt}) (SnapshotItem.observedKey observedAt)}

def advanceRun (db : Database) (runId : Uuid) (nextToken : Option String) (items : Int) : Option Database :=
  if db.syncRuns.rows.all (fun r => !decide (r.id = runId) || counted items r) then
    some (updateRun db (fun r => r.id = runId) (advancedRow nextToken items) (advancedId nextToken items))
  else none

def stagePosts (db : Database) (snapshot : Uuid) (providerIds : List String) (observedAt : DateTime) : Database :=
  let posts := persistPosts db providerIds
  (posts.2.map Prod.snd).foldl (stageItem observedAt snapshot) posts.1

def stagePage (db : Database) (run : FolderRun) (page : BookmarkPage) (observedAt : DateTime) :
    Except SnapshotError Database :=
  match page.normalized with
  | none => .error .normalize
  | some providerIds => match toI32 providerIds.length with
    | none => .error .statisticsOverflow
    | some items =>
      match advanceRun (stagePosts db run.snapshotId providerIds observedAt) run.id page.nextToken items with
      | none => .error .query
      | some db => .ok db

def lockFinalization (db : Database) (run : FolderRun) : Bool :=
  match db.snapshots.find run.snapshotId, db.syncRuns.find run.id with
  | some snapshot, some row =>
    decide (snapshot.syncRunId = run.id ∧ snapshot.folderId = some run.folderId ∧ snapshot.complete = false ∧
      row.state = .running)
  | _, _ => false

def stagedItems (db : Database) (snapshot : Uuid) : List SnapshotItem :=
  db.folderSnapshotItems.rows.filter (fun i => i.snapshotId = snapshot)

def activeMatch (folder : Uuid) (staged : SnapshotItem) (item : FolderItem) : Bool :=
  item.folderId = folder && item.postId = staged.postId && item.observedRemovedFromFolderAt = none

/- The left join that both the count and the observations of additions select from. -/
def newlyStaged (db : Database) (run : FolderRun) : List SnapshotItem :=
  (stagedItems db run.snapshotId).filter (fun s => !db.folderItems.rows.any (activeMatch run.folderId s))

def countAdded (db : Database) (run : FolderRun) : Nat := (newlyStaged db run).length

def countRetained (db : Database) (run : FolderRun) : Nat :=
  ((stagedItems db run.snapshotId).flatMap
    (fun s => db.folderItems.rows.filter (activeMatch run.folderId s))).length

def observe (snapshot folder : Uuid) (kind : ObservationKind) (observedAt : DateTime) (db : Database)
    (post : Uuid) : Database :=
  {db with
    membershipObservations :=
      db.membershipObservations.insertIgnore ⟨snapshot,folder,post,kind,observedAt⟩}

def recordAddedObservations (db : Database) (run : FolderRun) (completedAt : DateTime) : Database :=
  ((newlyStaged db run).map SnapshotItem.postId).foldl
    (observe run.snapshotId run.folderId .added completedAt) db

def activateMembership (folder : Uuid) (db : Database) (staged : SnapshotItem) : Database :=
  {db with
    folderItems := db.folderItems.upsert ⟨folder,staged.postId,staged.observedAt,none,none⟩
      (fun i => {i with observedRemovedFromFolderAt := none, observedRemovedSnapshotId := none})
      (fun _ => rfl)}

def upsertActiveMemberships (db : Database) (run : FolderRun) : Database :=
  (stagedItems db run.snapshotId).foldl (activateMembership run.folderId) db

def absent (db : Database) (run : FolderRun) (item : FolderItem) : Bool :=
  item.folderId = run.folderId && item.observedRemovedFromFolderAt = none &&
    !(db.folderSnapshotItems.rows.any (fun s => s.snapshotId = run.snapshotId && s.postId = item.postId))

def recordAbsentMemberships (db : Database) (run : FolderRun) (completedAt : DateTime) : Database × Nat :=
  let removed := db.folderItems.rows.filter (absent db run)
  let updated : Database := {db with
    folderItems := db.folderItems.update (absent db run)
      (fun i => {i with
        observedRemovedFromFolderAt := some completedAt, observedRemovedSnapshotId := some run.snapshotId})
      (fun _ => rfl)}
  ((removed.map FolderItem.postId).foldl (observe run.snapshotId run.folderId .removed completedAt) updated,
    removed.length)

def reconcileMemberships (db : Database) (run : FolderRun) (completedAt : DateTime) :
    Option (Database × ReconciliationStatistics) := do
  let added := countAdded db run
  let retained := countRetained db run
  let removed := recordAbsentMemberships
    (upsertActiveMemberships (recordAddedObservations db run completedAt) run) run completedAt
  some (removed.1,⟨← toI32 added,← toI32 retained,← toI32 removed.2⟩)

def replaceAuthority (db : Database) (folder snapshot : Uuid) (completedAt : DateTime) : Database :=
  {db with
    folderAuthority := db.folderAuthority.upsert ⟨folder,snapshot,completedAt⟩
      (fun a => {a with snapshotId := snapshot, updatedAt := completedAt}) (fun _ => rfl)}

def completeRun (db : Database) (run : FolderRun) (completedAt : DateTime) : Except SnapshotError Database :=
  if lockFinalization db run then
    match reconcileMemberships db run completedAt with
    | none => .error .statisticsOverflow
    | some (reconciled,statistics) =>
      -- record_completion is word for word the full snapshot's.
      let recorded := recordCompletion reconciled run.id run.snapshotId completedAt statistics
      .ok (replaceAuthority recorded run.folderId run.snapshotId completedAt)
  else .error .runUnavailable

/-- mark_capability_limited; none is a run row that does not exist. -/
def markCapabilityLimited (db : Database) (runId : Uuid) (capability : FolderCapability) (recordedAt : DateTime) :
    Option Database := do
  let run ← db.syncRuns.find runId
  let failed := markFailed db runId recordedAt
  some {failed with
    capabilityLimits := failed.capabilityLimits.upsert ⟨run.accountId,capability,runId,recordedAt⟩
      (fun l => {l with lastRunId := runId, recordedAt := recordedAt}) (fun _ => rfl)}

theorem stagedForm {db run page t after} (ok : stagePage db run page t = .ok after) :
    ∃ providerIds items, page.normalized = some providerIds ∧
      after = updateRun (stagePosts db run.snapshotId providerIds t) (fun r => r.id = run.id)
        (advancedRow page.nextToken items) (fun _ => rfl) := by
  unfold stagePage at ok
  split at ok
  · simp at ok
  rename_i providerIds normalized
  split at ok
  · simp at ok
  rename_i items _
  split at ok
  · simp at ok
  rename_i advanced
  unfold advanceRun at advanced
  split at advanced
  · exact ⟨providerIds,items,normalized,((Option.some.inj advanced).trans (Except.ok.inj ok)).symm⟩
  · simp at advanced

theorem completedForm {db run t after} (ok : completeRun db run t = .ok after) :
    lockFinalization db run = true ∧ ∃ statistics, after = replaceAuthority (recordCompletion
      (recordAbsentMemberships (upsertActiveMemberships (recordAddedObservations db run t) run) run t).1
      run.id run.snapshotId t statistics) run.folderId run.snapshotId t := by
  unfold completeRun at ok
  split at ok
  · rename_i locked
    split at ok
    · simp at ok
    · rename_i reconciled statistics found
      simp only [reconcileMemberships,bind,Option.bind_eq_some_iff,Option.some.injEq,Prod.mk.injEq] at found
      obtain ⟨_,_,_,_,_,_,rfl,rfl⟩ := found
      exact ⟨locked,_,(Except.ok.inj ok).symm⟩
  · simp at ok

end RatatoskrX.Folders
