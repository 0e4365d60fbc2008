import RatatoskrX.Snapshot

/-! The statements and transactions of the bounded incremental scan. A scan only
observes: it upserts what a page shows and writes its own run and state rows. -/
namespace RatatoskrX.Incremental
open Relational Schema Snapshot

inductive IncrementalOutcome where
  | completed (runId : Uuid) (watermarkProviderPostId : Option String)
  | requiresFullSnapshot (runId : Uuid)
  | incomplete (runId : Uuid)
  deriving DecidableEq, Repr

/-- load_state: an account without a row has no watermark and no gap. -/
def loadState (db : Database) (account : Uuid) : Option String × Bool :=
  match db.incrementalState.find account with
  | some state => (state.watermarkProviderPostId,state.requiresFullSnapshot)
  | none => (none,false)

def createRun (db : Database) (account : Uuid) : Option (Database × Uuid) :=
  if (db.accounts.find account).isSome then some (insertSyncRun db account .incremental) else none

abbrev reobserved (runId : Uuid) (observedAt : DateTime) (b : Bookmark) : Bookmark :=
  {b with
    lastObservedSavedAt := observedAt, observedRemovedAt := none, observedRemovedSnapshotId := none,
    lastIncrementalRunId := some runId}

def observeBookmark (account runId : Uuid) (observedAt : DateTime) (db : Database) (post : Uuid) : Database :=
  db.upsertBookmark ⟨0,account,post,observedAt,observedAt,none,none,none,none,none,some runId⟩
    (reobserved runId observedAt) (fun _ => rfl) (fun _ => rfl)

def upsertObservedBookmarks (db : Database) (account runId : Uuid) (posts : List Uuid) (observedAt : DateTime) :
    Database :=
  posts.foldl (observeBookmark account runId observedAt) db

abbrev countedRow (items : Int) (r : SyncRun) : SyncRun :=
  {r with pagesFetched := r.pagesFetched + 1, itemsObserved := r.itemsObserved + items}

/- The page counters of a run, without the state guard of the full snapshot. -/
def countPage (db : Database) (runId : Uuid) (items : Int) : Option Database :=
  if db.syncRuns.rows.all (fun r => !decide (r.id = runId) || counted items r) then
    some (updateRun db (fun r => r.id = runId) (countedRow items) (fun _ => rfl))
  else none

def observePosts (db : Database) (account runId : Uuid) (providerIds : List String) (observedAt : DateTime) :
    Database :=
  let posts := persistPosts db providerIds
  upsertObservedBookmarks posts.1 account runId (posts.2.map Prod.snd) observedAt

/-- The transaction of observe_page; the watermark it compares with is read before it begins. -/
def observePage (db : Database) (account runId : Uuid) (page : BookmarkPage) (observedAt : DateTime) :
    Except SnapshotError Database :=
  match page.normalized with
  | none => .error .normalize
  | some providerIds => match toI32 (persistPosts db providerIds).2.length with
    | none => .error .statisticsOverflow
    | some items => match countPage (observePosts db account runId providerIds observedAt) runId items with
      | none => .error .query
      | some db => .ok db

def newestOf (newest : Option String) (page : BookmarkPage) : Option String :=
  match newest with
  | some known => some known
  | none => (page.normalized.getD []).head?

def reachedWatermark (db : Database) (account : Uuid) (page : BookmarkPage) : Bool :=
  match (loadState db account).1 with
  | some watermark => (page.normalized.getD []).contains watermark
  | none => false

def upsertState (db : Database) (row : IncrementalState) (merge : IncrementalState → IncrementalState)
    (keeps : ∀ s, (merge s).accountId = s.accountId) : Database :=
  {db with incrementalState := db.incrementalState.upsert row merge keeps}

/-- complete_run; none is a run row that does not exist. -/
def completeRun (db : Database) (runId : Uuid) (watermark : Option String) (completedAt : DateTime) :
    Option Database := do
  let run ← db.syncRuns.find runId
  let finished := updateRun db (fun r => r.id = runId)
    (fun r => {r with state := .completed, finishedAt := some completedAt}) (fun _ => rfl)
  some (upsertState finished ⟨run.accountId,watermark,false,.completed,some runId,completedAt⟩
    (fun s => {s with
      watermarkProviderPostId := watermark, lastOutcome := .completed, lastIncrementalRunId := some runId,
      updatedAt := completedAt})
    (fun _ => rfl))

def markGap (db : Database) (account runId : Uuid) (observedAt : DateTime) : Database :=
  upsertState (markFailed db runId observedAt) ⟨account,none,true,.gap,some runId,observedAt⟩
    (fun s => {s with
      requiresFullSnapshot := true, lastOutcome := .gap, lastIncrementalRunId := some runId,
      updatedAt := observedAt})
    (fun _ => rfl)

def stopRun (db : Database) (account runId : Uuid) (outcome : IncrementalResult) (observedAt : DateTime) :
    Database :=
  upsertState (markFailed db runId observedAt) ⟨account,none,false,outcome,some runId,observedAt⟩
    (fun s => {s with
      lastOutcome := outcome, lastIncrementalRunId := some runId, updatedAt := observedAt})
    (fun _ => rfl)

theorem observedForm {db account runId page t after} (ok : observePage db account runId page t = .ok after) :
    ∃ providerIds items, page.normalized = some providerIds ∧
      after = updateRun (observePosts db account runId providerIds t) (fun r => r.id = runId) (countedRow items)
        (fun _ => rfl) := by
  unfold observePage at ok
  split at ok
  · simp at ok
  rename_i providerIds normalized
  split at ok
  · simp at ok
  rename_i items _
  split at ok
  · simp at ok
  rename_i advanced
  unfold countPage at advanced
  split at advanced
  · exact ⟨providerIds,items,normalized,((Option.some.inj advanced).trans (Except.ok.inj ok)).symm⟩
  · simp at advanced

end RatatoskrX.Incremental
