import RatatoskrX.Staging

/-! The run and snapshot rows that the services work on: what each transaction does to
one of them, every step a full-snapshot call can take, and that a call of another
service never holds a full run. -/
namespace RatatoskrX.Registry
open Outcome Relational Schema Budget Snapshot Folders Journal Frames Reconciliation SyncCalls Schedule Transition Staging

/- The columns of a run that no statement updates. -/
def title (r : SyncRun) : Uuid × Uuid × RunType := (r.id,r.accountId,r.runType)

/- What a transaction does to one run row; the rows of the other services only by their id. -/
def RunMoves (r r' : SyncRun) : Commit → Prop
  | .resumeRun runId => r' = if r.id = runId then {r with state := .running, finishedAt := none} else r
  | .markFailed runId t => r' = if r.id = runId then {r with state := .failed, finishedAt := some t} else r
  | .stagePage run page _ _ =>
    ∃ items, r' = if r.id = run.id ∧ r.state = .running then advancedRow page.nextToken items r else r
  | .completeRun _ run t => ∃ statistics, r' = if r.id = run.id then finishedRow t statistics r else r
  | .observePage _ runId _ _ | .completeScan runId _ _ | .markGap _ runId _ | .stopScan _ runId _ _
  | .markCapabilityLimited runId _ _ => r.id ≠ runId → r' = r
  | .stageFolderPage run _ _ | .completeFolderRun run _ => r.id ≠ run.id → r' = r
  | _ => r' = r

theorem updateRunFind (db p f keeps id) :
    (updateRun db p f keeps).syncRuns.find id = (db.syncRuns.find id).map (fun r => if p r then f r else r) :=
  Table.findUpdate _ _ _ keeps _

theorem recordedRun (db : Database) (runId snapshotId t statistics id) :
    (recordCompletion db runId snapshotId t statistics).syncRuns.find id =
      (db.syncRuns.find id).map (fun r => if r.id = runId then finishedRow t statistics r else r) := by
  refine (updateRunFind db (fun r => r.id = runId) (finishedRow t statistics) (fun _ => rfl) id).trans ?_
  simp only [decide_eq_true_eq]

theorem recordedSnapshot (db : Database) (runId snapshotId t statistics id) : ∃ pages,
    (recordCompletion db runId snapshotId t statistics).snapshots.find id =
      (db.snapshots.find id).map (fun s => if s.id = snapshotId then sealedRow t pages s else s) := by
  refine ⟨((((updateRun db (fun r => r.id = runId) (finishedRow t statistics) (fun _ => rfl)).syncRuns.find
    runId).map SyncRun.pagesFetched).getD 0),?_⟩
  refine (Table.findUpdate db.snapshots (fun s => s.id = snapshotId) (sealedRow t _) (fun _ => rfl) id).trans ?_
  simp only [decide_eq_true_eq]

theorem openedFresh (db : Database) (account kind) : db.syncRuns.find (insertSyncRun db account kind).2 = none :=
  Table.findNone.mpr (freshIdAbsent _)

theorem openedRun (db : Database) (account kind id) :
    (insertSyncRun db account kind).1.syncRuns.find id = if (insertSyncRun db account kind).2 = id then
      some ⟨(insertSyncRun db account kind).2,account,kind,.running,none,0,0,0,0,0,none⟩ else db.syncRuns.find id :=
  Table.findAppend db.syncRuns ⟨freshId _,account,kind,.running,none,0,0,0,0,0,none⟩ (freshIdAbsent _) id

theorem runForm {c : Commit} {db after} (applied : c.effect db = some after) :
    (∃ g : SyncRun → SyncRun, (∀ id, after.syncRuns.find id = (db.syncRuns.find id).map g) ∧
      ∀ r, title (g r) = title r ∧ RunMoves r (g r) c) ∨
    (∃ account kind, after.syncRuns = (insertSyncRun db account kind).1.syncRuns ∧ ∀ r, RunMoves r r c) := by
  have failed : ∀ {runId t}, after.syncRuns = (Snapshot.markFailed db runId t).syncRuns → ∀ id,
      after.syncRuns.find id = (db.syncRuns.find id).map
        (fun r => if r.id = runId then {r with state := .failed, finishedAt := some t} else r) := by
    intro runId t form id
    rw [form,Snapshot.markFailed,updateRunFind]
    simp only [decide_eq_true_eq]
  have agree := frame applied
  cases c with
  | resumeRun target =>
    cases Option.some.inj applied
    refine .inl ⟨fun r => if r.id = target then {r with state := .running, finishedAt := none} else r,?_,?_⟩
    · intro id
      refine (updateRunFind db _ _ _ id).trans ?_
      simp only [decide_eq_true_eq]
    · intro r
      by_cases mine : r.id = target <;> simp [mine,title,RunMoves]
  | markFailed target t =>
    cases Option.some.inj applied
    refine .inl ⟨_,failed rfl,?_⟩
    intro r
    by_cases mine : r.id = target <;> simp [mine,title,RunMoves]
  | stagePage run page t stamp =>
    obtain ⟨providerIds,items,_,form⟩ := Snapshot.stagedForm (accepted applied)
    have same : (Snapshot.stagePosts db run.snapshotId providerIds t).syncRuns = db.syncRuns :=
      ((Agree.fold (stageItemFrame t run.snapshotId) _ _).syncRuns (by simp)).trans
        ((persistPostsFrame providerIds db).syncRuns (by simp))
    refine .inl ⟨fun r => if r.id = run.id ∧ r.state = .running then advancedRow page.nextToken items r else r,?_,?_⟩
    · intro id
      rw [form,updateRunFind,same]
      simp only [Bool.and_eq_true,decide_eq_true_eq]
    · intro r
      refine ⟨?_,items,rfl⟩
      dsimp only
      split <;> rfl
  | completeRun account run t =>
    obtain ⟨statistics,_,_,_,rows⟩ := committedRun (accepted applied)
    refine .inl ⟨_,rows,?_⟩
    intro r
    refine ⟨?_,statistics,rfl⟩
    split <;> rfl
  | observePage account runId page t =>
    obtain ⟨providerIds,items,_,form⟩ := Incremental.observedForm (accepted applied)
    have same : (Incremental.observePosts db account runId providerIds t).syncRuns = db.syncRuns :=
      ((Agree.fold (observeFrame account runId t) _ _).syncRuns (by simp)).trans
        ((persistPostsFrame providerIds db).syncRuns (by simp))
    refine .inl ⟨fun r => if r.id = runId then Incremental.countedRow items r else r,?_,?_⟩
    · intro id
      rw [form,updateRunFind,same]
      simp only [decide_eq_true_eq]
    · intro r
      by_cases mine : r.id = runId <;> simp [mine,title,RunMoves]
  | completeScan runId watermark t =>
    obtain ⟨run,_,last⟩ := Option.bind_eq_some_iff.mp applied
    cases Option.some.inj last
    refine .inl ⟨fun r => if r.id = runId then {r with state := .completed, finishedAt := some t} else r,?_,?_⟩
    · intro id
      refine (updateRunFind db (fun r => r.id = runId)
        (fun r => {r with state := .completed, finishedAt := some t}) (fun _ => rfl) id).trans ?_
      simp only [decide_eq_true_eq]
    · intro r
      by_cases mine : r.id = runId <;> simp [mine,title,RunMoves]
  | markGap account runId t =>
    cases Option.some.inj applied
    refine .inl ⟨_,failed rfl,?_⟩
    intro r
    by_cases mine : r.id = runId <;> simp [mine,title,RunMoves]
  | stopScan account runId outcome t =>
    cases Option.some.inj applied
    refine .inl ⟨_,failed rfl,?_⟩
    intro r
    by_cases mine : r.id = runId <;> simp [mine,title,RunMoves]
  | markCapabilityLimited runId capability t =>
    obtain ⟨run,_,last⟩ := Option.bind_eq_some_iff.mp applied
    cases Option.some.inj last
    refine .inl ⟨_,failed rfl,?_⟩
    intro r
    by_cases mine : r.id = runId <;> simp [mine,title,RunMoves]
  | stageFolderPage run page t =>
    obtain ⟨providerIds,items,_,form⟩ := Folders.stagedForm (accepted applied)
    have same : (Folders.stagePosts db run.snapshotId providerIds t).syncRuns = db.syncRuns :=
      ((Agree.fold (stageFolderItemFrame t run.snapshotId) _ _).syncRuns (by simp)).trans
        ((persistPostsFrame providerIds db).syncRuns (by simp))
    refine .inl ⟨fun r => if r.id = run.id then advancedRow page.nextToken items r else r,?_,?_⟩
    · intro id
      rw [form,updateRunFind,same]
      simp only [decide_eq_true_eq]
    · intro r
      by_cases mine : r.id = run.id <;> simp [mine,title,RunMoves]
  | completeFolderRun run t =>
    obtain ⟨_,statistics,form⟩ := Folders.completedForm (accepted applied)
    refine .inl ⟨fun r => if r.id = run.id then finishedRow t statistics r else r,?_,?_⟩
    · intro id
      rw [form]
      refine (recordedRun _ run.id run.snapshotId t statistics id).trans ?_
      rw [(reconciledFrame db run t).syncRuns (by simp)]
    · intro r
      by_cases mine : r.id = run.id <;> simp [mine,title,RunMoves]
  | createRun account =>
    obtain ⟨_,made,rfl⟩ := Option.map_eq_some_iff.mp applied
    unfold Snapshot.createRun at made
    split at made <;> cases made
    exact .inr ⟨account,.full,rfl,fun _ => rfl⟩
  | createScan account =>
    obtain ⟨_,made,rfl⟩ := Option.map_eq_some_iff.mp applied
    unfold Incremental.createRun at made
    split at made <;> cases made
    exact .inr ⟨account,.incremental,rfl,fun _ => rfl⟩
  | createFolderRun account folder =>
    obtain ⟨_,made,rfl⟩ := Option.map_eq_some_iff.mp applied
    unfold Folders.createRun at made
    split at made <;> cases made
    exact .inr ⟨account,.folderMembership,rfl,fun _ => rfl⟩
  | createLimitRun account capability =>
    simp only [Commit.effect] at applied
    split at applied <;> cases applied
    exact .inr ⟨account,folderRunType capability,rfl,fun _ => rfl⟩
  | _ =>
    refine .inl ⟨fun r => r,?_,fun r => ⟨rfl,rfl⟩⟩
    intro id
    rw [agree.syncRuns (by simp [touched])]
    simp

theorem runAfter {c : Commit} {db after} (applied : c.effect db = some after) {id r}
    (found : db.syncRuns.find id = some r) :
    ∃ r', after.syncRuns.find id = some r' ∧ title r' = title r ∧ RunMoves r r' c := by
  rcases runForm applied with ⟨g,rows,moves⟩ | ⟨account,kind,form,still⟩
  · exact ⟨g r,by rw [rows,found,Option.map_some],(moves r).1,(moves r).2⟩
  · refine ⟨r,?_,rfl,still r⟩
    rw [form,openedRun,if_neg,found]
    rintro rfl
    rw [openedFresh] at found
    simp at found

theorem runOpened {c : Commit} {db after} (applied : c.effect db = some after) {id r'}
    (absent : db.syncRuns.find id = none) (found : after.syncRuns.find id = some r') :
    r'.state = .running ∧ r'.checkpoint = none ∧ r'.pagesFetched = 0 := by
  rcases runForm applied with ⟨g,rows,_⟩ | ⟨account,kind,form,_⟩
  · rw [rows,absent] at found
    simp at found
  · rw [form,openedRun] at found
    split at found
    · cases Option.some.inj found
      exact ⟨rfl,rfl,rfl⟩
    · rw [absent] at found
      simp at found

def SnapshotMoves (s s' : Snapshot) : Commit → Prop
  | .completeRun _ run t => ∃ pages, s' = if s.id = run.snapshotId then sealedRow t pages s else s
  | .completeFolderRun run t => ∃ pages, s' = if s.id = run.snapshotId then sealedRow t pages s else s
  | _ => s' = s

theorem openedSnapshotFresh (db : Database) (runId folder) :
    db.snapshots.find (insertSnapshot db runId folder).2 = none :=
  Table.findNone.mpr (freshIdAbsent _)

theorem openedSnapshot (db : Database) (runId folder id) :
    (insertSnapshot db runId folder).1.snapshots.find id = if (insertSnapshot db runId folder).2 = id then
      some ⟨(insertSnapshot db runId folder).2,runId,folder,false,none,0⟩ else db.snapshots.find id :=
  Table.findAppend db.snapshots ⟨freshId _,runId,folder,false,none,0⟩ (freshIdAbsent _) id

theorem snapshotAfter {c : Commit} {db after} (applied : c.effect db = some after) {id s}
    (found : db.snapshots.find id = some s) :
    ∃ s', after.snapshots.find id = some s' ∧ s'.id = s.id ∧ s'.syncRunId = s.syncRunId ∧ SnapshotMoves s s' c := by
  have agree := frame applied
  have inserted : ∀ {table : Database} {runId folder}, table.snapshots = db.snapshots →
      after.snapshots = (insertSnapshot table runId folder).1.snapshots → after.snapshots.find id = some s := by
    intro table runId folder same form
    rw [form,openedSnapshot,if_neg,same,found]
    rintro rfl
    have absent := openedSnapshotFresh table runId folder
    rw [same,found] at absent
    simp at absent
  cases c with
  | completeRun account run t =>
    obtain ⟨row,_,rows⟩ := committedSnapshot (accepted applied)
    refine ⟨_,by rw [rows,found]; rfl,?_,?_,row.pagesFetched,rfl⟩
    · split <;> rfl
    · split <;> rfl
  | completeFolderRun run t =>
    obtain ⟨_,statistics,form⟩ := Folders.completedForm (accepted applied)
    obtain ⟨pages,rows⟩ := recordedSnapshot (recordAbsentMemberships (upsertActiveMemberships
      (recordAddedObservations db run t) run) run t).1 run.id run.snapshotId t statistics id
    have row : after.snapshots.find id = some (if s.id = run.snapshotId then sealedRow t pages s else s) := by
      rw [form]
      refine rows.trans ?_
      rw [(reconciledFrame db run t).snapshots (by simp),found]
      rfl
    refine ⟨_,row,?_,?_,pages,rfl⟩
    · split <;> rfl
    · split <;> rfl
  | createRun account =>
    obtain ⟨_,made,rfl⟩ := Option.map_eq_some_iff.mp applied
    unfold Snapshot.createRun at made
    split at made <;> cases made
    exact ⟨s,inserted rfl rfl,rfl,rfl,rfl⟩
  | createFolderRun account folder =>
    obtain ⟨_,made,rfl⟩ := Option.map_eq_some_iff.mp applied
    unfold Folders.createRun at made
    split at made <;> cases made
    exact ⟨s,inserted rfl rfl,rfl,rfl,rfl⟩
  | _ => exact ⟨s,by rw [agree.snapshots (by simp [touched]),found],rfl,rfl,rfl⟩

/- A snapshot row that a transaction opened with its run: incomplete, and of a folder only
with a run of its kind. -/
structure Opened (db after : Database) (id : Uuid) (s : Snapshot) : Prop where
  fresh : id = freshId (db.snapshots.rows.map Snapshot.id)
  unknown : db.syncRuns.find s.syncRunId = none
  run : ∃ row, after.syncRuns.find s.syncRunId = some row ∧ (s.folderId = none ∨ row.runType = .folderMembership)
  incomplete : s.complete = false

theorem snapshotBefore {c : Commit} {db after} (applied : c.effect db = some after) {id s'}
    (found : after.snapshots.find id = some s') : (∃ s, db.snapshots.find id = some s) ∨ Opened db after id s' := by
  have agree := frame applied
  have inserted : ∀ (table : Database) {account kind folder}, table.snapshots = db.snapshots →
      table.syncRuns = db.syncRuns → (folder = none ∨ kind = .folderMembership) →
      after.snapshots = (insertSnapshot (insertSyncRun table account kind).1 (insertSyncRun table account kind).2
        folder).1.snapshots →
      after.syncRuns = (insertSyncRun table account kind).1.syncRuns →
      (∃ s, db.snapshots.find id = some s) ∨ Opened db after id s' := by
    intro table account kind folder snapshots runs of_ form opened
    rw [form,openedSnapshot] at found
    split at found
    · rename_i fresh
      cases Option.some.inj found
      refine .inr ⟨?_,by rw [← runs]; exact openedFresh table account kind,⟨_,by rw [opened,openedRun,if_pos rfl],of_⟩,rfl⟩
      rw [← fresh,← snapshots]
      rfl
    · exact .inl ⟨s',by rw [← snapshots]; exact found⟩
  cases c with
  | completeRun account run t =>
    obtain ⟨row,_,rows⟩ := committedSnapshot (accepted applied)
    rw [rows] at found
    obtain ⟨s,present,_⟩ := Option.map_eq_some_iff.mp found
    exact .inl ⟨s,present⟩
  | completeFolderRun run t =>
    obtain ⟨_,statistics,form⟩ := Folders.completedForm (accepted applied)
    obtain ⟨pages,rows⟩ := recordedSnapshot (recordAbsentMemberships (upsertActiveMemberships
      (recordAddedObservations db run t) run) run t).1 run.id run.snapshotId t statistics id
    rw [form] at found
    obtain ⟨s,present,_⟩ := Option.map_eq_some_iff.mp (rows.symm.trans found)
    rw [(reconciledFrame db run t).snapshots (by simp)] at present
    exact .inl ⟨s,present⟩
  | createRun account =>
    obtain ⟨_,made,form⟩ := Option.map_eq_some_iff.mp applied
    unfold Snapshot.createRun at made
    split at made <;> cases made
    exact inserted db rfl rfl (.inl rfl) (by rw [← form]) (by rw [← form]; rfl)
  | createFolderRun account folder =>
    obtain ⟨_,made,form⟩ := Option.map_eq_some_iff.mp applied
    unfold Folders.createRun at made
    split at made <;> cases made
    exact inserted (upsertFolder db account folder).1 rfl rfl (.inr rfl) (by rw [← form]) (by rw [← form]; rfl)
  | _ => exact .inl ⟨s',by rw [← agree.snapshots (by simp [touched])]; exact found⟩

theorem snapshotOpened {c : Commit} {db after} (applied : c.effect db = some after) {id s'}
    (absent : db.snapshots.find id = none) (found : after.snapshots.find id = some s') : Opened db after id s' := by
  rcases snapshotBefore applied found with ⟨s,present⟩ | opened
  · rw [absent] at present
    cases present
  · exact opened

/- Every snapshot has a run, and no two have the same one. -/
structure Rows (db : Database) : Prop where
  owned : ∀ {id s}, db.snapshots.find id = some s → ∃ row, db.syncRuns.find s.syncRunId = some row
  single : ∀ {id id' s s'}, db.snapshots.find id = some s → db.snapshots.find id' = some s' →
    s.syncRunId = s'.syncRunId → id = id'

theorem rowsAfter {c : Commit} {db after} (applied : c.effect db = some after) (rows : Rows db) : Rows after := by
  have origin : ∀ {id s'}, after.snapshots.find id = some s' →
      (∃ s row, db.snapshots.find id = some s ∧ s.syncRunId = s'.syncRunId ∧ db.syncRuns.find s'.syncRunId = some row) ∨
      (id = freshId (db.snapshots.rows.map Snapshot.id) ∧ db.syncRuns.find s'.syncRunId = none) := by
    intro id s' found
    rcases snapshotBefore applied found with ⟨s,present⟩ | ⟨fresh,absent,_⟩
    · obtain ⟨_,again,_,same,_⟩ := snapshotAfter applied present
      rw [found] at again
      cases Option.some.inj again
      obtain ⟨row,owner⟩ := rows.owned present
      exact .inl ⟨s,row,present,same.symm,same ▸ owner⟩
    · exact .inr ⟨fresh,absent⟩
  constructor
  · intro id s' found
    rcases snapshotBefore applied found with ⟨s,present⟩ | opened
    · obtain ⟨_,again,_,same,_⟩ := snapshotAfter applied present
      rw [found] at again
      cases Option.some.inj again
      obtain ⟨row,owner⟩ := rows.owned present
      obtain ⟨row',later,_⟩ := runAfter applied owner
      exact ⟨row',same ▸ later⟩
    · obtain ⟨row,later,_⟩ := opened.run
      exact ⟨row,later⟩
  · intro id id' s s' left right same
    rcases origin left with ⟨x,row,presentX,sameX,ownerX⟩ | ⟨freshX,absentX⟩
    · rcases origin right with ⟨y,_,presentY,sameY,_⟩ | ⟨_,absentY⟩
      · exact rows.single presentX presentY (sameX.trans (same.trans sameY.symm))
      · rw [← same,ownerX] at absentY
        simp at absentY
    · rcases origin right with ⟨_,row,_,_,ownerY⟩ | ⟨freshY,_⟩
      · rw [← same,absentX] at ownerY
        simp at ownerY
      · rw [freshX,freshY]

/- The run of a full-snapshot call names one full run of its account and its snapshot. -/
def Paired (db : Database) (run : Run) : Prop :=
  (∃ row, db.syncRuns.find run.id = some row ∧ row.runType = .full ∧ row.accountId = run.accountId) ∧
  ∃ s, db.snapshots.find run.snapshotId = some s ∧ s.syncRunId = run.id

theorem pairedAfter {c : Commit} {db after run} (applied : c.effect db = some after) (paired : Paired db run) :
    Paired after run := by
  obtain ⟨⟨row,found,full,account⟩,s,present,own⟩ := paired
  obtain ⟨row',later,same,_⟩ := runAfter applied found
  obtain ⟨s',kept,_,owner,_⟩ := snapshotAfter applied present
  simp only [title,Prod.mk.injEq] at same
  exact ⟨⟨row',later,same.2.2.trans full,same.2.1.trans account⟩,s',kept,owner.trans own⟩

theorem pairedSame {db run run'} (rows : Rows db) (left : Paired db run) (right : Paired db run') :
    run.id = run'.id ↔ run.snapshotId = run'.snapshotId := by
  obtain ⟨_,s,found,own⟩ := left
  obtain ⟨_,s',found',own'⟩ := right
  constructor
  · intro same
    exact rows.single found found' (own.trans (same.trans own'.symm))
  · intro same
    rw [same,found'] at found
    cases Option.some.inj found
    exact own.symm.trans own'

theorem createdPaired {db account after run} (made : Snapshot.createRun db account = some (after,run)) :
    Paired after run ∧ run.accountId = account := by
  unfold Snapshot.createRun at made
  split at made <;> cases made
  refine ⟨⟨⟨_,(openedRun ..).trans (if_pos rfl),rfl,rfl⟩,_,(openedSnapshot ..).trans (if_pos rfl),rfl⟩,rfl⟩

theorem resumableRow {db account runId run} (found : Snapshot.findResumable db account runId = some run) :
    ∃ row, db.syncRuns.find run.id = some row ∧ row.runType = .full ∧ row.accountId = account ∧
      (row.state = .running ∨ row.state = .failed) ∧ run.checkpoint = row.checkpoint ∧ run.accountId = account ∧
      Paired db run := by
  simp only [Snapshot.findResumable,bind,Option.bind_eq_some_iff] at found
  obtain ⟨row,present,s,joined,last⟩ := found
  split at last
  · rename_i admitted
    cases Option.some.inj last
    obtain ⟨mine,full,state⟩ := admitted
    have own : s.syncRunId = runId := by simpa using List.find?_some joined
    exact ⟨row,present,full,mine,state,rfl,rfl,⟨row,present,full,mine⟩,s,
      Table.findMem (List.mem_of_find?_eq_some joined),own⟩
  · simp at last

def Elsewhere (db : Database) (runId : Uuid) : Prop :=
  ∃ row, db.syncRuns.find runId = some row ∧ row.runType ≠ .full

theorem elsewhereAfter {c : Commit} {db after runId} (applied : c.effect db = some after) (other : Elsewhere db runId) :
    Elsewhere after runId := by
  obtain ⟨row,found,kind⟩ := other
  obtain ⟨row',later,same,_⟩ := runAfter applied found
  simp only [title,Prod.mk.injEq] at same
  exact ⟨row',later,by rw [same.2.2]; exact kind⟩

def runOf : SnapshotPc → Option Run
  | .load _ | .done _ => none
  | .resume run | .reserve run | .fetch run | .stage run _ _ _ | .complete run | .finalize run _ | .fail run _ => some run

def onward (run : Run) (page : BookmarkPage) : SnapshotPc :=
  match page.nextToken with
  | none => .complete {run with checkpoint := none}
  | some token => .reserve {run with checkpoint := some token}

theorem runOnward (run page) : runOf (onward run page) = some {run with checkpoint := page.nextToken} := by
  unfold onward
  split
  · rename_i last
    rw [last]
    rfl
  · rename_i token more
    rw [more]
    rfl

/- Everything one step of a full-snapshot call can be. -/
inductive Moves (gate : BudgetGate) (account : Uuid) (db : Database) (now : DateTime) (stamp : Nat) :
    SnapshotPc → Step SnapshotPc → Prop where
  | create {after run} (made : Snapshot.createRun db account = some (after,run)) :
      Moves gate account db now stamp (.load none) ⟨after,some (.commit (.createRun account)),.reserve run⟩
  | found {runId run} (found : Snapshot.findResumable db account runId = some run) :
      Moves gate account db now stamp (.load (some runId)) ⟨db,none,.resume run⟩
  | resume {run} :
      Moves gate account db now stamp (.resume run)
        ⟨markRunning db run.id,some (.commit (.resumeRun run.id)),.reserve run⟩
  | charge {run after reservation} (paid : gate.reserve db account 1 now = .ok (after,reservation)) :
      Moves gate account db now stamp (.reserve run)
        ⟨after,some (.commit (.charge gate account 1 now)),.fetch run⟩
  | fetch {run page} : Moves gate account db now stamp (.fetch run) ⟨db,none,.stage run page now stamp⟩
  | stage {run page t k after} (staged : Snapshot.stagePage db run page t = .ok after) :
      Moves gate account db now stamp (.stage run page t k)
        ⟨after,some (.commit (.stagePage run page t k)),onward run page⟩
  | clock {run} : Moves gate account db now stamp (.complete run) ⟨db,none,.finalize run now⟩
  | complete {run t after result} (completed : Snapshot.completeRun db account run t = .ok after) :
      Moves gate account db now stamp (.finalize run t)
        ⟨after,some (.commit (.completeRun account run t)),.done result⟩
  | failed {run result result'} :
      Moves gate account db now stamp (.fail run result)
        ⟨Snapshot.markFailed db run.id now,some (.commit (.markFailed run.id now)),.done result'⟩
  | abort {pc run result} (holds : runOf pc = some run) : Moves gate account db now stamp pc ⟨db,none,.fail run result⟩
  | leave {pc result} : Moves gate account db now stamp pc ⟨db,none,.done result⟩
  -- The statement commits and its acknowledgement is lost.
  | createLost {after run result} (made : Snapshot.createRun db account = some (after,run)) :
      Moves gate account db now stamp (.load none) ⟨after,some (.commit (.createRun account)),.done result⟩
  | resumeLost {run result} :
      Moves gate account db now stamp (.resume run)
        ⟨markRunning db run.id,some (.commit (.resumeRun run.id)),.done result⟩
  | chargeLost {run after reservation result} (paid : gate.reserve db account 1 now = .ok (after,reservation)) :
      Moves gate account db now stamp (.reserve run)
        ⟨after,some (.commit (.charge gate account 1 now)),.fail run result⟩
  | stageLost {run page t k after result} (staged : Snapshot.stagePage db run page t = .ok after) :
      Moves gate account db now stamp (.stage run page t k)
        ⟨after,some (.commit (.stagePage run page t k)),.fail run result⟩

theorem snapshotMoves {gate account db now stamp answer} {pc : SnapshotPc} {s}
    (ok : pc.next gate account db now stamp answer = some s) : Moves gate account db now stamp pc s := by
  cases pc with
  | load resume =>
    cases resume with
    | none =>
      simp only [SnapshotPc.next] at ok
      rcases transactCases ok with ⟨after,applied,⟨_,rfl⟩ | ⟨_,rfl⟩⟩ | ⟨_,_,rfl⟩ | ⟨_,rfl⟩
      · obtain ⟨⟨_,run⟩,made,rfl⟩ := Option.map_eq_some_iff.mp applied
        simp only [made,Option.map_some,Option.elim_some]
        exact .create made
      · obtain ⟨⟨_,run⟩,made,rfl⟩ := Option.map_eq_some_iff.mp applied
        exact .createLost made
      · exact .leave
      · exact .leave
    | some runId =>
      simp only [SnapshotPc.next] at ok
      rcases readingCases ok with ⟨_,rfl⟩ | ⟨_,rfl⟩
      · cases found : Snapshot.findResumable db account runId with
        | none => exact .leave
        | some run => exact .found found
      · exact .leave
  | resume run =>
    simp only [SnapshotPc.next] at ok
    rcases transactCases ok with ⟨after,applied,⟨_,rfl⟩ | ⟨_,rfl⟩⟩ | ⟨_,_,rfl⟩ | ⟨_,rfl⟩
    · cases Option.some.inj applied
      exact .resume
    · cases Option.some.inj applied
      exact .resumeLost
    · exact .leave
    · exact .leave
  | reserve run =>
    simp only [SnapshotPc.next] at ok
    rcases chargingCases ok with ⟨after,reservation,paid,⟨_,rfl⟩ | ⟨_,rfl⟩⟩ | ⟨error,rfl,_⟩
    · exact .charge paid
    · exact .chargeLost paid
    · cases error <;> exact .abort rfl
  | fetch run =>
    simp only [SnapshotPc.next] at ok
    split at ok
    · rw [quietCases ok]
      exact .fetch
    · rw [quietCases ok]
      exact .abort rfl
    · simp at ok
  | stage run page t k =>
    simp only [SnapshotPc.next] at ok
    rcases transactCases ok with ⟨after,applied,⟨_,rfl⟩ | ⟨_,rfl⟩⟩ | ⟨_,_,rfl⟩ | ⟨_,rfl⟩
    · exact .stage (accepted applied)
    · exact .stageLost (accepted applied)
    · exact .abort rfl
    · exact .abort rfl
  | complete run =>
    simp only [SnapshotPc.next] at ok
    rcases readingCases ok with ⟨_,rfl⟩ | ⟨_,rfl⟩ <;> exact .clock
  | finalize run t =>
    simp only [SnapshotPc.next] at ok
    rcases transactCases ok with ⟨after,applied,⟨_,rfl⟩ | ⟨_,rfl⟩⟩ | ⟨_,_,rfl⟩ | ⟨_,rfl⟩
    · exact .complete (accepted applied)
    · exact .complete (accepted applied)
    · exact .leave
    · exact .leave
  | fail run result =>
    simp only [SnapshotPc.next] at ok
    rcases transactCases ok with ⟨after,applied,⟨_,rfl⟩ | ⟨_,rfl⟩⟩ | ⟨_,_,rfl⟩ | ⟨_,rfl⟩
    · cases Option.some.inj applied
      exact .failed
    · cases Option.some.inj applied
      exact .failed
    · exact .leave
    · exact .leave
  | done result => simp [SnapshotPc.next] at ok

def scanRun : ScanPc → Option Uuid
  | .load | .create _ | .done _ => none
  | .head state | .fetch state | .compare state _ | .observe state _ _ _ | .complete state _ => some state.runId
  | .stop runId _ | .fail runId _ => some runId

def folderRun : FolderPc → Option Uuid
  | .load _ | .limit _ | .done _ => none
  | .resume run | .reserve run | .fetch run | .stage run _ _ | .complete run | .finalize run _ => some run.id
  | .limited runId _ | .fail runId _ => some runId

def OfKind (kind : RunType) (db : Database) (runId : Uuid) : Prop :=
  ∃ row, db.syncRuns.find runId = some row ∧ row.runType = kind

theorem OfKind.elsewhere {kind db runId} (mine : OfKind kind db runId) (other : kind ≠ .full) : Elsewhere db runId := by
  obtain ⟨row,found,rfl⟩ := mine
  exact ⟨row,found,other⟩

theorem OfKind.after {kind} {c : Commit} {db after runId} (mine : OfKind kind db runId) (applied : c.effect db = some after) :
    OfKind kind after runId := by
  obtain ⟨row,found,same⟩ := mine
  obtain ⟨row',later,titled,_⟩ := runAfter applied found
  simp only [title,Prod.mk.injEq] at titled
  exact ⟨row',later,titled.2.2.trans same⟩

theorem openedKind (db : Database) (account kind) :
    OfKind kind (insertSyncRun db account kind).1 (insertSyncRun db account kind).2 :=
  ⟨_,(openedRun ..).trans (if_pos rfl),rfl⟩

theorem scanHolds {gate account pageCap requestCap db now answer} {pc : ScanPc} {s runId}
    (ok : pc.next gate account pageCap requestCap db now answer = some s) (holds : scanRun s.next = some runId) :
    scanRun pc = some runId ∨ OfKind .incremental s.db runId := by
  cases pc with
  | load =>
    simp only [ScanPc.next] at ok
    rcases readingCases ok with ⟨_,rfl⟩ | ⟨_,rfl⟩
    · simp only at holds
      split at holds <;> simp [scanRun] at holds
    · simp [scanRun] at holds
  | create watermark =>
    simp only [ScanPc.next] at ok
    rcases transactCases ok with ⟨after,applied,⟨_,rfl⟩ | ⟨_,rfl⟩⟩ | ⟨_,refused,rfl⟩ | ⟨_,rfl⟩
    · obtain ⟨⟨_,opened⟩,made,rfl⟩ := Option.map_eq_some_iff.mp applied
      simp only [made,Option.map_some,Option.elim_some,scanRun,Option.some.injEq] at holds
      subst holds
      unfold Incremental.createRun at made
      split at made <;> cases made
      exact .inr (openedKind db account .incremental)
    · simp [scanRun] at holds
    · simp [scanRun] at holds
    · simp [scanRun] at holds
  | head state =>
    simp only [ScanPc.next] at ok
    split at ok
    · rcases transactCases ok with ⟨_,_,⟨_,rfl⟩ | ⟨_,rfl⟩⟩ | ⟨_,_,rfl⟩ | ⟨_,rfl⟩ <;> simp [scanRun] at holds
    · split at ok
      · rcases transactCases ok with ⟨_,_,⟨_,rfl⟩ | ⟨_,rfl⟩⟩ | ⟨_,_,rfl⟩ | ⟨_,rfl⟩ <;> simp [scanRun] at holds
      · rcases chargingCases ok with ⟨_,_,_,⟨_,rfl⟩ | ⟨_,rfl⟩⟩ | ⟨error,rfl,_⟩
        · exact .inl holds
        · exact .inl holds
        · cases error <;> exact .inl holds
  | fetch state =>
    simp only [ScanPc.next] at ok
    split at ok
    · rw [quietCases ok] at holds
      exact .inl holds
    · rw [quietCases ok] at holds
      exact .inl holds
    · simp at ok
  | compare state page =>
    simp only [ScanPc.next] at ok
    split at ok
    · rw [quietCases ok] at holds
      simp [scanRun] at holds
    · rcases readingCases ok with ⟨_,rfl⟩ | ⟨_,rfl⟩
      · exact .inl holds
      · simp [scanRun] at holds
  | observe state page reached t =>
    simp only [ScanPc.next] at ok
    rcases transactCases ok with ⟨_,_,⟨_,rfl⟩ | ⟨_,rfl⟩⟩ | ⟨_,_,rfl⟩ | ⟨_,rfl⟩
    · simp only at holds
      split at holds
      · exact .inl holds
      · split at holds <;> exact .inl holds
    · simp [scanRun] at holds
    · simp [scanRun] at holds
    · simp [scanRun] at holds
  | stop target outcome =>
    simp only [ScanPc.next] at ok
    rcases transactCases ok with ⟨_,_,⟨_,rfl⟩ | ⟨_,rfl⟩⟩ | ⟨_,_,rfl⟩ | ⟨_,rfl⟩ <;> simp [scanRun] at holds
  | complete state t =>
    simp only [ScanPc.next] at ok
    rcases transactCases ok with ⟨_,_,⟨_,rfl⟩ | ⟨_,rfl⟩⟩ | ⟨_,_,rfl⟩ | ⟨_,rfl⟩ <;> simp [scanRun] at holds
  | fail target result =>
    simp only [ScanPc.next] at ok
    rcases transactCases ok with ⟨_,_,⟨_,rfl⟩ | ⟨_,rfl⟩⟩ | ⟨_,_,rfl⟩ | ⟨_,rfl⟩ <;> simp [scanRun] at holds
  | done result => simp [ScanPc.next] at ok

def folderRunOf : FolderPc → Option FolderRun
  | .resume run | .reserve run | .fetch run | .stage run _ _ | .complete run | .finalize run _ => some run
  | .load _ | .limit _ | .limited .. | .fail .. | .done _ => none

theorem folderRunId {pc run} (holds : folderRunOf pc = some run) : folderRun pc = some run.id := by
  cases pc <;> cases holds <;> rfl

/- Which run a folder call works on after a step. -/
inductive FolderMoves (account : Uuid) (folder : NativeFolder) (db after : Database) : FolderPc → FolderPc → Prop where
  | on {pc next run run'} (held : folderRunOf pc = some run) (holds : folderRunOf next = some run') (same : run'.id = run.id)
      (snapshot : run'.snapshotId = run.snapshotId) (kept : run'.folderId = run.folderId) :
      FolderMoves account folder db after pc next
  | down {pc next runId} (held : folderRun pc = some runId) (holds : folderRun next = some runId)
      (ended : folderRunOf next = none) : FolderMoves account folder db after pc next
  | created {run} (made : Folders.createRun db account folder = some (after,run)) :
      FolderMoves account folder db after (.load none) (.reserve run)
  | resumed {target run} (present : Folders.findResumable db account target folder = some run) (same : after = db) :
      FolderMoves account folder db after (.load (some target)) (.resume run)
  | opened {capability} (form : after = (insertSyncRun db account (folderRunType capability)).1) :
      FolderMoves account folder db after (.limit capability)
        (.limited (insertSyncRun db account (folderRunType capability)).2 capability)
  | left {pc result} : FolderMoves account folder db after pc (.done result)

theorem folderMoves {gate account folder db now answer} {pc : FolderPc} {s}
    (ok : pc.next gate account folder db now answer = some s) : FolderMoves account folder db s.db pc s.next := by
  cases pc with
  | load resume =>
    cases resume with
    | none =>
      simp only [FolderPc.next] at ok
      rcases transactCases ok with ⟨after,applied,⟨_,rfl⟩ | ⟨_,rfl⟩⟩ | ⟨_,_,rfl⟩ | ⟨_,rfl⟩
      · obtain ⟨⟨_,run⟩,made,rfl⟩ := Option.map_eq_some_iff.mp applied
        simp only [made,Option.map_some,Option.elim_some]
        exact .created made
      · exact .left
      · exact .left
      · exact .left
    | some target =>
      simp only [FolderPc.next] at ok
      rcases readingCases ok with ⟨_,rfl⟩ | ⟨_,rfl⟩
      · cases found : Folders.findResumable db account target folder with
        | none => exact .left
        | some run => exact .resumed found rfl
      · exact .left
  | resume run =>
    simp only [FolderPc.next] at ok
    rcases transactCases ok with ⟨_,_,⟨_,rfl⟩ | ⟨_,rfl⟩⟩ | ⟨_,_,rfl⟩ | ⟨_,rfl⟩
    · exact .on rfl rfl rfl rfl rfl
    · exact .left
    · exact .left
    · exact .left
  | reserve run =>
    simp only [FolderPc.next] at ok
    rcases chargingCases ok with ⟨_,_,_,⟨_,rfl⟩ | ⟨_,rfl⟩⟩ | ⟨error,rfl,_⟩
    · exact .on rfl rfl rfl rfl rfl
    · exact .down rfl rfl rfl
    · cases error <;> exact .down rfl rfl rfl
  | fetch run =>
    simp only [FolderPc.next] at ok
    split at ok
    · rw [quietCases ok]
      exact .on rfl rfl rfl rfl rfl
    · rw [quietCases ok]
      exact .down rfl rfl rfl
    · rw [quietCases ok]
      exact .down rfl rfl rfl
    · simp at ok
  | stage run page t =>
    simp only [FolderPc.next] at ok
    rcases transactCases ok with ⟨_,_,⟨_,rfl⟩ | ⟨_,rfl⟩⟩ | ⟨_,_,rfl⟩ | ⟨_,rfl⟩
    · cases page.nextToken <;> exact .on rfl rfl rfl rfl rfl
    · exact .down rfl rfl rfl
    · exact .down rfl rfl rfl
    · exact .down rfl rfl rfl
  | complete run =>
    simp only [FolderPc.next] at ok
    rcases readingCases ok with ⟨_,rfl⟩ | ⟨_,rfl⟩ <;> exact .on rfl rfl rfl rfl rfl
  | limit capability =>
    simp only [FolderPc.next] at ok
    rcases transactCases ok with ⟨after,applied,⟨_,rfl⟩ | ⟨_,rfl⟩⟩ | ⟨_,refused,rfl⟩ | ⟨_,rfl⟩
    · simp only [Commit.effect] at applied
      split at applied <;> cases applied
      exact .opened rfl
    · exact .left
    · exact .left
    · exact .left
  | finalize run t | limited target capability | fail target result =>
    simp only [FolderPc.next] at ok
    rcases transactCases ok with ⟨_,_,⟨_,rfl⟩ | ⟨_,rfl⟩⟩ | ⟨_,_,rfl⟩ | ⟨_,rfl⟩ <;> exact .left
  | done result => simp [FolderPc.next] at ok

theorem resumableKind {db account runId folder run} (found : Folders.findResumable db account runId folder = some run) :
    run.id = runId ∧ OfKind .folderMembership db run.id := by
  simp only [Folders.findResumable,bind,Option.bind_eq_some_iff] at found
  obtain ⟨row,present,_,_,_,_,_,_,last⟩ := found
  split at last
  · rename_i admitted
    cases Option.some.inj last
    exact ⟨rfl,row,present,admitted.2.1⟩
  · simp at last

theorem folderHolds {gate account folder db now answer} {pc : FolderPc} {s runId}
    (ok : pc.next gate account folder db now answer = some s) (holds : folderRun s.next = some runId) :
    folderRun pc = some runId ∨ Elsewhere s.db runId := by
  generalize afterwards : s.next = next at holds
  have moves := folderMoves ok
  rw [afterwards] at moves
  cases moves with
  | on held held' same =>
    rw [folderRunId held',same] at holds
    exact .inl ((folderRunId held).trans holds)
  | down held held' => exact .inl (held.trans (held'.symm.trans holds))
  | created made =>
    cases Option.some.inj holds
    unfold Folders.createRun at made
    split at made
    · simp only [Option.some.injEq,Prod.mk.injEq] at made
      rw [← made.1,← made.2]
      exact .inr ((openedKind (upsertFolder db account folder).1 account .folderMembership).elsewhere (by simp))
    · simp at made
  | resumed present same =>
    cases Option.some.inj holds
    rw [same]
    exact .inr ((resumableKind present).2.elsewhere (by simp))
  | @opened capability form =>
    cases Option.some.inj holds
    rw [form]
    exact .inr ((openedKind db account _).elsewhere (by cases capability <;> simp [folderRunType]))
  | left => simp [folderRun] at holds

structure Registered (w : World) : Prop where
  rows : Rows w.db
  runners : ∀ {i : Nat} {call run}, w.processes[i]? = some (.snapshot call) → runOf call.pc = some run →
    Paired w.db run ∧ run.accountId = call.accountId
  scans : ∀ {i : Nat} {call runId}, w.processes[i]? = some (.scan call) → scanRun call.pc = some runId →
    Elsewhere w.db runId
  folders : ∀ {i : Nat} {call runId}, w.processes[i]? = some (.folder call) → folderRun call.pc = some runId →
    Elsewhere w.db runId
  paged : ∀ {s f}, f ∈ fetches w.log s → Paired w.db f.run

theorem registeredStart (now) : Registered (World.start Database.empty now) where
  rows := ⟨by simp [World.start,Database.empty,Table.empty,Table.find],
    by simp [World.start,Database.empty,Table.empty,Table.find]⟩
  runners := by simp [World.start]
  scans := by simp [World.start]
  folders := by simp [World.start]
  paged := by simp [World.start,fetches]

theorem snapshotNext {config w answer} {p : Process} {s} {call : SnapshotCall} (ok : p.next config w answer = some s)
    (after : s.next = .snapshot call) :
    ∃ old r, p = .snapshot old ∧ old.accountId = call.accountId ∧
      Moves config.readGate old.accountId w.db w.now w.log.length old.pc r ∧
      s.db = r.db ∧ s.event = r.event ∧ r.next = call.pc := by
  cases p with
  | snapshot old =>
    obtain ⟨r,taken,rfl⟩ := Option.map_eq_some_iff.mp ok
    simp only [Step.map,Process.snapshot.injEq] at after
    subst after
    exact ⟨old,r,rfl,rfl,snapshotMoves taken,rfl,rfl,rfl⟩
  | _ =>
    obtain ⟨r,taken,rfl⟩ := Option.map_eq_some_iff.mp ok
    simp [Step.map] at after

theorem scanNext {config w answer} {p : Process} {s} {call : ScanCall} (ok : p.next config w answer = some s)
    (after : s.next = .scan call) {runId} (holds : scanRun call.pc = some runId) :
    (∃ old, p = .scan old ∧ scanRun old.pc = some runId) ∨ OfKind .incremental s.db runId := by
  cases p with
  | scan old =>
    obtain ⟨r,taken,rfl⟩ := Option.map_eq_some_iff.mp ok
    simp only [Step.map,Process.scan.injEq] at after
    subst after
    rcases scanHolds taken holds with same | opened
    · exact .inl ⟨old,rfl,same⟩
    · exact .inr opened
  | _ =>
    obtain ⟨r,taken,rfl⟩ := Option.map_eq_some_iff.mp ok
    simp [Step.map] at after

theorem folderNext {config w answer} {p : Process} {s} {call : FolderCall} (ok : p.next config w answer = some s)
    (after : s.next = .folder call) {runId} (holds : folderRun call.pc = some runId) :
    (∃ old, p = .folder old ∧ folderRun old.pc = some runId) ∨ Elsewhere s.db runId := by
  cases p with
  | folder old =>
    obtain ⟨r,taken,rfl⟩ := Option.map_eq_some_iff.mp ok
    simp only [Step.map,Process.folder.injEq] at after
    subst after
    rcases folderHolds taken holds with same | opened
    · exact .inl ⟨old,rfl,same⟩
    · exact .inr opened
  | _ =>
    obtain ⟨r,taken,rfl⟩ := Option.map_eq_some_iff.mp ok
    simp [Step.map] at after

theorem movesRun {gate account db now stamp pc s run} (moves : Moves gate account db now stamp pc s)
    (holds : runOf s.next = some run) :
    (∃ old, runOf pc = some old ∧ old.id = run.id ∧ old.accountId = run.accountId ∧ old.snapshotId = run.snapshotId) ∨
    (pc = .load none ∧ Snapshot.createRun db account = some (s.db,run)) ∨
    (∃ runId, pc = .load (some runId) ∧ Snapshot.findResumable db account runId = some run ∧ s.db = db) := by
  cases moves with
  | create made =>
    cases Option.some.inj holds
    exact .inr (.inl ⟨rfl,made⟩)
  | found present =>
    cases Option.some.inj holds
    exact .inr (.inr ⟨_,rfl,present,rfl⟩)
  | stage staged =>
    rw [runOnward] at holds
    cases Option.some.inj holds
    exact .inl ⟨_,rfl,rfl,rfl,rfl⟩
  | abort own =>
    cases Option.some.inj holds
    exact .inl ⟨_,own,rfl,rfl,rfl⟩
  | leave | complete | failed | createLost | resumeLost => simp [runOf] at holds
  | _ =>
    cases Option.some.inj holds
    exact .inl ⟨_,rfl,rfl,rfl,rfl⟩

theorem pairedOf {db : Database} {run run' : Run} (paired : Paired db run) (id : run.id = run'.id)
    (account : run.accountId = run'.accountId) (snapshot : run.snapshotId = run'.snapshotId) : Paired db run' := by
  unfold Paired at paired ⊢
  rw [← id,← account,← snapshot]
  exact paired

def runTarget : Commit → Option Uuid
  | .resumeRun runId | .markFailed runId _ | .observePage _ runId _ _ | .completeScan runId _ _ | .markGap _ runId _
  | .stopScan _ runId _ _ | .markCapabilityLimited runId _ _ => some runId
  | .stagePage run _ _ _ | .completeRun _ run _ => some run.id
  | .stageFolderPage run _ _ | .completeFolderRun run _ => some run.id
  | _ => none

theorem externalUntargeted {c : Commit} (outside : External c) : runTarget c = none := by
  cases c with
  | connectAccount _ | storeCredential _ | storeAuthorization _ | persistPosts _ => rfl
  | _ => exact outside.elim

theorem runUntouched {c : Commit} {r r' : SyncRun} (moves : RunMoves r r' c) (other : runTarget c ≠ some r.id) :
    r' = r := by
  cases c with
  | stagePage run page t stamp =>
    obtain ⟨items,rfl⟩ := moves
    exact if_neg (fun same => other (congrArg some same.1.symm))
  | completeRun account run t =>
    obtain ⟨statistics,rfl⟩ := moves
    exact if_neg (fun same => other (congrArg some same.symm))
  | resumeRun runId => exact moves.trans (if_neg (fun same => other (congrArg some same.symm)))
  | markFailed runId t => exact moves.trans (if_neg (fun same => other (congrArg some same.symm)))
  | _ =>
    first
      | exact moves
      | exact moves (fun same => other (congrArg some same.symm))

def Snapshotting : Commit → Prop
  | .createRun _ | .stagePage .. | .completeRun .. => True
  | _ => False

theorem snapshotting {config w} {p : Process} {c} (stands : p.commit config w = some c) (mine : Snapshotting c) :
    ∃ call, p = .snapshot call ∧ call.pc.commit config.readGate call.accountId w.now = some c := by
  cases p with
  | snapshot call => exact ⟨call,rfl,stands⟩
  | scan call =>
    obtain ⟨account,pageCap,requestCap,pc⟩ := call
    cases scanCommits stands <;> exact mine.elim
  | folder call =>
    simp only [Process.commit,FolderPc.commit] at stands
    split at stands <;> cases stands <;> exact mine.elim
  | write call =>
    simp only [Process.commit,WriteCalls.WriteCall.commit] at stands
    split at stands <;> cases stands <;> exact mine.elim
  | consent call =>
    simp only [Process.commit,WriteCalls.ConsentCall.commit] at stands
    split at stands <;> cases stands
    exact mine.elim

theorem stagedBy {config w} {p : Process} {run page t stamp}
    (stands : p.commit config w = some (.stagePage run page t stamp)) :
    ∃ call, p = .snapshot call ∧ call.pc = .stage run page t stamp := by
  obtain ⟨call,rfl,commits⟩ := snapshotting stands trivial
  unfold SnapshotPc.commit at commits
  split at commits <;> cases commits
  rename_i pc
  exact ⟨call,rfl,pc⟩

section Step
variable {config : Config} {w t : World} {a : Action}

theorem writeTarget {call : WriteCalls.WriteCall} {c : Commit}
    (stands : (Process.write call).commit config w = some c) : runTarget c = none := by
  simp only [Process.commit,WriteCalls.WriteCall.commit] at stands
  split at stands <;> cases stands <;> rfl

theorem consentTarget {call : WriteCalls.ConsentCall} {c : Commit}
    (stands : (Process.consent call).commit config w = some c) : runTarget c = none := by
  simp only [Process.commit,WriteCalls.ConsentCall.commit] at stands
  split at stands <;> cases stands
  rfl

theorem targetHeld (registered : Registered w) {i : Nat} {p : Process} {c : Commit} {runId}
    (found : w.processes[i]? = some p) (stands : p.commit config w = some c) (target : runTarget c = some runId) :
    (∃ call run, p = .snapshot call ∧ runOf call.pc = some run ∧ run.id = runId ∧
      call.pc.commit config.readGate call.accountId w.now = some c) ∨ Elsewhere w.db runId := by
  cases p with
  | snapshot call =>
    refine .inl ?_
    have commits := stands
    simp only [Process.commit,SnapshotPc.commit] at stands
    split at stands <;> cases stands
    all_goals first
      | cases Option.some.inj target
      | simp [runTarget] at target
    all_goals rename_i pc
    all_goals exact ⟨call,_,rfl,by rw [pc]; rfl,rfl,commits⟩
  | scan call =>
    refine .inr ?_
    obtain ⟨account,pageCap,requestCap,pc⟩ := call
    cases scanCommits stands
    all_goals first
      | cases Option.some.inj target
      | simp [runTarget] at target
    all_goals exact registered.scans found rfl
  | folder call =>
    refine .inr ?_
    simp only [Process.commit,FolderPc.commit] at stands
    split at stands <;> cases stands
    all_goals first
      | cases Option.some.inj target
      | simp [runTarget] at target
    all_goals exact registered.folders found (by simp_all [folderRun])
  | write call => simp [writeTarget stands] at target
  | consent call => simp [consentTarget stands] at target

theorem stepKeeps {P : Database → Prop} (taken : World.step config w a = some t)
    (stable : ∀ {c : Commit} {db after}, c.effect db = some after → P db → P after) (before : P w.db) : P t.db := by
  rcases stepCommit taken with same | ⟨c,applied,_⟩
  · rw [same]
    exact before
  · exact stable applied before

theorem registeredStep (registered : Registered w) (taken : World.step config w a = some t) : Registered t := by
  constructor
  case rows => exact stepKeeps taken rowsAfter registered.rows
  case runners =>
    intro j call run found holds
    rcases stepView taken found with ⟨answer,old,s,rfl,here,ok,next,form⟩ | ⟨first,_⟩ | ⟨here,_⟩
    · obtain ⟨before,r,rfl,account,moves,db,_,pc⟩ := snapshotNext ok next.symm
      rw [← pc] at holds
      rcases movesRun moves holds with ⟨previous,held,id,owner,snapshot⟩ | ⟨_,made⟩ | ⟨_,_,present,_⟩
      · obtain ⟨paired,mine⟩ := registered.runners here held
        exact ⟨pairedOf (stepKeeps taken pairedAfter paired) id owner snapshot,owner ▸ mine.trans account⟩
      · obtain ⟨paired,mine⟩ := createdPaired made
        have same : t.db = r.db := by rw [form]; exact db
        exact ⟨same ▸ paired,mine.trans account⟩
      · obtain ⟨_,_,_,_,_,_,mine,paired⟩ := resumableRow present
        exact ⟨stepKeeps taken pairedAfter paired,mine.trans account⟩
    · unfold Process.initial at first
      split at first <;> simp_all [runOf]
    · obtain ⟨paired,mine⟩ := registered.runners here holds
      exact ⟨stepKeeps taken pairedAfter paired,mine⟩
  case scans =>
    intro j call runId found holds
    rcases stepView taken found with ⟨answer,old,s,rfl,here,ok,next,form⟩ | ⟨first,_⟩ | ⟨here,_⟩
    · rcases scanNext ok next.symm holds with ⟨before,rfl,held⟩ | opened
      · exact stepKeeps taken elsewhereAfter (registered.scans here held)
      · rw [form]
        exact opened.elsewhere (by simp)
    · unfold Process.initial at first
      split at first <;> simp_all [scanRun]
    · exact stepKeeps taken elsewhereAfter (registered.scans here holds)
  case folders =>
    intro j call runId found holds
    rcases stepView taken found with ⟨answer,old,s,rfl,here,ok,next,form⟩ | ⟨first,_⟩ | ⟨here,_⟩
    · rcases folderNext ok next.symm holds with ⟨before,rfl,held⟩ | opened
      · exact stepKeeps taken elsewhereAfter (registered.folders here held)
      · rw [form]
        exact opened
    · unfold Process.initial at first
      split at first <;> simp_all [folderRun]
    · exact stepKeeps taken elsewhereAfter (registered.folders here holds)
  case paged =>
    intro s f member
    rcases logAfter taken with ⟨logged,_⟩ | ⟨e,logged,wrote⟩
    · rw [logged] at member
      exact stepKeeps taken pairedAfter (registered.paged member)
    · rw [logged,fetchesEntry] at member
      rcases List.mem_append.mp member with old | fresh
      · exact stepKeeps taken pairedAfter (registered.paged old)
      · cases wrote with
        | external outside applied _ =>
          obtain ⟨rfl,_⟩ := fetchEntry fresh
          simp [External] at outside
        | @commit _ _ _ p _ c found ok next stands applied answered =>
          obtain ⟨rfl,_⟩ := fetchEntry fresh
          obtain ⟨call,rfl,pc⟩ := stagedBy stands
          exact pairedAfter applied (registered.runners found (by rw [pc]; rfl)).1
        | spoken found ok next utters same =>
          unfold WriteCalls.WriteCall.utters at utters
          split at utters <;> cases utters <;> simp [fetchOf] at fresh

theorem registeredRun {guard now labels}
    (run : Transition.Run (World.step config) guard (World.start Database.empty now) labels w) : Registered w :=
  run.preserves Registered (fun _ _ _ registered _ taken => registeredStep registered taken) (registeredStart now)

end Step

def Completes (w t : World) (account : Uuid) (run : Run) (instant : DateTime) : Prop :=
  ∃ i, t.log = w.log ++ [⟨some i,.commit (.completeRun account run instant)⟩]

theorem completesBy {config w a t account run instant} (taken : World.step config w a = some t)
    (completes : Completes w t account run instant) :
    ∃ (i : Nat) (answer : Answer) (call : SnapshotCall), a = .advance i answer ∧ i ∉ w.abandoned ∧
      w.processes[i]? = some (.snapshot call) ∧ call.pc = .finalize run instant ∧ call.accountId = account ∧
      Snapshot.completeRun w.db account run instant = .ok t.db := by
  obtain ⟨i,logged⟩ := completes
  cases wroteEntry taken logged with
  | @commit _ _ answer p s c found ok next stands applied answered =>
    have alive : i ∉ w.abandoned := by
      intro gone
      simp [World.step,gone] at taken
    obtain ⟨call,rfl,commits⟩ := snapshotting stands trivial
    unfold SnapshotPc.commit at commits
    split at commits <;> cases commits
    rename_i pc
    exact ⟨i,answer,call,rfl,alive,found,pc,rfl,accepted applied⟩
  | spoken found ok next utters same =>
    unfold WriteCalls.WriteCall.utters at utters
    split at utters <;> simp at utters

def finalizing (w : World) (index : Nat) : Option (Uuid × Run × DateTime) :=
  match w.processes[index]? with
  | some (.snapshot ⟨account,.finalize run instant⟩) => some (account,run,instant)
  | _ => none

theorem completesStep {config w i t account run instant} (stands : finalizing w i = some (account,run,instant))
    (ok : (Snapshot.completeRun w.db account run instant).toOption.isSome = true)
    (taken : World.step config w (.advance i .ok) = some t) : Completes w t account run instant := by
  obtain ⟨after,applied⟩ := Option.isSome_iff_exists.mp ok
  have effect : Commit.effect (.completeRun account run instant) w.db = some after := applied
  unfold finalizing at stands
  split at stands <;> cases stands
  rename_i found
  cases stepMove taken with
  | @advance _ _ process s alive here next =>
    rw [found] at here
    cases Option.some.inj here
    simp only [Process.next,SnapshotPc.next,transact,effect,Option.map_some,Option.some.injEq] at next
    subst next
    exact ⟨i,rfl⟩
  | external _ _ quiet => exact absurd rfl (quiet i .ok)

end RatatoskrX.Registry
