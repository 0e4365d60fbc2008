import RatatoskrX.Alone
import RatatoskrX.MembershipRuns

/-! The archive under a run that nothing disturbs: after each page the staged items are the
posts that its pages have shown, its counters count them, and the next statement commits
while the numbers fit their columns. The two services differ in the table they stage into. -/
namespace RatatoskrX.StagedRuns
open Relational Schema Budget Snapshot Folders Journal Frames Reconciliation Staging Registry Memberships

section Requests
variable {db other after : Database} {account : Uuid} {now : DateTime} {gate : BudgetGate} {cost : UInt32} {r : Reservation}

theorem chargeSame (accounts : other.accounts = db.accounts) (windows : other.budgetWindows = db.budgetWindows)
    {kind start seconds cap} {amount : Int} (ok : charge db account kind start seconds cap amount = some (.accepted after)) :
    ∃ after', charge other account kind start seconds cap amount = some (.accepted after') ∧
      after'.accounts = after.accounts ∧ after'.budgetWindows = after.budgetWindows := by
  obtain ⟨ensured,used,inserted,found,fits,rfl⟩ := chargeForm.mp ok
  have again : ensureWindow other account kind start seconds cap =
      some (insertWindow other ⟨account,kind,start,seconds,cap,0⟩) := by
    unfold ensureWindow at inserted ⊢
    rw [accounts,windows]
    split at inserted
    · rename_i valid
      exact if_pos valid
    · simp at inserted
  have rows : (insertWindow other ⟨account,kind,start,seconds,cap,0⟩).budgetWindows = ensured.budgetWindows := by
    rw [ensureForm inserted]
    simp only [insertWindow,windows]
  have found' : windowUsage (insertWindow other ⟨account,kind,start,seconds,cap,0⟩) account kind start = some used := by
    rw [windowUsage,rows]
    exact found
  refine ⟨_,chargeForm.mpr ⟨_,used,again,found',fits,rfl⟩,?_,?_⟩
  · rw [ensureForm inserted]
    exact accounts
  · simp only [bumpUsage,setUsage,rows]

theorem reserveSame (accounts : other.accounts = db.accounts) (windows : other.budgetWindows = db.budgetWindows)
    (ok : gate.reserve db account cost now = .ok (after,r)) :
    ∃ after', gate.reserve other account cost now = .ok (after',r) ∧
      after'.accounts = after.accounts ∧ after'.budgetWindows = after.budgetWindows := by
  obtain ⟨covered,charged,made⟩ := reserveForm.mp ok
  obtain ⟨after',again,same⟩ := chargeSame accounts windows charged
  exact ⟨after',reserveForm.mpr ⟨covered,again,made⟩,same⟩

/- The budget covers one request at each of the instants, one after the other. -/
def Available (gate : BudgetGate) (account : Uuid) : Database → List DateTime → Prop
  | _,[] => True
  | db,now::rest => ∃ after r, gate.reserve db account 1 now = .ok (after,r) ∧ Available gate account after rest

theorem availableSame {instants} (accounts : other.accounts = db.accounts) (windows : other.budgetWindows = db.budgetWindows)
    (available : Available gate account db instants) : Available gate account other instants := by
  induction instants generalizing db other with
  | nil => trivial
  | cons now rest ih =>
    obtain ⟨after,r,paid,later⟩ := available
    obtain ⟨after',paid',accounts',windows'⟩ := reserveSame accounts windows paid
    exact ⟨after',r,paid',ih accounts' windows' later⟩

end Requests

section Half
variable {items : Database → Table SnapshotItem SnapshotItem.key} {db after : Database} {account runId snapshotId : Uuid}
  {folder : Option Uuid} {seen ids : List String} {pages : Nat} {token : Option String} {t : DateTime}

/- A run under way: its pages have shown these posts, and they are what it has staged. -/
structure Half (items : Database → Table SnapshotItem SnapshotItem.key) (db : Database) (account runId snapshotId : Uuid)
    (folder : Option Uuid) (seen : List String) (pages : Nat) : Prop where
  row : ∃ r, db.syncRuns.find runId = some r ∧ r.state = .running ∧ r.accountId = account ∧ r.pagesFetched = pages ∧
    r.itemsObserved = seen.length
  snapshot : ∃ s, db.snapshots.find snapshotId = some s ∧ s.syncRunId = runId ∧ s.folderId = folder ∧ s.complete = false
  known : ∀ id ∈ seen, ∃ post, db.postId id = some post
  staged : ∀ post, ((items db).find (snapshotId,post)).isSome = true ↔ Shown db seen post

theorem Half.same (half : Half items db account runId snapshotId folder seen pages) (runs : after.syncRuns = db.syncRuns)
    (snapshots : after.snapshots = db.snapshots) (posts : after.posts = db.posts) (staged : items after = items db) :
    Half items after account runId snapshotId folder seen pages := by
  constructor
  · rw [runs]
    exact half.row
  · rw [snapshots]
    exact half.snapshot
  · intro id member
    rw [postIdSame posts]
    exact half.known id member
  · intro post
    simp only [staged,Shown,postIdSame posts]
    exact half.staged post

theorem shownAppend {seen ids : List String} {post} : Shown db (seen ++ ids) post ↔ Shown db seen post ∨ Shown db ids post := by
  simp [Shown,or_and_right,exists_or]

theorem shownKept (known : ∀ id ∈ seen, ∃ post, db.postId id = some post)
    (posts : after.posts = (persistPosts db ids).1.posts) (post) : Shown after seen post ↔ Shown db seen post := by
  have kept : ∀ {id post}, db.postId id = some post → after.postId id = some post :=
    fun named => (postIdSame posts _).trans (persistKeeps ids db named)
  constructor
  · rintro ⟨id,member,named⟩
    obtain ⟨old,there⟩ := known id member
    rw [kept there] at named
    cases Option.some.inj named
    exact ⟨id,member,there⟩
  · rintro ⟨id,member,named⟩
    exact ⟨id,member,kept named⟩

theorem Half.page (half : Half items db account runId snapshotId folder seen pages)
    (runs : after.syncRuns.find runId = (db.syncRuns.find runId).map (advancedRow token ids.length))
    (snapshots : after.snapshots = db.snapshots) (posts : after.posts = (persistPosts db ids).1.posts)
    (staged : ∀ post, (items after).find (snapshotId,post) =
      if post ∈ (persistPosts db ids).2.map Prod.snd then some ⟨snapshotId,post,t⟩ else (items db).find (snapshotId,post)) :
    Half items after account runId snapshotId folder (seen ++ ids) (pages + 1) := by
  constructor
  · obtain ⟨r,found,running,mine,fetched,observed⟩ := half.row
    refine ⟨advancedRow token ids.length r,by rw [runs,found]; rfl,running,mine,?_,?_⟩
    · simp [fetched]
    · simp [observed]
  · rw [snapshots]
    exact half.snapshot
  · intro id member
    rw [postIdSame posts]
    rcases List.mem_append.mp member with old | fresh
    · obtain ⟨post,named⟩ := half.known id old
      exact ⟨post,persistKeeps ids db named⟩
    · exact persistKnown db fresh
  · intro post
    have shown : post ∈ (persistPosts db ids).2.map Prod.snd ↔ Shown after ids post := by
      rw [persistShown]
      simp only [Shown,postIdSame posts]
    rw [shownAppend,shownKept half.known posts,← half.staged,← shown,staged]
    by_cases here : post ∈ (persistPosts db ids).2.map Prod.snd
    · simp [here]
    · simp [here]

theorem Half.counted (half : Half items db account runId snapshotId folder seen pages) (paged : (pages : Int) + 1 ≤ maxI32)
    (fits : ((seen ++ ids).length : Int) ≤ maxI32) :
    ∀ r ∈ db.syncRuns.rows, r.id = runId → counted ids.length r = true := by
  rintro r member rfl
  obtain ⟨r',found,_,_,fetched,observed⟩ := half.row
  rw [Table.findMem member] at found
  cases Option.some.inj found
  rw [List.length_append] at fits
  simp only [Snapshot.counted,fetched,observed,Bool.and_eq_true,decide_eq_true_eq]
  omega

theorem Half.advances {middle : Database} (half : Half items db account runId snapshotId folder seen pages)
    (paged : (pages : Int) + 1 ≤ maxI32) (fits : ((seen ++ ids).length : Int) ≤ maxI32) (guard : SyncRun → Bool)
    (own : ∀ r, guard r = true → r.id = runId) (reached : ∀ r, r.id = runId → r.state = .running → guard r = true)
    (runs : middle.syncRuns = db.syncRuns) (keeps) :
    middle.syncRuns.rows.all (fun r => !guard r || Snapshot.counted ids.length r) = true ∧
      (updateRun middle guard (advancedRow token ids.length) keeps).syncRuns.find runId =
        (db.syncRuns.find runId).map (advancedRow token ids.length) := by
  constructor
  · rw [runs,List.all_eq_true]
    intro r member
    cases mine : guard r with
    | false => rfl
    | true => simp [half.counted paged fits r member (own r mine)]
  · obtain ⟨r,found,running,_⟩ := half.row
    rw [updateRunFind,runs,found,Option.map_some,Option.map_some,if_pos (reached r (Table.findKey found) running)]

theorem fitsI32 {n : Nat} (fits : (n : Int) ≤ maxI32) : toI32 n = some (n : Int) := if_pos fits

theorem shortPage (fits : ((seen ++ ids).length : Int) ≤ maxI32) : (ids.length : Int) ≤ maxI32 := by
  rw [List.length_append] at fits
  omega

theorem snapshotStages {run : Run} {page : BookmarkPage}
    (half : Half Database.snapshotItems db account run.id run.snapshotId folder seen pages)
    (normalized : page.normalized = some ids) (paged : (pages : Int) + 1 ≤ maxI32)
    (fits : ((seen ++ ids).length : Int) ≤ maxI32) (t : DateTime) :
    ∃ after, Snapshot.stagePage db run page t = .ok after ∧
      Half Database.snapshotItems after account run.id run.snapshotId folder (seen ++ ids) (pages + 1) := by
  have runs : (Snapshot.stagePosts db run.snapshotId ids t).syncRuns = db.syncRuns :=
    ((Agree.fold (stageItemFrame t run.snapshotId) _ _).syncRuns (by simp)).trans ((persistPostsFrame ids db).syncRuns (by simp))
  obtain ⟨room,rows⟩ := half.advances paged fits (fun r => r.id = run.id && r.state = .running)
    (fun r mine => by simp at mine; exact mine.1) (fun r mine running => by simp [mine,running]) runs (fun _ => rfl)
  obtain ⟨after,form⟩ : ∃ after, after = updateRun (Snapshot.stagePosts db run.snapshotId ids t)
      (fun r => r.id = run.id && r.state = .running) (advancedRow page.nextToken ids.length) (fun _ => rfl) := ⟨_,rfl⟩
  rw [← form] at rows
  have ok : Snapshot.stagePage db run page t = .ok after := by
    rw [form]
    simp only [Snapshot.stagePage,normalized,fitsI32 (shortPage fits),Snapshot.advanceRun,if_pos room]
  have staged : ∀ post, after.snapshotItems.find (run.snapshotId,post) =
      if post ∈ (persistPosts db ids).2.map Prod.snd then some ⟨run.snapshotId,post,t⟩
      else db.snapshotItems.find (run.snapshotId,post) := by
    intro post
    have found := stageItemsFind t run.snapshotId ((persistPosts db ids).2.map Prod.snd) (persistPosts db ids).1
      run.snapshotId post
    rw [(persistPostsFrame ids db).snapshotItems (by simp)] at found
    rw [form]
    refine found.trans ?_
    simp only [true_and]
  have posts : after.posts = (persistPosts db ids).1.posts := by
    rw [form]
    exact stagedPosts ..
  exact ⟨after,ok,half.page rows ((stagePageFrame ok).snapshots (by simp)) posts staged⟩

theorem folderStages {run : FolderRun} {page : BookmarkPage}
    (half : Half Database.folderSnapshotItems db account run.id run.snapshotId folder seen pages)
    (normalized : page.normalized = some ids) (paged : (pages : Int) + 1 ≤ maxI32)
    (fits : ((seen ++ ids).length : Int) ≤ maxI32) (t : DateTime) :
    ∃ after, Folders.stagePage db run page t = .ok after ∧
      Half Database.folderSnapshotItems after account run.id run.snapshotId folder (seen ++ ids) (pages + 1) := by
  have runs : (Folders.stagePosts db run.snapshotId ids t).syncRuns = db.syncRuns :=
    ((Agree.fold (stageFolderItemFrame t run.snapshotId) _ _).syncRuns (by simp)).trans
      ((persistPostsFrame ids db).syncRuns (by simp))
  obtain ⟨room,rows⟩ := half.advances paged fits (fun r => r.id = run.id)
    (fun r mine => by simpa using mine) (fun r mine _ => by simpa using mine) runs (fun _ => rfl)
  obtain ⟨after,form⟩ : ∃ after, after = updateRun (Folders.stagePosts db run.snapshotId ids t)
      (fun r => r.id = run.id) (advancedRow page.nextToken ids.length) (fun _ => rfl) := ⟨_,rfl⟩
  rw [← form] at rows
  have ok : Folders.stagePage db run page t = .ok after := by
    rw [form]
    simp only [Folders.stagePage,normalized,fitsI32 (shortPage fits),Folders.advanceRun,if_pos room]
  have staged : ∀ post, after.folderSnapshotItems.find (run.snapshotId,post) =
      if post ∈ (persistPosts db ids).2.map Prod.snd then some ⟨run.snapshotId,post,t⟩
      else db.folderSnapshotItems.find (run.snapshotId,post) := by
    intro post
    have found := stageFolderItemsFind t run.snapshotId ((persistPosts db ids).2.map Prod.snd) (persistPosts db ids).1
      run.snapshotId post
    rw [(persistPostsFrame ids db).folderSnapshotItems (by simp)] at found
    rw [form]
    refine found.trans ?_
    simp only [true_and]
  have posts : after.posts = (persistPosts db ids).1.posts := by
    rw [form]
    exact folderPosts ..
  exact ⟨after,ok,half.page rows ((stageFolderPageFrame ok).snapshots (by simp)) posts staged⟩

end Half

section Completions
variable {db : Database} {account : Uuid} {seen : List String} {pages : Nat} {folder : Option Uuid}

theorem shownCard {posts : Finset Uuid} (shown : ∀ post ∈ posts, Shown db seen post) : posts.card ≤ seen.length := by
  have inside : posts ⊆ (seen.map (fun id => (db.postId id).getD 0)).toFinset := by
    intro post member
    obtain ⟨id,there,named⟩ := shown post member
    rw [List.mem_toFinset,List.mem_map]
    exact ⟨id,there,by rw [named]; rfl⟩
  refine (Finset.card_le_card inside).trans ((List.toFinset_card_le _).trans ?_)
  rw [List.length_map]

theorem snapshotCompletes {run : Run}
    (half : Half Database.snapshotItems db account run.id run.snapshotId folder seen pages)
    (few : ((activeSet db account).card : Int) ≤ maxI32) (fits : (seen.length : Int) ≤ maxI32) (t : DateTime) :
    ∃ after, Snapshot.completeRun db account run t = .ok after := by
  obtain ⟨r,found,running,mine,_⟩ := half.row
  obtain ⟨s,present,own,_,unsealed⟩ := half.snapshot
  have locked : Snapshot.lockFinalization db account run = true := by
    unfold Snapshot.lockFinalization
    rw [found,present]
    simp [own,mine,unsealed,running]
  have staged : (stagedSet db run.snapshotId).card ≤ seen.length :=
    shownCard (fun post member => (half.staged post).mp (Reconciliation.memStaged.mp member))
  have ofStaged : ∀ {posts : Finset Uuid}, posts ⊆ stagedSet db run.snapshotId → (posts.card : Int) ≤ maxI32 := by
    intro posts inside
    have bound := Finset.card_le_card inside
    omega
  have added : toI32 (Snapshot.addedCount db account run.snapshotId) = some _ :=
    fitsI32 (by rw [addedExact]; exact ofStaged Finset.sdiff_subset)
  have retained : toI32 (Snapshot.retainedCount db account run.snapshotId) = some _ :=
    fitsI32 (by rw [retainedExact]; exact ofStaged Finset.inter_subset_left)
  have bound := Finset.card_le_card (Finset.sdiff_subset (s := activeSet db account) (t := stagedSet db run.snapshotId))
  have removed : toI32 (swapped db account run.snapshotId t).2 = some _ :=
    fitsI32 (by rw [removedExact]; omega)
  obtain ⟨⟨_,_⟩,reconciled⟩ : ∃ x, Snapshot.reconcileBookmarks db account run t = some x := by
    unfold Snapshot.reconcileBookmarks
    simp only [added,retained,removed,bind,Option.bind]
    exact ⟨_,rfl⟩
  unfold Snapshot.completeRun
  rw [if_pos locked,reconciled]
  exact ⟨_,rfl⟩

theorem stagedLength (db : Database) (snapshot) : (stagedItems db snapshot).length = (staged db snapshot).card := by
  have distinct : ((stagedItems db snapshot).map SnapshotItem.postId).Nodup :=
    db.folderSnapshotItems.ownedNodup (fun _ mine => of_decide_eq_true mine)
  rw [staged,List.toFinset_card_of_nodup distinct,List.length_map]

theorem joinedOnce (db : Database) (folder) (i : SnapshotItem) :
    (db.folderItems.rows.filter (Folders.activeMatch folder i)).length ≤ 1 := by
  have owned : ∀ item, Folders.activeMatch folder i item = true → item.folderId = folder := by
    simp +contextual [Folders.activeMatch]
  have distinct := db.folderItems.ownedNodup owned
  have same : (db.folderItems.rows.filter (Folders.activeMatch folder i)).map FolderItem.postId ⊆ [i.postId] := by
    intro post member
    obtain ⟨item,inside,rfl⟩ := List.mem_map.mp member
    have selected := (List.mem_filter.mp inside).2
    simp only [Folders.activeMatch,Bool.and_eq_true,decide_eq_true_eq] at selected
    rw [selected.1.2]
    exact List.mem_singleton_self _
  have short := (distinct.subperm same).length_le
  rwa [List.length_map] at short

theorem retainedFew (db : Database) (run : FolderRun) : countRetained db run ≤ (staged db run.snapshotId).card := by
  rw [← stagedLength]
  unfold countRetained
  induction stagedItems db run.snapshotId with
  | nil => exact Nat.le_refl _
  | cons i rest ih =>
    have one := joinedOnce db run.folderId i
    rw [List.flatMap_cons,List.length_append,List.length_cons]
    omega

theorem removedFew (db : Database) (run : FolderRun) (t) :
    (recordAbsentMemberships db run t).2 ≤ (members db run.folderId \ staged db run.snapshotId).card := by
  have owned : ∀ i, Folders.absent db run i = true → i.folderId = run.folderId := by
    simp +contextual [Folders.absent]
  have distinct := db.folderItems.ownedNodup owned
  have same : ((db.folderItems.rows.filter (Folders.absent db run)).map FolderItem.postId).toFinset ⊆
      members db run.folderId \ staged db run.snapshotId := by
    intro post member
    exact (absentPosts db run).mp (List.mem_toFinset.mp member)
  have bound := Finset.card_le_card same
  rwa [List.toFinset_card_of_nodup distinct,List.length_map] at bound

theorem folderCompletes {run : FolderRun}
    (half : Half Database.folderSnapshotItems db account run.id run.snapshotId (some run.folderId) seen pages)
    (few : ((members db run.folderId).card : Int) ≤ maxI32) (fits : (seen.length : Int) ≤ maxI32) (t : DateTime) :
    ∃ after, Folders.completeRun db run t = .ok after := by
  obtain ⟨r,found,running,_⟩ := half.row
  obtain ⟨s,present,own,of_,unsealed⟩ := half.snapshot
  have locked : Folders.lockFinalization db run = true := by
    unfold Folders.lockFinalization
    rw [found,present]
    simp [own,of_,unsealed,running]
  have shown : (staged db run.snapshotId).card ≤ seen.length :=
    shownCard (fun post member => (half.staged post).mp (Memberships.memStaged.mp member))
  have added : toI32 (countAdded db run) = some (countAdded db run : Int) := by
    refine fitsI32 ?_
    have short := List.length_filter_le (fun s => !db.folderItems.rows.any (Folders.activeMatch run.folderId s))
      (stagedItems db run.snapshotId)
    rw [stagedLength] at short
    unfold countAdded newlyStaged
    omega
  have retained : toI32 (countRetained db run) = some (countRetained db run : Int) := by
    have short := retainedFew db run
    exact fitsI32 (by omega)
  have removed : toI32 (recordAbsentMemberships (upserted db run t) run t).2 =
      some ((recordAbsentMemberships (upserted db run t) run t).2 : Int) := by
    have short := removedFew (upserted db run t) run t
    rw [upsertedMembers,Memberships.upsertedStaged,Finset.union_sdiff_right] at short
    have bound := Finset.card_le_card (Finset.sdiff_subset (s := members db run.folderId) (t := staged db run.snapshotId))
    exact fitsI32 (by omega)
  obtain ⟨⟨_,_⟩,reconciled⟩ : ∃ x, Folders.reconcileMemberships db run t = some x := by
    unfold Folders.reconcileMemberships
    simp only [added,retained,removed,bind,Option.bind]
    exact ⟨_,rfl⟩
  unfold Folders.completeRun
  rw [if_pos locked,reconciled]
  exact ⟨_,rfl⟩

end Completions

end RatatoskrX.StagedRuns
