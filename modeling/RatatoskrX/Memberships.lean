import Mathlib.Data.Finset.SDiff
import Mathlib.Tactic.Tauto
import RatatoskrX.Observations

/-! The membership log of a folder. One completion records what it adds before it upserts
the staged posts and what it removes after, and the log of all completions replays to the
folder's active memberships. -/
namespace RatatoskrX.Memberships
open Relational Schema Snapshot Folders Journal Frames SyncCalls Schedule Transition Registry Observations

section FoldLog
variable {α : Type*} [DecidableEq α]

/- Sets of additions and removals, applied one after the other. -/
def foldLog (log : List (Finset α × Finset α)) : Finset α := log.foldl (fun s d => (s ∪ d.1) \ d.2) ∅

theorem foldSnoc (log : List (Finset α × Finset α)) (added removed) :
    foldLog (log ++ [(added,removed)]) = (foldLog log ∪ added) \ removed := by
  simp [foldLog]

theorem foldDifference (current target : Finset α) : (current ∪ (target \ current)) \ (current \ target) = target := by
  ext x
  simp only [Finset.mem_sdiff,Finset.mem_union]
  tauto

end FoldLog

def members (db : Database) (folder : Uuid) : Finset Uuid :=
  ((db.folderItems.rows.filter (fun i => i.folderId = folder && i.observedRemovedFromFolderAt = none)).map
    FolderItem.postId).toFinset

def staged (db : Database) (snapshot : Uuid) : Finset Uuid :=
  ((stagedItems db snapshot).map SnapshotItem.postId).toFinset

def observed (db : Database) (snapshot folder : Uuid) (kind : ObservationKind) : Finset Uuid :=
  ((db.membershipObservations.rows.filter
    (fun o => o.snapshotId = snapshot && o.folderId = folder && o.kind = kind)).map
      MembershipObservation.postId).toFinset

theorem memMembers {db : Database} {folder post} : post ∈ members db folder ↔
    ∃ i, db.folderItems.find (folder,post) = some i ∧ i.observedRemovedFromFolderAt = none := by
  simp only [members,List.mem_toFinset,List.mem_map,List.mem_filter,Bool.and_eq_true,decide_eq_true_eq]
  constructor
  · rintro ⟨i,⟨member,rfl,active⟩,rfl⟩
    exact ⟨i,Table.findMem member,active⟩
  · rintro ⟨i,found,active⟩
    obtain ⟨member,keyed⟩ := Table.findIff.mp found
    cases keyed
    exact ⟨i,⟨member,rfl,active⟩,rfl⟩

theorem memStaged {db : Database} {snapshot post} :
    post ∈ staged db snapshot ↔ (db.folderSnapshotItems.find (snapshot,post)).isSome = true := by
  simp only [staged,stagedItems,List.mem_toFinset,List.mem_map,List.mem_filter,decide_eq_true_eq,Option.isSome_iff_exists]
  constructor
  · rintro ⟨i,⟨member,rfl⟩,rfl⟩
    exact ⟨i,Table.findMem member⟩
  · rintro ⟨i,found⟩
    obtain ⟨member,keyed⟩ := Table.findIff.mp found
    cases keyed
    exact ⟨i,⟨member,rfl⟩,rfl⟩

theorem memObserved {db : Database} {snapshot folder kind post} : post ∈ observed db snapshot folder kind ↔
    (db.membershipObservations.find (snapshot,folder,post,kind)).isSome = true := by
  simp only [observed,List.mem_toFinset,List.mem_map,List.mem_filter,Bool.and_eq_true,decide_eq_true_eq,
    Option.isSome_iff_exists]
  constructor
  · rintro ⟨o,⟨member,⟨rfl,rfl⟩,rfl⟩,rfl⟩
    exact ⟨o,Table.findMem member⟩
  · rintro ⟨o,found⟩
    obtain ⟨member,keyed⟩ := Table.findIff.mp found
    cases keyed
    exact ⟨o,⟨member,⟨rfl,rfl⟩,rfl⟩,rfl⟩

section Statements
variable (db : Database) (run : FolderRun) (t : DateTime)

theorem observedFold (snapshot folder kind) (posts : List Uuid) (s f p k) :
    (posts.foldl (observe snapshot folder kind t) db).membershipObservations.find (s,f,p,k) =
      (db.membershipObservations.find (s,f,p,k)).or
        (if s = snapshot ∧ f = folder ∧ k = kind ∧ p ∈ posts then some ⟨snapshot,folder,p,kind,t⟩ else none) := by
  induction posts generalizing db with
  | nil => simp
  | cons head rest ih =>
    rw [List.foldl_cons,ih]
    have first : (observe snapshot folder kind t db head).membershipObservations.find (s,f,p,k) = _ :=
      Table.findInsertIgnore ..
    rw [first]
    cases db.membershipObservations.find (s,f,p,k) with
    | some o => rfl
    | none =>
      simp only [Option.none_or,Prod.mk.injEq,List.mem_cons]
      by_cases mine : s = snapshot ∧ f = folder ∧ k = kind
      · obtain ⟨rfl,rfl,rfl⟩ := mine
        by_cases here : head = p
        · subst here
          simp
        · simp [here,Ne.symm here]
      · have other : ∀ x : Prop, ¬(s = snapshot ∧ f = folder ∧ k = kind ∧ x) := by
          rintro x ⟨a,b,c,_⟩
          exact mine ⟨a,b,c⟩
        rw [if_neg (other _),if_neg (other _),if_neg]
        · rfl
        · rintro ⟨rfl,rfl,_,rfl⟩
          exact mine ⟨rfl,rfl,rfl⟩

theorem newlyStagedPosts {post} : post ∈ (newlyStaged db run).map SnapshotItem.postId ↔
    post ∈ staged db run.snapshotId \ members db run.folderId := by
  have matched : ∀ s : SnapshotItem, db.folderItems.rows.any (activeMatch run.folderId s) = true ↔
      s.postId ∈ members db run.folderId := by
    intro s
    simp only [members,Folders.activeMatch,List.any_eq_true,List.mem_toFinset,List.mem_map,List.mem_filter,Bool.and_eq_true,
      decide_eq_true_eq]
    constructor
    · rintro ⟨i,member,⟨mine,same⟩,active⟩
      exact ⟨i,⟨member,mine,active⟩,same⟩
    · rintro ⟨i,⟨member,mine,active⟩,same⟩
      exact ⟨i,member,⟨mine,same⟩,active⟩
  simp only [newlyStaged,List.mem_map,List.mem_filter,Bool.not_eq_true',Finset.mem_sdiff,staged,List.mem_toFinset]
  constructor
  · rintro ⟨s,⟨member,unmatched⟩,rfl⟩
    exact ⟨⟨s,member,rfl⟩,fun active => by simp [(matched s).mpr active] at unmatched⟩
  · rintro ⟨⟨s,member,rfl⟩,inactive⟩
    exact ⟨s,⟨member,by simpa using fun active => inactive ((matched s).mp active)⟩,rfl⟩

theorem activatedFold (folder) (items : List SnapshotItem) (f p) :
    (items.foldl (activateMembership folder) db).folderItems.find (f,p) = db.folderItems.find (f,p) ∨
      f = folder ∧ p ∈ items.map SnapshotItem.postId := by
  induction items generalizing db with
  | nil => exact .inl rfl
  | cons head rest ih =>
    rcases ih (activateMembership folder db head) with same | ⟨rfl,member⟩
    · have first : (activateMembership folder db head).folderItems.find (f,p) = if (folder,head.postId) = (f,p) then _
          else _ := Table.findUpsert ..
      by_cases here : (folder,head.postId) = (f,p)
      · cases here
        exact .inr ⟨rfl,by simp⟩
      · rw [if_neg here] at first
        exact .inl (same.trans first)
    · exact .inr ⟨rfl,List.mem_cons_of_mem _ member⟩

theorem activatedKeeps (folder) (items : List SnapshotItem) {f p} (active : p ∈ members db f) :
    p ∈ members (items.foldl (activateMembership folder) db) f := by
  induction items generalizing db with
  | nil => exact active
  | cons head rest ih =>
    refine ih _ (memMembers.mpr ?_)
    obtain ⟨i,found,live⟩ := memMembers.mp active
    have first : (activateMembership folder db head).folderItems.find (f,p) = if (folder,head.postId) = (f,p) then _
        else _ := Table.findUpsert ..
    rw [found] at first
    by_cases here : (folder,head.postId) = (f,p)
    · rw [if_pos here] at first
      exact ⟨_,first,rfl⟩
    · rw [if_neg here] at first
      exact ⟨i,first,live⟩

theorem activatedMember (folder) (items : List SnapshotItem) {p} (member : p ∈ items.map SnapshotItem.postId) :
    p ∈ members (items.foldl (activateMembership folder) db) folder := by
  induction items generalizing db with
  | nil => simp at member
  | cons head rest ih =>
    rcases List.mem_cons.mp member with rfl | inside
    · refine activatedKeeps _ folder rest (memMembers.mpr ?_)
      have first : (activateMembership folder db head).folderItems.find (folder,head.postId) =
          if (folder,head.postId) = (folder,head.postId) then _ else _ := Table.findUpsert ..
      rw [if_pos rfl] at first
      refine ⟨_,first,?_⟩
      cases db.folderItems.find (folder,head.postId) <;> rfl
    · exact ih _ inside

theorem absentPosts {post} : post ∈ (db.folderItems.rows.filter (Folders.absent db run)).map FolderItem.postId ↔
    post ∈ members db run.folderId \ staged db run.snapshotId := by
  have unstaged : ∀ i : FolderItem, (db.folderSnapshotItems.rows.any
      (fun s => s.snapshotId = run.snapshotId && s.postId = i.postId)) = true ↔ i.postId ∈ staged db run.snapshotId := by
    intro i
    simp only [staged,stagedItems,List.any_eq_true,List.mem_toFinset,List.mem_map,List.mem_filter,Bool.and_eq_true,
      decide_eq_true_eq]
    constructor
    · rintro ⟨s,member,mine,same⟩
      exact ⟨s,⟨member,mine⟩,same⟩
    · rintro ⟨s,⟨member,mine⟩,same⟩
      exact ⟨s,member,mine,same⟩
  simp only [List.mem_map,List.mem_filter,Folders.absent,Bool.and_eq_true,decide_eq_true_eq,Bool.not_eq_true',
    Finset.mem_sdiff,members,List.mem_toFinset]
  constructor
  · rintro ⟨i,⟨member,⟨mine,active⟩,absent⟩,rfl⟩
    exact ⟨⟨i,⟨member,mine,active⟩,rfl⟩,fun there => by simp [(unstaged i).mpr there] at absent⟩
  · rintro ⟨⟨i,⟨member,mine,active⟩,rfl⟩,absent⟩
    exact ⟨i,⟨member,⟨mine,active⟩,by simpa using fun there => absent ((unstaged i).mp there)⟩,rfl⟩

abbrev left (i : FolderItem) : FolderItem :=
  {i with observedRemovedFromFolderAt := some t, observedRemovedSnapshotId := some run.snapshotId}

theorem recordedItems (f p) : (recordAbsentMemberships db run t).1.folderItems.find (f,p) =
    (db.folderItems.find (f,p)).map (fun i => if Folders.absent db run i = true then left run t i else i) := by
  have kept : ∀ (db : Database) (posts : List Uuid), (posts.foldl (observe run.snapshotId run.folderId .removed t) db).folderItems =
      db.folderItems := by
    intro db posts
    induction posts generalizing db with
    | nil => rfl
    | cons head rest ih => exact ih _
  refine (congrArg (fun x => Table.find x (f,p)) (kept _ _)).trans ?_
  exact Table.findUpdate db.folderItems (Folders.absent db run) (left run t) (fun _ => rfl) (f,p)

theorem recordedMembers : members (recordAbsentMemberships db run t).1 run.folderId =
    members db run.folderId ∩ staged db run.snapshotId := by
  ext p
  rw [Finset.mem_inter,memMembers,recordedItems]
  constructor
  · rintro ⟨i',found,active⟩
    obtain ⟨i,was,rfl⟩ := Option.map_eq_some_iff.mp found
    split at active
    · simp at active
    · rename_i kept
      have member := memMembers.mpr ⟨i,was,active⟩
      refine ⟨member,?_⟩
      by_contra unstaged
      have inside := (absentPosts db run).mpr (Finset.mem_sdiff.mpr ⟨member,unstaged⟩)
      obtain ⟨j,there,same⟩ := List.mem_map.mp inside
      obtain ⟨row,struck⟩ := List.mem_filter.mp there
      have mine : j.folderId = run.folderId := by
        simp only [Folders.absent,Bool.and_eq_true,decide_eq_true_eq] at struck
        exact struck.1.1
      obtain ⟨row',keyed⟩ := Table.findIff.mp was
      rw [db.folderItems.sameRow row row' ((Prod.ext mine same).trans keyed.symm)] at struck
      exact kept struck
  · rintro ⟨member,kept⟩
    obtain ⟨i,was,active⟩ := memMembers.mp member
    refine ⟨_,by rw [was]; rfl,?_⟩
    dsimp only
    split
    · rename_i struck
      have keyed : i.key = (run.folderId,p) := Table.findKey was
      have inside : p ∈ (db.folderItems.rows.filter (Folders.absent db run)).map FolderItem.postId :=
        List.mem_map.mpr ⟨i,List.mem_filter.mpr ⟨(Table.findIff.mp was).1,struck⟩,congrArg Prod.snd keyed⟩
      exact absurd kept (Finset.mem_sdiff.mp ((absentPosts db run).mp inside)).2
    · exact active

abbrev upserted : Database := upsertActiveMemberships (recordAddedObservations db run t) run

theorem upsertedStaged (snapshot) : staged (upserted db run t) snapshot = staged db snapshot := by
  have activated : ∀ (items : List SnapshotItem) (db : Database),
      (items.foldl (activateMembership run.folderId) db).folderSnapshotItems = db.folderSnapshotItems := by
    intro items
    induction items with
    | nil => exact fun _ => rfl
    | cons head rest ih => exact fun db => ih _
  have recorded : ∀ (posts : List Uuid) (db : Database),
      (posts.foldl (observe run.snapshotId run.folderId .added t) db).folderSnapshotItems = db.folderSnapshotItems := by
    intro posts
    induction posts with
    | nil => exact fun _ => rfl
    | cons head rest ih => exact fun db => ih _
  unfold staged stagedItems
  rw [show (upserted db run t).folderSnapshotItems = db.folderSnapshotItems from
    (activated _ _).trans (recorded _ _)]

theorem recordedSame : (recordAddedObservations db run t).folderItems = db.folderItems := by
  unfold recordAddedObservations
  generalize (newlyStaged db run).map SnapshotItem.postId = posts
  induction posts generalizing db with
  | nil => rfl
  | cons head rest ih => exact ih _

theorem upsertedMembers : members (upserted db run t) run.folderId = members db run.folderId ∪ staged db run.snapshotId := by
  have same : stagedItems (recordAddedObservations db run t) run.snapshotId = stagedItems db run.snapshotId := by
    unfold stagedItems recordAddedObservations
    generalize (newlyStaged db run).map SnapshotItem.postId = posts
    induction posts generalizing db with
    | nil => rfl
    | cons head rest ih => exact ih _
  have before : members (recordAddedObservations db run t) run.folderId = members db run.folderId := by
    unfold members
    rw [recordedSame]
  ext p
  rw [Finset.mem_union,← before]
  constructor
  · intro member
    obtain ⟨i,found,active⟩ := memMembers.mp member
    rcases activatedFold (recordAddedObservations db run t) run.folderId
      (stagedItems (recordAddedObservations db run t) run.snapshotId) run.folderId p with kept | ⟨_,inside⟩
    · exact .inl (memMembers.mpr ⟨i,kept.symm.trans found,active⟩)
    · rw [same] at inside
      exact .inr (List.mem_toFinset.mpr inside)
  · rintro (member | inside)
    · exact activatedKeeps _ _ _ member
    · exact activatedMember _ _ _ (by rw [same]; exact List.mem_toFinset.mp inside)

end Statements

section Completed
variable {db : Database} {run : FolderRun} {t : DateTime} {after : Database}
  (ok : Folders.completeRun db run t = .ok after)
include ok

theorem completedTables :
    after.folderItems = (recordAbsentMemberships (upserted db run t) run t).1.folderItems ∧
      after.membershipObservations = (recordAbsentMemberships (upserted db run t) run t).1.membershipObservations := by
  have recorded : ∀ (x : Database) statistics,
      (Folders.replaceAuthority (recordCompletion x run.id run.snapshotId t statistics) run.folderId run.snapshotId
        t).folderItems = x.folderItems ∧
      (Folders.replaceAuthority (recordCompletion x run.id run.snapshotId t statistics) run.folderId run.snapshotId
        t).membershipObservations = x.membershipObservations := fun _ _ => ⟨rfl,rfl⟩
  obtain ⟨_,statistics,form⟩ := Folders.completedForm ok
  rw [form]
  exact recorded _ statistics

theorem completedMembers : members after run.folderId = staged db run.snapshotId := by
  have same : members after run.folderId = members (recordAbsentMemberships (upserted db run t) run t).1 run.folderId := by
    unfold members
    rw [(completedTables ok).1]
  rw [same,recordedMembers,upsertedMembers,upsertedStaged]
  exact Finset.inter_eq_right.mpr Finset.subset_union_right

theorem completedOther {folder post} (other : folder ≠ run.folderId) :
    after.folderItems.find (folder,post) = db.folderItems.find (folder,post) := by
  rw [(completedTables ok).1,recordedItems]
  have kept : (upserted db run t).folderItems.find (folder,post) = db.folderItems.find (folder,post) := by
    rcases activatedFold (recordAddedObservations db run t) run.folderId
      (stagedItems (recordAddedObservations db run t) run.snapshotId) folder post with same | ⟨mine,_⟩
    · exact same.trans (by rw [recordedSame])
    · exact absurd mine other
  rw [kept]
  cases found : db.folderItems.find (folder,post) with
  | none => rfl
  | some i =>
    have mine : i.folderId = folder := congrArg Prod.fst (Table.findKey found)
    rw [Option.map_some,if_neg]
    simp [Folders.absent,mine,other]

theorem completedObservations (s f p k) : after.membershipObservations.find (s,f,p,k) =
    (db.membershipObservations.find (s,f,p,k)).or
      (if s = run.snapshotId ∧ f = run.folderId ∧
          ((k = .added ∧ p ∈ staged db run.snapshotId \ members db run.folderId) ∨
            (k = .removed ∧ p ∈ members db run.folderId \ staged db run.snapshotId)) then
        some ⟨run.snapshotId,run.folderId,p,k,t⟩ else none) := by
  have struck := observedFold
    {upserted db run t with
      folderItems := (upserted db run t).folderItems.update (Folders.absent (upserted db run t) run) (left run t)
        (fun _ => rfl)}
    t run.snapshotId run.folderId .removed
    (((upserted db run t).folderItems.rows.filter (Folders.absent (upserted db run t) run)).map FolderItem.postId) s f p k
  rw [(completedTables ok).2]
  refine Eq.trans struck ?_
  have middle : (upserted db run t).membershipObservations = (recordAddedObservations db run t).membershipObservations := by
    unfold upserted upsertActiveMemberships
    generalize stagedItems (recordAddedObservations db run t) run.snapshotId = items
    generalize recordAddedObservations db run t = x
    induction items generalizing x with
    | nil => rfl
    | cons head rest ih => exact ih _
  have added := observedFold db t run.snapshotId run.folderId .added ((newlyStaged db run).map SnapshotItem.postId) s f p k
  have gone : p ∈ members db run.folderId ∪ staged db run.snapshotId ∧ p ∉ staged db run.snapshotId ↔
      p ∈ members db run.folderId \ staged db run.snapshotId := by
    simp only [Finset.mem_union,Finset.mem_sdiff]
    tauto
  simp only [absentPosts,upsertedMembers,upsertedStaged,Finset.mem_sdiff (s := members db _ ∪ _),gone]
  rw [show Table.find (upserted db run t).membershipObservations (s,f,p,k) = _ from
    (congrArg (fun x => Table.find x (s,f,p,k)) middle).trans added]
  simp only [newlyStagedPosts]
  cases db.membershipObservations.find (s,f,p,k) with
  | some o => rfl
  | none => cases k <;> by_cases mine : s = run.snapshotId ∧ f = run.folderId <;> simp_all

theorem completedAuthority (folder) : (after.folderAuthority.find folder).map FolderAuthority.snapshotId =
    if run.folderId = folder then some run.snapshotId
    else (db.folderAuthority.find folder).map FolderAuthority.snapshotId := by
  have replaced : ∀ x : Database, ((Folders.replaceAuthority x run.folderId run.snapshotId t).folderAuthority.find
      folder).map FolderAuthority.snapshotId = if run.folderId = folder then some run.snapshotId
        else (x.folderAuthority.find folder).map FolderAuthority.snapshotId := by
    intro x
    refine (congrArg (Option.map FolderAuthority.snapshotId) (Table.findUpsert ..)).trans ?_
    by_cases mine : run.folderId = folder
    · rw [if_pos mine,if_pos mine]
      cases x.folderAuthority.find folder <;> rfl
    · rw [if_neg mine,if_neg mine]
  have same : ∀ (x : Database) statistics, (recordCompletion x run.id run.snapshotId t statistics).folderAuthority =
      x.folderAuthority := fun _ _ => rfl
  obtain ⟨_,statistics,form⟩ := Folders.completedForm ok
  rw [form,replaced,same,(reconciledFrame db run t).folderAuthority (by simp)]

end Completed

end RatatoskrX.Memberships
