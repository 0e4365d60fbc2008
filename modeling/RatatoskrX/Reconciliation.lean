import Mathlib.Data.Finset.Card
import Mathlib.Data.Finset.SDiff
import RatatoskrX.Snapshot

/-! What one committed complete_run does to the archive. The two counts, the upsert
and the anti-join update are separate statements; the partition they agree on is
stated against the rows as they stood before the first of them. -/
namespace RatatoskrX.Reconciliation
open Relational Schema Audit Snapshot

def activeSet (db : Database) (account : Uuid) : Finset Uuid :=
  ((db.bookmarks.rows.filter (fun b => b.accountId = account && b.observedRemovedAt = none)).map
    Bookmark.postId).toFinset

def stagedSet (db : Database) (snapshot : Uuid) : Finset Uuid :=
  ((db.itemsOf snapshot).map SnapshotItem.postId).toFinset

theorem memStaged {db snapshot post} : post ∈ stagedSet db snapshot ↔ db.Staged snapshot post := by
  simp [stagedSet,Database.stagedItem]

theorem selectedPosts {db : Database} {account post} {p : Bookmark → Bool}
    (owned : ∀ b, p b = true → b.accountId = account) :
    post ∈ (db.bookmarks.rows.filter p).map Bookmark.postId ↔
      ∃ b, db.bookmark account post = some b ∧ p b = true := by
  simp only [List.mem_map,List.mem_filter]
  constructor
  · rintro ⟨b,⟨member,selected⟩,rfl⟩
    exact ⟨b,Table.findIff.mpr ⟨member,by simp [owned b selected]⟩,selected⟩
  · rintro ⟨b,found,selected⟩
    obtain ⟨member,keyed⟩ := Table.findIff.mp found
    exact ⟨b,⟨member,selected⟩,congrArg Prod.snd keyed⟩

theorem selectedNodup {db : Database} {account} {p : Bookmark → Bool}
    (owned : ∀ b, p b = true → b.accountId = account) :
    ((db.bookmarks.rows.filter p).map Bookmark.postId).Nodup :=
  db.bookmarks.ownedNodup owned

theorem memActive {db account post} : post ∈ activeSet db account ↔ db.Active account post := by
  have owned : ∀ b : Bookmark, (b.accountId = account && b.observedRemovedAt = none) = true →
      b.accountId = account := by simp +contextual
  unfold activeSet
  rw [List.mem_toFinset,selectedPosts owned]
  constructor
  · rintro ⟨b,found,selected⟩
    exact ⟨b,found,by simpa using (Bool.and_eq_true_iff.mp selected).2⟩
  · rintro ⟨b,found,active⟩
    have owner := congrArg Prod.fst (Table.findKey found)
    exact ⟨b,found,by simp_all⟩

theorem itemsNodup (db : Database) (snapshot) : ((db.itemsOf snapshot).map SnapshotItem.postId).Nodup :=
  db.snapshotItems.ownedNodup (fun _ mine => of_decide_eq_true mine)

theorem activateBookmark (account) (db : Database) (item : SnapshotItem) (a post) :
    (activateItem account db item).bookmark a post =
      if (account,item.postId) = (a,post) then
        some ((db.bookmark a post).elim
          {savedRow account item with id := freshId (db.bookmarks.rows.map Bookmark.id)} (resaved item))
      else db.bookmark a post :=
  Database.bookmarkUpsert ..

theorem activatedOther {account a post} {items : List SnapshotItem} (db : Database)
    (other : ∀ i ∈ items, (account,i.postId) ≠ (a,post)) :
    (items.foldl (activateItem account) db).bookmark a post = db.bookmark a post := by
  induction items generalizing db with
  | nil => rfl
  | cons item rest ih =>
    have here := other item (by simp)
    rw [List.foldl_cons,ih _ (fun i member => other i (List.mem_cons_of_mem _ member))]
    rw [activateBookmark,if_neg here]

theorem activatedItem {account} {items : List SnapshotItem} {item} (db : Database)
    (distinct : (items.map SnapshotItem.postId).Nodup) (member : item ∈ items) :
    ∃ id, (items.foldl (activateItem account) db).bookmark account item.postId =
      some ((db.bookmark account item.postId).elim {savedRow account item with id := id} (resaved item)) := by
  induction items generalizing db with
  | nil => simp at member
  | cons head rest ih =>
    obtain ⟨fresh,distinct⟩ := List.nodup_cons.mp distinct
    rw [List.foldl_cons]
    rcases List.mem_cons.mp member with rfl | inside
    · have later : ∀ i ∈ rest, (account,i.postId) ≠ (account,item.postId) := by
        intro i mem same
        exact fresh (List.mem_map.mpr ⟨i,mem,congrArg Prod.snd same⟩)
      rw [activatedOther _ later]
      rw [activateBookmark,if_pos rfl]
      exact ⟨_,rfl⟩
    · have different : head.postId ≠ item.postId := by
        intro same
        exact fresh (List.mem_map.mpr ⟨item,inside,same.symm⟩)
      obtain ⟨id,found⟩ := ih (activateItem account db head) distinct inside
      refine ⟨id,?_⟩
      rw [found,activateBookmark,if_neg (by simp [different])]

/- A statement on bookmarks leaves every other table alone. -/
def BookmarksOnly (db after : Database) : Prop :=
  ∃ table ids, after = {db with bookmarks := table, bookmarkIds := ids}

theorem activatedOnly (account) (items : List SnapshotItem) (db) :
    BookmarksOnly db (items.foldl (activateItem account) db) := by
  induction items generalizing db with
  | nil => exact ⟨_,_,rfl⟩
  | cons item rest ih =>
    obtain ⟨table,ids,same⟩ := ih (activateItem account db item)
    exact ⟨table,ids,by rw [List.foldl_cons,same]; rfl⟩

theorem upsertedOnly (db account snapshot) :
    BookmarksOnly db (upsertActiveBookmarks db account snapshot) := activatedOnly ..

def repairRows (snapshot : Uuid) (removed : List Bookmark) : List Repair :=
  (removed.filter (fun b => b.lastIncrementalRunId.isSome)).map (fun b => ⟨snapshot,b.id,.incrementalDrift⟩)

theorem repairsRecorded (snapshot) (removed : List Bookmark) (db)
    (distinct : (removed.map Bookmark.id).Nodup) :
    (removed.foldl (recordRepair snapshot) db).repairs.rows = db.repairs.rows ++
      (repairRows snapshot removed).filter (fun r => db.repairs.find r.key = none) := by
  induction removed generalizing db with
  | nil => simp [repairRows]
  | cons b rest ih =>
    obtain ⟨fresh,distinct⟩ := List.nodup_cons.mp distinct
    rw [List.foldl_cons,ih _ distinct]
    cases incremental : b.lastIncrementalRunId with
    | none => simp [recordRepair,repairRows,incremental]
    | some run =>
      have recorded : recordRepair snapshot db b =
          {db with repairs := db.repairs.insertIgnore ⟨snapshot,b.id,.incrementalDrift⟩} := by
        simp [recordRepair,incremental]
      have others : ∀ r ∈ repairRows snapshot rest,
          (db.repairs.insertIgnore ⟨snapshot,b.id,.incrementalDrift⟩).find r.key = db.repairs.find r.key := by
        intro r member
        obtain ⟨c,inside,rfl⟩ := List.mem_map.mp member
        have different : b.id ≠ c.id := by
          intro same
          exact fresh (List.mem_map.mpr ⟨c,(List.mem_filter.mp inside).1,same.symm⟩)
        rw [Table.findInsertIgnore,if_neg (by simp [Repair.key,different]),Option.or_none]
      have split : repairRows snapshot (b::rest) =
          ⟨snapshot,b.id,.incrementalDrift⟩::repairRows snapshot rest := by
        simp [repairRows,incremental]
      rw [recorded,split,List.filter_congr (fun r member => by rw [others r member])]
      simp only
      by_cases absent : db.repairs.find (snapshot,b.id) = none
      · rw [Table.insertIgnoreRows absent,List.filter_cons_of_pos (by simpa using absent)]
        simp
      · rw [List.filter_cons_of_neg (by simpa using absent)]
        rw [Table.insertIgnoreKnown absent]

theorem repairsOnly (snapshot) (removed : List Bookmark) (db) :
    ∃ table, removed.foldl (recordRepair snapshot) db = {db with repairs := table} := by
  induction removed generalizing db with
  | nil => exact ⟨_,rfl⟩
  | cons b rest ih =>
    obtain ⟨table,same⟩ := ih (recordRepair snapshot db b)
    refine ⟨table,?_⟩
    rw [List.foldl_cons,same]
    unfold recordRepair
    split <;> rfl

theorem absentIff {db : Database} {account snapshot b} :
    absent db account snapshot b = true ↔
      b.accountId = account ∧ b.observedRemovedAt = none ∧ ¬db.Staged snapshot b.postId := by
  have staged : db.Staged snapshot b.postId ↔
      (db.snapshotItems.rows.any (fun i => i.snapshotId = snapshot && i.postId = b.postId)) = true := by
    simp only [Database.stagedItem,Database.itemsOf,List.mem_filter,List.any_eq_true,Bool.and_eq_true,
      decide_eq_true_eq,and_assoc]
  unfold absent
  simp only [Bool.and_eq_true,decide_eq_true_eq,Bool.not_eq_true',staged,Bool.not_eq_true,and_assoc]

theorem recordedAbsent (db : Database) (account snapshot t a post) :
    (recordAbsentBookmarks db account snapshot t).1.bookmark a post =
      (db.bookmark a post).map (fun b => if absent db account snapshot b then struck snapshot t b else b) := by
  simp only [recordAbsentBookmarks]
  obtain ⟨table,same⟩ := repairsOnly snapshot (db.bookmarks.rows.filter (absent db account snapshot))
    (db.updateBookmarks (absent db account snapshot) (struck snapshot t) (fun _ => rfl) (fun _ => rfl))
  rw [same]
  exact Database.bookmarkUpdate db (absent db account snapshot) (struck snapshot t) (fun _ => rfl)
    (fun _ => rfl) a post

/- The two bookmark statements of the reconciliation, in their order. -/
abbrev swapped (db : Database) (account snapshot : Uuid) (t : DateTime) : Database × Nat :=
  recordAbsentBookmarks (upsertActiveBookmarks db account snapshot) account snapshot t

theorem upsertedStaged (db account snapshot s post) :
    (upsertActiveBookmarks db account snapshot).Staged s post ↔ db.Staged s post := by
  obtain ⟨table,ids,same⟩ := upsertedOnly db account snapshot
  rw [same]; rfl

theorem swappedOther (db : Database) {account snapshot t a post} (other : a ≠ account) :
    (swapped db account snapshot t).1.bookmark a post = db.bookmark a post := by
  have before : (upsertActiveBookmarks db account snapshot).bookmark a post = db.bookmark a post :=
    activatedOther db (by intro i _ same; exact other (congrArg Prod.fst same).symm)
  rw [recordedAbsent,before]
  cases found : db.bookmark a post with
  | none => rfl
  | some b =>
    have owner : b.accountId = a := congrArg Prod.fst (Table.findKey found)
    have kept : ¬absent (upsertActiveBookmarks db account snapshot) account snapshot b = true := by
      rw [absentIff,owner]
      exact fun h => other h.1
    simp [kept]

theorem swappedStaged (db : Database) {account snapshot t item} (member : item ∈ db.itemsOf snapshot) :
    ∃ id, (swapped db account snapshot t).1.bookmark account item.postId =
      some ((db.bookmark account item.postId).elim {savedRow account item with id := id} (resaved item)) := by
  obtain ⟨id,found⟩ : ∃ id, (upsertActiveBookmarks db account snapshot).bookmark account item.postId = _ :=
    activatedItem db (itemsNodup db snapshot) member
  refine ⟨id,?_⟩
  have staged : db.Staged snapshot item.postId := Database.stagedItem.mpr ⟨item,member,rfl⟩
  have same := congrArg Prod.snd (Table.findKey found)
  rw [recordedAbsent,found,Option.map_some]
  generalize (db.bookmark account item.postId).elim _ (resaved item) = row at same
  have kept : ¬absent (upsertActiveBookmarks db account snapshot) account snapshot row = true := by
    rw [absentIff,upsertedStaged,show row.postId = item.postId from same]
    exact fun h => h.2.2 staged
  rw [if_neg kept]

theorem swappedUnstaged (db : Database) {account snapshot t post} (unstaged : ¬db.Staged snapshot post) :
    (swapped db account snapshot t).1.bookmark account post =
      (db.bookmark account post).map (fun b => if b.observedRemovedAt = none then struck snapshot t b else b) := by
  have before : (upsertActiveBookmarks db account snapshot).bookmark account post = db.bookmark account post :=
    activatedOther db (by
      intro i member same
      exact unstaged (Database.stagedItem.mpr ⟨i,member,congrArg Prod.snd same⟩))
  rw [recordedAbsent,before]
  cases found : db.bookmark account post with
  | none => rfl
  | some b =>
    have keyed := Table.findKey found
    have owner : b.accountId = account := congrArg Prod.fst keyed
    have same : b.postId = post := congrArg Prod.snd keyed
    have exactly : absent (upsertActiveBookmarks db account snapshot) account snapshot b = true ↔
        b.observedRemovedAt = none := by
      rw [absentIff,upsertedStaged,same]
      simp [owner,unstaged]
    simp only [Option.map_some,exactly]

theorem selectedCount {db : Database} (account) {p : Bookmark → Bool} {posts : Finset Uuid}
    (owned : ∀ b, p b = true → b.accountId = account)
    (exactly : ∀ post, post ∈ posts ↔ ∃ b, db.bookmark account post = some b ∧ p b = true) :
    (db.bookmarks.rows.filter p).length = posts.card := by
  have same : ((db.bookmarks.rows.filter p).map Bookmark.postId).toFinset = posts := by
    ext post
    rw [List.mem_toFinset,selectedPosts owned,exactly]
  rw [← same,List.toFinset_card_of_nodup (selectedNodup owned),List.length_map]

theorem itemsCount {db : Database} {snapshot} {p : SnapshotItem → Bool} {posts : Finset Uuid}
    (exactly : ∀ post, post ∈ posts ↔ ∃ i ∈ db.itemsOf snapshot, i.postId = post ∧ p i = true) :
    ((db.itemsOf snapshot).filter p).length = posts.card := by
  have same : (((db.itemsOf snapshot).filter p).map SnapshotItem.postId).toFinset = posts := by
    ext post
    simp only [List.mem_toFinset,List.mem_map,List.mem_filter,exactly]
    constructor
    · rintro ⟨i,⟨member,selected⟩,same⟩
      exact ⟨i,member,same,selected⟩
    · rintro ⟨i,member,same,selected⟩
      exact ⟨i,⟨member,selected⟩,same⟩
  have distinct : (((db.itemsOf snapshot).filter p).map SnapshotItem.postId).Nodup :=
    (itemsNodup db snapshot).sublist (List.Sublist.map _ List.filter_sublist)
  rw [← same,List.toFinset_card_of_nodup distinct,List.length_map]

theorem matchedActive {db : Database} {account} {i : SnapshotItem} :
    db.bookmarks.rows.any (activeMatch account i) = true ↔ db.Active account i.postId := by
  simp only [List.any_eq_true,activeMatch,Bool.and_eq_true,decide_eq_true_eq]
  constructor
  · rintro ⟨b,member,⟨owner,same⟩,active⟩
    exact ⟨b,Table.findIff.mpr ⟨member,by rw [← owner,← same]⟩,active⟩
  · rintro ⟨b,found,active⟩
    obtain ⟨member,keyed⟩ := Table.findIff.mp found
    exact ⟨b,member,⟨congrArg Prod.fst keyed,congrArg Prod.snd keyed⟩,active⟩

theorem addedExact (db : Database) (account snapshot) :
    addedCount db account snapshot = (stagedSet db snapshot \ activeSet db account).card := by
  refine itemsCount ?_
  intro post
  rw [Finset.mem_sdiff,memStaged,memActive,Database.stagedItem]
  constructor
  · rintro ⟨⟨i,member,rfl⟩,inactive⟩
    exact ⟨i,member,rfl,by rw [Bool.not_eq_true',← Bool.not_eq_true,matchedActive]; exact inactive⟩
  · rintro ⟨i,member,rfl,unmatched⟩
    rw [Bool.not_eq_true',← Bool.not_eq_true,matchedActive] at unmatched
    exact ⟨⟨i,member,rfl⟩,unmatched⟩

theorem joinedRows (db : Database) (account) (i : SnapshotItem) :
    (db.bookmarks.rows.filter (activeMatch account i)).length =
      if db.bookmarks.rows.any (activeMatch account i) then 1 else 0 := by
  split
  · rename_i matched
    obtain ⟨b,found,active⟩ := matchedActive.mp matched
    have single : (db.bookmarks.rows.filter (activeMatch account i)).length = ({i.postId} : Finset Uuid).card := by
      refine selectedCount account (by simp +contextual [activeMatch]) ?_
      intro post
      rw [Finset.mem_singleton]
      constructor
      · rintro rfl
        have keyed := Table.findKey found
        exact ⟨b,found,by simp_all [activeMatch]⟩
      · rintro ⟨c,other,selected⟩
        have keyed : c.postId = post := congrArg Prod.snd (Table.findKey other)
        rw [← keyed]
        simp only [activeMatch,Bool.and_eq_true,decide_eq_true_eq] at selected
        exact selected.1.2
    simpa using single
  · rename_i unmatched
    simpa using unmatched

theorem retainedExact (db : Database) (account snapshot) :
    retainedCount db account snapshot = (stagedSet db snapshot ∩ activeSet db account).card := by
  have joined : retainedCount db account snapshot =
      ((db.itemsOf snapshot).filter (fun i => db.bookmarks.rows.any (activeMatch account i))).length := by
    unfold retainedCount
    induction db.itemsOf snapshot with
    | nil => rfl
    | cons i rest ih =>
      rw [List.flatMap_cons,List.length_append,ih,joinedRows,List.filter_cons]
      split <;> simp [Nat.add_comm]
  rw [joined]
  refine itemsCount ?_
  intro post
  rw [Finset.mem_inter,memStaged,memActive,Database.stagedItem]
  constructor
  · rintro ⟨⟨i,member,rfl⟩,active⟩
    exact ⟨i,member,rfl,matchedActive.mpr active⟩
  · rintro ⟨i,member,rfl,matched⟩
    exact ⟨⟨i,member,rfl⟩,matchedActive.mp matched⟩

theorem absentRow {db : Database} {account snapshot post b} :
    (upsertActiveBookmarks db account snapshot).bookmark account post = some b ∧
      absent (upsertActiveBookmarks db account snapshot) account snapshot b = true ↔
    db.bookmark account post = some b ∧ b.observedRemovedAt = none ∧ ¬db.Staged snapshot post := by
  have before : ¬db.Staged snapshot post →
      (upsertActiveBookmarks db account snapshot).bookmark account post = db.bookmark account post := by
    intro unstaged
    refine activatedOther db ?_
    intro i member same
    exact unstaged (Database.stagedItem.mpr ⟨i,member,congrArg Prod.snd same⟩)
  rw [absentIff,upsertedStaged]
  constructor
  · rintro ⟨found,_,active,unstaged⟩
    rw [show b.postId = post from congrArg Prod.snd (Table.findKey found)] at unstaged
    exact ⟨by rw [← before unstaged]; exact found,active,unstaged⟩
  · rintro ⟨found,active,unstaged⟩
    have keyed := Table.findKey found
    refine ⟨by rw [before unstaged]; exact found,congrArg Prod.fst keyed,active,?_⟩
    rw [show b.postId = post from congrArg Prod.snd keyed]
    exact unstaged

theorem removedExact (db : Database) (account snapshot t) :
    (swapped db account snapshot t).2 = (activeSet db account \ stagedSet db snapshot).card := by
  refine selectedCount account (fun b h => (absentIff.mp h).1) ?_
  intro post
  rw [Finset.mem_sdiff,memStaged,memActive]
  constructor
  · rintro ⟨⟨b,found,active⟩,unstaged⟩
    exact ⟨b,absentRow.mpr ⟨found,active,unstaged⟩⟩
  · rintro ⟨b,h⟩
    obtain ⟨found,active,unstaged⟩ := absentRow.mp h
    exact ⟨⟨b,found,active⟩,unstaged⟩

/- A statement on operations and their audit log leaves every other table alone. -/
def OperationsOnly (db after : Database) : Prop :=
  ∃ table claims events, after = {db with operations := table, operationClaims := claims, auditEvents := events}

theorem OperationsOnly.trans {a b c} (first : OperationsOnly a b) (second : OperationsOnly b c) :
    OperationsOnly a c := by
  obtain ⟨_,_,_,rfl⟩ := first
  obtain ⟨_,_,_,rfl⟩ := second
  exact ⟨_,_,_,rfl⟩

theorem OperationsOnly.audit {db after} (h : AuditOnly db after) : OperationsOnly db after := by
  obtain ⟨events,rfl⟩ := h
  exact ⟨_,_,_,rfl⟩

theorem OperationsOnly.update (db : Database) (p f keeps claims) :
    OperationsOnly db (db.updateOperations p f keeps claims) := ⟨_,_,_,rfl⟩

theorem reconcileOperationOnly (snapshot t db selected) :
    OperationsOnly db (reconcileOperation snapshot t db selected) :=
  (OperationsOnly.update ..).trans (.audit (joinedAuditOnly ..))

theorem settledOnly (snapshot t) (selected : List (Operation × Bool)) (db) :
    OperationsOnly db (selected.foldl (reconcileOperation snapshot t) db) := by
  induction selected generalizing db with
  | nil => exact ⟨_,_,_,rfl⟩
  | cons head rest ih => exact (reconcileOperationOnly snapshot t db head).trans (ih _)

theorem reconcileOperationFind (snapshot t db) (selected : Operation × Bool) (id) :
    (reconcileOperation snapshot t db selected).operations.find id = (db.operations.find id).map
      (fun o => if o.id = selected.1.id && o.status = .uncertain then
        settledRow t selected.2 selected.1.action o else o) := by
  unfold reconcileOperation
  obtain ⟨events,same⟩ := joinedAuditOnly (db.updateOperations
    (fun o => o.id = selected.1.id && o.status = .uncertain) (settledRow t selected.2 selected.1.action)
    (fun _ => rfl) (fun _ => rfl)) selected.1.id t
    [(.snapshotReconciled,[("snapshot_id",.identity snapshot),
      ("result",.text (statusName (reconciledStatus selected.1.action selected.2)))])] Operation.providerRequestId
  simp only [same]
  exact Database.operationUpdate db _ (settledRow t selected.2 selected.1.action) (fun _ => rfl) (fun _ => rfl) id

theorem settledOther {snapshot t id} {selected : List (Operation × Bool)} (db : Database)
    (other : ∀ s ∈ selected, s.1.id ≠ id) :
    (selected.foldl (reconcileOperation snapshot t) db).operations.find id = db.operations.find id := by
  induction selected generalizing db with
  | nil => rfl
  | cons head rest ih =>
    rw [List.foldl_cons,ih _ (fun s member => other s (List.mem_cons_of_mem _ member)),reconcileOperationFind]
    cases found : db.operations.find id with
    | none => rfl
    | some o =>
      have different : o.id ≠ head.1.id := by
        rw [Table.findKey found]
        exact (other head (by simp)).symm
      simp [different]

theorem settledSelected {snapshot t} {selected : List (Operation × Bool)} {o present} (db : Database)
    (distinct : (selected.map (fun s => s.1.id)).Nodup) (member : (o,present) ∈ selected)
    (found : db.operations.find o.id = some o) (uncertain : o.status = .uncertain) :
    (selected.foldl (reconcileOperation snapshot t) db).operations.find o.id =
      some (settledRow t present o.action o) := by
  induction selected generalizing db with
  | nil => simp at member
  | cons head rest ih =>
    obtain ⟨fresh,distinct⟩ := List.nodup_cons.mp distinct
    rw [List.foldl_cons]
    rcases List.mem_cons.mp member with rfl | inside
    · rw [settledOther _ (by
        intro s mem same
        exact fresh (List.mem_map.mpr ⟨s,mem,same⟩)),reconcileOperationFind,found]
      simp [uncertain]
    · refine ih _ distinct inside ?_
      have different : o.id ≠ head.1.id := by
        intro same
        exact fresh (List.mem_map.mpr ⟨(o,present),inside,same⟩)
      rw [reconcileOperationFind,found]
      simp [different]

/- The operations of the account that stand uncertain, each with the answer of its exists subquery. -/
def settle (db : Database) (account snapshot : Uuid) (t : DateTime) (o : Operation) : Operation :=
  if o.accountId = account ∧ o.status = .uncertain then settledRow t (presentIn db snapshot o) o.action o else o

theorem uncertainDistinct (db account snapshot) :
    ((uncertainOf db account snapshot).map (fun s => s.1.id)).Nodup := by
  unfold uncertainOf
  rw [List.map_map]
  exact (db.operations.unique).sublist (List.Sublist.map _ List.filter_sublist)

theorem settledOperation (db account snapshot t id) :
    (reconcileUncertainBookmarkWrites db account snapshot t).operations.find id =
      (db.operations.find id).map (settle db account snapshot t) := by
  unfold reconcileUncertainBookmarkWrites
  cases found : db.operations.find id with
  | none =>
    rw [settledOther db,found]
    · rfl
    · rintro s member rfl
      obtain ⟨o,inside,rfl⟩ := List.mem_map.mp member
      rw [Table.findMem (List.mem_filter.mp inside).1] at found
      simp at found
  | some o =>
    obtain ⟨inside,rfl⟩ := Table.findIff.mp found
    by_cases selected : o.accountId = account ∧ o.status = .uncertain
    · have member : (o,presentIn db snapshot o) ∈ uncertainOf db account snapshot :=
        List.mem_map.mpr ⟨o,List.mem_filter.mpr ⟨inside,by simp [selected]⟩,rfl⟩
      rw [settledSelected db (uncertainDistinct db account snapshot) member found selected.2]
      simp [settle,selected]
    · rw [settledOther db,found]
      · simp [settle,selected]
      · rintro s member same
        obtain ⟨other,kept,rfl⟩ := List.mem_map.mp member
        obtain ⟨mem,chosen⟩ := List.mem_filter.mp kept
        rw [db.operations.sameRow mem inside same] at chosen
        exact selected (by simpa using chosen)

theorem recordAbsentOnly (db : Database) (account snapshot t) :
    ∃ table ids repairs, (recordAbsentBookmarks db account snapshot t).1 =
      {db with bookmarks := table, bookmarkIds := ids, repairs := repairs} := by
  obtain ⟨repairs,recorded⟩ := repairsOnly snapshot (db.bookmarks.rows.filter (absent db account snapshot))
    (db.updateBookmarks (absent db account snapshot) (struck snapshot t) (fun _ => rfl) (fun _ => rfl))
  exact ⟨_,(db.updateBookmarks (absent db account snapshot) (struck snapshot t) (fun _ => rfl)
    (fun _ => rfl)).bookmarkIds,repairs,recorded⟩

theorem swappedOnly (db : Database) (account snapshot t) :
    ∃ table ids repairs, (swapped db account snapshot t).1 =
      {db with bookmarks := table, bookmarkIds := ids, repairs := repairs} := by
  obtain ⟨_,_,upserted⟩ := upsertedOnly db account snapshot
  obtain ⟨table,ids,repairs,recorded⟩ :=
    recordAbsentOnly (upsertActiveBookmarks db account snapshot) account snapshot t
  refine ⟨table,ids,repairs,recorded.trans ?_⟩
  rw [upserted]

theorem removedRow {db : Database} {account snapshot b} :
    b ∈ (upsertActiveBookmarks db account snapshot).bookmarks.rows.filter
      (absent (upsertActiveBookmarks db account snapshot) account snapshot) ↔
    ∃ post, db.bookmark account post = some b ∧ b.observedRemovedAt = none ∧ ¬db.Staged snapshot post := by
  rw [List.mem_filter]
  constructor
  · rintro ⟨member,selected⟩
    have owner := (absentIff.mp selected).1
    have found : (upsertActiveBookmarks db account snapshot).bookmark account b.postId = some b :=
      Table.findIff.mpr ⟨member,by rw [← owner]⟩
    exact ⟨b.postId,absentRow.mp ⟨found,selected⟩⟩
  · rintro ⟨post,h⟩
    obtain ⟨found,selected⟩ := absentRow.mpr h
    exact ⟨(Table.findIff.mp found).1,selected⟩

theorem swappedRepairs (db : Database) (account snapshot t) :
    ∃ gained, (swapped db account snapshot t).1.repairs.rows = db.repairs.rows ++ gained ∧
    (gained.map Repair.bookmarkId).Nodup ∧
    ∀ r, r ∈ gained ↔ db.repairs.find r.key = none ∧ ∃ post b, db.bookmark account post = some b ∧
      b.observedRemovedAt = none ∧ ¬db.Staged snapshot post ∧ b.lastIncrementalRunId.isSome = true ∧
      r = ⟨snapshot,b.id,.incrementalDrift⟩ := by
  have ids : (((upsertActiveBookmarks db account snapshot).bookmarks.rows.filter
      (absent (upsertActiveBookmarks db account snapshot) account snapshot)).map Bookmark.id).Nodup :=
    (upsertActiveBookmarks db account snapshot).bookmarkIds.sublist (List.Sublist.map _ List.filter_sublist)
  have same : (upsertActiveBookmarks db account snapshot).repairs = db.repairs := by
    obtain ⟨_,_,only⟩ := upsertedOnly db account snapshot
    rw [only]
  have rows : (swapped db account snapshot t).1.repairs.rows =
      (upsertActiveBookmarks db account snapshot).repairs.rows ++ _ :=
    repairsRecorded snapshot _ _ ids
  simp only [Database.updateBookmarks,same] at rows
  refine ⟨_,rows,?_,?_⟩
  · have named : (repairRows snapshot ((upsertActiveBookmarks db account snapshot).bookmarks.rows.filter
        (absent (upsertActiveBookmarks db account snapshot) account snapshot))).map Repair.bookmarkId =
        (((upsertActiveBookmarks db account snapshot).bookmarks.rows.filter
          (absent (upsertActiveBookmarks db account snapshot) account snapshot)).filter
          (fun b => b.lastIncrementalRunId.isSome)).map Bookmark.id := by
      simp only [repairRows,List.map_map]
      rfl
    refine List.Nodup.sublist (List.Sublist.map _ List.filter_sublist) ?_
    rw [named]
    exact ids.sublist (List.Sublist.map _ List.filter_sublist)
  · intro r
    rw [List.mem_filter,repairRows,List.mem_map,and_comm,decide_eq_true_eq]
    refine and_congr_right fun _ => ?_
    constructor
    · rintro ⟨b,member,rfl⟩
      obtain ⟨inside,incremental⟩ := List.mem_filter.mp member
      obtain ⟨post,found,active,unstaged⟩ := removedRow.mp inside
      exact ⟨post,b,found,active,unstaged,incremental,rfl⟩
    · rintro ⟨post,b,found,active,unstaged,incremental,rfl⟩
      exact ⟨b,List.mem_filter.mpr ⟨removedRow.mpr ⟨post,found,active,unstaged⟩,incremental⟩,rfl⟩

theorem completedForm {db account run t after} (ok : completeRun db account run t = .ok after) :
    lockFinalization db account run = true ∧ ∃ statistics : ReconciliationStatistics,
      toI32 (addedCount db account run.snapshotId) = some statistics.added ∧
      toI32 (retainedCount db account run.snapshotId) = some statistics.retained ∧
      toI32 (swapped db account run.snapshotId t).2 = some statistics.removed ∧
      after = replaceAuthority (clearFullSnapshotRequirement (recordCompletion
        (reconcileUncertainBookmarkWrites (swapped db account run.snapshotId t).1 account run.snapshotId t)
        run.id run.snapshotId t statistics) account t) account run.snapshotId t := by
  unfold completeRun at ok
  split at ok
  · rename_i locked
    split at ok
    · simp at ok
    · rename_i reconciled statistics found
      simp only [reconcileBookmarks,bind,Option.bind_eq_some_iff,Option.some.injEq,Prod.mk.injEq] at found
      obtain ⟨added,ha,retained,hr,removed,hm,rfl,rfl⟩ := found
      exact ⟨locked,_,ha,hr,hm,(Except.ok.inj ok).symm⟩
  · simp at ok

theorem lockedRows {db account run} (locked : lockFinalization db account run = true) :
    ∃ snapshot row, db.snapshots.find run.snapshotId = some snapshot ∧ db.syncRuns.find run.id = some row ∧
      snapshot.syncRunId = run.id ∧ row.accountId = account ∧ snapshot.complete = false ∧
      row.state = .running := by
  unfold lockFinalization at locked
  split at locked
  · rename_i snapshot row hs hr
    exact ⟨snapshot,row,hs,hr,by simpa using locked⟩
  · simp at locked

section Committed
variable {db account run t after} (ok : completeRun db account run t = .ok after)
include ok

theorem committedRows : ∃ snapshot row, db.snapshots.find run.snapshotId = some snapshot ∧
    db.syncRuns.find run.id = some row ∧ snapshot.syncRunId = run.id ∧ row.accountId = account ∧
    snapshot.complete = false ∧ row.state = .running :=
  lockedRows (completedForm ok).1

theorem committedForm : ∃ statistics bookmarks ids repairs operations claims events,
    after = replaceAuthority (clearFullSnapshotRequirement (recordCompletion
      {db with
        bookmarks := bookmarks, bookmarkIds := ids, repairs := repairs, operations := operations,
        operationClaims := claims, auditEvents := events} run.id run.snapshotId t statistics) account t) account
      run.snapshotId t ∧
    bookmarks = (swapped db account run.snapshotId t).1.bookmarks ∧
    repairs = (swapped db account run.snapshotId t).1.repairs ∧
    operations = (reconcileUncertainBookmarkWrites (swapped db account run.snapshotId t).1 account
      run.snapshotId t).operations ∧
    statistics.added = (stagedSet db run.snapshotId \ activeSet db account).card ∧
    statistics.retained = (stagedSet db run.snapshotId ∩ activeSet db account).card ∧
    statistics.removed = (activeSet db account \ stagedSet db run.snapshotId).card := by
  obtain ⟨_,statistics,added,retained,removed,form⟩ := completedForm ok
  obtain ⟨table,ids,repairs,bookmarked⟩ := swappedOnly db account run.snapshotId t
  obtain ⟨operations,claims,events,operated⟩ := settledOnly run.snapshotId t
    (uncertainOf (swapped db account run.snapshotId t).1 account run.snapshotId)
    (swapped db account run.snapshotId t).1
  have fits : ∀ {n : Nat} {i}, toI32 n = some i → i = n := by
    intro n i h
    unfold toI32 at h
    split at h
    · exact (Option.some.inj h).symm
    · simp at h
  rw [addedExact] at added
  rw [retainedExact] at retained
  rw [removedExact] at removed
  have settled : reconcileUncertainBookmarkWrites (swapped db account run.snapshotId t).1 account
      run.snapshotId t = {db with
        bookmarks := table, bookmarkIds := ids, repairs := repairs, operations := operations,
        operationClaims := claims, auditEvents := events} := by
    unfold reconcileUncertainBookmarkWrites
    rw [operated,bookmarked]
  refine ⟨statistics,table,ids,repairs,operations,claims,events,?_,?_,?_,?_,fits added,fits retained,fits removed⟩
  · rw [form,settled]
  · rw [bookmarked]
  · rw [bookmarked]
  · rw [settled]

theorem committedBookmark (a post) :
    after.bookmark a post = (swapped db account run.snapshotId t).1.bookmark a post := by
  obtain ⟨_,_,_,_,_,_,_,rfl,rfl,_⟩ := committedForm ok
  rfl

theorem committedItems : after.snapshotItems = db.snapshotItems := by
  obtain ⟨_,_,_,_,_,_,_,rfl,_⟩ := committedForm ok
  rfl

theorem committedPosts : after.posts = db.posts := by
  obtain ⟨_,_,_,_,_,_,_,rfl,_⟩ := committedForm ok
  rfl

theorem committedRun : ∃ statistics : ReconciliationStatistics,
    statistics.added = (stagedSet db run.snapshotId \ activeSet db account).card ∧
    statistics.retained = (stagedSet db run.snapshotId ∩ activeSet db account).card ∧
    statistics.removed = (activeSet db account \ stagedSet db run.snapshotId).card ∧
    ∀ id, after.syncRuns.find id = (db.syncRuns.find id).map
      (fun r => if r.id = run.id then finishedRow t statistics r else r) := by
  obtain ⟨statistics,_,_,_,_,_,_,rfl,_,_,_,added,retained,removed⟩ := committedForm ok
  refine ⟨statistics,added,retained,removed,?_⟩
  intro id
  have found := Table.findUpdate db.syncRuns (fun r => r.id = run.id) (finishedRow t statistics)
    (fun _ => rfl) id
  simp only [decide_eq_true_eq] at found
  exact found

theorem committedSnapshot : ∃ row, db.syncRuns.find run.id = some row ∧
    ∀ id, after.snapshots.find id = (db.snapshots.find id).map
      (fun s => if s.id = run.snapshotId then sealedRow t row.pagesFetched s else s) := by
  obtain ⟨_,row,_,found,_⟩ := committedRows ok
  obtain ⟨statistics,_,_,_,_,_,_,rfl,_⟩ := committedForm ok
  refine ⟨row,found,?_⟩
  intro id
  have pages := Table.findUpdate db.syncRuns (fun r => r.id = run.id) (finishedRow t statistics)
    (fun _ => rfl) run.id
  rw [found,Option.map_some,if_pos (by simpa using Table.findKey found)] at pages
  simp only [replaceAuthority,clearFullSnapshotRequirement,recordCompletion,updateRun,pages,Option.map_some,
    Option.getD_some]
  rw [Table.findUpdate]
  simp only [decide_eq_true_eq]

theorem committedOperation (id) :
    after.operations.find id = (db.operations.find id).map (settle db account run.snapshotId t) := by
  obtain ⟨_,_,_,_,_,_,_,rfl,_,_,operated,_⟩ := committedForm ok
  obtain ⟨_,_,_,bookmarked⟩ := swappedOnly db account run.snapshotId t
  have found := settledOperation (swapped db account run.snapshotId t).1 account run.snapshotId t id
  rw [← operated,bookmarked] at found
  exact found

theorem committedAuthority (a) : after.snapshotAuthority.find a =
    if account = a then some ⟨account,run.snapshotId,t⟩ else db.snapshotAuthority.find a := by
  obtain ⟨_,_,_,_,_,_,_,rfl,_⟩ := committedForm ok
  have found := Table.findUpsert db.snapshotAuthority ⟨account,run.snapshotId,t⟩
    (fun a => {a with snapshotId := run.snapshotId, updatedAt := t}) (fun _ => rfl) a
  refine Eq.trans found ?_
  split
  · rename_i same
    cases old : db.snapshotAuthority.find a with
    | none => rfl
    | some row =>
      have keyed : row.accountId = a := Table.findKey old
      simp [keyed,← same]
  · rfl

theorem committedActive (post) : after.Active account post ↔ db.Staged run.snapshotId post := by
  by_cases staged : db.Staged run.snapshotId post
  · obtain ⟨item,member,rfl⟩ := Database.stagedItem.mp staged
    obtain ⟨id,found⟩ := swappedStaged db member
    simp only [staged,iff_true]
    refine ⟨_,(committedBookmark ok _ _).trans found,?_⟩
    cases db.bookmark account item.postId <;> rfl
  · simp only [staged,iff_false]
    rintro ⟨b,found,active⟩
    rw [committedBookmark ok,swappedUnstaged db staged] at found
    obtain ⟨old,_,rfl⟩ := Option.map_eq_some_iff.mp found
    split at active
    · simp at active
    · contradiction

theorem committedOther {a post} (other : a ≠ account) : after.bookmark a post = db.bookmark a post :=
  (committedBookmark ok a post).trans (swappedOther db other)

theorem committedKept {a post b} (found : db.bookmark a post = some b) :
    ∃ c, after.bookmark a post = some c ∧ c.id = b.id ∧ c.firstObservedSavedAt = b.firstObservedSavedAt := by
  by_cases mine : a = account
  · subst mine
    by_cases staged : db.Staged run.snapshotId post
    · obtain ⟨item,member,rfl⟩ := Database.stagedItem.mp staged
      obtain ⟨id,swap⟩ := swappedStaged db member
      rw [found] at swap
      exact ⟨_,(committedBookmark ok _ _).trans swap,rfl,rfl⟩
    · have swap : (swapped db a run.snapshotId t).1.bookmark a post = _ := swappedUnstaged db staged
      rw [found] at swap
      refine ⟨_,(committedBookmark ok _ _).trans swap,?_⟩
      by_cases active : b.observedRemovedAt = none <;> simp [active]
  · exact ⟨b,(committedOther ok mine).trans found,rfl,rfl⟩

theorem committedStruck {post b} (found : db.bookmark account post = some b)
    (active : b.observedRemovedAt = none) (unstaged : ¬db.Staged run.snapshotId post) :
    after.bookmark account post = some (struck run.snapshotId t b) := by
  rw [committedBookmark ok,swappedUnstaged db unstaged,found,Option.map_some,if_pos active]

theorem committedRepairs : ∃ gained, after.repairs.rows = db.repairs.rows ++ gained ∧
    (gained.map Repair.bookmarkId).Nodup ∧
    ∀ r, r ∈ gained ↔ db.repairs.find r.key = none ∧ ∃ post b, db.bookmark account post = some b ∧
      b.observedRemovedAt = none ∧ ¬db.Staged run.snapshotId post ∧ b.lastIncrementalRunId.isSome = true ∧
      r = ⟨run.snapshotId,b.id,.incrementalDrift⟩ := by
  obtain ⟨_,_,_,_,_,_,_,rfl,_,repaired,_⟩ := committedForm ok
  obtain ⟨gained,rows,distinct,exactly⟩ := swappedRepairs db account run.snapshotId t
  exact ⟨gained,by rw [← rows,← repaired]; rfl,distinct,exactly⟩

end Committed

/- Every archive that a run of the services reaches satisfies this, as repairsSettled
shows over the schedules. -/
def RepairsSettled (db : Database) : Prop :=
  ∀ r ∈ db.repairs.rows, ∃ s, db.snapshots.find r.snapshotId = some s ∧ s.complete = true

theorem unrecorded {db account run t after} (ok : completeRun db account run t = .ok after)
    (settled : RepairsSettled db) (bookmark) : db.repairs.find (run.snapshotId,bookmark) = none := by
  cases found : db.repairs.find (run.snapshotId,bookmark) with
  | none => rfl
  | some r =>
    obtain ⟨member,keyed⟩ := Table.findIff.mp found
    obtain ⟨s,complete,yes⟩ := settled r member
    obtain ⟨other,_,incomplete,_,_,_,no,_⟩ := committedRows ok
    rw [show r.snapshotId = run.snapshotId from congrArg Prod.fst keyed,incomplete] at complete
    cases complete
    rw [no] at yes
    contradiction

def Drifted (db : Database) (account : Uuid) (run : Run) (r : Repair) : Prop :=
  ∃ post ∈ activeSet db account \ stagedSet db run.snapshotId, ∃ b,
    db.bookmark account post = some b ∧ b.lastIncrementalRunId.isSome = true ∧
    r = ⟨run.snapshotId,b.id,.incrementalDrift⟩

/- The contract of one committed completion, against the archive it started from. -/
structure ExactlyReconciled (db : Database) (account : Uuid) (run : Run) (t : DateTime) (after : Database) :
    Prop where
  current : activeSet after account = stagedSet db run.snapshotId
  recorded : ∃ row, after.syncRuns.find run.id = some row ∧
    row.addedCount = (stagedSet db run.snapshotId \ activeSet db account).card ∧
    row.retainedCount = (stagedSet db run.snapshotId ∩ activeSet db account).card ∧
    row.removedCount = (activeSet db account \ stagedSet db run.snapshotId).card
  kept : ∀ a post b, db.bookmark a post = some b →
    ∃ c, after.bookmark a post = some c ∧ c.id = b.id ∧ c.firstObservedSavedAt = b.firstObservedSavedAt
  removed : ∀ post ∈ activeSet db account \ stagedSet db run.snapshotId, ∃ b,
    db.bookmark account post = some b ∧ after.bookmark account post =
      some {b with observedRemovedAt := some t, observedRemovedSnapshotId := some run.snapshotId}
  others : ∀ a post, a ≠ account → after.bookmark a post = db.bookmark a post
  repaired : ∃ gained, after.repairs.rows = db.repairs.rows ++ gained ∧ (gained.map Repair.bookmarkId).Nodup ∧
    (∀ r, r ∈ gained ↔ db.repairs.find r.key = none ∧ Drifted db account run r) ∧
    (RepairsSettled db → ∀ r, r ∈ gained ↔ Drifted db account run r)

/-- A completion that commits reconciles exactly; one whose counts leave i32 is refused. -/
theorem exactReconciliation (db : Database) (account : Uuid) (run : Run) (t : DateTime) :
    (∀ after, completeRun db account run t = .ok after → ExactlyReconciled db account run t after) ∧
    (lockFinalization db account run = true →
      (maxI32 < (stagedSet db run.snapshotId \ activeSet db account).card ∨
        maxI32 < (stagedSet db run.snapshotId ∩ activeSet db account).card ∨
        maxI32 < (activeSet db account \ stagedSet db run.snapshotId).card) →
      completeRun db account run t = .error .statisticsOverflow) := by
  constructor
  · intro after ok
    have difference : ∀ {post}, post ∈ activeSet db account \ stagedSet db run.snapshotId ↔
        db.Active account post ∧ ¬db.Staged run.snapshotId post := by
      intro post
      rw [Finset.mem_sdiff,memActive,memStaged]
    constructor
    case current =>
      ext post
      rw [memActive,memStaged]
      exact committedActive ok post
    case recorded =>
      obtain ⟨_,row,_,found,_⟩ := committedRows ok
      obtain ⟨statistics,added,retained,removed,rows⟩ := committedRun ok
      refine ⟨finishedRow t statistics row,?_,added,retained,removed⟩
      rw [rows,found,Option.map_some,if_pos (Table.findKey found)]
    case kept => exact fun a post b found => committedKept ok found
    case removed =>
      intro post member
      obtain ⟨⟨b,found,active⟩,unstaged⟩ := difference.mp member
      exact ⟨b,found,committedStruck ok found active unstaged⟩
    case others => exact fun a post other => committedOther ok other
    case repaired =>
      obtain ⟨gained,rows,distinct,exactly⟩ := committedRepairs ok
      have drifted : ∀ r, r ∈ gained ↔ db.repairs.find r.key = none ∧ Drifted db account run r := by
        intro r
        rw [exactly]
        refine and_congr_right fun _ => ?_
        constructor
        · rintro ⟨post,b,found,active,unstaged,incremental,same⟩
          exact ⟨post,difference.mpr ⟨⟨b,found,active⟩,unstaged⟩,b,found,incremental,same⟩
        · rintro ⟨post,member,b,found,incremental,same⟩
          obtain ⟨⟨c,again,active⟩,unstaged⟩ := difference.mp member
          cases again.symm.trans found
          exact ⟨post,b,found,active,unstaged,incremental,same⟩
      refine ⟨gained,rows,distinct,drifted,?_⟩
      intro settled r
      rw [drifted]
      refine and_iff_right_of_imp ?_
      rintro ⟨_,_,b,_,_,rfl⟩
      exact unrecorded ok settled b.id
  · intro locked excess
    have overflow : ∀ {n : Nat}, maxI32 < n → toI32 n = none := by
      intro n h
      simp [toI32,h]
    unfold completeRun
    rw [if_pos locked]
    rw [← addedExact,← retainedExact,← removedExact db account run.snapshotId t] at excess
    have refused : reconcileBookmarks db account run t = none := by
      unfold reconcileBookmarks
      rcases excess with h | h | h
      · simp [overflow h]
      · simp [overflow h]
      · simp [show toI32 (recordAbsentBookmarks _ _ _ _).2 = none from overflow h]
    rw [refused]

end RatatoskrX.Reconciliation
