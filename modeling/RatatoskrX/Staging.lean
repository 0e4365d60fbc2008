import RatatoskrX.Schedule

/-! What the staged items of a snapshot are: the posts of the pages that were staged
for it, and nothing else. A staged page is read back from the log, which keeps the
token it was fetched with and the length of the log at the fetch. -/
namespace RatatoskrX.Staging
open Outcome Relational Schema Snapshot Journal Frames SyncCalls Schedule Transition

theorem upsertPostId (db : Database) (providerId) :
    (upsertPost db providerId).1.postId providerId = some (upsertPost db providerId).2 := by
  unfold upsertPost Database.postId
  split
  · rename_i post found
    rw [found]
    rfl
  · rw [Table.findAppend]
    simp

theorem upsertPostKeeps (db : Database) (providerId) {other id} (known : db.postId other = some id) :
    (upsertPost db providerId).1.postId other = some id := by
  unfold upsertPost
  split
  · exact known
  · rename_i fresh
    simp only [Database.postId] at known ⊢
    rw [Table.findAppend]
    split
    · rename_i same
      rw [← same] at known
      simp [fresh] at known
    · exact known

theorem persistKeeps (providerIds : List String) (db : Database) {other id} (known : db.postId other = some id) :
    (persistPosts db providerIds).1.postId other = some id := by
  induction providerIds generalizing db with
  | nil => exact known
  | cons providerId rest ih => exact ih _ (upsertPostKeeps db providerId known)

theorem persistKnown {providerIds : List String} (db : Database) {providerId} (member : providerId ∈ providerIds) :
    ∃ post, (persistPosts db providerIds).1.postId providerId = some post := by
  induction providerIds generalizing db with
  | nil => simp at member
  | cons head rest ih =>
    rcases List.mem_cons.mp member with rfl | inside
    · exact ⟨_,persistKeeps rest _ (upsertPostId db _)⟩
    · exact ih _ inside

theorem persistMap (providerIds : List String) (db : Database) (providerId post) :
    (providerId,post) ∈ (persistPosts db providerIds).2 ↔
      providerId ∈ providerIds ∧ (persistPosts db providerIds).1.postId providerId = some post := by
  induction providerIds generalizing db providerId post with
  | nil => simp [persistPosts]
  | cons head rest ih =>
    have here := upsertPostId db head
    have kept := persistKeeps rest _ here
    have later := ih (upsertPost db head).1 providerId post
    simp only [persistPosts]
    split
    · rename_i again
      obtain ⟨⟨_,known⟩,inside,rfl⟩ := List.mem_map.mp again
      have member := ((ih ..).mp inside).1
      rw [later,List.mem_cons]
      constructor
      · exact fun h => ⟨.inr h.1,h.2⟩
      · rintro ⟨rfl | other,named⟩
        · exact ⟨member,named⟩
        · exact ⟨other,named⟩
    · rw [List.mem_cons,later,List.mem_cons]
      constructor
      · rintro (same | ⟨other,named⟩)
        · cases same
          exact ⟨.inl rfl,kept⟩
        · exact ⟨.inr other,named⟩
      · rintro ⟨rfl | other,named⟩
        · rw [kept] at named
          cases Option.some.inj named
          exact .inl rfl
        · exact .inr ⟨other,named⟩

/- The posts that a page shows, as rows of the archive. -/
def Shown (db : Database) (providerIds : List String) (post : Uuid) : Prop :=
  ∃ providerId ∈ providerIds, db.postId providerId = some post

theorem persistShown {providerIds : List String} {db : Database} {post} :
    post ∈ (persistPosts db providerIds).2.map Prod.snd ↔ Shown (persistPosts db providerIds).1 providerIds post := by
  rw [List.mem_map]
  constructor
  · rintro ⟨⟨providerId,_⟩,inside,rfl⟩
    obtain ⟨member,named⟩ := (persistMap ..).mp inside
    exact ⟨providerId,member,named⟩
  · rintro ⟨providerId,member,named⟩
    exact ⟨(providerId,post),(persistMap ..).mpr ⟨member,named⟩,rfl⟩

abbrev stageRow (t : DateTime) (snapshot : Uuid) (items : Table SnapshotItem SnapshotItem.key) (post : Uuid) :
    Table SnapshotItem SnapshotItem.key :=
  items.upsert ⟨snapshot,post,t⟩ (fun i => {i with observedAt := t}) (SnapshotItem.observedKey t)

theorem stageRowFind (t snapshot) (items : Table SnapshotItem SnapshotItem.key) (post s x) :
    (stageRow t snapshot items post).find (s,x) =
      if snapshot = s ∧ post = x then some ⟨s,x,t⟩ else items.find (s,x) := by
  have found := Table.findUpsert items ⟨snapshot,post,t⟩ (fun i => {i with observedAt := t}) (fun _ => rfl) (s,x)
  refine found.trans ?_
  by_cases same : snapshot = s ∧ post = x
  · obtain ⟨rfl,rfl⟩ := same
    rw [if_pos rfl,if_pos ⟨rfl,rfl⟩]
    cases old : items.find (snapshot,post) with
    | none => rfl
    | some i =>
      have keyed := Table.findKey old
      obtain ⟨_,_,_⟩ := i
      cases keyed
      rfl
  · rw [if_neg same,if_neg (by simpa using same)]

theorem stageRowsFind (t snapshot) (posts : List Uuid) (items : Table SnapshotItem SnapshotItem.key) (s x) :
    (posts.foldl (stageRow t snapshot) items).find (s,x) =
      if snapshot = s ∧ x ∈ posts then some ⟨s,x,t⟩ else items.find (s,x) := by
  induction posts generalizing items with
  | nil => simp
  | cons head rest ih =>
    rw [List.foldl_cons,ih,stageRowFind]
    by_cases mine : snapshot = s
    · by_cases later : x ∈ rest
      · simp [mine,later]
      · by_cases here : head = x
        · simp [mine,here]
        · have other : ¬x = head := fun h => here h.symm
          simp [mine,later,here,other]
    · simp [mine]

theorem stageItemsFind (t snapshot) (posts : List Uuid) (db : Database) (s x) :
    (posts.foldl (stageItem t snapshot) db).snapshotItems.find (s,x) =
      if snapshot = s ∧ x ∈ posts then some ⟨s,x,t⟩ else db.snapshotItems.find (s,x) := by
  have fold : posts.foldl (stageRow t snapshot) db.snapshotItems = (posts.foldl (stageItem t snapshot) db).snapshotItems :=
    List.foldl_hom Database.snapshotItems (fun _ _ => rfl)
  rw [← fold,stageRowsFind]

theorem stageFolderItemsFind (t snapshot) (posts : List Uuid) (db : Database) (s x) :
    (posts.foldl (Folders.stageItem t snapshot) db).folderSnapshotItems.find (s,x) =
      if snapshot = s ∧ x ∈ posts then some ⟨s,x,t⟩ else db.folderSnapshotItems.find (s,x) := by
  have fold : posts.foldl (stageRow t snapshot) db.folderSnapshotItems = (posts.foldl (Folders.stageItem t snapshot) db).folderSnapshotItems :=
    List.foldl_hom Database.folderSnapshotItems (fun _ _ => rfl)
  rw [← fold,stageRowsFind]

theorem postIdSame {db after : Database} (same : after.posts = db.posts) (providerId) :
    after.postId providerId = db.postId providerId := by
  unfold Database.postId
  rw [same]

theorem stagedPosts (db snapshot) (providerIds : List String) (t) :
    (stagePosts db snapshot providerIds t).posts = (persistPosts db providerIds).1.posts :=
  (Agree.fold (stageItemFrame t snapshot) _ _).posts (by simp)

theorem observedPosts (db account runId) (providerIds : List String) (t) :
    (Incremental.observePosts db account runId providerIds t).posts = (persistPosts db providerIds).1.posts :=
  (Agree.fold (observeFrame account runId t) _ _).posts (by simp)

theorem folderPosts (db snapshot) (providerIds : List String) (t) :
    (Folders.stagePosts db snapshot providerIds t).posts = (persistPosts db providerIds).1.posts :=
  (Agree.fold (stageFolderItemFrame t snapshot) _ _).posts (by simp)

theorem postKeeps {c : Commit} {db after} (applied : c.effect db = some after) {providerId id}
    (known : db.postId providerId = some id) : after.postId providerId = some id := by
  have persisted : ∀ {providerIds : List String}, after.posts = (persistPosts db providerIds).1.posts →
      after.postId providerId = some id :=
    fun same => (postIdSame same providerId).trans (persistKeeps _ db known)
  have agree := frame applied
  cases c with
  | stagePage run page t stamp =>
    obtain ⟨providerIds,items,_,form⟩ := stagedForm (accepted applied)
    exact persisted (by rw [form]; exact stagedPosts ..)
  | observePage account runId page t =>
    obtain ⟨providerIds,items,_,form⟩ := Incremental.observedForm (accepted applied)
    exact persisted (by rw [form]; exact observedPosts ..)
  | stageFolderPage run page t =>
    obtain ⟨providerIds,items,_,form⟩ := Folders.stagedForm (accepted applied)
    exact persisted (by rw [form]; exact folderPosts ..)
  | persistPosts providerIds =>
    cases Option.some.inj applied
    exact persistKeeps providerIds db known
  | _ => exact (postIdSame (agree.posts (by simp [touched])) providerId).trans known

structure Fetch where
  run : Run
  page : BookmarkPage
  observedAt : DateTime
  fetchedAt : Nat
  deriving DecidableEq, Repr

namespace Fetch

def posts (f : Fetch) : List String := f.page.normalized.getD []

def Shows (db : Database) (f : Fetch) (post : Uuid) : Prop := Shown db f.posts post

end Fetch

def fetchOf : Entry → Option Fetch
  | ⟨_,.commit (.stagePage run page observedAt fetchedAt)⟩ => some ⟨run,page,observedAt,fetchedAt⟩
  | _ => none

/- The pages staged for a snapshot so far, in the order of their commits. -/
def fetches (log : List Entry) (snapshot : Uuid) : List Fetch :=
  (log.filterMap fetchOf).filter (fun f => f.run.snapshotId = snapshot)

theorem fetchesAppend (log more : List Entry) (snapshot) :
    fetches (log ++ more) snapshot = fetches log snapshot ++ fetches more snapshot := by
  simp [fetches]

theorem fetchesEntry (log : List Entry) (e : Entry) (snapshot) :
    fetches (log ++ [e]) snapshot = fetches log snapshot ++
      ((fetchOf e).filter (fun f => f.run.snapshotId = snapshot)).toList := by
  rw [fetchesAppend]
  congr 1
  cases found : fetchOf e with
  | none => simp [fetches,found]
  | some f =>
    by_cases mine : f.run.snapshotId = snapshot
    · simp [fetches,found,mine,Option.filter]
    · simp [fetches,found,mine,Option.filter]

theorem fetchEntry {process c snapshot f}
    (member : f ∈ ((fetchOf ⟨process,.commit c⟩).filter (fun f => f.run.snapshotId = snapshot)).toList) :
    c = .stagePage f.run f.page f.observedAt f.fetchedAt ∧ f.run.snapshotId = snapshot := by
  cases c with
  | stagePage run page t stamp =>
    simp only [fetchOf,Option.mem_toList,Option.filter_eq_some_iff,Option.some.injEq] at member
    obtain ⟨rfl,mine⟩ := member
    exact ⟨rfl,by simpa using mine⟩
  | _ => simp [fetchOf] at member

theorem itemAfter {c : Commit} {db after} (applied : c.effect db = some after) (s x) :
    (∃ run page t stamp, c = .stagePage run page t stamp ∧ run.snapshotId = s ∧
      Shown after (page.normalized.getD []) x ∧ after.snapshotItems.find (s,x) = some ⟨s,x,t⟩) ∨
    (after.snapshotItems.find (s,x) = db.snapshotItems.find (s,x) ∧
      ∀ run page t stamp, c = .stagePage run page t stamp → run.snapshotId = s →
        ¬Shown after (page.normalized.getD []) x) := by
  have agree := frame applied
  cases c with
  | stagePage run page t stamp =>
    obtain ⟨providerIds,items,normalized,form⟩ := stagedForm (accepted applied)
    have found : after.snapshotItems.find (s,x) = if run.snapshotId = s ∧
        x ∈ (persistPosts db providerIds).2.map Prod.snd then some ⟨s,x,t⟩ else
        (persistPosts db providerIds).1.snapshotItems.find (s,x) := by
      rw [form]
      exact stageItemsFind ..
    have posts : after.posts = (persistPosts db providerIds).1.posts := by
      rw [form]
      exact stagedPosts ..
    have shown : x ∈ (persistPosts db providerIds).2.map Prod.snd ↔ Shown after (page.normalized.getD []) x := by
      rw [persistShown]
      simp only [Shown,normalized,Option.getD_some,postIdSame posts]
    rw [(persistPostsFrame providerIds db).snapshotItems (by simp)] at found
    by_cases mine : run.snapshotId = s ∧ x ∈ (persistPosts db providerIds).2.map Prod.snd
    · rw [if_pos mine] at found
      exact .inl ⟨run,page,t,stamp,rfl,mine.1,shown.mp mine.2,found⟩
    · rw [if_neg mine] at found
      refine .inr ⟨found,?_⟩
      rintro _ _ _ _ ⟨⟩ owner shows
      exact mine ⟨owner,shown.mpr shows⟩
  | _ => exact .inr ⟨by rw [agree.snapshotItems (by simp [touched])],by simp⟩

theorem stagedKnown {run page t stamp db after}
    (applied : Commit.effect (.stagePage run page t stamp) db = some after) {providerId}
    (member : providerId ∈ page.normalized.getD []) : ∃ post, after.postId providerId = some post := by
  obtain ⟨providerIds,items,normalized,form⟩ := stagedForm (accepted applied)
  rw [normalized,Option.getD_some] at member
  have posts : after.posts = (persistPosts db providerIds).1.posts := by
    rw [form]
    exact stagedPosts ..
  obtain ⟨post,named⟩ := persistKnown db member
  exact ⟨post,(postIdSame posts providerId).trans named⟩

structure Stocked (w : World) : Prop where
  known : ∀ s, ∀ f ∈ fetches w.log s, ∀ providerId ∈ f.posts, ∃ post, w.db.postId providerId = some post
  staged : ∀ s post, w.db.Staged s post ↔ ∃ f ∈ fetches w.log s, f.Shows w.db post

theorem stockedStart (now) : Stocked (World.start Database.empty now) where
  known := by simp [World.start,fetches]
  staged := by
    intro s post
    simp [World.start,fetches,Database.Staged,Database.empty,Table.empty,Table.find]

section Step
variable {config : Config} {w t : World} {a : Action}

theorem showsAfter {c : Commit} {db after} (applied : c.effect db = some after) {f : Fetch}
    (known : ∀ providerId ∈ f.posts, ∃ post, db.postId providerId = some post) (post) :
    f.Shows after post ↔ f.Shows db post := by
  constructor
  · rintro ⟨providerId,member,named⟩
    obtain ⟨same,old⟩ := known providerId member
    rw [postKeeps applied old] at named
    cases Option.some.inj named
    exact ⟨providerId,member,old⟩
  · rintro ⟨providerId,member,named⟩
    exact ⟨providerId,member,postKeeps applied named⟩

theorem stockedCommit {c : Commit} {process} (stocked : Stocked w) (applied : c.effect w.db = some t.db)
    (logged : t.log = w.log ++ [⟨process,.commit c⟩]) : Stocked t := by
  have older : ∀ {s f}, f ∈ fetches w.log s → ∀ post, f.Shows t.db post ↔ f.Shows w.db post :=
    fun member => showsAfter applied (stocked.known _ _ member)
  have news : ∀ s, fetches t.log s = fetches w.log s ++
      ((fetchOf ⟨process,.commit c⟩).filter (fun f => f.run.snapshotId = s)).toList := by
    intro s
    rw [logged,fetchesEntry]
  constructor
  · intro s f member providerId shown
    rw [news] at member
    rcases List.mem_append.mp member with old | fresh
    · obtain ⟨post,named⟩ := stocked.known s f old providerId shown
      exact ⟨post,postKeeps applied named⟩
    · obtain ⟨rfl,_⟩ := fetchEntry fresh
      exact stagedKnown applied shown
  · intro s post
    rw [news]
    have before := stocked.staged s post
    unfold Database.Staged at before ⊢
    rcases itemAfter applied s post with ⟨run,page,instant,stamp,rfl,rfl,shown,found⟩ | ⟨same,unshown⟩
    · rw [found]
      simp only [Option.isSome_some,true_iff]
      exact ⟨⟨run,page,instant,stamp⟩,by simp [fetchOf,Option.filter],shown⟩
    · rw [same,before]
      constructor
      · rintro ⟨f,member,shows⟩
        exact ⟨f,List.mem_append_left _ member,(older member post).mpr shows⟩
      · rintro ⟨f,member,shows⟩
        rcases List.mem_append.mp member with old | fresh
        · exact ⟨f,old,(older old post).mp shows⟩
        · obtain ⟨rfl,mine⟩ := fetchEntry fresh
          exact absurd shows (unshown _ _ _ _ rfl mine)

theorem stockedStep (stocked : Stocked w) (taken : World.step config w a = some t) : Stocked t := by
  rcases logAfter taken with ⟨logged,same⟩ | ⟨e,logged,wrote⟩
  · exact ⟨by rw [logged,same]; exact stocked.known,by rw [logged,same]; exact stocked.staged⟩
  · cases wrote with
    | external outside applied _ => exact stockedCommit stocked applied logged
    | commit found ok next stands applied answered => exact stockedCommit stocked applied logged
    | spoken found ok next utters same =>
      have silent : ∀ s, fetches t.log s = fetches w.log s := by
        intro s
        rw [logged,fetchesEntry]
        unfold WriteCalls.WriteCall.utters at utters
        split at utters <;> cases utters <;> simp [fetchOf]
      exact ⟨by simp only [silent,same]; exact stocked.known,by simp only [silent,same]; exact stocked.staged⟩

theorem stockedRun {guard now labels} (run : Transition.Run (World.step config) guard (World.start Database.empty now) labels w) :
    Stocked w :=
  run.preserves Stocked (fun _ _ _ stocked _ taken => stockedStep stocked taken) (stockedStart now)

end Step
end RatatoskrX.Staging
