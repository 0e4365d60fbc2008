import RatatoskrX.PublishingRuns
import RatatoskrX.StagedRuns

/-! A full snapshot or a folder's membership, read from a source that returns every page
while nothing fails and the budget lasts. Both services are one loop over the same points;
they differ in the tables that they write, and the snapshot publishes the posts of a page in
the transaction that stores it. -/
namespace RatatoskrX.FullTraversals
open Outcome Relational Schema Budget Snapshot Folders Journal Frames Reconciliation SyncCalls Schedule Transition Staging Registry
open Memberships MembershipRuns Alone StagedRuns SocialSources Publication PublishedPages PublishingRuns
open Normalization (NormalizedBatch NormalizedPost normalize)

section Anchors
variable {config : Config} {w t : World} {a : Action} {labels : List Action} {now : DateTime}

structure Anchored (db : Database) : Prop where
  items : ∀ s post, db.Staged s post → ∃ row, db.snapshots.find s = some row
  folderItems : ∀ s post, (db.folderSnapshotItems.find (s,post)).isSome = true → ∃ row, db.snapshots.find s = some row

def Moored (w : World) : Prop :=
  (∀ {i : Nat} {call run}, w.processes[i]? = some (.folder call) → folderRunOf call.pc = some run → FolderPaired w.db run) ∧
    ∀ s post, (w.db.folderSnapshotItems.find (s,post)).isSome = true → ∃ row, w.db.snapshots.find s = some row

theorem snapshotStays {c : Commit} {db after} (applied : c.effect db = some after) {s}
    (present : ∃ row, db.snapshots.find s = some row) : ∃ row, after.snapshots.find s = some row := by
  obtain ⟨row,found⟩ := present
  obtain ⟨row',kept,_⟩ := snapshotAfter applied found
  exact ⟨row',kept⟩

theorem mooredStep (moored : Moored w) (taken : World.step config w a = some t) : Moored t := by
  refine ⟨fun found holds => runnersStep moored.1 taken found holds,?_⟩
  intro s post staged
  rcases stepCommit taken with same | ⟨c,applied,origin⟩
  · rw [same] at staged ⊢
    exact moored.2 s post staged
  refine snapshotStays applied ?_
  cases c with
  | stageFolderPage run page instant =>
    by_cases mine : s = run.snapshotId
    · rcases origin with ⟨outside,_⟩ | ⟨i,answer,process,rfl,there,stands,_⟩
      · simp [External] at outside
      · obtain ⟨call,rfl,pc⟩ := committedBy stands
        obtain ⟨_,row,present,_⟩ := moored.1 there (by rw [pc]; rfl)
        exact ⟨row,mine ▸ present⟩
    · rw [stagedElsewhere (accepted applied) mine] at staged
      exact moored.2 s post staged
  | _ =>
    rw [(frame applied).folderSnapshotItems (by simp [touched])] at staged
    exact moored.2 s post staged

theorem anchoredRun (run : Transition.Run (World.step config) free (World.start Database.empty now) labels w) :
    Anchored w.db := by
  constructor
  · intro s post staged
    obtain ⟨f,member,_⟩ := ((stockedRun run).staged s post).mp staged
    obtain ⟨_,row,present,_⟩ := (registeredRun run).paged member
    have mine : f.run.snapshotId = s := of_decide_eq_true (List.mem_filter.mp member).2
    exact ⟨row,mine ▸ present⟩
  · have moored : Moored w := by
      refine run.preserves Moored (fun _ _ _ moored _ taken => mooredStep moored taken) ⟨?_,?_⟩
      · simp [World.start]
      · simp [World.start,Database.empty,Table.empty,Table.find]
    exact moored.2

end Anchors

section Services

/- The two services that read a source to its end. -/
inductive Service where
  | snapshot
  | folder (folder : NativeFolder)

structure Cursor where
  id : Uuid
  snapshotId : Uuid
  folderId : Uuid
  checkpoint : Option String

inductive Point where
  | reserve | fetch
  | stage (page : BookmarkPage) (observedAt : DateTime) (stamp : Nat)
  | complete
  | finalize (completedAt : DateTime)
  | fail (e : SnapshotError)

def Cursor.full (c : Cursor) (account : Uuid) : Snapshot.Run := ⟨c.id,account,c.snapshotId,c.checkpoint⟩

def Cursor.membership (c : Cursor) : FolderRun := ⟨c.id,c.snapshotId,c.folderId,c.checkpoint⟩

namespace Service

def fresh (account : Uuid) : Service → Process
  | snapshot => .snapshot ⟨account,.load none⟩
  | folder f => .folder ⟨account,f,.load none⟩

def stands (account : Uuid) (c : Cursor) : Service → Point → Process
  | snapshot,.reserve => .snapshot ⟨account,.reserve (c.full account)⟩
  | snapshot,.fetch => .snapshot ⟨account,.fetch (c.full account)⟩
  | snapshot,.stage page t k => .snapshot ⟨account,.stage (c.full account) page t k⟩
  | snapshot,.complete => .snapshot ⟨account,.complete (c.full account)⟩
  | snapshot,.finalize t => .snapshot ⟨account,.finalize (c.full account) t⟩
  | snapshot,.fail e => .snapshot ⟨account,.fail (c.full account) (.error e)⟩
  | folder f,.reserve => .folder ⟨account,f,.reserve c.membership⟩
  | folder f,.fetch => .folder ⟨account,f,.fetch c.membership⟩
  | folder f,.stage page t _ => .folder ⟨account,f,.stage c.membership page t⟩
  | folder f,.complete => .folder ⟨account,f,.complete c.membership⟩
  | folder f,.finalize t => .folder ⟨account,f,.finalize c.membership t⟩
  | folder f,.fail e => .folder ⟨account,f,.fail c.id (.error e)⟩

def completed (account runId snapshotId : Uuid) : Service → Process
  | snapshot => .snapshot ⟨account,.done (.ok (.completed runId snapshotId))⟩
  | folder f => .folder ⟨account,f,.done (.ok (.completed runId snapshotId))⟩

def failed (account : Uuid) (e : SnapshotError) : Service → Process
  | snapshot => .snapshot ⟨account,.done (.error e)⟩
  | folder f => .folder ⟨account,f,.done (.error e)⟩

def items : Service → Database → Table SnapshotItem SnapshotItem.key
  | snapshot => Database.snapshotItems
  | folder _ => Database.folderSnapshotItems

def folderOf (c : Cursor) : Service → Option Uuid
  | snapshot => none
  | folder _ => some c.folderId

/- The posts that a completion compares the staged ones with. -/
def current (db : Database) (account folderId : Uuid) : Service → Finset Uuid
  | snapshot => activeSet db account
  | folder _ => members db folderId

/- The row that the folder has, or will have when the run is created. -/
def target (db : Database) (account : Uuid) : Service → Uuid
  | snapshot => 0
  | folder f => (upsertFolder db account f).2

end Service

section Points
variable {config : Config} {service : Service} {account : Uuid} {c : Cursor} {w : World} {db after : Database}
  {seen ids : List String} {pages : Nat}

/- The tables that the budget and the current posts are read from. -/
structure Untouched (db after : Database) : Prop where
  accounts : after.accounts = db.accounts
  windows : after.budgetWindows = db.budgetWindows
  bookmarks : after.bookmarks = db.bookmarks
  folderItems : after.folderItems = db.folderItems

theorem currentSame {folderId} (bookmarks : after.bookmarks = db.bookmarks)
    (folderItems : after.folderItems = db.folderItems) :
    service.current after account folderId = service.current db account folderId := by
  cases service with
  | snapshot => simp only [Service.current,activeSet,bookmarks]
  | folder f => simp only [Service.current,members,folderItems]

theorem halfAnew {items : Database → Table SnapshotItem SnapshotItem.key} {folder : Option Uuid} {kind : RunType}
    (row : db.syncRuns.find c.id = some ⟨c.id,account,kind,.running,none,0,0,0,0,0,none⟩)
    (snapshot : db.snapshots.find c.snapshotId = some ⟨c.snapshotId,c.id,folder,false,none,0⟩)
    (empty : ∀ post, (items db).find (c.snapshotId,post) = none) :
    Half items db account c.id c.snapshotId folder [] 0 where
  row := ⟨_,row,rfl,rfl,rfl,rfl⟩
  snapshot := ⟨_,snapshot,rfl,rfl,rfl⟩
  known := by simp
  staged := by simp [empty,Shown]

theorem Anchored.absent (anchored : Anchored db) {s} (fresh : db.snapshots.find s = none) :
    ∀ post, (service.items db).find (s,post) = none := by
  intro post
  cases there : (service.items db).find (s,post) with
  | none => rfl
  | some item =>
    have staged : ((service.items db).find (s,post)).isSome = true := by rw [there]; rfl
    obtain ⟨row,present⟩ : ∃ row, db.snapshots.find s = some row := by
      cases service with
      | snapshot => exact anchored.items s post staged
      | folder f => exact anchored.folderItems s post staged
    rw [fresh] at present
    cases present

theorem begins (config : Config) (service : Service) (anchored : Anchored w.db) (connected : (w.db.accounts.find account).isSome = true) :
    ∃ c after event, (service.fresh account).next config w .ok = some ⟨after,event,service.stands account c .reserve⟩ ∧
      c.folderId = service.target w.db account ∧
      Half service.items after account c.id c.snapshotId (service.folderOf c) [] 0 ∧ Untouched w.db after := by
  cases service with
  | snapshot =>
    let run := insertSyncRun w.db account .full
    let snapshot := insertSnapshot run.1 run.2 none
    have made : Snapshot.createRun w.db account = some (snapshot.1,⟨run.2,account,snapshot.2,none⟩) := if_pos connected
    have absent : ∀ post, (Service.snapshot.items w.db).find (snapshot.2,post) = none :=
      anchored.absent (openedSnapshotFresh run.1 run.2 none)
    refine ⟨⟨run.2,snapshot.2,0,none⟩,snapshot.1,some (.commit (.createRun account)),?_,rfl,?_,⟨rfl,rfl,rfl,rfl⟩⟩
    · simp only [Service.fresh,Process.next,SnapshotPc.next,transact,Commit.effect,made]
      rfl
    · exact halfAnew ((openedRun w.db account .full run.2).trans (if_pos rfl))
        ((openedSnapshot run.1 run.2 none snapshot.2).trans (if_pos rfl)) absent
  | folder f =>
    let row := upsertFolder w.db account f
    let run := insertSyncRun row.1 account .folderMembership
    let snapshot := insertSnapshot run.1 run.2 (some row.2)
    have made : Folders.createRun w.db account f = some (snapshot.1,⟨run.2,snapshot.2,row.2,none⟩) := if_pos connected
    have absent : ∀ post, ((Service.folder f).items w.db).find (snapshot.2,post) = none :=
      anchored.absent (openedSnapshotFresh run.1 run.2 (some row.2))
    refine ⟨⟨run.2,snapshot.2,row.2,none⟩,snapshot.1,some (.commit (.createFolderRun account f)),?_,rfl,?_,⟨rfl,rfl,rfl,rfl⟩⟩
    · simp only [Service.fresh,Process.next,FolderPc.next,transact,Commit.effect,made]
      rfl
    · exact halfAnew ((openedRun row.1 account .folderMembership run.2).trans (if_pos rfl))
        ((openedSnapshot run.1 run.2 (some row.2) snapshot.2).trans (if_pos rfl)) absent

theorem reserves (service : Service) (c : Cursor) {r : Reservation} (paid : config.readGate.reserve w.db account 1 w.now = .ok (after,r)) :
    ∃ event, (service.stands account c .reserve).next config w .ok = some ⟨after,event,service.stands account c .fetch⟩ := by
  cases service with
  | snapshot =>
    simp only [Service.stands,Process.next,SnapshotPc.next,charging,paid]
    exact ⟨_,rfl⟩
  | folder f =>
    simp only [Service.stands,Process.next,FolderPc.next,charging,paid]
    exact ⟨_,rfl⟩

theorem fetches {page : BookmarkPage} : (service.stands account c .fetch).next config w (.page page) =
    some ⟨w.db,none,service.stands account c (.stage page w.now w.log.length)⟩ := by
  cases service <;> rfl

def onward : Option String → Point
  | none => .complete
  | some _ => .reserve

theorem stages (config : Config) {page : BookmarkPage} (t : DateTime) (stamp : Nat) (normalized : page.normalized = some ids)
    (half : Half service.items w.db account c.id c.snapshotId (service.folderOf c) seen pages)
    (paged : (pages : Int) + 1 ≤ maxI32) (fits : ((seen ++ ids).length : Int) ≤ maxI32) :
    ∃ after event, (service.stands account c (.stage page t stamp)).next config w .ok =
        some ⟨after,event,service.stands account {c with checkpoint := page.nextToken} (onward page.nextToken)⟩ ∧
      commits config w (service.stands account c (.stage page t stamp)) .ok = true ∧
      Half service.items after account c.id c.snapshotId (service.folderOf c) (seen ++ ids) (pages + 1) ∧
      Untouched w.db after := by
  cases service with
  | snapshot =>
    have mine : Half Database.snapshotItems w.db account (c.full account).id (c.full account).snapshotId none seen pages := half
    obtain ⟨after,ok,later⟩ := snapshotStages mine normalized paged fits t
    have agree := Frames.stagePageFrame ok
    refine ⟨after,some (.commit (.stagePage (c.full account) page t stamp)),?_,?_,later,
      ⟨agree.accounts (by simp),agree.budgetWindows (by simp),agree.bookmarks (by simp),agree.folderItems (by simp)⟩⟩
    · simp only [Service.stands,Process.next,SnapshotPc.next,transact,Commit.effect,ok,Except.toOption]
      cases page.nextToken <;> rfl
    · simp [commits,Service.stands,Process.commit,SnapshotPc.commit,Commit.effect,ok,Except.toOption]
  | folder f =>
    have mine : Half Database.folderSnapshotItems w.db account c.membership.id c.membership.snapshotId (some c.folderId)
      seen pages := half
    obtain ⟨after,ok,later⟩ := folderStages mine normalized paged fits t
    have agree := Frames.stageFolderPageFrame ok
    refine ⟨after,some (.commit (.stageFolderPage c.membership page t)),?_,?_,later,
      ⟨agree.accounts (by simp),agree.budgetWindows (by simp),agree.bookmarks (by simp),agree.folderItems (by simp)⟩⟩
    · simp only [Service.stands,Process.next,FolderPc.next,transact,Commit.effect,ok,Except.toOption]
      cases page.nextToken <;> rfl
    · simp [commits,Service.stands,Process.commit,FolderPc.commit,Commit.effect,ok,Except.toOption]

theorem refuses {page : BookmarkPage} {t stamp} (refused : page.normalized = none) :
    (service.stands account c (.stage page t stamp)).next config w .ok =
      some ⟨w.db,none,service.stands account c (.fail .normalize)⟩ := by
  cases service with
  | snapshot =>
    have ko : Snapshot.stagePage w.db (c.full account) page t = .error .normalize := by
      simp only [Snapshot.stagePage,refused]
    simp only [Service.stands,Process.next,SnapshotPc.next,transact,Commit.effect,ko,Except.toOption]
    rfl
  | folder f =>
    have ko : Folders.stagePage w.db c.membership page t = .error .normalize := by
      simp only [Folders.stagePage,refused]
    simp only [Service.stands,Process.next,FolderPc.next,transact,Commit.effect,ko,Except.toOption]
    rfl

theorem fails {e} : ∃ after event, (service.stands account c (.fail e)).next config w .ok =
    some ⟨after,event,service.failed account e⟩ := by
  cases service <;> exact ⟨_,_,rfl⟩

theorem clocks : (service.stands account c .complete).next config w .ok =
    some ⟨w.db,none,service.stands account c (.finalize w.now)⟩ := by
  cases service <;> rfl

theorem finishes {t} (half : Half service.items w.db account c.id c.snapshotId (service.folderOf c) seen pages)
    (few : ((service.current w.db account c.folderId).card : Int) ≤ maxI32) (fits : (seen.length : Int) ≤ maxI32) :
    ∃ after event, (service.stands account c (.finalize t)).next config w .ok =
        some ⟨after,event,service.completed account c.id c.snapshotId⟩ ∧
      service.items after = service.items w.db ∧ after.posts = w.db.posts := by
  cases service with
  | snapshot =>
    have mine : Half Database.snapshotItems w.db account (c.full account).id (c.full account).snapshotId none seen pages := half
    obtain ⟨after,ok⟩ := snapshotCompletes mine few fits t
    refine ⟨after,some (.commit (.completeRun account (c.full account) t)),?_,committedItems ok,committedPosts ok⟩
    simp only [Service.stands,Process.next,SnapshotPc.next,transact,Commit.effect,ok,Except.toOption]
    rfl
  | folder f =>
    have mine : Half Database.folderSnapshotItems w.db account c.membership.id c.membership.snapshotId
      (some c.membership.folderId) seen pages := half
    obtain ⟨after,ok⟩ := folderCompletes mine few fits t
    have agree := Frames.completeFolderRunFrame ok
    refine ⟨after,some (.commit (.completeFolderRun c.membership t)),?_,agree.folderSnapshotItems (by simp),agree.posts (by simp)⟩
    simp only [Service.stands,Process.next,FolderPc.next,transact,Commit.effect,ok,Except.toOption]
    rfl

end Points

end Services

section Traversals
variable {site : Site} {service : Service} {index : Nat} {account : Uuid} {row : Account} {a : Archive} {c : Cursor}
  {held : Finset Uuid} {seen ids : List String} {later : List DateTime} {batch : NormalizedBatch}

/- A page that the source returns, the clock at the three points that read it, and the order
that its posts are stored in. -/
structure Visit where
  page : ProviderPage
  reservedAt : DateTime
  fetchedAt : DateTime
  stagedAt : DateTime
  order : List String
  ordered : order.Perm page.ids.dedup

def turn (now : DateTime) (act : Act) : List Act := [.call (.tick now),act]

def going (index : Nat) (now : DateTime) : List Act := turn now (.call (.advance index .ok))

def visiting (index : Nat) (v : Visit) : List Act :=
  going index v.reservedAt ++ turn v.fetchedAt (.fetch index v.page) ++ turn v.stagedAt (.stage index .ok v.order)

/- The call stands at a point of its program. -/
structure Standing (index : Nat) (w : World) (p : Process) : Prop where
  alive : index ∉ w.abandoned
  found : w.processes[index]? = some p

theorem goes {w : World} {p s now answer} (standing : Standing index w p)
    (ok : p.next site.config {w with now := now} answer = some s) :
    ∃ u, World.step site.config {w with now := now} (.advance index answer) = some u ∧ u.db = s.db ∧ Standing index u s.next := by
  refine ⟨World.take {w with now := now} index s,?_,rfl,standing.alive,?_⟩
  · simp only [World.step,if_neg standing.alive,standing.found,bind,Option.bind,ok]
  · have found : ({w with now := now} : World).processes[index]? = some p := standing.found
    exact takeFound found

theorem ticks {act : Act} {now u} (alone : Lone index {a with world := {a.world with now := now}} act)
    (taken : Archive.step site {a with world := {a.world with now := now}} act = some u) :
    Transition.Run (Archive.step site) (Lone index) a (turn now act) u :=
  .cons trivial rfl (.cons alone taken (.nil u))

theorem turns {p s now} (standing : Standing index a.world p) (stores : Process.posting p = none)
    (ok : p.next site.config {a.world with now := now} .ok = some s) :
    ∃ u, Transition.Run (Archive.step site) (Lone index) a (going index now) u ∧ u.world.db = s.db ∧
      Standing index u.world s.next ∧ u.books = a.books := by
  obtain ⟨w,taken,db,there⟩ := goes standing ok
  refine ⟨{a with world := w},ticks rfl ?_,db,there,rfl⟩
  have plain : Archive.plain {a with world := {a.world with now := now}} (.advance index .ok) = true := by
    simp only [Archive.plain,standing.found,Option.bind_some,stores,Option.isNone_none]
  simp only [Archive.step,plain,if_true,taken,Option.map_some]

theorem standsQuiet {point : Point} (apart : ∀ page t stamp, point ≠ .stage page t stamp) :
    Process.posting (service.stands account c point) = none := by
  cases point with
  | stage page t stamp => exact absurd rfl (apart page t stamp)
  | _ => cases service <;> rfl

/- A call between two pages, or past the last one. -/
structure Reading (site : Site) (service : Service) (index : Nat) (account : Uuid) (row : Account) (held : Finset Uuid)
    (c : Cursor) (seen : List String) (later : List DateTime) (point : Point) (a : Archive) : Prop where
  standing : Standing index a.world (service.stands account c point)
  half : ∃ pages, pages ≤ seen.length ∧ Half service.items a.world.db account c.id c.snapshotId (service.folderOf c) seen pages
  held : service.current a.world.db account c.folderId = held
  available : Available site.config.readGate account a.world.db later
  owned : a.world.db.accounts.find account = some row
  sound : Sound a.books

theorem opens {now} (standing : Standing index a.world (service.fresh account)) (anchored : Anchored a.world.db)
    (owned : a.world.db.accounts.find account = some row) (available : Available site.config.readGate account a.world.db later)
    (sound : Sound a.books) :
    ∃ u c, Transition.Run (Archive.step site) (Lone index) a (going index now) u ∧ u.books = a.books ∧
      Reading site service index account row
        (service.current a.world.db account (service.target a.world.db account)) c [] later .reserve u := by
  have apart : Anchored ({a.world with now := now} : World).db := anchored
  have connected : (a.world.db.accounts.find account).isSome = true := by simp [owned]
  obtain ⟨c,after,event,ok,target,half,same⟩ := begins site.config service apart connected
  obtain ⟨u,run,db,there,books⟩ := turns standing (by cases service <;> rfl) ok
  refine ⟨u,c,run,books,there,⟨0,Nat.le_refl _,db ▸ half⟩,?_,?_,?_,books ▸ sound⟩
  · rw [db,← target]
    exact currentSame same.bookmarks same.folderItems
  · rw [db]
    exact availableSame same.accounts same.windows available
  · rw [db,same.accounts]
    exact owned

theorem turnsPage {v : Visit} (reading : Reading site service index account row held c seen (v.reservedAt::later) .reserve a) :
    ∃ u stamp, Transition.Run (Archive.step site) (Lone index) a
        (going index v.reservedAt ++ turn v.fetchedAt (.fetch index v.page)) u ∧ u.books = a.books ∧
      u.pages index = (normalize site.parse v.page.envelope).toOption ∧
      Reading site service index account row held c seen later (.stage (v.page.page site.parse) v.fetchedAt stamp) u := by
  obtain ⟨charged,r,paid,available⟩ := reading.available
  have agree := Frames.chargeFrame paid
  have paid' : site.config.readGate.reserve ({a.world with now := v.reservedAt} : World).db account 1
      ({a.world with now := v.reservedAt} : World).now = .ok (charged,r) := paid
  obtain ⟨event,ok⟩ := reserves service c paid'
  obtain ⟨u,first,db,standing,books⟩ := turns reading.standing (standsQuiet (by simp)) ok
  have fetched : (service.stands account c .fetch).next site.config {u.world with now := v.fetchedAt}
      (.page (v.page.page site.parse)) =
      some ⟨u.world.db,none,service.stands account c (.stage (v.page.page site.parse) v.fetchedAt u.world.log.length)⟩ := fetches
  obtain ⟨w,taken,db',standing'⟩ := goes standing fetched
  have second : Transition.Run (Archive.step site) (Lone index) u (turn v.fetchedAt (.fetch index v.page))
      {u with world := w, pages := Function.update u.pages index (normalize site.parse v.page.envelope).toOption} := by
    refine ticks rfl ?_
    simp only [Archive.step,taken,Option.map_some]
  have same : w.db = charged := db'.trans db
  obtain ⟨pages,paged,half⟩ := reading.half
  refine ⟨_,_,first.append second,books,Function.update_self ..,standing',⟨pages,paged,?_⟩,?_,?_,?_,?_⟩
  · rw [show Archive.world _ = w from rfl,same]
    refine half.same (agree.syncRuns (by simp)) (agree.snapshots (by simp)) (agree.posts (by simp)) ?_
    cases service with
    | snapshot => exact agree.snapshotItems (by simp)
    | folder f => exact agree.folderSnapshotItems (by simp)
  · rw [← reading.held,show Archive.world _ = w from rfl,same]
    exact currentSame (agree.bookmarks (by simp)) (agree.folderItems (by simp))
  · rw [show Archive.world _ = w from rfl,same]
    exact available
  · rw [show Archive.world _ = w from rfl,same,agree.accounts (by simp)]
    exact reading.owned
  · exact books ▸ reading.sound

def Service.store (account : Uuid) (t : DateTime) : Service → Publisher → NormalizedBatch → List String → Books →
    Except SnapshotError Books
  | snapshot => fun d batch order b => counting batch (storePage d account t batch order b)
  | folder _ => fun _ batch _ b =>
    counting batch (PublishedPages.persistPosts batch.users (persistUsers b batch.users) batch.posts)

theorem standsPosting {page t stamp} : Process.posting (service.stands account c (.stage page t stamp)) =
    some ⟨service.store account t,fun e => service.stands account c (.fail e)⟩ := by
  cases service <;> rfl

theorem normalizedPage {v : Visit} (ok : normalize site.parse v.page.envelope = .ok batch) :
    (v.page.page site.parse).normalized = some (batch.posts.map NormalizedPost.providerId) := by
  simp only [ProviderPage.page,ok,Except.toOption,Option.map_some]

theorem ordersBatch {v : Visit} (ok : normalize site.parse v.page.envelope = .ok batch) : v.order.Perm (postIds batch) := by
  have ids := (pageNormalized (normalizedPage ok)).1
  rw [postIds,ids]
  exact v.ordered.trans (List.perm_insertionSort _ _).symm.dedup

theorem stores {t b order} (sound : Sound b) (owned : b.accounts account = some row.internalUserId)
    (authored : Authored batch) (ordered : order.Perm (postIds batch)) (few : (batch.posts.length : Int) ≤ maxI32)
    (publishable : service = .snapshot → ∀ id o, sighting batch t id = some o → Publishable site.publisher row.internalUserId o)
    (opens : service = .snapshot → AllOpen site.publisher batch t account b order) :
    ∃ b', service.store account t site.publisher batch order b = .ok b' ∧ Sound b' ∧
      (service = .snapshot → Advanced site.publisher batch t account order b b') := by
  have counted : ∀ next, counting batch next = next := by
    intro next
    simp only [counting,toI32,if_pos few]
  cases service with
  | snapshot =>
    obtain ⟨b',ok,advanced⟩ := (storesPage sound owned authored ordered (publishable rfl)).1 (opens rfl)
    exact ⟨b',(counted _).trans ok,advanced.sound,fun _ => advanced⟩
  | folder f =>
    obtain ⟨b',ok,persisted,_⟩ := @persists b batch t authored
    exact ⟨b',(counted _).trans ok,persisted.sound sound,fun mine => absurd mine (by simp)⟩

theorem reads {v : Visit} (reading : Reading site service index account row held c seen (v.reservedAt::later) .reserve a)
    (accepted : normalize site.parse v.page.envelope = .ok batch) (posts : batch.posts ≠ [])
    (fits : ((seen ++ batch.posts.map NormalizedPost.providerId).length : Int) ≤ maxI32)
    (publishable : service = .snapshot → ∀ id o, sighting batch v.fetchedAt id = some o →
      Publishable site.publisher row.internalUserId o)
    (opens : service = .snapshot → AllOpen site.publisher batch v.fetchedAt account a.books v.order) :
    ∃ u, Transition.Run (Archive.step site) (Lone index) a (visiting index v) u ∧
      Reading site service index account row held {c with checkpoint := v.page.nextToken}
        (seen ++ batch.posts.map NormalizedPost.providerId) later (onward v.page.nextToken) u ∧
      (service = .snapshot → Advanced site.publisher batch v.fetchedAt account v.order a.books u.books) := by
  obtain ⟨u,stamp,first,books,holds,staging⟩ := turnsPage reading
  obtain ⟨pages,paged,half⟩ := staging.half
  have some_ : 0 < batch.posts.length := List.length_pos_of_ne_nil posts
  rw [List.length_append,List.length_map] at fits
  have counted : pages + 1 ≤ (seen ++ batch.posts.map NormalizedPost.providerId).length := by
    rw [List.length_append,List.length_map]
    omega
  have half' : Half service.items ({u.world with now := v.stagedAt} : World).db account c.id c.snapshotId (service.folderOf c)
      seen pages := half
  obtain ⟨after,event,ok,committed,later',same⟩ := stages site.config v.fetchedAt stamp (normalizedPage accepted) half' (by omega)
    (by rw [List.length_append,List.length_map]; exact fits)
  obtain ⟨w,taken,db,standing⟩ := goes staging.standing ok
  have ledger : Persisted u.books (Archive.ledger {u with world := {u.world with now := v.stagedAt}}) := ledgerPersisted
  have owned : (Archive.ledger {u with world := {u.world with now := v.stagedAt}}).accounts account = some row.internalUserId := by
    simp only [Archive.ledger,staging.owned,Option.map_some]
  obtain ⟨b,stored,sound,advanced⟩ := stores (ledger.sound staging.sound) owned (normalizedAuthored accepted)
    (ordersBatch accepted) (by omega) publishable (fun mine => ledger.allOpen.mpr (books ▸ opens mine))
  have second : Transition.Run (Archive.step site) (Lone index) u (turn v.stagedAt (.stage index .ok v.order))
      {u with world := w, books := b} := by
    refine ticks rfl ?_
    have found : ({u.world with now := v.stagedAt} : World).processes[index]? =
        some (service.stands account c (.stage (v.page.page site.parse) v.fetchedAt stamp)) := staging.standing.found
    simp only [Archive.step,found,bind,Option.bind_some,standsPosting,holds,accepted,Except.toOption,
      if_pos (ordersBatch accepted),stored,taken,Option.map_some,committed,if_true]
  refine ⟨_,first.append second,⟨standing,⟨pages + 1,counted,?_⟩,?_,?_,?_,sound⟩,?_⟩
  · exact db ▸ later'
  · rw [← staging.held,db]
    exact currentSame same.bookmarks same.folderItems
  · rw [db]
    exact availableSame same.accounts same.windows staging.available
  · rw [db,same.accounts]
    exact staging.owned
  · exact fun mine => books ▸ ledger.advanced (advanced mine)

def idsOf (visits : List Visit) : List String := visits.flatMap (fun v => v.page.ids)

/- The pages that the services take. -/
def Taken (parse : String → Option DateTime) (v : Visit) : Prop := v.page.envelope.data ≠ [] ∧ v.page.Valid parse

theorem pageTaken {v : Visit} (taken : Taken site.parse v) : ∃ batch, normalize site.parse v.page.envelope = .ok batch ∧
    batch.posts ≠ [] ∧ (batch.posts.map NormalizedPost.providerId).Perm v.page.ids := by
  obtain ⟨batch,ok⟩ := Normalization.normalizeAccepts.mpr taken
  have sorted : (batch.posts.map NormalizedPost.providerId).Perm v.page.ids :=
    (pageNormalized (normalizedPage ok)).1 ▸ List.perm_insertionSort (· ≤ ·) v.page.ids
  refine ⟨batch,ok,?_,sorted⟩
  intro none
  rw [none,List.map_nil] at sorted
  exact taken.1 (List.map_eq_nil_iff.mp sorted.nil_eq.symm)

/- The pages as the transactions that store them have them. -/
def pagesOf (parse : String → Option DateTime) (visits : List Visit) : List (NormalizedBatch × DateTime) :=
  visits.filterMap (fun v => (normalize parse v.page.envelope).toOption.map (fun batch => (batch,v.fetchedAt)))

/- The shared contract can represent every post of the pages. -/
def Representable (site : Site) (owner : Uuid) (visits : List Visit) : Prop :=
  ∀ page ∈ pagesOf site.parse visits, ∀ id o, sighting page.1 page.2 id = some o → Publishable site.publisher owner o

theorem pagesCons {v : Visit} {rest} (accepted : normalize site.parse v.page.envelope = .ok batch) :
    pagesOf site.parse (v::rest) = (batch,v.fetchedAt)::pagesOf site.parse rest := by
  simp only [pagesOf,List.filterMap_cons,accepted,Except.toOption,Option.map_some]

def Forwarded (site : Site) (service : Service) (account : Uuid) (b : Books) (visits : List Visit) : Prop :=
  service = .snapshot → Onward site.publisher.contract account b (pagesOf site.parse visits)

theorem pagesAppend {parse} {full rest : List Visit} : pagesOf parse (full ++ rest) = pagesOf parse full ++ pagesOf parse rest :=
  List.filterMap_append

theorem digestsShown {contract parse id} {visits : List Visit} (shown : digestsOf contract (pagesOf parse visits) id ≠ []) :
    id ∈ idsOf visits := by
  obtain ⟨digest,member⟩ := List.exists_mem_of_ne_nil _ shown
  obtain ⟨⟨batch,t⟩,there,some_⟩ := List.mem_filterMap.mp member
  obtain ⟨v,visited,made⟩ := List.mem_filterMap.mp there
  obtain ⟨batch',accepted,same⟩ := Option.map_eq_some_iff.mp made
  cases same
  have ok : normalize parse v.page.envelope = .ok batch := Outcome.accepted accepted
  have sighted : (sighting batch v.fetchedAt id).isSome = true := by
    obtain ⟨o,sighted,_⟩ := Option.map_eq_some_iff.mp some_
    rw [sighted]
    rfl
  rw [sightingSome (normalizedAuthored ok),Normalization.normalizedIds ok,List.mem_insertionSort] at sighted
  exact List.mem_flatMap.mpr ⟨v,visited,sighted⟩

theorem forwardedTake {b} {full rest : List Visit} (forwarded : Forwarded site service account b (full ++ rest)) :
    Forwarded site service account b full := by
  intro mine
  have onward := forwarded mine
  rw [pagesAppend] at onward
  exact onwardTake onward

theorem forwardedOne {b} {v : Visit} (accepted : normalize site.parse v.page.envelope = .ok batch) :
    Forwarded site service account b [v] ↔
      (service = .snapshot → AllOpen site.publisher batch v.fetchedAt account b v.order) := by
  refine forall_congr' (fun _ => ?_)
  rw [pagesCons accepted]
  exact onwardOpens (normalizedAuthored accepted) (ordersBatch accepted)

theorem readsAll {visits : List Visit}
    (reading : Reading site service index account row held c seen (visits.map Visit.reservedAt ++ later) .reserve a)
    (followed : ∀ v ∈ visits, v.page.nextToken.isSome = true) (taken : ∀ v ∈ visits, Taken site.parse v)
    (representable : service = .snapshot → Representable site row.internalUserId visits)
    (forwarded : Forwarded site service account a.books visits)
    (fits : ((seen ++ idsOf visits).length : Int) ≤ maxI32) :
    ∃ u c' seen', Transition.Run (Archive.step site) (Lone index) a (visits.flatMap (visiting index)) u ∧
      Reading site service index account row held c' seen' later .reserve u ∧ seen'.Perm (seen ++ idsOf visits) ∧
      ∀ rest, Forwarded site service account u.books rest ↔ Forwarded site service account a.books (visits ++ rest) := by
  induction visits generalizing a c seen with
  | nil => exact ⟨a,c,seen,.nil a,reading,by simp [idsOf],fun _ => Iff.rfl⟩
  | cons v rest ih =>
    obtain ⟨batch,accepted,posts,sorted⟩ := pageTaken (taken v (by simp))
    have lengths := sorted.length_eq
    have fits' : ((seen ++ batch.posts.map NormalizedPost.providerId ++ idsOf rest).length : Int) ≤ maxI32 := by
      simp only [idsOf,List.flatMap_cons,List.length_append] at fits lengths ⊢
      omega
    have pages : pagesOf site.parse (v::rest) = _ := pagesCons accepted
    have opened : service = .snapshot → AllOpen site.publisher batch v.fetchedAt account a.books v.order := by
      intro mine
      have onward := forwarded mine
      rw [pages] at onward
      exact onwardFirst onward
    obtain ⟨u,first,next,advanced⟩ := reads reading accepted posts (by rw [List.length_append] at fits'; omega)
      (fun mine => representable mine (batch,v.fetchedAt) (by rw [pages]; exact List.mem_cons_self)) opened
    have carried : ∀ more, Forwarded site service account u.books more ↔ Forwarded site service account a.books (v::more) := by
      intro more
      refine forall_congr' (fun mine => ?_)
      rw [pagesCons accepted]
      exact onwardCons reading.sound (normalizedAuthored accepted) (ordersBatch accepted) (opened mine) (advanced mine)
    obtain ⟨token,more⟩ := Option.isSome_iff_exists.mp (followed v (by simp))
    rw [more] at next
    obtain ⟨t,c',seen',others,ending,same,carried'⟩ := ih next (fun v' member => followed v' (by simp [member]))
      (fun v' member => taken v' (by simp [member]))
      (fun mine page member => representable mine page (by rw [pages]; exact List.mem_cons_of_mem _ member))
      ((carried rest).mpr forwarded) fits'
    refine ⟨t,c',seen',first.append others,ending,same.trans ?_,fun more => (carried' more).trans (carried (rest ++ more))⟩
    rw [List.append_assoc]
    exact (sorted.append_right _).append_left _

/- The script of a call: one point before the pages, two after them. -/
def traversal (index : Nat) (openedAt : DateTime) (visits : List Visit) (completedAt committedAt : DateTime) : List Act :=
  going index openedAt ++ (visits.flatMap (visiting index) ++ (going index completedAt ++ going index committedAt))

def refusal (index : Nat) (openedAt : DateTime) (visits : List Visit) (v : Visit) (failedAt : DateTime) : List Act :=
  going index openedAt ++ (visits.flatMap (visiting index) ++ (visiting index v ++ going index failedAt))

def Chained : List Visit → Prop
  | [] => False
  | [v] => v.page.nextToken = none
  | v::rest => v.page.nextToken.isSome = true ∧ Chained rest

theorem chainedOnward {full rest : List Visit} {v : Visit} (chained : Chained (full ++ v::rest)) :
    (∀ u ∈ full, u.page.nextToken.isSome = true) ∧ Chained (v::rest) := by
  induction full with
  | nil => exact ⟨by simp,chained⟩
  | cons head full ih =>
    have both : head.page.nextToken.isSome = true ∧ Chained (full ++ v::rest) := by
      cases full <;> exact chained
    obtain ⟨others,last⟩ := ih both.2
    exact ⟨List.forall_mem_cons.mpr ⟨both.1,others⟩,last⟩

theorem closes (completedAt committedAt : DateTime)
    (reading : Reading site service index account row held c seen later .complete a)
    (few : (held.card : Int) ≤ maxI32) (fits : (seen.length : Int) ≤ maxI32) :
    ∃ u, Transition.Run (Archive.step site) (Lone index) a (going index completedAt ++ going index committedAt) u ∧
      u.world.processes[index]? = some (service.completed account c.id c.snapshotId) ∧
      (∀ id ∈ seen, ∃ post, u.world.db.postId id = some post) ∧
      ∀ post, ((service.items u.world.db).find (c.snapshotId,post)).isSome = true ↔ Shown u.world.db seen post := by
  have read : (service.stands account c .complete).next site.config {a.world with now := completedAt} .ok =
      some ⟨a.world.db,none,service.stands account c (.finalize completedAt)⟩ := clocks
  obtain ⟨t,first,db,standing,_⟩ := turns reading.standing (standsQuiet (by simp)) read
  obtain ⟨pages,_,half⟩ := reading.half
  have few' : ((service.current ({t.world with now := committedAt} : World).db account c.folderId).card : Int) ≤ maxI32 := by
    rw [show ({t.world with now := committedAt} : World).db = a.world.db from db,reading.held]
    exact few
  have half' : Half service.items ({t.world with now := committedAt} : World).db account c.id c.snapshotId (service.folderOf c)
      seen pages := db ▸ half
  obtain ⟨after,event,ok,items,posts⟩ := finishes (t := completedAt) half' few' fits
  obtain ⟨u,second,db',standing',_⟩ := turns standing (standsQuiet (by simp)) ok
  refine ⟨u,first.append second,standing'.found,?_,?_⟩
  · intro id member
    rw [db',postIdSame posts]
    exact half'.known id member
  · intro post
    simp only [db',items,Shown,postIdSame posts]
    exact half'.staged post

theorem givesUp {e} (failedAt : DateTime) (standing : Standing index a.world (service.stands account c (.fail e))) :
    ∃ u, Transition.Run (Archive.step site) (Lone index) a (going index failedAt) u ∧
      u.world.processes[index]? = some (service.failed account e) := by
  obtain ⟨after,event,marked⟩ : ∃ after event, (service.stands account c (.fail e)).next site.config
      {a.world with now := failedAt} .ok = some ⟨after,event,service.failed account e⟩ := fails
  obtain ⟨u,run,_,standing',_⟩ := turns standing (standsQuiet (by simp)) marked
  exact ⟨u,run,standing'.found⟩

theorem refusesPage {v : Visit} (failedAt : DateTime)
    (reading : Reading site service index account row held c seen (v.reservedAt::later) .reserve a)
    (refused : (v.page.page site.parse).normalized = none) :
    ∃ u, Transition.Run (Archive.step site) (Lone index) a (visiting index v ++ going index failedAt) u ∧
      u.world.processes[index]? = some (service.failed account .normalize) := by
  obtain ⟨t,stamp,first,_,holds,staging⟩ := turnsPage reading
  have ko : (service.stands account c (.stage (v.page.page site.parse) v.fetchedAt stamp)).next site.config
      {t.world with now := v.stagedAt} .ok = some ⟨t.world.db,none,service.stands account c (.fail .normalize)⟩ := refuses refused
  obtain ⟨w,taken,_,standing⟩ := goes staging.standing ko
  have none_ : t.pages index = none := by
    rw [holds]
    exact Option.map_eq_none_iff.mp refused
  have second : Transition.Run (Archive.step site) (Lone index) t (turn v.stagedAt (.stage index .ok v.order))
      {t with world := w} := by
    refine ticks rfl ?_
    have found : ({t.world with now := v.stagedAt} : World).processes[index]? =
        some (service.stands account c (.stage (v.page.page site.parse) v.fetchedAt stamp)) := staging.standing.found
    simp only [Archive.step,found,bind,Option.bind_some,standsPosting,none_,taken,Option.map_some]
  obtain ⟨u,third,failed⟩ := givesUp failedAt (show Standing index (Archive.world {t with world := w}) _ from standing)
  exact ⟨u,(first.append second).append third,failed⟩

theorem readsUpTo {s : Archive} {full rest : List Visit} {v : Visit}
    (reading : Reading site service index account row held c [] ((full ++ v::rest).map Visit.reservedAt) .reserve s)
    (chained : Chained (full ++ v::rest)) (valid : ∀ u ∈ full ++ v::rest, u.page.Valid site.parse)
    (representable : service = .snapshot → Representable site row.internalUserId (full ++ v::rest))
    (fits : ((idsOf (full ++ v::rest)).length : Int) ≤ maxI32) (posts : ∀ u ∈ full, u.page.envelope.data ≠ [])
    (forwarded : Forwarded site service account s.books full) :
    ∃ t c' seen, Transition.Run (Archive.step site) (Lone index) s (full.flatMap (visiting index)) t ∧
      Reading site service index account row held c' seen (v.reservedAt::rest.map Visit.reservedAt) .reserve t ∧
      seen.Perm (idsOf full) ∧
      ∀ more, Forwarded site service account t.books more ↔ Forwarded site service account s.books (full ++ more) := by
  simp only [idsOf,List.flatMap_append,List.length_append] at fits
  rw [List.map_append,List.map_cons] at reading
  have taken : ∀ u ∈ full, Taken site.parse u := fun u member => ⟨posts u member,valid u (by simp [member])⟩
  obtain ⟨t,c',seen,run,ending,same,carried⟩ := readsAll reading (chainedOnward chained).1 taken
    (fun mine page member => representable mine page (by rw [pagesAppend]; exact List.mem_append_left _ member)) forwarded
    (by simp only [idsOf,List.nil_append]; omega)
  exact ⟨t,c',seen,run,ending,same,carried⟩

/-- A traversal whose pages all have posts completes with their union staged, where no page brings a post back to a
content that its source had before; and the first page without any ends it. -/
theorem traversalCompletes {start : Archive} {now labels} {visits : List Visit} (openedAt : DateTime)
    (reached : Transition.Run (Archive.step site) free (Archive.start now) labels start)
    (alive : index ∉ start.world.abandoned) (found : start.world.processes[index]? = some (service.fresh account))
    (connected : start.world.db.accounts.find account = some row) (chained : Chained visits)
    (valid : ∀ v ∈ visits, v.page.Valid site.parse)
    (representable : service = .snapshot → Representable site row.internalUserId visits)
    (available : Available site.config.readGate account start.world.db (visits.map Visit.reservedAt))
    (few : ((service.current start.world.db account (service.target start.world.db account)).card : Int) ≤ maxI32)
    (fits : ((idsOf visits).length : Int) ≤ maxI32) :
    ((∀ v ∈ visits, v.page.envelope.data ≠ []) → Forwarded site service account start.books visits →
      ∀ completedAt committedAt, ∃ a runId snapshotId,
        Transition.Run (Archive.step site) (Lone index) start (traversal index openedAt visits completedAt committedAt) a ∧
        a.world.processes[index]? = some (service.completed account runId snapshotId) ∧
        (∀ id ∈ idsOf visits, ∃ post, a.world.db.postId id = some post) ∧
        ∀ post, ((service.items a.world.db).find (snapshotId,post)).isSome = true ↔ Shown a.world.db (idsOf visits) post) ∧
    ∀ full v rest, visits = full ++ v::rest → (∀ u ∈ full, u.page.envelope.data ≠ []) →
      Forwarded site service account start.books full → v.page.envelope.data = [] →
      ∀ failedAt, ∃ a, Transition.Run (Archive.step site) (Lone index) start (refusal index openedAt full v failedAt) a ∧
        a.world.processes[index]? = some (service.failed account .normalize) := by
  obtain ⟨_,w,reached',mirrors⟩ := mirroredRun reached
  have anchored : Anchored start.world.db := mirrors.db ▸ anchoredRun reached'
  obtain ⟨s,c,first,books,reading⟩ := opens ⟨alive,found⟩ anchored connected available (soundRun reached)
  constructor
  · intro posts forwarded completedAt committedAt
    obtain ⟨full,last,rfl⟩ : ∃ full last, visits = full ++ [last] := by
      cases visits using List.reverseRecOn with
      | nil => exact absurd chained id
      | append_singleton full last => exact ⟨full,last,rfl⟩
    rw [← books] at forwarded
    obtain ⟨t,c',seen,second,ending,same,carried⟩ := readsUpTo reading chained valid representable fits
      (fun u member => posts u (by simp [member])) (forwardedTake forwarded)
    obtain ⟨batch,accepted,some_,sorted⟩ := pageTaken ⟨posts last (by simp),valid last (by simp)⟩
    have all : (seen ++ batch.posts.map NormalizedPost.providerId).Perm (idsOf (full ++ [last])) := by
      simpa [idsOf] using same.append sorted
    have shown : (batch,last.fetchedAt) ∈ pagesOf site.parse (full ++ [last]) := by
      rw [pagesAppend,pagesCons accepted]
      exact List.mem_append_right _ List.mem_cons_self
    obtain ⟨u,third,complete,_⟩ := reads ending accepted some_ (by rw [all.length_eq]; exact fits)
      (fun mine => representable mine _ shown) ((forwardedOne accepted).mp ((carried [last]).mpr forwarded))
    rw [show last.page.nextToken = none from (chainedOnward chained).2] at complete
    obtain ⟨w,fourth,done,known,staged⟩ := closes completedAt committedAt complete few (by rw [all.length_eq]; exact fits)
    refine ⟨w,_,_,first.append ?_,done,fun id member => known id (all.mem_iff.mpr member),?_⟩
    · rw [List.flatMap_append,List.flatMap_singleton]
      exact (second.append third).append fourth
    · intro post
      simp only [staged post,Shown,all.mem_iff]
  · rintro full v rest rfl posts forwarded empty failedAt
    obtain ⟨t,c',seen,second,ending,_⟩ := readsUpTo reading chained valid representable fits posts (books ▸ forwarded)
    have refused : (v.page.page site.parse).normalized = none := pageRefused.mpr (fun taken => taken.1 empty)
    obtain ⟨w,third,failed⟩ := refusesPage failedAt ending refused
    exact ⟨w,first.append (second.append third),failed⟩

end Traversals

section Sample

instance availableDecidable (gate account) : ∀ db instants, Decidable (Available gate account db instants)
  | _,[] => .isTrue trivial
  | db,now::rest => match paid : gate.reserve db account 1 now with
    | .ok (after,_) => match availableDecidable gate account after rest with
      | .isTrue later => .isTrue ⟨after,_,paid,later⟩
      | .isFalse short => .isFalse (by
        rintro ⟨after',r,paid',later⟩
        rw [paid] at paid'
        cases paid'
        exact short later)
    | .error _ => .isFalse (by
      rintro ⟨after',r,paid',_⟩
      rw [paid] at paid'
      cases paid')

def sampleSha (semantic : Envelopes.Semantic) : String :=
  match semantic.providerId,semantic.text with
  | "100","text" => "23f95f07f3dd627bd40832dc1658eb23ce0ec982b30dd854447bcbae37499e42"
  | "200","text" => "c6081657972a1effc0e0d54283c65336e3170ff93fb56653d9573006751b3471"
  | "100","edited" => "2c5a8603eeb5d0d714c7f3c6eab6372c65f5e3fc7a6ba54f4c56f0e74db6463a"
  | _,_ => ""

def sampleSite : Site := ⟨sampleConfig,⟨⟨sampleSha,fun _ => true⟩,fun _ => true⟩,sampleParse⟩

def owner : Account := ⟨1,7,.connected⟩

def linked : World := (World.step sampleConfig sampleStart (.connectAccount owner)).get (by decide +kernel)

/- The call of the service on an account without any posts. -/
def entered (service : Service) : Archive :=
  {Archive.start sampleInstant with world := {linked with processes := [service.fresh 1]}}

theorem entersFresh (service : Service) : Transition.Run (Archive.step sampleSite) free (Archive.start sampleInstant)
    [.call (.connectAccount owner),.call (.spawn (service.fresh 1))] (entered service) := by
  have first : World.step sampleSite.config (Archive.start sampleInstant).world (.connectAccount owner) =
      some linked := (Option.some_get _).symm
  have connected : Archive.step sampleSite (Archive.start sampleInstant) (.call (.connectAccount owner)) =
      some {Archive.start sampleInstant with world := linked} := by
    simp only [Archive.step,Archive.plain,if_true,first,Option.map_some]
  refine .cons trivial connected (.cons trivial ?_ (.nil _))
  cases service <;> rfl

def visit (page : ProviderPage) : Visit := ⟨page,sampleInstant,sampleInstant,sampleInstant,page.ids.dedup,.refl _⟩

def twoPages : List Visit := [visit (samplePage ["100"] (some "more")),visit (samplePage ["200","100"] none)]

theorem validWhere {visits : List Visit} (normalized : ∀ v ∈ visits, (v.page.page sampleParse).normalized.isSome = true) :
    ∀ v ∈ visits, v.page.Valid sampleParse := by
  intro v member
  obtain ⟨ids,some_⟩ := Option.isSome_iff_exists.mp (normalized v member)
  exact (pageNormalized some_).2.2

theorem sampleRepresentable (visits : List Visit) : Representable sampleSite 7 visits := by
  intro page member id o sighted sourceId
  simp [Envelopes.SourceFacts.snapshot,sampleSite]

theorem twoPagesForward : Forwarded sampleSite .snapshot 1 (entered .snapshot).books twoPages := by
  intro _
  rw [onwardNew (fun _ => rfl) (fun _ => digestsShown)]
  decide +kernel

theorem twoPagesComplete : ∃ a runId snapshotId,
    Transition.Run (Archive.step sampleSite) (Lone 0) (entered .snapshot)
      (traversal 0 sampleInstant twoPages sampleInstant sampleInstant) a ∧
    a.world.processes[0]? = some (Service.snapshot.completed 1 runId snapshotId) ∧
    (∀ id ∈ idsOf twoPages, ∃ post, a.world.db.postId id = some post) ∧
    ∀ post, (a.world.db.snapshotItems.find (snapshotId,post)).isSome = true ↔ Shown a.world.db (idsOf twoPages) post :=
  (traversalCompletes sampleInstant (entersFresh .snapshot) (by decide) (by rfl) (show _ = some owner by decide +kernel)
    (show Chained twoPages from ⟨rfl,rfl⟩) (validWhere (by decide +kernel)) (fun _ => sampleRepresentable twoPages) (by decide +kernel)
    (by decide +kernel) (by decide +kernel)).1 (by decide) twoPagesForward sampleInstant sampleInstant

def emptyPage : ProviderPage := samplePage [] none

/- An account without any posts: the source returns one page, and it has none. -/
def emptied : Archive :=
  (replay (Archive.step sampleSite) (Lone 0) (entered .snapshot)
    (refusal 0 sampleInstant [] (visit emptyPage) sampleInstant)).get (by decide +kernel)

theorem emptyTraversalFails : ¬∀ (site : Site) (service : Service) index account (row : Account) (start : Archive) now labels visits
    openedAt, Transition.Run (Archive.step site) free (Archive.start now) labels start → index ∉ start.world.abandoned →
    start.world.processes[index]? = some (service.fresh account) → start.world.db.accounts.find account = some row →
    Chained visits → (∀ v ∈ visits, v.page.Valid site.parse) → Representable site row.internalUserId visits →
    Available site.config.readGate account start.world.db (visits.map Visit.reservedAt) →
    ((service.current start.world.db account (service.target start.world.db account)).card : Int) ≤ maxI32 →
    ((idsOf visits).length : Int) ≤ maxI32 → ∀ completedAt committedAt, ∃ a runId snapshotId,
      Transition.Run (Archive.step site) (Lone index) start (traversal index openedAt visits completedAt committedAt) a ∧
      a.world.processes[index]? = some (service.completed account runId snapshotId) := by
  intro claim
  obtain ⟨a,runId,snapshotId,run,_⟩ := claim sampleSite .snapshot 0 1 owner (entered .snapshot) sampleInstant _
    [visit emptyPage] sampleInstant (entersFresh .snapshot) (by decide) (by rfl) (show _ = some owner by decide +kernel) rfl
    (by simp [visit,emptyPage,samplePage,ProviderPage.Valid]) (sampleRepresentable _) (by decide +kernel) (by decide +kernel)
    (by decide +kernel) sampleInstant sampleInstant
  have refused : Transition.Run (Archive.step sampleSite) (Lone 0) (entered .snapshot)
      (refusal 0 sampleInstant [] (visit emptyPage) sampleInstant) emptied := replayRun (Option.some_get _).symm
  have cut : traversal 0 sampleInstant [visit emptyPage] sampleInstant sampleInstant =
      refusal 0 sampleInstant [] (visit emptyPage) sampleInstant ++ going 0 sampleInstant := rfl
  rw [cut] at run
  obtain ⟨t,first,last⟩ := run.split
  cases refused.unique first
  -- The call has returned its error, and no point of it is left.
  have ending : Archive.step sampleSite {emptied with world := {emptied.world with now := sampleInstant}}
      (.call (.advance 0 .ok)) = none := by rfl
  cases last with
  | cons _ ticked later =>
    cases Option.some.inj ticked
    cases later with
    | cons _ taken _ =>
      rw [ending] at taken
      cases taken

end Sample
end RatatoskrX.FullTraversals
