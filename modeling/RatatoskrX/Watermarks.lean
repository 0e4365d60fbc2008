import RatatoskrX.Evidence
import RatatoskrX.RunEndings
import RatatoskrX.ScanRuns

/-! What a completed scan commits of the feed it read. The feed shows the newest bookmark
first, and the normalizer orders a page by the ids of its posts, which say when a post was
written and not when it was saved. -/
namespace RatatoskrX.Watermarks
open Relational Schema Snapshot Incremental Journal Frames SyncCalls Schedule Transition Staging Registry Observations
open Gaps Alone ScanRuns

def Shows (db : Database) (account : Uuid) (providerId : String) : Prop :=
  ∃ post, db.postId providerId = some post ∧ db.Active account post

def firstShown (pages : List BookmarkPage) : Option String := (pages.flatMap (fun page => page.normalized.getD [])).head?

def AllShown (db : Database) (account : Uuid) (pages : List BookmarkPage) : Prop :=
  ∀ page ∈ pages, ∃ providerIds, page.normalized = some providerIds ∧ ∀ id ∈ providerIds, Shows db account id

theorem newestFirst (pages page) : newestOf (firstShown pages) page = firstShown (pages ++ [page]) := by
  unfold firstShown
  rw [List.flatMap_append,List.flatMap_singleton,List.head?_append]
  cases (pages.flatMap (fun page => page.normalized.getD [])).head? <;> rfl

theorem AllShown.grow {db after account pages} (shown : AllShown db account pages)
    (grows : ∀ id, Shows db account id → Shows after account id) : AllShown after account pages := by
  intro page member
  obtain ⟨providerIds,normalized,each⟩ := shown page member
  exact ⟨providerIds,normalized,fun id inside => grows id (each id inside)⟩

section Kept
variable {db after : Database} {account runId : Uuid} {page : BookmarkPage} {t : DateTime} {c : Commit} {providerId : String}

theorem observedShown (ok : observePage db account runId page t = .ok after) :
    ∃ providerIds, page.normalized = some providerIds ∧ ∀ id ∈ providerIds, Shows after account id := by
  obtain ⟨providerIds,items,normalized,rfl⟩ := observedForm ok
  refine ⟨providerIds,normalized,?_⟩
  intro id member
  obtain ⟨post,named⟩ := persistKnown db member
  refine ⟨post,(postIdSame (observedPosts db account runId providerIds t) id).trans named,?_⟩
  obtain ⟨_,row⟩ := observedRow account runId t ((persistPosts db providerIds).2.map Prod.snd) (persistPosts db providerIds).1
    account post
  rw [if_pos ⟨rfl,persistShown.mpr ⟨id,member,named⟩⟩] at row
  refine ⟨_,row,?_⟩
  cases (persistPosts db providerIds).1.bookmark account post <;> rfl

theorem observedStill (ok : observePage db account runId page t = .ok after) (shows : Shows db account providerId) :
    Shows after account providerId := by
  obtain ⟨post,named,active⟩ := shows
  have applied : Commit.effect (.observePage account runId page t) db = some after := by
    simp [Commit.effect,ok,Except.toOption]
  refine ⟨post,postKeeps applied named,?_⟩
  obtain ⟨providerIds,items,_,rfl⟩ := observedForm ok
  exact Evidence.observedKeeps account runId t _ (Evidence.activeOf ((persistPostsFrame providerIds db).bookmarks (by simp)) active)

theorem touchedStill (applied : c.effect db = some after) (away : Relation.bookmarks ∉ touched c)
    (shows : Shows db account providerId) : Shows after account providerId := by
  obtain ⟨post,named,b,found,active⟩ := shows
  exact ⟨post,postKeeps applied named,b,(sameRows ((frame applied).bookmarks away) account post).trans found,active⟩

end Kept

def Scanned (account : Uuid) (db : Database) (pages : List BookmarkPage) : ScanPc → Prop
  | .load | .create _ => pages = []
  | .head state | .fetch state => AllShown db account pages ∧ state.newest = firstShown pages
  | .compare state page => ∃ prior, pages = prior ++ [page] ∧ AllShown db account prior ∧ state.newest = firstShown prior
  | .observe state page _ _ =>
    ∃ prior, pages = prior ++ [page] ∧ AllShown db account prior ∧ state.newest = firstShown pages
  | .complete state _ => pages ≠ [] ∧ AllShown db account pages ∧ state.newest = firstShown pages
  | .done (.ok (.completed _ _)) =>
    pages ≠ [] ∧ AllShown db account pages ∧ (loadState db account).1 = firstShown pages
  | _ => True

theorem brokenScanned {account db pages pc} (broken : Broken pc) : Scanned account db pages pc := by
  unfold Broken at broken
  split at broken
  · trivial
  · trivial
  · trivial
  · trivial
  · exact absurd broken id

section Runs
variable {config : Config} {index : Nat} {call : ScanCall} {start w t : World} {a : Action} {labels : List Action}
  {pages : List BookmarkPage}

def answered : Answer → List BookmarkPage
  | .page page => [page]
  | _ => []

theorem answeredOk (pages : List BookmarkPage) : pages ++ answered .ok = pages := List.append_nil pages

theorem scannedAfter {gate account pageCap start db now answer pages} {pc s} (scanned : Scanned account db pages pc)
    (place : Place start account db pc) (moves : ScanMoves gate account pageCap db now answer pc s) :
    Scanned account s.db (pages ++ answered answer) s.next := by
  cases moves with
  | refused | unread => trivial
  | gap _ _ ending => rcases ending with rfl | rfl <;> trivial
  | loaded => simpa [answered,Scanned] using scanned
  | @created watermark after runId made =>
    cases show pages = [] from scanned
    exact ⟨by simp [AllShown,answered],rfl⟩
  | @charged state after reservation _ paid =>
    obtain ⟨shown,newest⟩ := scanned
    have applied : Commit.effect (.charge gate account 1 now) db = some after := by
      simp [Commit.effect,paid,Except.toOption]
    rw [answeredOk]
    exact ⟨shown.grow (fun _ => touchedStill applied (by simp [touched])),newest⟩
  | @fetched state page =>
    obtain ⟨shown,newest⟩ := scanned
    exact ⟨pages,rfl,shown,newest⟩
  | @compared state page ids normalized =>
    obtain ⟨prior,rfl,shown,newest⟩ := scanned
    rw [answeredOk]
    refine ⟨prior,rfl,shown,?_⟩
    rw [← newestFirst,← newest]
  | @observed state page reached t after seen =>
    obtain ⟨prior,rfl,shown,newest⟩ := scanned
    rw [answeredOk]
    have all : AllShown after account (prior ++ [page]) := by
      intro other member
      rcases List.mem_append.mp member with old | fresh
      · exact (shown.grow (fun _ => observedStill seen)) other old
      · cases List.mem_singleton.mp fresh
        exact observedShown seen
    unfold scanOnward
    split
    · exact ⟨by simp,all,newest⟩
    · split
      · trivial
      · exact ⟨all,newest⟩
  | @completed answer state t after result applied ending =>
    obtain ⟨some_,shown,newest⟩ := scanned
    cases place with
    | working _ _ _ owned =>
      rcases ending with ⟨rfl,rfl⟩ | ⟨_,rfl⟩
      · rw [answeredOk]
        refine ⟨some_,shown.grow (fun _ => ?_),?_⟩
        · exact touchedStill (c := .completeScan state.runId state.newest t) applied (by simp [touched])
        · rw [completedState (owned state rfl) applied]
          exact newest
      · trivial
  | broken _ _ after => exact brokenScanned after

theorem pagesSplit (first second : List Action) : pagesOf (first ++ second) = pagesOf first ++ pagesOf second :=
  List.filterMap_append ..

def Read (index : Nat) (call : ScanCall) (start w : World) (pages : List BookmarkPage) : Prop :=
  ∃ pc, At index call w pc ∧ Place start.db call.accountId w.db pc ∧ Scanned call.accountId w.db pages pc

theorem readStep (read : Read index call start w pages) (alone : Only index w a)
    (taken : World.step config w a = some t) : Read index call start t (pages ++ pagesOf [a]) := by
  obtain ⟨pc,there,place,scanned⟩ := read
  rcases scanTurn there place.sound alone taken with ⟨⟨now,rfl⟩,same,there'⟩ | ⟨answer,s,rfl,moves,same,there'⟩
  · refine ⟨pc,there',same ▸ place,?_⟩
    rw [same]
    simpa [pagesOf] using scanned
  · refine ⟨s.next,there',same ▸ placeAfter place moves,?_⟩
    have named : pagesOf [.advance index answer] = answered answer := by cases answer <;> rfl
    rw [same,named]
    exact scannedAfter scanned place moves

theorem readRun (run : Transition.Run (World.step config) (Only index) w labels t) (read : Read index call start w pages) :
    Read index call start t (pages ++ pagesOf labels) := by
  induction run generalizing pages with
  | nil => simpa [pagesOf] using read
  | @cons s a u rest v alone taken later ih =>
    have onward := ih (readStep read alone taken)
    rw [List.append_assoc,← pagesSplit] at onward
    exact onward

end Runs

section Heads
variable {ids : List String}

theorem sortedHead {least : String} (first : (ids.insertionSort (· ≤ ·)).head? = some least) :
    least ∈ ids ∧ ∀ id ∈ ids, least ≤ id := by
  have sorted := List.pairwise_insertionSort (· ≤ ·) ids
  obtain ⟨rest,form⟩ := List.head?_eq_some_iff.mp first
  rw [form] at sorted
  have members : ∀ {id}, id ∈ ids ↔ id = least ∨ id ∈ rest := by
    intro id
    rw [← List.mem_insertionSort (· ≤ ·),form,List.mem_cons]
  refine ⟨members.mpr (.inl rfl),?_⟩
  intro id member
  rcases members.mp member with rfl | later
  · exact le_refl _
  · exact (List.pairwise_cons.mp sorted).1 id later

theorem leastFirst {head : String} (first : ids.head? = some head) :
    (ids.insertionSort (· ≤ ·)).head? = some head ↔ ∀ id ∈ ids, head ≤ id := by
  constructor
  · exact fun sorted => (sortedHead sorted).2
  · intro least
    obtain ⟨rest,rfl⟩ := List.head?_eq_some_iff.mp first
    cases sorted : ((head::rest).insertionSort (· ≤ ·)).head? with
    | none =>
      have empty := List.length_insertionSort (· ≤ ·) (head::rest)
      rw [List.head?_eq_none_iff.mp sorted] at empty
      cases empty
    | some other =>
      obtain ⟨member,below⟩ := sortedHead sorted
      rw [le_antisymm (below head List.mem_cons_self) (least other member)]

end Heads

section Feeds
variable {config : Config} {index : Nat} {call : ScanCall} {start w : World} {labels : List Action}
  {parse : String → Option DateTime} {served : List ProviderPage} {runId : Uuid} {newest : Option String}

/- The first entry of the first page: the bookmark that the feed shows as the newest. -/
def feedHead (served : List ProviderPage) : Option String := served.head?.bind (fun p => p.ids.head?)

/- What the completion of a scan promises of the pages it read. -/
structure HeadKept (parse : String → Option DateTime) (w : World) (account : Uuid) (served : List ProviderPage) : Prop where
  watermark : (loadState w.db account).1 = feedHead served
  active : ∀ p ∈ served, ∀ id ∈ p.ids, Shows w.db account id
  stops : ∀ p : ProviderPage, p.envelope.data ≠ [] → p.Valid parse →
    (reachedWatermark w.db account (p.page parse) = true ↔ ∃ id ∈ p.ids, feedHead served = some id)

/- The entry that the feed shows first is the oldest post of its page. -/
def OldestFirst (served : List ProviderPage) : Prop :=
  ∀ p head, served.head? = some p → p.ids.head? = some head → ∀ id ∈ p.ids, head ≤ id

theorem stopsAt {db : Database} {account watermark} (committed : (loadState db account).1 = watermark) {p : ProviderPage}
    (some_ : p.envelope.data ≠ []) (valid : p.Valid parse) :
    reachedWatermark db account (p.page parse) = true ↔ ∃ id ∈ p.ids, watermark = some id := by
  cases shown : (p.page parse).normalized with
  | none => exact absurd ⟨some_,valid⟩ (pageRefused.mp shown)
  | some ids =>
    obtain ⟨rfl,_⟩ := pageNormalized shown
    unfold reachedWatermark
    rw [committed,shown]
    cases watermark with
    | none => simp
    | some id => simp

/-- A completed scan keeps the promise exactly when the head of the feed is the oldest
post of its page. -/
theorem headKeptExactly (first : At index call start .load)
    (run : Transition.Run (World.step config) (Only index) start labels w)
    (ending : At index call w (.done (.ok (.completed runId newest))))
    (pages : pagesOf labels = served.map (ProviderPage.page parse)) :
    HeadKept parse w call.accountId served ↔ OldestFirst served := by
  have unread : Read index call start start [] := ⟨.load,first,.entering rfl,rfl⟩
  obtain ⟨pc,there,_,scanned⟩ := readRun run unread
  cases atUnique there ending
  rw [List.nil_append,pages] at scanned
  obtain ⟨some_,shown,watermark⟩ := scanned
  obtain ⟨p,rest,rfl⟩ : ∃ p rest, served = p::rest := by
    cases served with
    | nil => exact absurd rfl some_
    | cons p rest => exact ⟨p,rest,rfl⟩
  have accepted : ∀ q ∈ p::rest, (q.page parse).normalized = some (q.ids.insertionSort (· ≤ ·)) ∧ q.envelope.data ≠ [] ∧
      ∀ id ∈ q.ids, Shows w.db call.accountId id := by
    intro q member
    obtain ⟨ids,normalized,each⟩ := shown _ (List.mem_map_of_mem member)
    obtain ⟨rfl,filled,_⟩ := pageNormalized normalized
    exact ⟨normalized,filled,fun id inside => each id ((List.mem_insertionSort _).mpr inside)⟩
  obtain ⟨normalized,filled,_⟩ := accepted p List.mem_cons_self
  obtain ⟨head,top⟩ : ∃ head, p.ids.head? = some head := by
    cases data : p.envelope.data with
    | nil => exact absurd data filled
    | cons post posts => exact ⟨post.providerId,by simp [ProviderPage.ids,data]⟩
  have committed : (loadState w.db call.accountId).1 = (p.ids.insertionSort (· ≤ ·)).head? := by
    rw [watermark,firstShown,List.map_cons,List.flatMap_cons,normalized,Option.getD_some,List.head?_append]
    cases sorted : (p.ids.insertionSort (· ≤ ·)).head? with
    | some least => rfl
    | none =>
      have empty := List.length_insertionSort (· ≤ ·) p.ids
      rw [List.head?_eq_none_iff.mp sorted] at empty
      rw [List.length_eq_zero_iff.mp empty.symm] at top
      cases top
  have named : feedHead (p::rest) = some head := top
  constructor
  · rintro ⟨kept,_,_⟩
    intro p' head' there top'
    cases Option.some.inj there
    rw [top] at top'
    cases Option.some.inj top'
    exact (leastFirst top).mp (committed.symm.trans (kept.trans named))
  · intro oldest
    have kept : (loadState w.db call.accountId).1 = feedHead (p::rest) :=
      committed.trans (((leastFirst top).mpr (oldest p head rfl top)).trans named.symm)
    exact ⟨kept,fun q member => (accepted q member).2.2,fun q filled valid => stopsAt kept filled valid⟩

end Feeds

section Sample
open RunEndings (scanning scans)

def readsOne (p : ProviderPage) : List Action := advances 0 2 ++ scans (p.page sampleParse) 3

def ascending : ProviderPage := samplePage ["100","200"] none

def ascended : World :=
  (replay (World.step sampleConfig) (Only 0) scanning (readsOne ascending)).get (by decide +kernel)

/- The bookmark that was saved last is of the younger post. -/
def descending : ProviderPage := samplePage ["200","100"] none

def descended : World :=
  (replay (World.step sampleConfig) (Only 0) scanning (readsOne descending)).get (by decide +kernel)

theorem headKeptAscending : (loadState ascended.db 1).1 = some "100" ∧
    (HeadKept sampleParse ascended 1 [ascending] ↔ OldestFirst [ascending]) :=
  ⟨by decide +kernel,@headKeptExactly sampleConfig 0 ⟨1,5,5,.load⟩ scanning ascended (readsOne ascending) sampleParse
    [ascending] 1 (some "100") (by rfl) (replayRun (Option.some_get _).symm) (by rfl) (by rfl)⟩

theorem youngerHeadLost : ¬∀ config index call start labels w parse served runId newest, At index call start .load →
    Transition.Run (World.step config) (Only index) start labels w →
    At index call w (.done (.ok (.completed runId newest))) → pagesOf labels = served.map (ProviderPage.page parse) →
    HeadKept parse w call.accountId served := by
  intro claim
  have kept := claim sampleConfig 0 ⟨1,5,5,.load⟩ scanning (readsOne descending) descended sampleParse [descending] 1
    (some "100") (by rfl) (replayRun (Option.some_get _).symm) (by rfl) (by rfl)
  have committed : (loadState descended.db 1).1 = some "100" := by decide +kernel
  have head := kept.watermark
  have other : feedHead [descending] = some "200" := by decide +kernel
  rw [committed,other] at head
  simp at head

end Sample
end RatatoskrX.Watermarks
