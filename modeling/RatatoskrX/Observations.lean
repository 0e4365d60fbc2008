import RatatoskrX.Recency

/-! The bookmark rows over whole runs: what each transaction makes of one row, whether
the columns that record a removal name the removal, and whether the observation times
only move forward. -/
namespace RatatoskrX.Observations
open Outcome Relational Schema Snapshot Incremental Writeback Journal Frames Reconciliation SyncCalls WriteCalls Schedule
open Transition Staging Registry Recency

def shownPosts (db : Database) (page : BookmarkPage) : List Uuid :=
  (persistPosts db (page.normalized.getD [])).2.map Prod.snd

/- The observation time that a transaction writes to the row of one account and post. -/
def observesAt (db : Database) (account post : Uuid) : Commit → Option DateTime
  | .completeRun a run _ =>
    if a = account then (db.snapshotItems.find (run.snapshotId,post)).map SnapshotItem.observedAt else none
  | .observePage a _ page t => if a = account ∧ post ∈ shownPosts db page then some t else none
  | .completeConfirmed _ a providerPostId .add _ t =>
    if a = account ∧ db.postId providerPostId = some post then some t else none
  | _ => none

inductive RowMoves (db : Database) (account post : Uuid) (old : Option Bookmark) : Commit → Bookmark → Prop where
  | kept {c b} (same : old = some b) (silent : observesAt db account post c = none) : RowMoves db account post old c b
  | saved {run t item id}
      (observed : observesAt db account post (.completeRun account run t) = some item.observedAt) :
      RowMoves db account post old (.completeRun account run t)
        (old.elim {savedRow account item with id := id} (resaved item))
  | struck {run t b} (same : old = some b) (active : b.observedRemovedAt = none)
      (silent : observesAt db account post (.completeRun account run t) = none) :
      RowMoves db account post old (.completeRun account run t) (struck run.snapshotId t b)
  | observed {runId page t id} (observed : observesAt db account post (.observePage account runId page t) = some t) :
      RowMoves db account post old (.observePage account runId page t)
        (old.elim ⟨id,account,post,t,t,none,none,none,none,none,some runId⟩ (reobserved runId t))
  | added {operationId providerPostId requestId t id}
      (observed : observesAt db account post (.completeConfirmed operationId account providerPostId .add requestId t) =
        some t) :
      RowMoves db account post old (.completeConfirmed operationId account providerPostId .add requestId t)
        (old.elim ⟨id,account,post,t,t,none,none,some operationId,some t,none,none⟩ (addedRow operationId t))
  | removed {operationId providerPostId requestId t b} (named : db.postId providerPostId = some post)
      (same : old = some b) :
      RowMoves db account post old (.completeConfirmed operationId account providerPostId .remove requestId t)
        (removedRow operationId t b)

/- The row after a transaction; no transaction deletes one. -/
def RowAfter (db after : Database) (c : Commit) (account post : Uuid) : Prop :=
  (db.bookmark account post = none ∧ after.bookmark account post = none) ∨
    ∃ b, after.bookmark account post = some b ∧ RowMoves db account post (db.bookmark account post) c b

theorem rowSame {db after : Database} {c account post} (same : after.bookmark account post = db.bookmark account post)
    (silent : observesAt db account post c = none) : RowAfter db after c account post := by
  cases found : db.bookmark account post with
  | none => exact .inl ⟨found,same.trans found⟩
  | some b => exact .inr ⟨b,same.trans found,.kept found silent⟩

theorem sameRows {db after : Database} (same : after.bookmarks = db.bookmarks) (account post) :
    after.bookmark account post = db.bookmark account post := by
  unfold Database.bookmark
  rw [same]

theorem observedRow (account runId t) (posts : List Uuid) (db : Database) (a post) :
    ∃ id, (upsertObservedBookmarks db account runId posts t).bookmark a post =
      if a = account ∧ post ∈ posts then
        some ((db.bookmark a post).elim ⟨id,account,post,t,t,none,none,none,none,none,some runId⟩ (reobserved runId t))
      else db.bookmark a post := by
  unfold upsertObservedBookmarks
  induction posts generalizing db with
  | nil => exact ⟨0,by simp⟩
  | cons head rest ih =>
    have row : (observeBookmark account runId t db head).bookmark a post = if (account,head) = (a,post) then _ else _ :=
      Database.bookmarkUpsert ..
    obtain ⟨id,later⟩ := ih (observeBookmark account runId t db head)
    rw [row] at later
    by_cases here : (account,head) = (a,post)
    · cases here
      refine ⟨freshId (db.bookmarks.rows.map Bookmark.id),?_⟩
      rw [if_pos rfl] at later
      rw [List.foldl_cons,later]
      cases db.bookmark account post <;> simp
    · rw [if_neg here] at later
      refine ⟨id,?_⟩
      rw [List.foldl_cons,later]
      have narrow : (a = account ∧ post ∈ head::rest) ↔ (a = account ∧ post ∈ rest) := by
        constructor
        · rintro ⟨rfl,member⟩
          rcases List.mem_cons.mp member with rfl | inside
          · exact absurd rfl here
          · exact ⟨rfl,inside⟩
        · exact fun h => ⟨h.1,List.mem_cons_of_mem _ h.2⟩
      simp only [narrow]

theorem rowAfter {c : Commit} {db after} (applied : c.effect db = some after) (account post) :
    RowAfter db after c account post := by
  have agree := frame applied
  cases c with
  | completeRun a run t =>
    have ok := accepted applied
    by_cases mine : account = a
    · subst mine
      by_cases staged : db.Staged run.snapshotId post
      · obtain ⟨item,member,rfl⟩ := Database.stagedItem.mp staged
        obtain ⟨id,found⟩ := swappedStaged db member
        obtain ⟨inside,same⟩ := List.mem_filter.mp member
        have present : db.snapshotItems.find (run.snapshotId,item.postId) = some item :=
          Table.findIff.mpr ⟨inside,by rw [← show item.snapshotId = run.snapshotId by simpa using same]⟩
        exact .inr ⟨_,(committedBookmark ok _ _).trans found,.saved (by simp [observesAt,present])⟩
      · have absent : db.snapshotItems.find (run.snapshotId,post) = none := by simpa [Database.Staged] using staged
        have silent : observesAt db account post (.completeRun account run t) = none := by simp [observesAt,absent]
        have found := (committedBookmark ok account post).trans (swappedUnstaged db staged)
        cases old : db.bookmark account post with
        | none => exact .inl ⟨old,by rw [found,old]; rfl⟩
        | some b =>
          rw [old,Option.map_some] at found
          by_cases active : b.observedRemovedAt = none
          · rw [if_pos active] at found
            exact .inr ⟨_,found,by rw [old]; exact .struck rfl active silent⟩
          · rw [if_neg active] at found
            exact .inr ⟨b,found,.kept old silent⟩
    · exact rowSame (committedOther ok mine) (by simp [observesAt,Ne.symm mine])
  | observePage a runId page t =>
    obtain ⟨providerIds,items,normalized,rfl⟩ := observedForm (accepted applied)
    have persisted := sameRows ((persistPostsFrame providerIds db).bookmarks (by simp)) account post
    obtain ⟨id,found⟩ := observedRow a runId t ((persistPosts db providerIds).2.map Prod.snd)
      (persistPosts db providerIds).1 account post
    have shows : shownPosts db page = (persistPosts db providerIds).2.map Prod.snd := by
      rw [shownPosts,normalized,Option.getD_some]
    rw [persisted] at found
    split at found
    · rename_i shown
      obtain ⟨rfl,shown⟩ := shown
      exact .inr ⟨_,found,.observed (if_pos ⟨rfl,by rw [shows]; exact shown⟩)⟩
    · rename_i elsewhere
      exact rowSame found (if_neg (by rw [shows]; exact fun h => elsewhere ⟨h.1.symm,h.2⟩))
  | completeConfirmed operationId a providerPostId action requestId t =>
    cases Option.some.inj applied
    have projected := sameRows ((confirmedRest db operationId a providerPostId action requestId t).bookmarks (by simp))
      account post
    unfold projectConfirmedBookmark at projected
    split at projected
    · rename_i unnamed
      exact rowSame projected (by cases action <;> simp [observesAt,unnamed])
    · rename_i target named
      cases action with
      | add =>
        have row := projected.trans (Database.bookmarkUpsert db
          ⟨0,a,target,t,t,none,none,some operationId,some t,none,none⟩ (addedRow operationId t) (fun _ => rfl)
          (fun _ => rfl) account post)
        split at row
        · rename_i here
          cases here
          exact .inr ⟨_,row,.added (if_pos ⟨rfl,named⟩)⟩
        · rename_i elsewhere
          exact rowSame row (by simpa [observesAt,named,Bookmark.key] using elsewhere)
      | remove =>
        have row := projected.trans (Database.bookmarkUpdate db (fun b => b.key = (a,target)) (removedRow operationId t)
          (fun _ => rfl) (fun _ => rfl) account post)
        cases old : db.bookmark account post with
        | none => exact .inl ⟨old,by rw [row,old]; rfl⟩
        | some b =>
          rw [old,Option.map_some] at row
          have keyed : b.key = (account,post) := Table.findKey old
          split at row
          · rename_i here
            have same : (account,post) = (a,target) := keyed.symm.trans (by simpa using here)
            cases same
            exact .inr ⟨_,row,by rw [old]; exact .removed named rfl⟩
          · exact .inr ⟨b,row,.kept old rfl⟩
  | _ => exact rowSame (sameRows (agree.bookmarks (by simp [touched])) account post) rfl

section Moves
variable {db : Database} {account post : Uuid} {old : Option Bookmark} {c : Commit} {b : Bookmark}

def confirms : Commit → Bool
  | .completeConfirmed .. => true
  | _ => false

theorem movesObserved (moves : RowMoves db account post old c b) {t} (observed : observesAt db account post c = some t) :
    b.lastObservedSavedAt = t ∧ b.observedRemovedAt = none ∧ b.observedRemovedSnapshotId = none ∧
      b.firstObservedSavedAt = (old.map Bookmark.firstObservedSavedAt).getD t ∧
      b.observedRemovedWriteOperationId =
        if confirms c then none else old.bind Bookmark.observedRemovedWriteOperationId := by
  cases moves with
  | kept _ silent | struck _ _ silent =>
    rw [silent] at observed
    simp at observed
  | saved written | observed written | added written =>
    rw [written] at observed
    cases Option.some.inj observed
    cases old <;> simp [confirms,savedRow]
  | removed => simp [observesAt] at observed

theorem movesUnobserved (moves : RowMoves db account post old c b) (silent : observesAt db account post c = none) :
    ∃ o, old = some o ∧ b.firstObservedSavedAt = o.firstObservedSavedAt ∧
      b.lastObservedSavedAt = o.lastObservedSavedAt := by
  cases moves with
  | kept same | struck same | removed _ same => exact ⟨_,same,rfl,rfl⟩
  | saved written | observed written | added written =>
    rw [silent] at written
    simp at written

end Moves

section Steps
variable {config : Config} {w t : World} {a : Action}

theorem stepLogs (taken : World.step config w a = some t) :
    t.db = w.db ∨ ∃ i c, t.log = w.log ++ [⟨i,.commit c⟩] ∧ c.effect w.db = some t.db := by
  rcases logAfter taken with ⟨_,same⟩ | ⟨e,logged,wrote⟩
  · exact .inl same
  · cases wrote with
    | external _ applied _ => exact .inr ⟨_,_,logged,applied⟩
    | commit _ _ _ _ applied _ => exact .inr ⟨_,_,logged,applied⟩
    | spoken _ _ _ _ same => exact .inl same

theorem loggedEffect (taken : World.step config w a = some t) {i c} (logged : t.log = w.log ++ [⟨i,.commit c⟩]) :
    c.effect w.db = some t.db := by
  cases wroteEntry taken logged with
  | external _ applied _ => exact applied
  | commit _ _ _ _ applied _ => exact applied
  | spoken _ _ _ utters _ =>
    unfold WriteCall.utters at utters
    split at utters <;> simp at utters

end Steps

section Runs
variable {config : Config} {now : DateTime} {labels : List Action} {w : World}

/- No step of the run commits a transaction of the kind. -/
def Never (kind : Database → Commit → Prop) (config : Config) (start : World) (labels : List Action) (w : World) : Prop :=
  ∀ p a q i c, Passes (World.step config) free start labels w p a q → q.log = p.log ++ [⟨i,.commit c⟩] → ¬kind p.db c

theorem unlessCommitted {kind : Database → Commit → Prop} (inv : Database → Prop) {start : World}
    (kept : ∀ db c after, inv db → c.effect db = some after → ¬kind db c → inv after)
    (run : Transition.Run (World.step config) free start labels w) (never : Never kind config start labels w)
    (first : inv start.db) : inv w.db := by
  have guarded : Transition.Run (World.step config)
      (fun p a => ∀ q i c, World.step config p a = some q → q.log = p.log ++ [⟨i,.commit c⟩] → ¬kind p.db c)
      start labels w := by
    refine run.meets _ ?_
    intro p a q passes q' i c taken logged
    obtain ⟨_,_,_,_,_,taken',_⟩ := id passes
    rw [taken] at taken'
    cases Option.some.inj taken'
    exact never p a q i c passes logged
  refine guarded.preserves (fun x => inv x.db) ?_ first
  intro p a q holds meets taken
  rcases stepLogs taken with same | ⟨i,c,logged,applied⟩
  · rw [same]
    exact holds
  · exact kept p.db c q.db holds applied (meets q i c taken logged)

theorem neverEarlier {kind : Database → Commit → Prop} {start p : World} {before after}
    (never : Never kind config start (before ++ after) w)
    (run : Transition.Run (World.step config) free start (before ++ after) w)
    (first : Transition.Run (World.step config) free start before p) : Never kind config start before p := by
  obtain ⟨x,first',rest⟩ := run.split
  cases first'.unique first
  rintro x a y i c ⟨earlier,later,rfl,begun,meets,taken,last⟩ logged
  exact never x a y i c ⟨earlier,later ++ after,by simp,begun,meets,taken,last.append rest⟩ logged

end Runs

section Removal

abbrev evidence (b : Bookmark) : Option DateTime × Option Uuid × Option Uuid :=
  (b.observedRemovedAt,b.observedRemovedSnapshotId,b.observedRemovedWriteOperationId)

/- The transaction is the removal that the columns of the row name. -/
def Names (db : Database) (b : Bookmark) : Commit → Prop
  | .completeRun account run t =>
    account = b.accountId ∧ b.observedRemovedAt = some t ∧ b.observedRemovedSnapshotId = some run.snapshotId
  | .completeConfirmed operationId account providerPostId .remove _ t =>
    account = b.accountId ∧ db.postId providerPostId = some b.postId ∧ b.observedRemovedAt = some t ∧
      b.observedRemovedWriteOperationId = some operationId
  | _ => False

/- The row of the account and post carries these columns. -/
def Marked (b : Bookmark) (db : Database) : Prop :=
  ∃ b', db.bookmark b.accountId b.postId = some b' ∧ evidence b' = evidence b

/- The columns that the row has at the end were written by the removal they name, and
have stood since. -/
def Produced (config : Config) (start : World) (labels : List Action) (w : World) (b : Bookmark) : Prop :=
  ∃ before a after p q i c, labels = before ++ a::after ∧ Transition.Run (World.step config) free start before p ∧
    World.step config p a = some q ∧ q.log = p.log ++ [⟨i,.commit c⟩] ∧ ¬Marked b p.db ∧ Names p.db b c ∧
    Transition.Run (World.step config) (fun s _ => Marked b s.db) q after w

structure Evident (b : Bookmark) : Prop where
  null : b.observedRemovedAt = none ↔ b.observedRemovedSnapshotId = none ∧ b.observedRemovedWriteOperationId = none
  single : b.observedRemovedAt ≠ none →
    (b.observedRemovedSnapshotId ≠ none ∧ b.observedRemovedWriteOperationId = none) ∨
      (b.observedRemovedSnapshotId = none ∧ b.observedRemovedWriteOperationId ≠ none)

/- Every row is evident, and the evidence of a removal is of the event that produced it. -/
def Coherent (config : Config) (start : World) (labels : List Action) (w : World) : Prop :=
  ∀ account post b, w.db.bookmark account post = some b →
    Evident b ∧ (b.observedRemovedAt ≠ none → Produced config start labels w b)

/- A snapshot completion or a scan's page shows a post whose row was removed by a
confirmed write, or still carries the operation of such a removal. -/
def Reactivates (db : Database) (c : Commit) : Prop :=
  confirms c = false ∧ ∃ account post b, db.bookmark account post = some b ∧
    b.observedRemovedWriteOperationId ≠ none ∧ observesAt db account post c ≠ none

theorem evidentMoves {db account post old c b} (sound : ∀ o, old = some o → Evident o)
    (moves : RowMoves db account post old c b)
    (fresh : confirms c = false → observesAt db account post c ≠ none →
      ∀ o, old = some o → o.observedRemovedWriteOperationId = none) : Evident b := by
  have active : b.observedRemovedAt = none → b.observedRemovedSnapshotId = none →
      b.observedRemovedWriteOperationId = none → Evident b :=
    fun live snapshot operation => ⟨by simp [live,snapshot,operation],fun removed => absurd live removed⟩
  cases observed : observesAt db account post c with
  | some t =>
    obtain ⟨_,live,snapshot,_,operation⟩ := movesObserved moves observed
    refine active live snapshot (operation.trans ?_)
    cases confirmed : confirms c with
    | true => rfl
    | false =>
      cases was : old with
      | none => rfl
      | some o => exact fresh confirmed (by simp [observed]) o was
  | none =>
    cases moves with
    | kept same => exact sound b same
    | @struck _ _ o same live _ =>
      have operation := ((sound o same).null.mp live).2
      exact ⟨by simp [operation],fun _ => .inl ⟨by simp,operation⟩⟩
    | removed => exact ⟨by simp,fun _ => .inr ⟨rfl,by simp⟩⟩
    | saved written | observed written | added written =>
      rw [observed] at written
      simp at written

theorem evidentAfter (db : Database) (c after) (sound : ∀ account post b, db.bookmark account post = some b → Evident b)
    (applied : c.effect db = some after) (quiet : ¬Reactivates db c) :
    ∀ account post b, after.bookmark account post = some b → Evident b := by
  intro account post b found
  rcases rowAfter applied account post with ⟨_,gone⟩ | ⟨b',found',moves⟩
  · rw [gone] at found
    simp at found
  · rw [found'] at found
    cases Option.some.inj found
    refine evidentMoves (fun o was => sound account post o was) moves ?_
    intro partly observed o was
    by_contra set
    exact quiet ⟨partly,account,post,o,was,set,observed⟩

theorem namedBy {db after : Database} {c : Commit} {b : Bookmark} (applied : c.effect db = some after)
    (removed : b.observedRemovedAt ≠ none) (absent : ¬Marked b db) (marked : Marked b after) : Names db b c := by
  obtain ⟨b',found,same⟩ := marked
  rcases rowAfter applied b.accountId b.postId with ⟨_,gone⟩ | ⟨row,found',moves⟩
  · rw [gone] at found
    simp at found
  rw [found] at found'
  cases Option.some.inj found'
  simp only [evidence,Prod.mk.injEq] at same
  obtain ⟨at_,snapshot,operation⟩ := same
  cases observed : observesAt db b.accountId b.postId c with
  | some t => exact absurd (at_ ▸ (movesObserved moves observed).2.1) removed
  | none =>
    cases moves with
    | kept was => exact absurd ⟨b',was,by simp [evidence,at_,snapshot,operation]⟩ absent
    | struck => exact ⟨rfl,at_.symm,snapshot.symm⟩
    | removed named => exact ⟨rfl,named,at_.symm,operation.symm⟩
    | saved written | observed written | added written =>
      rw [observed] at written
      simp at written

theorem produced {config now labels w} (run : Transition.Run (World.step config) free (World.start Database.empty now) labels w)
    {b} (removed : b.observedRemovedAt ≠ none) (marked : Marked b w.db) :
    Produced config (World.start Database.empty now) labels w b := by
  have absent : ¬Marked b (World.start Database.empty now).db := by
    rintro ⟨_,found,_⟩
    simp [World.start,Database.bookmark,Database.empty,Table.empty,Table.find] at found
  obtain ⟨before,a,after,p,q,cut,first,_,taken,gone,back,last⟩ := run.since (P := fun x => Marked b x.db) absent marked
  rcases stepLogs taken with same | ⟨i,c,logged,applied⟩
  · rw [same] at back
    exact absurd back gone
  · exact ⟨before,a,after,p,q,i,c,cut,first,taken,logged,gone,namedBy applied removed gone back,
      last.weaken (fun _ _ both => both.2)⟩

/- Every state that a run reaches has coherent evidence just where no step reactivates a
row that a confirmed write removed. -/
theorem removalEvidenceExactly (config : Config) (now : DateTime) (labels : List Action) (w : World)
    (run : Transition.Run (World.step config) free (World.start Database.empty now) labels w) :
    (∀ before after p, labels = before ++ after →
      Transition.Run (World.step config) free (World.start Database.empty now) before p →
      Coherent config (World.start Database.empty now) before p) ↔
    Never Reactivates config (World.start Database.empty now) labels w := by
  constructor
  · rintro coherent p a q i c ⟨before,after,rfl,first,meets,taken,_⟩ logged ⟨partly,account,post,b,found,set,observed⟩
    have through := first.append (.cons meets taken (.nil q))
    obtain ⟨t,written⟩ := Option.ne_none_iff_exists'.mp observed
    rcases rowAfter (loggedEffect taken logged) account post with ⟨none,_⟩ | ⟨b',found',moves⟩
    · rw [none] at found
      simp at found
    · -- the row is active again and still names the operation
      obtain ⟨_,live,_,_,operation⟩ := movesObserved moves written
      rw [found,partly] at operation
      have evident := (coherent (before ++ [a]) after q (by simp) through account post b' found').1
      exact set (operation.symm.trans (evident.null.mp live).2)
  · rintro never before after p rfl first account post b found
    have start : ∀ account post b, (World.start Database.empty now).db.bookmark account post = some b → Evident b := by
      intro account post b found
      simp [World.start,Database.bookmark,Database.empty,Table.empty,Table.find] at found
    refine ⟨unlessCommitted _ evidentAfter first (neverEarlier never run first) start account post b found,?_⟩
    intro removed
    have keyed : b.key = (account,post) := Table.findKey found
    cases keyed
    exact produced first removed ⟨b,found,rfl⟩

/- SHA-256 of the sample inputs and of the fingerprint of a removal. -/
def removalDigests : List (List UInt8 × List UInt8) :=
  (fingerprintInput [utf8 (uuidText 7),utf8 (uuidText 1),utf8 "remove",utf8 "100",utf8 (uuidText 1),utf8 "live"],
    [93,204,199,126,77,166,210,162,69,247,92,103,187,240,182,193,11,166,117,143,44,177,187,175,172,194,193,78,183,113,
      154,237])::sampleDigests

def removalConfig : Config :=
  {sampleConfig with sha256 := fun input => ((removalDigests.find? (fun known => known.1 = input)).map Prod.snd).getD []}

def removing : List Action :=
  [.connectAccount ⟨1,7,.connected⟩,.storeCredential ⟨1,1,requiredScopes,.active,sampleInstant⟩,
    .storeAuthorization ⟨1,requiredScopes,.active⟩,
    .spawn (.consent ⟨7,1,.remove,"100",sampleInstant,sampleSurface,.account⟩)] ++ advances 0 2 ++
  [.spawn (.snapshot ⟨1,.load none⟩)] ++ advances 1 2 ++ [.advance 1 (.page ⟨some ["100"],none⟩)] ++ advances 1 3 ++
  [.spawn (.write ⟨.live,.remove,sampleRequest "first",.claim,none,none⟩)] ++ advances 2 11 ++
  [.advance 2 (.confirmed ⟨none⟩)] ++ advances 2 1

def removingEnd : World := (replay (World.step removalConfig) free sampleStart removing).get (by decide +kernel)

theorem removalEvidenceAtWrite :
    (removingEnd.db.bookmark 1 1).map evidence = some (some sampleInstant,none,some 1) ∧
      ((∀ before after p, removing = before ++ after →
        Transition.Run (World.step removalConfig) free sampleStart before p →
        Coherent removalConfig sampleStart before p) ↔
      Never Reactivates removalConfig sampleStart removing removingEnd) :=
  ⟨by decide +kernel,removalEvidenceExactly removalConfig sampleInstant removing removingEnd
    (replayRun (Option.some_get _).symm)⟩

def rescanned : List Action :=
  removing ++ [.spawn (.scan ⟨1,5,5,.load⟩)] ++ advances 3 3 ++ [.advance 3 (.page ⟨some ["100"],none⟩)] ++ advances 3 2

def rescannedEnd : World := (replay (World.step removalConfig) free sampleStart rescanned).get (by decide +kernel)

theorem rescanKeepsOperation :
    ¬∀ config now labels w, Transition.Run (World.step config) free (World.start Database.empty now) labels w →
      Coherent config (World.start Database.empty now) labels w := by
  intro claim
  have run : Transition.Run (World.step removalConfig) free sampleStart rescanned rescannedEnd :=
    replayRun (Option.some_get _).symm
  have row : (rescannedEnd.db.bookmark 1 1).map evidence = some (none,none,some 1) := by decide +kernel
  obtain ⟨b,found,columns⟩ := Option.map_eq_some_iff.mp row
  simp only [evidence,Prod.mk.injEq] at columns
  have evident := (claim removalConfig sampleInstant rescanned rescannedEnd run 1 1 b found).1
  have operation := (evident.null.mp columns.1).2
  rw [columns.2.2] at operation
  simp at operation

end Removal

section Times

/- The times of a row are in order. -/
def Ordered (db : Database) : Prop :=
  ∀ account post b, db.bookmark account post = some b → b.firstObservedSavedAt ≤ b.lastObservedSavedAt

/- No row is lost, its first observation stays and its last one does not go back. -/
def Onward (db after : Database) : Prop :=
  ∀ account post b, db.bookmark account post = some b → ∃ b', after.bookmark account post = some b' ∧
    b'.firstObservedSavedAt = b.firstObservedSavedAt ∧ b.lastObservedSavedAt ≤ b'.lastObservedSavedAt

/- The transaction writes an observation older than the last one the row has. -/
def Outdated (db : Database) (c : Commit) : Prop :=
  ∃ account post b t, db.bookmark account post = some b ∧ observesAt db account post c = some t ∧
    t < b.lastObservedSavedAt

theorem onwardAfter {db after : Database} {c : Commit} (applied : c.effect db = some after) (timely : ¬Outdated db c) :
    Onward db after := by
  intro account post b found
  rcases rowAfter applied account post with ⟨none,_⟩ | ⟨b',found',moves⟩
  · rw [none] at found
    simp at found
  refine ⟨b',found',?_⟩
  cases observed : observesAt db account post c with
  | some t =>
    obtain ⟨last,_,_,first,_⟩ := movesObserved moves observed
    rw [first,last,found]
    exact ⟨rfl,Int.not_lt.mp (fun early => timely ⟨account,post,b,t,found,observed,early⟩)⟩
  | none =>
    obtain ⟨o,was,first,last⟩ := movesUnobserved moves observed
    rw [found] at was
    cases Option.some.inj was
    exact ⟨first,Int.le_of_eq (congrArg DateTime.micros last.symm)⟩

theorem orderedAfter (db : Database) (c after) (ordered : Ordered db) (applied : c.effect db = some after)
    (timely : ¬Outdated db c) : Ordered after := by
  intro account post b found
  rcases rowAfter applied account post with ⟨_,none⟩ | ⟨b',found',moves⟩
  · rw [none] at found
    simp at found
  rw [found'] at found
  cases Option.some.inj found
  cases was : db.bookmark account post with
  | some o =>
    obtain ⟨b'',again,first,last⟩ := onwardAfter applied timely account post o was
    rw [found'] at again
    cases Option.some.inj again
    rw [first]
    exact Int.le_trans (ordered account post o was) last
  | none =>
    cases observed : observesAt db account post c with
    | some t =>
      obtain ⟨last,_,_,first,_⟩ := movesObserved moves observed
      rw [first,last,was]
      exact Int.le_refl _
    | none =>
      obtain ⟨o,there,_⟩ := movesUnobserved moves observed
      rw [was] at there
      simp at there

theorem onwardTrans {a b c : Database} (first : Onward a b) (second : Onward b c) : Onward a c := by
  intro account post row found
  obtain ⟨row',found',same,later⟩ := first account post row found
  obtain ⟨row'',found'',same',later'⟩ := second account post row' found'
  exact ⟨row'',found'',same'.trans same,Int.le_trans later later'⟩

/- What is claimed of the observation times of a run: in order at every state, and only
forward between any two. -/
def Truthful (config : Config) (start : World) (labels : List Action) : Prop :=
  (∀ before after p, labels = before ++ after → Transition.Run (World.step config) free start before p → Ordered p.db) ∧
    ∀ before middle after p q, labels = before ++ middle ++ after →
      Transition.Run (World.step config) free start before p → Transition.Run (World.step config) free p middle q →
      Onward p.db q.db

theorem observationTimesExactly (config : Config) (now : DateTime) (labels : List Action) (w : World)
    (run : Transition.Run (World.step config) free (World.start Database.empty now) labels w) :
    Truthful config (World.start Database.empty now) labels ↔
      Never Outdated config (World.start Database.empty now) labels w := by
  constructor
  · rintro ⟨_,onward⟩ p a q i c ⟨before,after,rfl,first,meets,taken,_⟩ logged ⟨account,post,b,t,found,observed,early⟩
    obtain ⟨b',found',_,later⟩ := onward before [a] after p q (by simp) first (.cons meets taken (.nil q)) account post b found
    rcases rowAfter (loggedEffect taken logged) account post with ⟨none,_⟩ | ⟨row,same,moves⟩
    · rw [none] at found
      simp at found
    · rw [same] at found'
      cases Option.some.inj found'
      rw [(movesObserved moves observed).1] at later
      exact Int.not_lt.mpr later early
  · intro never
    have start : Ordered (World.start Database.empty now).db := by
      intro account post b found
      simp [World.start,Database.bookmark,Database.empty,Table.empty,Table.find] at found
    constructor
    · rintro before after p rfl first
      exact unlessCommitted _ orderedAfter first (neverEarlier never run first) start
    · rintro before middle after p q rfl first between
      have earlier := neverEarlier never run (first.append between)
      -- the second part of the first two parts, from the state between them
      have later : Never Outdated config p middle q := by
        rintro x a y i c ⟨xs,ys,rfl,begun,meets,taken,last⟩ logged
        exact earlier x a y i c ⟨before ++ xs,ys,by simp,first.append begun,meets,taken,last⟩ logged
      refine unlessCommitted (fun db => Onward p.db db) ?_ between later ?_
      · exact fun db c after onward applied timely => onwardTrans onward (onwardAfter applied timely)
      · exact fun account post b found => ⟨b,found,rfl,Int.le_refl _⟩

def laterInstant : DateTime := ⟨sampleInstant.micros + 60000000,by decide⟩

/- A snapshot stages the post; a minute later a scan shows it, and the snapshot completes. -/
def staged : List Action :=
  [.connectAccount ⟨1,7,.connected⟩,.spawn (.snapshot ⟨1,.load none⟩)] ++ advances 0 2 ++
    [.advance 0 (.page ⟨some ["100"],none⟩)] ++ advances 0 1

def overtaken : List Action :=
  staged ++ [.tick laterInstant,.spawn (.scan ⟨1,5,5,.load⟩)] ++ advances 1 3 ++
    [.advance 1 (.page ⟨some ["100"],none⟩)] ++ advances 1 2 ++ advances 0 2

def stagedDone : World :=
  (replay (World.step sampleConfig) free sampleStart (staged ++ advances 0 2)).get (by decide +kernel)

def overtakenEnd : World := (replay (World.step sampleConfig) Forward sampleStart overtaken).get (by decide +kernel)

theorem observationTimesAtCompletion :
    (stagedDone.db.bookmark 1 1).map Bookmark.lastObservedSavedAt = some sampleInstant ∧
      (Truthful sampleConfig sampleStart (staged ++ advances 0 2) ↔
        Never Outdated sampleConfig sampleStart (staged ++ advances 0 2) stagedDone) :=
  ⟨by decide +kernel,observationTimesExactly sampleConfig sampleInstant _ stagedDone (replayRun (Option.some_get _).symm)⟩

theorem completionSetsTimeBack :
    ¬∀ config now labels w, Transition.Run (World.step config) Forward (World.start Database.empty now) labels w →
      Truthful config (World.start Database.empty now) labels := by
  intro claim
  have run : Transition.Run (World.step sampleConfig) Forward sampleStart overtaken overtakenEnd :=
    replayRun (Option.some_get _).symm
  have row : (overtakenEnd.db.bookmark 1 1).map (fun b => (b.firstObservedSavedAt,b.lastObservedSavedAt)) =
      some (laterInstant,sampleInstant) := by decide +kernel
  obtain ⟨b,found,times⟩ := Option.map_eq_some_iff.mp row
  simp only [Prod.mk.injEq] at times
  have ordered := (claim sampleConfig sampleInstant overtaken overtakenEnd run).1 overtaken [] overtakenEnd (by simp)
    (run.weaken (fun _ _ _ => trivial)) 1 1 b found
  rw [times.1,times.2] at ordered
  exact absurd ordered (by decide)

end Times

end RatatoskrX.Observations
