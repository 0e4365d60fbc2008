import RatatoskrX.Articles
import RatatoskrX.LibrarySteps

/-! What a statement of the library does to the captures and their links. Most statements of
a page leave both alone; the four that do not are the snapshot of a capture insert, the
insert, the link and the commit. -/
namespace RatatoskrX.ArticleMoves
open Schema Envelopes ArticleUrls SocialSources ReadCommitted Transition Library LibraryCommits LibrarySteps Articles

/- The revision whose links a page is writing, with the URLs that it has yet to link. -/
def pending : PagePc → Option (Revision × List String)
  | .write _ _ r => some (r,r.urls.map SelectedArticleUrl.normalizedUrl)
  | .revise _ r => some (r,r.urls.map SelectedArticleUrl.normalizedUrl)
  | .select _ r urls => some (r,urls.map SelectedArticleUrl.normalizedUrl)
  | .insert _ r url _ urls => some (r,url.normalizedUrl::urls.map SelectedArticleUrl.normalizedUrl)
  | .link _ r url _ _ urls => some (r,url::urls.map SelectedArticleUrl.normalizedUrl)
  | _ => none

/- A capture that was inserted and whose command is not queued yet. -/
def unqueued : PagePc → Option Uuid
  | .link _ _ _ captureId true _ => some captureId
  | _ => none

/- A control point outside the two statements of a capture. -/
def Plain : PagePc → Prop
  | .insert _ _ _ _ _ => False
  | .link _ _ _ _ _ _ => False
  | .done _ => False
  | _ => True

/- A control point that has no revision in hand, loads none and does not commit. -/
def Idle : PagePc → Prop
  | .users _ => True
  | .posts _ => True
  | .publish (_::_) => True
  | _ => False

/- The statements of capture_expanded_links_in_transaction. -/
def Capturing : PagePc → Prop
  | .select _ _ _ => True
  | .insert _ _ _ _ _ => True
  | .link _ _ _ _ _ _ => True
  | _ => False

def isArticle : Key → Bool
  | .capture _ _ => true
  | .link _ _ => true
  | _ => false

/- A statement of one transaction that writes no capture and no link. -/
structure Untouched (w t : State) (index : Nat) : Prop where
  calls : t.calls = w.calls
  drafts : w.rows.Drafts t.rows index
  held : ∀ key, isArticle key = true → t.rows.held key = w.rows.held key
  accounts : t.accounts = w.accounts
  minted : w.minted ≤ t.minted
  outbox : t.outbox = w.outbox

structure Still (d : Deployment) (w : State) (index : Nat) (page : Page) (reply : Reply) (page' : Page) : Prop where
  account : page'.accountId = page.accountId
  plain : Plain page.pc
  plain' : Plain page'.pc
  queued : page'.queued = page.queued ∨ ∃ rest r id, page.pc = .revise rest r ∧
    page'.queued = page.queued ++ [sourceEvent id r.owner r.fact r.snapshot]
  owed : ∀ r urls url, pending page.pc = some (r,urls) → url ∈ urls → d.publisher.captureUrl url = true →
    ∃ rest, pending page'.pc = some (r,rest) ∧ url ∈ rest
  known : ∀ r urls, pending page'.pc = some (r,urls) → (∃ before, pending page.pc = some (r,before)) ∨
    ∃ p ∈ published d w index page reply, p.revision = r
  fresh : ∀ p ∈ published d w index page reply, p.index = index ∧ p.accountId = page.accountId ∧
    p.revision.urls = selectExternalExpandedUrls p.post.expandedUrls ∧
    pending page'.pc = some (p.revision,p.revision.urls.map SelectedArticleUrl.normalizedUrl)
  uncommitted : commits index page reply = []

inductive PageMove (d : Deployment) (w : State) (index : Nat) (page : Page) (reply : Reply) : State → Prop where
  | still {w' page'} (untouched : Untouched w w' index) (still : Still d w index page reply page') :
      PageMove d w index page reply (w'.set index (.page page'))
  | seen {rest r url urls} (pc : page.pc = .select rest r (url::urls)) : PageMove d w index page reply
      (w.turn index page (.insert rest r url ((w.sees index).capture page.accountId url.normalizedUrl) urls))
  | found {rest r url capture urls current} (pc : page.pc = .insert rest r url (some capture) urls)
      (there : (w.sees index).capture page.accountId url.normalizedUrl = some current) :
      PageMove d w index page reply (w.turn index page (.link rest r url.normalizedUrl capture.id false urls))
  | starved {rest r url urls current} (pc : page.pc = .insert rest r url none urls) (answered : reply = .ok)
      (there : (w.sees index).capture page.accountId url.normalizedUrl = some current) :
      PageMove d w index page reply (w.failPage index page)
  | created {rest r url seen urls} (pc : page.pc = .insert rest r url seen urls)
      (free : w.rows.Free index (.capture page.accountId url.normalizedUrl))
      (absent : (w.sees index).capture page.accountId url.normalizedUrl = none) : PageMove d w index page reply
        ({w.put index (.capture page.accountId url.normalizedUrl)
            (.capture ⟨w.minted,page.accountId,url.normalizedUrl,url.originalUrl⟩) with minted := w.minted + 1}.turn
          index page (.link rest r url.normalizedUrl w.minted true urls))
  | linked {rest r url captureId created urls linked} (pc : page.pc = .link rest r url captureId created urls)
      (free : w.rows.Free index (.link r.sourceId captureId))
      (made : linked = if (w.sees index (.link r.sourceId captureId)).isSome then w
        else w.put index (.link r.sourceId captureId) .link) : PageMove d w index page reply
        (if created then {linked with minted := w.minted + 1}.turn index
            {page with queued := page.queued ++ [articleCommand w.minted r.owner r.sourceId captureId url]}
            (.select rest r urls)
          else linked.turn index page (.select rest r urls))
  | failed (open_ : ∀ b, page.pc ≠ .done b) (elsewhere : reply = .ok → ¬Capturing page.pc)
      (unpublished : published d w index page reply = []) (uncommitted : commits index page reply = []) :
      PageMove d w index page reply (w.failPage index page)
  | committed (acked) (pc : page.pc = .publish []) (answered : reply = if acked then .ok else .lost) :
      PageMove d w index page reply ((w.commit index [] page.queued).turn index page (.done acked))

section Pages
variable {d : Deployment} {w t u : State} {index : Nat} {page : Page} {reply : Reply}

theorem untouchedSame : Untouched w w index := ⟨rfl,Store.draftsSame ..,fun _ _ => rfl,rfl,le_refl _,rfl⟩

theorem untouchedPut {key version} (free : w.rows.Free index key) (other : isArticle key = false) :
    Untouched w {w with rows := w.rows.put index key version} index := by
  refine ⟨rfl,Store.draftsPut free,?_,rfl,le_refl _,rfl⟩
  intro k article
  refine Store.putOther _ ?_
  rintro rfl
  simp [other] at article

theorem untouchedMint (same : Untouched w t index) : Untouched w {t with minted := t.minted + 1} index :=
  ⟨same.calls,same.drafts,same.held,same.accounts,Nat.le_succ_of_le same.minted,same.outbox⟩

theorem untouchedTrans (first : Untouched w t index) (second : Untouched t u index) : Untouched w u index :=
  ⟨second.calls.trans first.calls,Store.draftsTrans first.drafts second.drafts,
    fun key article => (second.held key article).trans (first.held key article),second.accounts.trans first.accounts,
    first.minted.trans second.minted,second.outbox.trans first.outbox⟩

theorem publishedElsewhere (elsewhere : ∀ post rest, page.pc ≠ .load post rest) : published d w index page reply = [] := by
  unfold published
  split
  · split
    · rename_i post rest pc
      exact absurd pc (elsewhere post rest)
    · rfl
  · rfl

theorem stillTurn {page' : Page} (account : page'.accountId = page.accountId) (queued : page'.queued = page.queued)
    (plain : Plain page.pc) (plain' : Plain page'.pc) (elsewhere : ∀ post rest, page.pc ≠ .load post rest)
    (uncommitted : commits index page reply = [])
    (owed : ∀ r urls url, pending page.pc = some (r,urls) → url ∈ urls → d.publisher.captureUrl url = true →
      ∃ rest, pending page'.pc = some (r,rest) ∧ url ∈ rest)
    (known : ∀ r urls, pending page'.pc = some (r,urls) → ∃ before, pending page.pc = some (r,before)) :
    Still d w index page reply page' :=
  ⟨account,plain,plain',.inl queued,owed,fun r urls now => .inl (known r urls now),by
    simp [publishedElsewhere elsewhere],uncommitted⟩

theorem stillIdle {page' : Page} (idle : Idle page.pc) (account : page'.accountId = page.accountId)
    (queued : page'.queued = page.queued) (plain' : Plain page'.pc) (clear : pending page'.pc = none) :
    Still d w index page reply page' := by
  have plain : Plain page.pc := by
    cases pc : page.pc <;> simp only [pc,Idle,Plain] at idle ⊢
  have none_ : pending page.pc = none := by
    cases pc : page.pc <;> simp only [pc,Idle,pending] at idle ⊢
  have uncommitted : commits index page reply = [] := by
    unfold commits
    split <;> simp_all [Idle]
  refine stillTurn account queued plain plain' ?_ uncommitted ?_ ?_
  · intro post rest pc
    simp [pc,Idle] at idle
  · simp [none_]
  · simp [clear]

theorem revisionUrls {loaded : LoadedSource} {contract minted capturedAt r}
    (made : loaded.revision contract minted capturedAt = .ok (some r)) :
    r.urls = selectExternalExpandedUrls loaded.post.expandedUrls := by
  unfold LoadedSource.revision at made
  split at made
  · simp at made
  · dsimp only at made
    split at made
    · simp at made
    · split at made
      · simp at made
      · cases Option.some.inj (Except.ok.inj made)
        rfl

theorem persistUserMoves {user rest} (pc : page.pc = .users (user::rest))
    (taken : w.persistUser index page user rest = some t) : PageMove d w index page .ok t := by
  unfold State.persistUser at taken
  split at taken
  · rename_i free
    cases Option.some.inj taken
    exact .still (untouchedPut free rfl) (stillIdle (by simp [pc,Idle]) rfl rfl trivial rfl)
  · simp at taken

theorem persistPostMoves {post rest} (pc : page.pc = .posts (post::rest))
    (taken : w.persistPost index page post rest = some t) : PageMove d w index page .ok t := by
  unfold State.persistPost at taken
  split at taken
  · split at taken
    · rename_i free
      cases Option.some.inj taken
      exact .still (untouchedPut free rfl) (stillIdle (by simp [pc,Idle]) rfl rfl trivial rfl)
    · simp at taken
  · cases Option.some.inj taken
    exact .failed (by simp [pc]) (fun _ => by simp [pc,Capturing]) (publishedElsewhere (by simp [pc])) (by simp [commits,pc])

theorem loadSourceMoves {post rest} (pc : page.pc = .load post rest) :
    PageMove d w index page .ok (w.loadSource d index page post rest) := by
  unfold State.loadSource
  split
  · rename_i failed
    exact .failed (by simp [pc]) (fun _ => by simp [pc,Capturing]) (by simp [published,pc,failed]) (by simp [commits,pc])
  · rename_i loaded read
    split
    · rename_i failed
      exact .failed (by simp [pc]) (fun _ => by simp [pc,Capturing]) (by simp [published,pc,read,failed]) (by simp [commits,pc])
    · rename_i unchanged
      refine .still untouchedSame ⟨rfl,by simp [pc,Plain],trivial,.inl rfl,by simp [pc,pending],by simp [pending],?_,
        by simp [commits,pc]⟩
      simp [published,pc,read,unchanged]
    · rename_i r made
      have same : published d w index page .ok = [⟨index,page.accountId,loaded.post,r⟩] := by
        simp [published,pc,read,made]
      refine .still (untouchedMint untouchedSame) ⟨rfl,by simp [pc,Plain],trivial,.inl rfl,by simp [pc,pending],?_,?_,
        by simp [commits,pc]⟩
      · intro r' urls now
        rw [same]
        exact .inr ⟨_,List.mem_singleton_self _,(Prod.mk.inj (Option.some.inj now)).1⟩
      · intro p member
        rw [same] at member
        cases List.mem_singleton.mp member
        exact ⟨rfl,rfl,revisionUrls made,rfl⟩

/- The write of a source goes on to its revision. -/
theorem stillWrite {post rest r} (pc : page.pc = .write post rest r) :
    Still d w index page .ok {page with pc := .revise rest r} := by
  refine stillTurn rfl rfl (by simp [pc,Plain]) trivial (by simp [pc]) (by simp [commits,pc]) ?_ ?_
  · intro r' urls url owed member _
    rw [pc] at owed
    exact ⟨urls,owed,member⟩
  · intro r' urls now
    exact ⟨urls,by rw [pc]; exact now⟩

theorem writeSourceMoves {post rest r} (pc : page.pc = .write post rest r)
    (taken : w.writeSource index page post rest r = some t) : PageMove d w index page .ok t := by
  unfold State.writeSource at taken
  split at taken
  · split at taken
    · cases Option.some.inj taken
      exact .still untouchedSame (stillWrite pc)
    · split at taken
      · rename_i free
        split at taken
        · cases Option.some.inj taken
          exact .still untouchedSame (stillWrite pc)
        · cases Option.some.inj taken
          exact .still (untouchedPut free rfl) (stillWrite pc)
      · simp at taken
  · split at taken
    · rename_i free
      split at taken
      · cases Option.some.inj taken
        exact .failed (by simp [pc]) (fun _ => by simp [pc,Capturing]) (publishedElsewhere (by simp [pc])) (by simp [commits,pc])
      · cases Option.some.inj taken
        have identity : (w.put index (.source (page.accountId,post))
            (.source ⟨page.accountId,post,r.sourceId,r.digest,page.capturedAt,none⟩)).rows.Free index
              (.identity r.sourceId) := by
          intro x held
          exact free.2 x ((Store.putOther _ (by simp)).symm.trans held)
        exact .still (untouchedTrans (untouchedPut free.1 rfl) (untouchedPut identity rfl)) (stillWrite pc)
    · simp at taken

theorem insertRevisionMoves {rest r} (pc : page.pc = .revise rest r)
    (taken : w.insertRevision index page rest r = some t) : PageMove d w index page .ok t := by
  unfold State.insertRevision at taken
  split at taken
  · rename_i free
    split at taken
    · cases Option.some.inj taken
      exact .failed (by simp [pc]) (fun _ => by simp [pc,Capturing]) (publishedElsewhere (by simp [pc])) (by simp [commits,pc])
    · cases Option.some.inj taken
      refine .still (untouchedMint (untouchedPut free rfl)) ⟨rfl,by simp [pc,Plain],trivial,.inr ⟨rest,r,_,pc,rfl⟩,?_,?_,
        ?_,by simp [commits,pc]⟩
      · intro r' urls url owed member _
        rw [pc] at owed
        exact ⟨urls,owed,member⟩
      · intro r' urls now
        exact .inl ⟨urls,by rw [pc]; exact now⟩
      · simp [publishedElsewhere,pc]
  · simp at taken

theorem selectLinkMoves {rest r urls} (pc : page.pc = .select rest r urls) :
    PageMove d w index page .ok (w.selectLink d index page rest r urls) := by
  unfold State.selectLink
  split
  · refine .still untouchedSame (stillTurn rfl rfl (by simp [pc,Plain]) trivial (by simp [pc]) (by simp [commits,pc]) ?_
      (by simp [pending]))
    intro r' owed url now member
    rw [pc] at now
    obtain ⟨_,rfl⟩ := Prod.mk.inj (Option.some.inj now)
    cases member
  · rename_i url urls
    split
    · exact .seen pc
    · rename_i foreign
      refine .still untouchedSame (stillTurn rfl rfl (by simp [pc,Plain]) trivial (by simp [pc]) (by simp [commits,pc]) ?_ ?_)
      · intro r' owed url' now member fits
        rw [pc] at now
        obtain ⟨rfl,rfl⟩ := Prod.mk.inj (Option.some.inj now)
        rcases List.mem_cons.mp member with rfl | later
        · exact absurd fits foreign
        · exact ⟨_,rfl,later⟩
      · intro r' owed now
        obtain ⟨rfl,_⟩ := Prod.mk.inj (Option.some.inj now)
        exact ⟨_,by rw [pc]; rfl⟩

theorem insertCaptureMoves {rest r url seen urls} (pc : page.pc = .insert rest r url seen urls)
    (taken : w.insertCapture index page rest r url seen urls = some t) : PageMove d w index page .ok t := by
  unfold State.insertCapture at taken
  split at taken
  · rename_i free
    split at taken
    · rename_i capture there
      cases Option.some.inj taken
      exact .found pc there
    · rename_i there
      cases Option.some.inj taken
      exact .starved pc rfl there
    · rename_i absent
      cases Option.some.inj taken
      exact .created pc free absent
  · simp at taken

theorem linkCaptureMoves {rest r url captureId created urls} (pc : page.pc = .link rest r url captureId created urls)
    (taken : w.linkCapture index page rest r url captureId created urls = some t) : PageMove d w index page .ok t := by
  unfold State.linkCapture at taken
  split at taken
  · rename_i free
    dsimp only at taken
    split at taken
    · rename_i fresh
      cases Option.some.inj taken
      have move : PageMove d w index page .ok _ := .linked pc free rfl
      rwa [if_pos fresh] at move
    · rename_i known
      cases Option.some.inj taken
      have move : PageMove d w index page .ok _ := .linked pc free rfl
      rwa [if_neg known] at move
  · simp at taken

theorem pageMoves (taken : w.stagePage d index page reply = some t) : PageMove d w index page reply t := by
  unfold State.stagePage at taken
  split at taken
  · simp at taken
  · rename_i open_
    cases Option.some.inj taken
    refine .failed ?_ (by simp) rfl ?_
    · intro b pc
      exact open_ b pc
    · unfold commits
      split <;> simp_all
  · rename_i pc
    cases Option.some.inj taken
    exact .still untouchedSame (stillIdle (by simp [pc,Idle]) rfl rfl trivial rfl)
  · rename_i pc
    exact persistUserMoves pc taken
  · rename_i posts pc
    split at taken
    · cases Option.some.inj taken
      exact .still untouchedSame (stillIdle (by simp [pc,Idle]) rfl rfl trivial rfl)
    · simp at taken
  · rename_i pc
    exact persistPostMoves pc taken
  · rename_i pc
    cases Option.some.inj taken
    exact .committed true pc rfl
  · rename_i pc
    cases Option.some.inj taken
    exact .committed false pc rfl
  · rename_i post rest pc
    dsimp only at taken
    split at taken
    · rename_i free
      cases Option.some.inj taken
      exact .still (untouchedPut free rfl) (stillIdle (by simp [pc,Idle]) rfl rfl trivial rfl)
    · simp at taken
  · rename_i pc
    cases Option.some.inj taken
    exact loadSourceMoves pc
  · rename_i pc
    exact writeSourceMoves pc taken
  · rename_i pc
    exact insertRevisionMoves pc taken
  · rename_i pc
    cases Option.some.inj taken
    exact selectLinkMoves pc
  · rename_i pc
    exact insertCaptureMoves pc taken
  · rename_i pc
    exact linkCaptureMoves pc taken
  · simp at taken

end Pages

section Runs
variable {d : Deployment} {w t : State} {index : Nat} {run : RunDue} {reply : Reply}

/- A statement of a run neither touches a capture nor tells of one. -/
structure RunMove (w : State) (index : Nat) (t : State) : Prop where
  calls : ∃ run, t.calls = w.calls.set index (.run run)
  rows : ∀ key, isArticle key = true → (∀ x, w.rows.held key = some x → x.owner ≠ index) →
    t.rows.held key = w.rows.held key ∧ t.rows.committed key = w.rows.committed key
  accounts : t.accounts = w.accounts
  minted : w.minted ≤ t.minted
  outbox : ∃ queued, t.outbox = w.outbox ++ queued ∧ ∀ e ∈ queued, requestOf e = none ∧ tellsContent e = false

theorem runUntouched {w'} (untouched : Untouched w w' index) (run') : RunMove w index (w'.set index (.run run')) where
  calls := ⟨run',by simp [State.set,untouched.calls]⟩
  rows key article _ := ⟨untouched.held key article,congrFun untouched.drafts.1 key⟩
  accounts := untouched.accounts
  minted := untouched.minted
  outbox := ⟨[],by simp [State.set,untouched.outbox],by simp⟩

theorem releaseOther {s : Store Key Row} {key} (other : ∀ x, s.held key = some x → x.owner ≠ index) :
    s.release index key = s.held key := by
  unfold Store.release
  cases held : s.held key with
  | none => rfl
  | some x => simp [other x held]

theorem runFailed (run') : RunMove w index ((w.rollback index).set index (.run run')) where
  calls := ⟨run',rfl⟩
  rows key _ other := ⟨releaseOther other,rfl⟩
  accounts := rfl
  minted := le_refl _
  outbox := ⟨[],by simp [State.set,State.rollback],by simp⟩

theorem runCommitted {entries queued} (silent : ∀ e ∈ queued, requestOf e = none ∧ tellsContent e = false) (run') :
    RunMove w index ((w.commit index entries queued).set index (.run run')) where
  calls := ⟨run',rfl⟩
  rows _ _ other := ⟨releaseOther other,Store.viewOther other⟩
  accounts := rfl
  minted := le_refl _
  outbox := ⟨queued,rfl,silent⟩

theorem settlesSilent {rows : Rows} {id accountId candidate evidence checkedAt drafts queued}
    (settles : Settles rows id accountId candidate evidence checkedAt drafts queued) :
    ∀ e ∈ queued, requestOf e = none ∧ tellsContent e = false := by
  cases settles with
  | indeterminate => simp
  | seen => simp
  | takenDown => simp [requestOf,removedEvent,tellsContent]

theorem nextSet (index : Nat) (w : State) (run : RunDue) (summary) : ∃ run', w.next index run summary = w.set index (.run run') := by
  unfold State.next
  split
  · exact ⟨_,rfl⟩
  · exact ⟨_,rfl⟩

theorem recordMoves {candidate evidence checkedAt stage} (sound : Sound w) (found : w.calls[index]? = some (.run run))
    (pc : run.pc = .record candidate evidence checkedAt stage)
    (taken : w.recordResult index run candidate evidence checkedAt stage = some t) : RunMove w index t := by
  unfold State.recordResult at taken
  split at taken
  · dsimp only at taken
    split at taken
    · cases Option.some.inj taken
      exact runUntouched (untouchedMint untouchedSame) _
    · cases Option.some.inj taken
      exact runUntouched (untouchedMint untouchedSame) _
  · dsimp only at taken
    split at taken
    · rename_i free
      split at taken
      · cases Option.some.inj taken
        exact runUntouched (untouchedPut free rfl) _
      · cases Option.some.inj taken
        exact runUntouched untouchedSame _
    · simp at taken
  · dsimp only at taken
    split at taken
    · cases Option.some.inj taken
      exact runUntouched untouchedSame _
    · split at taken
      · rename_i free
        split at taken
        · cases Option.some.inj taken
          exact runUntouched untouchedSame _
        · split at taken
          · cases Option.some.inj taken
            exact runUntouched (untouchedPut free rfl) _
          · cases Option.some.inj taken
            exact runUntouched untouchedSame _
      · simp at taken
  · dsimp only at taken
    split at taken
    · rename_i free
      split at taken
      · cases Option.some.inj taken
        exact runFailed _
      · cases Option.some.inj taken
        exact runUntouched (untouchedMint (untouchedPut free rfl)) _
    · simp at taken
  · rename_i entry queued
    have own := (runOwns sound found).2
    rw [pc] at own
    obtain ⟨_,_,_,_,_,_,settles⟩ := own
    obtain ⟨run',same⟩ := nextSet index (w.commit index [entry] queued) run
      {run.summary with
        checked := run.summary.checked + 1, takedowns := run.summary.takedowns + if queued = [] then 0 else 1}
    rw [same] at taken
    cases Option.some.inj taken
    exact runCommitted (settlesSilent settles) _

theorem runMoves (sound : Sound w) (found : w.calls[index]? = some (.run run)) (taken : w.runDue index run reply = some t) :
    RunMove w index t := by
  unfold State.runDue at taken
  split at taken
  · split at taken
    · simp at taken
    · cases Option.some.inj taken
      exact runFailed _
  · split at taken
    · rename_i pc
      have own := (runOwns sound found).2
      rw [pc] at own
      obtain ⟨_,_,_,_,_,_,settles⟩ := own
      cases Option.some.inj taken
      exact runCommitted (settlesSilent settles) _
    · simp at taken
  · split at taken
    · cases Option.some.inj taken
      exact runUntouched untouchedSame _
    · simp at taken
  · split at taken
    · cases Option.some.inj taken
      exact runUntouched untouchedSame _
    · simp at taken
  · simp at taken
  · split at taken
    · rename_i dueBefore maxItems _
      obtain ⟨run',same⟩ := nextSet index w {run with rest := w.candidates run.accountId dueBefore maxItems}
        run.summary
      rw [same] at taken
      cases Option.some.inj taken
      exact runUntouched untouchedSame _
    · cases Option.some.inj taken
      exact runUntouched untouchedSame _
    · rename_i pc
      exact recordMoves sound found pc taken
    · simp at taken

end Runs
end RatatoskrX.ArticleMoves
