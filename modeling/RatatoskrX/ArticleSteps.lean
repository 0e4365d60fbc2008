import RatatoskrX.ArticleLinks

/-! Every statement of the library keeps the account of its captures: a page's own statements
one by one, its commit, and the statements of runs, which leave captures alone. -/
namespace RatatoskrX.ArticleSteps
open Schema Envelopes ArticleUrls SocialSources ReadCommitted Transition Library Articles ArticleMoves ArticleLinks

section Drafts
variable {d : Deployment} {w t : State} {index : Nat} {page page' : Page} {publications : List PagePublication}
  {committed : List Nat}

theorem keysSet (found : w.calls[index]? = some (.page page)) (calls : t.calls = w.calls.set index (.page page'))
    (account : page'.accountId = page.accountId) (queued : ∀ e ∈ page.queued, e ∈ page'.queued) {key}
    (listed : key ∈ captureKeys w) : key ∈ captureKeys t := by
  obtain ⟨call,member,listed⟩ := List.mem_flatMap.mp listed
  obtain ⟨j,there⟩ := List.mem_iff_getElem?.mp member
  by_cases here : j = index
  · subst here
    rw [found] at there
    cases Option.some.inj there
    refine List.mem_flatMap.mpr ⟨.page page',List.mem_of_getElem? (i := j) ?_,?_⟩
    · rw [calls,setCall found,if_pos rfl]
    · obtain ⟨e,queuedBefore,same⟩ := List.mem_filterMap.mp listed
      exact List.mem_filterMap.mpr ⟨e,queued e queuedBefore,by rw [account]; exact same⟩
  · refine List.mem_flatMap.mpr ⟨call,List.mem_of_getElem? (i := j) ?_,listed⟩
    rw [calls,setCall found,if_neg here]
    exact there

theorem busyUncommitted (sound : Sound d w publications committed) (found : w.calls[index]? = some (.page page))
    (busy : ∀ b, page.pc ≠ .done b) : index ∉ committed := by
  intro member
  obtain ⟨other,b,there,done⟩ := sound.finished index member
  rw [found] at there
  cases Option.some.inj there
  exact busy b done

theorem soundDraft (t : State) (page' : Page) (pubs : List PagePublication) (sound : Sound d w publications committed) (found : w.calls[index]? = some (.page page))
    (busy : ∀ b, page.pc ≠ .done b) (calls : t.calls = w.calls.set index (.page page')) (rows : RowsSound t)
    (drafts : w.rows.Drafts t.rows index) (outbox : t.outbox = w.outbox) (account : page'.accountId = page.accountId)
    (queued : ∀ e ∈ page.queued, e ∈ page'.queued)
    (fresh : ∀ p ∈ pubs, p.index = index ∧ p.revision.urls = selectExternalExpandedUrls p.post.expandedUrls)
    (own : (∀ b, page'.pc ≠ .done b) → PageFacts d t.rows (publications ++ pubs) index page') :
    Sound d t (publications ++ pubs) committed := by
  have archived : t.archived = w.archived := drafts.1
  have uncommitted := busyUncommitted sound found busy
  have old : ∀ p ∈ publications ++ pubs, p.index ∈ committed → p ∈ publications := by
    intro p member done
    rcases List.mem_append.mp member with before | now
    · exact before
    · exact absurd ((fresh p now).1 ▸ done) uncommitted
  constructor
  · exact rows
  · intro j other there open_
    rw [calls,setCall found] at there
    by_cases here : j = index
    · rw [if_pos here] at there
      cases Option.some.inj there
      exact here ▸ own open_
    · rw [if_neg here] at there
      refine factsBeside (besideDrafts drafts here) (fun p member => List.mem_append_left _ member) ?_
        (sound.pages j other there open_)
      intro p member
      rcases List.mem_append.mp member with before | now
      · exact .inl before
      · exact .inr ((fresh p now).1 ▸ Ne.symm here)
  · rw [archived,outbox]
    exact sound.once
  · rw [archived,outbox]
    exact sound.requested
  · rw [outbox]
    intro e member tells
    obtain ⟨p,known,facts⟩ := sound.told e member tells
    exact ⟨p,List.mem_append_left _ known,facts⟩
  · rw [archived]
    exact fun p member done => sound.linked p (old p member done) done
  · rw [archived]
    exact fun a u c there => keysSet found calls account queued (sound.listed a u c there)
  · intro p member
    rw [calls,List.length_set]
    rcases List.mem_append.mp member with before | now
    · exact sound.chosen p before
    · exact ⟨(fresh p now).2,(fresh p now).1 ▸ (List.getElem?_eq_some_iff.mp found).1⟩
  · intro j member
    obtain ⟨other,b,there,done⟩ := sound.finished j member
    refine ⟨other,b,?_,done⟩
    rw [calls,setCall found,if_neg]
    · exact there
    · rintro rfl
      exact uncommitted member

theorem unqueuedPlain {pc} (plain : Plain pc) : unqueued pc = none := by
  cases pc with
  | link rest r url captureId created urls => exact absurd plain id
  | _ => rfl

theorem stagePlain {s accountId pc} (plain : Plain pc) : Stage s index accountId pc := by
  cases pc with
  | insert rest r url seen urls => exact absurd plain id
  | link rest r url captureId created urls => exact absurd plain id
  | _ => trivial

theorem plainBusy {pc} (plain : Plain pc) : ∀ b, pc ≠ .done b := by
  rintro b rfl
  exact plain

theorem commandsAppend (xs ys : List Envelope) (id) : commands (xs ++ ys) id = commands xs id + commands ys id :=
  List.countP_append

@[simp] theorem commandsSource (id owner : Uuid) (fact snapshot captureId) :
    commands [sourceEvent id owner fact snapshot] captureId = 0 := by
  cases fact <;> simp [commands,requestOf,sourceEvent]

theorem requestSource (id owner : Uuid) (fact snapshot) : requestOf (sourceEvent id owner fact snapshot) = none := by
  cases fact <;> rfl

theorem factsStill {reply w'} (facts : PageFacts d w.rows publications index page) (untouched : Untouched w w' index)
    (still : Still d w index page reply page') :
    PageFacts d w'.rows (publications ++ published d w index page reply) index page' := by
  have commandsSame : ∀ captureId, commands page'.queued captureId = commands page.queued captureId := by
    intro captureId
    rcases still.queued with same | ⟨_,r,id,_,same⟩
    · rw [same]
    · rw [same,commandsAppend,commandsSource,Nat.add_zero]
  have view : ∀ key, isArticle key = true → w'.rows.view index key = w.rows.view index key := by
    intro key article
    unfold Store.view
    rw [untouched.held key article,untouched.drafts.1]
  constructor
  · intro a u x held own
    rw [untouched.held _ rfl] at held
    obtain ⟨account,c,version,count⟩ := facts.captures a u x held own
    refine ⟨account.trans still.account.symm,c,version,?_⟩
    rw [commandsSame,count,unqueuedPlain still.plain,unqueuedPlain still.plain']
  · intro e member id url request
    rw [still.account,untouched.held _ rfl]
    rcases still.queued with same | ⟨_,r,eventId,_,same⟩
    · exact facts.requests e (same ▸ member) id url request
    · rw [same] at member
      rcases List.mem_append.mp member with before | now
      · exact facts.requests e before id url request
      · rw [List.mem_singleton.mp now,requestSource] at request
        cases request
  · intro e member tells
    rcases still.queued with same | ⟨rest,r,eventId,pc,same⟩
    · obtain ⟨p,known,about⟩ := facts.told e (same ▸ member) tells
      exact ⟨p,List.mem_append_left _ known,about⟩
    · rw [same] at member
      rcases List.mem_append.mp member with before | now
      · obtain ⟨p,known,about⟩ := facts.told e before tells
        exact ⟨p,List.mem_append_left _ known,about⟩
      · obtain ⟨p,known,mine,rfl⟩ := facts.source r _ (by rw [pc]; rfl)
        refine ⟨p,List.mem_append_left _ known,mine,?_⟩
        rw [List.mem_singleton.mp now]
        rfl
  · exact stagePlain still.plain'
  · intro r urls now
    rcases still.known r urls now with ⟨before,owed⟩ | ⟨p,member,same⟩
    · obtain ⟨p,known,about⟩ := facts.source r before owed
      exact ⟨p,List.mem_append_left _ known,about⟩
    · exact ⟨p,List.mem_append_right _ member,(still.fresh p member).1,same⟩
  · intro p member own
    rw [still.account]
    rcases List.mem_append.mp member with before | now
    · obtain ⟨account,each⟩ := facts.linked p before own
      refine ⟨account,fun url chosen fits => ?_⟩
      rcases each url chosen fits with ⟨c,capture,link⟩ | ⟨urls,owed,later⟩
      · exact .inl ⟨c,(view _ rfl).trans capture,(view _ rfl).trans link⟩
      · exact .inr (still.owed _ urls _ owed later fits)
    · obtain ⟨_,account,_,owed⟩ := still.fresh p now
      refine ⟨account,fun url chosen _ => .inr ⟨_,owed,?_⟩⟩
      exact List.mem_map.mpr ⟨url,chosen,rfl⟩

theorem soundStill {reply w'} (sound : Sound d w publications committed) (found : w.calls[index]? = some (.page page))
    (untouched : Untouched w w' index) (still : Still d w index page reply page') :
    Sound d (w'.set index (.page page')) (publications ++ published d w index page reply) committed := by
  have calls : (w'.set index (.page page')).calls = w.calls.set index (.page page') := by
    simp [State.set,untouched.calls]
  have busy := plainBusy still.plain
  have own := factsStill (sound.pages index page found busy) untouched still
  refine soundDraft _ page' _ sound found busy calls ?_ untouched.drafts untouched.outbox still.account ?_ ?_ ?_
  · exact rowsSame sound.rows untouched.held (fun key _ => congrFun untouched.drafts.1 key) untouched.minted
      (activeSet found (plainBusy still.plain') calls)
  · intro e member
    rcases still.queued with same | ⟨_,_,_,_,same⟩
    · rwa [same]
    · rw [same]
      exact List.mem_append_left _ member
  · exact fun p member => ⟨(still.fresh p member).1,(still.fresh p member).2.2.1⟩
  · exact fun _ => own

theorem soundFailed (sound : Sound d w publications committed) (found : w.calls[index]? = some (.page page))
    (busy : ∀ b, page.pc ≠ .done b) : Sound d (w.failPage index page) publications committed := by
  have kept := soundDraft (w.failPage index page) {page with pc := .done false} [] sound found busy rfl
    (rowsAbort sound.rows rfl rfl rfl) (Store.draftsAbort _ _) rfl rfl (fun _ member => member) (by simp)
    (fun open_ => absurd rfl (open_ false))
  rwa [List.append_nil] at kept

theorem factsTurn {pc} (facts : PageFacts d w.rows publications index page) (same : unqueued pc = unqueued page.pc)
    (owed : pending pc = pending page.pc) (stage : Stage w.rows index page.accountId pc) :
    PageFacts d w.rows publications index {page with pc := pc} := by
  refine ⟨?_,facts.requests,facts.told,stage,?_,?_⟩
  · intro a u x held own
    obtain ⟨account,c,version,count⟩ := facts.captures a u x held own
    exact ⟨account,c,version,by rw [count]; simp only [same]⟩
  · intro r urls now
    exact facts.source r urls (owed ▸ now)
  · intro p member own
    obtain ⟨account,each⟩ := facts.linked p member own
    refine ⟨account,fun url chosen fits => ?_⟩
    rcases each url chosen fits with linked | ⟨urls,before,later⟩
    · exact .inl linked
    · exact .inr ⟨urls,owed.trans before,later⟩

theorem soundTurn {pc} (sound : Sound d w publications committed) (found : w.calls[index]? = some (.page page))
    (busy : ∀ b, page.pc ≠ .done b) (open_ : ∀ b, pc ≠ .done b) (same : unqueued pc = unqueued page.pc)
    (owed : pending pc = pending page.pc) (stage : Stage w.rows index page.accountId pc) :
    Sound d (w.turn index page pc) publications committed := by
  have kept := soundDraft (w.turn index page pc) {page with pc := pc} [] sound found busy rfl
    (rowsSame sound.rows (fun _ _ => rfl) (fun _ _ => rfl) (le_refl _) (activeSet found open_ rfl))
    (Store.draftsSame ..) rfl rfl (fun _ member => member) (by simp) (fun _ => ?_)
  · rwa [List.append_nil] at kept
  · rw [List.append_nil]
    exact factsTurn (sound.pages index page found busy) same owed stage

theorem commandsNone {envelopes : List Envelope} {captureId} (none : ∀ e ∈ envelopes, ∀ url, requestOf e ≠ some (captureId,url)) :
    commands envelopes captureId = 0 := by
  refine List.countP_eq_zero.mpr ?_
  intro e member
  cases request : requestOf e with
  | none => simp
  | some made =>
    obtain ⟨id,url⟩ := made
    have other := none e member url
    rw [request] at other
    simpa using other

theorem soundCreated {rest r url seen urls} (sound : Sound d w publications committed)
    (found : w.calls[index]? = some (.page page)) (pc : page.pc = .insert rest r url seen urls)
    (free : w.rows.Free index (.capture page.accountId url.normalizedUrl))
    (absent : (w.sees index).capture page.accountId url.normalizedUrl = none) :
    Sound d ({w.put index (.capture page.accountId url.normalizedUrl)
        (.capture ⟨w.minted,page.accountId,url.normalizedUrl,url.originalUrl⟩) with minted := w.minted + 1}.turn
      index page (.link rest r url.normalizedUrl w.minted true urls)) publications committed := by
  have busy : ∀ b, page.pc ≠ .done b := by simp [pc]
  have facts := sound.pages index page found busy
  have unseen : w.rows.view index (.capture page.accountId url.normalizedUrl) = none := by
    rcases viewTyped sound.rows (j := index) (a := page.accountId) (u := url.normalizedUrl) with ⟨_,none⟩ | ⟨c,there,_⟩
    · exact none
    · rw [show Rows.capture (w.rows.view index) page.accountId url.normalizedUrl = none from absent] at there
      cases there
  have unheld : w.rows.held (.capture page.accountId url.normalizedUrl) = none := by
    cases held : w.rows.held (.capture page.accountId url.normalizedUrl) with
    | none => rfl
    | some x =>
      obtain ⟨c,version,_⟩ := showsHeld sound.rows held
      rw [Store.viewHeld held (free x held),version] at unseen
      cases unseen
  have uncommitted : w.rows.committed (.capture page.accountId url.normalizedUrl) = none := by
    rw [← unseen]
    refine (Store.viewOther ?_).symm
    simp [unheld]
  have known : ∀ {a u x}, w.rows.held (.capture a u) = some x → ∀ c, x.version = some (.capture c) → c.id ≠ w.minted := by
    intro a u x held c version same
    obtain ⟨c',version',shows_⟩ := showsHeld sound.rows held
    rw [version] at version'
    cases Option.some.inj version'
    exact absurd same (Nat.ne_of_lt (sound.rows.keyed _ _ shows_).2)
  have unasked : commands page.queued w.minted = 0 := by
    refine commandsNone (fun e member url request => ?_)
    obtain ⟨c,held,same⟩ := facts.requests e member _ _ request
    exact known held c rfl same
  let made : ArticleCapture := ⟨w.minted,page.accountId,url.normalizedUrl,url.originalUrl⟩
  let later : State := {w.put index (.capture page.accountId url.normalizedUrl) (.capture made) with minted := w.minted + 1}
  have self : later.rows.held (.capture page.accountId url.normalizedUrl) = some ⟨index,some (.capture made)⟩ :=
    Store.putSelf ..
  have other : ∀ {key}, key ≠ .capture page.accountId url.normalizedUrl → later.rows.held key = w.rows.held key :=
    fun apart => Store.putOther _ apart
  have active : ∀ j, Active w j → Active (later.turn index page (.link rest r url.normalizedUrl w.minted true urls)) j :=
    activeSet found (by simp) rfl
  have kept := soundDraft (later.turn index page (.link rest r url.normalizedUrl w.minted true urls))
    {page with pc := .link rest r url.normalizedUrl w.minted true urls} [] sound found busy rfl
    (rowsCreated sound.rows rfl uncommitted rfl rfl rfl active (active index ⟨page,found,busy⟩))
    (Store.draftsPut free) rfl rfl (fun _ member => member) (by simp) (fun _ => ?_)
  · rwa [List.append_nil] at kept
  · rw [List.append_nil]
    constructor
    · intro a u x held own
      by_cases same : Key.capture a u = .capture page.accountId url.normalizedUrl
      · have mine : later.rows.held (.capture a u) = some x := held
        rw [same,self] at mine
        cases Option.some.inj mine
        simp only [Key.capture.injEq] at same
        exact ⟨same.1,made,rfl,by simp [unqueued,made,unasked]⟩
      · have before : w.rows.held (.capture a u) = some x := (other same).symm.trans held
        obtain ⟨account,c,version,count⟩ := facts.captures a u x before own
        refine ⟨account,c,version,?_⟩
        have apart := known before c version
        rw [pc] at count
        simp only [unqueued,reduceCtorEq,if_false] at count
        simp [unqueued,count,Ne.symm apart]
    · intro e member id url' request
      obtain ⟨c,held,same⟩ := facts.requests e member id url' request
      refine ⟨c,(other ?_).trans held,same⟩
      intro key
      rw [key,unheld] at held
      cases held
    · exact facts.told
    · exact ⟨made,Store.viewHeld self rfl,rfl,fun _ => self⟩
    · intro r' owed now
      exact facts.source r' owed (by rw [pc]; exact now)
    · intro p member own
      obtain ⟨account,each⟩ := facts.linked p member own
      refine ⟨account,fun link chosen fits => ?_⟩
      rcases each link chosen fits with ⟨c,capture,linked⟩ | ⟨owed,now,later⟩
      · refine .inl ⟨c,(Store.viewPutOther _ ?_).trans capture,(Store.viewPutOther _ (by simp)).trans linked⟩
        intro key
        rw [key,unseen] at capture
        cases capture
      · exact .inr ⟨owed,by rw [pc] at now; exact now,later⟩

def linkCommand (id : Uuid) (r : Revision) (captureId : Uuid) (url : String) : Bool → List Envelope
  | true => [articleCommand id r.owner r.sourceId captureId url]
  | false => []

theorem factsLinked {s : Store Key Row} {rest r url captureId created urls} (id : Uuid)
    (facts : PageFacts d w.rows publications index page) (pc : page.pc = .link rest r url captureId created urls)
    (held : ∀ a u, s.held (.capture a u) = w.rows.held (.capture a u))
    (view : ∀ key row, isArticle key = true → w.rows.view index key = some row → s.view index key = some row)
    (link : s.view index (.link r.sourceId captureId) = some .link) :
    PageFacts d s publications index
      {page with queued := page.queued ++ linkCommand id r captureId url created, pc := .select rest r urls} := by
  have stage := facts.stage
  rw [pc] at stage
  obtain ⟨c,seen,rfl,own⟩ := stage
  constructor
  · intro a u x there mine
    rw [held] at there
    obtain ⟨account,c',version,count⟩ := facts.captures a u x there mine
    refine ⟨account,c',version,?_⟩
    dsimp only
    rw [commandsAppend,count,pc]
    cases created with
    | false => simp [unqueued,linkCommand,commands]
    | true =>
      by_cases same : c.id = c'.id
      · simp [unqueued,linkCommand,commands,requestOf,articleCommand,same]
      · simp [unqueued,linkCommand,commands,requestOf,articleCommand,same]
  · intro e member id' url' request
    simp only [held]
    rcases List.mem_append.mp member with before | now
    · exact facts.requests e before id' url' request
    · cases created with
      | false => cases now
      | true =>
        rw [List.mem_singleton.mp now] at request
        simp only [requestOf,articleCommand,Option.some.injEq,Prod.mk.injEq] at request
        obtain ⟨rfl,rfl⟩ := request
        exact ⟨c,own rfl,rfl⟩
  · intro e member tells
    rcases List.mem_append.mp member with before | now
    · exact facts.told e before tells
    · cases created with
      | false => cases now
      | true =>
        rw [List.mem_singleton.mp now] at tells
        simp [tellsContent,articleCommand] at tells
  · trivial
  · intro r' owed now
    obtain ⟨rfl,_⟩ := Prod.mk.inj (Option.some.inj now)
    exact facts.source r _ (by rw [pc]; rfl)
  · intro p member mine
    obtain ⟨account,each⟩ := facts.linked p member mine
    refine ⟨account,fun chosen there fits => ?_⟩
    rcases each chosen there fits with ⟨c',capture,linked⟩ | ⟨owed,now,later⟩
    · exact .inl ⟨c',view _ _ rfl capture,view _ _ rfl linked⟩
    · rw [pc] at now
      obtain ⟨rfl,rfl⟩ := Prod.mk.inj (Option.some.inj now)
      rcases List.mem_cons.mp later with here | after
      · exact .inl ⟨c,by rw [here]; exact view _ _ rfl seen,link⟩
      · exact .inr ⟨_,rfl,after⟩

theorem soundLinked {rest r url captureId created urls} (sound : Sound d w publications committed)
    (found : w.calls[index]? = some (.page page)) (pc : page.pc = .link rest r url captureId created urls)
    {linked : State} (free : w.rows.Free index (.link r.sourceId captureId))
    (made : linked = if (w.sees index (.link r.sourceId captureId)).isSome then w
      else w.put index (.link r.sourceId captureId) .link) :
    Sound d (if created then {linked with minted := w.minted + 1}.turn index
        {page with queued := page.queued ++ [articleCommand w.minted r.owner r.sourceId captureId url]} (.select rest r urls)
      else linked.turn index page (.select rest r urls)) publications committed := by
  have busy : ∀ b, page.pc ≠ .done b := by simp [pc]
  let page' : Page := {page with
    queued := page.queued ++ linkCommand w.minted r captureId url created, pc := .select rest r urls}
  let t : State := {linked.set index (.page page') with minted := if created then w.minted + 1 else w.minted}
  have base : linked.calls = w.calls ∧ linked.outbox = w.outbox ∧ linked.minted = w.minted := by
    rw [made]
    split
    · exact ⟨rfl,rfl,rfl⟩
    · exact ⟨rfl,rfl,rfl⟩
  have minted : w.minted ≤ t.minted := by
    dsimp only [t]
    split
    · exact Nat.le_succ _
    · exact le_refl _
  have calls : t.calls = w.calls.set index (.page page') := by simp [t,State.set,base.1]
  have active : ∀ j, Active w j → Active t j := activeSet found (by simp [page']) calls
  have same : (if created then {linked with minted := w.minted + 1}.turn index
        {page with queued := page.queued ++ [articleCommand w.minted r.owner r.sourceId captureId url]} (.select rest r urls)
      else linked.turn index page (.select rest r urls)) = t := by
    cases created with
    | true => rfl
    | false => simp [t,page',linkCommand,State.turn,State.set,← base.2.2]
  have outcome : RowsSound t ∧ w.rows.Drafts t.rows index ∧ PageFacts d t.rows publications index page' := by
    cases seen : (w.sees index (.link r.sourceId captureId)).isSome with
    | true =>
      rw [seen,if_pos rfl] at made
      have link : w.rows.view index (.link r.sourceId captureId) = some .link := by
        obtain ⟨row,there⟩ := Option.isSome_iff_exists.mp seen
        refine there.trans ?_
        by_cases mine : ∃ x, w.rows.held (.link r.sourceId captureId) = some x ∧ x.owner = index
        · obtain ⟨x,held,own⟩ := mine
          rw [← there]
          exact (Store.viewHeld held own).trans (sound.rows.linkDrafts _ _ x held)
        · rw [State.sees,Store.viewOther (fun x held own => mine ⟨x,held,own⟩)] at there
          rw [sound.rows.links _ _ row there]
      subst made
      exact ⟨rowsSame sound.rows (fun _ _ => rfl) (fun _ _ => rfl) minted active,Store.draftsSame ..,
        factsLinked _ (sound.pages index page found busy) pc (fun _ _ => rfl) (fun _ _ _ there => there) link⟩
    | false =>
      rw [seen,if_neg Bool.false_ne_true] at made
      have self : (w.rows.put index (.link r.sourceId captureId) (some .link)).view index (.link r.sourceId captureId) =
          some .link := Store.viewHeld (Store.putSelf ..) rfl
      subst made
      refine ⟨rowsLinked sound.rows rfl minted active (active index ⟨page,found,busy⟩),Store.draftsPut free,
        factsLinked _ (sound.pages index page found busy) pc (fun _ _ => Store.putOther _ (by simp)) ?_ self⟩
      intro key row _ there
      by_cases here : key = .link r.sourceId captureId
      · rw [here] at there
        rw [State.sees,there] at seen
        cases seen
      · exact (Store.viewPutOther _ here).trans there
  rw [same]
  have kept := soundDraft t page' [] sound found busy calls outcome.1 outcome.2.1 base.2.1 rfl
    (fun _ member => List.mem_append_left _ member) (by simp) (fun _ => by rw [List.append_nil]; exact outcome.2.2)
  rwa [List.append_nil] at kept

end Drafts

section Commits
variable {d : Deployment} {w : State} {index : Nat} {page : Page} {publications : List PagePublication} {committed : List Nat}

theorem committedWhence {a u c} (there : w.rows.view index (.capture a u) = some (.capture c)) :
    w.rows.held (.capture a u) = some ⟨index,some (.capture c)⟩ ∨
      w.rows.committed (.capture a u) = some (.capture c) := by
  by_cases mine : ∃ x, w.rows.held (.capture a u) = some x ∧ x.owner = index
  · obtain ⟨⟨owner,version⟩,held,rfl⟩ := mine
    rw [Store.viewHeld held rfl] at there
    exact .inl (held.trans (by rw [show version = some (.capture c) from there]))
  · exact .inr ((Store.viewOther (fun x held own => mine ⟨x,held,own⟩)).symm.trans there)

theorem heldApart (rows : RowsSound w) {a u i c a' u' c'} (held : w.rows.held (.capture a u) = some ⟨i,some (.capture c)⟩)
    (there : w.rows.committed (.capture a' u') = some (.capture c')) : c.id ≠ c'.id := by
  intro same
  have key := rows.apart (a,u) (a',u') c c' (.inr ⟨i,held⟩) (.inl there) same
  cases key
  rw [(rows.drafts _ _ _ held).1] at there
  cases there

theorem queuedUnder (rows : RowsSound w) (facts : PageFacts d w.rows publications index page) {e} (queued : e ∈ page.queued)
    {a u i c url} (held : w.rows.held (.capture a u) = some ⟨i,some (.capture c)⟩)
    (request : requestOf e = some (c.id,url)) : (a,u) = (page.accountId,url) := by
  obtain ⟨c',held',same⟩ := facts.requests e queued c.id url request
  exact rows.apart (a,u) (page.accountId,url) c c' (.inr ⟨i,held⟩) (.inr ⟨index,held'⟩) same.symm

theorem soundCommitted (acked) (sound : Sound d w publications committed) (found : w.calls[index]? = some (.page page))
    (pc : page.pc = .publish []) :
    Sound d ((w.commit index [] page.queued).turn index page (.done acked)) publications (committed ++ [index]) := by
  have busy : ∀ b, page.pc ≠ .done b := by simp [pc]
  have rows := sound.rows
  have facts := sound.pages index page found busy
  have open_ : unqueued page.pc = none := by rw [pc]; rfl
  constructor
  · exact rowsCommit rows rfl rfl rfl
  · intro j other there open_
    have moved : (w.calls.set index _)[j]? = some (.page other) := there
    rw [setCall found] at moved
    by_cases here : j = index
    · rw [if_pos here] at moved
      cases Option.some.inj moved
      exact absurd rfl (open_ acked)
    · rw [if_neg here] at moved
      exact factsBeside (besideCommit rows here) (fun _ member => member) (fun _ member => .inl member)
        (sound.pages j other moved open_)
  · intro a u c there
    show commands (w.outbox ++ page.queued) c.id = 1
    rw [commandsAppend]
    rcases committedWhence there with held | before
    · obtain ⟨_,c',version,count⟩ := facts.captures a u _ held rfl
      simp only [Option.some.injEq,Row.capture.injEq] at version
      subst version
      rw [open_,if_neg (by simp)] at count
      rw [count,commandsNone]
      intro e member url request
      obtain ⟨a',c',committed',same⟩ := sound.requested e member c.id url request
      exact heldApart rows held committed' same.symm
    · rw [sound.once a u c before,commandsNone]
      intro e member url request
      obtain ⟨c',held,same⟩ := facts.requests e member c.id url request
      exact heldApart rows held before same
  · intro e member id url request
    rcases List.mem_append.mp member with before | now
    · obtain ⟨a,c,there,same⟩ := sound.requested e before id url request
      exact ⟨a,c,committedSeen rows rfl there,same⟩
    · obtain ⟨c,held,same⟩ := facts.requests e now id url request
      exact ⟨page.accountId,c,Store.viewHeld held rfl,same⟩
  · intro e member tells
    rcases List.mem_append.mp member with before | now
    · obtain ⟨p,known,done,same⟩ := sound.told e before tells
      exact ⟨p,known,List.mem_append_left _ done,same⟩
    · obtain ⟨p,known,mine,same⟩ := facts.told e now tells
      exact ⟨p,known,by rw [mine]; exact List.mem_append_right _ (List.mem_singleton_self _),same⟩
  · intro p known done url chosen fits
    rcases List.mem_append.mp done with before | now
    · obtain ⟨c,capture,link⟩ := sound.linked p known before url chosen fits
      exact ⟨c,committedSeen rows rfl capture,committedSeen rows rfl link⟩
    · obtain ⟨account,each⟩ := facts.linked p known (List.mem_singleton.mp now)
      rcases each url chosen fits with linked | ⟨urls,owed,_⟩
      · rw [account]
        exact linked
      · rw [pc] at owed
        cases owed
  · intro a u c there
    have kept : ∀ {key}, key ∈ captureKeys w → key ∈ captureKeys ((w.commit index [] page.queued).turn index page (.done acked)) :=
      have calls : ((w.commit index [] page.queued).turn index page (.done acked)).calls =
          w.calls.set index (.page {page with pc := .done acked}) := rfl
      keysSet found calls rfl (fun _ member => member)
    rcases committedWhence there with held | before
    · obtain ⟨_,c',version,count⟩ := facts.captures a u _ held rfl
      simp only [Option.some.injEq,Row.capture.injEq] at version
      subst version
      rw [open_,if_neg (by simp)] at count
      obtain ⟨e,member,request⟩ := List.countP_pos_iff.mp (show 0 < commands page.queued c.id by omega)
      simp only [decide_eq_true_eq,Option.map_eq_some_iff] at request
      obtain ⟨⟨id,url⟩,request,rfl⟩ := request
      rw [queuedUnder rows facts member held request]
      refine kept (List.mem_flatMap.mpr ⟨_,List.mem_of_getElem? found,?_⟩)
      exact List.mem_filterMap.mpr ⟨e,member,by rw [request]; rfl⟩
    · exact kept (sound.listed a u c before)
  · intro p member
    exact ⟨(sound.chosen p member).1,by simpa [State.turn,State.set,State.commit] using (sound.chosen p member).2⟩
  · intro j member
    rcases List.mem_append.mp member with before | now
    · obtain ⟨other,b,there,done⟩ := sound.finished j before
      refine ⟨other,b,?_,done⟩
      show (w.calls.set index _)[j]? = _
      rw [setCall found,if_neg]
      · exact there
      · rintro rfl
        exact busyUncommitted sound found busy before
    · cases List.mem_singleton.mp now
      refine ⟨{page with pc := .done acked},acked,?_,rfl⟩
      show (w.calls.set index _)[index]? = _
      rw [setCall found,if_pos rfl]

end Commits

section Library
variable {d : Deployment} {w t : State} {publications : List PagePublication} {committed : List Nat}

theorem soundPage {index page reply} (sound : Sound d w publications committed)
    (found : w.calls[index]? = some (.page page)) (taken : w.stagePage d index page reply = some t) :
    Sound d t (publications ++ published d w index page reply) (committed ++ commits index page reply) := by
  have quiet : ∀ {t : State}, (∀ post rest, page.pc ≠ .load post rest) → commits index page reply = [] →
      Sound d t publications committed →
        Sound d t (publications ++ published d w index page reply) (committed ++ commits index page reply) := by
    intro t elsewhere none kept
    rwa [publishedElsewhere elsewhere,none,List.append_nil,List.append_nil]
  cases pageMoves taken with
  | still untouched still =>
    rw [still.uncommitted,List.append_nil]
    exact soundStill sound found untouched still
  | @seen rest r url urls pc =>
    refine quiet (by simp [pc]) (by simp [commits,pc]) (soundTurn sound found (by simp [pc]) (by simp) ?_ ?_ ?_)
    · rw [pc]
      rfl
    · rw [pc]
      rfl
    · intro c same
      rcases viewTyped sound.rows (j := index) (a := page.accountId) (u := url.normalizedUrl) with ⟨none,_⟩ | ⟨c',there,view⟩
      · rw [State.sees,none] at same
        cases same
      · rw [State.sees,there] at same
        cases Option.some.inj same
        exact view
  | @found rest r url capture urls current pc there =>
    have stage := (sound.pages index page found (by simp [pc])).stage
    rw [pc] at stage
    refine quiet (by simp [pc]) (by simp [commits,pc]) (soundTurn sound found (by simp [pc]) (by simp) ?_ ?_ ?_)
    · rw [pc]
      rfl
    · rw [pc]
      rfl
    · exact ⟨capture,stage capture rfl,rfl,fun fresh => absurd fresh Bool.false_ne_true⟩
  | starved pc answered there =>
    exact quiet (by simp [pc]) (by simp [commits,pc]) (soundFailed sound found (by simp [pc]))
  | created pc free absent =>
    exact quiet (by simp [pc]) (by simp [commits,pc]) (soundCreated sound found pc free absent)
  | linked pc free made =>
    exact quiet (by simp [pc]) (by simp [commits,pc]) (soundLinked sound found pc free made)
  | failed open_ elsewhere unpublished uncommitted =>
    rw [unpublished,uncommitted,List.append_nil,List.append_nil]
    exact soundFailed sound found open_
  | committed acked pc answered =>
    have done : commits index page reply = [index] := by
      rw [answered]
      cases acked <;> simp [commits,pc]
    rw [publishedElsewhere (by simp [pc]),done,List.append_nil]
    exact soundCommitted acked sound found pc

theorem keysSame (pages : ∀ (j : Nat) page, w.calls[j]? = some (.page page) → t.calls[j]? = some (.page page)) {key}
    (listed : key ∈ captureKeys w) : key ∈ captureKeys t := by
  obtain ⟨call,member,listed⟩ := List.mem_flatMap.mp listed
  obtain ⟨j,there⟩ := List.mem_iff_getElem?.mp member
  cases call with
  | page page => exact List.mem_flatMap.mpr ⟨_,List.mem_of_getElem? (pages j page there),listed⟩
  | run run => cases listed

theorem soundOutside (sound : Sound d w publications committed) (rows : RowsSound t)
    (held : ∀ key, isArticle key = true → t.rows.held key = w.rows.held key)
    (same : ∀ key, isArticle key = true → t.rows.committed key = w.rows.committed key)
    (pages : ∀ (j : Nat) page, w.calls[j]? = some (.page page) → t.calls[j]? = some (.page page))
    (fresh : ∀ (j : Nat) page, t.calls[j]? = some (.page page) → (∀ b, page.pc ≠ .done b) →
      w.calls[j]? = some (.page page) ∨ PageFacts d t.rows publications j page)
    (longer : w.calls.length ≤ t.calls.length) {queued} (outbox : t.outbox = w.outbox ++ queued)
    (silent : ∀ e ∈ queued, requestOf e = none ∧ tellsContent e = false) : Sound d t publications committed := by
  have before : ∀ e ∈ t.outbox, requestOf e ≠ none ∨ tellsContent e = true → e ∈ w.outbox := by
    intro e member tells
    rw [outbox] at member
    rcases List.mem_append.mp member with old | now
    · exact old
    · rcases tells with request | content
      · exact absurd (silent e now).1 request
      · rw [(silent e now).2] at content
        cases content
  have archived : ∀ key, isArticle key = true → t.archived key = w.archived key := same
  constructor
  · exact rows
  · intro j page there open_
    rcases fresh j page there open_ with old | own
    · exact factsBeside (besideSame held same j) (fun _ member => member) (fun _ member => .inl member)
        (sound.pages j page old open_)
    · exact own
  · intro a u c there
    rw [archived _ rfl] at there
    rw [outbox,commandsAppend,sound.once a u c there,commandsNone (fun e member url request => ?_)]
    rw [(silent e member).1] at request
    cases request
  · intro e member id url request
    obtain ⟨a,c,there,same⟩ := sound.requested e (before e member (.inl (by simp [request]))) id url request
    exact ⟨a,c,(archived _ rfl).trans there,same⟩
  · exact fun e member tells => sound.told e (before e member (.inr tells)) tells
  · intro p known done url chosen fits
    obtain ⟨c,capture,link⟩ := sound.linked p known done url chosen fits
    exact ⟨c,(archived _ rfl).trans capture,(archived _ rfl).trans link⟩
  · exact fun a u c there => keysSame pages (sound.listed a u c ((archived _ rfl).symm.trans there))
  · exact fun p member => ⟨(sound.chosen p member).1,(sound.chosen p member).2.trans_le longer⟩
  · intro j member
    obtain ⟨page,b,there,done⟩ := sound.finished j member
    exact ⟨page,b,pages j page there,done⟩

theorem activeSame (pages : ∀ (j : Nat) page, w.calls[j]? = some (.page page) → t.calls[j]? = some (.page page)) (j)
    (active : Active w j) : Active t j := by
  obtain ⟨page,there,busy⟩ := active
  exact ⟨page,pages j page there,busy⟩

theorem soundRun {index run reply} (sound : Sound d w publications committed) (library : LibraryCommits.Sound w)
    (found : w.calls[index]? = some (.run run)) (taken : w.runDue index run reply = some t) :
    Sound d t publications committed := by
  have move := runMoves library found taken
  obtain ⟨run',calls⟩ := move.calls
  obtain ⟨queued,outbox,silent⟩ := move.outbox
  have other : ∀ key, isArticle key = true → ∀ x, w.rows.held key = some x → x.owner ≠ index := by
    rintro key article x held rfl
    obtain ⟨page,there,_⟩ := sound.rows.holders key x article held
    rw [found] at there
    cases there
  have pages : ∀ (j : Nat) page, w.calls[j]? = some (.page page) → t.calls[j]? = some (.page page) := by
    intro j page there
    rw [calls,setCall found,if_neg]
    · exact there
    · rintro rfl
      rw [found] at there
      cases there
  have rows := fun key article => move.rows key article (other key article)
  refine soundOutside sound ?_ (fun key article => (rows key article).1) (fun key article => (rows key article).2) pages ?_
    (by rw [calls,List.length_set]) outbox silent
  · exact rowsSame sound.rows (fun key article => (rows key article).1) (fun key article => (rows key article).2)
      move.minted (activeSame pages)
  · intro j page there _
    rw [calls,setCall found] at there
    split at there
    · cases there
    · exact .inl there

theorem soundOpen {call : Call} (sound : Sound d w publications committed)
    (begins : ∀ page, call = .page page → page.queued = [] ∧ ∃ users, page.pc = .users users) :
    Sound d {w with calls := w.calls ++ [call]} publications committed := by
  have pages : ∀ (j : Nat) page, w.calls[j]? = some (.page page) → (w.calls ++ [call])[j]? = some (.page page) := by
    intro j page there
    rw [List.getElem?_append_left (List.getElem?_eq_some_iff.mp there).1]
    exact there
  refine soundOutside sound ?_ (fun _ _ => rfl) (fun _ _ => rfl) pages ?_ (by simp) (List.append_nil _).symm (by simp)
  · exact rowsSame sound.rows (fun _ _ => rfl) (fun _ _ => rfl) (le_refl _) (activeSame pages)
  · intro j page there _
    rcases lt_or_ge j w.calls.length with old | late
    · rw [List.getElem?_append_left old] at there
      exact .inl there
    · rw [List.getElem?_append_right late] at there
      obtain ⟨_,last⟩ := List.getElem?_eq_some_iff.mp there
      rw [List.getElem_singleton] at last
      obtain ⟨queued,users,pc⟩ := begins page last
      have unheld : ∀ key x, isArticle key = true → w.rows.held key = some x → x.owner ≠ j := by
        rintro key x article held rfl
        obtain ⟨other,known,_⟩ := sound.rows.holders key x article held
        exact absurd (List.getElem?_eq_some_iff.mp known).1 (Nat.not_lt.mpr late)
      refine .inr ⟨?_,?_,?_,?_,?_,?_⟩
      · exact fun a u x held own => absurd own (unheld _ x rfl held)
      · simp [queued]
      · simp [queued]
      · rw [pc]
        trivial
      · simp [pc,pending]
      · exact fun p member own => absurd ((sound.chosen p member).2) (Nat.not_lt.mpr (own ▸ late))

end Library
end RatatoskrX.ArticleSteps
