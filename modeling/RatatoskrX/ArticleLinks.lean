import RatatoskrX.ArticleMoves

/-! One capture for an account and a URL, whatever publishes the URL. A capture is held by the
page that inserted it until that page commits, together with its command, and no committed
capture or link ever changes; so what a page has linked stays linked. -/
namespace RatatoskrX.ArticleLinks
open Schema Envelopes ArticleUrls SocialSources ReadCommitted Transition Library Articles ArticleMoves

section Facts

def Shows (s : Store Key Row) (key : Uuid × String) (c : ArticleCapture) : Prop :=
  s.committed (.capture key.1 key.2) = some (.capture c) ∨
    ∃ i, s.held (.capture key.1 key.2) = some ⟨i,some (.capture c)⟩

def Linked (rows : Rows) (accountId sourceId : Uuid) (url : String) : Prop :=
  ∃ c, rows (.capture accountId url) = some (.capture c) ∧ rows (.link sourceId c.id) = some .link

def commands (envelopes : List Envelope) (captureId : Uuid) : Nat :=
  envelopes.countP (fun e => (requestOf e).map Prod.fst = some captureId)

structure RowsSound (w : State) : Prop where
  captures : ∀ a u row, w.rows.committed (.capture a u) = some row → ∃ c, row = .capture c
  links : ∀ s c row, w.rows.committed (.link s c) = some row → row = .link
  drafts : ∀ a u x, w.rows.held (.capture a u) = some x →
    w.rows.committed (.capture a u) = none ∧ ∃ c, x.version = some (.capture c)
  linkDrafts : ∀ s c x, w.rows.held (.link s c) = some x → x.version = some .link
  keyed : ∀ key c, Shows w.rows key c → (c.accountId,c.normalizedUrl) = key ∧ c.id < w.minted
  apart : ∀ key key' c c', Shows w.rows key c → Shows w.rows key' c' → c.id = c'.id → key = key'
  holders : ∀ key x, isArticle key = true → w.rows.held key = some x →
    ∃ page, w.calls[x.owner]? = some (.page page) ∧ ∀ b, page.pc ≠ .done b

def Stage (s : Store Key Row) (index : Nat) (accountId : Uuid) : PagePc → Prop
  | .insert _ _ url seen _ => ∀ c, seen = some c → s.view index (.capture accountId url.normalizedUrl) = some (.capture c)
  | .link _ _ url captureId created _ => ∃ c, s.view index (.capture accountId url) = some (.capture c) ∧ c.id = captureId ∧
      (created = true → s.held (.capture accountId url) = some ⟨index,some (.capture c)⟩)
  | _ => True

structure PageFacts (d : Deployment) (s : Store Key Row) (publications : List PagePublication) (index : Nat) (page : Page) :
    Prop where
  captures : ∀ a u x, s.held (.capture a u) = some x → x.owner = index → a = page.accountId ∧
    ∃ c, x.version = some (.capture c) ∧ commands page.queued c.id = if unqueued page.pc = some c.id then 0 else 1
  requests : ∀ e ∈ page.queued, ∀ id url, requestOf e = some (id,url) →
    ∃ c, s.held (.capture page.accountId url) = some ⟨index,some (.capture c)⟩ ∧ c.id = id
  told : ∀ e ∈ page.queued, tellsContent e = true → ∃ p ∈ publications, p.index = index ∧
    e = sourceEvent e.id p.revision.owner p.revision.fact p.revision.snapshot
  stage : Stage s index page.accountId page.pc
  source : ∀ r urls, pending page.pc = some (r,urls) → ∃ p ∈ publications, p.index = index ∧ p.revision = r
  linked : ∀ p ∈ publications, p.index = index → p.accountId = page.accountId ∧
    ∀ url ∈ p.revision.urls, d.publisher.captureUrl url.normalizedUrl = true →
      Linked (s.view index) page.accountId p.revision.sourceId url.normalizedUrl ∨
        ∃ urls, pending page.pc = some (p.revision,urls) ∧ url.normalizedUrl ∈ urls

/- The captures, their links and their commands, after any steps of the library. -/
structure Sound (d : Deployment) (w : State) (publications : List PagePublication) (committed : List Nat) : Prop where
  rows : RowsSound w
  pages : ∀ (index : Nat) page, w.calls[index]? = some (.page page) → (∀ b, page.pc ≠ .done b) →
    PageFacts d w.rows publications index page
  once : ∀ a u c, w.archived (.capture a u) = some (.capture c) → commands w.outbox c.id = 1
  requested : ∀ e ∈ w.outbox, ∀ id url, requestOf e = some (id,url) →
    ∃ a c, w.archived (.capture a url) = some (.capture c) ∧ c.id = id
  told : ∀ e ∈ w.outbox, tellsContent e = true → ∃ p ∈ publications, p.index ∈ committed ∧
    e = sourceEvent e.id p.revision.owner p.revision.fact p.revision.snapshot
  linked : ∀ p ∈ publications, p.index ∈ committed → ∀ url ∈ p.revision.urls,
    d.publisher.captureUrl url.normalizedUrl = true →
      Linked w.archived p.accountId p.revision.sourceId url.normalizedUrl
  listed : ∀ a u c, w.archived (.capture a u) = some (.capture c) → (a,u) ∈ captureKeys w
  chosen : ∀ p ∈ publications, p.revision.urls = selectExternalExpandedUrls p.post.expandedUrls ∧
    p.index < w.calls.length
  finished : ∀ index ∈ committed, ∃ page b, w.calls[index]? = some (.page page) ∧ page.pc = .done b

/- What another transaction leaves of the captures and links that transaction j sees. -/
def Beside (s t : Store Key Row) (j : Nat) : Prop :=
  (∀ key x, isArticle key = true → x.owner = j → (t.held key = some x ↔ s.held key = some x)) ∧
    ∀ key row, isArticle key = true → s.view j key = some row → t.view j key = some row

variable {d : Deployment} {s t : Store Key Row} {w : State} {index j : Nat} {page : Page}
  {publications publications' : List PagePublication}

theorem linkedBeside (beside : Beside s t j) {accountId sourceId url} (linked : Linked (s.view j) accountId sourceId url) :
    Linked (t.view j) accountId sourceId url := by
  obtain ⟨c,capture,link⟩ := linked
  exact ⟨c,beside.2 _ _ rfl capture,beside.2 _ _ rfl link⟩

theorem stageBeside (beside : Beside s t j) {accountId pc} (stage : Stage s j accountId pc) : Stage t j accountId pc := by
  cases pc with
  | insert rest r url seen urls => exact fun c same => beside.2 _ _ rfl (stage c same)
  | link rest r url captureId created urls =>
    obtain ⟨c,view,same,held⟩ := stage
    exact ⟨c,beside.2 _ _ rfl view,same,fun fresh => (beside.1 _ _ rfl rfl).mpr (held fresh)⟩
  | _ => trivial

theorem factsBeside (beside : Beside s t j) (grows : ∀ p ∈ publications, p ∈ publications')
    (foreign : ∀ p ∈ publications', p ∈ publications ∨ p.index ≠ j) (facts : PageFacts d s publications j page) :
    PageFacts d t publications' j page where
  captures a u x held own := facts.captures a u x ((beside.1 _ x rfl own).mp held) own
  requests e member id url request := by
    obtain ⟨c,held,same⟩ := facts.requests e member id url request
    exact ⟨c,(beside.1 _ _ rfl rfl).mpr held,same⟩
  told e member tells := by
    obtain ⟨p,known,facts⟩ := facts.told e member tells
    exact ⟨p,grows p known,facts⟩
  stage := stageBeside beside facts.stage
  source r urls now := by
    obtain ⟨p,known,same⟩ := facts.source r urls now
    exact ⟨p,grows p known,same⟩
  linked p member own := by
    rcases foreign p member with known | other
    · obtain ⟨account,each⟩ := facts.linked p known own
      refine ⟨account,fun url chosen fits => ?_⟩
      rcases each url chosen fits with linked | owed
      · exact .inl (linkedBeside beside linked)
      · exact .inr owed
    · exact absurd own other

end Facts

section Rows
variable {w t : State} {index : Nat}

def Active (w : State) (j : Nat) : Prop := ∃ page, w.calls[j]? = some (.page page) ∧ ∀ b, page.pc ≠ .done b

theorem rowsSame (sound : RowsSound w) (held : ∀ key, isArticle key = true → t.rows.held key = w.rows.held key)
    (committed : ∀ key, isArticle key = true → t.rows.committed key = w.rows.committed key) (minted : w.minted ≤ t.minted)
    (active : ∀ j, Active w j → Active t j) : RowsSound t where
  captures a u row there := sound.captures a u row ((committed _ rfl).symm.trans there)
  links a c row there := sound.links a c row ((committed _ rfl).symm.trans there)
  drafts a u x there := by
    rw [committed _ rfl]
    exact sound.drafts a u x ((held _ rfl).symm.trans there)
  linkDrafts a c x there := sound.linkDrafts a c x ((held _ rfl).symm.trans there)
  keyed key c shows_ := by
    unfold Shows at shows_
    rw [held _ rfl,committed _ rfl] at shows_
    exact ⟨(sound.keyed key c shows_).1,(sound.keyed key c shows_).2.trans_le minted⟩
  apart key key' c c' left right same := by
    unfold Shows at left right
    rw [held _ rfl,committed _ rfl] at left right
    exact sound.apart key key' c c' left right same
  holders key x article there := active _ (sound.holders key x article ((held key article).symm.trans there))

theorem activeSet {page page' : Page} (found : w.calls[index]? = some (.page page)) (open_ : ∀ b, page'.pc ≠ .done b)
    (calls : t.calls = w.calls.set index (.page page')) (j) (active : Active w j) : Active t j := by
  obtain ⟨other,there,busy⟩ := active
  unfold Active
  rw [calls,setCall found]
  by_cases here : j = index
  · exact ⟨page',if_pos here,open_⟩
  · rw [if_neg here]
    exact ⟨other,there,busy⟩

theorem activeOther {call : Call} (calls : t.calls = w.calls.set index call) {j} (apart : j ≠ index)
    (active : Active w j) : Active t j := by
  obtain ⟨other,there,busy⟩ := active
  refine ⟨other,?_,busy⟩
  rw [calls,List.getElem?_set,if_neg apart.symm]
  exact there

theorem viewCapture (sound : RowsSound w) {j a u row} (view : w.rows.view j (.capture a u) = some row) :
    ∃ c, row = .capture c ∧ Shows w.rows (a,u) c := by
  by_cases mine : ∃ x, w.rows.held (.capture a u) = some x ∧ x.owner = j
  · obtain ⟨⟨owner,version⟩,held,rfl⟩ := mine
    obtain ⟨_,c,same⟩ := sound.drafts a u _ held
    rw [Store.viewHeld held rfl,show version = some (.capture c) from same] at view
    cases Option.some.inj view
    refine ⟨c,rfl,.inr ⟨owner,?_⟩⟩
    rw [held,show version = some (.capture c) from same]
  · rw [Store.viewOther (fun x held own => mine ⟨x,held,own⟩)] at view
    obtain ⟨c,rfl⟩ := sound.captures a u row view
    exact ⟨c,rfl,.inl view⟩

theorem viewTyped (sound : RowsSound w) {j a u} : Rows.capture (w.rows.view j) a u = none ∧
    w.rows.view j (.capture a u) = none ∨
      ∃ c, Rows.capture (w.rows.view j) a u = some c ∧ w.rows.view j (.capture a u) = some (.capture c) := by
  cases view : w.rows.view j (.capture a u) with
  | none => simp [Rows.capture,view]
  | some row =>
    obtain ⟨c,rfl,_⟩ := viewCapture sound view
    simp [Rows.capture,view]

theorem committedSeen (sound : RowsSound w) {j key row} (article : isArticle key = true)
    (there : w.rows.committed key = some row) : w.rows.view j key = some row := by
  by_cases mine : ∃ x, w.rows.held key = some x ∧ x.owner = j
  · obtain ⟨x,held,own⟩ := mine
    cases key with
    | capture a u =>
      rw [(sound.drafts a u x held).1] at there
      cases there
    | link a c =>
      rw [Store.viewHeld held own,sound.linkDrafts a c x held,sound.links a c row there]
    | _ => simp [isArticle] at article
  · rw [Store.viewOther (fun x held own => mine ⟨x,held,own⟩)]
    exact there

theorem showsHeld (sound : RowsSound w) {a u x} (held : w.rows.held (.capture a u) = some x) :
    ∃ c, x.version = some (.capture c) ∧ Shows w.rows (a,u) c := by
  obtain ⟨owner,version⟩ := x
  obtain ⟨_,c,same⟩ := sound.drafts a u _ held
  refine ⟨c,same,.inr ⟨owner,?_⟩⟩
  rw [held,show version = some (.capture c) from same]

theorem rowsAbort (sound : RowsSound w) {call : Call} (rows : t.rows = w.rows.abort index) (minted : t.minted = w.minted)
    (calls : t.calls = w.calls.set index call) : RowsSound t := by
  have held : ∀ {key x}, t.rows.held key = some x → w.rows.held key = some x ∧ x.owner ≠ index := by
    intro key x there
    rw [rows] at there
    exact Store.abortHeld.mp there
  have committed : t.rows.committed = w.rows.committed := by rw [rows]; rfl
  have shown : ∀ key c, Shows t.rows key c → Shows w.rows key c := by
    rintro key c (there | ⟨i,there⟩)
    · exact .inl (by rw [← committed]; exact there)
    · exact .inr ⟨i,(held there).1⟩
  constructor
  · rw [committed]
    exact sound.captures
  · rw [committed]
    exact sound.links
  · rw [committed]
    exact fun a u x there => sound.drafts a u x (held there).1
  · exact fun a c x there => sound.linkDrafts a c x (held there).1
  · rw [minted]
    exact fun key c there => sound.keyed key c (shown key c there)
  · exact fun key key' c c' left right => sound.apart key key' c c' (shown key c left) (shown key' c' right)
  · intro key x article there
    exact activeOther calls (held there).2 (sound.holders key x article (held there).1)

theorem rowsCommit (sound : RowsSound w) {call : Call} (rows : t.rows = w.rows.commit index) (minted : t.minted = w.minted)
    (calls : t.calls = w.calls.set index call) : RowsSound t := by
  have held : ∀ {key x}, t.rows.held key = some x → w.rows.held key = some x ∧ x.owner ≠ index := by
    intro key x there
    rw [rows] at there
    exact Store.commitHeld.mp there
  have committed : t.rows.committed = w.rows.view index := by rw [rows]; rfl
  have shown : ∀ key c, Shows t.rows key c → Shows w.rows key c := by
    rintro key c (there | ⟨i,there⟩)
    · rw [committed] at there
      obtain ⟨c',same,shown⟩ := viewCapture sound there
      cases same
      exact shown
    · exact .inr ⟨i,(held there).1⟩
  constructor
  · rw [committed]
    intro a u row there
    obtain ⟨c,same,_⟩ := viewCapture sound there
    exact ⟨c,same⟩
  · rw [committed]
    intro a c row there
    by_cases mine : ∃ x, w.rows.held (.link a c) = some x ∧ x.owner = index
    · obtain ⟨x,own,rfl⟩ := mine
      rw [Store.viewHeld own rfl,sound.linkDrafts a c x own] at there
      exact (Option.some.inj there).symm
    · rw [Store.viewOther (fun x own same => mine ⟨x,own,same⟩)] at there
      exact sound.links a c row there
  · intro a u x there
    refine ⟨?_,(sound.drafts a u x (held there).1).2⟩
    rw [committed,Store.viewOther]
    · exact (sound.drafts a u x (held there).1).1
    · intro y own
      rw [(held there).1] at own
      cases Option.some.inj own
      exact (held there).2
  · exact fun a c x there => sound.linkDrafts a c x (held there).1
  · rw [minted]
    exact fun key c there => sound.keyed key c (shown key c there)
  · exact fun key key' c c' left right => sound.apart key key' c c' (shown key c left) (shown key' c' right)
  · intro key x article there
    exact activeOther calls (held there).2 (sound.holders key x article (held there).1)

theorem rowsCreated (sound : RowsSound w) {a u} {c : ArticleCapture} (rows : t.rows = w.rows.put index (.capture a u)
      (some (.capture c))) (unseen : w.rows.committed (.capture a u) = none)
    (keyed : (c.accountId,c.normalizedUrl) = (a,u)) (id : c.id = w.minted) (minted : t.minted = w.minted + 1)
    (active : ∀ j, Active w j → Active t j) (own : Active t index) : RowsSound t := by
  have committed : t.rows.committed = w.rows.committed := by rw [rows]; rfl
  have self : t.rows.held (.capture a u) = some ⟨index,some (.capture c)⟩ := by rw [rows]; exact Store.putSelf ..
  have other : ∀ {key}, key ≠ .capture a u → t.rows.held key = w.rows.held key := by
    intro key apart
    rw [rows]
    exact Store.putOther _ apart
  have shown : ∀ key c', Shows t.rows key c' → Shows w.rows key c' ∨ key = (a,u) ∧ c' = c := by
    rintro key c' (there | ⟨i,there⟩)
    · exact .inl (.inl (by rw [← committed]; exact there))
    · by_cases same : Key.capture key.1 key.2 = .capture a u
      · rw [same,self] at there
        simp only [Option.some.injEq,Draft.mk.injEq,Row.capture.injEq] at there
        simp only [Key.capture.injEq] at same
        exact .inr ⟨Prod.ext same.1 same.2,there.2.symm⟩
      · exact .inl (.inr ⟨i,by rw [← other same]; exact there⟩)
  constructor
  · rw [committed]
    exact sound.captures
  · rw [committed]
    exact sound.links
  · intro a' u' x there
    rw [committed]
    by_cases same : Key.capture a' u' = .capture a u
    · rw [same,self] at there
      cases Option.some.inj there
      exact ⟨by rw [same]; exact unseen,c,rfl⟩
    · exact sound.drafts a' u' x (by rw [← other same]; exact there)
  · intro s k x there
    exact sound.linkDrafts s k x (by rw [← other (by simp)]; exact there)
  · intro key c' there
    rw [minted]
    rcases shown key c' there with old | ⟨rfl,rfl⟩
    · exact ⟨(sound.keyed key c' old).1,Nat.lt_succ_of_lt (sound.keyed key c' old).2⟩
    · exact ⟨keyed,id ▸ Nat.lt_succ_self _⟩
  · intro key key' c₁ c₂ left right same
    rcases shown key c₁ left with old | ⟨rfl,rfl⟩
    · rcases shown key' c₂ right with old' | ⟨rfl,rfl⟩
      · exact sound.apart key key' c₁ c₂ old old' same
      · exact absurd (same.trans id) (Nat.ne_of_lt (sound.keyed key c₁ old).2)
    · rcases shown key' c₂ right with old' | ⟨rfl,_⟩
      · exact absurd (same.symm.trans id) (Nat.ne_of_lt (sound.keyed key' c₂ old').2)
      · rfl
  · intro key x article there
    by_cases same : key = .capture a u
    · rw [same,self] at there
      cases Option.some.inj there
      exact own
    · exact active _ (sound.holders key x article (by rw [← other same]; exact there))

theorem rowsLinked (sound : RowsSound w) {a k} (rows : t.rows = w.rows.put index (.link a k) (some .link))
    (minted : w.minted ≤ t.minted) (active : ∀ j, Active w j → Active t j) (own : Active t index) : RowsSound t := by
  have committed : t.rows.committed = w.rows.committed := by rw [rows]; rfl
  have other : ∀ {key}, key ≠ .link a k → t.rows.held key = w.rows.held key := by
    intro key apart
    rw [rows]
    exact Store.putOther _ apart
  have shown : ∀ key c, Shows t.rows key c → Shows w.rows key c := by
    intro key c there
    unfold Shows at there ⊢
    rwa [committed,other (by simp)] at there
  have held : ∀ {key x}, t.rows.held key = some x → w.rows.held key = some x ∨ key = .link a k ∧ x = ⟨index,some .link⟩ := by
    intro key x there
    by_cases same : key = .link a k
    · rw [rows,same,Store.putSelf] at there
      exact .inr ⟨same,(Option.some.inj there).symm⟩
    · exact .inl (by rw [← other same]; exact there)
  constructor
  · rw [committed]
    exact sound.captures
  · rw [committed]
    exact sound.links
  · rw [committed]
    intro a' u x there
    rcases held there with old | ⟨same,_⟩
    · exact sound.drafts a' u x old
    · simp at same
  · intro s c x there
    rcases held there with old | ⟨_,rfl⟩
    · exact sound.linkDrafts s c x old
    · rfl
  · intro key c there
    exact ⟨(sound.keyed key c (shown key c there)).1,(sound.keyed key c (shown key c there)).2.trans_le minted⟩
  · exact fun key key' c c' left right => sound.apart key key' c c' (shown key c left) (shown key' c' right)
  · intro key x article there
    rcases held there with old | ⟨_,rfl⟩
    · exact active _ (sound.holders key x article old)
    · exact own

end Rows

section Besides
variable {w : State} {s t : Store Key Row} {i j : Nat}

theorem besideDrafts (drafts : s.Drafts t i) (apart : j ≠ i) : Beside s t j := by
  have aside := drafts.2 j apart
  refine ⟨fun key x _ own => aside.1 key x own,?_⟩
  intro key row _ view
  rw [Store.asideView aside (congrFun drafts.1 key)]
  exact view

theorem besideCommit (sound : RowsSound w) (apart : j ≠ i) : Beside w.rows (w.rows.commit i) j := by
  have aside := Store.asideCommit (s := w.rows) apart
  refine ⟨fun key x _ own => aside.1 key x own,?_⟩
  intro key row article view
  by_cases mine : ∃ x, w.rows.held key = some x ∧ x.owner = j
  · obtain ⟨x,held,own⟩ := mine
    rw [Store.viewHeld ((aside.1 key x own).mpr held) own]
    rw [Store.viewHeld held own] at view
    exact view
  · have before := Store.viewOther (fun x held own => mine ⟨x,held,own⟩)
    rw [Store.viewOther (fun x held own => mine ⟨x,(aside.1 key x own).mp held,own⟩)]
    exact committedSeen sound article (before.symm.trans view)

theorem besideSame (held : ∀ key, isArticle key = true → t.held key = s.held key)
    (committed : ∀ key, isArticle key = true → t.committed key = s.committed key) (j) : Beside s t j := by
  refine ⟨fun key x article _ => by rw [held key article],?_⟩
  intro key row article view
  unfold Store.view at view ⊢
  rw [held key article,committed key article]
  exact view

end Besides
end RatatoskrX.ArticleLinks
