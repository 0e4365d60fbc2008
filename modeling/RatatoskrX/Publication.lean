import RatatoskrX.SocialSources

/-! Publication over the whole history of one post's content. A revision is unique by its
source and digest, so an observation that returns to an earlier content cannot be stored. -/
namespace RatatoskrX.Publication
open Schema Envelopes ArticleUrls SocialSources

/- One observation of a post: the rows that the page stores before it publishes. -/
structure Observation where
  author : UserRow
  post : PostRow
  capturedAt : DateTime
  deriving DecidableEq, Repr

def Observation.loaded (o : Observation) (owner : Uuid) (source : Option SocialSource) : LoadedSource :=
  ⟨owner,source,{o.post with authorProviderId := some o.author.providerId},o.author⟩

def Observation.facts (o : Observation) : SourceFacts := (o.loaded 0 none).facts

def Observation.digest (o : Observation) (contract : Contract) : ContentDigest :=
  o.facts.digest contract bookmarkProvenance

def persist (b : Books) (o : Observation) : Books :=
  {b with
    users := Function.update b.users o.author.providerId (some o.author)
    posts := Function.update b.posts o.post.providerId
      (some {o.post with authorProviderId := some o.author.providerId})}

def observe (d : Publisher) (accountId : Uuid) (b : Books) (o : Observation) : Except PublishError Books :=
  (persist b o).publishSource d accountId o.post.providerId o.capturedAt

def social (outbox : List Envelope) : List Envelope := outbox.filter (fun e => (sourceOf e).isSome)

def currentDigest (b : Books) (key : SourceKey) : Option ContentDigest :=
  (b.sources key).map SocialSource.currentContentDigest

/- The call left the source at the observed digest, and told of it once if it was new. -/
def Published (d : Publisher) (key : SourceKey) (b : Books) (o : Observation) (t : Books) : Prop :=
  currentDigest t key = some (o.digest d.contract) ∧
    if currentDigest b key = some (o.digest d.contract) then social t.outbox = social b.outbox
    else ∃ e, social t.outbox = social b.outbox ++ [e] ∧ sourceOf e = (t.sources key).map SocialSource.socialSourceId ∧
      e.payload.eventType = if b.sources key = none then .sourceCaptured else .sourceUpdated

/- Every call of the sequence succeeds and publishes what it observed. -/
def Accepted (d : Publisher) (key : SourceKey) : Books → List Observation → Prop
  | _,[] => True
  | b,o::rest => ∃ t, observe d key.1 b o = .ok t ∧ Published d key b o t ∧ Accepted d key t rest

/- No digest of the list comes back after another one; what was seen is newest first. -/
def NoReturn (seen : List ContentDigest) : List ContentDigest → Prop
  | [] => True
  | digest::rest => (seen.head? = some digest ∨ digest ∉ seen) ∧ NoReturn (digest::seen) rest

instance (seen digests) : Decidable (NoReturn seen digests) := by
  induction digests generalizing seen with
  | nil => exact .isTrue trivial
  | cons digest rest ih =>
    unfold NoReturn
    have := ih (digest::seen)
    infer_instance

/- A minted identity names no revision. -/
def Fresh (b : Books) : Prop := ∀ s digest, b.revisions (s,digest) ≠ none → s < b.minted

/- The source row and the revisions after the digests that were seen. -/
def Stands (b : Books) (key : SourceKey) (seen : List ContentDigest) : Prop :=
  (b.sources key = none ∧ seen = []) ∨
  ∃ source, b.sources key = some source ∧ source.removedAt = none ∧ seen.head? = some source.currentContentDigest ∧
    ∀ digest, b.revisions (source.socialSourceId,digest) ≠ none ↔ digest ∈ seen

section Links
variable {d : Publisher} {accountId : Uuid} {r : Revision} {b : Books}

/- What the links of a source leave as it is. -/
structure Linked (b t : Books) : Prop where
  sources : t.sources = b.sources
  revisions : t.revisions = b.revisions
  accounts : t.accounts = b.accounts
  users : t.users = b.users
  posts : t.posts = b.posts
  social : social t.outbox = social b.outbox
  minted : b.minted ≤ t.minted

theorem captureLinked (url) : Linked b (b.captureLink d accountId r url) := by
  unfold Books.captureLink
  split
  · split
    · exact ⟨rfl,rfl,rfl,rfl,rfl,rfl,Nat.le_refl _⟩
    · exact ⟨rfl,rfl,rfl,rfl,rfl,by simp [social,articleCommand,sourceOf],Nat.le_add_right ..⟩
  · exact ⟨rfl,rfl,rfl,rfl,rfl,rfl,Nat.le_refl _⟩

theorem linksLinked (urls : List SelectedArticleUrl) : Linked b (urls.foldl (Books.captureLink d accountId r) b) := by
  induction urls generalizing b with
  | nil => exact ⟨rfl,rfl,rfl,rfl,rfl,rfl,Nat.le_refl _⟩
  | cons url rest ih =>
    have first : Linked b (b.captureLink d accountId r url) := captureLinked url
    have later := ih (b := b.captureLink d accountId r url)
    exact ⟨later.sources.trans first.sources,later.revisions.trans first.revisions,later.accounts.trans first.accounts,
      later.users.trans first.users,later.posts.trans first.posts,later.social.trans first.social,
      first.minted.trans later.minted⟩

end Links

section Steps
variable {d : Publisher} {key : SourceKey} {b : Books} {o : Observation} {owner : Uuid} {seen : List ContentDigest}

theorem observeLoaded (account : b.accounts key.1 = some owner) (post : o.post.providerId = key.2) :
    (persist b o).loadSource key.1 o.post.providerId = .ok (o.loaded owner (b.sources key)) := by
  have named : (key.1,o.post.providerId) = key := by rw [post]
  simp only [Books.loadSource,persist,account,Function.update_self,Option.bind_some,named]
  rfl

theorem observeSame (account : b.accounts key.1 = some owner) (post : o.post.providerId = key.2) {source}
    (there : b.sources key = some source) (kept : source.removedAt = none)
    (current : source.currentContentDigest = o.digest d.contract) : observe d key.1 b o = .ok (persist b o) := by
  unfold observe Books.publishSource
  rw [observeLoaded account post]
  simp only [bind,Except.bind,LoadedSource.revision,LoadedSource.digestIsCurrent,Observation.loaded,there,Option.any_some,
    kept]
  rw [if_neg (by simp),if_pos]
  exact decide_eq_true current

/- The revision of an observation that is new to its source. -/
def revised (d : Publisher) (owner : Uuid) (minted : Uuid) (source : Option SocialSource) (o : Observation)
    (snapshot : SocialSourceSnapshot) : Revision :=
  ⟨owner,(source.map SocialSource.socialSourceId).getD minted,if source.isSome then .updated else .captured,
    o.digest d.contract,snapshot,selectExternalExpandedUrls o.post.expandedUrls⟩

theorem observeDiffers (account : b.accounts key.1 = some owner) (post : o.post.providerId = key.2)
    (kept : ∀ source, b.sources key = some source → source.removedAt = none)
    (differs : currentDigest b key ≠ some (o.digest d.contract)) {snapshot}
    (built : o.facts.snapshot d.contract (((b.sources key).map SocialSource.socialSourceId).getD b.minted) owner
      (o.digest d.contract) o.capturedAt bookmarkProvenance = some snapshot) :
    observe d key.1 b o =
      let r := revised d owner b.minted (b.sources key) o snapshot
      (({persist b o with minted := b.minted + 1}.writeSource key.1 key.2 o.capturedAt r).insertRevision
        o.capturedAt r).map (fun t => r.urls.foldl (Books.captureLink d key.1 r) t) := by
  have present : (b.sources key).any (fun source => source.removedAt.isSome) = false := by
    cases found : b.sources key with
    | none => rfl
    | some source => simp [kept source found]
  have other : (b.sources key).any (fun source => source.currentContentDigest = o.digest d.contract) = false := by
    unfold currentDigest at differs
    cases found : b.sources key with
    | none => rfl
    | some source => simpa [found] using differs
  have revision : (o.loaded owner (b.sources key)).revision d.contract b.minted o.capturedAt =
      .ok (some (revised d owner b.minted (b.sources key) o snapshot)) := by
    have facts : (o.loaded owner (b.sources key)).facts = o.facts := rfl
    have digest : (o.loaded owner (b.sources key)).digest d.contract = o.digest d.contract := rfl
    have source : (o.loaded owner (b.sources key)).source = b.sources key := rfl
    simp only [LoadedSource.revision,LoadedSource.digestIsCurrent,facts,digest,source]
    rw [if_neg (by simp [present]),if_neg (by simp [other])]
    simp only [Observation.loaded,built]
    rfl
  unfold observe Books.publishSource
  rw [observeLoaded account post]
  simp only [bind,Except.bind,persist] at revision ⊢
  rw [revision,post]
  simp only [Except.map]

/- The unique constraint refuses a digest that the source had before. -/
theorem observeReturn (account : b.accounts key.1 = some owner) (post : o.post.providerId = key.2) {source}
    (there : b.sources key = some source) (kept : source.removedAt = none)
    (differs : source.currentContentDigest ≠ o.digest d.contract)
    (seen : b.revisions (source.socialSourceId,o.digest d.contract) ≠ none) {snapshot}
    (built : o.facts.snapshot d.contract source.socialSourceId owner (o.digest d.contract) o.capturedAt
      bookmarkProvenance = some snapshot) : observe d key.1 b o = .error .query := by
  obtain ⟨time,stored⟩ := Option.ne_none_iff_exists'.mp seen
  have unremoved : ∀ other, b.sources key = some other → other.removedAt = none := by
    intro other present
    rw [there] at present
    cases Option.some.inj present
    exact kept
  have changes : currentDigest b key ≠ some (o.digest d.contract) := by simpa [currentDigest,there] using differs
  have built' : o.facts.snapshot d.contract (((b.sources key).map SocialSource.socialSourceId).getD b.minted) owner
      (o.digest d.contract) o.capturedAt bookmarkProvenance = some snapshot := by
    rw [there]
    exact built
  rw [observeDiffers account post unremoved changes built']
  simp only [revised,there,Option.map_some,Option.getD_some,Books.insertRevision,Books.writeSource,persist,stored]
  rfl

/- A digest that the source never had is stored, and told of once. -/
theorem observeNew (account : b.accounts key.1 = some owner) (post : o.post.providerId = key.2)
    (kept : ∀ source, b.sources key = some source → source.removedAt = none)
    (differs : currentDigest b key ≠ some (o.digest d.contract)) {snapshot}
    (built : o.facts.snapshot d.contract (((b.sources key).map SocialSource.socialSourceId).getD b.minted) owner
      (o.digest d.contract) o.capturedAt bookmarkProvenance = some snapshot)
    (unseen : b.revisions (((b.sources key).map SocialSource.socialSourceId).getD b.minted,o.digest d.contract) = none) :
    ∃ t source, observe d key.1 b o = .ok t ∧ Published d key b o t ∧ t.accounts = b.accounts ∧ b.minted < t.minted ∧
      t.sources key = some source ∧ source.removedAt = none ∧ source.currentContentDigest = o.digest d.contract ∧
      source.socialSourceId = ((b.sources key).map SocialSource.socialSourceId).getD b.minted ∧
      t.revisions = Function.update b.revisions (source.socialSourceId,o.digest d.contract) (some o.capturedAt) := by
  generalize chosen : revised d owner b.minted (b.sources key) o snapshot = r
  have sourceId : r.sourceId = ((b.sources key).map SocialSource.socialSourceId).getD b.minted := by rw [← chosen]; rfl
  have digest : r.digest = o.digest d.contract := by rw [← chosen]; rfl
  have fact : r.fact = if (b.sources key).isSome then .updated else .captured := by rw [← chosen]; rfl
  have about : r.snapshot.socialSourceId = r.sourceId := by
    rw [sourceId,← chosen]
    exact (snapshotFields built).1
  generalize wrote : {persist b o with minted := b.minted + 1}.writeSource key.1 key.2 o.capturedAt r = written
  have sources : ∃ source, written.sources key = some source ∧ source.removedAt = none ∧
      source.currentContentDigest = r.digest ∧ source.socialSourceId = r.sourceId := by
    rw [← wrote]
    simp only [Books.writeSource,persist,Function.update_self]
    cases there : b.sources key with
    | none => exact ⟨_,rfl,rfl,rfl,rfl⟩
    | some source => exact ⟨_,rfl,kept source there,rfl,by simp [sourceId,there]⟩
  have free : written.revisions (r.sourceId,r.digest) = none := by
    rw [← wrote,sourceId,digest]
    exact unseen
  have accounts : written.accounts = b.accounts := by rw [← wrote]; rfl
  have revisions : written.revisions = b.revisions := by rw [← wrote]; rfl
  have outbox : written.outbox = b.outbox := by rw [← wrote]; rfl
  have minted : written.minted = b.minted + 1 := by rw [← wrote]; rfl
  have event : sourceOf (sourceEvent written.minted r.owner r.fact r.snapshot) = some r.sourceId := by
    rw [← about]
    cases r.fact <;> rfl
  obtain ⟨source,there,unremoved,current,identity⟩ := sources
  have links : Linked
      {written with
        revisions := Function.update written.revisions (r.sourceId,r.digest) (some o.capturedAt)
        outbox := written.outbox ++ [sourceEvent written.minted r.owner r.fact r.snapshot]
        minted := written.minted + 1}
      (r.urls.foldl (Books.captureLink d key.1 r) _) := linksLinked r.urls
  refine ⟨_,source,?_,?_,links.accounts.trans accounts,?_,(congrFun links.sources key).trans there,unremoved,
    current.trans digest,identity.trans sourceId,?_⟩
  · rw [observeDiffers account post kept differs built,chosen]
    simp only [wrote,Books.insertRevision,free]
    rfl
  · refine ⟨?_,?_⟩
    · rw [currentDigest,links.sources]
      simp [there,current,digest]
    · rw [if_neg differs]
      refine ⟨sourceEvent written.minted r.owner r.fact r.snapshot,?_,?_,?_⟩
      · rw [links.social,outbox]
        simp [social,event]
      · rw [event,links.sources]
        simp [there,identity]
      · rw [fact]
        cases b.sources key <;> rfl
  · refine Nat.lt_of_lt_of_le ?_ links.minted
    simp only [minted]
    omega
  · rw [links.revisions,revisions,identity,digest]

theorem standsKept (stands : Stands b key seen) {source} (there : b.sources key = some source) :
    source.removedAt = none ∧ seen.head? = some source.currentContentDigest ∧
      ∀ digest, b.revisions (source.socialSourceId,digest) ≠ none ↔ digest ∈ seen := by
  rcases stands with ⟨absent,_⟩ | ⟨other,present,kept,current,revisions⟩
  · rw [absent] at there
    cases there
  · rw [present] at there
    cases Option.some.inj there
    exact ⟨kept,current,revisions⟩

theorem standsDigest (stands : Stands b key seen) : currentDigest b key = seen.head? := by
  rcases stands with ⟨absent,rfl⟩ | ⟨source,present,_,current,_⟩
  · simp [currentDigest,absent]
  · simp [currentDigest,present,current]

theorem observeAccepts (fresh : Fresh b) (account : b.accounts key.1 = some owner) (stands : Stands b key seen)
    (post : o.post.providerId = key.2)
    (representable : ∀ sourceId, (o.facts.snapshot d.contract sourceId owner (o.digest d.contract) o.capturedAt
      bookmarkProvenance).isSome)
    (forward : seen.head? = some (o.digest d.contract) ∨ o.digest d.contract ∉ seen) :
    ∃ t, observe d key.1 b o = .ok t ∧ Published d key b o t ∧ Fresh t ∧ t.accounts = b.accounts ∧
      Stands t key (o.digest d.contract::seen) := by
  by_cases same : currentDigest b key = some (o.digest d.contract)
  · obtain ⟨source,there,current⟩ := Option.map_eq_some_iff.mp same
    obtain ⟨kept,head,revisions⟩ := standsKept stands there
    refine ⟨persist b o,observeSame account post there kept current,⟨same,by rw [if_pos same]; rfl⟩,fresh,rfl,
      .inr ⟨source,there,kept,by simp [current],?_⟩⟩
    intro digest
    have known : o.digest d.contract ∈ seen := List.mem_of_mem_head? (current ▸ head)
    rw [List.mem_cons,show (persist b o).revisions = b.revisions from rfl,revisions]
    refine ⟨.inr,?_⟩
    rintro (rfl | member)
    · exact known
    · exact member
  · have unseen : o.digest d.contract ∉ seen := by
      rw [standsDigest stands] at same
      exact forward.resolve_left same
    have kept : ∀ source, b.sources key = some source → source.removedAt = none :=
      fun source there => (standsKept stands there).1
    obtain ⟨snapshot,built⟩ := Option.isSome_iff_exists.mp
      (representable (((b.sources key).map SocialSource.socialSourceId).getD b.minted))
    -- A new source has an identity that no revision has; a source that is there has not had the digest.
    have free : b.revisions (((b.sources key).map SocialSource.socialSourceId).getD b.minted,o.digest d.contract) = none := by
      by_contra stored
      cases there : b.sources key with
      | none =>
        rw [there] at stored
        exact absurd (fresh _ _ stored) (Nat.lt_irrefl _)
      | some source =>
        rw [there] at stored
        exact unseen (((standsKept stands there).2.2 _).mp stored)
    obtain ⟨t,source,ok,published,accounts,minted,there,unremoved,current,identity,revisions⟩ :=
      observeNew account post kept same built free
    refine ⟨t,ok,published,?_,accounts,.inr ⟨source,there,unremoved,by simp [current],?_⟩⟩
    · intro s digest stored
      rw [revisions] at stored
      by_cases mine : (s,digest) = (source.socialSourceId,o.digest d.contract)
      · cases mine
        rw [identity]
        cases old : b.sources key with
        | none => exact minted
        | some other =>
          obtain ⟨_,head,known⟩ := standsKept stands old
          exact (fresh _ _ ((known _).mpr (List.mem_of_mem_head? head))).trans minted
      · rw [Function.update_of_ne mine] at stored
        exact (fresh s digest stored).trans minted
    · intro digest
      rw [revisions,List.mem_cons]
      by_cases mine : digest = o.digest d.contract
      · simp [mine]
      · rw [Function.update_of_ne (by simp [mine]),identity]
        cases old : b.sources key with
        | none =>
          have none : seen = [] := by
            have head := standsDigest stands
            rw [currentDigest,old,Option.map_none] at head
            exact List.head?_eq_none_iff.mp head.symm
          have unused : b.revisions (b.minted,digest) = .none := by
            by_contra stored
            exact absurd (fresh _ _ stored) (Nat.lt_irrefl _)
          simp [none,mine,unused]
        | some other =>
          simp only [mine,false_or]
          exact (standsKept stands old).2.2 digest

theorem observeRefuses (account : b.accounts key.1 = some owner) (stands : Stands b key seen)
    (post : o.post.providerId = key.2)
    (representable : ∀ sourceId, (o.facts.snapshot d.contract sourceId owner (o.digest d.contract) o.capturedAt
      bookmarkProvenance).isSome)
    (back : ¬(seen.head? = some (o.digest d.contract) ∨ o.digest d.contract ∉ seen)) :
    observe d key.1 b o = .error .query := by
  rw [not_or,not_not] at back
  rcases stands with ⟨_,rfl⟩ | ⟨source,there,kept,head,revisions⟩
  · simp at back
  · obtain ⟨snapshot,built⟩ := Option.isSome_iff_exists.mp (representable source.socialSourceId)
    have differs : source.currentContentDigest ≠ o.digest d.contract := by
      intro same
      exact back.1 (same ▸ head)
    exact observeReturn account post there kept differs ((revisions _).mpr back.2) built

end Steps

theorem acceptedIff {d : Publisher} {key : SourceKey} {owner : Uuid} {seen : List ContentDigest} (b : Books)
    (os : List Observation) (fresh : Fresh b) (account : b.accounts key.1 = some owner) (stands : Stands b key seen)
    (posts : ∀ o ∈ os, o.post.providerId = key.2)
    (representable : ∀ o ∈ os, ∀ sourceId, (o.facts.snapshot d.contract sourceId owner (o.digest d.contract)
      o.capturedAt bookmarkProvenance).isSome) :
    Accepted d key b os ↔ NoReturn seen (os.map (fun o => o.digest d.contract)) := by
  induction os generalizing b seen with
  | nil => simp [Accepted,NoReturn]
  | cons o rest ih =>
    have post := posts o List.mem_cons_self
    have admits := representable o List.mem_cons_self
    have posts' : ∀ x ∈ rest, x.post.providerId = key.2 := fun x member => posts x (List.mem_cons_of_mem _ member)
    have admits' := fun x (member : x ∈ rest) => representable x (List.mem_cons_of_mem _ member)
    simp only [Accepted,List.map_cons,NoReturn]
    by_cases forward : seen.head? = some (o.digest d.contract) ∨ o.digest d.contract ∉ seen
    · obtain ⟨t,ok,published,fresh',accounts,stands'⟩ := observeAccepts fresh account stands post admits forward
      have later := ih t fresh' (by rw [accounts]; exact account) stands' posts' admits'
      refine ⟨?_,?_⟩
      · rintro ⟨u,ok',_,accepted⟩
        rw [ok] at ok'
        cases Except.ok.inj ok'
        exact ⟨forward,later.mp accepted⟩
      · rintro ⟨_,noReturn⟩
        exact ⟨t,ok,published,later.mpr noReturn⟩
    · refine ⟨?_,fun noReturn => absurd noReturn.1 forward⟩
      rintro ⟨u,ok,_⟩
      rw [observeRefuses account stands post admits forward] at ok
      cases ok

/- From the first observation of a post on, all calls publish what they observe exactly when
no observation returns to an earlier content. -/
theorem publicationAccepts (d : Publisher) (key : SourceKey) (owner : Uuid) (b : Books) (os : List Observation)
    (fresh : Fresh b) (account : b.accounts key.1 = some owner) (absent : b.sources key = none)
    (posts : ∀ o ∈ os, o.post.providerId = key.2)
    (representable : ∀ o ∈ os, ∀ sourceId, (o.facts.snapshot d.contract sourceId owner (o.digest d.contract)
      o.capturedAt bookmarkProvenance).isSome) :
    Accepted d key b os ↔ NoReturn [] (os.map (fun o => o.digest d.contract)) :=
  acceptedIff b os fresh account (.inl ⟨absent,rfl⟩) posts representable

def plain : Publisher := ⟨⟨fun semantic => semantic.text,fun _ => true⟩,fun _ => true⟩

/- One connected account and nothing published. -/
def opened : Books :=
  ⟨fun account => if account = 1 then some 7 else none,fun _ => none,fun _ => none,fun _ => none,fun _ => none,
    fun _ => none,fun _ => false,[],0⟩

def observed (text : String) : Observation :=
  ⟨⟨"9",none,none⟩,⟨"42",none,text,none,none,.active,[]⟩,⟨0,DateTime.epochRepresentable⟩⟩

theorem publicationAcceptsAtEdit : Accepted plain (1,"42") opened [observed "a",observed "b",observed "b"] := by
  refine (publicationAccepts plain (1,"42") 7 opened _ ?_ rfl rfl ?_ ?_).mpr (by decide)
  · intro s digest stored
    exact absurd rfl stored
  · simp [observed]
  · simp [SourceFacts.snapshot,plain]

/- A post is edited and the edit is taken back. -/
theorem editTakenBack :
    ¬∀ (d : Publisher) (key : SourceKey) (owner : Uuid) (b : Books) (os : List Observation), Fresh b →
      b.accounts key.1 = some owner → b.sources key = none → (∀ o ∈ os, o.post.providerId = key.2) →
      (∀ o ∈ os, ∀ sourceId, (o.facts.snapshot d.contract sourceId owner (o.digest d.contract) o.capturedAt
        bookmarkProvenance).isSome) → Accepted d key b os := by
  intro every
  have accepted := every plain (1,"42") 7 opened [observed "a",observed "b",observed "a"]
    (fun s digest stored => absurd rfl stored) rfl rfl (by simp [observed]) (by simp [SourceFacts.snapshot,plain])
  obtain ⟨first,ok,_,second,ok',_,third,ok'',_⟩ := accepted
  have refused : ((observe plain 1 opened (observed "a")).bind (fun first =>
      (observe plain 1 first (observed "b")).bind (fun second => observe plain 1 second (observed "a")))).toBool = false := by
    decide +kernel
  rw [ok,Except.bind,ok',Except.bind,ok''] at refused
  cases refused

end RatatoskrX.Publication
