import RatatoskrX.BatchConsistency
import RatatoskrX.Publication

/-! A page inside the transaction that stores it: the rows of its users and posts, and then
the publication of each post's source from those rows. The posts come in the order of a hash
map; none of the order is left in the outcome. -/
namespace RatatoskrX.PublishedPages
open Outcome Schema Envelopes SocialSources Publication Snapshot
open Normalization (NormalizedBatch NormalizedPost NormalizedUser normalize)

/-- availability_name, as the column's type reads it. -/
def availabilityName : Normalization.Availability → PostAvailability
  | .active => .active
  | .deleted => .deleted
  | .isProtected => .protectedPost
  | .authorSuspended => .authorSuspended
  | .unavailable => .unavailable
  | .unknown => .unknown

def userRow (user : NormalizedUser) : UserRow := ⟨user.providerId,user.username,user.displayName⟩

def postRow (post : NormalizedPost) : PostRow :=
  ⟨post.providerId,some post.authorProviderId,post.text,post.longText,post.publishedAt,availabilityName post.availability,
    post.expandedUrls⟩

def upsertUser (b : Books) (user : NormalizedUser) : Books :=
  {b with users := Function.update b.users user.providerId (some (userRow user))}

def upsertPost (b : Books) (post : NormalizedPost) : Books :=
  {b with posts := Function.update b.posts post.providerId (some (postRow post))}

def persistUsers (b : Books) (users : List NormalizedUser) : Books := users.foldl upsertUser b

def persistPosts (users : List NormalizedUser) (b : Books) : List NormalizedPost → Except SnapshotError Books
  | [] => .ok b
  | post::rest =>
    if post.authorProviderId ∈ users.map NormalizedUser.providerId then persistPosts users (upsertPost b post) rest
    else .error .persistedAuthorMissing

def PublishError.snapshot : PublishError → SnapshotError
  | .query => .query
  | .contract => .contract

def publishBookmarkSources (d : Publisher) (accountId : Uuid) (capturedAt : DateTime) (b : Books) :
    List String → Except SnapshotError Books
  | [] => .ok b
  | post::rest => match b.publishSource d accountId post capturedAt with
    | .error e => .error (PublishError.snapshot e)
    | .ok b => publishBookmarkSources d accountId capturedAt b rest

def postKey (post : NormalizedPost) : Option String := some post.providerId

def userKey (user : NormalizedUser) : Option String := some user.providerId

/- What a page shows of a post: the last record of its identity, and of its author's. -/
def sighting (batch : NormalizedBatch) (capturedAt : DateTime) (id : String) : Option Observation := do
  let post ← Keyed.last postKey batch.posts id
  let author ← Keyed.last userKey batch.users post.authorProviderId
  some ⟨userRow author,postRow post,capturedAt⟩

def digestOf (contract : Contract) (batch : NormalizedBatch) (capturedAt : DateTime) (id : String) : Option ContentDigest :=
  (sighting batch capturedAt id).map (fun o => o.digest contract)

def Authored (batch : NormalizedBatch) : Prop := ∀ post ∈ batch.posts, ∃ user ∈ batch.users, user.providerId = post.authorProviderId

theorem normalizedAuthored {parse e batch} (ok : normalize parse e = .ok batch) : Authored batch := by
  intro post member
  have emitted := Emission.normalizeEmits ok
  obtain ⟨source,carried,made⟩ := emitted.made member
  obtain ⟨author,found⟩ := Option.isSome_iff_exists.mp ((Normalization.normalizeAccepts.mp ⟨batch,ok⟩).2 source carried).2
  refine ⟨_,(emitted.users _).mpr ⟨source,carried,author,found,rfl⟩,?_⟩
  unfold Emission.Becomes Normalization.normalizePost at made
  split at made
  · simp at made
  · cases Except.ok.inj made
    rfl

section Rows
variable {b t : Books} {batch : NormalizedBatch} {capturedAt : DateTime} {id : String} {o : Observation}

/- The sources and their revisions are as they were; identities may have been minted. -/
structure Persisted (b t : Books) : Prop where
  sources : t.sources = b.sources
  revisions : t.revisions = b.revisions
  minted : b.minted ≤ t.minted

theorem usersPersisted (users : List NormalizedUser) :
    Persisted b (persistUsers b users) ∧ (persistUsers b users).accounts = b.accounts := by
  induction users using List.reverseRecOn with
  | nil => exact ⟨⟨rfl,rfl,Nat.le_refl _⟩,rfl⟩
  | append_singleton users user ih =>
    simp only [persistUsers,List.foldl_append,List.foldl_cons,List.foldl_nil] at ih ⊢
    exact ⟨⟨ih.1.sources,ih.1.revisions,ih.1.minted⟩,ih.2⟩

theorem userPersisted {users : List NormalizedUser} {user} (found : Keyed.last userKey users id = some user) :
    (persistUsers b users).users id = some (userRow user) := by
  induction users using List.reverseRecOn with
  | nil => simp [Keyed.last] at found
  | append_singleton users other ih =>
    rw [Keyed.lastSnoc] at found
    simp only [persistUsers,List.foldl_append,List.foldl_cons,List.foldl_nil,upsertUser] at ih ⊢
    split at found
    · rename_i named
      cases Option.some.inj found
      cases Option.some.inj named
      rw [Function.update_self]
    · rename_i other'
      rw [Function.update_of_ne (fun same => other' (congrArg some same.symm))]
      exact ih found

theorem persistPostsFold {users : List NormalizedUser} {posts : List NormalizedPost}
    (authored : ∀ post ∈ posts, ∃ user ∈ users, user.providerId = post.authorProviderId) :
    persistPosts users b posts = .ok (posts.foldl upsertPost b) := by
  induction posts generalizing b with
  | nil => rfl
  | cons post rest ih =>
    obtain ⟨user,member,named⟩ := authored post List.mem_cons_self
    rw [persistPosts,if_pos (List.mem_map.mpr ⟨user,member,named⟩),List.foldl_cons]
    exact ih (fun other later => authored other (List.mem_cons_of_mem _ later))

theorem postsPersisted (posts : List NormalizedPost) : Persisted b (posts.foldl upsertPost b) ∧
    (posts.foldl upsertPost b).users = b.users ∧ (posts.foldl upsertPost b).accounts = b.accounts := by
  induction posts using List.reverseRecOn with
  | nil => exact ⟨⟨rfl,rfl,Nat.le_refl _⟩,rfl,rfl⟩
  | append_singleton posts post ih =>
    simp only [List.foldl_append,List.foldl_cons,List.foldl_nil]
    exact ⟨⟨ih.1.sources,ih.1.revisions,ih.1.minted⟩,ih.2⟩

theorem postPersisted {posts : List NormalizedPost} {post} (found : Keyed.last postKey posts id = some post) :
    (posts.foldl upsertPost b).posts id = some (postRow post) := by
  induction posts using List.reverseRecOn with
  | nil => simp [Keyed.last] at found
  | append_singleton posts other ih =>
    rw [Keyed.lastSnoc] at found
    simp only [List.foldl_append,List.foldl_cons,List.foldl_nil,upsertPost] at ih ⊢
    split at found
    · rename_i named
      cases Option.some.inj found
      cases Option.some.inj named
      rw [Function.update_self]
    · rename_i other'
      rw [Function.update_of_ne (fun same => other' (congrArg some same.symm))]
      exact ih found

/- The rows of a sighting are in the tables. -/
def Stored (b : Books) (o : Observation) : Prop :=
  b.users o.author.providerId = some o.author ∧
    b.posts o.post.providerId = some {o.post with authorProviderId := some o.author.providerId}

theorem sightingNamed (sighted : sighting batch capturedAt id = some o) : o.post.providerId = id ∧ o.capturedAt = capturedAt := by
  simp only [sighting,bind,Option.bind_eq_some_iff] at sighted
  obtain ⟨post,found,author,_,made⟩ := sighted
  cases Option.some.inj made
  exact ⟨Option.some.inj (Keyed.lastFound found).2,rfl⟩

theorem persists (authored : Authored batch) :
    ∃ t, persistPosts batch.users (persistUsers b batch.users) batch.posts = .ok t ∧ Persisted b t ∧
      t.accounts = b.accounts ∧ ∀ id o, sighting batch capturedAt id = some o → Stored t o := by
  obtain ⟨first,same⟩ := usersPersisted (b := b) batch.users
  obtain ⟨later,users,same'⟩ := postsPersisted (b := persistUsers b batch.users) batch.posts
  refine ⟨_,persistPostsFold authored,?_,same'.trans same,?_⟩
  · exact ⟨later.sources.trans first.sources,later.revisions.trans first.revisions,first.minted.trans later.minted⟩
  · intro id o sighted
    simp only [sighting,bind,Option.bind_eq_some_iff] at sighted
    obtain ⟨post,found,author,found',made⟩ := sighted
    cases Option.some.inj made
    have named : post.providerId = id := Option.some.inj (Keyed.lastFound found).2
    have named' : author.providerId = post.authorProviderId := Option.some.inj (Keyed.lastFound found').2
    constructor
    · rw [users]
      show (persistUsers b batch.users).users author.providerId = _
      rw [named']
      exact userPersisted found'
    · show (batch.posts.foldl upsertPost _).posts post.providerId = some {postRow post with authorProviderId := some author.providerId}
      rw [named,postPersisted found,named']
      rfl

theorem sightingSome (authored : Authored batch) : (sighting batch capturedAt id).isSome = true ↔ id ∈ batch.posts.map NormalizedPost.providerId := by
  rw [List.mem_map]
  constructor
  · intro sighted
    obtain ⟨o,made⟩ := Option.isSome_iff_exists.mp sighted
    simp only [sighting,bind,Option.bind_eq_some_iff] at made
    obtain ⟨post,found,_⟩ := made
    exact ⟨post,(Keyed.lastFound found).1,Option.some.inj (Keyed.lastFound found).2⟩
  · rintro ⟨post,member,named⟩
    obtain ⟨last,found⟩ := Option.isSome_iff_exists.mp (Keyed.lastSome.mpr
      (show ∃ item ∈ batch.posts, postKey item = some id from ⟨post,member,congrArg some named⟩))
    obtain ⟨user,known,author⟩ := authored last (Keyed.lastFound found).1
    obtain ⟨row,found'⟩ := Option.isSome_iff_exists.mp (Keyed.lastSome.mpr
      (show ∃ item ∈ batch.users, userKey item = some last.authorProviderId from ⟨user,known,congrArg some author⟩))
    simp only [sighting,found,found',bind,Option.bind_some,Option.isSome_some]

end Rows

section Sources
variable {d : Publisher} {account owner : Uuid} {b t : Books} {key : SourceKey} {o : Observation} {seen : List ContentDigest}
  {post : String} {instant : DateTime}

/- The content was taken down, and the source is never published again. -/
def Removed (b : Books) (key : SourceKey) : Prop := ∃ source, b.sources key = some source ∧ source.removedAt ≠ none

/- What every transaction of the archive keeps: sources have identities of their own, and each
that is not removed stands on the revisions that it was given. -/
structure Sound (b : Books) : Prop where
  fresh : Fresh b
  minted : ∀ key source, b.sources key = some source → source.socialSourceId < b.minted
  distinct : ∀ key key' source source', b.sources key = some source → b.sources key' = some source' →
    source.socialSourceId = source'.socialSourceId → key = key'
  stands : ∀ key, Removed b key ∨ ∃ seen, Stands b key seen

/- The transaction of one publication, where it stores a revision. -/
structure Revised (b t : Books) (key : SourceKey) (source : SocialSource) : Prop where
  sources : t.sources = Function.update b.sources key (some source)
  identity : source.socialSourceId = ((b.sources key).map SocialSource.socialSourceId).getD b.minted
  unremoved : ∀ old, b.sources key = some old → old.removedAt = none
  kept : source.removedAt = none
  free : b.revisions (source.socialSourceId,source.currentContentDigest) = none
  revisions : ∃ time, t.revisions =
    Function.update b.revisions (source.socialSourceId,source.currentContentDigest) (some time)
  minted : b.minted < t.minted

/- The tables that a publication reads beside the source. -/
structure Beside (b t : Books) : Prop where
  accounts : t.accounts = b.accounts
  users : t.users = b.users
  posts : t.posts = b.posts

theorem revisionIdentity {loaded : LoadedSource} {contract minted r} (made : loaded.revision contract minted instant = .ok (some r)) :
    r.sourceId = (loaded.source.map SocialSource.socialSourceId).getD minted := by
  unfold LoadedSource.revision at made
  split at made
  · simp at made
  · simp only at made
    split at made
    · simp at made
    · split at made
      · simp at made
      · cases Option.some.inj (Except.ok.inj made)
        rfl

theorem insertedRevision {r : Revision} (ok : b.insertRevision instant r = .ok t) :
    b.revisions (r.sourceId,r.digest) = none ∧ t = {b with
      revisions := Function.update b.revisions (r.sourceId,r.digest) (some instant)
      outbox := b.outbox ++ [sourceEvent b.minted r.owner r.fact r.snapshot]
      minted := b.minted + 1} := by
  unfold Books.insertRevision at ok
  split at ok
  · simp at ok
  · rename_i free
    exact ⟨free,(Except.ok.inj ok).symm⟩

/- A publication leaves the source as it is, or stores a revision of it. -/
theorem publishCases (ok : b.publishSource d account post instant = .ok t) :
    Beside b t ∧ (t = b ∨ ∃ source, Revised b t (account,post) source) := by
  unfold Books.publishSource at ok
  obtain ⟨loaded,load,ok⟩ := bindOk.mp ok
  obtain ⟨revision,made,ok⟩ := bindOk.mp ok
  cases revision with
  | none =>
    cases Except.ok.inj ok
    exact ⟨⟨rfl,rfl,rfl⟩,.inl rfl⟩
  | some r =>
    obtain ⟨revised,inserted,ok⟩ := bindOk.mp ok
    cases Except.ok.inj ok
    have sourceId : r.sourceId = ((b.sources (account,post)).map SocialSource.socialSourceId).getD b.minted := by
      rw [← Books.loadedFrom load]
      exact revisionIdentity made
    have unremoved : ∀ old, b.sources (account,post) = some old → old.removedAt = none := by
      intro old there
      rcases (revisionFor made).2 with ⟨_,absent⟩ | ⟨_,other,present,kept,_⟩
      · rw [Books.loadedFrom load,there] at absent
        cases absent
      · rw [Books.loadedFrom load,there] at present
        cases Option.some.inj present
        exact kept
    generalize wrote : {b with minted := b.minted + 1}.writeSource account post instant r = written at inserted
    obtain ⟨source,sources,kept,current,identity⟩ : ∃ source, written.sources = Function.update b.sources (account,post) (some source) ∧
        source.removedAt = none ∧ source.currentContentDigest = r.digest ∧ source.socialSourceId = r.sourceId := by
      rw [← wrote]
      cases there : b.sources (account,post) with
      | none =>
        exact ⟨⟨account,post,r.sourceId,r.digest,instant,none⟩,by simp only [Books.writeSource,there],rfl,rfl,rfl⟩
      | some old =>
        exact ⟨{old with currentContentDigest := r.digest, capturedAt := instant},by simp only [Books.writeSource,there],
          unremoved old there,rfl,by simp [sourceId,there]⟩
    obtain ⟨free,form⟩ := insertedRevision inserted
    have links : Linked revised (r.urls.foldl (Books.captureLink d account r) revised) := linksLinked r.urls
    have row : written.accounts = b.accounts ∧ written.users = b.users ∧ written.posts = b.posts ∧
        written.revisions = b.revisions ∧ written.minted = b.minted + 1 := by
      rw [← wrote]
      exact ⟨rfl,rfl,rfl,rfl,rfl⟩
    obtain ⟨accounts,users,posts,revisions,minted⟩ := row
    refine ⟨⟨?_,?_,?_⟩,.inr ⟨source,?_,identity.trans sourceId,unremoved,kept,?_,⟨instant,?_⟩,?_⟩⟩
    · rw [links.accounts,form,← accounts]
    · rw [links.users,form,← users]
    · rw [links.posts,form,← posts]
    · rw [links.sources,form,← sources]
    · rw [identity,current,← revisions]
      exact free
    · rw [links.revisions,form,identity,current,← revisions]
    · have more : revised.minted = b.minted + 1 + 1 := by rw [form,← minted]
      exact Nat.lt_of_lt_of_le (by omega) links.minted

/- The identity of a revised source is its own. -/
theorem Revised.apart (sound : Sound b) {source} (revised : Revised b t key source) {key' old} (other : key' ≠ key)
    (there : b.sources key' = some old) : old.socialSourceId ≠ source.socialSourceId := by
  intro same
  rw [revised.identity] at same
  cases present : b.sources key with
  | none =>
    rw [present] at same
    exact absurd (same ▸ sound.minted _ _ there) (Nat.lt_irrefl _)
  | some mine =>
    rw [present] at same
    exact other (sound.distinct _ _ _ _ there present same)

theorem Revised.elsewhere {source} (revised : Revised b t key source) {key'} (other : key' ≠ key) :
    t.sources key' = b.sources key' := by
  rw [revised.sources,Function.update_of_ne other]

theorem Revised.here {source} (revised : Revised b t key source) : t.sources key = some source := by
  rw [revised.sources,Function.update_self]

theorem Revised.removed {source} (revised : Revised b t key source) (key') : Removed t key' ↔ Removed b key' := by
  by_cases other : key' = key
  · subst other
    constructor
    · rintro ⟨old,there,gone⟩
      rw [revised.here] at there
      cases Option.some.inj there
      exact absurd revised.kept gone
    · rintro ⟨old,there,gone⟩
      exact absurd (revised.unremoved old there) gone
  · simp only [Removed,revised.elsewhere other]

theorem Revised.others (sound : Sound b) {source} (revised : Revised b t key source) {key'} (other : key' ≠ key)
    (stands : Stands b key' seen) : Stands t key' seen := by
  rcases stands with ⟨absent,none⟩ | ⟨old,there,kept,head,revisions⟩
  · exact .inl ⟨(revised.elsewhere other).trans absent,none⟩
  · refine .inr ⟨old,(revised.elsewhere other).trans there,kept,head,?_⟩
    intro digest
    obtain ⟨time,written⟩ := revised.revisions
    rw [written,Function.update_of_ne (fun same => revised.apart sound other there (Prod.mk.inj same).1)]
    exact revisions digest

/- The source that was revised stands on one revision more. -/
theorem Revised.onward (sound : Sound b) {source} (revised : Revised b t key source) (stands : Stands b key seen) :
    Stands t key (source.currentContentDigest::seen) := by
  refine .inr ⟨source,revised.here,revised.kept,rfl,?_⟩
  intro digest
  obtain ⟨time,written⟩ := revised.revisions
  rw [written,List.mem_cons]
  by_cases mine : digest = source.currentContentDigest
  · simp [mine]
  rw [Function.update_of_ne (by simp [mine]),revised.identity]
  simp only [mine,false_or]
  rcases stands with ⟨absent,rfl⟩ | ⟨old,there,_,_,revisions⟩
  · simp only [absent,Option.map_none,Option.getD_none,List.not_mem_nil,iff_false,not_not]
    by_contra stored
    exact absurd (sound.fresh _ _ stored) (Nat.lt_irrefl _)
  · simp only [there,Option.map_some,Option.getD_some]
    exact revisions digest

theorem Revised.sound (sound : Sound b) {source} (revised : Revised b t key source) : Sound t := by
  have identity : source.socialSourceId < t.minted := by
    rw [revised.identity]
    cases there : b.sources key with
    | none => exact revised.minted
    | some old => exact (sound.minted _ _ there).trans revised.minted
  constructor
  · intro s digest stored
    obtain ⟨time,written⟩ := revised.revisions
    rw [written] at stored
    by_cases mine : (s,digest) = (source.socialSourceId,source.currentContentDigest)
    · rw [(Prod.mk.inj mine).1]
      exact identity
    · rw [Function.update_of_ne mine] at stored
      exact (sound.fresh s digest stored).trans revised.minted
  · intro key' old there
    by_cases other : key' = key
    · subst other
      rw [revised.here] at there
      cases Option.some.inj there
      exact identity
    · rw [revised.elsewhere other] at there
      exact (sound.minted key' old there).trans revised.minted
  · intro left right old old' there there' same
    by_contra apart
    by_cases first : left = key
    · subst first
      rw [revised.here] at there
      cases Option.some.inj there
      rw [revised.elsewhere (Ne.symm apart)] at there'
      exact revised.apart sound (Ne.symm apart) there' same.symm
    · rw [revised.elsewhere first] at there
      by_cases second : right = key
      · subst second
        rw [revised.here] at there'
        cases Option.some.inj there'
        exact revised.apart sound first there same
      · rw [revised.elsewhere second] at there'
        exact apart (sound.distinct _ _ _ _ there there' same)
  · intro key'
    rw [revised.removed]
    rcases sound.stands key' with gone | ⟨seen,stands⟩
    · exact .inl gone
    · by_cases other : key' = key
      · subst other
        exact .inr ⟨_,revised.onward sound stands⟩
      · exact .inr ⟨seen,revised.others sound other stands⟩

theorem publishSound (sound : Sound b) (ok : b.publishSource d account post instant = .ok t) : Sound t := by
  rcases (publishCases ok).2 with rfl | ⟨source,revised⟩
  · exact sound
  · exact revised.sound sound

/- The shared contract can represent the post. -/
def Publishable (d : Publisher) (owner : Uuid) (o : Observation) : Prop :=
  ∀ sourceId, (o.facts.snapshot d.contract sourceId owner (o.digest d.contract) o.capturedAt bookmarkProvenance).isSome

/- The digest is the newest of the source, or one that it never had. -/
def Forward (seen : List ContentDigest) (digest : ContentDigest) : Prop := seen.head? = some digest ∨ digest ∉ seen

/- The source can be published with the digest; one that is removed stands on nothing. -/
def Open (b : Books) (key : SourceKey) (digest : ContentDigest) : Prop := ∀ seen, Stands b key seen → Forward seen digest

theorem publishObserves (stored : Stored b o) :
    b.publishSource d account o.post.providerId o.capturedAt = observe d account b o := by
  have same : persist b o = b := by
    simp only [persist,← stored.1,← stored.2,Function.update_eq_self]
  rw [observe,same]

theorem revisionRemoved {loaded : LoadedSource} {contract minted source} (there : loaded.source = some source)
    (gone : source.removedAt ≠ none) : loaded.revision contract minted instant = .ok none := by
  unfold LoadedSource.revision
  rw [there,Option.any_some,if_pos (Option.isSome_iff_ne_none.mpr gone)]

theorem publishRemoved (owned : b.accounts account = some owner) (stored : Stored b o)
    (gone : Removed b (account,o.post.providerId)) : b.publishSource d account o.post.providerId instant = .ok b := by
  obtain ⟨source,there,removed⟩ := gone
  have loaded : b.loadSource account o.post.providerId = .ok (o.loaded owner (some source)) := by
    simp only [Books.loadSource,owned,stored.2,Option.bind_some,stored.1,there]
    rfl
  have nothing : (o.loaded owner (some source)).revision d.contract b.minted instant = .ok none :=
    revisionRemoved rfl removed
  unfold Books.publishSource
  rw [loaded]
  simp only [bind,Except.bind,nothing]

theorem standsRemoved (stands : Stands b key seen) : ¬Removed b key := by
  rintro ⟨source,there,gone⟩
  exact gone (standsKept stands there).1

/- Two accounts of one source tell the same of it. -/
theorem standsForward {seen'} (stands : Stands b key seen) (stands' : Stands b key seen') {digest} (forward : Forward seen digest) :
    Forward seen' digest := by
  unfold Forward at forward ⊢
  rw [← standsDigest stands',standsDigest stands]
  refine forward.imp_right (fun unseen => ?_)
  rcases stands' with ⟨_,rfl⟩ | ⟨source,there,_,_,revisions⟩
  · exact List.not_mem_nil
  · rw [← revisions digest,(standsKept stands there).2.2 digest]
    exact unseen

/- An open source is published, and stands on the digest. -/
theorem publishes (sound : Sound b) (owned : b.accounts account = some owner) (stored : Stored b o)
    (publishable : Publishable d owner o) (opens : Open b (account,o.post.providerId) (o.digest d.contract)) :
    ∃ t, b.publishSource d account o.post.providerId o.capturedAt = .ok t ∧
      ∀ seen, Stands b (account,o.post.providerId) seen → Stands t (account,o.post.providerId) (o.digest d.contract::seen) := by
  rcases sound.stands (account,o.post.providerId) with gone | ⟨seen,stands⟩
  · exact ⟨b,publishRemoved owned stored gone,fun seen stands => absurd gone (standsRemoved stands)⟩
  · have accepts : ∀ seen, Stands b (account,o.post.providerId) seen → ∃ t, observe d account b o = .ok t ∧
        Stands t (account,o.post.providerId) (o.digest d.contract::seen) := by
      intro seen' stands'
      obtain ⟨t,ok,_,_,_,onward⟩ := observeAccepts sound.fresh owned stands' rfl publishable (opens seen' stands')
      exact ⟨t,ok,onward⟩
    rw [publishObserves stored]
    obtain ⟨t,ok,_⟩ := accepts seen stands
    refine ⟨t,ok,?_⟩
    intro seen' stands'
    obtain ⟨t',ok',onward⟩ := accepts seen' stands'
    rw [ok] at ok'
    cases Except.ok.inj ok'
    exact onward

/- Any other source refuses it: the digest is one that it had before its newest. -/
theorem publishRefuses (owned : b.accounts account = some owner) (stored : Stored b o)
    (publishable : Publishable d owner o) (closed : ¬Open b (account,o.post.providerId) (o.digest d.contract)) :
    b.publishSource d account o.post.providerId o.capturedAt = .error .query := by
  rw [publishObserves stored]
  simp only [Open,not_forall] at closed
  obtain ⟨seen,stands,back⟩ := closed
  exact observeRefuses owned stands rfl publishable back

end Sources

section Pages
variable {d : Publisher} {account owner : Uuid} {b t : Books} {batch : NormalizedBatch} {capturedAt : DateTime}
  {order : List String} {seen : List ContentDigest}

/- The page's posts, each with its rows and a snapshot that the contract takes. -/
def Sighted (d : Publisher) (owner : Uuid) (batch : NormalizedBatch) (capturedAt : DateTime) (b : Books) (order : List String) : Prop :=
  ∀ id ∈ order, ∃ o, sighting batch capturedAt id = some o ∧ Stored b o ∧ Publishable d owner o

/- What the publication of some posts leaves of the archive's sources. -/
structure Advanced (d : Publisher) (batch : NormalizedBatch) (capturedAt : DateTime) (account : Uuid) (order : List String)
    (b t : Books) : Prop where
  sound : Sound t
  removed : ∀ key, Removed t key ↔ Removed b key
  stands : ∀ id seen, Stands b (account,id) seen → Stands t (account,id)
    ((if id ∈ order then (digestOf d.contract batch capturedAt id).toList else []) ++ seen)

/- Every post of the page can be published. -/
def AllOpen (d : Publisher) (batch : NormalizedBatch) (capturedAt : DateTime) (account : Uuid) (b : Books) (order : List String) : Prop :=
  ∀ id ∈ order, ∀ digest, digestOf d.contract batch capturedAt id = some digest → Open b (account,id) digest

theorem advances {id} {o : Observation} (sound : Sound b) (owned : b.accounts account = some owner)
    (sighted : sighting batch capturedAt id = some o) (stored : Stored b o) (publishable : Publishable d owner o)
    (opens : Open b (account,id) (o.digest d.contract)) :
    ∃ t, b.publishSource d account id capturedAt = .ok t ∧ Beside b t ∧ Advanced d batch capturedAt account [id] b t := by
  obtain ⟨rfl,rfl⟩ := sightingNamed sighted
  obtain ⟨t,ok,onward⟩ := publishes sound owned stored publishable opens
  obtain ⟨beside,cases_⟩ := publishCases ok
  refine ⟨t,ok,beside,publishSound sound ok,?_,?_⟩
  · rcases cases_ with rfl | ⟨source,revised⟩
    · exact fun _ => Iff.rfl
    · exact revised.removed
  · intro other seen stands
    by_cases mine : other = o.post.providerId
    · subst mine
      simpa [digestOf,sighted] using onward seen stands
    · rw [if_neg (by simpa using mine),List.nil_append]
      rcases cases_ with rfl | ⟨source,revised⟩
      · exact stands
      · exact revised.others sound (by simpa using mine) stands

theorem Advanced.opens (sound : Sound b) (advanced : Advanced d batch capturedAt account order b t) {id} (outside : id ∉ order)
    (digest) : Open t (account,id) digest ↔ Open b (account,id) digest := by
  have kept : ∀ seen, Stands b (account,id) seen → Stands t (account,id) seen := by
    intro seen stands
    simpa [outside] using advanced.stands id seen stands
  constructor
  · exact fun opens seen stands => opens seen (kept seen stands)
  · intro opens seen stands
    rcases sound.stands (account,id) with gone | ⟨seen',stands'⟩
    · exact absurd ((advanced.removed _).mpr gone) (standsRemoved stands)
    · exact standsForward (kept seen' stands') stands (opens seen' stands')

theorem Sighted.kept (beside : Beside b t) (sighted : Sighted d owner batch capturedAt b order) :
    Sighted d owner batch capturedAt t order := by
  intro id member
  obtain ⟨o,shown,⟨author,post⟩,publishable⟩ := sighted id member
  exact ⟨o,shown,⟨by rw [beside.users]; exact author,by rw [beside.posts]; exact post⟩,publishable⟩

theorem Advanced.cons {id} {u : Books} (fresh : id ∉ order) (first : Advanced d batch capturedAt account [id] b t)
    (later : Advanced d batch capturedAt account order t u) : Advanced d batch capturedAt account (id::order) b u := by
  refine ⟨later.sound,fun key => (later.removed key).trans (first.removed key),?_⟩
  intro other seen stands
  have both := later.stands other _ (first.stands other seen stands)
  by_cases mine : other = id
  · subst mine
    simpa [fresh] using both
  · simpa [mine] using both

theorem publishesAll (distinct : order.Nodup) (sound : Sound b) (owned : b.accounts account = some owner)
    (sighted : Sighted d owner batch capturedAt b order) :
    (AllOpen d batch capturedAt account b order →
      ∃ t, publishBookmarkSources d account capturedAt b order = .ok t ∧ Advanced d batch capturedAt account order b t) ∧
    (¬AllOpen d batch capturedAt account b order → publishBookmarkSources d account capturedAt b order = .error .query) := by
  induction order generalizing b with
  | nil =>
    refine ⟨fun _ => ⟨b,rfl,sound,fun _ => Iff.rfl,fun id seen stands => by simpa using stands⟩,?_⟩
    exact fun some_ => absurd (fun id member => absurd member List.not_mem_nil) some_
  | cons id rest ih =>
    obtain ⟨fresh,distinct⟩ := List.nodup_cons.mp distinct
    obtain ⟨o,shown,stored,publishable⟩ := sighted id List.mem_cons_self
    have digest : digestOf d.contract batch capturedAt id = some (o.digest d.contract) := by rw [digestOf,shown,Option.map_some]
    by_cases opens : Open b (account,id) (o.digest d.contract)
    · obtain ⟨t,ok,beside,advanced⟩ := advances sound owned shown stored publishable opens
      have sighted' : Sighted d owner batch capturedAt t rest :=
        Sighted.kept beside (fun other later => sighted other (List.mem_cons_of_mem _ later))
      have apart : ∀ other ∈ rest, other ∉ [id] := fun other later mine => fresh (List.mem_singleton.mp mine ▸ later)
      have same : AllOpen d batch capturedAt account t rest ↔ AllOpen d batch capturedAt account b (id::rest) := by
        constructor
        · intro every other member digest' some_
          obtain rfl | later := List.mem_cons.mp member
          · rw [digest] at some_
            cases Option.some.inj some_
            exact opens
          · exact (advanced.opens sound (apart other later) digest').mp (every other later digest' some_)
        · intro every other later digest' some_
          exact (advanced.opens sound (apart other later) digest').mpr (every other (List.mem_cons_of_mem _ later) digest' some_)
      obtain ⟨all,notAll⟩ := ih distinct advanced.sound (by rw [beside.accounts]; exact owned) sighted'
      rw [publishBookmarkSources,ok]
      constructor
      · intro every
        obtain ⟨u,ok',later⟩ := all (same.mpr every)
        exact ⟨u,ok',advanced.cons fresh later⟩
      · exact fun some_ => notAll (fun every => some_ (same.mp every))
    · refine ⟨fun every => absurd (every id List.mem_cons_self _ digest) opens,fun _ => ?_⟩
      obtain ⟨rfl,rfl⟩ := sightingNamed shown
      rw [publishBookmarkSources,publishRefuses owned stored publishable opens]
      rfl

theorem Persisted.stands (persisted : Persisted b t) {key seen} : Stands t key seen ↔ Stands b key seen := by
  simp only [Stands,persisted.sources,persisted.revisions]

theorem Persisted.removed (persisted : Persisted b t) {key} : Removed t key ↔ Removed b key := by
  simp only [Removed,persisted.sources]

theorem Persisted.sound (persisted : Persisted b t) (sound : Sound b) : Sound t where
  fresh := fun s digest stored => (sound.fresh s digest (persisted.revisions ▸ stored)).trans_le persisted.minted
  minted := fun key source there => (sound.minted key source (persisted.sources ▸ there)).trans_le persisted.minted
  distinct := fun key key' source source' there there' =>
    sound.distinct key key' source source' (persisted.sources ▸ there) (persisted.sources ▸ there')
  stands := fun key => (sound.stands key).imp persisted.removed.mpr (fun ⟨seen,stands⟩ => ⟨seen,persisted.stands.mpr stands⟩)

theorem Persisted.allOpen (persisted : Persisted b t) :
    AllOpen d batch capturedAt account t order ↔ AllOpen d batch capturedAt account b order := by
  simp only [AllOpen,Open,persisted.stands]

theorem Persisted.advanced {u : Books} (persisted : Persisted b t) (advanced : Advanced d batch capturedAt account order t u) :
    Advanced d batch capturedAt account order b u where
  sound := advanced.sound
  removed := fun key => (advanced.removed key).trans persisted.removed
  stands := fun id seen stands => advanced.stands id seen (persisted.stands.mpr stands)

/- What stage_page and observe_page do with a page beside their own tables. -/
def storePage (d : Publisher) (accountId : Uuid) (capturedAt : DateTime) (batch : NormalizedBatch) (order : List String)
    (b : Books) : Except SnapshotError Books := do
  let stored ← persistPosts batch.users (persistUsers b batch.users) batch.posts
  publishBookmarkSources d accountId capturedAt stored order

def postIds (batch : NormalizedBatch) : List String := (batch.posts.map NormalizedPost.providerId).dedup

theorem memOrder (capturedAt : DateTime) (authored : Authored batch) (ordered : order.Perm (postIds batch)) {id} :
    id ∈ order ↔ (sighting batch capturedAt id).isSome = true := by
  rw [ordered.mem_iff,postIds,List.mem_dedup,sightingSome authored]

theorem storesPage (sound : Sound b) (owned : b.accounts account = some owner) (authored : Authored batch)
    (ordered : order.Perm (postIds batch)) (publishable : ∀ id o, sighting batch capturedAt id = some o → Publishable d owner o) :
    (AllOpen d batch capturedAt account b order →
      ∃ t, storePage d account capturedAt batch order b = .ok t ∧ Advanced d batch capturedAt account order b t) ∧
    (¬AllOpen d batch capturedAt account b order → storePage d account capturedAt batch order b = .error .query) := by
  obtain ⟨stored,ok,persisted,accounts,rows⟩ : ∃ t,
    persistPosts batch.users (persistUsers b batch.users) batch.posts = .ok t ∧ Persisted b t ∧
      t.accounts = b.accounts ∧ ∀ id o, sighting batch capturedAt id = some o → Stored t o := persists authored
  have sighted : Sighted d owner batch capturedAt stored order := by
    intro id member
    obtain ⟨o,shown⟩ := Option.isSome_iff_exists.mp ((memOrder capturedAt authored ordered).mp member)
    exact ⟨o,shown,rows id o shown,publishable id o shown⟩
  have distinct : order.Nodup := ordered.nodup_iff.mpr (List.nodup_dedup _)
  have form : storePage d account capturedAt batch order b = publishBookmarkSources d account capturedAt stored order := by
    rw [storePage,ok]
    rfl
  obtain ⟨all,notAll⟩ := publishesAll distinct (persisted.sound sound) (by rw [accounts]; exact owned) sighted
  rw [form]
  constructor
  · intro every
    obtain ⟨t,ok',advanced⟩ := all (persisted.allOpen.mpr every)
    exact ⟨t,ok',persisted.advanced advanced⟩
  · exact fun some_ => notAll (fun every => some_ (persisted.allOpen.mp every))

def digestsOf (contract : Contract) (pages : List (NormalizedBatch × DateTime)) (id : String) : List ContentDigest :=
  pages.filterMap (fun page => digestOf contract page.1 page.2 id)

variable {rest : List (NormalizedBatch × DateTime)}

theorem digestsCons {contract : Contract} {id} :
    digestsOf contract ((batch,capturedAt)::rest) id = (digestOf contract batch capturedAt id).toList ++ digestsOf contract rest id := by
  cases some_ : digestOf contract batch capturedAt id <;> simp [digestsOf,some_]

/- No page brings a post back to a content that its source had before another one. -/
def Onward (contract : Contract) (account : Uuid) (b : Books) (pages : List (NormalizedBatch × DateTime)) : Prop :=
  ∀ id seen, Stands b (account,id) seen → NoReturn seen (digestsOf contract pages id)

theorem noReturnSame {seen seen' digests : List ContentDigest} (head : seen.head? = seen'.head?)
    (members : ∀ digest, digest ∈ seen ↔ digest ∈ seen') : NoReturn seen digests ↔ NoReturn seen' digests := by
  induction digests generalizing seen seen' with
  | nil => exact Iff.rfl
  | cons digest rest ih =>
    have later : NoReturn (digest::seen) rest ↔ NoReturn (digest::seen') rest := ih rfl (by simp [members])
    rw [NoReturn,NoReturn,head,members,later]

theorem standsSame {key seen seen'} (stands : Stands b key seen) (stands' : Stands b key seen') {digests} :
    NoReturn seen digests ↔ NoReturn seen' digests := by
  refine noReturnSame ((standsDigest stands).symm.trans (standsDigest stands')) ?_
  intro digest
  rcases stands' with ⟨absent,rfl⟩ | ⟨source,there,_,_,revisions⟩
  · have head := standsDigest stands
    rw [currentDigest,absent,Option.map_none] at head
    rw [List.head?_eq_none_iff.mp head.symm]
  · rw [← revisions digest,(standsKept stands there).2.2 digest]

theorem onwardFirst (onward : Onward d.contract account b ((batch,capturedAt)::rest)) :
    AllOpen d batch capturedAt account b order := by
  intro id member digest some_ seen stands
  have forward := onward id seen stands
  rw [digestsCons,some_] at forward
  exact forward.1

theorem onwardOpens (authored : Authored batch) (ordered : order.Perm (postIds batch)) :
    Onward d.contract account b [(batch,capturedAt)] ↔ AllOpen d batch capturedAt account b order := by
  constructor
  · exact onwardFirst
  · intro every id seen stands
    rw [digestsCons]
    cases some_ : digestOf d.contract batch capturedAt id with
    | none => trivial
    | some digest =>
      have member : id ∈ order := by
        rw [memOrder capturedAt authored ordered]
        exact (Option.isSome_map ..).symm.trans (congrArg Option.isSome some_)
      exact ⟨every id member digest some_ seen stands,trivial⟩

theorem noReturnTake {seen digests later : List ContentDigest} (forward : NoReturn seen (digests ++ later)) :
    NoReturn seen digests := by
  induction digests generalizing seen with
  | nil => trivial
  | cons digest rest ih => exact ⟨forward.1,ih forward.2⟩

theorem onwardTake {contract : Contract} {pages} (onward : Onward contract account b (pages ++ rest)) :
    Onward contract account b pages := by
  intro id seen stands
  have forward := onward id seen stands
  rw [digestsOf,List.filterMap_append] at forward
  exact noReturnTake forward

theorem onwardNew {contract : Contract} {pages} {ids : List String} (absent : ∀ id, b.sources (account,id) = none)
    (shown : ∀ id, digestsOf contract pages id ≠ [] → id ∈ ids) :
    Onward contract account b pages ↔ ∀ id ∈ ids, NoReturn [] (digestsOf contract pages id) := by
  constructor
  · exact fun onward id _ => onward id [] (.inl ⟨absent id,rfl⟩)
  · intro each id seen stands
    rcases stands with ⟨_,rfl⟩ | ⟨source,there,_⟩
    · by_cases none : digestsOf contract pages id = []
      · rw [none]
        trivial
      · exact each id (shown id none)
    · rw [absent] at there
      cases there

theorem onwardCons (sound : Sound b) (authored : Authored batch) (ordered : order.Perm (postIds batch))
    (every : AllOpen d batch capturedAt account b order) (advanced : Advanced d batch capturedAt account order b t) :
    Onward d.contract account t rest ↔ Onward d.contract account b ((batch,capturedAt)::rest) := by
  have moved : ∀ id seen, Stands b (account,id) seen →
      Stands t (account,id) ((digestOf d.contract batch capturedAt id).toList ++ seen) := by
    intro id seen stands
    have onward := advanced.stands id seen stands
    split at onward
    · exact onward
    · rename_i outside
      rw [memOrder capturedAt authored ordered,Option.not_isSome_iff_eq_none] at outside
      rwa [digestOf,outside]
  have split_ : ∀ id seen, Stands b (account,id) seen → (NoReturn seen (digestsOf d.contract ((batch,capturedAt)::rest) id) ↔
      NoReturn ((digestOf d.contract batch capturedAt id).toList ++ seen) (digestsOf d.contract rest id)) := by
    intro id seen stands
    have forward := (onwardOpens authored ordered).mpr every id seen stands
    rw [digestsCons] at forward ⊢
    cases some_ : digestOf d.contract batch capturedAt id with
    | none => exact Iff.rfl
    | some digest =>
      rw [some_] at forward
      exact and_iff_right forward.1
  constructor
  · intro onward id seen stands
    exact (split_ id seen stands).mpr (onward id _ (moved id seen stands))
  · intro onward id seen stands
    rcases sound.stands (account,id) with gone | ⟨seen',stands'⟩
    · exact absurd ((advanced.removed _).mpr gone) (standsRemoved stands)
    · exact (standsSame (moved id seen' stands') stands).mp ((split_ id seen' stands').mp (onward id seen' stands'))

end Pages

/- Whatever a page is stored with, the archive stays sound. -/
section Soundness
variable {b t : Books}

theorem postsSound {users posts} (sound : Sound b) (ok : persistPosts users b posts = .ok t) : Sound t := by
  induction posts generalizing b with
  | nil =>
    cases Except.ok.inj ok
    exact sound
  | cons post rest ih =>
    rw [persistPosts] at ok
    split at ok
    · have stored : Persisted b (upsertPost b post) := ⟨rfl,rfl,Nat.le_refl _⟩
      exact ih (stored.sound sound) ok
    · simp at ok

theorem publicationsSound {d account capturedAt order} (sound : Sound b)
    (ok : publishBookmarkSources d account capturedAt b order = .ok t) : Sound t := by
  induction order generalizing b with
  | nil =>
    cases Except.ok.inj ok
    exact sound
  | cons post rest ih =>
    rw [publishBookmarkSources] at ok
    split at ok
    · simp at ok
    · rename_i published
      exact ih (publishSound sound published) ok

theorem storeSound {d account capturedAt batch order} (sound : Sound b)
    (ok : storePage d account capturedAt batch order b = .ok t) : Sound t := by
  obtain ⟨stored,persisted,published⟩ := bindOk.mp ok
  exact publicationsSound (postsSound (Persisted.sound (usersPersisted batch.users).1 sound) persisted) published

end Soundness
end RatatoskrX.PublishedPages
