import RatatoskrX.ArticleUrls
import RatatoskrX.Envelopes

/-! The bookmark path of social_sources.rs in one transaction that runs alone: what a post's
observation does to the account's source, its revisions, its links and the outbox. A user
or post row is named by its provider id, which is unique and never changes. -/
namespace RatatoskrX.SocialSources
open Schema Envelopes ArticleUrls

structure UserRow where
  providerId : String
  username : Option String
  displayName : Option String
  deriving DecidableEq, Repr

structure PostRow where
  providerId : String
  authorProviderId : Option String
  text : String
  longText : Option String
  publishedAt : Option DateTime
  availability : PostAvailability
  expandedUrls : List String
  deriving DecidableEq, Repr

abbrev SourceKey := Uuid × String

structure SocialSource where
  accountId : Uuid
  postId : String
  socialSourceId : Uuid
  currentContentDigest : ContentDigest
  capturedAt : DateTime
  removedAt : Option DateTime
  deriving DecidableEq, Repr

/- A row of article_captures as its insert leaves it. -/
structure ArticleCapture where
  id : Uuid
  accountId : Uuid
  normalizedUrl : String
  originalUrl : String
  deriving DecidableEq, Repr

structure Publisher where
  contract : Contract
  captureUrl : String → Bool

structure LoadedSource where
  owner : Uuid
  source : Option SocialSource
  post : PostRow
  author : UserRow
  deriving DecidableEq, Repr

def LoadedSource.facts (loaded : LoadedSource) : SourceFacts :=
  ⟨loaded.post.providerId,loaded.post.text,loaded.post.longText,loaded.post.publishedAt,loaded.post.availability,
    loaded.author.providerId,loaded.author.username,loaded.author.displayName,loaded.post.expandedUrls⟩

def LoadedSource.digest (loaded : LoadedSource) (contract : Contract) : ContentDigest :=
  loaded.facts.digest contract bookmarkProvenance

def LoadedSource.digestIsCurrent (loaded : LoadedSource) (digest : ContentDigest) : Bool :=
  loaded.source.any (fun source => source.currentContentDigest = digest)

inductive PublishError where | query | contract
  deriving DecidableEq, Repr

structure Revision where
  owner : Uuid
  sourceId : Uuid
  fact : SourceFact
  digest : ContentDigest
  snapshot : SocialSourceSnapshot
  urls : List SelectedArticleUrl
  deriving DecidableEq, Repr

/- publish_source between its read and its writes: nothing to publish, or a revision. The
minted id is used when there is no source. -/
def LoadedSource.revision (loaded : LoadedSource) (contract : Contract) (minted : Uuid) (capturedAt : DateTime) :
    Except PublishError (Option Revision) :=
  if loaded.source.any (fun source => source.removedAt.isSome) then .ok none
  else
    let digest := loaded.digest contract
    if loaded.digestIsCurrent digest then .ok none
    else
      let sourceId := (loaded.source.map SocialSource.socialSourceId).getD minted
      match loaded.facts.snapshot contract sourceId loaded.owner digest capturedAt bookmarkProvenance with
      | none => .error .contract
      | some snapshot =>
        .ok (some ⟨loaded.owner,sourceId,if loaded.source.isSome then .updated else .captured,digest,snapshot,
          selectExternalExpandedUrls loaded.post.expandedUrls⟩)

/- A revision is made for what was read: a new source, or one that is there and not removed. -/
theorem revisionFor {loaded : LoadedSource} {contract minted capturedAt r}
    (made : loaded.revision contract minted capturedAt = .ok (some r)) :
    r.snapshot.socialSourceId = r.sourceId ∧
      (r.fact = .captured ∧ loaded.source = none ∨
        r.fact = .updated ∧ ∃ old, loaded.source = some old ∧ old.removedAt = none ∧ old.socialSourceId = r.sourceId) := by
  unfold LoadedSource.revision at made
  split at made
  · simp at made
  · rename_i unremoved
    simp only at made
    split at made
    · simp at made
    · split at made
      · simp at made
      · rename_i snapshot built
        cases Option.some.inj (Except.ok.inj made)
        refine ⟨(snapshotFields built).1,?_⟩
        cases there : loaded.source with
        | none => exact .inl ⟨rfl,rfl⟩
        | some old =>
          rw [there,Option.any_some,Option.not_isSome_iff_eq_none] at unremoved
          exact .inr ⟨rfl,old,rfl,unremoved,rfl⟩

/-- queue_article_command. -/
def articleCommand (id owner sourceId captureId : Uuid) (url : String) : Envelope :=
  ⟨id,.operation captureId,some (.socialSource sourceId),owner,.contentCaptureRequested captureId url⟩

/- The tables that one transaction reads and writes. A revision row is known by what is
unique in it. -/
structure Books where
  accounts : Uuid → Option Uuid
  users : String → Option UserRow
  posts : String → Option PostRow
  sources : SourceKey → Option SocialSource
  revisions : Uuid × ContentDigest → Option DateTime
  captures : Uuid × String → Option ArticleCapture
  links : Uuid × Uuid → Bool
  outbox : List Envelope
  minted : Nat

namespace Books

/-- load_source: the joins of the account, the post and its author must all find a row. -/
def loadSource (b : Books) (accountId : Uuid) (postId : String) : Except PublishError LoadedSource :=
  match b.accounts accountId,b.posts postId with
  | some owner,some post => match post.authorProviderId.bind b.users with
    | some author => .ok ⟨owner,b.sources (accountId,postId),post,author⟩
    | none => .error .query
  | _,_ => .error .query

theorem loadedFrom {b : Books} {accountId postId loaded} (ok : b.loadSource accountId postId = .ok loaded) :
    loaded.source = b.sources (accountId,postId) := by
  unfold loadSource at ok
  split at ok
  · split at ok
    · cases Except.ok.inj ok
      rfl
    · simp at ok
  · simp at ok

/- The update of a source that is there, or the insert of a new one. -/
def writeSource (b : Books) (accountId : Uuid) (postId : String) (capturedAt : DateTime) (r : Revision) : Books :=
  let row := match b.sources (accountId,postId) with
    | some source => {source with currentContentDigest := r.digest, capturedAt := capturedAt}
    | none => ⟨accountId,postId,r.sourceId,r.digest,capturedAt,none⟩
  {b with sources := Function.update b.sources (accountId,postId) (some row)}

/- The insert of a revision under its unique constraint, and the source event after it. -/
def insertRevision (b : Books) (capturedAt : DateTime) (r : Revision) : Except PublishError Books :=
  match b.revisions (r.sourceId,r.digest) with
  | some _ => .error .query
  | none =>
    .ok {b with
      revisions := Function.update b.revisions (r.sourceId,r.digest) (some capturedAt)
      outbox := b.outbox ++ [sourceEvent b.minted r.owner r.fact r.snapshot]
      minted := b.minted + 1}

/- One selected URL of capture_expanded_links_in_transaction. -/
def captureLink (d : Publisher) (accountId : Uuid) (r : Revision) (b : Books) (url : SelectedArticleUrl) : Books :=
  if d.captureUrl url.normalizedUrl then
    match b.captures (accountId,url.normalizedUrl) with
    | some capture => {b with links := Function.update b.links (r.sourceId,capture.id) true}
    | none =>
      {b with
        captures := Function.update b.captures (accountId,url.normalizedUrl)
          (some ⟨b.minted,accountId,url.normalizedUrl,url.originalUrl⟩)
        links := Function.update b.links (r.sourceId,b.minted) true
        outbox := b.outbox ++ [articleCommand (b.minted + 1) r.owner r.sourceId b.minted url.normalizedUrl]
        minted := b.minted + 2}
  else b

def publishSource (b : Books) (d : Publisher) (accountId : Uuid) (postId : String) (capturedAt : DateTime) :
    Except PublishError Books := do
  let loaded ← b.loadSource accountId postId
  match ← loaded.revision d.contract b.minted capturedAt with
  | none => .ok b
  | some r =>
    let written := {b with minted := b.minted + 1}.writeSource accountId postId capturedAt r
    let revised ← written.insertRevision capturedAt r
    .ok (r.urls.foldl (captureLink d accountId r) revised)

end Books
end RatatoskrX.SocialSources
