import Mathlib.Data.List.Sort
import Mathlib.Data.String.Basic
import RatatoskrX.Foundation.Outcome
import RatatoskrX.Schema

/-! The normalizer of provider payloads: an envelope in, row-shaped records out. The typed
view of an envelope is where this model starts; its decoding from text belongs to serde. The
reader of RFC 3339 timestamps is a parameter. -/
namespace RatatoskrX.Normalization
open Outcome Schema

inductive Json where
  | null
  | bool (value : Bool)
  | number (text : String)
  | string (value : String)
  | array (items : List Json)
  | object (members : List (String × Json))

/- serde_json's Map: the members in the order of their names. -/
abbrev Extension := List (String × Json)

def insertMember (key : String) (value : Json) : Extension → Extension
  | [] => [(key,value)]
  | (other,old)::rest =>
    if key < other then (key,value)::(other,old)::rest
    else if key = other then (key,value)::rest
    else (other,old)::insertMember key value rest

def parserVersion : Int := 1

section Payload

structure ReferencedTweet where
  referenceType : Option String
  id : Option String
  extension : Extension

structure PublicMetrics where
  retweetCount : Option Int
  replyCount : Option Int
  likeCount : Option Int
  quoteCount : Option Int
  bookmarkCount : Option Int
  impressionCount : Option Int
  extension : Extension

structure NoteTweet where
  text : Option String
  extension : Extension

structure PostUrlEntity where
  url : Option String
  expandedUrl : Option String
  unwoundUrl : Option String
  extension : Extension

structure PostEntities where
  urls : List PostUrlEntity
  extension : Extension

structure Attachments where
  mediaKeys : Option (List String)
  pollIds : Option (List String)
  extension : Extension

structure EditControls where
  editsRemaining : Option Int
  isEditEligible : Option Bool
  editableUntil : Option String
  extension : Extension

structure PostObject where
  id : Option String
  text : Option String
  authorId : Option String
  conversationId : Option String
  createdAt : Option String
  lang : Option String
  publicMetrics : Option PublicMetrics
  referencedTweets : Option (List ReferencedTweet)
  noteTweet : Option NoteTweet
  entities : Option PostEntities
  attachments : Option Attachments
  editControls : Option EditControls
  editHistoryTweetIds : Option (List String)
  extension : Extension

structure UserPublicMetrics where
  followersCount : Option Int
  followingCount : Option Int
  tweetCount : Option Int
  listedCount : Option Int
  extension : Extension

structure UserObject where
  id : Option String
  name : Option String
  username : Option String
  createdAt : Option String
  description : Option String
  location : Option String
  isProtected : Option Bool
  verified : Option Bool
  profileImageUrl : Option String
  url : Option String
  pinnedTweetId : Option String
  publicMetrics : Option UserPublicMetrics
  extension : Extension

structure MediaVariant where
  bitRate : Option Int
  contentType : Option String
  url : Option String
  extension : Extension

structure MediaPublicMetrics where
  viewCount : Option Int
  extension : Extension

structure MediaObject where
  mediaKey : Option String
  kind : Option String
  url : Option String
  previewImageUrl : Option String
  width : Option Int
  height : Option Int
  altText : Option String
  durationMs : Option Int
  variants : Option (List MediaVariant)
  publicMetrics : Option MediaPublicMetrics
  extension : Extension

structure Includes where
  users : List UserObject
  tweets : List PostObject
  media : List MediaObject
  extension : Extension

structure Envelope where
  data : List PostObject
  includes : Includes
  extension : Extension

end Payload

section Records

inductive Availability where | active | deleted | isProtected | authorSuspended | unavailable | unknown
  deriving DecidableEq, Repr

inductive Relation where | reply | quote | repost
  deriving DecidableEq, Repr

inductive MediaKind where | photo | video | animatedGif
  deriving DecidableEq, Repr

structure NormalizedUser where
  parserVersion : Int
  providerId : String
  username : Option String
  displayName : Option String
  extension : Extension

structure NormalizedPost where
  parserVersion : Int
  providerId : String
  authorProviderId : String
  text : String
  longText : Option String
  language : Option String
  publishedAt : Option DateTime
  editedAt : Option DateTime
  availability : Availability
  conversationProviderId : Option String
  likeCount : Option Int
  retweetCount : Option Int
  replyCount : Option Int
  quoteCount : Option Int
  bookmarkCount : Option Int
  impressionCount : Option Int
  mediaKeys : List String
  expandedUrls : List String
  extension : Extension

structure NormalizedRelation where
  parserVersion : Int
  postProviderId : String
  relatedPostProviderId : String
  relation : Relation
  deriving DecidableEq, Repr

structure NormalizedMedia where
  parserVersion : Int
  postProviderId : String
  providerId : String
  kind : Option MediaKind
  metadata : Json
  blobRef : Option String

structure NormalizedBatch where
  users : List NormalizedUser
  posts : List NormalizedPost
  relations : List NormalizedRelation
  media : List NormalizedMedia

inductive NormalizeError where
  | missingMember (object member : String)
  | invalidMember (object member : String)
  | unresolvedAuthor (postProviderId : String)
  deriving DecidableEq, Repr

end Records

section Validation
variable (parse : String → Option DateTime)

def requireMember (value : Option String) (object member : String) : Except NormalizeError String :=
  match value with
  | some found => if found = "" then .error (.missingMember object member) else .ok found
  | none => .error (.missingMember object member)

def validatePost (post : PostObject) : Except NormalizeError Unit := do
  let _ ← requireMember post.id "post" "id"
  let _ ← requireMember post.text "post" "text"
  let _ ← requireMember post.authorId "post" "author_id"
  let rawTimestamp ← requireMember post.createdAt "post" "created_at"
  if (parse rawTimestamp).isNone then throw (.invalidMember "post" "created_at")

def validatePosts : List PostObject → Except NormalizeError Unit
  | [] => .ok ()
  | post::rest => do
    validatePost parse post
    validatePosts rest

def Envelope.validate (e : Envelope) : Except NormalizeError Unit :=
  if e.data = [] then .error (.missingMember "envelope" "data") else validatePosts parse e.data

end Validation

section Documents

/- The included users by their ids; a later user replaces an earlier one of the same id. -/
def authorIndex (e : Envelope) (id : String) : Option UserObject :=
  e.includes.users.foldl (fun found user => if user.id = some id then some user else found) none

def mediaIndex (e : Envelope) (key : String) : Option MediaObject :=
  e.includes.media.foldl (fun found media => if media.mediaKey = some key then some media else found) none

def classifyMediaKind : Option String → Option MediaKind
  | some "photo" => some .photo
  | some "video" => some .video
  | some "animated_gif" => some .animatedGif
  | _ => none

def insertKnown (document : Extension) (members : List (String × Option Json)) : Extension :=
  members.foldl (fun document member => member.2.elim document (insertMember member.1 · document)) document

def insertAll (document : Extension) (members : Extension) : Extension :=
  members.foldl (fun document member => insertMember member.1 member.2 document) document

def integer (n : Int) : Json := .number (toString n)

def variantDocument (variant : MediaVariant) : Json :=
  .object (insertKnown [] [("bit_rate",variant.bitRate.map integer),("content_type",variant.contentType.map .string),
    ("url",variant.url.map .string)])

def metricsDocument (metrics : MediaPublicMetrics) : Json :=
  .object (insertAll (insertKnown [] [("view_count",metrics.viewCount.map integer)]) metrics.extension)

def mediaMetadataDocument (media : MediaObject) : Json :=
  let documented := insertKnown [] [("url",media.url.map .string),("preview_image_url",media.previewImageUrl.map .string),
    ("width",media.width.map integer),("height",media.height.map integer),("alt_text",media.altText.map .string),
    ("duration_ms",media.durationMs.map integer)]
  .object (insertKnown documented [("variants",media.variants.map (fun variants => .array (variants.map variantDocument))),
    ("public_metrics",media.publicMetrics.map metricsDocument),("extension",some (.object media.extension))])

def normalizeMediaRecord (postProviderId : String) (media : MediaObject) : NormalizedMedia :=
  ⟨parserVersion,postProviderId,media.mediaKey.getD "",classifyMediaKind media.kind,mediaMetadataDocument media,none⟩

def classifyReference (reference : ReferencedTweet) : Option (String × Relation) := do
  let target ← reference.id
  match ← reference.referenceType with
  | "replied_to" => some (target,.reply)
  | "quoted" => some (target,.quote)
  | "retweeted" => some (target,.repost)
  | _ => none

/- A reference as serde writes it. -/
def referenceValue (reference : ReferencedTweet) : Json :=
  .object (insertAll (insertKnown [] [("type",some (reference.referenceType.elim .null .string)),
    ("id",some (reference.id.elim .null .string))]) reference.extension)

def splitReferences (post : PostObject) : List (String × Relation) × List Json :=
  let references := post.referencedTweets.getD []
  (references.filterMap classifyReference,
    (references.filter (fun reference => (classifyReference reference).isNone)).map referenceValue)

def unresolvedReferencesKey : String := "ratatoskr.x/unresolved_references"

end Documents

section Sorting

def dedup {α : Type} [DecidableEq α] : List α → List α
  | a::b::rest => if a = b then dedup (b::rest) else a::dedup (b::rest)
  | l => l

def IdLe : Option String → Option String → Prop
  | none,_ => True
  | some _,none => False
  | some a,some b => a ≤ b

instance (a b) : Decidable (IdLe a b) := by
  unfold IdLe
  split <;> infer_instance

def Relation.rank : Relation → Nat
  | .reply => 0
  | .quote => 1
  | .repost => 2

/- The derived order of a relation record. -/
def NormalizedRelation.Le (a b : NormalizedRelation) : Prop :=
  a.parserVersion < b.parserVersion ∨ a.parserVersion = b.parserVersion ∧
    (a.postProviderId < b.postProviderId ∨ a.postProviderId = b.postProviderId ∧
      (a.relatedPostProviderId < b.relatedPostProviderId ∨ a.relatedPostProviderId = b.relatedPostProviderId ∧
        a.relation.rank ≤ b.relation.rank))

instance (a b : NormalizedRelation) : Decidable (a.Le b) := by
  unfold NormalizedRelation.Le
  infer_instance

def NormalizedMedia.Le (a b : NormalizedMedia) : Prop :=
  a.postProviderId < b.postProviderId ∨ a.postProviderId = b.postProviderId ∧ a.providerId ≤ b.providerId

instance (a b : NormalizedMedia) : Decidable (a.Le b) := by
  unfold NormalizedMedia.Le
  infer_instance

def sortedStrings (values : List String) : List String := dedup (values.insertionSort (· ≤ ·))

end Sorting

section Normalize
variable (parse : String → Option DateTime)

def normalizePost (post : PostObject) (authorProviderId : String) (unresolvedReferences : List Json) :
    Except NormalizeError NormalizedPost :=
  match parse (post.createdAt.getD "") with
  | none => .error (.invalidMember "post" "created_at")
  | some parsed =>
    let urls := (post.entities.elim [] PostEntities.urls).filterMap (fun url => url.unwoundUrl <|> url.expandedUrl)
    .ok {
      parserVersion := parserVersion
      providerId := post.id.getD ""
      authorProviderId := authorProviderId
      text := post.text.getD ""
      longText := post.noteTweet.bind NoteTweet.text
      language := post.lang
      publishedAt := some parsed
      editedAt := none
      availability := .active
      conversationProviderId := post.conversationId
      likeCount := post.publicMetrics.bind PublicMetrics.likeCount
      retweetCount := post.publicMetrics.bind PublicMetrics.retweetCount
      replyCount := post.publicMetrics.bind PublicMetrics.replyCount
      quoteCount := post.publicMetrics.bind PublicMetrics.quoteCount
      bookmarkCount := post.publicMetrics.bind PublicMetrics.bookmarkCount
      impressionCount := post.publicMetrics.bind PublicMetrics.impressionCount
      mediaKeys := sortedStrings ((post.attachments.bind Attachments.mediaKeys).getD [])
      expandedUrls := sortedStrings urls
      extension := if unresolvedReferences.isEmpty then post.extension
        else insertMember unresolvedReferencesKey (.array unresolvedReferences) post.extension}

structure Progress where
  batch : NormalizedBatch
  seen : List String

def Progress.start : Progress := ⟨⟨[],[],[],[]⟩,[]⟩

def Progress.pushUserOnce (p : Progress) (author : UserObject) (providerId : String) : Progress :=
  if providerId ∈ p.seen then p
  else {
    batch := {p.batch with
      users := p.batch.users ++ [⟨parserVersion,providerId,author.username,author.name,author.extension⟩]}
    seen := providerId::p.seen}

def joinedMedia (e : Envelope) (post : PostObject) : List NormalizedMedia :=
  ((post.attachments.bind Attachments.mediaKeys).getD []).filterMap (fun key =>
    (mediaIndex e key).map (normalizeMediaRecord (post.id.getD "")))

def Progress.push (e : Envelope) (p : Progress) (post : PostObject) : Except NormalizeError Progress :=
  let providerId := post.id.getD ""
  let authorId := post.authorId.getD ""
  match authorIndex e authorId with
  | none => .error (.unresolvedAuthor providerId)
  | some author =>
    let p := p.pushUserOnce author authorId
    let references := splitReferences post
    match normalizePost parse post authorId references.2 with
    | .error error => .error error
    | .ok record => .ok {p with
      batch := {p.batch with
        posts := p.batch.posts ++ [record]
        relations := p.batch.relations ++ references.1.map (fun (related,relation) =>
          ⟨parserVersion,providerId,related,relation⟩)
        media := p.batch.media ++ joinedMedia e post}}

def Progress.pushAll (e : Envelope) (p : Progress) : List PostObject → Except NormalizeError Progress
  | [] => .ok p
  | post::rest => do
    let p ← p.push parse e post
    p.pushAll e rest

def NormalizedBatch.sorted (batch : NormalizedBatch) : NormalizedBatch where
  users := batch.users.insertionSort (fun a b => a.providerId ≤ b.providerId)
  posts := batch.posts.insertionSort (fun a b => a.providerId ≤ b.providerId)
  relations := dedup (batch.relations.insertionSort NormalizedRelation.Le)
  media := batch.media.insertionSort NormalizedMedia.Le

def orderedPosts (e : Envelope) : List PostObject := e.data.insertionSort (fun a b => IdLe a.id b.id)

def normalize (e : Envelope) : Except NormalizeError NormalizedBatch := do
  e.validate parse
  let p ← Progress.start.pushAll parse e (orderedPosts e)
  return p.batch.sorted

end Normalize

section Accepted
variable {parse : String → Option DateTime}

/- A member that is there and not empty. -/
def Present (value : Option String) : Prop := ∃ found, value = some found ∧ found ≠ ""

theorem requireOk {value object member found} :
    requireMember value object member = .ok found ↔ value = some found ∧ found ≠ "" := by
  unfold requireMember
  cases value with
  | none => simp
  | some known =>
    by_cases empty : known = ""
    · subst empty
      simp only [if_true,reduceCtorEq,Option.some.injEq,false_iff]
      rintro ⟨rfl,there⟩
      exact there rfl
    · simp only [if_neg empty,Except.ok.injEq,Option.some.injEq]
      exact ⟨fun same => ⟨same,same ▸ empty⟩,And.left⟩

/- The members that the archive requires of a post. -/
structure Complete (parse : String → Option DateTime) (post : PostObject) : Prop where
  id : Present post.id
  text : Present post.text
  author : Present post.authorId
  createdAt : ∃ raw t, post.createdAt = some raw ∧ raw ≠ "" ∧ parse raw = some t

theorem validatePostOk {post} : validatePost parse post = .ok () ↔ Complete parse post := by
  simp only [validatePost,bindOk,requireOk]
  constructor
  · rintro ⟨id,present,text,present',author,present'',raw,⟨there,set⟩,parsed⟩
    refine ⟨⟨id,present⟩,⟨text,present'⟩,⟨author,present''⟩,raw,?_⟩
    cases read : parse raw with
    | none => simp [read,throw,throwThe,MonadExceptOf.throw] at parsed
    | some t => exact ⟨t,there,set,rfl⟩
  · rintro ⟨⟨id,present⟩,⟨text,present'⟩,⟨author,present''⟩,raw,t,there,set,read⟩
    refine ⟨id,present,text,present',author,present'',raw,⟨there,set⟩,?_⟩
    simp [read,pure,Except.pure]

theorem validatePostsOk {posts} : validatePosts parse posts = .ok () ↔ ∀ post ∈ posts, Complete parse post := by
  induction posts with
  | nil => simp [validatePosts]
  | cons post rest ih =>
    simp only [validatePosts,bindOk,List.mem_cons,forall_eq_or_imp]
    constructor
    · rintro ⟨_,first,others⟩
      exact ⟨validatePostOk.mp first,ih.mp others⟩
    · rintro ⟨first,others⟩
      exact ⟨(),validatePostOk.mpr first,ih.mpr others⟩

theorem validateOk {e : Envelope} : e.validate parse = .ok () ↔ e.data ≠ [] ∧ ∀ post ∈ e.data, Complete parse post := by
  unfold Envelope.validate
  split
  · rename_i none
    simp [none]
  · rename_i some
    simp [some,validatePostsOk]

/- The author of the post is among the included users. -/
def Resolved (e : Envelope) (post : PostObject) : Prop := (authorIndex e (post.authorId.getD "")).isSome = true

def PostObject.providerId (post : PostObject) : String := post.id.getD ""

theorem pushOk {e p post p'} (ok : Progress.push parse e p post = .ok p') :
    Resolved e post ∧ ∃ record, record.providerId = post.providerId ∧ p'.batch.posts = p.batch.posts ++ [record] := by
  unfold Progress.push at ok
  simp only at ok
  split at ok
  · simp at ok
  rename_i author found
  split at ok
  · simp at ok
  rename_i record made
  cases Except.ok.inj ok
  refine ⟨by simp [Resolved,found],record,?_,?_⟩
  · unfold normalizePost at made
    split at made
    · simp at made
    · cases Except.ok.inj made
      rfl
  · show (p.pushUserOnce author _).batch.posts ++ [record] = _
    unfold Progress.pushUserOnce
    split <;> rfl

theorem pushes {e p post} (complete : Complete parse post) (resolved : Resolved e post) :
    ∃ p', Progress.push parse e p post = .ok p' := by
  obtain ⟨author,found⟩ := Option.isSome_iff_exists.mp resolved
  obtain ⟨raw,t,there,_,read⟩ := complete.createdAt
  unfold Progress.push
  simp only [found,normalizePost,there,Option.getD_some,read]
  exact ⟨_,rfl⟩

theorem pushAllOk {e p posts p'} (ok : Progress.pushAll parse e p posts = .ok p') :
    (∀ post ∈ posts, Resolved e post) ∧
      p'.batch.posts.map NormalizedPost.providerId =
        p.batch.posts.map NormalizedPost.providerId ++ posts.map PostObject.providerId := by
  induction posts generalizing p with
  | nil =>
    cases Except.ok.inj ok
    simp
  | cons post rest ih =>
    obtain ⟨q,first,later⟩ := bindOk.mp ok
    obtain ⟨resolved,record,named,appended⟩ := pushOk first
    obtain ⟨others,ids⟩ := ih later
    refine ⟨List.forall_mem_cons.mpr ⟨resolved,others⟩,?_⟩
    rw [ids,appended]
    simp [named]

theorem pushesAll {e p posts} (complete : ∀ post ∈ posts, Complete parse post) (resolved : ∀ post ∈ posts, Resolved e post) :
    ∃ p', Progress.pushAll parse e p posts = .ok p' := by
  induction posts generalizing p with
  | nil => exact ⟨p,rfl⟩
  | cons post rest ih =>
    rw [List.forall_mem_cons] at complete resolved
    obtain ⟨q,first⟩ := pushes (p := p) complete.1 resolved.1
    obtain ⟨p',later⟩ := ih (p := q) complete.2 resolved.2
    exact ⟨p',bindOk.mpr ⟨q,first,later⟩⟩

theorem memOrdered {e : Envelope} {post} : post ∈ orderedPosts e ↔ post ∈ e.data := List.mem_insertionSort _

theorem normalizeAccepts {e} : (∃ batch, normalize parse e = .ok batch) ↔
    e.data ≠ [] ∧ ∀ post ∈ e.data, Complete parse post ∧ Resolved e post := by
  constructor
  · rintro ⟨batch,ok⟩
    obtain ⟨_,valid,ok⟩ := bindOk.mp ok
    obtain ⟨p,pushed,_⟩ := bindOk.mp ok
    obtain ⟨some,complete⟩ := validateOk.mp valid
    exact ⟨some,fun post member => ⟨complete post member,(pushAllOk pushed).1 post (memOrdered.mpr member)⟩⟩
  · rintro ⟨some,each⟩
    have valid := validateOk.mpr ⟨some,fun post member => (each post member).1⟩
    have pushes : ∃ p, Progress.pushAll parse e Progress.start (orderedPosts e) = .ok p :=
      pushesAll (fun post member => (each post (memOrdered.mp member)).1) (fun post member => (each post (memOrdered.mp member)).2)
    obtain ⟨p,pushed⟩ := pushes
    exact ⟨p.batch.sorted,bindOk.mpr ⟨(),valid,bindOk.mpr ⟨p,pushed,rfl⟩⟩⟩

theorem orderedIds {e : Envelope} (complete : ∀ post ∈ e.data, Complete parse post) :
    (orderedPosts e).map PostObject.providerId = (e.data.map PostObject.providerId).insertionSort (· ≤ ·) := by
  have named : ∀ post ∈ e.data, post.id = some post.providerId := by
    intro post member
    obtain ⟨id,there,_⟩ := (complete post member).id
    simp [PostObject.providerId,there]
  refine List.map_insertionSort _ _ _ _ ?_
  intro a left b right
  rw [named a left,named b right]
  rfl

theorem normalizedIds {e batch} (ok : normalize parse e = .ok batch) :
    batch.posts.map NormalizedPost.providerId = (e.data.map PostObject.providerId).insertionSort (· ≤ ·) := by
  obtain ⟨_,valid,ok⟩ := bindOk.mp ok
  obtain ⟨p,pushed,last⟩ := bindOk.mp ok
  cases Except.ok.inj last
  have ids := (pushAllOk pushed).2
  have sorted : (p.batch.sorted.posts).map NormalizedPost.providerId =
      (p.batch.posts.map NormalizedPost.providerId).insertionSort (· ≤ ·) :=
    List.map_insertionSort _ _ _ _ (fun _ _ _ _ => Iff.rfl)
  rw [sorted,ids]
  simp only [Progress.start,List.map_nil,List.nil_append]
  rw [orderedIds (validateOk.mp valid).2]
  exact (List.pairwise_insertionSort _ _).insertionSort_eq

end Accepted
end RatatoskrX.Normalization
