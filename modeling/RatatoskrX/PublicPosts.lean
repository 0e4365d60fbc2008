import RatatoskrX.BookmarkProvider
import RatatoskrX.Capture
import RatatoskrX.Emission

/-! The resolver of one public post: the request it makes with the application's own
credential, and what it makes of the reply. The JSON reader of an envelope is a parameter. -/
namespace RatatoskrX.PublicPosts
open Outcome Schema Sealing Normalization Emission
open BookmarkProvider (Response TransportError whole trimmed)
open Capture (PublicAuthor PublicPost PublicPostFailure)

def expansions : String := "author_id,attachments.media_keys,referenced_tweets.id"

def tweetFields : String :=
  "created_at,text,entities,note_tweet,lang,conversation_id,public_metrics,referenced_tweets,attachments"

def userFields : String := "username,name"

def mediaFields : String := "type,url,preview_image_url,width,height,alt_text,duration_ms"

def maxBodyBytes : Nat := 1024 * 1024

structure AppBearerResolver where
  endpoint : String
  bearerToken : String
  deriving DecidableEq, Repr

structure Lookup where
  endpoint : String
  query : List (String × String)
  bearer : String
  accept : String
  deriving DecidableEq, Repr

/- The endpoint and the credential of with_timeouts; its client is a parameter of the exchange. -/
def AppBearerResolver.new (apiBaseUrl bearerToken : String) : AppBearerResolver :=
  ⟨trimmed apiBaseUrl ++ "/2/tweets",bearerToken⟩

/- The request says nothing of who asks. -/
def AppBearerResolver.request (resolver : AppBearerResolver) (providerPostId : String) : Lookup :=
  ⟨resolver.endpoint,
    [("ids",providerPostId),("expansions",expansions),("tweet.fields",tweetFields),("user.fields",userFields),
      ("media.fields",mediaFields)],
    resolver.bearerToken,"application/json"⟩

abbrev Reply := Except TransportError Response

def isRedirection (status : UInt16) : Bool := 300 ≤ status && status < 400
def isServerError (status : UInt16) : Bool := 500 ≤ status && status < 600

def classifyStatus (r : Response) : Except PublicPostFailure Unit :=
  if r.isSuccess then .ok ()
  else if r.status = 401 ∨ r.status = 403 then .error .transient
  else if r.status = 402 then .error .transient
  else if r.status = 429 ∨ r.status = 408 ∨ r.isServerError ∨ isRedirection r.status then .error .transient
  else .error .inaccessible

def readChunks (body : Bytes) : List (Except TransportError Bytes) → Except PublicPostFailure Bytes
  | [] => .ok body
  | .error _::_ => .error .transient
  | .ok chunk::rest =>
    if maxBodyBytes < body.length + chunk.length then .error .inaccessible else readChunks (body ++ chunk) rest

def readCapped (r : Response) : Except PublicPostFailure Bytes :=
  if r.contentLength.any (maxBodyBytes < ·) then .error .inaccessible else readChunks [] r.chunks

/- problem.get("type")?.as_str() -/
def problemType : Json → Option String
  | .object members => match members.lookup "type" with
    | some (.string type) => some type
    | _ => none
  | _ => none

def problems (e : Envelope) : List String :=
  match e.extension.lookup "errors" with
  | some (.array errors) => errors.filterMap problemType
  | _ => []

def endsWith (text suffix : String) : Bool := suffix.toList.isSuffixOf text.toList

def classifyProblems (e : Envelope) : PublicPostFailure :=
  if (problems e).any (endsWith · "resource-not-found") then .deleted else .inaccessible

section Resolver
variable (fromSlice : Bytes → Option Envelope) (parse : String → Option DateTime)

def parsePost (body : Bytes) : Except PublicPostFailure PublicPost :=
  match fromSlice body with
  | none => .error .inaccessible
  | some e =>
    if e.data = [] then .error (classifyProblems e)
    else match e.validate parse,normalize parse e with
      | .ok _,.ok batch => match batch.posts.head? with
        | some post =>
          let author := batch.users.find? (fun user => user.providerId = post.authorProviderId)
          .ok ⟨post.providerId,
            ⟨post.authorProviderId,author.bind NormalizedUser.username,author.bind NormalizedUser.displayName⟩,
            post.text,post.longText,post.publishedAt,post.expandedUrls⟩
        | none => .error .inaccessible
      | _,_ => .error .inaccessible

def lookup : Reply → Except PublicPostFailure PublicPost
  | .error _ => .error .transient
  | .ok r => do
    classifyStatus r
    parsePost fromSlice parse (← readCapped r)

end Resolver

section Meaning
variable (fromSlice : Bytes → Option Envelope) (parse : String → Option DateTime)

/- A whole response that the resolver takes for the provider's word. -/
def Answers (reply : Reply) (e : Envelope) : Prop :=
  ∃ r body, reply = .ok r ∧ r.isSuccess = true ∧ whole r.chunks = some body ∧ fromSlice body = some e

def SaysGone (reply : Reply) : Prop :=
  ∃ e, Answers fromSlice reply e ∧ e.data = [] ∧ ∃ type ∈ problems e, endsWith type "resource-not-found" = true

/- The status speaks of the credential, the plan, the rate or the service, and not of the post. -/
def Troubled (r : Response) : Prop :=
  r.status ∈ [401,402,403,408,429] ∨ isRedirection r.status = true ∨ isServerError r.status = true

/- The provider was not reached, did not answer to the end, or spoke of something else. -/
def Outage : Reply → Prop
  | .error _ => True
  | .ok r => Troubled r ∨ ∃ error, Except.error error ∈ r.chunks

/- The provider answered for the post, whatever it said. -/
def Spoken (reply : Reply) : Prop := ∃ r, reply = .ok r ∧ ¬Troubled r

structure States (e : Envelope) (object : PostObject) (post : PublicPost) : Prop where
  id : object.id = some post.providerId
  text : object.text = some post.text
  longText : post.longText = object.noteTweet.bind NoteTweet.text
  publishedAt : post.publishedAt = object.createdAt.bind parse
  expandedUrls : ∀ url, url ∈ post.expandedUrls ↔
    ∃ entity ∈ object.entities.elim [] PostEntities.urls, (entity.unwoundUrl <|> entity.expandedUrl) = some url
  authorId : object.authorId = some post.author.id
  author : ∃ user, authorIndex e post.author.id = some user ∧ post.author.username = user.username ∧
    post.author.name = user.name

def Shows (reply : Reply) (post : PublicPost) : Prop :=
  ∃ e, Answers fromSlice reply e ∧ ∃ object ∈ e.data, States parse e object post

/- What an answer of the resolver says of the reply it was made of. -/
def Means (reply : Reply) : Except PublicPostFailure PublicPost → Prop
  | .ok post => Shows fromSlice parse reply post
  | .error .deleted => SaysGone fromSlice reply
  | .error .inaccessible => Spoken reply
  | .error .transient => Outage reply

end Meaning

section Reading
variable {fromSlice : Bytes → Option Envelope} {parse : String → Option DateTime} {r : Response} {reply : Reply}

theorem successUntroubled (success : r.isSuccess = true) : ¬Troubled r := by
  simp only [Response.isSuccess,Bool.and_eq_true,decide_eq_true_eq] at success
  simp only [Troubled,isRedirection,isServerError,List.mem_cons,List.not_mem_nil,or_false,Bool.and_eq_true,
    decide_eq_true_eq]
  grind

theorem statusClass : (classifyStatus r = .ok () ∧ r.isSuccess = true) ∨
    (classifyStatus r = .error .transient ∧ Troubled r) ∨ classifyStatus r = .error .inaccessible ∧ ¬Troubled r := by
  by_cases success : r.isSuccess = true
  · exact .inl ⟨if_pos success,success⟩
  · refine .inr ?_
    unfold classifyStatus Troubled
    rw [if_neg success]
    split
    · rename_i credential
      exact .inl ⟨rfl,.inl (by rcases credential with same | same <;> simp [same])⟩
    split
    · rename_i plan
      exact .inl ⟨rfl,.inl (by simp [plan])⟩
    split
    · rename_i service
      rcases service with same | same | server | redirected
      · exact .inl ⟨rfl,.inl (by simp [same])⟩
      · exact .inl ⟨rfl,.inl (by simp [same])⟩
      · exact .inl ⟨rfl,.inr (.inr server)⟩
      · exact .inl ⟨rfl,.inr (.inl redirected)⟩
    · rename_i credential plan service
      refine .inr ⟨rfl,?_⟩
      rintro (listed | redirected | server)
      · simp only [List.mem_cons,List.not_mem_nil,or_false] at listed
        grind
      · exact service (.inr (.inr (.inr redirected)))
      · exact service (.inr (.inr (.inl server)))

theorem chunksRead {chunks} {read body : Bytes} (ok : readChunks read chunks = .ok body) :
    ∃ more, whole chunks = some more ∧ body = read ++ more := by
  induction chunks generalizing read with
  | nil =>
    cases Except.ok.inj ok
    exact ⟨[],rfl,by simp⟩
  | cons head rest ih =>
    cases head with
    | error error => simp [readChunks] at ok
    | ok chunk =>
      simp only [readChunks] at ok
      split at ok
      · simp at ok
      · obtain ⟨more,all,rfl⟩ := ih ok
        exact ⟨chunk ++ more,by simp [whole,all],by simp⟩

theorem chunksFail {chunks failure} {read : Bytes} (failed : readChunks read chunks = .error failure) :
    failure = .inaccessible ∨ failure = .transient ∧ ∃ error, Except.error error ∈ chunks := by
  induction chunks generalizing read with
  | nil => simp [readChunks] at failed
  | cons head rest ih =>
    cases head with
    | error error =>
      cases Except.error.inj failed
      exact .inr ⟨rfl,error,List.mem_cons_self⟩
    | ok chunk =>
      simp only [readChunks] at failed
      split at failed
      · cases Except.error.inj failed
        exact .inl rfl
      · rcases ih failed with oversized | ⟨broken,error,member⟩
        · exact .inl oversized
        · exact .inr ⟨broken,error,List.mem_cons_of_mem _ member⟩

theorem cappedRead {body} (ok : readCapped r = .ok body) : whole r.chunks = some body := by
  unfold readCapped at ok
  split at ok
  · simp at ok
  · obtain ⟨more,all,rfl⟩ := chunksRead ok
    simpa using all

theorem cappedFail {failure} (failed : readCapped r = .error failure) :
    failure = .inaccessible ∨ failure = .transient ∧ ∃ error, Except.error error ∈ r.chunks := by
  unfold readCapped at failed
  split at failed
  · exact .inl (Except.error.inj failed).symm
  · exact chunksFail failed

theorem parseFails {body failure} (failed : parsePost fromSlice parse body = .error failure) :
    failure = .inaccessible ∨ failure = .deleted ∧ ∃ e, fromSlice body = some e ∧ e.data = [] ∧
      ∃ type ∈ problems e, endsWith type "resource-not-found" = true := by
  unfold parsePost at failed
  split at failed
  · exact .inl (Except.error.inj failed).symm
  · rename_i e read
    split at failed
    · rename_i empty
      cases Except.error.inj failed
      unfold classifyProblems
      split
      · rename_i found
        exact .inr ⟨rfl,e,read,empty,by simpa using found⟩
      · exact .inl rfl
    · split at failed
      · split at failed
        · simp at failed
        · exact .inl (Except.error.inj failed).symm
      · exact .inl (Except.error.inj failed).symm

theorem recordStates {e : Envelope} {object record batch} (ok : normalize parse e = .ok batch) (carried : object ∈ e.data)
    (made : Becomes parse object record) : States parse e object
      ⟨record.providerId,
        ⟨record.authorProviderId,
          (batch.users.find? (fun user => user.providerId = record.authorProviderId)).bind NormalizedUser.username,
          (batch.users.find? (fun user => user.providerId = record.authorProviderId)).bind NormalizedUser.displayName⟩,
        record.text,record.longText,record.publishedAt,record.expandedUrls⟩ := by
  obtain ⟨complete,resolved⟩ := (normalizeAccepts.mp ⟨batch,ok⟩).2 object carried
  obtain ⟨id,named,_⟩ := complete.id
  obtain ⟨text,worded,_⟩ := complete.text
  obtain ⟨authorId,authored,_⟩ := complete.author
  obtain ⟨raw,t,created,_,instant⟩ := complete.createdAt
  obtain ⟨user,indexed⟩ := Option.isSome_iff_exists.mp resolved
  simp only [Becomes,normalizePost,authorOf,created,Option.getD_some,instant,Except.ok.injEq] at made
  subst made
  have users := (normalizeEmits ok).users
  have mine : userRecord authorId user ∈ batch.users :=
    (users _).mpr ⟨object,carried,user,by simpa [authorOf] using indexed,by simp [authorOf,authored]⟩
  have index : authorIndex e authorId = some user := by simpa [authored] using indexed
  -- Every user record of this id was made of the one included user that the index keeps.
  obtain ⟨found,at_⟩ : ∃ found, batch.users.find? (fun user => user.providerId = authorId) = some found :=
    Option.isSome_iff_exists.mp (List.find?_isSome.mpr ⟨_,mine,by simp [userRecord]⟩)
  have same : found = userRecord authorId user := by
    obtain ⟨other,_,user',index',rfl⟩ := (users found).mp (List.mem_of_find?_eq_some at_)
    have kept := List.find?_some at_
    have key : authorOf other = authorId := of_decide_eq_true kept
    rw [key] at index' ⊢
    rw [index] at index'
    cases Option.some.inj index'
    rfl
  refine ⟨by simp [named],by simp [worded],rfl,by simp [created,instant],?_,by simp [authored],?_⟩
  · intro url
    simp [sortedStrings,dedupMem]
  · refine ⟨user,by simpa [authored] using index,?_,?_⟩
    · simp [authored,at_,same,userRecord]
    · simp [authored,at_,same,userRecord]

theorem parseOk {body post} (ok : parsePost fromSlice parse body = .ok post) :
    ∃ e, fromSlice body = some e ∧ ∃ object ∈ e.data, States parse e object post := by
  unfold parsePost at ok
  split at ok
  · simp at ok
  rename_i e read
  split at ok
  · simp at ok
  split at ok <;> try contradiction
  rename_i batch _ normalized
  split at ok <;> try contradiction
  rename_i record first
  obtain ⟨object,carried,made⟩ := (normalizeEmits normalized).made (List.mem_of_mem_head? first)
  cases Except.ok.inj ok
  exact ⟨e,read,object,carried,recordStates normalized carried made⟩

theorem lookupMeans (reply) : Means fromSlice parse reply (lookup fromSlice parse reply) := by
  cases reply with
  | error error => exact trivial
  | ok r =>
    simp only [lookup]
    rcases statusClass (r := r) with ⟨status,success⟩ | ⟨status,troubled⟩ | ⟨status,clear⟩
    · have clear := successUntroubled success
      rw [status]
      cases read : readCapped r with
      | error failure =>
        rcases cappedFail read with rfl | ⟨rfl,broken⟩
        · exact ⟨r,rfl,clear⟩
        · exact .inr broken
      | ok body =>
        have all := cappedRead read
        simp only [bind,Except.bind]
        cases parsed : parsePost fromSlice parse body with
        | ok post =>
          obtain ⟨e,read,shown⟩ := parseOk parsed
          exact ⟨e,⟨r,body,rfl,success,all,read⟩,shown⟩
        | error failure =>
          rcases parseFails parsed with rfl | ⟨rfl,e,read,empty,gone⟩
          · exact ⟨r,rfl,clear⟩
          · exact ⟨e,⟨r,body,rfl,success,all,read⟩,empty,gone⟩
    · rw [status]
      exact .inl troubled
    · rw [status]
      exact ⟨r,rfl,clear⟩

end Reading
end RatatoskrX.PublicPosts
