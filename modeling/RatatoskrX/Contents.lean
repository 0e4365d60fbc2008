import RatatoskrX.Frames
import RatatoskrX.Envelopes

/-! The content of posts and the rows of the legacy transition, beside the database of the
sync services. A page of the official API writes the content of its posts in the transaction
that stages or observes it. -/
namespace RatatoskrX.Contents
open Relational Schema Snapshot Folders Writeback Journal
open Envelopes (PostAvailability)

inductive NormalizationProvenance where | officialApi | legacyImport
  deriving DecidableEq, Repr

structure NormalizedUser where
  providerId : String
  username : Option String
  displayName : Option String
  parserVersion : Int
  deriving DecidableEq, Repr

structure NormalizedPost where
  parserVersion : Int
  providerId : String
  authorProviderId : String
  text : String
  longText : Option String
  language : Option String
  publishedAt : Option DateTime
  editedAt : Option DateTime
  availability : PostAvailability
  conversationProviderId : Option String
  likeCount : Option Int
  retweetCount : Option Int
  replyCount : Option Int
  quoteCount : Option Int
  bookmarkCount : Option Int
  impressionCount : Option Int
  expandedUrls : List String
  deriving DecidableEq, Repr

structure UserRow where
  id : Uuid
  providerId : String
  username : Option String
  displayName : Option String
  parserVersion : Int
  deriving DecidableEq, Repr

/- The columns of a row of posts besides its identity, which the database keeps. -/
structure PostContent where
  providerId : String
  authorUserId : Option Uuid
  text : String
  longText : Option String
  language : Option String
  publishedAt : Option DateTime
  editedAt : Option DateTime
  conversationProviderId : Option String
  likeCount : Option Int
  retweetCount : Option Int
  replyCount : Option Int
  quoteCount : Option Int
  bookmarkCount : Option Int
  impressionCount : Option Int
  expandedUrls : List String
  parserVersion : Int
  normalizationProvenance : NormalizationProvenance
  availability : PostAvailability
  deriving DecidableEq, Repr

inductive LegacySourceKind where
  | monolithBookmarkMetadataCsv | fieldTheoryJsonl | fieldTheorySqlite
  deriving DecidableEq, Repr

inductive ImportStatus where | running | completed | failed
  deriving DecidableEq, Repr

structure ImportCounts where
  inserted : Nat
  matched : Nat
  updated : Nat
  conflicted : Nat
  rejected : Nat
  unmapped : Nat
  deriving DecidableEq, Repr

structure ImportRun where
  id : Uuid
  accountId : Uuid
  sourceKind : LegacySourceKind
  sourceVersion : Int
  sourceDigest : Digest
  importerParserVersion : Int
  ownershipApprovalDigest : Digest
  status : ImportStatus
  counts : ImportCounts
  finishedAt : Option DateTime
  deriving DecidableEq, Repr

inductive LegacyResolution where
  | providerPost | urlDerivedPost | identityConflict | unmapped
  deriving DecidableEq, Repr

inductive FolderMetadata where
  | id (value : String)
  | name (value : String)
  deriving DecidableEq, Repr

structure ImportItem where
  importRunId : Uuid
  sourceRecordKey : String
  sourceRowDigest : Digest
  providerPostId : Option String
  conflictingProviderPostId : Option String
  postId : Option Uuid
  canonicalUrlDigest : Option Digest
  contentDigest : Option Digest
  sourceObservedSavedAt : Option DateTime
  sourceSyncedAt : DateTime
  legacyCategoryMetadata : List String
  legacyFolderMetadata : List FolderMetadata
  resolution : LegacyResolution
  deriving DecidableEq, Repr

abbrev ImportItem.key (i : ImportItem) : Uuid × String := (i.importRunId,i.sourceRecordKey)

structure Archive where
  db : Database
  /- The provider_user_id of each account. -/
  providerUserId : Uuid → String
  users : Table UserRow UserRow.providerId
  contents : Table PostContent PostContent.providerId
  importRuns : Table ImportRun ImportRun.id
  importItems : Table ImportItem ImportItem.key

/- What normalization makes of a page: its posts are active, as they are served. -/
structure OfficialPage where
  users : List NormalizedUser
  posts : List NormalizedPost
  served : ∀ post ∈ posts, post.availability = .active

section Page

def persistUser (users : Table UserRow UserRow.providerId) (user : NormalizedUser) : Table UserRow UserRow.providerId :=
  users.upsert ⟨freshId (users.rows.map UserRow.id),user.providerId,user.username,user.displayName,user.parserVersion⟩
    (fun row => {row with
      username := user.username, displayName := user.displayName, parserVersion := user.parserVersion}) (fun _ => rfl)

def persistUsers (users : Table UserRow UserRow.providerId) (normalized : List NormalizedUser) :
    Table UserRow UserRow.providerId :=
  normalized.foldl persistUser users

/- The map that persist_users returns, read at an author. -/
def persistedAuthor (users : Table UserRow UserRow.providerId) (normalized : List NormalizedUser) (author : String) :
    Option Uuid :=
  if author ∈ normalized.map NormalizedUser.providerId then (users.find author).map UserRow.id else none

def officialContent (author : Uuid) (post : NormalizedPost) (provenance : NormalizationProvenance) : PostContent where
  providerId := post.providerId
  authorUserId := some author
  text := post.text
  longText := post.longText
  language := post.language
  publishedAt := post.publishedAt
  editedAt := post.editedAt
  conversationProviderId := post.conversationProviderId
  likeCount := post.likeCount
  retweetCount := post.retweetCount
  replyCount := post.replyCount
  quoteCount := post.quoteCount
  bookmarkCount := post.bookmarkCount
  impressionCount := post.impressionCount
  expandedUrls := post.expandedUrls
  parserVersion := post.parserVersion
  normalizationProvenance := provenance
  availability := post.availability

/- The provenance is a default of the insert, and the conflict clause does not name it. -/
def persistPost (contents : Table PostContent PostContent.providerId) (author : Uuid) (post : NormalizedPost) :
    Table PostContent PostContent.providerId :=
  contents.upsert (officialContent author post .officialApi)
    (fun row => {officialContent author post row.normalizationProvenance with providerId := row.providerId}) (fun _ => rfl)

def persistPosts (authorOf : String → Option Uuid) (contents : Table PostContent PostContent.providerId) :
    List NormalizedPost → Except SnapshotError (Table PostContent PostContent.providerId)
  | [] => .ok contents
  | post::rest => match authorOf post.authorProviderId with
    | none => .error .persistedAuthorMissing
    | some author => persistPosts authorOf (persistPost contents author post) rest

def pageOf : Commit → Option BookmarkPage
  | .stagePage _ page _ _ => some page
  | .observePage _ _ page _ => some page
  | .stageFolderPage _ page _ => some page
  | _ => none

/- One transaction that persists a page: a bookmark page, a scanned one or one of a folder. -/
def persistPage (a : Archive) (c : Commit) (page : OfficialPage) : Option Archive := do
  let plain ← pageOf c
  if plain.normalized ≠ some (page.posts.map NormalizedPost.providerId) then none
  else
    let users := persistUsers a.users page.users
    let contents ← (persistPosts (persistedAuthor users page.users) a.contents page.posts).toOption
    let db ← c.effect a.db
    some {a with db := db, users := users, contents := contents}

theorem pageForm {a : Archive} {c : Commit} {page : OfficialPage} {after} (ok : persistPage a c page = some after) :
    ∃ contents db, persistPosts (persistedAuthor (persistUsers a.users page.users) page.users) a.contents page.posts = .ok contents ∧
      c.effect a.db = some db ∧ after = {a with db := db, users := persistUsers a.users page.users, contents := contents} := by
  simp only [persistPage,bind,Option.bind_eq_some_iff] at ok
  obtain ⟨plain,_,persisted⟩ := ok
  split at persisted
  · simp at persisted
  simp only [Option.bind_eq_some_iff] at persisted
  obtain ⟨contents,stored,db,applied,last⟩ := persisted
  exact ⟨contents,db,Outcome.accepted stored,applied,(Option.some.inj last).symm⟩

end Page

section Contents
variable {contents : Table PostContent PostContent.providerId}

theorem persistedFind (author : Uuid) (post : NormalizedPost) (providerId : String) :
    (persistPost contents author post).find providerId = if post.providerId = providerId then
      some (officialContent author post (((contents.find providerId).map PostContent.normalizationProvenance).getD .officialApi))
      else contents.find providerId := by
  refine (Table.findUpsert ..).trans ?_
  by_cases same : post.providerId = providerId
  · subst same
    refine (if_pos rfl).trans (Eq.trans ?_ (if_pos rfl).symm)
    cases found : contents.find post.providerId with
    | none => rfl
    | some row =>
      have keyed := Table.findKey found
      simp only [Option.elim_some,Option.map_some,Option.getD_some,keyed]
      rfl
  · exact (if_neg same).trans (if_neg same).symm

theorem persistedContent {authorOf posts after} (served : ∀ post ∈ posts, post.availability = .active)
    (ok : persistPosts authorOf contents posts = .ok after) (providerId : String) :
    (providerId ∉ posts.map NormalizedPost.providerId → after.find providerId = contents.find providerId) ∧
    (providerId ∈ posts.map NormalizedPost.providerId → ∃ row, after.find providerId = some row ∧
      row.availability = .active ∧ row.normalizationProvenance =
        ((contents.find providerId).map PostContent.normalizationProvenance).getD .officialApi) := by
  induction posts generalizing contents with
  | nil =>
    cases ok
    exact ⟨fun _ => rfl,fun member => by simp at member⟩
  | cons post rest ih =>
    unfold persistPosts at ok
    split at ok
    · simp at ok
    rename_i author _
    obtain ⟨other,mine⟩ := ih (fun p member => served p (List.mem_cons_of_mem _ member)) ok
    have first : (persistPost contents author post).find providerId = _ := persistedFind author post providerId
    constructor
    · intro absent
      simp only [List.map_cons,List.mem_cons,not_or] at absent
      rw [other absent.2,first,if_neg (Ne.symm absent.1)]
    · intro member
      by_cases later : providerId ∈ rest.map NormalizedPost.providerId
      · obtain ⟨row,found,active,provenance⟩ := mine later
        refine ⟨row,found,active,provenance.trans ?_⟩
        rw [first]
        split <;> rfl
      · have same : post.providerId = providerId := by
          rcases List.mem_cons.mp member with same | inside
          · exact same.symm
          · exact absurd inside later
        rw [other later,first,if_pos same]
        exact ⟨_,rfl,served post List.mem_cons_self,rfl⟩

end Contents
end RatatoskrX.Contents
