import RatatoskrX.Contents

/-! The import of one preflight batch: the checks of its owner's approval, the resolution of
each record to a post, and the transaction that writes the posts, the evidence items and the
run. -/
namespace RatatoskrX.LegacyImport
open Relational Schema Snapshot Writeback Contents

inductive LegacyTransitionError where
  | notImplemented | missingSource | sourceUnavailable | sourceTooLarge | rowLimitExceeded
  | textLimitExceeded (field : String)
  | jsonDepthExceeded | invalidEncoding
  | invalidTimestamp (field : String)
  | unsupportedField (field : String)
  | forbiddenField (field : String)
  | unsupportedSourceVersion | unsupportedSqliteSchema
  | invalidField (field : String)
  | duplicateSourceKey | sourceChanged | sourceDatabase | missingOwnershipApproval | invalidOwnershipApproval
  | targetAccountNotFound | targetAccountNotConnected | currentIdentityUnavailable | currentIdentityMismatch | database
  | importRunUnavailable | snapshotNotAuthoritative | shadowReportUnavailable | checklistDigestMismatch
  deriving DecidableEq, Repr

inductive LegacySourceVersion where
  | monolithBookmarkMetadata | fieldTheoryJsonl1 | fieldTheorySqlite6
  deriving DecidableEq, Repr

structure LegacyRecord where
  sourceRecordKey : String
  providerPostId : Option String
  urlProviderPostId : Option String
  canonicalUrlDigest : Option Digest
  text : String
  postedAt : Option DateTime
  bookmarkedAt : Option DateTime
  syncedAt : DateTime
  categories : List String
  folderIds : List String
  folderNames : List String
  recordDigest : Digest
  deriving DecidableEq, Repr

structure PreflightBatch where
  sourceKind : LegacySourceKind
  sourceVersion : LegacySourceVersion
  sourceDigest : Digest
  records : List LegacyRecord
  deriving DecidableEq, Repr

structure OwnershipApproval where
  accountId : Uuid
  internalOwnerId : Uuid
  sourceDigest : Digest
  approvalDigest : Digest
  deriving DecidableEq, Repr

structure ImportOutcome where
  runId : Uuid
  counts : ImportCounts
  reused : Bool
  deriving DecidableEq, Repr

def importerParserVersion : Int := 1

def noCounts : ImportCounts := ⟨0,0,0,0,0,0⟩

def validSha256 (value : String) : Bool :=
  value.utf8ByteSize = 64 && value.toList.all (fun c => c.isDigit || ('a' ≤ c && c ≤ 'f'))

def validProviderPostId (value : String) : Bool :=
  value ≠ "" && value.utf8ByteSize ≤ 19 && value.toList.all Char.isDigit

section Resolution

structure ResolvedIdentity where
  resolution : LegacyResolution
  providerPostId : Option String
  conflictingProviderPostId : Option String
  deriving DecidableEq, Repr

def resolveRecordIdentity (record : LegacyRecord) : ResolvedIdentity :=
  match record.providerPostId.filter validProviderPostId,record.urlProviderPostId.filter validProviderPostId with
  | some explicit,some fromUrl =>
    if explicit ≠ fromUrl then ⟨.identityConflict,none,some fromUrl⟩ else ⟨.providerPost,some explicit,none⟩
  | some explicit,none => ⟨.providerPost,some explicit,none⟩
  | none,some fromUrl => ⟨.urlDerivedPost,some fromUrl,none⟩
  | none,none => ⟨.unmapped,none,none⟩

def resolvedPost (record : LegacyRecord) : Option String := (resolveRecordIdentity record).providerPostId

end Resolution

section Posts
variable (contents : Table PostContent PostContent.providerId)

def importedContent (providerPostId : String) (record : LegacyRecord) : PostContent where
  providerId := providerPostId
  authorUserId := none
  text := record.text
  longText := none
  language := none
  publishedAt := record.postedAt
  editedAt := none
  conversationProviderId := none
  likeCount := none
  retweetCount := none
  replyCount := none
  quoteCount := none
  bookmarkCount := none
  impressionCount := none
  expandedUrls := []
  parserVersion := importerParserVersion
  normalizationProvenance := .legacyImport
  availability := .unknown

def rewrites (record : LegacyRecord) (row : PostContent) : Bool :=
  row.normalizationProvenance = .legacyImport && (row.text ≠ record.text || row.publishedAt ≠ record.postedAt)

def rewritten (record : LegacyRecord) (row : PostContent) : PostContent :=
  {row with
    text := record.text
    publishedAt := record.postedAt
    parserVersion := importerParserVersion
    availability := .unknown}

inductive PostOutcome where | inserted | updated | matched
  deriving DecidableEq, Repr

def upsertImportedContent (providerPostId : String) (record : LegacyRecord) :
    Table PostContent PostContent.providerId × PostOutcome :=
  match absent : contents.find providerPostId with
  | none => (contents.append (importedContent providerPostId record) (Table.findNone.mp absent),.inserted)
  | some row =>
    if rewrites record row then
      (contents.update (fun c => c.providerId = providerPostId && c.normalizationProvenance = .legacyImport)
        (rewritten record) (fun _ => rfl),.updated)
    else (contents,.matched)

end Posts

section Records
variable (sha256 : List UInt8 → List UInt8)

def countPost (counts : ImportCounts) : PostOutcome → ImportCounts
  | .inserted => {counts with inserted := counts.inserted + 1}
  | .updated => {counts with updated := counts.updated + 1}
  | .matched => {counts with matched := counts.matched + 1}

def countUnresolved (counts : ImportCounts) : LegacyResolution → ImportCounts
  | .identityConflict => {counts with conflicted := counts.conflicted + 1}
  | .unmapped => {counts with unmapped := counts.unmapped + 1}
  | .providerPost | .urlDerivedPost => counts

/-- upsert_imported_post; the identity of the post is the database's. -/
def upsertImportedPost (a : Archive) (providerPostId : String) (record : LegacyRecord) (counts : ImportCounts) :
    Archive × Uuid × ImportCounts :=
  let post := upsertPost a.db providerPostId
  let content := upsertImportedContent a.contents providerPostId record
  ({a with db := post.1, contents := content.1},post.2,countPost counts content.2)

def importItem (runId : Uuid) (record : LegacyRecord) (postId : Option Uuid) : ImportItem where
  importRunId := runId
  sourceRecordKey := record.sourceRecordKey
  sourceRowDigest := record.recordDigest
  providerPostId := (resolvedPost record).or (record.providerPostId.filter validProviderPostId)
  conflictingProviderPostId := (resolveRecordIdentity record).conflictingProviderPostId
  postId := postId
  canonicalUrlDigest := record.canonicalUrlDigest
  contentDigest := some (sha256Hex sha256 (utf8 record.text))
  sourceObservedSavedAt := record.bookmarkedAt
  sourceSyncedAt := record.syncedAt
  legacyCategoryMetadata := record.categories
  legacyFolderMetadata := record.folderIds.map .id ++ record.folderNames.map .name
  resolution := (resolveRecordIdentity record).resolution

def itemChecks (item : ImportItem) : Bool :=
  1 ≤ item.sourceRecordKey.length && item.sourceRecordKey.length ≤ 256 && validSha256 item.sourceRowDigest &&
    item.canonicalUrlDigest.all validSha256 && item.contentDigest.all validSha256 &&
    item.providerPostId.all validProviderPostId && item.conflictingProviderPostId.all validProviderPostId &&
    (decide (item.resolution = .identityConflict) == item.conflictingProviderPostId.isSome) &&
    (item.postId.isNone || item.providerPostId.isSome)

def insertItem (a : Archive) (item : ImportItem) : Option Archive :=
  if fresh : item.key ∉ a.importItems.rows.map ImportItem.key then
    if itemChecks item then some {a with importItems := a.importItems.append item fresh} else none
  else none

def persistImportRecord (runId : Uuid) (a : Archive) (counts : ImportCounts) (record : LegacyRecord) :
    Option (Archive × ImportCounts) :=
  match resolvedPost record with
  | some providerPostId =>
    let (stored,postId,counted) := upsertImportedPost a providerPostId record counts
    (insertItem stored (importItem sha256 runId record (some postId))).map (fun after => (after,counted))
  | none =>
    (insertItem a (importItem sha256 runId record none)).map
      (fun after => (after,countUnresolved counts (resolveRecordIdentity record).resolution))

def persistImportRecords (runId : Uuid) (a : Archive) (counts : ImportCounts) :
    List LegacyRecord → Option (Archive × ImportCounts)
  | [] => some (a,counts)
  | record::rest => do
    let (after,counted) ← persistImportRecord sha256 runId a counts record
    persistImportRecords runId after counted rest

end Records

section Batch

def sourceDatabaseIdentity (batch : PreflightBatch) : Except LegacyTransitionError (LegacySourceKind × Int) :=
  match batch.sourceKind,batch.sourceVersion with
  | .monolithBookmarkMetadataCsv,.monolithBookmarkMetadata => .ok (.monolithBookmarkMetadataCsv,1)
  | .fieldTheoryJsonl,.fieldTheoryJsonl1 => .ok (.fieldTheoryJsonl,1)
  | .fieldTheorySqlite,.fieldTheorySqlite6 => .ok (.fieldTheorySqlite,6)
  | _,_ => .error .unsupportedSourceVersion

/- The checks of import_batch and of validate_locked_import_account on the account's row. -/
def validateImportAccount (a : Archive) (approval : OwnershipApproval) (verifiedProviderUserId : String) :
    Except LegacyTransitionError Unit :=
  match a.db.accounts.find approval.accountId with
  | none => .error .targetAccountNotFound
  | some account =>
    if account.internalUserId ≠ approval.internalOwnerId then .error .invalidOwnershipApproval
    else if account.state ≠ .connected then .error .targetAccountNotConnected
    else if a.providerUserId approval.accountId ≠ verifiedProviderUserId then .error .currentIdentityMismatch
    else .ok ()

def sameSource (accountId : Uuid) (kind : LegacySourceKind) (version : Int) (digest : Digest) (run : ImportRun) : Bool :=
  run.accountId = accountId && run.sourceKind = kind && run.sourceVersion = version && run.sourceDigest = digest &&
    run.importerParserVersion = importerParserVersion

def existingImport (a : Archive) (accountId : Uuid) (kind : LegacySourceKind) (version : Int) (digest : Digest) :
    Option ImportRun :=
  a.importRuns.rows.find? (sameSource accountId kind version digest)

/- bounded_count of each count. -/
def countsBounded (counts : ImportCounts) : Bool :=
  [counts.inserted,counts.matched,counts.updated,counts.conflicted,counts.rejected,counts.unmapped].all
    (fun n => (toI32 n).isSome)

def finishImport (a : Archive) (runId : Uuid) (counts : ImportCounts) (finishedAt : DateTime) : Archive :=
  {a with
    importRuns := a.importRuns.update (fun r => r.id = runId)
      (fun r => {r with status := .completed, counts := counts, finishedAt := some finishedAt}) (fun _ => rfl)}

def openImport (a : Archive) (batch : PreflightBatch) (approval : OwnershipApproval) (kind : LegacySourceKind)
    (version : Int) : Archive × Uuid :=
  let id := freshId (a.importRuns.rows.map ImportRun.id)
  ({a with
    importRuns := a.importRuns.append
      ⟨id,approval.accountId,kind,version,batch.sourceDigest,importerParserVersion,approval.approvalDigest,.running,noCounts,
        none⟩ (freshIdAbsent _)},id)

variable (sha256 : List UInt8 → List UInt8)

/-- persist_import, one transaction; a failing statement rolls it back. -/
def persistImport (a : Archive) (batch : PreflightBatch) (approval : OwnershipApproval) (verifiedProviderUserId : String)
    (now : DateTime) : Except LegacyTransitionError (Archive × ImportOutcome) := do
  validateImportAccount a approval verifiedProviderUserId
  let (kind,version) ← sourceDatabaseIdentity batch
  match existingImport a approval.accountId kind version batch.sourceDigest with
  | some run => if run.status ≠ .completed then .error .database else .ok (a,⟨run.id,run.counts,true⟩)
  | none =>
    if !(validSha256 batch.sourceDigest && validSha256 approval.approvalDigest) then .error .database
    else
      let opened := openImport a batch approval kind version
      match persistImportRecords sha256 opened.2 opened.1 noCounts batch.records with
      | none => .error .database
      | some (left,counts) =>
        if countsBounded counts then .ok (finishImport left opened.2 counts now,⟨opened.2,counts,false⟩)
        else .error .database

/- import_batch: what it checks before its transaction, and the identity it asks for. -/
def importBatch (a : Archive) (identity : Except LegacyTransitionError String) (batch : PreflightBatch)
    (approval : Option OwnershipApproval) (now : DateTime) : Except LegacyTransitionError (Archive × ImportOutcome) :=
  match approval with
  | none => .error .missingOwnershipApproval
  | some approval =>
    if approval.sourceDigest ≠ batch.sourceDigest ∨ validSha256 approval.approvalDigest = false then
      .error .invalidOwnershipApproval
    else do
      let stored := a.providerUserId approval.accountId
      validateImportAccount a approval stored
      if (← identity) ≠ stored then .error .currentIdentityMismatch
      else persistImport sha256 a batch approval stored now

end Batch

section Frame
variable {sha256 : List UInt8 → List UInt8}

/- The source of the batch has not been imported for the account. -/
def freshSource (a : Archive) (batch : PreflightBatch) (approval : OwnershipApproval) : Bool :=
  match sourceDatabaseIdentity batch with
  | .error _ => false
  | .ok (kind,version) => (existingImport a approval.accountId kind version batch.sourceDigest).isNone

/- An accepted import finds the completed run of its source or makes one. -/
theorem persistForm {a batch approval verified now after outcome}
    (ok : persistImport sha256 a batch approval verified now = .ok (after,outcome)) :
    ∃ kind version, sourceDatabaseIdentity batch = .ok (kind,version) ∧
      ((∃ run, existingImport a approval.accountId kind version batch.sourceDigest = some run ∧ run.status = .completed ∧
          after = a ∧ outcome = ⟨run.id,run.counts,true⟩) ∨
        (existingImport a approval.accountId kind version batch.sourceDigest = none ∧ ∃ left counts,
          persistImportRecords sha256 (openImport a batch approval kind version).2 (openImport a batch approval kind version).1
              noCounts batch.records = some (left,counts) ∧
            after = finishImport left (openImport a batch approval kind version).2 counts now ∧
            outcome = ⟨(openImport a batch approval kind version).2,counts,false⟩)) := by
  obtain ⟨_,_,ok⟩ := Outcome.bindOk.mp ok
  obtain ⟨⟨kind,version⟩,resolved,ok⟩ := Outcome.bindOk.mp ok
  dsimp only at ok
  refine ⟨kind,version,resolved,?_⟩
  split at ok
  · rename_i run found
    split at ok
    · simp at ok
    · rename_i completed
      obtain ⟨rfl,rfl⟩ := Prod.mk.inj (Except.ok.inj ok)
      exact .inl ⟨run,found,not_not.mp completed,rfl,rfl⟩
  · rename_i none
    split at ok
    · simp at ok
    split at ok
    · simp at ok
    rename_i left counts persisted
    split at ok
    · obtain ⟨rfl,rfl⟩ := Prod.mk.inj (Except.ok.inj ok)
      exact .inr ⟨none,left,counts,persisted,rfl,rfl⟩
    · simp at ok

theorem importCases {a batch approval verified now after outcome}
    (ok : persistImport sha256 a batch approval verified now = .ok (after,outcome)) :
    (after = a ∧ freshSource a batch approval = false) ∨
      (freshSource a batch approval = true ∧ ∃ opened runId left counts,
        opened.contents = a.contents ∧ opened.db = a.db ∧
          persistImportRecords sha256 runId opened noCounts batch.records = some (left,counts) ∧
          after.contents = left.contents ∧ after.db = left.db) := by
  obtain ⟨kind,version,resolved,⟨run,stored,_,rfl,_⟩ | ⟨none,left,counts,persisted,rfl,_⟩⟩ := persistForm ok
  · exact .inl ⟨rfl,by simp [freshSource,resolved,stored]⟩
  · exact .inr ⟨by simp [freshSource,resolved,none],(openImport a batch approval kind version).1,_,left,counts,rfl,rfl,
      persisted,rfl,rfl⟩

theorem insertedForm {a item after} (inserted : insertItem a item = some after) :
    after.contents = a.contents ∧ after.db = a.db ∧ after.importRuns = a.importRuns ∧
      after.importItems.rows = a.importItems.rows ++ [item] := by
  unfold insertItem at inserted
  split at inserted
  · split at inserted
    · cases Option.some.inj inserted
      exact ⟨rfl,rfl,rfl,rfl⟩
    · simp at inserted
  · simp at inserted

theorem recordsFrame {runId a counts records after counted}
    (ok : persistImportRecords sha256 runId a counts records = some (after,counted)) : Frames.Agree [.posts] a.db after.db := by
  induction records generalizing a counts with
  | nil =>
    cases Option.some.inj ok
    exact .refl _ _
  | cons record rest ih =>
    simp only [persistImportRecords,bind,Option.bind_eq_some_iff,Prod.exists] at ok
    obtain ⟨next,counts',first,later⟩ := ok
    refine Frames.Agree.trans ?_ (ih later)
    unfold persistImportRecord at first
    split at first
    · rename_i providerPostId _
      obtain ⟨stored,inserted,last⟩ := Option.map_eq_some_iff.mp first
      rw [← (Prod.mk.inj last).1,(insertedForm inserted).2.1]
      exact Frames.persistPostsFrame [providerPostId] a.db
    · obtain ⟨stored,inserted,last⟩ := Option.map_eq_some_iff.mp first
      rw [← (Prod.mk.inj last).1,(insertedForm inserted).2.1]
      exact .refl _ _

theorem importFrame {a batch approval verified now after outcome}
    (ok : persistImport sha256 a batch approval verified now = .ok (after,outcome)) : Frames.Agree [.posts] a.db after.db := by
  rcases importCases ok with ⟨rfl,_⟩ | ⟨_,opened,runId,left,counts,_,same,persisted,_,kept⟩
  · exact .refl _ _
  · rw [kept,← same]
    exact recordsFrame persisted

end Frame

/- The transactions of the archive: one that persists a page, another of the sync services,
or an import. A refused or failed one commits nothing. -/
inductive Transaction where
  | page (commit : Journal.Commit) (page : OfficialPage)
  | sync (commit : Journal.Commit)
  | importBatch (batch : PreflightBatch) (approval : OwnershipApproval) (verifiedProviderUserId : String) (now : DateTime)

def Transaction.effect (sha256 : List UInt8 → List UInt8) (a : Archive) : Transaction → Option Archive
  | .page c official => persistPage a c official
  | .sync c => if (pageOf c).isSome then none else (c.effect a.db).map (fun db => {a with db := db})
  | .importBatch batch approval verified now => ((persistImport sha256 a batch approval verified now).toOption).map Prod.fst

end RatatoskrX.LegacyImport
