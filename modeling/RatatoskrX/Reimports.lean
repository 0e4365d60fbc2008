import RatatoskrX.Library
import RatatoskrX.Reviewability

/-! The import of a source once and again. Whatever the archive and its review did since, the
run of a completed import is found by its five columns and nothing is written. -/
namespace RatatoskrX.Reimports
open Relational Schema Snapshot Writeback Journal Contents LegacyImport LegacyTransition Transition Reviewability
open Envelopes (Envelope)
open SocialSources (SourceKey SocialSource)
open Library (ComplianceAvailability postAvailability)

/- The archive with the tables of social_sources.rs, which no statement of an import names. -/
structure Holdings where
  archive : Archive
  sources : SourceKey → Option SocialSource
  outbox : List Envelope

/-- persist_import as its caller sees it: an error rolls the transaction back. -/
def importInto (sha256 : List UInt8 → List UInt8) (h : Holdings) (batch : PreflightBatch) (approval : OwnershipApproval)
    (verifiedProviderUserId : String) (now : DateTime) : Holdings × Except LegacyTransitionError ImportOutcome :=
  match persistImport sha256 h.archive batch approval verifiedProviderUserId now with
  | .ok (after,outcome) => ({h with archive := after},.ok outcome)
  | .error error => (h,.error error)

/-- row_count, the number of records that finish_batch keeps. -/
def rowCount (batch : PreflightBatch) : Nat := batch.records.length

def total (counts : ImportCounts) : Nat :=
  counts.inserted + counts.matched + counts.updated + counts.conflicted + counts.rejected + counts.unmapped

section Records
variable {sha256 : List UInt8 → List UInt8}

def ItemOf (sha256 : List UInt8 → List UInt8) (runId : Uuid) (record : LegacyRecord) (item : ImportItem) : Prop :=
  ∃ postId, item = importItem sha256 runId record postId

theorem countPostTotal (counts : ImportCounts) (outcome : PostOutcome) :
    total (countPost counts outcome) = total counts + 1 := by
  cases outcome <;> simp only [countPost,total] <;> omega

theorem countUnresolvedTotal (counts : ImportCounts) {record : LegacyRecord} (unresolved : resolvedPost record = none) :
    total (countUnresolved counts (resolveRecordIdentity record).resolution) = total counts + 1 := by
  have kind : (resolveRecordIdentity record).resolution = .identityConflict ∨
      (resolveRecordIdentity record).resolution = .unmapped := by
    unfold resolvedPost at unresolved
    unfold resolveRecordIdentity at unresolved ⊢
    split
    · split
      · exact .inl rfl
      · rename_i left right same
        simp [left,right,same] at unresolved
    · rename_i left right
      simp [left,right] at unresolved
    · rename_i left right
      simp [left,right] at unresolved
    · exact .inr rfl
  rcases kind with kind | kind <;> rw [kind] <;> simp only [countUnresolved,total] <;> omega

theorem recordForm {runId a counts record after counted}
    (ok : persistImportRecord sha256 runId a counts record = some (after,counted)) :
    after.importRuns = a.importRuns ∧ total counted = total counts + 1 ∧
      ∃ item, ItemOf sha256 runId record item ∧ after.importItems.rows = a.importItems.rows ++ [item] := by
  unfold persistImportRecord at ok
  split at ok
  · obtain ⟨stored,inserted,last⟩ := Option.map_eq_some_iff.mp ok
    obtain ⟨rfl,rfl⟩ := Prod.mk.inj last
    obtain ⟨_,_,runs,rows⟩ := insertedForm inserted
    exact ⟨runs,countPostTotal _ _,_,⟨_,rfl⟩,rows⟩
  · rename_i unresolved
    obtain ⟨stored,inserted,last⟩ := Option.map_eq_some_iff.mp ok
    obtain ⟨rfl,rfl⟩ := Prod.mk.inj last
    obtain ⟨_,_,runs,rows⟩ := insertedForm inserted
    exact ⟨runs,countUnresolvedTotal _ unresolved,_,⟨_,rfl⟩,rows⟩

theorem recordsForm {runId a counts records after counted}
    (ok : persistImportRecords sha256 runId a counts records = some (after,counted)) :
    after.importRuns = a.importRuns ∧ total counted = total counts + records.length ∧
      ∃ items, List.Forall₂ (ItemOf sha256 runId) records items ∧
        after.importItems.rows = a.importItems.rows ++ items := by
  induction records generalizing a counts with
  | nil =>
    cases Option.some.inj ok
    exact ⟨rfl,rfl,[],.nil,by simp⟩
  | cons record rest ih =>
    simp only [persistImportRecords,bind,Option.bind_eq_some_iff,Prod.exists] at ok
    obtain ⟨next,counts',first,later⟩ := ok
    obtain ⟨runs,counted',item,itemOf,rows⟩ := recordForm first
    obtain ⟨runs',counted'',items,itemsOf,rows'⟩ := ih later
    refine ⟨runs'.trans runs,?_,item::items,.cons itemOf itemsOf,?_⟩
    · rw [counted'',counted',List.length_cons]
      omega
    · rw [rows',rows,List.append_assoc]
      rfl

end Records

section Runs
variable {sha256 : List UInt8 → List UInt8}

def importRow (id : Uuid) (batch : PreflightBatch) (approval : OwnershipApproval) (kind : LegacySourceKind) (version : Int)
    (counts : ImportCounts) (now : DateTime) : ImportRun :=
  ⟨id,approval.accountId,kind,version,batch.sourceDigest,importerParserVersion,approval.approvalDigest,.completed,counts,
    some now⟩

theorem finishedRuns {a left : Archive} {batch approval kind version counts now}
    (runs : left.importRuns = (openImport a batch approval kind version).1.importRuns) :
    (finishImport left (openImport a batch approval kind version).2 counts now).importRuns.rows =
      a.importRuns.rows ++ [importRow (openImport a batch approval kind version).2 batch approval kind version counts now] := by
  have fresh := freshIdAbsent (a.importRuns.rows.map ImportRun.id)
  simp only [finishImport,Table.update,runs]
  rw [show (openImport a batch approval kind version).1.importRuns.rows = a.importRuns.rows ++
    [⟨(openImport a batch approval kind version).2,approval.accountId,kind,version,batch.sourceDigest,importerParserVersion,
      approval.approvalDigest,.running,noCounts,none⟩] from rfl,List.map_append]
  refine congr (congrArg _ ?_) ?_
  · conv_rhs => rw [← List.map_id a.importRuns.rows]
    apply List.map_congr_left
    intro r member
    refine if_neg ?_
    intro same
    exact fresh (List.mem_map.mpr ⟨r,member,of_decide_eq_true same⟩)
  · simp [importRow]

/- An accepted import finds the run of its source or appends one. -/
theorem importForm {a batch approval verified now after outcome}
    (ok : persistImport sha256 a batch approval verified now = .ok (after,outcome)) :
    ∃ kind version, sourceDatabaseIdentity batch = .ok (kind,version) ∧
      ((∃ run, existingImport a approval.accountId kind version batch.sourceDigest = some run ∧ after = a ∧
          outcome = ⟨run.id,run.counts,true⟩) ∨
        (existingImport a approval.accountId kind version batch.sourceDigest = none ∧ outcome.reused = false ∧
          total outcome.counts = rowCount batch ∧
          after.importRuns.rows = a.importRuns.rows ++ [importRow outcome.runId batch approval kind version outcome.counts now] ∧
          ∃ items, List.Forall₂ (ItemOf sha256 outcome.runId) batch.records items ∧
            after.importItems.rows = a.importItems.rows ++ items)) := by
  obtain ⟨kind,version,resolved,⟨run,stored,_,rfl,rfl⟩ | ⟨none,left,counts,persisted,rfl,rfl⟩⟩ := persistForm ok
  · exact ⟨kind,version,resolved,.inl ⟨run,stored,rfl,rfl⟩⟩
  · obtain ⟨runs,counted,items,itemsOf,rows⟩ := recordsForm persisted
    refine ⟨kind,version,resolved,.inr ⟨none,rfl,?_,?_,items,itemsOf,rows⟩⟩
    · simpa [total,noCounts,rowCount] using counted
    · exact finishedRuns runs

/- The completed run of a source. -/
def ImportedAs (a : Archive) (accountId : Uuid) (kind : LegacySourceKind) (version : Int) (digest : Digest)
    (run : ImportRun) : Prop :=
  existingImport a accountId kind version digest = some run ∧ run.status = .completed

theorem existingAppend {a after : Archive} {accountId kind version digest run rows}
    (runs : after.importRuns.rows = a.importRuns.rows ++ rows) (imported : ImportedAs a accountId kind version digest run) :
    ImportedAs after accountId kind version digest run := by
  refine ⟨?_,imported.2⟩
  have found := imported.1
  unfold existingImport at found ⊢
  rw [runs,List.find?_append,found]
  rfl

theorem importedTransaction {t : Transaction} {a after accountId kind version digest run}
    (ok : t.effect sha256 a = some after) (imported : ImportedAs a accountId kind version digest run) :
    ImportedAs after accountId kind version digest run := by
  have same : ∀ {b : Archive}, b.importRuns = a.importRuns → ImportedAs b accountId kind version digest run := by
    intro b runs
    have rows : b.importRuns.rows = a.importRuns.rows ++ [] := by rw [runs,List.append_nil]
    exact existingAppend rows imported
  cases t with
  | page c page =>
    obtain ⟨contents,db,_,_,rfl⟩ := pageForm ok
    exact same rfl
  | sync c =>
    simp only [Transaction.effect] at ok
    split at ok
    · simp at ok
    · obtain ⟨db,_,rfl⟩ := Option.map_eq_some_iff.mp ok
      exact same rfl
  | importBatch batch approval verified now =>
    obtain ⟨⟨_,outcome⟩,persisted,rfl⟩ := Option.map_eq_some_iff.mp ok
    obtain ⟨_,_,_,⟨_,_,rfl,_⟩ | ⟨_,_,_,runs,_⟩⟩ := importForm (Outcome.accepted persisted)
    · exact imported
    · exact existingAppend runs imported

end Runs

section Again
variable {config : Config}

theorem importedStep {w a w' accountId kind version digest run} (taken : step config w a = some w')
    (imported : ImportedAs w.archive accountId kind version digest run) :
    ImportedAs w'.archive accountId kind version digest run := by
  cases a with
  | archive t =>
    obtain ⟨archive,ok,rfl⟩ := Option.map_eq_some_iff.mp taken
    exact importedTransaction ok imported
  | shadowReport account importRunId snapshotId =>
    obtain ⟨⟨_,outcome⟩,ok,rfl⟩ := Option.map_eq_some_iff.mp taken
    rcases reportCases (Outcome.accepted ok) with rfl | ⟨archive,_⟩
    · exact imported
    · rw [archive]
      exact imported
  | checklist account shadowReportId now =>
    obtain ⟨⟨_,outcome⟩,ok,rfl⟩ := Option.map_eq_some_iff.mp taken
    rw [checklistForm (Outcome.accepted ok)]
    unfold supersedeApprovalsForNewReport
    rw [supersedeForm]
    exact imported
  | decide request =>
    simp only [step] at taken
    split at taken
    · obtain ⟨⟨_,outcome⟩,ok,rfl⟩ := Option.map_eq_some_iff.mp taken
      rcases decideCases (Outcome.accepted ok) with rfl | ⟨_,_,_,_,_,inserted,_,insertion,rfl⟩
      · exact imported
      · have archive : (markReport inserted request).archive = w.archive := by
          refine (insertedApproval insertion).2.2.1.trans ?_
          unfold supersedeCurrentApprovals
          rw [supersedeForm]
        rw [archive]
        exact imported
    · simp at taken

/- What happens between two imports: a step of the archive or of its review, or what record_result
of compliance.rs finds of a post. -/
inductive Deed where
  | review (label : Label)
  | revalidated (providerId : String) (seen : ComplianceAvailability)

def perform (config : Config) (w : Review) : Deed → Option Review
  | .review label => step config w label
  | .revalidated providerId seen => some {w with archive := {w.archive with
      contents := w.archive.contents.update (fun c => c.providerId = providerId)
        (fun c => {c with availability := postAvailability seen}) (fun _ => rfl)}}

theorem importedDeed {w w' accountId kind version digest run} {deed : Deed} (taken : perform config w deed = some w')
    (imported : ImportedAs w.archive accountId kind version digest run) :
    ImportedAs w'.archive accountId kind version digest run := by
  cases deed with
  | review label => exact importedStep taken imported
  | revalidated providerId seen =>
    cases Option.some.inj taken
    exact imported

/- An eligible account whose source was imported gets the run of that import, and no row changes. -/
theorem importedAgain {h : Holdings} {batch : PreflightBatch} {approval verified now kind version run}
    (resolved : sourceDatabaseIdentity batch = .ok (kind,version))
    (eligible : validateImportAccount h.archive approval verified = .ok ())
    (imported : ImportedAs h.archive approval.accountId kind version batch.sourceDigest run) :
    importInto config.sha256 h batch approval verified now = (h,.ok ⟨run.id,run.counts,true⟩) := by
  have persisted : persistImport config.sha256 h.archive batch approval verified now =
      .ok (h.archive,⟨run.id,run.counts,true⟩) := by
    simp [persistImport,eligible,resolved,imported.1,imported.2,bind,Except.bind]
  simp [importInto,persisted]

/- The first import of a source counts each record once and leaves one evidence item for it;
after any run of the archive and its review, importing the source for the account again returns
the same run and counts and writes nothing; a failed import writes nothing; and no import
changes a table besides the posts, the import runs and their items. -/
theorem importIdempotent (config : Config) {w : Review} {sources outbox batch approval verified now after outcome}
    (first : freshSource w.archive batch approval = true)
    (imported : importInto config.sha256 ⟨w.archive,sources,outbox⟩ batch approval verified now = (after,.ok outcome)) :
    (outcome.reused = false ∧ total outcome.counts = rowCount batch ∧
      ∃ items, List.Forall₂ (ItemOf config.sha256 outcome.runId) batch.records items ∧
        after.archive.importItems.rows = w.archive.importItems.rows ++ items) ∧
    (∀ deeds w', Run (perform config) free {w with archive := after.archive} deeds w' →
      ∀ (h : Holdings) (batch' : PreflightBatch) (approval' : OwnershipApproval) verified' now',
        h.archive = w'.archive → sourceDatabaseIdentity batch' = sourceDatabaseIdentity batch →
        batch'.sourceDigest = batch.sourceDigest → approval'.accountId = approval.accountId →
        validateImportAccount w'.archive approval' verified' = .ok () →
          importInto config.sha256 h batch' approval' verified' now' = (h,.ok ⟨outcome.runId,outcome.counts,true⟩)) ∧
    ∀ (h : Holdings) batch' approval' verified' now',
      (∀ error, (importInto config.sha256 h batch' approval' verified' now').2 = .error error →
        (importInto config.sha256 h batch' approval' verified' now').1 = h) ∧
      Frames.Agree [.posts] h.archive.db (importInto config.sha256 h batch' approval' verified' now').1.archive.db ∧
      (importInto config.sha256 h batch' approval' verified' now').1.sources = h.sources ∧
      (importInto config.sha256 h batch' approval' verified' now').1.outbox = h.outbox := by
  unfold importInto at imported
  split at imported
  swap
  · simp at imported
  rename_i archive outcome' persisted
  obtain ⟨rfl,same⟩ := Prod.mk.inj imported
  cases Except.ok.inj same
  obtain ⟨kind,version,resolved,form⟩ := importForm persisted
  have none : existingImport w.archive approval.accountId kind version batch.sourceDigest = none := by
    simpa [freshSource,resolved] using first
  rcases form with ⟨run,found,_⟩ | ⟨_,unreused,counted,runs,items,itemsOf,rows⟩
  · simp [found] at none
  refine ⟨⟨unreused,counted,items,itemsOf,rows⟩,?_,?_⟩
  · intro deeds w' run h batch' approval' verified' now' holds source digest account eligible
    have appended : ImportedAs archive approval.accountId kind version batch.sourceDigest
        (importRow outcome.runId batch approval kind version outcome.counts now) := by
      refine ⟨?_,rfl⟩
      unfold existingImport at none ⊢
      rw [runs,List.find?_append,none]
      simp [sameSource,importRow]
    have still := run.preserves (fun w => ImportedAs w.archive approval.accountId kind version batch.sourceDigest _)
      (fun s deed t kept _ taken => importedDeed taken kept) appended
    rw [← account,← digest,← holds] at still
    rw [← holds] at eligible
    exact importedAgain (source.trans resolved) eligible still
  · intro h batch' approval' verified' now'
    unfold importInto
    split
    · rename_i left outcome' persisted'
      exact ⟨by simp,importFrame persisted',rfl,rfl⟩
    · exact ⟨by simp,.refl _ _,rfl,rfl⟩

end Again

section Sample
open Dominance (importSha256 emptyArchive importInstant sampleRecord officialPage)

def importConfig : Config := ⟨importSha256,fun _ => []⟩

def connectedReview : Review :=
  unreviewed {emptyArchive with db := {Database.empty with accounts := .single ⟨1,7,.connected⟩}}

def savedRows : PreflightBatch :=
  ⟨.monolithBookmarkMetadataCsv,.monolithBookmarkMetadata,
    "c918233cadb99d0f3f878ec5b9d81b634b7c092bc9bd2570940d0e48d33b2871",
    [sampleRecord "row-1" "Legacy text" "afd7220ec6f5ae52c2e841479e5893aa1dd1b0fdb5f77232937ac8e16f5dd8b8",
      {sampleRecord "row-2" "Later legacy text" "fe5ef245514a4973f67981ed6ef6d5bc60b2d289f2da152eff9cffa49df586ab" with
        providerPostId := some "43"}]⟩

def savedApproval : OwnershipApproval :=
  ⟨1,7,savedRows.sourceDigest,"9deb65b8788f41ff94a217842017db2f843954fc0eb46110835903908e5a265f"⟩

def connectedHoldings : Holdings := ⟨connectedReview.archive,fun _ => none,[]⟩

/- A page shows one of the two posts, which is then found deleted. -/
def pagedAndDeleted : List Deed :=
  [.review (.archive (.sync (.createRun 1))),
    .review (.archive (.page (.stagePage ⟨1,1,1,none⟩ ⟨some ["42"],none⟩ importInstant 0) (officialPage "Official text"))),
    .revalidated "42" .deleted]

theorem importIdempotentDeleted : ∃ after w' outcome,
    importInto importSha256 connectedHoldings savedRows savedApproval "user-1" importInstant = (after,.ok outcome) ∧
      total outcome.counts = rowCount savedRows ∧
      Run (perform importConfig) free {connectedReview with archive := after.archive} pagedAndDeleted w' ∧
      (w'.archive.contents.find "42").map PostContent.availability = some .deleted ∧
      importInto importSha256 ⟨w'.archive,after.sources,after.outbox⟩ savedRows savedApproval "user-1" importInstant =
        (⟨w'.archive,after.sources,after.outbox⟩,.ok ⟨outcome.runId,outcome.counts,true⟩) := by
  have fresh : freshSource connectedReview.archive savedRows savedApproval = true := by rfl
  have answer : (importInto importSha256 connectedHoldings savedRows savedApproval "user-1" importInstant).2 =
      .ok ⟨1,⟨2,0,0,0,0,0⟩,false⟩ := by decide +kernel
  have between : (replay (perform importConfig) free {connectedReview with
      archive := (importInto importSha256 connectedHoldings savedRows savedApproval "user-1" importInstant).1.archive}
      pagedAndDeleted).map (fun w => (decide (validateImportAccount w.archive savedApproval "user-1" = .ok ()),
        (w.archive.contents.find "42").map PostContent.availability)) = some (true,some .deleted) := by decide +kernel
  generalize imported : importInto importSha256 connectedHoldings savedRows savedApproval "user-1" importInstant = both at answer between
  obtain ⟨after,outcome⟩ := both
  cases answer
  obtain ⟨w',ran,shown⟩ := Option.map_eq_some_iff.mp between
  obtain ⟨eligible,deleted⟩ := Prod.mk.inj shown
  obtain ⟨first,again,_⟩ := importIdempotent importConfig fresh imported
  have run := replayRun ran
  exact ⟨after,w',_,rfl,first.2.1,run,deleted,
    again pagedAndDeleted w' run _ savedRows savedApproval _ _ rfl rfl rfl rfl (of_decide_eq_true eligible)⟩

end Sample
end RatatoskrX.Reimports
