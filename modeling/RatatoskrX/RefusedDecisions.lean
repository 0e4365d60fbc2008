import RatatoskrX.Reviewability

/-! What a refused decision leaves behind. The checklist's transaction supersedes the decisions
on other reports and commits before the call compares digests, owner and target. -/
namespace RatatoskrX.RefusedDecisions
open Relational Schema Snapshot Contents LegacyImport LegacyTransition Reviewability

/- The supersession times of the decisions and the review states of the reports. -/
def SameReview (w after : Review) : Prop :=
  (∀ id, (after.approvals.find id).map ApprovalRow.supersededAt = (w.approvals.find id).map ApprovalRow.supersededAt) ∧
    ∀ id, (after.shadowReports.find id).map ReportRow.reviewState = (w.shadowReports.find id).map ReportRow.reviewState

def WellFormed (request : TransitionApprovalRequest) : Prop :=
  validSha256 request.ownerEvidenceDigest = true ∧ validSha256 request.checklistDigest = true

/- The report has a checklist: it is the account's, and its snapshot is the authoritative one. -/
def Listable (w : Review) (accountId shadowReportId : Uuid) : Prop :=
  ∃ source, checklistSource w accountId shadowReportId = some source ∧
    currentAuthoritative w.archive.db accountId source.1.report.snapshotId = true

def OtherStands (w : Review) (accountId shadowReportId : Uuid) : Prop :=
  ∃ a ∈ w.approvals.rows, otherCurrent accountId shadowReportId a = true

section Refusal
variable {config : Config} {w : Review}

theorem sameRefl (w : Review) : SameReview w w := ⟨fun _ => rfl,fun _ => rfl⟩

theorem listableIff {accountId shadowReportId now} :
    Listable w accountId shadowReportId ↔
      ∃ after outcome, checklistFor config w accountId shadowReportId now = .ok (after,outcome) := by
  unfold checklistFor
  constructor
  · rintro ⟨⟨row,run⟩,source,current⟩
    simp [source,current]
  · rintro ⟨after,outcome,ok⟩
    split at ok
    · simp at ok
    rename_i row run source
    split at ok
    · simp at ok
    · rename_i current
      exact ⟨_,source,by simpa using current⟩

theorem supersedeSame {accountId : Uuid} {stale : ApprovalRow → Bool} (t : DateTime)
    (current : ∀ a, stale a = true → a.current = true) :
    SameReview w (supersede w accountId stale t) ↔ ∀ a ∈ w.approvals.rows, stale a = false := by
  constructor
  · intro same a member
    by_contra loud
    have hit : stale a = true := by simpa using loud
    have times := same.1 a.id
    rw [supersedeForm] at times
    simp only [Table.findUpdate,Table.findMem member,Option.map_some,if_pos hit,Option.some.injEq] at times
    have standing := current a hit
    simp [← times] at standing
  · intro quiet
    have none : (w.approvals.rows.filter stale).map (fun a => a.request.shadowReportId) = [] := by
      rw [List.map_eq_nil_iff,List.filter_eq_nil_iff]
      intro a member
      simp [quiet a member]
    simp only [supersede,none,List.isEmpty_nil,if_true]
    exact sameRefl w

theorem refusedCases {request now after error}
    (refused : recordTransitionApproval config w request now = (after,.error error)) :
    (after = w ∧ ¬(WellFormed request ∧ Listable w request.accountId request.shadowReportId)) ∨
      (after = supersedeApprovalsForNewReport w request.accountId request.shadowReportId now ∧ WellFormed request ∧
        Listable w request.accountId request.shadowReportId) := by
  unfold recordTransitionApproval at refused
  split at refused
  · rename_i malformed
    refine .inl ⟨(Prod.mk.inj refused).1.symm,?_⟩
    rintro ⟨⟨owner,checklist⟩,_⟩
    simp [owner,checklist] at malformed
  rename_i formed
  have wellFormed : WellFormed request := by simpa [WellFormed] using formed
  split at refused
  · rename_i unlisted
    refine .inl ⟨(Prod.mk.inj refused).1.symm,?_⟩
    rintro ⟨_,listable⟩
    have accepted : ∃ listed outcome, checklistFor config w request.accountId request.shadowReportId now =
        .ok (listed,outcome) := listableIff.mp listable
    obtain ⟨_,_,ok⟩ := accepted
    simp [ok] at unlisted
  rename_i checked checklist listing
  have listable : Listable w request.accountId request.shadowReportId := listableIff.mpr ⟨_,_,listing⟩
  have form := checklistForm listing
  right
  split at refused
  · exact ⟨(Prod.mk.inj refused).1.symm.trans form,wellFormed,listable⟩
  split at refused
  · exact ⟨(Prod.mk.inj refused).1.symm.trans form,wellFormed,listable⟩
  · simp at refused

/- A refused call leaves the review as it was, unless it reached a checklist that supersedes a
decision on another report. -/
theorem refusedLeavesReview {request now after error}
    (refused : recordTransitionApproval config w request now = (after,.error error)) :
    SameReview w after ↔ ¬(WellFormed request ∧ Listable w request.accountId request.shadowReportId ∧
      OtherStands w request.accountId request.shadowReportId) := by
  rcases refusedCases refused with ⟨rfl,unlisted⟩ | ⟨rfl,wellFormed,listable⟩
  · simp only [sameRefl,true_iff]
    rintro ⟨wellFormed,listable,_⟩
    exact unlisted ⟨wellFormed,listable⟩
  · unfold supersedeApprovalsForNewReport
    rw [supersedeSame now (fun a loud => (withinOther loud).1)]
    simp [wellFormed,listable,OtherStands]

end Refusal

section Sample
open Dominance (emptyArchive importInstant)

def importRun (id : Uuid) (sourceDigest : Digest) : ImportRun :=
  ⟨id,1,.monolithBookmarkMetadataCsv,1,sourceDigest,1,
    "9deb65b8788f41ff94a217842017db2f843954fc0eb46110835903908e5a265f",.completed,⟨0,1,0,0,0,0⟩,some importInstant⟩

def comparison (id importRunId : Uuid) (reportDigest : Digest) (reviewState : ReviewState) : ReportRow :=
  ⟨id,⟨1,1,importRunId,1,"796d6bec26cf67a0157aef541cdfd9dc842785e449f6a938e454c801e2c2c56e",
    "2c37293dc342e710bcc368b70db023a307077afadf397825ec5297b503bea543",[],⟨0,0,0,0,0,0⟩⟩,reportDigest,reviewState⟩

def ownerEvidence : Digest := "610143df814675a1c79c4b23dc2bb47f08030cd4de581b93f2a6028c57cce27d"

def firstChecklist : Digest := "72812099e4a48410892a2eb947c6e81b4c8eab111af6ce5da55d0f5519317eb5"

/- Two imports compared with the authoritative snapshot, the first comparison approved. -/
def approvedFirst : Review where
  archive := {emptyArchive with
    db := {Database.empty with
      accounts := .single ⟨1,7,.connected⟩
      syncRuns := ⟨[⟨1,1,.full,.completed,none,1,1,1,0,0,some importInstant⟩],by decide⟩
      snapshots := ⟨[⟨1,1,none,true,some importInstant,1⟩],by decide⟩
      snapshotAuthority := ⟨[⟨1,1,importInstant⟩],by decide⟩}
    importRuns := ⟨[importRun 1 "cb127ef08dd0a5c916f05daf5b2bfb484410f36f89a2e1a29b616d12ef50cab3",
      importRun 2 "eded2b850e3953f0c1d5910a1439ddc270ad07c8b13072359b0da26ec32a783e"],by decide⟩}
  shadowReports := ⟨[comparison 1 1 "259504cb1a6a6ebaf0c31ad14eca63b14e6b34e7017eaedeec3b9f5b2fdecfd6" .reviewable,
    comparison 2 2 "4568437f50f4fba02636d5b089556984a0544019977a130c7fdc2fce24bb4fa0" .ownerReviewRequired],by decide⟩
  approvals := ⟨[⟨1,⟨1,7,1,firstChecklist,ownerEvidence,.approved,importInstant⟩,none⟩],by decide⟩

/- A decision on the second comparison, with the checklist of the first. -/
def mismatched : TransitionApprovalRequest := ⟨1,7,2,firstChecklist,ownerEvidence,.approved,importInstant⟩

/- SHA-256 of the checklist of the second comparison. -/
def secondConfig : Config :=
  ⟨fun _ => [68,124,37,216,81,84,139,243,244,20,91,225,76,10,65,237,16,88,150,111,23,110,60,253,117,253,7,113,220,190,38,
    18],fun _ => []⟩

theorem mismatchedRefused : (recordTransitionApproval secondConfig approvedFirst mismatched importInstant).2 =
    .error .checklistDigestMismatch := by rfl

theorem refusedLeavesReviewMismatched : ∃ after,
    recordTransitionApproval secondConfig approvedFirst mismatched importInstant = (after,.error .checklistDigestMismatch) ∧
      (SameReview approvedFirst after ↔ ¬(WellFormed mismatched ∧ Listable approvedFirst 1 2 ∧ OtherStands approvedFirst 1 2)) :=
  ⟨_,Prod.ext rfl mismatchedRefused,refusedLeavesReview (Prod.ext rfl mismatchedRefused)⟩

/- The approval of the first comparison is superseded by the refused decision on the second. -/
theorem refusedSupersedes : ¬∀ (config : Config) (w : Review) (request : TransitionApprovalRequest) (now : DateTime)
    (after : Review) (error : LegacyTransitionError),
    recordTransitionApproval config w request now = (after,.error error) → SameReview w after := by
  intro claim
  have same := claim secondConfig approvedFirst mismatched importInstant _ _ (Prod.ext rfl mismatchedRefused)
  have times : ((recordTransitionApproval secondConfig approvedFirst mismatched importInstant).1.approvals.find 1).map
      ApprovalRow.supersededAt ≠ (approvedFirst.approvals.find 1).map ApprovalRow.supersededAt := by decide +kernel
  exact times (same.1 1)

end Sample
end RatatoskrX.RefusedDecisions
