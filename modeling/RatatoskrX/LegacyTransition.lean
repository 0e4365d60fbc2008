import RatatoskrX.LegacyImport

/-! The owner's review of a legacy transition: shadow reports that compare an import with a
complete official snapshot, the checklist of a report, and the decision on it. A decision is
two transactions, the checklist's and its own. -/
namespace RatatoskrX.LegacyTransition
open Relational Schema Snapshot Writeback Contents LegacyImport

inductive ShadowDiffClass where
  | matched | urlMatched | legacyOnly | officialOnly | identityConflict | unmapped
  deriving DecidableEq, Repr

structure ShadowDiff where
  diffClass : ShadowDiffClass
  providerPostId : Option String
  legacyRecordDigest : Option Digest
  contentChanged : Bool
  legacyCategoryPresent : Bool
  legacyFolderPresent : Bool
  deriving DecidableEq, Repr

structure ShadowSummary where
  matched : Nat
  urlMatched : Nat
  legacyOnly : Nat
  officialOnly : Nat
  identityConflicts : Nat
  unmapped : Nat
  deriving DecidableEq, Repr

structure ShadowReport where
  reportVersion : Int
  accountId : Uuid
  importRunId : Uuid
  snapshotId : Uuid
  importDigest : Digest
  snapshotDigest : Digest
  entries : List ShadowDiff
  summary : ShadowSummary
  deriving DecidableEq, Repr

inductive ReviewState where | ownerReviewRequired | reviewable
  deriving DecidableEq, Repr

structure ReportRow where
  id : Uuid
  report : ShadowReport
  reportDigest : Digest
  reviewState : ReviewState
  deriving DecidableEq, Repr

inductive ApprovalDecision where | approved | rejected
  deriving DecidableEq, Repr

structure TransitionApprovalRequest where
  accountId : Uuid
  internalOwnerId : Uuid
  shadowReportId : Uuid
  checklistDigest : Digest
  ownerEvidenceDigest : Digest
  decision : ApprovalDecision
  decidedAt : DateTime
  deriving DecidableEq, Repr

structure ApprovalRow where
  id : Uuid
  request : TransitionApprovalRequest
  supersededAt : Option DateTime
  deriving DecidableEq, Repr

structure Review where
  archive : Archive
  shadowReports : Table ReportRow ReportRow.id
  approvals : Table ApprovalRow ApprovalRow.id

/- SHA-256, and the JSON text of a report. -/
structure Config where
  sha256 : List UInt8 → List UInt8
  reportJson : ShadowReport → List UInt8

section Shadow
variable (config : Config)

def classRank : ShadowDiffClass → Nat
  | .matched => 0
  | .urlMatched => 1
  | .legacyOnly => 2
  | .officialOnly => 3
  | .identityConflict => 4
  | .unmapped => 5

def optionBefore : Option String → Option String → Bool
  | none,_ => true
  | some _,none => false
  | some a,some b => a ≤ b

def entryBefore (left right : ShadowDiff) : Bool :=
  if left.diffClass ≠ right.diffClass then classRank left.diffClass ≤ classRank right.diffClass
  else if left.providerPostId ≠ right.providerPostId then optionBefore left.providerPostId right.providerPostId
  else optionBefore left.legacyRecordDigest right.legacyRecordDigest

def officialText (officialRows : List (String × String)) (providerPostId : String) : Option String :=
  (officialRows.reverse.find? (fun row => row.1 = providerPostId)).map Prod.snd

def classifyLegacy (officialRows : List (String × String)) (legacy : ImportItem) :
    Option (ShadowDiff × Option String) :=
  let categoryPresent := !legacy.legacyCategoryMetadata.isEmpty
  let folderPresent := !legacy.legacyFolderMetadata.isEmpty
  let digest := some legacy.sourceRowDigest
  match legacy.resolution with
  | .identityConflict => some (⟨.identityConflict,legacy.providerPostId,digest,false,categoryPresent,folderPresent⟩,none)
  | .unmapped => some (⟨.unmapped,none,digest,false,categoryPresent,folderPresent⟩,none)
  | .providerPost | .urlDerivedPost => do
    let providerPostId ← legacy.providerPostId
    match officialText officialRows providerPostId with
    | some text =>
      some (⟨if legacy.resolution = .urlDerivedPost then .urlMatched else .matched,some providerPostId,digest,
        legacy.contentDigest.any (fun d => d ≠ sha256Hex config.sha256 (utf8 text)),categoryPresent,folderPresent⟩,
        some providerPostId)
    | none => some (⟨.legacyOnly,some providerPostId,digest,false,categoryPresent,folderPresent⟩,none)

def officialOnly (providerPostId : String) : ShadowDiff := ⟨.officialOnly,some providerPostId,none,false,false,false⟩

def classifyShadowEntries (legacyRows : List ImportItem) (officialRows : List (String × String)) :
    Option (List ShadowDiff) := do
  let classified ← legacyRows.mapM (classifyLegacy config officialRows)
  let matchedIds := classified.filterMap Prod.snd
  let ids := ((officialRows.map Prod.fst).dedup).mergeSort (fun a b => a ≤ b)
  let entries := classified.map Prod.fst ++ (ids.filter (fun id => id ∉ matchedIds)).map officialOnly
  some (entries.mergeSort entryBefore)

def shadowCount (entries : List ShadowDiff) (diffClass : ShadowDiffClass) : Nat :=
  (entries.filter (fun entry => entry.diffClass = diffClass)).length

def loadLegacyRows (a : Archive) (importRunId : Uuid) : List ImportItem :=
  (a.importItems.rows.filter (fun item => item.importRunId = importRunId)).mergeSort
    (fun left right => left.sourceRowDigest ≤ right.sourceRowDigest)

def loadOfficialRows (a : Archive) (snapshotId : Uuid) : List (String × String) :=
  ((a.db.itemsOf snapshotId).filterMap (fun item => do
    let post ← a.db.posts.rows.find? (fun p => p.id = item.postId)
    let content ← a.contents.find post.providerId
    some (post.providerId,content.text))).mergeSort (fun left right => left.1 ≤ right.1)

def joinLines (lines : List String) : List UInt8 := utf8 ("\n".intercalate lines)

def buildShadowReport (accountId importRunId snapshotId : Uuid) (legacyRows : List ImportItem)
    (officialRows : List (String × String)) : Option ShadowReport := do
  let entries ← classifyShadowEntries config legacyRows officialRows
  some {
    reportVersion := 1
    accountId := accountId
    importRunId := importRunId
    snapshotId := snapshotId
    importDigest := sha256Hex config.sha256 (joinLines (legacyRows.map ImportItem.sourceRowDigest))
    snapshotDigest := sha256Hex config.sha256 (joinLines (officialRows.map (fun row =>
      row.1 ++ ":" ++ sha256Hex config.sha256 (utf8 row.2))))
    entries := entries
    summary := ⟨shadowCount entries .matched,shadowCount entries .urlMatched,shadowCount entries .legacyOnly,
      shadowCount entries .officialOnly,shadowCount entries .identityConflict,shadowCount entries .unmapped⟩ }

def sameEvidence (report : ShadowReport) (row : ReportRow) : Bool :=
  row.report.accountId = report.accountId && row.report.importRunId = report.importRunId &&
    row.report.snapshotId = report.snapshotId && row.report.importDigest = report.importDigest &&
    row.report.snapshotDigest = report.snapshotDigest

/-- INSERT ... ON CONFLICT DO NOTHING and the select after it; none is a violated constraint or
another digest for the same evidence. -/
def persistShadowReport (w : Review) (report : ShadowReport) : Option (Review × Uuid × Digest × Bool) :=
  let digest := sha256Hex config.sha256 (config.reportJson report)
  match w.shadowReports.rows.find? (sameEvidence report) with
  | some existing => if existing.reportDigest ≠ digest then none else some (w,existing.id,digest,true)
  | none =>
    let id := freshId (w.shadowReports.rows.map ReportRow.id)
    if w.shadowReports.rows.any (fun row => row.report.accountId = report.accountId && row.reportDigest = digest) then none
    else if [report.importDigest,report.snapshotDigest,digest].all validSha256 then
      some ({w with
        shadowReports := w.shadowReports.append ⟨id,report,digest,.ownerReviewRequired⟩ (freshIdAbsent _)},id,digest,false)
    else none

/-- require_current_authoritative_snapshot -/
def currentAuthoritative (db : Database) (accountId snapshotId : Uuid) : Bool :=
  match db.snapshotAuthority.find accountId,db.snapshots.find snapshotId with
  | some authority,some snapshot => match db.syncRuns.find snapshot.syncRunId with
    | none => false
    | some run =>
      authority.snapshotId = snapshotId && run.accountId = accountId && run.runType = .full && run.state = .completed &&
        run.finishedAt.isSome && run.checkpoint.isNone && snapshot.complete && snapshot.completedAt.isSome &&
        snapshot.pageCount = run.pagesFetched
  | _,_ => false

structure ShadowReportOutcome where
  reportId : Uuid
  reportDigest : Digest
  report : ShadowReport
  reused : Bool

def shadowReportFor (w : Review) (accountId importRunId snapshotId : Uuid) :
    Except LegacyTransitionError (Review × ShadowReportOutcome) :=
  let available := w.archive.importRuns.rows.any (fun run =>
    run.id = importRunId && run.accountId = accountId && run.status = .completed)
  if !available then .error .importRunUnavailable
  else if !currentAuthoritative w.archive.db accountId snapshotId then .error .snapshotNotAuthoritative
  else match buildShadowReport config accountId importRunId snapshotId (loadLegacyRows w.archive importRunId)
      (loadOfficialRows w.archive snapshotId) with
  | none => .error .database
  | some report => match persistShadowReport config w report with
    | none => .error .database
    | some (after,reportId,digest,reused) => .ok (after,⟨reportId,digest,report,reused⟩)

end Shadow

section Supersession

abbrev ApprovalRow.current (a : ApprovalRow) : Bool := a.supersededAt.isNone

/-- The update of the stale decisions, and reset_report_reviewability of their reports. -/
def supersede (w : Review) (accountId : Uuid) (stale : ApprovalRow → Bool) (supersededAt : DateTime) : Review :=
  let staleReports := (w.approvals.rows.filter stale).map (fun a => a.request.shadowReportId)
  if staleReports.isEmpty then w
  else {w with
    approvals := w.approvals.update stale (fun a => {a with supersededAt := some supersededAt}) (fun _ => rfl)
    shadowReports := w.shadowReports.update (fun r => r.report.accountId = accountId && r.id ∈ staleReports)
      (fun r => {r with reviewState := .ownerReviewRequired}) (fun _ => rfl)}

def otherCurrent (accountId shadowReportId : Uuid) (a : ApprovalRow) : Bool :=
  a.request.accountId = accountId && a.current && a.request.shadowReportId ≠ shadowReportId

def accountCurrent (accountId : Uuid) (a : ApprovalRow) : Bool := a.request.accountId = accountId && a.current

def supersedeApprovalsForNewReport (w : Review) (accountId shadowReportId : Uuid) (now : DateTime) : Review :=
  supersede w accountId (otherCurrent accountId shadowReportId) now

def supersedeCurrentApprovals (w : Review) (accountId : Uuid) (decidedAt : DateTime) : Review :=
  supersede w accountId (accountCurrent accountId) decidedAt

end Supersession

section Checklist
variable (config : Config)

def checklistMarkdown (row : ReportRow) (counts : ImportCounts) : String :=
  "# Field Theory cutover checklist\n\nAccount: `" ++ uuidText row.report.accountId ++ "`  \nImport run: `" ++
    uuidText row.report.importRunId ++ "`  \nShadow report: `" ++ uuidText row.id ++ "`  \nComplete snapshot: `" ++
    uuidText row.report.snapshotId ++
    "`\n\n## Backup\n\n- [ ] Confirm the read-only legacy archive backup and PostgreSQL backup are retained.\n\n" ++
    "## Import counts\n\n- Inserted: " ++ toString counts.inserted ++ "\n- Matched: " ++ toString counts.matched ++
    "\n- Updated: " ++ toString counts.updated ++ "\n- Conflicted: " ++ toString counts.conflicted ++ "\n- Rejected: " ++
    toString counts.rejected ++ "\n- Unmapped: " ++ toString counts.unmapped ++ "\n- Import digest: `" ++
    row.report.importDigest ++ "`\n\n## Complete official snapshot\n\n- [ ] Confirm snapshot `" ++
    uuidText row.report.snapshotId ++
    "` remains the current complete successful full snapshot.\n- Snapshot digest: `" ++ row.report.snapshotDigest ++
    "`\n\n## Shadow findings\n\n- Provider-ID matched: " ++ toString row.report.summary.matched ++ "\n- URL matched: " ++
    toString row.report.summary.urlMatched ++ "\n- Legacy only: " ++ toString row.report.summary.legacyOnly ++
    "\n- Official only: " ++ toString row.report.summary.officialOnly ++ "\n- Identity conflicts: " ++
    toString row.report.summary.identityConflicts ++ "\n- Unmapped: " ++ toString row.report.summary.unmapped ++
    "\n- Report digest: `" ++ row.reportDigest ++ "`\n\n## Privacy and cost review\n\n" ++
    "- [ ] Confirm no cookies, tokens, sessions, source paths, post bodies, URLs, or handles entered evidence records.\n" ++
    "- [ ] Confirm the official full snapshot cost and rate-limit evidence are accepted.\n\n" ++
    "## Workspace changeset\n\n" ++
    "- [ ] Approve a separate `ratatoskr-workspace` changeset before any external routing change.\n\n" ++
    "## Stability window\n\n- [ ] Record the owner-approved shadow stability window and monitoring owner.\n\n" ++
    "## Rollback\n\n1. Stop the external routing rollout in the workspace changeset.\n" ++
    "2. Restore the previous routing revision; do not delete imported, report, or approval evidence.\n" ++
    "3. Re-run `shadow-report` against the current complete official snapshot before another approval.\n\n" ++
    "## Evidence retention\n\n" ++
    "- [ ] Retain the legacy source unchanged, import run, shadow JSON, this checklist, owner decision evidence, and " ++
    "rollback record.\n"

structure ChecklistOutcome where
  markdown : String
  checklistDigest : Digest
  shadowReportId : Uuid

def checklistSource (w : Review) (accountId shadowReportId : Uuid) : Option (ReportRow × ImportRun) := do
  let row ← w.shadowReports.find shadowReportId
  let run ← w.archive.importRuns.find row.report.importRunId
  if row.report.accountId = accountId ∧ run.accountId = accountId then some (row,run) else none

def checklistOf (row : ReportRow) (run : ImportRun) : ChecklistOutcome :=
  let markdown := checklistMarkdown row run.counts
  ⟨markdown,sha256Hex config.sha256 (utf8 markdown),row.id⟩

/-- checklist_for, one transaction. -/
def checklistFor (w : Review) (accountId shadowReportId : Uuid) (now : DateTime) :
    Except LegacyTransitionError (Review × ChecklistOutcome) :=
  match checklistSource w accountId shadowReportId with
  | none => .error .shadowReportUnavailable
  | some (row,run) =>
    if !currentAuthoritative w.archive.db accountId row.report.snapshotId then .error .snapshotNotAuthoritative
    else .ok (supersedeApprovalsForNewReport w accountId shadowReportId now,checklistOf config row run)

end Checklist

section Decision
variable (config : Config)

structure TransitionApprovalOutcome where
  approvalId : Uuid
  reused : Bool
  deriving DecidableEq, Repr

def sameDecision (request : TransitionApprovalRequest) (a : ApprovalRow) : Bool :=
  a.request.accountId = request.accountId && a.request.shadowReportId = request.shadowReportId &&
    a.request.checklistDigest = request.checklistDigest && a.request.ownerEvidenceDigest = request.ownerEvidenceDigest &&
    a.request.decision = request.decision

/-- The decision that already stands, if the same one was recorded before. -/
def validateApprovalTarget (w : Review) (request : TransitionApprovalRequest) :
    Except LegacyTransitionError (Option Uuid) :=
  if (w.archive.db.accounts.find request.accountId).map Account.internalUserId ≠ some request.internalOwnerId then
    .error .invalidOwnershipApproval
  else match w.shadowReports.rows.find? (fun r => r.id = request.shadowReportId && r.report.accountId = request.accountId) with
  | none => .error .shadowReportUnavailable
  | some row =>
    if !currentAuthoritative w.archive.db request.accountId row.report.snapshotId then .error .snapshotNotAuthoritative
    else match w.approvals.rows.find? (sameDecision request) with
    | none => .ok none
    | some existing => if existing.current then .ok (some existing.id) else .error .checklistDigestMismatch

/- The two unique constraints of the insert; none is a violated one. -/
def insertApproval (w : Review) (request : TransitionApprovalRequest) : Option (Review × Uuid) :=
  let id := freshId (w.approvals.rows.map ApprovalRow.id)
  if w.approvals.rows.any (fun a => sameDecision request a || accountCurrent request.accountId a) then none
  else some ({w with approvals := w.approvals.append ⟨id,request,none⟩ (freshIdAbsent _)},id)

def decidedState : ApprovalDecision → ReviewState
  | .approved => .reviewable
  | .rejected => .ownerReviewRequired

def markReport (w : Review) (request : TransitionApprovalRequest) : Review :=
  {w with
    shadowReports := w.shadowReports.update
      (fun r => r.id = request.shadowReportId && r.report.accountId = request.accountId)
      (fun r => {r with reviewState := decidedState request.decision}) (fun _ => rfl)}

/-- The second transaction of record_transition_approval. -/
def decideTransition (w : Review) (request : TransitionApprovalRequest) :
    Except LegacyTransitionError (Review × TransitionApprovalOutcome) :=
  match validateApprovalTarget w request with
  | .error error => .error error
  | .ok (some approvalId) => .ok (w,⟨approvalId,true⟩)
  | .ok none =>
    match insertApproval (supersedeCurrentApprovals w request.accountId request.decidedAt) request with
    | none => .error .database
    | some (inserted,approvalId) => .ok (markReport inserted request,⟨approvalId,false⟩)

/-- The whole call: what it leaves, which the checklist's transaction may have changed also
where the call fails. -/
def recordTransitionApproval (w : Review) (request : TransitionApprovalRequest) (now : DateTime) :
    Review × Except LegacyTransitionError TransitionApprovalOutcome :=
  if !(validSha256 request.ownerEvidenceDigest && validSha256 request.checklistDigest) then
    (w,.error .checklistDigestMismatch)
  else match checklistFor config w request.accountId request.shadowReportId now with
  | .error error => (w,.error error)
  | .ok (listed,checklist) =>
    if checklist.checklistDigest ≠ request.checklistDigest then (listed,.error .checklistDigestMismatch)
    else match decideTransition listed request with
    | .error error => (listed,.error error)
    | .ok (decided,outcome) => (decided,.ok outcome)

end Decision
end RatatoskrX.LegacyTransition
