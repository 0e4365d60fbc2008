import RatatoskrX.LegacyTransition
import RatatoskrX.Dominance
import RatatoskrX.Registry
import RatatoskrX.Foundation.Transition

/-! Which shadow reports stand reviewable, over every order of imports, shadow reports,
checklists, decisions and snapshot completions. The tables of the review agree with each
other always; with the snapshot authority only until a snapshot completes under an approval. -/
namespace RatatoskrX.Reviewability
open Relational Schema Snapshot Writeback Journal Contents LegacyImport LegacyTransition Transition

inductive Label where
  | archive (transaction : Transaction)
  | shadowReport (accountId importRunId snapshotId : Uuid)
  | checklist (accountId shadowReportId : Uuid) (now : DateTime)
  | decide (request : TransitionApprovalRequest)

section Steps
variable (config : Config)

/- The digests of the request are well formed, and its checklist is the report's. -/
def listed (w : Review) (request : TransitionApprovalRequest) : Bool :=
  validSha256 request.ownerEvidenceDigest && validSha256 request.checklistDigest &&
    (checklistSource w request.accountId request.shadowReportId).any (fun source =>
      (checklistOf config source.1 source.2).checklistDigest = request.checklistDigest)

/- One committed transaction. The two of a recorded decision are steps of their own, between
which others may come; a report and a completed import never change what the checklist says. -/
def step (w : Review) : Label → Option Review
  | .archive transaction => (transaction.effect config.sha256 w.archive).map (fun a => {w with archive := a})
  | .shadowReport accountId importRunId snapshotId =>
    ((shadowReportFor config w accountId importRunId snapshotId).toOption).map Prod.fst
  | .checklist accountId shadowReportId now => ((checklistFor config w accountId shadowReportId now).toOption).map Prod.fst
  | .decide request => if listed config w request then ((decideTransition w request).toOption).map Prod.fst else none

def unreviewed (archive : Archive) : Review := ⟨archive,.empty,.empty⟩

end Steps

section Standing

def Approved (w : Review) (row : ReportRow) : Prop :=
  ∃ a ∈ w.approvals.rows, a.current = true ∧ a.request.accountId = row.report.accountId ∧ a.request.decision = .approved ∧
    a.request.shadowReportId = row.id

def Authoritative (w : Review) (row : ReportRow) : Prop :=
  (w.archive.db.snapshotAuthority.find row.report.accountId).map Authority.snapshotId = some row.report.snapshotId

def SoleDecision (w : Review) : Prop :=
  ∀ a ∈ w.approvals.rows, ∀ b ∈ w.approvals.rows, a.current = true → b.current = true →
    a.request.accountId = b.request.accountId → a = b

/- An account has at most one current decision, and a report is reviewable exactly while that
decision is an approval of it and its snapshot is the authoritative one. -/
structure Reviewed (w : Review) : Prop where
  sole : SoleDecision w
  exactly : ∀ row ∈ w.shadowReports.rows, row.reviewState = .reviewable ↔ Approved w row ∧ Authoritative w row

def Complete (db : Database) (snapshotId : Uuid) : Prop :=
  ∃ s, db.snapshots.find snapshotId = some s ∧ s.complete = true

/- What the tables of the review keep among themselves. -/
structure Kept (w : Review) : Prop where
  sole : SoleDecision w
  decided : ∀ row ∈ w.shadowReports.rows, row.reviewState = .reviewable ↔ Approved w row
  based : ∀ a ∈ w.approvals.rows, ∃ row ∈ w.shadowReports.rows, row.id = a.request.shadowReportId ∧
    row.report.accountId = a.request.accountId ∧ Complete w.archive.db row.report.snapshotId

variable {w : Review}

theorem keptStart (archive : Archive) : Kept (unreviewed archive) :=
  ⟨by simp [SoleDecision,unreviewed,Table.empty],by simp [unreviewed,Table.empty],by simp [unreviewed,Table.empty]⟩

abbrev superseded (t : DateTime) (a : ApprovalRow) : ApprovalRow := {a with supersededAt := some t}

abbrev reset (row : ReportRow) : ReportRow := {row with reviewState := .ownerReviewRequired}

def staleReports (w : Review) (stale : ApprovalRow → Bool) : List Uuid :=
  (w.approvals.rows.filter stale).map (fun a => a.request.shadowReportId)

theorem supersedeForm (w : Review) (accountId : Uuid) (stale : ApprovalRow → Bool) (t : DateTime) :
    supersede w accountId stale t = {w with
      approvals := w.approvals.update stale (superseded t) (fun _ => rfl)
      shadowReports := w.shadowReports.update
        (fun r => r.report.accountId = accountId && r.id ∈ staleReports w stale) reset (fun _ => rfl)} := by
  unfold supersede
  dsimp only
  split
  · rename_i none
    have empty : staleReports w stale = [] := by simpa [staleReports] using none
    have unstale : ∀ a ∈ w.approvals.rows, stale a = false := by
      intro a member
      by_contra loud
      have inside : a.request.shadowReportId ∈ staleReports w stale :=
        List.mem_map.mpr ⟨a,List.mem_filter.mpr ⟨member,by simpa using loud⟩,rfl⟩
      simp [empty] at inside
    have approvals := Table.updateNone w.approvals stale (superseded t) (fun _ => rfl) unstale
    have reports := Table.updateNone w.shadowReports (fun r => r.report.accountId = accountId && r.id ∈ staleReports w stale)
      reset (fun _ => rfl) (by simp [empty])
    rw [approvals,reports]
  · rfl

theorem supersededApproval {accountId stale t a} : a ∈ (supersede w accountId stale t).approvals.rows ↔
    ∃ old ∈ w.approvals.rows, (if stale old = true then superseded t old else old) = a := by
  rw [supersedeForm]
  simp only [Table.update,List.mem_map]

theorem supersededReport {accountId stale t row} : row ∈ (supersede w accountId stale t).shadowReports.rows ↔
    ∃ old ∈ w.shadowReports.rows,
      (if old.report.accountId = accountId ∧ old.id ∈ staleReports w stale then reset old else old) = row := by
  rw [supersedeForm]
  simp only [Table.update,List.mem_map,Bool.and_eq_true,decide_eq_true_eq]

theorem leftCurrent {accountId stale t a} (member : a ∈ (supersede w accountId stale t).approvals.rows)
    (current : a.current = true) : a ∈ w.approvals.rows ∧ stale a = false := by
  obtain ⟨old,inside,rfl⟩ := supersededApproval.mp member
  by_cases loud : stale old = true
  · simp [loud] at current
  · simp only [if_neg loud]
    exact ⟨inside,by simpa using loud⟩

theorem keptSupersede (kept : Kept w) {accountId : Uuid} {stale : ApprovalRow → Bool} (t : DateTime)
    (within : ∀ a, stale a = true → a.current = true ∧ a.request.accountId = accountId) :
    Kept (supersede w accountId stale t) := by
  have approved : ∀ row, Approved (supersede w accountId stale t) row ↔
      ∃ a ∈ w.approvals.rows, stale a = false ∧ a.current = true ∧ a.request.accountId = row.report.accountId ∧
        a.request.decision = .approved ∧ a.request.shadowReportId = row.id := by
    intro row
    constructor
    · rintro ⟨a,member,current,rest⟩
      obtain ⟨inside,quiet⟩ := leftCurrent member current
      exact ⟨a,inside,quiet,current,rest⟩
    · rintro ⟨a,inside,quiet,current,rest⟩
      exact ⟨a,supersededApproval.mpr ⟨a,inside,by simp [quiet]⟩,current,rest⟩
  constructor
  case sole =>
    intro a left b right currentA currentB same
    exact kept.sole a (leftCurrent left currentA).1 b (leftCurrent right currentB).1 currentA currentB same
  case decided =>
    intro row member
    obtain ⟨old,inside,rfl⟩ := supersededReport.mp member
    split
    · rename_i hit
      -- its decision was stale, and no other is current in the account
      obtain ⟨mine,listed⟩ := hit
      obtain ⟨b,filtered,target⟩ := List.mem_map.mp listed
      obtain ⟨there,loud⟩ := List.mem_filter.mp filtered
      rw [approved]
      constructor
      · intro reviewable
        simp at reviewable
      · rintro ⟨a,here,quiet,current,owner,_,_⟩
        obtain ⟨currentB,ownerB⟩ := within b loud
        have same : a = b := kept.sole a here b there current currentB (by rw [ownerB]; exact owner.trans mine)
        rw [same,loud] at quiet
        simp at quiet
    · rename_i missed
      rw [approved,kept.decided old inside]
      constructor
      · rintro ⟨a,here,current,owner,decision,target⟩
        refine ⟨a,here,?_,current,owner,decision,target⟩
        by_contra loud
        have stale' : stale a = true := by simpa using loud
        refine missed ⟨owner.symm.trans (within a stale').2,?_⟩
        exact List.mem_map.mpr ⟨a,List.mem_filter.mpr ⟨here,stale'⟩,target⟩
      · rintro ⟨a,here,_,rest⟩
        exact ⟨a,here,rest⟩
  case based =>
    intro a member
    obtain ⟨old,inside,rfl⟩ := supersededApproval.mp member
    obtain ⟨row,there,target,owner,complete⟩ := kept.based old inside
    have request : (if stale old = true then superseded t old else old).request = old.request := by split <;> rfl
    rw [request]
    refine ⟨_,supersededReport.mpr ⟨row,there,rfl⟩,?_,?_,?_⟩
    · split <;> exact target
    · split <;> exact owner
    · have archive : (supersede w accountId stale t).archive = w.archive := by rw [supersedeForm]
      rw [archive]
      split <;> exact complete

abbrev marked (request : TransitionApprovalRequest) (row : ReportRow) : ReportRow :=
  {row with reviewState := decidedState request.decision}

theorem markedReport {request row} : row ∈ (markReport w request).shadowReports.rows ↔ ∃ old ∈ w.shadowReports.rows,
    (if old.id = request.shadowReportId ∧ old.report.accountId = request.accountId then marked request old else old) = row := by
  simp only [markReport,Table.update,List.mem_map,Bool.and_eq_true,decide_eq_true_eq]

theorem insertedApproval {request inserted approvalId} (ok : insertApproval w request = some (inserted,approvalId)) :
    (∀ a ∈ w.approvals.rows, a.current = true → a.request.accountId ≠ request.accountId) ∧
      inserted.shadowReports = w.shadowReports ∧ inserted.archive = w.archive ∧
      ∀ a, a ∈ inserted.approvals.rows ↔ a ∈ w.approvals.rows ∨ a = ⟨approvalId,request,none⟩ := by
  unfold insertApproval at ok
  dsimp only at ok
  split at ok
  · simp at ok
  rename_i violated
  cases Prod.mk.inj (Option.some.inj ok)
  subst inserted
  subst approvalId
  simp only [List.any_eq_true,Bool.or_eq_true,not_exists,not_and,not_or] at violated
  refine ⟨?_,rfl,rfl,by simp [Table.append]⟩
  intro a member current owner
  have quiet := (violated a member).2
  simp [accountCurrent,current,owner] at quiet

theorem keptDecision (kept : Kept w) {request : TransitionApprovalRequest} {inserted approvalId}
    (ok : insertApproval w request = some (inserted,approvalId))
    (target : ∃ row ∈ w.shadowReports.rows, row.id = request.shadowReportId ∧ row.report.accountId = request.accountId ∧
      Complete w.archive.db row.report.snapshotId) : Kept (markReport inserted request) := by
  obtain ⟨alone,reports,archive,approvals⟩ := insertedApproval ok
  constructor
  case sole =>
    intro a left b right currentA currentB same
    rcases (approvals a).mp left with left | rfl
    · rcases (approvals b).mp right with right | rfl
      · exact kept.sole a left b right currentA currentB same
      · exact absurd same (alone a left currentA)
    · rcases (approvals b).mp right with right | rfl
      · exact absurd same.symm (alone b right currentB)
      · rfl
  case decided =>
    intro row member
    obtain ⟨old,inside,rfl⟩ := markedReport.mp member
    rw [reports] at inside
    split
    · rename_i hit
      -- the account has no other current decision
      constructor
      · intro reviewable
        refine ⟨_,(approvals _).mpr (.inr rfl),rfl,hit.2.symm,?_,hit.1.symm⟩
        cases decision : request.decision with
        | approved => rfl
        | rejected => simp [decidedState,decision] at reviewable
      · rintro ⟨a,there,current,owner,decision,_⟩
        rcases (approvals a).mp there with there | rfl
        · exact absurd (owner.trans hit.2) (alone a there current)
        · have approved : request.decision = .approved := decision
          simp [decidedState,approved]
    · rename_i missed
      rw [kept.decided old inside]
      constructor
      · rintro ⟨a,there,rest⟩
        exact ⟨a,(approvals a).mpr (.inl there),rest⟩
      · rintro ⟨a,there,current,owner,decision,same⟩
        rcases (approvals a).mp there with there | rfl
        · exact ⟨a,there,current,owner,decision,same⟩
        · exact absurd ⟨same.symm,owner.symm⟩ missed
  case based =>
    intro a member
    have stays : ∀ row ∈ w.shadowReports.rows, ∃ row' ∈ (markReport inserted request).shadowReports.rows,
        row'.id = row.id ∧ row'.report = row.report := by
      intro row inside
      refine ⟨_,markedReport.mpr ⟨row,reports ▸ inside,rfl⟩,?_,?_⟩
      · split <;> rfl
      · split <;> rfl
    have same : (markReport inserted request).archive = w.archive := archive
    rw [same]
    rcases (approvals a).mp member with inside | rfl
    · obtain ⟨row,there,target',owner,complete⟩ := kept.based a inside
      obtain ⟨row',there',id,report⟩ := stays row there
      exact ⟨row',there',id.trans target',report ▸ owner,report ▸ complete⟩
    · obtain ⟨row,there,target',owner,complete⟩ := target
      obtain ⟨row',there',id,report⟩ := stays row there
      exact ⟨row',there',id.trans target',report ▸ owner,report ▸ complete⟩

theorem authoritativeComplete {db accountId snapshotId} (current : currentAuthoritative db accountId snapshotId = true) :
    (db.snapshotAuthority.find accountId).map Authority.snapshotId = some snapshotId ∧ Complete db snapshotId := by
  unfold currentAuthoritative at current
  split at current
  · rename_i authority snapshot pointed found
    split at current
    · simp at current
    · simp only [Bool.and_eq_true,decide_eq_true_eq] at current
      exact ⟨by rw [pointed]; exact congrArg some current.1.1.1.1.1.1.1.1,snapshot,found,current.1.1.2⟩
  · simp at current

theorem decideCases {request after outcome} (ok : decideTransition w request = .ok (after,outcome)) :
    (after = w) ∨ ∃ row ∈ w.shadowReports.rows, row.id = request.shadowReportId ∧ row.report.accountId = request.accountId ∧
      currentAuthoritative w.archive.db request.accountId row.report.snapshotId = true ∧ ∃ inserted approvalId,
        insertApproval (supersedeCurrentApprovals w request.accountId request.decidedAt) request = some (inserted,approvalId) ∧
          after = markReport inserted request := by
  unfold decideTransition at ok
  split at ok
  · simp at ok
  · exact .inl (Prod.mk.inj (Except.ok.inj ok)).1.symm
  · rename_i valid
    split at ok
    · simp at ok
    rename_i inserted approvalId insertion
    right
    unfold validateApprovalTarget at valid
    split at valid
    · simp at valid
    split at valid
    · simp at valid
    rename_i row found
    split at valid
    · simp at valid
    rename_i authoritative
    have keyed := List.find?_some found
    simp only [Bool.and_eq_true,decide_eq_true_eq] at keyed
    refine ⟨row,List.mem_of_find?_eq_some found,keyed.1,keyed.2,by simpa using authoritative,inserted,approvalId,insertion,?_⟩
    exact (Prod.mk.inj (Except.ok.inj ok)).1.symm

theorem withinCurrent {accountId a} (loud : accountCurrent accountId a = true) :
    a.current = true ∧ a.request.accountId = accountId := by
  simp only [accountCurrent,Bool.and_eq_true,decide_eq_true_eq] at loud
  exact ⟨loud.2,loud.1⟩

theorem withinOther {accountId shadowReportId a} (loud : otherCurrent accountId shadowReportId a = true) :
    a.current = true ∧ a.request.accountId = accountId := by
  simp only [otherCurrent,Bool.and_eq_true,decide_eq_true_eq] at loud
  exact ⟨loud.1.2,loud.1.1⟩

theorem keptDecide (kept : Kept w) {request after outcome} (ok : decideTransition w request = .ok (after,outcome)) :
    Kept after := by
  rcases decideCases ok with rfl | ⟨row,member,same,owner,current,inserted,approvalId,insertion,rfl⟩
  · exact kept
  · have cleared : Kept (supersede w request.accountId (accountCurrent request.accountId) request.decidedAt) :=
      keptSupersede kept request.decidedAt (fun a loud => withinCurrent loud)
    refine keptDecision cleared insertion ⟨_,supersededReport.mpr ⟨row,member,rfl⟩,?_,?_,?_⟩
    · split <;> exact same
    · split <;> exact owner
    · have archive : (supersede w request.accountId (accountCurrent request.accountId) request.decidedAt).archive =
          w.archive := by rw [supersedeForm]
      rw [archive]
      have complete := (authoritativeComplete current).2
      split <;> exact complete

end Standing

section Steps
variable {config : Config} {w : Review}

/- What shadow_report_for leaves: nothing, or one report that awaits its owner. -/
theorem reportCases {accountId importRunId snapshotId after outcome}
    (ok : shadowReportFor config w accountId importRunId snapshotId = .ok (after,outcome)) :
    after = w ∨ after.archive = w.archive ∧ after.approvals = w.approvals ∧ ∃ row,
      row.id ∉ w.shadowReports.rows.map ReportRow.id ∧ row.reviewState = .ownerReviewRequired ∧
        after.shadowReports.rows = w.shadowReports.rows ++ [row] := by
  unfold shadowReportFor at ok
  dsimp only at ok
  split at ok
  · simp at ok
  split at ok
  · simp at ok
  split at ok
  · simp at ok
  rename_i report _
  split at ok
  · simp at ok
  rename_i persisted
  cases (Prod.mk.inj (Except.ok.inj ok)).1
  unfold persistShadowReport at persisted
  dsimp only at persisted
  split at persisted
  · split at persisted
    · simp at persisted
    · exact .inl (Prod.mk.inj (Option.some.inj persisted)).1.symm
  · split at persisted
    · simp at persisted
    split at persisted
    · cases (Prod.mk.inj (Option.some.inj persisted)).1
      exact .inr ⟨rfl,rfl,_,freshIdAbsent _,rfl,rfl⟩
    · simp at persisted

theorem newUnapproved (kept : Kept w) {row : ReportRow} (fresh : row.id ∉ w.shadowReports.rows.map ReportRow.id) :
    ¬Approved w row := by
  rintro ⟨a,member,_,_,_,target⟩
  obtain ⟨old,inside,same,_⟩ := kept.based a member
  exact fresh (List.mem_map.mpr ⟨old,inside,same.trans target⟩)

theorem keptReport (kept : Kept w) {accountId importRunId snapshotId after outcome}
    (ok : shadowReportFor config w accountId importRunId snapshotId = .ok (after,outcome)) : Kept after := by
  rcases reportCases ok with rfl | ⟨archive,approvals,row,fresh,awaits,rows⟩
  · exact kept
  have approved : ∀ r, Approved after r ↔ Approved w r := by
    intro r
    unfold Approved
    rw [approvals]
  constructor
  case sole =>
    have sole := kept.sole
    unfold SoleDecision at sole ⊢
    rwa [approvals]
  case decided =>
    intro r member
    rw [rows] at member
    rw [approved]
    rcases List.mem_append.mp member with old | new
    · exact kept.decided r old
    · cases List.mem_singleton.mp new
      have unapproved := newUnapproved kept fresh
      simp [awaits,unapproved]
  case based =>
    intro a member
    rw [approvals] at member
    obtain ⟨r,inside,rest⟩ := kept.based a member
    rw [archive,rows]
    exact ⟨r,List.mem_append_left _ inside,rest⟩

theorem commitComplete {c : Commit} {db after} (applied : c.effect db = some after) {snapshotId}
    (complete : Complete db snapshotId) : Complete after snapshotId := by
  obtain ⟨s,found,sealed_⟩ := complete
  obtain ⟨s',found',_,_,moves⟩ := Registry.snapshotAfter applied found
  refine ⟨s',found',?_⟩
  cases c with
  | completeRun account run t | completeFolderRun run t =>
    obtain ⟨pages,rfl⟩ := moves
    split
    · rfl
    · exact sealed_
  | _ =>
    cases moves
    exact sealed_

theorem transactionDb {sha256 : List UInt8 → List UInt8} {t : Transaction} {a after} (ok : t.effect sha256 a = some after) :
    (∃ c, c.effect a.db = some after.db ∧ (t = .sync c ∨ ∃ page, t = .page c page)) ∨ Frames.Agree [.posts] a.db after.db := by
  cases t with
  | page c page =>
    obtain ⟨contents,db,_,applied,rfl⟩ := pageForm ok
    exact .inl ⟨c,applied,.inr ⟨page,rfl⟩⟩
  | sync c =>
    simp only [Transaction.effect] at ok
    split at ok
    · simp at ok
    · obtain ⟨db,applied,rfl⟩ := Option.map_eq_some_iff.mp ok
      exact .inl ⟨c,applied,.inl rfl⟩
  | importBatch batch approval verified now =>
    obtain ⟨⟨_,outcome⟩,persisted,rfl⟩ := Option.map_eq_some_iff.mp ok
    exact .inr (importFrame (Outcome.accepted persisted))

theorem transactionComplete {sha256 : List UInt8 → List UInt8} {t : Transaction} {a after}
    (ok : t.effect sha256 a = some after) {snapshotId} (complete : Complete a.db snapshotId) :
    Complete after.db snapshotId := by
  rcases transactionDb ok with ⟨c,applied,_⟩ | agree
  · exact commitComplete applied complete
  · unfold Complete
    rw [agree.snapshots (by simp)]
    exact complete

theorem keptArchive (kept : Kept w) {archive : Archive}
    (complete : ∀ snapshotId, Complete w.archive.db snapshotId → Complete archive.db snapshotId) :
    Kept {w with archive := archive} where
  sole := kept.sole
  decided := kept.decided
  based := by
    intro a member
    obtain ⟨row,inside,same,owner,sealed_⟩ := kept.based a member
    exact ⟨row,inside,same,owner,complete _ sealed_⟩

theorem checklistForm {accountId shadowReportId now after outcome}
    (ok : checklistFor config w accountId shadowReportId now = .ok (after,outcome)) :
    after = supersedeApprovalsForNewReport w accountId shadowReportId now := by
  unfold checklistFor at ok
  split at ok
  · simp at ok
  split at ok
  · simp at ok
  · exact (Prod.mk.inj (Except.ok.inj ok)).1.symm

theorem resetChecklist (row : ReportRow) (run : ImportRun) : checklistOf config (reset row) run = checklistOf config row run :=
  rfl

theorem sourceSuperseded {accountId shadowReportId row run} (stale : ApprovalRow → Bool) (t : DateTime)
    (source : checklistSource w accountId shadowReportId = some (row,run)) :
    checklistSource (supersede w accountId stale t) accountId shadowReportId = some (row,run) ∨
      checklistSource (supersede w accountId stale t) accountId shadowReportId = some (reset row,run) := by
  simp only [checklistSource,bind,Option.bind_eq_some_iff] at source
  obtain ⟨row',found,run',joined,last⟩ := source
  split at last
  · rename_i owned
    cases Option.some.inj last
    rw [supersedeForm]
    simp only [checklistSource,bind,Table.findUpdate,found,Option.map_some,Option.bind_some]
    split
    · right
      simp only [joined,Option.bind_some,owned,and_self,if_true]
    · left
      simp only [joined,Option.bind_some,owned,and_self,if_true]
  · simp at last

theorem checklistStays {accountId shadowReportId now after outcome}
    (ok : checklistFor config w accountId shadowReportId now = .ok (after,outcome)) :
    (checklistSource after accountId shadowReportId).map (fun source => checklistOf config source.1 source.2) = some outcome := by
  have form := checklistForm ok
  unfold checklistFor at ok
  split at ok
  · simp at ok
  rename_i row run source
  split at ok
  · simp at ok
  have made := (Prod.mk.inj (Except.ok.inj ok)).2
  subst form
  unfold supersedeApprovalsForNewReport
  rcases sourceSuperseded (otherCurrent accountId shadowReportId) now source with same | cleared
  · rw [same,← made]
    rfl
  · rw [cleared,← made,Option.map_some]
    exact congrArg some (resetChecklist row run)

theorem recordedRuns {request now after} {result : Except LegacyTransitionError TransitionApprovalOutcome}
    (recorded : recordTransitionApproval config w request now = (after,result)) :
    ∃ labels, labels <+: [.checklist request.accountId request.shadowReportId now,.decide request] ∧
      Run (step config) free w labels after := by
  unfold recordTransitionApproval at recorded
  split at recorded
  · obtain ⟨rfl,_⟩ := Prod.mk.inj recorded
    exact ⟨[],by simp,.nil w⟩
  rename_i formed
  split at recorded
  · obtain ⟨rfl,_⟩ := Prod.mk.inj recorded
    exact ⟨[],by simp,.nil w⟩
  rename_i checked checklist listing
  have first : step config w (.checklist request.accountId request.shadowReportId now) = some checked := by
    simp [step,listing,Except.toOption]
  have one : Run (step config) free w [.checklist request.accountId request.shadowReportId now] checked :=
    .cons trivial first (.nil checked)
  split at recorded
  · obtain ⟨rfl,_⟩ := Prod.mk.inj recorded
    exact ⟨_,by simp,one⟩
  rename_i same
  split at recorded
  · obtain ⟨rfl,_⟩ := Prod.mk.inj recorded
    exact ⟨_,by simp,one⟩
  rename_i decided outcome deciding
  obtain ⟨last,_⟩ := Prod.mk.inj recorded
  subst last
  have again : listed config checked request = true := by
    obtain ⟨source,found,made⟩ := Option.map_eq_some_iff.mp (checklistStays listing)
    have agrees : (checklistOf config source.1 source.2).checklistDigest = request.checklistDigest := by
      rw [made]
      simpa using same
    have digests : (validSha256 request.ownerEvidenceDigest && validSha256 request.checklistDigest) = true := by
      simpa using formed
    simp only [listed,digests,found,Option.any_some,agrees,decide_true,Bool.and_self]
  have second : step config checked (.decide request) = some decided := by
    simp [step,again,deciding,Except.toOption]
  exact ⟨_,List.prefix_refl _,one.append (.cons trivial second (.nil decided))⟩

theorem keptStep (kept : Kept w) {a w'} (taken : step config w a = some w') : Kept w' := by
  cases a with
  | archive t =>
    obtain ⟨archive,ok,rfl⟩ := Option.map_eq_some_iff.mp taken
    exact keptArchive kept (fun _ => transactionComplete ok)
  | shadowReport accountId importRunId snapshotId =>
    obtain ⟨⟨_,outcome⟩,ok,rfl⟩ := Option.map_eq_some_iff.mp taken
    exact keptReport kept (Outcome.accepted ok)
  | checklist accountId shadowReportId now =>
    obtain ⟨⟨after,outcome⟩,ok,rfl⟩ := Option.map_eq_some_iff.mp taken
    rw [checklistForm (Outcome.accepted ok)]
    exact keptSupersede kept now (fun a loud => withinOther loud)
  | decide request =>
    simp only [step] at taken
    split at taken
    · obtain ⟨⟨_,outcome⟩,ok,rfl⟩ := Option.map_eq_some_iff.mp taken
      exact keptDecide kept (Outcome.accepted ok)
    · simp at taken

theorem keptRun {archive : Archive} {labels} (run : Run (step config) free (unreviewed archive) labels w) : Kept w := by
  refine run.preserves Kept ?_ (keptStart archive)
  intro s a t kept _ taken
  exact keptStep kept taken

end Steps

section Staleness
variable {config : Config} {w : Review}

def ApprovedAccount (w : Review) (accountId : Uuid) : Prop :=
  ∃ a ∈ w.approvals.rows, a.current = true ∧ a.request.accountId = accountId ∧ a.request.decision = .approved

def Standing (w : Review) : Prop := ∀ row ∈ w.shadowReports.rows, Approved w row → Authoritative w row

theorem reviewedIff (kept : Kept w) : Reviewed w ↔ Standing w := by
  constructor
  · intro reviewed row member approved
    exact ((reviewed.exactly row member).mp ((kept.decided row member).mpr approved)).2
  · intro standing
    refine ⟨kept.sole,?_⟩
    intro row member
    rw [kept.decided row member]
    constructor
    · intro approved
      exact ⟨approved,standing row member approved⟩
    · intro both
      exact both.1

/- No snapshot completes for an account whose current decision is an approval. -/
def Undisturbed (w : Review) (a : Label) : Prop :=
  ∀ account run t, a = .archive (.sync (.completeRun account run t)) → ¬ApprovedAccount w account

theorem commitAuthority {c : Commit} {db after} (applied : c.effect db = some after)
    (other : ∀ account run t, c ≠ .completeRun account run t) : after.snapshotAuthority = db.snapshotAuthority := by
  refine (Frames.frame applied).snapshotAuthority ?_
  cases c with
  | completeRun account run t => exact absurd rfl (other account run t)
  | _ => simp [Frames.touched]

theorem standingArchive (standing : Standing w) {t : Transaction} {archive}
    (ok : t.effect config.sha256 w.archive = some archive) (undisturbed : Undisturbed w (.archive t)) :
    Standing {w with archive := archive} := by
  intro row member approved
  have before := standing row member approved
  unfold Authoritative at before ⊢
  have same : archive.db.snapshotAuthority.find row.report.accountId =
      w.archive.db.snapshotAuthority.find row.report.accountId := by
    rcases transactionDb ok with ⟨c,applied,shape⟩ | agree
    · by_cases completes : ∃ account run t, c = .completeRun account run t
      · obtain ⟨account,run,t',rfl⟩ := completes
        rw [Reconciliation.committedAuthority (Outcome.accepted applied)]
        refine if_neg ?_
        rintro rfl
        rcases shape with rfl | ⟨page,rfl⟩
        · obtain ⟨a,inside,current,owner,decision,_⟩ := approved
          exact undisturbed _ run t' rfl ⟨a,inside,current,owner,decision⟩
        · simp [Transaction.effect,persistPage,pageOf] at ok
      · rw [commitAuthority applied (fun account run t same => completes ⟨account,run,t,same⟩)]
    · rw [agree.snapshotAuthority (by simp)]
  rw [same]
  exact before

theorem standingSupersede (standing : Standing w) (accountId stale t) : Standing (supersede w accountId stale t) := by
  intro row member approved
  obtain ⟨old,inside,rfl⟩ := supersededReport.mp member
  obtain ⟨a,there,current,rest⟩ := approved
  have before : Approved w old := by
    refine ⟨a,(leftCurrent there current).1,current,?_⟩
    split at rest <;> exact rest
  have pointed := standing old inside before
  have archive : (supersede w accountId stale t).archive = w.archive := by rw [supersedeForm]
  unfold Authoritative at pointed ⊢
  rw [archive]
  split <;> exact pointed

theorem standingDecide (standing : Standing w) {request after outcome}
    (ok : decideTransition w request = .ok (after,outcome)) : Standing after := by
  rcases decideCases ok with rfl | ⟨target,there,same,owner,current,inserted,approvalId,insertion,rfl⟩
  · exact standing
  have cleared := standingSupersede standing request.accountId (accountCurrent request.accountId) request.decidedAt
  obtain ⟨_,reports,archive,approvals⟩ := insertedApproval insertion
  have archived : (markReport inserted request).archive = w.archive := by
    refine archive.trans ?_
    unfold supersedeCurrentApprovals
    rw [supersedeForm]
  intro row member approved
  obtain ⟨old,inside,rfl⟩ := markedReport.mp member
  rw [reports] at inside
  obtain ⟨a,decided,live,mine,decision,aimed⟩ := approved
  have id : ∀ r : ReportRow, (if r.id = request.shadowReportId ∧ r.report.accountId = request.accountId then
      marked request r else r).id = r.id := by
    intro r
    split <;> rfl
  have report : ∀ r : ReportRow, (if r.id = request.shadowReportId ∧ r.report.accountId = request.accountId then
      marked request r else r).report = r.report := by
    intro r
    split <;> rfl
  rw [id] at aimed
  rw [report] at mine
  unfold Authoritative
  rw [report,archived]
  rcases (approvals a).mp decided with before | rfl
  · have pointed := cleared old inside ⟨a,before,live,mine,decision,aimed⟩
    unfold Authoritative at pointed
    rwa [supersedeForm] at pointed
  · -- the one report of the identity is the one whose snapshot was checked
    obtain ⟨first,found,rfl⟩ := supersededReport.mp inside
    have only : first = target := by
      refine w.shadowReports.sameRow found there ?_
      rw [same]
      refine Eq.trans ?_ aimed.symm
      split <;> rfl
    subst only
    have pointed := (authoritativeComplete current).1
    rw [← owner] at pointed
    split <;> exact pointed

theorem standingStep (kept : Kept w) (standing : Standing w) {a w'} (taken : step config w a = some w')
    (undisturbed : Undisturbed w a) : Standing w' := by
  cases a with
  | archive t =>
    obtain ⟨archive,ok,rfl⟩ := Option.map_eq_some_iff.mp taken
    exact standingArchive standing ok undisturbed
  | shadowReport accountId importRunId snapshotId =>
    obtain ⟨⟨_,outcome⟩,ok,rfl⟩ := Option.map_eq_some_iff.mp taken
    rcases reportCases (Outcome.accepted ok) with rfl | ⟨archive,approvals,row,fresh,_,rows⟩
    · exact standing
    intro r member approved
    have before : Approved w r := by
      unfold Approved at approved ⊢
      rwa [approvals] at approved
    rw [rows] at member
    unfold Authoritative
    rw [archive]
    rcases List.mem_append.mp member with old | new
    · exact standing r old before
    · cases List.mem_singleton.mp new
      exact absurd before (newUnapproved kept fresh)
  | checklist accountId shadowReportId now =>
    obtain ⟨⟨after,outcome⟩,ok,rfl⟩ := Option.map_eq_some_iff.mp taken
    rw [checklistForm (Outcome.accepted ok)]
    exact standingSupersede standing _ _ _
  | decide request =>
    simp only [step] at taken
    split at taken
    · obtain ⟨⟨_,outcome⟩,ok,rfl⟩ := Option.map_eq_some_iff.mp taken
      exact standingDecide standing (Outcome.accepted ok)
    · simp at taken

theorem disturbed (kept : Kept w) {account run t w'}
    (taken : step config w (.archive (.sync (.completeRun account run t))) = some w') (approved : ApprovedAccount w account) :
    ¬Reviewed w' := by
  intro reviewed
  obtain ⟨archive,ok,rfl⟩ := Option.map_eq_some_iff.mp taken
  obtain ⟨a,inside,current,owner,decision⟩ := approved
  obtain ⟨row,member,same,mine,s,found,sealed_⟩ := kept.based a inside
  have stands : Approved w row := ⟨a,inside,current,mine.symm,decision,same.symm⟩
  obtain ⟨_,pointed⟩ := (reviewed.exactly row member).mp ((kept.decided row member).mpr stands)
  simp only [Transaction.effect] at ok
  split at ok
  · simp at ok
  obtain ⟨db,applied,rfl⟩ := Option.map_eq_some_iff.mp ok
  have authority := Reconciliation.committedAuthority (Outcome.accepted applied) account
  rw [if_pos rfl] at authority
  unfold Authoritative at pointed
  dsimp only at pointed
  rw [mine,owner,authority] at pointed
  obtain ⟨s',_,found',_,_,_,incomplete,_⟩ := Reconciliation.committedRows (Outcome.accepted applied)
  have newest : run.snapshotId = row.report.snapshotId := Option.some.inj pointed
  rw [newest,found] at found'
  cases Option.some.inj found'
  simp [sealed_] at incomplete

theorem standingStart (archive : Archive) : Standing (unreviewed archive) := by
  intro row member
  simp [unreviewed,Table.empty] at member

/- In every run the review stands exact in all states reached if and only if no snapshot
completes under an approval of its account. -/
theorem reviewableExactly (config : Config) {archive : Archive} {labels w}
    (run : Run (step config) free (unreviewed archive) labels w) :
    (∀ before after t, labels = before ++ after → Run (step config) free (unreviewed archive) before t → Reviewed t) ↔
      ∀ t account snapshotRun completedAt v, Passes (step config) free (unreviewed archive) labels w t
        (.archive (.sync (.completeRun account snapshotRun completedAt))) v → ¬ApprovedAccount t account := by
  constructor
  · intro reviewed t account snapshotRun completedAt v passes approved
    obtain ⟨before,after,split,first,_,taken,_⟩ := passes
    refine disturbed (keptRun first) taken approved ?_
    refine reviewed (before ++ [_]) after v ?_ (first.append (.cons trivial taken (.nil v)))
    simp [split]
  · intro undisturbed before after t split first
    have guarded : Run (step config) Undisturbed (unreviewed archive) labels w := by
      refine run.meets _ ?_
      rintro t a v passes account snapshotRun completedAt rfl
      exact undisturbed t account snapshotRun completedAt v passes
    rw [split] at guarded
    obtain ⟨t',first',_⟩ := guarded.split
    cases first.unique first'
    have both : Kept t ∧ Standing t := by
      refine first'.preserves (fun w => Kept w ∧ Standing w) ?_ ⟨keptStart archive,standingStart archive⟩
      rintro s a u ⟨kept,standing⟩ meets taken
      exact ⟨keptStep kept taken,standingStep kept standing taken meets⟩
    exact (reviewedIff both.1).mpr both.2

end Staleness
section Sample
open Dominance (importDigests emptyArchive importInstant firstBatch sampleImport officialPage)

def sampleRowDigest : Digest := "0f719b1f3a428a4dd53c61b3bdc5c2ec279c2e6139f160b3bbb8df8e7efdead8"

def sampleReportText : String :=
  "\x7b\"report_version\":1,\"account_id\":\"00000000-0000-0000-0000-000000000001\"," ++
  "\"import_run_id\":\"00000000-0000-0000-0000-000000000001\"," ++
  "\"snapshot_id\":\"00000000-0000-0000-0000-000000000001\"," ++
  "\"import_digest\":\"796d6bec26cf67a0157aef541cdfd9dc842785e449f6a938e454c801e2c2c56e\"," ++
  "\"snapshot_digest\":\"2c37293dc342e710bcc368b70db023a307077afadf397825ec5297b503bea543\"," ++
  "\"entries\":[\x7b\"class\":\"matched\",\"provider_post_id\":\"42\"," ++
  "\"legacy_record_digest\":\"0f719b1f3a428a4dd53c61b3bdc5c2ec279c2e6139f160b3bbb8df8e7efdead8\"," ++
  "\"content_changed\":true,\"legacy_category_present\":false,\"legacy_folder_present\":false\x7d]," ++
  "\"summary\":\x7b\"matched\":1,\"url_matched\":0,\"legacy_only\":0,\"official_only\":0," ++
  "\"identity_conflicts\":0,\"unmapped\":0\x7d\x7d"

/- SHA-256 of the checklist of the sample report. -/
def checklistSha256 : List UInt8 :=
  [114,129,32,153,228,164,132,16,137,42,46,185,71,198,232,27,76,142,171,17,26,246,206,93,165,93,15,85,25,49,126,181]

/- SHA-256 of the other texts that the review of the sample import digests. -/
def reviewDigests : List (List UInt8 × List UInt8) :=
  importDigests ++ [
    (utf8 sampleRowDigest,
      [121,109,107,236,38,207,103,160,21,122,239,84,28,223,217,220,132,39,133,228,73,246,169,56,228,84,200,1,226,194,197,110]),
    (utf8 "Official text",
      [142,128,6,57,141,15,138,186,232,252,161,26,131,36,207,215,154,206,125,171,22,138,89,173,222,164,70,122,156,137,154,180]),
    (utf8 "42:8e8006398d0f8abae8fca11a8324cfd79ace7dab168a59addea4467a9c899ab4",
      [44,55,41,61,195,66,231,16,188,195,104,183,13,176,35,163,7,7,122,250,223,57,120,37,236,82,151,181,3,190,165,67]),
    (utf8 sampleReportText,
      [37,149,4,203,26,106,110,186,240,195,26,209,78,202,99,177,78,107,52,231,1,126,174,222,236,59,159,91,47,222,207,214])]

def reviewSha256 (input : List UInt8) : List UInt8 :=
  ((reviewDigests.find? (fun known => known.1 = input)).map Prod.snd).getD checklistSha256

def sampleConfig : Config := ⟨reviewSha256,fun _ => utf8 sampleReportText⟩

def sampleApproval : TransitionApprovalRequest :=
  ⟨1,7,1,"72812099e4a48410892a2eb947c6e81b4c8eab111af6ce5da55d0f5519317eb5",
    "610143df814675a1c79c4b23dc2bb47f08030cd4de581b93f2a6028c57cce27d",.approved,importInstant⟩

def approvedReview : List Label :=
  [.archive (.sync (.connectAccount ⟨1,7,.connected⟩)),.archive (.sync (.createRun 1)),
    .archive (.page (.stagePage ⟨1,1,1,none⟩ ⟨some ["42"],none⟩ importInstant 0) (officialPage "Official text")),
    .archive (.sync (.completeRun 1 ⟨1,1,1,none⟩ importInstant)),.archive (sampleImport firstBatch),
    .shadowReport 1 1 1,.decide sampleApproval]

def laterSnapshot : List Label :=
  [.archive (.sync (.createRun 1)),
    .archive (.page (.stagePage ⟨2,1,2,none⟩ ⟨some ["42"],none⟩ importInstant 0) (officialPage "Official text")),
    .archive (.sync (.completeRun 1 ⟨2,1,2,none⟩ importInstant))]

theorem approvedRuns : ∃ w v, Run (step sampleConfig) free (unreviewed emptyArchive) approvedReview w ∧
    Run (step sampleConfig) free w laterSnapshot v ∧ (∃ row ∈ w.shadowReports.rows, row.reviewState = .reviewable) ∧
      ∃ row ∈ v.shadowReports.rows, row.reviewState = .reviewable ∧ ¬Authoritative v row := by
  have ends : (replay (step sampleConfig) free (unreviewed emptyArchive) approvedReview).bind (fun w =>
      (replay (step sampleConfig) free w laterSnapshot).map (fun v =>
        w.shadowReports.rows.any (fun row => row.reviewState = .reviewable) &&
          v.shadowReports.rows.any (fun row => row.reviewState = .reviewable &&
            (v.archive.db.snapshotAuthority.find row.report.accountId).map Authority.snapshotId ≠
              some row.report.snapshotId))) = some true := by decide +kernel
  obtain ⟨w,approved,ends⟩ := Option.bind_eq_some_iff.mp ends
  obtain ⟨v,completed,read⟩ := Option.map_eq_some_iff.mp ends
  simp only [Bool.and_eq_true,List.any_eq_true,decide_eq_true_eq] at read
  exact ⟨w,v,replayRun approved,replayRun completed,read.1,read.2⟩

theorem reviewableExactlyApproved : ∃ w, (∃ row ∈ w.shadowReports.rows, row.reviewState = .reviewable) ∧
    ((∀ before after t, approvedReview = before ++ after →
        Run (step sampleConfig) free (unreviewed emptyArchive) before t → Reviewed t) ↔
      ∀ t account snapshotRun completedAt v, Passes (step sampleConfig) free (unreviewed emptyArchive) approvedReview w t
        (.archive (.sync (.completeRun account snapshotRun completedAt))) v → ¬ApprovedAccount t account) := by
  obtain ⟨w,_,ran,_,reviewable,_⟩ := approvedRuns
  exact ⟨w,reviewable,reviewableExactly sampleConfig ran⟩

/- The completion of the second snapshot leaves the approval, and the report reviewable. -/
theorem staleReportStaysReviewable : ¬∀ (config : Config) (archive : Archive) (labels : List Label) (w : Review),
    Run (step config) free (unreviewed archive) labels w → Reviewed w := by
  intro claim
  obtain ⟨w,v,approved,completed,_,row,member,reviewable,stale⟩ := approvedRuns
  have reviewed := claim sampleConfig emptyArchive _ v (approved.append completed)
  exact stale ((reviewed.exactly row member).mp reviewable).2

end Sample
end RatatoskrX.Reviewability
