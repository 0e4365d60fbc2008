import RatatoskrX.CaptureSteps

/-! Explicit capture reports exactly once. A command has one row at most, its intake
report is committed with the row, and its terminal report with the row's outcome. -/
namespace RatatoskrX.CaptureReports
open Schema Envelopes ReadCommitted Transition Capture CaptureCommits CaptureSteps

def reports (outbox : List Envelope) (command : Uuid) : List Report :=
  outbox.filterMap (fun e => match e.payload with
    | .operationReported _ report => if e.causation = some (.command command) then some report else none
    | _ => none)

theorem reportsAppend (xs ys : List Envelope) (command) : reports (xs ++ ys) command = reports xs command ++ reports ys command :=
  List.filterMap_append

theorem reportsEnvelope (id owner operation captureId commandId report command) :
    reports [reportEnvelope id owner operation captureId commandId report] command =
      if commandId = command then [report] else [] := by
  by_cases same : commandId = command <;> simp [reports,reportEnvelope,same]

inductive Answers (row : ExplicitCapture) : List Report → Prop where
  | refused (named : row.providerPostId = none) (ended : row.status = .unavailable) (reported : row.reportedAt ≠ none) :
      Answers row [.unavailable .inaccessible]
  | queued (named : row.providerPostId ≠ none) (unreported : Lane.Open row) : Answers row [.queued]
  | preserved {source} (named : row.providerPostId ≠ none) (ended : row.status = .resolved)
      (reported : row.reportedAt ≠ none) (told : row.socialSourceId = some source) :
      Answers row [.queued,.preserved source]
  | unavailable {reason} (named : row.providerPostId ≠ none) (ended : row.status = .unavailable)
      (reported : row.reportedAt ≠ none) : Answers row [.queued,.unavailable reason]

def Told (captures : Uuid → Option ExplicitCapture) (e : Envelope) : Prop :=
  ∀ operation report, e.payload = .operationReported operation report → ∃ row, captures row.captureId = some row ∧
    e = reportEnvelope e.id row.owner row.operationId row.captureId row.commandId report

structure Reported (a : Archive) : Prop where
  keyed : ∀ id row, a.captures id = some row → row.captureId = id
  single : ∀ id other row row', a.captures id = some row → a.captures other = some row' →
    row.commandId = row'.commandId → id = other
  silent : ∀ command, (∀ id row, a.captures id = some row → row.commandId ≠ command) → reports a.outbox command = []
  answers : ∀ id row, a.captures id = some row → Answers row (reports a.outbox row.commandId)
  told : ∀ e ∈ a.outbox, Told a.captures e

/- A snapshot tells what the source of an owner's post is now. -/
def Describes (owner : Uuid) (post : String) (source : ExplicitSource) (snapshot : SocialSourceSnapshot) : Prop :=
  snapshot.socialSourceId = source.socialSourceId ∧ snapshot.owner = owner ∧ snapshot.externalPostId = post ∧
    snapshot.contentDigest = source.currentContentDigest ∧ snapshot.capturedAt = source.capturedAt

/- What the end of a capture does to the source of its pair, the social events that tell it, and the report. -/
inductive Settled (row row' : ExplicitCapture) (post : String) :
    Option ExplicitSource → Option ExplicitSource → List Envelope → Report → Prop where
  | kept {source} (ended : row'.status = .resolved) (named : row'.socialSourceId = some source.socialSourceId) :
      Settled row row' post (some source) (some source) [] (.preserved source.socialSourceId)
  | captured {source id snapshot} (ended : row'.status = .resolved)
      (named : row'.socialSourceId = some source.socialSourceId)
      (own : source.owner = row.owner ∧ source.providerPostId = post) (tells : Describes row.owner post source snapshot) :
      Settled row row' post none (some source) [sourceEvent id row.owner .captured snapshot]
        (.preserved source.socialSourceId)
  | updated {before source id snapshot} (ended : row'.status = .resolved)
      (named : row'.socialSourceId = some source.socialSourceId)
      (same : source.socialSourceId = before.socialSourceId)
      (differs : source.currentContentDigest ≠ before.currentContentDigest)
      (tells : Describes row.owner post source snapshot) :
      Settled row row' post (some before) (some source) [sourceEvent id row.owner .updated snapshot]
        (.preserved source.socialSourceId)
  | unavailable {source reason} (ended : row'.status = .unavailable) (absent : reason = .deleted → source = none) :
      Settled row row' post source source [] (.unavailable reason)
  | removed {source id removedAt} (ended : row'.status = .unavailable) :
      Settled row row' post (some source) none
        [removedEvent id source.socialSourceId row.owner (.capture row.captureId) removedAt] (.unavailable .deleted)

section Steps
variable {contract : Contract} {a : Archive}

theorem answersIntake (intake : Intake) (captureId now) :
    Answers (intake.row captureId now) [intake.report] := by
  cases post : intake.post with
  | none =>
    simp only [Intake.report,post]
    exact .refused post (by simp [Intake.row,post]) (by simp [Intake.row,post])
  | some status =>
    simp only [Intake.report,post]
    exact .queued (by simp [Intake.row,post]) (by simp [Lane.Open,Intake.row,post])

theorem answersScheduled {row rs} (attempts nextAttemptAt) (answers : Answers row rs) :
    Answers {row with attempts := attempts, nextAttemptAt := nextAttemptAt} rs := by
  cases answers with
  | refused named ended reported => exact .refused named ended reported
  | queued named unreported => exact .queued named unreported
  | preserved named ended reported told => exact .preserved named ended reported told
  | unavailable named ended reported => exact .unavailable named ended reported

theorem reportedScheduled {captures} (reported : Reported a)
    (same : ∀ id, captures id = a.captures id ∨ ∃ row attempts nextAttemptAt, a.captures id = some row ∧
      Lane.Open row ∧ captures id = some {row with attempts := attempts, nextAttemptAt := nextAttemptAt}) :
    Reported {a with captures := captures} := by
  have before : ∀ {id row}, captures id = some row → ∃ row' attempts nextAttemptAt, a.captures id = some row' ∧
      row = {row' with attempts := attempts, nextAttemptAt := nextAttemptAt} := by
    intro id row there
    rcases same id with stays | ⟨row',attempts,nextAttemptAt,there',_,written⟩
    · exact ⟨row,row.attempts,row.nextAttemptAt,stays ▸ there,rfl⟩
    · rw [written] at there
      exact ⟨row',attempts,nextAttemptAt,there',(Option.some.inj there).symm⟩
  have after : ∀ {id row}, a.captures id = some row → ∃ attempts nextAttemptAt,
      captures id = some {row with attempts := attempts, nextAttemptAt := nextAttemptAt} := by
    intro id row there
    rcases same id with stays | ⟨row',attempts,nextAttemptAt,there',_,written⟩
    · exact ⟨row.attempts,row.nextAttemptAt,stays.trans there⟩
    · rw [there] at there'
      cases Option.some.inj there'
      exact ⟨attempts,nextAttemptAt,written⟩
  refine ⟨?_,?_,?_,?_,?_⟩
  · intro id row there
    obtain ⟨row',_,_,there',rfl⟩ := before there
    exact reported.keyed id row' there'
  · intro id other left right there there' command
    obtain ⟨left',_,_,leftThere,rfl⟩ := before there
    obtain ⟨right',_,_,rightThere,rfl⟩ := before there'
    exact reported.single id other left' right' leftThere rightThere command
  · intro command none
    refine reported.silent command ?_
    intro id row there
    obtain ⟨attempts,nextAttemptAt,there'⟩ := after there
    exact none id {row with attempts := attempts, nextAttemptAt := nextAttemptAt} there'
  · intro id row there
    obtain ⟨row',attempts,nextAttemptAt,there',rfl⟩ := before there
    exact answersScheduled attempts nextAttemptAt (reported.answers id row' there')
  · intro e member operation report payload
    obtain ⟨row,there,form⟩ := reported.told e member operation report payload
    obtain ⟨attempts,nextAttemptAt,there'⟩ := after there
    exact ⟨{row with attempts := attempts, nextAttemptAt := nextAttemptAt},there',form⟩

theorem reportedAccepted {intake captureId id now} (reported : Reported a) (absent : a.captures captureId = none)
    (first : ∀ other row, a.captures other = some row → row.commandId ≠ intake.commandId) :
    Reported {a with
      captures := Function.update a.captures captureId (some (Intake.row intake captureId now))
      outbox := a.outbox ++
        [reportEnvelope id intake.owner intake.operationId captureId intake.commandId intake.report]} := by
  have either : ∀ {other row}, Function.update a.captures captureId (some (intake.row captureId now)) other = some row →
      other = captureId ∧ row = intake.row captureId now ∨ a.captures other = some row := by
    exact fun there => (updatedCases there).imp_right And.right
  have older : ∀ {other row}, a.captures other = some row →
      Function.update a.captures captureId (some (intake.row captureId now)) other = some row := by
    intro other row there
    rw [Function.update_of_ne]
    · exact there
    · rintro rfl
      rw [absent] at there
      cases there
  refine ⟨?_,?_,?_,?_,?_⟩
  · intro other row there
    rcases either there with ⟨rfl,rfl⟩ | old
    · rfl
    · exact reported.keyed other row old
  · intro left right row row' there there' command
    rcases either there with ⟨rfl,rfl⟩ | old
    · rcases either there' with ⟨rfl,rfl⟩ | old'
      · rfl
      · exact absurd command.symm (first right row' old')
    · rcases either there' with ⟨rfl,rfl⟩ | old'
      · exact absurd command (first left row old)
      · exact reported.single left right row row' old old' command
  · intro command none
    have apart : intake.commandId ≠ command := none captureId _ (Function.update_self ..)
    simp only [reportsAppend,reportsEnvelope,if_neg apart,List.append_nil]
    exact reported.silent command (fun other row there => none other row (older there))
  · intro other row there
    simp only [reportsAppend,reportsEnvelope]
    rcases either there with ⟨rfl,rfl⟩ | old
    · have silent : reports a.outbox intake.commandId = [] := reported.silent _ first
      rw [show (intake.row other now).commandId = intake.commandId from rfl,silent,if_pos rfl,List.nil_append]
      exact answersIntake intake other now
    · rw [if_neg (Ne.symm (first other row old)),List.append_nil]
      exact reported.answers other row old
  · intro e member operation report payload
    rcases List.mem_append.mp member with old | new
    · obtain ⟨row,there,form⟩ := reported.told e old operation report payload
      exact ⟨row,older there,form⟩
    · cases List.mem_singleton.mp new
      simp only [reportEnvelope,Payload.operationReported.injEq] at payload
      obtain ⟨rfl,rfl⟩ := payload
      exact ⟨intake.row captureId now,Function.update_self ..,rfl⟩

theorem outcomeSettled {capture row source row' after queued}
    (outcome : Outcome contract capture row source row' after queued) (names : Names row capture) :
    ∃ social id report, queued = social ++ [Lane.report capture id report] ∧
      Settled row row' capture.providerPostId source after social report := by
  obtain ⟨captureId,_,_,owner,_,_⟩ := names.columns
  cases outcome with
  | @unavailable source failure now id absent =>
    refine ⟨[],id,_,rfl,.unavailable rfl ?_⟩
    intro deleted
    refine absent ?_
    cases failure <;> first | rfl | cases deleted
  | @removed source now removedAt id id' =>
    rw [← owner,← captureId]
    exact ⟨[_],id',_,rfl,.removed rfl⟩
  | @preserved source sourceId after queued now id publishes =>
    refine ⟨queued,id,_,rfl,?_⟩
    cases publishes with
    | unchanged same => exact .kept rfl rfl
    | captured own built =>
      rw [← owner]
      obtain ⟨minted,theirs,named,content,time⟩ := snapshotFields built
      exact .captured rfl rfl ⟨rfl,rfl⟩ ⟨minted,theirs.trans owner.symm,named.trans own,content,time⟩
    | updated own differs built =>
      rw [← owner]
      obtain ⟨minted,theirs,named,content,time⟩ := snapshotFields built
      exact .updated rfl rfl rfl differs.symm ⟨minted,theirs.trans owner.symm,named.trans own,content,time⟩

theorem settledReport {row row' post before after social report} (settled : Settled row row' post before after social report) :
    (∀ e ∈ social, sourceOf e ≠ none) ∧ (∀ command, reports social command = []) ∧ (social = [] ↔ after = before) ∧
      (row'.status = .resolved ∧ (∃ s, row'.socialSourceId = some s ∧ report = .preserved s) ∨
        row'.status = .unavailable ∧ ∃ reason, report = .unavailable reason) := by
  cases settled with
  | kept ended named => exact ⟨by simp,by simp [reports],by simp,.inl ⟨ended,_,named,rfl⟩⟩
  | captured ended named own tells =>
    exact ⟨by simp [sourceOf,sourceEvent],by simp [reports,sourceEvent],by simp,.inl ⟨ended,_,named,rfl⟩⟩
  | updated ended named same differs tells =>
    refine ⟨by simp [sourceOf,sourceEvent],by simp [reports,sourceEvent],?_,.inl ⟨ended,_,named,rfl⟩⟩
    simp only [List.cons_ne_nil,false_iff,Option.some.injEq]
    exact fun unchanged => differs (congrArg ExplicitSource.currentContentDigest unchanged)
  | unavailable ended absent => exact ⟨by simp,by simp [reports],by simp,.inr ⟨ended,_,rfl⟩⟩
  | removed ended =>
    exact ⟨by simp [sourceOf,removedEvent],by simp [reports,removedEvent],by simp,.inr ⟨ended,_,rfl⟩⟩

theorem outcomeColumns {capture row source row' after queued}
    (outcome : Outcome contract capture row source row' after queued) :
    row'.captureId = row.captureId ∧ row'.commandId = row.commandId ∧ row'.operationId = row.operationId ∧
      row'.owner = row.owner ∧ row'.providerPostId = row.providerPostId := by
  cases outcome <;> exact ⟨rfl,rfl,rfl,rfl,rfl⟩

theorem reportedResolved {capture row row' source queued} (reported : Reported a)
    (found : a.captures capture.captureId = some row) (names : Names row capture) (unreported : Lane.Open row)
    (outcome : Outcome contract capture row (a.sources capture.pair) row' source queued) :
    Reported ⟨Function.update a.captures capture.captureId (some row'),Function.update a.sources capture.pair source,
      a.outbox ++ queued⟩ := by
  obtain ⟨sameId,sameCommand,sameOperation,sameOwner,samePost⟩ := outcomeColumns outcome
  obtain ⟨social,id,report,rfl,settled⟩ := outcomeSettled outcome names
  obtain ⟨about,quiet,_,ended⟩ := settledReport settled
  obtain ⟨captureId,command,operation,owner,posted,_⟩ := names.columns
  have told := (outcomeRow outcome).2.2.2.1
  -- Every row has the identity it had before.
  have before : ∀ {other row''}, Function.update a.captures capture.captureId (some row') other = some row'' →
      ∃ old, a.captures other = some old ∧ row''.captureId = old.captureId ∧ row''.commandId = old.commandId := by
    intro other row'' there
    rcases updatedCases there with ⟨rfl,rfl⟩ | ⟨_,old⟩
    · exact ⟨row,found,sameId,sameCommand⟩
    · exact ⟨row'',old,rfl,rfl⟩
  have queuedReports : ∀ other, reports (a.outbox ++ (social ++ [Lane.report capture id report])) other =
      reports a.outbox other ++ if capture.commandId = other then [report] else [] := by
    intro other
    simp only [reportsAppend,quiet,List.nil_append,Lane.report,reportsEnvelope]
  refine ⟨?_,?_,?_,?_,?_⟩
  · intro other row'' there
    obtain ⟨old,there',same,_⟩ := before there
    rw [same]
    exact reported.keyed other old there'
  · intro left right leftRow rightRow there there' same
    obtain ⟨left',leftThere,_,leftCommand⟩ := before there
    obtain ⟨right',rightThere,_,rightCommand⟩ := before there'
    rw [leftCommand,rightCommand] at same
    exact reported.single left right left' right' leftThere rightThere same
  · intro other none
    have apart : capture.commandId ≠ other := by
      rw [← command,← sameCommand]
      exact none capture.captureId row' (Function.update_self ..)
    rw [queuedReports,if_neg apart,List.append_nil]
    refine reported.silent other ?_
    intro left row'' there
    by_cases same : left = capture.captureId
    · subst same
      rw [found] at there
      cases Option.some.inj there
      exact command ▸ apart
    · exact none left row'' ((Function.update_of_ne same ..).trans there)
  · intro other row'' there
    dsimp only at there ⊢
    rw [queuedReports]
    by_cases same : other = capture.captureId
    · subst same
      rw [Function.update_self] at there
      cases Option.some.inj there
      have answers := reported.answers _ row found
      rw [sameCommand,command,if_pos rfl]
      rw [command] at answers
      have named : row.providerPostId ≠ none := by simp [posted]
      generalize reports a.outbox capture.commandId = told' at answers ⊢
      cases answers with
      | queued _ _ =>
        rcases ended with ⟨resolved,s,kept,rfl⟩ | ⟨unavailable,reason,rfl⟩
        · exact .preserved (samePost ▸ named) resolved told kept
        · exact .unavailable (samePost ▸ named) unavailable told
      | refused absent _ _ => exact absurd absent named
      | preserved _ _ settled _ => exact absurd unreported.2 settled
      | unavailable _ _ settled => exact absurd unreported.2 settled
    · rw [Function.update_of_ne same] at there
      have apart : capture.commandId ≠ row''.commandId := by
        intro equal
        exact same (reported.single other _ row'' row there found (equal.symm.trans command.symm))
      rw [if_neg apart,List.append_nil]
      exact reported.answers other row'' there
  · intro e member operation' report' payload
    rcases List.mem_append.mp member with old | new
    · obtain ⟨old',there,form⟩ := reported.told e old operation' report' payload
      by_cases same : old'.captureId = capture.captureId
      · rw [same,found] at there
        cases Option.some.inj there
        refine ⟨row',?_,?_⟩
        · rw [sameId,captureId]
          exact Function.update_self ..
        · rw [sameOwner,sameOperation,sameId,sameCommand]
          exact form
      · exact ⟨old',(Function.update_of_ne same ..).trans there,form⟩
    · rcases List.mem_append.mp new with fact | last
      · have social := about e fact
        simp [sourceOf,payload] at social
      · cases List.mem_singleton.mp last
        refine ⟨row',?_,?_⟩
        · rw [sameId,captureId]
          exact Function.update_self ..
        · simp only [Lane.report,reportEnvelope,Payload.operationReported.injEq] at payload
          obtain ⟨rfl,rfl⟩ := payload
          rw [sameOwner,sameOperation,sameId,sameCommand,owner,operation,captureId,command]
          rfl

theorem reportedCommit {who b} (reported : Reported a) (commit : Commit contract a who b) : Reported b := by
  cases commit with
  | quiet => exact reported
  | scheduled same => exact reportedScheduled reported same
  | accepted absent first => exact reportedAccepted reported absent first
  | resolved found names unreported outcome fresh => exact reportedResolved reported found names unreported outcome

end Steps

/- One step of the committed rows as a whole: it reports nothing and ends no capture; or it
stores one capture with its intake report; or it ends one open capture with its terminal
report, together with the source of the capture's pair and the social events that tell what became of it. -/
def Whole (a b : Archive) : Prop :=
  (b.outbox = a.outbox ∧ b.sources = a.sources ∧ ∀ id,
      (b.captures id).map (fun row => (row.commandId,row.status,row.reportedAt)) =
        (a.captures id).map (fun row => (row.commandId,row.status,row.reportedAt))) ∨
  (∃ row report id, a.captures row.captureId = none ∧
      b.captures = Function.update a.captures row.captureId (some row) ∧ b.sources = a.sources ∧
      b.outbox = a.outbox ++ [reportEnvelope id row.owner row.operationId row.captureId row.commandId report] ∧
      Answers row [report]) ∨
  ∃ row row' post source social report id, a.captures row.captureId = some row ∧ Lane.Open row ∧
    row.providerPostId = some post ∧ row'.status ≠ .accepted ∧ row'.reportedAt ≠ none ∧ report.terminal = true ∧
    b.captures = Function.update a.captures row.captureId (some row') ∧
    b.sources = Function.update a.sources (row.owner,post) source ∧
    b.outbox = a.outbox ++ social ++ [reportEnvelope id row.owner row.operationId row.captureId row.commandId report] ∧
    (∀ e ∈ social, sourceOf e ≠ none) ∧ (social = [] ↔ source = a.sources (row.owner,post)) ∧
    Settled row row' post (a.sources (row.owner,post)) source social report

theorem wholeCommit {contract : Contract} {who} {a b : Archive} (commit : Commit contract a who b) : Whole a b := by
  cases commit with
  | quiet => exact .inl ⟨rfl,rfl,fun _ => rfl⟩
  | @scheduled who captures same =>
    refine .inl ⟨rfl,rfl,?_⟩
    intro id
    rcases same id with stays | ⟨row,attempts,nextAttemptAt,there,_,written⟩
    · simp only [stays]
    · simp only [written,there,Option.map_some]
  | @accepted who intake captureId id now absent first =>
    refine .inr (.inl ⟨intake.row captureId now,intake.report,id,absent,rfl,rfl,rfl,?_⟩)
    exact answersIntake intake captureId now
  | @resolved capture row row' source queued found names unreported outcome fresh =>
    obtain ⟨social,id,report,rfl,settled⟩ := outcomeSettled outcome names
    obtain ⟨about,_,written,ended⟩ := settledReport settled
    obtain ⟨captureId,command,operation,owner,posted,_⟩ := names.columns
    obtain ⟨_,_,finished,told,_⟩ := outcomeRow outcome
    refine .inr (.inr ⟨row,row',capture.providerPostId,source,social,report,id,?_,unreported,posted,finished,told,?_,
      ?_,?_,?_,about,?_,?_⟩)
    · rw [captureId]
      exact found
    · rcases ended with ⟨_,_,_,rfl⟩ | ⟨_,_,rfl⟩ <;> rfl
    · rw [captureId]
    · rw [owner]
    · rw [captureId,command,operation,owner,List.append_assoc]
      rfl
    · rw [owner]
      exact written
    · rw [owner]
      exact settled

section Runs
variable {d : Deployment} {labels : List Action} {w : Lane}

theorem reportedRun (run : Run (Lane.step d) free Lane.empty labels w) : Reported (archive w) := by
  refine archiveRun Reported ?_ (fun who a b => reportedCommit) run
  exact ⟨by simp [archive,Lane.empty,Store.empty],by simp [archive,Lane.empty,Store.empty],
    by simp [archive,Lane.empty,reports],by simp [archive,Lane.empty,Store.empty],by simp [archive,Lane.empty]⟩

theorem answersCounts {row rs} (answers : Answers row rs) :
    (row.providerPostId.isSome → (rs.filter (fun r => r = .queued)).length = 1) ∧
      (row.providerPostId = none → rs = [.unavailable .inaccessible]) ∧ (rs.filter Report.terminal).length ≤ 1 ∧
      (row.status ≠ .accepted ↔ row.reportedAt.isSome) ∧
      (row.reportedAt.isSome ↔ (rs.filter Report.terminal).length = 1) := by
  cases answers with
  | refused named ended reported =>
    simp [named,ended,List.filter_cons,Report.terminal,Option.isSome_iff_ne_none.mpr reported]
  | queued named unreported =>
    obtain ⟨accepted,absent⟩ := unreported
    simp [named,accepted,absent,Report.terminal]
  | preserved named ended reported told =>
    simp [named,ended,List.filter_cons,Report.terminal,Option.isSome_iff_ne_none.mpr reported]
  | unavailable named ended reported =>
    simp [named,ended,List.filter_cons,Report.terminal,Option.isSome_iff_ne_none.mpr reported]

theorem captureExactlyOnce (d : Deployment) (labels : List Action) (w : Lane)
    (run : Run (Lane.step d) free Lane.empty labels w) :
    (∀ id other row row', w.captures.committed id = some row → w.captures.committed other = some row' →
      row.commandId = row'.commandId → id = other) ∧
    (∀ command, (∀ id row, w.captures.committed id = some row → row.commandId ≠ command) →
      reports w.outbox command = []) ∧
    (∀ id row, w.captures.committed id = some row →
      (row.providerPostId.isSome → ((reports w.outbox row.commandId).filter (fun r => r = .queued)).length = 1) ∧
      (row.providerPostId = none → reports w.outbox row.commandId = [.unavailable .inaccessible]) ∧
      ((reports w.outbox row.commandId).filter Report.terminal).length ≤ 1 ∧
      (row.status ≠ .accepted ↔ row.reportedAt.isSome) ∧
      (row.reportedAt.isSome ↔ ((reports w.outbox row.commandId).filter Report.terminal).length = 1)) ∧
    (∀ e ∈ w.outbox, Told w.captures.committed e) ∧
    ∀ p a q, Passes (Lane.step d) free Lane.empty labels w p a q → Whole (archive p) (archive q) := by
  have reported := reportedRun run
  refine ⟨reported.single,reported.silent,?_,reported.told,?_⟩
  · intro id row there
    exact answersCounts (reported.answers id row there)
  · intro p a q passes
    exact wholeCommit (passCommit passes)

end Runs

/- A command delivered twice, and two workers that hold the same capture after its lease
ran out: the first preserves the post, the second finds it deleted and commits nothing. -/
def twice : List Action :=
  let command : CommandEnvelope :=
    ⟨7,some 1,some ⟨.x,.browserExtension,.explicitUserCapture,5,"https://x.com/a/status/42",some ⟨0,DateTime.epochRepresentable⟩⟩⟩
  let post : PublicPost := ⟨"42",⟨"9",none,none⟩,"text",none,none,[]⟩
  let now : Reply := .ok ⟨0,DateTime.epochRepresentable⟩
  [.deliver command,.deliver command,.advance 0 now,.advance 0 now,.advance 0 now,.advance 1 now,.launch ⟨3,10⟩,
    .launch ⟨3,10⟩,.advance 2 (.rows [0] ⟨0,DateTime.epochRepresentable⟩),.advance 3 (.rows [0] ⟨120000000,by decide⟩),
    .advance 2 (.answer (.ok post)),.advance 3 (.answer (.error .deleted)),.advance 2 now,.advance 2 now,.advance 2 now,
    .advance 2 now,.advance 2 now,.advance 3 now,.advance 3 now,.advance 3 now]

def plain : Deployment := ⟨⟨fun semantic => semantic.text,fun _ => true⟩,fun owner post => owner + post.length⟩

def twiceEnd : Lane := (replay (Lane.step plain) free Lane.empty twice).get (by decide +kernel)

theorem captureExactlyOnceAtTwice :
    reports twiceEnd.outbox 7 = [.queued,.preserved 2] ∧
      ((reports twiceEnd.outbox 7).filter Report.terminal).length ≤ 1 := by
  have run : Run (Lane.step plain) free Lane.empty twice twiceEnd := replayRun (Option.some_get _).symm
  obtain ⟨row,there,command⟩ : ∃ row, twiceEnd.captures.committed 0 = some row ∧ row.commandId = 7 :=
    ⟨(twiceEnd.captures.committed 0).get (by decide +kernel),(Option.some_get _).symm,by decide +kernel⟩
  have counts := (captureExactlyOnce plain twice twiceEnd run).2.2.1 0 row there
  rw [command] at counts
  exact ⟨by decide +kernel,counts.2.2.1⟩

end RatatoskrX.CaptureReports
