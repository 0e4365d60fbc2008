import RatatoskrX.Journal

/-! The three synchronization services as programs: one control point for every await
of the source, and what a step from it does under each answer of the environment. The
clock is read where the source reads it; stamp is the length of the log, kept with a
fetched page so that the order of fetches, writes and commits can be spoken of. -/
namespace RatatoskrX.SyncCalls
open Schema Budget Snapshot Incremental Folders Journal

section Charging
variable {π : Type}

/-- budget.reserve(account, 1) -/
def charging (answer : Answer) (gate : BudgetGate) (db : Database) (account : Uuid) (now : DateTime)
    (next : Reservation → π) (refused : BudgetError → π) (lost : Reservation → π) : Option (Step π) :=
  match gate.reserve db account 1 now with
  | .ok (after,reservation) => match answer with
    | .ok => some ⟨after,some (.commit (.charge gate account 1 now)),next reservation⟩
    | .fault => quiet db (refused .persistence)
    | .lost => some ⟨after,some (.commit (.charge gate account 1 now)),lost reservation⟩
    | _ => none
  | .error error => match answer with
    | .ok => quiet db (refused error)
    -- The comparison with the cap comes before any statement.
    | .fault | .lost => quiet db (refused (if gate.requestCapPerWindow < 1 then error else .persistence))
    | _ => none

theorem chargingCases {answer gate db account now} {next lost : Reservation → π} {refused : BudgetError → π} {s}
    (ok : charging answer gate db account now next refused lost = some s) :
    (∃ after reservation, gate.reserve db account 1 now = .ok (after,reservation) ∧
      ((answer = .ok ∧ s = ⟨after,some (.commit (.charge gate account 1 now)),next reservation⟩) ∨
        (answer = .lost ∧ s = ⟨after,some (.commit (.charge gate account 1 now)),lost reservation⟩))) ∨
    (∃ error, s = ⟨db,none,refused error⟩ ∧
      ((answer = .ok ∧ gate.reserve db account 1 now = .error error) ∨ answer = .fault ∨ answer = .lost)) := by
  unfold charging at ok
  split at ok
  · rename_i after reservation reserved
    split at ok
    · exact .inl ⟨after,reservation,reserved,.inl ⟨rfl,(Option.some.inj ok).symm⟩⟩
    · exact .inr ⟨_,quietCases ok,.inr (.inl rfl)⟩
    · exact .inl ⟨after,reservation,reserved,.inr ⟨rfl,(Option.some.inj ok).symm⟩⟩
    · simp at ok
  · rename_i error reserved
    split at ok
    · exact .inr ⟨_,quietCases ok,.inl ⟨rfl,reserved⟩⟩
    · exact .inr ⟨_,quietCases ok,.inr (.inl rfl)⟩
    · exact .inr ⟨_,quietCases ok,.inr (.inr rfl)⟩
    · simp at ok

end Charging

def failure (result : Except SnapshotError Database) : SnapshotError :=
  match result with
  | .error error => error
  | .ok _ => .query

inductive SnapshotOutcome where
  | incomplete (runId : Uuid)
  | completed (runId snapshotId : Uuid)
  deriving DecidableEq, Repr

inductive SnapshotPc where
  | load (resumeRunId : Option Uuid)
  | resume (run : Run)
  | reserve (run : Run)
  | fetch (run : Run)
  | stage (run : Run) (page : BookmarkPage) (observedAt : DateTime) (fetchedAt : Nat)
  | complete (run : Run)
  | finalize (run : Run) (completedAt : DateTime)
  | fail (run : Run) (result : Except SnapshotError SnapshotOutcome)
  | done (result : Except SnapshotError SnapshotOutcome)

structure SnapshotCall where
  accountId : Uuid
  pc : SnapshotPc

def SnapshotPc.next (gate : BudgetGate) (account : Uuid) (db : Database) (now : DateTime) (stamp : Nat)
    (answer : Answer) : SnapshotPc → Option (Step SnapshotPc)
  | .load none =>
    transact db answer (.createRun account)
      (((Snapshot.createRun db account).map Prod.snd).elim (.done (.error .query)) .reserve)
      (.done (.error .query)) (.done (.error .query))
  | .load (some runId) =>
    reading db answer ((Snapshot.findResumable db account runId).elim (.done (.error .runUnavailable)) .resume)
      (.done (.error .query))
  | .resume run =>
    transact db answer (.resumeRun run.id) (.reserve run) (.done (.error .query)) (.done (.error .query))
  | .reserve run =>
    let refused : BudgetError → SnapshotPc
      | .exhausted _ => .fail run (.ok (.incomplete run.id))
      | error => .fail run (.error (.budget error))
    charging answer gate db account now (fun _ => .fetch run) refused (fun _ => refused .persistence)
  | .fetch run => match answer with
    | .page page => quiet db (.stage run page now stamp)
    | .unavailable => quiet db (.fail run (.ok (.incomplete run.id)))
    | _ => none
  | .stage run page observedAt fetchedAt =>
    transact db answer (.stagePage run page observedAt fetchedAt)
      (match page.nextToken with
        | none => .complete {run with checkpoint := none}
        | some token => .reserve {run with checkpoint := some token})
      (.fail run (.error (failure (Snapshot.stagePage db run page observedAt)))) (.fail run (.error .query))
  | .complete run => reading db answer (.finalize run now) (.finalize run now)
  | .finalize run completedAt =>
    -- An error of the completion leaves the run as it is: the source does not mark it failed here.
    transact db answer (.completeRun account run completedAt) (.done (.ok (.completed run.id run.snapshotId)))
      (.done (.error (failure (Snapshot.completeRun db account run completedAt)))) (.done (.error .query))
  | .fail run result =>
    transact db answer (.markFailed run.id now) (.done result) (.done (.error .query)) (.done (.error .query))
  | .done _ => none

def SnapshotPc.commit (gate : BudgetGate) (account : Uuid) (now : DateTime) : SnapshotPc → Option Commit
  | .load none => some (.createRun account)
  | .resume run => some (.resumeRun run.id)
  | .reserve _ => some (.charge gate account 1 now)
  | .stage run page observedAt fetchedAt => some (.stagePage run page observedAt fetchedAt)
  | .finalize run completedAt => some (.completeRun account run completedAt)
  | .fail run _ => some (.markFailed run.id now)
  | .load (some _) | .fetch _ | .complete _ | .done _ => none

structure ScanState where
  watermark : Option String
  runId : Uuid
  continuation : Option String
  newest : Option String
  pagesFetched : UInt32
  requestsMade : UInt32
  deriving DecidableEq, Repr

inductive ScanPc where
  | load
  | create (watermark : Option String)
  | head (state : ScanState)
  | fetch (state : ScanState)
  | stop (runId : Uuid) (outcome : IncrementalResult)
  | compare (state : ScanState) (page : BookmarkPage)
  | observe (state : ScanState) (page : BookmarkPage) (reached : Bool) (observedAt : DateTime)
  | complete (state : ScanState) (completedAt : DateTime)
  | fail (runId : Uuid) (result : Except SnapshotError IncrementalOutcome)
  | done (result : Except SnapshotError IncrementalOutcome)

structure ScanCall where
  accountId : Uuid
  pageCap : UInt32
  requestCap : UInt32
  pc : ScanPc

def ScanPc.next (gate : BudgetGate) (account : Uuid) (pageCap requestCap : UInt32) (db : Database)
    (now : DateTime) (answer : Answer) : ScanPc → Option (Step ScanPc)
  | .load =>
    let state := loadState db account
    reading db answer (if state.2 then .done (.error .runUnavailable) else .create state.1)
      (.done (.error .query))
  | .create watermark =>
    transact db answer (.createScan account)
      (((Incremental.createRun db account).map Prod.snd).elim (.done (.error .query))
        (fun runId => .head ⟨watermark,runId,none,none,0,0⟩))
      (.done (.error .query)) (.done (.error .query))
  | .head state =>
    if pageCap ≤ state.pagesFetched then
      transact db answer (.markGap account state.runId now)
        (.done (.ok (.requiresFullSnapshot state.runId))) (.done (.error .query)) (.done (.error .query))
    else if requestCap ≤ state.requestsMade then
      transact db answer (.stopScan account state.runId .requestCap now)
        (.done (.ok (.incomplete state.runId))) (.done (.error .query)) (.done (.error .query))
    else
      let refused : BudgetError → ScanPc
        | .exhausted _ => .stop state.runId .budgetExhausted
        | error => .fail state.runId (.error (.budget error))
      charging answer gate db account now
        (fun _ => .fetch {state with requestsMade := state.requestsMade + 1}) refused
        (fun _ => refused .persistence)
  | .fetch state => match answer with
    | .page page => quiet db (.compare state page)
    | .unavailable => quiet db (.fail state.runId (.error .runUnavailable))
    | _ => none
  | .compare state page => match page.normalized with
    -- observe_page returns its error through the caller's ?, which does not mark the run failed.
    | none => quiet db (.done (.error .normalize))
    | some _ =>
      reading db answer
        (.observe {state with newest := newestOf state.newest page} page
          (reachedWatermark db account page || state.watermark.isNone) now)
        (.done (.error .query))
  | .observe state page reached observedAt =>
    let counted := {state with pagesFetched := state.pagesFetched + 1, continuation := page.nextToken}
    transact db answer (.observePage account state.runId page observedAt)
      (if reached then .complete counted now
        else if page.nextToken.isNone then .fail state.runId (.error .runUnavailable)
        else .head counted)
      (.done (.error (failure (Incremental.observePage db account state.runId page observedAt))))
      (.done (.error .query))
  | .stop runId outcome =>
    transact db answer (.stopScan account runId outcome now) (.done (.ok (.incomplete runId)))
      (.done (.error .query)) (.done (.error .query))
  | .complete state completedAt =>
    transact db answer (.completeScan state.runId state.newest completedAt)
      (.done (.ok (.completed state.runId state.newest))) (.done (.error .query)) (.done (.error .query))
  | .fail runId result =>
    transact db answer (.markFailed runId now) (.done result) (.done (.error .query)) (.done (.error .query))
  | .done _ => none

def ScanPc.commit (gate : BudgetGate) (account : Uuid) (pageCap requestCap : UInt32) (now : DateTime) :
    ScanPc → Option Commit
  | .create _ => some (.createScan account)
  | .head state =>
    if pageCap ≤ state.pagesFetched then some (.markGap account state.runId now)
    else if requestCap ≤ state.requestsMade then some (.stopScan account state.runId .requestCap now)
    else some (.charge gate account 1 now)
  | .stop runId outcome => some (.stopScan account runId outcome now)
  | .observe state page _ observedAt => some (.observePage account state.runId page observedAt)
  | .complete state completedAt => some (.completeScan state.runId state.newest completedAt)
  | .fail runId _ => some (.markFailed runId now)
  | .load | .fetch _ | .compare .. | .done _ => none

inductive ScanCommits (gate : BudgetGate) (account : Uuid) (pageCap requestCap : UInt32) (now : DateTime) :
    ScanPc → Commit → Prop where
  | create {watermark} : ScanCommits gate account pageCap requestCap now (.create watermark) (.createScan account)
  | gap {state} (capped : pageCap ≤ state.pagesFetched) :
      ScanCommits gate account pageCap requestCap now (.head state) (.markGap account state.runId now)
  | capped {state} (capped : requestCap ≤ state.requestsMade) :
      ScanCommits gate account pageCap requestCap now (.head state) (.stopScan account state.runId .requestCap now)
  | charge {state} : ScanCommits gate account pageCap requestCap now (.head state) (.charge gate account 1 now)
  | stop {runId outcome} :
      ScanCommits gate account pageCap requestCap now (.stop runId outcome) (.stopScan account runId outcome now)
  | observe {state page reached t} :
      ScanCommits gate account pageCap requestCap now (.observe state page reached t) (.observePage account state.runId page t)
  | complete {state t} :
      ScanCommits gate account pageCap requestCap now (.complete state t) (.completeScan state.runId state.newest t)
  | fail {runId result} : ScanCommits gate account pageCap requestCap now (.fail runId result) (.markFailed runId now)

theorem scanCommits {gate account pageCap requestCap now} {pc : ScanPc} {c}
    (stands : pc.commit gate account pageCap requestCap now = some c) :
    ScanCommits gate account pageCap requestCap now pc c := by
  cases pc with
  | head state =>
    simp only [ScanPc.commit] at stands
    split at stands
    · rename_i capped
      cases stands
      exact .gap capped
    · split at stands
      · rename_i capped
        cases stands
        exact .capped capped
      · cases stands
        exact .charge
  | create | stop | observe | complete | fail =>
    cases stands
    constructor
  | load | fetch | compare | done => cases stands

inductive FolderPc where
  | load (resumeRunId : Option Uuid)
  | resume (run : FolderRun)
  | reserve (run : FolderRun)
  | fetch (run : FolderRun)
  | stage (run : FolderRun) (page : BookmarkPage) (observedAt : DateTime)
  | complete (run : FolderRun)
  | finalize (run : FolderRun) (completedAt : DateTime)
  | limit (capability : FolderCapability)
  | limited (runId : Uuid) (capability : FolderCapability)
  | fail (runId : Uuid) (result : Except SnapshotError FolderSnapshotOutcome)
  | done (result : Except SnapshotError FolderSnapshotOutcome)

structure FolderCall where
  accountId : Uuid
  folder : NativeFolder
  pc : FolderPc

/-- FolderSnapshotService::run, and record_capability_limit from its own first point. -/
def FolderPc.next (gate : BudgetGate) (account : Uuid) (folder : NativeFolder) (db : Database) (now : DateTime)
    (answer : Answer) : FolderPc → Option (Step FolderPc)
  | .load none =>
    transact db answer (.createFolderRun account folder)
      (((Folders.createRun db account folder).map Prod.snd).elim (.done (.error .query)) .reserve)
      (.done (.error .query)) (.done (.error .query))
  | .load (some runId) =>
    reading db answer
      ((Folders.findResumable db account runId folder).elim (.done (.error .runUnavailable)) .resume)
      (.done (.error .query))
  | .resume run =>
    transact db answer (.resumeRun run.id) (.reserve run) (.done (.error .query)) (.done (.error .query))
  | .reserve run =>
    let refused : BudgetError → FolderPc
      | .exhausted _ => .fail run.id (.ok (.incomplete run.id))
      | error => .fail run.id (.error (.budget error))
    charging answer gate db account now (fun _ => .fetch run) refused (fun _ => refused .persistence)
  | .fetch run => match answer with
    | .page page => quiet db (.stage run page now)
    | .unavailable => quiet db (.fail run.id (.ok (.incomplete run.id)))
    | .limited capability => quiet db (.limited run.id capability)
    | _ => none
  | .stage run page observedAt =>
    transact db answer (.stageFolderPage run page observedAt)
      (match page.nextToken with
        | none => .complete {run with checkpoint := none}
        | some token => .reserve {run with checkpoint := some token})
      (.fail run.id (.error (failure (Folders.stagePage db run page observedAt)))) (.fail run.id (.error .query))
  | .complete run => reading db answer (.finalize run now) (.finalize run now)
  | .finalize run completedAt =>
    transact db answer (.completeFolderRun run completedAt) (.done (.ok (.completed run.id run.snapshotId)))
      (.done (.error (failure (Folders.completeRun db run completedAt)))) (.done (.error .query))
  | .limit capability =>
    transact db answer (.createLimitRun account capability)
      (.limited (Relational.freshId (db.syncRuns.rows.map SyncRun.id)) capability)
      (.done (.error .query)) (.done (.error .query))
  | .limited runId capability =>
    transact db answer (.markCapabilityLimited runId capability now)
      (.done (.ok (.capabilityLimited runId capability))) (.done (.error .query)) (.done (.error .query))
  | .fail runId result =>
    transact db answer (.markFailed runId now) (.done result) (.done (.error .query)) (.done (.error .query))
  | .done _ => none

def FolderPc.commit (gate : BudgetGate) (account : Uuid) (folder : NativeFolder) (now : DateTime) :
    FolderPc → Option Commit
  | .load none => some (.createFolderRun account folder)
  | .resume run => some (.resumeRun run.id)
  | .reserve _ => some (.charge gate account 1 now)
  | .stage run page observedAt => some (.stageFolderPage run page observedAt)
  | .finalize run completedAt => some (.completeFolderRun run completedAt)
  | .limit capability => some (.createLimitRun account capability)
  | .limited runId capability => some (.markCapabilityLimited runId capability now)
  | .fail runId _ => some (.markFailed runId now)
  | .load (some _) | .fetch _ | .complete _ | .done _ => none

section Issues
variable {π : Type}

/- A step commits nothing, or commits the transaction of its control point. -/
def Issues (db : Database) (c : Option Commit) (answer : Answer) (s : Step π) : Prop :=
  (s.db = db ∧ s.event = none) ∨
  ∃ d, c = some d ∧ s.event = some (.commit d) ∧ d.effect db = some s.db ∧ (answer = .ok ∨ answer = .lost)

theorem issuesQuiet {db c answer} {next : π} {s} (ok : quiet db next = some s) : Issues db c answer s := by
  rw [quietCases ok]
  exact .inl ⟨rfl,rfl⟩

theorem issuesReading {db c answer} {next faulted : π} {s} (ok : reading db answer next faulted = some s) :
    Issues db c answer s := by
  rcases readingCases ok with ⟨_,rfl⟩ | ⟨_,rfl⟩ <;> exact .inl ⟨rfl,rfl⟩

theorem issuesTransact {db answer c} {next refused faulted : π} {s}
    (ok : transact db answer c next refused faulted = some s) : Issues db (some c) answer s := by
  rcases transactCases ok with ⟨after,applied,⟨h,rfl⟩ | ⟨h,rfl⟩⟩ | ⟨_,_,rfl⟩ | ⟨_,rfl⟩
  · exact .inr ⟨c,rfl,rfl,applied,.inl h⟩
  · exact .inr ⟨c,rfl,rfl,applied,.inr h⟩
  · exact .inl ⟨rfl,rfl⟩
  · exact .inl ⟨rfl,rfl⟩

theorem issuesCharging {answer gate db account now} {next lost : Reservation → π} {refused : BudgetError → π} {s}
    (ok : charging answer gate db account now next refused lost = some s) :
    Issues db (some (.charge gate account 1 now)) answer s := by
  rcases chargingCases ok with ⟨after,reservation,reserved,⟨h,rfl⟩ | ⟨h,rfl⟩⟩ | ⟨_,rfl,_⟩
  · exact .inr ⟨_,rfl,rfl,by simp [Commit.effect,reserved,Except.toOption],.inl h⟩
  · exact .inr ⟨_,rfl,rfl,by simp [Commit.effect,reserved,Except.toOption],.inr h⟩
  · exact .inl ⟨rfl,rfl⟩

end Issues

theorem snapshotIssues {gate account db now stamp answer} {pc : SnapshotPc} {s}
    (ok : pc.next gate account db now stamp answer = some s) :
    Issues db (pc.commit gate account now) answer s := by
  cases pc with
  | load resume =>
    cases resume with
    | none =>
      simp only [SnapshotPc.next] at ok
      exact issuesTransact ok
    | some runId =>
      simp only [SnapshotPc.next] at ok
      exact issuesReading ok
  | resume run =>
    simp only [SnapshotPc.next] at ok
    exact issuesTransact ok
  | reserve run =>
    simp only [SnapshotPc.next] at ok
    exact issuesCharging ok
  | fetch run =>
    simp only [SnapshotPc.next] at ok
    split at ok
    · exact issuesQuiet ok
    · exact issuesQuiet ok
    · simp at ok
  | stage run page t stamp =>
    simp only [SnapshotPc.next] at ok
    exact issuesTransact ok
  | complete run =>
    simp only [SnapshotPc.next] at ok
    exact issuesReading ok
  | finalize run t =>
    simp only [SnapshotPc.next] at ok
    exact issuesTransact ok
  | fail run result =>
    simp only [SnapshotPc.next] at ok
    exact issuesTransact ok
  | done result => simp [SnapshotPc.next] at ok

theorem scanIssues {gate account pageCap requestCap db now answer} {pc : ScanPc} {s}
    (ok : pc.next gate account pageCap requestCap db now answer = some s) :
    Issues db (pc.commit gate account pageCap requestCap now) answer s := by
  cases pc with
  | load =>
    simp only [ScanPc.next] at ok
    exact issuesReading ok
  | create watermark =>
    simp only [ScanPc.next] at ok
    exact issuesTransact ok
  | head state =>
    simp only [ScanPc.next] at ok
    simp only [ScanPc.commit]
    split at ok
    · rw [if_pos (by assumption)]
      exact issuesTransact ok
    · rw [if_neg (by assumption)]
      split at ok
      · rw [if_pos (by assumption)]
        exact issuesTransact ok
      · rw [if_neg (by assumption)]
        exact issuesCharging ok
  | fetch state =>
    simp only [ScanPc.next] at ok
    split at ok
    · exact issuesQuiet ok
    · exact issuesQuiet ok
    · simp at ok
  | stop runId outcome =>
    simp only [ScanPc.next] at ok
    exact issuesTransact ok
  | compare state page =>
    simp only [ScanPc.next] at ok
    split at ok
    · exact issuesQuiet ok
    · exact issuesReading ok
  | observe state page reached t =>
    simp only [ScanPc.next] at ok
    exact issuesTransact ok
  | complete state t =>
    simp only [ScanPc.next] at ok
    exact issuesTransact ok
  | fail runId result =>
    simp only [ScanPc.next] at ok
    exact issuesTransact ok
  | done result => simp [ScanPc.next] at ok

theorem folderIssues {gate account folder db now answer} {pc : FolderPc} {s}
    (ok : pc.next gate account folder db now answer = some s) :
    Issues db (pc.commit gate account folder now) answer s := by
  cases pc with
  | load resume =>
    cases resume with
    | none =>
      simp only [FolderPc.next] at ok
      exact issuesTransact ok
    | some runId =>
      simp only [FolderPc.next] at ok
      exact issuesReading ok
  | resume run =>
    simp only [FolderPc.next] at ok
    exact issuesTransact ok
  | reserve run =>
    simp only [FolderPc.next] at ok
    exact issuesCharging ok
  | fetch run =>
    simp only [FolderPc.next] at ok
    split at ok
    · exact issuesQuiet ok
    · exact issuesQuiet ok
    · exact issuesQuiet ok
    · simp at ok
  | stage run page t =>
    simp only [FolderPc.next] at ok
    exact issuesTransact ok
  | complete run =>
    simp only [FolderPc.next] at ok
    exact issuesReading ok
  | finalize run t =>
    simp only [FolderPc.next] at ok
    exact issuesTransact ok
  | limit capability =>
    simp only [FolderPc.next] at ok
    exact issuesTransact ok
  | limited runId capability =>
    simp only [FolderPc.next] at ok
    exact issuesTransact ok
  | fail runId result =>
    simp only [FolderPc.next] at ok
    exact issuesTransact ok
  | done result => simp [FolderPc.next] at ok

end RatatoskrX.SyncCalls
