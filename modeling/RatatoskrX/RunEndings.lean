import RatatoskrX.Alone

/-! How the runs of the three synchronization services end. Their loops mark a run failed
where a step of theirs fails; an error of the completion, and any error while a scan
observes a page, goes to the caller with the run still running. -/
namespace RatatoskrX.RunEndings
open Outcome Relational Schema Budget Snapshot Folders Journal Frames Reconciliation SyncCalls Schedule Transition Registry
open Alone

section States

def Running (db : Database) (runId : Uuid) : Prop :=
  ∃ row, db.syncRuns.find runId = some row ∧ row.state = .running

def stateUnder (runId : Uuid) : Commit → Option RunState
  | .resumeRun target => if target = runId then some .running else none
  | .markFailed target _ | .markGap _ target _ | .stopScan _ target _ _ | .markCapabilityLimited target _ _ =>
    if target = runId then some .failed else none
  | .completeRun _ run _ => if run.id = runId then some .completed else none
  | .completeScan target _ _ => if target = runId then some .completed else none
  | .completeFolderRun run _ => if run.id = runId then some .completed else none
  | _ => none

def begins (db : Database) : Commit → Option Uuid
  | .createRun _ | .createScan _ | .createFolderRun .. | .createLimitRun .. =>
    some (freshId (db.syncRuns.rows.map SyncRun.id))
  | .resumeRun runId => some runId
  | _ => none

theorem stateAfter {c : Commit} {db after} (applied : c.effect db = some after) {runId r}
    (found : db.syncRuns.find runId = some r) :
    ∃ r', after.syncRuns.find runId = some r' ∧ r'.state = (stateUnder runId c).getD r.state := by
  have mine : r.id = runId := Table.findKey found
  have updated : ∀ {target : Uuid} {g : SyncRun → SyncRun} {given : Option RunState},
      after.syncRuns.find runId = (db.syncRuns.find runId).map (fun r => if r.id = target then g r else r) →
      (g r).state = given.getD r.state →
      ∃ r', after.syncRuns.find runId = some r' ∧ r'.state = (if target = runId then given else none).getD r.state := by
    intro target g given rows sets
    refine ⟨if r.id = target then g r else r,by rw [rows,found]; rfl,?_⟩
    rw [mine]
    by_cases same : runId = target
    · simp [same,sets]
    · simp [same,Ne.symm same]
  have failed : ∀ {target t}, after.syncRuns = (Snapshot.markFailed db target t).syncRuns →
      ∃ r', after.syncRuns.find runId = some r' ∧
        r'.state = (if target = runId then some RunState.failed else none).getD r.state := by
    intro target t form
    refine updated (g := fun r => {r with state := .failed, finishedAt := some t}) ?_ rfl
    rw [form,Snapshot.markFailed,updateRunFind]
    simp only [decide_eq_true_eq]
  cases c with
  | resumeRun target =>
    cases Option.some.inj applied
    refine updated (g := fun r => {r with state := .running, finishedAt := none}) ?_ rfl
    rw [markRunning,updateRunFind]
    simp only [decide_eq_true_eq]
  | markFailed target t | markGap account target t | stopScan account target outcome t =>
    cases Option.some.inj applied
    exact failed rfl
  | markCapabilityLimited target capability t =>
    obtain ⟨run,_,last⟩ := Option.bind_eq_some_iff.mp applied
    cases Option.some.inj last
    exact failed rfl
  | observePage account target page t =>
    obtain ⟨providerIds,items,_,form⟩ := Incremental.observedForm (accepted applied)
    have same : (Incremental.observePosts db account target providerIds t).syncRuns = db.syncRuns :=
      ((Agree.fold (observeFrame account target t) _ _).syncRuns (by simp)).trans
        ((persistPostsFrame providerIds db).syncRuns (by simp))
    have rows := @updated target (Incremental.countedRow items) none
      (by rw [form,updateRunFind,same]; simp only [decide_eq_true_eq]) rfl
    simpa [stateUnder] using rows
  | stageFolderPage run page t =>
    obtain ⟨providerIds,items,_,form⟩ := Folders.stagedForm (accepted applied)
    have same : (Folders.stagePosts db run.snapshotId providerIds t).syncRuns = db.syncRuns :=
      ((Agree.fold (stageFolderItemFrame t run.snapshotId) _ _).syncRuns (by simp)).trans
        ((persistPostsFrame providerIds db).syncRuns (by simp))
    have rows := @updated run.id (advancedRow page.nextToken items) none
      (by rw [form,updateRunFind,same]; simp only [decide_eq_true_eq]) rfl
    simpa [stateUnder] using rows
  | completeScan target watermark t =>
    obtain ⟨run,_,last⟩ := Option.bind_eq_some_iff.mp applied
    cases Option.some.inj last
    refine updated (g := fun r => {r with state := .completed, finishedAt := some t}) ?_ rfl
    refine (updateRunFind db (fun r => r.id = target)
      (fun r => {r with state := .completed, finishedAt := some t}) (fun _ => rfl) runId).trans ?_
    simp only [decide_eq_true_eq]
  | completeFolderRun run t =>
    obtain ⟨_,statistics,form⟩ := Folders.completedForm (accepted applied)
    refine updated (g := finishedRow t statistics) ?_ rfl
    rw [form]
    refine (recordedRun _ run.id run.snapshotId t statistics runId).trans ?_
    rw [(reconciledFrame db run t).syncRuns (by simp)]
  | completeRun account run t =>
    obtain ⟨statistics,_,_,_,rows⟩ := committedRun (accepted applied)
    exact updated (g := finishedRow t statistics) (rows runId) rfl
  | stagePage run page t stamp =>
    obtain ⟨r',later,_,items,moves⟩ := runAfter applied found
    refine ⟨r',later,?_⟩
    rw [moves]
    split <;> rfl
  | _ =>
    obtain ⟨r',later,_,moves⟩ := runAfter applied found
    exact ⟨r',later,congrArg SyncRun.state (show r' = r from moves)⟩

theorem runningAfter {c : Commit} {db after} (applied : c.effect db = some after) {runId} (running : Running db runId) :
    Running after runId ↔ stateUnder runId c = none ∨ stateUnder runId c = some .running := by
  obtain ⟨r,found,state⟩ := running
  obtain ⟨r',later,state'⟩ := stateAfter applied found
  have same : Running after runId ↔ r'.state = .running := by
    unfold Running
    rw [later]
    simp
  rw [same,state',state]
  cases stateUnder runId c <;> simp

theorem begunRunning {c : Commit} {db after} (applied : c.effect db = some after) {runId} (begun : begins db c = some runId)
    (known : ∀ target, c = .resumeRun target → ∃ row, db.syncRuns.find target = some row) : Running after runId := by
  have fresh : ∀ {account kind}, freshId (db.syncRuns.rows.map SyncRun.id) = runId →
      after.syncRuns = (insertSyncRun db account kind).1.syncRuns → Running after runId := by
    rintro account kind rfl form
    refine ⟨⟨freshId (db.syncRuns.rows.map SyncRun.id),account,kind,.running,none,0,0,0,0,0,none⟩,?_,rfl⟩
    rw [form]
    exact (openedRun db account kind _).trans (if_pos rfl)
  cases c with
  | resumeRun target =>
    cases Option.some.inj begun
    obtain ⟨row,found⟩ := known _ rfl
    obtain ⟨r',later,state⟩ := stateAfter applied found
    exact ⟨r',later,by simpa [stateUnder] using state⟩
  | createRun account =>
    obtain ⟨_,made,rfl⟩ := Option.map_eq_some_iff.mp applied
    unfold Snapshot.createRun at made
    split at made <;> cases made
    exact fresh (Option.some.inj begun) rfl
  | createScan account =>
    obtain ⟨_,made,rfl⟩ := Option.map_eq_some_iff.mp applied
    unfold Incremental.createRun at made
    split at made <;> cases made
    exact fresh (Option.some.inj begun) rfl
  | createFolderRun account folder =>
    obtain ⟨_,made,rfl⟩ := Option.map_eq_some_iff.mp applied
    unfold Folders.createRun at made
    split at made <;> cases made
    exact fresh (Option.some.inj begun) rfl
  | createLimitRun account capability =>
    simp only [Commit.effect] at applied
    split at applied <;> cases applied
    exact fresh (Option.some.inj begun) rfl
  | _ => cases begun

end States

section Calls

/- A call that has not yet created or resumed its run. -/
def entering (db : Database) : Process → Prop
  | .snapshot ⟨_,.load _⟩ | .scan ⟨_,_,_,.load⟩ | .scan ⟨_,_,_,.create _⟩ => True
  | .folder ⟨_,_,.load _⟩ | .folder ⟨_,_,.limit _⟩ => True
  | .snapshot ⟨_,.resume run⟩ => ∃ row, db.syncRuns.find run.id = some row
  | .folder ⟨_,_,.resume run⟩ => ∃ row, db.syncRuns.find run.id = some row
  | _ => False

def working : Process → Option Uuid
  | .snapshot ⟨_,.resume _⟩ | .folder ⟨_,_,.resume _⟩ => none
  | .snapshot call => (runOf call.pc).map Run.id
  | .scan call => scanRun call.pc
  | .folder call => folderRun call.pc
  | _ => none

def returned : Process → Prop
  | .snapshot ⟨_,.done _⟩ | .scan ⟨_,_,_,.done _⟩ | .folder ⟨_,_,.done _⟩ => True
  | _ => False

/- The statement at the control point is the update that ends the run. -/
def updates : Process → Prop
  | .snapshot ⟨_,.fail ..⟩ => True
  | .scan ⟨_,_,_,.fail ..⟩ | .scan ⟨_,_,_,.stop ..⟩ => True
  | .scan ⟨_,pageCap,requestCap,.head state⟩ => pageCap ≤ state.pagesFetched ∨ requestCap ≤ state.requestsMade
  | .folder ⟨_,_,.fail ..⟩ | .folder ⟨_,_,.limited ..⟩ => True
  | _ => False

/- The call works alone, and the update that ends its run does not fail. -/
def Settling (index : Nat) (w : World) (a : Action) : Prop :=
  Only index w a ∧ ∀ answer p, a = .advance index answer → w.processes[index]? = some p → updates p → answer ≠ .fault

/- A failure that the caller receives while the run is running: the acknowledgement of its
creation or resumption is lost, the completion fails, or a scan fails to observe a page. -/
def drops (db : Database) (answer : Answer) : Process → Prop
  | .snapshot ⟨account,.load none⟩ => answer = .lost ∧ (Commit.effect (.createRun account) db).isSome = true
  | .snapshot ⟨_,.resume _⟩ => answer = .lost
  | .snapshot ⟨account,.finalize run t⟩ => answer = .fault ∨ Commit.effect (.completeRun account run t) db = none
  | .scan ⟨account,_,_,.create _⟩ => answer = .lost ∧ (Commit.effect (.createScan account) db).isSome = true
  | .scan ⟨_,_,_,.compare _ page⟩ => page.normalized = none ∨ answer ≠ .ok
  | .scan ⟨account,_,_,.observe state page _ t⟩ =>
    answer ≠ .ok ∨ Commit.effect (.observePage account state.runId page t) db = none
  | .scan ⟨_,_,_,.complete state t⟩ =>
    answer = .fault ∨ Commit.effect (.completeScan state.runId state.newest t) db = none
  | .folder ⟨account,folder,.load none⟩ =>
    answer = .lost ∧ (Commit.effect (.createFolderRun account folder) db).isSome = true
  | .folder ⟨_,_,.resume _⟩ => answer = .lost
  | .folder ⟨account,_,.limit capability⟩ =>
    answer = .lost ∧ (Commit.effect (.createLimitRun account capability) db).isSome = true
  | .folder ⟨_,_,.finalize run t⟩ => answer = .fault ∨ Commit.effect (.completeFolderRun run t) db = none
  | _ => False

inductive Outcome (db : Database) (p : Process) (s : Step Process) (dropped : Prop) : Prop where
  | enters (before : entering db p) (after : entering s.db s.next) (silent : s.event = none) (same : s.db = db) (kept : ¬dropped)
  | refused (before : entering db p) (after : returned s.next) (silent : s.event = none) (same : s.db = db) (kept : ¬dropped)
  | opens {c runId} (before : entering db p) (after : working s.next = some runId) (event : s.event = some (.commit c))
      (applied : c.effect db = some s.db) (begun : begins db c = some runId) (running : Running s.db runId)
      (kept : ¬dropped)
  | orphans {c runId} (before : entering db p) (after : returned s.next) (event : s.event = some (.commit c))
      (applied : c.effect db = some s.db) (begun : begins db c = some runId) (running : Running s.db runId)
      (lost : dropped)
  | works {runId} (before : working p = some runId) (after : working s.next = some runId) (running : Running s.db runId)
      (quiet : ∀ c, s.event = some (.commit c) → begins db c = none) (kept : ¬dropped)
  | settles {runId} (before : working p = some runId) (after : returned s.next) (ended : ¬Running s.db runId)
      (quiet : ∀ c, s.event = some (.commit c) → begins db c = none) (kept : ¬dropped)
  | leaves {runId} (before : working p = some runId) (after : returned s.next) (running : Running s.db runId)
      (quiet : ∀ c, s.event = some (.commit c) → begins db c = none) (lost : dropped)

def Keeps (db : Database) (runId : Uuid) (s : Step Process) : Prop :=
  (s.event = none ∧ s.db = db) ∨
    ∃ c, s.event = some (.commit c) ∧ c.effect db = some s.db ∧ stateUnder runId c = none ∧ begins db c = none

theorem Keeps.running {db runId s} (keeps : Keeps db runId s) (running : Running db runId) : Running s.db runId := by
  rcases keeps with ⟨_,same⟩ | ⟨c,_,applied,silent,_⟩
  · exact same ▸ running
  · exact (runningAfter applied running).mpr (.inl silent)

theorem Keeps.quiet {db runId s} (keeps : Keeps db runId s) : ∀ c, s.event = some (.commit c) → begins db c = none := by
  rintro c said
  rcases keeps with ⟨silent,_⟩ | ⟨c',event,_,_,none⟩
  · rw [silent] at said
    cases said
  · rw [event] at said
    cases said
    exact none

theorem Outcome.on {db p s dropped runId} (running : Running db runId) (before : working p = some runId)
    (after : working s.next = some runId) (keeps : Keeps db runId s) (kept : ¬dropped) : Outcome db p s dropped :=
  .works before after (keeps.running running) keeps.quiet kept

theorem Outcome.left {db p s dropped runId} (running : Running db runId) (before : working p = some runId)
    (after : returned s.next) (keeps : Keeps db runId s) (lost : dropped) : Outcome db p s dropped :=
  .leaves before after (keeps.running running) keeps.quiet lost

theorem Outcome.ended {db p s dropped c runId state} (running : Running db runId) (before : working p = some runId)
    (after : returned s.next) (event : s.event = some (.commit c)) (applied : c.effect db = some s.db)
    (given : stateUnder runId c = some state) (ending : state ≠ .running) (begun : begins db c = none) (kept : ¬dropped) :
    Outcome db p s dropped := by
  refine .settles before after ?_ ?_ kept
  · rw [runningAfter applied running,given]
    simp [ending]
  · intro c' said
    rw [event] at said
    cases said
    exact begun

theorem Outcome.updated {π : Type} {f : π → Process} {db p answer c dropped runId} {next refused faulted : π} {r}
    (ok : transact db answer c next refused faulted = some r) (running : Running db runId)
    (before : working p = some runId) (firm : answer ≠ .fault) (applies : ∃ after, c.effect db = some after)
    (given : stateUnder runId c = some .failed) (begun : begins db c = none)
    (after : returned (f next) ∧ returned (f faulted)) (kept : ¬dropped) : Outcome db p (r.map f) dropped := by
  rcases transactCases ok with ⟨_,applied,⟨_,rfl⟩ | ⟨_,rfl⟩⟩ | ⟨_,none,_⟩ | ⟨answered,_⟩
  · exact .ended running before after.1 rfl applied given (by simp) begun kept
  · exact .ended running before after.2 rfl applied given (by simp) begun kept
  · obtain ⟨_,some_⟩ := applies
    rw [none] at some_
    cases some_
  · rcases answered with failed | ⟨_,none⟩
    · exact absurd failed firm
    · obtain ⟨_,some_⟩ := applies
      rw [none] at some_
      cases some_

theorem Outcome.completed {π : Type} {f : π → Process} {db p answer c dropped runId} {next refused faulted : π} {r}
    (ok : transact db answer c next refused faulted = some r) (running : Running db runId)
    (before : working p = some runId) (given : stateUnder runId c = some .completed) (begun : begins db c = none)
    (after : returned (f next) ∧ returned (f refused) ∧ returned (f faulted))
    (exactly : dropped ↔ answer = .fault ∨ c.effect db = none) : Outcome db p (r.map f) dropped := by
  rcases transactCases ok with ⟨_,applied,⟨rfl,rfl⟩ | ⟨rfl,rfl⟩⟩ | ⟨_,none,rfl⟩ | ⟨answered,rfl⟩
  · exact .ended running before after.1 rfl applied given (by simp) begun (by simp [exactly,applied])
  · exact .ended running before after.2.2 rfl applied given (by simp) begun (by simp [exactly,applied])
  · exact .left running before after.2.1 (.inl ⟨rfl,rfl⟩) (exactly.mpr (.inr none))
  · exact .left running before after.2.2 (.inl ⟨rfl,rfl⟩) (exactly.mpr (answered.imp id And.right))

theorem Outcome.created {π : Type} {f : π → Process} {db p answer c dropped} {next refused faulted : π} {r}
    (ok : transact db answer c next refused faulted = some r) (before : entering db p)
    (known : ∀ target, c = .resumeRun target → ∃ row, db.syncRuns.find target = some row)
    (made : (c.effect db).isSome = true → ∃ runId, begins db c = some runId ∧ working (f next) = some runId)
    (after : returned (f refused) ∧ returned (f faulted))
    (exactly : dropped ↔ answer = .lost ∧ (c.effect db).isSome = true) : Outcome db p (r.map f) dropped := by
  rcases transactCases ok with ⟨db',applied,⟨rfl,rfl⟩ | ⟨rfl,rfl⟩⟩ | ⟨rfl,none,rfl⟩ | ⟨answered,rfl⟩
  · obtain ⟨runId,begun,works⟩ := made (by rw [applied]; rfl)
    exact .opens before works rfl applied begun (begunRunning applied begun known) (by simp [exactly])
  · obtain ⟨runId,begun,_⟩ := made (by rw [applied]; rfl)
    exact .orphans before after.2 rfl applied begun (begunRunning applied begun known) (by simp [exactly,applied])
  · exact .refused before after.1 rfl rfl (by simp [exactly])
  · refine .refused before after.2 rfl rfl ?_
    rcases answered with rfl | ⟨_,none⟩
    · simp [exactly]
    · simp [exactly,none]

/- The charge of a request, whatever becomes of it. -/
theorem Outcome.charged {π : Type} {f : π → Process} {config : Config} {db p answer account now dropped runId}
    {next lost : Reservation → π} {refused : BudgetError → π} {r}
    (ok : charging answer config.readGate db account now next refused lost = some r) (running : Running db runId)
    (before : working p = some runId) (paid : ∀ reservation, working (f (next reservation)) = some runId)
    (unheard : ∀ reservation, working (f (lost reservation)) = some runId)
    (unpaid : ∀ error, working (f (refused error)) = some runId) (kept : ¬dropped) : Outcome db p (r.map f) dropped := by
  rcases chargingCases ok with ⟨after,reservation,accepted,⟨_,rfl⟩ | ⟨_,rfl⟩⟩ | ⟨error,rfl,_⟩
  · refine .on running before (paid reservation) (.inr ⟨_,rfl,?_,rfl,rfl⟩) kept
    simp [Commit.effect,accepted,Step.map,Except.toOption]
  · refine .on running before (unheard reservation) (.inr ⟨_,rfl,?_,rfl,rfl⟩) kept
    simp [Commit.effect,accepted,Step.map,Except.toOption]
  · exact .on running before (unpaid error) (.inl ⟨rfl,rfl⟩) kept

theorem Outcome.silent {π : Type} {f : π → Process} {db p dropped runId} {next : π} {r} (ok : quiet db next = some r)
    (running : Running db runId) (before : working p = some runId) (after : working (f next) = some runId)
    (kept : ¬dropped) : Outcome db p (r.map f) dropped := by
  rw [quietCases ok]
  exact .on running before after (.inl ⟨rfl,rfl⟩) kept

theorem Outcome.staged {π : Type} {f : π → Process} {db p answer c dropped runId} {next refused faulted : π} {r}
    (ok : transact db answer c next refused faulted = some r) (running : Running db runId)
    (before : working p = some runId) (given : stateUnder runId c = none) (begun : begins db c = none)
    (after : working (f next) = some runId) (failing : working (f refused) = some runId ∧ working (f faulted) = some runId)
    (kept : ¬dropped) : Outcome db p (r.map f) dropped := by
  rcases transactCases ok with ⟨_,applied,⟨_,rfl⟩ | ⟨_,rfl⟩⟩ | ⟨_,_,rfl⟩ | ⟨_,rfl⟩
  · exact .on running before after (.inr ⟨_,rfl,applied,given,begun⟩) kept
  · exact .on running before failing.2 (.inr ⟨_,rfl,applied,given,begun⟩) kept
  · exact .on running before failing.1 (.inl ⟨rfl,rfl⟩) kept
  · exact .on running before failing.2 (.inl ⟨rfl,rfl⟩) kept

theorem resumesKnown {db : Database} {runId row} (present : db.syncRuns.find runId = some row) :
    ∀ target, Commit.resumeRun runId = .resumeRun target → ∃ row, db.syncRuns.find target = some row := by
  rintro _ ⟨⟩
  exact ⟨row,present⟩

theorem snapshotOutcome {config w answer call s} (ok : (Process.snapshot call).next config w answer = some s)
    (settling : updates (.snapshot call) → answer ≠ .fault)
    (known : entering w.db (.snapshot call) ∨ ∃ runId, working (.snapshot call) = some runId ∧ Running w.db runId) :
    Outcome w.db (.snapshot call) s (drops w.db answer (.snapshot call)) := by
  obtain ⟨account,pc⟩ := call
  obtain ⟨r,next,rfl⟩ := Option.map_eq_some_iff.mp ok
  cases pc with
  | load resume =>
    cases resume with
    | none =>
      simp only [SnapshotPc.next] at next
      refine .created next trivial (by simp) ?_ ⟨trivial,trivial⟩ Iff.rfl
      intro applied
      obtain ⟨after,created⟩ := Option.isSome_iff_exists.mp applied
      obtain ⟨⟨_,run⟩,made,rfl⟩ := Option.map_eq_some_iff.mp created
      refine ⟨run.id,?_,by simp [made,working,runOf]⟩
      unfold Snapshot.createRun at made
      split at made <;> cases made
      rfl
    | some runId =>
      simp only [SnapshotPc.next] at next
      rcases readingCases next with ⟨rfl,rfl⟩ | ⟨_,rfl⟩
      · cases found : Snapshot.findResumable w.db account runId with
        | none => exact .refused trivial (by simp [Step.map,returned]) rfl rfl id
        | some run =>
          obtain ⟨row,present,_⟩ := resumableRow found
          exact .enters trivial (by simp only [Step.map]; exact ⟨row,present⟩) rfl rfl id
      · exact .refused trivial trivial rfl rfl id
  | resume run =>
    obtain ⟨row,present⟩ : ∃ row, w.db.syncRuns.find run.id = some row := by
      rcases known with entered | ⟨_,held,_⟩
      · exact entered
      · cases held
    simp only [SnapshotPc.next] at next
    refine .created next ⟨row,present⟩ (resumesKnown present) ?_ ⟨trivial,trivial⟩ ⟨fun lost => ⟨lost,rfl⟩,And.left⟩
    exact fun _ => ⟨run.id,rfl,rfl⟩
  | reserve run =>
    obtain ⟨_,held,running⟩ := known.resolve_left id
    cases Option.some.inj held
    simp only [SnapshotPc.next] at next
    exact .charged next running rfl (fun _ => rfl) (fun _ => rfl) (by rintro (_ | _ | _ | _) <;> rfl) id
  | fetch run =>
    obtain ⟨_,held,running⟩ := known.resolve_left id
    cases Option.some.inj held
    simp only [SnapshotPc.next] at next
    split at next
    · exact .silent next running rfl rfl id
    · exact .silent next running rfl rfl id
    · simp at next
  | stage run page t k =>
    obtain ⟨_,held,running⟩ := known.resolve_left id
    cases Option.some.inj held
    simp only [SnapshotPc.next] at next
    exact .staged next running rfl rfl rfl (by split <;> rfl) ⟨rfl,rfl⟩ id
  | complete run =>
    obtain ⟨_,held,running⟩ := known.resolve_left id
    cases Option.some.inj held
    simp only [SnapshotPc.next] at next
    rcases readingCases next with ⟨_,rfl⟩ | ⟨_,rfl⟩ <;> exact .on running rfl rfl (.inl ⟨rfl,rfl⟩) id
  | finalize run t =>
    obtain ⟨_,held,running⟩ := known.resolve_left id
    cases Option.some.inj held
    simp only [SnapshotPc.next] at next
    exact .completed next running rfl (if_pos rfl) rfl ⟨trivial,trivial,trivial⟩ Iff.rfl
  | fail run result =>
    obtain ⟨_,held,running⟩ := known.resolve_left id
    cases Option.some.inj held
    simp only [SnapshotPc.next] at next
    exact .updated next running rfl (settling trivial) ⟨_,rfl⟩ (if_pos rfl) rfl ⟨trivial,trivial⟩ id
  | done result => simp [SnapshotPc.next] at next

theorem scanOutcome {config w answer call s} (ok : (Process.scan call).next config w answer = some s)
    (settling : updates (.scan call) → answer ≠ .fault)
    (known : entering w.db (.scan call) ∨ ∃ runId, working (.scan call) = some runId ∧ Running w.db runId) :
    Outcome w.db (.scan call) s (drops w.db answer (.scan call)) := by
  obtain ⟨account,pageCap,requestCap,pc⟩ := call
  obtain ⟨r,next,rfl⟩ := Option.map_eq_some_iff.mp ok
  cases pc with
  | load =>
    simp only [ScanPc.next] at next
    rcases readingCases next with ⟨_,rfl⟩ | ⟨_,rfl⟩
    · cases required : (Incremental.loadState w.db account).2 with
      | true => exact .refused trivial (by simp [Step.map,returned]) rfl rfl id
      | false => exact .enters trivial (by simp [Step.map,entering]) rfl rfl id
    · exact .refused trivial trivial rfl rfl id
  | create watermark =>
    simp only [ScanPc.next] at next
    refine .created next trivial (by simp) ?_ ⟨trivial,trivial⟩ Iff.rfl
    intro applied
    obtain ⟨after,created⟩ := Option.isSome_iff_exists.mp applied
    obtain ⟨⟨_,runId⟩,made,rfl⟩ := Option.map_eq_some_iff.mp created
    refine ⟨runId,?_,by simp [made,working,scanRun]⟩
    unfold Incremental.createRun at made
    split at made <;> cases made
    rfl
  | head state =>
    obtain ⟨_,held,running⟩ := known.resolve_left id
    cases Option.some.inj held
    simp only [ScanPc.next] at next
    split at next
    · rename_i capped
      exact .updated next running rfl (settling (.inl capped)) ⟨_,rfl⟩ (if_pos rfl) rfl ⟨trivial,trivial⟩ id
    · split at next
      · rename_i capped
        exact .updated next running rfl (settling (.inr capped)) ⟨_,rfl⟩ (if_pos rfl) rfl ⟨trivial,trivial⟩ id
      · exact .charged next running rfl (fun _ => rfl) (fun _ => rfl) (by rintro (_ | _ | _ | _) <;> rfl) id
  | fetch state =>
    obtain ⟨_,held,running⟩ := known.resolve_left id
    cases Option.some.inj held
    simp only [ScanPc.next] at next
    split at next
    · exact .silent next running rfl rfl id
    · exact .silent next running rfl rfl id
    · simp at next
  | compare state page =>
    obtain ⟨_,held,running⟩ := known.resolve_left id
    cases Option.some.inj held
    simp only [ScanPc.next] at next
    split at next
    · rename_i refused
      rw [quietCases next]
      exact .left running rfl trivial (.inl ⟨rfl,rfl⟩) (.inl refused)
    · rename_i ids normalized
      rcases readingCases next with ⟨rfl,rfl⟩ | ⟨answered,rfl⟩
      · exact .on running rfl rfl (.inl ⟨rfl,rfl⟩) (by simp [drops,normalized])
      · exact .left running rfl trivial (.inl ⟨rfl,rfl⟩) (.inr (by rcases answered with rfl | rfl <;> simp))
  | observe state page reached t =>
    obtain ⟨_,held,running⟩ := known.resolve_left id
    cases Option.some.inj held
    simp only [ScanPc.next] at next
    rcases transactCases next with ⟨after,applied,⟨rfl,rfl⟩ | ⟨rfl,rfl⟩⟩ | ⟨_,refused,rfl⟩ | ⟨answered,rfl⟩
    · refine .on running rfl ?_ (.inr ⟨_,rfl,applied,rfl,rfl⟩) (by simp [drops,applied])
      simp only [Step.map]
      split
      · rfl
      · split <;> rfl
    · exact .left running rfl trivial (.inr ⟨_,rfl,applied,rfl,rfl⟩) (.inl (by simp))
    · exact .left running rfl trivial (.inl ⟨rfl,rfl⟩) (.inr refused)
    · refine .left running rfl trivial (.inl ⟨rfl,rfl⟩) (.inl ?_)
      rcases answered with rfl | ⟨rfl,_⟩ <;> simp
  | stop runId outcome =>
    obtain ⟨_,held,running⟩ := known.resolve_left id
    cases Option.some.inj held
    simp only [ScanPc.next] at next
    exact .updated next running rfl (settling trivial) ⟨_,rfl⟩ (if_pos rfl) rfl ⟨trivial,trivial⟩ id
  | complete state t =>
    obtain ⟨_,held,running⟩ := known.resolve_left id
    cases Option.some.inj held
    simp only [ScanPc.next] at next
    exact .completed next running rfl (if_pos rfl) rfl ⟨trivial,trivial,trivial⟩ Iff.rfl
  | fail runId result =>
    obtain ⟨_,held,running⟩ := known.resolve_left id
    cases Option.some.inj held
    simp only [ScanPc.next] at next
    exact .updated next running rfl (settling trivial) ⟨_,rfl⟩ (if_pos rfl) rfl ⟨trivial,trivial⟩ id
  | done result => simp [ScanPc.next] at next

theorem folderOutcome {config w answer call s} (ok : (Process.folder call).next config w answer = some s)
    (settling : updates (.folder call) → answer ≠ .fault)
    (known : entering w.db (.folder call) ∨ ∃ runId, working (.folder call) = some runId ∧ Running w.db runId) :
    Outcome w.db (.folder call) s (drops w.db answer (.folder call)) := by
  obtain ⟨account,folder,pc⟩ := call
  obtain ⟨r,next,rfl⟩ := Option.map_eq_some_iff.mp ok
  cases pc with
  | load resume =>
    simp only [FolderPc.next] at next
    cases resume with
    | none =>
      refine .created next trivial (by simp) ?_ ⟨trivial,trivial⟩ Iff.rfl
      intro applied
      obtain ⟨after,created⟩ := Option.isSome_iff_exists.mp applied
      obtain ⟨⟨_,run⟩,made,rfl⟩ := Option.map_eq_some_iff.mp created
      refine ⟨run.id,?_,by simp [made,working,folderRun]⟩
      unfold Folders.createRun at made
      split at made <;> cases made
      rfl
    | some runId =>
      rcases readingCases next with ⟨rfl,rfl⟩ | ⟨_,rfl⟩
      · cases found : Folders.findResumable w.db account runId folder with
        | none => exact .refused trivial (by simp [Step.map,returned]) rfl rfl id
        | some run =>
          obtain ⟨row,present,_⟩ := (resumableKind found).2
          exact .enters trivial (by simp only [Step.map]; exact ⟨row,present⟩) rfl rfl id
      · exact .refused trivial trivial rfl rfl id
  | resume run =>
    obtain ⟨row,present⟩ : ∃ row, w.db.syncRuns.find run.id = some row := by
      rcases known with entered | ⟨_,held,_⟩
      · exact entered
      · cases held
    simp only [FolderPc.next] at next
    refine .created next ⟨row,present⟩ (resumesKnown present) ?_ ⟨trivial,trivial⟩ ⟨fun lost => ⟨lost,rfl⟩,And.left⟩
    exact fun _ => ⟨run.id,rfl,rfl⟩
  | reserve run =>
    obtain ⟨_,held,running⟩ := known.resolve_left id
    cases Option.some.inj held
    simp only [FolderPc.next] at next
    exact .charged next running rfl (fun _ => rfl) (fun _ => rfl) (by rintro (_ | _ | _ | _) <;> rfl) id
  | fetch run =>
    obtain ⟨_,held,running⟩ := known.resolve_left id
    cases Option.some.inj held
    simp only [FolderPc.next] at next
    split at next
    · exact .silent next running rfl rfl id
    · exact .silent next running rfl rfl id
    · exact .silent next running rfl rfl id
    · simp at next
  | stage run page t =>
    obtain ⟨_,held,running⟩ := known.resolve_left id
    cases Option.some.inj held
    simp only [FolderPc.next] at next
    exact .staged next running rfl rfl rfl (by split <;> rfl) ⟨rfl,rfl⟩ id
  | complete run =>
    obtain ⟨_,held,running⟩ := known.resolve_left id
    cases Option.some.inj held
    simp only [FolderPc.next] at next
    rcases readingCases next with ⟨_,rfl⟩ | ⟨_,rfl⟩ <;> exact .on running rfl rfl (.inl ⟨rfl,rfl⟩) id
  | finalize run t =>
    obtain ⟨_,held,running⟩ := known.resolve_left id
    cases Option.some.inj held
    simp only [FolderPc.next] at next
    exact .completed next running rfl (if_pos rfl) rfl ⟨trivial,trivial,trivial⟩ Iff.rfl
  | limit capability =>
    simp only [FolderPc.next] at next
    exact .created next trivial (by simp) (fun _ => ⟨_,rfl,rfl⟩) ⟨trivial,trivial⟩ Iff.rfl
  | limited runId capability =>
    obtain ⟨_,held,running⟩ := known.resolve_left id
    cases Option.some.inj held
    obtain ⟨row,present,_⟩ := id running
    simp only [FolderPc.next] at next
    refine .updated next running rfl (settling trivial) ?_ (if_pos rfl) rfl ⟨trivial,trivial⟩ id
    exact ⟨_,by simp only [Commit.effect,Folders.markCapabilityLimited,present]; rfl⟩
  | fail runId result =>
    obtain ⟨_,held,running⟩ := known.resolve_left id
    cases Option.some.inj held
    simp only [FolderPc.next] at next
    exact .updated next running rfl (settling trivial) ⟨_,rfl⟩ (if_pos rfl) rfl ⟨trivial,trivial⟩ id
  | done result => simp [FolderPc.next] at next

end Calls

section Runs
variable {config : Config} {index : Nat} {start w t : World} {labels : List Action}

def Began (config : Config) (index : Nat) (start : World) (labels : List Action) (w : World) (runId : Uuid) : Prop :=
  ∃ p a q c, Passes (World.step config) (Settling index) start labels w p a q ∧
    q.log = p.log ++ [⟨some index,.commit c⟩] ∧ begins p.db c = some runId

/- A step of the run in which the call fails and leaves its run as it is. -/
def Dropped (config : Config) (index : Nat) (start : World) (labels : List Action) (w : World) : Prop :=
  ∃ p answer q process, Passes (World.step config) (Settling index) start labels w p (.advance index answer) q ∧
    p.processes[index]? = some process ∧ drops p.db answer process

/- How far the call is: which runs it began, and whether it dropped one. -/
def Tracks (index : Nat) (w : World) (begun : Uuid → Prop) (dropped : Prop) : Prop :=
  ∃ p, w.processes[index]? = some p ∧
    ((entering w.db p ∧ (∀ runId, ¬begun runId) ∧ ¬dropped) ∨
      (∃ runId, working p = some runId ∧ (∀ other, begun other ↔ other = runId) ∧ ¬dropped ∧ Running w.db runId) ∨
      (returned p ∧ ((∃ runId, begun runId ∧ Running w.db runId) ↔ dropped)))

theorem returnedStays {config w answer p s} (ending : returned p) : Process.next config w answer p ≠ some s := by
  intro ok
  cases p with
  | snapshot call =>
    obtain ⟨account,pc⟩ := call
    obtain ⟨r,next,rfl⟩ := Option.map_eq_some_iff.mp ok
    cases pc <;> first
      | exact ending
      | cases next
  | scan call =>
    obtain ⟨account,pageCap,requestCap,pc⟩ := call
    obtain ⟨r,next,rfl⟩ := Option.map_eq_some_iff.mp ok
    cases pc <;> first
      | exact ending
      | cases next
  | folder call =>
    obtain ⟨account,folder,pc⟩ := call
    obtain ⟨r,next,rfl⟩ := Option.map_eq_some_iff.mp ok
    cases pc <;> first
      | exact ending
      | cases next
  | write call | consent call => exact ending

/- The run that one step creates or resumes. -/
def BeginsAt (index : Nat) (w t : World) (runId : Uuid) : Prop :=
  ∃ c, t.log = w.log ++ [⟨some index,.commit c⟩] ∧ begins w.db c = some runId

def DropsAt (index : Nat) (w : World) (a : Action) : Prop :=
  ∃ answer p, a = .advance index answer ∧ w.processes[index]? = some p ∧ drops w.db answer p

theorem takeBegins {s : Step Process} {runId} :
    BeginsAt index w (w.take index s) runId ↔ ∃ c, s.event = some (.commit c) ∧ begins w.db c = some runId := by
  unfold BeginsAt World.take
  cases s.event with
  | none => simp
  | some event =>
    constructor
    · rintro ⟨c,logged,begun⟩
      have same : event = .commit c := by simpa using logged
      exact ⟨c,by rw [same],begun⟩
    · rintro ⟨c,same,begun⟩
      cases same
      exact ⟨c,rfl,begun⟩

theorem enteringIdle {db p} (before : entering db p) : working p = none := by
  cases p with
  | snapshot call =>
    obtain ⟨account,pc⟩ := call
    cases pc <;> first
      | rfl
      | exact absurd before id
  | scan call =>
    obtain ⟨account,pageCap,requestCap,pc⟩ := call
    cases pc <;> first
      | rfl
      | exact absurd before id
  | folder call =>
    obtain ⟨account,folder,pc⟩ := call
    cases pc <;> first
      | rfl
      | exact absurd before id
  | write call | consent call => rfl

theorem outcome {p : Process} {answer s} (ok : p.next config w answer = some s) (settling : updates p → answer ≠ .fault)
    (known : entering w.db p ∨ ∃ runId, working p = some runId ∧ Running w.db runId) :
    Outcome w.db p s (drops w.db answer p) := by
  cases p with
  | snapshot call => exact snapshotOutcome ok settling known
  | scan call => exact scanOutcome ok settling known
  | folder call => exact folderOutcome ok settling known
  | write call | consent call =>
    rcases known with entered | ⟨_,held,_⟩
    · exact absurd entered id
    · cases held

theorem tracksStep {begun dropped a} (tracks : Tracks index w begun dropped) (settling : Settling index w a)
    (taken : World.step config w a = some t) :
    Tracks index t (fun runId => begun runId ∨ BeginsAt index w t runId) (dropped ∨ DropsAt index w a) := by
  obtain ⟨p,found,place⟩ := tracks
  cases aloneTurn settling.1 taken with
  | clock =>
    have silent : ∀ now runId, ¬BeginsAt index w {w with now := now} runId := by
      rintro now runId ⟨c,logged,_⟩
      simp at logged
    exact ⟨p,found,by simpa [DropsAt,silent] using place⟩
  | @call answer p' s alive found' ok =>
    rw [found] at found'
    cases Option.some.inj found'
    have dropping : DropsAt index w (.advance index answer) ↔ drops w.db answer p := by
      constructor
      · rintro ⟨_,_,⟨⟩,there,lost⟩
        rw [found] at there
        cases Option.some.inj there
        exact lost
      · exact fun lost => ⟨answer,p,rfl,found,lost⟩
    simp only [takeBegins,dropping]
    refine ⟨s.next,takeFound found,?_⟩
    have firm := settling.2 answer p rfl found
    have quieted : ∀ {runId}, (∀ c, s.event = some (.commit c) → begins w.db c = none) →
        ¬∃ c, s.event = some (.commit c) ∧ begins w.db c = some runId := by
      rintro runId quiet ⟨c,said,begun⟩
      rw [quiet c said] at begun
      cases begun
    have silence : s.event = none → ∀ c, s.event = some (.commit c) → begins w.db c = none := by
      intro silent c said
      rw [silent] at said
      cases said
    rcases place with ⟨before,none,clean⟩ | ⟨runId,held,one,clean,running⟩ | ⟨ending,_⟩
    · have idle := enteringIdle before
      cases outcome ok firm (.inl before) with
      | enters _ after silent same kept =>
        exact .inl ⟨after,fun _ => not_or.mpr ⟨none _,quieted (silence silent)⟩,not_or.mpr ⟨clean,kept⟩⟩
      | refused _ after silent same kept =>
        refine .inr (.inr ⟨after,iff_of_false ?_ (not_or.mpr ⟨clean,kept⟩)⟩)
        rintro ⟨runId,began | began,_⟩
        · exact none runId began
        · exact quieted (silence silent) began
      | @opens c runId _ after event applied begun' running kept =>
        refine .inr (.inl ⟨runId,after,fun other => ?_,not_or.mpr ⟨clean,kept⟩,running⟩)
        constructor
        · rintro (began | ⟨c',said,began⟩)
          · exact absurd began (none other)
          · rw [event] at said
            cases said
            rw [begun'] at began
            exact (Option.some.inj began).symm
        · rintro rfl
          exact .inr ⟨c,event,begun'⟩
      | @orphans c runId _ after event applied begun' running lost =>
        exact .inr (.inr ⟨after,iff_of_true ⟨runId,.inr ⟨c,event,begun'⟩,running⟩ (.inr lost)⟩)
      | works held | settles held | leaves held =>
        rw [idle] at held
        cases held
    · have own : ∀ {other}, working p = some other → other = runId := by
        intro other held'
        rw [held] at held'
        exact (Option.some.inj held').symm
      have begins : ∀ {other}, (∀ c, s.event = some (.commit c) → begins w.db c = Option.none) →
          ((begun other ∨ ∃ c, s.event = some (.commit c) ∧ begins w.db c = some other) ↔ other = runId) := by
        intro other quiet
        rw [or_iff_left (quieted quiet)]
        exact one other
      cases outcome ok firm (.inr ⟨runId,held,running⟩) with
      | works held' after running' quiet kept =>
        cases own held'
        exact .inr (.inl ⟨runId,after,fun _ => begins quiet,not_or.mpr ⟨clean,kept⟩,running'⟩)
      | settles held' after ended quiet kept =>
        cases own held'
        refine .inr (.inr ⟨after,iff_of_false ?_ (not_or.mpr ⟨clean,kept⟩)⟩)
        rintro ⟨other,began,still⟩
        cases (begins quiet).mp began
        exact ended still
      | leaves held' after running' quiet lost =>
        cases own held'
        exact .inr (.inr ⟨after,iff_of_true ⟨runId,(begins quiet).mpr rfl,running'⟩ (.inr lost)⟩)
      | enters before | refused before | opens before | orphans before =>
        rw [enteringIdle before] at held
        cases held
    · exact absurd ok (returnedStays ending)

theorem tracksRun {begun dropped} (run : Transition.Run (World.step config) (Settling index) start labels w)
    (tracks : Tracks index start begun dropped) :
    Tracks index w (fun runId => begun runId ∨ Began config index start labels w runId)
      (dropped ∨ Dropped config index start labels w) := by
  induction run generalizing begun dropped with
  | nil s =>
    have none : ∀ runId, ¬Began config index s [] s runId := by
      rintro runId ⟨_,_,_,_,passes,_⟩
      exact passesNil passes
    have clean : ¬Dropped config index s [] s := by
      rintro ⟨_,_,_,_,passes,_⟩
      exact passesNil passes
    simpa [none,clean] using tracks
  | @cons s a t rest u meets taken later ih =>
    have began : ∀ runId, Began config index s (a::rest) u runId ↔
        BeginsAt index s t runId ∨ Began config index t rest u runId := by
      intro runId
      constructor
      · rintro ⟨p,b,q,c,passes,logged,begun⟩
        rcases (passesCons meets taken later).mp passes with ⟨rfl,rfl,rfl⟩ | after
        · exact .inl ⟨c,logged,begun⟩
        · exact .inr ⟨p,b,q,c,after,logged,begun⟩
      · rintro (⟨c,logged,begun⟩ | ⟨p,b,q,c,after,logged,begun⟩)
        · exact ⟨s,a,t,c,(passesCons meets taken later).mpr (.inl ⟨rfl,rfl,rfl⟩),logged,begun⟩
        · exact ⟨p,b,q,c,(passesCons meets taken later).mpr (.inr after),logged,begun⟩
    have lost : Dropped config index s (a::rest) u ↔ DropsAt index s a ∨ Dropped config index t rest u := by
      constructor
      · rintro ⟨p,answer,q,process,passes,found,drops⟩
        rcases (passesCons meets taken later).mp passes with ⟨rfl,same,rfl⟩ | after
        · exact .inl ⟨answer,process,same.symm,found,drops⟩
        · exact .inr ⟨p,answer,q,process,after,found,drops⟩
      · rintro (⟨answer,process,rfl,found,drops⟩ | ⟨p,answer,q,process,after,found,drops⟩)
        · exact ⟨s,answer,t,process,(passesCons meets taken later).mpr (.inl ⟨rfl,rfl,rfl⟩),found,drops⟩
        · exact ⟨p,answer,q,process,(passesCons meets taken later).mpr (.inr after),found,drops⟩
    have onward := ih (tracksStep tracks meets taken)
    simpa only [began,lost,or_assoc] using onward

theorem returnedIdle {db p} (ending : returned p) : ¬entering db p ∧ working p = none := by
  cases p with
  | snapshot call =>
    obtain ⟨account,pc⟩ := call
    cases pc <;> first
      | exact ⟨id,rfl⟩
      | exact absurd ending id
  | scan call =>
    obtain ⟨account,pageCap,requestCap,pc⟩ := call
    cases pc <;> first
      | exact ⟨id,rfl⟩
      | exact absurd ending id
  | folder call =>
    obtain ⟨account,folder,pc⟩ := call
    cases pc <;> first
      | exact ⟨id,rfl⟩
      | exact absurd ending id
  | write call | consent call => exact ⟨id,rfl⟩

def synchronizes : Process → Prop
  | .snapshot _ | .scan _ | .folder _ => True
  | _ => False

theorem initialEnters {db} {p : Process} (first : p.initial = true) (service : synchronizes p) : entering db p := by
  unfold Process.initial at first
  split at first <;> trivial

/-- No run is left running exactly when the call drops none. -/
theorem runsEndExactly {p} (found : start.processes[index]? = some p) (first : p.initial = true) (service : synchronizes p)
    (run : Transition.Run (World.step config) (Settling index) start labels w)
    (ending : ∃ q, w.processes[index]? = some q ∧ returned q) :
    (∀ runId, Began config index start labels w runId → ¬Running w.db runId) ↔ ¬Dropped config index start labels w := by
  have tracks : Tracks index start (fun _ => False) False :=
    ⟨p,found,.inl ⟨initialEnters first service,fun _ => id,id⟩⟩
  obtain ⟨q,there,done⟩ := ending
  have idle : ¬entering w.db q ∧ working q = none := returnedIdle done
  obtain ⟨q',there',place⟩ := tracksRun run tracks
  rw [there] at there'
  cases Option.some.inj there'
  simp only [false_or] at place
  rcases place with ⟨before,_⟩ | ⟨_,held,_⟩ | ⟨_,exactly⟩
  · exact absurd before idle.1
  · rw [idle.2] at held
    cases held
  · rw [← exactly]
    simp

end Runs

section Sample

instance (p) : Decidable (returned p) := by
  unfold returned
  split <;> infer_instance

def scanning : World :=
  (replay (World.step sampleConfig) free sampleStart
    [.connectAccount ⟨1,7,.connected⟩,.spawn (.scan ⟨1,5,5,.load⟩)]).get (by decide +kernel)

def emptyPage : ProviderPage := ⟨⟨[],⟨[],[],[],[]⟩,[]⟩,none⟩

/- The scan creates its run, fetches one page and goes on. -/
def scans (page : BookmarkPage) (count : Nat) : List Action := advances 0 1 ++ [.advance 0 (.page page)] ++ advances 0 count

def loaded : World := (replay (World.step sampleConfig) free scanning (advances 0 1)).get (by decide +kernel)

def created : World := (World.step sampleConfig loaded (.advance 0 .ok)).get (by decide +kernel)

def scanned : World :=
  (replay (World.step sampleConfig) free created (scans ⟨some ["100"],none⟩ 3)).get (by decide +kernel)

def refusedEnd : World :=
  (replay (World.step sampleConfig) free created (scans (emptyPage.page (fun _ => none)) 1)).get (by decide +kernel)

def firmly : Action → Bool
  | .advance 0 answer => answer ≠ .fault
  | _ => false

theorem settlesFirmly {start w : World} {labels} (firm : ∀ a ∈ labels, firmly a = true)
    (run : Transition.Run (World.step sampleConfig) free start labels w) :
    Transition.Run (World.step sampleConfig) (Settling 0) start labels w := by
  refine run.meets _ ?_
  rintro t a v ⟨before,after,rfl,_⟩
  have answered := firm a (by simp)
  unfold firmly at answered
  split at answered
  · refine ⟨rfl,?_⟩
    rintro _ _ ⟨⟩ _ _
    simpa using answered
  · cases answered

theorem creates : Transition.Run (World.step sampleConfig) (Settling 0) scanning (advances 0 2) created :=
  settlesFirmly (by decide) ((replayRun (Option.some_get _).symm).append
    (.cons trivial (Option.some_get (by decide +kernel)).symm (.nil created)))

theorem scansPage {page count w} (run : Transition.Run (World.step sampleConfig) free created (scans page count) w) :
    Transition.Run (World.step sampleConfig) (Settling 0) created (scans page count) w := by
  refine settlesFirmly ?_ run
  intro a member
  simp only [scans,advances,List.mem_append,List.mem_replicate,List.mem_singleton] at member
  rcases member with (⟨_,rfl⟩ | rfl) | ⟨_,rfl⟩ <;> rfl

theorem returnedBy {w : World} (ended : (w.processes[0]?).any (fun q => decide (returned q)) = true) :
    ∃ q, w.processes[0]? = some q ∧ returned q := by
  obtain ⟨q,found,ending⟩ := (Option.any_eq_true _ _).mp ended
  exact ⟨q,found,of_decide_eq_true ending⟩

theorem runsEndAtCompletion : (scanned.db.syncRuns.find 1).map SyncRun.state = some .completed ∧
    ((∀ runId, Began sampleConfig 0 scanning (advances 0 2 ++ scans ⟨some ["100"],none⟩ 3) scanned runId →
        ¬Running scanned.db runId) ↔
      ¬Dropped sampleConfig 0 scanning (advances 0 2 ++ scans ⟨some ["100"],none⟩ 3) scanned) :=
  ⟨by decide +kernel,runsEndExactly (p := .scan ⟨1,5,5,.load⟩) rfl rfl trivial
    (creates.append (scansPage (replayRun (Option.some_get _).symm))) (returnedBy (by decide +kernel))⟩

theorem refusedPageLeavesRunning : ¬∀ config index start labels w p, start.processes[index]? = some p →
    p.initial = true → synchronizes p → Transition.Run (World.step config) (Settling index) start labels w →
    (∃ q, w.processes[index]? = some q ∧ returned q) →
    ∀ runId, Began config index start labels w runId → ¬Running w.db runId := by
  intro claim
  have later : Transition.Run (World.step sampleConfig) (Settling 0) created (scans (emptyPage.page (fun _ => none)) 1)
      refusedEnd := scansPage (replayRun (Option.some_get _).symm)
  have first : Transition.Run (World.step sampleConfig) (Settling 0) scanning (advances 0 1) loaded :=
    settlesFirmly (by decide) (replayRun (Option.some_get _).symm)
  have taken : World.step sampleConfig loaded (.advance 0 .ok) = some created := (Option.some_get _).symm
  have meets : Settling 0 loaded (.advance 0 .ok) := ⟨rfl,by rintro _ _ ⟨⟩ _ _; simp⟩
  have began : Began sampleConfig 0 scanning (advances 0 2 ++ scans (emptyPage.page (fun _ => none)) 1) refusedEnd 1 :=
    ⟨loaded,.advance 0 .ok,created,.createScan 1,⟨advances 0 1,_,rfl,first,meets,taken,later⟩,rfl,by decide +kernel⟩
  have row : (refusedEnd.db.syncRuns.find 1).map SyncRun.state = some .running := by decide +kernel
  obtain ⟨r,found,state⟩ := Option.map_eq_some_iff.mp row
  exact claim sampleConfig 0 scanning _ refusedEnd (.scan ⟨1,5,5,.load⟩) rfl rfl trivial (creates.append later)
    (returnedBy (by decide +kernel)) 1 began ⟨r,found,state⟩

end Sample
end RatatoskrX.RunEndings
