import RatatoskrX.Memberships

/-! Membership runs of every folder with one runner each. A completed run is never worked
on again, so its snapshot keeps the posts that were staged and the log of the completed
snapshots goes on replaying to the memberships. -/
namespace RatatoskrX.MembershipRuns
open Outcome Relational Schema Snapshot Folders Journal Frames SyncCalls Schedule Transition Staging Registry Observations
open Memberships

def completionOf : Entry → Option FolderRun
  | ⟨_,.commit (.completeFolderRun run _)⟩ => some run
  | _ => none

def completions (log : List Entry) : List FolderRun := log.filterMap completionOf

def completed (log : List Entry) (folder : Uuid) : List Uuid :=
  ((completions log).filter (fun run => run.folderId = folder)).map FolderRun.snapshotId

def recorded (db : Database) (folder : Uuid) (snapshots : List Uuid) : List (Finset Uuid × Finset Uuid) :=
  snapshots.map (fun s => (observed db s folder .added,observed db s folder .removed))

def folderHolder : Process → Option Uuid
  | .folder call => folderRun call.pc
  | _ => none

/- A runner that works on the run and has neither returned nor crashed. -/
def FolderEngaged (w : World) (runId : Uuid) (index : Nat) : Prop :=
  index ∉ w.abandoned ∧ (w.processes[index]?).bind folderHolder = some runId

instance (w runId index) : Decidable (FolderEngaged w runId index) := by
  unfold FolderEngaged; infer_instance

def folderResuming : Process → Option Uuid
  | .folder ⟨_,_,.load (some runId)⟩ => some runId
  | _ => none

/- One runner for each run: nobody resumes a run while another runner works on it. -/
def OneRunner (w : World) : Action → Prop
  | .advance i _ => ∀ runId ∈ (w.processes[i]?).bind folderResuming, ∀ j < w.processes.length, ¬FolderEngaged w runId j
  | _ => True

instance (w a) : Decidable (OneRunner w a) := by
  apply Action.decide <;> (intros; unfold OneRunner; infer_instance)

/- The run of a folder call names one membership run, its snapshot and its folder. -/
def FolderPaired (db : Database) (run : FolderRun) : Prop :=
  OfKind .folderMembership db run.id ∧
    ∃ s, db.snapshots.find run.snapshotId = some s ∧ s.syncRunId = run.id ∧ s.folderId = some run.folderId

theorem snapshotFolder {s s' : Schema.Snapshot} {c : Commit} (moves : SnapshotMoves s s' c) :
    s'.folderId = s.folderId ∧ (s.complete = true → s'.complete = true) := by
  cases c with
  | completeRun account run t | completeFolderRun run t =>
    obtain ⟨pages,rfl⟩ := moves
    split
    · exact ⟨rfl,fun _ => rfl⟩
    · exact ⟨rfl,fun complete => complete⟩
  | _ =>
    cases moves
    exact ⟨rfl,fun complete => complete⟩

theorem folderPairedAfter {c : Commit} {db after run} (applied : c.effect db = some after) (paired : FolderPaired db run) :
    FolderPaired after run := by
  obtain ⟨kind,s,present,own,folder⟩ := paired
  obtain ⟨s',kept,_,same,moves⟩ := snapshotAfter applied present
  exact ⟨kind.after applied,s',kept,same.trans own,(snapshotFolder moves).1.trans folder⟩

theorem createdFolderPaired {db account folder after run} (made : Folders.createRun db account folder = some (after,run)) :
    db.syncRuns.find run.id = none ∧ FolderPaired after run := by
  unfold Folders.createRun at made
  split at made
  · simp only [Option.some.injEq,Prod.mk.injEq] at made
    rw [← made.1,← made.2]
    exact ⟨openedFresh (upsertFolder db account folder).1 account .folderMembership,
      openedKind (upsertFolder db account folder).1 account .folderMembership,
      _,(openedSnapshot ..).trans (if_pos rfl),rfl,rfl⟩
  · simp at made

theorem resumableFolder {db account runId folder run} (found : Folders.findResumable db account runId folder = some run) :
    FolderPaired db run ∧ ∀ row, db.syncRuns.find run.id = some row → row.state ≠ .completed := by
  have kind := (resumableKind found).2
  simp only [Folders.findResumable,bind,Option.bind_eq_some_iff] at found
  obtain ⟨row,present,s,joined,folderId,owned,_,_,last⟩ := found
  split at last
  · rename_i admitted
    cases Option.some.inj last
    have own : s.syncRunId = runId := by simpa using List.find?_some joined
    refine ⟨⟨kind,s,Table.findMem (List.mem_of_find?_eq_some joined),own,owned⟩,?_⟩
    intro row' again done
    rw [present] at again
    cases Option.some.inj again
    rcases admitted.2.2.1 with running | failed
    · simp [running] at done
    · simp [failed] at done
  · simp at last

structure Closed (w : World) (run : FolderRun) : Prop where
  paired : FolderPaired w.db run
  completed : ∀ row, w.db.syncRuns.find run.id = some row → row.state = .completed
  left : ∀ i, ¬FolderEngaged w run.id i
  sealed_ : ∃ s, w.db.snapshots.find run.snapshotId = some s ∧ s.complete = true

/- Who works on which membership run. -/
structure Tended (w : World) : Prop where
  registered : Registered w
  scans : ∀ {i : Nat} {call runId}, w.processes[i]? = some (.scan call) → scanRun call.pc = some runId →
    OfKind .incremental w.db runId
  runners : ∀ {i : Nat} {call run}, w.processes[i]? = some (.folder call) → folderRunOf call.pc = some run →
    FolderPaired w.db run
  alone : ∀ {runId i j}, FolderEngaged w runId i → FolderEngaged w runId j → i = j
  closed : ∀ run ∈ completions w.log, Closed w run

theorem engagedFolder {w : World} {runId i} (engaged : FolderEngaged w runId i) :
    ∃ call, w.processes[i]? = some (.folder call) ∧ folderRun call.pc = some runId := by
  obtain ⟨process,found,holds⟩ := Option.bind_eq_some_iff.mp engaged.2
  cases process with
  | folder call => exact ⟨call,found,holds⟩
  | _ => simp [folderHolder] at holds

theorem folderEngaged {w : World} {runId} {i : Nat} {call} (alive : i ∉ w.abandoned)
    (found : w.processes[i]? = some (.folder call)) (holds : folderRun call.pc = some runId) : FolderEngaged w runId i :=
  ⟨alive,by rw [found]; exact holds⟩

section Step
variable {config : Config} {w t : World} {a : Action}

theorem engagedExists (registered : Registered w) {runId i} (engaged : FolderEngaged w runId i) :
    ∃ row, w.db.syncRuns.find runId = some row := by
  obtain ⟨call,found,holds⟩ := engagedFolder engaged
  obtain ⟨row,present,_⟩ := registered.folders found holds
  exact ⟨row,present⟩

theorem engagedAfter (taken : World.step config w a = some t) (meets : OneRunner w a) {runId i}
    (engaged : FolderEngaged t runId i) :
    FolderEngaged w runId i ∨ ((∃ answer, a = .advance i answer) ∧ (w.db.syncRuns.find runId = none ∨
      ((∀ j, ¬FolderEngaged w runId j) ∧ ∀ row, w.db.syncRuns.find runId = some row → row.state ≠ .completed))) := by
  obtain ⟨call,found,holds⟩ := engagedFolder engaged
  cases stepMove taken with
  | @spawn process first =>
    refine .inl (folderEngaged engaged.1 ?_ holds)
    rcases Nat.lt_trichotomy i w.processes.length with inside | rfl | outside
    · rwa [List.getElem?_append_left inside] at found
    · have last : process = .folder call := by simpa using found
      subst last
      unfold Process.initial at first
      split at first <;> simp_all [folderRun]
    · rw [List.getElem?_eq_none (by simp; omega)] at found
      simp at found
  | @advance index answer process s alive here ok =>
    by_cases mine : index = i
    · subst mine
      have inside : index < w.processes.length := (List.getElem?_eq_some_iff.mp here).1
      simp only [World.take,List.getElem?_set_self inside,Option.some.injEq] at found
      cases process with
      | folder old =>
        obtain ⟨r,next,rfl⟩ := Option.map_eq_some_iff.mp ok
        simp only [Step.map,Process.folder.injEq] at found
        subst found
        generalize afterwards : r.next = pc at holds
        have moves := folderMoves next
        rw [afterwards] at moves
        generalize before : old.pc = from_ at moves
        cases moves with
        | on held held' same =>
          rw [folderRunId held',same] at holds
          exact .inl (folderEngaged alive here (by rw [before]; exact (folderRunId held).trans holds))
        | down held held' => exact .inl (folderEngaged alive here (by rw [before]; exact held.trans (held'.symm.trans holds)))
        | created made =>
          cases Option.some.inj holds
          exact .inr ⟨⟨answer,rfl⟩,.inl (createdFolderPaired made).1⟩
        | @resumed target run present same =>
          cases Option.some.inj holds
          refine .inr ⟨⟨answer,rfl⟩,.inr ⟨?_,(resumableFolder present).2⟩⟩
          intro j other
          have bound : j < w.processes.length := by
            obtain ⟨_,there,_⟩ := engagedFolder other
            exact (List.getElem?_eq_some_iff.mp there).1
          refine meets run.id ?_ j bound other
          obtain ⟨account,folder,pc⟩ := old
          dsimp only at before
          subst before
          rw [here,(resumableKind present).1]
          exact rfl
        | opened form =>
          cases Option.some.inj holds
          exact .inr ⟨⟨answer,rfl⟩,.inl (openedFresh ..)⟩
        | left => simp [folderRun] at holds
      | _ =>
        obtain ⟨r,next,rfl⟩ := Option.map_eq_some_iff.mp ok
        simp [Step.map] at found
    · simp only [World.take,List.getElem?_set_ne mine] at found
      exact .inl (folderEngaged engaged.1 found holds)
  | abandon index => exact .inl (folderEngaged (fun gone => engaged.1 (List.mem_cons_of_mem _ gone)) found holds)
  | tick | external => exact .inl (folderEngaged engaged.1 found holds)

theorem committedBy {p : Process} {c : Commit} (stands : p.commit config w = some c) :
    match c with
    | .stageFolderPage run page t => ∃ call, p = .folder call ∧ call.pc = .stage run page t
    | .completeFolderRun run t => ∃ call, p = .folder call ∧ call.pc = .finalize run t
    | .completeRun _ run t => ∃ call, p = .snapshot call ∧ call.pc = .finalize run t
    | _ => True := by
  cases p with
  | folder call =>
    simp only [Process.commit,FolderPc.commit] at stands
    split at stands <;> cases stands
    all_goals first
      | trivial
      | exact ⟨call,rfl,by assumption⟩
  | snapshot call =>
    simp only [Process.commit,SnapshotPc.commit] at stands
    split at stands <;> cases stands
    all_goals first
      | trivial
      | exact ⟨call,rfl,by assumption⟩
  | scan call =>
    obtain ⟨account,pageCap,requestCap,pc⟩ := call
    cases scanCommits stands <;> trivial
  | write call =>
    simp only [Process.commit,WriteCalls.WriteCall.commit] at stands
    split at stands <;> cases stands <;> trivial
  | consent call =>
    simp only [Process.commit,WriteCalls.ConsentCall.commit] at stands
    split at stands <;> cases stands
    trivial

theorem targetTended (tended : Tended w) {i : Nat} {p : Process} {c : Commit} {runId} (alive : i ∉ w.abandoned)
    (found : w.processes[i]? = some p) (stands : p.commit config w = some c) (target : runTarget c = some runId) :
    FolderEngaged w runId i ∨ ∃ kind, kind ≠ .folderMembership ∧ OfKind kind w.db runId := by
  cases p with
  | folder call =>
    simp only [Process.commit,FolderPc.commit] at stands
    split at stands <;> cases stands
    all_goals first
      | cases Option.some.inj target
      | simp [runTarget] at target
    all_goals exact .inl (folderEngaged alive found (by simp_all [folderRun]))
  | scan call =>
    obtain ⟨account,pageCap,requestCap,pc⟩ := call
    cases scanCommits stands
    all_goals first
      | cases Option.some.inj target
      | simp [runTarget] at target
    all_goals exact .inr ⟨.incremental,by simp,tended.scans found rfl⟩
  | snapshot call =>
    simp only [Process.commit,SnapshotPc.commit] at stands
    split at stands <;> cases stands
    all_goals first
      | cases Option.some.inj target
      | simp [runTarget] at target
    all_goals rename_i pc
    all_goals obtain ⟨⟨⟨row,present,full,_⟩,_⟩,_⟩ := tended.registered.runners found (by rw [pc]; rfl)
    all_goals exact .inr ⟨.full,by simp,row,present,full⟩
  | write call => simp [writeTarget stands] at target
  | consent call => simp [consentTarget stands] at target

theorem closedAfter (tended : Tended w) (taken : World.step config w a = some t) (meets : OneRunner w a) {run}
    (closed : Closed w run) : Closed t run := by
  obtain ⟨row,present,kind⟩ := closed.paired.1
  have unengaged : ∀ i, ¬FolderEngaged t run.id i := by
    intro i engaged
    rcases engagedAfter taken meets engaged with before | ⟨_,absent | ⟨_,unfinished⟩⟩
    · exact closed.left i before
    · rw [present] at absent
      simp at absent
    · exact unfinished row present (closed.completed row present)
  rcases stepCommit taken with same | ⟨c,applied,origin⟩
  · refine ⟨by rw [same]; exact closed.paired,by rw [same]; exact closed.completed,unengaged,by rw [same]; exact closed.sealed_⟩
  · refine ⟨folderPairedAfter applied closed.paired,?_,unengaged,?_⟩
    · intro row' found
      obtain ⟨row'',again,_,moves⟩ := runAfter applied present
      rw [found] at again
      cases Option.some.inj again
      have mine : row.id = run.id := Table.findKey present
      have untouched : runTarget c ≠ some row.id := by
        rw [mine]
        intro target
        rcases origin with ⟨outside,_⟩ | ⟨i,answer,p,rfl,there,stands,_⟩
        · simp [externalUntargeted outside] at target
        · have alive : i ∉ w.abandoned := by
            intro gone
            simp [World.step,gone] at taken
          rcases targetTended tended alive there stands target with engaged | ⟨kind',other,row3,again,same⟩
          · exact closed.left i engaged
          · rw [present] at again
            cases Option.some.inj again
            exact other (same.symm.trans kind)
      rw [runUntouched moves untouched]
      exact closed.completed row present
    · obtain ⟨s,there,complete⟩ := closed.sealed_
      obtain ⟨s',kept,_,_,moves⟩ := snapshotAfter applied there
      exact ⟨s',kept,(snapshotFolder moves).2 complete⟩

theorem closedBy (tended : Tended w) (taken : World.step config w a = some t) (meets : OneRunner w a) {i run instant}
    (logged : t.log = w.log ++ [⟨i,.commit (.completeFolderRun run instant)⟩]) : Closed t run := by
  have ok := accepted (loggedEffect taken logged)
  cases wroteEntry taken logged with
  | external outside _ _ => simp [External] at outside
  | spoken _ _ _ utters _ =>
    unfold WriteCalls.WriteCall.utters at utters
    split at utters <;> simp at utters
  | @commit _ j answer p s c found next form stands applied answered =>
    obtain ⟨call,rfl,pc⟩ := committedBy stands
    have alive : j ∉ w.abandoned := by
      intro gone
      simp [World.step,gone] at taken
    have paired := tended.runners found (by rw [pc]; rfl)
    have runner : FolderEngaged w run.id j := folderEngaged alive found (by rw [pc]; rfl)
    have returned : ¬FolderEngaged t run.id j := by
      intro engaged
      obtain ⟨call',found',holds⟩ := engagedFolder engaged
      obtain ⟨r,ended,rfl⟩ := Option.map_eq_some_iff.mp next
      have inside : j < w.processes.length := (List.getElem?_eq_some_iff.mp found).1
      rw [form] at found'
      simp only [World.take,List.getElem?_set_self inside,Step.map,Option.some.injEq,Process.folder.injEq] at found'
      subst found'
      rw [pc] at ended
      simp only [FolderPc.next] at ended
      rcases transactCases ended with ⟨_,_,⟨_,rfl⟩ | ⟨_,rfl⟩⟩ | ⟨_,_,rfl⟩ | ⟨_,rfl⟩ <;> simp [folderRun] at holds
    obtain ⟨locked,statistics,finished⟩ := Folders.completedForm ok
    refine ⟨folderPairedAfter applied paired,?_,?_,?_⟩
    · intro row present
      rw [finished] at present
      have rows := recordedRun (recordAbsentMemberships (upsertActiveMemberships
        (recordAddedObservations w.db run instant) run) run instant).1 run.id run.snapshotId instant statistics run.id
      obtain ⟨old,was,same⟩ := Option.map_eq_some_iff.mp (rows.symm.trans present)
      have mine : old.id = run.id := Table.findKey was
      rw [if_pos mine] at same
      rw [← same]
    · intro k engaged
      rcases engagedAfter taken meets engaged with before | ⟨⟨answer',same⟩,_⟩
      · cases tended.alone before runner
        exact returned engaged
      · cases same
        exact returned engaged
    · obtain ⟨_,s,present,_,_⟩ := paired
      obtain ⟨s',kept,_,_,pages,sealed_⟩ := snapshotAfter applied present
      have mine : s.id = run.snapshotId := Table.findKey present
      rw [if_pos mine] at sealed_
      exact ⟨s',kept,by rw [sealed_]⟩

theorem completionsEntry (log : List Entry) (e : Entry) :
    completions (log ++ [e]) = completions log ++ (completionOf e).toList := by
  simp only [completions,List.filterMap_append]
  cases found : completionOf e <;> simp [found]

theorem runnersStep (runners : ∀ {i : Nat} {call run}, w.processes[i]? = some (.folder call) →
      folderRunOf call.pc = some run → FolderPaired w.db run)
    (taken : World.step config w a = some t) {j : Nat} {call run} (found : t.processes[j]? = some (.folder call))
    (holds : folderRunOf call.pc = some run) : FolderPaired t.db run := by
  rcases stepView taken found with ⟨answer,old,s,rfl,here,ok,next,form⟩ | ⟨first,_⟩ | ⟨here,_⟩
  · cases old with
    | folder before =>
      obtain ⟨r,stepped,rfl⟩ := Option.map_eq_some_iff.mp ok
      simp only [Step.map,Process.folder.injEq] at next
      subst next
      generalize afterwards : r.next = pc at holds
      have moves := folderMoves stepped
      rw [afterwards] at moves
      generalize came : before.pc = from_ at moves
      cases moves with
      | @on _ _ run0 run1 held held' same snapshot folder =>
        rw [held'] at holds
        cases Option.some.inj holds
        have paired := stepKeeps taken folderPairedAfter (runners here (by rw [came]; exact held))
        unfold FolderPaired at paired ⊢
        rw [same,snapshot,folder]
        exact paired
      | down _ _ ended =>
        rw [ended] at holds
        simp at holds
      | created made =>
        cases Option.some.inj holds
        rw [form]
        exact (createdFolderPaired made).2
      | resumed present same =>
        cases Option.some.inj holds
        exact stepKeeps taken folderPairedAfter (resumableFolder present).1
      | opened => simp [folderRunOf] at holds
      | left => simp [folderRunOf] at holds
    | _ =>
      obtain ⟨r,stepped,rfl⟩ := Option.map_eq_some_iff.mp ok
      simp [Step.map] at next
  · unfold Process.initial at first
    split at first <;> simp_all [folderRunOf]
  · exact stepKeeps taken folderPairedAfter (runners here holds)

theorem tendedStep (tended : Tended w) (taken : World.step config w a = some t) (meets : OneRunner w a) : Tended t := by
  refine ⟨registeredStep tended.registered taken,?_,?_,?_,?_⟩
  · intro j call runId found holds
    rcases stepView taken found with ⟨answer,old,s,rfl,here,ok,next,form⟩ | ⟨first,_⟩ | ⟨here,_⟩
    · rcases scanNext ok next.symm holds with ⟨before,rfl,held⟩ | opened
      · exact stepKeeps taken (fun applied mine => OfKind.after mine applied) (tended.scans here held)
      · rw [form]
        exact opened
    · unfold Process.initial at first
      split at first <;> simp_all [scanRun]
    · exact stepKeeps taken (fun applied mine => OfKind.after mine applied) (tended.scans here holds)
  · exact fun found holds => runnersStep tended.runners taken found holds
  · intro runId i j first second
    rcases engagedAfter taken meets first with before | ⟨⟨answer,rfl⟩,fresh⟩
    · rcases engagedAfter taken meets second with before' | ⟨_,absent | ⟨nobody,_⟩⟩
      · exact tended.alone before before'
      · obtain ⟨row,present⟩ := engagedExists tended.registered before
        rw [absent] at present
        simp at present
      · exact absurd before (nobody i)
    · rcases engagedAfter taken meets second with before' | ⟨⟨answer',same⟩,_⟩
      · rcases fresh with absent | ⟨nobody,_⟩
        · obtain ⟨row,present⟩ := engagedExists tended.registered before'
          rw [absent] at present
          simp at present
        · exact absurd before' (nobody j)
      · cases same
        rfl
  · intro run member
    rcases logAfter taken with ⟨logged,_⟩ | ⟨e,logged,_⟩
    · rw [logged] at member
      exact closedAfter tended taken meets (tended.closed run member)
    · rw [logged,completionsEntry] at member
      rcases List.mem_append.mp member with old | new
      · exact closedAfter tended taken meets (tended.closed run old)
      · obtain ⟨i,event⟩ := e
        unfold completionOf at new
        split at new
        · rename_i same
          cases same
          cases List.mem_singleton.mp new
          exact closedBy tended taken meets logged
        · simp at new

end Step

theorem completedEntry (log : List Entry) (e : Entry) (folder) :
    completed (log ++ [e]) folder = completed log folder ++
      (((completionOf e).filter (fun run => run.folderId = folder)).map FolderRun.snapshotId).toList := by
  unfold completed
  rw [completionsEntry,List.filter_append,List.map_append]
  congr 1
  cases completionOf e with
  | none => rfl
  | some run => by_cases mine : run.folderId = folder <;> simp [Option.filter,mine]

theorem memCompleted {log : List Entry} {folder snapshot} : snapshot ∈ completed log folder ↔
    ∃ run ∈ completions log, run.folderId = folder ∧ run.snapshotId = snapshot := by
  simp [completed,and_assoc]

structure Logged (w : World) : Prop where
  replayed : ∀ folder, foldLog (recorded w.db folder (completed w.log folder)) = members w.db folder
  noted : ∀ s f p k, (w.db.membershipObservations.find (s,f,p,k)).isSome = true → s ∈ completed w.log f
  disjoint : ∀ s f, Disjoint (observed w.db s f .added) (observed w.db s f .removed)
  distinct : ∀ folder, (completed w.log folder).Nodup
  latest : ∀ folder snapshot, (completed w.log folder).getLast? = some snapshot →
    members w.db folder = staged w.db snapshot
  authority : ∀ folder, (w.db.folderAuthority.find folder).map FolderAuthority.snapshotId =
    (completed w.log folder).getLast?
  owned : ∀ id s, w.db.snapshots.find id = some s → s.folderId = none ∨ OfKind .folderMembership w.db s.syncRunId
  listed : ∀ folder snapshot s, w.db.snapshots.find snapshot = some s → s.folderId = some folder → s.complete = true →
    snapshot ∈ completed w.log folder

theorem membersSame {db after : Database} (same : after.folderItems = db.folderItems) (folder) :
    members after folder = members db folder := by
  unfold members
  rw [same]

theorem observedSame {db after : Database} {snapshot folder : Uuid}
    (same : ∀ p k, after.membershipObservations.find (snapshot,folder,p,k) =
      db.membershipObservations.find (snapshot,folder,p,k)) (kind) :
    observed after snapshot folder kind = observed db snapshot folder kind := by
  ext p
  rw [memObserved,memObserved,same]

theorem stagedSame {db after : Database} {snapshot : Uuid}
    (same : ∀ p, after.folderSnapshotItems.find (snapshot,p) = db.folderSnapshotItems.find (snapshot,p)) :
    staged after snapshot = staged db snapshot := by
  ext p
  rw [memStaged,memStaged,same]

theorem stagedElsewhere {db after run page instant} (ok : Folders.stagePage db run page instant = .ok after) {snapshot}
    (other : snapshot ≠ run.snapshotId) (p) :
    after.folderSnapshotItems.find (snapshot,p) = db.folderSnapshotItems.find (snapshot,p) := by
  obtain ⟨providerIds,items,_,rfl⟩ := Folders.stagedForm ok
  refine (stageFolderItemsFind instant run.snapshotId _ _ snapshot p).trans ?_
  rw [if_neg (fun both => other both.1.symm),(persistPostsFrame providerIds db).folderSnapshotItems (by simp)]

section LoggedStep
variable {config : Config} {w t : World} {a : Action}

theorem stagedKept (tended : Tended w) (taken : World.step config w a = some t) {folder snapshot}
    (done : snapshot ∈ completed w.log folder) : staged t.db snapshot = staged w.db snapshot := by
  rcases stepCommit taken with same | ⟨c,applied,origin⟩
  · rw [same]
  obtain ⟨run,member,_,rfl⟩ := memCompleted.mp done
  have closed := tended.closed run member
  have agree := frame applied
  refine stagedSame (fun p => ?_)
  cases c with
  | stageFolderPage run' page instant =>
    rcases origin with ⟨outside,_⟩ | ⟨i,answer,process,rfl,there,stands,_⟩
    · simp [External] at outside
    obtain ⟨call,rfl,pc⟩ := committedBy stands
    refine stagedElsewhere (accepted applied) ?_ p
    -- a runner that stages into the snapshot would still work on its run
    intro same
    obtain ⟨_,s',present',own',_⟩ := tended.runners there (by rw [pc]; rfl)
    obtain ⟨_,s,present,own,_⟩ := closed.paired
    rw [← same,present] at present'
    cases Option.some.inj present'
    have alive : i ∉ w.abandoned := by
      intro gone
      simp [World.step,gone] at taken
    refine closed.left i (folderEngaged alive there ?_)
    rw [pc,← own,own']
    rfl
  | _ => rw [agree.folderSnapshotItems (by simp [touched])]

theorem completionFresh (tended : Tended w) {run} (locked : Folders.lockFinalization w.db run = true) (folder) :
    run.snapshotId ∉ completed w.log folder := by
  intro done
  obtain ⟨run',member,_,same⟩ := memCompleted.mp done
  obtain ⟨s,present,complete⟩ := (tended.closed run' member).sealed_
  unfold Folders.lockFinalization at locked
  rw [← same,present] at locked
  split at locked
  · rename_i s' _ there _
    cases Option.some.inj there
    simp [complete] at locked
  · simp at locked

theorem loggedCompletion (tended : Tended w) (logged : Logged w) {i run instant}
    (taken : World.step config w a = some t) (entry : t.log = w.log ++ [⟨i,.commit (.completeFolderRun run instant)⟩]) :
    (∀ folder, foldLog (recorded t.db folder (completed t.log folder)) = members t.db folder) ∧
      (∀ s f p k, (t.db.membershipObservations.find (s,f,p,k)).isSome = true → s ∈ completed t.log f) ∧
      (∀ s f, Disjoint (observed t.db s f .added) (observed t.db s f .removed)) ∧
      (∀ folder, (completed t.log folder).Nodup) ∧
      (∀ folder snapshot, (completed t.log folder).getLast? = some snapshot →
        members t.db folder = staged t.db snapshot) ∧
      ∀ folder, (t.db.folderAuthority.find folder).map FolderAuthority.snapshotId = (completed t.log folder).getLast? := by
  have applied := loggedEffect taken entry
  have ok := accepted applied
  obtain ⟨locked,_⟩ := Folders.completedForm ok
  have fresh := completionFresh tended locked
  have grows : ∀ folder, completed t.log folder =
      completed w.log folder ++ if run.folderId = folder then [run.snapshotId] else [] := by
    intro folder
    rw [entry,completedEntry]
    by_cases mine : run.folderId = folder <;> simp [completionOf,mine]
  have observations := completedObservations ok
  have earlier : ∀ folder, recorded t.db folder (completed w.log folder) = recorded w.db folder (completed w.log folder) := by
    intro folder
    refine List.map_congr_left (fun s member => ?_)
    have other : s ≠ run.snapshotId := by
      rintro rfl
      exact fresh folder member
    have same : ∀ p k, t.db.membershipObservations.find (s,folder,p,k) =
        w.db.membershipObservations.find (s,folder,p,k) := by
      intro p k
      rw [observations,if_neg (fun h => other h.1),Option.or_none]
    rw [observedSame same,observedSame same]
  have before : ∀ p k, w.db.membershipObservations.find (run.snapshotId,run.folderId,p,k) = none := by
    intro p k
    cases found : w.db.membershipObservations.find (run.snapshotId,run.folderId,p,k) with
    | none => rfl
    | some o => exact absurd (logged.noted _ _ p k (by rw [found]; rfl)) (fresh run.folderId)
  have added : observed t.db run.snapshotId run.folderId .added =
      staged w.db run.snapshotId \ members w.db run.folderId := by
    ext p
    rw [memObserved,observations,before]
    simp
  have removed : observed t.db run.snapshotId run.folderId .removed =
      members w.db run.folderId \ staged w.db run.snapshotId := by
    ext p
    rw [memObserved,observations,before]
    simp
  have kept : ∀ {folder}, folder ≠ run.folderId → members t.db folder = members w.db folder := by
    intro folder other
    ext p
    rw [memMembers,memMembers,completedOther ok other]
  have items : t.db.folderSnapshotItems = w.db.folderSnapshotItems :=
    (frame applied).folderSnapshotItems (by simp [touched])
  have posts : ∀ snapshot, staged t.db snapshot = staged w.db snapshot :=
    fun snapshot => stagedSame (fun p => by rw [items])
  refine ⟨?_,?_,?_,?_,?_,?_⟩
  · intro folder
    by_cases mine : run.folderId = folder
    · subst mine
      rw [grows,if_pos rfl,recorded,List.map_append]
      change foldLog (recorded t.db run.folderId (completed w.log run.folderId) ++ [(_,_)]) = _
      rw [foldSnoc,earlier,logged.replayed,added,removed,foldDifference,completedMembers ok]
    · rw [grows,if_neg mine,List.append_nil,earlier,logged.replayed,kept (Ne.symm mine)]
  · intro s f p k there
    rw [observations] at there
    rw [grows]
    cases found : w.db.membershipObservations.find (s,f,p,k) with
    | some o => exact List.mem_append_left _ (logged.noted s f p k (by rw [found]; rfl))
    | none =>
      rw [found,Option.none_or] at there
      split at there
      · rename_i mine
        rw [mine.1,if_pos mine.2.1.symm]
        exact List.mem_append_right _ (List.mem_singleton_self _)
      · simp at there
  · intro s f
    by_cases mine : s = run.snapshotId ∧ f = run.folderId
    · obtain ⟨rfl,rfl⟩ := mine
      rw [added,removed]
      exact disjoint_sdiff_sdiff
    · have same : ∀ p k, t.db.membershipObservations.find (s,f,p,k) = w.db.membershipObservations.find (s,f,p,k) := by
        intro p k
        rw [observations,if_neg (fun h => mine ⟨h.1,h.2.1⟩),Option.or_none]
      rw [observedSame same,observedSame same]
      exact logged.disjoint s f
  · intro folder
    rw [grows]
    by_cases mine : run.folderId = folder
    · rw [if_pos mine]
      exact (logged.distinct folder).append (List.nodup_singleton _) (by simpa using fresh folder)
    · rw [if_neg mine,List.append_nil]
      exact logged.distinct folder
  · intro folder snapshot last
    rw [grows] at last
    by_cases mine : run.folderId = folder
    · subst mine
      rw [if_pos rfl,List.getLast?_concat] at last
      cases Option.some.inj last
      rw [completedMembers ok,posts]
    · rw [if_neg mine,List.append_nil] at last
      rw [kept (Ne.symm mine),posts]
      exact logged.latest folder snapshot last
  · intro folder
    rw [completedAuthority ok,grows]
    by_cases mine : run.folderId = folder
    · rw [if_pos mine,if_pos mine,List.getLast?_concat]
    · rw [if_neg mine,if_neg mine,List.append_nil]
      exact logged.authority folder

theorem untouchedElse (taken : World.step config w a = some t)
    (other : ∀ i run instant, t.log ≠ w.log ++ [⟨i,.commit (.completeFolderRun run instant)⟩]) :
    t.db.folderItems = w.db.folderItems ∧ t.db.membershipObservations = w.db.membershipObservations ∧
      t.db.folderAuthority = w.db.folderAuthority ∧ ∀ folder, completed t.log folder = completed w.log folder := by
  have silent : ∀ e, t.log = w.log ++ [e] → completionOf e = none := by
    rintro ⟨i,event⟩ logged
    cases found : completionOf ⟨i,event⟩ with
    | none => rfl
    | some run =>
      unfold completionOf at found
      split at found
      · rename_i same
        cases same
        exact (other _ _ _ logged).elim
      · simp at found
  have still : ∀ folder, completed t.log folder = completed w.log folder := by
    intro folder
    rcases logAfter taken with ⟨logged,_⟩ | ⟨e,logged,_⟩
    · rw [logged]
    · rw [logged,completedEntry,silent e logged]
      simp
  rcases stepLogs taken with same | ⟨i,c,logged,applied⟩
  · rw [same]
    exact ⟨rfl,rfl,rfl,still⟩
  · have agree := frame applied
    cases c with
    | completeFolderRun run instant => exact (other _ _ _ logged).elim
    | _ =>
      exact ⟨agree.folderItems (by simp [touched]),agree.membershipObservations (by simp [touched]),
        agree.folderAuthority (by simp [touched]),still⟩

theorem ownedAfter {c : Commit} {db after} (applied : c.effect db = some after)
    (owned : ∀ id s, db.snapshots.find id = some s → s.folderId = none ∨ OfKind .folderMembership db s.syncRunId) {id s'}
    (found : after.snapshots.find id = some s') : s'.folderId = none ∨ OfKind .folderMembership after s'.syncRunId := by
  cases before : db.snapshots.find id with
  | none =>
    obtain ⟨row,later,kind⟩ := (snapshotOpened applied before found).run
    exact kind.imp_right (fun membership => ⟨row,later,membership⟩)
  | some s =>
    obtain ⟨_,again,_,run,moves⟩ := snapshotAfter applied before
    rw [found] at again
    cases Option.some.inj again
    rw [(snapshotFolder moves).1,run]
    exact (owned id s before).imp_right (fun kind => kind.after applied)

theorem listedAfter (tended : Tended w) (logged : Logged w) (taken : World.step config w a = some t) {folder snapshot s'}
    (found : t.db.snapshots.find snapshot = some s') (mine : s'.folderId = some folder) (complete : s'.complete = true) :
    snapshot ∈ completed t.log folder := by
  have kept : snapshot ∈ completed w.log folder → snapshot ∈ completed t.log folder := by
    intro earlier
    rcases logAfter taken with ⟨same,_⟩ | ⟨e,same,_⟩
    · rwa [same]
    · rw [same,completedEntry]
      exact List.mem_append_left _ earlier
  rcases stepLogs taken with same | ⟨i,c,entry,applied⟩
  · rw [same] at found
    exact kept (logged.listed folder snapshot s' found mine complete)
  cases before : w.db.snapshots.find snapshot with
  | none =>
    rw [(snapshotOpened applied before found).incomplete] at complete
    simp at complete
  | some s =>
    obtain ⟨_,again,_,_,moves⟩ := snapshotAfter applied before
    rw [found] at again
    cases Option.some.inj again
    have folder_ := (snapshotFolder moves).1
    have earlier : s.complete = true → snapshot ∈ completed t.log folder :=
      fun was => kept (logged.listed folder snapshot s before (folder_.symm.trans mine) was)
    have id : s.id = snapshot := Table.findKey before
    have committed : ∀ {j : Nat} {p : Process}, w.processes[j]? = some p → p.commit config w = some c →
        snapshot ∈ completed t.log folder := by
      intro j p there stands
      have by_ := committedBy stands
      cases c with
      | completeRun account run instant =>
        obtain ⟨call,rfl,pc⟩ := by_
        obtain ⟨⟨⟨row,present,full,_⟩,s₁,present₁,own⟩,_⟩ := tended.registered.runners there (by rw [pc]; rfl)
        obtain ⟨pages,form⟩ := moves
        by_cases same : s.id = run.snapshotId
        · -- the snapshot of a full run belongs to no folder
          rw [← same,id,before] at present₁
          cases Option.some.inj present₁
          rcases logged.owned snapshot s before with none | ⟨row',present',kind⟩
          · rw [folder_,none] at mine
            simp at mine
          · rw [own,present] at present'
            cases Option.some.inj present'
            simp [full] at kind
        · rw [if_neg same] at form
          exact earlier (form ▸ complete)
      | completeFolderRun run instant =>
        obtain ⟨call,rfl,pc⟩ := by_
        obtain ⟨_,s₁,present₁,_,own⟩ := tended.runners there (by rw [pc]; rfl)
        obtain ⟨pages,form⟩ := moves
        by_cases same : s.id = run.snapshotId
        · rw [← same,id,before] at present₁
          cases Option.some.inj present₁
          rw [folder_,own] at mine
          rw [entry,completedEntry]
          refine List.mem_append_right _ ?_
          simp [completionOf,Option.filter,Option.some.inj mine,← same,id]
        · rw [if_neg same] at form
          exact earlier (form ▸ complete)
      | _ =>
        cases moves
        exact earlier complete
    cases wroteEntry taken entry with
    | external outside _ _ =>
      cases c with
      | completeRun | completeFolderRun => simp [External] at outside
      | _ =>
        cases moves
        exact earlier complete
    | commit there _ _ stands _ _ => exact committed there stands
    | spoken _ _ _ utters _ =>
      unfold WriteCalls.WriteCall.utters at utters
      split at utters <;> simp at utters

theorem loggedStep (tended : Tended w) (logged : Logged w) (taken : World.step config w a = some t) : Logged t := by
  have owned : ∀ id s, t.db.snapshots.find id = some s → s.folderId = none ∨ OfKind .folderMembership t.db s.syncRunId := by
    rcases stepCommit taken with same | ⟨c,applied,_⟩
    · rw [same]
      exact logged.owned
    · exact fun id s found => ownedAfter applied logged.owned found
  have listed : ∀ folder snapshot s, t.db.snapshots.find snapshot = some s → s.folderId = some folder →
      s.complete = true → snapshot ∈ completed t.log folder :=
    fun folder snapshot s found mine complete => listedAfter tended logged taken found mine complete
  by_cases completes : ∃ i run instant, t.log = w.log ++ [⟨i,.commit (.completeFolderRun run instant)⟩]
  · obtain ⟨i,run,instant,entry⟩ := completes
    obtain ⟨replayed,noted,disjoint,distinct,latest,authority⟩ := loggedCompletion tended logged taken entry
    exact ⟨replayed,noted,disjoint,distinct,latest,authority,owned,listed⟩
  · obtain ⟨items,observations,authority,still⟩ := untouchedElse taken
      (fun i run instant entry => completes ⟨i,run,instant,entry⟩)
    refine ⟨?_,?_,?_,?_,?_,?_,owned,listed⟩
    · intro folder
      have same : recorded t.db folder (completed w.log folder) = recorded w.db folder (completed w.log folder) :=
        List.map_congr_left (fun s _ => Prod.ext (observedSame (fun _ _ => by rw [observations]) _)
          (observedSame (fun _ _ => by rw [observations]) _))
      rw [still,same,membersSame items]
      exact logged.replayed folder
    · intro s f p k there
      rw [observations] at there
      rw [still]
      exact logged.noted s f p k there
    · intro s f
      have same : ∀ k, observed t.db s f k = observed w.db s f k := observedSame (fun _ _ => by rw [observations])
      rw [same,same]
      exact logged.disjoint s f
    · intro folder
      rw [still]
      exact logged.distinct folder
    · intro folder snapshot last
      rw [still] at last
      rw [membersSame items,stagedKept tended taken (List.mem_of_getLast? last)]
      exact logged.latest folder snapshot last
    · intro folder
      rw [still,authority]
      exact logged.authority folder

end LoggedStep

section Runs
variable {config : Config} {now : DateTime} {labels : List Action} {w : World}

theorem tendedStart (now) : Tended (World.start Database.empty now) where
  registered := registeredStart now
  scans := by simp [World.start]
  runners := by simp [World.start]
  alone := by simp [FolderEngaged,World.start]
  closed := by simp [World.start,completions]

theorem loggedStart (now) : Logged (World.start Database.empty now) where
  replayed := by simp [World.start,completed,completions,recorded,foldLog,members,Database.empty,Table.empty]
  noted := by simp [World.start,Database.empty,Table.empty,Table.find]
  disjoint := by simp [World.start,observed,Database.empty,Table.empty]
  distinct := by simp [World.start,completed,completions]
  latest := by simp [World.start,completed,completions]
  authority := by simp [World.start,completed,completions,Database.empty,Table.empty,Table.find]
  owned := by simp [World.start,Database.empty,Table.empty,Table.find]
  listed := by simp [World.start,Database.empty,Table.empty,Table.find]

theorem loggedRun (run : Transition.Run (World.step config) OneRunner (World.start Database.empty now) labels w) :
    Tended w ∧ Logged w := by
  refine run.preserves (fun w => Tended w ∧ Logged w) ?_ ⟨tendedStart now,loggedStart now⟩
  rintro p a q ⟨tended,logged⟩ meets taken
  exact ⟨tendedStep tended taken meets,loggedStep tended logged taken⟩

/- The log of every folder against its rows: the observations of its completed snapshots
replay to its active memberships. -/
structure Replays (w : World) : Prop where
  replayed : ∀ folder, foldLog (recorded w.db folder (completed w.log folder)) = members w.db folder
  disjoint : ∀ s f, Disjoint (observed w.db s f .added) (observed w.db s f .removed)
  latest : ∀ folder snapshot, (completed w.log folder).getLast? = some snapshot →
    members w.db folder = staged w.db snapshot
  listed : ∀ folder snapshot, snapshot ∈ completed w.log folder ↔
    ∃ s, w.db.snapshots.find snapshot = some s ∧ s.folderId = some folder ∧ s.complete = true
  distinct : ∀ folder, (completed w.log folder).Nodup
  noted : ∀ s f p k, (w.db.membershipObservations.find (s,f,p,k)).isSome = true → s ∈ completed w.log f
  authority : ∀ folder, (w.db.folderAuthority.find folder).map FolderAuthority.snapshotId =
    (completed w.log folder).getLast?

/- A step records an addition of a post that was no member, or a removal of one that was. -/
def Records (p q : World) : Prop :=
  ∀ s f post k, p.db.membershipObservations.find (s,f,post,k) = none →
    (q.db.membershipObservations.find (s,f,post,k)).isSome = true →
      match k with
      | .added => post ∉ members p.db f
      | .removed => post ∈ members p.db f

def Completes (p q : World) (run : FolderRun) : Prop :=
  ∃ i instant, q.log = p.log ++ [⟨some i,.commit (.completeFolderRun run instant)⟩]

/- A step that completes no run leaves every folder, and one that does every other folder. -/
structure Confined (p q : World) : Prop where
  others : ∀ run, Completes p q run → ∀ folder, folder ≠ run.folderId →
    (∀ post, q.db.folderItems.find (folder,post) = p.db.folderItems.find (folder,post)) ∧
      (∀ s post k, q.db.membershipObservations.find (s,folder,post,k) = p.db.membershipObservations.find (s,folder,post,k)) ∧
      (q.db.folderAuthority.find folder).map FolderAuthority.snapshotId =
        (p.db.folderAuthority.find folder).map FolderAuthority.snapshotId
  otherwise : (∀ run, ¬Completes p q run) → q.db.folderItems = p.db.folderItems ∧
    q.db.membershipObservations = p.db.membershipObservations ∧ q.db.folderAuthority = p.db.folderAuthority

theorem completesIff {p q : World} {a} (taken : World.step config p a = some q) {i run instant}
    (entry : q.log = p.log ++ [⟨i,.commit (.completeFolderRun run instant)⟩]) : Completes p q run := by
  cases wroteEntry taken entry with
  | external outside _ _ => simp [External] at outside
  | commit _ _ _ _ _ _ => exact ⟨_,instant,entry⟩
  | spoken _ _ _ utters _ =>
    unfold WriteCalls.WriteCall.utters at utters
    split at utters <;> simp at utters

theorem recordsStep {p q : World} {a} (taken : World.step config p a = some q) : Records p q := by
  intro s f post k absent present
  by_cases completes : ∃ i run instant, q.log = p.log ++ [⟨i,.commit (.completeFolderRun run instant)⟩]
  · obtain ⟨i,run,instant,entry⟩ := completes
    rw [completedObservations (accepted (loggedEffect taken entry)),absent,Option.none_or] at present
    split at present
    · rename_i mine
      obtain ⟨_,rfl,⟨rfl,new⟩ | ⟨rfl,gone⟩⟩ := mine
      · exact (Finset.mem_sdiff.mp new).2
      · exact (Finset.mem_sdiff.mp gone).1
    · simp at present
  · rw [(untouchedElse taken (fun i run instant entry => completes ⟨i,run,instant,entry⟩)).2.1,absent] at present
    simp at present

theorem confinedStep {p q : World} {a} (taken : World.step config p a = some q) : Confined p q := by
  constructor
  · rintro run ⟨i,instant,entry⟩ folder other
    have ok := accepted (loggedEffect taken entry)
    refine ⟨fun post => completedOther ok other,?_,?_⟩
    · intro s post k
      rw [completedObservations ok,if_neg (fun h => other h.2.1),Option.or_none]
    · rw [completedAuthority ok,if_neg (Ne.symm other)]
  · intro none
    obtain ⟨items,observations,authority,_⟩ := untouchedElse taken
      (fun i run instant entry => none run (completesIff taken entry))
    exact ⟨items,observations,authority⟩

/- With one runner for each run, the log of a folder's completed snapshots replays to its
active memberships, and nothing but a completion of its own runs changes them. -/
theorem membershipReplays (config : Config) (now : DateTime) (labels : List Action) (w : World)
    (run : Transition.Run (World.step config) OneRunner (World.start Database.empty now) labels w) :
    Replays w ∧ ∀ p a q, Passes (World.step config) OneRunner (World.start Database.empty now) labels w p a q →
      Records p q ∧ Confined p q := by
  obtain ⟨tended,logged⟩ := loggedRun run
  refine ⟨⟨logged.replayed,logged.disjoint,logged.latest,?_,logged.distinct,logged.noted,logged.authority⟩,?_⟩
  · intro folder snapshot
    constructor
    · intro done
      obtain ⟨ended,member,rfl,rfl⟩ := memCompleted.mp done
      have closed := tended.closed ended member
      obtain ⟨s,present,complete⟩ := closed.sealed_
      obtain ⟨_,s',present',_,own⟩ := closed.paired
      rw [present] at present'
      cases Option.some.inj present'
      exact ⟨s,present,own,complete⟩
    · rintro ⟨s,present,mine,complete⟩
      exact logged.listed folder snapshot s present mine complete
  · rintro p a q ⟨before,after,_,_,_,taken,_⟩
    exact ⟨recordsStep taken,confinedStep taken⟩

/- A folder of two posts; the first leaves it and re-enters, with a failed run between. -/
def folderRunOnce (index : Nat) (posts : List String) : List Action :=
  [.spawn (.folder ⟨1,⟨"folder",none⟩,.load none⟩)] ++ advances index 2 ++ [.advance index (.page ⟨some posts,none⟩)] ++
    advances index 3

def reentered : List Action :=
  [.connectAccount ⟨1,7,.connected⟩] ++ folderRunOnce 0 ["100","200"] ++ folderRunOnce 1 ["200"] ++
    [.spawn (.folder ⟨1,⟨"folder",none⟩,.load none⟩)] ++ advances 2 2 ++ [.advance 2 .unavailable,.advance 2 .ok] ++
    folderRunOnce 3 ["100","200"]

def reenteredEnd : World := (replay (World.step sampleConfig) OneRunner sampleStart reentered).get (by decide +kernel)

theorem membershipReplaysReentered :
    (completed reenteredEnd.log 1 = [1,2,4] ∧ members reenteredEnd.db 1 = {1,2} ∧
      recorded reenteredEnd.db 1 [1,2,4] = [({1,2},∅),(∅,{1}),({1},∅)]) ∧ Replays reenteredEnd :=
  ⟨by decide +kernel,
    (membershipReplays sampleConfig sampleInstant _ reenteredEnd (replayRun (Option.some_get _).symm)).1⟩

end Runs

end RatatoskrX.MembershipRuns
