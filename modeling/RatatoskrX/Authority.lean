import RatatoskrX.Registry

/-! Whether a completed snapshot stays what it was when it was reconciled. The guard
of stage_page covers its counters and not its items, and the updates of resume_run and
mark_failed have no guard, so a second runner of one run can write after completion. -/
namespace RatatoskrX.Authority
open Outcome Relational Schema Snapshot Journal Frames Reconciliation SyncCalls Schedule Transition Staging Registry

/- What must not change of a completed snapshot: its items, the rows of the snapshot
and of its run in the columns that were settled. -/
structure Frozen (run : Run) (db after : Database) : Prop where
  items : ∀ post, after.snapshotItems.find (run.snapshotId,post) = db.snapshotItems.find (run.snapshotId,post)
  snapshot : ∃ s s', db.snapshots.find run.snapshotId = some s ∧ after.snapshots.find run.snapshotId = some s' ∧
    s.complete = true ∧ s'.complete = true ∧ s'.pageCount = s.pageCount
  run : ∃ r r', db.syncRuns.find run.id = some r ∧ after.syncRuns.find run.id = some r' ∧
    r.state = .completed ∧ r'.state = .completed ∧ r'.pagesFetched = r.pagesFetched

/- The authority of an account points to a complete snapshot of a completed run of the
account, with the items that its completion reconciled. -/
def Pointed (w : World) (account snapshot : Uuid) (run : Run) (reconciled : Database) : Prop :=
  run.snapshotId = snapshot ∧
  (∃ s, w.db.snapshots.find snapshot = some s ∧ s.syncRunId = run.id ∧ s.complete = true) ∧
  (∃ r, w.db.syncRuns.find run.id = some r ∧ r.accountId = account ∧ r.state = .completed) ∧
  ∀ post, w.db.snapshotItems.find (snapshot,post) = reconciled.snapshotItems.find (snapshot,post)

structure FrozenAuthority (config : Config) (now : DateTime) (labels : List Action) (w : World) : Prop where
  frozen : ∀ p a q account run instant,
    Passes (World.step config) free (World.start Database.empty now) labels w p a q →
    Completes p q account run instant → Frozen run q.db w.db
  pointed : ∀ account authority, w.db.snapshotAuthority.find account = some authority →
    ∃ p a q run instant, Passes (World.step config) free (World.start Database.empty now) labels w p a q ∧
      Completes p q account run instant ∧ Pointed w account authority.snapshotId run p.db

def Completed (db : Database) (run : Run) : Prop := (db.syncRuns.find run.id).map SyncRun.state = some .completed

/- The calls whose next statement writes to a run that is completed already. -/
def Late (db : Database) : Process → Prop
  | .snapshot ⟨_,.resume run⟩ => Completed db run
  | .snapshot ⟨_,.fail run _⟩ => Completed db run
  | .snapshot ⟨_,.stage run page _ _⟩ => Completed db run ∧ page.normalized.getD [] ≠ []
  | _ => False

instance (db p) : Decidable (Late db p) := by
  unfold Late Completed; split <;> infer_instance

/- No runner writes to its run after another runner completed it. -/
def Orderly (w : World) : Action → Prop
  | .advance i answer => answer = .ok ∨ answer = .lost → ∀ p ∈ w.processes[i]?, ¬Late w.db p
  | _ => True

instance (w a) : Decidable (Orderly w a) := by
  apply Action.decide <;> (intros; unfold Orderly; infer_instance)

/- A completed run, of which nothing is to change. -/
structure Sealed (run : Run) (db : Database) : Prop where
  row : ∃ r, db.syncRuns.find run.id = some r ∧ r.runType = .full ∧ r.state = .completed
  snapshot : ∃ s, db.snapshots.find run.snapshotId = some s ∧ s.syncRunId = run.id ∧ s.complete = true

theorem Sealed.completed {run run' : Run} {db} (sealed_ : Sealed run db) (same : run'.id = run.id) : Completed db run' := by
  obtain ⟨r,found,_,state⟩ := sealed_.row
  unfold Completed
  rw [same,found,Option.map_some,state]

structure Same (run : Run) (db after : Database) : Prop where
  row : after.syncRuns.find run.id = db.syncRuns.find run.id
  snapshot : after.snapshots.find run.snapshotId = db.snapshots.find run.snapshotId
  items : ∀ post, after.snapshotItems.find (run.snapshotId,post) = db.snapshotItems.find (run.snapshotId,post)

theorem Same.sealed {run db after} (same : Same run db after) (sealed_ : Sealed run db) : Sealed run after :=
  ⟨by rw [same.row]; exact sealed_.row,by rw [same.snapshot]; exact sealed_.snapshot⟩

theorem sameUnless {run : Run} {c : Commit} {db after} (applied : c.effect db = some after) (sealed_ : Sealed run db)
    (row : runTarget c ≠ some run.id ∨ ∃ run' page t stamp, c = .stagePage run' page t stamp)
    (items : ∀ run' page t stamp, c = .stagePage run' page t stamp → run'.snapshotId = run.snapshotId →
      page.normalized.getD [] = []) : Same run db after := by
  obtain ⟨r,found,_,state⟩ := sealed_.row
  obtain ⟨s,present,own,complete⟩ := sealed_.snapshot
  obtain ⟨r',later,_,moves⟩ := runAfter applied found
  obtain ⟨s',kept,_,_,moves'⟩ := snapshotAfter applied present
  have mine : r.id = run.id := Table.findKey found
  constructor
  case row =>
    rw [later,found]
    rcases row with other | ⟨run',page,t,stamp,rfl⟩
    · rw [runUntouched moves (by rw [mine]; exact other)]
    · obtain ⟨items,rfl⟩ := moves
      rw [if_neg (by simp [state])]
  case snapshot =>
    rw [kept,present]
    have here : s.id = run.snapshotId := Table.findKey present
    cases c with
    | completeRun account run' t =>
      obtain ⟨pages,rfl⟩ := moves'
      obtain ⟨x,_,locked,_,_,_,open_,_⟩ := committedRows (accepted applied)
      rw [if_neg]
      intro same
      rw [← same,here,present] at locked
      cases Option.some.inj locked
      simp [complete] at open_
    | completeFolderRun run' t =>
      obtain ⟨pages,rfl⟩ := moves'
      have locked := (Folders.completedForm (accepted applied)).1
      rw [if_neg]
      intro same
      unfold Folders.lockFinalization at locked
      rw [← same,here,present] at locked
      split at locked
      · rename_i x _ again _
        cases Option.some.inj again
        simp [complete] at locked
      · simp at locked
    | _ => exact congrArg some moves'
  case items =>
    intro post
    rcases itemAfter applied run.snapshotId post with ⟨run',page,t,stamp,rfl,mine,⟨_,shown,_⟩,_⟩ | ⟨same,_⟩
    · rw [items _ _ _ _ rfl mine] at shown
      simp at shown
    · exact same

theorem sameStep {config w a t run} (registered : Registered w) (sealed_ : Sealed run w.db) (orderly : Orderly w a)
    (taken : World.step config w a = some t) : Same run w.db t.db := by
  rcases stepCommit taken with same | ⟨c,applied,⟨outside,_⟩ | ⟨i,answer,p,rfl,found,stands,answered⟩⟩
  · rw [same]
    exact ⟨rfl,rfl,fun _ => rfl⟩
  · refine sameUnless applied sealed_ (.inl ?_) ?_
    · simp [externalUntargeted outside]
    · rintro _ _ _ _ rfl
      simp [External] at outside
  have punctual := orderly answered p found
  refine sameUnless applied sealed_ ?_ ?_
  · by_cases aimed : runTarget c = some run.id
    · refine .inr ?_
      rcases targetHeld registered found stands aimed with ⟨⟨account,pc⟩,run',rfl,holds,mine,commits⟩ | ⟨r,present,other⟩
      · cases pc with
        | stage target page t stamp => exact ⟨target,page,t,stamp,(Option.some.inj commits).symm⟩
        | resume target =>
          cases Option.some.inj holds
          exact absurd (sealed_.completed mine) punctual
        | fail target result =>
          cases Option.some.inj holds
          exact absurd (sealed_.completed mine) punctual
        | finalize target instant =>
          cases Option.some.inj holds
          cases Option.some.inj commits
          obtain ⟨_,row,_,present,_,_,_,running⟩ := committedRows (accepted applied)
          obtain ⟨r,found',_,state⟩ := sealed_.row
          rw [mine,found'] at present
          cases Option.some.inj present
          simp [state] at running
        | reserve target =>
          cases Option.some.inj commits
          simp [runTarget] at aimed
        | load _ | done _ => simp [runOf] at holds
        | fetch _ | complete _ => simp [SnapshotPc.commit] at commits
      · obtain ⟨r',found',full,_⟩ := sealed_.row
        rw [found'] at present
        cases Option.some.inj present
        exact absurd full other
    · exact .inl aimed
  · rintro run' page t stamp rfl mine
    obtain ⟨⟨account,pc⟩,rfl,here⟩ := stagedBy stands
    simp only at here
    subst here
    obtain ⟨⟨_,s,present,own⟩,_⟩ := registered.runners found rfl
    obtain ⟨s',present',own',_⟩ := sealed_.snapshot
    rw [mine,present'] at present
    cases Option.some.inj present
    have same : run'.id = run.id := own.symm.trans own'
    by_contra shown
    exact punctual ⟨sealed_.completed same,shown⟩

theorem sealedCompletion {config w a t account run instant} (registered : Registered w)
    (taken : World.step config w a = some t) (completes : Completes w t account run instant) :
    Sealed run t.db ∧ ∃ r, t.db.syncRuns.find run.id = some r ∧ r.accountId = account := by
  obtain ⟨i,answer,call,_,_,found,pc,_,ok⟩ := completesBy taken completes
  obtain ⟨⟨⟨row,present,full,_⟩,_⟩,_⟩ := registered.runners found (by rw [pc]; rfl)
  obtain ⟨s,row',open_,present',own,mine,_,_⟩ := committedRows ok
  rw [present] at present'
  cases Option.some.inj present'
  obtain ⟨statistics,_,_,_,rows⟩ := committedRun ok
  obtain ⟨_,_,snapshots⟩ := committedSnapshot ok
  have finished := rows run.id
  rw [present,Option.map_some,if_pos (Table.findKey present)] at finished
  have sealed_ := snapshots run.snapshotId
  rw [open_,Option.map_some,if_pos (Table.findKey open_)] at sealed_
  exact ⟨⟨⟨_,finished,full,rfl⟩,_,sealed_,own,rfl⟩,_,finished,mine⟩

theorem repairsKept {c : Commit} {db after} (applied : c.effect db = some after) (settled : RepairsSettled db) :
    RepairsSettled after := by
  have old : ∀ r ∈ db.repairs.rows, ∃ s, after.snapshots.find r.snapshotId = some s ∧ s.complete = true := by
    intro r member
    obtain ⟨s,found,complete⟩ := settled r member
    obtain ⟨s',kept,_,_,moves⟩ := snapshotAfter applied found
    refine ⟨s',kept,?_⟩
    cases c with
    | completeRun account run t | completeFolderRun run t =>
      obtain ⟨pages,rfl⟩ := moves
      split
      · rfl
      · exact complete
    | _ => exact moves ▸ complete
  intro r member
  cases c with
  | completeRun account run t =>
    obtain ⟨gained,rows,_,exactly⟩ := committedRepairs (accepted applied)
    rw [rows,List.mem_append] at member
    rcases member with former | recent
    · exact old r former
    · obtain ⟨_,post,b,_,_,_,_,rfl⟩ := (exactly r).mp recent
      obtain ⟨s,_,found,_⟩ := committedRows (accepted applied)
      obtain ⟨row,_,snapshots⟩ := committedSnapshot (accepted applied)
      have closed := snapshots run.snapshotId
      rw [found,Option.map_some,if_pos (Table.findKey found)] at closed
      exact ⟨_,closed,rfl⟩
  | _ =>
    rw [(frame applied).repairs (by simp [touched])] at member
    exact old r member

def Credited (w : World) : Prop :=
  ∀ account authority, w.db.snapshotAuthority.find account = some authority →
    ∃ i run instant, ⟨some i,.commit (.completeRun account run instant)⟩ ∈ w.log ∧
      run.snapshotId = authority.snapshotId

theorem creditedStep {config w a t} (credited : Credited w) (taken : World.step config w a = some t) : Credited t := by
  intro account authority found
  have grows := logGrows taken
  have kept : w.db.snapshotAuthority.find account = some authority → ∃ i run instant,
      ⟨some i,.commit (.completeRun account run instant)⟩ ∈ t.log ∧ run.snapshotId = authority.snapshotId := by
    intro before
    obtain ⟨i,run,instant,entry,same⟩ := credited account authority before
    exact ⟨i,run,instant,grows entry,same⟩
  rcases logAfter taken with ⟨_,same⟩ | ⟨e,logged,wrote⟩
  · exact kept (same ▸ found)
  cases wrote with
  | @external _ _ c outside applied _ =>
    refine kept ?_
    rw [← (frame applied).snapshotAuthority]
    · exact found
    · cases c with
      | connectAccount _ | storeCredential _ | storeAuthorization _ | persistPosts _ => simp [touched]
      | _ => exact outside.elim
  | spoken _ _ _ _ same => exact kept (same ▸ found)
  | @commit _ i _ p _ c _ _ _ stands applied _ =>
    by_cases completion : ∃ a run instant, c = .completeRun a run instant
    · obtain ⟨a,run,instant,rfl⟩ := completion
      rw [committedAuthority (accepted applied)] at found
      split at found
      · rename_i mine
        subst mine
        cases Option.some.inj found
        exact ⟨i,run,instant,by rw [logged]; simp,rfl⟩
      · exact kept found
    · refine kept ?_
      rw [← (frame applied).snapshotAuthority]
      · exact found
      · cases c with
        | completeRun a run instant => exact absurd ⟨a,run,instant,rfl⟩ completion
        | _ => simp [touched]

section Runs
variable {config : Config} {now : DateTime} {labels : List Action} {w : World}

theorem sameRun {u : World} {run : Run} (rest : Transition.Run (World.step config) Orderly u labels w)
    (registered : Registered u) (sealed_ : Sealed run u.db) : Same run u.db w.db := by
  refine rest.relates (fun w => Registered w ∧ Sealed run w.db) (fun s u => Same run s.db u.db) ?_ ?_ ?_ ?_
    ⟨registered,sealed_⟩
  · intro s a t inv orderly taken
    exact ⟨registeredStep inv.1 taken,(sameStep inv.1 inv.2 orderly taken).sealed inv.2⟩
  · exact fun _ => ⟨rfl,rfl,fun _ => rfl⟩
  · intro s t u first second
    exact ⟨second.row.trans first.row,second.snapshot.trans first.snapshot,
      fun post => (second.items post).trans (first.items post)⟩
  · intro s a t inv orderly taken
    exact sameStep inv.1 inv.2 orderly taken

theorem repairsSettled {guard} (run : Transition.Run (World.step config) guard (World.start Database.empty now) labels w) :
    RepairsSettled w.db := by
  refine run.preserves (fun w => RepairsSettled w.db) ?_ ?_
  · intro s a t settled _ taken
    rcases stepCommit taken with same | ⟨c,applied,_⟩
    · exact same ▸ settled
    · exact repairsKept applied settled
  · intro r member
    simp [World.start,Database.empty,Table.empty] at member

theorem frozenAuthority (run : Transition.Run (World.step config) Orderly (World.start Database.empty now) labels w) :
    FrozenAuthority config now labels w := by
  have follow : ∀ {p a q account r instant},
      Passes (World.step config) free (World.start Database.empty now) labels w p a q →
      Completes p q account r instant → Sealed r q.db ∧ Same r q.db w.db ∧
        (∃ row, q.db.syncRuns.find r.id = some row ∧ row.accountId = account) ∧
        q.db.snapshotItems = p.db.snapshotItems := by
    intro p a q account r instant passes completes
    obtain ⟨before,after,_,first,_,taken,rest⟩ := run.guarded passes
    have registered := registeredRun first
    obtain ⟨sealed_,owned⟩ := sealedCompletion registered taken completes
    obtain ⟨_,_,_,_,_,_,_,_,ok⟩ := completesBy taken completes
    exact ⟨sealed_,sameRun rest (registeredStep registered taken) sealed_,owned,committedItems ok⟩
  constructor
  case frozen =>
    intro p a q account r instant passes completes
    obtain ⟨sealed_,same,_⟩ := follow passes completes
    obtain ⟨row,found,_,state⟩ := sealed_.row
    obtain ⟨s,present,_,complete⟩ := sealed_.snapshot
    exact ⟨same.items,⟨s,s,present,same.snapshot.trans present,complete,complete,rfl⟩,
      ⟨row,row,found,same.row.trans found,state,state,rfl⟩⟩
  case pointed =>
    intro account authority found
    have credited : Credited w := by
      refine run.preserves Credited (fun _ _ _ credited _ taken => creditedStep credited taken) ?_
      intro account authority none
      simp [World.start,Database.empty,Table.empty,Table.find] at none
    obtain ⟨i,r,instant,entry,mine⟩ := credited account authority found
    obtain ⟨p,a,q,⟨before,after,split,first,_,taken,rest⟩,logged,_⟩ := entryStep run entry
    have passes : Passes (World.step config) free (World.start Database.empty now) labels w p a q :=
      ⟨before,after,split,first.weaken (fun _ _ _ => trivial),trivial,taken,rest.weaken (fun _ _ _ => trivial)⟩
    have completes : Completes p q account r instant := ⟨i,logged⟩
    obtain ⟨sealed_,same,⟨row,owner,account'⟩,items⟩ := follow passes completes
    obtain ⟨row',present,_,state⟩ := sealed_.row
    rw [owner] at present
    cases Option.some.inj present
    refine ⟨p,a,q,r,instant,passes,completes,mine,?_,⟨row,same.row.trans owner,account',state⟩,?_⟩
    · rw [← mine,same.snapshot]
      exact sealed_.snapshot
    · intro post
      rw [← mine,same.items,items]

end Runs

/- A first run completes; a second one of the account stages a page and stops. -/
def succession : List Action :=
  [.connectAccount ⟨1,7,.connected⟩,.spawn (.snapshot ⟨1,.load none⟩)] ++ advances 0 2 ++
    [.advance 0 (.page ⟨some ["100"],none⟩)] ++ advances 0 3 ++ [.spawn (.snapshot ⟨1,.load none⟩)] ++ advances 1 2 ++
    [.advance 1 (.page ⟨some ["200"],some "next"⟩)] ++ advances 1 2 ++ [.advance 1 .unavailable] ++ advances 1 1

def successionEnd : World :=
  (replay (World.step sampleConfig) Orderly sampleStart succession).get (by decide +kernel)

theorem frozenAuthorityAtSuccession :
    successionEnd.db.snapshotAuthority.find 1 = some ⟨1,1,sampleInstant⟩ ∧
      FrozenAuthority sampleConfig sampleInstant succession successionEnd :=
  ⟨by decide +kernel,frozenAuthority (replayRun (Option.some_get _).symm)⟩

/- Two runners of run 1: the second resumed it before the first completed it, and stages
its page afterwards. -/
def overlapBefore : List Action :=
  [.connectAccount ⟨1,7,.connected⟩,.spawn (.snapshot ⟨1,.load none⟩)] ++ advances 0 2 ++
    [.spawn (.snapshot ⟨1,.load (some 1)⟩)] ++ advances 1 3 ++ [.advance 1 (.page ⟨some ["200"],some "next"⟩)] ++
    [.advance 0 (.page ⟨some ["100"],none⟩)] ++ advances 0 2

def overlap : List Action := overlapBefore ++ .advance 0 .ok::advances 1 1

def overlapReady : World := (replay (World.step sampleConfig) free sampleStart overlapBefore).get (by decide +kernel)

def overlapDone : World := (World.step sampleConfig overlapReady (.advance 0 .ok)).get (by decide +kernel)

def overlapEnd : World := (replay (World.step sampleConfig) free overlapDone (advances 1 1)).get (by decide +kernel)

theorem lateRunnerStages :
    ¬∀ config now labels w, Transition.Run (World.step config) free (World.start Database.empty now) labels w →
      FrozenAuthority config now labels w := by
  intro claim
  have before : Transition.Run (World.step sampleConfig) free sampleStart overlapBefore overlapReady :=
    replayRun (Option.some_get _).symm
  have step : World.step sampleConfig overlapReady (.advance 0 .ok) = some overlapDone := (Option.some_get _).symm
  have after : Transition.Run (World.step sampleConfig) free overlapDone (advances 1 1) overlapEnd :=
    replayRun (Option.some_get _).symm
  have completes : Completes overlapReady overlapDone 1 ⟨1,1,1,none⟩ sampleInstant :=
    completesStep (by decide +kernel) (by decide +kernel) step
  have frozen := (claim _ _ _ _ (before.append (.cons trivial step after))).frozen _ _ _ _ _ _
    ⟨overlapBefore,advances 1 1,rfl,before,trivial,step,after⟩ completes
  have staged : (overlapEnd.db.snapshotItems.find (1,2)).isSome = true ∧
      overlapDone.db.snapshotItems.find (1,2) = none := by decide +kernel
  have kept := frozen.items 2
  rw [staged.2] at kept
  rw [kept] at staged
  simp at staged

end RatatoskrX.Authority
