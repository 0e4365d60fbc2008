import RatatoskrX.WriteSystem

/-! What may end a bookmark's active state. -/
namespace RatatoskrX.Evidence
open Outcome Relational Schema Snapshot Incremental Writeback Journal Frames Reconciliation SyncCalls WriteCalls Schedule
open Transition WriteInvariant WriteSystem

theorem activeOf {db after : Database} {account post} (same : after.bookmarks = db.bookmarks)
    (active : db.Active account post) : after.Active account post := by
  obtain ⟨b,found,live⟩ := active
  exact ⟨b,by unfold Database.bookmark at *; rw [same]; exact found,live⟩

theorem observedKeeps {db : Database} {a post} (account runId t) (posts : List Uuid) (active : db.Active a post) :
    (upsertObservedBookmarks db account runId posts t).Active a post := by
  unfold upsertObservedBookmarks
  induction posts generalizing db with
  | nil => exact active
  | cons head rest ih =>
    refine ih ?_
    obtain ⟨b,found,live⟩ := active
    have row : (observeBookmark account runId t db head).bookmark a post = if (account,head) = (a,post) then _ else _ :=
      Database.bookmarkUpsert ..
    rw [found] at row
    by_cases here : (account,head) = (a,post)
    · rw [if_pos here] at row
      exact ⟨_,row,rfl⟩
    · rw [if_neg here] at row
      exact ⟨b,row,live⟩

theorem projectedKeeps {db : Database} {a post operationId account providerPostId action t}
    (active : db.Active a post)
    (other : ¬(action = .remove ∧ account = a ∧ db.postId providerPostId = some post)) :
    (projectConfirmedBookmark db operationId account providerPostId action t).1.Active a post := by
  unfold projectConfirmedBookmark
  split
  · exact active
  · rename_i target named
    obtain ⟨b,found,live⟩ := active
    split
    · have row : (db.upsertBookmark
          ⟨0,account,target,t,t,none,none,some operationId,some t,none,none⟩ (addedRow operationId t)
          (fun _ => rfl) (fun _ => rfl)).bookmark a post = if (account,target) = (a,post) then _ else _ :=
        Database.bookmarkUpsert ..
      rw [found] at row
      by_cases here : (account,target) = (a,post)
      · rw [if_pos here] at row
        exact ⟨_,row,rfl⟩
      · rw [if_neg here] at row
        exact ⟨b,row,live⟩
    · have row := Database.bookmarkUpdate db (fun b => b.key = (account,target)) (removedRow operationId t)
        (fun _ => rfl) (fun _ => rfl) a post
      have keyed : b.key = (a,post) := Table.findKey found
      have different : ¬b.key = (account,target) := by
        rw [keyed]
        intro same
        cases same
        exact other ⟨rfl,rfl,named⟩
      rw [found,Option.map_some,if_neg (by simpa using different)] at row
      exact ⟨b,row,live⟩

/- The transactions that can end the active state of one bookmark. -/
def Ends (db : Database) (account post : Uuid) : Commit → Prop
  | .completeRun a run _ => a = account ∧ ¬db.Staged run.snapshotId post
  | .completeConfirmed _ a providerPostId .remove _ _ => a = account ∧ db.postId providerPostId = some post
  | _ => False

theorem commitKeeps {c : Commit} {db after account post} (applied : c.effect db = some after)
    (active : db.Active account post) (quiet : ¬Ends db account post c) : after.Active account post := by
  have agree := frame applied
  cases c with
  | completeRun a run t =>
    have ok := accepted applied
    by_cases mine : a = account
    · subst mine
      rw [committedActive ok]
      simpa [Ends] using quiet
    · obtain ⟨b,found,live⟩ := active
      exact ⟨b,(committedOther ok (Ne.symm mine)).trans found,live⟩
  | observePage a runId page t =>
    obtain ⟨providerIds,items,_,rfl⟩ := observedForm (accepted applied)
    have persisted := activeOf ((persistPostsFrame providerIds db).bookmarks (by simp)) active
    exact observedKeeps a runId t _ persisted
  | completeConfirmed id a providerPostId action requestId t =>
    cases Option.some.inj applied
    have projected : (projectConfirmedBookmark db id a providerPostId action t).1.Active account post := by
      refine projectedKeeps active ?_
      rintro ⟨rfl,rfl,named⟩
      exact quiet ⟨rfl,named⟩
    exact activeOf ((confirmedRest ..).bookmarks (by simp)) projected
  | _ => exact activeOf (agree.bookmarks (by simp [touched])) active

theorem endsBy {config w db account post} (log : List Entry) (index : Nat) {p : Process} {c : Commit} (stands : p.commit config w = some c)
    (ends : Ends db account post c)
    (holds : ∀ call, p = .write call → Holds config w.db log index call) :
    (∃ run t, p = .snapshot ⟨account,.finalize run t⟩ ∧ c = .completeRun account run t) ∨
    ∃ call id requestId t, p = .write call ∧ call.pc = .confirm id requestId t ∧ call.action = .remove ∧
      call.request.accountId = account ∧ db.postId call.request.providerPostId = some post ∧
      ⟨some index,.confirmation id⟩ ∈ log ∧
      c = .completeConfirmed id account call.request.providerPostId .remove requestId t := by
  cases p with
  | snapshot call =>
    obtain ⟨a,pc⟩ := call
    simp only [Process.commit,SnapshotPc.commit] at stands
    split at stands <;> cases stands <;> simp only [Ends] at ends
    obtain ⟨rfl,_⟩ := ends
    exact .inl ⟨_,_,rfl,rfl⟩
  | write call =>
    have assertion := holds call rfl
    simp only [Process.commit,WriteCall.commit] at stands
    split at stands <;> cases stands <;> simp only [Ends] at ends
    rename_i id requestId t pc
    refine .inr ⟨call,id,requestId,t,rfl,pc,?_⟩
    simp only [Holds,pc] at assertion
    cases action : call.action with
    | add => simp [action] at ends
    | remove =>
      simp only [action] at ends
      exact ⟨rfl,ends.1,ends.2,assertion.2,by rw [ends.1]⟩
  | consent call =>
    simp only [Process.commit,ConsentCall.commit] at stands
    split at stands <;> cases stands
    simp [Ends] at ends
  | scan call =>
    obtain ⟨account,pageCap,requestCap,pc⟩ := call
    cases scanCommits stands <;> simp [Ends] at ends
  | folder call =>
    simp only [Process.commit,FolderPc.commit] at stands
    split at stands <;> cases stands <;> simp [Ends] at ends

/- The two steps that may end it: the completion of a full snapshot of the account, and
a removal that the provider confirmed. -/
def Authoritative (w t : World) (account post : Uuid) (a : Action) : Prop :=
  ∃ i answer, a = .advance i answer ∧
    ((∃ run instant, w.processes[i]? = some (.snapshot ⟨account,.finalize run instant⟩) ∧
        Snapshot.completeRun w.db account run instant = .ok t.db) ∨
      ∃ call id requestId instant, w.processes[i]? = some (.write call) ∧
        call.pc = .confirm id requestId instant ∧ call.action = .remove ∧ call.request.accountId = account ∧
        w.db.postId call.request.providerPostId = some post ∧ ⟨some i,.confirmation id⟩ ∈ w.log ∧
        t.db = Writeback.completeConfirmed w.db id account call.request.providerPostId .remove requestId instant)

theorem partialObservationKeeps {config db now labels w a t account post}
    (run : Run (World.step config) free (World.start db now) labels w) (taken : World.step config w a = some t)
    (active : w.db.Active account post) (ended : ¬t.db.Active account post) : Authoritative w t account post a := by
  have sound := soundRun run
  rcases stepCommit taken with same | ⟨c,applied,⟨outside,_⟩ | ⟨i,answer,process,rfl,found,stands,_⟩⟩
  · exact absurd (same ▸ active) ended
  · refine absurd (commitKeeps applied active ?_) ended
    cases c <;> simp_all [External,Ends]
  · by_cases ends : Ends w.db account post c
    · refine ⟨i,answer,rfl,?_⟩
      rcases endsBy w.log i stands ends (by rintro call rfl; exact sound.holds found) with
        ⟨run,t',rfl,rfl⟩ | ⟨call,id,requestId,t',rfl,pc,removes,mine,named,confirmed,rfl⟩
      · exact .inl ⟨run,t',found,accepted applied⟩
      · exact .inr ⟨call,id,requestId,t',found,pc,removes,mine,named,confirmed,(Option.some.inj applied).symm⟩
    · exact absurd (commitKeeps applied active ends) ended

/- A post that a first snapshot shows and a second one does not. -/
def sweep : List Action :=
  [.connectAccount ⟨1,7,.connected⟩,.spawn (.snapshot ⟨1,.load none⟩)] ++ advances 0 2 ++
    [.advance 0 (.page ⟨some ["100"],none⟩)] ++ advances 0 3 ++ [.spawn (.snapshot ⟨1,.load none⟩)] ++ advances 1 2 ++
    [.advance 1 (.page ⟨some ["200"],none⟩)] ++ advances 1 2

def sweepEnd : World := (replay (World.step sampleConfig) free sampleStart sweep).get (by decide +kernel)

def sweptEnd : World := (World.step sampleConfig sweepEnd (.advance 1 .ok)).get (by decide +kernel)

theorem partialObservationKeepsAtSweep : Authoritative sweepEnd sweptEnd 1 1 (.advance 1 .ok) :=
  partialObservationKeeps (replayRun (Option.some_get _).symm) (Option.some_get _).symm (by decide +kernel)
    (by decide +kernel)

end RatatoskrX.Evidence
