import RatatoskrX.Ledger
import RatatoskrX.Registry

/-! Whether the evidence that settles an uncertain write was observed after the write
was attempted. The completion joins on presence alone, and a page can be fetched long
before its run completes. -/
namespace RatatoskrX.Uncertainty
open Relational Schema Snapshot Writeback Journal Frames Reconciliation SyncCalls WriteCalls Operations Schedule
open Transition WriteSystem Ledger Staging Registry

def AttemptAt (log : List Entry) (operationId : Uuid) (k : Nat) : Prop :=
  ∃ i a, log[k]? = some ⟨some i,.attempt a⟩ ∧ a.operationId = operationId

/- The page was fetched when the log already held position k. -/
def After (k : Nat) (f : Fetch) : Prop := k < f.fetchedAt

/- The evidence a completion used for an operation was observed after position k: for
presence a page that shows the post, for absence every page of the run. -/
def ObservedAfter (log : List Entry) (run : Run) (o : Operation) (k : Nat) (outcome : Option String) : Prop :=
  (outcome = some "complete_snapshot_present" →
    ∃ f ∈ fetches log run.snapshotId, o.providerPostId ∈ f.posts ∧ After k f) ∧
  (outcome = some "complete_snapshot_absent" → ∀ f ∈ fetches log run.snapshotId, After k f)

def LaterEvidence (p q : World) (run : Run) : Prop :=
  ∀ operationId o o', p.db.operations.find operationId = some o → o.status = .uncertain →
    q.db.operations.find operationId = some o' →
    (o'.status = .reconciledSucceeded ∨ o'.status = .reconciledNotCurrent) →
    (∃ k, AttemptAt p.log operationId k) ∧
    ∀ k, AttemptAt p.log operationId k → ObservedAfter p.log run o k o'.outcome

/- Each uncertain write of the account was attempted before the run fetched any of its
pages, or before it fetched one that shows the post. -/
def Fresh (p : World) (account : Uuid) (run : Run) : Prop :=
  ∀ operationId o k, p.db.operations.find operationId = some o → o.accountId = account → o.status = .uncertain →
    AttemptAt p.log operationId k →
    (∀ f ∈ fetches p.log run.snapshotId, After k f) ∨
    ∃ f ∈ fetches p.log run.snapshotId, o.providerPostId ∈ f.posts ∧ After k f

theorem postOnce {db : Database} {providerId providerId' post} (left : db.postId providerId = some post)
    (right : db.postId providerId' = some post) : providerId = providerId' := by
  obtain ⟨x,foundX,rfl⟩ := Option.map_eq_some_iff.mp left
  obtain ⟨y,foundY,same⟩ := Option.map_eq_some_iff.mp right
  obtain ⟨memberX,rfl⟩ := Table.findIff.mp foundX
  obtain ⟨memberY,rfl⟩ := Table.findIff.mp foundY
  rw [db.postIds.row memberX memberY same.symm]

theorem presentStaged {db : Database} {snapshot o} :
    presentIn db snapshot o = true ↔ ∃ post, db.postId o.providerPostId = some post ∧ db.Staged snapshot post := by
  simp only [presentIn,List.any_eq_true,Bool.and_eq_true,decide_eq_true_eq]
  constructor
  · rintro ⟨item,member,p,inside,same,named⟩
    refine ⟨item.postId,?_,Database.stagedItem.mpr ⟨item,member,rfl⟩⟩
    unfold Database.postId
    rw [← named,Table.findMem inside,Option.map_some,same]
  · rintro ⟨post,known,staged⟩
    obtain ⟨item,member,rfl⟩ := Database.stagedItem.mp staged
    obtain ⟨p,found,same⟩ := Option.map_eq_some_iff.mp known
    obtain ⟨inside,named⟩ := Table.findIff.mp found
    exact ⟨item,member,p,inside,same,named⟩

theorem presentFetched {w : World} {snapshot o} (stocked : Stocked w) :
    presentIn w.db snapshot o = true ↔ ∃ f ∈ fetches w.log snapshot, o.providerPostId ∈ f.posts := by
  rw [presentStaged]
  constructor
  · rintro ⟨post,known,staged⟩
    obtain ⟨f,member,providerId,shown,named⟩ := (stocked.staged snapshot post).mp staged
    rw [postOnce known named]
    exact ⟨f,member,shown⟩
  · rintro ⟨f,member,shown⟩
    obtain ⟨post,known⟩ := stocked.known snapshot f member _ shown
    exact ⟨post,known,(stocked.staged snapshot post).mpr ⟨f,member,o.providerPostId,shown,known⟩⟩

section Attempts

/- The control points between an attempt and the row that records its answer. -/
def awaited : WritePc → Option Uuid
  | .awaiting operationId | .confirm operationId _ _ | .uncertain operationId _ | .failed operationId _ => some operationId
  | _ => none

theorem auditingAwaits (call : WriteCall) (operationId outcome stages) :
    awaited (call.at_ (auditing operationId outcome stages)).pc = none := by
  cases stages <;> rfl

theorem refusingAwaits (call : WriteCall) (operationId t refusal resetAt) :
    awaited (call.refusing operationId t refusal resetAt).pc = none := by
  unfold WriteCall.refusing WriteCall.at_
  cases call.mode <;> rfl

theorem satisfyingAwaits (call : WriteCall) (operationId t observedAt) :
    awaited (call.satisfying operationId t observedAt).pc = none := by
  unfold WriteCall.satisfying WriteCall.at_
  cases call.mode <;> rfl

theorem admittingAwaits (call : WriteCall) (operationId t resetAt) :
    awaited (call.admitting operationId t resetAt).pc = none := by
  unfold WriteCall.admitting WriteCall.at_
  cases call.mode <;> rfl

theorem joiningAwaits (call : WriteCall) (sha256 row) : awaited (call.joining sha256 row).pc = none := by
  unfold WriteCall.joining
  split
  · rfl
  · split <;> rfl

theorem pollingAwaits (call : WriteCall) (operationId remaining status) :
    awaited (call.polling operationId remaining status).pc = none := by
  unfold WriteCall.polling
  split
  · rfl
  · split <;> rfl

section Call
variable {gate : Budget.BudgetGate} {sha256 : List UInt8 → List UInt8} {db : Database} {now : DateTime}
  {answer : Answer} {call : WriteCall} {s : Step WriteCall}

theorem readingAwaits {next faulted : WriteCall} (ok : reading db answer next faulted = some s)
    (first : awaited next.pc = none) (second : awaited faulted.pc = none) : awaited s.next.pc = none := by
  rcases readingCases ok with ⟨_,rfl⟩ | ⟨_,rfl⟩
  · exact first
  · exact second

theorem transactAwaits {c : Commit} {next refused faulted : WriteCall}
    (ok : transact db answer c next refused faulted = some s) (first : awaited next.pc = none)
    (second : awaited refused.pc = none) (third : awaited faulted.pc = none) : awaited s.next.pc = none := by
  rcases transactCases ok with ⟨_,_,⟨_,rfl⟩ | ⟨_,rfl⟩⟩ | ⟨_,_,rfl⟩ | ⟨_,rfl⟩
  · exact first
  · exact third
  · exact second
  · exact third

theorem awaitedStep (ok : call.next gate sha256 db now answer = some s) :
    awaited s.next.pc = none ∨ awaited s.next.pc = awaited call.pc ∨
    ∃ operationId t, call.pc = .provider operationId t ∧ awaited s.next.pc = some operationId ∧
      s.event = some (.attempt ⟨operationId,call.request,call.action,t⟩) := by
  unfold WriteCall.next at ok
  cases pc : call.pc with
  | claim =>
    simp only [pc] at ok
    refine .inl ?_
    split at ok
    · rw [quietCases ok]
      rfl
    · split at ok
      · exact readingAwaits ok rfl rfl
      · refine transactAwaits ok rfl rfl ?_
        split <;> rfl
  | existing =>
    simp only [pc] at ok
    refine .inl ?_
    split at ok
    · exact readingAwaits ok rfl rfl
    · exact readingAwaits ok (joiningAwaits ..) rfl
  | poll operationId remaining =>
    simp only [pc] at ok
    exact .inl (readingAwaits ok (pollingAwaits ..) rfl)
  | account operationId t =>
    simp only [pc] at ok
    refine .inl (readingAwaits ok ?_ rfl)
    split
    · exact refusingAwaits ..
    · rfl
    · exact refusingAwaits ..
  | credential operationId t =>
    simp only [pc] at ok
    refine .inl (readingAwaits ok ?_ rfl)
    split
    · exact refusingAwaits ..
    · rfl
  | authorization operationId t scopes =>
    simp only [pc] at ok
    refine .inl (readingAwaits ok ?_ rfl)
    split
    · exact refusingAwaits ..
    · split
      · exact refusingAwaits ..
      · split
        · rfl
        · exact refusingAwaits ..
  | consent operationId t =>
    simp only [pc] at ok
    refine .inl (readingAwaits ok ?_ rfl)
    split
    · rfl
    · exact refusingAwaits ..
  | observation operationId t =>
    simp only [pc] at ok
    refine .inl (readingAwaits ok ?_ rfl)
    split
    · exact satisfyingAwaits ..
    · rfl
  | inspect operationId t =>
    simp only [pc] at ok
    refine .inl ?_
    split at ok
    · rw [quietCases ok]
      rfl
    · refine readingAwaits ok ?_ rfl
      split
      · exact admittingAwaits ..
      · exact refusingAwaits ..
  | reserve operationId t =>
    simp only [pc] at ok
    refine .inl ?_
    rcases chargingCases ok with ⟨_,_,_,⟨_,rfl⟩ | ⟨_,rfl⟩⟩ | ⟨error,rfl,_⟩
    · rfl
    · rfl
    · cases error <;> rfl
  | provider operationId t =>
    simp only [pc] at ok
    split at ok
    · cases Option.some.inj ok
      exact .inr (.inr ⟨operationId,t,rfl,rfl,rfl⟩)
    · simp at ok
  | awaiting operationId =>
    simp only [pc] at ok
    refine .inr (.inl ?_)
    split at ok
    · cases Option.some.inj ok
      rfl
    · rw [quietCases ok]
      rfl
    · rw [quietCases ok]
      rfl
    · simp at ok
  | refund operationId reservation error =>
    simp only [pc] at ok
    refine .inl (transactAwaits ok rfl rfl ?_)
    split <;> rfl
  | audit operationId stage rest outcome =>
    simp only [pc] at ok
    exact .inl (transactAwaits ok (auditingAwaits ..) rfl rfl)
  | failed operationId error =>
    simp only [pc] at ok
    exact .inl (transactAwaits ok (auditingAwaits ..) rfl rfl)
  | done outcome => simp [pc] at ok
  | _ =>
    simp only [pc] at ok
    exact .inl (transactAwaits ok rfl rfl rfl)

end Call

def Attempted (log : List Entry) (operationId : Uuid) : Prop :=
  ∃ i a, ⟨some i,.attempt a⟩ ∈ log ∧ a.operationId = operationId

theorem attemptAt {log : List Entry} {k i a} (found : (log[k]?).bind Entry.attempt? = some (i,a)) :
    AttemptAt log a.operationId k := by
  obtain ⟨e,here,sent⟩ := Option.bind_eq_some_iff.mp found
  unfold Entry.attempt? at sent
  split at sent
  · cases Option.some.inj sent
    exact ⟨i,a,here,rfl⟩
  · simp at sent

theorem attemptedAt {log operationId} (attempted : Attempted log operationId) : ∃ k, AttemptAt log operationId k := by
  obtain ⟨i,a,member,mine⟩ := attempted
  obtain ⟨k,found⟩ := List.getElem?_of_mem member
  exact ⟨k,i,a,found,mine⟩

structure Tried (w : World) : Prop where
  calls : ∀ {i : Nat} {call operationId}, w.processes[i]? = some (.write call) → awaited call.pc = some operationId →
    Attempted w.log operationId
  rows : ∀ {operationId o}, w.db.operations.find operationId = some o → o.status = .uncertain →
    Attempted w.log operationId

theorem uncertainCause {db c o} (after : (rowAfter db c o).status = .uncertain) :
    o.status = .uncertain ∨ ∃ requestId, c = .completeUncertain o.id requestId := by
  cases c with
  | completeUncertain operationId requestId =>
    simp only [rowAfter,moved] at after
    split at after
    · rename_i mine
      exact .inr ⟨requestId,by rw [mine.1]⟩
    · exact .inl after
  | completeConfirmed operationId account providerPostId action requestId t =>
    simp only [rowAfter,moved] at after
    split at after
    · simp only at after
      split at after <;> simp at after
    · exact .inl after
  | completeRun account run t =>
    simp only [rowAfter,settle] at after
    split at after
    · simp only [reconciledStatus] at after
      split at after <;> simp at after
    · exact .inl after
  | _ =>
    simp only [rowAfter,moved] at after
    first
      | exact .inl after
      | split at after
        · simp at after
        · exact .inl after

theorem triedStep {config w a t} (tried : Tried w) (taken : World.step config w a = some t) : Tried t := by
  have grows : ∀ {operationId}, Attempted w.log operationId → Attempted t.log operationId := by
    rintro operationId ⟨i,a,member,mine⟩
    exact ⟨i,a,logGrows taken member,mine⟩
  constructor
  · intro j call operationId found holds
    rcases stepView taken found with ⟨answer,old,s,rfl,here,ok,next,form⟩ | ⟨first,_⟩ | ⟨here,_⟩
    · obtain ⟨before,r,rfl,stepped,rfl,rfl⟩ := writeNext ok next.symm
      rcases awaitedStep stepped with none | same | ⟨_,t',_,mine,sent⟩
      · rw [none] at holds
        simp at holds
      · exact grows (tried.calls here (same ▸ holds))
      · rw [mine] at holds
        cases Option.some.inj holds
        refine ⟨j,⟨_,before.request,before.action,t'⟩,?_,rfl⟩
        rw [form]
        simp [World.take,Step.map,sent]
    · simp [(initialWrite first).1,awaited] at holds
    · exact grows (tried.calls here holds)
  · intro operationId o' found uncertain
    rcases stepCommit taken with same | ⟨c,applied,by_⟩
    · rw [same] at found
      exact grows (tried.rows found uncertain)
    rcases operationAfter applied operationId with moves | ⟨row,rfl,rfl,_,present⟩
    · rw [found] at moves
      obtain ⟨o,before,rfl⟩ := Option.map_eq_some_iff.mp moves.symm
      have mine : o.id = operationId := Table.findKey before
      rcases uncertainCause uncertain with old | ⟨requestId,rfl⟩
      · exact grows (tried.rows before old)
      · rcases by_ with ⟨outside,_⟩ | ⟨i,answer,p,_,here,stands,_⟩
        · simp [External] at outside
        · rcases foreignCommit stands with ⟨call,rfl⟩ | foreign
          · simp only [Process.commit,WriteCall.commit] at stands
            split at stands <;> cases stands
            rename_i pc
            exact grows (tried.calls here (by rw [pc,← mine]; rfl))
          · exact foreign.elim
    · rcases by_ with ⟨outside,_⟩ | ⟨i,answer,p,_,here,stands,_⟩
      · simp [External] at outside
      · rw [present] at found
        cases Option.some.inj found
        rcases foreignCommit stands with ⟨call,rfl⟩ | foreign
        · simp only [Process.commit,WriteCall.commit] at stands
          split at stands <;> cases stands
          simp [claimRow,requestedRow] at uncertain
        · exact foreign.elim

end Attempts

section Runs
variable {config : Config} {now : DateTime} {labels : List Action} {w : World}

theorem triedRun (run : Transition.Run (World.step config) free (World.start Database.empty now) labels w) : Tried w := by
  refine run.preserves Tried (fun _ _ _ tried _ taken => triedStep tried taken) ⟨?_,?_⟩
  · simp [World.start]
  · simp [World.start,Database.empty,Table.empty,Table.find]

theorem completionEvidence {p a q account r instant}
    (first : Transition.Run (World.step config) free (World.start Database.empty now) labels p)
    (taken : World.step config p a = some q) (completes : Completes p q account r instant) :
    LaterEvidence p q r ↔ Fresh p account r := by
  have stocked := stockedRun first
  obtain ⟨_,_,_,_,_,_,_,_,ok⟩ := completesBy taken completes
  have settled := committedOperation ok
  constructor
  · intro later operationId o k found mine uncertain attempt
    have row := settled operationId
    rw [found,Option.map_some,settle,if_pos ⟨mine,uncertain⟩] at row
    have evidence := (later operationId o _ found uncertain row (by
      simp only [reconciledStatus]
      split <;> simp)).2 k attempt
    cases present : presentIn p.db r.snapshotId o with
    | true => exact .inr (evidence.1 (by simp [present,reconciledOutcome]))
    | false => exact .inl (evidence.2 (by simp [present,reconciledOutcome]))
  · intro fresh operationId o o' found uncertain row moved
    refine ⟨attemptedAt ((triedRun first).rows found uncertain),?_⟩
    intro k attempt
    have after := settled operationId
    rw [found,row,Option.map_some] at after
    have form : o' = settle p.db account r.snapshotId instant o := Option.some.inj after
    by_cases mine : o.accountId = account ∧ o.status = .uncertain
    · rw [settle,if_pos mine] at form
      subst form
      have dated := fresh operationId o k found mine.1 uncertain attempt
      constructor
      · intro outcome
        have present : presentIn p.db r.snapshotId o = true := by
          cases shown : presentIn p.db r.snapshotId o with
          | true => rfl
          | false => simp [shown,reconciledOutcome] at outcome
        obtain ⟨f,member,shows⟩ := (presentFetched stocked).mp present
        rcases dated with all | some_
        · exact ⟨f,member,shows,all f member⟩
        · exact some_
      · intro outcome
        rcases dated with all | ⟨f,member,shows,_⟩
        · exact all
        · have present := (presentFetched stocked).mpr ⟨f,member,shows⟩
          simp [present,reconciledOutcome] at outcome
    · rw [settle,if_neg mine] at form
      subst form
      rcases moved with h | h <;> simp [uncertain] at h

/- At every completion of every run. -/
theorem settledLaterExactly (config : Config) (now : DateTime) (labels : List Action) (w : World) :
    ∀ p a q account r instant, Passes (World.step config) free (World.start Database.empty now) labels w p a q →
      Completes p q account r instant → (LaterEvidence p q r ↔ Fresh p account r) := by
  intro p a q account r instant passes completes
  obtain ⟨before,after,_,first,_,taken,_⟩ := passes
  exact completionEvidence first taken completes

end Runs

/- A write whose answer is uncertain, and a snapshot that fetches its page afterwards. -/
def aftermath : List Action :=
  sampleLink ++ [.spawn (sampleWrite "first")] ++ advances 1 11 ++
    [.advance 1 (.rejected (.uncertain none ⟨none⟩))] ++ advances 1 1 ++ [.spawn (.snapshot ⟨1,.load none⟩)] ++
    advances 2 2 ++ [.advance 2 (.page ⟨some ["100"],none⟩)] ++ advances 2 2

def aftermathEnd : World := (replay (World.step sampleConfig) free sampleStart aftermath).get (by decide +kernel)

def aftermathSettled : World := (World.step sampleConfig aftermathEnd (.advance 2 .ok)).get (by decide +kernel)

theorem settledLaterAtAftermath :
    (aftermathEnd.db.operations.find 1).map Operation.status = some .uncertain ∧
      (aftermathSettled.db.operations.find 1).map Operation.status = some .reconciledSucceeded ∧
      (LaterEvidence aftermathEnd aftermathSettled ⟨1,1,1,none⟩ ↔ Fresh aftermathEnd 1 ⟨1,1,1,none⟩) := by
  have before : Transition.Run (World.step sampleConfig) free sampleStart aftermath aftermathEnd :=
    replayRun (Option.some_get _).symm
  have step : World.step sampleConfig aftermathEnd (.advance 2 .ok) = some aftermathSettled := (Option.some_get _).symm
  exact ⟨by decide +kernel,by decide +kernel,
    settledLaterExactly sampleConfig sampleInstant _ aftermathSettled _ _ _ _ _ sampleInstant
      ⟨aftermath,[],rfl,before,trivial,step,.nil _⟩ (completesStep (by decide +kernel) (by decide +kernel) step)⟩

/- A snapshot whose only page was fetched before the write was attempted. -/
def premature : List Action :=
  sampleLink ++ [.spawn (.snapshot ⟨1,.load none⟩)] ++ advances 1 2 ++ [.advance 1 (.page ⟨some ["200"],none⟩)] ++
    advances 1 2 ++ [.spawn (sampleWrite "first")] ++ advances 2 11 ++
    [.advance 2 (.rejected (.uncertain none ⟨none⟩))] ++ advances 2 1

def prematureEnd : World := (replay (World.step sampleConfig) free sampleStart premature).get (by decide +kernel)

def prematureSettled : World := (World.step sampleConfig prematureEnd (.advance 1 .ok)).get (by decide +kernel)

theorem earlierPageSettles :
    ¬∀ config now labels w p a q account r instant,
      Passes (World.step config) free (World.start Database.empty now) labels w p a q →
      Completes p q account r instant → LaterEvidence p q r := by
  intro claim
  have before : Transition.Run (World.step sampleConfig) free sampleStart premature prematureEnd :=
    replayRun (Option.some_get _).symm
  have step : World.step sampleConfig prematureEnd (.advance 1 .ok) = some prematureSettled := (Option.some_get _).symm
  have later := claim sampleConfig sampleInstant _ prematureSettled _ _ _ 1 ⟨1,1,1,none⟩ sampleInstant
    ⟨premature,[],rfl,before,trivial,step,.nil _⟩ (completesStep (by decide +kernel) (by decide +kernel) step)
  have page : fetches prematureEnd.log 1 = [⟨⟨1,1,1,none⟩,⟨some ["200"],none⟩,sampleInstant,6⟩] := by decide +kernel
  have attempt : AttemptAt prematureEnd.log 1 11 :=
    attemptAt (show _ = some (2,⟨1,sampleRequest "first",.add,sampleInstant⟩) by decide +kernel)
  have rows : (prematureEnd.db.operations.find 1).map Operation.status = some .uncertain ∧
      (prematureSettled.db.operations.find 1).map (fun o => (o.status,o.outcome)) =
        some (.reconciledNotCurrent,some "complete_snapshot_absent") := by decide +kernel
  obtain ⟨o,found,uncertain⟩ := Option.map_eq_some_iff.mp rows.1
  obtain ⟨o',settled,columns⟩ := Option.map_eq_some_iff.mp rows.2
  simp only [Prod.mk.injEq] at columns
  have evidence := (later 1 o o' found uncertain settled (.inr columns.1)).2 11 attempt
  have after := evidence.2 columns.2 _ (by rw [page]; exact List.mem_singleton_self _)
  simp [After] at after

end RatatoskrX.Uncertainty
