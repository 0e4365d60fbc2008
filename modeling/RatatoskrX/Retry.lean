import RatatoskrX.Lifecycle

/-! The exact retry of an operation that reached a terminal status. The answer of the
first call comes from its own path through execute; the answer of a retry is read off
the stored row. -/
namespace RatatoskrX.Retry
open Relational Schema Audit Writeback Journal Frames SyncCalls WriteCalls Operations Schedule Transition
open WriteInvariant WriteProgress WriteSystem Ledger Lifecycle

structure ExactRetry (config : Config) (o : Operation) (call : WriteCall) : Prop where
  live : call.mode = .live
  account : call.request.accountId = o.accountId
  key : sha256Hex config.sha256 (utf8 call.request.idempotencyKey) = o.idempotencyDigest
  fingerprint : requestFingerprint config.sha256 call.request call.action call.mode = o.requestFingerprint
  valid : validateRequest call.request = .ok ()

def Reported : WriteOutcome → Prop
  | .written _ => True
  | .refused (.provider _) => True
  | outcome => Admission outcome

def sameAnswer : WriteOutcome → WriteOutcome → Prop
  | .written a, .written b => a.status = b.status
  | a, b => a = b

def Replays (db : Database) (id : Uuid) (first again : WriteOutcome) : Prop :=
  sameAnswer first again ∨ ∃ row, db.operations.find id = some row ∧
    ((row.status = .reconciledSucceeded ∧ again = .written ⟨id,.succeeded⟩) ∨
      (row.status = .reconciledNotCurrent ∧ again = .written ⟨id,.reconciledNotCurrent⟩))

/- No statement of the retry itself fails; the other processes are free. -/
def Answered (index : Nat) (_ : World) : Action → Prop
  | .advance i answer => i = index → answer = .ok
  | _ => True

instance (index w a) : Decidable (Answered index w a) := by
  apply Action.decide <;> (intros; unfold Answered; infer_instance)

/- The retry sends nothing, spends nothing, changes no bookmark, returns, and answers as the first call did. -/
def RetryReplays (config : Config) (w : World) (index : Nat) (id : Uuid) (first : WriteOutcome) : Prop :=
  ∀ labels u, Run (World.step config) (Answered index) w labels u →
    (∀ a, (index,a) ∉ attempts u.log) ∧
    (∀ v, World.step config u (.advance index .ok) = some v → v.db.consents = u.db.consents ∧
      v.db.budgetWindows = u.db.budgetWindows ∧ v.db.bookmarks = u.db.bookmarks) ∧
    (index ∉ u.abandoned → ∃ n v call outcome, Run (World.step config) (Answered index) u (advances index n) v ∧
      v.writeCall index = some call ∧ call.pc = .done outcome) ∧
    ∀ call outcome, u.writeCall index = some call → call.pc = .done outcome → Replays u.db id first outcome

/- What a terminal row can still become. -/
def Later (o row : Operation) : Prop :=
  row = o ∨ (o.status = .uncertain ∧ (row.status = .reconciledSucceeded ∨ row.status = .reconciledNotCurrent))

theorem laterStep {config w a t id o row} (ended : Ended o) (taken : World.step config w a = some t)
    (found : w.db.operations.find id = some row) (same : identity row = identity o) (later : Later o row) :
    ∃ row', t.db.operations.find id = some row' ∧ identity row' = identity o ∧ Later o row' ∧
      (row.status = .uncertain ∨ row' = row) := by
  obtain ⟨row',present,columns,moves⟩ := (operationStep taken id).1 row found
  refine ⟨row',present,columns.trans same,?_⟩
  rcases moves with rfl | edge
  · exact ⟨later,.inr rfl⟩
  rcases later with rfl | ⟨_,settled⟩
  · have uncertain : row.status = .uncertain := by
      cases status : row.status with
      | uncertain => rfl
      | received => exact absurd status ended.1
      | providerInFlight => exact absurd status ended.2
      | _ =>
        rw [status] at edge
        cases edge
    rw [uncertain] at edge
    exact ⟨.inr ⟨uncertain,uncertainEdge edge⟩,.inl uncertain⟩
  · rcases settled with status | status <;> rw [status] at edge <;> cases edge

def Answers (o row : Operation) (id : Uuid) (outcome : WriteOutcome) : Prop :=
  (∃ status, storedWriteStatus o.status = some status ∧ outcome = .written ⟨id,status⟩) ∨
  (row.status = .reconciledSucceeded ∧ outcome = .written ⟨id,.succeeded⟩) ∨
  (row.status = .reconciledNotCurrent ∧ outcome = .written ⟨id,.reconciledNotCurrent⟩)

/- What a retry relies on at each of its control points. -/
def Retrying (config : Config) (o row : Operation) (id : Uuid) (call : WriteCall) : Prop :=
  ExactRetry config o call ∧ match call.pc with
    | .claim | .existing => True
    | .poll other _ => other = id ∧ storedWriteStatus o.status = none
    | .audit other _ rest outcome => other = id ∧ rest = [] ∧ Answers o row id outcome
    | .done outcome => Answers o row id outcome ∨
      (outcome = .refused .operationInProgress ∧ storedWriteStatus o.status = none)
    | _ => False

def rank : WritePc → Nat
  | .claim => maxPolls + 3
  | .existing => maxPolls + 2
  | .poll _ remaining => remaining + 1
  | .audit .. => 1
  | _ => 0

theorem storedLater {o row status} (later : Later o row) (stored : storedWriteStatus row.status = some status) (id) :
    Answers o row id (.written ⟨id,status⟩) := by
  rcases later with rfl | ⟨_,settled | settled⟩
  · exact .inl ⟨status,stored,rfl⟩
  · rw [settled] at stored
    cases Option.some.inj stored
    exact .inr (.inl ⟨settled,rfl⟩)
  · rw [settled] at stored
    cases Option.some.inj stored
    exact .inr (.inr ⟨settled,rfl⟩)

theorem unstoredLater {o row} (later : Later o row) :
    storedWriteStatus row.status = none ↔ storedWriteStatus o.status = none := by
  rcases later with rfl | ⟨uncertain,settled | settled⟩
  · rfl
  · simp [uncertain,settled,storedWriteStatus]
  · simp [uncertain,settled,storedWriteStatus]

theorem answersStep {o row row' id outcome} (same : row.status = .uncertain ∨ row' = row)
    (answers : Answers o row id outcome) : Answers o row' id outcome := by
  rcases same with uncertain | rfl
  · rcases answers with first | ⟨status,_⟩ | ⟨status,_⟩
    · exact .inl first
    · simp [uncertain] at status
    · simp [uncertain] at status
  · exact answers

theorem existingRow {db : Database} {row : Operation} (member : row ∈ db.operations.rows) :
    existingOperation db row.accountId row.idempotencyDigest = some row := by
  unfold existingOperation
  cases found : db.operations.rows.find? (fun o => o.claim = (row.accountId,row.idempotencyDigest)) with
  | none =>
    have absent := List.find?_eq_none.mp found row member
    simp [Operation.claim] at absent
  | some other =>
    have claim : other.claim = row.claim := by simpa using List.find?_some found
    rw [db.operationClaims.row (List.mem_of_find?_eq_some found) member claim]

section Call
variable {config : Config} {db : Database} {o row : Operation} {id : Uuid} {call : WriteCall}

theorem retryFinds (found : db.operations.find id = some row) (same : identity row = identity o)
    (exact_ : ExactRetry config o call) :
    existingOperation db call.request.accountId (sha256Hex config.sha256 (utf8 call.request.idempotencyKey)) =
      some row := by
  have account := congrArg Operation.accountId same
  have digest := congrArg Operation.idempotencyDigest same
  have columns : row.accountId = call.request.accountId ∧
      row.idempotencyDigest = sha256Hex config.sha256 (utf8 call.request.idempotencyKey) := by
    rw [exact_.account,exact_.key]
    exact ⟨account,digest⟩
  rw [← columns.1,← columns.2]
  exact existingRow (Table.findIff.mp found).1

theorem retryJoins (found : db.operations.find id = some row) (same : identity row = identity o)
    (later : Later o row) (exact_ : ExactRetry config o call) :
    Retrying config o row id (call.joining config.sha256 row) ∧ rank (call.joining config.sha256 row).pc < maxPolls + 2 := by
  have keyed : row.id = id := Table.findKey found
  have fingerprint : row.requestFingerprint = requestFingerprint config.sha256 call.request call.action call.mode := by
    have column := congrArg Operation.requestFingerprint same
    rw [exact_.fingerprint]
    exact column
  unfold WriteCall.joining
  rw [if_neg (fun different => different fingerprint),exact_.live]
  cases stored : storedWriteStatus row.status with
  | some status =>
    refine ⟨⟨⟨exact_.live,exact_.account,exact_.key,exact_.fingerprint,exact_.valid⟩,keyed,rfl,?_⟩,
      by simp [WriteCall.at_,auditing,rank]⟩
    rw [keyed]
    exact storedLater later stored id
  | none =>
    exact ⟨⟨⟨exact_.live,exact_.account,exact_.key,exact_.fingerprint,exact_.valid⟩,keyed,
      (unstoredLater later).mp stored⟩,by simp [WriteCall.at_,rank]⟩

theorem retryNext (now : DateTime) (found : db.operations.find id = some row) (same : identity row = identity o)
    (later : Later o row) (retrying : Retrying config o row id call) (open_ : ∀ outcome, call.pc ≠ .done outcome) :
    ∃ s, call.next config.writeGate config.sha256 db now .ok = some s ∧ AuditOnly db s.db ∧
      (∀ a, s.event ≠ some (.attempt a)) ∧ rank s.next.pc < rank call.pc ∧ Retrying config o row id s.next := by
  have still : AuditOnly db db := ⟨[],by simp [insertEvents]⟩
  obtain ⟨exact_,at_⟩ := retrying
  have kept : ∀ pc, ExactRetry config o (call.at_ pc) :=
    fun _ => ⟨exact_.live,exact_.account,exact_.key,exact_.fingerprint,exact_.valid⟩
  have exists_ := retryFinds found same exact_
  unfold WriteCall.next
  cases pc : call.pc with
  | claim =>
    simp only [exact_.valid]
    rw [if_pos (by
      have present := exists_
      simpa [claimRow,requestedRow] using congrArg Option.isSome present)]
    exact ⟨_,rfl,still,by simp,by simp [WriteCall.at_,rank],kept _,trivial⟩
  | existing =>
    simp only [exists_]
    obtain ⟨joined,closer⟩ := retryJoins found same later exact_
    exact ⟨_,rfl,still,by simp,closer,joined⟩
  | poll other remaining =>
    simp only [pc] at at_
    obtain ⟨rfl,unstored⟩ := at_
    refine ⟨_,rfl,still,by simp,?_⟩
    have none : (Option.map Operation.status (some row)).bind storedWriteStatus = none :=
      (unstoredLater later).mpr unstored
    simp only [found]
    unfold WriteCall.polling
    simp only [none]
    split
    · exact ⟨by simp [WriteCall.at_,rank],kept _,.inr ⟨rfl,unstored⟩⟩
    · rename_i more
      exact ⟨by simp only [WriteCall.at_,rank]; omega,kept _,rfl,unstored⟩
  | audit other stage rest outcome =>
    simp only [pc] at at_
    obtain ⟨rfl,rfl,answers⟩ := at_
    exact ⟨_,rfl,detailsAuditOnly ..,by simp,by simp [WriteCall.at_,auditing,rank],kept _,.inl answers⟩
  | done outcome => exact absurd pc (open_ outcome)
  | _ => simp [pc] at at_

end Call

structure Under (config : Config) (o : Operation) (id : Uuid) (index : Nat) (u : World) : Prop where
  state : ∃ row call, u.db.operations.find id = some row ∧ identity row = identity o ∧ Later o row ∧
    u.processes[index]? = some (.write call) ∧ Retrying config o row id call
  unsent : ∀ a, (index,a) ∉ attempts u.log

section System
variable {config : Config} {o : Operation} {id : Uuid} {index : Nat} {u v : World}

theorem retryingStep {row row' call} (same : row.status = .uncertain ∨ row' = row)
    (retrying : Retrying config o row id call) : Retrying config o row' id call := by
  obtain ⟨exact_,at_⟩ := retrying
  refine ⟨exact_,?_⟩
  cases pc : call.pc with
  | audit other stage rest outcome =>
    simp only [pc] at at_ ⊢
    exact ⟨at_.1,at_.2.1,answersStep same at_.2.2⟩
  | done outcome =>
    simp only [pc] at at_ ⊢
    exact at_.imp_left (answersStep same)
  | _ =>
    simp only [pc] at at_
    try exact at_

theorem ownStep {call : WriteCall} {s} (alive : index ∉ u.abandoned) (here : u.writeCall index = some call)
    (taken : call.next config.writeGate config.sha256 u.db u.now .ok = some s) :
    World.step config u (.advance index .ok) = some (u.take index (s.map .write)) ∧
      (u.take index (s.map .write)).writeCall index = some s.next := by
  have found := writeCallFound.mp here
  constructor
  · simp only [World.step]
    rw [if_neg alive]
    simp [found,Process.next,taken]
  · refine writeCallFound.mpr ?_
    simp only [World.take,List.getElem?_set_self (List.getElem?_eq_some_iff.mp found).1]
    rfl

theorem retryStep (under : Under config o id index u) (alive : index ∉ u.abandoned)
    (open_ : ∀ call outcome, u.writeCall index = some call → call.pc ≠ .done outcome) :
    ∃ t call call', World.step config u (.advance index .ok) = some t ∧ AuditOnly u.db t.db ∧
      u.writeCall index = some call ∧ t.writeCall index = some call' ∧ rank call'.pc < rank call.pc ∧
      t.abandoned = u.abandoned ∧ Under config o id index t := by
  obtain ⟨row,call,found,same,later,here,retrying⟩ := under.state
  obtain ⟨s,taken,audits,silent,closer,next⟩ := retryNext u.now found same later retrying
    (fun outcome => open_ call outcome (writeCallFound.mpr here))
  obtain ⟨stepped,after⟩ := ownStep alive (writeCallFound.mpr here) taken
  refine ⟨_,call,s.next,stepped,audits,writeCallFound.mpr here,after,closer,rfl,?_,?_⟩
  · refine ⟨row,s.next,?_,same,later,writeCallFound.mp after,next⟩
    rw [show (u.take index (s.map .write)).db = s.db from rfl,auditFind audits]
    exact found
  · intro a member
    simp only [World.take,attemptsAppend,List.mem_append] at member
    rcases member with old | fresh
    · exact under.unsent a old
    · have entry := attemptEntry fresh
      cases event : (s.map Process.write).event with
      | none => simp [event] at entry
      | some e =>
        simp only [event,Option.map_some,Option.toList_some,List.mem_singleton,Entry.mk.injEq,true_and] at entry
        exact silent a (event.trans (by rw [← entry]))

theorem underStep {a} (ended : Ended o) (under : Under config o id index u) (answered : Answered index u a)
    (taken : World.step config u a = some v) : Under config o id index v := by
  by_cases own : ∃ answer, a = .advance index answer
  · obtain ⟨answer,rfl⟩ := own
    cases answered rfl
    have alive : index ∉ u.abandoned := by
      intro gone
      simp [World.step,gone] at taken
    have open_ : ∀ call outcome, u.writeCall index = some call → call.pc ≠ .done outcome := by
      intro call outcome here pc
      simp [World.step,alive,writeCallFound.mp here,Process.next,WriteCall.next,pc] at taken
    obtain ⟨t,_,_,stepped,_,_,_,_,_,next⟩ := retryStep under alive open_
    rw [taken] at stepped
    cases Option.some.inj stepped
    exact next
  · obtain ⟨row,call,found,same,later,here,retrying⟩ := under.state
    obtain ⟨row',present,columns,later',kept⟩ := laterStep ended taken found same later
    obtain ⟨next,stays⟩ := writeStays taken here
    rcases stepView taken stays with ⟨answer,_,_,mine,_⟩ | ⟨_,fresh,_⟩ | ⟨unmoved,⟨more,logged,others⟩,_⟩
    · exact absurd ⟨answer,mine⟩ own
    · have inside := (List.getElem?_eq_some_iff.mp here).1
      exact absurd inside (by omega)
    · rw [here] at unmoved
      cases Option.some.inj unmoved
      refine ⟨⟨row',call,present,columns,later',stays,retryingStep kept retrying⟩,?_⟩
      intro a member
      rw [logged,attemptsAppend] at member
      rcases List.mem_append.mp member with old | fresh
      · exact under.unsent a old
      · exact others _ (attemptEntry fresh) rfl

theorem underRun {labels} (ended : Ended o) (under : Under config o id index u)
    (run : Run (World.step config) (Answered index) u labels v) : Under config o id index v :=
  run.preserves (Under config o id index) (fun _ _ _ under answered taken => underStep ended under answered taken) under

def remaining (index : Nat) (w : World) : Nat := (w.writeCall index).elim 0 (fun call => rank call.pc)

def Returned (index : Nat) (w : World) : Prop := ∃ call outcome, w.writeCall index = some call ∧ call.pc = .done outcome

theorem retryReturns (under : Under config o id index u) (alive : index ∉ u.abandoned) :
    ∃ n v call outcome, Run (World.step config) (Answered index) u (advances index n) v ∧
      v.writeCall index = some call ∧ call.pc = .done outcome ∧ Under config o id index v := by
  have progress : ∀ w, Under config o id index w ∧ index ∉ w.abandoned → ¬Returned index w →
      ∃ t, Answered index w (.advance index .ok) ∧ World.step config w (.advance index .ok) = some t ∧
        (Under config o id index t ∧ index ∉ t.abandoned) ∧ remaining index t < remaining index w := by
    rintro w ⟨under,alive⟩ open_
    obtain ⟨t,call,next,stepped,_,here,after,closer,same,under'⟩ :=
      retryStep under alive (fun call outcome here pc => open_ ⟨call,outcome,here,pc⟩)
    refine ⟨t,fun _ => rfl,stepped,⟨under',same ▸ alive⟩,?_⟩
    simpa only [remaining,here,after,Option.elim_some] using closer
  obtain ⟨n,v,run,⟨under',_⟩,call,outcome,here,pc⟩ := reaches _ (Returned index) (remaining index) progress ⟨under,alive⟩
  exact ⟨n,v,call,outcome,run,here,pc,under'⟩

theorem retryAnswer (under : Under config o id index u) {call outcome} (here : u.writeCall index = some call)
    (pc : call.pc = .done outcome) :
    ∃ row, u.db.operations.find id = some row ∧ Later o row ∧ (Answers o row id outcome ∨
      (outcome = .refused .operationInProgress ∧ storedWriteStatus o.status = none)) := by
  obtain ⟨row,other,found,_,later,present,retrying⟩ := under.state
  rw [writeCallFound.mp here] at present
  cases Option.some.inj present
  have at_ := retrying.2
  simp only [pc] at at_
  exact ⟨row,found,later,at_⟩

end System

/- The stored rows from which the first answer cannot be read. -/
def Forgotten (o : Operation) : Prop :=
  o.status = .refused ∨ o.status = .failed ∨ (o.status = .succeeded ∧ o.outcome = some "already_satisfied")

instance (o) : Decidable (Forgotten o) := by
  unfold Forgotten; infer_instance

theorem settledAnswer {o first} (settles : Settles o first) (reported : Reported first) (ended : Ended o)
    (kept : ¬Forgotten o) : ∃ x status, first = .written ⟨x,status⟩ ∧
      (storedWriteStatus o.status = some status ∨
        (status = .uncertain ∧ (o.status = .reconciledSucceeded ∨ o.status = .reconciledNotCurrent))) := by
  simp only [Forgotten,not_or] at kept
  obtain ⟨unrefused,unfailed,unsatisfied⟩ := kept
  cases first with
  | written result =>
    obtain ⟨x,status⟩ := result
    refine ⟨x,status,rfl,?_⟩
    cases status with
    | succeeded => exact .inl (by rw [settles.1]; rfl)
    | alreadySatisfied => exact absurd settles unsatisfied
    | uncertain =>
      rcases settles with status | settled
      · exact .inl (by rw [status]; rfl)
      · exact .inr ⟨rfl,settled⟩
    | projectionPending => exact .inl (by rw [show o.status = .projectionPending from settles]; rfl)
    | reconciledNotCurrent => exact settles.elim
  | previewed result => exact reported.elim
  | refused error =>
    cases error with
    | provider error => exact absurd settles unfailed
    | budget error =>
      cases error with
      | exhausted resetAt => exact absurd settles unrefused
      | _ => exact reported.elim
    | consentRequired => exact absurd (settles.resolve_right ended.1) unrefused
    | ownershipMismatch => exact absurd settles unrefused
    | connectionInactive => exact absurd settles unrefused
    | writeAuthorizationRequired => exact absurd settles unrefused
    | writeScopeRequired => exact absurd settles unrefused
    | _ => exact reported.elim

theorem forgottenAnswer {o first} (settles : Settles o first) (reported : Reported first) (forgotten : Forgotten o) :
    (storedWriteStatus o.status = none ∧ ∀ x, first ≠ .written x) ∨
    (storedWriteStatus o.status = some .succeeded ∧ o.status = .succeeded ∧ ∃ x, first = .written ⟨x,.alreadySatisfied⟩) := by
  have unwritten : o.status = .refused ∨ o.status = .failed → ∀ x, first ≠ .written x := by
    rintro status ⟨x,answer⟩ rfl
    cases answer <;> rcases status with status | status <;> simp [Settles,status] at settles
  rcases forgotten with status | status | ⟨status,satisfied⟩
  · exact .inl ⟨by rw [status]; rfl,unwritten (.inl status)⟩
  · exact .inl ⟨by rw [status]; rfl,unwritten (.inr status)⟩
  · refine .inr ⟨by rw [status]; rfl,status,?_⟩
    cases first with
    | written result =>
      obtain ⟨x,answer⟩ := result
      cases answer with
      | alreadySatisfied => exact ⟨x,rfl⟩
      | succeeded => simp [Settles,satisfied] at settles
      | _ => simp [Settles,status] at settles
    | previewed result => exact reported.elim
    | refused error =>
      cases error with
      | budget error => cases error <;> simp_all [Settles,Reported,Admission]
      | _ => simp_all [Settles,Reported,Admission]

theorem forgottenStays {o row} (forgotten : Forgotten o) (later : Later o row) :
    row.status ≠ .reconciledSucceeded ∧ row.status ≠ .reconciledNotCurrent := by
  rcases later with rfl | ⟨uncertain,_⟩
  · rcases forgotten with status | status | ⟨status,_⟩ <;> simp [status]
  · rcases forgotten with status | status | ⟨status,_⟩ <;> simp [uncertain] at status

theorem forgottenReplay {config o id index u first call outcome} (under : Under config o id index u)
    (here : u.writeCall index = some call) (pc : call.pc = .done outcome) (settles : Settles o first)
    (reported : Reported first) (forgotten : Forgotten o) : ¬Replays u.db id first outcome := by
  obtain ⟨row,found,later,answers⟩ := retryAnswer under here pc
  have unsettled := forgottenStays forgotten later
  have stored : (∃ status, storedWriteStatus o.status = some status ∧ outcome = .written ⟨id,status⟩) ∨
      (outcome = .refused .operationInProgress ∧ storedWriteStatus o.status = none) := by
    rcases answers with (first | ⟨status,_⟩ | ⟨status,_⟩) | last
    · exact .inl first
    · exact absurd status unsettled.1
    · exact absurd status unsettled.2
    · exact .inr last
  rintro (same | ⟨other,present,settled⟩)
  · rcases forgottenAnswer settles reported forgotten with ⟨none,unwritten⟩ | ⟨some,_,x,rfl⟩
    · rcases stored with ⟨status,some,_⟩ | ⟨rfl,_⟩
      · rw [none] at some
        simp at some
      · cases first with
        | written result => exact unwritten result rfl
        | previewed result => exact reported.elim
        | refused error =>
          cases same
          exact reported.elim
    · rcases stored with ⟨status,some',rfl⟩ | ⟨_,none⟩
      · rw [some] at some'
        cases Option.some.inj some'
        simp [sameAnswer] at same
      · rw [some] at none
        simp at none
  · rw [found] at present
    cases Option.some.inj present
    rcases settled with ⟨status,_⟩ | ⟨status,_⟩
    · exact unsettled.1 status
    · exact unsettled.2 status

theorem keptReplay {config o id index u first call outcome} (under : Under config o id index u)
    (here : u.writeCall index = some call) (pc : call.pc = .done outcome) (settles : Settles o first)
    (reported : Reported first) (ended : Ended o) (kept : ¬Forgotten o) : Replays u.db id first outcome := by
  obtain ⟨row,found,later,answers⟩ := retryAnswer under here pc
  obtain ⟨x,status,rfl,stored⟩ := settledAnswer settles reported ended kept
  rcases answers with (⟨status',read,rfl⟩ | settled | settled) | ⟨_,none⟩
  · rcases stored with same | ⟨rfl,settled⟩
    · rw [same] at read
      cases Option.some.inj read
      exact .inl rfl
    · have unmoved : row = o := by
        rcases later with same | ⟨uncertain,_⟩
        · exact same
        · rcases settled with status | status <;> simp [uncertain] at status
      subst unmoved
      refine .inr ⟨row,found,?_⟩
      rcases settled with status | status
      · rw [status] at read
        cases Option.some.inj read
        exact .inl ⟨status,rfl⟩
      · rw [status] at read
        cases Option.some.inj read
        exact .inr ⟨status,rfl⟩
  · exact .inr ⟨row,found,.inl settled⟩
  · exact .inr ⟨row,found,.inr settled⟩
  · rcases stored with same | ⟨_,settled | settled⟩
    · rw [same] at none
      simp at none
    · rw [settled] at none
      simp [storedWriteStatus] at none
    · rw [settled] at none
      simp [storedWriteStatus] at none

/- One call returned over an ended operation, and another is about to retry it. -/
structure Retried (config : Config) (w : World) (original retry : Nat) (id : Uuid) (o : Operation)
    (answer : WriteOutcome) : Prop where
  first : ∃ call, w.writeCall original = some call ∧ call.operation = some id ∧ call.pc = .done answer
  reported : Reported answer
  found : w.db.operations.find id = some o
  ended : Ended o
  again : ∃ call, w.writeCall retry = some call ∧ call.pc = .claim ∧ ExactRetry config o call
  alive : retry ∉ w.abandoned

theorem retryReplaysExactly {config db now labels w j k id o answer}
    (run : Run (World.step config) free (World.start db now) labels w) (retried : Retried config w j k id o answer) :
    RetryReplays config w k id answer ↔ ¬Forgotten o := by
  obtain ⟨⟨first,original,mine,returned⟩,reported,found,ended,⟨call,retry,fresh,exact_⟩,alive⟩ := retried
  have holds := (soundRun run).holds (writeCallFound.mp original)
  simp only [Holds,returned] at holds
  obtain ⟨row,claimed,settles,_⟩ := holds id mine
  cases claimedRow claimed found
  have unsent := ((booksRun run).calls (writeCallFound.mp retry)).unsent (by simp [fresh,Sent])
  have under : Under config o id k w :=
    ⟨⟨o,call,found,rfl,.inl rfl,writeCallFound.mp retry,exact_,by simp [fresh]⟩,unsent⟩
  constructor
  · intro replays forgotten
    obtain ⟨n,v,last,outcome,solo,here,pc,under'⟩ := retryReturns under alive
    exact forgottenReplay under' here pc settles reported forgotten ((replays _ v solo).2.2.2 last outcome here pc)
  · intro kept labels' u later
    have under' := underRun ended under later
    refine ⟨under'.unsent,?_,?_,?_⟩
    · intro v taken
      have alive' : k ∉ u.abandoned := by
        intro gone
        simp [World.step,gone] at taken
      have open_ : ∀ call outcome, u.writeCall k = some call → call.pc ≠ .done outcome := by
        intro call outcome here pc
        simp [World.step,alive',writeCallFound.mp here,Process.next,WriteCall.next,pc] at taken
      obtain ⟨t,_,_,stepped,⟨events,audits⟩,_⟩ := retryStep under' alive' open_
      rw [taken] at stepped
      cases Option.some.inj stepped
      rw [audits]
      exact ⟨rfl,rfl,rfl⟩
    · intro alive'
      obtain ⟨n,v,last,outcome,solo,here,pc,_⟩ := retryReturns under' alive'
      exact ⟨n,v,last,outcome,solo,here,pc⟩
    · exact fun last outcome here pc => keptReplay under' here pc settles reported ended kept

def confirmedRun : List Action := confirmation ++ advances 1 1 ++ [.spawn (sampleWrite "first")]

def confirmedEnd : World := (replay (World.step sampleConfig) free sampleStart confirmedRun).get (by decide +kernel)

def confirmedOperation : Operation := (confirmedEnd.db.operations.find 1).get (by decide +kernel)

theorem retryReplaysAtConfirmation : RetryReplays sampleConfig confirmedEnd 2 1 (.written ⟨1,.succeeded⟩) := by
  have run : Run (World.step sampleConfig) free sampleStart confirmedRun confirmedEnd :=
    replayRun (Option.some_get _).symm
  have retried : Retried sampleConfig confirmedEnd 1 2 1 confirmedOperation (.written ⟨1,.succeeded⟩) :=
    { first := ⟨⟨.live,.add,sampleRequest "first",.done (.written ⟨1,.succeeded⟩),some 1,
        some ⟨⟨1784797200000000,by decide⟩,1⟩⟩,by decide +kernel,rfl,rfl⟩
      reported := trivial
      found := (Option.some_get _).symm
      ended := ⟨by decide +kernel,by decide +kernel⟩
      again := ⟨⟨.live,.add,sampleRequest "first",.claim,none,none⟩,by decide +kernel,rfl,rfl,by decide +kernel,
        by decide +kernel,by decide +kernel,rfl⟩
      alive := by decide +kernel }
  exact (retryReplaysExactly run retried).mpr (by decide +kernel)

/- A bookmark that a snapshot already showed, an add that finds it so, and the same add again. -/
def satisfiedRun : List Action :=
  sampleLink ++ [.spawn (.snapshot ⟨1,.load none⟩)] ++ advances 1 2 ++ [.advance 1 (.page ⟨some ["100"],none⟩)] ++
    advances 1 3 ++ [.spawn (sampleWrite "first")] ++ advances 2 11 ++ [.spawn (sampleWrite "first")]

def satisfiedEnd : World := (replay (World.step sampleConfig) free sampleStart satisfiedRun).get (by decide +kernel)

def satisfiedOperation : Operation := (satisfiedEnd.db.operations.find 1).get (by decide +kernel)

theorem satisfiedRetried :
    Retried sampleConfig satisfiedEnd 2 3 1 satisfiedOperation (.written ⟨1,.alreadySatisfied⟩) where
  first := ⟨⟨.live,.add,sampleRequest "first",.done (.written ⟨1,.alreadySatisfied⟩),some 1,none⟩,
    by decide +kernel,rfl,rfl⟩
  reported := trivial
  found := (Option.some_get _).symm
  ended := ⟨by decide +kernel,by decide +kernel⟩
  again := ⟨⟨.live,.add,sampleRequest "first",.claim,none,none⟩,by decide +kernel,rfl,rfl,by decide +kernel,
    by decide +kernel,by decide +kernel,rfl⟩
  alive := by decide +kernel

def satisfiedAgain : World :=
  (replay (World.step sampleConfig) (Answered 3) satisfiedEnd (advances 3 3)).get (by decide +kernel)

theorem satisfiedRetryDiffers :
    ¬∀ config db now labels w j k id o answer, Run (World.step config) free (World.start db now) labels w →
      Retried config w j k id o answer → RetryReplays config w k id answer := by
  intro claim
  have run : Run (World.step sampleConfig) free sampleStart satisfiedRun satisfiedEnd :=
    replayRun (Option.some_get _).symm
  obtain ⟨_,_,_,answers⟩ := claim _ _ _ _ _ _ _ _ _ _ run satisfiedRetried _ satisfiedAgain
    (replayRun (Option.some_get _).symm)
  have returned : satisfiedAgain.writeCall 3 =
      some ⟨.live,.add,sampleRequest "first",.done (.written ⟨1,.succeeded⟩),none,none⟩ := by decide +kernel
  have status : (satisfiedAgain.db.operations.find 1).map Operation.status = some .succeeded := by decide +kernel
  rcases answers _ _ returned rfl with same | ⟨row,found,settled⟩
  · simp [sameAnswer] at same
  · rw [found] at status
    have succeeded : row.status = .succeeded := Option.some.inj status
    rcases settled with ⟨h,_⟩ | ⟨h,_⟩ <;> simp [succeeded] at h

end RatatoskrX.Retry
