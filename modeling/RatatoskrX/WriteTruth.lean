import RatatoskrX.BookmarkProvider
import RatatoskrX.Lifecycle
import RatatoskrX.Uncertainty

/-! That what the archive records of a write is what happened at the provider. Along a run
whose provider answers come from the official adapter, a row that says the write failed or
was never sent speaks of one that was not carried out, and a row that says it was confirmed
of one that was; only what is called uncertain, or is still in flight, is open. -/
namespace RatatoskrX.WriteTruth
open Relational Schema Normalization Sealing Writeback Journal Frames Reconciliation Snapshot WriteCalls Operations Schedule
open Transition WriteInvariant WriteSystem Uncertainty BookmarkProvider

/- An answer of the provider, as the adapter gave it. -/
def provided : Answer → Option Answered
  | .confirmed evidence => some (.ok evidence)
  | .rejected error => some (.error error)
  | _ => none

section Honesty
variable (credentials : Connection.Config) (fromSlice : Bytes → Option Json) (carriedOut : Uuid → Prop)

/- Every answer to a write that awaits one is the adapter's, of an exchange in which the
provider carried the mutation out or not. -/
def Honest (w : World) (a : Action) : Prop :=
  ∀ i answer answered call operationId, a = .advance i answer → provided answer = some answered →
    w.processes[i]? = some (.write call) → call.pc = .awaiting operationId →
    ∃ httpReady baseUrl row transport,
      answered = (mutate credentials fromSlice httpReady baseUrl call.request.accountId call.request.providerPostId
        call.action row transport).2 ∧
      Carries (mutate credentials fromSlice httpReady baseUrl call.request.accountId call.request.providerPostId
        call.action row transport) fromSlice (expectedBookmarked call.action) transport (carriedOut operationId)

end Honesty

/- What the row of an operation says of the mutation. -/
def Truthful (carriedOut : Prop) (o : Operation) : Prop :=
  match o.status with
  | .received | .refused | .dryRun | .failed => ¬carriedOut
  | .projectionPending => carriedOut
  | .succeeded => carriedOut ↔ o.outcome ≠ some "already_satisfied"
  | .providerInFlight | .uncertain | .reconciledSucceeded | .reconciledNotCurrent => True

/- A row that says that the provider confirmed. -/
def Confirmed (o : Operation) : Prop :=
  o.status = .projectionPending ∨ o.status = .succeeded ∧ o.outcome ≠ some "already_satisfied"

/- A row of an operation that reached the provider. -/
def Contacted (o : Operation) : Prop :=
  o.status ≠ .received ∧ o.status ≠ .refused ∧ o.status ≠ .dryRun ∧
    (o.status = .succeeded → o.outcome ≠ some "already_satisfied")

theorem failedCause {db c o} (after : (rowAfter db c o).status = .failed) :
    o.status = .failed ∨ ∃ error, c = .completeProviderFailure o.id error := by
  cases c with
  | completeProviderFailure operationId error =>
    simp only [rowAfter,moved] at after
    split at after
    · rename_i mine
      exact .inr ⟨error,by rw [mine.1]⟩
    · exact .inl after
  | completeConfirmed operationId account providerPostId action requestId t =>
    simp only [rowAfter,moved] at after
    split at after
    · simp only at after
      split at after <;> simp at after
    · exact .inl after
  | completeRun account run t =>
    simp only [rowAfter,settle] at after
    split at after
    · simp only [reconciledStatus] at after
      split at after <;> simp at after
    · exact .inl after
  | _ =>
    simp only [rowAfter,moved] at after
    first
      | exact .inl after
      | split at after
        · simp at after
        · exact .inl after

theorem confirmedCause {db c o} (after : Confirmed (rowAfter db c o)) :
    Confirmed o ∨ ∃ account providerPostId action requestId t,
      c = .completeConfirmed o.id account providerPostId action requestId t := by
  cases c with
  | completeConfirmed operationId account providerPostId action requestId t =>
    simp only [rowAfter,moved] at after
    split at after
    · rename_i mine
      exact .inr ⟨account,providerPostId,action,requestId,t,by rw [mine.1]⟩
    · exact .inl after
  | completeRun account run t =>
    simp only [rowAfter,settle] at after
    split at after
    · simp only [Confirmed,reconciledStatus] at after
      split at after <;> simp at after
    · exact .inl after
  | _ =>
    simp only [rowAfter,moved] at after
    first
      | exact .inl after
      | split at after
        · simp [Confirmed] at after
        · exact .inl after

theorem contactedAfter {o : Operation} (db c) (contacted : Contacted o) : Contacted (rowAfter db c o) := by
  obtain ⟨received,refused,dryRun,satisfied⟩ := id contacted
  cases c with
  | completeConfirmed operationId account providerPostId action requestId t =>
    simp only [rowAfter,moved]
    split
    · simp only [Contacted]
      split <;> simp
    · exact contacted
  | completeRun account run t =>
    simp only [rowAfter,settle]
    split
    · simp only [Contacted,reconciledStatus]
      split <;> simp
    · exact contacted
  | _ =>
    simp only [rowAfter,moved]
    first
      | exact contacted
      | split
        · first
            | exact absurd (by assumption : _ ∧ _).2 received
            | simp [Contacted]
        · exact contacted

section Call
variable {gate : Budget.BudgetGate} {sha256 : List UInt8 → List UInt8} {db : Database} {now : DateTime}
  {answer : Answer} {call : WriteCall} {s : Step WriteCall}

theorem answeredStep (ok : call.next gate sha256 db now answer = some s) {operationId}
    (past : awaited s.next.pc = some operationId) :
    s.next.pc = .awaiting operationId ∨ call.pc = .awaiting operationId ∧
      ((∃ evidence, answer = .confirmed evidence ∧ s.next.pc = .confirm operationId evidence.requestId now) ∨
        ∃ error, answer = .rejected error ∧
          ((∃ requestId, s.next.pc = .uncertain operationId requestId) ∨
            ¬Uncertain error ∧ s.next.pc = .failed operationId error)) := by
  have from_ := awaitedStep ok
  rw [past] at from_
  rcases from_ with none | same | ⟨id,t,pc,mine,_⟩
  · simp at none
  · cases pc : call.pc with
    | awaiting id =>
      rw [pc] at same
      cases Option.some.inj same
      refine .inr ⟨rfl,?_⟩
      simp only [WriteCall.next,pc] at ok
      split at ok
      · rename_i evidence
        cases Option.some.inj ok
        exact .inl ⟨evidence,rfl,rfl⟩
      · rename_i status evidence
        rw [quietCases ok]
        exact .inr ⟨_,rfl,.inl ⟨_,rfl⟩⟩
      · rename_i error certain
        rw [quietCases ok]
        refine .inr ⟨error,rfl,.inr ⟨?_,rfl⟩⟩
        intro open_
        cases error with
        | uncertain status evidence => exact certain status evidence rfl
        | _ => exact open_
      · simp at ok
    | confirm id requestId t =>
      simp only [WriteCall.next,pc] at ok
      have ends := transactAwaits ok rfl rfl rfl
      rw [past] at ends
      simp at ends
    | uncertain id requestId =>
      simp only [WriteCall.next,pc] at ok
      have ends := transactAwaits ok (auditingAwaits ..) rfl rfl
      rw [past] at ends
      simp at ends
    | failed id error =>
      simp only [WriteCall.next,pc] at ok
      have ends := transactAwaits ok (auditingAwaits ..) rfl rfl
      rw [past] at ends
      simp at ends
    | _ =>
      rw [pc] at same
      simp [awaited] at same
  · simp only [WriteCall.next,pc] at ok
    split at ok
    · cases Option.some.inj ok
      cases Option.some.inj mine
      exact .inl rfl
    · simp at ok

end Call

/- What every reachable world keeps: the points and the rows that follow an answer say what
happened, and a row whose mutation was sent is one that reached the provider. -/
structure Truth (carriedOut : Uuid → Prop) (w : World) : Prop where
  confirming : ∀ {i : Nat} {call operationId requestId t}, w.processes[i]? = some (.write call) →
    call.pc = .confirm operationId requestId t → carriedOut operationId
  failing : ∀ {i : Nat} {call operationId error}, w.processes[i]? = some (.write call) →
    call.pc = .failed operationId error → ¬carriedOut operationId
  failed : ∀ {operationId o}, w.db.operations.find operationId = some o → o.status = .failed → ¬carriedOut operationId
  confirmed : ∀ {operationId o}, w.db.operations.find operationId = some o → Confirmed o → carriedOut operationId
  contacted : ∀ {operationId}, Attempted w.log operationId →
    ∃ o, w.db.operations.find operationId = some o ∧ Contacted o

section Step
variable {credentials : Connection.Config} {fromSlice : Bytes → Option Json} {carriedOut : Uuid → Prop}
  {config : Config} {w t : World} {a : Action}

/- An answer that the adapter gave tells whether the mutation was carried out. -/
theorem honestTells (honest : Honest credentials fromSlice carriedOut w a) {i answer answered call operationId}
    (by_ : a = .advance i answer) (answers : provided answer = some answered)
    (found : w.processes[i]? = some (.write call)) (waits : call.pc = .awaiting operationId) :
    (∀ evidence, answered = .ok evidence → carriedOut operationId) ∧
    ∀ error, answered = .error error → ¬Uncertain error → ¬carriedOut operationId := by
  obtain ⟨httpReady,baseUrl,row,transport,rfl,carries⟩ := honest i answer answered call operationId by_ answers found waits
  exact mutateTells carries

theorem callsTruth (truth : Truth carriedOut w) (honest : Honest credentials fromSlice carriedOut w a)
    (taken : World.step config w a = some t) {i : Nat} {call} (found : t.processes[i]? = some (.write call)) :
    (∀ operationId requestId instant, call.pc = .confirm operationId requestId instant → carriedOut operationId) ∧
    ∀ operationId error, call.pc = .failed operationId error → ¬carriedOut operationId := by
  rcases stepView taken found with ⟨answer,old,s,by_,here,ok,next,_⟩ | ⟨first,_⟩ | ⟨here,_⟩
  · obtain ⟨before,r,rfl,stepped,rfl,rfl⟩ := writeNext ok next.symm
    constructor
    · intro operationId requestId instant pc
      have past : awaited r.next.pc = some operationId := by rw [pc]; rfl
      rcases answeredStep stepped past with
        waits | ⟨waits,⟨evidence,rfl,_⟩ | ⟨error,_,⟨_,other⟩ | ⟨_,other⟩⟩⟩
      · simp [waits] at pc
      · exact (honestTells honest by_ rfl here waits).1 evidence rfl
      · simp [other] at pc
      · simp [other] at pc
    · intro operationId error pc
      have past : awaited r.next.pc = some operationId := by rw [pc]; rfl
      rcases answeredStep stepped past with
        waits | ⟨waits,⟨_,_,other⟩ | ⟨error',rfl,⟨_,other⟩ | ⟨certain,_⟩⟩⟩
      · simp [waits] at pc
      · simp [other] at pc
      · simp [other] at pc
      · exact (honestTells honest by_ rfl here waits).2 error' rfl certain
  · have pc := (initialWrite first).1
    exact ⟨by simp [pc],by simp [pc]⟩
  · exact ⟨fun _ _ _ pc => truth.confirming here pc,fun _ _ pc => truth.failing here pc⟩

theorem completesTruth (truth : Truth carriedOut w) {c} (by_ : (External c ∧ ∀ i answer, a ≠ .advance i answer) ∨
      ∃ i answer process, a = .advance i answer ∧ w.processes[i]? = some process ∧ process.commit config w = some c ∧
        (answer = .ok ∨ answer = .lost)) :
    (∀ operationId account providerPostId action requestId instant,
      c = .completeConfirmed operationId account providerPostId action requestId instant → carriedOut operationId) ∧
    ∀ operationId error, c = .completeProviderFailure operationId error → ¬carriedOut operationId := by
  rcases by_ with ⟨outside,_⟩ | ⟨i,answer,p,_,here,stands,_⟩
  · exact ⟨by rintro _ _ _ _ _ _ rfl; exact outside.elim,by rintro _ _ rfl; exact outside.elim⟩
  rcases foreignCommit stands with ⟨call,rfl⟩ | foreign
  · constructor
    · rintro operationId account providerPostId action requestId instant rfl
      simp only [Process.commit,WriteCall.commit] at stands
      split at stands <;> cases stands
      rename_i pc
      exact truth.confirming here pc
    · rintro operationId error rfl
      simp only [Process.commit,WriteCall.commit] at stands
      split at stands <;> cases stands
      rename_i pc
      exact truth.failing here pc
  · exact ⟨by rintro _ _ _ _ _ _ rfl; exact foreign.elim,by rintro _ _ rfl; exact foreign.elim⟩

theorem sentContacted (sound : Sound config w) (contacted : ∀ {operationId}, Attempted w.log operationId →
      ∃ o, w.db.operations.find operationId = some o ∧ Contacted o) (taken : World.step config w a = some t)
    {operationId} (attempted : Attempted t.log operationId) :
    ∃ o, w.db.operations.find operationId = some o ∧ Contacted o := by
  obtain ⟨i,sent,member,rfl⟩ := attempted
  rcases logAfter taken with ⟨same,_⟩ | ⟨e,logged,wrote⟩
  · rw [same] at member
    exact contacted ⟨i,sent,member,rfl⟩
  · rw [logged,List.mem_append,List.mem_singleton] at member
    rcases member with old | rfl
    · exact contacted ⟨i,sent,old,rfl⟩
    · cases wrote with
      | spoken found ok next utters same =>
        rename_i call _
        have holds := sound.holds found
        unfold WriteCall.utters at utters
        split at utters <;> cases utters
        rename_i id t' pc
        simp only [Holds,pc] at holds
        obtain ⟨⟨_,⟨o,claimed,status⟩,_⟩,_⟩ := holds
        exact ⟨o,claimed.2.1,by simp [Contacted,status]⟩

theorem truthStep (sound : Sound config w) (truth : Truth carriedOut w)
    (honest : Honest credentials fromSlice carriedOut w a) (taken : World.step config w a = some t) :
    Truth carriedOut t := by
  -- A row after the step is the row before it, moved, or one that was just claimed.
  have rows : ∀ {operationId o}, t.db.operations.find operationId = some o →
      (o.status = .failed → ¬carriedOut operationId) ∧ (Confirmed o → carriedOut operationId) := by
    intro operationId o found
    rcases stepCommit taken with same | ⟨c,applied,by_⟩
    · rw [same] at found
      exact ⟨truth.failed found,truth.confirmed found⟩
    have completes := completesTruth truth by_
    rcases operationAfter applied operationId with moves | ⟨row,rfl,rfl,_,present⟩
    · rw [found] at moves
      obtain ⟨old,before,rfl⟩ := Option.map_eq_some_iff.mp moves.symm
      have mine : old.id = operationId := Table.findKey before
      constructor
      · intro status
        rcases failedCause status with earlier | ⟨error,rfl⟩
        · exact truth.failed before earlier
        · exact completes.2 operationId error (by rw [mine])
      · intro stated
        rcases confirmedCause stated with earlier | ⟨account,providerPostId,action,requestId,instant,rfl⟩
        · exact truth.confirmed before earlier
        · exact completes.1 operationId account providerPostId action requestId instant (by rw [mine])
    · have received : row.status = .received := by
        rcases by_ with ⟨outside,_⟩ | ⟨i,answer,p,_,_,stands,_⟩
        · exact outside.elim
        · exact Lifecycle.claimReceived stands
      rw [present] at found
      cases Option.some.inj found
      exact ⟨by simp [received],by simp [Confirmed,received]⟩
  constructor
  · intro i call operationId requestId instant found pc
    exact (callsTruth truth honest taken found).1 _ _ _ pc
  · intro i call operationId error found pc
    exact (callsTruth truth honest taken found).2 _ _ pc
  · exact fun found => (rows found).1
  · exact fun found => (rows found).2
  · intro operationId attempted
    obtain ⟨o,found,reached⟩ := sentContacted sound truth.contacted taken attempted
    rcases stepCommit taken with same | ⟨c,applied,_⟩
    · exact ⟨o,by rw [same]; exact found,reached⟩
    · rcases operationAfter applied operationId with moves | ⟨_,_,_,absent,_⟩
      · exact ⟨rowAfter w.db c o,by rw [moves,found]; rfl,contactedAfter w.db c reached⟩
      · rw [found] at absent
        simp at absent

end Step

section Runs
variable {credentials : Connection.Config} {fromSlice : Bytes → Option Json} {carriedOut : Uuid → Prop}
  {config : Config} {now : DateTime} {labels : List Action} {w : World}

theorem truthStart (now) : Truth carriedOut (World.start Database.empty now) := by
  constructor <;> simp [World.start,Database.empty,Table.empty,Table.find,Attempted]

theorem truthRun (run : Run (World.step config) (Honest credentials fromSlice carriedOut) (World.start Database.empty now)
    labels w) : Truth carriedOut w :=
  (run.preserves (fun w => Sound config w ∧ Truth carriedOut w)
    (fun _ _ _ inv honest taken => ⟨soundStep inv.1 taken,truthStep inv.1 inv.2 honest taken⟩)
    ⟨soundStart ..,truthStart now⟩).2

/- Where the provider carries out nothing but what is sent to it, every row of every reachable
archive tells the truth. -/
theorem rowsTellTruth (run : Run (World.step config) (Honest credentials fromSlice carriedOut)
      (World.start Database.empty now) labels w) (sent : ∀ operationId, carriedOut operationId → Attempted w.log operationId)
    (operationId o) (found : w.db.operations.find operationId = some o) : Truthful (carriedOut operationId) o := by
  have truth := truthRun run
  -- What was never sent was not carried out.
  have unsent : ¬Contacted o → ¬carriedOut operationId := by
    intro silent happened
    obtain ⟨row,here,contacted⟩ := truth.contacted (sent operationId happened)
    rw [found] at here
    cases Option.some.inj here
    exact silent contacted
  unfold Truthful
  cases status : o.status with
  | received | refused | dryRun => exact unsent (by simp [Contacted,status])
  | failed => exact truth.failed found status
  | projectionPending => exact truth.confirmed found (.inl status)
  | succeeded =>
    constructor
    · intro happened outcome
      exact unsent (by simp [Contacted,status,outcome]) happened
    · intro outcome
      exact truth.confirmed found (.inr ⟨status,outcome⟩)
  | providerInFlight | uncertain | reconciledSucceeded | reconciledNotCurrent => trivial

end Runs

section Sample

def statedBody : Bytes := utf8 "\x7b\"data\":\x7b\"bookmarked\":true\x7d\x7d"

def readStated (body : Bytes) : Option Json :=
  if body = statedBody then some (.object [("data",.object [("bookmarked",.bool true)])]) else none

def statedReply : Reply := .ok ⟨200,[("x-request-id",utf8 "req-1")],some 28,[.ok statedBody]⟩

def sealedRow : Option (Option CredentialState) :=
  some (some ("7",Connection.sealPayload Connection.sampleService (Connection.sampleNonce 1) 1 (Connection.samplePair 1),
    requiredScopes,requiredScopes))

def statedExchange : Option Request × Answered :=
  mutate Connection.sampleService readStated true "https://api.example/" 1 "100" .add sealedRow (fun _ => statedReply)

theorem statedConfirms : statedExchange.2 = .ok ⟨some "req-1"⟩ := by decide +kernel

theorem statedCarries : Carries statedExchange readStated true (fun _ => statedReply) True := by
  refine ⟨?_,fun sent _ => ⟨?_,?_,fun _ _ _ _ _ _ _ _ => trivial⟩⟩
  · have leaves : statedExchange.1.isSome = true := by decide +kernel
    intro silent
    simp [silent] at leaves
  · rintro ⟨error,member,_⟩
    simp at member
  · rintro r ⟨⟩ client
    simp [Response.isClientError] at client

/- A step that brings no answer of the provider. -/
def Unprovided (_ : World) (a : Action) : Prop :=
  match a with
  | .advance _ answer => provided answer = none
  | _ => True

instance (w a) : Decidable (Unprovided w a) := by
  apply Action.decide <;> (intros; unfold Unprovided; infer_instance)

theorem unprovidedHonest {credentials fromSlice carriedOut w a} (quiet : Unprovided w a) :
    Honest credentials fromSlice carriedOut w a := by
  rintro i answer answered call operationId rfl answers
  rw [show provided answer = none from quiet] at answers
  simp at answers

/- A write up to the request, and from its answer to its end. -/
def asking : List Action :=
  sampleLink ++ [.persistPosts ["100"],.spawn (sampleWrite "first")] ++ advances 1 11

def askingEnd : World := (replay (World.step sampleConfig) Unprovided sampleStart asking).get (by decide +kernel)

def toldEnd : World :=
  (World.step sampleConfig askingEnd (.advance 1 (.confirmed ⟨some "req-1"⟩))).get (by decide +kernel)

def recordedEnd : World := (replay (World.step sampleConfig) Unprovided toldEnd (advances 1 1)).get (by decide +kernel)

theorem askingHonest :
    Honest Connection.sampleService readStated (· = 1) askingEnd (.advance 1 (.confirmed ⟨some "req-1"⟩)) := by
  rintro i answer answered call operationId ⟨⟩ answers found waits
  have stands : (askingEnd.writeCall 1).map (fun call =>
      (call.action,call.request.accountId,call.request.providerPostId,call.pc)) =
        some (.add,1,"100",.awaiting 1) := by decide +kernel
  rw [writeCallFound.mpr found,Option.map_some,Option.some.injEq] at stands
  obtain ⟨action,account,post,pc⟩ := by simpa only [Prod.mk.injEq] using stands
  rw [pc] at waits
  cases waits
  cases Option.some.inj answers
  rw [action,account,post]
  refine ⟨true,"https://api.example/",sealedRow,fun _ => statedReply,statedConfirms.symm,?_⟩
  change Carries statedExchange readStated true (fun _ => statedReply) ((1 : Uuid) = 1)
  rw [eq_self]
  exact statedCarries

/- The row of a confirmed write, and what it says. -/
theorem rowsTellTruthAtConfirmation :
    (recordedEnd.db.operations.find 1).map Operation.status = some .succeeded ∧
      ∀ o, recordedEnd.db.operations.find 1 = some o → Truthful (1 = 1) o := by
  have before : Run (World.step sampleConfig) (Honest Connection.sampleService readStated (· = 1)) sampleStart asking
      askingEnd := (replayRun (Option.some_get _).symm).weaken (fun _ _ => unprovidedHonest)
  have answered : World.step sampleConfig askingEnd (.advance 1 (.confirmed ⟨some "req-1"⟩)) = some toldEnd :=
    (Option.some_get _).symm
  have after : Run (World.step sampleConfig) (Honest Connection.sampleService readStated (· = 1)) toldEnd (advances 1 1)
      recordedEnd := (replayRun (Option.some_get _).symm).weaken (fun _ _ => unprovidedHonest)
  refine ⟨by decide +kernel,fun o found => rowsTellTruth (before.append (.cons askingHonest answered after)) ?_ 1 o found⟩
  rintro operationId rfl
  have sent : (Ledger.attempts recordedEnd.log).map (fun a => (a.1,a.2.operationId)) = [(1,1)] := by decide +kernel
  obtain ⟨a,member,same⟩ := List.mem_map.mp (sent ▸ List.mem_singleton_self (1,1))
  exact ⟨a.1,a.2,Ledger.attemptEntry member,congrArg Prod.snd same⟩

end Sample
end RatatoskrX.WriteTruth
