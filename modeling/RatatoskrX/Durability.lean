import RatatoskrX.WriteSystem

/-! When a returned call leaves a durable outcome behind. The second consent check
runs under the consent's lock, after the budget charge; the call that loses there
gives its unit back and returns, and its operation stays where it was. -/
namespace RatatoskrX.Durability
open Relational Schema Audit Budget Writeback Journal Frames SyncCalls WriteCalls Operations Schedule Transition
open WriteInvariant WriteProgress WriteSystem

/- Every call that returned over an operation of its own left it settled, and every
admission refusal left it refused and audited. -/
def RefusalsDurable (w : World) : Prop :=
  ∀ (i : Nat) call id outcome, w.processes[i]? = some (.write call) → call.operation = some id →
    call.pc = .done outcome → ∃ o, w.db.operations.find id = some o ∧ o.status ≠ .received ∧
      o.status ≠ .providerInFlight ∧ (Admission outcome → o.status = .refused ∧
        (Recorded w.db id .gateRefused ∨ Recorded w.db id .budgetRefused))

/- No statement fails. -/
def Faultless (_ : World) : Action → Prop
  | .advance _ answer => answer ≠ .fault ∧ answer ≠ .lost
  | _ => True

instance (w a) : Decidable (Faultless w a) := by
  apply Action.decide <;> (intros; unfold Faultless; infer_instance)

section Condition
variable (config : Config) (db : Database) (now : DateTime)

def windowEnds : Bool :=
  ((windowStartFor now config.writeGate.windowSeconds).checkedAddSigned config.writeGate.windowSeconds).isSome

def broken (call : WriteCall) : Bool :=
  match config.writeGate.reserve db call.request.accountId 1 now with
  | .error .persistence => true
  | _ => false

/- The window of the budget ends at a representable instant, the charge does not fail,
and the consent is still unspent where it is to be consumed. -/
def Undefeated (call : WriteCall) : Prop :=
  match call.pc with
  | .inspect .. => windowEnds config now = true
  | .reserve .. => windowEnds config now = true ∧ broken config db now call = false
  | .consume _ t _ => (admittingConsent db call.request call.action t).isSome = true
  | _ => True

instance (call) : Decidable (Undefeated config db now call) := by
  unfold Undefeated; split <;> infer_instance

end Condition

def Steady (config : Config) (w : World) : Action → Prop
  | .advance i answer => ∀ call ∈ w.writeCall i,
    answer ≠ .fault ∧ answer ≠ .lost ∧ Undefeated config w.db w.now call
  | _ => True

instance (config w a) : Decidable (Steady config w a) := by
  apply Action.decide <;> (intros; unfold Steady; infer_instance)

/- What the condition adds to the assertion of a call. -/
def Durable (config : Config) (db : Database) (call : WriteCall) : Prop :=
  match call.pc with
  | .refund .. => False
  | .reserve .. => ¬config.writeGate.requestCapPerWindow < 1
  | .done outcome => ∀ id, call.operation = some id → ∃ o, db.operations.find id = some o ∧ Ended o ∧
    (Admission outcome → o.status = .refused ∧ (Recorded db id .gateRefused ∨ Recorded db id .budgetRefused))
  | _ => True

theorem admissionSettled {o outcome} (settles : Settles o outcome) (ended : Ended o) (admission : Admission outcome) :
    o.status = .refused := by
  unfold Admission at admission
  split at admission
  all_goals first | exact settles | exact admission.elim | skip
  exact settles.resolve_right ended.1

section Step
variable {config : Config} {db : Database} {now : DateTime} {log : List Entry} {index : Nat} {answer : Answer}
  {call : WriteCall} {s : Step WriteCall}

theorem durableFree (free : call.operation = none) (outcome) : Durable config db (call.at_ (.done outcome)) := by
  intro id mine
  rw [show call.operation = some id from mine] at free
  simp at free

theorem durableAuditing {db : Database} (free : call.operation = none) (id outcome stages) :
    Durable config db (call.at_ (auditing id outcome stages)) := by
  cases stages with
  | nil => exact durableFree free outcome
  | cons => trivial

theorem durableJoining (free : call.operation = none) (row) : Durable config db (call.joining config.sha256 row) := by
  unfold WriteCall.joining
  split
  · exact durableAuditing free _ _ _
  · split
    · exact durableAuditing free _ _ _
    · exact durableAuditing free _ _ _
    · trivial
    · exact durableFree free _

theorem durablePolling (free : call.operation = none) (id remaining status) :
    Durable config db (call.polling id remaining status) := by
  unfold WriteCall.polling
  split
  · exact durableAuditing free _ _ _
  · split
    · exact durableFree free _
    · trivial

theorem durableRefusing (id t refusal resetAt) : Durable config db (call.refusing id t refusal resetAt) := by
  unfold WriteCall.refusing
  cases call.mode <;> trivial

theorem durableSatisfying (id t observedAt) : Durable config db (call.satisfying id t observedAt) := by
  unfold WriteCall.satisfying
  cases call.mode <;> trivial

theorem readOk {next faulted : WriteCall} (ok : reading db answer next faulted = some s)
    (clear : answer ≠ .fault ∧ answer ≠ .lost) : s = ⟨db,none,next⟩ := by
  rcases readingCases ok with ⟨_,same⟩ | ⟨h | h,_⟩
  · exact same
  · exact absurd h clear.1
  · exact absurd h clear.2

theorem transactOk {c : Commit} {next refused faulted : WriteCall}
    (ok : transact db answer c next refused faulted = some s) (clear : answer ≠ .fault ∧ answer ≠ .lost) :
    (∃ after, c.effect db = some after ∧ s = ⟨after,some (.commit c),next⟩) ∨
    (c.effect db = none ∧ s = ⟨db,none,refused⟩) := by
  rcases transactCases ok with ⟨after,applied,⟨_,same⟩ | ⟨h,_⟩⟩ | ⟨_,none,same⟩ | ⟨h | ⟨h,_⟩,_⟩
  · exact .inl ⟨after,applied,same⟩
  · exact absurd h clear.2
  · exact .inr ⟨none,same⟩
  · exact absurd h clear.1
  · exact absurd h clear.2

theorem certainOk {c : Commit} {next refused faulted : WriteCall}
    (ok : transact db answer c next refused faulted = some s) (clear : answer ≠ .fault ∧ answer ≠ .lost)
    (certain : ∀ db, (c.effect db).isSome = true) : ∃ after, c.effect db = some after ∧ s = ⟨after,some (.commit c),next⟩ := by
  rcases transactOk ok clear with done | ⟨none,_⟩
  · exact done
  · have some := certain db
    simp [none] at some

theorem inspectedCap {inspection} (ok : config.writeGate.inspect db call.request.accountId 1 now = .ok inspection)
    (eligible : inspection.eligible = true) : ¬config.writeGate.requestCapPerWindow < 1 := by
  simp only [BudgetGate.inspect,bind,Except.bind] at ok
  split at ok
  · simp at ok
  · simp only [pure,Except.pure,Except.ok.injEq] at ok
    rw [← ok] at eligible
    simp only [Bool.and_eq_true,decide_eq_true_eq] at eligible
    exact UInt32.not_lt.mpr eligible.1

theorem inspectedEnds {error} (ends : windowEnds config now = true)
    (failed : config.writeGate.inspect db call.request.accountId 1 now = .error error) : False := by
  obtain ⟨instant,represented⟩ := Option.isSome_iff_exists.mp ends
  simp [BudgetGate.inspect,BudgetGate.resetAt,represented,bind,Except.bind,pure,Except.pure] at failed

theorem reservedEnds {error} (ends : windowEnds config now = true) (cap : ¬config.writeGate.requestCapPerWindow < 1)
    (unbroken : broken config db now call = false)
    (refused : config.writeGate.reserve db call.request.accountId 1 now = .error error) :
    ∃ resetAt, error = .exhausted resetAt := by
  obtain ⟨instant,represented⟩ := Option.isSome_iff_exists.mp ends
  unfold broken at unbroken
  have kept := refused
  unfold BudgetGate.reserve at refused
  rw [if_neg cap] at refused
  simp only at refused
  split at refused
  · cases Except.error.inj refused
    rw [kept] at unbroken
    simp at unbroken
  · simp at refused
  · simp only [BudgetGate.resetAt,represented,bind,Except.bind,throw,throwThe,MonadExceptOf.throw,Except.error.injEq] at refused
    exact ⟨instant,refused.symm⟩

theorem durableReturn {id o outcome} (holds : Holds config db log index call) (pc : call.pc = .done outcome)
    (mine : call.operation = some id) (found : db.operations.find id = some o) (settles : Settles o outcome)
    (ended : Ended o) : Durable config db call := by
  simp only [Durable,pc]
  intro other own
  cases Option.some.inj (mine.symm.trans own)
  refine ⟨o,found,ended,?_⟩
  intro admission
  simp only [Holds,pc] at holds
  obtain ⟨row,claimed,_,recorded⟩ := holds id mine
  cases Option.some.inj (found.symm.trans claimed.2.1)
  have refused := admissionSettled settles ended admission
  exact ⟨refused,recorded refused admission⟩

theorem durableStep (holds : Holds config db log index call) (durable : Durable config db call)
    (clear : answer ≠ .fault ∧ answer ≠ .lost) (steady : Undefeated config db now call)
    (ok : call.next config.writeGate config.sha256 db now answer = some s) : Durable config s.db s.next := by
  have after := callStep holds ok
  unfold WriteCall.next at ok
  cases pc : call.pc with
  | claim =>
    simp only [Holds,pc] at holds
    simp only [pc] at ok
    split at ok
    · rw [quietCases ok]
      exact durableFree holds.1 _
    · split at ok
      · rw [readOk ok clear]
        trivial
      · rcases transactOk ok clear with ⟨_,_,rfl⟩ | ⟨_,rfl⟩
        · trivial
        · exact durableFree holds.1 _
  | existing =>
    simp only [Holds,pc] at holds
    simp only [pc] at ok
    split at ok
    · rw [readOk ok clear]
      exact durableFree holds.1 _
    · rw [readOk ok clear]
      exact durableJoining holds.1 _
  | poll id remaining =>
    simp only [Holds,pc] at holds
    simp only [pc] at ok
    rw [readOk ok clear]
    exact durablePolling holds.1 _ _ _
  | audit id stage rest outcome =>
    simp only [Holds,pc] at holds
    simp only [pc] at ok
    obtain ⟨later,applied,rfl⟩ := certainOk ok clear (fun _ => rfl)
    cases rest with
    | cons => trivial
    | nil =>
      rcases holds.1 with free | ⟨o,claimed,settles,ended⟩
      · exact durableFree free _
      · refine durableReturn after rfl claimed.1 ?_ settles ended
        cases Option.some.inj applied
        obtain ⟨events,same⟩ := detailsAuditOnly db id stage.1 stage.2 now
        rw [same]
        exact claimed.2.1
  | account id t =>
    simp only [pc] at ok
    rw [readOk ok clear]
    simp only
    split
    · exact durableRefusing ..
    · trivial
    · exact durableRefusing ..
  | credential id t =>
    simp only [pc] at ok
    rw [readOk ok clear]
    simp only
    split
    · exact durableRefusing ..
    · trivial
  | authorization id t scopes =>
    simp only [pc] at ok
    rw [readOk ok clear]
    simp only
    split
    · exact durableRefusing ..
    · split
      · exact durableRefusing ..
      · split
        · trivial
        · exact durableRefusing ..
  | consent id t =>
    simp only [pc] at ok
    rw [readOk ok clear]
    simp only
    split
    · trivial
    · exact durableRefusing ..
  | observation id t =>
    simp only [pc] at ok
    rw [readOk ok clear]
    simp only
    split
    · exact durableSatisfying ..
    · trivial
  | inspect id t =>
    simp only [Undefeated,pc] at steady
    simp only [pc] at ok
    split at ok
    · rename_i error failed
      exact (inspectedEnds steady failed).elim
    · rename_i inspection inspected
      rw [readOk ok clear]
      simp only
      split
      · rename_i eligible
        unfold WriteCall.admitting
        cases call.mode
        · exact inspectedCap inspected eligible
        · trivial
      · exact durableRefusing ..
  | reserve id t =>
    simp only [Undefeated,pc] at steady
    simp only [Durable,pc] at durable
    simp only [pc] at ok
    rcases chargingCases ok with ⟨_,reservation,_,⟨_,rfl⟩ | ⟨lost,_⟩⟩ | ⟨error,rfl,⟨_,refused⟩ | h | h⟩
    · trivial
    · exact absurd lost clear.2
    · obtain ⟨resetAt,rfl⟩ := reservedEnds steady.1 durable steady.2 refused
      trivial
    · exact absurd h clear.1
    · exact absurd h clear.2
  | consume id t reservation =>
    simp only [Undefeated,pc] at steady
    simp only [pc] at ok
    rcases transactOk ok clear with ⟨_,_,rfl⟩ | ⟨none,_⟩
    · trivial
    · obtain ⟨consent,admits⟩ := Option.isSome_iff_exists.mp steady
      simp [Commit.effect,Writeback.consumeConsent,admits] at none
  | refund id reservation error =>
    simp only [Durable,pc] at durable
  | provider id t =>
    simp only [pc] at ok
    split at ok
    · cases Option.some.inj ok
      trivial
    · simp at ok
  | awaiting id =>
    simp only [pc] at ok
    split at ok
    · cases Option.some.inj ok
      trivial
    · rw [quietCases ok]
      trivial
    · rw [quietCases ok]
      trivial
    · simp at ok
  | confirm id requestId observedAt =>
    simp only [Holds,pc] at holds
    obtain ⟨⟨_,⟨o,claimed,_⟩,_⟩,_⟩ := holds
    simp only [pc] at ok
    obtain ⟨later,applied,rfl⟩ := certainOk ok clear (fun _ => rfl)
    have settled := after
    simp only [Holds,WriteCall.at_] at settled
    obtain ⟨row,present,settles,_⟩ := settled id claimed.1
    refine durableReturn after rfl claimed.1 present.2.1 settles ?_
    revert settles
    cases (projectConfirmedBookmark db id call.request.accountId call.request.providerPostId call.action
      observedAt).2
    · exact fun settles => by simp [Ended,show row.status = .projectionPending from settles]
    · exact fun settles => by simp [Ended,show row.status = .succeeded from settles.1]
  | done outcome => simp [pc] at ok
  | received id | refuse id refusal resetAt | satisfy id observedAt | preview id result | uncertain id requestId
  | failed id error =>
    simp only [pc] at ok
    obtain ⟨later,applied,rfl⟩ := certainOk ok clear (fun _ => rfl)
    trivial

end Step

theorem durableElsewhere {config : Config} {db after log} {index : Nat} {call : WriteCall}
    (calm : Undisturbed config db after call) (holds : Holds config db log index call)
    (durable : Durable config db call) : Durable config after call := by
  unfold Durable at durable ⊢
  cases pc : call.pc with
  | done outcome =>
    simp only [pc] at durable ⊢
    simp only [Holds,pc] at holds
    intro id mine
    obtain ⟨o,found,ended,refused⟩ := durable id mine
    obtain ⟨x,claimed,settles,_⟩ := holds id mine
    cases Option.some.inj (found.symm.trans claimed.2.1)
    obtain ⟨row,later,same | ⟨uncertain,edge⟩⟩ := calm.claimed claimed
    · refine ⟨row,later.2.1,same ▸ ended,?_⟩
      intro admission
      obtain ⟨status,recorded⟩ := refused admission
      exact ⟨same ▸ status,recorded.imp calm.recorded calm.recorded⟩
    · refine ⟨row,later.2.1,endedEdge uncertain edge,?_⟩
      intro admission
      rw [(refused admission).1] at uncertain
      simp at uncertain
  | _ =>
    simp only [pc] at durable
    try exact durable

def Durables (config : Config) (w : World) : Prop :=
  ∀ (i : Nat) call, w.processes[i]? = some (.write call) → Durable config w.db call

theorem durablesStep {config w a t} (sound : Sound config w) (durables : Durables config w)
    (steady : Steady config w a) (taken : World.step config w a = some t) : Durables config t := by
  intro j call found
  rcases stepView taken found with ⟨answer,old,s,rfl,here,ok,next,rfl⟩ | ⟨first,_⟩ | ⟨here,_,calm⟩
  · obtain ⟨before,r,rfl,stepped,rfl,rfl⟩ := writeNext ok next.symm
    obtain ⟨fault,lost,undefeated⟩ := steady before (writeCallFound.mpr here)
    exact durableStep (sound.holds here) (durables j before here) ⟨fault,lost⟩ undefeated stepped
  · simp only [Durable,(initialWrite first).1]
  · refine durableElsewhere ?_ (sound.holds here) (durables j call here)
    rcases calm with same | ⟨c,applied,elsewhere⟩
    · rw [same]
      exact .refl ..
    · exact undisturbed sound here applied elsewhere

theorem refusalsDurable {config db now labels w}
    (run : Run (World.step config) (Steady config) (World.start db now) labels w) : RefusalsDurable w := by
  have durables : Durables config w := by
    refine (run.preserves (fun w => Sound config w ∧ Durables config w) ?_ ⟨soundStart ..,?_⟩).2
    · intro w a t inv steady taken
      exact ⟨soundStep inv.1 taken,durablesStep inv.1 inv.2 steady taken⟩
    · intro i call found
      simp [World.start] at found
  intro i call id outcome found mine pc
  have durable := durables i call found
  simp only [Durable,pc] at durable
  obtain ⟨o,present,ended,refused⟩ := durable id mine
  exact ⟨o,present,ended.1,ended.2,refused⟩

/- A call refused for its missing credential, with every statement succeeding. -/
def refusedRun : List Action :=
  [.connectAccount ⟨1,7,.connected⟩,.spawn (sampleWrite "first")] ++ advances 0 6

def refusedEnd : World :=
  (replay (World.step sampleConfig) (Steady sampleConfig) sampleStart refusedRun).get (by decide +kernel)

theorem refusalsDurableAtRefusal :
    (refusedEnd.writeCall 0).map WriteCall.pc = some (.done (.refused .writeAuthorizationRequired)) ∧
      RefusalsDurable refusedEnd :=
  ⟨by decide +kernel,refusalsDurable (replayRun (Option.some_get _).symm)⟩

/- Two calls with one consent: both pass the unlocked check and charge, one consumes. -/
def race : List Action :=
  sampleLink ++ [.spawn (sampleWrite "first"),.spawn (sampleWrite "second")] ++ advances 1 9 ++ advances 2 9 ++
    advances 1 1 ++ advances 2 2

def raceEnd : World :=
  (replay (World.step sampleConfig) Faultless sampleStart race).get (by decide +kernel)

theorem lostConsentStaysReceived :
    ¬∀ config db now labels w, Run (World.step config) Faultless (World.start db now) labels w → RefusalsDurable w := by
  intro claim
  have durable := claim _ _ _ _ raceEnd (replayRun (Option.some_get _).symm)
  have returned : raceEnd.writeCall 2 =
      some ⟨.live,.add,sampleRequest "second",.done (.refused .consentRequired),some 2,none⟩ := by decide +kernel
  have received : (raceEnd.db.operations.find 2).map Operation.status = some .received := by decide +kernel
  obtain ⟨o,found,unreceived,_⟩ := durable 2 _ 2 _ (writeCallFound.mp returned) rfl rfl
  rw [found] at received
  exact unreceived (Option.some.inj received)

end RatatoskrX.Durability
