import RatatoskrX.Fingerprints
import RatatoskrX.Retry

/-! An idempotency key that comes back with another request. The bytes that are fingerprinted
differ, so the stored fingerprint does, and the call answers with the conflict; the key counts
for one account. -/
namespace RatatoskrX.RequestKeys
open Relational Schema Audit Writeback Fingerprints Journal SyncCalls WriteCalls Operations Schedule Transition
open WriteInvariant WriteSystem Ledger Lifecycle Retry

structure Barred (config : Config) (row : Operation) (call : WriteCall) : Prop where
  account : call.request.accountId = row.accountId
  key : sha256Hex config.sha256 (utf8 call.request.idempotencyKey) = row.idempotencyDigest
  apart : row.requestFingerprint ≠ requestFingerprint config.sha256 call.request call.action call.mode
  valid : validateRequest call.request = .ok ()

/- Where such a call can stand; faulty where one of its own statements may fail. -/
def Conflicting (faulty : Prop) (id : Uuid) : WritePc → Prop
  | .claim | .existing => True
  | .audit other _ rest outcome => other = id ∧ rest = [] ∧ outcome = .refused .idempotencyConflict
  | .done outcome => outcome = .refused .idempotencyConflict ∨ (faulty ∧ outcome = .refused .query)
  | _ => False

section Call
variable {config : Config} {db : Database} {row : Operation} {id : Uuid} {call : WriteCall} {faulty : Prop}

theorem barredSame {next} (same : Same call next) (barred : Barred config row call) : Barred config row next := by
  obtain ⟨mode,action,request⟩ := same
  obtain ⟨account,key,apart,valid⟩ := barred
  constructor
  · rw [request]; exact account
  · rw [request]; exact key
  · rw [request,action,mode]; exact apart
  · rw [request]; exact valid

theorem barredRow {row'} (same : identity row' = identity row) (barred : Barred config row call) :
    Barred config row' call := by
  obtain ⟨account,key,apart,valid⟩ := barred
  have account' := congrArg Operation.accountId same
  have key' := congrArg Operation.idempotencyDigest same
  have print := congrArg Operation.requestFingerprint same
  exact ⟨account.trans account'.symm,key.trans key'.symm,fun equal => apart (print.symm.trans equal),valid⟩

theorem barredFinds (found : db.operations.find id = some row) (barred : Barred config row call) :
    existingOperation db call.request.accountId (sha256Hex config.sha256 (utf8 call.request.idempotencyKey)) =
      some row := by
  rw [barred.account,barred.key]
  exact existingRow (Table.findIff.mp found).1

theorem barredJoining (found : db.operations.find id = some row) (barred : Barred config row call) :
    call.joining config.sha256 row =
      call.at_ (.audit id (.idempotencyConflict,[]) [] (.refused .idempotencyConflict)) := by
  have keyed : row.id = id := Table.findKey found
  unfold WriteCall.joining
  rw [if_pos barred.apart,keyed]
  rfl

theorem conflictingFailed {answer : Answer} (answered : answer = .ok ∨ faulty) (fails : answer = .fault ∨ answer = .lost) :
    Conflicting faulty id call.failing.pc := by
  rcases answered with rfl | allowed
  · simp at fails
  · exact .inr ⟨allowed,rfl⟩

theorem barredNext {now answer s} (found : db.operations.find id = some row) (barred : Barred config row call)
    (stands : Conflicting faulty id call.pc) (answered : answer = .ok ∨ faulty)
    (taken : call.next config.writeGate config.sha256 db now answer = some s) :
    Barred config row s.next ∧ Conflicting faulty id s.next.pc := by
  have kept : ∀ pc, Barred config row (call.at_ pc) := fun pc => barredSame (keepsAt call pc).1 barred
  have there := barredFinds found barred
  unfold WriteCall.next at taken
  cases pc : call.pc with
  | claim =>
    simp only [pc,barred.valid] at taken
    rw [if_pos (by simpa [claimRow,requestedRow] using congrArg Option.isSome there)] at taken
    rcases readingCases taken with ⟨_,rfl⟩ | ⟨fails,rfl⟩
    · exact ⟨kept _,trivial⟩
    · exact ⟨kept _,conflictingFailed answered fails⟩
  | existing =>
    simp only [pc,there,barredJoining found barred] at taken
    rcases readingCases taken with ⟨_,rfl⟩ | ⟨fails,rfl⟩
    · exact ⟨kept _,rfl,rfl,rfl⟩
    · exact ⟨kept _,conflictingFailed answered fails⟩
  | audit other stage rest outcome =>
    simp only [pc] at taken stands
    obtain ⟨rfl,rfl,rfl⟩ := stands
    rcases transactCases taken with ⟨_,_,⟨_,rfl⟩ | ⟨lost,rfl⟩⟩ | ⟨_,void,_⟩ | ⟨fails,rfl⟩
    · exact ⟨kept _,.inl rfl⟩
    · exact ⟨kept _,conflictingFailed answered (.inr lost)⟩
    · simp [Commit.effect] at void
    · exact ⟨kept _,conflictingFailed answered (fails.imp_right And.left)⟩
  | done outcome => simp [pc] at taken
  | _ => simp [pc,Conflicting] at stands

theorem barredAdvances (now : DateTime) (found : db.operations.find id = some row) (barred : Barred config row call)
    (stands : Conflicting faulty id call.pc) (open_ : ∀ outcome, call.pc ≠ .done outcome) :
    ∃ s, call.next config.writeGate config.sha256 db now .ok = some s ∧ rank s.next.pc < rank call.pc := by
  have there := barredFinds found barred
  unfold WriteCall.next
  cases pc : call.pc with
  | claim =>
    simp only [barred.valid]
    rw [if_pos (by simpa [claimRow,requestedRow] using congrArg Option.isSome there)]
    exact ⟨_,rfl,by simp [WriteCall.at_,rank]⟩
  | existing =>
    simp only [there,barredJoining found barred]
    exact ⟨_,rfl,by simp [WriteCall.at_,rank]⟩
  | audit other stage rest outcome =>
    simp only [pc] at stands
    obtain ⟨rfl,rfl,rfl⟩ := stands
    exact ⟨_,rfl,by simp [WriteCall.at_,auditing,rank]⟩
  | done outcome => exact absurd pc (open_ outcome)
  | _ => simp [pc,Conflicting] at stands

end Call

/- A system in which one process offers a claim that another request holds. -/
structure Conflicted (config : Config) (faulty : Prop) (id : Uuid) (index : Nat) (u : World) : Prop where
  state : ∃ row call, u.db.operations.find id = some row ∧ u.writeCall index = some call ∧ Barred config row call ∧
    Conflicting faulty id call.pc

section System
variable {config : Config} {faulty : Prop} {id : Uuid} {index : Nat} {u v : World}

theorem conflictedStep {a} (conflicted : Conflicted config faulty id index u)
    (answered : ∀ answer, a = .advance index answer → answer = .ok ∨ faulty)
    (taken : World.step config u a = some v) : Conflicted config faulty id index v := by
  obtain ⟨row,call,found,here,barred,stands⟩ := conflicted.state
  obtain ⟨row',present,columns,_⟩ := (operationStep taken id).1 row found
  obtain ⟨next,stays⟩ := writeStays taken (writeCallFound.mp here)
  rcases stepView taken stays with ⟨answer,old,s,own,old_,moved,same,_⟩ | ⟨_,fresh,_⟩ | ⟨unmoved,_⟩
  · rw [writeCallFound.mp here] at old_
    cases Option.some.inj old_
    obtain ⟨r,advanced,rfl⟩ := Option.map_eq_some_iff.mp moved
    cases same
    obtain ⟨barred',stands'⟩ := barredNext found barred stands (answered answer own) advanced
    exact ⟨row',r.next,present,writeCallFound.mpr stays,barredRow columns barred',stands'⟩
  · have inside := (List.getElem?_eq_some_iff.mp (writeCallFound.mp here)).1
    exact absurd inside (by omega)
  · rw [writeCallFound.mp here] at unmoved
    cases Option.some.inj unmoved
    exact ⟨row',call,present,writeCallFound.mpr stays,barredRow columns barred,stands⟩

theorem conflictedRun {labels} {guard : World → Action → Prop}
    (answered : ∀ w answer, guard w (.advance index answer) → answer = .ok ∨ faulty)
    (conflicted : Conflicted config faulty id index u) (run : Run (World.step config) guard u labels v) :
    Conflicted config faulty id index v :=
  run.preserves (Conflicted config faulty id index)
    (fun w _ _ conflicted met taken =>
      conflictedStep conflicted (fun answer same => answered w answer (same ▸ met)) taken) conflicted

theorem conflictedAnswer {call outcome} (conflicted : Conflicted config faulty id index u)
    (here : u.writeCall index = some call) (pc : call.pc = .done outcome) :
    outcome = .refused .idempotencyConflict ∨ (faulty ∧ outcome = .refused .query) := by
  obtain ⟨_,other,_,present,_,stands⟩ := conflicted.state
  rw [here] at present
  cases Option.some.inj present
  rw [pc] at stands
  exact stands

theorem conflictedReturns (conflicted : Conflicted config faulty id index u) (alive : index ∉ u.abandoned) :
    ∃ n v call outcome, Run (World.step config) (Answered index) u (advances index n) v ∧
      v.writeCall index = some call ∧ call.pc = .done outcome := by
  have progress : ∀ w, Conflicted config faulty id index w ∧ index ∉ w.abandoned → ¬Returned index w →
      ∃ t, Answered index w (.advance index .ok) ∧ World.step config w (.advance index .ok) = some t ∧
        (Conflicted config faulty id index t ∧ index ∉ t.abandoned) ∧ remaining index t < remaining index w := by
    rintro w ⟨conflicted,alive⟩ open_
    obtain ⟨row,call,found,here,barred,stands⟩ := conflicted.state
    obtain ⟨s,taken,closer⟩ := barredAdvances w.now found barred stands (fun outcome pc => open_ ⟨call,outcome,here,pc⟩)
    obtain ⟨stepped,after⟩ := ownStep alive here taken
    have conflicted' := conflictedStep conflicted (fun _ same => .inl (by cases same; rfl)) stepped
    refine ⟨_,fun _ => rfl,stepped,⟨conflicted',alive⟩,?_⟩
    simpa only [remaining,here,after,Option.elim_some] using closer
  obtain ⟨n,v,run,_,call,outcome,here,pc⟩ := reaches _ (Returned index) (remaining index) progress ⟨conflicted,alive⟩
  exact ⟨n,v,call,outcome,run,here,pc⟩

end System

/- The key of a claimed operation offered again with another request, where SHA-256 tells the
two fingerprinted inputs apart. -/
structure KeyReused (config : Config) (first call : WriteCall) : Prop where
  claimed : first.operation.isSome
  fresh : call.pc = .claim
  key : call.request.idempotencyKey = first.request.idempotencyKey
  different : components call.request call.action call.mode ≠ components first.request first.action first.mode
  sized : Sized first.request ∧ Sized call.request
  distinguished : config.sha256 (requestInput first.request first.action first.mode) =
      config.sha256 (requestInput call.request call.action call.mode) →
    requestInput first.request first.action first.mode = requestInput call.request call.action call.mode

/- The same on one account, by a request that passes the checks of its target and its key. -/
structure Reuses (config : Config) (first call : WriteCall) : Prop extends KeyReused config first call where
  account : call.request.accountId = first.request.accountId
  valid : validateRequest call.request = .ok ()

/- The reuse answers with the conflict, or with the failure of its own statement, and never
otherwise; where its statements succeed it returns, with the conflict. -/
def AnswersConflict (config : Config) (w : World) (index : Nat) : Prop :=
  (∀ labels u call outcome, Run (World.step config) free w labels u → u.writeCall index = some call →
    call.pc = .done outcome → outcome = .refused .idempotencyConflict ∨ outcome = .refused .query) ∧
  ∀ labels u, Run (World.step config) (Answered index) w labels u →
    (∀ call outcome, u.writeCall index = some call → call.pc = .done outcome →
      outcome = .refused .idempotencyConflict) ∧
    (index ∉ u.abandoned → ∃ n v call, Run (World.step config) (Answered index) u (advances index n) v ∧
      v.writeCall index = some call ∧ call.pc = .done (.refused .idempotencyConflict))

theorem reusedBarred {config db log index first call row id} (holds : Holds config db log index first)
    (mine : first.operation = some id) (found : db.operations.find id = some row) (reuses : Reuses config first call) :
    Barred config row call := by
  obtain ⟨o,claimed⟩ := holdsKnown holds id mine
  cases claimedRow claimed found
  have columns := claimed.2.2
  have account := congrArg Operation.accountId columns
  have digest := congrArg Operation.idempotencyDigest columns
  have print := congrArg Operation.requestFingerprint columns
  refine ⟨reuses.account.trans account.symm,?_,?_,reuses.valid⟩
  · rw [reuses.key]
    exact digest.symm
  · intro same
    have inputs := reuses.distinguished (hexDigestApart (print.symm.trans same))
    exact reuses.different (inputDetermines reuses.sized.2 reuses.sized.1 inputs.symm)

/-- Fingerprinted bytes tell requests apart, and a key that is reused on its account for another
request is answered with the conflict. -/
theorem reusedKeyConflicts :
    (∀ r r' a a' m m', Sized r → Sized r' → requestInput r a m = requestInput r' a' m' →
      components r a m = components r' a' m') ∧
    ∀ config db now labels w j k first call, Run (World.step config) free (World.start db now) labels w →
      w.writeCall j = some first → w.writeCall k = some call → Reuses config first call →
        AnswersConflict config w k := by
  refine ⟨fun _ _ _ _ _ _ => inputDetermines,?_⟩
  intro config db now labels w j k first call run original reuse reuses
  obtain ⟨id,mine⟩ := Option.isSome_iff_exists.mp reuses.claimed
  have holds := (soundRun run).holds (writeCallFound.mp original)
  obtain ⟨row,claimed⟩ := holdsKnown holds id mine
  have conflicted : ∀ faulty, Conflicted config faulty id k w := fun faulty =>
    ⟨row,call,claimed.2.1,reuse,reusedBarred holds mine claimed.2.1 reuses,by rw [reuses.fresh]; trivial⟩
  constructor
  · intro labels' u last outcome later here pc
    have conflicted' := conflictedRun (fun _ _ _ => .inr trivial) (conflicted True) later
    exact (conflictedAnswer conflicted' here pc).imp_right And.right
  · intro labels' u later
    have answered : ∀ (w : World) answer, Answered k w (.advance k answer) → answer = .ok ∨ False :=
      fun _ _ met => .inl (met rfl)
    have conflicted' := conflictedRun answered (conflicted False) later
    have only : ∀ {v last outcome}, Conflicted config False id k v → v.writeCall k = some last →
        last.pc = .done outcome → outcome = .refused .idempotencyConflict :=
      fun conflicted here pc => (conflictedAnswer conflicted here pc).resolve_right And.left
    refine ⟨fun _ _ => only conflicted',fun alive => ?_⟩
    obtain ⟨n,v,last,outcome,solo,here,pc⟩ := conflictedReturns conflicted' alive
    cases only (conflictedRun answered conflicted' solo) here pc
    exact ⟨n,v,last,solo,here,pc⟩

/- SHA-256 of the sample inputs, of the dry run of their request and of the same request for another account. -/
def reuseDigests : List (List UInt8 × List UInt8) :=
  (requestInput (sampleRequest "first") .add .dryRun,
    [193,185,52,168,28,49,132,112,142,39,157,127,59,70,225,99,244,191,17,195,119,172,222,249,200,172,156,110,93,105,
      24,24])::
  (requestInput ⟨7,2,1,"100","first"⟩ .add .live,
    [124,113,236,38,89,219,224,216,104,255,180,116,199,146,182,4,119,76,129,216,214,212,207,53,168,69,250,86,94,221,
      144,159])::sampleDigests

def reuseConfig : Config :=
  {sampleConfig with sha256 := fun input => ((reuseDigests.find? (fun known => known.1 = input)).map Prod.snd).getD []}

/- A confirmed add, and its key again with the given call. -/
def reused (call : WriteCall) : List Action :=
  .connectAccount ⟨2,7,.connected⟩::confirmation ++ advances 1 1 ++ [.spawn (.write call)]

def dryReuse : WriteCall := ⟨.dryRun,.add,sampleRequest "first",.claim,none,none⟩

def confirmedAdd : WriteCall :=
  ⟨.live,.add,sampleRequest "first",.done (.written ⟨1,.succeeded⟩),some 1,some ⟨⟨1784797200000000,by decide⟩,1⟩⟩

def dryReuseEnd : World := (replay (World.step reuseConfig) free sampleStart (reused dryReuse)).get (by decide +kernel)

theorem reusedKeyConflictsInDryRun :
    requestInput (sampleRequest "first") .add .dryRun ≠ requestInput (sampleRequest "first") .add .live ∧
      AnswersConflict reuseConfig dryReuseEnd 2 := by
  have sized : Sized (sampleRequest "first") := ⟨by decide,by decide,by decide⟩
  constructor
  · intro same
    exact absurd (reusedKeyConflicts.1 _ _ _ _ _ _ sized sized same) (by decide)
  · have run : Run (World.step reuseConfig) free sampleStart (reused dryReuse) dryReuseEnd :=
      replayRun (Option.some_get _).symm
    have reuses : Reuses reuseConfig confirmedAdd dryReuse :=
      { claimed := rfl
        fresh := rfl
        key := rfl
        different := by decide
        sized := ⟨sized,sized⟩
        distinguished := fun same => absurd same (by decide +kernel)
        account := rfl
        valid := rfl }
    exact reusedKeyConflicts.2 _ _ _ _ _ 1 2 _ _ run (by decide +kernel) (by decide +kernel) reuses

def otherAccount : WriteCall := ⟨.live,.add,⟨7,2,1,"100","first"⟩,.claim,none,none⟩

def otherAccountEnd : World :=
  (replay (World.step reuseConfig) free sampleStart (reused otherAccount)).get (by decide +kernel)

def otherAccountAnswered : World :=
  (replay (World.step reuseConfig) (Answered 2) otherAccountEnd (advances 2 6)).get (by decide +kernel)

theorem otherAccountExecutes :
    ¬∀ config db now labels w j k first call, Run (World.step config) free (World.start db now) labels w →
      w.writeCall j = some first → w.writeCall k = some call → KeyReused config first call →
        AnswersConflict config w k := by
  intro claim
  have run : Run (World.step reuseConfig) free sampleStart (reused otherAccount) otherAccountEnd :=
    replayRun (Option.some_get _).symm
  have reused : KeyReused reuseConfig confirmedAdd otherAccount :=
    { claimed := rfl
      fresh := rfl
      key := rfl
      different := by decide
      sized := ⟨⟨by decide,by decide,by decide⟩,⟨by decide,by decide,by decide⟩⟩
      distinguished := fun same => absurd same (by decide +kernel) }
  obtain ⟨_,answers⟩ := claim _ _ _ _ _ 1 2 _ _ run (by decide +kernel) (by decide +kernel) reused
  have returned : otherAccountAnswered.writeCall 2 =
      some {otherAccount with pc := .done (.refused .writeAuthorizationRequired), operation := some 2} := by
    decide +kernel
  exact absurd ((answers _ _ (replayRun (Option.some_get _).symm)).1 _ _ returned rfl) (by decide)

end RatatoskrX.RequestKeys
