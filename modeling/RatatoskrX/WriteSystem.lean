import RatatoskrX.WriteProgress

/-! Any number of write-back calls beside every other service. Each call keeps its
assertion and owns its operation alone, along every run. -/
namespace RatatoskrX.WriteSystem
open Relational Schema Audit Budget Writeback Journal Frames SyncCalls WriteCalls Operations Schedule Transition
open WriteInvariant WriteProgress

theorem transactEach {π} {P : π → Prop} {db answer c next refused faulted s}
    (ok : transact db answer c next refused faulted = some s) (a : P next) (b : P refused) (c : P faulted) :
    P s.next := by
  rcases transactCases ok with ⟨_,_,⟨_,rfl⟩ | ⟨_,rfl⟩⟩ | ⟨_,_,rfl⟩ | ⟨_,rfl⟩ <;> assumption

theorem readingEach {π} {P : π → Prop} {db answer next faulted s}
    (ok : reading db answer next faulted = some s) (a : P next) (b : P faulted) : P s.next := by
  rcases readingCases ok with ⟨_,rfl⟩ | ⟨_,rfl⟩ <;> assumption

theorem quietEach {π} {P : π → Prop} {db next s} (ok : quiet db next = some s) (a : P next) : P s.next := by
  rw [quietCases ok]
  exact a

/- What a call is about, which no step changes. -/
def Same (call next : WriteCall) : Prop :=
  next.mode = call.mode ∧ next.action = call.action ∧ next.request = call.request

def Keeps (call next : WriteCall) : Prop := Same call next ∧ next.operation = call.operation

theorem keepsAt (call : WriteCall) (pc) : Keeps call (call.at_ pc) := ⟨⟨rfl,rfl,rfl⟩,rfl⟩

theorem keepsJoining (call : WriteCall) (sha256 row) : Keeps call (call.joining sha256 row) := by
  unfold WriteCall.joining
  split
  · exact keepsAt ..
  · split <;> exact keepsAt ..

theorem keepsPolling (call : WriteCall) (id remaining status) : Keeps call (call.polling id remaining status) := by
  unfold WriteCall.polling
  split
  · exact keepsAt ..
  · split <;> exact keepsAt ..

theorem callKeeps {gate sha256 db now answer} {call : WriteCall} {s}
    (ok : call.next gate sha256 db now answer = some s) :
    Keeps call s.next ∨ (Same call s.next ∧ call.pc = .claim ∧
      ∀ id, s.next.operation = some id → call.operation = some id ∨ db.operations.find id = none) := by
  unfold WriteCall.next at ok
  cases pc : call.pc with
  | claim =>
    simp only [pc] at ok
    have fresh : db.operations.find (claimRow sha256 db call.request call.action call.mode).id = none :=
      Table.findNone.mpr (freshIdAbsent _)
    split at ok
    · exact .inl (quietEach ok (keepsAt ..))
    · split at ok
      · exact .inl (readingEach ok (keepsAt ..) (keepsAt ..))
      · refine .inr (transactEach (P := fun next => Same call next ∧ _ ∧
          ∀ id, next.operation = some id → call.operation = some id ∨ db.operations.find id = none) ok ?_ ?_ ?_)
        · refine ⟨⟨rfl,rfl,rfl⟩,rfl,?_⟩
          intro id mine
          cases Option.some.inj mine
          exact .inr fresh
        · exact ⟨⟨rfl,rfl,rfl⟩,rfl,fun id mine => .inl mine⟩
        · split
          · refine ⟨⟨rfl,rfl,rfl⟩,rfl,?_⟩
            intro id mine
            cases Option.some.inj mine
            exact .inr fresh
          · exact ⟨⟨rfl,rfl,rfl⟩,rfl,fun id mine => .inl mine⟩
  | existing =>
    simp only [pc] at ok
    split at ok
    · exact .inl (readingEach ok (keepsAt ..) (keepsAt ..))
    · exact .inl (readingEach ok (keepsJoining ..) (keepsAt ..))
  | poll id remaining =>
    simp only [pc] at ok
    exact .inl (readingEach ok (keepsPolling ..) (keepsAt ..))
  | account id t =>
    simp only [pc] at ok
    refine .inl (readingEach ok ?_ (keepsAt ..))
    split <;> exact keepsAt ..
  | credential id t =>
    simp only [pc] at ok
    refine .inl (readingEach ok ?_ (keepsAt ..))
    split <;> exact keepsAt ..
  | authorization id t scopes =>
    simp only [pc] at ok
    refine .inl (readingEach ok ?_ (keepsAt ..))
    split
    · exact keepsAt ..
    · split
      · exact keepsAt ..
      · split <;> exact keepsAt ..
  | consent id t =>
    simp only [pc] at ok
    refine .inl (readingEach ok ?_ (keepsAt ..))
    split <;> exact keepsAt ..
  | observation id t =>
    simp only [pc] at ok
    refine .inl (readingEach ok ?_ (keepsAt ..))
    split <;> exact keepsAt ..
  | inspect id t =>
    simp only [pc] at ok
    split at ok
    · exact .inl (quietEach ok (keepsAt ..))
    · refine .inl (readingEach ok ?_ (keepsAt ..))
      split <;> exact keepsAt ..
  | reserve id t =>
    simp only [pc] at ok
    rcases chargingCases ok with ⟨_,_,_,⟨_,rfl⟩ | ⟨_,rfl⟩⟩ | ⟨error,rfl,_⟩
    · exact .inl ⟨⟨rfl,rfl,rfl⟩,rfl⟩
    · exact .inl ⟨⟨rfl,rfl,rfl⟩,rfl⟩
    · refine .inl ?_
      simp only
      split <;> exact keepsAt ..
  | refund id reservation error =>
    simp only [pc] at ok
    refine .inl (transactEach ok ⟨⟨rfl,rfl,rfl⟩,rfl⟩ (keepsAt ..) ?_)
    split
    · exact ⟨⟨rfl,rfl,rfl⟩,rfl⟩
    · exact keepsAt ..
  | provider id t =>
    simp only [pc] at ok
    split at ok
    · cases Option.some.inj ok
      exact .inl (keepsAt ..)
    · simp at ok
  | awaiting id =>
    simp only [pc] at ok
    split at ok
    · cases Option.some.inj ok
      exact .inl (keepsAt ..)
    · exact .inl (quietEach ok (keepsAt ..))
    · exact .inl (quietEach ok (keepsAt ..))
    · simp at ok
  | done outcome => simp [pc] at ok
  | _ =>
    simp only [pc] at ok
    exact .inl (transactEach ok (keepsAt ..) (keepsAt ..) (keepsAt ..))

theorem holdsKnown {config db log index call} (holds : Holds config db log index call) (id)
    (mine : call.operation = some id) : ∃ o, Claimed config db call id o := by
  unfold Holds at holds
  cases pc : call.pc with
  | claim | existing | poll other remaining =>
    simp only [pc] at holds
    exact freeKnown holds.1 id mine
  | received other | account other t | credential other t | authorization other t scopes | consent other t
  | observation other t | inspect other t | refuse other refusal resetAt | satisfy other observedAt
  | reserve other t | preview other result | consume other t reservation =>
    simp only [pc] at holds
    exact pendingKnown holds.1 id mine
  | refund other reservation error =>
    simp only [pc] at holds
    obtain ⟨⟨o,claimed,_⟩,_⟩ := holds
    exact claimedKnown claimed id mine
  | provider other t | confirm other requestId observedAt =>
    simp only [pc] at holds
    exact flightKnown holds.1 id mine
  | awaiting other | uncertain other requestId | failed other error =>
    simp only [pc] at holds
    exact flightKnown holds id mine
  | audit other stage rest outcome =>
    simp only [pc] at holds
    rcases holds.1 with free | ⟨o,claimed,_⟩
    · exact freeKnown free id mine
    · exact claimedKnown claimed id mine
  | done outcome =>
    simp only [pc] at holds
    obtain ⟨o,claimed,_⟩ := holds id mine
    exact ⟨o,claimed⟩

theorem targetOwn {config db log index call now c} (holds : Holds config db log index call)
    (stands : call.commit config.writeGate config.sha256 db now = some c) {id} (moves : target c = some id) :
    call.operation = some id := by
  have pendingOwn : ∀ {other}, Pending config db call other → some other = some id → call.operation = some id := by
    rintro other ⟨o,claimed,_⟩ same
    rw [← same]
    exact claimed.1
  have flightOwn : ∀ {other}, InFlight config db log index call other → some other = some id →
      call.operation = some id := by
    rintro other ⟨_,⟨o,claimed,_⟩,_⟩ same
    rw [← same]
    exact claimed.1
  unfold Holds at holds
  unfold WriteCall.commit at stands
  cases pc : call.pc with
  | refuse other refusal resetAt | satisfy other observedAt | preview other result | consume other t reservation =>
    simp only [pc] at holds stands
    cases Option.some.inj stands
    exact pendingOwn holds.1 moves
  | uncertain other requestId | failed other error =>
    simp only [pc] at holds stands
    cases Option.some.inj stands
    exact flightOwn holds moves
  | confirm other requestId observedAt =>
    simp only [pc] at holds stands
    cases Option.some.inj stands
    exact flightOwn holds.1 moves
  | _ =>
    simp only [pc] at stands
    first
      | cases Option.some.inj stands
        simp [target] at moves
      | simp at stands

structure Sound (config : Config) (w : World) : Prop where
  holds : ∀ {i : Nat} {call}, w.processes[i]? = some (.write call) → Holds config w.db w.log i call
  owns : ∀ {i j : Nat} {a b id}, w.processes[i]? = some (.write a) → w.processes[j]? = some (.write b) →
    a.operation = some id → b.operation = some id → i = j

theorem soundStart (config db now) : Sound config (World.start db now) :=
  ⟨by simp [World.start],by simp [World.start]⟩

theorem recordedFresh {config w} {p : Process} {row now} (stands : p.commit config w = some (.recordConsent row now))
    {j : Nat} {call} (here : w.processes[j]? = some (.write call)) : row.id ≠ call.request.consentId := by
  have drawn : row.id = w.freshConsent := by
    cases p with
    | consent recorder =>
      simp only [Process.commit,ConsentCall.commit] at stands
      split at stands <;> cases stands
      rfl
    | snapshot call =>
      simp only [Process.commit,SnapshotPc.commit] at stands
      split at stands <;> simp at stands
    | scan call =>
      obtain ⟨account,pageCap,requestCap,pc⟩ := call
      cases scanCommits stands
    | folder call =>
      simp only [Process.commit,FolderPc.commit] at stands
      split at stands <;> simp at stands
    | write call =>
      simp only [Process.commit,WriteCall.commit] at stands
      split at stands <;> simp at stands
  intro named
  have listed : call.request.consentId ∈ w.processes.flatMap Process.consentIds :=
    List.mem_flatMap.mpr ⟨_,List.mem_of_getElem? here,by simp [Process.consentIds]⟩
  rw [← named,drawn] at listed
  exact freshIdAbsent _ (List.mem_append_right _ listed)

theorem undisturbed {config w c after} {j : Nat} {call} (sound : Sound config w)
    (here : w.processes[j]? = some (.write call)) (applied : Commit.effect c w.db = some after)
    (elsewhere : External c ∨ ∃ i process, i ≠ j ∧ w.processes[i]? = some process ∧ process.commit config w = some c) :
    Undisturbed config w.db after call := by
  rcases elsewhere with outside | ⟨i,process,other,found,stands⟩
  · refine .commit applied ?_ ?_
    · cases c <;> simp_all [External,target]
    · rintro row now rfl
      simp [External] at outside
  · rcases foreignCommit stands with ⟨mover,rfl⟩ | foreign
    · refine .commit applied ?_ ?_
      · intro id mine moves
        exact other (sound.owns found here (targetOwn (sound.holds found) stands moves) mine)
      · rintro row now rfl
        simp only [Process.commit,WriteCall.commit] at stands
        split at stands <;> simp at stands
    · refine .commit applied ?_ ?_
      · cases c <;> simp_all [Foreign,target]
      · rintro row now rfl
        exact recordedFresh stands here

theorem initialWrite {call : WriteCall} (first : (Process.write call).initial = true) :
    call.pc = .claim ∧ call.operation = none ∧ call.held = none := by
  simpa [Process.initial,and_assoc] using first

theorem writeNext {config w answer} {p : Process} {s} {call : WriteCall} (ok : p.next config w answer = some s)
    (after : s.next = .write call) :
    ∃ old r, p = .write old ∧ old.next config.writeGate config.sha256 w.db w.now answer = some r ∧
      s = r.map .write ∧ r.next = call := by
  cases p with
  | write old =>
    obtain ⟨r,taken,rfl⟩ := Option.map_eq_some_iff.mp ok
    exact ⟨old,r,rfl,taken,rfl,by simpa [Step.map] using after⟩
  | _ =>
    obtain ⟨r,taken,rfl⟩ := Option.map_eq_some_iff.mp ok
    simp [Step.map] at after

theorem soundStep {config w a t} (sound : Sound config w) (taken : World.step config w a = some t) :
    Sound config t := by
  have kept : ∀ {j : Nat} {call}, w.processes[j]? = some (.write call) →
      (t.db = w.db ∨ ∃ c, c.effect w.db = some t.db ∧
        (External c ∨ ∃ i process, i ≠ j ∧ w.processes[i]? = some process ∧ process.commit config w = some c)) →
      Undisturbed config w.db t.db call := by
    intro j call here calm
    rcases calm with same | ⟨c,applied,elsewhere⟩
    · rw [same]
      exact .refl ..
    · exact undisturbed sound here applied elsewhere
  -- The operation of a process after the step: its own before, or one that nobody had.
  have owned : ∀ {j : Nat} {call id}, t.processes[j]? = some (.write call) → call.operation = some id →
      (∃ old, w.processes[j]? = some (.write old) ∧ old.operation = some id) ∨
      (w.db.operations.find id = none ∧ ∃ answer, a = .advance j answer) := by
    intro j call id found mine
    rcases stepView taken found with ⟨answer,old,s,rfl,here,ok,next,_⟩ | ⟨first,_⟩ | ⟨here,_⟩
    · obtain ⟨before,r,rfl,stepped,_,rfl⟩ := writeNext ok next.symm
      rcases callKeeps stepped with ⟨_,same⟩ | ⟨_,_,claims⟩
      · exact .inl ⟨before,here,same ▸ mine⟩
      · rcases claims id mine with own | fresh
        · exact .inl ⟨before,here,own⟩
        · exact .inr ⟨fresh,answer,rfl⟩
    · rw [(initialWrite first).2.1] at mine
      simp at mine
    · exact .inl ⟨call,here,mine⟩
  have known : ∀ {j : Nat} {old id}, w.processes[j]? = some (.write old) → old.operation = some id →
      w.db.operations.find id ≠ none := by
    intro j old id here mine
    obtain ⟨o,claimed⟩ := holdsKnown (sound.holds here) id mine
    simp [claimed.2.1]
  refine ⟨?_,?_⟩
  · intro j call found
    rcases stepView taken found with ⟨answer,old,s,rfl,here,ok,next,rfl⟩ | ⟨first,_⟩ | ⟨here,_,calm⟩
    · obtain ⟨before,r,rfl,stepped,rfl,rfl⟩ := writeNext ok next.symm
      exact callStep (sound.holds here) stepped
    · obtain ⟨pc,operation,held⟩ := initialWrite first
      simp only [Holds,pc]
      exact ⟨operation,held⟩
    · exact (kept here calm).holds (logGrows taken) (sound.holds here)
  · intro i j x y id left right mine other
    rcases owned left mine with ⟨old,here,own⟩ | ⟨fresh,answer,rfl⟩
    · rcases owned right other with ⟨old',here',own'⟩ | ⟨fresh,_⟩
      · exact sound.owns here here' own own'
      · exact absurd fresh (known here own)
    · rcases owned right other with ⟨old',here',own'⟩ | ⟨_,answer',same⟩
      · exact absurd fresh (known here' own')
      · cases same
        rfl

theorem soundRun {config db now labels w} {guard : World → Action → Prop}
    (run : Run (World.step config) guard (World.start db now) labels w) : Sound config w :=
  run.preserves (Sound config) (fun _ _ _ sound _ taken => soundStep sound taken) (soundStart config db now)

end RatatoskrX.WriteSystem
