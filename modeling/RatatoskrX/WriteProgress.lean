import RatatoskrX.WriteInvariant

/-! A write-back call keeps its assertion through each of its own steps. -/
namespace RatatoskrX.WriteProgress
open Relational Schema Audit Budget Writeback Journal Frames SyncCalls WriteCalls Operations Schedule
open WriteInvariant

section Returns
variable {config : Config} {db : Database} {log : List Entry} {index : Nat} {call : WriteCall}

/- An error that says nothing about the operation's row. -/
def Silent : BookmarkWritebackError → Prop
  | .query | .invalidTarget | .invalidIdempotencyKey | .idempotencyConflict | .operationInProgress => True
  | .budget (.exhausted _) => False
  | .budget _ => True
  | _ => False

theorem silentReturns {error} (pc : call.pc = .done (.refused error)) (silent : Silent error)
    (known : ∀ id, call.operation = some id → ∃ o, Claimed config db call id o) :
    Holds config db log index call := by
  simp only [Holds,pc]
  intro id mine
  obtain ⟨o,claimed⟩ := known id mine
  have plain : ∀ o, Settles o (.refused error) ∧ ¬Admission (.refused error) := by
    intro o
    cases error with
    | budget error => cases error <;> simp_all [Silent,Settles,Admission]
    | _ => simp_all [Silent,Settles,Admission]
  exact ⟨o,claimed,(plain o).1,fun _ admission => absurd admission (plain o).2⟩

theorem silentHolds {error} (silent : Silent error)
    (known : ∀ id, call.operation = some id → ∃ o, Claimed config db call id o) :
    Holds config db log index (call.at_ (.done (.refused error))) :=
  silentReturns rfl silent known

theorem failingHolds (known : ∀ id, call.operation = some id → ∃ o, Claimed config db call id o) :
    Holds config db log index call.failing :=
  silentHolds trivial known

theorem freeKnown (free : call.operation = none) (id) (mine : call.operation = some id) :
    ∃ o, Claimed config db call id o := by
  rw [free] at mine
  simp at mine

theorem claimedKnown {id o} (claimed : Claimed config db call id o) (other) (mine : call.operation = some other) :
    ∃ o, Claimed config db call other o := by
  rw [claimed.1] at mine
  cases Option.some.inj mine
  exact ⟨o,claimed⟩

theorem pendingKnown {id} (pending : Pending config db call id) (other) (mine : call.operation = some other) :
    ∃ o, Claimed config db call other o := by
  obtain ⟨o,claimed,_⟩ := pending
  exact claimedKnown claimed other mine

theorem flightKnown {id} (flight : InFlight config db log index call id) (other)
    (mine : call.operation = some other) : ∃ o, Claimed config db call other o := by
  obtain ⟨_,⟨o,claimed,_⟩,_⟩ := flight
  exact claimedKnown claimed other mine

theorem refusingHolds {id} (pending : Pending config db call id) (free : call.held = none) (t refusal resetAt) :
    Holds config db log index (call.refusing id t refusal resetAt) := by
  unfold WriteCall.refusing
  cases mode : call.mode with
  | live => exact ⟨pending,free,mode⟩
  | dryRun => exact ⟨pending,free,mode⟩

theorem satisfyingHolds {id} (pending : Pending config db call id) (free : call.held = none) (t observedAt) :
    Holds config db log index (call.satisfying id t observedAt) := by
  unfold WriteCall.satisfying
  cases mode : call.mode with
  | live => exact ⟨pending,free,mode⟩
  | dryRun => exact ⟨pending,free,mode⟩

theorem admittingHolds {id} (pending : Pending config db call id) (free : call.held = none) (t resetAt) :
    Holds config db log index (call.admitting id t resetAt) := by
  unfold WriteCall.admitting
  cases mode : call.mode with
  | live => exact ⟨pending,free,mode⟩
  | dryRun => exact ⟨pending,free,mode⟩

theorem replayHolds (free : call.operation = none) (id outcome stages) :
    Holds config db log index (call.at_ (auditing id outcome stages)) := by
  cases stages with
  | nil => exact fun other mine => by rw [show call.operation = some other from mine] at free; simp at free
  | cons stage rest =>
    refine ⟨.inl free,?_⟩
    intro own
    rw [show (call.at_ (auditing id outcome (stage::rest))).operation = none from free] at own
    simp at own

theorem joiningHolds (free : call.operation = none) (unheld : call.held = none) (row) :
    Holds config db log index (call.joining config.sha256 row) := by
  unfold WriteCall.joining
  split
  · exact replayHolds free _ _ _
  · split
    · exact replayHolds free _ _ _
    · exact replayHolds free _ _ _
    · exact ⟨free,unheld⟩
    · exact silentHolds trivial (freeKnown free)

theorem pollingHolds (free : call.operation = none) (unheld : call.held = none) (id remaining status) :
    Holds config db log index (call.polling id remaining status) := by
  unfold WriteCall.polling
  split
  · exact replayHolds free _ _ _
  · split
    · exact silentHolds trivial (freeKnown free)
    · exact ⟨free,unheld⟩

theorem concludingHolds {id o outcome stage rest} (claimed : Claimed config db call id o)
    (settles : Settles o outcome) (ended : Ended o)
    (refusal : Admission outcome → rest = [] ∧ (stage.1 = .gateRefused ∨ stage.1 = .budgetRefused)) :
    Holds config db log index (call.at_ (auditing id outcome (stage::rest))) :=
  ⟨.inr ⟨o,claimed,settles,ended⟩,fun _ => refusal⟩

end Returns

theorem claimedOwn {config db after c call id o} (applied : Commit.effect c db = some after)
    (unnamed : ∀ row now, c ≠ .recordConsent row now) (claimed : Claimed config db call id o) :
    Claimed config after call id (rowAfter db c o) := by
  obtain ⟨mine,found,same⟩ := claimed
  rcases operationAfter applied id with step | ⟨_,_,_,absent,_⟩
  · rw [found] at step
    refine ⟨mine,step,?_⟩
    rw [rowIdentity,same,consentKnown applied (fun row now named => absurd named (unnamed row now))]
  · rw [found] at absent
    simp at absent

theorem movedOwn {id guard} {f : Operation → Operation} {o : Operation} (mine : o.id = id) (at_ : o.status = guard) :
    moved id guard f o = f o := by
  unfold moved
  rw [if_pos ⟨mine,at_⟩]

theorem consumedOwn {config db after call id t cost} (log : List Entry) (index : Nat)
    (applied : Commit.effect (.consumeConsent id call.request call.action t cost) db = some after)
    (pending : Pending config db call id) (live : call.mode = .live)
    (entry : ⟨some index,.commit (.consumeConsent id call.request call.action t cost)⟩ ∈ log) :
    InFlight config after log index call id ∧ Consumed after call t := by
  obtain ⟨o,claimed,status⟩ := pending
  have moves := claimedOwn applied (by simp) claimed
  have mine : o.id = id := Table.findKey claimed.2.1
  simp only [rowAfter,movedOwn mine status] at moves
  obtain ⟨consent,admitted,form⟩ := consumedForm applied
  obtain ⟨present,admits⟩ := Option.filter_eq_some_iff.mp admitted
  have keyed : consent.id = call.request.consentId := Table.findKey present
  simp only [consentAdmits,Bool.and_eq_true,decide_eq_true_eq] at admits
  have marked : (markConsumed db call.request.consentId t).consents.find call.request.consentId =
      some (consumedRow t consent) := by
    refine (Table.findUpdate db.consents _ (consumedRow t) (fun _ => rfl) _).trans ?_
    rw [present,Option.map_some,if_pos (by simpa using keyed)]
  have consumed : Consumed after call t := by
    refine ⟨consumedRow t consent,?_,rfl,admits.1.1.1.1.1.2,admits.1.1.1.1.2,admits.1.1.1.2,admits.1.1.2,admits.2⟩
    rw [form,(auditFrame (joinedAuditOnly ..)).consents (by simp)]
    exact marked
  have recorded : Recorded after id .providerAttempted := by
    have row : (moveOperation (markConsumed db call.request.consentId t) id .received inFlightRow
        (fun _ => rfl) (fun _ => rfl)).operations.find id = some (inFlightRow o) := by
      rw [movedFind]
      refine (congrArg (Option.map _) claimed.2.1).trans ?_
      rw [Option.map_some,movedOwn mine status]
    have named : o.consentId = some call.request.consentId := by
      have same := congrArg Operation.consentId claimed.2.2
      rw [present] at same
      simpa [identity,requestedRow,keyed] using same
    have joined : consentOf (moveOperation (markConsumed db call.request.consentId t) id .received inFlightRow
        (fun _ => rfl) (fun _ => rfl)) (inFlightRow o) = some (consumedRow t consent) := by
      unfold consentOf
      simp only [named,Option.bind_some]
      exact marked
    rw [form]
    have member : (EventClass.providerAttempted,
        [("budget_class",DetailValue.text "bookmark_write"),("cost",.number (min (cost.toNat : Int) maxI32))]) ∈
        admissionStages cost := by simp [admissionStages]
    exact recordedJoined row joined member
  exact ⟨⟨live,⟨_,moves,rfl⟩,t,cost,consumed,recorded,entry⟩,consumed⟩

abbrev extended (log : List Entry) (index : Nat) {π : Type} (s : Step π) : List Entry :=
  log ++ (s.event.map (Entry.mk (some index))).toList

section Step
variable {config : Config} {db : Database} {now : DateTime} {log : List Entry} {index : Nat} {answer : Answer}
  {call : WriteCall} {s : Step WriteCall}

theorem readingHolds {next faulted : WriteCall} (ok : reading db answer next faulted = some s)
    (good : Holds config db log index next) (bad : Holds config db log index faulted) :
    Holds config s.db (extended log index s) index s.next := by
  rcases readingCases ok with ⟨_,rfl⟩ | ⟨_,rfl⟩
  · simpa [extended] using good
  · simpa [extended] using bad

theorem quietHolds {next : WriteCall} (ok : quiet db next = some s) (good : Holds config db log index next) :
    Holds config s.db (extended log index s) index s.next := by
  rw [quietCases ok]
  simpa [extended] using good

theorem transactHolds {c : Commit} {next refused faulted : WriteCall}
    (ok : transact db answer c next refused faulted = some s)
    (done : ∀ after, c.effect db = some after → answer = .ok →
      Holds config after (log ++ [⟨some index,.commit c⟩]) index next)
    (lost : ∀ after, c.effect db = some after → answer = .lost →
      Holds config after (log ++ [⟨some index,.commit c⟩]) index faulted)
    (stays : c.effect db = none → Holds config db log index refused)
    (fails : answer ≠ .ok → (answer = .lost → c.effect db = none) → Holds config db log index faulted) :
    Holds config s.db (extended log index s) index s.next := by
  rcases transactCases ok with ⟨after,applied,⟨h,rfl⟩ | ⟨h,rfl⟩⟩ | ⟨_,none,rfl⟩ | ⟨h,rfl⟩
  · simpa [extended] using done after applied h
  · simpa [extended] using lost after applied h
  · simpa [extended] using stays none
  · rcases h with h | ⟨h,none⟩
    · simpa [extended] using fails (by simp [h]) (by simp [h])
    · simpa [extended] using fails (by simp [h]) (fun _ => none)

theorem movingHolds {c : Commit} {next : WriteCall} {id o guard} {f : Operation → Operation}
    (ok : transact db answer c next call.failing call.failing = some s) (claimed : Claimed config db call id o)
    (status : o.status = guard) (moves : rowAfter db c = moved id guard f) (unnamed : ∀ row now, c ≠ .recordConsent row now)
    (done : ∀ after, c.effect db = some after → Claimed config after call id (f o) →
      Holds config after (log ++ [⟨some index,.commit c⟩]) index next) :
    Holds config s.db (extended log index s) index s.next := by
  refine transactHolds ok ?_ ?_ ?_ ?_
  · intro after applied _
    have later := claimedOwn applied unnamed claimed
    rw [moves,movedOwn (Table.findKey claimed.2.1) status] at later
    exact done after applied later
  · intro after applied _
    exact failingHolds (claimedKnown (claimedOwn applied unnamed claimed))
  · exact fun _ => failingHolds (claimedKnown claimed)
  · exact fun _ _ => failingHolds (claimedKnown claimed)

theorem concludedHolds {c : Commit} {id o guard outcome stage rest} {f : Operation → Operation}
    (ok : transact db answer c (call.at_ (auditing id outcome (stage::rest))) call.failing call.failing = some s)
    (claimed : Claimed config db call id o) (status : o.status = guard) (moves : rowAfter db c = moved id guard f)
    (unnamed : ∀ row now, c ≠ .recordConsent row now) (settles : Settles (f o) outcome) (ended : Ended (f o))
    (executed : ¬Admission outcome) : Holds config s.db (extended log index s) index s.next := by
  refine movingHolds ok claimed status moves unnamed ?_
  intro after applied later
  exact concludingHolds later settles ended (fun refused => absurd refused executed)

theorem claimStep (pc : call.pc = .claim) (holds : Holds config db log index call)
    (ok : call.next config.writeGate config.sha256 db now answer = some s) :
    Holds config s.db (extended log index s) index s.next := by
  simp only [Holds,pc] at holds
  obtain ⟨free,unheld⟩ := holds
  simp only [WriteCall.next,pc] at ok
  split at ok
  · rename_i error invalid
    refine quietHolds ok (silentHolds ?_ (freeKnown free))
    simp only [validateRequest,validateProviderPostId,bind,Except.bind] at invalid
    split at invalid
    · rename_i bad
      split at bad
      · simp at bad
      · cases bad
        cases Except.error.inj invalid
        trivial
    · split at invalid
      · cases invalid
        trivial
      · simp [pure,Except.pure] at invalid
  · split at ok
    · exact readingHolds ok ⟨free,unheld⟩ (failingHolds (freeKnown free))
    · have claims : ∀ after, insertOperation db (claimRow config.sha256 db call.request call.action call.mode) =
          some after → Claimed config after
            {call with operation := some (claimRow config.sha256 db call.request call.action call.mode).id}
            (claimRow config.sha256 db call.request call.action call.mode).id
            (claimRow config.sha256 db call.request call.action call.mode) := by
        intro after applied
        refine ⟨rfl,by rw [claimedFind applied,if_pos rfl],?_⟩
        rw [(frame (c := .claimOperation _) applied).consents (by simp [touched])]
        rfl
      refine transactHolds ok ?_ ?_ ?_ ?_
      · intro after applied _
        exact ⟨⟨_,claims after applied,rfl⟩,unheld⟩
      · intro after applied lost
        rw [if_pos ⟨by simp [applied],lost⟩]
        exact failingHolds (claimedKnown (claims after applied))
      · exact fun _ => failingHolds (freeKnown free)
      · intro _ none
        rw [if_neg (by
          rintro ⟨some,lost⟩
          simp [none lost] at some)]
        exact failingHolds (freeKnown free)

theorem admissionStep {id} (holds : Pending config db call id ∧ call.held = none)
    {next : WriteCall} (ok : reading db answer next call.failing = some s)
    (admits : Holds config db log index next) : Holds config s.db (extended log index s) index s.next :=
  readingHolds ok admits (failingHolds (pendingKnown holds.1))

theorem receivedStep {id} (pc : call.pc = .received id) (holds : Holds config db log index call)
    (ok : call.next config.writeGate config.sha256 db now answer = some s) :
    Holds config s.db (extended log index s) index s.next := by
  simp only [Holds,pc] at holds
  simp only [WriteCall.next,pc] at ok
  have calm : ∀ {after}, Commit.effect (.appendAudit id .requestReceived [] now) db = some after →
      Undisturbed config db after call := fun applied => .commit applied (by simp [target]) (by simp)
  refine transactHolds ok ?_ ?_ ?_ ?_
  · exact fun after applied _ => ⟨(calm applied).pending holds.1,holds.2⟩
  · exact fun after applied _ => failingHolds (pendingKnown ((calm applied).pending holds.1))
  · exact fun _ => failingHolds (pendingKnown holds.1)
  · exact fun _ _ => failingHolds (pendingKnown holds.1)

theorem auditStep {id stage rest outcome} (pc : call.pc = .audit id stage rest outcome)
    (holds : Holds config db log index call)
    (ok : call.next config.writeGate config.sha256 db now answer = some s) :
    Holds config s.db (extended log index s) index s.next := by
  simp only [Holds,pc] at holds
  obtain ⟨own,refusal⟩ := holds
  simp only [WriteCall.next,pc] at ok
  have calm : ∀ {after}, Commit.effect (.appendAudit id stage.1 stage.2 now) db = some after →
      Undisturbed config db after call := fun applied => .commit applied (by simp [target]) (by simp)
  rcases own with free | ⟨o,claimed,settles,ended⟩
  · refine transactHolds ok ?_ ?_ ?_ ?_
    · exact fun after applied _ => replayHolds free _ _ _
    · exact fun after applied _ => failingHolds (freeKnown free)
    · exact fun _ => failingHolds (freeKnown free)
    · exact fun _ _ => failingHolds (freeKnown free)
  · refine transactHolds ok ?_ ?_ ?_ ?_
    · intro after applied _
      obtain ⟨row,later,settled,ends,back⟩ := (calm applied).settled claimed settles
      cases rest with
      | nil =>
        intro other mine
        have same : id = other := Option.some.inj (claimed.1.symm.trans (show call.operation = some other from mine))
        subst same
        refine ⟨row,later,settled,?_⟩
        intro refused admission
        have recorded : Recorded after id stage.1 := by
          cases Option.some.inj applied
          exact recordedDetails claimed.2.1
        rcases (refusal (by simp [claimed.1]) admission).2 with h | h
        · exact .inl (h ▸ recorded)
        · exact .inr (h ▸ recorded)
      | cons following others =>
        refine concludingHolds later settled (ends ended) ?_
        intro admission
        exact absurd (refusal (by simp [claimed.1]) admission).1 (by simp)
    · intro after applied _
      obtain ⟨row,later,_⟩ := (calm applied).settled claimed settles
      exact failingHolds (claimedKnown later)
    · exact fun _ => failingHolds (claimedKnown claimed)
    · exact fun _ _ => failingHolds (claimedKnown claimed)

theorem refuseStep {id refusal resetAt} (pc : call.pc = .refuse id refusal resetAt)
    (holds : Holds config db log index call)
    (ok : call.next config.writeGate config.sha256 db now answer = some s) :
    Holds config s.db (extended log index s) index s.next := by
  simp only [Holds,pc] at holds
  obtain ⟨⟨o,claimed,status⟩,_,_⟩ := holds
  simp only [WriteCall.next,pc] at ok
  refine movingHolds ok claimed status rfl (by simp) ?_
  intro after applied later
  refine concludingHolds later ?_ ?_ ?_
  · cases refusal <;> first | exact .inl rfl | rfl | skip
    cases resetAt <;> trivial
  · exact ⟨by simp,by simp⟩
  · intro _
    refine ⟨rfl,?_⟩
    cases refusal <;> simp [refusalEvent]

theorem satisfyStep {id observedAt} (pc : call.pc = .satisfy id observedAt) (holds : Holds config db log index call)
    (ok : call.next config.writeGate config.sha256 db now answer = some s) :
    Holds config s.db (extended log index s) index s.next := by
  simp only [Holds,pc] at holds
  obtain ⟨⟨o,claimed,status⟩,_,_⟩ := holds
  simp only [WriteCall.next,pc] at ok
  exact concludedHolds ok claimed status rfl (by simp) ⟨rfl,rfl⟩ ⟨by simp,by simp⟩ (by simp [Admission])

theorem previewStep {id result} (pc : call.pc = .preview id result) (holds : Holds config db log index call)
    (ok : call.next config.writeGate config.sha256 db now answer = some s) :
    Holds config s.db (extended log index s) index s.next := by
  simp only [Holds,pc] at holds
  obtain ⟨⟨o,claimed,status⟩,_,_⟩ := holds
  simp only [WriteCall.next,pc] at ok
  exact concludedHolds ok claimed status rfl (by simp) rfl ⟨by simp,by simp⟩ (by simp [Admission])

theorem uncertainStep {id requestId} (pc : call.pc = .uncertain id requestId)
    (holds : Holds config db log index call)
    (ok : call.next config.writeGate config.sha256 db now answer = some s) :
    Holds config s.db (extended log index s) index s.next := by
  simp only [Holds,pc] at holds
  obtain ⟨_,⟨o,claimed,status⟩,_⟩ := holds
  simp only [WriteCall.next,pc] at ok
  exact concludedHolds ok claimed status rfl (by simp) (.inl rfl) ⟨by simp,by simp⟩ (by simp [Admission])

theorem failedStep {id error} (pc : call.pc = .failed id error) (holds : Holds config db log index call)
    (ok : call.next config.writeGate config.sha256 db now answer = some s) :
    Holds config s.db (extended log index s) index s.next := by
  simp only [Holds,pc] at holds
  obtain ⟨_,⟨o,claimed,status⟩,_⟩ := holds
  simp only [WriteCall.next,pc] at ok
  exact concludedHolds ok claimed status rfl (by simp) rfl ⟨by simp,by simp⟩ (by simp [Admission])

theorem confirmStep {id requestId observedAt} (pc : call.pc = .confirm id requestId observedAt)
    (holds : Holds config db log index call)
    (ok : call.next config.writeGate config.sha256 db now answer = some s) :
    Holds config s.db (extended log index s) index s.next := by
  simp only [Holds,pc] at holds
  obtain ⟨⟨_,⟨o,claimed,status⟩,_⟩,_⟩ := holds
  simp only [WriteCall.next,pc] at ok
  refine movingHolds ok claimed status rfl (by simp) ?_
  intro after applied later other own
  have same : id = other := Option.some.inj (claimed.1.symm.trans (show call.operation = some other from own))
  subst same
  refine ⟨_,later,?_,?_⟩
  · cases (projectConfirmedBookmark db id call.request.accountId call.request.providerPostId call.action
      observedAt).2
    · exact rfl
    · exact ⟨rfl,rfl⟩
  · exact fun _ admission => absurd admission (by simp [Admission])

theorem reserveStep {id t} (pc : call.pc = .reserve id t) (holds : Holds config db log index call)
    (ok : call.next config.writeGate config.sha256 db now answer = some s) :
    Holds config s.db (extended log index s) index s.next := by
  simp only [Holds,pc] at holds
  obtain ⟨pending,free,live⟩ := holds
  simp only [WriteCall.next,pc] at ok
  rcases chargingCases ok with ⟨after,reservation,reserved,taken⟩ | ⟨error,rfl,_⟩
  · have applied : Commit.effect (.charge config.writeGate call.request.accountId 1 now) db = some after := by
      simp [Commit.effect,reserved,Except.toOption]
    have calm : Undisturbed config db after call := .commit applied (by simp [target]) (by simp)
    rcases taken with ⟨_,rfl⟩ | ⟨_,rfl⟩
    · exact ⟨calm.pending pending,rfl,live⟩
    · exact silentReturns rfl trivial (pendingKnown (calm.pending pending))
  · simp only [extended,Option.map_none,Option.toList_none,List.append_nil]
    cases error with
    | exhausted resetAt => exact ⟨pending,free,live⟩
    | _ => exact silentHolds trivial (pendingKnown pending)

theorem consumeStep {id t reservation} (pc : call.pc = .consume id t reservation)
    (holds : Holds config db log index call)
    (ok : call.next config.writeGate config.sha256 db now answer = some s) :
    Holds config s.db (extended log index s) index s.next := by
  simp only [Holds,pc] at holds
  obtain ⟨pending,held,live⟩ := holds
  simp only [WriteCall.next,pc] at ok
  obtain ⟨o,claimed,status⟩ := pending
  have entry : ∀ c : Commit, (⟨some index,.commit c⟩ : Entry) ∈ log ++ [⟨some index,.commit c⟩] := by simp
  refine transactHolds ok ?_ ?_ ?_ ?_
  · intro after applied _
    obtain ⟨flight,consumed⟩ := consumedOwn _ index applied ⟨o,claimed,status⟩ live (entry _)
    exact ⟨flight,consumed,by simp [WriteCall.at_,held],reservation.cost,entry _⟩
  · intro after applied _
    exact ⟨⟨_,claimedOwn applied (by simp) claimed,by simp⟩,.inr rfl,held,live⟩
  · exact fun _ => ⟨⟨o,claimed,fun _ => status⟩,.inl rfl,held,live⟩
  · exact fun _ _ => ⟨⟨o,claimed,by simp⟩,.inr rfl,held,live⟩

theorem refundStep {id reservation error} (pc : call.pc = .refund id reservation error)
    (holds : Holds config db log index call)
    (ok : call.next config.writeGate config.sha256 db now answer = some s) :
    Holds config s.db (extended log index s) index s.next := by
  simp only [Holds,pc] at holds
  obtain ⟨⟨o,claimed,status⟩,cause,_,_⟩ := holds
  simp only [WriteCall.next,pc] at ok
  have calm : ∀ {after}, Commit.effect (.refund config.writeGate call.request.accountId reservation) db = some after →
      Undisturbed config db after call := fun applied => .commit applied (by simp [target]) (by simp)
  refine transactHolds ok ?_ ?_ ?_ ?_
  · intro after applied _
    rcases cause with rfl | rfl
    · -- The call that lost the consent returns over an operation that is still received.
      intro other own
      have same : id = other := Option.some.inj (claimed.1.symm.trans (show call.operation = some other from own))
      subst same
      have kept := (calm applied).kept claimed (by simp [status rfl])
      refine ⟨o,kept,.inr (status rfl),?_⟩
      intro refused
      simp [status rfl] at refused
    · obtain ⟨row,later,_⟩ := (calm applied).claimed claimed
      exact silentReturns rfl trivial (claimedKnown later)
  · intro after applied lost
    obtain ⟨row,later,_⟩ := (calm applied).claimed claimed
    rw [if_pos lost]
    exact silentReturns rfl trivial (claimedKnown later)
  · exact fun none => absurd none (by simp [Commit.effect])
  · intro _ none
    rw [if_neg (fun lost => absurd (none lost) (by simp [Commit.effect]))]
    exact silentHolds trivial (claimedKnown claimed)

theorem providerStep {id t} (pc : call.pc = .provider id t) (holds : Holds config db log index call)
    (ok : call.next config.writeGate config.sha256 db now answer = some s) :
    Holds config s.db (extended log index s) index s.next := by
  simp only [Holds,pc] at holds
  simp only [WriteCall.next,pc] at ok
  split at ok
  · cases Option.some.inj ok
    exact (Undisturbed.refl config db call).inFlight (List.subset_append_left _ _) holds.1
  · simp at ok

theorem awaitingStep {id} (pc : call.pc = .awaiting id) (holds : Holds config db log index call)
    (ok : call.next config.writeGate config.sha256 db now answer = some s) :
    Holds config s.db (extended log index s) index s.next := by
  simp only [Holds,pc] at holds
  simp only [WriteCall.next,pc] at ok
  split at ok
  · cases Option.some.inj ok
    exact ⟨(Undisturbed.refl config db call).inFlight (List.subset_append_left _ _) holds,by simp [extended]⟩
  · exact quietHolds ok holds
  · exact quietHolds ok holds
  · simp at ok

theorem callStep (holds : Holds config db log index call)
    (ok : call.next config.writeGate config.sha256 db now answer = some s) :
    Holds config s.db (extended log index s) index s.next := by
  cases pc : call.pc with
  | claim => exact claimStep pc holds ok
  | received id => exact receivedStep pc holds ok
  | audit id stage rest outcome => exact auditStep pc holds ok
  | refuse id refusal resetAt => exact refuseStep pc holds ok
  | satisfy id observedAt => exact satisfyStep pc holds ok
  | preview id result => exact previewStep pc holds ok
  | reserve id t => exact reserveStep pc holds ok
  | consume id t reservation => exact consumeStep pc holds ok
  | refund id reservation error => exact refundStep pc holds ok
  | provider id t => exact providerStep pc holds ok
  | awaiting id => exact awaitingStep pc holds ok
  | confirm id requestId observedAt => exact confirmStep pc holds ok
  | uncertain id requestId => exact uncertainStep pc holds ok
  | failed id error => exact failedStep pc holds ok
  | done outcome => simp [WriteCall.next,pc] at ok
  | existing =>
    simp only [Holds,pc] at holds
    simp only [WriteCall.next,pc] at ok
    split at ok
    · exact readingHolds ok (failingHolds (freeKnown holds.1)) (failingHolds (freeKnown holds.1))
    · exact readingHolds ok (joiningHolds holds.1 holds.2 _) (failingHolds (freeKnown holds.1))
  | poll id remaining =>
    simp only [Holds,pc] at holds
    simp only [WriteCall.next,pc] at ok
    exact readingHolds ok (pollingHolds holds.1 holds.2 _ _ _) (failingHolds (freeKnown holds.1))
  | account id t =>
    simp only [Holds,pc] at holds
    simp only [WriteCall.next,pc] at ok
    refine admissionStep holds ok ?_
    split
    · exact refusingHolds holds.1 holds.2 _ _ _
    · exact holds
    · exact refusingHolds holds.1 holds.2 _ _ _
  | credential id t =>
    simp only [Holds,pc] at holds
    simp only [WriteCall.next,pc] at ok
    refine admissionStep holds ok ?_
    split
    · exact refusingHolds holds.1 holds.2 _ _ _
    · exact holds
  | authorization id t scopes =>
    simp only [Holds,pc] at holds
    simp only [WriteCall.next,pc] at ok
    refine admissionStep holds ok ?_
    split
    · exact refusingHolds holds.1 holds.2 _ _ _
    · split
      · exact refusingHolds holds.1 holds.2 _ _ _
      · split
        · exact holds
        · exact refusingHolds holds.1 holds.2 _ _ _
  | consent id t =>
    simp only [Holds,pc] at holds
    simp only [WriteCall.next,pc] at ok
    refine admissionStep holds ok ?_
    split
    · exact holds
    · exact refusingHolds holds.1 holds.2 _ _ _
  | observation id t =>
    simp only [Holds,pc] at holds
    simp only [WriteCall.next,pc] at ok
    refine admissionStep holds ok ?_
    split
    · exact satisfyingHolds holds.1 holds.2 _ _
    · exact holds
  | inspect id t =>
    simp only [Holds,pc] at holds
    simp only [WriteCall.next,pc] at ok
    split at ok
    · rename_i error failed
      refine quietHolds ok (silentHolds ?_ (pendingKnown holds.1))
      -- inspect fails only on a window whose end is not representable.
      simp only [BudgetGate.inspect,BudgetGate.resetAt,bind,Except.bind] at failed
      split at failed
      · rename_i none
        split at none
        · simp at none
        · cases none
          cases Except.error.inj failed
          trivial
      · simp [pure,Except.pure] at failed
    · refine readingHolds ok ?_ (silentHolds trivial (pendingKnown holds.1))
      split
      · exact admittingHolds holds.1 holds.2 _ _
      · exact refusingHolds holds.1 holds.2 _ _ _

end Step

end RatatoskrX.WriteProgress
