import RatatoskrX.Operations
import RatatoskrX.Schedule

/-! What a write-back call may rely on at each of its control points. The assertion
speaks of the archive, the log and the call alone: other processes enter only through
the transactions they commit. -/
namespace RatatoskrX.WriteInvariant
open Relational Schema Audit Budget Writeback Journal Frames SyncCalls WriteCalls Operations Schedule

def Admission : WriteOutcome → Prop
  | .refused .ownershipMismatch | .refused .connectionInactive | .refused .writeAuthorizationRequired
  | .refused .writeScopeRequired | .refused .consentRequired | .refused (.budget (.exhausted _)) => True
  | _ => False

instance (outcome) : Decidable (Admission outcome) := by
  unfold Admission; split <;> infer_instance

/- The row that an answer of the call that executed it leaves behind. -/
def Settles (o : Operation) : WriteOutcome → Prop
  | .written ⟨_,.alreadySatisfied⟩ => o.status = .succeeded ∧ o.outcome = some "already_satisfied"
  | .written ⟨_,.succeeded⟩ => o.status = .succeeded ∧ o.outcome = some "confirmed"
  | .written ⟨_,.projectionPending⟩ => o.status = .projectionPending
  | .written ⟨_,.uncertain⟩ =>
    o.status = .uncertain ∨ o.status = .reconciledSucceeded ∨ o.status = .reconciledNotCurrent
  | .written ⟨_,.reconciledNotCurrent⟩ => False
  | .previewed _ => o.status = .dryRun
  | .refused (.provider _) => o.status = .failed
  -- The second reading is the call that lost its consent to another one.
  | .refused .consentRequired => o.status = .refused ∨ o.status = .received
  | .refused .ownershipMismatch | .refused .connectionInactive | .refused .writeAuthorizationRequired
  | .refused .writeScopeRequired | .refused (.budget (.exhausted _)) => o.status = .refused
  | .refused _ => True

section Assertion
variable (config : Config) (db : Database) (log : List Entry) (index : Nat) (call : WriteCall)

def Claimed (operationId : Uuid) (o : Operation) : Prop :=
  call.operation = some operationId ∧ db.operations.find operationId = some o ∧
  identity o = requestedRow config.sha256 call.request call.action call.mode operationId
    ((db.consents.find call.request.consentId).map Consent.id)

def Pending (operationId : Uuid) : Prop := ∃ o, Claimed config db call operationId o ∧ o.status = .received

def Consumed (evaluatedAt : DateTime) : Prop :=
  ∃ c, db.consents.find call.request.consentId = some c ∧ c.consumedAt = some evaluatedAt ∧
    c.internalUserId = call.request.internalUserId ∧ c.accountId = call.request.accountId ∧
    c.action = call.action ∧ c.providerPostId = call.request.providerPostId ∧ evaluatedAt < c.expiresAt

def InFlight (operationId : Uuid) : Prop :=
  call.mode = .live ∧ (∃ o, Claimed config db call operationId o ∧ o.status = .providerInFlight) ∧
  ∃ evaluatedAt cost, Consumed db call evaluatedAt ∧ Recorded db operationId .providerAttempted ∧
    ⟨some index,.commit (.consumeConsent operationId call.request call.action evaluatedAt cost)⟩ ∈ log

def Ended (o : Operation) : Prop := o.status ≠ .received ∧ o.status ≠ .providerInFlight

def Holds : Prop :=
  match call.pc with
  | .claim | .existing | .poll .. => call.operation = none ∧ call.held = none
  | .received id | .account id _ | .credential id _ | .authorization id _ _ | .consent id _
  | .observation id _ | .inspect id _ => Pending config db call id ∧ call.held = none
  | .refuse id _ _ | .satisfy id _ | .reserve id _ =>
    Pending config db call id ∧ call.held = none ∧ call.mode = .live
  | .preview id _ => Pending config db call id ∧ call.held = none ∧ call.mode = .dryRun
  | .consume id _ reservation =>
    Pending config db call id ∧ call.held = some reservation ∧ call.mode = .live
  | .refund id reservation error =>
    (∃ o, Claimed config db call id o ∧ (error = .consentRequired → o.status = .received)) ∧
    (error = .consentRequired ∨ error = .query) ∧ call.held = some reservation ∧ call.mode = .live
  | .provider id t => InFlight config db log index call id ∧ Consumed db call t ∧ call.held.isSome = true ∧
    ∃ cost, ⟨some index,.commit (.consumeConsent id call.request call.action t cost)⟩ ∈ log
  | .awaiting id | .uncertain id _ | .failed id _ => InFlight config db log index call id
  | .confirm id _ _ => InFlight config db log index call id ∧ ⟨some index,.confirmation id⟩ ∈ log
  | .audit id stage rest outcome =>
    (call.operation = none ∨ ∃ o, Claimed config db call id o ∧ Settles o outcome ∧ Ended o) ∧
    (call.operation.isSome = true → Admission outcome → rest = [] ∧
      (stage.1 = .gateRefused ∨ stage.1 = .budgetRefused))
  | .done outcome => ∀ id, call.operation = some id → ∃ o, Claimed config db call id o ∧ Settles o outcome ∧
    (o.status = .refused → Admission outcome → Recorded db id .gateRefused ∨ Recorded db id .budgetRefused)

end Assertion

section Stability
variable {config : Config} {db after : Database} {c : Commit} {call : WriteCall}
  (applied : c.effect db = some after)
  (elsewhere : ∀ id, call.operation = some id → target c ≠ some id)
  (unnamed : ∀ row now, c = .recordConsent row now → row.id ≠ call.request.consentId)

include applied unnamed in
theorem consentKnown : (after.consents.find call.request.consentId).map Consent.id =
    (db.consents.find call.request.consentId).map Consent.id := by
  rcases consentAfter applied call.request.consentId with same | ⟨row,now,rfl,named,_,_⟩
  · rw [same,Option.map_map]
    congr 1
    funext x
    have same := congrArg Consent.id (consentBinding c x)
    exact same
  · exact absurd named (unnamed row now rfl)

include applied elsewhere unnamed in
theorem claimedStable {id o} (claimed : Claimed config db call id o) :
    ∃ row, Claimed config after call id row ∧ (row = o ∨ o.status = .uncertain ∧ Moves o.status row.status) := by
  obtain ⟨mine,found,same⟩ := claimed
  rcases operationAfter applied id with step | ⟨_,_,_,absent,_⟩
  · rw [found] at step
    refine ⟨rowAfter db c o,⟨mine,step,?_⟩,?_⟩
    · rw [rowIdentity,same,consentKnown applied unnamed]
    · have keyed : o.id = id := Table.findKey found
      by_cases certain : o.status = .uncertain
      · rcases rowEdge db c o with kept | edge
        · exact .inl kept
        · exact .inr ⟨certain,edge⟩
      · refine .inl (rowUntouched ?_ certain)
        rw [keyed]
        exact elsewhere id mine
  · rw [found] at absent
    simp at absent

include applied in
theorem consumedStable {t} (consumed : Consumed db call t) : Consumed after call t := by
  obtain ⟨x,found,used,h⟩ := consumed
  rcases consentAfter applied call.request.consentId with same | ⟨_,_,_,_,absent,_⟩
  · rw [found,Option.map_some] at same
    have kept : consentRow c x = x := by
      cases c with
      | consumeConsent operationId request action instant cost =>
        -- The lock of a consumption admits an unconsumed consent only.
        obtain ⟨locked,admitted,_⟩ := consumedForm applied
        obtain ⟨present,admits⟩ := Option.filter_eq_some_iff.mp admitted
        simp only [consentRow]
        split
        · rename_i named
          have keyed : x.id = call.request.consentId := Table.findKey found
          rw [← named,keyed,found] at present
          cases Option.some.inj present
          simp [consentAdmits,used] at admits
        · rfl
      | _ => rfl
    exact ⟨x,by rw [same,kept],used,h⟩
  · rw [found] at absent
    simp at absent

theorem uncertainEdge {status} (edge : Moves .uncertain status) :
    status = .reconciledSucceeded ∨ status = .reconciledNotCurrent := by
  cases edge
  · exact .inl rfl
  · exact .inr rfl

theorem settlesEdge {o row : Operation} {outcome} (settles : Settles o outcome) (uncertain : o.status = .uncertain)
    (edge : Moves o.status row.status) : Settles row outcome := by
  rw [uncertain] at edge
  have settled := uncertainEdge edge
  cases outcome with
  | written result =>
    obtain ⟨operationId,status⟩ := result
    cases status with
    | uncertain => exact .inr settled
    | _ => simp [Settles,uncertain] at settles
  | previewed result => simp [Settles,uncertain] at settles
  | refused error =>
    cases error with
    | budget error => cases error <;> simp_all [Settles]
    | _ => simp_all [Settles]

theorem endedEdge {o row : Operation} (uncertain : o.status = .uncertain) (edge : Moves o.status row.status) :
    Ended row := by
  rw [uncertain] at edge
  rcases uncertainEdge edge with h | h <;> simp [Ended,h]

end Stability

/- What a step elsewhere leaves to a call. -/
structure Undisturbed (config : Config) (db after : Database) (call : WriteCall) : Prop where
  claimed : ∀ {id o}, Claimed config db call id o →
    ∃ row, Claimed config after call id row ∧ (row = o ∨ o.status = .uncertain ∧ Moves o.status row.status)
  consumed : ∀ {t}, Consumed db call t → Consumed after call t
  recorded : ∀ {id eventClass}, Recorded db id eventClass → Recorded after id eventClass

theorem Undisturbed.refl (config db call) : Undisturbed config db db call :=
  ⟨fun h => ⟨_,h,.inl rfl⟩,fun h => h,fun h => h⟩

theorem Undisturbed.commit {config db after c call} (applied : Commit.effect c db = some after)
    (elsewhere : ∀ id, call.operation = some id → target c ≠ some id)
    (unnamed : ∀ row now, c = .recordConsent row now → row.id ≠ call.request.consentId) :
    Undisturbed config db after call :=
  ⟨claimedStable applied elsewhere unnamed,consumedStable applied,recordedAfter applied⟩

namespace Undisturbed
variable {config : Config} {db after : Database} {call : WriteCall} (h : Undisturbed config db after call)
include h

theorem kept {id o} (claimed : Claimed config db call id o) (certain : o.status ≠ .uncertain) :
    Claimed config after call id o := by
  obtain ⟨row,later,rfl | ⟨uncertain,_⟩⟩ := h.claimed claimed
  · exact later
  · exact absurd uncertain certain

theorem pending {id} (pending : Pending config db call id) : Pending config after call id := by
  obtain ⟨o,claimed,status⟩ := pending
  exact ⟨o,h.kept claimed (by simp [status]),status⟩

theorem inFlight {log later : List Entry} {index id} (more : log ⊆ later)
    (flight : InFlight config db log index call id) : InFlight config after later index call id := by
  obtain ⟨live,⟨o,claimed,status⟩,t,cost,consumed,recorded,entry⟩ := flight
  exact ⟨live,⟨o,h.kept claimed (by simp [status]),status⟩,t,cost,h.consumed consumed,h.recorded recorded,
    more entry⟩

theorem settled {id o outcome} (claimed : Claimed config db call id o) (settles : Settles o outcome) :
    ∃ row, Claimed config after call id row ∧ Settles row outcome ∧ (Ended o → Ended row) ∧
      (row.status = .refused → o.status = .refused) := by
  obtain ⟨row,later,rfl | ⟨uncertain,edge⟩⟩ := h.claimed claimed
  · exact ⟨row,later,settles,fun e => e,fun r => r⟩
  · refine ⟨row,later,settlesEdge settles uncertain edge,fun _ => endedEdge uncertain edge,?_⟩
    intro refused
    rw [uncertain] at edge
    rcases uncertainEdge edge with status | status <;> simp [status] at refused

theorem holds {log later : List Entry} {index} (more : log ⊆ later) (holds : Holds config db log index call) :
    Holds config after later index call := by
  unfold Holds at holds ⊢
  cases pc : call.pc with
  | claim | existing | poll id remaining => simpa only [pc] using holds
  | received id | account id t | credential id t | authorization id t scopes | consent id t
  | observation id t | inspect id t =>
    simp only [pc] at holds ⊢
    exact ⟨h.pending holds.1,holds.2⟩
  | refuse id refusal resetAt | satisfy id observedAt | reserve id t | preview id result
  | consume id t reservation =>
    simp only [pc] at holds ⊢
    exact ⟨h.pending holds.1,holds.2⟩
  | refund id reservation error =>
    simp only [pc] at holds ⊢
    obtain ⟨⟨o,claimed,status⟩,rest⟩ := holds
    obtain ⟨row,later,same | ⟨uncertain,_⟩⟩ := h.claimed claimed
    · exact ⟨⟨row,later,by rw [same]; exact status⟩,rest⟩
    · refine ⟨⟨row,later,?_⟩,rest⟩
      intro lost
      rw [status lost] at uncertain
      simp at uncertain
  | provider id t =>
    simp only [pc] at holds ⊢
    obtain ⟨flight,consumed,held,cost,entry⟩ := holds
    exact ⟨h.inFlight more flight,h.consumed consumed,held,cost,more entry⟩
  | awaiting id | uncertain id requestId | failed id error =>
    simp only [pc] at holds ⊢
    exact h.inFlight more holds
  | confirm id requestId observedAt =>
    simp only [pc] at holds ⊢
    exact ⟨h.inFlight more holds.1,more holds.2⟩
  | audit id stage rest outcome =>
    simp only [pc] at holds ⊢
    refine ⟨?_,holds.2⟩
    rcases holds.1 with none | ⟨o,claimed,settles,ended⟩
    · exact .inl none
    · obtain ⟨row,later,settled,ends,_⟩ := h.settled claimed settles
      exact .inr ⟨row,later,settled,ends ended⟩
  | done outcome =>
    simp only [pc] at holds ⊢
    intro id mine
    obtain ⟨o,claimed,settles,recorded⟩ := holds id mine
    obtain ⟨row,later,settled,_,back⟩ := h.settled claimed settles
    refine ⟨row,later,settled,?_⟩
    intro refused admission
    exact (recorded (back refused) admission).imp h.recorded h.recorded

end Undisturbed
end RatatoskrX.WriteInvariant
