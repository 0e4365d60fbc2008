import RatatoskrX.Schema

/-! The append-only write-back audit log. Rows are built from the operation they
name; the transactional writers join the consent, the single statements left-join it. -/
namespace RatatoskrX.Audit
open Schema

def auditOrdinal : EventClass → Nat
  | .requestReceived => 1
  | .gateAdmitted | .gateRefused | .budgetRefused => 2
  | .providerAttempted => 3
  | .providerClassified => 4
  | .projectionReconciled | .outcomeUncertain => 5
  | .operationCompleted => 6
  | .idempotentReplay | .idempotencyConflict | .dryRunCompleted => 7
  | .snapshotReconciled => 8
  -- The consent row is written with the literal byte 0; auditOrdinal would answer 9 for it.
  | .consentRecorded => 9

def operationEvent (o : Operation) (surface : String) (eventClass : EventClass) (occurredAt : DateTime)
    (providerRequestId : Option String) (details : Details) : AuditEvent :=
  ⟨auditOrdinal eventClass,o.accountId,some o.id,o.consentId,o.internalUserId,o.action,o.providerPostId,
    surface,eventClass,occurredAt,some o.id,some o.idempotencyDigest,providerRequestId,details⟩

def consentOf (db : Database) (o : Operation) : Option Consent := o.consentId.bind db.consents.find

def insertEvents (db : Database) (events : List AuditEvent) : Database :=
  {db with auditEvents := db.auditEvents ++ events}

/-- append_operation_audit_details: a missing consent leaves the surface 'unknown'. -/
def appendOperationAuditDetails (db : Database) (operationId : Uuid) (eventClass : EventClass)
    (details : Details) (now : DateTime) : Database :=
  match db.operations.find operationId with
  | none => db
  | some o => insertEvents db
      [operationEvent o ((consentOf db o).elim "unknown" Consent.surface) eventClass now o.providerRequestId details]

/- The writers that join the consent insert nothing for an operation without one. -/
def appendJoined (db : Database) (operationId : Uuid) (now : DateTime)
    (stages : List (EventClass × Details)) (requestId : Operation → Option String) : Database :=
  match db.operations.find operationId with
  | none => db
  | some o => match consentOf db o with
    | none => db
    | some c => insertEvents db
        (stages.map (fun stage => operationEvent o c.surface stage.1 now (requestId o) stage.2))

def Recorded (db : Database) (operationId : Uuid) (eventClass : EventClass) : Prop :=
  ∃ e ∈ db.auditEvents, e.operationId = some operationId ∧ e.eventClass = eventClass

theorem recordedInsert {db : Database} {events operationId eventClass} :
    Recorded (insertEvents db events) operationId eventClass ↔
      Recorded db operationId eventClass ∨
      ∃ e ∈ events, e.operationId = some operationId ∧ e.eventClass = eventClass := by
  simp only [Recorded,insertEvents,List.mem_append,or_and_right,exists_or]

theorem recordedDetails {db : Database} {operationId eventClass details now o}
    (found : db.operations.find operationId = some o) :
    Recorded (appendOperationAuditDetails db operationId eventClass details now) operationId eventClass := by
  have keyed := Relational.Table.findKey found
  simp only [appendOperationAuditDetails,found]
  exact recordedInsert.mpr (.inr ⟨_,List.mem_singleton_self _,by rw [← keyed]; rfl,rfl⟩)

theorem recordedJoined {db : Database} {operationId now stages requestId o c}
    (found : db.operations.find operationId = some o) (consent : consentOf db o = some c)
    {stage} (member : stage ∈ stages) :
    Recorded (appendJoined db operationId now stages requestId) operationId stage.1 := by
  have keyed := Relational.Table.findKey found
  simp only [appendJoined,found,consent]
  exact recordedInsert.mpr (.inr ⟨_,List.mem_map.mpr ⟨stage,member,rfl⟩,by rw [← keyed]; rfl,rfl⟩)

/- An audit writer appends events and changes no other table. -/
def AuditOnly (db after : Database) : Prop := ∃ events, after = insertEvents db events

theorem detailsAuditOnly (db : Database) (operationId eventClass details now) :
    AuditOnly db (appendOperationAuditDetails db operationId eventClass details now) := by
  unfold appendOperationAuditDetails
  split
  · exact ⟨[],by simp [insertEvents]⟩
  · exact ⟨_,rfl⟩

theorem joinedAuditOnly (db : Database) (operationId now stages requestId) :
    AuditOnly db (appendJoined db operationId now stages requestId) := by
  unfold appendJoined
  split
  · exact ⟨[],by simp [insertEvents]⟩
  · split
    · exact ⟨[],by simp [insertEvents]⟩
    · exact ⟨_,rfl⟩

theorem AuditOnly.recorded {db after operationId eventClass} (h : AuditOnly db after)
    (before : Recorded db operationId eventClass) : Recorded after operationId eventClass := by
  obtain ⟨events,rfl⟩ := h
  exact recordedInsert.mpr (.inl before)

end RatatoskrX.Audit
