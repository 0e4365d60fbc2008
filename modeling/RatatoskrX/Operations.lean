import RatatoskrX.Frames

/-! Operation and consent rows under the transactions. Each transaction is one
function on the rows that are there; a claim and a recorded consent add one row. -/
namespace RatatoskrX.Operations
open Outcome Relational Schema Audit Snapshot Writeback Journal Frames Reconciliation

def moved (operationId : Uuid) (guard : OperationStatus) (f : Operation → Operation) (o : Operation) : Operation :=
  if o.id = operationId ∧ o.status = guard then f o else o

def rowAfter (db : Database) : Commit → Operation → Operation
  | .refuseOperation target refusal resetAt => moved target .received (refusedRow refusal resetAt)
  | .completeOperation target observedAt => moved target .received (satisfiedRow observedAt)
  | .completeDryRun target result => moved target .received (dryRunRow result)
  | .consumeConsent target _ _ _ _ => moved target .received inFlightRow
  | .completeConfirmed target account providerPostId action requestId t =>
    moved target .providerInFlight
      (confirmedRow (projectConfirmedBookmark db target account providerPostId action t).2 requestId t)
  | .completeUncertain target requestId => moved target .providerInFlight (uncertainRow requestId)
  | .completeProviderFailure target error => moved target .providerInFlight (failedRow error)
  | .completeRun account run t => settle db account run.snapshotId t
  | _ => fun o => o

theorem movedFind (db : Database) (operationId guard f keeps claims id) :
    (moveOperation db operationId guard f keeps claims).operations.find id =
      (db.operations.find id).map (moved operationId guard f) := by
  refine (Database.operationUpdate db _ f keeps claims id).trans ?_
  congr 1
  funext o
  simp only [moved,Bool.and_eq_true,decide_eq_true_eq]

theorem auditFind {db after} (h : AuditOnly db after) (id) : after.operations.find id = db.operations.find id := by
  obtain ⟨events,rfl⟩ := h
  rfl

theorem claimedFind {db row after} (ok : insertOperation db row = some after) (id) :
    after.operations.find id = if row.id = id then some row else db.operations.find id := by
  unfold insertOperation at ok
  split at ok
  · rename_i free
    cases Option.some.inj ok
    exact Table.findAppend db.operations row free.1 id
  · simp at ok

theorem claimedFresh {db row after} (ok : insertOperation db row = some after) :
    db.operations.find row.id = none ∧ ∀ o ∈ db.operations.rows, o.claim ≠ row.claim := by
  unfold insertOperation at ok
  split at ok
  · rename_i free
    refine ⟨Table.findNone.mpr free.1,?_⟩
    intro o member same
    exact free.2.1 (List.mem_map.mpr ⟨o,member,same⟩)
  · simp at ok

theorem operationAfter {c : Commit} {db after} (applied : c.effect db = some after) (id) :
    after.operations.find id = (db.operations.find id).map (rowAfter db c) ∨
    (∃ row, c = .claimOperation row ∧ row.id = id ∧ db.operations.find id = none ∧
      after.operations.find id = some row) := by
  have agree := frame applied
  cases c with
  | completeRun account run t => exact .inl (committedOperation (accepted applied) id)
  | claimOperation row =>
    have found := claimedFind applied id
    have fresh := claimedFresh applied
    split at found
    · rename_i same
      subst same
      exact .inr ⟨row,rfl,rfl,fresh.1,found⟩
    · rw [found]
      exact .inl (by simp [rowAfter])
  | consumeConsent operationId request action t cost =>
    obtain ⟨consent,_,rfl⟩ := consumedForm applied
    rw [auditFind (joinedAuditOnly ..),movedFind]
    exact .inl rfl
  | completeConfirmed operationId account providerPostId action requestId t =>
    cases Option.some.inj applied
    simp only [completeConfirmed]
    rw [auditFind (joinedAuditOnly ..),movedFind,(projectFrame ..).operations (by simp)]
    exact .inl rfl
  | refuseOperation operationId refusal resetAt =>
    cases Option.some.inj applied
    exact .inl (movedFind ..)
  | completeOperation operationId observedAt =>
    cases Option.some.inj applied
    exact .inl (movedFind ..)
  | completeDryRun operationId result =>
    cases Option.some.inj applied
    exact .inl (movedFind ..)
  | completeUncertain operationId requestId =>
    cases Option.some.inj applied
    exact .inl (movedFind ..)
  | completeProviderFailure operationId error =>
    cases Option.some.inj applied
    exact .inl (movedFind ..)
  | _ =>
    rw [agree.operations (by simp [touched])]
    exact .inl (by simp [rowAfter])

/- The columns that no transition writes. -/
def identity (o : Operation) : Operation :=
  {o with
    status := .received, outcome := none, providerRequestId := none, rateLimitResetAt := none,
    projectionObservedAt := none}

theorem identityColumns {a b : Operation} (same : identity a = identity b) :
    a.executionMode = b.executionMode ∧ a.consentId = b.consentId := by
  have mode := congrArg Operation.executionMode same
  have consent := congrArg Operation.consentId same
  exact ⟨mode,consent⟩

theorem movedIdentity {operationId guard} {f : Operation → Operation} (same : ∀ o, identity (f o) = identity o) (o) :
    identity (moved operationId guard f o) = identity o := by
  unfold moved
  split
  · exact same o
  · rfl

theorem rowIdentity (db c o) : identity (rowAfter db c o) = identity o := by
  cases c with
  | completeRun account run t =>
    simp only [rowAfter,settle]
    split <;> rfl
  | _ =>
    first
      | rfl
      | refine movedIdentity ?_ o
        intro _
        rfl

inductive Moves : OperationStatus → OperationStatus → Prop where
  | refuse : Moves .received .refused
  | preview : Moves .received .dryRun
  | satisfy : Moves .received .succeeded
  | submit : Moves .received .providerInFlight
  | confirm : Moves .providerInFlight .succeeded
  | pend : Moves .providerInFlight .projectionPending
  | fail : Moves .providerInFlight .failed
  | lose : Moves .providerInFlight .uncertain
  | reconcile : Moves .uncertain .reconciledSucceeded
  | retract : Moves .uncertain .reconciledNotCurrent

theorem movedEdge {operationId guard} {f : Operation → Operation} {o}
    (edge : Moves guard (f o).status) :
    moved operationId guard f o = o ∨ Moves o.status (moved operationId guard f o).status := by
  unfold moved
  split
  · rename_i h
    rw [h.2]
    exact .inr edge
  · exact .inl rfl

theorem rowEdge (db c o) : rowAfter db c o = o ∨ Moves o.status (rowAfter db c o).status := by
  cases c with
  | refuseOperation id refusal resetAt => exact movedEdge .refuse
  | completeOperation id observedAt => exact movedEdge .satisfy
  | completeDryRun id result => exact movedEdge .preview
  | consumeConsent id request action t cost => exact movedEdge .submit
  | completeConfirmed id account providerPostId action requestId t =>
    refine movedEdge ?_
    cases (projectConfirmedBookmark db id account providerPostId action t).2
    · exact .pend
    · exact .confirm
  | completeUncertain id requestId => exact movedEdge .lose
  | completeProviderFailure id error => exact movedEdge .fail
  | completeRun account run t =>
    simp only [rowAfter,settle]
    split
    · rename_i selected
      rw [selected.2]
      simp only [settledRow,reconciledStatus]
      split
      · exact .inr .reconcile
      · exact .inr .retract
    · exact .inl rfl
  | _ => exact .inl rfl

/- The operation a transaction moves, if it moves one by name. -/
def target : Commit → Option Uuid
  | .refuseOperation operationId _ _ | .completeOperation operationId _ | .completeDryRun operationId _ | .consumeConsent operationId _ _ _ _
  | .completeConfirmed operationId _ _ _ _ _ | .completeUncertain operationId _ | .completeProviderFailure operationId _ => some operationId
  | _ => none

theorem rowUntouched {db c} {o : Operation} (other : target c ≠ some o.id) (certain : o.status ≠ .uncertain) :
    rowAfter db c o = o := by
  have skip : ∀ {operationId guard f}, some operationId ≠ some o.id → moved operationId guard f o = o := by
    intro operationId guard f different
    unfold moved
    rw [if_neg]
    rintro ⟨same,_⟩
    exact different (by rw [same])
  cases c with
  | completeRun account run t => simp [rowAfter,settle,certain]
  | _ =>
    first
      | rfl
      | exact skip other

def consentRow : Commit → Consent → Consent
  | .consumeConsent _ request _ instant _ => fun c => if c.id = request.consentId then consumedRow instant c else c
  | _ => fun c => c

theorem consentAfter {c : Commit} {db after} (applied : c.effect db = some after) (consentId) :
    after.consents.find consentId = (db.consents.find consentId).map (consentRow c) ∨
    (∃ row now, c = .recordConsent row now ∧ row.id = consentId ∧ db.consents.find consentId = none ∧
      after.consents.find consentId = some row) := by
  have agree := frame applied
  cases c with
  | recordConsent row now =>
    simp only [Commit.effect,insertConsent] at applied
    split at applied
    · rename_i fresh
      cases Option.some.inj applied
      have found := Table.findAppend db.consents row fresh.1 consentId
      split at found
      · rename_i same
        subst same
        exact .inr ⟨row,now,rfl,rfl,Table.findNone.mpr fresh.1,found⟩
      · refine .inl (found.trans ?_)
        simp [consentRow]
    · simp at applied
  | consumeConsent operationId request action t cost =>
    obtain ⟨consent,_,rfl⟩ := consumedForm applied
    have kept := ((moveFrame (markConsumed db request.consentId t) operationId .received inFlightRow
      (fun _ => rfl) (fun _ => rfl)).consents (by simp))
    rw [(auditFrame (joinedAuditOnly ..)).consents (by simp),kept]
    refine .inl ((Table.findUpdate db.consents (fun c => c.id = request.consentId) (consumedRow t)
      (fun _ => rfl) consentId).trans ?_)
    congr 1
    funext c
    simp only [consentRow,decide_eq_true_eq]
  | _ =>
    rw [agree.consents (by simp [touched])]
    exact .inl (by simp [consentRow])

/- The binding of a consent, which nothing rewrites. -/
def binding (c : Consent) : Consent := {c with consumedAt := none}

theorem consentBinding (c x) : binding (consentRow c x) = binding x := by
  cases c with
  | consumeConsent operationId request action t cost =>
    simp only [consentRow]
    split <;> rfl
  | _ => rfl

theorem settledEvents (snapshot t) (selected : List (Operation × Bool)) (db) :
    ∃ more, (selected.foldl (reconcileOperation snapshot t) db).auditEvents = db.auditEvents ++ more := by
  induction selected generalizing db with
  | nil => exact ⟨[],by simp⟩
  | cons head rest ih =>
    obtain ⟨later,same⟩ := ih (reconcileOperation snapshot t db head)
    obtain ⟨events,first⟩ : AuditOnly _ (reconcileOperation snapshot t db head) := joinedAuditOnly ..
    refine ⟨events ++ later,?_⟩
    rw [List.foldl_cons,same,first]
    simp [insertEvents,Database.updateOperations]

theorem eventsAfter {c : Commit} {db after} (applied : c.effect db = some after) :
    ∃ more, after.auditEvents = db.auditEvents ++ more := by
  have agree := frame applied
  have appended : ∀ {a b : Database}, AuditOnly a b → a.auditEvents = db.auditEvents →
      ∃ more, b.auditEvents = db.auditEvents ++ more := by
    rintro a b ⟨events,rfl⟩ same
    exact ⟨events,by simp [insertEvents,same]⟩
  cases c with
  | completeRun account run t =>
    obtain ⟨_,statistics,_,_,_,rfl⟩ := completedForm (accepted applied)
    obtain ⟨more,same⟩ := settledEvents run.snapshotId t
      (uncertainOf (swapped db account run.snapshotId t).1 account run.snapshotId)
      (swapped db account run.snapshotId t).1
    obtain ⟨_,_,_,only⟩ := swappedOnly db account run.snapshotId t
    have outer : ∀ x : Database, (replaceAuthority (clearFullSnapshotRequirement (recordCompletion x run.id
        run.snapshotId t statistics) account t) account run.snapshotId t).auditEvents = x.auditEvents :=
      fun _ => rfl
    rw [outer]
    refine ⟨more,same.trans ?_⟩
    rw [only]
  | recordConsent row now =>
    simp only [Commit.effect,insertConsent] at applied
    split at applied
    · cases Option.some.inj applied
      exact ⟨_,rfl⟩
    · simp at applied
  | consumeConsent operationId request action t cost =>
    obtain ⟨consent,_,rfl⟩ := consumedForm applied
    exact appended (joinedAuditOnly ..) rfl
  | completeConfirmed operationId account providerPostId action requestId t =>
    cases Option.some.inj applied
    refine appended (joinedAuditOnly ..) ?_
    exact (projectFrame ..).auditEvents (by simp)
  | appendAudit operationId eventClass details now =>
    cases Option.some.inj applied
    exact appended (detailsAuditOnly ..) rfl
  | _ => exact ⟨[],by rw [agree.auditEvents (by simp [touched])]; simp⟩

theorem recordedAfter {c : Commit} {db after operationId eventClass} (applied : c.effect db = some after)
    (before : Recorded db operationId eventClass) : Recorded after operationId eventClass := by
  obtain ⟨more,same⟩ := eventsAfter applied
  obtain ⟨e,member,h⟩ := before
  exact ⟨e,by rw [same]; exact List.mem_append_left _ member,h⟩

end RatatoskrX.Operations
