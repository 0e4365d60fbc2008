import RatatoskrX.SyncCalls

/-! execute, dry_run and record_consent as programs. A call keeps the operation it
claimed and the budget unit it holds beside its control point; both are locals of the
source, kept to the end so that a returned call can still be spoken of. -/
namespace RatatoskrX.WriteCalls
open Schema Budget Writeback Journal SyncCalls

inductive WriteOutcome where
  | written (result : BookmarkWriteResult)
  | previewed (result : BookmarkDryRunResult)
  | refused (error : BookmarkWritebackError)
  deriving DecidableEq, Repr

inductive WritePc where
  | claim
  | received (operationId : Uuid)
  | existing
  | audit (operationId : Uuid) (stage : EventClass × Details) (rest : List (EventClass × Details))
      (outcome : WriteOutcome)
  | poll (operationId : Uuid) (remaining : Nat)
  | account (operationId : Uuid) (evaluatedAt : DateTime)
  | credential (operationId : Uuid) (evaluatedAt : DateTime)
  | authorization (operationId : Uuid) (evaluatedAt : DateTime) (scopes : List String)
  | consent (operationId : Uuid) (evaluatedAt : DateTime)
  | observation (operationId : Uuid) (evaluatedAt : DateTime)
  | inspect (operationId : Uuid) (evaluatedAt : DateTime)
  | refuse (operationId : Uuid) (refusal : BookmarkAdmissionRefusal) (resetAt : Option DateTime)
  | satisfy (operationId : Uuid) (observedAt : DateTime)
  | preview (operationId : Uuid) (result : BookmarkDryRunResult)
  | reserve (operationId : Uuid) (evaluatedAt : DateTime)
  | consume (operationId : Uuid) (evaluatedAt : DateTime) (reservation : Reservation)
  | refund (operationId : Uuid) (reservation : Reservation) (error : BookmarkWritebackError)
  | provider (operationId : Uuid) (evaluatedAt : DateTime)
  | awaiting (operationId : Uuid)
  | confirm (operationId : Uuid) (requestId : Option String) (observedAt : DateTime)
  | uncertain (operationId : Uuid) (requestId : Option String)
  | failed (operationId : Uuid) (error : BookmarkProviderError)
  | done (outcome : WriteOutcome)
  deriving DecidableEq, Repr

structure WriteCall where
  mode : ExecutionMode
  action : BookmarkAction
  request : BookmarkWriteRequest
  pc : WritePc
  operation : Option Uuid
  held : Option Reservation
  deriving DecidableEq, Repr

def maxPolls : Nat := 500

/- The audit statements that stand between a call and its return. -/
def auditing (operationId : Uuid) (outcome : WriteOutcome) : List (EventClass × Details) → WritePc
  | [] => .done outcome
  | stage::rest => .audit operationId stage rest outcome

namespace WriteCall

def at_ (call : WriteCall) (pc : WritePc) : WriteCall := {call with pc := pc}

def failing (call : WriteCall) : WriteCall := call.at_ (.done (.refused .query))

/- The two readings of a local admission: a live call acts on it, a dry run reports it. -/
def refusing (call : WriteCall) (operationId : Uuid) (evaluatedAt : DateTime)
    (refusal : BookmarkAdmissionRefusal) (resetAt : Option DateTime) : WriteCall :=
  call.at_ (match call.mode with
    | .live => .refuse operationId refusal resetAt
    | .dryRun => .preview operationId ⟨.wouldRefuse refusal,evaluatedAt,none,resetAt,true⟩)

def satisfying (call : WriteCall) (operationId : Uuid) (evaluatedAt observedAt : DateTime) : WriteCall :=
  call.at_ (match call.mode with
    | .live => .satisfy operationId observedAt
    | .dryRun => .preview operationId ⟨.wouldAlreadySatisfy call.action,evaluatedAt,some observedAt,none,true⟩)

def admitting (call : WriteCall) (operationId : Uuid) (evaluatedAt resetAt : DateTime) : WriteCall :=
  call.at_ (match call.mode with
    | .live => .reserve operationId evaluatedAt
    | .dryRun => .preview operationId ⟨.wouldSubmit call.action,evaluatedAt,none,some resetAt,true⟩)

/-- claim_operation after the insert met an existing claim. -/
def joining (sha256 : List UInt8 → List UInt8) (call : WriteCall) (row : Operation) : WriteCall :=
  if row.requestFingerprint ≠ requestFingerprint sha256 call.request call.action call.mode then
    call.at_ (auditing row.id (.refused .idempotencyConflict) [(.idempotencyConflict,[])])
  else match storedWriteStatus row.status, call.mode with
    | some status, .live => call.at_ (auditing row.id (.written ⟨row.id,status⟩) [(.idempotentReplay,[])])
    | some _, .dryRun => call.at_ (auditing row.id (.refused .operationInProgress) [(.idempotentReplay,[])])
    | none, .live => call.at_ (.poll row.id maxPolls)
    | none, .dryRun => call.at_ (.done (.refused .operationInProgress))

def polling (call : WriteCall) (operationId : Uuid) (remaining : Nat) (status : Option OperationStatus) :
    WriteCall :=
  match status.bind storedWriteStatus with
  | some stored => call.at_ (auditing operationId (.written ⟨operationId,stored⟩) [(.idempotentReplay,[])])
  | none =>
    if remaining ≤ 1 then call.at_ (.done (.refused .operationInProgress))
    else call.at_ (.poll operationId (remaining - 1))

def next (gate : BudgetGate) (sha256 : List UInt8 → List UInt8) (db : Database) (now : DateTime)
    (answer : Answer) (call : WriteCall) : Option (Step WriteCall) :=
  match call.pc with
  | .claim => match validateRequest call.request with
    | .error error => quiet db (call.at_ (.done (.refused error)))
    | .ok () =>
      let row := claimRow sha256 db call.request call.action call.mode
      let claimed := {call with operation := some row.id}
      if (existingOperation db row.accountId row.idempotencyDigest).isSome then
        reading db answer (call.at_ .existing) call.failing
      else transact db answer (.claimOperation row) (claimed.at_ (.received row.id)) call.failing
        (if ((Commit.claimOperation row).effect db).isSome ∧ answer = .lost then claimed.failing else call.failing)
  | .received id =>
    transact db answer (.appendAudit id .requestReceived [] now) (call.at_ (.account id now)) call.failing
      call.failing
  | .existing =>
    match existingOperation db call.request.accountId (sha256Hex sha256 (utf8 call.request.idempotencyKey)) with
    | none => reading db answer call.failing call.failing
    | some row => reading db answer (call.joining sha256 row) call.failing
  | .audit id stage rest outcome =>
    transact db answer (.appendAudit id stage.1 stage.2 now) (call.at_ (auditing id outcome rest)) call.failing
      call.failing
  | .poll id remaining =>
    reading db answer (call.polling id remaining ((db.operations.find id).map Operation.status)) call.failing
  | .account id t =>
    reading db answer
      (match accountState db call.request.internalUserId call.request.accountId with
        | none => call.refusing id t .ownershipMismatch none
        | some .connected => call.at_ (.credential id t)
        | some _ => call.refusing id t .connectionInactive none)
      call.failing
  | .credential id t =>
    reading db answer
      (match credentialScopes db call.request.accountId with
        | none => call.refusing id t .writeAuthorizationRequired none
        | some scopes => call.at_ (.authorization id t scopes))
      call.failing
  | .authorization id t scopes =>
    reading db answer
      (match db.authorizations.find call.request.accountId with
        | none => call.refusing id t .writeAuthorizationRequired none
        | some authorization =>
          if authorization.status ≠ .active then call.refusing id t .writeAuthorizationRequired none
          else if scopesGranted scopes authorization.grantedScopes then call.at_ (.consent id t)
          else call.refusing id t .writeScopeRequired none)
      call.failing
  | .consent id t =>
    reading db answer
      (if (admittingConsent db call.request call.action t).isSome then call.at_ (.observation id t)
        else call.refusing id t .consentRequired none)
      call.failing
  | .observation id t =>
    reading db answer
      (match satisfiedAt call.action
          (Writeback.observation db call.request.accountId call.request.providerPostId) with
        | some observedAt => call.satisfying id t observedAt
        | none => call.at_ (.inspect id t))
      call.failing
  | .inspect id t => match gate.inspect db call.request.accountId 1 now with
    -- The reset instant is computed before the one statement of inspect.
    | .error error => quiet db (call.at_ (.done (.refused (.budget error))))
    | .ok inspection =>
      reading db answer
        (if inspection.eligible then call.admitting id t inspection.resetAt
          else call.refusing id t .budgetExhausted (some inspection.resetAt))
        (call.at_ (.done (.refused (.budget .persistence))))
  | .refuse id refusal resetAt =>
    transact db answer (.refuseOperation id refusal resetAt)
      (call.at_ (auditing id (.refused (admissionRefusalError refusal resetAt))
        [(refusalEvent refusal,refusalDetails refusal resetAt)]))
      call.failing call.failing
  | .satisfy id observedAt =>
    transact db answer (.completeOperation id observedAt)
      (call.at_ (auditing id (.written ⟨id,.alreadySatisfied⟩) satisfiedStages)) call.failing call.failing
  | .preview id result =>
    transact db answer (.completeDryRun id result)
      (call.at_ (auditing id (.previewed result) (dryRunStages result))) call.failing call.failing
  | .reserve id t =>
    charging answer gate db call.request.accountId now
      (fun reservation => {call with pc := .consume id t reservation, held := some reservation})
      (fun error => match error with
        | .exhausted resetAt => call.at_ (.refuse id .budgetExhausted (some resetAt))
        | error => call.at_ (.done (.refused (.budget error))))
      (fun reservation =>
        {call with pc := .done (.refused (.budget .persistence)), held := some reservation})
  | .consume id t reservation =>
    transact db answer (.consumeConsent id call.request call.action t reservation.cost)
      (call.at_ (.provider id t)) (call.at_ (.refund id reservation .consentRequired))
      (call.at_ (.refund id reservation .query))
  | .refund _ reservation error =>
    let released := {call with held := none}
    transact db answer (.refund gate call.request.accountId reservation) (released.at_ (.done (.refused error)))
      call.failing
      (if answer = .lost then released.at_ (.done (.refused (.budget .persistence)))
        else call.at_ (.done (.refused (.budget .persistence))))
  | .provider id t => match answer with
    | .ok => some ⟨db,some (.attempt ⟨id,call.request,call.action,t⟩),call.at_ (.awaiting id)⟩
    | _ => none
  | .awaiting id => match answer with
    | .confirmed evidence =>
      some ⟨db,some (.confirmation id),call.at_ (.confirm id evidence.requestId now)⟩
    | .rejected (.uncertain _ evidence) => quiet db (call.at_ (.uncertain id evidence.requestId))
    | .rejected error => quiet db (call.at_ (.failed id error))
    | _ => none
  | .confirm id requestId observedAt =>
    let updated := (projectConfirmedBookmark db id call.request.accountId call.request.providerPostId call.action
      observedAt).2
    transact db answer
      (.completeConfirmed id call.request.accountId call.request.providerPostId call.action requestId observedAt)
      (call.at_ (.done (.written ⟨id,if updated then .succeeded else .projectionPending⟩))) call.failing
      call.failing
  | .uncertain id requestId =>
    transact db answer (.completeUncertain id requestId)
      (call.at_ (auditing id (.written ⟨id,.uncertain⟩) uncertainStages)) call.failing call.failing
  | .failed id error =>
    transact db answer (.completeProviderFailure id error)
      (call.at_ (auditing id (.refused (.provider error)) (failureStages error))) call.failing call.failing
  | .done _ => none

def commit (gate : BudgetGate) (sha256 : List UInt8 → List UInt8) (db : Database) (now : DateTime)
    (call : WriteCall) : Option Commit :=
  match call.pc with
  | .claim => some (.claimOperation (claimRow sha256 db call.request call.action call.mode))
  | .received id => some (.appendAudit id .requestReceived [] now)
  | .audit id stage _ _ => some (.appendAudit id stage.1 stage.2 now)
  | .refuse id refusal resetAt => some (.refuseOperation id refusal resetAt)
  | .satisfy id observedAt => some (.completeOperation id observedAt)
  | .preview id result => some (.completeDryRun id result)
  | .reserve .. => some (.charge gate call.request.accountId 1 now)
  | .consume id t reservation => some (.consumeConsent id call.request call.action t reservation.cost)
  | .refund _ reservation _ => some (.refund gate call.request.accountId reservation)
  | .confirm id requestId observedAt =>
    some (.completeConfirmed id call.request.accountId call.request.providerPostId call.action requestId observedAt)
  | .uncertain id requestId => some (.completeUncertain id requestId)
  | .failed id error => some (.completeProviderFailure id error)
  | _ => none

end WriteCall

def WriteCall.utters (call : WriteCall) : Option Event :=
  match call.pc with
  | .provider id t => some (.attempt ⟨id,call.request,call.action,t⟩)
  | .awaiting id => some (.confirmation id)
  | _ => none

theorem writeIssues {gate sha256 db now answer} {call : WriteCall} {s}
    (ok : call.next gate sha256 db now answer = some s) :
    Issues db (call.commit gate sha256 db now) answer s ∨
      (s.db = db ∧ s.event.isSome = true ∧ s.event = call.utters) := by
  unfold WriteCall.next at ok
  unfold WriteCall.commit WriteCall.utters
  cases pc : call.pc with
  | claim =>
    simp only [pc] at ok
    split at ok
    · exact .inl (issuesQuiet ok)
    · split at ok
      · exact .inl (issuesReading ok)
      · exact .inl (issuesTransact ok)
  | existing =>
    simp only [pc] at ok
    split at ok
    · exact .inl (issuesReading ok)
    · exact .inl (issuesReading ok)
  | inspect id t =>
    simp only [pc] at ok
    split at ok
    · exact .inl (issuesQuiet ok)
    · exact .inl (issuesReading ok)
  | provider id t =>
    simp only [pc] at ok
    split at ok
    · cases Option.some.inj ok
      exact .inr ⟨rfl,rfl,rfl⟩
    · simp at ok
  | awaiting id =>
    simp only [pc] at ok
    split at ok
    · cases Option.some.inj ok
      exact .inr ⟨rfl,rfl,rfl⟩
    · exact .inl (issuesQuiet ok)
    · exact .inl (issuesQuiet ok)
    · simp at ok
  | reserve id t =>
    simp only [pc] at ok
    exact .inl (issuesCharging ok)
  | done outcome => simp [pc] at ok
  | _ =>
    simp only [pc] at ok
    first
      | exact .inl (issuesTransact ok)
      | exact .inl (issuesReading ok)

inductive ConsentPc where
  | account
  | insert (now : DateTime) (expiresAt : DateTime)
  | done (result : Except BookmarkWritebackError Consent)

structure ConsentCall where
  internalUserId : Uuid
  accountId : Uuid
  action : BookmarkAction
  providerPostId : String
  approvedAt : DateTime
  surface : ConsentSurfaceId
  pc : ConsentPc

/-- record_consent; identity is the fresh id the insert draws. -/
def ConsentCall.next (lifetime : Int) (identity : Uuid) (db : Database) (now : DateTime) (answer : Answer)
    (call : ConsentCall) : Option (Step ConsentCall) :=
  let failing (error : BookmarkWritebackError) : ConsentCall := {call with pc := .done (.error error)}
  match call.pc with
  | .account => match validateProviderPostId call.providerPostId with
    | .error error => quiet db (failing error)
    | .ok () =>
      reading db answer
        (match accountState db call.internalUserId call.accountId with
          | none => failing .ownershipMismatch
          | some .connected => match call.approvedAt.checkedAddSigned lifetime with
            | none => failing .invalidApprovalInstant
            | some expiresAt =>
              if now < call.approvedAt ∨ expiresAt ≤ now then failing .invalidApprovalInstant
              else {call with pc := .insert now expiresAt}
          | some _ => failing .connectionInactive)
        (failing .query)
  | .insert recordedAt expiresAt =>
    let row : Consent := ⟨identity,call.accountId,call.internalUserId,call.action,call.providerPostId,
      call.approvedAt,expiresAt,call.surface.value,none⟩
    transact db answer (.recordConsent row recordedAt) {call with pc := .done (.ok row)} (failing .query)
      (failing .query)
  | .done _ => none

def ConsentCall.commit (identity : Uuid) (call : ConsentCall) : Option Commit :=
  match call.pc with
  | .insert recordedAt expiresAt => some (.recordConsent ⟨identity,call.accountId,call.internalUserId,call.action,
      call.providerPostId,call.approvedAt,expiresAt,call.surface.value,none⟩ recordedAt)
  | _ => none

theorem consentIssues {lifetime identity db now answer} {call : ConsentCall} {s}
    (ok : call.next lifetime identity db now answer = some s) :
    Issues db (call.commit identity) answer s := by
  unfold ConsentCall.next at ok
  unfold ConsentCall.commit
  cases pc : call.pc with
  | account =>
    simp only [pc] at ok
    split at ok
    · exact issuesQuiet ok
    · exact issuesReading ok
  | insert recordedAt expiresAt =>
    simp only [pc] at ok
    exact issuesTransact ok
  | done result => simp [pc] at ok

end RatatoskrX.WriteCalls
