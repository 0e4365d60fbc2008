import Mathlib.Algebra.Group.Nat.Defs
import RatatoskrX.Snapshot

/-! Bookmark write-back: its closed vocabulary, the request fingerprint, the reads of
local admission and the statements that move an operation. SHA-256 is a parameter;
nothing is assumed of it here. -/
namespace RatatoskrX.Writeback
open Relational Schema Audit Budget

structure BookmarkWriteRequest where
  internalUserId : Uuid
  accountId : Uuid
  consentId : Uuid
  providerPostId : String
  idempotencyKey : String
  deriving DecidableEq, Repr

inductive BookmarkWriteStatus where
  | succeeded | alreadySatisfied | uncertain | projectionPending | reconciledNotCurrent
  deriving DecidableEq, Repr

structure BookmarkWriteResult where
  operationId : Uuid
  status : BookmarkWriteStatus
  deriving DecidableEq, Repr

inductive BookmarkAdmissionRefusal where
  | ownershipMismatch | connectionInactive | writeAuthorizationRequired | writeScopeRequired
  | consentRequired | budgetExhausted
  deriving DecidableEq, Repr

inductive BookmarkDryRunOutcome where
  | wouldSubmit (action : BookmarkAction)
  | wouldAlreadySatisfy (action : BookmarkAction)
  | wouldRefuse (refusal : BookmarkAdmissionRefusal)
  deriving DecidableEq, Repr

structure BookmarkDryRunResult where
  outcome : BookmarkDryRunOutcome
  evaluatedAt : DateTime
  observedAt : Option DateTime
  budgetResetAt : Option DateTime
  advisory : Bool
  deriving DecidableEq, Repr

structure BookmarkProviderEvidence where
  requestId : Option String
  deriving DecidableEq, Repr

inductive BookmarkProviderError where
  | unavailable | credentialUnavailable | credentialScopeRequired | credentialInvalid | transient
  | authorizationLost (evidence : BookmarkProviderEvidence)
  | rateLimited (resetEpochSeconds : Option Int) (evidence : BookmarkProviderEvidence)
  | definiteRefusal (status : UInt16) (evidence : BookmarkProviderEvidence)
  | uncertain (status : Option UInt16) (evidence : BookmarkProviderEvidence)
  deriving DecidableEq, Repr

inductive BookmarkWritebackError where
  | ownershipMismatch | connectionInactive | writeAuthorizationRequired | writeScopeRequired | consentRequired
  | idempotencyConflict | operationInProgress | invalidIdempotencyKey | invalidTarget | invalidSurface
  | invalidApprovalInstant
  | budget (error : BudgetError)
  | invalidBudgetEvidence
  | provider (error : BookmarkProviderError)
  | query
  deriving DecidableEq, Repr

def utf8 (s : String) : List UInt8 := s.toUTF8.data.toList

def surfaceLead (c : Char) : Bool := c.isLower || c.isDigit

def surfaceValid (value : String) : Bool :=
  match value.toList with
  | [] => false
  | first::rest => value.utf8ByteSize ≤ 64 && surfaceLead first &&
      rest.all (fun c => surfaceLead c || c = '.' || c = '_' || c = '-')

structure ConsentSurfaceId where
  value : String
  valid : surfaceValid value = true
  deriving DecidableEq, Repr

def ConsentSurfaceId.parse (value : String) : Except BookmarkWritebackError ConsentSurfaceId :=
  if valid : surfaceValid value = true then .ok ⟨value,valid⟩ else .error .invalidSurface

def actionName : BookmarkAction → String
  | .add => "add"
  | .remove => "remove"

def modeName : ExecutionMode → String
  | .live => "live"
  | .dryRun => "dry_run"

def validateProviderPostId (providerPostId : String) : Except BookmarkWritebackError Unit :=
  if 1 ≤ providerPostId.utf8ByteSize ∧ providerPostId.utf8ByteSize ≤ 19 ∧
      providerPostId.toList.all Char.isDigit = true then .ok ()
  else .error .invalidTarget

def validateRequest (request : BookmarkWriteRequest) : Except BookmarkWritebackError Unit := do
  validateProviderPostId request.providerPostId
  if request.idempotencyKey.utf8ByteSize = 0 ∨ 256 < request.idempotencyKey.utf8ByteSize then
    throw .invalidIdempotencyKey

section Fingerprint
variable (sha256 : List UInt8 → List UInt8)

def hexDigit (n : Nat) : Char := "0123456789abcdef".toList.getD n '0'

def hexDigest (value : List UInt8) : String :=
  String.ofList (value.flatMap (fun byte => [hexDigit (byte.toNat / 16),hexDigit (byte.toNat % 16)]))

def sha256Hex (value : List UInt8) : Digest := hexDigest (sha256 value)

/-- Uuid::to_string: the hyphenated lower-case form of the 128-bit value. -/
def uuidText (u : Uuid) : String :=
  let digits := (List.range 32).map (fun i => hexDigit (u / 16 ^ (31 - i) % 16))
  String.ofList (digits.take 8 ++ ['-'] ++ (digits.drop 8).take 4 ++ ['-'] ++ (digits.drop 12).take 4 ++ ['-'] ++
    (digits.drop 16).take 4 ++ ['-'] ++ digits.drop 20)

/-- (len as u64).to_be_bytes() -/
def lengthPrefix (n : Nat) : List UInt8 :=
  (List.range 8).map (fun i => UInt8.ofNat (n % 2 ^ 64 / 256 ^ (7 - i)))

def fingerprintInput (parts : List (List UInt8)) : List UInt8 :=
  utf8 "ratatoskr-x-bookmark-write" ++ [0] ++ parts.flatMap (fun part => lengthPrefix part.length ++ part)

def fingerprintParts (parts : List (List UInt8)) : Digest := hexDigest (sha256 (fingerprintInput parts))

def requestFingerprint (request : BookmarkWriteRequest) (action : BookmarkAction) (mode : ExecutionMode) :
    Digest :=
  fingerprintParts sha256
    [utf8 (uuidText request.internalUserId),utf8 (uuidText request.accountId),utf8 (actionName action),
      utf8 request.providerPostId,utf8 (uuidText request.consentId),utf8 (modeName mode)]

def requestedRow (request : BookmarkWriteRequest) (action : BookmarkAction) (mode : ExecutionMode)
    (operationId : Uuid) (consentId : Option Uuid) : Operation where
  id := operationId
  accountId := request.accountId
  internalUserId := request.internalUserId
  consentId := consentId
  action := action
  providerPostId := request.providerPostId
  executionMode := mode
  idempotencyDigest := sha256Hex sha256 (utf8 request.idempotencyKey)
  requestFingerprint := requestFingerprint sha256 request action mode
  status := .received
  outcome := none
  providerRequestId := none
  rateLimitResetAt := none
  projectionObservedAt := none

/-- The row that claim_operation offers; the consent is the one that exists at the claim. -/
def claimRow (db : Database) (request : BookmarkWriteRequest) (action : BookmarkAction) (mode : ExecutionMode) :
    Operation :=
  requestedRow sha256 request action mode (freshId (db.operations.rows.map Operation.id))
    ((db.consents.find request.consentId).map Consent.id)

end Fingerprint

def existingOperation (db : Database) (account : Uuid) (digest : Digest) : Option Operation :=
  db.operations.rows.find? (fun o => o.claim = (account,digest))

/-- The insert of claim_operation, where no row holds the claim and the account exists. -/
def insertOperation (db : Database) (row : Operation) : Option Database :=
  if free : row.id ∉ db.operations.rows.map Operation.id ∧
      row.claim ∉ db.operations.rows.map Operation.claim ∧ (db.accounts.find row.accountId).isSome then
    some {db with
      operations := db.operations.append row free.1
      operationClaims := db.operationClaims.append free.2.1}
  else none

def storedWriteStatus : OperationStatus → Option BookmarkWriteStatus
  | .succeeded | .reconciledSucceeded => some .succeeded
  | .projectionPending => some .projectionPending
  | .uncertain => some .uncertain
  | .reconciledNotCurrent => some .reconciledNotCurrent
  | _ => none

def accountState (db : Database) (owner account : Uuid) : Option AccountState :=
  (db.accounts.find account).bind (fun a => if a.internalUserId = owner then some a.state else none)

/- order by created_at desc, id desc limit 1 -/
def laterCredential (best : Option Credential) (c : Credential) : Option Credential :=
  match best with
  | none => some c
  | some b => if b.createdAt < c.createdAt ∨ (b.createdAt = c.createdAt ∧ b.id < c.id) then some c else some b

def credentialScopes (db : Database) (account : Uuid) : Option (List String) :=
  ((db.credentials.rows.filter (fun c => c.accountId = account && c.status = .active)).foldl laterCredential
    none).map Credential.grantedScopes

def requiredScopes : List String :=
  ["users.read","tweet.read","bookmark.read","offline.access","bookmark.write"]

def scopesGranted (credential authorization : List String) : Bool :=
  requiredScopes.all (fun scope => credential.contains scope && authorization.contains scope)

def consentAdmits (request : BookmarkWriteRequest) (action : BookmarkAction) (instant : DateTime) (c : Consent) :
    Bool :=
  c.id = request.consentId && c.internalUserId = request.internalUserId && c.accountId = request.accountId &&
    c.action = action && c.providerPostId = request.providerPostId && c.consumedAt = none &&
    decide (instant < c.expiresAt)

def admittingConsent (db : Database) (request : BookmarkWriteRequest) (action : BookmarkAction)
    (instant : DateTime) : Option Consent :=
  (db.consents.find request.consentId).filter (consentAdmits request action instant)

def observation (db : Database) (account : Uuid) (providerPostId : String) :
    Option (DateTime × Option DateTime) := do
  let post ← db.postId providerPostId
  let b ← db.bookmark account post
  some (b.lastObservedSavedAt,b.observedRemovedAt)

/-- The stored observation that already proves the requested state. -/
def satisfiedAt (action : BookmarkAction) : Option (DateTime × Option DateTime) → Option DateTime
  | some (savedAt,none) => if action = .add then some savedAt else none
  | some (_,some removedAt) => if action = .remove then some removedAt else none
  | none => none

def refusalOutcome : BookmarkAdmissionRefusal → String
  | .ownershipMismatch => "ownership_mismatch"
  | .connectionInactive => "connection_inactive"
  | .writeAuthorizationRequired => "write_authorization_required"
  | .writeScopeRequired => "write_scope_required"
  | .consentRequired => "consent_required"
  | .budgetExhausted => "budget_exhausted"

def refusalEvent : BookmarkAdmissionRefusal → EventClass
  | .budgetExhausted => .budgetRefused
  | _ => .gateRefused

def refusalDetails (refusal : BookmarkAdmissionRefusal) : Option DateTime → Details
  | none => [("refusal",.text (refusalOutcome refusal))]
  | some resetAt => [("refusal",.text (refusalOutcome refusal)),("reset_at",.instant resetAt)]

def admissionRefusalError : BookmarkAdmissionRefusal → Option DateTime → BookmarkWritebackError
  | .ownershipMismatch,_ => .ownershipMismatch
  | .connectionInactive,_ => .connectionInactive
  | .writeAuthorizationRequired,_ => .writeAuthorizationRequired
  | .writeScopeRequired,_ => .writeScopeRequired
  | .consentRequired,_ => .consentRequired
  | .budgetExhausted,some resetAt => .budget (.exhausted resetAt)
  | .budgetExhausted,none => .invalidBudgetEvidence

def dryRunOutcomeToken : BookmarkDryRunOutcome → String
  | .wouldSubmit .add => "would_add"
  | .wouldSubmit .remove => "would_remove"
  | .wouldAlreadySatisfy .add => "already_added"
  | .wouldAlreadySatisfy .remove => "already_removed"
  | .wouldRefuse .ownershipMismatch => "refused_ownership"
  | .wouldRefuse .connectionInactive => "refused_connection"
  | .wouldRefuse .writeAuthorizationRequired => "refused_authorization"
  | .wouldRefuse .writeScopeRequired => "refused_scope"
  | .wouldRefuse .consentRequired => "refused_consent"
  | .wouldRefuse .budgetExhausted => "refused_budget"

def providerFailureEvidence : BookmarkProviderError → String × Option String × Option DateTime
  | .unavailable => ("provider_unavailable",none,none)
  | .credentialUnavailable => ("credential_unavailable",none,none)
  | .credentialScopeRequired => ("credential_scope_required",none,none)
  | .credentialInvalid => ("credential_invalid",none,none)
  | .transient => ("transient_before_contact",none,none)
  | .authorizationLost evidence => ("authorization_lost",evidence.requestId,none)
  | .rateLimited reset evidence =>
    ("rate_limited",evidence.requestId,reset.bind (fun seconds => DateTime.ofMicros (seconds * 1000000)))
  | .definiteRefusal _ evidence => ("definite_refusal",evidence.requestId,none)
  | .uncertain _ evidence => ("uncertain",evidence.requestId,none)

/- Every transition of an operation is an update of its row under a guard on its status. -/
def moveOperation (db : Database) (operationId : Uuid) (guard : OperationStatus) (f : Operation → Operation)
    (keeps : ∀ o, (f o).id = o.id) (claim : ∀ o, (f o).claim = o.claim) : Database :=
  db.updateOperations (fun o => o.id = operationId && o.status = guard) f keeps claim

abbrev refusedRow (refusal : BookmarkAdmissionRefusal) (resetAt : Option DateTime) (o : Operation) : Operation :=
  {o with status := .refused, outcome := some (refusalOutcome refusal), rateLimitResetAt := resetAt}

def refuseOperation (db : Database) (operationId : Uuid) (refusal : BookmarkAdmissionRefusal)
    (resetAt : Option DateTime) : Database :=
  moveOperation db operationId .received (refusedRow refusal resetAt) (fun _ => rfl) (fun _ => rfl)

abbrev satisfiedRow (observedAt : DateTime) (o : Operation) : Operation :=
  {o with status := .succeeded, outcome := some "already_satisfied", projectionObservedAt := some observedAt}

/-- complete_operation, whose one caller passes 'succeeded' and 'already_satisfied'. -/
def completeOperation (db : Database) (operationId : Uuid) (observedAt : DateTime) : Database :=
  moveOperation db operationId .received (satisfiedRow observedAt) (fun _ => rfl) (fun _ => rfl)

abbrev dryRunRow (result : BookmarkDryRunResult) (o : Operation) : Operation :=
  {o with
    status := .dryRun, outcome := some (dryRunOutcomeToken result.outcome),
    rateLimitResetAt := result.budgetResetAt, projectionObservedAt := result.observedAt}

def completeDryRun (db : Database) (operationId : Uuid) (result : BookmarkDryRunResult) : Database :=
  moveOperation db operationId .received (dryRunRow result) (fun _ => rfl) (fun _ => rfl)

def dryRunStages (result : BookmarkDryRunResult) : List (EventClass × Details) :=
  let gate : EventClass × Details := match result.outcome with
    | .wouldRefuse .budgetExhausted => (.budgetRefused,
        [("mode",.text "dry_run"),("reset_at",result.budgetResetAt.elim .null .instant)])
    | .wouldRefuse refusal => (.gateRefused,
        [("mode",.text "dry_run"),("refusal",.text (dryRunOutcomeToken (.wouldRefuse refusal)))])
    | _ => (.gateAdmitted,[("mode",.text "dry_run")])
  [gate,(.dryRunCompleted,[])]

abbrev inFlightRow (o : Operation) : Operation := {o with status := .providerInFlight}

abbrev consumedRow (instant : DateTime) (c : Consent) : Consent := {c with consumedAt := some instant}

def markConsumed (db : Database) (consentId : Uuid) (instant : DateTime) : Database :=
  {db with consents := db.consents.update (fun c => c.id = consentId) (consumedRow instant) (fun _ => rfl)}

def admissionStages (cost : UInt32) : List (EventClass × Details) :=
  [(.gateAdmitted,[]),
    (.providerAttempted,[("budget_class",.text "bookmark_write"),("cost",.number (min (cost.toNat : Int) maxI32))])]

/-- The transaction of consume_consent; none where the locking select finds no row. -/
def consumeConsent (db : Database) (operationId : Uuid) (request : BookmarkWriteRequest) (action : BookmarkAction)
    (instant : DateTime) (cost : UInt32) : Option Database := do
  let _ ← admittingConsent db request action instant
  let moved := moveOperation (markConsumed db request.consentId instant) operationId .received inFlightRow
    (fun _ => rfl) (fun _ => rfl)
  some (appendJoined moved operationId instant (admissionStages cost) (fun _ => none))

abbrev addedRow (operationId : Uuid) (observedAt : DateTime) (b : Bookmark) : Bookmark :=
  {b with
    lastObservedSavedAt := observedAt, observedRemovedAt := none, observedRemovedSnapshotId := none,
    lastWriteOperationId := some operationId, lastWriteObservedAt := some observedAt,
    observedRemovedWriteOperationId := none}

abbrev removedRow (operationId : Uuid) (observedAt : DateTime) (b : Bookmark) : Bookmark :=
  {b with
    observedRemovedAt := some observedAt, observedRemovedSnapshotId := none,
    observedRemovedWriteOperationId := some operationId}

/-- project_confirmed_bookmark, with whether it updated the projection. -/
def projectConfirmedBookmark (db : Database) (operationId account : Uuid) (providerPostId : String)
    (action : BookmarkAction) (observedAt : DateTime) : Database × Bool :=
  match db.postId providerPostId with
  | none => (db,false)
  | some post => match action with
    | .add =>
      (db.upsertBookmark
        ⟨0,account,post,observedAt,observedAt,none,none,some operationId,some observedAt,none,none⟩
        (addedRow operationId observedAt) (fun _ => rfl) (fun _ => rfl),true)
    | .remove =>
      (db.updateBookmarks (fun b => b.key = (account,post)) (removedRow operationId observedAt) (fun _ => rfl)
        (fun _ => rfl),(db.bookmark account post).isSome)

abbrev confirmedRow (updated : Bool) (requestId : Option String) (observedAt : DateTime) (o : Operation) :
    Operation :=
  {o with
    status := if updated then .succeeded else .projectionPending, outcome := some "confirmed",
    providerRequestId := requestId, projectionObservedAt := if updated then some observedAt else none}

def confirmedStages (updated : Bool) : List (EventClass × Details) :=
  let details : Details :=
    [("result",.text "confirmed"),("projection",.text (if updated then "updated" else "pending"))]
  [(.providerClassified,details),(.projectionReconciled,details),(.operationCompleted,details)]

/-- The transaction of complete_confirmed. -/
def completeConfirmed (db : Database) (operationId account : Uuid) (providerPostId : String)
    (action : BookmarkAction) (requestId : Option String) (observedAt : DateTime) : Database :=
  let projected := projectConfirmedBookmark db operationId account providerPostId action observedAt
  let moved := moveOperation projected.1 operationId .providerInFlight
    (confirmedRow projected.2 requestId observedAt) (fun _ => rfl) (fun _ => rfl)
  appendJoined moved operationId observedAt (confirmedStages projected.2) (fun _ => requestId)

abbrev uncertainRow (requestId : Option String) (o : Operation) : Operation :=
  {o with status := .uncertain, outcome := some "uncertain", providerRequestId := requestId}

def completeUncertain (db : Database) (operationId : Uuid) (requestId : Option String) : Database :=
  moveOperation db operationId .providerInFlight (uncertainRow requestId) (fun _ => rfl) (fun _ => rfl)

def uncertainStages : List (EventClass × Details) :=
  [.providerClassified,.outcomeUncertain,.operationCompleted].map (fun c => (c,[("result",.text "uncertain")]))

abbrev failedRow (error : BookmarkProviderError) (o : Operation) : Operation :=
  {o with
    status := .failed, outcome := some (providerFailureEvidence error).1,
    providerRequestId := (providerFailureEvidence error).2.1,
    rateLimitResetAt := (providerFailureEvidence error).2.2}

def completeProviderFailure (db : Database) (operationId : Uuid) (error : BookmarkProviderError) : Database :=
  moveOperation db operationId .providerInFlight (failedRow error) (fun _ => rfl) (fun _ => rfl)

def failureStages (error : BookmarkProviderError) : List (EventClass × Details) :=
  [.providerClassified,.operationCompleted].map (fun c => (c,[("result",.text (providerFailureEvidence error).1)]))

def satisfiedStages : List (EventClass × Details) :=
  [(.gateAdmitted,[("result",.text "already_satisfied")]),
    (.projectionReconciled,[("projection",.text "already_satisfied")]),
    (.operationCompleted,[("result",.text "already_satisfied")])]

/-- The transaction of record_consent. -/
def insertConsent (db : Database) (row : Consent) (now : DateTime) : Option Database :=
  if fresh : row.id ∉ db.consents.rows.map Consent.id ∧ (db.accounts.find row.accountId).isSome then
    some (insertEvents {db with consents := db.consents.append row fresh.1}
      [⟨0,row.accountId,none,some row.id,row.internalUserId,row.action,row.providerPostId,row.surface,
        .consentRecorded,now,none,none,none,
        [("approved_at",.instant row.approvedAt),("expires_at",.instant row.expiresAt)]⟩])
  else none

end RatatoskrX.Writeback
