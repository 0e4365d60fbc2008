import RatatoskrX.Folders
import RatatoskrX.Writeback

/-! Every transaction of the modelled services, under one name each, with its effect
on the archive, and the shape of one step of a service call. A statement outside a
transaction is a transaction of its own. The log of a system is the list of what was
committed and of what was sent to the provider, in order. -/
namespace RatatoskrX.Journal
open Relational Schema Audit Budget Snapshot Folders Writeback

inductive Commit where
  | createRun (account : Uuid)
  | resumeRun (runId : Uuid)
  | stagePage (run : Run) (page : BookmarkPage) (observedAt : DateTime) (fetchedAt : Nat)
  | markFailed (runId : Uuid) (failedAt : DateTime)
  | completeRun (account : Uuid) (run : Run) (completedAt : DateTime)
  | createScan (account : Uuid)
  | observePage (account runId : Uuid) (page : BookmarkPage) (observedAt : DateTime)
  | completeScan (runId : Uuid) (watermark : Option String) (completedAt : DateTime)
  | markGap (account runId : Uuid) (observedAt : DateTime)
  | stopScan (account runId : Uuid) (outcome : IncrementalResult) (observedAt : DateTime)
  | createFolderRun (account : Uuid) (folder : NativeFolder)
  | createLimitRun (account : Uuid) (capability : FolderCapability)
  | stageFolderPage (run : FolderRun) (page : BookmarkPage) (observedAt : DateTime)
  | completeFolderRun (run : FolderRun) (completedAt : DateTime)
  | markCapabilityLimited (runId : Uuid) (capability : FolderCapability) (recordedAt : DateTime)
  | charge (gate : BudgetGate) (account : Uuid) (cost : UInt32) (now : DateTime)
  | refund (gate : BudgetGate) (account : Uuid) (reservation : Reservation)
  | recordConsent (consent : Consent) (now : DateTime)
  | claimOperation (operation : Operation)
  | refuseOperation (operationId : Uuid) (refusal : BookmarkAdmissionRefusal) (resetAt : Option DateTime)
  | completeOperation (operationId : Uuid) (observedAt : DateTime)
  | consumeConsent (operationId : Uuid) (request : BookmarkWriteRequest) (action : BookmarkAction)
      (instant : DateTime) (cost : UInt32)
  | completeConfirmed (operationId account : Uuid) (providerPostId : String) (action : BookmarkAction)
      (requestId : Option String) (observedAt : DateTime)
  | completeUncertain (operationId : Uuid) (requestId : Option String)
  | completeProviderFailure (operationId : Uuid) (error : BookmarkProviderError)
  | completeDryRun (operationId : Uuid) (result : BookmarkDryRunResult)
  | appendAudit (operationId : Uuid) (eventClass : EventClass) (details : Details) (now : DateTime)
  | connectAccount (account : Account)
  | storeCredential (credential : Credential)
  | storeAuthorization (authorization : WriteAuthorization)
  | persistPosts (providerIds : List String)

namespace Commit

/-- none is a transaction that does not commit: a refusal of its own, or a violated constraint. -/
def effect (c : Commit) (db : Database) : Option Database :=
  match c with
  | createRun account => (Snapshot.createRun db account).map Prod.fst
  | resumeRun runId => some (markRunning db runId)
  | stagePage run page observedAt _ => (Snapshot.stagePage db run page observedAt).toOption
  | markFailed runId failedAt => some (Snapshot.markFailed db runId failedAt)
  | completeRun account run completedAt => (Snapshot.completeRun db account run completedAt).toOption
  | createScan account => (Incremental.createRun db account).map Prod.fst
  | observePage account runId page observedAt =>
    (Incremental.observePage db account runId page observedAt).toOption
  | completeScan runId watermark completedAt => Incremental.completeRun db runId watermark completedAt
  | markGap account runId observedAt => some (Incremental.markGap db account runId observedAt)
  | stopScan account runId outcome observedAt => some (Incremental.stopRun db account runId outcome observedAt)
  | createFolderRun account folder => (Folders.createRun db account folder).map Prod.fst
  | createLimitRun account capability =>
    if (db.accounts.find account).isSome then some (insertSyncRun db account (folderRunType capability)).1
    else none
  | stageFolderPage run page observedAt => (Folders.stagePage db run page observedAt).toOption
  | completeFolderRun run completedAt => (Folders.completeRun db run completedAt).toOption
  | markCapabilityLimited runId capability recordedAt =>
    Folders.markCapabilityLimited db runId capability recordedAt
  | charge gate account cost now => ((gate.reserve db account cost now).toOption).map Prod.fst
  | refund gate account reservation => some (gate.refund db account reservation.windowStart reservation.cost)
  | recordConsent consent now => insertConsent db consent now
  | claimOperation operation => insertOperation db operation
  | refuseOperation operationId refusal resetAt => some (Writeback.refuseOperation db operationId refusal resetAt)
  | completeOperation operationId observedAt => some (Writeback.completeOperation db operationId observedAt)
  | consumeConsent operationId request action instant cost =>
    Writeback.consumeConsent db operationId request action instant cost
  | completeConfirmed operationId account providerPostId action requestId observedAt =>
    some (Writeback.completeConfirmed db operationId account providerPostId action requestId observedAt)
  | completeUncertain operationId requestId => some (Writeback.completeUncertain db operationId requestId)
  | completeProviderFailure operationId error => some (Writeback.completeProviderFailure db operationId error)
  | completeDryRun operationId result => some (Writeback.completeDryRun db operationId result)
  | appendAudit operationId eventClass details now =>
    some (appendOperationAuditDetails db operationId eventClass details now)
  | connectAccount account =>
    some {db with accounts := db.accounts.upsert account (fun a => {account with id := a.id}) (fun _ => rfl)}
  | storeCredential credential =>
    some {db with
      credentials := db.credentials.upsert credential (fun c => {credential with id := c.id}) (fun _ => rfl)}
  | storeAuthorization authorization =>
    some {db with
      authorizations := db.authorizations.upsert authorization
        (fun a => {authorization with accountId := a.accountId}) (fun _ => rfl)}
  | persistPosts providerIds => some (Snapshot.persistPosts db providerIds).1

end Commit

structure Attempt where
  operationId : Uuid
  request : BookmarkWriteRequest
  action : BookmarkAction
  evaluatedAt : DateTime
  deriving DecidableEq, Repr

inductive Event where
  | commit (commit : Commit)
  | attempt (attempt : Attempt)
  | confirmation (operationId : Uuid)

/- What the environment answers where a call awaits: a statement succeeds, fails
without effect, or commits with its acknowledgement lost; a source returns a page or
not; the provider answers a mutation. -/
inductive Answer where
  | ok | fault | lost
  | page (page : BookmarkPage)
  | unavailable
  | limited (capability : FolderCapability)
  | confirmed (evidence : BookmarkProviderEvidence)
  | rejected (error : BookmarkProviderError)
  deriving DecidableEq, Repr

structure Step (π : Type) where
  db : Database
  event : Option Event
  next : π

def Step.map {π σ : Type} (f : π → σ) (s : Step π) : Step σ := ⟨s.db,s.event,f s.next⟩

section Steps
variable {π : Type} (db : Database)

def quiet (next : π) : Option (Step π) := some ⟨db,none,next⟩

def reading (answer : Answer) (next faulted : π) : Option (Step π) :=
  match answer with
  | .ok => quiet db next
  | .fault | .lost => quiet db faulted
  | _ => none

/- A transaction: next where it commits and is acknowledged, refused where it does not
commit by itself, faulted where the statement or its acknowledgement fails. -/
def transact (answer : Answer) (c : Commit) (next refused faulted : π) : Option (Step π) :=
  match answer with
  | .ok => match c.effect db with
    | some after => some ⟨after,some (.commit c),next⟩
    | none => quiet db refused
  | .fault => quiet db faulted
  | .lost => match c.effect db with
    | some after => some ⟨after,some (.commit c),faulted⟩
    | none => quiet db faulted
  | _ => none

end Steps

theorem quietCases {π db} {next : π} {s} (ok : quiet db next = some s) : s = ⟨db,none,next⟩ :=
  (Option.some.inj ok).symm

theorem readingCases {π db answer} {next faulted : π} {s} (ok : reading db answer next faulted = some s) :
    (answer = .ok ∧ s = ⟨db,none,next⟩) ∨ ((answer = .fault ∨ answer = .lost) ∧ s = ⟨db,none,faulted⟩) := by
  unfold reading at ok
  split at ok
  · exact .inl ⟨rfl,quietCases ok⟩
  · exact .inr ⟨.inl rfl,quietCases ok⟩
  · exact .inr ⟨.inr rfl,quietCases ok⟩
  · simp at ok

theorem transactCases {π db answer c} {next refused faulted : π} {s}
    (ok : transact db answer c next refused faulted = some s) :
    (∃ after, c.effect db = some after ∧ ((answer = .ok ∧ s = ⟨after,some (.commit c),next⟩) ∨
      (answer = .lost ∧ s = ⟨after,some (.commit c),faulted⟩))) ∨
    (answer = .ok ∧ c.effect db = none ∧ s = ⟨db,none,refused⟩) ∨
    ((answer = .fault ∨ answer = .lost ∧ c.effect db = none) ∧ s = ⟨db,none,faulted⟩) := by
  unfold transact at ok
  split at ok
  · split at ok
    · rename_i after applied
      exact .inl ⟨after,applied,.inl ⟨rfl,(Option.some.inj ok).symm⟩⟩
    · rename_i refused
      exact .inr (.inl ⟨rfl,refused,quietCases ok⟩)
  · exact .inr (.inr ⟨.inl rfl,quietCases ok⟩)
  · split at ok
    · rename_i after applied
      exact .inl ⟨after,applied,.inr ⟨rfl,(Option.some.inj ok).symm⟩⟩
    · rename_i refused
      exact .inr (.inr ⟨.inr ⟨rfl,refused⟩,quietCases ok⟩)
  · simp at ok

end RatatoskrX.Journal
