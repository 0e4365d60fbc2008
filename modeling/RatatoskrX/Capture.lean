import Mathlib.Algebra.Group.Int.Defs
import Mathlib.Data.List.Sort
import RatatoskrX.Foundation.ReadCommitted
import RatatoskrX.Envelopes
import RatatoskrX.Permalink

/-! The explicit capture lane, statement by statement: any number of command deliveries
and resolution workers over one database. A queued envelope is a row of its own
transaction until the commit, so it is queued together with the statement before it. -/
namespace RatatoskrX.Capture
open Schema Envelopes ReadCommitted

inductive SocialCaptureProvider where | x | other
  deriving DecidableEq, Repr

inductive AcquisitionMethod where | browserExtension | other
  deriving DecidableEq, Repr

inductive SavedAuthority where | explicitUserCapture | other
  deriving DecidableEq, Repr

/- The capture time is the one that chrono parses from the wire text. -/
structure SocialCaptureRequested where
  provider : SocialCaptureProvider
  acquisition : AcquisitionMethod
  savedAuthority : SavedAuthority
  operationId : Uuid
  originalPermalink : String
  capturedAt : Option DateTime
  deriving DecidableEq, Repr

structure CommandEnvelope where
  commandId : Uuid
  tenantId : Option Uuid
  payload : Option SocialCaptureRequested
  deriving DecidableEq, Repr

inductive CaptureCommandError where | invalidPayload | invalidProvenance | wrongProvider | missingTenant
  deriving DecidableEq, Repr

inductive DeliveryError where
  | command (error : CaptureCommandError)
  | persistence
  | invalidTimestamp
  deriving DecidableEq, Repr

inductive Delivery where | applied | duplicate
  deriving DecidableEq, Repr

def validateBrowserCapture (command : CommandEnvelope) : Except CaptureCommandError Unit :=
  match command.payload with
  | none => .error .invalidPayload
  | some capture =>
    if capture.provider ≠ .x then .error .wrongProvider
    else if capture.acquisition ≠ .browserExtension ∨ capture.savedAuthority ≠ .explicitUserCapture then
      .error .invalidProvenance
    else if command.tenantId = none then .error .missingTenant
    else .ok ()

structure Intake where
  commandId : Uuid
  operationId : Uuid
  owner : Uuid
  originalPermalink : String
  capturedAt : DateTime
  deriving DecidableEq, Repr

/-- The part of persist_browser_capture before its transaction. -/
def accept (command : CommandEnvelope) : Except DeliveryError Intake :=
  match validateBrowserCapture command with
  | .error error => .error (.command error)
  | .ok _ => match command.payload,command.tenantId with
    | none,_ => .error (.command .invalidPayload)
    | _,none => .error (.command .missingTenant)
    | some capture,some owner => match capture.capturedAt with
      | none => .error .invalidTimestamp
      | some capturedAt => .ok ⟨command.commandId,capture.operationId,owner,capture.originalPermalink,capturedAt⟩

inductive CaptureStatus where | accepted | resolved | unavailable
  deriving DecidableEq, Repr

structure ExplicitCapture where
  captureId : Uuid
  commandId : Uuid
  operationId : Uuid
  owner : Uuid
  providerPostId : Option String
  originalPermalink : String
  capturedAt : DateTime
  status : CaptureStatus
  attempts : Int
  nextAttemptAt : DateTime
  socialSourceId : Option Uuid
  reportedAt : Option DateTime
  deriving DecidableEq, Repr

structure ExplicitSource where
  socialSourceId : Uuid
  owner : Uuid
  providerPostId : String
  currentContentDigest : ContentDigest
  capturedAt : DateTime
  deriving DecidableEq, Repr

abbrev Pair := Uuid × String

def Intake.post (intake : Intake) : Option String :=
  (Permalink.statusIdFromPermalink intake.originalPermalink.toList).map String.ofList

def Intake.report (intake : Intake) : Report :=
  match intake.post with
  | some _ => .queued
  | none => .unavailable .inaccessible

def Intake.row (intake : Intake) (captureId : Uuid) (now : DateTime) : ExplicitCapture :=
  ⟨captureId,intake.commandId,intake.operationId,intake.owner,intake.post,intake.originalPermalink,intake.capturedAt,
    if intake.post.isSome then .accepted else .unavailable,0,now,none,if intake.post.isSome then none else some now⟩

structure CapturePolicy where
  maxAttempts : UInt32
  batchSize : UInt32
  deriving DecidableEq, Repr

structure CaptureRunSummary where
  claimed : Nat
  preserved : Nat
  unavailable : Nat
  deferred : Nat
  deriving DecidableEq, Repr

structure ClaimedCapture where
  captureId : Uuid
  commandId : Uuid
  operationId : Uuid
  owner : Uuid
  providerPostId : String
  attempts : Int
  capturedAt : DateTime
  deriving DecidableEq, Repr

abbrev ClaimedCapture.pair (capture : ClaimedCapture) : Pair := (capture.owner,capture.providerPostId)

/- A row as claim_due returns it; a row without a post is never due. -/
def ExplicitCapture.claimed (row : ExplicitCapture) : Option ClaimedCapture :=
  row.providerPostId.map (fun post =>
    ⟨row.captureId,row.commandId,row.operationId,row.owner,post,row.attempts,row.capturedAt⟩)

structure PublicAuthor where
  id : String
  username : Option String
  name : Option String
  deriving DecidableEq, Repr

structure PublicPost where
  providerId : String
  author : PublicAuthor
  text : String
  longText : Option String
  publishedAt : Option DateTime
  expandedUrls : List String
  deriving DecidableEq, Repr

def PublicPost.facts (post : PublicPost) : SourceFacts :=
  ⟨post.providerId,post.text,post.longText,post.publishedAt,.active,post.author.id,post.author.username,
    post.author.name,post.expandedUrls⟩

inductive PublicPostFailure where | deleted | inaccessible | transient
  deriving DecidableEq, Repr

def PublicPostFailure.reason : PublicPostFailure → SourceUnavailability
  | .deleted => .deleted
  | .inaccessible => .inaccessible
  | .transient => .transient

/-- i32::saturating_add of one. -/
def made (attempts : Int) : Int := min (attempts + 1) maxI32

/-- The delay in seconds before attempt failures + 1. -/
def retryDelay (failures : Int) : Int := min (30 * 4 ^ min (failures - 1).toNat 8) (30 * 60)

def hasAttemptsLeft (policy : CapturePolicy) (capture : ClaimedCapture) : Bool :=
  0 ≤ made capture.attempts && made capture.attempts < policy.maxAttempts.toNat

inductive TerminateStage where
  | lock
  | guard
  | remove
  | commit (queued : List Envelope)
  deriving DecidableEq, Repr

inductive PreserveStage where
  | lock
  | select
  | upsert (sourceId : Uuid) (fact : SourceFact) (snapshot : SocialSourceSnapshot)
  | guard (sourceId : Uuid) (queued : List Envelope)
  | commit (queued : List Envelope)
  deriving DecidableEq, Repr

inductive IntakePc where
  | claim
  | insert
  | commit (captureId : Uuid) (queued : List Envelope)
  | done (result : Except DeliveryError Delivery)

/- A pass that a failed statement ended returns no summary. -/
inductive WorkerPc where
  | claim
  | resolve (capture : ClaimedCapture)
  | defer (capture : ClaimedCapture)
  | terminate (capture : ClaimedCapture) (failure : PublicPostFailure) (stage : TerminateStage)
  | preserve (capture : ClaimedCapture) (post : PublicPost) (stage : PreserveStage)
  | done (result : Option CaptureRunSummary)

structure Worker where
  policy : CapturePolicy
  summary : CaptureRunSummary
  rest : List ClaimedCapture
  pc : WorkerPc

inductive Call where
  | rejected (error : DeliveryError)
  | intake (intake : Intake) (pc : IntakePc)
  | worker (worker : Worker)

/- The lock key is hashtextextended of explicit_source:owner:post. -/
structure Deployment where
  contract : Contract
  lockKey : Uuid → String → Int

def Deployment.lockOf (d : Deployment) (capture : ClaimedCapture) : Int := d.lockKey capture.owner capture.providerPostId

/- The commands index is the unique constraint on explicit_captures.command_id. A
transaction is numbered by its call; identities are minted from one counter. -/
structure Lane where
  inbox : Store Uuid Unit
  commands : Store Uuid Uuid
  captures : Store Uuid ExplicitCapture
  sources : Store Pair ExplicitSource
  locks : Store Int Unit
  outbox : List Envelope
  minted : Nat
  calls : List Call

def Lane.empty : Lane := ⟨.empty,.empty,.empty,.empty,.empty,[],0,[]⟩

/- What a call learns from outside: the clock at a statement, the rows of claim_due in the
order they come back, the answer of the resolver; or a failed statement or a crash, or a
commit whose acknowledgement was lost. -/
inductive Reply where
  | ok (now : DateTime)
  | rows (order : List Uuid) (now : DateTime)
  | answer (result : Except PublicPostFailure PublicPost)
  | fault
  | lost

inductive Action where
  | deliver (command : CommandEnvelope)
  | launch (policy : CapturePolicy)
  | advance (index : Nat) (reply : Reply)

namespace Lane
variable (d : Deployment)

def set (w : Lane) (index : Nat) (call : Call) : Lane := {w with calls := w.calls.set index call}

def rollback (w : Lane) (index : Nat) : Lane :=
  {w with
    inbox := w.inbox.abort index, commands := w.commands.abort index, captures := w.captures.abort index
    sources := w.sources.abort index, locks := w.locks.abort index}

def commit (w : Lane) (index : Nat) (queued : List Envelope) : Lane :=
  {w with
    inbox := w.inbox.commit index, commands := w.commands.commit index, captures := w.captures.commit index
    sources := w.sources.commit index, locks := w.locks.abort index, outbox := w.outbox ++ queued}

def failIntake (w : Lane) (index : Nat) (intake : Intake) : Lane :=
  (w.rollback index).set index (.intake intake (.done (.error .persistence)))

/-- claim_inbox: the insert waits for a claim that is not yet committed. -/
def claimInbox (w : Lane) (index : Nat) (intake : Intake) : Option Lane :=
  if (w.inbox.committed intake.commandId).isSome then
    some ((w.rollback index).set index (.intake intake (.done (.ok .duplicate))))
  else if w.inbox.Free index intake.commandId then
    some ({w with inbox := w.inbox.put index intake.commandId (some ())}.set index (.intake intake .insert))
  else none

def insertCapture (w : Lane) (index : Nat) (intake : Intake) (now : DateTime) : Option Lane :=
  if w.commands.Free index intake.commandId then
    if (w.commands.committed intake.commandId).isSome then some (w.failIntake index intake)
    else
      some ({w with
        commands := w.commands.put index intake.commandId (some w.minted)
        captures := w.captures.put index w.minted (some (intake.row w.minted now))
        minted := w.minted + 2}.set index (.intake intake (.commit w.minted
          [reportEnvelope (w.minted + 1) intake.owner intake.operationId w.minted intake.commandId intake.report])))
  else none

/-- persist_browser_capture. -/
def persistBrowserCapture (w : Lane) (index : Nat) (intake : Intake) (pc : IntakePc) (reply : Reply) : Option Lane :=
  match pc,reply with
  | .done _,_ => none
  | _,.fault => some (w.failIntake index intake)
  | .claim,.ok _ => w.claimInbox index intake
  | .insert,.ok now => w.insertCapture index intake now
  | .commit _ queued,.ok _ => some ((w.commit index queued).set index (.intake intake (.done (.ok .applied))))
  | .commit _ queued,.lost => some ((w.commit index queued).set index (.intake intake (.done (.error .persistence))))
  | _,_ => none

def at_ (w : Lane) (index : Nat) (k : Worker) (pc : WorkerPc) : Lane := w.set index (.worker {k with pc := pc})

def failWorker (w : Lane) (index : Nat) (k : Worker) : Lane := (w.rollback index).at_ index k (.done none)

def next (w : Lane) (index : Nat) (k : Worker) (summary : CaptureRunSummary) : Lane :=
  match k.rest with
  | [] => w.set index (.worker {k with summary := summary, pc := .done (some summary)})
  | capture::rest => w.set index (.worker {k with summary := summary, rest := rest, pc := .resolve capture})

def Due (row : ExplicitCapture) (now : DateTime) : Prop :=
  row.status = .accepted ∧ row.providerPostId.isSome ∧ row.nextAttemptAt ≤ now

instance (row now) : Decidable (Due row now) := by unfold Due; infer_instance

/- ORDER BY next_attempt_at, capture_id. -/
def Sooner (a b : ExplicitCapture) : Prop :=
  a.nextAttemptAt < b.nextAttemptAt ∨ ¬b.nextAttemptAt < a.nextAttemptAt ∧ a.captureId ≤ b.captureId

instance (a b) : Decidable (Sooner a b) := by unfold Sooner; infer_instance

/- The due rows that no transaction has locked, in order, up to the batch size. -/
def due (w : Lane) (policy : CapturePolicy) (now : DateTime) : List ExplicitCapture :=
  (((List.range w.minted).filterMap (fun id =>
    if (w.captures.held id).isSome then none
    else (w.captures.committed id).filter (fun row => Due row now))).insertionSort Sooner).take policy.batchSize.toNat

/-- claim_due: one statement that leases the due rows. -/
def claimDue (w : Lane) (index : Nat) (k : Worker) (order : List Uuid) (now : DateTime) : Option Lane :=
  match now.checkedAddSigned 120 with
  | none => some (w.failWorker index k)
  | some lease =>
    if order.Perm ((w.due k.policy now).map ExplicitCapture.captureId) then
      let claimed := order.filterMap (fun id => (w.captures.committed id).bind ExplicitCapture.claimed)
      some ({w with
        captures := w.captures.update (fun id => id ∈ order) (fun row => {row with nextAttemptAt := lease})}.next index
          {k with rest := claimed} {k.summary with claimed := claimed.length})
    else none

/- The match of run_due_once on the resolver's answer. -/
def answered (w : Lane) (index : Nat) (k : Worker) (capture : ClaimedCapture)
    (result : Except PublicPostFailure PublicPost) : Lane :=
  match result with
  | .ok post =>
    if post.providerId = capture.providerPostId then w.at_ index k (.preserve capture post .lock)
    else w.at_ index k (.terminate capture .inaccessible .lock)
  | .error .transient =>
    if hasAttemptsLeft k.policy capture then w.at_ index k (.defer capture)
    else w.at_ index k (.terminate capture .transient .lock)
  | .error failure => w.at_ index k (.terminate capture failure .lock)

/- The guard of every update of a capture that is not yet reported. -/
def Open (row : ExplicitCapture) : Prop := row.status = .accepted ∧ row.reportedAt = none

instance (row) : Decidable (Open row) := by unfold Open; infer_instance

def defer (w : Lane) (index : Nat) (k : Worker) (capture : ClaimedCapture) (now : DateTime) : Option Lane :=
  match now.checkedAddSigned (retryDelay (made capture.attempts)) with
  | none => some (w.failWorker index k)
  | some nextAttemptAt =>
    if w.captures.Free index capture.captureId then
      let after := {k.summary with deferred := k.summary.deferred + 1}
      match w.captures.committed capture.captureId with
      | none => some (w.next index k after)
      | some row =>
        if Open row then
          if row.attempts + 1 ≤ maxI32 then
            let deferred := {row with attempts := row.attempts + 1, nextAttemptAt := nextAttemptAt}
            some ({w with captures := w.captures.write capture.captureId (some deferred)}.next index k after)
          else some (w.failWorker index k)
        else some (w.next index k after)
    else none

/- The guarded update of terminate and preserve: none while it waits; then whether a row
was updated. -/
def guarded (w : Lane) (index : Nat) (captureId : Uuid) (f : ExplicitCapture → ExplicitCapture) :
    Option (Except Unit (Option (Store Uuid ExplicitCapture))) :=
  if w.captures.Free index captureId then
    match w.captures.view index captureId with
    | none => some (.ok none)
    | some row =>
      if Open row then
        if row.attempts + 1 ≤ maxI32 then some (.ok (some (w.captures.put index captureId (some (f row)))))
        else some (.error ())
      else some (.ok none)
  else none

def markUnavailable (now : DateTime) (row : ExplicitCapture) : ExplicitCapture :=
  {row with
    status := .unavailable, attempts := row.attempts + 1, reportedAt := some now, nextAttemptAt := now}

def markResolved (sourceId : Uuid) (now : DateTime) (row : ExplicitCapture) : ExplicitCapture :=
  {row with
    status := .resolved, attempts := row.attempts + 1, socialSourceId := some sourceId, reportedAt := some now
    nextAttemptAt := now}

def report (capture : ClaimedCapture) (id : Uuid) (report : Report) : Envelope :=
  reportEnvelope id capture.owner capture.operationId capture.captureId capture.commandId report

/-- lock_owner_post. -/
def lockOwnerPost (w : Lane) (index : Nat) (k : Worker) (capture : ClaimedCapture) (pc : WorkerPc) : Option Lane :=
  if w.locks.Free index (d.lockOf capture) then
    some ({w with locks := w.locks.put index (d.lockOf capture) (some ())}.at_ index k pc)
  else none

/-- remove_owner_source, and the report of a deleted post after it. -/
def removeOwnerSource (w : Lane) (index : Nat) (k : Worker) (capture : ClaimedCapture) (removedAt : DateTime) :
    Option Lane :=
  if w.sources.Free index capture.pair then
    match w.sources.view index capture.pair with
    | none =>
      some ({w with minted := w.minted + 1}.at_ index k
        (.terminate capture .deleted (.commit [report capture w.minted (.unavailable .deleted)])))
    | some source =>
      some ({w with sources := w.sources.put index capture.pair none, minted := w.minted + 2}.at_ index k
        (.terminate capture .deleted (.commit
          [removedEvent w.minted source.socialSourceId capture.owner (.capture capture.captureId) removedAt,
            report capture (w.minted + 1) (.unavailable .deleted)])))
  else none

def terminate (w : Lane) (index : Nat) (k : Worker) (capture : ClaimedCapture) (failure : PublicPostFailure)
    (stage : TerminateStage) (now : DateTime) : Option Lane :=
  match stage with
  | .lock => w.lockOwnerPost d index k capture (.terminate capture failure .guard)
  | .guard =>
    match w.guarded index capture.captureId (markUnavailable now) with
    | none => none
    | some (.error _) => some (w.failWorker index k)
    | some (.ok none) => some (w.at_ index k (.terminate capture failure (.commit [])))
    | some (.ok (some captures)) =>
      if failure = .deleted then
        some ({w with captures := captures}.at_ index k (.terminate capture failure .remove))
      else
        some ({w with captures := captures, minted := w.minted + 1}.at_ index k
          (.terminate capture failure (.commit [report capture w.minted (.unavailable failure.reason)])))
  | .remove => w.removeOwnerSource index k capture now
  | .commit queued =>
    some ((w.commit index queued).next index k {k.summary with unavailable := k.summary.unavailable + 1})

/-- upsert_owner_source up to its insert. -/
def selectOwnerSource (w : Lane) (index : Nat) (k : Worker) (capture : ClaimedCapture) (post : PublicPost) : Lane :=
  let digest := post.facts.digest d.contract explicitProvenance
  let upsert (sourceId : Uuid) (fact : SourceFact) : Lane :=
    match post.facts.snapshot d.contract sourceId capture.owner digest capture.capturedAt explicitProvenance with
    | none => (w.rollback index).at_ index k (.terminate capture .inaccessible .lock)
    | some snapshot =>
      {w with minted := w.minted + 1}.at_ index k (.preserve capture post (.upsert sourceId fact snapshot))
  match w.sources.view index capture.pair with
  | some source =>
    if source.currentContentDigest = digest then
      w.at_ index k (.preserve capture post (.guard source.socialSourceId []))
    else upsert source.socialSourceId .updated
  | none => upsert w.minted .captured

/-- The insert of upsert_owner_source: a row that is there keeps its identity. -/
def upsertOwnerSource (w : Lane) (index : Nat) (k : Worker) (capture : ClaimedCapture) (post : PublicPost)
    (sourceId : Uuid) (fact : SourceFact) (snapshot : SocialSourceSnapshot) : Option Lane :=
  if w.sources.Free index capture.pair then
    let digest := post.facts.digest d.contract explicitProvenance
    let row := match w.sources.view index capture.pair with
      | some source => {source with currentContentDigest := digest, capturedAt := capture.capturedAt}
      | none => ⟨sourceId,capture.owner,capture.providerPostId,digest,capture.capturedAt⟩
    some ({w with sources := w.sources.put index capture.pair (some row), minted := w.minted + 1}.at_ index k
      (.preserve capture post (.guard sourceId [sourceEvent w.minted capture.owner fact snapshot])))
  else none

def preserve (w : Lane) (index : Nat) (k : Worker) (capture : ClaimedCapture) (post : PublicPost)
    (stage : PreserveStage) (now : DateTime) : Option Lane :=
  let after := {k.summary with preserved := k.summary.preserved + 1}
  match stage with
  | .lock => w.lockOwnerPost d index k capture (.preserve capture post .select)
  | .select => some (w.selectOwnerSource d index k capture post)
  | .upsert sourceId fact snapshot => w.upsertOwnerSource d index k capture post sourceId fact snapshot
  | .guard sourceId queued =>
    match w.guarded index capture.captureId (markResolved sourceId now) with
    | none => none
    | some (.error _) => some (w.failWorker index k)
    | some (.ok none) => some ((w.rollback index).next index k after)
    | some (.ok (some captures)) =>
      some ({w with captures := captures, minted := w.minted + 1}.at_ index k
        (.preserve capture post (.commit (queued ++ [report capture w.minted (.preserved sourceId)]))))
  | .commit queued => some ((w.commit index queued).next index k after)

/-- run_due_once. -/
def runDueOnce (w : Lane) (index : Nat) (k : Worker) (reply : Reply) : Option Lane :=
  match reply with
  | .fault => match k.pc with
    | .done _ => none
    | _ => some (w.failWorker index k)
  | .lost => match k.pc with
    | .terminate _ _ (.commit queued) => some ((w.commit index queued).at_ index k (.done none))
    | .preserve _ _ (.commit queued) => some ((w.commit index queued).at_ index k (.done none))
    | _ => none
  | .rows order now => match k.pc with
    | .claim => w.claimDue index k order now
    | _ => none
  | .answer result => match k.pc with
    | .resolve capture => some (w.answered index k capture result)
    | _ => none
  | .ok now => match k.pc with
    | .defer capture => w.defer index k capture now
    | .terminate capture failure stage => w.terminate d index k capture failure stage now
    | .preserve capture post stage => w.preserve d index k capture post stage now
    | _ => none

def step (w : Lane) : Action → Option Lane
  | .deliver command =>
    some {w with calls := w.calls ++ [match accept command with
      | .error error => .rejected error
      | .ok intake => .intake intake .claim]}
  | .launch policy => some {w with calls := w.calls ++ [.worker ⟨policy,⟨0,0,0,0⟩,[],.claim⟩]}
  | .advance index reply =>
    match w.calls[index]? with
    | some (.intake intake pc) => w.persistBrowserCapture index intake pc reply
    | some (.worker k) => w.runDueOnce d index k reply
    | _ => none

end Lane
end RatatoskrX.Capture
