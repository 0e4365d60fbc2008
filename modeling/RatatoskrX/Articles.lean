import RatatoskrX.Writeback
import RatatoskrX.Library

/-! Linked-article capture beside the account library: the reports that the extractor sends
for a capture, and the outcome that the capture takes from them. The decoding of an envelope
belongs to the shared contract crates and is a parameter. -/
namespace RatatoskrX.Articles
open Schema Writeback Envelopes ArticleUrls SocialSources ReadCommitted Library

inductive OperationStatus where | succeeded | other (name : String)
  deriving DecidableEq, Repr

structure TargetRef where
  kind : String
  uuid : Option Uuid
  deriving DecidableEq, Repr

structure BlobRef where
  ownerService : String
  value : String
  deriving DecidableEq, Repr

structure OperationResult where
  resultKind : String
  target : TargetRef
  blob : Option BlobRef
  deriving DecidableEq, Repr

structure OperationReported where
  operationId : Uuid
  status : OperationStatus
  results : List OperationResult
  deriving DecidableEq, Repr

/- An event envelope; its payload is none unless it is an operation report. -/
structure ReportEnvelope where
  eventId : String
  producer : String
  tenantId : Option String
  correlationId : String
  payload : Option OperationReported
  deriving DecidableEq, Repr

structure ExtractorOutcome where
  eventId : String
  correlationId : String
  operationId : String
  tenantId : String
  documentId : String
  documentIrBlob : String
  deriving DecidableEq, Repr

def ExtractorOutcome.belongsTo (outcome : ExtractorOutcome) (captureId owner : Uuid) : Bool :=
  outcome.operationId = uuidText captureId && outcome.tenantId = "user:" ++ uuidText owner

/-- decode_extractor_outcome; every failure is an invalid outcome. -/
def decodeExtractorOutcome (parse : String → Option ReportEnvelope) (serialized : String) : Option ExtractorOutcome := do
  let envelope ← parse serialized
  guard (envelope.producer = "ratatoskr-extractor")
  let report ← envelope.payload
  guard (report.status = .succeeded)
  let result ← report.results.find? (fun result => result.resultKind = "content.document")
  guard (result.target.kind = "document")
  let document ← result.target.uuid
  let blob ← result.blob
  guard (blob.ownerService = "ratatoskr-extractor")
  let tenant ← envelope.tenantId
  some ⟨envelope.eventId,envelope.correlationId,uuidText report.operationId,tenant,uuidText document,blob.value⟩

/- The columns of a completed capture; a requested one has none. -/
structure Completion where
  documentId : String
  documentIrBlob : String
  deriving DecidableEq, Repr

def ExtractorOutcome.completion (outcome : ExtractorOutcome) : Completion := ⟨outcome.documentId,outcome.documentIrBlob⟩

def correlationOf (captureId : Uuid) : String := "article_capture:" ++ uuidText captureId

/- How a report ended. A duplicate returns Ok, as a completed one does; a refused one is an
invalid outcome, of a capture that was completed before it when it names one. -/
inductive ReportEnd where
  | completed (captureId : Uuid)
  | duplicate (captureId : Uuid)
  | refused (captureId : Option Uuid)
  | query
  deriving DecidableEq, Repr

inductive ReportPc where
  | lookup (outcome : ExtractorOutcome)
  | claim (outcome : ExtractorOutcome) (captureId : Uuid)
  | complete (outcome : ExtractorOutcome) (captureId : Uuid)
  | commit (end_ : ReportEnd)
  | done (end_ : ReportEnd)
  deriving DecidableEq, Repr

structure ReportCall where
  serialized : String
  pc : ReportPc
  deriving DecidableEq, Repr

structure PagePublication where
  index : Nat
  accountId : Uuid
  post : PostRow
  revision : Revision
  deriving DecidableEq, Repr

/- The revisions of the pages, and the pages that were committed, are kept beside the rows. -/
structure World where
  library : State
  outcomes : Store Uuid Completion
  inbox : Store String Unit
  reports : List ReportCall
  publications : List PagePublication
  committed : List Nat

def World.opened (accounts : Uuid → Option Uuid) : World := ⟨.opened accounts,.empty,.empty,[],[],[]⟩

inductive ReportReply where | ok | fault | lost
  deriving DecidableEq, Repr

inductive Act where
  | library (action : Library.Action)
  | elsewhere (eventId : String)
  | report (serialized : String)
  | advance (index : Nat) (reply : ReportReply)

structure Shared where
  deployment : Deployment
  parse : String → Option ReportEnvelope

section Captures

def requestOf (e : Envelope) : Option (Uuid × String) :=
  match e.payload with
  | .contentCaptureRequested captureId url => some (captureId,url)
  | _ => none

/- The keys under which captures were inserted: each insert queued a command on its page. -/
def captureKeys (w : State) : List (Uuid × String) :=
  w.calls.flatMap (fun call => match call with
    | .page page => page.queued.filterMap (fun e => (requestOf e).map (fun request => (page.accountId,request.2)))
    | .run _ => [])

def findCapture (w : State) (correlationId : String) : Option (Uuid × Uuid) :=
  (captureKeys w).findSome? (fun key => do
    let capture ← w.archived.capture key.1 key.2
    guard (correlationOf capture.id = correlationId)
    let owner ← w.accounts capture.accountId
    some (capture.id,owner))

def published (d : Deployment) (w : State) (index : Nat) (page : Page) : Reply → List PagePublication
  | .ok => match page.pc with
    | .load post _ => match (w.books index).loadSource page.accountId post with
      | .error _ => []
      | .ok loaded => match loaded.revision d.publisher.contract w.minted page.capturedAt with
        | .ok (some r) => [⟨index,page.accountId,loaded.post,r⟩]
        | _ => []
    | _ => []
  | _ => []

/- The page whose commit a statement is, acknowledged or not. -/
def commits (index : Nat) (page : Page) (reply : Reply) : List Nat :=
  match page.pc,reply with
  | .publish [],.ok => [index]
  | .publish [],.lost => [index]
  | _,_ => []

end Captures

namespace World
variable (d : Shared)

def move (w : World) (index : Nat) (call : ReportCall) (pc : ReportPc) : World :=
  {w with reports := w.reports.set index {call with pc := pc}}

def rollback (w : World) (index : Nat) : World := {w with outcomes := w.outcomes.abort index, inbox := w.inbox.abort index}

def commit (w : World) (index : Nat) : World := {w with outcomes := w.outcomes.commit index, inbox := w.inbox.commit index}

/-- consume_extractor_operation_report after its decoding, statement by statement. -/
def consume (w : World) (index : Nat) (call : ReportCall) (reply : ReportReply) : Option World :=
  match call.pc,reply with
  | .done _,_ => none
  | _,.fault => some ((w.rollback index).move index call (.done .query))
  | .lookup outcome,.ok => match findCapture w.library outcome.correlationId with
    | none => some ((w.rollback index).move index call (.done (.refused none)))
    | some (captureId,owner) =>
      if outcome.belongsTo captureId owner then some (w.move index call (.claim outcome captureId))
      else some ((w.rollback index).move index call (.done (.refused none)))
  | .claim outcome captureId,.ok =>
    if w.inbox.Free index outcome.eventId then
      if (w.inbox.view index outcome.eventId).isSome then some (w.move index call (.commit (.duplicate captureId)))
      else some ({w with inbox := w.inbox.put index outcome.eventId (some ())}.move index call (.complete outcome captureId))
    else none
  | .complete outcome captureId,.ok =>
    if w.outcomes.Free index captureId then
      match w.outcomes.view index captureId with
      | some _ => some ((w.rollback index).move index call (.done (.refused (some captureId))))
      | none =>
        some ({w with outcomes := w.outcomes.put index captureId (some outcome.completion)}.move index call
          (.commit (.completed captureId)))
    else none
  | .commit end_,.ok => some ((w.commit index).move index call (.done end_))
  | .commit _,.lost => some ((w.commit index).move index call (.done .query))
  | _,.lost => none

def shelve (w : World) (action : Library.Action) : Option World := do
  let library ← w.library.step d.deployment action
  match action with
  | .advance index reply => match w.library.calls[index]? with
    | some (.page page) =>
      some {w with
        library := library, publications := w.publications ++ published d.deployment w.library index page reply
        committed := w.committed ++ commits index page reply}
    | _ => some {w with library := library}
  | _ => some {w with library := library}

def step (w : World) : Act → Option World
  | .library action => w.shelve d action
  | .elsewhere eventId => if (w.inbox.held eventId).isNone ∧ (w.inbox.committed eventId).isNone then
      some {w with inbox := w.inbox.write eventId (some ())} else none
  | .report serialized => match decodeExtractorOutcome d.parse serialized with
    | none => some {w with reports := w.reports ++ [⟨serialized,.done (.refused none)⟩]}
    | some outcome => some {w with reports := w.reports ++ [⟨serialized,.lookup outcome⟩]}
  | .advance index reply => match w.reports[index]? with
    | none => none
    | some call => w.consume index call reply

end World
end RatatoskrX.Articles
