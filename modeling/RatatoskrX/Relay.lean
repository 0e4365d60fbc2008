import Mathlib.Data.List.Sort
import Mathlib.Algebra.Order.Ring.Rat
import RatatoskrX.Foundation.Table
import RatatoskrX.Foundation.Transition
import RatatoskrX.Schema

/-! The outbox relay: passes of any number of relays over one outbox, the broker that may
store a message and lose its acknowledgement, and the consumer of removal
acknowledgements. Every statement is a transaction of its own. Instants and durations are
rational seconds. -/
namespace RatatoskrX.Relay
open Schema Relational
universe u
variable {π : Type u}

def removalEventType : String := "social.source.removed.v1"

def batchSize : Nat := 32

def payloadTooLarge : String := "payload_too_large"

def unhealthyAttempts : Nat := 3

def unhealthyAgeSeconds : ℚ := 300

/- The CHECK of outbox_events.event_type. -/
def eventTypes : List String :=
  ["platform.operation.reported.v1","social.source.captured.v1","social.source.updated.v1","social.source.removed.v1",
    "content.capture.requested.v1"]

def subjectFor (eventType : String) : Option String :=
  if eventType = "platform.operation.reported.v1" ∨ eventType = "social.source.captured.v1" ∨
      eventType = "social.source.updated.v1" ∨ eventType = "social.source.removed.v1" then some ("evt." ++ eventType)
  else if eventType = "content.capture.requested.v1" then some ("cmd." ++ eventType)
  else none

theorem subjectTotal {eventType} (allowed : eventType ∈ eventTypes) : (subjectFor eventType).isSome := by
  have every : ∀ t ∈ eventTypes, (subjectFor t).isSome := by decide
  exact every eventType allowed

structure ResendPolicy where
  after : ℚ
  cap : ℚ

inductive AckOutcome where | applied | refused
  deriving DecidableEq, Repr

structure OutboxRow (π : Type u) where
  id : Uuid
  eventType : String
  payload : π
  createdAt : ℚ
  publishedAt : Option ℚ
  attemptCount : Nat
  lastError : Option String
  nextAttemptAt : ℚ
  undeliverableAt : Option ℚ
  acknowledgedAt : Option ℚ
  ackOutcome : Option AckOutcome
  resendCount : Nat
  nextResendAt : Option ℚ
  deriving DecidableEq

namespace OutboxRow

def queued (id : Uuid) (eventType : String) (payload : π) (now : ℚ) : OutboxRow π :=
  ⟨id,eventType,payload,now,none,0,none,now,none,none,none,0,none⟩

def markPublished (policy : ResendPolicy) (now : ℚ) (r : OutboxRow π) : OutboxRow π :=
  {r with
    publishedAt := some now, lastError := none,
    nextResendAt := if r.eventType = removalEventType then some (now + policy.after) else none}

/- The wait before the next copy, by the number of copies sent so far. -/
def resendDelay (policy : ResendPolicy) (resendCount : Nat) : ℚ :=
  min (policy.after * 2 ^ min resendCount 30) policy.cap

def recordResend (policy : ResendPolicy) (now : ℚ) (r : OutboxRow π) : OutboxRow π :=
  {r with
    resendCount := r.resendCount + 1, lastError := none, attemptCount := 0,
    nextResendAt := some (now + resendDelay policy r.resendCount)}

def backoff (attemptCount : Nat) : ℚ := min 300 (10 * 2 ^ min (attemptCount + 1) 5)

def recordFailure (failure : String) (now : ℚ) (r : OutboxRow π) : OutboxRow π :=
  {r with
    attemptCount := r.attemptCount + 1, lastError := some failure, nextAttemptAt := now + backoff r.attemptCount}

def recordUndeliverable (failure : String) (now : ℚ) (r : OutboxRow π) : OutboxRow π :=
  {r with attemptCount := r.attemptCount + 1, lastError := some failure, undeliverableAt := some now}

def acknowledge (outcome : AckOutcome) (now : ℚ) (r : OutboxRow π) : OutboxRow π :=
  {r with acknowledgedAt := some now, ackOutcome := some outcome}

/- A removal that Knowledge has not acknowledged: the delete trigger keeps it. -/
def Kept (r : OutboxRow π) : Prop := r.eventType = removalEventType ∧ r.acknowledgedAt = none

instance (r : OutboxRow π) : Decidable r.Kept := inferInstanceAs (Decidable (_ ∧ _))

def Due (now : ℚ) (r : OutboxRow π) : Prop :=
  r.publishedAt = none ∧ r.undeliverableAt = none ∧ r.nextAttemptAt ≤ now

instance (now) (r : OutboxRow π) : Decidable (r.Due now) := inferInstanceAs (Decidable (_ ∧ _ ∧ _))

def ResendDue (now : ℚ) (r : OutboxRow π) : Prop :=
  r.Kept ∧ r.publishedAt.isSome ∧ (∃ t ∈ r.nextResendAt, t ≤ now) ∧ r.nextAttemptAt ≤ now

instance (now) (r : OutboxRow π) : Decidable (r.ResendDue now) := inferInstanceAs (Decidable (_ ∧ _ ∧ _ ∧ _))

def Stuck (now : ℚ) (r : OutboxRow π) : Prop :=
  r.publishedAt = none ∧ r.undeliverableAt = none ∧ 1 ≤ r.attemptCount ∧
    (unhealthyAttempts ≤ r.attemptCount ∨ r.createdAt < now - unhealthyAgeSeconds)

instance (now) (r : OutboxRow π) : Decidable (r.Stuck now) := inferInstanceAs (Decidable (_ ∧ _ ∧ _ ∧ (_ ∨ _)))

end OutboxRow

abbrev Outbox (π : Type u) := Table (OutboxRow π) OutboxRow.id

/- A message of the broker: its deduplication id is the row's. -/
structure Message (π : Type u) where
  subject : String
  messageId : Uuid
  payload : π
  deriving DecidableEq

structure Selected (π : Type u) where
  id : Uuid
  eventType : String
  payload : π
  deriving DecidableEq

def OutboxRow.selected (r : OutboxRow π) : Selected π := ⟨r.id,r.eventType,r.payload⟩

def selectDue (rows : List (OutboxRow π)) (now : ℚ) : List (Selected π) :=
  (((rows.filter (fun r => r.Due now)).insertionSort
    (fun a b => a.createdAt < b.createdAt ∨ a.createdAt = b.createdAt ∧ a.id ≤ b.id)).take batchSize).map
      OutboxRow.selected

/- A due row has its resend time, so the default is never read. -/
def selectResends (rows : List (OutboxRow π)) (now : ℚ) : List (Selected π) :=
  (((rows.filter (fun r => r.ResendDue now)).insertionSort
    (fun a b => a.nextResendAt.getD 0 < b.nextResendAt.getD 0 ∨
      a.nextResendAt.getD 0 = b.nextResendAt.getD 0 ∧ a.id ≤ b.id)).take batchSize).map OutboxRow.selected

structure RelayReport where
  published : Nat
  failed : Nat
  resent : Nat
  undeliverable : Nat
  deriving DecidableEq, Repr

/- The control points of one run_once. -/
inductive PassPc (π : Type u) where
  | select
  | publish (row : Selected π) (rest : List (Selected π))
  | markPublished (id : Uuid) (rest : List (Selected π))
  | recordUndeliverable (id : Uuid) (failure : String) (rest : List (Selected π))
  | recordFailure (id : Uuid) (failure : String) (republish : Bool)
  | selectResends
  | resend (row : Selected π) (rest : List (Selected π))
  | recordResend (id : Uuid) (rest : List (Selected π))
  | refreshHealth
  | done (healthy : Option Bool)
  deriving DecidableEq

structure Pass (π : Type u) where
  report : RelayReport
  pc : PassPc π
  deriving DecidableEq

/- What the statements recorded of a row's attempts; no statement reads it. -/
inductive Attempt where | failed | published
  deriving DecidableEq, Repr

structure Recorded where
  attempt : Attempt
  id : Uuid
  recordedAt : ℚ
  deriving DecidableEq

structure Deployment (π : Type u) where
  policy : ResendPolicy
  tenantId : π → Option String

structure State (π : Type u) where
  rows : Outbox π
  minted : Nat
  stored : List (Message π)
  acknowledged : List (Message π)
  history : List Recorded
  passes : List (Pass π)

def State.opened : State π := ⟨.empty,0,[],[],[],[]⟩

/- A statement ran at an instant; or the broker answered a publish, having stored the
message or not; or a statement failed, or the relay crashed. -/
inductive Reply where
  | ran (now : ℚ)
  | answered (stored : Bool) (result : Except String Unit)
  | fault
  deriving DecidableEq

inductive Action (π : Type u) where
  | enqueue (eventType : String) (payload : π) (now : ℚ)
  | delete (id : Uuid)
  | acknowledge (id : Uuid) (tenant : String) (outcome : AckOutcome) (now : ℚ)
  | launch
  | advance (index : Nat) (reply : Reply)

namespace State
variable (d : Deployment π)

def set (w : State π) (index : Nat) (pass : Pass π) : State π := {w with passes := w.passes.set index pass}

def update (w : State π) (id : Uuid) (guard : OutboxRow π → Bool) (f : OutboxRow π → OutboxRow π)
    (keeps : ∀ r, (f r).id = r.id) : State π :=
  {w with rows := w.rows.update (fun r => decide (r.id = id) && guard r) f keeps}

def record (w : State π) (attempt : Attempt) (id : Uuid) (now : ℚ) (guard : OutboxRow π → Bool) : State π :=
  {w with
    history := if w.rows.rows.any (fun r => decide (r.id = id) && guard r) then w.history ++ [⟨attempt,id,now⟩]
      else w.history}

def markPublished (w : State π) (id : Uuid) (now : ℚ) : State π :=
  let guard := fun (r : OutboxRow π) => r.publishedAt.isNone
  (w.record .published id now guard).update id guard (.markPublished d.policy now) (fun _ => rfl)

def recordResend (w : State π) (id : Uuid) (now : ℚ) : State π :=
  let guard := fun (r : OutboxRow π) => decide (r.Kept) && r.publishedAt.isSome
  (w.record .published id now guard).update id guard (.recordResend d.policy now) (fun _ => rfl)

def recordFailure (w : State π) (id : Uuid) (failure : String) (republish : Bool) (now : ℚ) : State π :=
  let guard := fun (r : OutboxRow π) => r.publishedAt.isNone != republish
  (w.record .failed id now guard).update id guard (.recordFailure failure now) (fun _ => rfl)

def recordUndeliverable (w : State π) (id : Uuid) (failure : String) (now : ℚ) : State π :=
  w.update id (fun r => r.publishedAt.isNone) (.recordUndeliverable failure now) (fun _ => rfl)

def acknowledge (w : State π) (id : Uuid) (tenant : String) (outcome : AckOutcome) (now : ℚ) : State π :=
  w.update id (fun r => decide (r.Kept) && decide (d.tenantId r.payload = some tenant)) (.acknowledge outcome now)
    (fun _ => rfl)

/- The broker's side of a publish: it acknowledges only what it stored. -/
def answer (w : State π) (message : Message π) (stored : Bool) (result : Except String Unit) : State π :=
  {w with
    stored := if stored then w.stored ++ [message] else w.stored
    acknowledged := if result = .ok () then w.acknowledged ++ [message] else w.acknowledged}

def publishNext (w : State π) (index : Nat) (report : RelayReport) : List (Selected π) → State π
  | [] => w.set index ⟨report,.selectResends⟩
  | row::rest => w.set index ⟨report,.publish row rest⟩

def resendNext (w : State π) (index : Nat) (report : RelayReport) : List (Selected π) → State π
  | [] => w.set index ⟨report,.refreshHealth⟩
  | row::rest => w.set index ⟨report,.resend row rest⟩

def published (w : State π) (index : Nat) (report : RelayReport) (row : Selected π) (rest : List (Selected π)) :
    Except String Unit → State π
  | .ok () => w.set index ⟨report,.markPublished row.id rest⟩
  | .error failure =>
    if failure = payloadTooLarge then w.set index ⟨report,.recordUndeliverable row.id failure rest⟩
    else w.set index ⟨report,.recordFailure row.id failure false⟩

def resent (w : State π) (index : Nat) (report : RelayReport) (row : Selected π) (rest : List (Selected π)) :
    Except String Unit → State π
  | .ok () => w.set index ⟨report,.recordResend row.id rest⟩
  | .error failure => w.set index ⟨report,.recordFailure row.id failure true⟩

/-- One step of run_once. -/
def runOnce (w : State π) (index : Nat) (pass : Pass π) : Reply → Option (State π)
  | .fault => match pass.pc with
    | .done _ => none
    | _ => some (w.set index {pass with pc := .done none})
  | .answered stored result =>
    if result = .ok () ∧ stored = false then none
    else match pass.pc with
      | .publish row rest => match subjectFor row.eventType with
        | none => some (w.set index {pass with pc := .done none})
        | some subject =>
          some ((w.answer ⟨subject,row.id,row.payload⟩ stored result).published index pass.report row rest result)
      | .resend row rest => match subjectFor removalEventType with
        | none => some (w.set index {pass with pc := .done none})
        | some subject =>
          some ((w.answer ⟨subject,row.id,row.payload⟩ stored result).resent index pass.report row rest result)
      | _ => none
  | .ran now => match pass.pc with
    | .select => some (w.publishNext index pass.report (selectDue w.rows.rows now))
    | .markPublished id rest =>
      some ((w.markPublished d id now).publishNext index {pass.report with published := pass.report.published + 1} rest)
    | .recordUndeliverable id failure rest =>
      some ((w.recordUndeliverable id failure now).publishNext index
        {pass.report with undeliverable := pass.report.undeliverable + 1} rest)
    | .recordFailure id failure republish =>
      some ((w.recordFailure id failure republish now).set index
        ⟨{pass.report with failed := pass.report.failed + 1},.refreshHealth⟩)
    | .selectResends => some (w.resendNext index pass.report (selectResends w.rows.rows now))
    | .recordResend id rest =>
      some ((w.recordResend d id now).resendNext index {pass.report with resent := pass.report.resent + 1} rest)
    | .refreshHealth => some (w.set index {pass with pc := .done (some (!w.rows.rows.any (fun r => r.Stuck now)))})
    | _ => none

def step (w : State π) : Action π → Option (State π)
  | .enqueue eventType payload now =>
    if eventType ∈ eventTypes then
      some {w with
        rows := w.rows.insertIgnore (.queued w.minted eventType payload now)
        minted := w.minted + 1}
    else none
  | .delete id =>
    if w.rows.rows.any (fun r => decide (r.id = id) && decide r.Kept) then none
    else some {w with rows := w.rows.delete (fun r => r.id = id)}
  | .acknowledge id tenant outcome now => some (w.acknowledge d id tenant outcome now)
  | .launch => some {w with passes := w.passes ++ [⟨⟨0,0,0,0⟩,.select⟩]}
  | .advance index reply => match w.passes[index]? with
    | some pass => w.runOnce d index pass reply
    | none => none

end State
end RatatoskrX.Relay
