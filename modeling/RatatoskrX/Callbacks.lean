import RatatoskrX.Connection
import RatatoskrX.Foundation.Transition

/-! Presentations of authorization callbacks, side by side. A presentation looks its intent up,
checks the expiry and consumes the intent in three steps; the statements are transactions of
their own, and the clock is read twice and never goes back. -/
namespace RatatoskrX.Callbacks
open Relational Schema Writeback Sealing Connection Transition

structure IntentRow where
  id : Uuid
  internalUserId : Uuid
  accountId : Option Uuid
  purpose : String
  stateHash : Digest
  codeVerifierEncrypted : Bytes
  requestedScopes : List String
  expiresAt : DateTime
  consumedAt : Option DateTime
  bound : (purpose = "read_connection" ∧ accountId = none) ∨ (purpose = "bookmark_write" ∧ accountId.isSome = true)
  deriving DecidableEq

structure Intents where
  table : Table IntentRow IntentRow.id
  states : table.UniqueOn IntentRow.stateHash

structure ResolvedCallback where
  accepted : AcceptedCallback
  codeVerifier : String
  deriving DecidableEq, Repr

inductive CallbackResolution where
  | accepted (callback : ResolvedCallback)
  | expired | replayed | unmatched
  deriving DecidableEq, Repr

inductive ConsumeOutcome where | consumed | alreadyConsumed
  deriving DecidableEq, Repr

inductive Pc where
  | find
  | check (intent : IntentRow)
  | consume (intent : IntentRow)
  | done (result : Except FlowError CallbackResolution)
  deriving DecidableEq

/- A presentation, with the clock when it came and when it was checked, and whether an intent
had its state when it came. -/
structure Presentation where
  state : String
  presentedAt : DateTime
  issued : Bool
  checkedAt : Option DateTime
  pc : Pc

structure World where
  intents : Intents
  clock : DateTime
  calls : List Presentation
  consumptions : List (Uuid × Nat)

inductive Label where
  | issue (state verifier : String) (internalUserId : Uuid) (purpose : IntentPurpose) (requestedScopes : List String)
      (expiresAt : DateTime) (nonce : Nonce)
  | tick (now : DateTime)
  | present (state : String)
  | advance (index : Nat) (ack : Ack)

def World.opened (clock : DateTime) : World := ⟨⟨.empty,List.nodup_nil⟩,clock,[],[]⟩

section Statements
variable (config : Config)

def stateDigest (state : String) : Digest := sha256Hex config.sha256 (utf8 state)

def persistenceBinding : IntentPurpose → String × Option Uuid
  | .readConnection => ("read_connection",none)
  | .bookmarkWrite accountId => ("bookmark_write",some accountId)

def findIntentByStateHash (intents : Intents) (stateHash : Digest) : Option IntentRow :=
  intents.table.rows.find? (fun row => row.stateHash = stateHash)

def unconsumed (id : Uuid) (row : IntentRow) : Bool := row.id = id && row.consumedAt.isNone

/-- UPDATE ... WHERE id = $1 AND consumed_at IS NULL, and whether it met a row. -/
def consumeIntent (intents : Intents) (id : Uuid) (now : DateTime) : Intents × ConsumeOutcome :=
  (⟨intents.table.update (unconsumed id) (fun row => {row with consumedAt := some now}) (fun _ => rfl),
      intents.states.update (fun _ => rfl)⟩,
    if intents.table.rows.any (unconsumed id) then .consumed else .alreadyConsumed)

/- What resolve_callback makes of the row that it consumed. -/
def acceptance (intent : IntentRow) : Except FlowError CallbackResolution :=
  match openEnvelope config.gcm (ownerOf intent.internalUserId) .intentVerifier intent.codeVerifierEncrypted with
  | .error error => .error (.cipher error)
  | .ok verifierBytes =>
    let purpose : Option IntentPurpose :=
      if intent.purpose = "read_connection" ∧ intent.accountId = none then some .readConnection
      else if intent.purpose = "bookmark_write" then intent.accountId.map .bookmarkWrite
      else none
    match purpose with
    | none => .error .configuration
    | some purpose => match CredentialPayload.fromUtf8 verifierBytes with
      | none => .error (.cipher .auth)
      | some codeVerifier =>
        .ok (.accepted ⟨⟨intent.id,intent.internalUserId,purpose,intent.requestedScopes⟩,codeVerifier⟩)

/-- insert_intent of an issued intent; a duplicate state digest is refused. -/
def insertIntent (intents : Intents) (state verifier : String) (internalUserId : Uuid) (purpose : IntentPurpose)
    (requestedScopes : List String) (expiresAt : DateTime) (nonce : Nonce) : Option Intents :=
  if fresh : stateDigest config state ∉ intents.table.rows.map IntentRow.stateHash then
    some ⟨intents.table.append
      ⟨freshId (intents.table.rows.map IntentRow.id),internalUserId,(persistenceBinding purpose).2,
        (persistenceBinding purpose).1,stateDigest config state,
        sealEnvelope config.gcm nonce (ownerOf internalUserId) .intentVerifier (utf8 verifier),requestedScopes,expiresAt,none,
        by cases purpose <;> simp [persistenceBinding]⟩ (freshIdAbsent _),intents.states.append fresh⟩
  else none

end Statements

section Steps
variable (config : Config)

def World.move (w : World) (index : Nat) (call : Presentation) (pc : Pc) : World :=
  {w with calls := w.calls.set index {call with pc := pc}}

/-- resolve_callback, step by step. A statement without its acknowledgement fails the call. -/
def resolve (w : World) (index : Nat) (call : Presentation) (ack : Ack) : Option World :=
  match call.pc,ack with
  | .find,.ok => match findIntentByStateHash w.intents (stateDigest config call.state) with
    | none => some (w.move index call (.done (.ok .unmatched)))
    | some intent => some (w.move index call (.check intent))
  | .find,_ => some (w.move index call (.done (.error .persistence)))
  | .check intent,.ok =>
    let checked := {call with checkedAt := some w.clock}
    if intent.expiresAt ≤ w.clock then some (w.move index checked (.done (.ok .expired)))
    else some (w.move index checked (.consume intent))
  | .check _,_ => none
  | .consume _,.fault => some (w.move index call (.done (.error .persistence)))
  | .consume intent,ack =>
    match consumeIntent w.intents intent.id w.clock with
    | (_,.alreadyConsumed) => some (w.move index call (.done (if ack = .ok then .ok .replayed else .error .persistence)))
    | (consumed,.consumed) =>
      some {w.move index call (.done (if ack = .ok then acceptance config intent else .error .persistence)) with
        intents := consumed, consumptions := w.consumptions ++ [(intent.id,index)]}
  | .done _,_ => none

def step (w : World) : Label → Option World
  | .issue state verifier internalUserId purpose requestedScopes expiresAt nonce =>
    if (Purpose.intentVerifier.bindingPrefix (ownerOf internalUserId) ++ utf8 verifier).length ≤ plaintextMax then
      (insertIntent config w.intents state verifier internalUserId purpose requestedScopes expiresAt nonce).map
        (fun intents => {w with intents := intents})
    else none
  | .tick now => if w.clock ≤ now then some {w with clock := now} else none
  | .present state =>
    some {w with calls := w.calls ++
      [⟨state,w.clock,(findIntentByStateHash w.intents (stateDigest config state)).isSome,none,.find⟩]}
  | .advance index ack => match w.calls[index]? with
    | none => none
    | some call => resolve config w index call ack

end Steps
end RatatoskrX.Callbacks
