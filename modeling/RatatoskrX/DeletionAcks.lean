import RatatoskrX.Foundation.Delivery
import RatatoskrX.RelayRuns

/-! The consumer of Knowledge's deletion acknowledgements over the outbox of the relays. Every
acknowledgement of every producer arrives here, and a removal is sent again until its own does. -/
namespace RatatoskrX.DeletionAcks
open Schema Relational Transition Delivery Relay RelayRuns
universe u
variable {π : Type u}

abbrev Bytes := List UInt8

def knowledge : String := "ratatoskr-knowledge"

inductive DeletionAckFamily where | social | other
  deriving DecidableEq, Repr

/- Knowledge may come to name outcomes that this service does not know. -/
inductive DeletionAckOutcome where | applied | refused | other
  deriving DecidableEq, Repr

structure KnowledgeDeletionAcknowledged where
  acknowledgedEventId : Uuid
  owner : String
  family : DeletionAckFamily
  outcome : DeletionAckOutcome
  deriving DecidableEq, Repr

structure EventEnvelope where
  producer : String
  tenantId : Option String
  payload : Option KnowledgeDeletionAcknowledged
  deriving DecidableEq, Repr

inductive Handled where | applied | refused | ignored
  deriving DecidableEq, Repr

inductive Rejected where | unattributable | database
  deriving DecidableEq, Repr

def ackOutcome : DeletionAckOutcome → Option AckOutcome
  | .applied => some .applied
  | .refused => some .refused
  | .other => none

/- What one valid message does with the row count of its statement. -/
def handled (changed : Bool) : AckOutcome → Handled
  | .applied => if changed then .applied else .ignored
  | .refused => if changed then .refused else .ignored

structure AcksSummary where
  applied : Nat
  refused : Nat
  ignored : Nat
  terminated : Nat
  retried : Nat
  deriving DecidableEq, Repr

def AcksSummary.count (summary : AcksSummary) : Except Rejected Handled → AcksSummary
  | .ok .applied => {summary with applied := summary.applied + 1}
  | .ok .refused => {summary with refused := summary.refused + 1}
  | .ok .ignored => {summary with ignored := summary.ignored + 1}
  | .error .unattributable => {summary with terminated := summary.terminated + 1}
  | .error .database => {summary with retried := summary.retried + 1}

def disposition : Except Rejected Handled → Option Verdict
  | .ok _ => some .acked
  | .error .unattributable => some .terminated
  | .error .database => none

/- One UPDATE of outbox::acknowledge, before it ran and after. -/
structure AckCall where
  id : Uuid
  tenant : String
  outcome : AckOutcome
  result : Option (Except Rejected Handled)
  deriving DecidableEq

structure World (π : Type u) where
  relay : State π
  calls : List AckCall

inductive Reply where
  | ran (now : ℚ)
  | fault
  | lost (now : ℚ)
  deriving DecidableEq

inductive Act (π : Type u) where
  | relay (action : Action π)
  | apply (index : Nat) (reply : Reply)

section Consumer
variable (d : Deployment π) (fromJson : Bytes → Option EventEnvelope)

def decode (payload : Bytes) : Option KnowledgeDeletionAcknowledged :=
  (fromJson payload).bind (fun envelope =>
    if envelope.producer ≠ knowledge then none
    else envelope.payload.bind (fun acknowledgement =>
      if envelope.tenantId = some acknowledgement.owner then some acknowledgement else none))

/- apply as far as its statement: the call of a message, or what the message comes to without one. -/
def apply (payload : Bytes) : Except (Except Rejected Handled) AckCall :=
  match decode fromJson payload with
  | none => .error (.error .unattributable)
  | some acknowledgement =>
    if acknowledgement.family ≠ .social then .error (.ok .ignored)
    else match ackOutcome acknowledgement.outcome with
      | none => .error (.error .unattributable)
      | some outcome => .ok ⟨acknowledgement.acknowledgedEventId,acknowledgement.owner,outcome,none⟩

namespace World

def opened : World π := ⟨.opened,[]⟩

/- rows_affected() == 1 -/
def changes (w : World π) (call : AckCall) : Bool :=
  w.relay.rows.rows.any (fun r =>
    decide (r.id = call.id) && (decide r.Kept && decide (d.tenantId r.payload = some call.tenant)))

def acknowledge (w : World π) (index : Nat) (call : AckCall) (now : ℚ) (result : Except Rejected Handled) : World π :=
  ⟨w.relay.acknowledge d call.id call.tenant call.outcome now,w.calls.set index {call with result := some result}⟩

def fail (w : World π) (index : Nat) (call : AckCall) : World π :=
  {w with calls := w.calls.set index {call with result := some (.error .database)}}

/- Nothing else in the service acknowledges a removal. -/
def step (w : World π) : Act π → Option (World π)
  | .relay (.acknowledge _ _ _ _) => none
  | .relay action => (w.relay.step d action).map (fun relay => {w with relay := relay})
  | .apply index reply => (w.calls[index]?).bind (fun call =>
    if call.result.isSome then none
    else match reply with
      | .ran now => some (w.acknowledge d index call now (.ok (handled (w.changes d call) call.outcome)))
      | .fault => some (w.fail index call)
      | .lost now => some (w.acknowledge d index call now (.error .database)))

end World

/- consume_deletion_acks -/
def consumer : Consumer (World π) (Act π) Bytes (Except Rejected Handled) where
  step := World.step d
  calls w := w.calls.length
  enters w payload := match apply fromJson payload with
    | .error result => (w,some result)
    | .ok call => ({w with calls := w.calls ++ [call]},none)
  result w index := (w.calls[index]?).bind AckCall.result
  verdict := disposition

def summary (w : Desk (World π) Bytes (Except Rejected Handled)) : AcksSummary :=
  (w.readings.filterMap Reading.counted).foldl AcksSummary.count ⟨0,0,0,0,0⟩

end Consumer

section Rows
variable {d : Deployment π} {w t : State π}

theorem rowFrom {a} (taken : w.step d a = some t) {r'} (after : r' ∈ t.rows.rows) :
    (∃ r ∈ w.rows.rows, fixed r' = fixed r) ∨ (r'.id = w.minted ∧ r'.acknowledgedAt = none) ∨
      ∃ r ∈ w.rows.rows, ∃ tenant outcome now, a = .acknowledge r.id tenant outcome now ∧
        d.tenantId r.payload = some tenant ∧ r' = r.acknowledge outcome now := by
  cases stepsOf taken with
  | enqueue =>
    have found := Table.findMem after
    rw [Table.findInsertIgnore] at found
    cases old : w.rows.find r'.id with
    | some r =>
      rw [old] at found
      cases found
      exact .inl ⟨r',(Table.findIff.mp old).1,rfl⟩
    | none =>
      rw [old,Option.none_or] at found
      split at found
      · rename_i here
        cases found
        exact .inr (.inl ⟨rfl,rfl⟩)
      · cases found
  | delete => exact .inl ⟨r',(Table.memDelete.mp after).1,rfl⟩
  | acknowledge =>
    simp only [State.acknowledge,State.update] at after
    obtain ⟨r,there,rfl⟩ := Table.memUpdate.mp after
    split
    · rename_i meets
      simp only [Bool.and_eq_true,decide_eq_true_eq] at meets
      obtain ⟨rfl,_,tenant⟩ := meets
      exact .inr (.inr ⟨r,there,_,_,_,rfl,tenant,rfl⟩)
    · exact .inl ⟨r,there,rfl⟩
  | launch => exact .inl ⟨r',after,rfl⟩
  | advance found ok =>
    have member := List.mem_map_of_mem (f := fixed) after
    rw [runFixed ok] at member
    obtain ⟨r,there,columns⟩ := List.mem_map.mp member
    exact .inl ⟨r,there,columns.symm⟩

theorem rowBefore {a} (taken : w.step d a = some t) {r'} (after : r' ∈ t.rows.rows) (old : r'.id < w.minted) :
    ∃ r ∈ w.rows.rows, r.id = r'.id ∧ r.payload = r'.payload ∧ (r'.Kept → r.Kept) ∧
      (r.acknowledgedAt ≠ none → r'.acknowledgedAt ≠ none) := by
  rcases rowFrom taken after with ⟨r,before,columns⟩ | ⟨new,_⟩ | ⟨r,before,_,_,now,_,_,rfl⟩
  · simp only [fixed,Prod.mk.injEq] at columns
    obtain ⟨id,eventType,payload,acknowledgedAt,_⟩ := columns
    refine ⟨r,before,id.symm,payload.symm,?_,?_⟩
    · rintro ⟨removal,open_⟩
      exact ⟨eventType ▸ removal,acknowledgedAt ▸ open_⟩
    · intro acknowledged
      rw [acknowledgedAt]
      exact acknowledged
  · exact absurd new (Nat.ne_of_lt old)
  · -- An acknowledged row does not wait.
    refine ⟨r,before,rfl,rfl,?_,fun _ => by simp [OutboxRow.acknowledge]⟩
    rintro ⟨_,open_⟩
    cases open_

/- No removal of the tenant waits under the id any more. -/
def Closed (d : Deployment π) (w : State π) (id : Uuid) (tenant : String) : Prop :=
  id < w.minted ∧ ∀ r ∈ w.rows.rows, r.id = id → d.tenantId r.payload = some tenant → ¬r.Kept

theorem closedStep {a id tenant} (taken : w.step d a = some t) (closed : Closed d w id tenant) : Closed d t id tenant := by
  refine ⟨Nat.lt_of_lt_of_le closed.1 (stepMinted taken).1,?_⟩
  rintro r' after rfl owner kept
  obtain ⟨r,before,same,payload,waits,_⟩ := rowBefore taken after closed.1
  exact closed.2 r before same (payload ▸ owner) (waits kept)

theorem resendsOpen {id tenant now s} (closed : Closed d w id tenant) (selected : s ∈ selectResends w.rows.rows now)
    (named : s.id = id) : d.tenantId s.payload ≠ some tenant := by
  obtain ⟨r,taken,rfl⟩ := List.mem_map.mp selected
  have sorted := List.mem_of_mem_take taken
  rw [List.mem_insertionSort] at sorted
  obtain ⟨member,due⟩ := List.mem_filter.mp sorted
  exact fun owner => closed.2 r member named owner (of_decide_eq_true due).1

theorem closedNow {id tenant} (old : id < w.minted) (outcome now) :
    Closed d (w.acknowledge d id tenant outcome now) id tenant := by
  refine ⟨old,?_⟩
  intro r' after named owner kept
  simp only [State.acknowledge,State.update] at after
  obtain ⟨r,_,rfl⟩ := Table.memUpdate.mp after
  split at kept
  · cases kept.2
  · rename_i missed
    rw [if_neg missed] at named owner
    exact missed (by simp [named,owner,kept])

end Rows

section Worlds
variable {d : Deployment π} {w t : World π} {index : Nat} {call : AckCall}

inductive Moves (d : Deployment π) (w : World π) : World π → Prop where
  | relay {action relay} (own : ∀ id tenant outcome now, action ≠ .acknowledge id tenant outcome now)
      (ran : w.relay.step d action = some relay) : Moves d w {w with relay := relay}
  | acknowledge {i mover now result} (found : w.calls[i]? = some mover) (open_ : mover.result = none)
      (told : result = .ok (handled (w.changes d mover) mover.outcome) ∨ result = .error .database) :
      Moves d w (w.acknowledge d i mover now result)
  | fail {i mover} (found : w.calls[i]? = some mover) (open_ : mover.result = none) : Moves d w (w.fail i mover)

theorem movesOf {a} (taken : w.step d a = some t) : Moves d w t := by
  cases a with
  | relay action =>
    cases action with
    | acknowledge => cases taken
    | launch =>
      cases taken
      exact @Moves.relay _ _ _ .launch _ (by simp) rfl
    | _ =>
      obtain ⟨relay,ran,rfl⟩ := Option.map_eq_some_iff.mp taken
      exact .relay (by simp) ran
  | apply index reply =>
    obtain ⟨call,found,taken⟩ := Option.bind_eq_some_iff.mp taken
    split at taken
    · contradiction
    rename_i open_
    have open_ : call.result = none := Option.not_isSome_iff_eq_none.mp open_
    cases reply with
    | ran now =>
      cases taken
      exact .acknowledge found open_ (.inl rfl)
    | fault =>
      cases taken
      exact .fail found open_
    | lost now =>
      cases taken
      exact .acknowledge found open_ (.inr rfl)

theorem relayMoves (moves : Moves d w t) : t.relay = w.relay ∨ ∃ action, w.relay.step d action = some t.relay := by
  cases moves with
  | relay _ ran => exact .inr ⟨_,ran⟩
  | @acknowledge _ call now => exact .inr ⟨.acknowledge call.id call.tenant call.outcome now,rfl⟩
  | fail => exact .inl rfl

theorem closedMoves {id tenant} (moves : Moves d w t) (closed : Closed d w.relay id tenant) : Closed d t.relay id tenant := by
  rcases relayMoves moves with same | ⟨action,ran⟩
  · exact same ▸ closed
  · exact closedStep ran closed

def Names (call call' : AckCall) : Prop := call'.id = call.id ∧ call'.tenant = call.tenant ∧ call'.outcome = call.outcome

def Follows (call call' : AckCall) : Prop := Names call call' ∧ (call.result ≠ none → call' = call)

theorem callMoves (moves : Moves d w t) : t.calls.length = w.calls.length ∧
    ∀ (i : Nat) call, w.calls[i]? = some call → ∃ call', t.calls[i]? = some call' ∧ Follows call call' := by
  have moved : ∀ {index : Nat} {mover : AckCall} (result), w.calls[index]? = some mover → mover.result = none →
      (w.calls.set index {mover with result := some result}).length = w.calls.length ∧
      ∀ (i : Nat) call, w.calls[i]? = some call →
        ∃ call', (w.calls.set index {mover with result := some result})[i]? = some call' ∧ Follows call call' := by
    intro index mover result found open_
    refine ⟨List.length_set,?_⟩
    intro i call there
    rw [setCall found]
    by_cases same : i = index
    · subst same
      rw [there] at found
      cases found
      exact ⟨_,if_pos rfl,⟨rfl,rfl,rfl⟩,fun ended => absurd open_ ended⟩
    · exact ⟨call,(if_neg same).trans there,⟨rfl,rfl,rfl⟩,fun _ => rfl⟩
  cases moves with
  | relay => exact ⟨rfl,fun i call there => ⟨call,there,⟨rfl,rfl,rfl⟩,fun _ => rfl⟩⟩
  | acknowledge found open_ => exact moved _ found open_
  | fail found open_ => exact moved _ found open_

/- The call ended the resend of a removal. -/
def Ends (result : Option (Except Rejected Handled)) : Prop := result = some (.ok .applied) ∨ result = some (.ok .refused)

/- What every reachable world keeps. -/
structure Sound (d : Deployment π) (w : World π) : Prop where
  named : ∀ call ∈ w.calls, call.id < w.relay.minted
  attributed : ∀ call ∈ w.calls, call.result ≠ some (.error .unattributable)
  closed : ∀ call ∈ w.calls, ∀ result, call.result = some (.ok result) → Closed d w.relay call.id call.tenant
  ended : ∀ call ∈ w.calls, Ends call.result → ∀ r ∈ w.relay.rows.rows, r.id = call.id → r.acknowledgedAt ≠ none
  once : ∀ (i j : Nat) a b, w.calls[i]? = some a → w.calls[j]? = some b → Ends a.result → Ends b.result → a.id = b.id → i = j

theorem soundOpened : Sound d World.opened := by
  constructor <;> simp [World.opened]

theorem acknowledgedMoves (moves : Moves d w t) {id} (old : id < w.relay.minted)
    (before : ∀ r ∈ w.relay.rows.rows, r.id = id → r.acknowledgedAt ≠ none) :
    ∀ r ∈ t.relay.rows.rows, r.id = id → r.acknowledgedAt ≠ none := by
  rintro r' after rfl
  rcases relayMoves moves with same | ⟨action,ran⟩
  · rw [same] at after
    exact before r' after rfl
  · obtain ⟨r,there,named,_,_,stays⟩ := rowBefore ran after old
    exact stays (before r there named)

theorem endsChanges (ends : Ends (some (.ok (handled (w.changes d call) call.outcome)))) :
    ∃ r ∈ w.relay.rows.rows, r.id = call.id ∧ r.Kept ∧ d.tenantId r.payload = some call.tenant := by
  have changed : w.changes d call = true := by
    cases changed : w.changes d call with
    | true => rfl
    | false =>
      rw [changed] at ends
      cases outcome : call.outcome <;> simp [outcome,Ends,handled] at ends
  obtain ⟨r,there,meets⟩ := List.any_eq_true.mp changed
  simp only [Bool.and_eq_true,decide_eq_true_eq] at meets
  exact ⟨r,there,meets.1,meets.2.1,meets.2.2⟩

theorem mintedMoves (moves : Moves d w t) : w.relay.minted ≤ t.relay.minted := by
  rcases relayMoves moves with same | ⟨action,ran⟩
  · exact same ▸ Nat.le_refl _
  · exact (stepMinted ran).1

theorem soundSet {i : Nat} {mover : AckCall} {result} (sound : Sound d w) (moves : Moves d w t) (found : w.calls[i]? = some mover)
    (calls : t.calls = w.calls.set i {mover with result := some result})
    (attributed : result ≠ .error .unattributable) (closed : ∀ done, result = .ok done → Closed d t.relay mover.id mover.tenant)
    (ended : Ends (some result) → ∀ r ∈ t.relay.rows.rows, r.id = mover.id → r.acknowledgedAt ≠ none)
    (first : Ends (some result) → ∀ other ∈ w.calls, Ends other.result → other.id ≠ mover.id) : Sound d t := by
  have at_ : ∀ {j : Nat} {other}, t.calls[j]? = some other →
      j = i ∧ other = {mover with result := some result} ∨ j ≠ i ∧ w.calls[j]? = some other :=
    fun there => setCases found (calls ▸ there)
  have member : mover ∈ w.calls := List.mem_of_getElem? found
  refine ⟨?_,?_,?_,?_,?_⟩
  · intro call there
    refine Nat.lt_of_lt_of_le ?_ (mintedMoves moves)
    rcases List.mem_or_eq_of_mem_set (calls ▸ there) with old | rfl
    · exact sound.named call old
    · exact sound.named mover member
  · intro call there
    rcases List.mem_or_eq_of_mem_set (calls ▸ there) with old | rfl
    · exact sound.attributed call old
    · exact fun states => attributed (Option.some.inj states)
  · intro call there done states
    rcases List.mem_or_eq_of_mem_set (calls ▸ there) with old | rfl
    · exact closedMoves moves (sound.closed call old done states)
    · exact closed done (Option.some.inj states)
  · intro call there ends
    rcases List.mem_or_eq_of_mem_set (calls ▸ there) with old | rfl
    · exact acknowledgedMoves moves (sound.named call old) (sound.ended call old ends)
    · exact ended ends
  · intro j k a b there there' ends ends' same
    rcases at_ there with ⟨rfl,rfl⟩ | ⟨_,before⟩
    · rcases at_ there' with ⟨rfl,rfl⟩ | ⟨_,before'⟩
      · rfl
      · exact absurd same.symm (first ends b (List.mem_of_getElem? before') ends')
    · rcases at_ there' with ⟨rfl,rfl⟩ | ⟨_,before'⟩
      · exact absurd same (first ends' a (List.mem_of_getElem? before) ends)
      · exact sound.once j k a b before before' ends ends' same

theorem soundMoves (sound : Sound d w) (moves : Moves d w t) : Sound d t := by
  cases moves with
  | @relay action relay own ran =>
    refine ⟨?_,sound.attributed,?_,?_,sound.once⟩
    · exact fun call member => Nat.lt_of_lt_of_le (sound.named call member) (mintedMoves (.relay own ran))
    · exact fun call member done states => closedStep ran (sound.closed call member done states)
    · exact fun call member ends => acknowledgedMoves (.relay own ran) (sound.named call member) (sound.ended call member ends)
  | @acknowledge i mover now result found open_ told =>
    have member : mover ∈ w.calls := List.mem_of_getElem? found
    refine soundSet sound (.acknowledge found open_ told) found rfl (by rcases told with rfl | rfl <;> simp)
      (fun done _ => closedNow (sound.named mover member) mover.outcome now) ?_ ?_
    · intro ends r' after named
      rcases told with rfl | rfl
      · obtain ⟨r,there,same,kept,owner⟩ := endsChanges ends
        simp only [World.acknowledge,State.acknowledge,State.update] at after
        obtain ⟨old,before,rfl⟩ := Table.memUpdate.mp after
        split
        · simp [OutboxRow.acknowledge]
        · rename_i missed
          rw [if_neg missed] at named
          cases w.relay.rows.sameRow before there (named.trans same.symm)
          exact absurd (by simp [same,kept,owner]) missed
      · simp [Ends] at ends
    · intro ends other there ends' same
      rcases told with rfl | rfl
      · obtain ⟨r,before,named,kept,_⟩ := endsChanges ends
        exact sound.ended other there ends' r before (named.trans same.symm) kept.2
      · simp [Ends] at ends
  | @fail i mover found open_ =>
    exact soundSet sound (.fail found open_) found rfl (by simp) (by simp) (by simp [Ends]) (by simp [Ends])

end Worlds

section Settled
variable {d : Deployment π} {fromJson : Bytes → Option EventEnvelope}

/- Knowledge answers for a removal that this service has put into its outbox. -/
def Answers (fromJson : Bytes → Option EventEnvelope) (w : World π) (payload : Bytes) : Prop :=
  ∀ acknowledgement ∈ decode fromJson payload, acknowledgement.family = .social →
    acknowledgement.acknowledgedEventId < w.relay.minted

instance (w : World π) (payload) : Decidable (Answers fromJson w payload) :=
  inferInstanceAs (Decidable (∀ acknowledgement ∈ decode fromJson payload, _ → _))

/- Nothing is asked of the runs but that. -/
def answering (fromJson : Bytes → Option EventEnvelope) (w : Desk (World π) Bytes (Except Rejected Handled)) :
    Label (Act π) Bytes → Prop
  | .publish payload => Answers fromJson w.service payload
  | _ => True

instance (w : Desk (World π) Bytes (Except Rejected Handled)) (label) : Decidable (answering fromJson w label) := by
  unfold answering
  cases label <;> infer_instance

def Serves (fromJson : Bytes → Option EventEnvelope) (w : World π) (index : Nat) (payload : Bytes) : Prop :=
  ∃ begun call, apply fromJson payload = .ok begun ∧ w.calls[index]? = some call ∧ Names begun call

/- Why a message left the stream: the removal that it names waits no more, or names none; or
it says nothing that Knowledge can say. -/
def Reason (d : Deployment π) (fromJson : Bytes → Option EventEnvelope) (w : World π) (payload : Bytes) : Verdict → Prop
  | .acked => ∃ acknowledgement, decode fromJson payload = some acknowledgement ∧
      (acknowledgement.family = .social → (ackOutcome acknowledgement.outcome).isSome ∧
        Closed d w.relay acknowledgement.acknowledgedEventId acknowledgement.owner)
  | .terminated => ∀ acknowledgement, decode fromJson payload = some acknowledgement →
      acknowledgement.family = .social ∧ ackOutcome acknowledgement.outcome = none

def terms (d : Deployment π) (fromJson : Bytes → Option EventEnvelope) : Terms (World π) Bytes :=
  ⟨Sound d,Answers fromJson,Serves fromJson,Reason d fromJson⟩

theorem applyCall {payload call} (begins : apply fromJson payload = .ok call) :
    ∃ acknowledgement, decode fromJson payload = some acknowledgement ∧ acknowledgement.family = .social ∧
      ackOutcome acknowledgement.outcome = some call.outcome ∧ call.id = acknowledgement.acknowledgedEventId ∧
      call.tenant = acknowledgement.owner ∧ call.result = none := by
  unfold apply at begins
  split at begins
  · contradiction
  rename_i acknowledgement reads
  split at begins
  · contradiction
  rename_i social
  split at begins
  · contradiction
  rename_i outcome names
  cases begins
  exact ⟨acknowledgement,reads,not_not.mp social,names,rfl,rfl,rfl⟩

theorem applyDecides {w : World π} {payload result} (decides : apply fromJson payload = .error result) {verdict}
    (states : disposition result = some verdict) : Reason d fromJson w payload verdict := by
  unfold apply at decides
  split at decides
  · rename_i reads
    cases decides
    cases states
    intro acknowledgement other
    rw [reads] at other
    cases other
  rename_i acknowledgement reads
  split at decides
  · rename_i foreign
    cases decides
    cases states
    exact ⟨acknowledgement,reads,fun social => absurd social foreign⟩
  rename_i social
  split at decides
  · rename_i unknown
    cases decides
    cases states
    intro other same
    rw [reads] at same
    cases same
    exact ⟨not_not.mp social,unknown⟩
  · contradiction

theorem applyIdle {payload result} (decides : apply fromJson payload = .error result) : ¬Ends (some result) := by
  unfold apply at decides
  repeat' split at decides
  all_goals cases decides
  all_goals simp [Ends]

theorem onwardMoves {w t : World π} (moves : Moves d w t) : Onward (terms d fromJson) w t := by
  refine ⟨?_,?_,?_⟩
  · intro payload answers acknowledgement reads social
    exact Nat.lt_of_lt_of_le (answers acknowledgement reads social) (mintedMoves moves)
  · rintro index payload ⟨begun,call,begins,there,id,tenant,outcome⟩
    obtain ⟨call',there',⟨id',tenant',outcome'⟩,_⟩ := (callMoves moves).2 index call there
    exact ⟨begun,call',begins,there',id'.trans id,tenant'.trans tenant,outcome'.trans outcome⟩
  · rintro payload verdict reason
    cases verdict with
    | terminated => exact reason
    | acked =>
      obtain ⟨acknowledgement,reads,closed⟩ := reason
      exact ⟨acknowledgement,reads,fun social => ⟨(closed social).1,closedMoves moves (closed social).2⟩⟩

theorem soundBegins {w : World π} {payload call} (sound : Sound d w) (answers : Answers fromJson w payload)
    (begins : apply fromJson payload = .ok call) : Sound d {w with calls := w.calls ++ [call]} := by
  obtain ⟨acknowledgement,reads,social,_,id,_,idle⟩ := applyCall begins
  have new : ∀ {other}, other ∈ w.calls ++ [call] → other ∈ w.calls ∨ other = call := by simp
  have at_ : ∀ {j : Nat} {other}, (w.calls ++ [call])[j]? = some other → Ends other.result → w.calls[j]? = some other := by
    intro j other there ends
    rcases Nat.lt_or_ge j w.calls.length with below | above
    · rw [List.getElem?_append_left below] at there
      exact there
    · rw [List.getElem?_append_right above] at there
      cases List.mem_singleton.mp (List.mem_of_getElem? there)
      simp [idle,Ends] at ends
  refine ⟨?_,?_,?_,?_,?_⟩
  · intro other member
    rcases new member with old | rfl
    · exact sound.named other old
    · exact id ▸ answers acknowledgement reads social
  · intro other member
    rcases new member with old | rfl
    · exact sound.attributed other old
    · simp [idle]
  · intro other member done states
    rcases new member with old | rfl
    · exact sound.closed other old done states
    · rw [idle] at states
      cases states
  · intro other member ends
    rcases new member with old | rfl
    · exact sound.ended other old ends
    · simp [idle,Ends] at ends
  · exact fun j k a b there there' ends ends' same => sound.once j k a b (at_ there ends) (at_ there' ends') ends ends' same

theorem acksJustified : Justified (consumer d fromJson) (terms d fromJson) where
  works sound taken := ⟨soundMoves sound (movesOf taken),onwardMoves (movesOf taken)⟩
  enters {w payload} sound answers := by
    simp only [consumer]
    cases begins : apply fromJson payload with
    | error result =>
      exact ⟨sound,⟨fun _ fits => fits,fun _ _ serves => serves,fun _ _ reason => reason⟩,
        fun _ states => applyDecides begins states⟩
    | ok call =>
      refine ⟨soundBegins sound answers begins,⟨fun _ fits => fits,?_,fun _ _ reason => by exact reason⟩,?_⟩
      · rintro index other ⟨begun,call',begins',there,names⟩
        exact ⟨begun,call',begins',sentStays _ there,names⟩
      · exact ⟨call,call,begins,List.getElem?_concat_length,rfl,rfl,rfl⟩
  ends {w index payload result verdict} sound serves ends states := by
    obtain ⟨begun,call,begins,there,id,tenant,_⟩ := serves
    obtain ⟨acknowledgement,reads,social,outcome,named,owner,_⟩ := applyCall begins
    simp only [consumer,there,Option.bind_some] at ends
    have member : call ∈ w.calls := List.mem_of_getElem? there
    cases result with
    | ok done =>
      cases states
      refine ⟨acknowledgement,reads,fun _ => ⟨by rw [outcome]; rfl,?_⟩⟩
      rw [← named,← owner,← id,← tenant]
      exact sound.closed call member done ends
    | error rejected =>
      cases rejected with
      | unattributable => exact absurd ends (sound.attributed call member)
      | database => cases states

theorem acksNumbered : Numbered (consumer d fromJson) := by
  refine ⟨?_,?_⟩
  · intro w t a taken
    obtain ⟨length,follows⟩ := callMoves (movesOf (d := d) taken)
    refine ⟨length.ge,?_⟩
    intro index result ends
    obtain ⟨call,there,ends⟩ := Option.bind_eq_some_iff.mp ends
    obtain ⟨call',there',_,stays⟩ := follows index call there
    cases stays (by simp [ends])
    exact Option.bind_eq_some_iff.mpr ⟨call,there',ends⟩
  · intro w payload
    simp only [consumer]
    cases apply fromJson payload with
    | error result => exact ⟨Nat.le_refl _,by simp,fun _ _ same => same⟩
    | ok call =>
      refine ⟨by simp,by simp,?_⟩
      intro index result ends
      obtain ⟨other,there,ends⟩ := Option.bind_eq_some_iff.mp ends
      exact Option.bind_eq_some_iff.mpr ⟨other,sentStays _ there,ends⟩

structure Heard (d : Deployment π) (fromJson : Bytes → Option EventEnvelope) (sent : List Bytes) (w : World π) : Prop where
  calls : ∀ call ∈ w.calls, ∃ payload ∈ sent, ∃ begun, apply fromJson payload = .ok begun ∧ Names begun call
  rows : ∀ r ∈ w.relay.rows.rows, r.acknowledgedAt ≠ none → ∃ payload ∈ sent, ∃ begun, apply fromJson payload = .ok begun ∧
    begun.id = r.id ∧ d.tenantId r.payload = some begun.tenant ∧ r.ackOutcome = some begun.outcome

theorem heardMoves {sent : List Bytes} {w t : World π} (heard : Heard d fromJson sent w) (moves : Moves d w t) :
    Heard d fromJson sent t := by
  have calls : ∀ call' ∈ t.calls, ∃ payload ∈ sent, ∃ begun, apply fromJson payload = .ok begun ∧ Names begun call' := by
    intro call' member
    obtain ⟨index,there'⟩ := List.getElem?_of_mem member
    obtain ⟨length,follows⟩ := callMoves moves
    have below : index < w.calls.length := length ▸ (List.getElem?_eq_some_iff.mp there').1
    obtain ⟨_,same,⟨id,tenant,outcome⟩,_⟩ := follows index _ (List.getElem?_eq_getElem below)
    rw [there'] at same
    cases same
    obtain ⟨payload,sent_,begun,begins,id',tenant',outcome'⟩ := heard.calls _ (List.getElem_mem below)
    exact ⟨payload,sent_,begun,begins,id.trans id',tenant.trans tenant',outcome.trans outcome'⟩
  -- A row that was acknowledged before has the same columns now.
  have rows : ∀ {action relay}, w.relay.step d action = some relay →
      (∀ id tenant outcome now, action = .acknowledge id tenant outcome now →
        ∃ call ∈ w.calls, id = call.id ∧ tenant = call.tenant ∧ outcome = call.outcome) →
      ∀ r' ∈ relay.rows.rows, r'.acknowledgedAt ≠ none → ∃ payload ∈ sent, ∃ begun, apply fromJson payload = .ok begun ∧
        begun.id = r'.id ∧ d.tenantId r'.payload = some begun.tenant ∧ r'.ackOutcome = some begun.outcome := by
    intro action relay ran named r' after acknowledged
    rcases rowFrom ran after with ⟨r,before,columns⟩ | ⟨_,fresh⟩ | ⟨r,before,tenant,outcome,now,same,owner,rfl⟩
    · simp only [fixed,Prod.mk.injEq] at columns
      obtain ⟨id,_,payload,acknowledgedAt,outcome⟩ := columns
      rw [id,payload,outcome]
      exact heard.rows r before (acknowledgedAt ▸ acknowledged)
    · exact absurd fresh acknowledged
    · obtain ⟨call,member,id,rfl,rfl⟩ := named _ _ _ _ same
      obtain ⟨payload,sent_,begun,begins,id',tenant',outcome'⟩ := heard.calls call member
      exact ⟨payload,sent_,begun,begins,(id.trans id').symm,owner.trans (congrArg some tenant'),congrArg some outcome'⟩
  refine ⟨calls,?_⟩
  cases moves with
  | relay own ran => exact rows ran (fun id tenant outcome now same => absurd same (own id tenant outcome now))
  | @acknowledge i mover now result found =>
    refine rows (show w.relay.step d (.acknowledge mover.id mover.tenant mover.outcome now) = some _ from rfl) ?_
    intro _ _ _ _ same
    cases same
    exact ⟨mover,List.mem_of_getElem? found,rfl,rfl,rfl⟩
  | fail => exact heard.rows

theorem heardStep {w t : Desk (World π) Bytes (Except Rejected Handled)} {label} (heard : Heard d fromJson w.sent w.service)
    (taken : w.step (consumer d fromJson) label = some t) : Heard d fromJson t.sent t.service := by
  refine sentKeeps (c := consumer d fromJson) (P := Heard d fromJson) ?_ ?_ ?_ heard taken
  · intro sent w payload heard
    constructor
    · intro call member
      obtain ⟨other,there,rest⟩ := heard.calls call member
      exact ⟨other,List.mem_append_left _ there,rest⟩
    · intro r member acknowledged
      obtain ⟨other,there,rest⟩ := heard.rows r member acknowledged
      exact ⟨other,List.mem_append_left _ there,rest⟩
  · intro sent w payload member heard
    simp only [consumer]
    cases begins : apply fromJson payload with
    | error result => exact heard
    | ok call =>
      refine ⟨?_,heard.rows⟩
      intro other there
      rcases List.mem_append.mp there with old | new
      · exact heard.calls other old
      · cases List.mem_singleton.mp new
        exact ⟨payload,member,call,begins,rfl,rfl,rfl⟩
  · exact fun heard ran => heardMoves heard (movesOf (d := d) ran)

theorem keptAnswering {labels} {w : Desk (World π) Bytes (Except Rejected Handled)}
    (run : Run (Desk.step (consumer d fromJson)) (answering fromJson) (Desk.opened World.opened) labels w) :
    Kept (consumer d fromJson) (terms d fromJson) w :=
  keptRun acksJustified (fun _ _ answers => answers) run soundOpened

theorem endedCall {labels} {w : Desk (World π) Bytes (Except Rejected Handled)}
    (run : Run (Desk.step (consumer d fromJson)) (answering fromJson) (Desk.opened World.opened) labels w) {r}
    (member : r ∈ w.readings) (ends : Ends r.counted) {begun}
    (reads : (w.sent[r.message]?).map (apply fromJson) = some (.ok begun)) :
    ∃ index call, r.entry = .inl index ∧ w.service.calls[index]? = some call ∧ Ends call.result ∧ call.id = begun.id := by
  obtain ⟨payload,there,served⟩ := (keptAnswering run).readings r member
  rw [there,Option.map_some,Option.some.injEq] at reads
  obtain ⟨result,counted,ended⟩ : ∃ result, r.counted = some result ∧ Ends (some result) :=
    ends.elim (fun same => ⟨_,same,.inl rfl⟩) (fun same => ⟨_,same,.inr rfl⟩)
  rcases (talliedRun acksNumbered run).counted r member result counted with decided | ⟨index,entry,came⟩
  · -- What is decided without a statement ends nothing.
    obtain ⟨w',other,same⟩ := (talliedRun acksNumbered run).decided r member result decided
    simp only [consumer] at same
    split at same
    · rename_i decides
      cases same
      exact absurd ended (applyIdle decides)
    · cases same
  · rw [entry] at served
    obtain ⟨begun',call,begins,here,id,_⟩ := served
    rw [reads] at begins
    cases begins
    simp only [consumer,here,Option.bind_some] at came
    exact ⟨index,call,entry,here,came ▸ ended,id⟩

/- Whatever the relays, the sessions and the broker do, a removal is acknowledged on Knowledge's
word and with its outcome, every message leaves the stream for its reason, and a removal is
counted once. -/
theorem acksSettled {labels} {w : Desk (World π) Bytes (Except Rejected Handled)}
    (run : Run (Desk.step (consumer d fromJson)) (answering fromJson) (Desk.opened World.opened) labels w) :
    (∀ message verdict, (message,verdict) ∈ w.settled →
      ∃ payload, w.sent[message]? = some payload ∧ Reason d fromJson w.service payload verdict) ∧
    (∀ r ∈ w.service.relay.rows.rows, r.acknowledgedAt ≠ none → ∃ payload ∈ w.sent, ∃ begun, apply fromJson payload = .ok begun ∧
      begun.id = r.id ∧ d.tenantId r.payload = some begun.tenant ∧ r.ackOutcome = some begun.outcome) ∧
    ∀ (i j : Nat) a b begun begun', w.readings[i]? = some a → w.readings[j]? = some b → Ends a.counted → Ends b.counted →
      (w.sent[a.message]?).map (apply fromJson) = some (.ok begun) →
      (w.sent[b.message]?).map (apply fromJson) = some (.ok begun') → begun.id = begun'.id → i = j := by
  have kept := keptAnswering run
  have heard : Heard d fromJson w.sent w.service :=
    run.preserves (fun w => Heard d fromJson w.sent w.service) (fun _ _ _ heard _ taken => heardStep heard taken)
      ⟨by simp [Desk.opened,World.opened],by simp [Desk.opened,World.opened,State.opened,Table.empty]⟩
  refine ⟨fun message verdict settled => kept.settled (message,verdict) settled,heard.rows,?_⟩
  intro i j a b begun begun' there there' ends ends' reads reads' same
  obtain ⟨k,left,entry,here,ended,id⟩ := endedCall run (List.mem_of_getElem? there) ends reads
  obtain ⟨l,right,entry',here',ended',id'⟩ := endedCall run (List.mem_of_getElem? there') ends' reads'
  have sound : Sound d w.service := kept.service
  have one : k = l := sound.once k l left right here here' ended ended' (id.trans (same.trans id'.symm))
  subst one
  exact (talliedRun acksNumbered run).same there there' entry entry'

/- A removal whose acknowledgement is read twice, the first reply of the database lost. -/
def answered : List (Label (Act String) Bytes) :=
  [.work (.relay (.enqueue removalEventType "5" 0)),.publish [1],.publish [2],.receive 0,.work (.apply 0 (.lost 10)),.settle 0 true,
    .receive 0,.work (.apply 1 (.ran 20)),.settle 1 true,.receive 1,.settle 2 true]

def readAck (payload : Bytes) : Option EventEnvelope :=
  if payload = [1] then some ⟨knowledge,some "5",some ⟨0,"5",.social,.refused⟩⟩ else none

def answeredEnd : Desk (World String) Bytes (Except Rejected Handled) :=
  (replay (Desk.step (consumer timely readAck)) (answering readAck) (Desk.opened World.opened) answered).get (by decide +kernel)

theorem acksSettledAtRefusal : answeredEnd.settled = [(0,.acked),(1,.terminated)] ∧ summary answeredEnd = ⟨0,0,1,1,1⟩ ∧
    ∃ r ∈ answeredEnd.service.relay.rows.rows, r.ackOutcome = some .refused ∧
      ∃ payload ∈ answeredEnd.sent, ∃ begun, apply readAck payload = .ok begun ∧ begun.id = r.id ∧
        some r.payload = some begun.tenant ∧ r.ackOutcome = some begun.outcome := by
  have run : Run (Desk.step (consumer timely readAck)) (answering readAck) (Desk.opened World.opened) answered answeredEnd :=
    replayRun (Option.some_get _).symm
  obtain ⟨r,member,refused,acknowledged⟩ : ∃ r ∈ answeredEnd.service.relay.rows.rows,
      r.ackOutcome = some .refused ∧ r.acknowledgedAt ≠ none := by decide +kernel
  exact ⟨by decide +kernel,by decide +kernel,r,member,refused,(acksSettled run).2.1 r member acknowledged⟩

theorem ackSettles (v : Desk (World π) Bytes (Except Rejected Handled)) (message payload)
    (there : v.sent[message]? = some payload) (open_ : ¬v.Settled message) :
    ∃ labels u verdict, Run (Desk.step (consumer d fromJson)) (answering fromJson) v labels u ∧ u.sent = v.sent ∧
      u.settled = v.settled ++ [(message,verdict)] := by
  have quiet : Quiet (answering fromJson : Desk (World π) Bytes (Except Rejected Handled) → _) := by
    intro w label other
    cases label with
    | publish payload => exact absurd rfl (other payload)
    | _ => trivial
  cases begins : apply fromJson payload with
  | error result =>
    have decides : (consumer d fromJson).enters v.service payload = (v.service,some result) := by
      simp only [consumer,begins]
    obtain ⟨verdict,states⟩ : ∃ verdict, disposition result = some verdict := by
      unfold apply at begins
      repeat' split at begins
      all_goals cases begins
      all_goals exact ⟨_,rfl⟩
    obtain ⟨labels,u,run,_,sent,settled⟩ := settles (c := consumer d fromJson) quiet there open_ (.nil _)
      (.inl (congrArg Prod.snd decides)) states
    exact ⟨labels,u,verdict,run,sent,settled⟩
  | ok call =>
    obtain ⟨_,_,_,_,_,_,idle⟩ := applyCall begins
    let begun : World π := {v.service with calls := v.service.calls ++ [call]}
    have enters : (consumer d fromJson).enters v.service payload = (begun,none) := by simp only [consumer,begins,begun]
    have here : begun.calls[v.service.calls.length]? = some call := List.getElem?_concat_length
    let done : Except Rejected Handled := .ok (handled (begun.changes d call) call.outcome)
    let last : World π := begun.acknowledge d v.service.calls.length call 0 done
    have ran : Run (consumer d fromJson).step free ((consumer d fromJson).enters v.service payload).1
        [.apply v.service.calls.length (.ran 0)] last := by
      rw [enters]
      refine .cons trivial ?_ (.nil _)
      simp only [consumer,World.step,here,Option.bind_some,idle,Option.isSome_none,Bool.false_eq_true,if_false,last,done]
    have ends : (consumer d fromJson).result last v.service.calls.length = some done := by
      simp only [consumer,last,World.acknowledge]
      rw [setCall here,if_pos rfl]
      rfl
    obtain ⟨labels,u,run,_,sent,settled⟩ := settles (c := consumer d fromJson) quiet there open_ ran
      (.inr ⟨congrArg Prod.snd enters,ends⟩) (show (consumer d fromJson).verdict done = some .acked from rfl)
    exact ⟨labels,u,.acked,run,sent,settled⟩

/- What is closed stays closed, whatever the relays, the sessions and the broker do. -/
theorem closedRun {guard labels id tenant} {w u : Desk (World π) Bytes (Except Rejected Handled)}
    (run : Run (Desk.step (consumer d fromJson)) guard w labels u) (closed : Closed d w.service.relay id tenant) :
    Closed d u.service.relay id tenant := by
  refine run.preserves (fun w => Closed d w.service.relay id tenant) ?_ closed
  intro w _ u closed _ taken
  refine sentKeeps (c := consumer d fromJson) (P := fun _ s => Closed d s.relay id tenant) (fun _ closed => closed) ?_
    (fun closed ran => closedMoves (movesOf ran) closed) closed taken
  intro _ s payload _ closed
  simp only [consumer]
  split <;> exact closed

/- From wherever the relays and the sessions stand the stream can be drained, and then no
removal that Knowledge answered waits for it; a resend pass that selects its rows from then
on takes none of them. -/
theorem acksDrain {labels} {v : Desk (World π) Bytes (Except Rejected Handled)}
    (run : Run (Desk.step (consumer d fromJson)) (answering fromJson) (Desk.opened World.opened) labels v) :
    ∃ labels' u, Run (Desk.step (consumer d fromJson)) (answering fromJson) v labels' u ∧ u.sent = v.sent ∧
      (∀ message payload, u.sent[message]? = some payload →
        ∃ verdict, (message,verdict) ∈ u.settled ∧ Reason d fromJson u.service payload verdict) ∧
      ∀ payload ∈ u.sent, ∀ begun, apply fromJson payload = .ok begun →
        Closed d u.service.relay begun.id begun.tenant ∧
        ∀ labels' x, Run (Desk.step (consumer d fromJson)) free u labels' x → ∀ now,
          ∀ s ∈ selectResends x.service.relay.rows.rows now, s.id = begun.id → d.tenantId s.payload ≠ some begun.tenant := by
  obtain ⟨labels',u,onward,sent,all⟩ := drains (c := consumer d fromJson) (w := v) (fun _ => True)
    (fun v message payload _ there open_ => by
      obtain ⟨labels,u,verdict,run,sent,settled⟩ := ackSettles v message payload there open_
      exact ⟨labels,u,verdict,run,trivial,sent,settled⟩) trivial
  have kept := keptAnswering (run.append onward)
  have reasons : ∀ message payload, u.sent[message]? = some payload →
      ∃ verdict, (message,verdict) ∈ u.settled ∧ Reason d fromJson u.service payload verdict := by
    intro message payload there
    obtain ⟨⟨_,verdict⟩,settled,rfl⟩ := List.mem_map.mp (all message (List.getElem?_eq_some_iff.mp there).1)
    obtain ⟨payload',there',reason⟩ := kept.settled _ settled
    rw [there] at there'
    cases there'
    exact ⟨verdict,settled,reason⟩
  refine ⟨labels',u,onward,sent,reasons,?_⟩
  intro payload member begun begins
  suffices closed : Closed d u.service.relay begun.id begun.tenant from
    ⟨closed,fun _ _ later _ _ selected => resendsOpen (closedRun later closed) selected⟩
  obtain ⟨message,there⟩ := List.getElem?_of_mem member
  obtain ⟨acknowledgement,reads,social,outcome,id,tenant,_⟩ := applyCall begins
  obtain ⟨verdict,_,reason⟩ := reasons message payload there
  cases verdict with
  | acked =>
    obtain ⟨other,same,closed⟩ := reason
    rw [reads] at same
    cases same
    rw [id,tenant]
    exact (closed social).2
  | terminated =>
    have unknown := (reason acknowledgement reads).2
    rw [outcome] at unknown
    cases unknown

def awaiting : Desk (World String) Bytes (Except Rejected Handled) :=
  (replay (Desk.step (consumer timely readAck)) (answering readAck) (Desk.opened World.opened) (answered.take 4)).get
    (by decide +kernel)

theorem acksDrainAtRefusal : ∃ labels u, Run (Desk.step (consumer timely readAck)) (answering readAck) awaiting labels u ∧
    (∃ verdict, (0,verdict) ∈ u.settled) ∧ Closed timely u.service.relay 0 "5" ∧
    ∀ s ∈ selectResends u.service.relay.rows.rows 1000, s.id = 0 → s.payload ≠ "5" := by
  have run : Run (Desk.step (consumer timely readAck)) (answering readAck) (Desk.opened World.opened) (answered.take 4) awaiting :=
    replayRun (Option.some_get _).symm
  obtain ⟨labels,u,onward,sent,drained,closed⟩ := acksDrain run
  have there : awaiting.sent[0]? = some [1] := by decide +kernel
  rw [← sent] at there
  obtain ⟨verdict,settled,_⟩ := drained 0 [1] there
  obtain ⟨ended,quiet⟩ := closed [1] (List.mem_of_getElem? there) ⟨0,"5",.refused,none⟩ (by rfl)
  exact ⟨labels,u,onward,⟨verdict,settled⟩,ended,
    fun s selected named owner => quiet [] u (.nil u) 1000 s selected named (congrArg some owner)⟩

end Settled
end RatatoskrX.DeletionAcks
