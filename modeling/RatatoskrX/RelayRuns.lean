import Mathlib.Tactic.Linarith
import RatatoskrX.Relay

/-! What every run of the relay keeps: a row is published, undeliverable or due again,
and an unacknowledged removal that was published stays armed for its next copy. -/
namespace RatatoskrX.RelayRuns
open Schema Relational Transition Relay
universe u
variable {π : Type u}

def lastAt (history : List Recorded) (attempt : Attempt) (id : Uuid) : Option ℚ :=
  (history.filter (fun e => decide (e.attempt = attempt ∧ e.id = id))).getLast?.map Recorded.recordedAt

theorem lastSame (history : List Recorded) (attempt id now) :
    lastAt (history ++ [⟨attempt,id,now⟩]) attempt id = some now := by
  simp [lastAt]

theorem lastOther (history : List Recorded) {attempt id} {e : Recorded} (other : ¬(e.attempt = attempt ∧ e.id = id)) :
    lastAt (history ++ [e]) attempt id = lastAt history attempt id := by
  simp only [lastAt,List.filter_append,List.filter_cons,decide_eq_false other,List.filter_nil,List.append_nil,
    Bool.false_eq_true,if_false]

def Confirmed (w : State π) (r : OutboxRow π) : Prop :=
  ∃ m ∈ w.acknowledged, m ∈ w.stored ∧ m.messageId = r.id ∧ m.payload = r.payload ∧
    subjectFor r.eventType = some m.subject

/- The row is published, undeliverable, or due within five minutes of its last failure. -/
def Accounted (w : State π) (r : OutboxRow π) : Prop :=
  r.publishedAt ≠ none ∨ r.undeliverableAt ≠ none ∨
    r.nextAttemptAt ≤ (lastAt w.history .failed r.id).elim r.createdAt (fun t => t + 300)

/- The next copy of the row is due within the cap of its last one. -/
def Armed (policy : ResendPolicy) (w : State π) (r : OutboxRow π) : Prop :=
  ∃ last next, lastAt w.history .published r.id = some last ∧ r.nextResendAt = some next ∧ next ≤ last + policy.cap

structure RowSound (policy : ResendPolicy) (w : State π) (r : OutboxRow π) : Prop where
  minted : r.id < w.minted
  confirmed : r.publishedAt ≠ none → Confirmed w r
  accounted : Accounted w r
  armed : policy.after ≤ policy.cap → r.Kept → r.publishedAt ≠ none → Armed policy w r
  removal : r.acknowledgedAt ≠ none → r.eventType = removalEventType
  unanswered : r.acknowledgedAt = none → r.ackOutcome = none

/- What a pass selected is what the row still says. -/
def Known (w : State π) (s : Selected π) : Prop :=
  s.id < w.minted ∧ ∀ r ∈ w.rows.rows, r.id = s.id → r.eventType = s.eventType ∧ r.payload = s.payload

def resends : PassPc π → List (Selected π)
  | .resend row rest => row::rest
  | .recordResend _ rest => rest
  | _ => []

def publishes : PassPc π → List (Selected π)
  | .publish row rest => row::rest
  | .markPublished _ rest => rest
  | .recordUndeliverable _ _ rest => rest
  | _ => []

structure PassSound (w : State π) (pc : PassPc π) : Prop where
  publishes : ∀ s ∈ publishes pc, Known w s
  resends : ∀ s ∈ resends pc, Known w s ∧ s.eventType = removalEventType
  confirmed : ∀ id rest, pc = .markPublished id rest → id < w.minted ∧ ∀ r ∈ w.rows.rows, r.id = id → Confirmed w r

structure Sound (policy : ResendPolicy) (w : State π) : Prop where
  rows : ∀ r ∈ w.rows.rows, RowSound policy w r
  passes : ∀ (index : Nat) pass, w.passes[index]? = some pass → PassSound w pass.pc
  recorded : ∀ e ∈ w.history, e.id < w.minted

/- A step keeps what rows are about, and forgets nothing of the broker. -/
structure Extends (w t : State π) : Prop where
  minted : w.minted ≤ t.minted
  acknowledged : ∀ m ∈ w.acknowledged, m ∈ t.acknowledged
  stored : ∀ m ∈ w.stored, m ∈ t.stored
  rows : ∀ r' ∈ t.rows.rows, r'.id < w.minted →
    ∃ r ∈ w.rows.rows, r.id = r'.id ∧ r.eventType = r'.eventType ∧ r.payload = r'.payload

section Frame
variable {policy : ResendPolicy} {w t : State π}

theorem confirmedExtends (grows : Extends w t) {r r' : OutboxRow π} (confirmed : Confirmed w r) (id : r.id = r'.id)
    (type : r.eventType = r'.eventType) (payload : r.payload = r'.payload) : Confirmed t r' := by
  obtain ⟨m,acknowledged,stored,named,carries,subject⟩ := confirmed
  exact ⟨m,grows.acknowledged m acknowledged,grows.stored m stored,named.trans id,carries.trans payload,type ▸ subject⟩

theorem knownExtends (grows : Extends w t) {s : Selected π} (known : Known w s) : Known t s := by
  refine ⟨lt_of_lt_of_le known.1 grows.minted,?_⟩
  intro r' member same
  obtain ⟨r,before,id,type,payload⟩ := grows.rows r' member (same ▸ known.1)
  obtain ⟨type',payload'⟩ := known.2 r before (id.trans same)
  exact ⟨type.symm.trans type',payload.symm.trans payload'⟩

theorem passExtends (grows : Extends w t) {pc} (sound : PassSound w pc) : PassSound t pc := by
  refine ⟨fun s member => knownExtends grows (sound.publishes s member),?_,?_⟩
  · intro s member
    obtain ⟨known,type⟩ := sound.resends s member
    exact ⟨knownExtends grows known,type⟩
  · intro id rest same
    obtain ⟨minted,confirmed⟩ := sound.confirmed id rest same
    refine ⟨lt_of_lt_of_le minted grows.minted,?_⟩
    intro r' member named
    obtain ⟨r,before,id',type,payload⟩ := grows.rows r' member (named ▸ minted)
    exact confirmedExtends grows (confirmed r before (id'.trans named)) id' type payload

theorem rowExtends (grows : Extends w t) {r : OutboxRow π} (sound : RowSound policy w r)
    (history : ∀ attempt, lastAt t.history attempt r.id = lastAt w.history attempt r.id) : RowSound policy t r := by
  refine ⟨lt_of_lt_of_le sound.minted grows.minted,?_,?_,?_,sound.removal,sound.unanswered⟩
  · intro published
    exact confirmedExtends grows (sound.confirmed published) rfl rfl rfl
  · have accounted := sound.accounted
    unfold Accounted at accounted ⊢
    rwa [history]
  · intro ordered kept published
    obtain ⟨last,next,at_,armed,bound⟩ := sound.armed ordered kept published
    exact ⟨last,next,(history _).trans at_,armed,bound⟩

theorem extendsSame (rows : t.rows = w.rows) (minted : t.minted = w.minted)
    (acknowledged : ∀ m ∈ w.acknowledged, m ∈ t.acknowledged) (stored : ∀ m ∈ w.stored, m ∈ t.stored) : Extends w t := by
  refine ⟨minted.ge,acknowledged,stored,?_⟩
  intro r' member _
  exact ⟨r',rows ▸ member,rfl,rfl,rfl⟩

theorem soundSet (sound : Sound policy w) {index pass} (own : PassSound w pass.pc) : Sound policy (w.set index pass) := by
  have grows : Extends w (w.set index pass) := extendsSame rfl rfl (fun _ member => member) (fun _ member => member)
  refine ⟨fun r member => rowExtends grows (sound.rows r member) (fun _ => rfl),?_,sound.recorded⟩
  intro j other there
  refine passExtends grows ?_
  simp only [State.set,List.getElem?_set] at there
  split at there
  · split at there
    · cases Option.some.inj there
      exact own
    · cases there
  · exact sound.passes j other there

theorem passIdle {pc : PassPc π} (publishing : publishes pc = []) (resending : resends pc = [])
    (marking : ∀ id rest, pc ≠ .markPublished id rest) : PassSound w pc := by
  refine ⟨?_,?_,fun id rest same => absurd same (marking id rest)⟩
  · simp [publishing]
  · simp [resending]

theorem soundPublishNext (sound : Sound policy w) {index report} {rows : List (Selected π)}
    (known : ∀ s ∈ rows, Known w s) : Sound policy (w.publishNext index report rows) := by
  cases rows with
  | nil => exact soundSet sound (passIdle rfl rfl (by simp))
  | cons row rest => exact soundSet sound ⟨known,by simp [resends],by simp⟩

theorem soundResendNext (sound : Sound policy w) {index report} {rows : List (Selected π)}
    (known : ∀ s ∈ rows, Known w s ∧ s.eventType = removalEventType) :
    Sound policy (w.resendNext index report rows) := by
  cases rows with
  | nil => exact soundSet sound (passIdle rfl rfl (by simp))
  | cons row rest => exact soundSet sound ⟨by simp [publishes],known,by simp⟩

end Frame

section Statements
variable {policy : ResendPolicy} {w t : State π} {id : Uuid} {guard : OutboxRow π → Bool} {f : OutboxRow π → OutboxRow π}

theorem recordOther {attempt now} {k : Uuid} (other : k ≠ id) (kind) :
    lastAt (w.record attempt id now guard).history kind k = lastAt w.history kind k := by
  unfold State.record
  dsimp only
  split
  · exact lastOther _ (fun same => other same.2.symm)
  · rfl

theorem recordQuiet {attempt now} (none : ∀ r ∈ w.rows.rows, r.id = id → guard r = false) :
    (w.record attempt id now guard).history = w.history := by
  unfold State.record
  dsimp only
  rw [if_neg]
  rw [List.any_eq_true]
  rintro ⟨r,member,meets⟩
  simp only [Bool.and_eq_true,decide_eq_true_eq] at meets
  rw [none r member meets.1] at meets
  cases meets.2

theorem recordMet {attempt now} {r : OutboxRow π} (member : r ∈ w.rows.rows) (same : r.id = id) (meets : guard r = true) :
    (w.record attempt id now guard).history = w.history ++ [⟨attempt,id,now⟩] := by
  unfold State.record
  dsimp only
  rw [if_pos]
  exact List.any_eq_true.mpr ⟨r,member,by simp [same,meets]⟩

theorem recordEntries {attempt now} : ∀ e ∈ (w.record attempt id now guard).history, e ∈ w.history ∨ e.id = id := by
  unfold State.record
  dsimp only
  split
  · intro e member
    rcases List.mem_append.mp member with old | new
    · exact .inl old
    · exact .inr (List.mem_singleton.mp new ▸ rfl)
  · exact fun e member => .inl member

theorem soundUpdate (keeps) (sound : Sound policy w)
    (rows : t.rows = w.rows.update (fun r => decide (r.id = id) && guard r) f keeps)
    (minted : t.minted = w.minted) (acknowledged : t.acknowledged = w.acknowledged) (stored : t.stored = w.stored)
    (passes : t.passes = w.passes) (same : ∀ r, (f r).eventType = r.eventType ∧ (f r).payload = r.payload)
    (others : ∀ k, k ≠ id → ∀ kind, lastAt t.history kind k = lastAt w.history kind k)
    (quiet : (∀ r ∈ w.rows.rows, r.id = id → guard r = false) → t.history = w.history)
    (recorded : ∀ e ∈ t.history, e ∈ w.history ∨ e.id = id)
    (changed : Extends w t → ∀ r ∈ w.rows.rows, r.id = id → guard r = true → RowSound policy w r →
      RowSound policy t (f r)) : Sound policy t ∧ Extends w t := by
  have grows : Extends w t := by
    refine ⟨minted.ge,fun m member => acknowledged ▸ member,fun m member => stored ▸ member,?_⟩
    intro r' member _
    rw [rows] at member
    obtain ⟨r,before,rfl⟩ := Table.memUpdate.mp member
    refine ⟨r,before,?_⟩
    split
    · exact ⟨(keeps r).symm,(same r).1.symm,(same r).2.symm⟩
    · exact ⟨rfl,rfl,rfl⟩
  refine ⟨⟨?_,?_,?_⟩,grows⟩
  · intro r' member
    rw [rows] at member
    obtain ⟨r,before,rfl⟩ := Table.memUpdate.mp member
    have own := sound.rows r before
    split
    · rename_i meets
      simp only [Bool.and_eq_true,decide_eq_true_eq] at meets
      exact changed grows r before meets.1 meets.2 own
    · rename_i missed
      refine rowExtends grows own ?_
      intro kind
      by_cases here : r.id = id
      · rw [quiet]
        intro other there named
        rw [w.rows.sameRow there before (named.trans here.symm)]
        simpa [here] using missed
      · exact others _ here kind
  · intro index pass there
    rw [passes] at there
    exact passExtends grows (sound.passes index pass there)
  · intro e member
    rw [minted]
    by_cases met : ∃ r ∈ w.rows.rows, r.id = id ∧ guard r = true
    · obtain ⟨r,there,same,_⟩ := met
      rcases recorded e member with old | here
      · exact sound.recorded e old
      · exact here ▸ same ▸ (sound.rows r there).minted
    · rw [quiet] at member
      · exact sound.recorded e member
      · intro r there same
        exact Bool.eq_false_iff.mpr (fun meets => met ⟨r,there,same,meets⟩)

theorem soundMarkPublished {d : Deployment π} (now) (sound : Sound d.policy w)
    (confirmed : ∀ r ∈ w.rows.rows, r.id = id → Confirmed w r) :
    Sound d.policy (w.markPublished d id now) ∧ Extends w (w.markPublished d id now) := by
  refine soundUpdate (by intro r; rfl) sound rfl rfl rfl rfl rfl (fun _ => ⟨rfl,rfl⟩) (fun _ other kind => recordOther other kind)
    recordQuiet recordEntries ?_
  intro grows r member same meets own
  have history : (w.markPublished d id now).history = w.history ++ [⟨.published,id,now⟩] :=
    recordMet member same meets
  refine ⟨own.minted,?_,.inl (by simp [OutboxRow.markPublished]),?_,own.removal,own.unanswered⟩
  · intro _
    exact confirmedExtends grows (confirmed r member same) rfl rfl rfl
  · intro ordered kept _
    refine ⟨now,now + d.policy.after,?_,if_pos kept.1,by linarith⟩
    rw [history,show (OutboxRow.markPublished d.policy now r).id = id from same]
    exact lastSame ..

theorem soundRecordResend {d : Deployment π} (id now) (sound : Sound d.policy w) :
    Sound d.policy (w.recordResend d id now) ∧ Extends w (w.recordResend d id now) := by
  refine soundUpdate (by intro r; rfl) sound rfl rfl rfl rfl rfl (fun _ => ⟨rfl,rfl⟩) (fun _ other kind => recordOther other kind)
    recordQuiet recordEntries ?_
  intro grows r member same meets own
  have history : (w.recordResend d id now).history = w.history ++ [⟨.published,id,now⟩] := recordMet member same meets
  simp only [Bool.and_eq_true] at meets
  have published : r.publishedAt ≠ none := Option.isSome_iff_ne_none.mp meets.2
  refine ⟨own.minted,?_,.inl published,?_,own.removal,own.unanswered⟩
  · intro _
    exact confirmedExtends grows (own.confirmed published) rfl rfl rfl
  · intro _ _ _
    refine ⟨now,_,?_,rfl,?_⟩
    · rw [history,show (OutboxRow.recordResend d.policy now r).id = id from same]
      exact lastSame ..
    · have bound : OutboxRow.resendDelay d.policy r.resendCount ≤ d.policy.cap := min_le_right ..
      linarith

theorem soundRecordFailure (id failure republish now) (sound : Sound policy w) :
    Sound policy (w.recordFailure id failure republish now) ∧ Extends w (w.recordFailure id failure republish now) := by
  refine soundUpdate (by intro r; rfl) sound rfl rfl rfl rfl rfl (fun _ => ⟨rfl,rfl⟩) (fun _ other kind => recordOther other kind)
    recordQuiet recordEntries ?_
  intro grows r member same meets own
  have history : (w.recordFailure id failure republish now).history = w.history ++ [⟨.failed,id,now⟩] :=
    recordMet member same meets
  refine ⟨own.minted,?_,.inr (.inr ?_),?_,own.removal,own.unanswered⟩
  · intro published
    exact confirmedExtends grows (own.confirmed published) rfl rfl rfl
  · rw [history,show (OutboxRow.recordFailure failure now r).id = id from same,lastSame]
    have bound : OutboxRow.backoff r.attemptCount ≤ 300 := min_le_left ..
    simp only [Option.elim_some,OutboxRow.recordFailure]
    linarith
  · intro ordered kept published
    obtain ⟨last,next,at_,armed,bound⟩ := own.armed ordered kept published
    refine ⟨last,next,?_,armed,bound⟩
    rw [history,lastOther _ (by simp)]
    exact at_

theorem soundRecordUndeliverable (id failure now) (sound : Sound policy w) :
    Sound policy (w.recordUndeliverable id failure now) ∧ Extends w (w.recordUndeliverable id failure now) := by
  refine soundUpdate (by intro r; rfl) sound rfl rfl rfl rfl rfl (fun _ => ⟨rfl,rfl⟩) (fun _ _ _ => rfl) (fun _ => rfl)
    (fun _ member => .inl member) ?_
  intro grows r _ _ _ own
  refine ⟨own.minted,?_,.inr (.inl (by simp [OutboxRow.recordUndeliverable])),own.armed,own.removal,own.unanswered⟩
  intro published
  exact confirmedExtends grows (own.confirmed published) rfl rfl rfl

theorem soundAcknowledge {d : Deployment π} {tenant outcome now} (sound : Sound d.policy w) :
    Sound d.policy (w.acknowledge d id tenant outcome now) ∧ Extends w (w.acknowledge d id tenant outcome now) := by
  refine soundUpdate (by intro r; rfl) sound rfl rfl rfl rfl rfl (fun _ => ⟨rfl,rfl⟩) (fun _ _ _ => rfl) (fun _ => rfl)
    (fun _ member => .inl member) ?_
  intro grows r _ _ meets own
  simp only [Bool.and_eq_true,decide_eq_true_eq] at meets
  refine ⟨own.minted,?_,own.accounted,?_,fun _ => meets.1.1,fun unset => by cases unset⟩
  · intro published
    exact confirmedExtends grows (own.confirmed published) rfl rfl rfl
  · intro _ kept
    cases kept.2

theorem soundEnqueue {eventType payload now} (sound : Sound policy w) (rows : t.rows = w.rows.insertIgnore
      (.queued w.minted eventType payload now))
    (rest : t = {w with rows := t.rows, minted := w.minted + 1}) : Sound policy t ∧ Extends w t := by
  have fresh : w.rows.find w.minted = none := by
    refine Table.findNone.mpr ?_
    intro member
    obtain ⟨r,there,same⟩ := List.mem_map.mp member
    have old := (sound.rows r there).minted
    rw [same] at old
    exact Nat.lt_irrefl _ old
  have appended : t.rows.rows = w.rows.rows ++ [.queued w.minted eventType payload now] := by
    rw [rows]
    exact Table.insertIgnoreRows fresh
  have minted : t.minted = w.minted + 1 := by rw [rest]
  have history : t.history = w.history := by rw [rest]
  have grows : Extends w t := by
    refine ⟨minted ▸ Nat.le_succ _,?_,?_,?_⟩
    · intro m member
      rw [rest]
      exact member
    · intro m member
      rw [rest]
      exact member
    · intro r' member old
      rw [appended] at member
      rcases List.mem_append.mp member with before | new
      · exact ⟨r',before,rfl,rfl,rfl⟩
      · cases List.mem_singleton.mp new
        exact absurd old (Nat.lt_irrefl _)
  refine ⟨⟨?_,?_,?_⟩,grows⟩
  · intro r member
    rw [appended] at member
    rcases List.mem_append.mp member with before | new
    · exact rowExtends grows (sound.rows r before) (fun _ => by rw [history])
    · cases List.mem_singleton.mp new
      refine ⟨?_,?_,.inr (.inr ?_),?_,?_,fun _ => rfl⟩
      · rw [minted]
        exact Nat.lt_succ_self _
      · intro published
        exact absurd rfl published
      · have unrecorded : lastAt t.history .failed w.minted = none := by
          rw [history]
          simp only [lastAt,Option.map_eq_none_iff,List.getLast?_eq_none_iff,List.filter_eq_nil_iff,decide_eq_true_eq]
          rintro e member ⟨_,same⟩
          have old := sound.recorded e member
          rw [same] at old
          exact Nat.lt_irrefl _ old
        simp only [OutboxRow.queued,unrecorded,Option.elim_none]
        exact le_refl now
      · intro _ _ published
        exact absurd rfl published
      · intro acknowledged
        exact absurd rfl acknowledged
  · intro index pass there
    rw [rest] at there
    exact passExtends grows (sound.passes index pass there)
  · intro e member
    rw [history] at member
    rw [minted]
    exact Nat.lt_succ_of_lt (sound.recorded e member)

theorem soundDelete {p : OutboxRow π → Bool} (sound : Sound policy w) (rest : t = {w with rows := w.rows.delete p}) :
    Sound policy t ∧ Extends w t := by
  have kept : ∀ r ∈ t.rows.rows, r ∈ w.rows.rows := by
    intro r member
    rw [rest] at member
    exact (Table.memDelete.mp member).1
  have history : t.history = w.history := by rw [rest]
  have minted : t.minted = w.minted := by rw [rest]
  have grows : Extends w t := by
    refine ⟨minted.ge,?_,?_,fun r member _ => ⟨r,kept r member,rfl,rfl,rfl⟩⟩
    · intro m member
      rw [rest]
      exact member
    · intro m member
      rw [rest]
      exact member
  refine ⟨⟨?_,?_,?_⟩,grows⟩
  · intro r member
    exact rowExtends grows (sound.rows r (kept r member)) (fun _ => by rw [history])
  · intro index pass there
    rw [rest] at there
    exact passExtends grows (sound.passes index pass there)
  · intro e member
    rw [history] at member
    rw [minted]
    exact sound.recorded e member

theorem soundAnswer (message stored result) (sound : Sound policy w) :
    Sound policy (w.answer message stored result) ∧ Extends w (w.answer message stored result) := by
  have grows : Extends w (w.answer message stored result) := by
    refine ⟨le_refl _,?_,?_,fun r member _ => ⟨r,member,rfl,rfl,rfl⟩⟩
    · intro m member
      simp only [State.answer]
      split
      · exact List.mem_append_left _ member
      · exact member
    · intro m member
      simp only [State.answer]
      split
      · exact List.mem_append_left _ member
      · exact member
  refine ⟨⟨?_,?_,sound.recorded⟩,grows⟩
  · intro r member
    exact rowExtends grows (sound.rows r member) (fun _ => rfl)
  · intro index pass there
    exact passExtends grows (sound.passes index pass there)

theorem selectKnown (sound : Sound policy w) {r : OutboxRow π} (member : r ∈ w.rows.rows) : Known w r.selected := by
  refine ⟨(sound.rows r member).minted,?_⟩
  intro other there same
  rw [w.rows.sameRow there member same]
  exact ⟨rfl,rfl⟩

theorem dueKnown (sound : Sound policy w) {now} : ∀ s ∈ selectDue w.rows.rows now, Known w s := by
  intro s member
  obtain ⟨r,taken,rfl⟩ := List.mem_map.mp member
  have sorted := List.mem_of_mem_take taken
  rw [List.mem_insertionSort] at sorted
  exact selectKnown sound (List.mem_filter.mp sorted).1

theorem resendsDue {rows : List (OutboxRow π)} {now s} (member : s ∈ selectResends rows now) :
    ∃ r ∈ rows, r.selected = s ∧ r.ResendDue now := by
  obtain ⟨r,taken,same⟩ := List.mem_map.mp member
  have sorted := List.mem_of_mem_take taken
  rw [List.mem_insertionSort] at sorted
  obtain ⟨there,due⟩ := List.mem_filter.mp sorted
  exact ⟨r,there,same,of_decide_eq_true due⟩

theorem resendsKnown (sound : Sound policy w) {now} :
    ∀ s ∈ selectResends w.rows.rows now, Known w s ∧ s.eventType = removalEventType := by
  intro s member
  obtain ⟨r,there,rfl,due⟩ := resendsDue member
  exact ⟨selectKnown sound there,due.1.1⟩

end Statements

section Runs
variable {d : Deployment π} {w t u : State π} {index : Nat} {pass : Pass π}

theorem Extends.trans (first : Extends w t) (second : Extends t u) : Extends w u := by
  refine ⟨first.minted.trans second.minted,fun m member => second.acknowledged m (first.acknowledged m member),
    fun m member => second.stored m (first.stored m member),?_⟩
  intro r'' member old
  obtain ⟨r',there,id,type,payload⟩ := second.rows r'' member (lt_of_lt_of_le old first.minted)
  obtain ⟨r,before,id',type',payload'⟩ := first.rows r' there (id.symm ▸ old)
  exact ⟨r,before,id'.trans id,type'.trans type,payload'.trans payload⟩

theorem soundPublished {row rest subject stored result} (sound : Sound d.policy w)
    (known : ∀ s ∈ row::rest, Known w s) (subject_ : subjectFor row.eventType = some subject)
    (honest : ¬(result = .ok () ∧ stored = false)) :
    Sound d.policy ((w.answer ⟨subject,row.id,row.payload⟩ stored result).published index pass.report row rest result) := by
  obtain ⟨sound',grows⟩ := soundAnswer ⟨subject,row.id,row.payload⟩ stored result sound
  have later : ∀ s ∈ rest, Known (w.answer ⟨subject,row.id,row.payload⟩ stored result) s :=
    fun s member => knownExtends grows (known s (List.mem_cons_of_mem _ member))
  have here := knownExtends grows (known row List.mem_cons_self)
  cases result with
  | error failure =>
    simp only [State.published]
    split
    · exact soundSet sound' ⟨later,by simp [resends],by simp⟩
    · exact soundSet sound' (passIdle rfl rfl (by simp))
  | ok =>
    refine soundSet sound' ⟨later,by simp [resends],?_⟩
    rintro id rest' same
    cases same
    refine ⟨here.1,?_⟩
    intro r member named
    have kept : stored = true := by
      cases stored with
      | true => rfl
      | false => exact absurd ⟨rfl,rfl⟩ honest
    obtain ⟨type,payload⟩ := here.2 r member named
    refine ⟨⟨subject,row.id,row.payload⟩,?_,?_,named.symm,payload.symm,type ▸ subject_⟩
    · simp [State.answer]
    · simp [State.answer,kept]

theorem soundResent {row rest subject stored result} (sound : Sound d.policy w)
    (known : ∀ s ∈ row::rest, Known w s ∧ s.eventType = removalEventType) :
    Sound d.policy ((w.answer ⟨subject,row.id,row.payload⟩ stored result).resent index pass.report row rest result) := by
  obtain ⟨sound',grows⟩ := soundAnswer ⟨subject,row.id,row.payload⟩ stored result sound
  cases result with
  | error failure => exact soundSet sound' (passIdle rfl rfl (by simp))
  | ok =>
    refine soundSet sound' ⟨by simp [publishes],?_,by simp⟩
    intro s member
    obtain ⟨before,type⟩ := known s (List.mem_cons_of_mem _ member)
    exact ⟨knownExtends grows before,type⟩

theorem soundRunOnce {reply} (sound : Sound d.policy w)
    (found : w.passes[index]? = some pass) (taken : w.runOnce d index pass reply = some t) : Sound d.policy t := by
  have own := sound.passes index pass found
  have ends : ∀ healthy, Sound d.policy (w.set index {pass with pc := .done healthy}) :=
    fun _ => soundSet sound (passIdle rfl rfl (by simp))
  cases reply with
  | fault =>
    simp only [State.runOnce] at taken
    split at taken
    · cases taken
    · cases Option.some.inj taken
      exact ends none
  | answered stored result =>
    simp only [State.runOnce] at taken
    split at taken
    · cases taken
    · rename_i honest
      split at taken
      · rename_i row rest pc
        rw [pc] at own
        split at taken
        · cases Option.some.inj taken
          exact ends none
        · rename_i subject there
          cases Option.some.inj taken
          exact soundPublished sound own.publishes there honest
      · rename_i row rest pc
        rw [pc] at own
        split at taken
        · cases Option.some.inj taken
          exact ends none
        · cases Option.some.inj taken
          exact soundResent sound own.resends
      · cases taken
  | ran now =>
    simp only [State.runOnce] at taken
    split at taken
    · cases Option.some.inj taken
      exact soundPublishNext sound (dueKnown sound)
    · rename_i id rest pc
      rw [pc] at own
      cases Option.some.inj taken
      obtain ⟨sound',grows⟩ := soundMarkPublished now sound (own.confirmed id rest rfl).2
      exact soundPublishNext sound' (fun s member => knownExtends grows (own.publishes s member))
    · rename_i id failure rest pc
      rw [pc] at own
      cases Option.some.inj taken
      obtain ⟨sound',grows⟩ := soundRecordUndeliverable id failure now sound
      exact soundPublishNext sound' (fun s member => knownExtends grows (own.publishes s member))
    · rename_i id failure republish pc
      cases Option.some.inj taken
      obtain ⟨sound',_⟩ := soundRecordFailure id failure republish now sound
      exact soundSet sound' (passIdle rfl rfl (by simp))
    · cases Option.some.inj taken
      exact soundResendNext sound (resendsKnown sound)
    · rename_i id rest pc
      rw [pc] at own
      cases Option.some.inj taken
      obtain ⟨sound',grows⟩ := soundRecordResend id now sound
      refine soundResendNext sound' ?_
      intro s member
      obtain ⟨known,type⟩ := own.resends s member
      exact ⟨knownExtends grows known,type⟩
    · cases Option.some.inj taken
      exact ends _
    · cases taken

theorem soundOpened {policy : ResendPolicy} : Sound policy (.opened : State π) := by
  refine ⟨?_,?_,?_⟩
  · intro r member
    cases member
  · intro j other there
    simp [State.opened] at there
  · intro e member
    cases member

theorem soundLaunch (sound : Sound d.policy w) :
    Sound d.policy {w with passes := w.passes ++ [⟨⟨0,0,0,0⟩,.select⟩]} := by
  have grows : Extends w {w with passes := w.passes ++ [⟨⟨0,0,0,0⟩,.select⟩]} :=
    extendsSame rfl rfl (fun _ member => member) (fun _ member => member)
  refine ⟨fun r member => rowExtends grows (sound.rows r member) (fun _ => rfl),?_,sound.recorded⟩
  intro j other there
  rcases lt_or_ge j w.passes.length with old | fresh
  · rw [List.getElem?_append_left old] at there
    exact passExtends grows (sound.passes j other there)
  · rw [List.getElem?_append_right fresh] at there
    cases List.mem_singleton.mp (List.mem_of_getElem? there)
    exact passIdle rfl rfl (by simp)

/- Everything one step of the system can be. -/
inductive Steps (d : Deployment π) (w : State π) : Action π → State π → Prop where
  | enqueue {eventType payload now} (known : eventType ∈ eventTypes) :
      Steps d w (.enqueue eventType payload now) {w with
        rows := w.rows.insertIgnore (.queued w.minted eventType payload now)
        minted := w.minted + 1}
  | delete {id} (spent : ∀ r ∈ w.rows.rows, r.id = id → ¬r.Kept) :
      Steps d w (.delete id) {w with rows := w.rows.delete (fun r => r.id = id)}
  | acknowledge {id tenant outcome now} :
      Steps d w (.acknowledge id tenant outcome now) (w.acknowledge d id tenant outcome now)
  | launch : Steps d w .launch {w with passes := w.passes ++ [⟨⟨0,0,0,0⟩,.select⟩]}
  | advance {index reply pass t} (found : w.passes[index]? = some pass) (ok : w.runOnce d index pass reply = some t) :
      Steps d w (.advance index reply) t

theorem stepsOf {a} (taken : w.step d a = some t) : Steps d w a t := by
  cases a with
  | enqueue eventType payload now =>
    simp only [State.step] at taken
    split at taken
    · rename_i known
      cases Option.some.inj taken
      exact .enqueue known
    · cases taken
  | delete id =>
    simp only [State.step] at taken
    split at taken
    · cases taken
    · rename_i spent
      cases Option.some.inj taken
      refine .delete ?_
      intro r member named kept
      exact spent (List.any_eq_true.mpr ⟨r,member,by simp [named,kept]⟩)
  | acknowledge id tenant outcome now =>
    cases Option.some.inj taken
    exact .acknowledge
  | launch =>
    cases Option.some.inj taken
    exact .launch
  | advance index reply =>
    simp only [State.step] at taken
    split at taken
    · rename_i pass found
      exact .advance found taken
    · cases taken

theorem soundStep {a} (sound : Sound d.policy w)
    (taken : w.step d a = some t) : Sound d.policy t := by
  cases stepsOf taken with
  | enqueue => exact (soundEnqueue sound rfl rfl).1
  | delete => exact (soundDelete sound rfl).1
  | acknowledge => exact (soundAcknowledge sound).1
  | launch => exact soundLaunch sound
  | advance found ok => exact soundRunOnce sound found ok

theorem soundRun {labels} (run : Run (State.step d) free w labels t)
    (sound : Sound d.policy w) : Sound d.policy t :=
  run.preserves (Sound d.policy) (fun _ _ _ sound _ taken => soundStep sound taken) sound

end Runs

section Acknowledgements
variable {d : Deployment π} {w t : State π} {index : Nat} {pass : Pass π}

/- The columns that no pass changes. -/
def fixed (r : OutboxRow π) : Uuid × String × π × Option ℚ × Option AckOutcome :=
  (r.id,r.eventType,r.payload,r.acknowledgedAt,r.ackOutcome)

theorem updateFixed (w : State π) (id guard) {f : OutboxRow π → OutboxRow π} (keeps) (same : ∀ r, fixed (f r) = fixed r) :
    (w.update id guard f keeps).rows.rows.map fixed = w.rows.rows.map fixed := by
  simp only [State.update,Table.update,List.map_map]
  refine List.map_congr_left ?_
  intro r _
  simp only [Function.comp_apply]
  split
  · exact same r
  · rfl

theorem publishNextPass (w : State π) (index report) (rows : List (Selected π)) :
    ∃ pass, w.publishNext index report rows = w.set index pass ∧ resends pass.pc = [] := by
  cases rows <;> exact ⟨_,rfl,rfl⟩

theorem resendNextPass (w : State π) (index report) (rows : List (Selected π)) :
    ∃ pass, w.resendNext index report rows = w.set index pass ∧ resends pass.pc = rows := by
  cases rows <;> exact ⟨_,rfl,rfl⟩

theorem publishedPass (w : State π) (index report row rest result) :
    ∃ pass, w.published index report row rest result = w.set index pass ∧ resends pass.pc = [] := by
  cases result with
  | ok => exact ⟨_,rfl,rfl⟩
  | error failure =>
    simp only [State.published]
    split <;> exact ⟨_,rfl,rfl⟩

theorem resentPass (w : State π) (index report row rest result) :
    ∃ pass, w.resent index report row rest result = w.set index pass ∧ ∀ s ∈ resends pass.pc, s ∈ row::rest := by
  cases result with
  | ok => exact ⟨_,rfl,fun s member => List.mem_cons_of_mem _ member⟩
  | error failure => exact ⟨_,rfl,by simp [resends]⟩

/- What a step of a pass does: it changes no column that is fixed, and sends again what the
pass had selected, or selects unacknowledged removals. -/
structure Turn (w : State π) (index : Nat) (pass : Pass π) (t u : State π) (pass' : Pass π) : Prop where
  set : t = u.set index pass'
  passes : u.passes = w.passes
  minted : u.minted = w.minted
  fixed : u.rows.rows.map fixed = w.rows.rows.map fixed
  resends : ∀ s ∈ resends pass'.pc, s ∈ resends pass.pc ∨ ∃ r ∈ w.rows.rows, r.Kept ∧ r.selected = s

theorem runTurn {reply} (taken : w.runOnce d index pass reply = some t) : ∃ u pass', Turn w index pass t u pass' := by
  cases reply with
  | fault =>
    simp only [State.runOnce] at taken
    split at taken
    · cases taken
    · cases Option.some.inj taken
      exact ⟨w,_,rfl,rfl,rfl,rfl,by simp [resends]⟩
  | answered stored result =>
    simp only [State.runOnce] at taken
    split at taken
    · cases taken
    · split at taken
      · split at taken
        · cases Option.some.inj taken
          exact ⟨w,_,rfl,rfl,rfl,rfl,by simp [resends]⟩
        · rename_i row rest _ _ subject _
          obtain ⟨pass',next,none⟩ := publishedPass (w.answer ⟨subject,row.id,row.payload⟩ stored result) index pass.report
            row rest result
          rw [next] at taken
          cases Option.some.inj taken
          exact ⟨_,pass',rfl,rfl,rfl,rfl,by simp [none]⟩
      · rename_i row rest pc
        split at taken
        · cases Option.some.inj taken
          exact ⟨w,_,rfl,rfl,rfl,rfl,by simp [resends]⟩
        · rename_i subject _
          obtain ⟨pass',next,left⟩ := resentPass (w.answer ⟨subject,row.id,row.payload⟩ stored result) index pass.report
            row rest result
          rw [next] at taken
          cases Option.some.inj taken
          refine ⟨_,pass',rfl,rfl,rfl,rfl,?_⟩
          intro s member
          rw [pc]
          exact .inl (left s member)
      · cases taken
  | ran now =>
    simp only [State.runOnce] at taken
    split at taken
    · obtain ⟨pass',next,none⟩ := publishNextPass w index pass.report (selectDue w.rows.rows now)
      rw [next] at taken
      cases Option.some.inj taken
      exact ⟨w,pass',rfl,rfl,rfl,rfl,by simp [none]⟩
    · rename_i id rest _
      obtain ⟨pass',next,none⟩ := publishNextPass (w.markPublished d id now) index
        {pass.report with published := pass.report.published + 1} rest
      rw [next] at taken
      cases Option.some.inj taken
      exact ⟨_,pass',rfl,rfl,rfl,updateFixed _ _ _ _ (fun _ => rfl),by simp [none]⟩
    · rename_i id failure rest _
      obtain ⟨pass',next,none⟩ := publishNextPass (w.recordUndeliverable id failure now) index
        {pass.report with undeliverable := pass.report.undeliverable + 1} rest
      rw [next] at taken
      cases Option.some.inj taken
      exact ⟨_,pass',rfl,rfl,rfl,updateFixed _ _ _ _ (fun _ => rfl),by simp [none]⟩
    · cases Option.some.inj taken
      exact ⟨_,_,rfl,rfl,rfl,updateFixed _ _ _ _ (fun _ => rfl),by simp [resends]⟩
    · obtain ⟨pass',next,chosen⟩ := resendNextPass w index pass.report (selectResends w.rows.rows now)
      rw [next] at taken
      cases Option.some.inj taken
      refine ⟨w,pass',rfl,rfl,rfl,rfl,?_⟩
      intro s member
      rw [chosen] at member
      obtain ⟨r,there,same,due⟩ := resendsDue member
      exact .inr ⟨r,there,due.1,same⟩
    · rename_i id rest pc
      obtain ⟨pass',next,left⟩ := resendNextPass (w.recordResend d id now) index
        {pass.report with resent := pass.report.resent + 1} rest
      rw [next] at taken
      cases Option.some.inj taken
      refine ⟨_,pass',rfl,rfl,rfl,updateFixed _ _ _ _ (fun _ => rfl),?_⟩
      intro s member
      rw [pc]
      exact .inl (left ▸ member)
    · cases Option.some.inj taken
      exact ⟨w,_,rfl,rfl,rfl,rfl,by simp [resends]⟩
    · cases taken

theorem runFixed {reply} (taken : w.runOnce d index pass reply = some t) :
    t.rows.rows.map fixed = w.rows.rows.map fixed := by
  obtain ⟨u,pass',turn⟩ := runTurn taken
  rw [turn.set]
  exact turn.fixed

/- What a step may do to a row that is there before and after it. -/
def Answers (d : Deployment π) (a : Action π) (r r' : OutboxRow π) : Prop :=
  r'.eventType = r.eventType ∧ r'.payload = r.payload ∧
    (r'.acknowledgedAt = r.acknowledgedAt ∧ r'.ackOutcome = r.ackOutcome ∨
      r.acknowledgedAt = none ∧ r.ackOutcome = none ∧ r.eventType = removalEventType ∧
        ∃ tenant outcome now, a = .acknowledge r.id tenant outcome now ∧ d.tenantId r.payload = some tenant ∧
          r'.acknowledgedAt = some now ∧ r'.ackOutcome = some outcome)

theorem answersFixed {a : Action π} {r r' : OutboxRow π} (same : fixed r' = fixed r) : Answers d a r r' := by
  simp only [fixed,Prod.mk.injEq] at same
  exact ⟨same.2.1,same.2.2.1,.inl same.2.2.2⟩

theorem answersSame (a : Action π) (r : OutboxRow π) : Answers d a r r := answersFixed rfl

theorem stepAnswers {policy : ResendPolicy} {a} (sound : Sound policy w) (taken : w.step d a = some t) {r r' : OutboxRow π}
    (before : r ∈ w.rows.rows) (after : r' ∈ t.rows.rows) (same : r'.id = r.id) : Answers d a r r' := by
  cases stepsOf taken with
  | enqueue =>
    have found := Table.findMem after
    rw [Table.findInsertIgnore,same,Table.findMem before] at found
    cases Option.some.inj found
    exact answersSame _ _
  | delete =>
    rw [w.rows.sameRow (Table.memDelete.mp after).1 before same]
    exact answersSame _ _
  | acknowledge =>
    simp only [State.acknowledge,State.update] at after
    obtain ⟨old,there,rfl⟩ := Table.memUpdate.mp after
    split at same
    · rename_i meets
      rw [if_pos meets]
      cases w.rows.sameRow there before same
      simp only [Bool.and_eq_true,decide_eq_true_eq] at meets
      obtain ⟨rfl,kept,tenant⟩ := meets
      exact ⟨rfl,rfl,.inr ⟨kept.2,(sound.rows _ before).unanswered kept.2,kept.1,_,_,_,rfl,tenant,rfl,rfl⟩⟩
    · rename_i missed
      rw [if_neg missed]
      cases w.rows.sameRow there before same
      exact answersSame _ _
  | launch =>
    rw [w.rows.sameRow after before same]
    exact answersSame _ _
  | advance found ok =>
    have member := List.mem_map_of_mem (f := fixed) after
    rw [runFixed ok] at member
    obtain ⟨old,there,columns⟩ := List.mem_map.mp member
    have named : old.id = r'.id := congrArg Prod.fst columns
    rw [w.rows.sameRow there before (named.trans same)] at columns
    exact answersFixed columns.symm

theorem keptStays {a} (taken : w.step d a = some t) {r : OutboxRow π} (before : r ∈ w.rows.rows) (kept : r.Kept) :
    ∃ r' ∈ t.rows.rows, r'.id = r.id := by
  cases stepsOf taken with
  | @enqueue eventType payload now =>
    have found := Table.findInsertIgnore w.rows (.queued w.minted eventType payload now) r.id
    rw [Table.findMem before] at found
    exact ⟨r,(Table.findIff.mp found).1,rfl⟩
  | delete spent => exact ⟨r,Table.memDelete.mpr ⟨before,decide_eq_false (fun named => spent r before named kept)⟩,rfl⟩
  | acknowledge =>
    refine ⟨_,List.mem_map_of_mem before,?_⟩
    dsimp only
    split <;> rfl
  | launch => exact ⟨r,before,rfl⟩
  | advance found ok =>
    have member := List.mem_map_of_mem (f := fixed) before
    rw [← runFixed ok] at member
    obtain ⟨r',there,columns⟩ := List.mem_map.mp member
    exact ⟨r',there,congrArg Prod.fst columns⟩

end Acknowledgements

section Resends
variable {d : Deployment π} {w t : State π} {index : Nat} {pass : Pass π}

theorem stepResends {a} (taken : w.step d a = some t) {pass' s} (there : t.passes[index]? = some pass')
    (member : s ∈ resends pass'.pc) :
    (∃ pass, w.passes[index]? = some pass ∧ s ∈ resends pass.pc) ∨ ∃ r ∈ w.rows.rows, r.Kept ∧ r.selected = s := by
  cases stepsOf taken with
  | enqueue | delete | acknowledge => exact .inl ⟨pass',there,member⟩
  | launch =>
    rcases lt_or_ge index w.passes.length with old | fresh
    · rw [List.getElem?_append_left old] at there
      exact .inl ⟨pass',there,member⟩
    · rw [List.getElem?_append_right fresh] at there
      cases List.mem_singleton.mp (List.mem_of_getElem? there)
      cases member
  | @advance j _ old _ found ok =>
    obtain ⟨u,own,turn⟩ := runTurn ok
    rw [turn.set] at there
    simp only [State.set,turn.passes] at there
    rw [setCall found] at there
    split at there
    · rename_i here
      cases Option.some.inj there
      rcases turn.resends s member with before | chosen
      · exact .inl ⟨old,here ▸ found,before⟩
      · exact .inr chosen
    · exact .inl ⟨pass',there,member⟩

/- The row is acknowledged, or gone, and a pass that did not hold it never sends it again. -/
structure Settled (id : Uuid) (index : Nat) (w : State π) : Prop where
  minted : id < w.minted
  acknowledged : ∀ r ∈ w.rows.rows, r.id = id → r.acknowledgedAt ≠ none
  unsent : ∀ pass, w.passes[index]? = some pass → ∀ s ∈ resends pass.pc, s.id ≠ id

theorem stepMinted {a} (taken : w.step d a = some t) :
    w.minted ≤ t.minted ∧ ∀ r' ∈ t.rows.rows, r'.id < w.minted → ∃ r ∈ w.rows.rows, r.id = r'.id := by
  cases stepsOf taken with
  | enqueue =>
    refine ⟨Nat.le_succ _,?_⟩
    intro r' member old
    have found := Table.findMem member
    rw [Table.findInsertIgnore,if_neg (by exact (Nat.ne_of_lt old).symm),Option.or_none] at found
    exact ⟨r',(Table.findIff.mp found).1,rfl⟩
  | delete => exact ⟨le_refl _,fun r' member _ => ⟨r',(Table.memDelete.mp member).1,rfl⟩⟩
  | acknowledge =>
    refine ⟨le_refl _,?_⟩
    intro r' member _
    simp only [State.acknowledge,State.update] at member
    obtain ⟨r,before,rfl⟩ := Table.memUpdate.mp member
    refine ⟨r,before,?_⟩
    split <;> rfl
  | launch => exact ⟨le_refl _,fun r' member _ => ⟨r',member,rfl⟩⟩
  | advance found ok =>
    obtain ⟨u,pass',turn⟩ := runTurn ok
    refine ⟨?_,?_⟩
    · rw [turn.set]
      exact turn.minted.ge
    · intro r' member _
      have there := List.mem_map_of_mem (f := fixed) member
      rw [runFixed ok] at there
      obtain ⟨r,before,columns⟩ := List.mem_map.mp there
      exact ⟨r,before,congrArg Prod.fst columns⟩

theorem settledStep {policy : ResendPolicy} {id a} (sound : Sound policy w) (settled : Settled id index w)
    (taken : w.step d a = some t) : Settled id index t := by
  obtain ⟨minted,rows⟩ := stepMinted taken
  refine ⟨lt_of_lt_of_le settled.minted minted,?_,?_⟩
  · intro r' after named
    obtain ⟨r,before,same⟩ := rows r' after (named.symm ▸ settled.minted)
    have acknowledged := settled.acknowledged r before (same.trans named)
    rcases (stepAnswers sound taken before after same.symm).2.2 with kept | ⟨unset,_⟩
    · rw [kept.1]
      exact acknowledged
    · exact absurd unset acknowledged
  · intro pass' there s member
    rcases stepResends taken there member with ⟨pass,old,before⟩ | ⟨r,before,kept,rfl⟩
    · exact settled.unsent pass old s before
    · intro named
      exact settled.acknowledged r before named kept.2

end Resends

/-- The relay loses no row, keeps an unacknowledged removal until it is answered, and stops
sending it then. -/
theorem relayLosesNothing {π : Type u} {d : Deployment π} {labels w}
    (run : Run (State.step d) free .opened labels w) :
    (∀ r ∈ w.rows.rows, (r.publishedAt ≠ none → Confirmed w r) ∧ Accounted w r ∧
      (d.policy.after ≤ d.policy.cap → r.Kept → r.publishedAt ≠ none → Armed d.policy w r)) ∧
    (∀ a t, w.step d a = some t →
      (∀ r ∈ w.rows.rows, r.Kept → ∃ r' ∈ t.rows.rows, r'.id = r.id) ∧
      ∀ r ∈ w.rows.rows, ∀ r' ∈ t.rows.rows, r'.id = r.id → Answers d a r r') ∧
    (∀ (index : Nat) pass, w.passes[index]? = some pass → ∀ s ∈ resends pass.pc,
      ∀ r ∈ w.rows.rows, r.id = s.id → r.eventType = removalEventType) ∧
    ∀ r ∈ w.rows.rows, r.acknowledgedAt ≠ none → ∀ (index : Nat),
      (∀ pass, w.passes[index]? = some pass → resends pass.pc = []) →
      ∀ later q, Run (State.step d) free w later q → ∀ pass, q.passes[index]? = some pass →
        ∀ s ∈ resends pass.pc, s.id ≠ r.id := by
  have sound := soundRun run soundOpened
  refine ⟨?_,?_,?_,?_⟩
  · intro r member
    have own := sound.rows r member
    exact ⟨own.confirmed,own.accounted,own.armed⟩
  · intro a t taken
    exact ⟨fun r before kept => keptStays taken before kept,fun r before r' after same => stepAnswers sound taken before after same⟩
  · intro index pass there s member r before same
    obtain ⟨known,type⟩ := (sound.passes index pass there).resends s member
    exact (known.2 r before same).1.trans type
  · intro r member acknowledged index idle later q after
    have settled : Settled r.id index w := by
      refine ⟨(sound.rows r member).minted,?_,?_⟩
      · intro other there same
        rw [w.rows.sameRow there member same]
        exact acknowledged
      · intro pass there s sent
        rw [idle pass there] at sent
        cases sent
    have ends : Sound d.policy q ∧ Settled r.id index q :=
      after.preserves (fun q => Sound d.policy q ∧ Settled r.id index q)
        (fun _ _ _ both _ taken => ⟨soundStep both.1 taken,settledStep both.1 both.2 taken⟩) ⟨sound,settled⟩
    exact ends.2.unsent

def timely : Deployment String := ⟨⟨600,3600⟩,some⟩

/- The first acknowledgement is lost, and the removal is sent again after ten minutes. -/
def resending : List (Action String) :=
  [.enqueue removalEventType "user:7" 0,.launch,.advance 0 (.ran 1),.advance 0 (.answered true (.error "ack_timeout")),
    .advance 0 (.ran 7),.advance 0 (.ran 8),.launch,.advance 1 (.ran 30),.advance 1 (.answered true (.ok ())),
    .advance 1 (.ran 31),.advance 1 (.ran 32),.advance 1 (.ran 33),.launch,.advance 2 (.ran 700),.advance 2 (.ran 700),
    .advance 2 (.answered true (.ok ())),.advance 2 (.ran 701)]

def resent : State String := (replay (State.step timely) free .opened resending).get (by decide +kernel)

theorem relayLosesNothingAtResend : ∃ r ∈ resent.rows.rows, r.Kept ∧ r.publishedAt = some 31 ∧
    r.nextResendAt = some 1301 ∧ Confirmed resent r ∧ Accounted resent r ∧ Armed timely.policy resent r := by
  have only : resent.rows.rows =
      [⟨0,removalEventType,"user:7",0,some 31,0,none,27,none,none,none,1,some 1301⟩] := by decide +kernel
  have member : (⟨0,removalEventType,"user:7",0,some 31,0,none,27,none,none,none,1,some 1301⟩ : OutboxRow String) ∈
      resent.rows.rows := by rw [only]; exact List.mem_singleton.mpr rfl
  have ordered : timely.policy.after ≤ timely.policy.cap := by decide +kernel
  have kept := (relayLosesNothing (replayRun (Option.some_get _).symm : Run (State.step timely) free _ _ resent)).1
    _ member
  exact ⟨_,member,⟨rfl,rfl⟩,rfl,rfl,kept.1 (by simp),kept.2.1,kept.2.2 ordered ⟨rfl,rfl⟩ (by simp)⟩

end RatatoskrX.RelayRuns
