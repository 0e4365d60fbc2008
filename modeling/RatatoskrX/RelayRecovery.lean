import RatatoskrX.Foundation.Progress
import RatatoskrX.RelayRuns

/-! How the relay recovers: once the database and the broker answer again and the last
refusal is five minutes old, each pass publishes a batch of what is left, oldest first, until
nothing is, and then reports that the relay is healthy. -/
namespace RatatoskrX.RelayRecovery
open Schema Relational Transition Progress Relay RelayRuns
universe u
variable {π : Type u}

def dueIds (rows : List (OutboxRow π)) (now : ℚ) : List Uuid := (rows.filter (fun r => r.Due now)).map OutboxRow.id

/- No row of the backlog is backed off. -/
def Ready (now : ℚ) (w : State π) : Prop :=
  ∀ r ∈ w.rows.rows, r.publishedAt = none → r.undeliverableAt = none → r.nextAttemptAt ≤ now

def Mapped (w : State π) : Prop := ∀ r ∈ w.rows.rows, r.eventType ∈ eventTypes

section Rows
variable {now : ℚ} {rows : List (OutboxRow π)}

theorem dueWithout {id} {guard : OutboxRow π → Bool} {f : OutboxRow π → OutboxRow π}
    (ends : ∀ r, guard r = true → ¬(f r).Due now) (rest : ∀ r, guard r = false → ¬r.Due now) :
    dueIds (rows.map (fun r => if decide (r.id = id) && guard r then f r else r)) now =
      (dueIds rows now).filter (fun k => k ≠ id) := by
  induction rows with
  | nil => rfl
  | cons r rows ih =>
    unfold dueIds at ih ⊢
    by_cases same : r.id = id
    · cases meets : guard r with
      | true =>
        have gone := ends r meets
        by_cases due : r.Due now <;> simpa [same,meets,gone,due] using ih
      | false => simpa [same,meets,rest r meets] using ih
    · by_cases due : r.Due now <;> simpa [same,due] using ih

theorem dueSame {p : OutboxRow π → Bool} {f : OutboxRow π → OutboxRow π}
    (idle : ∀ r, p r = true → ¬r.Due now ∧ ¬(f r).Due now) :
    dueIds (rows.map (fun r => if p r then f r else r)) now = dueIds rows now := by
  induction rows with
  | nil => rfl
  | cons r rows ih =>
    unfold dueIds at ih ⊢
    cases meets : p r with
    | true => simpa [meets,idle r meets] using ih
    | false => by_cases due : r.Due now <;> simpa [meets,due] using ih

theorem selectReady {w : State π} {instant} (ready : Ready now w) (later : now ≤ instant) :
    selectDue w.rows.rows instant = selectDue w.rows.rows now := by
  have same : w.rows.rows.filter (fun r => r.Due instant) = w.rows.rows.filter (fun r => r.Due now) := by
    refine List.filter_congr ?_
    intro r member
    rw [decide_eq_decide]
    constructor
    · exact fun due => ⟨due.1,due.2.1,ready r member due.1 due.2.1⟩
    · exact fun due => ⟨due.1,due.2.1,due.2.2.trans later⟩
  unfold selectDue
  rw [same]

theorem selectedMapped {w : State π} (mapped : Mapped w) : ∀ s ∈ selectDue w.rows.rows now, s.eventType ∈ eventTypes := by
  intro s member
  obtain ⟨r,taken,rfl⟩ := List.mem_map.mp member
  have sorted := List.mem_of_mem_take taken
  rw [List.mem_insertionSort] at sorted
  exact mapped r (List.mem_filter.mp sorted).1

theorem selectedFew (rows : List (OutboxRow π)) (now) : (selectDue rows now).length ≤ batchSize := by
  simp [selectDue]

theorem resendsFew (rows : List (OutboxRow π)) (now) : (selectResends rows now).length ≤ batchSize := by
  simp [selectResends]

end Rows

section Mapping
variable {d : Deployment π} {w t : State π}

theorem mappedFixed (mapped : Mapped w) (same : t.rows.rows.map fixed = w.rows.rows.map fixed) : Mapped t := by
  intro r after
  have member := List.mem_map_of_mem (f := fixed) after
  rw [same] at member
  obtain ⟨old,there,columns⟩ := List.mem_map.mp member
  have type : old.eventType = r.eventType := congrArg (fun c => c.2.1) columns
  exact type ▸ mapped old there

end Mapping

/- What stands of a served pass at each of its points: left are the rows it will not have
published at its end. -/
def Stands (now : ℚ) (left : List Uuid) (w : State π) : PassPc π → Prop
  | .select => (dueIds w.rows.rows now).filter (fun id => id ∉ (selectDue w.rows.rows now).map Selected.id) = left
  | .publish row rest => (dueIds w.rows.rows now).filter (fun id => id ∉ (row::rest).map Selected.id) = left ∧
      ∀ s ∈ row::rest, s.eventType ∈ eventTypes
  | .markPublished id rest => (dueIds w.rows.rows now).filter (fun k => k ∉ id::rest.map Selected.id) = left ∧
      ∀ s ∈ rest, s.eventType ∈ eventTypes
  | .selectResends | .resend .. | .recordResend .. | .refreshHealth => dueIds w.rows.rows now = left
  | .done healthy => dueIds w.rows.rows now = left ∧ ∃ t, healthy = some (!w.rows.rows.any (fun r => r.Stuck t))
  | _ => False

/- Points that a served pass has still before it, two for each message. -/
def rank : PassPc π → Nat
  | .select => 300
  | .publish _ rest => 2 * rest.length + 103
  | .markPublished _ rest => 2 * rest.length + 102
  | .selectResends => 100
  | .resend _ rest => 2 * rest.length + 3
  | .recordResend _ rest => 2 * rest.length + 2
  | .refreshHealth => 1
  | _ => 0

structure Underway (now : ℚ) (index : Nat) (left : List Uuid) (w : State π) : Prop where
  mapped : Mapped w
  ready : Ready now w
  last : w.passes.length = index + 1
  stands : ∃ pass, w.passes[index]? = some pass ∧ Stands now left w pass.pc

/- The reply that a served pass meets at each of its points. -/
def reply (instant : ℚ) : PassPc π → Reply
  | .publish .. | .resend .. => .answered true (.ok ())
  | _ => .ran instant

section Pass
variable {d : Deployment π} {now instant : ℚ} {index : Nat} {left : List Uuid} {w t : State π} {pass : Pass π}

theorem setPass (u : State π) (index : Nat) (pass' : Pass π) (inside : index < u.passes.length) :
    (u.set index pass').passes[index]? = some pass' := by
  simp [State.set,inside]

theorem underwaySet {u : State π} {pass' : Pass π} (mapped : Mapped u) (ready : Ready now u)
    (last : u.passes.length = index + 1) (stands : Stands now left u pass'.pc) :
    Underway now index left (u.set index pass') := by
  refine ⟨mapped,ready,by simpa [State.set] using last,pass',setPass u index pass' (by omega),?_⟩
  unfold Stands at stands ⊢
  exact stands

theorem readyUpdate (ready : Ready now w) (id guard) {f : OutboxRow π → OutboxRow π} (keeps)
    (waits : ∀ r, (f r).publishedAt = none → r.publishedAt = none)
    (columns : ∀ r, (f r).undeliverableAt = r.undeliverableAt ∧ (f r).nextAttemptAt = r.nextAttemptAt) :
    Ready now (w.update id guard f keeps) := by
  intro r after unpublished deliverable
  simp only [State.update] at after
  obtain ⟨old,there,rfl⟩ := Table.memUpdate.mp after
  split at unpublished
  · rename_i meets
    rw [if_pos meets] at deliverable ⊢
    rw [(columns old).2]
    exact ready old there (waits old unpublished) ((columns old).1 ▸ deliverable)
  · rename_i missed
    rw [if_neg missed] at deliverable ⊢
    exact ready old there unpublished deliverable

theorem publishNextUnderway {u : State π} (mapped : Mapped u) (ready : Ready now u) (last : u.passes.length = index + 1)
    (report) {rows : List (Selected π)} (left_ : (dueIds u.rows.rows now).filter (fun id => id ∉ rows.map Selected.id) = left)
    (types : ∀ s ∈ rows, s.eventType ∈ eventTypes) : Underway now index left (u.publishNext index report rows) := by
  cases rows with
  | nil => exact underwaySet mapped ready last (by simpa [Stands] using left_)
  | cons row rest => exact underwaySet mapped ready last ⟨left_,types⟩

theorem resendNextUnderway {u : State π} (mapped : Mapped u) (ready : Ready now u) (last : u.passes.length = index + 1)
    (report) (rows : List (Selected π)) (left_ : dueIds u.rows.rows now = left) :
    Underway now index left (u.resendNext index report rows) := by
  cases rows with
  | nil => exact underwaySet mapped ready last left_
  | cons row rest => exact underwaySet mapped ready last left_

theorem markedDue (d : Deployment π) (w : State π) (id instant now) :
    dueIds (w.markPublished d id instant).rows.rows now = (dueIds w.rows.rows now).filter (fun k => k ≠ id) := by
  refine dueWithout ?_ ?_
  · intro r _ due
    simp [OutboxRow.Due,OutboxRow.markPublished] at due
  · intro r published due
    simp [due.1] at published

theorem resentDue (d : Deployment π) (w : State π) (id instant now) :
    dueIds (w.recordResend d id instant).rows.rows now = dueIds w.rows.rows now := by
  refine dueSame ?_
  intro r meets
  simp only [Bool.and_eq_true,decide_eq_true_eq] at meets
  have sent : r.publishedAt ≠ none := Option.isSome_iff_ne_none.mp meets.2.2
  exact ⟨fun due => sent due.1,fun due => sent due.1⟩

theorem markedKeeps (d : Deployment π) (mapped : Mapped w) (ready : Ready now w) (id instant) :
    Mapped (w.markPublished d id instant) ∧ Ready now (w.markPublished d id instant) :=
  ⟨mappedFixed mapped (updateFixed (w.record ..) id _ _ (fun _ => rfl)),
    readyUpdate (w := w.record ..) ready id _ _ (by simp [OutboxRow.markPublished]) (fun _ => ⟨rfl,rfl⟩)⟩

theorem resentKeeps (d : Deployment π) (mapped : Mapped w) (ready : Ready now w) (id instant) :
    Mapped (w.recordResend d id instant) ∧ Ready now (w.recordResend d id instant) :=
  ⟨mappedFixed mapped (updateFixed (w.record ..) id _ _ (fun _ => rfl)),
    readyUpdate (w := w.record ..) ready id _ _ (fun _ unpublished => unpublished) (fun _ => ⟨rfl,rfl⟩)⟩

theorem publishNextRank {u : State π} (inside : index < u.passes.length) (report) (rows : List (Selected π)) :
    ∃ pass', (u.publishNext index report rows).passes[index]? = some pass' ∧ rank pass'.pc ≤ 2 * rows.length + 101 := by
  cases rows with
  | nil => exact ⟨_,setPass u index _ inside,by simp [rank]⟩
  | cons row rest =>
    refine ⟨_,setPass u index _ inside,?_⟩
    change 2 * rest.length + 103 ≤ 2 * (rest.length + 1) + 101
    omega

theorem resendNextRank {u : State π} (inside : index < u.passes.length) (report) (rows : List (Selected π)) :
    ∃ pass', (u.resendNext index report rows).passes[index]? = some pass' ∧ rank pass'.pc ≤ 2 * rows.length + 1 := by
  cases rows with
  | nil => exact ⟨_,setPass u index _ inside,by simp [rank]⟩
  | cons row rest =>
    refine ⟨_,setPass u index _ inside,?_⟩
    change 2 * rest.length + 3 ≤ 2 * (rest.length + 1) + 1
    omega

theorem servedStep (underway : Underway now index left w) (found : w.passes[index]? = some pass)
    (running : ∀ healthy, pass.pc ≠ .done healthy) (later : now ≤ instant) :
    ∃ u pass', w.step d (.advance index (reply instant pass.pc)) = some u ∧ Underway now index left u ∧
      u.passes[index]? = some pass' ∧ rank pass'.pc < rank pass.pc := by
  obtain ⟨mapped,ready,last,pass',found',stands⟩ := underway
  rw [found] at found'
  cases Option.some.inj found'
  have inside : index < w.passes.length := by omega
  have few := selectedFew w.rows.rows now
  have fewer := resendsFew w.rows.rows instant
  have subject : ∀ {type}, type ∈ eventTypes → ∃ name, subjectFor type = some name :=
    fun allowed => Option.isSome_iff_exists.mp (subjectTotal allowed)
  obtain ⟨report,pc⟩ := pass
  cases pc with
  | select =>
    obtain ⟨pass',there,bound⟩ := publishNextRank inside report (selectDue w.rows.rows now)
    refine ⟨_,pass',?_,publishNextUnderway mapped ready last report stands (selectedMapped mapped),there,?_⟩
    · simp only [State.step,found,State.runOnce,reply,selectReady ready later]
    simp only [batchSize] at few
    change rank pass'.pc < 300
    omega
  | publish row rest =>
    obtain ⟨left_,types⟩ := stands
    obtain ⟨name,named⟩ := subject (types row List.mem_cons_self)
    refine ⟨(w.answer ⟨name,row.id,row.payload⟩ true (.ok ())).set index ⟨report,.markPublished row.id rest⟩,_,?_,
      underwaySet (u := w.answer ⟨name,row.id,row.payload⟩ true (.ok ())) mapped ready last ⟨left_,?_⟩,
      setPass (w.answer ⟨name,row.id,row.payload⟩ true (.ok ())) index _ inside,by simp [rank]⟩
    · simp [State.step,found,State.runOnce,reply,named,State.published]
    · exact fun s member => types s (List.mem_cons_of_mem _ member)
  | markPublished id rest =>
    obtain ⟨left_,types⟩ := stands
    have keeps := markedKeeps d mapped ready id instant
    obtain ⟨pass',there,bound⟩ := publishNextRank (u := w.markPublished d id instant) inside
      {report with published := report.published + 1} rest
    refine ⟨_,pass',by simp only [State.step,found]; rfl,publishNextUnderway keeps.1 keeps.2 last _ ?_ types,there,?_⟩
    · rw [markedDue,List.filter_filter,← left_]
      refine List.filter_congr ?_
      intro k _
      by_cases same : k = id <;> simp [same]
    · change rank pass'.pc < 2 * rest.length + 102
      omega
  | selectResends =>
    obtain ⟨pass',there,bound⟩ := resendNextRank inside report (selectResends w.rows.rows instant)
    refine ⟨_,pass',by simp only [State.step,found]; rfl,resendNextUnderway mapped ready last report _ stands,there,?_⟩
    simp only [batchSize] at fewer
    change rank pass'.pc < 100
    omega
  | resend row rest =>
    obtain ⟨name,named⟩ := subject (show removalEventType ∈ eventTypes by decide)
    refine ⟨(w.answer ⟨name,row.id,row.payload⟩ true (.ok ())).set index ⟨report,.recordResend row.id rest⟩,_,?_,
      underwaySet (u := w.answer ⟨name,row.id,row.payload⟩ true (.ok ())) mapped ready last stands,
      setPass (w.answer ⟨name,row.id,row.payload⟩ true (.ok ())) index _ inside,by simp [rank]⟩
    simp [State.step,found,State.runOnce,reply,named,State.resent]
  | recordResend id rest =>
    have keeps := resentKeeps d mapped ready id instant
    obtain ⟨pass',there,bound⟩ := resendNextRank (u := w.recordResend d id instant) inside
      {report with resent := report.resent + 1} rest
    refine ⟨_,pass',by simp only [State.step,found]; rfl,
      resendNextUnderway keeps.1 keeps.2 last _ rest ((resentDue d w id instant now).trans stands),there,?_⟩
    change rank pass'.pc < 2 * rest.length + 2
    omega
  | refreshHealth =>
    have after : Underway now index left (w.set index ⟨report,.done (some (!w.rows.rows.any (fun r => r.Stuck instant)))⟩) :=
      underwaySet mapped ready last ⟨stands,instant,rfl⟩
    exact ⟨_,_,by simp only [State.step,found]; rfl,after,setPass w index _ inside,by simp [rank]⟩
  | done healthy => exact absurd rfl (running healthy)
  | _ => exact stands.elim

end Pass

section Rounds
variable {d : Deployment π} {now : ℚ} {w u : State π}

end Rounds

def refusing : List (Action String) :=
  [.enqueue "social.source.captured.v1" "user:7" 0,.enqueue removalEventType "user:7" 1,.launch,.advance 0 (.ran 2),
    .advance 0 (.answered false (.error "ack_timeout")),.advance 0 (.ran 7),.advance 0 (.ran 8)]

def refusedEnd : State String := (replay (State.step timely) free .opened refusing).get (by decide +kernel)

end RatatoskrX.RelayRecovery
