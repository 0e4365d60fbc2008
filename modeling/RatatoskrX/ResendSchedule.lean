import Mathlib.Tactic.Ring
import RatatoskrX.RelayRuns

/-! The waits between the copies of a removal. The first one is set with the publication, each
later one with a copy, from the number of copies before it; so the first two are the same and
every later one doubles, up to the cap and for as long as the exponent counts. -/
namespace RatatoskrX.ResendSchedule
open Schema Relational Transition Relay RelayRuns
universe u
variable {π : Type u}

def resendWait (policy : ResendPolicy) : ℕ → ℚ
  | 0 => policy.after
  | k + 1 => OutboxRow.resendDelay policy k

def doubledWait (policy : ResendPolicy) : ℕ → ℚ
  | 0 => policy.after
  | k + 1 => min (2 * doubledWait policy k) policy.cap

def copies (history : List Recorded) (id : Uuid) : ℕ :=
  history.countP (fun e => decide (e.attempt = .published ∧ e.id = id))

/- The next copy of the row is due after its last one by the wait for the number of its resends. -/
def Scheduled (waits : ℕ → ℚ) (w : State π) (r : OutboxRow π) : Prop :=
  ∃ last, lastAt w.history .published r.id = some last ∧ copies w.history r.id = r.resendCount + 1 ∧
    r.nextResendAt = some (last + waits r.resendCount)

section Waits
variable {policy : ResendPolicy}

theorem minDoubled {a c : ℚ} (nonneg : 0 ≤ c) : min (2 * min a c) c = min (2 * a) c := by
  rcases le_total a c with below | above
  · rw [min_eq_left below]
  · rw [min_eq_right above,min_eq_right (by linarith),min_eq_right (by linarith)]

theorem waitDoubles (nonneg : 0 ≤ policy.cap) {k} (positive : 1 ≤ k) (counted : k ≤ 30) :
    resendWait policy (k + 1) = min (2 * resendWait policy k) policy.cap := by
  obtain ⟨n,rfl⟩ := Nat.exists_eq_add_of_le' positive
  simp only [resendWait,OutboxRow.resendDelay]
  rw [minDoubled nonneg,Nat.min_eq_left counted,Nat.min_eq_left (by omega),pow_succ]
  congr 1
  ring

theorem waitStays {k} (clamped : 31 ≤ k) : resendWait policy (k + 1) = resendWait policy k := by
  obtain ⟨n,rfl⟩ := Nat.exists_eq_add_of_le' (Nat.one_le_of_lt clamped)
  simp only [resendWait,OutboxRow.resendDelay]
  rw [Nat.min_eq_right (by omega),Nat.min_eq_right (by omega)]

theorem productBounded (nonneg : 0 ≤ policy.after) (k : ℕ) : policy.after * 2 ^ min k 30 ≤ policy.after * 2 ^ 30 :=
  mul_le_mul_of_nonneg_left (pow_le_pow_right₀ (by norm_num) (Nat.min_le_right k 30)) nonneg

theorem waitBounded (nonneg : 0 ≤ policy.after) (ordered : policy.after ≤ policy.cap) (k) :
    policy.after ≤ resendWait policy k ∧ resendWait policy k ≤ policy.cap := by
  cases k with
  | zero => exact ⟨le_refl _,ordered⟩
  | succ k =>
    refine ⟨le_min ?_ ordered,min_le_right ..⟩
    exact le_mul_of_one_le_right nonneg (one_le_pow₀ (by norm_num))

end Waits

section Rows
variable {w t : State π} {id : Uuid} {guard : OutboxRow π → Bool} {f : OutboxRow π → OutboxRow π}

theorem copiesSame (history : List Recorded) (id now) :
    copies (history ++ [⟨.published,id,now⟩]) id = copies history id + 1 := by
  simp [copies]

theorem copiesOther (history : List Recorded) {id} {e : Recorded} (other : ¬(e.attempt = .published ∧ e.id = id)) :
    copies (history ++ [e]) id = copies history id := by
  simp only [copies,List.countP_append,List.countP_singleton,decide_eq_false other,Bool.false_eq_true,if_false,
    Nat.add_zero]

def SameHistory (w t : State π) (id : Uuid) : Prop :=
  lastAt t.history .published id = lastAt w.history .published id ∧ copies t.history id = copies w.history id

theorem sameHistory (same : t.history = w.history) (id) : SameHistory w t id := by
  unfold SameHistory
  rw [same]
  exact ⟨rfl,rfl⟩

theorem recordElsewhere {attempt now} {k : Uuid} (other : k ≠ id) :
    SameHistory w (w.record attempt id now guard) k := by
  refine ⟨recordOther other .published,?_⟩
  unfold State.record
  dsimp only
  split
  · exact copiesOther _ (fun same => other same.2.symm)
  · rfl

theorem rowAfter {attempt now keeps} {r' : OutboxRow π}
    (member : r' ∈ ((w.record attempt id now guard).update id guard f keeps).rows.rows) :
    (∃ r ∈ w.rows.rows, r.id = id ∧ guard r = true ∧ r' = f r ∧
      (w.record attempt id now guard).history = w.history ++ [⟨attempt,id,now⟩]) ∨
    (r' ∈ w.rows.rows ∧ SameHistory w (w.record attempt id now guard) r'.id) := by
  simp only [State.update] at member
  obtain ⟨r,before,rfl⟩ := Table.memUpdate.mp member
  split
  · rename_i meets
    simp only [Bool.and_eq_true,decide_eq_true_eq] at meets
    exact .inl ⟨r,before,meets.1,meets.2,rfl,recordMet before meets.1 meets.2⟩
  · rename_i missed
    refine .inr ⟨before,?_⟩
    by_cases here : r.id = id
    · refine sameHistory (recordQuiet ?_) _
      intro other there named
      rw [w.rows.sameRow there before (named.trans here.symm)]
      simpa [here] using missed
    · exact recordElsewhere here

/- What is kept of a row: nothing was sent before it is published, and then it is on schedule. -/
structure RowScheduled (policy : ResendPolicy) (w : State π) (r : OutboxRow π) : Prop where
  unsent : r.publishedAt = none → copies w.history r.id = 0 ∧ r.resendCount = 0
  sent : r.eventType = removalEventType → r.publishedAt ≠ none → Scheduled (resendWait policy) w r

variable {policy : ResendPolicy} {d : Deployment π}

def schedule (r : OutboxRow π) : Uuid × String × Option ℚ × ℕ × Option ℚ :=
  (r.id,r.eventType,r.publishedAt,r.resendCount,r.nextResendAt)

theorem sameHistoryEq {u : State π} {id} (same : t.history = u.history) (before : SameHistory w u id) :
    SameHistory w t id := by
  unfold SameHistory
  rw [same]
  exact before

theorem rowScheduledSame {r r' : OutboxRow π} (scheduled : RowScheduled policy w r) (same : schedule r' = schedule r)
    (history : SameHistory w t r.id) : RowScheduled policy t r' := by
  simp only [schedule,Prod.mk.injEq] at same
  obtain ⟨id,type,published,count,next⟩ := same
  obtain ⟨last,number⟩ := history
  refine ⟨?_,?_⟩
  · rw [id,published,count,number]
    exact scheduled.unsent
  · rw [type,published]
    intro removal sent
    obtain ⟨at_,recorded,copied,due⟩ := scheduled.sent removal sent
    refine ⟨at_,?_,?_,?_⟩
    · rw [id,last]; exact recorded
    · rw [id,count,number]; exact copied
    · rw [next,count]; exact due

theorem markScheduled {now} {r : OutboxRow π} (unpublished : r.publishedAt = none)
    (history : t.history = w.history ++ [⟨.published,r.id,now⟩]) (scheduled : RowScheduled policy w r) :
    RowScheduled policy t (r.markPublished policy now) := by
  obtain ⟨none,fresh⟩ := scheduled.unsent unpublished
  refine ⟨fun published => (by cases published),fun removal _ => ⟨now,?_,?_,?_⟩⟩
  · rw [history]
    exact lastSame ..
  · rw [history]
    have first := copiesSame w.history r.id now
    rw [none] at first
    exact first.trans (congrArg (· + 1) fresh.symm)
  · simp only [OutboxRow.markPublished] at removal ⊢
    rw [if_pos removal,fresh]
    rfl

theorem resendScheduled {now} {r : OutboxRow π} (kept : r.Kept) (published : r.publishedAt ≠ none)
    (history : t.history = w.history ++ [⟨.published,r.id,now⟩]) (scheduled : RowScheduled policy w r) :
    RowScheduled policy t (r.recordResend policy now) := by
  obtain ⟨_,_,copied,_⟩ := scheduled.sent kept.1 published
  refine ⟨fun unpublished => absurd unpublished published,fun _ _ => ⟨now,?_,?_,rfl⟩⟩
  · rw [history]
    exact lastSame ..
  · rw [history]
    exact (copiesSame w.history r.id now).trans (congrArg (· + 1) copied)

inductive Turned (d : Deployment π) (w t : State π) : Prop where
  | still (rows : t.rows = w.rows) (history : t.history = w.history)
  | marked (id now) (rows : t.rows = (w.markPublished d id now).rows)
      (history : t.history = (w.markPublished d id now).history)
  | resent (id now) (rows : t.rows = (w.recordResend d id now).rows)
      (history : t.history = (w.recordResend d id now).history)
  | failed (id failure republish now) (rows : t.rows = (w.recordFailure id failure republish now).rows)
      (history : t.history = (w.recordFailure id failure republish now).history)
  | undeliverable (id failure now) (rows : t.rows = (w.recordUndeliverable id failure now).rows)
      (history : t.history = w.history)

theorem turnedOf {index pass reply} (taken : w.runOnce d index pass reply = some t) : Turned d w t := by
  cases reply with
  | fault =>
    simp only [State.runOnce] at taken
    split at taken
    · cases taken
    · cases Option.some.inj taken
      exact .still rfl rfl
  | answered stored result =>
    simp only [State.runOnce] at taken
    split at taken
    · cases taken
    · split at taken
      · rename_i row rest _
        split at taken
        · cases Option.some.inj taken
          exact .still rfl rfl
        · rename_i subject _
          obtain ⟨pass',next,_⟩ := publishedPass (w.answer ⟨subject,row.id,row.payload⟩ stored result) index pass.report
            row rest result
          rw [next] at taken
          cases Option.some.inj taken
          exact .still rfl rfl
      · rename_i row rest _
        split at taken
        · cases Option.some.inj taken
          exact .still rfl rfl
        · rename_i subject _
          obtain ⟨pass',next,_⟩ := resentPass (w.answer ⟨subject,row.id,row.payload⟩ stored result) index pass.report
            row rest result
          rw [next] at taken
          cases Option.some.inj taken
          exact .still rfl rfl
      · cases taken
  | ran now =>
    simp only [State.runOnce] at taken
    split at taken
    · obtain ⟨pass',next,_⟩ := publishNextPass w index pass.report (selectDue w.rows.rows now)
      rw [next] at taken
      cases Option.some.inj taken
      exact .still rfl rfl
    · rename_i id rest _
      obtain ⟨pass',next,_⟩ := publishNextPass (w.markPublished d id now) index
        {pass.report with published := pass.report.published + 1} rest
      rw [next] at taken
      cases Option.some.inj taken
      exact .marked id now rfl rfl
    · rename_i id failure rest _
      obtain ⟨pass',next,_⟩ := publishNextPass (w.recordUndeliverable id failure now) index
        {pass.report with undeliverable := pass.report.undeliverable + 1} rest
      rw [next] at taken
      cases Option.some.inj taken
      exact .undeliverable id failure now rfl rfl
    · rename_i id failure republish _
      cases Option.some.inj taken
      exact .failed id failure republish now rfl rfl
    · obtain ⟨pass',next,_⟩ := resendNextPass w index pass.report (selectResends w.rows.rows now)
      rw [next] at taken
      cases Option.some.inj taken
      exact .still rfl rfl
    · rename_i id rest _
      obtain ⟨pass',next,_⟩ := resendNextPass (w.recordResend d id now) index
        {pass.report with resent := pass.report.resent + 1} rest
      rw [next] at taken
      cases Option.some.inj taken
      exact .resent id now rfl rfl
    · cases Option.some.inj taken
      exact .still rfl rfl
    · cases taken

theorem turnedScheduled (turned : Turned d w t) (scheduled : ∀ r ∈ w.rows.rows, RowScheduled d.policy w r) :
    ∀ r' ∈ t.rows.rows, RowScheduled d.policy t r' := by
  intro r' member
  cases turned with
  | still rows history =>
    rw [rows] at member
    exact rowScheduledSame (scheduled r' member) rfl (sameHistory history _)
  | marked id now rows history =>
    rw [rows] at member
    rcases rowAfter member with ⟨r,before,rfl,meets,rfl,recorded⟩ | ⟨before,same⟩
    · exact markScheduled (Option.isNone_iff_eq_none.mp meets) (history.trans recorded) (scheduled r before)
    · exact rowScheduledSame (scheduled r' before) rfl (sameHistoryEq history same)
  | resent id now rows history =>
    rw [rows] at member
    rcases rowAfter member with ⟨r,before,rfl,meets,rfl,recorded⟩ | ⟨before,same⟩
    · simp only [Bool.and_eq_true,decide_eq_true_eq] at meets
      exact resendScheduled meets.1 (Option.isSome_iff_ne_none.mp meets.2) (history.trans recorded) (scheduled r before)
    · exact rowScheduledSame (scheduled r' before) rfl (sameHistoryEq history same)
  | failed id failure republish now rows history =>
    rw [rows] at member
    rcases rowAfter member with ⟨r,before,rfl,_,rfl,recorded⟩ | ⟨before,same⟩
    · refine rowScheduledSame (scheduled r before) rfl ⟨?_,?_⟩
      · rw [history.trans recorded]
        exact lastOther _ (by simp)
      · rw [history.trans recorded]
        exact copiesOther _ (by simp)
    · exact rowScheduledSame (scheduled r' before) rfl (sameHistoryEq history same)
  | undeliverable id failure now rows history =>
    rw [rows] at member
    simp only [State.recordUndeliverable,State.update] at member
    obtain ⟨r,before,rfl⟩ := Table.memUpdate.mp member
    split <;> exact rowScheduledSame (scheduled r before) rfl (sameHistory history _)

theorem freshUnsent (sound : Sound policy w) : copies w.history w.minted = 0 := by
  refine List.countP_eq_zero.mpr ?_
  intro e member same
  have old := sound.recorded e member
  rw [(of_decide_eq_true same).2] at old
  exact Nat.lt_irrefl _ old

theorem scheduledStep {a} (sound : Sound d.policy w) (scheduled : ∀ r ∈ w.rows.rows, RowScheduled d.policy w r)
    (taken : w.step d a = some t) : ∀ r' ∈ t.rows.rows, RowScheduled d.policy t r' := by
  cases stepsOf taken with
  | @enqueue eventType payload now known =>
    intro r' member
    have found := Table.findMem member
    rw [Table.findInsertIgnore] at found
    cases old : w.rows.find r'.id with
    | some r =>
      rw [old] at found
      cases Option.some.inj found
      exact rowScheduledSame (scheduled _ (Table.findIff.mp old).1) rfl (sameHistory rfl _)
    | none =>
      rw [old,Option.none_or] at found
      obtain ⟨_,same⟩ := Option.ite_none_right_eq_some.mp found
      cases Option.some.inj same
      exact ⟨fun _ => ⟨freshUnsent sound,rfl⟩,fun _ published => absurd rfl published⟩
  | delete =>
    intro r member
    exact rowScheduledSame (scheduled r (Table.memDelete.mp member).1) rfl (sameHistory rfl _)
  | acknowledge =>
    intro r' member
    simp only [State.acknowledge,State.update] at member
    obtain ⟨r,before,rfl⟩ := Table.memUpdate.mp member
    split <;> exact rowScheduledSame (scheduled r before) rfl (sameHistory rfl _)
  | launch =>
    intro r member
    exact rowScheduledSame (scheduled r member) rfl (sameHistory rfl _)
  | advance _ ok => exact turnedScheduled (turnedOf ok) scheduled

theorem scheduledRun {labels} (run : Run (State.step d) free .opened labels w) :
    ∀ r ∈ w.rows.rows, RowScheduled d.policy w r := by
  have both := run.preserves (fun w => Sound d.policy w ∧ ∀ r ∈ w.rows.rows, RowScheduled d.policy w r)
    (fun _ _ _ holds _ taken => ⟨soundStep holds.1 taken,scheduledStep holds.1 holds.2 taken⟩)
    ⟨soundOpened,fun r member => by cases member⟩
  exact both.2

end Rows

/-- Every published removal is on the schedule of its waits: the first two are the configured
delay, every later one doubles up to the cap until the exponent is clamped, and then it stays. -/
theorem resendWaits {π : Type u} {d : Deployment π} {labels w} (nonneg : 0 ≤ d.policy.after)
    (ordered : d.policy.after ≤ d.policy.cap) (run : Run (State.step d) free .opened labels w) :
    (∀ r ∈ w.rows.rows, r.eventType = removalEventType → r.publishedAt ≠ none →
      Scheduled (resendWait d.policy) w r) ∧
    resendWait d.policy 0 = d.policy.after ∧ resendWait d.policy 1 = d.policy.after ∧
    (∀ k, 1 ≤ k → k ≤ 30 → resendWait d.policy (k + 1) = min (2 * resendWait d.policy k) d.policy.cap) ∧
    (∀ k, 31 ≤ k → resendWait d.policy (k + 1) = resendWait d.policy k) ∧
    ∀ k, d.policy.after * 2 ^ min k 30 ≤ d.policy.after * 2 ^ 30 ∧
      d.policy.after ≤ resendWait d.policy k ∧ resendWait d.policy k ≤ d.policy.cap := by
  have second : resendWait d.policy 1 = d.policy.after := by
    simp [resendWait,OutboxRow.resendDelay,min_eq_left ordered]
  exact ⟨fun r member => (scheduledRun run r member).sent,rfl,second,
    fun _ => waitDoubles (nonneg.trans ordered),fun _ => waitStays,
    fun k => ⟨productBounded nonneg k,waitBounded nonneg ordered k⟩⟩

theorem resendWaitsAtResend : ∃ r ∈ resent.rows.rows, Scheduled (resendWait timely.policy) resent r := by
  have only : resent.rows.rows =
      [⟨0,removalEventType,"user:7",0,some 31,0,none,27,none,none,none,1,some 1301⟩] := by decide +kernel
  have member : (⟨0,removalEventType,"user:7",0,some 31,0,none,27,none,none,none,1,some 1301⟩ : OutboxRow String) ∈
      resent.rows.rows := by rw [only]; exact List.mem_singleton.mpr rfl
  have run : Run (State.step timely) free .opened resending resent := replayRun (Option.some_get _).symm
  exact ⟨_,member,(resendWaits (by decide +kernel) (by decide +kernel) run).1 _ member rfl (by simp)⟩

/- Nothing is acknowledged and no statement or publish fails. -/
def Unanswered (_ : State π) : Action π → Prop
  | .acknowledge .. | .advance _ .fault | .advance _ (.answered _ (.error _)) => False
  | _ => True

instance (w : State π) (a) : Decidable (Unanswered w a) := by
  unfold Unanswered
  split <;> infer_instance

def capped : Deployment String := ⟨⟨600,3000⟩,some⟩

/- A removal is published at 0 and again when it is due, at 600. -/
def repeated : List (Action String) :=
  [.enqueue removalEventType "user:7" 0,.launch,.advance 0 (.ran 0),.advance 0 (.answered true (.ok ())),
    .advance 0 (.ran 0),.launch,.advance 1 (.ran 600),.advance 1 (.ran 600),.advance 1 (.answered true (.ok ())),
    .advance 1 (.ran 600)]

def repeatedEnd : State String :=
  (replay (State.step capped) Unanswered .opened repeated).get (by decide +kernel)

theorem secondWaitRepeats :
    ¬∀ (d : Deployment String) labels w, 0 ≤ d.policy.after → d.policy.after ≤ d.policy.cap →
      Run (State.step d) Unanswered .opened labels w → ∀ r ∈ w.rows.rows, r.eventType = removalEventType →
        r.publishedAt ≠ none → Scheduled (doubledWait d.policy) w r := by
  intro claim
  have only : repeatedEnd.rows.rows =
      [⟨0,removalEventType,"user:7",0,some 0,0,none,0,none,none,none,1,some 1200⟩] := by decide +kernel
  have member : (⟨0,removalEventType,"user:7",0,some 0,0,none,0,none,none,none,1,some 1200⟩ : OutboxRow String) ∈
      repeatedEnd.rows.rows := by rw [only]; exact List.mem_singleton.mpr rfl
  have run : Run (State.step capped) Unanswered .opened repeated repeatedEnd := replayRun (Option.some_get _).symm
  obtain ⟨last,sent,_,due⟩ := claim capped _ _ (by decide +kernel) (by decide +kernel) run _ member rfl (by simp)
  have at_ : lastAt repeatedEnd.history .published 0 = some 600 := by decide +kernel
  rw [at_] at sent
  cases Option.some.inj sent
  have different : ¬(some (1200 : ℚ) = some (600 + doubledWait capped.policy 1)) := by decide +kernel
  exact different due

end RatatoskrX.ResendSchedule
