import RatatoskrX.CaptureReports

/-! The attempts of a capture. A worker decides by the counter it claimed whether an attempt
is left, and its deferral raises the counter that is stored: the bound holds as long as a
deferral finds the counter as it was claimed, or one that still leaves an attempt. -/
namespace RatatoskrX.CaptureAttempts
open Schema Envelopes ReadCommitted Transition Capture CaptureCommits CaptureSteps CaptureReports

abbrev Rows := Uuid → Option ExplicitCapture

/- No counter passes the maximum, and a capture that reached it is not left accepted. -/
def Within (policy : CapturePolicy) (rows : Rows) : Prop :=
  ∀ id row, rows id = some row → row.attempts ≤ policy.maxAttempts.toNat ∧
    ((policy.maxAttempts.toNat : Int) ≤ row.attempts → row.status ≠ .accepted)

/- The capture that the step defers, as it was claimed, and its row as the statement finds it. -/
def deferring (w : Lane) : Action → Option (ClaimedCapture × ExplicitCapture)
  | .advance index (.ok now) => match w.calls[index]? with
    | some (.worker k) => match k.pc with
      | .defer capture =>
        if (now.checkedAddSigned (retryDelay (made capture.attempts))).isSome then
          ((w.captures.committed capture.captureId).filter
            (fun row => Lane.Open row ∧ row.attempts + 1 ≤ maxI32)).map (fun row => (capture,row))
        else none
      | _ => none
    | _ => none
  | _ => none

/- A deferral finds the counter as it was claimed, or one that still leaves an attempt. -/
def Current (policy : CapturePolicy) (w : Lane) (a : Action) : Prop :=
  ∀ s ∈ deferring w a, s.2.attempts = s.1.attempts ∨
    hasAttemptsLeft policy {s.1 with attempts := s.2.attempts} = true

instance (policy w a) : Decidable (Current policy w a) := by unfold Current; infer_instance

def Uniform (policy : CapturePolicy) (_ : Lane) : Action → Prop
  | .launch other => other = policy
  | _ => True

instance (policy w a) : Decidable (Uniform policy w a) := by unfold Uniform; split <;> infer_instance

/- A worker that is about to defer a capture had an attempt left when it claimed it. -/
def Decided (policy : CapturePolicy) : Call → Prop
  | .worker k => k.policy = policy ∧ ∀ capture, k.pc = .defer capture → hasAttemptsLeft policy capture = true
  | _ => True

inductive Counts (w : Lane) (a : Action) (rows : Rows) : Prop where
  | still (same : rows = w.captures.committed)
  | leased (same : ∀ id, rows id = w.captures.committed id ∨ ∃ row lease, w.captures.committed id = some row ∧
      rows id = some {row with nextAttemptAt := lease})
  | entered {captureId intake now}
      (same : rows = Function.update w.captures.committed captureId (some (Intake.row intake captureId now)))
  | deferred {capture row nextAttemptAt} (defers : deferring w a = some (capture,row))
      (there : w.captures.committed capture.captureId = some row) (small : row.attempts + 1 ≤ maxI32)
      (same : rows = Function.update w.captures.committed capture.captureId
        (some {row with attempts := row.attempts + 1, nextAttemptAt := nextAttemptAt}))
  | ended {id row row'} (there : w.captures.committed id = some row) (unreported : Lane.Open row)
      (attempts : row'.attempts = row.attempts + 1) (status : row'.status ≠ .accepted)
      (same : rows = Function.update w.captures.committed id (some row'))

/- The step of a call as its rows and its next point show it. -/
structure Turned (policy : CapturePolicy) (w : Lane) (index : Nat) (a : Action) (t : Lane) : Prop where
  calls : ∃ call, t.calls = w.calls.set index call ∧ Decided policy call
  rows : Counts w a t.captures.committed

section Steps
variable {d : Deployment} {policy : CapturePolicy} {w t u : Lane} {index : Nat} {k : Worker} {a : Action}
  {capture : ClaimedCapture}

theorem decidedAt {pc} (own : k.policy = policy) (elsewhere : ∀ capture, pc ≠ .defer capture) :
    Decided policy (.worker {k with pc := pc}) :=
  ⟨own,fun capture same => absurd same (elsewhere capture)⟩

theorem turnedAt {pc} (own : k.policy = policy) (elsewhere : ∀ capture, pc ≠ .defer capture) (calls : u.calls = w.calls)
    (rows : Counts w a u.captures.committed) : Turned policy w index a (u.at_ index k pc) :=
  ⟨⟨_,by rw [← calls]; rfl,decidedAt own elsewhere⟩,rows⟩

theorem turnedNext {summary} (own : k.policy = policy) (calls : u.calls = w.calls)
    (rows : Counts w a u.captures.committed) : Turned policy w index a (u.next index k summary) := by
  unfold Lane.next
  split
  · refine ⟨⟨_,by rw [← calls]; rfl,?_⟩,rows⟩
    exact ⟨own,fun _ same => by cases same⟩
  · refine ⟨⟨_,by rw [← calls]; rfl,?_⟩,rows⟩
    exact ⟨own,fun _ same => by cases same⟩

theorem turnedFail (own : k.policy = policy) : Turned policy w index a (w.failWorker index k) :=
  turnedAt own (by simp) rfl (.still rfl)

theorem turnedLock {pc} (own : k.policy = policy) (elsewhere : ∀ capture, pc ≠ .defer capture)
    (taken : w.lockOwnerPost d index k capture pc = some t) : Turned policy w index a t := by
  unfold Lane.lockOwnerPost at taken
  split at taken
  · cases Option.some.inj taken
    exact turnedAt own elsewhere rfl (.still rfl)
  · simp at taken

theorem turnedClaimDue {order now} (own : k.policy = policy)
    (taken : w.claimDue index k order now = some t) : Turned policy w index a t := by
  unfold Lane.claimDue at taken
  split at taken
  · cases Option.some.inj taken
    exact turnedFail own
  · rename_i lease _
    split at taken
    · cases Option.some.inj taken
      refine turnedNext own rfl (.leased ?_)
      intro id
      simp only [Store.updateCommitted]
      split
      · cases there : w.captures.committed id with
        | none => exact .inl rfl
        | some row => exact .inr ⟨row,lease,rfl,rfl⟩
      · exact .inl rfl
    · simp at taken

theorem turnedAnswered (own : k.policy = policy) (result) : Turned policy w index a (w.answered index k capture result) := by
  unfold Lane.answered
  split
  · split <;> exact turnedAt own (by simp) rfl (.still rfl)
  · split
    · rename_i left
      refine ⟨⟨_,rfl,own,?_⟩,.still rfl⟩
      intro other same
      cases same
      exact own ▸ left
    · exact turnedAt own (by simp) rfl (.still rfl)
  · exact turnedAt own (by simp) rfl (.still rfl)

theorem writeUpdate (s : Store Uuid ExplicitCapture) (id row) :
    (s.write id row).committed = Function.update s.committed id row := by
  funext other
  simp only [Store.writeCommitted,Function.update_apply]

theorem turnedDefer {now} (found : w.calls[index]? = some (.worker k)) (own : k.policy = policy)
    (pc : k.pc = .defer capture) (taken : w.defer index k capture now = some t) :
    Turned policy w index (.advance index (.ok now)) t := by
  unfold Lane.defer at taken
  split at taken
  · cases Option.some.inj taken
    exact turnedFail own
  · rename_i nextAttemptAt scheduled
    split at taken
    · simp only at taken
      split at taken
      · cases Option.some.inj taken
        exact turnedNext own rfl (.still rfl)
      · rename_i row there
        split at taken
        · rename_i unreported
          split at taken
          · rename_i small
            cases Option.some.inj taken
            have defers : deferring w (.advance index (.ok now)) = some (capture,row) := by
              have kept : decide (Lane.Open row ∧ row.attempts + 1 ≤ maxI32) = true := decide_eq_true ⟨unreported,small⟩
              simp only [deferring,found,pc,scheduled,there,Option.isSome_some,if_true,Option.filter_some,kept,
                Option.map_some]
            exact turnedNext own rfl (.deferred defers there small (writeUpdate ..))
          · cases Option.some.inj taken
            exact turnedFail own
        · cases Option.some.inj taken
          exact turnedNext own rfl (.still rfl)
    · simp at taken

theorem guardedKeeps {captureId f store} (written : w.guarded index captureId f = some (.ok (some store))) :
    store.committed = w.captures.committed := by
  unfold Lane.guarded at written
  split at written
  · split at written
    · cases written
    · split at written
      · split at written
        · cases written
          rfl
        · cases written
      · cases written
  · cases written

theorem outcomeAttempts {contract : Contract} {row source row' after queued}
    (outcome : Outcome contract capture row source row' after queued) : row'.attempts = row.attempts + 1 := by
  cases outcome <;> rfl

theorem commitCounts {queued} (sound : Sound d w) (found : w.calls[index]? = some (.worker k))
    (resolves : resolving (.worker k) = some capture) (prepared : Prepared d.contract w index capture queued) :
    Counts w a (w.captures.view index) := by
  have view := resolvedView sound found resolves
  rcases prepared with ⟨_,untouched,_⟩ | ⟨row,row',there,unreported,held,outcome⟩
  · refine .still ?_
    rw [view,Store.viewOther untouched,Function.update_eq_self]
  · refine .ended there unreported (outcomeAttempts outcome) (outcomeRow outcome).2.2.1 ?_
    rw [view,Store.viewHeld held rfl]

theorem turnedTerminate {failure stage now} (sound : Sound d w) (found : w.calls[index]? = some (.worker k))
    (own : k.policy = policy) (pc : k.pc = .terminate capture failure stage)
    (taken : w.terminate d index k capture failure stage now = some t) : Turned policy w index a t := by
  cases stage with
  | lock => exact turnedLock own (by simp) taken
  | guard =>
    simp only [Lane.terminate] at taken
    split at taken
    · simp at taken
    · cases Option.some.inj taken
      exact turnedFail own
    · cases Option.some.inj taken
      exact turnedAt own (by simp) rfl (.still rfl)
    · rename_i captures written
      have same : captures.committed = w.captures.committed := guardedKeeps written
      split at taken
      · cases Option.some.inj taken
        exact turnedAt own (by simp) rfl (.still same)
      · cases Option.some.inj taken
        exact turnedAt own (by simp) rfl (.still same)
  | remove =>
    simp only [Lane.terminate,Lane.removeOwnerSource] at taken
    split at taken
    · split at taken
      · cases Option.some.inj taken
        exact turnedAt own (by simp) rfl (.still rfl)
      · cases Option.some.inj taken
        exact turnedAt own (by simp) rfl (.still rfl)
    · simp at taken
  | commit queued =>
    have prepared := (sound.calls index _ found).sound.2
    rw [pc] at prepared
    cases Option.some.inj taken
    exact turnedNext own rfl (commitCounts sound found (by simp [resolving,pc]) prepared.2.2)

theorem turnedSelect {post} (own : k.policy = policy) : Turned policy w index a (w.selectOwnerSource d index k capture post) := by
  unfold Lane.selectOwnerSource
  simp only
  split
  · split
    · exact turnedAt own (by simp) rfl (.still rfl)
    · split
      · exact turnedAt own (by simp) rfl (.still rfl)
      · exact turnedAt own (by simp) rfl (.still rfl)
  · split
    · exact turnedAt own (by simp) rfl (.still rfl)
    · exact turnedAt own (by simp) rfl (.still rfl)

theorem turnedPreserve {post stage now} (sound : Sound d w) (found : w.calls[index]? = some (.worker k))
    (own : k.policy = policy) (pc : k.pc = .preserve capture post stage)
    (taken : w.preserve d index k capture post stage now = some t) : Turned policy w index a t := by
  cases stage with
  | lock => exact turnedLock own (by simp) taken
  | select =>
    cases Option.some.inj taken
    exact turnedSelect own
  | upsert sourceId fact snapshot =>
    simp only [Lane.preserve,Lane.upsertOwnerSource] at taken
    split at taken
    · cases Option.some.inj taken
      exact turnedAt own (by simp) rfl (.still rfl)
    · simp at taken
  | guard sourceId queued =>
    simp only [Lane.preserve] at taken
    split at taken
    · simp at taken
    · cases Option.some.inj taken
      exact turnedFail own
    · cases Option.some.inj taken
      exact turnedNext own rfl (.still rfl)
    · rename_i captures written
      cases Option.some.inj taken
      exact turnedAt own (by simp) rfl (.still (guardedKeeps written))
  | commit queued =>
    have prepared := (sound.calls index _ found).sound.2
    rw [pc] at prepared
    cases Option.some.inj taken
    exact turnedNext own rfl (commitCounts sound found (by simp [resolving,pc]) prepared.2.2)

theorem turnedWorker {reply} (sound : Sound d w) (found : w.calls[index]? = some (.worker k)) (own : k.policy = policy)
    (taken : w.runDueOnce d index k reply = some t) : Turned policy w index (.advance index reply) t := by
  have prepared := (sound.calls index _ found).sound.2
  unfold Lane.runDueOnce at taken
  split at taken
  · split at taken
    · simp at taken
    · cases Option.some.inj taken
      exact turnedFail own
  · split at taken
    · rename_i pc
      rw [pc] at prepared
      cases Option.some.inj taken
      exact turnedAt own (by simp) rfl (commitCounts sound found (by simp [resolving,pc]) prepared.2.2)
    · rename_i pc
      rw [pc] at prepared
      cases Option.some.inj taken
      exact turnedAt own (by simp) rfl (commitCounts sound found (by simp [resolving,pc]) prepared.2.2)
    · simp at taken
  · split at taken
    · exact turnedClaimDue own taken
    · simp at taken
  · split at taken
    · cases Option.some.inj taken
      exact turnedAnswered own _
    · simp at taken
  · split at taken
    · rename_i pc
      exact turnedDefer found own pc taken
    · rename_i pc
      exact turnedTerminate sound found own pc taken
    · rename_i pc
      exact turnedPreserve sound found own pc taken
    · simp at taken

theorem turnedIntake {intake pc reply} (sound : Sound d w) (found : w.calls[index]? = some (.intake intake pc))
    (taken : w.persistBrowserCapture index intake pc reply = some t) : Turned policy w index a t := by
  -- The commit of a delivery inserts the row that it holds.
  have entered : ∀ {captureId queued}, pc = .commit captureId queued → Counts w a (w.captures.view index) := by
    rintro captureId queued rfl
    obtain ⟨_,_,_,⟨now,held⟩,_⟩ := (sound.calls index _ found).sound
    exact .entered (deliveredView sound found held)
  unfold Lane.persistBrowserCapture at taken
  split at taken
  · simp at taken
  · cases Option.some.inj taken
    exact ⟨⟨_,rfl,trivial⟩,.still rfl⟩
  · unfold Lane.claimInbox at taken
    split at taken
    · cases Option.some.inj taken
      exact ⟨⟨_,rfl,trivial⟩,.still rfl⟩
    · split at taken
      · cases Option.some.inj taken
        exact ⟨⟨_,rfl,trivial⟩,.still rfl⟩
      · simp at taken
  · unfold Lane.insertCapture at taken
    split at taken
    · split at taken
      · cases Option.some.inj taken
        exact ⟨⟨_,rfl,trivial⟩,.still rfl⟩
      · cases Option.some.inj taken
        exact ⟨⟨_,rfl,trivial⟩,.still rfl⟩
    · simp at taken
  · cases Option.some.inj taken
    exact ⟨⟨_,rfl,trivial⟩,entered rfl⟩
  · cases Option.some.inj taken
    exact ⟨⟨_,rfl,trivial⟩,entered rfl⟩
  · simp at taken

structure Counted (d : Deployment) (policy : CapturePolicy) (w : Lane) : Prop where
  sound : Sound d w
  decided : ∀ call ∈ w.calls, Decided policy call
  natural : ∀ id row, w.captures.committed id = some row → 0 ≤ row.attempts

theorem turnedOf {reply} (counted : Counted d policy w) (taken : w.step d (.advance index reply) = some t) :
    Turned policy w index (.advance index reply) t := by
  simp only [Lane.step] at taken
  split at taken
  · rename_i intake pc found
    exact turnedIntake counted.sound found taken
  · rename_i k found
    exact turnedWorker counted.sound found (counted.decided _ (List.mem_of_getElem? found)).1 taken
  · simp at taken

theorem countsStep (counted : Counted d policy w) (taken : w.step d a = some t) : Counts w a t.captures.committed := by
  cases a with
  | deliver command =>
    cases Option.some.inj taken
    exact .still rfl
  | launch other =>
    cases Option.some.inj taken
    exact .still rfl
  | advance index reply => exact (turnedOf counted taken).rows

theorem naturalCounts {rows} (counts : Counts w a rows)
    (natural : ∀ id row, w.captures.committed id = some row → 0 ≤ row.attempts) :
    ∀ id row, rows id = some row → 0 ≤ row.attempts := by
  intro id row there
  cases counts with
  | still same => exact natural id row (same ▸ there)
  | leased same =>
    rcases same id with stays | ⟨row',lease,before,after⟩
    · exact natural id row (stays ▸ there)
    · rw [after] at there
      cases Option.some.inj there
      exact natural id row' before
  | entered same =>
    rw [same] at there
    rcases updatedCases there with ⟨_,rfl⟩ | ⟨_,before⟩
    · exact le_refl _
    · exact natural id row before
  | deferred _ before _ same =>
    rw [same] at there
    rcases updatedCases there with ⟨_,rfl⟩ | ⟨_,before'⟩
    · have old := natural _ _ before
      simp only
      omega
    · exact natural id row before'
  | ended before _ attempts _ same =>
    rw [same] at there
    rcases updatedCases there with ⟨_,rfl⟩ | ⟨_,before'⟩
    · have old := natural _ _ before
      omega
    · exact natural id row before'

theorem countedStep (counted : Counted d policy w) (uniform : Uniform policy w a) (taken : w.step d a = some t) :
    Counted d policy t := by
  refine ⟨(soundStep counted.sound taken).1,?_,naturalCounts (countsStep counted taken) counted.natural⟩
  intro call member
  cases a with
  | deliver command =>
    cases Option.some.inj taken
    rcases List.mem_append.mp member with old | new
    · exact counted.decided call old
    · cases List.mem_singleton.mp new
      split <;> trivial
  | launch other =>
    cases Option.some.inj taken
    rcases List.mem_append.mp member with old | new
    · exact counted.decided call old
    · cases List.mem_singleton.mp new
      exact ⟨uniform,fun _ same => by cases same⟩
  | advance index reply =>
    obtain ⟨moved,calls,decided⟩ := (turnedOf counted taken).calls
    rw [calls] at member
    rcases List.mem_or_eq_of_mem_set member with old | rfl
    · exact counted.decided call old
    · exact decided

theorem deferringAt {row} (defers : deferring w a = some (capture,row)) :
    ∃ index now k nextAttemptAt, a = .advance index (.ok now) ∧ w.calls[index]? = some (.worker k) ∧
      k.pc = .defer capture ∧ now.checkedAddSigned (retryDelay (made capture.attempts)) = some nextAttemptAt ∧
      w.captures.committed capture.captureId = some row ∧ Lane.Open row ∧ row.attempts + 1 ≤ maxI32 := by
  unfold deferring at defers
  split at defers
  · rename_i index now
    split at defers
    · rename_i k found
      split at defers
      · rename_i other pc
        split at defers
        · rename_i scheduled
          obtain ⟨nextAttemptAt,instant⟩ := Option.isSome_iff_exists.mp scheduled
          obtain ⟨stored,kept,same⟩ := Option.map_eq_some_iff.mp defers
          cases same
          obtain ⟨there,meets⟩ := Option.filter_eq_some_iff.mp kept
          obtain ⟨unreported,small⟩ := of_decide_eq_true meets
          exact ⟨index,now,k,nextAttemptAt,rfl,found,pc,instant,there,unreported,small⟩
        · simp at defers
      · simp at defers
    · simp at defers
  · simp at defers

theorem deferringWrites {row} (defers : deferring w a = some (capture,row)) (taken : w.step d a = some t) :
    ∃ nextAttemptAt, t.captures.committed capture.captureId =
      some {row with attempts := row.attempts + 1, nextAttemptAt := nextAttemptAt} := by
  obtain ⟨index,now,k,nextAttemptAt,rfl,found,pc,scheduled,there,unreported,small⟩ := deferringAt defers
  refine ⟨nextAttemptAt,?_⟩
  simp only [Lane.step,found,Lane.runDueOnce,pc,Lane.defer,scheduled] at taken
  split at taken
  · simp only [there,if_pos unreported,if_pos small] at taken
    cases Option.some.inj taken
    unfold Lane.next
    split <;> exact if_pos rfl
  · simp at taken

theorem leftBelow {attempts} (small : attempts + 1 ≤ maxI32)
    (left : hasAttemptsLeft policy {capture with attempts := attempts} = true) :
    attempts + 1 < policy.maxAttempts.toNat := by
  have below := of_decide_eq_true (Bool.and_eq_true_iff.mp left).2
  simp only [made] at below
  omega

theorem belowLeft {attempts} (natural : 0 ≤ attempts) (small : attempts + 1 ≤ maxI32)
    (below : attempts + 1 < policy.maxAttempts.toNat) :
    hasAttemptsLeft policy {capture with attempts := attempts} = true := by
  have next : made attempts = attempts + 1 := min_eq_left small
  refine Bool.and_eq_true_iff.mpr ⟨decide_eq_true ?_,decide_eq_true ?_⟩ <;> simp only [next] <;> omega

theorem currentLeft (counted : Counted d policy w) (current : Current policy w a) {row}
    (defers : deferring w a = some (capture,row)) : row.attempts + 1 < policy.maxAttempts.toNat := by
  obtain ⟨index,now,k,_,_,found,pc,_,_,_,small⟩ := deferringAt defers
  rcases current _ defers with same | left
  · have claimed := (counted.decided _ (List.mem_of_getElem? found)).2 capture pc
    simp only at same
    rw [same] at small ⊢
    exact leftBelow small claimed
  · exact leftBelow small left

theorem withinStep (positive : 1 ≤ policy.maxAttempts.toNat) (counted : Counted d policy w)
    (current : Current policy w a) (within : Within policy w.captures.committed) (taken : w.step d a = some t) :
    Within policy t.captures.committed := by
  intro id row there
  cases countsStep counted taken with
  | still same => exact within id row (same ▸ there)
  | leased same =>
    rcases same id with stays | ⟨row',lease,before,after⟩
    · exact within id row (stays ▸ there)
    · rw [after] at there
      cases Option.some.inj there
      exact within id row' before
  | @entered captureId intake now same =>
    rw [same] at there
    rcases updatedCases there with ⟨_,rfl⟩ | ⟨_,before⟩
    · have none : (Intake.row intake captureId now).attempts = 0 := rfl
      rw [none]
      omega
    · exact within id row before
  | @deferred capture row' _ defers _ _ same =>
    rw [same] at there
    rcases updatedCases there with ⟨_,rfl⟩ | ⟨_,before⟩
    · have below := currentLeft counted current defers
      simp only
      omega
    · exact within id row before
  | ended before unreported attempts status same =>
    rw [same] at there
    rcases updatedCases there with ⟨_,rfl⟩ | ⟨_,before'⟩
    · have open_ := (within _ _ before).2
      have below : ¬(policy.maxAttempts.toNat : Int) ≤ _ := fun reached => open_ reached unreported.1
      exact ⟨by omega,fun _ => status⟩
    · exact within id row before'

theorem currentWithin (counted : Counted d policy w) (taken : w.step d a = some t)
    (within : Within policy t.captures.committed) : Current policy w a := by
  rintro ⟨capture,row⟩ defers
  obtain ⟨_,_,_,_,_,_,_,_,there,unreported,small⟩ := deferringAt defers
  obtain ⟨_,written⟩ := deferringWrites defers taken
  have bound := (within _ _ written).2
  have below : ¬(policy.maxAttempts.toNat : Int) ≤ row.attempts + 1 := fun reached => bound reached unreported.1
  exact .inr (belowLeft (counted.natural _ _ there) small (lt_of_not_ge below))

end Steps

section Runs
variable {d : Deployment} {policy : CapturePolicy} {labels : List Action} {w : Lane}

theorem countedRun (run : Run (Lane.step d) (Uniform policy) Lane.empty labels w) : Counted d policy w :=
  run.preserves (Counted d policy) (fun _ _ _ counted uniform taken => countedStep counted uniform taken)
    ⟨soundEmpty d,by simp [Lane.empty],by simp [Lane.empty,Store.empty]⟩

theorem withinRun (positive : 1 ≤ policy.maxAttempts.toNat)
    (run : Run (Lane.step d) (fun w a => Uniform policy w a ∧ Current policy w a) Lane.empty labels w) :
    Within policy w.captures.committed := by
  have both := run.preserves (fun w => Counted d policy w ∧ Within policy w.captures.committed)
    (fun _ _ _ holds guard taken =>
      ⟨countedStep holds.1 guard.1 taken,withinStep positive holds.1 guard.2 holds.2 taken⟩)
    ⟨countedRun (.nil _),fun _ _ there => by cases there⟩
  exact both.2

end Runs

/-- A run with one policy keeps its captures within their attempts if and only if every deferral
finds the counter as it was claimed, or one that still leaves an attempt. -/
theorem captureAttemptsBounded {d policy labels w} (positive : 1 ≤ policy.maxAttempts.toNat)
    (run : Run (Lane.step d) (Uniform policy) Lane.empty labels w) :
    (∀ before after p, labels = before ++ after → Run (Lane.step d) (Uniform policy) Lane.empty before p →
      Within policy p.captures.committed) ↔
    ∀ p a q, Passes (Lane.step d) (Uniform policy) Lane.empty labels w p a q → Current policy p a := by
  constructor
  · rintro within p a q ⟨before,after,rfl,first,uniform,taken,_⟩
    have reached : Run (Lane.step d) (Uniform policy) Lane.empty (before ++ [a]) q :=
      first.append (.cons uniform taken (.nil q))
    exact currentWithin (countedRun first) taken (within _ after q (by simp) reached)
  · rintro current before after p rfl first
    have both := run.meets (fun w a => Uniform policy w a ∧ Current policy w a) (fun x a y passes =>
      ⟨by obtain ⟨_,_,_,_,uniform,_⟩ := passes; exact uniform,current x a y passes⟩)
    obtain ⟨q,start,_⟩ := both.split
    cases start.unique first
    exact withinRun positive start

def twoAttempts : CapturePolicy := ⟨2,10⟩

def queuedCapture : List Action :=
  .deliver ⟨7,some 1,some ⟨.x,.browserExtension,.explicitUserCapture,5,"https://x.com/a/status/42",
    some ⟨0,DateTime.epochRepresentable⟩⟩⟩::List.replicate 3 (.advance 0 (.ok ⟨0,DateTime.epochRepresentable⟩))

def deferredOnce : List Action := queuedCapture ++
  [.launch twoAttempts,.advance 1 (.rows [0] ⟨0,DateTime.epochRepresentable⟩),.advance 1 (.answer (.error .transient)),
    .advance 1 (.ok ⟨0,DateTime.epochRepresentable⟩),.launch twoAttempts,.advance 2 (.rows [0] ⟨30000000,by decide⟩),
    .advance 2 (.answer (.error .transient))] ++ List.replicate 3 (.advance 2 (.ok ⟨30000000,by decide⟩))

def deferredOnceEnd : Lane :=
  (replay (Lane.step plain) (fun w a => Uniform twoAttempts w a ∧ Current twoAttempts w a) Lane.empty
    deferredOnce).get (by decide +kernel)

theorem captureAttemptsBoundedAtDeferral :
    (deferredOnceEnd.captures.committed 0).map (fun row => (row.status,row.attempts)) = some (.unavailable,2) ∧
      Within twoAttempts deferredOnceEnd.captures.committed := by
  have run : Run (Lane.step plain) (fun w a => Uniform twoAttempts w a ∧ Current twoAttempts w a) Lane.empty
      deferredOnce deferredOnceEnd := replayRun (Option.some_get _).symm
  have uniform := run.weaken (fun _ _ both => both.1)
  refine ⟨by decide +kernel,?_⟩
  refine (captureAttemptsBounded (by decide) uniform).mpr ?_ deferredOnce [] _ (List.append_nil _).symm uniform
  intro p a q passes
  obtain ⟨_,_,_,_,both,_⟩ := run.guarded passes
  exact both.2

theorem leaseOverRepresentable : minMicros ≤ 120000000 ∧ 120000000 ≤ maxMicros := by decide

/- Two workers hold the same claim after its lease ran out, and both defer the capture. -/
def deferredTwice : List Action := queuedCapture ++
  [.launch twoAttempts,.launch twoAttempts,.advance 1 (.rows [0] ⟨0,DateTime.epochRepresentable⟩),
    .advance 2 (.rows [0] ⟨120000000,leaseOverRepresentable⟩),.advance 1 (.answer (.error .transient)),
    .advance 2 (.answer (.error .transient)),.advance 1 (.ok ⟨120000000,leaseOverRepresentable⟩),
    .advance 2 (.ok ⟨120000000,leaseOverRepresentable⟩)]

def deferredTwiceEnd : Lane :=
  (replay (Lane.step plain) (Uniform twoAttempts) Lane.empty deferredTwice).get (by decide +kernel)

theorem staleDeferralLeavesAccepted :
    ¬∀ d policy labels w, 1 ≤ policy.maxAttempts.toNat →
      Run (Lane.step d) (Uniform policy) Lane.empty labels w → Within policy w.captures.committed := by
  intro claim
  have within := claim plain twoAttempts deferredTwice deferredTwiceEnd (by decide) (replayRun (Option.some_get _).symm)
  have left : (deferredTwiceEnd.captures.committed 0).map (fun row => (row.status,row.attempts)) = some (.accepted,2) := by
    decide +kernel
  obtain ⟨row,there,same⟩ := Option.map_eq_some_iff.mp left
  obtain ⟨status,attempts⟩ := Prod.mk.inj same
  exact (within 0 row there).2 (by rw [attempts]; decide) status

end RatatoskrX.CaptureAttempts
