import RatatoskrX.SourceHistory

/-! Capture times and commit order. A capture's time is fixed when its command arrives and
its fact is committed when a resolution succeeds, so a deferred capture can publish after
a later one, or after a removal that was recorded later. -/
namespace RatatoskrX.CaptureTimes
open Schema Envelopes ReadCommitted Transition Incarnation Capture CaptureCommits CaptureSteps CaptureReports SourceHistory

/- A removal was recorded before the time, or a content was captured no later. -/
def Earlier (f : PairFact) (t : DateTime) : Prop :=
  match f with
  | .opened _ _ s => s ≤ t
  | .revised _ _ s => s ≤ t
  | .closed _ s => s < t

instance (f t) : Decidable (Earlier f t) := by
  unfold Earlier
  split <;> infer_instance

/- The capture is no older than what it would replace: the source row, or, where there is
none, every fact that was published for its pair. -/
def Newer (w : Lane) (capture : ClaimedCapture) : Prop :=
  match w.sources.committed capture.pair with
  | some source => source.capturedAt ≤ capture.capturedAt
  | none => ∀ f ∈ history w.outbox capture.pair, Earlier f capture.capturedAt

instance (w capture) : Decidable (Newer w capture) := by
  unfold Newer
  split <;> infer_instance

/- The post leaves the owner's source as it is: it has the source's content, or the shared
contract cannot represent it. -/
def Keeps (d : Deployment) (w : Lane) (capture : ClaimedCapture) (post : PublicPost) : Prop :=
  let snapshot (sourceId : Uuid) := post.facts.snapshot d.contract sourceId capture.owner (digestOf d.contract post)
    capture.capturedAt explicitProvenance
  match w.sources.committed capture.pair with
  | some source => source.currentContentDigest = digestOf d.contract post ∨ snapshot source.socialSourceId = none
  | none => snapshot w.minted = none

instance (d w capture post) : Decidable (Keeps d w capture post) := by
  unfold Keeps
  simp only
  split <;> infer_instance

/- The capture and the post whose source the step reads. -/
def selecting (w : Lane) : Action → Option (ClaimedCapture × PublicPost)
  | .advance index (.ok _) => match w.calls[index]? with
    | some (.worker k) => match k.pc with
      | .preserve capture post .select => some (capture,post)
      | _ => none
    | _ => none
  | _ => none

/- A capture that is resolved to a new content is newer than what it would replace. -/
def InOrder (d : Deployment) (w : Lane) (a : Action) : Prop :=
  ∀ s ∈ selecting w a, Keeps d w s.1 s.2 ∨ Newer w s.1

instance (d w a) : Decidable (InOrder d w a) := by unfold InOrder; infer_instance

def publishing : Call → Option ClaimedCapture
  | .worker k => match k.pc with
    | .preserve capture _ (.upsert _ _ _) => some capture
    | .preserve capture _ (.guard _ queued) => if queued.any tellsContent then some capture else none
    | .preserve capture _ (.commit queued) => if queued.any tellsContent then some capture else none
    | _ => none
  | _ => none

theorem publishingLocked {call capture} (publishes : publishing call = some capture) : locked call = some capture := by
  unfold publishing at publishes
  split at publishes
  · rename_i k
    split at publishes
    · rename_i pc
      simpa [locked,pc] using publishes
    · rename_i pc
      split at publishes
      · simpa [locked,pc] using publishes
      · simp at publishes
    · rename_i pc
      split at publishes
      · simpa [locked,pc] using publishes
      · simp at publishes
    · simp at publishes
  · simp at publishes

/- The step leaves its call at a point that is about to publish nothing. -/
def Quietly (w : Lane) (index : Nat) (t : Lane) : Prop :=
  ∃ call, t.calls = w.calls.set index call ∧ publishing call = none

/- A step of a worker leaves it quiet, or about to publish what it was about to publish, or
about to publish a content that its source does not have. -/
inductive Onward (d : Deployment) (w : Lane) (index : Nat) (k : Worker) (reply : Reply) (t : Lane) : Prop where
  | quiet (quietly : Quietly w index t)
  | kept {call} (calls : t.calls = w.calls.set index call) (same : archive t = archive w)
      (before : ∀ capture, publishing call = some capture → publishing (.worker k) = some capture)
  | chosen {call capture post} (calls : t.calls = w.calls.set index call) (same : archive t = archive w)
      (publishes : publishing call = some capture)
      (selects : selecting w (.advance index reply) = some (capture,post)) (differs : ¬Keeps d w capture post)

section Steps
variable {d : Deployment} {w t : Lane} {index : Nat} {k : Worker} {call call' : Call} {capture : ClaimedCapture}

theorem quietNext {u : Lane} {summary} (calls : u.calls = w.calls) : Quietly w index (u.next index k summary) := by
  unfold Lane.next
  split
  · exact ⟨_,by rw [← calls]; rfl,rfl⟩
  · exact ⟨_,by rw [← calls]; rfl,rfl⟩

theorem quietIntake {intake pc reply} (taken : w.persistBrowserCapture index intake pc reply = some t) :
    Quietly w index t := by
  unfold Lane.persistBrowserCapture at taken
  split at taken
  · simp at taken
  · cases Option.some.inj taken
    exact ⟨_,rfl,rfl⟩
  · unfold Lane.claimInbox at taken
    split at taken
    · cases Option.some.inj taken
      exact ⟨_,rfl,rfl⟩
    · split at taken
      · cases Option.some.inj taken
        exact ⟨_,rfl,rfl⟩
      · simp at taken
  · unfold Lane.insertCapture at taken
    split at taken
    · split at taken
      · cases Option.some.inj taken
        exact ⟨_,rfl,rfl⟩
      · cases Option.some.inj taken
        exact ⟨_,rfl,rfl⟩
    · simp at taken
  · cases Option.some.inj taken
    exact ⟨_,rfl,rfl⟩
  · cases Option.some.inj taken
    exact ⟨_,rfl,rfl⟩
  · simp at taken

theorem quietLock {pc} (silent : publishing (.worker {k with pc := pc}) = none)
    (taken : w.lockOwnerPost d index k capture pc = some t) : Quietly w index t := by
  unfold Lane.lockOwnerPost at taken
  split at taken
  · cases Option.some.inj taken
    exact ⟨_,rfl,silent⟩
  · simp at taken

theorem quietClaimDue {order now} (taken : w.claimDue index k order now = some t) : Quietly w index t := by
  unfold Lane.claimDue at taken
  split at taken
  · cases Option.some.inj taken
    exact ⟨_,rfl,rfl⟩
  · split at taken
    · cases Option.some.inj taken
      exact quietNext rfl
    · simp at taken

theorem quietDefer {now} (taken : w.defer index k capture now = some t) : Quietly w index t := by
  unfold Lane.defer at taken
  split at taken
  · cases Option.some.inj taken
    exact ⟨_,rfl,rfl⟩
  · split at taken
    · simp only at taken
      split at taken
      · cases Option.some.inj taken
        exact quietNext rfl
      · split at taken
        · split at taken
          · cases Option.some.inj taken
            exact quietNext rfl
          · cases Option.some.inj taken
            exact ⟨_,rfl,rfl⟩
        · cases Option.some.inj taken
          exact quietNext rfl
    · simp at taken

theorem quietAnswered (result) : Quietly w index (w.answered index k capture result) := by
  unfold Lane.answered
  split
  · split <;> exact ⟨_,rfl,rfl⟩
  · split <;> exact ⟨_,rfl,rfl⟩
  · exact ⟨_,rfl,rfl⟩

theorem quietTerminate {failure stage now} (taken : w.terminate d index k capture failure stage now = some t) :
    Quietly w index t := by
  cases stage with
  | lock => exact quietLock rfl taken
  | guard =>
    simp only [Lane.terminate] at taken
    split at taken
    · simp at taken
    · cases Option.some.inj taken
      exact ⟨_,rfl,rfl⟩
    · cases Option.some.inj taken
      exact ⟨_,rfl,rfl⟩
    · split at taken
      · cases Option.some.inj taken
        exact ⟨_,rfl,rfl⟩
      · cases Option.some.inj taken
        exact ⟨_,rfl,rfl⟩
  | remove =>
    simp only [Lane.terminate,Lane.removeOwnerSource] at taken
    split at taken
    · split at taken
      · cases Option.some.inj taken
        exact ⟨_,rfl,rfl⟩
      · cases Option.some.inj taken
        exact ⟨_,rfl,rfl⟩
    · simp at taken
  | commit queued =>
    cases Option.some.inj taken
    exact quietNext rfl

theorem onwardSelect {post now} (sound : Sound d w) (found : w.calls[index]? = some (.worker k))
    (pc : k.pc = .preserve capture post .select) :
    Onward d w index k (.ok now) (w.selectOwnerSource d index k capture post) := by
  have same := (soundSelect sound found pc).2
  have selects : selecting w (.advance index (.ok now)) = some (capture,post) := by simp [selecting,found,pc]
  have view : w.sources.view index capture.pair = w.sources.committed capture.pair := by
    refine Store.viewOther ?_
    intro x held own
    have written := (sound.calls index _ found).sources _ x held own
    simp [writtenSource,pc] at written
  unfold Lane.selectOwnerSource at same ⊢
  simp only [view] at same ⊢
  split
  · rename_i source present
    split
    · exact .quiet ⟨_,rfl,by simp [publishing]⟩
    · rename_i differs
      split
      · exact .quiet ⟨_,rfl,rfl⟩
      · rename_i snapshot built
        simp only [present,if_neg differs,built] at same
        refine .chosen rfl same rfl selects ?_
        simp only [Keeps,present,not_or]
        exact ⟨differs,fun none => by simp [digestOf,built] at none⟩
  · rename_i absent
    split
    · exact .quiet ⟨_,rfl,rfl⟩
    · rename_i snapshot built
      simp only [absent,built] at same
      refine .chosen rfl same rfl selects ?_
      simp only [Keeps,absent]
      exact fun none => by simp [digestOf,built] at none

theorem onwardPreserve {post stage now} (sound : Sound d w) (found : w.calls[index]? = some (.worker k))
    (pc : k.pc = .preserve capture post stage) (taken : w.preserve d index k capture post stage now = some t) :
    Onward d w index k (.ok now) t := by
  cases stage with
  | lock => exact .quiet (quietLock rfl taken)
  | select =>
    cases Option.some.inj taken
    exact onwardSelect sound found pc
  | upsert sourceId fact snapshot =>
    have same := (soundUpsert sound found pc taken).2
    simp only [Lane.preserve,Lane.upsertOwnerSource] at taken
    split at taken
    · cases Option.some.inj taken
      refine .kept rfl same ?_
      intro other publishes
      simp only [publishing] at publishes ⊢
      split at publishes
      · simpa [pc] using publishes
      · simp at publishes
    · simp at taken
  | guard sourceId queued =>
    have same := (soundPreserveGuard sound found pc taken).2
    simp only [Lane.preserve] at taken
    split at taken
    · simp at taken
    · cases Option.some.inj taken
      exact .quiet ⟨_,rfl,rfl⟩
    · cases Option.some.inj taken
      exact .quiet (quietNext rfl)
    · cases Option.some.inj taken
      refine .kept rfl same ?_
      intro other publishes
      simpa [publishing,pc,tellsContent,Lane.report,reportEnvelope] using publishes
  | commit queued =>
    cases Option.some.inj taken
    exact .quiet (quietNext rfl)

theorem onwardWorker {reply} (sound : Sound d w) (found : w.calls[index]? = some (.worker k))
    (taken : w.runDueOnce d index k reply = some t) : Onward d w index k reply t := by
  unfold Lane.runDueOnce at taken
  split at taken
  · split at taken
    · simp at taken
    · cases Option.some.inj taken
      exact .quiet ⟨_,rfl,rfl⟩
  · split at taken
    · cases Option.some.inj taken
      exact .quiet ⟨_,rfl,rfl⟩
    · cases Option.some.inj taken
      exact .quiet ⟨_,rfl,rfl⟩
    · simp at taken
  · split at taken
    · exact .quiet (quietClaimDue taken)
    · simp at taken
  · split at taken
    · cases Option.some.inj taken
      exact .quiet (quietAnswered _)
    · simp at taken
  · split at taken
    · exact .quiet (quietDefer taken)
    · exact .quiet (quietTerminate taken)
    · rename_i pc
      exact onwardPreserve sound found pc taken
    · simp at taken

theorem callsStep {reply} (sound : Sound d w) (taken : w.step d (.advance index reply) = some t) :
    ∃ call, t.calls = w.calls.set index call := by
  simp only [Lane.step] at taken
  split at taken
  · obtain ⟨call,calls,_⟩ := quietIntake taken
    exact ⟨call,calls⟩
  · rename_i k found
    cases onwardWorker sound found taken with
    | quiet quietly =>
      obtain ⟨call,calls,_⟩ := quietly
      exact ⟨call,calls⟩
    | kept calls => exact ⟨_,calls⟩
    | chosen calls => exact ⟨_,calls⟩
  · simp at taken

theorem publishingStep {reply} (sound : Sound d w) (taken : w.step d (.advance index reply) = some t)
    (there : t.calls[index]? = some call') (publishes : publishing call' = some capture) :
    archive t = archive w ∧ ((∃ call, w.calls[index]? = some call ∧ publishing call = some capture) ∨
      ∃ post, selecting w (.advance index reply) = some (capture,post) ∧ ¬Keeps d w capture post) := by
  have quietly : ∀ {call}, w.calls[index]? = some call → Quietly w index t → False := by
    rintro call found ⟨after,calls,silent⟩
    rw [calls,setCall found,if_pos rfl] at there
    cases Option.some.inj there
    rw [silent] at publishes
    cases publishes
  simp only [Lane.step] at taken
  split at taken
  · rename_i intake pc found
    exact (quietly found (quietIntake taken)).elim
  · rename_i k found
    cases onwardWorker sound found taken with
    | quiet quiet => exact (quietly found quiet).elim
    | kept calls same before =>
      rw [calls,setCall found,if_pos rfl] at there
      cases Option.some.inj there
      exact ⟨same,.inl ⟨_,found,before capture publishes⟩⟩
    | chosen calls same publishes' selects differs =>
      rw [calls,setCall found,if_pos rfl] at there
      cases Option.some.inj there
      rw [publishes'] at publishes
      cases Option.some.inj publishes
      exact ⟨same,.inr ⟨_,selects,differs⟩⟩
  · simp at taken

theorem queuedCommit {reply} (sound : Sound d w) (taken : w.step d (.advance index reply) = some t)
    (found : w.calls[index]? = some call) (resolves : resolving call = some capture) :
    t.outbox = w.outbox ∨ ∃ queued, t.outbox = w.outbox ++ queued ∧
      (queued.any tellsContent → publishing call = some capture) := by
  have own := (sound.calls index call found).sound
  unfold resolving at resolves
  split at resolves
  · rename_i k
    simp only [Lane.step,found,Lane.runDueOnce] at taken
    split at resolves
    · rename_i other failure queued pc
      cases Option.some.inj resolves
      have silent := own.2
      rw [pc] at silent
      have none : queued.any tellsContent → publishing (.worker k) = some capture := by
        rw [silent.2.1]
        simp
      split at taken
      · simp only [pc] at taken
        cases Option.some.inj taken
        exact .inl rfl
      · simp only [pc] at taken
        cases Option.some.inj taken
        exact .inr ⟨queued,rfl,none⟩
      · simp [pc] at taken
      · simp [pc] at taken
      · simp only [pc,Lane.terminate] at taken
        cases Option.some.inj taken
        refine .inr ⟨queued,?_,none⟩
        unfold Lane.next
        split <;> rfl
    · rename_i other post queued pc
      cases Option.some.inj resolves
      have publishes : queued.any tellsContent → publishing (.worker k) = some capture := by
        intro tells
        simp [publishing,pc,tells]
      split at taken
      · simp only [pc] at taken
        cases Option.some.inj taken
        exact .inl rfl
      · simp only [pc] at taken
        cases Option.some.inj taken
        exact .inr ⟨queued,rfl,publishes⟩
      · simp [pc] at taken
      · simp [pc] at taken
      · simp only [pc,Lane.preserve] at taken
        cases Option.some.inj taken
        refine .inr ⟨queued,?_,publishes⟩
        unfold Lane.next
        split <;> rfl
    · simp at resolves
  · simp at resolves

/- A content of the history was captured no later than the time. -/
def Within (f : PairFact) (t : DateTime) : Prop :=
  match f with
  | .opened _ _ s => s ≤ t
  | .revised _ _ s => s ≤ t
  | .closed _ _ => True

structure Timed (d : Deployment) (w : Lane) : Prop where
  sound : Sound d w
  chronicle : Chronicle w.sources.committed w.outbox
  timely : ∀ pair, Timely (history w.outbox pair)
  latest : ∀ pair source, w.sources.committed pair = some source → ∀ f ∈ history w.outbox pair, Within f source.capturedAt
  ready : ∀ (index : Nat) call, w.calls[index]? = some call → ∀ capture, publishing call = some capture → Newer w capture

theorem newerSame {u : Lane} (sources : u.sources.committed capture.pair = w.sources.committed capture.pair)
    (same : history u.outbox capture.pair = history w.outbox capture.pair) (newer : Newer w capture) :
    Newer u capture := by
  unfold Newer at newer ⊢
  rwa [sources,same]

theorem withinLater {f : PairFact} {s u : DateTime} (within : Within f s) (later : s ≤ u) : Within f u := by
  cases f with
  | opened _ _ _ => exact Int.le_trans within later
  | revised _ _ _ => exact Int.le_trans within later
  | closed _ _ => trivial

theorem timelyTold {social after} (timed : Timed d w) (newer : social.any tellsContent → Newer w capture)
    (tells : Tells capture (w.sources.committed capture.pair) after social) :
    Timely (history w.outbox capture.pair ++ added social) ∧
      ∀ source, after = some source → ∀ f ∈ history w.outbox capture.pair ++ added social, Within f source.capturedAt := by
  have timely := timed.timely capture.pair
  have latest := timed.latest capture.pair
  unfold Newer at newer
  generalize w.sources.committed capture.pair = stored at tells newer latest
  cases tells with
  | nothing =>
    rw [added,List.filterMap_nil,List.append_nil]
    exact ⟨timely,latest⟩
  | captured owner post content time =>
    have earlier := newer rfl
    refine ⟨List.pairwise_append.mpr ⟨timely,List.pairwise_singleton ..,?_⟩,?_⟩
    · intro f before g new
      cases List.mem_singleton.mp new
      rw [time]
      cases f with
      | opened _ _ _ => exact earlier _ before
      | revised _ _ _ => exact earlier _ before
      | closed _ _ => exact earlier _ before
    · intro source stands f member
      cases Option.some.inj stands
      rcases List.mem_append.mp member with before | new
      · cases f with
        | opened _ _ _ => exact earlier _ before
        | revised _ _ _ => exact earlier _ before
        | closed _ _ => trivial
      · cases List.mem_singleton.mp new
        exact Int.le_of_eq (congrArg DateTime.micros time)
  | @updated source snapshot digest id owner post content time same differs =>
    have later := newer rfl
    refine ⟨List.pairwise_append.mpr ⟨timely,List.pairwise_singleton ..,?_⟩,?_⟩
    · intro f before g new
      cases List.mem_singleton.mp new
      rw [time]
      have within := latest source rfl f before
      cases f with
      | opened _ _ _ => exact Int.le_trans within later
      | revised _ _ _ => exact Int.le_trans within later
      | closed _ _ => trivial
    · intro kept stands f member
      cases Option.some.inj stands
      rcases List.mem_append.mp member with before | new
      · exact withinLater (latest source rfl f before) later
      · cases List.mem_singleton.mp new
        exact Int.le_of_eq (congrArg DateTime.micros time)
  | removed =>
    refine ⟨List.pairwise_append.mpr ⟨timely,List.pairwise_singleton ..,?_⟩,?_⟩
    · intro f before g new
      cases List.mem_singleton.mp new
      cases f <;> trivial
    · intro source stands
      cases stands

/- A resolution that leaves its source as it was told nothing. -/
theorem tellsNothing {source after social} (tells : Tells capture source after social) (same : after = source) :
    added social = [] := by
  cases tells with
  | nothing => rfl
  | captured => cases same
  | updated owner post content time identity differs =>
    have digest := congrArg ExplicitSource.currentContentDigest (Option.some.inj same)
    exact absurd digest.symm differs
  | removed => cases same

theorem timedAdvance {reply} (timed : Timed d w) (ordered : InOrder d w (.advance index reply))
    (taken : w.step d (.advance index reply) = some t) : Timed d t := by
  obtain ⟨mover,found,moves⟩ := advances timed.sound taken
  obtain ⟨chronicle,adds⟩ := chronicleCommit timed.chronicle moves.commit
  have others : ∀ {j : Nat} {call}, j ≠ index → t.calls[j]? = some call → w.calls[j]? = some call := by
    intro j call apart there
    obtain ⟨after,calls⟩ := callsStep timed.sound taken
    rw [calls,setCall found,if_neg apart] at there
    exact there
  generalize who : resolving mover = resolved at adds
  cases adds with
  | nothing sources same =>
    refine ⟨moves.sound,chronicle,?_,?_,?_⟩
    · intro pair
      exact (same pair).symm ▸ timed.timely pair
    · intro pair source there f member
      refine timed.latest pair source ?_ f (same pair ▸ member)
      exact (congrFun sources pair).symm.trans there
    · intro j call there capture publishes
      refine newerSame (congrFun sources _) (same _) ?_
      by_cases own : j = index
      · subst own
        rcases (publishingStep timed.sound taken there publishes).2 with ⟨before,found',publishes'⟩ | ⟨post,selects,differs⟩
        · exact timed.ready j before found' capture publishes'
        · exact (ordered _ selects).resolve_left differs
      · exact timed.ready j call (others own there) capture publishes
  | @social capture row after social id report found' names outbox tells sources written =>
    have newer : social.any tellsContent → Newer w capture := by
      intro content
      rcases queuedCommit timed.sound taken found who with same | ⟨queued,wrote,publishes⟩
      · rw [show t.outbox = _ from outbox] at same
        simp [archive] at same
      · have queued' : queued = social ++ [Lane.report capture id report] :=
          List.append_cancel_left (wrote.symm.trans outbox)
        refine timed.ready index mover found capture (publishes ?_)
        rw [queued',List.any_append,content]
        rfl
    obtain ⟨timely,latest⟩ := timelyTold timed newer tells
    refine ⟨moves.sound,chronicle,?_,?_,?_⟩
    · intro pair
      rw [show history t.outbox pair = _ from written pair]
      by_cases same : pair = capture.pair
      · rw [if_pos same,same]
        exact timely
      · rw [if_neg same,List.append_nil]
        exact timed.timely pair
    · intro pair source there f member
      rw [show t.sources.committed = _ from sources] at there
      rw [show history t.outbox pair = _ from written pair] at member
      by_cases same : pair = capture.pair
      · rw [same,Function.update_self] at there
        rw [if_pos same,same] at member
        exact latest source there f member
      · rw [Function.update_of_ne same] at there
        rw [if_neg same,List.append_nil] at member
        exact timed.latest pair source there f member
    · intro j call there other publishes
      have apart : j ≠ index := by
        rintro rfl
        have same := congrArg Archive.outbox (publishingStep timed.sound taken there publishes).1
        rw [outbox] at same
        simp at same
      have still := lockedStill timed.sound taken apart (others apart there) (publishingLocked publishes)
      refine newerSame still ?_ (timed.ready j call (others apart there) other publishes)
      rw [show history t.outbox other.pair = _ from written other.pair]
      by_cases same : other.pair = capture.pair
      · rw [show t.sources.committed = _ from sources,same,Function.update_self] at still
        rw [tellsNothing tells still,ite_self,List.append_nil]
        rfl
      · rw [if_neg same,List.append_nil]
        rfl

theorem timedStep {a} (timed : Timed d w) (ordered : InOrder d w a) (taken : w.step d a = some t) : Timed d t := by
  have sound := (soundStep timed.sound taken).1
  -- A new call is at its first statement.
  have pushed : ∀ {new : Call}, publishing new = none → t = {w with calls := w.calls ++ [new]} → Timed d t := by
    rintro new silent rfl
    refine ⟨sound,timed.chronicle,timed.timely,timed.latest,?_⟩
    intro j call there capture publishes
    rcases List.mem_append.mp (List.mem_of_getElem? there) with old | last
    · obtain ⟨i,found⟩ := List.mem_iff_getElem?.mp old
      exact timed.ready i call found capture publishes
    · cases List.mem_singleton.mp last
      rw [silent] at publishes
      cases publishes
  cases a with
  | deliver command =>
    refine pushed ?_ (Option.some.inj taken).symm
    split <;> rfl
  | launch policy => exact pushed rfl (Option.some.inj taken).symm
  | advance index reply => exact timedAdvance timed ordered taken

end Steps

section Runs
variable {d : Deployment} {labels : List Action} {w : Lane}

theorem timedRun (run : Run (Lane.step d) (InOrder d) Lane.empty labels w) : Timed d w := by
  have idle : Run (Lane.step d) free Lane.empty [] Lane.empty := .nil _
  refine run.preserves (Timed d) (fun _ _ _ timed ordered taken => timedStep timed ordered taken) ?_
  exact ⟨soundEmpty d,chronicleRun idle,fun _ => .nil,by simp [Lane.empty,Store.empty],by simp [Lane.empty]⟩

theorem captureTimesOrdered (d : Deployment) (labels : List Action) (w : Lane)
    (run : Run (Lane.step d) (InOrder d) Lane.empty labels w) (pair : Pair) : Timely (history w.outbox pair) :=
  (timedRun run).timely pair

end Runs

def micros (n : Nat) (small : n < 1000000000 := by decide) : DateTime :=
  ⟨n,by unfold minMicros maxMicros; omega⟩

/- The command of one capture of the post, and what the resolver finds there. -/
def asked (id : Uuid) (capturedAt : DateTime) : Action :=
  .deliver ⟨id,some 1,some ⟨.x,.browserExtension,.explicitUserCapture,id,"https://x.com/a/status/42",some capturedAt⟩⟩

def found42 (text : String) : Reply := .answer (.ok ⟨"42",⟨"9",none,none⟩,text,none,none,[]⟩)

def times (n index : Nat) (now : DateTime) : List Action := List.replicate n (.advance index (.ok now))

/- Captures at 10 and 20 are resolved in their order: the post is kept, then found deleted
at 40. A capture at 50 keeps it again. -/
def orderly : List Action := List.flatten [
  [asked 11 (micros 10),asked 12 (micros 20)],times 3 0 (micros 20),times 3 1 (micros 20),
  [.launch ⟨3,10⟩,.advance 2 (.rows [0,2] (micros 30)),.advance 2 (found42 "first")],times 5 2 (micros 40),
  [.advance 2 (.answer (.error .deleted))],times 4 2 (micros 40),[asked 13 (micros 50)],times 3 3 (micros 50),
  [.launch ⟨3,10⟩,.advance 4 (.rows [9] (micros 60)),.advance 4 (found42 "second")],times 5 4 (micros 60)]

/- The capture at 10 is deferred while the capture at 20 is kept, and the post is found
deleted at 40. Then the capture at 10 is resolved. -/
def deferred : List Action := List.flatten [
  [asked 11 (micros 10),asked 12 (micros 20),asked 13 (micros 30)],times 3 0 (micros 30),times 3 1 (micros 30),
  times 3 2 (micros 30),[.launch ⟨3,10⟩,.advance 3 (.rows [0,2,4] (micros 30)),.advance 3 (.answer (.error .transient)),
    .advance 3 (.ok (micros 30)),.advance 3 (found42 "first")],times 5 3 (micros 40),
  [.advance 3 (.answer (.error .deleted))],times 4 3 (micros 40),
  [.launch ⟨3,10⟩,.advance 4 (.rows [0] (micros 60000030)),.advance 4 (found42 "second")],times 5 4 (micros 60000030)]

def orderlyEnd : Lane := (replay (Lane.step plain) (InOrder plain) Lane.empty orderly).get (by decide +kernel)

theorem captureTimesOrderedAtOrderly :
    history orderlyEnd.outbox (1,"42") =
      [.opened 4 ⟨"sha256","first"⟩ (micros 10),.closed 4 (micros 40),.opened 11 ⟨"sha256","second"⟩ (micros 50)] ∧
      Timely (history orderlyEnd.outbox (1,"42")) := by
  have run : Run (Lane.step plain) (InOrder plain) Lane.empty orderly orderlyEnd := replayRun (Option.some_get _).symm
  exact ⟨by decide +kernel,captureTimesOrdered plain orderly orderlyEnd run (1,"42")⟩

def deferredEnd : Lane := (replay (Lane.step plain) free Lane.empty deferred).get (by decide +kernel)

theorem deferredHistory : history deferredEnd.outbox (1,"42") =
    [.opened 6 ⟨"sha256","first"⟩ (micros 20),.closed 6 (micros 40),.opened 11 ⟨"sha256","second"⟩ (micros 10)] := by
  decide +kernel

/- The second content is older than the first, and than the removal between them. -/
theorem captureTimesDisordered :
    ¬∀ (d : Deployment) (labels : List Action) (w : Lane), Run (Lane.step d) free Lane.empty labels w →
      ∀ pair, Timely (history w.outbox pair) := by
  intro ordered
  have run : Run (Lane.step plain) free Lane.empty deferred deferredEnd := replayRun (Option.some_get _).symm
  have timely := ordered plain deferred deferredEnd run (1,"42")
  rw [deferredHistory] at timely
  have removal := (List.pairwise_cons.mp (List.pairwise_cons.mp timely).2).1 _ (List.mem_singleton.mpr rfl)
  exact absurd removal (by decide : ¬micros 40 < micros 10)

end RatatoskrX.CaptureTimes
