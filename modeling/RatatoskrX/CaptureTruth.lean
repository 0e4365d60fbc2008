import RatatoskrX.Alone
import RatatoskrX.PublicPosts
import RatatoskrX.SourceHistory

/-! That what the capture lane publishes is what the provider said. Along a run whose answers
are the resolver's, every report and every social fact goes back to an exchange about its post:
a removal to one in which the provider called the post gone, content to one that showed it. -/
namespace RatatoskrX.CaptureTruth
open Schema Envelopes ReadCommitted Transition Sealing Capture CaptureCommits CaptureSteps SourceHistory PublicPosts

abbrev Exchanges := String → PublicPosts.Reply → Prop

section Meaning
variable (d : Deployment) (fromSlice : Bytes → Option Normalization.Envelope) (parse : String → Option DateTime)
  (heard : Exchanges)

/- Every answer to a worker is the resolver's, of an exchange about the post it resolves. -/
def Honest (w : Lane) (a : Action) : Prop :=
  ∀ index result k capture, a = .advance index (.answer result) → w.calls[index]? = some (.worker k) →
    k.pc = .resolve capture → ∃ reply, heard capture.providerPostId reply ∧ result = lookup fromSlice parse reply

/- A reply about the post says why it is unavailable. -/
def Blamed (post : String) : SourceUnavailability → Prop
  | .deleted => ∃ reply, heard post reply ∧ SaysGone fromSlice reply
  | .inaccessible => ∃ reply, heard post reply ∧ Spoken reply
  | .transient => ∃ reply, heard post reply ∧ Outage reply

def Seen (capture : ClaimedCapture) (post : PublicPost) : Prop :=
  post.providerId = capture.providerPostId ∧ ∃ reply, heard capture.providerPostId reply ∧ Shows fromSlice parse reply post

def Shown (owner : Uuid) (snapshot : SocialSourceSnapshot) : Prop :=
  ∃ reply post, heard snapshot.externalPostId reply ∧ Shows fromSlice parse reply post ∧
    post.facts.snapshot d.contract snapshot.socialSourceId owner (digestOf d.contract post) snapshot.capturedAt
      explicitProvenance = some snapshot

/- What an event says, the exchanges say. -/
def Founded (captures : Uuid → Option ExplicitCapture) (outbox : List Envelope) (e : Envelope) : Prop :=
  match e.payload with
  | .operationReported _ .queued => True
  | .operationReported _ (.unavailable reason) => ∃ id row, e.aggregate = .capture id ∧ captures id = some row ∧
      match row.providerPostId with
      | some post => Blamed fromSlice heard post reason
      | none => reason = .inaccessible
  | .operationReported _ (.preserved source) => ∃ id row post, e.aggregate = .capture id ∧ captures id = some row ∧
      row.providerPostId = some post ∧ source ∈ introducedFor outbox (row.owner,post) ∧
        ∃ reply shown, heard post reply ∧ Shows fromSlice parse reply shown ∧ shown.providerId = post
  | .sourceCaptured snapshot => Shown d fromSlice parse heard e.tenant snapshot
  | .sourceUpdated snapshot => Shown d fromSlice parse heard e.tenant snapshot
  | .sourceRemoved source owner _ _ => ∃ post, source ∈ introducedFor outbox (owner,post) ∧
      Blamed fromSlice heard post .deleted
  | .contentCaptureRequested _ _ => False

/- What a worker queues when it ends a capture, and when it keeps the post. -/
def Ends (failure : PublicPostFailure) (e : Envelope) : Prop :=
  match e.payload with
  | .operationReported _ (.unavailable reason) => reason = failure.reason
  | .sourceRemoved _ _ _ _ => failure = .deleted
  | _ => False

def Keeps (owner : Uuid) (e : Envelope) : Prop :=
  match e.payload with
  | .operationReported _ (.preserved _) => True
  | .sourceCaptured snapshot => Shown d fromSlice parse heard owner snapshot
  | .sourceUpdated snapshot => Shown d fromSlice parse heard owner snapshot
  | _ => False

def ToldAt : WorkerPc → Prop
  | .terminate capture failure stage => Blamed fromSlice heard capture.providerPostId failure.reason ∧
      match stage with
      | .remove => failure = .deleted
      | .commit queued => ∀ e ∈ queued, Ends failure e
      | _ => True
  | .preserve capture post stage => Seen fromSlice parse heard capture post ∧
      match stage with
      | .upsert _ _ snapshot => Shown d fromSlice parse heard capture.owner snapshot
      | .guard _ queued => ∀ e ∈ queued, Keeps d fromSlice parse heard capture.owner e
      | .commit queued => ∀ e ∈ queued, Keeps d fromSlice parse heard capture.owner e
      | _ => True
  | _ => True

def Told : Call → Prop
  | .worker k => ToldAt d fromSlice parse heard k.pc
  | _ => True

end Meaning

section Turns
variable {d : Deployment} {fromSlice : Bytes → Option Normalization.Envelope} {parse : String → Option DateTime}
  {heard : Exchanges} {w t u : Lane} {index : Nat} {k : Worker} {capture : ClaimedCapture}

theorem seenSpoken {post} (seen : Seen fromSlice parse heard capture post) :
    Blamed fromSlice heard capture.providerPostId .inaccessible := by
  obtain ⟨_,reply,exchanged,e,⟨r,body,rfl,success,_⟩,_⟩ := seen
  exact ⟨_,exchanged,r,rfl,successUntroubled success⟩

/- A step of a call, by the point it comes to. -/
def Turns (d : Deployment) (fromSlice : Bytes → Option Normalization.Envelope) (parse : String → Option DateTime)
    (heard : Exchanges) (w : Lane) (index : Nat) (t : Lane) : Prop :=
  ∃ call, t.calls = w.calls.set index call ∧ Told d fromSlice parse heard call

theorem turnsAt {pc} (calls : u.calls = w.calls) (told : ToldAt d fromSlice parse heard pc) :
    Turns d fromSlice parse heard w index (u.at_ index k pc) :=
  ⟨.worker {k with pc := pc},by rw [← calls]; rfl,told⟩

theorem turnsFail : Turns d fromSlice parse heard w index (w.failWorker index k) := turnsAt rfl trivial

theorem turnsNext {summary} (calls : u.calls = w.calls) : Turns d fromSlice parse heard w index (u.next index k summary) := by
  unfold Lane.next
  split
  · exact ⟨.worker {k with summary := summary, pc := .done (some summary)},by rw [← calls]; rfl,trivial⟩
  · rename_i capture rest _
    exact ⟨.worker {k with summary := summary, rest := rest, pc := .resolve capture},by rw [← calls]; rfl,trivial⟩

theorem turnsLock {pc} (told : ToldAt d fromSlice parse heard pc)
    (taken : w.lockOwnerPost d index k capture pc = some t) : Turns d fromSlice parse heard w index t := by
  unfold Lane.lockOwnerPost at taken
  split at taken
  · cases Option.some.inj taken
    exact turnsAt rfl told
  · simp at taken

theorem turnsClaimDue {order now} (taken : w.claimDue index k order now = some t) :
    Turns d fromSlice parse heard w index t := by
  unfold Lane.claimDue at taken
  split at taken
  · cases Option.some.inj taken
    exact turnsFail
  · split at taken
    · cases Option.some.inj taken
      exact turnsNext rfl
    · simp at taken

theorem turnsAnswered {reply} (exchanged : heard capture.providerPostId reply) :
    Turns d fromSlice parse heard w index (w.answered index k capture (lookup fromSlice parse reply)) := by
  have means : Means fromSlice parse reply (lookup fromSlice parse reply) := lookupMeans reply
  unfold Lane.answered
  split
  · rename_i post answer
    rw [answer] at means
    split
    · rename_i own
      exact turnsAt rfl ⟨⟨own,reply,exchanged,means⟩,trivial⟩
    · obtain ⟨e,⟨r,body,rfl,success,_⟩,_⟩ := means
      exact turnsAt rfl ⟨⟨_,exchanged,r,rfl,successUntroubled success⟩,trivial⟩
  · rename_i answer
    rw [answer] at means
    split
    · exact turnsAt rfl trivial
    · exact turnsAt rfl ⟨⟨reply,exchanged,means⟩,trivial⟩
  · rename_i failure lasting answer
    rw [answer] at means
    cases failure with
    | deleted => exact turnsAt rfl ⟨⟨reply,exchanged,means⟩,trivial⟩
    | inaccessible => exact turnsAt rfl ⟨⟨reply,exchanged,means⟩,trivial⟩
    | transient => exact absurd rfl lasting

theorem turnsDefer {now} (taken : w.defer index k capture now = some t) : Turns d fromSlice parse heard w index t := by
  unfold Lane.defer at taken
  repeat' split at taken
  all_goals try contradiction
  all_goals cases Option.some.inj taken
  all_goals first | exact turnsFail | exact turnsNext rfl

theorem turnsTerminate {failure stage now} (pc : k.pc = .terminate capture failure stage)
    (told : ToldAt d fromSlice parse heard k.pc) (taken : w.terminate d index k capture failure stage now = some t) :
    Turns d fromSlice parse heard w index t := by
  rw [pc] at told
  obtain ⟨blamed,told⟩ := told
  cases stage with
  | lock =>
    refine turnsLock ?_ taken
    exact ⟨blamed,trivial⟩
  | guard =>
    simp only [Lane.terminate] at taken
    split at taken <;> try contradiction
    · cases Option.some.inj taken
      exact turnsFail
    · cases Option.some.inj taken
      exact turnsAt rfl ⟨blamed,by simp⟩
    · split at taken
      · rename_i gone
        cases Option.some.inj taken
        exact turnsAt rfl ⟨blamed,gone⟩
      · cases Option.some.inj taken
        exact turnsAt rfl ⟨blamed,by simp [Ends,Lane.report,reportEnvelope]⟩
  | remove =>
    subst told
    simp only [Lane.terminate,Lane.removeOwnerSource] at taken
    split at taken <;> try contradiction
    split at taken
    · cases Option.some.inj taken
      exact turnsAt rfl ⟨blamed,by simp [Ends,Lane.report,reportEnvelope,PublicPostFailure.reason]⟩
    · cases Option.some.inj taken
      exact turnsAt rfl ⟨blamed,by simp [Ends,Lane.report,reportEnvelope,removedEvent,PublicPostFailure.reason]⟩
  | commit queued =>
    cases Option.some.inj taken
    exact turnsNext rfl

theorem shownBuilt {post sourceId snapshot} (seen : Seen fromSlice parse heard capture post)
    (built : post.facts.snapshot d.contract sourceId capture.owner (digestOf d.contract post) capture.capturedAt
      explicitProvenance = some snapshot) : Shown d fromSlice parse heard capture.owner snapshot := by
  obtain ⟨own,reply,exchanged,shows⟩ := seen
  obtain ⟨source,_,named,_,time⟩ := snapshotFields built
  refine ⟨reply,post,?_,shows,?_⟩
  · rw [named]
    show heard post.providerId reply
    rw [own]
    exact exchanged
  · rw [source,time]
    exact built

theorem turnsSelect {post} (seen : Seen fromSlice parse heard capture post) :
    Turns d fromSlice parse heard w index (w.selectOwnerSource d index k capture post) := by
  have refused : ToldAt d fromSlice parse heard (.terminate capture .inaccessible .lock) := ⟨seenSpoken seen,trivial⟩
  unfold Lane.selectOwnerSource
  simp only
  split
  · split
    · exact turnsAt rfl ⟨seen,by simp⟩
    · split
      · exact turnsAt rfl refused
      · rename_i built
        exact turnsAt rfl ⟨seen,shownBuilt seen built⟩
  · split
    · exact turnsAt rfl refused
    · rename_i built
      exact turnsAt rfl ⟨seen,shownBuilt seen built⟩

theorem turnsPreserve {post stage now} (pc : k.pc = .preserve capture post stage)
    (told : ToldAt d fromSlice parse heard k.pc) (taken : w.preserve d index k capture post stage now = some t) :
    Turns d fromSlice parse heard w index t := by
  rw [pc] at told
  obtain ⟨seen,told⟩ := told
  cases stage with
  | lock =>
    refine turnsLock ?_ taken
    exact ⟨seen,trivial⟩
  | select =>
    cases Option.some.inj taken
    exact turnsSelect seen
  | upsert sourceId fact snapshot =>
    simp only [Lane.preserve,Lane.upsertOwnerSource] at taken
    split at taken <;> try contradiction
    cases Option.some.inj taken
    refine turnsAt rfl ⟨seen,?_⟩
    cases fact <;> simpa [Keeps,sourceEvent] using told
  | guard sourceId queued =>
    simp only [Lane.preserve] at taken
    split at taken <;> try contradiction
    · cases Option.some.inj taken
      exact turnsFail
    · cases Option.some.inj taken
      exact turnsNext rfl
    · cases Option.some.inj taken
      refine turnsAt rfl ⟨seen,?_⟩
      simp only [List.mem_append,List.mem_singleton]
      rintro e (early | rfl)
      · exact told e early
      · simp [Keeps,Lane.report,reportEnvelope]
  | commit queued =>
    cases Option.some.inj taken
    exact turnsNext rfl

theorem turnsWorker {reply} (found : w.calls[index]? = some (.worker k))
    (honest : Honest fromSlice parse heard w (.advance index reply)) (told : ToldAt d fromSlice parse heard k.pc)
    (taken : w.runDueOnce d index k reply = some t) : Turns d fromSlice parse heard w index t := by
  unfold Lane.runDueOnce at taken
  split at taken
  · split at taken <;> try contradiction
    cases Option.some.inj taken
    exact turnsFail
  · split at taken <;> try contradiction
    all_goals cases Option.some.inj taken
    all_goals exact turnsAt rfl trivial
  · split at taken <;> try contradiction
    exact turnsClaimDue taken
  · rename_i result
    split at taken <;> try contradiction
    rename_i capture pc
    cases Option.some.inj taken
    obtain ⟨reply,exchanged,rfl⟩ := honest index result k capture rfl found pc
    exact turnsAnswered exchanged
  · split at taken <;> try contradiction
    · exact turnsDefer taken
    · rename_i pc
      exact turnsTerminate pc told taken
    · rename_i pc
      exact turnsPreserve pc told taken

theorem turnsIntake {intake pc reply} (taken : w.persistBrowserCapture index intake pc reply = some t) :
    Turns d fromSlice parse heard w index t := by
  unfold Lane.persistBrowserCapture Lane.claimInbox Lane.insertCapture at taken
  repeat' split at taken
  all_goals try contradiction
  all_goals cases Option.some.inj taken
  all_goals exact ⟨_,rfl,trivial⟩

theorem toldStep {a} (honest : Honest fromSlice parse heard w a) (told : ∀ call ∈ w.calls, Told d fromSlice parse heard call)
    (taken : w.step d a = some t) : ∀ call ∈ t.calls, Told d fromSlice parse heard call := by
  intro call member
  cases a with
  | deliver command =>
    cases Option.some.inj taken
    rcases List.mem_append.mp member with old | new
    · exact told call old
    · cases List.mem_singleton.mp new
      split <;> trivial
  | launch policy =>
    cases Option.some.inj taken
    rcases List.mem_append.mp member with old | new
    · exact told call old
    · cases List.mem_singleton.mp new
      trivial
  | advance index reply =>
    have turns : Turns d fromSlice parse heard w index t := by
      simp only [Lane.step] at taken
      split at taken <;> try contradiction
      · exact turnsIntake taken
      · rename_i k found
        exact turnsWorker found honest (told _ (List.mem_of_getElem? found)) taken
    obtain ⟨moved,calls,known⟩ := turns
    rw [calls] at member
    rcases List.mem_or_eq_of_mem_set member with old | rfl
    · exact told call old
    · exact known

end Turns

section Events
variable {d : Deployment} {fromSlice : Bytes → Option Normalization.Envelope} {parse : String → Option DateTime}
  {heard : Exchanges} {w t : Lane}

theorem introducedStays {outbox more pair s} (member : s ∈ introducedFor outbox pair) :
    s ∈ introducedFor (outbox ++ more) pair := by
  rw [introducedForAppend]
  exact List.mem_append_left _ member

theorem foundedStays {a b : Archive} {who} (commit : Commit d.contract a who b) {e}
    (founded : Founded d fromSlice parse heard a.captures a.outbox e) :
    Founded d fromSlice parse heard b.captures b.outbox e := by
  obtain ⟨more,grows⟩ := outboxGrows commit
  unfold Founded at founded ⊢
  split <;> rename_i payload <;> simp only [payload] at founded
  · trivial
  · obtain ⟨id,row,aggregate,there,reason⟩ := founded
    obtain ⟨row',there',_,_,post⟩ := rowStays commit there
    exact ⟨id,row',aggregate,there',post ▸ reason⟩
  · obtain ⟨id,row,post,aggregate,there,named,member,seen⟩ := founded
    obtain ⟨row',there',_,owner,post'⟩ := rowStays commit there
    refine ⟨id,row',post,aggregate,there',post'.trans named,?_,seen⟩
    rw [owner,grows]
    exact introducedStays member
  · exact founded
  · exact founded
  · obtain ⟨post,member,gone⟩ := founded
    exact ⟨post,grows ▸ introducedStays member,gone⟩

theorem nextOutbox (w : Lane) (index k summary) : (w.next index k summary).outbox = w.outbox := by
  unfold Lane.next
  split <;> rfl

theorem resolvingQueues {index k capture reply} (found : w.calls[index]? = some (.worker k))
    (resolves : resolving (.worker k) = some capture) (taken : w.step d (.advance index reply) = some t) :
    ∃ queued, (t.outbox = w.outbox ∨ t.outbox = w.outbox ++ queued) ∧
      ((∃ failure, k.pc = .terminate capture failure (.commit queued)) ∨
        ∃ post, k.pc = .preserve capture post (.commit queued)) := by
  simp only [Lane.step,found] at taken
  simp only [resolving] at resolves
  split at resolves <;> cases resolves
  · rename_i failure queued pc
    refine ⟨queued,?_,.inl ⟨failure,pc⟩⟩
    simp only [Lane.runDueOnce,pc] at taken
    split at taken <;> cases taken
    · exact .inl rfl
    · exact .inr rfl
    · exact .inr (nextOutbox ..)
  · rename_i post queued pc
    refine ⟨queued,?_,.inr ⟨post,pc⟩⟩
    simp only [Lane.runDueOnce,pc] at taken
    split at taken <;> cases taken
    · exact .inl rfl
    · exact .inr rfl
    · exact .inr (nextOutbox ..)

/- What the call that commits a resolution was told. -/
def Backed (d : Deployment) (fromSlice : Bytes → Option Normalization.Envelope) (parse : String → Option DateTime)
    (heard : Exchanges) (capture : ClaimedCapture) (queued : List Envelope) : Prop :=
  (∃ failure, Blamed fromSlice heard capture.providerPostId (PublicPostFailure.reason failure) ∧
    ∀ e ∈ queued, Ends failure e) ∨
  ∃ post, Seen fromSlice parse heard capture post ∧ ∀ e ∈ queued, Keeps d fromSlice parse heard capture.owner e

theorem publishedSource {contract : Contract} {a : Archive} {capture source sourceId after queued}
    (chronicle : Chronicle a.sources a.outbox) (before : a.sources capture.pair = source)
    (publishes : Publishes contract capture source sourceId after queued) (more) :
    sourceId ∈ introducedFor (a.outbox ++ (queued ++ more)) capture.pair := by
  cases publishes with
  | unchanged same => exact introducedStays (chronicle.placed _ _ before)
  | updated own differs built => exact introducedStays (chronicle.placed _ _ before)
  | captured own built =>
    obtain ⟨source,owner,named,_⟩ := snapshotFields built
    rw [introducedForAppend,introducedForAppend]
    refine List.mem_append_right _ (List.mem_append_left _ ?_)
    have post := named.trans own
    simp [introducedFor,sourceEvent,source,owner,post]

theorem reportedUnavailable {captures outbox} {capture : ClaimedCapture} {row' id reason}
    (written : captures capture.captureId = some row') (post : row'.providerPostId = some capture.providerPostId)
    (blamed : Blamed fromSlice heard capture.providerPostId reason) :
    Founded d fromSlice parse heard captures outbox (Lane.report capture id (.unavailable reason)) :=
  ⟨capture.captureId,row',rfl,written,by rw [post]; exact blamed⟩

theorem outcomeFounded {a : Archive} {capture row row' source after queued captures}
    (chronicle : Chronicle a.sources a.outbox) (before : a.sources capture.pair = source) (names : Names row capture)
    (outcome : Outcome d.contract capture row source row' after queued)
    (written : captures capture.captureId = some row') (backed : Backed d fromSlice parse heard capture queued) {e}
    (member : e ∈ queued) : Founded d fromSlice parse heard captures (a.outbox ++ queued) e := by
  obtain ⟨_,_,_,owner,post,_⟩ := names.columns
  rw [← (outcomeKeeps outcome).2.2] at post
  rw [← (outcomeKeeps outcome).2.1] at owner
  rcases backed with ⟨failure,blamed,ends⟩ | ⟨shown,seen,keeps⟩
  · have fits := ends e member
    cases outcome with
    | unavailable absent =>
      cases List.mem_singleton.mp member
      exact reportedUnavailable written post ((show _ = failure.reason from fits) ▸ blamed)
    | removed =>
      rcases List.mem_cons.mp member with rfl | last
      · rw [show failure = .deleted from fits] at blamed
        exact ⟨capture.providerPostId,introducedStays (chronicle.placed _ _ before),blamed⟩
      · cases List.mem_singleton.mp last
        exact reportedUnavailable written post ((show _ = failure.reason from fits) ▸ blamed)
    | preserved publishes =>
      exact absurd (ends _ (List.mem_append_right _ (List.mem_singleton_self _))) id
  · have fits := keeps e member
    cases outcome with
    | unavailable absent =>
      cases List.mem_singleton.mp member
      exact absurd fits id
    | removed => exact absurd (keeps _ List.mem_cons_self) id
    | @preserved _ sourceId _ queued _ reportId publishes =>
      have source := publishedSource chronicle before publishes [Lane.report capture reportId (.preserved sourceId)]
      rcases List.mem_append.mp member with social | last
      · cases publishes with
        | unchanged same => simp at social
        | captured own built =>
          cases List.mem_singleton.mp social
          exact fits
        | updated own differs built =>
          cases List.mem_singleton.mp social
          exact fits
      · cases List.mem_singleton.mp last
        obtain ⟨own,reply,exchanged,shows⟩ := seen
        refine ⟨capture.captureId,_,capture.providerPostId,rfl,written,post,?_,reply,shown,exchanged,shows,own⟩
        rw [owner]
        exact source

theorem intakeFounded {captures outbox} (intake : Intake) {captureId now id}
    (written : captures captureId = some (Intake.row intake captureId now)) :
    Founded d fromSlice parse heard captures outbox
      (reportEnvelope id intake.owner intake.operationId captureId intake.commandId intake.report) := by
  cases post : intake.post with
  | some named => simp [Founded,reportEnvelope,Intake.report,post]
  | none =>
    simp only [Founded,reportEnvelope,Intake.report,post]
    exact ⟨captureId,_,rfl,written,by simp [Intake.row,post]⟩

theorem commitFounded {a b : Archive} {who} (chronicle : Chronicle a.sources a.outbox) (commit : Commit d.contract a who b)
    (backed : ∀ capture queued, who = some capture → b.outbox = a.outbox ++ queued → queued ≠ [] →
      Backed d fromSlice parse heard capture queued)
    (founded : ∀ e ∈ a.outbox, Founded d fromSlice parse heard a.captures a.outbox e) :
    ∀ e ∈ b.outbox, Founded d fromSlice parse heard b.captures b.outbox e := by
  intro e member
  by_cases old : e ∈ a.outbox
  · exact foundedStays commit (founded e old)
  cases commit with
  | quiet => exact absurd member old
  | scheduled same => exact absurd member old
  | @accepted _ intake captureId id now absent first =>
    cases List.mem_singleton.mp ((List.mem_append.mp member).resolve_left old)
    exact intakeFounded intake (Function.update_self ..)
  | @resolved capture row row' source queued found names unreported outcome fresh =>
    have new := (List.mem_append.mp member).resolve_left old
    exact outcomeFounded chronicle rfl names outcome (Function.update_self ..)
      (backed capture queued rfl rfl (List.ne_nil_of_mem new)) new

theorem stepBacked {a} (told : ∀ call ∈ w.calls, Told d fromSlice parse heard call) (taken : w.step d a = some t) {capture}
    (commits : committing w a = some capture) {queued} (grows : t.outbox = w.outbox ++ queued) (some_ : queued ≠ []) :
    Backed d fromSlice parse heard capture queued := by
  cases a with
  | deliver command => simp [committing] at commits
  | launch policy => simp [committing] at commits
  | advance index reply =>
    obtain ⟨call,found,resolves⟩ := Option.bind_eq_some_iff.mp commits
    cases call with
    | rejected error => simp [resolving] at resolves
    | intake intake pc => simp [resolving] at resolves
    | worker k =>
      have known : ToldAt d fromSlice parse heard k.pc := told _ (List.mem_of_getElem? found)
      obtain ⟨prepared,outbox,point⟩ := resolvingQueues found resolves taken
      have same : queued = prepared := by
        rw [grows] at outbox
        rcases outbox with none | all
        · exact absurd (by simpa using none) some_
        · exact List.append_cancel_left all
      subst same
      rcases point with ⟨failure,pc⟩ | ⟨post,pc⟩
      · rw [pc] at known
        exact .inl ⟨failure,known⟩
      · rw [pc] at known
        exact .inr ⟨post,known⟩

end Events

section Runs
variable {d : Deployment} {fromSlice : Bytes → Option Normalization.Envelope} {parse : String → Option DateTime}
  {heard : Exchanges} {labels : List Action} {w : Lane}

structure Truth (d : Deployment) (fromSlice : Bytes → Option Normalization.Envelope) (parse : String → Option DateTime)
    (heard : Exchanges) (w : Lane) : Prop where
  sound : Sound d w
  chronicle : Chronicle w.sources.committed w.outbox
  told : ∀ call ∈ w.calls, Told d fromSlice parse heard call
  founded : ∀ e ∈ w.outbox, Founded d fromSlice parse heard w.captures.committed w.outbox e

theorem truthStart : Truth d fromSlice parse heard Lane.empty where
  sound := soundEmpty d
  chronicle := chronicleRun (show Run (Lane.step d) free Lane.empty [] Lane.empty from .nil _)
  told := by simp [Lane.empty]
  founded := by simp [Lane.empty]

theorem truthStep {a t} (truth : Truth d fromSlice parse heard w) (honest : Honest fromSlice parse heard w a)
    (taken : w.step d a = some t) : Truth d fromSlice parse heard t where
  sound := (soundStep truth.sound taken).1
  chronicle := (chronicleCommit truth.chronicle (soundStep truth.sound taken).2).1
  told := toldStep honest truth.told taken
  founded := commitFounded truth.chronicle (soundStep truth.sound taken).2
    (fun _ _ commits grows some_ => stepBacked truth.told taken commits grows some_) truth.founded

/- Every event of every reachable lane goes back to what the provider said of its post. -/
theorem eventsFounded (run : Run (Lane.step d) (Honest fromSlice parse heard) Lane.empty labels w) (e)
    (member : e ∈ w.outbox) : Founded d fromSlice parse heard w.captures.committed w.outbox e :=
  (run.preserves (Truth d fromSlice parse heard) (fun _ _ _ truth honest taken => truthStep truth honest taken)
    truthStart).founded e member

end Runs

section Sample

def shownBody : Bytes := [1]
def goneBody : Bytes := [2]

/- The first body carries the post, the second the problem that it is not found. -/
def readSample (body : Bytes) : Option Normalization.Envelope :=
  if body = shownBody then some ⟨[Alone.samplePost "42"],⟨[Alone.sampleAuthor],[],[],[]⟩,[]⟩
  else if body = goneBody then
    some ⟨[],⟨[],[],[],[]⟩,[("errors",.array [.object [("type",.string "https://problems.example/resource-not-found")]])]⟩
  else none

def sampleExchanges : List (String × PublicPosts.Reply) :=
  [("42",.ok ⟨200,[],some 1,[.ok shownBody]⟩),("42",.ok ⟨200,[],none,[.ok goneBody]⟩)]

/- An answer comes of one of the exchanges about the post that its worker resolves. -/
def Sampled (w : Lane) : Action → Prop
  | .advance index (.answer result) => match w.calls[index]? with
    | some (.worker k) => match k.pc with
      | .resolve capture => ∃ x ∈ sampleExchanges, x.1 = capture.providerPostId ∧
          result = lookup readSample Alone.sampleParse x.2
      | _ => True
    | _ => True
  | _ => True

instance (w a) : Decidable (Sampled w a) := by
  unfold Sampled
  repeat' split
  all_goals infer_instance

theorem sampledHonest {w a} (sampled : Sampled w a) :
    Honest readSample Alone.sampleParse (fun post reply => (post,reply) ∈ sampleExchanges) w a := by
  rintro index result k capture rfl found pc
  simp only [Sampled,found,pc] at sampled
  obtain ⟨⟨post,reply⟩,member,rfl,same⟩ := sampled
  exact ⟨reply,member,same⟩

def takenBack : List Action :=
  let command (id : Uuid) : CommandEnvelope :=
    ⟨id,some 1,some ⟨.x,.browserExtension,.explicitUserCapture,id,"https://x.com/a/status/42",some ⟨0,DateTime.epochRepresentable⟩⟩⟩
  let times (n index : Nat) : List Action := List.replicate n (.advance index (.ok ⟨0,DateTime.epochRepresentable⟩))
  let answers : List Action := sampleExchanges.map (fun x => .advance 2 (.answer (lookup readSample Alone.sampleParse x.2)))
  List.flatten [[.deliver (command 11),.deliver (command 12)],times 3 0,times 3 1,
    [.launch ⟨3,10⟩,.advance 2 (.rows [0,2] ⟨0,DateTime.epochRepresentable⟩)],answers.take 1,times 5 2,answers.drop 1,times 4 2]

def takenBackEnd : Lane :=
  (replay (Lane.step CaptureReports.plain) Sampled Lane.empty takenBack).get (by decide +kernel)

theorem eventsFoundedAtRemoval :
    takenBackEnd.outbox.map (fun e => e.payload.eventType) =
      [.operationReported,.operationReported,.sourceCaptured,.operationReported,.sourceRemoved,.operationReported] ∧
      ∀ e ∈ takenBackEnd.outbox, Founded CaptureReports.plain readSample Alone.sampleParse
        (fun post reply => (post,reply) ∈ sampleExchanges) takenBackEnd.captures.committed takenBackEnd.outbox e := by
  have run : Run (Lane.step CaptureReports.plain) Sampled Lane.empty takenBack takenBackEnd :=
    replayRun (Option.some_get _).symm
  exact ⟨by decide +kernel,fun e => eventsFounded (run.weaken (fun _ _ => sampledHonest)) e⟩

end Sample
end RatatoskrX.CaptureTruth
