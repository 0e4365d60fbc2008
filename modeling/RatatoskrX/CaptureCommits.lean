import RatatoskrX.Foundation.Transition
import RatatoskrX.Capture

/-! What the explicit capture lane commits. A statement either leaves the committed rows
alone, renews the schedule of open captures, or commits one delivery or one resolution
as a whole; the workers' statements are related to that coarser view by the rows and
locks each call holds. -/
namespace RatatoskrX.CaptureCommits
open Schema Envelopes ReadCommitted Transition Capture

structure Archive where
  captures : Uuid → Option ExplicitCapture
  sources : Pair → Option ExplicitSource
  outbox : List Envelope

def archive (w : Lane) : Archive := ⟨w.captures.committed,w.sources.committed,w.outbox⟩

theorem updatedCases {κ ρ : Type*} [DecidableEq κ] {rows : κ → Option ρ} {key other : κ} {row row' : ρ}
    (there : Function.update rows key (some row') other = some row) :
    (other = key ∧ row = row') ∨ (other ≠ key ∧ rows other = some row) := by
  by_cases same : other = key
  · subst same
    rw [Function.update_self] at there
    exact .inl ⟨rfl,(Option.some.inj there).symm⟩
  · rw [Function.update_of_ne same] at there
    exact .inr ⟨same,there⟩

/- The columns of a claimed capture that no statement changes are those of its row. -/
def Names (row : ExplicitCapture) (capture : ClaimedCapture) : Prop :=
  row.claimed = some {capture with attempts := row.attempts}

theorem Names.columns {row capture} (names : Names row capture) :
    row.captureId = capture.captureId ∧ row.commandId = capture.commandId ∧ row.operationId = capture.operationId ∧
      row.owner = capture.owner ∧ row.providerPostId = some capture.providerPostId ∧
      row.capturedAt = capture.capturedAt := by
  obtain ⟨post,found,same⟩ := Option.map_eq_some_iff.mp names
  simp only [ClaimedCapture.mk.injEq] at same
  obtain ⟨id,command,operation,owner,posted,_,at_⟩ := same
  exact ⟨id,command,operation,owner,posted ▸ found,at_⟩

def introduced (events : List Envelope) : List Uuid :=
  events.filterMap (fun e => match e.payload with
    | .sourceCaptured source => some source.socialSourceId
    | _ => none)

theorem introducedQuiet {events : List Envelope} (quiet : events.any tellsContent = false) : introduced events = [] := by
  refine List.filterMap_eq_nil_iff.mpr ?_
  intro e member
  have silent := List.any_eq_false.mp quiet e member
  split
  · rename_i payload
    simp [tellsContent,payload] at silent
  · rfl

def digestOf (contract : Contract) (post : PublicPost) : ContentDigest :=
  post.facts.digest contract explicitProvenance

/- What a preserved post does to the owner's source. -/
inductive Publishes (contract : Contract) (capture : ClaimedCapture) :
    Option ExplicitSource → Uuid → Option ExplicitSource → List Envelope → Prop where
  | unchanged {source post} (same : source.currentContentDigest = digestOf contract post) :
      Publishes contract capture (some source) source.socialSourceId (some source) []
  | captured {post sourceId snapshot id} (own : post.providerId = capture.providerPostId)
      (built : post.facts.snapshot contract sourceId capture.owner (digestOf contract post) capture.capturedAt
        explicitProvenance = some snapshot) :
      Publishes contract capture none sourceId
        (some ⟨sourceId,capture.owner,capture.providerPostId,digestOf contract post,capture.capturedAt⟩)
        [sourceEvent id capture.owner .captured snapshot]
  | updated {post source snapshot id} (own : post.providerId = capture.providerPostId)
      (differs : source.currentContentDigest ≠ digestOf contract post)
      (built : post.facts.snapshot contract source.socialSourceId capture.owner (digestOf contract post)
        capture.capturedAt explicitProvenance = some snapshot) :
      Publishes contract capture (some source) source.socialSourceId
        (some {source with currentContentDigest := digestOf contract post, capturedAt := capture.capturedAt})
        [sourceEvent id capture.owner .updated snapshot]

/- What one resolution commits: the capture's row, the owner's source and the envelopes. -/
inductive Outcome (contract : Contract) (capture : ClaimedCapture) (row : ExplicitCapture) :
    Option ExplicitSource → ExplicitCapture → Option ExplicitSource → List Envelope → Prop where
  | unavailable {source failure now id} (absent : failure = .deleted → source = none) :
      Outcome contract capture row source (Lane.markUnavailable now row) source
        [Lane.report capture id (.unavailable (PublicPostFailure.reason failure))]
  | removed {source now removedAt id id'} :
      Outcome contract capture row (some source) (Lane.markUnavailable now row) none
        [removedEvent id source.socialSourceId capture.owner (.capture capture.captureId) removedAt,
          Lane.report capture id' (.unavailable .deleted)]
  | preserved {source sourceId after queued now id} (publishes : Publishes contract capture source sourceId after queued) :
      Outcome contract capture row source (Lane.markResolved sourceId now row) after
        (queued ++ [Lane.report capture id (.preserved sourceId)])

/- One step of the lane as its committed rows show it, with the capture it resolves. -/
inductive Commit (contract : Contract) (a : Archive) : Option ClaimedCapture → Archive → Prop where
  | quiet {who} : Commit contract a who a
  | scheduled {who captures} (same : ∀ id, captures id = a.captures id ∨ ∃ row attempts nextAttemptAt,
        a.captures id = some row ∧ Lane.Open row ∧
          captures id = some {row with attempts := attempts, nextAttemptAt := nextAttemptAt}) :
      Commit contract a who {a with captures := captures}
  | accepted {who intake captureId id now} (absent : a.captures captureId = none)
      (first : ∀ other row, a.captures other = some row → row.commandId ≠ intake.commandId) :
      Commit contract a who
        {a with
          captures := Function.update a.captures captureId (some (Intake.row intake captureId now))
          outbox := a.outbox ++
            [reportEnvelope id intake.owner intake.operationId captureId intake.commandId intake.report]}
  | resolved {capture row row' source queued} (found : a.captures capture.captureId = some row)
      (names : Names row capture) (unreported : Lane.Open row)
      (outcome : Outcome contract capture row (a.sources capture.pair) row' source queued)
      (fresh : ∀ s ∈ introduced queued, ∀ e ∈ a.outbox, sourceOf e ≠ some s) :
      Commit contract a (some capture)
        ⟨Function.update a.captures capture.captureId (some row'),Function.update a.sources capture.pair source,
          a.outbox ++ queued⟩

theorem outcomeKeeps {contract : Contract} {capture row source row' after queued}
    (outcome : Outcome contract capture row source row' after queued) :
    row'.commandId = row.commandId ∧ row'.owner = row.owner ∧ row'.providerPostId = row.providerPostId := by
  cases outcome <;> exact ⟨rfl,rfl,rfl⟩

theorem rowStays {contract : Contract} {a b : Archive} {who} (commit : Commit contract a who b) {id row}
    (there : a.captures id = some row) : ∃ row', b.captures id = some row' ∧ row'.commandId = row.commandId ∧
      row'.owner = row.owner ∧ row'.providerPostId = row.providerPostId := by
  cases commit with
  | quiet => exact ⟨row,there,rfl,rfl,rfl⟩
  | scheduled same =>
    rcases same id with stays | ⟨row',attempts,nextAttemptAt,there',_,written⟩
    · exact ⟨row,stays.trans there,rfl,rfl,rfl⟩
    · rw [there] at there'
      cases Option.some.inj there'
      exact ⟨_,written,rfl,rfl,rfl⟩
  | @accepted _ intake captureId _ now absent first =>
    have other : id ≠ captureId := by
      rintro rfl
      simp [absent] at there
    exact ⟨row,(Function.update_of_ne other ..).trans there,rfl,rfl,rfl⟩
  | @resolved capture old row' source queued found names unreported outcome fresh =>
    by_cases mine : id = capture.captureId
    · subst mine
      rw [found] at there
      cases Option.some.inj there
      exact ⟨row',Function.update_self ..,outcomeKeeps outcome⟩
    · exact ⟨row,(Function.update_of_ne mine ..).trans there,rfl,rfl,rfl⟩

theorem outboxGrows {contract : Contract} {a b : Archive} {who} (commit : Commit contract a who b) :
    ∃ more, b.outbox = a.outbox ++ more := by
  cases commit with
  | quiet => exact ⟨[],by simp⟩
  | scheduled same => exact ⟨[],by simp⟩
  | accepted absent first => exact ⟨_,rfl⟩
  | resolved found names unreported outcome fresh => exact ⟨_,rfl⟩

/- The row of a table that the call's transaction has written, and the lock it holds. -/
def writtenCapture : Call → Option Uuid
  | .intake _ (.commit id _) => some id
  | .worker k => match k.pc with
    | .terminate capture _ .remove => some capture.captureId
    | .terminate capture _ (.commit _) => some capture.captureId
    | .preserve capture _ (.commit _) => some capture.captureId
    | _ => none
  | _ => none

def writtenCommand : Call → Option Uuid
  | .intake intake (.commit _ _) => some intake.commandId
  | _ => none

def writtenSource : Call → Option Pair
  | .worker k => match k.pc with
    | .terminate capture _ (.commit _) => some capture.pair
    | .preserve capture _ (.guard _ _) => some capture.pair
    | .preserve capture _ (.commit _) => some capture.pair
    | _ => none
  | _ => none

def resolving : Call → Option ClaimedCapture
  | .worker k => match k.pc with
    | .terminate capture _ (.commit _) => some capture
    | .preserve capture _ (.commit _) => some capture
    | _ => none
  | _ => none

def locked : Call → Option ClaimedCapture
  | .worker k => match k.pc with
    | .terminate _ _ .lock => none
    | .terminate capture _ _ => some capture
    | .preserve _ _ .lock => none
    | .preserve capture _ _ => some capture
    | _ => none
  | _ => none

/- The source identities a call has minted and not yet committed. -/
def introduces : Call → List Uuid
  | .worker k => match k.pc with
    | .preserve _ _ (.upsert sourceId .captured _) => [sourceId]
    | .preserve _ _ (.guard _ queued) => introduced queued
    | .preserve _ _ (.commit queued) => introduced queued
    | _ => []
  | _ => []

theorem writtenLocked {call pair} (written : writtenSource call = some pair) :
    ∃ capture, locked call = some capture ∧ capture.pair = pair := by
  unfold writtenSource at written
  split at written
  · rename_i k
    split at written
    · rename_i capture failure queued pc
      exact ⟨capture,by simp [locked,pc],Option.some.inj written⟩
    · rename_i capture post sourceId queued pc
      exact ⟨capture,by simp [locked,pc],Option.some.inj written⟩
    · rename_i capture post queued pc
      exact ⟨capture,by simp [locked,pc],Option.some.inj written⟩
    · simp at written
  · simp at written

theorem resolvingWrites {call capture} (resolves : resolving call = some capture) :
    writtenCapture call = some capture.captureId ∧ writtenSource call = some capture.pair := by
  unfold resolving at resolves
  split at resolves
  · rename_i k
    split at resolves
    · rename_i other failure queued pc
      cases Option.some.inj resolves
      exact ⟨by simp [writtenCapture,pc],by simp [writtenSource,pc]⟩
    · rename_i other post queued pc
      cases Option.some.inj resolves
      exact ⟨by simp [writtenCapture,pc],by simp [writtenSource,pc]⟩
    · simp at resolves
  · simp at resolves

def Known (w : Lane) (capture : ClaimedCapture) : Prop :=
  ∃ row, w.captures.committed capture.captureId = some row ∧ Names row capture

/- The transaction is ready to commit: it found its capture reported and commits nothing,
or it holds the capture's row and the outcome is written. -/
def Prepared (contract : Contract) (w : Lane) (index : Nat) (capture : ClaimedCapture) (queued : List Envelope) : Prop :=
  (queued = [] ∧ (∀ x, w.captures.held capture.captureId = some x → x.owner ≠ index) ∧
    ∀ x, w.sources.held capture.pair = some x → x.owner ≠ index) ∨
  ∃ row row', w.captures.committed capture.captureId = some row ∧ Lane.Open row ∧
    w.captures.held capture.captureId = some ⟨index,some row'⟩ ∧
    Outcome contract capture row (w.sources.committed capture.pair) row' (w.sources.view index capture.pair) queued

/- What the source was when it was read, it still is. -/
def Selected (contract : Contract) (w : Lane) (capture : ClaimedCapture) (post : PublicPost) (sourceId : Uuid)
    (fact : SourceFact) (snapshot : SocialSourceSnapshot) : Prop :=
  post.facts.snapshot contract sourceId capture.owner (digestOf contract post) capture.capturedAt
      explicitProvenance = some snapshot ∧
    match fact with
    | .captured => w.sources.committed capture.pair = none
    | .updated => ∃ source, w.sources.committed capture.pair = some source ∧ source.socialSourceId = sourceId ∧
        source.currentContentDigest ≠ digestOf contract post

def TerminateSound (contract : Contract) (w : Lane) (index : Nat) (capture : ClaimedCapture) (failure : PublicPostFailure) :
    TerminateStage → Prop
  | .lock => True
  | .guard => True
  | .remove => failure = .deleted ∧ ∃ row now, w.captures.committed capture.captureId = some row ∧ Lane.Open row ∧
      w.captures.held capture.captureId = some ⟨index,some (Lane.markUnavailable now row)⟩
  | .commit queued => queued.any tellsContent = false ∧ Prepared contract w index capture queued

def PreserveSound (contract : Contract) (w : Lane) (index : Nat) (capture : ClaimedCapture) (post : PublicPost) :
    PreserveStage → Prop
  | .lock => True
  | .select => True
  | .upsert sourceId fact snapshot => Selected contract w capture post sourceId fact snapshot
  | .guard sourceId queued =>
      Publishes contract capture (w.sources.committed capture.pair) sourceId (w.sources.view index capture.pair) queued
  | .commit queued => Prepared contract w index capture queued

def IntakeSound (w : Lane) (index : Nat) (intake : Intake) : IntakePc → Prop
  | .commit captureId queued => w.captures.committed captureId = none ∧
      w.commands.committed intake.commandId = none ∧
      w.commands.held intake.commandId = some ⟨index,some captureId⟩ ∧
      (∃ now, w.captures.held captureId = some ⟨index,some (intake.row captureId now)⟩) ∧
      ∃ id, queued =
        [reportEnvelope id intake.owner intake.operationId captureId intake.commandId intake.report]
  | _ => True

def WorkerSound (contract : Contract) (w : Lane) (index : Nat) : WorkerPc → Prop
  | .claim => True
  | .resolve capture => Known w capture
  | .defer capture => Known w capture
  | .terminate capture failure stage => Known w capture ∧ TerminateSound contract w index capture failure stage
  | .preserve capture post stage => Known w capture ∧ post.providerId = capture.providerPostId ∧
      PreserveSound contract w index capture post stage
  | .done _ => True

def CallSound (contract : Contract) (w : Lane) (index : Nat) : Call → Prop
  | .rejected _ => True
  | .intake intake pc => IntakeSound w index intake pc
  | .worker k => (∀ capture ∈ k.rest, Known w capture) ∧ WorkerSound contract w index k.pc

structure Owns (d : Deployment) (w : Lane) (index : Nat) (call : Call) : Prop where
  captures : ∀ id x, w.captures.held id = some x → x.owner = index → writtenCapture call = some id
  commands : ∀ id x, w.commands.held id = some x → x.owner = index → writtenCommand call = some id
  sources : ∀ pair x, w.sources.held pair = some x → x.owner = index → writtenSource call = some pair
  locks : ∀ capture, locked call = some capture →
    ∃ x, w.locks.held (d.lockOf capture) = some x ∧ x.owner = index
  sound : CallSound d.contract w index call

structure Sound (d : Deployment) (w : Lane) : Prop where
  calls : ∀ (index : Nat) call, w.calls[index]? = some call → Owns d w index call
  captureHeld : ∀ id x, w.captures.held id = some x → x.owner < w.calls.length ∧ id < w.minted
  commandHeld : ∀ id x, w.commands.held id = some x → x.owner < w.calls.length
  sourceHeld : ∀ pair x, w.sources.held pair = some x → x.owner < w.calls.length
  indexed : ∀ id row, w.captures.committed id = some row →
    row.captureId = id ∧ w.commands.committed row.commandId = some id ∧ id < w.minted
  reported : ∀ id row, w.captures.committed id = some row → (row.status = .accepted ↔ row.reportedAt = none)
  published : ∀ pair source, w.sources.committed pair = some source →
    ∃ e ∈ w.outbox, sourceOf e = some source.socialSourceId
  bounded : ∀ e ∈ w.outbox, ∀ s, sourceOf e = some s → s < w.minted
  fresh : ∀ (index : Nat) call, w.calls[index]? = some call → ∀ s ∈ introduces call,
    s < w.minted ∧ ∀ e ∈ w.outbox, sourceOf e ≠ some s
  distinct : ∀ (i j : Nat) left right, w.calls[i]? = some left → w.calls[j]? = some right →
    ∀ s ∈ introduces left, s ∈ introduces right → i = j

theorem soundEmpty (d : Deployment) : Sound d Lane.empty where
  calls := by simp [Lane.empty]
  captureHeld := by simp [Lane.empty,Store.empty]
  commandHeld := by simp [Lane.empty,Store.empty]
  sourceHeld := by simp [Lane.empty,Store.empty]
  indexed := by simp [Lane.empty,Store.empty]
  reported := by simp [Lane.empty,Store.empty]
  published := by simp [Lane.empty,Store.empty]
  bounded := by simp [Lane.empty]
  fresh := by simp [Lane.empty]
  distinct := by simp [Lane.empty]

section Frame
variable {contract : Contract} {w t : Lane} {j : Nat} {call : Call}

theorem preparedAside {capture queued} (captures : w.captures.Aside t.captures j) (sources : w.sources.Aside t.sources j)
    (same : t.sources.committed capture.pair = w.sources.committed capture.pair)
    (prepared : Prepared contract w j capture queued) : Prepared contract t j capture queued := by
  rcases prepared with ⟨rfl,untouched,unwritten⟩ | ⟨row,row',found,unreported,held,outcome⟩
  · refine .inl ⟨rfl,?_,?_⟩
    · intro x held own
      exact untouched x ((captures.1 _ x own).mp held) own
    · intro x held own
      exact unwritten x ((sources.1 _ x own).mp held) own
  · refine .inr ⟨row,row',?_,unreported,(captures.1 _ _ rfl).mpr held,?_⟩
    · rw [captures.2 _ _ held rfl]
      exact found
    · rw [same,Store.asideView sources same]
      exact outcome

theorem callAside (captures : w.captures.Aside t.captures j) (commands : w.commands.Aside t.commands j)
    (sources : w.sources.Aside t.sources j) (known : ∀ capture, Known w capture → Known t capture)
    (same : ∀ capture, locked call = some capture → t.sources.committed capture.pair = w.sources.committed capture.pair)
    (sound : CallSound contract w j call) : CallSound contract t j call := by
  cases call with
  | rejected error => trivial
  | intake intake pc =>
    cases pc with
    | commit captureId queued =>
      obtain ⟨absent,first,command,⟨now,held⟩,form⟩ := sound
      refine ⟨?_,?_,(commands.1 _ _ rfl).mpr command,⟨now,(captures.1 _ _ rfl).mpr held⟩,form⟩
      · rw [captures.2 _ _ held rfl]
        exact absent
      · rw [commands.2 _ _ command rfl]
        exact first
    | _ => trivial
  | worker k =>
    refine ⟨fun capture member => known capture (sound.1 capture member),?_⟩
    have own := sound.2
    generalize pc : k.pc = at_ at own ⊢
    cases at_ with
    | claim => trivial
    | resolve capture => exact known capture own
    | defer capture => exact known capture own
    | done result => trivial
    | terminate capture failure stage =>
      refine ⟨known capture own.1,?_⟩
      cases stage with
      | lock => trivial
      | guard => trivial
      | remove =>
        obtain ⟨deleted,row,now,found,unreported,held⟩ := own.2
        refine ⟨deleted,row,now,?_,unreported,(captures.1 _ _ rfl).mpr held⟩
        rw [captures.2 _ _ held rfl]
        exact found
      | commit queued =>
        exact ⟨own.2.1,preparedAside captures sources (same capture (by simp [locked,pc])) own.2.2⟩
    | preserve capture post stage =>
      refine ⟨known capture own.1,own.2.1,?_⟩
      have stands : stage ≠ .lock → t.sources.committed capture.pair = w.sources.committed capture.pair := by
        intro further
        exact same capture (by cases stage <;> simp_all [locked])
      cases stage with
      | lock => trivial
      | select => trivial
      | upsert sourceId fact snapshot =>
        simp only [PreserveSound,Selected,stands (by simp)]
        exact own.2.2
      | guard sourceId queued =>
        simp only [PreserveSound,stands (by simp),Store.asideView sources (stands (by simp))]
        exact own.2.2
      | commit queued => exact preparedAside captures sources (stands (by simp)) own.2.2

end Frame

structure Moves (d : Deployment) (w : Lane) (index : Nat) (call call' : Call) (t : Lane) : Prop where
  calls : t.calls = w.calls.set index call'
  captures : ∀ j, j ≠ index → w.captures.Aside t.captures j
  commands : ∀ j, j ≠ index → w.commands.Aside t.commands j
  sources : ∀ j, j ≠ index → w.sources.Aside t.sources j
  locks : ∀ j, j ≠ index → w.locks.Aside t.locks j
  own : Owns d t index call'
  known : ∀ capture, Known w capture → Known t capture
  only : ∀ pair, t.sources.committed pair ≠ w.sources.committed pair →
    ∃ x, w.sources.held pair = some x ∧ x.owner = index
  minted : w.minted ≤ t.minted
  captureMinted : ∀ id x, t.captures.held id = some x → x.owner = index → id < t.minted
  introduces : ∀ s ∈ introduces call', s ∈ introduces call ∨ w.minted ≤ s ∧ s < t.minted

/- The committed rows of a step keep what holds of them. -/
structure Settles (w : Lane) (call call' : Call) (t : Lane) : Prop where
  indexed : ∀ id row, t.captures.committed id = some row →
    row.captureId = id ∧ t.commands.committed row.commandId = some id ∧ id < t.minted
  reported : ∀ id row, t.captures.committed id = some row → (row.status = .accepted ↔ row.reportedAt = none)
  published : ∀ pair source, t.sources.committed pair = some source →
    ∃ e ∈ t.outbox, sourceOf e = some source.socialSourceId
  outbox : ∀ e ∈ t.outbox, e ∈ w.outbox ∨ introduces call' = [] ∧ ∀ s, sourceOf e = some s →
    s ∈ introduces call ∨ ∃ earlier ∈ w.outbox, sourceOf earlier = some s

/- A committed source changes only under the lock of its pair. -/
theorem pairStill {d : Deployment} {w t : Lane} {index j : Nat} {call call' : Call} (sound : Sound d w)
    (found : w.calls[index]? = some call)
    (only : ∀ pair, t.sources.committed pair ≠ w.sources.committed pair →
      ∃ x, w.sources.held pair = some x ∧ x.owner = index)
    (apart : j ≠ index) (there : w.calls[j]? = some call') {capture} (holds : locked call' = some capture) :
    t.sources.committed capture.pair = w.sources.committed capture.pair := by
  have here := sound.calls index call found
  by_contra changed
  obtain ⟨x,held,own⟩ := only _ changed
  obtain ⟨capture',holds',same⟩ := writtenLocked (here.sources _ x held own)
  obtain ⟨y,lock,owner⟩ := here.locks capture' holds'
  obtain ⟨z,lock',owner'⟩ := (sound.calls j call' there).locks capture holds
  have key : d.lockOf capture' = d.lockOf capture := by
    simp only [ClaimedCapture.pair,Prod.mk.injEq] at same
    simp only [Deployment.lockOf,same]
  rw [key,lock'] at lock
  cases Option.some.inj lock
  exact apart (owner'.symm.trans owner)

theorem soundMove {d : Deployment} {w t : Lane} {index : Nat} {call call' : Call} (sound : Sound d w)
    (found : w.calls[index]? = some call) (moves : Moves d w index call call' t) (settles : Settles w call call' t) :
    Sound d t := by
  have here := sound.calls index call found
  have length : t.calls.length = w.calls.length := by simp [moves.calls]
  have other : ∀ {j call''}, j ≠ index → t.calls[j]? = some call'' → w.calls[j]? = some call'' := by
    intro j call'' apart there
    rw [moves.calls,setCall found,if_neg apart] at there
    exact there
  have this : ∀ {call''}, t.calls[index]? = some call'' → call'' = call' := by
    intro call'' there
    rw [moves.calls,setCall found,if_pos rfl] at there
    exact (Option.some.inj there).symm
  have unused : ∀ {j call''}, j ≠ index → w.calls[j]? = some call'' → ∀ s ∈ introduces call'',
      ∀ e ∈ t.outbox, sourceOf e ≠ some s := by
    intro j call'' apart there s member e queued about
    have before := (sound.fresh j call'' there s member).2
    rcases settles.outbox e queued with old | ⟨_,new⟩
    · exact before e old about
    · rcases new s about with mine | ⟨earlier,old,same⟩
      · exact apart (sound.distinct j index call'' call there found s member mine)
      · exact before earlier old same
  refine ⟨?_,?_,?_,?_,settles.indexed,settles.reported,settles.published,?_,?_,?_⟩
  · intro j call'' there
    by_cases same : j = index
    · subst same
      rw [this there]
      exact moves.own
    · have before := sound.calls j call'' (other same there)
      refine ⟨?_,?_,?_,?_,?_⟩
      · intro id x held own
        exact before.captures id x (((moves.captures j same).1 id x own).mp held) own
      · intro id x held own
        exact before.commands id x (((moves.commands j same).1 id x own).mp held) own
      · intro pair x held own
        exact before.sources pair x (((moves.sources j same).1 pair x own).mp held) own
      · intro capture holds
        obtain ⟨x,lock,own⟩ := before.locks capture holds
        exact ⟨x,((moves.locks j same).1 _ x own).mpr lock,own⟩
      · exact callAside (moves.captures j same) (moves.commands j same) (moves.sources j same) moves.known
          (fun _ => pairStill sound found moves.only same (other same there)) before.sound
  · intro id x held
    by_cases same : x.owner = index
    · refine ⟨?_,moves.captureMinted id x held same⟩
      rw [same,length]
      exact (List.getElem?_eq_some_iff.mp found).1
    · obtain ⟨owner,bound⟩ := sound.captureHeld id x (((moves.captures _ same).1 id x rfl).mp held)
      exact ⟨length ▸ owner,bound.trans_le moves.minted⟩
  · intro id x held
    by_cases same : x.owner = index
    · rw [same,length]
      exact (List.getElem?_eq_some_iff.mp found).1
    · exact length ▸ sound.commandHeld id x (((moves.commands _ same).1 id x rfl).mp held)
  · intro pair x held
    by_cases same : x.owner = index
    · rw [same,length]
      exact (List.getElem?_eq_some_iff.mp found).1
    · exact length ▸ sound.sourceHeld pair x (((moves.sources _ same).1 pair x rfl).mp held)
  · intro e queued s about
    rcases settles.outbox e queued with old | ⟨_,new⟩
    · exact (sound.bounded e old s about).trans_le moves.minted
    · rcases new s about with mine | ⟨earlier,old,same⟩
      · exact (sound.fresh index call found s mine).1.trans_le moves.minted
      · exact (sound.bounded earlier old s same).trans_le moves.minted
  · intro j call'' there s member
    by_cases same : j = index
    · subst same
      rw [this there] at member
      have old : ∀ e ∈ t.outbox, e ∈ w.outbox := by
        intro e queued
        rcases settles.outbox e queued with old | ⟨none,_⟩
        · exact old
        · simp [none] at member
      rcases moves.introduces s member with mine | ⟨above,below⟩
      · have before := sound.fresh j call found s mine
        exact ⟨before.1.trans_le moves.minted,fun e queued => before.2 e (old e queued)⟩
      · refine ⟨below,?_⟩
        intro e queued about
        exact absurd (sound.bounded e (old e queued) s about) (Nat.not_lt.mpr above)
    · have before := sound.fresh j call'' (other same there) s member
      exact ⟨before.1.trans_le moves.minted,unused same (other same there) s member⟩
  · intro i j left right there there' s member member'
    have old : ∀ {i' call''}, i' ≠ index → w.calls[i']? = some call'' → s ∈ introduces call'' →
        s ∈ introduces call' → i' = index := by
      intro i' call'' apart there member mine
      rcases moves.introduces s mine with before | ⟨above,_⟩
      · exact sound.distinct i' index call'' call there found s member before
      · exact absurd (sound.fresh i' call'' there s member).1 (Nat.not_lt.mpr above)
    by_cases left' : i = index
    · by_cases right' : j = index
      · rw [left',right']
      · subst left'
        rw [this there] at member
        exact (old right' (other right' there') member' member).symm
    · by_cases right' : j = index
      · subst right'
        rw [this there'] at member'
        exact old left' (other left' there) member member'
      · exact sound.distinct i j left right (other left' there) (other right' there') s member member'

end RatatoskrX.CaptureCommits
