import Mathlib.Data.List.Chain
import RatatoskrX.Registry

/-! Whether the staged posts of a completed run are those of one traversal of the
provider's pages. A null checkpoint is read as "nothing fetched yet", but the staging
of the last page leaves one too, so a resumption after it starts again from the first
page over the items of the earlier traversal. -/
namespace RatatoskrX.Traversal
open Relational Schema Snapshot Journal Frames Reconciliation SyncCalls Schedule Transition Staging Registry

instance (db) (f : Fetch) (post) : Decidable (f.Shows db post) := by
  unfold Fetch.Shows Shown; infer_instance

def Next (f g : Fetch) : Prop :=
  (∃ token, f.page.nextToken = some token ∧ g.run.checkpoint = some token) ∧ f.fetchedAt < g.fetchedAt

/- A whole traversal: from the first page, along the tokens, to a page without one. -/
structure Traverses (pages : List Fetch) : Prop where
  first : ∃ f, pages.head? = some f ∧ f.run.checkpoint = none
  linked : pages.IsChain Next
  last : ∃ f, pages.getLast? = some f ∧ f.page.nextToken = none

/- The staged posts of a run are those of one traversal among the pages it staged. -/
def OneTraversal (w : World) (run : Run) : Prop :=
  ∃ pages, pages.Sublist (fetches w.log run.snapshotId) ∧ Traverses pages ∧
    ∀ post, w.db.Staged run.snapshotId post ↔ ∃ f ∈ pages, f.Shows w.db post

def CompletedTraversals (config : Config) (now : DateTime) (labels : List Action) (w : World) (runId : Uuid) : Prop :=
  ∀ p a q account run instant, Passes (World.step config) free (World.start Database.empty now) labels w p a q →
    Completes p q account run instant → run.id = runId → OneTraversal p run

def holder : Process → Option Uuid
  | .snapshot call => (runOf call.pc).map Run.id
  | _ => none

/- A runner that has loaded the run and has neither returned nor crashed. -/
def Engaged (w : World) (runId : Uuid) (index : Nat) : Prop :=
  index ∉ w.abandoned ∧ (w.processes[index]?).bind holder = some runId

instance (w runId index) : Decidable (Engaged w runId index) := by
  unfold Engaged; infer_instance

def resuming : Process → Option (Uuid × Uuid)
  | .snapshot ⟨account,.load (some runId)⟩ => some (account,runId)
  | _ => none

/- A single runner at a time: nobody resumes the run while another runner is engaged. -/
def Single (runId : Uuid) (w : World) : Action → Prop
  | .advance i _ => ∀ x ∈ (w.processes[i]?).bind resuming, x.2 = runId →
    ∀ j < w.processes.length, ¬Engaged w runId j
  | _ => True

instance (runId w a) : Decidable (Single runId w a) := by
  apply Action.decide <;> (intros; unfold Single; infer_instance)

/- A resumption reads a token, or a run that staged no page yet. -/
def Continuing (runId : Uuid) (w : World) : Action → Prop
  | .advance i _ => ∀ x ∈ (w.processes[i]?).bind resuming, x.2 = runId → ∀ row ∈ w.db.syncRuns.find runId,
    row.checkpoint ≠ none ∨ row.pagesFetched = 0
  | _ => True

instance (runId w a) : Decidable (Continuing runId w a) := by
  apply Action.decide <;> (intros; unfold Continuing; infer_instance)

def Unbroken (runId : Uuid) (w : World) (a : Action) : Prop := Single runId w a ∧ Continuing runId w a

instance (runId w a) : Decidable (Unbroken runId w a) := by
  unfold Unbroken; infer_instance

structure Stamped (w : World) : Prop where
  held : ∀ {i : Nat} {call run page t k}, w.processes[i]? = some (.snapshot call) → call.pc = .stage run page t k →
    k ≤ w.log.length
  past : ∀ {s f}, f ∈ fetches w.log s → f.fetchedAt < w.log.length

theorem lengthAfter {config w a t} (taken : World.step config w a = some t) : w.log.length ≤ t.log.length := by
  rcases logAfter taken with ⟨same,_⟩ | ⟨e,same,_⟩
  · rw [same]
  · rw [same,List.length_append]
    omega

theorem stampedStep {config w a t} (stamped : Stamped w) (taken : World.step config w a = some t) : Stamped t := by
  have grows := lengthAfter taken
  constructor
  · intro j call run page instant k found pc
    rcases stepView taken found with ⟨answer,old,s,rfl,here,ok,next,_⟩ | ⟨first,_⟩ | ⟨here,_⟩
    · obtain ⟨before,r,rfl,_,moves,_,_,same⟩ := snapshotNext ok next.symm
      rw [pc] at same
      generalize before.pc = start at moves
      cases moves with
      | fetch =>
        cases same
        exact grows
      | stage staged =>
        unfold onward at same
        split at same <;> simp at same
      | _ => simp at same
    · unfold Process.initial at first
      split at first <;> simp_all
    · exact Nat.le_trans (stamped.held here pc) grows
  · intro s f member
    rcases logAfter taken with ⟨logged,_⟩ | ⟨e,logged,wrote⟩
    · rw [logged] at member ⊢
      exact stamped.past member
    · rw [logged,fetchesEntry] at member
      rw [logged,List.length_append]
      rcases List.mem_append.mp member with old | fresh
      · exact Nat.lt_of_lt_of_le (stamped.past old) (Nat.le_add_right ..)
      · cases wrote with
        | external outside applied _ =>
          obtain ⟨rfl,_⟩ := fetchEntry fresh
          simp [External] at outside
        | commit found ok next stands applied answered =>
          obtain ⟨rfl,_⟩ := fetchEntry fresh
          obtain ⟨call,rfl,pc⟩ := stagedBy stands
          exact Nat.lt_succ_of_le (stamped.held found pc)
        | spoken found ok next utters same =>
          unfold WriteCalls.WriteCall.utters at utters
          split at utters <;> cases utters <;> simp [fetchOf] at fresh

def endToken (pages : List Fetch) : Option String := pages.getLast?.bind (fun f => f.page.nextToken)

def More (pages : List Fetch) : Prop := pages = [] ∨ endToken pages ≠ none

/- A run that is not completed has staged the first pages of one traversal. -/
structure Position (row : SyncRun) (pages : List Fetch) : Prop where
  first : ∀ f ∈ pages.head?, f.run.checkpoint = none
  linked : pages.IsChain Next
  token : row.checkpoint = endToken pages
  counted : row.pagesFetched = pages.length

theorem endTokenSnoc (pages f) : endToken (pages ++ [f]) = f.page.nextToken := by
  simp [endToken]

theorem Position.extend {row pages f} (position : Position row pages) (more : More pages)
    (token : f.run.checkpoint = endToken pages) (later : ∀ g ∈ pages, g.fetchedAt < f.fetchedAt) (items) :
    Position (advancedRow f.page.nextToken items row) (pages ++ [f]) := by
  constructor
  case first =>
    intro g head
    cases pages with
    | nil =>
      have same : f = g := by simpa using head
      rw [← same,token]
      rfl
    | cons first rest => exact position.first g (by simpa using head)
  case linked =>
    rw [List.isChain_append]
    refine ⟨position.linked,by simp,?_⟩
    intro x last y head
    have same : f = y := by simpa using head
    subst same
    have member : x ∈ pages := List.mem_of_getLast? last
    refine ⟨?_,later x member⟩
    have ends : endToken pages = x.page.nextToken := by simp [endToken,Option.mem_def.mp last]
    cases more with
    | inl empty => simp [empty] at member
    | inr open_ =>
      obtain ⟨next,same⟩ := Option.ne_none_iff_exists'.mp open_
      exact ⟨next,ends.symm.trans same,token.trans same⟩
  case token => exact (endTokenSnoc pages f).symm
  case counted => simp [position.counted]

/- What the runner of a run may rely on at each of its control points. -/
def Stands (row : SyncRun) (pages : List Fetch) : SnapshotPc → Prop
  | .resume run => row.state ≠ .completed ∧ run.checkpoint = endToken pages ∧ More pages
  | .reserve run | .fetch run => row.state = .running ∧ run.checkpoint = endToken pages ∧ More pages
  | .stage run _ _ k =>
    row.state = .running ∧ run.checkpoint = endToken pages ∧ More pages ∧ ∀ f ∈ pages, f.fetchedAt < k
  | .complete _ | .finalize _ _ => row.state = .running ∧ pages ≠ [] ∧ endToken pages = none
  | .fail _ _ => row.state ≠ .completed
  | .load _ | .done _ => True

theorem Stands.open_ {row pages pc run} (stands : Stands row pages pc) (holds : runOf pc = some run) :
    row.state ≠ .completed := by
  cases pc with
  | resume => exact stands.1
  | fail => exact stands
  | load | done => simp [runOf] at holds
  | _ => rw [stands.1]; simp

def staged : Option Event → List Fetch
  | some (.commit (.stagePage run page t k)) => [⟨run,page,t,k⟩]
  | _ => []

theorem standsStep {gate account db now stamp pc r run row pages} (moves : Moves gate account db now stamp pc r)
    (holds : runOf pc = some run) (found : db.syncRuns.find run.id = some row)
    (position : row.state ≠ .completed → Position row pages) (past : ∀ f ∈ pages, f.fetchedAt < stamp)
    (stands : Stands row pages pc) :
    ∃ row', r.db.syncRuns.find run.id = some row' ∧
      (row'.state ≠ .completed → Position row' (pages ++ staged r.event)) ∧
      Stands row' (pages ++ staged r.event) r.next := by
  have mine : row.id = run.id := Table.findKey found
  have open_ := stands.open_ holds
  have here := position open_
  have staging : ∀ {page t k after}, Snapshot.stagePage db run page t = .ok after → pc = .stage run page t k →
      ∃ items, after.syncRuns.find run.id = some (advancedRow page.nextToken items row) ∧ row.state = .running ∧
        Position (advancedRow page.nextToken items row) (pages ++ [⟨run,page,t,k⟩]) := by
    intro page t k after ok at_
    subst at_
    obtain ⟨running,token,more,later⟩ := stands
    have applied : Commit.effect (.stagePage run page t k) db = some after := by
      simp [Commit.effect,ok,Except.toOption]
    obtain ⟨row',present,_,items,form⟩ := runAfter applied found
    rw [if_pos ⟨mine,running⟩] at form
    subst form
    exact ⟨items,present,running,here.extend more (f := ⟨run,page,t,k⟩) token later items⟩
  have charged : ∀ {after reservation}, gate.reserve db account 1 now = .ok (after,reservation) →
      after.syncRuns.find run.id = some row := by
    intro after reservation paid
    rw [(chargeFrame paid).syncRuns (by simp)]
    exact found
  have marked : ∀ {f : SyncRun → SyncRun} {keeps}, (updateRun db (fun r => r.id = run.id) f keeps).syncRuns.find run.id =
      some (f row) := by
    intro f keeps
    rw [updateRunFind,found]
    simp [mine]
  cases moves with
  | create | found | createLost => simp [runOf] at holds
  | resume =>
    cases Option.some.inj holds
    simp only [staged,List.append_nil]
    exact ⟨_,marked,fun _ => ⟨here.first,here.linked,here.token,here.counted⟩,rfl,stands.2.1,stands.2.2⟩
  | resumeLost =>
    cases Option.some.inj holds
    simp only [staged,List.append_nil]
    exact ⟨_,marked,fun _ => ⟨here.first,here.linked,here.token,here.counted⟩,trivial⟩
  | charge paid =>
    cases Option.some.inj holds
    simp only [staged,List.append_nil]
    exact ⟨row,charged paid,position,stands⟩
  | chargeLost paid =>
    cases Option.some.inj holds
    simp only [staged,List.append_nil]
    exact ⟨row,charged paid,position,open_⟩
  | fetch =>
    cases Option.some.inj holds
    simp only [staged,List.append_nil]
    exact ⟨row,found,position,stands.1,stands.2.1,stands.2.2,past⟩
  | @stage _ page t k after ok =>
    cases Option.some.inj holds
    obtain ⟨items,present,running,further⟩ := staging ok rfl
    simp only [staged]
    refine ⟨_,present,fun _ => further,?_⟩
    have ends := endTokenSnoc pages ⟨run,page,t,k⟩
    unfold onward
    split
    · rename_i last
      exact ⟨running,by simp,ends.trans last⟩
    · rename_i token next
      have leads := ends.trans next
      exact ⟨running,leads.symm,.inr (by rw [leads]; simp)⟩
  | @stageLost _ page t k after result ok =>
    cases Option.some.inj holds
    obtain ⟨items,present,running,further⟩ := staging ok rfl
    simp only [staged]
    exact ⟨_,present,fun _ => further,by simp [Stands,running]⟩
  | clock =>
    cases Option.some.inj holds
    simp only [staged,List.append_nil]
    exact ⟨row,found,position,stands⟩
  | complete ok =>
    cases Option.some.inj holds
    obtain ⟨statistics,_,_,_,rows⟩ := committedRun ok
    simp only [staged,List.append_nil]
    have finished := rows run.id
    rw [found,Option.map_some,if_pos mine] at finished
    exact ⟨_,finished,fun unfinished => absurd rfl unfinished,trivial⟩
  | failed =>
    cases Option.some.inj holds
    simp only [staged,List.append_nil]
    exact ⟨_,marked,fun _ => ⟨here.first,here.linked,here.token,here.counted⟩,trivial⟩
  | abort =>
    simp only [staged,List.append_nil]
    exact ⟨row,found,position,open_⟩
  | leave =>
    simp only [staged,List.append_nil]
    exact ⟨row,found,position,trivial⟩

section World
variable {config : Config} {w t : World} {a : Action} {runId : Uuid}

structure Course (runId : Uuid) (w : World) : Prop where
  alone : ∀ {i j}, Engaged w runId i → Engaged w runId j → i = j
  position : ∀ {run row}, Paired w.db run → run.id = runId → w.db.syncRuns.find runId = some row →
    row.state ≠ .completed → Position row (fetches w.log run.snapshotId)
  stands : ∀ {run row} {i : Nat} {call}, Paired w.db run → run.id = runId → w.db.syncRuns.find runId = some row →
    Engaged w runId i → w.processes[i]? = some (.snapshot call) → Stands row (fetches w.log run.snapshotId) call.pc

theorem engagedHolds {i : Nat} {call run} (alive : i ∉ w.abandoned) (found : w.processes[i]? = some (.snapshot call))
    (holds : runOf call.pc = some run) : Engaged w run.id i := by
  refine ⟨alive,?_⟩
  rw [found]
  simp [holder,holds]

theorem runKept (registered : Registered w) (taken : World.step config w a = some t)
    (idle : ∀ j answer, a = .advance j answer → ¬Engaged w runId j) {row}
    (found : w.db.syncRuns.find runId = some row) (full : row.runType = .full) :
    t.db.syncRuns.find runId = some row ∧
    ∀ run, Paired w.db run → run.id = runId → fetches t.log run.snapshotId = fetches w.log run.snapshotId := by
  have mine : row.id = runId := Table.findKey found
  rcases logAfter taken with ⟨logged,same⟩ | ⟨e,logged,wrote⟩
  · exact ⟨by rw [same]; exact found,fun _ _ _ => by rw [logged]⟩
  have untargeted : ∀ {c : Commit}, c.effect w.db = some t.db → runTarget c ≠ some runId →
      t.db.syncRuns.find runId = some row := by
    intro c applied other
    obtain ⟨row',present,_,moves⟩ := runAfter applied found
    rw [runUntouched moves (by rw [mine]; exact other)] at present
    exact present
  cases wrote with
  | @external _ _ c outside applied _ =>
    refine ⟨untargeted applied (by simp [externalUntargeted outside]),?_⟩
    intro run _ _
    rw [logged,fetchesEntry]
    cases c with
    | connectAccount _ | storeCredential _ | storeAuthorization _ | persistPosts _ => simp [fetchOf]
    | _ => exact outside.elim
  | @commit _ j answer p s c present ok next stands applied answered =>
    have alive : j ∉ w.abandoned := by
      intro gone
      simp [World.step,gone] at taken
    have away := idle j answer rfl
    constructor
    · refine untargeted applied ?_
      intro aimed
      rcases targetHeld registered present stands aimed with ⟨call,run,rfl,holds,same,_⟩ | ⟨row',again,other⟩
      · exact away (same ▸ engagedHolds alive present holds)
      · rw [found] at again
        cases Option.some.inj again
        exact other full
    · intro run paired own
      rw [logged,fetchesEntry]
      suffices none : ((fetchOf ⟨some j,.commit c⟩).filter (fun f => f.run.snapshotId = run.snapshotId)).toList = [] by
        rw [none,List.append_nil]
      refine List.eq_nil_iff_forall_not_mem.mpr ?_
      intro f member
      obtain ⟨rfl,same⟩ := fetchEntry member
      obtain ⟨call,rfl,pc⟩ := stagedBy stands
      have holds : runOf call.pc = some f.run := by rw [pc]; rfl
      have identical := (pairedSame registered.rows (registered.runners present holds).1 paired).mpr same
      exact away (own ▸ identical ▸ engagedHolds alive present holds)
  | spoken present ok next utters same =>
    refine ⟨by rw [same]; exact found,?_⟩
    intro run _ _
    rw [logged,fetchesEntry]
    unfold WriteCalls.WriteCall.utters at utters
    split at utters <;> cases utters <;> simp [fetchOf]

theorem pairedBefore (taken : World.step config w a = some t) {run row} (found : w.db.syncRuns.find run.id = some row)
    (paired : Paired t.db run) : Paired w.db run ∧ row.runType = .full := by
  rcases stepCommit taken with same | ⟨c,applied,_⟩
  · rw [same] at paired
    obtain ⟨⟨row',present,full,_⟩,_⟩ := id paired
    rw [found] at present
    cases Option.some.inj present
    exact ⟨paired,full⟩
  · obtain ⟨⟨row',present,full,account⟩,s',kept,own⟩ := paired
    obtain ⟨row'',again,same,_⟩ := runAfter applied found
    rw [present] at again
    cases Option.some.inj again
    simp only [title,Prod.mk.injEq] at same
    refine ⟨⟨⟨row,found,same.2.2.symm.trans full,same.2.1.symm.trans account⟩,?_⟩,same.2.2.symm.trans full⟩
    rcases snapshotBefore applied kept with ⟨s,before⟩ | ⟨_,absent,_⟩
    · obtain ⟨_,later,_,same',_⟩ := snapshotAfter applied before
      rw [kept] at later
      cases Option.some.inj later
      exact ⟨s,before,same'.symm.trans own⟩
    · rw [own,found] at absent
      simp at absent

theorem openedEmpty (registered : Registered w) (taken : World.step config w a = some t) {run}
    (absent : w.db.syncRuns.find run.id = none) (paired : Paired t.db run) :
    fetches t.log run.snapshotId = [] ∧ ∀ row, t.db.syncRuns.find run.id = some row →
      row.state = .running ∧ row.checkpoint = none ∧ row.pagesFetched = 0 := by
  have later := registeredStep registered taken
  constructor
  · refine List.eq_nil_iff_forall_not_mem.mpr ?_
    intro f member
    have same : f.run.snapshotId = run.snapshotId := by
      simpa using (List.mem_filter.mp member).2
    have identical := (pairedSame later.rows (later.paged member) paired).mpr same
    have known : ∃ row, w.db.syncRuns.find f.run.id = some row := by
      rcases logAfter taken with ⟨logged,_⟩ | ⟨e,logged,wrote⟩
      · rw [logged] at member
        obtain ⟨⟨row,present,_⟩,_⟩ := registered.paged member
        exact ⟨row,present⟩
      · rw [logged,fetchesEntry] at member
        rcases List.mem_append.mp member with old | fresh
        · obtain ⟨⟨row,present,_⟩,_⟩ := registered.paged old
          exact ⟨row,present⟩
        · cases wrote with
          | external outside _ _ =>
            obtain ⟨rfl,_⟩ := fetchEntry fresh
            simp [External] at outside
          | commit found _ _ stands _ _ =>
            obtain ⟨rfl,_⟩ := fetchEntry fresh
            obtain ⟨call,rfl,pc⟩ := stagedBy stands
            obtain ⟨⟨⟨row,present,_⟩,_⟩,_⟩ := registered.runners found (by rw [pc]; rfl)
            exact ⟨row,present⟩
          | spoken _ _ _ utters _ =>
            unfold WriteCalls.WriteCall.utters at utters
            split at utters <;> cases utters <;> simp [fetchOf] at fresh
    obtain ⟨row,present⟩ := known
    rw [identical,absent] at present
    simp at present
  · intro row found
    rcases stepCommit taken with same | ⟨c,applied,_⟩
    · rw [same,absent] at found
      simp at found
    · exact runOpened applied absent found

def Own (config : Config) (w t : World) (i : Nat) (call call' : SnapshotCall) : Prop :=
  ∃ r, Moves config.readGate call.accountId w.db w.now w.log.length call.pc r ∧ i ∉ w.abandoned ∧
    w.processes[i]? = some (.snapshot call) ∧ call'.pc = r.next ∧ t.db = r.db ∧
    t.log = w.log ++ (r.event.map (Entry.mk (some i))).toList

theorem ownStep {i : Nat} {answer call} (taken : World.step config w (.advance i answer) = some t)
    (found : w.processes[i]? = some (.snapshot call)) :
    ∃ call', t.processes[i]? = some (.snapshot call') ∧ Own config w t i call call' := by
  cases stepMove taken with
  | @advance _ _ process s alive here ok =>
    rw [found] at here
    cases Option.some.inj here
    have inside : i < w.processes.length := (List.getElem?_eq_some_iff.mp found).1
    obtain ⟨r,next,rfl⟩ := Option.map_eq_some_iff.mp ok
    exact ⟨{call with pc := r.next},by simp [World.take,List.getElem?_set_self inside,Step.map],
      r,snapshotMoves next,alive,found,rfl,rfl,rfl⟩
  | external _ _ quiet => exact absurd rfl (quiet i answer)

theorem engagedCall {i} (engaged : Engaged w runId i) :
    ∃ call run, w.processes[i]? = some (.snapshot call) ∧ runOf call.pc = some run ∧ run.id = runId := by
  obtain ⟨_,held⟩ := engaged
  obtain ⟨process,found,holds⟩ := Option.bind_eq_some_iff.mp held
  cases process with
  | snapshot call =>
    obtain ⟨run,own,same⟩ := Option.map_eq_some_iff.mp holds
    exact ⟨call,run,found,own,same⟩
  | _ => simp [holder] at holds

theorem engagedKnown (registered : Registered w) {i} (engaged : Engaged w runId i) :
    ∃ row, w.db.syncRuns.find runId = some row := by
  obtain ⟨call,run,found,holds,rfl⟩ := engagedCall engaged
  obtain ⟨⟨⟨row,present,_⟩,_⟩,_⟩ := registered.runners found holds
  exact ⟨row,present⟩

theorem engagedView (taken : World.step config w a = some t) {i} (engaged : Engaged t runId i) :
    (∃ answer call call', a = .advance i answer ∧ t.processes[i]? = some (.snapshot call') ∧
      Own config w t i call call') ∨
    (Engaged w runId i ∧ w.processes[i]? = t.processes[i]? ∧ ∀ answer, a ≠ .advance i answer) := by
  obtain ⟨call,run,found,holds,_⟩ := engagedCall engaged
  cases stepMove taken with
  | @spawn process first =>
    refine .inr ?_
    have same : w.processes[i]? = some (.snapshot call) := by
      rcases Nat.lt_trichotomy i w.processes.length with inside | rfl | outside
      · rwa [List.getElem?_append_left inside] at found
      · have last : process = .snapshot call := by simpa using found
        subst last
        unfold Process.initial at first
        split at first <;> simp_all [runOf]
      · rw [List.getElem?_eq_none (by simp; omega)] at found
        simp at found
    refine ⟨⟨engaged.1,?_⟩,same.trans found.symm,by simp⟩
    rw [same,← found]
    exact engaged.2
  | @advance index answer process s alive here ok =>
    by_cases mine : index = i
    · subst mine
      refine .inl ?_
      obtain ⟨before,old⟩ : ∃ before, process = .snapshot before := by
        have inside : index < w.processes.length := (List.getElem?_eq_some_iff.mp here).1
        simp only [World.take,List.getElem?_set_self inside,Option.some.injEq] at found
        obtain ⟨before,_,old,_⟩ := snapshotNext ok found
        exact ⟨before,old⟩
      subst old
      obtain ⟨call',present,own⟩ := ownStep taken here
      exact ⟨answer,before,call',rfl,present,own⟩
    · have same : (w.take index s).processes[i]? = w.processes[i]? := by
        simp [World.take,List.getElem?_set_ne mine]
      refine .inr ⟨⟨engaged.1,?_⟩,same.symm,by simp [mine]⟩
      rw [← same]
      exact engaged.2
  | abandon index =>
    refine .inr ⟨⟨?_,engaged.2⟩,rfl,by simp⟩
    intro gone
    exact engaged.1 (List.mem_cons_of_mem _ gone)
  | tick now => exact .inr ⟨engaged,rfl,by simp⟩
  | external outside applied quiet => exact .inr ⟨engaged,rfl,quiet i⟩

theorem stagedOwn {i : Nat} {call call'} (own : Own config w t i call call') {run} (holds : runOf call.pc = some run) :
    ∃ r, Moves config.readGate call.accountId w.db w.now w.log.length call.pc r ∧ call'.pc = r.next ∧ t.db = r.db ∧
      fetches t.log run.snapshotId = fetches w.log run.snapshotId ++ staged r.event := by
  obtain ⟨r,moves,_,_,next,db,logged⟩ := own
  refine ⟨r,moves,next,db,?_⟩
  have pages : staged r.event = (r.event.map (Entry.mk (some i))).toList.filterMap fetchOf ∧
      ∀ f ∈ staged r.event, f.run = run := by
    generalize call.pc = pc at moves holds
    cases moves with
    | stage | stageLost =>
      cases Option.some.inj holds
      exact ⟨rfl,by simp [staged]⟩
    | _ => exact ⟨rfl,by simp [staged]⟩
  rw [logged,fetchesAppend]
  congr 1
  unfold fetches
  rw [← pages.1]
  refine List.filter_eq_self.mpr ?_
  intro f member
  simp [pages.2 f member]

theorem ownRun {i : Nat} {call call'} (own : Own config w t i call call') {run} (holds : runOf call'.pc = some run)
    (fresh : ¬Engaged w run.id i) :
    (w.db.syncRuns.find run.id = none ∧ call'.pc = .reserve run ∧ run.checkpoint = none) ∨
    (∃ runId, call.pc = .load (some runId) ∧ Snapshot.findResumable w.db call.accountId runId = some run ∧
      call'.pc = .resume run ∧ t.db = w.db) := by
  obtain ⟨r,moves,alive,found,next,db,_⟩ := own
  rw [next] at holds ⊢
  rcases movesRun moves holds with ⟨old,held,same,_⟩ | ⟨start,made⟩ | ⟨runId,start,present,unchanged⟩
  · exact absurd (same ▸ engagedHolds alive found held) fresh
  · rw [start] at moves
    cases moves with
    | create made' =>
      cases Option.some.inj holds
      unfold Snapshot.createRun at made'
      split at made' <;> cases made'
      exact .inl ⟨openedFresh w.db call.accountId .full,rfl,rfl⟩
    | abort own => simp [runOf] at own
    | _ => simp [runOf] at holds
  · rw [start] at moves
    cases moves with
    | found present' =>
      cases Option.some.inj holds
      exact .inr ⟨runId,start,present',rfl,db⟩
    | abort own => simp [runOf] at own
    | _ => simp [runOf] at holds

theorem resumableId {db account target run} (found : Snapshot.findResumable db account target = some run) :
    run.id = target := by
  simp only [Snapshot.findResumable,bind,Option.bind_eq_some_iff] at found
  obtain ⟨_,_,_,_,last⟩ := found
  split at last
  · cases Option.some.inj last
    rfl
  · simp at last

theorem aloneStep (registered : Registered w) (course : Course runId w) (unbroken : Unbroken runId w a)
    (taken : World.step config w a = some t) {i j} (left : Engaged t runId i) (right : Engaged t runId j) : i = j := by
  -- A process that has just taken the run over finds nobody engaged on it.
  have single : ∀ {i j}, Engaged t runId i → (∃ answer call call', a = .advance i answer ∧
      t.processes[i]? = some (.snapshot call') ∧ Own config w t i call call') → Engaged w runId j → i = j := by
    intro i j engaged ⟨answer,call,call',step,present,own⟩ other
    by_cases before : Engaged w runId i
    · exact course.alone before other
    · obtain ⟨call'',run,again,holds,same⟩ := engagedCall engaged
      rw [present] at again
      cases Option.some.inj again
      rcases ownRun own holds (same ▸ before) with ⟨absent,_⟩ | ⟨target,start,found,_⟩
      · obtain ⟨row,known⟩ := engagedKnown registered other
        rw [same,known] at absent
        simp at absent
      · obtain ⟨_,_,_,here,_⟩ := own
        obtain ⟨account,_⟩ := call
        simp only at start
        subst start step
        have named : target = runId := (resumableId found).symm.trans same
        have inside : j < w.processes.length := by
          obtain ⟨_,_,standing,_⟩ := engagedCall other
          exact (List.getElem?_eq_some_iff.mp standing).1
        exact absurd other (unbroken.1 (account,target) (by simp [here,resuming]) named j inside)
  rcases engagedView taken left with mine | ⟨before,_,_⟩
  · rcases engagedView taken right with yours | ⟨before,_,_⟩
    · obtain ⟨_,_,_,step,_⟩ := mine
      obtain ⟨_,_,_,step',_⟩ := yours
      cases step.symm.trans step'
      rfl
    · exact single left mine before
  · rcases engagedView taken right with yours | ⟨before',_,_⟩
    · exact (single right yours before).symm
    · exact course.alone before before'

theorem courseStep (registered : Registered w) (stamped : Stamped w) (course : Course runId w)
    (unbroken : Unbroken runId w a) (taken : World.step config w a = some t) : Course runId t := by
  -- The row and the pages of the run after the step, by the runner or by nobody engaged.
  have moved : ∀ {run row}, Paired w.db run → run.id = runId → w.db.syncRuns.find runId = some row →
      ∀ {i answer}, a = .advance i answer → Engaged w runId i → ∃ row' call', t.db.syncRuns.find runId = some row' ∧
        t.processes[i]? = some (.snapshot call') ∧
        (row'.state ≠ .completed → Position row' (fetches t.log run.snapshotId)) ∧
        Stands row' (fetches t.log run.snapshotId) call'.pc := by
    intro run row paired own found i answer step engaged
    subst step
    obtain ⟨call,held,here,holds,same⟩ := engagedCall engaged
    obtain ⟨call',present,mine⟩ := ownStep taken here
    obtain ⟨r,moves,next,db,pages⟩ := stagedOwn mine holds
    have snapshot : held.snapshotId = run.snapshotId :=
      (pairedSame registered.rows (registered.runners here holds).1 paired).mp (same.trans own.symm)
    rw [snapshot] at pages
    obtain ⟨row',later,position,stands⟩ := standsStep moves holds (same.symm ▸ found)
      (course.position paired own found) (fun f member => stamped.past member)
      (course.stands paired own found engaged here)
    rw [same] at later
    exact ⟨row',call',db ▸ later,present,pages ▸ position,pages ▸ next ▸ stands⟩
  constructor
  case alone => exact aloneStep registered course unbroken taken
  case position =>
    intro run row' paired own found open_
    cases before : w.db.syncRuns.find runId with
    | none =>
      obtain ⟨empty,opened⟩ := openedEmpty registered taken (by rw [own]; exact before) paired
      obtain ⟨_,token,pages⟩ := opened row' (by rw [own]; exact found)
      rw [empty]
      exact ⟨by simp,by simp,token,pages⟩
    | some row =>
      obtain ⟨earlier,full⟩ := pairedBefore taken (by rw [own]; exact before) paired
      by_cases busy : ∃ i answer, a = .advance i answer ∧ Engaged w runId i
      · obtain ⟨i,answer,step,engaged⟩ := busy
        obtain ⟨row'',_,later,_,position,_⟩ := moved earlier own before step engaged
        rw [found] at later
        cases Option.some.inj later
        exact position open_
      · obtain ⟨kept,pages⟩ := runKept registered taken (fun j answer step engaged => busy ⟨j,answer,step,engaged⟩)
          before full
        rw [found] at kept
        cases Option.some.inj kept
        rw [pages run earlier own]
        exact course.position earlier own before open_
  case stands =>
    intro run row' i call' paired own found engaged present
    cases before : w.db.syncRuns.find runId with
    | none =>
      obtain ⟨empty,opened⟩ := openedEmpty registered taken (by rw [own]; exact before) paired
      obtain ⟨running,_⟩ := opened row' (by rw [own]; exact found)
      rcases engagedView taken engaged with ⟨answer,call,call'',_,present',mine⟩ | ⟨earlier,_⟩
      · rw [present] at present'
        cases Option.some.inj present'
        obtain ⟨_,held,again,holds,same⟩ := engagedCall engaged
        rw [present] at again
        cases Option.some.inj again
        have unknown : ¬Engaged w held.id i := by
          intro known
          obtain ⟨row,found'⟩ := engagedKnown registered known
          rw [same,before] at found'
          simp at found'
        rcases ownRun mine holds unknown with ⟨_,pc,token⟩ | ⟨_,_,found',_⟩
        · rw [pc,empty]
          exact ⟨running,token,.inl rfl⟩
        · obtain ⟨row,known,_⟩ := resumableRow found'
          rw [same,before] at known
          simp at known
      · obtain ⟨row,known⟩ := engagedKnown registered earlier
        rw [before] at known
        simp at known
    | some row =>
      obtain ⟨earlier,full⟩ := pairedBefore taken (by rw [own]; exact before) paired
      by_cases busy : ∃ i answer, a = .advance i answer ∧ Engaged w runId i
      · obtain ⟨j,answer,step,runner⟩ := busy
        obtain ⟨row'',after,later,present',_,stands⟩ := moved earlier own before step runner
        rw [found] at later
        cases Option.some.inj later
        have same : i = j := by
          rcases engagedView taken engaged with ⟨_,_,_,step',_⟩ | ⟨known,_,_⟩
          · cases step.symm.trans step'
            rfl
          · exact course.alone known runner
        subst same
        rw [present] at present'
        cases Option.some.inj present'
        exact stands
      · obtain ⟨kept,pages⟩ := runKept registered taken (fun j answer step runner => busy ⟨j,answer,step,runner⟩)
          before full
        rw [found] at kept
        cases Option.some.inj kept
        rw [pages run earlier own]
        rcases engagedView taken engaged with ⟨answer,call,call'',step,present',mine⟩ | ⟨known,same,_⟩
        · rw [present] at present'
          cases Option.some.inj present'
          obtain ⟨_,held,again,holds,same⟩ := engagedCall engaged
          rw [present] at again
          cases Option.some.inj again
          have idle : ¬Engaged w held.id i := fun runner => busy ⟨i,answer,step,same ▸ runner⟩
          rcases ownRun mine holds idle with ⟨absent,_⟩ | ⟨target,start,found',pc,_⟩
          · rw [same,before] at absent
            simp at absent
          · obtain ⟨row'',known,_,_,state,token,_⟩ := resumableRow found'
            rw [same,before] at known
            cases Option.some.inj known
            have open_ : row'.state ≠ .completed := by rcases state with h | h <;> simp [h]
            have position := course.position earlier own before open_
            rw [pc]
            refine ⟨open_,token.trans position.token,?_⟩
            obtain ⟨_,_,_,here,_⟩ := mine
            obtain ⟨account,_⟩ := call
            simp only at start
            subst start step
            have named : target = runId := (resumableId found').symm.trans same
            rcases unbroken.2 (account,target) (by simp [here,resuming]) named row' before with token | unstaged
            · exact .inr (position.token ▸ token)
            · have none : (fetches w.log run.snapshotId).length = 0 := by
                have counted := position.counted
                omega
              exact .inl (List.length_eq_zero_iff.mp none)
        · rw [present] at same
          exact course.stands earlier own before known same

end World

section Runs
variable {config : Config} {now : DateTime} {labels : List Action} {w : World} {runId : Uuid}

theorem courseStart (runId now) : Course runId (World.start Database.empty now) where
  alone := by simp [Engaged,World.start]
  position := by simp [World.start,Database.empty,Table.empty,Table.find]
  stands := by simp [World.start]

theorem stampedStart (now) : Stamped (World.start Database.empty now) where
  held := by simp [World.start]
  past := by simp [World.start,fetches]

theorem courseRun (run : Transition.Run (World.step config) (Unbroken runId) (World.start Database.empty now) labels w) :
    Course runId w := by
  refine (run.preserves (fun w => Registered w ∧ Stamped w ∧ Course runId w) ?_
    ⟨registeredStart now,stampedStart now,courseStart runId now⟩).2.2
  intro w a t ⟨registered,stamped,course⟩ unbroken taken
  exact ⟨registeredStep registered taken,stampedStep stamped taken,courseStep registered stamped course unbroken taken⟩

theorem completedTraversal
    (run : Transition.Run (World.step config) (Unbroken runId) (World.start Database.empty now) labels w) :
    CompletedTraversals config now labels w runId := by
  intro p a q account r instant passes completes own
  obtain ⟨before,after,_,first,_,taken,_⟩ := run.guarded passes
  have registered := registeredRun first
  have course := courseRun first
  have stocked := stockedRun first
  obtain ⟨i,answer,call,_,alive,found,pc,_,ok⟩ := completesBy taken completes
  have holds : runOf call.pc = some r := by rw [pc]; rfl
  have paired := (registered.runners found holds).1
  obtain ⟨_,row,_,present,_,_,_,running⟩ := committedRows ok
  rw [own] at present
  have engaged : Engaged p runId i := own ▸ engagedHolds alive found holds
  have position := course.position paired own present (by simp [running])
  have stands := course.stands paired own present engaged found
  rw [pc] at stands
  obtain ⟨_,some_,ends⟩ := stands
  refine ⟨fetches p.log r.snapshotId,List.Sublist.refl _,⟨?_,position.linked,?_⟩,stocked.staged r.snapshotId⟩
  · cases pages : fetches p.log r.snapshotId with
    | nil => exact absurd pages some_
    | cons f rest => exact ⟨f,rfl,position.first f (by rw [pages]; rfl)⟩
  · obtain ⟨f,last⟩ := List.getLast?_isSome.mpr some_ |> Option.isSome_iff_exists.mp
    rw [endToken,last,Option.bind_some] at ends
    exact ⟨f,last,ends⟩

end Runs

/- Two pages, with the provider unavailable between them and a resumption. -/
def continued : List Action :=
  [.connectAccount ⟨1,7,.connected⟩,.spawn (.snapshot ⟨1,.load none⟩)] ++ advances 0 2 ++
    [.advance 0 (.page ⟨some ["100"],some "next"⟩)] ++ advances 0 2 ++ [.advance 0 .unavailable] ++ advances 0 1 ++
    [.spawn (.snapshot ⟨1,.load (some 1)⟩)] ++ advances 1 3 ++ [.advance 1 (.page ⟨some ["200"],none⟩)] ++ advances 1 2

def continuedEnd : World :=
  (replay (World.step sampleConfig) (Unbroken 1) sampleStart continued).get (by decide +kernel)

def continuedDone : World := (World.step sampleConfig continuedEnd (.advance 1 .ok)).get (by decide +kernel)

theorem completedTraversalAtContinuation :
    continuedEnd.db.Staged 1 1 ∧ continuedEnd.db.Staged 1 2 ∧ OneTraversal continuedEnd ⟨1,1,1,none⟩ := by
  have before : Transition.Run (World.step sampleConfig) (Unbroken 1) sampleStart continued continuedEnd :=
    replayRun (Option.some_get _).symm
  have step : World.step sampleConfig continuedEnd (.advance 1 .ok) = some continuedDone := (Option.some_get _).symm
  have meets : Unbroken 1 continuedEnd (.advance 1 .ok) := by decide +kernel
  have passes : Passes (World.step sampleConfig) free sampleStart (continued ++ [.advance 1 .ok]) continuedDone
      continuedEnd (.advance 1 .ok) continuedDone :=
    ⟨continued,[],rfl,before.weaken (fun _ _ _ => trivial),trivial,step,.nil _⟩
  exact ⟨by decide +kernel,by decide +kernel,
    completedTraversal (before.append (.cons meets step (.nil _))) _ _ _ 1 ⟨1,1,1,none⟩ sampleInstant passes
      (completesStep (by decide +kernel) (by decide +kernel) step) rfl⟩

/- The last page is staged and the completion fails; the resumption reads a null
checkpoint and begins again, and the provider's pages have changed. -/
def restarted : List Action :=
  [.connectAccount ⟨1,7,.connected⟩,.spawn (.snapshot ⟨1,.load none⟩)] ++ advances 0 2 ++
    [.advance 0 (.page ⟨some ["100"],none⟩)] ++ advances 0 2 ++ [.advance 0 .fault] ++
    [.spawn (.snapshot ⟨1,.load (some 1)⟩)] ++ advances 1 3 ++ [.advance 1 (.page ⟨some ["200"],none⟩)] ++ advances 1 2

def restartedEnd : World :=
  (replay (World.step sampleConfig) (Single 1) sampleStart restarted).get (by decide +kernel)

def restartedDone : World := (World.step sampleConfig restartedEnd (.advance 1 .ok)).get (by decide +kernel)

theorem restartMixesTraversals :
    ¬∀ config now labels w runId,
      Transition.Run (World.step config) (Single runId) (World.start Database.empty now) labels w →
      CompletedTraversals config now labels w runId := by
  intro claim
  have before : Transition.Run (World.step sampleConfig) (Single 1) sampleStart restarted restartedEnd :=
    replayRun (Option.some_get _).symm
  have step : World.step sampleConfig restartedEnd (.advance 1 .ok) = some restartedDone := (Option.some_get _).symm
  have meets : Single 1 restartedEnd (.advance 1 .ok) := by decide +kernel
  obtain ⟨pages,inside,traverses,exactly⟩ := claim _ _ _ _ 1 (before.append (.cons meets step (.nil _))) _ _ _ 1
    ⟨1,1,1,none⟩ sampleInstant
    ⟨restarted,[],rfl,before.weaken (fun _ _ _ => trivial),trivial,step,.nil _⟩
    (completesStep (by decide +kernel) (by decide +kernel) step) rfl
  have both : restartedEnd.db.Staged 1 1 ∧ restartedEnd.db.Staged 1 2 := by decide +kernel
  have ended : ∀ f ∈ fetches restartedEnd.log 1, f.page.nextToken = none := by decide +kernel
  have apart : ∀ f ∈ fetches restartedEnd.log 1, ¬(f.Shows restartedEnd.db 1 ∧ f.Shows restartedEnd.db 2) := by
    decide +kernel
  match pages,inside,traverses,exactly with
  | [],_,traverses,_ =>
    obtain ⟨f,head,_⟩ := traverses.first
    simp at head
  | [f],inside,_,exactly =>
    have member : f ∈ fetches restartedEnd.log 1 := inside.subset (by simp)
    have one := (exactly 1).mp both.1
    have two := (exactly 2).mp both.2
    simp only [List.mem_singleton,exists_eq_left] at one two
    exact apart f member ⟨one,two⟩
  | f::g::rest,inside,traverses,_ =>
    have member : f ∈ fetches restartedEnd.log 1 := inside.subset (by simp)
    obtain ⟨⟨token,next,_⟩,_⟩ := (List.isChain_cons_cons.mp traverses.linked).1
    rw [ended f member] at next
    simp at next

end RatatoskrX.Traversal
