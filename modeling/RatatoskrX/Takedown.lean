import Mathlib.Data.List.Induction
import RatatoskrX.LibrarySteps

/-! Takedowns over whole runs. A source is removed once, with its tombstone and its event,
and from then on neither a page nor another result changes it or tells of it. -/
namespace RatatoskrX.Takedown
open Schema Envelopes SocialSources ReadCommitted Transition Library LibraryCommits LibrarySteps
variable {d : Deployment} {accounts : Uuid → Option Uuid} {a b : Archive}

theorem soundOpened : Sound (.opened accounts) := by
  refine ⟨?_,?_,?_⟩
  · intro index call found
    simp [State.opened] at found
  · intro key x held
    cases held
  · refine ⟨?_,?_,?_,?_,?_,?_,?_⟩
    · intro key row there
      cases there
    · intro key row there
      cases there
    · intro id key there
      cases there
    · intro key row there
      cases there
    · intro key row there
      cases there
    · intro id absent
      exact ⟨rfl,rfl⟩
    · intro id stone there
      cases there

theorem soundRun {labels s w} (run : Run (State.step d) free s labels w) (start : Sound s) : Sound w :=
  run.preserves Sound (fun _ _ _ sound _ taken => (soundStep sound taken).1) start

theorem stepCommit {w t a} (sound : Sound w) (taken : State.step d w a = some t) : Commit (archive w) (archive t) := by
  rcases (soundStep sound taken).2 with same | staged | ⟨run,candidate,evidence,checkedAt,entry,queued,pc,⟨index,found⟩,recorded⟩
  · rw [same]
    exact .quiet
  · exact .staged staged
  · have own := (runOwns sound found).2
    rw [pc] at own
    exact .recorded own.2.1 recorded

section Silence

/- A page that touches a source finds it, and leaves it, unremoved. -/
theorem removedUntouched (shelved : Shelved a) (staged : Staged a b) {key row} (there : a.rows.source key = some row)
    (removed : row.removedAt ≠ none) : ¬Touched a.rows b.rows row.socialSourceId := by
  rintro ⟨key',row',present,about,_,before⟩
  have settled := shelvedStaged shelved staged
  have known := (shelvedGrows (.staged staged)).1 _ _ (shelved.indexed key row there)
  have indexed := settled.indexed key' row' present
  rw [about,known] at indexed
  cases Option.some.inj indexed
  exact removed (before row there)

theorem removedStays (commit : Commit a b) {key row} (there : a.rows.source key = some row)
    (removed : row.removedAt ≠ none) : b.rows.source key = some row := by
  cases commit with
  | quiet => exact there
  | staged staged =>
    rcases staged.sources key with same | ⟨_,_,_,_,_,old⟩
    · exact same.trans there
    · exact absurd (old row there).1 removed
  | recorded _ recorded =>
    obtain ⟨id,drafts,queued,settles,rfl⟩ := recorded
    refine (sourceSame (Store.draftedOther ?_)).trans there
    cases settles with
    | indeterminate _ => simp
    | seen _ _ => simp [postDraft]
    | takenDown _ _ _ stands _ kept _ =>
      simp only [List.map_cons,List.map_nil,tombstoneDraft,sourceDraft,postDraft,List.mem_cons,Key.source.injEq,
        reduceCtorEq,List.not_mem_nil,or_false,false_or]
      rintro rfl
      rw [stands] at there
      cases Option.some.inj there
      exact removed kept

theorem removedRevisions (shelved : Shelved a) (commit : Commit a b) {key row} (there : a.rows.source key = some row)
    (removed : row.removedAt ≠ none) (digest) :
    b.rows.revision row.socialSourceId digest = a.rows.revision row.socialSourceId digest := by
  cases commit with
  | quiet => rfl
  | staged staged =>
    rcases staged.revisions row.socialSourceId digest with same | touched
    · exact same
    · exact absurd touched (removedUntouched shelved staged there removed)
  | recorded _ recorded =>
    obtain ⟨id,drafts,queued,settles,rfl⟩ := recorded
    exact (settlesFrame settles).2.1 _ _

theorem removedUntold (shelved : Shelved a) (commit : Commit a b) {key row} (there : a.rows.source key = some row)
    (removed : row.removedAt ≠ none) :
    ∃ queued, b.outbox = a.outbox ++ queued ∧ ∀ e ∈ queued, tellsContent e → sourceOf e ≠ some row.socialSourceId := by
  cases commit with
  | quiet => exact ⟨[],(List.append_nil _).symm,by simp⟩
  | staged staged =>
    obtain ⟨queued,outbox,tells⟩ := staged.outbox
    refine ⟨queued,outbox,?_⟩
    intro e member content about
    obtain ⟨id,named,touched⟩ := (tells e member).2 content
    rw [about] at named
    cases Option.some.inj named
    exact removedUntouched shelved staged there removed touched
  | recorded _ recorded =>
    obtain ⟨id,drafts,queued,settles,rfl⟩ := recorded
    refine ⟨queued,rfl,?_⟩
    intro e member content
    cases settles with
    | indeterminate _ => cases member
    | seen _ _ => cases member
    | takenDown _ _ _ _ _ _ _ =>
      cases List.mem_singleton.mp member
      simp [tellsContent,removedEvent] at content

end Silence

/-- A removed source stays as it was removed, and no later event tells of its content. -/
theorem removedSourceStaysSilent {d accounts xs p ys q} (before : Run (State.step d) free (.opened accounts) xs p)
    (after : Run (State.step d) free p ys q) {key row} (there : p.archived.source key = some row)
    (removed : row.removedAt ≠ none) :
    q.archived.source key = some row ∧
      (∀ digest, q.archived.revision row.socialSourceId digest = p.archived.revision row.socialSourceId digest) ∧
      ∃ queued, q.outbox = p.outbox ++ queued ∧
        ∀ e ∈ queued, tellsContent e → sourceOf e ≠ some row.socialSourceId := by
  have sound := soundRun before soundOpened
  clear before
  induction after with
  | nil => exact ⟨there,fun _ => rfl,[],(List.append_nil _).symm,by simp⟩
  | @cons s a t rest u _ taken _ ih =>
    have commit := stepCommit sound taken
    have stays := removedStays commit there removed
    obtain ⟨source,revisions,later,told,silent⟩ := ih stays (soundStep sound taken).1
    obtain ⟨queued,outbox,quiet⟩ := removedUntold sound.shelved commit there removed
    refine ⟨source,?_,queued ++ later,?_,?_⟩
    · intro digest
      exact (revisions digest).trans (removedRevisions sound.shelved commit there removed digest)
    · rw [told,show t.outbox = s.outbox ++ queued from outbox,List.append_assoc]
    · intro e member
      rcases List.mem_append.mp member with first | second
      · exact quiet e first
      · exact silent e second

def plain : Deployment := ⟨⟨⟨fun semantic => semantic.text,fun _ => true⟩,fun _ => true⟩,fun _ _ => 0⟩

def connected (account : Uuid) : Option Uuid := if account = 1 then some 7 else none

def statements (index count : Nat) : List Action := List.replicate count (.advance index .ok)

def staging (index : Nat) (text : String) (count : Nat) : List Action :=
  .stage 1 ⟨0,DateTime.epochRepresentable⟩ [⟨"9",none,none⟩] [⟨"42",some "9",text,none,none,.active,[]⟩]::
    statements index 3 ++ .advance index (.order ["42"])::statements index count

def launch : Action := .launch 1 ⟨5,by decide⟩ 10

def answer (index : Nat) (seen : ComplianceAvailability) : Action :=
  .advance index (.answer (.ok ⟨seen,none⟩) ⟨6,by decide⟩)

def takingDown : List Action := staging 0 "a" 6 ++ launch::statements 1 2 ++ answer 1 .deleted::statements 1 5

def takenDown : State := (replay (State.step plain) free (.opened connected) takingDown).get (by decide +kernel)

def restaged : State := (replay (State.step plain) free takenDown (staging 2 "b" 3)).get (by decide +kernel)

theorem removedSourceStaysSilentAtEdit : ∃ row, takenDown.archived.source (1,"42") = some row ∧ row.removedAt ≠ none ∧
    restaged.archived.source (1,"42") = some row ∧
      (∀ digest, restaged.archived.revision row.socialSourceId digest =
        takenDown.archived.revision row.socialSourceId digest) ∧
      ∃ queued, restaged.outbox = takenDown.outbox ++ queued ∧
        ∀ e ∈ queued, tellsContent e → sourceOf e ≠ some row.socialSourceId := by
  have there : takenDown.archived.source (1,"42") =
      some ⟨1,"42",0,⟨"sha256","a"⟩,⟨0,by decide⟩,some ⟨6,by decide⟩⟩ := by decide +kernel
  exact ⟨_,there,by simp,removedSourceStaysSilent (replayRun (Option.some_get _).symm)
    (replayRun (Option.some_get _).symm) there (by simp)⟩

section Answers
variable {w t : State} {index : Nat}

theorem pageCalls {page reply} (taken : w.stagePage d index page reply = some t) :
    ∃ page', t.calls = w.calls.set index (.page page') := by
  unfold State.stagePage at taken
  split at taken
  · simp at taken
  · cases Option.some.inj taken
    exact ⟨_,rfl⟩
  · cases Option.some.inj taken
    exact ⟨_,rfl⟩
  · unfold State.persistUser at taken
    split at taken
    · cases Option.some.inj taken
      exact ⟨_,rfl⟩
    · simp at taken
  · split at taken
    · cases Option.some.inj taken
      exact ⟨_,rfl⟩
    · simp at taken
  · unfold State.persistPost at taken
    split at taken
    · split at taken
      · cases Option.some.inj taken
        exact ⟨_,rfl⟩
      · simp at taken
    · cases Option.some.inj taken
      exact ⟨_,rfl⟩
  · cases Option.some.inj taken
    exact ⟨_,rfl⟩
  · cases Option.some.inj taken
    exact ⟨_,rfl⟩
  · simp only at taken
    split at taken
    · cases Option.some.inj taken
      exact ⟨_,rfl⟩
    · simp at taken
  · cases Option.some.inj taken
    unfold State.loadSource
    split
    · exact ⟨_,rfl⟩
    · split <;> exact ⟨_,rfl⟩
  · unfold State.writeSource at taken
    split at taken
    · split at taken
      · cases Option.some.inj taken
        exact ⟨_,rfl⟩
      · split at taken
        · split at taken <;> cases Option.some.inj taken <;> exact ⟨_,rfl⟩
        · simp at taken
    · split at taken
      · split at taken <;> cases Option.some.inj taken <;> exact ⟨_,rfl⟩
      · simp at taken
  · unfold State.insertRevision at taken
    split at taken
    · split at taken <;> cases Option.some.inj taken <;> exact ⟨_,rfl⟩
    · simp at taken
  · cases Option.some.inj taken
    unfold State.selectLink
    split
    · exact ⟨_,rfl⟩
    · split <;> exact ⟨_,rfl⟩
  · unfold State.insertCapture at taken
    split at taken
    · split at taken <;> cases Option.some.inj taken <;> exact ⟨_,rfl⟩
    · simp at taken
  · unfold State.linkCapture at taken
    split at taken
    · simp only at taken
      split at taken <;> cases Option.some.inj taken <;> split <;> exact ⟨_,rfl⟩
    · simp at taken
  · simp at taken

def Recording (run : RunDue) (candidate : RevalidationCandidate) (evidence : RevalidationEvidence)
    (checkedAt : DateTime) : Prop := ∃ stage, run.pc = .record candidate evidence checkedAt stage

theorem nextCalls (w : State) (index run summary) : ∃ run', w.next index run summary = w.set index (.run run') ∧
    ∀ candidate evidence checkedAt, ¬Recording run' candidate evidence checkedAt := by
  unfold State.next
  split
  · exact ⟨_,rfl,by simp [Recording]⟩
  · exact ⟨_,rfl,by simp [Recording]⟩

theorem runCalls {run reply} (taken : w.runDue index run reply = some t) :
    ∃ run', t.calls = w.calls.set index (.run run') ∧ ∀ candidate evidence checkedAt,
      Recording run' candidate evidence checkedAt → Recording run candidate evidence checkedAt ∨
        ∃ result, reply = .answer result checkedAt ∧ run.pc = .revalidate candidate ∧ evidence = .from_ result := by
  unfold State.runDue at taken
  split at taken
  · split at taken
    · simp at taken
    · cases Option.some.inj taken
      exact ⟨_,rfl,by simp [Recording]⟩
  · split at taken
    · cases Option.some.inj taken
      exact ⟨_,rfl,by simp [Recording]⟩
    · simp at taken
  · split at taken
    · cases Option.some.inj taken
      exact ⟨_,rfl,by simp [Recording]⟩
    · simp at taken
  · split at taken
    · rename_i result time _ candidate pc
      cases Option.some.inj taken
      refine ⟨_,rfl,?_⟩
      rintro _ _ _ ⟨stage,recording⟩
      cases recording
      exact .inr ⟨result,rfl,pc,rfl⟩
    · simp at taken
  · simp at taken
  · split at taken
    · rename_i dueBefore maxItems _
      obtain ⟨run',next,idle⟩ := nextCalls w index {run with rest := w.candidates run.accountId dueBefore maxItems}
        run.summary
      rw [next] at taken
      cases Option.some.inj taken
      exact ⟨run',rfl,fun _ _ _ recording => absurd recording (idle _ _ _)⟩
    · cases Option.some.inj taken
      exact ⟨_,rfl,by simp [Recording]⟩
    · rename_i candidate evidence checkedAt stage pc
      -- A statement that goes on goes on with the same result.
      have goes : ∀ {calls : List Call} {stage'}, calls = w.calls.set index
          (.run {run with pc := .record candidate evidence checkedAt stage'}) →
          ∃ run', calls = w.calls.set index (.run run') ∧ ∀ candidate evidence checkedAt,
            Recording run' candidate evidence checkedAt → Recording run candidate evidence checkedAt ∨
              ∃ result, Reply.ok = .answer result checkedAt ∧ run.pc = .revalidate candidate ∧ evidence = .from_ result := by
        rintro calls stage' rfl
        refine ⟨_,rfl,?_⟩
        rintro _ _ _ ⟨_,recording⟩
        cases recording
        exact .inl ⟨stage,pc⟩
      cases stage with
      | ledger =>
        simp only [State.recordResult] at taken
        split at taken <;> cases Option.some.inj taken <;> exact goes rfl
      | availability entry seen =>
        simp only [State.recordResult] at taken
        split at taken
        · split at taken <;> cases Option.some.inj taken <;> exact goes rfl
        · simp at taken
      | remove entry seen =>
        simp only [State.recordResult] at taken
        split at taken
        · cases Option.some.inj taken
          exact goes rfl
        · split at taken
          · split at taken
            · cases Option.some.inj taken
              exact goes rfl
            · split at taken <;> cases Option.some.inj taken <;> exact goes rfl
          · simp at taken
      | tombstone entry seen =>
        simp only [State.recordResult] at taken
        split at taken
        · split at taken
          · cases Option.some.inj taken
            exact ⟨_,rfl,by simp [Recording]⟩
          · cases Option.some.inj taken
            exact goes rfl
        · simp at taken
      | commit entry queued =>
        simp only [State.recordResult] at taken
        obtain ⟨run',next,idle⟩ := nextCalls (w.commit index [entry] queued) index run
          {run.summary with
            checked := run.summary.checked + 1, takedowns := run.summary.takedowns + if queued = [] then 0 else 1}
        rw [next] at taken
        cases Option.some.inj taken
        exact ⟨run',rfl,fun _ _ _ recording => absurd recording (idle _ _ _)⟩
    · simp at taken

def Answered (d : Deployment) (s : State) (labels : List Action) (w : State) (index : Nat)
    (candidate : RevalidationCandidate) (result : Except ComplianceSourceError ComplianceObservation)
    (checkedAt : DateTime) : Prop :=
  ∃ p run q, Passes (State.step d) free s labels w p (.advance index (.answer result checkedAt)) q ∧
    p.calls[index]? = some (.run run) ∧ run.pc = .revalidate candidate

theorem answered {s labels run candidate evidence checkedAt} (fresh : s.calls = [])
    (runs : Run (State.step d) free s labels w) (found : w.calls[index]? = some (.run run))
    (recording : Recording run candidate evidence checkedAt) :
    ∃ result, evidence = .from_ result ∧ Answered d s labels w index candidate result checkedAt := by
  induction labels using List.reverseRecOn generalizing w run with
  | nil =>
    cases runs
    simp [fresh] at found
  | append_singleton labels a ih =>
    obtain ⟨v,first,last⟩ := runs.split
    cases last with
    | cons _ taken rest =>
      cases rest
      -- The call was recording the same result before the last step.
      have earlier : ∀ run', v.calls[index]? = some (.run run') → Recording run' candidate evidence checkedAt →
          ∃ result, evidence = .from_ result ∧ Answered d s (labels ++ [a]) w index candidate result checkedAt := by
        intro run' there before
        obtain ⟨result,same,p,asked,q,⟨xs,ys,rfl,start,free',step,later⟩,facts⟩ := ih first there before
        refine ⟨result,same,p,asked,q,⟨xs,ys ++ [a],by simp,start,free',step,?_⟩,facts⟩
        exact later.append (.cons trivial taken (.nil _))
      -- A new call is not recording anything.
      have opened : ∀ call : Call, w.calls = v.calls ++ [call] →
          (∀ run, call = .run run → ¬Recording run candidate evidence checkedAt) →
          ∃ result, evidence = .from_ result ∧ Answered d s (labels ++ [a]) w index candidate result checkedAt := by
        intro call calls idle
        rw [calls] at found
        rcases lt_or_ge index v.calls.length with old | fresh
        · rw [List.getElem?_append_left old] at found
          exact earlier run found recording
        · rw [List.getElem?_append_right fresh] at found
          have same := List.mem_singleton.mp (List.mem_of_getElem? found)
          exact absurd recording (idle run same.symm)
      cases a with
      | stage accountId capturedAt users posts =>
        cases Option.some.inj taken
        exact opened _ rfl (by simp)
      | launch accountId dueBefore maxItems =>
        cases Option.some.inj taken
        exact opened _ rfl (by simp [Recording])
      | advance j reply =>
        simp only [State.step] at taken
        split at taken
        · rename_i page there
          obtain ⟨page',calls⟩ := pageCalls taken
          rw [calls,setCall there] at found
          split at found
          · cases found
          · exact earlier run found recording
        · rename_i asked there
          obtain ⟨run',calls,follows⟩ := runCalls taken
          rw [calls,setCall there] at found
          split at found
          · rename_i here
            cases Option.some.inj found
            subst here
            rcases follows _ _ _ recording with before | ⟨result,rfl,pc,same⟩
            · exact earlier asked there before
            · refine ⟨result,same,v,asked,w,⟨labels,[],rfl,first,trivial,?_,.nil _⟩,there,pc⟩
              simpa only [State.step,there] using taken
          · exact earlier run found recording
        · simp at taken

end Answers

section Atomic

theorem tombstoneStays (shelved : Shelved a) (commit : Commit a b) {id stone} (there : a.rows.tombstone id = some stone) :
    b.rows.tombstone id = some stone := by
  cases commit with
  | quiet => exact there
  | staged staged => exact (staged.tombstones id).trans there
  | recorded _ recorded =>
    obtain ⟨entry,drafts,queued,settles,rfl⟩ := recorded
    have other : Key.tombstone id ∉ drafts.map Prod.fst := by
      cases settles with
      | indeterminate _ => simp
      | seen _ _ => simp [postDraft]
      | @takenDown _ _ key row _ _ _ _ stands same kept _ =>
        simp only [List.map_cons,List.map_nil,tombstoneDraft,sourceDraft,postDraft,List.mem_cons,Key.tombstone.injEq,
          reduceCtorEq,List.not_mem_nil,or_false]
        rintro rfl
        have absent := shelved.tombstone key row stands
        rw [kept,same,there] at absent
        cases absent
    simp only [Rows.tombstone] at there ⊢
    rw [Store.draftedOther other]
    exact there

/- A source has one removal event at most. -/
theorem removalsOnce (shelved : Shelved a) (id : Uuid) : (removals a.outbox id).length ≤ 1 := by
  cases known : a.rows.identity id with
  | none => simp [(shelved.unknown id known).2]
  | some key =>
    obtain ⟨row,there,rfl⟩ := shelved.placed id key known
    rw [shelved.removed key row there]
    cases row.removedAt <;> simp

/- A tombstone belongs to a source. -/
theorem tombstonePlaced (shelved : Shelved a) {id stone} (there : a.rows.tombstone id = some stone) :
    ∃ key row, a.rows.source key = some row ∧ row.socialSourceId = id := by
  cases known : a.rows.identity id with
  | none =>
    rw [(shelved.unknown id known).1] at there
    cases there
  | some key =>
    obtain ⟨row,present,same⟩ := shelved.placed id key known
    exact ⟨key,row,present,same⟩

/- What a result may change beside the ledger, when it removes nothing. -/
def Confined (candidate : RevalidationCandidate) (a b : Archive) :
    Except ComplianceSourceError ComplianceObservation → Prop
  | .error _ => b.rows = a.rows ∧ b.outbox = a.outbox
  | .ok observation => observation.availability = .available → b.outbox = a.outbox ∧
      ∃ post, a.rows.post candidate.post = some post ∧
        b.rows = Function.update a.rows (.post candidate.post) (some (.post {post with availability := .active}))

theorem recordedConfined {accountId candidate result checkedAt}
    (recorded : Recorded a accountId candidate (.from_ result) checkedAt b) : Confined candidate a b result := by
  obtain ⟨id,drafts,queued,settles,rfl⟩ := recorded
  cases result with
  | error error =>
    cases settles with
    | indeterminate _ => exact ⟨rfl,List.append_nil _⟩
    | seen saw _ => cases saw
    | takenDown saw _ _ _ _ _ _ => cases saw
  | ok observation =>
    intro available
    cases settles with
    | indeterminate unseen => cases unseen
    | seen saw there =>
      cases Option.some.inj saw
      refine ⟨List.append_nil _,_,there,?_⟩
      simp only [Store.drafted,List.foldr_cons,List.foldr_nil,postDraft,available,postAvailability]
    | takenDown saw gone _ _ _ _ _ =>
      cases Option.some.inj saw
      exact absurd available gone

end Atomic

/-- A source is taken down once and for all, and a result changes no more than it says. -/
theorem takedownAtMostOnce {d accounts labels w} (run : Run (State.step d) free (.opened accounts) labels w) :
    (∀ id, (removals w.outbox id).length ≤ 1) ∧
    (∀ key row, w.archived.source key = some row →
      (w.archived.tombstone row.socialSourceId).map Tombstone.recordedAt = row.removedAt ∧
        removals w.outbox row.socialSourceId = row.removedAt.toList) ∧
    (∀ id stone, w.archived.tombstone id = some stone →
      ∃ key row, w.archived.source key = some row ∧ row.socialSourceId = id) ∧
    ∀ a t, State.step d w a = some t →
      (∀ key row, w.archived.source key = some row → row.removedAt ≠ none → t.archived.source key = some row) ∧
      (∀ id stone, w.archived.tombstone id = some stone → t.archived.tombstone id = some stone) ∧
      ∀ index reply run, a = .advance index reply → w.calls[index]? = some (.run run) →
        archive t = archive w ∨ ∃ candidate result checkedAt id,
          Answered d (.opened accounts) labels w index candidate result checkedAt ∧
            t.ledger = w.ledger ++ [ledgerEntry id run.accountId candidate (.from_ result) checkedAt] ∧
            Confined candidate (archive w) (archive t) result := by
  have sound := soundRun run soundOpened
  refine ⟨removalsOnce sound.shelved,?_,fun _ _ there => tombstonePlaced sound.shelved there,?_⟩
  · intro key row there
    exact ⟨sound.shelved.tombstone key row there,sound.shelved.removed key row there⟩
  · intro a t taken
    have commit := stepCommit sound taken
    refine ⟨fun _ _ there removed => removedStays commit there removed,
      fun _ _ there => tombstoneStays sound.shelved commit there,?_⟩
    rintro index reply due rfl found
    simp only [State.step,found] at taken
    rcases (soundRunDue sound found taken).2 with same | ⟨candidate,evidence,checkedAt,entry,queued,pc,recorded⟩
    · exact .inl same
    · obtain ⟨result,rfl,asked⟩ := answered rfl run found ⟨_,pc⟩
      have confined := recordedConfined recorded
      obtain ⟨id,_,_,_,archived⟩ := recorded
      exact .inr ⟨candidate,result,checkedAt,id,asked,congrArg Archive.ledger archived,confined⟩

/- Two workers carry results of one source that disagree. -/
def disagreeing : List Action :=
  staging 0 "a" 6 ++ [launch,launch] ++ statements 1 2 ++ statements 2 2 ++ [answer 1 .deleted,answer 2 .unavailable] ++
    statements 1 5 ++ statements 2 4

def disagreed : State := (replay (State.step plain) free (.opened connected) disagreeing).get (by decide +kernel)

theorem takedownOnceAtDisagreement : ∃ row, disagreed.archived.source (1,"42") = some row ∧ row.removedAt ≠ none ∧
    (disagreed.archived.tombstone row.socialSourceId).map Tombstone.recordedAt = row.removedAt ∧
    removals disagreed.outbox row.socialSourceId = row.removedAt.toList ∧ disagreed.ledger.length = 2 := by
  have there : disagreed.archived.source (1,"42") =
      some ⟨1,"42",0,⟨"sha256","a"⟩,⟨0,by decide⟩,some ⟨6,by decide⟩⟩ := by decide +kernel
  have once := takedownAtMostOnce (replayRun (Option.some_get _).symm : Run (State.step plain) free _ _ disagreed)
  obtain ⟨stone,event⟩ := once.2.1 _ _ there
  exact ⟨_,there,by simp,stone,event,by decide +kernel⟩

end RatatoskrX.Takedown
