import RatatoskrX.RunEndings
import RatatoskrX.ScanRuns

/-! What a scan that ends without its watermark leaves to the scheduler. A reached page
cap records a gap; an ended feed marks the run failed and records none. -/
namespace RatatoskrX.Escalation
open Relational Schema Snapshot Incremental Journal Frames SyncCalls Schedule Transition Observations Gaps Alone ScanRuns

inductive ScheduledScan where
  | incremental
  | fullSnapshot
  deriving DecidableEq, Repr

def scheduledBookmarkScanCommand : String := "x.bookmarks.scan_requested.v1"

/-- IncrementalScanService::scheduled_scan -/
def scheduledScan (db : Database) (commandType : String) (account : Uuid) : Except SnapshotError ScheduledScan :=
  if commandType ≠ scheduledBookmarkScanCommand then .error .runUnavailable
  else .ok (if (loadState db account).2 then .fullSnapshot else .incremental)

/- Until a full snapshot of the account completes, whatever else runs, the scheduler
selects one and a scan that begins is refused. -/
def Escalated (config : Config) (w : World) (account : Uuid) : Prop :=
  ∀ labels v, Transition.Run (World.step config) free w labels v → Never (fun _ c => Clears account c) config w labels v →
    scheduledScan v.db scheduledBookmarkScanCommand account = .ok .fullSnapshot ∧
    ∀ i call answer t, call.accountId = account → At i call v .load → World.step config v (.advance i answer) = some t →
      ∃ e, At i call t (.done (.error e))

theorem scheduledExactly {db account} :
    scheduledScan db scheduledBookmarkScanCommand account = .ok .fullSnapshot ↔ requires db account = true := by
  unfold scheduledScan requires
  rw [if_neg (by simp)]
  cases (loadState db account).2 <;> simp

section Marks
variable {config : Config} {w t : World} {account : Uuid}

theorem loadRefused {i call answer} (required : requires w.db call.accountId = true) (there : At i call w .load)
    (taken : World.step config w (.advance i answer) = some t) : ∃ e, At i call t (.done (.error e)) := by
  have alone : Only i w (.advance i answer) := rfl
  rcases scanTurn there trivial alone taken with ⟨⟨now,same⟩,_⟩ | ⟨_,s,_,moves,_,there'⟩
  · cases same
  · cases moves with
    | refused | unread => exact ⟨_,there'⟩
    | loaded free =>
      rw [required] at free
      cases free
    | broken begun => exact absurd begun id

theorem escalatedExactly : Escalated config w account ↔ requires w.db account = true := by
  constructor
  · intro escalated
    have never : Never (fun _ c => Clears account c) config w [] w := by
      intro p a q i c passes
      exact absurd passes passesNil
    exact scheduledExactly.mp (escalated [] w (.nil w) never).1
  · intro required labels v run never
    have still : requires v.db account = true := by
      refine unlessCommitted (fun db => requires db account = true) ?_ run never required
      intro db c after held applied clears
      by_cases raises : Raises account c
      · exact raisedAfter applied raises
      · rw [requiredStill applied raises clears,held]
    refine ⟨scheduledExactly.mpr still,?_⟩
    rintro i call answer t rfl there taken
    exact loadRefused still there taken

end Marks

section Endings
variable {config : Config} {index : Nat} {call : ScanCall} {start p q w : World} {answer : Answer} {labels : List Action}

/- The page cap is reached, and the statement that records it does not fail. -/
def CapEnds (index : Nat) (call : ScanCall) (p : World) (answer : Answer) : Prop :=
  answer ≠ .fault ∧ ∃ state, At index call p (.head state) ∧ call.pageCap ≤ state.pagesFetched

/- The page that is observed is the last of the feed and does not show the watermark. -/
def FeedEnds (index : Nat) (call : ScanCall) (p : World) (answer : Answer) : Prop :=
  answer = .ok ∧ ∃ state page t, At index call p (.observe state page false t) ∧ page.nextToken = none ∧
    (Commit.effect (.observePage call.accountId state.runId page t) p.db).isSome = true

/- A completion with another watermark commits and its acknowledgement is lost. -/
def Unheard (index : Nat) (call : ScanCall) (p : World) (answer : Answer) : Prop :=
  answer = .lost ∧ ∃ state t, At index call p (.complete state t) ∧
    (Commit.effect (.completeScan state.runId state.newest t) p.db).isSome = true ∧
    state.newest ≠ (loadState p.db call.accountId).1

def Meets (kind : Nat → ScanCall → World → Answer → Prop) (config : Config) (index : Nat) (call : ScanCall)
    (start : World) (labels : List Action) (w : World) : Prop :=
  ∃ p answer q, Passes (World.step config) (Only index) start labels w p (.advance index answer) q ∧
    kind index call p answer

/- What the end of a scan promises: only a completion moves the watermark, and a scan that
ends without it escalates. -/
structure Promised (config : Config) (index : Nat) (call : ScanCall) (start : World) (labels : List Action) (w : World)
    (result : Except SnapshotError IncrementalOutcome) : Prop where
  kept : (loadState w.db call.accountId).1 ≠ (loadState start.db call.accountId).1 →
    ∃ runId newest, result = .ok (.completed runId newest)
  escalated : Meets CapEnds config index call start labels w ∨ Meets FeedEnds config index call start labels w →
    Escalated config w call.accountId

theorem capMarks (ends : CapEnds index call p answer) (taken : World.step config p (.advance index answer) = some q) :
    requires q.db call.accountId = true ∧ ∃ result, At index call q (.done result) := by
  obtain ⟨firm,state,there,capped⟩ := ends
  obtain ⟨r,next,same,there'⟩ := advanced there taken
  simp only [ScanPc.next,if_pos capped] at next
  rcases transactCases next with ⟨_,applied,⟨_,rfl⟩ | ⟨_,rfl⟩⟩ | ⟨_,none,_⟩ | ⟨failed | ⟨_,none⟩,_⟩
  · exact ⟨by rw [same]; exact raisedAfter applied rfl,_,there'⟩
  · exact ⟨by rw [same]; exact raisedAfter applied rfl,_,there'⟩
  · cases none
  · exact absurd failed firm
  · cases none

theorem feedBreaks (ends : FeedEnds index call p answer) (taken : World.step config p (.advance index answer) = some q) :
    requires q.db call.accountId = requires p.db call.accountId ∧ ∃ pc, At index call q pc ∧ Broken pc := by
  obtain ⟨rfl,state,page,t,there,last,applies⟩ := ends
  obtain ⟨after,applied⟩ := Option.isSome_iff_exists.mp applies
  obtain ⟨r,next,same,there'⟩ := advanced there taken
  simp only [ScanPc.next,transact,applied,last,Option.isNone_none,if_true,Bool.false_eq_true,if_false] at next
  cases Option.some.inj next
  refine ⟨?_,_,there',trivial⟩
  rw [same]
  exact congrArg Prod.snd (plainState (c := .observePage call.accountId state.runId page t) trivial applied _)

theorem brokenRun (run : Transition.Run (World.step config) (Only index) p labels w) {pc} (there : At index call p pc)
    (broken : Broken pc) (free : requires p.db call.accountId = false) : requires w.db call.accountId = false := by
  have kept : requires w.db call.accountId = false ∧ ∃ pc, At index call w pc ∧ Broken pc := by
    refine run.preserves (fun x => requires x.db call.accountId = false ∧ ∃ pc, At index call x pc ∧ Broken pc) ?_
      ⟨free,pc,there,broken⟩
    rintro x a y ⟨free,pc,there,broken⟩ alone taken
    rcases scanTurn there (brokenIdle broken).2 alone taken with ⟨_,same,there'⟩ | ⟨_,s,_,moves,same,there'⟩
    · exact ⟨same ▸ free,pc,there',broken⟩
    · cases moves with
      | broken _ kept after =>
        refine ⟨?_,_,there',after⟩
        rcases kept with ⟨quiet,_⟩ | ⟨c,plain,applied,_⟩
        · rw [same,quiet]
          exact free
        · rw [same]
          exact (congrArg Prod.snd (plainState plain applied _)).trans free
      | _ => exact absurd broken id
  exact kept.1

/-- A scan keeps the promise exactly when no feed ends before its watermark, and no
acknowledgement of a completion is lost. -/
theorem escalatesExactly {result} (first : At index call start .load)
    (run : Transition.Run (World.step config) (Only index) start labels w) (ending : At index call w (.done result)) :
    Promised config index call start labels w result ↔
      ¬Meets FeedEnds config index call start labels w ∧ ¬Meets Unheard config index call start labels w := by
  constructor
  · rintro ⟨kept,escalated⟩
    constructor
    · rintro ⟨p,answer,q,passes,ends⟩
      obtain ⟨before,after,_,early,_,taken,last⟩ := id passes
      have free : requires p.db call.accountId = false := by
        obtain ⟨_,_,_,_,there,_⟩ := id ends
        obtain ⟨pc,there',place⟩ := placedRun early first
        cases atUnique there there'
        cases place with
        | working _ _ free => exact free
      obtain ⟨same,pc,there,broken⟩ := feedBreaks ends taken
      have unmarked := brokenRun last there broken (same.trans free)
      rw [escalatedExactly.mp (escalated (.inr ⟨p,answer,q,passes,ends⟩))] at unmarked
      cases unmarked
    · rintro ⟨p,_,q,⟨before,after,_,early,_,taken,last⟩,rfl,state,t,there,applies,other⟩
      obtain ⟨after,applied⟩ := Option.isSome_iff_exists.mp applies
      obtain ⟨r,next,same,there'⟩ := advanced there taken
      simp only [ScanPc.next,transact,applied] at next
      cases Option.some.inj next
      obtain ⟨ended,there''⟩ := overRun last there'
      cases atUnique ending there''
      obtain ⟨pc,stands,place⟩ := placedRun early first
      cases atUnique there stands
      cases place with
      | working _ still _ owned =>
        have moved : (loadState w.db call.accountId).1 = state.newest := by
          rw [ended,same,completedState (owned state rfl) applied]
        obtain ⟨_,_,wrong⟩ := kept (by rw [moved,← still]; exact other)
        cases wrong
  · rintro ⟨feeds,hears⟩
    refine ⟨?_,?_⟩
    · intro changed
      obtain ⟨before,a,after,x,t,cut,early,alone,taken,old,fresh,last⟩ := run.since
        (P := fun x => (loadState x.db call.accountId).1 ≠ (loadState start.db call.accountId).1) (by simp) changed
      have last' := last.weaken (fun _ _ both => both.1)
      obtain ⟨pc,there,place⟩ := placedRun early first
      rcases scanTurn there place.sound alone taken with ⟨_,same,_⟩ | ⟨answer,s,rfl,moves,same,there'⟩
      · rw [same] at fresh
        exact absurd fresh old
      rcases watermarkMoves moves with kept | ⟨state,instant,after',result',rfl,applied,rfl,ended⟩
      · rw [same,kept] at fresh
        exact absurd fresh old
      · obtain ⟨_,there''⟩ := overRun last' there'
        cases atUnique ending there''
        rcases ended with ⟨_,rfl⟩ | ⟨rfl,rfl⟩
        · exact ⟨_,_,rfl⟩
        · refine absurd ⟨x,.lost,t,⟨before,after,cut,early,alone,taken,last'⟩,rfl,state,instant,there,?_,?_⟩ hears
          · simp [Commit.effect,applied]
          · cases place with
            | working _ still _ owned =>
              rw [same,completedState (owned state rfl) applied] at fresh
              rw [still]
              simpa using fresh
    · rintro (⟨p,answer,q,⟨_,_,_,_,_,taken,last⟩,ends⟩ | feed)
      · obtain ⟨marked,_,there⟩ := capMarks ends taken
        obtain ⟨same,_⟩ := overRun last there
        exact escalatedExactly.mpr (same ▸ marked)
      · exact absurd feed feeds

end Endings

section Sample
open RunEndings (scanned)

/- A second scan of the account whose watermark is the post 100. -/
def rescanning (pageCap : UInt32) : World :=
  {scanned with processes := scanned.processes ++ [.scan ⟨1,pageCap,5,.load⟩]}

/- The scan up to the transaction of its only page. -/
def rescans (page : BookmarkPage) : List Action := advances 1 3 ++ [.advance 1 (.page page)] ++ advances 1 1

def cappedEnd : World :=
  (replay (World.step sampleConfig) (Only 1) (rescanning 1) (rescans ⟨some ["200"],some "more"⟩ ++ advances 1 2)).get
    (by decide +kernel)

def exhausting : World :=
  (replay (World.step sampleConfig) (Only 1) (rescanning 5) (rescans ⟨some ["200"],none⟩)).get (by decide +kernel)

def exhausted : World := (World.step sampleConfig exhausting (.advance 1 .ok)).get (by decide +kernel)

def exhaustedEnd : World := (World.step sampleConfig exhausted (.advance 1 .ok)).get (by decide +kernel)

theorem escalatesAtCap : loadState cappedEnd.db 1 = (some "100",true) ∧
    (Promised sampleConfig 1 ⟨1,1,5,.load⟩ (rescanning 1) (rescans ⟨some ["200"],some "more"⟩ ++ advances 1 2) cappedEnd
        (.ok (.requiresFullSnapshot 2)) ↔
      ¬Meets FeedEnds sampleConfig 1 ⟨1,1,5,.load⟩ (rescanning 1) (rescans ⟨some ["200"],some "more"⟩ ++ advances 1 2)
          cappedEnd ∧
        ¬Meets Unheard sampleConfig 1 ⟨1,1,5,.load⟩ (rescanning 1) (rescans ⟨some ["200"],some "more"⟩ ++ advances 1 2)
          cappedEnd) :=
  ⟨by decide +kernel,escalatesExactly (by rfl) (replayRun (Option.some_get _).symm) (by rfl)⟩

/- The account whose watermark is no longer among its bookmarks. -/
theorem exhaustedFeedUnmarked : ¬∀ config index call start labels w result, At index call start .load →
    Transition.Run (World.step config) (Only index) start labels w → At index call w (.done result) →
    (loadState start.db call.accountId).1.isSome = true → Promised config index call start labels w result := by
  intro claim
  have early : Transition.Run (World.step sampleConfig) (Only 1) (rescanning 5) (rescans ⟨some ["200"],none⟩) exhausting :=
    replayRun (Option.some_get _).symm
  have alone : Only 1 exhausting (.advance 1 .ok) := rfl
  have taken : World.step sampleConfig exhausting (.advance 1 .ok) = some exhausted := (Option.some_get _).symm
  have later : Transition.Run (World.step sampleConfig) (Only 1) exhausted [.advance 1 .ok] exhaustedEnd :=
    .cons rfl (Option.some_get _).symm (.nil _)
  have promised := claim sampleConfig 1 ⟨1,5,5,.load⟩ (rescanning 5) _ exhaustedEnd (.error .runUnavailable) (by rfl)
    (early.append (.cons alone taken later)) (by rfl) (by decide +kernel)
  have feed : FeedEnds 1 ⟨1,5,5,.load⟩ exhausting .ok :=
    ⟨rfl,⟨some "100",2,none,some "200",0,1⟩,⟨some ["200"],none⟩,sampleInstant,by rfl,rfl,by decide +kernel⟩
  have marked := escalatedExactly.mp (promised.escalated (.inr ⟨exhausting,.ok,exhausted,
    ⟨rescans ⟨some ["200"],none⟩,[.advance 1 .ok],rfl,early,alone,taken,later⟩,feed⟩))
  have unmarked : requires exhaustedEnd.db 1 = false := by decide +kernel
  rw [unmarked] at marked
  cases marked

end Sample
end RatatoskrX.Escalation
