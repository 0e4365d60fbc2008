import RatatoskrX.Alone

/-! Every step of an incremental scan, what it does to the account's scan state, and
where a scan that works alone can be. A scan that gives up keeps that state. -/
namespace RatatoskrX.ScanRuns
open Outcome Relational Schema Budget Snapshot Incremental Journal Frames SyncCalls Schedule Transition Registry Gaps Alone

/- A scan that returns an error is on its way to return it; the other value it may give
up with is an incomplete run. -/
def Sound : ScanPc → Prop
  | .fail _ (.ok _) => False
  | _ => True

/- The scan has given up without a gap and without a completion. -/
def Broken : ScanPc → Prop
  | .stop .. | .fail _ (.error _) => True
  | .done (.error _) | .done (.ok (.incomplete _)) => True
  | _ => False

/- The scan has read its account's state and has not returned. -/
def Begun : ScanPc → Prop
  | .load | .done _ => False
  | _ => True

/- The transactions of a scan that leave its account's watermark and requirement. -/
def Plain : Commit → Prop
  | .createScan _ | .charge .. | .observePage .. | .stopScan .. | .markFailed .. => True
  | _ => False

def scanOnward (state : ScanState) (page : BookmarkPage) (reached : Bool) (now : DateTime) : ScanPc :=
  let counted := {state with pagesFetched := state.pagesFetched + 1, continuation := page.nextToken}
  if reached then .complete counted now
  else if page.nextToken.isNone then .fail state.runId (.error .runUnavailable)
  else .head counted

inductive ScanMoves (gate : BudgetGate) (account : Uuid) (pageCap : UInt32) (db : Database) (now : DateTime) :
    Answer → ScanPc → Step ScanPc → Prop where
  | refused (required : requires db account = true) :
      ScanMoves gate account pageCap db now .ok .load ⟨db,none,.done (.error .runUnavailable)⟩
  | unread {answer} : ScanMoves gate account pageCap db now answer .load ⟨db,none,.done (.error .query)⟩
  | loaded (free : requires db account = false) :
      ScanMoves gate account pageCap db now .ok .load ⟨db,none,.create (loadState db account).1⟩
  | created {watermark after runId} (made : Incremental.createRun db account = some (after,runId)) :
      ScanMoves gate account pageCap db now .ok (.create watermark)
        ⟨after,some (.commit (.createScan account)),.head ⟨watermark,runId,none,none,0,0⟩⟩
  | gap {answer state result} (capped : pageCap ≤ state.pagesFetched) (firm : answer ≠ .fault)
      (ending : result = .ok (.requiresFullSnapshot state.runId) ∨ result = .error .query) :
      ScanMoves gate account pageCap db now answer (.head state)
        ⟨Incremental.markGap db account state.runId now,some (.commit (.markGap account state.runId now)),.done result⟩
  | charged {state after reservation} (under : ¬pageCap ≤ state.pagesFetched)
      (paid : gate.reserve db account 1 now = .ok (after,reservation)) :
      ScanMoves gate account pageCap db now .ok (.head state)
        ⟨after,some (.commit (.charge gate account 1 now)),.fetch {state with requestsMade := state.requestsMade + 1}⟩
  | fetched {state page} : ScanMoves gate account pageCap db now (.page page) (.fetch state) ⟨db,none,.compare state page⟩
  | compared {state page ids} (normalized : page.normalized = some ids) :
      ScanMoves gate account pageCap db now .ok (.compare state page)
        ⟨db,none,.observe {state with newest := newestOf state.newest page} page
          (reachedWatermark db account page || state.watermark.isNone) now⟩
  | observed {state page reached t after} (seen : Incremental.observePage db account state.runId page t = .ok after) :
      ScanMoves gate account pageCap db now .ok (.observe state page reached t)
        ⟨after,some (.commit (.observePage account state.runId page t)),scanOnward state page reached now⟩
  | completed {answer state t after result} (applied : Incremental.completeRun db state.runId state.newest t = some after)
      (ending : (answer = .ok ∧ result = .ok (.completed state.runId state.newest)) ∨
        (answer = .lost ∧ result = .error .query)) :
      ScanMoves gate account pageCap db now answer (.complete state t)
        ⟨after,some (.commit (.completeScan state.runId state.newest t)),.done result⟩
  | broken {answer pc s} (begun : Begun pc)
      (kept : (s.db = db ∧ s.event = none) ∨ ∃ c, Plain c ∧ c.effect db = some s.db ∧ s.event = some (.commit c))
      (after : Broken s.next) : ScanMoves gate account pageCap db now answer pc s

section Steps
variable {gate : BudgetGate} {account : Uuid} {pageCap requestCap : UInt32} {db : Database} {now : DateTime}
  {answer : Answer}

theorem brokenQuiet {pc next : ScanPc} (begun : Begun pc) (after : Broken next) :
    ScanMoves gate account pageCap db now answer pc ⟨db,none,next⟩ :=
  .broken begun (.inl ⟨rfl,rfl⟩) after

theorem brokenBy {pc next : ScanPc} {c after} (begun : Begun pc) (plain : Plain c) (applied : c.effect db = some after)
    (broken : Broken next) : ScanMoves gate account pageCap db now answer pc ⟨after,some (.commit c),next⟩ :=
  .broken begun (.inr ⟨c,plain,applied,rfl⟩) broken

theorem scanMoves {pc : ScanPc} {s} (sound : Sound pc)
    (ok : pc.next gate account pageCap requestCap db now answer = some s) :
    ScanMoves gate account pageCap db now answer pc s := by
  cases pc with
  | load =>
    simp only [ScanPc.next] at ok
    rcases readingCases ok with ⟨rfl,rfl⟩ | ⟨_,rfl⟩
    · cases flag : (loadState db account).2 with
      | true => exact .refused flag
      | false => exact .loaded flag
    · exact .unread
  | create watermark =>
    simp only [ScanPc.next] at ok
    rcases transactCases ok with ⟨after,applied,⟨rfl,rfl⟩ | ⟨_,rfl⟩⟩ | ⟨_,_,rfl⟩ | ⟨_,rfl⟩
    · obtain ⟨⟨_,runId⟩,made,rfl⟩ := Option.map_eq_some_iff.mp applied
      simp only [made,Option.map_some,Option.elim_some]
      exact .created made
    · exact brokenBy (c := .createScan account) trivial trivial applied trivial
    · exact brokenQuiet trivial trivial
    · exact brokenQuiet trivial trivial
  | head state =>
    simp only [ScanPc.next] at ok
    split at ok
    · rename_i capped
      rcases transactCases ok with ⟨after,applied,⟨rfl,rfl⟩ | ⟨rfl,rfl⟩⟩ | ⟨_,none,_⟩ | ⟨_,rfl⟩
      · cases Option.some.inj applied
        exact .gap capped (by simp) (.inl rfl)
      · cases Option.some.inj applied
        exact .gap capped (by simp) (.inr rfl)
      · cases none
      · exact brokenQuiet trivial trivial
    · rename_i under
      split at ok
      · rcases transactCases ok with ⟨after,applied,⟨_,rfl⟩ | ⟨_,rfl⟩⟩ | ⟨_,none,_⟩ | ⟨_,rfl⟩
        · exact brokenBy (c := .stopScan ..) trivial trivial applied trivial
        · exact brokenBy (c := .stopScan ..) trivial trivial applied trivial
        · cases none
        · exact brokenQuiet trivial trivial
      · rcases chargingCases ok with ⟨after,reservation,paid,⟨rfl,rfl⟩ | ⟨_,rfl⟩⟩ | ⟨error,rfl,_⟩
        · exact .charged under paid
        · have applied : Commit.effect (.charge gate account 1 now) db = some after := by
            simp [Commit.effect,paid,Except.toOption]
          exact brokenBy (c := .charge ..) trivial trivial applied trivial
        · exact brokenQuiet trivial (by cases error <;> trivial)
  | fetch state =>
    simp only [ScanPc.next] at ok
    split at ok
    · cases quietCases ok
      exact .fetched
    · cases quietCases ok
      exact brokenQuiet trivial trivial
    · simp at ok
  | compare state page =>
    simp only [ScanPc.next] at ok
    split at ok
    · cases quietCases ok
      exact brokenQuiet trivial trivial
    · rename_i ids normalized
      rcases readingCases ok with ⟨rfl,rfl⟩ | ⟨_,rfl⟩
      · exact .compared normalized
      · exact brokenQuiet trivial trivial
  | observe state page reached t =>
    simp only [ScanPc.next] at ok
    rcases transactCases ok with ⟨after,applied,⟨rfl,rfl⟩ | ⟨_,rfl⟩⟩ | ⟨_,_,rfl⟩ | ⟨_,rfl⟩
    · exact .observed (accepted applied)
    · exact brokenBy (c := .observePage ..) trivial trivial applied trivial
    · exact brokenQuiet trivial trivial
    · exact brokenQuiet trivial trivial
  | stop runId outcome =>
    simp only [ScanPc.next] at ok
    rcases transactCases ok with ⟨after,applied,⟨_,rfl⟩ | ⟨_,rfl⟩⟩ | ⟨_,_,rfl⟩ | ⟨_,rfl⟩
    · exact brokenBy (c := .stopScan ..) trivial trivial applied trivial
    · exact brokenBy (c := .stopScan ..) trivial trivial applied trivial
    · exact brokenQuiet trivial trivial
    · exact brokenQuiet trivial trivial
  | complete state t =>
    simp only [ScanPc.next] at ok
    rcases transactCases ok with ⟨after,applied,⟨rfl,rfl⟩ | ⟨rfl,rfl⟩⟩ | ⟨_,_,rfl⟩ | ⟨_,rfl⟩
    · exact .completed applied (.inl ⟨rfl,rfl⟩)
    · exact .completed applied (.inr ⟨rfl,rfl⟩)
    · exact brokenQuiet trivial trivial
    · exact brokenQuiet trivial trivial
  | fail runId result =>
    cases result with
    | ok value => exact absurd sound id
    | error e =>
      simp only [ScanPc.next] at ok
      rcases transactCases ok with ⟨after,applied,⟨_,rfl⟩ | ⟨_,rfl⟩⟩ | ⟨_,_,rfl⟩ | ⟨_,rfl⟩
      · exact brokenBy (c := .markFailed ..) trivial trivial applied trivial
      · exact brokenBy (c := .markFailed ..) trivial trivial applied trivial
      · exact brokenQuiet trivial trivial
      · exact brokenQuiet trivial trivial
  | done result => simp [ScanPc.next] at ok

theorem plainState {c : Commit} {after} (plain : Plain c) (applied : c.effect db = some after) (account) :
    loadState after account = loadState db account := by
  have agree := frame applied
  cases c with
  | stopScan a runId outcome t =>
    cases Option.some.inj applied
    exact stoppedState db a runId outcome t account
  | createScan | charge | observePage | markFailed => exact loadSame (agree.incrementalState (by simp [touched])) account
  | _ => exact absurd plain id

theorem gapState (runId t) :
    loadState (Incremental.markGap db account runId t) account = ((loadState db account).1,true) := by
  rw [Incremental.markGap,loadUpsert,if_pos rfl]
  unfold loadState
  simp only [markFailed,updateRun]
  cases db.incrementalState.find account <;> rfl

def Owned (db : Database) (runId account : Uuid) : Prop :=
  ∃ row, db.syncRuns.find runId = some row ∧ row.accountId = account

theorem ownedAfter {c : Commit} {after runId} (applied : c.effect db = some after) (owned : Owned db runId account) :
    Owned after runId account := by
  obtain ⟨row,found,mine⟩ := owned
  obtain ⟨row',later,same,_⟩ := runAfter applied found
  simp only [title,Prod.mk.injEq] at same
  exact ⟨row',later,same.2.1.trans mine⟩

theorem createdOwned {after runId} (made : Incremental.createRun db account = some (after,runId)) :
    Owned after runId account := by
  unfold Incremental.createRun at made
  split at made <;> cases made
  exact ⟨_,(openedRun ..).trans (if_pos rfl),rfl⟩

theorem completedState {runId watermark t after} (owned : Owned db runId account)
    (applied : Incremental.completeRun db runId watermark t = some after) :
    loadState after account = (watermark,requires db account) := by
  obtain ⟨row,found,mine⟩ := owned
  obtain ⟨row',found',last⟩ := Option.bind_eq_some_iff.mp applied
  rw [found] at found'
  cases Option.some.inj found'
  cases Option.some.inj last
  rw [loadUpsert,if_pos mine]
  unfold requires loadState
  simp only [updateRun]
  cases db.incrementalState.find account <;> rfl

end Steps

def stateOf : ScanPc → Option ScanState
  | .head state | .fetch state | .compare state _ | .observe state _ _ _ | .complete state _ => some state
  | _ => none

theorem brokenIdle {pc} (broken : Broken pc) : stateOf pc = none ∧ Sound pc := by
  unfold Broken at broken
  split at broken <;> first
    | exact ⟨rfl,trivial⟩
    | exact absurd broken id

/- Where a scan that works alone can be. Before it returns, it has changed nothing of its
account's scan state. -/
inductive Place (start : Database) (account : Uuid) (db : Database) : ScanPc → Prop where
  | entering (same : loadState db account = loadState start account) : Place start account db .load
  | working {pc} (sound : Sound pc) (same : loadState db account = loadState start account)
      (free : requires db account = false) (owned : ∀ state, stateOf pc = some state → Owned db state.runId account) :
      Place start account db pc
  | ending {result} : Place start account db (.done result)

theorem Place.sound {start account db pc} (place : Place start account db pc) : Sound pc := by
  cases place with
  | working sound => exact sound
  | entering | ending => trivial

section Places
variable {gate : BudgetGate} {account : Uuid} {pageCap : UInt32} {start db : Database} {now : DateTime} {answer : Answer}

theorem onwardSound (state page reached now) : Sound (scanOnward state page reached now) := by
  unfold scanOnward
  split
  · trivial
  · split <;> trivial

theorem onwardState {state page reached now found} (there : stateOf (scanOnward state page reached now) = some found) :
    found = {state with pagesFetched := state.pagesFetched + 1, continuation := page.nextToken} := by
  unfold scanOnward at there
  split at there
  · exact (Option.some.inj there).symm
  · split at there
    · cases there
    · exact (Option.some.inj there).symm

theorem Place.plain {c : Commit} {after runId next} (plain : Plain c) (applied : c.effect db = some after)
    (same : loadState db account = loadState start account) (free : requires db account = false)
    (owned : Owned db runId account) (sound : Sound next)
    (held : ∀ state, stateOf next = some state → state.runId = runId) : Place start account after next := by
  have kept := plainState plain applied account
  refine .working sound (kept.trans same) ((congrArg Prod.snd kept).trans free) ?_
  intro state there
  rw [held state there]
  exact ownedAfter applied owned

theorem placeAfter {pc s} (place : Place start account db pc)
    (moves : ScanMoves gate account pageCap db now answer pc s) : Place start account s.db s.next := by
  cases moves with
  | refused | unread | gap | completed => exact .ending
  | loaded free =>
    cases place with
    | entering same => exact .working trivial same free (by simp [stateOf])
    | working _ same _ _ => exact .working trivial same free (by simp [stateOf])
  | @created watermark after runId made =>
    cases place with
    | working _ same free _ =>
      have applied : Commit.effect (.createScan account) db = some after := by simp [Commit.effect,made]
      have kept := plainState (c := .createScan account) trivial applied account
      refine .working trivial (kept.trans same) ((congrArg Prod.snd kept).trans free) ?_
      rintro _ ⟨⟩
      exact createdOwned made
  | @charged state after reservation _ paid =>
    cases place with
    | working _ same free owned =>
      have applied : Commit.effect (.charge gate account 1 now) db = some after := by
        simp [Commit.effect,paid,Except.toOption]
      refine .plain (c := .charge gate account 1 now) trivial applied same free (owned state rfl) trivial ?_
      rintro _ ⟨⟩
      rfl
  | @fetched state page =>
    cases place with
    | working _ same free owned =>
      refine .working trivial same free ?_
      rintro _ ⟨⟩
      exact owned state rfl
  | @compared state page ids normalized =>
    cases place with
    | working _ same free owned =>
      refine .working trivial same free ?_
      rintro _ ⟨⟩
      exact owned state rfl
  | @observed state page reached t after seen =>
    cases place with
    | working _ same free owned =>
      have applied : Commit.effect (.observePage account state.runId page t) db = some after := by
        simp [Commit.effect,seen,Except.toOption]
      refine .plain (c := .observePage account state.runId page t) trivial applied same free (owned state rfl)
        (onwardSound ..) ?_
      intro found there
      rw [onwardState there]
  | broken begun kept after =>
    obtain ⟨idle,sound⟩ := brokenIdle after
    have unheld : ∀ state, stateOf s.next = some state → Owned s.db state.runId account := by
      intro state there
      rw [idle] at there
      cases there
    cases place with
    | entering | ending => exact absurd begun id
    | working _ same free _ =>
      have still : loadState s.db account = loadState db account := by
        rcases kept with ⟨quiet,_⟩ | ⟨c,plain,applied,_⟩
        · rw [quiet]
        · exact plainState plain applied account
      exact .working sound (still.trans same) ((congrArg Prod.snd still).trans free) unheld

theorem watermarkMoves {pc s} (moves : ScanMoves gate account pageCap db now answer pc s) :
    (loadState s.db account).1 = (loadState db account).1 ∨
    ∃ state t after result, pc = .complete state t ∧
      Incremental.completeRun db state.runId state.newest t = some after ∧
      s = ⟨after,some (.commit (.completeScan state.runId state.newest t)),.done result⟩ ∧
      ((answer = .ok ∧ result = .ok (.completed state.runId state.newest)) ∨
        (answer = .lost ∧ result = .error .query)) := by
  cases moves with
  | refused | unread | loaded | fetched | compared => exact .inl rfl
  | created made =>
    exact .inl (congrArg Prod.fst (plainState (c := .createScan account) trivial (by simp [Commit.effect,made]) account))
  | charged _ paid =>
    refine .inl (congrArg Prod.fst (plainState (c := .charge gate account 1 now) trivial ?_ account))
    simp [Commit.effect,paid,Except.toOption]
  | @observed state page _ t _ seen =>
    refine .inl (congrArg Prod.fst (plainState (c := .observePage account state.runId page t) trivial ?_ account))
    simp [Commit.effect,seen,Except.toOption]
  | gap =>
    rw [gapState]
    exact .inl rfl
  | completed applied ending => exact .inr ⟨_,_,_,_,rfl,applied,rfl,ending⟩
  | broken _ kept =>
    rcases kept with ⟨quiet,_⟩ | ⟨c,plain,applied,_⟩
    · rw [quiet]
      exact .inl rfl
    · exact .inl (congrArg Prod.fst (plainState plain applied account))

end Places

section Calls
variable {config : Config} {index : Nat} {call : ScanCall} {start w t : World} {a : Action} {labels : List Action} {pc : ScanPc}

/- The call stands at the control point. -/
def At (index : Nat) (call : ScanCall) (w : World) (pc : ScanPc) : Prop :=
  w.processes[index]? = some (.scan {call with pc := pc})

theorem atUnique {other} (here : At index call w pc) (there : At index call w other) : pc = other := by
  unfold At at here there
  rw [here] at there
  simpa using there

theorem scanTurn (there : At index call w pc) (sound : Sound pc) (alone : Only index w a)
    (taken : World.step config w a = some t) :
    ((∃ now, a = .tick now) ∧ t.db = w.db ∧ At index call t pc) ∨
    ∃ answer s, a = .advance index answer ∧
      ScanMoves config.readGate call.accountId call.pageCap w.db w.now answer pc s ∧ t.db = s.db ∧ At index call t s.next := by
  cases aloneTurn alone taken with
  | @clock now => exact .inl ⟨⟨now,rfl⟩,rfl,there⟩
  | @call answer p s alive found ok =>
    rw [show w.processes[index]? = _ from there] at found
    cases Option.some.inj found
    obtain ⟨r,next,rfl⟩ := Option.map_eq_some_iff.mp ok
    exact .inr ⟨answer,r,rfl,scanMoves sound next,rfl,takeFound there⟩

theorem advanced {answer} (there : At index call w pc) (taken : World.step config w (.advance index answer) = some t) :
    ∃ r, pc.next config.readGate call.accountId call.pageCap call.requestCap w.db w.now answer = some r ∧
      t.db = r.db ∧ At index call t r.next := by
  have alone : Only index w (.advance index answer) := rfl
  cases aloneTurn alone taken with
  | @call _ process s alive found ok =>
    rw [show w.processes[index]? = _ from there] at found
    cases Option.some.inj found
    obtain ⟨r,next,rfl⟩ := Option.map_eq_some_iff.mp ok
    exact ⟨r,next,rfl,takeFound there⟩

def Placed (index : Nat) (call : ScanCall) (start w : World) : Prop :=
  ∃ pc, At index call w pc ∧ Place start.db call.accountId w.db pc

theorem placedStep (placed : Placed index call start w) (alone : Only index w a)
    (taken : World.step config w a = some t) : Placed index call start t := by
  obtain ⟨pc,there,place⟩ := placed
  rcases scanTurn there place.sound alone taken with ⟨_,same,there'⟩ | ⟨answer,s,_,moves,same,there'⟩
  · exact ⟨pc,there',same ▸ place⟩
  · exact ⟨s.next,there',same ▸ placeAfter place moves⟩

theorem placedRun (run : Transition.Run (World.step config) (Only index) start labels w)
    (first : At index call start .load) : Placed index call start w :=
  run.preserves (Placed index call start) (fun _ _ _ placed alone taken => placedStep placed alone taken)
    ⟨.load,first,.entering rfl⟩

theorem overRun {result} (run : Transition.Run (World.step config) (Only index) start labels w)
    (ending : At index call start (.done result)) : w.db = start.db ∧ At index call w (.done result) := by
  refine run.preserves (fun x => x.db = start.db ∧ At index call x (.done result)) ?_ ⟨rfl,ending⟩
  rintro p a q ⟨same,there⟩ alone taken
  rcases scanTurn there trivial alone taken with ⟨_,same',there'⟩ | ⟨_,_,_,moves,_⟩
  · exact ⟨same'.trans same,there'⟩
  · cases moves with
    | broken begun => exact absurd begun id

end Calls

end RatatoskrX.ScanRuns
