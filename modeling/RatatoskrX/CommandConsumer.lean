import RatatoskrX.Foundation.Delivery
import RatatoskrX.CaptureReports

/-! The consumer of browser capture commands over the capture lane. A command is read as often
as its stream hands it out, and leaves the stream by what its delivery came to. -/
namespace RatatoskrX.CommandConsumer
open Schema Envelopes ReadCommitted Transition Delivery Capture CaptureCommits CaptureSteps CaptureReports

abbrev Bytes := List UInt8

/-- DeliveryError::is_permanent -/
def isPermanent : DeliveryError → Bool
  | .command _ => true
  | .invalidTimestamp => true
  | .persistence => false

structure ConsumerReport where
  applied : Nat
  duplicates : Nat
  rejected : Nat
  retryableFailures : Nat
  deriving DecidableEq, Repr

def disposition : Except DeliveryError Capture.Delivery → Option Verdict
  | .ok _ => some .acked
  | .error error => if isPermanent error then some .terminated else none

def ConsumerReport.count (report : ConsumerReport) : Except DeliveryError Capture.Delivery → ConsumerReport
  | .ok .applied => {report with applied := report.applied + 1}
  | .ok .duplicate => {report with duplicates := report.duplicates + 1}
  | .error error =>
    if isPermanent error then {report with rejected := report.rejected + 1}
    else {report with retryableFailures := report.retryableFailures + 1}

def ended : Call → Option (Except DeliveryError Capture.Delivery)
  | .rejected error => some (.error error)
  | .intake _ (.done result) => some result
  | _ => none

section Consumer
variable (d : Deployment) (fromJson : Bytes → Option CommandEnvelope)

/- consume_browser_commands: a payload that is no command is decided before any call. -/
def consumer : Consumer Lane Action Bytes (Except DeliveryError Capture.Delivery) where
  step := Lane.step d
  calls w := w.calls.length
  enters w payload := match fromJson payload with
    | none => (w,some (.error (.command .invalidPayload)))
    | some command => (((w.step d (.deliver command)).getD w),none)
  result w index := (w.calls[index]?).bind ended
  verdict := disposition

def report (w : Desk Lane Bytes (Except DeliveryError Capture.Delivery)) : ConsumerReport :=
  (w.readings.filterMap Reading.counted).foldl ConsumerReport.count ⟨0,0,0,0⟩

end Consumer

/- The command whose inbox row the call holds, the one it found there or put there, and the
one it was the first to put there. -/
def claims : Call → Option Uuid
  | .intake intake .insert => some intake.commandId
  | .intake intake (.commit _ _) => some intake.commandId
  | _ => none

def finds : Call → Option Uuid
  | .intake intake (.done (.ok _)) => some intake.commandId
  | _ => none

def applies : Call → Option Uuid
  | .intake intake (.done (.ok .applied)) => some intake.commandId
  | _ => none

theorem appliesFinds {call command} (applied : applies call = some command) : finds call = some command := by
  unfold applies at applied
  split at applied
  · exact applied
  · simp at applied

structure Boxed (w : Lane) : Prop where
  held : ∀ command x, w.inbox.held command = some x → x.version = some () ∧
    ∃ call, w.calls[x.owner]? = some call ∧ claims call = some command
  claimed : ∀ (index : Nat) call command, w.calls[index]? = some call → claims call = some command →
    w.inbox.held command = some ⟨index,some ()⟩ ∧ w.inbox.committed command = none
  found : ∀ (index : Nat) call command, w.calls[index]? = some call → finds call = some command →
    w.inbox.committed command ≠ none
  once : ∀ (i j : Nat) left right command, w.calls[i]? = some left → w.calls[j]? = some right →
    applies left = some command → applies right = some command → i = j
  agrees : ∀ command, w.inbox.committed command = none ↔ w.commands.committed command = none
  rows : ∀ command id, w.commands.committed command = some id →
    ∃ row, w.captures.committed id = some row ∧ row.commandId = command

theorem boxedEmpty : Boxed Lane.empty := by
  constructor <;> simp [Lane.empty,Store.empty]

section Steps
variable {d : Deployment} {w t u : Lane} {index : Nat} {call call' : Call} {k : Worker}

theorem rowsStay (boxed : Boxed w) (sound : Sound d w) {a} (taken : w.step d a = some t)
    (same : t.commands.committed = w.commands.committed) : ∀ command id, t.commands.committed command = some id →
      ∃ row, t.captures.committed id = some row ∧ row.commandId = command := by
  intro command id there
  rw [same] at there
  obtain ⟨row,found,named⟩ := boxed.rows command id there
  obtain ⟨row',found',command',_⟩ := rowStays (soundStep sound taken).2 found
  exact ⟨row',found',command'.trans named⟩

theorem boxedQuiet (boxed : Boxed w) (found : w.calls[index]? = some call) (calls : t.calls = w.calls.set index call')
    (inbox : t.inbox = w.inbox ∧ claims call = none ∨ t.inbox = w.inbox.abort index) (free_ : claims call' = none)
    (finds_ : ∀ command, finds call' = some command → w.inbox.committed command ≠ none)
    (applies_ : ∀ command, applies call' = some command → applies call = some command)
    (commands : t.commands.committed = w.commands.committed)
    (rows : ∀ command id, t.commands.committed command = some id →
      ∃ row, t.captures.committed id = some row ∧ row.commandId = command) : Boxed t := by
  have committed : t.inbox.committed = w.inbox.committed := by
    rcases inbox with ⟨same,_⟩ | same <;> rw [same]
    rfl
  have holds : ∀ command x, t.inbox.held command = some x ↔ w.inbox.held command = some x ∧ x.owner ≠ index := by
    intro command x
    rcases inbox with ⟨same,none⟩ | same
    · rw [same]
      refine ⟨fun held => ⟨held,?_⟩,And.left⟩
      rintro rfl
      obtain ⟨_,owner,there,claims⟩ := boxed.held command x held
      rw [found] at there
      cases there
      rw [none] at claims
      cases claims
    · rw [same]
      exact Store.abortHeld
  have at_ : ∀ (j : Nat) other, t.calls[j]? = some other → j = index ∧ other = call' ∨ j ≠ index ∧ w.calls[j]? = some other :=
    fun _ _ there => setCases found (calls ▸ there)
  refine ⟨?_,?_,?_,?_,fun command => by rw [committed,commands]; exact boxed.agrees command,rows⟩
  · intro command x held
    obtain ⟨before,apart⟩ := (holds command x).mp held
    obtain ⟨version,owner,there,claims⟩ := boxed.held command x before
    exact ⟨version,owner,by rw [calls,setCall found,if_neg apart]; exact there,claims⟩
  · intro j other command there claims
    rcases at_ j other there with ⟨rfl,rfl⟩ | ⟨apart,before⟩
    · rw [free_] at claims
      cases claims
    · obtain ⟨held,absent⟩ := boxed.claimed j other command before claims
      exact ⟨(holds _ _).mpr ⟨held,apart⟩,committed ▸ absent⟩
  · intro j other command there finds
    rw [committed]
    rcases at_ j other there with ⟨rfl,rfl⟩ | ⟨_,before⟩
    · exact finds_ command finds
    · exact boxed.found j other command before finds
  · intro i j left right command there there' first second
    have old : ∀ (l : Nat) other, t.calls[l]? = some other → applies other = some command →
        ∃ before, w.calls[l]? = some before ∧ applies before = some command := by
      intro l other here applied
      rcases at_ l other here with ⟨rfl,rfl⟩ | ⟨_,before⟩
      · exact ⟨call,found,applies_ command applied⟩
      · exact ⟨other,before,applied⟩
    obtain ⟨a,at_a,first⟩ := old i left there first
    obtain ⟨b,at_b,second⟩ := old j right there' second
    exact boxed.once i j a b command at_a at_b first second

def Touches (w : Lane) (index : Nat) (t : Lane) : Prop :=
  (∃ k, t.calls = w.calls.set index (.worker k)) ∧
    ((t.inbox = w.inbox ∧ t.commands = w.commands) ∨
      (t.inbox = w.inbox.abort index ∧ t.commands = w.commands.abort index) ∨
      (t.inbox = w.inbox.commit index ∧ t.commands = w.commands.commit index))

theorem touchesNext {summary} (calls : u.calls = w.calls)
    (stores : (u.inbox = w.inbox ∧ u.commands = w.commands) ∨
      (u.inbox = w.inbox.abort index ∧ u.commands = w.commands.abort index) ∨
      (u.inbox = w.inbox.commit index ∧ u.commands = w.commands.commit index)) :
    Touches w index (u.next index k summary) := by
  unfold Lane.next
  split
  · exact ⟨⟨_,by rw [← calls]; rfl⟩,stores⟩
  · exact ⟨⟨_,by rw [← calls]; rfl⟩,stores⟩

theorem touchesFail : Touches w index (w.failWorker index k) := ⟨⟨_,rfl⟩,.inr (.inl ⟨rfl,rfl⟩)⟩

theorem touchesLock {capture pc} (taken : w.lockOwnerPost d index k capture pc = some t) : Touches w index t := by
  unfold Lane.lockOwnerPost at taken
  split at taken <;> cases taken
  exact ⟨⟨_,rfl⟩,.inl ⟨rfl,rfl⟩⟩

theorem touchesTerminate {capture failure stage now} (taken : w.terminate d index k capture failure stage now = some t) :
    Touches w index t := by
  cases stage with
  | lock => exact touchesLock taken
  | guard =>
    simp only [Lane.terminate] at taken
    split at taken <;> try contradiction
    · cases taken
      exact touchesFail
    · cases taken
      exact ⟨⟨_,rfl⟩,.inl ⟨rfl,rfl⟩⟩
    · split at taken <;> cases taken <;> exact ⟨⟨_,rfl⟩,.inl ⟨rfl,rfl⟩⟩
  | remove =>
    simp only [Lane.terminate,Lane.removeOwnerSource] at taken
    split at taken <;> try contradiction
    split at taken <;> cases taken <;> exact ⟨⟨_,rfl⟩,.inl ⟨rfl,rfl⟩⟩
  | commit queued =>
    cases taken
    exact touchesNext rfl (.inr (.inr ⟨rfl,rfl⟩))

theorem touchesPreserve {capture post stage now} (taken : w.preserve d index k capture post stage now = some t) :
    Touches w index t := by
  cases stage with
  | lock => exact touchesLock taken
  | select =>
    cases taken
    unfold Lane.selectOwnerSource
    simp only
    split
    · split
      · exact ⟨⟨_,rfl⟩,.inl ⟨rfl,rfl⟩⟩
      · split
        · exact ⟨⟨_,rfl⟩,.inr (.inl ⟨rfl,rfl⟩)⟩
        · exact ⟨⟨_,rfl⟩,.inl ⟨rfl,rfl⟩⟩
    · split
      · exact ⟨⟨_,rfl⟩,.inr (.inl ⟨rfl,rfl⟩)⟩
      · exact ⟨⟨_,rfl⟩,.inl ⟨rfl,rfl⟩⟩
  | upsert sourceId fact snapshot =>
    simp only [Lane.preserve,Lane.upsertOwnerSource] at taken
    split at taken <;> cases taken
    exact ⟨⟨_,rfl⟩,.inl ⟨rfl,rfl⟩⟩
  | guard sourceId queued =>
    simp only [Lane.preserve] at taken
    split at taken <;> cases taken
    · exact touchesFail
    · exact touchesNext rfl (.inr (.inl ⟨rfl,rfl⟩))
    · exact ⟨⟨_,rfl⟩,.inl ⟨rfl,rfl⟩⟩
  | commit queued =>
    cases taken
    exact touchesNext rfl (.inr (.inr ⟨rfl,rfl⟩))

theorem touchesWorker {reply} (taken : w.runDueOnce d index k reply = some t) : Touches w index t := by
  unfold Lane.runDueOnce at taken
  split at taken
  · split at taken <;> cases taken
    exact touchesFail
  · split at taken <;> cases taken <;> exact ⟨⟨_,rfl⟩,.inr (.inr ⟨rfl,rfl⟩)⟩
  · split at taken <;> try contradiction
    unfold Lane.claimDue at taken
    split at taken
    · cases taken
      exact touchesFail
    · split at taken <;> cases taken
      exact touchesNext rfl (.inl ⟨rfl,rfl⟩)
  · split at taken <;> cases taken
    unfold Lane.answered
    repeat' split
    all_goals exact ⟨⟨_,rfl⟩,.inl ⟨rfl,rfl⟩⟩
  · split at taken <;> try contradiction
    · unfold Lane.defer at taken
      repeat' split at taken
      all_goals cases taken
      all_goals first | exact touchesFail | exact touchesNext rfl (.inl ⟨rfl,rfl⟩)
    · exact touchesTerminate taken
    · exact touchesPreserve taken

theorem boxedWorker {reply} (boxed : Boxed w) (sound : Sound d w) (found : w.calls[index]? = some (.worker k))
    (taken : w.step d (.advance index reply) = some t) : Boxed t := by
  have ran : w.runDueOnce d index k reply = some t := by simpa only [Lane.step,found] using taken
  obtain ⟨⟨k',calls⟩,stores⟩ := touchesWorker ran
  have inbox : w.inbox.commit index = w.inbox.abort index := by
    have idle : w.inbox.Idle index := by
      rintro command x held rfl
      obtain ⟨_,call,there,claims⟩ := boxed.held command x held
      rw [found] at there
      cases there
      cases claims
    simp only [Store.commit,Store.abort,funext (Store.idleView idle)]
  have commands : (w.commands.commit index).committed = w.commands.committed := by
    have idle : w.commands.Idle index := by
      rintro command x held rfl
      have written := (sound.calls _ _ found).commands command x held rfl
      cases written
    exact funext (Store.idleView idle)
  have same : t.commands.committed = w.commands.committed := by
    rcases stores with ⟨_,same⟩ | ⟨_,same⟩ | ⟨_,same⟩ <;> rw [same]
    · rfl
    · exact commands
  refine boxedQuiet boxed found calls ?_ rfl (by simp [finds]) (by simp [applies]) same (rowsStay boxed sound taken same)
  rcases stores with ⟨same,_⟩ | ⟨same,_⟩ | ⟨same,_⟩
  · exact .inl ⟨same,rfl⟩
  · exact .inr same
  · exact .inr (same.trans inbox)

section Intakes
variable {intake : Intake}

theorem boxedClaim (boxed : Boxed w) (found : w.calls[index]? = some (.intake intake .claim))
    (first : w.inbox.committed intake.commandId = none) (free_ : w.inbox.Free index intake.commandId) :
    Boxed ({w with inbox := w.inbox.put index intake.commandId (some ())}.set index (.intake intake .insert)) := by
  have unheld : w.inbox.held intake.commandId = none := by
    cases held : w.inbox.held intake.commandId with
    | none => rfl
    | some x =>
      obtain ⟨_,call,there,claims⟩ := boxed.held _ x held
      rw [free_ x held,found] at there
      cases there
      cases claims
  have at_ : ∀ (j : Nat) other, (w.calls.set index (.intake intake .insert))[j]? = some other →
      j = index ∧ other = .intake intake .insert ∨ j ≠ index ∧ w.calls[j]? = some other :=
    fun _ _ => setCases found
  refine ⟨?_,?_,?_,?_,boxed.agrees,boxed.rows⟩
  · intro command x held
    simp only [Lane.set,Store.putHeld] at held ⊢
    split at held
    · rename_i same
      cases held
      exact ⟨rfl,_,by rw [setCall found,if_pos rfl],by rw [same]; rfl⟩
    · obtain ⟨version,call,there,claims⟩ := boxed.held command x held
      refine ⟨version,call,?_,claims⟩
      rw [setCall found,if_neg]
      · exact there
      · intro same
        rw [same,found] at there
        cases there
        cases claims
  · intro j other command there claims
    simp only [Lane.set,Store.putHeld]
    rcases at_ j other there with ⟨rfl,rfl⟩ | ⟨_,before⟩
    · cases claims
      exact ⟨if_pos rfl,first⟩
    · obtain ⟨held,absent⟩ := boxed.claimed j other command before claims
      refine ⟨?_,absent⟩
      rw [if_neg]
      · exact held
      · rintro rfl
        rw [unheld] at held
        cases held
  · intro j other command there finds
    rcases at_ j other there with ⟨rfl,rfl⟩ | ⟨_,before⟩
    · cases finds
    · exact boxed.found j other command before finds
  · intro i j left right command there there' first second
    rcases at_ i left there with ⟨rfl,rfl⟩ | ⟨_,before⟩
    · cases first
    rcases at_ j right there' with ⟨rfl,rfl⟩ | ⟨_,before'⟩
    · cases second
    exact boxed.once i j left right command before before' first second

theorem boxedInsert (boxed : Boxed w) (found : w.calls[index]? = some (.intake intake .insert))
    {captureId queued} (calls : t.calls = w.calls.set index (.intake intake (.commit captureId queued)))
    (inbox : t.inbox = w.inbox) (commands : t.commands.committed = w.commands.committed)
    (rows : ∀ command id, t.commands.committed command = some id →
      ∃ row, t.captures.committed id = some row ∧ row.commandId = command) : Boxed t := by
  have at_ : ∀ (j : Nat) other, t.calls[j]? = some other →
      ∃ before, w.calls[j]? = some before ∧ claims before = claims other ∧ (finds other = none ∧ applies other = none ∨
        other = before) := by
    intro j other there
    rw [calls] at there
    rcases setCases found there with ⟨rfl,rfl⟩ | ⟨_,before⟩
    · exact ⟨_,found,rfl,.inl ⟨rfl,rfl⟩⟩
    · exact ⟨other,before,rfl,.inr rfl⟩
  refine ⟨?_,?_,?_,?_,fun command => by rw [inbox,commands]; exact boxed.agrees command,rows⟩
  · intro command x held
    rw [inbox] at held
    obtain ⟨version,call,there,claims_⟩ := boxed.held command x held
    by_cases same : x.owner = index
    · rw [same,found] at there
      cases there
      have here : t.calls[x.owner]? = some (.intake intake (.commit captureId queued)) := by
        rw [calls,setCall found,if_pos same]
      exact ⟨version,_,here,claims_⟩
    · exact ⟨version,call,by rw [calls,setCall found,if_neg same]; exact there,claims_⟩
  · intro j other command there claims_
    obtain ⟨before,here,same,_⟩ := at_ j other there
    rw [inbox]
    exact boxed.claimed j before command here (same.trans claims_)
  · intro j other command there finds_
    obtain ⟨before,here,_,⟨none,_⟩ | rfl⟩ := at_ j other there
    · rw [none] at finds_
      cases finds_
    · rw [inbox]
      exact boxed.found j other command here finds_
  · intro i j left right command there there' first second
    obtain ⟨a,here,_,⟨_,none⟩ | rfl⟩ := at_ i left there
    · rw [none] at first
      cases first
    obtain ⟨b,here',_,⟨_,none⟩ | rfl⟩ := at_ j right there'
    · rw [none] at second
      cases second
    exact boxed.once i j left right command here here' first second

theorem boxedCommit {captureId queued result} (boxed : Boxed w) (sound : Sound d w)
    (found : w.calls[index]? = some (.intake intake (.commit captureId queued)))
    (result_ : result = .ok .applied ∨ ∃ error, result = .error error) :
    Boxed ((w.commit index queued).set index (.intake intake (.done result))) := by
  obtain ⟨mine,absent⟩ := boxed.claimed index _ _ found rfl
  obtain ⟨_,_,command,⟨now,held⟩,_⟩ := (sound.calls index _ found).sound
  have newInbox : w.inbox.view index = Function.update w.inbox.committed intake.commandId (some ()) := by
    have single : ∀ other x, w.inbox.held other = some x → x.owner = index → other = intake.commandId := by
      intro other x draft own
      obtain ⟨_,call,there,claims⟩ := boxed.held other x draft
      rw [own,found] at there
      cases there
      exact (Option.some.inj claims).symm
    rw [Store.viewUpdate single,Store.viewHeld mine rfl]
  have newCommands : w.commands.view index = Function.update w.commands.committed intake.commandId (some captureId) := by
    have single : ∀ other x, w.commands.held other = some x → x.owner = index → other = intake.commandId :=
      fun other x held own => (Option.some.inj ((sound.calls index _ found).commands other x held own)).symm
    rw [Store.viewUpdate single,Store.viewHeld command rfl]
  have at_ : ∀ (j : Nat) other, (w.calls.set index (.intake intake (.done result)))[j]? = some other →
      j = index ∧ other = .intake intake (.done result) ∨ j ≠ index ∧ w.calls[j]? = some other :=
    fun _ _ => setCases found
  have free_ : claims (.intake intake (.done result)) = none := rfl
  have finds_ : ∀ command, finds (.intake intake (.done result)) = some command → command = intake.commandId := by
    rcases result_ with rfl | ⟨error,rfl⟩ <;> simp [finds,eq_comm]
  refine ⟨?_,?_,?_,?_,?_,?_⟩
  · intro other x held
    obtain ⟨before,apart⟩ := Store.commitHeld.mp held
    obtain ⟨version,call,there,claims⟩ := boxed.held other x before
    exact ⟨version,call,by
      simp only [Lane.set,Lane.commit]
      rw [setCall found,if_neg apart]
      exact there,claims⟩
  · intro j other command' there claims
    rcases at_ j other there with ⟨rfl,rfl⟩ | ⟨apart,before⟩
    · rw [free_] at claims
      cases claims
    · obtain ⟨held',absent'⟩ := boxed.claimed j other command' before claims
      refine ⟨Store.commitHeld.mpr ⟨held',apart⟩,?_⟩
      simp only [Lane.set,Lane.commit,Store.commitCommitted,newInbox]
      rw [Function.update_of_ne]
      · exact absent'
      · rintro rfl
        rw [mine] at held'
        cases held'
        exact apart rfl
  · intro j other command' there finds
    simp only [Lane.set,Lane.commit,Store.commitCommitted,newInbox]
    by_cases same : command' = intake.commandId
    · simp [same]
    · rw [Function.update_of_ne same]
      rcases at_ j other there with ⟨rfl,rfl⟩ | ⟨_,before⟩
      · exact absurd (finds_ command' finds) same
      · exact boxed.found j other command' before finds
  · -- A call that applied the command earlier found it in the inbox, where it was not.
    intro i j left right command' there there' first second
    have fresh : ∀ (l : Nat) other, w.calls[l]? = some other → applies other = some command' →
        command' ≠ intake.commandId := by
      rintro l other before applied rfl
      exact boxed.found l other _ before (appliesFinds applied) absent
    rcases at_ i left there with ⟨rfl,rfl⟩ | ⟨_,before⟩
    · rcases at_ j right there' with ⟨rfl,rfl⟩ | ⟨_,before'⟩
      · rfl
      · exact absurd (finds_ command' (appliesFinds first)) (fresh j right before' second)
    · rcases at_ j right there' with ⟨rfl,rfl⟩ | ⟨_,before'⟩
      · exact absurd (finds_ command' (appliesFinds second)) (fresh i left before first)
      · exact boxed.once i j left right command' before before' first second
  · intro command'
    simp only [Lane.set,Lane.commit,Store.commitCommitted,newInbox,newCommands]
    by_cases same : command' = intake.commandId
    · simp [same]
    · rw [Function.update_of_ne same,Function.update_of_ne same]
      exact boxed.agrees command'
  · intro command' id there
    simp only [Lane.set,Lane.commit,Store.commitCommitted,newCommands,deliveredView sound found held] at there ⊢
    by_cases same : command' = intake.commandId
    · subst same
      rw [Function.update_self] at there
      cases there
      exact ⟨_,Function.update_self ..,rfl⟩
    · rw [Function.update_of_ne same] at there
      obtain ⟨row,before,named⟩ := boxed.rows command' id there
      refine ⟨row,?_,named⟩
      rw [Function.update_of_ne]
      · exact before
      · rintro rfl
        obtain ⟨fresh,_⟩ := (sound.calls index _ found).sound
        rw [fresh] at before
        cases before

theorem boxedIntake {pc reply} (boxed : Boxed w) (sound : Sound d w) (found : w.calls[index]? = some (.intake intake pc))
    (taken : w.step d (.advance index reply) = some t) : Boxed t := by
  have ran : w.persistBrowserCapture index intake pc reply = some t := by simpa only [Lane.step,found] using taken
  have fails : t = w.failIntake index intake → Boxed t := by
    rintro rfl
    exact boxedQuiet boxed found rfl (.inr rfl) rfl (by simp [finds]) (by simp [applies]) rfl (rowsStay boxed sound taken rfl)
  unfold Lane.persistBrowserCapture at ran
  split at ran <;> try contradiction
  · exact fails (Option.some.inj ran).symm
  · unfold Lane.claimInbox at ran
    split at ran
    · rename_i before
      cases ran
      refine boxedQuiet boxed found rfl (.inr rfl) rfl ?_ (by simp [applies]) rfl (rowsStay boxed sound taken rfl)
      rintro command ⟨⟩ none
      rw [none] at before
      cases before
    · rename_i first
      split at ran <;> cases ran
      rename_i free_
      exact boxedClaim boxed found (Option.not_isSome_iff_eq_none.mp first) free_
  · unfold Lane.insertCapture at ran
    split at ran <;> try contradiction
    split at ran
    · exact fails (Option.some.inj ran).symm
    · cases ran
      exact boxedInsert boxed found rfl rfl rfl (rowsStay boxed sound taken rfl)
  · cases ran
    exact boxedCommit boxed sound found (.inl rfl)
  · cases ran
    exact boxedCommit boxed sound found (.inr ⟨_,rfl⟩)

end Intakes

theorem boxedPush (boxed : Boxed w) (none : claims call = none ∧ finds call = none) :
    Boxed {w with calls := w.calls ++ [call]} := by
  have at_ : ∀ (j : Nat) other, (w.calls ++ [call])[j]? = some other → w.calls[j]? = some other ∨ other = call := by
    intro j other there
    rcases List.mem_append.mp (List.mem_of_getElem? there) with _ | new
    · rcases Nat.lt_or_ge j w.calls.length with below | above
      · rw [List.getElem?_append_left below] at there
        exact .inl there
      · rw [List.getElem?_append_right above] at there
        exact .inr (List.mem_singleton.mp (List.mem_of_getElem? there))
    · exact .inr (List.mem_singleton.mp new)
  have unapplied : applies call = Option.none := by
    cases applied : applies call with
    | none => rfl
    | some command =>
      have finds_ := appliesFinds applied
      rw [none.2] at finds_
      cases finds_
  refine ⟨?_,?_,?_,?_,boxed.agrees,boxed.rows⟩
  · intro command x held
    obtain ⟨version,owner,there,claims_⟩ := boxed.held command x held
    exact ⟨version,owner,sentStays [call] there,claims_⟩
  · intro j other command there claims_
    rcases at_ j other there with before | rfl
    · exact boxed.claimed j other command before claims_
    · rw [none.1] at claims_
      cases claims_
  · intro j other command there finds_
    rcases at_ j other there with before | rfl
    · exact boxed.found j other command before finds_
    · rw [none.2] at finds_
      cases finds_
  · intro i j left right command there there' first second
    rcases at_ i left there with before | rfl
    · rcases at_ j right there' with before' | rfl
      · exact boxed.once i j left right command before before' first second
      · rw [unapplied] at second
        cases second
    · rw [unapplied] at first
      cases first

theorem boxedStep {a} (boxed : Boxed w) (sound : Sound d w) (taken : w.step d a = some t) : Boxed t := by
  cases a with
  | deliver command =>
    cases taken
    refine boxedPush boxed ?_
    split <;> exact ⟨rfl,rfl⟩
  | launch policy =>
    cases taken
    exact boxedPush boxed ⟨rfl,rfl⟩
  | advance index reply =>
    cases found : w.calls[index]? with
    | none => simp [Lane.step,found] at taken
    | some call =>
      cases call with
      | rejected error => simp [Lane.step,found] at taken
      | intake intake pc => exact boxedIntake boxed sound found taken
      | worker k => exact boxedWorker boxed sound found taken

/- A delivery that failed may succeed when its command is read again. -/
def Transient (pc : IntakePc) : Prop := ∀ error, pc = .done (.error error) → error = .persistence

/- A step takes a delivery on, unless it has ended. -/
def Follows : Call → Call → Prop
  | .rejected error,.rejected error' => error' = error
  | .intake intake pc,.intake intake' pc' => intake' = intake ∧
      (pc' = pc ∨ (∀ result, pc ≠ .done result) ∧ Transient pc')
  | .worker _,.worker _ => True
  | _,_ => False

theorem followsSame (call : Call) : Follows call call := by
  cases call with
  | rejected error => rfl
  | intake intake pc => exact ⟨rfl,.inl rfl⟩
  | worker k => trivial

theorem followsEnds {result} (follows : Follows call call') (done : ended call = some result) : ended call' = some result := by
  cases call with
  | rejected error => cases call' <;> simp_all [Follows,ended]
  | worker k => simp [ended] at done
  | intake intake pc =>
    cases call' with
    | rejected error => exact follows.elim
    | worker k => exact follows.elim
    | intake intake' pc' =>
      obtain ⟨rfl,rfl | ⟨open_,_⟩⟩ := follows
      · exact done
      · cases pc with
        | done result' => exact absurd rfl (open_ result')
        | _ => simp [ended] at done

theorem intakeFollows {intake pc reply} (taken : w.persistBrowserCapture index intake pc reply = some t) :
    ∃ pc', t.calls = w.calls.set index (.intake intake pc') ∧ (∀ result, pc ≠ .done result) ∧ Transient pc' := by
  unfold Lane.persistBrowserCapture Lane.claimInbox Lane.insertCapture at taken
  repeat' split at taken
  all_goals try contradiction
  all_goals cases taken
  all_goals exact ⟨_,rfl,fun _ => by simp_all,fun _ same => by cases same <;> rfl⟩

theorem callFollows {a} (taken : w.step d a = some t) {i : Nat} (there : w.calls[i]? = some call) :
    ∃ call', t.calls[i]? = some call' ∧ Follows call call' := by
  cases a with
  | deliver command =>
    cases taken
    exact ⟨call,sentStays _ there,followsSame call⟩
  | launch policy =>
    cases taken
    exact ⟨call,sentStays _ there,followsSame call⟩
  | advance index reply =>
    -- The call that moved is the one asked for, or it is another and stays.
    have moves : ∀ {mover next}, w.calls[index]? = some mover → t.calls = w.calls.set index next → Follows mover next →
        ∃ call', t.calls[i]? = some call' ∧ Follows call call' := by
      intro mover next found calls follows
      rw [calls,setCall found]
      by_cases same : i = index
      · subst same
        rw [there] at found
        cases found
        exact ⟨next,if_pos rfl,follows⟩
      · exact ⟨call,(if_neg same).trans there,followsSame call⟩
    simp only [Lane.step] at taken
    split at taken <;> try contradiction
    · rename_i found
      obtain ⟨pc',calls,onward⟩ := intakeFollows taken
      exact moves found calls ⟨rfl,.inr onward⟩
    · rename_i found
      obtain ⟨⟨k',calls⟩,_⟩ := touchesWorker taken
      exact moves found calls trivial

end Steps

section Settled
variable {d : Deployment} {fromJson : Bytes → Option CommandEnvelope}

def Serves (fromJson : Bytes → Option CommandEnvelope) (w : Lane) (index : Nat) (payload : Bytes) : Prop :=
  ∃ command call, fromJson payload = some command ∧ w.calls[index]? = some call ∧
    match accept command with
    | .error error => call = .rejected error
    | .ok intake => ∃ pc, call = .intake intake pc ∧ Transient pc

def Durable (w : Lane) (commandId : Uuid) : Prop :=
  ∃ id row, w.captures.committed id = some row ∧ row.commandId = commandId ∧ reports w.outbox commandId ≠ []

/- Why a message left the stream: its command is durable, or it can never be accepted. -/
def Reason (fromJson : Bytes → Option CommandEnvelope) (w : Lane) (payload : Bytes) : Verdict → Prop
  | .acked => ∃ command intake, fromJson payload = some command ∧ accept command = .ok intake ∧ Durable w intake.commandId
  | .terminated => ∀ command, fromJson payload = some command → ∃ error, accept command = .error error

structure Stands (d : Deployment) (w : Lane) : Prop where
  sound : Sound d w
  boxed : Boxed w
  reported : Reported (archive w)

theorem standsStep {w t : Lane} {a} (stands : Stands d w) (taken : w.step d a = some t) : Stands d t :=
  ⟨(soundStep stands.sound taken).1,boxedStep stands.boxed stands.sound taken,
    reportedCommit stands.reported (soundStep stands.sound taken).2⟩

theorem standsEmpty : Stands d Lane.empty :=
  ⟨soundEmpty d,boxedEmpty,reportedRun (show Run (Lane.step d) free Lane.empty [] Lane.empty from .nil _)⟩

theorem durableFound {w : Lane} (stands : Stands d w) {command} (found : w.inbox.committed command ≠ none) :
    Durable w command := by
  obtain ⟨id,there⟩ := Option.ne_none_iff_exists'.mp (fun absent => found ((stands.boxed.agrees command).mpr absent))
  obtain ⟨row,here,named⟩ := stands.boxed.rows command id there
  refine ⟨id,row,here,named,?_⟩
  have answers : Answers row (reports w.outbox row.commandId) := stands.reported.answers id row here
  rw [← named]
  cases told : reports w.outbox row.commandId with
  | nil =>
    rw [told] at answers
    cases answers
  | cons => simp

theorem durableStep {w t : Lane} {a} (stands : Stands d w) (taken : w.step d a = some t) {command}
    (durable : Durable w command) : Durable t command := by
  obtain ⟨id,row,there,named,told⟩ := durable
  have commit := (soundStep stands.sound taken).2
  obtain ⟨row',there',named',_⟩ := rowStays commit there
  obtain ⟨more,grows⟩ : ∃ more, t.outbox = w.outbox ++ more := outboxGrows commit
  refine ⟨id,row',there',named'.trans named,?_⟩
  rw [grows,reportsAppend]
  exact fun none => told (List.append_eq_nil_iff.mp none).1

def terms (d : Deployment) (fromJson : Bytes → Option CommandEnvelope) : Terms Lane Bytes :=
  ⟨Stands d,fun _ _ => True,Serves fromJson,Reason fromJson⟩

theorem onwardStep {w t : Lane} {a} (stands : Stands d w) (taken : w.step d a = some t) :
    Onward (terms d fromJson) w t := by
  refine ⟨fun _ _ => trivial,?_,?_⟩
  · rintro index payload ⟨command,call,reads,there,begun⟩
    obtain ⟨call',there',follows⟩ := callFollows taken there
    refine ⟨command,call',reads,there',?_⟩
    cases accepts : accept command with
    | error error =>
      rw [accepts] at begun
      subst begun
      cases call' <;> simp_all [Follows]
    | ok intake =>
      rw [accepts] at begun
      obtain ⟨pc,rfl,transient⟩ := begun
      cases call' with
      | intake intake' pc' =>
        refine ⟨pc',by rw [follows.1],?_⟩
        rcases follows.2 with rfl | ⟨_,onward⟩
        · exact transient
        · exact onward
      | rejected error => exact follows.elim
      | worker k => exact follows.elim
  · intro payload verdict reason
    cases verdict with
    | acked =>
      obtain ⟨command,intake,reads,accepts,durable⟩ := reason
      exact ⟨command,intake,reads,accepts,durableStep stands taken durable⟩
    | terminated => exact reason

theorem acceptPermanent {command error} (refused : accept command = .error error) : isPermanent error = true := by
  unfold accept at refused
  repeat' split at refused
  all_goals cases refused
  all_goals rfl

theorem commandJustified : Justified (consumer d fromJson) (terms d fromJson) where
  works stands taken := ⟨standsStep stands taken,onwardStep stands taken⟩
  enters {s payload} stands _ := by
    simp only [consumer]
    cases reads : fromJson payload with
    | none =>
      refine ⟨stands,⟨fun _ _ => trivial,fun _ _ serves => serves,fun _ _ reason => reason⟩,?_⟩
      intro verdict states
      cases states
      intro command other
      rw [reads] at other
      cases other
    | some command =>
      have taken : s.step d (.deliver command) = some ((s.step d (.deliver command)).getD s) := rfl
      refine ⟨standsStep stands taken,onwardStep stands taken,command,_,reads,List.getElem?_concat_length,?_⟩
      cases accept command with
      | error error => rfl
      | ok intake => exact ⟨.claim,rfl,fun _ same => by cases same⟩
  ends {s index payload result verdict} stands serves ends states := by
    obtain ⟨command,call,reads,there,begun⟩ := serves
    simp only [consumer,there,Option.bind_some] at ends
    cases accepts : accept command with
    | error error =>
      rw [accepts] at begun
      subst begun
      cases ends
      have permanent := acceptPermanent accepts
      simp only [consumer,disposition,permanent,if_true] at states
      cases states
      intro other same
      rw [reads] at same
      cases same
      exact ⟨error,accepts⟩
    | ok intake =>
      rw [accepts] at begun
      obtain ⟨pc,rfl,transient⟩ := begun
      cases pc with
      | done result' =>
        cases ends
        cases result with
        | ok delivery =>
          cases states
          exact ⟨command,intake,reads,accepts,durableFound stands (stands.boxed.found index _ _ there rfl)⟩
        | error error =>
          rw [transient error rfl] at states
          cases states
      | _ => simp [ended] at ends

theorem commandNumbered : Numbered (consumer d fromJson) := by
  have lasts : ∀ {s t : Lane} {a}, s.step d a = some t → s.calls.length ≤ t.calls.length ∧
      ∀ (call : Nat) result, (s.calls[call]?).bind ended = some result → (t.calls[call]?).bind ended = some result := by
    intro s t a taken
    constructor
    · refine Nat.le_of_not_lt (fun shorter => ?_)
      obtain ⟨call,there,_⟩ := callFollows taken (List.getElem?_eq_getElem shorter)
      exact absurd (List.getElem?_eq_some_iff.mp there).1 (Nat.lt_irrefl _)
    · intro index result done
      obtain ⟨call,there,done⟩ := Option.bind_eq_some_iff.mp done
      obtain ⟨call',there',follows⟩ := callFollows taken there
      exact Option.bind_eq_some_iff.mpr ⟨call',there',followsEnds follows done⟩
  refine ⟨lasts,?_⟩
  intro s payload
  simp only [consumer]
  cases reads : fromJson payload with
  | none => exact ⟨Nat.le_refl _,by simp,fun _ _ same => same⟩
  | some command =>
    have taken : s.step d (.deliver command) = some ((s.step d (.deliver command)).getD s) := rfl
    refine ⟨(lasts taken).1,fun _ => ?_,(lasts taken).2⟩
    simp [Lane.step]

theorem appliedCall {labels} {w : Desk Lane Bytes (Except DeliveryError Capture.Delivery)}
    (run : Run (Desk.step (consumer d fromJson)) free (Desk.opened Lane.empty) labels w) {r} (member : r ∈ w.readings)
    (applied : r.counted = some (.ok .applied)) {command} (reads : (w.sent[r.message]?).bind fromJson = some command) :
    ∃ index call, r.entry = .inl index ∧ w.service.calls[index]? = some call ∧ applies call = some command.commandId := by
  have tallied := talliedRun commandNumbered run
  have kept := keptRun commandJustified (fun _ _ _ => trivial) run standsEmpty
  rcases tallied.counted r member _ applied with decided | ⟨index,entry,ends⟩
  · obtain ⟨s,payload,same⟩ := tallied.decided r member _ decided
    simp only [consumer] at same
    split at same <;> simp at same
  · obtain ⟨payload,there,served⟩ := kept.readings r member
    rw [entry] at served
    obtain ⟨command',call,reads',here,begun⟩ := served
    simp only [there,Option.bind_some,reads',Option.some.injEq] at reads
    subst reads
    refine ⟨index,call,entry,here,?_⟩
    simp only [consumer,here,Option.bind_some] at ends
    cases accepts : accept command' with
    | error error =>
      rw [accepts] at begun
      subst begun
      cases ends
    | ok intake =>
      rw [accepts] at begun
      obtain ⟨pc,rfl,_⟩ := begun
      have named : intake.commandId = command'.commandId := by
        unfold accept at accepts
        repeat' split at accepts
        all_goals cases accepts
        all_goals rfl
      cases pc with
      | done result =>
        cases ends
        exact congrArg some named
      | _ => simp [ended] at ends

/- Every message that left the stream did so for its reason, and no command is applied twice,
however often it is read and by however many sessions. -/
theorem commandsSettled {labels} {w : Desk Lane Bytes (Except DeliveryError Capture.Delivery)}
    (run : Run (Desk.step (consumer d fromJson)) free (Desk.opened Lane.empty) labels w) :
    (∀ message verdict, (message,verdict) ∈ w.settled →
      ∃ payload, w.sent[message]? = some payload ∧ Reason fromJson w.service payload verdict) ∧
    ∀ (i j : Nat) a b command command', w.readings[i]? = some a → w.readings[j]? = some b →
      a.counted = some (.ok .applied) → b.counted = some (.ok .applied) →
      (w.sent[a.message]?).bind fromJson = some command → (w.sent[b.message]?).bind fromJson = some command' →
      command.commandId = command'.commandId → i = j := by
  have kept := keptRun commandJustified (fun _ _ _ => trivial) run standsEmpty
  refine ⟨fun message verdict settled => kept.settled (message,verdict) settled,?_⟩
  intro i j a b command command' there there' first second reads reads' same
  obtain ⟨k,left,entry,here,applied⟩ := appliedCall run (List.mem_of_getElem? there) first reads
  obtain ⟨l,right,entry',here',applied'⟩ := appliedCall run (List.mem_of_getElem? there') second reads'
  have stands : Stands d w.service := kept.service
  have one : k = l := stands.boxed.once k l left right command.commandId here here' applied (same ▸ applied')
  subst one
  exact (talliedRun commandNumbered run).same there there' entry entry'

/- A command that is read again because its acknowledgement was lost, and a payload that is
no command. -/
def redelivered : List (Label Action Bytes) :=
  let now : Action := .advance 0 (.ok ⟨0,DateTime.epochRepresentable⟩)
  [.publish [7],.publish [0],.receive 0,.work now,.work now,.work now,.settle 0 false,.receive 0,.receive 1,
    .work (.advance 1 (.ok ⟨0,DateTime.epochRepresentable⟩)),.settle 2 true,.settle 1 true]

def readCommand (payload : Bytes) : Option CommandEnvelope :=
  if payload = [7] then
    some ⟨7,some 1,some ⟨.x,.browserExtension,.explicitUserCapture,5,"https://x.com/a/status/42",some ⟨0,DateTime.epochRepresentable⟩⟩⟩
  else none

def redeliveredEnd : Desk Lane Bytes (Except DeliveryError Capture.Delivery) :=
  (replay (Desk.step (consumer plain readCommand)) free (Desk.opened Lane.empty) redelivered).get (by decide +kernel)

theorem commandsSettledAtRedelivery :
    redeliveredEnd.settled = [(1,.terminated),(0,.acked)] ∧ report redeliveredEnd = ⟨1,1,1,0⟩ ∧
      ∃ payload, redeliveredEnd.sent[0]? = some payload ∧ Reason readCommand redeliveredEnd.service payload .acked := by
  have run : Run (Desk.step (consumer plain readCommand)) free (Desk.opened Lane.empty) redelivered redeliveredEnd :=
    replayRun (Option.some_get _).symm
  exact ⟨by decide +kernel,by decide +kernel,(commandsSettled run).1 0 .acked (by decide +kernel)⟩

end Settled

section Drained
variable {d : Deployment} {fromJson : Bytes → Option CommandEnvelope} {w : Lane} {index : Nat} {intake : Intake}

theorem claimFreed (stands : Stands d w) (found : w.calls[index]? = some (.intake intake .claim)) :
    ∃ labels t, Run (Lane.step d) free w labels t ∧ Stands d t ∧ t.calls[index]? = some (.intake intake .claim) ∧
      t.inbox.held intake.commandId = none := by
  cases held : w.inbox.held intake.commandId with
  | none => exact ⟨[],w,.nil w,stands,found,held⟩
  | some x =>
    obtain ⟨_,call,there,claims_⟩ := stands.boxed.held _ x held
    have apart : index ≠ x.owner := by
      intro same
      rw [← same,found] at there
      cases there
      cases claims_
    obtain ⟨other,pc,rfl,open_⟩ : ∃ other pc, call = .intake other pc ∧ ∀ result, pc ≠ .done result := by
      unfold claims at claims_
      split at claims_
      · exact ⟨_,_,rfl,by simp⟩
      · exact ⟨_,_,rfl,by simp⟩
      · contradiction
    have taken : w.step d (.advance x.owner .fault) = some (w.failIntake x.owner other) := by
      simp only [Lane.step,there]
      cases pc with
      | done result => exact absurd rfl (open_ result)
      | _ => rfl
    refine ⟨_,_,.cons trivial taken (.nil _),standsStep stands taken,?_,?_⟩
    · simp only [Lane.failIntake,Lane.set,Lane.rollback]
      rw [setCall there,if_neg apart]
      exact found
    · cases left : (w.failIntake x.owner other).inbox.held intake.commandId with
      | none => rfl
      | some y =>
        obtain ⟨before,elsewhere⟩ := Store.abortHeld.mp left
        rw [held] at before
        cases before
        exact absurd rfl elsewhere

theorem claimRuns (d : Deployment) (now : DateTime) (found : w.calls[index]? = some (.intake intake .claim))
    (unheld : w.inbox.held intake.commandId = none) : ∃ t, w.step d (.advance index (.ok now)) = some t ∧
      (t.calls[index]? = some (.intake intake (.done (.ok .duplicate))) ∨
        t.calls[index]? = some (.intake intake .insert)) := by
  have free_ : w.inbox.Free index intake.commandId := by
    intro x held
    rw [unheld] at held
    cases held
  simp only [Lane.step,found,Lane.persistBrowserCapture,Lane.claimInbox]
  split
  · exact ⟨_,rfl,.inl (by simp only [Lane.set,Lane.rollback]; rw [setCall found,if_pos rfl])⟩
  · exact ⟨_,rfl,.inr (by simp only [Lane.set]; rw [setCall found,if_pos rfl])⟩

theorem insertRuns (now : DateTime) (stands : Stands d w) (found : w.calls[index]? = some (.intake intake .insert)) :
    ∃ t captureId queued, w.step d (.advance index (.ok now)) = some t ∧
      t.calls[index]? = some (.intake intake (.commit captureId queued)) := by
  obtain ⟨mine,absent⟩ := stands.boxed.claimed index _ _ found rfl
  have free_ : w.commands.Free index intake.commandId := by
    intro x held
    obtain ⟨call,there⟩ : ∃ call, w.calls[x.owner]? = some call :=
      ⟨_,List.getElem?_eq_getElem (stands.sound.commandHeld _ x held)⟩
    have written := (stands.sound.calls _ _ there).commands _ x held rfl
    have claims_ : claims call = some intake.commandId := by
      unfold writtenCommand at written
      split at written
      · exact written
      · contradiction
    obtain ⟨held',_⟩ := stands.boxed.claimed _ _ _ there claims_
    rw [mine] at held'
    cases held'
    rfl
  have first : ¬(w.commands.committed intake.commandId).isSome := by
    rw [(stands.boxed.agrees _).mp absent]
    simp
  simp only [Lane.step,found,Lane.persistBrowserCapture,Lane.insertCapture]
  rw [if_pos free_,if_neg first]
  exact ⟨_,_,_,rfl,by simp only [Lane.set]; rw [setCall found,if_pos rfl]⟩

theorem commitRuns (d : Deployment) (now : DateTime) {captureId queued}
    (found : w.calls[index]? = some (.intake intake (.commit captureId queued))) :
    ∃ t, w.step d (.advance index (.ok now)) = some t ∧
      t.calls[index]? = some (.intake intake (.done (.ok .applied))) := by
  simp only [Lane.step,found,Lane.persistBrowserCapture]
  exact ⟨_,rfl,by simp only [Lane.set,Lane.commit]; rw [setCall found,if_pos rfl]⟩

theorem deliveryEnds (stands : Stands d w) (found : w.calls[index]? = some (.intake intake .claim)) :
    ∃ labels t delivery, Run (Lane.step d) free w labels t ∧ Stands d t ∧
      t.calls[index]? = some (.intake intake (.done (.ok delivery))) := by
  have now : DateTime := ⟨0,DateTime.epochRepresentable⟩
  obtain ⟨labels,u,cleared,onward,there,unheld⟩ := claimFreed stands found
  obtain ⟨v,claimed,ended | there⟩ := claimRuns d now there unheld
  · exact ⟨_,v,_,cleared.append (.cons trivial claimed (.nil v)),standsStep onward claimed,ended⟩
  have onward := standsStep onward claimed
  obtain ⟨x,captureId,queued,inserted,there⟩ := insertRuns now onward there
  obtain ⟨y,committed,there⟩ := commitRuns d now there
  exact ⟨_,y,_,cleared.append (.cons trivial claimed (.cons trivial inserted (.cons trivial committed (.nil y)))),
    standsStep (standsStep onward inserted) committed,there⟩

theorem commandSettles (v : Desk Lane Bytes (Except DeliveryError Capture.Delivery)) (message payload)
    (stands : Stands d v.service) (there : v.sent[message]? = some payload) (open_ : ¬v.Settled message) :
    ∃ labels u verdict, Run (Desk.step (consumer d fromJson)) free v labels u ∧ Stands d u.service ∧ u.sent = v.sent ∧
      u.settled = v.settled ++ [(message,verdict)] := by
  cases reads : fromJson payload with
  | none =>
    have decides : ((consumer d fromJson).enters v.service payload) =
        (v.service,some (.error (.command .invalidPayload))) := by simp only [consumer,reads]
    obtain ⟨labels,u,run,service,sent,settled⟩ := settles (c := consumer d fromJson) quietFree there open_ (.nil _)
      (.inl (congrArg Prod.snd decides))
      (show (consumer d fromJson).verdict (.error (.command .invalidPayload)) = some .terminated from rfl)
    refine ⟨labels,u,_,run,?_,sent,settled⟩
    rw [service,decides]
    exact stands
  | some command =>
    let begun : Lane := (v.service.step d (.deliver command)).getD v.service
    have taken : v.service.step d (.deliver command) = some begun := rfl
    have enters : (consumer d fromJson).enters v.service payload = (begun,none) := by simp only [consumer,reads,begun]
    have here : begun.calls[v.service.calls.length]? = some (match accept command with
        | .error error => .rejected error
        | .ok intake => .intake intake .claim) := List.getElem?_concat_length
    have onward := standsStep stands taken
    cases accepts : accept command with
    | error error =>
      rw [accepts] at here
      obtain ⟨labels,u,run,service,sent,settled⟩ := settles (c := consumer d fromJson) quietFree there open_ (.nil _)
        (.inr ⟨congrArg Prod.snd enters,by
          rw [enters]
          simp only [consumer,here,Option.bind_some]
          rfl⟩) (show (consumer d fromJson).verdict (.error error) = some .terminated from if_pos (acceptPermanent accepts))
      refine ⟨labels,u,_,run,?_,sent,settled⟩
      rw [service,enters]
      exact onward
    | ok intake =>
      rw [accepts] at here
      obtain ⟨labels,t,delivery,run,ends,done⟩ := deliveryEnds onward here
      obtain ⟨labels',u,run',service,sent,settled⟩ := settles (c := consumer d fromJson) quietFree (t := t) there open_
        (by rw [enters]; exact run) (.inr ⟨congrArg Prod.snd enters,by
          simp only [consumer,done,Option.bind_some]
          rfl⟩) (show (consumer d fromJson).verdict (.ok delivery) = some .acked from rfl)
      exact ⟨labels',u,_,run',by rw [service]; exact ends,sent,settled⟩

/- Wherever the sessions and the workers stand, the stream can be drained: then every command
that can be accepted is durable, and the others are off the stream. -/
theorem commandsDrain {labels} {v : Desk Lane Bytes (Except DeliveryError Capture.Delivery)}
    (run : Run (Desk.step (consumer d fromJson)) free (Desk.opened Lane.empty) labels v) :
    ∃ labels' u, Run (Desk.step (consumer d fromJson)) free v labels' u ∧ u.sent = v.sent ∧
      ∀ message payload, u.sent[message]? = some payload →
        ∃ verdict, (message,verdict) ∈ u.settled ∧ Reason fromJson u.service payload verdict := by
  have stands : Stands d v.service := (keptRun commandJustified (fun _ _ _ => trivial) run standsEmpty).service
  obtain ⟨labels',u,onward,sent,all⟩ := drains (c := consumer d fromJson) (Stands d)
    (fun v message payload => commandSettles v message payload) stands
  refine ⟨labels',u,onward,sent,?_⟩
  intro message payload there
  obtain ⟨⟨_,verdict⟩,settled,rfl⟩ := List.mem_map.mp (all message (List.getElem?_eq_some_iff.mp there).1)
  have kept := keptRun commandJustified (fun _ _ _ => trivial) (run.append onward) standsEmpty
  obtain ⟨payload',there',reason⟩ := kept.settled _ settled
  rw [there] at there'
  cases there'
  exact ⟨verdict,settled,reason⟩

def stopped : Desk Lane Bytes (Except DeliveryError Capture.Delivery) :=
  (replay (Desk.step (consumer plain readCommand)) free (Desk.opened Lane.empty) (redelivered.take 5)).get (by decide +kernel)

theorem commandsDrainAtStop : ∃ labels u, Run (Desk.step (consumer plain readCommand)) free stopped labels u ∧
    ∃ verdict, (0,verdict) ∈ u.settled ∧ Reason readCommand u.service [7] verdict := by
  have run : Run (Desk.step (consumer plain readCommand)) free (Desk.opened Lane.empty) (redelivered.take 5) stopped :=
    replayRun (Option.some_get _).symm
  obtain ⟨labels,u,onward,sent,drained⟩ := commandsDrain run
  exact ⟨labels,u,onward,drained 0 [7] (sent ▸ by decide +kernel)⟩

end Drained
end RatatoskrX.CommandConsumer
