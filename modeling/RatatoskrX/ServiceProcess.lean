import Mathlib.Data.List.Induction
import Mathlib.Logic.Function.Basic
import RatatoskrX.Foundation.Progress

/-! The process of the service: its bootstrap, the five bus tasks, the readiness that the admin
listener answers and the way out. The thread of `run`, each task, the relay's reports of its
health and each load of a readiness request are steps of their own, in any interleaving. -/
namespace RatatoskrX.ServiceProcess
open Transition Progress

inductive BootstrapError where
  | config | telemetry | persistence | natsSeed
  | nats (text : String)
  | bearerToken | bearerTokenEmpty | extraCa
  | publicCapture (text : String)
  | busTask (reason : String)
  | listener
  deriving DecidableEq, Repr

def BootstrapError.exitCode : BootstrapError → Nat
  | .config => 78
  | .bearerToken => 78
  | .bearerTokenEmpty => 78
  | .extraCa => 78
  | .telemetry => 1
  | .persistence => 1
  | .natsSeed => 1
  | .nats _ => 1
  | .publicCapture _ => 1
  | .busTask _ => 1
  | .listener => 1

def exitStatus : Except BootstrapError Unit → Nat
  | .ok () => 0
  | .error error => error.exitCode

section Runtime

inductive Lifecycle where | starting | ready | draining
  deriving DecidableEq, Repr

inductive BusCheck where | unconfigured | up | down
  deriving DecidableEq, Repr

structure RuntimeState where
  lifecycle : Lifecycle
  databaseReady : Bool
  bus : BusCheck
  deriving DecidableEq, Repr

def busCheck (ready : Bool) : BusCheck := if ready then .up else .down

namespace RuntimeState

def new : RuntimeState := ⟨.starting,false,.unconfigured⟩

def markDatabaseReady (s : RuntimeState) : RuntimeState := {s with databaseReady := true}

def setBusReady (s : RuntimeState) (ready : Bool) : RuntimeState := {s with bus := busCheck ready}

def setReady (s : RuntimeState) : RuntimeState := {s with lifecycle := .ready}

def beginDrain (s : RuntimeState) : RuntimeState := {s with lifecycle := .draining}

def isDraining (s : RuntimeState) : Bool := s.lifecycle = .draining

end RuntimeState

structure CheckStatus where
  name : String
  ready : Bool
  deriving DecidableEq, Repr

/- The verdict of the three loads, in the order of the source. -/
def readiness (database : Bool) (bus : BusCheck) (draining : Bool) : Bool × List CheckStatus :=
  match bus with
  | .unconfigured => (!draining && database,[⟨"database",database⟩])
  | state => (!draining && (database && state = .up),[⟨"database",database⟩,⟨"bus",state = .up⟩])

structure Response where
  status : Nat
  state : String
  checks : List CheckStatus
  deriving DecidableEq, Repr

def ready (verdict : Bool × List CheckStatus) : Response :=
  if verdict.1 then ⟨200,"ready",verdict.2⟩ else ⟨503,"not_ready",verdict.2⟩

/- A request for readiness, by its loads. -/
inductive ProbePc where
  | database
  | bus (met : Bool)
  | lifecycle (met : Bool) (check : BusCheck)
  | answered (response : Response)
  deriving DecidableEq, Repr

def ProbePc.load (s : RuntimeState) : ProbePc → ProbePc
  | .database => .bus s.databaseReady
  | .bus met => .lifecycle met s.bus
  | .lifecycle met check => .answered (ready (readiness met check s.isDraining))
  | .answered response => .answered response

end Runtime

section Process

inductive Task where | browserCaptureConsumer | extractorReportConsumer | deletionAckConsumer | publicCaptureWorker | outboxRelay
  deriving DecidableEq, Repr

def Task.name : Task → String
  | .browserCaptureConsumer => "browser_capture_consumer"
  | .extractorReportConsumer => "extractor_report_consumer"
  | .deletionAckConsumer => "deletion_ack_consumer"
  | .publicCaptureWorker => "public_capture_worker"
  | .outboxRelay => "outbox_relay"

def Task.all : List Task :=
  [.browserCaptureConsumer,.extractorReportConsumer,.deletionAckConsumer,.publicCaptureWorker,.outboxRelay]

/- What join_next says of a task that stopped. -/
inductive TaskEnd where
  | returned
  | failed (error : String)
  | panicked (error : String)
  deriving DecidableEq, Repr

def describeExit (task : Task) : TaskEnd → String
  | .returned => task.name ++ " returned"
  | .failed error => task.name ++ " failed: " ++ error
  | .panicked error => "a bus task panicked or was cancelled: " ++ error

inductive TaskState where
  | unspawned | running
  | ended (exit : TaskEnd)
  | joined | aborted
  deriving DecidableEq, Repr

/- The points of the relay's loop. -/
inductive RelayPc where
  | pass
  | report (healthy : Bool)
  | pause
  deriving DecidableEq, Repr

inductive Stage where
  | loadConfig | readBearerToken | installTelemetry | connectDatabase | connectBus | verifyDurables | spawnBusTasks | bindListener
  deriving DecidableEq, Repr

def Stage.fails : Stage → BootstrapError → Bool
  | .loadConfig,.config => true
  | .readBearerToken,.config => true
  | .readBearerToken,.bearerToken => true
  | .readBearerToken,.bearerTokenEmpty => true
  | .installTelemetry,.telemetry => true
  | .connectDatabase,.persistence => true
  | .connectBus,.natsSeed => true
  | .connectBus,.nats _ => true
  | .verifyDurables,.nats _ => true
  | .spawnBusTasks,.extraCa => true
  | .spawnBusTasks,.publicCapture _ => true
  | .bindListener,.listener => true
  | _,_ => false

/- The points of `run`, and of the shutdown that it passes to the listener. -/
inductive MainPc where
  | boot (stage : Stage)
  | serving
  | leave (task : Task) (exit : TaskEnd)
  | grace
  | beginDrain
  | sendStop
  | finishServing
  | drainTasks
  | exited (result : Except BootstrapError Unit)

/- What was written of the bus check and of the shutdown; no statement reads it. -/
inductive Event where
  | started
  | reported (healthy : Bool)
  | signaled
  | noticed (task : Task) (exit : TaskEnd)
  | draining
  deriving DecidableEq, Repr

structure Probe where
  began : Nat
  pc : ProbePc
  deriving DecidableEq, Repr

structure World where
  main : MainPc
  runtime : RuntimeState
  stop : Bool
  tasks : Task → TaskState
  relay : RelayPc
  failure : Option String
  probes : List Probe
  history : List Event

inductive Label where
  | boot (failure : Option BootstrapError)
  | signal
  | nextExit (task : Task)
  | main
  | joinNext (task : Task)
  | drained
  | timeout
  | taskEnds (task : Task) (exit : TaskEnd)
  | pass (result : Except String Bool)
  | report
  | wake
  | request
  | load (probe : Nat)

namespace World

def opened : World := ⟨.boot .loadConfig,.new,false,fun _ => .unspawned,.pass,none,[],[]⟩

def setTask (w : World) (task : Task) (state : TaskState) : World := {w with tasks := Function.update w.tasks task state}

def dropTasks (w : World) : World :=
  {w with tasks := fun task => match w.tasks task with
    | .running => .aborted
    | state => state}

def exit (w : World) (result : Except BootstrapError Unit) : World := {w.dropTasks with main := .exited result}

def bootOnward (w : World) : Stage → World
  | .loadConfig => {w with main := .boot .readBearerToken}
  | .readBearerToken => {w with main := .boot .installTelemetry}
  | .installTelemetry => {w with main := .boot .connectDatabase}
  | .connectDatabase => {w with main := .boot .connectBus}
  | .connectBus => {w with main := .boot .verifyDurables}
  | .verifyDurables =>
    {w with
      main := .boot .spawnBusTasks
      runtime := w.runtime.markDatabaseReady.setBusReady true
      history := w.history ++ [.started]}
  | .spawnBusTasks => {w with main := .boot .bindListener, tasks := fun _ => .running}
  | .bindListener => {w with main := .serving, runtime := w.runtime.setReady}

def shutdown (w : World) : Option World :=
  match w.main with
  | .leave task exit => some {w with
      main := .grace
      runtime := w.runtime.setBusReady false
      failure := some (describeExit task exit)
      history := w.history ++ [.noticed task exit]}
  | .grace => some {w with main := .beginDrain}
  | .beginDrain => some {w with main := .sendStop, runtime := w.runtime.beginDrain, history := w.history ++ [.draining]}
  | .sendStop => some {w with main := .finishServing, stop := true}
  -- axum::serve returns here; its documentation says that it never yields the error `run` would pass on
  | .finishServing => some {w with main := .drainTasks}
  | _ => none

/- The listener answers until its last connection is finished. -/
def Listening (w : World) : Prop :=
  match w.main with
  | .boot _ => False
  | .drainTasks => False
  | .exited _ => False
  | _ => True

instance (w : World) : Decidable w.Listening := by unfold Listening; split <;> infer_instance

def outcome (w : World) : Except BootstrapError Unit :=
  match w.failure with
  | none => .ok ()
  | some reason => .error (.busTask reason)

/- A task other than the relay returns without an error only once it is told to stop; any task
may panic. -/
def MayEnd (w : World) (task : Task) : TaskEnd → Prop
  | .returned => task ≠ .outboxRelay ∧ w.stop = true
  | .failed _ => task ≠ .outboxRelay
  | .panicked _ => True

instance (w : World) (task exit) : Decidable (w.MayEnd task exit) := by unfold MayEnd; split <;> infer_instance

def AllJoined (w : World) : Prop := ∀ task ∈ Task.all, w.tasks task = .joined

instance (w : World) : Decidable w.AllJoined := by unfold AllJoined; infer_instance

def step (w : World) : Label → Option World
  | .boot failure => match w.main with
    | .boot stage => match failure with
      | none => some (w.bootOnward stage)
      | some error => if stage.fails error then some (w.exit (.error error)) else none
    | _ => none
  | .signal => match w.main with
    | .serving => some {w with main := .beginDrain, history := w.history ++ [.signaled]}
    | _ => none
  | .nextExit task => match w.main,w.tasks task with
    | .serving,.ended exit => some {w.setTask task .joined with main := .leave task exit}
    | _,_ => none
  | .main => w.shutdown
  | .joinNext task => match w.main,w.tasks task with
    | .drainTasks,.ended _ => some (w.setTask task .joined)
    | _,_ => none
  | .drained => match w.main with
    | .drainTasks => if w.AllJoined then some (w.exit w.outcome) else none
    | _ => none
  | .timeout => match w.main with
    | .drainTasks => if w.AllJoined then none else some (w.exit w.outcome)
    | _ => none
  | .taskEnds task exit => if w.tasks task = .running ∧ w.MayEnd task exit then some (w.setTask task (.ended exit)) else none
  | .pass result => if w.tasks .outboxRelay = .running ∧ w.relay = .pass then
      match result with
      | .ok healthy => some {w with relay := .report healthy}
      | .error error => some (w.setTask .outboxRelay (.ended (.failed error)))
    else none
  | .report => match w.tasks .outboxRelay,w.relay with
    | .running,.report healthy => some {w with
        relay := .pause
        runtime := w.runtime.setBusReady healthy
        history := w.history ++ [.reported healthy]}
    | _,_ => none
  | .wake => if w.tasks .outboxRelay = .running ∧ w.relay = .pause then
      if w.stop then some (w.setTask .outboxRelay (.ended .returned)) else some {w with relay := .pass}
    else none
  | .request => if w.Listening then some {w with probes := w.probes ++ [⟨w.history.length,.database⟩]} else none
  | .load probe => if w.Listening then (w.probes[probe]?).map (fun p =>
      {w with probes := w.probes.set probe {p with pc := p.pc.load w.runtime}}) else none

end World
end Process

section Records

def Event.bus : Event → Option BusCheck
  | .started => some .up
  | .reported healthy => some (busCheck healthy)
  | .signaled => none
  | .noticed _ _ => some .down
  | .draining => none

def busSaid (history : List Event) : BusCheck := (history.filterMap Event.bus).getLast?.getD .unconfigured

def Event.marks : Event → Bool
  | .reported _ => false
  | _ => true

def marks (history : List Event) : List Event := history.filter Event.marks

variable {history : List Event} {e : Event}

@[simp] theorem busSaidSnoc : busSaid (history ++ [e]) = e.bus.getD (busSaid history) := by
  unfold busSaid
  cases wrote : e.bus <;> simp [wrote]

@[simp] theorem marksAppend (more : List Event) : marks (history ++ more) = marks history ++ marks more := List.filter_append ..

theorem memMarks (own : e.marks = true) : e ∈ marks history ↔ e ∈ history := by
  simp [marks,own]

/- A task that stops by itself, without being told. -/
def Faulty (exit : TaskEnd) : Prop := exit ≠ .returned

/- Once the relay is noticed to have stopped, it reports no more. -/
def Silent (history : List Event) : Prop :=
  ∀ before after exit, history = before ++ .noticed .outboxRelay exit::after → ∀ healthy, .reported healthy ∉ after

theorem silentSnoc (silent : Silent history)
    (still : ∀ healthy exit, e = .reported healthy → .noticed .outboxRelay exit ∉ history) : Silent (history ++ [e]) := by
  intro before after exit cut healthy member
  rcases List.eq_nil_or_concat after with rfl | ⟨rest,last,rfl⟩
  · cases member
  have same : history ++ [e] = (before ++ .noticed .outboxRelay exit::rest) ++ [last] := by simpa using cut
  obtain ⟨whole,ends⟩ := List.append_inj' same rfl
  cases ends
  rcases List.mem_append.mp (List.concat_eq_append ▸ member) with earlier | new
  · exact silent before rest exit whole healthy earlier
  · exact still healthy exit (List.mem_singleton.mp new).symm (by simp [whole])

/- What a request for readiness loaded: the bus check that a first part of the history left, and
whether a part as long or longer drains. -/
def Loaded (history : List Event) (began : Nat) : ProbePc → Prop
  | .database => True
  | .bus met => met = true
  | .lifecycle met check => met = true ∧ ∃ n, began ≤ n ∧ n ≤ history.length ∧ check = busSaid (history.take n)
  | .answered response => ∃ n m, began ≤ n ∧ n ≤ m ∧ m ≤ history.length ∧
      response = ready (readiness true (busSaid (history.take n)) (decide (.draining ∈ history.take m)))

def Read (history : List Event) (p : Probe) : Prop :=
  .started ∈ history.take p.began ∧ p.began ≤ history.length ∧ Loaded history p.began p.pc

theorem readLater {p} (more : List Event) (read : Read history p) : Read (history ++ more) p := by
  obtain ⟨started,began,loaded⟩ := read
  have longer : history.length ≤ (history ++ more).length := by simp
  have same : ∀ {n}, n ≤ history.length → (history ++ more).take n = history.take n := List.take_append_of_le_length
  refine ⟨by rw [same began]; exact started,Nat.le_trans began longer,?_⟩
  cases at_ : p.pc with
  | database => trivial
  | bus met =>
    rw [at_] at loaded
    exact loaded
  | lifecycle met check =>
    rw [at_] at loaded
    obtain ⟨ok,n,after,inside,said⟩ := loaded
    exact ⟨ok,n,after,Nat.le_trans inside longer,by rw [same inside]; exact said⟩
  | answered response =>
    rw [at_] at loaded
    obtain ⟨n,m,after,later,inside,said⟩ := loaded
    exact ⟨n,m,after,later,Nat.le_trans inside longer,by rw [same (Nat.le_trans later inside),same inside]; exact said⟩

end Records

section Invariant
variable {w t : World}

/- Why the shutdown began, and the failure that it left. -/
def Cause (failure : Option String) : Event → Prop
  | .signaled => failure = none
  | .noticed task exit => Faulty exit ∧ failure = some (describeExit task exit)
  | _ => False

def Stage.early : Stage → Bool
  | .spawnBusTasks => false
  | .bindListener => false
  | _ => true

/- What each point of `run` says of what was written. -/
def Course (w : World) : Prop :=
  match w.main with
  | .boot stage => w.stop = false ∧ w.failure = none ∧ w.probes = [] ∧
      (stage.early = true → w.history = [] ∧ ∀ task, w.tasks task = .unspawned) ∧
      (stage.early = false → marks w.history = [.started])
  | .serving => w.stop = false ∧ w.failure = none ∧ marks w.history = [.started]
  | .leave task exit => w.stop = false ∧ marks w.history = [.started] ∧ Faulty exit ∧ w.tasks task ≠ .running
  | .grace => w.stop = false ∧ ∃ cause, Cause w.failure cause ∧ marks w.history = [.started,cause]
  | .beginDrain => w.stop = false ∧ ∃ cause, Cause w.failure cause ∧ marks w.history = [.started,cause]
  | .sendStop => w.stop = false ∧ ∃ cause, Cause w.failure cause ∧ marks w.history = [.started,cause,.draining]
  | .finishServing => ∃ cause, Cause w.failure cause ∧ marks w.history = [.started,cause,.draining]
  | .drainTasks => ∃ cause, Cause w.failure cause ∧ marks w.history = [.started,cause,.draining]
  | .exited result => (∀ task, w.tasks task ≠ .running) ∧
      ((∃ cause, Cause w.failure cause ∧ marks w.history = [.started,cause,.draining] ∧ result = w.outcome) ∨
        ∃ error, result = .error error ∧ (∀ reason, error ≠ .busTask reason) ∧ w.probes = [] ∧
          (marks w.history = [] ∨ marks w.history = [.started]))

structure Sound (w : World) : Prop where
  bus : w.runtime.bus = busSaid w.history
  draining : w.runtime.lifecycle = .draining ↔ .draining ∈ w.history
  database : .started ∈ w.history → w.runtime.databaseReady = true
  probes : ∀ p ∈ w.probes, Read w.history p
  silent : Silent w.history
  stopped : ∀ exit, .noticed .outboxRelay exit ∈ w.history → w.tasks .outboxRelay ≠ .running
  faulty : w.stop = false → ∀ task exit, w.tasks task = .ended exit → Faulty exit
  course : Course w

theorem soundOpened : Sound World.opened := by
  refine ⟨rfl,by simp [World.opened,RuntimeState.new],by simp [World.opened],by simp [World.opened],?_,by simp [World.opened],
    by simp [World.opened],rfl,rfl,rfl,fun _ => ⟨rfl,fun _ => rfl⟩,nofun⟩
  intro before after exit cut
  simp [World.opened] at cut

theorem causeApart {failure} {cause : Event} (why : Cause failure cause) :
    Event.started ∉ [cause] ∧ Event.started ∉ [cause,.draining] := by
  cases cause with
  | started => exact absurd why id
  | _ => simp

theorem courseOpens (course : Course w) :
    (marks w.history = [] ∧ ¬w.Listening) ∨ ∃ rest, marks w.history = .started::rest ∧ .started ∉ rest := by
  unfold Course at course
  cases at_ : w.main with
  | boot stage =>
    simp only [at_] at course
    obtain ⟨-,-,-,early,late⟩ := course
    cases before : stage.early with
    | true => exact .inl ⟨by simp [(early before).1,marks],by simp [World.Listening,at_]⟩
    | false => exact .inr ⟨[],late before,by simp⟩
  | serving =>
    simp only [at_] at course
    exact .inr ⟨[],course.2.2,by simp⟩
  | leave task exit =>
    simp only [at_] at course
    exact .inr ⟨[],course.2.1,by simp⟩
  | grace =>
    simp only [at_] at course
    obtain ⟨-,cause,why,written⟩ := course
    exact .inr ⟨_,written,(causeApart why).1⟩
  | beginDrain =>
    simp only [at_] at course
    obtain ⟨-,cause,why,written⟩ := course
    exact .inr ⟨_,written,(causeApart why).1⟩
  | sendStop =>
    simp only [at_] at course
    obtain ⟨-,cause,why,written⟩ := course
    exact .inr ⟨_,written,(causeApart why).2⟩
  | finishServing =>
    simp only [at_] at course
    obtain ⟨cause,why,written⟩ := course
    exact .inr ⟨_,written,(causeApart why).2⟩
  | drainTasks =>
    simp only [at_] at course
    obtain ⟨cause,why,written⟩ := course
    exact .inr ⟨_,written,(causeApart why).2⟩
  | exited result =>
    simp only [at_] at course
    rcases course.2 with ⟨cause,why,written,-⟩ | ⟨-,-,-,-,written | written⟩
    · exact .inr ⟨_,written,(causeApart why).2⟩
    · exact .inl ⟨written,by simp [World.Listening,at_]⟩
    · exact .inr ⟨[],written,by simp⟩

theorem listeningStarted (sound : Sound w) (listening : w.Listening) : .started ∈ w.history := by
  rcases courseOpens sound.course with ⟨-,deaf⟩ | ⟨rest,written,-⟩
  · exact absurd listening deaf
  · exact (memMarks rfl).mp (by simp [written])

/- A step of a task, of the relay or of a request: it leaves the thread of `run` where it is. -/
structure Aside (w t : World) : Prop where
  main : t.main = w.main
  stop : t.stop = w.stop
  failure : t.failure = w.failure
  lifecycle : t.runtime.lifecycle = w.runtime.lifecycle
  database : t.runtime.databaseReady = w.runtime.databaseReady
  tasks : ∀ task, t.tasks task = w.tasks task ∨
    w.tasks task = .running ∧ ∃ exit, t.tasks task = .ended exit ∧ (w.stop = false → Faulty exit)
  history : t.history = w.history ∧ t.runtime.bus = w.runtime.bus ∨
    ∃ healthy, w.tasks .outboxRelay = .running ∧ t.history = w.history ++ [.reported healthy] ∧ t.runtime.bus = busCheck healthy
  probes : t.probes = w.probes ∨ w.Listening ∧ t.history = w.history ∧ ∀ p ∈ t.probes, Read w.history p

theorem asideMarks (aside : Aside w t) : marks t.history = marks w.history := by
  rcases aside.history with ⟨same,-⟩ | ⟨healthy,-,more,-⟩
  · rw [same]
  · simp [more,marks,Event.marks]

theorem asideIdle (aside : Aside w t) {task} (idle : w.tasks task ≠ .running) : t.tasks task = w.tasks task := by
  rcases aside.tasks task with same | ⟨running,-⟩
  · exact same
  · exact absurd running idle

theorem asideCourse (aside : Aside w t) (course : Course w) : Course t := by
  have marked := asideMarks aside
  have unasked : ¬w.Listening → t.probes = w.probes := fun deaf => aside.probes.resolve_right (fun asked => deaf asked.1)
  unfold Course at course ⊢
  rw [aside.main,aside.stop,aside.failure,marked]
  cases at_ : w.main with
  | boot stage =>
    simp only [at_] at course ⊢
    obtain ⟨stop,failure,probes,early,late⟩ := course
    refine ⟨stop,failure,(unasked (by simp [World.Listening,at_])).trans probes,fun before => ?_,late⟩
    obtain ⟨empty,unspawned⟩ := early before
    refine ⟨?_,fun task => (asideIdle aside (by simp [unspawned])).trans (unspawned task)⟩
    rcases aside.history with ⟨same,-⟩ | ⟨healthy,running,-⟩
    · exact same.trans empty
    · exact absurd running (by simp [unspawned])
  | leave task exit =>
    simp only [at_] at course ⊢
    obtain ⟨stop,wrote,fault,idle⟩ := course
    exact ⟨stop,wrote,fault,(asideIdle aside idle).symm ▸ idle⟩
  | exited result =>
    simp only [at_] at course ⊢
    obtain ⟨idle,ends⟩ := course
    refine ⟨fun task => (asideIdle aside (idle task)).symm ▸ idle task,?_⟩
    simpa only [World.outcome,aside.failure,unasked (by simp [World.Listening,at_])] using ends
  | _ => simpa only [at_] using course

theorem asideSound (sound : Sound w) (aside : Aside w t) : Sound t := by
  have noticed : ∀ {task exit}, .noticed task exit ∈ t.history ↔ .noticed task exit ∈ w.history := by
    intro task exit
    rw [← memMarks rfl,asideMarks aside,memMarks rfl]
  refine ⟨?_,?_,?_,?_,?_,?_,?_,asideCourse aside sound.course⟩
  · rcases aside.history with ⟨same,bus⟩ | ⟨healthy,-,more,bus⟩
    · rw [same,bus,sound.bus]
    · rw [more,bus,busSaidSnoc]
      rfl
  · rw [aside.lifecycle,sound.draining,← memMarks rfl,← asideMarks aside,memMarks rfl]
  · rw [aside.database,← memMarks rfl,asideMarks aside,memMarks rfl]
    exact sound.database
  · intro p member
    rcases aside.probes with same | ⟨-,same,read⟩
    · rw [same] at member
      rcases aside.history with ⟨same,-⟩ | ⟨healthy,-,more,-⟩
      · rw [same]
        exact sound.probes p member
      · rw [more]
        exact readLater _ (sound.probes p member)
    · rw [same]
      exact read p member
  · rcases aside.history with ⟨same,-⟩ | ⟨healthy,running,more,-⟩
    · rw [same]
      exact sound.silent
    · rw [more]
      exact silentSnoc sound.silent (fun _ exit _ seen => sound.stopped exit seen running)
  · intro exit seen
    have idle := sound.stopped exit (noticed.mp seen)
    exact (asideIdle aside idle).symm ▸ idle
  · intro unstopped task exit ended
    rw [aside.stop] at unstopped
    rcases aside.tasks task with same | ⟨-,_,ended',fault⟩
    · exact sound.faulty unstopped task exit (same ▸ ended)
    · rw [ended] at ended'
      cases ended'
      exact fault unstopped

theorem soundMoves (sound : Sound w) (written : Option Event) (history : t.history = w.history ++ written.toList)
    (own : ∀ e ∈ written, e.marks = true) (probes : t.probes = w.probes) (bus : t.runtime.bus = busSaid t.history)
    (draining : t.runtime.lifecycle = .draining ↔ .draining ∈ t.history)
    (database : .started ∈ t.history → t.runtime.databaseReady = true)
    (stopped : ∀ exit, .noticed .outboxRelay exit ∈ t.history → t.tasks .outboxRelay ≠ .running)
    (faulty : t.stop = false → ∀ task exit, t.tasks task = .ended exit → Faulty exit) (course : Course t) : Sound t := by
  refine ⟨bus,draining,database,?_,?_,stopped,faulty,course⟩
  · intro p member
    rw [history]
    exact readLater _ (sound.probes p (probes ▸ member))
  · rw [history]
    cases written with
    | none => simpa using sound.silent
    | some e =>
      refine silentSnoc sound.silent (fun healthy exit wrote => ?_)
      cases wrote
      exact absurd (own _ rfl) (by simp [Event.marks])

theorem soundSilent (sound : Sound w) (history : t.history = w.history) (probes : t.probes = w.probes)
    (bus : t.runtime.bus = w.runtime.bus) (database : t.runtime.databaseReady = w.runtime.databaseReady)
    (draining : t.runtime.lifecycle = .draining ↔ w.runtime.lifecycle = .draining)
    (tasks : ∀ task, t.tasks task = w.tasks task ∨ t.tasks task = .joined ∨ t.tasks task = .aborted)
    (stop : t.stop = false → w.stop = false) (course : Course t) : Sound t := by
  refine soundMoves sound none (by simp [history]) (by simp) probes (by rw [bus,history,sound.bus])
    (by rw [draining,history,sound.draining]) (by rw [database,history]; exact sound.database) ?_ ?_ course
  · intro exit seen
    rcases tasks .outboxRelay with same | same | same
    · rw [same]
      exact sound.stopped exit (history ▸ seen)
    · simp [same]
    · simp [same]
  · intro unstopped task exit ended
    rcases tasks task with same | same | same
    · exact sound.faulty (stop unstopped) task exit (same ▸ ended)
    · simp [same] at ended
    · simp [same] at ended

theorem droppedCases (w : World) (task) :
    w.dropTasks.tasks task = w.tasks task ∨ w.dropTasks.tasks task = .joined ∨ w.dropTasks.tasks task = .aborted := by
  simp only [World.dropTasks]
  split
  · exact .inr (.inr rfl)
  · exact .inl rfl

theorem droppedIdle (w : World) (task) : w.dropTasks.tasks task ≠ .running := by
  simp only [World.dropTasks]
  split
  · simp
  · assumption

theorem soundExit (sound : Sound w) {result} (course : Course (w.exit result)) : Sound (w.exit result) :=
  soundSilent sound rfl rfl rfl rfl Iff.rfl (droppedCases w) (fun unstopped => unstopped) course

theorem soundDrained (sound : Sound w) (at_ : w.main = .drainTasks) : Sound (w.exit w.outcome) := by
  have course := sound.course
  simp only [Course,at_] at course
  obtain ⟨cause,why,written⟩ := course
  exact soundExit sound ⟨droppedIdle w,.inl ⟨cause,why,written,rfl⟩⟩

theorem soundBoot (sound : Sound w) {stage} (at_ : w.main = .boot stage) : Sound (w.bootOnward stage) := by
  have course := sound.course
  simp only [Course,at_] at course
  obtain ⟨stop,failure,unasked,early,late⟩ := course
  cases stage with
  | verifyDurables =>
    obtain ⟨empty,unspawned⟩ := early rfl
    refine soundMoves sound (some .started) rfl (by simp [Event.marks]) rfl ?_ ?_ (fun _ => rfl) ?_ ?_ ?_
    · simp [World.bootOnward,RuntimeState.setBusReady,Event.bus,busCheck]
    · simpa [World.bootOnward,RuntimeState.setBusReady,RuntimeState.markDatabaseReady] using sound.draining
    · intro exit seen
      simp [World.bootOnward,empty] at seen
    · intro _ task exit ended
      simp [World.bootOnward,unspawned] at ended
    · exact ⟨stop,failure,unasked,nofun,fun _ => by simp [World.bootOnward,empty,marks,Event.marks]⟩
  | spawnBusTasks =>
    refine soundMoves sound none (by simp [World.bootOnward]) (by simp) rfl sound.bus sound.draining sound.database ?_ ?_
      ⟨stop,failure,unasked,nofun,fun _ => late rfl⟩
    · intro exit seen
      have marked := (memMarks rfl).mpr seen
      rw [World.bootOnward,late rfl] at marked
      simp at marked
    · intro _ task exit ended
      simp [World.bootOnward] at ended
  | bindListener =>
    have undrained : Event.draining ∉ w.history := by
      rw [← memMarks rfl,late rfl]
      simp
    refine soundMoves sound none (by simp [World.bootOnward]) (by simp) rfl sound.bus ?_ sound.database sound.stopped sound.faulty
      ⟨stop,failure,late rfl⟩
    simp [World.bootOnward,RuntimeState.setReady,undrained]
  | _ =>
    exact soundSilent sound rfl rfl rfl rfl Iff.rfl (fun _ => .inl rfl) (fun unstopped => unstopped)
      ⟨stop,failure,unasked,fun _ => early rfl,nofun⟩

theorem soundShutdown (sound : Sound w) (taken : w.shutdown = some t) : Sound t := by
  have course := sound.course
  unfold World.shutdown at taken
  unfold Course at course
  split at taken
  · rename_i task exit at_
    simp only [at_] at course
    cases Option.some.inj taken
    obtain ⟨stop,written,fault,idle⟩ := course
    refine soundMoves sound (some (.noticed task exit)) rfl (by simp [Event.marks]) rfl ?_ ?_ ?_ ?_ sound.faulty ?_
    · simp [RuntimeState.setBusReady,Event.bus,busCheck]
    · simpa [RuntimeState.setBusReady] using sound.draining
    · simpa [RuntimeState.setBusReady] using sound.database
    · intro exit' seen
      rcases List.mem_append.mp seen with earlier | new
      · exact sound.stopped exit' earlier
      · cases List.mem_singleton.mp new
        exact idle
    · exact ⟨stop,.noticed task exit,⟨fault,rfl⟩,by rw [marksAppend,written]; rfl⟩
  · rename_i at_
    simp only [at_] at course
    cases Option.some.inj taken
    exact soundSilent sound rfl rfl rfl rfl Iff.rfl (fun _ => .inl rfl) (fun unstopped => unstopped) course
  · rename_i at_
    simp only [at_] at course
    cases Option.some.inj taken
    obtain ⟨stop,cause,why,written⟩ := course
    refine soundMoves sound (some .draining) rfl (by simp [Event.marks]) rfl ?_ ?_ ?_ ?_ sound.faulty ?_
    · simp [RuntimeState.beginDrain,Event.bus,sound.bus]
    · simp [RuntimeState.beginDrain]
    · simpa [RuntimeState.beginDrain] using sound.database
    · intro exit seen
      exact sound.stopped exit (by simpa using seen)
    · exact ⟨stop,cause,why,by rw [marksAppend,written]; rfl⟩
  · rename_i at_
    simp only [at_] at course
    cases Option.some.inj taken
    exact soundSilent sound rfl rfl rfl rfl Iff.rfl (fun _ => .inl rfl) (by simp) course.2
  · rename_i at_
    simp only [at_] at course
    cases Option.some.inj taken
    exact soundSilent sound rfl rfl rfl rfl Iff.rfl (fun _ => .inl rfl) (fun unstopped => unstopped) course
  · contradiction

theorem joinedCases (w : World) (joined task) :
    (w.setTask joined .joined).tasks task = w.tasks task ∨ (w.setTask joined .joined).tasks task = .joined ∨
      (w.setTask joined .joined).tasks task = .aborted := by
  simp only [World.setTask,Function.update_apply]
  split
  · exact .inr (.inl rfl)
  · exact .inl rfl

theorem loadRead (sound : Sound w) {p} (read : Read w.history p) : Read w.history {p with pc := p.pc.load w.runtime} := by
  obtain ⟨started,began,loaded⟩ := read
  refine ⟨started,began,?_⟩
  cases at_ : p.pc with
  | database => exact sound.database (List.mem_of_mem_take started)
  | bus met =>
    rw [at_] at loaded
    exact ⟨loaded,w.history.length,began,Nat.le_refl _,by rw [List.take_length]; exact sound.bus⟩
  | lifecycle met check =>
    rw [at_] at loaded
    obtain ⟨rfl,n,after,inside,said⟩ := loaded
    refine ⟨n,w.history.length,after,inside,Nat.le_refl _,?_⟩
    simp only [said,List.take_length,RuntimeState.isDraining,sound.draining]
  | answered response =>
    rw [at_] at loaded
    exact loaded

theorem endedAside {task exit} (running : w.tasks task = .running) (may : w.stop = false → Faulty exit) :
    Aside w (w.setTask task (.ended exit)) := by
  refine ⟨rfl,rfl,rfl,rfl,rfl,?_,.inl ⟨rfl,rfl⟩,.inl rfl⟩
  intro other
  by_cases same : other = task
  · subst same
    exact .inr ⟨running,exit,by simp [World.setTask],may⟩
  · exact .inl (by simp [World.setTask,same])

/- Everything one step of the process can be. -/
inductive Moves (w : World) : World → Prop where
  | boots {stage} (at_ : w.main = .boot stage) : Moves w (w.bootOnward stage)
  | refuses {stage error} (at_ : w.main = .boot stage) (fails : stage.fails error = true) : Moves w (w.exit (.error error))
  | signals (at_ : w.main = .serving) : Moves w {w with main := .beginDrain, history := w.history ++ [.signaled]}
  | notices {task exit} (at_ : w.main = .serving) (ended : w.tasks task = .ended exit) :
      Moves w {w.setTask task .joined with main := .leave task exit}
  | shuts {v} (taken : w.shutdown = some v) : Moves w v
  | joins {task} (at_ : w.main = .drainTasks) : Moves w (w.setTask task .joined)
  | leaves (at_ : w.main = .drainTasks) : Moves w (w.exit w.outcome)
  | ends {task exit} (running : w.tasks task = .running) (may : w.stop = false → Faulty exit) :
      Moves w (w.setTask task (.ended exit))
  | turns {relay} (running : w.tasks .outboxRelay = .running) : Moves w {w with relay := relay}
  | reports {healthy} (running : w.tasks .outboxRelay = .running) : Moves w {w with
      relay := .pause, runtime := w.runtime.setBusReady healthy, history := w.history ++ [.reported healthy]}
  | requests (listening : w.Listening) : Moves w {w with probes := w.probes ++ [⟨w.history.length,.database⟩]}
  | loads {probe : Nat} {p} (listening : w.Listening) (there : w.probes[probe]? = some p) :
      Moves w {w with probes := w.probes.set probe {p with pc := p.pc.load w.runtime}}

theorem endFaulty {task exit} (may : w.MayEnd task exit) (unstopped : w.stop = false) : Faulty exit := by
  unfold World.MayEnd at may
  split at may
  · exact absurd may.2 (by simp [unstopped])
  · simp [Faulty]
  · simp [Faulty]

theorem stepMoves {label} (taken : w.step label = some t) : Moves w t := by
  unfold World.step at taken
  cases label with
  | boot failure =>
    simp only at taken
    split at taken
    · rename_i stage at_
      split at taken
      · cases Option.some.inj taken
        exact .boots at_
      · split at taken
        · rename_i fails
          cases Option.some.inj taken
          exact .refuses at_ fails
        · contradiction
    · contradiction
  | signal =>
    simp only at taken
    split at taken
    · rename_i at_
      cases Option.some.inj taken
      exact .signals at_
    · contradiction
  | nextExit task =>
    simp only at taken
    split at taken
    · rename_i exit at_ ended
      cases Option.some.inj taken
      exact .notices at_ ended
    · contradiction
  | main => exact .shuts taken
  | joinNext task =>
    simp only at taken
    split at taken
    · rename_i at_ _
      cases Option.some.inj taken
      exact .joins at_
    · contradiction
  | drained =>
    simp only at taken
    split at taken
    · rename_i at_
      split at taken
      · cases Option.some.inj taken
        exact .leaves at_
      · contradiction
    · contradiction
  | timeout =>
    simp only at taken
    split at taken
    · rename_i at_
      split at taken
      · contradiction
      · cases Option.some.inj taken
        exact .leaves at_
    · contradiction
  | taskEnds task exit =>
    simp only at taken
    split at taken
    · rename_i meets
      cases Option.some.inj taken
      exact .ends meets.1 (endFaulty meets.2)
    · contradiction
  | pass result =>
    simp only at taken
    split at taken
    · rename_i meets
      cases result with
      | ok healthy =>
        cases Option.some.inj taken
        exact .turns meets.1
      | error error =>
        cases Option.some.inj taken
        exact .ends meets.1 (fun _ => by simp [Faulty])
    · contradiction
  | report =>
    simp only at taken
    split at taken
    · rename_i healthy running _
      cases Option.some.inj taken
      exact .reports running
    · contradiction
  | wake =>
    simp only at taken
    split at taken
    · rename_i meets
      split at taken
      · rename_i stopped
        cases Option.some.inj taken
        exact .ends meets.1 (fun unstopped => absurd stopped (by simp [unstopped]))
      · cases Option.some.inj taken
        exact .turns meets.1
    · contradiction
  | request =>
    simp only at taken
    split at taken
    · rename_i listening
      cases Option.some.inj taken
      exact .requests listening
    · contradiction
  | load probe =>
    simp only at taken
    split at taken
    · rename_i listening
      obtain ⟨p,there,rfl⟩ := Option.map_eq_some_iff.mp taken
      exact .loads listening there
    · contradiction

theorem soundStep {label} (sound : Sound w) (taken : w.step label = some t) : Sound t := by
  have course := sound.course
  cases stepMoves taken with
  | boots at_ => exact soundBoot sound at_
  | @refuses stage error at_ fails =>
    simp only [Course,at_] at course
    obtain ⟨stop,failure,unasked,early,late⟩ := course
    refine soundExit sound ⟨droppedIdle w,.inr ⟨error,rfl,?_,unasked,?_⟩⟩
    · rintro reason rfl
      cases stage <;> cases fails
    · cases before : stage.early with
      | true => exact .inl (by simp [World.exit,World.dropTasks,(early before).1,marks])
      | false => exact .inr (late before)
  | signals at_ =>
    simp only [Course,at_] at course
    obtain ⟨stop,failure,written⟩ := course
    refine soundMoves sound (some .signaled) rfl (by simp [Event.marks]) rfl ?_ ?_ ?_ ?_ sound.faulty ?_
    · simp [Event.bus,sound.bus]
    · simpa using sound.draining
    · simpa using sound.database
    · intro exit seen
      exact sound.stopped exit (by simpa using seen)
    · exact ⟨stop,.signaled,failure,by rw [marksAppend,written]; rfl⟩
  | @notices task exit at_ ended =>
    simp only [Course,at_] at course
    obtain ⟨stop,failure,written⟩ := course
    refine soundSilent sound rfl rfl rfl rfl Iff.rfl (joinedCases w task) (fun unstopped => unstopped)
      ⟨stop,written,sound.faulty stop task exit ended,?_⟩
    simp [World.setTask]
  | shuts taken => exact soundShutdown sound taken
  | @joins task at_ =>
    refine soundSilent sound rfl rfl rfl rfl Iff.rfl (joinedCases w task) (fun unstopped => unstopped) ?_
    simpa only [Course,World.setTask,at_] using course
  | leaves at_ => exact soundDrained sound at_
  | ends running may => exact asideSound sound (endedAside running may)
  | turns running => exact asideSound sound ⟨rfl,rfl,rfl,rfl,rfl,fun _ => .inl rfl,.inl ⟨rfl,rfl⟩,.inl rfl⟩
  | @reports healthy running =>
    exact asideSound sound ⟨rfl,rfl,rfl,rfl,rfl,fun _ => .inl rfl,.inr ⟨healthy,running,rfl,rfl⟩,.inl rfl⟩
  | requests listening =>
    refine asideSound sound ⟨rfl,rfl,rfl,rfl,rfl,fun _ => .inl rfl,.inl ⟨rfl,rfl⟩,.inr ⟨listening,rfl,?_⟩⟩
    intro p member
    rcases List.mem_append.mp member with old | new
    · exact sound.probes p old
    · cases List.mem_singleton.mp new
      exact ⟨by rw [List.take_length]; exact listeningStarted sound listening,Nat.le_refl _,trivial⟩
  | loads listening there =>
    refine asideSound sound ⟨rfl,rfl,rfl,rfl,rfl,fun _ => .inl rfl,.inl ⟨rfl,rfl⟩,.inr ⟨listening,rfl,?_⟩⟩
    intro q member
    rcases List.mem_or_eq_of_mem_set member with old | rfl
    · exact sound.probes q old
    · exact loadRead sound (sound.probes _ (List.mem_of_getElem? there))

theorem soundRun {labels} (run : Run World.step free World.opened labels w) : Sound w :=
  run.preserves Sound (fun _ _ _ sound _ taken => soundStep sound taken) soundOpened

end Invariant

section Answers
variable {w u : World} {labels labels' : List Label}

theorem saidAppend {history more : List Event} (dark : ∀ e ∈ more, e.bus ≠ some .up) (up : busSaid (history ++ more) = .up) :
    busSaid history = .up := by
  induction more using List.reverseRecOn with
  | nil => simpa using up
  | append_singleton more e ih =>
    refine ih (fun x member => dark x (List.mem_append_left _ member)) ?_
    rw [← List.append_assoc,busSaidSnoc] at up
    cases wrote : e.bus with
    | none => simpa [wrote] using up
    | some check =>
      simp only [wrote,Option.getD_some] at up
      exact absurd (up ▸ wrote) (dark e (by simp))

theorem startedSaid {history : List Event} (started : .started ∈ history) : busSaid history ≠ .unconfigured := by
  induction history using List.reverseRecOn with
  | nil => cases started
  | append_singleton history e ih =>
    rw [busSaidSnoc]
    rcases List.mem_append.mp started with earlier | new
    · cases e with
      | reported healthy => cases healthy <;> simp [Event.bus,busCheck]
      | _ => simp [Event.bus,ih earlier]
    · cases List.mem_singleton.mp new
      simp [Event.bus]

theorem readyUp {bus draining} (configured : bus ≠ .unconfigured) :
    (ready (readiness true bus draining)).status = 200 ↔ bus = .up ∧ draining = false := by
  cases bus <;> cases draining <;> simp_all [readiness,ready]

theorem startedOnce (sound : Sound w) {before after task exit}
    (cut : w.history = before ++ .noticed task exit::after) : .started ∉ after := by
  have parts : marks w.history = marks before ++ .noticed task exit::marks after := by
    rw [cut,marksAppend]
    rfl
  intro later
  have marked : Event.started ∈ marks after := (memMarks rfl).mpr later
  rcases courseOpens sound.course with ⟨none,-⟩ | ⟨rest,written,once⟩
  · rw [none] at parts
    simp at parts
  · rw [written] at parts
    cases first : marks before with
    | nil => simp [first] at parts
    | cons e more =>
      rw [first,List.cons_append] at parts
      exact once ((List.cons.inj parts).2 ▸ by simp [marked])

theorem litReported (sound : Sound w) {before after rest task exit}
    (cut : w.history = before ++ .noticed task exit::(after ++ rest)) (up : busSaid (before ++ .noticed task exit::after) = .up) :
    .reported true ∈ after := by
  by_contra silent
  have dark : ∀ e ∈ after, e.bus ≠ some .up := by
    intro e seen
    cases e with
    | started => exact absurd (List.mem_append_left _ seen) (startedOnce sound cut)
    | reported healthy =>
      cases healthy with
      | true => exact absurd seen silent
      | false => simp [Event.bus,busCheck]
    | _ => simp [Event.bus]
  have regrouped : before ++ .noticed task exit::after = (before ++ [.noticed task exit]) ++ after := by simp
  have left := saidAppend dark (regrouped ▸ up)
  simp [Event.bus] at left

/- An answer tells what the bus check was left at and whether the process drains, each at a
moment of its request. After a stopped task is noticed the answer is ready only where the relay,
which then is not that task, has reported its health since. -/
theorem answersTell (run : Run World.step free World.opened labels w) {p response} (member : p ∈ w.probes)
    (answered : p.pc = .answered response) :
    ∃ n m, p.began ≤ n ∧ n ≤ m ∧ m ≤ w.history.length ∧
      response = ready (readiness true (busSaid (w.history.take n)) (decide (.draining ∈ w.history.take m))) ∧
      (.draining ∈ w.history.take p.began → response.status = 503) ∧
      (response.status = 200 → ∀ before task exit after, w.history.take n = before ++ .noticed task exit::after →
        task ≠ .outboxRelay ∧ .reported true ∈ after) := by
  have sound := soundRun run
  obtain ⟨started,-,loads⟩ := sound.probes p member
  rw [answered] at loads
  obtain ⟨n,m,after_,later,inside,said⟩ := loads
  have began : ∀ {e : Event} {k}, p.began ≤ k → e ∈ w.history.take p.began → e ∈ w.history.take k :=
    fun longer seen => (List.take_sublist_take_left longer).subset seen
  have configured := startedSaid (began after_ started)
  refine ⟨n,m,after_,later,inside,said,?_,?_⟩
  · intro drains
    have drained : (ready (readiness true (busSaid (w.history.take n)) (decide (.draining ∈ w.history.take m)))).status ≠ 200 := by
      rw [Ne,readyUp configured]
      simp [began (Nat.le_trans after_ later) drains]
    rw [said]
    unfold ready at drained ⊢
    split
    · rename_i up
      simp [up] at drained
    · rfl
  · intro ok before task exit after cut
    rw [said,readyUp configured] at ok
    have whole : w.history = before ++ .noticed task exit::(after ++ w.history.drop n) := by
      have joined := List.take_append_drop n w.history
      rw [cut] at joined
      simpa using joined.symm
    have reports := litReported sound whole (cut ▸ ok.1)
    refine ⟨?_,reports⟩
    rintro rfl
    exact sound.silent _ _ _ whole true (List.mem_append_left _ reports)

end Answers

/- The command consumer loses its durable, and the relay reports its health in the grace. -/
def consumerLost : List Label :=
  List.replicate 8 (.boot none) ++
    [.taskEnds .browserCaptureConsumer (.failed "deleted"),.nextExit .browserCaptureConsumer,.main]

def readyAgain : List Label := consumerLost ++ [.pass (.ok true),.report,.request,.load 0,.load 0,.load 0]

def readyAgainEnd : World := (replay World.step free .opened readyAgain).get (by decide +kernel)

theorem answersTellAtReport : ∃ n m, 3 ≤ n ∧ n ≤ m ∧ m ≤ readyAgainEnd.history.length ∧
    ⟨200,"ready",[⟨"database",true⟩,⟨"bus",true⟩]⟩ =
      ready (readiness true (busSaid (readyAgainEnd.history.take n)) (decide (.draining ∈ readyAgainEnd.history.take m))) := by
  obtain ⟨n,m,after,later,inside,said,-⟩ := answersTell
    (replayRun (Option.some_get _).symm : Run World.step free .opened readyAgain readyAgainEnd)
    (p := ⟨3,.answered ⟨200,"ready",[⟨"database",true⟩,⟨"bus",true⟩]⟩⟩) (by decide +kernel) rfl
  exact ⟨n,m,after,later,inside,said⟩

section Returns
variable {w t u : World} {labels labels' : List Label}

/- Readiness that is gone for good: the relay is over, and nothing since left the bus check up. -/
def Dark (w u : World) : Prop :=
  u.tasks .outboxRelay ≠ .running ∧ (∀ stage, u.main ≠ .boot stage) ∧
    ∃ more, u.history = w.history ++ more ∧ ∀ e ∈ more, e.bus ≠ some .up

theorem darkOnward (dark : Dark w u) (written : List Event) (history : t.history = u.history ++ written)
    (quiet : ∀ e ∈ written, e.bus ≠ some .up) (idle : t.tasks .outboxRelay ≠ .running)
    (booted : ∀ stage, t.main ≠ .boot stage) : Dark w t := by
  obtain ⟨-,-,more,whole,before⟩ := dark
  refine ⟨idle,booted,more ++ written,by rw [history,whole,List.append_assoc],?_⟩
  intro e member
  rcases List.mem_append.mp member with old | new
  · exact before e old
  · exact quiet e new

theorem darkStep {label} (dark : Dark w u) (taken : u.step label = some t) : Dark w t := by
  have ⟨idle,booted,_⟩ := dark
  have silent : t.history = u.history → t.tasks .outboxRelay ≠ .running → (∀ stage, t.main ≠ .boot stage) → Dark w t :=
    fun same => darkOnward dark [] (by rw [same,List.append_nil]) (by simp)
  have settled : ∀ {task state}, state ≠ .running → (u.setTask task state).tasks .outboxRelay ≠ .running := by
    intro task state other
    simp only [World.setTask,Function.update_apply]
    split
    · exact other
    · exact idle
  cases stepMoves taken with
  | boots at_ => exact absurd at_ (booted _)
  | refuses at_ => exact absurd at_ (booted _)
  | signals => exact darkOnward dark [.signaled] rfl (by simp [Event.bus]) idle (by simp)
  | notices => exact silent rfl (settled (by simp)) (by simp)
  | shuts taken =>
    unfold World.shutdown at taken
    split at taken <;> cases taken
    · exact darkOnward dark [.noticed _ _] rfl (by simp [Event.bus]) idle (by simp)
    · exact silent rfl idle (by simp)
    · exact darkOnward dark [.draining] rfl (by simp [Event.bus]) idle (by simp)
    · exact silent rfl idle (by simp)
    · exact silent rfl idle (by simp)
  | joins => exact silent rfl (settled (by simp)) booted
  | leaves => exact silent rfl (droppedIdle u _) (by simp [World.exit])
  | ends => exact silent rfl (settled (by simp)) booted
  | turns running => exact absurd running idle
  | reports running => exact absurd running idle
  | requests => exact silent rfl idle booted
  | loads => exact silent rfl idle booted

/- A request keeps its place and its beginning; a new one begins after all that is written. -/
theorem askedStep {label} (taken : u.step label = some t) {i : Nat} {p : Probe} (there : t.probes[i]? = some p) :
    (∃ q : Probe, u.probes[i]? = some q ∧ q.began = p.began) ∨ p.began = u.history.length := by
  cases stepMoves taken with
  | @boots stage =>
    have same : (u.bootOnward stage).probes = u.probes := by cases stage <;> rfl
    exact .inl ⟨p,same ▸ there,rfl⟩
  | shuts taken =>
    unfold World.shutdown at taken
    split at taken <;> cases taken <;> exact .inl ⟨p,there,rfl⟩
  | requests =>
    rw [List.getElem?_append] at there
    split at there
    · exact .inl ⟨p,there,rfl⟩
    · rw [List.getElem?_singleton] at there
      split at there <;> cases there
      exact .inr rfl
  | @loads probe q _ asked =>
    rw [List.getElem?_set] at there
    split at there
    · rename_i same
      subst same
      split at there
      · cases Option.some.inj there
        exact .inl ⟨q,asked,rfl⟩
      · contradiction
    · exact .inl ⟨p,there,rfl⟩
  | _ => exact .inl ⟨p,there,rfl⟩

/- The requests that are still to come in the first of two states begin after all it has written. -/
def Later (w u : World) : Prop := ∀ i (p : Probe), w.probes.length ≤ i → u.probes[i]? = some p → w.history.length ≤ p.began

theorem laterStep {label} (dark : Dark w u) (later : Later w u) (taken : u.step label = some t) : Later w t := by
  intro i p recent there
  rcases askedStep taken there with ⟨q,asked,same⟩ | began
  · exact same ▸ later i q recent asked
  · obtain ⟨-,-,more,whole,-⟩ := dark
    rw [began,whole,List.length_append]
    exact Nat.le_add_right _ _

theorem asksReady (sound : Sound w) (grace : w.main = .grace) (up : w.runtime.bus = .up) :
    ∃ labels u p response, Run World.step free w labels u ∧ u.probes[w.probes.length]? = some p ∧
      p.pc = .answered response ∧ response.status = 200 := by
  have listening : w.Listening := by simp [World.Listening,grace]
  have met := sound.database (listeningStarted sound listening)
  have undrained : w.runtime.isDraining = false := by
    have course := sound.course
    simp only [Course,grace] at course
    obtain ⟨-,cause,why,written⟩ := course
    have absent : Event.draining ∉ w.history := by
      rw [← memMarks rfl,written]
      cases cause with
      | draining => exact absurd why id
      | _ => simp
    simp [RuntimeState.isDraining,sound.draining,absent]
  have loads : ∀ p : Probe, World.step {w with probes := w.probes ++ [p]} (.load w.probes.length) =
      some {w with probes := w.probes ++ [{p with pc := p.pc.load w.runtime}]} := by
    intro p
    have still : World.Listening {w with probes := w.probes ++ [p]} := listening
    simp [World.step,still]
  refine ⟨[.request,.load w.probes.length,.load w.probes.length,.load w.probes.length],
    {w with probes := w.probes ++ [⟨w.history.length,.answered (ready (readiness true .up false))⟩]},_,_,?_,
    List.getElem?_concat_length,rfl,rfl⟩
  refine .cons trivial (if_pos listening) (.cons trivial (loads _) (.cons trivial (loads _) (.cons trivial ?_ (.nil _))))
  rw [loads]
  simp [ProbePc.load,met,up,undrained]

theorem reportsUp (grace : w.main = .grace) (running : w.tasks .outboxRelay = .running) (unstopped : w.stop = false) :
    ∃ labels u, Run World.step free w labels u ∧ u.main = .grace ∧ u.runtime.bus = .up ∧ u.probes = w.probes := by
  have passes : ∀ v : World, v.main = .grace → v.tasks .outboxRelay = .running → v.relay = .pass →
      ∃ labels u, Run World.step free v labels u ∧ u.main = .grace ∧ u.runtime.bus = .up ∧ u.probes = v.probes := by
    intro v grace running pass
    exact ⟨[.pass (.ok true),.report],
      {v with relay := .pause, runtime := v.runtime.setBusReady true, history := v.history ++ [.reported true]},
      .cons trivial (by simp [World.step,running,pass]; rfl) (.cons trivial (by simp [World.step,running]) (.nil _)),
      grace,rfl,rfl⟩
  have wakes : ∀ v : World, v.main = .grace → v.tasks .outboxRelay = .running → v.stop = false → v.relay = .pause →
      ∃ labels u, Run World.step free v labels u ∧ u.main = .grace ∧ u.runtime.bus = .up ∧ u.probes = v.probes := by
    intro v grace running unstopped pause
    obtain ⟨labels,u,run,rest⟩ := passes {v with relay := .pass} grace running rfl
    exact ⟨.wake::labels,u,.cons trivial (by simp [World.step,running,pause,unstopped]) run,rest⟩
  cases at_ : w.relay with
  | pass => exact passes w grace running at_
  | pause => exact wakes w grace running unstopped at_
  | report healthy =>
    obtain ⟨labels,u,run,rest⟩ := wakes {w with
      relay := .pause
      runtime := w.runtime.setBusReady healthy
      history := w.history ++ [.reported healthy]} grace running unstopped rfl
    exact ⟨.report::labels,u,.cons trivial (by simp [World.step,running,at_]) run,rest⟩

/- In the grace after a task stopped, a request that is still to come can be answered ready
exactly when the relay has reported its health or runs on. -/
theorem readyReturns (run : Run World.step free World.opened labels w) (grace : w.main = .grace) :
    (∃ labels' u i p response, Run World.step free w labels' u ∧ w.probes.length ≤ i ∧ u.probes[i]? = some p ∧
      p.pc = .answered response ∧ response.status = 200) ↔ w.runtime.bus = .up ∨ w.tasks .outboxRelay = .running := by
  have sound := soundRun run
  constructor
  · rintro ⟨labels',u,i,p,response,onward,recent,there,answered,ok⟩
    by_contra neither
    obtain ⟨down,idle⟩ := not_or.mp neither
    have unasked : Later w w := fun i p recent there => absurd (List.getElem?_eq_some_iff.mp there).1 (Nat.not_lt.mpr recent)
    obtain ⟨⟨-,-,more,whole,quiet⟩,later⟩ : Dark w u ∧ Later w u :=
      onward.preserves (fun u => Dark w u ∧ Later w u)
        (fun _ _ _ ⟨dark,later⟩ _ taken => ⟨darkStep dark taken,laterStep dark later taken⟩)
        ⟨⟨idle,by simp [grace],[],(List.append_nil _).symm,by simp⟩,unasked⟩
    have asked := later i p recent there
    obtain ⟨started,-,loads⟩ := (soundRun (run.append onward)).probes p (List.mem_of_getElem? there)
    rw [answered] at loads
    obtain ⟨n,m,later,-,-,said⟩ := loads
    have configured := startedSaid ((List.take_sublist_take_left later).subset started)
    rw [said,readyUp configured,whole,List.take_append] at ok
    have before : w.history.take n = w.history := List.take_of_length_le (Nat.le_trans asked later)
    rw [before] at ok
    exact down (sound.bus.trans (saidAppend (fun e seen => quiet e (List.mem_of_mem_take seen)) ok.1))
  · rintro (up | running)
    · obtain ⟨labels',u,p,response,onward,there,rest⟩ := asksReady sound grace up
      exact ⟨labels',u,_,p,response,onward,Nat.le_refl _,there,rest⟩
    · have course := sound.course
      simp only [Course,grace] at course
      obtain ⟨labels',v,first,grace',up,same⟩ := reportsUp grace running course.1
      obtain ⟨labels'',u,p,response,second,there,rest⟩ := asksReady (soundRun (run.append first)) grace' up
      exact ⟨_,u,_,p,response,first.append second,Nat.le_of_eq (by rw [same]),there,rest⟩

end Returns

def consumerLostEnd : World := (replay World.step free .opened consumerLost).get (by decide +kernel)

theorem readyReturnsAtLoss : ∃ labels u i p response, Run World.step free consumerLostEnd labels u ∧
    consumerLostEnd.probes.length ≤ i ∧ u.probes[i]? = some p ∧ p.pc = .answered response ∧ response.status = 200 :=
  (readyReturns (replayRun (Option.some_get _).symm : Run World.step free .opened consumerLost consumerLostEnd) rfl).mpr (.inr rfl)

section Endings
variable {w : World} {labels : List Label}

def distance : MainPc → Nat
  | .boot _ => 1
  | .serving => 6
  | .leave _ _ => 6
  | .grace => 5
  | .beginDrain => 4
  | .sendStop => 3
  | .finishServing => 2
  | .drainTasks => 1
  | .exited _ => 0

theorem endsSoon (w : World) (open_ : ∀ result, w.main ≠ .exited result) :
    ∃ label t, w.step label = some t ∧ distance t.main < distance w.main := by
  cases at_ : w.main with
  | boot stage =>
    obtain ⟨error,fails⟩ : ∃ error, stage.fails error = true := by
      cases stage with
      | loadConfig => exact ⟨.config,rfl⟩
      | readBearerToken => exact ⟨.bearerTokenEmpty,rfl⟩
      | installTelemetry => exact ⟨.telemetry,rfl⟩
      | connectDatabase => exact ⟨.persistence,rfl⟩
      | connectBus => exact ⟨.natsSeed,rfl⟩
      | verifyDurables => exact ⟨.nats "",rfl⟩
      | spawnBusTasks => exact ⟨.extraCa,rfl⟩
      | bindListener => exact ⟨.listener,rfl⟩
    exact ⟨.boot (some error),_,by simp only [World.step,at_,fails]; rfl,by simp [World.exit,distance]⟩
  | serving => exact ⟨.signal,_,by simp only [World.step,at_]; rfl,by simp [distance]⟩
  | drainTasks =>
    by_cases joined : w.AllJoined
    · exact ⟨.drained,_,by simp only [World.step,at_]; exact if_pos joined,by simp [World.exit,distance]⟩
    · exact ⟨.timeout,_,by simp only [World.step,at_]; exact if_neg joined,by simp [World.exit,distance]⟩
  | exited result => exact absurd at_ (open_ result)
  | _ => exact ⟨.main,_,by simp only [World.step,World.shutdown,at_]; rfl,by simp [distance]⟩

/- The process can always come to its end, and how it ends tells why: with success exactly after a
signal, with a bus task's text exactly after that task was noticed, which stopped without being
told, and with any other error before it answered a request. No task outlives it. -/
theorem endingTells (run : Run World.step free World.opened labels w) :
    (∀ result, w.main = .exited result → (∀ task, w.tasks task ≠ .running) ∧
      (exitStatus result = 0 ↔ .signaled ∈ w.history) ∧
      (∀ reason, result = .error (.busTask reason) ↔
        ∃ task exit, .noticed task exit ∈ w.history ∧ exit ≠ .returned ∧ reason = describeExit task exit) ∧
      ∀ error, result = .error error → (∀ reason, error ≠ .busTask reason) → w.probes = []) ∧
    ∃ labels' u result, Run World.step free w labels' u ∧ u.main = .exited result := by
  constructor
  · intro result at_
    have course := (soundRun run).course
    simp only [Course,at_] at course
    obtain ⟨idle,ends⟩ := course
    refine ⟨idle,?_⟩
    rcases ends with ⟨cause,why,written,rfl⟩ | ⟨error,rfl,other,unasked,written⟩
    · have signaled : .signaled ∈ w.history ↔ Event.signaled = cause := by
        rw [← memMarks rfl,written]
        simp
      have noticed : ∀ {task exit}, .noticed task exit ∈ w.history ↔ Event.noticed task exit = cause := by
        intro task exit
        rw [← memMarks rfl,written]
        simp
      simp only [signaled,noticed,World.outcome]
      cases cause with
      | signaled =>
        have clean : w.failure = none := why
        simp [clean,exitStatus]
      | noticed task exit =>
        obtain ⟨fault,said⟩ : Faulty exit ∧ w.failure = some (describeExit task exit) := why
        simp only [said,exitStatus,BootstrapError.exitCode,Except.error.injEq,BootstrapError.busTask.injEq]
        refine ⟨by simp,?_,?_⟩
        · intro reason
          constructor
          · rintro rfl
            exact ⟨task,exit,rfl,fault,rfl⟩
          · rintro ⟨_,_,same,-,rfl⟩
            cases same
            rfl
        · rintro error rfl other
          exact absurd rfl (other _)
      | _ => exact absurd why id
    · have absent : ∀ {e : Event}, e.marks = true → e ≠ .started → e ∉ w.history := by
        intro e own apart
        rw [← memMarks own]
        rcases written with none | once
        · simp [none]
        · simpa [once] using apart
      refine ⟨?_,?_,fun _ _ _ => unasked⟩
      · have lost : exitStatus (.error error) ≠ 0 := by
          cases error <;> simp [exitStatus,BootstrapError.exitCode]
        simp [lost,absent (e := .signaled) rfl (by simp)]
      · intro reason
        constructor
        · intro same
          exact absurd (Except.error.inj same) (other reason)
        · rintro ⟨task,exit,seen,-⟩
          exact absurd seen (absent rfl (by simp))
  · by_cases ended : ∃ result, w.main = .exited result
    · exact ⟨[],w,ended.choose,.nil w,ended.choose_spec⟩
    · have advances : ∀ v : World, True → (¬∃ result, v.main = .exited result) → ∃ label t, free v label ∧
          v.step label = some t ∧ True ∧ distance t.main < distance v.main := by
        intro v _ open_
        obtain ⟨label,t,taken,closer⟩ := endsSoon v (fun result at_ => open_ ⟨result,at_⟩)
        exact ⟨label,t,trivial,taken,trivial,closer⟩
      obtain ⟨labels',u,onward,-,result,ended⟩ := leads (fun _ => True) (fun v : World => ∃ result, v.main = .exited result)
        (fun v => distance v.main) advances trivial
      exact ⟨labels',u,result,onward,ended⟩

def abandoned : List Label := consumerLost ++ [.main,.main,.main,.main,.timeout]

def abandonedEnd : World := (replay World.step free .opened abandoned).get (by decide +kernel)

theorem endingTellsAtLoss : .signaled ∉ abandonedEnd.history ∧ ∃ task exit, .noticed task exit ∈ abandonedEnd.history ∧
    exit ≠ .returned ∧ "browser_capture_consumer failed: deleted" = describeExit task exit := by
  obtain ⟨-,status,reasons,-⟩ := (endingTells (replayRun (Option.some_get _).symm :
    Run World.step free .opened abandoned abandonedEnd)).1 (.error (.busTask "browser_capture_consumer failed: deleted")) rfl
  exact ⟨fun signaled => absurd (status.mpr signaled) (by decide),(reasons _).mp rfl⟩

end Endings

end RatatoskrX.ServiceProcess
