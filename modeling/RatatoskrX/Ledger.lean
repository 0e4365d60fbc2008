import RatatoskrX.WriteSystem

/-! What the write-back calls sent to the provider, and what they paid for it. -/
namespace RatatoskrX.Ledger
open Outcome Relational Schema Budget Writeback Journal Frames SyncCalls WriteCalls Operations Schedule Transition
open WriteInvariant WriteProgress WriteSystem

def Entry.attempt? : Entry → Option (Nat × Attempt)
  | ⟨some i,.attempt a⟩ => some (i,a)
  | _ => none

/- The mutations sent so far, each with the process that sent it. -/
def attempts (log : List Entry) : List (Nat × Attempt) := log.filterMap Entry.attempt?

def budgeted : Event → Option Commit
  | .commit (.charge gate account cost now) => some (.charge gate account cost now)
  | .commit (.refund gate account reservation) => some (.refund gate account reservation)
  | _ => none

def trail (index : Nat) (log : List Entry) : List Commit :=
  log.filterMap (fun e => if e.process = some index then budgeted e.event else none)

/- The control points from which no mutation is sent any more. -/
def Sent : WritePc → Prop
  | .awaiting _ | .confirm .. | .uncertain .. | .failed .. | .audit .. | .done _ => True
  | _ => False

def Plain (e : Event) : Prop := budgeted e = none ∧ ∀ a, e ≠ .attempt a

section Calls
variable {gate : BudgetGate} {sha256 : List UInt8 → List UInt8} {db : Database} {now : DateTime} {answer : Answer}
  {call : WriteCall} {s : Step WriteCall}

/- A step that neither sends nor pays. -/
def Idle (call : WriteCall) (s : Step WriteCall) : Prop :=
  s.next.held = call.held ∧ (∀ e, s.event = some e → Plain e) ∧ (Sent call.pc → Sent s.next.pc)

theorem idleQuiet {next : WriteCall} (ok : quiet db next = some s) (held : next.held = call.held)
    (sent : Sent call.pc → Sent next.pc) : Idle call s := by
  rw [quietCases ok]
  exact ⟨held,by simp,sent⟩

theorem idleReading {next faulted : WriteCall} (ok : reading db answer next faulted = some s)
    (held : next.held = call.held ∧ faulted.held = call.held) (unsent : ¬Sent call.pc) : Idle call s := by
  rcases readingCases ok with ⟨_,rfl⟩ | ⟨_,rfl⟩
  · exact ⟨held.1,by simp,fun h => absurd h unsent⟩
  · exact ⟨held.2,by simp,fun h => absurd h unsent⟩

theorem idleTransact {c : Commit} {next refused faulted : WriteCall}
    (ok : transact db answer c next refused faulted = some s) (plain : Plain (.commit c))
    (held : next.held = call.held ∧ refused.held = call.held ∧ faulted.held = call.held)
    (sent : Sent call.pc → Sent next.pc ∧ Sent refused.pc ∧ Sent faulted.pc) : Idle call s := by
  rcases transactCases ok with ⟨_,_,⟨_,rfl⟩ | ⟨_,rfl⟩⟩ | ⟨_,_,rfl⟩ | ⟨_,rfl⟩
  · exact ⟨held.1,by rintro e ⟨⟩; exact plain,fun h => (sent h).1⟩
  · exact ⟨held.2.2,by rintro e ⟨⟩; exact plain,fun h => (sent h).2.2⟩
  · exact ⟨held.2.1,by simp,fun h => (sent h).2.1⟩
  · exact ⟨held.2.2,by simp,fun h => (sent h).2.2⟩

theorem sentAuditing (call : WriteCall) (id outcome stages) : Sent (call.at_ (auditing id outcome stages)).pc := by
  cases stages <;> trivial

theorem heldJoining (call : WriteCall) (row) : (call.joining sha256 row).held = call.held := by
  unfold WriteCall.joining
  split
  · rfl
  · split <;> rfl

theorem heldPolling (call : WriteCall) (id remaining status) : (call.polling id remaining status).held = call.held := by
  unfold WriteCall.polling
  split
  · rfl
  · split <;> rfl

theorem callLedger (ok : call.next gate sha256 db now answer = some s) :
    Idle call s ∨
    (∃ id t reservation, call.pc = .reserve id t ∧
      gate.reserve db call.request.accountId 1 now = .ok (s.db,reservation) ∧
      s.event = some (.commit (.charge gate call.request.accountId 1 now)) ∧ s.next.held = some reservation) ∨
    (∃ id reservation error, call.pc = .refund id reservation error ∧
      s.db = gate.refund db call.request.accountId reservation.windowStart reservation.cost ∧
      s.event = some (.commit (.refund gate call.request.accountId reservation)) ∧ s.next.held = none ∧
      ∃ outcome, s.next.pc = .done outcome) ∨
    (∃ id t, call.pc = .provider id t ∧ s = ⟨db,some (.attempt ⟨id,call.request,call.action,t⟩),call.at_ (.awaiting id)⟩) := by
  unfold WriteCall.next at ok
  cases pc : call.pc with
  | claim =>
    simp only [pc] at ok
    have unsent : Sent call.pc → False := by rw [pc]; exact fun h => h
    split at ok
    · exact .inl (idleQuiet ok rfl (fun h => (unsent h).elim))
    · split at ok
      · exact .inl (idleReading ok ⟨rfl,rfl⟩ unsent)
      · refine .inl (idleTransact ok ⟨rfl,by simp⟩ ⟨rfl,rfl,?_⟩ (fun h => (unsent h).elim))
        split <;> rfl
  | existing =>
    simp only [pc] at ok
    have unsent : Sent call.pc → False := by rw [pc]; exact fun h => h
    split at ok
    · exact .inl (idleReading ok ⟨rfl,rfl⟩ unsent)
    · exact .inl (idleReading ok ⟨heldJoining ..,rfl⟩ unsent)
  | poll id remaining =>
    simp only [pc] at ok
    have unsent : Sent call.pc → False := by rw [pc]; exact fun h => h
    exact .inl (idleReading ok ⟨heldPolling ..,rfl⟩ unsent)
  | account id t | credential id t | authorization id t scopes | consent id t | observation id t =>
    simp only [pc] at ok
    have unsent : Sent call.pc → False := by rw [pc]; exact fun h => h
    refine .inl (idleReading ok ⟨?_,rfl⟩ unsent)
    repeat' split
    all_goals rfl
  | inspect id t =>
    simp only [pc] at ok
    have unsent : Sent call.pc → False := by rw [pc]; exact fun h => h
    split at ok
    · exact .inl (idleQuiet ok rfl (fun h => (unsent h).elim))
    · refine .inl (idleReading ok ⟨?_,rfl⟩ unsent)
      split <;> rfl
  | reserve id t =>
    simp only [pc] at ok
    have unsent : Sent call.pc → False := by rw [pc]; exact fun h => h
    rcases chargingCases ok with ⟨after,reservation,reserved,⟨_,rfl⟩ | ⟨_,rfl⟩⟩ | ⟨error,rfl,_⟩
    · exact .inr (.inl ⟨id,t,reservation,rfl,reserved,rfl,rfl⟩)
    · exact .inr (.inl ⟨id,t,reservation,rfl,reserved,rfl,rfl⟩)
    · refine .inl ⟨?_,by simp,fun h => (unsent h).elim⟩
      simp only
      split <;> rfl
  | refund id reservation error =>
    simp only [pc] at ok
    have unsent : Sent call.pc → False := by rw [pc]; exact fun h => h
    rcases transactCases ok with ⟨after,applied,⟨_,rfl⟩ | ⟨lost,rfl⟩⟩ | ⟨_,none,rfl⟩ | ⟨h,rfl⟩
    · exact .inr (.inr (.inl ⟨id,reservation,error,rfl,(Option.some.inj applied).symm,rfl,rfl,_,rfl⟩))
    · rw [if_pos lost]
      exact .inr (.inr (.inl ⟨id,reservation,error,rfl,(Option.some.inj applied).symm,rfl,rfl,_,rfl⟩))
    · simp [Commit.effect] at none
    · rcases h with h | ⟨_,none⟩
      · rw [if_neg (by simp [h])]
        exact .inl ⟨rfl,by simp,fun h => (unsent h).elim⟩
      · simp [Commit.effect] at none
  | provider id t =>
    simp only [pc] at ok
    split at ok
    · cases Option.some.inj ok
      exact .inr (.inr (.inr ⟨id,t,rfl,rfl⟩))
    · simp at ok
  | awaiting id =>
    simp only [pc] at ok
    split at ok
    · cases Option.some.inj ok
      exact .inl ⟨rfl,by rintro e ⟨⟩; exact ⟨rfl,by simp⟩,fun _ => trivial⟩
    · exact .inl (idleQuiet ok rfl (fun _ => trivial))
    · exact .inl (idleQuiet ok rfl (fun _ => trivial))
    · simp at ok
  | done outcome => simp [pc] at ok
  | received id | refuse id refusal resetAt | satisfy id observedAt | preview id result | consume id t reservation =>
    simp only [pc] at ok
    have unsent : Sent call.pc → False := by rw [pc]; exact fun h => h
    exact .inl (idleTransact ok ⟨rfl,by simp⟩ ⟨rfl,rfl,rfl⟩ (fun h => (unsent h).elim))
  | audit id stage rest outcome | uncertain id requestId | failed id error =>
    simp only [pc] at ok
    exact .inl (idleTransact ok ⟨rfl,by simp⟩ ⟨rfl,rfl,rfl⟩ (fun _ => ⟨sentAuditing ..,trivial,trivial⟩))
  | confirm id requestId observedAt =>
    simp only [pc] at ok
    exact .inl (idleTransact ok ⟨rfl,by simp⟩ ⟨rfl,rfl,rfl⟩ (fun _ => ⟨trivial,trivial,trivial⟩))

end Calls

theorem attemptsAppend (log more : List Entry) : attempts (log ++ more) = attempts log ++ attempts more :=
  List.filterMap_append

theorem trailAppend (index : Nat) (log more : List Entry) : trail index (log ++ more) = trail index log ++ trail index more :=
  List.filterMap_append

structure Account (config : Config) (log : List Entry) (index : Nat) (call : WriteCall) : Prop where
  unsent : ¬Sent call.pc → ∀ a, (index,a) ∉ attempts log
  sent : ∀ a, (index,a) ∈ attempts log → call.operation = some a.operationId ∧ a.request = call.request ∧
    a.action = call.action ∧ call.held.isSome = true
  paid : call.held.isSome = true →
    ∃ t, trail index log = [.charge config.writeGate call.request.accountId 1 t]
  unpaid : call.held = none → (∀ outcome, call.pc ≠ .done outcome) → trail index log = []
  unit : ∀ reservation, call.held = some reservation → reservation.cost = 1

theorem attemptsPlain {index e} (plain : Plain e) : attempts [⟨some index,e⟩] = [] := by
  cases e with
  | attempt a => exact absurd rfl (plain.2 a)
  | _ => rfl

theorem trailPlain {index e} (plain : Plain e) : trail index [⟨some index,e⟩] = [] := by
  simp [trail,plain.1]

theorem idleLog {call : WriteCall} {s : Step WriteCall} (idle : Idle call s) (log : List Entry) (index : Nat) :
    attempts (extended log index s) = attempts log ∧ trail index (extended log index s) = trail index log := by
  unfold extended
  rw [attemptsAppend,trailAppend]
  cases event : s.event with
  | none => simp [attempts,trail]
  | some e =>
    have plain := idle.2.1 e event
    simp only [Option.map_some,Option.toList_some,attemptsPlain plain,trailPlain plain,List.append_nil,and_self]

theorem committedLog {s : Step WriteCall} {c} (event : s.event = some (.commit c)) (log : List Entry) (index : Nat) :
    extended log index s = log ++ [⟨some index,.commit c⟩] ∧ attempts (extended log index s) = attempts log := by
  have logged : extended log index s = log ++ [⟨some index,.commit c⟩] := by
    simp [extended,event]
  refine ⟨logged,?_⟩
  rw [logged,attemptsAppend]
  simp [attempts,Entry.attempt?]

section Account
variable {config : Config} {log : List Entry} {index : Nat} {call : WriteCall} {s : Step WriteCall}

theorem accountIdle (account : Account config log index call) (running : ∀ outcome, call.pc ≠ .done outcome)
    (action : s.next.action = call.action) (request : s.next.request = call.request)
    (operation : call.operation.isSome → s.next.operation = call.operation) (idle : Idle call s) :
    Account config (extended log index s) index s.next := by
  obtain ⟨sentLog,trailLog⟩ := idleLog idle log index
  refine ⟨?_,?_,?_,?_,?_⟩
  · intro unsent
    rw [sentLog]
    exact account.unsent (fun h => unsent (idle.2.2 h))
  · intro a
    rw [sentLog,idle.1,action,request]
    intro member
    obtain ⟨own,rest⟩ := account.sent a member
    exact ⟨(operation (by simp [own])).trans own,rest⟩
  · rw [trailLog,idle.1,request]
    exact account.paid
  · intro free _
    rw [trailLog]
    exact account.unpaid (idle.1 ▸ free) running
  · rw [idle.1]
    exact account.unit

theorem accountReserved {t reservation} (account : Account config log index call)
    (running : ∀ outcome, call.pc ≠ .done outcome) (unsent : ∀ a, (index,a) ∉ attempts log) (unheld : call.held = none)
    (request : s.next.request = call.request)
    (event : s.event = some (.commit (.charge config.writeGate call.request.accountId 1 t)))
    (held : s.next.held = some reservation) (unit : reservation.cost = 1) :
    Account config (extended log index s) index s.next := by
  obtain ⟨logged,sentLog⟩ := committedLog event log index
  refine ⟨?_,?_,?_,?_,?_⟩
  · intro _
    rw [sentLog]
    exact unsent
  · intro a member
    rw [sentLog] at member
    exact absurd member (unsent a)
  · intro _
    refine ⟨t,?_⟩
    rw [logged,trailAppend,account.unpaid unheld running,request]
    simp [trail,budgeted]
  · intro free
    rw [held] at free
    simp at free
  · intro other same
    rw [held] at same
    cases Option.some.inj same
    exact unit

theorem accountRefunded {gate account reservation outcome} (unsent : ∀ a, (index,a) ∉ attempts log)
    (event : s.event = some (.commit (.refund gate account reservation))) (held : s.next.held = none)
    (done : s.next.pc = .done outcome) : Account config (extended log index s) index s.next := by
  have sentLog := (committedLog event log index).2
  refine ⟨?_,?_,?_,?_,?_⟩
  · intro _
    rw [sentLog]
    exact unsent
  · intro a member
    rw [sentLog] at member
    exact absurd member (unsent a)
  · intro some
    rw [held] at some
    simp at some
  · intro _ open_
    exact absurd done (open_ outcome)
  · intro other same
    rw [held] at same
    simp at same

theorem accountAttempted {id t} (account : Account config log index call) (unsent : ∀ a, (index,a) ∉ attempts log)
    (claimed : call.operation = some id) (paid : call.held.isSome = true) :
    Account config (log ++ [⟨some index,.attempt ⟨id,call.request,call.action,t⟩⟩]) index (call.at_ (.awaiting id)) := by
  have trailLog : trail index (log ++ [⟨some index,.attempt ⟨id,call.request,call.action,t⟩⟩]) = trail index log := by
    rw [trailAppend]
    simp [trail,budgeted]
  refine ⟨?_,?_,?_,?_,?_⟩
  · intro h
    exact absurd trivial h
  · intro a member
    rw [attemptsAppend] at member
    rcases List.mem_append.mp member with old | fresh
    · exact absurd old (unsent a)
    · have same : a = ⟨id,call.request,call.action,t⟩ := by simpa [attempts,Entry.attempt?] using fresh
      subst same
      exact ⟨claimed,rfl,rfl,paid⟩
  · rw [trailLog]
    exact account.paid
  · intro free
    simp [show call.held = none from free] at paid
  · exact account.unit

end Account

theorem accountStep {config : Config} {db log now answer index call s} (holds : Holds config db log index call)
    (account : Account config log index call)
    (ok : call.next config.writeGate config.sha256 db now answer = some s) :
    Account config (extended log index s) index s.next := by
  have running : ∀ outcome, call.pc ≠ .done outcome := by
    intro outcome pc
    simp [WriteCall.next,pc] at ok
  have same : Same call s.next ∧ (call.operation.isSome → s.next.operation = call.operation) := by
    rcases callKeeps ok with ⟨same,kept⟩ | ⟨same,pc,_⟩
    · exact ⟨same,fun _ => kept⟩
    · simp only [Holds,pc] at holds
      exact ⟨same,fun h => by simp [holds.1] at h⟩
  obtain ⟨⟨_,action,request⟩,operation⟩ := same
  rcases callLedger ok with idle | ⟨id,t,reservation,pc,reserved,event,held⟩ |
      ⟨id,reservation,error,pc,_,event,held,outcome,done⟩ | ⟨id,t,pc,rfl⟩
  · exact accountIdle account running action request operation idle
  · simp only [Holds,pc] at holds
    exact accountReserved account running (account.unsent (by simp [pc,Sent])) holds.2.1 request event held
      (reservedUsage reserved).1
  · exact accountRefunded (account.unsent (by simp [pc,Sent])) event held done
  · simp only [Holds,pc] at holds
    obtain ⟨⟨_,⟨o,claimed,_⟩,_⟩,_,paid,_⟩ := holds
    exact accountAttempted account (account.unsent (by simp [pc,Sent])) claimed.1 paid

def holder (account : Uuid) (windowStart : DateTime) : Process → Bool
  | .write call =>
    call.request.accountId = account && call.held.map Reservation.windowStart = some windowStart
  | _ => false

def holders (w : World) (account : Uuid) (windowStart : DateTime) : Nat :=
  w.processes.countP (holder account windowStart)

def spent (db : Database) (account : Uuid) (windowStart : DateTime) : Int :=
  usage db account .bookmarkWrite windowStart

def Consumes (log : List Entry) (index : Nat) (consentId : Uuid) : Prop :=
  ∃ id request action t cost, request.consentId = consentId ∧
    ⟨some index,.commit (.consumeConsent id request action t cost)⟩ ∈ log

structure Books (config : Config) (start : Database) (w : World) : Prop where
  known : ∀ e ∈ w.log, ∀ i, e.process = some i → i < w.processes.length
  calls : ∀ {i : Nat} {call}, w.processes[i]? = some (.write call) → Account config w.log i call
  writers : ∀ i a, (i,a) ∈ attempts w.log → ∃ call, w.processes[i]? = some (.write call)
  once : ((attempts w.log).map Prod.fst).Nodup
  used : ∀ {i consentId}, Consumes w.log i consentId →
    ∃ c, w.db.consents.find consentId = some c ∧ c.consumedAt.isSome = true
  alone : ∀ {i j consentId}, Consumes w.log i consentId → Consumes w.log j consentId → i = j
  usage : ∀ account s, spent start account s + holders w account s ≤ spent w.db account s

theorem booksStart (config db now) : Books config db (World.start db now) where
  known := by simp [World.start]
  calls := by simp [World.start]
  writers := by simp [World.start,attempts]
  once := by simp [World.start,attempts]
  used := by simp [World.start,Consumes]
  alone := by simp [World.start,Consumes]
  usage := by simp [World.start,holders]

section Step
variable {config : Config} {start : Database} {w t : World} {a : Action}

theorem knownStep (books : Books config start w) (taken : World.step config w a = some t) :
    ∀ e ∈ t.log, ∀ i, e.process = some i → i < t.processes.length := by
  intro e member i own
  have grows := lengthGrows taken
  rcases logAfter taken with ⟨same,_⟩ | ⟨entry,same,wrote⟩
  · exact Nat.lt_of_lt_of_le (books.known e (same ▸ member) i own) grows
  · rcases List.mem_append.mp (same ▸ member) with old | fresh
    · exact Nat.lt_of_lt_of_le (books.known e old i own) grows
    · cases List.mem_singleton.mp fresh
      cases wrote with
      | external => simp at own
      | commit found =>
        cases Option.some.inj own
        exact Nat.lt_of_lt_of_le (List.getElem?_eq_some_iff.mp found).1 grows
      | spoken found =>
        cases Option.some.inj own
        exact Nat.lt_of_lt_of_le (List.getElem?_eq_some_iff.mp found).1 grows

theorem attemptEntry {log : List Entry} {i a} (member : (i,a) ∈ attempts log) : ⟨some i,.attempt a⟩ ∈ log := by
  obtain ⟨e,inside,same⟩ := List.mem_filterMap.mp member
  unfold Entry.attempt? at same
  split at same
  · cases Option.some.inj same
    exact inside
  · simp at same

theorem trailElse {index : Nat} {more : List Entry} (others : ∀ e ∈ more, e.process ≠ some index) :
    trail index more = [] := by
  simp only [trail,List.filterMap_eq_nil_iff]
  intro e member
  rw [if_neg (others e member)]

theorem Account.frame {log more : List Entry} {index call} (account : Account config log index call)
    (others : ∀ e ∈ more, e.process ≠ some index) : Account config (log ++ more) index call := by
  have sentLog : ∀ a, (index,a) ∈ attempts (log ++ more) → (index,a) ∈ attempts log := by
    intro a member
    rw [attemptsAppend] at member
    rcases List.mem_append.mp member with old | fresh
    · exact old
    · exact absurd rfl (others _ (attemptEntry fresh))
  have trailLog : trail index (log ++ more) = trail index log := by
    rw [trailAppend,trailElse others,List.append_nil]
  refine ⟨?_,?_,?_,?_,account.unit⟩
  · exact fun unsent a member => account.unsent unsent a (sentLog a member)
  · exact fun a member => account.sent a (sentLog a member)
  · rw [trailLog]
    exact account.paid
  · rw [trailLog]
    exact account.unpaid

theorem callsStep (sound : Sound config w) (books : Books config start w) (taken : World.step config w a = some t)
    {j : Nat} {call} (found : t.processes[j]? = some (.write call)) : Account config t.log j call := by
  rcases stepView taken found with ⟨answer,old,s,rfl,here,ok,next,rfl⟩ | ⟨first,rfl,_,same⟩ | ⟨here,⟨more,same,others⟩,_⟩
  · obtain ⟨before,r,rfl,stepped,rfl,rfl⟩ := writeNext ok next.symm
    exact accountStep (sound.holds here) (books.calls here) stepped
  · -- No entry of the log belongs to an index that was not there.
    obtain ⟨pc,operation,held⟩ := initialWrite first
    have absent : ∀ e ∈ w.log, e.process ≠ some w.processes.length := by
      intro e member own
      exact Nat.lt_irrefl _ (books.known e member _ own)
    have unsent : ∀ a, (w.processes.length,a) ∉ attempts w.log :=
      fun a member => absent _ (attemptEntry member) rfl
    rw [same]
    exact ⟨fun _ => unsent,fun a member => absurd member (unsent a),by simp [held],
      fun _ _ => trailElse absent,by simp [held]⟩
  · rw [same]
    exact (books.calls here).frame others

theorem writeStays (taken : World.step config w a = some t) {i : Nat} {call} (found : w.processes[i]? = some (.write call)) :
    ∃ later, t.processes[i]? = some (.write later) := by
  have inside : i < w.processes.length := (List.getElem?_eq_some_iff.mp found).1
  cases stepMove taken with
  | spawn => exact ⟨call,by rw [List.getElem?_append_left inside]; exact found⟩
  | @advance index answer process s alive here ok =>
    by_cases same : index = i
    · subst same
      rw [found] at here
      cases Option.some.inj here
      obtain ⟨r,_,rfl⟩ := Option.map_eq_some_iff.mp ok
      exact ⟨r.next,by simp only [World.take,List.getElem?_set_self inside]; rfl⟩
    · exact ⟨call,by simp only [World.take,List.getElem?_set_ne same]; exact found⟩
  | abandon | tick | external => exact ⟨call,found⟩

theorem attemptsAfter (books : Books config start w) (taken : World.step config w a = some t) :
    attempts t.log = attempts w.log ∨ ∃ i attempt call, attempts t.log = attempts w.log ++ [(i,attempt)] ∧
      w.processes[i]? = some (.write call) ∧ ∀ other, (i,other) ∉ attempts w.log := by
  rcases logAfter taken with ⟨same,_⟩ | ⟨e,same,wrote⟩
  · exact .inl (by rw [same])
  rw [same,attemptsAppend]
  cases wrote with
  | external => exact .inl (by simp [attempts,Entry.attempt?])
  | commit => exact .inl (by simp [attempts,Entry.attempt?])
  | @spoken _ i answer call s event found ok next utters _ =>
    unfold WriteCall.utters at utters
    split at utters
    · rename_i id instant pc
      cases Option.some.inj utters
      refine .inr ⟨i,_,call,by simp [attempts,Entry.attempt?]; rfl,found,?_⟩
      exact (books.calls found).unsent (by simp [pc,Sent])
    · cases Option.some.inj utters
      exact .inl (by simp [attempts,Entry.attempt?])
    · simp at utters

theorem onceStep (books : Books config start w) (taken : World.step config w a = some t) :
    ((attempts t.log).map Prod.fst).Nodup ∧
    ∀ i x, (i,x) ∈ attempts t.log → ∃ call, t.processes[i]? = some (.write call) := by
  have stays : ∀ i x, (i,x) ∈ attempts w.log → ∃ call, t.processes[i]? = some (.write call) := by
    intro i x member
    obtain ⟨call,found⟩ := books.writers i x member
    exact writeStays taken found
  rcases attemptsAfter books taken with same | ⟨i,attempt,call,same,found,unsent⟩
  · rw [same]
    exact ⟨books.once,stays⟩
  · rw [same]
    refine ⟨?_,?_⟩
    · rw [List.map_append,List.nodup_append]
      refine ⟨books.once,by simp,?_⟩
      intro x left y right equal
      have last : y = i := by simpa using right
      obtain ⟨⟨j,other⟩,member,rfl⟩ := List.mem_map.mp left
      rw [last] at equal
      cases equal
      exact unsent other member
    · intro j x member
      rcases List.mem_append.mp member with old | fresh
      · exact stays j x old
      · cases List.mem_singleton.mp fresh
        exact writeStays taken found

theorem usedAfter {c : Commit} {db after k x} (applied : c.effect db = some after)
    (found : db.consents.find k = some x) (used : x.consumedAt.isSome = true) :
    ∃ y, after.consents.find k = some y ∧ y.consumedAt.isSome = true := by
  rcases consentAfter applied k with same | ⟨_,_,_,_,absent,_⟩
  · rw [found] at same
    refine ⟨_,same,?_⟩
    cases c with
    | consumeConsent id request action t cost =>
      simp only [consentRow]
      split
      · rfl
      · exact used
    | _ => exact used
  · rw [found] at absent
    simp at absent

theorem consumeMarks {db after id request action instant cost}
    (applied : Commit.effect (.consumeConsent id request action instant cost) db = some after) :
    (∃ x, db.consents.find request.consentId = some x ∧ x.consumedAt = none) ∧
    ∃ y, after.consents.find request.consentId = some y ∧ y.consumedAt.isSome = true := by
  obtain ⟨x,admitted,_⟩ := consumedForm applied
  obtain ⟨present,admits⟩ := Option.filter_eq_some_iff.mp admitted
  have keyed : x.id = request.consentId := Table.findKey present
  simp only [consentAdmits,Bool.and_eq_true,decide_eq_true_eq] at admits
  refine ⟨⟨x,present,admits.1.2⟩,?_⟩
  rcases consentAfter applied request.consentId with same | ⟨_,_,named,_⟩
  · rw [present] at same
    exact ⟨_,same,by simp [consentRow,keyed]⟩
  · simp at named

theorem consumesAfter (books : Books config start w) (taken : World.step config w a = some t) {i k}
    (consumes : Consumes t.log i k) :
    (∃ y, t.db.consents.find k = some y ∧ y.consumedAt.isSome = true) ∧
    (Consumes w.log i k ∨ ((∀ j, ¬Consumes w.log j k) ∧ ∃ answer, a = .advance i answer)) := by
  have persists : Consumes w.log i k → ∃ y, t.db.consents.find k = some y ∧ y.consumedAt.isSome = true := by
    intro old
    obtain ⟨c,found,used⟩ := books.used old
    rcases stepCommit taken with same | ⟨d,applied,_⟩
    · exact ⟨c,by rw [same]; exact found,used⟩
    · exact usedAfter applied found used
  obtain ⟨id,request,action,instant,cost,named,member⟩ := consumes
  have old : ⟨some i,.commit (.consumeConsent id request action instant cost)⟩ ∈ w.log → Consumes w.log i k :=
    fun inside => ⟨id,request,action,instant,cost,named,inside⟩
  rcases logAfter taken with ⟨same,_⟩ | ⟨e,same,wrote⟩
  · rw [same] at member
    exact ⟨persists (old member),.inl (old member)⟩
  rw [same] at member
  rcases List.mem_append.mp member with inside | fresh
  · exact ⟨persists (old inside),.inl (old inside)⟩
  cases List.mem_singleton.mp fresh
  cases wrote with
  | @commit _ _ answer p s c found ok next stands applied answered =>
    obtain ⟨⟨x,present,free⟩,marked⟩ := consumeMarks applied
    rw [named] at present marked
    refine ⟨marked,.inr ⟨?_,answer,rfl⟩⟩
    intro j earlier
    obtain ⟨c,found,used⟩ := books.used earlier
    rw [present] at found
    cases Option.some.inj found
    simp [free] at used
  | @spoken _ _ answer call s event found ok next utters _ =>
    unfold WriteCall.utters at utters
    split at utters <;> simp at utters

theorem spentElse {c : Commit} {db after} (applied : c.effect db = some after)
    (free : budgeted (.commit c) = none) (account s) : spent after account s = spent db account s := by
  have same : after.budgetWindows = db.budgetWindows := by
    refine (frame applied).budgetWindows ?_
    cases c <;> simp_all [touched,budgeted]
  unfold spent usage windowUsage
  rw [same]

theorem spentRead {config : Config} {db after account cost now}
    (applied : Commit.effect (.charge config.readGate account cost now) db = some after) (a s) :
    spent after a s = spent db a s := by
  obtain ⟨⟨charged,reservation⟩,ok,rfl⟩ := Option.map_eq_some_iff.mp applied
  have other : ¬(a,BudgetClass.bookmarkWrite,s) = (account,config.readGate.budgetClass,reservation.windowStart) := by
    simp [config.readClass]
  exact ((reservedUsage (accepted ok)).2 a .bookmarkWrite s).trans (by rw [if_neg other]; simp [spent])

theorem syncBudget {p : Process} {c} (stands : p.commit config w = some c) (reads : ∀ call, p ≠ .write call) :
    budgeted (.commit c) = none ∨ ∃ account now, c = .charge config.readGate account 1 now := by
  rcases foreignCommit stands with ⟨call,same⟩ | foreign
  · exact absurd same (reads call)
  · cases c with
    | charge gate account cost now =>
      obtain ⟨rfl,rfl⟩ := foreign
      exact .inr ⟨account,now,rfl⟩
    | refund => exact foreign.elim
    | _ => exact .inl rfl

theorem holderInitial {p : Process} (first : p.initial = true) (account s) : holder account s p = false := by
  cases p with
  | write call => simp [holder,(initialWrite first).2.2]
  | _ => rfl

theorem syncNext {p : Process} {answer s} (ok : p.next config w answer = some s) (reads : ∀ call, p ≠ .write call)
    (account start) : holder account start s.next = false := by
  cases p with
  | write call => exact absurd rfl (reads call)
  | _ =>
    obtain ⟨r,_,rfl⟩ := Option.map_eq_some_iff.mp ok
    rfl

theorem holdersTake {i : Nat} {p s} (found : w.processes[i]? = some p) (account windowStart) :
    holders (w.take i s) account windowStart + (holder account windowStart p).toNat =
      holders w account windowStart + (holder account windowStart s.next).toNat := by
  obtain ⟨inside,rfl⟩ := List.getElem?_eq_some_iff.mp found
  have counted := List.countP_set (p := holder account windowStart) (a := s.next) inside
  have present := List.boole_getElem_le_countP (p := holder account windowStart) inside
  have bit : ∀ b : Bool, b.toNat = if b = true then 1 else 0 := by decide
  unfold holders World.take
  simp only [bit]
  rw [counted]
  omega

theorem holderWrite (account windowStart) (call : WriteCall) :
    (holder account windowStart (.write call)).toNat =
      call.held.elim 0 (fun r => if account = call.request.accountId ∧ windowStart = r.windowStart then 1 else 0) := by
  cases held : call.held with
  | none => simp [holder,held]
  | some r =>
    simp only [holder,held,Option.map_some,Option.some.injEq,Option.elim_some]
    by_cases same : account = call.request.accountId ∧ windowStart = r.windowStart
    · obtain ⟨rfl,rfl⟩ := same
      simp
    · rw [if_neg same]
      have other : ¬(call.request.accountId = account ∧ r.windowStart = windowStart) :=
        fun h => same ⟨h.1.symm,h.2.symm⟩
      simpa using other

theorem refundedAtLeast {gate : BudgetGate} (db : Database) (account : Uuid) {reservation : Reservation} (write : gate.budgetClass = .bookmarkWrite)
    (one : reservation.cost = 1) (a s) :
    spent db a s - (if a = account ∧ s = reservation.windowStart then 1 else 0) ≤
      spent (gate.refund db account reservation.windowStart reservation.cost) a s := by
  have lower := usageRefunded db account gate.budgetClass reservation.windowStart 1 a .bookmarkWrite s
  have cost : min (reservation.cost.toNat : Int) maxI32 = 1 := by rw [one]; decide
  unfold spent BudgetGate.refund
  rw [cost]
  rw [write] at lower ⊢
  simpa using lower

theorem chargedSpent {gate : BudgetGate} {db account now after reservation} (write : gate.budgetClass = .bookmarkWrite)
    (ok : gate.reserve db account 1 now = .ok (after,reservation)) (a s) :
    spent after a s = spent db a s + (if a = account ∧ s = reservation.windowStart then 1 else 0) := by
  have charged := (reservedUsage ok).2 a .bookmarkWrite s
  rw [write] at charged
  simpa [spent] using charged

theorem usageStep (sound : Sound config w) (books : Books config start w) (taken : World.step config w a = some t)
    (account s) : spent start account s + holders t account s ≤ spent t.db account s := by
  have before := books.usage account s
  cases stepMove taken with
  | @spawn process first =>
    have fresh : holders {w with processes := w.processes ++ [process]} account s = holders w account s := by
      simp [holders,List.countP_append,holderInitial first]
    rw [fresh]
    exact before
  | abandon | tick => exact before
  | @external _ c after outside applied quiet =>
    have same : spent after account s = spent w.db account s := by
      refine spentElse applied ?_ account s
      cases c <;> simp_all [External,budgeted]
    simp only [same]
    exact before
  | @advance i answer p r alive here ok =>
    have count := holdersTake (s := r) here account s
    have kept : (w.take i r).db = r.db := rfl
    rw [kept]
    by_cases reads : ∀ call, p ≠ .write call
    · have nobody : holder account s p = false := by cases p <;> first | rfl | exact absurd rfl (reads _)
      have same : spent r.db account s = spent w.db account s := by
        rcases processIssues ok with (⟨same,_⟩ | ⟨c,stands,_,applied,_⟩) | ⟨same,_⟩
        · rw [same]
        · rcases syncBudget stands reads with free | ⟨_,_,rfl⟩
          · exact spentElse applied free account s
          · exact spentRead applied account s
        · rw [same]
      rw [nobody,syncNext ok reads account s] at count
      rw [same]
      simp only [Bool.toNat_false,Nat.add_zero] at count
      rw [count]
      exact before
    · obtain ⟨call,isWrite⟩ := not_forall.mp reads
      have isWrite := not_not.mp isWrite
      subst isWrite
      obtain ⟨q,stepped,rfl⟩ := Option.map_eq_some_iff.mp ok
      have holds := sound.holds here
      have request : q.next.request = call.request := by
        rcases callKeeps stepped with ⟨same,_⟩ | ⟨same,_⟩ <;> exact same.2.2
      have after : (Step.map Process.write q).next = .write q.next := rfl
      have base : (Step.map Process.write q).db = q.db := rfl
      rw [after,holderWrite,holderWrite,request] at count
      rw [base]
      rcases callLedger stepped with idle | ⟨id,t',reservation,pc,reserved,_,held⟩ |
          ⟨id,reservation,error,pc,refunded,_,held,_⟩ | ⟨id,t',pc,rfl⟩
      · have same : spent q.db account s = spent w.db account s := by
          rcases writeIssues stepped with (⟨same,_⟩ | ⟨c,_,event,applied,_⟩) | ⟨same,_⟩
          · rw [same]
          · exact spentElse applied (idle.2.1 _ event).1 account s
          · rw [same]
        rw [idle.1] at count
        omega
      · simp only [Holds,pc] at holds
        rw [chargedSpent config.writeClass reserved]
        rw [held,holds.2.1] at count
        simp only [Option.elim_none,Option.elim_some] at count
        split at count
        · rw [if_pos (by assumption)]
          omega
        · rw [if_neg (by assumption)]
          omega
      · simp only [Holds,pc] at holds
        obtain ⟨_,_,mine,_⟩ := holds
        have lower := refundedAtLeast w.db call.request.accountId config.writeClass
          ((books.calls here).unit reservation mine) account s
        rw [refunded]
        rw [held,mine] at count
        simp only [Option.elim_none,Option.elim_some] at count
        split at count
        · rw [if_pos (by assumption)] at lower
          omega
        · rw [if_neg (by assumption)] at lower
          omega
      · rw [show (call.at_ (.awaiting id)).held = call.held from rfl] at count
        simp only
        omega

theorem booksStep (sound : Sound config w) (books : Books config start w) (taken : World.step config w a = some t) :
    Books config start t where
  known := knownStep books taken
  calls := callsStep sound books taken
  writers := (onceStep books taken).2
  once := (onceStep books taken).1
  used := fun consumes => (consumesAfter books taken consumes).1
  alone := by
    intro i j k left right
    rcases (consumesAfter books taken left).2 with old | ⟨fresh,answer,rfl⟩
    · rcases (consumesAfter books taken right).2 with old' | ⟨fresh,_⟩
      · exact books.alone old old'
      · exact absurd old (fresh i)
    · rcases (consumesAfter books taken right).2 with old' | ⟨_,answer',same⟩
      · exact absurd old' (fresh j)
      · cases same
        rfl
  usage := usageStep sound books taken

end Step

theorem booksRun {config db now labels w} {guard : World → Action → Prop}
    (run : Run (World.step config) guard (World.start db now) labels w) : Books config db w :=
  (run.preserves (fun w => Sound config w ∧ Books config db w)
    (fun _ _ _ inv _ taken => ⟨soundStep inv.1 taken,booksStep inv.1 inv.2 taken⟩)
    ⟨soundStart config db now,booksStart config db now⟩).2

end RatatoskrX.Ledger
