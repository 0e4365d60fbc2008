import RatatoskrX.WriteCalls

/-! Whether the read-only inspection of a budget window and the charge agree. The
inspection compares in i64; the charge first creates the window's row, whose request_cap
column is a positive i32, and computes the reset instant only where it refuses. -/
namespace RatatoskrX.Eligibility
open Relational Schema Budget Journal WriteCalls

section Gate
variable (gate : BudgetGate) (db : Database) (account : Uuid) (cost : UInt32) (now : DateTime)

def Fits : Prop :=
  cost ≤ gate.requestCapPerWindow ∧
    usage db account gate.budgetClass (windowStartFor now gate.windowSeconds) + cost.toNat ≤
      gate.requestCapPerWindow.toNat

/- request_cap integer NOT NULL CHECK (request_cap > 0) -/
def Storable : Prop := 0 < gate.requestCapPerWindow.toNat ∧ (gate.requestCapPerWindow.toNat : Int) ≤ maxI32

/- The window ends at an instant that chrono can represent. -/
def Bounded : Prop :=
  ((windowStartFor now gate.windowSeconds).checkedAddSigned gate.windowSeconds).isSome = true

instance : Decidable (Fits gate db account cost now) := by unfold Fits; infer_instance
instance : Decidable (Storable gate) := by unfold Storable; infer_instance
instance : Decidable (Bounded gate now) := by unfold Bounded; infer_instance

end Gate

section Agreement
variable {gate : BudgetGate} {db : Database} {account : Uuid} {cost : UInt32} {now : DateTime}

theorem resetBounded {windowStart} :
    ((windowStart : DateTime).checkedAddSigned gate.windowSeconds).isSome = true ↔
      ∃ t, gate.resetAt windowStart = .ok t := by
  unfold BudgetGate.resetAt
  cases windowStart.checkedAddSigned gate.windowSeconds <;> simp

theorem resetFails {windowStart error} (failed : gate.resetAt windowStart = .error error) :
    ∃ reason, error = .invalidConfiguration reason := by
  unfold BudgetGate.resetAt at failed
  split at failed
  · simp at failed
  · exact ⟨_,(Except.error.inj failed).symm⟩

theorem ensureStored (gate : BudgetGate) (budgetClass windowStart) (known : (db.accounts.find account).isSome = true) :
    (Storable gate → ∃ ensured, ensureWindow db account budgetClass windowStart gate.windowSeconds
      gate.requestCapPerWindow.toNat = some ensured ∧
      windowUsage ensured account budgetClass windowStart = some (usage db account budgetClass windowStart)) ∧
    (¬Storable gate → ensureWindow db account budgetClass windowStart gate.windowSeconds
      gate.requestCapPerWindow.toNat = none) := by
  obtain ⟨positive,bounded⟩ := gate.windowValid
  constructor
  · rintro ⟨some_,small⟩
    refine ⟨_,if_pos ⟨by omega,bounded,by omega,small,.inl known⟩,?_⟩
    simp only [usage,windowUsage,insertWindow,Table.findInsertIgnore]
    cases db.budgetWindows.find (account,budgetClass,windowStart) <;> simp
  · intro refused
    refine if_neg ?_
    rintro ⟨_,_,some_,small,_⟩
    exact refused ⟨by omega,small⟩

theorem reserveCases (gate : BudgetGate) (cost now) (known : (db.accounts.find account).isSome = true) :
    (gate.requestCapPerWindow < cost ∧
      gate.reserve db account cost now = .error (.costExceedsCap cost gate.requestCapPerWindow)) ∨
    (cost ≤ gate.requestCapPerWindow ∧ ¬Storable gate ∧ gate.reserve db account cost now = .error .persistence) ∨
    (cost ≤ gate.requestCapPerWindow ∧ Storable gate ∧ ¬Fits gate db account cost now ∧
      gate.reserve db account cost now =
        (gate.resetAt (windowStartFor now gate.windowSeconds)).bind (fun t => .error (.exhausted t))) ∨
    (Storable gate ∧ Fits gate db account cost now ∧ ∃ after, gate.reserve db account cost now = .ok after) := by
  unfold BudgetGate.reserve
  by_cases above : gate.requestCapPerWindow < cost
  · exact .inl ⟨above,if_pos above⟩
  rw [if_neg above]
  have below : cost ≤ gate.requestCapPerWindow := UInt32.not_lt.mp above
  obtain ⟨stored,unstored⟩ := ensureStored gate gate.budgetClass (windowStartFor now gate.windowSeconds) known
  by_cases storable : Storable gate
  · obtain ⟨ensured,inserted,used⟩ := stored storable
    simp only [charge,inserted,used,bind,Option.bind_some]
    by_cases fits : Fits gate db account cost now
    · have room := fits.2
      rw [if_neg (by omega)]
      exact .inr (.inr (.inr ⟨storable,fits,_,rfl⟩))
    · have full : ¬(usage db account gate.budgetClass (windowStartFor now gate.windowSeconds) + cost.toNat ≤
          gate.requestCapPerWindow.toNat) := fun room => fits ⟨below,room⟩
      rw [if_pos (by omega)]
      exact .inr (.inr (.inl ⟨below,storable,fits,rfl⟩))
  · simp only [charge,unstored storable,bind,Option.bind_none]
    exact .inr (.inl ⟨below,storable,trivial⟩)

theorem inspectCases (gate : BudgetGate) (db account cost now) :
    (∃ t, gate.resetAt (windowStartFor now gate.windowSeconds) = .ok t ∧
      gate.inspect db account cost now = .ok ⟨decide (Fits gate db account cost now),t⟩) ∨
    (¬Bounded gate now ∧ ∃ error, gate.inspect db account cost now = .error error) := by
  unfold BudgetGate.inspect
  cases reset : gate.resetAt (windowStartFor now gate.windowSeconds) with
  | ok t =>
    have same : (decide (cost ≤ gate.requestCapPerWindow) &&
        decide (usage db account gate.budgetClass (windowStartFor now gate.windowSeconds) + cost.toNat ≤
          gate.requestCapPerWindow.toNat)) = decide (Fits gate db account cost now) := by
      rw [Bool.eq_iff_iff,decide_eq_true_iff,Bool.and_eq_true,decide_eq_true_iff,decide_eq_true_iff]
      rfl
    refine .inl ⟨t,rfl,?_⟩
    simp only [reset,bind,Except.bind,pure,Except.pure,same]
  | error error =>
    refine .inr ⟨?_,error,by simp only [reset,bind,Except.bind]⟩
    intro bounded
    obtain ⟨t,ok⟩ := resetBounded.mp bounded
    rw [reset] at ok
    simp at ok

/- What is claimed of one inspection and one charge from the same state at the same
instant. The inspection is one select: no step of it changes the archive. -/
def Agrees (gate : BudgetGate) (db : Database) (account : Uuid) (cost : UInt32) (now : DateTime) : Prop :=
  ((∃ i, gate.inspect db account cost now = .ok i ∧ i.eligible = true) ↔
    ∃ granted, gate.reserve db account cost now = .ok granted) ∧
  (∀ t, gate.reserve db account cost now = .error (.exhausted t) →
    ∃ eligible, gate.inspect db account cost now = .ok ⟨eligible,t⟩) ∧
  ∀ (call : WriteCall) (sha256 : List UInt8 → List UInt8) (operationId : Uuid) (t : DateTime) (answer : Answer)
    (s : Step WriteCall), call.pc = .inspect operationId t → call.next gate sha256 db now answer = some s →
    s.db = db ∧ s.event = none

theorem inspectQuiet {call : WriteCall} {sha256 operationId t answer s} (pc : call.pc = .inspect operationId t)
    (ok : call.next gate sha256 db now answer = some s) : s.db = db ∧ s.event = none := by
  simp only [WriteCall.next,pc] at ok
  split at ok
  · rw [quietCases ok]
    exact ⟨rfl,rfl⟩
  · rcases readingCases ok with ⟨_,rfl⟩ | ⟨_,rfl⟩ <;> exact ⟨rfl,rfl⟩

/- A cost that does not fit is refused by both. One that fits is granted exactly where the
cap can be stored, and reported eligible exactly where the window's end is representable. -/
theorem inspectionAgreesExactly (gate : BudgetGate) (db : Database) (account : Uuid) (cost : UInt32)
    (now : DateTime) (known : (db.accounts.find account).isSome = true) :
    Agrees gate db account cost now ↔
      (Fits gate db account cost now → (Storable gate ↔ Bounded gate now)) := by
  have eligible : (∃ i, gate.inspect db account cost now = .ok i ∧ i.eligible = true) ↔
      Bounded gate now ∧ Fits gate db account cost now := by
    rcases inspectCases gate db account cost now with
      ⟨t,reset,form⟩ | ⟨unbounded,error,form⟩
    · simp [form,Bounded,resetBounded.mpr ⟨t,reset⟩]
    · simp [form,unbounded]
  have granted : (∃ granted, gate.reserve db account cost now = .ok granted) ↔
      Storable gate ∧ Fits gate db account cost now := by
    rcases reserveCases gate cost now known with
      ⟨above,form⟩ | ⟨_,unstored,form⟩ | ⟨_,_,full,form⟩ | ⟨stored,fits,after,form⟩
    · have apart : ¬Fits gate db account cost now := fun fits => UInt32.not_lt.mpr fits.1 above
      simp [form,apart]
    · simp [form,unstored]
    · simp only [form,full,and_false,iff_false]
      rintro ⟨_,ok⟩
      cases reset : gate.resetAt (windowStartFor now gate.windowSeconds) <;> simp [reset,Except.bind] at ok
    · simp [form,stored,fits]
  unfold Agrees
  rw [eligible,granted]
  constructor
  · rintro ⟨same,_⟩ fits
    exact ⟨fun stored => (same.mpr ⟨stored,fits⟩).1,fun bounded => (same.mp ⟨bounded,fits⟩).1⟩
  · intro same
    refine ⟨⟨?_,?_⟩,?_,fun _ _ _ _ _ _ pc ok => inspectQuiet pc ok⟩
    · rintro ⟨bounded,fits⟩
      exact ⟨(same fits).mpr bounded,fits⟩
    · rintro ⟨stored,fits⟩
      exact ⟨(same fits).mp stored,fits⟩
    · intro t refused
      -- an exhausted refusal has computed the reset instant the inspection reports
      rcases reserveCases gate cost now known with
        ⟨_,form⟩ | ⟨_,_,form⟩ | ⟨_,_,_,form⟩ | ⟨_,_,_,form⟩ <;> rw [form] at refused
      · simp at refused
      · simp at refused
      · cases reset : gate.resetAt (windowStartFor now gate.windowSeconds) with
        | error error =>
          obtain ⟨reason,rfl⟩ := resetFails reset
          simp [reset,Except.bind] at refused
        | ok instant =>
          simp only [reset,Except.bind,Except.error.injEq,BudgetError.exhausted.injEq] at refused
          subst refused
          rcases inspectCases gate db account cost now with
            ⟨t,again,form⟩ | ⟨unbounded,_⟩
          · rw [reset] at again
            cases Except.ok.inj again
            exact ⟨_,form⟩
          · exact absurd (resetBounded.mpr ⟨instant,reset⟩) unbounded
      · simp at refused

end Agreement

section Sample

/- A gate the constructor accepts, with an account that has used nothing. -/
def gateOf (cap : UInt32) : BudgetGate := ⟨.bookmarkWrite,cap,900,quarterHourValid⟩

def sampleInstant : DateTime := ⟨1784797200000000,DateTime.openingRepresentable⟩

def sampleArchive : Database := {Database.empty with accounts := .single ⟨1,7,.connected⟩}

theorem inspectionAgreesAtTen :
    (sampleArchive.accounts.find 1).isSome = true ∧ Fits (gateOf 10) sampleArchive 1 1 sampleInstant ∧
      (Agrees (gateOf 10) sampleArchive 1 1 sampleInstant ↔
        (Fits (gateOf 10) sampleArchive 1 1 sampleInstant →
          (Storable (gateOf 10) ↔ Bounded (gateOf 10) sampleInstant))) :=
  ⟨by decide,by decide +kernel,inspectionAgreesExactly (gateOf 10) sampleArchive 1 1 sampleInstant (by decide)⟩

/- The constructor accepts a cap of 2147483648, which no request_cap column can hold. -/
theorem unstorableCapDisagrees :
    ¬∀ budgetClass cap windowSeconds gate db account cost now,
      BudgetGate.withClock budgetClass cap windowSeconds = .ok gate → (db.accounts.find account).isSome = true →
      Agrees gate db account cost now := by
  intro claim
  have agrees := claim .bookmarkWrite 2147483648 900 (gateOf 2147483648) sampleArchive 1 1 sampleInstant rfl (by decide)
  have eligible : (((gateOf 2147483648).inspect sampleArchive 1 1 sampleInstant).toOption.map
      BudgetInspection.eligible) = some true := by decide +kernel
  have refused : ((gateOf 2147483648).reserve sampleArchive 1 1 sampleInstant).toOption.isSome = false := by
    decide +kernel
  cases inspected : (gateOf 2147483648).inspect sampleArchive 1 1 sampleInstant with
  | error error => simp [inspected,Except.toOption] at eligible
  | ok i =>
    obtain ⟨granted,ok⟩ := agrees.1.mp ⟨i,inspected,by simpa [inspected,Except.toOption] using eligible⟩
    simp [ok,Except.toOption] at refused

end Sample
end RatatoskrX.Eligibility
