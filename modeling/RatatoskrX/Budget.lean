import RatatoskrX.Schema

/-! The durable budget gate and its window statements. A charge is one transaction
that ends holding the row lock of its window, so it is one step here; a refused
charge rolls back and leaves the database it started from. -/
namespace RatatoskrX.Budget
open Relational Schema

inductive BudgetError where
  | exhausted (resetAt : DateTime)
  | costExceedsCap (cost cap : UInt32)
  | invalidConfiguration (reason : String)
  | persistence
  deriving DecidableEq, Repr

structure Reservation where
  windowStart : DateTime
  cost : UInt32
  deriving DecidableEq, Repr

structure BudgetInspection where
  eligible : Bool
  resetAt : DateTime
  deriving DecidableEq, Repr

/- The constructor's check is a field: a gate with another window length is not built. -/
structure BudgetGate where
  budgetClass : BudgetClass
  requestCapPerWindow : UInt32
  windowSeconds : Int
  windowValid : 1 ≤ windowSeconds ∧ windowSeconds ≤ maxI32

theorem quarterHourValid : 1 ≤ (900 : Int) ∧ (900 : Int) ≤ maxI32 := by decide

def BudgetGate.withClock (budgetClass : BudgetClass) (cap : UInt32) (windowSeconds : Int) :
    Except BudgetError BudgetGate :=
  if valid : 1 ≤ windowSeconds ∧ windowSeconds ≤ maxI32 then .ok ⟨budgetClass,cap,windowSeconds,valid⟩
  else .error (.invalidConfiguration "window_seconds must be between 1 and 2147483647")

/-- Aligns now down to its window; the source falls back to now where the start is not representable. -/
def windowStartFor (now : DateTime) (windowSeconds : Int) : DateTime :=
  let epochSeconds := now.micros / 1000000
  let start := epochSeconds / windowSeconds * windowSeconds
  (DateTime.ofMicros (start * 1000000)).getD now

def windowUsage (db : Database) (account : Uuid) (budgetClass : BudgetClass) (windowStart : DateTime) :
    Option Int :=
  (db.budgetWindows.find (account,budgetClass,windowStart)).map (·.usedRequests)

def usage (db : Database) (account : Uuid) (budgetClass : BudgetClass) (windowStart : DateTime) : Int :=
  (windowUsage db account budgetClass windowStart).getD 0

def insertWindow (db : Database) (w : BudgetWindow) : Database :=
  {db with budgetWindows := db.budgetWindows.insertIgnore w}

def setUsage (db : Database) (account : Uuid) (budgetClass : BudgetClass) (windowStart : DateTime)
    (f : Int → Int) : Database :=
  {db with
    budgetWindows := db.budgetWindows.update (fun w => w.key = (account,budgetClass,windowStart))
      (fun w => {w with usedRequests := f w.usedRequests}) (fun _ => rfl)}

/- ENSURE_WINDOW: the two integer columns with their CHECK constraints, and the
account's foreign key where a row is inserted. -/
def ensureWindow (db : Database) (account : Uuid) (budgetClass : BudgetClass) (windowStart : DateTime)
    (windowSeconds requestCap : Int) : Option Database :=
  if 0 < windowSeconds ∧ windowSeconds ≤ maxI32 ∧ 0 < requestCap ∧ requestCap ≤ maxI32 ∧
      ((db.accounts.find account).isSome ∨
        (db.budgetWindows.find (account,budgetClass,windowStart)).isSome) then
    some (insertWindow db ⟨account,budgetClass,windowStart,windowSeconds,requestCap,0⟩)
  else none

def bumpUsage (db : Database) (account : Uuid) (budgetClass : BudgetClass) (windowStart : DateTime)
    (cost : Int) : Database :=
  setUsage db account budgetClass windowStart (fun used => used + cost)

inductive WindowCharge where
  | accepted (db : Database)
  | exhausted

def charge (db : Database) (account : Uuid) (budgetClass : BudgetClass) (windowStart : DateTime)
    (windowSeconds requestCap cost : Int) : Option WindowCharge := do
  let ensured ← ensureWindow db account budgetClass windowStart windowSeconds requestCap
  let used ← windowUsage ensured account budgetClass windowStart
  if used + cost > requestCap then some .exhausted
  else some (.accepted (bumpUsage ensured account budgetClass windowStart cost))

def refund (db : Database) (account : Uuid) (budgetClass : BudgetClass) (windowStart : DateTime)
    (cost : Int) : Database :=
  setUsage db account budgetClass windowStart (fun used => max (used - cost) 0)

namespace BudgetGate

def resetAt (gate : BudgetGate) (windowStart : DateTime) : Except BudgetError DateTime :=
  match windowStart.checkedAddSigned gate.windowSeconds with
  | some instant => .ok instant
  | none => .error (.invalidConfiguration "window_seconds is too large for the window's reset instant")

def reserve (gate : BudgetGate) (db : Database) (account : Uuid) (cost : UInt32) (now : DateTime) :
    Except BudgetError (Database × Reservation) :=
  if gate.requestCapPerWindow < cost then .error (.costExceedsCap cost gate.requestCapPerWindow)
  else
    let windowStart := windowStartFor now gate.windowSeconds
    match charge db account gate.budgetClass windowStart gate.windowSeconds
        gate.requestCapPerWindow.toNat cost.toNat with
    | none => .error .persistence
    | some (.accepted charged) => .ok (charged,⟨windowStart,cost⟩)
    | some .exhausted => do throw (.exhausted (← gate.resetAt windowStart))

def inspect (gate : BudgetGate) (db : Database) (account : Uuid) (cost : UInt32) (now : DateTime) :
    Except BudgetError BudgetInspection := do
  let windowStart := windowStartFor now gate.windowSeconds
  let resetAt ← gate.resetAt windowStart
  let used := usage db account gate.budgetClass windowStart
  return ⟨cost ≤ gate.requestCapPerWindow && decide (used + cost.toNat ≤ gate.requestCapPerWindow.toNat),resetAt⟩

/-- refund, with the source's clamp of the cost to the integer column. -/
def refund (gate : BudgetGate) (db : Database) (account : Uuid) (windowStart : DateTime) (cost : UInt32) :
    Database :=
  Budget.refund db account gate.budgetClass windowStart (min (cost.toNat : Int) maxI32)

end BudgetGate

theorem usageInserted (db : Database) (w : BudgetWindow) (zero : w.usedRequests = 0) (a c s) :
    usage (insertWindow db w) a c s = usage db a c s := by
  simp only [usage,windowUsage,insertWindow,Table.findInsertIgnore]
  cases db.budgetWindows.find (a,c,s) with
  | some old => rfl
  | none =>
    simp only [Option.none_or]
    split
    · simp [zero]
    · rfl

theorem usageSet (db : Database) (account budgetClass windowStart f a c s) :
    windowUsage (setUsage db account budgetClass windowStart f) a c s =
      (windowUsage db a c s).map
        (fun used => if (a,c,s) = (account,budgetClass,windowStart) then f used else used) := by
  simp only [windowUsage,setUsage,Table.findUpdate,Option.map_map]
  cases found : db.budgetWindows.find (a,c,s) with
  | none => rfl
  | some w =>
    have keyed := Table.findKey found
    simp only [Option.map_some,Function.comp_apply,keyed,decide_eq_true_eq]
    split <;> rfl

theorem chargeForm {db account budgetClass windowStart seconds cap cost charged} :
    charge db account budgetClass windowStart seconds cap cost = some (.accepted charged) ↔
      ∃ ensured used, ensureWindow db account budgetClass windowStart seconds cap = some ensured ∧
        windowUsage ensured account budgetClass windowStart = some used ∧ used + cost ≤ cap ∧
        charged = bumpUsage ensured account budgetClass windowStart cost := by
  simp only [charge,bind,Option.bind_eq_some_iff]
  constructor
  · rintro ⟨ensured,inserted,used,found,last⟩
    split at last
    · simp at last
    rename_i fits
    simp only [Option.some.injEq,WindowCharge.accepted.injEq] at last
    exact ⟨ensured,used,inserted,found,by omega,last.symm⟩
  · rintro ⟨ensured,used,inserted,found,fits,rfl⟩
    exact ⟨ensured,inserted,used,found,if_neg (by omega)⟩

theorem ensureForm {db account budgetClass windowStart seconds cap ensured}
    (ok : ensureWindow db account budgetClass windowStart seconds cap = some ensured) :
    ensured = insertWindow db ⟨account,budgetClass,windowStart,seconds,cap,0⟩ := by
  unfold ensureWindow at ok
  split at ok
  · exact (Option.some.inj ok).symm
  · simp at ok

theorem usageCharged {db account budgetClass windowStart seconds cap cost charged}
    (ok : charge db account budgetClass windowStart seconds cap cost = some (.accepted charged)) :
    usage db account budgetClass windowStart + cost ≤ cap ∧
    ∀ a c s, usage charged a c s = usage db a c s +
      if (a,c,s) = (account,budgetClass,windowStart) then cost else 0 := by
  obtain ⟨ensured,used,inserted,hu,fits,rfl⟩ := chargeForm.mp ok
  have same := usageInserted db ⟨account,budgetClass,windowStart,seconds,cap,0⟩ rfl
  rw [← ensureForm inserted] at same
  have present : used = usage db account budgetClass windowStart := by
    rw [← same,usage,hu]; rfl
  refine ⟨by omega,?_⟩
  intro a c s
  rw [← same]
  unfold usage bumpUsage
  rw [usageSet]
  by_cases here : (a,c,s) = (account,budgetClass,windowStart)
  · cases here
    simp [hu]
  · cases windowUsage ensured a c s <;> simp [here]

theorem reserveForm {gate : BudgetGate} {db account cost now after reservation} :
    gate.reserve db account cost now = .ok (after,reservation) ↔ ¬gate.requestCapPerWindow < cost ∧
      charge db account gate.budgetClass (windowStartFor now gate.windowSeconds) gate.windowSeconds
        gate.requestCapPerWindow.toNat cost.toNat = some (.accepted after) ∧
      reservation = ⟨windowStartFor now gate.windowSeconds,cost⟩ := by
  unfold BudgetGate.reserve
  constructor
  · intro ok
    split at ok
    · simp at ok
    rename_i covered
    simp only at ok
    split at ok
    · simp at ok
    · rename_i charged accepted
      cases Except.ok.inj ok
      exact ⟨covered,accepted,rfl⟩
    · simp only [bind,Except.bind] at ok
      split at ok <;> simp [throw,throwThe,MonadExceptOf.throw] at ok
  · rintro ⟨covered,accepted,rfl⟩
    rw [if_neg covered]
    simp only [accepted]

theorem reservedUsage {gate : BudgetGate} {db account cost now after reservation}
    (ok : gate.reserve db account cost now = .ok (after,reservation)) :
    reservation.cost = cost ∧ ∀ a c s, usage after a c s = usage db a c s +
      if (a,c,s) = (account,gate.budgetClass,reservation.windowStart) then (cost.toNat : Int) else 0 := by
  obtain ⟨_,charged,rfl⟩ := reserveForm.mp ok
  exact ⟨rfl,(usageCharged charged).2⟩

theorem usageRefunded (db : Database) (account budgetClass windowStart) (cost : Int) (a c s) :
    usage db a c s - (if (a,c,s) = (account,budgetClass,windowStart) then cost else 0) ≤
      usage (refund db account budgetClass windowStart cost) a c s ∨ cost < 0 := by
  by_cases negative : cost < 0
  · exact .inr negative
  refine .inl ?_
  unfold usage refund
  rw [usageSet]
  by_cases here : (a,c,s) = (account,budgetClass,windowStart)
  · cases here
    cases windowUsage db account budgetClass windowStart with
    | none =>
      simp only [Option.map_none,Option.getD_none,if_true]
      omega
    | some used =>
      simp only [Option.map_some,Option.getD_some,if_true]
      omega
  · cases windowUsage db a c s <;> simp [here]

end RatatoskrX.Budget
