import Mathlib.Algebra.BigOperators.Group.List.Basic
import Mathlib.Algebra.Ring.Int.Defs
import RatatoskrX.Foundation.ReadCommitted
import RatatoskrX.Foundation.Transition
import RatatoskrX.Budget

/-! Any number of budget gates over one table of windows, statement by statement. A
charge is a transaction of three statements; a refund is one statement outside any. Both
meet on the row locks of the table. -/
namespace RatatoskrX.Windows
open Relational Schema Budget Transition ReadCommitted

abbrev Key := Uuid × BudgetClass × DateTime

/- What the gates share: the cap and the window length, and the accounts that exist. -/
structure Limits where
  cap : UInt32
  windowSeconds : Int
  windowValid : 1 ≤ windowSeconds ∧ windowSeconds ≤ maxI32
  accounts : Uuid → Bool

def Limits.gate (limits : Limits) (budgetClass : BudgetClass) : BudgetGate :=
  ⟨budgetClass,limits.cap,limits.windowSeconds,limits.windowValid⟩

inductive ReservePc where
  | ensure
  | lock
  | compare (used : Int)
  | commit
  | done (result : Except BudgetError Reservation)

structure ReserveCall where
  budgetClass : BudgetClass
  account : Uuid
  cost : UInt32
  now : DateTime
  pc : ReservePc

def ReserveCall.at_ (call : ReserveCall) (pc : ReservePc) : ReserveCall := {call with pc := pc}

def Limits.start (limits : Limits) (call : ReserveCall) : DateTime := windowStartFor call.now limits.windowSeconds

def Limits.key (limits : Limits) (call : ReserveCall) : Key := (call.account,call.budgetClass,limits.start call)

/- A committed charge that no refund has returned. -/
structure Charge where
  call : Nat
  key : Key
  cost : UInt32
  deriving DecidableEq

structure Gates where
  windows : Store Key BudgetWindow
  calls : List ReserveCall
  refunding : List Nat
  outstanding : List Charge

def Gates.empty : Gates := ⟨.empty,[],[],[]⟩

/- A statement succeeds, fails without effect, or commits with its acknowledgement lost. -/
inductive Reply where | ok | fault | lost
  deriving DecidableEq, Repr

inductive Action where
  | reserve (budgetClass : BudgetClass) (account : Uuid) (cost : UInt32) (now : DateTime)
  | advance (index : Nat) (reply : Reply)
  | refund (index : Nat) (reply : Reply)

namespace Gates

def move (w : Gates) (index : Nat) (call : ReserveCall) (windows : Store Key BudgetWindow) (pc : ReservePc) : Gates :=
  {w with windows := windows, calls := w.calls.set index (call.at_ pc)}

def fail (w : Gates) (index : Nat) (call : ReserveCall) : Gates :=
  w.move index call (w.windows.abort index) (.done (.error .persistence))

/-- ENSURE_WINDOW: the insert waits for a row that another transaction has inserted and not yet committed. -/
def ensure (limits : Limits) (w : Gates) (index : Nat) (call : ReserveCall) : Option Gates :=
  let key := limits.key call
  if 0 < limits.cap.toNat ∧ (limits.cap.toNat : Int) ≤ maxI32 then
    if (w.windows.committed key).isSome then some (w.move index call w.windows .lock)
    else if w.windows.Free index key then
      if limits.accounts call.account then
        some (w.move index call
          (w.windows.put index key
            (some ⟨call.account,call.budgetClass,limits.start call,limits.windowSeconds,limits.cap.toNat,0⟩)) .lock)
      else some (w.fail index call)
    else none
  else some (w.fail index call)

/-- READ_USAGE, for update. -/
def lock (limits : Limits) (w : Gates) (index : Nat) (call : ReserveCall) : Option Gates :=
  let key := limits.key call
  if w.windows.Free index key then
    match w.windows.view index key with
    | none => some (w.fail index call)
    | some row => some (w.move index call (w.windows.lock index key) (.compare row.usedRequests))
  else none

/-- The comparison with the cap: a rollback, or BUMP_USAGE. -/
def compare (limits : Limits) (w : Gates) (index : Nat) (call : ReserveCall) (used : Int) : Gates :=
  let key := limits.key call
  if used + call.cost.toNat > limits.cap.toNat then
    w.move index call (w.windows.abort index) (.done (match (limits.gate call.budgetClass).resetAt (limits.start call) with
      | .ok resetAt => .error (.exhausted resetAt)
      | .error error => .error error))
  else
    w.move index call (w.windows.put index key ((w.windows.view index key).map
      (fun row => {row with usedRequests := row.usedRequests + call.cost.toNat}))) .commit

def charged (limits : Limits) (w : Gates) (index : Nat) (call : ReserveCall) (pc : ReservePc) : Gates :=
  {w.move index call (w.windows.commit index) pc with
    outstanding := w.outstanding ++ [⟨index,limits.key call,call.cost⟩]}

def advance (limits : Limits) (w : Gates) (index : Nat) (call : ReserveCall) (reply : Reply) : Option Gates :=
  match call.pc,reply with
  | .done _,_ => none
  | .ensure,.ok => w.ensure limits index call
  | .lock,.ok => w.lock limits index call
  | .compare used,.ok => some (w.compare limits index call used)
  | .commit,.ok => some (w.charged limits index call (.done (.ok ⟨limits.start call,call.cost⟩)))
  | .commit,.lost => some (w.charged limits index call (.done (.error .persistence)))
  | _,_ => some (w.fail index call)

def granted (w : Gates) (index : Nat) : Option (ReserveCall × Reservation) :=
  match w.calls[index]? with
  | some call => match call.pc with
    | .done (.ok reservation) => some (call,reservation)
    | _ => none
  | none => none

/-- REFUND_USAGE, which waits for the row; a window without a row is left as it is. -/
def refunded (w : Gates) (index : Nat) (key : Key) (cost : UInt32) : Gates :=
  {w with
    windows := w.windows.write key ((w.windows.committed key).map
      (fun row => {row with usedRequests := max (row.usedRequests - min (cost.toNat : Int) maxI32) 0}))
    outstanding := w.outstanding.filter (fun c => c.call ≠ index)}

/- One refund for each granted reservation, with its own window and cost. -/
def step (limits : Limits) (w : Gates) : Action → Option Gates
  | .reserve budgetClass account cost now =>
    some {w with
      calls := w.calls ++ [⟨budgetClass,account,cost,now,
        if limits.cap < cost then .done (.error (.costExceedsCap cost limits.cap)) else .ensure⟩]}
  | .advance index reply => do
    let call ← w.calls[index]?
    w.advance limits index call reply
  | .refund index reply =>
    if index ∈ w.refunding then none
    else do
      let (call,reservation) ← w.granted index
      let key : Key := (call.account,call.budgetClass,reservation.windowStart)
      let asked := {w with refunding := index::w.refunding}
      match reply with
      | .fault => some asked
      | _ => if (w.windows.held key).isSome then none else some (asked.refunded index key reservation.cost)

end Gates

/- used_requests of a window, zero where it has no row. -/
def Gates.used (w : Gates) (key : Key) : Int := ((w.windows.committed key).map BudgetWindow.usedRequests).getD 0

def costs (charges : List Charge) (key : Key) : Int :=
  (charges.map (fun c => if c.key = key then (c.cost.toNat : Int) else 0)).sum

section Costs

theorem costsNonneg (charges : List Charge) (key) : 0 ≤ costs charges key := by
  induction charges with
  | nil => simp [costs]
  | cons c rest ih =>
    simp only [costs,List.map_cons,List.sum_cons] at ih ⊢
    split <;> omega

theorem costsAppend (charges : List Charge) (c : Charge) (key) :
    costs (charges ++ [c]) key = costs charges key + if c.key = key then (c.cost.toNat : Int) else 0 := by
  simp [costs]

theorem costsAbsent {charges : List Charge} {index} (absent : index ∉ charges.map Charge.call) :
    charges.filter (fun c => c.call ≠ index) = charges := by
  rw [List.filter_eq_self]
  intro c member
  simp only [ne_eq,decide_not,Bool.not_eq_eq_eq_not,Bool.not_true,decide_eq_false_iff_not]
  rintro rfl
  exact absent (List.mem_map_of_mem member)

theorem costsReturned {charges : List Charge} {c} (once : (charges.map Charge.call).Nodup) (member : c ∈ charges)
    (key) : costs (charges.filter (fun x => x.call ≠ c.call)) key =
      costs charges key - if c.key = key then (c.cost.toNat : Int) else 0 := by
  induction charges with
  | nil => simp at member
  | cons x rest ih =>
    simp only [List.map_cons,List.nodup_cons] at once
    rcases List.mem_cons.mp member with rfl | inside
    · rw [List.filter_cons_of_neg (by simp),costsAbsent once.1]
      simp only [costs,List.map_cons,List.sum_cons]
      omega
    · have apart : x.call ≠ c.call := by
        intro same
        exact once.1 (same ▸ List.mem_map_of_mem inside)
      have rest' := ih once.2 inside
      rw [List.filter_cons_of_pos (by simp [apart])]
      simp only [costs,List.map_cons,List.sum_cons] at rest' ⊢
      omega

theorem costsMember {charges : List Charge} {c} (once : (charges.map Charge.call).Nodup) (member : c ∈ charges) :
    (c.cost.toNat : Int) ≤ costs charges c.key := by
  have returned := costsReturned once member c.key
  have rest := costsNonneg (charges.filter (fun x => x.call ≠ c.call)) c.key
  simp only [if_true] at returned
  omega

end Costs

section Sound
variable (limits : Limits)

def opened (call : ReserveCall) : BudgetWindow :=
  ⟨call.account,call.budgetClass,limits.start call,limits.windowSeconds,limits.cap.toNat,0⟩

/- What a charge holds at each of its points, by the committed version of its row. -/
def Stage (committed : Option BudgetWindow) (call : ReserveCall) (version : Option BudgetWindow) : Prop :=
  (committed = none → limits.accounts call.account = true) ∧
  match call.pc with
  | .lock => committed = none ∧ version = some (opened limits call)
  | .compare used =>
    version = some (committed.getD (opened limits call)) ∧ used = (committed.getD (opened limits call)).usedRequests
  | .commit =>
    version = some {committed.getD (opened limits call) with
      usedRequests := (committed.getD (opened limits call)).usedRequests + call.cost.toNat} ∧
    (committed.getD (opened limits call)).usedRequests + call.cost.toNat ≤ limits.cap.toNat
  | _ => False

structure Sound (w : Gates) : Prop where
  counted : ∀ key, w.used key = costs w.outstanding key ∧ w.used key ≤ limits.cap.toNat
  held : ∀ {key d}, w.windows.held key = some d →
    ∃ call, w.calls[d.owner]? = some call ∧ limits.key call = key ∧
      Stage limits (w.windows.committed key) call d.version
  holds : ∀ {i : Nat} {call}, w.calls[i]? = some call → (call.pc = .commit ∨ ∃ used, call.pc = .compare used) →
    ∃ d, w.windows.held (limits.key call) = some d ∧ d.owner = i
  fits : ∀ {i : Nat} {call}, w.calls[i]? = some call → (∀ result, call.pc ≠ .done result) → call.cost ≤ limits.cap
  stored : ∀ {i : Nat} {call}, w.calls[i]? = some call → (∀ result, call.pc ≠ .done result) → call.pc ≠ .ensure →
    0 < limits.cap.toNat ∧ (limits.cap.toNat : Int) ≤ maxI32
  once : (w.outstanding.map Charge.call).Nodup
  charges : ∀ {c}, c ∈ w.outstanding → ∃ call result, w.calls[c.call]? = some call ∧ call.pc = .done result ∧
    limits.key call = c.key ∧ call.cost = c.cost ∧ (c.cost.toNat : Int) ≤ maxI32
  granted : ∀ {i : Nat} {call reservation}, w.calls[i]? = some call → call.pc = .done (.ok reservation) →
    reservation = ⟨limits.start call,call.cost⟩ ∧ (i ∈ w.refunding ∨ ∃ c ∈ w.outstanding, c.call = i)

theorem soundEmpty : Sound limits Gates.empty := by
  constructor <;> simp [Gates.empty,Gates.used,Store.empty,costs]

end Sound

section Steps
variable {limits : Limits} {w : Gates} {index : Nat} {call : ReserveCall}

theorem setCall {calls : List ReserveCall} {i : Nat} {x} (found : calls[i]? = some x) (y j) :
    (calls.set i y)[j]? = if j = i then some y else calls[j]? := by
  by_cases same : j = i
  · subst same
    obtain ⟨inside,_⟩ := List.getElem?_eq_some_iff.mp found
    simp [inside]
  · simp [same,Ne.symm same]

/- What a step of a charge may do before its commit: the committed versions stay, and of
the locks only its own on its own window may change. -/
structure Moves (limits : Limits) (w : Gates) (index : Nat) (call : ReserveCall) (windows : Store Key BudgetWindow)
    (pc : ReservePc) : Prop where
  committed : windows.committed = w.windows.committed
  other : ∀ {key d}, d.owner ≠ index → (windows.held key = some d ↔ w.windows.held key = some d)
  mine : ∀ {key d}, windows.held key = some d → d.owner = index →
    limits.key call = key ∧ Stage limits (w.windows.committed key) (call.at_ pc) d.version
  holds : (pc = .commit ∨ ∃ used, pc = .compare used) → ∃ d, windows.held (limits.key call) = some d ∧ d.owner = index
  stored : (∀ result, pc ≠ .done result) → 0 < limits.cap.toNat ∧ (limits.cap.toNat : Int) ≤ maxI32
  ungranted : ∀ reservation, pc ≠ .done (.ok reservation)

theorem soundMove (sound : Sound limits w) (found : w.calls[index]? = some call)
    (open_ : ∀ result, call.pc ≠ .done result) {windows pc} (moves : Moves limits w index call windows pc) :
    Sound limits (w.move index call windows pc) where
  counted key := by
    have same : (w.move index call windows pc).used key = w.used key := by
      simp only [Gates.used,Gates.move,moves.committed]
    rw [same]
    exact sound.counted key
  held := by
    intro key d held
    simp only [Gates.move,moves.committed] at held ⊢
    by_cases mine : d.owner = index
    · obtain ⟨keyed,stage⟩ := moves.mine held mine
      exact ⟨call.at_ pc,by rw [setCall found,if_pos mine],keyed,stage⟩
    · obtain ⟨other,there,keyed,stage⟩ := sound.held ((moves.other mine).mp held)
      exact ⟨other,by rw [setCall found,if_neg mine]; exact there,keyed,stage⟩
  holds := by
    intro i other there stands
    simp only [Gates.move,setCall found] at there ⊢
    split at there
    · rename_i same
      cases Option.some.inj there
      subst same
      exact moves.holds stands
    · rename_i apart
      obtain ⟨d,held,owner⟩ := sound.holds there stands
      exact ⟨d,(moves.other (by rw [owner]; exact apart)).mpr held,owner⟩
  fits := by
    intro i other there going
    simp only [Gates.move,setCall found] at there
    split at there
    · cases Option.some.inj there
      have fits : call.cost ≤ limits.cap := sound.fits found open_
      exact fits
    · exact sound.fits there going
  stored := by
    intro i other there going past
    simp only [Gates.move,setCall found] at there
    split at there
    · cases Option.some.inj there
      exact moves.stored going
    · exact sound.stored there going past
  once := sound.once
  charges := by
    intro c member
    obtain ⟨other,result,there,done,rest⟩ := sound.charges member
    refine ⟨other,result,?_,done,rest⟩
    simp only [Gates.move,setCall found]
    split
    · rename_i same
      rw [same,found] at there
      cases Option.some.inj there
      exact absurd done (open_ result)
    · exact there
  granted := by
    intro i other reservation there done
    simp only [Gates.move,setCall found] at there
    split at there
    · cases Option.some.inj there
      exact absurd done (moves.ungranted reservation)
    · exact sound.granted there done

/- A rollback, whatever the call then answers. -/
theorem movesAbort {pc result} (ends : pc = .done result) (refused : ∀ reservation, result ≠ .ok reservation) :
    Moves limits w index call (w.windows.abort index) pc where
  committed := rfl
  other := by
    intro key d apart
    simp [apart]
  mine := by
    intro key d held mine
    simp only [Store.abortHeld] at held
    exact absurd mine held.2
  holds := by
    rintro (stands | ⟨used,stands⟩) <;> simp [ends] at stands
  stored := fun going => absurd ends (going result)
  ungranted := by
    intro reservation done
    rw [ends] at done
    exact refused reservation (ReservePc.done.inj done)

theorem movesPut {pc version} (sound : Sound limits w) (found : w.calls[index]? = some call)
    (free : w.windows.Free index (limits.key call)) (stored : 0 < limits.cap.toNat ∧ (limits.cap.toNat : Int) ≤ maxI32)
    (going : ∀ result, pc ≠ .done result)
    (stage : Stage limits (w.windows.committed (limits.key call)) (call.at_ pc) version) :
    Moves limits w index call (w.windows.put index (limits.key call) version) pc where
  committed := rfl
  other := by
    intro key d apart
    simp only [Store.putHeld]
    split
    · rename_i same
      subst same
      constructor
      · intro held
        cases Option.some.inj held
        exact absurd rfl apart
      · intro held
        exact absurd (free d held) apart
    · rfl
  mine := by
    intro key d held mine
    simp only [Store.putHeld] at held
    split at held
    · rename_i same
      subst same
      cases Option.some.inj held
      exact ⟨rfl,stage⟩
    · -- a call holds no row but its own
      rename_i apart
      obtain ⟨other,there,keyed,_⟩ := sound.held held
      rw [mine,found] at there
      cases Option.some.inj there
      exact absurd keyed.symm apart
  holds := fun _ => ⟨⟨index,version⟩,by simp,rfl⟩
  stored := fun _ => stored
  ungranted := fun _ => going _

theorem soundFail (sound : Sound limits w) (found : w.calls[index]? = some call)
    (open_ : ∀ result, call.pc ≠ .done result) : Sound limits (w.fail index call) :=
  soundMove sound found open_ (movesAbort rfl (by simp))

theorem soundEnsure {t} (sound : Sound limits w) (found : w.calls[index]? = some call) (pc : call.pc = .ensure)
    (ok : w.ensure limits index call = some t) : Sound limits t := by
  have open_ : ∀ result, call.pc ≠ .done result := by simp [pc]
  unfold Gates.ensure at ok
  simp only at ok
  split at ok
  · rename_i stored
    split at ok
    · -- the row is there: nothing is inserted and nothing is held
      cases Option.some.inj ok
      refine soundMove sound found open_ ⟨rfl,fun _ => Iff.rfl,?_,by simp,fun _ => stored,by simp⟩
      intro key d held mine
      obtain ⟨other,there,keyed,_,stage⟩ := sound.held held
      rw [mine,found] at there
      cases Option.some.inj there
      simp [pc] at stage
    · rename_i absent
      split at ok
      · rename_i free
        split at ok
        · rename_i known
          cases Option.some.inj ok
          have none : w.windows.committed (limits.key call) = none := by simpa using absent
          exact soundMove sound found open_
            (movesPut sound found free stored (by simp) ⟨fun _ => known,none,rfl⟩)
        · cases Option.some.inj ok
          exact soundFail sound found open_
      · simp at ok
  · cases Option.some.inj ok
    exact soundFail sound found open_

theorem viewFree (sound : Sound limits w) (found : w.calls[index]? = some call) (pc : call.pc = .lock)
    (free : w.windows.Free index (limits.key call)) {row} (seen : w.windows.view index (limits.key call) = some row) :
    row = (w.windows.committed (limits.key call)).getD (opened limits call) ∧
      (w.windows.committed (limits.key call) = none → limits.accounts call.account = true) := by
  cases held : w.windows.held (limits.key call) with
  | none =>
    rw [Store.viewOther (by simp [held])] at seen
    simp [seen]
  | some d =>
    have mine := free d held
    rw [Store.viewHeld held mine] at seen
    obtain ⟨other,there,_,known,stage⟩ := sound.held held
    rw [mine,found] at there
    cases Option.some.inj there
    simp only [pc] at stage
    rw [stage.2] at seen
    cases Option.some.inj seen
    exact ⟨by simp [stage.1],known⟩

theorem soundLock {t} (sound : Sound limits w) (found : w.calls[index]? = some call) (pc : call.pc = .lock)
    (ok : w.lock limits index call = some t) : Sound limits t := by
  have open_ : ∀ result, call.pc ≠ .done result := by simp [pc]
  have stored := sound.stored found open_ (by simp [pc])
  unfold Gates.lock at ok
  simp only at ok
  split at ok
  · rename_i free
    split at ok
    · cases Option.some.inj ok
      exact soundFail sound found open_
    · rename_i row seen
      cases Option.some.inj ok
      obtain ⟨form,known⟩ := viewFree sound found pc free seen
      refine soundMove sound found open_ (movesPut sound found free stored (by simp) ⟨known,?_,?_⟩)
      · rw [seen,form]
        rfl
      · rw [form]
        rfl
  · simp at ok

theorem heldStage (sound : Sound limits w) (found : w.calls[index]? = some call)
    (stands : call.pc = .commit ∨ ∃ used, call.pc = .compare used) :
    ∃ d, w.windows.held (limits.key call) = some d ∧ d.owner = index ∧
      Stage limits (w.windows.committed (limits.key call)) call d.version := by
  obtain ⟨d,held,mine⟩ := sound.holds found stands
  obtain ⟨other,there,_,stage⟩ := sound.held held
  rw [mine,found] at there
  cases Option.some.inj there
  exact ⟨d,held,mine,stage⟩

theorem soundCompare {used} (sound : Sound limits w) (found : w.calls[index]? = some call)
    (pc : call.pc = .compare used) : Sound limits (w.compare limits index call used) := by
  have open_ : ∀ result, call.pc ≠ .done result := by simp [pc]
  have stored := sound.stored found open_ (by simp [pc])
  obtain ⟨d,held,mine,known,stage⟩ := heldStage sound found (.inr ⟨used,pc⟩)
  simp only [pc] at stage
  unfold Gates.compare
  simp only
  split
  · refine soundMove sound found open_ (movesAbort rfl ?_)
    split <;> simp
  · rename_i fits
    have free : w.windows.Free index (limits.key call) := by
      intro d' held'
      rw [held] at held'
      cases Option.some.inj held'
      exact mine
    refine soundMove sound found open_ (movesPut sound found free stored (by simp) ⟨known,?_,?_⟩)
    · rw [Store.viewHeld held mine,stage.1]
      rfl
    · have room := Int.not_lt.mp fits
      rw [stage.2] at room
      exact room

theorem chargedRow (sound : Sound limits w) (found : w.calls[index]? = some call) (pc : call.pc = .commit) (key) :
    w.windows.view index key = if key = limits.key call then
      some {(w.windows.committed key).getD (opened limits call) with
        usedRequests := ((w.windows.committed key).getD (opened limits call)).usedRequests + call.cost.toNat}
    else w.windows.committed key := by
  split
  · rename_i same
    subst same
    obtain ⟨d,held,mine,_,stage⟩ := heldStage sound found (.inl pc)
    simp only [pc] at stage
    rw [Store.viewHeld held mine,stage.1]
  · rename_i apart
    refine Store.viewOther ?_
    intro d held mine
    obtain ⟨other,there,keyed,_⟩ := sound.held held
    rw [mine,found] at there
    cases Option.some.inj there
    exact apart keyed.symm

theorem openedUsed (committed : Option BudgetWindow) (call : ReserveCall) :
    (committed.getD (opened limits call)).usedRequests = (committed.map BudgetWindow.usedRequests).getD 0 := by
  cases committed <;> rfl

theorem soundCharged {result} (sound : Sound limits w) (found : w.calls[index]? = some call) (pc : call.pc = .commit)
    (answers : ∀ reservation, result = .ok reservation → reservation = ⟨limits.start call,call.cost⟩) :
    Sound limits (w.charged limits index call (.done result)) := by
  have open_ : ∀ result, call.pc ≠ .done result := by simp [pc]
  have stored := sound.stored found open_ (by simp [pc])
  have small := UInt32.le_iff_toNat_le.mp (sound.fits found open_)
  have row := chargedRow sound found pc
  have unpaid : index ∉ w.outstanding.map Charge.call := by
    intro paid
    obtain ⟨c,member,same⟩ := List.mem_map.mp paid
    obtain ⟨other,result,there,done,_⟩ := sound.charges member
    rw [same,found] at there
    cases Option.some.inj there
    exact open_ result done
  constructor
  case counted =>
    intro key
    have before := sound.counted key
    have used : (w.charged limits index call (.done result)).used key =
        w.used key + if limits.key call = key then (call.cost.toNat : Int) else 0 := by
      simp only [Gates.used,Gates.charged,Gates.move,Store.commitCommitted,row]
      split
      · rename_i same
        simp [same,openedUsed]
      · rename_i apart
        simp [Ne.symm apart]
    have sum : costs (w.charged limits index call (.done result)).outstanding key = _ :=
      costsAppend w.outstanding ⟨index,limits.key call,call.cost⟩ key
    rw [used,sum,before.1]
    refine ⟨rfl,?_⟩
    split
    · rename_i same
      subst same
      obtain ⟨d,_,_,_,stage⟩ := heldStage sound found (.inl pc)
      simp only [pc,openedUsed] at stage
      rw [← before.1]
      exact stage.2
    · rw [← before.1]
      simpa using before.2
  case held =>
    intro key d held
    simp only [Gates.charged,Gates.move,Store.commitHeld,Store.commitCommitted] at held ⊢
    obtain ⟨other,there,keyed,stage⟩ := sound.held held.1
    refine ⟨other,by rw [setCall found,if_neg held.2]; exact there,keyed,?_⟩
    -- the row that the commit changed was held by this call alone
    rw [row key,if_neg ?_]
    · exact stage
    · rintro rfl
      obtain ⟨mine,here,owner⟩ := sound.holds found (.inl pc)
      rw [held.1] at here
      cases Option.some.inj here
      exact held.2 owner
  case holds =>
    intro i other there stands
    simp only [Gates.charged,Gates.move,setCall found] at there ⊢
    split at there
    · cases Option.some.inj there
      simp [ReserveCall.at_] at stands
    · rename_i apart
      obtain ⟨d,held,owner⟩ := sound.holds there stands
      exact ⟨d,Store.commitHeld.mpr ⟨held,by rw [owner]; exact apart⟩,owner⟩
  case fits =>
    intro i other there going
    simp only [Gates.charged,Gates.move,setCall found] at there
    split at there
    · cases Option.some.inj there
      exact absurd rfl (going result)
    · exact sound.fits there going
  case stored =>
    intro i other there going past
    simp only [Gates.charged,Gates.move,setCall found] at there
    split at there
    · cases Option.some.inj there
      exact absurd rfl (going result)
    · exact sound.stored there going past
  case once =>
    simp only [Gates.charged,List.map_append,List.map_cons,List.map_nil]
    refine List.nodup_append.mpr ⟨sound.once,by simp,?_⟩
    intro a left b right
    have last : b = index := by simpa using right
    rintro rfl
    exact unpaid (last ▸ left)
  case charges =>
    intro c member
    simp only [Gates.charged,Gates.move,setCall found] at member ⊢
    rcases List.mem_append.mp member with old | new
    · obtain ⟨other,result',there,done,rest⟩ := sound.charges old
      refine ⟨other,result',?_,done,rest⟩
      split
      · rename_i same
        exact absurd (same ▸ List.mem_map_of_mem old) unpaid
      · exact there
    · cases List.mem_singleton.mp new
      exact ⟨_,result,if_pos rfl,rfl,rfl,rfl,by simp only; omega⟩
  case granted =>
    intro i other reservation there done
    simp only [Gates.charged,Gates.move,setCall found] at there ⊢
    split at there
    · rename_i same
      cases Option.some.inj there
      refine ⟨answers reservation (ReservePc.done.inj done),.inr ⟨_,List.mem_append_right _ (List.mem_singleton_self _),?_⟩⟩
      exact same.symm
    · obtain ⟨form,paid⟩ := sound.granted there done
      refine ⟨form,paid.imp_right ?_⟩
      rintro ⟨c,member,mine⟩
      exact ⟨c,List.mem_append_left _ member,mine⟩

theorem grantedCall {reservation} (ok : w.granted index = some (call,reservation)) :
    w.calls[index]? = some call ∧ call.pc = .done (.ok reservation) := by
  unfold Gates.granted at ok
  split at ok
  · rename_i other found
    split at ok
    · rename_i pc
      simp only [Option.some.injEq,Prod.mk.injEq] at ok
      obtain ⟨rfl,rfl⟩ := ok
      exact ⟨found,pc⟩
    · simp at ok
  · simp at ok

theorem refundCases {reply t} (ok : w.step limits (.refund index reply) = some t) :
    index ∉ w.refunding ∧ ∃ call reservation, w.granted index = some (call,reservation) ∧
      (reply = .fault ∧ t = {w with refunding := index::w.refunding} ∨
        reply ≠ .fault ∧ w.windows.held (call.account,call.budgetClass,reservation.windowStart) = none ∧
          t = Gates.refunded {w with refunding := index::w.refunding} index
            (call.account,call.budgetClass,reservation.windowStart) reservation.cost) := by
  simp only [Gates.step] at ok
  split at ok
  · simp at ok
  rename_i fresh
  simp only [bind,Option.bind_eq_some_iff] at ok
  obtain ⟨⟨call,reservation⟩,granted,ok⟩ := ok
  refine ⟨fresh,call,reservation,granted,?_⟩
  simp only at ok
  split at ok
  · exact .inl ⟨rfl,(Option.some.inj ok).symm⟩
  · rename_i answered
    split at ok
    · simp at ok
    · rename_i free
      exact .inr ⟨answered,by simpa using free,(Option.some.inj ok).symm⟩

theorem soundAsked (sound : Sound limits w) : Sound limits {w with refunding := index::w.refunding} :=
  {sound with
    granted := by
      intro i other reservation there done
      obtain ⟨form,paid⟩ := sound.granted there done
      exact ⟨form,paid.imp_left (List.mem_cons_of_mem _)⟩}

theorem soundRefunded {c} (sound : Sound limits w) (member : c ∈ w.outstanding) (asked : c.call ∈ w.refunding)
    (free : w.windows.held c.key = none) : Sound limits (w.refunded c.call c.key c.cost) := by
  obtain ⟨_,_,_,_,_,_,small⟩ := sound.charges member
  have clamped : min (c.cost.toNat : Int) maxI32 = c.cost.toNat := Int.min_eq_left small
  constructor
  case counted =>
    intro key
    have before := sound.counted key
    have returned := costsReturned sound.once member key
    -- the window still carries the reservation, so the floor at zero is not reached
    have carried := costsMember sound.once member
    have used : (w.refunded c.call c.key c.cost).used key =
        w.used key - if c.key = key then (c.cost.toNat : Int) else 0 := by
      simp only [Gates.used,Gates.refunded,Store.writeCommitted,clamped]
      by_cases same : key = c.key
      · subst same
        have here := before.1
        simp only [Gates.used] at here
        cases row : w.windows.committed c.key with
        | none =>
          simp only [row,Option.map_none,Option.getD_none] at here
          simp only [if_true,Option.map_none,Option.getD_none]
          omega
        | some r =>
          simp only [row,Option.map_some,Option.getD_some] at here
          simp only [if_true,Option.map_some,Option.getD_some]
          omega
      · simp [same,Ne.symm same]
    have sum : costs (w.refunded c.call c.key c.cost).outstanding key = _ := returned
    rw [used,sum,before.1]
    refine ⟨rfl,?_⟩
    rw [← before.1]
    split <;> omega
  case held =>
    intro key d held
    simp only [Gates.refunded,Store.writeHeld,Store.writeCommitted] at held ⊢
    have apart : key ≠ c.key := by
      rintro rfl
      rw [free] at held
      simp at held
    rw [if_neg apart]
    exact sound.held held
  case holds => exact sound.holds
  case fits => exact sound.fits
  case stored => exact sound.stored
  case once => exact sound.once.sublist (List.filter_sublist.map _)
  case charges => exact fun kept => sound.charges (List.mem_filter.mp kept).1
  case granted =>
    intro i other reservation there done
    obtain ⟨form,paid⟩ := sound.granted there done
    refine ⟨form,?_⟩
    by_cases same : i = c.call
    · exact .inl (same ▸ asked)
    · refine paid.imp_right ?_
      rintro ⟨d,inside,mine⟩
      exact ⟨d,List.mem_filter.mpr ⟨inside,by simp [mine,same]⟩,mine⟩

theorem soundReserved {budgetClass account cost now} (sound : Sound limits w) {t}
    (ok : w.step limits (.reserve budgetClass account cost now) = some t) : Sound limits t := by
  cases Option.some.inj ok
  have calls : ∀ {i : Nat} {other : ReserveCall}, (w.calls ++ [ReserveCall.mk budgetClass account cost now
      (if limits.cap < cost then .done (.error (.costExceedsCap cost limits.cap)) else .ensure)])[i]? = some other →
      w.calls[i]? = some other ∨ other = ⟨budgetClass,account,cost,now,
        if limits.cap < cost then .done (.error (.costExceedsCap cost limits.cap)) else .ensure⟩ := by
    intro i other there
    by_cases inside : i < w.calls.length
    · rw [List.getElem?_append_left inside] at there
      exact .inl there
    · rw [List.getElem?_append_right (Nat.le_of_not_lt inside)] at there
      exact .inr (by simpa using List.mem_of_getElem? there)
  have kept : ∀ {i : Nat} {other}, w.calls[i]? = some other → (w.calls ++ [ReserveCall.mk budgetClass account cost now
      (if limits.cap < cost then .done (.error (.costExceedsCap cost limits.cap)) else .ensure)])[i]? = some other := by
    intro i other there
    rw [List.getElem?_append_left (List.getElem?_eq_some_iff.mp there).1]
    exact there
  constructor
  case counted => exact sound.counted
  case held =>
    intro key d held
    obtain ⟨other,there,rest⟩ := sound.held held
    exact ⟨other,kept there,rest⟩
  case holds =>
    intro i other there stands
    rcases calls there with old | rfl
    · exact sound.holds old stands
    · by_cases above : limits.cap < cost <;> simp [above] at stands
  case fits =>
    intro i other there going
    rcases calls there with old | rfl
    · exact sound.fits old going
    · by_cases above : limits.cap < cost
      · simp [above] at going
      · exact UInt32.not_lt.mp above
  case stored =>
    intro i other there going past
    rcases calls there with old | rfl
    · exact sound.stored old going past
    · by_cases above : limits.cap < cost
      · simp [above] at going
      · simp [above] at past
  case once => exact sound.once
  case charges =>
    intro c member
    obtain ⟨other,result,there,rest⟩ := sound.charges member
    exact ⟨other,result,kept there,rest⟩
  case granted =>
    intro i other reservation there done
    rcases calls there with old | rfl
    · exact sound.granted old done
    · by_cases above : limits.cap < cost <;> simp [above] at done

theorem grantedCharge {reservation} (sound : Sound limits w) (fresh : index ∉ w.refunding)
    (granted : w.granted index = some (call,reservation)) :
    ∃ c ∈ w.outstanding, c.call = index ∧ c.key = (call.account,call.budgetClass,reservation.windowStart) ∧
      c.cost = reservation.cost := by
  obtain ⟨found,pc⟩ := grantedCall granted
  obtain ⟨rfl,paid⟩ := sound.granted found pc
  rcases paid with asked | ⟨c,member,mine⟩
  · exact absurd asked fresh
  · obtain ⟨other,_,there,_,keyed,cost,_⟩ := sound.charges member
    rw [mine,found] at there
    cases Option.some.inj there
    exact ⟨c,member,mine,keyed.symm,cost.symm⟩

theorem soundStep {a t} (sound : Sound limits w) (taken : w.step limits a = some t) : Sound limits t := by
  cases a with
  | reserve budgetClass account cost now => exact soundReserved sound taken
  | refund index reply =>
    obtain ⟨fresh,call,reservation,granted,⟨_,rfl⟩ | ⟨_,free,rfl⟩⟩ := refundCases taken
    · exact soundAsked sound
    · obtain ⟨c,member,rfl,keyed,cost⟩ := grantedCharge sound fresh granted
      rw [← keyed] at free ⊢
      rw [← cost]
      exact soundRefunded (soundAsked sound) member (List.mem_cons_self ..) free
  | advance index reply =>
    simp only [Gates.step,bind,Option.bind_eq_some_iff] at taken
    obtain ⟨call,found,ok⟩ := taken
    unfold Gates.advance at ok
    split at ok
    · simp at ok
    · exact soundEnsure sound found (by assumption) ok
    · exact soundLock sound found (by assumption) ok
    · cases Option.some.inj ok
      exact soundCompare sound found (by assumption)
    · cases Option.some.inj ok
      exact soundCharged sound found (by assumption) (by rintro _ ⟨⟩; rfl)
    · cases Option.some.inj ok
      exact soundCharged sound found (by assumption) (by simp)
    · rename_i others _ _ _ _ _
      cases Option.some.inj ok
      refine soundFail sound found ?_
      intro result done
      exact others result done

/- A step of a charge other than its commit: it grants nothing and leaves every committed row alone. -/
structure Uncharged (limits : Limits) (w : Gates) (index : Nat) (call : ReserveCall) (reply : Reply) (t : Gates) : Prop where
  committed : t.windows.committed = w.windows.committed
  outstanding : t.outstanding = w.outstanding
  calls : ∃ pc, t.calls = w.calls.set index (call.at_ pc) ∧ (∀ reservation, pc ≠ .done (.ok reservation)) ∧
    ∀ resetAt, pc = .done (.error (.exhausted resetAt)) →
      ∃ used, call.pc = .compare used ∧ used + call.cost.toNat > limits.cap.toNat
  unsent : reply = .lost → call.pc ≠ .commit

/- What the call of a committed charge is told: its reservation, or nothing of the commit. -/
def Told (limits : Limits) (call : ReserveCall) : Reply → Except BudgetError Reservation → Prop
  | .ok,result => result = .ok ⟨limits.start call,call.cost⟩
  | .lost,result => result = .error .persistence
  | .fault,_ => False

theorem advanceCases {reply t} (taken : w.step limits (.advance index reply) = some t) :
    ∃ call, w.calls[index]? = some call ∧ (∀ result, call.pc ≠ .done result) ∧
      ((call.pc = .commit ∧ ∃ result, Told limits call reply result ∧ t = w.charged limits index call (.done result)) ∨
        Uncharged limits w index call reply t) := by
  simp only [Gates.step,bind,Option.bind_eq_some_iff] at taken
  obtain ⟨call,found,ok⟩ := taken
  refine ⟨call,found,?_,?_⟩
  · intro result done
    simp [Gates.advance,done] at ok
  have moved : ∀ {windows pc}, w.move index call windows pc = t → windows.committed = w.windows.committed →
      (∀ reservation, pc ≠ .done (.ok reservation)) → (∀ resetAt, pc = .done (.error (.exhausted resetAt)) →
        ∃ used, call.pc = .compare used ∧ used + call.cost.toNat > limits.cap.toNat) →
      (reply = .lost → call.pc ≠ .commit) → Uncharged limits w index call reply t := by
    rintro windows pc rfl same ungranted full unsent
    exact ⟨same,rfl,⟨pc,rfl,ungranted,full⟩,unsent⟩
  have failed : w.fail index call = t → (reply = .lost → call.pc ≠ .commit) → Uncharged limits w index call reply t :=
    fun form => moved form rfl (by simp) (by simp)
  unfold Gates.advance at ok
  split at ok
  · simp at ok
  · refine .inr ?_
    unfold Gates.ensure at ok
    simp only at ok
    split at ok
    · split at ok
      · exact moved (Option.some.inj ok) rfl (by simp) (by simp) (by simp)
      · split at ok
        · split at ok
          · exact moved (Option.some.inj ok) rfl (by simp) (by simp) (by simp)
          · exact failed (Option.some.inj ok) (by simp)
        · simp at ok
    · exact failed (Option.some.inj ok) (by simp)
  · refine .inr ?_
    unfold Gates.lock at ok
    simp only at ok
    split at ok
    · split at ok
      · exact failed (Option.some.inj ok) (by simp)
      · exact moved (Option.some.inj ok) rfl (by simp) (by simp) (by simp)
    · simp at ok
  · rename_i used pc
    refine .inr ?_
    have form := Option.some.inj ok
    unfold Gates.compare at form
    simp only at form
    split at form
    · rename_i full
      refine moved form rfl ?_ (fun _ _ => ⟨used,pc,full⟩) (by simp)
      split <;> simp
    · exact moved form rfl (by simp) (by simp) (by simp)
  · exact .inl ⟨by assumption,_,rfl,(Option.some.inj ok).symm⟩
  · exact .inl ⟨by assumption,_,rfl,(Option.some.inj ok).symm⟩
  · rename_i lost
    exact .inr (failed (Option.some.inj ok) (fun answered pc => lost pc answered))

theorem doneStays {a t result} (taken : w.step limits a = some t) (found : w.calls[index]? = some call)
    (done : call.pc = .done result) : t.calls[index]? = some call := by
  cases a with
  | reserve budgetClass account cost now =>
    cases Option.some.inj taken
    simp only [List.getElem?_append_left (List.getElem?_eq_some_iff.mp found).1]
    exact found
  | refund other reply =>
    obtain ⟨_,_,_,_,⟨_,rfl⟩ | ⟨_,_,rfl⟩⟩ := refundCases taken <;> exact found
  | advance other reply =>
    obtain ⟨mover,there,going,step⟩ := advanceCases taken
    have apart : index ≠ other := by
      rintro rfl
      rw [found] at there
      cases Option.some.inj there
      exact going result done
    obtain ⟨pc,calls⟩ : ∃ pc, t.calls = w.calls.set other (mover.at_ pc) := by
      rcases step with ⟨_,_,_,rfl⟩ | quiet
      · exact ⟨_,rfl⟩
      · obtain ⟨pc,calls,_⟩ := quiet.calls
        exact ⟨pc,calls⟩
    rw [calls,setCall there,if_neg apart]
    exact found

end Steps

section Runs
variable {limits : Limits} {labels : List Action} {w : Gates}

theorem soundRun (run : Run (Gates.step limits) free Gates.empty labels w) : Sound limits w :=
  run.preserves (Sound limits) (fun _ _ _ sound _ taken => soundStep sound taken) (soundEmpty limits)

/- A step changes the committed rows only as the commit of a charge or as a refund, and
then only the row of its own window. -/
def OwnRow (limits : Limits) (p : Gates) (a : Action) (q : Gates) : Prop :=
  ∀ key, q.windows.committed key ≠ p.windows.committed key →
    (∃ index reply call, a = .advance index reply ∧ p.calls[index]? = some call ∧ call.pc = .commit ∧
      key = limits.key call) ∨
    ∃ index reply call reservation, a = .refund index reply ∧ p.granted index = some (call,reservation) ∧
      key = (call.account,call.budgetClass,reservation.windowStart)

theorem ownRow {p a q} (sound : Sound limits p) (taken : p.step limits a = some q) : OwnRow limits p a q := by
  intro key changed
  cases a with
  | reserve budgetClass account cost now =>
    cases Option.some.inj taken
    exact absurd rfl changed
  | advance index reply =>
    obtain ⟨call,found,_,⟨pc,_,_,rfl⟩ | quiet⟩ := advanceCases taken
    · refine .inl ⟨index,reply,call,rfl,found,pc,?_⟩
      by_contra apart
      simp only [Gates.charged,Gates.move,Store.commitCommitted,chargedRow sound found pc,if_neg apart] at changed
      exact changed rfl
    · exact absurd (congrFun quiet.committed key) changed
  | refund index reply =>
    obtain ⟨_,call,reservation,granted,⟨_,rfl⟩ | ⟨_,_,rfl⟩⟩ := refundCases taken
    · exact absurd rfl changed
    · refine .inr ⟨index,reply,call,reservation,rfl,granted,?_⟩
      by_contra apart
      simp only [Gates.refunded,Store.writeCommitted,if_neg apart] at changed
      exact changed rfl

theorem refusedQuiet {p index reply q call error} (passes : Passes (Gates.step limits) free Gates.empty labels w p
      (.advance index reply) q) (found : w.calls[index]? = some call) (refused : call.pc = .done (.error error))
    (answered : error ≠ .persistence) : q.windows.committed = p.windows.committed := by
  obtain ⟨before,after,_,first,_,taken,last⟩ := passes
  obtain ⟨mover,there,_,⟨pc,result,told,rfl⟩ | quiet⟩ := advanceCases taken
  · have here : (p.charged limits index mover (.done result)).calls[index]? = some (mover.at_ (.done result)) := by
      simp [Gates.charged,Gates.move,setCall there]
    have stays := last.preserves (fun s => s.calls[index]? = some (mover.at_ (.done result)))
      (fun _ _ _ stands _ taken => doneStays taken stands rfl) here
    rw [found] at stays
    cases Option.some.inj stays
    cases ReservePc.done.inj refused
    cases reply with
    | ok => cases told
    | fault => exact told.elim
    | lost =>
      cases told
      exact absurd rfl answered
  · exact quiet.committed

theorem exhaustedFull {p index reply q call resetAt} (sound : Sound limits p)
    (taken : p.step limits (.advance index reply) = some q) (found : q.calls[index]? = some call)
    (refused : call.pc = .done (.error (.exhausted resetAt))) :
    limits.cap.toNat < p.used (limits.key call) + call.cost.toNat := by
  obtain ⟨mover,there,_,⟨pc,result,told,rfl⟩ | quiet⟩ := advanceCases taken
  · simp only [Gates.charged,Gates.move,setCall there,if_true] at found
    cases Option.some.inj found
    cases ReservePc.done.inj refused
    cases reply <;> simp [Told] at told
  · obtain ⟨pc,calls,_,full⟩ := quiet.calls
    rw [calls,setCall there,if_pos rfl] at found
    cases Option.some.inj found
    obtain ⟨used,stands,above⟩ := full resetAt refused
    obtain ⟨d,_,_,_,stage⟩ := heldStage sound there (.inr ⟨used,stands⟩)
    simp only [stands,openedUsed] at stage
    rw [stage.2] at above
    exact above

/- The statements of one charge come to the transaction that the rest of the development
takes as one step: its commit is an accepted charge of the archive it commits to. -/
theorem chargedAtomically {p index call result db} (sound : Sound limits p) (found : p.calls[index]? = some call)
    (pc : call.pc = .commit) (rows : ∀ key, db.budgetWindows.find key = p.windows.committed key)
    (known : ∀ account, limits.accounts account = true → (db.accounts.find account).isSome = true) :
    ∃ after, charge db call.account call.budgetClass (limits.start call) limits.windowSeconds limits.cap.toNat
        call.cost.toNat = some (.accepted after) ∧
      ∀ key, after.budgetWindows.find key = (p.charged limits index call result).windows.committed key := by
  have stored := sound.stored found (by simp [pc]) (by simp [pc])
  obtain ⟨positive,bounded⟩ := limits.windowValid
  obtain ⟨d,_,_,accounts,stage⟩ := heldStage sound found (.inl pc)
  simp only [pc] at stage
  have here := rows (limits.key call)
  have account : (db.accounts.find call.account).isSome = true ∨
      (db.budgetWindows.find (call.account,call.budgetClass,limits.start call)).isSome = true := by
    cases row : p.windows.committed (limits.key call) with
    | none => exact .inl (known _ (accounts row))
    | some r =>
      rw [row] at here
      exact .inr (by rw [show db.budgetWindows.find (call.account,call.budgetClass,limits.start call) = some r from here]; rfl)
  have ensured : ensureWindow db call.account call.budgetClass (limits.start call) limits.windowSeconds
      limits.cap.toNat = some (insertWindow db (opened limits call)) :=
    if_pos ⟨by omega,bounded,by omega,stored.2,account⟩
  have inserted : ∀ key, (insertWindow db (opened limits call)).budgetWindows.find key =
      (p.windows.committed key).or (if limits.key call = key then some (opened limits call) else none) := by
    intro key
    simp only [insertWindow,Table.findInsertIgnore,rows]
    rfl
  have usage : windowUsage (insertWindow db (opened limits call)) call.account call.budgetClass (limits.start call) =
      some ((p.windows.committed (limits.key call)).getD (opened limits call)).usedRequests := by
    have found := inserted (limits.key call)
    simp only [if_true] at found
    simp only [windowUsage,show (call.account,call.budgetClass,limits.start call) = limits.key call from rfl,found]
    cases p.windows.committed (limits.key call) <;> rfl
  refine ⟨bumpUsage (insertWindow db (opened limits call)) call.account call.budgetClass (limits.start call)
    call.cost.toNat,?_,?_⟩
  · simp only [charge,ensured,usage,bind,Option.bind_some]
    rw [if_neg (Int.not_lt.mpr stage.2)]
  · intro key
    have after : (p.charged limits index call result).windows.committed key = _ := chargedRow sound found pc key
    rw [after]
    simp only [bumpUsage,setUsage,Table.findUpdate,inserted]
    by_cases same : key = limits.key call
    · subst same
      have keyed : ∀ r, p.windows.committed (limits.key call) = some r → r.key = limits.key call :=
        fun r row => Table.findKey ((rows _).trans row)
      cases row : p.windows.committed (limits.key call) with
      | none => simp [opened,BudgetWindow.key,Limits.key]
      | some r =>
        have own := keyed r row
        simp only [Limits.key,Prod.mk.injEq] at own
        simp [own]
    · simp only [if_neg same,if_neg (Ne.symm same),Option.or_none]
      cases row : p.windows.committed key with
      | none => rfl
      | some r =>
        have own : r.key = key := Table.findKey ((rows key).trans row)
        have apart : r.key ≠ (call.account,call.budgetClass,limits.start call) := by
          rw [own]
          exact same
        rw [Option.map_some,if_neg (by simpa only [decide_eq_true_eq] using apart)]

/- The refund of a call is committed, whether or not its acknowledgement came. -/
def Returned (labels : List Action) (index : Nat) : Prop := .refund index .ok ∈ labels ∨ .refund index .lost ∈ labels

/- The charge of a call is committed, and the acknowledgement of the commit was lost. -/
def Unacknowledged (limits : Limits) (labels : List Action) (w : Gates) (index : Nat) : Prop :=
  ∃ p q call, Passes (Gates.step limits) free Gates.empty labels w p (.advance index .lost) q ∧
    p.calls[index]? = some call ∧ call.pc = .commit

def Granted (call : ReserveCall) : Prop := ∃ reservation, call.pc = .done (.ok reservation)

/- The outstanding charges, by what the calls were told: a granted reservation counts until its refund is
committed, and so does the charge of a call that was not told of its commit. -/
structure Accounted (limits : Limits) (labels : List Action) (w : Gates) : Prop where
  once : (w.outstanding.map Charge.call).Nodup
  reserved : ∀ {i : Nat} {call reservation}, w.calls[i]? = some call → call.pc = .done (.ok reservation) →
    reservation = ⟨limits.start call,call.cost⟩
  outstanding : ∀ c, c ∈ w.outstanding ↔ ∃ call, w.calls[c.call]? = some call ∧ c.key = limits.key call ∧
    c.cost = call.cost ∧ (Granted call ∧ ¬Returned labels c.call ∨ Unacknowledged limits labels w c.call)
  returned : ∀ i, Returned labels i → ∃ call, w.calls[i]? = some call ∧ Granted call
  unacknowledged : ∀ i, Unacknowledged limits labels w i →
    ∃ call, w.calls[i]? = some call ∧ call.pc = .done (.error .persistence)

theorem returnedSnoc {a i} : Returned (labels ++ [a]) i ↔ Returned labels i ∨ a = .refund i .ok ∨ a = .refund i .lost := by
  simp only [Returned,List.mem_append,List.mem_singleton,@eq_comm _ _ a]
  tauto

theorem unacknowledgedSnoc {a t i} (run : Run (Gates.step limits) free Gates.empty labels w)
    (taken : w.step limits a = some t) : Unacknowledged limits (labels ++ [a]) t i ↔
      Unacknowledged limits labels w i ∨ a = .advance i .lost ∧ ∃ call, w.calls[i]? = some call ∧ call.pc = .commit := by
  simp only [Unacknowledged,passesSnoc run trivial taken]
  constructor
  · rintro ⟨p,q,call,passes | ⟨rfl,rfl,rfl⟩,found,pc⟩
    · exact .inl ⟨p,q,call,passes,found,pc⟩
    · exact .inr ⟨rfl,call,found,pc⟩
  · rintro (⟨p,q,call,passes,found,pc⟩ | ⟨rfl,call,found,pc⟩)
    · exact ⟨p,q,call,.inl passes,found,pc⟩
    · exact ⟨w,t,call,.inr ⟨rfl,rfl,rfl⟩,found,pc⟩

theorem grantedStays {a t} {i : Nat} (taken : w.step limits a = some t) (granted : ∃ call, w.calls[i]? = some call ∧ Granted call) :
    ∃ call, t.calls[i]? = some call ∧ Granted call := by
  obtain ⟨call,found,reservation,done⟩ := granted
  exact ⟨call,doneStays taken found done,reservation,done⟩

theorem failedStays {a t} {i : Nat} (taken : w.step limits a = some t)
    (failed : ∃ call, w.calls[i]? = some call ∧ call.pc = .done (.error .persistence)) :
    ∃ call, t.calls[i]? = some call ∧ call.pc = .done (.error .persistence) := by
  obtain ⟨call,found,done⟩ := failed
  exact ⟨call,doneStays taken found done,done⟩

section Accounting
variable {a : Action} {t : Gates} (run : Run (Gates.step limits) free Gates.empty labels w)
  (stands : Accounted limits labels w) (taken : w.step limits a = some t)

include run stands taken

theorem accountedQuiet (same : t.outstanding = w.outstanding)
    (calls : ∀ {i : Nat} {call}, t.calls[i]? = some call → w.calls[i]? = some call ∨ ¬Granted call)
    (unreturned : ∀ i, a ≠ .refund i .ok ∧ a ≠ .refund i .lost)
    (sent : ∀ i, a = .advance i .lost → ∀ call, w.calls[i]? = some call → call.pc ≠ .commit) :
    Accounted limits (labels ++ [a]) t := by
  have returned : ∀ i, Returned (labels ++ [a]) i ↔ Returned labels i := by
    intro i
    simp [returnedSnoc,unreturned i]
  have unacknowledged : ∀ i, Unacknowledged limits (labels ++ [a]) t i ↔ Unacknowledged limits labels w i := by
    intro i
    rw [unacknowledgedSnoc run taken,or_iff_left]
    rintro ⟨lost,call,found,pc⟩
    exact sent i lost call found pc
  constructor
  case once => exact same ▸ stands.once
  case reserved =>
    intro i call reservation found done
    rcases calls found with old | idle
    · exact stands.reserved old done
    · exact absurd ⟨_,done⟩ idle
  case outstanding =>
    intro c
    rw [same,stands.outstanding,returned,unacknowledged]
    constructor
    · rintro ⟨call,found,key,cost,counts⟩
      obtain ⟨result,done⟩ : ∃ result, call.pc = .done result := by
        rcases counts with ⟨⟨reservation,done⟩,_⟩ | lost
        · exact ⟨_,done⟩
        · obtain ⟨other,there,done⟩ := stands.unacknowledged _ lost
          rw [found] at there
          cases Option.some.inj there
          exact ⟨_,done⟩
      exact ⟨call,doneStays taken found done,key,cost,counts⟩
    · rintro ⟨call,found,key,cost,counts⟩
      rcases calls found with old | idle
      · exact ⟨call,old,key,cost,counts⟩
      · rcases counts with ⟨granted,_⟩ | lost
        · exact absurd granted idle
        · obtain ⟨other,there,done⟩ := stands.unacknowledged _ lost
          have here := doneStays taken there done
          rw [found] at here
          cases Option.some.inj here
          exact ⟨call,there,key,cost,.inr lost⟩
  case returned => exact fun i back => grantedStays taken (stands.returned i ((returned i).mp back))
  case unacknowledged => exact fun i lost => failedStays taken (stands.unacknowledged i ((unacknowledged i).mp lost))

theorem accountedCharged {index reply call result} (label : a = .advance index reply) (found : w.calls[index]? = some call)
    (pc : call.pc = .commit) (told : Told limits call reply result)
    (form : t = w.charged limits index call (.done result)) : Accounted limits (labels ++ [a]) t := by
  have sound := soundRun run
  have after := soundStep sound taken
  have there : t.calls[index]? = some (call.at_ (.done result)) := by
    simp [form,Gates.charged,Gates.move,setCall found]
  have others : ∀ i, i ≠ index → t.calls[i]? = w.calls[i]? := by
    intro i apart
    simp [form,Gates.charged,Gates.move,setCall found,apart]
  have outstanding : t.outstanding = w.outstanding ++ [⟨index,limits.key call,call.cost⟩] := by
    rw [form]
    rfl
  have open_ : ∀ i, ∀ other, w.calls[i]? = some other → (∃ result, other.pc = .done result) → i ≠ index := by
    rintro i other here ⟨result,done⟩ rfl
    rw [found] at here
    cases Option.some.inj here
    simp [pc] at done
  have returned : ∀ i, Returned (labels ++ [a]) i ↔ Returned labels i := by
    intro i
    simp [returnedSnoc,label]
  have unreturned : ¬Returned labels index := by
    intro back
    obtain ⟨other,here,reservation,done⟩ := stands.returned index back
    exact open_ index other here ⟨_,done⟩ rfl
  have unacknowledged : ∀ i, Unacknowledged limits (labels ++ [a]) t i ↔
      Unacknowledged limits labels w i ∨ i = index ∧ reply = .lost := by
    intro i
    rw [unacknowledgedSnoc run taken,label]
    refine or_congr_right ⟨?_,?_⟩
    · rintro ⟨same,_⟩
      cases same
      exact ⟨rfl,rfl⟩
    · rintro ⟨rfl,rfl⟩
      exact ⟨rfl,call,found,pc⟩
  constructor
  case once => exact after.once
  case reserved => exact fun here done => (after.granted here done).1
  case outstanding =>
    intro c
    rw [outstanding,List.mem_append,List.mem_singleton,returned,unacknowledged]
    by_cases mine : c.call = index
    · constructor
      · rintro (old | rfl)
        · obtain ⟨other,result,here,done,_⟩ := sound.charges old
          exact absurd mine (open_ _ other here ⟨result,done⟩)
        · refine ⟨_,there,rfl,rfl,?_⟩
          cases reply with
          | ok => exact .inl ⟨⟨_,congrArg ReservePc.done told⟩,unreturned⟩
          | fault => exact told.elim
          | lost => exact .inr (.inr ⟨rfl,rfl⟩)
      · rintro ⟨other,here,key,cost,_⟩
        rw [mine,there] at here
        cases Option.some.inj here
        refine .inr ?_
        cases c
        simp_all [ReserveCall.at_,Limits.key,Limits.start]
    · rw [others _ mine,stands.outstanding]
      constructor
      · rintro (⟨other,here,key,cost,counts⟩ | rfl)
        · exact ⟨other,here,key,cost,counts.imp_right .inl⟩
        · exact absurd rfl mine
      · rintro ⟨other,here,key,cost,counts⟩
        exact .inl ⟨other,here,key,cost,counts.imp_right (fun lost => lost.resolve_right (fun h => mine h.1))⟩
  case returned => exact fun i back => grantedStays taken (stands.returned i ((returned i).mp back))
  case unacknowledged =>
    intro i lost
    rcases (unacknowledged i).mp lost with early | ⟨rfl,rfl⟩
    · exact failedStays taken (stands.unacknowledged i early)
    · exact ⟨_,there,congrArg ReservePc.done told⟩

theorem accountedRefunded {index call reservation} (granted : w.granted index = some (call,reservation))
    (label : a = .refund index .ok ∨ a = .refund index .lost)
    (outstanding : t.outstanding = w.outstanding.filter (fun c => c.call ≠ index)) (calls : t.calls = w.calls) :
    Accounted limits (labels ++ [a]) t := by
  obtain ⟨found,pc⟩ := grantedCall granted
  have returned : ∀ i, Returned (labels ++ [a]) i ↔ Returned labels i ∨ i = index := by
    intro i
    rw [returnedSnoc]
    refine or_congr_right ?_
    rcases label with rfl | rfl <;> simp [eq_comm]
  have unacknowledged : ∀ i, Unacknowledged limits (labels ++ [a]) t i ↔ Unacknowledged limits labels w i := by
    intro i
    rw [unacknowledgedSnoc run taken,or_iff_left]
    rintro ⟨other,_⟩
    rcases label with rfl | rfl <;> cases other
  constructor
  case once => exact outstanding ▸ stands.once.sublist (List.filter_sublist.map _)
  case reserved => exact fun here done => stands.reserved (calls ▸ here) done
  case outstanding =>
    intro c
    rw [outstanding,List.mem_filter,stands.outstanding,returned,unacknowledged,calls]
    by_cases mine : c.call = index
    · -- the call was granted its reservation, so its commit was acknowledged
      have told : ¬Unacknowledged limits labels w c.call := by
        intro lost
        obtain ⟨other,here,done⟩ := stands.unacknowledged _ lost
        rw [mine,found] at here
        cases Option.some.inj here
        simp [pc] at done
      simp [mine,mine ▸ told]
    · simp [mine]
  case returned =>
    intro i back
    rcases (returned i).mp back with early | rfl
    · exact grantedStays taken (stands.returned i early)
    · exact ⟨call,calls ▸ found,reservation,pc⟩
  case unacknowledged => exact fun i lost => failedStays taken (stands.unacknowledged i ((unacknowledged i).mp lost))

theorem accountedStep : Accounted limits (labels ++ [a]) t := by
  cases a with
  | reserve budgetClass account cost now =>
    refine accountedQuiet run stands taken ?_ ?_ (by simp) (by simp)
    · cases Option.some.inj taken
      rfl
    · intro i call found
      cases Option.some.inj taken
      rcases lt_or_ge i w.calls.length with old | fresh
      · rw [List.getElem?_append_left old] at found
        exact .inl found
      · rw [List.getElem?_append_right fresh] at found
        refine .inr ?_
        rw [List.mem_singleton.mp (List.mem_of_getElem? found)]
        rintro ⟨reservation,done⟩
        by_cases above : limits.cap < cost <;> simp [above] at done
  | refund index reply =>
    obtain ⟨_,call,reservation,granted,⟨rfl,rfl⟩ | ⟨answered,_,rfl⟩⟩ := refundCases taken
    · exact accountedQuiet run stands taken rfl .inl (by simp) (by simp)
    · refine accountedRefunded run stands taken granted ?_ rfl rfl
      cases reply with
      | ok => exact .inl rfl
      | fault => exact absurd rfl answered
      | lost => exact .inr rfl
  | advance index reply =>
    obtain ⟨call,found,going,⟨pc,result,told,form⟩ | quiet⟩ := advanceCases taken
    · exact accountedCharged run stands taken rfl found pc told form
    · obtain ⟨pc,calls,ungranted,_⟩ := quiet.calls
      refine accountedQuiet run stands taken quiet.outstanding ?_ (by simp) ?_
      · intro i other here
        rw [calls,setCall found] at here
        split at here
        · cases Option.some.inj here
          exact .inr (fun ⟨reservation,done⟩ => ungranted reservation done)
        · exact .inl here
      · rintro i label other here
        cases label
        rw [found] at here
        cases Option.some.inj here
        exact quiet.unsent rfl

end Accounting

theorem accountedRun (run : Run (Gates.step limits) free Gates.empty labels w) : Accounted limits labels w := by
  refine Run.history (Accounted limits) ?_ (fun _ _ _ _ first _ taken stands => accountedStep first stands taken) run
  constructor <;> simp [Gates.empty,Returned,Unacknowledged,passesNil]

/- The cap under every interleaving. -/
theorem budgetCapHolds (limits : Limits) (labels : List Action) (w : Gates)
    (run : Run (Gates.step limits) free Gates.empty labels w) :
    (∀ key, w.used key = costs w.outstanding key ∧ w.used key ≤ limits.cap.toNat) ∧ Accounted limits labels w ∧
    (∀ p a q, Passes (Gates.step limits) free Gates.empty labels w p a q → OwnRow limits p a q) ∧
    (∀ p index reply q call error,
      Passes (Gates.step limits) free Gates.empty labels w p (.advance index reply) q →
      w.calls[index]? = some call → call.pc = .done (.error error) → error ≠ .persistence →
      q.windows.committed = p.windows.committed) ∧
    ∀ p index reply q call resetAt,
      Passes (Gates.step limits) free Gates.empty labels w p (.advance index reply) q →
      q.calls[index]? = some call → call.pc = .done (.error (.exhausted resetAt)) →
      limits.cap.toNat < p.used (limits.key call) + call.cost.toNat := by
  refine ⟨(soundRun run).counted,accountedRun run,?_,?_,?_⟩
  · rintro p a q ⟨before,after,_,first,_,taken,_⟩
    exact ownRow (soundRun first) taken
  · intro p index reply q call error passes found refused answered
    exact refusedQuiet passes found refused answered
  · rintro p index reply q call resetAt ⟨before,after,_,first,_,taken,_⟩ found refused
    exact exhaustedFull (soundRun first) taken found refused

end Runs

/- Two gates with a cap of one unit race for the same window: the second waits for the
first one's row, is refused, and is granted after the refund. -/
def race : List Action :=
  [.reserve .read 1 1 ⟨0,DateTime.epochRepresentable⟩,.reserve .read 1 1 ⟨0,DateTime.epochRepresentable⟩,.advance 0 .ok,.advance 0 .ok,.advance 0 .ok,
    .advance 0 .ok,.advance 1 .ok,.advance 1 .ok,.advance 1 .ok,.refund 0 .ok,.reserve .read 1 1 ⟨0,DateTime.epochRepresentable⟩,
    .advance 2 .ok,.advance 2 .ok,.advance 2 .ok,.advance 2 .ok]

def raceLimits : Limits := ⟨1,900,quarterHourValid,fun account => account == 1⟩

def raced : Gates := (replay (Gates.step raceLimits) free Gates.empty race).get (by decide +kernel)

theorem budgetCapAtRace :
    raced.used (1,.read,⟨0,by decide⟩) = 1 ∧ costs raced.outstanding (1,.read,⟨0,by decide⟩) = 1 ∧
      ∀ key, raced.used key = costs raced.outstanding key ∧ raced.used key ≤ 1 :=
  ⟨by decide +kernel,by decide +kernel,
    (budgetCapHolds raceLimits race raced (replayRun (Option.some_get _).symm)).1⟩

end RatatoskrX.Windows
