import Mathlib.Logic.Basic

/-! Labelled transition systems with a partial step function. The label holds
every choice the environment makes, so a run is a list of labels and replays by
evaluation. A guard selects the runs whose steps all meet a condition. -/
namespace Transition
universe u v
variable {σ : Type u} {α : Type v}

inductive Run (step : σ → α → Option σ) (guard : σ → α → Prop) : σ → List α → σ → Prop where
  | nil (s) : Run step guard s [] s
  | cons {s a t rest u} (meets : guard s a) (taken : step s a = some t)
      (later : Run step guard t rest u) : Run step guard s (a::rest) u

def free (_ : σ) (_ : α) : Prop := True

instance (s : σ) (a : α) : Decidable (free s a) := .isTrue trivial

def replay (step : σ → α → Option σ) (guard : σ → α → Prop) [∀ s a, Decidable (guard s a)] (s : σ) :
    List α → Option σ
  | [] => some s
  | a::rest => if guard s a then (step s a).bind (fun t => replay step guard t rest) else none

variable {step : σ → α → Option σ} {guard : σ → α → Prop}

theorem replayRun [∀ s a, Decidable (guard s a)] {s labels u} (ok : replay step guard s labels = some u) :
    Run step guard s labels u := by
  induction labels generalizing s with
  | nil => cases Option.some.inj ok; exact .nil _
  | cons a rest ih =>
    simp only [replay] at ok
    split at ok
    · rename_i meets
      obtain ⟨t,taken,later⟩ := Option.bind_eq_some_iff.mp ok
      exact .cons meets taken (ih later)
    · simp at ok

def Passes (step : σ → α → Option σ) (guard : σ → α → Prop) (s : σ) (labels : List α) (u : σ)
    (t : σ) (a : α) (v : σ) : Prop :=
  ∃ before after, labels = before ++ a::after ∧ Run step guard s before t ∧ guard t a ∧ step t a = some v ∧
    Run step guard v after u

theorem passesNil {s u x b y} : ¬Passes step guard s [] u x b y := by
  rintro ⟨before,after,cut,_⟩
  cases before <;> cases cut

theorem passesCons {s a t rest u x b y} (meets : guard s a) (taken : step s a = some t)
    (later : Run step guard t rest u) :
    Passes step guard s (a::rest) u x b y ↔ (x = s ∧ b = a ∧ y = t) ∨ Passes step guard t rest u x b y := by
  constructor
  · rintro ⟨before,after,cut,first,meets',taken',last⟩
    cases before with
    | nil =>
      cases first
      cases cut
      rw [taken] at taken'
      exact .inl ⟨rfl,rfl,(Option.some.inj taken').symm⟩
    | cons head before =>
      cases first with
      | cons _ taken'' first =>
        cases cut
        rw [taken] at taken''
        cases Option.some.inj taken''
        exact .inr ⟨before,after,rfl,first,meets',taken',last⟩
  · rintro (⟨rfl,rfl,rfl⟩ | ⟨before,after,rfl,first,meets',taken',last⟩)
    · exact ⟨[],rest,rfl,.nil x,meets,taken,later⟩
    · exact ⟨a::before,after,rfl,.cons meets taken first,meets',taken',last⟩

theorem Run.snoc {s labels t a u} (run : Run step guard s labels t) (meets : guard t a) (taken : step t a = some u) :
    Run step guard s (labels ++ [a]) u := by
  induction run with
  | nil s => exact .cons meets taken (.nil u)
  | cons meets' taken' later ih => exact .cons meets' taken' (ih meets taken)

theorem passesSnoc {s labels t a u x b y} (run : Run step guard s labels t) (meets : guard t a) (taken : step t a = some u) :
    Passes step guard s (labels ++ [a]) u x b y ↔ Passes step guard s labels t x b y ∨ (x = t ∧ b = a ∧ y = u) := by
  induction run with
  | nil s => simp [passesCons meets taken (.nil u),passesNil]
  | cons meets' taken' later ih =>
    have longer := Run.snoc later meets taken
    rw [List.cons_append,passesCons meets' taken' longer,passesCons meets' taken' later,ih meets taken,or_assoc]

theorem Run.history (rel : List α → σ → Prop) {s labels u} (start : rel [] s)
    (kept : ∀ before p a q, Run step guard s before p → guard p a → step p a = some q → rel before p → rel (before ++ [a]) q)
    (run : Run step guard s labels u) : rel labels u := by
  have along : ∀ before p, Run step guard s before p → rel before p →
      ∀ rest u, Run step guard p rest u → rel (before ++ rest) u := by
    intro before p first stands rest u later
    induction later generalizing before with
    | nil p => simpa using stands
    | @cons p a q rest u meets taken later ih =>
      have next := ih (before ++ [a]) (first.snoc meets taken) (kept before p a q first meets taken stands)
      rwa [List.append_assoc] at next
  exact along [] s (.nil s) start labels u run

theorem setCall {β : Type*} {calls : List β} {index call call'} (found : calls[index]? = some call) (j : Nat) :
    (calls.set index call')[j]? = if j = index then some call' else calls[j]? := by
  rw [List.getElem?_set]
  by_cases same : index = j
  · subst same
    simp [(List.getElem?_eq_some_iff.mp found).1]
  · rw [if_neg same,if_neg (Ne.symm same)]

/- A label that keeps an invariant and brings a measure down leads to the goal. -/
theorem reaches (inv goal : σ → Prop) (measure : σ → Nat) {a : α} (advances : ∀ s, inv s → ¬goal s →
    ∃ t, guard s a ∧ step s a = some t ∧ inv t ∧ measure t < measure s) {s} (start : inv s) :
    ∃ n u, Run step guard s (List.replicate n a) u ∧ inv u ∧ goal u := by
  generalize bound : measure s = r
  induction r using Nat.strongRecOn generalizing s with
  | ind r ih =>
    by_cases there : goal s
    · exact ⟨0,s,.nil s,start,there⟩
    · obtain ⟨t,meets,taken,kept,closer⟩ := advances s start there
      obtain ⟨n,u,run,rest⟩ := ih (measure t) (bound ▸ closer) kept rfl
      exact ⟨n + 1,u,.cons meets taken run,rest⟩

namespace Run

theorem append {s xs t ys u} (first : Run step guard s xs t) (second : Run step guard t ys u) :
    Run step guard s (xs ++ ys) u := by
  induction first with
  | nil => exact second
  | cons meets taken later ih => exact .cons meets taken (ih second)

theorem split {s xs ys u} (run : Run step guard s (xs ++ ys) u) :
    ∃ t, Run step guard s xs t ∧ Run step guard t ys u := by
  induction xs generalizing s with
  | nil => exact ⟨s,.nil s,run⟩
  | cons a rest ih =>
    cases run with
    | cons meets taken later =>
      obtain ⟨t,first,second⟩ := ih later
      exact ⟨t,.cons meets taken first,second⟩

theorem unique {other : σ → α → Prop} {s labels t u} (left : Run step guard s labels t)
    (right : Run step other s labels u) : t = u := by
  induction left with
  | nil =>
    cases right
    rfl
  | cons meets taken later ih =>
    cases right with
    | cons _ taken' later' =>
      rw [taken] at taken'
      cases Option.some.inj taken'
      exact ih later'

theorem weaken {other : σ → α → Prop} (implies : ∀ s a, guard s a → other s a) {s labels u}
    (run : Run step guard s labels u) : Run step other s labels u := by
  induction run with
  | nil s => exact .nil s
  | cons meets taken later ih => exact .cons (implies _ _ meets) taken ih

theorem preserves (inv : σ → Prop)
    (kept : ∀ s a t, inv s → guard s a → step s a = some t → inv t) {s labels u}
    (run : Run step guard s labels u) (start : inv s) : inv u := by
  induction run with
  | nil => exact start
  | cons meets taken later ih => exact ih (kept _ _ _ start meets taken)

/- A relation between the two ends of a run, proved of one step from a state
that satisfies the invariant, holds of the whole run. -/
theorem relates (inv : σ → Prop) (rel : σ → σ → Prop)
    (kept : ∀ s a t, inv s → guard s a → step s a = some t → inv t)
    (refl : ∀ s, rel s s) (trans : ∀ s t u, rel s t → rel t u → rel s u)
    (one : ∀ s a t, inv s → guard s a → step s a = some t → rel s t) {s labels u}
    (run : Run step guard s labels u) (start : inv s) : rel s u := by
  induction run with
  | nil s => exact refl s
  | cons meets taken later ih =>
    exact trans _ _ _ (one _ _ _ start meets taken) (ih (kept _ _ _ start meets taken))

theorem provenance {ε : Type*} (history : σ → List ε)
    (extends_ : ∀ s a t, step s a = some t → history t = history s ∨ ∃ e, history t = history s ++ [e]) {s labels u}
    (run : Run step guard s labels u) {e} (member : e ∈ history u) :
    e ∈ history s ∨ ∃ t a v, Passes step guard s labels u t a v ∧ history v = history t ++ [e] := by
  induction run with
  | nil => exact .inl member
  | @cons s a t rest u meets taken later ih =>
    rcases ih member with early | ⟨x,b,y,⟨before,after,rfl,first,meets',taken',last⟩,written⟩
    · rcases extends_ s a t taken with same | ⟨e',same⟩
      · exact .inl (same ▸ early)
      · rcases List.mem_append.mp (same ▸ early) with old | fresh
        · exact .inl old
        · cases List.mem_singleton.mp fresh
          exact .inr ⟨s,a,t,⟨[],rest,rfl,.nil s,meets,taken,later⟩,same⟩
    · exact .inr ⟨x,b,y,⟨a::before,after,rfl,.cons meets taken first,meets',taken',last⟩,written⟩

theorem guarded {other : σ → α → Prop} {s labels u t a v} (run : Run step guard s labels u)
    (passes : Passes step other s labels u t a v) : Passes step guard s labels u t a v := by
  obtain ⟨before,after,rfl,first,_,taken,_⟩ := passes
  obtain ⟨t',first',rest⟩ := run.split
  cases first'.unique first
  cases rest with
  | cons meets taken' later =>
    rw [taken] at taken'
    cases Option.some.inj taken'
    exact ⟨before,after,rfl,first',meets,taken,later⟩

theorem meets (other : σ → α → Prop) {s labels u} (run : Run step guard s labels u)
    (every : ∀ t a v, Passes step guard s labels u t a v → other t a) : Run step other s labels u := by
  induction run with
  | nil s => exact .nil s
  | @cons s a t rest u here taken later ih =>
    refine .cons (every s a t ⟨[],rest,rfl,.nil s,here,taken,later⟩) taken (ih ?_)
    rintro x b y ⟨before,after,rfl,first,meets,taken',last⟩
    exact every x b y ⟨a::before,after,rfl,.cons here taken first,meets,taken',last⟩

/- What holds at the end of a run and not at its start began to hold at a last step and
has held ever since. -/
theorem since {P : σ → Prop} {s labels u} (run : Run step guard s labels u) (absent : ¬P s) (now : P u) :
    ∃ before a after t v, labels = before ++ a::after ∧ Run step guard s before t ∧ guard t a ∧ step t a = some v ∧
      ¬P t ∧ P v ∧ Run step (fun x b => guard x b ∧ P x) v after u := by
  have lastly : Run step (fun x b => guard x b ∧ P x) s labels u ∨ ∃ before a after t v,
      labels = before ++ a::after ∧ Run step guard s before t ∧ guard t a ∧ step t a = some v ∧
        ¬P t ∧ P v ∧ Run step (fun x b => guard x b ∧ P x) v after u := by
    clear absent
    induction run with
    | nil s => exact .inl (.nil s)
    | @cons s a t rest u here taken later ih =>
      rcases ih now with throughout | ⟨before,b,after,x,y,rfl,first,meets,taken',gone,back,last⟩
      · by_cases held : P s
        · exact .inl (.cons ⟨here,held⟩ taken throughout)
        · have began : P t := by
            cases throughout with
            | nil => exact now
            | cons both _ _ => exact both.2
          exact .inr ⟨[],a,rest,s,t,rfl,.nil s,here,taken,held,began,throughout⟩
      · exact .inr ⟨a::before,b,after,x,y,rfl,.cons here taken first,meets,taken',gone,back,last⟩
  rcases lastly with throughout | found
  · cases throughout with
    | nil => exact absurd now absent
    | cons both _ _ => exact absurd both.2 absent
  · exact found

end Run
end Transition
