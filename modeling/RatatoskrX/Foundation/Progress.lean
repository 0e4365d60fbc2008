import RatatoskrX.Foundation.Transition

/-! How a system gets somewhere: a measure that some step brings down while the goal is
ahead, and rounds, each of which takes its share off what is left. -/
namespace Progress
open Transition
universe u v
variable {σ : Type u} {α : Type v}

section Steps
variable {step : σ → α → Option σ} {guard : σ → α → Prop}

/- Where some label keeps an invariant and brings a measure down, a run leads to the goal. -/
theorem leads (inv goal : σ → Prop) (measure : σ → Nat) (advances : ∀ s, inv s → ¬goal s →
    ∃ a t, guard s a ∧ step s a = some t ∧ inv t ∧ measure t < measure s) {s} (start : inv s) :
    ∃ labels u, Run step guard s labels u ∧ inv u ∧ goal u := by
  generalize bound : measure s = r
  induction r using Nat.strongRecOn generalizing s with
  | ind r ih =>
    by_cases there : goal s
    · exact ⟨[],s,.nil s,start,there⟩
    · obtain ⟨a,t,meets,taken,kept,closer⟩ := advances s start there
      obtain ⟨labels,u,run,rest⟩ := ih (measure t) (bound ▸ closer) kept rfl
      exact ⟨a::labels,u,.cons meets taken run,rest⟩

end Steps

inductive Rounds (round : σ → σ → Prop) : Nat → σ → σ → Prop where
  | nil (s) : Rounds round 0 s s
  | cons {n s t u} (first : round s t) (later : Rounds round n t u) : Rounds round (n + 1) s u

namespace Rounds
variable {round : σ → σ → Prop} {n : Nat} {s t u : σ}

theorem last (rounds : Rounds round (n + 1) s u) : ∃ t, Rounds round n s t ∧ round t u := by
  generalize count : n + 1 = m at rounds
  induction rounds generalizing n with
  | nil => cases count
  | @cons m s t u first later ih =>
    cases m with
    | zero =>
      cases later
      cases count
      exact ⟨s,.nil s,first⟩
    | succ k =>
      obtain ⟨v,before,ends⟩ := ih rfl
      cases count
      exact ⟨v,.cons first before,ends⟩

theorem preserves (inv : σ → Prop) (each : ∀ s t, inv s → round s t → inv t) (rounds : Rounds round n s u)
    (start : inv s) : inv u := by
  induction rounds with
  | nil => exact start
  | cons first later ih => exact ih (each _ _ start first)

end Rounds
end Progress
