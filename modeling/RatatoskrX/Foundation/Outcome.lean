import Mathlib.Logic.Basic

/-! Computations that succeed with a value or fail with an error. -/
namespace Outcome
universe u v
variable {ε : Type u} {α β : Type v}

theorem bindOk {x : Except ε α} {f : α → Except ε β} {r} : x >>= f = .ok r ↔ ∃ a, x = .ok a ∧ f a = .ok r := by
  cases x with
  | error error => simp [bind,Except.bind]
  | ok a => simp [bind,Except.bind]

theorem forMOk {items : List α} {f : α → Except ε PUnit} : items.forM f = .ok ⟨⟩ ↔ ∀ a ∈ items, f a = .ok ⟨⟩ := by
  induction items with
  | nil => simp [List.forM,pure,Except.pure]
  | cons a rest ih =>
    have step : (a::rest).forM f = f a >>= fun _ => rest.forM f := rfl
    rw [step,bindOk,List.forall_mem_cons]
    constructor
    · rintro ⟨⟨⟩,first,others⟩
      exact ⟨first,ih.mp others⟩
    · rintro ⟨first,others⟩
      exact ⟨⟨⟩,first,ih.mpr others⟩

theorem mapMOk {items : List α} {f : α → Except ε β} {results} (ok : items.mapM f = .ok results) :
    ∀ a ∈ items, ∃ b, f a = .ok b := by
  induction items generalizing results with
  | nil => simp
  | cons a rest ih =>
    rw [List.mapM_cons] at ok
    obtain ⟨b,first,ok⟩ := bindOk.mp ok
    obtain ⟨bs,others,-⟩ := bindOk.mp ok
    exact List.forall_mem_cons.mpr ⟨⟨b,first⟩,ih others⟩

theorem mapMResults {items : List α} {f : α → Except ε β} {results} (ok : items.mapM f = .ok results) :
    results.length = items.length ∧ ∀ b, b ∈ results ↔ ∃ a ∈ items, f a = .ok b := by
  induction items generalizing results with
  | nil =>
    cases Except.ok.inj ok
    simp
  | cons a rest ih =>
    rw [List.mapM_cons] at ok
    obtain ⟨b,first,ok⟩ := bindOk.mp ok
    obtain ⟨bs,others,ok⟩ := bindOk.mp ok
    cases Except.ok.inj ok
    obtain ⟨long,members⟩ := ih others
    refine ⟨by simp [long],fun c => ?_⟩
    simp [members,first,eq_comm]

theorem mapMReturns {items : List α} {f : α → Except ε β} (each : ∀ a ∈ items, ∃ b, f a = .ok b) :
    ∃ results, items.mapM f = .ok results := by
  induction items with
  | nil => exact ⟨[],rfl⟩
  | cons a rest ih =>
    obtain ⟨⟨b,first⟩,others⟩ := List.forall_mem_cons.mp each
    obtain ⟨bs,returns⟩ := ih others
    exact ⟨b::bs,by rw [List.mapM_cons,bindOk]; exact ⟨b,first,bindOk.mpr ⟨bs,returns,rfl⟩⟩⟩

theorem mapMRearranged {items items' : List α} {f : α → Except ε β} {results} (same : ∀ a, a ∈ items ↔ a ∈ items')
    (ok : items.mapM f = .ok results) : ∃ results', items'.mapM f = .ok results' ∧ ∀ b, b ∈ results ↔ b ∈ results' := by
  obtain ⟨results',ok'⟩ := mapMReturns (fun a member => mapMOk ok a ((same a).mpr member))
  refine ⟨results',ok',fun b => ?_⟩
  simp only [(mapMResults ok).2,(mapMResults ok').2,same]

theorem accepted {x : Except ε α} {a} (ok : x.toOption = some a) : x = .ok a := by
  cases x with
  | error error => simp [Except.toOption] at ok
  | ok value =>
    cases Option.some.inj ok
    rfl

theorem succeeds {x : Except ε α} (ok : x.toOption.isSome = true) : ∃ a, x = .ok a := by
  obtain ⟨a,found⟩ := Option.isSome_iff_exists.mp ok
  exact ⟨a,accepted found⟩

end Outcome
