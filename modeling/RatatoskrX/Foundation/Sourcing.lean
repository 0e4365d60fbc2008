import RatatoskrX.Foundation.Transition

/-! State that its history determines. A view of the state is related to what the entries
of the history tell one after another; where each step writes the entry that tells what it
did, the two stay related along every run. -/
namespace Sourcing
open Transition
universe u v w x
variable {σ : Type u} {α : Type v} {ε : Type w} {β : Type x}

def told (tell : β → ε → β) (start : β) (history : List ε) : β := history.foldl tell start

/- A step writes what it did: the history and what is related to the state stay, or the
history gains the entry that tells the change. -/
def Tells (step : σ → α → Option σ) (history : σ → List ε) (tell : β → ε → β) (views : σ → β → Prop)
    (inv : σ → Prop) : Prop :=
  ∀ s a t b, inv s → step s a = some t → views s b →
    (history t = history s ∧ views t b) ∨ ∃ e, history t = history s ++ [e] ∧ views t (tell b e)

theorem sourced {step : σ → α → Option σ} {guard : σ → α → Prop} {history : σ → List ε} {tell : β → ε → β}
    {views : σ → β → Prop} {inv : σ → Prop} (tells : Tells step history tell views inv)
    (kept : ∀ s a t, inv s → guard s a → step s a = some t → inv t) {s labels u}
    (run : Run step guard s labels u) {b} (start : inv s) (related : views s b) :
    ∃ more, history u = history s ++ more ∧ views u (told tell b more) := by
  induction run generalizing b with
  | nil s => exact ⟨[],by simp,related⟩
  | cons meets taken later ih =>
    have onward := kept _ _ _ start meets taken
    rcases tells _ _ _ _ start taken related with ⟨same,still⟩ | ⟨e,longer,after⟩
    · rw [← same]
      exact ih onward still
    · obtain ⟨more,grown,ends⟩ := ih onward after
      exact ⟨e::more,by rw [grown,longer,List.append_assoc,List.singleton_append],ends⟩

end Sourcing
