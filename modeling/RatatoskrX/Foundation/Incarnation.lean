import Mathlib.Data.List.Chain
import Mathlib.Data.List.Nodup

/-! The log of one place that successive lives occupy: a life is opened under an identity
no earlier fact carries, revised while its content changes, and closed. -/
namespace Incarnation
universe u v w
variable {ι : Type u} {δ : Type v} {τ : Type w}

inductive Fact (ι : Type u) (δ : Type v) (τ : Type w) where
  | opened (source : ι) (content : δ) (time : τ)
  | revised (source : ι) (content : δ) (time : τ)
  | closed (source : ι) (time : τ)
  deriving DecidableEq, Repr

def Fact.source : Fact ι δ τ → ι
  | .opened source _ _ => source
  | .revised source _ _ => source
  | .closed source _ => source

/- A log and what it leaves in the place. -/
inductive Story : List (Fact ι δ τ) → Option (ι × δ) → Prop where
  | nil : Story [] none
  | opened {facts source content time} (before : Story facts none) (fresh : ∀ f ∈ facts, f.source ≠ source) :
      Story (facts ++ [.opened source content time]) (some (source,content))
  | revised {facts source content next time} (before : Story facts (some (source,content))) (differs : content ≠ next) :
      Story (facts ++ [.revised source next time]) (some (source,next))
  | closed {facts source content time} (before : Story facts (some (source,content))) :
      Story (facts ++ [.closed source time]) none

structure Life (ι : Type u) (δ : Type v) (τ : Type w) where
  source : ι
  first : δ × τ
  revisions : List (δ × τ)

namespace Life

def facts (l : Life ι δ τ) : List (Fact ι δ τ) :=
  .opened l.source l.first.1 l.first.2::l.revisions.map (fun r => .revised l.source r.1 r.2)

def contents (l : Life ι δ τ) : List δ := (l.first::l.revisions).map Prod.fst

def current (l : Life ι δ τ) : δ := (l.revisions.getLastD l.first).1

def revise (l : Life ι δ τ) (r : δ × τ) : Life ι δ τ := {l with revisions := l.revisions ++ [r]}

@[simp] theorem reviseCurrent (l : Life ι δ τ) (r) : (l.revise r).current = r.1 := by simp [revise,current]

theorem reviseFacts (l : Life ι δ τ) (r : δ × τ) :
    (l.revise r).facts = l.facts ++ [.revised l.source r.1 r.2] := by simp [revise,facts]

theorem reviseContents (l : Life ι δ τ) (r : δ × τ) : (l.revise r).contents = l.contents ++ [r.1] := by
  simp [revise,contents]

theorem contentsLast (l : Life ι δ τ) {c} (last : c ∈ l.contents.getLast?) : c = l.current := by
  simp only [contents,current,List.getLast?_map,List.getLast?_cons,Option.mem_def,Option.map_some] at last ⊢
  rw [List.getLastD_eq_getLast?]
  exact (Option.some.inj last).symm

end Life

/- The log of the lives that are over and of the one that is not. -/
def log (past : List (Life ι δ τ × τ)) (last : Option (Life ι δ τ)) : List (Fact ι δ τ) :=
  past.flatMap (fun c => c.1.facts ++ [.closed c.1.source c.2]) ++ (last.map Life.facts).getD []

def lives (past : List (Life ι δ τ × τ)) (last : Option (Life ι δ τ)) : List (Life ι δ τ) :=
  past.map Prod.fst ++ last.toList

theorem livesSource {past : List (Life ι δ τ × τ)} {last : Option (Life ι δ τ)} {l} (member : l ∈ lives past last) :
    ∃ f ∈ log past last, f.source = l.source := by
  rcases List.mem_append.mp member with done | going
  · obtain ⟨c,there,rfl⟩ := List.mem_map.mp done
    refine ⟨.closed c.1.source c.2,?_,rfl⟩
    exact List.mem_append_left _ (List.mem_flatMap.mpr ⟨c,there,by simp⟩)
  · rw [Option.mem_toList] at going
    subst going
    exact ⟨.opened l.source l.first.1 l.first.2,by simp [log,Life.facts],rfl⟩

theorem storyForm {facts : List (Fact ι δ τ)} {now} (story : Story facts now) :
    ∃ past last, facts = log past last ∧ now = last.map (fun l => (l.source,l.current)) ∧
      ((lives past last).map Life.source).Nodup ∧ ∀ l ∈ lives past last, l.contents.IsChain (fun a b => a ≠ b) := by
  induction story with
  | nil => exact ⟨[],none,rfl,rfl,by simp [lives],by simp [lives]⟩
  | @opened facts source content time before fresh ih =>
    obtain ⟨past,last,rfl,now,nodup,chains⟩ := ih
    cases last with
    | some l => simp at now
    | none =>
      refine ⟨past,some ⟨source,(content,time),[]⟩,by simp [log,Life.facts],rfl,?_,?_⟩
      · simp only [lives,Option.toList_none,List.append_nil] at nodup
        simp only [lives,Option.toList_some,List.map_append,List.map_cons,List.map_nil]
        refine List.nodup_append.mpr ⟨nodup,by simp,?_⟩
        intro a member b new
        obtain ⟨l,there,rfl⟩ := List.mem_map.mp member
        obtain ⟨f,logged,same⟩ := livesSource (List.mem_append_left (Option.toList none) there)
        cases List.mem_singleton.mp new
        exact same ▸ fresh f logged
      · intro l member
        rcases List.mem_append.mp member with done | going
        · exact chains l (List.mem_append_left _ done)
        · cases List.mem_singleton.mp going
          exact .singleton _
  | @revised facts source content next time before differs ih =>
    obtain ⟨past,last,rfl,now,nodup,chains⟩ := ih
    cases last with
    | none => simp at now
    | some l =>
      simp only [Option.map_some,Option.some.injEq,Prod.mk.injEq] at now
      obtain ⟨rfl,rfl⟩ := now
      refine ⟨past,some (l.revise (next,time)),?_,by simp [show (l.revise (next,time)).source = l.source from rfl],by simpa [lives,Life.revise] using nodup,?_⟩
      · simp [log,Life.reviseFacts]
      · intro other member
        rcases List.mem_append.mp member with done | going
        · exact chains other (List.mem_append_left _ done)
        · cases List.mem_singleton.mp going
          rw [Life.reviseContents]
          refine (chains l (by simp [lives])).append (.singleton _) ?_
          intro a last b head
          cases Option.some.inj head
          rw [Life.contentsLast l last]
          exact differs
  | @closed facts source content time before ih =>
    obtain ⟨past,last,rfl,now,nodup,chains⟩ := ih
    cases last with
    | none => simp at now
    | some l =>
      simp only [Option.map_some,Option.some.injEq,Prod.mk.injEq] at now
      obtain ⟨rfl,rfl⟩ := now
      refine ⟨past ++ [(l,time)],none,by simp [log],rfl,by simpa [lives] using nodup,?_⟩
      intro other member
      exact chains other (by simpa [lives] using member)

/- The times of a log are those at which its facts became true: a life is opened after
every removal before it, and contents follow one another. -/
def Before [LE τ] [LT τ] : Fact ι δ τ → Fact ι δ τ → Prop
  | .closed _ s,.opened _ _ t => s < t
  | .closed _ _,_ => True
  | .opened _ _ s,.opened _ _ t => s ≤ t
  | .opened _ _ s,.revised _ _ t => s ≤ t
  | .revised _ _ s,.opened _ _ t => s ≤ t
  | .revised _ _ s,.revised _ _ t => s ≤ t
  | _,.closed _ _ => True

def Timely [LE τ] [LT τ] (facts : List (Fact ι δ τ)) : Prop := facts.Pairwise Before

end Incarnation
