import Mathlib.Logic.Function.Basic

/-! Rows under READ COMMITTED. A row has its committed version and, from the first write
or lock on it until that transaction ends, the version its transaction will leave. A
statement sees its own transaction's versions over the committed ones; a write waits
while another transaction holds the row. -/
namespace ReadCommitted
universe u v
variable {κ : Type u} {ν : Type v}

structure Draft (ν : Type v) where
  owner : Nat
  version : Option ν

structure Store (κ : Type u) (ν : Type v) where
  committed : κ → Option ν
  held : κ → Option (Draft ν)

namespace Store

def empty : Store κ ν := ⟨fun _ => none,fun _ => none⟩

def view (s : Store κ ν) (x : Nat) (k : κ) : Option ν :=
  match s.held k with
  | some d => if d.owner = x then d.version else s.committed k
  | none => s.committed k

/- No other transaction holds the row. -/
def Free (s : Store κ ν) (x : Nat) (k : κ) : Prop := ∀ d, s.held k = some d → d.owner = x

instance (s : Store κ ν) (x k) : Decidable (s.Free x k) :=
  match h : s.held k with
  | none => .isTrue (by simp [Free,h])
  | some d => decidable_of_iff (d.owner = x) (by simp [Free,h])

def release (s : Store κ ν) (x : Nat) (k : κ) : Option (Draft ν) := (s.held k).filter (fun d => d.owner ≠ x)

def commit (s : Store κ ν) (x : Nat) : Store κ ν := ⟨s.view x,s.release x⟩

def abort (s : Store κ ν) (x : Nat) : Store κ ν := ⟨s.committed,s.release x⟩

variable [DecidableEq κ]

def put (s : Store κ ν) (x : Nat) (k : κ) (v : Option ν) : Store κ ν :=
  {s with held := fun j => if j = k then some ⟨x,v⟩ else s.held j}

/-- SELECT ... FOR UPDATE: the row keeps the version it has. -/
def lock (s : Store κ ν) (x : Nat) (k : κ) : Store κ ν := s.put x k (s.view x k)

def write (s : Store κ ν) (k : κ) (v : Option ν) : Store κ ν :=
  {s with committed := fun j => if j = k then v else s.committed j}

omit [DecidableEq κ] in
/- An UPDATE over many rows that is a transaction of its own. -/
def update (s : Store κ ν) (p : κ → Bool) (f : ν → ν) : Store κ ν :=
  {s with committed := fun j => if p j then (s.committed j).map f else s.committed j}

@[simp] theorem putCommitted (s : Store κ ν) (x k v) : (s.put x k v).committed = s.committed := rfl

@[simp] theorem putHeld (s : Store κ ν) (x k v j) :
    (s.put x k v).held j = if j = k then some ⟨x,v⟩ else s.held j := rfl

theorem putSelf (s : Store κ ν) (x k v) : (s.put x k v).held k = some ⟨x,v⟩ := if_pos rfl

theorem putOther (s : Store κ ν) {x k v j} (other : j ≠ k) : (s.put x k v).held j = s.held j := if_neg other

theorem viewPutOther (s : Store κ ν) {x k v y j} (other : j ≠ k) : (s.put x k v).view y j = s.view y j := by
  simp only [view,putOther s other,putCommitted]

omit [DecidableEq κ] in
@[simp] theorem commitCommitted (s : Store κ ν) (x) : (s.commit x).committed = s.view x := rfl

omit [DecidableEq κ] in
@[simp] theorem abortCommitted (s : Store κ ν) (x) : (s.abort x).committed = s.committed := rfl

@[simp] theorem writeCommitted (s : Store κ ν) (k v j) :
    (s.write k v).committed j = if j = k then v else s.committed j := rfl

@[simp] theorem writeHeld (s : Store κ ν) (k v) : (s.write k v).held = s.held := rfl

omit [DecidableEq κ] in
@[simp] theorem updateCommitted (s : Store κ ν) (p f j) :
    (s.update p f).committed j = if p j then (s.committed j).map f else s.committed j := rfl

omit [DecidableEq κ] in
@[simp] theorem updateHeld (s : Store κ ν) (p f) : (s.update p f).held = s.held := rfl

omit [DecidableEq κ] in
theorem viewHeld {s : Store κ ν} {x k d} (held : s.held k = some d) (mine : d.owner = x) :
    s.view x k = d.version := by
  simp [view,held,mine]

omit [DecidableEq κ] in
theorem viewOther {s : Store κ ν} {x k} (other : ∀ d, s.held k = some d → d.owner ≠ x) :
    s.view x k = s.committed k := by
  unfold view
  split
  · rename_i d held
    rw [if_neg (other d held)]
  · rfl

omit [DecidableEq κ] in
theorem releaseHeld {s : Store κ ν} {x k d} : s.release x k = some d ↔ s.held k = some d ∧ d.owner ≠ x := by
  simp [release,Option.filter_eq_some_iff]

omit [DecidableEq κ] in
@[simp] theorem commitHeld {s : Store κ ν} {x k d} :
    (s.commit x).held k = some d ↔ s.held k = some d ∧ d.owner ≠ x := releaseHeld

omit [DecidableEq κ] in
@[simp] theorem abortHeld {s : Store κ ν} {x k d} :
    (s.abort x).held k = some d ↔ s.held k = some d ∧ d.owner ≠ x := releaseHeld

/- What transaction j holds is as it was, and so are the committed versions below it. -/
def Aside (s t : Store κ ν) (j : Nat) : Prop :=
  (∀ k x, x.owner = j → (t.held k = some x ↔ s.held k = some x)) ∧
    ∀ k x, s.held k = some x → x.owner = j → t.committed k = s.committed k

omit [DecidableEq κ] in
theorem asideSame {s t : Store κ ν} {j} (held : t.held = s.held) (committed : t.committed = s.committed) :
    s.Aside t j :=
  ⟨fun k x _ => by rw [held],fun k _ _ _ => congrFun committed k⟩

theorem asidePut {s : Store κ ν} {i j k v} (apart : j ≠ i) (free : s.Free i k) : s.Aside (s.put i k v) j := by
  refine ⟨?_,fun _ _ _ _ => rfl⟩
  intro l x mine
  rw [putHeld]
  by_cases same : l = k
  · subst same
    rw [if_pos rfl]
    refine ⟨?_,?_⟩
    · intro eq
      cases Option.some.inj eq
      exact absurd mine.symm apart
    · intro held
      exact absurd (mine.symm.trans (free x held)) apart
  · rw [if_neg same]

omit [DecidableEq κ] in
theorem asideAbort {s : Store κ ν} {i j} (apart : j ≠ i) : s.Aside (s.abort i) j := by
  refine ⟨?_,fun _ _ _ _ => rfl⟩
  rintro k x rfl
  simp [apart]

omit [DecidableEq κ] in
theorem asideCommit {s : Store κ ν} {i j} (apart : j ≠ i) : s.Aside (s.commit i) j := by
  refine ⟨?_,?_⟩
  · rintro k x rfl
    simp [apart]
  · rintro k x held rfl
    rw [commitCommitted]
    refine viewOther ?_
    intro y same
    rw [held] at same
    cases Option.some.inj same
    exact apart

omit [DecidableEq κ] in
theorem asideUnheld {s t : Store κ ν} {j} (held : t.held = s.held)
    (same : ∀ k x, s.held k = some x → t.committed k = s.committed k) : s.Aside t j :=
  ⟨fun k x _ => by rw [held],fun k x there _ => same k x there⟩

omit [DecidableEq κ] in
theorem asideView {s t : Store κ ν} {j k} (aside : s.Aside t j) (same : t.committed k = s.committed k) :
    t.view j k = s.view j k := by
  by_cases mine : ∃ x, s.held k = some x ∧ x.owner = j
  · obtain ⟨x,held,own⟩ := mine
    rw [viewHeld held own,viewHeld ((aside.1 k x own).mpr held) own]
  · rw [viewOther (fun x held own => mine ⟨x,held,own⟩),
      viewOther (fun x held own => mine ⟨x,(aside.1 k x own).mp held,own⟩),same]

omit [DecidableEq κ] in
theorem commitOwn {s : Store κ ν} {i k} (changed : (s.commit i).committed k ≠ s.committed k) :
    ∃ x, s.held k = some x ∧ x.owner = i := by
  apply Classical.byContradiction
  intro none
  exact changed (viewOther (fun x held own => none ⟨x,held,own⟩))

theorem viewUpdate {s : Store κ ν} {i k} (single : ∀ l x, s.held l = some x → x.owner = i → l = k) :
    s.view i = Function.update s.committed k (s.view i k) := by
  funext l
  by_cases same : l = k
  · rw [same,Function.update_self]
  · rw [Function.update_of_ne same]
    exact viewOther (fun x held own => same (single l x held own))

def Drafts (s t : Store κ ν) (i : Nat) : Prop := t.committed = s.committed ∧ ∀ j, j ≠ i → s.Aside t j

omit [DecidableEq κ] in
theorem draftsSame (s : Store κ ν) (i) : s.Drafts s i := ⟨rfl,fun _ _ => asideSame rfl rfl⟩

theorem draftsPut {s : Store κ ν} {i k v} (free : s.Free i k) : s.Drafts (s.put i k v) i :=
  ⟨rfl,fun _ apart => asidePut apart free⟩

omit [DecidableEq κ] in
theorem draftsTrans {s t u : Store κ ν} {i} (first : s.Drafts t i) (second : t.Drafts u i) : s.Drafts u i := by
  refine ⟨second.1.trans first.1,?_⟩
  intro j apart
  refine ⟨?_,fun k _ _ _ => congrFun (second.1.trans first.1) k⟩
  intro k x own
  rw [(second.2 j apart).1 k x own,(first.2 j apart).1 k x own]

omit [DecidableEq κ] in
theorem draftsAbort (s : Store κ ν) (i) : s.Drafts (s.abort i) i := ⟨rfl,fun _ apart => asideAbort apart⟩

omit [DecidableEq κ] in
/- Transaction i holds nothing. -/
def Idle (s : Store κ ν) (i : Nat) : Prop := ∀ k x, s.held k = some x → x.owner ≠ i

omit [DecidableEq κ] in
theorem idleAbort (s : Store κ ν) (i) : (s.abort i).Idle i := fun _ _ held => (abortHeld.mp held).2

omit [DecidableEq κ] in
theorem idleCommit (s : Store κ ν) (i) : (s.commit i).Idle i := fun _ _ held => (commitHeld.mp held).2

omit [DecidableEq κ] in
theorem idleView {s : Store κ ν} {i} (idle : s.Idle i) (k) : s.view i k = s.committed k := viewOther (idle k)

omit [DecidableEq κ] in
theorem idleAside {s t : Store κ ν} {j} (aside : s.Aside t j) (idle : s.Idle j) : t.Idle j :=
  fun k x held own => idle k x ((aside.1 k x own).mp held) own

omit [DecidableEq κ] in
/- Transaction i holds these rows, with the versions it will leave, and no others. -/
def Exactly (s : Store κ ν) (i : Nat) (drafts : List (κ × ν)) : Prop :=
  (∀ k v, (k,v) ∈ drafts → s.held k = some ⟨i,some v⟩) ∧
    ∀ k x, s.held k = some x → x.owner = i → k ∈ drafts.map Prod.fst

omit [DecidableEq κ] in
theorem exactlyNil {s : Store κ ν} {i} : s.Exactly i [] ↔ s.Idle i := by
  simp [Exactly,Idle]

theorem exactlyPut {s : Store κ ν} {i k v drafts} (exactly : s.Exactly i drafts) (other : k ∉ drafts.map Prod.fst) :
    (s.put i k (some v)).Exactly i ((k,v)::drafts) := by
  refine ⟨?_,?_⟩
  · intro l u member
    rcases List.mem_cons.mp member with same | old
    · cases same
      simp
    · have apart : l ≠ k := by
        rintro rfl
        exact other (List.mem_map.mpr ⟨_,old,rfl⟩)
      rw [putHeld,if_neg apart]
      exact exactly.1 l u old
  · intro l x held own
    rw [putHeld] at held
    split at held
    · rename_i same
      simp [same]
    · exact List.mem_cons_of_mem _ (exactly.2 l x held own)

omit [DecidableEq κ] in
theorem exactlyAside {s t : Store κ ν} {j drafts} (aside : s.Aside t j) (exactly : s.Exactly j drafts) :
    t.Exactly j drafts :=
  ⟨fun k v member => (aside.1 k _ rfl).mpr (exactly.1 k v member),
    fun k x held own => exactly.2 k x ((aside.1 k x own).mp held) own⟩

def drafted (drafts : List (κ × ν)) (rows : κ → Option ν) : κ → Option ν :=
  drafts.foldr (fun d f => Function.update f d.1 (some d.2)) rows

theorem draftedOther {drafts : List (κ × ν)} {rows k} (other : k ∉ drafts.map Prod.fst) : drafted drafts rows k = rows k := by
  induction drafts with
  | nil => rfl
  | cons d rest ih =>
    rw [List.map_cons,List.mem_cons,not_or] at other
    simp only [drafted,List.foldr_cons] at ih ⊢
    rw [Function.update_of_ne other.1]
    exact ih other.2

theorem draftedSame {drafts : List (κ × ν)} {rows g : κ → Option ν} {k} (agrees : ∀ l v, (l,v) ∈ drafts → g l = some v)
    (member : k ∈ drafts.map Prod.fst) : drafted drafts rows k = g k := by
  induction drafts with
  | nil => simp at member
  | cons d rest ih =>
    simp only [drafted,List.foldr_cons] at ih ⊢
    by_cases same : k = d.1
    · rw [same,Function.update_self]
      exact (agrees d.1 d.2 List.mem_cons_self).symm
    · rw [Function.update_of_ne same]
      rw [List.map_cons,List.mem_cons] at member
      exact ih (fun l v there => agrees l v (List.mem_cons_of_mem _ there)) (member.resolve_left same)

theorem exactlyView {s : Store κ ν} {i drafts} (exactly : s.Exactly i drafts) : s.view i = drafted drafts s.committed := by
  funext k
  by_cases member : k ∈ drafts.map Prod.fst
  · exact (draftedSame (fun l v there => viewHeld (exactly.1 l v there) rfl) member).symm
  · rw [draftedOther member]
    refine viewOther ?_
    intro x held own
    exact member (exactly.2 k x held own)

end Store
end ReadCommitted
