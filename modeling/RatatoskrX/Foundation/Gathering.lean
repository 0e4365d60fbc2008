import Mathlib.Data.List.Sort
import Mathlib.Order.Basic

/-! Items gathered under their keys, in the order of the keys. The first item of a key stays, and
a later one is let go where it carries the same mark and refused where it does not. What is
gathered, up to the marks, does not depend on the order of the items or on their repetition. -/
namespace Gathering
universe u v w
variable {α : Type u} {κ : Type v} {δ : Type w} [LinearOrder κ] [DecidableEq δ] (key : α → κ) (mark : α → δ)

def insert (item : α) : List α → List α
  | [] => [item]
  | other::rest => if key item < key other then item::other::rest else other::insert item rest

def gather (kept : List α) : List α → Option (List α)
  | [] => some kept
  | item::rest => match kept.find? (fun other => key other = key item) with
    | some existing => if mark existing = mark item then gather kept rest else none
    | none => gather (insert key item kept) rest

def Agreed (items : List α) : Prop := ∀ a ∈ items, ∀ b ∈ items, key a = key b → mark a = mark b

structure Gathered (items kept : List α) : Prop where
  ordered : kept.Pairwise (fun a b => key a < key b)
  first : ∀ a ∈ kept, items.find? (fun other => key other = key a) = some a
  every : ∀ a ∈ items, ∃ b ∈ kept, key b = key a

section Insertion
variable {key} {item other : α} {kept : List α}

theorem memInsert : other ∈ insert key item kept ↔ other = item ∨ other ∈ kept := by
  induction kept with
  | nil => simp [insert]
  | cons head rest ih =>
    simp only [insert]
    split
    · simp
    · simp only [List.mem_cons,ih]
      tauto

theorem insertOrdered (ordered : kept.Pairwise (fun a b => key a < key b)) (fresh : ∀ a ∈ kept, key a ≠ key item) :
    (insert key item kept).Pairwise (fun a b => key a < key b) := by
  induction kept with
  | nil => simp [insert]
  | cons head rest ih =>
    obtain ⟨below,others⟩ := List.pairwise_cons.mp ordered
    simp only [insert]
    split
    · rename_i before
      refine List.pairwise_cons.mpr ⟨?_,ordered⟩
      intro a member
      rcases List.mem_cons.mp member with rfl | later
      · exact before
      · exact lt_trans before (below a later)
    · rename_i after
      refine List.pairwise_cons.mpr ⟨?_,ih others (fun a member => fresh a (List.mem_cons_of_mem _ member))⟩
      intro a member
      rcases memInsert.mp member with rfl | later
      · exact lt_of_le_of_ne (not_lt.mp after) (fresh head List.mem_cons_self)
      · exact below a later

end Insertion

section Result
variable {key} {mark} {items items' kept kept' : List α}

theorem gatheredNil : Gathered key ([] : List α) [] := ⟨.nil,by simp,by simp⟩

theorem gatheredKnown (gathered : Gathered key items kept) {item existing} (member : existing ∈ kept)
    (same : key existing = key item) : Gathered key (items ++ [item]) kept := by
  refine ⟨gathered.ordered,?_,?_⟩
  · intro a stays
    rw [List.find?_append,gathered.first a stays]
    rfl
  · intro a there
    rcases List.mem_append.mp there with old | new
    · exact gathered.every a old
    · cases List.mem_singleton.mp new
      exact ⟨existing,member,same⟩

theorem freshAbsent (gathered : Gathered key items kept) {item} (fresh : ∀ a ∈ kept, key a ≠ key item) :
    ∀ a ∈ items, key a ≠ key item := by
  intro a there same
  obtain ⟨b,stays,same'⟩ := gathered.every a there
  exact fresh b stays (same'.trans same)

theorem gatheredFresh (gathered : Gathered key items kept) {item} (fresh : ∀ a ∈ kept, key a ≠ key item) :
    Gathered key (items ++ [item]) (insert key item kept) := by
  refine ⟨insertOrdered gathered.ordered fresh,?_,?_⟩
  · intro a stays
    rcases memInsert.mp stays with rfl | old
    · rw [List.find?_append,List.find?_eq_none.mpr (by simpa using freshAbsent gathered fresh)]
      simp
    · rw [List.find?_append,gathered.first a old]
      rfl
  · intro a there
    rcases List.mem_append.mp there with old | new
    · obtain ⟨b,stays,same⟩ := gathered.every a old
      exact ⟨b,memInsert.mpr (.inr stays),same⟩
    · cases List.mem_singleton.mp new
      exact ⟨item,memInsert.mpr (.inl rfl),rfl⟩

theorem keptMember (gathered : Gathered key items kept) {a} (stays : a ∈ kept) : a ∈ items :=
  List.mem_of_find?_eq_some (gathered.first a stays)

omit [LinearOrder κ] [DecidableEq δ] in
theorem agreedSnoc (agreed : Agreed key mark items) {item}
    (mine : ∀ a ∈ items, key a = key item → mark a = mark item) : Agreed key mark (items ++ [item]) := by
  intro a there b there' under
  rcases List.mem_append.mp there with old | new <;> rcases List.mem_append.mp there' with old' | new'
  · exact agreed a old b old' under
  · cases List.mem_singleton.mp new'
    exact mine a old under
  · cases List.mem_singleton.mp new
    exact (mine b old' under.symm).symm
  · rw [List.mem_singleton.mp new,List.mem_singleton.mp new']

theorem gatherOnward (gathered : Gathered key items kept) (agreed : Agreed key mark items) (rest : List α) :
    (∀ kept', gather key mark kept rest = some kept' → Agreed key mark (items ++ rest) ∧ Gathered key (items ++ rest) kept') ∧
      (Agreed key mark (items ++ rest) → (gather key mark kept rest).isSome) := by
  induction rest generalizing items kept with
  | nil =>
    rw [List.append_nil]
    refine ⟨fun kept' ends => ?_,fun _ => rfl⟩
    cases Option.some.inj ends
    exact ⟨agreed,gathered⟩
  | cons item rest ih =>
    have shift : items ++ item::rest = (items ++ [item]) ++ rest := by simp
    rw [gather,shift]
    cases found : kept.find? (fun other => key other = key item) with
    | some existing =>
      have stays := List.mem_of_find?_eq_some found
      have same : key existing = key item := by simpa using List.find?_some found
      simp only
      split
      · rename_i marked
        refine ih (gatheredKnown gathered stays same) (agreedSnoc agreed ?_)
        intro a there under
        rw [← agreed existing (keptMember gathered stays) a there (same.trans under.symm),marked]
      · rename_i apart
        refine ⟨by simp,fun whole => absurd (whole existing ?_ item ?_ same) apart⟩
        · simp [keptMember gathered stays]
        · simp
    | none =>
      have fresh : ∀ a ∈ kept, key a ≠ key item := by simpa using List.find?_eq_none.mp found
      exact ih (gatheredFresh gathered fresh)
        (agreedSnoc agreed (fun a there under => absurd under (freshAbsent gathered fresh a there)))

theorem gatherGathers (ok : gather key mark [] items = some kept) : Agreed key mark items ∧ Gathered key items kept :=
  (gatherOnward gatheredNil (by simp [Agreed]) items).1 kept ok

theorem gatherReturns (agreed : Agreed key mark items) : ∃ kept, gather key mark [] items = some kept :=
  Option.isSome_iff_exists.mp ((gatherOnward gatheredNil (by simp [Agreed]) items).2 agreed)

omit [DecidableEq δ] in
/- Whatever the order of the items, a pair that is gathered from some of them is gathered from all. -/
theorem pairsGathered (gathered : Gathered key items kept) (gathered' : Gathered key items' kept')
    (agreed' : Agreed key mark items') (among : ∀ a ∈ items, a ∈ items') :
    ∀ p ∈ kept.map (fun a => (key a,mark a)), p ∈ kept'.map (fun a => (key a,mark a)) := by
  intro p member
  obtain ⟨a,stays,rfl⟩ := List.mem_map.mp member
  have there := among a (keptMember gathered stays)
  obtain ⟨b,stays',under⟩ := gathered'.every a there
  exact List.mem_map.mpr ⟨b,stays',by rw [under,agreed' b (keptMember gathered' stays') a there under]⟩

omit [DecidableEq δ] in
theorem pairsSorted (gathered : Gathered key items kept) :
    (kept.map (fun a => (key a,mark a))).Pairwise (fun p q => p.1 < q.1) := List.pairwise_map.mpr gathered.ordered

omit [DecidableEq δ] in
theorem pairsNodup (gathered : Gathered key items kept) : (kept.map (fun a => (key a,mark a))).Nodup :=
  (pairsSorted gathered).imp (fun below same => (ne_of_lt below) (congrArg Prod.fst same))

/- The keys and marks that are gathered are those of the items, whatever their order. -/
theorem gatherRearranged (same : ∀ a, a ∈ items ↔ a ∈ items') (ok : gather key mark [] items = some kept) :
    ∃ kept', gather key mark [] items' = some kept' ∧
      kept'.map (fun a => (key a,mark a)) = kept.map (fun a => (key a,mark a)) := by
  obtain ⟨agreed,gathered⟩ := gatherGathers ok
  have agreed' : Agreed key mark items' := fun a there b there' => agreed a ((same a).mpr there) b ((same b).mpr there')
  obtain ⟨kept',ok'⟩ := gatherReturns agreed'
  obtain ⟨-,gathered'⟩ := gatherGathers ok'
  refine ⟨kept',ok',?_⟩
  -- Both lists are in the strict order of their keys, and each pair of one is a pair of the other.
  have perm : (kept'.map (fun a => (key a,mark a))).Perm (kept.map (fun a => (key a,mark a))) :=
    (List.perm_ext_iff_of_nodup (pairsNodup gathered') (pairsNodup gathered)).mpr (fun p =>
      ⟨pairsGathered gathered' gathered agreed (fun a => (same a).mpr) p,
        pairsGathered gathered gathered' agreed' (fun a => (same a).mp) p⟩)
  exact perm.eq_of_pairwise (fun p q _ _ below above => absurd below (lt_asymm above))
    (pairsSorted gathered') (pairsSorted gathered)

end Result
end Gathering
