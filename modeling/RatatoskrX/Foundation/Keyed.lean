import Mathlib.Data.List.Induction
import Mathlib.Data.List.Nodup
import Mathlib.Data.List.Sort

/-! Items that carry a key or none. An index built item by item holds the last item of each
key; where no two items share a key, neither the index nor a sort by the key sees the order
in which the items came. -/
namespace Keyed
universe u v
variable {α : Type u} {κ : Type v}

variable {key : α → Option κ} {items items' : List α} {k : κ}

theorem sameItem (distinct : (items.filterMap key).Nodup) {a b} (left : a ∈ items) (right : b ∈ items)
    (named : key a = some k) (named' : key b = some k) : a = b := by
  induction items with
  | nil => simp at left
  | cons item rest ih =>
    have others : (rest.filterMap key).Nodup :=
      distinct.sublist ((List.sublist_cons_self item rest).filterMap key)
    have fresh {other} (later : other ∈ rest) (same : key other = some k) : key item ≠ some k := by
      intro first
      rw [List.filterMap_cons_some first] at distinct
      exact (List.nodup_cons.mp distinct).1 (List.mem_filterMap.mpr ⟨other,later,same⟩)
    obtain rfl | earlier := List.mem_cons.mp left
    · obtain rfl | later := List.mem_cons.mp right
      · rfl
      · exact absurd named (fresh later named')
    · obtain rfl | later := List.mem_cons.mp right
      · exact absurd named' (fresh earlier named)
      · exact ih others earlier later

section Index
variable [DecidableEq κ]

def last (key : α → Option κ) (items : List α) (k : κ) : Option α :=
  items.foldl (fun found item => if key item = some k then some item else found) none

theorem lastSnoc (items : List α) (item : α) :
    last key (items ++ [item]) k = if key item = some k then some item else last key items k := by
  simp [last]

theorem lastFound {item} (found : last key items k = some item) : item ∈ items ∧ key item = some k := by
  induction items using List.reverseRecOn with
  | nil => simp [last] at found
  | append_singleton items other ih =>
    rw [lastSnoc] at found
    split at found
    · rename_i named
      cases Option.some.inj found
      exact ⟨List.mem_append_right _ (List.mem_singleton_self _),named⟩
    · obtain ⟨member,named⟩ := ih found
      exact ⟨List.mem_append_left _ member,named⟩

theorem lastSome : (last key items k).isSome = true ↔ ∃ item ∈ items, key item = some k := by
  constructor
  · intro some_
    obtain ⟨item,found⟩ := Option.isSome_iff_exists.mp some_
    obtain ⟨member,named⟩ := lastFound found
    exact ⟨item,member,named⟩
  · rintro ⟨item,member,named⟩
    induction items using List.reverseRecOn with
    | nil => simp at member
    | append_singleton items other ih =>
      rw [lastSnoc]
      split
      · rfl
      · rename_i unnamed
        obtain earlier | rfl := by simpa using member
        · exact ih earlier
        · exact absurd named unnamed

theorem lastUnique (distinct : (items.filterMap key).Nodup) {item} :
    last key items k = some item ↔ item ∈ items ∧ key item = some k := by
  constructor
  · exact lastFound
  · rintro ⟨member,named⟩
    obtain ⟨other,found⟩ := Option.isSome_iff_exists.mp (lastSome.mpr ⟨item,member,named⟩)
    obtain ⟨member',named'⟩ := lastFound found
    rw [found,sameItem distinct member' member named' named]

theorem lastPerm (distinct : (items.filterMap key).Nodup) (perm : items'.Perm items) :
    last key items' = last key items := by
  funext k
  ext item
  rw [lastUnique distinct,lastUnique ((perm.filterMap key).nodup_iff.mpr distinct),perm.mem_iff]

end Index

section Sorting
variable {r : α → α → Prop} [DecidableRel r] [Std.Total r] [IsTrans α r]

theorem sortPerm (antisymm : ∀ a ∈ items, ∀ b ∈ items, r a b → r b a → a = b) (perm : items'.Perm items) :
    items'.insertionSort r = items.insertionSort r := by
  refine List.Perm.eq_of_pairwise ?_ (List.pairwise_insertionSort r items') (List.pairwise_insertionSort r items) ?_
  · intro a b left right
    exact antisymm a (perm.mem_iff.mp ((List.mem_insertionSort r).mp left)) b ((List.mem_insertionSort r).mp right)
  · exact (List.perm_insertionSort r items').trans (perm.trans (List.perm_insertionSort r items).symm)

end Sorting
end Keyed
