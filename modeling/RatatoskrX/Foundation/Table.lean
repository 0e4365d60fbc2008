import Mathlib.Data.List.Nodup

/-! Keyed relational tables. A table is its list of rows, no two of them with
the same key; the statements are the keyed forms of UPDATE and of INSERT with
the two ON CONFLICT clauses. Row order carries no meaning and is not promised. -/
namespace Relational
universe u v

structure Table (ρ : Type u) {κ : Type v} (key : ρ → κ) where
  rows : List ρ
  unique : (rows.map key).Nodup

namespace Table
variable {ρ : Type u} {κ : Type v} {key : ρ → κ}

def empty : Table ρ key := ⟨[],by simp⟩

def single (r : ρ) : Table ρ key := ⟨[r],List.nodup_singleton _⟩

theorem sameRow (t : Table ρ key) {a b : ρ} (left : a ∈ t.rows) (right : b ∈ t.rows)
    (same : key a = key b) : a = b :=
  List.inj_on_of_nodup_map t.unique left right same

theorem rowsNodup (t : Table ρ key) : t.rows.Nodup := t.unique.of_map key

theorem ownedNodup {α : Type*} {β : Type*} {first : ρ → α} {second : ρ → β} (t : Table ρ (fun r => (first r,second r)))
    {p : ρ → Bool} {owner : α} (owned : ∀ r, p r = true → first r = owner) : ((t.rows.filter p).map second).Nodup := by
  refine (t.rowsNodup.filter p).map_on ?_
  intro a left b right same
  obtain ⟨inA,selA⟩ := List.mem_filter.mp left
  obtain ⟨inB,selB⟩ := List.mem_filter.mp right
  exact t.sameRow inA inB (Prod.ext ((owned a selA).trans (owned b selB).symm) same)

def update (t : Table ρ key) (p : ρ → Bool) (f : ρ → ρ) (keeps : ∀ r, key (f r) = key r) :
    Table ρ key where
  rows := t.rows.map (fun r => if p r then f r else r)
  unique := by
    have same : (t.rows.map (fun r => if p r then f r else r)).map key = t.rows.map key := by
      rw [List.map_map]
      apply List.map_congr_left
      intro r _
      simp only [Function.comp_apply]
      split
      · exact keeps r
      · rfl
    rw [same]; exact t.unique

theorem memUpdate {t : Table ρ key} {p f keeps r} :
    r ∈ (t.update p f keeps).rows ↔ ∃ old ∈ t.rows, (if p old then f old else old) = r := by
  simp [update]

theorem updateNone (t : Table ρ key) (p f keeps) (none : ∀ r ∈ t.rows, p r = false) : t.update p f keeps = t := by
  cases t with
  | mk rows unique =>
    have same : rows.map (fun r => if p r then f r else r) = rows := by
      conv_rhs => rw [← List.map_id rows]
      apply List.map_congr_left
      intro r member
      simp [none r member]
    simp only [update,same]

def append (t : Table ρ key) (r : ρ) (fresh : key r ∉ t.rows.map key) : Table ρ key where
  rows := t.rows ++ [r]
  unique := by
    rw [List.map_append,List.nodup_append]
    refine ⟨t.unique,by simp,?_⟩
    intro a left b right same
    have last : b = key r := by simpa using right
    rw [same,last] at left
    exact fresh left

def delete (t : Table ρ key) (p : ρ → Bool) : Table ρ key where
  rows := t.rows.filter (fun r => !p r)
  unique := t.unique.sublist (List.filter_sublist.map key)

theorem memDelete {t : Table ρ key} {p r} : r ∈ (t.delete p).rows ↔ r ∈ t.rows ∧ p r = false := by
  simp [delete]

def UniqueOn {γ : Type*} (t : Table ρ key) (column : ρ → γ) : Prop := (t.rows.map column).Nodup

theorem UniqueOn.update {γ : Type*} {t : Table ρ key} {column : ρ → γ} (h : t.UniqueOn column)
    {p f keeps} (same : ∀ r, column (f r) = column r) :
    (t.update p f keeps).UniqueOn column := by
  have columns : (t.update p f keeps).rows.map column = t.rows.map column := by
    simp only [Table.update,List.map_map]
    apply List.map_congr_left
    intro r _
    simp only [Function.comp_apply]
    split
    · exact same r
    · rfl
  unfold UniqueOn
  rw [columns]; exact h

theorem UniqueOn.append {γ : Type*} {t : Table ρ key} {column : ρ → γ} (h : t.UniqueOn column)
    {r fresh} (absent : column r ∉ t.rows.map column) : (t.append r fresh).UniqueOn column := by
  unfold UniqueOn Table.append
  rw [List.map_append,List.nodup_append]
  refine ⟨h,by simp,?_⟩
  intro a left b right same
  have last : b = column r := by simpa using right
  rw [same,last] at left
  exact absent left

theorem UniqueOn.row {γ : Type*} {t : Table ρ key} {column : ρ → γ} (h : t.UniqueOn column)
    {a b} (left : a ∈ t.rows) (right : b ∈ t.rows) (same : column a = column b) : a = b :=
  List.inj_on_of_nodup_map h left right same

variable [DecidableEq κ]

def find (t : Table ρ key) (k : κ) : Option ρ := t.rows.find? (fun r => decide (key r = k))

theorem findIff {t : Table ρ key} {k r} : t.find k = some r ↔ r ∈ t.rows ∧ key r = k := by
  constructor
  · intro found
    exact ⟨List.mem_of_find?_eq_some found,by simpa using List.find?_some found⟩
  · rintro ⟨member,rfl⟩
    cases found : t.find (key r) with
    | none =>
      have absent := List.find?_eq_none.mp found r member
      simp at absent
    | some other =>
      have same : key other = key r := by simpa using List.find?_some found
      rw [t.sameRow (List.mem_of_find?_eq_some found) member same]

theorem findKey {t : Table ρ key} {k r} (found : t.find k = some r) : key r = k :=
  (findIff.mp found).2

theorem findNone {t : Table ρ key} {k} : t.find k = none ↔ k ∉ t.rows.map key := by
  simp [find,List.find?_eq_none]

theorem findMem {t : Table ρ key} {r} (member : r ∈ t.rows) : t.find (key r) = some r :=
  findIff.mpr ⟨member,rfl⟩

theorem findUpdate (t : Table ρ key) (p f keeps k) :
    (t.update p f keeps).find k = (t.find k).map (fun r => if p r then f r else r) := by
  have keyed : ∀ r : ρ, key (if p r then f r else r) = key r := by
    intro r
    split
    · exact keeps r
    · rfl
  simp only [find,update,List.find?_map,Function.comp_def,keyed]

theorem findAppend (t : Table ρ key) (r fresh k) :
    (t.append r fresh).find k = if key r = k then some r else t.find k := by
  simp only [find,append,List.find?_append]
  by_cases same : key r = k
  · have none : t.rows.find? (fun r => decide (key r = k)) = none := by
      have absent := findNone.mpr fresh
      rw [same] at absent
      exact absent
    simp [none,same]
  · simp [same]

/-- INSERT ... ON CONFLICT (key) DO NOTHING. -/
def insertIgnore (t : Table ρ key) (r : ρ) : Table ρ key :=
  if conflict : key r ∈ t.rows.map key then t else t.append r conflict

theorem findInsertIgnore (t : Table ρ key) (r k) :
    (t.insertIgnore r).find k = (t.find k).or (if key r = k then some r else none) := by
  unfold insertIgnore
  split
  · rename_i conflict
    cases found : t.find k with
    | some old => simp
    | none =>
      have absent := findNone.mp found
      have other : key r ≠ k := by rintro rfl; exact absent conflict
      simp [other]
  · rename_i fresh
    rw [findAppend]
    split
    · rename_i same
      have absent := findNone.mpr fresh
      rw [same] at absent
      simp [absent]
    · simp

def upsert (t : Table ρ key) (r : ρ) (merge : ρ → ρ) (keeps : ∀ x, key (merge x) = key x) :
    Table ρ key :=
  if conflict : key r ∈ t.rows.map key then t.update (fun x => decide (key x = key r)) merge keeps
  else t.append r conflict

theorem findUpsert (t : Table ρ key) (r merge keeps k) :
    (t.upsert r merge keeps).find k =
      if key r = k then some ((t.find k).elim r merge) else t.find k := by
  unfold upsert
  split
  · rename_i conflict
    rw [findUpdate]
    cases found : t.find k with
    | none =>
      have absent := findNone.mp found
      have other : key r ≠ k := by rintro rfl; exact absent conflict
      simp [other]
    | some old =>
      have keyed := findKey found
      by_cases same : key r = k
      · simp [keyed,same]
      · have other : ¬ k = key r := fun h => same h.symm
        simp [keyed,same,other]
  · rename_i fresh
    rw [findAppend]
    split
    · rename_i same
      have absent := findNone.mpr fresh
      rw [same] at absent
      simp [absent]
    · rfl

theorem UniqueOn.upsert {γ : Type*} {t : Table ρ key} {column : ρ → γ} (h : t.UniqueOn column)
    {r merge keeps} (same : ∀ x, column (merge x) = column x)
    (absent : column r ∉ t.rows.map column) : (t.upsert r merge keeps).UniqueOn column := by
  unfold Table.upsert
  split
  · exact h.update same
  · exact h.append absent

theorem insertIgnoreRows {t : Table ρ key} {r} (fresh : t.find (key r) = none) :
    (t.insertIgnore r).rows = t.rows ++ [r] := by
  unfold insertIgnore
  rw [dif_neg (findNone.mp fresh)]
  rfl

theorem insertIgnoreKnown {t : Table ρ key} {r} (known : t.find (key r) ≠ none) : t.insertIgnore r = t := by
  unfold insertIgnore
  rw [dif_pos (by simpa [findNone] using known)]

end Table

/- An identity that no row of the list carries. -/
def freshId (ids : List Nat) : Nat := ids.foldr max 0 + 1

theorem freshIdAbove {ids : List Nat} {n} (member : n ∈ ids) : n < freshId ids := by
  induction ids with
  | nil => simp at member
  | cons head rest ih =>
    simp only [freshId,List.foldr_cons] at ih ⊢
    rcases List.mem_cons.mp member with rfl | inside
    · omega
    · have := ih inside
      omega

theorem freshIdAbsent (ids : List Nat) : freshId ids ∉ ids :=
  fun member => Nat.lt_irrefl _ (freshIdAbove member)

end Relational
