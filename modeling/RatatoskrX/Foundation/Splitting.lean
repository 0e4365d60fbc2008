import Mathlib.Data.List.DropRight
import Mathlib.Data.List.TakeWhile

/-! Lists cut at separators: at each of them, or at the first element that ends a run, from
the front or from the back. -/
namespace Splitting
universe u
variable {α : Type u}

theorem splitOnUnique [DecidableEq α] {c : α} {f : List α → List (List α)} (none : f [] = [[]])
    (cut : ∀ rest, f (c::rest) = []::f rest)
    (more : ∀ x rest head tail, x ≠ c → f rest = head::tail → f (x::rest) = (x::head)::tail) (items : List α) :
    f items = items.splitOn c := by
  induction items with
  | nil => rw [none,List.splitOn_nil]
  | cons x rest ih =>
    rw [List.splitOn_cons_eq_if_modifyHead]
    simp only [beq_iff_eq]
    split
    · rename_i same
      rw [same,cut,ih]
    · rename_i other
      cases split : rest.splitOn c with
      | nil => exact absurd split (List.splitOn_ne_nil c rest)
      | cons head tail => rw [more x rest head tail other (ih.trans split),List.modifyHead_cons]

theorem partMember [DecidableEq α] {c x : α} {items part : List α} (among : part ∈ items.splitOn c) (member : x ∈ part) :
    x ∈ items ∧ x ≠ c := by
  induction items generalizing part with
  | nil =>
    rw [List.splitOn_nil,List.mem_singleton] at among
    simp [among] at member
  | cons y rest ih =>
    rw [List.splitOn_cons_eq_if_modifyHead] at among
    split at among
    · obtain rfl | later := List.mem_cons.mp among
      · simp at member
      · exact (ih later member).imp_left (List.mem_cons_of_mem y)
    · rename_i other
      cases split : rest.splitOn c with
      | nil => exact absurd split (List.splitOn_ne_nil c rest)
      | cons head tail =>
        rw [split] at ih
        rw [split,List.modifyHead_cons] at among
        obtain rfl | later := List.mem_cons.mp among
        · obtain rfl | inner := List.mem_cons.mp member
          · exact ⟨List.mem_cons_self,by simpa using other⟩
          · exact (ih List.mem_cons_self inner).imp_left (List.mem_cons_of_mem y)
        · exact (ih (List.mem_cons_of_mem head later) member).imp_left (List.mem_cons_of_mem y)

theorem joinedMember {c x : α} {parts : List (List α)} (member : x ∈ List.intercalate [c] parts) :
    x = c ∨ ∃ part ∈ parts, x ∈ part := by
  induction parts with
  | nil => simp [List.intercalate] at member
  | cons part rest ih =>
    cases rest with
    | nil => exact .inr ⟨part,List.mem_cons_self,by simpa [List.intercalate] using member⟩
    | cons next rest =>
      rw [List.intercalate_cons_cons,List.mem_append,List.mem_append,List.mem_singleton] at member
      obtain (inside | same) | later := member
      · exact .inr ⟨part,List.mem_cons_self,inside⟩
      · exact .inl same
      · obtain same | ⟨other,among,inside⟩ := ih later
        · exact .inl same
        · exact .inr ⟨other,List.mem_cons_of_mem part among,inside⟩

theorem joinedSpelled {β : Type u} (spell : α → List β) (c : List α) (parts : List (List α)) :
    (List.intercalate c parts).flatMap spell = List.intercalate (c.flatMap spell) (parts.map (List.flatMap spell)) := by
  induction parts with
  | nil => rfl
  | cons part rest ih =>
    cases rest with
    | nil => simp [List.intercalate]
    | cons next rest =>
      rw [List.map_cons] at ih
      rw [List.intercalate_cons_cons,List.flatMap_append,List.flatMap_append,ih,List.map_cons,List.map_cons,
        List.intercalate_cons_cons]

variable {p : α → Bool} {body rest : List α}

theorem takeUpto (inside : ∀ x ∈ body, p x = true) (ends : ∀ x ∈ rest.head?, p x = false) :
    (body ++ rest).takeWhile p = body := by
  rw [List.takeWhile_append_of_pos inside]
  cases rest with
  | nil => simp
  | cons x rest => rw [List.takeWhile_cons_of_neg (by simp [ends x rfl]),List.append_nil]

theorem runHead {items : List α} : ∀ x ∈ (items.dropWhile p).head?, p x = false := by
  intro x first
  have ended := List.head?_dropWhile_not p items
  rw [Option.mem_def.mp first] at ended
  simpa using ended

theorem trimNothing (ends : ∀ x ∈ body.getLast?, p x = false) : body.rdropWhile p = body := by
  rw [List.rdropWhile_eq_self_iff]
  intro some_ inside
  rw [ends _ (List.getLast?_eq_some_getLast some_)] at inside
  simp at inside

theorem trimRun (inside : ∀ x ∈ rest, p x = true) : (body ++ rest).rdropWhile p = body.rdropWhile p := by
  rw [List.rdropWhile,List.reverse_append,List.dropWhile_append_of_pos (by simpa using inside)]
  rfl

theorem trimLast {items : List α} : ∀ x ∈ (items.rdropWhile p).getLast?, p x = false := by
  intro x last
  rw [List.rdropWhile,List.getLast?_reverse] at last
  exact runHead x last

theorem trimmedRun [DecidableEq α] (c : α) (items : List α) :
    ∃ n, items = items.rdropWhile (fun x => x = c) ++ List.replicate n c := by
  refine ⟨(items.rtakeWhile (fun x => x = c)).length,?_⟩
  have run : items.rtakeWhile (fun x => x = c) = List.replicate (items.rtakeWhile (fun x => x = c)).length c := by
    refine List.eq_replicate_of_mem (fun x member => ?_)
    simpa using List.mem_rtakeWhile_imp member
  rw [← run,List.rdropWhile_append_rtakeWhile]

end Splitting
