import Mathlib.Data.List.Induction
import RatatoskrX.ArticleUrls

/-! What the selection keeps of a list of URLs: each normal form once, under the first URL
that has it, in the order of the list. -/
namespace RatatoskrX.UrlSelection
open ArticleUrls

def normalized (url : String) : Option String := (normalizeExternalUrl url.toList).map String.ofList

structure Selects (urls : List String) (selected : List SelectedArticleUrl) : Prop where
  once : (selected.map (fun s => s.normalizedUrl)).Nodup
  first : ∀ s ∈ selected, normalized s.originalUrl = some s.normalizedUrl ∧
    ∃ before after, urls = before ++ s.originalUrl::after ∧ ∀ url ∈ before, normalized url ≠ some s.normalizedUrl
  every : ∀ url ∈ urls, ∀ n ∈ normalized url, ∃ s ∈ selected, s.normalizedUrl = n
  order : selected.Pairwise (fun s t => urls.idxOf s.originalUrl < urls.idxOf t.originalUrl)

theorem selectUrlCases (selected : List SelectedArticleUrl) (url : String) :
    (normalized url = none ∧ selectUrl selected url = selected) ∨
      ∃ n, normalized url = some n ∧
        ((∃ s ∈ selected, s.normalizedUrl = n) ∧ selectUrl selected url = selected ∨
          (∀ s ∈ selected, s.normalizedUrl ≠ n) ∧ selectUrl selected url = selected ++ [⟨url,n⟩]) := by
  unfold selectUrl normalized
  cases normalizeExternalUrl url.toList with
  | none => exact .inl ⟨rfl,rfl⟩
  | some chars =>
    refine .inr ⟨String.ofList chars,rfl,?_⟩
    by_cases seen : selected.any (fun s => s.normalizedUrl = String.ofList chars) = true
    · exact .inl ⟨by simpa using seen,if_pos seen⟩
    · exact .inr ⟨by simpa using seen,if_neg seen⟩

section Step
variable {urls : List String} {selected : List SelectedArticleUrl} {url : String}

theorem Selects.member (selects : Selects urls selected) {s} (among : s ∈ selected) : s.originalUrl ∈ urls := by
  obtain ⟨-,before,after,rfl,-⟩ := selects.first s among
  simp

theorem Selects.longer (selects : Selects urls selected)
    (every : ∀ n ∈ normalized url, ∃ s ∈ selected, s.normalizedUrl = n) : Selects (urls ++ [url]) selected where
  once := selects.once
  first s among := by
    obtain ⟨names,before,after,rfl,fresh⟩ := selects.first s among
    exact ⟨names,before,after ++ [url],by simp,fresh⟩
  every other among n names := by
    obtain earlier | rfl := List.mem_append.mp among |>.imp_right List.mem_singleton.mp
    · exact selects.every other earlier n names
    · exact every n names
  order := by
    refine selects.order.imp_of_mem ?_
    intro s t left right before
    rwa [List.idxOf_append_of_mem (selects.member left),List.idxOf_append_of_mem (selects.member right)]

theorem Selects.fresh (selects : Selects urls selected) {n} (names : normalized url = some n)
    (fresh : ∀ s ∈ selected, s.normalizedUrl ≠ n) : Selects (urls ++ [url]) (selected ++ [⟨url,n⟩]) where
  once := by
    simp only [List.map_append,List.map_cons,List.map_nil]
    refine List.Nodup.append selects.once (List.nodup_singleton n) ?_
    intro m among same
    obtain ⟨s,member,rfl⟩ := List.mem_map.mp among
    exact fresh s member (List.mem_singleton.mp same)
  first s among := by
    obtain earlier | rfl := List.mem_append.mp among |>.imp_right List.mem_singleton.mp
    · obtain ⟨names',before,after,rfl,first⟩ := selects.first s earlier
      exact ⟨names',before,after ++ [url],by simp,first⟩
    · refine ⟨names,urls,[],rfl,?_⟩
      intro other among same
      obtain ⟨s,member,selected⟩ := selects.every other among n same
      exact fresh s member selected
  every other among m names' := by
    obtain earlier | rfl := List.mem_append.mp among |>.imp_right List.mem_singleton.mp
    · obtain ⟨s,member,same⟩ := selects.every other earlier m names'
      exact ⟨s,List.mem_append_left _ member,same⟩
    · rw [names,Option.mem_some_iff] at names'
      exact ⟨⟨other,n⟩,by simp,names'⟩
  order := by
    have unseen : url ∉ urls := by
      intro seen
      obtain ⟨s,member,same⟩ := selects.every url seen n names
      exact fresh s member same
    refine List.pairwise_append.mpr ⟨?_,List.pairwise_singleton _ _,?_⟩
    · refine selects.order.imp_of_mem ?_
      intro s t left right before
      rwa [List.idxOf_append_of_mem (selects.member left),List.idxOf_append_of_mem (selects.member right)]
    · intro s member t last
      cases List.mem_singleton.mp last
      rw [List.idxOf_append_of_mem (selects.member member),List.idxOf_append_of_notMem unseen]
      exact Nat.lt_add_right _ (List.idxOf_lt_length_of_mem (selects.member member))

end Step

theorem selectionSelects (urls : List String) : Selects urls (selectExternalExpandedUrls urls) := by
  induction urls using List.reverseRecOn with
  | nil => exact ⟨List.nodup_nil,by simp [selectExternalExpandedUrls],by simp,List.Pairwise.nil⟩
  | append_singleton urls url ih =>
    rw [selectExternalExpandedUrls,List.foldl_append,List.foldl_cons,List.foldl_nil,← selectExternalExpandedUrls]
    obtain ⟨none,same⟩ | ⟨n,names,⟨seen,same⟩ | ⟨fresh,more⟩⟩ := selectUrlCases (selectExternalExpandedUrls urls) url
    · rw [same]
      exact ih.longer (by simp [none])
    · rw [same]
      refine ih.longer ?_
      intro m given
      rw [names,Option.mem_some_iff] at given
      exact given ▸ seen
    · rw [more]
      exact ih.fresh names fresh

end RatatoskrX.UrlSelection
