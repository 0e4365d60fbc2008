import RatatoskrX.UrlForms
import RatatoskrX.UrlSelection

/-! Which links are kept from extraction. The host filter reads the name as written, so a
name that ends in the root dot passes it. -/
namespace RatatoskrX.ExternalLinks
open Permalink ArticleUrls UrlForms

def xDomains : List (List Char) := ["x.com".toList,"twitter.com".toList,"t.co".toList]

def Within (domain name : List Char) : Prop := name = domain ∨ ∃ labels, name = labels ++ '.'::domain

/- The name ends in the root dot. -/
def Rooted (host : List Char) : Prop := host.getLast? = some '.'

instance (host) : Decidable (Rooted host) := by unfold Rooted; infer_instance

def unrooted (host : List Char) : List Char := if Rooted host then host.dropLast else host

def DenotesX (host : List Char) : Prop := ∃ domain ∈ xDomains, Within domain (lower (unrooted host))

/- The URLs of a list that the selection is about: http or https, without userinfo, blanks
and controls. -/
def Eligible (raw : String) (u : Url) : Prop := u.WellFormed ∧ u.text = raw.toList ∧ Clean raw.toList

section Names
variable {host : List Char}

theorem lowerDot {c : Char} : c.toLower = '.' ↔ c = '.' := by
  constructor
  · intro same
    by_cases upper : c.isUpper = true
    · have letter := Char.isAlpha_toLower_eq_isAlpha c
      rw [same] at letter
      simp [Char.isAlpha,upper] at letter
    · rwa [Char.toLower_eq_of_not_isUpper upper] at same
  · rintro rfl
    decide

theorem rootedLower : Rooted (lower host) ↔ Rooted host := by
  unfold Rooted lower
  rw [List.getLast?_map,Option.map_eq_some_iff]
  simp [lowerDot]

theorem denotesLower : DenotesX (lower host) ↔ DenotesX host := by
  have same : lower (unrooted (lower host)) = lower (unrooted host) := by
    unfold unrooted
    by_cases rooted : Rooted host
    · rw [if_pos (rootedLower.mpr rooted),if_pos rooted]
      simp [lower,← List.map_dropLast]
    · rw [if_neg (fun other => rooted (rootedLower.mp other)),if_neg rooted,lowerLower]
  unfold DenotesX
  rw [same]

theorem isXHostWithin : isXHost host = true ↔ ∃ domain ∈ xDomains, Within domain host := by
  unfold isXHost Within
  simp only [List.any_eq_true,Bool.or_eq_true,beq_iff_eq,List.isSuffixOf_iff_suffix]
  refine exists_congr (fun domain => and_congr_right (fun _ => or_congr_right ?_))
  exact exists_congr (fun labels => eq_comm)

theorem withinUnrooted {domain : List Char} (known : domain ∈ xDomains) (within : Within domain host) : ¬Rooted host := by
  have ends : domain ≠ [] ∧ domain.getLast? ≠ some '.' := by
    simp only [xDomains,List.mem_cons,List.not_mem_nil,or_false] at known
    obtain rfl | rfl | rfl := known <;> decide
  intro rooted
  obtain rfl | ⟨labels,rfl⟩ := within
  · exact ends.2 rooted
  · rw [Rooted,List.getLast?_append_of_ne_nil _ (List.cons_ne_nil _ _),List.getLast?_cons_of_ne_nil ends.1] at rooted
    exact ends.2 rooted

theorem filterExactly : isXHost (lower host) = true ↔ DenotesX host ∧ ¬Rooted host := by
  rw [isXHostWithin]
  constructor
  · rintro ⟨domain,known,within⟩
    have plain : ¬Rooted host := fun rooted => withinUnrooted known within (rootedLower.mpr rooted)
    exact ⟨⟨domain,known,by rwa [unrooted,if_neg plain]⟩,plain⟩
  · rintro ⟨⟨domain,known,within⟩,plain⟩
    rw [unrooted,if_neg plain] at within
    exact ⟨domain,known,within⟩

end Names

section Kept
variable {raw : String} {u w : Url}

theorem eligibleNormalized (eligible : Eligible raw u) :
    UrlSelection.normalized raw = if isXHost (lower u.host) then none else some (String.ofList u.normal.text) := by
  obtain ⟨formed,text,clean⟩ := eligible
  rw [UrlSelection.normalized,← text,normalizeText formed (text ▸ clean)]
  split <;> rfl

theorem acceptedEligible {n : String} (names : UrlSelection.normalized raw = some n) :
    ∃ u, Eligible raw u ∧ n = String.ofList u.normal.text ∧ isXHost (lower u.host) = false := by
  obtain ⟨v,ok,-⟩ := Option.map_eq_some_iff.mp names
  obtain ⟨clean,u,formed,text⟩ := acceptedForm ok
  have eligible : Eligible raw u := ⟨formed,text,clean⟩
  rw [eligibleNormalized eligible] at names
  split at names
  · simp at names
  · rename_i outside
    exact ⟨u,eligible,(Option.some.inj names).symm,by simpa using outside⟩

theorem hostUnique (formed : u.WellFormed) (formed' : w.WellFormed) (same : u.text = w.text) : lower u.host = lower w.host := by
  have split : splitOnce "://".toList u.text = some (u.scheme,u.rest) := splitOnceAfter (schemeApart formed)
  have split' : splitOnce "://".toList w.text = some (w.scheme,w.rest) := splitOnceAfter (schemeApart formed')
  rw [same,split',Option.some.injEq,Prod.mk.injEq] at split
  have authority : u.authority = w.authority := by
    rw [← authorityTaken formed,← authorityTaken formed',split.2]
  have parted := splitAuthority formed
  rw [authority,splitAuthority formed',Option.some.injEq,Prod.mk.injEq] at parted
  exact parted.1.symm

theorem denotesUnique (formed : u.WellFormed) (formed' : w.WellFormed) (same : u.text = w.text) (denotes : DenotesX u.host) :
    DenotesX w.host := by
  rw [← denotesLower,← hostUnique formed formed' same,denotesLower]
  exact denotes

end Kept

/- No selected URL, as written or normalized, is on a host that denotes one of X's names. -/
def NoneOfX (selected : List SelectedArticleUrl) : Prop :=
  ∀ s ∈ selected, ∀ u : Url, u.WellFormed → u.text = s.originalUrl.toList ∨ u.text = s.normalizedUrl.toList → ¬DenotesX u.host

def OthersKept (urls : List String) (selected : List SelectedArticleUrl) : Prop :=
  ∀ raw ∈ urls, ∀ u : Url, Eligible raw u → ¬DenotesX u.host →
    ∃ s ∈ selected, s.normalizedUrl = String.ofList u.normal.text

/-- X's links are kept from extraction exactly where no eligible URL of the list ends the name
of its host with the root dot. -/
theorem linksExternalExactly (urls : List String) :
    NoneOfX (selectExternalExpandedUrls urls) ∧ OthersKept urls (selectExternalExpandedUrls urls) ↔
      ∀ raw ∈ urls, ∀ u : Url, Eligible raw u → ¬(DenotesX u.host ∧ Rooted u.host) := by
  have selects := UrlSelection.selectionSelects urls
  constructor
  · rintro ⟨none,-⟩ raw among u eligible ⟨denotes,rooted⟩
    have missed : ¬isXHost (lower u.host) = true := fun filtered => (filterExactly.mp filtered).2 rooted
    have names := eligibleNormalized eligible
    rw [if_neg missed] at names
    obtain ⟨s,member,same⟩ := selects.every raw among _ names
    refine none s member u.normal (normalFormed eligible.1) (.inr ?_) (denotesLower.mpr denotes)
    rw [same,String.toList_ofList]
  · intro plain
    refine ⟨?_,?_⟩
    · intro s member u formed text denotes
      obtain ⟨w,eligible,normal,outside⟩ := acceptedEligible (selects.first s member).1
      have among := selects.member member
      have other : ¬DenotesX w.host := by
        intro denotes
        have filtered : isXHost (lower w.host) = true :=
          filterExactly.mpr ⟨denotes,fun rooted => plain _ among w eligible ⟨denotes,rooted⟩⟩
        rw [outside] at filtered
        simp at filtered
      obtain original | normalized := text
      · exact other (denotesUnique formed eligible.1 (original.trans eligible.2.1.symm) denotes)
      · rw [normal,String.toList_ofList] at normalized
        exact other (denotesLower.mp (denotesUnique formed (normalFormed eligible.1) normalized denotes))
    · intro raw among u eligible other
      have outside : ¬isXHost (lower u.host) = true := fun filtered => other (filterExactly.mp filtered).1
      have names := eligibleNormalized eligible
      rw [if_neg outside] at names
      exact selects.every raw among _ names

def rootedLink : Url := ⟨"https".toList,"x.com.".toList,none,"/a".toList,none,none⟩

theorem rootedLinkKept : selectExternalExpandedUrls ["https://x.com./a"] = [⟨"https://x.com./a","https://x.com./a"⟩] ∧
    Eligible "https://x.com./a" rootedLink ∧ DenotesX rootedLink.host ∧
    ¬NoneOfX (selectExternalExpandedUrls ["https://x.com./a"]) := by
  have selected : selectExternalExpandedUrls ["https://x.com./a"] = [⟨"https://x.com./a","https://x.com./a"⟩] := by decide +kernel
  have formed : rootedLink.WellFormed :=
    ⟨.inr (by decide),⟨by decide,List.all_eq_true.mp (by decide)⟩,by simp [rootedLink],⟨by simp [rootedLink],by simp [rootedLink]⟩,by simp [rootedLink]⟩
  have text : rootedLink.text = "https://x.com./a".toList := by decide +kernel
  have clean : Clean "https://x.com./a".toList := cleanVisible (by decide)
  have denotes : DenotesX rootedLink.host := ⟨"x.com".toList,List.mem_cons_self,.inl (by decide)⟩
  refine ⟨selected,⟨formed,text,clean⟩,denotes,?_⟩
  intro none
  rw [selected] at none
  exact none _ (List.mem_singleton_self _) rootedLink formed (.inl text) denotes

end RatatoskrX.ExternalLinks
