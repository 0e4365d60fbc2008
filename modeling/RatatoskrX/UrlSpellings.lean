import RatatoskrX.UrlForms
import RatatoskrX.UrlSelection

/-! The spellings of one external URL. A step changes the case of its scheme or host, states
the default port, puts on another fragment, or moves and adds components of its query that
the normal form drops or sorts. -/
namespace RatatoskrX.UrlSpellings
open Permalink ArticleUrls UrlForms

inductive Respells : Url → Url → Prop where
  | scheme {u : Url} {scheme} (same : lower scheme = lower u.scheme) : Respells u {u with scheme}
  | host {u : Url} {host} (same : lower host = lower u.host) : Respells u {u with host}
  | port {u : Url} {p} (absent : u.port = none) (default_ : parseU16 p = some u.defaultPort) : Respells u {u with port := some p}
  | fragment {u : Url} {fragment} : Respells u {u with fragment}
  | insert {u : Url} {before after component} (parts : queryParts u.query = before ++ after) (dropped : ignored component = true)
      (plain : '&' ∉ component ∧ '#' ∉ component) :
      Respells u {u with query := some (List.intercalate ['&'] (before ++ component::after))}
  | permute {u : Url} {parts} (perm : parts.Perm (queryParts u.query)) (some_ : parts ≠ []) :
      Respells u {u with query := some (List.intercalate ['&'] parts)}

section Steps
variable {u w : Url}

theorem lowerHost {host host' : List Char} (same : lower host = lower host') (formed : host' ≠ [] ∧ ∀ c ∈ host', isHostChar c = true) :
    host ≠ [] ∧ ∀ c ∈ host, isHostChar c = true := by
  refine ⟨?_,?_⟩
  · rintro rfl
    exact formed.1 (List.map_eq_nil_iff.mp same.symm)
  · intro c member
    have lowered : c.toLower ∈ lower host' := by
      rw [← same]
      exact List.mem_map_of_mem member
    obtain ⟨d,among,lower_⟩ := List.mem_map.mp lowered
    rw [← hostLower,← lower_,hostLower]
    exact formed.2 d among

theorem spelledQuery {parts : List (List Char)} (plain : ∀ component ∈ parts, '#' ∉ component) :
    '#' ∉ List.intercalate ['&'] parts := by
  intro member
  obtain same | ⟨component,among,inside⟩ := Splitting.joinedMember member
  · simp at same
  · exact plain component among inside

theorem partPlain (formed : u.WellFormed) {component} (among : component ∈ queryParts u.query) : '#' ∉ component := by
  intro member
  obtain ⟨-,q,stated,inside⟩ := partMember among member
  exact formed.query q stated inside

theorem spelledCanonical {parts : List (List Char)} (apart : ∀ component ∈ parts, '&' ∉ component) (some_ : parts ≠ []) :
    canonicalQuery (some (List.intercalate ['&'] parts)) = spelledParts (kept parts) := by
  rw [canonicalParts,queryParts,List.splitOn_intercalate '&' apart some_]

theorem respelledFormed (step : Respells u w) (formed : u.WellFormed) : w.WellFormed := by
  cases step with
  | scheme same => exact ⟨by rw [same]; exact formed.scheme,formed.host,formed.port,formed.path,formed.query⟩
  | host same => exact ⟨formed.scheme,lowerHost same formed.host,formed.port,formed.path,formed.query⟩
  | port absent default_ =>
    refine ⟨formed.scheme,formed.host,?_,formed.path,formed.query⟩
    intro p stated
    cases Option.some.inj stated
    rw [default_]
    rfl
  | fragment => exact ⟨formed.scheme,formed.host,formed.port,formed.path,formed.query⟩
  | @insert before after component parts dropped plain =>
    refine ⟨formed.scheme,formed.host,formed.port,formed.path,?_⟩
    intro q stated
    cases Option.some.inj stated
    refine spelledQuery (fun other among => ?_)
    obtain rfl | elsewhere : other = component ∨ other ∈ before ++ after := by
      simpa [or_left_comm] using among
    · exact plain.2
    · exact partPlain formed (parts ▸ elsewhere)
  | permute perm some_ =>
    refine ⟨formed.scheme,formed.host,formed.port,formed.path,?_⟩
    intro q stated
    cases Option.some.inj stated
    exact spelledQuery (fun component among => partPlain formed (perm.mem_iff.mp among))

theorem normalSame (scheme : lower w.scheme = lower u.scheme) (host : lower w.host = lower u.host)
    (number : w.portNumber = u.portNumber) (path : w.path = u.path) (query : canonicalQuery w.query = canonicalQuery u.query) :
    w.normal = u.normal := by
  have default_ : w.defaultPort = u.defaultPort := by
    unfold Url.defaultPort
    rw [scheme]
  unfold Url.normal
  rw [scheme,host,number,default_,path,query]

theorem respelledNormal (step : Respells u w) : w.normal = u.normal := by
  cases step with
  | scheme same => exact normalSame same rfl rfl rfl rfl
  | host same => exact normalSame rfl same rfl rfl rfl
  | port absent default_ => simp [Url.normal,Url.portNumber,absent,default_,Option.filter,Url.defaultPort]
  | fragment => rfl
  | @insert before after component parts dropped plain =>
    refine normalSame rfl rfl rfl rfl ?_
    have apart : ∀ other ∈ before ++ component::after, '&' ∉ other := by
      intro other among
      obtain rfl | elsewhere : other = component ∨ other ∈ before ++ after := by
        simpa [or_left_comm] using among
      · exact plain.1
      · exact partApart (parts ▸ elsewhere)
    rw [spelledCanonical apart (by simp),keptIgnored dropped,canonicalParts,parts]
  | @permute parts perm some_ =>
    refine normalSame rfl rfl rfl rfl ?_
    have apart : ∀ component ∈ parts, '&' ∉ component := fun component among => partApart (perm.mem_iff.mp among)
    rw [spelledCanonical apart some_,keptPerm perm,canonicalParts]

end Steps

section Chains
variable {u w : Url}

theorem chainNormal (steps : Relation.ReflTransGen Respells u w) (formed : u.WellFormed) :
    w.WellFormed ∧ w.normal = u.normal := by
  induction steps with
  | refl => exact ⟨formed,rfl⟩
  | tail _ step ih => exact ⟨respelledFormed step ih.1,(respelledNormal step).trans ih.2⟩

theorem chainNormalized (steps : Relation.ReflTransGen Respells u w) (formed : u.WellFormed) (clean : Clean u.text)
    (clean' : Clean w.text) : normalizeExternalUrl w.text = normalizeExternalUrl u.text := by
  obtain ⟨formed',normal⟩ := chainNormal steps formed
  have host : lower w.host = lower u.host := congrArg Url.host normal
  rw [normalizeText formed' clean',normalizeText formed clean,host,normal]

theorem normalAccepted {v : List Char} (formed : u.WellFormed) (clean : Clean u.text) (ok : normalizeExternalUrl u.text = some v) :
    normalizeExternalUrl v = some v := by
  rw [normalizeText formed clean] at ok
  split at ok
  · simp at ok
  · rename_i outside
    cases Option.some.inj ok
    have host : lower u.normal.host = lower u.host := lowerLower u.host
    rw [normalizeText (normalFormed formed) (normalClean formed clean),host,if_neg outside,normalNormal]

end Chains

/-- Normalizing again changes nothing, every accepted text is a URL taken apart, all its
spellings without blanks and controls normalize to the same text, and the selection holds
each normal form once, under the first URL that has it. -/
theorem normalizedCanonically :
    (∀ raw v, normalizeExternalUrl raw = some v →
      normalizeExternalUrl v = some v ∧ (∃ u : Url, u.WellFormed ∧ u.text = raw) ∧
        ∀ u w : Url, u.WellFormed → u.text = raw → Relation.ReflTransGen Respells u w → Clean w.text →
          normalizeExternalUrl w.text = some v) ∧
      ∀ urls, UrlSelection.Selects urls (selectExternalExpandedUrls urls) := by
  refine ⟨?_,UrlSelection.selectionSelects⟩
  intro raw v ok
  obtain ⟨clean,u,formed,rfl⟩ := acceptedForm ok
  refine ⟨normalAccepted formed clean ok,⟨u,formed,rfl⟩,?_⟩
  intro u' w formed' same steps clean'
  rw [← same] at clean ok
  rw [chainNormalized steps formed' clean clean',ok]

def plainUrl : Url := ⟨"http".toList,"a.io".toList,none,"/".toList,none,none⟩

theorem blankFragmentRefused : normalizeExternalUrl plainUrl.text = some plainUrl.text ∧
    Respells plainUrl {plainUrl with fragment := some "a b".toList} ∧
    normalizeExternalUrl {plainUrl with fragment := some "a b".toList}.text = none :=
  ⟨by decide +kernel,.fragment,by decide +kernel⟩

/- The same URL in another case, with its default port after zeros, and with a tracking
component behind the empty path. -/
def trackedUrl : Url := ⟨"HTTP".toList,"a.io".toList,some "0080".toList,"/".toList,some "utm_source=x".toList,none⟩

theorem normalizedCanonicallyTracked : normalizeExternalUrl plainUrl.text = some plainUrl.text ∧
    normalizeExternalUrl trackedUrl.text = some plainUrl.text ∧
    UrlSelection.Selects [String.ofList trackedUrl.text] (selectExternalExpandedUrls [String.ofList trackedUrl.text]) := by
  have accepted : normalizeExternalUrl plainUrl.text = some plainUrl.text := by decide +kernel
  have formed : plainUrl.WellFormed :=
    ⟨.inl (by decide),⟨by decide,List.all_eq_true.mp (by decide)⟩,by simp [plainUrl],⟨by simp [plainUrl],by simp [plainUrl]⟩,by simp [plainUrl]⟩
  have clean : Clean trackedUrl.text := cleanVisible (by decide)
  have cased : Respells plainUrl {plainUrl with scheme := "HTTP".toList} := .scheme (by decide)
  have ported : Respells {plainUrl with scheme := "HTTP".toList}
      {plainUrl with scheme := "HTTP".toList, port := some "0080".toList} := .port rfl (by decide)
  have queried : Respells {plainUrl with scheme := "HTTP".toList, port := some "0080".toList} trackedUrl :=
    @Respells.insert _ [] [] "utm_source=x".toList rfl (by decide) (by decide)
  have steps : Relation.ReflTransGen Respells plainUrl trackedUrl := ((Relation.ReflTransGen.single cased).tail ported).tail queried
  refine ⟨(normalizedCanonically.1 _ _ accepted).1,?_,normalizedCanonically.2 _⟩
  exact (normalizedCanonically.1 _ _ accepted).2.2 plainUrl trackedUrl formed rfl steps clean

end RatatoskrX.UrlSpellings
