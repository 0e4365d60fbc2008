import RatatoskrX.Permalink

/-! Which permalinks name a status. The path is searched for its first keyword, so a handle
that is a keyword itself hides the one behind it. -/
namespace RatatoskrX.StatusPermalinks
open Permalink

def IsKeyword (segment : List Char) : Prop := segment = "status".toList ∨ segment = "statuses".toList

instance (segment) : Decidable (IsKeyword segment) := by unfold IsKeyword; infer_instance

def IsScheme (scheme : List Char) : Prop :=
  eqIgnoreAsciiCase scheme "https".toList = true ∨ eqIgnoreAsciiCase scheme "http".toList = true

def IsHost (host : List Char) : Prop := ∃ allowed ∈ statusHosts, eqIgnoreAsciiCase allowed host = true

/- 1 to 19 decimal digits. -/
def IsStatusId (id : List Char) : Prop := 1 ≤ id.length ∧ id.length ≤ 19 ∧ id.all Char.isDigit = true

instance (id) : Decidable (IsStatusId id) := by unfold IsStatusId; infer_instance

def Ends (c : Char) : Prop := c = '/' ∨ c = '?' ∨ c = '#'

structure Parts where
  scheme : List Char
  host : List Char
  handle : List Char
  keyword : List Char
  id : List Char
  suffix : List Char

def Parts.path (p : Parts) : List Char := p.handle ++ '/'::(p.keyword ++ '/'::(p.id ++ p.suffix))

def Parts.text (p : Parts) : List Char := p.scheme ++ "://".toList ++ (p.host ++ '/'::p.path)

structure Parts.WellFormed (p : Parts) : Prop where
  scheme : IsScheme p.scheme
  host : IsHost p.host
  handle : p.handle ≠ [] ∧ ∀ c ∈ p.handle, ¬Ends c
  keyword : IsKeyword p.keyword
  id : IsStatusId p.id
  suffix : ∀ c ∈ p.suffix.head?, Ends c

/- The permalink is on one of the hosts, and the id is the segment of its path right behind a keyword. -/
def Names (permalink id : List Char) : Prop :=
  IsStatusId id ∧ ∃ scheme host path before keyword after, permalink = scheme ++ "://".toList ++ (host ++ '/'::path) ∧
    IsScheme scheme ∧ IsHost host ∧ (withoutQuery path).splitOn '/' = before ++ keyword::id::after ∧ IsKeyword keyword

section Reading

theorem afterKeyword {segment} {rest : List (List Char)} (keyword : IsKeyword segment) :
    afterStatus (segment::rest) = rest.head? := if_pos keyword

theorem afterOther {segment} {rest : List (List Char)} (other : ¬IsKeyword segment) :
    afterStatus (segment::rest) = afterStatus rest := if_neg other

theorem afterStatusFound {parts : List (List Char)} {id} (ok : afterStatus parts = some id) :
    ∃ before keyword after, parts = before ++ keyword::id::after ∧ IsKeyword keyword := by
  induction parts with
  | nil => simp [afterStatus] at ok
  | cons segment rest ih =>
    rw [afterStatus] at ok
    split at ok
    · rename_i keyword
      obtain ⟨tail,rfl⟩ := List.head?_eq_some_iff.mp ok
      exact ⟨[],segment,tail,rfl,keyword⟩
    · obtain ⟨before,keyword,after,rfl,isKeyword⟩ := ih ok
      exact ⟨segment::before,keyword,after,rfl,isKeyword⟩

theorem permalinkNames {permalink id} (ok : statusIdFromPermalink permalink = some id) : Names permalink id := by
  simp only [statusIdFromPermalink,bind,Option.bind_eq_some_iff,Prod.exists] at ok
  obtain ⟨scheme,rest,split,ok⟩ := ok
  split at ok
  · simp at ok
  rename_i isScheme
  simp only [Option.bind_eq_some_iff,Prod.exists] at ok
  obtain ⟨host,path,parted,ok⟩ := ok
  split at ok
  · simp at ok
  rename_i isHost
  simp only [Option.bind_eq_some_iff] at ok
  obtain ⟨found,after,ok⟩ := ok
  split at ok
  · rename_i isId
    cases Option.some.inj ok
    obtain ⟨before,keyword,rest',form,isKeyword⟩ := afterStatusFound after
    refine ⟨isId,scheme,host,path,before,keyword,rest',?_,?_,?_,?_,isKeyword⟩
    · rw [splitOnceForm split,(splitOnceSome.mp parted).1]
    · unfold IsScheme
      simp only [Bool.and_eq_true,Bool.not_eq_true',not_and_or,Bool.not_eq_false] at isScheme
      exact isScheme
    · simpa [IsHost] using isHost
    · rw [← segmentsSplit,form]
  · simp at ok

end Reading

section Writing

theorem lowerApart {text allowed : List Char} {c : Char} (same : eqIgnoreAsciiCase text allowed = true)
    (absent : c.toLower ∉ allowed.map Char.toLower) : c ∉ text := by
  intro member
  have lower := List.mem_map_of_mem (f := Char.toLower) member
  rw [beq_iff_eq.mp same] at lower
  exact absent lower

theorem schemeColon {scheme} (isScheme : IsScheme scheme) : ':' ∉ scheme := by
  obtain same | same := isScheme <;> exact lowerApart same (by decide)

theorem hostSlash {host} (isHost : IsHost host) : '/' ∉ host := by
  obtain ⟨allowed,member,same⟩ := isHost
  have apart : ∀ allowed ∈ statusHosts, '/' ∉ allowed.map Char.toLower := by decide
  refine lowerApart ?_ (apart allowed member)
  rw [eqIgnoreAsciiCase,beq_iff_eq] at same ⊢
  exact same.symm

theorem keywordEnds {keyword} (isKeyword : IsKeyword keyword) : ∀ c ∈ keyword, ¬Ends c := by
  obtain rfl | rfl := isKeyword <;> simp [Ends]

theorem idEnds {id} (isId : IsStatusId id) : ∀ c ∈ id, ¬Ends c := by
  intro c member ends
  have digit := List.all_eq_true.mp isId.2.2 c member
  obtain rfl | rfl | rfl := ends <;> simp at digit

theorem idKeyword {id} (isId : IsStatusId id) : ¬IsKeyword id := by
  rintro (rfl | rfl) <;> simp [IsStatusId] at isId

theorem insideQuery {segment : List Char} (inside : ∀ c ∈ segment, ¬Ends c) :
    ∀ c ∈ segment, (c != '?' && c != '#') = true := by
  intro c member
  have none := inside c member
  simp only [Ends,not_or] at none
  simp [none.2.1,none.2.2]

theorem queryApart {segment rest : List Char} (inside : ∀ c ∈ segment, ¬Ends c) :
    withoutQuery (segment ++ '/'::rest) = segment ++ '/'::withoutQuery rest := by
  unfold withoutQuery
  rw [List.takeWhile_append_of_pos (insideQuery inside)]
  simp

theorem lastSegments {id suffix : List Char} (inside : ∀ c ∈ id, ¬Ends c) (ends : ∀ c ∈ suffix.head?, Ends c) :
    ∃ after, (withoutQuery (id ++ suffix)).splitOn '/' = id::after := by
  have slash : '/' ∉ id := fun member => inside '/' member (.inl rfl)
  by_cases slashed : suffix.head? = some '/'
  · obtain ⟨rest,rfl⟩ := List.head?_eq_some_iff.mp slashed
    exact ⟨_,by rw [queryApart inside,List.splitOn_append_cons_self_of_not_mem slash]⟩
  · refine ⟨[],?_⟩
    have cut : withoutQuery (id ++ suffix) = id := by
      refine Splitting.takeUpto (insideQuery inside) ?_
      intro c first
      obtain rfl | rfl | rfl := ends c first
      · exact absurd first slashed
      · simp
      · simp
    rw [cut,List.splitOn_eq_singleton slash]

theorem pathSegments {p : Parts} (formed : p.WellFormed) :
    ∃ after, (withoutQuery p.path).splitOn '/' = p.handle::p.keyword::p.id::after := by
  obtain ⟨after,last⟩ := lastSegments (idEnds formed.id) formed.suffix
  refine ⟨after,?_⟩
  have handle : '/' ∉ p.handle := fun member => formed.handle.2 '/' member (.inl rfl)
  have keyword : '/' ∉ p.keyword := fun member => keywordEnds formed.keyword '/' member (.inl rfl)
  rw [Parts.path,queryApart formed.handle.2,List.splitOn_append_cons_self_of_not_mem handle,
    queryApart (keywordEnds formed.keyword),List.splitOn_append_cons_self_of_not_mem keyword,last]

theorem textRead {p : Parts} (formed : p.WellFormed) :
    statusIdFromPermalink p.text = (afterStatus (segments (withoutQuery p.path))).bind
      (fun id => if 1 ≤ id.length ∧ id.length ≤ 19 ∧ id.all Char.isDigit then some id else none) := by
  have scheme : splitOnce "://".toList p.text = some (p.scheme,p.host ++ '/'::p.path) :=
    splitOnceAfter (schemeColon formed.scheme)
  have host : splitOnce ['/'] (p.host ++ '/'::p.path) = some (p.host,p.path) :=
    splitOnceSome.mpr ⟨rfl,hostSlash formed.host⟩
  have known : (!eqIgnoreAsciiCase p.scheme "https".toList && !eqIgnoreAsciiCase p.scheme "http".toList) = false := by
    obtain same | same := formed.scheme <;> rw [same] <;> simp
  have served : (!statusHosts.any (fun allowed => eqIgnoreAsciiCase allowed p.host)) = false := by
    simpa [IsHost] using formed.host
  simp only [statusIdFromPermalink,bind,scheme,host,known,served,Option.bind_some,Bool.false_eq_true,if_false]

end Writing

/-- A status permalink gives its id exactly where its handle is no keyword, and whatever is
given is the segment right behind a keyword of a path on one of the hosts. -/
theorem permalinkExactly (permalink) :
    (∀ p : Parts, p.WellFormed → p.text = permalink →
      (statusIdFromPermalink permalink = some p.id ↔ ¬IsKeyword p.handle)) ∧
      ∀ id, statusIdFromPermalink permalink = some id → Names permalink id := by
  refine ⟨?_,fun _ => permalinkNames⟩
  intro p formed written
  subst written
  obtain ⟨after,split⟩ := pathSegments formed
  rw [textRead formed,segmentsSplit,split]
  constructor
  · intro given keyword
    rw [afterKeyword keyword] at given
    have same : p.keyword = p.id := by
      simp only [List.head?_cons,Option.bind_some] at given
      split at given
      · exact Option.some.inj given
      · simp at given
    exact idKeyword formed.id (same ▸ formed.keyword)
  · intro other
    rw [afterOther other,afterKeyword formed.keyword,List.head?_cons,Option.bind_some]
    exact if_pos formed.id

def queriedStatus : Parts :=
  ⟨"HTTPS".toList,"Mobile.X.com".toList,"ratatoskr".toList,"statuses".toList,"42".toList,"?s=/status/7".toList⟩

theorem permalinkExactlyQueried :
    (statusIdFromPermalink queriedStatus.text = some queriedStatus.id ↔ ¬IsKeyword queriedStatus.handle) ∧
      ¬IsKeyword queriedStatus.handle ∧ Names queriedStatus.text queriedStatus.id := by
  have formed : queriedStatus.WellFormed :=
    ⟨.inl (by decide),⟨"mobile.x.com".toList,by decide,by decide⟩,⟨by decide,by simp [queriedStatus,Ends]⟩,.inr rfl,by decide,
      by simp [queriedStatus,Ends]⟩
  have other : ¬IsKeyword queriedStatus.handle := by decide
  obtain ⟨read,named⟩ := permalinkExactly queriedStatus.text
  have exactly := read queriedStatus formed rfl
  exact ⟨exactly,other,named _ (exactly.mpr other)⟩

def keywordHandle : Parts :=
  ⟨"https".toList,"x.com".toList,"status".toList,"status".toList,"42".toList,[]⟩

theorem keywordHandleMissed : keywordHandle.text = "https://x.com/status/status/42".toList ∧ keywordHandle.WellFormed ∧
    statusIdFromPermalink keywordHandle.text = none := by
  refine ⟨by decide,⟨.inl (by decide),⟨_,List.mem_cons_self,by decide⟩,⟨by decide,?_⟩,.inl rfl,by decide,by simp [keywordHandle]⟩,
    by decide⟩
  exact keywordEnds (.inl rfl)

end RatatoskrX.StatusPermalinks
