import Mathlib
import RatatoskrX.Foundation.Keyed
import RatatoskrX.ArticleUrls

/-! The normal form of an external URL. A URL is taken apart once, by its separators; the
normal form is a URL again, and what it forgets of the spelling is said part by part. -/
namespace RatatoskrX.UrlForms
open Permalink ArticleUrls

/- A separator and what follows it, or neither. -/
def marked (c : Char) : Option (List Char) → List Char
  | none => []
  | some text => c::text

@[ext]
structure Url where
  scheme : List Char
  host : List Char
  port : Option (List Char)
  path : List Char
  query : Option (List Char)
  fragment : Option (List Char)

namespace Url

def authority (u : Url) : List Char := u.host ++ marked ':' u.port

def resource (u : Url) : List Char := u.path ++ marked '?' u.query

def rest (u : Url) : List Char := u.authority ++ (u.resource ++ marked '#' u.fragment)

def text (u : Url) : List Char := u.scheme ++ "://".toList ++ u.rest

structure WellFormed (u : Url) : Prop where
  scheme : lower u.scheme = "http".toList ∨ lower u.scheme = "https".toList
  host : u.host ≠ [] ∧ ∀ c ∈ u.host, isHostChar c = true
  port : ∀ p ∈ u.port, (parseU16 p).isSome = true
  path : (∀ c ∈ u.path, c ≠ '?' ∧ c ≠ '#') ∧ ∀ c ∈ u.path.head?, c = '/'
  query : ∀ q ∈ u.query, '#' ∉ q

def portNumber (u : Url) : Option Nat := u.port.bind parseU16

def defaultPort (u : Url) : Nat := if lower u.scheme = "http".toList then 80 else 443

def normal (u : Url) : Url where
  scheme := lower u.scheme
  host := lower u.host
  port := (u.portNumber.filter (fun port => port ≠ u.defaultPort)).map (fun port => (toString port).toList)
  path := if u.path = [] then ['/'] else u.path
  query := canonicalQuery u.query
  fragment := none

end Url

/- No character that the normalizer refuses anywhere in a URL. -/
def Clean (text : List Char) : Prop := ∀ c ∈ text, isAsciiWhitespace c = false ∧ isAsciiControl c = false

section Ports

theorem parsedPort {p : List Char} {port : Nat} (ok : parseU16 p = some port) :
    p ≠ [] ∧ port < 65536 ∧ ∀ c ∈ p, c = '+' ∨ c.isDigit = true := by
  rw [parseU16Form] at ok
  split at ok
  · rename_i digits
    split at ok
    · rename_i small
      cases Option.some.inj ok
      have each := List.all_eq_true.mp digits.2
      obtain signed | plain := unsignedCases p
      · refine ⟨by rw [signed]; simp,small,?_⟩
        intro c member
        rw [signed] at member
        exact (List.mem_cons.mp member).imp_right (each c)
      · rw [plain] at digits each
        exact ⟨digits.1,small,fun c member => .inr (each c member)⟩
    · simp at ok
  · simp at ok

theorem spelledDigits (port : Nat) : (toString port).toList = Nat.toDigits 10 port := by simp

theorem portSpelled {port : Nat} (small : port < 65536) : parseU16 (toString port).toList = some port := by
  have digits : ∀ c ∈ Nat.toDigits 10 port, c.isDigit = true := fun c member =>
    Nat.isDigit_of_mem_toDigits (by decide) (by decide) member
  have plain : unsigned (Nat.toDigits 10 port) = Nat.toDigits 10 port := by
    obtain signed | plain := unsignedCases (Nat.toDigits 10 port)
    · have plus := digits '+' (by rw [signed]; exact List.mem_cons_self)
      simp at plus
    · exact plain
  rw [spelledDigits,parseU16Form,plain,Nat.ofDigitChars_toDigits (by decide) (by decide),
    if_pos ⟨Nat.toDigits_ne_nil,List.all_eq_true.mpr digits⟩,if_pos small]

end Ports

section Parts
variable {u : Url}

theorem lowerWeb {scheme : List Char} (web : lower scheme = "http".toList ∨ lower scheme = "https".toList) {c : Char}
    (absent : c.toLower ∉ "https".toList) : c ∉ scheme := by
  intro member
  have lowered : c.toLower ∈ lower scheme := List.mem_map_of_mem member
  have shorter : "http".toList ⊆ "https".toList := by decide
  obtain same | same := web <;> rw [same] at lowered
  · exact absent (shorter lowered)
  · exact absent lowered

theorem authoritySpan (formed : u.WellFormed) :
    ∀ c ∈ u.authority, isHostChar c = true ∨ c = ':' ∨ c = '+' ∨ c.isDigit = true := by
  intro c member
  obtain host | port := List.mem_append.mp member
  · exact .inl (formed.host.2 c host)
  · cases stated : u.port with
    | none => simp [marked,stated] at port
    | some p =>
      rw [stated,marked] at port
      obtain rfl | digit := List.mem_cons.mp port
      · exact .inr (.inl rfl)
      · obtain ⟨number,parsed⟩ := Option.isSome_iff_exists.mp (formed.port p stated)
        exact .inr (.inr ((parsedPort parsed).2.2 c digit))

theorem authorityApart (formed : u.WellFormed) {c : Char} (other : isHostChar c = false ∧ c ≠ ':' ∧ c ≠ '+' ∧ c.isDigit = false) :
    c ∉ u.authority := by
  intro member
  obtain host | colon | plus | digit := authoritySpan formed c member
  · rw [other.1] at host
    simp at host
  · exact other.2.1 colon
  · exact other.2.2.1 plus
  · rw [other.2.2.2] at digit
    simp at digit

theorem restHead (formed : u.WellFormed) :
    ∀ c ∈ (u.resource ++ marked '#' u.fragment).head?, (c ≠ '/' && c ≠ '?' && c ≠ '#') = false := by
  intro c first
  unfold Url.resource at first
  cases path : u.path with
  | cons d rest =>
    rw [path] at first
    cases Option.some.inj first
    simp [formed.path.2 c (by rw [path]; rfl)]
  | nil =>
    rw [path] at first
    cases query : u.query with
    | some q =>
      rw [query] at first
      cases Option.some.inj first
      simp
    | none =>
      rw [query] at first
      cases fragment : u.fragment with
      | some f =>
        rw [fragment] at first
        cases Option.some.inj first
        simp
      | none =>
        rw [fragment] at first
        simp [marked] at first

theorem authorityTaken (formed : u.WellFormed) :
    u.rest.takeWhile (fun c => c ≠ '/' && c ≠ '?' && c ≠ '#') = u.authority := by
  refine Splitting.takeUpto ?_ (restHead formed)
  intro c member
  simp only [Bool.and_eq_true,decide_eq_true_eq]
  refine ⟨⟨?_,?_⟩,?_⟩ <;> rintro rfl
  · exact authorityApart formed (by decide) member
  · exact authorityApart formed (by decide) member
  · exact authorityApart formed (by decide) member

theorem hostColon (formed : u.WellFormed) : ':' ∉ u.host := by
  intro member
  have host := formed.host.2 ':' member
  revert host
  decide

theorem splitAuthority (formed : u.WellFormed) : splitHostAndPort u.authority = some (lower u.host,u.portNumber) := by
  have each : u.host.all isHostChar = true := List.all_eq_true.mpr formed.host.2
  unfold splitHostAndPort Url.authority Url.portNumber rsplitOnce
  cases stated : u.port with
  | none =>
    have none : splitOnce [':'] u.host.reverse = none := splitOnceNone.mpr (by simpa using hostColon formed)
    rw [marked,List.append_nil,none]
    simp only [Option.map_none,bind,Option.bind_some,Option.bind_none]
    rw [if_pos ⟨formed.host.1,each⟩]
  | some p =>
    obtain ⟨number,parsed⟩ := Option.isSome_iff_exists.mp (formed.port p stated)
    obtain ⟨some_,_,digits⟩ := parsedPort parsed
    have colon : ':' ∉ p := by
      intro member
      have digit := digits ':' member
      revert digit
      decide
    have split : splitOnce [':'] (u.host ++ ':'::p).reverse = some (p.reverse,u.host.reverse) :=
      splitOnceSome.mpr ⟨by simp,by simpa using colon⟩
    rw [marked,split]
    simp only [Option.map_some,List.reverse_reverse,bind,Option.bind_some]
    rw [if_pos some_,parsed]
    simp only [Option.map_some,Option.bind_some]
    rw [if_pos ⟨formed.host.1,each⟩]

theorem resourceTaken (formed : u.WellFormed) :
    (u.resource ++ marked '#' u.fragment).takeWhile (fun c => c ≠ '#') = u.resource := by
  refine Splitting.takeUpto ?_ ?_
  · intro c member
    obtain path | query := List.mem_append.mp member
    · simp [(formed.path.1 c path).2]
    · cases stated : u.query with
      | none => simp [marked,stated] at query
      | some q =>
        rw [stated,marked] at query
        obtain rfl | later := List.mem_cons.mp query
        · simp
        · have other : c ≠ '#' := fun same => formed.query q stated (same ▸ later)
          simp [other]
  · intro c first
    cases stated : u.fragment with
    | none => simp [marked,stated] at first
    | some f =>
      rw [stated,marked] at first
      cases Option.some.inj first
      simp

theorem resourceSplit (formed : u.WellFormed) : splitOnce ['?'] u.resource = u.query.map (fun query => (u.path,query)) := by
  have absent : '?' ∉ u.path := fun member => (formed.path.1 '?' member).1 rfl
  unfold Url.resource
  cases stated : u.query with
  | none =>
    rw [marked,List.append_nil]
    exact splitOnceNone.mpr absent
  | some q => exact splitOnceSome.mpr ⟨rfl,absent⟩

end Parts

section Normalizing
variable {u : Url}

theorem cleanAny {text : List Char} (clean : Clean text) :
    text.any (fun c => isAsciiWhitespace c || isAsciiControl c) = false := by
  rw [List.any_eq_false]
  intro c member
  obtain ⟨blank,control⟩ := clean c member
  simp [blank,control]

@[simp] theorem lowerLower (text : List Char) : lower (lower text) = lower text := by
  simp [lower]

theorem hostLower (c : Char) : isHostChar c.toLower = isHostChar c := by
  have letter := Char.isAlpha_toLower_eq_isAlpha c
  by_cases upper : c.isUpper = true
  · have isAlpha : c.isAlpha = true := by simp [Char.isAlpha,upper]
    rw [isAlpha] at letter
    simp [isHostChar,Char.isAlphanum,letter,isAlpha]
  · rw [Char.toLower_eq_of_not_isUpper upper]

theorem normalAuthority (formed : u.WellFormed) : u.normal.authority = u.portNumber.elim (lower u.host)
    (fun port => if (lower u.scheme = "http".toList ∧ port = 80) ∨ (lower u.scheme = "https".toList ∧ port = 443) then lower u.host
      else lower u.host ++ ':'::(toString port).toList) := by
  have default_ : ∀ port, (lower u.scheme = "http".toList ∧ port = 80) ∨ (lower u.scheme = "https".toList ∧ port = 443) ↔
      port = u.defaultPort := by
    intro port
    unfold Url.defaultPort
    obtain web | web := formed.scheme <;> simp [web]
  simp only [default_]
  unfold Url.authority Url.normal
  cases u.portNumber with
  | none => simp [marked]
  | some port => by_cases same : port = u.defaultPort <;> simp [Option.filter,same,marked]

theorem normalText (u : Url) : u.normal.text = lower u.scheme ++ "://".toList ++ u.normal.authority ++
    (if u.path = [] then ['/'] else u.path) ++ marked '?' (canonicalQuery u.query) := by
  simp [Url.text,Url.rest,Url.resource,Url.normal,marked]

theorem schemeApart (formed : u.WellFormed) : ':' ∉ u.scheme := lowerWeb formed.scheme (by decide)

theorem authorityNonempty (formed : u.WellFormed) : u.authority ≠ [] := by
  intro empty
  exact formed.host.1 (List.append_eq_nil_iff.mp empty).1

theorem normalizeText (formed : u.WellFormed) (clean : Clean u.text) :
    normalizeExternalUrl u.text = if isXHost (lower u.host) then none else some u.normal.text := by
  have nonempty : u.text ≠ [] := by simp [Url.text]
  have split : splitOnce "://".toList u.text = some (u.scheme,u.rest) := splitOnceAfter (schemeApart formed)
  have web : ¬(lower u.scheme ≠ "http".toList ∧ lower u.scheme ≠ "https".toList) := by
    obtain same | same := formed.scheme <;> simp [same]
  have open_ : u.authority.head? ≠ some '[' := by
    intro first
    exact authorityApart formed (by decide) (List.mem_of_head? first)
  have plain : ¬(u.authority = [] ∨ '@' ∈ u.authority ∨ u.authority.head? = some '[') := by
    simp only [not_or]
    exact ⟨authorityNonempty formed,authorityApart formed (by decide),open_⟩
  have left : u.rest.drop u.authority.length = u.resource ++ marked '#' u.fragment := List.drop_left
  have dirty : ¬(u.text = [] ∨ u.text.any (fun c => isAsciiWhitespace c || isAsciiControl c) = true) := by
    simp [nonempty,cleanAny clean]
  unfold normalizeExternalUrl
  simp only [bind,if_neg dirty,split,Option.bind_some,if_neg web,authorityTaken formed,if_neg plain,splitAuthority formed,left,
    resourceTaken formed,resourceSplit formed,normalText,normalAuthority formed]
  split
  · rfl
  · cases u.portNumber <;> cases stated : u.query with
    | none =>
      have plain : u.resource = u.path := by simp [Url.resource,stated,marked]
      simp [plain,canonicalQuery,marked]
    | some q =>
      cases canonical : canonicalQuery (some q) <;> simp [canonical,marked]

end Normalizing

section Reading

theorem markedApart (c : Char) (text : List Char) : ∃ before after, text = before ++ marked c after ∧ c ∉ before := by
  cases split : splitOnce [c] text with
  | none => exact ⟨text,none,by simp [marked],splitOnceNone.mp split⟩
  | some parts => exact ⟨parts.1,some parts.2,splitOnceSome.mp split⟩

theorem hostForm {spelled host : List Char} {port number : Option Nat}
    (ok : (if spelled ≠ [] ∧ spelled.all isHostChar then some (lower spelled,port) else none) = some (host,number)) :
    spelled ≠ [] ∧ ∀ c ∈ spelled, isHostChar c = true := by
  split at ok
  · rename_i named
    exact ⟨named.1,List.all_eq_true.mp named.2⟩
  · simp at ok

theorem splitForm {authority host : List Char} {number : Option Nat} (ok : splitHostAndPort authority = some (host,number)) :
    ∃ spelled port, authority = spelled ++ marked ':' port ∧ (spelled ≠ [] ∧ ∀ c ∈ spelled, isHostChar c = true) ∧
      ∀ p ∈ port, (parseU16 p).isSome = true := by
  unfold splitHostAndPort rsplitOnce at ok
  cases found : splitOnce [':'] authority.reverse with
  | none =>
    rw [found] at ok
    exact ⟨authority,none,by simp [marked],hostForm ok,by simp⟩
  | some parts =>
    obtain ⟨after,before⟩ := parts
    rw [found] at ok
    simp only [Option.map_some,bind] at ok
    split at ok
    · obtain ⟨cut,split,ok⟩ := Option.bind_eq_some_iff.mp ok
      obtain ⟨number,parsed,same⟩ := Option.map_eq_some_iff.mp split
      cases same
      refine ⟨before.reverse,some after.reverse,?_,hostForm ok,?_⟩
      · have form := congrArg List.reverse (splitOnceSome.mp found).1
        simpa [marked] using form
      · rintro p same
        cases Option.some.inj same
        simp [parsed]
    · simp at ok

theorem resourceForm {after : List Char} (ends : ∀ c ∈ after.head?, (c ≠ '/' && c ≠ '?' && c ≠ '#') = false) :
    ∃ path query fragment, after = (path ++ marked '?' query) ++ marked '#' fragment ∧
      ((∀ c ∈ path, c ≠ '?' ∧ c ≠ '#') ∧ ∀ c ∈ path.head?, c = '/') ∧ ∀ q ∈ query, '#' ∉ q := by
  obtain ⟨resource,fragment,cut,whole⟩ := markedApart '#' after
  obtain ⟨path,query,parts,plain⟩ := markedApart '?' resource
  have inside : ∀ c ∈ path, c ≠ '?' ∧ c ≠ '#' := by
    intro c member
    refine ⟨fun same => plain (same ▸ member),fun same => whole ?_⟩
    rw [parts,← same]
    exact List.mem_append_left _ member
  refine ⟨path,query,fragment,by rw [cut,parts],⟨inside,?_⟩,?_⟩
  · intro c first
    obtain ⟨tail,rfl⟩ := List.head?_eq_some_iff.mp first
    have ended := ends c (by rw [cut,parts]; rfl)
    have other := inside c List.mem_cons_self
    simpa [other.1,other.2] using ended
  · intro q stated member
    refine whole ?_
    rw [parts,Option.mem_def.mp stated,marked]
    exact List.mem_append_right _ (List.mem_cons_of_mem _ member)

/- Whatever the normalizer accepts is a URL that can be taken apart. -/
theorem acceptedForm {raw v : List Char} (ok : normalizeExternalUrl raw = some v) :
    Clean raw ∧ ∃ u : Url, u.WellFormed ∧ u.text = raw := by
  unfold normalizeExternalUrl at ok
  split at ok
  · cases ok
  rename_i clean
  obtain ⟨⟨scheme,rest⟩,split,ok⟩ := Option.bind_eq_some_iff.mp ok
  dsimp only at ok
  split at ok
  · cases ok
  rename_i web
  split at ok
  · cases ok
  obtain ⟨⟨host,number⟩,parted,-⟩ := Option.bind_eq_some_iff.mp ok
  refine ⟨?_,?_⟩
  · simp only [not_or,List.any_eq_true,not_exists,not_and,Bool.or_eq_true,Bool.not_eq_true] at clean
    exact clean.2
  · obtain ⟨spelled,port,named,host,ported⟩ := splitForm parted
    obtain ⟨path,query,fragment,cut,formed,queried⟩ := resourceForm
      (@Splitting.runHead _ (fun c => c ≠ '/' && c ≠ '?' && c ≠ '#') rest)
    refine ⟨⟨scheme,spelled,port,path,query,fragment⟩,⟨?_,host,ported,formed,queried⟩,?_⟩
    · simpa only [ne_eq,not_and_or,not_not] using web
    · have whole := List.takeWhile_append_dropWhile (p := fun c => c ≠ '/' && c ≠ '?' && c ≠ '#') (l := rest)
      rw [named,cut] at whole
      rw [splitOnceForm split,← whole]
      simp [Url.text,Url.rest,Url.authority,Url.resource]

end Reading

section Queries

def queryParts : Option (List Char) → List (List Char)
  | none => []
  | some query => query.splitOn '&'

def ignored (component : List Char) : Bool := component = [] || isTrackingKey (componentKey component)

/- What the normalizer keeps of the components, in its order. -/
def kept (parts : List (List Char)) : List (List Char) :=
  (parts.filter (fun component => !ignored component)).insertionSort (fun a b => a ≤ b)

def spelledParts (parts : List (List Char)) : Option (List Char) :=
  if parts = [] then none else some (List.intercalate ['&'] parts)

theorem canonicalParts (query : Option (List Char)) : canonicalQuery query = spelledParts (kept (queryParts query)) := by
  cases query with
  | none => rfl
  | some query =>
    have same : (fun component : List Char => !ignored component) =
        fun component => !isTrackingKey (componentKey component) && decide (component ≠ []) := by
      funext component
      by_cases empty : component = [] <;> simp [ignored,empty]
    simp only [canonicalQuery,spelledParts,kept,queryParts,bind,Option.bind_some,componentsSplit,List.filter_filter,same]

theorem keptPerm {parts parts' : List (List Char)} (perm : parts'.Perm parts) : kept parts' = kept parts :=
  Keyed.sortPerm (fun _ _ _ _ => le_antisymm) (perm.filter _)

theorem keptIgnored {before after : List (List Char)} {component} (none : ignored component = true) :
    kept (before ++ component::after) = kept (before ++ after) := by
  simp [kept,none]

theorem keptSubset {parts : List (List Char)} {component} (member : component ∈ kept parts) :
    component ∈ parts ∧ ignored component = false := by
  have among := (List.perm_insertionSort _ _).mem_iff.mp member
  simpa using List.mem_filter.mp among

theorem keptKept (parts : List (List Char)) : kept (kept parts) = kept parts := by
  have perm : (kept parts).Perm (parts.filter (fun component => !ignored component)) := List.perm_insertionSort _ _
  rw [keptPerm perm,kept,List.filter_filter]
  simp only [Bool.and_self]
  rfl

theorem partsSpelled {parts : List (List Char)} (apart : ∀ component ∈ parts, '&' ∉ component) :
    queryParts (spelledParts parts) = parts := by
  unfold spelledParts
  split
  · rename_i empty
    rw [empty]
    rfl
  · rename_i some_
    exact List.splitOn_intercalate '&' apart some_

theorem partMember {query : Option (List Char)} {component} {c : Char} (among : component ∈ queryParts query)
    (member : c ∈ component) : c ≠ '&' ∧ ∃ q ∈ query, c ∈ q := by
  cases query with
  | none => simp [queryParts] at among
  | some q =>
    obtain ⟨inside,apart⟩ := Splitting.partMember among member
    exact ⟨apart,q,rfl,inside⟩

theorem partApart {query : Option (List Char)} {component} (among : component ∈ queryParts query) : '&' ∉ component :=
  fun member => (partMember among member).1 rfl

theorem spelledMember {parts : List (List Char)} {query} {c : Char} (spelled : spelledParts parts = some query) (member : c ∈ query) :
    c = '&' ∨ ∃ component ∈ parts, c ∈ component := by
  unfold spelledParts at spelled
  split at spelled
  · simp at spelled
  · rename_i some_
    cases Option.some.inj spelled
    exact Splitting.joinedMember member

theorem canonicalAgain (query : Option (List Char)) : canonicalQuery (canonicalQuery query) = canonicalQuery query := by
  rw [canonicalParts (canonicalQuery query),canonicalParts query,
    partsSpelled (fun component member => partApart (keptSubset member).1),keptKept]

end Queries

section Visible
variable {u : Url} {text text' : List Char}

theorem visible {c : Char} (range : 0x20 < c.toNat ∧ c.toNat < 0x7f) : isAsciiWhitespace c = false ∧ isAsciiControl c = false := by
  have other {d : Char} (outside : ¬(0x20 < d.toNat ∧ d.toNat < 0x7f)) : c ≠ d := by
    rintro rfl
    exact outside range
  have number {n : UInt32} (outside : ¬(0x20 < n.toNat ∧ n.toNat < 0x7f)) : c.val ≠ n := by
    rintro rfl
    exact outside range
  have low : ¬c.val < 0x20 := by
    rw [UInt32.lt_iff_toNat_lt]
    exact Nat.not_lt.mpr (Nat.le_of_lt range.1)
  unfold isAsciiWhitespace isAsciiControl
  simp [other (d := ' ') (by decide),other (d := '\t') (by decide),other (d := '\n') (by decide),other (d := '\r') (by decide),
    number (n := 0x0c) (by decide),number (n := 0x7f) (by decide),low]

theorem cleanVisible (range : text.all (fun c => 0x20 < c.toNat ∧ c.toNat < 0x7f) = true) : Clean text :=
  fun c member => visible (of_decide_eq_true (List.all_eq_true.mp range c member))

theorem hostVisible {c : Char} (host : isHostChar c = true) : 0x20 < c.toNat ∧ c.toNat < 0x7f := by
  unfold isHostChar at host
  simp only [Bool.or_eq_true,decide_eq_true_eq] at host
  obtain (letter | rfl) | rfl := host
  · simp only [Char.isAlphanum,Char.isAlpha,Char.isUpper,Char.isLower,Char.isDigit,Bool.or_eq_true,Bool.and_eq_true,decide_eq_true_eq,
      ge_iff_le,UInt32.le_iff_toNat_le] at letter
    simp at letter
    omega
  · decide
  · decide

@[simp] theorem cleanAppend : Clean (text ++ text') ↔ Clean text ∧ Clean text' := List.forall_mem_append

theorem cleanHost (host : ∀ c ∈ text, isHostChar c = true) : Clean text :=
  fun c member => visible (hostVisible (host c member))

theorem cleanMarked {c : Char} {after : Option (List Char)} (range : 0x20 < c.toNat ∧ c.toNat < 0x7f)
    (clean : ∀ text ∈ after, Clean text) : Clean (marked c after) := by
  intro d member
  cases after with
  | none => simp [marked] at member
  | some text =>
    obtain rfl | inside := List.mem_cons.mp member
    · exact visible range
    · exact clean text rfl d inside

theorem cleanParts (clean : Clean u.text) : Clean u.path ∧ ∀ q ∈ u.query, Clean q := by
  simp only [Url.text,Url.rest,Url.resource,cleanAppend] at clean
  refine ⟨clean.2.2.1.1,?_⟩
  intro q stated c member
  refine clean.2.2.1.2 c ?_
  rw [Option.mem_def.mp stated]
  exact List.mem_cons_of_mem '?' member

end Visible

section Canonical
variable {u : Url}

theorem portSmall : ∀ port ∈ u.portNumber, port < 65536 := by
  intro port given
  obtain ⟨p,-,parsed⟩ := Option.bind_eq_some_iff.mp given
  exact (parsedPort parsed).2.1

theorem normalScheme : u.normal.scheme = lower u.scheme := rfl

theorem normalDefault : u.normal.defaultPort = u.defaultPort := by
  unfold Url.defaultPort
  rw [normalScheme,lowerLower]

theorem normalNumber : u.normal.portNumber = u.portNumber.filter (fun port => port ≠ u.defaultPort) := by
  rw [Url.portNumber,Url.normal,Option.bind_map]
  cases kept : u.portNumber.filter (fun port => port ≠ u.defaultPort) with
  | none => rfl
  | some port =>
    have given : u.portNumber = some port := (Option.filter_eq_some_iff.mp kept).1
    exact portSpelled (portSmall port given)

theorem normalQuery {query : List Char} {c : Char} (canonical : u.normal.query = some query) (member : c ∈ query) :
    c = '&' ∨ ∃ q ∈ u.query, c ∈ q := by
  rw [Url.normal,canonicalParts] at canonical
  obtain same | ⟨component,among,inside⟩ := spelledMember canonical member
  · exact .inl same
  · exact .inr (partMember (keptSubset among).1 inside).2

theorem normalFormed (formed : u.WellFormed) : u.normal.WellFormed := by
  refine ⟨?_,⟨?_,?_⟩,?_,?_,?_⟩
  · rw [normalScheme,lowerLower]
    exact formed.scheme
  · simpa [Url.normal,lower] using formed.host.1
  · intro c member
    obtain ⟨d,among,rfl⟩ := List.mem_map.mp member
    rw [hostLower]
    exact formed.host.2 d among
  · intro p stated
    obtain ⟨port,kept,rfl⟩ := Option.map_eq_some_iff.mp stated
    rw [portSpelled (portSmall port (Option.filter_eq_some_iff.mp kept).1)]
    rfl
  · by_cases empty : u.path = []
    · simp [Url.normal,empty]
    · simpa only [Url.normal,if_neg empty] using formed.path
  · intro q canonical member
    obtain same | ⟨q',stated,inside⟩ := normalQuery canonical member
    · simp at same
    · exact formed.query q' stated inside

theorem normalClean (formed : u.WellFormed) (clean : Clean u.text) : Clean u.normal.text := by
  obtain ⟨path,query⟩ := cleanParts clean
  have normal := normalFormed formed
  have scheme : Clean (lower u.scheme) := by
    obtain web | web := formed.scheme <;> rw [web] <;> exact cleanVisible (by decide)
  simp only [Url.text,Url.rest,Url.authority,Url.resource,cleanAppend]
  refine ⟨⟨scheme,?_⟩,⟨cleanHost normal.host.2,?_⟩,⟨?_,?_⟩,?_⟩
  · exact cleanVisible (by decide)
  · refine cleanMarked (by decide) ?_
    intro p stated
    obtain ⟨port,-,rfl⟩ := Option.map_eq_some_iff.mp stated
    rw [spelledDigits]
    refine cleanHost (fun c member => ?_)
    have digit : c.isDigit = true := Nat.isDigit_of_mem_toDigits (by decide) (by decide) member
    simp [isHostChar,Char.isAlphanum,digit]
  · by_cases empty : u.path = []
    · have root : u.normal.path = ['/'] := if_pos empty
      rw [root]
      exact cleanVisible (by decide)
    · simpa only [Url.normal,if_neg empty] using path
  · refine cleanMarked (by decide) ?_
    intro q canonical c member
    obtain rfl | ⟨q',stated,inside⟩ := normalQuery canonical member
    · exact visible (by decide)
    · exact query q' stated c inside
  · exact cleanMarked (by decide) (by simp [Url.normal])

theorem normalNormal : u.normal.normal = u.normal := by
  have path : u.normal.path ≠ [] := by
    by_cases empty : u.path = [] <;> simp [Url.normal,empty]
  have port : u.normal.normal.port = u.normal.port := by
    show (u.normal.portNumber.filter (fun port => port ≠ u.normal.defaultPort)).map _ = _
    rw [normalNumber,normalDefault,Option.filter_filter]
    simp [Url.normal]
  have query : canonicalQuery u.normal.query = u.normal.query := canonicalAgain u.query
  ext1
  · exact lowerLower u.scheme
  · exact lowerLower u.host
  · exact port
  · exact if_neg path
  · exact query
  · rfl

end Canonical

end RatatoskrX.UrlForms
