import Mathlib.Data.List.Basic
import RatatoskrX.Foundation.Splitting

/-! The status id that a permalink names, over the characters of the permalink. The
byte length and the byte test of the source read the same on the digits they admit. -/
namespace RatatoskrX.Permalink

def statusHosts : List (List Char) :=
  ["x.com","www.x.com","mobile.x.com","twitter.com","www.twitter.com","mobile.twitter.com"].map String.toList

/-- str::split_once at a pattern that is not empty. -/
def splitOnce (pattern : List Char) : List Char → Option (List Char × List Char)
  | [] => none
  | c::rest =>
    if pattern.isPrefixOf (c::rest) then some ([],(c::rest).drop pattern.length)
    else (splitOnce pattern rest).map (fun (before,after) => (c::before,after))

theorem splitOnceForm {pattern text before after : List Char} (ok : splitOnce pattern text = some (before,after)) :
    text = before ++ pattern ++ after := by
  induction text generalizing before with
  | nil => simp [splitOnce] at ok
  | cons c rest ih =>
    rw [splitOnce] at ok
    split at ok
    · rename_i starts
      obtain ⟨tail,form⟩ := List.isPrefixOf_iff_prefix.mp starts
      cases Option.some.inj ok
      rw [← form,List.drop_left,List.nil_append]
    · obtain ⟨⟨inner,last⟩,found,same⟩ := Option.map_eq_some_iff.mp ok
      cases same
      rw [ih found]
      rfl

theorem splitOnceAfter {c : Char} {pattern before after : List Char} (absent : c ∉ before) :
    splitOnce (c::pattern) (before ++ (c::pattern) ++ after) = some (before,after) := by
  induction before with
  | nil =>
    rw [List.nil_append,List.cons_append,splitOnce,if_pos (by simp)]
    simp
  | cons d rest ih =>
    rw [List.mem_cons,not_or] at absent
    rw [List.cons_append,List.cons_append,splitOnce,if_neg (by simp [absent.1]),ih absent.2]
    rfl

theorem splitOnceNone {c : Char} {text : List Char} : splitOnce [c] text = none ↔ c ∉ text := by
  induction text with
  | nil => simp [splitOnce]
  | cons d rest ih =>
    rw [splitOnce]
    by_cases same : c = d
    · simp [same]
    · rw [if_neg (by simp [same]),Option.map_eq_none_iff,ih]
      simp [same]

theorem splitOnceSome {c : Char} {text before after : List Char} :
    splitOnce [c] text = some (before,after) ↔ text = before ++ c::after ∧ c ∉ before := by
  constructor
  · intro ok
    refine ⟨by simpa using splitOnceForm ok,?_⟩
    intro member
    obtain ⟨first,last,form,absent⟩ := List.eq_append_cons_of_mem member
    have early := @splitOnceAfter c [] first (last ++ c::after) absent
    rw [splitOnceForm ok,form] at ok
    simp only [List.append_assoc,List.cons_append,List.nil_append] at ok early
    rw [early,Option.some.injEq,Prod.mk.injEq] at ok
    have lengths := congrArg List.length ok.1
    simp at lengths
  · rintro ⟨rfl,absent⟩
    have split := @splitOnceAfter c [] before after absent
    simpa using split

def eqIgnoreAsciiCase (a b : List Char) : Bool := a.map Char.toLower == b.map Char.toLower

def withoutQuery (path : List Char) : List Char := path.takeWhile (fun c => c != '?' && c != '#')

def segments : List Char → List (List Char)
  | [] => [[]]
  | c::rest =>
    if c = '/' then []::segments rest
    else match segments rest with
      | [] => [[c]]
      | head::tail => (c::head)::tail

theorem segmentsSplit (text : List Char) : segments text = text.splitOn '/' := by
  refine Splitting.splitOnUnique rfl (fun _ => if_pos rfl) ?_ text
  intro c rest head tail other split
  rw [segments,if_neg other,split]

def afterStatus : List (List Char) → Option (List Char)
  | [] => none
  | segment::rest =>
    if segment = "status".toList ∨ segment = "statuses".toList then rest.head? else afterStatus rest

def statusIdFromPermalink (permalink : List Char) : Option (List Char) := do
  let (scheme,rest) ← splitOnce "://".toList permalink
  if !eqIgnoreAsciiCase scheme "https".toList && !eqIgnoreAsciiCase scheme "http".toList then none
  let (host,path) ← splitOnce ['/'] rest
  if !statusHosts.any (fun allowed => eqIgnoreAsciiCase allowed host) then none
  let id ← afterStatus (segments (withoutQuery path))
  if 1 ≤ id.length ∧ id.length ≤ 19 ∧ id.all Char.isDigit then some id else none

example : statusIdFromPermalink "https://X.com/a/status/42?s=20".toList = some "42".toList := by decide

example : statusIdFromPermalink "https://example.com/a/status/42".toList = none := by decide

end RatatoskrX.Permalink
