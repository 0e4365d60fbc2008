import Mathlib.Data.Char
import Mathlib.Data.List.Lex
import Mathlib.Data.List.Sort
import RatatoskrX.Permalink

/-! The external links that a source sends for extraction, over the characters of the
URLs. A test on the bytes of the source reads the same on characters: beyond ASCII it
admits every byte or none. -/
namespace RatatoskrX.ArticleUrls
open Permalink

def isAsciiWhitespace (c : Char) : Bool := c = ' ' || c = '\t' || c = '\n' || c = '\r' || c.val = 0x0c

def isAsciiControl (c : Char) : Bool := c.val < 0x20 || c.val = 0x7f

def lower (text : List Char) : List Char := text.map Char.toLower

/-- str::rsplit_once at a character. -/
def rsplitOnce (c : Char) (text : List Char) : Option (List Char × List Char) :=
  (splitOnce [c] text.reverse).map (fun (after,before) => (before.reverse,after.reverse))

def components (c : Char) : List Char → List (List Char)
  | [] => [[]]
  | x::rest =>
    if x = c then []::components c rest
    else match components c rest with
      | [] => [[x]]
      | head::tail => (x::head)::tail

theorem componentsSplit (c : Char) (text : List Char) : components c text = text.splitOn c := by
  refine Splitting.splitOnUnique rfl (fun _ => if_pos rfl) ?_ text
  intro x rest head tail other split
  rw [components,if_neg other,split]

/-- u16::from_str: an optional plus sign and decimal digits. -/
def parseU16 (text : List Char) : Option Nat :=
  let digits := match text with
    | '+'::rest => rest
    | _ => text
  if digits ≠ [] ∧ digits.all Char.isDigit then
    let value := digits.foldl (fun n c => 10 * n + (c.toNat - '0'.toNat)) 0
    if value < 65536 then some value else none
  else none

def unsigned : List Char → List Char
  | '+'::rest => rest
  | text => text

theorem unsignedCases (text : List Char) : text = '+'::unsigned text ∨ unsigned text = text := by
  unfold unsigned
  split
  · exact .inl rfl
  · exact .inr rfl

theorem parseU16Form (text : List Char) : parseU16 text =
    if unsigned text ≠ [] ∧ (unsigned text).all Char.isDigit then
      if Nat.ofDigitChars 10 (unsigned text) 0 < 65536 then some (Nat.ofDigitChars 10 (unsigned text) 0) else none
    else none := by
  simp only [Nat.ofDigitChars_eq_foldl]
  unfold parseU16 unsigned
  split <;> rfl

def isHostChar (c : Char) : Bool := c.isAlphanum || c = '.' || c = '-'

def splitHostAndPort (authority : List Char) : Option (List Char × Option Nat) := do
  let (host,port) ← match rsplitOnce ':' authority with
    | some (host,rawPort) => if rawPort ≠ [] then (parseU16 rawPort).map (fun port => (host,some port)) else none
    | none => some (authority,none)
  if host ≠ [] ∧ host.all isHostChar then some (lower host,port) else none

def xHosts : List (List Char) := ["x.com".toList,"twitter.com".toList,"t.co".toList]

def isXHost (host : List Char) : Bool :=
  xHosts.any (fun suffix => host == suffix || ('.'::suffix).isSuffixOf host)

def isTrackingKey (key : List Char) : Bool :=
  "utm_".toList.isPrefixOf (lower key) || lower key == "fbclid".toList || lower key == "gclid".toList

def componentKey (component : List Char) : List Char :=
  match splitOnce ['='] component with
  | some (key,_) => key
  | none => component

def canonicalQuery (query : Option (List Char)) : Option (List Char) := do
  let retained := ((components '&' (← query)).filter (fun component => component ≠ [])).filter
    (fun component => !isTrackingKey (componentKey component))
  let sorted := retained.insertionSort (fun a b => a ≤ b)
  if sorted = [] then none else some (List.intercalate ['&'] sorted)

def normalizeExternalUrl (raw : List Char) : Option (List Char) := do
  if raw = [] ∨ raw.any (fun c => isAsciiWhitespace c || isAsciiControl c) then none
  let (scheme,rest) ← splitOnce "://".toList raw
  let scheme := lower scheme
  if scheme ≠ "http".toList ∧ scheme ≠ "https".toList then none
  let authority := rest.takeWhile (fun c => c ≠ '/' && c ≠ '?' && c ≠ '#')
  if authority = [] ∨ '@' ∈ authority ∨ authority.head? = some '[' then none
  let (host,port) ← splitHostAndPort authority
  if isXHost host then none
  let withoutFragment := (rest.drop authority.length).takeWhile (fun c => c ≠ '#')
  let (path,query) := match splitOnce ['?'] withoutFragment with
    | some (path,query) => (path,some query)
    | none => (withoutFragment,none)
  let path := if path = [] then ['/'] else path
  let authority := match port with
    | some port =>
      if (scheme = "http".toList ∧ port = 80) ∨ (scheme = "https".toList ∧ port = 443) then host
      else host ++ ':'::(toString port).toList
    | none => host
  let suffix := match canonicalQuery query with
    | some query => '?'::query
    | none => []
  some (scheme ++ "://".toList ++ authority ++ path ++ suffix)

structure SelectedArticleUrl where
  originalUrl : String
  normalizedUrl : String
  deriving DecidableEq, Repr

def selectUrl (selected : List SelectedArticleUrl) (originalUrl : String) : List SelectedArticleUrl :=
  match normalizeExternalUrl originalUrl.toList with
  | none => selected
  | some normalized =>
    if selected.any (fun s => s.normalizedUrl = String.ofList normalized) then selected
    else selected ++ [⟨originalUrl,String.ofList normalized⟩]

def selectExternalExpandedUrls (urls : List String) : List SelectedArticleUrl := urls.foldl selectUrl []

example : normalizeExternalUrl "HTTPS://Example.com:443?utm_source=a&b=2&a=1#top".toList =
    some "https://example.com/?a=1&b=2".toList := by decide +kernel

example : normalizeExternalUrl "https://mobile.twitter.com/a".toList = none := by decide +kernel

end RatatoskrX.ArticleUrls
