import Mathlib.Data.List.DropRight
import RatatoskrX.Foundation.JsonText
import RatatoskrX.Connection

/-! The reader of token responses: a body is split into its top-level members by a scan that
follows strings and nesting, each member is cut in two, and a member's raw value is decoded as
a string or a number. -/
namespace RatatoskrX.TokenMembers
open JsonText Connection

def malformed {α : Type} : Except ProviderFailure α := .error .malformedProviderResponse

section Splitting

def trim (t : Text) : Text := (t.dropWhile isWhitespace).rdropWhile isWhitespace

def stripPrefix (c : Char) : Text → Option Text
  | [] => none
  | d::rest => if d = c then some rest else none

def stripSuffix (c : Char) (t : Text) : Option Text := if t.getLast? = some c then some t.dropLast else none

/- The scan so far: the members that have ended, the characters since the last comma between
members, and where the next character stands. -/
structure Scan where
  members : List Text
  current : Text
  depth : Nat
  inString : Bool
  escaped : Bool

def Scan.start : Scan := ⟨[],[],0,false,false⟩

def Scan.push (s : Scan) (c : Char) : Scan := {s with current := s.current ++ [c]}

def Scan.step (s : Scan) (c : Char) : Scan :=
  if s.inString then
    if s.escaped then {s.push c with escaped := false}
    else if c = '\\' then {s.push c with escaped := true}
    else if c = '"' then {s.push c with inString := false}
    else s.push c
  else if c = '"' then {s.push c with inString := true}
  else if c = '{' ∨ c = '[' then {s.push c with depth := s.depth + 1}
  else if c = '}' ∨ c = ']' then {s.push c with depth := s.depth - 1}
  else if c = ',' ∧ s.depth = 0 then {s with members := s.members ++ [s.current], current := []}
  else s.push c

def scan (inner : Text) : Scan := inner.foldl Scan.step Scan.start

def readMember (member : Text) : Except ProviderFailure (Option (Text × Text)) :=
  let trimmed := trim member
  if trimmed = [] then .ok none
  else if ':' ∉ trimmed then malformed
  else
    let key := trim (trimmed.takeWhile (· ≠ ':'))
    let value := (trimmed.dropWhile (· ≠ ':')).drop 1
    match (stripPrefix '"' key).bind (stripSuffix '"') with
    | none => malformed
    | some key => .ok (some (key,trim value))

def readMembers : List Text → Except ProviderFailure (List (Text × Text))
  | [] => .ok []
  | member::rest => do
    let pair ← readMember member
    let pairs ← readMembers rest
    return pair.toList ++ pairs

def splitTopLevelMembers (body : Text) : Except ProviderFailure (List (Text × Text)) :=
  match (stripPrefix '{' (trim body)).bind (stripSuffix '}') with
  | none => malformed
  | some inner =>
    let s := scan inner
    if s.inString then malformed else readMembers (s.members ++ [s.current])

/- The raw value under a key, with which each extraction begins. -/
def rawMember (body : Text) (key : String) : Except ProviderFailure (Option Text) := do
  let pairs ← splitTopLevelMembers body
  return (pairs.find? (fun pair => pair.1 = key.toList)).map Prod.snd

end Splitting

section Decoding

/- A u16 in hexadecimal digits, as the standard library reads one: a leading plus is taken. -/
def fromStrRadix16 (text : Text) : Option Nat :=
  let digits := if text.head? = some '+' then text.tail else text
  if digits = [] then none
  else digits.foldlM (fun n c => (hexValue c).bind (fun digit =>
    if n * 16 + digit < 65536 then some (n * 16 + digit) else none)) 0

/- The characters after the opening quote: what is decoded so far, the high surrogate that waits. -/
def decodeString (decoded : Text) (pending : Option Nat) : Text → Option Text
  | [] => none
  | c::rest =>
    if c = '"' then if rest = [] then some decoded else none
    else if c = '\\' then
      match rest with
      | [] => none
      | escape::rest =>
        if escape = 'u' then
          match rest with
          | a::b::c::d::rest =>
            match fromStrRadix16 [a,b,c,d] with
            | none => none
            | some unit =>
              if IsHigh unit then decodeString decoded (some unit) rest
              else if IsLow unit then
                match pending with
                | none => none
                | some high => decodeString (decoded ++ [pairChar high unit]) none rest
              else decodeString (decoded ++ [Char.ofNat unit]) pending rest
          -- Fewer than four characters leave no closing quote.
          | _ => none
        else match shortChar escape with
        | none => none
        | some stood => decodeString (decoded ++ [stood]) pending rest
    else decodeString (decoded ++ [c]) pending rest

theorem decodedLength {decoded : Text} {pending : Option Nat} {t s : Text} (ok : decodeString decoded pending t = some s) :
    s.length ≤ decoded.length + t.length := by
  fun_induction decodeString decoded pending t with
  | case2 =>
    cases Option.some.inj ok
    simp
  | case6 _ _ _ _ _ _ _ _ _ _ _ ih | case8 _ _ _ _ _ _ _ _ _ _ _ _ ih | case9 _ _ _ _ _ _ _ _ _ _ _ _ ih
  | case12 _ _ _ _ _ _ _ _ ih | case13 _ _ _ _ _ _ ih =>
    have bound := ih ok
    simp only [List.length_append,List.length_cons,List.length_nil] at bound ⊢
    omega
  | _ => simp at ok

def extractStringMember (body : Text) (key : String) : Except ProviderFailure (Option String) := do
  match ← rawMember body key with
  | none => return none
  | some raw => match (stripPrefix '"' raw).bind (decodeString [] none) with
    | none => malformed
    | some decoded => return some (String.ofList decoded)

def decimal (digits : Text) : Nat := digits.foldl (fun n c => n * 10 + (c.toNat - 48)) 0

def extractNumberMember (body : Text) (key : String) : Except ProviderFailure (Option UInt64) := do
  match ← rawMember body key with
  | none => return none
  | some raw =>
    if raw.any (fun c => !c.isDigit) || raw = [] then malformed
    else if decimal raw < 2 ^ 64 then return some (UInt64.ofNat (decimal raw))
    else malformed

end Decoding

section Parsing

structure TokenFields where
  accessToken : String
  refreshToken : String
  expiresIn : UInt64
  scope : Option String
  deriving DecidableEq, Repr

def required {α : Type} : Option α → Except ProviderFailure α
  | some value => .ok value
  | none => malformed

def parseTokenResponse (body : Text) : Except ProviderFailure TokenFields := do
  let accessToken ← required (← extractStringMember body "access_token")
  let expiresIn ← required (← extractNumberMember body "expires_in")
  let refreshToken := (← extractStringMember body "refresh_token").getD ""
  return ⟨accessToken,refreshToken,expiresIn,← extractStringMember body "scope"⟩

end Parsing
end RatatoskrX.TokenMembers
