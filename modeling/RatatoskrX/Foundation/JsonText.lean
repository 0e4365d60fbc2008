import Mathlib.Data.List.Basic
import Mathlib.Logic.Basic

/-! JSON texts as lists of characters. String literals are lists of pieces, so that a literal
keeps how each of its characters is written; values are derivations of the grammar; an
object lists its members in the order of the text. -/
namespace JsonText

abbrev Text := List Char

section Strings

/- What stands between the quotes: a character as it is, a short escape, a code unit. -/
inductive Piece where
  | plain (c : Char)
  | short (c : Char)
  | unicode (a b c d : Char)
  deriving DecidableEq, Repr

def Piece.text : Piece → Text
  | plain c => [c]
  | short c => ['\\',c]
  | unicode a b c d => ['\\','u',a,b,c,d]

def literal (pieces : List Piece) : Text := pieces.flatMap Piece.text

def quoted (pieces : List Piece) : Text := '"'::(literal pieces ++ ['"'])

@[simp] theorem literalNil : literal [] = [] := rfl

@[simp] theorem literalCons (p : Piece) (rest : List Piece) : literal (p::rest) = p.text ++ literal rest := rfl

def hexValue (c : Char) : Option Nat :=
  if c.isDigit then some (c.toNat - 48)
  else if 'a' ≤ c ∧ c ≤ 'f' then some (c.toNat - 87)
  else if 'A' ≤ c ∧ c ≤ 'F' then some (c.toNat - 55)
  else none

def unitOf (a b c d : Char) : Option Nat := do
  some (4096 * (← hexValue a) + 256 * (← hexValue b) + 16 * (← hexValue c) + (← hexValue d))

def shortChar (c : Char) : Option Char :=
  if c = '"' ∨ c = '\\' ∨ c = '/' then some c
  else if c = 'b' then some '\x08'
  else if c = 'f' then some '\x0c'
  else if c = 'n' then some '\n'
  else if c = 'r' then some '\r'
  else if c = 't' then some '\t'
  else none

def Piece.WellFormed : Piece → Prop
  | plain c => c ≠ '"' ∧ c ≠ '\\' ∧ 0x20 ≤ c.toNat
  | short c => (shortChar c).isSome
  | unicode a b c d => (unitOf a b c d).isSome

instance (p : Piece) : Decidable p.WellFormed := by
  cases p <;> (unfold Piece.WellFormed; infer_instance)

def IsHigh (n : Nat) : Prop := 0xd800 ≤ n ∧ n < 0xdc00
def IsLow (n : Nat) : Prop := 0xdc00 ≤ n ∧ n < 0xe000

instance (n) : Decidable (IsHigh n) := by unfold IsHigh; infer_instance
instance (n) : Decidable (IsLow n) := by unfold IsLow; infer_instance

def pairChar (high low : Nat) : Char := Char.ofNat (0x10000 + (high - 0xd800) * 1024 + (low - 0xdc00))

/- What the pieces stand for after a high surrogate, or after none; none is a surrogate that
stands alone. -/
def denote : Option Nat → List Piece → Option Text
  | none,[] => some []
  | none,.plain c::rest => (denote none rest).map (c::·)
  | none,.short c::rest => (shortChar c).bind (fun stood => (denote none rest).map (stood::·))
  | none,.unicode a b c d::rest => (unitOf a b c d).bind (fun n =>
    if IsHigh n then denote (some n) rest
    else if IsLow n then none
    else (denote none rest).map (Char.ofNat n::·))
  | some high,.unicode a b c d::rest => (unitOf a b c d).bind (fun n =>
    if IsLow n then (denote none rest).map (pairChar high n::·) else none)
  | some _,_ => none

/- The UTF-16 code units of a character. -/
def charUnits (c : Char) : List Nat :=
  if c.toNat < 0x10000 then [c.toNat]
  else [0xd800 + (c.toNat - 0x10000) / 1024,0xdc00 + (c.toNat - 0x10000) % 1024]

/- The code units that a literal stands for, paired or not. -/
def units (pieces : List Piece) : List Nat :=
  pieces.flatMap (fun p => match p with
    | .plain c => charUnits c
    | .short c => ((shortChar c).map charUnits).getD []
    | .unicode a b c d => (unitOf a b c d).toList)

end Strings

section Grammar

def IsBlank (c : Char) : Prop := c = ' ' ∨ c = '\t' ∨ c = '\n' ∨ c = '\r'

instance (c) : Decidable (IsBlank c) := by unfold IsBlank; infer_instance

def Blank (t : Text) : Prop := ∀ c ∈ t, IsBlank c

-- By the characters of the text; an instance at Char would go through all there are.
instance (t) : Decidable (Blank t) := List.decidableBAll IsBlank t

def IsString (t : Text) : Prop := ∃ pieces : List Piece, (∀ p ∈ pieces, p.WellFormed) ∧ t = quoted pieces

def Digits (t : Text) : Prop := t ≠ [] ∧ ∀ c ∈ t, c.isDigit = true

def IsInteger (t : Text) : Prop := Digits t ∧ (t.head? = some '0' → t = ['0'])

instance (t) : Decidable (Digits t) := @instDecidableAnd _ _ _ (List.decidableBAll (fun c => c.isDigit = true) t)
instance (t) : Decidable (IsInteger t) := by unfold IsInteger; infer_instance

inductive IsFraction : Text → Prop where
  | absent : IsFraction []
  | stated {digits} (some_ : Digits digits) : IsFraction ('.'::digits)

inductive IsExponent : Text → Prop where
  | absent : IsExponent []
  | stated {e sign digits} (letter : e = 'e' ∨ e = 'E') (signed : sign = [] ∨ sign = ['+'] ∨ sign = ['-'])
      (some_ : Digits digits) : IsExponent (e::(sign ++ digits))

inductive IsNumber : Text → Prop where
  | mk {sign integer fraction exponent} (signed : sign = [] ∨ sign = ['-']) (whole : IsInteger integer)
      (part : IsFraction fraction) (scaled : IsExponent exponent) :
      IsNumber (sign ++ integer ++ fraction ++ exponent)

def IsWord (t : Text) : Prop := t = ['n','u','l','l'] ∨ t = ['t','r','u','e'] ∨ t = ['f','a','l','s','e']

inductive Form where | value | element | elements | member | members
  deriving DecidableEq, Repr

inductive Derives : Form → Text → Prop where
  | word {t} (word : IsWord t) : Derives .value t
  | number {t} (number : IsNumber t) : Derives .value t
  | string {t} (string : IsString t) : Derives .value t
  | emptyArray {w} (blank : Blank w) : Derives .value ('['::(w ++ [']']))
  | array {t} (elements : Derives .elements t) : Derives .value ('['::(t ++ [']']))
  | emptyObject {w} (blank : Blank w) : Derives .value ('{'::(w ++ ['}']))
  | object {t} (members : Derives .members t) : Derives .value ('{'::(t ++ ['}']))
  | element {w t w'} (before : Blank w) (value : Derives .value t) (after : Blank w') : Derives .element (w ++ t ++ w')
  | lastElement {t} (element : Derives .element t) : Derives .elements t
  | nextElement {t u} (element : Derives .element t) (others : Derives .elements u) : Derives .elements (t ++ ','::u)
  | member {w k w' t} (before : Blank w) (name : IsString k) (between : Blank w') (element : Derives .element t) :
      Derives .member (w ++ k ++ w' ++ ':'::t)
  | lastMember {t} (member : Derives .member t) : Derives .members t
  | nextMember {t u} (member : Derives .member t) (others : Derives .members u) : Derives .members (t ++ ','::u)

structure Member where
  before : Text
  name : List Piece
  between : Text
  gap : Text
  value : Text
  after : Text

structure Member.WellFormed (m : Member) : Prop where
  before : Blank m.before
  name : ∀ p ∈ m.name, p.WellFormed
  between : Blank m.between
  gap : Blank m.gap
  value : Derives .value m.value
  after : Blank m.after

def Member.text (m : Member) : Text :=
  m.before ++ quoted m.name ++ m.between ++ ':'::(m.gap ++ m.value ++ m.after)

def joined : List Member → Text
  | [] => []
  | [m] => m.text
  | m::n::rest => m.text ++ ','::joined (n::rest)

inductive IsObject : List Member → Text → Prop where
  | empty {w blank w'} (before : Blank w) (inner : Blank blank) (after : Blank w') :
      IsObject [] (w ++ '{'::(blank ++ '}'::w'))
  | members {w m rest w'} (before : Blank w) (each : ∀ n ∈ m::rest, n.WellFormed) (after : Blank w') :
      IsObject (m::rest) (w ++ '{'::(joined (m::rest) ++ '}'::w'))

/- No two members have one name. -/
def DistinctNames (members : List Member) : Prop := (members.map (fun m => units m.name)).Nodup

end Grammar

section Reading

def Piece.Separable : Piece → Prop
  | plain c => c ≠ '"' ∧ c ≠ '\\'
  | short c => c ≠ 'u'
  | unicode .. => True

theorem Piece.WellFormed.separable {p : Piece} (formed : p.WellFormed) : p.Separable := by
  cases p with
  | plain c => exact ⟨formed.1,formed.2.1⟩
  | short c =>
    intro unit
    subst unit
    simp [WellFormed,shortChar] at formed
  | unicode a b c d => trivial

theorem literalApart {p q : List Piece} {rest rest' : Text} (left : ∀ x ∈ p, x.Separable) (right : ∀ x ∈ q, x.Separable)
    (same : literal p ++ '"'::rest = literal q ++ '"'::rest') : p = q ∧ rest = rest' := by
  induction p generalizing q with
  | nil =>
    cases q with
    | nil => exact ⟨rfl,by simpa using same⟩
    | cons y q =>
      rw [List.forall_mem_cons] at right
      cases y with
      | plain c => exact absurd (List.cons.inj same).1.symm right.1.1
      | short c | unicode a b c d => exact absurd (List.cons.inj same).1 (by decide)
  | cons x p ih =>
    rw [List.forall_mem_cons] at left
    cases q with
    | nil =>
      cases x with
      | plain c => exact absurd (List.cons.inj same).1 left.1.1
      | short c | unicode a b c d => exact absurd (List.cons.inj same).1 (by decide)
    | cons y q =>
      rw [List.forall_mem_cons] at right
      cases x <;> cases y <;>
        simp only [literalCons,Piece.text,List.cons_append,List.nil_append,List.cons.injEq] at same
      case plain.plain =>
        obtain ⟨rfl,tail⟩ := same
        obtain ⟨rfl,ended⟩ := ih left.2 right.2 tail
        exact ⟨rfl,ended⟩
      case plain.short => exact absurd same.1 left.1.2
      case plain.unicode => exact absurd same.1 left.1.2
      case short.plain => exact absurd same.1.symm right.1.2
      case short.short =>
        obtain ⟨-,rfl,tail⟩ := same
        obtain ⟨rfl,ended⟩ := ih left.2 right.2 tail
        exact ⟨rfl,ended⟩
      case short.unicode => exact absurd same.2.1 left.1
      case unicode.plain => exact absurd same.1.symm right.1.2
      case unicode.short => exact absurd same.2.1.symm right.1
      case unicode.unicode =>
        obtain ⟨-,-,rfl,rfl,rfl,rfl,tail⟩ := same
        obtain ⟨rfl,ended⟩ := ih left.2 right.2 tail
        exact ⟨rfl,ended⟩

theorem quoteEscaped {pieces : List Piece} {before after : Text} (formed : ∀ p ∈ pieces, p.WellFormed)
    (same : literal pieces = before ++ '"'::after) : '\\' ∈ before := by
  induction pieces generalizing before with
  | nil => simp at same
  | cons p rest ih =>
    rw [List.forall_mem_cons] at formed
    cases before with
    | nil =>
      cases p with
      | plain c => exact absurd (List.cons.inj same).1 formed.1.1
      | short c | unicode a b c d => exact absurd (List.cons.inj same).1 (by decide)
    | cons c before =>
      cases p with
      | plain d => exact List.mem_cons_of_mem _ (ih formed.2 (List.cons.inj same).2)
      | short d | unicode a b d e =>
        rw [← (List.cons.inj same).1]
        exact List.mem_cons_self

theorem literalPlain (t : Text) : literal (t.map Piece.plain) = t := by
  induction t with
  | nil => rfl
  | cons c rest ih => simp [Piece.text,ih]

end Reading
end JsonText
