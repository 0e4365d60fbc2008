import Mathlib.Algebra.Group.Nat.Defs
import Mathlib.Data.Char
import Mathlib.Data.Int.Order.Basic
import RatatoskrX.Foundation.Splitting

/-! The spelling of instants in the shared contract. The fields of a second are printed by the
time library, which also reads them back; the fraction behind them is trimmed here. -/
namespace RatatoskrX.WireTimestamps

def isLeap (year : Int) : Bool := year % 4 = 0 && (year % 100 ≠ 0 || year % 400 = 0)

def daysIn (year : Int) (month : Nat) : Nat :=
  if month = 2 then if isLeap year then 29 else 28 else if month ∈ [4,6,9,11] then 30 else 31

/- A second of the calendar. Every minute may end in a leap second. -/
def Valid (year : Int) (month day hour minute second : Nat) : Prop :=
  1 ≤ month ∧ month ≤ 12 ∧ 1 ≤ day ∧ day ≤ daysIn year month ∧ hour < 24 ∧ minute < 60 ∧ second ≤ 60

instance (year month day hour minute second) : Decidable (Valid year month day hour minute second) :=
  inferInstanceAs (Decidable (_ ∧ _))

@[ext]
structure Second where
  year : Int
  month : Nat
  day : Nat
  hour : Nat
  minute : Nat
  second : Nat
  valid : Valid year month day hour minute second
  deriving DecidableEq, Repr

@[ext]
structure Instant where
  second : Second
  nanos : Nat
  small : nanos < 1000000000
  deriving DecidableEq, Repr

def padded (width n : Nat) : List Char := List.replicate (width - (Nat.toDigits 10 n).length) '0' ++ Nat.toDigits 10 n

/- The years that RFC 3339 has. -/
def FourDigits (year : Int) : Prop := 0 ≤ year ∧ year ≤ 9999

instance (year) : Decidable (FourDigits year) := inferInstanceAs (Decidable (_ ∧ _))

def yearText (year : Int) : List Char :=
  if FourDigits year then padded 4 year.natAbs else (if year < 0 then '-' else '+')::padded 4 year.natAbs

def secondText (s : Second) : List Char :=
  yearText s.year ++ '-'::(padded 2 s.month ++ '-'::(padded 2 s.day ++ 'T'::(padded 2 s.hour ++ ':'::(padded 2 s.minute ++
    ':'::padded 2 s.second))))

def nanoDigits (nanos : Nat) : List Char := padded 9 nanos

def fractionNanos (digits : List Char) : Nat := Nat.ofDigitChars 10 digits 0 * 10 ^ (9 - digits.length)

/- A fraction as RFC 3339 may write it. -/
inductive Fraction : List Char → Nat → Prop where
  | none : Fraction [] 0
  | some {digits} (some_ : digits ≠ []) (short : digits.length ≤ 9) (each : ∀ c ∈ digits, c.isDigit = true) :
      Fraction ('.'::digits) (fractionNanos digits)

/- What the service relies on of the time library: its Nanos format, and its reading of RFC 3339
texts, whose year has four digits. -/
structure Rfc3339 (toRfc3339Nanos : Instant → List Char) (parse : List Char → Option Instant) : Prop where
  nine : ∀ t, toRfc3339Nanos t = secondText t.second ++ '.'::(nanoDigits t.nanos ++ ['Z'])
  reads : ∀ t fraction, FourDigits t.second.year → Fraction fraction t.nanos →
    parse (secondText t.second ++ (fraction ++ ['Z'])) = some t

/- str::strip_suffix at a character, or the text itself. -/
def withoutSuffix (c : Char) (text : List Char) : List Char := if text.getLast? = some c then text.dropLast else text

def wireTimestamp (toRfc3339Nanos : Instant → List Char) (value : Instant) : List Char :=
  let body := withoutSuffix 'Z' (toRfc3339Nanos value)
  ((body.rdropWhile (fun c => c = '0')).rdropWhile (fun c => c = '.')) ++ ['Z']

section Digits
variable {width n nanos : Nat}

theorem paddedValue (width n : Nat) : Nat.ofDigitChars 10 (padded width n) 0 = n := by
  rw [padded,Nat.ofDigitChars_append,Nat.ofDigitChars_replicate_zero,Nat.mul_zero,Nat.ofDigitChars_ten_toDigits]

theorem paddedLength (wide : 0 < width) (small : n < 10 ^ width) : (padded width n).length = width := by
  have short : (Nat.toDigits 10 n).length ≤ width := (Nat.length_toDigits_le_iff (by decide) wide).mpr small
  rw [padded,List.length_append,List.length_replicate]
  omega

theorem paddedDigit {c : Char} (member : c ∈ padded width n) : c.isDigit = true := by
  obtain zero | digit := List.mem_append.mp member
  · rw [List.eq_of_mem_replicate zero]
    decide
  · exact Nat.isDigit_of_mem_toDigits (by decide) (by decide) digit

theorem paddedSome : padded width n ≠ [] := by
  unfold padded
  simp [Nat.toDigits_ne_nil]

theorem nanoLength (small : nanos < 1000000000) : (nanoDigits nanos).length = 9 := paddedLength (by decide) small

def trimmed (nanos : Nat) : List Char := (nanoDigits nanos).rdropWhile (fun c => c = '0')

theorem trimmedLength (small : nanos < 1000000000) : (trimmed nanos).length ≤ 9 := by
  obtain ⟨zeros,parts⟩ := Splitting.trimmedRun '0' (nanoDigits nanos)
  have lengths := nanoLength small
  rw [parts,List.length_append] at lengths
  unfold trimmed
  omega

theorem trimmedDigit {c : Char} (member : c ∈ trimmed nanos) : c.isDigit = true :=
  paddedDigit ((List.rdropWhile_prefix _ _).subset member)

theorem trimmedValue (small : nanos < 1000000000) : fractionNanos (trimmed nanos) = nanos := by
  obtain ⟨zeros,parts⟩ := Splitting.trimmedRun '0' (nanoDigits nanos)
  rw [← trimmed] at parts
  have lengths := nanoLength small
  rw [parts,List.length_append,List.length_replicate] at lengths
  have left : 9 - (trimmed nanos).length = zeros := by omega
  have value : Nat.ofDigitChars 10 (nanoDigits nanos) 0 = nanos := paddedValue 9 nanos
  rw [parts,Nat.ofDigitChars_append,Nat.ofDigitChars_replicate_zero] at value
  rw [fractionNanos,left,Nat.mul_comm,value]

theorem trimmedLast : (trimmed nanos).getLast? ≠ some '0' := by
  intro last
  have kept := Splitting.trimLast '0' last
  simp at kept

theorem trimmedEmpty (small : nanos < 1000000000) : trimmed nanos = [] ↔ nanos = 0 := by
  constructor
  · intro empty
    rw [← trimmedValue small,empty]
    rfl
  · rintro rfl
    decide

end Digits

def fractionText (nanos : Nat) : List Char := if trimmed nanos = [] then [] else '.'::trimmed nanos

/- A fraction in the canonical spelling: none, or digits that end in no zero. -/
def CanonicalFraction (fraction : List Char) : Prop := fraction = [] ∨
  ∃ digits, fraction = '.'::digits ∧ digits ≠ [] ∧ (∀ c ∈ digits, c.isDigit = true) ∧ digits.getLast? ≠ some '0'

theorem fractionCanonical (nanos : Nat) : CanonicalFraction (fractionText nanos) := by
  unfold fractionText
  split
  · exact .inl rfl
  · rename_i some_
    exact .inr ⟨trimmed nanos,rfl,some_,fun _ => trimmedDigit,trimmedLast⟩

theorem fractionAbsent {nanos : Nat} (small : nanos < 1000000000) : fractionText nanos = [] ↔ nanos = 0 := by
  rw [← trimmedEmpty small]
  unfold fractionText
  split <;> simp_all

section Reading
variable {width n : Nat} {rest : List Char}

def field (width : Nat) (text : List Char) : Option (Nat × List Char) :=
  if (text.take width).length = width ∧ (text.take width).all Char.isDigit then
    some (Nat.ofDigitChars 10 (text.take width) 0,text.drop width)
  else none

def behind (c : Char) : List Char → Option (List Char)
  | d::rest => if d = c then some rest else none
  | [] => none

def readYear (text : List Char) : Option (Int × List Char) :=
  if text.head? = some '+' then
    some (Nat.ofDigitChars 10 (text.tail.takeWhile Char.isDigit) 0,text.tail.dropWhile Char.isDigit)
  else if text.head? = some '-' then
    some (-Nat.ofDigitChars 10 (text.tail.takeWhile Char.isDigit) 0,text.tail.dropWhile Char.isDigit)
  else (field 4 text).map (fun read => (read.1,read.2))

def readSecond (text : List Char) : Option (Second × List Char) := do
  let (year,text) ← readYear text
  let (month,text) ← field 2 (← behind '-' text)
  let (day,text) ← field 2 (← behind '-' text)
  let (hour,text) ← field 2 (← behind 'T' text)
  let (minute,text) ← field 2 (← behind ':' text)
  let (second,text) ← field 2 (← behind ':' text)
  if valid : Valid year month day hour minute second then some (⟨year,month,day,hour,minute,second,valid⟩,text) else none

def readFraction (text : List Char) : Option Nat :=
  if text = ['Z'] then some 0
  else do
    let rest ← behind '.' text
    if rest.getLast? = some 'Z' ∧ rest.dropLast ≠ [] ∧ rest.dropLast.length ≤ 9 ∧ rest.dropLast.all Char.isDigit then
      some (fractionNanos rest.dropLast)
    else none

def readInstant (text : List Char) : Option Instant := do
  let (second,text) ← readSecond text
  let nanos ← readFraction text
  if small : nanos < 1000000000 then some ⟨second,nanos,small⟩ else none

theorem fieldPadded (wide : 0 < width) (small : n < 10 ^ width) : field width (padded width n ++ rest) = some (n,rest) := by
  have digits := paddedLength wide small
  have front : (padded width n ++ rest).take width = padded width n := List.take_left' digits
  have back : (padded width n ++ rest).drop width = rest := List.drop_left' digits
  rw [field,front,back,if_pos ⟨digits,List.all_eq_true.mpr (fun _ => paddedDigit)⟩,paddedValue]

theorem fieldTwo (small : n < 100) : field 2 (padded 2 n ++ rest) = some (n,rest) := fieldPadded (by decide) small

theorem signedRead (rest) : (padded 4 n ++ '-'::rest).takeWhile Char.isDigit = padded 4 n ∧
    (padded 4 n ++ '-'::rest).dropWhile Char.isDigit = '-'::rest := by
  constructor
  · rw [List.takeWhile_append_of_pos (fun _ => paddedDigit)]
    simp
  · rw [List.dropWhile_append_of_pos (fun _ => paddedDigit)]
    simp

theorem paddedHead {c : Char} (first : (padded width n ++ rest).head? = some c) : c.isDigit = true := by
  rw [List.head?_append_of_ne_nil _ paddedSome] at first
  exact paddedDigit (List.mem_of_head? first)

theorem yearRead (year : Int) (rest) : readYear (yearText year ++ '-'::rest) = some (year,'-'::rest) := by
  unfold yearText readYear
  split
  · rename_i four
    have plus : (padded 4 year.natAbs ++ '-'::rest).head? ≠ some '+' := fun first => absurd (paddedHead first) (by decide)
    have minus : (padded 4 year.natAbs ++ '-'::rest).head? ≠ some '-' := fun first => absurd (paddedHead first) (by decide)
    have small : year.natAbs < 10 ^ 4 := by
      unfold FourDigits at four
      omega
    rw [if_neg plus,if_neg minus,fieldPadded (by decide) small,Option.map_some,Int.natAbs_of_nonneg four.1]
  · obtain ⟨front,back⟩ := @signedRead year.natAbs rest
    by_cases negative : year < 0
    · rw [if_pos negative,List.cons_append,List.head?_cons,if_neg (by simp),if_pos rfl,List.tail_cons,front,back,paddedValue]
      simp only [Option.some.injEq,Prod.mk.injEq,and_true]
      omega
    · rw [if_neg negative,List.cons_append,List.head?_cons,if_pos rfl,List.tail_cons,front,back,paddedValue]
      simp only [Option.some.injEq,Prod.mk.injEq,and_true]
      omega

theorem secondRead (s : Second) (rest) : readSecond (secondText s ++ rest) = some (s,rest) := by
  obtain ⟨year,month,day,hour,minute,second,valid⟩ := s
  obtain ⟨_,twelve,_,inMonth,hours,minutes,seconds⟩ := id valid
  have days : day < 100 := by
    unfold daysIn at inMonth
    split at inMonth
    · split at inMonth <;> omega
    · split at inMonth <;> omega
  simp only [readSecond,secondText,List.append_assoc,List.cons_append,yearRead,behind,if_true,bind,Option.bind_some,
    fieldTwo (show month < 100 by omega),fieldTwo days,fieldTwo (show hour < 100 by omega),
    fieldTwo (show minute < 100 by omega),fieldTwo (show second < 100 by omega),dif_pos valid]

theorem fractionRead {fraction : List Char} {nanos} (written : Fraction fraction nanos) :
    readFraction (fraction ++ ['Z']) = some nanos := by
  cases written with
  | none => rfl
  | @some digits some_ short each =>
    have other : '.'::digits ++ ['Z'] ≠ ['Z'] := by simp
    have all : digits.all Char.isDigit := List.all_eq_true.mpr each
    rw [readFraction,if_neg other]
    simp only [List.cons_append,behind,if_true,bind,Option.bind_some]
    rw [List.getLast?_concat,List.dropLast_concat,if_pos ⟨rfl,some_,short,all⟩]

theorem instantRead (t : Instant) {fraction : List Char} (written : Fraction fraction t.nanos) :
    readInstant (secondText t.second ++ (fraction ++ ['Z'])) = some t := by
  simp only [readInstant,secondRead,fractionRead written,bind,Option.bind_some,dif_pos t.small]

end Reading

section Wire
variable {toRfc3339Nanos : Instant → List Char} {parse : List Char → Option Instant}

theorem fractionWritten {nanos : Nat} (small : nanos < 1000000000) : Fraction (fractionText nanos) nanos := by
  unfold fractionText
  split
  · rename_i empty
    rw [(trimmedEmpty small).mp empty]
    exact .none
  · rename_i some_
    have written := Fraction.some some_ (trimmedLength small) (fun _ => trimmedDigit)
    rwa [trimmedValue small] at written

theorem secondDigit (s : Second) : ∃ c ∈ (secondText s).getLast?, c.isDigit = true := by
  refine ⟨(padded 2 s.second).getLast paddedSome,?_,paddedDigit (List.getLast_mem paddedSome)⟩
  unfold secondText
  repeat rw [List.getLast?_append_of_ne_nil _ (List.cons_ne_nil _ _),List.getLast?_cons_of_ne_nil (by simp [paddedSome])]
  exact List.getLast?_eq_some_getLast paddedSome

theorem digitDot {text : List Char} (ends : ∃ c ∈ text.getLast?, c.isDigit = true) : text.rdropWhile (fun c => c = '.') = text := by
  obtain ⟨c,last,digit⟩ := ends
  refine Splitting.trimNothing ?_
  intro d last'
  cases Option.mem_unique last last'
  have other : c ≠ '.' := by
    rintro rfl
    simp at digit
  simpa using other

theorem wireForm (time : Rfc3339 toRfc3339Nanos parse) (t : Instant) :
    wireTimestamp toRfc3339Nanos t = secondText t.second ++ (fractionText t.nanos ++ ['Z']) := by
  obtain ⟨zeros,parts⟩ := Splitting.trimmedRun '0' (nanoDigits t.nanos)
  rw [← trimmed] at parts
  have body : withoutSuffix 'Z' (toRfc3339Nanos t) = (secondText t.second ++ '.'::trimmed t.nanos) ++ List.replicate zeros '0' := by
    have whole : toRfc3339Nanos t = (secondText t.second ++ '.'::trimmed t.nanos ++ List.replicate zeros '0') ++ ['Z'] := by
      rw [time.nine,parts]
      simp
    rw [whole,withoutSuffix,if_pos List.getLast?_concat,List.dropLast_concat]
  have zerosOff : (secondText t.second ++ '.'::trimmed t.nanos ++ List.replicate zeros '0').rdropWhile (fun c => c = '0') =
      secondText t.second ++ '.'::trimmed t.nanos := by
    rw [Splitting.trimRun (by simp)]
    refine Splitting.trimNothing ?_
    intro c final
    have other : c ≠ '0' := by
      rintro rfl
      by_cases empty : trimmed t.nanos = []
      · simp [empty] at final
      · rw [List.getLast?_append_of_ne_nil _ (List.cons_ne_nil _ _),List.getLast?_cons_of_ne_nil empty] at final
        exact trimmedLast final
    simpa using other
  simp only [wireTimestamp,body,zerosOff]
  unfold fractionText
  split
  · rename_i empty
    rw [empty,Splitting.trimRun (by simp),digitDot (secondDigit t.second),List.nil_append]
  · rename_i some_
    have last : ∃ c ∈ (secondText t.second ++ '.'::trimmed t.nanos).getLast?, c.isDigit = true := by
      refine ⟨(trimmed t.nanos).getLast some_,?_,trimmedDigit (List.getLast_mem some_)⟩
      rw [List.getLast?_append_of_ne_nil _ (List.cons_ne_nil _ _),List.getLast?_cons_of_ne_nil some_]
      exact List.getLast?_eq_some_getLast some_
    rw [digitDot last,List.append_assoc]

def YearFirst (text : List Char) : Prop :=
  ∃ year rest, text = year ++ '-'::rest ∧ year.length = 4 ∧ ∀ c ∈ year, c.isDigit = true

theorem yearFirst (s : Second) (rest) : YearFirst (secondText s ++ rest) ↔ FourDigits s.year := by
  unfold secondText
  rw [List.append_assoc,List.cons_append]
  constructor
  · rintro ⟨year,after,same,four,digits⟩
    by_contra outside
    -- any other year begins with its sign
    cases year with
    | nil => simp at four
    | cons c year =>
      rw [yearText,if_neg outside,List.cons_append,List.cons_append] at same
      have sign := digits c List.mem_cons_self
      rw [← (List.cons.inj same).1] at sign
      split at sign <;> simp at sign
  · intro four
    refine ⟨padded 4 s.year.natAbs,_,by rw [yearText,if_pos four],paddedLength (by decide) ?_,fun _ => paddedDigit⟩
    unfold FourDigits at four
    omega

end Wire

/-- The wire spelling keeps the whole text of the second, has the canonical fraction, none exactly
where there are no nanoseconds, and spells no two instants alike. For the years of RFC 3339 it
has their four digits and reads back as the instant it was made of; no other year has them. -/
theorem wireCanonical {toRfc3339Nanos : Instant → List Char} {parse : List Char → Option Instant}
    (time : Rfc3339 toRfc3339Nanos parse) :
    (∀ t, ∃ fraction, wireTimestamp toRfc3339Nanos t = secondText t.second ++ (fraction ++ ['Z']) ∧
      CanonicalFraction fraction ∧ (fraction = [] ↔ t.nanos = 0)) ∧
      Function.Injective (wireTimestamp toRfc3339Nanos) ∧
      (∀ t, FourDigits t.second.year → parse (wireTimestamp toRfc3339Nanos t) = some t) ∧
      ∀ t, YearFirst (wireTimestamp toRfc3339Nanos t) ↔ FourDigits t.second.year := by
  refine ⟨?_,?_,?_,?_⟩
  · intro t
    exact ⟨fractionText t.nanos,wireForm time t,fractionCanonical t.nanos,fractionAbsent t.small⟩
  · intro t t' same
    rw [wireForm time,wireForm time] at same
    have read := instantRead t (fractionWritten t.small)
    rw [same,instantRead t' (fractionWritten t'.small)] at read
    exact (Option.some.inj read).symm
  · intro t four
    rw [wireForm time]
    exact time.reads t _ four (fractionWritten t.small)
  · intro t
    rw [wireForm time]
    exact yearFirst t.second _

def sampleNanos (t : Instant) : List Char := secondText t.second ++ '.'::(nanoDigits t.nanos ++ ['Z'])

/- A reader of RFC 3339 texts takes no sign. -/
def sampleParse (text : List Char) : Option Instant := if text.head?.any Char.isDigit then readInstant text else none

theorem sampleTime : Rfc3339 sampleNanos sampleParse where
  nine _ := rfl
  reads t fraction four written := by
    have first : (secondText t.second ++ (fraction ++ ['Z'])).head?.any Char.isDigit = true := by
      obtain ⟨year,rest,same,length,digits⟩ := (yearFirst t.second (fraction ++ ['Z'])).mpr four
      rw [same]
      cases year with
      | nil => simp at length
      | cons c year => simpa using digits c List.mem_cons_self
    rw [sampleParse,if_pos first]
    exact instantRead t written

def sampleInstant : Instant := ⟨⟨2026,7,23,9,0,10,by decide⟩,50000000,by decide⟩

theorem wireCanonicalSampled : wireTimestamp sampleNanos sampleInstant = "2026-07-23T09:00:10.05Z".toList ∧
    sampleParse (wireTimestamp sampleNanos sampleInstant) = some sampleInstant :=
  ⟨by decide +kernel,(wireCanonical sampleTime).2.2.1 _ (by decide)⟩

/- The instant of 9999-12-31T23:59:59-01:00. -/
def lateInstant : Instant := ⟨⟨10000,1,1,0,59,59,by decide⟩,0,by decide⟩

theorem lateUnread : ¬∀ toRfc3339Nanos parse, Rfc3339 toRfc3339Nanos parse →
    ∀ t, YearFirst (wireTimestamp toRfc3339Nanos t) ∧ parse (wireTimestamp toRfc3339Nanos t) = some t := by
  intro claim
  have read := (claim sampleNanos sampleParse sampleTime lateInstant).2
  have spelled : wireTimestamp sampleNanos lateInstant = "+10000-01-01T00:59:59Z".toList := by decide +kernel
  rw [spelled] at read
  cases read

end RatatoskrX.WireTimestamps
