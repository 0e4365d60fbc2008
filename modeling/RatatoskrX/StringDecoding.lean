import RatatoskrX.TokenMembers

/-! What the string decoder accepts. It reads every literal of the grammar that pairs its
surrogates, and some raw values that are no such literals: a code unit with a plus sign, a raw
control character, a high surrogate that waits for its low one across other characters or
for ever. -/
namespace RatatoskrX.StringDecoding
open JsonText Connection TokenMembers

def Denotes (raw : Text) (s : String) : Prop :=
  ∃ pieces : List Piece, (∀ p ∈ pieces, p.WellFormed) ∧ raw = quoted pieces ∧ denote none pieces = some s.toList

/- Every raw value that the extraction reads is decoded to what it stands for, or refused. -/
def DecodesSoundly (body : Text) (key : String) : Prop :=
  ∀ raw, rawMember body key = .ok (some raw) →
    (∃ s, extractStringMember body key = .ok (some s) ∧ Denotes raw s) ∨ ∃ error, extractStringMember body key = .error error

/- The code unit of four characters of which the first may be a plus sign. -/
def readUnit (a b c d : Char) : Option Nat := unitOf (if a = '+' then '0' else a) b c d

def Lenient : Piece → Prop
  | .plain c => c ≠ '"' ∧ c ≠ '\\'
  | .short c => (shortChar c).isSome
  | .unicode a b c d => (readUnit a b c d).isSome

/- Every low surrogate comes after a high one that has none yet. -/
def LowsAnswered : Bool → List Piece → Prop
  | _,[] => True
  | waiting,.unicode a b c d::rest =>
    ∀ n, readUnit a b c d = some n →
      if IsHigh n then LowsAnswered true rest
      else if IsLow n then waiting = true ∧ LowsAnswered false rest
      else LowsAnswered waiting rest
  | waiting,_::rest => LowsAnswered waiting rest

/- The raw value has no plus sign in a code unit, no raw control character and no surrogate
outside an adjacent pair, unless it is refused for something else. -/
def WrittenStrictly (raw : Text) : Prop :=
  ∀ pieces, raw = quoted pieces → (∀ p ∈ pieces, Lenient p) → LowsAnswered false pieces →
    (∀ p ∈ pieces, p.WellFormed) ∧ (denote none pieces).isSome

section Units

theorem hexValueLt {c n} (value : hexValue c = some n) : n < 16 := by
  unfold hexValue at value
  split at value
  · rename_i digit
    simp only [Char.isDigit,Bool.and_eq_true,decide_eq_true_eq] at digit
    have bound : c.toNat ≤ 57 := UInt32.le_iff_toNat_le.mp digit.2
    cases Option.some.inj value
    omega
  · split at value
    · rename_i letter
      have bound : c.toNat ≤ 102 := UInt32.le_iff_toNat_le.mp letter.2
      cases Option.some.inj value
      omega
    · split at value
      · rename_i letter
        have bound : c.toNat ≤ 70 := UInt32.le_iff_toNat_le.mp letter.2
        cases Option.some.inj value
        omega
      · simp at value

/- One digit more, where the number so far leaves it room. -/
def addDigit (n : Nat) (c : Char) : Option Nat :=
  (hexValue c).bind (fun digit => if n * 16 + digit < 65536 then some (n * 16 + digit) else none)

theorem addDigitFits {n : Nat} (small : n < 4096) (c : Char) : addDigit n c = (hexValue c).map (n * 16 + ·) := by
  unfold addDigit
  cases value : hexValue c with
  | none => rfl
  | some digit =>
    have := hexValueLt value
    simp only [Option.bind_some,Option.map_some]
    exact if_pos (by omega)

theorem foldDigits (n : Nat) (digits : Text) : digits.foldlM (fun n c => (hexValue c).bind (fun digit =>
    if n * 16 + digit < 65536 then some (n * 16 + digit) else none)) n = digits.foldlM addDigit n := rfl

theorem radixUnit (a b c d : Char) : fromStrRadix16 [a,b,c,d] = readUnit a b c d := by
  have four (a : Char) : [a,b,c,d].foldlM addDigit 0 = unitOf a b c d := by
    simp only [List.foldlM_cons,List.foldlM_nil,unitOf,bind,pure]
    rw [addDigitFits (by decide)]
    cases first : hexValue a with
    | none => rfl
    | some i =>
      have := hexValueLt first
      simp only [Option.map_some,Option.bind_some]
      rw [addDigitFits (by omega)]
      cases second : hexValue b with
      | none => rfl
      | some j =>
        have := hexValueLt second
        simp only [Option.map_some,Option.bind_some]
        rw [addDigitFits (by omega)]
        cases third : hexValue c with
        | none => rfl
        | some k =>
          have := hexValueLt third
          simp only [Option.map_some,Option.bind_some]
          unfold addDigit
          cases fourth : hexValue d with
          | none => rfl
          | some l =>
            have := hexValueLt fourth
            simp only [Option.bind_some]
            rw [if_pos (by omega)]
            simp only [Option.bind_some,Option.some.injEq]
            omega
  unfold fromStrRadix16 readUnit
  by_cases plus : a = '+'
  · simp only [plus,List.head?_cons,if_true,List.tail_cons,foldDigits,reduceCtorEq,if_false]
    exact four '0'
  · simp only [plus,List.head?_cons,Option.some.injEq,if_false,foldDigits,reduceCtorEq]
    exact four a

end Units

section Pieces

def decodePieces (decoded : Text) (pending : Option Nat) : List Piece → Option Text
  | [] => some decoded
  | .plain c::rest => decodePieces (decoded ++ [c]) pending rest
  | .short c::rest => (shortChar c).bind (fun stood => decodePieces (decoded ++ [stood]) pending rest)
  | .unicode a b c d::rest => (readUnit a b c d).bind (fun n =>
    if IsHigh n then decodePieces decoded (some n) rest
    else if IsLow n then pending.bind (fun high => decodePieces (decoded ++ [pairChar high n]) none rest)
    else decodePieces (decoded ++ [Char.ofNat n]) pending rest)

theorem decodePlain {decoded : Text} {pending : Option Nat} {c : Char} {rest : Text} (plain : c ≠ '"' ∧ c ≠ '\\') :
    decodeString decoded pending (c::rest) = decodeString (decoded ++ [c]) pending rest := by
  rw [decodeString.eq_def]
  simp only [if_neg plain.1,if_neg plain.2]

theorem decodeShort {decoded : Text} {pending : Option Nat} {c stood : Char} {rest : Text} (stands : shortChar c = some stood) :
    decodeString decoded pending ('\\'::c::rest) = decodeString (decoded ++ [stood]) pending rest := by
  have known : c ≠ 'u' := by
    rintro rfl
    simp [shortChar] at stands
  rw [decodeString.eq_def]
  simp only [if_neg (show '\\' ≠ '"' by decide),if_true,if_neg known,stands]

theorem decodeUnit {decoded : Text} {pending : Option Nat} {a b c d : Char} {n : Nat} {rest : Text}
    (unit : readUnit a b c d = some n) : decodeString decoded pending ('\\' :: 'u'::a::b::c::d::rest) =
      if IsHigh n then decodeString decoded (some n) rest
      else if IsLow n then pending.bind (fun high => decodeString (decoded ++ [pairChar high n]) none rest)
      else decodeString (decoded ++ [Char.ofNat n]) pending rest := by
  rw [decodeString.eq_def]
  simp only [if_neg (show '\\' ≠ '"' by decide),if_true,radixUnit,unit]
  cases pending <;> rfl

theorem decodeLiteral {decoded : Text} {pending : Option Nat} {pieces : List Piece}
    (lenient : ∀ p ∈ pieces, Lenient p) :
    decodeString decoded pending (literal pieces ++ ['"']) = decodePieces decoded pending pieces := by
  induction pieces generalizing decoded pending with
  | nil => rfl
  | cons p rest ih =>
    rw [List.forall_mem_cons] at lenient
    simp only [literalCons,Piece.text]
    cases p with
    | plain c =>
      simp only [List.cons_append,List.nil_append,decodePlain lenient.1,decodePieces,ih lenient.2]
    | short c =>
      obtain ⟨stood,stands⟩ := Option.isSome_iff_exists.mp lenient.1
      simp only [List.cons_append,List.nil_append,decodeShort stands,decodePieces,stands,Option.bind_some,ih lenient.2]
    | unicode a b c d =>
      obtain ⟨n,unit⟩ := Option.isSome_iff_exists.mp lenient.1
      simp only [List.cons_append,List.nil_append,decodeUnit unit,decodePieces,unit,Option.bind_some,ih lenient.2]

/- What stands after an opening quote is pieces and the closing quote. -/
def Written (t : Text) : Prop := ∃ pieces : List Piece, (∀ p ∈ pieces, Lenient p) ∧ t = literal pieces ++ ['"']

theorem Written.cons {p : Piece} {rest : Text} (later : Written rest) (lenient : Lenient p) : Written (p.text ++ rest) := by
  obtain ⟨pieces,each,rfl⟩ := later
  exact ⟨p::pieces,List.forall_mem_cons.mpr ⟨lenient,each⟩,by rw [literalCons,List.append_assoc]⟩

theorem lenientUnit {a b c d : Char} {n} (unit : fromStrRadix16 [a,b,c,d] = some n) : Lenient (.unicode a b c d) := by
  rw [radixUnit] at unit
  simp [Lenient,unit]

/- Whatever the decoder accepts is written in pieces. -/
theorem decodeReads {decoded : Text} {pending : Option Nat} {t s : Text} (ok : decodeString decoded pending t = some s) :
    Written t := by
  fun_induction decodeString decoded pending t with
  | case2 => exact ⟨[],by simp,rfl⟩
  | case6 _ _ _ _ _ _ _ _ unit _ _ ih | case8 _ _ _ _ _ _ _ unit _ _ _ _ ih | case9 _ _ _ _ _ _ _ _ unit _ _ _ ih =>
    exact (ih ok).cons (lenientUnit unit)
  | case12 _ _ escape _ _ stood stands _ ih => exact (ih ok).cons (p := .short escape) (by simp [Lenient,stands])
  | case13 _ _ c _ quote slash ih => exact (ih ok).cons (p := .plain c) ⟨quote,slash⟩
  | _ => simp at ok

theorem piecesAnswered {decoded : Text} {pending : Option Nat} {pieces : List Piece} (lenient : ∀ p ∈ pieces, Lenient p) :
    (decodePieces decoded pending pieces).isSome ↔ LowsAnswered pending.isSome pieces := by
  induction pieces generalizing decoded pending with
  | nil => simp [decodePieces,LowsAnswered]
  | cons p rest ih =>
    rw [List.forall_mem_cons] at lenient
    cases p with
    | plain c => exact ih lenient.2
    | short c =>
      obtain ⟨stood,stands⟩ := Option.isSome_iff_exists.mp lenient.1
      simp only [decodePieces,stands,Option.bind_some]
      exact ih lenient.2
    | unicode a b c d =>
      obtain ⟨n,unit⟩ := Option.isSome_iff_exists.mp lenient.1
      simp only [decodePieces,LowsAnswered,unit,Option.bind_some,Option.some.injEq,forall_eq']
      split
      · exact ih lenient.2
      split
      · cases pending with
        | none => simp
        | some high =>
          simp only [Option.bind_some,Option.isSome_some,true_and]
          exact ih lenient.2
      · exact ih lenient.2

theorem readStrict {a b c d : Char} {n} (unit : unitOf a b c d = some n) : readUnit a b c d = some n := by
  unfold readUnit
  rw [if_neg,unit]
  rintro rfl
  have plus : hexValue '+' = none := by decide
  simp [unitOf,plus] at unit

theorem formedLenient {p : Piece} (formed : p.WellFormed) : Lenient p := by
  cases p with
  | plain c => exact ⟨formed.1,formed.2.1⟩
  | short c => exact formed
  | unicode a b c d =>
    obtain ⟨n,unit⟩ := Option.isSome_iff_exists.mp formed
    simp [Lenient,readStrict unit]

theorem lenientSeparable {p : Piece} (lenient : Lenient p) : p.Separable := by
  cases p with
  | plain c => exact lenient
  | short c =>
    rintro rfl
    simp [Lenient,shortChar] at lenient
  | unicode a b c d => trivial

theorem decodesPaired {decoded d : Text} {pending : Option Nat} {pieces : List Piece}
    (paired : denote pending pieces = some d) : decodePieces decoded pending pieces = some (decoded ++ d) := by
  induction pieces generalizing decoded d pending with
  | nil =>
    cases pending with
    | none =>
      cases Option.some.inj paired
      simp [decodePieces]
    | some high => simp [denote] at paired
  | cons p rest ih =>
    cases p with
    | plain c =>
      cases pending with
      | none =>
        obtain ⟨t,later,rfl⟩ := Option.map_eq_some_iff.mp paired
        simp [decodePieces,ih later]
      | some high => simp [denote] at paired
    | short c =>
      cases pending with
      | none =>
        obtain ⟨stood,stands,later⟩ := Option.bind_eq_some_iff.mp paired
        obtain ⟨t,tail,rfl⟩ := Option.map_eq_some_iff.mp later
        simp [decodePieces,stands,ih tail]
      | some high => simp [denote] at paired
    | unicode a b c e =>
      cases pending with
      | none =>
        obtain ⟨n,unit,later⟩ := Option.bind_eq_some_iff.mp paired
        simp only [decodePieces,readStrict unit,Option.bind_some]
        split at later
        · rename_i high
          rw [if_pos high,ih later]
        · rename_i low
          split at later
          · simp at later
          · rename_i other
            obtain ⟨t,tail,rfl⟩ := Option.map_eq_some_iff.mp later
            rw [if_neg low,if_neg other,ih tail]
            simp
      | some high =>
        obtain ⟨n,unit,later⟩ := Option.bind_eq_some_iff.mp paired
        split at later
        · rename_i low
          obtain ⟨t,tail,rfl⟩ := Option.map_eq_some_iff.mp later
          have below : ¬IsHigh n := by
            unfold IsHigh
            unfold IsLow at low
            omega
          simp only [decodePieces,readStrict unit,Option.bind_some,if_neg below,if_pos low,ih tail]
          simp
        · simp at later

end Pieces

section Sound

theorem extractRaw {body : Text} {key raw} (read : rawMember body key = .ok (some raw)) :
    extractStringMember body key = match (stripPrefix '"' raw).bind (decodeString [] none) with
      | none => malformed
      | some decoded => .ok (some (String.ofList decoded)) := by
  unfold extractStringMember
  rw [read]
  rfl

theorem quotedPrefix (pieces : List Piece) : stripPrefix '"' (quoted pieces) = some (literal pieces ++ ['"']) := rfl

theorem prefixForm {c : Char} {t rest : Text} (stripped : stripPrefix c t = some rest) : t = c::rest := by
  cases t with
  | nil => simp [stripPrefix] at stripped
  | cons d t =>
    simp only [stripPrefix,Option.ite_none_right_eq_some,Option.some.injEq] at stripped
    rw [stripped.1,stripped.2]

/-- Decoding is sound exactly on the raw values that are written strictly. -/
theorem stringDecodingExactly (body : Text) (key : String) :
    DecodesSoundly body key ↔ ∀ raw, rawMember body key = .ok (some raw) → WrittenStrictly raw := by
  constructor
  · intro sound raw read pieces form lenient answered
    have some_ : (decodePieces [] none pieces).isSome := (piecesAnswered lenient).mpr answered
    obtain ⟨s,decoded⟩ := Option.isSome_iff_exists.mp some_
    have extracted := extractRaw read
    rw [form,quotedPrefix,Option.bind_some,decodeLiteral lenient,decoded] at extracted
    obtain ⟨s',_,pieces',formed,form',paired⟩ | ⟨error,failed⟩ := sound raw read
    · have same : literal pieces ++ ['"'] = literal pieces' ++ ['"'] := (List.cons.inj (form.symm.trans form')).2
      obtain ⟨rfl,_⟩ := literalApart (fun p member => lenientSeparable (lenient p member))
        (fun p member => (formed p member).separable) same
      exact ⟨formed,by simp [paired]⟩
    · rw [failed] at extracted
      simp at extracted
  · intro strictly raw read
    have extracted := extractRaw read
    cases decoded : (stripPrefix '"' raw).bind (decodeString [] none) with
    | none =>
      rw [decoded] at extracted
      exact .inr ⟨_,extracted⟩
    | some s =>
      rw [decoded] at extracted
      obtain ⟨rest,stripped,decoded⟩ := Option.bind_eq_some_iff.mp decoded
      obtain ⟨pieces,lenient,rfl⟩ := decodeReads decoded
      have form : raw = quoted pieces := prefixForm stripped
      rw [decodeLiteral lenient] at decoded
      have answered := (piecesAnswered lenient).mp (Option.isSome_of_eq_some decoded)
      obtain ⟨formed,some_⟩ := strictly raw read pieces form lenient answered
      obtain ⟨d,paired⟩ := Option.isSome_iff_exists.mp some_
      rw [decodesPaired paired] at decoded
      cases Option.some.inj decoded
      refine .inl ⟨_,extracted,pieces,formed,form,?_⟩
      simpa using paired

def straySurrogate : List Piece :=
  [.plain 'a',.unicode 'd' '8' '3' 'd',.plain 'b']

def strayBody : Text := "\x7b\"access_token\":\"a\\ud83db\"\x7d".toList

/-- The high surrogate is dropped without a trace. -/
theorem straySurrogateDropped :
    extractStringMember strayBody "access_token" = .ok (some "ab") ∧ ¬DecodesSoundly strayBody "access_token" := by
  have read : rawMember strayBody "access_token" = .ok (some (quoted straySurrogate)) := by decide +kernel
  have dropped : extractStringMember strayBody "access_token" = .ok (some "ab") := by decide +kernel
  refine ⟨dropped,?_⟩
  intro sound
  obtain ⟨s,_,pieces,formed,form,paired⟩ | ⟨error,failed⟩ := sound _ read
  · have separable : ∀ p ∈ straySurrogate, p.Separable := by simp [straySurrogate,Piece.Separable]
    obtain ⟨rfl,_⟩ := literalApart separable (fun p member => (formed p member).separable) (List.cons.inj form).2
    exact absurd paired (by simp [show denote none straySurrogate = none by decide])
  · rw [dropped] at failed
    simp at failed

end Sound
end RatatoskrX.StringDecoding
