import RatatoskrX.Foundation.Outcome
import RatatoskrX.StringDecoding

/-! What the member extraction finds in an object of the grammar. The scan for commas follows
strings and nesting and finds the members whatever they hold; the cut at the first colon does
not look whether it stands in the name. -/
namespace RatatoskrX.MemberExtraction
open Outcome JsonText Connection TokenMembers StringDecoding

section Scanning

/- A character that the scan takes as it comes. -/
def Quiet (c : Char) : Prop := c ≠ '"' ∧ c ≠ '{' ∧ c ≠ '[' ∧ c ≠ '}' ∧ c ≠ ']' ∧ c ≠ ','

instance (c) : Decidable (Quiet c) := by unfold Quiet; infer_instance

def Scan.Outside (s : Scan) : Prop := s.inString = false ∧ s.escaped = false

def Scan.took (s : Scan) (t : Text) : Scan := {s with current := s.current ++ t}

theorem tookNil (s : Scan) : Scan.took s [] = s := by simp [Scan.took]

theorem tookAppend (s : Scan) (t u : Text) : Scan.took (Scan.took s t) u = Scan.took s (t ++ u) := by simp [Scan.took]

theorem stepQuiet {s : Scan} {c : Char} (outside : Scan.Outside s) (quiet : Quiet c) : s.step c = Scan.took s [c] := by
  obtain ⟨quote,brace,bracket,brace',bracket',comma⟩ := quiet
  unfold Scan.step
  rw [if_neg (by simp [outside.1]),if_neg quote,if_neg (by simp [brace,bracket]),if_neg (by simp [brace',bracket']),
    if_neg (by simp [comma])]
  rfl

theorem foldQuiet {s : Scan} {t : Text} (outside : Scan.Outside s) (quiet : ∀ c ∈ t, Quiet c) :
    t.foldl Scan.step s = Scan.took s t := by
  induction t generalizing s with
  | nil => exact (tookNil s).symm
  | cons c rest ih =>
    rw [List.forall_mem_cons] at quiet
    have later : rest.foldl Scan.step (Scan.took s [c]) = Scan.took (Scan.took s [c]) rest := ih outside quiet.2
    rw [List.foldl_cons,stepQuiet outside quiet.1,later,tookAppend]
    rfl

theorem stepInside {s : Scan} {c : Char} (inside : s.inString = true) (plain : s.escaped = false)
    (other : c ≠ '"' ∧ c ≠ '\\') : s.step c = Scan.took s [c] := by
  simp [Scan.step,inside,plain,other.1,other.2,Scan.push,Scan.took]

theorem stepEscape {s : Scan} (inside : s.inString = true) (plain : s.escaped = false) (c : Char) :
    (s.step '\\').step c = Scan.took s ['\\',c] := by
  simp [Scan.step,inside,plain,Scan.push,Scan.took]

theorem hexPlain {c : Char} {n} (value : hexValue c = some n) : c ≠ '"' ∧ c ≠ '\\' := by
  have quote : hexValue '"' = none := by decide
  have slash : hexValue '\\' = none := by decide
  constructor
  · rintro rfl
    simp [quote] at value
  · rintro rfl
    simp [slash] at value

theorem foldPiece {s : Scan} {p : Piece} (inside : s.inString = true) (plain : s.escaped = false) (formed : p.WellFormed) :
    p.text.foldl Scan.step s = Scan.took s p.text := by
  cases p with
  | plain c => exact stepInside inside plain ⟨formed.1,formed.2.1⟩
  | short c => exact stepEscape inside plain c
  | unicode a b c d =>
    obtain ⟨n,unit⟩ := Option.isSome_iff_exists.mp formed
    simp only [unitOf,bind,Option.bind_eq_some_iff] at unit
    obtain ⟨i,first,j,second,k,third,l,fourth,_⟩ := unit
    have start := stepEscape inside plain 'u'
    simp only [Piece.text,List.foldl_cons,List.foldl_nil]
    rw [start,stepInside _ _ (hexPlain first),stepInside _ _ (hexPlain second),stepInside _ _ (hexPlain third),
      stepInside _ _ (hexPlain fourth)]
    · simp [Scan.took]
    all_goals assumption

theorem foldPieces {s : Scan} {pieces : List Piece} (inside : s.inString = true) (plain : s.escaped = false)
    (formed : ∀ p ∈ pieces, p.WellFormed) : (literal pieces).foldl Scan.step s = Scan.took s (literal pieces) := by
  induction pieces generalizing s with
  | nil => exact (tookNil s).symm
  | cons p rest ih =>
    rw [List.forall_mem_cons] at formed
    have later : (literal rest).foldl Scan.step (Scan.took s p.text) = Scan.took (Scan.took s p.text) (literal rest) :=
      ih inside plain formed.2
    rw [literalCons,List.foldl_append,foldPiece inside plain formed.1,later,tookAppend]

theorem foldString {s : Scan} {t : Text} (outside : Scan.Outside s) (string : IsString t) :
    t.foldl Scan.step s = Scan.took s t := by
  obtain ⟨pieces,formed,rfl⟩ := string
  have opened : s.step '"' = {Scan.took s ['"'] with inString := true} := by
    simp [Scan.step,outside.1,Scan.push,Scan.took]
  have inside := foldPieces (s := {Scan.took s ['"'] with inString := true}) rfl outside.2 formed
  have plain := outside.2
  unfold quoted
  rw [List.foldl_cons,opened,List.foldl_append,inside]
  simp [Scan.step,Scan.took,Scan.push,plain,outside.1]

end Scanning

section Characters

theorem blankQuiet {c : Char} (blank : IsBlank c) : Quiet c ∧ isWhitespace c = true ∧ c ≠ ':' := by
  obtain rfl | rfl | rfl | rfl := blank <;> decide

def NumberChar (c : Char) : Prop := c.isDigit = true ∨ c ∈ ['-','+','.','e','E']

theorem numberQuiet {c : Char} (number : NumberChar c) : Quiet c ∧ isWhitespace c = false := by
  obtain digit | other := number
  · simp only [Char.isDigit,Bool.and_eq_true,decide_eq_true_eq] at digit
    have low : 48 ≤ c.toNat := UInt32.le_iff_toNat_le.mp digit.1
    have high : c.toNat ≤ 57 := UInt32.le_iff_toNat_le.mp digit.2
    have apart {d : Char} (outside : d.toNat < 48 ∨ 57 < d.toNat) : c ≠ d := by
      rintro rfl
      omega
    refine ⟨⟨apart (by decide),apart (by decide),apart (by decide),apart (by decide),apart (by decide),apart (by decide)⟩,?_⟩
    simp only [isWhitespace,Bool.or_eq_false_iff,Bool.and_eq_false_iff,decide_eq_false_iff_not]
    omega
  · simp only [List.mem_cons,List.not_mem_nil,or_false] at other
    obtain rfl | rfl | rfl | rfl | rfl := other <;> decide

theorem numberChars {t : Text} (number : IsNumber t) : t ≠ [] ∧ ∀ c ∈ t, NumberChar c := by
  obtain ⟨signed,whole,part,scaled⟩ := number
  have digits {t : Text} (some_ : Digits t) : ∀ c ∈ t, NumberChar c := fun c member => .inl (some_.2 c member)
  have sign {t : Text} (signed : t = [] ∨ t = ['+'] ∨ t = ['-']) : ∀ c ∈ t, NumberChar c := by
    obtain rfl | rfl | rfl := signed <;> simp [NumberChar]
  refine ⟨by simp [whole.1.1],?_⟩
  simp only [List.mem_append]
  rintro c (((member | member) | member) | member)
  · exact sign (signed.elim .inl (fun minus => .inr (.inr minus))) c member
  · exact digits whole.1 c member
  · cases part with
    | absent => simp at member
    | stated some_ =>
      obtain rfl | member := List.mem_cons.mp member
      · simp [NumberChar]
      · exact digits some_ c member
  · cases scaled with
    | absent => simp at member
    | stated letter signed some_ =>
      obtain rfl | member := List.mem_cons.mp member
      · obtain rfl | rfl := letter <;> simp [NumberChar]
      · exact (List.mem_append.mp member).elim (sign signed c) (digits some_ c)

theorem wordChars {t : Text} (word : IsWord t) : t ≠ [] ∧ ∀ c ∈ t, Quiet c ∧ isWhitespace c = false := by
  obtain rfl | rfl | rfl := word <;>
    (simp only [List.forall_mem_cons,List.not_mem_nil,IsEmpty.forall_iff,implies_true]; decide)

end Characters

section Values

theorem foldBlank {s : Scan} {w : Text} (outside : Scan.Outside s) (blank : Blank w) :
    w.foldl Scan.step s = Scan.took s w := foldQuiet outside (fun c member => (blankQuiet (blank c member)).1)

theorem foldNested {s : Scan} {opening closing : Char} {t : Text} (outside : Scan.Outside s)
    (opens : opening = '{' ∨ opening = '[') (closes : closing = '}' ∨ closing = ']')
    (inner : ∀ s : Scan, Scan.Outside s → 0 < s.depth → t.foldl Scan.step s = Scan.took s t) :
    (opening::(t ++ [closing])).foldl Scan.step s = Scan.took s (opening::(t ++ [closing])) := by
  have opened : s.step opening = {Scan.took s [opening] with depth := s.depth + 1} := by
    obtain rfl | rfl := opens <;> simp [Scan.step,outside.1,Scan.push,Scan.took]
  have nested := inner {Scan.took s [opening] with depth := s.depth + 1} outside (Nat.succ_pos _)
  have plain := outside.1
  rw [List.foldl_cons,opened,List.foldl_append,nested]
  obtain rfl | rfl := closes <;> simp [Scan.step,Scan.took,Scan.push,plain]

theorem foldComma {s : Scan} (outside : Scan.Outside s) (deep : 0 < s.depth) : s.step ',' = Scan.took s [','] := by
  simp [Scan.step,outside.1,Nat.ne_of_gt deep,Scan.push,Scan.took]

def Form.several : Form → Bool
  | .elements | .members => true
  | _ => false

theorem foldDerived {form : Form} {t : Text} (derived : Derives form t) {s : Scan} (outside : Scan.Outside s)
    (deep : Form.several form = true → 0 < s.depth) : t.foldl Scan.step s = Scan.took s t := by
  induction derived generalizing s with
  | word word => exact foldQuiet outside (fun c member => ((wordChars word).2 c member).1)
  | number number => exact foldQuiet outside (fun c member => (numberQuiet ((numberChars number).2 c member)).1)
  | string string => exact foldString outside string
  | emptyArray blank => exact foldNested outside (.inr rfl) (.inr rfl) (fun s outside _ => foldBlank outside blank)
  | array _ ih => exact foldNested outside (.inr rfl) (.inr rfl) (fun s outside deep => ih outside (fun _ => deep))
  | emptyObject blank => exact foldNested outside (.inl rfl) (.inl rfl) (fun s outside _ => foldBlank outside blank)
  | object _ ih => exact foldNested outside (.inl rfl) (.inl rfl) (fun s outside deep => ih outside (fun _ => deep))
  | @element w t w' before _ after ih =>
    have core := ih (s := Scan.took s w) outside (by simp [Form.several])
    have ended := foldBlank (s := Scan.took (Scan.took s w) t) outside after
    rw [List.foldl_append,List.foldl_append,foldBlank outside before,core,ended]
    simp only [tookAppend,List.append_assoc]
  | lastElement _ ih | lastMember _ ih => exact ih outside (by simp [Form.several])
  | @nextElement t u _ _ ih ih' | @nextMember t u _ _ ih ih' =>
    have deeper := deep rfl
    have comma := foldComma (s := Scan.took s t) outside deeper
    have others := ih' (s := Scan.took (Scan.took s t) [',']) outside (fun _ => deeper)
    rw [List.foldl_append,ih outside (fun _ => deeper),List.foldl_cons,comma,others]
    simp only [tookAppend,List.append_assoc,List.singleton_append]
  | @member w k w' t before name between _ ih =>
    have named := foldString (s := Scan.took s w) outside name
    have spaced := foldBlank (s := Scan.took (Scan.took s w) k) outside between
    have colon := stepQuiet (s := Scan.took (Scan.took (Scan.took s w) k) w') outside (show Quiet ':' by decide)
    have valued := ih (s := Scan.took (Scan.took (Scan.took (Scan.took s w) k) w') [':']) outside
      (by simp [Form.several])
    rw [List.foldl_append,List.foldl_append,List.foldl_append,List.foldl_cons,foldBlank outside before,named,spaced,
      colon,valued]
    simp only [tookAppend,List.append_assoc,List.singleton_append]

theorem Member.derives {m : Member} (formed : m.WellFormed) : Derives .member m.text :=
  .member formed.before ⟨m.name,formed.name,rfl⟩ formed.between (.element formed.gap formed.value formed.after)

theorem foldJoined {ms : List Member} {m : Member} {done : List Text} (formed : ∀ n ∈ m::ms, n.WellFormed) :
    (joined (m::ms)).foldl Scan.step ⟨done,[],0,false,false⟩ =
      ⟨done ++ ((m::ms).map Member.text).dropLast,((m::ms).map Member.text).getLast (by simp),0,false,false⟩ := by
  induction ms generalizing m done with
  | nil =>
    have whole := foldDerived (Member.derives (formed m (by simp))) (s := ⟨done,[],0,false,false⟩) ⟨rfl,rfl⟩
      (by simp [Form.several])
    rw [joined,whole]
    simp [Scan.took]
  | cons n rest ih =>
    rw [List.forall_mem_cons] at formed
    have whole := foldDerived (Member.derives formed.1) (s := ⟨done,[],0,false,false⟩) ⟨rfl,rfl⟩ (by simp [Form.several])
    have comma : (Scan.took ⟨done,[],0,false,false⟩ m.text).step ',' = ⟨done ++ [m.text],[],0,false,false⟩ := by
      simp [Scan.took,Scan.step]
    rw [joined,List.foldl_append,whole,List.foldl_cons,comma,ih formed.2]
    simp

end Values

section Trimming

/- A text that trimming leaves alone. -/
def Solid (t : Text) : Prop :=
  (∃ a, t.head? = some a ∧ isWhitespace a = false) ∧ ∃ b, t.getLast? = some b ∧ isWhitespace b = false

theorem solidEnds {a b : Char} {t : Text} (first : isWhitespace a = false) (last : isWhitespace b = false) :
    Solid (a::(t ++ [b])) :=
  ⟨⟨a,rfl,first⟩,b,by rw [← List.cons_append,List.getLast?_concat],last⟩

theorem solidAll {t : Text} (some_ : t ≠ []) (each : ∀ c ∈ t, isWhitespace c = false) : Solid t :=
  ⟨⟨t.head some_,List.head?_eq_some_head some_,each _ (List.head_mem some_)⟩,
    t.getLast some_,List.getLast?_eq_some_getLast some_,each _ (List.getLast_mem some_)⟩

theorem valueSolid {v : Text} (value : Derives .value v) : Solid v := by
  cases value with
  | word word => exact solidAll (wordChars word).1 (fun c member => ((wordChars word).2 c member).2)
  | number number =>
    exact solidAll (numberChars number).1 (fun c member => (numberQuiet ((numberChars number).2 c member)).2)
  | string string =>
    obtain ⟨pieces,_,rfl⟩ := string
    exact solidEnds (by decide) (by decide)
  | emptyArray | array | emptyObject | object => exact solidEnds (by decide) (by decide)

theorem trimEndSpace {core w : Text} (after : ∀ c ∈ w, isWhitespace c = true) :
    (core ++ w).rdropWhile isWhitespace = core.rdropWhile isWhitespace := by
  induction w using List.reverseRecOn with
  | nil => rw [List.append_nil]
  | append_singleton w c ih =>
    rw [← List.append_assoc,List.rdropWhile_concat_pos _ _ _ (after c (by simp))]
    exact ih (fun d member => after d (List.mem_append_left _ member))

theorem trimSolid {w core w' : Text} (before : ∀ c ∈ w, isWhitespace c = true) (solid : Solid core)
    (after : ∀ c ∈ w', isWhitespace c = true) : trim (w ++ core ++ w') = core := by
  obtain ⟨⟨a,first,solid⟩,b,last,solid'⟩ := solid
  have front : (w ++ core ++ w').dropWhile isWhitespace = core ++ w' := by
    rw [List.append_assoc,List.dropWhile_append_of_pos before]
    cases core with
    | nil => simp at first
    | cons c rest =>
      cases Option.some.inj first
      rw [List.cons_append,List.dropWhile_cons_of_neg (by simp [solid])]
  have back : core.rdropWhile isWhitespace = core := by
    rw [List.rdropWhile_eq_self_iff]
    intro some_
    rw [List.getLast?_eq_some_getLast some_] at last
    cases Option.some.inj last
    simp [solid']
  rw [trim,front,trimEndSpace after,back]

theorem blankSpace {w : Text} (blank : Blank w) : ∀ c ∈ w, isWhitespace c = true :=
  fun c member => (blankQuiet (blank c member)).2.1

end Trimming

section Cutting

/- The key that is read where a name's text is cut at its first colon. -/
def cutName (name : Text) : Option Text :=
  if ':' ∈ name then stripSuffix '"' ((name.takeWhile (· ≠ ':')).rdropWhile isWhitespace) else some name

/- A member as the cut sees it, without the blanks around it. -/
def coreText (m : Member) : Text := quoted m.name ++ m.between ++ ':'::(m.gap ++ m.value)

theorem coreSolid {m : Member} (formed : m.WellFormed) : Solid (coreText m) := by
  obtain ⟨_,b,last,solid⟩ := valueSolid formed.value
  refine ⟨⟨'"',rfl,by decide⟩,b,?_,solid⟩
  obtain ⟨t,value⟩ := List.getLast?_eq_some_iff.mp last
  have form : coreText m = (quoted m.name ++ m.between ++ ':'::(m.gap ++ t)) ++ [b] := by
    simp [coreText,value]
  rw [form,List.getLast?_concat]

theorem trimMember {m : Member} (formed : m.WellFormed) : trim m.text = coreText m := by
  have form : m.text = m.before ++ coreText m ++ m.after := by simp [Member.text,coreText]
  rw [form]
  exact trimSolid (blankSpace formed.before) (coreSolid formed) (blankSpace formed.after)

theorem takeBefore {before after : Text} (absent : ':' ∉ before) :
    (before ++ ':'::after).takeWhile (· ≠ ':') = before ∧ (before ++ ':'::after).dropWhile (· ≠ ':') = ':'::after := by
  have each : ∀ c ∈ before, (decide (c ≠ ':')) = true := by
    intro c member
    simp only [decide_eq_true_eq]
    rintro rfl
    exact absent member
  rw [List.takeWhile_append_of_pos each,List.dropWhile_append_of_pos each,List.takeWhile_cons_of_neg (by simp),
    List.dropWhile_cons_of_neg (by simp)]
  simp

theorem stripQuotes (t : Text) : (stripPrefix '"' ('"'::(t ++ ['"']))).bind (stripSuffix '"') = some t := by
  simp [stripPrefix,stripSuffix]

theorem trimOpening (t : Text) : trim ('"'::t) = '"'::t.rdropWhile isWhitespace := by
  unfold trim
  rw [List.dropWhile_cons_of_neg (by decide)]
  induction t using List.reverseRecOn with
  | nil => decide
  | append_singleton t c ih =>
    rw [← List.cons_append,List.rdropWhile_concat,List.rdropWhile_concat]
    split
    · exact ih
    · rfl

theorem nameCut {m : Member} (formed : m.WellFormed) (inside : ':' ∉ literal m.name) : ':' ∉ quoted m.name ++ m.between := by
  simp only [quoted,List.mem_append,List.mem_cons,List.not_mem_nil,or_false,not_or]
  exact ⟨⟨by decide,inside,by decide⟩,fun member => (blankQuiet (formed.between _ member)).2.2 rfl⟩

theorem readForm {m : Member} (formed : m.WellFormed) :
    ∃ value, (readMember m.text = match cutName (literal m.name) with
      | none => malformed
      | some key => .ok (some (key,value))) ∧ (':' ∉ literal m.name → value = m.value) := by
  have trimmed := trimMember formed
  have some_ : coreText m ≠ [] := by simp [coreText,quoted]
  have colon : ':' ∈ coreText m := by simp [coreText]
  refine ⟨trim (((coreText m).dropWhile (· ≠ ':')).drop 1),?_,?_⟩
  · have cut : (stripPrefix '"' (trim ((coreText m).takeWhile (· ≠ ':')))).bind (stripSuffix '"') = cutName (literal m.name) := by
      by_cases inside : ':' ∈ literal m.name
      · obtain ⟨before,after,split,absent⟩ := List.eq_append_cons_of_mem inside
        have form : coreText m = ('"'::before) ++ ':'::(after ++ '"'::(m.between ++ ':'::(m.gap ++ m.value))) := by
          simp [coreText,quoted,split]
        have taken : (coreText m).takeWhile (· ≠ ':') = '"'::before := by
          rw [form]
          exact (takeBefore (by simp [absent])).1
        rw [taken,trimOpening,cutName,if_pos inside,split,(takeBefore absent).1]
        rfl
      · have taken : (coreText m).takeWhile (· ≠ ':') = quoted m.name ++ m.between := (takeBefore (nameCut formed inside)).1
        have core : trim (quoted m.name ++ m.between) = quoted m.name := by
          have quotes : Solid (quoted m.name) := solidEnds (by decide) (by decide)
          exact trimSolid (w := []) (by simp) quotes (blankSpace formed.between)
        rw [taken,core,cutName,if_neg inside]
        exact stripQuotes _
    unfold readMember
    cases found : cutName (literal m.name) with
    | none =>
      rw [found] at cut
      simp only [trimmed,if_neg some_,colon,not_true_eq_false,if_false,cut]
    | some key =>
      rw [found] at cut
      simp only [trimmed,if_neg some_,colon,not_true_eq_false,if_false,cut]
  · intro inside
    have dropped : (coreText m).dropWhile (· ≠ ':') = ':'::(m.gap ++ m.value) := (takeBefore (nameCut formed inside)).2
    have core : trim (m.gap ++ m.value ++ []) = m.value :=
      trimSolid (blankSpace formed.gap) (valueSolid formed.value) (by simp)
    rw [dropped]
    rwa [List.append_nil] at core

end Cutting

section Members

def ReadAs (m : Member) (pair : Text × Text) : Prop :=
  cutName (literal m.name) = some pair.1 ∧ (':' ∉ literal m.name → pair.2 = m.value)

theorem readsMembers {ms : List Member} (formed : ∀ m ∈ ms, m.WellFormed) :
    (∀ pairs, readMembers (ms.map Member.text) = .ok pairs → List.Forall₂ ReadAs ms pairs) ∧
      ((∀ m ∈ ms, (cutName (literal m.name)).isSome) → ∃ pairs, readMembers (ms.map Member.text) = .ok pairs) := by
  induction ms with
  | nil =>
    constructor
    · intro pairs ok
      cases Except.ok.inj ok
      exact .nil
    · exact fun _ => ⟨[],rfl⟩
  | cons m rest ih =>
    rw [List.forall_mem_cons] at formed
    obtain ⟨shown,all⟩ := ih formed.2
    obtain ⟨value,read,valued⟩ := readForm formed.1
    cases cut : cutName (literal m.name) with
    | none =>
      rw [cut] at read
      constructor
      · intro pairs ok
        simp [readMembers,read,malformed,bind,Except.bind] at ok
      · intro each
        simp [cut] at each
    | some key =>
      rw [cut] at read
      constructor
      · intro pairs ok
        simp only [List.map_cons,readMembers,read,bindOk,Except.ok.injEq,exists_eq_left'] at ok
        obtain ⟨later,found,last⟩ := ok
        cases Except.ok.inj last
        exact .cons ⟨cut,valued⟩ (shown later found)
      · intro each
        obtain ⟨later,found⟩ := all (List.forall_mem_cons.mp each).2
        simp [readMembers,read,found,bind,Except.bind,pure,Except.pure]

theorem stripBraces {t : Text} : (stripPrefix '{' ('{'::(t ++ ['}']))).bind (stripSuffix '}') = some t := by
  simp [stripPrefix,stripSuffix]

/- The split finds the members of an object, whatever they hold. -/
theorem splitObject {ms : List Member} {body : Text} (object : IsObject ms body) :
    splitTopLevelMembers body = readMembers (ms.map Member.text) ∧ ∀ m ∈ ms, m.WellFormed := by
  cases object with
  | @empty w blank w' before inner after =>
    have trimmed : trim (w ++ '{'::(blank ++ '}'::w')) = '{'::(blank ++ ['}']) := by
      have core := trimSolid (blankSpace before) (solidEnds (t := blank) (a := '{') (b := '}') (by decide) (by decide))
        (blankSpace after)
      simpa using core
    have scanned : scan blank = ⟨[],blank,0,false,false⟩ := by
      have whole := foldBlank (s := Scan.start) ⟨rfl,rfl⟩ inner
      rw [scan,whole]
      simp [Scan.took,Scan.start]
    have nothing : trim blank = [] := by
      have spaces : blank.dropWhile isWhitespace = [] := List.dropWhile_eq_nil_iff.mpr (blankSpace inner)
      rw [trim,spaces]
      rfl
    refine ⟨?_,by simp⟩
    unfold splitTopLevelMembers
    rw [trimmed,stripBraces]
    simp [scanned,readMembers,readMember,nothing,bind,Except.bind,pure,Except.pure]
  | @members w m rest w' before each after =>
    have trimmed : trim (w ++ '{'::(joined (m::rest) ++ '}'::w')) = '{'::(joined (m::rest) ++ ['}']) := by
      have core := trimSolid (blankSpace before)
        (solidEnds (t := joined (m::rest)) (a := '{') (b := '}') (by decide) (by decide)) (blankSpace after)
      simpa using core
    have scanned : scan (joined (m::rest)) = ⟨((m::rest).map Member.text).dropLast,
        ((m::rest).map Member.text).getLast (by simp),0,false,false⟩ := foldJoined each
    refine ⟨?_,each⟩
    unfold splitTopLevelMembers
    rw [trimmed,stripBraces]
    simp only [scanned,List.dropLast_append_getLast]
    rfl

theorem foundPair {ms : List Member} {pairs : List (Text × Text)} (read : List.Forall₂ ReadAs ms pairs) {key v : Text}
    (only : ∀ m ∈ ms, cutName (literal m.name) = some key → ':' ∉ literal m.name ∧ m.value = v)
    (some_ : ∃ m ∈ ms, cutName (literal m.name) = some key) :
    (pairs.find? (fun pair => pair.1 = key)).map Prod.snd = some v := by
  induction read with
  | nil => simp at some_
  | @cons m pair ms pairs shown _ ih =>
    rw [List.forall_mem_cons] at only
    by_cases same : pair.1 = key
    · obtain ⟨plain,value⟩ := only.1 (same ▸ shown.1)
      rw [List.find?_cons_of_pos (by simp [same])]
      simp [shown.2 plain,value]
    · rw [List.find?_cons_of_neg (by simp [same])]
      obtain ⟨n,member,cut⟩ := some_
      obtain rfl | member := List.mem_cons.mp member
      · rw [shown.1] at cut
        exact absurd (Option.some.inj cut) same
      · exact ih only.2 ⟨n,member,cut⟩

theorem readNames {ms : List Member} {pairs : List (Text × Text)} (read : List.Forall₂ ReadAs ms pairs) :
    ∀ m ∈ ms, (cutName (literal m.name)).isSome := by
  induction read with
  | nil => simp
  | cons shown _ ih => exact List.forall_mem_cons.mpr ⟨by simp [shown.1],ih⟩

theorem foundNone {ms : List Member} {pairs : List (Text × Text)} (read : List.Forall₂ ReadAs ms pairs) {key : Text} :
    (pairs.find? (fun pair => pair.1 = key)).map Prod.snd = none ↔ ∀ m ∈ ms, cutName (literal m.name) ≠ some key := by
  induction read with
  | nil => simp
  | @cons m pair ms pairs shown _ ih =>
    rw [List.forall_mem_cons,← ih,shown.1]
    by_cases same : pair.1 = key
    · simp [same]
    · rw [List.find?_cons_of_neg (by simp [same])]
      simp [same]

end Members

section Extraction

def Named (m : Member) (key : String) : Prop := units m.name = key.toList.flatMap charUnits

/- The name is the key written without escapes. -/
def Unescaped (m : Member) (key : String) : Prop := m.name = key.toList.map Piece.plain

def SmallInteger (v : Text) : Prop := IsInteger v ∧ decimal v < 2 ^ 64

/- What extraction owes on an object: the string or number under a key, or none where no
member has the key's name. -/
structure Complete (ms : List Member) (body : Text) (key : String) : Prop where
  string : ∀ m ∈ ms, Unescaped m key → ∀ s, Denotes m.value s → extractStringMember body key = .ok (some s)
  number : ∀ m ∈ ms, Unescaped m key → SmallInteger m.value →
    extractNumberMember body key = .ok (some (UInt64.ofNat (decimal m.value)))
  absent : (∀ m ∈ ms, ¬Named m key) → extractStringMember body key = .ok none ∧ extractNumberMember body key = .ok none

/- Extraction owes something under the key. -/
def Owed (ms : List Member) (key : String) : Prop :=
  (∃ m ∈ ms, Unescaped m key ∧ ((∃ s, Denotes m.value s) ∨ SmallInteger m.value)) ∨ ∀ m ∈ ms, ¬Named m key

/- Every name can be read: it has no colon, or what stands before its first colon ends, spaces
apart, in a quote. And no name that does not stand for the key is read as the key. -/
def Readable (ms : List Member) (key : String) : Prop :=
  (∀ m ∈ ms, (cutName (literal m.name)).isSome) ∧
    ((∀ m ∈ ms, ¬Named m key) → ∀ m ∈ ms, cutName (literal m.name) ≠ some key.toList)

variable {ms : List Member} {body : Text} {key : String}

theorem cutUnescaped {m n : Member} (formed : m.WellFormed) (formed' : n.WellFormed) (unescaped : Unescaped m key)
    (cut : cutName (literal n.name) = some key.toList) : n.name = m.name ∧ ':' ∉ literal n.name := by
  have plain : ∀ c ∈ key.toList, c ≠ '"' ∧ c ≠ '\\' := by
    intro c member
    have piece := formed.name (.plain c) (by rw [unescaped]; exact List.mem_map_of_mem member)
    exact ⟨piece.1,piece.2.1⟩
  unfold cutName at cut
  split at cut
  · -- Behind the key a quote follows, which a backslash in the key would have to escape.
    rename_i colon
    unfold stripSuffix at cut
    split at cut
    · rename_i quote
      obtain ⟨before,form⟩ := List.getLast?_eq_some_iff.mp quote
      rw [form,List.dropLast_concat] at cut
      cases Option.some.inj cut
      obtain ⟨spaces,whole⟩ := List.rdropWhile_prefix (p := isWhitespace) (l := (literal n.name).takeWhile (· ≠ ':'))
      obtain ⟨rest,all⟩ := List.takeWhile_prefix (p := (· ≠ ':')) (l := literal n.name)
      have same : literal n.name = key.toList ++ '"'::(spaces ++ rest) := by
        rw [← all,← whole,form]
        simp
      exact absurd (quoteEscaped formed'.name same) (fun member => (plain _ member).2 rfl)
    · simp at cut
  · rename_i colon
    have same : literal n.name ++ ['"'] = literal m.name ++ ['"'] := by
      rw [Option.some.inj cut,unescaped,literalPlain]
    exact ⟨(literalApart (fun p member => (formed'.name p member).separable)
      (fun p member => (formed.name p member).separable) same).1,colon⟩

theorem cutPlain {m : Member} (unescaped : Unescaped m key) (cut : (cutName (literal m.name)).isSome)
    (formed : m.WellFormed) : cutName (literal m.name) = some key.toList := by
  unfold cutName at cut ⊢
  have name : literal m.name = key.toList := by rw [unescaped,literalPlain]
  split
  · rename_i colon
    rw [if_pos colon] at cut
    obtain ⟨t,cut⟩ := Option.isSome_iff_exists.mp cut
    unfold stripSuffix at cut
    split at cut
    · rename_i quote
      have member := List.mem_of_getLast? quote
      have inside := (List.takeWhile_prefix (· ≠ ':')).subset ((List.rdropWhile_prefix isWhitespace _).subset member)
      rw [name] at inside
      have piece := formed.name (.plain '"') (by rw [unescaped]; exact List.mem_map_of_mem inside)
      exact absurd rfl piece.1
    · simp at cut
  · rw [name]

theorem rawFound {pairs} (key : String) (object : IsObject ms body) (ok : splitTopLevelMembers body = .ok pairs) :
    List.Forall₂ ReadAs ms pairs ∧
      rawMember body key = .ok ((pairs.find? (fun pair => pair.1 = key.toList)).map Prod.snd) := by
  obtain ⟨split,formed⟩ := splitObject object
  refine ⟨(readsMembers formed).1 pairs (split ▸ ok),?_⟩
  unfold rawMember
  rw [ok]
  rfl

theorem rawUnescaped (object : IsObject ms body) (distinct : DistinctNames ms)
    (cut : ∀ m ∈ ms, (cutName (literal m.name)).isSome) {m : Member} (member : m ∈ ms) (unescaped : Unescaped m key) :
    rawMember body key = .ok (some m.value) := by
  obtain ⟨split,formed⟩ := splitObject object
  obtain ⟨pairs,read⟩ := (readsMembers formed).2 cut
  obtain ⟨shown,raw⟩ := rawFound key object (split.trans read)
  have only : ∀ n ∈ ms, cutName (literal n.name) = some key.toList → ':' ∉ literal n.name ∧ n.value = m.value := by
    intro n other same
    obtain ⟨name,colon⟩ := cutUnescaped (formed m member) (formed n other) unescaped same
    have equal := List.inj_on_of_nodup_map distinct other member (by rw [name])
    exact ⟨colon,by rw [equal]⟩
  rw [raw,foundPair shown only ⟨m,member,cutPlain unescaped (cut m member) (formed m member)⟩]

theorem extractNumber {v : Text} (raw : rawMember body key = .ok (some v)) (small : SmallInteger v) :
    extractNumberMember body key = .ok (some (UInt64.ofNat (decimal v))) := by
  have digits : v.any (fun c => !c.isDigit) = false := by
    simp only [List.any_eq_false,Bool.not_eq_true',Bool.not_eq_false]
    exact small.1.1.2
  unfold extractNumberMember
  rw [raw]
  simp only [bind,Except.bind,digits,small.1.1.1,Bool.false_or,decide_false,Bool.false_eq_true,if_false,if_pos small.2,
    pure,Except.pure]

theorem extractString {v : Text} {s} (raw : rawMember body key = .ok (some v)) (denotes : Denotes v s) :
    extractStringMember body key = .ok (some s) := by
  obtain ⟨pieces,formed,rfl,paired⟩ := denotes
  have lenient : ∀ p ∈ pieces, Lenient p := fun p member => formedLenient (formed p member)
  have decoded : decodePieces [] none pieces = some ([] ++ s.toList) := decodesPaired paired
  rw [extractRaw raw,quotedPrefix,Option.bind_some,decodeLiteral lenient,decoded]
  simp

theorem extractAbsent (raw : rawMember body key = .ok none) :
    extractStringMember body key = .ok none ∧ extractNumberMember body key = .ok none := by
  unfold extractStringMember extractNumberMember
  rw [raw]
  exact ⟨rfl,rfl⟩

theorem rawSplit {raw} (ok : rawMember body key = .ok raw) : ∃ pairs, splitTopLevelMembers body = .ok pairs := by
  obtain ⟨pairs,split,_⟩ := bindOk.mp ok
  exact ⟨pairs,split⟩

theorem stringRaw {result} (ok : extractStringMember body key = .ok result) : ∃ raw, rawMember body key = .ok raw := by
  obtain ⟨raw,read,_⟩ := bindOk.mp ok
  exact ⟨raw,read⟩

theorem numberRaw {result} (ok : extractNumberMember body key = .ok result) : ∃ raw, rawMember body key = .ok raw := by
  obtain ⟨raw,read,_⟩ := bindOk.mp ok
  exact ⟨raw,read⟩

theorem owedRaw (complete : Complete ms body key) (owed : Owed ms key) : ∃ raw, rawMember body key = .ok raw := by
  obtain ⟨m,member,unescaped,⟨s,denotes⟩ | small⟩ | none := owed
  · exact stringRaw (complete.string m member unescaped s denotes)
  · exact numberRaw (complete.number m member unescaped small)
  · exact stringRaw (complete.absent none).1

/-- Extraction from an object with distinct names is complete under a key exactly where it
owes nothing or every name can be read and none is read as the key for another. -/
theorem memberExtractionExactly (object : IsObject ms body) (distinct : DistinctNames ms) (key : String) :
    Complete ms body key ↔ (Owed ms key → Readable ms key) := by
  constructor
  · intro complete owed
    obtain ⟨raw,read⟩ := owedRaw complete owed
    obtain ⟨pairs,split⟩ := rawSplit read
    obtain ⟨shown,found⟩ := rawFound key object split
    refine ⟨readNames shown,?_⟩
    intro none
    have extracted := (complete.absent none).1
    cases first : (pairs.find? (fun pair => pair.1 = key.toList)).map Prod.snd with
    | none => exact (foundNone shown).mp first
    | some v =>
      rw [first] at found
      rw [extractRaw found] at extracted
      split at extracted <;> simp [malformed] at extracted
  · intro readable
    refine ⟨?_,?_,?_⟩
    · intro m member unescaped s denotes
      have names := (readable (.inl ⟨m,member,unescaped,.inl ⟨s,denotes⟩⟩)).1
      exact extractString (rawUnescaped object distinct names member unescaped) denotes
    · intro m member unescaped small
      have names := (readable (.inl ⟨m,member,unescaped,.inr small⟩)).1
      exact extractNumber (rawUnescaped object distinct names member unescaped) small
    · intro none
      obtain ⟨names,others⟩ := readable (.inr none)
      obtain ⟨split,formed⟩ := splitObject object
      obtain ⟨pairs,read⟩ := (readsMembers formed).2 names
      obtain ⟨shown,found⟩ := rawFound key object (split.trans read)
      rw [(foundNone shown).mpr (others none)] at found
      exact extractAbsent found

end Extraction

section Sample

def plainMember (name : String) (value : Text) : Member := ⟨[],name.toList.map .plain,[],[' '],value,[]⟩

def objectText (ms : List Member) : Text := '{'::(joined ms ++ ['}'])

def sampleMembers : List Member :=
  [plainMember "token_type" (quoted [.plain 'b']),plainMember "access_token" (quoted [.plain 'x',.unicode '0' '0' 'e' '9'])]

/- A member that a provider may add, with a colon in its name. -/
def colonMembers : List Member := plainMember "x:trace" ['1']::sampleMembers

theorem sampleValues : ∀ m ∈ colonMembers, m.WellFormed := by
  have blanks : ∀ m ∈ colonMembers, Blank m.before ∧ Blank m.between ∧ Blank m.gap ∧ Blank m.after := by decide +kernel
  have names : ∀ m ∈ colonMembers, ∀ p ∈ m.name, p.WellFormed := by decide +kernel
  have values : ∀ m ∈ colonMembers, Derives .value m.value := by
    have text : ∀ p ∈ ([.plain 'b'] : List Piece), p.WellFormed := by decide
    have token : ∀ p ∈ ([.plain 'x',.unicode '0' '0' 'e' '9'] : List Piece), p.WellFormed := by decide
    have one : IsNumber ['1'] := .mk (.inl rfl) (by decide : IsInteger ['1']) .absent .absent
    simp only [colonMembers,sampleMembers,List.forall_mem_cons]
    exact ⟨.number one,.string ⟨_,text,rfl⟩,.string ⟨_,token,rfl⟩,by simp⟩
  intro m member
  obtain ⟨before,between,gap,after⟩ := blanks m member
  exact ⟨before,names m member,between,gap,values m member,after⟩

theorem memberExtractionAtToken : Complete sampleMembers (objectText sampleMembers) "access_token" := by
  have formed : ∀ m ∈ sampleMembers, m.WellFormed := fun m member => sampleValues m (List.mem_cons_of_mem _ member)
  have object : IsObject sampleMembers (objectText sampleMembers) := .members (w := []) (by decide) formed (by decide)
  have names : ∀ m ∈ sampleMembers, (cutName (literal m.name)).isSome := by decide +kernel
  have named : ∃ m ∈ sampleMembers, units m.name = "access_token".toList.flatMap charUnits := by decide +kernel
  refine (memberExtractionExactly object (by unfold DistinctNames; decide +kernel) "access_token").mpr ?_
  refine fun _ => ⟨names,?_⟩
  intro none
  obtain ⟨m,member,same⟩ := named
  exact absurd same (none m member)

/-- One member with a colon in its name, and the token beside it cannot be read. -/
theorem colonNameRefused : IsObject colonMembers (objectText colonMembers) ∧ DistinctNames colonMembers ∧
    extractStringMember (objectText colonMembers) "access_token" = .error .malformedProviderResponse ∧
      ¬Complete colonMembers (objectText colonMembers) "access_token" := by
  have refused : extractStringMember (objectText colonMembers) "access_token" = .error .malformedProviderResponse := by
    decide +kernel
  refine ⟨.members (w := []) (by decide) sampleValues (by decide),by unfold DistinctNames; decide +kernel,refused,?_⟩
  intro complete
  have member : plainMember "access_token" (quoted [.plain 'x',.unicode '0' '0' 'e' '9']) ∈ colonMembers := by
    simp [colonMembers,sampleMembers]
  have token : ∀ p ∈ ([.plain 'x',.unicode '0' '0' 'e' '9'] : List Piece), p.WellFormed := by decide
  have extracted := complete.string _ member rfl "xé" ⟨_,token,rfl,by decide +kernel⟩
  rw [refused] at extracted
  simp at extracted

end Sample
end RatatoskrX.MemberExtraction
