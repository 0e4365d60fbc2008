import RatatoskrX.LegacyImport

/-! The comma-separated text of the monolith's bookmarks, over its characters. A quoted field
may hold anything, and a quote that is left open at the end of the text is refused. -/
namespace RatatoskrX.LegacyCsv
open LegacyImport

structure CsvState where
  rows : List (List (List Char))
  row : List (List Char)
  field : List Char
  quoted : Bool
  justClosedQuote : Bool
  deriving DecidableEq, Repr

/- The loop over the characters, which looks one character ahead. -/
def readCsv : List Char → CsvState → Except LegacyTransitionError CsvState
  | [],s => .ok s
  | character::rest,s =>
    if s.quoted then
      if character = '"' then
        match rest with
        | [] => .ok {s with quoted := false, justClosedQuote := true}
        | next::later =>
          if next = '"' then readCsv later {s with field := s.field ++ ['"']}
          else readCsv (next::later) {s with quoted := false, justClosedQuote := true}
      else readCsv rest {s with field := s.field ++ [character]}
    else if character = '"' ∧ s.field = [] ∧ s.justClosedQuote = false then readCsv rest {s with quoted := true}
    else if character = ',' then readCsv rest {s with row := s.row ++ [s.field], field := [], justClosedQuote := false}
    else if character = '\n' then
      let field := if s.field.getLast? = some '\r' ∧ s.justClosedQuote = false then s.field.dropLast else s.field
      readCsv rest {s with rows := s.rows ++ [s.row ++ [field]], row := [], field := [], justClosedQuote := false}
    else if character = '\r' ∧ rest.head? = some '\n' then readCsv rest s
    else if s.justClosedQuote then .error .invalidEncoding
    else readCsv rest {s with field := s.field ++ [character]}

def parseCsv (source : List Char) : Except LegacyTransitionError (List (List (List Char))) := do
  let s ← readCsv source ⟨[],[],[],false,false⟩
  if s.quoted then .error .invalidEncoding
  else if s.field ≠ [] ∨ s.row ≠ [] then .ok (s.rows ++ [s.row ++ [s.field]])
  else .ok s.rows

def doubled : List Char → List Char
  | [] => []
  | c::rest => if c = '"' then '"'::( '"'::doubled rest) else c::doubled rest

/- The characters that make a field need quotes. -/
def Special (c : Char) : Prop := c = ',' ∨ c = '"' ∨ c = '\r' ∨ c = '\n'

/- A field as it may be written. -/
inductive FieldText : List Char → List Char → Prop where
  | quoted (field) : FieldText field ('"'::(doubled field ++ ['"']))
  | bare {field} (plain : ∀ c ∈ field, ¬Special c) : FieldText field field

inductive LineEnd : List Char → Prop where
  | lf : LineEnd ['\n']
  | crlf : LineEnd ['\r','\n']

inductive RowText : List (List Char) → List Char → Prop where
  | last {field text ending} (written : FieldText field text) (ends : LineEnd ending) : RowText [field] (text ++ ending)
  | more {field text row rest} (written : FieldText field text) (others : RowText row rest) :
      RowText (field::row) (text ++ ','::rest)

inductive RowsText : List (List (List Char)) → List Char → Prop where
  | nil : RowsText [] []
  | cons {row text rows rest} (written : RowText row text) (others : RowsText rows rest) : RowsText (row::rows) (text ++ rest)

/- A row at the end of a text, without an end of its line. -/
inductive UnendedRow : List (List Char) → List Char → Prop where
  | last {field text} (written : FieldText field text) : UnendedRow [field] text
  | more {field text row rest} (written : FieldText field text) (others : UnendedRow row rest) :
      UnendedRow (field::row) (text ++ ','::rest)

/- The text of a file, whose last row may be unended. A row of one empty field is not told from no row then. -/
inductive FileText : List (List (List Char)) → List Char → Prop where
  | ended {rows text} (written : RowsText rows text) : FileText rows text
  | unended {rows text row rest} (written : RowsText rows text) (others : UnendedRow row rest) (told : row ≠ [[]]) :
      FileText (rows ++ [row]) (text ++ rest)

/- A text that comes to the start of a field outside quotes. What stands behind a closing
quote, up to the separator, belongs to no field. -/
inductive FieldStart : List Char → Prop where
  | nil : FieldStart []
  | bare {before field separator} (start : FieldStart before) (inner : ∀ c ∈ field, c ≠ ',' ∧ c ≠ '\n')
      (opens : field.head? ≠ some '"') (ends : separator = ',' ∨ separator = '\n') : FieldStart (before ++ (field ++ [separator]))
  | quoted {before content field separator} (start : FieldStart before) (inner : ∀ c ∈ field, c ≠ ',' ∧ c ≠ '\n')
      (opens : field.head? ≠ some '"') (ends : separator = ',' ∨ separator = '\n') :
      FieldStart (before ++ '"'::(doubled content ++ '"'::(field ++ [separator])))

/- The text ends inside a quote that was opened and not closed. -/
def OpenQuote (text : List Char) : Prop := ∃ before content, FieldStart before ∧ text = before ++ '"'::doubled content

section Loop
variable {rows : List (List (List Char))} {row : List (List Char)} {field rest : List Char} {closed : Bool}

theorem insideQuotes {c : Char} (other : c ≠ '"') :
    readCsv (c::rest) ⟨rows,row,field,true,closed⟩ = readCsv rest ⟨rows,row,field ++ [c],true,closed⟩ := by
  cases rest <;> simp [readCsv,other]

theorem closingQuote (ends : rest.head? ≠ some '"') :
    readCsv ('"'::rest) ⟨rows,row,field,true,closed⟩ = readCsv rest ⟨rows,row,field,false,true⟩ := by
  cases rest with
  | nil => simp [readCsv]
  | cons c later =>
    have other : c ≠ '"' := by simpa using ends
    rw [readCsv]
    simp [other]

theorem quotedRun (content : List Char) :
    readCsv (doubled content ++ rest) ⟨rows,row,field,true,closed⟩ = readCsv rest ⟨rows,row,field ++ content,true,closed⟩ := by
  induction content generalizing field with
  | nil => simp [doubled]
  | cons c content ih =>
    by_cases quote : c = '"'
    · rw [doubled,if_pos quote,List.cons_append,List.cons_append,readCsv,quote]
      simp [ih]
    · rw [doubled,if_neg quote,List.cons_append,insideQuotes quote,ih,List.append_assoc,List.singleton_append]

theorem readOutside {c : Char} : readCsv (c::rest) ⟨rows,row,field,false,closed⟩ =
    if c = '"' ∧ field = [] ∧ closed = false then readCsv rest ⟨rows,row,field,true,closed⟩
    else if c = ',' then readCsv rest ⟨rows,row ++ [field],[],false,false⟩
    else if c = '\n' then
      readCsv rest ⟨rows ++ [row ++ [if field.getLast? = some '\r' ∧ closed = false then field.dropLast else field]],[],[],false,false⟩
    else if c = '\r' ∧ rest.head? = some '\n' then readCsv rest ⟨rows,row,field,false,closed⟩
    else if closed then .error .invalidEncoding
    else readCsv rest ⟨rows,row,field ++ [c],false,closed⟩ := by
  cases rest <;> rfl

theorem openingQuote : readCsv ('"'::rest) ⟨rows,row,[],false,false⟩ = readCsv rest ⟨rows,row,[],true,false⟩ := by
  rw [readOutside,if_pos (by simp)]

theorem fieldEnd : readCsv (','::rest) ⟨rows,row,field,false,closed⟩ = readCsv rest ⟨rows,row ++ [field],[],false,false⟩ := by
  rw [readOutside,if_neg (by simp),if_pos rfl]

theorem lineEnd (plain : ¬(field.getLast? = some '\r' ∧ closed = false)) :
    readCsv ('\n'::rest) ⟨rows,row,field,false,closed⟩ = readCsv rest ⟨rows ++ [row ++ [field]],[],[],false,false⟩ := by
  rw [readOutside,if_neg (by simp),if_neg (by simp),if_pos rfl,if_neg plain]

theorem returnSkipped : readCsv ('\r'::( '\n'::rest)) ⟨rows,row,field,false,closed⟩ =
    readCsv ('\n'::rest) ⟨rows,row,field,false,closed⟩ := by
  rw [readOutside,if_neg (by simp),if_neg (by simp),if_neg (by simp),if_pos (by simp)]

theorem outsideQuotes {c : Char} (inner : c ≠ ',' ∧ c ≠ '\n') (quote : ¬(c = '"' ∧ field = []))
    (kept : ¬(c = '\r' ∧ rest.head? = some '\n')) :
    readCsv (c::rest) ⟨rows,row,field,false,false⟩ = readCsv rest ⟨rows,row,field ++ [c],false,false⟩ := by
  rw [readOutside,if_neg (fun open_ => quote ⟨open_.1,open_.2.1⟩),if_neg inner.1,if_neg inner.2,if_neg kept,if_neg (by simp)]

theorem bareRun {content : List Char} (plain : ∀ c ∈ content, ¬Special c) :
    readCsv (content ++ rest) ⟨rows,row,field,false,false⟩ = readCsv rest ⟨rows,row,field ++ content,false,false⟩ := by
  induction content generalizing field with
  | nil => simp
  | cons c content ih =>
    have first := plain c List.mem_cons_self
    simp only [Special,not_or] at first
    obtain ⟨comma,quote,cr,lf⟩ := first
    rw [List.cons_append,outsideQuotes ⟨comma,lf⟩ (fun both => quote both.1) (fun both => cr both.1),
      ih (fun d member => plain d (List.mem_cons_of_mem c member)),List.append_assoc,List.singleton_append]

end Loop

section Written
variable {rows : List (List (List Char))} {row : List (List Char)} {field text rest : List Char}

theorem fieldRead (written : FieldText field text) (ends : rest.head? ≠ some '"') :
    ∃ closed, readCsv (text ++ rest) ⟨rows,row,[],false,false⟩ = readCsv rest ⟨rows,row,field,false,closed⟩ ∧
      ¬(field.getLast? = some '\r' ∧ closed = false) := by
  cases written with
  | quoted =>
    refine ⟨true,?_,by simp⟩
    rw [List.cons_append,openingQuote,List.append_assoc,quotedRun,List.nil_append,List.singleton_append,closingQuote ends]
  | bare plain =>
    refine ⟨false,?_,?_⟩
    · rw [bareRun plain,List.nil_append]
    · rintro ⟨last,-⟩
      exact plain '\r' (List.mem_of_getLast? last) (.inr (.inr (.inl rfl)))

theorem endingRead {ending : List Char} {closed : Bool} (ends : LineEnd ending) (plain : ¬(field.getLast? = some '\r' ∧ closed = false)) :
    readCsv (ending ++ rest) ⟨rows,row,field,false,closed⟩ = readCsv rest ⟨rows ++ [row ++ [field]],[],[],false,false⟩ := by
  cases ends with
  | lf => exact lineEnd plain
  | crlf =>
    rw [List.cons_append,List.cons_append,List.nil_append,returnSkipped]
    exact lineEnd plain

theorem endingHead {ending : List Char} (ends : LineEnd ending) : (ending ++ rest).head? ≠ some '"' := by
  cases ends <;> simp

theorem rowRead {fields : List (List Char)} (written : RowText fields text) :
    readCsv (text ++ rest) ⟨rows,row,[],false,false⟩ = readCsv rest ⟨rows ++ [row ++ fields],[],[],false,false⟩ := by
  induction written generalizing row with
  | last written ends =>
    obtain ⟨closed,read,plain⟩ := fieldRead written (endingHead ends)
    rw [List.append_assoc,read,endingRead ends plain]
  | @more field text fields others written _ ih =>
    have separated : (','::(others ++ rest)).head? ≠ some '"' := by simp
    obtain ⟨closed,read,-⟩ := fieldRead written separated
    rw [List.append_assoc,List.cons_append,read,fieldEnd,ih,List.append_assoc,List.singleton_append]

theorem rowsBefore {more : List (List (List Char))} (written : RowsText more text) :
    readCsv (text ++ rest) ⟨rows,[],[],false,false⟩ = readCsv rest ⟨rows ++ more,[],[],false,false⟩ := by
  induction written generalizing rows with
  | nil => simp
  | cons written others ih =>
    rw [List.append_assoc,rowRead written,ih,List.nil_append,List.append_assoc,List.singleton_append]

theorem rowsRead {more : List (List (List Char))} (written : RowsText more text) :
    readCsv text ⟨rows,[],[],false,false⟩ = .ok ⟨rows ++ more,[],[],false,false⟩ := by
  have read := @rowsBefore rows text [] more written
  rwa [List.append_nil] at read

theorem unendedRead {fields : List (List Char)} (written : UnendedRow fields text) :
    ∃ before last closed, fields = before ++ [last] ∧
      readCsv text ⟨rows,row,[],false,false⟩ = .ok ⟨rows,row ++ before,last,false,closed⟩ := by
  induction written generalizing row with
  | @last field text written =>
    obtain ⟨closed,read,-⟩ := @fieldRead rows row field text [] written (by simp)
    exact ⟨[],field,closed,rfl,by rw [← List.append_nil text,read,List.append_nil]; rfl⟩
  | @more field text fields others written _ ih =>
    have separated : (','::others).head? ≠ some '"' := by simp
    obtain ⟨closed,read,-⟩ := fieldRead written separated
    obtain ⟨before,last,closed',rfl,reads⟩ := ih
    exact ⟨field::before,last,closed',rfl,by rw [read,fieldEnd,reads,List.append_assoc,List.singleton_append]⟩

theorem parseFile {file : List (List (List Char))} (written : FileText file text) : parseCsv text = .ok file := by
  unfold parseCsv
  cases written with
  | ended written =>
    rw [rowsRead written]
    rfl
  | @unended rows text fields rest written others told =>
    obtain ⟨before,last,closed,rfl,read⟩ := @unendedRead rows [] rest fields others
    have some_ : last ≠ [] ∨ before ≠ [] := by
      by_contra none
      simp only [not_or,not_not] at none
      exact told (by rw [none.1,none.2]; rfl)
    rw [rowsBefore written,List.nil_append,read,List.nil_append]
    exact if_pos some_

end Written

section Open
variable {rows : List (List (List Char))} {row : List (List Char)} {field more rest : List Char} {separator : Char}

theorem separatorRead {closed : Bool} (ends : separator = ',' ∨ separator = '\n') :
    ∃ rows' row', readCsv (separator::rest) ⟨rows,row,field,false,closed⟩ = readCsv rest ⟨rows',row',[],false,false⟩ := by
  obtain rfl | rfl := ends
  · exact ⟨_,_,fieldEnd⟩
  · exact ⟨_,_,by rw [readOutside,if_neg (by simp),if_neg (by simp),if_pos rfl]⟩

theorem returnLast {c : Char} (inner : ∀ d ∈ more, d ≠ ',' ∧ d ≠ '\n')
    (skipped : c = '\r' ∧ (more ++ separator::rest).head? = some '\n') : more = [] := by
  cases more with
  | nil => rfl
  | cons d more =>
    have next : d = '\n' := Option.some.inj skipped.2
    exact absurd next (inner d List.mem_cons_self).2

theorem bareInner (inner : ∀ c ∈ more, c ≠ ',' ∧ c ≠ '\n') (opens : field ≠ [] ∨ more.head? ≠ some '"') :
    ∃ field', readCsv (more ++ separator::rest) ⟨rows,row,field,false,false⟩ =
      readCsv (separator::rest) ⟨rows,row,field',false,false⟩ := by
  induction more generalizing field with
  | nil => exact ⟨field,rfl⟩
  | cons c more ih =>
    obtain ⟨first,others⟩ := List.forall_mem_cons.mp inner
    have quote : ¬(c = '"' ∧ field = []) := by
      rintro ⟨rfl,rfl⟩
      simp at opens
    by_cases skipped : c = '\r' ∧ (more ++ separator::rest).head? = some '\n'
    · cases returnLast others skipped
      refine ⟨field,?_⟩
      rw [List.cons_append,readOutside,if_neg (fun open_ => quote ⟨open_.1,open_.2.1⟩),if_neg first.1,if_neg first.2,if_pos skipped]
      rfl
    · rw [List.cons_append,outsideQuotes first quote skipped]
      exact ih others (.inl (by simp))

theorem closedInner (inner : ∀ c ∈ more, c ≠ ',' ∧ c ≠ '\n') :
    readCsv (more ++ separator::rest) ⟨rows,row,field,false,true⟩ = .error .invalidEncoding ∨
      readCsv (more ++ separator::rest) ⟨rows,row,field,false,true⟩ = readCsv (separator::rest) ⟨rows,row,field,false,true⟩ := by
  cases more with
  | nil => exact .inr rfl
  | cons c more =>
    obtain ⟨first,others⟩ := List.forall_mem_cons.mp inner
    rw [List.cons_append,readOutside,if_neg (by simp),if_neg first.1,if_neg first.2]
    by_cases skipped : c = '\r' ∧ (more ++ separator::rest).head? = some '\n'
    · cases returnLast others skipped
      exact .inr (if_pos skipped)
    · exact .inl (by rw [if_neg skipped,if_pos rfl])

theorem startRead {before : List Char} (start : FieldStart before) (rest : List Char) :
    readCsv (before ++ rest) ⟨[],[],[],false,false⟩ = .error .invalidEncoding ∨
      ∃ rows row, readCsv (before ++ rest) ⟨[],[],[],false,false⟩ = readCsv rest ⟨rows,row,[],false,false⟩ := by
  induction start generalizing rest with
  | nil => exact .inr ⟨[],[],rfl⟩
  | @bare before field separator _ inner opens ends ih =>
    rw [List.append_assoc,List.append_assoc,List.singleton_append]
    obtain refused | ⟨rows,row,read⟩ := ih (field ++ separator::rest)
    · exact .inl refused
    · obtain ⟨field',run⟩ := @bareInner rows row [] field rest separator inner (.inr opens)
      rw [read,run]
      exact .inr (separatorRead ends)
  | @quoted before content field separator _ inner opens ends ih =>
    simp only [List.append_assoc,List.cons_append,List.nil_append]
    obtain refused | ⟨rows,row,read⟩ := ih ('"'::(doubled content ++ '"'::(field ++ separator::rest)))
    · exact .inl refused
    · have next : (field ++ separator::rest).head? ≠ some '"' := by
        cases field with
        | nil => obtain rfl | rfl := ends <;> simp
        | cons c field => exact opens
      rw [read,openingQuote,quotedRun,List.nil_append,closingQuote next]
      obtain refused | run := @closedInner rows row content field rest separator inner
      · exact .inl refused
      · rw [run]
        exact .inr (separatorRead ends)

theorem openRefused {text : List Char} (opened : OpenQuote text) : parseCsv text = .error .invalidEncoding := by
  obtain ⟨before,content,start,rfl⟩ := opened
  unfold parseCsv
  obtain refused | ⟨rows,row,read⟩ := startRead start ('"'::doubled content)
  · rw [refused]
    rfl
  · have run := @quotedRun rows row [] [] false content
    rw [List.append_nil] at run
    rw [read,openingQuote,run]
    rfl

end Open

/-- The parser reads back whatever rows were written, however their fields are quoted and
their lines end, and refuses every text that ends inside a quote. -/
theorem csvReadsBack : (∀ rows text, RowsText rows text → parseCsv text = .ok rows) ∧
    ∀ text, OpenQuote text → parseCsv text = .error .invalidEncoding := by
  exact ⟨fun _ _ written => parseFile (.ended written),fun _ => openRefused⟩

/- A row with a separator, a quote and a return inside quotes, and one with an empty field. -/
def quotedRows : List (List (List Char)) := [["a,\"".toList,"b\r".toList],[[]]]

def quotedText : List Char := "\"a,\"\"\",\"b\r\"\r\n\n".toList

theorem csvReadsBackQuoted : parseCsv quotedText = .ok quotedRows ∧ parseCsv "a\n\"b\"\"".toList = .error .invalidEncoding := by
  have first : RowText ["a,\"".toList,"b\r".toList] "\"a,\"\"\",\"b\r\"\r\n".toList :=
    .more (.quoted "a,\"".toList) (.last (.quoted "b\r".toList) .crlf)
  have second : RowText [[]] "\n".toList := .last (.bare (by simp)) .lf
  have started : FieldStart "a\n".toList := @FieldStart.bare [] "a".toList '\n' .nil (by simp) (by simp) (.inr rfl)
  exact ⟨csvReadsBack.1 _ _ (.cons first (.cons second .nil)),csvReadsBack.2 _ ⟨_,"b\"".toList,started,by decide⟩⟩

end RatatoskrX.LegacyCsv
