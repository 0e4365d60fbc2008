import Mathlib.Data.List.Infix
import Mathlib.Data.List.Nodup
import Mathlib.Data.List.Perm.Basic
import RatatoskrX.Schema

/-! The command line of the legacy transition: the grammar of an invocation, and the parser
that accepts its sentences and nothing else. -/
namespace RatatoskrX.TransitionCli
open Schema

/- An argument as the system hands it over. -/
abbrev OsString := List UInt8

abbrev Fields := List (String × OsString)

inductive TransitionCommand where | preflight | import_ | shadowReport | checklist | recordApproval
  deriving DecidableEq, Repr

inductive SourceArgumentKind where | monolithCsv | fieldTheoryJsonl | fieldTheorySqlite
  deriving DecidableEq, Repr

inductive TransitionInvocation where
  | preflight (sourceKind : SourceArgumentKind) (sourcePath : OsString)
  | import_ (sourceKind : SourceArgumentKind) (sourcePath : OsString) (accountId internalOwnerId : Uuid)
      (ownershipApprovalDigest : String)
  | shadowReport (accountId importRunId snapshotId : Uuid) (output : Option OsString)
  | checklist (accountId shadowReportId : Uuid) (output : Option OsString)
  | recordApproval (accountId internalOwnerId shadowReportId : Uuid)
      (checklistDigest ownerEvidenceDigest decision : String)
  deriving DecidableEq, Repr

inductive TransitionCliError where
  | missingCommand
  | unsupportedCommand
  | forbiddenArgument (name : String)
  | missingArgument (name : String)
  | invalidArgument (name : String)
  | unsupportedArgument
  deriving DecidableEq, Repr

section Words

def toStr (value : OsString) : Option String := String.fromUTF8? ⟨value.toArray⟩

def flagged (value : String) : Bool := "--".toList.isPrefixOf value.toList

def forbidden : List String :=
  ["token","cookie","session","password","secret","authorization","bearer","credential"]

def forbiddenArgumentName (name : String) : Bool :=
  let normalized := (name.toList.filter Char.isAlphanum).map Char.toLower
  forbidden.any (fun word => decide (word.toList <:+: normalized))

def parseCommand (command : OsString) : Except TransitionCliError TransitionCommand :=
  if command = [] then .error .missingCommand
  else match toStr command with
    | some "preflight" => .ok .preflight
    | some "import" => .ok .import_
    | some "shadow-report" => .ok .shadowReport
    | some "checklist" => .ok .checklist
    | some "record-approval" => .ok .recordApproval
    | _ => .error .unsupportedCommand

def sourceKind : String → Option SourceArgumentKind
  | "monolith-csv" => some .monolithCsv
  | "field-theory-jsonl" => some .fieldTheoryJsonl
  | "field-theory-sqlite" => some .fieldTheorySqlite
  | _ => none

def hexdigit (c : Char) : Bool := c.isDigit || ('a' ≤ c && c ≤ 'f') || ('A' ≤ c && c ≤ 'F')

def digest (value : String) : Option String :=
  if value.utf8ByteSize = 64 && value.toList.all (fun c => hexdigit c && !c.isUpper) then some value else none

def decision (value : String) : Option String := if value = "approved" ∨ value = "rejected" then some value else none

end Words

section Taking

abbrev Take (α : Type) := StateT Fields (Except TransitionCliError) α

def without (fields : Fields) (name : String) : Fields := fields.filter (fun field => field.1 ≠ name)

def take {α : Type} (name : String) (reads : OsString → Option α) : Take α := fun fields =>
  match fields.lookup name with
  | none => .error (.missingArgument name)
  | some value => match reads value with
    | none => .error (.invalidArgument name)
    | some a => .ok (a,without fields name)

def takeSourceKind : Take SourceArgumentKind := take "--source-kind" (fun value => (toStr value).bind sourceKind)

def takeUuid (uuid : String → Option Uuid) (name : String) : Take Uuid := take name (fun value => (toStr value).bind uuid)

def takeDigest (name : String) : Take String := take name (fun value => (toStr value).bind digest)

def takeDecision : Take String := take "--decision" (fun value => (toStr value).bind decision)

def takePath (name : String) : Take OsString := take name some

def takeOptionalPath (name : String) : Take (Option OsString) := fun fields => .ok (fields.lookup name,without fields name)

end Taking

section Parsing
variable (uuid : String → Option Uuid)

def parseFields : List OsString → Fields → Except TransitionCliError Fields
  | [],fields => .ok fields
  | spelled::rest,fields => match (toStr spelled).filter flagged with
    | none => .error .unsupportedArgument
    | some name => match rest with
      | [] => .error .unsupportedArgument
      | value::rest =>
        if name ∈ fields.map Prod.fst then .error .unsupportedArgument else parseFields rest (fields ++ [(name,value)])

def takeInvocation : TransitionCommand → Take TransitionInvocation
  | .preflight => do return .preflight (← takeSourceKind) (← takePath "--source")
  | .import_ => do
    return .import_ (← takeSourceKind) (← takePath "--source") (← takeUuid uuid "--account-id")
      (← takeUuid uuid "--internal-owner-id") (← takeDigest "--ownership-approval-digest")
  | .shadowReport => do
    return .shadowReport (← takeUuid uuid "--account-id") (← takeUuid uuid "--import-run-id")
      (← takeUuid uuid "--snapshot-id") (← takeOptionalPath "--output")
  | .checklist => do
    return .checklist (← takeUuid uuid "--account-id") (← takeUuid uuid "--shadow-report-id") (← takeOptionalPath "--output")
  | .recordApproval => do
    return .recordApproval (← takeUuid uuid "--account-id") (← takeUuid uuid "--internal-owner-id")
      (← takeUuid uuid "--shadow-report-id") (← takeDigest "--checklist-digest") (← takeDigest "--owner-evidence-digest")
      (← takeDecision)

def parseArguments (arguments : List OsString) : Except TransitionCliError TransitionInvocation :=
  match (arguments.filterMap toStr).find? (fun name => flagged name && forbiddenArgumentName name) with
  | some name => .error (.forbiddenArgument name)
  | none => match arguments with
    | [] => .error .missingCommand
    | command::remaining => match parseCommand command with
      | .error error => .error error
      | .ok command => match parseFields remaining [] with
        | .error error => .error error
        | .ok fields => match takeInvocation uuid command fields with
          | .error error => .error error
          | .ok (invocation,rest) => if rest = [] then .ok invocation else .error .unsupportedArgument

end Parsing
section Grammar

inductive Written : Fields → List OsString → Prop where
  | nil : Written [] []
  | cons {name spelled value fields rest} (reads : toStr spelled = some name) (later : Written fields rest) :
      Written ((name,value)::fields) (spelled::value::rest)

def TransitionCommand.name : TransitionCommand → String
  | .preflight => "preflight"
  | .import_ => "import"
  | .shadowReport => "shadow-report"
  | .checklist => "checklist"
  | .recordApproval => "record-approval"

def TransitionCommand.names : TransitionCommand → List String
  | .preflight => ["--source-kind","--source"]
  | .import_ => ["--source-kind","--source","--account-id","--internal-owner-id","--ownership-approval-digest"]
  | .shadowReport => ["--account-id","--import-run-id","--snapshot-id","--output"]
  | .checklist => ["--account-id","--shadow-report-id","--output"]
  | .recordApproval =>
    ["--account-id","--internal-owner-id","--shadow-report-id","--checklist-digest","--owner-evidence-digest","--decision"]

def TransitionInvocation.command : TransitionInvocation → TransitionCommand
  | .preflight _ _ => .preflight
  | .import_ _ _ _ _ _ => .import_
  | .shadowReport _ _ _ _ => .shadowReport
  | .checklist _ _ _ => .checklist
  | .recordApproval _ _ _ _ _ _ => .recordApproval

def Reads {α : Type} (fields : Fields) (name : String) (reads : String → Option α) (a : α) : Prop :=
  ∃ value, fields.lookup name = some value ∧ (toStr value).bind reads = some a

def TransitionInvocation.Given (uuid : String → Option Uuid) : TransitionInvocation → Fields → Prop
  | .preflight kind path,fields => Reads fields "--source-kind" sourceKind kind ∧ fields.lookup "--source" = some path
  | .import_ kind path account owner approval,fields =>
    Reads fields "--source-kind" sourceKind kind ∧ fields.lookup "--source" = some path ∧
      Reads fields "--account-id" uuid account ∧ Reads fields "--internal-owner-id" uuid owner ∧
      Reads fields "--ownership-approval-digest" digest approval
  | .shadowReport account run snapshot output,fields =>
    Reads fields "--account-id" uuid account ∧ Reads fields "--import-run-id" uuid run ∧
      Reads fields "--snapshot-id" uuid snapshot ∧ output = fields.lookup "--output"
  | .checklist account report output,fields =>
    Reads fields "--account-id" uuid account ∧ Reads fields "--shadow-report-id" uuid report ∧ output = fields.lookup "--output"
  | .recordApproval account owner report listed evidence decided,fields =>
    Reads fields "--account-id" uuid account ∧ Reads fields "--internal-owner-id" uuid owner ∧
      Reads fields "--shadow-report-id" uuid report ∧ Reads fields "--checklist-digest" digest listed ∧
      Reads fields "--owner-evidence-digest" digest evidence ∧ Reads fields "--decision" decision decided

/- An invocation as it may be typed: its command, each of its names once and in any order, and
nothing that looks like a credential. -/
structure Sentence (uuid : String → Option Uuid) (invocation : TransitionInvocation) (command : OsString)
    (rest : List OsString) (fields : Fields) : Prop where
  named : toStr command = some invocation.command.name
  written : Written fields rest
  once : (fields.map Prod.fst).Nodup
  names : ∀ field ∈ fields, field.1 ∈ invocation.command.names
  given : invocation.Given uuid fields
  harmless : ∀ argument ∈ command::rest, ∀ name, toStr argument = some name → flagged name = true →
    forbiddenArgumentName name = false

end Grammar

section Parsed
variable {α β : Type}

theorem lookupWithout (fields : Fields) (name other : String) :
    (without fields name).lookup other = if other = name then none else fields.lookup other := by
  induction fields with
  | nil => simp [without]
  | cons field rest ih =>
    obtain ⟨key,value⟩ := field
    unfold without at ih ⊢
    by_cases same : key = name
    · subst same
      rw [List.filter_cons_of_neg (by simp),ih]
      split
      · rfl
      · rename_i apart
        simp [List.lookup_cons,beq_false_of_ne apart]
    · rw [List.filter_cons_of_pos (by simpa using same),List.lookup_cons,List.lookup_cons,ih]
      by_cases here : other = key
      · subst here
        simp [same]
      · simp [beq_false_of_ne here]

theorem memWithout {fields : Fields} {name : String} {field} :
    field ∈ without fields name ↔ field ∈ fields ∧ field.1 ≠ name := by simp [without]

theorem bindOk {x : Take α} {f : α → Take β} {fields : Fields} {b rest} :
    (x >>= f) fields = .ok (b,rest) ↔ ∃ a mid, x fields = .ok (a,mid) ∧ f a mid = .ok (b,rest) := by
  simp only [bind,StateT.bind,Except.bind]
  cases x fields with
  | error error => simp
  | ok pair =>
    obtain ⟨a,mid⟩ := pair
    simp only [Except.ok.injEq,Prod.mk.injEq]
    exact ⟨fun ran => ⟨a,mid,⟨rfl,rfl⟩,ran⟩,fun ⟨_,_,⟨rfl,rfl⟩,ran⟩ => ran⟩

theorem pureOk {a b : α} {fields rest : Fields} : (pure a : Take α) fields = .ok (b,rest) ↔ b = a ∧ rest = fields := by
  have settled : (pure a : Take α) fields = .ok (a,fields) := rfl
  simp only [settled,Except.ok.injEq,Prod.mk.injEq,eq_comm]

theorem takeOk {name : String} {reads : OsString → Option α} {fields : Fields} {a rest} :
    take name reads fields = .ok (a,rest) ↔
      (∃ value, fields.lookup name = some value ∧ reads value = some a) ∧ rest = without fields name := by
  unfold take
  cases found : fields.lookup name with
  | none => simp
  | some value =>
    cases read : reads value with
    | none => simp [read]
    | some b => simp [read,eq_comm]

theorem takeOptionalOk {name : String} {fields : Fields} {output rest} :
    takeOptionalPath name fields = .ok (output,rest) ↔ fields.lookup name = output ∧ rest = without fields name := by
  simp only [takeOptionalPath,Except.ok.injEq,Prod.mk.injEq,eq_comm]

theorem parseCommandOk {command : OsString} {named} :
    parseCommand command = .ok named ↔ toStr command = some named.name := by
  have none_ : toStr [] = some "" := by decide +kernel
  unfold parseCommand
  split
  · rename_i empty
    subst empty
    rw [none_]
    cases named <;> decide
  · split
    all_goals cases named <;> simp_all [TransitionCommand.name]

theorem parseFieldsOk (rest : List OsString) : ∀ {fields out : Fields}, (fields.map Prod.fst).Nodup →
    (parseFields rest fields = .ok out ↔ ∃ more, out = fields ++ more ∧ Written more rest ∧
      (out.map Prod.fst).Nodup ∧ ∀ field ∈ more, flagged field.1 = true) := by
  induction rest using List.twoStepInduction with
  | nil =>
    intro fields out once
    simp only [parseFields,Except.ok.injEq]
    constructor
    · rintro rfl
      exact ⟨[],by simp,.nil,once,by simp⟩
    · rintro ⟨more,rfl,written,_⟩
      cases written
      simp
  | singleton spelled =>
    intro fields out once
    have fails : parseFields [spelled] fields ≠ .ok out := by
      unfold parseFields
      split <;> simp
    refine iff_of_false fails ?_
    rintro ⟨more,_,written,_⟩
    cases written
  | cons_cons spelled value rest ih =>
    intro fields out once
    rw [parseFields]
    split
    · rename_i unread
      refine iff_of_false (by simp) ?_
      rintro ⟨more,_,written,_,flags⟩
      cases written with
      | cons reads =>
        rw [reads,Option.filter_some,if_pos (flags _ List.mem_cons_self)] at unread
        cases unread
    · rename_i name read
      obtain ⟨reads,flag⟩ := Option.filter_eq_some_iff.mp read
      dsimp only
      split
      · rename_i twice
        refine iff_of_false (by simp) ?_
        rintro ⟨more,rfl,written,once',_⟩
        cases written with
        | cons reads' =>
          rw [reads] at reads'
          cases reads'
          rw [List.map_append,List.map_cons] at once'
          exact (List.nodup_append.mp once').2.2 name twice name List.mem_cons_self rfl
      · rename_i fresh
        have once' : ((fields ++ [(name,value)]).map Prod.fst).Nodup := by
          rw [List.map_append,List.nodup_append]
          refine ⟨once,by simp,?_⟩
          rintro a there b here rfl
          rw [List.mem_singleton.mp here] at there
          exact fresh there
        rw [ih once']
        constructor
        · rintro ⟨more,rfl,written,all,flags⟩
          refine ⟨(name,value)::more,by simp,.cons reads written,all,?_⟩
          rintro field (_ | ⟨_,later⟩)
          · exact flag
          · exact flags field later
        · rintro ⟨more,rfl,written,all,flags⟩
          cases written with
          | @cons name' _ _ more _ reads' later =>
            rw [reads] at reads'
            cases reads'
            exact ⟨more,by simp,later,all,fun field member => flags field (List.mem_cons_of_mem _ member)⟩

theorem withoutAll (names : List String) (fields : Fields) :
    names.foldl without fields = [] ↔ ∀ field ∈ fields, field.1 ∈ names := by
  induction names generalizing fields with
  | nil => simp [List.eq_nil_iff_forall_not_mem]
  | cons name rest ih =>
    rw [List.foldl_cons,ih]
    simp only [memWithout,List.mem_cons]
    exact forall_congr' (fun field => ⟨fun left member => or_iff_not_imp_left.mpr (fun apart => left ⟨member,apart⟩),
      fun within member => (within member.1).resolve_left member.2⟩)

theorem takeTextOk {name : String} {reads : String → Option α} {fields : Fields} {a rest} :
    take name (fun value => (toStr value).bind reads) fields = .ok (a,rest) ↔
      Reads fields name reads a ∧ rest = without fields name := takeOk

theorem takePathOk {name : String} {fields : Fields} {path rest} :
    takePath name fields = .ok (path,rest) ↔ fields.lookup name = some path ∧ rest = without fields name := by
  simp [takePath,takeOk]

theorem readsWithout {fields : Fields} {name other : String} (apart : other ≠ name) {reads : String → Option α} {a} :
    Reads (without fields name) other reads a ↔ Reads fields other reads a := by
  simp only [Reads,lookupWithout,if_neg apart]

theorem takeInvocationOk {uuid : String → Option Uuid} {command : TransitionCommand} {fields : Fields} {invocation} :
    takeInvocation uuid command fields = .ok (invocation,[]) ↔
      invocation.command = command ∧ invocation.Given uuid fields ∧ command.names.foldl without fields = [] := by
  have apart : ∀ {a b : String}, a ≠ b → ∀ fields, (without fields b).lookup a = fields.lookup a :=
    fun other fields => (lookupWithout fields _ _).trans (if_neg other)
  cases command <;>
    simp (disch := decide) only [takeInvocation,takeSourceKind,takeUuid,takeDigest,takeDecision,bindOk,takeTextOk,takePathOk,
      takeOptionalOk,pureOk,readsWithout,apart,and_assoc,exists_and_left,exists_eq_left,TransitionCommand.names,List.foldl]
  all_goals cases invocation <;> simp [TransitionInvocation.command,TransitionInvocation.Given,and_assoc]

theorem harmlessFound (arguments : List OsString) :
    (arguments.filterMap toStr).find? (fun name => flagged name && forbiddenArgumentName name) = none ↔
      ∀ argument ∈ arguments, ∀ name, toStr argument = some name → flagged name = true → forbiddenArgumentName name = false := by
  simp only [List.find?_eq_none,List.mem_filterMap,Bool.and_eq_true,not_and,Bool.not_eq_true]
  exact ⟨fun none argument member name reads => none name ⟨argument,member,reads⟩,
    fun harmless name ⟨argument,member,reads⟩ => harmless argument member name reads⟩

theorem namesFlagged (command : TransitionCommand) : ∀ name ∈ command.names, flagged name = true := by
  cases command <;> decide

theorem fieldsOk {rest : List OsString} {fields : Fields} : parseFields rest [] = .ok fields ↔
    Written fields rest ∧ (fields.map Prod.fst).Nodup ∧ ∀ field ∈ fields, flagged field.1 = true := by
  have from_ : parseFields rest [] = .ok fields ↔ _ := parseFieldsOk rest (by simp)
  simpa using from_

theorem sentenceParsed {uuid : String → Option Uuid} {invocation command rest} :
    parseArguments uuid (command::rest) = .ok invocation ↔ ∃ fields, Sentence uuid invocation command rest fields := by
  constructor
  · intro returns
    unfold parseArguments at returns
    split at returns
    · cases returns
    rename_i harmless
    dsimp only at returns
    split at returns
    · cases returns
    rename_i named parsed
    split at returns
    · cases returns
    rename_i fields read
    split at returns
    · cases returns
    rename_i invocation' left took
    split at returns
    · rename_i nothing
      cases returns
      subst nothing
      obtain ⟨rfl,given,all⟩ := takeInvocationOk.mp took
      obtain ⟨written,once,_⟩ := fieldsOk.mp read
      exact ⟨fields,parseCommandOk.mp parsed,written,once,(withoutAll _ _).mp all,given,(harmlessFound _).mp harmless⟩
    · cases returns
  · rintro ⟨fields,sentence⟩
    have harmless := (harmlessFound (command::rest)).mpr sentence.harmless
    have parsed := parseCommandOk.mpr sentence.named
    have flags := fun field member => namesFlagged invocation.command field.1 (sentence.names field member)
    have read := fieldsOk.mpr ⟨sentence.written,sentence.once,flags⟩
    have took := takeInvocationOk.mpr ⟨rfl,sentence.given,(withoutAll _ _).mpr sentence.names⟩
    simp only [parseArguments,harmless,parsed,read,took,if_true]

theorem lookupPerm {fields fields' : Fields} (same : fields.Perm fields') (once : (fields.map Prod.fst).Nodup) (name) :
    fields'.lookup name = fields.lookup name := by
  induction same with
  | nil => rfl
  | cons field _ ih =>
    obtain ⟨key,value⟩ := field
    rw [List.lookup_cons,List.lookup_cons,ih (List.nodup_cons.mp once).2]
  | swap left right rest =>
    obtain ⟨key,value⟩ := left
    obtain ⟨key',value'⟩ := right
    have apart : key' ≠ key := by
      rintro rfl
      simp at once
    by_cases here : name = key
    · subst here
      simp [List.lookup_cons,beq_false_of_ne apart.symm]
    · simp [List.lookup_cons,beq_false_of_ne here]
  | trans first _ ih ih' => exact (ih' ((first.map Prod.fst).nodup_iff.mp once)).trans (ih once)

theorem writtenUnique {rest : List OsString} {fields fields'} (written : Written fields rest) (other : Written fields' rest) :
    fields = fields' := by
  induction written generalizing fields' with
  | nil =>
    cases other
    rfl
  | cons reads _ ih =>
    cases other with
    | cons reads' later =>
      rw [reads] at reads'
      cases reads'
      rw [ih later]

theorem writtenHarmless {fields : Fields} {rest} (written : Written fields rest) : ∀ argument ∈ rest,
    (∃ field ∈ fields, toStr argument = some field.1) ∨ ∃ field ∈ fields, argument = field.2 := by
  induction written with
  | nil => simp
  | @cons name spelled value fields rest reads _ ih =>
    rintro argument (_ | ⟨_,_ | ⟨_,later⟩⟩)
    · exact .inl ⟨_,List.mem_cons_self,reads⟩
    · exact .inr ⟨_,List.mem_cons_self,rfl⟩
    · exact (ih argument later).imp (fun ⟨field,member,same⟩ => ⟨field,List.mem_cons_of_mem _ member,same⟩)
        (fun ⟨field,member,same⟩ => ⟨field,List.mem_cons_of_mem _ member,same⟩)

theorem writtenSpelled {fields : Fields} {rest} (written : Written fields rest) : ∀ field ∈ fields,
    field.2 ∈ rest ∧ ∃ spelled ∈ rest, toStr spelled = some field.1 := by
  induction written with
  | nil => simp
  | @cons name spelled value fields rest reads _ ih =>
    rintro field (_ | ⟨_,later⟩)
    · exact ⟨by simp,spelled,by simp,reads⟩
    · obtain ⟨within,other,member,same⟩ := ih field later
      exact ⟨by simp [within],other,by simp [member],same⟩

theorem sentencePerm {uuid : String → Option Uuid} {invocation command rest rest'} {fields fields' : Fields}
    (sentence : Sentence uuid invocation command rest fields) (same : fields.Perm fields') (written : Written fields' rest') :
    Sentence uuid invocation command rest' fields' where
  named := sentence.named
  written := written
  once := (same.map Prod.fst).nodup_iff.mp sentence.once
  names field member := sentence.names field (same.mem_iff.mpr member)
  given := by
    have given := sentence.given
    have looks := lookupPerm same sentence.once
    cases invocation <;> simpa only [TransitionInvocation.Given,Reads,looks] using given
  harmless := by
    rintro argument (_ | ⟨_,later⟩) name reads flag
    · exact sentence.harmless command List.mem_cons_self name reads flag
    · rcases writtenHarmless written argument later with ⟨field,member,spelled⟩ | ⟨field,member,rfl⟩
      · obtain ⟨_,other,there,spelled'⟩ := writtenSpelled sentence.written field (same.mem_iff.mpr member)
        rw [spelled] at reads
        cases reads
        exact sentence.harmless other (List.mem_cons_of_mem _ there) _ spelled' flag
      · obtain ⟨there,_⟩ := writtenSpelled sentence.written field (same.mem_iff.mpr member)
        exact sentence.harmless field.2 (List.mem_cons_of_mem _ there) name reads flag

/- An invocation is returned for its sentences and for nothing else, whatever the order of the
fields. -/
theorem parsesExactly (uuid : String → Option Uuid) (arguments : List OsString) (invocation : TransitionInvocation) :
    (parseArguments uuid arguments = .ok invocation ↔
      ∃ command rest fields, arguments = command::rest ∧ Sentence uuid invocation command rest fields) ∧
    ∀ command rest rest' fields fields', Written fields rest → Written fields' rest' → fields.Perm fields' →
      parseArguments uuid (command::rest) = .ok invocation → parseArguments uuid (command::rest') = .ok invocation := by
  constructor
  · cases arguments with
    | nil => simp [parseArguments]
    | cons command rest =>
      rw [sentenceParsed]
      constructor
      · rintro ⟨fields,sentence⟩
        exact ⟨command,rest,fields,rfl,sentence⟩
      · rintro ⟨_,_,fields,same,sentence⟩
        cases same
        exact ⟨fields,sentence⟩
  · intro command rest rest' fields fields' written written' same returns
    obtain ⟨read,sentence⟩ := sentenceParsed.mp returns
    cases writtenUnique sentence.written written
    exact sentenceParsed.mpr ⟨fields',sentencePerm sentence same written'⟩

def typed (words : List String) : List OsString := words.map (fun word => word.toUTF8.data.toList)

def accountText : String := "00000000-0000-0000-0000-000000000004"

def reportText : String := "00000000-0000-0000-0000-000000000009"

def readUuid (value : String) : Option Uuid :=
  if value = accountText then some 4 else if value = reportText then some 9 else none

/- A value that is joined to its name is repeated with it. -/
example : parseArguments readUuid (typed ["preflight","--token=5"]) = .error (.forbiddenArgument "--token=5") := by
  decide +kernel

theorem parsesExactlyAtChecklist :
    parseArguments readUuid (typed ["checklist","--shadow-report-id",reportText,"--account-id",accountText]) = .ok (.checklist 4 9 none) := by
  have first : parseArguments readUuid (typed ["checklist","--account-id",accountText,"--shadow-report-id",reportText]) =
      .ok (.checklist 4 9 none) := by decide +kernel
  have account : toStr "--account-id".toUTF8.data.toList = some "--account-id" := by decide +kernel
  have report : toStr "--shadow-report-id".toUTF8.data.toList = some "--shadow-report-id" := by decide +kernel
  exact (parsesExactly readUuid [] (.checklist 4 9 none)).2 _ _ _ _ _ (.cons account (.cons report .nil))
    (.cons report (.cons account .nil)) (.swap _ _ _) first

end Parsed
end RatatoskrX.TransitionCli
