import RatatoskrX.FieldTheoryJsonl
import RatatoskrX.Preservation

/-! What a record of the JSON Lines source can hold once its checks passed: only members of
its declaration, each of the declared type, at every depth. -/
namespace RatatoskrX.JsonlClosure
open Outcome Normalization Preservation LegacyImport FieldTheoryJsonl

/- The declared type of a field. An optional text or list may also be null. -/
inductive Shape where
  | text
  | requiredText
  | flag
  | count
  | texts
  | record (fields : List (String × Shape))
  | records (fields : List (String × Shape))

/- The value has the declared type, and so has everything inside it. -/
inductive Fits : Shape → Json → Prop where
  | noText : Fits .text .null
  | text (value) : Fits .text (.string value)
  | requiredText {value} (some_ : value ≠ "") : Fits .requiredText (.string value)
  | flag (value) : Fits .flag (.bool value)
  | count (value) : Fits .count (.number value)
  | noTexts : Fits .texts .null
  | texts {values} (each : ∀ v ∈ values, Fits .requiredText v) : Fits .texts (.array values)
  | record {fields members} (allowed : ∀ m ∈ members, m.1 ∈ fields.map Prod.fst)
      (each : ∀ m ∈ members, ∀ shape, (m.1,shape) ∈ fields → Fits shape m.2) : Fits (.record fields) (.object members)
  | records {fields values} (each : ∀ v ∈ values, Fits (.record fields) v) : Fits (.records fields) (.array values)

def each (shape : Shape) (names : List String) : List (String × Shape) := names.map (fun name => (name,shape))

def authorShape : List (String × Shape) := each .text authorStrings ++ [("verified",.flag)] ++ each .count authorCounts

def engagementShape : List (String × Shape) := each .count engagementCounts

def variantShape : List (String × Shape) := [("url",.text),("contentType",.text),("bitrate",.count)]

def mediaShape : List (String × Shape) :=
  each .text mediaStrings ++ each .count ["width","height"] ++ each (.records variantShape) ["videoVariants","variants"]

def quotedTweetShape : List (String × Shape) :=
  each .requiredText ["id","text","url"] ++ each .text quotedTweetStrings ++ [("media",.texts),("mediaObjects",.records mediaShape)]

def recordShape : List (String × Shape) :=
  each .requiredText ["id","tweetId","url","text","syncedAt"] ++
  each .text ["authorHandle","authorName","authorProfileImageUrl","postedAt","bookmarkedAt","sortIndex","conversationId",
    "inReplyToStatusId","inReplyToUserId","quotedStatusId","articleTitle","articleText","articleSite","enrichedAt","language",
    "sourceApp","ingestedVia","textExpandedAt","quotedTweetFailedAt"] ++
  [("possiblySensitive",.flag)] ++ each .texts recordArrays ++
  [("author",.record authorShape),("engagement",.record engagementShape),("quotedTweet",.record quotedTweetShape),
    ("mediaObjects",.records mediaShape)]

theorem declaredFields :
    (recordShape.map Prod.fst).Perm fieldTheoryJsonlFields ∧ (authorShape.map Prod.fst).Perm authorFields ∧
      (engagementShape.map Prod.fst).Perm engagementCounts ∧ (quotedTweetShape.map Prod.fst).Perm quotedTweetFields ∧
      (mediaShape.map Prod.fst).Perm mediaFields ∧ (variantShape.map Prod.fst).Perm variantFields := by
  decide

/- A chain of that many containers, each in the one before it. -/
inductive Nests : Nat → Json → Prop where
  | object (members) : Nests 1 (.object members)
  | array (values) : Nests 1 (.array values)
  | member {n members name value} (there : (name,value) ∈ members) (inner : Nests n value) : Nests (n + 1) (.object members)
  | item {n values value} (there : value ∈ values) (inner : Nests n value) : Nests (n + 1) (.array values)

/- What serde_json builds: the members of every object are in the order of their names. -/
inductive Parsed : Json → Prop where
  | null : Parsed .null
  | bool (value) : Parsed (.bool value)
  | number (text) : Parsed (.number text)
  | string (value) : Parsed (.string value)
  | array {values} (each : ∀ v ∈ values, Parsed v) : Parsed (.array values)
  | object {members} (ordered : Ordered members) (each : ∀ m ∈ members, Parsed m.2) : Parsed (.object members)

/- A value of serde_json. -/
structure Value where
  json : Json
  parsed : Parsed json

def Credential (name : String) : Prop := ∃ word ∈ forbiddenWords, word.toList <:+: normalizedName name

structure Closed (limit : Nat) (value : Json) : Prop where
  declared : Fits (.record recordShape) value
  harmless : ∀ m, Within m value → ¬Credential m.1
  shallow : ∀ n, Nests n value → n ≤ limit

section Depth
variable {value : Json}

theorem memberDepth {members : List (String × Json)} {name} (there : (name,value) ∈ members) :
    jsonDepth value ≤ membersDepth members := by
  induction members with
  | nil => simp at there
  | cons first rest ih =>
    obtain rfl | later := List.mem_cons.mp there
    · exact le_max_left _ _
    · exact le_trans (ih later) (le_max_right _ _)

theorem itemDepth {values : List Json} (there : value ∈ values) : jsonDepth value ≤ itemsDepth values := by
  induction values with
  | nil => simp at there
  | cons first rest ih =>
    obtain rfl | later := List.mem_cons.mp there
    · exact le_max_left _ _
    · exact le_trans (ih later) (le_max_right _ _)

theorem nestsDepth {n : Nat} (nests : Nests n value) : n ≤ jsonDepth value := by
  induction nests with
  | object members => exact Nat.le_add_right 1 _
  | array values => exact Nat.le_add_right 1 _
  | member there inner ih =>
    rw [jsonDepth,Nat.add_comm 1]
    exact Nat.succ_le_succ (le_trans ih (memberDepth there))
  | item there inner ih =>
    rw [jsonDepth,Nat.add_comm 1]
    exact Nat.succ_le_succ (le_trans ih (itemDepth there))

end Depth

section Names

theorem credentialForbidden {name : String} : forbiddenFieldName name = true ↔ Credential name := by
  simp [forbiddenFieldName,Credential]

theorem membersChecked {members : List (String × Json)} (ok : rejectForbiddenMembers members = .ok ()) :
    ∀ m ∈ members, ¬Credential m.1 ∧ rejectForbiddenFields m.2 = .ok () := by
  induction members with
  | nil => simp
  | cons first rest ih =>
    obtain ⟨name,nested⟩ := first
    rw [rejectForbiddenMembers] at ok
    split at ok
    · cases ok
    · rename_i plain
      obtain ⟨⟨⟩,inner,others⟩ := bindOk.mp ok
      refine List.forall_mem_cons.mpr ⟨⟨fun credential => plain (credentialForbidden.mpr credential),inner⟩,ih others⟩

theorem itemsChecked {values : List Json} (ok : rejectForbiddenItems values = .ok ()) :
    ∀ v ∈ values, rejectForbiddenFields v = .ok () := by
  induction values with
  | nil => simp
  | cons first rest ih =>
    obtain ⟨⟨⟩,inner,others⟩ := bindOk.mp ok
    exact List.forall_mem_cons.mpr ⟨inner,ih others⟩

theorem harmlessWithin {m : Member} {value : Json} (within : Within m value) (ok : rejectForbiddenFields value = .ok ()) :
    ¬Credential m.1 := by
  induction within with
  | here there => exact (membersChecked ok _ there).1
  | inside there _ ih => exact ih (membersChecked ok _ there).2
  | item there _ ih => exact ih (itemsChecked ok _ there)

end Names

section Typed
variable {object : Extension} {field : String} {shape : Shape}

/- The value of the field, where there is one, has the type. -/
def Holds (object : Extension) (field : String) (shape : Shape) : Prop := ∀ v ∈ object.lookup field, Fits shape v

theorem optionalStringNonempty {value} (ok : optionalString object field = .ok (some value)) :
    object.lookup field = some (.string value) ∧ value ≠ "" := by
  unfold optionalString at ok
  split at ok
  · cases ok
  · cases ok
  · rename_i given found
    split at ok
    · rename_i some_
      cases ok
      exact ⟨found,some_⟩
    · cases ok
  · cases ok

theorem requiredStringHolds {value} (ok : requiredString object field = .ok value) : Holds object field .requiredText := by
  obtain ⟨given,read,ok⟩ := bindOk.mp ok
  cases given with
  | none => cases ok
  | some given =>
    obtain ⟨found,some_⟩ := optionalStringNonempty read
    intro v there
    rw [found] at there
    cases Option.some.inj there
    exact .requiredText some_

theorem optionalStringValueHolds (ok : validateOptionalStringValue object field = .ok ()) : Holds object field .text := by
  intro v there
  rw [validateOptionalStringValue,Option.mem_def.mp there] at ok
  cases v with
  | null => exact .noText
  | string value => exact .text value
  | _ => cases ok

theorem optionalBoolValueHolds (ok : validateOptionalBoolValue object field = .ok ()) : Holds object field .flag := by
  intro v there
  rw [validateOptionalBoolValue,Option.mem_def.mp there] at ok
  cases v with
  | bool value => exact .flag value
  | _ => cases ok

theorem optionalNumberValueHolds (ok : validateOptionalNumberValue object field = .ok ()) : Holds object field .count := by
  intro v there
  rw [validateOptionalNumberValue,Option.mem_def.mp there] at ok
  cases v with
  | number value => exact .count value
  | _ => cases ok

theorem stringsFit {values : List Json} {strings} (ok : values.mapM (arrayString field) = .ok strings) :
    ∀ v ∈ values, Fits .requiredText v := by
  intro v member
  obtain ⟨read,checked⟩ := mapMOk ok v member
  cases v with
  | string value =>
    rw [arrayString] at checked
    split at checked
    · rename_i some_
      exact .requiredText some_
    · cases checked
  | _ => cases checked

theorem optionalStringArrayHolds {strings} (ok : optionalStringArray object field = .ok strings) : Holds object field .texts := by
  intro v there
  rw [optionalStringArray,Option.mem_def.mp there] at ok
  cases v with
  | null => exact .noTexts
  | array values => exact .texts (stringsFit ok)
  | _ => cases ok

theorem stringArrayHolds (ok : checkStringArray object field = .ok ()) : Holds object field .texts := by
  obtain ⟨_,read,-⟩ := bindOk.mp ok
  exact optionalStringArrayHolds read

theorem eachHolds {names : List String} {check : Extension → String → Checked Unit}
    (holds : ∀ name, check object name = .ok () → Holds object name shape) (ok : names.forM (check object) = .ok ()) :
    ∀ f ∈ each shape names, Holds object f.1 f.2 := by
  intro f declared
  obtain ⟨name,among,rfl⟩ := List.mem_map.mp declared
  exact holds name (forMOk.mp ok name among)

theorem lookupMember (distinct : (object.map Prod.fst).Nodup) {m : Member} (member : m ∈ object) : object.lookup m.1 = some m.2 := by
  induction object with
  | nil => simp at member
  | cons first rest ih =>
    rw [List.map_cons,List.nodup_cons] at distinct
    obtain rfl | later := List.mem_cons.mp member
    · rw [List.lookup_cons,beq_self_eq_true]
    · have other : m.1 ≠ first.1 := fun same => distinct.1 (same ▸ List.mem_map_of_mem later)
      rw [List.lookup_cons,beq_false_of_ne other]
      exact ih distinct.2 later

theorem lookupThere {v : Json} (there : object.lookup field = some v) : (field,v) ∈ object := by
  obtain ⟨before,after,rfl,-⟩ := List.lookup_eq_some_iff.mp there
  simp

theorem lookupParsed {v : Json} (parsed : Parsed (.object object)) (there : object.lookup field = some v) : Parsed v := by
  cases parsed with
  | object ordered each => exact each _ (lookupThere there)

theorem recordFits {fields : List (String × Shape)} {allowedFields : List String} (parsed : Parsed (.object object))
    (known : rejectUnknownFields object allowedFields = .ok ()) (listed : (fields.map Prod.fst).Perm allowedFields)
    (holds : ∀ f ∈ fields, Holds object f.1 f.2) : Fits (.record fields) (.object object) := by
  cases parsed with
  | object ordered _ =>
    refine .record ?_ ?_
    · intro m member
      have checked := forMOk.mp known m.1 (List.mem_map_of_mem member)
      split at checked
      · rename_i allowed
        exact listed.mem_iff.mpr allowed
      · cases checked
    · intro m member shape declared
      exact holds (m.1,shape) declared m.2 (lookupMember (orderedDistinct ordered) member)

theorem optionalObjectHolds {fields : List (String × Shape)} {allowedFields : List String} {validate : Extension → Checked Unit}
    (listed : (fields.map Prod.fst).Perm allowedFields)
    (holds : ∀ nested, Parsed (.object nested) → validate nested = .ok () → ∀ f ∈ fields, Holds nested f.1 f.2)
    (parsed : Parsed (.object object)) (ok : validateOptionalObject object field allowedFields validate = .ok ()) :
    Holds object field (.record fields) := by
  intro v there
  have inner := lookupParsed parsed there
  rw [validateOptionalObject,Option.mem_def.mp there] at ok
  cases v with
  | object nested =>
    obtain ⟨⟨⟩,known,checked⟩ := bindOk.mp ok
    exact recordFits inner known listed (holds nested inner checked)
  | _ => cases ok

theorem objectsHold {fields : List (String × Shape)} {validate : Extension → Checked Unit}
    (fits : ∀ nested, Parsed (.object nested) → validate nested = .ok () → Fits (.record fields) (.object nested))
    (parsed : Parsed (.object object)) (ok : validateObjects validate object field = .ok ()) : Holds object field (.records fields) := by
  intro v there
  have inner := lookupParsed parsed there
  rw [validateObjects,Option.mem_def.mp there] at ok
  cases v with
  | array values =>
    cases inner with
    | array each =>
      refine .records (fun v member => ?_)
      have checked := forMOk.mp ok v member
      cases v with
      | object nested => exact fits nested (each _ member) checked
      | _ => cases checked
  | _ => cases ok

end Typed

section Positions
variable {object : Extension}

theorem authorHolds (ok : validateAuthorShape object = .ok ()) : ∀ f ∈ authorShape, Holds object f.1 f.2 := by
  obtain ⟨⟨⟩,strings,ok⟩ := bindOk.mp ok
  obtain ⟨⟨⟩,verified,counts⟩ := bindOk.mp ok
  simp only [authorShape,List.forall_mem_append,List.forall_mem_singleton]
  exact ⟨⟨eachHolds (fun _ => optionalStringValueHolds) strings,optionalBoolValueHolds verified⟩,
    eachHolds (fun _ => optionalNumberValueHolds) counts⟩

theorem engagementHolds (ok : validateEngagementShape object = .ok ()) : ∀ f ∈ engagementShape, Holds object f.1 f.2 :=
  eachHolds (fun _ => optionalNumberValueHolds) ok

theorem variantFits (parsed : Parsed (.object object)) (ok : validateVariant object = .ok ()) :
    Fits (.record variantShape) (.object object) := by
  obtain ⟨⟨⟩,known,ok⟩ := bindOk.mp ok
  obtain ⟨⟨⟩,url,ok⟩ := bindOk.mp ok
  obtain ⟨⟨⟩,contentType,bitrate⟩ := bindOk.mp ok
  refine recordFits parsed known declaredFields.2.2.2.2.2 ?_
  simp only [variantShape,List.forall_mem_cons,List.not_mem_nil,false_implies,implies_true,and_true]
  exact ⟨optionalStringValueHolds url,optionalStringValueHolds contentType,optionalNumberValueHolds bitrate⟩

theorem mediaFits (parsed : Parsed (.object object)) (ok : validateMedia object = .ok ()) :
    Fits (.record mediaShape) (.object object) := by
  obtain ⟨⟨⟩,known,ok⟩ := bindOk.mp ok
  obtain ⟨⟨⟩,strings,ok⟩ := bindOk.mp ok
  obtain ⟨⟨⟩,counts,variants⟩ := bindOk.mp ok
  refine recordFits parsed known declaredFields.2.2.2.2.1 ?_
  simp only [mediaShape,List.forall_mem_append]
  exact ⟨⟨eachHolds (fun _ => optionalStringValueHolds) strings,eachHolds (fun _ => optionalNumberValueHolds) counts⟩,
    eachHolds (fun _ => objectsHold (fun _ => variantFits) parsed) variants⟩

theorem quotedTweetHolds (parsed : Parsed (.object object)) (ok : validateQuotedTweetShape object = .ok ()) :
    ∀ f ∈ quotedTweetShape, Holds object f.1 f.2 := by
  obtain ⟨_,id,ok⟩ := bindOk.mp ok
  obtain ⟨_,text,ok⟩ := bindOk.mp ok
  obtain ⟨_,url,ok⟩ := bindOk.mp ok
  obtain ⟨⟨⟩,strings,ok⟩ := bindOk.mp ok
  obtain ⟨⟨⟩,media,objects⟩ := bindOk.mp ok
  simp only [quotedTweetShape,each,List.map_cons,List.map_nil,List.forall_mem_append,List.forall_mem_cons,List.not_mem_nil,
    false_implies,implies_true,and_true]
  refine ⟨⟨⟨requiredStringHolds id,requiredStringHolds text,requiredStringHolds url⟩,?_⟩,stringArrayHolds media,
    objectsHold (fun _ => mediaFits) parsed objects⟩
  exact eachHolds (fun _ => optionalStringValueHolds) strings

theorem shapeHolds (parsed : Parsed (.object object)) (ok : validateFieldTheoryRecordShape object = .ok ()) :
    Holds object "tweetId" .requiredText ∧ (∀ name ∈ recordStrings, Holds object name .text) ∧
      Holds object "possiblySensitive" .flag ∧ (∀ f ∈ each .texts recordArrays, Holds object f.1 f.2) ∧
      Holds object "author" (.record authorShape) ∧ Holds object "engagement" (.record engagementShape) ∧
      Holds object "quotedTweet" (.record quotedTweetShape) ∧ Holds object "mediaObjects" (.records mediaShape) := by
  obtain ⟨_,tweetId,ok⟩ := bindOk.mp ok
  obtain ⟨⟨⟩,strings,ok⟩ := bindOk.mp ok
  obtain ⟨⟨⟩,sensitive,ok⟩ := bindOk.mp ok
  obtain ⟨⟨⟩,-,ok⟩ := bindOk.mp ok
  obtain ⟨⟨⟩,arrays,ok⟩ := bindOk.mp ok
  obtain ⟨⟨⟩,author,ok⟩ := bindOk.mp ok
  obtain ⟨⟨⟩,engagement,ok⟩ := bindOk.mp ok
  obtain ⟨⟨⟩,quoted,objects⟩ := bindOk.mp ok
  obtain ⟨-,authorListed,engagementListed,quotedListed,-⟩ := declaredFields
  refine ⟨requiredStringHolds tweetId,fun name among => optionalStringValueHolds (forMOk.mp strings name among),
    optionalBoolValueHolds sensitive,eachHolds (fun _ => stringArrayHolds) arrays,?_,?_,?_,
    objectsHold (fun _ => mediaFits) parsed objects⟩
  · exact optionalObjectHolds authorListed (fun _ _ => authorHolds) parsed author
  · exact optionalObjectHolds engagementListed (fun _ _ => engagementHolds) parsed engagement
  · exact optionalObjectHolds quotedListed (fun _ => quotedTweetHolds) parsed quoted

theorem readHolds {readers limits input} (ok : readRecord readers limits object = .ok input) :
    ∀ name ∈ ["id","url","text","syncedAt"], Holds object name .requiredText := by
  obtain ⟨_,id,ok⟩ := bindOk.mp ok
  obtain ⟨_,_,ok⟩ := bindOk.mp ok
  obtain ⟨_,url,ok⟩ := bindOk.mp ok
  obtain ⟨_,text,ok⟩ := bindOk.mp ok
  obtain ⟨_,_,ok⟩ := bindOk.mp ok
  obtain ⟨_,_,ok⟩ := bindOk.mp ok
  obtain ⟨_,_,ok⟩ := bindOk.mp ok
  obtain ⟨_,_,ok⟩ := bindOk.mp ok
  obtain ⟨_,_,ok⟩ := bindOk.mp ok
  obtain ⟨_,syncedAt,-⟩ := bindOk.mp ok
  obtain ⟨_,synced,-⟩ := bindOk.mp syncedAt
  simp only [List.forall_mem_cons,List.not_mem_nil,false_implies,implies_true,and_true]
  exact ⟨requiredStringHolds id,requiredStringHolds url,requiredStringHolds text,requiredStringHolds synced⟩

theorem recordHolds {readers limits input} (parsed : Parsed (.object object)) (shaped : validateFieldTheoryRecordShape object = .ok ())
    (read : readRecord readers limits object = .ok input) : ∀ f ∈ recordShape, Holds object f.1 f.2 := by
  obtain ⟨tweetId,strings,sensitive,arrays,author,engagement,quoted,objects⟩ := shapeHolds parsed shaped
  have required := readHolds read
  simp only [List.forall_mem_cons,List.not_mem_nil,false_implies,implies_true,and_true] at required
  obtain ⟨id,url,text,syncedAt⟩ := required
  simp only [recordShape,List.forall_mem_append,List.forall_mem_cons,List.not_mem_nil,false_implies,implies_true,and_true]
  refine ⟨⟨⟨⟨?_,?_⟩,sensitive⟩,arrays⟩,author,engagement,quoted,objects⟩
  · simp only [each,List.map_cons,List.map_nil,List.forall_mem_cons,List.not_mem_nil,false_implies,implies_true,and_true]
    exact ⟨id,tweetId,url,text,syncedAt⟩
  · intro f declared
    obtain ⟨name,among,rfl⟩ := List.mem_map.mp declared
    exact strings name (List.mem_cons_of_mem "tweetId" among)

end Positions

/-- Whatever passes the checks of a record is closed: every name is one that its position
allows, every value has the type of its field, no name hides a credential, and the nesting is
within the limit. -/
theorem preflightClosed (readers : Readers) (limits : SourceLimits) (value : Value) (input : LegacyRecordInput)
    (ok : preflightRecord readers limits value.json = .ok input) : Closed limits.maxJsonDepth value.json := by
  obtain ⟨json,parsed⟩ := value
  unfold preflightRecord at ok
  split at ok
  · cases ok
  rename_i shallow
  obtain ⟨⟨⟩,harmless,ok⟩ := bindOk.mp ok
  cases json with
  | object object =>
    obtain ⟨⟨⟩,known,ok⟩ := bindOk.mp ok
    obtain ⟨⟨⟩,shaped,read⟩ := bindOk.mp ok
    exact ⟨recordFits parsed known declaredFields.1 (recordHolds parsed shaped read),fun _ within => harmlessWithin within harmless,
      fun _ nests => le_trans (nestsDepth nests) (Nat.not_lt.mp shallow)⟩
  | _ => cases ok

def sampleAuthor : Extension := [("handle",.string "ada"),("verified",.bool true)]

def sampleVariant : Extension := [("bitrate",.number "832000"),("url",.string "https://a.io/v")]

def sampleMedia : Extension := [("url",.string "https://a.io/m"),("variants",.array [.object sampleVariant])]

def sampleRecord : Extension :=
  [("author",.object sampleAuthor),("id",.string "1"),("mediaObjects",.array [.object sampleMedia]),
    ("syncedAt",.string "1970-01-01T00:00:00Z"),("text",.string "hi"),("tweetId",.string "1"),("url",.string "https://a.io/")]

def sampleReaders : Readers where
  parseFromRfc3339 text := if text = "1970-01-01T00:00:00Z" then some ⟨0,Schema.DateTime.epochRepresentable⟩ else none
  parseXStatusUrl _ := (none,none)

theorem sampleParsed : Parsed (.object sampleRecord) := by
  have author : Parsed (.object sampleAuthor) := by
    refine .object (by decide) ?_
    simp only [sampleAuthor,List.forall_mem_cons,List.not_mem_nil,false_implies,implies_true,and_true]
    exact ⟨.string _,.bool _⟩
  have variant : Parsed (.object sampleVariant) := by
    refine .object (by decide) ?_
    simp only [sampleVariant,List.forall_mem_cons,List.not_mem_nil,false_implies,implies_true,and_true]
    exact ⟨.number _,.string _⟩
  have media : Parsed (.object sampleMedia) := by
    refine .object (by decide) ?_
    simp only [sampleMedia,List.forall_mem_cons,List.not_mem_nil,false_implies,implies_true,and_true]
    exact ⟨.string _,.array (List.forall_mem_singleton.mpr variant)⟩
  refine .object (by decide) ?_
  simp only [sampleRecord,List.forall_mem_cons,List.not_mem_nil,false_implies,implies_true,and_true]
  exact ⟨author,.string _,.array (List.forall_mem_singleton.mpr media),.string _,.string _,.string _,.string _⟩

def sampleValue : Value := ⟨.object sampleRecord,sampleParsed⟩

theorem preflightClosedSampled : Closed 5 (.object sampleRecord) := by
  have accepted : (preflightRecord sampleReaders ⟨1000,5⟩ sampleValue.json).toOption.isSome = true := by decide +kernel
  obtain ⟨input,ok⟩ := Outcome.succeeds accepted
  exact preflightClosed sampleReaders ⟨1000,5⟩ sampleValue input ok

end RatatoskrX.JsonlClosure
