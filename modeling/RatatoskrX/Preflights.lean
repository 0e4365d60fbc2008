import Mathlib.Data.String.Basic
import RatatoskrX.FieldTheoryJsonl
import RatatoskrX.Foundation.Gathering
import RatatoskrX.Foundation.Outcome
import RatatoskrX.LegacyCsv
import RatatoskrX.TokenMembers

/-! The preflight of a legacy source, from the file that is read twice to the batch of records:
the rows of a CSV, the lines of a JSON Lines file or the rows of an SQLite database become
records, and the records of one key become one. The readers of timestamps, of URLs and of JSON,
the digest and the printing of a record's projection are parameters. -/
namespace RatatoskrX.Preflights
open Schema Writeback Normalization Contents LegacyImport LegacyCsv FieldTheoryJsonl TokenMembers Connection Outcome

abbrev Bytes := List UInt8

/- The limits that only the preflight of a whole source reads, beside those of a record. -/
structure Limits extends SourceLimits where
  maxBytes : Nat
  maxRows : Nat
  deriving DecidableEq, Repr

structure DigestValue where
  sourceRecordKey : String
  providerPostId : Option String
  urlProviderPostId : Option String
  canonicalUrlDigest : Option Digest
  contentDigest : Digest
  postedAt : Option DateTime
  bookmarkedAt : Option DateTime
  syncedAt : DateTime
  categories : List String
  folderIds : List String
  folderNames : List String

/- A URL as its parser gives it; asStr is how it is written once fragment and query are gone. -/
structure Url where
  hostStr : Option String
  pathSegments : Option (List String)
  asStr : String

structure Environment where
  parseFromRfc3339 : String → Option DateTime
  parseUrl : String → Option Url
  sha256 : Bytes → Bytes
  toVec : DigestValue → Bytes
  fromStr : String → Option Json

section Files

/- What the file system answers: whether the path is a file and its length, and two reads. -/
structure FileReads where
  metadata : Option (Bool × Nat)
  first : Option Bytes
  second : Option Bytes
  deriving DecidableEq

def readSourceBytes (reads : FileReads) (maxBytes : Nat) : Checked Bytes :=
  match reads.metadata with
  | none => .error .sourceUnavailable
  | some (isFile,length) =>
    if isFile = false then .error .sourceUnavailable
    else if maxBytes < length then .error .sourceTooLarge
    else match reads.first with
      | none => .error .sourceUnavailable
      | some first =>
        if maxBytes < first.length then .error .sourceTooLarge
        else match reads.second with
          | none => .error .sourceUnavailable
          | some second =>
            if maxBytes < second.length then .error .sourceTooLarge
            else if first ≠ second then .error .sourceChanged
            else .ok first

def fromUtf8 (bytes : Bytes) : Checked (List Char) :=
  match String.fromUTF8? ⟨bytes.toArray⟩ with
  | some text => .ok text.toList
  | none => .error .invalidEncoding

end Files

section Records
variable (env : Environment)

def parseXStatusUrl (value : String) : Option String × Option Digest :=
  match env.parseUrl value with
  | none => (none,none)
  | some url =>
    match url.hostStr.map String.toLower with
    | none => (none,none)
    | some host =>
      if host ∉ ["x.com","www.x.com","twitter.com","www.twitter.com"] then (none,none)
      else
        let segments := url.pathSegments.getD []
        match segments.findIdx? (fun segment => segment = "status") with
        | none => (none,none)
        | some statusPosition =>
          match segments[statusPosition + 1]? with
          | none => (none,none)
          | some providerId =>
            if providerId = "" ∨ providerId.toList.all Char.isDigit = false then (none,none)
            else (some providerId,some (sha256Hex env.sha256 (utf8 url.asStr)))

def readers : Readers := ⟨env.parseFromRfc3339,parseXStatusUrl env⟩

def dedup : List String → List String
  | [] => []
  | [value] => [value]
  | a::b::rest => if a = b then dedup (b::rest) else a::dedup (b::rest)

def sortUnique (values : List String) : List String := dedup (values.insertionSort (· ≤ ·))

def nonempty (value : String) : Option String := if value = "" then none else some value

def digestValue (r : LegacyRecordInput) : DigestValue where
  sourceRecordKey := r.sourceRecordKey
  providerPostId := r.providerPostId
  urlProviderPostId := r.urlProviderPostId
  canonicalUrlDigest := r.canonicalUrlDigest
  contentDigest := sha256Hex env.sha256 (utf8 r.text)
  postedAt := r.postedAt
  bookmarkedAt := r.bookmarkedAt
  syncedAt := r.syncedAt
  categories := r.categories
  folderIds := r.folderIds
  folderNames := r.folderNames

def recordDigest (r : LegacyRecordInput) : Digest := sha256Hex env.sha256 (env.toVec (digestValue env r))

def sortedInput (input : LegacyRecordInput) : LegacyRecordInput :=
  {input with
    categories := sortUnique input.categories
    folderIds := sortUnique input.folderIds
    folderNames := sortUnique input.folderNames}

def recordOf (r : LegacyRecordInput) : LegacyRecord :=
  ⟨r.sourceRecordKey,r.providerPostId,r.urlProviderPostId,r.canonicalUrlDigest,r.text,r.postedAt,r.bookmarkedAt,r.syncedAt,
    r.categories,r.folderIds,r.folderNames,recordDigest env r⟩

def buildRecord (input : LegacyRecordInput) : Checked LegacyRecord :=
  if input.sourceRecordKey = "" then .error (.invalidField "id") else .ok (recordOf env (sortedInput input))

def finishBatch (sourceKind : LegacySourceKind) (sourceVersion : LegacySourceVersion) (sourceDigest : Digest)
    (records : List LegacyRecord) : Checked PreflightBatch :=
  match Gathering.gather LegacyRecord.sourceRecordKey LegacyRecord.recordDigest [] records with
  | some unique => .ok ⟨sourceKind,sourceVersion,sourceDigest,unique⟩
  | none => .error .duplicateSourceKey

end Records

section Csv
variable (env : Environment) (limits : Limits)

def monolithHeaders : List (List Char) :=
  ["request_id","bookmark_external_id","x_category","tweet_text","tweet_text_tsv","tweet_author","tweet_url","posted_at",
    "synced_at"].map String.toList

def csvInput (row : List (List Char)) : Checked LegacyRecordInput :=
  match row.map String.ofList with
  | [requestId,bookmarkExternalId,category,tweetText,_,_,tweetUrl,postedAt,syncedAt] => do
    validateText "tweet_text" tweetText limits.maxTextBytes
    let (urlProviderPostId,canonicalUrlDigest) := parseXStatusUrl env tweetUrl
    let postedAt ← parseOptionalTimestamp (readers env) "posted_at" postedAt
    let syncedAt ← parseRequiredTimestamp (readers env) "synced_at" syncedAt
    .ok ⟨requestId,nonempty bookmarkExternalId,urlProviderPostId,canonicalUrlDigest,tweetText,postedAt,none,syncedAt,
      (nonempty category).toList,[],[]⟩
  | _ => .error .invalidEncoding

def csvRecord (row : List (List Char)) : Checked LegacyRecord := do
  buildRecord env (← csvInput env limits row)

def preflightMonolithCsv (reads : FileReads) : Checked PreflightBatch := do
  let bytes ← readSourceBytes reads limits.maxBytes
  let text ← fromUtf8 bytes
  match ← parseCsv text with
  | [] => .error .unsupportedSourceVersion
  | header::rows =>
    if header ≠ monolithHeaders then .error .unsupportedSourceVersion
    else if limits.maxRows < rows.length then .error .rowLimitExceeded
    else do
      let records ← rows.mapM (csvRecord env limits)
      finishBatch .monolithBookmarkMetadataCsv .monolithBookmarkMetadata (sha256Hex env.sha256 bytes) records

end Csv

section Jsonl
variable (env : Environment) (limits : Limits)

def stripReturn (line : List Char) : List Char := if line.getLast? = some '\r' then line.dropLast else line

/- str::lines: what stands behind the last line feed is a line where it is not empty. -/
def lines (text : List Char) : List (List Char) :=
  (text.splitOn '\n').dropLast.map stripReturn ++ ((text.splitOn '\n').getLast?.toList.filter (fun line => line ≠ []))

def jsonlRecord (line : List Char) : Checked LegacyRecord :=
  match env.fromStr (String.ofList line) with
  | none => .error .invalidEncoding
  | some value => do buildRecord env (← preflightRecord (readers env) limits.toSourceLimits value)

def jsonlRecords : Nat → List (List Char) → Checked (List LegacyRecord)
  | _,[] => .ok []
  | n,line::rest =>
    if n = limits.maxRows then .error .rowLimitExceeded
    else do
      let record ← jsonlRecord env limits line
      let others ← jsonlRecords (n + 1) rest
      .ok (record::others)

def preflightFieldTheoryJsonl (reads : FileReads) : Checked PreflightBatch := do
  let bytes ← readSourceBytes reads limits.maxBytes
  let text ← fromUtf8 bytes
  let records ← jsonlRecords env limits 0 ((lines text).filter (fun line => trim line ≠ []))
  finishBatch .fieldTheoryJsonl .fieldTheoryJsonl1 (sha256Hex env.sha256 bytes) records

end Jsonl

section Sqlite
variable (env : Environment) (limits : Limits)

inductive SqliteValue where
  | null
  | text (value : String)
  | other
  deriving DecidableEq, Repr

structure SqliteRow where
  id : SqliteValue
  tweetId : SqliteValue
  url : SqliteValue
  text : SqliteValue
  postedAt : SqliteValue
  bookmarkedAt : SqliteValue
  syncedAt : SqliteValue
  categories : SqliteValue
  primaryCategory : SqliteValue
  folderIds : SqliteValue
  folderNames : SqliteValue
  deriving DecidableEq, Repr

/- What the immutable connection answers; none is a statement that fails. The rows are in the
order of their id. -/
structure SqliteDatabase where
  opens : Bool
  schemaVersion : Option String
  columns : Option (List String)
  rows : Option (List SqliteRow)
  closes : Bool

structure SqliteSource where
  before : FileReads
  database : SqliteDatabase
  after : FileReads

def sqliteColumns : List String :=
  ["id","tweet_id","url","text","author_handle","author_name","author_profile_image_url","posted_at","bookmarked_at",
    "synced_at","conversation_id","in_reply_to_status_id","quoted_status_id","language","like_count","repost_count",
    "reply_count","quote_count","bookmark_count","view_count","media_count","link_count","links_json","tags_json",
    "ingested_via","categories","primary_category","github_urls","domains","primary_domain","quoted_tweet_json",
    "article_title","article_text","article_site","enriched_at","folder_ids","folder_names"]

def sqliteString (value : SqliteValue) (field : String) : Checked String :=
  match value with
  | .text value => .ok value
  | _ => .error (.invalidField field)

def sqliteOptionalString (value : SqliteValue) (field : String) : Checked (Option String) :=
  match value with
  | .null => .ok none
  | .text value => .ok (some value)
  | .other => .error (.invalidField field)

def refuse (refused : Prop) [Decidable refused] (error : LegacyTransitionError) : Checked Unit :=
  if refused then .error error else .ok ()

def queried {α : Type} : Option α → Checked α
  | some answer => .ok answer
  | none => .error .sourceDatabase

def stringItem : Json → Checked String
  | .string value => .ok value
  | _ => .error .invalidEncoding

def commaList (value : String) : List String :=
  (((value.toList.splitOn ',').map trim).filter (fun item => item ≠ [])).map String.ofList

def parseLegacyList (value : Option String) : Checked (List String) :=
  match value.bind nonempty with
  | none => .ok []
  | some value =>
    if (value.toList.dropWhile isWhitespace).head? = some '[' then
      match env.fromStr value with
      | some (.array items) => do
        let values ← items.mapM stringItem
        .ok (values.filter (fun item => item ≠ ""))
      | _ => .error .invalidEncoding
    else .ok (commaList value)

def mergeLegacyLists (categories primary : Option String) : Checked (List String) := do
  let values ← parseLegacyList env categories
  .ok (sortUnique (values ++ (primary.bind nonempty).toList))

/- The LIMIT of the query: one row more than are allowed, in an i64. -/
def queryLimit (maxRows : Nat) : Nat := min ((if maxRows < 2 ^ 63 then maxRows else 2 ^ 63 - 2) + 1) (2 ^ 63 - 1)

def sqliteInput (row : SqliteRow) : Checked LegacyRecordInput := do
  let sourceRecordKey ← sqliteString row.id "id"
  let providerPostId ← sqliteString row.tweetId "tweet_id"
  let url ← sqliteString row.url "url"
  let text ← sqliteString row.text "text"
  validateText "text" text limits.maxTextBytes
  let postedAt ← sqliteOptionalString row.postedAt "posted_at"
  let bookmarkedAt ← sqliteOptionalString row.bookmarkedAt "bookmarked_at"
  let syncedAt ← sqliteString row.syncedAt "synced_at"
  let categories ← mergeLegacyLists env (← sqliteOptionalString row.categories "categories")
    (← sqliteOptionalString row.primaryCategory "primary_category")
  let folderIds ← parseLegacyList env (← sqliteOptionalString row.folderIds "folder_ids")
  let folderNames ← parseLegacyList env (← sqliteOptionalString row.folderNames "folder_names")
  let (urlProviderPostId,canonicalUrlDigest) := parseXStatusUrl env url
  let postedAt ← parseOptionalTimestamp (readers env) "posted_at" (postedAt.getD "")
  let bookmarkedAt ← parseOptionalTimestamp (readers env) "bookmarked_at" (bookmarkedAt.getD "")
  let syncedAt ← parseRequiredTimestamp (readers env) "synced_at" syncedAt
  .ok ⟨sourceRecordKey,some providerPostId,urlProviderPostId,canonicalUrlDigest,text,postedAt,bookmarkedAt,syncedAt,
    categories,folderIds,folderNames⟩

def sqliteRecord (row : SqliteRow) : Checked LegacyRecord := do
  buildRecord env (← sqliteInput env limits row)

def preflightFieldTheorySqlite (source : SqliteSource) : Checked PreflightBatch := do
  let before ← readSourceBytes source.before limits.maxBytes
  refuse (source.database.opens = false) .sourceDatabase
  let schemaVersion ← queried source.database.schemaVersion
  refuse (schemaVersion ≠ "6") .unsupportedSourceVersion
  let columns ← queried source.database.columns
  match columns.find? forbiddenFieldName with
  | some field => .error (.forbiddenField field)
  | none => do
    refuse (columns ≠ sqliteColumns) .unsupportedSqliteSchema
    let rows ← queried (source.database.rows.map (fun rows => rows.take (queryLimit limits.maxRows)))
    refuse (limits.maxRows < rows.length) .rowLimitExceeded
    let records ← rows.mapM (sqliteRecord env limits)
    refuse (source.database.closes = false) .sourceDatabase
    let after ← readSourceBytes source.after limits.maxBytes
    refuse (before ≠ after) .sourceChanged
    finishBatch .fieldTheorySqlite .fieldTheorySqlite6 (sha256Hex env.sha256 before) records

end Sqlite

inductive LegacySourceSelection where
  | monolithCsv (file : FileReads)
  | fieldTheory (jsonl : Option FileReads) (sqlite : Option SqliteSource)

def preflightSource (env : Environment) (selection : LegacySourceSelection) (limits : Limits) : Checked PreflightBatch :=
  match selection with
  | .monolithCsv file => preflightMonolithCsv env limits file
  | .fieldTheory (some file) _ => preflightFieldTheoryJsonl env limits file
  | .fieldTheory none (some source) => preflightFieldTheorySqlite env limits source
  | .fieldTheory none none => .error .missingSource

section Texts

theorem fromUtf8Written (text : String) : fromUtf8 (utf8 text) = .ok text.toList := by
  have same : (⟨(utf8 text).toArray⟩ : ByteArray) = text.toByteArray := rfl
  unfold fromUtf8
  rw [same,String.fromUTF8?,dif_pos text.isValidUTF8]
  rfl

/- A text in lines. The last one may have no end, and keeps its carriage return then. -/
inductive LinesText : List (List Char) → List Char → Prop where
  | nil : LinesText [] []
  | last {line} (inner : '\n' ∉ line) (filled : line ≠ []) : LinesText [line] line
  | cons {line ending rest text} (inner : '\n' ∉ line) (bare : ending = ['\n'] → line.getLast? ≠ some '\r')
      (ends : LineEnd ending) (others : LinesText rest text) : LinesText (line::rest) (line ++ ending ++ text)

theorem linesFirst {line text : List Char} (inner : '\n' ∉ line) :
    lines (line ++ '\n'::text) = stripReturn line::lines text := by
  have rest := List.splitOn_ne_nil '\n' text
  unfold lines
  rw [List.splitOn_append_cons_self_of_not_mem inner,List.dropLast_cons_of_ne_nil rest,List.getLast?_cons_of_ne_nil rest]
  rfl

theorem linesRead {written : List (List Char)} {text} (spelled : LinesText written text) : lines text = written := by
  induction spelled with
  | nil => rfl
  | @last line inner filled =>
    unfold lines
    rw [List.splitOn_eq_singleton inner]
    simp [filled]
  | @cons line ending rest text inner bare ends others ih =>
    cases ends with
    | lf => rw [List.append_assoc,List.singleton_append,linesFirst inner,ih,stripReturn,if_neg (bare rfl)]
    | crlf =>
      have inner' : '\n' ∉ line ++ ['\r'] := by simp [inner]
      have before : line ++ ['\r','\n'] ++ text = (line ++ ['\r']) ++ '\n'::text := by simp
      rw [before,linesFirst inner',ih,stripReturn,if_pos (by simp),List.dropLast_concat]

end Texts

section Lists
variable {values : List String}

def Ascending (values : List String) : Prop := values.Pairwise (· < ·)

theorem memDedup {value} : value ∈ dedup values ↔ value ∈ values := by
  induction values using dedup.induct with
  | case1 => rfl
  | case2 value => rfl
  | case3 a rest ih => simp [dedup,ih]
  | case4 a b rest apart ih => simp [dedup,apart,ih]

theorem dedupAscending (ordered : values.Pairwise (· ≤ ·)) : Ascending (dedup values) := by
  induction values using dedup.induct with
  | case1 => exact .nil
  | case2 value => exact List.pairwise_singleton _ value
  | case3 a rest ih =>
    rw [dedup,if_pos rfl]
    exact ih (List.pairwise_cons.mp ordered).2
  | case4 a b rest apart ih =>
    obtain ⟨below,others⟩ := List.pairwise_cons.mp ordered
    rw [dedup,if_neg apart]
    refine List.pairwise_cons.mpr ⟨?_,ih others⟩
    intro c member
    have next : a < b := lt_of_le_of_ne (below b List.mem_cons_self) apart
    rcases List.mem_cons.mp (memDedup.mp member) with rfl | later
    · exact next
    · exact lt_of_lt_of_le next ((List.pairwise_cons.mp others).1 c later)

theorem sortUniqueAscending : Ascending (sortUnique values) :=
  dedupAscending (List.pairwise_insertionSort (· ≤ ·) values)

end Lists

section Batches
variable {env : Environment} {limits : Limits} {batch : PreflightBatch}

def inputOf (r : LegacyRecord) : LegacyRecordInput :=
  ⟨r.sourceRecordKey,r.providerPostId,r.urlProviderPostId,r.canonicalUrlDigest,r.text,r.postedAt,r.bookmarkedAt,r.syncedAt,
    r.categories,r.folderIds,r.folderNames⟩

/- What a URL tells about its post: a status id and the digest of one address, or nothing. -/
inductive Addressed (env : Environment) : Option String → Option Digest → Prop where
  | unknown : Addressed env none none
  | status {id url} (named : id ≠ "") (digits : id.toList.all Char.isDigit = true) :
      Addressed env (some id) (some (sha256Hex env.sha256 (utf8 url)))

/- What every reader of a source checks before a record is built. -/
structure Admissible (env : Environment) (limits : Limits) (input : LegacyRecordInput) : Prop where
  fits : input.text.utf8ByteSize ≤ limits.maxTextBytes
  addressed : Addressed env input.urlProviderPostId input.canonicalUrlDigest

/- A record as it is built: it has a key, its lists are in order without repetition, its digest
is that of its own projection, its text fits and its URL names a status or nothing. -/
structure Built (env : Environment) (limits : Limits) (r : LegacyRecord) : Prop where
  keyed : r.sourceRecordKey ≠ ""
  categories : Ascending r.categories
  folderIds : Ascending r.folderIds
  folderNames : Ascending r.folderNames
  digest : r.recordDigest = recordDigest env (inputOf r)
  fits : r.text.utf8ByteSize ≤ limits.maxTextBytes
  addressed : Addressed env r.urlProviderPostId r.canonicalUrlDigest

/- What a batch promises to the import. -/
structure Canonical (env : Environment) (limits : Limits) (batch : PreflightBatch) : Prop where
  ordered : batch.records.Pairwise (fun a b => a.sourceRecordKey < b.sourceRecordKey)
  built : ∀ r ∈ batch.records, Built env limits r
  bounded : batch.records.length ≤ limits.maxRows
  known : ∃ kind version, sourceDatabaseIdentity batch = .ok (kind,version)

theorem urlAddressed (value : String) : Addressed env (parseXStatusUrl env value).1 (parseXStatusUrl env value).2 := by
  unfold parseXStatusUrl
  split
  · exact .unknown
  split
  · exact .unknown
  split
  · exact .unknown
  dsimp only
  split
  · exact .unknown
  split
  · exact .unknown
  split
  · exact .unknown
  rename_i named
  obtain ⟨filled,digits⟩ := not_or.mp named
  exact .status filled (by simpa only [Bool.not_eq_false] using digits)

theorem buildRecordBuilt {input r} (ok : buildRecord env input = .ok r) (admissible : Admissible env limits input) :
    Built env limits r := by
  unfold buildRecord at ok
  split at ok
  · contradiction
  · rename_i keyed
    cases Except.ok.inj ok
    exact ⟨keyed,sortUniqueAscending,sortUniqueAscending,sortUniqueAscending,rfl,admissible.fits,admissible.addressed⟩

theorem validateTextOk {field value : String} {maxBytes : Nat} :
    validateText field value maxBytes = .ok () ↔ value.utf8ByteSize ≤ maxBytes := by
  unfold validateText
  split <;> simp <;> omega

theorem csvBuilt {row r} (ok : csvRecord env limits row = .ok r) : Built env limits r := by
  obtain ⟨input,read,built⟩ := bindOk.mp ok
  refine buildRecordBuilt built ?_
  unfold csvInput at read
  split at read
  · obtain ⟨⟨⟩,fits,read⟩ := bindOk.mp read
    obtain ⟨posted,-,read⟩ := bindOk.mp read
    obtain ⟨synced,-,read⟩ := bindOk.mp read
    cases Except.ok.inj read
    exact ⟨validateTextOk.mp fits,urlAddressed _⟩
  · contradiction

theorem readRecordAdmissible {object input} (ok : readRecord (readers env) limits.toSourceLimits object = .ok input) :
    Admissible env limits input := by
  obtain ⟨key,-,ok⟩ := bindOk.mp ok
  obtain ⟨provider,-,ok⟩ := bindOk.mp ok
  obtain ⟨url,-,ok⟩ := bindOk.mp ok
  obtain ⟨text,-,ok⟩ := bindOk.mp ok
  obtain ⟨⟨⟩,fits,ok⟩ := bindOk.mp ok
  obtain ⟨ids,-,ok⟩ := bindOk.mp ok
  obtain ⟨names,-,ok⟩ := bindOk.mp ok
  obtain ⟨posted,-,ok⟩ := bindOk.mp ok
  obtain ⟨bookmarked,-,ok⟩ := bindOk.mp ok
  obtain ⟨synced,-,ok⟩ := bindOk.mp ok
  cases Except.ok.inj ok
  exact ⟨validateTextOk.mp fits,urlAddressed _⟩

theorem jsonlBuilt {line r} (ok : jsonlRecord env limits line = .ok r) : Built env limits r := by
  unfold jsonlRecord at ok
  split at ok
  · contradiction
  · obtain ⟨input,read,built⟩ := bindOk.mp ok
    refine buildRecordBuilt built ?_
    unfold preflightRecord at read
    split at read
    · contradiction
    · obtain ⟨⟨⟩,-,read⟩ := bindOk.mp read
      split at read
      · obtain ⟨⟨⟩,-,read⟩ := bindOk.mp read
        obtain ⟨⟨⟩,-,read⟩ := bindOk.mp read
        exact readRecordAdmissible read
      · contradiction

theorem sqliteBuilt {row r} (ok : sqliteRecord env limits row = .ok r) : Built env limits r := by
  obtain ⟨input,read,built⟩ := bindOk.mp ok
  refine buildRecordBuilt built ?_
  obtain ⟨key,-,read⟩ := bindOk.mp read
  obtain ⟨provider,-,read⟩ := bindOk.mp read
  obtain ⟨url,-,read⟩ := bindOk.mp read
  obtain ⟨text,-,read⟩ := bindOk.mp read
  obtain ⟨⟨⟩,fits,read⟩ := bindOk.mp read
  obtain ⟨posted,-,read⟩ := bindOk.mp read
  obtain ⟨bookmarked,-,read⟩ := bindOk.mp read
  obtain ⟨synced,-,read⟩ := bindOk.mp read
  obtain ⟨categories,-,read⟩ := bindOk.mp read
  obtain ⟨primary,-,read⟩ := bindOk.mp read
  obtain ⟨merged,-,read⟩ := bindOk.mp read
  obtain ⟨ids,-,read⟩ := bindOk.mp read
  obtain ⟨folderIds,-,read⟩ := bindOk.mp read
  obtain ⟨names,-,read⟩ := bindOk.mp read
  obtain ⟨folderNames,-,read⟩ := bindOk.mp read
  obtain ⟨postedAt,-,read⟩ := bindOk.mp read
  obtain ⟨bookmarkedAt,-,read⟩ := bindOk.mp read
  obtain ⟨syncedAt,-,read⟩ := bindOk.mp read
  cases Except.ok.inj read
  exact ⟨validateTextOk.mp fits,urlAddressed _⟩

theorem finishOk {kind version digest records} (ok : finishBatch kind version digest records = .ok batch) :
    ∃ unique, Gathering.gather LegacyRecord.sourceRecordKey LegacyRecord.recordDigest [] records = some unique ∧
      batch = ⟨kind,version,digest,unique⟩ := by
  unfold finishBatch at ok
  split at ok
  · rename_i unique gathered
    exact ⟨unique,gathered,(Except.ok.inj ok).symm⟩
  · contradiction

/- The records of a source that is read without an error make a canonical batch. -/
theorem finishCanonical (limits : Limits) {kind version digest records}
    (ok : finishBatch kind version digest records = .ok batch)
    (built : ∀ r ∈ records, Built env limits r) (few : records.length ≤ limits.maxRows)
    (known : ∃ k v, sourceDatabaseIdentity ⟨kind,version,digest,[]⟩ = .ok (k,v)) :
    Canonical env limits batch ∧ batch.sourceDigest = digest := by
  obtain ⟨unique,gathers,rfl⟩ := finishOk ok
  obtain ⟨-,gathered⟩ := Gathering.gatherGathers gathers
  have distinct : unique.Nodup := gathered.ordered.imp (fun below same => (ne_of_lt below) (congrArg _ same))
  have within_ : unique ⊆ records := fun r stays => Gathering.keptMember gathered stays
  refine ⟨⟨gathered.ordered,fun r stays => built r (within_ stays),?_,known⟩,rfl⟩
  exact (distinct.subperm within_).length_le.trans few

theorem readStable {reads : FileReads} {maxBytes : Nat} {bytes} (ok : readSourceBytes reads maxBytes = .ok bytes) :
    reads.first = some bytes ∧ reads.second = some bytes ∧ bytes.length ≤ maxBytes := by
  unfold readSourceBytes at ok
  split at ok
  · contradiction
  split at ok
  · contradiction
  split at ok
  · contradiction
  split at ok
  · contradiction
  rename_i first once
  split at ok
  · contradiction
  rename_i fits
  split at ok
  · contradiction
  rename_i second again
  split at ok
  · contradiction
  split at ok
  · contradiction
  rename_i same
  cases Except.ok.inj ok
  exact ⟨once,again.trans (congrArg some (not_not.mp same).symm),not_lt.mp fits⟩

theorem csvOk {reads} (ok : preflightMonolithCsv env limits reads = .ok batch) : ∃ bytes text rows records,
    readSourceBytes reads limits.maxBytes = .ok bytes ∧ fromUtf8 bytes = .ok text ∧
      parseCsv text = .ok (monolithHeaders::rows) ∧ rows.length ≤ limits.maxRows ∧
      rows.mapM (csvRecord env limits) = .ok records ∧
      finishBatch .monolithBookmarkMetadataCsv .monolithBookmarkMetadata (sha256Hex env.sha256 bytes) records = .ok batch := by
  obtain ⟨bytes,read,ok⟩ := bindOk.mp ok
  obtain ⟨text,decoded,ok⟩ := bindOk.mp ok
  obtain ⟨parsed,parses,ok⟩ := bindOk.mp ok
  split at ok
  · contradiction
  rename_i header rows
  split at ok
  · contradiction
  rename_i named
  split at ok
  · contradiction
  rename_i few
  obtain ⟨records,built,ok⟩ := bindOk.mp ok
  cases not_not.mp named
  exact ⟨bytes,text,rows,records,read,decoded,parses,not_lt.mp few,built,ok⟩

theorem jsonlOk {n : Nat} {rest records} (below : n ≤ limits.maxRows) :
    jsonlRecords env limits n rest = .ok records ↔
      rest.mapM (jsonlRecord env limits) = .ok records ∧ n + rest.length ≤ limits.maxRows := by
  induction rest generalizing n records with
  | nil => simp [jsonlRecords,below,pure,Except.pure]
  | cons line rest ih =>
    rw [jsonlRecords]
    split
    · rename_i full
      simp only [List.length_cons,reduceCtorEq,false_iff,not_and,not_le]
      omega
    · rename_i room
      simp only [List.mapM_cons,bindOk,@ih (n + 1) _ (by omega),List.length_cons,pure,Except.pure]
      constructor
      · rintro ⟨r,first,rs,⟨others,few⟩,whole⟩
        exact ⟨⟨r,first,rs,others,whole⟩,by omega⟩
      · rintro ⟨⟨r,first,rs,others,whole⟩,few⟩
        exact ⟨r,first,rs,⟨others,by omega⟩,whole⟩

theorem refuseOk {refused : Prop} [Decidable refused] {error} : refuse refused error = .ok () ↔ ¬refused := by
  unfold refuse
  split <;> simp [*]

theorem sqliteOk {source} (ok : preflightFieldTheorySqlite env limits source = .ok batch) :
    ∃ bytes rows records, readSourceBytes source.before limits.maxBytes = .ok bytes ∧
      readSourceBytes source.after limits.maxBytes = .ok bytes ∧ List.length rows ≤ limits.maxRows ∧
      rows.mapM (sqliteRecord env limits) = Except.ok records ∧
      finishBatch .fieldTheorySqlite .fieldTheorySqlite6 (sha256Hex env.sha256 bytes) records = .ok batch := by
  obtain ⟨bytes,before,ok⟩ := bindOk.mp ok
  obtain ⟨⟨⟩,-,ok⟩ := bindOk.mp ok
  obtain ⟨version,-,ok⟩ := bindOk.mp ok
  obtain ⟨⟨⟩,-,ok⟩ := bindOk.mp ok
  obtain ⟨columns,-,ok⟩ := bindOk.mp ok
  split at ok
  · contradiction
  obtain ⟨⟨⟩,-,ok⟩ := bindOk.mp ok
  obtain ⟨rows,-,ok⟩ := bindOk.mp ok
  obtain ⟨⟨⟩,few,ok⟩ := bindOk.mp ok
  obtain ⟨records,built,ok⟩ := bindOk.mp ok
  obtain ⟨⟨⟩,-,ok⟩ := bindOk.mp ok
  obtain ⟨after,again,ok⟩ := bindOk.mp ok
  obtain ⟨⟨⟩,same,finishes⟩ := bindOk.mp ok
  cases not_not.mp (refuseOk.mp same)
  exact ⟨bytes,rows,records,before,again,not_lt.mp (refuseOk.mp few),built,finishes⟩

end Batches

def readText (limits : Limits) (reads : FileReads) : Checked (List Char) := do
  fromUtf8 (← readSourceBytes reads limits.maxBytes)

def recordLines (written : List (List Char)) : List (List Char) := written.filter (fun line => trim line ≠ [])

section Samples

def sampleLine (id : Char) : List Char :=
  ['\x7b','"','i','d','"',':','"',id] ++
    "\",\"syncedAt\":\"1970-01-01T00:00:00Z\",\"text\":\"t\",\"tweetId\":\"7\",\"url\":\"https://x.com/a/status/7\"\x7d".toList

def sampleValue (id : Char) : Json :=
  .object [("id",.string (String.ofList [id])),("syncedAt",.string "1970-01-01T00:00:00Z"),("text",.string "t"),
    ("tweetId",.string "7"),("url",.string "https://x.com/a/status/7")]

def sampleText (ending : List Char) : List (List Char) → List Char
  | [] => []
  | line::rest => line ++ ending ++ sampleText ending rest

def sampleFile (ending : List Char) (rows : List (List Char)) : FileReads :=
  let bytes := utf8 (String.ofList (sampleText ending rows))
  ⟨some (true,bytes.length),some bytes,some bytes⟩

/- Two records, and the same with the second one twice and a blank line. -/
def plainRows : List (List Char) := [sampleLine '1',sampleLine '2']

def repeatedRows : List (List Char) := [sampleLine '2',[],sampleLine '1',sampleLine '2']

def jsonString (text : String) : String := "\"" ++ text ++ "\""

def nullable (text : Option String) : String := text.elim "null" jsonString

def listText (values : List String) : String := "[" ++ String.intercalate "," (values.map jsonString) ++ "]"

def instantText (_ : DateTime) : String := "1970-01-01T00:00:00Z"

/- The projection as it is printed, where no text needs an escape. -/
def projectionText (value : DigestValue) : String :=
  "\x7b\"bookmarked_at\":" ++ nullable (value.bookmarkedAt.map instantText) ++
    ",\"canonical_url_digest\":" ++ nullable value.canonicalUrlDigest ++ ",\"categories\":" ++ listText value.categories ++
    ",\"content_digest\":" ++ jsonString value.contentDigest ++ ",\"folder_ids\":" ++ listText value.folderIds ++
    ",\"folder_names\":" ++ listText value.folderNames ++ ",\"posted_at\":" ++ nullable (value.postedAt.map instantText) ++
    ",\"provider_post_id\":" ++ nullable value.providerPostId ++ ",\"source_record_key\":" ++ jsonString value.sourceRecordKey ++
    ",\"synced_at\":" ++ jsonString (instantText value.syncedAt) ++
    ",\"url_provider_post_id\":" ++ nullable value.urlProviderPostId ++ "\x7d"

def sampleProjection (key : String) : DigestValue where
  sourceRecordKey := key
  providerPostId := some "7"
  urlProviderPostId := some "7"
  canonicalUrlDigest := some "366ccbc15830b02a5d1955e5adfb86774c0d95973ee31a57f710cc3db77e1c5c"
  contentDigest := "e3b98a4da31a127d4bde6e43033f66ba274cab0eb7eb1c70ec41402bf6273dd8"
  postedAt := none
  bookmarkedAt := none
  syncedAt := ⟨0,DateTime.epochRepresentable⟩
  categories := []
  folderIds := []
  folderNames := []

/- SHA-256 of what the preflight of either file digests. -/
def sampleDigests : List (Bytes × Bytes) := [
  (utf8 "t",[227,185,138,77,163,26,18,125,75,222,110,67,3,63,102,186,39,76,171,14,183,235,28,112,236,65,64,43,246,39,61,216]),
  (utf8 "https://x.com/a/status/7",
    [54,108,203,193,88,48,176,42,93,25,85,229,173,251,134,119,76,13,149,151,62,227,26,87,247,16,204,61,183,126,28,92]),
  (utf8 (projectionText (sampleProjection "1")),
    [186,94,181,14,245,19,143,128,156,68,184,218,136,26,172,248,204,32,84,34,134,250,122,199,58,51,73,94,137,224,21,77]),
  (utf8 (projectionText (sampleProjection "2")),
    [119,6,177,141,55,210,137,216,126,0,152,244,19,1,242,208,194,218,113,72,211,55,13,0,15,73,165,149,224,2,134,190]),
  (utf8 (String.ofList (sampleText ['\n'] plainRows)),
    [26,156,121,240,168,93,205,255,98,200,157,116,134,203,180,224,28,85,178,202,175,42,85,67,96,132,226,242,11,152,57,223]),
  (utf8 (String.ofList (sampleText ['\r','\n'] repeatedRows)),
    [54,234,21,199,49,94,217,85,223,165,86,112,88,4,198,18,129,119,104,23,228,105,180,197,182,57,203,171,130,187,1,184])]

def sampleEnvironment : Environment where
  parseFromRfc3339 value := if value = "1970-01-01T00:00:00Z" then some ⟨0,DateTime.epochRepresentable⟩ else none
  parseUrl value := if value = "https://x.com/a/status/7" then some ⟨some "x.com",some ["a","status","7"],value⟩ else none
  sha256 bytes := (sampleDigests.lookup bytes).getD []
  toVec value := utf8 (projectionText value)
  fromStr line := (['1','2'].find? (fun id => line = String.ofList (sampleLine id))).map sampleValue

def plainFile : FileReads := sampleFile ['\n'] plainRows

def repeatedFile : FileReads := sampleFile ['\r','\n'] repeatedRows

def sampleLimits : Limits where
  maxTextBytes := 1
  maxJsonDepth := 1
  maxBytes := max (plainFile.first.getD []).length (repeatedFile.first.getD []).length
  maxRows := 3

theorem sampleLines : ∀ id ∈ ['1','2'],
    '\n' ∉ sampleLine id ∧ (sampleLine id).getLast? ≠ some '\r' ∧ trim (sampleLine id) ≠ [] := by
  have checked : ['1','2'].all (fun id => (sampleLine id).all (fun c => c != '\n') && (sampleLine id).getLast? != some '\r' &&
      !(trim (sampleLine id)).isEmpty) = true := by decide +kernel
  intro id known
  have line := List.all_eq_true.mp checked id known
  simp only [Bool.and_eq_true,bne_iff_ne,Bool.not_eq_true',List.isEmpty_eq_false_iff] at line
  refine ⟨fun member => ?_,line.1.2,line.2⟩
  exact absurd (List.all_eq_true.mp line.1.1 _ member) (by decide)

theorem repeatedLines : ∀ line ∈ repeatedRows, '\n' ∉ line ∧ line.getLast? ≠ some '\r' := by
  intro line member
  simp only [repeatedRows,List.mem_cons,List.not_mem_nil,or_false] at member
  rcases member with rfl | rfl | rfl | rfl
  · exact ⟨(sampleLines '2' (by simp)).1,(sampleLines '2' (by simp)).2.1⟩
  · simp
  · exact ⟨(sampleLines '1' (by simp)).1,(sampleLines '1' (by simp)).2.1⟩
  · exact ⟨(sampleLines '2' (by simp)).1,(sampleLines '2' (by simp)).2.1⟩

theorem sampleSpelled {ending : List Char} (ends : LineEnd ending) {rows : List (List Char)} (known : rows ⊆ repeatedRows) :
    LinesText rows (sampleText ending rows) := by
  induction rows with
  | nil => exact .nil
  | cons line rows ih =>
    obtain ⟨first,others⟩ := List.cons_subset.mp known
    obtain ⟨inner,bare⟩ := repeatedLines line first
    exact .cons inner (fun _ => bare) ends (ih others)

theorem sampleRead {ending rows} (short : (utf8 (String.ofList (sampleText ending rows))).length ≤ sampleLimits.maxBytes) :
    readSourceBytes (sampleFile ending rows) sampleLimits.maxBytes = .ok (utf8 (String.ofList (sampleText ending rows))) := by
  simp [readSourceBytes,sampleFile,not_lt.mpr short]

theorem sampleReadText {ending rows} (short : (utf8 (String.ofList (sampleText ending rows))).length ≤ sampleLimits.maxBytes) :
    readText sampleLimits (sampleFile ending rows) = .ok (sampleText ending rows) :=
  bindOk.mpr ⟨_,sampleRead short,by rw [fromUtf8Written,String.toList_ofList]⟩

theorem plainRead : readText sampleLimits plainFile = .ok (sampleText ['\n'] plainRows) := sampleReadText (le_max_left _ _)

theorem repeatedRead : readText sampleLimits repeatedFile = .ok (sampleText ['\r','\n'] repeatedRows) :=
  sampleReadText (le_max_right _ _)

theorem plainSpelled : LinesText plainRows (sampleText ['\n'] plainRows) := sampleSpelled .lf (by simp [plainRows,repeatedRows])

theorem plainRecords : recordLines plainRows = plainRows := by
  simp [recordLines,plainRows,(sampleLines '1' (by simp)).2.2,(sampleLines '2' (by simp)).2.2]

theorem repeatedRecords : recordLines repeatedRows = [sampleLine '2',sampleLine '1',sampleLine '2'] := by
  have blank : trim [] = [] := rfl
  simp [recordLines,repeatedRows,blank,(sampleLines '1' (by simp)).2.2,(sampleLines '2' (by simp)).2.2]

theorem sampleRecord : ∀ id ∈ ['1','2'], ∃ r, jsonlRecord sampleEnvironment sampleLimits (sampleLine id) = .ok r ∧
    r.sourceRecordKey = String.ofList [id] := by
  intro id member
  have checked : ['1','2'].all (fun id => ((preflightRecord (readers sampleEnvironment) ⟨1,1⟩ (sampleValue id) >>=
      buildRecord sampleEnvironment).map LegacyRecord.sourceRecordKey).toOption == some (String.ofList [id])) = true := by
    decide +kernel
  have read := beq_iff_eq.mp (List.all_eq_true.mp checked id member)
  have shown : sampleEnvironment.fromStr (String.ofList (sampleLine id)) = some (sampleValue id) := by
    have same : ∀ known, String.ofList (sampleLine id) = String.ofList (sampleLine known) ↔ id = known := by
      intro known
      rw [String.ofList_inj,sampleLine,sampleLine,List.append_cancel_right_eq]
      simp
    have found : ['1','2'].find? (fun known => id = known) = some id := by
      rcases List.mem_pair.mp member with rfl | rfl <;> rfl
    simp only [sampleEnvironment,same,found,Option.map_some]
  have made : jsonlRecord sampleEnvironment sampleLimits (sampleLine id) =
      preflightRecord (readers sampleEnvironment) ⟨1,1⟩ (sampleValue id) >>= buildRecord sampleEnvironment := by
    unfold jsonlRecord
    rw [shown]
    rfl
  rw [← made] at read
  cases built : jsonlRecord sampleEnvironment sampleLimits (sampleLine id) with
  | error e => simp [built,Except.map,Except.toOption] at read
  | ok r => exact ⟨r,rfl,by simpa [built,Except.map,Except.toOption] using read⟩

theorem plainAccepted : ∃ batch,
    preflightSource sampleEnvironment (.fieldTheory (some plainFile) none) sampleLimits = .ok batch := by
  obtain ⟨first,makesFirst,keyed⟩ := sampleRecord '1' (by simp)
  obtain ⟨second,makesSecond,keyed'⟩ := sampleRecord '2' (by simp)
  have apart : first.sourceRecordKey ≠ second.sourceRecordKey := by
    rw [keyed,keyed']
    decide
  have agreed : Gathering.Agreed LegacyRecord.sourceRecordKey LegacyRecord.recordDigest [first,second] := by
    simp [Gathering.Agreed,apart,apart.symm]
  obtain ⟨unique,gathers⟩ := Gathering.gatherReturns agreed
  have built : plainRows.mapM (jsonlRecord sampleEnvironment sampleLimits) = .ok [first,second] := by
    rw [plainRows,List.mapM_cons,List.mapM_cons,makesFirst,makesSecond]
    rfl
  have makes := (jsonlOk (Nat.zero_le _)).mpr ⟨built,by simp [plainRows,sampleLimits]⟩
  rw [← plainRecords,← linesRead plainSpelled] at makes
  obtain ⟨bytes,opened,decodes⟩ := bindOk.mp plainRead
  have finishes (digest : Digest) : finishBatch .fieldTheoryJsonl .fieldTheoryJsonl1 digest [first,second] =
      .ok ⟨.fieldTheoryJsonl,.fieldTheoryJsonl1,digest,unique⟩ := by simp only [finishBatch,gathers]
  exact ⟨_,bindOk.mpr ⟨_,opened,bindOk.mpr ⟨_,decodes,bindOk.mpr ⟨_,makes,finishes _⟩⟩⟩⟩

end Samples

section Results
variable {env : Environment} {limits : Limits} {batch : PreflightBatch}

def selectedFile : LegacySourceSelection → Option FileReads
  | .monolithCsv file => some file
  | .fieldTheory (some file) _ => some file
  | .fieldTheory none (some source) => some source.before
  | .fieldTheory none none => none

theorem sourceCanonical {row : Type} {rows : List row} {record : row → Checked LegacyRecord} {reads : FileReads}
    {kind version bytes records} (read : readSourceBytes reads limits.maxBytes = .ok bytes) (few : rows.length ≤ limits.maxRows)
    (built : rows.mapM record = .ok records) (each : ∀ {line r}, record line = .ok r → Built env limits r)
    (known : ∃ k v, sourceDatabaseIdentity ⟨kind,version,sha256Hex env.sha256 bytes,[]⟩ = .ok (k,v))
    (finishes : finishBatch kind version (sha256Hex env.sha256 bytes) records = .ok batch) :
    Canonical env limits batch ∧ reads.first = some bytes ∧ reads.second = some bytes ∧ bytes.length ≤ limits.maxBytes ∧
      batch.sourceDigest = sha256Hex env.sha256 bytes := by
  obtain ⟨once,again,short⟩ := readStable read
  obtain ⟨long,members⟩ := mapMResults built
  have canonical := finishCanonical limits finishes (fun r member => by
    obtain ⟨line,-,makes⟩ := (members r).mp member
    exact each makes) (long ▸ few) known
  exact ⟨canonical.1,once,again,short,canonical.2⟩

/- Whatever its source, a batch that the preflight returns is canonical, and it is named by the
digest of bytes that two reads of the file agreed on. -/
theorem batchesCanonical {selection} (ok : preflightSource env selection limits = .ok batch) :
    Canonical env limits batch ∧ ∃ reads bytes, selectedFile selection = some reads ∧ reads.first = some bytes ∧
      reads.second = some bytes ∧ bytes.length ≤ limits.maxBytes ∧ batch.sourceDigest = sha256Hex env.sha256 bytes := by
  unfold preflightSource at ok
  split at ok
  · rename_i file
    obtain ⟨bytes,text,rows,records,read,-,-,few,built,finishes⟩ := csvOk ok
    obtain ⟨canonical,said⟩ := sourceCanonical read few built csvBuilt ⟨_,_,rfl⟩ finishes
    exact ⟨canonical,file,bytes,rfl,said⟩
  · rename_i file sqlite
    obtain ⟨bytes,read,ok⟩ := bindOk.mp ok
    obtain ⟨text,-,ok⟩ := bindOk.mp ok
    obtain ⟨records,makes,finishes⟩ := bindOk.mp ok
    obtain ⟨built,few⟩ := (jsonlOk (Nat.zero_le _)).mp makes
    obtain ⟨canonical,said⟩ := sourceCanonical read (by omega) built jsonlBuilt ⟨_,_,rfl⟩ finishes
    exact ⟨canonical,file,bytes,rfl,said⟩
  · rename_i source
    obtain ⟨bytes,rows,records,read,-,few,built,finishes⟩ := sqliteOk ok
    obtain ⟨canonical,said⟩ := sourceCanonical read few built sqliteBuilt ⟨_,_,rfl⟩ finishes
    exact ⟨canonical,source.before,bytes,rfl,said⟩
  · contradiction

theorem batchesCanonicalAtLines : ∃ batch,
    preflightSource sampleEnvironment (.fieldTheory (some plainFile) none) sampleLimits = .ok batch ∧
      Canonical sampleEnvironment sampleLimits batch := by
  obtain ⟨batch,ok⟩ := plainAccepted
  exact ⟨batch,ok,(batchesCanonical ok).1⟩

def evidence (batch : PreflightBatch) : List (String × Digest) :=
  batch.records.map (fun r => (r.sourceRecordKey,r.recordDigest))

theorem finishRearranged {kind version digest records records'} (digest' : Digest) (same : ∀ r, r ∈ records ↔ r ∈ records')
    (ok : finishBatch kind version digest records = .ok batch) :
    ∃ batch', finishBatch kind version digest' records' = .ok batch' ∧ evidence batch' = evidence batch := by
  obtain ⟨unique,gathers,rfl⟩ := finishOk ok
  obtain ⟨unique',gathers',alike⟩ := Gathering.gatherRearranged same gathers
  exact ⟨⟨kind,version,digest',unique'⟩,by simp only [finishBatch,gathers'],alike⟩

/- A file, and one that holds the same rows: in any order, any number of times, with any line ends
and perhaps none behind the last row, in a CSV with any quoting and in JSON Lines with blank lines anywhere. -/
inductive Rearranged (limits : Limits) : LegacySourceSelection → LegacySourceSelection → Prop where
  | csv {reads reads' text text' rows rows'} (read : readText limits reads = .ok text)
      (read' : readText limits reads' = .ok text') (parsed : parseCsv text = .ok (monolithHeaders::rows))
      (written : FileText (monolithHeaders::rows') text') (same : ∀ row, row ∈ rows ↔ row ∈ rows')
      (few : rows'.length ≤ limits.maxRows) : Rearranged limits (.monolithCsv reads) (.monolithCsv reads')
  | jsonl {reads reads' text text' rows sqlite sqlite'} (read : readText limits reads = .ok text)
      (read' : readText limits reads' = .ok text') (written : LinesText rows text')
      (same : ∀ line, line ∈ recordLines (lines text) ↔ line ∈ recordLines rows)
      (few : (recordLines rows).length ≤ limits.maxRows) :
      Rearranged limits (.fieldTheory (some reads) sqlite) (.fieldTheory (some reads') sqlite')

theorem csvRearranged {reads reads' text text' rows rows'} (ok : preflightMonolithCsv env limits reads = .ok batch)
    (read : readText limits reads = .ok text) (read' : readText limits reads' = .ok text')
    (parses : parseCsv text = .ok (monolithHeaders::rows)) (written : FileText (monolithHeaders::rows') text')
    (same : ∀ row, row ∈ rows ↔ row ∈ rows') (few : rows'.length ≤ limits.maxRows) :
    ∃ batch', preflightMonolithCsv env limits reads' = .ok batch' ∧ evidence batch' = evidence batch := by
  obtain ⟨bytes,text₀,rows₀,records,opened,decodes,parsed,-,built,finishes⟩ := csvOk ok
  obtain ⟨bytes',opened',decodes'⟩ := bindOk.mp read'
  cases Except.ok.inj (read.symm.trans (bindOk.mpr ⟨bytes,opened,decodes⟩))
  cases Except.ok.inj (parses.symm.trans parsed)
  obtain ⟨records',built',members⟩ := mapMRearranged same built
  obtain ⟨batch',finishes',alike⟩ := finishRearranged (sha256Hex env.sha256 bytes') members finishes
  refine ⟨batch',?_,alike⟩
  unfold preflightMonolithCsv
  rw [opened',bindOk]
  refine ⟨bytes',rfl,bindOk.mpr ⟨text',decodes',bindOk.mpr ⟨_,parseFile written,?_⟩⟩⟩
  simp only [ne_eq,not_true_eq_false,if_false,if_neg (not_lt.mpr few)]
  exact bindOk.mpr ⟨records',built',finishes'⟩

theorem jsonlRearranged {reads reads' text text' rows} (ok : preflightFieldTheoryJsonl env limits reads = .ok batch)
    (read : readText limits reads = .ok text) (read' : readText limits reads' = .ok text') (written : LinesText rows text')
    (same : ∀ line, line ∈ recordLines (lines text) ↔ line ∈ recordLines rows)
    (few : (recordLines rows).length ≤ limits.maxRows) :
    ∃ batch', preflightFieldTheoryJsonl env limits reads' = .ok batch' ∧ evidence batch' = evidence batch := by
  obtain ⟨bytes,opened,ok⟩ := bindOk.mp ok
  obtain ⟨text₀,decodes,ok⟩ := bindOk.mp ok
  obtain ⟨records,makes,finishes⟩ := bindOk.mp ok
  obtain ⟨bytes',opened',decodes'⟩ := bindOk.mp read'
  cases Except.ok.inj (read.symm.trans (bindOk.mpr ⟨bytes,opened,decodes⟩))
  obtain ⟨built,-⟩ := (jsonlOk (Nat.zero_le _)).mp makes
  obtain ⟨records',built',members⟩ := mapMRearranged same built
  obtain ⟨batch',finishes',alike⟩ := finishRearranged (sha256Hex env.sha256 bytes') members finishes
  refine ⟨batch',?_,alike⟩
  have makes' : jsonlRecords env limits 0 (recordLines rows) = .ok records' :=
    (jsonlOk (Nat.zero_le _)).mpr ⟨built',by omega⟩
  rw [← linesRead written] at makes'
  exact bindOk.mpr ⟨bytes',opened',bindOk.mpr ⟨text',decodes',bindOk.mpr ⟨records',makes',finishes'⟩⟩⟩

/- A source that is accepted is accepted in every arrangement of its rows, and the import tells
its records by the same keys and digests. -/
theorem batchesRearranged {selection selection'} (ok : preflightSource env selection limits = .ok batch)
    (rearranged : Rearranged limits selection selection') :
    ∃ batch', preflightSource env selection' limits = .ok batch' ∧ evidence batch' = evidence batch := by
  cases rearranged with
  | csv read read' parsed written same few => exact csvRearranged ok read read' parsed written same few
  | jsonl read read' written same few => exact jsonlRearranged ok read read' written same few

theorem batchesRearrangedAtRepeat : ∃ batch batch',
    preflightSource sampleEnvironment (.fieldTheory (some plainFile) none) sampleLimits = .ok batch ∧
      preflightSource sampleEnvironment (.fieldTheory (some repeatedFile) none) sampleLimits = .ok batch' ∧
      evidence batch' = evidence batch := by
  obtain ⟨batch,ok⟩ := plainAccepted
  have same : ∀ line, line ∈ recordLines plainRows ↔ line ∈ recordLines repeatedRows := by
    have pair (a b line : List Char) : line ∈ [a,b] ↔ line ∈ [b,a,b] := by
      rw [List.mem_pair,List.mem_cons,List.mem_pair]
      exact ⟨fun either => .inr either,fun any => any.elim .inr id⟩
    rw [plainRecords,repeatedRecords]
    exact pair _ _
  rw [← linesRead plainSpelled] at same
  obtain ⟨batch',ok',alike⟩ := batchesRearranged ok (.jsonl plainRead repeatedRead
    (sampleSpelled .crlf (List.Subset.refl _)) same (by simp [repeatedRecords,sampleLimits]))
  exact ⟨batch,batch',ok,ok',alike⟩

end Results

end RatatoskrX.Preflights
