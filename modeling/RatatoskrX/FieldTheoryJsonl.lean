import Mathlib.Data.List.Infix
import RatatoskrX.LegacyImport
import RatatoskrX.Normalization

/-! The checks of one record of a JSON Lines source, over serde_json's value of its line. The
reader of timestamps and the reader of status URLs belong to other libraries and are
parameters. -/
namespace RatatoskrX.FieldTheoryJsonl
open Schema Normalization LegacyImport

structure SourceLimits where
  maxTextBytes : Nat
  maxJsonDepth : Nat
  deriving DecidableEq, Repr

structure Readers where
  parseFromRfc3339 : String → Option DateTime
  parseXStatusUrl : String → Option String × Option Digest

structure LegacyRecordInput where
  sourceRecordKey : String
  providerPostId : Option String
  urlProviderPostId : Option String
  canonicalUrlDigest : Option Digest
  text : String
  postedAt : Option DateTime
  bookmarkedAt : Option DateTime
  syncedAt : DateTime
  categories : List String
  folderIds : List String
  folderNames : List String
  deriving DecidableEq, Repr

abbrev Checked (α : Type) := Except LegacyTransitionError α

section Depth

mutual
def jsonDepth : Json → Nat
  | .object members => 1 + membersDepth members
  | .array items => 1 + itemsDepth items
  | _ => 0

def membersDepth : List (String × Json) → Nat
  | [] => 0
  | (_,value)::rest => max (jsonDepth value) (membersDepth rest)

def itemsDepth : List Json → Nat
  | [] => 0
  | value::rest => max (jsonDepth value) (itemsDepth rest)
end

end Depth

section Credentials

def forbiddenWords : List String :=
  ["token","cookie","session","password","secret","authorization","bearer","credential"]

def normalizedName (field : String) : List Char := (field.toList.filter Char.isAlphanum).map Char.toLower

def forbiddenFieldName (field : String) : Bool := forbiddenWords.any (fun word => word.toList <:+: normalizedName field)

mutual
def rejectForbiddenFields : Json → Checked Unit
  | .object members => rejectForbiddenMembers members
  | .array items => rejectForbiddenItems items
  | _ => .ok ()

def rejectForbiddenMembers : List (String × Json) → Checked Unit
  | [] => .ok ()
  | (field,nested)::rest => do
    if forbiddenFieldName field then .error (.forbiddenField field)
    rejectForbiddenFields nested
    rejectForbiddenMembers rest

def rejectForbiddenItems : List Json → Checked Unit
  | [] => .ok ()
  | value::rest => do
    rejectForbiddenFields value
    rejectForbiddenItems rest
end

end Credentials

section Fields

def optionalString (object : Extension) (field : String) : Checked (Option String) :=
  match object.lookup field with
  | none => .ok none
  | some .null => .ok none
  | some (.string value) => if value ≠ "" then .ok (some value) else .error (.invalidField field)
  | _ => .error (.invalidField field)

def requiredString (object : Extension) (field : String) : Checked String := do
  match ← optionalString object field with
  | some value => .ok value
  | none => .error (.invalidField field)

def arrayString (field : String) : Json → Checked String
  | .string value => if value ≠ "" then .ok value else .error (.invalidField field)
  | _ => .error (.invalidField field)

def optionalStringArray (object : Extension) (field : String) : Checked (List String) :=
  match object.lookup field with
  | none => .ok []
  | some .null => .ok []
  | some (.array values) => values.mapM (arrayString field)
  | _ => .error (.invalidField field)

/- The array is read for its errors only. -/
def checkStringArray (object : Extension) (field : String) : Checked Unit := do
  let _ ← optionalStringArray object field

def validateOptionalStringValue (object : Extension) (field : String) : Checked Unit :=
  match object.lookup field with
  | none => .ok ()
  | some .null => .ok ()
  | some (.string _) => .ok ()
  | _ => .error (.invalidField field)

def validateOptionalBoolValue (object : Extension) (field : String) : Checked Unit :=
  match object.lookup field with
  | none => .ok ()
  | some (.bool _) => .ok ()
  | _ => .error (.invalidField field)

def validateOptionalNumberValue (object : Extension) (field : String) : Checked Unit :=
  match object.lookup field with
  | none => .ok ()
  | some (.number _) => .ok ()
  | _ => .error (.invalidField field)

def rejectUnknownFields (object : Extension) (allowedFields : List String) : Checked Unit :=
  (object.map Prod.fst).forM (fun field => if field ∈ allowedFields then .ok () else .error (.unsupportedField field))

def validateOptionalObject (object : Extension) (field : String) (allowedFields : List String)
    (validate : Extension → Checked Unit) : Checked Unit :=
  match object.lookup field with
  | none => .ok ()
  | some (.object nested) => do
    rejectUnknownFields nested allowedFields
    validate nested
  | _ => .error (.invalidField field)

def validateObjects (validate : Extension → Checked Unit) (object : Extension) (field : String) : Checked Unit :=
  match object.lookup field with
  | none => .ok ()
  | some (.array values) => values.forM (fun value => match value with
    | .object nested => validate nested
    | _ => .error (.invalidField field))
  | _ => .error (.invalidField field)

end Fields

section Shapes

def authorStrings : List String := ["handle","name","profileImageUrl","description","location","url"]

def authorCounts : List String := ["followersCount","followingCount","statusesCount"]

def validateAuthorShape (object : Extension) : Checked Unit := do
  authorStrings.forM (validateOptionalStringValue object)
  validateOptionalBoolValue object "verified"
  authorCounts.forM (validateOptionalNumberValue object)

def engagementCounts : List String := ["likeCount","repostCount","replyCount","quoteCount","bookmarkCount","viewCount"]

def validateEngagementShape (object : Extension) : Checked Unit := engagementCounts.forM (validateOptionalNumberValue object)

def variantFields : List String := ["url","contentType","bitrate"]

def validateVariant (variant : Extension) : Checked Unit := do
  rejectUnknownFields variant variantFields
  validateOptionalStringValue variant "url"
  validateOptionalStringValue variant "contentType"
  validateOptionalNumberValue variant "bitrate"

def validateMediaVariants : Extension → String → Checked Unit := validateObjects validateVariant

def mediaFields : List String :=
  ["url","mediaUrl","expandedUrl","previewUrl","type","altText","extAltText","width","height","videoVariants","variants"]

def mediaStrings : List String := ["url","mediaUrl","expandedUrl","previewUrl","type","altText","extAltText"]

def validateMedia (media : Extension) : Checked Unit := do
  rejectUnknownFields media mediaFields
  mediaStrings.forM (validateOptionalStringValue media)
  ["width","height"].forM (validateOptionalNumberValue media)
  ["videoVariants","variants"].forM (validateMediaVariants media)

def validateMediaObjects : Extension → String → Checked Unit := validateObjects validateMedia

def quotedTweetStrings : List String := ["authorHandle","authorName","authorProfileImageUrl","postedAt"]

def validateQuotedTweetShape (object : Extension) : Checked Unit := do
  let _ ← requiredString object "id"
  let _ ← requiredString object "text"
  let _ ← requiredString object "url"
  quotedTweetStrings.forM (validateOptionalStringValue object)
  checkStringArray object "media"
  validateMediaObjects object "mediaObjects"

def recordStrings : List String :=
  ["tweetId","authorHandle","authorName","authorProfileImageUrl","postedAt","bookmarkedAt","sortIndex","conversationId",
    "inReplyToStatusId","inReplyToUserId","quotedStatusId","articleTitle","articleText","articleSite","enrichedAt","language",
    "sourceApp","ingestedVia","textExpandedAt","quotedTweetFailedAt"]

def recordArrays : List String := ["media","links","tags","folderIds","folderNames"]

def authorFields : List String :=
  ["handle","name","profileImageUrl","description","location","url","verified","followersCount","followingCount","statusesCount"]

def quotedTweetFields : List String :=
  ["id","text","authorHandle","authorName","authorProfileImageUrl","postedAt","media","mediaObjects","url"]

def checkIngestedVia (object : Extension) : Checked Unit := do
  match ← optionalString object "ingestedVia" with
  | some ingestedVia => if ingestedVia ∈ ["api","browser","graphql"] then .ok () else .error (.invalidField "ingestedVia")
  | none => .ok ()

def validateFieldTheoryRecordShape (object : Extension) : Checked Unit := do
  let _ ← requiredString object "tweetId"
  recordStrings.forM (validateOptionalStringValue object)
  validateOptionalBoolValue object "possiblySensitive"
  checkIngestedVia object
  recordArrays.forM (checkStringArray object)
  validateOptionalObject object "author" authorFields validateAuthorShape
  validateOptionalObject object "engagement" engagementCounts validateEngagementShape
  validateOptionalObject object "quotedTweet" quotedTweetFields validateQuotedTweetShape
  validateMediaObjects object "mediaObjects"

end Shapes

section Records

def fieldTheoryJsonlFields : List String :=
  ["id","tweetId","authorHandle","authorName","authorProfileImageUrl","author","url","text","postedAt","bookmarkedAt","sortIndex",
    "syncedAt","conversationId","inReplyToStatusId","inReplyToUserId","quotedStatusId","quotedTweet","articleTitle","articleText",
    "articleSite","enrichedAt","language","sourceApp","possiblySensitive","engagement","media","mediaObjects","links","tags",
    "ingestedVia","folderIds","folderNames","textExpandedAt","quotedTweetFailedAt"]

def parseOptionalTimestamp (readers : Readers) (field value : String) : Checked (Option DateTime) :=
  if value = "" then .ok none
  else match readers.parseFromRfc3339 value with
    | some timestamp => .ok (some timestamp)
    | none => .error (.invalidTimestamp field)

def parseRequiredTimestamp (readers : Readers) (field value : String) : Checked DateTime := do
  match ← parseOptionalTimestamp readers field value with
  | some timestamp => .ok timestamp
  | none => .error (.invalidField field)

def optionalTimestampFromJson (readers : Readers) (object : Extension) (field : String) : Checked (Option DateTime) := do
  match ← optionalString object field with
  | none => .ok none
  | some value => some <$> parseRequiredTimestamp readers field value

def requiredTimestampFromJson (readers : Readers) (object : Extension) (field : String) : Checked DateTime := do
  parseRequiredTimestamp readers field (← requiredString object field)

def validateText (field value : String) (maxBytes : Nat) : Checked Unit :=
  if maxBytes < value.utf8ByteSize then .error (.textLimitExceeded field) else .ok ()

def readRecord (readers : Readers) (limits : SourceLimits) (object : Extension) : Checked LegacyRecordInput := do
  let sourceRecordKey ← requiredString object "id"
  let providerPostId ← optionalString object "tweetId"
  let url ← requiredString object "url"
  let text ← requiredString object "text"
  validateText "text" text limits.maxTextBytes
  let (urlProviderPostId,canonicalUrlDigest) := readers.parseXStatusUrl url
  let folderIds ← optionalStringArray object "folderIds"
  let folderNames ← optionalStringArray object "folderNames"
  let postedAt ← optionalTimestampFromJson readers object "postedAt"
  let bookmarkedAt ← optionalTimestampFromJson readers object "bookmarkedAt"
  let syncedAt ← requiredTimestampFromJson readers object "syncedAt"
  .ok ⟨sourceRecordKey,providerPostId,urlProviderPostId,canonicalUrlDigest,text,postedAt,bookmarkedAt,syncedAt,[],folderIds,folderNames⟩

def preflightRecord (readers : Readers) (limits : SourceLimits) (value : Json) : Checked LegacyRecordInput :=
  if limits.maxJsonDepth < jsonDepth value then .error .jsonDepthExceeded
  else do
    rejectForbiddenFields value
    match value with
    | .object object => do
      rejectUnknownFields object fieldTheoryJsonlFields
      validateFieldTheoryRecordShape object
      readRecord readers limits object
    | _ => .error (.invalidField "record")

end Records

end RatatoskrX.FieldTheoryJsonl
