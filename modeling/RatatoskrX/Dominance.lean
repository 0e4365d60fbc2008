import RatatoskrX.LegacyImport
import RatatoskrX.Foundation.Transition

/-! Official pages and legacy imports that write the content of the same posts, in any order.
Which of the two a stored post belongs to is decided by its provenance, and a page does not
change the provenance of a post that an import inserted. -/
namespace RatatoskrX.Dominance
open Relational Schema Writeback Journal Contents LegacyImport Transition

/- The archive, and the posts that a page has normalized so far. -/
structure World where
  archive : Archive
  official : List String

def normalizes : Transaction → List String
  | .page _ page => page.posts.map NormalizedPost.providerId
  | _ => []

def step (sha256 : List UInt8 → List UInt8) (w : World) (a : Transaction) : Option World :=
  (a.effect sha256 w.archive).map (fun archive => ⟨archive,w.official ++ normalizes a⟩)

section Records
variable {contents : Table PostContent PostContent.providerId}

def touch (providerId : String) (row : PostContent) (record : LegacyRecord) : PostContent :=
  if resolvedPost record = some providerId ∧ rewrites record row = true then rewritten record row else row

theorem upsertedFind {providerId row} (found : contents.find providerId = some row) (target : String) (record) :
    (upsertImportedContent contents target record).1.find providerId =
      some (if target = providerId ∧ rewrites record row = true then rewritten record row else row) := by
  unfold upsertImportedContent
  split
  · rename_i absent
    have other : target ≠ providerId := by
      rintro rfl
      rw [found] at absent
      simp at absent
    have fresh : (contents.append (importedContent target record) (Table.findNone.mp absent)).find providerId =
        if target = providerId then some (importedContent target record) else contents.find providerId :=
      Table.findAppend ..
    rw [fresh,if_neg other,found,if_neg (fun both => other both.1)]
  · rename_i old stored
    by_cases same : target = providerId
    · subst same
      cases stored.symm.trans found
      split
      · rename_i loud
        have legacy : row.normalizationProvenance = .legacyImport := by
          simp only [rewrites,Bool.and_eq_true,decide_eq_true_eq] at loud
          exact loud.1
        refine (Table.findUpdate contents _ (rewritten record) (fun _ => rfl) target).trans ?_
        simp [found,Table.findKey found,legacy,loud]
      · rename_i quiet
        simp [found,quiet]
    · have untouched : (if target = providerId ∧ rewrites record row = true then rewritten record row else row) = row :=
        if_neg (fun both => same both.1)
      rw [untouched]
      split
      · refine (Table.findUpdate contents _ (rewritten record) (fun _ => rfl) providerId).trans ?_
        have keyed : row.providerId ≠ target := by
          rw [Table.findKey found]
          exact Ne.symm same
        simp [found,keyed]
      · exact found

theorem recordContent {sha256 runId a counts record after counted} {providerId row}
    (ok : persistImportRecord sha256 runId a counts record = some (after,counted))
    (found : a.contents.find providerId = some row) :
    after.contents.find providerId = some (touch providerId row record) := by
  unfold persistImportRecord at ok
  split at ok
  · rename_i target resolved
    obtain ⟨stored,inserted,last⟩ := Option.map_eq_some_iff.mp ok
    cases Prod.mk.inj last
    subst stored
    rw [(insertedForm inserted).1]
    have left := upsertedFind found target record
    unfold touch
    rw [resolved]
    simp only [Option.some.injEq]
    exact left
  · rename_i unresolved
    obtain ⟨stored,inserted,last⟩ := Option.map_eq_some_iff.mp ok
    cases Prod.mk.inj last
    subst stored
    rw [(insertedForm inserted).1,found]
    unfold touch
    rw [unresolved]
    simp

theorem recordsContent {sha256 runId a counts records after counted} {providerId row}
    (ok : persistImportRecords sha256 runId a counts records = some (after,counted))
    (found : a.contents.find providerId = some row) :
    after.contents.find providerId = some (records.foldl (touch providerId) row) := by
  induction records generalizing a counts row with
  | nil =>
    cases Option.some.inj ok
    exact found
  | cons record rest ih =>
    simp only [persistImportRecords,bind,Option.bind_eq_some_iff,Prod.exists] at ok
    obtain ⟨next,counts',first,later⟩ := ok
    exact ih later (recordContent first found)

theorem touchQuiet {providerId row} {records : List LegacyRecord}
    (quiet : ∀ record ∈ records, resolvedPost record = some providerId → rewrites record row = false) :
    records.foldl (touch providerId) row = row := by
  induction records with
  | nil => rfl
  | cons record rest ih =>
    have untouched : touch providerId row record = row := by
      refine if_neg ?_
      rintro ⟨resolved,loud⟩
      simp [quiet record List.mem_cons_self resolved] at loud
    rw [List.foldl_cons,untouched]
    exact ih (fun r member => quiet r (List.mem_cons_of_mem _ member))

theorem touchUnknown {providerId row} (records : List LegacyRecord) (unknown : row.availability = .unknown) :
    (records.foldl (touch providerId) row).availability = .unknown := by
  induction records generalizing row with
  | nil => exact unknown
  | cons record rest ih =>
    refine ih ?_
    unfold touch
    split
    · rfl
    · exact unknown

theorem touchLoud {providerId row} {records : List LegacyRecord} {record} (member : record ∈ records)
    (resolved : resolvedPost record = some providerId) (loud : rewrites record row = true) :
    (records.foldl (touch providerId) row).availability = .unknown := by
  induction records with
  | nil => simp at member
  | cons first rest ih =>
    rw [List.foldl_cons]
    by_cases touched : resolvedPost first = some providerId ∧ rewrites first row = true
    · refine touchUnknown rest ?_
      unfold touch
      rw [if_pos touched]
      rfl
    · have untouched : touch providerId row first = row := if_neg touched
      rw [untouched]
      rcases List.mem_cons.mp member with rfl | inside
      · exact absurd ⟨resolved,loud⟩ touched
      · exact ih inside

end Records

section Batches
variable {sha256 : List UInt8 → List UInt8}

theorem importContent {a batch approval verified now after outcome}
    (ok : persistImport sha256 a batch approval verified now = .ok (after,outcome)) {providerId row}
    (found : a.contents.find providerId = some row) :
    after.contents.find providerId = some (if freshSource a batch approval = true then
      batch.records.foldl (touch providerId) row else row) := by
  rcases importCases ok with ⟨rfl,stale⟩ | ⟨fresh,opened,runId,left,counts,same,_,persisted,kept,_⟩
  · rw [if_neg (by simp [stale]),found]
  · rw [if_pos fresh,kept]
    exact recordsContent persisted (same ▸ found)

end Batches

section Runs
variable (sha256 : List UInt8 → List UInt8)

/- What an official page gave a post: its text, its date, its parser and its availability. -/
def projection (row : PostContent) : String × Option DateTime × Int × Envelopes.PostAvailability :=
  (row.text,row.publishedAt,row.parserVersion,row.availability)

def shown (w : World) (providerId : String) : Option (String × Option DateTime × Int × Envelopes.PostAvailability) :=
  (w.archive.contents.find providerId).map projection

/- The step leaves the posts that pages have normalized as they are. -/
def Dominates (t v : World) : Prop := ∀ providerId ∈ t.official, shown v providerId = shown t providerId

def EveryImportDominated (start : World) (labels : List Transaction) (w : World) : Prop :=
  ∀ t batch approval verified now v, Passes (step sha256) free start labels w t (.importBatch batch approval verified now) v →
    Dominates t v

/- A record of the batch names a post that a page has normalized and an import had inserted,
with another text or date than the stored ones. -/
def Contradicts (w : World) (batch : PreflightBatch) : Prop :=
  ∃ record ∈ batch.records, ∃ providerId ∈ w.official, resolvedPost record = some providerId ∧
    ∃ row, w.archive.contents.find providerId = some row ∧ row.normalizationProvenance = .legacyImport ∧
      (row.text ≠ record.text ∨ row.publishedAt ≠ record.postedAt)

def NoImportContradicts (start : World) (labels : List Transaction) (w : World) : Prop :=
  ∀ t batch approval verified now v, Passes (step sha256) free start labels w t (.importBatch batch approval verified now) v →
    freshSource t.archive batch approval = true → ¬Contradicts t batch

/- What a page normalized stands active. -/
def Served (w : World) : Prop :=
  ∀ providerId ∈ w.official, ∃ row, w.archive.contents.find providerId = some row ∧ row.availability = .active

variable {sha256}

theorem rewritesIff {record : LegacyRecord} {row : PostContent} : rewrites record row = true ↔
    row.normalizationProvenance = .legacyImport ∧ (row.text ≠ record.text ∨ row.publishedAt ≠ record.postedAt) := by
  simp [rewrites]

theorem pageStep {w : World} {c page v} (taken : step sha256 w (.page c page) = some v) :
    ∃ authorOf, persistPosts authorOf w.archive.contents page.posts = .ok v.archive.contents ∧
      v.official = w.official ++ page.posts.map NormalizedPost.providerId := by
  obtain ⟨a,persisted,rfl⟩ := Option.map_eq_some_iff.mp taken
  obtain ⟨contents,db,stored,_,rfl⟩ := pageForm persisted
  exact ⟨persistedAuthor (persistUsers w.archive.users page.users) page.users,stored,rfl⟩

theorem importStep {w : World} {batch approval verified now v}
    (taken : step sha256 w (.importBatch batch approval verified now) = some v) :
    v.official = w.official ∧ ∃ outcome, persistImport sha256 w.archive batch approval verified now = .ok (v.archive,outcome) := by
  obtain ⟨a,committed,rfl⟩ := Option.map_eq_some_iff.mp taken
  obtain ⟨⟨_,outcome⟩,persisted,rfl⟩ := Option.map_eq_some_iff.mp committed
  exact ⟨List.append_nil _,outcome,Outcome.accepted persisted⟩

theorem syncStep {w : World} {c v} (taken : step sha256 w (.sync c) = some v) :
    v.archive.contents = w.archive.contents ∧ v.official = w.official := by
  obtain ⟨a,committed,rfl⟩ := Option.map_eq_some_iff.mp taken
  simp only [Transaction.effect] at committed
  split at committed
  · simp at committed
  · obtain ⟨db,_,rfl⟩ := Option.map_eq_some_iff.mp committed
    exact ⟨rfl,List.append_nil _⟩

theorem quietImport {w : World} {batch approval verified now v}
    (taken : step sha256 w (.importBatch batch approval verified now) = some v) (stored : Served w)
    (quiet : freshSource w.archive batch approval = true → ¬Contradicts w batch) : Dominates w v := by
  intro providerId member
  obtain ⟨row,found,_⟩ := stored providerId member
  obtain ⟨_,outcome,persisted⟩ := importStep taken
  have after := importContent persisted found
  unfold shown
  rw [after,found]
  split
  · rename_i fresh
    rw [touchQuiet]
    intro record inside resolved
    by_contra loud
    have rewritten := rewritesIff.mp (by simpa using loud)
    exact quiet fresh ⟨record,inside,providerId,member,resolved,row,found,rewritten⟩
  · rfl

theorem loudImport {w : World} {batch approval verified now v}
    (taken : step sha256 w (.importBatch batch approval verified now) = some v) (stored : Served w)
    (fresh : freshSource w.archive batch approval = true) (loud : Contradicts w batch) : ¬Dominates w v := by
  intro dominated
  obtain ⟨record,inside,providerId,member,resolved,row,found,differs⟩ := loud
  obtain ⟨row',found',active⟩ := stored providerId member
  cases found.symm.trans found'
  obtain ⟨_,outcome,persisted⟩ := importStep taken
  have after := importContent persisted found
  have unknown := touchLoud inside resolved (rewritesIff.mpr differs)
  have same := dominated providerId member
  unfold shown at same
  rw [after,found,if_pos fresh] at same
  have availability := congrArg (fun s => s.2.2.2) (Option.some.inj same)
  dsimp only [projection] at availability
  rw [unknown,active] at availability
  simp at availability

theorem servedStep {w : World} {a v} (stored : Served w) (taken : step sha256 w a = some v)
    (dominated : ∀ batch approval verified now, a = .importBatch batch approval verified now → Dominates w v) : Served v := by
  cases a with
  | page c page =>
    obtain ⟨authorOf,persisted,official⟩ := pageStep taken
    intro providerId member
    obtain ⟨other,mine⟩ := persistedContent page.served persisted providerId
    by_cases inside : providerId ∈ page.posts.map NormalizedPost.providerId
    · obtain ⟨row,found,active,_⟩ := mine inside
      exact ⟨row,found,active⟩
    · rw [other inside]
      rw [official] at member
      exact stored providerId ((List.mem_append.mp member).resolve_right inside)
  | sync c =>
    obtain ⟨contents,official⟩ := syncStep taken
    unfold Served
    rw [contents,official]
    exact stored
  | importBatch batch approval verified now =>
    obtain ⟨official,_⟩ := importStep taken
    intro providerId member
    rw [official] at member
    obtain ⟨row,found,active⟩ := stored providerId member
    have same := dominated batch approval verified now rfl providerId member
    unfold shown at same
    rw [found] at same
    obtain ⟨row',found',projected⟩ := Option.map_eq_some_iff.mp same
    refine ⟨row',found',?_⟩
    have availability := congrArg (fun s => s.2.2.2) projected
    exact Eq.trans availability active

theorem servedStart (archive : Archive) : Served ⟨archive,[]⟩ := by
  intro providerId member
  simp at member

/- Official evidence dominates in a run exactly if no import of it contradicts a post that a
page has normalized and an import had inserted. -/
theorem officialDominatesExactly {archive : Archive} {labels w} (run : Run (step sha256) free ⟨archive,[]⟩ labels w) :
    EveryImportDominated sha256 ⟨archive,[]⟩ labels w ↔ NoImportContradicts sha256 ⟨archive,[]⟩ labels w := by
  constructor
  · intro dominated t batch approval verified now v passes fresh loud
    have guarded : Run (step sha256) (fun t a => ∀ v, step sha256 t a = some v →
        ∀ batch approval verified now, a = .importBatch batch approval verified now → Dominates t v) ⟨archive,[]⟩ labels w := by
      refine run.meets _ ?_
      intro t a v passes v' taken batch approval verified now same
      subst same
      obtain ⟨before,after,split,first,_,taken',later⟩ := passes
      rw [taken] at taken'
      cases Option.some.inj taken'
      exact dominated t batch approval verified now v ⟨before,after,split,first,trivial,taken,later⟩
    obtain ⟨before,after,rfl,first,_,taken,_⟩ := guarded.guarded passes
    have stored : Served t := by
      refine first.preserves Served ?_ (servedStart archive)
      intro s a u kept meets step
      exact servedStep kept step (meets u step)
    exact loudImport taken stored fresh loud (dominated t batch approval verified now v passes)
  · intro quiet t batch approval verified now v passes
    have guarded : Run (step sha256) (fun t a => ∀ batch approval verified now, a = .importBatch batch approval verified now →
        freshSource t.archive batch approval = true → ¬Contradicts t batch) ⟨archive,[]⟩ labels w := by
      refine run.meets _ ?_
      intro t a v passes batch approval verified now same
      subst same
      exact quiet t batch approval verified now v passes
    obtain ⟨before,after,rfl,first,meets,taken,_⟩ := guarded.guarded passes
    have stored : Served t := by
      refine first.preserves Served ?_ (servedStart archive)
      intro s a u kept meets step
      refine servedStep kept step ?_
      intro batch approval verified now same
      subst same
      exact quietImport step kept (meets batch approval verified now rfl)
    exact quietImport taken stored (meets batch approval verified now rfl)

end Runs
section Sample

/- SHA-256 of the two texts that the imports bring. -/
def importDigests : List (List UInt8 × List UInt8) :=
  [
    (utf8 "Legacy text",
      [83,42,122,67,42,87,151,184,206,167,23,229,46,21,9,3,128,64,209,132,113,45,206,179,186,74,168,77,242,33,168,11]),
    (utf8 "Later legacy text",
      [221,180,13,97,244,185,107,130,14,105,95,75,206,148,209,105,33,29,107,243,182,117,176,72,209,51,98,75,216,153,93,
      107])]

def importSha256 (input : List UInt8) : List UInt8 :=
  ((importDigests.find? (fun known => known.1 = input)).map Prod.snd).getD (List.replicate 32 0)

def emptyArchive : Archive := ⟨.empty,fun _ => "user-1",.empty,.empty,.empty,.empty⟩

def importInstant : DateTime := ⟨0,DateTime.epochRepresentable⟩

def sampleRecord (key text : String) (digest : Digest) : LegacyRecord :=
  ⟨key,some "42",none,none,text,none,none,importInstant,[],[],[],digest⟩

def firstBatch : PreflightBatch :=
  ⟨.monolithBookmarkMetadataCsv,.monolithBookmarkMetadata,
    "cb127ef08dd0a5c916f05daf5b2bfb484410f36f89a2e1a29b616d12ef50cab3",
    [sampleRecord "row-1" "Legacy text" "0f719b1f3a428a4dd53c61b3bdc5c2ec279c2e6139f160b3bbb8df8e7efdead8"]⟩

def secondBatch : PreflightBatch :=
  ⟨.monolithBookmarkMetadataCsv,.monolithBookmarkMetadata,
    "eded2b850e3953f0c1d5910a1439ddc270ad07c8b13072359b0da26ec32a783e",
    [sampleRecord "row-1" "Later legacy text" "4568437f50f4fba02636d5b089556984a0544019977a130c7fdc2fce24bb4fa0"]⟩

def sampleImport (batch : PreflightBatch) : Transaction :=
  .importBatch batch ⟨1,7,batch.sourceDigest,"9deb65b8788f41ff94a217842017db2f843954fc0eb46110835903908e5a265f"⟩ "user-1"
    importInstant

def officialPost (providerId text : String) : NormalizedPost :=
  ⟨1,providerId,"7",text,none,some "en",some importInstant,none,.active,none,some 3,none,none,none,none,none,[]⟩

def officialPage (text : String) : OfficialPage := ⟨[⟨"7",some "author",none,1⟩],[officialPost "42" text],by simp [officialPost]⟩

def importedFirst : List Transaction :=
  [.sync (.connectAccount ⟨1,7,.connected⟩),.sync (.createRun 1),sampleImport firstBatch,
    .page (.stagePage ⟨1,1,1,none⟩ ⟨some ["42"],none⟩ importInstant 0) (officialPage "Official text")]

def pagedFirst : List Transaction :=
  [.sync (.connectAccount ⟨1,7,.connected⟩),.sync (.createRun 1),
    .page (.stagePage ⟨1,1,1,none⟩ ⟨some ["42"],none⟩ importInstant 0) (officialPage "Official text"),sampleImport secondBatch]

theorem officialDominatesPagedFirst : ∃ w, shown w "42" = some ("Official text",some importInstant,1,.active) ∧
    (EveryImportDominated importSha256 ⟨emptyArchive,[]⟩ pagedFirst w ↔
      NoImportContradicts importSha256 ⟨emptyArchive,[]⟩ pagedFirst w) := by
  have ends : (replay (step importSha256) free ⟨emptyArchive,[]⟩ pagedFirst).map (fun w => shown w "42") =
      some (some ("Official text",some importInstant,1,.active)) := by decide +kernel
  obtain ⟨w,ran,last⟩ := Option.map_eq_some_iff.mp ends
  exact ⟨w,last,officialDominatesExactly (replayRun ran)⟩

/- The later import puts its text over the official one. -/
theorem importOverwritesOfficial :
    ¬∀ (sha256 : List UInt8 → List UInt8) (archive : Archive) (labels : List Transaction) (w : World),
      Run (step sha256) free ⟨archive,[]⟩ labels w → EveryImportDominated sha256 ⟨archive,[]⟩ labels w := by
  intro claim
  have ends : (replay (step importSha256) free ⟨emptyArchive,[]⟩ importedFirst).bind (fun t =>
      (step importSha256 t (sampleImport secondBatch)).map (fun v =>
        decide ("42" ∈ t.official) && decide (shown v "42" ≠ shown t "42"))) = some true := by decide +kernel
  obtain ⟨t,ran,ends⟩ := Option.bind_eq_some_iff.mp ends
  obtain ⟨v,taken,read⟩ := Option.map_eq_some_iff.mp ends
  simp only [Bool.and_eq_true,decide_eq_true_eq] at read
  have first := replayRun ran
  have dominated := claim importSha256 emptyArchive _ v (first.append (.cons trivial taken (.nil v)))
  exact read.2 (dominated t _ _ _ _ v ⟨importedFirst,[],rfl,first,trivial,taken,.nil v⟩ "42" read.1)

end Sample
end RatatoskrX.Dominance
