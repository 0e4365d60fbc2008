import Mathlib.Data.String.Basic
import Mathlib.Data.Prod.Lex
import Mathlib.Order.WithBot
import RatatoskrX.LegacyTransition

/-! What the entries of a shadow report say of its rows. Each legacy row has one entry, each
official id that no row names has one, and the three-part sort key leaves no choice of order. -/
namespace RatatoskrX.ShadowClasses
open Schema Writeback Contents LegacyImport LegacyTransition

/- The columns of an item that load_shadow_rows reads. -/
structure ShadowLegacyRow where
  rowDigest : Digest
  providerPostId : Option String
  contentDigest : Option Digest
  categoryMetadata : List String
  folderMetadata : List FolderMetadata
  resolution : LegacyResolution
  deriving DecidableEq, Repr

def shadowRow (item : ImportItem) : ShadowLegacyRow :=
  ⟨item.sourceRowDigest,item.providerPostId,item.contentDigest,item.legacyCategoryMetadata,item.legacyFolderMetadata,
    item.resolution⟩

def toPost (row : ImportItem) : Bool := row.resolution = .providerPost || row.resolution = .urlDerivedPost

def Resolved (row : ImportItem) : Prop := toPost row = true → row.providerPostId.isSome

def names (row : ImportItem) (id : String) : Bool := toPost row && row.providerPostId = some id

def unnamed (legacyRows : List ImportItem) (officialRows : List (String × String)) : List String :=
  (officialRows.map Prod.fst).filter (fun id => !legacyRows.any (fun row => names row id))

section Order

def bottomed : Option String → WithBot String
  | none => ⊥
  | some s => s

def sortKey (entry : ShadowDiff) : ℕ ×ₗ (WithBot String ×ₗ WithBot String) :=
  toLex (classRank entry.diffClass,toLex (bottomed entry.providerPostId,bottomed entry.legacyRecordDigest))

theorem rankApart {a b} (same : classRank a = classRank b) : a = b := by
  cases a <;> cases b <;> simp [classRank] at same ⊢

theorem bottomedApart {a b} (same : bottomed a = bottomed b) : a = b := by
  cases a <;> cases b <;> simp [bottomed] at same ⊢
  exact same

theorem optionBeforeIff (a b : Option String) : optionBefore a b = true ↔ bottomed a ≤ bottomed b := by
  cases a <;> cases b <;> simp [optionBefore,bottomed]

theorem entryBeforeIff (a b : ShadowDiff) : entryBefore a b = true ↔ sortKey a ≤ sortKey b := by
  unfold entryBefore sortKey
  simp only [Prod.Lex.le_iff,ofLex_toLex]
  split
  · rename_i apart
    have ranks : classRank a.diffClass ≠ classRank b.diffClass := fun same => apart (rankApart same)
    simp only [decide_eq_true_eq]
    omega
  · rename_i same
    have ranks : a.diffClass = b.diffClass := by simpa using same
    simp only [ranks,lt_irrefl,false_or,true_and]
    split
    · rename_i apart
      have ids : bottomed a.providerPostId ≠ bottomed b.providerPostId := fun same => apart (bottomedApart same)
      rw [optionBeforeIff]
      simp [ids,le_iff_lt_or_eq]
    · rename_i same
      have ids : a.providerPostId = b.providerPostId := by simpa using same
      rw [optionBeforeIff,ids]
      simp

theorem sortKeyApart {a b : ShadowDiff} (same : sortKey a = sortKey b) :
    a.diffClass = b.diffClass ∧ a.providerPostId = b.providerPostId ∧ a.legacyRecordDigest = b.legacyRecordDigest := by
  obtain ⟨ranks,rest⟩ := Prod.mk.inj same
  obtain ⟨ids,digests⟩ := Prod.mk.inj rest
  exact ⟨rankApart ranks,bottomedApart ids,bottomedApart digests⟩

theorem sortedSame {xs ys : List ShadowDiff} (perm : xs.Perm ys)
    (apart : ∀ a ∈ xs, ∀ b ∈ xs, sortKey a = sortKey b → a = b) : xs.mergeSort entryBefore = ys.mergeSort entryBefore := by
  have trans : ∀ a b c : ShadowDiff, entryBefore a b = true → entryBefore b c = true → entryBefore a c = true := by
    intro a b c first second
    rw [entryBeforeIff] at first second ⊢
    exact first.trans second
  have total : ∀ a b : ShadowDiff, (entryBefore a b || entryBefore b a) = true := by
    intro a b
    rw [Bool.or_eq_true,entryBeforeIff,entryBeforeIff]
    exact le_total _ _
  refine List.Perm.eq_of_pairwise ?_ (List.pairwise_mergeSort trans total xs) (List.pairwise_mergeSort trans total ys) ?_
  · intro a b left right before after
    refine apart a (List.mem_mergeSort.mp left) b (perm.mem_iff.mpr (List.mem_mergeSort.mp right)) ?_
    rw [entryBeforeIff] at before after
    exact le_antisymm before after
  · exact (List.mergeSort_perm xs _).trans (perm.trans (List.mergeSort_perm ys _).symm)

end Order

section Entries
variable {config : Config} {officialRows : List (String × String)}

/- The first of two rows of one id cannot be told from the last when the ids are distinct. -/
theorem officialTextIff (distinct : (officialRows.map Prod.fst).Nodup) (id text : String) :
    officialText officialRows id = some text ↔ (id,text) ∈ officialRows := by
  unfold officialText
  rw [Option.map_eq_some_iff]
  constructor
  · rintro ⟨⟨id',text'⟩,found,rfl⟩
    have keyed := List.find?_some found
    simp only [decide_eq_true_eq] at keyed
    subst keyed
    exact List.mem_reverse.mp (List.mem_of_find?_eq_some found)
  · intro member
    cases found : officialRows.reverse.find? (fun row => row.1 = id) with
    | none =>
      have absent := List.find?_eq_none.mp found (id,text) (List.mem_reverse.mpr member)
      simp at absent
    | some row =>
      have keyed := List.find?_some found
      simp only [decide_eq_true_eq] at keyed
      have inside := List.mem_reverse.mp (List.mem_of_find?_eq_some found)
      have same := List.inj_on_of_nodup_map distinct inside member keyed
      exact ⟨row,rfl,by rw [same]⟩

theorem officialTextPerm {officialRows' : List (String × String)} (distinct : (officialRows.map Prod.fst).Nodup)
    (perm : officialRows'.Perm officialRows) : officialText officialRows' = officialText officialRows := by
  funext id
  have distinct' : (officialRows'.map Prod.fst).Nodup := (perm.map Prod.fst).nodup_iff.mpr distinct
  refine Option.ext ?_
  intro text
  rw [officialTextIff distinct',officialTextIff distinct,perm.mem_iff]

theorem classifyPerm {officialRows' : List (String × String)} (distinct : (officialRows.map Prod.fst).Nodup)
    (perm : officialRows'.Perm officialRows) (row : ImportItem) :
    classifyLegacy config officialRows' row = classifyLegacy config officialRows row := by
  unfold classifyLegacy
  rw [officialTextPerm distinct perm]

theorem classifySame {a b : ImportItem} (same : shadowRow a = shadowRow b) :
    classifyLegacy config officialRows a = classifyLegacy config officialRows b := by
  simp only [shadowRow,ShadowLegacyRow.mk.injEq] at same
  obtain ⟨digest,id,content,category,folder,resolution⟩ := same
  unfold classifyLegacy
  rw [digest,id,content,category,folder,resolution]

def Matches (officialRows : List (String × String)) (row : ImportItem) : Prop :=
  ∃ official ∈ officialRows, names row official.1 = true

def Differs (config : Config) (officialRows : List (String × String)) (row : ImportItem) : Prop :=
  ∃ official ∈ officialRows, names row official.1 = true ∧
    ∃ digest, row.contentDigest = some digest ∧ digest ≠ sha256Hex config.sha256 (utf8 official.2)

structure EntryOf (config : Config) (officialRows : List (String × String)) (row : ImportItem) (entry : ShadowDiff) : Prop where
  digest : entry.legacyRecordDigest = some row.sourceRowDigest
  conflict : entry.diffClass = .identityConflict ↔ row.resolution = .identityConflict
  unmapped : entry.diffClass = .unmapped ↔ row.resolution = .unmapped
  matched : entry.diffClass = .matched ↔ row.resolution = .providerPost ∧ Matches officialRows row
  urlMatched : entry.diffClass = .urlMatched ↔ row.resolution = .urlDerivedPost ∧ Matches officialRows row
  legacyOnly : entry.diffClass = .legacyOnly ↔ toPost row = true ∧ ¬Matches officialRows row
  legacy : entry.diffClass ≠ .officialOnly
  changed : entry.contentChanged = true ↔ Differs config officialRows row
  metadata : entry.legacyCategoryPresent = !row.legacyCategoryMetadata.isEmpty ∧
    entry.legacyFolderPresent = !row.legacyFolderMetadata.isEmpty

theorem differsMatches {row} (differs : Differs config officialRows row) : Matches officialRows row := by
  obtain ⟨official,inside,hit,_⟩ := differs
  exact ⟨official,inside,hit⟩

theorem classifiedMatch {row : ImportItem} {id text} (post : toPost row = true) (named : row.providerPostId = some id)
    (found : officialText officialRows id = some text) (there : Matches officialRows row)
    (content : (row.contentDigest.any (fun d => d ≠ sha256Hex config.sha256 (utf8 text)) = true) ↔
      Differs config officialRows row) :
    ∃ entry, classifyLegacy config officialRows row = some (entry,some id) ∧ EntryOf config officialRows row entry := by
  have kind : row.resolution = .providerPost ∨ row.resolution = .urlDerivedPost := by simpa [toPost] using post
  rcases kind with kind | kind
  · refine ⟨_,by simp only [classifyLegacy,kind,named,found,bind,Option.bind_some]; rfl,?_⟩
    constructor
    case changed => exact content
    all_goals simp [kind,there]
  · refine ⟨_,by simp only [classifyLegacy,kind,named,found,bind,Option.bind_some]; rfl,?_⟩
    constructor
    case changed => exact content
    all_goals simp [kind,there]

theorem classifiedAlone {row : ImportItem} (resolved : Resolved row) (alone : ¬Matches officialRows row)
    (absent : ∀ id, row.providerPostId = some id → toPost row = true → officialText officialRows id = none) :
    ∃ entry, classifyLegacy config officialRows row = some (entry,none) ∧ EntryOf config officialRows row entry := by
  have same : ¬Differs config officialRows row := fun differs => alone (differsMatches differs)
  cases kind : row.resolution with
  | identityConflict =>
    refine ⟨_,by simp only [classifyLegacy,kind]; rfl,?_⟩
    constructor <;> simp [kind,alone,same,toPost]
  | unmapped =>
    refine ⟨_,by simp only [classifyLegacy,kind]; rfl,?_⟩
    constructor <;> simp [kind,alone,same,toPost]
  | providerPost | urlDerivedPost =>
    have post : toPost row = true := by simp [toPost,kind]
    obtain ⟨id,named⟩ := Option.isSome_iff_exists.mp (resolved post)
    refine ⟨_,by simp only [classifyLegacy,kind,named,absent id named post,bind,Option.bind_some]; rfl,?_⟩
    constructor <;> simp [kind,alone,same,toPost]

theorem classified (config : Config) (distinct : (officialRows.map Prod.fst).Nodup) {row : ImportItem} (resolved : Resolved row) :
    ∃ entry found, classifyLegacy config officialRows row = some (entry,found) ∧ EntryOf config officialRows row entry ∧
      ∀ id, found = some id ↔ names row id = true ∧ id ∈ officialRows.map Prod.fst := by
  by_cases hit : Matches officialRows row
  · obtain ⟨⟨id,text⟩,member,named⟩ := hit
    have both : toPost row = true ∧ row.providerPostId = some id := by simpa [names] using named
    have mine : ∀ id', names row id' = true ↔ id = id' := by
      intro id'
      simp [names,both.1,both.2]
    have found := (officialTextIff distinct id text).mpr member
    have content : (row.contentDigest.any (fun d => d ≠ sha256Hex config.sha256 (utf8 text)) = true) ↔
        Differs config officialRows row := by
      simp only [Option.any_eq_true,decide_eq_true_eq]
      constructor
      · rintro ⟨digest,there,differs⟩
        exact ⟨_,member,named,digest,there,differs⟩
      · rintro ⟨official,inside,named',digest,there,differs⟩
        have same := List.inj_on_of_nodup_map distinct inside member ((mine _).mp named').symm
        rw [same] at differs
        exact ⟨digest,there,differs⟩
    obtain ⟨entry,made,entryOf⟩ := classifiedMatch both.1 both.2 found ⟨_,member,named⟩ content
    refine ⟨entry,some id,made,entryOf,?_⟩
    intro id'
    rw [mine,Option.some.injEq]
    constructor
    · rintro rfl
      exact ⟨rfl,List.mem_map_of_mem member⟩
    · exact fun pair => pair.1
  · have absent : ∀ id, row.providerPostId = some id → toPost row = true → officialText officialRows id = none := by
      intro id named post
      rw [Option.eq_none_iff_forall_ne_some]
      intro text found
      exact hit ⟨_,(officialTextIff distinct id text).mp found,by simp [names,post,named]⟩
    obtain ⟨entry,made,entryOf⟩ := classifiedAlone resolved hit absent
    refine ⟨entry,none,made,entryOf,?_⟩
    intro id
    simp only [reduceCtorEq,false_iff,not_and,List.mem_map,not_exists]
    intro named official inside same
    subst same
    exact hit ⟨official,inside,named⟩

def entryFor (config : Config) (officialRows : List (String × String)) (row : ImportItem) : ShadowDiff :=
  ((classifyLegacy config officialRows row).map Prod.fst).getD (officialOnly "")

theorem entryForOf (config : Config) (distinct : (officialRows.map Prod.fst).Nodup) {row : ImportItem} (resolved : Resolved row) :
    EntryOf config officialRows row (entryFor config officialRows row) := by
  obtain ⟨entry,found,made,entryOf,_⟩ := classified config distinct resolved
  simpa [entryFor,made] using entryOf

theorem classifiedAll (config : Config) (distinct : (officialRows.map Prod.fst).Nodup) {legacyRows : List ImportItem}
    (resolved : ∀ row ∈ legacyRows, Resolved row) :
    ∃ pairs, legacyRows.mapM (classifyLegacy config officialRows) = some pairs ∧
      pairs.map Prod.fst = legacyRows.map (entryFor config officialRows) ∧
      ∀ id, id ∈ pairs.filterMap Prod.snd ↔
        legacyRows.any (fun row => names row id) = true ∧ id ∈ officialRows.map Prod.fst := by
  induction legacyRows with
  | nil => exact ⟨[],rfl,rfl,by simp⟩
  | cons row rest ih =>
    obtain ⟨pairs,rests,entries,ids⟩ := ih (fun r member => resolved r (List.mem_cons_of_mem _ member))
    obtain ⟨entry,found,made,_,matched⟩ := classified config distinct (resolved row List.mem_cons_self)
    refine ⟨(entry,found)::pairs,by simp [List.mapM_cons,made,rests],by simp [entryFor,made,entries],?_⟩
    intro id
    have head := matched id
    have tail := ids id
    simp only [List.filterMap_cons,List.any_cons,Bool.or_eq_true]
    cases found with
    | none =>
      simp only [reduceCtorEq,false_iff,not_and] at head
      rw [tail]
      constructor
      · exact fun both => ⟨.inr both.1,both.2⟩
      · rintro ⟨either,official⟩
        rcases either with here | there
        · exact absurd official (head here)
        · exact ⟨there,official⟩
    | some id' =>
      rw [List.mem_cons,tail]
      rw [Option.some.injEq] at head
      constructor
      · rintro (rfl | both)
        · exact ⟨.inl (head.mp rfl).1,(head.mp rfl).2⟩
        · exact ⟨.inr both.1,both.2⟩
      · rintro ⟨either,official⟩
        rcases either with here | there
        · exact .inl (head.mpr ⟨here,official⟩).symm
        · exact .inr ⟨there,official⟩

/- The entries before they are sorted, up to the order of the official ids. -/
def gathered (config : Config) (legacyRows : List ImportItem) (officialRows : List (String × String)) : List ShadowDiff :=
  legacyRows.map (entryFor config officialRows) ++ (unnamed legacyRows officialRows).map officialOnly

theorem gatheredApart (config : Config) (distinct : (officialRows.map Prod.fst).Nodup) {legacyRows : List ImportItem}
    (resolved : ∀ row ∈ legacyRows, Resolved row)
    (digests : ∀ a ∈ legacyRows, ∀ b ∈ legacyRows, a.sourceRowDigest = b.sourceRowDigest → shadowRow a = shadowRow b) :
    ∀ a ∈ gathered config legacyRows officialRows, ∀ b ∈ gathered config legacyRows officialRows,
      sortKey a = sortKey b → a = b := by
  intro a left b right same
  obtain ⟨_,ids,rows⟩ := sortKeyApart same
  simp only [gathered,List.mem_append,List.mem_map] at left right
  rcases left with ⟨r,inside,rfl⟩ | ⟨id,_,rfl⟩
  · have first := (entryForOf config distinct (resolved r inside)).digest
    rcases right with ⟨s,inside',rfl⟩ | ⟨id,_,rfl⟩
    · have second := (entryForOf config distinct (resolved s inside')).digest
      rw [first,second,Option.some.injEq] at rows
      unfold entryFor
      rw [classifySame (digests r inside s inside' rows)]
    · rw [first] at rows
      simp [officialOnly] at rows
  · rcases right with ⟨s,inside',rfl⟩ | ⟨id',_,rfl⟩
    · have second := (entryForOf config distinct (resolved s inside')).digest
      rw [second] at rows
      simp [officialOnly] at rows
    · simp only [officialOnly,Option.some.injEq] at ids
      rw [ids]

theorem classifyForm (config : Config) (distinct : (officialRows.map Prod.fst).Nodup) {legacyRows : List ImportItem}
    (resolved : ∀ row ∈ legacyRows, Resolved row)
    (digests : ∀ a ∈ legacyRows, ∀ b ∈ legacyRows, a.sourceRowDigest = b.sourceRowDigest → shadowRow a = shadowRow b) :
    classifyShadowEntries config legacyRows officialRows =
      some ((gathered config legacyRows officialRows).mergeSort entryBefore) := by
  obtain ⟨pairs,all,entries,ids⟩ := classifiedAll config distinct resolved
  simp only [classifyShadowEntries,bind,all,Option.bind_some,entries,Option.some.injEq]
  refine (sortedSame ?_ (gatheredApart config distinct resolved digests)).symm
  unfold gathered
  refine List.Perm.append_left _ (List.Perm.map _ ?_)
  have sorted : ((officialRows.map Prod.fst).dedup.mergeSort (fun a b => a ≤ b)).Perm (officialRows.map Prod.fst) := by
    rw [List.Nodup.dedup distinct]
    exact List.mergeSort_perm _ _
  refine List.Perm.trans (List.Perm.of_eq ?_) (sorted.filter _).symm
  unfold unnamed
  apply List.filter_congr
  intro id official
  have matched := ids id
  by_cases named : legacyRows.any (fun row => names row id) = true
  · simp [named,matched.mpr ⟨named,official⟩]
  · have missed : id ∉ pairs.filterMap Prod.snd := fun inside => named (matched.mp inside).1
    simp [named,missed]

end Entries

section Partition

def summarized (entries : List ShadowDiff) : ShadowSummary :=
  ⟨shadowCount entries .matched,shadowCount entries .urlMatched,shadowCount entries .legacyOnly,
    shadowCount entries .officialOnly,shadowCount entries .identityConflict,shadowCount entries .unmapped⟩

def total (summary : ShadowSummary) : Nat :=
  summary.matched + summary.urlMatched + summary.legacyOnly + summary.officialOnly + summary.identityConflicts +
    summary.unmapped

theorem summarizedTotal (entries : List ShadowDiff) : total (summarized entries) = entries.length := by
  induction entries with
  | nil => rfl
  | cons entry rest ih =>
    simp only [total,summarized,shadowCount,List.filter_cons,List.length_cons] at ih ⊢
    cases entry.diffClass <;> simp <;> omega

theorem reportForm {config legacyRows officialRows entries} (accountId importRunId snapshotId : Uuid)
    (made : classifyShadowEntries config legacyRows officialRows = some entries) :
    (buildShadowReport config accountId importRunId snapshotId legacyRows officialRows).map
      (fun report => (report.entries,report.summary)) = some (entries,summarized entries) := by
  simp [buildShadowReport,made,summarized]

/- One entry for each row, in the order of the rows, and one for each official id that no row
names; the counts add up to the entries. -/
structure Partition (config : Config) (legacyRows : List ImportItem) (officialRows : List (String × String))
    (entries : List ShadowDiff) : Prop where
  parts : ∃ ofRows, entries.Perm (ofRows ++ (unnamed legacyRows officialRows).map officialOnly) ∧
    List.Forall₂ (EntryOf config officialRows) legacyRows ofRows
  counts : total (summarized entries) = entries.length
  changed : ∀ entry ∈ entries, entry.contentChanged = true → (entry.diffClass = .matched ∨ entry.diffClass = .urlMatched) ∧
    ∃ row ∈ legacyRows, entry.legacyRecordDigest = some row.sourceRowDigest ∧ Differs config officialRows row

/- Whatever order the rows come in, the entries are one partition in one order, and every report
of them carries their counts. -/
theorem shadowPartition (config : Config) {legacyRows : List ImportItem} {officialRows : List (String × String)}
    (resolved : ∀ row ∈ legacyRows, Resolved row)
    (digests : ∀ a ∈ legacyRows, ∀ b ∈ legacyRows, a.sourceRowDigest = b.sourceRowDigest → shadowRow a = shadowRow b)
    (distinct : (officialRows.map Prod.fst).Nodup) :
    ∃ entries, Partition config legacyRows officialRows entries ∧
      ∀ legacyRows' officialRows', legacyRows'.Perm legacyRows → officialRows'.Perm officialRows →
        classifyShadowEntries config legacyRows' officialRows' = some entries ∧
          ∀ accountId importRunId snapshotId,
            (buildShadowReport config accountId importRunId snapshotId legacyRows' officialRows').map
              (fun report => (report.entries,report.summary)) = some (entries,summarized entries) := by
  have apart := gatheredApart config distinct resolved digests
  refine ⟨(gathered config legacyRows officialRows).mergeSort entryBefore,⟨?_,summarizedTotal _,?_⟩,?_⟩
  · refine ⟨_,List.mergeSort_perm _ _,?_⟩
    rw [List.forall₂_map_right_iff,List.forall₂_same]
    exact fun row member => entryForOf config distinct (resolved row member)
  · intro entry member changed
    rw [List.mem_mergeSort] at member
    simp only [gathered,List.mem_append,List.mem_map] at member
    rcases member with ⟨row,inside,rfl⟩ | ⟨id,_,rfl⟩
    · have entryOf := entryForOf config distinct (resolved row inside)
      have differs := entryOf.changed.mp changed
      have there := differsMatches differs
      refine ⟨?_,row,inside,entryOf.digest,differs⟩
      obtain ⟨official,_,named⟩ := there
      have post : toPost row = true := by
        simp only [names,Bool.and_eq_true] at named
        exact named.1
      have kind : row.resolution = .providerPost ∨ row.resolution = .urlDerivedPost := by simpa [toPost] using post
      exact kind.imp (fun kind => entryOf.matched.mpr ⟨kind,differsMatches differs⟩)
        (fun kind => entryOf.urlMatched.mpr ⟨kind,differsMatches differs⟩)
    · simp [officialOnly] at changed
  · intro legacyRows' officialRows' rows officials
    have distinct' : (officialRows'.map Prod.fst).Nodup := (officials.map Prod.fst).nodup_iff.mpr distinct
    have made := classifyForm config distinct' (fun row member => resolved row (rows.mem_iff.mp member))
      (fun a left b right => digests a (rows.mem_iff.mp left) b (rows.mem_iff.mp right))
    have entries : entryFor config officialRows' = entryFor config officialRows := by
      funext row
      unfold entryFor
      rw [classifyPerm distinct officials]
    have ids : (unnamed legacyRows officialRows).Perm (unnamed legacyRows' officialRows') := by
      unfold unnamed
      have same : ∀ id, legacyRows.any (fun row => names row id) = legacyRows'.any (fun row => names row id) :=
        fun id => (rows.any_eq).symm
      simp only [same]
      exact (officials.map Prod.fst).symm.filter _
    have same : (gathered config legacyRows officialRows).Perm (gathered config legacyRows' officialRows') := by
      unfold gathered
      rw [entries]
      exact (rows.map _).symm.append (ids.map _)
    rw [← sortedSame same apart] at made
    exact ⟨made,fun accountId importRunId snapshotId => reportForm accountId importRunId snapshotId made⟩

end Partition

section Sample

/- SHA-256 of "Official text". -/
def officialConfig : Config :=
  ⟨fun _ => [142,128,6,57,141,15,138,186,232,252,161,26,131,36,207,215,154,206,125,171,22,138,89,173,222,164,70,122,156,
    137,154,180],fun _ => []⟩

def mixedRow (key : String) (providerPostId : Option String) (resolution : LegacyResolution) : ImportItem :=
  ⟨1,key,key,providerPostId,none,none,none,some "532a7a432a5797b8cea717e52e1509038040d184712dceb3ba4aa84df221a80b",none,
    ⟨0,DateTime.epochRepresentable⟩,[],[],resolution⟩

def mixedRows : List ImportItem :=
  [mixedRow "a" (some "42") .providerPost,mixedRow "b" (some "42") .urlDerivedPost,mixedRow "c" (some "7") .providerPost,
    mixedRow "d" (some "44") .identityConflict,mixedRow "e" none .unmapped]

def mixedOfficials : List (String × String) := [("42","Official text"),("44","Official text")]

theorem shadowPartitionMixed : ∃ entries, Partition officialConfig mixedRows mixedOfficials entries ∧
    classifyShadowEntries officialConfig mixedRows.reverse mixedOfficials.reverse = some entries := by
  have resolved : ∀ row ∈ mixedRows, Resolved row := by simp [mixedRows,mixedRow,Resolved,toPost]
  have distinct : (mixedOfficials.map Prod.fst).Nodup := by decide
  obtain ⟨entries,partition,ordered⟩ := shadowPartition officialConfig resolved (by decide) distinct
  exact ⟨entries,partition,(ordered _ _ (List.reverse_perm _) (List.reverse_perm _)).1⟩

end Sample
end RatatoskrX.ShadowClasses
