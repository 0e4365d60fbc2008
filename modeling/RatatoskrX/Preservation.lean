import RatatoskrX.Alone
import RatatoskrX.BatchConsistency

/-! What becomes of the members that no payload type models. Those of a post, of its unresolved
references, of its author, of a joined media object and of that object's metrics are carried
into the records; those of the other nested objects are not read again. -/
namespace RatatoskrX.Preservation
open Normalization Emission BatchConsistency

abbrev Member := String × Json

section Maps

/- The names in the order of a serde_json Map, each of them once. -/
def Ordered (document : Extension) : Prop := (document.map Prod.fst).Pairwise (· < ·)

instance (document) : Decidable (Ordered document) := by unfold Ordered; infer_instance

variable {document members top : Extension} {key : String} {value : Json} {p : Member}

theorem orderedNil : Ordered [] := by simp [Ordered]

theorem orderedDistinct (ordered : Ordered document) : (document.map Prod.fst).Nodup := ordered.imp ne_of_lt

theorem orderedRest {first : Member} (ordered : Ordered (first::document)) :
    (∀ p ∈ document, first.1 < p.1) ∧ Ordered document := by
  obtain ⟨before,rest⟩ := List.pairwise_cons.mp ordered
  exact ⟨fun p member => before p.1 (List.mem_map_of_mem member),rest⟩

theorem insertMem (ordered : Ordered document) :
    p ∈ insertMember key value document ↔ p = (key,value) ∨ p ∈ document ∧ p.1 ≠ key := by
  induction document with
  | nil => simp [insertMember]
  | cons first rest ih =>
    obtain ⟨before,later⟩ := orderedRest ordered
    obtain ⟨name,old⟩ := first
    have apart (bound : key ≤ name) {q : Member} (member : q ∈ rest) : q.1 ≠ key :=
      ne_of_gt (lt_of_le_of_lt bound (before q member))
    simp only [insertMember]
    split
    · rename_i less
      have kept : p ∈ (name,old)::rest → p.1 ≠ key := by
        rintro (_ | ⟨_,member⟩)
        · exact ne_of_gt less
        · exact apart less.le member
      rw [List.mem_cons]
      exact or_congr_right ⟨fun member => ⟨member,kept member⟩,And.left⟩
    split
    · rename_i same
      subst same
      simp only [List.mem_cons]
      constructor
      · rintro (rfl | member)
        · exact .inl rfl
        · exact .inr ⟨.inr member,apart le_rfl member⟩
      · rintro (rfl | ⟨rfl | member,other⟩)
        · exact .inl rfl
        · exact absurd rfl other
        · exact .inr member
    · rename_i different
      simp only [List.mem_cons,ih later]
      constructor
      · rintro (rfl | rfl | ⟨member,other⟩)
        · exact .inr ⟨.inl rfl,Ne.symm different⟩
        · exact .inl rfl
        · exact .inr ⟨.inr member,other⟩
      · rintro (rfl | ⟨rfl | member,other⟩)
        · exact .inr (.inl rfl)
        · exact .inl rfl
        · exact .inr (.inr ⟨member,other⟩)

theorem insertOrdered (ordered : Ordered document) : Ordered (insertMember key value document) := by
  induction document with
  | nil => simp [insertMember,Ordered]
  | cons first rest ih =>
    obtain ⟨before,later⟩ := orderedRest ordered
    obtain ⟨name,old⟩ := first
    have cons {q : Member} {others : Extension} (bounds : ∀ p ∈ others, q.1 < p.1) (sorted : Ordered others) :
        Ordered (q::others) := by
      refine List.pairwise_cons.mpr ⟨?_,sorted⟩
      intro name member
      obtain ⟨p,there,rfl⟩ := List.mem_map.mp member
      exact bounds p there
    simp only [insertMember]
    split
    · rename_i less
      refine cons ?_ ordered
      rintro p (_ | ⟨_,member⟩)
      · exact less
      · exact less.trans (before p member)
    split
    · rename_i same
      subst same
      exact cons before later
    · rename_i notLess different
      refine cons ?_ (ih later)
      intro p member
      obtain rfl | ⟨there,_⟩ := (insertMem later).mp member
      · exact lt_of_le_of_ne (not_lt.mp notLess) (Ne.symm different)
      · exact before p there

theorem insertAllMem (ordered : Ordered document) (distinct : (top.map Prod.fst).Nodup) :
    p ∈ insertAll document top ↔ p ∈ top ∨ p ∈ document ∧ p.1 ∉ top.map Prod.fst := by
  induction top generalizing document with
  | nil => simp [insertAll]
  | cons first rest ih =>
    obtain ⟨name,value⟩ := first
    obtain ⟨fresh,others⟩ := List.nodup_cons.mp distinct
    have whole : p ∈ insertAll document ((name,value)::rest) ↔ p ∈ insertAll (insertMember name value document) rest := Iff.rfl
    rw [whole,ih (insertOrdered ordered) others,insertMem ordered]
    simp only [List.mem_cons,List.map_cons,not_or]
    constructor
    · rintro (member | ⟨rfl | ⟨member,other⟩,hidden⟩)
      · exact .inl (.inr member)
      · exact .inl (.inl rfl)
      · exact .inr ⟨member,other,hidden⟩
    · rintro ((rfl | member) | ⟨member,other,hidden⟩)
      · exact .inr ⟨.inl rfl,fresh⟩
      · exact .inl member
      · exact .inr ⟨.inr ⟨member,other⟩,hidden⟩

def present (members : List (String × Option Json)) : Extension :=
  members.filterMap (fun member => member.2.map (fun value => (member.1,value)))

theorem knownAll (document : Extension) (known : List (String × Option Json)) :
    insertKnown document known = insertAll document (present known) := by
  unfold insertKnown insertAll present
  induction known generalizing document with
  | nil => rfl
  | cons first rest ih =>
    obtain ⟨name,found⟩ := first
    cases found with
    | none => exact ih document
    | some value => exact ih (insertMember name value document)

theorem presentNames (known : List (String × Option Json)) :
    ((present known).map Prod.fst).Sublist (known.map Prod.fst) := by
  unfold present
  induction known with
  | nil => exact .slnil
  | cons first rest ih =>
    obtain ⟨name,found⟩ := first
    cases found with
    | none => exact .cons name ih
    | some value => exact .cons_cons name ih

theorem knownMem {known : List (String × Option Json)} (distinct : (known.map Prod.fst).Nodup) :
    p ∈ insertKnown [] known ↔ p ∈ present known := by
  rw [knownAll,insertAllMem orderedNil (distinct.sublist (presentNames known))]
  simp

theorem knownOrdered (known : List (String × Option Json)) : Ordered (insertKnown [] known) := by
  have grows {document : Extension} {top : Extension} (ordered : Ordered document) : Ordered (insertAll document top) := by
    induction top generalizing document with
    | nil => exact ordered
    | cons first rest ih => exact ih (insertOrdered ordered)
  rw [knownAll]
  exact grows orderedNil

end Maps

section Occurrence

inductive Within (member : Member) : Json → Prop where
  | here {members} (there : member ∈ members) : Within member (.object members)
  | inside {members name value} (there : (name,value) ∈ members) (deeper : Within member value) : Within member (.object members)
  | item {items value} (there : value ∈ items) (deeper : Within member value) : Within member (.array items)

variable {m : Member}

theorem sameWithin {members members' : Extension} (same : ∀ p, p ∈ members ↔ p ∈ members') :
    Within m (.object members) ↔ Within m (.object members') := by
  constructor
  · rintro (there | ⟨there,deeper⟩)
    · exact .here ((same m).mp there)
    · exact .inside ((same _).mp there) deeper
  · rintro (there | ⟨there,deeper⟩)
    · exact .here ((same m).mpr there)
    · exact .inside ((same _).mpr there) deeper

/- Each of the members is kept or left behind; the kept ones are in the record, those left behind
are there exactly where they occur in what is passed on. -/
def Keeps (all kept dropped : List Member) (carried record : Json) : Prop :=
  ∀ m ∈ all, (m ∈ kept ∨ m ∈ dropped) ∧ (m ∈ kept → Within m record) ∧ (m ∈ dropped → (Within m record ↔ Within m carried))

theorem keeps {all kept dropped : List Member} {carried record : Json} (same : ∀ m, Within m record ↔ Within m carried)
    (covered : ∀ m ∈ all, m ∈ kept ∨ m ∈ dropped) (there : ∀ m ∈ kept, Within m carried) : Keeps all kept dropped carried record :=
  fun m member => ⟨covered m member,fun kept => (same m).mpr (there m kept),fun _ => same m⟩

end Occurrence

section Posts

def references (post : PostObject) : List ReferencedTweet := post.referencedTweets.getD []

/- The members of the nested objects that the records are not made from. -/
def nestedMembers (post : PostObject) : List Member :=
  post.publicMetrics.elim [] PublicMetrics.extension ++ post.noteTweet.elim [] NoteTweet.extension ++
    post.entities.elim [] PostEntities.extension ++ (post.entities.elim [] PostEntities.urls).flatMap PostUrlEntity.extension ++
    post.attachments.elim [] Attachments.extension ++ post.editControls.elim [] EditControls.extension

/- Every member of the post and of its nested objects that no type models. -/
def postMembers (post : PostObject) : List Member :=
  post.extension ++ nestedMembers post ++ (references post).flatMap ReferencedTweet.extension

def Resolves (reference : ReferencedTweet) : Prop := (classifyReference reference).isSome = true

instance (reference) : Decidable (Resolves reference) := by unfold Resolves; infer_instance

def unresolved (post : PostObject) : List ReferencedTweet := (references post).filter (fun reference => ¬Resolves reference)

/- The members that normalization keeps: those of the post, unless its unresolved references take
their name, and those of the unresolved references. -/
def keptOfPost (post : PostObject) : List Member :=
  (if unresolved post = [] then post.extension else post.extension.filter (fun p => p.1 ≠ unresolvedReferencesKey)) ++
    (unresolved post).flatMap ReferencedTweet.extension

/- The members that it leaves behind: those of the nested objects, those of a reference that becomes
a relation, and one under the name that the unresolved references take. -/
def droppedOfPost (post : PostObject) : List Member :=
  nestedMembers post ++ ((references post).filter (fun reference => Resolves reference)).flatMap ReferencedTweet.extension ++
    if unresolved post = [] then [] else post.extension.filter (fun p => p.1 = unresolvedReferencesKey)

/- What a post passes on: its own members, and its unresolved references as serde writes them. -/
def carriedOfPost (post : PostObject) : Json :=
  .object (if unresolved post = [] then post.extension
    else (unresolvedReferencesKey,.array ((unresolved post).map referenceValue))::
      post.extension.filter (fun p => p.1 ≠ unresolvedReferencesKey))

variable {parse : String → Option Schema.DateTime} {post : PostObject} {record : NormalizedPost} {m : Member}

theorem unresolvedValues : (splitReferences post).2 = (unresolved post).map referenceValue := by
  unfold splitReferences unresolved references
  refine congrArg (List.map referenceValue) (List.filter_congr ?_)
  intro reference _
  rw [Bool.eq_iff_iff,decide_eq_true_iff]
  unfold Resolves
  simp

theorem recordExtension (made : Becomes parse post record) : record.extension =
    if unresolved post = [] then post.extension
    else insertMember unresolvedReferencesKey (.array ((unresolved post).map referenceValue)) post.extension := by
  unfold Becomes normalizePost at made
  split at made
  · simp at made
  · cases Except.ok.inj made
    rw [unresolvedValues]
    simp only [List.isEmpty_iff,List.map_eq_nil_iff]

theorem postSame (ordered : Ordered post.extension) (made : Becomes parse post record) :
    Within m (.object record.extension) ↔ Within m (carriedOfPost post) := by
  rw [recordExtension made]
  unfold carriedOfPost
  split
  · rfl
  · refine sameWithin ?_
    intro p
    rw [insertMem ordered,List.mem_cons,List.mem_filter,decide_eq_true_iff]

theorem referenceWritten {reference : ReferencedTweet} (ordered : Ordered reference.extension) (there : m ∈ reference.extension) :
    Within m (referenceValue reference) :=
  .here ((insertAllMem (knownOrdered _) (orderedDistinct ordered)).mpr (.inl there))

theorem postCovered : ∀ m ∈ postMembers post, m ∈ keptOfPost post ∨ m ∈ droppedOfPost post := by
  intro m member
  unfold postMembers at member
  unfold keptOfPost droppedOfPost
  simp only [List.mem_append] at member ⊢
  obtain (own | nested) | referred := member
  · split
    · exact .inl (.inl own)
    · by_cases hidden : m.1 = unresolvedReferencesKey
      · exact .inr (.inr (List.mem_filter.mpr ⟨own,decide_eq_true hidden⟩))
      · exact .inl (.inl (List.mem_filter.mpr ⟨own,decide_eq_true hidden⟩))
  · exact .inr (.inl (.inl nested))
  · obtain ⟨reference,carried,there⟩ := List.mem_flatMap.mp referred
    by_cases resolves : Resolves reference
    · exact .inr (.inl (.inr (List.mem_flatMap.mpr ⟨reference,List.mem_filter.mpr ⟨carried,decide_eq_true resolves⟩,there⟩)))
    · exact .inl (.inr (List.mem_flatMap.mpr ⟨reference,List.mem_filter.mpr ⟨carried,decide_eq_true resolves⟩,there⟩))

theorem postCarries (ordered : ∀ reference ∈ references post, Ordered reference.extension) :
    ∀ m ∈ keptOfPost post, Within m (carriedOfPost post) := by
  intro m member
  unfold keptOfPost at member
  unfold carriedOfPost
  obtain own | referred := List.mem_append.mp member
  · split at own
    · rename_i none
      rw [if_pos none]
      exact .here own
    · rename_i some_
      rw [if_neg some_]
      exact .here (List.mem_cons_of_mem _ own)
  · obtain ⟨reference,left,there⟩ := List.mem_flatMap.mp referred
    rw [if_neg (List.ne_nil_of_mem left)]
    have written := referenceWritten (ordered reference (List.mem_filter.mp left).1) there
    exact .inside List.mem_cons_self (.item (List.mem_map_of_mem left) written)

end Posts

section Media

def keptOfMedia (media : MediaObject) : List Member :=
  media.extension ++ media.publicMetrics.elim [] MediaPublicMetrics.extension

/- The members of the variants, of which only the documented ones are written. -/
def droppedOfMedia (media : MediaObject) : List Member := (media.variants.getD []).flatMap MediaVariant.extension

def mediaMembers (media : MediaObject) : List Member := keptOfMedia media ++ droppedOfMedia media

def mediaDocument (media : MediaObject) : List (String × Option Json) :=
  [("url",media.url.map .string),("preview_image_url",media.previewImageUrl.map .string),
    ("width",media.width.map integer),("height",media.height.map integer),("alt_text",media.altText.map .string),
    ("duration_ms",media.durationMs.map integer),
    ("variants",media.variants.map (fun variants => .array (variants.map variantDocument))),
    ("public_metrics",media.publicMetrics.map metricsDocument),("extension",some (.object media.extension))]

def carriedOfMedia (media : MediaObject) : Json := .object (present (mediaDocument media))

variable {media : MediaObject} {m : Member}

theorem mediaSame : Within m (mediaMetadataDocument media) ↔ Within m (carriedOfMedia media) := by
  have whole : mediaMetadataDocument media = .object (insertKnown [] (mediaDocument media)) := rfl
  have distinct : ((mediaDocument media).map Prod.fst).Nodup := by simp [mediaDocument]
  rw [whole]
  exact sameWithin (fun p => knownMem distinct)

theorem mediaCarries (ordered : ∀ metrics, media.publicMetrics = some metrics → Ordered metrics.extension) :
    ∀ m ∈ keptOfMedia media, Within m (carriedOfMedia media) := by
  intro m member
  have written (name value) (there : (name,some value) ∈ mediaDocument media) : (name,value) ∈ present (mediaDocument media) :=
    List.mem_filterMap.mpr ⟨_,there,rfl⟩
  obtain own | counted := List.mem_append.mp member
  · exact .inside (written "extension" _ (by simp [mediaDocument])) (.here own)
  · cases metrics : media.publicMetrics with
    | none => simp [metrics] at counted
    | some known =>
      rw [metrics] at counted
      have metered : Within m (metricsDocument known) :=
        .here ((insertAllMem (knownOrdered _) (orderedDistinct (ordered known metrics))).mpr (.inl counted))
      exact .inside (written "public_metrics" _ (by simp [mediaDocument,metrics])) metered

end Media

section Batch

def droppedOfUser (user : UserObject) : List Member := user.publicMetrics.elim [] UserPublicMetrics.extension

def userMembers (user : UserObject) : List Member := user.extension ++ droppedOfUser user

/- Each post, author and joined media object has a record that meets what is asked of the two. -/
structure Recorded (parse : String → Option Schema.DateTime) (e : Envelope) (batch : NormalizedBatch)
    (ofPost : PostObject → Json → Prop) (ofUser : UserObject → Json → Prop) (ofMedia : MediaObject → Json → Prop) : Prop where
  posts : ∀ post ∈ e.data, ∃ record ∈ batch.posts, Becomes parse post record ∧ ofPost post (.object record.extension)
  users : ∀ post ∈ e.data, ∀ author, authorIndex e (authorOf post) = some author →
    ∃ record ∈ batch.users, record.providerId = authorOf post ∧ ofUser author (.object record.extension)
  media : ∀ post ∈ e.data, ∀ key ∈ mediaKeysOf post, ∀ media, mediaIndex e key = some media →
    ∃ record ∈ batch.media, record.postProviderId = post.providerId ∧ record.providerId = key ∧ ofMedia media record.metadata

/- Every unmodelled member occurs in the record of its object. -/
def Preserved (parse : String → Option Schema.DateTime) (e : Envelope) (batch : NormalizedBatch) : Prop :=
  Recorded parse e batch (fun post record => ∀ m ∈ postMembers post, Within m record)
    (fun user record => ∀ m ∈ userMembers user, Within m record) (fun media record => ∀ m ∈ mediaMembers media, Within m record)

structure Decoded (e : Envelope) : Prop where
  posts : ∀ post ∈ e.data, Ordered post.extension
  references : ∀ post ∈ e.data, ∀ reference ∈ references post, Ordered reference.extension
  metrics : ∀ media ∈ e.includes.media, ∀ metrics, media.publicMetrics = some metrics → Ordered metrics.extension

variable {parse : String → Option Schema.DateTime} {e : Envelope} {batch : NormalizedBatch}

/-- In the batch of an accepted envelope every unmodelled member of a post, of its unresolved references,
of its author, of a joined media object and of that object's metrics is preserved; one of the other
nested objects is there exactly where it occurs in what its object passes on. -/
theorem membersCarried (decoded : Decoded e) (ok : normalize parse e = .ok batch) : Recorded parse e batch
    (fun post => Keeps (postMembers post) (keptOfPost post) (droppedOfPost post) (carriedOfPost post))
    (fun user => Keeps (userMembers user) user.extension (droppedOfUser user) (.object user.extension))
    (fun media => Keeps (mediaMembers media) (keptOfMedia media) (droppedOfMedia media) (carriedOfMedia media)) := by
  have emitted := normalizeEmits ok
  refine ⟨?_,?_,?_⟩
  · intro post carried
    obtain ⟨record,member,made⟩ := emitted.record carried
    exact ⟨record,member,made,
      keeps (fun _ => postSame (decoded.posts post carried) made) postCovered (postCarries (decoded.references post carried))⟩
  · intro post carried author found
    exact ⟨_,(emitted.users _).mpr ⟨post,carried,author,found,rfl⟩,rfl,
      keeps (fun _ => Iff.rfl) (fun _ => List.mem_append.mp) (fun _ => .here)⟩
  · intro post carried key listed media found
    obtain ⟨member,named⟩ := Keyed.lastFound found
    have joined : normalizeMediaRecord post.providerId media ∈ joinedMedia e post :=
      List.mem_filterMap.mpr ⟨key,listed,by rw [found]; rfl⟩
    exact ⟨_,emitted.media.mem_iff.mpr (List.mem_flatMap.mpr ⟨post,carried,joined⟩),rfl,by simp [normalizeMediaRecord,named],
      keeps (fun _ => mediaSame) (fun _ => List.mem_append.mp) (mediaCarries (decoded.metrics media member))⟩

end Batch

section Sample
open Alone

/- A post, its unresolved reference, its author and a joined video with members of their own. -/
def unmodelledPage : Envelope :=
  ⟨[{illustratedPost "10" ["v"] with
      referencedTweets := some [⟨some "pinned_by",some "9",[("reason",.string "thread")]⟩,⟨some "quoted",some "8",[]⟩]
      extension := [("article",.object [("title",.string "t")])]}],
    ⟨[{sampleAuthor with extension := [("affiliation",.string "a")]}],[],
      [{sampleMedia "v" with
        publicMetrics := some ⟨some 7,[("share_count",.number "3")]⟩
        variants := some [⟨some 256000,none,none,[]⟩]
        extension := [("tagged",.bool true)]}],[]⟩,[]⟩

theorem membersCarriedUnmodelled : ∃ batch, normalize sampleParse unmodelledPage = .ok batch ∧
    Preserved sampleParse unmodelledPage batch := by
  obtain ⟨batch,ok⟩ : ∃ batch, normalize sampleParse unmodelledPage = .ok batch := Outcome.succeeds (by decide +kernel)
  have decoded : Decoded unmodelledPage := by
    refine ⟨?_,?_,?_⟩
    · decide +kernel
    · decide +kernel
    · simp only [unmodelledPage,List.forall_mem_singleton,Option.some.injEq]
      rintro _ rfl
      decide +kernel
  have whole {all kept dropped : List Member} {carried record : Json} (none : dropped.length = 0)
      (keeps : Keeps all kept dropped carried record) : ∀ m ∈ all, Within m record := by
    intro m member
    obtain ⟨side,there,_⟩ := keeps m member
    rw [List.length_eq_zero_iff.mp none] at side
    exact there (side.resolve_right List.not_mem_nil)
  have posts : ∀ post ∈ unmodelledPage.data, (droppedOfPost post).length = 0 := by decide +kernel
  have users : ∀ user ∈ unmodelledPage.includes.users, (droppedOfUser user).length = 0 := by decide +kernel
  have media : ∀ media ∈ unmodelledPage.includes.media, (droppedOfMedia media).length = 0 := by decide +kernel
  have carried := membersCarried decoded ok
  refine ⟨batch,ok,?_,?_,?_⟩
  · intro post member
    obtain ⟨record,there,made,keeps⟩ := carried.posts post member
    exact ⟨record,there,made,whole (posts post member) keeps⟩
  · intro post member author found
    obtain ⟨record,there,named,keeps⟩ := carried.users post member author found
    exact ⟨record,there,named,whole (users author (Keyed.lastFound found).1) keeps⟩
  · intro post member key listed known found
    obtain ⟨record,there,owned,named,keeps⟩ := carried.media post member key listed known found
    exact ⟨record,there,owned,named,whole (media known (Keyed.lastFound found).1) keeps⟩

/- A post whose metrics have a member that the payload types do not model. -/
def meteredPage : Envelope :=
  ⟨[{samplePost "10" with publicMetrics := some ⟨none,none,some 1,none,none,none,[("view_rate",.number "2")]⟩}],
    ⟨[sampleAuthor],[],[],[]⟩,[]⟩

/-- The unmodelled metric reaches no record. -/
theorem metricDropped : ∃ batch, normalize sampleParse meteredPage = .ok batch ∧ ¬Preserved sampleParse meteredPage batch := by
  obtain ⟨batch,ok⟩ : ∃ batch, normalize sampleParse meteredPage = .ok batch := Outcome.succeeds (by decide +kernel)
  refine ⟨batch,ok,?_⟩
  intro preserved
  obtain ⟨record,_,made,all⟩ := preserved.posts _ List.mem_cons_self
  have empty : record.extension = [] := by
    rw [recordExtension made]
    rfl
  have there := all ("view_rate",.number "2") (by simp [postMembers,nestedMembers,samplePost])
  rw [empty] at there
  rcases there with there | ⟨there,_⟩ <;> simp at there

end Sample
end RatatoskrX.Preservation
