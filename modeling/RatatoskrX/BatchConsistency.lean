import RatatoskrX.Alone
import RatatoskrX.Emission

/-! Whether the parts of a batch agree with each other and with the keys of the schema. Users,
relations and a post's own media keys lose their repetitions; the media records keep theirs. -/
namespace RatatoskrX.BatchConsistency
open Normalization Emission

structure Consistent (e : Envelope) (batch : NormalizedBatch) : Prop where
  posts : (batch.posts.map NormalizedPost.providerId).Perm (e.data.map PostObject.providerId)
  users : (batch.users.map NormalizedUser.providerId).Nodup
  authors : ∀ id, (∃ user ∈ batch.users, user.providerId = id) ↔ ∃ post ∈ e.data, post.authorId = some id
  relationsOwned : ∀ r ∈ batch.relations, ∃ post ∈ batch.posts, post.providerId = r.postProviderId
  mediaOwned : ∀ m ∈ batch.media, ∃ post ∈ batch.posts, post.providerId = m.postProviderId
  relationsUnique : (batch.relations.map (fun r => (r.postProviderId,r.relatedPostProviderId,r.relation))).Nodup
  mediaUnique : (batch.media.map (fun m => (m.postProviderId,m.providerId))).Nodup
  joined : ∀ post ∈ batch.posts, ∀ key, (∃ m ∈ batch.media, m.postProviderId = post.providerId ∧ m.providerId = key) ↔
    key ∈ post.mediaKeys ∧ ∃ media ∈ e.includes.media, media.mediaKey = some key

def mediaKeysOf (post : PostObject) : List String := (post.attachments.bind Attachments.mediaKeys).getD []

/- The attachments of a post, less the keys that no included media object carries. -/
def joinedKeys (e : Envelope) (post : PostObject) : List String :=
  (mediaKeysOf post).filter (fun key => key ∈ e.includes.media.filterMap MediaObject.mediaKey)

/- No post repeats a key that an included media object carries. -/
def KeysApart (e : Envelope) : Prop := ∀ post ∈ e.data, (joinedKeys e post).Nodup

section Joins
variable {e : Envelope} {post : PostObject}

theorem indexCarries {key} : (mediaIndex e key).isSome = true ↔ key ∈ e.includes.media.filterMap MediaObject.mediaKey := by
  rw [mediaLast,Keyed.lastSome,List.mem_filterMap]

theorem joinedNames : (joinedMedia e post).map (fun m => (m.postProviderId,m.providerId)) =
    (joinedKeys e post).map (fun key => (post.providerId,key)) := by
  unfold joinedMedia joinedKeys mediaKeysOf
  generalize (post.attachments.bind Attachments.mediaKeys).getD [] = keys
  induction keys with
  | nil => rfl
  | cons key rest ih =>
    cases found : mediaIndex e key with
    | none =>
      have uncarried : key ∉ e.includes.media.filterMap MediaObject.mediaKey := by
        rw [← indexCarries,found]
        simp
      rw [List.filterMap_cons_none (by rw [found]; rfl),List.filter_cons_of_neg (by simpa using uncarried),ih]
    | some media =>
      have carried : key ∈ e.includes.media.filterMap MediaObject.mediaKey := by
        rw [← indexCarries,found]
        rfl
      have named : media.mediaKey = some key := (Keyed.lastFound found).2
      rw [List.filterMap_cons_some (by rw [found]; rfl),List.filter_cons_of_pos (by simpa using carried),List.map_cons,
        List.map_cons,ih]
      simp [normalizeMediaRecord,named,PostObject.providerId]

theorem mediaNames {parse batch} (emitted : Emitted parse e batch) :
    (batch.media.map (fun m => (m.postProviderId,m.providerId))).Perm
      (e.data.flatMap (fun post => (joinedKeys e post).map (fun key => (post.providerId,key)))) := by
  have names := emitted.media.map (fun m => (m.postProviderId,m.providerId))
  rw [List.map_flatMap] at names
  simpa only [joinedNames] using names

theorem mediaApart {parse batch} (distinct : (e.data.map PostObject.providerId).Nodup) (emitted : Emitted parse e batch) :
    (batch.media.map (fun m => (m.postProviderId,m.providerId))).Nodup ↔ KeysApart e := by
  rw [(mediaNames emitted).nodup_iff,List.nodup_flatMap]
  have injective (post : PostObject) : Function.Injective (fun key : String => (post.providerId,key)) :=
    fun _ _ same => (Prod.mk.inj same).2
  constructor
  · rintro ⟨each,_⟩ post member
    exact (each post member).of_map
  · intro apart
    refine ⟨fun post member => (apart post member).map (injective post),?_⟩
    refine (List.pairwise_map.mp distinct).imp ?_
    intro a b other pair left right
    obtain ⟨key,_,rfl⟩ := List.mem_map.mp left
    obtain ⟨key',_,same⟩ := List.mem_map.mp right
    exact other (Prod.mk.inj same).1.symm

end Joins

section Consistency
variable {parse : String → Option Schema.DateTime} {e : Envelope} {batch : NormalizedBatch}

theorem postNamed (ok : normalize parse e = .ok batch) {id} :
    (∃ record ∈ batch.posts, record.providerId = id) ↔ ∃ post ∈ e.data, post.providerId = id := by
  have ids : (batch.posts.map NormalizedPost.providerId).Perm (e.data.map PostObject.providerId) := by
    rw [normalizedIds ok]
    exact List.perm_insertionSort _ _
  rw [← List.mem_map,ids.mem_iff,List.mem_map]

theorem authorsKept (ok : normalize parse e = .ok batch) (id : String) :
    (∃ user ∈ batch.users, user.providerId = id) ↔ ∃ post ∈ e.data, post.authorId = some id := by
  have accepted := (normalizeAccepts.mp ⟨batch,ok⟩).2
  have emitted := normalizeEmits ok
  constructor
  · rintro ⟨user,member,rfl⟩
    obtain ⟨post,carried,author,_,rfl⟩ := (emitted.users user).mp member
    obtain ⟨id,named,_⟩ := (accepted post carried).1.author
    exact ⟨post,carried,by simp [userRecord,authorOf,named]⟩
  · rintro ⟨post,carried,named⟩
    obtain ⟨author,found⟩ := Option.isSome_iff_exists.mp (accepted post carried).2
    exact ⟨_,(emitted.users _).mpr ⟨post,carried,author,found,rfl⟩,by simp [userRecord,authorOf,named]⟩

theorem relationsApart (emitted : Emitted parse e batch) :
    (batch.relations.map (fun r => (r.postProviderId,r.relatedPostProviderId,r.relation))).Nodup := by
  refine emitted.relationsDistinct.map_on ?_
  have stamped {r} (member : r ∈ batch.relations) : r.parserVersion = parserVersion := by
    obtain ⟨post,_,made⟩ := (emitted.relations r).mp member
    obtain ⟨reference,_,rfl⟩ := List.mem_map.mp made
    rfl
  intro a left b right same
  obtain ⟨post,related,relation⟩ : a.postProviderId = b.postProviderId ∧
    a.relatedPostProviderId = b.relatedPostProviderId ∧ a.relation = b.relation := by simpa using same
  have version := (stamped left).trans (stamped right).symm
  cases a
  cases b
  simp only [NormalizedRelation.mk.injEq]
  exact ⟨version,post,related,relation⟩

theorem recordKeys {post record} (made : Becomes parse post record) {key} : key ∈ record.mediaKeys ↔ key ∈ mediaKeysOf post := by
  unfold Becomes normalizePost at made
  split at made
  · simp at made
  · cases Except.ok.inj made
    unfold sortedStrings mediaKeysOf
    rw [dedupMem,List.mem_insertionSort]

theorem memJoined {post : PostObject} {key} :
    key ∈ joinedKeys e post ↔ key ∈ mediaKeysOf post ∧ ∃ media ∈ e.includes.media, media.mediaKey = some key := by
  simp [joinedKeys]

theorem keysJoined (distinct : (e.data.map PostObject.providerId).Nodup) (emitted : Emitted parse e batch)
    {record} (member : record ∈ batch.posts) (key : String) :
    (∃ m ∈ batch.media, m.postProviderId = record.providerId ∧ m.providerId = key) ↔
      key ∈ record.mediaKeys ∧ ∃ media ∈ e.includes.media, media.mediaKey = some key := by
  obtain ⟨post,carried,made⟩ := emitted.made member
  have names (id : String) : (∃ m ∈ batch.media, m.postProviderId = id ∧ m.providerId = key) ↔
      ∃ post ∈ e.data, post.providerId = id ∧ key ∈ joinedKeys e post := by
    have pair := (mediaNames emitted).mem_iff (a := (id,key))
    simp only [List.mem_map,List.mem_flatMap,Prod.mk.injEq] at pair
    rw [pair]
    constructor
    · rintro ⟨post,carried,_,joined,same,rfl⟩
      exact ⟨post,carried,same,joined⟩
    · rintro ⟨post,carried,same,joined⟩
      exact ⟨post,carried,key,joined,same,rfl⟩
  rw [names,recordKeys made,← memJoined,becomesNamed made]
  constructor
  · rintro ⟨other,there,same,joined⟩
    rw [← List.inj_on_of_nodup_map distinct there carried same]
    exact joined
  · intro joined
    exact ⟨post,carried,rfl,joined⟩

/-- The batch of an accepted envelope of distinct posts is consistent exactly where no post repeats
a key that it joins. -/
theorem batchConsistentExactly (distinct : (e.data.filterMap PostObject.id).Nodup) (ok : normalize parse e = .ok batch) :
    Consistent e batch ↔ KeysApart e := by
  have emitted := normalizeEmits ok
  have named : e.data.filterMap PostObject.id = e.data.map PostObject.providerId := by
    rw [← List.filterMap_eq_map]
    refine List.filterMap_congr ?_
    intro post carried
    obtain ⟨id,there,_⟩ := ((normalizeAccepts.mp ⟨batch,ok⟩).2 post carried).1.id
    simp [PostObject.providerId,there]
  rw [named] at distinct
  constructor
  · intro consistent
    exact (mediaApart distinct emitted).mp consistent.mediaUnique
  · intro apart
    refine ⟨?_,emitted.usersDistinct,authorsKept ok,?_,?_,relationsApart emitted,(mediaApart distinct emitted).mpr apart,
      fun _ => keysJoined distinct emitted⟩
    · rw [normalizedIds ok]
      exact List.perm_insertionSort _ _
    · intro r member
      obtain ⟨post,carried,made⟩ := (emitted.relations r).mp member
      obtain ⟨reference,_,rfl⟩ := List.mem_map.mp made
      exact (postNamed ok).mpr ⟨post,carried,rfl⟩
    · intro m member
      obtain ⟨post,carried,made⟩ := List.mem_flatMap.mp (emitted.media.mem_iff.mp member)
      obtain ⟨key,_,joined⟩ := List.mem_filterMap.mp made
      obtain ⟨media,_,rfl⟩ := Option.map_eq_some_iff.mp joined
      exact (postNamed ok).mpr ⟨post,carried,rfl⟩

end Consistency

section Sample
open Alone

def keysPage (keys : List String) : Envelope :=
  ⟨[illustratedPost "20" keys,samplePost "10"],⟨[sampleAuthor],[],[sampleMedia "a",sampleMedia "b"],[]⟩,[]⟩

theorem batchConsistentExactlyApart : ∃ batch, normalize sampleParse (keysPage ["b","c","a"]) = .ok batch ∧
    Consistent (keysPage ["b","c","a"]) batch := by
  obtain ⟨batch,ok⟩ : ∃ batch, normalize sampleParse (keysPage ["b","c","a"]) = .ok batch := Outcome.succeeds (by decide +kernel)
  refine ⟨batch,ok,(batchConsistentExactly (by decide +kernel) ok).mpr ?_⟩
  unfold KeysApart
  decide +kernel

/-- A post that repeats a media key gets two media records under the one key of the schema. -/
theorem repeatedKeyKept : ((keysPage ["a","a"]).data.filterMap PostObject.id).Nodup ∧
    ∃ batch, normalize sampleParse (keysPage ["a","a"]) = .ok batch ∧ ¬Consistent (keysPage ["a","a"]) batch := by
  obtain ⟨batch,ok⟩ : ∃ batch, normalize sampleParse (keysPage ["a","a"]) = .ok batch := Outcome.succeeds (by decide +kernel)
  refine ⟨by decide +kernel,batch,ok,?_⟩
  intro consistent
  have names : (normalize sampleParse (keysPage ["a","a"])).toOption.map (fun batch =>
      batch.media.map (fun m => (m.postProviderId,m.providerId))) = some [("20","a"),("20","a")] := by decide +kernel
  have twice : batch.media.map (fun m => (m.postProviderId,m.providerId)) = [("20","a"),("20","a")] := by
    simpa [ok,Except.toOption] using names
  have unique := consistent.mediaUnique
  rw [twice] at unique
  simp at unique

end Sample
end RatatoskrX.BatchConsistency
