import Mathlib.Data.Prod.Lex
import RatatoskrX.Foundation.Keyed
import RatatoskrX.Normalization

/-! What an accepted envelope emits: a record for each post, one for each author, a relation for
each mapped reference and a media record for each joined key. -/
namespace RatatoskrX.Emission
open Outcome Normalization

def authorOf (post : PostObject) : String := post.authorId.getD ""

def userRecord (id : String) (author : UserObject) : NormalizedUser :=
  ⟨parserVersion,id,author.username,author.name,author.extension⟩

def relationRecords (post : PostObject) : List NormalizedRelation :=
  (splitReferences post).1.map (fun (related,relation) => ⟨parserVersion,post.providerId,related,relation⟩)

def Becomes (parse : String → Option Schema.DateTime) (post : PostObject) (record : NormalizedPost) : Prop :=
  normalizePost parse post (authorOf post) (splitReferences post).2 = .ok record

def Authored (e : Envelope) (posts : List PostObject) (record : NormalizedUser) : Prop :=
  ∃ post ∈ posts, ∃ author, authorIndex e (authorOf post) = some author ∧ record = userRecord (authorOf post) author

structure Gathered (parse : String → Option Schema.DateTime) (e : Envelope) (p : Progress) (posts : List PostObject) : Prop where
  users : ∀ record, record ∈ p.batch.users ↔ Authored e posts record
  seen : p.seen = (p.batch.users.map NormalizedUser.providerId).reverse
  distinct : (p.batch.users.map NormalizedUser.providerId).Nodup
  records : List.Forall₂ (Becomes parse) posts p.batch.posts
  relations : p.batch.relations = posts.flatMap relationRecords
  media : p.batch.media = posts.flatMap (joinedMedia e)

section Indexes

theorem authorLast (e : Envelope) : authorIndex e = Keyed.last UserObject.id e.includes.users := rfl

theorem mediaLast (e : Envelope) : mediaIndex e = Keyed.last MediaObject.mediaKey e.includes.media := rfl

end Indexes

section Loop
variable {parse : String → Option Schema.DateTime} {e : Envelope} {p p' : Progress} {post : PostObject} {posts before : List PostObject}

theorem pushMakes (ok : Progress.push parse e p post = .ok p') :
    ∃ author record, authorIndex e (authorOf post) = some author ∧ Becomes parse post record ∧
      p' = {p.pushUserOnce author (authorOf post) with
        batch := {(p.pushUserOnce author (authorOf post)).batch with
          posts := (p.pushUserOnce author (authorOf post)).batch.posts ++ [record]
          relations := (p.pushUserOnce author (authorOf post)).batch.relations ++ relationRecords post
          media := (p.pushUserOnce author (authorOf post)).batch.media ++ joinedMedia e post}} := by
  unfold Progress.push at ok
  simp only at ok
  split at ok
  · simp at ok
  rename_i author found
  split at ok
  · simp at ok
  rename_i record made
  exact ⟨author,record,found,made,(Except.ok.inj ok).symm⟩

theorem authoredSnoc {author record} (found : authorIndex e (authorOf post) = some author) :
    Authored e (posts ++ [post]) record ↔ Authored e posts record ∨ record = userRecord (authorOf post) author := by
  unfold Authored
  constructor
  · rintro ⟨other,member,author',found',made⟩
    obtain earlier | rfl := by simpa using member
    · exact .inl ⟨other,earlier,author',found',made⟩
    · cases Option.some.inj (found.symm.trans found')
      exact .inr made
  · rintro (⟨other,earlier,author',found',made⟩ | made)
    · exact ⟨other,List.mem_append_left _ earlier,author',found',made⟩
    · exact ⟨post,by simp,author,found,made⟩

theorem pushedUsers {author} (gathered : Gathered parse e p posts) (found : authorIndex e (authorOf post) = some author) :
    (∀ record, record ∈ (p.pushUserOnce author (authorOf post)).batch.users ↔ Authored e (posts ++ [post]) record) ∧
      (p.pushUserOnce author (authorOf post)).seen =
        ((p.pushUserOnce author (authorOf post)).batch.users.map NormalizedUser.providerId).reverse ∧
      ((p.pushUserOnce author (authorOf post)).batch.users.map NormalizedUser.providerId).Nodup := by
  have known : authorOf post ∈ p.seen ↔ ∃ record ∈ p.batch.users, record.providerId = authorOf post := by
    rw [gathered.seen,List.mem_reverse,List.mem_map]
  unfold Progress.pushUserOnce
  split
  · rename_i seen
    refine ⟨?_,gathered.seen,gathered.distinct⟩
    intro record
    rw [gathered.users,authoredSnoc found]
    refine ⟨.inl,?_⟩
    rintro (authored | rfl)
    · exact authored
    · obtain ⟨record,member,named⟩ := known.mp seen
      obtain ⟨other,earlier,author',found',rfl⟩ := (gathered.users record).mp member
      have same : authorOf other = authorOf post := named
      rw [same] at found'
      cases Option.some.inj (found.symm.trans found')
      exact ⟨other,earlier,author,same ▸ found,by rw [same]⟩
  · rename_i unseen
    refine ⟨?_,?_,?_⟩
    · intro record
      rw [authoredSnoc found,← gathered.users]
      simp [userRecord]
    · simp [gathered.seen]
    · rw [List.map_append]
      refine List.Nodup.append gathered.distinct (List.nodup_singleton _) ?_
      intro id earlier last
      obtain ⟨record,member,named⟩ := List.mem_map.mp earlier
      exact unseen (known.mpr ⟨record,member,named.trans (List.mem_singleton.mp last)⟩)

theorem pushedRest (author : UserObject) (id : String) :
    (p.pushUserOnce author id).batch.posts = p.batch.posts ∧
      (p.pushUserOnce author id).batch.relations = p.batch.relations ∧
      (p.pushUserOnce author id).batch.media = p.batch.media := by
  unfold Progress.pushUserOnce
  split <;> exact ⟨rfl,rfl,rfl⟩

theorem pushGathers (gathered : Gathered parse e p posts) (ok : Progress.push parse e p post = .ok p') :
    Gathered parse e p' (posts ++ [post]) := by
  obtain ⟨author,record,found,made,rfl⟩ := pushMakes ok
  obtain ⟨users,seen,distinct⟩ := pushedUsers gathered found
  obtain ⟨samePosts,sameRelations,sameMedia⟩ := pushedRest (p := p) author (authorOf post)
  refine ⟨users,seen,distinct,?_,?_,?_⟩
  · rw [samePosts]
    exact List.rel_append gathered.records (.cons made .nil)
  · rw [sameRelations,gathered.relations]
    simp
  · rw [sameMedia,gathered.media]
    simp

theorem pushAllGathers (gathered : Gathered parse e p before) (ok : Progress.pushAll parse e p posts = .ok p') :
    Gathered parse e p' (before ++ posts) := by
  induction posts generalizing p before with
  | nil =>
    cases Except.ok.inj ok
    simpa using gathered
  | cons post rest ih =>
    obtain ⟨q,first,later⟩ := bindOk.mp ok
    have whole := ih (pushGathers gathered first) later
    rwa [List.append_assoc] at whole

theorem startGathered : Gathered parse e Progress.start [] :=
  ⟨by simp [Progress.start,Authored],rfl,.nil,.nil,rfl,rfl⟩

end Loop

section Dedup
variable {α : Type} [DecidableEq α] {l : List α}

theorem dedupMem {a} : a ∈ dedup l ↔ a ∈ l := by
  fun_induction dedup l with
  | case1 b rest ih => simp [ih]
  | case2 b c rest apart ih => simp [ih]
  | case3 => rfl

theorem dedupNodup {r : α → α → Prop} (antisymm : ∀ a b, r a b → r b a → a = b) (sorted : l.Pairwise r) :
    (dedup l).Nodup := by
  fun_induction dedup l with
  | case1 b rest ih => exact ih (List.pairwise_cons.mp sorted).2
  | case2 b c rest apart ih =>
    obtain ⟨first,others⟩ := List.pairwise_cons.mp sorted
    refine List.nodup_cons.mpr ⟨?_,ih others⟩
    intro again
    obtain rfl | later := List.mem_cons.mp (dedupMem.mp again)
    · exact apart rfl
    · exact apart (antisymm b c (first c List.mem_cons_self) ((List.pairwise_cons.mp others).1 b later))
  | case3 l short =>
    cases l with
    | nil => exact List.nodup_nil
    | cons a rest =>
      cases rest with
      | nil => exact List.nodup_singleton a
      | cons b rest => exact absurd rfl (short a b rest)

end Dedup

section RelationOrder

def relationKey (r : NormalizedRelation) : Int ×ₗ String ×ₗ String ×ₗ Nat :=
  toLex (r.parserVersion,toLex (r.postProviderId,toLex (r.relatedPostProviderId,r.relation.rank)))

theorem relationLe {a b : NormalizedRelation} : a.Le b ↔ relationKey a ≤ relationKey b := by
  simp only [NormalizedRelation.Le,relationKey,Prod.Lex.toLex_le_toLex]

theorem rankApart {a b : Relation} (same : a.rank = b.rank) : a = b := by
  cases a <;> cases b <;> simp [Relation.rank] at same ⊢

theorem relationAntisymm (a b : NormalizedRelation) (before : a.Le b) (after : b.Le a) : a = b := by
  have same := le_antisymm (relationLe.mp before) (relationLe.mp after)
  simp only [relationKey,toLex_inj,Prod.mk.injEq] at same
  obtain ⟨version,post,related,rank⟩ := same
  cases a
  cases b
  simp only [NormalizedRelation.mk.injEq]
  exact ⟨version,post,related,rankApart rank⟩

instance : Std.Total NormalizedRelation.Le := ⟨fun a b => by
  rw [relationLe,relationLe]
  exact le_total _ _⟩

instance : IsTrans NormalizedRelation NormalizedRelation.Le := ⟨fun a b c first second => by
  rw [relationLe] at first second ⊢
  exact first.trans second⟩

end RelationOrder

section Emitted
variable {parse : String → Option Schema.DateTime} {e : Envelope} {batch : NormalizedBatch}

structure Emitted (parse : String → Option Schema.DateTime) (e : Envelope) (batch : NormalizedBatch) : Prop where
  records : List.Forall₂ (Becomes parse) (orderedPosts e) batch.posts
  users : ∀ record, record ∈ batch.users ↔ Authored e e.data record
  usersDistinct : (batch.users.map NormalizedUser.providerId).Nodup
  relations : ∀ relation, relation ∈ batch.relations ↔ ∃ post ∈ e.data, relation ∈ relationRecords post
  relationsDistinct : batch.relations.Nodup
  media : batch.media.Perm (e.data.flatMap (joinedMedia e))

theorem becomesNamed {post record} (made : Becomes parse post record) : record.providerId = post.providerId := by
  unfold Becomes normalizePost at made
  split at made
  · simp at made
  · cases Except.ok.inj made
    rfl

theorem postsSorted {records : List NormalizedPost} (complete : ∀ post ∈ e.data, Complete parse post)
    (made : List.Forall₂ (Becomes parse) (orderedPosts e) records) :
    records.insertionSort (fun a b => a.providerId ≤ b.providerId) = records := by
  have named : records.map NormalizedPost.providerId = (orderedPosts e).map PostObject.providerId := by
    generalize orderedPosts e = posts at made
    induction made with
    | nil => rfl
    | cons first _ ih => rw [List.map_cons,List.map_cons,becomesNamed first,ih]
  rw [orderedIds complete] at named
  have sorted : (records.map NormalizedPost.providerId).Pairwise (· ≤ ·) := by
    rw [named]
    exact List.pairwise_insertionSort _ _
  exact (List.pairwise_map.mp sorted).insertionSort_eq

theorem pairedLeft {α β : Type} {R : α → β → Prop} {as : List α} {bs : List β} (pairs : List.Forall₂ R as bs) {a}
    (member : a ∈ as) : ∃ b ∈ bs, R a b := by
  induction pairs with
  | nil => simp at member
  | @cons _ b _ _ first _ ih =>
    obtain rfl | later := List.mem_cons.mp member
    · exact ⟨b,List.mem_cons_self,first⟩
    · obtain ⟨b,there,related⟩ := ih later
      exact ⟨b,List.mem_cons_of_mem _ there,related⟩

theorem Emitted.made (emitted : Emitted parse e batch) {record} (member : record ∈ batch.posts) :
    ∃ post ∈ e.data, Becomes parse post record := by
  obtain ⟨post,there,made⟩ := pairedLeft emitted.records.flip member
  exact ⟨post,memOrdered.mp there,made⟩

theorem Emitted.record (emitted : Emitted parse e batch) {post} (member : post ∈ e.data) :
    ∃ record ∈ batch.posts, Becomes parse post record :=
  pairedLeft emitted.records (memOrdered.mpr member)

theorem normalizeEmits (ok : normalize parse e = .ok batch) : Emitted parse e batch := by
  obtain ⟨_,valid,ok⟩ := bindOk.mp ok
  obtain ⟨p,pushed,last⟩ := bindOk.mp ok
  cases Except.ok.inj last
  have gathered := pushAllGathers startGathered pushed
  rw [List.nil_append] at gathered
  have ordered : (orderedPosts e).Perm e.data := List.perm_insertionSort _ _
  refine ⟨?_,?_,?_,?_,?_,?_⟩
  · have still : p.batch.sorted.posts = p.batch.posts := postsSorted (validateOk.mp valid).2 gathered.records
    rw [still]
    exact gathered.records
  · intro record
    unfold NormalizedBatch.sorted
    rw [List.mem_insertionSort,gathered.users]
    unfold Authored
    simp only [ordered.mem_iff]
  · exact ((List.perm_insertionSort _ p.batch.users).map NormalizedUser.providerId).nodup_iff.mpr gathered.distinct
  · intro relation
    unfold NormalizedBatch.sorted
    rw [dedupMem,List.mem_insertionSort,gathered.relations,List.mem_flatMap]
    simp only [ordered.mem_iff]
  · exact dedupNodup relationAntisymm (List.pairwise_insertionSort _ _)
  · have joined : p.batch.media.Perm (e.data.flatMap (joinedMedia e)) := by
      rw [gathered.media]
      exact ordered.flatMap_right (joinedMedia e)
    exact (List.perm_insertionSort _ _).trans joined

end Emitted
end RatatoskrX.Emission
