import RatatoskrX.Alone
import RatatoskrX.Emission

/-! Normalization does not see the order of the wire. Where no two posts, users or media share
an id, the indexes and the order in which the posts are taken are those of any rearrangement. -/
namespace RatatoskrX.WireOrder
open Outcome Normalization Emission

def rearranged (e : Envelope) (data : List PostObject) (users : List UserObject) (media : List MediaObject) : Envelope :=
  {e with data := data, includes := {e.includes with users := users, media := media}}

section Indexes
variable {parse : String → Option Schema.DateTime} {e e' : Envelope}

theorem pushSame (authors : authorIndex e' = authorIndex e) (media : mediaIndex e' = mediaIndex e) (p post) :
    Progress.push parse e' p post = Progress.push parse e p post := by
  have joined : joinedMedia e' post = joinedMedia e post := by
    unfold joinedMedia
    rw [media]
  unfold Progress.push
  rw [authors,joined]

theorem pushAllSame (authors : authorIndex e' = authorIndex e) (media : mediaIndex e' = mediaIndex e) (p posts) :
    Progress.pushAll parse e' p posts = Progress.pushAll parse e p posts := by
  induction posts generalizing p with
  | nil => rfl
  | cons post rest ih =>
    simp only [Progress.pushAll,pushSame authors media]
    exact congrArg _ (funext ih)

end Indexes

section Order

theorem idLeSome {a b : String} : IdLe (some a) (some b) ↔ a ≤ b := Iff.rfl

theorem idLeTotal (a b : Option String) : IdLe a b ∨ IdLe b a := by
  cases a with
  | none => exact .inl trivial
  | some a =>
    cases b with
    | none => exact .inr trivial
    | some b => exact le_total a b

theorem idLeTrans {a b c : Option String} (first : IdLe a b) (second : IdLe b c) : IdLe a c := by
  cases a with
  | none => trivial
  | some a =>
    cases b with
    | none => exact absurd first id
    | some b =>
      cases c with
      | none => exact absurd second id
      | some c => exact le_trans (idLeSome.mp first) (idLeSome.mp second)

instance : Std.Total (fun a b : PostObject => IdLe a.id b.id) := ⟨fun a b => idLeTotal a.id b.id⟩

instance : IsTrans PostObject (fun a b => IdLe a.id b.id) := ⟨fun _ _ _ => idLeTrans⟩

end Order

section Rearranged
variable {parse : String → Option Schema.DateTime} {e : Envelope} {data : List PostObject} {users : List UserObject}
  {media : List MediaObject}

theorem orderedSame (posts : (e.data.filterMap PostObject.id).Nodup) (complete : ∀ post ∈ e.data, Complete parse post)
    (data_ : data.Perm e.data) : orderedPosts (rearranged e data users media) = orderedPosts e := by
  refine Keyed.sortPerm ?_ data_
  intro a left b right before after
  obtain ⟨i,named,_⟩ := (complete a left).id
  obtain ⟨j,named',_⟩ := (complete b right).id
  rw [named,named'] at before after
  have same : i = j := le_antisymm (idLeSome.mp before) (idLeSome.mp after)
  exact Keyed.sameItem posts left right named (same ▸ named')

theorem acceptedRearranged (authors : authorIndex (rearranged e data users media) = authorIndex e) (data_ : data.Perm e.data) :
    (∃ batch, normalize parse (rearranged e data users media) = .ok batch) ↔ ∃ batch, normalize parse e = .ok batch := by
  have resolved (post) : Resolved (rearranged e data users media) post ↔ Resolved e post := by
    unfold Resolved
    rw [authors]
  rw [normalizeAccepts,normalizeAccepts]
  have empty : data ≠ [] ↔ e.data ≠ [] := by
    rw [← List.length_pos_iff,← List.length_pos_iff,data_.length_eq]
  refine and_congr empty (forall_congr' (fun post => ?_))
  rw [resolved]
  exact imp_congr_left data_.mem_iff

/-- Where the posts, the included users and the included media have ids of their own, the wire
order neither changes a batch nor turns a refusal into one. -/
theorem wireOrderIgnored (parse : String → Option Schema.DateTime) (e : Envelope)
    (posts : (e.data.filterMap PostObject.id).Nodup) (users : (e.includes.users.filterMap UserObject.id).Nodup)
    (media : (e.includes.media.filterMap MediaObject.mediaKey).Nodup) :
    ∀ data users' media', data.Perm e.data → users'.Perm e.includes.users → media'.Perm e.includes.media →
      (∀ batch, normalize parse e = .ok batch → normalize parse (rearranged e data users' media') = .ok batch) ∧
      ∀ error, normalize parse e = .error error →
        ∃ error', normalize parse (rearranged e data users' media') = .error error' := by
  intro data users' media' data_ users_ media_
  have authors : authorIndex (rearranged e data users' media') = authorIndex e := by
    rw [authorLast,authorLast]
    exact Keyed.lastPerm users users_
  have joined : mediaIndex (rearranged e data users' media') = mediaIndex e := by
    rw [mediaLast,mediaLast]
    exact Keyed.lastPerm media media_
  have accepted : (∃ batch, normalize parse (rearranged e data users' media') = .ok batch) ↔
      ∃ batch, normalize parse e = .ok batch := acceptedRearranged authors data_
  constructor
  · intro batch ok
    obtain ⟨batch',ok'⟩ := accepted.mpr ⟨batch,ok⟩
    have complete : ∀ post ∈ e.data, Complete parse post := fun post member =>
      ((normalizeAccepts.mp ⟨batch,ok⟩).2 post member).1
    obtain ⟨_,_,run⟩ := bindOk.mp ok
    obtain ⟨_,_,run'⟩ := bindOk.mp ok'
    rw [orderedSame posts complete data_,pushAllSame authors joined,run] at run'
    rw [ok',Except.ok.inj run']
  · intro error refused
    cases outcome : normalize parse (rearranged e data users' media') with
    | error error' => exact ⟨error',rfl⟩
    | ok batch' =>
      obtain ⟨batch,ok⟩ := accepted.mp ⟨batch',outcome⟩
      rw [refused] at ok
      simp at ok

end Rearranged

section Sample
open Alone

def secondAuthor : UserObject := {sampleAuthor with id := some "2"}

def illustratedPage : Envelope :=
  ⟨[illustratedPost "20" ["b","a"],{illustratedPost "10" ["a"] with authorId := some "2"}],
    ⟨[sampleAuthor,secondAuthor],[],[sampleMedia "a",sampleMedia "b"],[]⟩,[]⟩

theorem wireOrderIgnoredReversed : ∃ batch, normalize sampleParse illustratedPage = .ok batch ∧
    normalize sampleParse (rearranged illustratedPage illustratedPage.data.reverse [secondAuthor,sampleAuthor]
      [sampleMedia "b",sampleMedia "a"]) = .ok batch := by
  obtain ⟨batch,ok⟩ : ∃ batch, normalize sampleParse illustratedPage = .ok batch := Outcome.succeeds (by decide +kernel)
  have same := wireOrderIgnored sampleParse illustratedPage (by decide +kernel) (by decide +kernel) (by decide +kernel)
    illustratedPage.data.reverse [secondAuthor,sampleAuthor] [sampleMedia "b",sampleMedia "a"]
    (List.reverse_perm _) (.swap ..) (.swap ..)
  exact ⟨batch,ok,same.1 batch ok⟩

end Sample
end RatatoskrX.WireOrder
