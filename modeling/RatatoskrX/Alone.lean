import RatatoskrX.Gaps
import RatatoskrX.Normalization

/-! One call of a synchronization service that works by itself: the clock moves between its
steps and the environment answers as it likes. The pages that its source returns are
provider envelopes, which reach the services through the normalizer. -/
namespace RatatoskrX.Alone
open Relational Schema Snapshot Journal SyncCalls Schedule Transition Registry Normalization

/- A page as the official provider returns it. -/
structure ProviderPage where
  envelope : Envelope
  nextToken : Option String

def ProviderPage.page (parse : String → Option DateTime) (p : ProviderPage) : BookmarkPage where
  normalized := (normalize parse p.envelope).toOption.map (fun batch => batch.posts.map NormalizedPost.providerId)
  nextToken := p.nextToken

def ProviderPage.ids (p : ProviderPage) : List String := p.envelope.data.map PostObject.providerId

def ProviderPage.Valid (parse : String → Option DateTime) (p : ProviderPage) : Prop :=
  ∀ post ∈ p.envelope.data, Complete parse post ∧ Resolved p.envelope post

theorem pageNormalized {parse} {p : ProviderPage} {ids} (some_ : (p.page parse).normalized = some ids) :
    ids = p.ids.insertionSort (· ≤ ·) ∧ p.envelope.data ≠ [] ∧ p.Valid parse := by
  obtain ⟨batch,accepted,rfl⟩ := Option.map_eq_some_iff.mp some_
  have ok := Outcome.accepted accepted
  exact ⟨normalizedIds ok,normalizeAccepts.mp ⟨batch,ok⟩⟩

theorem pageRefused {parse} {p : ProviderPage} :
    (p.page parse).normalized = none ↔ ¬(p.envelope.data ≠ [] ∧ p.Valid parse) := by
  unfold ProviderPage.Valid
  rw [← normalizeAccepts]
  cases ok : normalize parse p.envelope <;> simp [ProviderPage.page,ok,Except.toOption]

/- Only the call takes steps. -/
def Only (index : Nat) (_ : World) : Action → Prop
  | .advance i _ => i = index
  | .tick _ => True
  | _ => False

instance (index w a) : Decidable (Only index w a) := by
  apply Action.decide <;> (intros; unfold Only; infer_instance)

def pagesOf (labels : List Action) : List BookmarkPage :=
  labels.filterMap (fun a => match a with
    | .advance _ (.page page) => some page
    | _ => none)

section Steps
variable {config : Config} {index : Nat} {w t : World} {a : Action}

inductive Turn (config : Config) (index : Nat) (w : World) : Action → World → Prop where
  | clock {now} : Turn config index w (.tick now) {w with now := now}
  | call {answer p s} (alive : index ∉ w.abandoned) (found : w.processes[index]? = some p)
      (ok : p.next config w answer = some s) : Turn config index w (.advance index answer) (w.take index s)

theorem aloneTurn (alone : Only index w a) (taken : World.step config w a = some t) : Turn config index w a t := by
  cases stepMove taken with
  | tick now => exact .clock
  | @advance i answer p s alive found ok =>
    cases (show i = index from alone)
    exact .call alive found ok
  | spawn | abandon => exact absurd alone id
  | external outside applied quiet =>
    cases a with
    | advance i answer => exact absurd rfl (quiet i answer)
    | tick now => simp [World.step] at taken
    | _ => exact absurd alone id

theorem takeFound {p : Process} {s : Step Process} (found : w.processes[index]? = some p) :
    (w.take index s).processes[index]? = some s.next := by
  exact (setCall found index).trans (if_pos rfl)

end Steps

/- Pages of one author's posts, for the concrete runs of the modules above. -/
section Sample

def sampleStamp : String := "2026-07-23T09:00:00Z"

/- The reader of timestamps, as it reads the one of these posts. -/
def sampleParse (text : String) : Option DateTime := if text = sampleStamp then some sampleInstant else none

def samplePost (id : String) : PostObject where
  id := some id
  text := some "text"
  authorId := some "1"
  conversationId := none
  createdAt := some sampleStamp
  lang := none
  publicMetrics := none
  referencedTweets := none
  noteTweet := none
  entities := none
  attachments := none
  editControls := none
  editHistoryTweetIds := none
  extension := []

def sampleAuthor : UserObject where
  id := some "1"
  name := none
  username := none
  createdAt := none
  description := none
  location := none
  isProtected := none
  verified := none
  profileImageUrl := none
  url := none
  pinnedTweetId := none
  publicMetrics := none
  extension := []

def samplePage (ids : List String) (nextToken : Option String) : ProviderPage :=
  ⟨⟨ids.map samplePost,⟨[sampleAuthor],[],[],[]⟩,[]⟩,nextToken⟩

def sampleMedia (key : String) : MediaObject where
  mediaKey := some key
  kind := some "photo"
  url := some "https://pbs.example/photo.jpg"
  previewImageUrl := none
  width := none
  height := none
  altText := none
  durationMs := none
  variants := none
  publicMetrics := none
  extension := []

def illustratedPost (id : String) (keys : List String) : PostObject :=
  {samplePost id with attachments := some ⟨some keys,none,[]⟩}

end Sample
end RatatoskrX.Alone
