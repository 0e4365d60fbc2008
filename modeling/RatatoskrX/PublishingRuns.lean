import RatatoskrX.PublishedPages

/-! The schedule together with the sources that its pages publish. A call that stores a page
does so in one transaction with the page's rows and, in the services of the bookmarks, with the
publication of its posts; where the publication fails, nothing of the page is stored. -/
namespace RatatoskrX.PublishingRuns
open Schema Snapshot SocialSources Publication PublishedPages Journal SyncCalls Schedule Transition Alone
open Normalization (NormalizedBatch normalize)

structure Site where
  config : Config
  publisher : Publisher
  parse : String → Option DateTime

/- The world of the schedule, the sources, and the page that each call holds, normalized. -/
structure Archive where
  world : World
  books : Books
  pages : Nat → Option NormalizedBatch

inductive Act where
  | call (a : Action)
  | fetch (index : Nat) (page : ProviderPage)
  | stage (index : Nat) (answer : Answer) (order : List String)
  | remove (key : SourceKey) (removedAt : DateTime)
  | write (users : String → Option UserRow) (posts : String → Option PostRow)
      (captures : Uuid × String → Option ArticleCapture) (links : Uuid × Uuid → Bool)
      (outbox : List Envelopes.Envelope) (minted : Nat)

def Books.empty : Books :=
  ⟨fun _ => none,fun _ => none,fun _ => none,fun _ => none,fun _ => none,fun _ => none,fun _ => false,[],0⟩

def Archive.start (now : DateTime) : Archive := ⟨World.start Database.empty now,Books.empty,fun _ => none⟩

/- The books as a transaction reads them: the accounts are those of the world. -/
def Archive.ledger (a : Archive) : Books :=
  {a.books with accounts := fun id => (a.world.db.accounts.find id).map Account.internalUserId}

/- The posts of a page are counted before its transaction begins. -/
def counting (batch : NormalizedBatch) (next : Except SnapshotError Books) : Except SnapshotError Books :=
  match toI32 batch.posts.length with
  | none => .error .statisticsOverflow
  | some _ => next

/- A transaction that stores a page: what it does to the books, and where an error takes the call. -/
structure Posting where
  store : Publisher → NormalizedBatch → List String → Books → Except SnapshotError Books
  refused : SnapshotError → Process

def Process.posting : Process → Option Posting
  | .snapshot ⟨account,.stage run _ observedAt _⟩ => some {
      store := fun d batch order b => counting batch (storePage d run.accountId observedAt batch order b)
      refused := fun e => .snapshot ⟨account,.fail run (.error e)⟩}
  | .scan ⟨account,pageCap,requestCap,.observe _ _ _ observedAt⟩ => some {
      store := fun d batch order b => storePage d account observedAt batch order b
      refused := fun e => .scan ⟨account,pageCap,requestCap,.done (.error e)⟩}
  -- A folder's page publishes nothing.
  | .folder ⟨account,folder,.stage run _ _⟩ => some {
      store := fun _ batch _ b => counting batch (persistPosts batch.users (persistUsers b batch.users) batch.posts)
      refused := fun e => .folder ⟨account,folder,.fail run.id (.error e)⟩}
  | _ => none

def commits (config : Config) (w : World) (p : Process) (answer : Answer) : Bool :=
  (p.commit config w).any (fun c => (c.effect w.db).isSome) && (answer = .ok || answer = .lost)

/- The steps that neither receive a page nor store one. -/
def Archive.plain (a : Archive) : Action → Bool
  | .advance _ (.page _) => false
  | .advance index .ok | .advance index .lost => ((a.world.processes[index]?).bind Process.posting).isNone
  | _ => true

def Archive.step (site : Site) (a : Archive) : Act → Option Archive
  | .call act => if a.plain act then (World.step site.config a.world act).map (fun w => {a with world := w}) else none
  | .fetch index page =>
    (World.step site.config a.world (.advance index (.page (page.page site.parse)))).map (fun w =>
      {a with world := w, pages := Function.update a.pages index (normalize site.parse page.envelope).toOption})
  | .stage index answer order => do
    let p ← a.world.processes[index]?
    let posting ← Process.posting p
    match a.pages index with
    -- normalize refuses the page, and its transaction does not begin.
    | none => (World.step site.config a.world (.advance index answer)).map (fun w => {a with world := w})
    | some batch =>
      if order.Perm (postIds batch) then
        match posting.store site.publisher batch order a.ledger with
        | .ok books =>
          (World.step site.config a.world (.advance index answer)).map (fun w =>
            {a with world := w, books := if commits site.config a.world p answer then books else a.books})
        -- The statement that fails ends the transaction; an answer that is lost is a fault of the call.
        | .error e =>
          if answer = .ok then
            (World.step site.config a.world (.advance index .fault)).map (fun w =>
              {a with world := {w with processes := w.processes.set index (posting.refused e)}})
          else none
      else none
  -- The takedown of a source.
  | .remove key removedAt =>
    some {a with books := {a.books with
      sources := Function.update a.books.sources key ((a.books.sources key).map (fun source =>
        {source with removedAt := source.removedAt.or (some removedAt)}))}}
  -- The other writers of these tables.
  | .write users posts captures links outbox minted =>
    some {a with books := {a.books with
      users := users, posts := posts, captures := captures, links := links, outbox := outbox,
      minted := a.books.minted + minted}}

/- Only the call takes steps. -/
def Lone (index : Nat) (a : Archive) : Act → Prop
  | .call act => Only index a.world act
  | .fetch i _ | .stage i _ _ => i = index
  | .remove .. | .write .. => False

instance (index a act) : Decidable (Lone index a act) := by
  cases act <;> (unfold Lone; infer_instance)

/- What the step of a call at a page can be. -/
inductive Stages (site : Site) (a : Archive) (index : Nat) (answer : Answer) (order : List String) : Archive → Prop where
  | refused {w} (taken : World.step site.config a.world (.advance index answer) = some w) :
      Stages site a index answer order {a with world := w}
  | stored {p posting batch books w} (posts : Process.posting p = some posting)
      (ok : posting.store site.publisher batch order a.ledger = .ok books)
      (taken : World.step site.config a.world (.advance index answer) = some w) :
      Stages site a index answer order
        {a with world := w, books := if commits site.config a.world p answer then books else a.books}
  | failed {p posting w} (found : a.world.processes[index]? = some p) (posts : Process.posting p = some posting) (e)
      (taken : World.step site.config a.world (.advance index .fault) = some w) :
      Stages site a index answer order {a with world := {w with processes := w.processes.set index (posting.refused e)}}

theorem stageCases {site a index answer order t} (taken : Archive.step site a (.stage index answer order) = some t) :
    Stages site a index answer order t := by
  obtain ⟨p,found,taken⟩ := Option.bind_eq_some_iff.mp taken
  obtain ⟨posting,posts,taken⟩ := Option.bind_eq_some_iff.mp taken
  split at taken
  · obtain ⟨w,ok,rfl⟩ := Option.map_eq_some_iff.mp taken
    exact .refused ok
  · split at taken
    · split at taken
      · rename_i stored
        obtain ⟨w,ok,rfl⟩ := Option.map_eq_some_iff.mp taken
        exact .stored posts stored ok
      · split at taken
        · obtain ⟨w,ok,rfl⟩ := Option.map_eq_some_iff.mp taken
          exact .failed found posts _ ok
        · simp at taken
    · simp at taken

section Sound
variable {site : Site} {a t : Archive} {act : Act} {b : Books}

theorem countingOk {batch next t} (ok : counting batch next = .ok t) : next = .ok t := by
  unfold counting at ok
  split at ok
  · simp at ok
  · exact ok

theorem postingSound {p posting d batch order t} (posts : Process.posting p = some posting) (sound : Sound b)
    (ok : posting.store d batch order b = .ok t) : Sound t := by
  unfold Process.posting at posts
  split at posts
  · cases posts
    exact storeSound sound (countingOk ok)
  · cases posts
    exact storeSound sound ok
  · cases posts
    exact postsSound ((usersPersisted batch.users).1.sound sound) (countingOk ok)
  · simp at posts

theorem ledgerPersisted : Persisted a.books a.ledger := ⟨rfl,rfl,Nat.le_refl _⟩

/- A takedown ends a source, and the others stand where they stood. -/
theorem removeSound {key removedAt} (sound : Sound b) :
    Sound {b with sources := Function.update b.sources key ((b.sources key).map (fun source =>
      {source with removedAt := source.removedAt.or (some removedAt)}))} := by
  have same : ∀ key' source', Function.update b.sources key ((b.sources key).map (fun source : SocialSource =>
      {source with removedAt := source.removedAt.or (some removedAt)})) key' = some source' →
      ∃ source, b.sources key' = some source ∧ source.socialSourceId = source'.socialSourceId := by
    intro key' source' there
    by_cases mine : key' = key
    · subst mine
      rw [Function.update_self] at there
      obtain ⟨source,present,rfl⟩ := Option.map_eq_some_iff.mp there
      exact ⟨source,present,rfl⟩
    · rw [Function.update_of_ne mine] at there
      exact ⟨source',there,rfl⟩
  constructor
  · exact sound.fresh
  · intro key' source' there
    obtain ⟨source,present,identity⟩ := same key' source' there
    exact identity ▸ sound.minted key' source present
  · intro left right old old' there there' identity
    obtain ⟨source,present,first⟩ := same left old there
    obtain ⟨source',present',second⟩ := same right old' there'
    exact sound.distinct left right source source' present present' (first.trans (identity.trans second.symm))
  · intro key'
    by_cases mine : key' = key
    · subst mine
      cases there : b.sources key' with
      | none =>
        refine .inr ⟨[],.inl ⟨?_,rfl⟩⟩
        simp
      | some source =>
        refine .inl ⟨{source with removedAt := source.removedAt.or (some removedAt)},?_,?_⟩
        · simp
        · cases source.removedAt <;> simp
    · have kept : Function.update b.sources key ((b.sources key).map (fun source : SocialSource =>
          {source with removedAt := source.removedAt.or (some removedAt)})) key' = b.sources key' :=
        Function.update_of_ne mine ..
      simp only [Removed,Stands,kept]
      exact sound.stands key'

theorem soundStep (sound : Sound a.books) (taken : Archive.step site a act = some t) : Sound t.books := by
  cases act with
  | call act =>
    simp only [Archive.step] at taken
    split at taken
    · obtain ⟨w,_,rfl⟩ := Option.map_eq_some_iff.mp taken
      exact sound
    · simp at taken
  | fetch index page =>
    obtain ⟨w,_,rfl⟩ := Option.map_eq_some_iff.mp taken
    exact sound
  | stage index answer order =>
    cases stageCases taken with
    | refused | failed => exact sound
    | @stored p _ _ books _ posts stored =>
      show Sound (if commits site.config a.world p answer then books else a.books)
      split
      · exact postingSound posts (ledgerPersisted.sound sound) stored
      · exact sound
  | remove key removedAt =>
    cases Option.some.inj taken
    exact removeSound sound
  | write users posts captures links outbox minted =>
    cases Option.some.inj taken
    have written : Persisted a.books {a.books with
        users := users, posts := posts, captures := captures, links := links, outbox := outbox,
        minted := a.books.minted + minted} := ⟨rfl,rfl,Nat.le_add_right ..⟩
    exact written.sound sound

end Sound

section Mirror

theorem pairAt {α β : Type} {R : α → β → Prop} {as : List α} {bs : List β} (pairs : List.Forall₂ R as bs) {i : Nat} {a}
    (found : as[i]? = some a) : ∃ b, bs[i]? = some b ∧ R a b := by
  induction pairs generalizing i with
  | nil => simp at found
  | @cons _ b _ _ first _ ih =>
    cases i with
    | zero =>
      cases Option.some.inj found
      exact ⟨b,rfl,first⟩
    | succ i => exact ih found

theorem pairSet {α β : Type} {R : α → β → Prop} {as : List α} {bs : List β} (pairs : List.Forall₂ R as bs) (i : Nat) {a b}
    (related : R a b) : List.Forall₂ R (as.set i a) (bs.set i b) := by
  induction pairs generalizing i with
  | nil => exact .nil
  | cons first others ih =>
    cases i with
    | zero => exact .cons related others
    | succ i => exact .cons first (ih i)

/- One call in two worlds that differ in why a page was refused. -/
inductive Alike : Process → Process → Prop where
  | same (p) : Alike p p
  | fails (account run e e') : Alike (.snapshot ⟨account,.fail run (.error e)⟩) (.snapshot ⟨account,.fail run (.error e')⟩)
  | failed (account e e') : Alike (.snapshot ⟨account,.done (.error e)⟩) (.snapshot ⟨account,.done (.error e')⟩)
  | scanned (account pageCap requestCap e e') :
      Alike (.scan ⟨account,pageCap,requestCap,.done (.error e)⟩) (.scan ⟨account,pageCap,requestCap,.done (.error e')⟩)
  | folderFails (account folder runId e e') :
      Alike (.folder ⟨account,folder,.fail runId (.error e)⟩) (.folder ⟨account,folder,.fail runId (.error e')⟩)
  | folderFailed (account folder e e') :
      Alike (.folder ⟨account,folder,.done (.error e)⟩) (.folder ⟨account,folder,.done (.error e')⟩)

variable {config : Config} {w v : World} {answer : Answer} {p q : Process}

theorem Alike.trans {r} (left : Alike p q) (right : Alike q r) : Alike p r := by
  cases left with
  | same => exact right
  | _ =>
    cases right
    all_goals constructor

theorem Alike.consents (alike : Alike p q) : p.consentIds = q.consentIds := by
  cases alike <;> rfl

/- The archive with its sources, as the schedule alone has it. -/
structure Mirrors (w v : World) : Prop where
  db : v.db = w.db
  now : v.now = w.now
  processes : List.Forall₂ Alike w.processes v.processes
  abandoned : v.abandoned = w.abandoned
  log : v.log = w.log

theorem Mirrors.refl (w : World) : Mirrors w w := ⟨rfl,rfl,List.forall₂_same.mpr (fun p _ => .same p),rfl,rfl⟩

theorem Mirrors.trans {u : World} (left : Mirrors w v) (right : Mirrors v u) : Mirrors w u where
  db := right.db.trans left.db
  now := right.now.trans left.now
  processes := by
    have first := left.processes
    have second := right.processes
    generalize w.processes = ps at first
    generalize v.processes = qs at first second
    generalize u.processes = rs at second
    induction first generalizing rs with
    | nil =>
      cases second
      exact .nil
    | cons alike _ ih =>
      cases second with
      | cons alike' later => exact .cons (alike.trans alike') (ih _ later)
  abandoned := right.abandoned.trans left.abandoned
  log := right.log.trans left.log

theorem Mirrors.freshConsent (mirrors : Mirrors w v) : v.freshConsent = w.freshConsent := by
  have consents : v.processes.flatMap Process.consentIds = w.processes.flatMap Process.consentIds := by
    have pairs := mirrors.processes
    generalize w.processes = ps at pairs
    generalize v.processes = qs at pairs
    induction pairs with
    | nil => rfl
    | cons alike _ ih => rw [List.flatMap_cons,List.flatMap_cons,ih,alike.consents]
  rw [World.freshConsent,World.freshConsent,mirrors.db,consents]

theorem Mirrors.next (mirrors : Mirrors w v) (alike : Alike p q) {s} (ok : p.next config w answer = some s) :
    ∃ s', q.next config v answer = some s' ∧ s'.db = s.db ∧ s'.event = s.event ∧ Alike s.next s'.next := by
  have world : ∀ r : Process, r.next config v answer = r.next config w answer := by
    intro r
    cases r <;> simp only [Process.next,mirrors.db,mirrors.now,mirrors.log,mirrors.freshConsent]
  rw [world]
  cases alike with
  | same => exact ⟨s,ok,rfl,rfl,.same _⟩
  | fails account run e e' =>
    cases answer <;> cases ok
    · exact ⟨_,rfl,rfl,rfl,.failed account e e'⟩
    · exact ⟨_,rfl,rfl,rfl,.same _⟩
    · exact ⟨_,rfl,rfl,rfl,.same _⟩
  | failed | scanned | folderFailed => cases ok
  | folderFails account folder runId e e' =>
    cases answer <;> cases ok
    · exact ⟨_,rfl,rfl,rfl,.folderFailed account folder e e'⟩
    · exact ⟨_,rfl,rfl,rfl,.same _⟩
    · exact ⟨_,rfl,rfl,rfl,.same _⟩

theorem Mirrors.step (mirrors : Mirrors w v) {a t} (taken : World.step config w a = some t) :
    ∃ u, World.step config v a = some u ∧ Mirrors t u := by
  have outside : ∀ c, w.external c = some t → ∃ u, v.external c = some u ∧ Mirrors t u := by
    intro c applied
    obtain ⟨after,ok,rfl⟩ := Option.map_eq_some_iff.mp applied
    refine ⟨{v with db := after, log := v.log ++ [⟨none,.commit c⟩]},?_,rfl,mirrors.now,mirrors.processes,mirrors.abandoned,?_⟩
    · rw [World.external,mirrors.db,ok,Option.map_some]
    · exact congrArg (· ++ _) mirrors.log
  cases a with
  | spawn process =>
    simp only [World.step] at taken
    split at taken
    · rename_i first
      cases Option.some.inj taken
      refine ⟨{v with processes := v.processes ++ [process]},if_pos first,mirrors.db,mirrors.now,?_,mirrors.abandoned,mirrors.log⟩
      exact List.rel_append mirrors.processes (.cons (.same process) .nil)
    · simp at taken
  | advance index answer =>
    cases stepMove taken with
    | @advance _ _ p s alive found ok =>
      obtain ⟨q,found',alike⟩ := pairAt mirrors.processes found
      obtain ⟨s',ok',db,event,next⟩ := mirrors.next alike ok
      refine ⟨v.take index s',?_,db,mirrors.now,pairSet mirrors.processes index next,mirrors.abandoned,?_⟩
      · rw [World.step,if_neg (by rw [mirrors.abandoned]; exact alive),found']
        simp only [bind,Option.bind,ok']
      · simp only [World.take,mirrors.log,event]
    | external _ _ quiet => exact absurd rfl (quiet index answer)
  | abandon index =>
    cases Option.some.inj taken
    exact ⟨_,rfl,mirrors.db,mirrors.now,mirrors.processes,congrArg (List.cons index) mirrors.abandoned,mirrors.log⟩
  | tick now =>
    cases Option.some.inj taken
    exact ⟨_,rfl,mirrors.db,rfl,mirrors.processes,mirrors.abandoned,mirrors.log⟩
  | connectAccount account => exact outside (.connectAccount account) taken
  | storeCredential credential => exact outside (.storeCredential credential) taken
  | storeAuthorization authorization => exact outside (.storeAuthorization authorization) taken
  | persistPosts providerIds => exact outside (.persistPosts providerIds) taken

variable {site : Site} {a t : Archive} {act : Act}

theorem postingFault {posting s} (posts : Process.posting p = some posting) (ok : p.next config w .fault = some s) (e) :
    Alike (posting.refused e) s.next := by
  unfold Process.posting at posts
  split at posts
  · cases posts
    cases ok
    exact .fails ..
  · cases posts
    cases ok
    exact .scanned ..
  · cases posts
    cases ok
    exact .folderFails ..
  · simp at posts

theorem stepWorld (taken : Archive.step site a act = some t) :
    t.world = a.world ∨ ∃ b w, World.step site.config a.world b = some w ∧ Mirrors t.world w := by
  cases act with
  | call act =>
    simp only [Archive.step] at taken
    split at taken
    · obtain ⟨w,ok,rfl⟩ := Option.map_eq_some_iff.mp taken
      exact .inr ⟨act,w,ok,.refl w⟩
    · simp at taken
  | fetch index page =>
    obtain ⟨w,ok,rfl⟩ := Option.map_eq_some_iff.mp taken
    exact .inr ⟨_,w,ok,.refl w⟩
  | stage index answer order =>
    cases stageCases taken with
    | refused ok | stored _ _ ok => exact .inr ⟨_,_,ok,.refl _⟩
    | failed found posts e ok =>
      refine .inr ⟨_,_,ok,rfl,rfl,?_,rfl,rfl⟩
      cases stepMove ok with
      | @advance _ _ q s alive there ok =>
        rw [found] at there
        cases Option.some.inj there
        have pairs := pairSet (Mirrors.refl (a.world.take index s)).processes index (postingFault posts ok e)
        simp only [World.take,List.set_set] at pairs ⊢
        exact pairs
      | external _ _ quiet => exact absurd rfl (quiet index .fault)
  | remove key removedAt =>
    cases Option.some.inj taken
    exact .inl rfl
  | write users posts captures links outbox minted =>
    cases Option.some.inj taken
    exact .inl rfl

/- A run of the archive is one of the schedule, up to why pages were refused. -/
theorem mirroredRun {now labels} (run : Transition.Run (Archive.step site) free (Archive.start now) labels a) :
    ∃ labels' w, Transition.Run (World.step site.config) free (World.start Database.empty now) labels' w ∧ Mirrors a.world w := by
  refine run.preserves (fun a => ∃ labels' w, Transition.Run (World.step site.config) free (World.start Database.empty now) labels' w ∧
    Mirrors a.world w) ?_ ⟨[],_,.nil _,.refl _⟩
  rintro s act u ⟨labels',w,before,mirrors⟩ _ taken
  rcases stepWorld taken with same | ⟨b,v,moved,alike⟩
  · exact ⟨labels',w,before,same ▸ mirrors⟩
  · obtain ⟨w',moved',mirrors'⟩ := mirrors.step moved
    exact ⟨labels' ++ [b],w',before.snoc trivial moved',alike.trans mirrors'⟩

theorem soundRun {now labels} (run : Transition.Run (Archive.step site) free (Archive.start now) labels a) : Sound a.books := by
  refine run.preserves (fun a => Sound a.books) (fun _ _ _ sound _ taken => soundStep sound taken) ?_
  constructor
  · intro s digest stored
    exact absurd rfl stored
  · simp [Archive.start,Books.empty]
  · simp [Archive.start,Books.empty]
  · exact fun key => .inr ⟨[],.inl ⟨rfl,rfl⟩⟩

end Mirror
end RatatoskrX.PublishingRuns
