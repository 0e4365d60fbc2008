import Mathlib.Data.Set.Basic
import Mathlib.Logic.Function.Basic
import RatatoskrX.Evidence
import RatatoskrX.Foundation.Sourcing
import RatatoskrX.Observations
import RatatoskrX.Uncertainty

/-! What the archive is for: the posts that each account has saved, by their provider ids,
as the committed evidence tells. A complete snapshot replaces an account's posts by those
of its pages, a scan's page adds the posts it shows, and a confirmed write adds or removes
its one post. Along every run the active bookmarks are what the log tells. -/
namespace RatatoskrX.SavedArchive
open Outcome Relational Schema Snapshot Incremental Writeback Journal Frames Reconciliation Schedule
open Transition Sourcing Staging Recency Observations Uncertainty

/- The posts that the archive knows, those that each snapshot has staged, and those that
each account has saved. -/
structure Holdings where
  known : Set String
  staged : Uuid → Set String
  saved : Uuid → Set String

def shown (page : BookmarkPage) : Set String := {providerId | providerId ∈ page.normalized.getD []}

namespace Holdings

def none : Holdings := ⟨∅,fun _ => ∅,fun _ => ∅⟩

/- What one transaction tells. A confirmed add of a post that the archive does not know is
left to the next snapshot. -/
noncomputable def after (h : Holdings) : Commit → Holdings
  | .stagePage run page _ _ =>
    {h with
      known := h.known ∪ shown page
      staged := Function.update h.staged run.snapshotId (h.staged run.snapshotId ∪ shown page)}
  | .stageFolderPage _ page _ => {h with known := h.known ∪ shown page}
  | .persistPosts providerIds => {h with known := h.known ∪ {providerId | providerId ∈ providerIds}}
  | .observePage account _ page _ =>
    {h with
      known := h.known ∪ shown page
      saved := Function.update h.saved account (h.saved account ∪ shown page)}
  | .completeRun account run _ => {h with saved := Function.update h.saved account (h.staged run.snapshotId)}
  | .completeConfirmed _ account providerPostId .add _ _ =>
    {h with saved := Function.update h.saved account (h.saved account ∪ ({providerPostId} ∩ h.known))}
  | .completeConfirmed _ account providerPostId .remove _ _ =>
    {h with saved := Function.update h.saved account (h.saved account \ {providerPostId})}
  | _ => h

noncomputable def tell (h : Holdings) (e : Entry) : Holdings :=
  match e.event with
  | .commit c => h.after c
  | _ => h

end Holdings

def Saved (db : Database) (account : Uuid) (providerId : String) : Prop :=
  ∃ post, db.postId providerId = some post ∧ db.Active account post

theorem upsertPostKnown (db : Database) (head providerId) :
    (∃ post, (upsertPost db head).1.postId providerId = some post) ↔
      providerId = head ∨ ∃ post, db.postId providerId = some post := by
  constructor
  · rintro ⟨post,named⟩
    unfold upsertPost at named
    split at named
    · exact .inr ⟨post,named⟩
    · simp only [Database.postId] at named
      rw [Table.findAppend] at named
      split at named
      · rename_i same
        exact .inl same.symm
      · exact .inr ⟨post,named⟩
  · rintro (rfl | ⟨post,named⟩)
    · exact ⟨_,upsertPostId db _⟩
    · exact ⟨post,upsertPostKeeps db head named⟩

theorem persistedKnown (providerIds : List String) (db : Database) (providerId) :
    (∃ post, (persistPosts db providerIds).1.postId providerId = some post) ↔
      providerId ∈ providerIds ∨ ∃ post, db.postId providerId = some post := by
  induction providerIds generalizing db with
  | nil => simp [persistPosts]
  | cons head rest ih =>
    have rest := ih (upsertPost db head).1
    rw [upsertPostKnown] at rest
    simp only [persistPosts,List.mem_cons]
    rw [rest,or_left_comm,or_assoc]

def brings : Commit → Set String
  | .stagePage _ page _ _ | .stageFolderPage _ page _ | .observePage _ _ page _ => shown page
  | .persistPosts providerIds => {providerId | providerId ∈ providerIds}
  | _ => ∅

theorem knownAfter {c : Commit} {db after} (applied : c.effect db = some after) (providerId) :
    (∃ post, after.postId providerId = some post) ↔
      providerId ∈ brings c ∨ ∃ post, db.postId providerId = some post := by
  have agree := frame applied
  cases c with
  | stagePage run page t stamp =>
    obtain ⟨providerIds,items,normalized,form⟩ := Snapshot.stagedForm (accepted applied)
    have posts : after.posts = (persistPosts db providerIds).1.posts := by
      rw [form]
      exact stagedPosts ..
    simp only [postIdSame posts,persistedKnown,brings,shown,normalized,Option.getD_some,Set.mem_ofPred_eq]
  | observePage account runId page t =>
    obtain ⟨providerIds,items,normalized,form⟩ := Incremental.observedForm (accepted applied)
    have posts : after.posts = (persistPosts db providerIds).1.posts := by
      rw [form]
      exact observedPosts ..
    simp only [postIdSame posts,persistedKnown,brings,shown,normalized,Option.getD_some,Set.mem_ofPred_eq]
  | stageFolderPage run page t =>
    obtain ⟨providerIds,items,normalized,form⟩ := Folders.stagedForm (accepted applied)
    have posts : after.posts = (persistPosts db providerIds).1.posts := by
      rw [form]
      exact folderPosts ..
    simp only [postIdSame posts,persistedKnown,brings,shown,normalized,Option.getD_some,Set.mem_ofPred_eq]
  | persistPosts providerIds =>
    cases Option.some.inj applied
    exact persistedKnown providerIds db providerId
  | _ =>
    simp only [postIdSame (agree.posts (by simp [touched])),brings,Set.mem_empty_iff_false,false_or]

/- The active bookmarks after a transaction, from those before it. -/
def ActiveAfter (db after : Database) (account post : Uuid) : Commit → Prop
  | .completeRun a run _ =>
    (a = account ∧ db.Staged run.snapshotId post) ∨ (a ≠ account ∧ db.Active account post)
  | .observePage a _ page _ => db.Active account post ∨ (a = account ∧ Shown after (page.normalized.getD []) post)
  | .completeConfirmed _ a providerPostId .add _ _ =>
    db.Active account post ∨ (a = account ∧ db.postId providerPostId = some post)
  | .completeConfirmed _ a providerPostId .remove _ _ =>
    db.Active account post ∧ ¬(a = account ∧ db.postId providerPostId = some post)
  | _ => db.Active account post

theorem activeSame {db after : Database} {account post} (same : after.bookmark account post = db.bookmark account post) :
    after.Active account post ↔ db.Active account post := by
  unfold Database.Active
  rw [same]

theorem activeAfter {c : Commit} {db after} (applied : c.effect db = some after) (account post) :
    after.Active account post ↔ ActiveAfter db after account post c := by
  have agree := frame applied
  cases c with
  | completeRun a run t =>
    have ok := accepted applied
    by_cases mine : a = account
    · subst mine
      simpa [ActiveAfter] using committedActive ok post
    · simpa [ActiveAfter,mine] using activeSame (committedOther ok (Ne.symm mine))
  | observePage a runId page t =>
    obtain ⟨providerIds,items,normalized,rfl⟩ := Incremental.observedForm (accepted applied)
    obtain ⟨id,found⟩ := observedRow a runId t ((persistPosts db providerIds).2.map Prod.snd)
      (persistPosts db providerIds).1 account post
    have before := sameRows ((persistPostsFrame providerIds db).bookmarks (by simp)) account post
    have posts := observedPosts db a runId providerIds t
    have shows : post ∈ (persistPosts db providerIds).2.map Prod.snd ↔
        Shown (updateRun (observePosts db a runId providerIds t) (fun r => r.id = runId) (countedRow items) (fun _ => rfl))
          (page.normalized.getD []) post := by
      rw [persistShown,normalized,Option.getD_some]
      simp only [Shown,← postIdSame posts]
      rfl
    simp only [ActiveAfter]
    rw [before] at found
    rw [← shows]
    split at found
    · rename_i here
      obtain ⟨rfl,member⟩ := here
      refine iff_of_true ⟨_,found,?_⟩ (.inr ⟨rfl,member⟩)
      cases db.bookmark account post <;> rfl
    · rename_i elsewhere
      exact (activeSame found).trans (or_iff_left (fun h => elsewhere ⟨h.1.symm,h.2⟩)).symm
  | completeConfirmed operationId a providerPostId action requestId t =>
    cases Option.some.inj applied
    have same := sameRows ((confirmedRest db operationId a providerPostId action requestId t).bookmarks (by simp))
      account post
    rw [activeSame same]
    unfold projectConfirmedBookmark
    split
    · rename_i unnamed
      cases action <;> simp [ActiveAfter,unnamed]
    · rename_i target named
      cases action with
      | add =>
        have row := Database.bookmarkUpsert db ⟨0,a,target,t,t,Option.none,Option.none,some operationId,some t,Option.none,Option.none⟩
          (addedRow operationId t) (fun _ => rfl) (fun _ => rfl) account post
        simp only [ActiveAfter,named]
        split at row
        · rename_i here
          cases here
          refine iff_of_true ⟨_,row,?_⟩ (.inr ⟨rfl,rfl⟩)
          cases db.bookmark a target <;> rfl
        · rename_i elsewhere
          refine (activeSame row).trans (or_iff_left ?_).symm
          rintro ⟨rfl,named'⟩
          exact elsewhere (by rw [← Option.some.inj named'])
      | remove =>
        have row := Database.bookmarkUpdate db (fun b => b.key = (a,target)) (removedRow operationId t)
          (fun _ => rfl) (fun _ => rfl) account post
        simp only [ActiveAfter,named]
        constructor
        · rintro ⟨b,found,active⟩
          rw [row] at found
          obtain ⟨old,there,changed⟩ := Option.map_eq_some_iff.mp found
          have keyed : old.key = (account,post) := Table.findKey there
          split at changed
          · rw [← changed] at active
            cases active
          · rename_i other
            subst changed
            refine ⟨⟨old,there,active⟩,?_⟩
            rintro ⟨rfl,named'⟩
            rw [keyed,Option.some.inj named'] at other
            simp at other
        · rintro ⟨⟨b,found,active⟩,other⟩
          have keyed : b.key = (account,post) := Table.findKey found
          refine ⟨b,?_,active⟩
          rw [row,found,Option.map_some,if_neg]
          rw [keyed,decide_eq_true_eq]
          rintro same
          cases same
          exact other ⟨rfl,rfl⟩
  | _ => exact activeSame (sameRows (agree.bookmarks (by simp [touched])) account post)

/- The archive holds what its holdings say, and every staged or saved post has its name. -/
structure Views (db : Database) (h : Holdings) : Prop where
  known : ∀ providerId, providerId ∈ h.known ↔ ∃ post, db.postId providerId = some post
  staged : ∀ snapshot providerId, providerId ∈ h.staged snapshot ↔
    ∃ post, db.postId providerId = some post ∧ db.Staged snapshot post
  saved : ∀ account providerId, providerId ∈ h.saved account ↔ Saved db account providerId
  stagedNamed : ∀ snapshot post, db.Staged snapshot post → ∃ providerId, db.postId providerId = some post
  activeNamed : ∀ account post, db.Active account post → ∃ providerId, db.postId providerId = some post

theorem viewsEmpty : Views Database.empty Holdings.none := by
  constructor <;> simp [Holdings.none,Saved,Database.postId,Database.Staged,Database.Active,Database.bookmark,
    Database.empty,Table.empty,Table.find]

theorem shownNamed {db : Database} {page : BookmarkPage} {providerId post} (named : db.postId providerId = some post) :
    Shown db (page.normalized.getD []) post ↔ providerId ∈ shown page := by
  constructor
  · rintro ⟨other,member,same⟩
    exact postOnce same named ▸ member
  · intro member
    exact ⟨providerId,member,named⟩

section After
variable {c : Commit} {db after : Database} {h : Holdings}

theorem namedBack (applied : c.effect db = some after) {old} (former : ∃ providerId, db.postId providerId = some old)
    {providerId} (named : after.postId providerId = some old) : db.postId providerId = some old := by
  obtain ⟨other,there⟩ := former
  rw [postOnce named (postKeeps applied there)]
  exact there

theorem stagedAfter (applied : c.effect db = some after) (snapshot post) :
    after.Staged snapshot post ↔ db.Staged snapshot post ∨ ∃ run page t stamp, c = .stagePage run page t stamp ∧
      run.snapshotId = snapshot ∧ Shown after (page.normalized.getD []) post := by
  unfold Database.Staged
  rcases itemAfter applied snapshot post with ⟨run,page,t,stamp,staging,mine,shows,found⟩ | ⟨same,unshown⟩
  · rw [found]
    exact iff_of_true rfl (.inr ⟨run,page,t,stamp,staging,mine,shows⟩)
  · rw [same]
    refine (or_iff_left ?_).symm
    rintro ⟨run,page,t,stamp,staging,mine,shows⟩
    exact unshown run page t stamp staging mine shows

theorem stagedNamedAfter (views : Views db h) (applied : c.effect db = some after) {snapshot post}
    (staged : after.Staged snapshot post) : ∃ providerId, after.postId providerId = some post := by
  rcases (stagedAfter applied snapshot post).mp staged with before | ⟨_,_,_,_,_,_,providerId,_,named⟩
  · obtain ⟨providerId,named⟩ := views.stagedNamed snapshot post before
    exact ⟨providerId,postKeeps applied named⟩
  · exact ⟨providerId,named⟩

theorem activeNamedAfter (views : Views db h) (applied : c.effect db = some after) {account post}
    (active : after.Active account post) : ∃ providerId, after.postId providerId = some post := by
  have kept : (∃ providerId, db.postId providerId = some post) → ∃ providerId, after.postId providerId = some post :=
    fun ⟨providerId,named⟩ => ⟨providerId,postKeeps applied named⟩
  have change := (activeAfter applied account post).mp active
  cases c with
  | completeRun a run t =>
    rcases change with ⟨_,staged⟩ | ⟨_,before⟩
    · exact kept (views.stagedNamed _ _ staged)
    · exact kept (views.activeNamed _ _ before)
  | observePage a runId page t =>
    rcases change with before | ⟨_,providerId,_,named⟩
    · exact kept (views.activeNamed _ _ before)
    · exact ⟨providerId,named⟩
  | completeConfirmed operationId a providerPostId action requestId t =>
    cases action with
    | add =>
      rcases change with before | ⟨_,named⟩
      · exact kept (views.activeNamed _ _ before)
      · exact kept ⟨_,named⟩
    | remove => exact kept (views.activeNamed _ _ change.1)
  | _ => exact kept (views.activeNamed _ _ change)

theorem stagedKept (applied : c.effect db = some after) (views : Views db h) (snapshot providerId) :
    (∃ post, after.postId providerId = some post ∧ db.Staged snapshot post) ↔ providerId ∈ h.staged snapshot := by
  rw [views.staged]
  constructor
  · rintro ⟨post,named,staged⟩
    exact ⟨post,namedBack applied (views.stagedNamed _ _ staged) named,staged⟩
  · rintro ⟨post,named,staged⟩
    exact ⟨post,postKeeps applied named,staged⟩

theorem savedKept (applied : c.effect db = some after) (views : Views db h) (account providerId) :
    (∃ post, after.postId providerId = some post ∧ db.Active account post) ↔ providerId ∈ h.saved account := by
  rw [views.saved]
  constructor
  · rintro ⟨post,named,active⟩
    exact ⟨post,namedBack applied (views.activeNamed _ _ active) named,active⟩
  · rintro ⟨post,named,active⟩
    exact ⟨post,postKeeps applied named,active⟩

theorem shownAfter (applied : c.effect db = some after) {page : BookmarkPage} (brought : brings c = shown page)
    (providerId) : (∃ post, after.postId providerId = some post ∧ Shown after (page.normalized.getD []) post) ↔
      providerId ∈ shown page := by
  constructor
  · rintro ⟨post,named,shows⟩
    exact (shownNamed named).mp shows
  · intro member
    obtain ⟨post,named⟩ := (knownAfter applied providerId).mpr (.inl (brought ▸ member))
    exact ⟨post,named,(shownNamed named).mpr member⟩

theorem stagedViews (views : Views db h) (applied : c.effect db = some after) (snapshot providerId) :
    providerId ∈ (h.after c).staged snapshot ↔
      ∃ post, after.postId providerId = some post ∧ after.Staged snapshot post := by
  have stays := stagedKept applied views snapshot providerId
  simp only [stagedAfter applied,and_or_left,exists_or,stays]
  cases c with
  | stagePage run page t stamp =>
    by_cases mine : run.snapshotId = snapshot
    · subst mine
      simp only [Holdings.after,Function.update_self,Set.mem_union]
      refine or_congr_right ((shownAfter applied rfl providerId).symm.trans (exists_congr fun post => and_congr_right' ?_))
      constructor
      · intro shows
        exact ⟨run,page,t,stamp,rfl,rfl,shows⟩
      · rintro ⟨_,_,_,_,⟨⟩,_,shows⟩
        exact shows
    · simp only [Holdings.after,Function.update_of_ne (Ne.symm mine)]
      refine (or_iff_left ?_).symm
      rintro ⟨_,_,_,_,_,_,⟨⟩,same,_⟩
      exact mine same
  | completeConfirmed operationId a providerPostId action requestId t => cases action <;> simp [Holdings.after]
  | _ => simp [Holdings.after]

theorem savedViews (views : Views db h) (applied : c.effect db = some after) (account providerId) :
    providerId ∈ (h.after c).saved account ↔ Saved after account providerId := by
  have stays := savedKept applied views account providerId
  unfold Saved
  simp only [activeAfter applied account]
  cases c with
  | completeRun a run t =>
    by_cases mine : a = account
    · subst mine
      simpa [Holdings.after,ActiveAfter] using (stagedKept applied views run.snapshotId providerId).symm
    · simpa [Holdings.after,ActiveAfter,mine,Function.update_of_ne (Ne.symm mine)] using stays.symm
  | observePage a runId page t =>
    simp only [ActiveAfter,and_or_left,exists_or,stays]
    by_cases mine : a = account
    · subst mine
      simp only [Holdings.after,Function.update_self,Set.mem_union,true_and]
      exact or_congr_right (shownAfter applied rfl providerId).symm
    · simp [Holdings.after,mine,Function.update_of_ne (Ne.symm mine)]
  | completeConfirmed operationId a providerPostId action requestId t =>
    have same : ∀ id, after.postId id = db.postId id := postIdSame ((frame applied).posts (by simp [touched]))
    cases action with
    | add =>
      simp only [ActiveAfter,and_or_left,exists_or,stays]
      by_cases mine : a = account
      · subst mine
        simp only [Holdings.after,Function.update_self,Set.mem_union,true_and,Set.mem_inter_iff,Set.mem_singleton_iff]
        refine or_congr_right ?_
        constructor
        · rintro ⟨rfl,known⟩
          obtain ⟨post,named⟩ := (views.known _).mp known
          exact ⟨post,(same _).trans named,named⟩
        · rintro ⟨post,named,target⟩
          exact ⟨postOnce ((same _).symm.trans named) target,(views.known _).mpr ⟨post,(same _).symm.trans named⟩⟩
      · simp [Holdings.after,mine,Function.update_of_ne (Ne.symm mine)]
    | remove =>
      by_cases mine : a = account
      · subst mine
        simp only [Holdings.after,Function.update_self,Set.mem_sdiff,Set.mem_singleton_iff,← stays,ActiveAfter,true_and]
        constructor
        · rintro ⟨⟨post,named,active⟩,other⟩
          exact ⟨post,named,active,fun target => other (postOnce ((same _).symm.trans named) target)⟩
        · rintro ⟨post,named,active,other⟩
          refine ⟨⟨post,named,active⟩,?_⟩
          rintro rfl
          exact other ((same _).symm.trans named)
      · simpa [Holdings.after,ActiveAfter,mine,Function.update_of_ne (Ne.symm mine)] using stays.symm
  | _ => simpa only [Holdings.after,ActiveAfter] using stays.symm

theorem viewsAfter (views : Views db h) (applied : c.effect db = some after) : Views after (h.after c) where
  known := by
    intro providerId
    rw [knownAfter applied,← views.known]
    cases c with
    | completeConfirmed operationId a providerPostId action requestId t => cases action <;> simp [Holdings.after,brings]
    | _ => simp [Holdings.after,brings,or_comm]
  staged := stagedViews views applied
  saved := savedViews views applied
  stagedNamed := fun _ _ => stagedNamedAfter views applied
  activeNamed := fun _ _ => activeNamedAfter views applied

end After

theorem tellsStep (config : Config) :
    Tells (World.step config) World.log Holdings.tell (fun w h => Views w.db h) (fun _ => True) := by
  intro w a t h _ taken views
  rcases logAfter taken with ⟨logged,same⟩ | ⟨e,logged,wrote⟩
  · refine .inl ⟨logged,?_⟩
    simpa only [same] using views
  · refine .inr ⟨e,logged,?_⟩
    cases wrote with
    | external outside applied _ => exact viewsAfter views applied
    | commit found ok next stands applied answered => exact viewsAfter views applied
    | spoken found ok next utters same =>
      unfold WriteCalls.WriteCall.utters at utters
      split at utters <;> cases utters <;> simpa only [same,Holdings.tell] using views

section Run
variable {config : Config} {guard : World → Action → Prop} {labels : List Action} {w : World} {now : DateTime}

/- Along every schedule of the services the archive shows what the log tells: an account has
a post saved exactly if the evidence committed so far says so, and no active bookmark stands
for anything but one such post. -/
theorem archiveReplays (run : Transition.Run (World.step config) guard (World.start Database.empty now) labels w) :
    (∀ account providerId,
      Saved w.db account providerId ↔ providerId ∈ (told Holdings.tell Holdings.none w.log).saved account) ∧
    ∀ account post, w.db.Active account post → ∃! providerId, w.db.postId providerId = some post := by
  obtain ⟨more,logged,views⟩ := sourced (tellsStep config) (fun _ _ _ _ _ _ => trivial) run trivial viewsEmpty
  constructor
  · intro account providerId
    rw [← views.saved,show w.log = more from logged]
  · intro account post active
    obtain ⟨providerId,named⟩ := views.activeNamed account post active
    exact ⟨providerId,named,fun other same => postOnce same named⟩

end Run

/- A post that one snapshot shows and the next one does not is told, and then no longer. -/
theorem archiveReplaysAtSweep :
    "100" ∈ (told Holdings.tell Holdings.none Evidence.sweepEnd.log).saved 1 ∧
      "100" ∉ (told Holdings.tell Holdings.none Evidence.sweptEnd.log).saved 1 := by
  have first : Transition.Run (World.step sampleConfig) free sampleStart Evidence.sweep Evidence.sweepEnd :=
    replayRun (Option.some_get _).symm
  have last : World.step sampleConfig Evidence.sweepEnd (.advance 1 .ok) = some Evidence.sweptEnd := (Option.some_get _).symm
  have run := first.append (.cons trivial last (.nil _))
  rw [← (archiveReplays first).1,← (archiveReplays run).1]
  constructor
  · exact ⟨1,by decide +kernel,by decide +kernel⟩
  · rintro ⟨post,named,active⟩
    have known : Evidence.sweptEnd.db.postId "100" = some 1 := by decide +kernel
    rw [known] at named
    cases Option.some.inj named
    revert active
    decide +kernel

end RatatoskrX.SavedArchive
