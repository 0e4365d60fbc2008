import RatatoskrX.Registry

/-! Whether a completion overrides evidence newer than its own. A run's pages may be
old when it completes; the completion joins on the staged posts and compares no times. -/
namespace RatatoskrX.Recency
open Relational Schema Snapshot Writeback Journal Reconciliation SyncCalls WriteCalls Schedule
open Transition Staging Registry

/- A commit that shows the post saved: a scan's page with it, or a confirmed add of it. -/
def Establishes (account : Uuid) (providerId : String) : Commit → Prop
  | .observePage a _ page _ => a = account ∧ providerId ∈ page.normalized.getD []
  | .completeConfirmed _ a named action _ _ => a = account ∧ named = providerId ∧ action = .add
  | _ => False

def Unmarks (account : Uuid) (providerId : String) (instant : DateTime) : Commit → Prop
  | .completeConfirmed _ a named action _ t => a = account ∧ named = providerId ∧ action = .remove ∧ t = instant
  | _ => False

def Removed (db : Database) (account post : Uuid) : Prop :=
  ∃ b, db.bookmark account post = some b ∧ b.observedRemovedAt.isSome = true

instance (db account post) : Decidable (Removed db account post) :=
  match h : db.bookmark account post with
  | none => .isFalse (by simp [Removed,h])
  | some b => decidable_of_iff (b.observedRemovedAt.isSome = true) (by simp [Removed,h])

/- The run committed a transaction of the kind, at that position of its log, and the
archive has been as described ever since. -/
def Since (config : Config) (start : World) (labels : List Action) (p : World) (kind : Nat → Commit → Prop)
    (stands : Database → Prop) : Prop :=
  ∃ before a after u v i c, labels = before ++ a::after ∧ Transition.Run (World.step config) free start before u ∧
    World.step config u a = some v ∧ v.log = u.log ++ [⟨i,.commit c⟩] ∧ kind u.log.length c ∧
    Transition.Run (World.step config) (fun s _ => stands s.db) v after p ∧ stands p.db

section Completion
variable (config : Config) (start : World) (labels : List Action) (p : World) (account : Uuid) (run : Run)

/- The bookmark is active since a scan or a confirmed add showed it, after the run had
fetched its last page. -/
def EstablishedAfter (post : Uuid) : Prop :=
  ∃ providerId, p.db.postId providerId = some post ∧
    Since config start labels p
      (fun k c => Establishes account providerId c ∧ ∀ f ∈ fetches p.log run.snapshotId, f.fetchedAt ≤ k)
      (fun db => db.Active account post)

/- The bookmark is removed since a confirmed remove, later than the staged observation
of its post. -/
def RemovedLater (post : Uuid) : Prop :=
  ∃ providerId item instant, p.db.postId providerId = some post ∧
    p.db.snapshotItems.find (run.snapshotId,post) = some item ∧ item.observedAt < instant ∧
    Since config start labels p (fun _ c => Unmarks account providerId instant c)
      (fun db => Removed db account post)

def NewerKept (q : World) : Prop :=
  (∀ post, EstablishedAfter config start labels p account run post → q.db.Active account post) ∧
    ∀ post, RemovedLater config start labels p account run post → ¬q.db.Active account post

/- Every bookmark established since the last page is among the staged posts, and no
staged post was removed after it was staged. -/
def Uncontested : Prop :=
  (∀ post, EstablishedAfter config start labels p account run post → p.db.Staged run.snapshotId post) ∧
    ∀ post, ¬RemovedLater config start labels p account run post

end Completion

/- At every completion of every run. -/
theorem newerKeptExactly (config : Config) (now : DateTime) :
    ∀ labels p a q account run instant,
      Transition.Run (World.step config) free (World.start Database.empty now) labels p →
      World.step config p a = some q → Completes p q account run instant →
      (NewerKept config (World.start Database.empty now) labels p account run q ↔
        Uncontested config (World.start Database.empty now) labels p account run) := by
  intro labels p a q account run instant _ taken completes
  obtain ⟨_,_,_,_,_,_,_,_,ok⟩ := completesBy taken completes
  have active := committedActive ok
  constructor
  · rintro ⟨kept,gone⟩
    refine ⟨fun post established => (active post).mp (kept post established),?_⟩
    intro post removed
    -- a removal counts only where its post is staged, and a staged post comes back
    have staged : p.db.Staged run.snapshotId post := by
      obtain ⟨_,_,_,_,staged,_⟩ := removed
      simp [Database.Staged,staged]
    exact gone post removed ((active post).mpr staged)
  · rintro ⟨staged,clear⟩
    exact ⟨fun post established => (active post).mpr (staged post established),
      fun post removed => absurd removed (clear post)⟩

/- The clock is never set back. -/
def Forward (w : World) : Action → Prop
  | .tick now => w.now ≤ now
  | _ => True

instance (w a) : Decidable (Forward w a) := by
  apply Action.decide <;> (intros; unfold Forward; infer_instance)

def observing (w : World) (index : Nat) : Option (Uuid × Uuid × BookmarkPage × DateTime) :=
  match w.processes[index]? with
  | some (.scan ⟨account,_,_,.observe state page _ t⟩) => some (account,state.runId,page,t)
  | _ => none

theorem observesStep {config w i u account runId page t} (stands : observing w i = some (account,runId,page,t))
    (ok : (Incremental.observePage w.db account runId page t).toOption.isSome = true)
    (taken : World.step config w (.advance i .ok) = some u) :
    u.log = w.log ++ [⟨some i,.commit (.observePage account runId page t)⟩] := by
  obtain ⟨after,applied⟩ := Option.isSome_iff_exists.mp ok
  have effect : Commit.effect (.observePage account runId page t) w.db = some after := applied
  unfold observing at stands
  split at stands <;> cases stands
  rename_i found
  cases stepMove taken with
  | @advance _ _ process s alive here next =>
    rw [found] at here
    cases Option.some.inj here
    simp only [Process.next,ScanPc.next,transact,effect,Option.map_some,Option.some.injEq] at next
    subst next
    rfl
  | external _ _ quiet => exact absurd rfl (quiet i .ok)

/- A full snapshot that has fetched its only page, and a scan that has fetched one since. -/
def interleaved (first second : List String) : List Action :=
  [.connectAccount ⟨1,7,.connected⟩,.spawn (.snapshot ⟨1,.load none⟩)] ++ advances 0 2 ++
    [.advance 0 (.page ⟨some first,none⟩)] ++ advances 0 2 ++ [.spawn (.scan ⟨1,5,5,.load⟩)] ++ advances 1 3 ++
    [.advance 1 (.page ⟨some second,none⟩)] ++ advances 1 1

def seenTwice : List Action := interleaved ["100"] ["100"]

def agreeing : World :=
  (replay (World.step sampleConfig) Forward sampleStart seenTwice).get (by decide +kernel)

def agreed : World := (World.step sampleConfig agreeing (.advance 1 .ok)).get (by decide +kernel)

def agreedDone : World := (World.step sampleConfig agreed (.advance 0 .ok)).get (by decide +kernel)

def contesting : World :=
  (replay (World.step sampleConfig) Forward sampleStart (interleaved ["200"] ["100"])).get (by decide +kernel)

def contested : World := (World.step sampleConfig contesting (.advance 1 .ok)).get (by decide +kernel)

def contestedDone : World := (World.step sampleConfig contested (.advance 0 .ok)).get (by decide +kernel)

/- The scan shows the post that the snapshot shows too. -/
theorem newerKeptAtAgreement :
    agreed.db.Active 1 1 ∧ agreedDone.db.Active 1 1 ∧
      (NewerKept sampleConfig sampleStart (seenTwice ++ [.advance 1 .ok]) agreed 1 ⟨1,1,1,none⟩ agreedDone ↔
        Uncontested sampleConfig sampleStart (seenTwice ++ [.advance 1 .ok]) agreed 1 ⟨1,1,1,none⟩) := by
  have first : Transition.Run (World.step sampleConfig) Forward sampleStart seenTwice agreeing :=
    replayRun (Option.some_get _).symm
  have observed : World.step sampleConfig agreeing (.advance 1 .ok) = some agreed := (Option.some_get _).symm
  have done : World.step sampleConfig agreed (.advance 0 .ok) = some agreedDone := (Option.some_get _).symm
  exact ⟨by decide +kernel,by decide +kernel,
    newerKeptExactly sampleConfig sampleInstant _ _ _ _ _ _ sampleInstant
      ((first.weaken (fun _ _ _ => trivial)).append (.cons trivial observed (.nil _))) done
      (completesStep (by decide +kernel) (by decide +kernel) done)⟩

/- The scan shows a post that the snapshot's page, fetched before, does not. -/
theorem laterScanOverridden :
    ¬∀ config now labels p a q account run instant,
      Transition.Run (World.step config) Forward (World.start Database.empty now) labels p →
      World.step config p a = some q → Completes p q account run instant →
      NewerKept config (World.start Database.empty now) labels p account run q := by
  intro claim
  have first : Transition.Run (World.step sampleConfig) Forward sampleStart (interleaved ["200"] ["100"]) contesting :=
    replayRun (Option.some_get _).symm
  have observed : World.step sampleConfig contesting (.advance 1 .ok) = some contested := (Option.some_get _).symm
  have done : World.step sampleConfig contested (.advance 0 .ok) = some contestedDone := (Option.some_get _).symm
  have meets : Forward contesting (.advance 1 .ok) := trivial
  have kept := claim sampleConfig sampleInstant _ _ _ _ 1 ⟨1,1,1,none⟩ sampleInstant
    (first.append (.cons meets observed (.nil _))) done (completesStep (by decide +kernel) (by decide +kernel) done)
  have active : contested.db.Active 1 2 := by decide +kernel
  have pages : ∀ f ∈ fetches contested.log 1, f.fetchedAt ≤ contesting.log.length := by decide +kernel
  have logged := observesStep (show observing contesting 1 = some (1,2,⟨some ["100"],none⟩,sampleInstant) by
    decide +kernel) (by decide +kernel) observed
  have established : EstablishedAfter sampleConfig sampleStart (interleaved ["200"] ["100"] ++ [.advance 1 .ok]) contested 1
      ⟨1,1,1,none⟩ 2 :=
    ⟨"100",by decide +kernel,interleaved ["200"] ["100"],.advance 1 .ok,[],contesting,contested,_,_,rfl,
      first.weaken (fun _ _ _ => trivial),observed,logged,⟨⟨rfl,by decide⟩,pages⟩,.nil _,active⟩
  have gone : ¬contestedDone.db.Active 1 2 := by decide +kernel
  exact gone (kept.1 2 established)

end RatatoskrX.Recency
