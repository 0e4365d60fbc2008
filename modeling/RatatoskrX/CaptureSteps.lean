import RatatoskrX.CaptureCommits

/-! Every statement of the lane keeps what each call relies on, and is one step of the
committed rows. -/
namespace RatatoskrX.CaptureSteps
open Schema Envelopes ReadCommitted Transition Capture CaptureCommits

section Steps
variable {d : Deployment} {w : Lane} {index : Nat} {call call' : Call}

theorem knownSame {t : Lane} (same : t.captures.committed = w.captures.committed) {capture} (known : Known w capture) :
    Known t capture := by
  simp only [Known,same]
  exact known

theorem soundDrafts {t : Lane} (sound : Sound d w) (found : w.calls[index]? = some call)
    (calls : t.calls = w.calls.set index call') (captures : w.captures.Drafts t.captures index)
    (commands : w.commands.Drafts t.commands index) (sources : w.sources.Drafts t.sources index)
    (locks : w.locks.Drafts t.locks index) (outbox : t.outbox = w.outbox) (minted : w.minted ≤ t.minted)
    (own : Owns d t index call') (captureMinted : ∀ id x, t.captures.held id = some x → x.owner = index → id < t.minted)
    (introduces : ∀ s ∈ introduces call', s ∈ introduces call ∨ w.minted ≤ s ∧ s < t.minted) :
    Sound d t ∧ archive t = archive w := by
  have moves : Moves d w index call call' t := by
    refine ⟨calls,captures.2,commands.2,sources.2,locks.2,own,fun _ => knownSame captures.1,?_,minted,captureMinted,
      introduces⟩
    intro pair changed
    exact absurd (congrFun sources.1 pair) changed
  have settles : Settles w call call' t := by
    refine ⟨?_,?_,?_,?_⟩
    · intro id row there
      rw [captures.1] at there
      obtain ⟨same,command,bound⟩ := sound.indexed id row there
      exact ⟨same,commands.1 ▸ command,bound.trans_le minted⟩
    · intro id row there
      rw [captures.1] at there
      exact sound.reported id row there
    · intro pair source there
      rw [sources.1] at there
      rw [outbox]
      exact sound.published pair source there
    · intro e queued
      rw [outbox] at queued
      exact .inl queued
  refine ⟨soundMove sound found moves settles,?_⟩
  simp only [archive,captures.1,sources.1,outbox]

theorem idle {t : Lane} (captures : ∀ id x, t.captures.held id = some x → x.owner ≠ index)
    (commands : ∀ id x, t.commands.held id = some x → x.owner ≠ index)
    (sources : ∀ pair x, t.sources.held pair = some x → x.owner ≠ index) (unlocked : locked call' = none)
    (stands : CallSound d.contract t index call') : Owns d t index call' where
  captures id x held own := absurd own (captures id x held)
  commands id x held own := absurd own (commands id x held)
  sources pair x held own := absurd own (sources pair x held)
  locks capture holds := by simp [unlocked] at holds
  sound := stands

theorem soundRollback (sound : Sound d w) (found : w.calls[index]? = some call) (unlocked : locked call' = none)
    (nothing : introduces call' = []) (stands : CallSound d.contract ((w.rollback index).set index call') index call') :
    Sound d ((w.rollback index).set index call') ∧ archive ((w.rollback index).set index call') = archive w := by
  have released : ∀ {κ ν} {s : Store κ ν} k x, (s.abort index).held k = some x → x.owner ≠ index :=
    fun k x held => (Store.abortHeld.mp held).2
  refine soundDrafts sound found rfl (Store.draftsAbort ..) (Store.draftsAbort ..) (Store.draftsAbort ..)
    (Store.draftsAbort ..) rfl (Nat.le_refl _) (idle released released released unlocked stands) ?_ ?_
  · intro id x held own
    exact absurd own (released id x held)
  · simp [nothing]

theorem callStores {t u : Lane} {contract : Contract} (captures : u.captures = t.captures)
    (commands : u.commands = t.commands) (sources : u.sources = t.sources) (stands : CallSound contract t index call') :
    CallSound contract u index call' := by
  refine callAside (Store.asideSame ?_ ?_) (Store.asideSame ?_ ?_) (Store.asideSame ?_ ?_) ?_ ?_ stands
  all_goals simp only [captures,commands,sources,Known,imp_self,implies_true]

theorem soundAt {t : Lane} {k : Worker} {pc : WorkerPc} (sound : Sound d w)
    (found : w.calls[index]? = some (.worker k)) (calls : t.calls = w.calls)
    (captures : w.captures.Drafts t.captures index) (commands : t.commands = w.commands)
    (sources : w.sources.Drafts t.sources index) (locks : w.locks.Drafts t.locks index) (outbox : t.outbox = w.outbox)
    (minted : w.minted ≤ t.minted)
    (heldCaptures : ∀ id x, t.captures.held id = some x → x.owner = index →
      writtenCapture (.worker {k with pc := pc}) = some id ∧ id < t.minted)
    (heldSources : ∀ pair x, t.sources.held pair = some x → x.owner = index →
      writtenSource (.worker {k with pc := pc}) = some pair)
    (holds : ∀ capture, locked (.worker {k with pc := pc}) = some capture →
      ∃ x, t.locks.held (d.lockOf capture) = some x ∧ x.owner = index)
    (fresh : ∀ s ∈ introduces (.worker {k with pc := pc}), s ∈ introduces (.worker k) ∨ w.minted ≤ s ∧ s < t.minted)
    (stands : WorkerSound d.contract t index pc) :
    Sound d (t.at_ index k pc) ∧ archive (t.at_ index k pc) = archive w := by
  have here := sound.calls index _ found
  have known : ∀ capture ∈ k.rest, Known t capture :=
    fun capture member => knownSame captures.1 (here.sound.1 capture member)
  refine soundDrafts sound found (by simp [Lane.at_,Lane.set,calls]) captures
    (by simp only [Lane.at_,Lane.set,commands]; exact Store.draftsSame ..) sources locks outbox minted ?_
    (fun id x held own => (heldCaptures id x held own).2) fresh
  refine ⟨fun id x held own => (heldCaptures id x held own).1,?_,heldSources,holds,
    callStores rfl rfl rfl (t := t) ⟨known,stands⟩⟩
  intro id x held own
  have none := here.commands id x (by rw [← commands]; exact held) own
  simp [writtenCommand] at none

/- A step of one call: only the rows it holds change under the committed sources. -/
structure Advances (d : Deployment) (w : Lane) (index : Nat) (call : Call) (t : Lane) : Prop where
  sound : Sound d t
  commit : Commit d.contract (archive w) (resolving call) (archive t)
  only : ∀ pair, t.sources.committed pair ≠ w.sources.committed pair →
    ∃ x, w.sources.held pair = some x ∧ x.owner = index

theorem Advances.quiet {t : Lane} (kept : Sound d t ∧ archive t = archive w) : Advances d w index call t :=
  ⟨kept.1,kept.2 ▸ .quiet,fun pair changed => absurd (congrFun (congrArg Archive.sources kept.2) pair) changed⟩

section Workers
variable {k : Worker}

theorem soundStay {pc : WorkerPc} {minted : Nat} (sound : Sound d w) (found : w.calls[index]? = some (.worker k))
    (above : w.minted ≤ minted)
    (captures : ∀ id, writtenCapture (.worker k) = some id → writtenCapture (.worker {k with pc := pc}) = some id)
    (sources : ∀ pair, writtenSource (.worker k) = some pair → writtenSource (.worker {k with pc := pc}) = some pair)
    (locks : ∀ capture, locked (.worker {k with pc := pc}) = some capture → locked (.worker k) = some capture)
    (fresh : ∀ s ∈ introduces (.worker {k with pc := pc}), s ∈ introduces (.worker k) ∨ w.minted ≤ s ∧ s < minted)
    (stands : WorkerSound d.contract {w with minted := minted} index pc) :
    Sound d ({w with minted := minted}.at_ index k pc) ∧
      archive ({w with minted := minted}.at_ index k pc) = archive w := by
  have here := sound.calls index _ found
  refine soundAt sound found rfl (Store.draftsSame ..) rfl (Store.draftsSame ..) (Store.draftsSame ..) rfl above
    ?_ ?_ ?_ fresh stands
  · intro id x held own
    exact ⟨captures id (here.captures id x held own),((sound.captureHeld id x held).2).trans_le above⟩
  · intro pair x held own
    exact sources pair (here.sources pair x held own)
  · intro capture holds
    exact here.locks capture (locks capture holds)

theorem soundAnswered {capture result} (sound : Sound d w) (found : w.calls[index]? = some (.worker k))
    (pc : k.pc = .resolve capture) :
    Sound d (w.answered index k capture result) ∧ archive (w.answered index k capture result) = archive w := by
  have known : Known w capture := by
    have own := (sound.calls index _ found).sound.2
    rw [pc] at own
    exact own
  have stay : ∀ next, writtenCapture (.worker {k with pc := next}) = none → locked (.worker {k with pc := next}) = none →
      introduces (.worker {k with pc := next}) = [] → WorkerSound d.contract w index next →
      Sound d (w.at_ index k next) ∧ archive (w.at_ index k next) = archive w := by
    intro next written unlocked nothing stands
    refine soundStay sound found (Nat.le_refl _) ?_ ?_ ?_ ?_ stands
    · simp [writtenCapture,pc]
    · simp [writtenSource,pc]
    · simp [unlocked]
    · simp [nothing]
  unfold Lane.answered
  split
  · split
    · rename_i post own
      exact stay _ rfl rfl rfl ⟨known,own,trivial⟩
    · exact stay _ rfl rfl rfl ⟨known,trivial⟩
  · split
    · exact stay _ rfl rfl rfl known
    · exact stay _ rfl rfl rfl ⟨known,trivial⟩
  · exact stay _ rfl rfl rfl ⟨known,trivial⟩

theorem soundLock {capture pc t} (sound : Sound d w) (found : w.calls[index]? = some (.worker k))
    (outside : writtenCapture (.worker k) = none ∧ writtenSource (.worker k) = none)
    (taken : w.lockOwnerPost d index k capture pc = some t)
    (holds : locked (.worker {k with pc := pc}) = some capture) (nothing : introduces (.worker {k with pc := pc}) = [])
    (stands : WorkerSound d.contract {w with locks := w.locks.put index (d.lockOf capture) (some ())} index pc) :
    Sound d t ∧ archive t = archive w := by
  have here := sound.calls index _ found
  unfold Lane.lockOwnerPost at taken
  split at taken
  · rename_i free
    cases Option.some.inj taken
    refine soundAt sound found rfl (Store.draftsSame ..) rfl (Store.draftsSame ..) (Store.draftsPut free) rfl
      (Nat.le_refl _) ?_ ?_ ?_ (by simp [nothing]) stands
    · intro id x held own
      have written := here.captures id x held own
      simp [outside] at written
    · intro pair x held own
      have written := here.sources pair x held own
      simp [outside] at written
    · intro other same
      rw [holds] at same
      cases Option.some.inj same
      exact ⟨⟨index,some ()⟩,by simp,rfl⟩
  · simp at taken

theorem viewUnheld {κ ν : Type} {s : Store κ ν} {i key} (none : ∀ l x, s.held l = some x → x.owner ≠ i) :
    s.view i key = s.committed key :=
  Store.viewOther (fun x held => none key x held)

theorem guardedMark {captureId f store} (outside : ∀ id x, w.captures.held id = some x → x.owner ≠ index)
    (taken : w.guarded index captureId f = some (.ok (some store))) :
    w.captures.Free index captureId ∧ ∃ row, w.captures.committed captureId = some row ∧ Lane.Open row ∧
      store = w.captures.put index captureId (some (f row)) := by
  unfold Lane.guarded at taken
  rw [viewUnheld outside] at taken
  split at taken
  · rename_i free
    refine ⟨free,?_⟩
    split at taken
    · simp at taken
    · rename_i row there
      split at taken
      · rename_i unreported
        split at taken
        · cases taken
          exact ⟨row,there,unreported,rfl⟩
        · simp at taken
      · simp at taken
  · simp at taken

theorem soundMark {capture pc minted version} (sound : Sound d w) (found : w.calls[index]? = some (.worker k))
    (outside : writtenCapture (.worker k) = none) (known : Known w capture)
    (free : w.captures.Free index capture.captureId) (above : w.minted ≤ minted)
    (captures : writtenCapture (.worker {k with pc := pc}) = some capture.captureId)
    (sources : ∀ pair, writtenSource (.worker k) = some pair → writtenSource (.worker {k with pc := pc}) = some pair)
    (locks : ∀ capture, locked (.worker {k with pc := pc}) = some capture → locked (.worker k) = some capture)
    (fresh : ∀ s ∈ introduces (.worker {k with pc := pc}), s ∈ introduces (.worker k))
    (stands : WorkerSound d.contract
      {w with captures := w.captures.put index capture.captureId version, minted := minted} index pc) :
    Sound d ({w with captures := w.captures.put index capture.captureId version, minted := minted}.at_ index k pc) ∧
      archive ({w with captures := w.captures.put index capture.captureId version, minted := minted}.at_ index k pc) =
        archive w := by
  have here := sound.calls index _ found
  refine soundAt sound found rfl (Store.draftsPut free) rfl (Store.draftsSame ..) (Store.draftsSame ..) rfl above
    ?_ ?_ ?_ (fun s member => .inl (fresh s member)) stands
  · intro id x held own
    simp only [Store.putHeld] at held
    split at held
    · rename_i same
      subst same
      obtain ⟨row,there,_⟩ := known
      exact ⟨captures,((sound.indexed _ row there).2.2).trans_le above⟩
    · have written := here.captures id x held own
      simp [outside] at written
  · intro pair x held own
    exact sources pair (here.sources pair x held own)
  · intro other holds
    exact here.locks other (locks other holds)

theorem soundFail (sound : Sound d w) (found : w.calls[index]? = some (.worker k)) :
    Sound d (w.failWorker index k) ∧ archive (w.failWorker index k) = archive w :=
  soundRollback sound found rfl rfl
    ⟨fun capture member => knownSame rfl ((sound.calls index _ found).sound.1 capture member),trivial⟩

theorem soundTerminateGuard {capture failure now t} (sound : Sound d w) (found : w.calls[index]? = some (.worker k))
    (pc : k.pc = .terminate capture failure .guard) (taken : w.terminate d index k capture failure .guard now = some t) :
    Sound d t ∧ archive t = archive w := by
  have here := sound.calls index _ found
  have known : Known w capture := by
    have own := here.sound.2
    rw [pc] at own
    exact own.1
  have captures : ∀ id x, w.captures.held id = some x → x.owner ≠ index := by
    intro id x held own
    have written := here.captures id x held own
    simp [writtenCapture,pc] at written
  have sources : ∀ pair x, w.sources.held pair = some x → x.owner ≠ index := by
    intro pair x held own
    have written := here.sources pair x held own
    simp [writtenSource,pc] at written
  simp only [Lane.terminate] at taken
  split at taken
  · simp at taken
  · cases Option.some.inj taken
    exact soundFail sound found
  · cases Option.some.inj taken
    refine soundStay sound found (Nat.le_refl _) (by simp [writtenCapture,pc]) (by simp [writtenSource,pc])
      (by simp [locked,pc]) (by simp [introduces]) ⟨known,rfl,.inl ⟨rfl,?_,?_⟩⟩
    · exact fun x held => captures _ x held
    · exact fun x held => sources _ x held
  · rename_i store guarded
    obtain ⟨free,row,there,unreported,rfl⟩ := guardedMark captures guarded
    split at taken
    · rename_i deleted
      cases Option.some.inj taken
      exact soundMark sound found (by simp [writtenCapture,pc]) known free (Nat.le_refl _) rfl
        (by simp [writtenSource,pc]) (by simp [locked,pc]) (by simp [introduces])
        ⟨known,deleted,row,now,there,unreported,by simp⟩
    · rename_i other
      cases Option.some.inj taken
      refine soundMark sound found (by simp [writtenCapture,pc]) known free (Nat.le_succ _) rfl
        (by simp [writtenSource,pc]) (by simp [locked,pc]) (by simp [introduces])
        ⟨known,rfl,.inr ⟨row,Lane.markUnavailable now row,there,unreported,by simp,?_⟩⟩
      simp only [viewUnheld sources]
      exact .unavailable (fun deleted => absurd deleted other)

/- A write of the owner's source, under the lock of its pair. -/
theorem soundPutSource {capture : ClaimedCapture} {pc minted version} (sound : Sound d w) (found : w.calls[index]? = some (.worker k))
    (outside : writtenSource (.worker k) = none) (free : w.sources.Free index capture.pair) (above : w.minted ≤ minted)
    (captures : ∀ id, writtenCapture (.worker k) = some id → writtenCapture (.worker {k with pc := pc}) = some id)
    (sources : writtenSource (.worker {k with pc := pc}) = some capture.pair)
    (locks : ∀ capture, locked (.worker {k with pc := pc}) = some capture → locked (.worker k) = some capture)
    (fresh : ∀ s ∈ introduces (.worker {k with pc := pc}), s ∈ introduces (.worker k))
    (stands : WorkerSound d.contract
      {w with sources := w.sources.put index capture.pair version, minted := minted} index pc) :
    Sound d ({w with sources := w.sources.put index capture.pair version, minted := minted}.at_ index k pc) ∧
      archive ({w with sources := w.sources.put index capture.pair version, minted := minted}.at_ index k pc) =
        archive w := by
  have here := sound.calls index _ found
  refine soundAt sound found rfl (Store.draftsSame ..) rfl (Store.draftsPut free) (Store.draftsSame ..) rfl above
    ?_ ?_ ?_ (fun s member => .inl (fresh s member)) stands
  · intro id x held own
    exact ⟨captures id (here.captures id x held own),((sound.captureHeld id x held).2).trans_le above⟩
  · intro pair x held own
    simp only [Store.putHeld] at held
    split at held
    · rename_i same
      rw [same]
      exact sources
    · have written := here.sources pair x held own
      simp [outside] at written
  · intro other holds
    exact here.locks other (locks other holds)

theorem soundRemove {capture failure now t} (sound : Sound d w) (found : w.calls[index]? = some (.worker k))
    (pc : k.pc = .terminate capture failure .remove) (taken : w.removeOwnerSource index k capture now = some t) :
    Sound d t ∧ archive t = archive w := by
  have here := sound.calls index _ found
  have own := here.sound.2
  rw [pc] at own
  obtain ⟨known,deleted,row,marked,there,unreported,held⟩ := own
  have sources : ∀ pair x, w.sources.held pair = some x → x.owner ≠ index := by
    intro pair x held own
    have written := here.sources pair x held own
    simp [writtenSource,pc] at written
  unfold Lane.removeOwnerSource at taken
  rw [viewUnheld sources] at taken
  split at taken
  · rename_i free
    split at taken
    · rename_i absent
      cases Option.some.inj taken
      refine soundStay sound found (Nat.le_succ _) (by simp [writtenCapture,pc]) (by simp [writtenSource,pc])
        (by simp [locked,pc]) (by simp [introduces])
        ⟨known,rfl,.inr ⟨row,Lane.markUnavailable marked row,there,unreported,held,?_⟩⟩
      simp only [viewUnheld sources]
      exact @Outcome.unavailable _ _ _ _ .deleted _ _ (fun _ => absent)
    · rename_i source present
      cases Option.some.inj taken
      refine soundPutSource sound found (by simp [writtenSource,pc]) free (by simp) (by simp [writtenCapture,pc]) rfl
        (by simp [locked,pc]) (by simp [introduces])
        ⟨known,rfl,.inr ⟨row,Lane.markUnavailable marked row,there,unreported,held,?_⟩⟩
      simp only [Store.putCommitted,present,Store.view,Store.putHeld,if_true]
      exact .removed
  · simp at taken

theorem soundSelect {capture post} (sound : Sound d w) (found : w.calls[index]? = some (.worker k))
    (pc : k.pc = .preserve capture post .select) :
    Sound d (w.selectOwnerSource d index k capture post) ∧
      archive (w.selectOwnerSource d index k capture post) = archive w := by
  have here := sound.calls index _ found
  have own := here.sound.2
  rw [pc] at own
  obtain ⟨known,own,_⟩ := own
  have sources : ∀ pair x, w.sources.held pair = some x → x.owner ≠ index := by
    intro pair x held own
    have written := here.sources pair x held own
    simp [writtenSource,pc] at written
  -- The snapshot is built, or the contract refuses it and the capture ends inaccessible.
  have refused : Sound d ((w.rollback index).at_ index k (.terminate capture .inaccessible .lock)) ∧
      archive ((w.rollback index).at_ index k (.terminate capture .inaccessible .lock)) = archive w :=
    soundRollback sound found rfl rfl
      ⟨fun capture member => knownSame rfl (here.sound.1 capture member),knownSame rfl known,trivial⟩
  have chosen : ∀ sourceId fact snapshot, (fact = .captured → sourceId = w.minted) →
      Selected d.contract w capture post sourceId fact snapshot →
      Sound d ({w with minted := w.minted + 1}.at_ index k (.preserve capture post (.upsert sourceId fact snapshot))) ∧
      archive ({w with minted := w.minted + 1}.at_ index k (.preserve capture post (.upsert sourceId fact snapshot))) =
        archive w := by
    intro sourceId fact snapshot minted selected
    refine soundStay sound found (Nat.le_succ _) (by simp [writtenCapture,pc]) (by simp [writtenSource,pc])
      (by simp [locked,pc]) ?_ ⟨known,own,selected⟩
    intro s member
    cases fact with
    | captured =>
      cases List.mem_singleton.mp member
      rw [minted rfl]
      exact .inr ⟨Nat.le_refl _,Nat.lt_succ_self _⟩
    | updated => simp [introduces] at member
  unfold Lane.selectOwnerSource
  simp only [viewUnheld sources]
  split
  · rename_i source present
    split
    · rename_i same
      refine soundStay sound found (Nat.le_refl _) (by simp [writtenCapture,pc]) (by simp [writtenSource,pc])
        (by simp [locked,pc]) (by simp [introduces,introduced]) ⟨known,own,?_⟩
      simp only [PreserveSound,viewUnheld sources,present]
      exact .unchanged same
    · rename_i differs
      split
      · exact refused
      · rename_i snapshot built
        exact chosen _ _ _ (by simp) ⟨built,source,present,rfl,differs⟩
  · rename_i absent
    split
    · exact refused
    · rename_i snapshot built
      exact chosen _ _ _ (fun _ => rfl) ⟨built,absent⟩

theorem soundUpsert {capture post sourceId fact snapshot t} (sound : Sound d w)
    (found : w.calls[index]? = some (.worker k)) (pc : k.pc = .preserve capture post (.upsert sourceId fact snapshot))
    (taken : w.upsertOwnerSource d index k capture post sourceId fact snapshot = some t) :
    Sound d t ∧ archive t = archive w := by
  have here := sound.calls index _ found
  have own := here.sound.2
  rw [pc] at own
  obtain ⟨known,own,built,selected⟩ := own
  have sources : ∀ pair x, w.sources.held pair = some x → x.owner ≠ index := by
    intro pair x held own
    have written := here.sources pair x held own
    simp [writtenSource,pc] at written
  have minted := (snapshotFields built).1
  unfold Lane.upsertOwnerSource at taken
  rw [viewUnheld sources] at taken
  split at taken
  · rename_i free
    cases Option.some.inj taken
    refine soundPutSource sound found (by simp [writtenSource,pc]) free (Nat.le_succ _) (by simp [writtenCapture,pc]) rfl
      (by simp [locked,pc]) ?_ ⟨known,own,?_⟩
    · intro s member
      cases fact with
      | captured => simpa [introduces,introduced,sourceEvent,pc,minted] using member
      | updated => simp [introduces,introduced,sourceEvent] at member
    · simp only [PreserveSound,Store.putCommitted,Store.view,Store.putHeld,if_true]
      cases fact with
      | captured =>
        rw [selected]
        exact .captured own built
      | updated =>
        obtain ⟨source,present,rfl,differs⟩ := selected
        rw [present]
        exact .updated own differs built
  · simp at taken

/- Between two captures a worker holds nothing. -/
structure Between (index : Nat) (k : Worker) (call : Call) : Prop where
  unlocked : locked call = none
  nothing : introduces call = []
  stands : ∀ {contract : Contract} {t : Lane}, (∀ capture ∈ k.rest, Known t capture) → CallSound contract t index call

theorem nextBetween (index : Nat) (k : Worker) (summary) :
    ∃ call, (∀ u : Lane, u.next index k summary = u.set index call) ∧ Between index k call := by
  unfold Lane.next
  cases remaining : k.rest with
  | nil =>
    refine ⟨_,fun u => rfl,rfl,rfl,?_⟩
    intro contract t _
    exact ⟨by simp,trivial⟩
  | cons capture rest =>
    refine ⟨_,fun u => rfl,rfl,rfl,?_⟩
    intro contract t known
    rw [remaining] at known
    exact ⟨fun other member => known other (.tail _ member),known capture (.head _)⟩

theorem soundPreserveGuard {capture post sourceId queued now t} (sound : Sound d w)
    (found : w.calls[index]? = some (.worker k)) (pc : k.pc = .preserve capture post (.guard sourceId queued))
    (taken : w.preserve d index k capture post (.guard sourceId queued) now = some t) :
    Sound d t ∧ archive t = archive w := by
  have here := sound.calls index _ found
  have own := here.sound.2
  rw [pc] at own
  obtain ⟨known,own,publishes⟩ := own
  have captures : ∀ id x, w.captures.held id = some x → x.owner ≠ index := by
    intro id x held own
    have written := here.captures id x held own
    simp [writtenCapture,pc] at written
  simp only [Lane.preserve] at taken
  split at taken
  · simp at taken
  · cases Option.some.inj taken
    exact soundFail sound found
  · cases Option.some.inj taken
    obtain ⟨after,form,between⟩ := nextBetween index k {k.summary with preserved := k.summary.preserved + 1}
    rw [form]
    exact soundRollback sound found between.unlocked between.nothing
      (between.stands (fun capture member => knownSame rfl (here.sound.1 capture member)))
  · rename_i store guarded
    obtain ⟨free,row,there,unreported,rfl⟩ := guardedMark captures guarded
    cases Option.some.inj taken
    refine soundMark sound found (by simp [writtenCapture,pc]) known free (Nat.le_succ _) rfl
      (by simp [writtenSource,pc]) (by simp [locked,pc]) ?_
      ⟨known,own,.inr ⟨row,Lane.markResolved sourceId now row,there,unreported,by simp,.preserved publishes⟩⟩
    intro s member
    simpa [introduces,introduced,Lane.report,reportEnvelope,pc] using member

theorem namesScheduled {row capture} (attempts nextAttemptAt) (names : Names row capture) :
    Names {row with attempts := attempts, nextAttemptAt := nextAttemptAt} capture := by
  obtain ⟨post,there,same⟩ := Option.map_eq_some_iff.mp names
  simp only [ClaimedCapture.mk.injEq] at same
  simp only [Names,ExplicitCapture.claimed,there,Option.map_some,same]

theorem workerQuiet (sound : Sound d w) (found : w.calls[index]? = some (.worker k))
    (outside : writtenCapture (.worker k) = none ∧ writtenSource (.worker k) = none) :
    (∀ id x, w.captures.held id = some x → x.owner ≠ index) ∧ (∀ id x, w.commands.held id = some x → x.owner ≠ index) ∧
      ∀ pair x, w.sources.held pair = some x → x.owner ≠ index := by
  have here := sound.calls index _ found
  refine ⟨?_,?_,?_⟩
  · intro id x held own
    have written := here.captures id x held own
    simp [outside] at written
  · intro id x held own
    have written := here.commands id x held own
    simp [writtenCommand] at written
  · intro pair x held own
    have written := here.sources pair x held own
    simp [outside] at written

theorem soundScheduled {k' : Worker} {captures : Store Uuid ExplicitCapture} (sound : Sound d w)
    (found : w.calls[index]? = some (.worker k))
    (outside : writtenCapture (.worker k) = none ∧ writtenSource (.worker k) = none)
    (held : captures.held = w.captures.held)
    (same : ∀ id, captures.committed id = w.captures.committed id ∨ w.captures.held id = none ∧
      ∃ row attempts nextAttemptAt, w.captures.committed id = some row ∧ Lane.Open row ∧
        captures.committed id = some {row with attempts := attempts, nextAttemptAt := nextAttemptAt})
    (between : Between index k' call') (rest : ∀ capture ∈ k'.rest, Known w capture) :
    Advances d w index (.worker k) ({w with captures := captures}.set index call') := by
  obtain ⟨noCapture,noCommand,noSource⟩ := workerQuiet sound found outside
  have kept : ∀ {id row}, w.captures.committed id = some row → ∃ attempts nextAttemptAt,
      captures.committed id = some {row with attempts := attempts, nextAttemptAt := nextAttemptAt} := by
    intro id row there
    rcases same id with stays | ⟨_,row',attempts,nextAttemptAt,there',_,written⟩
    · exact ⟨row.attempts,row.nextAttemptAt,stays.trans there⟩
    · rw [there] at there'
      cases Option.some.inj there'
      exact ⟨attempts,nextAttemptAt,written⟩
  have known : ∀ capture, Known w capture → Known {w with captures := captures} capture := by
    rintro capture ⟨row,there,names⟩
    obtain ⟨attempts,nextAttemptAt,written⟩ := kept there
    exact ⟨_,written,namesScheduled attempts nextAttemptAt names⟩
  -- A row that is there was there, with the columns that identify it.
  have before : ∀ {id row}, captures.committed id = some row → ∃ row' attempts nextAttemptAt,
      w.captures.committed id = some row' ∧ row = {row' with attempts := attempts, nextAttemptAt := nextAttemptAt} := by
    intro id row there
    rcases same id with stays | ⟨_,row',attempts,nextAttemptAt,there',_,written⟩
    · exact ⟨row,row.attempts,row.nextAttemptAt,stays ▸ there,rfl⟩
    · rw [written] at there
      exact ⟨row',attempts,nextAttemptAt,there',(Option.some.inj there).symm⟩
  have moves : Moves d w index (.worker k) call' ({w with captures := captures}.set index call') := by
    refine ⟨rfl,fun j apart => ?_,fun j apart => Store.asideSame rfl rfl,fun j apart => Store.asideSame rfl rfl,
      fun j apart => Store.asideSame rfl rfl,?_,?_,?_,Nat.le_refl _,?_,by simp [between.nothing]⟩
    · refine Store.asideUnheld held ?_
      intro id x there
      rcases same id with stays | ⟨unheld,_⟩
      · exact stays
      · rw [unheld] at there
        cases there
    · refine idle (fun id x => held ▸ noCapture id x) noCommand noSource between.unlocked (between.stands ?_)
      exact fun capture member => known capture (rest capture member)
    · exact known
    · intro pair changed
      exact absurd rfl changed
    · intro id x there own
      exact absurd own (noCapture id x (held ▸ there))
  have settles : Settles w (.worker k) call' ({w with captures := captures}.set index call') := by
    refine ⟨?_,?_,sound.published,fun e queued => .inl queued⟩
    · intro id row there
      obtain ⟨row',attempts,nextAttemptAt,there',rfl⟩ := before there
      exact sound.indexed id row' there'
    · intro id row there
      obtain ⟨row',attempts,nextAttemptAt,there',rfl⟩ := before there
      exact sound.reported id row' there'
  refine ⟨soundMove sound found moves settles,.scheduled ?_,moves.only⟩
  intro id
  rcases same id with stays | ⟨_,touched⟩
  · exact .inl stays
  · exact .inr touched

theorem dueRows {policy now row} (member : row ∈ w.due policy now) :
    ∃ id, w.captures.held id = none ∧ w.captures.committed id = some row ∧ Lane.Due row now := by
  have there := List.mem_of_mem_take member
  rw [List.mem_insertionSort] at there
  obtain ⟨id,_,chosen⟩ := List.mem_filterMap.mp there
  split at chosen
  · simp at chosen
  · rename_i unheld
    obtain ⟨there,due⟩ := Option.filter_eq_some_iff.mp chosen
    exact ⟨id,Option.not_isSome_iff_eq_none.mp unheld,there,of_decide_eq_true due⟩

theorem soundClaimDue {order now t} (sound : Sound d w) (found : w.calls[index]? = some (.worker k)) (pc : k.pc = .claim)
    (taken : w.claimDue index k order now = some t) : Advances d w index (.worker k) t := by
  unfold Lane.claimDue at taken
  split at taken
  · cases Option.some.inj taken
    exact .quiet (soundFail sound found)
  · rename_i lease _
    split at taken
    · rename_i perm
      cases Option.some.inj taken
      obtain ⟨after,form,between⟩ := nextBetween index
        {k with rest := order.filterMap (fun id => (w.captures.committed id).bind ExplicitCapture.claimed)}
        {k.summary with claimed :=
          (order.filterMap (fun id => (w.captures.committed id).bind ExplicitCapture.claimed)).length}
      rw [form]
      refine soundScheduled sound found ⟨by simp [writtenCapture,pc],by simp [writtenSource,pc]⟩ rfl ?_ between ?_
      · intro id
        simp only [Store.updateCommitted]
        split
        · rename_i chosen
          obtain ⟨row,member,rfl⟩ := List.mem_map.mp (perm.mem_iff.mp (of_decide_eq_true chosen))
          obtain ⟨id,unheld,there,due⟩ := dueRows member
          rw [(sound.indexed id row there).1,there]
          exact .inr ⟨unheld,row,row.attempts,lease,rfl,⟨due.1,(sound.reported id row there).mp due.1⟩,rfl⟩
        · exact .inl rfl
      · intro capture member
        obtain ⟨id,_,claimed⟩ := List.mem_filterMap.mp member
        obtain ⟨row,there,claimed⟩ := Option.bind_eq_some_iff.mp claimed
        obtain ⟨post,posted,same⟩ := Option.map_eq_some_iff.mp claimed
        have keyed := (sound.indexed id row there).1
        subst same
        refine ⟨row,?_,?_⟩
        · rw [keyed]
          exact there
        · simp only [Names,ExplicitCapture.claimed,posted,Option.map_some]
    · simp at taken

theorem soundDefer {capture now t} (sound : Sound d w) (found : w.calls[index]? = some (.worker k))
    (pc : k.pc = .defer capture) (taken : w.defer index k capture now = some t) :
    Advances d w index (.worker k) t := by
  have here := sound.calls index _ found
  have outside : writtenCapture (.worker k) = none ∧ writtenSource (.worker k) = none :=
    ⟨by simp [writtenCapture,pc],by simp [writtenSource,pc]⟩
  have failed := soundFail sound found
  obtain ⟨after,form,between⟩ := nextBetween index k {k.summary with deferred := k.summary.deferred + 1}
  have unchanged := soundScheduled sound found outside rfl (fun id => .inl rfl) between here.sound.1
  unfold Lane.defer at taken
  split at taken
  · cases Option.some.inj taken
    exact .quiet failed
  · rename_i nextAttemptAt _
    split at taken
    · rename_i free
      simp only [form] at taken
      split at taken
      · cases Option.some.inj taken
        exact unchanged
      · rename_i row there
        split at taken
        · rename_i unreported
          split at taken
          · cases Option.some.inj taken
            refine soundScheduled sound found outside rfl ?_ between here.sound.1
            intro id
            simp only [Store.writeCommitted]
            split
            · rename_i same
              subst same
              refine .inr ⟨?_,row,row.attempts + 1,nextAttemptAt,there,unreported,rfl⟩
              cases held : w.captures.held capture.captureId with
              | none => rfl
              | some x => exact absurd (free x held) ((workerQuiet sound found outside).1 _ x held)
            · exact .inl rfl
          · cases Option.some.inj taken
            exact .quiet failed
        · cases Option.some.inj taken
          exact unchanged
    · simp at taken

theorem outcomeSources {contract : Contract} {capture row source row' after queued}
    (outcome : Outcome contract capture row source row' after queued) {e} (member : e ∈ queued) {s}
    (about : sourceOf e = some s) : s ∈ introduced queued ∨ ∃ before, source = some before ∧ before.socialSourceId = s := by
  cases outcome with
  | unavailable absent =>
    cases List.mem_singleton.mp member
    simp [sourceOf,Lane.report,reportEnvelope] at about
  | removed =>
    rcases List.mem_cons.mp member with rfl | last
    · exact .inr ⟨_,rfl,Option.some.inj about⟩
    · cases List.mem_singleton.mp last
      simp [sourceOf,Lane.report,reportEnvelope] at about
  | preserved publishes =>
    rcases List.mem_append.mp member with social | last
    · cases publishes with
      | unchanged same => simp at social
      | captured own built =>
        cases List.mem_singleton.mp social
        refine .inl ?_
        simp only [sourceOf,sourceEvent,Option.some.injEq] at about
        simp [introduced,sourceEvent,about]
      | updated own differs built =>
        cases List.mem_singleton.mp social
        simp only [sourceOf,sourceEvent,(snapshotFields built).1,Option.some.injEq] at about
        exact .inr ⟨_,rfl,about⟩
    · cases List.mem_singleton.mp last
      simp [sourceOf,Lane.report,reportEnvelope] at about

theorem outcomePublished {contract : Contract} {capture row source row' after queued}
    (outcome : Outcome contract capture row source row' after queued) {kept} (stays : after = some kept) :
    (∃ before, source = some before ∧ before.socialSourceId = kept.socialSourceId) ∨
      ∃ e ∈ queued, sourceOf e = some kept.socialSourceId := by
  cases outcome with
  | unavailable absent => exact .inl ⟨kept,stays,rfl⟩
  | removed => cases stays
  | preserved publishes =>
    cases publishes with
    | unchanged same => exact .inl ⟨kept,stays,rfl⟩
    | captured own built =>
      cases Option.some.inj stays
      exact .inr ⟨_,.head _,by simp [sourceOf,sourceEvent,(snapshotFields built).1]⟩
    | updated own differs built =>
      cases Option.some.inj stays
      exact .inl ⟨_,rfl,rfl⟩

theorem outcomeRow {contract : Contract} {capture row source row' after queued}
    (outcome : Outcome contract capture row source row' after queued) :
    row'.captureId = row.captureId ∧ row'.commandId = row.commandId ∧ row'.status ≠ .accepted ∧
      row'.reportedAt ≠ none ∧ row'.claimed = row.claimed.map (fun c => {c with attempts := row'.attempts}) := by
  cases outcome with
  | unavailable absent => simp [Lane.markUnavailable,ExplicitCapture.claimed,Function.comp_def]
  | removed => simp [Lane.markUnavailable,ExplicitCapture.claimed,Function.comp_def]
  | preserved publishes => simp [Lane.markResolved,ExplicitCapture.claimed,Function.comp_def]

theorem namesOutcome {contract : Contract} {capture row source row' after queued other}
    (outcome : Outcome contract capture row source row' after queued) (names : Names row other) : Names row' other := by
  simp only [Names,(outcomeRow outcome).2.2.2.2]
  rw [names]
  rfl

theorem resolvedView {capture} (sound : Sound d w) (found : w.calls[index]? = some (.worker k))
    (resolves : resolving (.worker k) = some capture) : w.captures.view index =
      Function.update w.captures.committed capture.captureId (w.captures.view index capture.captureId) := by
  refine Store.viewUpdate ?_
  intro id x held own
  exact Option.some.inj (((sound.calls index _ found).captures id x held own).symm.trans (resolvingWrites resolves).1)

theorem soundCommit {capture queued} (sound : Sound d w) (found : w.calls[index]? = some (.worker k))
    (resolves : resolving (.worker k) = some capture) (mints : ∀ s ∈ introduced queued, s ∈ introduces (.worker k)) (known : Known w capture)
    (prepared : Prepared d.contract w index capture queued) (between : Between index k call') :
    Advances d w index (.worker k) ((w.commit index queued).set index call') := by
  have here := sound.calls index _ found
  have sources := (resolvingWrites resolves).2
  have singleCapture := resolvedView sound found resolves
  have singleSource : w.sources.view index = Function.update w.sources.committed capture.pair
      (w.sources.view index capture.pair) := by
    refine Store.viewUpdate ?_
    intro pair x held own
    exact Option.some.inj ((here.sources pair x held own).symm.trans sources)
  have noCommand : w.commands.view index = w.commands.committed := by
    funext id
    refine Store.viewOther ?_
    intro x held own
    have written := here.commands id x held own
    simp [writtenCommand] at written
  have released : ∀ {κ ν : Type} {s : Store κ ν} k x, (s.commit index).held k = some x → x.owner ≠ index :=
    fun k x held => (Store.commitHeld.mp held).2
  have aside : ∀ {κ ν : Type} {s : Store κ ν} j, j ≠ index → s.Aside (s.commit index) j :=
    fun j apart => Store.asideCommit apart
  have moves : (∀ other, Known w other → Known (w.commit index queued) other) →
      Moves d w index (.worker k) call' ((w.commit index queued).set index call') := by
    intro keeps
    refine ⟨rfl,aside,aside,aside,fun j apart => Store.asideAbort apart,
      idle released released released between.unlocked
        (between.stands (fun other member => keeps other (here.sound.1 other member))),
      keeps,fun pair changed => Store.commitOwn changed,Nat.le_refl _,?_,by simp [between.nothing]⟩
    intro id x held own
    exact absurd own (released id x held)
  rcases prepared with ⟨rfl,untouched,unwritten⟩ | ⟨row,row',there,unreported,held,outcome⟩
  · -- Nothing was written.
    have sameCaptures : w.captures.view index = w.captures.committed := by
      rw [singleCapture,Store.viewOther untouched,Function.update_eq_self]
    have sameSources : w.sources.view index = w.sources.committed := by
      rw [singleSource,Store.viewOther unwritten,Function.update_eq_self]
    have same : archive ((w.commit index []).set index call') = archive w := by
      simp only [archive,Lane.set,Lane.commit,Store.commitCommitted,sameCaptures,sameSources,List.append_nil]
    refine ⟨soundMove sound found (moves ?_) ?_,same ▸ .quiet,fun pair changed => Store.commitOwn changed⟩
    · exact fun other => knownSame sameCaptures
    · refine ⟨?_,?_,?_,?_⟩
      · simp only [Lane.set,Lane.commit,Store.commitCommitted,sameCaptures,noCommand]
        exact sound.indexed
      · simp only [Lane.set,Lane.commit,Store.commitCommitted,sameCaptures]
        exact sound.reported
      · simp only [Lane.set,Lane.commit,Store.commitCommitted,sameSources,List.append_nil]
        exact sound.published
      · intro e member
        exact .inl (by simpa [Lane.set,Lane.commit] using member)
  · have newCapture : w.captures.view index = Function.update w.captures.committed capture.captureId (some row') := by
      rw [singleCapture,Store.viewHeld held rfl]
    have indexed := sound.indexed _ row there
    obtain ⟨sameId,sameCommand,finished,reported,_⟩ := outcomeRow outcome
    have settles : Settles w (.worker k) call' ((w.commit index queued).set index call') := by
      refine ⟨?_,?_,?_,?_⟩
      · simp only [Lane.set,Lane.commit,Store.commitCommitted,newCapture,noCommand]
        intro id other found'
        rcases updatedCases found' with ⟨rfl,rfl⟩ | ⟨_,before⟩
        · rw [sameId,sameCommand]
          exact indexed
        · exact sound.indexed id other before
      · simp only [Lane.set,Lane.commit,Store.commitCommitted,newCapture]
        intro id other found'
        rcases updatedCases found' with ⟨rfl,rfl⟩ | ⟨_,before⟩
        · simp [finished,reported]
        · exact sound.reported id other before
      · simp only [Lane.set,Lane.commit,Store.commitCommitted]
        intro pair source there'
        rw [singleSource] at there'
        by_cases same : pair = capture.pair
        · subst same
          rw [Function.update_self] at there'
          rcases outcomePublished outcome there' with ⟨before,present,kept⟩ | ⟨e,member,about⟩
          · obtain ⟨e,member,about⟩ := sound.published _ before present
            exact ⟨e,List.mem_append_left _ member,kept ▸ about⟩
          · exact ⟨e,List.mem_append_right _ member,about⟩
        · rw [Function.update_of_ne same] at there'
          obtain ⟨e,member,about⟩ := sound.published pair source there'
          exact ⟨e,List.mem_append_left _ member,about⟩
      · intro e member
        rcases List.mem_append.mp member with old | new
        · exact .inl old
        · refine .inr ⟨between.nothing,?_⟩
          intro s about
          rcases outcomeSources outcome new about with minted | ⟨before,present,rfl⟩
          · exact .inl (mints s minted)
          · exact .inr (sound.published _ before present)
    refine ⟨soundMove sound found (moves ?_) settles,?_,fun pair changed => Store.commitOwn changed⟩
    · rintro other ⟨row'',there',names⟩
      simp only [Known,Lane.commit,Store.commitCommitted,newCapture]
      by_cases same : other.captureId = capture.captureId
      · rw [same] at there' ⊢
        rw [there] at there'
        cases Option.some.inj there'
        exact ⟨row',Function.update_self ..,namesOutcome outcome names⟩
      · exact ⟨row'',by rw [Function.update_of_ne same]; exact there',names⟩
    · obtain ⟨row'',there',names⟩ := known
      rw [there] at there'
      cases Option.some.inj there'
      have form : archive ((w.commit index queued).set index call') =
          ⟨Function.update w.captures.committed capture.captureId (some row'),
            Function.update w.sources.committed capture.pair (w.sources.view index capture.pair),w.outbox ++ queued⟩ := by
        simp only [archive,Lane.set,Lane.commit,Store.commitCommitted,newCapture]
        rw [← singleSource]
      rw [form,resolves]
      exact Commit.resolved (a := archive w) there names unreported outcome
        (fun s member => (sound.fresh index _ found s (mints s member)).2)

end Workers

section Intakes
variable {intake : Intake}

theorem intakeQuiet {pc} (sound : Sound d w) (found : w.calls[index]? = some (.intake intake pc))
    (outside : ∀ id queued, pc ≠ .commit id queued) :
    (∀ id x, w.captures.held id = some x → x.owner ≠ index) ∧ (∀ id x, w.commands.held id = some x → x.owner ≠ index) ∧
      ∀ pair x, w.sources.held pair = some x → x.owner ≠ index := by
  have here := sound.calls index _ found
  refine ⟨?_,?_,?_⟩
  · intro id x held own
    have written := here.captures id x held own
    cases pc <;> simp [writtenCapture] at written
    exact outside _ _ rfl
  · intro id x held own
    have written := here.commands id x held own
    cases pc <;> simp [writtenCommand] at written
    exact outside _ _ rfl
  · intro pair x held own
    have written := here.sources pair x held own
    simp [writtenSource] at written

theorem soundClaimInbox {t} (sound : Sound d w) (found : w.calls[index]? = some (.intake intake .claim))
    (taken : w.claimInbox index intake = some t) : Sound d t ∧ archive t = archive w := by
  unfold Lane.claimInbox at taken
  split at taken
  · cases Option.some.inj taken
    exact soundRollback sound found rfl rfl trivial
  · split at taken
    · cases Option.some.inj taken
      obtain ⟨captures,commands,sources⟩ := intakeQuiet sound found (by simp)
      refine soundDrafts sound found rfl (Store.draftsSame ..) (Store.draftsSame ..) (Store.draftsSame ..)
        (Store.draftsSame ..) rfl (Nat.le_refl _) (idle captures commands sources rfl trivial) ?_ (by simp [introduces])
      intro id x held own
      exact absurd own (captures id x held)
    · simp at taken

theorem soundInsert {now t} (sound : Sound d w) (found : w.calls[index]? = some (.intake intake .insert))
    (taken : w.insertCapture index intake now = some t) : Sound d t ∧ archive t = archive w := by
  obtain ⟨captures,commands,sources⟩ := intakeQuiet sound found (by simp)
  unfold Lane.insertCapture at taken
  split at taken
  · rename_i free
    split at taken
    · cases Option.some.inj taken
      exact soundRollback sound found rfl rfl trivial
    · rename_i first
      cases Option.some.inj taken
      have unheld : w.captures.held w.minted = none := by
        cases held : w.captures.held w.minted with
        | none => rfl
        | some x => exact absurd (sound.captureHeld _ x held).2 (Nat.lt_irrefl _)
      have absent : w.captures.committed w.minted = none := by
        cases there : w.captures.committed w.minted with
        | none => rfl
        | some row => exact absurd (sound.indexed _ row there).2.2 (Nat.lt_irrefl _)
      have minted : w.captures.Free index w.minted := by
        intro x held
        rw [unheld] at held
        cases held
      refine soundDrafts sound found rfl (Store.draftsPut minted) (Store.draftsPut free) (Store.draftsSame ..)
        (Store.draftsSame ..) rfl (by simp [Lane.set]) ?_ ?_ (by simp [introduces])
      · refine ⟨?_,?_,?_,by simp [locked],absent,Option.not_isSome_iff_eq_none.mp first,by simp [Lane.set],
          ⟨now,by simp [Lane.set]⟩,w.minted + 1,rfl⟩
        · intro id x held own
          simp only [Lane.set,Store.putHeld] at held
          split at held
          · rename_i same
            simp [writtenCapture,same]
          · exact absurd own (captures id x held)
        · intro id x held own
          simp only [Lane.set,Store.putHeld] at held
          split at held
          · rename_i same
            simp [writtenCommand,same]
          · exact absurd own (commands id x held)
        · intro pair x held own
          exact absurd own (sources pair x held)
      · intro id x held own
        simp only [Lane.set,Store.putHeld] at held ⊢
        split at held
        · rename_i same
          rw [same]
          exact Nat.lt_add_of_pos_right (by decide)
        · exact absurd own (captures id x held)
  · simp at taken

theorem deliveredView {captureId queued now} (sound : Sound d w)
    (found : w.calls[index]? = some (.intake intake (.commit captureId queued)))
    (held : w.captures.held captureId = some ⟨index,some (intake.row captureId now)⟩) : w.captures.view index =
      Function.update w.captures.committed captureId (some (intake.row captureId now)) := by
  have single : ∀ other x, w.captures.held other = some x → x.owner = index → other = captureId :=
    fun other x held own => (Option.some.inj ((sound.calls index _ found).captures other x held own)).symm
  rw [Store.viewUpdate single,Store.viewHeld held rfl]

theorem soundDelivered {captureId queued result} (sound : Sound d w)
    (found : w.calls[index]? = some (.intake intake (.commit captureId queued))) :
    Advances d w index (.intake intake (.commit captureId queued))
      ((w.commit index queued).set index (.intake intake (.done result))) := by
  have here := sound.calls index _ found
  obtain ⟨absent,first,command,⟨now,held⟩,id,report⟩ := here.sound
  have newCapture := deliveredView sound found held
  have newCommand : w.commands.view index =
      Function.update w.commands.committed intake.commandId (some captureId) := by
    have single : ∀ other x, w.commands.held other = some x → x.owner = index → other = intake.commandId :=
      fun other x held own => (Option.some.inj (here.commands other x held own)).symm
    rw [Store.viewUpdate single,Store.viewHeld command rfl]
  have sameSources : w.sources.view index = w.sources.committed := by
    funext pair
    refine Store.viewOther ?_
    intro x held own
    have written := here.sources pair x held own
    simp [writtenSource] at written
  have released : ∀ {κ ν : Type} {s : Store κ ν} k x, (s.commit index).held k = some x → x.owner ≠ index :=
    fun k x held => (Store.commitHeld.mp held).2
  have aside : ∀ {κ ν : Type} {s : Store κ ν} j, j ≠ index → s.Aside (s.commit index) j :=
    fun j apart => Store.asideCommit apart
  have apart : ∀ {other row}, w.captures.committed other = some row → row.commandId ≠ intake.commandId := by
    intro other row there same
    have indexed := (sound.indexed other row there).2.1
    rw [same,first] at indexed
    cases indexed
  have older : ∀ {other row}, w.captures.committed other = some row → other ≠ captureId := by
    rintro other row there rfl
    rw [absent] at there
    cases there
  have moves : Moves d w index (.intake intake (.commit captureId queued)) (.intake intake (.done result))
      ((w.commit index queued).set index (.intake intake (.done result))) := by
    refine ⟨rfl,aside,aside,aside,fun j apart => Store.asideAbort apart,idle released released released rfl trivial,
      ?_,fun pair changed => Store.commitOwn changed,Nat.le_refl _,?_,by simp [introduces]⟩
    · rintro other ⟨row,there,names⟩
      refine ⟨row,?_,names⟩
      simp only [Lane.set,Lane.commit,Store.commitCommitted,newCapture]
      rw [Function.update_of_ne (older there)]
      exact there
    · intro id x held own
      exact absurd own (released id x held)
  refine ⟨soundMove sound found moves ⟨?_,?_,?_,?_⟩,?_,moves.only⟩
  · simp only [Lane.set,Lane.commit,Store.commitCommitted,newCapture,newCommand]
    intro other row there
    rcases updatedCases there with ⟨rfl,rfl⟩ | ⟨_,before⟩
    · exact ⟨rfl,Function.update_self ..,(sound.captureHeld _ _ held).2⟩
    · obtain ⟨keyed,indexed,bound⟩ := sound.indexed other row before
      exact ⟨keyed,by rw [Function.update_of_ne (apart before)]; exact indexed,bound⟩
  · simp only [Lane.set,Lane.commit,Store.commitCommitted,newCapture]
    intro other row there
    rcases updatedCases there with ⟨rfl,rfl⟩ | ⟨_,before⟩
    · cases post : intake.post.isSome <;> simp [Intake.row,post]
    · exact sound.reported other row before
  · simp only [Lane.set,Lane.commit,Store.commitCommitted,sameSources]
    intro pair source there
    obtain ⟨e,member,about⟩ := sound.published pair source there
    exact ⟨e,List.mem_append_left _ member,about⟩
  · intro e member
    rcases List.mem_append.mp member with old | new
    · exact .inl old
    · rw [report] at new
      cases List.mem_singleton.mp new
      exact .inr ⟨rfl,by simp [sourceOf,reportEnvelope]⟩
  · have form : archive ((w.commit index queued).set index (.intake intake (.done result))) =
        {archive w with
          captures := Function.update w.captures.committed captureId (some (intake.row captureId now))
          outbox := w.outbox ++
            [reportEnvelope id intake.owner intake.operationId captureId intake.commandId intake.report]} := by
      simp only [archive,Lane.set,Lane.commit,Store.commitCommitted,newCapture,sameSources,report]
    rw [form]
    exact Commit.accepted (a := archive w) absent (fun other row there => apart there)

end Intakes

theorem soundPush (sound : Sound d w) (unlocked : locked call = none) (nothing : introduces call = [])
    (stands : CallSound d.contract w w.calls.length call) : Sound d {w with calls := w.calls ++ [call]} := by
  have bound : ∀ {j call'}, w.calls[j]? = some call' → j ≠ w.calls.length :=
    fun there => Nat.ne_of_lt (List.getElem?_eq_some_iff.mp there).1
  have either : ∀ {j : Nat} {call'}, (w.calls ++ [call])[j]? = some call' →
      w.calls[j]? = some call' ∨ j = w.calls.length ∧ call' = call := by
    intro j call' there
    rcases Nat.lt_trichotomy j w.calls.length with below | same | above
    · rw [List.getElem?_append_left below] at there
      exact .inl there
    · subst same
      simp only [List.getElem?_concat_length,Option.some.injEq] at there
      exact .inr ⟨rfl,there.symm⟩
    · rw [List.getElem?_eq_none (by simp; omega)] at there
      cases there
  refine ⟨?_,?_,?_,?_,sound.indexed,sound.reported,sound.published,sound.bounded,?_,?_⟩
  · intro j call' there
    rcases either there with old | ⟨rfl,rfl⟩
    · have before := sound.calls j call' old
      exact ⟨before.captures,before.commands,before.sources,before.locks,callStores rfl rfl rfl (t := w) before.sound⟩
    · refine idle ?_ ?_ ?_ unlocked (callStores rfl rfl rfl (t := w) stands)
      · exact fun id x held => Nat.ne_of_lt (sound.captureHeld id x held).1
      · exact fun id x held => Nat.ne_of_lt (sound.commandHeld id x held)
      · exact fun pair x held => Nat.ne_of_lt (sound.sourceHeld pair x held)
  · intro id x held
    obtain ⟨owner,minted⟩ := sound.captureHeld id x held
    exact ⟨by simp; omega,minted⟩
  · intro id x held
    have owner := sound.commandHeld id x held
    simp
    omega
  · intro pair x held
    have owner := sound.sourceHeld pair x held
    simp
    omega
  · intro j call' there s member
    rcases either there with old | ⟨rfl,rfl⟩
    · exact sound.fresh j call' old s member
    · simp [nothing] at member
  · intro i j left right there there' s member member'
    rcases either there with old | ⟨rfl,rfl⟩
    · rcases either there' with old' | ⟨rfl,rfl⟩
      · exact sound.distinct i j left right old old' s member member'
      · simp [nothing] at member'
    · simp [nothing] at member

theorem soundTerminate {k capture failure stage now t} (sound : Sound d w) (found : w.calls[index]? = some (.worker k))
    (pc : k.pc = .terminate capture failure stage) (taken : w.terminate d index k capture failure stage now = some t) :
    Advances d w index (.worker k) t := by
  have own := (sound.calls index _ found).sound.2
  rw [pc] at own
  cases stage with
  | lock =>
    simp only [Lane.terminate] at taken
    exact Advances.quiet (soundLock sound found ⟨by simp [writtenCapture,pc],by simp [writtenSource,pc]⟩ taken rfl rfl
      ⟨own.1,trivial⟩)
  | guard => exact Advances.quiet (soundTerminateGuard sound found pc taken)
  | remove => exact Advances.quiet (soundRemove sound found pc taken)
  | commit queued =>
    obtain ⟨after,form,between⟩ := nextBetween index k {k.summary with unavailable := k.summary.unavailable + 1}
    simp only [Lane.terminate,form] at taken
    cases Option.some.inj taken
    exact soundCommit sound found (by simp [resolving,pc])
      (by simp [introducedQuiet own.2.1]) own.1 own.2.2 between

theorem soundPreserve {k capture post stage now t} (sound : Sound d w) (found : w.calls[index]? = some (.worker k))
    (pc : k.pc = .preserve capture post stage) (taken : w.preserve d index k capture post stage now = some t) :
    Advances d w index (.worker k) t := by
  have own := (sound.calls index _ found).sound.2
  rw [pc] at own
  cases stage with
  | lock =>
    simp only [Lane.preserve] at taken
    exact Advances.quiet (soundLock sound found ⟨by simp [writtenCapture,pc],by simp [writtenSource,pc]⟩ taken rfl rfl
      ⟨own.1,own.2.1,trivial⟩)
  | select =>
    cases Option.some.inj taken
    exact Advances.quiet (soundSelect sound found pc)
  | upsert sourceId fact snapshot => exact Advances.quiet (soundUpsert sound found pc taken)
  | guard sourceId queued => exact Advances.quiet (soundPreserveGuard sound found pc taken)
  | commit queued =>
    obtain ⟨after,form,between⟩ := nextBetween index k {k.summary with preserved := k.summary.preserved + 1}
    simp only [Lane.preserve,form] at taken
    cases Option.some.inj taken
    exact soundCommit sound found (by simp [resolving,pc])
      (by simp [introduces,pc]) own.1 own.2.2 between

theorem soundWorker {k reply t} (sound : Sound d w) (found : w.calls[index]? = some (.worker k))
    (taken : w.runDueOnce d index k reply = some t) : Advances d w index (.worker k) t := by
  have own := (sound.calls index _ found).sound
  -- A pass whose commit took effect and whose acknowledgement was lost ends there.
  have lost : Between index k (.worker {k with pc := .done none}) := ⟨rfl,rfl,fun known => ⟨known,trivial⟩⟩
  unfold Lane.runDueOnce at taken
  split at taken
  · split at taken
    · simp at taken
    · cases Option.some.inj taken
      exact .quiet (soundFail sound found)
  · split at taken
    · rename_i capture failure queued pc
      cases Option.some.inj taken
      have prepared := own.2
      rw [pc] at prepared
      exact soundCommit sound found (by simp [resolving,pc])
        (by simp [introducedQuiet prepared.2.1]) prepared.1 prepared.2.2 lost
    · rename_i capture post queued pc
      cases Option.some.inj taken
      have prepared := own.2
      rw [pc] at prepared
      exact soundCommit sound found (by simp [resolving,pc])
        (by simp [introduces,pc]) prepared.1 prepared.2.2 lost
    · simp at taken
  · split at taken
    · rename_i pc
      exact soundClaimDue sound found pc taken
    · simp at taken
  · split at taken
    · rename_i capture pc
      cases Option.some.inj taken
      exact .quiet (soundAnswered sound found pc)
    · simp at taken
  · split at taken
    · rename_i capture pc
      exact soundDefer sound found pc taken
    · rename_i capture failure stage pc
      exact soundTerminate sound found pc taken
    · rename_i capture post stage pc
      exact soundPreserve sound found pc taken
    · simp at taken

theorem soundIntake {intake pc reply t} (sound : Sound d w) (found : w.calls[index]? = some (.intake intake pc))
    (taken : w.persistBrowserCapture index intake pc reply = some t) :
    Advances d w index (.intake intake pc) t := by
  unfold Lane.persistBrowserCapture at taken
  split at taken
  · simp at taken
  · cases Option.some.inj taken
    exact Advances.quiet (soundRollback sound found rfl rfl trivial)
  · exact Advances.quiet (soundClaimInbox sound found taken)
  · exact Advances.quiet (soundInsert sound found taken)
  · cases Option.some.inj taken
    exact soundDelivered sound found
  · cases Option.some.inj taken
    exact soundDelivered sound found
  · simp at taken

def committing (w : Lane) : Action → Option ClaimedCapture
  | .advance index _ => w.calls[index]?.bind resolving
  | _ => none

theorem advances {reply t} (sound : Sound d w) (taken : w.step d (.advance index reply) = some t) :
    ∃ call, w.calls[index]? = some call ∧ Advances d w index call t := by
  simp only [Lane.step] at taken
  split at taken
  · rename_i intake pc found
    exact ⟨_,found,soundIntake sound found taken⟩
  · rename_i k found
    exact ⟨_,found,soundWorker sound found taken⟩
  · simp at taken

theorem soundStep {a t} (sound : Sound d w) (taken : w.step d a = some t) :
    Sound d t ∧ Commit d.contract (archive w) (committing w a) (archive t) := by
  cases a with
  | deliver command =>
    cases Option.some.inj taken
    refine ⟨?_,.quiet⟩
    split
    · exact soundPush sound rfl rfl trivial
    · exact soundPush sound rfl rfl trivial
  | launch policy =>
    cases Option.some.inj taken
    exact ⟨soundPush sound rfl rfl ⟨by simp,trivial⟩,.quiet⟩
  | advance index reply =>
    obtain ⟨call,found,step⟩ := advances sound taken
    refine ⟨step.sound,?_⟩
    simp only [committing,found,Option.bind_some]
    exact step.commit

/- A call that holds the lock of its pair keeps the pair's source from every other call. -/
theorem lockedStill {reply t} (sound : Sound d w) (taken : w.step d (.advance index reply) = some t) {j : Nat}
    (apart : j ≠ index) (there : w.calls[j]? = some call) {capture} (holds : locked call = some capture) :
    t.sources.committed capture.pair = w.sources.committed capture.pair := by
  obtain ⟨mover,found,step⟩ := advances sound taken
  exact pairStill sound found step.only apart there holds

end Steps

section Runs
variable {d : Deployment} {guard : Lane → Action → Prop} {labels : List Action} {w : Lane}

theorem soundRun (run : Run (Lane.step d) guard Lane.empty labels w) : Sound d w :=
  run.preserves (Sound d) (fun _ _ _ sound _ taken => (soundStep sound taken).1) (soundEmpty d)

theorem archiveRun (inv : Archive → Prop) (start : inv (archive Lane.empty))
    (kept : ∀ a who b, inv a → Commit d.contract a who b → inv b) (run : Run (Lane.step d) guard Lane.empty labels w) :
    inv (archive w) := by
  have both := run.preserves (fun w => Sound d w ∧ inv (archive w))
    (fun _ _ _ holds _ taken => ⟨(soundStep holds.1 taken).1,kept _ _ _ holds.2 (soundStep holds.1 taken).2⟩)
    ⟨soundEmpty d,start⟩
  exact both.2

theorem passCommit {p a q} (passes : Passes (Lane.step d) guard Lane.empty labels w p a q) :
    Commit d.contract (archive p) (committing p a) (archive q) := by
  obtain ⟨before,after,_,first,_,taken,_⟩ := passes
  exact (soundStep (soundRun first) taken).2

end Runs
end RatatoskrX.CaptureSteps
