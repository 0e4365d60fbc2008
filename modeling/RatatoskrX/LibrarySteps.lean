import RatatoskrX.LibraryCommits

/-! Every statement of a page or a run keeps what its own transaction holds, leaves the
other transactions' assertions alone, and commits nothing but a page or one result. -/
namespace RatatoskrX.LibrarySteps
open Schema Envelopes SocialSources ReadCommitted Transition Library LibraryCommits

section Frame
variable {s t : Store Key Row} {index j : Nat} {call : Call}

/- Who holds a source's row holds the row of its post. -/
theorem sourcePost (sound : CallSound s index call) {key x} (held : s.held (.source key) = some x)
    (own : x.owner = index) : ∃ y, s.held (.post key.2) = some y ∧ y.owner = index := by
  cases call with
  | page page =>
    simp only [CallSound] at sound
    split at sound
    · exact absurd own (sound _ x held)
    · exact sound.1.stored _ (sound.1.sources key x held own).1
  | run run =>
    have idle : s.Idle index → ∃ y, s.held (.post key.2) = some y ∧ y.owner = index :=
      fun none => absurd own (none _ x held)
    have own' := sound.2
    generalize run.pc = pc at own'
    cases pc with
    | select _ _ => exact idle own'
    | reserve _ => exact idle own'.2
    | revalidate _ => exact idle own'.2
    | done _ => exact idle own'
    | record candidate evidence checkedAt stage =>
      have record := own'.2.2
      cases stage with
      | ledger => exact idle record
      | availability _ _ => exact idle record.2.1
      | remove _ _ =>
        obtain ⟨_,_,_,post,_,exactly⟩ := record
        have member := exactly.2 _ x held own
        simp [postDraft] at member
      | tombstone _ _ =>
        obtain ⟨_,_,_,post,other,row,_,_,_,_,at_,exactly⟩ := record
        have member := exactly.2 _ x held own
        simp only [List.map_cons,List.map_nil,sourceDraft,postDraft,List.mem_cons,Key.source.injEq,reduceCtorEq,
          List.not_mem_nil,or_false] at member
        rw [member,at_]
        exact ⟨_,exactly.1 _ _ (List.mem_cons_of_mem _ List.mem_cons_self),rfl⟩
      | commit entry queued =>
        obtain ⟨id,drafts,_,exactly,settles⟩ := record
        have member := exactly.2 _ x held own
        cases settles with
        | indeterminate _ => simp at member
        | seen _ _ => simp [postDraft] at member
        | takenDown _ _ _ _ _ _ at_ =>
          simp only [List.map_cons,List.map_nil,tombstoneDraft,sourceDraft,postDraft,List.mem_cons,Key.source.injEq,
            reduceCtorEq,List.not_mem_nil,or_false,false_or] at member
          rw [member,at_]
          exact ⟨_,exactly.1 _ _ (List.mem_of_getElem? (i := 2) rfl),rfl⟩

theorem draftsAside (aside : s.Aside t j) {key id} (drafts : Drafts s j key id) : Drafts t j key id := by
  obtain ⟨row,held,same⟩ := drafts
  exact ⟨row,(aside.1 _ _ rfl).mpr held,same⟩

theorem identityAside (aside : s.Aside t j)
    (grows : ∀ id key, Rows.identity s.committed id = some key → Rows.identity t.committed id = some key) {id key}
    (sees : Rows.identity (s.view j) id = some key) : Rows.identity (t.view j) id = some key := by
  by_cases mine : ∃ x, s.held (.identity id) = some x ∧ x.owner = j
  · obtain ⟨x,held,own⟩ := mine
    simp only [Rows.identity,Store.viewHeld ((aside.1 _ x own).mpr held) own] at sees ⊢
    rwa [Store.viewHeld held own] at sees
  · have before : s.view j (.identity id) = s.committed (.identity id) :=
      Store.viewOther (fun x held own => mine ⟨x,held,own⟩)
    have after : t.view j (.identity id) = t.committed (.identity id) :=
      Store.viewOther (fun x held own => mine ⟨x,(aside.1 _ x own).mp held,own⟩)
    have known := grows id key (by simpa only [Rows.identity,before] using sees)
    simpa only [Rows.identity,after] using known

theorem sourceSame {r r' : Rows} {key} (same : r (.source key) = r' (.source key)) : r.source key = r'.source key := by
  simp only [Rows.source,same]

theorem postSame {r r' : Rows} {p} (same : r (.post p) = r' (.post p)) : r.post p = r'.post p := by
  simp only [Rows.post,same]

theorem identitySame {r r' : Rows} {id} (same : r (.identity id) = r' (.identity id)) :
    r.identity id = r'.identity id := by
  simp only [Rows.identity,same]

theorem identitySeen {r : Rows} {id key} (there : r (.identity id) = some (.identity key)) : r.identity id = some key := by
  simp only [Rows.identity,there]

theorem pageAside {page : Page} (aside : s.Aside t j)
    (grows : ∀ id key, Rows.identity s.committed id = some key → Rows.identity t.committed id = some key)
    (owns : PageOwns s j page) : PageOwns t j page := by
  refine ⟨?_,?_,?_,?_,?_,?_,?_⟩
  · intro p member
    obtain ⟨x,held,own⟩ := owns.stored p member
    exact ⟨x,(aside.1 _ x own).mpr held,own⟩
  · intro p x held own
    exact owns.posts p x ((aside.1 _ x own).mp held) own
  · intro key x held own
    have before := (aside.1 _ x own).mp held
    obtain ⟨member,row,version,kept,keyed,identity,old⟩ := owns.sources key x before own
    refine ⟨member,row,version,kept,keyed,identityAside aside grows identity,?_⟩
    rw [sourceSame (aside.2 _ x before own)]
    exact old
  · intro id x held own
    have before := (aside.1 _ x own).mp held
    obtain ⟨absent,key,version,drafts⟩ := owns.identities id x before own
    refine ⟨?_,key,version,draftsAside aside drafts⟩
    rw [identitySame (aside.2 _ x before own)]
    exact absent
  · intro id digest x held own
    obtain ⟨key,drafts⟩ := owns.revisions id digest x ((aside.1 _ x own).mp held) own
    exact ⟨key,draftsAside aside drafts⟩
  · intro id x held own
    exact owns.tombstones id x ((aside.1 _ x own).mp held) own
  · intro e member
    obtain ⟨other,tells⟩ := owns.queued e member
    refine ⟨other,?_⟩
    intro content
    obtain ⟨id,key,about,drafts⟩ := tells content
    exact ⟨id,key,about,draftsAside aside drafts⟩

theorem chosenAside {key r} (aside : s.Aside t j) (same : t.committed (.source key) = s.committed (.source key))
    (chosen : Chosen s j key r) : Chosen t j key r := by
  unfold Chosen at chosen ⊢
  rwa [sourceSame (Store.asideView aside same)]

theorem settlesAside {id accountId candidate evidence checkedAt drafts queued} (aside : s.Aside t j)
    (exactly : s.Exactly j drafts)
    (settles : Settles s.committed id accountId candidate evidence checkedAt drafts queued) :
    Settles t.committed id accountId candidate evidence checkedAt drafts queued := by
  cases settles with
  | indeterminate unseen => exact .indeterminate unseen
  | seen saw there =>
    refine .seen saw ?_
    rw [postSame (aside.2 _ _ (exactly.1 _ _ List.mem_cons_self) rfl)]
    exact there
  | takenDown saw gone there stands same kept at_ =>
    refine .takenDown saw gone ?_ ?_ same kept at_
    · rw [postSame (aside.2 _ _ (exactly.1 _ _ (List.mem_of_getElem? (i := 2) rfl)) rfl)]
      exact there
    · rw [sourceSame (aside.2 _ _ (exactly.1 _ _ (List.mem_of_getElem? (i := 1) rfl)) rfl)]
      exact stands

theorem callAside (aside : s.Aside t j)
    (grows : ∀ id key, Rows.identity s.committed id = some key → Rows.identity t.committed id = some key)
    (posts : ∀ p, (Rows.post s.committed p).isSome → (Rows.post t.committed p).isSome)
    (still : ∀ key : SourceKey, (∃ y, s.held (.post key.2) = some y ∧ y.owner = j) →
      t.committed (.source key) = s.committed (.source key))
    (sound : CallSound s j call) : CallSound t j call := by
  cases call with
  | page page =>
    simp only [CallSound] at sound ⊢
    split
    · rename_i pc
      rw [pc] at sound
      exact Store.idleAside aside sound
    · rename_i active
      have sound : PageOwns s j page ∧ PageSound s j page page.pc := by
        split at sound
        · exact absurd ‹_› (active _)
        · exact sound
      refine ⟨pageAside aside grows sound.1,?_⟩
      have owns := sound.1
      have own := sound.2
      generalize page.pc = pc at own
      cases pc with
      | users _ => trivial
      | posts _ => trivial
      | publish _ => exact own
      | load _ _ => exact own
      | write post rest r =>
        exact ⟨own.1,own.2.1,own.2.2.1,chosenAside aside (still _ (owns.stored _ own.1)) own.2.2.2⟩
      | revise rest r =>
        obtain ⟨rest,snapshot,key,drafts⟩ := own
        exact ⟨rest,snapshot,key,draftsAside aside drafts⟩
      | select _ _ _ => exact own
      | insert _ _ _ _ _ => exact own
      | link _ _ _ _ _ _ => exact own
      | done _ => trivial
  | run run =>
    have known : ∀ {candidate}, Known s.committed run.accountId candidate → Known t.committed run.accountId candidate :=
      fun before => ⟨grows _ _ before.1,posts _ before.2⟩
    refine ⟨fun candidate member => known (sound.1 candidate member),?_⟩
    have own := sound.2
    generalize run.pc = pc at own
    cases pc with
    | select _ _ => exact Store.idleAside aside own
    | reserve _ => exact ⟨known own.1,Store.idleAside aside own.2⟩
    | revalidate _ => exact ⟨known own.1,Store.idleAside aside own.2⟩
    | done _ => exact Store.idleAside aside own
    | record candidate evidence checkedAt stage =>
      refine ⟨known own.1,own.2.1,?_⟩
      have record := own.2.2
      cases stage with
      | ledger => exact Store.idleAside aside record
      | availability _ _ => exact ⟨record.1,Store.idleAside aside record.2.1,record.2.2⟩
      | remove _ _ =>
        obtain ⟨saw,gone,entry,post,there,exactly⟩ := record
        refine ⟨saw,gone,entry,post,?_,Store.exactlyAside aside exactly⟩
        rw [postSame (aside.2 _ _ (exactly.1 _ _ List.mem_cons_self) rfl)]
        exact there
      | tombstone _ _ =>
        obtain ⟨saw,gone,entry,post,key,row,there,stands,same,kept,at_,exactly⟩ := record
        refine ⟨saw,gone,entry,post,key,row,?_,?_,same,kept,at_,Store.exactlyAside aside exactly⟩
        · rw [postSame (aside.2 _ _ (exactly.1 _ _ (List.mem_of_getElem? (i := 1) rfl)) rfl)]
          exact there
        · rw [sourceSame (aside.2 _ _ (exactly.1 _ _ List.mem_cons_self) rfl)]
          exact stands
      | commit _ _ =>
        obtain ⟨id,drafts,entry,exactly,settles⟩ := record
        exact ⟨id,drafts,entry,Store.exactlyAside aside exactly,settlesAside aside exactly settles⟩

end Frame
section Steps
variable {d : Deployment} {w t : State} {index : Nat} {call call' : Call}

theorem soundDraft (sound : Sound w) (found : w.calls[index]? = some call) (calls : t.calls = w.calls.set index call')
    (drafts : w.rows.Drafts t.rows index) (ledger : t.ledger = w.ledger) (outbox : t.outbox = w.outbox)
    (own : CallSound t.rows index call') : Sound t ∧ archive t = archive w := by
  have same : archive t = archive w := by simp only [archive,State.archived,drafts.1,ledger,outbox]
  refine ⟨⟨?_,?_,same ▸ sound.shelved⟩,same⟩
  · intro j other there
    rw [calls,setCall found] at there
    split at there
    · rename_i here
      cases Option.some.inj there
      exact here ▸ own
    · rename_i apart
      refine callAside (drafts.2 j apart) ?_ ?_ ?_ (sound.calls j other there)
      · intro id key there
        rw [drafts.1]
        exact there
      · intro p there
        rw [drafts.1]
        exact there
      · intro key _
        rw [drafts.1]
  · intro key x held
    rw [calls,List.length_set]
    by_cases mine : x.owner = index
    · rw [mine]
      exact (List.getElem?_eq_some_iff.mp found).1
    · exact sound.active key x (((drafts.2 _ mine).1 key x rfl).mp held)

/- A source that another call holds the post of is not committed by this one. -/
theorem sourceStill (sound : Sound w) (found : w.calls[index]? = some call) {j : Nat} (apart : j ≠ index) {key : SourceKey}
    (held : ∃ y, w.rows.held (.post key.2) = some y ∧ y.owner = j) :
    (w.rows.commit index).committed (.source key) = w.rows.committed (.source key) := by
  by_contra changed
  obtain ⟨x,mine,own⟩ := Store.commitOwn changed
  obtain ⟨y,post,owner⟩ := sourcePost (sound.calls index call found) mine own
  obtain ⟨z,post',owner'⟩ := held
  rw [post] at post'
  cases Option.some.inj post'
  exact apart (owner'.symm.trans owner)

theorem settlesFrame {rows : Rows} {id accountId candidate evidence checkedAt drafts queued}
    (settles : Settles rows id accountId candidate evidence checkedAt drafts queued) :
    (∀ s, Rows.identity (Store.drafted drafts rows) s = rows.identity s) ∧
      (∀ s digest, Rows.revision (Store.drafted drafts rows) s digest = rows.revision s digest) ∧
      ∀ p, (rows.post p).isSome → (Rows.post (Store.drafted drafts rows) p).isSome := by
  refine ⟨?_,?_,?_⟩
  · intro s
    refine identitySame (Store.draftedOther ?_)
    cases settles <;> simp [postDraft,sourceDraft,tombstoneDraft]
  · intro s digest
    simp only [Rows.revision]
    rw [Store.draftedOther]
    cases settles <;> simp [postDraft,sourceDraft,tombstoneDraft]
  · intro p there
    by_cases same : p = candidate.post
    · cases settles with
      | indeterminate => exact there
      | seen => simp [Rows.post,Store.drafted,postDraft,same]
      | takenDown => simp [Rows.post,Store.drafted,postDraft,sourceDraft,tombstoneDraft,same]
    · rw [postSame (Store.draftedOther ?_)]
      · exact there
      · cases settles <;> simp [postDraft,sourceDraft,tombstoneDraft,same]

theorem shelvedGrows {a b : Archive} (commit : Commit a b) :
    (∀ id key, a.rows.identity id = some key → b.rows.identity id = some key) ∧
      ∀ p, (a.rows.post p).isSome → (b.rows.post p).isSome := by
  cases commit with
  | quiet => exact ⟨fun _ _ there => there,fun _ there => there⟩
  | staged staged =>
    refine ⟨?_,staged.posts⟩
    intro id key there
    rcases staged.identities id with same | ⟨absent,_⟩
    · rw [same]
      exact there
    · rw [absent] at there
      cases there
  | recorded _ recorded =>
    obtain ⟨id,drafts,queued,settles,rfl⟩ := recorded
    obtain ⟨identities,_,posts⟩ := settlesFrame settles
    exact ⟨fun s key there => (identities s).trans there,posts⟩

theorem removalsAppend (xs ys : List Envelope) (id) : removals (xs ++ ys) id = removals xs id ++ removals ys id :=
  List.filterMap_append

theorem removalsNone {queued : List Envelope} {id} (silent : ∀ e ∈ queued, removalOf e = none) :
    removals queued id = [] := by
  refine List.filterMap_eq_nil_iff.mpr ?_
  intro e member
  simp [silent e member]

theorem shelvedStaged {a b : Archive} (shelved : Shelved a) (staged : Staged a b) : Shelved b := by
  obtain ⟨queued,outbox,silent⟩ := staged.outbox
  have told : ∀ id, removals b.outbox id = removals a.outbox id := by
    intro id
    rw [outbox,removalsAppend,removalsNone (fun e member => (silent e member).1),List.append_nil]
  -- A row that the page wrote is not removed, and neither was its identity known as removed.
  have fresh : ∀ key row, b.rows.source key = some row → a.rows.source key = b.rows.source key ∨
      row.removedAt = none ∧ a.rows.tombstone row.socialSourceId = none ∧ removals a.outbox row.socialSourceId = [] := by
    intro key row there
    rcases staged.sources key with same | ⟨row',there',kept,_,identity,old⟩
    · exact .inl same.symm
    · rw [there] at there'
      cases Option.some.inj there'
      refine .inr ⟨kept,?_⟩
      cases before : a.rows.source key with
      | some was =>
        obtain ⟨unremoved,same⟩ := old was before
        have stone := shelved.tombstone key was before
        have removed := shelved.removed key was before
        rw [unremoved,same] at stone removed
        exact ⟨Option.map_eq_none_iff.mp stone,removed⟩
      | none =>
        refine shelved.unknown _ ?_
        rcases staged.identities row.socialSourceId with same | ⟨absent,_⟩
        · by_contra known
          obtain ⟨key',known⟩ := Option.ne_none_iff_exists'.mp known
          rw [known,identity] at same
          cases Option.some.inj same
          obtain ⟨was,present,_⟩ := shelved.placed _ _ known
          rw [before] at present
          cases present
        · exact absent
  refine ⟨?_,?_,?_,?_,?_,?_,?_⟩
  · intro key row there
    rcases staged.sources key with same | ⟨row',there',_,keyed,_⟩
    · exact shelved.keyed key row (same ▸ there)
    · rw [there] at there'
      cases Option.some.inj there'
      exact keyed
  · intro key row there
    rcases staged.sources key with same | ⟨row',there',_,_,identity,_⟩
    · exact (shelvedGrows (.staged staged)).1 _ _ (shelved.indexed key row (same ▸ there))
    · rw [there] at there'
      cases Option.some.inj there'
      exact identity
  · intro id key known
    rcases staged.identities id with same | ⟨_,key',row,known',there,about⟩
    · obtain ⟨row,there,about⟩ := shelved.placed id key (same ▸ known)
      rcases staged.sources key with stays | ⟨row',there',_,_,_,old⟩
      · exact ⟨row,stays.trans there,about⟩
      · exact ⟨row',there',(old row there).2.symm.trans about⟩
    · rw [known] at known'
      cases Option.some.inj known'
      exact ⟨row,there,about⟩
  · intro key row there
    rw [staged.tombstones]
    rcases fresh key row there with same | ⟨kept,stone,_⟩
    · exact shelved.tombstone key row (same.trans there)
    · rw [stone,kept]
      rfl
  · intro key row there
    rw [told]
    rcases fresh key row there with same | ⟨kept,_,silent⟩
    · exact shelved.removed key row (same.trans there)
    · rw [silent,kept]
      rfl
  · intro id absent
    rw [told,staged.tombstones]
    refine shelved.unknown id ?_
    by_contra known
    obtain ⟨key,known⟩ := Option.ne_none_iff_exists'.mp known
    rw [(shelvedGrows (.staged staged)).1 id key known] at absent
    cases absent
  · intro id stone there
    rw [staged.tombstones] at there
    rw [staged.ledger]
    exact shelved.evidence id stone there

theorem shelvedSame {a b : Archive} (shelved : Shelved a) (sources : ∀ key, b.rows.source key = a.rows.source key)
    (identities : ∀ id, b.rows.identity id = a.rows.identity id)
    (tombstones : ∀ id, b.rows.tombstone id = a.rows.tombstone id) (outbox : b.outbox = a.outbox)
    (ledger : ∀ entry ∈ a.ledger, entry ∈ b.ledger) : Shelved b := by
  refine ⟨?_,?_,?_,?_,?_,?_,?_⟩
  · intro key row there
    exact shelved.keyed key row (sources key ▸ there)
  · intro key row there
    rw [identities]
    exact shelved.indexed key row (sources key ▸ there)
  · intro id key there
    rw [sources]
    exact shelved.placed id key (identities id ▸ there)
  · intro key row there
    rw [tombstones]
    exact shelved.tombstone key row (sources key ▸ there)
  · intro key row there
    rw [outbox]
    exact shelved.removed key row (sources key ▸ there)
  · intro id absent
    rw [tombstones,outbox]
    exact shelved.unknown id (identities id ▸ absent)
  · intro id stone there
    obtain ⟨entry,member,facts⟩ := shelved.evidence id stone (tombstones id ▸ there)
    exact ⟨entry,ledger entry member,facts⟩

theorem evidenceOutcome {evidence : RevalidationEvidence} {seen} (wellFormed : ∃ result, evidence = .from_ result)
    (saw : evidence.availability = some seen) : evidence.outcome = availabilityOutcome seen := by
  obtain ⟨result,rfl⟩ := wellFormed
  cases result with
  | error error => simp [RevalidationEvidence.from_] at saw
  | ok observation =>
    cases Option.some.inj saw
    rfl

theorem shelvedRecorded {a b : Archive} {accountId candidate evidence checkedAt} (shelved : Shelved a)
    (wellFormed : ∃ result, evidence = .from_ result)
    (recorded : Recorded a accountId candidate evidence checkedAt b) : Shelved b := by
  obtain ⟨id,drafts,queued,settles,rfl⟩ := recorded
  cases settles with
  | indeterminate _ =>
    exact shelvedSame shelved (fun _ => rfl) (fun _ => rfl) (fun _ => rfl) (List.append_nil _)
      (fun _ member => List.mem_append_left _ member)
  | seen _ _ =>
    refine shelvedSame shelved (fun key => sourceSame (Store.draftedOther ?_)) (fun id => identitySame (Store.draftedOther ?_))
      ?_ (List.append_nil _) (fun _ member => List.mem_append_left _ member)
    · simp [postDraft]
    · simp [postDraft]
    · intro id
      simp only [Rows.tombstone]
      rw [Store.draftedOther (by simp [postDraft])]
  | @takenDown seen post key row envelopeId saw gone there stands same kept at_ =>
    have told : ∀ s, removals (a.outbox ++ [removedEvent envelopeId candidate.source candidate.owner
        (.complianceRevalidation id) checkedAt]) s = removals a.outbox s ++ if candidate.source = s then [checkedAt] else [] := by
      intro s
      rw [removalsAppend]
      by_cases equal : candidate.source = s <;> simp [removals,removalOf,removedEvent,equal]
    have source : ∀ k, Rows.source (Store.drafted [tombstoneDraft id accountId candidate seen checkedAt,
        sourceDraft key row checkedAt,postDraft candidate seen post] a.rows) k =
          if k = key then some {row with removedAt := some checkedAt} else a.rows.source k := by
      intro k
      by_cases equal : k = key
      · simp [Rows.source,Store.drafted,tombstoneDraft,sourceDraft,equal]
      · rw [if_neg equal]
        exact sourceSame (Store.draftedOther (by simp [tombstoneDraft,sourceDraft,postDraft,equal]))
    have identity : ∀ s, Rows.identity (Store.drafted [tombstoneDraft id accountId candidate seen checkedAt,
        sourceDraft key row checkedAt,postDraft candidate seen post] a.rows) s = a.rows.identity s :=
      fun s => identitySame (Store.draftedOther (by simp [tombstoneDraft,sourceDraft,postDraft]))
    have tombstone : ∀ s, Rows.tombstone (Store.drafted [tombstoneDraft id accountId candidate seen checkedAt,
        sourceDraft key row checkedAt,postDraft candidate seen post] a.rows) s =
          if s = candidate.source then
            some ⟨accountId,candidate.source,candidate.post,availabilityOutcome seen,id,checkedAt⟩
          else a.rows.tombstone s := by
      intro s
      by_cases equal : s = candidate.source
      · simp [Rows.tombstone,Store.drafted,tombstoneDraft,equal]
      · simp only [Rows.tombstone,if_neg equal]
        rw [Store.draftedOther (by simp [tombstoneDraft,sourceDraft,postDraft,equal])]
    -- Another row has another identity.
    have apart : ∀ k other, k ≠ key → a.rows.source k = some other → other.socialSourceId ≠ candidate.source := by
      intro k other different present about
      have mine := shelved.indexed key row stands
      have yours := shelved.indexed k other present
      rw [about,← same,mine] at yours
      exact different (Option.some.inj yours).symm
    refine ⟨?_,?_,?_,?_,?_,?_,?_⟩
    · intro k other present
      rw [source] at present
      split at present
      · rename_i equal
        cases Option.some.inj present
        exact equal ▸ shelved.keyed key row stands
      · exact shelved.keyed k other present
    · intro k other present
      rw [source] at present
      rw [identity]
      split at present
      · rename_i equal
        cases Option.some.inj present
        exact equal ▸ shelved.indexed key row stands
      · exact shelved.indexed k other present
    · intro s k known
      rw [identity] at known
      obtain ⟨other,present,about⟩ := shelved.placed s k known
      rw [source]
      by_cases equal : k = key
      · rw [equal,stands] at present
        cases Option.some.inj present
        exact ⟨_,if_pos equal,about⟩
      · exact ⟨other,(if_neg equal).trans present,about⟩
    · intro k other present
      rw [source] at present
      rw [tombstone]
      split at present
      · cases Option.some.inj present
        rw [if_pos same]
        rfl
      · rename_i different
        rw [if_neg (apart k other different present)]
        exact shelved.tombstone k other present
    · intro k other present
      rw [source] at present
      dsimp only
      rw [told]
      split at present
      · cases Option.some.inj present
        have before := shelved.removed key row stands
        rw [kept] at before
        rw [if_pos same.symm,before]
        rfl
      · rename_i different
        rw [if_neg (Ne.symm (apart k other different present)),List.append_nil]
        exact shelved.removed k other present
    · intro s absent
      rw [identity] at absent
      have different : candidate.source ≠ s := by
        rintro rfl
        rw [← same,shelved.indexed key row stands] at absent
        cases absent
      dsimp only
      rw [tombstone,told,if_neg (Ne.symm different),if_neg different,List.append_nil]
      exact shelved.unknown s absent
    · intro s stone present
      rw [tombstone] at present
      split at present
      · rename_i equal
        cases Option.some.inj present
        exact ⟨_,List.mem_append_right _ (List.mem_singleton.mpr rfl),rfl,equal.symm,evidenceOutcome wellFormed saw,rfl⟩
      · obtain ⟨entry,member,facts⟩ := shelved.evidence s stone present
        exact ⟨entry,List.mem_append_left _ member,facts⟩

theorem shelvedCommit {a b : Archive} (shelved : Shelved a) (commit : Commit a b) : Shelved b := by
  cases commit with
  | quiet => exact shelved
  | staged staged => exact shelvedStaged shelved staged
  | recorded wellFormed recorded => exact shelvedRecorded shelved wellFormed recorded

theorem soundCommit (sound : Sound w) (found : w.calls[index]? = some call) (calls : t.calls = w.calls.set index call')
    (rows : t.rows = w.rows.commit index) (commit : Commit (archive w) (archive t)) (own : CallSound t.rows index call') :
    Sound t := by
  obtain ⟨grows,posts⟩ := shelvedGrows commit
  refine ⟨?_,?_,shelvedCommit sound.shelved commit⟩
  · intro j other there
    rw [calls,setCall found] at there
    split at there
    · rename_i here
      cases Option.some.inj there
      exact here ▸ own
    · rename_i apart
      refine callAside (rows ▸ Store.asideCommit apart) grows posts ?_ (sound.calls j other there)
      intro key held
      rw [rows]
      exact sourceStill sound found apart held
  · intro key x held
    rw [calls,List.length_set]
    rw [rows] at held
    exact sound.active key x (Store.commitHeld.mp held).1

section Pages
variable {s u : Store Key Row} {page page' : Page}

theorem pageOwns (sound : Sound w) (found : w.calls[index]? = some (.page page)) (active : ∀ c, page.pc ≠ .done c) :
    PageOwns w.rows index page ∧ PageSound w.rows index page page.pc := by
  have own := sound.calls index _ found
  simp only [CallSound] at own
  exact own

theorem soundPage {pc} (sound : Sound w) (found : w.calls[index]? = some (.page page))
    (calls : t.calls = w.calls.set index (.page {page' with pc := pc})) (drafts : w.rows.Drafts t.rows index)
    (ledger : t.ledger = w.ledger) (outbox : t.outbox = w.outbox) (active : ∀ c, pc ≠ .done c)
    (owns : PageOwns t.rows index page') (own : PageSound t.rows index page' pc) : Sound t ∧ archive t = archive w := by
  refine soundDraft sound found calls drafts ledger outbox ?_
  simp only [CallSound]
  refine ⟨⟨owns.stored,owns.posts,owns.sources,owns.identities,owns.revisions,owns.tombstones,owns.queued⟩,?_⟩
  cases pc <;> exact own

theorem soundFailPage (sound : Sound w) (found : w.calls[index]? = some (.page page)) :
    Sound (w.failPage index page') ∧ archive (w.failPage index page') = archive w :=
  soundDraft sound found rfl (Store.draftsAbort _ _) rfl rfl (Store.idleAbort _ _)

def tracked : Key → Bool
  | .post _ => true
  | .source _ => true
  | .identity _ => true
  | .revision _ _ => true
  | .tombstone _ => true
  | _ => false

/- What a statement of a page may write. -/
inductive Granted (s u : Store Key Row) (index : Nat) (stored : List String) : Key → Option Row → Prop where
  | untracked {key version} (other : tracked key = false) : Granted s u index stored key version
  | post {p row} : Granted s u index stored (.post p) (some (.post row))
  | source {key row} (member : key.2 ∈ stored) (kept : row.removedAt = none)
      (keyed : (row.accountId,row.postId) = key)
      (identity : Rows.identity (u.view index) row.socialSourceId = some key)
      (old : ∀ was, Rows.source s.committed key = some was → was.removedAt = none ∧
        was.socialSourceId = row.socialSourceId)
      (same : ∀ id, Drafts s index key id → row.socialSourceId = id) :
      Granted s u index stored (.source key) (some (.source row))
  | identity {key id} (absent : Rows.identity s.committed id = none) (draft : Drafts u index key id)
      (unheld : ∀ x, s.held (.identity id) = some x → x.owner ≠ index) :
      Granted s u index stored (.identity id) (some (.identity key))
  | revision {key id digest version} (draft : Drafts u index key id) :
      Granted s u index stored (.revision id digest) version

/- The statement writes rows that it may write, and stores and queues what it holds. -/
structure Writes (s u : Store Key Row) (index : Nat) (page page' : Page) : Prop where
  committed : u.committed = s.committed
  held : ∀ key, u.held key = s.held key ∨
    ∃ version, u.held key = some ⟨index,version⟩ ∧ Granted s u index page'.stored key version
  stored : ∀ p ∈ page.stored, p ∈ page'.stored
  new : ∀ p ∈ page'.stored, p ∈ page.stored ∨ ∃ version, u.held (.post p) = some ⟨index,version⟩
  queued : ∀ e ∈ page'.queued, e ∈ page.queued ∨
    removalOf e = none ∧ (tellsContent e → ∃ id key, sourceOf e = some id ∧ Drafts u index key id)

theorem Writes.drafts (writes : Writes s u index page page') {key id} (draft : Drafts s index key id) :
    Drafts u index key id := by
  obtain ⟨row,there,about⟩ := draft
  rcases writes.held (.source key) with same | ⟨version,there',granted⟩
  · exact ⟨row,same.trans there,about⟩
  · cases granted with
    | untracked other => cases other
    | source _ _ _ _ _ same => exact ⟨_,there',same id ⟨row,there,about⟩⟩

theorem Writes.identity (writes : Writes s u index page page') {key id}
    (sees : Rows.identity (s.view index) id = some key) : Rows.identity (u.view index) id = some key := by
  rcases writes.held (.identity id) with same | ⟨version,there,granted⟩
  · refine (identitySame ?_).trans sees
    simp only [Store.view,same,writes.committed]
  · cases granted with
    | untracked other => cases other
    | identity absent draft unheld =>
      rw [identitySame (Store.viewOther unheld),absent] at sees
      cases sees

theorem pageWrites (owns : PageOwns s index page) (writes : Writes s u index page page') : PageOwns u index page' := by
  refine ⟨?_,?_,?_,?_,?_,?_,?_⟩
  · intro p member
    rcases writes.new p member with old | ⟨version,there⟩
    · rcases writes.held (.post p) with same | ⟨version,there,_⟩
      · rw [same]
        exact owns.stored p old
      · exact ⟨_,there,rfl⟩
    · exact ⟨_,there,rfl⟩
  · intro p x there own
    rcases writes.held (.post p) with same | ⟨version,there',granted⟩
    · exact owns.posts p x (same.symm.trans there) own
    · rw [there] at there'
      cases Option.some.inj there'
      cases granted with
      | untracked other => cases other
      | post => exact ⟨_,rfl⟩
  · intro key x there own
    rw [writes.committed]
    rcases writes.held (.source key) with same | ⟨version,there',granted⟩
    · obtain ⟨member,row,version,kept,keyed,identity,old⟩ := owns.sources key x (same.symm.trans there) own
      exact ⟨writes.stored _ member,row,version,kept,keyed,writes.identity identity,old⟩
    · rw [there] at there'
      cases Option.some.inj there'
      cases granted with
      | untracked other => cases other
      | source member kept keyed identity old _ => exact ⟨member,_,rfl,kept,keyed,identity,old⟩
  · intro id x there own
    rw [writes.committed]
    rcases writes.held (.identity id) with same | ⟨version,there',granted⟩
    · obtain ⟨absent,key,version,draft⟩ := owns.identities id x (same.symm.trans there) own
      exact ⟨absent,key,version,writes.drafts draft⟩
    · rw [there] at there'
      cases Option.some.inj there'
      cases granted with
      | untracked other => cases other
      | identity absent draft _ => exact ⟨absent,_,rfl,draft⟩
  · intro id digest x there own
    rcases writes.held (.revision id digest) with same | ⟨version,there',granted⟩
    · obtain ⟨key,draft⟩ := owns.revisions id digest x (same.symm.trans there) own
      exact ⟨key,writes.drafts draft⟩
    · cases granted with
      | untracked other => cases other
      | revision draft => exact ⟨_,draft⟩
  · intro id x there own
    rcases writes.held (.tombstone id) with same | ⟨version,_,granted⟩
    · exact owns.tombstones id x (same.symm.trans there) own
    · cases granted with
      | untracked other => cases other
  · intro e member
    rcases writes.queued e member with old | new
    · obtain ⟨silent,tells⟩ := owns.queued e old
      refine ⟨silent,?_⟩
      intro content
      obtain ⟨id,key,about,draft⟩ := tells content
      exact ⟨id,key,about,writes.drafts draft⟩
    · exact new

theorem writesPut {key version} (granted : Granted s (s.put index key version) index page.stored key version) :
    Writes s (s.put index key version) index page page := by
  refine ⟨rfl,?_,fun _ member => member,fun _ member => .inl member,fun _ member => .inl member⟩
  intro k
  by_cases same : k = key
  · subst same
    exact .inr ⟨version,Store.putSelf ..,granted⟩
  · exact .inl (Store.putOther _ same)

theorem Writes.queue (writes : Writes s u index page page') {e} (silent : removalOf e = none)
    (tells : tellsContent e → ∃ id key, sourceOf e = some id ∧ Drafts u index key id) :
    Writes s u index page {page' with queued := page'.queued ++ [e]} := by
  refine ⟨writes.committed,writes.held,writes.stored,writes.new,?_⟩
  intro x member
  rcases List.mem_append.mp member with old | new
  · exact writes.queued x old
  · cases List.mem_singleton.mp new
    exact .inr ⟨silent,tells⟩

theorem writesSame : Writes s s index page page :=
  ⟨rfl,fun _ => .inl rfl,fun _ member => member,fun _ member => .inl member,fun _ member => .inl member⟩

theorem soundWrites {pc} (sound : Sound w) (found : w.calls[index]? = some (.page page)) (running : ∀ c, page.pc ≠ .done c)
    (calls : t.calls = w.calls.set index (.page {page' with pc := pc})) (drafts : w.rows.Drafts t.rows index)
    (ledger : t.ledger = w.ledger) (outbox : t.outbox = w.outbox) (active : ∀ c, pc ≠ .done c)
    (writes : Writes w.rows t.rows index page page') (own : PageSound t.rows index page' pc) :
    Sound t ∧ archive t = archive w :=
  soundPage sound found calls drafts ledger outbox active (pageWrites (pageOwns sound found running).1 writes) own

theorem soundUser {user rest} (sound : Sound w) (found : w.calls[index]? = some (.page page))
    (running : ∀ c, page.pc ≠ .done c) (taken : w.persistUser index page user rest = some t) :
    Sound t ∧ archive t = archive w := by
  unfold State.persistUser at taken
  split at taken
  · rename_i free
    cases Option.some.inj taken
    exact soundWrites sound found running rfl (Store.draftsPut free) rfl rfl (by simp) (writesPut (.untracked rfl)) trivial
  · simp at taken

theorem soundPost {post rest} (sound : Sound w) (found : w.calls[index]? = some (.page page))
    (running : ∀ c, page.pc ≠ .done c) (taken : w.persistPost index page post rest = some t) :
    Sound t ∧ archive t = archive w := by
  unfold State.persistPost at taken
  split at taken
  · split at taken
    · rename_i free
      cases Option.some.inj taken
      have writes : Writes w.rows (w.rows.put index (.post post.providerId) (some (.post post))) index page
          {page with stored := page.stored.insert post.providerId} := by
        refine ⟨rfl,?_,fun _ member => List.mem_insert_of_mem member,?_,fun _ member => .inl member⟩
        · intro key
          by_cases same : key = .post post.providerId
          · subst same
            exact .inr ⟨_,Store.putSelf ..,.post⟩
          · exact .inl (Store.putOther _ same)
        · intro p member
          rcases List.mem_insert_iff.mp member with rfl | old
          · exact .inr ⟨_,Store.putSelf ..⟩
          · exact .inl old
      exact soundWrites sound found running rfl (Store.draftsPut free) rfl rfl (by simp) writes trivial
    · simp at taken
  · cases Option.some.inj taken
    exact soundFailPage sound found

theorem soundLoad {post rest} (sound : Sound w) (found : w.calls[index]? = some (.page page))
    (pc : page.pc = .load post rest) :
    Sound (w.loadSource d index page post rest) ∧ archive (w.loadSource d index page post rest) = archive w := by
  have running : ∀ c, page.pc ≠ .done c := by simp [pc]
  have own := (pageOwns sound found running).2
  rw [pc] at own
  unfold State.loadSource
  split
  · exact soundFailPage sound found
  · rename_i loaded ok
    split
    · exact soundFailPage sound found
    · exact soundWrites sound found running rfl (Store.draftsSame ..) rfl rfl (by simp) writesSame own.2
    · rename_i r made
      obtain ⟨snapshot,chosen⟩ := revisionFor made
      rw [Books.loadedFrom ok] at chosen
      refine soundWrites sound found running rfl (Store.draftsSame ..) rfl rfl (by simp) writesSame
        ⟨own.1,own.2,snapshot,?_⟩
      unfold Chosen
      rcases chosen with ⟨fact,absent⟩ | ⟨fact,old⟩
      · rw [fact]
        exact absent
      · rw [fact]
        exact old

/- What the transaction sees of a source is its draft, or the committed row. -/
theorem sourceSeen {key row} (sees : Rows.source (s.view index) key = some row) :
    (∃ x, s.held (.source key) = some x ∧ x.owner = index ∧ x.version = some (.source row)) ∨
      (∀ x, s.held (.source key) = some x → x.owner ≠ index) ∧ Rows.source s.committed key = some row := by
  by_cases mine : ∃ x, s.held (.source key) = some x ∧ x.owner = index
  · obtain ⟨x,held,own⟩ := mine
    refine .inl ⟨x,held,own,?_⟩
    simp only [Rows.source,Store.viewHeld held own] at sees
    split at sees
    · rename_i row' version
      rw [version,Option.some.inj sees]
    · simp at sees
  · have unheld : ∀ x, s.held (.source key) = some x → x.owner ≠ index := fun x held own => mine ⟨x,held,own⟩
    refine .inr ⟨unheld,?_⟩
    rw [← sourceSame (Store.viewOther unheld)]
    exact sees

theorem sourceUnseen (owns : PageOwns s index page) {key} (sees : Rows.source (s.view index) key = none) :
    (∀ x, s.held (.source key) = some x → x.owner ≠ index) ∧ Rows.source s.committed key = none := by
  have unheld : ∀ x, s.held (.source key) = some x → x.owner ≠ index := by
    intro x held own
    obtain ⟨_,row,version,_⟩ := owns.sources key x held own
    simp [Rows.source,Store.viewHeld held own,version] at sees
  exact ⟨unheld,(sourceSame (Store.viewOther unheld)).symm.trans sees⟩

theorem seenFacts (shelved : Shelved (archive w)) (owns : PageOwns w.rows index page) {key row}
    (sees : Rows.source (w.rows.view index) key = some row) :
    (row.accountId,row.postId) = key ∧ Rows.identity (w.rows.view index) row.socialSourceId = some key ∧
      (row.removedAt = none → ∀ was, Rows.source w.rows.committed key = some was →
        was.removedAt = none ∧ was.socialSourceId = row.socialSourceId) ∧
      ∀ id, Drafts w.rows index key id → row.socialSourceId = id := by
  rcases sourceSeen sees with ⟨x,held,own,version⟩ | ⟨unheld,there⟩
  · obtain ⟨_,row',version',_,keyed,identity,old⟩ := owns.sources key x held own
    rw [version] at version'
    cases Option.some.inj version'
    refine ⟨keyed,identity,fun _ => old,?_⟩
    rintro id ⟨row',held',about⟩
    rw [held] at held'
    cases Option.some.inj held'
    cases Option.some.inj version
    exact about
  · have known := shelved.indexed key row there
    refine ⟨shelved.keyed key row there,?_,?_,?_⟩
    · rw [identitySame (Store.viewOther ?_)]
      · exact known
      · intro x held own
        have absent := (owns.identities _ x held own).1
        rw [show Rows.identity w.rows.committed row.socialSourceId = some key from known] at absent
        cases absent
    · intro kept was before
      rw [there] at before
      cases Option.some.inj before
      exact ⟨kept,rfl⟩
    · rintro id ⟨row',held,_⟩
      exact absurd rfl (unheld _ held)

theorem soundWriteSource {post rest r} (sound : Sound w) (found : w.calls[index]? = some (.page page))
    (pc : page.pc = .write post rest r) (taken : w.writeSource index page post rest r = some t) :
    Sound t ∧ archive t = archive w := by
  have running : ∀ c, page.pc ≠ .done c := by simp [pc]
  obtain ⟨owns,own⟩ := pageOwns sound found running
  rw [pc] at own
  obtain ⟨member,rest',snapshot,chosen⟩ := own
  unfold State.writeSource at taken
  unfold Chosen at chosen
  cases fact : r.fact with
  | updated =>
    simp only [fact] at taken chosen
    obtain ⟨old,there,kept,about⟩ := chosen
    obtain ⟨keyed,identity,before,drafted⟩ := seenFacts sound.shelved owns there
    rw [about] at identity before
    simp only [State.sees,identity,there] at taken
    split at taken
    · rename_i free
      cases Option.some.inj taken
      refine soundWrites sound found running rfl (Store.draftsPut free) rfl rfl (by simp) (writesPut ?_)
        ⟨rest',snapshot,(page.accountId,post),_,Store.putSelf ..,about⟩
      refine .source member kept keyed ?_ ?_ drafted
      · rw [identitySame (Store.viewPutOther _ (by simp))]
        exact about ▸ identity
      · intro was present
        exact about ▸ before kept was present
    · simp at taken
  | captured =>
    simp only [fact] at taken chosen
    split at taken
    · rename_i free
      split at taken
      · cases Option.some.inj taken
        exact soundFailPage sound found
      · rename_i new
        rw [not_or] at new
        cases Option.some.inj taken
        obtain ⟨unheld,absent⟩ := sourceUnseen owns chosen
        have unknown : Rows.identity (w.rows.view index) r.sourceId = none := Option.not_isSome_iff_eq_none.mp new.2
        have fresh : ∀ x, w.rows.held (.identity r.sourceId) = some x → x.owner ≠ index := by
          intro x held own
          obtain ⟨_,key,version,_⟩ := owns.identities _ x held own
          simp [Rows.identity,Store.viewHeld held own,version] at unknown
        have unindexed : Rows.identity w.rows.committed r.sourceId = none :=
          (identitySame (Store.viewOther fresh)).symm.trans unknown
        have free' : (w.rows.put index (.source (page.accountId,post)) (some (.source
            ⟨page.accountId,post,r.sourceId,r.digest,page.capturedAt,none⟩))).Free index (.identity r.sourceId) := by
          intro x held
          exact free.2 x ((Store.putOther _ (by simp)).symm.trans held)
        have draft : Drafts ((w.rows.put index (.source (page.accountId,post)) (some (.source
            ⟨page.accountId,post,r.sourceId,r.digest,page.capturedAt,none⟩))).put index (.identity r.sourceId)
            (some (.identity (page.accountId,post)))) index (page.accountId,post) r.sourceId :=
          ⟨_,(Store.putOther _ (by simp)).trans (Store.putSelf ..),rfl⟩
        have writes : Writes w.rows ((w.rows.put index (.source (page.accountId,post)) (some (.source
            ⟨page.accountId,post,r.sourceId,r.digest,page.capturedAt,none⟩))).put index (.identity r.sourceId)
            (some (.identity (page.accountId,post)))) index page page := by
          refine ⟨rfl,?_,fun _ stored => stored,fun _ stored => .inl stored,fun _ queued => .inl queued⟩
          intro key
          by_cases indexed : key = .identity r.sourceId
          · subst indexed
            exact .inr ⟨_,Store.putSelf ..,.identity unindexed draft fresh⟩
          · by_cases inserted : key = .source (page.accountId,post)
            · subst inserted
              refine .inr ⟨_,(Store.putOther _ indexed).trans (Store.putSelf ..),.source member rfl rfl ?_ ?_ ?_⟩
              · exact identitySeen (Store.viewHeld (Store.putSelf ..) rfl)
              · intro was there
                rw [absent] at there
                cases there
              · rintro id ⟨row,held,_⟩
                exact absurd rfl (unheld _ held)
            · exact .inl ((Store.putOther _ indexed).trans (Store.putOther _ inserted))
        exact soundWrites sound found running rfl
          (Store.draftsTrans (Store.draftsPut free.1) (Store.draftsPut free')) rfl rfl (by simp) writes
          ⟨rest',snapshot,_,draft⟩
    · simp at taken

theorem soundRevision {rest r} (sound : Sound w) (found : w.calls[index]? = some (.page page))
    (pc : page.pc = .revise rest r) (taken : w.insertRevision index page rest r = some t) :
    Sound t ∧ archive t = archive w := by
  have running : ∀ c, page.pc ≠ .done c := by simp [pc]
  have own := (pageOwns sound found running).2
  rw [pc] at own
  obtain ⟨rest',snapshot,key,draft⟩ := own
  unfold State.insertRevision at taken
  split at taken
  · rename_i free
    split at taken
    · cases Option.some.inj taken
      exact soundFailPage sound found
    · cases Option.some.inj taken
      have draft' : Drafts (w.rows.put index (.revision r.sourceId r.digest) (some (.revision page.capturedAt))) index key
          r.sourceId := by
        obtain ⟨row,held,about⟩ := draft
        exact ⟨row,(Store.putOther _ (by simp)).trans held,about⟩
      have about : sourceOf (sourceEvent w.minted r.owner r.fact r.snapshot) = some r.sourceId := by
        rw [← snapshot]
        cases r.fact <;> rfl
      have silent : removalOf (sourceEvent w.minted r.owner r.fact r.snapshot) = none := by
        cases r.fact <;> rfl
      exact soundWrites sound found running rfl (Store.draftsPut free) rfl rfl (by simp)
        ((writesPut (.revision draft')).queue silent (fun _ => ⟨_,key,about,draft'⟩)) rest'
  · simp at taken

theorem soundSelectLink {rest r urls} (sound : Sound w) (found : w.calls[index]? = some (.page page))
    (pc : page.pc = .select rest r urls) :
    Sound (w.selectLink d index page rest r urls) ∧ archive (w.selectLink d index page rest r urls) = archive w := by
  have running : ∀ c, page.pc ≠ .done c := by simp [pc]
  have own := (pageOwns sound found running).2
  rw [pc] at own
  unfold State.selectLink
  split
  · exact soundWrites sound found running rfl (Store.draftsSame ..) rfl rfl (by simp) writesSame own
  · split
    · exact soundWrites sound found running rfl (Store.draftsSame ..) rfl rfl (by simp) writesSame own
    · exact soundWrites sound found running rfl (Store.draftsSame ..) rfl rfl (by simp) writesSame own

theorem soundInsertCapture {rest r url seen urls} (sound : Sound w) (found : w.calls[index]? = some (.page page))
    (pc : page.pc = .insert rest r url seen urls) (taken : w.insertCapture index page rest r url seen urls = some t) :
    Sound t ∧ archive t = archive w := by
  have running : ∀ c, page.pc ≠ .done c := by simp [pc]
  have own := (pageOwns sound found running).2
  rw [pc] at own
  unfold State.insertCapture at taken
  split at taken
  · rename_i free
    split at taken
    · cases Option.some.inj taken
      exact soundWrites sound found running rfl (Store.draftsSame ..) rfl rfl (by simp) writesSame own
    · cases Option.some.inj taken
      exact soundFailPage sound found
    · cases Option.some.inj taken
      exact soundWrites sound found running rfl (Store.draftsPut free) rfl rfl (by simp) (writesPut (.untracked rfl)) own
  · simp at taken

theorem soundLinkCapture {rest r url captureId created urls} (sound : Sound w)
    (found : w.calls[index]? = some (.page page)) (pc : page.pc = .link rest r url captureId created urls)
    (taken : w.linkCapture index page rest r url captureId created urls = some t) : Sound t ∧ archive t = archive w := by
  have running : ∀ c, page.pc ≠ .done c := by simp [pc]
  have own := (pageOwns sound found running).2
  rw [pc] at own
  unfold State.linkCapture at taken
  split at taken
  · rename_i free
    have silent : removalOf (articleCommand w.minted r.owner r.sourceId captureId url) = none := rfl
    by_cases there : (w.sees index (.link r.sourceId captureId)).isSome
    · simp only [if_pos there] at taken
      split at taken
      · cases Option.some.inj taken
        exact soundWrites sound found running rfl (Store.draftsSame ..) rfl rfl (by simp)
          (writesSame.queue silent (by simp [tellsContent,articleCommand])) own
      · cases Option.some.inj taken
        exact soundWrites sound found running rfl (Store.draftsSame ..) rfl rfl (by simp) writesSame own
    · simp only [if_neg there] at taken
      split at taken
      · cases Option.some.inj taken
        exact soundWrites sound found running rfl (Store.draftsPut free) rfl rfl (by simp)
          ((writesPut (.untracked rfl)).queue silent (by simp [tellsContent,articleCommand])) own
      · cases Option.some.inj taken
        exact soundWrites sound found running rfl (Store.draftsPut free) rfl rfl (by simp) (writesPut (.untracked rfl)) own
  · simp at taken

theorem pageStaged (owns : PageOwns w.rows index page) (rows : t.rows = w.rows.commit index)
    (ledger : t.ledger = w.ledger) (outbox : t.outbox = w.outbox ++ page.queued) : Staged (archive w) (archive t) := by
  have seen : (archive t).rows = w.rows.view index := by simp only [archive,State.archived,rows]; rfl
  have touched : ∀ {key id}, Drafts w.rows index key id → Touched (archive w).rows (archive t).rows id := by
    rintro key id ⟨row,held,about⟩
    obtain ⟨_,row',version,kept,_,_,old⟩ := owns.sources key _ held rfl
    cases Option.some.inj version
    refine ⟨key,row,?_,about,kept,fun was there => (old was there).1⟩
    rw [seen]
    simp only [Rows.source,Store.viewHeld held rfl]
  refine ⟨ledger,?_,?_,?_,?_,?_,page.queued,outbox,?_⟩
  · intro key
    rw [seen]
    by_cases mine : ∃ x, w.rows.held (.source key) = some x ∧ x.owner = index
    · obtain ⟨x,held,own⟩ := mine
      obtain ⟨_,row,version,kept,keyed,identity,old⟩ := owns.sources key x held own
      refine .inr ⟨row,?_,kept,keyed,identity,old⟩
      simp only [Rows.source,Store.viewHeld held own,version]
    · exact .inl (sourceSame (Store.viewOther (fun x held own => mine ⟨x,held,own⟩)))
  · intro id
    rw [seen]
    by_cases mine : ∃ x, w.rows.held (.identity id) = some x ∧ x.owner = index
    · obtain ⟨x,held,own⟩ := mine
      obtain ⟨absent,key,version,row,there,about⟩ := owns.identities id x held own
      refine .inr ⟨absent,key,row,?_,?_,about⟩
      · exact identitySeen ((Store.viewHeld held own).trans version)
      · simp only [Rows.source,Store.viewHeld there rfl]
    · exact .inl (identitySame (Store.viewOther (fun x held own => mine ⟨x,held,own⟩)))
  · intro id
    rw [seen]
    simp only [Rows.tombstone,Store.viewOther (owns.tombstones id)]
    rfl
  · intro id digest
    by_cases mine : ∃ x, w.rows.held (.revision id digest) = some x ∧ x.owner = index
    · obtain ⟨x,held,own⟩ := mine
      obtain ⟨key,draft⟩ := owns.revisions id digest x held own
      exact .inr (touched draft)
    · refine .inl ?_
      rw [seen]
      simp only [Rows.revision]
      rw [Store.viewOther (fun x held own => mine ⟨x,held,own⟩)]
      rfl
  · intro p there
    rw [seen]
    by_cases mine : ∃ x, w.rows.held (.post p) = some x ∧ x.owner = index
    · obtain ⟨x,held,own⟩ := mine
      obtain ⟨row,version⟩ := owns.posts p x held own
      simp only [Rows.post,Store.viewHeld held own,version,Option.isSome_some]
    · rw [postSame (Store.viewOther (fun x held own => mine ⟨x,held,own⟩))]
      exact there
  · intro e member
    obtain ⟨silent,tells⟩ := owns.queued e member
    refine ⟨silent,?_⟩
    intro content
    obtain ⟨id,key,about,draft⟩ := tells content
    exact ⟨id,about,touched draft⟩

theorem soundStagePage {reply} (sound : Sound w) (found : w.calls[index]? = some (.page page))
    (taken : w.stagePage d index page reply = some t) :
    Sound t ∧ (archive t = archive w ∨ Staged (archive w) (archive t)) := by
  have still : Sound t ∧ archive t = archive w → Sound t ∧ (archive t = archive w ∨ Staged (archive w) (archive t)) :=
    fun kept => ⟨kept.1,.inl kept.2⟩
  have committed : page.pc = .publish [] → ∀ c, t = (w.commit index [] page.queued).turn index page (.done c) →
      Sound t ∧ (archive t = archive w ∨ Staged (archive w) (archive t)) := by
    rintro pc c rfl
    have owns := (pageOwns sound found (by simp [pc])).1
    have staged : Staged (archive w) (archive ((w.commit index [] page.queued).turn index page (.done c))) :=
      pageStaged owns rfl (List.append_nil _) rfl
    exact ⟨soundCommit sound found rfl rfl (.staged staged) (Store.idleCommit _ _),.inr staged⟩
  unfold State.stagePage at taken
  split at taken
  · simp at taken
  · cases Option.some.inj taken
    exact still (soundFailPage sound found)
  · rename_i pc
    cases Option.some.inj taken
    exact still (soundWrites sound found (by simp [pc]) rfl (Store.draftsSame ..) rfl rfl (by simp) writesSame trivial)
  · rename_i pc
    exact still (soundUser sound found (by simp [pc]) taken)
  · rename_i pc
    split at taken
    · rename_i same
      cases Option.some.inj taken
      exact still (soundWrites sound found (by simp [pc]) rfl (Store.draftsSame ..) rfl rfl (by simp) writesSame
        (fun p member => same.subset member))
    · simp at taken
  · rename_i pc
    exact still (soundPost sound found (by simp [pc]) taken)
  · rename_i pc
    exact committed pc true (Option.some.inj taken).symm
  · rename_i pc
    exact committed pc false (Option.some.inj taken).symm
  · rename_i post rest pc
    have own := (pageOwns sound found (by simp [pc])).2
    rw [pc] at own
    simp only at taken
    split at taken
    · rename_i free
      cases Option.some.inj taken
      exact still (soundWrites sound found (by simp [pc]) rfl (Store.draftsPut free) rfl rfl (by simp)
        (writesPut (.untracked rfl)) ⟨own _ List.mem_cons_self,fun p member => own p (List.mem_cons_of_mem _ member)⟩)
    · simp at taken
  · rename_i pc
    cases Option.some.inj taken
    exact still (soundLoad sound found pc)
  · rename_i pc
    exact still (soundWriteSource sound found pc taken)
  · rename_i pc
    exact still (soundRevision sound found pc taken)
  · rename_i pc
    cases Option.some.inj taken
    exact still (soundSelectLink sound found pc)
  · rename_i pc
    exact still (soundInsertCapture sound found pc taken)
  · rename_i pc
    exact still (soundLinkCapture sound found pc taken)
  · simp at taken

end Pages

section Runs
variable {run : RunDue}

theorem runOwns (sound : Sound w) (found : w.calls[index]? = some (.run run)) :
    (∀ candidate ∈ run.rest, Known w.rows.committed run.accountId candidate) ∧
      RunSound w.rows index run.accountId run.pc :=
  sound.calls index _ found

theorem soundAt {pc} (sound : Sound w) (found : w.calls[index]? = some (.run run))
    (calls : t.calls = w.calls.set index (.run {run with pc := pc})) (drafts : w.rows.Drafts t.rows index)
    (ledger : t.ledger = w.ledger) (outbox : t.outbox = w.outbox) (own : RunSound t.rows index run.accountId pc) :
    Sound t ∧ archive t = archive w := by
  refine soundDraft sound found calls drafts ledger outbox ⟨?_,own⟩
  rw [drafts.1]
  exact (runOwns sound found).1

theorem soundFailRun (sound : Sound w) (found : w.calls[index]? = some (.run run)) :
    Sound (w.failRun index run) ∧ archive (w.failRun index run) = archive w :=
  soundAt sound found rfl (Store.draftsAbort _ _) rfl rfl (Store.idleAbort _ _)

theorem nextSound {s : Store Key Row} (w : State) (run : RunDue) (summary) (idle : s.Idle index)
    (known : ∀ candidate ∈ run.rest, Known s.committed run.accountId candidate) :
    ∃ call, w.next index run summary = w.set index call ∧ CallSound s index call := by
  unfold State.next
  split
  · rename_i empty
    exact ⟨_,rfl,known,idle⟩
  · rename_i candidate rest more
    rw [more] at known
    exact ⟨_,rfl,fun other member => known other (List.mem_cons_of_mem _ member),known candidate List.mem_cons_self,idle⟩

theorem candidateKnown {accountId dueBefore id found} (shelved : Shelved (archive w))
    (due : w.candidate accountId dueBefore id = some found) : Known w.rows.committed accountId found.2 := by
  simp only [State.candidate,Option.bind_eq_bind,Option.bind_eq_some_iff] at due
  obtain ⟨key,indexed,row,stands,owner,_,due⟩ := due
  split at due
  · rename_i chosen
    cases Option.some.inj due
    obtain ⟨row',there,about⟩ := shelved.placed id key indexed
    rw [show (archive w).rows.source key = some row from stands] at there
    cases Option.some.inj there
    refine ⟨?_,chosen.2.1⟩
    rw [← chosen.1,shelved.keyed key row stands]
    exact shelved.indexed key row stands
  · simp at due

theorem candidatesKnown {accountId dueBefore maxItems} (shelved : Shelved (archive w)) :
    ∀ candidate ∈ w.candidates accountId dueBefore maxItems, Known w.rows.committed accountId candidate := by
  intro candidate member
  obtain ⟨found,taken,rfl⟩ := List.mem_map.mp member
  have sorted := List.mem_of_mem_take taken
  rw [List.mem_insertionSort] at sorted
  obtain ⟨id,_,due⟩ := List.mem_filterMap.mp sorted
  exact candidateKnown shelved due

/- The statements of record_result before its commit. -/
theorem soundRecord {candidate evidence checkedAt stage} (sound : Sound w)
    (found : w.calls[index]? = some (.run run)) (pc : run.pc = .record candidate evidence checkedAt stage)
    (open_ : ∀ entry queued, stage ≠ .commit entry queued)
    (taken : w.recordResult index run candidate evidence checkedAt stage = some t) :
    Sound t ∧ archive t = archive w := by
  have own := (runOwns sound found).2
  rw [pc] at own
  obtain ⟨known,wellFormed,record⟩ := own
  cases stage with
  | ledger =>
    simp only [State.recordResult] at taken
    split at taken
    · rename_i seen saw
      cases Option.some.inj taken
      exact soundAt sound found rfl (Store.draftsSame ..) rfl rfl ⟨known,wellFormed,saw,record,_,rfl⟩
    · rename_i unseen
      cases Option.some.inj taken
      exact soundAt sound found rfl (Store.draftsSame ..) rfl rfl
        ⟨known,wellFormed,_,[],rfl,Store.exactlyNil.mpr record,.indeterminate unseen⟩
  | availability entry seen =>
    obtain ⟨saw,idle,id,made⟩ := record
    simp only [State.recordResult] at taken
    split at taken
    · rename_i free
      obtain ⟨post,there⟩ := Option.isSome_iff_exists.mp known.2
      have seenPost : Rows.post (w.rows.view index) candidate.post = some post :=
        (postSame (Store.idleView idle _)).trans there
      simp only [State.sees,seenPost] at taken
      cases Option.some.inj taken
      have exactly : (w.rows.put index (.post candidate.post) (some (.post
          {post with availability := postAvailability seen}))).Exactly index [postDraft candidate seen post] :=
        Store.exactlyPut (Store.exactlyNil.mpr idle) (by simp)
      refine soundAt sound found rfl (Store.draftsPut free) rfl rfl ⟨known,wellFormed,?_⟩
      by_cases available : seen = .available
      · rw [if_pos available]
        exact ⟨id,_,made,exactly,.seen saw there⟩
      · rw [if_neg available]
        exact ⟨saw,available,⟨id,made⟩,post,there,exactly⟩
    · simp at taken
  | remove entry seen =>
    obtain ⟨saw,gone,⟨id,made⟩,post,there,exactly⟩ := record
    have still : ∀ k, k ≠ .post candidate.post → w.rows.view index k = w.rows.committed k := by
      intro k other
      refine Store.viewOther ?_
      intro x held own
      have member := exactly.2 k x held own
      simp only [List.map_cons,List.map_nil,postDraft,List.mem_singleton] at member
      exact other member
    -- Without a removal, the result is the availability of the post.
    have kept : ∀ t, t = w.at_ index run (.record candidate evidence checkedAt (.commit entry [])) →
        Sound t ∧ archive t = archive w := by
      rintro t rfl
      exact soundAt sound found rfl (Store.draftsSame ..) rfl rfl
        ⟨known,wellFormed,id,_,made,exactly,.seen saw there⟩
    have indexed : Rows.identity (w.rows.view index) candidate.source = some (run.accountId,candidate.post) :=
      (identitySame (still _ (by simp))).trans known.1
    simp only [State.recordResult,State.sees,indexed] at taken
    split at taken
    · rename_i free
      split at taken
      · exact kept _ (Option.some.inj taken).symm
      · rename_i row sees
        split at taken
        · rename_i unremoved
          cases Option.some.inj taken
          have stands : Rows.source w.rows.committed (run.accountId,candidate.post) = some row :=
            (sourceSame (still _ (by simp))).symm.trans sees
          obtain ⟨row',present,same⟩ := sound.shelved.placed _ _ known.1
          rw [show (archive w).rows.source (run.accountId,candidate.post) = some row from stands] at present
          cases Option.some.inj present
          exact soundAt sound found rfl (Store.draftsPut free) rfl rfl
            ⟨known,wellFormed,saw,gone,⟨id,made⟩,post,_,row,there,stands,same,unremoved.2,rfl,
              Store.exactlyPut exactly (by simp [postDraft])⟩
        · exact kept _ (Option.some.inj taken).symm
    · simp at taken
  | tombstone entry seen =>
    obtain ⟨saw,gone,⟨id,made⟩,post,key,row,there,stands,same,unremoved,at_,exactly⟩ := record
    simp only [State.recordResult] at taken
    split at taken
    · rename_i free
      split at taken
      · cases Option.some.inj taken
        exact soundFailRun sound found
      · cases Option.some.inj taken
        have entryId : entry.id = id := by rw [made]; rfl
        refine soundAt sound found rfl (Store.draftsPut free) rfl rfl
          ⟨known,wellFormed,id,_,made,Store.exactlyPut exactly (by simp [sourceDraft,postDraft]),?_⟩
        rw [entryId]
        exact .takenDown saw gone there stands same unremoved at_
    · simp at taken
  | commit entry queued => exact absurd rfl (open_ entry queued)

/- A commit of record_result, acknowledged or not. -/
theorem soundResult {candidate evidence checkedAt entry queued} (call') (sound : Sound w)
    (found : w.calls[index]? = some (.run run))
    (pc : run.pc = .record candidate evidence checkedAt (.commit entry queued))
    (own : CallSound (w.rows.commit index) index call') (made : t = (w.commit index [entry] queued).set index call') :
    Sound t ∧ Recorded (archive w) run.accountId candidate evidence checkedAt (archive t) := by
  have record := (runOwns sound found).2
  rw [pc] at record
  obtain ⟨_,wellFormed,id,drafts,entered,exactly,settles⟩ := record
  have recorded : Recorded (archive w) run.accountId candidate evidence checkedAt (archive t) := by
    refine ⟨id,drafts,queued,settles,?_⟩
    rw [made,entered]
    simp only [archive,State.archived,State.commit,State.set,Store.commitCommitted,Store.exactlyView exactly]
  exact ⟨soundCommit sound found (by rw [made]; rfl) (by rw [made]; rfl) (.recorded wellFormed recorded)
    (by rw [made]; exact own),recorded⟩

theorem knownCommit {candidate evidence checkedAt entry queued} (sound : Sound w)
    (found : w.calls[index]? = some (.run run))
    (pc : run.pc = .record candidate evidence checkedAt (.commit entry queued)) :
    ∀ other ∈ run.rest, Known (w.rows.commit index).committed run.accountId other := by
  have owned := runOwns sound found
  rw [pc] at owned
  obtain ⟨known,_,_,_,_,_,exactly,settles⟩ := owned
  obtain ⟨identities,_,posts⟩ := settlesFrame settles
  intro other member
  obtain ⟨indexed,there⟩ := known other member
  rw [Store.commitCommitted,Store.exactlyView exactly]
  exact ⟨(identities _).trans indexed,posts _ there⟩

theorem soundRunDue {reply} (sound : Sound w) (found : w.calls[index]? = some (.run run))
    (taken : w.runDue index run reply = some t) :
    Sound t ∧ (archive t = archive w ∨ ∃ candidate evidence checkedAt entry queued,
      run.pc = .record candidate evidence checkedAt (.commit entry queued) ∧
        Recorded (archive w) run.accountId candidate evidence checkedAt (archive t)) := by
  have still : Sound t ∧ archive t = archive w → Sound t ∧ (archive t = archive w ∨
      ∃ candidate evidence checkedAt entry queued, run.pc = .record candidate evidence checkedAt (.commit entry queued) ∧
        Recorded (archive w) run.accountId candidate evidence checkedAt (archive t)) :=
    fun kept => ⟨kept.1,.inl kept.2⟩
  have own := (runOwns sound found).2
  unfold State.runDue at taken
  split at taken
  · split at taken
    · simp at taken
    · cases Option.some.inj taken
      exact still (soundFailRun sound found)
  · split at taken
    · rename_i pc
      have knows := knownCommit sound found pc
      cases Option.some.inj taken
      obtain ⟨sound',recorded⟩ := soundResult (.run {run with pc := .done none}) sound found pc
        ⟨knows,Store.idleCommit _ _⟩ rfl
      exact ⟨sound',.inr ⟨_,_,_,_,_,pc,recorded⟩⟩
    · simp at taken
  · split at taken
    · rename_i pc
      rw [pc] at own
      cases Option.some.inj taken
      exact still (soundAt sound found rfl (Store.draftsSame ..) rfl rfl own.2)
    · simp at taken
  · split at taken
    · rename_i result checkedAt pc
      rw [pc] at own
      cases Option.some.inj taken
      exact still (soundAt sound found rfl (Store.draftsSame ..) rfl rfl ⟨own.1,⟨_,rfl⟩,own.2⟩)
    · simp at taken
  · simp at taken
  · split at taken
    · rename_i pc
      rw [pc] at own
      obtain ⟨call,next,sounds⟩ := nextSound w {run with rest := w.candidates run.accountId _ _} run.summary own
        (candidatesKnown sound.shelved)
      rw [next] at taken
      cases Option.some.inj taken
      exact still (soundDraft sound found rfl (Store.draftsSame ..) rfl rfl sounds)
    · rename_i pc
      rw [pc] at own
      cases Option.some.inj taken
      exact still (soundAt sound found rfl (Store.draftsSame ..) rfl rfl own)
    · rename_i candidate evidence checkedAt stage pc
      by_cases open_ : ∀ entry queued, stage ≠ .commit entry queued
      · exact still (soundRecord sound found pc open_ taken)
      · push Not at open_
        obtain ⟨entry,queued,rfl⟩ := open_
        simp only [State.recordResult] at taken
        obtain ⟨call,next,sounds⟩ := nextSound (w.commit index [entry] queued) run
          {run.summary with
            checked := run.summary.checked + 1, takedowns := run.summary.takedowns + if queued = [] then 0 else 1}
          (Store.idleCommit w.rows index) (knownCommit sound found pc)
        rw [next] at taken
        obtain ⟨sound',recorded⟩ := soundResult call sound found pc sounds (Option.some.inj taken).symm
        exact ⟨sound',.inr ⟨_,_,_,_,_,pc,recorded⟩⟩
    · simp at taken

end Runs

theorem soundOpen {call : Call} (sound : Sound w) (own : w.rows.Idle w.calls.length → CallSound w.rows w.calls.length call) :
    Sound {w with calls := w.calls ++ [call]} := by
  have idle : w.rows.Idle w.calls.length := by
    rintro key x held same
    exact absurd (sound.active key x held) (by omega)
  refine ⟨?_,?_,sound.shelved⟩
  · intro j other there
    rcases lt_or_ge j w.calls.length with old | fresh
    · rw [List.getElem?_append_left old] at there
      exact sound.calls j other there
    · rw [List.getElem?_append_right fresh] at there
      obtain ⟨zero,rfl⟩ := List.getElem?_eq_some_iff.mp there
      have last : j = w.calls.length := by simp at zero; omega
      subst last
      simpa using own idle
  · intro key x held
    have before := sound.active key x held
    simp only [List.length_append,List.length_singleton]
    omega

theorem soundStep {a} (sound : Sound w) (taken : w.step d a = some t) :
    Sound t ∧ (archive t = archive w ∨ Staged (archive w) (archive t) ∨
      ∃ run candidate evidence checkedAt entry queued,
        run.pc = .record candidate evidence checkedAt (.commit entry queued) ∧
        (∃ index : Nat, w.calls[index]? = some (.run run)) ∧
        Recorded (archive w) run.accountId candidate evidence checkedAt (archive t)) := by
  cases a with
  | stage accountId capturedAt users posts =>
    cases Option.some.inj taken
    refine ⟨soundOpen sound ?_,.inl rfl⟩
    intro idle
    refine ⟨⟨?_,?_,?_,?_,?_,?_,?_⟩,trivial⟩
    · intro p member
      cases member
    · exact fun p x held own => absurd own (idle _ x held)
    · exact fun key x held own => absurd own (idle _ x held)
    · exact fun id x held own => absurd own (idle _ x held)
    · exact fun id digest x held own => absurd own (idle _ x held)
    · exact fun id x held => idle _ x held
    · intro e member
      cases member
  | launch accountId dueBefore maxItems =>
    cases Option.some.inj taken
    refine ⟨soundOpen sound ?_,.inl rfl⟩
    intro idle
    exact ⟨fun candidate member => absurd member List.not_mem_nil,idle⟩
  | advance index reply =>
    simp only [State.step] at taken
    split at taken
    · rename_i page found
      obtain ⟨sound',same | staged⟩ := soundStagePage sound found taken
      · exact ⟨sound',.inl same⟩
      · exact ⟨sound',.inr (.inl staged)⟩
    · rename_i run found
      obtain ⟨sound',same | ⟨candidate,evidence,checkedAt,entry,queued,pc,recorded⟩⟩ := soundRunDue sound found taken
      · exact ⟨sound',.inl same⟩
      · exact ⟨sound',.inr (.inr ⟨run,candidate,evidence,checkedAt,entry,queued,pc,⟨index,found⟩,recorded⟩)⟩
    · simp at taken

end Steps
end RatatoskrX.LibrarySteps
