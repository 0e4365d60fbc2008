import RatatoskrX.ArticleSteps

/-! Reports of the extractor against the captures they are for. A capture is completed by the
one report that still found it requested, in the transaction that claimed its event; later
reports, redelivered or distinct, leave its document alone. -/
namespace RatatoskrX.ArticleReports
open Schema Writeback Envelopes SocialSources ReadCommitted Transition Library Articles ArticleMoves ArticleLinks
  ArticleSteps

section Moves
variable {d : Shared} {w v : World} {index : Nat} {call : ReportCall} {reply : ReportReply}

/- What a statement of consume_extractor_operation_report can do. -/
inductive Consumed (w : World) (index : Nat) (call : ReportCall) : World → Prop where
  | failed (open_ : ∀ end_, call.pc ≠ .done end_) : Consumed w index call ((w.rollback index).move index call (.done .query))
  | refused {outcome} (pc : call.pc = .lookup outcome) :
      Consumed w index call ((w.rollback index).move index call (.done (.refused none)))
  | found {outcome captureId owner} (pc : call.pc = .lookup outcome)
      (known : findCapture w.library outcome.correlationId = some (captureId,owner))
      (belongs : outcome.belongsTo captureId owner = true) :
      Consumed w index call (w.move index call (.claim outcome captureId))
  | duplicate {outcome captureId} (pc : call.pc = .claim outcome captureId)
      (free : w.inbox.Free index outcome.eventId) (there : (w.inbox.view index outcome.eventId).isSome) :
      Consumed w index call (w.move index call (.commit (.duplicate captureId)))
  | claimed {outcome captureId} (pc : call.pc = .claim outcome captureId) (free : w.inbox.Free index outcome.eventId) :
      Consumed w index call
        ({w with inbox := w.inbox.put index outcome.eventId (some ())}.move index call (.complete outcome captureId))
  | already {outcome captureId completion} (pc : call.pc = .complete outcome captureId)
      (free : w.outcomes.Free index captureId) (there : w.outcomes.view index captureId = some completion) :
      Consumed w index call ((w.rollback index).move index call (.done (.refused (some captureId))))
  | completed {outcome captureId} (pc : call.pc = .complete outcome captureId) (free : w.outcomes.Free index captureId)
      (absent : w.outcomes.view index captureId = none) : Consumed w index call
        ({w with outcomes := w.outcomes.put index captureId (some outcome.completion)}.move index call
          (.commit (.completed captureId)))
  | committed {end_ end'} (pc : call.pc = .commit end_) (answers : end' = end_ ∨ end' = .query) :
      Consumed w index call ((w.commit index).move index call (.done end'))

theorem consumeCases (taken : w.consume index call reply = some v) : Consumed w index call v := by
  unfold World.consume at taken
  split at taken
  · simp at taken
  · rename_i open_
    cases Option.some.inj taken
    exact .failed (fun end_ pc => open_ end_ pc)
  · rename_i pc
    split at taken
    · cases Option.some.inj taken
      exact .refused pc
    · rename_i known
      split at taken
      · rename_i belongs
        cases Option.some.inj taken
        exact .found pc known belongs
      · cases Option.some.inj taken
        exact .refused pc
  · rename_i pc
    split at taken
    · rename_i free
      split at taken
      · rename_i there
        cases Option.some.inj taken
        exact .duplicate pc free there
      · cases Option.some.inj taken
        exact .claimed pc free
    · simp at taken
  · rename_i pc
    split at taken
    · rename_i free
      split at taken
      · rename_i there
        cases Option.some.inj taken
        exact .already pc free there
      · rename_i absent
        cases Option.some.inj taken
        exact .completed pc free absent
    · simp at taken
  · rename_i pc
    cases Option.some.inj taken
    exact .committed pc (.inl rfl)
  · rename_i pc
    cases Option.some.inj taken
    exact .committed pc (.inr rfl)
  · simp at taken

end Moves

section Facts
variable (d : Shared)

/- The outcome is the report of this capture, for its owner and its operation. -/
def ValidFor (library : State) (outcome : ExtractorOutcome) (captureId : Uuid) : Prop :=
  ∃ a u c owner, library.archived (.capture a u) = some (.capture c) ∧ c.id = captureId ∧
    library.accounts c.accountId = some owner ∧ correlationOf captureId = outcome.correlationId ∧
    outcome.belongsTo captureId owner = true

def Decoded (call : ReportCall) (outcome : ExtractorOutcome) : Prop :=
  decodeExtractorOutcome d.parse call.serialized = some outcome

def ReportStage (w : World) (index : Nat) (call : ReportCall) : ReportPc → Prop
  | .lookup outcome => Decoded d call outcome
  | .claim outcome captureId => Decoded d call outcome ∧ ValidFor w.library outcome captureId
  | .complete outcome captureId => Decoded d call outcome ∧ ValidFor w.library outcome captureId
  | .commit (.completed captureId) => ∃ outcome, Decoded d call outcome ∧ ValidFor w.library outcome captureId ∧
      w.outcomes.held captureId = some ⟨index,some outcome.completion⟩
  | .commit (.duplicate captureId) => ∃ outcome, Decoded d call outcome ∧ ValidFor w.library outcome captureId ∧
      (w.inbox.committed outcome.eventId).isSome
  | .commit _ => False
  | .done (.completed captureId) => ∃ outcome, Decoded d call outcome ∧ ValidFor w.library outcome captureId ∧
      w.outcomes.committed captureId = some outcome.completion
  | .done (.duplicate captureId) => ∃ outcome, Decoded d call outcome ∧ ValidFor w.library outcome captureId ∧
      (w.inbox.committed outcome.eventId).isSome
  | .done (.refused (some captureId)) => ∃ outcome, Decoded d call outcome ∧ ValidFor w.library outcome captureId ∧
      (w.outcomes.committed captureId).isSome
  | .done _ => True

/- The outcomes and the claimed events, over the events that other consumers recorded. -/
structure ReportsSound (elsewhere : String → Prop) (w : World) : Prop where
  calls : ∀ (index : Nat) call, w.reports[index]? = some call → ReportStage d w index call call.pc
  drafts : ∀ captureId x, w.outcomes.held captureId = some x → w.outcomes.committed captureId = none ∧
    ∃ call, w.reports[x.owner]? = some call ∧ call.pc = .commit (.completed captureId)
  claims : ∀ eventId x, w.inbox.held eventId = some x → x.version = some () ∧ ∃ call outcome captureId,
    w.reports[x.owner]? = some call ∧ Decoded d call outcome ∧ outcome.eventId = eventId ∧
      (call.pc = .complete outcome captureId ∨ call.pc = .commit (.completed captureId))
  completed : ∀ captureId completion, w.outcomes.committed captureId = some completion →
    ∃ (index : Nat) (call : ReportCall) (outcome : ExtractorOutcome), w.reports[index]? = some call ∧
      Decoded d call outcome ∧ ValidFor w.library outcome captureId ∧ outcome.completion = completion ∧
        (call.pc = .done (.completed captureId) ∨ call.pc = .done .query)
  consumed : ∀ eventId, (w.inbox.committed eventId).isSome → elsewhere eventId ∨
    ∃ (index : Nat) (call : ReportCall) (outcome : ExtractorOutcome) (captureId : Uuid), w.reports[index]? = some call ∧
      Decoded d call outcome ∧ outcome.eventId = eventId ∧ ValidFor w.library outcome captureId ∧
        w.outcomes.committed captureId = some outcome.completion

variable {d} {elsewhere : String → Prop} {w v : World} {index : Nat} {call : ReportCall}

theorem stageKept {j pc} (library : ∀ outcome captureId, ValidFor w.library outcome captureId →
      ValidFor v.library outcome captureId)
    (held : ∀ captureId x, x.owner = j → w.outcomes.held captureId = some x → v.outcomes.held captureId = some x)
    (outcomes : ∀ captureId c, w.outcomes.committed captureId = some c → v.outcomes.committed captureId = some c)
    (inbox : ∀ eventId, (w.inbox.committed eventId).isSome → (v.inbox.committed eventId).isSome)
    (stage : ReportStage d w j call pc) : ReportStage d v j call pc := by
  have some_ : ∀ captureId, (w.outcomes.committed captureId).isSome → (v.outcomes.committed captureId).isSome := by
    intro captureId there
    obtain ⟨c,same⟩ := Option.isSome_iff_exists.mp there
    exact Option.isSome_iff_exists.mpr ⟨c,outcomes captureId c same⟩
  cases pc with
  | lookup outcome => exact stage
  | claim outcome captureId => exact ⟨stage.1,library _ _ stage.2⟩
  | complete outcome captureId => exact ⟨stage.1,library _ _ stage.2⟩
  | commit end_ =>
    cases end_ with
    | completed captureId =>
      obtain ⟨outcome,decoded,valid,own⟩ := stage
      exact ⟨outcome,decoded,library _ _ valid,held _ _ rfl own⟩
    | duplicate captureId =>
      obtain ⟨outcome,decoded,valid,there⟩ := stage
      exact ⟨outcome,decoded,library _ _ valid,inbox _ there⟩
    | refused captureId => exact stage
    | query => exact stage
  | done end_ =>
    rcases end_ with captureId | captureId | ⟨_ | captureId⟩ | _
    · obtain ⟨outcome,decoded,valid,there⟩ := stage
      exact ⟨outcome,decoded,library _ _ valid,outcomes _ _ there⟩
    · obtain ⟨outcome,decoded,valid,there⟩ := stage
      exact ⟨outcome,decoded,library _ _ valid,inbox _ there⟩
    · exact stage
    · obtain ⟨outcome,decoded,valid,there⟩ := stage
      exact ⟨outcome,decoded,library _ _ valid,some_ _ there⟩
    · exact stage

theorem soundMove (outcomes : Store Uuid Completion) (inbox : Store String Unit) {pc} (sound : ReportsSound d elsewhere w)
    (found : w.reports[index]? = some call) (open_ : ∀ end_, call.pc ≠ .done end_)
    (aside : ∀ j, j ≠ index → w.outcomes.Aside outcomes j) (aside' : ∀ j, j ≠ index → w.inbox.Aside inbox j)
    (kept : ∀ captureId c, w.outcomes.committed captureId = some c → outcomes.committed captureId = some c)
    (kept' : ∀ eventId, (w.inbox.committed eventId).isSome → (inbox.committed eventId).isSome)
    (own : ∀ captureId x, outcomes.held captureId = some x → x.owner = index →
      outcomes.committed captureId = none ∧ pc = .commit (.completed captureId))
    (own' : ∀ eventId x, inbox.held eventId = some x → x.owner = index → x.version = some () ∧
      ∃ outcome captureId, Decoded d call outcome ∧ outcome.eventId = eventId ∧ (pc = .complete outcome captureId ∨ pc = .commit (.completed captureId)))
    (fresh : ∀ captureId c, outcomes.committed captureId = some c → w.outcomes.committed captureId = none →
      ∃ outcome, Decoded d call outcome ∧ ValidFor w.library outcome captureId ∧ outcome.completion = c ∧
        (pc = .done (.completed captureId) ∨ pc = .done .query))
    (fresh' : ∀ eventId, (inbox.committed eventId).isSome → w.inbox.committed eventId = none →
      ∃ outcome captureId, Decoded d call outcome ∧ outcome.eventId = eventId ∧ ValidFor w.library outcome captureId ∧
        outcomes.committed captureId = some outcome.completion)
    (stage : ReportStage d {w with outcomes := outcomes, inbox := inbox} index call pc) :
    ReportsSound d elsewhere ({w with outcomes := outcomes, inbox := inbox}.move index call pc) := by
  have moved : ∀ j, (w.reports.set index {call with pc := pc})[j]? =
      if j = index then some {call with pc := pc} else w.reports[j]? := setCall found
  have stays : ∀ {j : Nat} {other : ReportCall}, w.reports[j]? = some other → (∃ end_, other.pc = .done end_) →
      (w.reports.set index {call with pc := pc})[j]? = some other := by
    rintro j other there ⟨end_,done⟩
    rw [moved,if_neg]
    · exact there
    · rintro rfl
      rw [found] at there
      cases Option.some.inj there
      exact open_ end_ done
  constructor
  · intro j other there
    have there : (w.reports.set index {call with pc := pc})[j]? = some other := there
    rw [moved] at there
    by_cases here : j = index
    · rw [if_pos here] at there
      cases Option.some.inj there
      exact here ▸ stage
    · rw [if_neg here] at there
      exact stageKept (w := w) (fun _ _ valid => valid)
        (fun captureId x mine held => ((aside j here).1 captureId x mine).mpr held)
        kept kept' (sound.calls j other there)
  · intro captureId x held
    by_cases here : x.owner = index
    · refine ⟨(own captureId x held here).1,{call with pc := pc},?_,(own captureId x held here).2⟩
      show (w.reports.set index _)[x.owner]? = _
      rw [moved,if_pos here]
    · have before := ((aside _ here).1 captureId x rfl).mp held
      obtain ⟨none,other,there,pc'⟩ := sound.drafts captureId x before
      refine ⟨((aside _ here).2 captureId x before rfl).trans none,other,?_,pc'⟩
      show (w.reports.set index _)[x.owner]? = _
      rw [moved,if_neg here]
      exact there
  · intro eventId x held
    by_cases here : x.owner = index
    · obtain ⟨version,outcome,captureId,decoded,same,pc'⟩ := own' eventId x held here
      refine ⟨version,{call with pc := pc},outcome,captureId,?_,decoded,same,pc'⟩
      show (w.reports.set index _)[x.owner]? = _
      rw [moved,if_pos here]
    · obtain ⟨version,other,outcome,captureId,there,facts⟩ :=
        sound.claims eventId x (((aside' _ here).1 eventId x rfl).mp held)
      refine ⟨version,other,outcome,captureId,?_,facts⟩
      show (w.reports.set index _)[x.owner]? = _
      rw [moved,if_neg here]
      exact there
  · intro captureId completion there
    cases before : w.outcomes.committed captureId with
    | none =>
      obtain ⟨outcome,decoded,valid,same,pc'⟩ := fresh captureId completion there before
      exact ⟨index,{call with pc := pc},outcome,(moved index).trans (if_pos rfl),decoded,valid,same,pc'⟩
    | some c =>
      have same : completion = c := Option.some.inj (there.symm.trans (kept captureId c before))
      subst same
      obtain ⟨j,other,outcome,known,decoded,valid,same,done⟩ := sound.completed captureId completion before
      refine ⟨j,other,outcome,stays known ?_,decoded,valid,same,done⟩
      rcases done with pc' | pc'
      · exact ⟨_,pc'⟩
      · exact ⟨_,pc'⟩
  · intro eventId there
    cases before : w.inbox.committed eventId with
    | none =>
      obtain ⟨outcome,captureId,decoded,same,valid,completed⟩ := fresh' eventId there before
      exact .inr ⟨index,{call with pc := pc},outcome,captureId,(moved index).trans (if_pos rfl),decoded,same,valid,completed⟩
    | some recorded =>
      rcases sound.consumed eventId (by rw [before]; rfl) with foreign | ⟨j,other,outcome,captureId,known,decoded,rest⟩
      · exact .inl foreign
      · by_cases here : j = index
        · subst here
          rw [found] at known
          cases Option.some.inj known
          exact .inr ⟨j,{call with pc := pc},outcome,captureId,(moved j).trans (if_pos rfl),decoded,rest.1,rest.2.1,
            kept _ _ rest.2.2⟩
        · exact .inr ⟨j,other,outcome,captureId,(moved j).trans ((if_neg here).trans known),decoded,rest.1,rest.2.1,
            kept _ _ rest.2.2⟩

end Facts

section Reports
variable {d : Shared} {elsewhere : String → Prop} {w v : World} {index : Nat} {call : ReportCall}

theorem keyFound {library : State} {correlationId captureId owner}
    (known : findCapture library correlationId = some (captureId,owner)) : ∃ a u c,
      library.archived (.capture a u) = some (.capture c) ∧ c.id = captureId ∧ library.accounts c.accountId = some owner ∧
        correlationOf captureId = correlationId := by
  obtain ⟨key,_,found⟩ := List.exists_of_findSome?_eq_some known
  simp only [bind,Option.bind_eq_some_iff] at found
  obtain ⟨capture,there,_,guarded,owner',account,same⟩ := found
  have correlated : correlationOf capture.id = correlationId := by
    by_contra other
    simp [guard,other] at guarded
  cases Option.some.inj same
  refine ⟨key.1,key.2,capture,?_,rfl,account,correlated⟩
  unfold Rows.capture at there
  split at there
  · rename_i row present
    cases Option.some.inj there
    exact present
  · simp at there

theorem holdsNone (sound : ReportsSound d elsewhere w) (found : w.reports[index]? = some call)
    (pc : ∀ captureId, call.pc ≠ .commit (.completed captureId)) : w.outcomes.Idle index := by
  rintro captureId x held rfl
  obtain ⟨_,other,there,done⟩ := sound.drafts captureId x held
  rw [found] at there
  cases Option.some.inj there
  exact pc captureId done

theorem claimsNone (sound : ReportsSound d elsewhere w) (found : w.reports[index]? = some call)
    (pc : ∀ outcome captureId, call.pc ≠ .complete outcome captureId ∧ call.pc ≠ .commit (.completed captureId)) :
    w.inbox.Idle index := by
  rintro eventId x held rfl
  obtain ⟨_,other,outcome,captureId,there,_,_,done⟩ := sound.claims eventId x held
  rw [found] at there
  cases Option.some.inj there
  rcases done with done | done
  · exact (pc outcome captureId).1 done
  · exact (pc outcome captureId).2 done

theorem consumeSound (sound : ReportsSound d elsewhere w) (found : w.reports[index]? = some call)
    (consumed : Consumed w index call v) : ReportsSound d elsewhere v := by
  have stage := sound.calls index call found
  -- A report that rolls back leaves both tables as they were.
  have dropped : ∀ {pc}, (∀ end_, call.pc ≠ .done end_) →
      ReportStage d {w with outcomes := w.outcomes.abort index, inbox := w.inbox.abort index} index call pc →
        ReportsSound d elsewhere ((w.rollback index).move index call pc) := by
    intro pc open_ stage
    refine soundMove _ _ sound found open_ (fun j apart => Store.asideAbort apart) (fun j apart => Store.asideAbort apart)
      (fun _ _ there => there) (fun _ there => there) ?_ ?_ ?_ ?_ stage
    · exact fun captureId x held own => absurd own (Store.abortHeld.mp held).2
    · exact fun eventId x held own => absurd own (Store.abortHeld.mp held).2
    · exact fun captureId c there absent => absurd (there.symm.trans absent) (by simp)
    · intro eventId there absent
      rw [Store.abortCommitted,absent] at there
      cases there
  -- A report that only moves on holds what it held.
  have passed : ∀ {pc}, (∀ end_, call.pc ≠ .done end_) → w.outcomes.Idle index → w.inbox.Idle index →
      ReportStage d w index call pc → ReportsSound d elsewhere (w.move index call pc) := by
    intro pc open_ idle idle' stage
    refine soundMove w.outcomes w.inbox sound found open_ (fun j _ => Store.asideSame rfl rfl)
      (fun j _ => Store.asideSame rfl rfl) (fun _ _ there => there) (fun _ there => there) ?_ ?_ ?_ ?_ stage
    · exact fun captureId x held own => absurd own (idle captureId x held)
    · exact fun eventId x held own => absurd own (idle' eventId x held)
    · exact fun captureId c there absent => absurd (there.symm.trans absent) (by simp)
    · exact fun eventId there absent => absurd there (by simp [absent])
  cases consumed with
  | failed open_ => exact dropped open_ trivial
  | refused pc => exact dropped (by simp [pc]) trivial
  | @found outcome captureId owner pc known belongs =>
    rw [pc] at stage
    obtain ⟨a,u,c,there,same,account,correlated⟩ := keyFound known
    exact passed (by simp [pc]) (holdsNone sound found (by simp [pc])) (claimsNone sound found (by simp [pc]))
      ⟨stage,a,u,c,owner,there,same,account,correlated,belongs⟩
  | @duplicate outcome captureId pc free there =>
    rw [pc] at stage
    have idle := claimsNone sound found (by simp [pc])
    refine passed (by simp [pc]) (holdsNone sound found (by simp [pc])) idle ⟨outcome,stage.1,stage.2,?_⟩
    rw [← Store.idleView idle]
    exact there
  | @claimed outcome captureId pc free =>
    rw [pc] at stage
    have idle := holdsNone sound found (by simp [pc])
    have idle' := claimsNone sound found (by simp [pc])
    refine soundMove w.outcomes (w.inbox.put index outcome.eventId (some ())) sound found (by simp [pc])
      (fun j _ => Store.asideSame rfl rfl) (fun j apart => Store.asidePut apart free) (fun _ _ there => there)
      (fun _ there => there) ?_ ?_ ?_ ?_ stage
    · exact fun captureId x held own => absurd own (idle captureId x held)
    · intro eventId x held own
      by_cases same : eventId = outcome.eventId
      · rw [same,Store.putSelf] at held
        cases Option.some.inj held
        exact ⟨rfl,outcome,captureId,stage.1,same.symm,.inl rfl⟩
      · rw [Store.putOther _ same] at held
        exact absurd own (idle' eventId x held)
    · exact fun captureId c there absent => absurd (there.symm.trans absent) (by simp)
    · intro eventId there absent
      rw [Store.putCommitted,absent] at there
      cases there
  | @already outcome captureId completion pc free there =>
    rw [pc] at stage
    have idle := holdsNone sound found (by simp [pc])
    rw [Store.idleView idle] at there
    refine dropped (by simp [pc]) ⟨outcome,stage.1,stage.2,?_⟩
    show (w.outcomes.committed captureId).isSome
    simp [there]
  | @completed outcome captureId pc free absent =>
    rw [pc] at stage
    have idle := holdsNone sound found (by simp [pc])
    rw [Store.idleView idle] at absent
    refine soundMove (w.outcomes.put index captureId (some outcome.completion)) w.inbox sound found (by simp [pc])
      (fun j apart => Store.asidePut apart free) (fun j _ => Store.asideSame rfl rfl) (fun _ _ there => there)
      (fun _ there => there) ?_ ?_ ?_ ?_ ⟨outcome,stage.1,stage.2,Store.putSelf ..⟩
    · intro id x held own
      by_cases same : id = captureId
      · rw [same]
        exact ⟨absent,rfl⟩
      · rw [Store.putOther _ same] at held
        exact absurd own (idle id x held)
    · intro eventId x held own
      obtain ⟨version,other,outcome',_,there,decoded,same,_⟩ := sound.claims eventId x held
      rw [own,found] at there
      cases Option.some.inj there
      exact ⟨version,outcome',captureId,decoded,same,.inr rfl⟩
    · intro id c there absent
      rw [Store.putCommitted,absent] at there
      cases there
    · exact fun eventId there absent => absurd there (by simp [absent])
  | @committed end_ end' pc answers =>
    rw [pc] at stage
    have whose : ∀ captureId x, w.outcomes.held captureId = some x → x.owner = index → end_ = .completed captureId := by
      rintro captureId x held rfl
      obtain ⟨_,other,there,done⟩ := sound.drafts captureId x held
      rw [found] at there
      cases Option.some.inj there
      rw [pc] at done
      exact ReportPc.commit.inj done
    have kept : ∀ captureId c, w.outcomes.committed captureId = some c → w.outcomes.view index captureId = some c := by
      intro captureId c there
      rw [Store.viewOther]
      · exact there
      · intro x held own
        rw [(sound.drafts captureId x held).1] at there
        cases there
    have kept' : ∀ eventId, (w.inbox.committed eventId).isSome → (w.inbox.view index eventId).isSome := by
      intro eventId there
      by_cases mine : ∃ x, w.inbox.held eventId = some x ∧ x.owner = index
      · obtain ⟨x,held,own⟩ := mine
        rw [Store.viewHeld held own,(sound.claims eventId x held).1]
        rfl
      · rwa [Store.viewOther (fun x held own => mine ⟨x,held,own⟩)]
    have fresh : ∀ captureId c, w.outcomes.view index captureId = some c → w.outcomes.committed captureId = none →
        ∃ outcome, Decoded d call outcome ∧ ValidFor w.library outcome captureId ∧ outcome.completion = c ∧
          end_ = .completed captureId := by
      intro captureId c there absent
      have mine : ∃ x, w.outcomes.held captureId = some x ∧ x.owner = index := by
        by_contra none
        rw [Store.viewOther (fun x held own => none ⟨x,held,own⟩),absent] at there
        cases there
      obtain ⟨x,held,own⟩ := mine
      have ended := whose captureId x held own
      rw [ended] at stage
      obtain ⟨outcome,decoded,valid,held'⟩ := stage
      rw [Store.viewHeld held' rfl] at there
      exact ⟨outcome,decoded,valid,Option.some.inj there,ended⟩
    refine soundMove (w.outcomes.commit index) (w.inbox.commit index) sound found (by simp [pc])
      (fun j apart => Store.asideCommit apart) (fun j apart => Store.asideCommit apart) kept kept' ?_ ?_ ?_ ?_ ?_
    · exact fun captureId x held own => absurd own (Store.commitHeld.mp held).2
    · exact fun eventId x held own => absurd own (Store.commitHeld.mp held).2
    · intro captureId c there absent
      obtain ⟨outcome,decoded,valid,same,ended⟩ := fresh captureId c there absent
      refine ⟨outcome,decoded,valid,same,?_⟩
      rcases answers with rfl | rfl
      · exact .inl (by rw [ended])
      · exact .inr rfl
    · intro eventId there absent
      have mine : ∃ x, w.inbox.held eventId = some x ∧ x.owner = index := by
        by_contra none
        rw [Store.commitCommitted,Store.viewOther (fun x held own => none ⟨x,held,own⟩),absent] at there
        cases there
      obtain ⟨x,held,own⟩ := mine
      obtain ⟨_,other,outcome,captureId,known,decoded,same,ended⟩ := sound.claims eventId x held
      rw [own,found] at known
      cases Option.some.inj known
      rw [pc] at ended
      have ended := ReportPc.commit.inj (ended.resolve_left (by simp))
      rw [ended] at stage
      obtain ⟨outcome',decoded',valid,held'⟩ := stage
      cases Option.some.inj (decoded.symm.trans decoded')
      exact ⟨outcome,captureId,decoded,same,valid,Store.viewHeld held' rfl⟩
    · rcases answers with rfl | rfl
      · cases end' with
        | completed captureId =>
          obtain ⟨outcome,decoded,valid,held⟩ := stage
          exact ⟨outcome,decoded,valid,Store.viewHeld held rfl⟩
        | duplicate captureId =>
          obtain ⟨outcome,decoded,valid,there⟩ := stage
          exact ⟨outcome,decoded,valid,kept' _ there⟩
        | refused captureId => exact absurd stage id
        | query => exact absurd stage id
      · trivial

end Reports
end RatatoskrX.ArticleReports
