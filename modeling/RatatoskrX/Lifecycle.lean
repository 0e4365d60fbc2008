import RatatoskrX.Capability

/-! The life of a write-back operation: the edges it moves along, what each status
says of its row, and when it may touch the bookmarks. -/
namespace RatatoskrX.Lifecycle
open Relational Schema Audit Writeback Journal Frames SyncCalls WriteCalls Operations Schedule Transition
open WriteInvariant WriteProgress WriteSystem Ledger Capability

def Spent (db : Database) (o : Operation) : Prop :=
  o.executionMode = .live ∧ ∃ c, o.consentId = some c.id ∧ db.consents.find c.id = some c ∧ c.consumedAt.isSome = true

/- What the two statuses that name a mode say of their rows. -/
def Moded (db : Database) : Prop :=
  ∀ id o, db.operations.find id = some o →
    (o.status = .dryRun → o.executionMode = .dryRun) ∧ (o.status = .providerInFlight → Spent db o)

def Leads (c : Commit) (id : Uuid) : OperationStatus → Prop
  | .dryRun => ∃ result, c = .completeDryRun id result
  | .providerInFlight => ∃ request action t cost, c = .consumeConsent id request action t cost
  | _ => False

theorem statusCause {db c o status} (after : (rowAfter db c o).status = status)
    (named : status = .dryRun ∨ status = .providerInFlight) : o.status = status ∨ Leads c o.id status := by
  cases c with
  | completeDryRun target result =>
    simp only [rowAfter,moved] at after
    split at after
    · rename_i mine
      rw [← after,mine.1]
      exact .inr ⟨result,rfl⟩
    · exact .inl after
  | consumeConsent target request action t cost =>
    simp only [rowAfter,moved] at after
    split at after
    · rename_i mine
      rw [← after,mine.1]
      exact .inr ⟨request,action,t,cost,rfl⟩
    · exact .inl after
  | completeConfirmed target account providerPostId action requestId t =>
    simp only [rowAfter,moved] at after
    split at after
    · simp only at after
      split at after <;> rcases named with rfl | rfl <;> simp at after
    · exact .inl after
  | completeRun account run t =>
    simp only [rowAfter,Reconciliation.settle] at after
    split at after
    · simp only [Snapshot.reconciledStatus] at after
      split at after <;> rcases named with rfl | rfl <;> simp at after
    · exact .inl after
  | _ =>
    simp only [rowAfter,moved] at after
    first
      | exact .inl after
      | split at after
        · rcases named with rfl | rfl <;> simp at after
        · exact .inl after

theorem spentAfter {c : Commit} {db after o o'} (applied : c.effect db = some after)
    (same : identity o' = identity o) (spent : Spent db o) : Spent after o' := by
  obtain ⟨live,x,named,found,used⟩ := spent
  obtain ⟨y,later,used'⟩ := usedAfter applied found used
  have keyed : y.id = x.id := Table.findKey later
  obtain ⟨mode,consent⟩ := identityColumns same
  refine ⟨mode.trans live,y,?_,by rw [keyed]; exact later,used'⟩
  rw [keyed]
  exact consent.trans named

theorem leadsBy {config w c id status} {i : Nat} {p : Process} (sound : Sound config w) (found : w.processes[i]? = some p)
    (stands : p.commit config w = some c) (leads : Leads c id status) :
    ∃ call, p = .write call ∧
      ((status = .dryRun ∧ Pending config w.db call id ∧ call.mode = .dryRun) ∨
        (status = .providerInFlight ∧ Pending config w.db call id ∧ call.mode = .live ∧
          ∃ t cost, c = .consumeConsent id call.request call.action t cost)) := by
  rcases foreignCommit stands with ⟨call,rfl⟩ | foreign
  · refine ⟨call,rfl,?_⟩
    have holds := sound.holds found
    cases status with
    | dryRun =>
      obtain ⟨result,rfl⟩ := leads
      simp only [Process.commit,WriteCall.commit] at stands
      split at stands <;> cases stands
      rename_i pc
      simp only [Holds,pc] at holds
      exact .inl ⟨rfl,holds.1,holds.2.2⟩
    | providerInFlight =>
      obtain ⟨request,action,t,cost,rfl⟩ := leads
      simp only [Process.commit,WriteCall.commit] at stands
      split at stands <;> cases stands
      rename_i reservation pc
      simp only [Holds,pc] at holds
      exact .inr ⟨rfl,holds.1,holds.2.2,t,_,rfl⟩
    | _ => exact leads.elim
  · cases status with
    | dryRun =>
      obtain ⟨_,rfl⟩ := leads
      exact foreign.elim
    | providerInFlight =>
      obtain ⟨_,_,_,_,rfl⟩ := leads
      exact foreign.elim
    | _ => exact leads.elim

theorem claimReceived {config w row} {p : Process} (stands : p.commit config w = some (.claimOperation row)) :
    row.status = .received := by
  rcases foreignCommit stands with ⟨call,rfl⟩ | foreign
  · simp only [Process.commit,WriteCall.commit] at stands
    split at stands <;> cases stands
    rfl
  · exact foreign.elim

theorem claimedRow {config db call id x o} (claimed : Claimed config db call id x)
    (found : db.operations.find id = some o) : x = o :=
  Option.some.inj (claimed.2.1.symm.trans found)

theorem flightSpent {config db log index call id o} (flight : InFlight config db log index call id)
    (found : db.operations.find id = some o) : Spent db o := by
  obtain ⟨live,⟨x,claimed,_⟩,_,_,⟨c,present,used,_⟩,_⟩ := flight
  cases claimedRow claimed found
  have keyed : c.id = call.request.consentId := Table.findKey present
  have columns := claimed.2.2
  rw [present] at columns
  have mode := congrArg Operation.executionMode columns
  have consent := congrArg Operation.consentId columns
  exact ⟨mode.trans live,c,consent,by rw [keyed]; exact present,by simp [used]⟩

section Step
variable {config : Config} {w t : World} {a : Action}

theorem operationStep (taken : World.step config w a = some t) (id) :
    (∀ o, w.db.operations.find id = some o → ∃ o', t.db.operations.find id = some o' ∧ identity o' = identity o ∧
      (o' = o ∨ Moves o.status o'.status)) ∧
    (w.db.operations.find id = none → ∀ o', t.db.operations.find id = some o' → o'.status = .received) := by
  rcases stepCommit taken with same | ⟨c,applied,by_⟩
  · rw [same]
    exact ⟨fun o found => ⟨o,found,rfl,.inl rfl⟩,fun none o' found => by rw [none] at found; simp at found⟩
  · rcases operationAfter applied id with moves | ⟨row,rfl,rfl,absent,found⟩
    · refine ⟨?_,?_⟩
      · intro o found
        rw [found] at moves
        exact ⟨_,moves,rowIdentity ..,rowEdge ..⟩
      · intro none o' found
        rw [moves,none] at found
        simp at found
    · refine ⟨fun o present => by rw [absent] at present; simp at present,?_⟩
      intro _ o' present
      rw [found] at present
      cases Option.some.inj present
      rcases by_ with ⟨outside,_⟩ | ⟨i,answer,p,_,_,stands,_⟩
      · simp [External] at outside
      · exact claimReceived stands

theorem modedStep (sound : Sound config w) (moded : Moded w.db) (taken : World.step config w a = some t) :
    Moded t.db := by
  intro id o' present
  rcases stepCommit taken with same | ⟨c,applied,by_⟩
  · rw [same] at present ⊢
    exact moded id o' present
  have received := (operationStep taken id).2
  cases before : w.db.operations.find id with
  | none =>
    have status := received before o' present
    exact ⟨fun h => by rw [status] at h; simp at h,fun h => by rw [status] at h; simp at h⟩
  | some o =>
    have keyed : o.id = id := Table.findKey before
    rcases operationAfter applied id with moves | ⟨_,_,_,absent,_⟩
    · rw [before,present] at moves
      have row : rowAfter w.db c o = o' := (Option.some.inj moves).symm
      have columns : identity o' = identity o := by rw [← row]; exact rowIdentity ..
      obtain ⟨mode,consent⟩ := identityColumns columns
      have owner : ∀ status, o'.status = status → status = .dryRun ∨ status = .providerInFlight →
          o.status = status ∨ ∃ (i : Nat) (p : Process), w.processes[i]? = some p ∧ p.commit config w = some c ∧ Leads c id status := by
        intro status after named
        rcases statusCause (row ▸ after) named with old | leads
        · exact .inl old
        · rw [keyed] at leads
          rcases by_ with ⟨outside,_⟩ | ⟨i,answer,p,_,found,stands,_⟩
          · rcases named with rfl | rfl
            · obtain ⟨_,rfl⟩ := leads
              simp [External] at outside
            · obtain ⟨_,_,_,_,rfl⟩ := leads
              simp [External] at outside
          · exact .inr ⟨i,p,found,stands,leads⟩
      refine ⟨?_,?_⟩
      · intro status
        rcases owner _ status (.inl rfl) with old | ⟨i,p,found,stands,leads⟩
        · rw [mode]
          exact (moded id o before).1 old
        · obtain ⟨call,rfl,⟨_,⟨x,claimed,_⟩,dry⟩ | ⟨wrong,_⟩⟩ := leadsBy sound found stands leads
          · cases claimedRow claimed before
            have column := congrArg Operation.executionMode claimed.2.2
            exact mode.trans (column.trans dry)
          · simp at wrong
      · intro status
        rcases owner _ status (.inr rfl) with old | ⟨i,p,found,stands,leads⟩
        · exact spentAfter applied columns ((moded id o before).2 old)
        · obtain ⟨call,rfl,⟨wrong,_⟩ | ⟨_,pending,live,t',cost,rfl⟩⟩ := leadsBy sound found stands leads
          · simp at wrong
          · exact flightSpent (consumedOwn [_] i applied pending live (List.mem_singleton_self _)).1 present
    · rw [before] at absent
      simp at absent

theorem projectedNothing {db : Database} {operationId account providerPostId action observedAt}
    (none : (projectConfirmedBookmark db operationId account providerPostId action observedAt).2 = false) :
    (projectConfirmedBookmark db operationId account providerPostId action observedAt).1.bookmarks = db.bookmarks := by
  unfold projectConfirmedBookmark at none ⊢
  split at none
  · rfl
  · rename_i post named
    split at none
    · simp at none
    · have absent : db.bookmarks.find (account,post) = .none := by
        simpa [Database.bookmark] using none
      refine Table.updateNone db.bookmarks _ (removedRow operationId observedAt) (fun _ => rfl) ?_
      intro b member
      have other := Table.findNone.mp absent
      simp only [decide_eq_false_iff_not]
      rintro same
      exact other (List.mem_map.mpr ⟨b,member,same⟩)

theorem projectionStep (sound : Sound config w) (taken : World.step config w a = some t) {i : Nat} {answer call}
    (by_ : a = .advance i answer) (found : w.processes[i]? = some (.write call))
    (changed : t.db.bookmarks ≠ w.db.bookmarks) :
    ∃ id o o', call.operation = some id ∧ w.db.operations.find id = some o ∧ o.status = .providerInFlight ∧
      t.db.operations.find id = some o' ∧ o'.status = .succeeded := by
  subst by_
  rcases stepCommit taken with same | ⟨c,applied,⟨_,never⟩ | ⟨j,answer',p,step,here,stands,_⟩⟩
  · exact absurd (by rw [same]) changed
  · exact absurd rfl (never i answer)
  cases step
  rw [found] at here
  cases Option.some.inj here
  have holds := sound.holds found
  have untouched : .bookmarks ∉ touched c → False := fun free => changed ((frame applied).bookmarks free)
  simp only [Process.commit,WriteCall.commit] at stands
  split at stands
  case h_10 id requestId observedAt pc =>
    cases Option.some.inj stands
    simp only [Holds,pc] at holds
    obtain ⟨⟨_,⟨o,claimed,status⟩,_⟩,_⟩ := holds
    have mine : o.id = id := Table.findKey claimed.2.1
    have moves := (claimedOwn applied (by simp) claimed).2.1
    simp only [rowAfter,movedOwn mine status] at moves
    refine ⟨id,o,_,claimed.1,claimed.2.1,status,moves,?_⟩
    cases updated : (projectConfirmedBookmark w.db id call.request.accountId call.request.providerPostId call.action
        observedAt).2 with
    | true => rfl
    | false =>
      refine absurd ?_ changed
      rw [← projectedNothing updated]
      have form := (Option.some.inj applied).symm
      rw [form]
      exact (confirmedRest ..).bookmarks (by simp)
  all_goals
    cases stands
    try exact absurd (by simp [touched]) untouched

end Step

section Runs
variable {config : Config} {now : DateTime} {labels : List Action} {w : World}

theorem modedRun (run : Run (World.step config) free (World.start Database.empty now) labels w) : Moded w.db := by
  refine (run.preserves (fun w => Sound config w ∧ Moded w.db) ?_ ⟨soundStart .., ?_⟩).2
  · intro w a t inv _ taken
    exact ⟨soundStep inv.1 taken,modedStep inv.1 inv.2 taken⟩
  · intro id o found
    simp [World.start,Database.empty,Table.empty,Table.find] at found

theorem spentRun {u : World} (run : Run (World.step config) free u labels w) {id o}
    (found : u.db.operations.find id = some o) (spent : Spent u.db o) :
    ∃ o', w.db.operations.find id = some o' ∧ Spent w.db o' := by
  induction run generalizing o with
  | nil => exact ⟨o,found,spent⟩
  | cons meets taken later ih =>
    obtain ⟨o',present,same,_⟩ := (operationStep taken id).1 o found
    refine ih present ?_
    rcases stepCommit taken with kept | ⟨c,applied,_⟩
    · obtain ⟨mode,consent⟩ := identityColumns same
      obtain ⟨live,c,named,rest⟩ := spent
      rw [kept]
      exact ⟨mode.trans live,c,consent.trans named,rest⟩
    · exact spentAfter applied same spent

structure Machine (config : Config) (now : DateTime) (labels : List Action) (w : World) : Prop where
  edges : ∀ a t id, World.step config w a = some t →
    (∀ o, w.db.operations.find id = some o → ∃ o', t.db.operations.find id = some o' ∧
      (o'.status = o.status ∨ Moves o.status o'.status)) ∧
    (w.db.operations.find id = none → ∀ o', t.db.operations.find id = some o' → o'.status = .received)
  previews : ∀ id o, w.db.operations.find id = some o → o.status = .dryRun → o.executionMode = .dryRun
  submitted : ∀ before after u id o, labels = before ++ after →
    Run (World.step config) free (World.start Database.empty now) before u → Run (World.step config) free u after w →
    u.db.operations.find id = some o → o.status = .providerInFlight →
    ∃ o', w.db.operations.find id = some o' ∧ Spent w.db o'
  projects : ∀ (i : Nat) answer call t, w.processes[i]? = some (.write call) →
    World.step config w (.advance i answer) = some t → t.db.bookmarks ≠ w.db.bookmarks →
    ∃ id o o', call.operation = some id ∧ w.db.operations.find id = some o ∧ o.status = .providerInFlight ∧
      t.db.operations.find id = some o' ∧ o'.status = .succeeded

theorem operationMachine (run : Run (World.step config) free (World.start Database.empty now) labels w) :
    Machine config now labels w := by
  refine ⟨?_,?_,?_,?_⟩
  · intro a t id taken
    refine ⟨?_,(operationStep taken id).2⟩
    intro o found
    obtain ⟨o',present,_,rfl | edge⟩ := (operationStep taken id).1 o found
    · exact ⟨o',present,.inl rfl⟩
    · exact ⟨o',present,.inr edge⟩
  · exact fun id o found => (modedRun run id o found).1
  · intro before after u id o _ first rest found status
    exact spentRun rest found ((modedRun first id o found).2 status)
  · intro i answer call t found taken changed
    exact projectionStep (soundRun run) taken rfl found changed

end Runs

def confirmation : List Action :=
  sampleLink ++ [.persistPosts ["100"],.spawn (sampleWrite "first")] ++ advances 1 11 ++ [.advance 1 (.confirmed ⟨none⟩)]

def confirmationEnd : World := (replay (World.step sampleConfig) free sampleStart confirmation).get (by decide +kernel)

theorem operationMachineAtConfirmation :
    (confirmationEnd.db.operations.find 1).map Operation.status = some .providerInFlight ∧
      Machine sampleConfig sampleInstant confirmation confirmationEnd :=
  ⟨by decide +kernel,operationMachine (replayRun (Option.some_get _).symm)⟩

end RatatoskrX.Lifecycle
