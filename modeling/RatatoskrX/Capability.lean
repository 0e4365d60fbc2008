import RatatoskrX.Ledger

/-! One consent and one idempotency key admit at most one mutation. -/
namespace RatatoskrX.Capability
open Relational Schema Audit Budget Writeback Journal Frames SyncCalls WriteCalls Operations Schedule Transition
open WriteInvariant WriteProgress WriteSystem Ledger

/- The commit that spends a consent on one mutation. -/
structure Submits (p q : World) (a : Attempt) : Prop where
  consent : ∃ c, p.db.consents.find a.request.consentId = some c ∧ c.consumedAt = none ∧
    a.evaluatedAt < c.expiresAt ∧ c.internalUserId = a.request.internalUserId ∧
    c.accountId = a.request.accountId ∧ c.action = a.action ∧ c.providerPostId = a.request.providerPostId ∧
    q.db.consents.find a.request.consentId = some {c with consumedAt := some a.evaluatedAt}
  operation : ∃ o, p.db.operations.find a.operationId = some o ∧ o.status = .received ∧
    o.accountId = a.request.accountId ∧ o.consentId = some a.request.consentId ∧
    q.db.operations.find a.operationId = some {o with status := .providerInFlight}
  audited : Recorded q.db a.operationId .providerAttempted

theorem attemptWrote {config u label v i a} (wrote : Wrote config u label v ⟨some i,.attempt a⟩) :
    ∃ call id t, u.processes[i]? = some (.write call) ∧ call.pc = .provider id t ∧
      a = ⟨id,call.request,call.action,t⟩ := by
  cases wrote with
  | spoken found ok next utters same =>
    rename_i call s
    unfold WriteCall.utters at utters
    split at utters
    · rename_i id t pc
      cases Option.some.inj utters
      exact ⟨call,id,t,found,pc,rfl⟩
    · simp at utters
    · simp at utters

theorem consumeWrote {config p label q i id request action t cost}
    (wrote : Wrote config p label q ⟨some i,.commit (.consumeConsent id request action t cost)⟩) :
    ∃ call reservation, p.processes[i]? = some (.write call) ∧ call.pc = .consume id t reservation ∧
      request = call.request ∧ action = call.action ∧
      Commit.effect (.consumeConsent id call.request call.action t cost) p.db = some q.db := by
  cases wrote with
  | @commit _ _ answer process s c found ok next stands applied answered =>
    rcases foreignCommit stands with ⟨call,rfl⟩ | foreign
    · simp only [Process.commit,WriteCall.commit] at stands
      split at stands <;> cases stands
      rename_i reservation pc
      exact ⟨call,reservation,found,pc,rfl,rfl,applied⟩
    · exact foreign.elim
  | spoken found ok next utters same =>
    unfold WriteCall.utters at utters
    split at utters <;> simp at utters

theorem submitted {config p label q i a cost} (sound : Sound config p)
    (wrote : Wrote config p label q ⟨some i,.commit (.consumeConsent a.operationId a.request a.action a.evaluatedAt cost)⟩) :
    Submits p q a := by
  obtain ⟨operationId,_,_,evaluatedAt⟩ := a
  obtain ⟨call,reservation,found,pc,rfl,rfl,applied⟩ := consumeWrote wrote
  have holds := sound.holds found
  simp only [Holds,pc] at holds
  obtain ⟨⟨o,claimed,status⟩,_,live⟩ := holds
  have mine : o.id = operationId := Table.findKey claimed.2.1
  obtain ⟨consent,admitted,form⟩ := consumedForm applied
  obtain ⟨present,admits⟩ := Option.filter_eq_some_iff.mp admitted
  have keyed : consent.id = call.request.consentId := Table.findKey present
  simp only [consentAdmits,Bool.and_eq_true,decide_eq_true_eq] at admits
  obtain ⟨⟨⟨⟨⟨⟨_,owner⟩,account⟩,acts⟩,post⟩,unconsumed⟩,unexpired⟩ := admits
  obtain ⟨flight,_⟩ := consumedOwn [_] i applied ⟨o,claimed,status⟩ live (List.mem_singleton_self _)
  obtain ⟨_,_,_,_,_,recorded,_⟩ := flight
  have moves := (claimedOwn applied (by simp) claimed).2.1
  simp only [rowAfter,movedOwn mine status] at moves
  have marked : q.db.consents.find call.request.consentId = some (consumedRow evaluatedAt consent) := by
    rcases consentAfter applied call.request.consentId with same | ⟨_,_,named,_⟩
    · rw [same,present]
      simp [consentRow,keyed]
    · simp at named
  have columns := claimed.2.2
  rw [present] at columns
  have accounted : o.accountId = call.request.accountId := congrArg Operation.accountId columns
  have named : o.consentId = some consent.id := congrArg Operation.consentId columns
  rw [keyed] at named
  exact ⟨⟨consent,present,unconsumed,unexpired,owner,account,acts,post,marked⟩,
    ⟨o,claimed.2.1,status,accounted,named,moves⟩,recorded⟩

section Runs
variable {config : Config} {db : Database} {now : DateTime} {labels : List Action} {w : World}

theorem attemptSent (run : Run (World.step config) free (World.start db now) labels w) {i a}
    (member : (i,a) ∈ attempts w.log) :
    ∃ u label v before, Run (World.step config) free (World.start db now) before u ∧ before <+: labels ∧
      World.step config u label = some v ∧ v.log = u.log ++ [⟨some i,.attempt a⟩] ∧ v.log ⊆ w.log ∧
      (∃ t, trail i u.log = [.charge config.writeGate a.request.accountId 1 t]) ∧
      ∃ cost, ⟨some i,.commit (.consumeConsent a.operationId a.request a.action a.evaluatedAt cost)⟩ ∈ u.log := by
  obtain ⟨u,label,v,⟨before,after,rfl,first,_,taken,rest⟩,logged,wrote⟩ := entryStep run (attemptEntry member)
  obtain ⟨call,id,t,found,pc,rfl⟩ := attemptWrote wrote
  have holds := (soundRun first).holds found
  simp only [Holds,pc] at holds
  obtain ⟨_,_,held,entry⟩ := holds
  exact ⟨u,label,v,before,first,List.prefix_append _ _,taken,logged,runLog rest,
    ((booksRun first).calls found).paid held,entry⟩

theorem consentsOnce (run : Run (World.step config) free (World.start db now) labels w) {i j a b}
    (left : (i,a) ∈ attempts w.log) (right : (j,b) ∈ attempts w.log)
    (same : a.request.consentId = b.request.consentId) : i = j := by
  have consumes : ∀ {i a}, (i,a) ∈ attempts w.log → Consumes w.log i a.request.consentId := by
    intro i a member
    obtain ⟨u,_,v,_,_,_,_,logged,later,_,cost,entry⟩ := attemptSent run member
    exact ⟨_,_,_,_,cost,rfl,later (logged ▸ List.mem_append_left _ entry)⟩
  exact (booksRun run).alone (consumes left) (same ▸ consumes right)

theorem keysOnce (run : Run (World.step config) free (World.start db now) labels w) {i j a b}
    (left : (i,a) ∈ attempts w.log) (right : (j,b) ∈ attempts w.log)
    (same : (a.request.accountId,a.request.idempotencyKey) = (b.request.accountId,b.request.idempotencyKey)) : i = j := by
  have books := booksRun run
  have sound := soundRun run
  have row : ∀ {i a}, (i,a) ∈ attempts w.log → ∃ call o, w.processes[i]? = some (.write call) ∧
      call.operation = some a.operationId ∧ w.db.operations.find a.operationId = some o ∧
      o.claim = (a.request.accountId,sha256Hex config.sha256 (utf8 a.request.idempotencyKey)) := by
    intro i a member
    obtain ⟨call,found⟩ := books.writers i a member
    obtain ⟨own,request,_,_⟩ := (books.calls found).sent a member
    obtain ⟨o,claimed⟩ := holdsKnown (sound.holds found) _ own
    refine ⟨call,o,found,own,claimed.2.1,?_⟩
    rw [request]
    exact congrArg Operation.claim claimed.2.2
  obtain ⟨x,o,foundX,ownX,rowX,claimX⟩ := row left
  obtain ⟨y,o',foundY,ownY,rowY,claimY⟩ := row right
  have claims : o.claim = o'.claim := by
    rw [claimX,claimY]
    obtain ⟨account,key⟩ := Prod.mk.injEq .. ▸ same
    rw [account,key]
  have rows := w.db.operationClaims.row (Table.findIff.mp rowX).1 (Table.findIff.mp rowY).1 claims
  have ids : a.operationId = b.operationId := by
    rw [← (Table.findIff.mp rowX).2,← (Table.findIff.mp rowY).2,rows]
  exact sound.owns foundX foundY ownX (ids ▸ ownY)

theorem nodupBy {β : Type*} (f : Nat × Attempt → β)
    (once : ((attempts w.log).map Prod.fst).Nodup)
    (apart : ∀ {i j a b}, (i,a) ∈ attempts w.log → (j,b) ∈ attempts w.log → f (i,a) = f (j,b) → i = j) :
    ((attempts w.log).map f).Nodup := by
  refine List.Nodup.map_on ?_ (once.of_map _)
  rintro ⟨i,a⟩ left ⟨j,b⟩ right same
  exact List.inj_on_of_nodup_map once left right (apart left right same)

/- What the system guarantees of one mutation that was sent: the commit that spent its
consent came first, and its unit was charged before it and is held ever after. -/
def Backed (config : Config) (db : Database) (now : DateTime) (labels : List Action) (w : World) (i : Nat)
    (a : Attempt) : Prop :=
  ∃ u label v before, Run (World.step config) free (World.start db now) before u ∧ before <+: labels ∧
    World.step config u label = some v ∧ v.log = u.log ++ [⟨some i,.attempt a⟩] ∧
    (∃ p label' q, Passes (World.step config) free (World.start db now) before u p label' q ∧ Submits p q a) ∧
    (∃ t, trail i u.log = [.charge config.writeGate a.request.accountId 1 t]) ∧
    (∃ t, trail i w.log = [.charge config.writeGate a.request.accountId 1 t]) ∧
    ∃ call reservation, w.processes[i]? = some (.write call) ∧ call.request = a.request ∧
      call.held = some reservation

theorem singleMutation (run : Run (World.step config) free (World.start db now) labels w) :
    ((attempts w.log).map (fun x => x.2.request.consentId)).Nodup ∧
    ((attempts w.log).map (fun x => (x.2.request.accountId,x.2.request.idempotencyKey))).Nodup ∧
    (∀ i a, (i,a) ∈ attempts w.log → Backed config db now labels w i a) ∧
    ∀ account windowStart, usage db account .bookmarkWrite windowStart + holders w account windowStart ≤
      usage w.db account .bookmarkWrite windowStart := by
  have books := booksRun run
  refine ⟨nodupBy _ books.once (consentsOnce run),nodupBy _ books.once (keysOnce run),?_,books.usage⟩
  intro i a member
  obtain ⟨u,label,v,before,first,inside,taken,logged,_,charged,cost,entry⟩ := attemptSent run member
  obtain ⟨p,label',q,passes,_,wrote⟩ := entryStep first entry
  obtain ⟨_,_,_,earlier,_⟩ := id passes
  obtain ⟨call,found⟩ := books.writers i a member
  obtain ⟨_,request,_,held⟩ := (books.calls found).sent a member
  obtain ⟨reservation,own⟩ := Option.isSome_iff_exists.mp held
  refine ⟨u,label,v,before,first,inside,taken,logged,⟨p,label',q,passes,submitted (soundRun earlier) wrote⟩,
    charged,?_,call,reservation,found,request.symm,own⟩
  rw [request]
  exact (books.calls found).paid held

end Runs

/- Two calls race for one consent; the first sends its mutation. -/
def submission : List Action :=
  sampleLink ++ [.spawn (sampleWrite "first"),.spawn (sampleWrite "second")] ++ advances 1 9 ++ advances 2 9 ++
    advances 1 2 ++ advances 2 2

def submissionEnd : World := (replay (World.step sampleConfig) free sampleStart submission).get (by decide +kernel)

theorem singleMutationAtSubmission :
    attempts submissionEnd.log = [(1,⟨1,sampleRequest "first",.add,sampleInstant⟩)] ∧
      Backed sampleConfig Database.empty sampleInstant submission submissionEnd 1
        ⟨1,sampleRequest "first",.add,sampleInstant⟩ := by
  have sent : attempts submissionEnd.log = [(1,⟨1,sampleRequest "first",.add,sampleInstant⟩)] := by decide +kernel
  have run : Run (World.step sampleConfig) free sampleStart submission submissionEnd :=
    replayRun (Option.some_get _).symm
  refine ⟨sent,(singleMutation run).2.2.1 1 _ ?_⟩
  rw [sent]
  exact List.mem_singleton_self _

end RatatoskrX.Capability
