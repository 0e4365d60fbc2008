import Mathlib.Logic.Function.Iterate
import RatatoskrX.Eligibility
import RatatoskrX.Foundation.Transition
import RatatoskrX.Schedule

/-! Whether a dry run predicts the live call. Both evaluate the same local admission;
the live call then decides the budget and the consent again, by a charge and by a locked
select. -/
namespace RatatoskrX.Preview
open Relational Schema Budget Writeback Journal Frames SyncCalls WriteCalls Eligibility

inductive LocalAdmission where
  | admitted (budgetResetAt : DateTime)
  | alreadySatisfied (observedAt : DateTime)
  | refused (refusal : BookmarkAdmissionRefusal) (resetAt : Option DateTime)
  deriving DecidableEq, Repr

/-- require_write_authority -/
def requireWriteAuthority (db : Database) (account : Uuid) : Option BookmarkAdmissionRefusal :=
  match credentialScopes db account with
  | none => some .writeAuthorizationRequired
  | some scopes => match db.authorizations.find account with
    | none => some .writeAuthorizationRequired
    | some authorization =>
      if authorization.status ≠ .active then some .writeAuthorizationRequired
      else if scopesGranted scopes authorization.grantedScopes then none
      else some .writeScopeRequired

section Admission
variable (gate : BudgetGate) (db : Database) (request : BookmarkWriteRequest) (action : BookmarkAction)
  (evaluatedAt : DateTime)

/- The last test of evaluate_local, and the two before it. -/
def admitBudget : Except BudgetError LocalAdmission :=
  match gate.inspect db request.accountId 1 evaluatedAt with
  | .error error => .error error
  | .ok inspection =>
    if inspection.eligible then .ok (.admitted inspection.resetAt)
    else .ok (.refused .budgetExhausted (some inspection.resetAt))

def admitObserved : Except BudgetError LocalAdmission :=
  match satisfiedAt action (observation db request.accountId request.providerPostId) with
  | some observedAt => .ok (.alreadySatisfied observedAt)
  | none => admitBudget gate db request evaluatedAt

def admitConsented : Except BudgetError LocalAdmission :=
  if (admittingConsent db request action evaluatedAt).isSome then admitObserved gate db request action evaluatedAt
  else .ok (.refused .consentRequired none)

/-- evaluate_local, where nothing else writes between its reads. -/
def evaluateLocal : Except BudgetError LocalAdmission :=
  match accountState db request.internalUserId request.accountId with
  | none => .ok (.refused .ownershipMismatch none)
  | some .connected => match requireWriteAuthority db request.accountId with
    | some refusal => .ok (.refused refusal none)
    | none => admitConsented gate db request action evaluatedAt
  | some _ => .ok (.refused .connectionInactive none)

end Admission

/- A call by itself: the archive, the call and what it has said so far. -/
structure Alone where
  db : Database
  call : WriteCall
  events : List Event

def Alone.after (s : Alone) (t : Step WriteCall) : Alone := ⟨t.db,t.next,s.events ++ t.event.toList⟩

section Alone
variable (gate : BudgetGate) (sha256 : List UInt8 → List UInt8) (now : DateTime)

/- One step with the statement succeeding, up to the provider call. -/
def Alone.advance (s : Alone) : Alone :=
  match s.call.pc with
  | .provider .. => s
  | _ => ((s.call.next gate sha256 s.db now .ok).map s.after).getD s

def Leads (s t : Alone) : Prop := ∃ n, (Alone.advance gate sha256 now)^[n] s = t

/- The call returns in t, or stands before its provider call there. -/
def Ends (s t : Alone) : Prop := Leads gate sha256 now s t ∧ t.advance gate sha256 now = t

end Alone

section Leading
variable {gate : BudgetGate} {sha256 : List UInt8 → List UInt8} {now : DateTime}

theorem leadsTrans {s t u} (first : Leads gate sha256 now s t) (second : Leads gate sha256 now t u) :
    Leads gate sha256 now s u := by
  obtain ⟨n,rfl⟩ := first
  obtain ⟨m,rfl⟩ := second
  exact ⟨m + n,Function.iterate_add_apply _ m n s⟩

theorem leadsStep {s : Alone} {t} (ok : s.call.next gate sha256 s.db now .ok = some t)
    (before : ∀ operationId instant, s.call.pc ≠ .provider operationId instant) :
    Leads gate sha256 now s (s.after t) := by
  refine ⟨1,?_⟩
  simp only [Function.iterate_one,Alone.advance]
  rw [ok]
  rfl

theorem endsUnique {s t u} (left : Ends gate sha256 now s t) (right : Ends gate sha256 now s u) : t = u := by
  have stays : ∀ {x} (n : Nat), Alone.advance gate sha256 now x = x → (Alone.advance gate sha256 now)^[n] x = x :=
    fun n fixed => Function.iterate_fixed fixed n
  obtain ⟨⟨n,rfl⟩,fixed⟩ := left
  obtain ⟨⟨m,rfl⟩,fixed'⟩ := right
  rw [← stays m fixed,← stays n fixed',← Function.iterate_add_apply,← Function.iterate_add_apply,Nat.add_comm]

theorem endsDone {s t} (leads : Leads gate sha256 now s t) {outcome} (pc : t.call.pc = .done outcome) :
    Ends gate sha256 now s t := by
  refine ⟨leads,?_⟩
  simp [Alone.advance,pc,WriteCall.next]

theorem endsProvider {s t} (leads : Leads gate sha256 now s t) {operationId instant}
    (pc : t.call.pc = .provider operationId instant) : Ends gate sha256 now s t := by
  refine ⟨leads,?_⟩
  simp [Alone.advance,pc]

def decided (call : WriteCall) (operationId : Uuid) (evaluatedAt : DateTime) :
    Except BudgetError LocalAdmission → WriteCall
  | .error error => call.at_ (.done (.refused (.budget error)))
  | .ok (.refused refusal resetAt) => call.refusing operationId evaluatedAt refusal resetAt
  | .ok (.alreadySatisfied observedAt) => call.satisfying operationId evaluatedAt observedAt
  | .ok (.admitted resetAt) => call.admitting operationId evaluatedAt resetAt

theorem leadsRead {s : Alone} {next} (ok : s.call.next gate sha256 s.db now .ok = some ⟨s.db,none,next⟩)
    (before : ∀ operationId instant, s.call.pc ≠ .provider operationId instant) :
    Leads gate sha256 now s {s with call := next} := by
  have leads := leadsStep ok before
  simpa [Alone.after] using leads

theorem leadsInspect {db call events operationId} :
    Leads gate sha256 now ⟨db,WriteCall.at_ call (.inspect operationId now),events⟩
      ⟨db,decided call operationId now (admitBudget gate db call.request now),events⟩ := by
  refine leadsRead ?_ (by simp [WriteCall.at_])
  simp only [WriteCall.next,WriteCall.at_,admitBudget]
  cases inspected : gate.inspect db call.request.accountId 1 now with
  | error error => rfl
  | ok inspection =>
    by_cases eligible : inspection.eligible = true
    · simp only [eligible,if_true]
      rfl
    · simp only [eligible]
      rfl

theorem leadsObservation {db call events operationId} :
    Leads gate sha256 now ⟨db,WriteCall.at_ call (.observation operationId now),events⟩
      ⟨db,decided call operationId now (admitObserved gate db call.request call.action now),events⟩ := by
  unfold admitObserved
  cases satisfied : satisfiedAt call.action (observation db call.request.accountId call.request.providerPostId) with
  | some observedAt =>
    refine leadsRead ?_ (by simp [WriteCall.at_])
    simp only [WriteCall.next,WriteCall.at_,satisfied]
    rfl
  | none =>
    refine leadsTrans (leadsRead ?_ (by simp [WriteCall.at_])) leadsInspect
    simp only [WriteCall.next,WriteCall.at_,satisfied]
    rfl

theorem leadsConsent {db call events operationId} :
    Leads gate sha256 now ⟨db,WriteCall.at_ call (.consent operationId now),events⟩
      ⟨db,decided call operationId now (admitConsented gate db call.request call.action now),events⟩ := by
  unfold admitConsented
  by_cases admitted : (admittingConsent db call.request call.action now).isSome = true
  · rw [if_pos admitted]
    refine leadsTrans (leadsRead ?_ (by simp [WriteCall.at_])) leadsObservation
    simp only [WriteCall.next,WriteCall.at_,admitted,if_true]
    rfl
  · rw [if_neg admitted]
    refine leadsRead ?_ (by simp [WriteCall.at_])
    simp only [WriteCall.next,WriteCall.at_,admitted]
    rfl

/- The two reads of require_write_authority. -/
theorem leadsAuthority {db call events operationId} :
    Leads gate sha256 now ⟨db,WriteCall.at_ call (.credential operationId now),events⟩
      ⟨db,decided call operationId now (match requireWriteAuthority db call.request.accountId with
        | some refusal => .ok (.refused refusal none)
        | none => admitConsented gate db call.request call.action now),events⟩ := by
  unfold requireWriteAuthority
  cases credential : credentialScopes db call.request.accountId with
  | none =>
    refine leadsRead ?_ (by simp [WriteCall.at_])
    simp only [WriteCall.next,WriteCall.at_,credential]
    rfl
  | some scopes =>
    have first : Leads gate sha256 now ⟨db,call.at_ (.credential operationId now),events⟩
        ⟨db,call.at_ (.authorization operationId now scopes),events⟩ := by
      refine leadsRead ?_ (by simp [WriteCall.at_])
      simp only [WriteCall.next,WriteCall.at_,credential]
      rfl
    refine leadsTrans first ?_
    cases authorized : db.authorizations.find call.request.accountId with
    | none =>
      refine leadsRead ?_ (by simp [WriteCall.at_])
      simp only [WriteCall.next,WriteCall.at_,authorized]
      rfl
    | some authorization =>
      by_cases active : authorization.status = .active
      · by_cases granted : scopesGranted scopes authorization.grantedScopes = true
        · simp only [active,granted,ne_eq,not_true_eq_false,if_true,if_false]
          refine leadsTrans (leadsRead ?_ (by simp [WriteCall.at_])) leadsConsent
          simp only [WriteCall.next,WriteCall.at_,authorized,active,granted,ne_eq,not_true_eq_false,if_true,if_false]
          rfl
        · simp only [active,granted,ne_eq,not_true_eq_false,if_false]
          refine leadsRead ?_ (by simp [WriteCall.at_])
          simp only [WriteCall.next,WriteCall.at_,authorized,active,granted,ne_eq,not_true_eq_false,if_false]
          rfl
      · simp only [active,ne_eq,not_false_eq_true,if_true]
        refine leadsRead ?_ (by simp [WriteCall.at_])
        simp only [WriteCall.next,WriteCall.at_,authorized,active,ne_eq,not_false_eq_true,if_true]
        rfl

/- From its first read on, a call goes where evaluate_local decides. -/
theorem leadsEvaluated (call) {db events operationId} :
    Leads gate sha256 now ⟨db,WriteCall.at_ call (.account operationId now),events⟩
      ⟨db,decided call operationId now (evaluateLocal gate db call.request call.action now),events⟩ := by
  have reads : Leads gate sha256 now ⟨db,call.at_ (.account operationId now),events⟩
      ⟨db,match accountState db call.request.internalUserId call.request.accountId with
        | none => call.refusing operationId now .ownershipMismatch none
        | some .connected => call.at_ (.credential operationId now)
        | some _ => call.refusing operationId now .connectionInactive none,events⟩ :=
    leadsRead rfl (by simp [WriteCall.at_])
  unfold evaluateLocal
  cases owned : accountState db call.request.internalUserId call.request.accountId with
  | none =>
    rw [owned] at reads
    exact reads
  | some state =>
    rw [owned] at reads
    cases state
    case connected => exact leadsTrans reads leadsAuthority
    all_goals exact reads

theorem leadsCommit {s : Alone} {c after next}
    (ok : s.call.next gate sha256 s.db now .ok = some ⟨after,some (.commit c),next⟩)
    (before : ∀ operationId instant, s.call.pc ≠ .provider operationId instant) :
    Leads gate sha256 now s ⟨after,next,s.events ++ [.commit c]⟩ :=
  leadsStep ok before

theorem leadsAudited (call : WriteCall) {operationId outcome} (stages : List (EventClass × Details)) (db events) :
    ∃ t, Leads gate sha256 now ⟨db,call.at_ (auditing operationId outcome stages),events⟩ t ∧
      t.call.pc = .done outcome := by
  induction stages generalizing db events with
  | nil => exact ⟨_,⟨0,rfl⟩,rfl⟩
  | cons stage rest ih =>
    obtain ⟨t,leads,pc⟩ := ih (Audit.appendOperationAuditDetails db operationId stage.1 stage.2 now)
      (events ++ [.commit (.appendAudit operationId stage.1 stage.2 now)])
    exact ⟨t,leadsTrans (leadsCommit rfl (by simp [WriteCall.at_,auditing])) leads,pc⟩

/- The tables that local admission reads. -/
structure Read (db after : Database) : Prop where
  accounts : after.accounts = db.accounts
  credentials : after.credentials = db.credentials
  authorizations : after.authorizations = db.authorizations
  consents : after.consents = db.consents
  posts : after.posts = db.posts
  bookmarks : after.bookmarks = db.bookmarks
  budgetWindows : after.budgetWindows = db.budgetWindows

theorem Read.refl (db : Database) : Read db db := ⟨rfl,rfl,rfl,rfl,rfl,rfl,rfl⟩

theorem Read.trans {a b c : Database} (first : Read a b) (second : Read b c) : Read a c where
  accounts := second.accounts.trans first.accounts
  credentials := second.credentials.trans first.credentials
  authorizations := second.authorizations.trans first.authorizations
  consents := second.consents.trans first.consents
  posts := second.posts.trans first.posts
  bookmarks := second.bookmarks.trans first.bookmarks
  budgetWindows := second.budgetWindows.trans first.budgetWindows

theorem Read.audit {db after : Database} (audits : Audit.AuditOnly db after) : Read db after := by
  obtain ⟨events,rfl⟩ := audits
  exact ⟨rfl,rfl,rfl,rfl,rfl,rfl,rfl⟩

theorem Read.inserted {db after : Database} {row} (ok : insertOperation db row = some after) : Read db after := by
  unfold insertOperation at ok
  split at ok
  · cases Option.some.inj ok
    exact ⟨rfl,rfl,rfl,rfl,rfl,rfl,rfl⟩
  · simp at ok

theorem evaluatedSame {db after : Database} (same : Read db after) (request action t) :
    evaluateLocal gate after request action t = evaluateLocal gate db request action t := by
  have owned : accountState after = accountState db := by unfold accountState; rw [same.accounts]
  have authority : requireWriteAuthority after = requireWriteAuthority db := by
    funext account
    simp only [requireWriteAuthority,credentialScopes,same.credentials,same.authorizations]
  have consented : admittingConsent after = admittingConsent db := by unfold admittingConsent; rw [same.consents]
  have observed : observation after = observation db := by
    unfold observation Database.postId Database.bookmark
    rw [same.posts,same.bookmarks]
  have inspected : gate.inspect after = gate.inspect db := by
    unfold BudgetGate.inspect usage windowUsage
    rw [same.budgetWindows]
  simp only [evaluateLocal,admitConsented,admitObserved,admitBudget,owned,authority,consented,observed,inspected]

/- A call with a fresh key claims its operation and comes to its first read, or returns an
error that is no admission refusal: its request is invalid, or the account does not exist. -/
theorem leadsClaimed (gate : BudgetGate) (now) (mode action) {request} (db : Database)
    (fresh : existingOperation db request.accountId (sha256Hex sha256 (utf8 request.idempotencyKey)) = none) :
    (∃ error, (validateRequest request = .error error ∨ validateRequest request = .ok () ∧
        db.accounts.find request.accountId = none ∧ error = .query) ∧
      Leads gate sha256 now ⟨db,⟨mode,action,request,.claim,none,none⟩,[]⟩
        ⟨db,⟨mode,action,request,.done (.refused error),none,none⟩,[]⟩) ∨
    (validateRequest request = .ok () ∧ (db.accounts.find request.accountId).isSome = true ∧
      ∃ after operationId events, Read db after ∧
        Leads gate sha256 now ⟨db,⟨mode,action,request,.claim,none,none⟩,[]⟩
          ⟨after,⟨mode,action,request,.account operationId now,some operationId,none⟩,events⟩) := by
  cases valid : validateRequest request with
  | error error =>
    refine .inl ⟨error,.inl rfl,leadsRead ?_ (by simp)⟩
    simp only [WriteCall.next,valid]
    rfl
  | ok u =>
    have row : existingOperation db (claimRow sha256 db request action mode).accountId
        (claimRow sha256 db request action mode).idempotencyDigest = none := fresh
    cases found : db.accounts.find request.accountId with
    | none =>
      have refused : Commit.effect (.claimOperation (claimRow sha256 db request action mode)) db = none := by
        refine dif_neg ?_
        rintro ⟨_,_,known⟩
        have missing : db.accounts.find (claimRow sha256 db request action mode).accountId = none := found
        simp [missing] at known
      refine .inl ⟨.query,.inr ⟨rfl,rfl,rfl⟩,leadsRead ?_ (by simp)⟩
      simp only [WriteCall.next,valid,row,transact,refused]
      rfl
    | some account =>
      have claimed : (claimRow sha256 db request action mode).claim ∉ db.operations.rows.map Operation.claim := by
        intro taken
        obtain ⟨o,member,same⟩ := List.mem_map.mp taken
        have absent := List.find?_eq_none.mp row o member
        simp only [decide_eq_true_eq] at absent
        exact absent same
      have known : (db.accounts.find (claimRow sha256 db request action mode).accountId).isSome = true := by
        have here : db.accounts.find (claimRow sha256 db request action mode).accountId = some account := found
        simp [here]
      obtain ⟨inserted,applied⟩ : ∃ after, insertOperation db (claimRow sha256 db request action mode) = some after :=
        ⟨_,dif_pos ⟨freshIdAbsent _,claimed,known⟩⟩
      have effect : Commit.effect (.claimOperation (claimRow sha256 db request action mode)) db = some inserted :=
        applied
      have first : Leads gate sha256 now ⟨db,⟨mode,action,request,.claim,none,none⟩,[]⟩
          ⟨inserted,⟨mode,action,request,.received (claimRow sha256 db request action mode).id,
            some (claimRow sha256 db request action mode).id,none⟩,
            [.commit (.claimOperation (claimRow sha256 db request action mode))]⟩ := by
        refine leadsCommit ?_ (by simp)
        simp only [WriteCall.next,valid,row,transact,effect]
        rfl
      exact .inr ⟨rfl,rfl,_,_,_,
        (Read.inserted applied).trans (.audit (Audit.detailsAuditOnly inserted _ .requestReceived [] now)),
        leadsTrans first (leadsCommit rfl (by simp))⟩

def predicted (action : BookmarkAction) : LocalAdmission → BookmarkDryRunOutcome
  | .admitted _ => .wouldSubmit action
  | .alreadySatisfied _ => .wouldAlreadySatisfy action
  | .refused refusal _ => .wouldRefuse refusal

theorem endsPreviewed (db : Database) (action request operationId operation held events)
    (admission : LocalAdmission) :
    ∃ t, Ends gate sha256 now
      ⟨db,decided ⟨.dryRun,action,request,.claim,operation,held⟩ operationId now (.ok admission),events⟩ t ∧
      ∃ result, t.call.pc = .done (.previewed result) ∧ result.outcome = predicted action admission := by
  have finish : ∀ result, ∃ t, Leads gate sha256 now
      ⟨db,⟨.dryRun,action,request,.preview operationId result,operation,held⟩,events⟩ t ∧
      t.call.pc = .done (.previewed result) := by
    intro result
    obtain ⟨t,leads,pc⟩ := leadsAudited ⟨.dryRun,action,request,.claim,operation,held⟩ (dryRunStages result)
      (completeDryRun db operationId result) (events ++ [.commit (.completeDryRun operationId result)])
    exact ⟨t,leadsTrans (leadsCommit rfl (by simp)) leads,pc⟩
  cases admission with
  | admitted resetAt =>
    obtain ⟨t,leads,pc⟩ := finish ⟨.wouldSubmit action,now,none,some resetAt,true⟩
    exact ⟨t,endsDone leads pc,_,pc,rfl⟩
  | alreadySatisfied observedAt =>
    obtain ⟨t,leads,pc⟩ := finish ⟨.wouldAlreadySatisfy action,now,some observedAt,none,true⟩
    exact ⟨t,endsDone leads pc,_,pc,rfl⟩
  | refused refusal resetAt =>
    obtain ⟨t,leads,pc⟩ := finish ⟨.wouldRefuse refusal,now,none,resetAt,true⟩
    exact ⟨t,endsDone leads pc,_,pc,rfl⟩

theorem admittedFacts {db request action resetAt}
    (ok : evaluateLocal gate db request action now = .ok (.admitted resetAt)) :
    (db.accounts.find request.accountId).isSome = true ∧ (admittingConsent db request action now).isSome = true ∧
      Fits gate db request.accountId 1 now := by
  unfold evaluateLocal at ok
  split at ok
  · simp at ok
  · rename_i owned
    have known : (db.accounts.find request.accountId).isSome = true := by
      unfold accountState at owned
      obtain ⟨account,found,_⟩ := Option.bind_eq_some_iff.mp owned
      simp [found]
    split at ok
    · simp at ok
    · unfold admitConsented at ok
      split at ok
      · rename_i consented
        unfold admitObserved at ok
        split at ok
        · simp at ok
        · unfold admitBudget at ok
          rcases inspectCases gate db request.accountId 1 now with ⟨t,_,form⟩ | ⟨_,error,form⟩
          · rw [form] at ok
            by_cases fits : Fits gate db request.accountId 1 now
            · exact ⟨known,consented,fits⟩
            · simp [fits] at ok
          · simp [form] at ok
      · simp at ok
  · simp at ok

theorem refusedReset {db request action refusal resetAt}
    (ok : evaluateLocal gate db request action now = .ok (.refused refusal resetAt)) :
    refusal = .budgetExhausted → resetAt.isSome = true := by
  rintro rfl
  unfold evaluateLocal at ok
  split at ok
  · simp at ok
  · split at ok
    · rename_i refused
      simp only [Except.ok.injEq,LocalAdmission.refused.injEq] at ok
      obtain ⟨rfl,rfl⟩ := ok
      unfold requireWriteAuthority at refused
      split at refused
      · simp at refused
      · split at refused
        · simp at refused
        · split at refused
          · simp at refused
          · split at refused <;> simp at refused
    · unfold admitConsented at ok
      split at ok
      · unfold admitObserved at ok
        split at ok
        · simp at ok
        · unfold admitBudget at ok
          split at ok
          · simp at ok
          · split at ok
            · simp at ok
            · simp only [Except.ok.injEq,LocalAdmission.refused.injEq,true_and] at ok
              simp [← ok]
      · simp at ok
  · simp at ok

def concluded (operationId : Uuid) (evaluatedAt : DateTime) : LocalAdmission → WritePc
  | .admitted _ => .provider operationId evaluatedAt
  | .alreadySatisfied _ => .done (.written ⟨operationId,.alreadySatisfied⟩)
  | .refused refusal resetAt => .done (.refused (admissionRefusalError refusal resetAt))

/- A live call returns what its admission says, or comes to the provider: the charge and
the locked select decide as the inspection and the read before them did. -/
theorem endsLive {before db : Database} {action request} (operationId operation events) {admission : LocalAdmission}
    (small : (gate.requestCapPerWindow.toNat : Int) ≤ maxI32) (same : Read before db)
    (evaluated : evaluateLocal gate before request action now = .ok admission) :
    ∃ t, Ends gate sha256 now
      ⟨db,decided ⟨.live,action,request,.claim,operation,none⟩ operationId now (.ok admission),events⟩ t ∧
      t.call.pc = concluded operationId now admission := by
  cases admission with
  | admitted resetAt =>
    rw [← evaluatedSame same] at evaluated
    obtain ⟨known,consented,fits⟩ := admittedFacts evaluated
    have storable : Storable gate := ⟨Nat.lt_of_lt_of_le (by decide) (UInt32.le_iff_toNat_le.mp fits.1),small⟩
    obtain ⟨⟨charged,reservation⟩,reserved⟩ :
        ∃ granted, gate.reserve db request.accountId 1 now = .ok granted := by
      rcases reserveCases gate 1 now known with ⟨above,_⟩ | ⟨_,unstored,_⟩ | ⟨_,_,full,_⟩ | ⟨_,_,granted⟩
      · exact absurd above (UInt32.not_lt.mpr fits.1)
      · exact absurd storable unstored
      · exact absurd fits full
      · exact granted
    have first : Leads gate sha256 now ⟨db,⟨.live,action,request,.reserve operationId now,operation,none⟩,events⟩
        ⟨charged,⟨.live,action,request,.consume operationId now reservation,operation,some reservation⟩,
          events ++ [.commit (.charge gate request.accountId 1 now)]⟩ := by
      refine leadsCommit ?_ (by simp)
      simp only [WriteCall.next,charging,reserved]
    -- the charge leaves the consents alone, so the locked select finds the row again
    have still : admittingConsent charged request action now = admittingConsent db request action now := by
      unfold admittingConsent
      rw [(chargeFrame reserved).consents (by simp)]
    obtain ⟨consent,admits⟩ := Option.isSome_iff_exists.mp consented
    obtain ⟨consumed,effect⟩ : ∃ after,
        Commit.effect (.consumeConsent operationId request action now reservation.cost) charged = some after := by
      rw [← still] at admits
      simp only [Commit.effect,consumeConsent,admits,Option.bind_eq_bind,Option.bind_some]
      exact ⟨_,rfl⟩
    have second : Leads gate sha256 now
        ⟨charged,⟨.live,action,request,.consume operationId now reservation,operation,some reservation⟩,
          events ++ [.commit (.charge gate request.accountId 1 now)]⟩
        ⟨consumed,⟨.live,action,request,.provider operationId now,operation,some reservation⟩,
          events ++ [.commit (.charge gate request.accountId 1 now)] ++
            [.commit (.consumeConsent operationId request action now reservation.cost)]⟩ := by
      refine leadsCommit ?_ (by simp)
      simp only [WriteCall.next,transact,effect]
      rfl
    exact ⟨_,endsProvider (leadsTrans first second) rfl,rfl⟩
  | alreadySatisfied observedAt =>
    obtain ⟨t,leads,pc⟩ := leadsAudited ⟨.live,action,request,.claim,operation,none⟩ satisfiedStages
      (completeOperation db operationId observedAt) (events ++ [.commit (.completeOperation operationId observedAt)])
    exact ⟨t,endsDone (leadsTrans (leadsCommit rfl (by simp [decided,WriteCall.satisfying,WriteCall.at_])) leads) pc,pc⟩
  | refused refusal resetAt =>
    obtain ⟨t,leads,pc⟩ := leadsAudited ⟨.live,action,request,.claim,operation,none⟩
      [(refusalEvent refusal,refusalDetails refusal resetAt)] (refuseOperation db operationId refusal resetAt)
      (events ++ [.commit (.refuseOperation operationId refusal resetAt)])
    exact ⟨t,endsDone (leadsTrans (leadsCommit rfl (by simp [decided,WriteCall.refusing,WriteCall.at_])) leads) pc,pc⟩

end Leading

def refusedClass : BookmarkWritebackError → Option BookmarkAdmissionRefusal
  | .ownershipMismatch => some .ownershipMismatch
  | .connectionInactive => some .connectionInactive
  | .writeAuthorizationRequired => some .writeAuthorizationRequired
  | .writeScopeRequired => some .writeScopeRequired
  | .consentRequired => some .consentRequired
  | .budget (.exhausted _) => some .budgetExhausted
  | _ => none

theorem refusedClassed {refusal resetAt} (carried : refusal = .budgetExhausted → Option.isSome resetAt = true) :
    refusedClass (admissionRefusalError refusal resetAt) = some refusal := by
  cases refusal with
  | budgetExhausted =>
    obtain ⟨t,rfl⟩ := Option.isSome_iff_exists.mp (carried rfl)
    rfl
  | _ => rfl

/- What is claimed of the ends of a dry run and of a live call from the same state. -/
structure Predicts (action : BookmarkAction) (preview live : Alone) : Prop where
  refuses : ∀ refusal, (∃ result, preview.call.pc = .done (.previewed result) ∧ result.outcome = .wouldRefuse refusal) ↔
    ∃ error, live.call.pc = .done (.refused error) ∧ refusedClass error = some refusal
  satisfies : (∃ result, preview.call.pc = .done (.previewed result) ∧ result.outcome = .wouldAlreadySatisfy action) ↔
    ∃ operationId, live.call.pc = .done (.written ⟨operationId,.alreadySatisfied⟩)
  submits : (∃ result, preview.call.pc = .done (.previewed result) ∧ result.outcome = .wouldSubmit action) ↔
    ∃ operationId t, live.call.pc = .provider operationId t

theorem predictsErrors {action preview live error error'} (left : preview.call.pc = .done (.refused error))
    (right : live.call.pc = .done (.refused error')) (unclassed : refusedClass error' = none) :
    Predicts action preview live where
  refuses := by simp [left,right,unclassed]
  satisfies := by simp [left,right]
  submits := by simp [left,right]

theorem predictsAdmission {action preview live operationId t result} {admission : LocalAdmission}
    (left : preview.call.pc = .done (.previewed result)) (outcome : result.outcome = predicted action admission)
    (carried : ∀ refusal resetAt, admission = .refused refusal resetAt →
      refusal = .budgetExhausted → resetAt.isSome = true)
    (right : live.call.pc = concluded operationId t admission) :
    Predicts action preview live := by
  cases admission with
  | admitted resetAt => constructor <;> simp_all [predicted,concluded]
  | alreadySatisfied observedAt => constructor <;> simp_all [predicted,concluded]
  | refused refusal resetAt =>
    have classed := refusedClassed (carried refusal resetAt rfl)
    constructor <;> simp_all [predicted,concluded]

section Frame
variable {gate : BudgetGate} {sha256 : List UInt8 → List UInt8}

def Alone.answered (gate : BudgetGate) (sha256 : List UInt8 → List UInt8) (s : Alone) (label : DateTime × Answer) :
    Option Alone :=
  (s.call.next gate sha256 s.db label.1 label.2).map s.after

/- The control points of a dry run; the operation it names is not one that was there before it. -/
def Dry (before : Database) (call : WriteCall) : Prop :=
  call.mode = .dryRun ∧ match call.pc with
    | .claim | .existing | .audit .. | .done _ => True
    | .received operationId | .account operationId _ | .credential operationId _ | .authorization operationId _ _
    | .consent operationId _ | .observation operationId _ | .inspect operationId _ | .preview operationId _ =>
      before.operations.find operationId = none
    | _ => False

/- What a dry run leaves alone: every table an action rests on, every operation that was
there before it, and the provider. -/
structure Untouched (before : Database) (s : Alone) : Prop where
  consents : s.db.consents = before.consents
  budgetWindows : s.db.budgetWindows = before.budgetWindows
  bookmarks : s.db.bookmarks = before.bookmarks
  credentials : s.db.credentials = before.credentials
  authorizations : s.db.authorizations = before.authorizations
  operations : ∀ operationId o, before.operations.find operationId = some o →
    s.db.operations.find operationId = some o
  silent : ∀ a, .attempt a ∉ s.events

theorem dryAuditing (before : Database) (call : WriteCall) (dry : call.mode = .dryRun) (operationId outcome)
    (stages : List (EventClass × Details)) : Dry before (call.at_ (auditing operationId outcome stages)) := by
  cases stages <;> exact ⟨dry,trivial⟩

theorem dryRefusing {before : Database} {call : WriteCall} (dry : call.mode = .dryRun) {operationId}
    (other : before.operations.find operationId = none) (t refusal resetAt) :
    Dry before (call.refusing operationId t refusal resetAt) := by
  simp only [WriteCall.refusing,dry]
  exact ⟨dry,other⟩

theorem dryJoining (before : Database) (call : WriteCall) (dry : call.mode = .dryRun) (row) :
    Dry before (call.joining sha256 row) := by
  unfold WriteCall.joining
  split
  · exact dryAuditing before call dry ..
  · rw [dry]
    cases storedWriteStatus row.status with
    | some status => exact dryAuditing before call dry ..
    | none => exact ⟨dry,trivial⟩

def Previews (before : Database) : Commit → Prop
  | .claimOperation _ | .appendAudit .. => True
  | .completeDryRun operationId _ => before.operations.find operationId = none
  | _ => False

/- One step of a dry run: a quiet one, or the commit of one of its statements. -/
def DryStep (before db : Database) (s : Step WriteCall) : Prop :=
  Dry before s.next ∧ ((s.db = db ∧ s.event = none) ∨
    ∃ c, s.event = some (.commit c) ∧ c.effect db = some s.db ∧ Previews before c)

theorem dryQuiet {before db : Database} {next : WriteCall} {s} (ok : quiet db next = some s) (left : Dry before next) :
    DryStep before db s := by
  rw [quietCases ok]
  exact ⟨left,.inl ⟨rfl,rfl⟩⟩

theorem dryReading {before db : Database} {answer} {next faulted : WriteCall} {s}
    (ok : reading db answer next faulted = some s) (left : Dry before next) (right : Dry before faulted) :
    DryStep before db s := by
  rcases readingCases ok with ⟨_,rfl⟩ | ⟨_,rfl⟩
  · exact ⟨left,.inl ⟨rfl,rfl⟩⟩
  · exact ⟨right,.inl ⟨rfl,rfl⟩⟩

theorem dryTransact {before db : Database} {answer c} {next refused faulted : WriteCall} {s}
    (ok : transact db answer c next refused faulted = some s) (kind : Previews before c) (first : Dry before next)
    (second : Dry before refused) (third : Dry before faulted) : DryStep before db s := by
  rcases transactCases ok with ⟨_,applied,⟨_,rfl⟩ | ⟨_,rfl⟩⟩ | ⟨_,_,rfl⟩ | ⟨_,rfl⟩
  · exact ⟨first,.inr ⟨c,rfl,applied,kind⟩⟩
  · exact ⟨third,.inr ⟨c,rfl,applied,kind⟩⟩
  · exact ⟨second,.inl ⟨rfl,rfl⟩⟩
  · exact ⟨third,.inl ⟨rfl,rfl⟩⟩

theorem dryStep {before db : Database} {call : WriteCall} {now answer s} (dry : Dry before call)
    (grows : ∀ operationId, db.operations.find operationId = none → before.operations.find operationId = none)
    (ok : call.next gate sha256 db now answer = some s) : DryStep before db s := by
  obtain ⟨mode,stands⟩ := dry
  unfold WriteCall.next at ok
  cases pc : call.pc <;> rw [pc] at stands <;> try exact stands.elim
  case claim =>
    simp only [pc] at ok
    split at ok
    · exact dryQuiet ok ⟨mode,trivial⟩
    · split at ok
      · exact dryReading ok ⟨mode,trivial⟩ ⟨mode,trivial⟩
      · refine dryTransact ok trivial ⟨mode,grows _ (Table.findNone.mpr (freshIdAbsent _))⟩ ⟨mode,trivial⟩ ?_
        split <;> exact ⟨mode,trivial⟩
  case received operationId =>
    simp only [pc] at ok
    exact dryTransact ok trivial ⟨mode,stands⟩ ⟨mode,trivial⟩ ⟨mode,trivial⟩
  case existing =>
    simp only [pc] at ok
    split at ok
    · exact dryReading ok ⟨mode,trivial⟩ ⟨mode,trivial⟩
    · exact dryReading ok (dryJoining before call mode _) ⟨mode,trivial⟩
  case audit operationId stage rest outcome =>
    simp only [pc] at ok
    exact dryTransact ok trivial (dryAuditing before call mode ..) ⟨mode,trivial⟩ ⟨mode,trivial⟩
  case account operationId t =>
    simp only [pc] at ok
    refine dryReading ok ?_ ⟨mode,trivial⟩
    split
    · exact dryRefusing mode stands ..
    · exact ⟨mode,stands⟩
    · exact dryRefusing mode stands ..
  case credential operationId t =>
    simp only [pc] at ok
    refine dryReading ok ?_ ⟨mode,trivial⟩
    split
    · exact dryRefusing mode stands ..
    · exact ⟨mode,stands⟩
  case authorization operationId t scopes =>
    simp only [pc] at ok
    refine dryReading ok ?_ ⟨mode,trivial⟩
    split
    · exact dryRefusing mode stands ..
    · split
      · exact dryRefusing mode stands ..
      · split
        · exact ⟨mode,stands⟩
        · exact dryRefusing mode stands ..
  case consent operationId t =>
    simp only [pc] at ok
    refine dryReading ok ?_ ⟨mode,trivial⟩
    split
    · exact ⟨mode,stands⟩
    · exact dryRefusing mode stands ..
  case observation operationId t =>
    simp only [pc] at ok
    refine dryReading ok ?_ ⟨mode,trivial⟩
    split
    · simp only [WriteCall.satisfying,mode]
      exact ⟨mode,stands⟩
    · exact ⟨mode,stands⟩
  case inspect operationId t =>
    simp only [pc] at ok
    split at ok
    · exact dryQuiet ok ⟨mode,trivial⟩
    · refine dryReading ok ?_ ⟨mode,trivial⟩
      split
      · simp only [WriteCall.admitting,mode]
        exact ⟨mode,stands⟩
      · exact dryRefusing mode stands ..
  case preview operationId result =>
    simp only [pc] at ok
    exact dryTransact ok stands (dryAuditing before call mode ..) ⟨mode,trivial⟩ ⟨mode,trivial⟩
  case done outcome => simp [pc] at ok

theorem previewsRead {before db after : Database} {c : Commit} (kind : Previews before c)
    (applied : c.effect db = some after) : Read db after := by
  cases c <;> try exact kind.elim
  case claimOperation row => exact .inserted applied
  case appendAudit a b d e =>
    cases Option.some.inj applied
    exact .audit (Audit.detailsAuditOnly ..)
  case completeDryRun operationId result =>
    cases Option.some.inj applied
    exact ⟨rfl,rfl,rfl,rfl,rfl,rfl,rfl⟩

theorem previewsKeep {before db after : Database} {c : Commit} (kind : Previews before c)
    (applied : c.effect db = some after) {operationId o} (known : before.operations.find operationId = some o)
    (found : db.operations.find operationId = some o) : after.operations.find operationId = some o := by
  cases c <;> try exact kind.elim
  case claimOperation row =>
    simp only [Commit.effect,insertOperation] at applied
    split at applied
    · rename_i free
      cases Option.some.inj applied
      simp only [Table.findAppend]
      split
      · rename_i same
        have absent := Table.findNone.mpr free.1
        rw [same,found] at absent
        simp at absent
      · exact found
    · simp at applied
  case appendAudit a b d e =>
    cases Option.some.inj applied
    obtain ⟨events,same⟩ := Audit.detailsAuditOnly db a b d e
    rw [same]
    exact found
  case completeDryRun other result =>
    cases Option.some.inj applied
    have apart : operationId ≠ other := by
      rintro rfl
      have missing : before.operations.find operationId = none := kind
      rw [known] at missing
      simp at missing
    have keyed : o.id = operationId := Table.findKey found
    have moved := Database.operationUpdate db (fun o => o.id = other && o.status = .received) (dryRunRow result)
      (fun _ => rfl) (fun _ => rfl) operationId
    refine moved.trans ?_
    simp [found,keyed,apart]

theorem untouchedRun {before : Database} {action request labels s}
    (run : Transition.Run (Alone.answered gate sha256) Transition.free
      ⟨before,⟨.dryRun,action,request,.claim,none,none⟩,[]⟩ labels s) : Untouched before s := by
  have all := run.preserves
    (fun s => Dry before s.call ∧ Read before s.db ∧
      (∀ operationId o, before.operations.find operationId = some o → s.db.operations.find operationId = some o) ∧
      ∀ a, .attempt a ∉ s.events) ?_ ⟨⟨rfl,trivial⟩,.refl before,fun _ _ found => found,by simp⟩
  · obtain ⟨_,read,kept,silent⟩ := all
    exact ⟨read.consents,read.budgetWindows,read.bookmarks,read.credentials,read.authorizations,kept,silent⟩
  · rintro s ⟨now,answer⟩ t ⟨dry,read,kept,silent⟩ _ taken
    obtain ⟨next,ok,rfl⟩ := Option.map_eq_some_iff.mp taken
    have grows : ∀ operationId, s.db.operations.find operationId = none → before.operations.find operationId = none := by
      intro operationId absent
      cases found : before.operations.find operationId with
      | none => rfl
      | some o =>
        rw [kept operationId o found] at absent
        simp at absent
    obtain ⟨dryNext,⟨same,quiet⟩ | ⟨c,wrote,applied,kind⟩⟩ := dryStep dry grows ok
    · refine ⟨dryNext,?_,?_,?_⟩
      · simpa only [Alone.after,same] using read
      · simpa only [Alone.after,same] using kept
      · simpa only [Alone.after,quiet,Option.toList_none,List.append_nil] using silent
    · refine ⟨dryNext,read.trans (previewsRead kind applied),?_,?_⟩
      · exact fun operationId o found => previewsKeep kind applied found (kept operationId o found)
      · intro a member
        simp only [Alone.after,wrote,Option.toList_some,List.mem_append,List.mem_singleton,reduceCtorEq,or_false] at member
        exact silent a member

end Frame

theorem invalidUnclassed {request error} (invalid : validateRequest request = .error error) :
    refusedClass error = none := by
  unfold validateRequest validateProviderPostId at invalid
  simp only [bind,Except.bind] at invalid
  split at invalid
  · rename_i refused
    split at refused
    · simp at refused
    · cases Except.error.inj refused
      cases Except.error.inj invalid
      rfl
  · split at invalid
    · cases Except.error.inj invalid
      rfl
    · simp [pure,Except.pure] at invalid

/- The one error of evaluate_local is a window without a representable end. -/
theorem evaluatedUnclassed {gate : BudgetGate} {db request action now error}
    (failed : evaluateLocal gate db request action now = .error error) : refusedClass (.budget error) = none := by
  unfold evaluateLocal at failed
  split at failed
  · simp at failed
  · split at failed
    · simp at failed
    · unfold admitConsented at failed
      split at failed
      · unfold admitObserved at failed
        split at failed
        · simp at failed
        · unfold admitBudget at failed
          split at failed
          · rename_i error' inspected
            cases Except.error.inj failed
            unfold BudgetGate.inspect at inspected
            cases reset : gate.resetAt (windowStartFor now gate.windowSeconds) with
            | ok t => simp [reset,bind,Except.bind,pure,Except.pure] at inspected
            | error reason =>
              simp only [reset,bind,Except.bind,Except.error.injEq] at inspected
              subst inspected
              obtain ⟨text,rfl⟩ := resetFails reset
              rfl
          · split at failed <;> simp at failed
      · simp at failed
  · simp at failed

section Prediction
variable (gate : BudgetGate) (sha256 : List UInt8 → List UInt8) (now : DateTime)

/- A call of dry_run or execute at its start. -/
def starting (db : Database) (mode : ExecutionMode) (action : BookmarkAction) (request : BookmarkWriteRequest) : Alone :=
  ⟨db,⟨mode,action,request,.claim,none,none⟩,[]⟩

/- From one state and instant both calls end, and their ends agree. The two requests may
carry different keys, each of them fresh and both of an admissible length or neither. -/
theorem predictsEnds {db : Database} {request : BookmarkWriteRequest} {action : BookmarkAction} {key : String}
    (small : (gate.requestCapPerWindow.toNat : Int) ≤ maxI32)
    (valid : validateRequest {request with idempotencyKey := key} = validateRequest request)
    (fresh : existingOperation db request.accountId (sha256Hex sha256 (utf8 request.idempotencyKey)) = none)
    (freshLive : existingOperation db request.accountId (sha256Hex sha256 (utf8 key)) = none) :
    ∃ preview live, Ends gate sha256 now (starting db .dryRun action request) preview ∧
      Ends gate sha256 now (starting db .live action {request with idempotencyKey := key}) live ∧
      Predicts action preview live := by
  have classless : ∀ {r error}, (validateRequest r = .error error ∨ validateRequest r = .ok () ∧
      db.accounts.find r.accountId = none ∧ error = .query) → refusedClass error = none := by
    rintro r error (invalid | ⟨_,_,rfl⟩)
    · exact invalidUnclassed invalid
    · rfl
  have liveFresh : existingOperation db ({request with idempotencyKey := key} : BookmarkWriteRequest).accountId
      (sha256Hex sha256 (utf8 ({request with idempotencyKey := key} : BookmarkWriteRequest).idempotencyKey)) = none :=
    freshLive
  rcases leadsClaimed gate now .dryRun action db fresh with
      ⟨error,cause,preview⟩ | ⟨ok,known,after,operationId,events,read,preview⟩ <;>
    rcases leadsClaimed gate now .live action db liveFresh with
      ⟨error',cause',live⟩ | ⟨ok',known',after',operationId',events',read',live⟩
  · exact ⟨_,_,endsDone preview rfl,endsDone live rfl,predictsErrors rfl rfl (classless cause')⟩
  · rcases cause with invalid | ⟨_,missing,_⟩
    · rw [valid,invalid] at ok'
      simp at ok'
    · have present : (db.accounts.find request.accountId).isSome = true := known'
      simp [missing] at present
  · rcases cause' with invalid | ⟨_,missing,_⟩
    · rw [valid,ok] at invalid
      simp at invalid
    · have absent : db.accounts.find request.accountId = none := missing
      simp [absent] at known
  · have previewed := leadsTrans preview
      (leadsEvaluated ⟨.dryRun,action,request,.claim,some operationId,none⟩)
    have lived := leadsTrans live
      (leadsEvaluated ⟨.live,action,{request with idempotencyKey := key},.claim,some operationId',none⟩)
    simp only [evaluatedSame read,evaluatedSame read'] at previewed lived
    cases evaluated : evaluateLocal gate db request action now with
    | error error =>
      have again : evaluateLocal gate db {request with idempotencyKey := key} action now = .error error := evaluated
      rw [evaluated] at previewed
      rw [again] at lived
      exact ⟨_,_,endsDone previewed rfl,endsDone lived rfl,predictsErrors rfl rfl (evaluatedUnclassed evaluated)⟩
    | ok admission =>
      have again : evaluateLocal gate db {request with idempotencyKey := key} action now = .ok admission := evaluated
      rw [evaluated] at previewed
      rw [again] at lived
      obtain ⟨t,⟨leads,fixed⟩,result,pc,outcome⟩ :=
        endsPreviewed after action request operationId (some operationId) none events admission
      obtain ⟨u,⟨leads',fixed'⟩,ending⟩ := endsLive operationId' (some operationId') events' small read' again
      exact ⟨t,u,⟨leadsTrans previewed leads,fixed⟩,⟨leadsTrans lived leads',fixed'⟩,
        predictsAdmission pc outcome (fun refusal resetAt refused => refusedReset (refused ▸ evaluated)) ending⟩

/- Neither call fails where the database is there, so both ends exist; and nothing a dry
run does, at any instant and under any answer, touches more than its own operation. -/
theorem dryRunPredictsLive (db : Database) (request : BookmarkWriteRequest) (action : BookmarkAction) (key : String)
    (small : (gate.requestCapPerWindow.toNat : Int) ≤ maxI32)
    (valid : validateRequest {request with idempotencyKey := key} = validateRequest request)
    (fresh : existingOperation db request.accountId (sha256Hex sha256 (utf8 request.idempotencyKey)) = none)
    (freshLive : existingOperation db request.accountId (sha256Hex sha256 (utf8 key)) = none) :
    (∃ preview, Ends gate sha256 now (starting db .dryRun action request) preview) ∧
    (∃ live, Ends gate sha256 now (starting db .live action {request with idempotencyKey := key}) live) ∧
    (∀ preview live, Ends gate sha256 now (starting db .dryRun action request) preview →
      Ends gate sha256 now (starting db .live action {request with idempotencyKey := key}) live →
      Predicts action preview live) ∧
    ∀ labels s, Transition.Run (Alone.answered gate sha256) Transition.free (starting db .dryRun action request)
      labels s → Untouched db s := by
  obtain ⟨preview,live,previewed,lived,predicts⟩ := predictsEnds gate sha256 now small valid fresh freshLive
  refine ⟨⟨preview,previewed⟩,⟨live,lived⟩,?_,fun labels s run => untouchedRun run⟩
  intro preview' live' left right
  rw [← endsUnique previewed left,← endsUnique lived right]
  exact predicts

end Prediction
section Sample
open Schedule

/- SHA-256 on the inputs of the two calls below. -/
def previewSha256 (input : List UInt8) : List UInt8 :=
  if input = fingerprintInput
      [utf8 (uuidText 7),utf8 (uuidText 1),utf8 "add",utf8 "100",utf8 (uuidText 1),utf8 "dry_run"] then
    [193,185,52,168,28,49,132,112,142,39,157,127,59,70,225,99,244,191,17,195,119,172,222,249,200,172,156,110,
      93,105,24,24]
  else sampleConfig.sha256 input

def linked : World := (Transition.replay (World.step sampleConfig) Transition.free sampleStart sampleLink).get
  (by decide +kernel)

/- A connected account with a recorded consent and an unused window. -/
theorem dryRunPredictsAtLink :
    evaluateLocal sampleConfig.writeGate linked.db (sampleRequest "first") .add Schedule.sampleInstant =
        .ok (.admitted ⟨1784797200000000 + 900000000,by decide⟩) ∧
      ∃ preview live,
        Ends sampleConfig.writeGate previewSha256 Schedule.sampleInstant
          (starting linked.db .dryRun .add (sampleRequest "first")) preview ∧
        Ends sampleConfig.writeGate previewSha256 Schedule.sampleInstant
          (starting linked.db .live .add (sampleRequest "second")) live ∧
        Predicts .add preview live := by
  obtain ⟨⟨preview,previewed⟩,⟨live,lived⟩,predicts,_⟩ :=
    dryRunPredictsLive sampleConfig.writeGate previewSha256 Schedule.sampleInstant linked.db (sampleRequest "first") .add
      "second" (by decide) (by decide +kernel) (by decide +kernel) (by decide +kernel)
  exact ⟨by decide +kernel,preview,live,previewed,lived,predicts preview live previewed lived⟩

end Sample
end RatatoskrX.Preview
