import RatatoskrX.ConnectionMoves
import RatatoskrX.Preview

/-! Histories of whole connection calls. Four flows write credential rows and no constraint
keeps them apart, so what a history leaves depends on whether a read exchange ever met an
active credential. -/
namespace RatatoskrX.ConnectionHistory
open Relational Schema Writeback Sealing Connection ConnectionMoves Transition

def step (config : Config) (v : Vault) (c : Call) : Option Vault := some (c.run config v).1

def Successful (config : Config) (v : Vault) (c : Call) : Prop := (c.run config v).2 = .ok

instance (config v c) : Decidable (Successful config v c) := by
  unfold Successful; infer_instance

/- A vault before its first connection: accounts, and no grant of any of them. -/
structure Unconnected (v : Vault) : Prop where
  credentials : v.credentials.rows = []
  authorizations : v.authorizations.rows = []

section Grants

def grantOf (account : Uuid) : Call → Option CredentialPayload
  | .exchangeCode a env => if a = account then env.tokens.toOption.map TokenResponse.payload else none
  | .exchangeBookmarkWriteCode accepted env =>
    if accepted.purpose = .bookmarkWrite account then env.tokens.toOption.map TokenResponse.payload else none
  | .refresh a _ env => if a = account then env.tokens.toOption.map TokenResponse.payload else none
  | .revoke _ _ => none

def grantAfter (account : Uuid) (granted : Option CredentialPayload) (c : Call) : Option CredentialPayload :=
  (grantOf account c).or granted

def lastGrant (account : Uuid) (calls : List Call) : Option CredentialPayload :=
  calls.foldl (grantAfter account) none

/- No active credential, or one alone that holds the last pair granted. -/
def SoleGrant (config : Config) (account : Uuid) (granted : Option CredentialPayload) (v : Vault) : Prop :=
  actives v account = [] ∨ ∃ row p, actives v account = [row] ∧ granted = some p ∧
    openPayload config account row.encryptedPayload = .ok p

/- A read exchange of the account finds no active credential of it. -/
def Unreplaced (account : Uuid) (v : Vault) (c : Call) : Prop :=
  ∀ env, c = .exchangeCode account env → lockActiveForAccount v account = none

variable {config : Config} {v after : Vault} {account : Uuid}

theorem storedRow {c row} (form : storedBy config v c = some row) : ∃ account env tokens, c = .exchangeCode account env ∧
    env.tokens = .ok tokens ∧ row.accountId = account ∧ row.status = .active ∧
      row.encryptedPayload = sealPayload config env.nonce account tokens.payload ∧
      row.grantedScopes = observedGrant tokens.scope config.readScopes := by
  cases c with
  | exchangeCode owner env =>
    simp only [storedBy] at form
    split at form
    · simp at form
    · have full := (Option.filter_eq_some_iff.mp form).1
      unfold connectionRow at full
      split at full
      · simp at full
      · rename_i tokens answered
        dsimp only at full
        split at full
        · obtain ⟨_,_,rfl⟩ := Option.map_eq_some_iff.mp full
          exact ⟨owner,env,tokens,rfl,answered,rfl,rfl,rfl,rfl⟩
        · simp at full
  | _ => simp [storedBy] at form

theorem connectedActives {row stored} (form : storedBy config v (.exchangeCode account env) = some row)
    (inserted : insertCredential v row = some stored) (other) :
    actives stored other = actives v other ++ if other = account then [row] else [] := by
  obtain ⟨_,_,_,same,_,mine,active,_⟩ := storedRow form
  cases same
  subst mine
  rw [insertedActives inserted]
  by_cases here : other = row.accountId
  · simp [here,activeOf,active]
  · simp [here,activeOf,Ne.symm here]

theorem rotatedActives {row stored response nonce expiresAt} (locked : lockActiveForAccount v account = some row)
    (swapped : rotate config account row stored response nonce expiresAt v = (after,true)) (other) :
    actives after other = (actives v other).map (fun c => if c.id = row.id then
      {c with
        encryptedPayload := sealPayload config nonce account response.payload
        expiresAt := some expiresAt
        supersededRefreshHash := some (refreshHash config stored.refreshToken)} else c) := by
  obtain ⟨present,_,active⟩ := lockMember locked
  unfold rotate rotateGuarded at swapped
  rw [← (Prod.mk.inj swapped).1]
  refine (updatedActives v _ _ ?_ other).trans (List.map_congr_left (fun c member => ?_))
  · exact fun _ => ⟨rfl,rfl⟩
  have there := (memActives.mp member).1
  by_cases mine : c.id = row.id
  · -- one row of the identity: the one that was locked
    cases v.credentials.sameRow there present mine
    simp [active]
  · simp [mine]

theorem soleStep {c outcome} (moves : Moves config v c after outcome) (ended : outcome = .ok) (alone : Unreplaced account v c)
    {granted} (sole : SoleGrant config account granted v) : SoleGrant config account (grantAfter account granted c) after := by
  have unchanged : ∀ {v' : Vault}, grantOf account c = none → actives v' account = actives v account →
      SoleGrant config account (grantAfter account granted c) v' := by
    intro v' ungranted same
    unfold SoleGrant grantAfter
    rw [ungranted,same,Option.none_or]
    exact sole
  cases moves with
  | still _ _ unfinished | expired _ unfinished | replayed _ unfinished => exact absurd ended unfinished
  | audited => simp at ended
  | absent none => exact unchanged rfl rfl
  | @connected owner env row stored _ _ form inserted marked =>
    rcases marked with ⟨_,unfinished⟩ | rfl
    · exact absurd ended unfinished
    have rows := connectedActives form inserted account
    by_cases mine : account = owner
    · subst mine
      obtain ⟨_,_,tokens,same,answered,_,_,payload,_⟩ := storedRow form
      cases same
      have empty := lockNone.mp (alone env rfl)
      refine .inr ⟨row,tokens.payload,?_,?_,?_⟩
      · refine Eq.trans rows ?_
        rw [empty,if_pos rfl]
        rfl
      · simp [grantAfter,grantOf,answered,Except.toOption]
      · rw [payload]
        exact openSealedPayload ..
    · refine unchanged (by simp [grantOf,Ne.symm mine]) ?_
      refine Eq.trans rows ?_
      rw [if_neg mine,List.append_nil]
  | @activated accepted env activation tokens _ _ purpose answered payload applied =>
    have rows := activatedActives applied account
    by_cases mine : account = activation.accountId
    · subst mine
      rw [if_pos rfl] at rows
      refine .inr ⟨_,tokens.payload,rows,?_,?_⟩
      · simp [grantAfter,grantOf,purpose,answered,Except.toOption]
      · dsimp only
        rw [payload]
        exact openSealedPayload ..
    · rw [if_neg mine] at rows
      exact unchanged (by simp [grantOf,purpose,Ne.symm mine]) rows
  | @rotated owner presented env row stored response expiresAt _ _ _ locked answered swapped =>
    have rows := rotatedActives locked swapped account
    obtain ⟨present,belongs,_⟩ := lockMember locked
    by_cases mine : owner = account
    · subst mine
      rcases sole with empty | ⟨only,p,single,_,_⟩
      · rw [lockNone.mpr empty] at locked
        simp at locked
      · have same : only = row := by
          have member : row ∈ actives v owner := memActives.mpr (lockMember locked)
          rw [single] at member
          exact (List.mem_singleton.mp member).symm
        subst same
        rw [single,List.map_singleton,if_pos rfl] at rows
        refine .inr ⟨_,response.payload,rows,?_,?_⟩
        · simp [grantAfter,grantOf,answered,Except.toOption]
        · exact openSealedPayload ..
    · refine unchanged (by simp [grantOf,mine]) ?_
      rw [rows]
      refine (List.map_congr_left (fun c member => if_neg ?_)).trans (List.map_id _)
      intro same
      obtain ⟨there,belongs',_⟩ := memActives.mp member
      cases v.credentials.sameRow there present same
      exact mine (belongs.symm.trans belongs')
  | @revoked owner env row _ gone =>
    unfold SoleGrant grantAfter
    rw [scrubbedActives,show grantOf account (.revoke owner env) = none from rfl,Option.none_or]
    rcases sole with empty | ⟨only,p,single,grant,opened⟩
    · rw [empty]
      exact .inl rfl
    · rw [single]
      by_cases out : only.id = row.id
      · exact .inl (by simp [out])
      · exact .inr ⟨only,p,by simp [out],grant,opened⟩

theorem soleRun {labels w granted} (run : Transition.Run (step config) (fun v c => Successful config v c ∧ Unreplaced account v c)
    v labels w) (sole : SoleGrant config account granted v) :
    SoleGrant config account (labels.foldl (grantAfter account) granted) w := by
  induction run generalizing granted with
  | nil => exact sole
  | @cons s c t rest u meets taken later ih =>
    cases Option.some.inj taken
    exact ih (soleStep (callMoves config s c) meets.1 meets.2 sole)

/- At every moment of a history of successful calls the account has at most one active
credential, with the last pair granted, just where no read exchange met one. -/
theorem soleGrantExactly (config : Config) (start : Vault) (unconnected : Unconnected start) (labels : List Call) (w : Vault)
    (run : Transition.Run (step config) (Successful config) start labels w) (account : Uuid) :
    (∀ before after v, labels = before ++ after → Transition.Run (step config) (Successful config) start before v →
      SoleGrant config account (lastGrant account before) v) ↔
    ∀ v c u, Passes (step config) (Successful config) start labels w v c u → Unreplaced account v c := by
  constructor
  · rintro sole v _ u ⟨before,after,rfl,first,meets,taken,_⟩ env rfl
    by_contra present
    have second := sole (before ++ [.exchangeCode account env]) after u (by simp)
      (first.append (.cons meets taken (.nil u)))
    cases Option.some.inj taken
    have moves := callMoves config v (.exchangeCode account env)
    generalize (Call.run config (.exchangeCode account env) v).1 = next at moves second
    have ended : (Call.run config (.exchangeCode account env) v).2 = .ok := meets
    rw [ended] at moves
    cases moves with
    | still _ _ unfinished => exact unfinished rfl
    | @connected _ _ row stored _ _ form inserted marked =>
      rcases marked with ⟨_,unfinished⟩ | rfl
      · exact unfinished rfl
      have rows : actives (setAccountState stored account .connected) account = actives v account ++ [row] := by
        refine (connectedActives form inserted account).trans ?_
        rw [if_pos rfl]
      have occupied : actives v account ≠ [] := fun empty => present (lockNone.mpr empty)
      unfold SoleGrant at second
      rw [rows] at second
      rcases second with empty | ⟨only,_,single,_⟩
      · simp at empty
      · have lengths := congrArg List.length single
        have some_ := List.length_pos_iff.mpr occupied
        simp only [List.length_append,List.length_singleton] at lengths
        omega
  · rintro unreplaced before after v rfl first
    obtain ⟨x,first',rest⟩ := run.split
    cases first'.unique first
    have guarded := first.meets (fun v c => Successful config v c ∧ Unreplaced account v c) (by
      rintro s c t ⟨earlier,later,rfl,begun,meets,taken,last⟩
      exact ⟨meets,unreplaced s c t ⟨earlier,later ++ after,by simp,begun,meets,taken,last.append rest⟩⟩)
    exact soleRun guarded (.inl (by simp [actives,unconnected.credentials]))

def sampleVault : Vault := ⟨⟨[⟨1,7,"user-1",.connected⟩],by decide⟩,.empty,.empty⟩

def sampleExchange (r : TokenResponse) (n : Nat) : Call :=
  .exchangeCode 1 ⟨.ok r,sampleNonce (UInt8.ofNat n),Schedule.sampleInstant,n,Schedule.sampleInstant,.ok,.ok⟩

def sampleRefresh (r : TokenResponse) (n : UInt8) : Call :=
  .refresh 1 none ⟨.ok,.ok r,sampleNonce n,Schedule.sampleInstant,.ok⟩

def sampleRevoke : Call := .revoke 1 ⟨.ok,.ok (),.ok⟩

def firstResponse : TokenResponse := sampleResponse 1 none (by decide +kernel)
theorem secondStorable : (samplePair 2).Storable := by decide +kernel

def secondResponse : TokenResponse := sampleResponse 2 none secondStorable
def thirdResponse : TokenResponse := sampleResponse 3 none (by decide +kernel)

def reconnected : List Call := [sampleExchange firstResponse 1,sampleExchange secondResponse 2]

def rotatedThenRevoked : List Call :=
  [sampleExchange firstResponse 1,sampleRefresh secondResponse 2,sampleRevoke,sampleExchange thirdResponse 3]

def reconnectedEnd : Vault :=
  (replay (step sampleService) (Successful sampleService) sampleVault reconnected).get (by decide +kernel)

def rotatedThenRevokedEnd : Vault :=
  (replay (step sampleService) (Successful sampleService) sampleVault rotatedThenRevoked).get (by decide +kernel)

theorem soleGrantAfterRevocation :
    ((actives rotatedThenRevokedEnd 1).map CredentialRow.id = [3] ∧
      lastGrant 1 rotatedThenRevoked = some (samplePair 3)) ∧
    ((∀ before after v, rotatedThenRevoked = before ++ after →
        Transition.Run (step sampleService) (Successful sampleService) sampleVault before v →
          SoleGrant sampleService 1 (lastGrant 1 before) v) ↔
      ∀ v c u, Passes (step sampleService) (Successful sampleService) sampleVault rotatedThenRevoked
        rotatedThenRevokedEnd v c u → Unreplaced 1 v c) :=
  ⟨by decide +kernel,soleGrantExactly sampleService sampleVault ⟨rfl,rfl⟩ _ rotatedThenRevokedEnd
    (replayRun (Option.some_get _).symm) 1⟩

theorem reconnectKeepsBoth :
    ¬∀ config start, Unconnected start → ∀ labels w, Transition.Run (step config) (Successful config) start labels w →
      ∀ account before after v, labels = before ++ after →
        Transition.Run (step config) (Successful config) start before v →
          SoleGrant config account (lastGrant account before) v := by
  intro claim
  have run : Transition.Run (step sampleService) (Successful sampleService) sampleVault reconnected reconnectedEnd :=
    replayRun (Option.some_get _).symm
  have both : (actives reconnectedEnd 1).length = 2 := by decide +kernel
  rcases claim sampleService sampleVault ⟨rfl,rfl⟩ reconnected reconnectedEnd run 1 reconnected [] reconnectedEnd (by simp)
    run with empty | ⟨row,_,single,_⟩
  · simp [empty] at both
  · simp [single] at both

end Grants
end RatatoskrX.ConnectionHistory
