import RatatoskrX.ConnectionHistory

/-! What a revocation ends. It scrubs the one row it locked and never writes the account's
write authorization, so other rows keep their secrets and a later grant can meet the
authorization again. -/
namespace RatatoskrX.Revocation
open Relational Schema Writeback Sealing Connection ConnectionMoves ConnectionHistory Transition

section Owners
variable {config : Config} {v after : Vault}

def Owned (v : Vault) : Prop := ∀ c ∈ v.credentials.rows, (v.accounts.find c.accountId).isSome = true

theorem ownedInsert {row} (inserted : insertCredential v row = some after) (owned : Owned v) : Owned after := by
  obtain ⟨_,known,rows,accounts,_⟩ := insertedRows inserted
  intro c member
  rw [rows] at member
  rw [accounts]
  rcases List.mem_append.mp member with old | new
  · exact owned c old
  · cases List.mem_singleton.mp new
    exact known

theorem ownedUpdate {p f keeps} (same : ∀ c : CredentialRow, (f c).accountId = c.accountId) (owned : Owned v) :
    Owned (updateCredentials v p f keeps) := by
  intro c member
  obtain ⟨old,there,rfl⟩ := memUpdated.mp member
  have owner := owned old there
  split
  · rw [same]
    exact owner
  · exact owner

theorem ownedExpire (account) (owned : Owned v) : Owned (expireActive v account) := by
  unfold expireActive
  exact ownedUpdate (fun _ => rfl) owned

theorem ownedState (account state) (owned : Owned v) : Owned (setAccountState v account state) := by
  intro c member
  rw [stateFind,Option.isSome_map]
  exact owned c member

theorem ownedStep {c outcome} (moves : Moves config v c after outcome) (owned : Owned v) : Owned after := by
  cases moves with
  | still | absent => exact owned
  | audited _ _ _ _ inserted => exact ownedInsert inserted owned
  | connected _ inserted marked =>
    rcases marked with ⟨rfl,_⟩ | rfl
    · exact ownedInsert inserted owned
    · exact ownedState _ _ (ownedInsert inserted owned)
  | activated _ _ _ applied =>
    simp only [activate,bind,Option.bind_eq_some_iff] at applied
    obtain ⟨replaced,inserted,last⟩ := applied
    cases Option.some.inj last
    have replaced := ownedInsert inserted (ownedExpire _ owned)
    exact replaced
  | rotated _ _ _ swapped =>
    unfold rotate rotateGuarded at swapped
    rw [← (Prod.mk.inj swapped).1]
    exact ownedUpdate (fun _ => rfl) owned
  | expired | replayed | revoked => exact ownedState _ _ (ownedUpdate (fun _ => rfl) owned)

theorem ownedRun {start labels w} {guard : Vault → Call → Prop} (unconnected : Unconnected start)
    (run : Transition.Run (step config) guard start labels w) : Owned w := by
  refine run.preserves Owned ?_ (by simp [Owned,unconnected.credentials])
  intro s c t owned _ taken
  cases Option.some.inj taken
  exact ownedStep (callMoves config s c) owned

end Owners

section Secrets

structure LeavesNoSecret (v after : Vault) (account : Uuid) : Prop where
  state : (after.accounts.find account).map ConnectedAccount.state = some .revoked
  inactive : ∀ c ∈ after.credentials.rows, c.accountId = account → c.status ≠ .active
  scrubbed : ∀ c ∈ after.credentials.rows, c.accountId = account → c.encryptedPayload = []
  others : ∀ c, c.accountId ≠ account → (c ∈ after.credentials.rows ↔ c ∈ v.credentials.rows)

/- Every row of the account but the locked one is out of use and empty. -/
def LoneSecret (v : Vault) (account : Uuid) (row : CredentialRow) : Prop :=
  ∀ c ∈ v.credentials.rows, c.accountId = account → c.id ≠ row.id → c.status ≠ .active ∧ c.encryptedPayload = []

theorem retiredLocked {config : Config} {v account env row} (gone : retiredBy config v (.revoke account env) = some row) :
    lockActiveForAccount v account = some row := by
  simp only [retiredBy] at gone
  split at gone
  · simp at gone
  split at gone
  · simp at gone
  · rename_i locked _
    split at gone
    · rw [← gone]
      assumption
    · simp at gone

theorem revokedForm {config : Config} {v after account env row} (active : lockActiveForAccount v account = some row)
    (returned : revoke config account env v = (after,.ok)) :
    retiredBy config v (.revoke account env) = some row ∧
      after = setAccountState (scrubRevoke v row.id) account .revoked := by
  have moves := callMoves config v (.revoke account env)
  have same : Call.run config (.revoke account env) v = (after,.ok) := returned
  rw [same] at moves
  cases moves with
  | still _ _ unfinished => exact absurd rfl unfinished
  | absent none =>
    rw [active] at none
    simp at none
  | revoked gone =>
    have locked := retiredLocked gone
    rw [active] at locked
    cases Option.some.inj locked
    exact ⟨gone,rfl⟩

theorem scrubbedRow {v : Vault} {id owner state c} :
    c ∈ (setAccountState (scrubRevoke v id) owner state).credentials.rows ↔
      ∃ old ∈ v.credentials.rows, (if old.id = id then {old with encryptedPayload := [], status := .revoked} else old) = c := by
  simp only [setAccountState,scrubRevoke,memUpdated,decide_eq_true_eq]

/- In every reachable vault with an active credential, a revocation that returns Ok leaves no
secret of the account just where the row it locks is the only one with one. -/
theorem revocationScrubsExactly (config : Config) (start : Vault) (unconnected : Unconnected start) (labels : List Call)
    (v : Vault) (run : Transition.Run (step config) free start labels v) (account : Uuid) (env : RevokeAnswers)
    (row : CredentialRow) (active : lockActiveForAccount v account = some row) (after : Vault)
    (returned : revoke config account env v = (after,.ok)) :
    LeavesNoSecret v after account ↔ LoneSecret v account row := by
  obtain ⟨present,mine,_⟩ := lockMember active
  obtain ⟨_,rfl⟩ := revokedForm active returned
  constructor
  · intro leaves c member belongs other
    have kept : c ∈ (setAccountState (scrubRevoke v row.id) account .revoked).credentials.rows :=
      scrubbedRow.mpr ⟨c,member,if_neg other⟩
    exact ⟨leaves.inactive c kept belongs,leaves.scrubbed c kept belongs⟩
  · intro lone
    have each : ∀ c ∈ (setAccountState (scrubRevoke v row.id) account .revoked).credentials.rows, c.accountId = account →
        c.status ≠ .active ∧ c.encryptedPayload = [] := by
      intro c member belongs
      obtain ⟨old,there,rfl⟩ := scrubbedRow.mp member
      by_cases same : old.id = row.id
      · rw [if_pos same]
        exact ⟨by simp,rfl⟩
      · rw [if_neg same] at belongs ⊢
        exact lone old there belongs same
    refine ⟨?_,fun c member belongs => (each c member belongs).1,fun c member belongs => (each c member belongs).2,?_⟩
    · have owner := ownedRun unconnected run row present
      rw [mine] at owner
      obtain ⟨a,there⟩ := Option.isSome_iff_exists.mp owner
      have keyed : a.id = account := Table.findKey there
      have found : (scrubRevoke v row.id).accounts.find account = some a := there
      rw [stateFind,found]
      simp [keyed]
    · intro c foreign
      constructor
      · intro member
        obtain ⟨old,there,rfl⟩ := scrubbedRow.mp member
        by_cases same : old.id = row.id
        · rw [if_pos same] at foreign
          cases v.credentials.sameRow there present same
          exact absurd mine foreign
        · rw [if_neg same]
          exact there
      · intro member
        refine scrubbedRow.mpr ⟨c,member,if_neg ?_⟩
        intro same
        cases v.credentials.sameRow member present same
        exact foreign mine

def connectedOnce : List Call := [sampleExchange firstResponse 1]

def connectedOnceEnd : Vault := (replay (step sampleService) free sampleVault connectedOnce).get (by decide +kernel)

def sampleRow (v : Vault) (present : (lockActiveForAccount v 1).isSome = true) : CredentialRow :=
  (lockActiveForAccount v 1).get present

theorem revocationScrubsFirst :
    (connectedOnceEnd.credentials.rows.map CredentialRow.status = [.active] ∧
      (sampleRevoke.run sampleService connectedOnceEnd).1.credentials.rows.map CredentialRow.encryptedPayload = [[]]) ∧
    (LeavesNoSecret connectedOnceEnd (sampleRevoke.run sampleService connectedOnceEnd).1 1 ↔
      LoneSecret connectedOnceEnd 1 (sampleRow connectedOnceEnd (by decide +kernel))) :=
  ⟨by decide +kernel,revocationScrubsExactly sampleService sampleVault ⟨rfl,rfl⟩ connectedOnce connectedOnceEnd
    (replayRun (Option.some_get _).symm) 1 ⟨.ok,.ok (),.ok⟩ _ (Option.some_get _).symm _
    (Prod.ext rfl (by decide +kernel))⟩

theorem reconnectOutlivesRevocation :
    ¬∀ config start, Unconnected start → ∀ labels v, Transition.Run (step config) free start labels v →
      ∀ account env after, lockActiveForAccount v account ≠ none → revoke config account env v = (after,.ok) →
        LeavesNoSecret v after account := by
  intro claim
  have run : Transition.Run (step sampleService) free sampleVault reconnected reconnectedEnd :=
    Transition.Run.weaken (fun _ _ _ => trivial) (replayRun (Option.some_get _).symm)
  have active : lockActiveForAccount reconnectedEnd 1 ≠ none := by decide +kernel
  have still : ∃ c ∈ (sampleRevoke.run sampleService reconnectedEnd).1.credentials.rows,
      c.accountId = 1 ∧ c.status = .active := by decide +kernel
  obtain ⟨c,member,mine,standing⟩ := still
  exact (claim sampleService sampleVault ⟨rfl,rfl⟩ reconnected reconnectedEnd run 1 ⟨.ok,.ok (),.ok⟩ _ active
    (Prod.ext rfl (by decide +kernel))).inactive c member mine standing

end Secrets
section Authority
variable {config : Config} {v after : Vault} {account : Uuid}

def archive (v : Vault) : Database := {Database.empty with
  accounts := ⟨v.accounts.rows.map (fun a => ⟨a.id,a.internalUserId,a.state⟩),by
    rw [List.map_map]
    exact v.accounts.unique⟩
  credentials := ⟨v.credentials.rows.map (fun c => ⟨c.id,c.accountId,c.grantedScopes,c.status,c.createdAt⟩),by
    rw [List.map_map]
    exact v.credentials.unique⟩
  authorizations := ⟨v.authorizations.rows.map (fun g => ⟨g.accountId,g.grantedScopes,g.status⟩),by
    rw [List.map_map]
    exact v.authorizations.unique⟩}

def HasAuthority (v : Vault) (account : Uuid) : Prop := Preview.requireWriteAuthority (archive v) account = none

instance (v account) : Decidable (HasAuthority v account) := by
  unfold HasAuthority; infer_instance

/- The account's authorization is active, and it and the row grant every required scope. -/
def Covers (v : Vault) (account : Uuid) (row : CredentialRow) : Prop :=
  ∃ g, v.authorizations.find account = some g ∧ g.status = .active ∧ scopesGranted row.grantedScopes g.grantedScopes = true

theorem newestImage {β : Type*} (f : CredentialRow → β) {newer : Option β → β → Option β}
    (one : ∀ best c, newer (best.map f) (f c) = (laterRow best c).map f) (rows : List CredentialRow) (best : Option CredentialRow) :
    (rows.map f).foldl newer (best.map f) = (rows.foldl laterRow best).map f := by
  rw [List.foldl_map]
  exact List.foldl_hom (Option.map f) one

theorem archiveScopes (v : Vault) (account) :
    credentialScopes (archive v) account = (lockActiveForAccount v account).map CredentialRow.grantedScopes := by
  let seen : CredentialRow → Credential := fun c => ⟨c.id,c.accountId,c.grantedScopes,c.status,c.createdAt⟩
  have one : ∀ best c, laterCredential (best.map seen) (seen c) = (laterRow best c).map seen := by
    intro best c
    cases best with
    | none => rfl
    | some b =>
      simp only [laterCredential,laterRow,Option.map_some,seen]
      split <;> rfl
  have chosen : ((archive v).credentials.rows.filter (fun c => c.accountId = account && c.status = .active)) =
      (actives v account).map seen := List.filter_map ..
  unfold credentialScopes
  rw [chosen,show (none : Option Credential) = (none : Option CredentialRow).map seen from rfl,newestImage seen one,Option.map_map]
  rfl

theorem archiveAuthorization (v : Vault) (account) : (archive v).authorizations.find account =
    (v.authorizations.find account).map (fun g => ⟨g.accountId,g.grantedScopes,g.status⟩) :=
  List.find?_map ..

theorem authorityIff : HasAuthority v account ↔ ∃ row, lockActiveForAccount v account = some row ∧ Covers v account row := by
  unfold HasAuthority Preview.requireWriteAuthority Covers
  rw [archiveScopes,archiveAuthorization]
  cases lockActiveForAccount v account with
  | none => simp
  | some row =>
    cases v.authorizations.find account with
    | none => simp
    | some g =>
      by_cases live : g.status = .active
      · by_cases granted : scopesGranted row.grantedScopes g.grantedScopes = true <;> simp [live,granted]
      · simp [live]

theorem sameAuthority
    (scopes : (lockActiveForAccount after account).map CredentialRow.grantedScopes =
      (lockActiveForAccount v account).map CredentialRow.grantedScopes)
    (authorization : after.authorizations.find account = v.authorizations.find account) :
    HasAuthority after account ↔ HasAuthority v account := by
  unfold HasAuthority Preview.requireWriteAuthority
  rw [archiveScopes,archiveScopes,archiveAuthorization,archiveAuthorization,scopes,authorization]

def successor (v : Vault) (account : Uuid) (row : CredentialRow) : Option CredentialRow :=
  newestRow v (fun c => c.id ≠ row.id && activeOf account c)

/- A call that gives write authority to an account without it: a read exchange stores a row
that the standing authorization covers, or the row that is taken out of use hides one. -/
def Restores (config : Config) (account : Uuid) (v : Vault) (c : Call) : Prop :=
  (∃ row, storedBy config v c = some row ∧ row.accountId = account ∧
    laterRow (lockActiveForAccount v account) row = some row ∧ Covers v account row) ∨
  ∃ row next, retiredBy config v c = some row ∧ row.accountId = account ∧ successor v account row = some next ∧
    Covers v account next

def Activates (account : Uuid) (v : Vault) (c : Call) (after : Vault) : Prop :=
  ∃ accepted env activation, c = .exchangeBookmarkWriteCode accepted env ∧ activation.accountId = account ∧
    activate v activation env.id env.createdAt = some after

theorem refreshLocked {account presented env row}
    (gone : retiredBy config v (.refresh account presented env) = some row) : lockActiveForAccount v account = some row := by
  simp only [retiredBy] at gone
  split at gone
  · simp at gone
  split at gone
  · simp at gone
  split at gone
  · simp at gone
  split at gone
  · rw [← gone]
    assumption
  · rw [← gone]
    assumption
  · simp at gone

theorem retiredAuthority {row} (rows : actives after account = (actives v account).filter (fun c => c.id ≠ row.id))
    (authorizations : after.authorizations = v.authorizations) :
    HasAuthority after account ↔ ∃ next, successor v account row = some next ∧ Covers v account next := by
  have next : lockActiveForAccount after account = successor v account row := by
    have same : (actives v account).filter (fun c => c.id ≠ row.id) =
        v.credentials.rows.filter (fun c => c.id ≠ row.id && activeOf account c) := List.filter_filter ..
    unfold lockActiveForAccount successor newestRow
    rw [← same,← rows]
    rfl
  rw [authorityIff,next]
  unfold Covers
  rw [authorizations]

theorem foreignRetired {row owner} (locked : lockActiveForAccount v owner = some row) (other : owner ≠ account) :
    (actives v account).filter (fun c => c.id ≠ row.id) = actives v account := by
  refine List.filter_eq_self.mpr (fun c member => ?_)
  obtain ⟨present,belongs,_⟩ := lockMember locked
  obtain ⟨there,mine,_⟩ := memActives.mp member
  have different : c.id ≠ row.id := by
    intro same
    cases v.credentials.sameRow there present same
    exact other (belongs.symm.trans mine)
  simp [different]

theorem lockSame (rows : actives after account = actives v account) :
    lockActiveForAccount after account = lockActiveForAccount v account := by
  have folded := congrArg (fun rows => List.foldl laterRow none rows) rows
  exact folded

theorem rotatedScopes {owner row stored response nonce expiresAt} (locked : lockActiveForAccount v owner = some row)
    (swapped : rotate config owner row stored response nonce expiresAt v = (after,true)) :
    (lockActiveForAccount after account).map CredentialRow.grantedScopes =
      (lockActiveForAccount v account).map CredentialRow.grantedScopes := by
  have rows := rotatedActives locked swapped account
  generalize form : (fun c : CredentialRow => if c.id = row.id then ({c with
    encryptedPayload := sealPayload config nonce owner response.payload, expiresAt := some expiresAt,
    supersededRefreshHash := some (refreshHash config stored.refreshToken)} : CredentialRow) else c) = f at rows
  have kept : ∀ c, (f c).id = c.id ∧ (f c).createdAt = c.createdAt ∧ (f c).grantedScopes = c.grantedScopes := by
    intro c
    rw [← form]
    dsimp only
    split <;> exact ⟨rfl,rfl,rfl⟩
  have one : ∀ best c, laterRow (best.map f) (f c) = (laterRow best c).map f := by
    intro best c
    cases best with
    | none => rfl
    | some b =>
      simp only [laterRow,Option.map_some,kept]
      split <;> rfl
  have locks : lockActiveForAccount after account = (lockActiveForAccount v account).map f := by
    have mapped := newestImage f one (actives v account) none
    rw [← rows] at mapped
    exact mapped
  rw [locks,Option.map_map]
  congr 1
  funext c
  exact (kept c).2.2

theorem authorityStep {c outcome} (moves : Moves config v c after outcome) (unactivated : ¬Activates account v c after)
    (lacking : ¬HasAuthority v account) : HasAuthority after account ↔ Restores config account v c := by
  have neither : storedBy config v c = none → retiredBy config v c = none → ¬Restores config account v c := by
    rintro unstored unretired (⟨row,stored,_⟩ | ⟨row,_,retired,_⟩)
    · rw [unstored] at stored
      simp at stored
    · rw [unretired] at retired
      simp at retired
  have unchanged : actives after account = actives v account → after.authorizations = v.authorizations →
      ¬HasAuthority after account := by
    intro rows authorizations gained
    exact lacking ((sameAuthority (by rw [lockSame rows]) (by rw [authorizations])).mp gained)
  have retires : ∀ {owner row}, storedBy config v c = none → retiredBy config v c = some row →
      lockActiveForAccount v owner = some row →
      (∀ account, actives after account = (actives v account).filter (fun c => c.id ≠ row.id)) →
      after.authorizations = v.authorizations → (HasAuthority after account ↔ Restores config account v c) := by
    intro owner row unstored gone locked rows authorizations
    have belongs := (lockMember locked).2.1
    by_cases mine : owner = account
    · rw [retiredAuthority (rows account) authorizations]
      constructor
      · rintro ⟨next,found,covers⟩
        exact .inr ⟨row,next,gone,belongs.trans mine,found,covers⟩
      · rintro (⟨_,stored,_⟩ | ⟨row',next,gone',_,found,covers⟩)
        · rw [unstored] at stored
          simp at stored
        · rw [gone] at gone'
          cases Option.some.inj gone'
          exact ⟨next,found,covers⟩
    · refine iff_of_false (unchanged ((rows account).trans (foreignRetired locked mine)) authorizations) ?_
      rintro (⟨_,stored,_⟩ | ⟨row',_,gone',mine',_⟩)
      · rw [unstored] at stored
        simp at stored
      · rw [gone] at gone'
        cases Option.some.inj gone'
        exact mine (belongs.symm.trans mine')
  cases moves with
  | still unstored unretired _ => exact iff_of_false lacking (neither unstored unretired)
  | @absent owner env none =>
    refine iff_of_false lacking (neither rfl ?_)
    cases gone : retiredBy config v (.revoke owner env) with
    | none => rfl
    | some row =>
      rw [retiredLocked gone] at none
      simp at none
  | audited unstored unretired expired _ inserted =>
    refine iff_of_false (unchanged ?_ (insertedRows inserted).2.2.2.2) (neither unstored unretired)
    rw [insertedActives inserted]
    simp [activeOf,expired]
  | @connected owner env row stored _ _ form inserted marked =>
    have untouched : after.authorizations = v.authorizations := by
      rcases marked with ⟨rfl,_⟩ | rfl
      · exact (insertedRows inserted).2.2.2.2
      · exact (insertedRows inserted).2.2.2.2
    have rows : actives after account = actives v account ++ if account = owner then [row] else [] := by
      rcases marked with ⟨rfl,_⟩ | rfl
      · exact connectedActives form inserted account
      · exact connectedActives form inserted account
    obtain ⟨_,_,_,same,_,belongs,_⟩ := storedRow form
    cases same
    by_cases mine : account = owner
    · have newest : lockActiveForAccount after account = laterRow (lockActiveForAccount v account) row := by
        rw [if_pos mine] at rows
        have folded := congrArg (fun rows => List.foldl laterRow none rows) rows
        exact folded.trans (List.foldl_concat ..)
      have covered : ∀ r, Covers after account r ↔ Covers v account r := by
        intro r
        unfold Covers
        rw [untouched]
      rw [authorityIff,newest]
      constructor
      · rintro ⟨r,found,covers⟩
        have outright : r = row ∨ lockActiveForAccount v account = some r := by
          cases before : lockActiveForAccount v account with
          | none =>
            rw [before] at found
            exact .inl (Option.some.inj found).symm
          | some b =>
            rw [before] at found
            obtain ⟨x,later,origin⟩ := laterSome b row
            rw [found] at later
            cases Option.some.inj later
            rcases origin with rfl | rfl
            · exact .inr rfl
            · exact .inl rfl
        rcases outright with rfl | standing
        · exact .inl ⟨r,form,belongs.trans mine.symm,found,(covered r).mp covers⟩
        · exact absurd (authorityIff.mpr ⟨r,standing,(covered r).mp covers⟩) lacking
      · rintro (⟨r,form',_,later,covers⟩ | ⟨_,_,gone,_⟩)
        · rw [form] at form'
          cases Option.some.inj form'
          exact ⟨row,later,(covered row).mpr covers⟩
        · simp [retiredBy] at gone
    · rw [if_neg mine,List.append_nil] at rows
      refine iff_of_false (unchanged rows untouched) ?_
      rintro (⟨r,form',mine',_⟩ | ⟨_,_,gone,_⟩)
      · rw [form] at form'
        cases Option.some.inj form'
        exact mine (mine'.symm.trans belongs)
      · simp [retiredBy] at gone
  | @activated accepted env activation tokens _ _ purpose _ _ applied =>
    have other : account ≠ activation.accountId := by
      rintro rfl
      exact unactivated ⟨accepted,env,activation,rfl,rfl,applied⟩
    have rows := activatedActives applied account
    rw [if_neg other] at rows
    refine iff_of_false ?_ (neither rfl rfl)
    intro gained
    exact lacking ((sameAuthority (by rw [lockSame rows]) (activatedAuthorization applied other)).mp gained)
  | @rotated owner presented env row stored response expiresAt _ _ unretired locked answered swapped =>
    have untouched : after.authorizations = v.authorizations := by
      unfold rotate rotateGuarded at swapped
      rw [← (Prod.mk.inj swapped).1]
      rfl
    refine iff_of_false ?_ (neither rfl unretired)
    intro gained
    exact lacking ((sameAuthority (rotatedScopes locked swapped) (by rw [untouched])).mp gained)
  | expired gone _ => exact retires rfl gone (refreshLocked gone) (fun account => markedActives ..) rfl
  | replayed gone _ => exact retires rfl gone (refreshLocked gone) (fun account => scrubbedActives ..) rfl
  | revoked gone => exact retires rfl gone (retiredLocked gone) (fun account => scrubbedActives ..) rfl

def Unactivated (config : Config) (account : Uuid) (v : Vault) (c : Call) : Prop :=
  ¬Activates account v c (c.run config v).1

/- A history that revokes an active credential of the account, and what follows until the
next activation for it. -/
structure Withdrawn (config : Config) (start : Vault) (labels : List Call) (account : Uuid) (env : RevokeAnswers)
    (v after : Vault) (middle : List Call) (u : Vault) : Prop where
  within : ∃ before rest, labels = before ++ .revoke account env :: (middle ++ rest) ∧
    Transition.Run (step config) free start before v
  active : lockActiveForAccount v account ≠ none
  returned : revoke config account env v = (after,.ok)
  since : Transition.Run (step config) (Unactivated config account) after middle u

/- No write authority between a revocation and the next activation. -/
def AuthorityEnds (config : Config) (start : Vault) (labels : List Call) (account : Uuid) : Prop :=
  ∀ env v after middle u, Withdrawn config start labels account env v after middle u → ¬HasAuthority u account

/- Neither the revocation nor a call after it restores the authority. -/
def NeverRestores (config : Config) (start : Vault) (labels : List Call) (account : Uuid) : Prop :=
  ∀ env v after middle u, Withdrawn config start labels account env v after middle u →
    ¬Restores config account v (.revoke account env) ∧
      ∀ x c y, Passes (step config) (Unactivated config account) after middle u x c y → ¬Restores config account x c

theorem revokedAuthority {env} (active : lockActiveForAccount v account ≠ none)
    (returned : revoke config account env v = (after,.ok)) :
    HasAuthority after account ↔ Restores config account v (.revoke account env) := by
  obtain ⟨row,locked⟩ := Option.ne_none_iff_exists'.mp active
  obtain ⟨gone,rfl⟩ := revokedForm locked returned
  rw [retiredAuthority (scrubbedActives ..) rfl]
  constructor
  · rintro ⟨next,found,covers⟩
    exact .inr ⟨row,next,gone,(lockMember locked).2.1,found,covers⟩
  · rintro (⟨_,stored,_⟩ | ⟨row',next,gone',_,found,covers⟩)
    · simp [storedBy] at stored
    · rw [gone] at gone'
      cases Option.some.inj gone'
      exact ⟨next,found,covers⟩

/- In every history the write authority ends with a revocation just where nothing restores it
before the next activation. -/
theorem authorityEndsExactly (config : Config) (start : Vault) (labels : List Call) (account : Uuid) :
    AuthorityEnds config start labels account ↔ NeverRestores config start labels account := by
  constructor
  · intro ends env v after middle u withdrawn
    obtain ⟨before,rest,cut,first⟩ := withdrawn.within
    have atOnce : ¬HasAuthority after account := ends env v after [] after
      ⟨⟨before,middle ++ rest,by simpa using cut,first⟩,withdrawn.active,withdrawn.returned,.nil after⟩
    refine ⟨fun restores => atOnce ((revokedAuthority withdrawn.active withdrawn.returned).mpr restores),?_⟩
    rintro x c y ⟨earlier,later,rfl,begun,meets,taken,_⟩ restores
    have lacking : ¬HasAuthority x account := ends env v after earlier x
      ⟨⟨before,c::later ++ rest,by simpa using cut,first⟩,withdrawn.active,withdrawn.returned,begun⟩
    have still : ¬HasAuthority y account := ends env v after (earlier ++ [c]) y
      ⟨⟨before,later ++ rest,by simpa using cut,first⟩,withdrawn.active,withdrawn.returned,
        begun.append (.cons meets taken (.nil y))⟩
    cases Option.some.inj taken
    exact still ((authorityStep (callMoves config x c) meets lacking).mpr restores)
  · intro never env v after middle u withdrawn
    obtain ⟨first,later⟩ := never env v after middle u withdrawn
    have guarded := withdrawn.since.meets
      (fun x c => Unactivated config account x c ∧ ¬Restores config account x c) (by
        intro x c y passes
        obtain ⟨_,_,_,_,meets,_,_⟩ := id passes
        exact ⟨meets,later x c y passes⟩)
    refine guarded.preserves (fun x => ¬HasAuthority x account) ?_ ?_
    · intro x c y lacking meets taken
      cases Option.some.inj taken
      exact fun gained => meets.2 ((authorityStep (callMoves config x c) meets.1 lacking).mp gained)
    · exact fun gained => first ((revokedAuthority withdrawn.active withdrawn.returned).mp gained)

def writeGrant : Call :=
  .exchangeBookmarkWriteCode ⟨9,7,.bookmarkWrite 1,writeScopes sampleService⟩
    ⟨.ok firstResponse,.ok "user-1",sampleNonce 1,Schedule.sampleInstant,1,Schedule.sampleInstant,.ok,.ok⟩

/- The provider echoes every scope that the user ever consented to. -/
def echoedResponse : TokenResponse :=
  sampleResponse 2 (some "users.read tweet.read bookmark.read offline.access bookmark.write") secondStorable

theorem reconnectRestoresAuthority :
    ¬∀ config start, Unconnected start → ∀ labels account, AuthorityEnds config start labels account := by
  intro claim
  let granted := (writeGrant.run sampleService sampleVault).1
  let revoked := (sampleRevoke.run sampleService granted).1
  let back := ((sampleExchange echoedResponse 2).run sampleService revoked).1
  have restored : HasAuthority back 1 := by decide +kernel
  refine claim sampleService sampleVault ⟨rfl,rfl⟩ [writeGrant,sampleRevoke,sampleExchange echoedResponse 2] 1
    ⟨.ok,.ok (),.ok⟩ granted revoked [sampleExchange echoedResponse 2] back ⟨⟨[writeGrant],[],rfl,?_⟩,?_,?_,?_⟩ restored
  · exact .cons trivial rfl (.nil _)
  · decide +kernel
  · exact Prod.ext rfl (by decide +kernel)
  · refine .cons ?_ rfl (.nil _)
    rintro ⟨_,_,_,same,_⟩
    cases same

end Authority
end RatatoskrX.Revocation
