import RatatoskrX.Connection

/-! Whole calls of the connection service, one after the other: what each can leave, and
what that makes of an account's active credentials. -/
namespace RatatoskrX.ConnectionMoves
open Relational Schema Writeback Sealing Connection

inductive Call where
  | exchangeCode (account : Uuid) (env : ExchangeAnswers)
  | exchangeBookmarkWriteCode (accepted : AcceptedCallback) (env : WriteExchangeAnswers)
  | refresh (account : Uuid) (presented : Option String) (env : RefreshAnswers)
  | revoke (account : Uuid) (env : RevokeAnswers)

def Call.run (config : Config) : Call → Vault → Vault × Outcome
  | .exchangeCode account env => Connection.exchangeCode config account env
  | .exchangeBookmarkWriteCode accepted env => Connection.exchangeBookmarkWriteCode config accepted env
  | .refresh account presented env => Connection.refresh config account presented env
  | .revoke account env => Connection.revoke config account env

def actives (v : Vault) (account : Uuid) : List CredentialRow := v.credentials.rows.filter (activeOf account)

theorem memActives {v : Vault} {account c} :
    c ∈ actives v account ↔ c ∈ v.credentials.rows ∧ c.accountId = account ∧ c.status = .active := by
  simp [actives,activeOf]

section Newest

theorem laterSome (b c : CredentialRow) : ∃ r, laterRow (some b) c = some r ∧ (r = b ∨ r = c) := by
  unfold laterRow
  dsimp only
  split
  · exact ⟨c,rfl,.inr rfl⟩
  · exact ⟨b,rfl,.inl rfl⟩

theorem foldLater (rows : List CredentialRow) (b : CredentialRow) :
    ∃ r, rows.foldl laterRow (some b) = some r ∧ (r = b ∨ r ∈ rows) := by
  induction rows generalizing b with
  | nil => exact ⟨b,rfl,.inl rfl⟩
  | cons c rest ih =>
    obtain ⟨x,later,origin⟩ := laterSome b c
    obtain ⟨r,found,member⟩ := ih x
    refine ⟨r,by rw [List.foldl_cons,later,found],?_⟩
    rcases member with rfl | inside
    · rcases origin with rfl | rfl
      · exact .inl rfl
      · exact .inr List.mem_cons_self
    · exact .inr (List.mem_cons_of_mem _ inside)

theorem newestNone {rows : List CredentialRow} : rows.foldl laterRow none = none ↔ rows = [] := by
  cases rows with
  | nil => simp
  | cons c rest =>
    obtain ⟨r,found,_⟩ := foldLater rest c
    simp only [List.foldl_cons,laterRow,found,reduceCtorEq]

theorem newestMember {rows : List CredentialRow} {r} (found : rows.foldl laterRow none = some r) : r ∈ rows := by
  cases rows with
  | nil => simp at found
  | cons c rest =>
    obtain ⟨x,same,member⟩ := foldLater rest c
    simp only [List.foldl_cons,laterRow,same,Option.some.injEq] at found
    subst found
    rcases member with rfl | inside
    · exact List.mem_cons_self
    · exact List.mem_cons_of_mem _ inside

theorem lockNone {v : Vault} {account} : lockActiveForAccount v account = none ↔ actives v account = [] := newestNone

theorem lockMember {v : Vault} {account row} (locked : lockActiveForAccount v account = some row) :
    row ∈ v.credentials.rows ∧ row.accountId = account ∧ row.status = .active :=
  memActives.mp (newestMember locked)

end Newest

section Tables
variable {v after : Vault}

theorem insertedRows {row} (inserted : insertCredential v row = some after) :
    row.id ∉ v.credentials.rows.map CredentialRow.id ∧ (v.accounts.find row.accountId).isSome = true ∧
      after.credentials.rows = v.credentials.rows ++ [row] ∧ after.accounts = v.accounts ∧
      after.authorizations = v.authorizations := by
  unfold insertCredential at inserted
  split at inserted
  · rename_i fresh
    split at inserted
    · rename_i known
      cases Option.some.inj inserted
      exact ⟨fresh,known,rfl,rfl,rfl⟩
    · simp at inserted
  · simp at inserted

theorem insertedActives {row} (inserted : insertCredential v row = some after) (account) :
    actives after account = actives v account ++ if activeOf account row then [row] else [] := by
  unfold actives
  rw [(insertedRows inserted).2.2.1,List.filter_append]
  by_cases mine : activeOf account row = true <;> simp [mine]

theorem memUpdated {p f keeps c} : c ∈ (updateCredentials v p f keeps).credentials.rows ↔
    ∃ old ∈ v.credentials.rows, (if p old = true then f old else old) = c := by
  simp [updateCredentials,Table.update]

theorem updatedFind (v : Vault) (p f keeps id) : (updateCredentials v p f keeps).credentials.find id =
    (v.credentials.find id).map (fun c => if p c = true then f c else c) :=
  Table.findUpdate v.credentials p f keeps id

theorem stateFind (v : Vault) (owner state account) : (setAccountState v owner state).accounts.find account =
    (v.accounts.find account).map (fun a => if a.id = owner then {a with state := state} else a) := by
  refine (Table.findUpdate v.accounts (fun a => a.id = owner) (fun a => {a with state := state}) (fun _ => rfl) account).trans
    ?_
  simp only [decide_eq_true_eq]

theorem retiredActives (v : Vault) (id : Uuid) {f : CredentialRow → CredentialRow} (keeps : ∀ c, (f c).id = c.id)
    (retires : ∀ c, (f c).status ≠ .active) (account) :
    actives (updateCredentials v (fun c => c.id = id) f keeps) account =
      (actives v account).filter (fun c => c.id ≠ id) := by
  unfold actives updateCredentials Table.update
  dsimp only
  induction v.credentials.rows with
  | nil => rfl
  | cons c rest ih =>
    rw [List.map_cons,List.filter_cons,List.filter_cons,ih]
    by_cases mine : c.id = id
    · have gone : activeOf account (f c) = false := by simp [activeOf,retires]
      by_cases active : activeOf account c = true <;> simp [mine,active,gone]
    · by_cases active : activeOf account c = true <;> simp [mine,active]

theorem scrubbedActives (v : Vault) (id owner : Uuid) (state account) :
    actives (setAccountState (scrubRevoke v id) owner state) account = (actives v account).filter (fun c => c.id ≠ id) := by
  refine retiredActives v id ?_ ?_ account
  · exact fun _ => rfl
  · simp

theorem markedActives (v : Vault) (id owner : Uuid) (state account) :
    actives (setAccountState (markExpired v id) owner state) account = (actives v account).filter (fun c => c.id ≠ id) := by
  refine retiredActives v id ?_ ?_ account
  · exact fun _ => rfl
  · simp

theorem updatedActives (v : Vault) (p : CredentialRow → Bool) {f : CredentialRow → CredentialRow}
    (keeps : ∀ c, (f c).id = c.id) (same : ∀ c, (f c).accountId = c.accountId ∧ (f c).status = c.status) (account) :
    actives (updateCredentials v p f keeps) account = (actives v account).map (fun c => if p c then f c else c) := by
  unfold actives updateCredentials Table.update
  dsimp only
  induction v.credentials.rows with
  | nil => rfl
  | cons c rest ih =>
    have kept : activeOf account (if p c = true then f c else c) = activeOf account c := by
      split
      · simp [activeOf,same]
      · rfl
    rw [List.map_cons,List.filter_cons,List.filter_cons,ih,kept]
    by_cases active : activeOf account c = true <;> simp [active]

theorem expiredActives (rows : List CredentialRow) (owner account) :
    (rows.map (fun c => if activeOf owner c = true then {c with status := .expired} else c)).filter (activeOf account) =
      if account = owner then [] else rows.filter (activeOf account) := by
  have gone : ∀ c : CredentialRow, activeOf account {c with status := .expired} = false := by simp [activeOf]
  induction rows with
  | nil => simp
  | cons c rest ih =>
    rw [List.map_cons,List.filter_cons,List.filter_cons,ih]
    by_cases active : activeOf owner c = true
    · rw [if_pos active,gone]
      by_cases mine : account = owner
      · simp [mine]
      · have other : activeOf account c = false := by
          simp only [activeOf,Bool.and_eq_true,decide_eq_true_eq] at active
          simp [activeOf,active.1,Ne.symm mine]
        simp [mine,other]
    · rw [if_neg active]
      by_cases mine : account = owner
      · subst mine
        simp [active]
      · simp [mine]

theorem activatedActives {a id t} (applied : activate v a id t = some after) (account) :
    actives after account = if account = a.accountId then
      [⟨id,a.accountId,a.encryptedPayload,a.grantedScopes,.active,.accepted,some a.expiresAt,none,t⟩]
      else actives v account := by
  simp only [activate,bind,Option.bind_eq_some_iff] at applied
  obtain ⟨replaced,inserted,last⟩ := applied
  cases Option.some.inj last
  have before : actives (expireActive v a.accountId) account = if account = a.accountId then [] else actives v account :=
    expiredActives ..
  refine (insertedActives inserted account).trans ?_
  rw [before]
  by_cases mine : account = a.accountId
  · simp [mine,activeOf]
  · simp [mine,activeOf,Ne.symm mine]

theorem activatedAuthorization {a id t} (applied : activate v a id t = some after) {account}
    (other : account ≠ a.accountId) : after.authorizations.find account = v.authorizations.find account := by
  simp only [activate,bind,Option.bind_eq_some_iff] at applied
  obtain ⟨replaced,inserted,last⟩ := applied
  cases Option.some.inj last
  refine (Table.findUpsert ..).trans ?_
  rw [if_neg (Ne.symm other),(insertedRows inserted).2.2.2.2]
  rfl

end Tables
section Moves
variable (config : Config) (v : Vault)

/- The active row that a read exchange stores where nothing refuses it. -/
def connectionRow (account : Uuid) (env : ExchangeAnswers) : Option CredentialRow :=
  match env.tokens with
  | .error _ => none
  | .ok tokens =>
    let granted := observedGrant tokens.scope config.readScopes
    if redirectConfigured config = true ∧ missingScopes config.readScopes granted = [] then
      (expiry env.now tokens).map (fun expiresAt =>
        ⟨env.id,account,sealPayload config env.nonce account tokens.payload,granted,.active,.accepted,some expiresAt,none,
          env.createdAt⟩)
    else none

def storedBy : Call → Option CredentialRow
  | .exchangeCode account env =>
    if env.stored = .fault then none
    else (connectionRow config account env).filter (fun row => (insertCredential v row).isSome)
  | _ => none

def retiredBy : Call → Option CredentialRow
  | .refresh account presented env =>
    if env.locked ≠ .ok ∨ env.committed = .fault then none
    else match lockActiveForAccount v account with
    | none => none
    | some row => match openPayload config account row.encryptedPayload with
      | .error _ => none
      | .ok stored => match classify config row stored presented,env.tokens with
        | .retired,_ | .current,.error .upstreamInvalidation => some row
        | _,_ => none
  | .revoke account env =>
    if env.locked ≠ .ok ∨ env.committed = .fault then none
    else match lockActiveForAccount v account with
    | none => none
    | some row => match openPayload config account row.encryptedPayload,env.notified with
      | .ok _,.ok _ => some row
      | _,_ => none
  | _ => none

/- Everything one call can leave. -/
inductive Moves : Call → Vault → Outcome → Prop where
  | still {c outcome} (unstored : storedBy config v c = none) (unretired : retiredBy config v c = none)
      (unfinished : outcome ≠ .ok) : Moves c v outcome
  | absent {account env} (none : lockActiveForAccount v account = none) : Moves (.revoke account env) v .ok
  | audited {c row after error} (unstored : storedBy config v c = none) (unretired : retiredBy config v c = none)
      (expired : row.status = .expired) (empty : row.encryptedPayload = [])
      (inserted : insertCredential v row = some after) : Moves c after (.error error)
  | connected {account env row stored after outcome} (form : storedBy config v (.exchangeCode account env) = some row)
      (inserted : insertCredential v row = some stored)
      (marked : (after = stored ∧ outcome ≠ .ok) ∨ after = setAccountState stored account .connected) :
      Moves (.exchangeCode account env) after outcome
  | activated {accepted env activation tokens after outcome} (purpose : accepted.purpose = .bookmarkWrite activation.accountId)
      (answered : env.tokens = .ok tokens)
      (payload : activation.encryptedPayload = sealPayload config env.nonce activation.accountId tokens.payload)
      (applied : activate v activation env.id env.createdAt = some after) :
      Moves (.exchangeBookmarkWriteCode accepted env) after outcome
  | rotated {account presented env row stored response expiresAt after outcome}
      (unretired : retiredBy config v (.refresh account presented env) = none)
      (locked : lockActiveForAccount v account = some row)
      (answered : env.tokens = .ok response)
      (swapped : rotate config account row stored response env.nonce expiresAt v = (after,true)) :
      Moves (.refresh account presented env) after outcome
  | expired {account presented env row outcome} (gone : retiredBy config v (.refresh account presented env) = some row)
      (unfinished : outcome ≠ .ok) :
      Moves (.refresh account presented env) (setAccountState (markExpired v row.id) account .reauthRequired) outcome
  | replayed {account presented env row outcome} (gone : retiredBy config v (.refresh account presented env) = some row)
      (unfinished : outcome ≠ .ok) :
      Moves (.refresh account presented env) (setAccountState (scrubRevoke v row.id) account .reauthRequired) outcome
  | revoked {account env row outcome} (gone : retiredBy config v (.revoke account env) = some row) :
      Moves (.revoke account env) (setAccountState (scrubRevoke v row.id) account .revoked) outcome

theorem performCases (ack : Ack) (v : Vault) (effect : Option Vault) :
    (perform ack v effect = (v,false) ∧ (ack = .fault ∨ effect = none)) ∨
      ∃ after, effect = some after ∧ ack ≠ .fault ∧
        (perform ack v effect = (after,true) ∨ perform ack v effect = (after,false)) := by
  cases ack <;> cases effect <;> simp [perform]

theorem concludeCases (ack : Ack) (v after : Vault) (outcome : Outcome) :
    (ack = .fault ∧ conclude ack v after outcome = (v,.error .persistence)) ∨
      (ack ≠ .fault ∧ (conclude ack v after outcome = (after,outcome) ∨
        conclude ack v after outcome = (after,.error .persistence))) := by
  cases ack <;> simp [conclude,perform]

theorem storedForm {account env row stored} (full : connectionRow config account env = some row) (acked : env.stored ≠ .fault)
    (inserted : insertCredential v row = some stored) : storedBy config v (.exchangeCode account env) = some row := by
  simp only [storedBy,full]
  rw [if_neg acked,Option.filter_some,if_pos (by rw [inserted]; rfl)]

theorem exchangeMoves (account env) :
    Moves config v (.exchangeCode account env) (exchangeCode config account env v).1 (exchangeCode config account env v).2 := by
  unfold exchangeCode
  split
  · rename_i unset
    refine .still ?_ rfl (by simp)
    have off : redirectConfigured config = false := by simpa using unset
    simp only [storedBy,connectionRow,off]
    split
    · rfl
    · cases env.tokens <;> simp
  rename_i set_
  have on : redirectConfigured config = true := by simpa using set_
  cases answered : env.tokens with
  | error failure =>
    refine .still ?_ rfl (by simp)
    simp [storedBy,connectionRow,answered]
  | ok tokens =>
    dsimp only
    by_cases full : missingScopes config.readScopes (observedGrant tokens.scope config.readScopes) = []
    · rw [if_neg (by simpa using full)]
      cases expires : expiry env.now tokens with
      | none =>
        refine .still ?_ rfl (by simp)
        simp [storedBy,connectionRow,answered,expires]
      | some expiresAt =>
        have row : connectionRow config account env = some ⟨env.id,account,
            sealPayload config env.nonce account tokens.payload,observedGrant tokens.scope config.readScopes,.active,
            .accepted,some expiresAt,none,env.createdAt⟩ := by
          simp only [connectionRow,answered]
          rw [if_pos ⟨on,full⟩,expires]
          rfl
        dsimp only
        rcases performCases env.stored v (insertCredential v ⟨env.id,account,
          sealPayload config env.nonce account tokens.payload,observedGrant tokens.scope config.readScopes,.active,
          .accepted,some expiresAt,none,env.createdAt⟩) with ⟨left,refused⟩ | ⟨stored,inserted,acked,left | left⟩
        · rw [left]
          refine .still ?_ rfl (by simp)
          simp only [storedBy,row]
          rcases refused with faulted | violated
          · rw [if_pos faulted]
          · split
            · rfl
            · simp [violated]
        · have form := storedForm config v row acked inserted
          rw [left]
          dsimp only
          rcases concludeCases env.marked stored (setAccountState stored account .connected) .ok with
            ⟨_,ended⟩ | ⟨_,ended | ended⟩
          · rw [ended]
            exact .connected form inserted (.inl ⟨rfl,by simp⟩)
          · rw [ended]
            exact .connected form inserted (.inr rfl)
          · rw [ended]
            exact .connected form inserted (.inr rfl)
        · have form := storedForm config v row acked inserted
          rw [left]
          exact .connected form inserted (.inl ⟨rfl,by simp⟩)
    · rw [if_pos full]
      have unstored : storedBy config v (.exchangeCode account env) = none := by
        simp [storedBy,connectionRow,answered,full]
      rcases performCases env.stored v (insertCredential v _) with ⟨left,_⟩ | ⟨stored,inserted,_,left | left⟩
      · rw [left]
        exact .still unstored rfl (by simp)
      · rw [left]
        exact .audited unstored rfl rfl rfl inserted
      · rw [left]
        exact .audited unstored rfl rfl rfl inserted

theorem rejectMoves {c : Call} (unstored : storedBy config v c = none) (unretired : retiredBy config v c = none)
    (ack id account granted outcome createdAt error) :
    Moves config v c (rejectGrant ack v id account granted outcome createdAt error).1
      (rejectGrant ack v id account granted outcome createdAt error).2 := by
  unfold rejectGrant
  rcases performCases ack v (insertCredential v _) with ⟨left,_⟩ | ⟨stored,inserted,_,left | left⟩
  · rw [left]
    exact .still unstored unretired (by simp)
  · rw [left]
    exact .audited unstored unretired rfl rfl inserted
  · rw [left]
    exact .audited unstored unretired rfl rfl inserted

theorem writeExchangeMoves (accepted env) : Moves config v (.exchangeBookmarkWriteCode accepted env)
    (exchangeBookmarkWriteCode config accepted env v).1 (exchangeBookmarkWriteCode config accepted env v).2 := by
  unfold exchangeBookmarkWriteCode
  split
  · exact .still rfl rfl (by simp)
  rename_i account purpose
  split
  · exact .still rfl rfl (by simp)
  split
  · exact .still rfl rfl (by simp)
  split
  · exact .still rfl rfl (by simp)
  rename_i tokens answered
  dsimp only
  split
  · exact rejectMoves config v rfl rfl ..
  split
  · exact .still rfl rfl (by simp)
  split
  · exact .still rfl rfl (by simp)
  split
  · rcases performCases env.stored v (activate v _ env.id env.createdAt) with ⟨left,_⟩ | ⟨stored,applied,_,left | left⟩
    · rw [left]
      exact .still rfl rfl (by simp)
    · rw [left]
      exact .activated purpose answered rfl applied
    · rw [left]
      exact .activated purpose answered rfl applied
  · split
    · exact .still rfl rfl (by simp)
    · exact rejectMoves config v rfl rfl ..

theorem refreshMoves (account presented env) : Moves config v (.refresh account presented env)
    (refresh config account presented env v).1 (refresh config account presented env v).2 := by
  unfold refresh
  split
  · rename_i unlocked
    exact .still rfl (by simp [retiredBy,unlocked]) (by simp)
  rename_i held
  have ready : env.locked = .ok := by simpa using held
  split
  · rename_i none
    exact .still rfl (by simp [retiredBy,none]) (by simp)
  rename_i row locked
  split
  · rename_i error opened
    exact .still rfl (by simp [retiredBy,locked,opened]) (by simp)
  rename_i stored opened
  unfold settleRefresh
  split
  · rename_i replay
    rcases concludeCases env.committed v (setAccountState (scrubRevoke v row.id) account .reauthRequired)
      (.error .refreshReplay) with ⟨faulted,ended⟩ | ⟨acked,ended | ended⟩
    · rw [ended]
      exact .still rfl (by simp [retiredBy,faulted]) (by simp)
    · rw [ended]
      exact .replayed (by simp [retiredBy,ready,acked,locked,opened,replay]) (by simp)
    · rw [ended]
      exact .replayed (by simp [retiredBy,ready,acked,locked,opened,replay]) (by simp)
  · rename_i stale
    exact .still rfl (by simp [retiredBy,locked,opened,stale]) (by simp)
  · rename_i current
    split
    · rename_i invalid
      rcases concludeCases env.committed v (setAccountState (markExpired v row.id) account .reauthRequired)
        (.error .upstreamInvalidation) with ⟨faulted,ended⟩ | ⟨acked,ended | ended⟩
      · rw [ended]
        exact .still rfl (by simp [retiredBy,faulted]) (by simp)
      · rw [ended]
        exact .expired (by simp [retiredBy,ready,acked,locked,opened,current,invalid]) (by simp)
      · rw [ended]
        exact .expired (by simp [retiredBy,ready,acked,locked,opened,current,invalid]) (by simp)
    · rename_i failure other failed
      refine .still rfl ?_ (by simp)
      cases failure <;> simp_all [retiredBy]
    · rename_i response answered
      have unretired : retiredBy config v (.refresh account presented env) = none := by
        simp [retiredBy,locked,opened,current,answered]
      split
      · exact .still rfl unretired (by simp)
      · rename_i expiresAt expires
        split
        · exact .still rfl unretired (by simp)
        · rename_i rotated swapped
          rcases concludeCases env.committed v rotated .ok with ⟨_,ended⟩ | ⟨_,ended | ended⟩
          · rw [ended]
            exact .still rfl unretired (by simp)
          · rw [ended]
            exact .rotated unretired locked answered swapped
          · rw [ended]
            exact .rotated unretired locked answered swapped

theorem revokeMoves (account env) :
    Moves config v (.revoke account env) (revoke config account env v).1 (revoke config account env v).2 := by
  unfold revoke
  split
  · rename_i unlocked
    exact .still rfl (by simp [retiredBy,unlocked]) (by simp)
  rename_i held
  have ready : env.locked = .ok := by simpa using held
  split
  · rename_i none
    rcases concludeCases env.committed v v .ok with ⟨_,ended⟩ | ⟨_,ended | ended⟩
    · rw [ended]
      exact .still rfl (by simp [retiredBy,none]) (by simp)
    · rw [ended]
      exact .absent none
    · rw [ended]
      exact .still rfl (by simp [retiredBy,none]) (by simp)
  rename_i row locked
  split
  · rename_i error opened
    exact .still rfl (by simp [retiredBy,locked,opened]) (by simp)
  rename_i stored opened
  split
  · rename_i failure failed
    exact .still rfl (by simp [retiredBy,locked,opened,failed]) (by simp)
  · rename_i done notified
    rcases concludeCases env.committed v (setAccountState (scrubRevoke v row.id) account .revoked) .ok with
      ⟨faulted,ended⟩ | ⟨acked,ended | ended⟩
    · rw [ended]
      exact .still rfl (by simp [retiredBy,faulted]) (by simp)
    · rw [ended]
      exact .revoked (by simp [retiredBy,ready,acked,locked,opened,notified])
    · rw [ended]
      exact .revoked (by simp [retiredBy,ready,acked,locked,opened,notified])

theorem callMoves (c : Call) : Moves config v c (c.run config v).1 (c.run config v).2 := by
  cases c with
  | exchangeCode account env => exact exchangeMoves config v account env
  | exchangeBookmarkWriteCode accepted env => exact writeExchangeMoves config v accepted env
  | refresh account presented env => exact refreshMoves config v account presented env
  | revoke account env => exact revokeMoves config v account env

end Moves
end RatatoskrX.ConnectionMoves
