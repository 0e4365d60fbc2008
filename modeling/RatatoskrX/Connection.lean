import RatatoskrX.Sealing

/-! The connection service: code exchange and activation, rotation-aware refresh, and
revocation, over the rows of accounts, credentials and write authorizations. What the
environment decides comes in with each call: the provider's answers, the clock, the
random nonce, the identity and time of a new row, and how each statement or transaction
is acknowledged. -/
namespace RatatoskrX.Connection
open Relational Schema Writeback Sealing

structure ConnectedAccount where
  id : Uuid
  internalUserId : Uuid
  providerUserId : String
  state : AccountState
  deriving DecidableEq, Repr

inductive GrantOutcome where
  | accepted | scopeDowngrade | providerIdentityMismatch
  deriving DecidableEq, Repr

structure CredentialRow where
  id : Uuid
  accountId : Uuid
  encryptedPayload : Bytes
  grantedScopes : List String
  status : CredentialStatus
  activationOutcome : GrantOutcome
  expiresAt : Option DateTime
  supersededRefreshHash : Option Digest
  createdAt : DateTime
  deriving DecidableEq, Repr

structure GrantedAuthorization where
  accountId : Uuid
  oauthIntentId : Uuid
  grantedScopes : List String
  status : AuthorizationStatus
  authorizedAt : DateTime
  revokedAt : Option DateTime
  deriving DecidableEq, Repr

structure Vault where
  accounts : Table ConnectedAccount ConnectedAccount.id
  credentials : Table CredentialRow CredentialRow.id
  authorizations : Table GrantedAuthorization GrantedAuthorization.accountId

inductive FlowError where
  | configuration | persistence
  | cipher (error : CipherError)
  | downgrade (missingScopes : List String)
  | providerIdentityMismatch | staleRefreshToken | refreshReplay | credentialInactive | upstreamInvalidation
  | transport | malformedProviderResponse
  deriving DecidableEq, Repr

inductive ProviderFailure where
  | upstreamInvalidation | transport | malformedProviderResponse
  deriving DecidableEq, Repr

def ProviderFailure.flow : ProviderFailure → FlowError
  | upstreamInvalidation => .upstreamInvalidation
  | transport => .transport
  | malformedProviderResponse => .malformedProviderResponse

/- A token response comes from a body of at most 64 KiB, so its tokens can be stored. -/
structure TokenResponse where
  accessToken : String
  refreshToken : String
  expiresIn : UInt64
  scope : Option String
  storable : CredentialPayload.Storable ⟨accessToken,refreshToken⟩
  deriving DecidableEq

def TokenResponse.payload (r : TokenResponse) : CredentialPayload := ⟨r.accessToken,r.refreshToken⟩

/- What a call returned; a panic unwinds it and drops its transaction. -/
inductive Outcome where
  | ok
  | error (error : FlowError)
  | panicked
  deriving DecidableEq, Repr

/- How a statement or a transaction ended: it committed, it failed without effect, or it
committed and its acknowledgement was lost. -/
inductive Ack where | ok | fault | lost
  deriving DecidableEq, Repr

structure Config where
  gcm : Aead
  sha256 : List UInt8 → List UInt8
  redirectUri : Option String
  readScopes : List String

section Scopes

/- The White_Space characters, at which split_whitespace cuts. -/
def isWhitespace (c : Char) : Bool :=
  let n := c.toNat
  (9 ≤ n && n ≤ 13) || n = 0x20 || n = 0x85 || n = 0xa0 || n = 0x1680 || (0x2000 ≤ n && n ≤ 0x200a) ||
    n = 0x2028 || n = 0x2029 || n = 0x202f || n = 0x205f || n = 0x3000

def splitWhitespace (s : String) : List String :=
  ((s.toList.splitOnP isWhitespace).filter (· ≠ [])).map String.ofList

def observedGrant (scope : Option String) (requested : List String) : List String :=
  match scope with
  | some scopeString => splitWhitespace scopeString
  | none => requested

/-- missing_scopes: one occurrence in the grant answers one occurrence in the request. -/
def missingScopes : List String → List String → List String
  | [],_ => []
  | scope::rest,remaining =>
    if scope ∈ remaining then missingScopes rest (remaining.erase scope) else scope::missingScopes rest remaining

end Scopes

section Statements
variable (v : Vault)

/- order by created_at desc, id desc limit 1 -/
def laterRow (best : Option CredentialRow) (c : CredentialRow) : Option CredentialRow :=
  match best with
  | none => some c
  | some b => if b.createdAt < c.createdAt ∨ (b.createdAt = c.createdAt ∧ b.id < c.id) then some c else some b

def newestRow (p : CredentialRow → Bool) : Option CredentialRow :=
  (v.credentials.rows.filter p).foldl laterRow none

def activeOf (account : Uuid) (c : CredentialRow) : Bool := c.accountId = account && c.status = .active

def lockActiveForAccount (account : Uuid) : Option CredentialRow := newestRow v (activeOf account)

/-- insert_with_status and insert_rejected_write_grant; none is a violated constraint. -/
def insertCredential (row : CredentialRow) : Option Vault :=
  if fresh : row.id ∉ v.credentials.rows.map CredentialRow.id then
    if (v.accounts.find row.accountId).isSome then some {v with credentials := v.credentials.append row fresh}
    else none
  else none

def setAccountState (account : Uuid) (state : AccountState) : Vault :=
  {v with accounts := v.accounts.update (fun a => a.id = account) (fun a => {a with state := state}) (fun _ => rfl)}

def updateCredentials (p : CredentialRow → Bool) (f : CredentialRow → CredentialRow) (keeps : ∀ c, (f c).id = c.id) :
    Vault :=
  {v with credentials := v.credentials.update p f keeps}

def scrubRevoke (id : Uuid) : Vault :=
  updateCredentials v (fun c => c.id = id) (fun c => {c with encryptedPayload := [], status := .revoked}) (fun _ => rfl)

def markExpired (id : Uuid) : Vault :=
  updateCredentials v (fun c => c.id = id) (fun c => {c with status := .expired}) (fun _ => rfl)

/-- rotate_guarded_tx; false is a guard that found no row. -/
def rotateGuarded (id : Uuid) (payload : Bytes) (expiresAt : DateTime) (retiredHash : Digest)
    (expectedSuperseded : Option Digest) : Vault × Bool :=
  let guarded := fun c : CredentialRow => c.id = id && c.status = .active &&
    c.supersededRefreshHash = expectedSuperseded
  (updateCredentials v guarded (fun c => {c with
    encryptedPayload := payload, expiresAt := some expiresAt, supersededRefreshHash := some retiredHash}) (fun _ => rfl),
    v.credentials.rows.any guarded)

structure WriteGrantActivation where
  oauthIntentId : Uuid
  accountId : Uuid
  internalUserId : Uuid
  providerUserId : String
  encryptedPayload : Bytes
  grantedScopes : List String
  expiresAt : DateTime
  authorizedAt : DateTime

/-- lock_account and the comparison with the activation. -/
def bindingMatches (a : WriteGrantActivation) : Bool :=
  match v.accounts.find a.accountId with
  | none => false
  | some account => account.internalUserId = a.internalUserId && account.providerUserId = a.providerUserId

def expireActive (account : Uuid) : Vault :=
  updateCredentials v (activeOf account) (fun c => {c with status := .expired}) (fun _ => rfl)

def activate (a : WriteGrantActivation) (id : Uuid) (createdAt : DateTime) : Option Vault := do
  let replaced ← insertCredential (expireActive v a.accountId)
    ⟨id,a.accountId,a.encryptedPayload,a.grantedScopes,.active,.accepted,some a.expiresAt,none,createdAt⟩
  some {replaced with
    authorizations := replaced.authorizations.upsert
      ⟨a.accountId,a.oauthIntentId,a.grantedScopes,.active,a.authorizedAt,none⟩
      (fun g => {g with
        oauthIntentId := a.oauthIntentId, grantedScopes := a.grantedScopes, status := .active,
        authorizedAt := a.authorizedAt, revokedAt := none}) (fun _ => rfl)}

end Statements

/- A statement or transaction on the vault: what it leaves, and whether its call goes on. -/
def perform (ack : Ack) (v : Vault) (effect : Option Vault) : Vault × Bool :=
  match ack,effect with
  | .ok,some after => (after,true)
  | .lost,some after => (after,false)
  | _,_ => (v,false)

def conclude (ack : Ack) (v after : Vault) (outcome : Outcome) : Vault × Outcome :=
  match perform ack v (some after) with
  | (left,true) => (left,outcome)
  | (left,false) => (left,.error .persistence)

section Service
variable (config : Config)

def ownerOf (account : Uuid) : BitVec 128 := BitVec.ofNat 128 account

def sealPayload (nonce : Nonce) (account : Uuid) (payload : CredentialPayload) : Bytes :=
  sealEnvelope config.gcm nonce (ownerOf account) .credential payload.encode

def openPayload (account : Uuid) (envelope : Bytes) : Except FlowError CredentialPayload :=
  match openEnvelope config.gcm (ownerOf account) .credential envelope with
  | .error error => .error (.cipher error)
  | .ok opened => match CredentialPayload.decode opened with
    | none => .error .malformedProviderResponse
    | some stored => .ok stored

theorem openSealedPayload (nonce account) (r : TokenResponse) :
    openPayload config account (sealPayload config nonce account r.payload) = .ok r.payload := by
  have short : (Purpose.credential.bindingPrefix (ownerOf account) ++ r.payload.encode).length ≤ plaintextMax := by
    have label : Purpose.credential.label.length = 25 := by decide +kernel
    have fits := r.storable
    simp only [List.length_append,Purpose.bindingPrefix,BigEndian.writeLength,label,CredentialPayload.encodeLength,
      plaintextMax]
    simp only [CredentialPayload.Storable,TokenResponse.payload] at fits ⊢
    omega
  have decoded : CredentialPayload.decode r.payload.encode = some r.payload := CredentialPayload.decodeEncode r.storable
  unfold openPayload sealPayload
  rw [openSealed _ _ _ _ short]
  dsimp only
  rw [decoded]

/- clock.now() + Duration::from_secs(expires_in); none is its panic. -/
def expiry (now : DateTime) (response : TokenResponse) : Option DateTime := now.checkedAddSigned response.expiresIn.toNat

structure ExchangeAnswers where
  tokens : Except ProviderFailure TokenResponse
  nonce : Nonce
  now : DateTime
  id : Uuid
  createdAt : DateTime
  stored : Ack
  marked : Ack

def redirectConfigured : Bool := (config.redirectUri.filter (· ≠ "")).isSome

def exchangeCode (account : Uuid) (env : ExchangeAnswers) (v : Vault) : Vault × Outcome :=
  if !redirectConfigured config then (v,.error .configuration)
  else match env.tokens with
  | .error failure => (v,.error failure.flow)
  | .ok tokens =>
    let granted := observedGrant tokens.scope config.readScopes
    let missing := missingScopes config.readScopes granted
    if missing ≠ [] then
      -- The observed grant stays auditable in a row that never activates.
      match perform env.stored v (insertCredential v
          ⟨env.id,account,[],granted,.expired,.accepted,none,none,env.createdAt⟩) with
      | (audited,true) => (audited,.error (.downgrade missing))
      | (audited,false) => (audited,.error .persistence)
    else match expiry env.now tokens with
    | none => (v,.panicked)
    | some expiresAt =>
      match perform env.stored v (insertCredential v
          ⟨env.id,account,sealPayload config env.nonce account tokens.payload,granted,.active,.accepted,some expiresAt,
            none,env.createdAt⟩) with
      | (stored,false) => (stored,.error .persistence)
      | (stored,true) => conclude env.marked stored (setAccountState stored account .connected) .ok

inductive IntentPurpose where
  | readConnection
  | bookmarkWrite (accountId : Uuid)
  deriving DecidableEq, Repr

structure AcceptedCallback where
  intentId : Uuid
  internalUserId : Uuid
  purpose : IntentPurpose
  requestedScopes : List String
  deriving DecidableEq, Repr

structure WriteExchangeAnswers where
  tokens : Except ProviderFailure TokenResponse
  user : Except ProviderFailure String
  nonce : Nonce
  now : DateTime
  id : Uuid
  createdAt : DateTime
  stored : Ack
  refused : Ack

def writeScopes : List String :=
  if config.readScopes.contains "bookmark.write" then config.readScopes else config.readScopes ++ ["bookmark.write"]

/- insert_rejected_write_grant, and the error that follows it. -/
def rejectGrant (ack : Ack) (v : Vault) (id account : Uuid) (granted : List String) (outcome : GrantOutcome)
    (createdAt : DateTime) (error : FlowError) : Vault × Outcome :=
  match perform ack v (insertCredential v ⟨id,account,[],granted,.expired,outcome,none,none,createdAt⟩) with
  | (audited,true) => (audited,.error error)
  | (audited,false) => (audited,.error .persistence)

def exchangeBookmarkWriteCode (accepted : AcceptedCallback) (env : WriteExchangeAnswers) (v : Vault) : Vault × Outcome :=
  match accepted.purpose with
  | .readConnection => (v,.error .configuration)
  | .bookmarkWrite account =>
    if accepted.requestedScopes ≠ writeScopes config then (v,.error .configuration)
    else if !redirectConfigured config then (v,.error .configuration)
    else match env.tokens with
    | .error failure => (v,.error failure.flow)
    | .ok tokens =>
      let granted := observedGrant tokens.scope (writeScopes config)
      let missing := missingScopes (writeScopes config) granted
      if missing ≠ [] then
        rejectGrant env.stored v env.id account granted .scopeDowngrade env.createdAt (.downgrade missing)
      else match env.user with
      | .error failure => (v,.error failure.flow)
      | .ok providerUserId => match expiry env.now tokens with
        | none => (v,.panicked)
        | some expiresAt =>
          let activation := ⟨accepted.intentId,account,accepted.internalUserId,providerUserId,
            sealPayload config env.nonce account tokens.payload,granted,expiresAt,env.now⟩
          if bindingMatches v activation then
            match perform env.stored v (activate v activation env.id env.createdAt) with
            | (activated,true) => (activated,.ok)
            | (activated,false) => (activated,.error .persistence)
          else if env.stored ≠ .ok then (v,.error .persistence)
          else rejectGrant env.refused v env.id account granted .providerIdentityMismatch env.createdAt
            .providerIdentityMismatch

def refreshHash (token : String) : Digest := sha256Hex config.sha256 (utf8 token)

structure RefreshAnswers where
  locked : Ack
  tokens : Except ProviderFailure TokenResponse
  nonce : Nonce
  now : DateTime
  committed : Ack

/- How a presented token stands to the stored pair. -/
inductive Presented where | current | retired | stale
  deriving DecidableEq, Repr

def classify (row : CredentialRow) (stored : CredentialPayload) (presented : Option String) : Presented :=
  let token := presented.getD stored.refreshToken
  if token = stored.refreshToken then .current
  else if refreshHash config token = row.supersededRefreshHash.getD "" then .retired
  else .stale

def rotate (account : Uuid) (row : CredentialRow) (stored : CredentialPayload) (response : TokenResponse) (nonce : Nonce)
    (expiresAt : DateTime) (v : Vault) : Vault × Bool :=
  rotateGuarded v row.id (sealPayload config nonce account response.payload) expiresAt
    (refreshHash config stored.refreshToken) row.supersededRefreshHash

/- What refresh does once it holds the row and has opened it. -/
def settleRefresh (account : Uuid) (row : CredentialRow) (stored : CredentialPayload) (presented : Option String)
    (env : RefreshAnswers) (v : Vault) : Vault × Outcome :=
  match classify config row stored presented with
  | .retired =>
    conclude env.committed v (setAccountState (scrubRevoke v row.id) account .reauthRequired) (.error .refreshReplay)
  | .stale => (v,.error .staleRefreshToken)
  | .current => match env.tokens with
    | .error .upstreamInvalidation =>
      conclude env.committed v (setAccountState (markExpired v row.id) account .reauthRequired)
        (.error .upstreamInvalidation)
    | .error failure => (v,.error failure.flow)
    | .ok response => match expiry env.now response with
      | none => (v,.panicked)
      | some expiresAt => match rotate config account row stored response env.nonce expiresAt v with
        | (_,false) => (v,.error .credentialInactive)
        | (rotated,true) => conclude env.committed v rotated .ok

def refresh (account : Uuid) (presented : Option String) (env : RefreshAnswers) (v : Vault) : Vault × Outcome :=
  if env.locked ≠ .ok then (v,.error .persistence)
  else match lockActiveForAccount v account with
  | none => (v,.error .credentialInactive)
  | some row => match openPayload config account row.encryptedPayload with
    | .error error => (v,.error error)
    | .ok stored => settleRefresh config account row stored presented env v

structure RevokeAnswers where
  locked : Ack
  notified : Except ProviderFailure Unit
  committed : Ack

def revoke (account : Uuid) (env : RevokeAnswers) (v : Vault) : Vault × Outcome :=
  if env.locked ≠ .ok then (v,.error .persistence)
  else match lockActiveForAccount v account with
  | none => conclude env.committed v v .ok
  | some row => match openPayload config account row.encryptedPayload with
    | .error error => (v,.error error)
    | .ok _ => match env.notified with
      -- Only a failed request aborts before the scrub; any completed answer confirms.
      | .error failure => (v,.error failure.flow)
      | .ok _ => conclude env.committed v (setAccountState (scrubRevoke v row.id) account .revoked) .ok

end Service

section Sample

def samplePair (n : Nat) : CredentialPayload := ⟨"access-" ++ toString n,"refresh-" ++ toString n⟩

/- What AES-256-GCM under 32 bytes of 41 makes of three sealed pairs of account 1. -/
def sampleSealed : List (Bytes × Bytes × Bytes) :=
  [
    (List.replicate 12 1,Purpose.credential.bindingPrefix 1 ++ (samplePair 1).encode,
      [125,12,35,64,97,99,252,158,39,147,92,53,162,139,39,64,75,188,181,177,43,136,26,179,7,24,115,159,181,204,21,
      141,241,186,37,65,150,69,31,244,238,255,214,83,77,141,78,181,117,95,243,88,3,212,182,178,46,8,91,212,79,41,
      251,34,113,171,39,10,221,73,100,205,205,150,178,217,84,44,30,118,229,239]),
    (List.replicate 12 2,Purpose.credential.bindingPrefix 1 ++ (samplePair 2).encode,
      [39,237,214,99,125,96,217,100,249,220,194,28,59,47,244,242,214,233,174,7,94,120,109,196,223,41,19,221,197,60,
      104,209,137,189,78,206,223,156,183,53,114,11,106,102,21,13,27,80,237,94,154,6,27,26,3,194,58,82,174,229,67,31,
      159,238,246,141,229,204,240,206,173,138,254,219,247,231,175,143,101,111,44,96]),
    (List.replicate 12 3,Purpose.credential.bindingPrefix 1 ++ (samplePair 3).encode,
      [59,246,55,81,152,98,211,107,62,5,94,45,232,119,20,161,11,229,210,161,161,190,219,46,156,223,220,245,149,247,
      215,36,105,132,255,104,20,218,93,226,191,199,135,231,46,86,5,33,226,243,77,199,122,155,66,170,166,37,95,153,
      232,129,191,235,63,198,228,97,30,132,235,216,38,93,43,47,102,59,225,221,110,75])]

def sampleEncrypt (nonce inner : Bytes) : Bytes :=
  match sampleSealed.find? (fun s => s.1 = nonce ∧ s.2.1 = inner) with
  | some s => s.2.2
  | none => inner ++ List.replicate tagLen 0

def sampleDecrypt (nonce text : Bytes) : Option Bytes :=
  match sampleSealed.find? (fun s => s.1 = nonce ∧ s.2.2 = text) with
  | some s => some s.2.1
  | none => some (text.take (text.length - tagLen))

theorem sampleNonces : ∀ s ∈ sampleSealed, ∀ s' ∈ sampleSealed, s.1 = s'.1 → s = s' := by decide +kernel

theorem sampleTags : ∀ s ∈ sampleSealed, s.2.2.length = s.2.1.length + tagLen ∧
    s.2.2.drop (s.2.2.length - tagLen) ≠ List.replicate tagLen 0 := by decide +kernel

def sampleGcm : Aead where
  encrypt := sampleEncrypt
  decrypt := sampleDecrypt
  opens nonce inner _ := by
    unfold sampleEncrypt
    split
    · rename_i s found
      obtain ⟨rfl,rfl⟩ : s.1 = nonce ∧ s.2.1 = inner := by simpa using List.find?_some found
      have member := List.mem_of_find?_eq_some found
      unfold sampleDecrypt
      split
      · rename_i s' found'
        have same : s'.1 = s.1 ∧ s'.2.2 = s.2.2 := by simpa using List.find?_some found'
        rw [sampleNonces s' (List.mem_of_find?_eq_some found') s member same.1]
      · rename_i absent
        have missing := List.find?_eq_none.mp absent s member
        simp at missing
    · unfold sampleDecrypt
      split
      · rename_i s found
        have same : s.1 = nonce ∧ s.2.2 = inner ++ List.replicate tagLen 0 := by simpa using List.find?_some found
        refine absurd ?_ (sampleTags s (List.mem_of_find?_eq_some found)).2
        rw [same.2]
        simp
      · simp
  tagged nonce inner _ := by
    unfold sampleEncrypt
    split
    · rename_i s found
      obtain ⟨rfl,rfl⟩ : s.1 = nonce ∧ s.2.1 = inner := by simpa using List.find?_some found
      exact (sampleTags s (List.mem_of_find?_eq_some found)).1
    · simp

def sampleTokenDigests : List (List UInt8 × List UInt8) :=
  [
    (utf8 "refresh-1",
      [189,71,62,93,205,206,37,16,194,223,79,12,90,84,166,5,250,54,71,254,116,175,174,32,168,205,184,185,27,26,31,99]),
    (utf8 "refresh-2",
      [248,101,168,143,86,59,159,188,76,34,79,111,186,189,46,201,248,16,239,239,198,27,33,43,218,32,238,100,166,251,
      40,64]),
    (utf8 "refresh-3",
      [68,130,233,115,236,17,198,19,95,238,118,180,136,174,17,45,186,212,253,3,254,167,146,172,233,192,207,120,117,
      231,20,254]),
    (utf8 "other",
      [217,41,138,16,209,176,115,88,55,220,75,216,93,172,100,27,15,60,239,39,164,126,93,83,165,79,47,63,91,47,207,
      250])]

def sampleService : Config where
  gcm := sampleGcm
  sha256 input := ((sampleTokenDigests.find? (fun known => known.1 = input)).map Prod.snd).getD (List.replicate 32 0)
  redirectUri := some "https://app.example/callback"
  readScopes := ["users.read","tweet.read","bookmark.read","offline.access"]

def sampleResponse (n : Nat) (scope : Option String) (storable : (samplePair n).Storable) : TokenResponse :=
  ⟨(samplePair n).accessToken,(samplePair n).refreshToken,7200,scope,storable⟩

def sampleNonce (n : UInt8) : Nonce := ⟨List.replicate 12 n,rfl⟩

end Sample
end RatatoskrX.Connection
