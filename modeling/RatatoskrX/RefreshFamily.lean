import RatatoskrX.ConnectionMoves
import RatatoskrX.Fingerprints

/-! A refresh-token family: the pair in force, the token it replaced, and whether the family
stands. One refresh call at its turn takes one exit of the family, and the rows of the
account follow. -/
namespace RatatoskrX.RefreshFamily
open Relational Schema Writeback Fingerprints Sealing Connection ConnectionMoves

structure Family where
  current : CredentialPayload
  retired : Option String
  standing : CredentialStatus
  state : AccountState
  deriving DecidableEq, Repr

inductive Exit where
  | faulted | inactive | replayed | stale | invalidated
  | failed (failure : ProviderFailure)
  | overflowed
  | rotated (response : TokenResponse) (expiresAt : DateTime)

/- A refresh call that had its turn, under its place among the calls. -/
structure Turn where
  index : Nat
  presented : Option String
  env : RefreshAnswers
  outcome : Outcome

def acknowledged (ack : Ack) (outcome : Outcome) : Outcome := if ack = .ok then outcome else .error .persistence

def Exit.ended (ack : Ack) : Exit → Outcome
  | faulted => .error .persistence
  | inactive => .error .credentialInactive
  | replayed => acknowledged ack (.error .refreshReplay)
  | stale => .error .staleRefreshToken
  | invalidated => acknowledged ack (.error .upstreamInvalidation)
  | failed failure => .error failure.flow
  | overflowed => .panicked
  | rotated _ _ => acknowledged ack .ok

namespace Family

def tokens (f : Family) : List String := f.current.refreshToken::f.retired.toList

def token (f : Family) (presented : Option String) : String := presented.getD f.current.refreshToken

def exit (f : Family) (presented : Option String) (env : RefreshAnswers) : Exit :=
  if env.locked ≠ .ok then .faulted
  else if f.standing ≠ .active then .inactive
  else if f.token presented ≠ f.current.refreshToken then
    if f.retired = some (f.token presented) then .replayed else .stale
  else match env.tokens with
  | .error .upstreamInvalidation => .invalidated
  | .error failure => .failed failure
  | .ok response => match expiry env.now response with
    | none => .overflowed
    | some expiresAt => .rotated response expiresAt

def take (f : Family) : Exit → Family
  | .replayed => {f with standing := .revoked, state := .reauthRequired}
  | .invalidated => {f with standing := .expired, state := .reauthRequired}
  | .rotated response _ => {f with current := response.payload, retired := some f.current.refreshToken}
  | _ => f

def turn (f : Family) (presented : Option String) (env : RefreshAnswers) : Family :=
  if env.committed = .fault then f else f.take (f.exit presented env)

def rotation (f : Family) (presented : Option String) (env : RefreshAnswers) : Option CredentialPayload :=
  if env.committed = .fault then none
  else match f.exit presented env with
  | .rotated response _ => some response.payload
  | _ => none

def play (f : Family) : List Turn → Family
  | [] => f
  | t::rest => (f.turn t.presented t.env).play rest

def rotations (f : Family) : List Turn → List CredentialPayload
  | [] => []
  | t::rest => (f.rotation t.presented t.env).toList ++ (f.turn t.presented t.env).rotations rest

theorem rotationTurn {f : Family} {presented env p} (swapped : f.rotation presented env = some p) :
    f.turn presented env = {f with current := p, retired := some f.current.refreshToken} := by
  unfold rotation at swapped
  unfold turn
  split at swapped
  · simp at swapped
  · rename_i committed
    rw [if_neg committed]
    split at swapped
    · rename_i response expiresAt taken
      cases Option.some.inj swapped
      rw [taken]
      rfl
    · simp at swapped

theorem turnUnrotated {f : Family} {presented env} (unswapped : f.rotation presented env = none) :
    (f.turn presented env).current = f.current ∧ (f.turn presented env).retired = f.retired := by
  unfold rotation at unswapped
  unfold turn
  split
  · exact ⟨rfl,rfl⟩
  · rename_i committed
    rw [if_neg committed] at unswapped
    cases taken : f.exit presented env with
    | rotated response expiresAt => simp [taken] at unswapped
    | _ => exact ⟨rfl,rfl⟩

theorem exitIdle {f : Family} {presented env} (idle : f.standing ≠ .active) :
    f.exit presented env = .faulted ∨ f.exit presented env = .inactive := by
  unfold exit
  split
  · exact .inl rfl
  · exact .inr rfl

theorem playChain (f : Family) (turns : List Turn) :
    (f.current::f.rotations turns)[(f.rotations turns).length]? = some (f.play turns).current ∧
      (f.rotations turns = [] → (f.play turns).retired = f.retired) ∧
      ∀ n, (f.rotations turns).length = n + 1 →
        ∃ p, (f.current::f.rotations turns)[n]? = some p ∧ (f.play turns).retired = some p.refreshToken := by
  induction turns generalizing f with
  | nil => simp [play,rotations]
  | cons t rest ih =>
    obtain ⟨current,unswapped,replaced⟩ := ih (f.turn t.presented t.env)
    simp only [play,rotations]
    cases swapped : f.rotation t.presented t.env with
    | none =>
      obtain ⟨kept,same⟩ := turnUnrotated swapped
      rw [kept] at current replaced
      rw [same] at unswapped
      exact ⟨current,unswapped,replaced⟩
    | some p =>
      have after := rotationTurn swapped
      simp only [Option.toList_some,List.singleton_append,List.length_cons,reduceCtorEq,false_implies,true_and]
      rw [after] at current unswapped replaced ⊢
      refine ⟨current,?_⟩
      rintro (_ | n) length
      · refine ⟨f.current,rfl,unswapped ?_⟩
        exact List.length_eq_zero_iff.mp (by omega)
      · obtain ⟨q,found,same⟩ := replaced n (by omega)
        exact ⟨q,found,same⟩

end Family

section Digests

/- Of SHA-256, on the tokens at hand: the length of its digests, and that no two of the
tokens collide. -/
structure DigestsApart (config : Config) (tokens : List String) : Prop where
  sized : ∀ t ∈ tokens, (config.sha256 (utf8 t)).length = 32
  apart : ∀ s ∈ tokens, ∀ t ∈ tokens, config.sha256 (utf8 s) = config.sha256 (utf8 t) → s = t

theorem DigestsApart.sublist {config tokens tokens'} (digests : DigestsApart config tokens) (fewer : tokens' ⊆ tokens) :
    DigestsApart config tokens' :=
  ⟨fun t member => digests.sized t (fewer member),
    fun s left t right => digests.apart s (fewer left) t (fewer right)⟩

theorem DigestsApart.retired {config tokens} (digests : DigestsApart config tokens) {token} (known : token ∈ tokens)
    {retired : Option String} (knownRetired : ∀ t, retired = some t → t ∈ tokens) :
    refreshHash config token = (retired.map (refreshHash config)).getD "" ↔ retired = some token := by
  cases retired with
  | none =>
    have sized := digests.sized token known
    have long : refreshHash config token ≠ "" := by
      intro same
      have empty : config.sha256 (utf8 token) = [] := hexDigestApart same
      simp [empty] at sized
    simp [long]
  | some old =>
    simp only [Option.map_some,Option.getD_some,Option.some.injEq]
    constructor
    · intro same
      exact (digests.apart token known old (knownRetired old rfl) (hexDigestApart same)).symm
    · intro same
      rw [same]

end Digests

section Rows
variable (config : Config) (account id : Uuid)

structure Shows (v : Vault) (f : Family) (row : CredentialRow) : Prop where
  found : v.credentials.find id = some row
  standing : row.status = f.standing
  payload : if f.standing = .revoked then row.encryptedPayload = []
    else openPayload config account row.encryptedPayload = .ok f.current
  retired : row.supersededRefreshHash = f.retired.map (refreshHash config)
  alone : actives v account = if f.standing = .active then [row] else []
  state : ∃ a, v.accounts.find account = some a ∧ a.state = f.state

def Represents (v : Vault) (f : Family) : Prop := ∃ row, Shows config account id v f row

def Exit.effect (f : Family) (nonce : Nonce) (v : Vault) : Exit → Vault
  | replayed => setAccountState (scrubRevoke v id) account .reauthRequired
  | invalidated => setAccountState (markExpired v id) account .reauthRequired
  | rotated response expiresAt =>
    (rotateGuarded v id (sealPayload config nonce account response.payload) expiresAt
      (refreshHash config f.current.refreshToken) (f.retired.map (refreshHash config))).1
  | _ => v

variable {config account id} {v : Vault} {f : Family}

theorem Shows.locked {row} (shown : Shows config account id v f row) :
    lockActiveForAccount v account = if f.standing = .active then some row else none := by
  have read : lockActiveForAccount v account = (actives v account).foldl laterRow none := rfl
  rw [read,shown.alone]
  split <;> rfl

theorem Shows.rotates {row} (shown : Shows config account id v f row) (active : f.standing = .active)
    (response : TokenResponse) (nonce : Nonce) (expiresAt : DateTime) :
    rotate config account row f.current response nonce expiresAt v =
      ((Exit.rotated response expiresAt).effect config account id f nonce v,true) := by
  obtain ⟨member,keyed⟩ := Table.findIff.mp shown.found
  have guarded : (rotate config account row f.current response nonce expiresAt v).2 = true := by
    simp only [rotate,rotateGuarded,List.any_eq_true]
    exact ⟨row,member,by simp [shown.standing,active]⟩
  have left : (rotate config account row f.current response nonce expiresAt v).1 =
      (Exit.rotated response expiresAt).effect config account id f nonce v := by
    unfold rotate Exit.effect
    rw [keyed,shown.retired]
  exact Prod.ext left guarded

theorem concludeEnds (ack : Ack) (v after : Vault) (outcome : Outcome) : conclude ack v after outcome =
    (if ack = .fault then v else after,acknowledged ack outcome) := by
  cases ack <;> rfl

theorem Shows.classifies {row} (shown : Shows config account id v f row) {tokens} (digests : DigestsApart config tokens)
    {presented : Option String} (known : ∀ t, presented = some t → t ∈ tokens)
    (knownRetired : ∀ t, f.retired = some t → t ∈ tokens) :
    classify config row f.current presented = if f.token presented = f.current.refreshToken then .current
      else if f.retired = some (f.token presented) then .retired else .stale := by
  cases presented with
  | none => simp [classify,Family.token]
  | some t =>
    have hashed := digests.retired (known t rfl) knownRetired
    rw [← shown.retired] at hashed
    unfold classify Family.token
    simp only [Option.getD_some,hashed]

theorem refreshExit (shown : Represents config account id v f) {tokens} (digests : DigestsApart config tokens)
    {presented : Option String} (known : ∀ t, presented = some t → t ∈ tokens)
    (knownRetired : ∀ t, f.retired = some t → t ∈ tokens) (env : RefreshAnswers) :
    refresh config account presented env v =
      (if env.committed = .fault then v else (f.exit presented env).effect config account id f env.nonce v,
        (f.exit presented env).ended env.committed) := by
  obtain ⟨row,shown⟩ := shown
  have keyed : row.id = id := Table.findKey shown.found
  unfold refresh Family.exit
  split
  · simp [Exit.effect,Exit.ended]
  rw [shown.locked]
  by_cases active : f.standing = .active
  · have opened : openPayload config account row.encryptedPayload = .ok f.current := by
      have stored := shown.payload
      rwa [active,if_neg (by decide)] at stored
    rw [if_pos active,if_neg (not_not.mpr active)]
    dsimp only
    rw [opened]
    dsimp only
    unfold settleRefresh
    rw [shown.classifies digests known knownRetired]
    by_cases current : f.token presented = f.current.refreshToken
    · rw [if_pos current,if_neg (not_not.mpr current)]
      dsimp only
      cases env.tokens with
      | error failure =>
        cases failure with
        | upstreamInvalidation => simp only [concludeEnds,keyed,Exit.effect,Exit.ended]
        | transport | malformedProviderResponse => simp [Exit.effect,Exit.ended]
      | ok response =>
        dsimp only
        cases expiry env.now response with
        | none => simp [Exit.effect,Exit.ended]
        | some expiresAt => simp only [shown.rotates active,concludeEnds,Exit.ended]
    · rw [if_neg current,if_pos current]
      by_cases replayed : f.retired = some (f.token presented)
      · simp only [if_pos replayed,concludeEnds,keyed,Exit.effect,Exit.ended]
      · simp [if_neg replayed,Exit.effect,Exit.ended]
  · simp [active,Exit.effect,Exit.ended]

theorem Shows.marks {row} (shown : Shows config account id v f row) (state : AccountState) {left : Vault}
    (same : left.accounts = v.accounts) :
    ∃ a, (setAccountState left account state).accounts.find account = some a ∧ a.state = state := by
  obtain ⟨a,found,_⟩ := shown.state
  rw [stateFind,same,found]
  simp [Table.findKey found]

theorem Shows.leaves {row} (shown : Shows config account id v f row) :
    (actives v account).filter (fun c => c.id ≠ id) = [] := by
  rw [shown.alone]
  split
  · simp [Table.findKey shown.found]
  · rfl

theorem Shows.replayed {row} (shown : Shows config account id v f row) :
    Shows config account id (setAccountState (scrubRevoke v id) account .reauthRequired) (f.take .replayed)
      {row with encryptedPayload := [], status := .revoked} where
  found := by
    refine (updatedFind v (fun c => c.id = id) _ ?_ id).trans ?_
    · exact fun _ => rfl
    · simp [shown.found,Table.findKey shown.found]
  standing := rfl
  payload := by simp [Family.take]
  retired := shown.retired
  alone := by
    rw [scrubbedActives,shown.leaves]
    simp [Family.take]
  state := shown.marks .reauthRequired rfl

theorem Shows.invalidated {row} (shown : Shows config account id v f row) (active : f.standing = .active) :
    Shows config account id (setAccountState (markExpired v id) account .reauthRequired) (f.take .invalidated)
      {row with status := .expired} where
  found := by
    refine (updatedFind v (fun c => c.id = id) _ ?_ id).trans ?_
    · exact fun _ => rfl
    · simp [shown.found,Table.findKey shown.found]
  standing := rfl
  payload := by
    have stored := shown.payload
    simpa [active,Family.take] using stored
  retired := shown.retired
  alone := by
    rw [markedActives,shown.leaves]
    simp [Family.take]
  state := shown.marks .reauthRequired rfl

theorem Shows.rotated {row} (shown : Shows config account id v f row) (active : f.standing = .active)
    (response : TokenResponse) (expiresAt : DateTime) (nonce : Nonce) :
    Shows config account id ((Exit.rotated response expiresAt).effect config account id f nonce v)
      (f.take (.rotated response expiresAt))
      {row with
        encryptedPayload := sealPayload config nonce account response.payload
        expiresAt := some expiresAt
        supersededRefreshHash := some (refreshHash config f.current.refreshToken)} where
  found := by
    refine (updatedFind v _ _ _ id).trans ?_
    simp [shown.found,Table.findKey shown.found,shown.standing,active,shown.retired]
  standing := shown.standing
  payload := by
    have opened := openSealedPayload config nonce account response
    simpa [Family.take,active] using opened
  retired := rfl
  alone := by
    refine (updatedActives v _ _ ?_ account).trans ?_
    · exact fun _ => ⟨rfl,rfl⟩
    · rw [shown.alone]
      simp [Family.take,active,Table.findKey shown.found,shown.standing,shown.retired]
  state := shown.state

theorem exitShows (shown : Represents config account id v f) (presented : Option String) (env : RefreshAnswers) :
    Represents config account id ((f.exit presented env).effect config account id f env.nonce v)
      (f.take (f.exit presented env)) := by
  obtain ⟨row,shown⟩ := shown
  by_cases active : f.standing = .active
  · cases f.exit presented env with
    | replayed => exact ⟨_,shown.replayed⟩
    | invalidated => exact ⟨_,shown.invalidated active⟩
    | rotated response expiresAt => exact ⟨_,shown.rotated active response expiresAt env.nonce⟩
    | faulted | inactive | stale | failed _ | overflowed => exact ⟨row,shown⟩
  · rcases Family.exitIdle active with taken | taken
    · rw [taken]
      exact ⟨row,shown⟩
    · rw [taken]
      exact ⟨row,shown⟩

theorem turnShows (shown : Represents config account id v f) (presented : Option String) (env : RefreshAnswers) :
    Represents config account id
      (if env.committed = .fault then v else (f.exit presented env).effect config account id f env.nonce v)
      (f.turn presented env) := by
  unfold Family.turn
  split
  · exact shown
  · exact exitShows shown presented env

end Rows
end RatatoskrX.RefreshFamily
