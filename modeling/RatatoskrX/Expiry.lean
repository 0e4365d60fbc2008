import RatatoskrX.RefreshTurns
import RatatoskrX.TokenClient

/-! The expiry of a token pair: the clock's instant and the lifetime that the provider states.
The sum is taken without a check, and it panics where it leaves chrono's range. -/
namespace RatatoskrX.Expiry
open Schema Writeback Sealing Connection TokenClient

/- The pair would expire after the last instant that chrono represents. -/
def Overflows (now : DateTime) (expiresIn : UInt64) : Prop :=
  maxMicros < now.micros + expiresIn.toNat * 1000000

theorem expiryNone {now response} : expiry now response = none ↔ Overflows now response.expiresIn := by
  have least := now.representable.1
  unfold expiry DateTime.checkedAddSigned DateTime.ofMicros Overflows
  split
  · rename_i within
    simp only [reduceCtorEq,false_iff]
    omega
  · rename_i outside
    simp only [true_iff]
    omega

variable (config : Config) (account : Uuid)

section Reached

structure Exchanged (env : ExchangeAnswers) (tokens : TokenResponse) : Prop where
  redirect : redirectConfigured config = true
  issued : env.tokens = .ok tokens
  granted : missingScopes config.readScopes (observedGrant tokens.scope config.readScopes) = []

/- The exchange of a write grant comes to the identity behind a granted token response. -/
structure WriteExchanged (accepted : AcceptedCallback) (env : WriteExchangeAnswers) (tokens : TokenResponse) : Prop where
  purpose : ∃ account, accepted.purpose = .bookmarkWrite account
  requested : accepted.requestedScopes = writeScopes config
  redirect : redirectConfigured config = true
  issued : env.tokens = .ok tokens
  granted : missingScopes (writeScopes config) (observedGrant tokens.scope (writeScopes config)) = []
  identified : ∃ user, env.user = .ok user

/- The provider has rotated the pair that the refresh holds. -/
structure Rotated (presented : Option String) (env : RefreshAnswers) (v : Vault) (response : TokenResponse) : Prop where
  locked : env.locked = .ok
  current : ∃ row stored, lockActiveForAccount v account = some row ∧
    openPayload config account row.encryptedPayload = .ok stored ∧ classify config row stored presented = .current
  issued : env.tokens = .ok response

end Reached

section Panics

theorem concludeEnded {ack v after outcome} (ended : outcome ≠ Outcome.panicked) :
    (conclude ack v after outcome).2 ≠ .panicked := by
  unfold conclude
  split
  · exact ended
  · simp

theorem auditEnded {ack : Ack} {v : Vault} {effect : Option Vault} {error : FlowError} :
    (match perform ack v effect with
      | (audited,true) => (audited,Outcome.error error)
      | (audited,false) => (audited,Outcome.error .persistence)).2 ≠ .panicked := by
  split <;> simp

theorem sumFits {now response expiresAt} (sum : expiry now response = some expiresAt) :
    ¬Overflows now response.expiresIn := by
  intro overflows
  rw [expiryNone.mpr overflows] at sum
  simp at sum

theorem storePanics {Reached : TokenResponse → Prop} {now tokens} {overflowed : Vault × Outcome} {stored : DateTime → Vault × Outcome}
    (reached : Reached tokens) (only : ∀ other, Reached other → other = tokens) (panics : overflowed.2 = .panicked)
    (ends : ∀ expiresAt, (stored expiresAt).2 ≠ .panicked) :
    (match expiry now tokens with
      | none => overflowed
      | some expiresAt => stored expiresAt).2 = .panicked ↔ ∃ other, Reached other ∧ Overflows now other.expiresIn := by
  cases sum : expiry now tokens with
  | none => exact iff_of_true panics ⟨tokens,reached,expiryNone.mp sum⟩
  | some expiresAt =>
    refine iff_of_false (ends expiresAt) ?_
    rintro ⟨other,reached',overflows⟩
    cases only other reached'
    exact sumFits sum overflows

theorem exchangePanics (env : ExchangeAnswers) (v : Vault) : (exchangeCode config account env v).2 = .panicked ↔
    ∃ tokens, Exchanged config env tokens ∧ Overflows env.now tokens.expiresIn := by
  unfold exchangeCode
  split
  · rename_i unset
    simp only [reduceCtorEq,false_iff,not_exists,not_and]
    intro tokens reached
    simp [reached.redirect] at unset
  rename_i redirect
  cases issued : env.tokens with
  | error failure =>
    simp only [reduceCtorEq,false_iff,not_exists,not_and]
    intro tokens reached
    cases issued.symm.trans reached.issued
  | ok tokens =>
    have only (other : TokenResponse) (reached : Exchanged config env other) : other = tokens :=
      Except.ok.inj (reached.issued.symm.trans issued)
    dsimp only
    split
    · rename_i missing
      refine iff_of_false auditEnded ?_
      rintro ⟨other,reached,_⟩
      cases only other reached
      exact missing reached.granted
    · rename_i granted
      refine storePanics ⟨by simpa using redirect,issued,not_not.mp granted⟩ only rfl ?_
      intro expiresAt
      split
      · simp
      · exact concludeEnded (by simp)

theorem writeExchangePanics (accepted : AcceptedCallback) (env : WriteExchangeAnswers) (v : Vault) :
    (exchangeBookmarkWriteCode config accepted env v).2 = .panicked ↔
      ∃ tokens, WriteExchanged config accepted env tokens ∧ Overflows env.now tokens.expiresIn := by
  unfold exchangeBookmarkWriteCode
  cases purpose : accepted.purpose with
  | readConnection =>
    refine iff_of_false (by simp) ?_
    rintro ⟨tokens,reached,_⟩
    obtain ⟨account,other⟩ := reached.purpose
    cases purpose.symm.trans other
  | bookmarkWrite account =>
    dsimp only
    split
    · rename_i other
      exact iff_of_false (by simp) (fun ⟨_,reached,_⟩ => other reached.requested)
    rename_i requested
    split
    · rename_i unset
      refine iff_of_false (by simp) ?_
      rintro ⟨tokens,reached,_⟩
      simp [reached.redirect] at unset
    rename_i redirect
    cases issued : env.tokens with
    | error failure =>
      refine iff_of_false (by simp) ?_
      rintro ⟨tokens,reached,_⟩
      cases issued.symm.trans reached.issued
    | ok tokens =>
      have only (other : TokenResponse) (reached : WriteExchanged config accepted env other) : other = tokens :=
        Except.ok.inj (reached.issued.symm.trans issued)
      dsimp only
      split
      · rename_i missing
        refine iff_of_false auditEnded ?_
        rintro ⟨other,reached,_⟩
        cases only other reached
        exact missing reached.granted
      rename_i granted
      cases identified : env.user with
      | error failure =>
        refine iff_of_false (by simp) ?_
        rintro ⟨other,reached,_⟩
        obtain ⟨user,known⟩ := reached.identified
        cases identified.symm.trans known
      | ok user =>
        have reached : WriteExchanged config accepted env tokens :=
          ⟨⟨account,purpose⟩,not_not.mp requested,by simpa using redirect,issued,not_not.mp granted,user,identified⟩
        refine storePanics reached only rfl ?_
        intro expiresAt
        split
        · split <;> simp
        split
        · simp
        · exact auditEnded

theorem refreshPanics (presented : Option String) (env : RefreshAnswers) (v : Vault) :
    (refresh config account presented env v).2 = .panicked ↔
      ∃ response, Rotated config account presented env v response ∧ Overflows env.now response.expiresIn := by
  unfold refresh
  split
  · rename_i refused
    exact iff_of_false (by simp) (fun ⟨_,reached,_⟩ => refused reached.locked)
  rename_i locked
  cases found : lockActiveForAccount v account with
  | none =>
    refine iff_of_false (by simp) ?_
    rintro ⟨response,reached,_⟩
    obtain ⟨row,stored,there,_⟩ := reached.current
    cases found.symm.trans there
  | some row =>
    dsimp only
    cases opened : openPayload config account row.encryptedPayload with
    | error error =>
      refine iff_of_false (by simp) ?_
      rintro ⟨response,reached,_⟩
      obtain ⟨row',stored,there,opened',_⟩ := reached.current
      cases Option.some.inj (found.symm.trans there)
      cases opened.symm.trans opened'
    | ok stored =>
      have only {response : TokenResponse} (reached : Rotated config account presented env v response) :
          classify config row stored presented = .current := by
        obtain ⟨row',stored',there,opened',current⟩ := reached.current
        cases Option.some.inj (found.symm.trans there)
        cases Except.ok.inj (opened.symm.trans opened')
        exact current
      dsimp only
      unfold settleRefresh
      cases class_ : classify config row stored presented with
      | retired =>
        refine iff_of_false (concludeEnded (by simp)) ?_
        rintro ⟨response,reached,_⟩
        cases class_.symm.trans (only reached)
      | stale =>
        refine iff_of_false (by simp) ?_
        rintro ⟨response,reached,_⟩
        cases class_.symm.trans (only reached)
      | current =>
        dsimp only
        cases issued : env.tokens with
        | error failure =>
          refine iff_of_false ?_ ?_
          · cases failure with
            | upstreamInvalidation => exact concludeEnded (by simp)
            | transport | malformedProviderResponse => simp
          · rintro ⟨response,reached,_⟩
            cases issued.symm.trans reached.issued
        | ok response =>
          have reached : Rotated config account presented env v response :=
            ⟨not_not.mp locked,⟨row,stored,found,opened,class_⟩,issued⟩
          refine storePanics reached (fun _ reached' => Except.ok.inj (reached'.issued.symm.trans issued)) rfl ?_
          intro expiresAt
          split
          · simp
          · exact concludeEnded (by simp)

theorem neverIff {panics : Prop} {Reached : TokenResponse → Prop} {now : DateTime}
    (exactly : panics ↔ ∃ tokens, Reached tokens ∧ Overflows now tokens.expiresIn) :
    ¬panics ↔ ∀ tokens, Reached tokens → ¬Overflows now tokens.expiresIn := by
  rw [exactly,not_exists]
  exact forall_congr' (fun _ => not_and)

/-- A flow ends with a credential or a typed error exactly where every token response it comes
to expires in chrono's range. -/
theorem expiryPanicsExactly :
    (∀ env v, (exchangeCode config account env v).2 ≠ .panicked ↔
      ∀ tokens, Exchanged config env tokens → ¬Overflows env.now tokens.expiresIn) ∧
    (∀ accepted env v, (exchangeBookmarkWriteCode config accepted env v).2 ≠ .panicked ↔
      ∀ tokens, WriteExchanged config accepted env tokens → ¬Overflows env.now tokens.expiresIn) ∧
    ∀ presented env v, (refresh config account presented env v).2 ≠ .panicked ↔
      ∀ response, Rotated config account presented env v response → ¬Overflows env.now response.expiresIn :=
  ⟨fun env v => neverIff (exchangePanics config account env v),
    fun accepted env v => neverIff (writeExchangePanics config accepted env v),
    fun presented env v => neverIff (refreshPanics config account presented env v)⟩

end Panics

section Sample
open JsonText TokenMembers RefreshTurns

/- A token response with the longest lifetime that a u64 holds. -/
def endlessBody : Text :=
  "\x7b\"access_token\":\"access-2\",\"refresh_token\":\"refresh-2\",\"expires_in\":18446744073709551615\x7d".toList

theorem rotatedStorable : CredentialPayload.Storable ⟨"access-2","refresh-2"⟩ := by decide +kernel

def endlessResponse : TokenResponse := ⟨"access-2","refresh-2",18446744073709551615,none,rotatedStorable⟩

/-- The provider has rotated the pair, and the refresh panics before it stores the new one. -/
theorem rotatedPairLost :
    parseTokenResponse endlessBody = .ok ⟨"access-2","refresh-2",18446744073709551615,none⟩ ∧
      (refresh sampleService 1 none (sampleAnswers endlessResponse 2) connectedVault).2 = .panicked ∧
      (refresh sampleService 1 none (sampleAnswers endlessResponse 2) connectedVault).1.credentials.rows =
        connectedVault.credentials.rows := by
  decide +kernel

end Sample
end RatatoskrX.Expiry
