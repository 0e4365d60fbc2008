import RatatoskrX.Expiry
import RatatoskrX.SealedEnvelopes

/-! Runs of refreshes against a provider that answers as it likes. Every refresh brings an HTTP
answer; what the client makes of it decides the exit that the refresh takes. -/
namespace RatatoskrX.RefreshRuns
open Outcome Schema Writeback Sealing Connection RefreshFamily RefreshTurns TokenMembers TokenClient Expiry

/- A refresh and what its environment answers; no answer is a request that failed. -/
structure Attempt where
  presented : Option String
  answer : Option Response
  locked : Ack
  nonce : Nonce
  now : DateTime
  committed : Ack

def Attempt.env (a : Attempt) : RefreshAnswers := ⟨a.locked,postTokenForm a.answer,a.nonce,a.now,a.committed⟩

def attempts (config : Config) (account : Uuid) (v : Vault) (run : List Attempt) : Vault :=
  run.foldl (fun v a => (refresh config account a.presented a.env v).1) v

def Attempt.tokens (a : Attempt) : List String :=
  a.presented.toList ++ ((postTokenForm a.answer).toOption.map TokenResponse.refreshToken).toList

def Family.after (f : Family) (run : List Attempt) : Family := run.foldl (fun f a => f.turn a.presented a.env) f

section Runs
variable {config : Config} {account id : Uuid} {v : Vault} {f : Family} {tokens : List String}

theorem attemptKnown {a : Attempt} (within : a.tokens ⊆ tokens) : CallKnown tokens a.presented a.env := by
  refine ⟨?_,?_⟩
  · intro t same
    exact within (by simp [Attempt.tokens,same])
  · intro response same
    have answered : postTokenForm a.answer = .ok response := same
    exact within (by simp [Attempt.tokens,answered,Except.toOption])

theorem attemptShows (digests : DigestsApart config tokens) (shown : Represents config account id v f)
    (known : FamilyKnown tokens f) {a : Attempt} (within : a.tokens ⊆ tokens) :
    Represents config account id (refresh config account a.presented a.env v).1 (f.turn a.presented a.env) ∧
      FamilyKnown tokens (f.turn a.presented a.env) := by
  have call := attemptKnown within
  rw [refreshExit shown digests call.1 known.2 a.env]
  exact ⟨turnShows shown a.presented a.env,turnKnown known call⟩

theorem attemptsShow (digests : DigestsApart config tokens) {run : List Attempt} (shown : Represents config account id v f)
    (known : FamilyKnown tokens f) (within : ∀ a ∈ run, a.tokens ⊆ tokens) :
    Represents config account id (attempts config account v run) (Family.after f run) := by
  induction run generalizing v f with
  | nil => exact shown
  | cons a rest ih =>
    rw [List.forall_mem_cons] at within
    obtain ⟨next,knownNext⟩ := attemptShows digests shown known within.1
    exact ih next knownNext within.2

end Runs

section Sample
open SealedEnvelopes

def idealService : Config := {sampleService with gcm := idealGcm}

theorem idealShows : Represents idealService 1 1 connectedVault connectedFamily :=
  ⟨(connectedVault.credentials.find 1).get (by decide +kernel),Option.some_get _|>.symm,by decide +kernel,by decide +kernel,
    by decide +kernel,by decide +kernel,⟨1,7,"user-1",.connected⟩,by decide +kernel,rfl⟩

def sampleAttempt (answer : Option Response) (n : UInt8) : Attempt :=
  ⟨none,answer,.ok,sampleNonce n,Schedule.sampleInstant,.ok⟩

def rotatedBody : Bytes :=
  utf8 "\x7b\"access_token\":\"access-2\",\"refresh_token\":\"refresh-2\",\"expires_in\":7200\x7d"

def nextBody : Bytes :=
  utf8 "\x7b\"access_token\":\"access-3\",\"refresh_token\":\"refresh-3\",\"expires_in\":7200\x7d"

def tokenOmittedBody : Bytes := utf8 "\x7b\"access_token\":\"access-2\",\"expires_in\":7200\x7d"

end Sample

section Outages

/- The status of an overloaded or broken provider. -/
def Outage (status : Nat) : Prop := status = 408 ∨ status = 429 ∨ (500 ≤ status ∧ status < 600)

instance (status) : Decidable (Outage status) := by unfold Outage; infer_instance

/- The answer does not reject the grant: it is a usable token response, the transport failed,
or the provider is down. -/
def Spares (answer : Option Response) : Prop :=
  (∃ response, postTokenForm answer = .ok response) ∨ postTokenForm answer = .error .transport ∨
    ∃ r, answer = some r ∧ Outage r.status

/- The answer came whole: its body was read and keeps to the bound. -/
def Completed (r : Response) : Prop :=
  (∀ length, r.contentLength = some length → length ≤ maxBodyBytes) ∧
    ∃ bytes, r.body = some bytes ∧ bytes.length ≤ maxBodyBytes

instance (r) : Decidable (Completed r) :=
  inferInstanceAs (Decidable ((∀ length ∈ r.contentLength, length ≤ maxBodyBytes) ∧
    ∃ bytes ∈ r.body, bytes.length ≤ maxBodyBytes))

def Reaches (f : Family) (a : Attempt) : Prop :=
  a.locked = .ok ∧ f.token a.presented = f.current.refreshToken

instance (f a) : Decidable (Reaches f a) := by unfold Reaches; infer_instance

/- What a refresh has to be spared: a reuse of the retired token, a completed answer of a
provider that is down, and the loss of a pair that the provider issued. -/
structure Spared (f : Family) (a : Attempt) : Prop where
  reuse : a.locked = .ok → a.committed ≠ .fault → f.token a.presented ≠ f.current.refreshToken →
    f.retired ≠ some (f.token a.presented)
  outage : Reaches f a → a.committed ≠ .fault → ∀ r, a.answer = some r → Outage r.status → ¬Completed r
  stored : Reaches f a → ∀ response, postTokenForm a.answer = .ok response →
    a.committed ≠ .fault ∧ ¬Overflows a.now response.expiresIn

def AllSpared (f : Family) : List Attempt → Prop
  | [] => True
  | a::rest => Spared f a ∧ AllSpared (f.turn a.presented a.env) rest

/- The last pair that the provider has issued once the refresh is answered. -/
def issuedBy (f : Family) (issued : CredentialPayload) (a : Attempt) : CredentialPayload :=
  match postTokenForm a.answer with
  | .ok response => if Reaches f a then response.payload else issued
  | .error _ => issued

def lastIssued (f : Family) (issued : CredentialPayload) : List Attempt → CredentialPayload
  | [] => issued
  | a::rest => lastIssued (f.turn a.presented a.env) (issuedBy f issued a) rest

def Keeps (config : Config) (account id : Uuid) (v : Vault) (pair : CredentialPayload) (state : AccountState) : Prop :=
  (∃ row, v.credentials.find id = some row ∧ row.status = .active ∧ lockActiveForAccount v account = some row ∧
      openPayload config account row.encryptedPayload = .ok pair) ∧
    ∃ a, v.accounts.find account = some a ∧ a.state = state

variable {config : Config} {account id : Uuid} {v : Vault} {f : Family}

theorem incompleteFails {r : Response} (incomplete : ¬Completed r) :
    postTokenForm (some r) ≠ .error .upstreamInvalidation := by
  simp only [postTokenForm,boundedResponse]
  split
  · simp [malformed,bind,Except.bind]
  rename_i stated
  have short : ∀ length, r.contentLength = some length → length ≤ maxBodyBytes := by
    intro length same
    simpa [same] using stated
  split
  · simp [bind,Except.bind]
  rename_i bytes body
  split
  · rename_i bounded
    exact absurd ⟨short,bytes,body,bounded⟩ incomplete
  · simp [malformed,bind,Except.bind]

theorem exitReaching {a : Attempt} (active : f.standing = .active) (reaches : Reaches f a) :
    f.exit a.presented a.env = match postTokenForm a.answer with
      | .error .upstreamInvalidation => .invalidated
      | .error failure => .failed failure
      | .ok response => match expiry a.now response with
        | none => .overflowed
        | some expiresAt => .rotated response expiresAt := by
  have granted : a.env.locked = .ok := reaches.1
  unfold Family.exit
  rw [if_neg (not_not.mpr granted),if_neg (not_not.mpr active),if_neg (not_not.mpr reaches.2)]
  rfl

theorem turnSpared {a : Attempt} (spared : Spared f a) (active : f.standing = .active) (answer : Spares a.answer) :
    (f.turn a.presented a.env).standing = .active ∧ (f.turn a.presented a.env).state = f.state ∧
      (f.turn a.presented a.env).current = issuedBy f f.current a := by
  have still {exit : Exit} (exited : f.exit a.presented a.env = exit) (idle : f.take exit = f) :
      f.turn a.presented a.env = f := by
    unfold Family.turn
    rw [exited,idle,ite_self]
  have unreached (same : f.turn a.presented a.env = f) (apart : ¬Reaches f a) :
      (f.turn a.presented a.env).standing = .active ∧ (f.turn a.presented a.env).state = f.state ∧
        (f.turn a.presented a.env).current = issuedBy f f.current a := by
    rw [same,issuedBy]
    refine ⟨active,rfl,?_⟩
    split
    · rw [if_neg apart]
    · rfl
  by_cases refused : a.committed = .fault
  · -- Nothing of the turn is stored, and no pair was issued in it.
    have same : f.turn a.presented a.env = f := if_pos refused
    rw [same,issuedBy]
    refine ⟨active,rfl,?_⟩
    split
    · rename_i response answered
      rw [if_neg (fun reaches => (spared.stored reaches response answered).1 refused)]
    · rfl
  by_cases locked : a.locked = .ok
  · by_cases current : f.token a.presented = f.current.refreshToken
    · have reaches : Reaches f a := ⟨locked,current⟩
      cases answered : postTokenForm a.answer with
      | error failure =>
        have unrejected : failure ≠ .upstreamInvalidation := by
          rintro rfl
          obtain ⟨response,ok⟩ | failed | ⟨r,same,down⟩ := answer
          · simp [ok] at answered
          · simp [failed] at answered
          · rw [same] at answered
            exact incompleteFails (spared.outage reaches refused r same down) answered
        have exited : f.exit a.presented a.env = .failed failure := by
          rw [exitReaching active reaches,answered]
          cases failure with
          | upstreamInvalidation => exact absurd rfl unrejected
          | transport | malformedProviderResponse => rfl
        rw [still exited rfl,issuedBy,answered]
        exact ⟨active,rfl,rfl⟩
      | ok response =>
        obtain ⟨committed,fits⟩ := spared.stored reaches response answered
        obtain ⟨expiresAt,sum⟩ := Option.ne_none_iff_exists'.mp (fun none => fits (expiryNone.mp none))
        have exited : f.exit a.presented a.env = .rotated response expiresAt := by
          rw [exitReaching active reaches,answered]
          simp only [sum]
        have kept : a.env.committed ≠ .fault := committed
        unfold Family.turn
        rw [if_neg kept,exited,issuedBy,answered]
        exact ⟨active,rfl,(if_pos reaches).symm⟩
    · have exited : f.exit a.presented a.env = .stale := by
        have granted : a.env.locked = .ok := locked
        unfold Family.exit
        rw [if_neg (not_not.mpr granted),if_neg (not_not.mpr active),if_pos current,
          if_neg (spared.reuse locked refused current)]
      exact unreached (still exited rfl) (fun reaches => current reaches.2)
  · have exited : f.exit a.presented a.env = .faulted := by
      unfold Family.exit
      exact if_pos locked
    exact unreached (still exited rfl) (fun reaches => locked reaches.1)

theorem runSpared {run : List Attempt} (spared : AllSpared f run) (active : f.standing = .active)
    (answers : ∀ a ∈ run, Spares a.answer) : (Family.after f run).standing = .active ∧
      (Family.after f run).state = f.state ∧ (Family.after f run).current = lastIssued f f.current run := by
  induction run generalizing f with
  | nil => exact ⟨active,rfl,rfl⟩
  | cons a rest ih =>
    rw [List.forall_mem_cons] at answers
    obtain ⟨standing,state,current⟩ := turnSpared spared.1 active answers.1
    obtain ⟨standing',state',current'⟩ := ih spared.2 standing answers.2
    refine ⟨standing',state'.trans state,current'.trans ?_⟩
    rw [lastIssued,current]

theorem sparedBefore {before rest : List Attempt} (spared : AllSpared f (before ++ rest)) : AllSpared f before := by
  induction before generalizing f with
  | nil => trivial
  | cons a before ih => exact ⟨spared.1,ih spared.2⟩

theorem representsKeeps (shown : Represents config account id v f) (active : f.standing = .active) :
    Keeps config account id v f.current f.state := by
  obtain ⟨row,shown⟩ := shown
  have payload := shown.payload
  rw [active,if_neg (by decide)] at payload
  have locked := shown.locked
  rw [if_pos active] at locked
  exact ⟨⟨row,shown.found,shown.standing.trans active,locked,payload⟩,shown.state⟩

/-- A provider that does not reject the grant leaves the connection as it is, in every state of
a run that is spared its completed answers while it is down. -/
theorem outagesSpareConnection {run : List Attempt}
    (digests : DigestsApart config (f.tokens ++ run.flatMap Attempt.tokens)) (shown : Represents config account id v f)
    (active : f.standing = .active) (answers : ∀ a ∈ run, Spares a.answer) (spared : AllSpared f run) :
    ∀ before rest, run = before ++ rest →
      Keeps config account id (attempts config account v before) (lastIssued f f.current before) f.state := by
  rintro before rest rfl
  have known : FamilyKnown (f.tokens ++ (before ++ rest).flatMap Attempt.tokens) f :=
    familyKnown (List.subset_append_left ..)
  have within : ∀ a ∈ before, a.tokens ⊆ f.tokens ++ (before ++ rest).flatMap Attempt.tokens := by
    intro a member t here
    exact List.mem_append_right _ (List.mem_flatMap.mpr ⟨a,List.mem_append_left _ member,here⟩)
  have last := attemptsShow digests shown known within
  obtain ⟨standing,state,current⟩ :=
    runSpared (sparedBefore spared) active (fun a member => answers a (List.mem_append_left _ member))
  have keeps := representsKeeps last standing
  rwa [current,state] at keeps

/- A request that fails, an answer past the bound and a usable one. -/
def spentOutages : List Attempt :=
  [sampleAttempt none 4,sampleAttempt (some ⟨503,some 1000000,some []⟩) 5,sampleAttempt (some ⟨200,none,some rotatedBody⟩) 2]

def rotatedResponse : TokenResponse := ⟨"access-2","refresh-2",7200,none,rotatedStorable⟩

theorem rotatedAnswer : postTokenForm (some ⟨200,none,some rotatedBody⟩) = .ok rotatedResponse := by decide +kernel

theorem outagesSpareConnectionThrice :
    Keeps idealService 1 1 (attempts idealService 1 connectedVault spentOutages) (samplePair 2) .connected := by
  have failed : Spared connectedFamily (sampleAttempt none 4) :=
    ⟨by decide +kernel,by simp [sampleAttempt],by simp [sampleAttempt,postTokenForm]⟩
  have oversized : Spared connectedFamily (sampleAttempt (some ⟨503,some 1000000,some []⟩) 5) := by
    refine ⟨by decide +kernel,?_,?_⟩
    · intro _ _ r same _
      cases same
      decide
    · intro _ response ok
      simp [sampleAttempt,postTokenForm,boundedResponse,maxBodyBytes,malformed,bind,Except.bind] at ok
  have usable : Spared connectedFamily (sampleAttempt (some ⟨200,none,some rotatedBody⟩) 2) := by
    refine ⟨by decide +kernel,?_,?_⟩
    · intro _ _ r same
      cases same
      decide
    · intro _ response ok
      cases Except.ok.inj (rotatedAnswer.symm.trans ok)
      refine ⟨by decide,?_⟩
      unfold Overflows
      decide +kernel
  have answers : ∀ a ∈ spentOutages, Spares a.answer := by
    simp only [spentOutages,List.forall_mem_cons]
    exact ⟨.inr (.inl rfl),.inr (.inr ⟨_,rfl,by decide⟩),.inl ⟨_,rotatedAnswer⟩,by simp⟩
  have issued : lastIssued connectedFamily connectedFamily.current spentOutages = samplePair 2 := by decide +kernel
  rw [← issued]
  exact outagesSpareConnection ⟨by decide +kernel,by decide +kernel⟩ idealShows rfl answers
    ⟨failed,oversized,usable,trivial⟩ spentOutages [] rfl

def unavailable : List Attempt := [sampleAttempt (some ⟨503,none,some []⟩) 4]

/-- One completed 503 expires the credential and asks the account to connect again. -/
theorem outageExpiresConnection : (∀ a ∈ unavailable, Spares a.answer) ∧
    (attempts idealService 1 connectedVault unavailable).credentials.rows.map CredentialRow.status = [.expired] ∧
    ¬∃ pair, Keeps idealService 1 1 (attempts idealService 1 connectedVault unavailable) pair .connected := by
  refine ⟨?_,by decide +kernel,?_⟩
  · simp only [unavailable,List.forall_mem_singleton]
    exact .inr (.inr ⟨_,rfl,by decide⟩)
  · rintro ⟨pair,_,account,found,connected⟩
    have moved : (attempts idealService 1 connectedVault unavailable).accounts.find 1 =
        some ⟨1,7,"user-1",.reauthRequired⟩ := by decide +kernel
    cases Option.some.inj (moved.symm.trans found)
    simp at connected

end Outages

section Tokens

def issuedToken (answer : Option Response) : Option String :=
  (answer.bind (fun r => (boundedResponse r).toOption)).bind (fun read =>
    (extractStringMember read.2.1 "refresh_token").toOption.join)

def lastToken (first : String) (run : List Attempt) : String :=
  run.foldl (fun last a => (issuedToken a.answer).getD last) first

def AllSucceed (config : Config) (account : Uuid) (v : Vault) : List Attempt → Prop
  | [] => True
  | a::rest => (refresh config account a.presented a.env v).2 = .ok ∧
    AllSucceed config account (refresh config account a.presented a.env v).1 rest

def HoldsToken (config : Config) (account : Uuid) (v : Vault) (token : String) : Prop :=
  ∃ row stored, lockActiveForAccount v account = some row ∧
    openPayload config account row.encryptedPayload = .ok stored ∧ stored.refreshToken = token

/- Every answer has a refresh token, unless the token that it would replace is empty. -/
def NoneOmitted (first : String) : List Attempt → Prop
  | [] => True
  | a::rest => (issuedToken a.answer = none → first = "") ∧ NoneOmitted ((issuedToken a.answer).getD first) rest

variable {config : Config} {account id : Uuid} {v : Vault} {f : Family} {tokens : List String}

theorem answeredToken {answer response} (ok : postTokenForm answer = .ok response) :
    response.refreshToken = (issuedToken answer).getD "" := by
  cases answer with
  | none => simp [postTokenForm] at ok
  | some r =>
    simp only [postTokenForm,bindOk] at ok
    obtain ⟨⟨status,body⟩,read,ok⟩ := ok
    split at ok
    · obtain ⟨fields,parsed,_,same,_⟩ := tokenFields ok
      obtain ⟨_,_,found,refresh,made⟩ := parsedFields parsed
      rw [same,made]
      simp [issuedToken,read,refresh,Except.toOption]
    · simp at ok

theorem endedOk {exit : Exit} {ack} (ended : exit.ended ack = .ok) :
    ack = .ok ∧ ∃ response expiresAt, exit = .rotated response expiresAt := by
  cases exit with
  | rotated response expiresAt =>
    cases ack with
    | ok => exact ⟨rfl,response,expiresAt,rfl⟩
    | fault | lost => simp [Exit.ended,acknowledged] at ended
  | replayed | invalidated => cases ack <;> simp [Exit.ended,acknowledged] at ended
  | failed failure => simp [Exit.ended] at ended
  | faulted | inactive | stale | overflowed => simp [Exit.ended] at ended

theorem exitRotated {a : Attempt} {response expiresAt} (exited : f.exit a.presented a.env = .rotated response expiresAt) :
    f.standing = .active ∧ postTokenForm a.answer = .ok response := by
  unfold Family.exit at exited
  split at exited
  · simp at exited
  split at exited
  · simp at exited
  rename_i active
  split at exited
  · split at exited <;> simp at exited
  refine ⟨not_not.mp active,?_⟩
  have answered : a.env.tokens = postTokenForm a.answer := rfl
  rw [answered] at exited
  split at exited
  · simp at exited
  · simp at exited
  · rename_i known ok
    split at exited
    · simp at exited
    · cases exited
      exact ok

theorem turnSucceeded (digests : DigestsApart config tokens) (shown : Represents config account id v f)
    (known : FamilyKnown tokens f) {a : Attempt} (within : a.tokens ⊆ tokens)
    (ok : (refresh config account a.presented a.env v).2 = .ok) :
    (f.turn a.presented a.env).standing = .active ∧
      (f.turn a.presented a.env).current.refreshToken = (issuedToken a.answer).getD "" := by
  have call := attemptKnown within
  rw [refreshExit shown digests call.1 known.2 a.env] at ok
  obtain ⟨committed,response,expiresAt,exited⟩ := endedOk ok
  obtain ⟨active,answered⟩ := exitRotated exited
  unfold Family.turn
  rw [if_neg (by rw [committed]; decide),exited]
  exact ⟨active,answeredToken answered⟩

theorem holdsCurrent (shown : Represents config account id v f) (active : f.standing = .active) (token : String) :
    HoldsToken config account v token ↔ f.current.refreshToken = token := by
  obtain ⟨⟨row,_,_,locked,opened⟩,_⟩ := representsKeeps shown active
  constructor
  · rintro ⟨row',stored,locked',opened',rfl⟩
    cases Option.some.inj (locked.symm.trans locked')
    cases Except.ok.inj (opened.symm.trans opened')
    rfl
  · intro same
    exact ⟨row,f.current,locked,opened,same⟩

theorem tokensKept {run : List Attempt} (digests : DigestsApart config tokens) (shown : Represents config account id v f)
    (known : FamilyKnown tokens f) (active : f.standing = .active) (within : ∀ a ∈ run, a.tokens ⊆ tokens)
    (succeed : AllSucceed config account v run) :
    (∀ before rest, run = before ++ rest →
      HoldsToken config account (attempts config account v before) (lastToken f.current.refreshToken before)) ↔
        NoneOmitted f.current.refreshToken run := by
  induction run generalizing v f with
  | nil =>
    refine iff_of_true ?_ trivial
    intro before rest same
    obtain ⟨rfl,rfl⟩ := List.append_eq_nil_iff.mp same.symm
    exact (holdsCurrent shown active _).mpr rfl
  | cons a rest ih =>
    rw [List.forall_mem_cons] at within
    obtain ⟨next,knownNext⟩ := attemptShows digests shown known within.1
    obtain ⟨standing,current⟩ := turnSucceeded digests shown known within.1 succeed.1
    have later := ih next knownNext standing within.2 succeed.2
    rw [current] at later
    constructor
    · intro kept
      have first := (holdsCurrent next standing _).mp (kept [a] rest rfl)
      rw [current] at first
      have same : (issuedToken a.answer).getD "" = (issuedToken a.answer).getD f.current.refreshToken := first
      refine ⟨?_,?_⟩
      · intro omitted
        rw [omitted] at same
        exact same.symm
      · rw [← same]
        refine later.mp ?_
        rintro before rest' rfl
        have whole := kept (a::before) rest' rfl
        have step : lastToken f.current.refreshToken (a::before) =
            lastToken ((issuedToken a.answer).getD f.current.refreshToken) before := rfl
        rw [step,← same] at whole
        exact whole
    · rintro ⟨omitted,others⟩
      have same : (issuedToken a.answer).getD "" = (issuedToken a.answer).getD f.current.refreshToken := by
        cases there : issuedToken a.answer with
        | none => exact (omitted there).symm
        | some token => rfl
      rw [← same] at others
      intro before rest' split
      cases before with
      | nil => exact (holdsCurrent shown active _).mpr rfl
      | cons b before =>
        obtain ⟨rfl,tail⟩ := List.cons.inj split
        have whole := later.mpr others before rest' tail
        rw [same] at whole
        exact whole

/-- Over successful refreshes the stored refresh token is the last one issued exactly where no
answer leaves the token out. -/
theorem refreshTokenKeptExactly {run : List Attempt}
    (digests : DigestsApart config (f.tokens ++ run.flatMap Attempt.tokens)) (shown : Represents config account id v f)
    (active : f.standing = .active) (succeed : AllSucceed config account v run) :
    (∀ before rest, run = before ++ rest →
      HoldsToken config account (attempts config account v before) (lastToken f.current.refreshToken before)) ↔
        NoneOmitted f.current.refreshToken run := by
  refine tokensKept digests shown (familyKnown (List.subset_append_left ..)) active ?_ succeed
  intro a member t here
  exact List.mem_append_right _ (List.mem_flatMap.mpr ⟨a,member,here⟩)

def bothIssued : List Attempt := [sampleAttempt (some ⟨200,none,some rotatedBody⟩) 2,sampleAttempt (some ⟨200,none,some nextBody⟩) 3]

theorem refreshTokenKeptTwice :
    (∀ before rest, bothIssued = before ++ rest →
      HoldsToken idealService 1 (attempts idealService 1 connectedVault before) (lastToken "refresh-1" before)) ↔
        NoneOmitted "refresh-1" bothIssued :=
  refreshTokenKeptExactly ⟨by decide +kernel,by decide +kernel⟩ idealShows rfl
    ⟨by decide +kernel,by decide +kernel,trivial⟩

def tokenOmitted : List Attempt := [sampleAttempt (some ⟨200,none,some tokenOmittedBody⟩) 5]

/-- A successful refresh whose answer has no refresh token stores the empty one in its place. -/
theorem omittedTokenLost : AllSucceed idealService 1 connectedVault tokenOmitted ∧
    lastToken "refresh-1" tokenOmitted = "refresh-1" ∧
    HoldsToken idealService 1 (attempts idealService 1 connectedVault tokenOmitted) "" ∧
    ¬HoldsToken idealService 1 (attempts idealService 1 connectedVault tokenOmitted) "refresh-1" := by
  have opened : (lockActiveForAccount (attempts idealService 1 connectedVault tokenOmitted) 1).map
      (fun row => openPayload idealService 1 row.encryptedPayload) = some (.ok ⟨"access-2",""⟩) := by decide +kernel
  obtain ⟨row,locked,stored⟩ := Option.map_eq_some_iff.mp opened
  refine ⟨⟨by decide +kernel,trivial⟩,by decide +kernel,⟨row,_,locked,stored,rfl⟩,?_⟩
  rintro ⟨row',stored',locked',opened',same⟩
  cases Option.some.inj (locked.symm.trans locked')
  cases Except.ok.inj (stored.symm.trans opened')
  simp at same

end Tokens
end RatatoskrX.RefreshRuns
