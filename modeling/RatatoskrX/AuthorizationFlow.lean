import RatatoskrX.CallbackRuns
import RatatoskrX.Foundation.Base64Url
import RatatoskrX.TokenForms

/-! An authorization from its intent to its token request: what the provider reads from the
authorization URL, which callback is accepted for it, and the verifier that is then sent. -/
namespace RatatoskrX.AuthorizationFlow
open JsonText Relational Schema Writeback Sealing Connection Transition TokenClient TokenForms Fingerprints Callbacks CallbackRuns

/- The entropy behind one value, from the random source of the system. -/
structure Entropy (n : Nat) where
  bytes : Bytes
  size : bytes.length = n

def verifierBytes : Nat := 64

def stateBytes : Nat := 32

structure AuthorizationIntent where
  state : String
  codeVerifier : String
  codeChallenge : String
  deriving DecidableEq, Repr

structure OauthConfig where
  authorizeUrl : String
  clientId : Option String
  redirectUri : Option String
  readScopes : List String
  deriving DecidableEq, Repr

section Urls

def generateVerifier (entropy : Entropy verifierBytes) : String := String.ofList (Base64Url.encode entropy.bytes)

def generateState (entropy : Entropy stateBytes) : String := String.ofList (Base64Url.encode entropy.bytes)

def challengeFromVerifier (sha256 : Bytes → Bytes) (verifier : String) : String :=
  String.ofList (Base64Url.encode (sha256 (utf8 verifier)))

def intentOf (sha256 : Bytes → Bytes) (state verifier : String) : AuthorizationIntent :=
  ⟨state,verifier,challengeFromVerifier sha256 verifier⟩

def AuthorizationIntent.issue (sha256 : Bytes → Bytes) (verifier : Entropy verifierBytes) (state : Entropy stateBytes) :
    AuthorizationIntent :=
  intentOf sha256 (generateState state) (generateVerifier verifier)

def formUrlencode (value : String) : Text := (utf8 value).flatMap encodedByte

def scopesFor (oauth : OauthConfig) : IntentPurpose → List String
  | .readConnection => oauth.readScopes
  | .bookmarkWrite _ =>
    if oauth.readScopes.any (· = "bookmark.write") then oauth.readScopes else oauth.readScopes ++ ["bookmark.write"]

def authorizationUrl (oauth : OauthConfig) (intent : AuthorizationIntent) (purpose : IntentPurpose) : Except FlowError Text :=
  match oauth.clientId.filter (· ≠ "") with
  | none => .error .configuration
  | some clientId => match oauth.redirectUri.filter (· ≠ "") with
    | none => .error .configuration
    | some redirectUri =>
      .ok (oauth.authorizeUrl.toList ++ "?response_type=code&client_id=".toList ++ formUrlencode clientId ++
        "&redirect_uri=".toList ++ formUrlencode redirectUri ++ "&scope=".toList ++
        formUrlencode (" ".intercalate (scopesFor oauth purpose)) ++ "&state=".toList ++ formUrlencode intent.state ++
        "&code_challenge=".toList ++ formUrlencode intent.codeChallenge ++ "&code_challenge_method=S256".toList)

/- What the provider reads: the query is what follows the first question mark, up to a fragment. -/
def readQuery (url : Text) : List (String × String) :=
  receivedFields (utf8 (String.ofList (((url.takeWhile (· ≠ '#')).dropWhile (· ≠ '?')).drop 1)))

/- The endpoint has no query and no fragment of its own. -/
def Plain (oauth : OauthConfig) : Prop := '?' ∉ oauth.authorizeUrl.toList ∧ '#' ∉ oauth.authorizeUrl.toList

instance (oauth : OauthConfig) : Decidable (Plain oauth) := inferInstanceAs (Decidable (_ ∧ _))

def authorizationFields (clientId redirectUri : String) (scopes : List String) (intent : AuthorizationIntent) :
    List (String × String) :=
  [("response_type","code"),("client_id",clientId),("redirect_uri",redirectUri),("scope"," ".intercalate scopes),
    ("state",intent.state),("code_challenge",intent.codeChallenge),("code_challenge_method","S256")]

theorem urlSpelled {oauth intent purpose url} (built : authorizationUrl oauth intent purpose = .ok url) :
    ∃ clientId redirectUri, oauth.clientId = some clientId ∧ oauth.redirectUri = some redirectUri ∧
      url = oauth.authorizeUrl.toList ++
        '?'::urlencoded (authorizationFields clientId redirectUri (scopesFor oauth purpose) intent) := by
  unfold authorizationUrl at built
  split at built
  · contradiction
  rename_i clientId client
  split at built
  · contradiction
  rename_i redirectUri redirect
  obtain rfl := Except.ok.inj built
  refine ⟨clientId,redirectUri,(Option.filter_eq_some_iff.mp client).1,(Option.filter_eq_some_iff.mp redirect).1,?_⟩
  have name : ∀ n ∈ ["response_type","code","client_id","redirect_uri","scope","state","code_challenge",
      "code_challenge_method","S256"], percentEncode n = n.toList := by decide +kernel
  simp only [List.mem_cons,List.not_mem_nil,or_false,forall_eq_or_imp,forall_eq] at name
  obtain ⟨responseType,code,client_,redirect_,scope,state,challenge,method,s256⟩ := name
  rw [show formUrlencode = percentEncode from rfl]
  simp only [bodyPieces,authorizationFields,List.map_cons,List.map_nil,pieceOf,responseType,code,client_,redirect_,scope,state,
    challenge,method,s256]
  simp [List.intercalate]

theorem encodedPlain (fields : List (String × String)) : '#' ∉ urlencoded fields := by
  have byte : ∀ b : UInt8, '#' ∉ encodedByte b := by
    have every : ∀ n : Fin 256, '#' ∉ encodedByte (UInt8.ofNat n) := by decide +kernel
    intro b
    have here := every ⟨b.toNat,b.toNat_lt⟩
    rwa [UInt8.ofNat_toNat] at here
  have value : ∀ v, '#' ∉ percentEncode v := by
    intro v member
    obtain ⟨b,_,there⟩ := List.mem_flatMap.mp member
    exact byte b there
  rw [bodyPieces]
  intro member
  rcases Splitting.joinedMember member with separator | ⟨piece,there,within⟩
  · exact absurd separator (by decide)
  · obtain ⟨field,_,rfl⟩ := List.mem_map.mp there
    simp [pieceOf,value] at within

theorem queryRead {oauth intent purpose url} (plain : Plain oauth) (built : authorizationUrl oauth intent purpose = .ok url) :
    ∃ clientId redirectUri, oauth.clientId = some clientId ∧ oauth.redirectUri = some redirectUri ∧
      readQuery url = authorizationFields clientId redirectUri (scopesFor oauth purpose) intent := by
  obtain ⟨clientId,redirectUri,client,redirect,rfl⟩ := urlSpelled built
  refine ⟨clientId,redirectUri,client,redirect,?_⟩
  have whole : ∀ c ∈ oauth.authorizeUrl.toList ++
      '?'::urlencoded (authorizationFields clientId redirectUri (scopesFor oauth purpose) intent), c ≠ '#' := by
    rintro c member rfl
    rcases List.mem_append.mp member with endpoint | query
    · exact plain.2 endpoint
    · exact encodedPlain _ ((List.mem_cons.mp query).resolve_left (by decide))
  rw [readQuery,List.takeWhile_eq_self_iff.mpr (by simpa using whole),
    List.dropWhile_append_of_pos (by
      rintro c member
      simpa using fun same : c = '?' => plain.1 (same ▸ member))]
  exact bodyReceived _

end Urls
/- What RFC 7636 asks of a verifier: 43 to 128 unreserved characters. -/
def Conforms (verifier : String) : Prop :=
  43 ≤ verifier.length ∧ verifier.length ≤ 128 ∧ ∀ c ∈ verifier.toList, c.isAlphanum ∨ c ∈ ['-','.','_','~']

theorem issuedShape (sha256 : Bytes → Bytes) (verifier : Entropy verifierBytes) (state : Entropy stateBytes) :
    let intent := AuthorizationIntent.issue sha256 verifier state
    Conforms intent.codeVerifier ∧
      Base64Url.decode intent.codeVerifier.toList = verifier.bytes ∧ Base64Url.decode intent.state.toList = state.bytes := by
  have unreserved : ∀ c ∈ Base64Url.alphabet, c.isAlphanum ∨ c ∈ ['-','.','_','~'] := by
    have every : Base64Url.alphabet.all (fun c => c.isAlphanum || ['-','.','_','~'].contains c) = true := by decide +kernel
    simpa using every
  have size : (generateVerifier verifier).length = 86 := by
    simp [generateVerifier,Base64Url.encodeLength,verifier.size,verifierBytes]
  refine ⟨⟨?_,?_,?_⟩,?_,?_⟩
  · exact Nat.le_trans (by decide) (Nat.le_of_eq size.symm)
  · exact Nat.le_trans (Nat.le_of_eq size) (by decide)
  · intro c member
    simp only [AuthorizationIntent.issue,intentOf,generateVerifier,String.toList_ofList] at member
    exact unreserved c (Base64Url.encodeLetters _ c member)
  · simp only [AuthorizationIntent.issue,intentOf,generateVerifier,String.toList_ofList,Base64Url.decodeEncode]
  · simp only [AuthorizationIntent.issue,intentOf,generateState,String.toList_ofList,Base64Url.decodeEncode]

theorem exchangedScopes {config : Config} {oauth : OauthConfig} {accepted env v} (same : oauth.readScopes = config.readScopes)
    (stored : (exchangeBookmarkWriteCode config accepted env v).2 = .ok) :
    accepted.requestedScopes = scopesFor oauth accepted.purpose := by
  unfold exchangeBookmarkWriteCode at stored
  split at stored
  · simp at stored
  · rename_i account purpose
    split at stored
    · simp at stored
    · rename_i requested
      rw [not_not.mp requested,purpose,scopesFor,writeScopes,same]
      simp [List.any_eq]

section Flow
variable {config : Config} {labels : List Label} {w v : World}

def IssuedAs (config : Config) (labels : List Label) (stateHash : Digest) (callback : ResolvedCallback) : Prop :=
  ∃ state internalUserId purpose requestedScopes expiresAt nonce,
    Label.issue state callback.codeVerifier internalUserId purpose requestedScopes expiresAt nonce ∈ labels ∧
      stateDigest config state = stateHash ∧ callback.accepted.internalUserId = internalUserId ∧
      callback.accepted.purpose = purpose ∧ callback.accepted.requestedScopes = requestedScopes

/- What every reachable world keeps: a row opens to what was issued with its state, and so
does an accepted callback. -/
structure Issued (config : Config) (labels : List Label) (w : World) : Prop where
  sound : Sound config w
  rows : ∀ row ∈ w.intents.table.rows, ∀ callback, acceptance config row = .ok (.accepted callback) →
    IssuedAs config labels row.stateHash callback
  calls : ∀ (index : Nat) call callback, w.calls[index]? = some call → call.pc = .done (.ok (.accepted callback)) →
    IssuedAs config labels (stateDigest config call.state) callback

theorem issuedResolve {index call ack} (issued : Issued config labels w) (found : w.calls[index]? = some call)
    (onward : Sound config v) (resolved : Resolved config w index call ack v) : Issued config labels v := by
  -- A call that moved to a point that accepts nothing new.
  have moved : ∀ (call' : Presentation) pc intents consumptions, call'.state = call.state →
      (∀ callback, pc = .done (.ok (.accepted callback)) → IssuedAs config labels (stateDigest config call.state) callback) →
      ∀ (i : Nat) other callback, ({w.move index call' pc with intents := intents, consumptions := consumptions} : World).calls[i]? =
        some other → other.pc = .done (.ok (.accepted callback)) → IssuedAs config labels (stateDigest config other.state) callback := by
    intro call' pc intents consumptions same fresh i other callback there accepted
    simp only [World.move] at there
    rw [setCall found] at there
    split at there
    · cases there
      simp only at accepted ⊢
      rw [same]
      exact fresh callback accepted
    · exact issued.calls i other callback there accepted
  cases resolved with
  | unmatched => exact ⟨onward,issued.rows,moved call _ w.intents w.consumptions rfl (by simp)⟩
  | found => exact ⟨onward,issued.rows,moved call _ w.intents w.consumptions rfl (by simp)⟩
  | failed => exact ⟨onward,issued.rows,moved call _ w.intents w.consumptions rfl (by simp)⟩
  | expired => exact ⟨onward,issued.rows,moved {call with checkedAt := some w.clock} _ w.intents w.consumptions rfl (by simp)⟩
  | timely => exact ⟨onward,issued.rows,moved {call with checkedAt := some w.clock} _ w.intents w.consumptions rfl (by simp)⟩
  | replayed => exact ⟨onward,issued.rows,moved call _ w.intents w.consumptions rfl (by simp)⟩
  | @consumed intent result pc live returns =>
    have stage := (issued.sound.calls index call found).stage
    rw [pc] at stage
    obtain ⟨_,_,hash,row,member,known⟩ := stage
    refine ⟨onward,?_,moved call _ _ _ rfl ?_⟩
    · intro row' after callback opens
      obtain ⟨old,there,rfl⟩ := memConsumed.mp after
      have same := settledKeeps intent.id w.clock old
      rw [← acceptanceColumns same] at opens
      exact congrArg IntentRow.stateHash same ▸ issued.rows old there callback opens
    · intro callback accepts
      rcases returns with rfl | rfl
      · rw [acceptanceColumns known] at accepts
        rw [← hash,← congrArg IntentRow.stateHash known]
        exact issued.rows row member callback (Pc.done.inj accepts)
      · cases accepts

theorem issuedStep {a} (issued : Issued config labels w) (written : a ∈ labels) (taken : step config w a = some v) :
    Issued config labels v := by
  have onward := stepSound issued.sound taken
  cases a with
  | issue state verifier internalUserId purpose requestedScopes expiresAt nonce =>
    simp only [step] at taken
    split at taken
    · rename_i short
      obtain ⟨intents,inserted,rfl⟩ := Option.map_eq_some_iff.mp taken
      refine ⟨onward,?_,issued.calls⟩
      unfold insertIntent at inserted
      split at inserted
      · cases inserted
        intro row member callback opens
        rcases List.mem_append.mp member with old | new
        · exact issued.rows row old callback opens
        · cases List.mem_singleton.mp new
          have same := opens.symm.trans (acceptIssued purpose short rfl (by rfl))
          cases same
          exact ⟨state,internalUserId,purpose,requestedScopes,expiresAt,nonce,written,rfl,rfl,rfl,rfl⟩
      · cases inserted
    · cases taken
  | tick now =>
    simp only [step] at taken
    split at taken
    · cases taken
      exact ⟨onward,issued.rows,issued.calls⟩
    · cases taken
  | present state =>
    cases taken
    refine ⟨onward,issued.rows,?_⟩
    intro i other callback there accepted
    rcases List.mem_append.mp (List.mem_of_getElem? there) with old | new
    · obtain ⟨j,here⟩ := List.getElem?_of_mem old
      exact issued.calls j other callback here accepted
    · cases List.mem_singleton.mp new
      cases accepted
  | advance index ack =>
    simp only [step] at taken
    split at taken
    · cases taken
    · rename_i call found
      exact issuedResolve issued found onward (resolveCases taken)

theorem issuedRun {clock} (run : Run (step config) free (World.opened clock) labels w) : Issued config labels w := by
  have under : Run (step config) (fun _ a => a ∈ labels) (World.opened clock) labels w := by
    refine run.meets _ ?_
    rintro t a v ⟨before,after,rfl,_⟩
    simp
  refine under.preserves (Issued config labels) (fun _ _ _ issued written taken => issuedStep issued written taken) ?_
  exact ⟨openedSound clock,by simp [World.opened,Table.empty],by simp [World.opened]⟩

/- The check of RFC 7636 at the token endpoint, on what the two requests said there. -/
def Redeems (sha256 : Bytes → Bytes) (query form : List (String × String)) : Prop :=
  form.lookup "redirect_uri" = query.lookup "redirect_uri" ∧ query.lookup "code_challenge_method" = some "S256" ∧
    ∃ verifier, form.lookup "code_verifier" = some verifier ∧
      query.lookup "code_challenge" = some (challengeFromVerifier sha256 verifier)

/- An accepted callback belongs to an intent that was issued: the provider read the intent's
state, scopes and challenge from its URL, and takes the token request of the callback for it. A
write grant that is then stored was asked for with the scopes of the intent's row. -/
theorem acceptedRedeems {clock} (run : Run (step config) free (World.opened clock) labels w) {index : Nat} {call callback}
    (there : w.calls[index]? = some call) (accepted : call.pc = .done (.ok (.accepted callback))) :
    ∃ state internalUserId purpose requestedScopes expiresAt nonce,
      Label.issue state callback.codeVerifier internalUserId purpose requestedScopes expiresAt nonce ∈ labels ∧
      stateDigest config state = stateDigest config call.state ∧
      callback.accepted.internalUserId = internalUserId ∧ callback.accepted.purpose = purpose ∧
      callback.accepted.requestedScopes = requestedScopes ∧
      (∀ secret seed, intentOf config.sha256 state callback.codeVerifier = AuthorizationIntent.issue config.sha256 secret seed →
        Conforms callback.codeVerifier ∧ Base64Url.decode callback.codeVerifier.toList = secret.bytes ∧
          Base64Url.decode state.toList = seed.bytes) ∧
      ∀ oauth url, Plain oauth →
        authorizationUrl oauth (intentOf config.sha256 state callback.codeVerifier) purpose = .ok url →
          ∃ redirectUri, oauth.redirectUri = some redirectUri ∧ (readQuery url).lookup "state" = some state ∧
            (readQuery url).lookup "scope" = some (" ".intercalate (scopesFor oauth purpose)) ∧
            (oauth.readScopes = config.readScopes → ∀ env v,
              (exchangeBookmarkWriteCode config callback.accepted env v).2 = .ok →
                (readQuery url).lookup "scope" = some (" ".intercalate requestedScopes)) ∧
            ∀ code, Redeems config.sha256 (readQuery url)
              (receivedFields (sentBody (TokenRequest.exchangeCode code redirectUri callback.codeVerifier).fields)) := by
  obtain ⟨state,internalUserId,purpose,requestedScopes,expiresAt,nonce,written,digest,rest⟩ :=
    (issuedRun run).calls index call callback there accepted
  obtain ⟨owner,purposed,scopes⟩ := rest
  refine ⟨state,internalUserId,purpose,requestedScopes,expiresAt,nonce,written,digest,owner,purposed,scopes,?_,?_⟩
  · intro secret seed generated
    have shape := issuedShape config.sha256 secret seed
    rw [← generated] at shape
    exact shape
  intro oauth url plain built
  obtain ⟨clientId,redirectUri,_,redirect,reads⟩ := queryRead plain built
  refine ⟨redirectUri,redirect,?_⟩
  rw [reads]
  refine ⟨rfl,rfl,fun same env v stored => ?_,fun code => ?_⟩
  · rw [← scopes,exchangedScopes same stored,purposed]
    rfl
  · rw [bodyReceived]
    exact ⟨rfl,rfl,callback.codeVerifier,rfl,rfl⟩

def registered : OauthConfig :=
  ⟨"https://x.com/i/oauth2/authorize",some "client",some "https://ratatoskr.example/callback",
    ["users.read","tweet.read","bookmark.read","offline.access"]⟩

theorem acceptedRedeemsRaced :
    ∃ url, authorizationUrl registered (intentOf sampleConfig.sha256 "other" "verifier") .readConnection = .ok url ∧
      (readQuery url).lookup "state" = some "other" ∧
      Redeems sampleConfig.sha256 (readQuery url) (receivedFields (sentBody
        (TokenRequest.exchangeCode "code" "https://ratatoskr.example/callback" "verifier").fields)) := by
  have run : Run (step sampleConfig) free (World.opened opening) raced racedEnd := replayRun (Option.some_get _).symm
  obtain ⟨call,there,accepted⟩ : ∃ call, racedEnd.calls[1]? = some call ∧
      call.pc = .done (.ok (.accepted ⟨⟨1,1,.readConnection,["users.read"]⟩,"verifier"⟩)) :=
    ⟨(racedEnd.calls[1]?).get (by decide +kernel),(Option.some_get _).symm,by decide +kernel⟩
  obtain ⟨state,_,purpose,_,_,_,written,_,_,purpose_,_,_,reads⟩ := acceptedRedeems run there accepted
  obtain rfl : state = "other" := by
    simp only [raced,List.mem_cons,List.not_mem_nil,or_false,reduceCtorEq,Label.issue.injEq] at written
    exact written.1
  cases purpose_
  obtain ⟨redirectUri,redirect,stated,_,_,redeems⟩ := reads registered _ (by decide) rfl
  cases redirect
  exact ⟨_,rfl,stated,redeems "code"⟩

end Flow
end RatatoskrX.AuthorizationFlow
