import Mathlib.Data.List.DropRight
import RatatoskrX.Foundation.Outcome
import RatatoskrX.Connection
import RatatoskrX.Normalization
import RatatoskrX.Writeback

/-! The adapter that sends a bookmark mutation to the official provider: the credential it
opens, the request it makes, and the class it gives to what comes back. The JSON reader is a
parameter. -/
namespace RatatoskrX.BookmarkProvider
open Outcome Schema Sealing Connection Normalization Writeback

def maxResponseSize : Nat := 64 * 1024

structure TransportError where
  isConnect : Bool
  status : Option UInt16
  deriving DecidableEq, Repr

structure Response where
  status : UInt16
  headers : List (String × Bytes)
  contentLength : Option Nat
  chunks : List (Except TransportError Bytes)

inductive Method where
  | post | delete
  deriving DecidableEq, Repr

structure Request where
  method : Method
  url : String
  bearer : String
  /-- The member tweet_id of the body, where there is one. -/
  tweetId : Option String
  deriving DecidableEq, Repr

abbrev Reply := Except TransportError Response

abbrev Answered := Except BookmarkProviderError BookmarkProviderEvidence

namespace Response

def header (r : Response) (name : String) : Option Bytes := (r.headers.find? (fun h => h.1 = name)).map Prod.snd

def isClientError (r : Response) : Bool := 400 ≤ r.status && r.status < 500
def isServerError (r : Response) : Bool := 500 ≤ r.status && r.status < 600
def isSuccess (r : Response) : Bool := 200 ≤ r.status && r.status < 300

end Response

/-- HeaderValue::to_str: visible ASCII and tabs. -/
def toStr (value : Bytes) : Option String :=
  if value.all (fun b => b = 9 || (32 ≤ b && b < 127)) then some (String.ofList (value.map (fun b => Char.ofNat b.toNat)))
  else none

/-- i64::from_str -/
def parseI64 (value : String) : Option Int :=
  let (negative,digits) := match value.toList with
    | '-'::rest => (true,rest)
    | '+'::rest => (false,rest)
    | digits => (false,digits)
  if digits = [] ∨ ¬digits.all Char.isDigit then none
  else
    let magnitude : Int := digits.foldl (fun n c => n * 10 + (c.toNat - 48)) (0 : Nat)
    let n := if negative then -magnitude else magnitude
    if -2 ^ 63 ≤ n ∧ n < 2 ^ 63 then some n else none

def boundedRequestId (value : String) : Option String :=
  if value ≠ "" ∧ value.utf8ByteSize ≤ 128 ∧
      value.toList.all (fun c => c.isAlphanum || c = '.' || c = '_' || c = ':' || c = '-') then some value
  else none

def responseEvidence (r : Response) : BookmarkProviderEvidence :=
  ⟨((r.header "x-request-id").bind toStr).bind boundedRequestId⟩

def classifyTransport (error : TransportError) : BookmarkProviderError :=
  if error.isConnect then .transient else .uncertain error.status ⟨none⟩

/- value.pointer("/data/bookmarked").and_then(as_bool) -/
def bookmarked : Json → Option Bool
  | .object members => match members.lookup "data" with
    | some (.object data) => match data.lookup "bookmarked" with
      | some (.bool value) => some value
      | _ => none
    | _ => none
  | _ => none

/- The chunks of a body under the bound, after the bytes that are read already. -/
def readChunks (oversized : BookmarkProviderError) (body : Bytes) :
    List (Except TransportError Bytes) → Except BookmarkProviderError Bytes
  | [] => .ok body
  | .error error::_ => .error (classifyTransport error)
  | .ok chunk::rest =>
    if maxResponseSize < body.length + chunk.length then .error oversized
    else readChunks oversized (body ++ chunk) rest

abbrev CredentialState := String × Bytes × List String × List String

section Adapter
variable (config : Connection.Config) (fromSlice : Bytes → Option Json)

/- row is the fetch of the latest active credential of a connected account whose write
authorization is active: none where the statement fails. -/
def credential (account : Uuid) (row : Option (Option CredentialState)) :
    Except BookmarkProviderError (String × CredentialPayload) :=
  match row with
  | none | some none => .error .credentialUnavailable
  | some (some (providerUserId,encrypted,credentialScopes,authorizationScopes)) =>
    if scopesGranted credentialScopes authorizationScopes then
      match openPayload config account encrypted with
      | .error _ => .error .credentialInvalid
      | .ok payload => .ok (providerUserId,payload)
    else .error .credentialScopeRequired

def classify (expected : Bool) (r : Response) : Answered :=
  let evidence := responseEvidence r
  let uncertain : BookmarkProviderError := .uncertain (some r.status) evidence
  if r.status = 401 ∨ r.status = 403 then .error (.authorizationLost evidence)
  else if r.status = 429 then
    .error (.rateLimited (((r.header "x-rate-limit-reset").bind toStr).bind parseI64) evidence)
  else if r.isClientError then .error (.definiteRefusal r.status evidence)
  else if r.isServerError ∨ ¬r.isSuccess then .error uncertain
  else if r.contentLength.any (maxResponseSize < ·) then .error uncertain
  else do
    let body ← readChunks uncertain [] r.chunks
    match fromSlice body with
    | none => .error uncertain
    | some value => if bookmarked value = some expected then .ok evidence else .error uncertain

def send (expected : Bool) : Reply → Answered
  | .error error => .error (classifyTransport error)
  | .ok r => classify fromSlice expected r

/-- base_url.trim_end_matches('/') -/
def trimmed (baseUrl : String) : String := String.ofList (baseUrl.toList.rdropWhile (· = '/'))

def request (baseUrl providerUserId providerPostId token : String) : BookmarkAction → Request
  | .add => ⟨.post,trimmed baseUrl ++ "/2/users/" ++ providerUserId ++ "/bookmarks",token,some providerPostId⟩
  | .remove =>
    ⟨.delete,trimmed baseUrl ++ "/2/users/" ++ providerUserId ++ "/bookmarks/" ++ providerPostId,token,none⟩

/- The state that a mutation asks for, and that its answer has to state. -/
def expectedBookmarked : BookmarkAction → Bool
  | .add => true
  | .remove => false

/- add and remove: the request that leaves, if one does, and the answer that is made of its
reply. A client that was not built sends nothing. -/
def mutate (httpReady : Bool) (baseUrl : String) (account : Uuid) (providerPostId : String) (action : BookmarkAction)
    (row : Option (Option CredentialState)) (transport : Request → Reply) : Option Request × Answered :=
  match credential config account row with
  | .error error => (none,.error error)
  | .ok (providerUserId,payload) =>
    if httpReady then
      let sent := request baseUrl providerUserId providerPostId payload.accessToken action
      (some sent,send fromSlice (expectedBookmarked action) (transport sent))
    else (none,.error .transient)

end Adapter

/- An error that leaves open whether the provider carried the mutation out. -/
def Uncertain : BookmarkProviderError → Prop
  | .uncertain _ _ => True
  | _ => False

instance (e : BookmarkProviderError) : Decidable (Uncertain e) := by
  unfold Uncertain
  split <;> infer_instance

/- A connection was never made, for the request or while its answer was read. -/
def Unconnected : Reply → Prop
  | .error error => error.isConnect = true
  | .ok r => ∃ error, Except.error error ∈ r.chunks ∧ error.isConnect = true

def whole : List (Except TransportError Bytes) → Option Bytes
  | [] => some []
  | .error _::_ => none
  | .ok chunk::rest => (whole rest).map (chunk ++ ·)

/- What the provider documents of its replies: it carried out nothing where no connection was
made or where it refuses the request, and it did where it states the state asked for. -/
structure Faithful (fromSlice : Bytes → Option Json) (expected : Bool) (reply : Reply) (carriedOut : Prop) : Prop where
  unconnected : Unconnected reply → ¬carriedOut
  refused : ∀ r, reply = .ok r → r.isClientError = true → ¬carriedOut
  stated : ∀ r body value, reply = .ok r → r.isSuccess = true → whole r.chunks = some body →
    fromSlice body = some value → bookmarked value = some expected → carriedOut

theorem chunksRead {oversized chunks} {read body : Bytes} (ok : readChunks oversized read chunks = .ok body) :
    ∃ more, whole chunks = some more ∧ body = read ++ more := by
  induction chunks generalizing read with
  | nil =>
    cases Except.ok.inj ok
    exact ⟨[],rfl,by simp⟩
  | cons head rest ih =>
    cases head with
    | error error => simp [readChunks] at ok
    | ok chunk =>
      simp only [readChunks] at ok
      split at ok
      · simp at ok
      · obtain ⟨more,all,rfl⟩ := ih ok
        exact ⟨chunk ++ more,by simp [whole,all],by simp⟩

theorem transportClear {error} (clear : ¬Uncertain (classifyTransport error)) : error.isConnect = true := by
  unfold classifyTransport at clear
  split at clear
  · assumption
  · exact absurd trivial clear

/- A body that cannot be read leaves the mutation open, but for a connection never made. -/
theorem chunksClear {oversized chunks e} {read : Bytes} (failed : readChunks oversized read chunks = .error e)
    (open_ : Uncertain oversized) (clear : ¬Uncertain e) : ∃ error, Except.error error ∈ chunks ∧ error.isConnect = true := by
  induction chunks generalizing read with
  | nil => simp [readChunks] at failed
  | cons head rest ih =>
    cases head with
    | error error =>
      cases Except.error.inj failed
      exact ⟨error,List.mem_cons_self,transportClear clear⟩
    | ok chunk =>
      simp only [readChunks] at failed
      split at failed
      · cases Except.error.inj failed
        exact absurd open_ clear
      · obtain ⟨error,member,connect⟩ := ih failed
        exact ⟨error,List.mem_cons_of_mem _ member,connect⟩

section Answer
variable {config : Connection.Config} {fromSlice : Bytes → Option Json} {expected : Bool} {carriedOut : Prop}

theorem classifyConfirms {r evidence} (ok : classify fromSlice expected r = .ok evidence) :
    r.isSuccess = true ∧ ∃ body value, whole r.chunks = some body ∧ fromSlice body = some value ∧
      bookmarked value = some expected := by
  unfold classify at ok
  simp only at ok
  repeat' split at ok
  all_goals try contradiction
  rename_i status _
  obtain ⟨body,read,ok⟩ := bindOk.mp ok
  obtain ⟨more,all,rfl⟩ := chunksRead read
  split at ok
  · contradiction
  · rename_i value parsed
    split at ok
    · rename_i states
      have success : r.isSuccess = true := by simpa using (not_or.mp status).2
      exact ⟨success,_,value,all,by simpa using parsed,states⟩
    · contradiction

theorem classifyRefuses {r e} (failed : classify fromSlice expected r = .error e) (clear : ¬Uncertain e) :
    r.isClientError = true ∨ Unconnected (.ok r) := by
  have unauthorized : r.status = 401 ∨ r.status = 403 → r.isClientError = true := by
    rintro (status | status) <;> simp [Response.isClientError,status]
  unfold classify at failed
  simp only at failed
  split at failed
  · rename_i status
    exact .inl (unauthorized status)
  split at failed
  · rename_i status
    exact .inl (by simp [Response.isClientError,status])
  split at failed
  · rename_i client
    exact .inl client
  split at failed
  · cases Except.error.inj failed
    exact absurd trivial clear
  split at failed
  · cases Except.error.inj failed
    exact absurd trivial clear
  -- Only the body is left, and what is wrong with it leaves the mutation open.
  refine .inr ?_
  cases read : readChunks (.uncertain (some r.status) (responseEvidence r)) [] r.chunks with
  | error error =>
    rw [read] at failed
    cases Except.error.inj failed
    exact chunksClear read trivial clear
  | ok body =>
    rw [read] at failed
    simp only [bind,Except.bind] at failed
    split at failed
    · cases Except.error.inj failed
      exact absurd trivial clear
    split at failed
    · cases failed
    · cases Except.error.inj failed
      exact absurd trivial clear

theorem sendTells {reply} (faithful : Faithful fromSlice expected reply carriedOut) :
    (∀ evidence, send fromSlice expected reply = .ok evidence → carriedOut) ∧
    ∀ e, send fromSlice expected reply = .error e → ¬Uncertain e → ¬carriedOut := by
  cases reply with
  | error error =>
    refine ⟨fun _ ok => by simp [send] at ok,?_⟩
    intro e failed clear
    cases Except.error.inj failed
    exact faithful.unconnected (transportClear clear)
  | ok r =>
    constructor
    · intro evidence ok
      obtain ⟨success,body,value,all,parsed,states⟩ := classifyConfirms ok
      exact faithful.stated r body value rfl success all parsed states
    · intro e failed clear
      rcases classifyRefuses failed clear with client | unconnected
      · exact faithful.refused r rfl client
      · exact faithful.unconnected unconnected

variable {httpReady : Bool} {baseUrl : String} {account : Uuid} {providerPostId : String} {action : BookmarkAction}
  {row : Option (Option CredentialState)} {transport : Request → Reply}

/- A call of the adapter, and whether the provider carried its mutation out: it did not where
no request left, and its reply to the one that left is faithful. -/
structure Carries (answer : Option Request × Answered) (fromSlice : Bytes → Option Json) (expected : Bool)
    (transport : Request → Reply) (carriedOut : Prop) : Prop where
  silent : answer.1 = none → ¬carriedOut
  answered : ∀ sent, answer.1 = some sent → Faithful fromSlice expected (transport sent) carriedOut

theorem mutateTells
    (carries : Carries (mutate config fromSlice httpReady baseUrl account providerPostId action row transport) fromSlice
      (expectedBookmarked action) transport carriedOut) :
    (∀ evidence, (mutate config fromSlice httpReady baseUrl account providerPostId action row transport).2 = .ok evidence →
      carriedOut) ∧
    ∀ e, (mutate config fromSlice httpReady baseUrl account providerPostId action row transport).2 = .error e →
      ¬Uncertain e → ¬carriedOut := by
  obtain ⟨silent,answered⟩ := carries
  unfold mutate at silent answered ⊢
  split
  · exact ⟨fun _ ok => by simp at ok,fun _ _ _ => silent (by split <;> simp_all)⟩
  · rename_i providerUserId payload opened
    simp only [opened] at silent answered
    split
    · rename_i ready
      simp only [ready,if_true] at answered
      exact sendTells (answered _ rfl)
    · rename_i unready
      exact ⟨fun _ ok => by simp at ok,fun _ _ _ => silent (by simp [unready])⟩

end Answer
end RatatoskrX.BookmarkProvider
