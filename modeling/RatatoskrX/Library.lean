import Mathlib.Data.List.Sort
import RatatoskrX.Foundation.ReadCommitted
import RatatoskrX.SocialSources

/-! Bookmark pages and compliance runs over one account library, statement by statement.
The rows of all tables are one store, so a transaction's locks and drafts are those it
holds there. An envelope or a ledger entry that a transaction has queued is a row of its
own until the commit. -/
namespace RatatoskrX.Library
open Schema Envelopes ArticleUrls SocialSources ReadCommitted

inductive ComplianceAvailability where | available | deleted | protectedPost | authorSuspended | unavailable
  deriving DecidableEq, Repr

structure ComplianceObservation where
  availability : ComplianceAvailability
  providerRequestId : Option String
  deriving DecidableEq, Repr

inductive ComplianceSourceError where | rateLimited | authorizationLost | providerFailure | invalidEvidence
  deriving DecidableEq, Repr

structure ComplianceRunSummary where
  checked : Nat
  takedowns : Nat
  budgetExhausted : Bool
  deriving DecidableEq, Repr

structure RevalidationCandidate where
  source : Uuid
  post : String
  owner : Uuid
  deriving DecidableEq, Repr

structure RevalidationEvidence where
  availability : Option ComplianceAvailability
  providerRequestId : Option String
  outcome : String
  failureClass : Option String
  deriving DecidableEq, Repr

def postAvailability : ComplianceAvailability → PostAvailability
  | .available => .active
  | .deleted => .deleted
  | .protectedPost => .protectedPost
  | .authorSuspended => .authorSuspended
  | .unavailable => .unavailable

def availabilityOutcome : ComplianceAvailability → String
  | .available => "available"
  | .deleted => "deleted"
  | .protectedPost => "protected"
  | .authorSuspended => "author_suspended"
  | .unavailable => "unavailable"

def failureToken : ComplianceSourceError → String
  | .rateLimited => "rate_limited"
  | .authorizationLost => "authorization_lost"
  | .providerFailure => "provider_failure"
  | .invalidEvidence => "invalid_evidence"

def RevalidationEvidence.from_ : Except ComplianceSourceError ComplianceObservation → RevalidationEvidence
  | .ok observation =>
    ⟨some observation.availability,observation.providerRequestId,availabilityOutcome observation.availability,none⟩
  | .error error => ⟨none,none,"indeterminate",some (failureToken error)⟩

structure LedgerEntry where
  id : Uuid
  accountId : Uuid
  postId : String
  socialSourceId : Uuid
  providerRequestId : Option String
  outcome : String
  failureClass : Option String
  checkedAt : DateTime
  deriving DecidableEq, Repr

structure Tombstone where
  accountId : Uuid
  socialSourceId : Uuid
  postProviderId : String
  reason : String
  revalidationId : Uuid
  recordedAt : DateTime
  deriving DecidableEq, Repr

def ledgerEntry (id accountId : Uuid) (candidate : RevalidationCandidate) (evidence : RevalidationEvidence)
    (checkedAt : DateTime) : LedgerEntry :=
  ⟨id,accountId,candidate.post,candidate.source,evidence.providerRequestId,evidence.outcome,evidence.failureClass,
    checkedAt⟩

/- A row of a table by its unique columns, or an advisory lock. The identity of a source
is the second unique index of its table. -/
inductive Key where
  | user (providerId : String)
  | post (providerId : String)
  | advisory (key : Int)
  | source (key : SourceKey)
  | identity (socialSourceId : Uuid)
  | revision (socialSourceId : Uuid) (digest : ContentDigest)
  | capture (accountId : Uuid) (normalizedUrl : String)
  | link (socialSourceId captureId : Uuid)
  | tombstone (socialSourceId : Uuid)
  deriving DecidableEq, Repr

inductive Row where
  | user (row : UserRow)
  | post (row : PostRow)
  | source (row : SocialSource)
  | identity (key : SourceKey)
  | revision (capturedAt : DateTime)
  | capture (row : ArticleCapture)
  | link
  | tombstone (row : Tombstone)
  deriving DecidableEq, Repr

abbrev Rows := Key → Option Row

namespace Rows

def user (r : Rows) (id : String) : Option UserRow :=
  match r (.user id) with
  | some (.user row) => some row
  | _ => none

def post (r : Rows) (id : String) : Option PostRow :=
  match r (.post id) with
  | some (.post row) => some row
  | _ => none

def source (r : Rows) (key : SourceKey) : Option SocialSource :=
  match r (.source key) with
  | some (.source row) => some row
  | _ => none

def identity (r : Rows) (id : Uuid) : Option SourceKey :=
  match r (.identity id) with
  | some (.identity key) => some key
  | _ => none

def revision (r : Rows) (id : Uuid) (digest : ContentDigest) : Option DateTime :=
  match r (.revision id digest) with
  | some (.revision capturedAt) => some capturedAt
  | _ => none

def capture (r : Rows) (accountId : Uuid) (url : String) : Option ArticleCapture :=
  match r (.capture accountId url) with
  | some (.capture row) => some row
  | _ => none

def tombstone (r : Rows) (id : Uuid) : Option Tombstone :=
  match r (.tombstone id) with
  | some (.tombstone row) => some row
  | _ => none

end Rows

/- The control points of a page's transaction. The capture insert reads the rows that were
committed before it started, so it is two steps. -/
inductive PagePc where
  | users (rest : List UserRow)
  | posts (rest : List PostRow)
  | publish (rest : List String)
  | load (post : String) (rest : List String)
  | write (post : String) (rest : List String) (r : Revision)
  | revise (rest : List String) (r : Revision)
  | select (rest : List String) (r : Revision) (urls : List SelectedArticleUrl)
  | insert (rest : List String) (r : Revision) (url : SelectedArticleUrl) (seen : Option ArticleCapture)
      (urls : List SelectedArticleUrl)
  | link (rest : List String) (r : Revision) (url : String) (captureId : Uuid) (created : Bool)
      (urls : List SelectedArticleUrl)
  | done (committed : Bool)

/- A page that a scan stages: its users and posts, the posts stored so far, and the
envelopes queued so far. -/
structure Page where
  accountId : Uuid
  capturedAt : DateTime
  users : List UserRow
  posts : List PostRow
  stored : List String
  queued : List Envelope
  pc : PagePc

inductive RecordStage where
  | ledger
  | availability (entry : LedgerEntry) (seen : ComplianceAvailability)
  | remove (entry : LedgerEntry) (seen : ComplianceAvailability)
  | tombstone (entry : LedgerEntry) (seen : ComplianceAvailability)
  | commit (entry : LedgerEntry) (queued : List Envelope)
  deriving DecidableEq, Repr

inductive RunPc where
  | select (dueBefore : DateTime) (maxItems : UInt32)
  | reserve (candidate : RevalidationCandidate)
  | revalidate (candidate : RevalidationCandidate)
  | record (candidate : RevalidationCandidate) (evidence : RevalidationEvidence) (checkedAt : DateTime)
      (stage : RecordStage)
  | done (result : Option ComplianceRunSummary)

structure RunDue where
  accountId : Uuid
  summary : ComplianceRunSummary
  rest : List RevalidationCandidate
  pc : RunPc

inductive Call where
  | page (page : Page)
  | run (run : RunDue)

structure Deployment where
  publisher : Publisher
  lockKey : Uuid → String → Int

structure State where
  accounts : Uuid → Option Uuid
  rows : Store Key Row
  ledger : List LedgerEntry
  outbox : List Envelope
  minted : Nat
  calls : List Call

def State.opened (accounts : Uuid → Option Uuid) : State := ⟨accounts,.empty,[],[],0,[]⟩

/- What a call learns from outside: the order in which the posts of a page are published,
the budget's refusal, the provider's answer and the clock after it; or a failed statement
or a crash, or a commit whose acknowledgement was lost. -/
inductive Reply where
  | ok
  | order (posts : List String)
  | exhausted
  | answer (result : Except ComplianceSourceError ComplianceObservation) (checkedAt : DateTime)
  | fault
  | lost

inductive Action where
  | stage (accountId : Uuid) (capturedAt : DateTime) (users : List UserRow) (posts : List PostRow)
  | launch (accountId : Uuid) (dueBefore : DateTime) (maxItems : UInt32)
  | advance (index : Nat) (reply : Reply)

namespace State
variable (d : Deployment)

def sees (w : State) (index : Nat) : Rows := w.rows.view index

def archived (w : State) : Rows := w.rows.committed

def set (w : State) (index : Nat) (call : Call) : State := {w with calls := w.calls.set index call}

def rollback (w : State) (index : Nat) : State := {w with rows := w.rows.abort index}

def commit (w : State) (index : Nat) (entries : List LedgerEntry) (queued : List Envelope) : State :=
  {w with rows := w.rows.commit index, ledger := w.ledger ++ entries, outbox := w.outbox ++ queued}

def put (w : State) (index : Nat) (key : Key) (row : Row) : State := {w with rows := w.rows.put index key (some row)}

section Pages

def turn (w : State) (index : Nat) (page : Page) (pc : PagePc) : State := w.set index (.page {page with pc := pc})

def failPage (w : State) (index : Nat) (page : Page) : State := (w.rollback index).turn index page (.done false)

/-- One user of persist_users. -/
def persistUser (w : State) (index : Nat) (page : Page) (user : UserRow) (rest : List UserRow) : Option State :=
  if w.rows.Free index (.user user.providerId) then
    some ((w.put index (.user user.providerId) (.user user)).turn index page (.users rest))
  else none

/-- One post of persist_posts: the row stays locked until the transaction ends. -/
def persistPost (w : State) (index : Nat) (page : Page) (post : PostRow) (rest : List PostRow) : Option State :=
  if page.users.any (fun user => post.authorProviderId = some user.providerId) then
    if w.rows.Free index (.post post.providerId) then
      some ((w.put index (.post post.providerId) (.post post)).turn index
        {page with stored := page.stored.insert post.providerId} (.posts rest))
    else none
  else some (w.failPage index page)

/- The tables as the transaction sees them. -/
def books (w : State) (index : Nat) : Books :=
  ⟨w.accounts,(w.sees index).user,(w.sees index).post,(w.sees index).source,
    fun k => (w.sees index).revision k.1 k.2,fun k => (w.sees index).capture k.1 k.2,
    fun k => (w.sees index (.link k.1 k.2)).isSome,w.outbox,w.minted⟩

/-- publish_source up to its writes. -/
def loadSource (w : State) (index : Nat) (page : Page) (post : String) (rest : List String) : State :=
  match (w.books index).loadSource page.accountId post with
  | .error _ => w.failPage index page
  | .ok loaded => match loaded.revision d.publisher.contract w.minted page.capturedAt with
    | .error _ => w.failPage index page
    | .ok none => w.turn index page (.publish rest)
    | .ok (some r) => {w with minted := w.minted + 1}.turn index page (.write post rest r)

/-- The update of the source, which has no other condition than its identity, or its insert. -/
def writeSource (w : State) (index : Nat) (page : Page) (post : String) (rest : List String) (r : Revision) :
    Option State :=
  match r.fact with
  | .updated => match (w.sees index).identity r.sourceId with
    | none => some (w.turn index page (.revise rest r))
    | some key =>
      if w.rows.Free index (.source key) then
        match (w.sees index).source key with
        | none => some (w.turn index page (.revise rest r))
        | some row =>
          let row := {row with currentContentDigest := r.digest, capturedAt := page.capturedAt}
          some ((w.put index (.source key) (.source row)).turn index page (.revise rest r))
      else none
  | .captured =>
    if w.rows.Free index (.source (page.accountId,post)) ∧ w.rows.Free index (.identity r.sourceId) then
      if ((w.sees index).source (page.accountId,post)).isSome ∨ ((w.sees index).identity r.sourceId).isSome then
        some (w.failPage index page)
      else
        let row : SocialSource := ⟨page.accountId,post,r.sourceId,r.digest,page.capturedAt,none⟩
        some (((w.put index (.source (page.accountId,post)) (.source row)).put index (.identity r.sourceId)
          (.identity (page.accountId,post))).turn index page (.revise rest r))
    else none

/-- The insert of the revision, and the source event after it. -/
def insertRevision (w : State) (index : Nat) (page : Page) (rest : List String) (r : Revision) : Option State :=
  if w.rows.Free index (.revision r.sourceId r.digest) then
    match (w.sees index).revision r.sourceId r.digest with
    | some _ => some (w.failPage index page)
    | none =>
      some ({w.put index (.revision r.sourceId r.digest) (.revision page.capturedAt) with minted := w.minted + 1}.turn
        index {page with queued := page.queued ++ [sourceEvent w.minted r.owner r.fact r.snapshot]}
        (.select rest r r.urls))
  else none

def selectLink (w : State) (index : Nat) (page : Page) (rest : List String) (r : Revision)
    (urls : List SelectedArticleUrl) : State :=
  match urls with
  | [] => w.turn index page (.publish rest)
  | url::urls =>
    if d.publisher.captureUrl url.normalizedUrl then
      w.turn index page (.insert rest r url ((w.sees index).capture page.accountId url.normalizedUrl) urls)
    else w.turn index page (.select rest r urls)

/-- The insert of a capture: a conflict inserts nothing, and only a row that was read is found. -/
def insertCapture (w : State) (index : Nat) (page : Page) (rest : List String) (r : Revision)
    (url : SelectedArticleUrl) (seen : Option ArticleCapture) (urls : List SelectedArticleUrl) : Option State :=
  if w.rows.Free index (.capture page.accountId url.normalizedUrl) then
    match (w.sees index).capture page.accountId url.normalizedUrl,seen with
    | some _,some capture => some (w.turn index page (.link rest r url.normalizedUrl capture.id false urls))
    | some _,none => some (w.failPage index page)
    | none,_ =>
      let row : ArticleCapture := ⟨w.minted,page.accountId,url.normalizedUrl,url.originalUrl⟩
      some ({w.put index (.capture page.accountId url.normalizedUrl) (.capture row) with minted := w.minted + 1}.turn
        index page (.link rest r url.normalizedUrl w.minted true urls))
  else none

def linkCapture (w : State) (index : Nat) (page : Page) (rest : List String) (r : Revision) (url : String)
    (captureId : Uuid) (created : Bool) (urls : List SelectedArticleUrl) : Option State :=
  if w.rows.Free index (.link r.sourceId captureId) then
    let linked := if (w.sees index (.link r.sourceId captureId)).isSome then w
      else w.put index (.link r.sourceId captureId) .link
    if created then
      some ({linked with minted := w.minted + 1}.turn index
        {page with queued := page.queued ++ [articleCommand w.minted r.owner r.sourceId captureId url]}
        (.select rest r urls))
    else some (linked.turn index page (.select rest r urls))
  else none

def stagePage (w : State) (index : Nat) (page : Page) (reply : Reply) : Option State :=
  match page.pc,reply with
  | .done _,_ => none
  | _,.fault => some (w.failPage index page)
  | .users [],.ok => some (w.turn index page (.posts page.posts))
  | .users (user::rest),.ok => w.persistUser index page user rest
  | .posts [],.order posts => if posts.Perm page.stored then some (w.turn index page (.publish posts)) else none
  | .posts (post::rest),.ok => w.persistPost index page post rest
  | .publish [],.ok => some ((w.commit index [] page.queued).turn index page (.done true))
  | .publish [],.lost => some ((w.commit index [] page.queued).turn index page (.done false))
  | .publish (post::rest),.ok =>
    let key := Key.advisory (d.lockKey page.accountId post)
    if w.rows.Free index key then
      some ({w with rows := w.rows.put index key none}.turn index page (.load post rest))
    else none
  | .load post rest,.ok => some (w.loadSource d index page post rest)
  | .write post rest r,.ok => w.writeSource index page post rest r
  | .revise rest r,.ok => w.insertRevision index page rest r
  | .select rest r urls,.ok => some (w.selectLink d index page rest r urls)
  | .insert rest r url seen urls,.ok => w.insertCapture index page rest r url seen urls
  | .link rest r url captureId created urls,.ok => w.linkCapture index page rest r url captureId created urls
  | _,_ => none

end Pages

section Runs

def at_ (w : State) (index : Nat) (run : RunDue) (pc : RunPc) : State := w.set index (.run {run with pc := pc})

def failRun (w : State) (index : Nat) (run : RunDue) : State := (w.rollback index).at_ index run (.done none)

/- max(checked_at) of the ledger entries of a source. -/
def lastCheckedAt (w : State) (accountId source : Uuid) : Option DateTime :=
  (w.ledger.filter (fun e => e.accountId = accountId && e.socialSourceId = source)).foldl
    (fun last e => match last with
      | some t => if t < e.checkedAt then some e.checkedAt else some t
      | none => some e.checkedAt) none

/- ORDER BY last_checked_at ASC NULLS FIRST, social_source_id. -/
def Sooner (a b : Option DateTime × RevalidationCandidate) : Prop :=
  match a.1,b.1 with
  | none,none => a.2.source ≤ b.2.source
  | none,some _ => True
  | some _,none => False
  | some s,some t => s < t ∨ ¬t < s ∧ a.2.source ≤ b.2.source

instance (a b) : Decidable (Sooner a b) := by
  unfold Sooner
  split <;> infer_instance

/- The candidate that the source is, unless it is removed or was checked since. A post goes
by its provider id. -/
def candidate (w : State) (accountId : Uuid) (dueBefore : DateTime) (id : Uuid) :
    Option (Option DateTime × RevalidationCandidate) := do
  let row ← w.archived.source (← w.archived.identity id)
  let owner ← w.accounts accountId
  let last := w.lastCheckedAt accountId id
  if row.accountId = accountId ∧ (w.archived.post row.postId).isSome ∧ row.removedAt = none ∧
      ∀ t ∈ last, t < dueBefore then
    some (last,⟨row.socialSourceId,row.postId,owner⟩)
  else none

/-- The due selection of run_due. -/
def candidates (w : State) (accountId : Uuid) (dueBefore : DateTime) (maxItems : UInt32) : List RevalidationCandidate :=
  ((((List.range w.minted).filterMap (w.candidate accountId dueBefore)).insertionSort Sooner).take
    maxItems.toNat).map Prod.snd

def next (w : State) (index : Nat) (run : RunDue) (summary : ComplianceRunSummary) : State :=
  match run.rest with
  | [] => w.set index (.run {run with summary := summary, pc := .done (some summary)})
  | candidate::rest => w.set index (.run {run with summary := summary, rest := rest, pc := .reserve candidate})

/-- record_result, with remove_source. -/
def recordResult (w : State) (index : Nat) (run : RunDue) (candidate : RevalidationCandidate)
    (evidence : RevalidationEvidence) (checkedAt : DateTime) (stage : RecordStage) : Option State :=
  let goes (w : State) (stage : RecordStage) : State := w.at_ index run (.record candidate evidence checkedAt stage)
  match stage with
  | .ledger =>
    let entry := ledgerEntry w.minted run.accountId candidate evidence checkedAt
    let w := {w with minted := w.minted + 1}
    match evidence.availability with
    | some seen => some (goes w (.availability entry seen))
    | none => some (goes w (.commit entry []))
  | .availability entry seen =>
    let stage := if seen = .available then RecordStage.commit entry [] else .remove entry seen
    if w.rows.Free index (.post candidate.post) then
      match (w.sees index).post candidate.post with
      | some row =>
        some (goes (w.put index (.post candidate.post) (.post {row with availability := postAvailability seen})) stage)
      | none => some (goes w stage)
    else none
  | .remove entry seen => match (w.sees index).identity candidate.source with
    | none => some (goes w (.commit entry []))
    | some key =>
      if w.rows.Free index (.source key) then
        match (w.sees index).source key with
        | none => some (goes w (.commit entry []))
        | some row =>
          if row.accountId = run.accountId ∧ row.removedAt = none then
            some (goes (w.put index (.source key) (.source {row with removedAt := some checkedAt})) (.tombstone entry seen))
          else some (goes w (.commit entry []))
      else none
  | .tombstone entry seen =>
    if w.rows.Free index (.tombstone candidate.source) then
      match (w.sees index).tombstone candidate.source with
      | some _ => some (w.failRun index run)
      | none =>
        let row : Tombstone := ⟨run.accountId,candidate.source,candidate.post,availabilityOutcome seen,entry.id,checkedAt⟩
        some (goes {w.put index (.tombstone candidate.source) (.tombstone row) with minted := w.minted + 1}
          (.commit entry [removedEvent w.minted candidate.source candidate.owner (.complianceRevalidation entry.id)
            checkedAt]))
    else none
  | .commit entry queued =>
    some ((w.commit index [entry] queued).next index run
      {run.summary with
        checked := run.summary.checked + 1, takedowns := run.summary.takedowns + if queued = [] then 0 else 1})

def runDue (w : State) (index : Nat) (run : RunDue) (reply : Reply) : Option State :=
  match reply with
  | .fault => match run.pc with
    | .done _ => none
    | _ => some (w.failRun index run)
  | .lost => match run.pc with
    | .record _ _ _ (.commit entry queued) =>
      some ((w.commit index [entry] queued).at_ index run (.done none))
    | _ => none
  | .exhausted => match run.pc with
    | .reserve _ => some (w.at_ index run (.done (some {run.summary with budgetExhausted := true})))
    | _ => none
  | .answer result checkedAt => match run.pc with
    | .revalidate candidate => some (w.at_ index run (.record candidate (.from_ result) checkedAt .ledger))
    | _ => none
  | .order _ => none
  | .ok => match run.pc with
    | .select dueBefore maxItems =>
      some (w.next index {run with rest := w.candidates run.accountId dueBefore maxItems} run.summary)
    | .reserve candidate => some (w.at_ index run (.revalidate candidate))
    | .record candidate evidence checkedAt stage => w.recordResult index run candidate evidence checkedAt stage
    | _ => none

end Runs

def step (w : State) : Action → Option State
  | .stage accountId capturedAt users posts =>
    some {w with calls := w.calls ++ [.page ⟨accountId,capturedAt,users,posts,[],[],.users users⟩]}
  | .launch accountId dueBefore maxItems =>
    some {w with calls := w.calls ++ [.run ⟨accountId,⟨0,0,false⟩,[],.select dueBefore maxItems⟩]}
  | .advance index reply =>
    match w.calls[index]? with
    | some (.page page) => w.stagePage d index page reply
    | some (.run run) => w.runDue index run reply
    | none => none

end State
end RatatoskrX.Library
