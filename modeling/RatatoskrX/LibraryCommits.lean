import RatatoskrX.Foundation.Transition
import RatatoskrX.Library

/-! What the account library commits: a page publishes only for sources that are not
removed, and a run records one result. A page keeps the rows of its posts locked from
before it reads a source until its commit, and a removal needs the row of its post. -/
namespace RatatoskrX.LibraryCommits
open Schema Envelopes SocialSources ReadCommitted Transition Library

structure Archive where
  rows : Rows
  ledger : List LedgerEntry
  outbox : List Envelope

def archive (w : State) : Archive := ⟨w.archived,w.ledger,w.outbox⟩

def removalOf (e : Envelope) : Option (Uuid × DateTime) :=
  match e.payload with
  | .sourceRemoved source _ _ removedAt => some (source,removedAt)
  | _ => none

/- The times of the removals that were queued for a source. -/
def removals (outbox : List Envelope) (source : Uuid) : List DateTime :=
  outbox.filterMap (fun e => ((removalOf e).filter (fun r => r.1 = source)).map Prod.snd)

/- A source's row, its tombstone and its removal event agree. -/
structure Shelved (a : Archive) : Prop where
  keyed : ∀ key row, a.rows.source key = some row → (row.accountId,row.postId) = key
  indexed : ∀ key row, a.rows.source key = some row → a.rows.identity row.socialSourceId = some key
  placed : ∀ id key, a.rows.identity id = some key → ∃ row, a.rows.source key = some row ∧ row.socialSourceId = id
  tombstone : ∀ key row, a.rows.source key = some row →
    (a.rows.tombstone row.socialSourceId).map Tombstone.recordedAt = row.removedAt
  removed : ∀ key row, a.rows.source key = some row →
    removals a.outbox row.socialSourceId = row.removedAt.toList
  unknown : ∀ id, a.rows.identity id = none → a.rows.tombstone id = none ∧ removals a.outbox id = []
  evidence : ∀ id stone, a.rows.tombstone id = some stone → ∃ entry ∈ a.ledger, entry.id = stone.revalidationId ∧
    entry.socialSourceId = id ∧ entry.outcome = stone.reason ∧ entry.checkedAt = stone.recordedAt

/- A source that is not removed, neither before nor after. -/
def Touched (a b : Rows) (id : Uuid) : Prop :=
  ∃ key row, b.source key = some row ∧ row.socialSourceId = id ∧ row.removedAt = none ∧
    ∀ old, a.source key = some old → old.removedAt = none

/- What the transaction of a page commits. -/
structure Staged (a b : Archive) : Prop where
  ledger : b.ledger = a.ledger
  sources : ∀ key, b.rows.source key = a.rows.source key ∨ ∃ row, b.rows.source key = some row ∧
    row.removedAt = none ∧ (row.accountId,row.postId) = key ∧ b.rows.identity row.socialSourceId = some key ∧
    ∀ old, a.rows.source key = some old → old.removedAt = none ∧ old.socialSourceId = row.socialSourceId
  identities : ∀ id, b.rows.identity id = a.rows.identity id ∨ a.rows.identity id = none ∧
    ∃ key row, b.rows.identity id = some key ∧ b.rows.source key = some row ∧ row.socialSourceId = id
  tombstones : ∀ id, b.rows.tombstone id = a.rows.tombstone id
  revisions : ∀ id digest, b.rows.revision id digest = a.rows.revision id digest ∨ Touched a.rows b.rows id
  posts : ∀ p, (a.rows.post p).isSome → (b.rows.post p).isSome
  outbox : ∃ queued, b.outbox = a.outbox ++ queued ∧ ∀ e ∈ queued, removalOf e = none ∧
    (tellsContent e → ∃ id, sourceOf e = some id ∧ Touched a.rows b.rows id)

def postDraft (candidate : RevalidationCandidate) (seen : ComplianceAvailability) (post : PostRow) : Key × Row :=
  (.post candidate.post,.post {post with availability := postAvailability seen})

def sourceDraft (key : SourceKey) (row : SocialSource) (checkedAt : DateTime) : Key × Row :=
  (.source key,.source {row with removedAt := some checkedAt})

def tombstoneDraft (id accountId : Uuid) (candidate : RevalidationCandidate) (seen : ComplianceAvailability)
    (checkedAt : DateTime) : Key × Row :=
  (.tombstone candidate.source,
    .tombstone ⟨accountId,candidate.source,candidate.post,availabilityOutcome seen,id,checkedAt⟩)

/- The rows and the envelopes of one result, beside its ledger entry. -/
inductive Settles (rows : Rows) (id accountId : Uuid) (candidate : RevalidationCandidate) (evidence : RevalidationEvidence)
    (checkedAt : DateTime) : List (Key × Row) → List Envelope → Prop where
  | indeterminate (unseen : evidence.availability = none) :
      Settles rows id accountId candidate evidence checkedAt [] []
  | seen {seen post} (saw : evidence.availability = some seen) (there : rows.post candidate.post = some post) :
      Settles rows id accountId candidate evidence checkedAt [postDraft candidate seen post] []
  | takenDown {seen post key row envelopeId} (saw : evidence.availability = some seen) (gone : seen ≠ .available)
      (there : rows.post candidate.post = some post) (stands : rows.source key = some row)
      (same : row.socialSourceId = candidate.source) (kept : row.removedAt = none) (at_ : key.2 = candidate.post) :
      Settles rows id accountId candidate evidence checkedAt
        [tombstoneDraft id accountId candidate seen checkedAt,sourceDraft key row checkedAt,postDraft candidate seen post]
        [removedEvent envelopeId candidate.source candidate.owner (.complianceRevalidation id) checkedAt]

/- What the transaction of one result commits. -/
def Recorded (a : Archive) (accountId : Uuid) (candidate : RevalidationCandidate) (evidence : RevalidationEvidence)
    (checkedAt : DateTime) (b : Archive) : Prop :=
  ∃ id drafts queued, Settles a.rows id accountId candidate evidence checkedAt drafts queued ∧
    b = ⟨Store.drafted drafts a.rows,a.ledger ++ [ledgerEntry id accountId candidate evidence checkedAt],
      a.outbox ++ queued⟩

inductive Commit (a : Archive) : Archive → Prop where
  | quiet : Commit a a
  | staged {b} (staged : Staged a b) : Commit a b
  | recorded {accountId candidate evidence checkedAt b} (wellFormed : ∃ result, evidence = .from_ result)
      (recorded : Recorded a accountId candidate evidence checkedAt b) : Commit a b

/- The transaction holds the row of a source with this identity. -/
def Drafts (s : Store Key Row) (index : Nat) (key : SourceKey) (id : Uuid) : Prop :=
  ∃ row, s.held (.source key) = some ⟨index,some (.source row)⟩ ∧ row.socialSourceId = id

/- The source that was read is what the revision was made for. -/
def Chosen (s : Store Key Row) (index : Nat) (key : SourceKey) (r : Revision) : Prop :=
  match r.fact with
  | .captured => Rows.source (s.view index) key = none
  | .updated => ∃ old, Rows.source (s.view index) key = some old ∧ old.removedAt = none ∧
      old.socialSourceId = r.sourceId

def PageSound (s : Store Key Row) (index : Nat) (page : Page) : PagePc → Prop
  | .users _ => True
  | .posts _ => True
  | .publish rest => ∀ p ∈ rest, p ∈ page.stored
  | .load post rest => post ∈ page.stored ∧ ∀ p ∈ rest, p ∈ page.stored
  | .write post rest r => post ∈ page.stored ∧ (∀ p ∈ rest, p ∈ page.stored) ∧
      r.snapshot.socialSourceId = r.sourceId ∧ Chosen s index (page.accountId,post) r
  | .revise rest r => (∀ p ∈ rest, p ∈ page.stored) ∧ r.snapshot.socialSourceId = r.sourceId ∧
      ∃ key, Drafts s index key r.sourceId
  | .select rest _ _ => ∀ p ∈ rest, p ∈ page.stored
  | .insert rest _ _ _ _ => ∀ p ∈ rest, p ∈ page.stored
  | .link rest _ _ _ _ _ => ∀ p ∈ rest, p ∈ page.stored
  | .done _ => True

structure PageOwns (s : Store Key Row) (index : Nat) (page : Page) : Prop where
  stored : ∀ p ∈ page.stored, ∃ x, s.held (.post p) = some x ∧ x.owner = index
  posts : ∀ p x, s.held (.post p) = some x → x.owner = index → ∃ row, x.version = some (.post row)
  sources : ∀ key x, s.held (.source key) = some x → x.owner = index → key.2 ∈ page.stored ∧
    ∃ row, x.version = some (.source row) ∧ row.removedAt = none ∧ (row.accountId,row.postId) = key ∧
      Rows.identity (s.view index) row.socialSourceId = some key ∧
      ∀ old, Rows.source s.committed key = some old → old.removedAt = none ∧ old.socialSourceId = row.socialSourceId
  identities : ∀ id x, s.held (.identity id) = some x → x.owner = index → Rows.identity s.committed id = none ∧
    ∃ key, x.version = some (.identity key) ∧ Drafts s index key id
  revisions : ∀ id digest x, s.held (.revision id digest) = some x → x.owner = index → ∃ key, Drafts s index key id
  tombstones : ∀ id x, s.held (.tombstone id) = some x → x.owner ≠ index
  queued : ∀ e ∈ page.queued, removalOf e = none ∧
    (tellsContent e → ∃ id key, sourceOf e = some id ∧ Drafts s index key id)

/- A candidate names a source that is there, of the account and the post. -/
def Known (rows : Rows) (accountId : Uuid) (candidate : RevalidationCandidate) : Prop :=
  rows.identity candidate.source = some (accountId,candidate.post) ∧ (rows.post candidate.post).isSome

def RecordSound (s : Store Key Row) (index : Nat) (accountId : Uuid) (candidate : RevalidationCandidate)
    (evidence : RevalidationEvidence) (checkedAt : DateTime) : RecordStage → Prop
  | .ledger => s.Idle index
  | .availability entry seen => evidence.availability = some seen ∧ s.Idle index ∧
      ∃ id, entry = ledgerEntry id accountId candidate evidence checkedAt
  | .remove entry seen => evidence.availability = some seen ∧ seen ≠ .available ∧
      (∃ id, entry = ledgerEntry id accountId candidate evidence checkedAt) ∧
      ∃ post, Rows.post s.committed candidate.post = some post ∧ s.Exactly index [postDraft candidate seen post]
  | .tombstone entry seen => evidence.availability = some seen ∧ seen ≠ .available ∧
      (∃ id, entry = ledgerEntry id accountId candidate evidence checkedAt) ∧
      ∃ post key row, Rows.post s.committed candidate.post = some post ∧ Rows.source s.committed key = some row ∧
        row.socialSourceId = candidate.source ∧ row.removedAt = none ∧ key.2 = candidate.post ∧
        s.Exactly index [sourceDraft key row checkedAt,postDraft candidate seen post]
  | .commit entry queued => ∃ id drafts, entry = ledgerEntry id accountId candidate evidence checkedAt ∧
      s.Exactly index drafts ∧ Settles s.committed id accountId candidate evidence checkedAt drafts queued

def RunSound (s : Store Key Row) (index : Nat) (accountId : Uuid) : RunPc → Prop
  | .select _ _ => s.Idle index
  | .reserve candidate => Known s.committed accountId candidate ∧ s.Idle index
  | .revalidate candidate => Known s.committed accountId candidate ∧ s.Idle index
  | .record candidate evidence checkedAt stage => Known s.committed accountId candidate ∧
      (∃ result, evidence = .from_ result) ∧ RecordSound s index accountId candidate evidence checkedAt stage
  | .done _ => s.Idle index

def CallSound (s : Store Key Row) (index : Nat) : Call → Prop
  | .page page => match page.pc with
    | .done _ => s.Idle index
    | pc => PageOwns s index page ∧ PageSound s index page pc
  | .run run => (∀ candidate ∈ run.rest, Known s.committed run.accountId candidate) ∧
      RunSound s index run.accountId run.pc

structure Sound (w : State) : Prop where
  calls : ∀ (index : Nat) call, w.calls[index]? = some call → CallSound w.rows index call
  active : ∀ key x, w.rows.held key = some x → x.owner < w.calls.length
  shelved : Shelved (archive w)

end RatatoskrX.LibraryCommits
