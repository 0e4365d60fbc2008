import RatatoskrX.Schema

/-! The source facts that both source paths publish, and the envelopes they queue. The
shared contract crate and the digest are not part of this repository: what they compute
is a parameter. -/
namespace RatatoskrX.Envelopes
open Schema

structure SourceProvenance where
  acquisition : String
  savedAuthority : String
  deriving DecidableEq, Repr

def bookmarkProvenance : SourceProvenance := ⟨"official_api","authoritative_platform_state"⟩

def explicitProvenance : SourceProvenance := ⟨"browser_extension","explicit_user_capture"⟩

inductive PostAvailability where | active | deleted | protectedPost | authorSuspended | unavailable | unknown
  deriving DecidableEq, Repr

structure SourceFacts where
  providerId : String
  text : String
  longText : Option String
  publishedAt : Option DateTime
  availability : PostAvailability
  authorProviderId : String
  authorUsername : Option String
  authorDisplayName : Option String
  expandedUrls : List String
  deriving DecidableEq, Repr

structure Semantic where
  providerId : String
  text : String
  publishedAt : Option DateTime
  availability : PostAvailability
  authorProviderId : String
  authorUsername : Option String
  authorDisplayName : Option String
  expandedUrls : List String
  acquisition : String
  savedAuthority : String
  deriving DecidableEq, Repr

structure ContentDigest where
  algorithm : String
  hex : String
  deriving DecidableEq, Repr

structure Author where
  platform : String
  externalAuthorId : String
  handle : Option String
  displayName : Option String
  deriving DecidableEq, Repr

inductive UpstreamAvailability where | available | deletedUpstream | unavailable
  deriving DecidableEq, Repr

structure SocialSourceSnapshot where
  socialSourceId : Uuid
  platform : String
  externalPostId : String
  owner : Uuid
  author : Author
  publishedAt : Option DateTime
  capturedAt : DateTime
  text : String
  contentDigest : ContentDigest
  acquisition : String
  savedAuthority : String
  completeness : String
  upstreamAvailability : UpstreamAvailability
  deriving DecidableEq, Repr

def upstreamAvailability : PostAvailability → UpstreamAvailability
  | .active => .available
  | .deleted => .deletedUpstream
  | _ => .unavailable

/- The hash of the semantic object's bytes in lower hex, and the grammar of the shared
social contract. -/
structure Contract where
  sha256 : Semantic → String
  admits : SocialSourceSnapshot → Bool

def SourceFacts.semantic (facts : SourceFacts) (provenance : SourceProvenance) : Semantic :=
  ⟨facts.providerId,facts.longText.getD facts.text,facts.publishedAt,facts.availability,facts.authorProviderId,
    facts.authorUsername,facts.authorDisplayName,facts.expandedUrls,provenance.acquisition,provenance.savedAuthority⟩

def Contract.contentDigest (contract : Contract) (semantic : Semantic) : ContentDigest :=
  ⟨"sha256",contract.sha256 semantic⟩

def SourceFacts.digest (facts : SourceFacts) (contract : Contract) (provenance : SourceProvenance) : ContentDigest :=
  contract.contentDigest (facts.semantic provenance)

/-- The snapshot, or none when the shared contract cannot represent it. -/
def SourceFacts.snapshot (facts : SourceFacts) (contract : Contract) (sourceId owner : Uuid) (digest : ContentDigest)
    (capturedAt : DateTime) (provenance : SourceProvenance) : Option SocialSourceSnapshot :=
  let snapshot : SocialSourceSnapshot :=
    ⟨sourceId,"x",facts.providerId,owner,
      ⟨"x",facts.authorProviderId,facts.authorUsername,facts.authorDisplayName⟩,facts.publishedAt,capturedAt,
      facts.longText.getD facts.text,digest,provenance.acquisition,provenance.savedAuthority,"complete",
      upstreamAvailability facts.availability⟩
  if contract.admits snapshot then some snapshot else none

theorem snapshotFields {facts : SourceFacts} {contract sourceId owner digest capturedAt provenance snapshot}
    (built : facts.snapshot contract sourceId owner digest capturedAt provenance = some snapshot) :
    snapshot.socialSourceId = sourceId ∧ snapshot.owner = owner ∧ snapshot.externalPostId = facts.providerId ∧
      snapshot.contentDigest = digest ∧ snapshot.capturedAt = capturedAt := by
  simp only [SourceFacts.snapshot] at built
  split at built
  · cases Option.some.inj built
    exact ⟨rfl,rfl,rfl,rfl,rfl⟩
  · simp at built

/- Whether a revision introduced the source or changed it. -/
inductive SourceFact where | captured | updated
  deriving DecidableEq, Repr

inductive SourceUnavailability where | deleted | inaccessible | transient
  deriving DecidableEq, Repr

inductive Report where
  | queued
  | preserved (source : Uuid)
  | unavailable (reason : SourceUnavailability)
  deriving DecidableEq, Repr

def Report.terminal : Report → Bool
  | .queued => false
  | .preserved _ => true
  | .unavailable _ => true

inductive Entity where
  | socialSource (id : Uuid)
  | capture (id : Uuid)
  | command (id : Uuid)
  | complianceRevalidation (id : Uuid)
  | operation (id : Uuid)
  deriving DecidableEq, Repr

inductive Payload where
  | operationReported (operation : Uuid) (report : Report)
  | sourceCaptured (source : SocialSourceSnapshot)
  | sourceUpdated (source : SocialSourceSnapshot)
  | sourceRemoved (socialSourceId owner : Uuid) (reason : String) (removedAt : DateTime)
  | contentCaptureRequested (operation : Uuid) (url : String)
  deriving DecidableEq, Repr

inductive EventType where
  | operationReported | sourceCaptured | sourceUpdated | sourceRemoved | contentCaptureRequested
  deriving DecidableEq, Repr

def Payload.eventType : Payload → EventType
  | .operationReported .. => .operationReported
  | .sourceCaptured .. => .sourceCaptured
  | .sourceUpdated .. => .sourceUpdated
  | .sourceRemoved .. => .sourceRemoved
  | .contentCaptureRequested .. => .contentCaptureRequested

/- One row of the outbox: the row id is the envelope's own id. The time at which a source
fact became true is the captured_at or the removed_at of its payload. -/
structure Envelope where
  id : Uuid
  aggregate : Entity
  causation : Option Entity
  tenant : Uuid
  payload : Payload
  deriving DecidableEq, Repr

/- The social source that an event is about. -/
def sourceOf (e : Envelope) : Option Uuid :=
  match e.payload with
  | .sourceCaptured source => some source.socialSourceId
  | .sourceUpdated source => some source.socialSourceId
  | .sourceRemoved source _ _ _ => some source
  | _ => none

def tellsContent (e : Envelope) : Bool :=
  match e.payload with
  | .sourceCaptured _ => true
  | .sourceUpdated _ => true
  | _ => false

/-- queue_source_event. -/
def sourceEvent (id owner : Uuid) (fact : SourceFact) (snapshot : SocialSourceSnapshot) : Envelope :=
  ⟨id,.socialSource snapshot.socialSourceId,none,owner,
    match fact with
    | .captured => .sourceCaptured snapshot
    | .updated => .sourceUpdated snapshot⟩

def removedEvent (id sourceId owner : Uuid) (causation : Entity) (removedAt : DateTime) : Envelope :=
  ⟨id,.socialSource sourceId,some causation,owner,.sourceRemoved sourceId owner "retention_policy" removedAt⟩

/-- report_envelope over the capture that the operation reports. -/
def reportEnvelope (id owner operation captureId commandId : Uuid) (report : Report) : Envelope :=
  ⟨id,.capture captureId,some (.command commandId),owner,.operationReported operation report⟩

end RatatoskrX.Envelopes
