import Mathlib.Data.List.Induction
import RatatoskrX.Envelopes
import RatatoskrX.Writeback

/-! The completions that Knowledge reports, delivered one after the other. The envelope is
read by the shared contract, so its reader is a parameter, and its fields are the texts and
values that the contract's types are written as. -/
namespace RatatoskrX.KnowledgeLinks
open Schema Envelopes Writeback

structure SocialSourceAnalysisCompleted where
  owner : String
  socialSourceId : Uuid
  contentDigest : Option ContentDigest
  completedAt : Option DateTime
  deriving DecidableEq, Repr

structure EventEnvelope where
  eventId : String
  producer : String
  tenantId : Option String
  payload : Option SocialSourceAnalysisCompleted
  deriving DecidableEq, Repr

inductive KnowledgeAnalysisAdmission where | linkedCurrent | linkedHistorical | duplicate
  deriving DecidableEq, Repr

inductive KnowledgeIntegrationError where | invalidCompletion | query
  deriving DecidableEq, Repr

abbrev Answer := Except KnowledgeIntegrationError KnowledgeAnalysisAdmission

/- A source with the owner of its account. -/
structure SourceRow where
  internalUserId : Uuid
  currentContentDigest : ContentDigest
  removedAt : Option DateTime
  deriving DecidableEq, Repr

structure InboxEvent where
  source : String
  eventType : String
  eventId : String
  payload : String
  deriving DecidableEq, Repr

structure AnalysisLink where
  inboxEventId : String
  socialSourceId : Uuid
  contentDigest : ContentDigest
  completedAt : DateTime
  deriving DecidableEq, Repr

def AnalysisLink.pair (link : AnalysisLink) : Uuid × ContentDigest := (link.socialSourceId,link.contentDigest)

structure Archive where
  sources : Uuid → Option SourceRow
  revisions : Uuid × ContentDigest → Bool
  inbox : List InboxEvent
  links : List AnalysisLink

structure Contract where
  decode : String → Option EventEnvelope
  eventType : String

/- A completion that passed its checks, and the digest that its source has now. -/
structure Admitted where
  eventId : String
  pair : Uuid × ContentDigest
  completedAt : DateTime
  currentDigest : ContentDigest
  deriving DecidableEq, Repr

/- The checks of a completion against the sources and their revisions, in the order of the
source. All of them fail alike. -/
def admission (a : Archive) (envelope : EventEnvelope) : Option Admitted := do
  if envelope.producer ≠ "ratatoskr-knowledge" then none
  let completion ← envelope.payload
  if envelope.tenantId ≠ some completion.owner then none
  let digest ← completion.contentDigest
  let completedAt ← completion.completedAt
  let source ← a.sources completion.socialSourceId
  if ¬a.revisions (completion.socialSourceId,digest) then none
  if completion.owner ≠ "user:" ++ uuidText source.internalUserId ∨ source.removedAt.isSome then none
  some ⟨envelope.eventId,(completion.socialSourceId,digest),completedAt,source.currentContentDigest⟩

def consumeCompletion (c : Contract) (a : Archive) (serializedEvent : String) : Archive × Answer :=
  match (c.decode serializedEvent).bind (admission a) with
  | none => (a,.error .invalidCompletion)
  | some v =>
    if v.eventId ∈ a.inbox.map InboxEvent.eventId then (a,.ok .duplicate)
    else
      let claimed := {a with inbox := a.inbox ++ [⟨"ratatoskr-knowledge",c.eventType,v.eventId,serializedEvent⟩]}
      if v.pair ∈ a.links.map AnalysisLink.pair then (claimed,.ok .duplicate)
      -- the links' own unique event id, outside of what the conflict clause covers
      else if v.eventId ∈ a.links.map AnalysisLink.inboxEventId then (a,.error .query)
      else
        ({claimed with links := a.links ++ [⟨v.eventId,v.pair.1,v.pair.2,v.completedAt⟩]},
          .ok (if v.currentDigest = v.pair.2 then .linkedCurrent else .linkedHistorical))

def deliver (c : Contract) (s : Archive × List (String × Answer)) (serializedEvent : String) : Archive × List (String × Answer) :=
  let (a,answer) := consumeCompletion c s.1 serializedEvent
  (a,s.2 ++ [(serializedEvent,answer)])

def deliverAll (c : Contract) (a : Archive) (deliveries : List String) : Archive × List (String × Answer) :=
  deliveries.foldl (deliver c) (a,[])

section Checks
variable {a a' : Archive} {envelope : EventEnvelope} {v : Admitted}

theorem admissionSame (sources : a'.sources = a.sources) (revisions : a'.revisions = a.revisions) : admission a' = admission a := by
  funext envelope
  unfold admission
  rw [sources,revisions]

/- The envelope is a valid completion for a source of its owner that is not removed. -/
structure Valid (a : Archive) (envelope : EventEnvelope) (v : Admitted) : Prop where
  producer : envelope.producer = "ratatoskr-knowledge"
  event : v.eventId = envelope.eventId
  names : ∃ owner, envelope.tenantId = some owner ∧
    envelope.payload = some ⟨owner,v.pair.1,some v.pair.2,some v.completedAt⟩ ∧
    ∃ source, a.sources v.pair.1 = some source ∧ owner = "user:" ++ uuidText source.internalUserId ∧ source.removedAt = none ∧
      v.currentDigest = source.currentContentDigest
  revision : a.revisions v.pair = true

theorem admissionValid : admission a envelope = some v ↔ Valid a envelope v := by
  constructor
  · intro ok
    unfold admission at ok
    split at ok
    · cases ok
    rename_i producer
    obtain ⟨completion,payload,ok⟩ := Option.bind_eq_some_iff.mp ok
    split at ok
    · cases ok
    rename_i tenant
    obtain ⟨digest,digested,ok⟩ := Option.bind_eq_some_iff.mp ok
    obtain ⟨completedAt,completed,ok⟩ := Option.bind_eq_some_iff.mp ok
    obtain ⟨source,stored,ok⟩ := Option.bind_eq_some_iff.mp ok
    dsimp only at ok
    split at ok
    · cases ok
    rename_i revised
    split at ok
    · cases ok
    rename_i owned
    simp only [not_or,ne_eq,not_not,Bool.not_eq_true,Option.isSome_eq_false_iff,Option.isNone_iff_eq_none] at owned
    cases Option.some.inj ok
    refine ⟨not_not.mp producer,rfl,⟨completion.owner,not_not.mp tenant,?_,source,stored,owned.1,owned.2,rfl⟩,not_not.mp revised⟩
    rw [payload,← digested,← completed]
  · rintro ⟨producer,event,⟨owner,tenant,payload,source,stored,owned,kept,current⟩,revision⟩
    obtain ⟨eventId,⟨sourceId,digest⟩,completedAt,currentDigest⟩ := v
    cases event
    cases current
    simp [admission,producer,payload,tenant,stored,revision,owned,kept]

def admitted (c : Contract) (a : Archive) (serializedEvent : String) : Option Admitted := (c.decode serializedEvent).bind (admission a)

theorem admittedValid {c : Contract} {serializedEvent} :
    admitted c a serializedEvent = some v ↔ ∃ e, c.decode serializedEvent = some e ∧ Valid a e v := by
  unfold admitted
  rw [Option.bind_eq_some_iff]
  exact exists_congr (fun e => and_congr_right (fun _ => admissionValid))

def inboxIds (a : Archive) : List String := a.inbox.map InboxEvent.eventId

def linkPairs (a : Archive) : List (Uuid × ContentDigest) := a.links.map AnalysisLink.pair

def linkOf (v : Admitted) : AnalysisLink := ⟨v.eventId,v.pair.1,v.pair.2,v.completedAt⟩

def linkedAs (v : Admitted) : KnowledgeAnalysisAdmission := if v.currentDigest = v.pair.2 then .linkedCurrent else .linkedHistorical

theorem consumeInvalid {c : Contract} {serializedEvent} (invalid : admitted c a serializedEvent = none) :
    consumeCompletion c a serializedEvent = (a,.error .invalidCompletion) := by
  unfold consumeCompletion
  rw [← admitted,invalid]

theorem consumeValid {c : Contract} {serializedEvent} (valid : admitted c a serializedEvent = some v) :
    (v.eventId ∈ inboxIds a ∧ consumeCompletion c a serializedEvent = (a,.ok .duplicate)) ∨
      (v.eventId ∉ inboxIds a ∧ ∃ claimed : InboxEvent, claimed.eventId = v.eventId ∧
        (v.pair ∈ linkPairs a ∧
            consumeCompletion c a serializedEvent = ({a with inbox := a.inbox ++ [claimed]},.ok .duplicate) ∨
          v.pair ∉ linkPairs a ∧ v.eventId ∈ a.links.map AnalysisLink.inboxEventId ∧
            consumeCompletion c a serializedEvent = (a,.error .query) ∨
          v.pair ∉ linkPairs a ∧ v.eventId ∉ a.links.map AnalysisLink.inboxEventId ∧
            consumeCompletion c a serializedEvent =
              ({a with inbox := a.inbox ++ [claimed], links := a.links ++ [linkOf v]},.ok (linkedAs v)))) := by
  unfold consumeCompletion inboxIds linkPairs
  rw [← admitted,valid]
  simp only
  split
  · rename_i seen
    exact .inl ⟨seen,rfl⟩
  · rename_i unseen
    refine .inr ⟨unseen,⟨"ratatoskr-knowledge",c.eventType,v.eventId,serializedEvent⟩,rfl,?_⟩
    split
    · rename_i linked
      exact .inl ⟨linked,rfl⟩
    · rename_i unlinked
      split
      · rename_i reused
        exact .inr (.inl ⟨unlinked,reused,rfl⟩)
      · rename_i free
        exact .inr (.inr ⟨unlinked,free,rfl⟩)

end Checks

section Runs
variable {c : Contract} {a : Archive} {done : List String} {s : String}

def linkedFor (c : Contract) (a : Archive) (pair : Uuid × ContentDigest) (r : String × Answer) : Bool :=
  (admitted c a r.1).any (fun v => v.pair = pair ∧ r.2 = .ok (linkedAs v))

def DistinctIds (c : Contract) (deliveries : List String) : Prop :=
  ∀ s ∈ deliveries, ∀ s' ∈ deliveries, ∀ e e', c.decode s = some e → c.decode s' = some e' → e.eventId = e'.eventId → e = e'

/- The run so far. The inbox holds the events that came and the links name what they name. -/
structure Delivered (c : Contract) (a : Archive) (done : List String) (t : Archive × List (String × Answer)) : Prop where
  sources : t.1.sources = a.sources
  revisions : t.1.revisions = a.revisions
  inbox : ∀ id, id ∈ inboxIds t.1 ↔ id ∈ inboxIds a ∨ ∃ s ∈ done, ∃ v, admitted c a s = some v ∧ v.eventId = id
  links : ∀ link ∈ t.1.links, ∃ s ∈ done, ∃ v, admitted c a s = some v ∧ link = linkOf v
  covered : ∀ s ∈ done, ∀ v, admitted c a s = some v → v.pair ∈ linkPairs t.1
  once : (linkPairs t.1).Nodup
  log : t.2.map Prod.fst = done
  refused : ∀ r ∈ t.2, admitted c a r.1 = none → r.2 = .error .invalidCompletion
  answered : ∀ r ∈ t.2, ∀ v, admitted c a r.1 = some v → r.2 = .ok .duplicate ∨ r.2 = .ok (linkedAs v)
  single : ∀ pair, (t.2.filter (linkedFor c a pair)).length = if pair ∈ linkPairs t.1 then 1 else 0

theorem linkPair (v : Admitted) : (linkOf v).pair = v.pair := rfl

theorem duplicateUnlinked (v : Admitted) : KnowledgeAnalysisAdmission.duplicate ≠ linkedAs v := by
  unfold linkedAs
  split <;> simp

theorem Delivered.more {b b' : Archive} {log : List (String × Answer)} {answer : Answer} (run : Delivered c a done (b,log))
    (sources : b'.sources = b.sources) (revisions : b'.revisions = b.revisions)
    (inbox : ∀ id, id ∈ inboxIds b' ↔ id ∈ inboxIds b ∨ ∃ v, admitted c a s = some v ∧ v.eventId = id)
    (links : ∀ link ∈ b'.links, link ∈ b.links ∨ ∃ v, admitted c a s = some v ∧ link = linkOf v)
    (covered : ∀ v, admitted c a s = some v → v.pair ∈ linkPairs b') (once : (linkPairs b').Nodup)
    (refused : admitted c a s = none → answer = .error .invalidCompletion)
    (answered : ∀ v, admitted c a s = some v → answer = .ok .duplicate ∨ answer = .ok (linkedAs v))
    (single : ∀ pair, (pair ∈ linkPairs b' ↔ pair ∈ linkPairs b ∨ linkedFor c a pair (s,answer) = true) ∧
      ¬(pair ∈ linkPairs b ∧ linkedFor c a pair (s,answer) = true)) :
    Delivered c a (done ++ [s]) (b',log ++ [(s,answer)]) where
  sources := sources.trans run.sources
  revisions := revisions.trans run.revisions
  inbox id := by
    rw [inbox,run.inbox,or_assoc]
    refine or_congr_right ?_
    simp only [List.mem_append,List.mem_singleton]
    constructor
    · rintro (⟨s',earlier,found⟩ | found)
      · exact ⟨s',.inl earlier,found⟩
      · exact ⟨s,.inr rfl,found⟩
    · rintro ⟨s',earlier | rfl,found⟩
      · exact .inl ⟨s',earlier,found⟩
      · exact .inr found
  links link member := by
    obtain earlier | ⟨v,valid,same⟩ := links link member
    · obtain ⟨s',there,found⟩ := run.links link earlier
      exact ⟨s',List.mem_append_left _ there,found⟩
    · exact ⟨s,List.mem_append_right _ (List.mem_singleton_self s),v,valid,same⟩
  covered s' member v valid := by
    obtain earlier | rfl := List.mem_append.mp member |>.imp_right List.mem_singleton.mp
    · exact ((single v.pair).1).mpr (.inl (run.covered s' earlier v valid))
    · exact covered v valid
  once := once
  log := by simp [run.log]
  refused r member invalid := by
    obtain earlier | rfl := List.mem_append.mp member |>.imp_right List.mem_singleton.mp
    · exact run.refused r earlier invalid
    · exact refused invalid
  answered r member v valid := by
    obtain earlier | rfl := List.mem_append.mp member |>.imp_right List.mem_singleton.mp
    · exact run.answered r earlier v valid
    · exact answered v valid
  single pair := by
    obtain ⟨linked,apart⟩ := single pair
    rw [List.filter_append,List.length_append,run.single]
    by_cases before : pair ∈ linkPairs b
    · have other : linkedFor c a pair (s,answer) = false := by
        simpa using fun now => apart ⟨before,now⟩
      simp [before,other,linked.mpr (.inl before)]
    · by_cases now : linkedFor c a pair (s,answer) = true
      · simp [before,now,linked.mpr (.inr now)]
      · have neither : pair ∉ linkPairs b' := fun there => (linked.mp there).elim before now
        simp [before,now,neither]

theorem notLinked {answer : Answer} (other : ∀ v, admitted c a s = some v → answer ≠ .ok (linkedAs v)) (pair) :
    linkedFor c a pair (s,answer) = false := by
  unfold linkedFor
  cases valid : admitted c a s with
  | none => rfl
  | some v => simp [other v valid]

theorem sameEvent {deliveries : List String} {s' : String} {v v' : Admitted} (distinct : DistinctIds c deliveries)
    (left : s ∈ deliveries) (right : s' ∈ deliveries) (valid : admitted c a s = some v) (valid' : admitted c a s' = some v')
    (same : v.eventId = v'.eventId) : v = v' := by
  obtain ⟨e,decoded,admits⟩ := Option.bind_eq_some_iff.mp valid
  obtain ⟨e',decoded',admits'⟩ := Option.bind_eq_some_iff.mp valid'
  rw [(admissionValid.mp admits).event,(admissionValid.mp admits').event] at same
  cases distinct s left s' right e e' decoded decoded' same
  exact Option.some.inj (admits.symm.trans admits')

theorem Delivered.duplicate {b b' : Archive} {log : List (String × Answer)} {v : Admitted} (run : Delivered c a done (b,log))
    (valid : admitted c a s = some v) (sources : b'.sources = b.sources) (revisions : b'.revisions = b.revisions)
    (inbox : ∀ id, id ∈ inboxIds b' ↔ id ∈ inboxIds b ∨ id = v.eventId) (links : b'.links = b.links)
    (linked : v.pair ∈ linkPairs b) : Delivered c a (done ++ [s]) (b',log ++ [(s,.ok .duplicate)]) := by
  have pairs : linkPairs b' = linkPairs b := congrArg (List.map AnalysisLink.pair) links
  refine run.more sources revisions ?_ ?_ ?_ (pairs ▸ run.once) (by simp [valid]) (fun _ _ => .inl rfl) ?_
  · intro id
    rw [inbox]
    simp [valid,eq_comm]
  · intro link member
    exact .inl (links ▸ member)
  · intro w admits
    cases Option.some.inj (valid.symm.trans admits)
    exact pairs ▸ linked
  · intro pair
    have none := @notLinked c a s (.ok .duplicate) (fun v _ => by simpa using duplicateUnlinked v) pair
    simp [pairs,none]

theorem deliveredStep {t : Archive × List (String × Answer)} (run : Delivered c a done t) (distinct : DistinctIds c (done ++ [s]))
    (unconsumed : ∀ e, c.decode s = some e → e.eventId ∉ inboxIds a) : Delivered c a (done ++ [s]) (deliver c t s) := by
  obtain ⟨b,log⟩ := t
  have same : admitted c b s = admitted c a s := by
    unfold admitted
    rw [admissionSame run.sources run.revisions]
  unfold deliver
  cases valid : admitted c a s with
  | none =>
    rw [consumeInvalid (same.trans valid)]
    refine run.more rfl rfl (by simp [valid]) (fun _ member => .inl member) (by simp [valid]) run.once (fun _ => rfl) (by simp [valid]) ?_
    intro pair
    have none := @notLinked c a s (.error .invalidCompletion) (by simp) pair
    simp [none]
  | some v =>
    obtain ⟨seen,step⟩ | ⟨unseen,claimed,id,⟨linked,step⟩ | ⟨unlinked,reused,-⟩ | ⟨unlinked,-,step⟩⟩ := consumeValid (same.trans valid)
    · -- the event came before, so its pair is linked
      rw [step]
      have linked : v.pair ∈ linkPairs b := by
        obtain before | ⟨s',earlier,v',valid',id⟩ := (run.inbox v.eventId).mp seen
        · obtain ⟨e,decoded,admits⟩ := admittedValid.mp valid
          exact absurd (admits.event ▸ before) (unconsumed e decoded)
        · cases sameEvent distinct (List.mem_append_left _ earlier) (List.mem_append_right _ (List.mem_singleton_self s)) valid' valid id
          exact run.covered s' earlier v valid'
      refine run.duplicate valid rfl rfl ?_ rfl linked
      intro id
      exact ⟨.inl,fun either => either.elim (fun h => h) (fun h => h ▸ seen)⟩
    · rw [step]
      refine run.duplicate valid rfl rfl ?_ rfl linked
      intro other
      simp [inboxIds,id]
    · -- a link's event is in the inbox
      obtain ⟨link,member,named⟩ := List.mem_map.mp reused
      obtain ⟨s',earlier,v',valid',rfl⟩ := run.links link member
      exact absurd ((run.inbox v.eventId).mpr (.inr ⟨s',earlier,v',valid',named⟩)) unseen
    · rw [step]
      have pairs : linkPairs {b with inbox := b.inbox ++ [claimed], links := b.links ++ [linkOf v]} = linkPairs b ++ [v.pair] := by
        simp [linkPairs,linkPair]
      refine run.more rfl rfl ?_ ?_ ?_ ?_ (by simp [valid]) ?_ ?_
      · intro other
        simp [inboxIds,id,valid,eq_comm]
      · intro link member
        obtain earlier | rfl := List.mem_append.mp member |>.imp_right List.mem_singleton.mp
        · exact .inl earlier
        · exact .inr ⟨v,valid,rfl⟩
      · intro w admits
        cases Option.some.inj (valid.symm.trans admits)
        simp [pairs]
      · rw [pairs]
        refine List.Nodup.append run.once (List.nodup_singleton _) ?_
        intro pair before now
        exact unlinked (List.mem_singleton.mp now ▸ before)
      · intro w admits
        cases Option.some.inj (valid.symm.trans admits)
        exact .inr rfl
      · intro pair
        have now : linkedFor c a pair (s,.ok (linkedAs v)) = true ↔ pair = v.pair := by
          simp [linkedFor,valid,eq_comm]
        rw [pairs,now]
        refine ⟨by simp,?_⟩
        rintro ⟨before,rfl⟩
        exact unlinked before

theorem deliveredStart (none : a.links = []) : Delivered c a [] (a,[]) where
  sources := rfl
  revisions := rfl
  inbox := by simp
  links := by simp [none]
  covered := by simp
  once := by simp [linkPairs,none]
  log := rfl
  refused := by simp
  answered := by simp
  single := by simp [linkPairs,none]

/- Nothing of the deliveries was consumed before. -/
def Unconsumed (c : Contract) (a : Archive) (deliveries : List String) : Prop :=
  ∀ s ∈ deliveries, ∀ e, c.decode s = some e → e.eventId ∉ inboxIds a

theorem deliveredAll (none : a.links = []) {deliveries : List String} (distinct : DistinctIds c deliveries)
    (unconsumed : Unconsumed c a deliveries) : Delivered c a deliveries (deliverAll c a deliveries) := by
  induction deliveries using List.reverseRecOn with
  | nil => exact deliveredStart none
  | append_singleton done s ih =>
    have earlier : ∀ s' ∈ done, s' ∈ done ++ [s] := fun _ => List.mem_append_left _
    rw [deliverAll,List.foldl_append,List.foldl_cons,List.foldl_nil,← deliverAll]
    refine deliveredStep (ih ?_ ?_) distinct (unconsumed s (by simp))
    · exact fun s left s' right => distinct s (earlier s left) s' (earlier s' right)
    · exact fun s' member => unconsumed s' (earlier s' member)

def NamesPair (c : Contract) (a : Archive) (pair : Uuid × ContentDigest) (s : String) : Prop :=
  ∃ e v, c.decode s = some e ∧ Valid a e v ∧ v.pair = pair

theorem namesAdmitted {pair} : NamesPair c a pair s ↔ ∃ v, admitted c a s = some v ∧ v.pair = pair := by
  simp only [NamesPair,admittedValid]
  constructor
  · rintro ⟨e,v,decoded,valid,same⟩
    exact ⟨v,⟨e,decoded,valid⟩,same⟩
  · rintro ⟨v,⟨e,decoded,valid⟩,same⟩
    exact ⟨e,v,decoded,valid,same⟩

theorem unnamed (invalid : ∀ pair, ¬NamesPair c a pair s) : admitted c a s = none := by
  cases valid : admitted c a s with
  | none => rfl
  | some v => exact absurd (namesAdmitted.mpr ⟨v,valid,rfl⟩) (invalid v.pair)

end Runs

/- What the deliveries lead to: a link for each pair that a valid completion names, one
answer that says so, and duplicates for the rest. -/
structure Linked (c : Contract) (a : Archive) (deliveries : List String) (t : Archive × List (String × Answer)) : Prop where
  once : (linkPairs t.1).Nodup
  named : ∀ pair, pair ∈ linkPairs t.1 ↔ ∃ s ∈ deliveries, NamesPair c a pair s
  log : t.2.map Prod.fst = deliveries
  single : ∀ pair ∈ linkPairs t.1, (t.2.filter (linkedFor c a pair)).length = 1
  answered : ∀ r ∈ t.2, ∀ e v, c.decode r.1 = some e → Valid a e v → r.2 = .ok .duplicate ∨ r.2 = .ok (linkedAs v)
  refused : ∀ r ∈ t.2, (∀ pair, ¬NamesPair c a pair r.1) → r.2 = .error .invalidCompletion

/-- However the completions come and come again, the links are the pairs that valid ones
name, each linked by one answer; a delivery that is not valid changes nothing. -/
theorem completionsLinked (c : Contract) (a : Archive) (deliveries : List String) (none : a.links = [])
    (distinct : DistinctIds c deliveries) (unconsumed : Unconsumed c a deliveries) :
    Linked c a deliveries (deliverAll c a deliveries) ∧
      ∀ b s, (∀ pair, ¬NamesPair c b pair s) → consumeCompletion c b s = (b,.error .invalidCompletion) := by
  have run := deliveredAll none distinct unconsumed
  refine ⟨⟨run.once,?_,run.log,?_,?_,?_⟩,fun b s invalid => consumeInvalid (unnamed invalid)⟩
  · intro pair
    simp only [namesAdmitted]
    constructor
    · intro there
      obtain ⟨link,member,rfl⟩ := List.mem_map.mp there
      obtain ⟨s,delivered,v,valid,rfl⟩ := run.links link member
      exact ⟨s,delivered,v,valid,rfl⟩
    · rintro ⟨s,delivered,v,valid,rfl⟩
      exact run.covered s delivered v valid
  · intro pair there
    rw [run.single,if_pos there]
  · intro r member e v decoded valid
    exact run.answered r member v (admittedValid.mpr ⟨e,decoded,valid⟩)
  · intro r member invalid
    exact run.refused r member (unnamed invalid)

/- Two completions for one source, one of them for a retained older digest. -/
def oldDigest : ContentDigest := ⟨"sha256","e3b98a4da31a127d4bde6e43033f66ba274cab0eb7eb1c70ec41402bf6273dd8"⟩

def newDigest : ContentDigest := ⟨"sha256","11507a0e2f5e69d5dfa40a62a1bd7b6ee57e6bcd85c67c9b8431b36fff21c437"⟩

def oldEvent : String := "018f0000-0000-7000-8000-000000000901"

def newEvent : String := "018f0000-0000-7000-8000-000000000903"

def sampleEnvelope (eventId : String) (digest : ContentDigest) : EventEnvelope :=
  ⟨eventId,"ratatoskr-knowledge",some ("user:" ++ uuidText 7),
    some ⟨"user:" ++ uuidText 7,3,some digest,some ⟨0,DateTime.epochRepresentable⟩⟩⟩

def sampleText (eventId : String) (digest : ContentDigest) : String :=
  "\x7b\"aggregate_id\":\"social_source:" ++ uuidText 3 ++ "\",\"correlation_id\":\"operation:" ++ uuidText 5 ++
    "\",\"event_id\":\"" ++ eventId ++ "\",\"event_type\":\"knowledge.analysis.completed.v1\"" ++
    ",\"occurred_at\":\"1970-01-01T00:00:00Z\",\"payload\":\x7b\"completed_at\":\"1970-01-01T00:00:00Z\"" ++
    ",\"content_digest\":\x7b\"algorithm\":\"" ++ digest.algorithm ++ "\",\"hex\":\"" ++ digest.hex ++
    "\"\x7d,\"owner\":\"user:" ++ uuidText 7 ++ "\",\"social_source_id\":\"" ++ uuidText 3 ++
    "\"\x7d,\"producer\":\"ratatoskr-knowledge\",\"schema_version\":1,\"tenant_id\":\"user:" ++ uuidText 7 ++ "\"\x7d"

def oldText : String := sampleText oldEvent oldDigest

def newText : String := sampleText newEvent newDigest

def sampleContract : Contract where
  decode text :=
    if text = oldText then some (sampleEnvelope oldEvent oldDigest)
    else if text = newText then some (sampleEnvelope newEvent newDigest)
    else none
  eventType := "knowledge.analysis.completed.v1"

def sampleArchive : Archive where
  sources id := if id = 3 then some ⟨7,newDigest,none⟩ else none
  revisions pair := pair = (3,oldDigest) ∨ pair = (3,newDigest)
  inbox := []
  links := []

theorem sampleDecoded {s : String} {e : EventEnvelope} (decoded : sampleContract.decode s = some e) :
    e = sampleEnvelope oldEvent oldDigest ∨ e = sampleEnvelope newEvent newDigest := by
  simp only [sampleContract] at decoded
  split at decoded
  · exact .inl (Option.some.inj decoded).symm
  · split at decoded
    · exact .inr (Option.some.inj decoded).symm
    · cases decoded

theorem sampleDistinct (deliveries : List String) : DistinctIds sampleContract deliveries := by
  intro s _ s' _ e e' decoded decoded' same
  obtain rfl | rfl := sampleDecoded decoded <;> obtain rfl | rfl := sampleDecoded decoded'
  · rfl
  · simp [sampleEnvelope,oldEvent,newEvent] at same
  · simp [sampleEnvelope,oldEvent,newEvent] at same
  · rfl

theorem sampleUnconsumed (deliveries : List String) : Unconsumed sampleContract sampleArchive deliveries := by
  intro s _ e _
  simp [sampleArchive,inboxIds]

theorem completionsLinkedSample : ((deliverAll sampleContract sampleArchive [newText,oldText,"x",newText]).2).map Prod.snd =
      [.ok .linkedCurrent,.ok .linkedHistorical,.error .invalidCompletion,.ok .duplicate] ∧
    (linkPairs (deliverAll sampleContract sampleArchive [newText,oldText,"x",newText]).1).Nodup := by
  refine ⟨by decide +kernel,?_⟩
  exact (completionsLinked sampleContract sampleArchive _ rfl (sampleDistinct _) (sampleUnconsumed _)).1.once

end RatatoskrX.KnowledgeLinks
