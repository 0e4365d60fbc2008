import RatatoskrX.Foundation.Incarnation
import RatatoskrX.CaptureReports

/-! The social facts of one owner and post. Whatever order captures are resolved in, they
read (captured updated* removed)* with a new identity for each life, and the source row is
what the last of them left. -/
namespace RatatoskrX.SourceHistory
open Schema Envelopes ReadCommitted Transition Incarnation Capture CaptureCommits CaptureSteps CaptureReports

abbrev PairFact := Incarnation.Fact Uuid ContentDigest DateTime

def introducedFor (outbox : List Envelope) (pair : Pair) : List Uuid :=
  outbox.filterMap (fun e => match e.payload with
    | .sourceCaptured s => if (s.owner,s.externalPostId) = pair then some s.socialSourceId else none
    | _ => none)

/- A removal names no post: it belongs to the pair its source was captured for. -/
def fact (sources : List Uuid) (pair : Pair) (e : Envelope) : Option PairFact :=
  match e.payload with
  | .sourceCaptured s =>
    if (s.owner,s.externalPostId) = pair then some (.opened s.socialSourceId s.contentDigest s.capturedAt) else none
  | .sourceUpdated s =>
    if (s.owner,s.externalPostId) = pair then some (.revised s.socialSourceId s.contentDigest s.capturedAt) else none
  | .sourceRemoved source _ _ removedAt => if source ∈ sources then some (.closed source removedAt) else none
  | _ => none

def history (outbox : List Envelope) (pair : Pair) : List PairFact :=
  outbox.filterMap (fact (introducedFor outbox pair) pair)

/- What the source row of the pair says. -/
def standing (sources : Pair → Option ExplicitSource) (pair : Pair) : Option (Uuid × ContentDigest) :=
  (sources pair).map (fun s => (s.socialSourceId,s.currentContentDigest))

theorem introducedForAppend (xs ys : List Envelope) (pair) :
    introducedFor (xs ++ ys) pair = introducedFor xs pair ++ introducedFor ys pair := List.filterMap_append

theorem introducedForSub {outbox pair s} (member : s ∈ introducedFor outbox pair) : s ∈ introduced outbox := by
  obtain ⟨e,there,same⟩ := List.mem_filterMap.mp member
  refine List.mem_filterMap.mpr ⟨e,there,?_⟩
  split at same
  · rename_i payload
    split at same
    · simpa [payload] using same
    · simp at same
  · simp at same

theorem introducedAbout {outbox s} (member : s ∈ introduced outbox) : ∃ e ∈ outbox, sourceOf e = some s := by
  obtain ⟨e,there,same⟩ := List.mem_filterMap.mp member
  refine ⟨e,there,?_⟩
  split at same
  · rename_i payload
    simp only [sourceOf,payload]
    exact same
  · simp at same

theorem historyAppend {xs ys pair} (fresh : ∀ s ∈ introduced ys, ∀ e ∈ xs, sourceOf e ≠ some s) :
    history (xs ++ ys) pair = history xs pair ++ ys.filterMap (fact (introducedFor (xs ++ ys) pair) pair) := by
  unfold history
  rw [List.filterMap_append]
  congr 1
  refine List.filterMap_congr ?_
  intro e member
  unfold fact
  split
  · rfl
  · rfl
  · rename_i source owner reason removedAt payload
    have about : sourceOf e = some source := by simp only [sourceOf,payload]
    have same : source ∈ introducedFor (xs ++ ys) pair ↔ source ∈ introducedFor xs pair := by
      rw [introducedForAppend,List.mem_append]
      refine ⟨?_,.inl⟩
      rintro (old | new)
      · exact old
      · exact absurd about (fresh source (introducedForSub new) e member)
    simp only [same]
  · rfl

theorem historySource {outbox pair f} (member : f ∈ history outbox pair) : ∃ e ∈ outbox, sourceOf e = some f.source := by
  obtain ⟨e,there,same⟩ := List.mem_filterMap.mp member
  refine ⟨e,there,?_⟩
  unfold fact at same
  split at same
  all_goals first | (split at same <;> [skip; simp at same]) | simp at same
  all_goals rename_i payload _
  all_goals cases Option.some.inj same
  all_goals simp only [sourceOf,payload,Fact.source]

structure Chronicle (sources : Pair → Option ExplicitSource) (outbox : List Envelope) : Prop where
  story : ∀ pair, Story (history outbox pair) (standing sources pair)
  keyed : ∀ pair source, sources pair = some source → (source.owner,source.providerPostId) = pair
  placed : ∀ pair source, sources pair = some source → source.socialSourceId ∈ introducedFor outbox pair
  single : ∀ pair pair' s, s ∈ introducedFor outbox pair → s ∈ introducedFor outbox pair' → pair = pair'
  covered : ∀ e ∈ outbox, sourceOf e ≠ none → ∃ pair, (fact (introducedFor outbox pair) pair e).isSome

/- The social facts of an outcome belong to the pair of its capture. -/
inductive Tells (capture : ClaimedCapture) : Option ExplicitSource → Option ExplicitSource → List Envelope → Prop where
  | nothing {source} : Tells capture source source []
  | captured {snapshot digest id} (owner : snapshot.owner = capture.owner)
      (post : snapshot.externalPostId = capture.providerPostId) (content : snapshot.contentDigest = digest)
      (time : snapshot.capturedAt = capture.capturedAt) :
      Tells capture none
        (some ⟨snapshot.socialSourceId,capture.owner,capture.providerPostId,digest,capture.capturedAt⟩)
        [sourceEvent id capture.owner .captured snapshot]
  | updated {source snapshot digest id} (owner : snapshot.owner = capture.owner)
      (post : snapshot.externalPostId = capture.providerPostId) (content : snapshot.contentDigest = digest)
      (time : snapshot.capturedAt = capture.capturedAt) (same : snapshot.socialSourceId = source.socialSourceId)
      (differs : source.currentContentDigest ≠ digest) :
      Tells capture (some source)
        (some {source with currentContentDigest := digest, capturedAt := capture.capturedAt})
        [sourceEvent id capture.owner .updated snapshot]
  | removed {source removedAt id} :
      Tells capture (some source) none
        [removedEvent id source.socialSourceId capture.owner (.capture capture.captureId) removedAt]

theorem outcomeTells {contract : Contract} {capture row source row' after queued}
    (outcome : Outcome contract capture row source row' after queued) :
    ∃ social id report, queued = social ++ [Lane.report capture id report] ∧ Tells capture source after social := by
  cases outcome with
  | unavailable absent => exact ⟨[],_,_,rfl,.nothing⟩
  | removed => exact ⟨[_],_,_,rfl,.removed⟩
  | preserved publishes =>
    refine ⟨_,_,_,rfl,?_⟩
    cases publishes with
    | unchanged same => exact .nothing
    | captured own built =>
      obtain ⟨id,owner,post,content,time⟩ := snapshotFields built
      subst id
      exact .captured owner (post.trans own) content time
    | updated own differs built =>
      obtain ⟨id,owner,post,content,time⟩ := snapshotFields built
      exact .updated owner (post.trans own) content time id differs

section Steps
variable {sources : Pair → Option ExplicitSource} {outbox : List Envelope}

theorem factNone {known pair e} (silent : sourceOf e = none) : fact known pair e = none := by
  unfold fact
  split
  all_goals first | rfl | skip
  all_goals rename_i payload
  all_goals simp [sourceOf,payload] at silent

theorem factMono {known known' pair e} (sub : ∀ s ∈ known, s ∈ known') (some_ : (fact known pair e).isSome) :
    (fact known' pair e).isSome := by
  unfold fact at some_ ⊢
  split at some_
  · exact some_
  · exact some_
  · split at some_
    · rename_i member
      simp [sub _ member]
    · simp at some_
  · simp at some_

theorem introducedNone {ys pair} (silent : ∀ e ∈ ys, sourceOf e = none) : introducedFor ys pair = [] := by
  refine List.filterMap_eq_nil_iff.mpr ?_
  intro e member
  split
  · rename_i payload
    have about := silent e member
    simp [sourceOf,payload] at about
  · rfl

theorem historySnoc {xs : List Envelope} {e pair} (fresh : ∀ s ∈ introduced [e], ∀ x ∈ xs, sourceOf x ≠ some s) :
    history (xs ++ [e]) pair = history xs pair ++ (fact (introducedFor (xs ++ [e]) pair) pair e).toList := by
  rw [historyAppend fresh]
  cases found : fact (introducedFor (xs ++ [e]) pair) pair e <;> simp [found]

/- Rows that are not about a source leave every history alone. -/
theorem chronicleSilent {e} (chronicle : Chronicle sources outbox) (silent : sourceOf e = none) :
    Chronicle sources (outbox ++ [e]) ∧
      ∀ pair, history (outbox ++ [e]) pair = history outbox pair := by
  have quiet : ∀ x ∈ [e], sourceOf x = none := by
    intro x member
    cases List.mem_singleton.mp member
    exact silent
  have known : ∀ pair, introducedFor (outbox ++ [e]) pair = introducedFor outbox pair := by
    intro pair
    rw [introducedForAppend,introducedNone quiet,List.append_nil]
  have same : ∀ pair, history (outbox ++ [e]) pair = history outbox pair := by
    intro pair
    rw [historySnoc]
    · rw [factNone silent,Option.toList_none,List.append_nil]
    · intro s member
      obtain ⟨x,there,about⟩ := introducedAbout member
      rw [quiet x there] at about
      cases about
  refine ⟨⟨?_,chronicle.keyed,?_,?_,?_⟩,same⟩
  · intro pair
    rw [same]
    exact chronicle.story pair
  · intro pair source there
    rw [known]
    exact chronicle.placed pair source there
  · intro pair pair' s
    rw [known,known]
    exact chronicle.single pair pair' s
  · intro x member about
    rcases List.mem_append.mp member with old | new
    · obtain ⟨pair,told⟩ := chronicle.covered x old about
      exact ⟨pair,by rw [known]; exact told⟩
    · cases List.mem_singleton.mp new
      exact absurd silent about

theorem chronicleTold {capture after e f} (chronicle : Chronicle sources outbox)
    (fresh : ∀ s ∈ introduced [e], ∀ x ∈ outbox, sourceOf x ≠ some s)
    (facts : ∀ pair, fact (introducedFor (outbox ++ [e]) pair) pair e = if pair = ClaimedCapture.pair capture then some f else none)
    (mints : ∀ pair s, s ∈ introducedFor [e] pair → pair = capture.pair ∧ s ∈ introduced [e])
    (told : Story (history outbox capture.pair ++ [f])
      (after.map (fun s : ExplicitSource => (s.socialSourceId,s.currentContentDigest))))
    (keyed : ∀ source, after = some source → (source.owner,source.providerPostId) = capture.pair ∧
      source.socialSourceId ∈ introducedFor (outbox ++ [e]) capture.pair) :
    Chronicle (Function.update sources capture.pair after) (outbox ++ [e]) ∧
      (∀ pair, history (outbox ++ [e]) pair = history outbox pair ++ if pair = capture.pair then [f] else []) := by
  have written : ∀ pair, history (outbox ++ [e]) pair =
      history outbox pair ++ if pair = capture.pair then [f] else [] := by
    intro pair
    rw [historySnoc fresh,facts]
    split <;> rfl
  have grows : ∀ pair s, s ∈ introducedFor outbox pair → s ∈ introducedFor (outbox ++ [e]) pair := by
    intro pair s member
    rw [introducedForAppend]
    exact List.mem_append_left _ member
  -- A source that the event introduces was in no list before.
  have apart : ∀ pair s, s ∈ introducedFor outbox pair → s ∉ introduced [e] := by
    intro pair s old new
    obtain ⟨x,there,about⟩ := introducedAbout (introducedForSub old)
    exact fresh s new x there about
  refine ⟨⟨?_,?_,?_,?_,?_⟩,written⟩
  · intro pair
    simp only [written,standing]
    by_cases same : pair = capture.pair
    · subst same
      rw [if_pos rfl,Function.update_self]
      exact told
    · rw [if_neg same,Function.update_of_ne same,List.append_nil]
      exact chronicle.story pair
  · intro pair source there
    by_cases same : pair = capture.pair
    · rw [same,Function.update_self] at there
      exact same ▸ (keyed source there).1
    · rw [Function.update_of_ne same] at there
      exact chronicle.keyed pair source there
  · intro pair source there
    by_cases same : pair = capture.pair
    · rw [same,Function.update_self] at there
      exact same ▸ (keyed source there).2
    · rw [Function.update_of_ne same] at there
      exact grows pair _ (chronicle.placed pair source there)
  · intro pair pair' s member member'
    rw [introducedForAppend] at member member'
    rcases List.mem_append.mp member with old | new
    · rcases List.mem_append.mp member' with old' | new'
      · exact chronicle.single pair pair' s old old'
      · exact absurd (mints pair' s new').2 (apart pair s old)
    · rcases List.mem_append.mp member' with old' | new'
      · exact absurd (mints pair s new).2 (apart pair' s old')
      · exact (mints pair s new).1.trans (mints pair' s new').1.symm
  · intro x member about
    rcases List.mem_append.mp member with old | new
    · obtain ⟨pair,known⟩ := chronicle.covered x old about
      exact ⟨pair,factMono (grows pair) known⟩
    · cases List.mem_singleton.mp new
      exact ⟨capture.pair,by rw [facts]; simp⟩

def added (social : List Envelope) : List PairFact :=
  social.filterMap (fun e => match e.payload with
    | .sourceCaptured s => some (.opened s.socialSourceId s.contentDigest s.capturedAt)
    | .sourceUpdated s => some (.revised s.socialSourceId s.contentDigest s.capturedAt)
    | .sourceRemoved source _ _ removedAt => some (.closed source removedAt)
    | _ => none)

theorem chronicleSocial {capture after social} (chronicle : Chronicle sources outbox)
    (tells : Tells capture (sources capture.pair) after social)
    (fresh : ∀ s ∈ introduced social, ∀ x ∈ outbox, sourceOf x ≠ some s) :
    Chronicle (Function.update sources capture.pair after) (outbox ++ social) ∧
      (∀ pair, history (outbox ++ social) pair =
        history outbox pair ++ if pair = capture.pair then added social else []) := by
  have story := chronicle.story capture.pair
  generalize present : sources capture.pair = source at tells
  cases tells with
  | nothing =>
    have same : Function.update sources capture.pair (sources capture.pair) = sources :=
      Function.update_eq_self ..
    rw [present] at same
    rw [same,List.append_nil]
    refine ⟨⟨chronicle.story,chronicle.keyed,chronicle.placed,chronicle.single,chronicle.covered⟩,?_⟩
    intro pair
    simp [added]
  | captured owner post content time =>
    subst content
    refine chronicleTold chronicle fresh ?_ ?_ ?_ ?_
    · intro pair
      simp only [fact,sourceEvent,owner,post,eq_comm]
    · intro pair s member
      simp only [introducedFor,introduced,sourceEvent,List.filterMap_cons,List.filterMap_nil,owner,post] at member ⊢
      split at member
      · simp at member
      · rename_i same
        split at same
        · rename_i equal
          cases Option.some.inj same
          exact ⟨equal.symm,member⟩
        · simp at same
    · simp only [standing,present,Option.map_none] at story
      refine .opened story ?_
      intro f member same
      obtain ⟨x,there,about⟩ := historySource member
      exact fresh _ (by simp [introduced,sourceEvent]) x there (same ▸ about)
    · intro kept same
      cases Option.some.inj same
      refine ⟨rfl,?_⟩
      rw [introducedForAppend]
      exact List.mem_append_right _ (by simp [introducedFor,sourceEvent,owner,post])
  | @updated source snapshot digest id owner post content time same differs =>
    subst content
    refine chronicleTold chronicle fresh ?_ ?_ ?_ ?_
    · intro pair
      simp only [fact,sourceEvent,owner,post,eq_comm]
    · intro pair s member
      simp [introducedFor,sourceEvent] at member
    · simp only [standing,present,Option.map_some] at story ⊢
      rw [same]
      exact .revised story differs
    · intro kept equal
      cases Option.some.inj equal
      refine ⟨chronicle.keyed _ source present,?_⟩
      rw [introducedForAppend]
      exact List.mem_append_left _ (chronicle.placed _ source present)
  | @removed source removedAt id =>
    refine chronicleTold chronicle fresh ?_ ?_ ?_ ?_
    · intro pair
      have placed := chronicle.placed _ source present
      simp only [fact,removedEvent]
      have same : source.socialSourceId ∈ introducedFor (outbox ++
          [removedEvent id source.socialSourceId capture.owner (.capture capture.captureId) removedAt]) pair ↔
          pair = capture.pair := by
        rw [introducedForAppend,List.mem_append]
        refine ⟨?_,?_⟩
        · rintro (old | new)
          · exact chronicle.single _ _ _ old placed
          · simp [introducedFor,removedEvent] at new
        · rintro rfl
          exact .inl placed
      simp only [removedEvent] at same
      simp only [same]
    · intro pair s member
      simp [introducedFor,removedEvent] at member
    · simp only [standing,present,Option.map_some] at story
      exact .closed story
    · intro kept equal
      cases equal

/- What a step adds to the histories: nothing, or the facts of one resolution. -/
inductive Adds (a b : Archive) : Option ClaimedCapture → Prop where
  | nothing {who} (sources : b.sources = a.sources) (same : ∀ pair, history b.outbox pair = history a.outbox pair) :
      Adds a b who
  | social {capture row after social id report} (found : a.captures capture.captureId = some row)
      (names : Names row capture) (outbox : b.outbox = a.outbox ++ (social ++ [Lane.report capture id report]))
      (tells : Tells capture (a.sources capture.pair) after social)
      (sources : b.sources = Function.update a.sources capture.pair after)
      (written : ∀ pair, history b.outbox pair =
        history a.outbox pair ++ if pair = capture.pair then added social else []) : Adds a b (some capture)

theorem reportSilent (id owner operation captureId commandId report) :
    sourceOf (reportEnvelope id owner operation captureId commandId report) = none := rfl

/- A terminal commit's events continue the story; its report, last, tells nothing of a source. -/
theorem chronicleOutcome {capture after social id report} (chronicle : Chronicle sources outbox)
    (tells : Tells capture (sources capture.pair) after social)
    (fresh : ∀ s ∈ introduced (social ++ [Lane.report capture id report]), ∀ x ∈ outbox, sourceOf x ≠ some s) :
    Chronicle (Function.update sources capture.pair after) (outbox ++ (social ++ [Lane.report capture id report])) ∧
      ∀ pair, history (outbox ++ (social ++ [Lane.report capture id report])) pair =
        history outbox pair ++ if pair = capture.pair then added social else [] := by
  have told : ∀ s ∈ introduced social, ∀ x ∈ outbox, sourceOf x ≠ some s := by
    intro s member
    refine fresh s ?_
    simp only [introduced,List.filterMap_append]
    exact List.mem_append_left _ member
  obtain ⟨social,written⟩ := chronicleSocial chronicle tells told
  obtain ⟨next,same⟩ := chronicleSilent (e := Lane.report capture id report) social (reportSilent ..)
  rw [← List.append_assoc]
  exact ⟨next,fun pair => (same pair).trans (written pair)⟩

theorem chronicleCommit {contract : Contract} {who} {a b : Archive} (chronicle : Chronicle a.sources a.outbox)
    (commit : Commit contract a who b) : Chronicle b.sources b.outbox ∧ Adds a b who := by
  cases commit with
  | quiet => exact ⟨chronicle,.nothing rfl (fun _ => rfl)⟩
  | scheduled same => exact ⟨chronicle,.nothing rfl (fun _ => rfl)⟩
  | accepted absent first =>
    exact ⟨(chronicleSilent chronicle (reportSilent ..)).1,.nothing rfl (chronicleSilent chronicle (reportSilent ..)).2⟩
  | @resolved capture row row' source queued found names unreported outcome fresh =>
    obtain ⟨social,id,report,rfl,tells⟩ := outcomeTells outcome
    obtain ⟨next,written⟩ := chronicleOutcome chronicle tells fresh
    exact ⟨next,.social found names rfl tells rfl written⟩

/- A captured event carries an identity that no event before it carries. -/
def FirstUse (earlier later : Envelope) : Prop :=
  ∀ s, later.payload = .sourceCaptured s → sourceOf earlier ≠ some s.socialSourceId

theorem tellsFirst {capture source after social id report} (tells : Tells capture source after social) :
    (social ++ [Lane.report capture id report]).Pairwise FirstUse := by
  cases tells <;> simp [FirstUse,Lane.report,reportEnvelope]

theorem tellsTenant {capture source after social e} (tells : Tells capture source after social) (member : e ∈ social) :
    e.tenant = capture.owner := by
  cases tells with
  | nothing => simp at member
  | captured owner post content time =>
    cases List.mem_singleton.mp member
    rfl
  | updated owner post content time same differs =>
    cases List.mem_singleton.mp member
    rfl
  | removed =>
    cases List.mem_singleton.mp member
    rfl

theorem firstUseCommit {contract : Contract} {who} {a b : Archive} (first : a.outbox.Pairwise FirstUse)
    (commit : Commit contract a who b) : b.outbox.Pairwise FirstUse := by
  cases commit with
  | quiet => exact first
  | scheduled same => exact first
  | accepted absent other =>
    refine List.pairwise_append.mpr ⟨first,by simp,?_⟩
    intro earlier _ later new s payload
    cases List.mem_singleton.mp new
    simp [reportEnvelope] at payload
  | @resolved capture row row' source queued found names unreported outcome fresh =>
    refine List.pairwise_append.mpr ⟨first,?_,?_⟩
    · obtain ⟨social,id,report,rfl,tells⟩ := outcomeTells outcome
      exact tellsFirst tells
    · intro earlier old later new s payload
      refine fresh s.socialSourceId (List.mem_filterMap.mpr ⟨later,new,?_⟩) earlier old
      simp only [payload]

/- What a step changes belongs to one owner; the captures of the others keep their outcome. -/
def OneOwner (a b : Archive) : Prop :=
  ∃ owner queued, b.outbox = a.outbox ++ queued ∧ (∀ e ∈ queued, e.tenant = owner) ∧
    (∀ pair : Pair, pair.1 ≠ owner → b.sources pair = a.sources pair ∧ history b.outbox pair = history a.outbox pair) ∧
    ∀ id row, a.captures id = some row → row.owner ≠ owner → ∃ row', b.captures id = some row' ∧
      row'.status = row.status ∧ row'.reportedAt = row.reportedAt ∧ row'.socialSourceId = row.socialSourceId

theorem oneOwner {contract : Contract} {who} {a b : Archive} (chronicle : Chronicle a.sources a.outbox)
    (commit : Commit contract a who b) : OneOwner a b := by
  have adds := (chronicleCommit chronicle commit).2
  cases commit with
  | quiet => exact ⟨0,[],by simp,by simp,fun _ _ => ⟨rfl,rfl⟩,fun _ row there _ => ⟨row,there,rfl,rfl,rfl⟩⟩
  | @scheduled who captures same =>
    refine ⟨0,[],by simp,by simp,fun _ _ => ⟨rfl,rfl⟩,?_⟩
    intro id row there _
    rcases same id with stays | ⟨row',attempts,nextAttemptAt,there',_,written⟩
    · exact ⟨row,stays.trans there,rfl,rfl,rfl⟩
    · rw [there] at there'
      cases Option.some.inj there'
      exact ⟨_,written,rfl,rfl,rfl⟩
  | @accepted who intake captureId id now absent first =>
    refine ⟨intake.owner,_,rfl,?_,?_,?_⟩
    · intro e member
      cases List.mem_singleton.mp member
      rfl
    · intro pair _
      exact ⟨rfl,(chronicleSilent chronicle (reportSilent ..)).2 pair⟩
    · intro other row there _
      refine ⟨row,?_,rfl,rfl,rfl⟩
      dsimp only
      rw [Function.update_of_ne]
      · exact there
      · rintro rfl
        rw [absent] at there
        cases there
  | @resolved capture row row' source queued found names unreported outcome fresh =>
    refine ⟨capture.owner,queued,rfl,?_,?_,?_⟩
    · intro e member
      obtain ⟨social,id,report,rfl,tells⟩ := outcomeTells outcome
      rcases List.mem_append.mp member with fact | last
      · exact tellsTenant tells fact
      · cases List.mem_singleton.mp last
        rfl
    · intro pair other
      have apart : pair ≠ capture.pair := by
        rintro rfl
        exact other rfl
      refine ⟨Function.update_of_ne apart ..,?_⟩
      obtain ⟨social,id,report,rfl,tells⟩ := outcomeTells outcome
      rw [(chronicleOutcome chronicle tells fresh).2,if_neg apart,List.append_nil]
    · intro other row'' there apart
      refine ⟨row'',?_,rfl,rfl,rfl⟩
      dsimp only
      rw [Function.update_of_ne]
      · exact there
      · rintro rfl
        rw [found] at there
        cases Option.some.inj there
        exact apart names.columns.2.2.2.1

end Steps

section Runs
variable {d : Deployment} {guard : Lane → Action → Prop} {labels : List Action} {w : Lane}

theorem chronicleRun (run : Run (Lane.step d) guard Lane.empty labels w) :
    Chronicle w.sources.committed w.outbox := by
  refine archiveRun (fun a => Chronicle a.sources a.outbox) ?_ (fun _ _ _ chronicle commit => (chronicleCommit chronicle commit).1)
    run
  exact ⟨fun _ => .nil,by simp [archive,Lane.empty,Store.empty],by simp [archive,Lane.empty,Store.empty],
    by simp [archive,Lane.empty,introducedFor],by simp [archive,Lane.empty]⟩

theorem sourceHistory (d : Deployment) (labels : List Action) (w : Lane)
    (run : Run (Lane.step d) free Lane.empty labels w) :
    (∀ pair, ∃ past last, history w.outbox pair = log past last ∧
      (w.sources.committed pair).map (fun s => (s.socialSourceId,s.currentContentDigest)) =
        last.map (fun l => (l.source,l.current)) ∧
      ((lives past last).map Life.source).Nodup ∧
      ∀ l ∈ lives past last, l.contents.IsChain (fun a b => a ≠ b)) ∧
    w.outbox.Pairwise FirstUse ∧
    (∀ e ∈ w.outbox, sourceOf e ≠ none → ∃ pair, (fact (introducedFor w.outbox pair) pair e).isSome) ∧
    ∀ p a q, Passes (Lane.step d) free Lane.empty labels w p a q → OneOwner (archive p) (archive q) := by
  have chronicle := chronicleRun run
  refine ⟨fun pair => storyForm (chronicle.story pair),?_,chronicle.covered,?_⟩
  · exact archiveRun (fun a => a.outbox.Pairwise FirstUse) .nil (fun _ _ _ => firstUseCommit) run
  · rintro p a q passes
    obtain ⟨before,after,_,first,_⟩ := id passes
    exact oneOwner (chronicleRun first) (passCommit passes)

end Runs

/- Three captures of one post by one owner: kept, found deleted, kept again. -/
def restored : List Action :=
  let command (id : Uuid) : CommandEnvelope :=
    ⟨id,some 1,some ⟨.x,.browserExtension,.explicitUserCapture,id,"https://x.com/a/status/42",some ⟨0,DateTime.epochRepresentable⟩⟩⟩
  let post : PublicPost := ⟨"42",⟨"9",none,none⟩,"text",none,none,[]⟩
  let now : Reply := .ok ⟨0,DateTime.epochRepresentable⟩
  let times (n index : Nat) : List Action := List.replicate n (.advance index now)
  List.flatten [
    [.deliver (command 11),.deliver (command 12),.deliver (command 13)],times 3 0,times 3 1,times 3 2,
    [.launch ⟨3,10⟩,.advance 3 (.rows [0,2,4] ⟨0,DateTime.epochRepresentable⟩),.advance 3 (.answer (.ok post))],times 5 3,
    [.advance 3 (.answer (.error .deleted))],times 4 3,[.advance 3 (.answer (.ok post))],times 5 3]

def restoredEnd : Lane := (replay (Lane.step plain) free Lane.empty restored).get (by decide +kernel)

theorem sourceHistoryAtRestored :
    history restoredEnd.outbox (1,"42") =
      [.opened 6 ⟨"sha256","text"⟩ ⟨0,by decide⟩,.closed 6 ⟨0,by decide⟩,.opened 11 ⟨"sha256","text"⟩ ⟨0,by decide⟩] ∧
      restoredEnd.outbox.Pairwise FirstUse := by
  have run : Run (Lane.step plain) free Lane.empty restored restoredEnd := replayRun (Option.some_get _).symm
  exact ⟨by decide +kernel,(sourceHistory plain restored restoredEnd run).2.1⟩

end RatatoskrX.SourceHistory
