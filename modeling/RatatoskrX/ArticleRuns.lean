import RatatoskrX.ArticleReports
import RatatoskrX.Fingerprints
import RatatoskrX.Takedown

/-! Linked articles over whole runs: pages that publish, compliance runs, reports of the
extractor and events of other consumers, in any interleaving of their statements. -/
namespace RatatoskrX.ArticleRuns
open Schema Writeback Fingerprints Envelopes ArticleUrls SocialSources ReadCommitted Transition Library Articles ArticleMoves
  ArticleLinks ArticleSteps ArticleReports

section Library
variable {d : Deployment} {w t : State} {index : Nat}

/- What the library keeps of its captures and links. -/
def Grows (w t : State) : Prop :=
  t.accounts = w.accounts ∧ ∀ key row, isArticle key = true → w.archived key = some row → t.archived key = some row

theorem growsDrafts (accounts : t.accounts = w.accounts) (drafts : w.rows.Drafts t.rows index) : Grows w t :=
  ⟨accounts,fun key row _ there => by
    unfold State.archived
    rw [drafts.1]
    exact there⟩

theorem growsPage {page reply} (rows : RowsSound w) (moves : PageMove d w index page reply t) : Grows w t := by
  cases moves with
  | still untouched still => exact growsDrafts untouched.accounts untouched.drafts
  | seen | found => exact ⟨rfl,fun _ _ _ there => there⟩
  | starved | failed => exact growsDrafts rfl (Store.draftsAbort _ _)
  | created pc free absent => exact growsDrafts rfl (Store.draftsPut free)
  | @linked rest r url captureId created urls linked pc free made =>
    have base : Grows w linked := by
      rw [made]
      split
      · exact ⟨rfl,fun _ _ _ there => there⟩
      · exact growsDrafts rfl (Store.draftsPut free)
    split
    · exact base
    · exact base
  | committed acked pc answered => exact ⟨rfl,fun key row article there => committedSeen rows article there⟩

theorem growsRun (rows : RowsSound w) {run} (found : w.calls[index]? = some (.run run)) (move : RunMove w index t) :
    Grows w t := by
  refine ⟨move.accounts,fun key row article there => ?_⟩
  unfold State.archived
  rw [(move.rows key article ?_).2]
  · exact there
  · rintro x held rfl
    obtain ⟨page,known,_⟩ := rows.holders key x article held
    rw [found] at known
    cases known

theorem validGrows (grows : Grows w t) {outcome captureId} (valid : ValidFor w outcome captureId) :
    ValidFor t outcome captureId := by
  obtain ⟨a,u,c,owner,there,same,account,facts⟩ := valid
  exact ⟨a,u,c,owner,grows.2 _ _ rfl there,same,by rw [grows.1]; exact account,facts⟩

end Library

section Worlds
variable {d : Shared} {elsewhere : String → Prop} {w v : World}

structure WorldSound (d : Shared) (elsewhere : String → Prop) (w : World) : Prop where
  library : LibraryCommits.Sound w.library
  articles : ArticleLinks.Sound d.deployment w.library w.publications w.committed
  reports : ReportsSound d elsewhere w

theorem reportsGrow (sound : ReportsSound d elsewhere w) (reports : v.reports = w.reports) (outcomes : v.outcomes = w.outcomes)
    (inbox : v.inbox = w.inbox) (grows : Grows w.library v.library) : ReportsSound d elsewhere v := by
  have valid : ∀ outcome captureId, ValidFor w.library outcome captureId → ValidFor v.library outcome captureId :=
    fun outcome captureId => validGrows grows
  constructor
  · intro index call there
    rw [reports] at there
    exact stageKept valid (by simp [outcomes]) (by simp [outcomes]) (by simp [inbox]) (sound.calls index call there)
  · rw [outcomes,reports]
    exact sound.drafts
  · rw [inbox,reports]
    exact sound.claims
  · rw [outcomes,reports]
    intro captureId completion there
    obtain ⟨index,call,outcome,known,decoded,found,rest⟩ := sound.completed captureId completion there
    exact ⟨index,call,outcome,known,decoded,valid _ _ found,rest⟩
  · rw [inbox,outcomes,reports]
    intro eventId there
    rcases sound.consumed eventId there with foreign | ⟨index,call,outcome,captureId,known,decoded,same,found,rest⟩
    · exact .inl foreign
    · exact .inr ⟨index,call,outcome,captureId,known,decoded,same,valid _ _ found,rest⟩

theorem shelvedArticles {action} (library : LibraryCommits.Sound w.library)
    (sound : ArticleLinks.Sound d.deployment w.library w.publications w.committed) (taken : w.shelve d action = some v) :
    ArticleLinks.Sound d.deployment v.library v.publications v.committed ∧ Grows w.library v.library ∧
      v.reports = w.reports ∧ v.outcomes = w.outcomes ∧ v.inbox = w.inbox ∧
      w.library.step d.deployment action = some v.library := by
  simp only [World.shelve,bind,Option.bind_eq_some_iff] at taken
  obtain ⟨t,stepped,taken⟩ := taken
  have same : Grows w.library w.library := ⟨rfl,fun _ _ _ there => there⟩
  cases action with
  | stage accountId capturedAt users posts =>
    cases Option.some.inj taken
    cases Option.some.inj stepped
    refine ⟨soundOpen sound ?_,same,rfl,rfl,rfl,rfl⟩
    rintro page begins
    cases begins
    exact ⟨rfl,users,rfl⟩
  | launch accountId dueBefore maxItems =>
    cases Option.some.inj taken
    cases Option.some.inj stepped
    refine ⟨soundOpen sound ?_,same,rfl,rfl,rfl,rfl⟩
    rintro page begins
    cases begins
  | advance index reply =>
    have moved := stepped
    simp only [State.step] at moved
    split at moved
    · rename_i page found
      simp only [found] at taken
      cases Option.some.inj taken
      exact ⟨soundPage sound found moved,growsPage sound.rows (pageMoves moved),rfl,rfl,rfl,stepped⟩
    · rename_i run found
      simp only [found] at taken
      cases Option.some.inj taken
      exact ⟨soundRun sound library found moved,growsRun sound.rows found (runMoves library found moved),rfl,rfl,rfl,stepped⟩
    · simp at moved

theorem reportsOpen {call : ReportCall} (sound : ReportsSound d elsewhere w)
    (begins : ReportStage d w w.reports.length call call.pc) :
    ReportsSound d elsewhere {w with reports := w.reports ++ [call]} := by
  have stays : ∀ {j : Nat} {other : ReportCall}, w.reports[j]? = some other → (w.reports ++ [call])[j]? = some other := by
    intro j other there
    rw [List.getElem?_append_left (List.getElem?_eq_some_iff.mp there).1]
    exact there
  constructor
  · intro j other there
    rcases lt_or_ge j w.reports.length with old | late
    · rw [List.getElem?_append_left old] at there
      exact sound.calls j other there
    · rw [List.getElem?_append_right late] at there
      obtain ⟨zero,last⟩ := List.getElem?_eq_some_iff.mp there
      rw [List.getElem_singleton] at last
      have here : j = w.reports.length := by simp at zero; omega
      rw [here,← last]
      exact begins
  · intro captureId x held
    obtain ⟨none,other,there,pc⟩ := sound.drafts captureId x held
    exact ⟨none,other,stays there,pc⟩
  · intro eventId x held
    obtain ⟨version,other,outcome,captureId,there,facts⟩ := sound.claims eventId x held
    exact ⟨version,other,outcome,captureId,stays there,facts⟩
  · intro captureId completion there
    obtain ⟨j,other,outcome,known,facts⟩ := sound.completed captureId completion there
    exact ⟨j,other,outcome,stays known,facts⟩
  · intro eventId there
    rcases sound.consumed eventId there with foreign | ⟨j,other,outcome,captureId,known,facts⟩
    · exact .inl foreign
    · exact .inr ⟨j,other,outcome,captureId,stays known,facts⟩

theorem reportsElsewhere {eventId} (sound : ReportsSound d elsewhere w) (foreign : elsewhere eventId) :
    ReportsSound d elsewhere {w with inbox := w.inbox.write eventId (some ())} := by
  have kept : ∀ e, (w.inbox.committed e).isSome → ((w.inbox.write eventId (some ())).committed e).isSome := by
    intro e there
    rw [Store.writeCommitted]
    split
    · rfl
    · exact there
  constructor
  · intro j call there
    exact stageKept (w := w) (fun _ _ valid => valid) (fun _ _ _ held => held) (fun _ _ there => there) kept
      (sound.calls j call there)
  · exact sound.drafts
  · exact sound.claims
  · exact sound.completed
  · intro e there
    by_cases same : e = eventId
    · rw [same]
      exact .inl foreign
    · refine sound.consumed e ?_
      have there : ((w.inbox.write eventId (some ())).committed e).isSome := there
      rwa [Store.writeCommitted,if_neg same] at there

def Foreseen (elsewhere : String → Prop) (_ : World) (a : Act) : Prop := ∀ eventId, a = .elsewhere eventId → elsewhere eventId

theorem worldSound {a} (sound : WorldSound d elsewhere w) (foreseen : Foreseen elsewhere w a) (taken : w.step d a = some v) :
    WorldSound d elsewhere v := by
  cases a with
  | library action =>
    obtain ⟨articles,grows,reports,outcomes,inbox,stepped⟩ := shelvedArticles sound.library sound.articles taken
    exact ⟨(LibrarySteps.soundStep sound.library stepped).1,articles,
      reportsGrow sound.reports reports outcomes inbox grows⟩
  | elsewhere eventId =>
    simp only [World.step] at taken
    split at taken
    · cases Option.some.inj taken
      exact ⟨sound.library,sound.articles,reportsElsewhere sound.reports (foreseen eventId rfl)⟩
    · simp at taken
  | report serialized =>
    simp only [World.step] at taken
    split at taken
    · cases Option.some.inj taken
      exact ⟨sound.library,sound.articles,reportsOpen sound.reports trivial⟩
    · rename_i outcome decoded
      cases Option.some.inj taken
      exact ⟨sound.library,sound.articles,reportsOpen sound.reports decoded⟩
  | advance index reply =>
    simp only [World.step] at taken
    split at taken
    · simp at taken
    · rename_i call found
      have consumed := consumeCases taken
      refine ⟨?_,?_,consumeSound sound.reports found consumed⟩
      · cases consumed <;> exact sound.library
      · cases consumed <;> exact sound.articles

theorem openedSound (accounts) : WorldSound d elsewhere (World.opened accounts) := by
  refine ⟨Takedown.soundOpened,?_,?_⟩
  · constructor
    · constructor <;> simp [World.opened,State.opened,Store.empty,Shows]
    all_goals simp [World.opened,State.opened,State.archived,Store.empty]
  · constructor <;> simp [World.opened,Store.empty]

end Worlds

section Promises
variable (d : Shared)

structure Captured (w : World) : Prop where
  keyed : ∀ a u row, w.library.archived (.capture a u) = some row →
    ∃ c, row = .capture c ∧ c.accountId = a ∧ c.normalizedUrl = u
  distinct : ∀ a u c a' u' c', w.library.archived (.capture a u) = some (.capture c) →
    w.library.archived (.capture a' u') = some (.capture c') → c.id = c'.id → a = a' ∧ u = u'
  once : ∀ a u c, w.library.archived (.capture a u) = some (.capture c) → commands w.library.outbox c.id = 1
  requested : ∀ e ∈ w.library.outbox, ∀ id url, requestOf e = some (id,url) →
    ∃ a c, w.library.archived (.capture a url) = some (.capture c) ∧ c.id = id
  told : ∀ e ∈ w.library.outbox, tellsContent e = true → ∃ p ∈ w.publications, p.index ∈ w.committed ∧
    e = sourceEvent e.id p.revision.owner p.revision.fact p.revision.snapshot
  linked : ∀ p ∈ w.publications, p.index ∈ w.committed → ∀ url ∈ selectExternalExpandedUrls p.post.expandedUrls,
    d.deployment.publisher.captureUrl url.normalizedUrl = true →
      Linked w.library.archived p.accountId p.revision.sourceId url.normalizedUrl

structure Completed (elsewhere : String → Prop) (w : World) : Prop where
  reported : ∀ captureId completion, w.outcomes.committed captureId = some completion → ∃ call ∈ w.reports, ∃ outcome,
    Decoded d call outcome ∧ ValidFor w.library outcome captureId ∧ outcome.completion = completion
  first : ∀ call ∈ w.reports, ∀ captureId, call.pc = .done (.completed captureId) → ∃ outcome, Decoded d call outcome ∧
    ValidFor w.library outcome captureId ∧ w.outcomes.committed captureId = some outcome.completion
  later : ∀ call ∈ w.reports, ∀ captureId, call.pc = .done (.refused (some captureId)) → ∃ outcome,
    Decoded d call outcome ∧ ValidFor w.library outcome captureId ∧ w.outcomes.committed captureId ≠ none
  redelivered : ∀ call ∈ w.reports, ∀ captureId, call.pc = .done (.duplicate captureId) → ∃ outcome,
    Decoded d call outcome ∧ ValidFor w.library outcome captureId ∧ (elsewhere outcome.eventId ∨
      ∃ other ∈ w.reports, ∃ earlier captureId', Decoded d other earlier ∧ earlier.eventId = outcome.eventId ∧
        ValidFor w.library earlier captureId' ∧ w.outcomes.committed captureId' = some earlier.completion)

/- A step from t to v: what is committed of captures and links stays, and a capture is only
completed by the commit of a report for it that found it requested. A valid report finds its
capture. -/
structure Advances (t : World) (a : Act) (v : World) : Prop where
  stays : ∀ key row, isArticle key = true → t.library.archived key = some row → v.library.archived key = some row
  completes : ∀ captureId, v.outcomes.committed captureId = t.outcomes.committed captureId ∨
    t.outcomes.committed captureId = none ∧ ∃ (index : Nat) (reply : ReportReply) (call : ReportCall) (outcome : ExtractorOutcome),
      a = .advance index reply ∧ t.reports[index]? = some call ∧ call.pc = .commit (.completed captureId) ∧
      Decoded d call outcome ∧ ValidFor t.library outcome captureId ∧
      v.outcomes.committed captureId = some outcome.completion
  finds : ∀ (index : Nat) (call : ReportCall) outcome captureId, a = .advance index .ok → t.reports[index]? = some call →
    call.pc = .lookup outcome → t.library.minted ≤ 2 ^ 128 → ValidFor t.library outcome captureId →
      v.reports[index]? = some {call with pc := .claim outcome captureId}

variable {d} {elsewhere : String → Prop} {w v : World}

theorem captured (sound : WorldSound d elsewhere w) : Captured d w where
  keyed a u row there := by
    obtain ⟨c,rfl⟩ := sound.articles.rows.captures a u row there
    obtain ⟨same,_⟩ := sound.articles.rows.keyed (a,u) c (.inl there)
    exact ⟨c,rfl,(Prod.mk.inj same).1,(Prod.mk.inj same).2⟩
  distinct a u c a' u' c' left right same :=
    Prod.mk.inj (sound.articles.rows.apart (a,u) (a',u') c c' (.inl left) (.inl right) same)
  once := sound.articles.once
  requested := sound.articles.requested
  told := sound.articles.told
  linked p known done url chosen := by
    rw [← (sound.articles.chosen p known).1] at chosen
    exact sound.articles.linked p known done url chosen

theorem completed (sound : WorldSound d elsewhere w) : Completed d elsewhere w where
  reported captureId completion there := by
    obtain ⟨_,call,outcome,known,decoded,valid,same,_⟩ := sound.reports.completed captureId completion there
    exact ⟨call,List.mem_of_getElem? known,outcome,decoded,valid,same⟩
  first call member captureId pc := by
    obtain ⟨index,known⟩ := List.mem_iff_getElem?.mp member
    have stage := sound.reports.calls index call known
    rw [pc] at stage
    exact stage
  later call member captureId pc := by
    obtain ⟨index,known⟩ := List.mem_iff_getElem?.mp member
    have stage := sound.reports.calls index call known
    rw [pc] at stage
    obtain ⟨outcome,decoded,valid,there⟩ := stage
    exact ⟨outcome,decoded,valid,Option.isSome_iff_ne_none.mp there⟩
  redelivered call member captureId pc := by
    obtain ⟨index,known⟩ := List.mem_iff_getElem?.mp member
    have stage := sound.reports.calls index call known
    rw [pc] at stage
    obtain ⟨outcome,decoded,valid,there⟩ := stage
    refine ⟨outcome,decoded,valid,?_⟩
    rcases sound.reports.consumed outcome.eventId there with foreign | ⟨_,other,earlier,captureId',known',rest⟩
    · exact .inl foreign
    · exact .inr ⟨other,List.mem_of_getElem? known',earlier,captureId',rest⟩

theorem findValid (sound : WorldSound d elsewhere w) {outcome captureId} (range : w.library.minted ≤ 2 ^ 128)
    (valid : ValidFor w.library outcome captureId) :
    ∃ owner, findCapture w.library outcome.correlationId = some (captureId,owner) ∧
      outcome.belongsTo captureId owner = true := by
  obtain ⟨a,u,c,owner,there,rfl,account,correlated,belongs⟩ := valid
  have rows := sound.articles.rows
  have below : ∀ {a u c}, w.library.archived (.capture a u) = some (.capture c) → c.id < 2 ^ 128 := by
    intro a u c present
    exact (rows.keyed (a,u) c (.inl present)).2.trans_le range
  have some_ : (findCapture w.library outcome.correlationId).isSome := by
    refine List.findSome?_isSome_iff.mpr ⟨(a,u),sound.articles.listed a u c there,?_⟩
    simp [Rows.capture,there,guard,correlated,account]
  obtain ⟨⟨captureId',owner'⟩,found⟩ := Option.isSome_iff_exists.mp some_
  obtain ⟨a',u',c',there',rfl,account',correlated'⟩ := keyFound found
  have texts : uuidText c'.id = uuidText c.id := by
    have same : "article_capture:" ++ uuidText c'.id = "article_capture:" ++ uuidText c.id :=
      correlated'.trans correlated.symm
    simpa using same
  have same := uuidTextInjective (below there') (below there) texts
  obtain ⟨rfl,rfl⟩ := Prod.mk.inj (rows.apart (a',u') (a,u) c' c (.inl there') (.inl there) same)
  rw [there'] at there
  cases there
  rw [account'] at account
  cases Option.some.inj account
  exact ⟨_,found,belongs⟩

theorem commitCompletes {index : Nat} {call : ReportCall} (sound : ReportsSound d elsewhere w)
    (found : w.reports[index]? = some call) (captureId) :
    w.outcomes.view index captureId = w.outcomes.committed captureId ∨ w.outcomes.committed captureId = none ∧
      ∃ outcome, call.pc = .commit (.completed captureId) ∧ Decoded d call outcome ∧
        ValidFor w.library outcome captureId ∧ w.outcomes.view index captureId = some outcome.completion := by
  by_cases mine : ∃ x, w.outcomes.held captureId = some x ∧ x.owner = index
  · obtain ⟨x,held,rfl⟩ := mine
    obtain ⟨absent,other,known,done⟩ := sound.drafts captureId x held
    rw [found] at known
    cases Option.some.inj known
    have stage := sound.calls x.owner call found
    rw [done] at stage
    obtain ⟨outcome,decoded,valid,own⟩ := stage
    exact .inr ⟨absent,outcome,done,decoded,valid,Store.viewHeld own rfl⟩
  · exact .inl (Store.viewOther (fun x held own => mine ⟨x,held,own⟩))

theorem advances {a} (sound : WorldSound d elsewhere w) (taken : w.step d a = some v) : Advances d w a v := by
  cases a with
  | library action =>
    obtain ⟨_,grows,_,outcomes,_,_⟩ := shelvedArticles sound.library sound.articles taken
    exact ⟨grows.2,fun captureId => .inl (by rw [outcomes]),fun _ _ _ _ step => by cases step⟩
  | elsewhere eventId =>
    simp only [World.step] at taken
    split at taken
    · cases Option.some.inj taken
      exact ⟨fun _ _ _ there => there,fun _ => .inl rfl,fun _ _ _ _ step => by cases step⟩
    · simp at taken
  | report serialized =>
    simp only [World.step] at taken
    split at taken <;> cases Option.some.inj taken <;>
      exact ⟨fun _ _ _ there => there,fun _ => .inl rfl,fun _ _ _ _ step => by cases step⟩
  | advance index reply =>
    simp only [World.step] at taken
    split at taken
    · simp at taken
    · rename_i call found
      have consumed := consumeCases taken
      refine ⟨?_,?_,?_⟩
      · cases consumed <;> exact fun _ _ _ there => there
      · intro captureId
        cases consumed with
        | committed pc answers =>
          rcases commitCompletes sound.reports found captureId with same | ⟨absent,outcome,done,decoded,valid,view⟩
          · exact .inl same
          · exact .inr ⟨absent,index,reply,call,outcome,rfl,found,done,decoded,valid,view⟩
        | _ => exact .inl rfl
      · rintro i other outcome captureId step known pc range valid
        cases step
        rw [found] at known
        cases Option.some.inj known
        obtain ⟨owner,finds,belongs⟩ := findValid sound range valid
        simp only [World.consume,pc,finds,belongs,if_true] at taken
        cases Option.some.inj taken
        exact (setCall found index).trans (if_pos rfl)

/-- Pages and reports in any interleaving: one request for an account and a URL, whose outcome
is the document of the first report. -/
theorem articlesOnce {accounts labels} (run : Run (World.step d) free (World.opened accounts) labels w) :
    Captured d w ∧ Completed d (fun eventId => Act.elsewhere eventId ∈ labels) w ∧
      ∀ t a v, Passes (World.step d) free (World.opened accounts) labels w t a v → Advances d t a v := by
  have always : ∀ {before t}, Run (World.step d) (Foreseen (fun eventId => Act.elsewhere eventId ∈ labels))
      (World.opened accounts) before t → WorldSound d (fun eventId => Act.elsewhere eventId ∈ labels) t :=
    fun run => run.preserves (WorldSound d _) (fun _ _ _ sound foreseen taken => worldSound sound foreseen taken)
      (openedSound accounts)
  have foreseen : Run (World.step d) (Foreseen (fun eventId => Act.elsewhere eventId ∈ labels)) (World.opened accounts)
      labels w := by
    refine run.meets _ ?_
    rintro t a v ⟨before,after,rfl,_⟩ eventId rfl
    exact List.mem_append_right _ List.mem_cons_self
  have sound := always foreseen
  refine ⟨captured sound,completed sound,?_⟩
  intro t a v passes
  obtain ⟨before,after,_,first,_,taken,_⟩ := foreseen.guarded passes
  exact advances (always first) taken

end Promises

section Sample
open Takedown (plain connected statements)

def quoted (name value : String) : String := "\"" ++ name ++ "\":\"" ++ value ++ "\""

def sampleBlob : String :=
  "\x7b" ++ quoted "owner_service" "ratatoskr-extractor" ++ ",\"digest\":\x7b" ++ quoted "algorithm" "sha256" ++ "," ++
    quoted "hex" "aaaaaaaaaaaaaaaaaaaaaaaaaaaaaaaaaaaaaaaaaaaaaaaaaaaaaaaaaaaaaaaa" ++ "\x7d," ++
    quoted "media_type" "application/json" ++ ",\"length_bytes\":42\x7d"

/- A report of document n for capture 2 of owner 7, as the extractor sends it. -/
def sampleText (eventId document : Uuid) : String :=
  "\x7b" ++ quoted "event_id" (uuidText eventId) ++ "," ++ quoted "event_type" "platform.operation.reported.v1" ++ "," ++
    quoted "occurred_at" "2026-08-27T12:00:00Z" ++ "," ++ quoted "producer" "ratatoskr-extractor" ++ "," ++
    quoted "aggregate_id" ("operation:" ++ uuidText 2) ++ "," ++ quoted "correlation_id" (correlationOf 2) ++ "," ++
    quoted "tenant_id" ("user:" ++ uuidText 7) ++ ",\"schema_version\":1,\"payload\":\x7b" ++
    quoted "operation_id" (uuidText 2) ++ "," ++ quoted "status" "succeeded" ++ ",\"results\":[\x7b" ++
    quoted "result_kind" "content.document" ++ "," ++ quoted "target" ("document:" ++ uuidText document) ++
    ",\"blob\":" ++ sampleBlob ++ "\x7d]\x7d\x7d"

def sampleReport (eventId document : Uuid) : ReportEnvelope :=
  ⟨uuidText eventId,"ratatoskr-extractor",some ("user:" ++ uuidText 7),correlationOf 2,
    some ⟨2,.succeeded,[⟨"content.document",⟨"document",some document⟩,some ⟨"ratatoskr-extractor",sampleBlob⟩⟩]⟩⟩

def sampleParse (serialized : String) : Option ReportEnvelope :=
  if serialized = sampleText 100 9 then some (sampleReport 100 9)
  else if serialized = sampleText 101 10 then some (sampleReport 101 10)
  else none

def sampleShared : Shared := ⟨plain,sampleParse⟩

/- Two posts share a link; its report is delivered twice, and another document after it. -/
def delivered : List Act :=
  (.stage 1 ⟨0,DateTime.epochRepresentable⟩ [⟨"9",none,none⟩]
    [⟨"42",some "9","a",none,none,.active,["https://a.io/x"]⟩,⟨"43",some "9","b",none,none,.active,["https://a.io/x"]⟩]::
    statements 0 4 ++ .advance 0 (.order ["42","43"])::statements 0 17).map Act.library ++
  .report (sampleText 100 9)::List.replicate 4 (.advance 0 .ok) ++
  .report (sampleText 100 9)::List.replicate 3 (.advance 1 .ok) ++
  .report (sampleText 101 10)::List.replicate 3 (.advance 2 .ok)

def deliveredEnd : World := (replay (World.step sampleShared) free (.opened connected) delivered).get (by decide +kernel)

theorem articlesOnceDelivered :
    deliveredEnd.reports.map ReportCall.pc = [.done (.completed 2),.done (.duplicate 2),.done (.refused (some 2))] ∧
    Captured sampleShared deliveredEnd ∧
    Completed sampleShared (fun eventId => Act.elsewhere eventId ∈ delivered) deliveredEnd ∧
    ∀ t a v, Passes (World.step sampleShared) free (.opened connected) delivered deliveredEnd t a v →
      Advances sampleShared t a v :=
  ⟨by decide +kernel,articlesOnce (replayRun (Option.some_get _).symm)⟩

end Sample
end RatatoskrX.ArticleRuns
