import RatatoskrX.ArticleRuns

/-! Two pages that link one URL at the same time. The insert of a capture and the read of the
row that it met are one statement, which sees only what was committed when it started; so the
read misses a row whose page commits while the statement waits for it. -/
namespace RatatoskrX.ArticleRaces
open Schema Envelopes ArticleUrls SocialSources ReadCommitted Transition Library Articles ArticleMoves ArticleLinks
  ArticleSteps ArticleReports ArticleRuns

section Condition
variable (d : Shared)

/- No page's next capture statement fails over the rows that are there, and the committed
publications are linked. -/
def Succeeds (w : World) : Prop :=
  (∀ (index : Nat) page v page', w.library.calls[index]? = some (.page page) → Capturing page.pc →
    w.step d (.library (.advance index .ok)) = some v → v.library.calls[index]? = some (.page page') →
      page'.pc ≠ .done false) ∧
    ∀ p ∈ w.publications, p.index ∈ w.committed → ∀ url ∈ selectExternalExpandedUrls p.post.expandedUrls,
      d.deployment.publisher.captureUrl url.normalizedUrl = true →
        Linked w.library.archived p.accountId p.revision.sourceId url.normalizedUrl

/- A capture statement that saw no capture is over none. -/
def Unmet (w : State) : Prop :=
  ∀ (index : Nat) page rest r url urls, w.calls[index]? = some (.page page) → page.pc = .insert rest r url none urls →
    w.rows.view index (.capture page.accountId url.normalizedUrl) = none

end Condition

section Races
variable {d : Deployment} {w t : State} {index : Nat} {page : Page} {reply : Reply}

theorem plainOpen {pc} (plain : Plain pc) : pc ≠ .done false := plainBusy plain false

theorem goesOn (unmet : Unmet w) (found : w.calls[index]? = some (.page page))
    (capturing : Capturing page.pc) (moves : PageMove d w index page .ok t) {page'}
    (there : t.calls[index]? = some (.page page')) : page'.pc ≠ .done false := by
  have set_ : ∀ call, (w.calls.set index call)[index]? = some call := fun call => (setCall found index).trans (if_pos rfl)
  cases moves with
  | @still w' after untouched still =>
    have same : (w'.calls.set index (.page after))[index]? = some (.page page') := there
    rw [untouched.calls,set_] at same
    cases Option.some.inj same
    exact plainOpen still.plain'
  | seen pc =>
    cases Option.some.inj ((set_ _).symm.trans there)
    simp
  | found pc =>
    cases Option.some.inj ((set_ _).symm.trans there)
    simp
  | @starved rest r url urls current pc answered seen =>
    have none := unmet index page rest r url urls found pc
    simp only [State.sees,Rows.capture,none] at seen
    cases seen
  | created pc =>
    cases Option.some.inj ((set_ _).symm.trans there)
    simp
  | @linked rest r url captureId created urls linked pc free made =>
    have calls : linked.calls = w.calls := by
      rw [made]
      split <;> rfl
    split at there
    · have same : (linked.calls.set index _)[index]? = some (.page page') := there
      rw [calls,set_] at same
      cases Option.some.inj same
      simp
    · have same : (linked.calls.set index _)[index]? = some (.page page') := there
      rw [calls,set_] at same
      cases Option.some.inj same
      simp
  | failed open_ elsewhere => exact absurd capturing (elsewhere rfl)
  | committed acked pc =>
    rw [pc] at capturing
    exact absurd capturing id

end Races

section Worlds
variable {d : Shared} {elsewhere : String → Prop} {w v : World}

theorem succeeds (sound : WorldSound d elsewhere w) (unmet : Unmet w.library) : Succeeds d w := by
  refine ⟨?_,(captured sound).linked⟩
  intro index page v page' found capturing taken there
  obtain ⟨_,_,_,_,_,stepped⟩ := shelvedArticles sound.library sound.articles taken
  simp only [State.step,found] at stepped
  exact goesOn unmet found capturing (pageMoves stepped) there

end Worlds

section Sample
open Takedown (plain connected statements)

def locking : Shared := ⟨{plain with lockKey := fun _ post => if post = "42" then 0 else 1},fun _ => none⟩

def sharing (user post : String) : Library.Action :=
  .stage 1 ⟨0,DateTime.epochRepresentable⟩ [⟨user,none,none⟩] [⟨post,some user,"a",none,none,.active,["https://a.io/x"]⟩]

def publishing (index : Nat) (post : String) (count : Nat) : List Library.Action :=
  statements index 3 ++ .advance index (.order [post])::statements index count

/- The second page starts its statement before the first page commits. -/
def atOnce : List Act :=
  ([sharing "8" "42",sharing "9" "43"] ++ publishing 0 "42" 6 ++ publishing 1 "43" 5 ++ statements 0 3).map Act.library

def raceEnd : World := (replay (World.step locking) free (.opened connected) atOnce).get (by decide +kernel)

end Sample
end RatatoskrX.ArticleRaces
