import RatatoskrX.Observations

/-! The requirement of a full snapshot over whole runs: a gap raises it, every full
completion of the account clears it and nothing else does. The completion asks neither
when the gap was recorded nor when its own pages were fetched. -/
namespace RatatoskrX.Gaps
open Outcome Relational Schema Snapshot Incremental Journal Frames Reconciliation SyncCalls Schedule
open Transition Staging Registry Recency Observations

def requires (db : Database) (account : Uuid) : Bool := (loadState db account).2

def Raises (account : Uuid) : Commit → Prop
  | .markGap a _ _ => a = account
  | _ => False

instance (account c) : Decidable (Raises account c) := by
  unfold Raises
  split <;> infer_instance

def raisesNone (account : Uuid) (e : Entry) : Bool :=
  match e.event with
  | .commit c => !decide (Raises account c)
  | _ => true

def Clears (account : Uuid) : Commit → Prop
  | .completeRun a _ _ => a = account
  | _ => False

theorem loadSame {db after : Database} (same : after.incrementalState = db.incrementalState) (account) :
    loadState after account = loadState db account := by
  unfold loadState
  rw [same]

/- The state row after an upsert, as load_state reads it. -/
theorem loadUpsert (db : Database) (row merge keeps account) :
    loadState (upsertState db row merge keeps) account =
      if row.accountId = account then
        ((db.incrementalState.find account).elim (row.watermarkProviderPostId,row.requiresFullSnapshot)
          (fun s => ((merge s).watermarkProviderPostId,(merge s).requiresFullSnapshot)))
      else loadState db account := by
  have found := Table.findUpsert db.incrementalState row merge keeps account
  unfold loadState upsertState
  simp only [found]
  by_cases mine : row.accountId = account
  · rw [if_pos mine,if_pos mine]
    cases db.incrementalState.find account <;> rfl
  · rw [if_neg mine,if_neg mine]

theorem clearedState {db account run t after} (ok : Snapshot.completeRun db account run t = .ok after) (a) :
    loadState after a = if account = a then ((loadState db a).1,false) else loadState db a := by
  obtain ⟨_,_,_,_,_,_,_,rfl,_⟩ := committedForm ok
  have found := Table.findUpdate db.incrementalState (fun s => s.accountId = account)
    (fun s => {s with requiresFullSnapshot := false, lastOutcome := .idle, updatedAt := t}) (fun _ => rfl) a
  unfold loadState
  simp only [replaceAuthority,clearFullSnapshotRequirement,recordCompletion,updateRun] at found ⊢
  rw [found]
  cases old : db.incrementalState.find a with
  | none => simp
  | some s =>
    have keyed : s.accountId = a := Table.findKey old
    by_cases mine : account = a
    · simp [keyed,mine]
    · simp [keyed,mine,Ne.symm mine]

section Flag
variable {c : Commit} {db after : Database} {account : Uuid}

theorem raisedAfter (applied : c.effect db = some after) (raises : Raises account c) : requires after account = true := by
  cases c <;> simp only [Raises] at raises
  cases Option.some.inj applied
  subst raises
  unfold requires Incremental.markGap
  rw [loadUpsert,if_pos rfl]
  cases (markFailed db _ _).incrementalState.find _ <;> rfl

theorem clearedAfter (applied : c.effect db = some after) (clears : Clears account c) :
    loadState after account = ((loadState db account).1,false) := by
  cases c <;> simp only [Clears] at clears
  rw [clearedState (accepted applied),if_pos clears]

theorem stoppedState (db : Database) (a runId outcome t account) :
    loadState (Incremental.stopRun db a runId outcome t) account = loadState db account := by
  rw [Incremental.stopRun,loadUpsert]
  split
  · unfold loadState
    simp only [markFailed,updateRun]
    cases db.incrementalState.find account <;> rfl
  · rfl

theorem requiredStill (applied : c.effect db = some after) (raises : ¬Raises account c) (clears : ¬Clears account c) :
    requires after account = requires db account := by
  have agree := frame applied
  unfold requires
  cases c with
  | completeRun a run t =>
    have other : a ≠ account := clears
    rw [clearedState (accepted applied),if_neg other]
  | markGap a runId t =>
    have other : a ≠ account := raises
    cases Option.some.inj applied
    rw [Incremental.markGap,loadUpsert,if_neg other]
    rfl
  | stopScan a runId outcome t =>
    cases Option.some.inj applied
    exact congrArg Prod.snd (stoppedState db a runId outcome t account)
  | completeScan runId watermark t =>
    obtain ⟨run,_,last⟩ := Option.bind_eq_some_iff.mp applied
    cases Option.some.inj last
    rw [loadUpsert]
    split
    · unfold loadState
      simp only [updateRun]
      cases db.incrementalState.find account <;> rfl
    · rfl
  | _ => rw [loadSame (agree.incrementalState (by simp [touched]))]

end Flag

/- The gap at position k of the log is the account's, and no completion of the account
follows it. -/
def Standing (log : List Entry) (account : Uuid) (k : Nat) : Prop :=
  (∃ i c, log[k]? = some ⟨i,.commit c⟩ ∧ Raises account c) ∧
    ∀ j i c, k < j → log[j]? = some ⟨i,.commit c⟩ → ¬Clears account c

theorem standingBefore {log : List Entry} {account k} (standing : Standing log account k) : k < log.length := by
  obtain ⟨⟨i,c,found,_⟩,_⟩ := standing
  exact (List.getElem?_eq_some_iff.mp found).1

section Logs
variable {log : List Entry} {i : Option Nat} {account : Uuid}

theorem standingRaised {c} (raises : Raises account c) : Standing (log ++ [⟨i,.commit c⟩]) account log.length := by
  refine ⟨⟨i,c,by simp,raises⟩,?_⟩
  intro j i' c' later found
  rw [List.getElem?_eq_none (by simp; omega)] at found
  simp at found

theorem standingCleared {c k} (clears : Clears account c) : ¬Standing (log ++ [⟨i,.commit c⟩]) account k := by
  intro standing
  have inside := standingBefore standing
  obtain ⟨⟨i',c',found,raises⟩,quiet⟩ := standing
  rcases Nat.lt_or_ge k log.length with before | last
  · exact quiet log.length i c before (by simp) clears
  · have same : k = log.length := by
      simp only [List.length_append,List.length_singleton] at inside
      omega
    subst same
    have entry : i = i' ∧ c = c' := by simpa using found
    obtain ⟨_,rfl⟩ := entry
    cases c <;> simp [Raises,Clears] at raises clears

theorem standingKept {e : Entry} {k} (raises : ∀ i c, e = ⟨i,.commit c⟩ → ¬Raises account c)
    (clears : ∀ i c, e = ⟨i,.commit c⟩ → ¬Clears account c) :
    Standing (log ++ [e]) account k ↔ Standing log account k := by
  constructor
  · intro standing
    have inside := standingBefore standing
    obtain ⟨⟨i',c',found,raised⟩,quiet⟩ := standing
    rcases Nat.lt_or_ge k log.length with before | last
    · rw [List.getElem?_append_left before] at found
      refine ⟨⟨i',c',found,raised⟩,?_⟩
      intro j i'' c'' later there
      refine quiet j i'' c'' later ?_
      rw [List.getElem?_append_left (List.getElem?_eq_some_iff.mp there).1]
      exact there
    · have same : k = log.length := by
        simp only [List.length_append,List.length_singleton] at inside
        omega
      subst same
      rw [List.getElem?_append_right (Nat.le_refl _),Nat.sub_self] at found
      exact absurd raised (raises i' c' (Option.some.inj found))
  · intro standing
    have before := standingBefore standing
    obtain ⟨⟨i',c',found,raised⟩,quiet⟩ := standing
    refine ⟨⟨i',c',by rw [List.getElem?_append_left before]; exact found,raised⟩,?_⟩
    intro j i'' c'' later there
    rcases Nat.lt_or_ge j log.length with inner | last
    · rw [List.getElem?_append_left inner] at there
      exact quiet j i'' c'' later there
    · have bound := (List.getElem?_eq_some_iff.mp there).1
      have same : j = log.length := by
        simp only [List.length_append,List.length_singleton] at bound
        omega
      subst same
      rw [List.getElem?_append_right (Nat.le_refl _),Nat.sub_self] at there
      exact clears i'' c'' (Option.some.inj there)

end Logs

section Runs
variable {config : Config} {now : DateTime} {labels : List Action} {w t : World} {a : Action}

/- The flag is set just where a gap stands. -/
def Told (w : World) : Prop := ∀ account, requires w.db account = true ↔ ∃ k, Standing w.log account k

theorem toldStep (told : Told w) (taken : World.step config w a = some t) : Told t := by
  intro account
  rcases logAfter taken with ⟨logged,same⟩ | ⟨e,logged,wrote⟩
  · rw [logged,same]
    exact told account
  have spoken : ∀ {c : Commit} {i}, e = ⟨i,.commit c⟩ → c.effect w.db = some t.db := by
    rintro c i rfl
    exact loggedEffect taken logged
  rw [logged]
  by_cases raised : ∃ i c, e = ⟨i,.commit c⟩ ∧ Raises account c
  · obtain ⟨i,c,rfl,raises⟩ := raised
    exact iff_of_true (raisedAfter (spoken rfl) raises) ⟨_,standingRaised raises⟩
  by_cases cleared : ∃ i c, e = ⟨i,.commit c⟩ ∧ Clears account c
  · obtain ⟨i,c,rfl,clears⟩ := cleared
    refine iff_of_false ?_ (fun ⟨k,standing⟩ => standingCleared clears standing)
    rw [requires,clearedAfter (spoken rfl) clears]
    simp
  -- the entry is neither: the flag and the standing gaps are those from before
  have raises : ∀ i c, e = ⟨i,.commit c⟩ → ¬Raises account c := fun i c same yes => raised ⟨i,c,same,yes⟩
  have clears : ∀ i c, e = ⟨i,.commit c⟩ → ¬Clears account c := fun i c same yes => cleared ⟨i,c,same,yes⟩
  have flag : requires t.db account = requires w.db account := by
    rcases stepLogs taken with same | ⟨i,c,logged',applied⟩
    · rw [same]
    · rw [logged] at logged'
      have entry : e = ⟨i,.commit c⟩ := by simpa using logged'
      exact requiredStill applied (raises i c entry) (clears i c entry)
  rw [flag,told account]
  simp only [standingKept raises clears]

theorem toldRun (run : Transition.Run (World.step config) free (World.start Database.empty now) labels w) : Told w := by
  refine run.preserves Told (fun _ _ _ told _ taken => toldStep told taken) ?_
  intro account
  refine iff_of_false (by simp [requires,loadState,World.start,Database.empty,Table.empty,Table.find]) ?_
  rintro ⟨k,⟨_,_,found,_⟩,_⟩
  simp [World.start] at found

structure Cleared (config : Config) (now : DateTime) (labels : List Action) (w : World) : Prop where
  recorded : ∀ account, requires w.db account = true ↔ ∃ k, Standing w.log account k
  onlyCompletions : ∀ p a q account,
    Passes (World.step config) free (World.start Database.empty now) labels w p a q →
    requires p.db account = true → requires q.db account = false → ∃ run instant, Completes p q account run instant
  everyCompletion : ∀ p a q account run instant,
    Passes (World.step config) free (World.start Database.empty now) labels w p a q →
    Completes p q account run instant → loadState q.db account = ((loadState p.db account).1,false)
  covered : ∀ p a q account run instant k,
    Passes (World.step config) free (World.start Database.empty now) labels w p a q →
    Completes p q account run instant → Standing p.log account k →
    (∀ f ∈ fetches p.log run.snapshotId, k < f.fetchedAt) →
    ∀ post, q.db.Active account post ↔ ∃ f ∈ fetches p.log run.snapshotId, k < f.fetchedAt ∧ f.Shows p.db post

theorem gapCleared (config : Config) (now : DateTime) (labels : List Action) (w : World)
    (run : Transition.Run (World.step config) free (World.start Database.empty now) labels w) :
    Cleared config now labels w := by
  refine ⟨toldRun run,?_,?_,?_⟩
  · rintro p a q account ⟨_,_,_,_,_,taken,_⟩ before after
    rcases stepLogs taken with same | ⟨i,c,logged,applied⟩
    · rw [same,before] at after
      simp at after
    by_cases clears : Clears account c
    · cases c <;> simp only [Clears] at clears
      rename_i account' completing instant
      subst clears
      cases wroteEntry taken logged with
      | external outside _ _ => simp [External] at outside
      | commit _ _ _ _ _ _ => exact ⟨completing,instant,_,logged⟩
      | spoken _ _ _ utters _ =>
        unfold WriteCalls.WriteCall.utters at utters
        split at utters <;> simp at utters
    · by_cases raises : Raises account c
      · rw [raisedAfter applied raises] at after
        simp at after
      · rw [requiredStill applied raises clears,before] at after
        simp at after
  · rintro p a q account r instant ⟨_,_,_,_,_,taken,_⟩ completes
    obtain ⟨_,_,_,_,_,_,_,_,ok⟩ := completesBy taken completes
    rw [clearedState ok,if_pos rfl]
  · rintro p a q account r instant k ⟨before,after,_,first,_,taken,_⟩ completes _ later post
    obtain ⟨_,_,_,_,_,_,_,_,ok⟩ := completesBy taken completes
    rw [committedActive ok,(stockedRun first).staged]
    constructor
    · rintro ⟨f,member,shows⟩
      exact ⟨f,member,later f member,shows⟩
    · rintro ⟨f,member,_,shows⟩
      exact ⟨f,member,shows⟩

end Runs

/- A scan leaves a watermark, a full run fetches and stages its only page, and a second
scan stops at its page cap before it reaches the watermark. -/
def gapped : List Action :=
  [.connectAccount ⟨1,7,.connected⟩,.spawn (.scan ⟨1,5,5,.load⟩)] ++ advances 0 3 ++
    [.advance 0 (.page ⟨some ["100"],none⟩)] ++ advances 0 3 ++ [.spawn (.snapshot ⟨1,.load none⟩)] ++ advances 1 2 ++
    [.advance 1 (.page ⟨some ["100"],none⟩)] ++ advances 1 2 ++ [.spawn (.scan ⟨1,1,5,.load⟩)] ++ advances 2 3 ++
    [.advance 2 (.page ⟨some ["200"],some "more"⟩)] ++ advances 2 3

def gappedEnd : World := (replay (World.step sampleConfig) Forward sampleStart gapped).get (by decide +kernel)

def gappedDone : World := (World.step sampleConfig gappedEnd (.advance 1 .ok)).get (by decide +kernel)

theorem gapClearedAtCompletion :
    loadState gappedEnd.db 1 = (some "100",true) ∧ loadState gappedDone.db 1 = (some "100",false) ∧
      Cleared sampleConfig sampleInstant (gapped ++ [.advance 1 .ok]) gappedDone := by
  have run : Transition.Run (World.step sampleConfig) Forward sampleStart gapped gappedEnd :=
    replayRun (Option.some_get _).symm
  have done : World.step sampleConfig gappedEnd (.advance 1 .ok) = some gappedDone := (Option.some_get _).symm
  exact ⟨by decide +kernel,by decide +kernel,
    gapCleared _ _ _ _ ((run.weaken (fun _ _ _ => trivial)).append (.cons trivial done (.nil _)))⟩

/- The gap is younger than every page of the run that clears it. -/
theorem youngerGapCleared :
    ¬∀ config now labels w p a q account run instant k,
      Passes (World.step config) Forward (World.start Database.empty now) labels w p a q →
      Completes p q account run instant → requires p.db account = true → Standing p.log account k →
      ∀ f ∈ fetches p.log run.snapshotId, k < f.fetchedAt := by
  intro claim
  have run : Transition.Run (World.step sampleConfig) Forward sampleStart gapped gappedEnd :=
    replayRun (Option.some_get _).symm
  have done : World.step sampleConfig gappedEnd (.advance 1 .ok) = some gappedDone := (Option.some_get _).symm
  have required : requires gappedEnd.db 1 = true := by decide +kernel
  obtain ⟨k,standing⟩ := (toldRun (run.weaken (fun _ _ _ => trivial)) 1).mp required
  have page : (fetches gappedEnd.log 1).map Fetch.fetchedAt = [7] := by decide +kernel
  obtain ⟨f,member,at_⟩ : ∃ f ∈ fetches gappedEnd.log 1, f.fetchedAt = 7 := by
    rw [← List.mem_map,page]
    exact List.mem_singleton_self _
  have meets : Forward gappedEnd (.advance 1 .ok) := trivial
  have early := claim sampleConfig sampleInstant (gapped ++ [.advance 1 .ok]) gappedDone _ _ _ 1 ⟨2,1,1,none⟩
    sampleInstant k ⟨gapped,[],rfl,run,meets,done,.nil _⟩ (completesStep (by decide +kernel) (by decide +kernel) done)
    required standing f member
  rw [at_] at early
  have quiet : (gappedEnd.log.take 7).all (raisesNone 1) = true := by decide +kernel
  obtain ⟨⟨i,c,found,raises⟩,_⟩ := standing
  have before : ⟨i,.commit c⟩ ∈ gappedEnd.log.take 7 :=
    List.mem_of_getElem? (i := k) (by rw [List.getElem?_take_of_lt early]; exact found)
  have silent := List.all_eq_true.mp quiet _ before
  simp [raisesNone,raises] at silent

end RatatoskrX.Gaps
