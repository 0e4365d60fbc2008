import RatatoskrX.Foundation.Transition
import RatatoskrX.Frames
import RatatoskrX.WriteCalls

/-! Any number of calls of every service over one archive, interleaved at their
awaits. The label of a step holds the environment's choice, so a schedule replays by
evaluation. The clock may be set to any instant unless a run's guard forbids it, and
a call may be abandoned at any point, as by a crash of its process. -/
namespace RatatoskrX.Schedule
open Relational Schema Budget Journal SyncCalls WriteCalls

structure Config where
  readGate : BudgetGate
  writeGate : BudgetGate
  readClass : readGate.budgetClass = .read
  writeClass : writeGate.budgetClass = .bookmarkWrite
  sha256 : List UInt8 → List UInt8
  consentLifetime : Int
  lifetimePositive : 0 < consentLifetime

inductive Process where
  | snapshot (call : SnapshotCall)
  | scan (call : ScanCall)
  | folder (call : FolderCall)
  | write (call : WriteCall)
  | consent (call : ConsentCall)

structure Entry where
  process : Option Nat
  event : Event

structure World where
  db : Database
  now : DateTime
  processes : List Process
  abandoned : List Nat
  log : List Entry

inductive Action where
  | spawn (process : Process)
  | advance (index : Nat) (answer : Answer)
  | abandon (index : Nat)
  | tick (now : DateTime)
  | connectAccount (account : Account)
  | storeCredential (credential : Credential)
  | storeAuthorization (authorization : WriteAuthorization)
  | persistPosts (providerIds : List String)

/- A condition on actions is decided kind by kind. -/
@[reducible] def Action.decide {P : Action → Prop} (spawn : ∀ p, Decidable (P (.spawn p)))
    (advance : ∀ i answer, Decidable (P (.advance i answer))) (abandon : ∀ i, Decidable (P (.abandon i)))
    (tick : ∀ now, Decidable (P (.tick now))) (account : ∀ a, Decidable (P (.connectAccount a)))
    (credential : ∀ c, Decidable (P (.storeCredential c))) (authorization : ∀ a, Decidable (P (.storeAuthorization a)))
    (posts : ∀ ids, Decidable (P (.persistPosts ids))) : (a : Action) → Decidable (P a)
  | .spawn p => spawn p
  | .advance i answer => advance i answer
  | .abandon i => abandon i
  | .tick now => tick now
  | .connectAccount a => account a
  | .storeCredential c => credential c
  | .storeAuthorization a => authorization a
  | .persistPosts ids => posts ids

def World.start (db : Database) (now : DateTime) : World := ⟨db,now,[],[],[]⟩

/- A call enters the system at the first point of its program. -/
def Process.initial : Process → Bool
  | .snapshot ⟨_,.load _⟩ => true
  | .scan ⟨_,_,_,.load⟩ => true
  | .folder ⟨_,_,.load _⟩ | .folder ⟨_,_,.limit _⟩ => true
  | .write call => call.pc = .claim && call.operation = none && call.held = none
  | .consent call => match call.pc with
    | .account => true
    | _ => false
  | _ => false

def Process.consentIds : Process → List Uuid
  | .write call => [call.request.consentId]
  | _ => []

/- gen_random_uuid for a consent: no table and no request in the system names it yet. -/
def World.freshConsent (w : World) : Uuid :=
  freshId (w.db.consents.rows.map Consent.id ++ w.processes.flatMap Process.consentIds)

def Process.next (config : Config) (w : World) (answer : Answer) : Process → Option (Step Process)
  | .snapshot call =>
    (call.pc.next config.readGate call.accountId w.db w.now w.log.length answer).map
      (Step.map (fun pc => .snapshot {call with pc := pc}))
  | .scan call =>
    (call.pc.next config.readGate call.accountId call.pageCap call.requestCap w.db w.now answer).map
      (Step.map (fun pc => .scan {call with pc := pc}))
  | .folder call =>
    (call.pc.next config.readGate call.accountId call.folder w.db w.now answer).map
      (Step.map (fun pc => .folder {call with pc := pc}))
  | .write call =>
    (call.next config.writeGate config.sha256 w.db w.now answer).map (Step.map .write)
  | .consent call =>
    (call.next config.consentLifetime w.freshConsent w.db w.now answer).map (Step.map .consent)

/- Writers outside the modelled services: account linking, token storage, other post imports. -/
def World.external (w : World) (c : Commit) : Option World :=
  (c.effect w.db).map (fun db => {w with db := db, log := w.log ++ [⟨none,.commit c⟩]})

def World.take (w : World) (index : Nat) (s : Step Process) : World where
  db := s.db
  now := w.now
  processes := w.processes.set index s.next
  abandoned := w.abandoned
  log := w.log ++ (s.event.map (Entry.mk (some index))).toList

def World.writeCall (w : World) (index : Nat) : Option WriteCall :=
  match w.processes[index]? with
  | some (.write call) => some call
  | _ => none

theorem writeCallFound {w : World} {index : Nat} {call} :
    w.writeCall index = some call ↔ w.processes[index]? = some (.write call) := by
  unfold World.writeCall
  split
  · rename_i other found
    rw [found]
    simp
  · rename_i other
    simp only [reduceCtorEq,false_iff]
    exact other call

def World.step (config : Config) (w : World) : Action → Option World
  | .spawn process => if process.initial then some {w with processes := w.processes ++ [process]} else none
  | .advance index answer =>
    if index ∈ w.abandoned then none
    else do
      let process ← w.processes[index]?
      let s ← process.next config w answer
      some (w.take index s)
  | .abandon index => some {w with abandoned := index::w.abandoned}
  | .tick now => some {w with now := now}
  | .connectAccount account => w.external (.connectAccount account)
  | .storeCredential credential => w.external (.storeCredential credential)
  | .storeAuthorization authorization => w.external (.storeAuthorization authorization)
  | .persistPosts providerIds => w.external (.persistPosts providerIds)

def Process.commit (config : Config) (w : World) : Process → Option Commit
  | .snapshot call => call.pc.commit config.readGate call.accountId w.now
  | .scan call => call.pc.commit config.readGate call.accountId call.pageCap call.requestCap w.now
  | .folder call => call.pc.commit config.readGate call.accountId call.folder w.now
  | .write call => call.commit config.writeGate config.sha256 w.db w.now
  | .consent call => call.commit w.freshConsent

/- The transactions of the calls that are no write-back. -/
def Foreign (config : Config) : Commit → Prop
  | .createRun _ | .resumeRun _ | .stagePage .. | .markFailed .. | .completeRun .. | .createScan _ | .observePage ..
  | .completeScan .. | .markGap .. | .stopScan .. | .createFolderRun .. | .createLimitRun .. | .stageFolderPage ..
  | .completeFolderRun .. | .markCapabilityLimited .. | .recordConsent .. => True
  | .charge gate _ cost _ => gate = config.readGate ∧ cost = 1
  | _ => False

theorem foreignCommit {config w} {p : Process} {c} (stands : p.commit config w = some c) :
    (∃ call, p = .write call) ∨ Foreign config c := by
  cases p with
  | write call => exact .inl ⟨call,rfl⟩
  | snapshot call =>
    simp only [Process.commit,SnapshotPc.commit] at stands
    split at stands <;> cases stands <;> simp [Foreign]
  | scan call =>
    obtain ⟨account,pageCap,requestCap,pc⟩ := call
    cases scanCommits stands <;> simp [Foreign]
  | folder call =>
    simp only [Process.commit,FolderPc.commit] at stands
    split at stands <;> cases stands <;> simp [Foreign]
  | consent call =>
    simp only [Process.commit,ConsentCall.commit] at stands
    split at stands <;> cases stands
    exact .inr trivial

theorem issuesMap {π σ : Type} {f : π → σ} {db c answer} {r : Option (Step π)} {s}
    (one : ∀ t, r = some t → Issues db c answer t) (ok : r.map (Step.map f) = some s) :
    Issues db c answer s := by
  obtain ⟨t,taken,rfl⟩ := Option.map_eq_some_iff.mp ok
  exact one t taken

theorem processIssues {config w answer} {p : Process} {s} (ok : p.next config w answer = some s) :
    Issues w.db (p.commit config w) answer s ∨
      (s.db = w.db ∧ s.event.isSome = true ∧ ∃ call, p = .write call ∧ s.event = call.utters) := by
  cases p with
  | snapshot call => exact .inl (issuesMap (fun _ => snapshotIssues) ok)
  | scan call => exact .inl (issuesMap (fun _ => scanIssues) ok)
  | folder call => exact .inl (issuesMap (fun _ => folderIssues) ok)
  | write call =>
    obtain ⟨r,taken,rfl⟩ := Option.map_eq_some_iff.mp ok
    rcases writeIssues taken with issues | ⟨same,said,utters⟩
    · exact .inl issues
    · exact .inr ⟨same,said,call,rfl,utters⟩
  | consent call => exact .inl (issuesMap (fun _ => consentIssues) ok)

def External : Commit → Prop
  | .connectAccount _ | .storeCredential _ | .storeAuthorization _ | .persistPosts _ => True
  | _ => False

/- Everything one step of the system can be. -/
inductive Move (config : Config) (w : World) : Action → World → Prop where
  | spawn {process} (first : process.initial = true) :
      Move config w (.spawn process) {w with processes := w.processes ++ [process]}
  | advance {index answer process s} (alive : index ∉ w.abandoned)
      (found : w.processes[index]? = some process) (ok : process.next config w answer = some s) :
      Move config w (.advance index answer) (w.take index s)
  | abandon (index) : Move config w (.abandon index) {w with abandoned := index::w.abandoned}
  | tick (now) : Move config w (.tick now) {w with now := now}
  | external {a c after} (outside : External c) (applied : c.effect w.db = some after)
      (quiet : ∀ i answer, a ≠ .advance i answer) :
      Move config w a {w with db := after, log := w.log ++ [⟨none,.commit c⟩]}

theorem stepMove {config w a t} (taken : World.step config w a = some t) : Move config w a t := by
  have outside : ∀ c {a}, External c → (∀ i answer, a ≠ .advance i answer) → w.external c = some t →
      Move config w a t := by
    intro c a outside quiet ok
    obtain ⟨after,applied,rfl⟩ := Option.map_eq_some_iff.mp ok
    exact .external outside applied quiet
  cases a with
  | spawn process =>
    simp only [World.step] at taken
    split at taken
    · cases Option.some.inj taken
      exact .spawn (by assumption)
    · simp at taken
  | advance index answer =>
    simp only [World.step] at taken
    split at taken
    · simp at taken
    · rename_i alive
      simp only [bind,Option.bind_eq_some_iff] at taken
      obtain ⟨process,found,s,ok,last⟩ := taken
      cases Option.some.inj last
      exact .advance alive found ok
  | abandon index =>
    cases Option.some.inj taken
    exact .abandon index
  | tick now =>
    cases Option.some.inj taken
    exact .tick now
  | connectAccount account => exact outside (.connectAccount account) trivial (by simp) taken
  | storeCredential credential => exact outside (.storeCredential credential) trivial (by simp) taken
  | storeAuthorization authorization => exact outside (.storeAuthorization authorization) trivial (by simp) taken
  | persistPosts providerIds => exact outside (.persistPosts providerIds) trivial (by simp) taken

theorem stepCommit {config w a t} (taken : World.step config w a = some t) :
    t.db = w.db ∨ ∃ c, c.effect w.db = some t.db ∧
      ((External c ∧ ∀ i answer, a ≠ .advance i answer) ∨
        ∃ i answer process, a = .advance i answer ∧ w.processes[i]? = some process ∧
          process.commit config w = some c ∧ (answer = .ok ∨ answer = .lost)) := by
  cases stepMove taken with
  | spawn => exact .inl rfl
  | @advance index answer process s alive found ok =>
    rcases processIssues ok with (⟨same,_⟩ | ⟨c,stands,event,applied,answered⟩) | ⟨same,_⟩
    · exact .inl same
    · exact .inr ⟨c,applied,.inr ⟨index,answer,process,rfl,found,stands,answered⟩⟩
    · exact .inl same
  | abandon => exact .inl rfl
  | tick => exact .inl rfl
  | external outside applied quiet => exact .inr ⟨_,applied,.inl ⟨outside,quiet⟩⟩

theorem stepView {config w a t} (taken : World.step config w a = some t) {j p}
    (found : t.processes[j]? = some p) :
    (∃ answer old s, a = .advance j answer ∧ w.processes[j]? = some old ∧ old.next config w answer = some s ∧
      p = s.next ∧ t = w.take j s) ∨
    (p.initial = true ∧ j = w.processes.length ∧ t.db = w.db ∧ t.log = w.log) ∨
    (w.processes[j]? = some p ∧ (∃ more, t.log = w.log ++ more ∧ ∀ e ∈ more, e.process ≠ some j) ∧
      (t.db = w.db ∨ ∃ c, c.effect w.db = some t.db ∧
        (External c ∨ ∃ i process, i ≠ j ∧ w.processes[i]? = some process ∧ process.commit config w = some c))) := by
  cases stepMove taken with
  | @spawn process first =>
    rcases Nat.lt_trichotomy j w.processes.length with inside | rfl | outside
    · rw [List.getElem?_append_left inside] at found
      exact .inr (.inr ⟨found,⟨[],by simp⟩,.inl rfl⟩)
    · have same : process = p := by simpa using found
      subst same
      exact .inr (.inl ⟨first,rfl,rfl,rfl⟩)
    · rw [List.getElem?_eq_none (by simp; omega)] at found
      simp at found
  | @advance index answer process s alive here ok =>
    by_cases same : index = j
    · subst same
      have inside : index < w.processes.length := (List.getElem?_eq_some_iff.mp here).1
      simp only [World.take,List.getElem?_set_self inside,Option.some.injEq] at found
      exact .inl ⟨answer,process,s,rfl,here,ok,found.symm,rfl⟩
    · simp only [World.take,List.getElem?_set_ne same] at found
      have others : ∀ e ∈ (s.event.map (Entry.mk (some index))).toList, e.process ≠ some j := by
        intro e member
        cases event : s.event <;> simp [event] at member
        simp [member,same]
      refine .inr (.inr ⟨found,⟨_,rfl,others⟩,?_⟩)
      rcases processIssues ok with (⟨kept,_⟩ | ⟨c,stands,_,applied,_⟩) | ⟨kept,_⟩
      · exact .inl kept
      · exact .inr ⟨c,applied,.inr ⟨index,process,same,here,stands⟩⟩
      · exact .inl kept
  | abandon => exact .inr (.inr ⟨found,⟨[],by simp⟩,.inl rfl⟩)
  | tick => exact .inr (.inr ⟨found,⟨[],by simp⟩,.inl rfl⟩)
  | external outside applied quiet =>
    exact .inr (.inr ⟨found,⟨_,rfl,by simp⟩,.inr ⟨_,applied,.inl outside⟩⟩)

/- What an entry of the log tells of the step that wrote it. -/
inductive Wrote (config : Config) (w : World) : Action → World → Entry → Prop where
  | external {a t c} (outside : External c) (applied : c.effect w.db = some t.db)
      (same : t.processes = w.processes) : Wrote config w a t ⟨none,.commit c⟩
  | commit {t i answer p s c} (found : w.processes[i]? = some p) (ok : p.next config w answer = some s)
      (next : t = w.take i s) (stands : p.commit config w = some c) (applied : c.effect w.db = some t.db)
      (answered : answer = .ok ∨ answer = .lost) : Wrote config w (.advance i answer) t ⟨some i,.commit c⟩
  | spoken {t i answer call s event} (found : w.processes[i]? = some (.write call))
      (ok : (Process.write call).next config w answer = some s) (next : t = w.take i s)
      (utters : call.utters = some event) (same : t.db = w.db) : Wrote config w (.advance i answer) t ⟨some i,event⟩

theorem logAfter {config w a t} (taken : World.step config w a = some t) :
    (t.log = w.log ∧ t.db = w.db) ∨ ∃ e, t.log = w.log ++ [e] ∧ Wrote config w a t e := by
  cases stepMove taken with
  | @advance index answer process s alive here ok =>
    rcases processIssues ok with (⟨same,silent⟩ | ⟨c,stands,event,applied,answered⟩) | ⟨same,said,call,rfl,utters⟩
    · exact .inl ⟨by simp [World.take,silent],same⟩
    · exact .inr ⟨⟨some index,.commit c⟩,by simp [World.take,event],.commit here ok rfl stands applied answered⟩
    · obtain ⟨event,spoken⟩ := Option.isSome_iff_exists.mp said
      exact .inr ⟨⟨some index,event⟩,by simp [World.take,spoken],
        .spoken here ok rfl (utters.symm.trans spoken) same⟩
  | external outside applied quiet => exact .inr ⟨_,rfl,.external outside applied rfl⟩
  | _ => exact .inl ⟨rfl,rfl⟩

theorem logGrows {config w a t} (taken : World.step config w a = some t) : w.log ⊆ t.log := by
  rcases logAfter taken with ⟨same,_⟩ | ⟨e,same,_⟩
  · rw [same]
    exact fun _ h => h
  · rw [same]
    exact List.subset_append_left _ _

theorem lengthGrows {config w a t} (taken : World.step config w a = some t) :
    w.processes.length ≤ t.processes.length := by
  cases stepMove taken with
  | spawn => simp
  | advance => simp [World.take]
  | _ => exact Nat.le_refl _

theorem wroteEntry {config w a t e} (taken : World.step config w a = some t) (logged : t.log = w.log ++ [e]) :
    Wrote config w a t e := by
  rcases logAfter taken with ⟨same,_⟩ | ⟨entry,same,wrote⟩
  · rw [same] at logged
    simp at logged
  · rw [same] at logged
    have last : entry = e := by simpa using logged
    exact last ▸ wrote

section Runs
variable {config : Config} {guard : World → Action → Prop} {s u : World} {labels : List Action}

theorem runLog (run : Transition.Run (World.step config) guard s labels u) : s.log ⊆ u.log := by
  induction run with
  | nil => exact fun _ h => h
  | cons meets taken later ih => exact fun _ h => ih (logGrows taken h)

theorem entryStep {db now e} (run : Transition.Run (World.step config) guard (World.start db now) labels u)
    (member : e ∈ u.log) :
    ∃ p a q, Transition.Passes (World.step config) guard (World.start db now) labels u p a q ∧
      q.log = p.log ++ [e] ∧ Wrote config p a q e := by
  have extends_ : ∀ w a t, World.step config w a = some t → t.log = w.log ∨ ∃ e, t.log = w.log ++ [e] := by
    intro w a t taken
    rcases logAfter taken with ⟨same,_⟩ | ⟨e,same,_⟩
    · exact .inl same
    · exact .inr ⟨e,same⟩
  rcases run.provenance World.log extends_ member with early | ⟨p,a,q,passes,logged⟩
  · simp [World.start] at early
  · obtain ⟨_,_,_,_,_,taken,_⟩ := id passes
    exact ⟨p,a,q,passes,logged,wroteEntry taken logged⟩

end Runs

/- One account with everything a write needs and one recorded consent, for the concrete
runs of the modules above. The digests are those of SHA-256 on the inputs of these runs. -/
section Sample
open Writeback

def sampleInstant : DateTime := ⟨1784797200000000,DateTime.openingRepresentable⟩

def sampleRequest (key : String) : BookmarkWriteRequest := ⟨7,1,1,"100",key⟩

def sampleDigests : List (List UInt8 × List UInt8) :=
  [(utf8 "first",
      [167,147,123,100,184,202,165,143,3,114,27,182,186,207,92,120,203,35,95,235,224,231,11,27,132,205,153,84,20,
        97,160,142]),
    (utf8 "second",
      [22,54,122,172,182,122,74,1,124,141,168,171,149,104,44,203,57,8,99,120,15,113,20,221,160,160,224,197,86,68,
        199,196]),
    (fingerprintInput [utf8 (uuidText 7),utf8 (uuidText 1),utf8 "add",utf8 "100",utf8 (uuidText 1),utf8 "live"],
      [48,50,89,105,128,167,135,10,135,28,217,249,55,48,1,63,101,116,142,208,146,199,185,177,134,249,192,3,54,2,
        208,125])]

def sampleConfig : Config where
  readGate := ⟨.read,10,900,quarterHourValid⟩
  writeGate := ⟨.bookmarkWrite,10,900,quarterHourValid⟩
  readClass := rfl
  writeClass := rfl
  sha256 input := ((sampleDigests.find? (fun known => known.1 = input)).map Prod.snd).getD []
  consentLifetime := 900
  lifetimePositive := by decide

def sampleStart : World := World.start Database.empty sampleInstant

def sampleSurface : ConsentSurfaceId := ⟨"web.bookmarks",by decide⟩

def sampleLink : List Action :=
  [.connectAccount ⟨1,7,.connected⟩,.storeCredential ⟨1,1,requiredScopes,.active,sampleInstant⟩,
    .storeAuthorization ⟨1,requiredScopes,.active⟩,
    .spawn (.consent ⟨7,1,.add,"100",sampleInstant,sampleSurface,.account⟩),
    .advance 0 .ok,.advance 0 .ok]

def sampleWrite (key : String) : Process := .write ⟨.live,.add,sampleRequest key,.claim,none,none⟩

/- The same process, n times in a row, with every statement succeeding. -/
def advances (index n : Nat) : List Action := List.replicate n (.advance index .ok)

end Sample
end RatatoskrX.Schedule
