import Mathlib.Data.Finset.Card
import Mathlib.Data.Finset.Range
import RatatoskrX.Foundation.Transition

/-! Messages that are read at least once. A message stays on its queue until a verdict on it
arrives there, and is read again until then, by any number of readers at a time; each reading
is a call of the service, or is decided before one. -/
namespace Delivery
open Transition
universe u v w x
variable {σ : Type u} {α : Type v} {μ : Type w} {ρ : Type x}

inductive Verdict where | acked | terminated
  deriving DecidableEq, Repr

/- What a consumer makes of its service. A message begins a call, numbered by the calls there
are, or is decided at once; a result without a verdict leaves its message on the queue. -/
structure Consumer (σ : Type u) (α : Type v) (μ : Type w) (ρ : Type x) where
  step : σ → α → Option σ
  calls : σ → Nat
  enters : σ → μ → σ × Option ρ
  result : σ → Nat → Option ρ
  verdict : ρ → Option Verdict

/- One reading: its call or what it was decided at once, and the result it was counted with. -/
structure Reading (ρ : Type x) where
  message : Nat
  entry : Nat ⊕ ρ
  counted : Option ρ

/- The messages in the order they were sent, and the verdicts that arrived. -/
structure Desk (σ : Type u) (μ : Type w) (ρ : Type x) where
  service : σ
  sent : List μ
  settled : List (Nat × Verdict)
  readings : List (Reading ρ)

inductive Label (α : Type v) (μ : Type w) where
  | publish (message : μ)
  | receive (message : Nat)
  | work (label : α)
  | settle (reading : Nat) (arrives : Bool)

namespace Desk
variable (c : Consumer σ α μ ρ)

def opened (service : σ) : Desk σ μ ρ := ⟨service,[],[],[]⟩

def Settled (w : Desk σ μ ρ) (message : Nat) : Prop := message ∈ w.settled.map Prod.fst

instance (w : Desk σ μ ρ) (message) : Decidable (w.Settled message) := by unfold Settled; infer_instance

def result (w : Desk σ μ ρ) (r : Reading ρ) : Option ρ :=
  match r.counted,r.entry with
  | some _,_ => none
  | none,.inl call => c.result w.service call
  | none,.inr result => some result

/- The first verdict that arrives takes the message from the queue. -/
def settle (w : Desk σ μ ρ) (message : Nat) : Option Verdict → List (Nat × Verdict)
  | none => w.settled
  | some verdict => if w.Settled message then w.settled else w.settled ++ [(message,verdict)]

def step (w : Desk σ μ ρ) : Label α μ → Option (Desk σ μ ρ)
  | .publish message => some {w with sent := w.sent ++ [message]}
  | .receive message =>
    if w.Settled message then none
    else (w.sent[message]?).map (fun m =>
      {w with
        service := (c.enters w.service m).1
        readings := w.readings ++ [⟨message,((c.enters w.service m).2).elim (.inl (c.calls w.service)) .inr,none⟩]})
  | .work label => (c.step w.service label).map (fun service => {w with service := service})
  | .settle reading arrives => (w.readings[reading]?).bind (fun r => (w.result c r).map (fun result =>
      {w with
        settled := if arrives then w.settle r.message (c.verdict result) else w.settled
        readings := w.readings.set reading {r with counted := some result}}))

end Desk

/- What is known of a service, of the messages sent to it, of the message of a call and of
the reason of a verdict. -/
structure Terms (σ : Type u) (μ : Type w) where
  service : σ → Prop
  fits : σ → μ → Prop
  serves : σ → Nat → μ → Prop
  holds : σ → μ → Verdict → Prop

section Verdicts
variable {c : Consumer σ α μ ρ} {k : Terms σ μ}

/- What is known once is known for good. -/
structure Onward (k : Terms σ μ) (s t : σ) : Prop where
  fits : ∀ m, k.fits s m → k.fits t m
  serves : ∀ call m, k.serves s call m → k.serves t call m
  holds : ∀ m verdict, k.holds s m verdict → k.holds t m verdict

/- A call serves the message that began it, and a verdict on it has its reason. -/
structure Justified (c : Consumer σ α μ ρ) (k : Terms σ μ) : Prop where
  works : ∀ {s a t}, k.service s → c.step s a = some t → k.service t ∧ Onward k s t
  enters : ∀ {s m}, k.service s → k.fits s m → k.service (c.enters s m).1 ∧ Onward k s (c.enters s m).1 ∧
    match (c.enters s m).2 with
    | none => k.serves (c.enters s m).1 (c.calls s) m
    | some result => ∀ verdict, c.verdict result = some verdict → k.holds (c.enters s m).1 m verdict
  ends : ∀ {s call m result verdict}, k.service s → k.serves s call m → c.result s call = some result →
    c.verdict result = some verdict → k.holds s m verdict

def Served (c : Consumer σ α μ ρ) (k : Terms σ μ) (s : σ) (m : μ) : Nat ⊕ ρ → Prop
  | .inl call => k.serves s call m
  | .inr result => ∀ verdict, c.verdict result = some verdict → k.holds s m verdict

theorem servedOnward {s t m entry} (onward : Onward k s t) (served : Served c k s m entry) : Served c k t m entry := by
  cases entry with
  | inl call => exact onward.serves call m served
  | inr result => exact fun verdict states => onward.holds m verdict (served verdict states)

/- What every reachable desk keeps. -/
structure Kept (c : Consumer σ α μ ρ) (k : Terms σ μ) (w : Desk σ μ ρ) : Prop where
  service : k.service w.service
  sent : ∀ m ∈ w.sent, k.fits w.service m
  readings : ∀ r ∈ w.readings, ∃ m, w.sent[r.message]? = some m ∧ Served c k w.service m r.entry
  settled : ∀ x ∈ w.settled, ∃ m, w.sent[x.1]? = some m ∧ k.holds w.service m x.2

theorem sentStays {sent : List μ} {message : Nat} {m} (more : List μ) (there : sent[message]? = some m) :
    (sent ++ more)[message]? = some m := by
  rw [List.getElem?_append_left (List.getElem?_eq_some_iff.mp there).1]
  exact there

theorem keptOpened {s : σ} (start : k.service s) : Kept c k (Desk.opened s) :=
  ⟨start,by simp [Desk.opened],by simp [Desk.opened],by simp [Desk.opened]⟩

theorem resultHolds (justified : Justified c k) {w : Desk σ μ ρ} (kept : Kept c k w) {r result verdict m}
    (served : Served c k w.service m r.entry) (ends : w.result c r = some result)
    (states : c.verdict result = some verdict) : k.holds w.service m verdict := by
  unfold Desk.result at ends
  split at ends
  · contradiction
  · rename_i call _ entry
    rw [entry] at served
    exact justified.ends kept.service served ends states
  · rename_i decided _ entry
    rw [entry] at served
    cases Option.some.inj ends
    exact served verdict states

theorem settleMem {w : Desk σ μ ρ} {message verdict x} (member : x ∈ w.settle message verdict) :
    x ∈ w.settled ∨ x.1 = message ∧ verdict = some x.2 := by
  unfold Desk.settle at member
  split at member
  · exact .inl member
  · split at member
    · exact .inl member
    · rcases List.mem_append.mp member with old | new
      · exact .inl old
      · cases List.mem_singleton.mp new
        exact .inr ⟨rfl,rfl⟩

theorem keptStep (justified : Justified c k) {w t : Desk σ μ ρ} {label} (kept : Kept c k w)
    (sends : ∀ m, label = .publish m → k.fits w.service m) (taken : w.step c label = some t) : Kept c k t := by
  -- A change of the service keeps what is known of the messages, the readings and the verdicts.
  have moved : ∀ {service}, Onward k w.service service → (∀ m ∈ w.sent, k.fits service m) ∧
      (∀ r ∈ w.readings, ∃ m, w.sent[r.message]? = some m ∧ Served c k service m r.entry) ∧
      ∀ x ∈ w.settled, ∃ m, w.sent[x.1]? = some m ∧ k.holds service m x.2 := by
    intro service onward
    refine ⟨fun m member => onward.fits m (kept.sent m member),?_,?_⟩
    · intro r member
      obtain ⟨m,there,served⟩ := kept.readings r member
      exact ⟨m,there,servedOnward onward served⟩
    · intro x member
      obtain ⟨m,there,reason⟩ := kept.settled x member
      exact ⟨m,there,onward.holds m x.2 reason⟩
  cases label with
  | publish message =>
    cases Option.some.inj taken
    refine ⟨kept.service,?_,?_,?_⟩
    · intro m member
      rcases List.mem_append.mp member with old | new
      · exact kept.sent m old
      · cases List.mem_singleton.mp new
        exact sends message rfl
    · intro r member
      obtain ⟨m,there,served⟩ := kept.readings r member
      exact ⟨m,sentStays _ there,served⟩
    · intro x member
      obtain ⟨m,there,reason⟩ := kept.settled x member
      exact ⟨m,sentStays _ there,reason⟩
  | receive message =>
    simp only [Desk.step] at taken
    split at taken
    · contradiction
    obtain ⟨m,there,rfl⟩ := Option.map_eq_some_iff.mp taken
    obtain ⟨onInv,onward,entered⟩ := justified.enters kept.service (kept.sent m (List.mem_of_getElem? there))
    obtain ⟨fits,served,reasons⟩ := moved onward
    refine ⟨onInv,fits,?_,reasons⟩
    intro r member
    rcases List.mem_append.mp member with old | new
    · exact served r old
    · cases List.mem_singleton.mp new
      refine ⟨m,there,?_⟩
      cases decided : (c.enters w.service m).2 with
      | none =>
        rw [decided] at entered
        exact entered
      | some result =>
        rw [decided] at entered
        exact entered
  | work label =>
    obtain ⟨service,ran,rfl⟩ := Option.map_eq_some_iff.mp taken
    obtain ⟨onInv,onward⟩ := justified.works kept.service ran
    obtain ⟨fits,served,reasons⟩ := moved onward
    exact ⟨onInv,fits,served,reasons⟩
  | settle reading arrives =>
    obtain ⟨r,found,taken⟩ := Option.bind_eq_some_iff.mp taken
    obtain ⟨result,ends,rfl⟩ := Option.map_eq_some_iff.mp taken
    obtain ⟨m,there,served⟩ := kept.readings r (List.mem_of_getElem? found)
    refine ⟨kept.service,kept.sent,?_,?_⟩
    · intro r' member
      rcases List.mem_or_eq_of_mem_set member with old | rfl
      · exact kept.readings r' old
      · exact ⟨m,there,served⟩
    · intro x member
      simp only at member
      split at member
      · rcases settleMem member with old | ⟨same,states⟩
        · exact kept.settled x old
        · exact ⟨m,same ▸ there,resultHolds justified kept served ends states⟩
      · exact kept.settled x member

theorem keptRun (justified : Justified c k) {guard : Desk σ μ ρ → Label α μ → Prop}
    (sends : ∀ w m, guard w (.publish m) → k.fits w.service m) {s labels} {w : Desk σ μ ρ}
    (run : Run (Desk.step c) guard (Desk.opened s) labels w) (start : k.service s) : Kept c k w :=
  run.preserves (Kept c k) (fun w _ _ kept meets taken =>
    keptStep justified kept (fun m same => sends w m (same ▸ meets)) taken) (keptOpened start)

theorem sentKeeps {P : List μ → σ → Prop} (sends : ∀ {sent s} m, P sent s → P (sent ++ [m]) s)
    (enters : ∀ {sent s m}, m ∈ sent → P sent s → P sent (c.enters s m).1)
    (works : ∀ {sent s a t}, P sent s → c.step s a = some t → P sent t) {w t : Desk σ μ ρ} {label}
    (kept : P w.sent w.service) (taken : w.step c label = some t) : P t.sent t.service := by
  cases label with
  | publish message =>
    cases Option.some.inj taken
    exact sends message kept
  | receive message =>
    simp only [Desk.step] at taken
    split at taken
    · contradiction
    obtain ⟨m,there,rfl⟩ := Option.map_eq_some_iff.mp taken
    exact enters (List.mem_of_getElem? there) kept
  | work label =>
    obtain ⟨service,ran,rfl⟩ := Option.map_eq_some_iff.mp taken
    exact works kept ran
  | settle reading arrives =>
    obtain ⟨r,_,taken⟩ := Option.bind_eq_some_iff.mp taken
    obtain ⟨result,_,rfl⟩ := Option.map_eq_some_iff.mp taken
    exact kept

end Verdicts

theorem setCases {β : Type*} {calls : List β} {index call call'} (found : calls[index]? = some call) {j : Nat} {other}
    (there : (calls.set index call')[j]? = some other) : j = index ∧ other = call' ∨ j ≠ index ∧ calls[j]? = some other := by
  rw [setCall found] at there
  split at there
  · rename_i same
    exact .inl ⟨same,(Option.some.inj there).symm⟩
  · rename_i apart
    exact .inr ⟨apart,there⟩

section Calls
variable {c : Consumer σ α μ ρ}

structure Numbered (c : Consumer σ α μ ρ) : Prop where
  works : ∀ {s a t}, c.step s a = some t → c.calls s ≤ c.calls t ∧
    ∀ call result, c.result s call = some result → c.result t call = some result
  enters : ∀ s m, c.calls s ≤ c.calls (c.enters s m).1 ∧
    ((c.enters s m).2 = none → c.calls s < c.calls (c.enters s m).1) ∧
    ∀ call result, c.result s call = some result → c.result (c.enters s m).1 call = some result

def Apart (a b : Reading ρ) : Prop := ∀ call, a.entry = .inl call → b.entry ≠ .inl call

structure Tallied (c : Consumer σ α μ ρ) (w : Desk σ μ ρ) : Prop where
  bounded : ∀ r ∈ w.readings, ∀ call, r.entry = .inl call → call < c.calls w.service
  apart : w.readings.Pairwise Apart
  counted : ∀ r ∈ w.readings, ∀ result, r.counted = some result →
    r.entry = .inr result ∨ ∃ call, r.entry = .inl call ∧ c.result w.service call = some result
  decided : ∀ r ∈ w.readings, ∀ result, r.entry = .inr result → ∃ s m, (c.enters s m).2 = some result

theorem talliedStep (numbered : Numbered c) {w t : Desk σ μ ρ} {label} (tallied : Tallied c w)
    (taken : w.step c label = some t) : Tallied c t := by
  obtain ⟨bounded,apart,counted,decided⟩ := tallied
  cases label with
  | publish message =>
    cases Option.some.inj taken
    exact ⟨bounded,apart,counted,decided⟩
  | receive message =>
    simp only [Desk.step] at taken
    split at taken
    · contradiction
    obtain ⟨m,_,rfl⟩ := Option.map_eq_some_iff.mp taken
    obtain ⟨grows,fresh,lasts⟩ := numbered.enters w.service m
    have mine : ∀ {call}, ((c.enters w.service m).2).elim (.inl (c.calls w.service)) Sum.inr = Sum.inl call →
        call = c.calls w.service ∧ call < c.calls (c.enters w.service m).1 := by
      intro call entry
      cases first : (c.enters w.service m).2 with
      | none =>
        rw [first] at entry
        cases Sum.inl.inj entry
        exact ⟨rfl,fresh first⟩
      | some result =>
        rw [first] at entry
        cases entry
    refine ⟨?_,?_,?_,?_⟩
    · intro r member call entry
      rcases List.mem_append.mp member with old | new
      · exact Nat.lt_of_lt_of_le (bounded r old call entry) grows
      · cases List.mem_singleton.mp new
        exact (mine entry).2
    · refine List.pairwise_append.mpr ⟨apart,List.pairwise_singleton ..,?_⟩
      rintro a old b new call entry entry'
      cases List.mem_singleton.mp new
      exact absurd (mine entry').1 (Nat.ne_of_lt (bounded a old call entry))
    · intro r member result states
      rcases List.mem_append.mp member with old | new
      · exact (counted r old result states).imp_right (fun ⟨call,entry,ends⟩ => ⟨call,entry,lasts call result ends⟩)
      · cases List.mem_singleton.mp new
        cases states
    · intro r member result entry
      rcases List.mem_append.mp member with old | new
      · exact decided r old result entry
      · cases List.mem_singleton.mp new
        refine ⟨w.service,m,?_⟩
        cases first : (c.enters w.service m).2 with
        | none =>
          simp only [first,Option.elim_none] at entry
          cases entry
        | some result' =>
          simp only [first,Option.elim_some] at entry
          cases entry
          rfl
  | work label =>
    obtain ⟨service,ran,rfl⟩ := Option.map_eq_some_iff.mp taken
    obtain ⟨grows,lasts⟩ := numbered.works ran
    refine ⟨fun r member call entry => Nat.lt_of_lt_of_le (bounded r member call entry) grows,apart,?_,decided⟩
    intro r member result states
    exact (counted r member result states).imp_right (fun ⟨call,entry,ends⟩ => ⟨call,entry,lasts call result ends⟩)
  | settle reading arrives =>
    obtain ⟨r,found,taken⟩ := Option.bind_eq_some_iff.mp taken
    obtain ⟨result,ends,rfl⟩ := Option.map_eq_some_iff.mp taken
    have member := List.mem_of_getElem? found
    refine ⟨?_,?_,?_,?_⟩
    · intro r' member' call entry
      rcases List.mem_or_eq_of_mem_set member' with old | rfl
      · exact bounded r' old call entry
      · exact bounded r member call entry
    · have same : (w.readings.set reading {r with counted := some result}).map Reading.entry = w.readings.map Reading.entry := by
        rw [List.map_set]
        refine List.ext_getElem? ?_
        intro i
        rw [List.getElem?_set]
        split
        · rename_i here
          subst here
          simp only [List.length_map,List.getElem?_map,found,Option.map_some]
          rw [if_pos (List.getElem?_eq_some_iff.mp found).1]
        · rfl
      have entries : ∀ {l : List (Reading ρ)}, l.Pairwise Apart ↔
          (l.map Reading.entry).Pairwise (fun a b => ∀ call, a = .inl call → b ≠ .inl call) := by
        intro l
        rw [List.pairwise_map]
        rfl
      rw [entries,same,← entries]
      exact apart
    · intro r' member' result' states
      rcases List.mem_or_eq_of_mem_set member' with old | rfl
      · exact counted r' old result' states
      · cases Option.some.inj states
        unfold Desk.result at ends
        split at ends
        · contradiction
        · rename_i call _ entry
          exact .inr ⟨call,entry,ends⟩
        · rename_i entry
          cases Option.some.inj ends
          exact .inl entry
    · intro r' member' result' entry
      rcases List.mem_or_eq_of_mem_set member' with old | rfl
      · exact decided r' old result' entry
      · exact decided r member result' entry

theorem talliedRun (numbered : Numbered c) {guard s labels} {w : Desk σ μ ρ}
    (run : Run (Desk.step c) guard (Desk.opened s) labels w) : Tallied c w :=
  run.preserves (Tallied c) (fun _ _ _ tallied _ taken => talliedStep numbered tallied taken)
    ⟨by simp [Desk.opened],.nil,by simp [Desk.opened],by simp [Desk.opened]⟩

theorem Tallied.same {w : Desk σ μ ρ} (tallied : Tallied c w) {i j : Nat} {a b call} (left : w.readings[i]? = some a)
    (right : w.readings[j]? = some b) (entry : a.entry = .inl call) (entry' : b.entry = .inl call) : i = j := by
  obtain ⟨below,rfl⟩ := List.getElem?_eq_some_iff.mp left
  obtain ⟨below',rfl⟩ := List.getElem?_eq_some_iff.mp right
  have apart := List.pairwise_iff_getElem.mp tallied.apart
  rcases Nat.lt_trichotomy i j with less | same | more
  · exact absurd entry' (apart i j below below' less call entry)
  · exact same
  · exact absurd entry (apart j i below' below more call entry')

end Calls

section Draining
variable {c : Consumer σ α μ ρ} {w : Desk σ μ ρ} {guard : Desk σ μ ρ → Label α μ → Prop}

/- The guard is about what is sent, and about nothing else. -/
def Quiet (guard : Desk σ μ ρ → Label α μ → Prop) : Prop := ∀ w label, (∀ m, label ≠ .publish m) → guard w label

theorem quietFree : Quiet (free : Desk σ μ ρ → Label α μ → Prop) := fun _ _ _ => trivial

theorem workRun (quiet : Quiet guard) {s labels t} (run : Run c.step free s labels t) (here : w.service = s) :
    Run (Desk.step c) guard w (labels.map .work) {w with service := t} := by
  induction run generalizing w with
  | nil s =>
    subst here
    exact .nil w
  | @cons s a t rest u _ taken later ih =>
    subst here
    exact .cons (quiet w _ (by simp)) (congrArg (Option.map _) taken) (ih (w := {w with service := t}) rfl)

theorem settleArrives {i r result verdict} (found : w.readings[i]? = some r) (ends : w.result c r = some result)
    (states : c.verdict result = some verdict) (open_ : ¬w.Settled r.message) :
    w.step c (.settle i true) = some
      {w with
        settled := w.settled ++ [(r.message,verdict)], readings := w.readings.set i {r with counted := some result}} := by
  simp only [Desk.step,found,Option.bind_some,ends,Option.map_some,if_true,Desk.settle,states,if_neg open_]

theorem receives {message m} (there : w.sent[message]? = some m) (open_ : ¬w.Settled message) :
    w.step c (.receive message) = some
      {w with
        service := (c.enters w.service m).1
        readings := w.readings ++ [⟨message,((c.enters w.service m).2).elim (.inl (c.calls w.service)) .inr,none⟩]} := by
  simp only [Desk.step,if_neg open_,there,Option.map_some]

theorem settles (quiet : Quiet guard) {message m labels t result verdict} (there : w.sent[message]? = some m) (open_ : ¬w.Settled message)
    (run : Run c.step free (c.enters w.service m).1 labels t)
    (ends : (c.enters w.service m).2 = some result ∨
      (c.enters w.service m).2 = none ∧ c.result t (c.calls w.service) = some result)
    (states : c.verdict result = some verdict) :
    ∃ labels' u, Run (Desk.step c) guard w labels' u ∧ u.service = t ∧ u.sent = w.sent ∧
      u.settled = w.settled ++ [(message,verdict)] := by
  let reading : Reading ρ := ⟨message,((c.enters w.service m).2).elim (.inl (c.calls w.service)) .inr,none⟩
  let last : Desk σ μ ρ := {w with service := t, readings := w.readings ++ [reading]}
  have worked := workRun quiet (w := {w with service := (c.enters w.service m).1, readings := w.readings ++ [reading]}) run rfl
  have result' : last.result c reading = some result := by
    rcases ends with decided | ⟨begins,ends⟩
    · simp only [Desk.result,reading,decided,Option.elim_some]
    · simp only [Desk.result,reading,begins,Option.elim_none,last,ends]
  have arrives := settleArrives (w := last) List.getElem?_concat_length result' states open_
  exact ⟨_,_,.cons (quiet w _ (by simp)) (receives there open_)
    (worked.append (.cons (quiet last _ (by simp)) arrives (.nil _))),rfl,rfl,rfl⟩

theorem drains (inv : σ → Prop) (each : ∀ (w : Desk σ μ ρ) message m, inv w.service → w.sent[message]? = some m →
      ¬w.Settled message → ∃ labels u verdict, Run (Desk.step c) guard w labels u ∧ inv u.service ∧ u.sent = w.sent ∧
        u.settled = w.settled ++ [(message,verdict)]) (start : inv w.service) :
    ∃ labels u, Run (Desk.step c) guard w labels u ∧ u.sent = w.sent ∧ ∀ message < u.sent.length, u.Settled message := by
  generalize left : ((Finset.range w.sent.length).filter (fun message => ¬w.Settled message)).card = n
  induction n using Nat.strongRecOn generalizing w with
  | ind n ih =>
    by_cases all : ∀ message < w.sent.length, w.Settled message
    · exact ⟨[],w,.nil w,rfl,all⟩
    · push Not at all
      obtain ⟨message,below,open_⟩ := all
      obtain ⟨labels,u,verdict,run,onward,sent,settled⟩ :=
        each w message w.sent[message] start (List.getElem?_eq_getElem below) open_
      have grows : ∀ other, u.Settled other ↔ w.Settled other ∨ other = message := by
        intro other
        simp [Desk.Settled,settled]
      have fewer : ((Finset.range u.sent.length).filter (fun message => ¬u.Settled message)).card < n := by
        rw [← left,sent]
        refine Finset.card_lt_card (Finset.ssubset_iff_subset_ne.mpr ⟨?_,?_⟩)
        · intro other member
          simp only [Finset.mem_filter,grows,not_or] at member ⊢
          exact ⟨member.1,member.2.1⟩
        · intro same
          have mine : message ∈ (Finset.range w.sent.length).filter (fun message => ¬w.Settled message) :=
            Finset.mem_filter.mpr ⟨Finset.mem_range.mpr below,open_⟩
          rw [← same] at mine
          exact (Finset.mem_filter.mp mine).2 ((grows message).mpr (.inr rfl))
      obtain ⟨labels',v,later,sent',done⟩ := ih _ fewer onward rfl
      exact ⟨labels ++ labels',v,run.append later,sent'.trans sent,done⟩

end Draining
end Delivery
