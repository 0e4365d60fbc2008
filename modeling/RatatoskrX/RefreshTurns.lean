import RatatoskrX.RefreshFamily
import RatatoskrX.ConnectionHistory

/-! Refresh calls of one account side by side. A call holds the row lock of the active
credential from its read to the end of its transaction, the provider's answer included;
other calls start, fail and are dropped meanwhile. -/
namespace RatatoskrX.RefreshTurns
open Relational Schema Writeback Sealing Connection ConnectionMoves RefreshFamily Transition

inductive Pc where
  | lock
  | held (row : CredentialRow) (stored : CredentialPayload)
  | asked (row : CredentialRow) (stored : CredentialPayload)
  | done (outcome : Outcome)
  | dropped
  deriving DecidableEq

def Pc.locked : Pc → Option (CredentialRow × CredentialPayload)
  | held row stored => some (row,stored)
  | asked row stored => some (row,stored)
  | _ => none

def Pc.outcome : Pc → Option Outcome
  | done outcome => some outcome
  | _ => none

structure RefreshCall where
  presented : Option String
  env : RefreshAnswers
  pc : Pc

/- The vault as committed, the calls, and the turns that calls have had, in order. -/
structure World where
  vault : Vault
  calls : List RefreshCall
  turns : List Turn

inductive Label where
  | spawn (presented : Option String) (env : RefreshAnswers)
  | lock (index : Nat)
  | ask (index : Nat)
  | finish (index : Nat)
  | drop (index : Nat)

def World.held (w : World) : Bool := w.calls.any (fun c => c.pc.locked.isSome)

def World.move (w : World) (i : Nat) (call : RefreshCall) (pc : Pc) : World :=
  {w with calls := w.calls.set i {call with pc := pc}}

def World.close (w : World) (i : Nat) (call : RefreshCall) (left : Vault) (outcome : Outcome) : World where
  vault := left
  calls := w.calls.set i {call with pc := .done outcome}
  turns := w.turns ++ [⟨i,call.presented,call.env,outcome⟩]

section Steps
variable (config : Config) (account : Uuid)

def settle (w : World) (i : Nat) (call : RefreshCall) (row : CredentialRow) (stored : CredentialPayload) : World :=
  let ended := settleRefresh config account row stored call.presented call.env w.vault
  w.close i call ended.1 ended.2

def advance (w : World) (i : Nat) (call : RefreshCall) : Label → Option World
  | .lock _ => match call.pc with
    | .lock =>
      if call.env.locked ≠ .ok then some (w.close i call w.vault (.error .persistence))
      -- FOR UPDATE waits for the transaction that holds the row.
      else if w.held then none
      else match lockActiveForAccount w.vault account with
      | none => some (w.close i call w.vault (.error .credentialInactive))
      | some row => match openPayload config account row.encryptedPayload with
        | .error error => some (w.close i call w.vault (.error error))
        | .ok stored => some (w.move i call (.held row stored))
    | _ => none
  | .ask _ => match call.pc with
    | .held row stored =>
      if classify config row stored call.presented = .current then some (w.move i call (.asked row stored)) else none
    | _ => none
  | .finish _ => match call.pc with
    | .held row stored =>
      if classify config row stored call.presented = .current then none
      else some (settle config account w i call row stored)
    | .asked row stored => some (settle config account w i call row stored)
    | _ => none
  | .drop _ => match call.pc with
    | .done _ => none
    -- Dropping the future drops its transaction, which rolls back.
    | _ => some (w.move i call .dropped)
  | .spawn _ _ => none

def step (w : World) (a : Label) : Option World :=
  match a with
  | .spawn presented env => some {w with calls := w.calls ++ [⟨presented,env,.lock⟩]}
  | .lock i | .ask i | .finish i | .drop i => match w.calls[i]? with
    | none => none
    | some call => advance config account w i call a

def turnStep (v : Vault) (t : Turn) : Option Vault :=
  if (refresh config account t.presented t.env v).2 = t.outcome then some (refresh config account t.presented t.env v).1
  else none

inductive Steps (w : World) : Label → World → Prop where
  | spawned (presented env) : Steps w (.spawn presented env) {w with calls := w.calls ++ [⟨presented,env,.lock⟩]}
  | moved {a i call pc} (found : w.calls[i]? = some call) (running : call.pc.outcome = none) (unended : pc.outcome = none)
      (released : pc.locked = none ∨ pc.locked = call.pc.locked) : Steps w a (w.move i call pc)
  | acquired {a i call row stored} (found : w.calls[i]? = some call) (running : call.pc.outcome = none)
      (granted : call.env.locked = .ok) (unheld : w.held = false)
      (locked : lockActiveForAccount w.vault account = some row)
      (opened : openPayload config account row.encryptedPayload = .ok stored) :
      Steps w a (w.move i call (.held row stored))
  | refused {a i call outcome} (found : w.calls[i]? = some call) (running : call.pc.outcome = none)
      (whole : refresh config account call.presented call.env w.vault = (w.vault,outcome)) :
      Steps w a (w.close i call w.vault outcome)
  | settled {a i call row stored} (found : w.calls[i]? = some call) (running : call.pc.outcome = none)
      (holds : call.pc.locked = some (row,stored)) : Steps w a (settle config account w i call row stored)

variable {config account}

theorem lockSteps {w i call w'} (found : w.calls[i]? = some call)
    (taken : advance config account w i call (.lock i) = some w') : Steps config account w (.lock i) w' := by
  unfold advance at taken
  dsimp only at taken
  split at taken
  · rename_i waiting
    have running : call.pc.outcome = none := by rw [waiting]; rfl
    split at taken
    · rename_i unlocked
      cases Option.some.inj taken
      exact .refused found running (by unfold refresh; rw [if_pos unlocked])
    rename_i granted
    split at taken
    · simp at taken
    rename_i unheld
    split at taken
    · rename_i none
      cases Option.some.inj taken
      exact .refused found running (by unfold refresh; rw [if_neg granted,none])
    rename_i row locked
    split at taken
    · rename_i error opened
      cases Option.some.inj taken
      exact .refused found running (by unfold refresh; simp only [if_neg granted,locked,opened])
    · rename_i stored opened
      cases Option.some.inj taken
      exact .acquired found running (not_not.mp granted) (by simpa using unheld) locked opened
  · simp at taken

theorem stepCall {w w' : World} {i : Nat} {next : RefreshCall → Option World}
    (taken : (match w.calls[i]? with
      | none => none
      | some call => next call) = some w') :
    ∃ call, w.calls[i]? = some call ∧ next call = some w' := by
  split at taken
  · simp at taken
  · rename_i call found
    exact ⟨call,found,taken⟩

theorem stepCases {w a w'} (taken : step config account w a = some w') : Steps config account w a w' := by
  cases a with
  | spawn presented env =>
    cases Option.some.inj taken
    exact .spawned presented env
  | lock i =>
    obtain ⟨call,found,taken⟩ := stepCall taken
    exact lockSteps found taken
  | ask i =>
    obtain ⟨call,found,taken⟩ := stepCall taken
    dsimp only [advance] at taken
    split at taken
    · rename_i row stored here
      split at taken
      · cases Option.some.inj taken
        exact .moved found (by rw [here]; rfl) rfl (.inr (by rw [here]; rfl))
      · simp at taken
    · simp at taken
  | finish i =>
    obtain ⟨call,found,taken⟩ := stepCall taken
    dsimp only [advance] at taken
    split at taken
    · rename_i row stored here
      split at taken
      · simp at taken
      · cases Option.some.inj taken
        exact .settled found (by rw [here]; rfl) (by rw [here]; rfl)
    · rename_i row stored here
      cases Option.some.inj taken
      exact .settled found (by rw [here]; rfl) (by rw [here]; rfl)
    · simp at taken
  | drop i =>
    obtain ⟨call,found,taken⟩ := stepCall taken
    dsimp only [advance] at taken
    split at taken
    · simp at taken
    · rename_i unfinished
      cases Option.some.inj taken
      refine .moved found ?_ rfl (.inl rfl)
      cases here : call.pc with
      | done outcome => exact absurd here (unfinished outcome)
      | _ => rfl

end Steps

section Serial
variable (config : Config) (account : Uuid)

/- The calls take effect one at a time: the turns in their order, each a whole call, lead
from the start to the vault; a call that ended had its turn, once; one call at most holds
the row, and what it read still stands. -/
structure Serial (start : Vault) (w : World) : Prop where
  turns : Run (turnStep config account) free start w.turns w.vault
  sole : ∀ {i j : Nat} {c d : RefreshCall}, w.calls[i]? = some c → w.calls[j]? = some d → c.pc.locked.isSome →
    d.pc.locked.isSome → i = j
  reads : ∀ {i : Nat} {c : RefreshCall} {row stored}, w.calls[i]? = some c → c.pc.locked = some (row,stored) →
    c.env.locked = .ok ∧ lockActiveForAccount w.vault account = some row ∧
      openPayload config account row.encryptedPayload = .ok stored
  logged : ∀ t ∈ w.turns, w.calls[t.index]? = some ⟨t.presented,t.env,.done t.outcome⟩
  ended : ∀ {i : Nat} {c : RefreshCall} {outcome}, w.calls[i]? = some c → c.pc.outcome = some outcome →
    ⟨i,c.presented,c.env,outcome⟩ ∈ w.turns
  once : (w.turns.map Turn.index).Nodup

variable {config account} {start : Vault} {w : World}

theorem unheldNone {w : World} (unheld : w.held = false) {j : Nat} {d : RefreshCall} (there : w.calls[j]? = some d) :
    d.pc.locked = none := by
  have none := List.any_eq_false.mp unheld d (List.mem_of_getElem? there)
  simpa using none

theorem Serial.unlogged (serial : Serial config account start w) {i : Nat} {call : RefreshCall}
    (found : w.calls[i]? = some call) (running : call.pc.outcome = none) {t} (member : t ∈ w.turns) : t.index ≠ i := by
  intro same
  have logged := serial.logged t member
  rw [same,found] at logged
  cases Option.some.inj logged
  simp [Pc.outcome] at running

theorem spawnedCall {calls : List RefreshCall} {fresh d} {j : Nat} (there : (calls ++ [fresh])[j]? = some d) :
    calls[j]? = some d ∨ d = fresh := by
  rw [List.getElem?_append] at there
  split at there
  · exact .inl there
  · right
    have member := List.mem_of_getElem? there
    simpa using member

theorem serialSpawn (serial : Serial config account start w) (presented env) :
    Serial config account start {w with calls := w.calls ++ [⟨presented,env,.lock⟩]} where
  turns := serial.turns
  sole := by
    intro i j c d left right holds holds'
    rcases spawnedCall left with left | rfl
    · rcases spawnedCall right with right | rfl
      · exact serial.sole left right holds holds'
      · simp [Pc.locked] at holds'
    · simp [Pc.locked] at holds
  reads := by
    intro i c row stored there holds
    rcases spawnedCall there with there | rfl
    · exact serial.reads there holds
    · simp [Pc.locked] at holds
  logged := by
    intro t member
    have there := serial.logged t member
    exact (List.getElem?_append_left (List.getElem?_eq_some_iff.mp there).1).trans there
  ended := by
    intro i c outcome there done
    rcases spawnedCall there with there | rfl
    · exact serial.ended there done
    · simp [Pc.outcome] at done
  once := serial.once

theorem serialMove (serial : Serial config account start w) {i : Nat} {call : RefreshCall} {pc}
    (found : w.calls[i]? = some call) (running : call.pc.outcome = none) (unended : pc.outcome = none)
    (sole : pc.locked.isSome → ∀ {j : Nat} {d : RefreshCall}, w.calls[j]? = some d → d.pc.locked.isSome → j = i)
    (reads : ∀ {row stored}, pc.locked = some (row,stored) → call.env.locked = .ok ∧
      lockActiveForAccount w.vault account = some row ∧ openPayload config account row.encryptedPayload = .ok stored) :
    Serial config account start (w.move i call pc) where
  turns := serial.turns
  sole := by
    intro j k c d left right holds holds'
    simp only [World.move,setCall found] at left right
    split at left
    · rename_i here
      cases Option.some.inj left
      split at right
      · rename_i here'
        exact here.trans here'.symm
      · exact here.trans (sole holds right holds').symm
    · split at right
      · rename_i here'
        cases Option.some.inj right
        exact (sole holds' left holds).trans here'.symm
      · exact serial.sole left right holds holds'
  reads := by
    intro j c row stored there holds
    simp only [World.move,setCall found] at there
    split at there
    · cases Option.some.inj there
      exact reads holds
    · exact serial.reads there holds
  logged := by
    intro t member
    simp only [World.move,setCall found]
    rw [if_neg (serial.unlogged found running member)]
    exact serial.logged t member
  ended := by
    intro j c outcome there done
    simp only [World.move,setCall found] at there
    split at there
    · cases Option.some.inj there
      simp [unended] at done
    · exact serial.ended there done
  once := serial.once

theorem serialClose (serial : Serial config account start w) {i : Nat} {call : RefreshCall} {left outcome}
    (found : w.calls[i]? = some call) (running : call.pc.outcome = none)
    (whole : refresh config account call.presented call.env w.vault = (left,outcome))
    (undisturbed : left = w.vault ∨ call.pc.locked.isSome) :
    Serial config account start (w.close i call left outcome) where
  turns := by
    have taken : turnStep config account w.vault ⟨i,call.presented,call.env,outcome⟩ = some left := by
      simp [turnStep,whole]
    exact serial.turns.append (.cons trivial taken (.nil _))
  sole := by
    intro j k c d left right holds holds'
    simp only [World.close,setCall found] at left right
    split at left
    · cases Option.some.inj left
      simp [Pc.locked] at holds
    · split at right
      · cases Option.some.inj right
        simp [Pc.locked] at holds'
      · exact serial.sole left right holds holds'
  reads := by
    intro j c row stored there holds
    simp only [World.close,setCall found] at there ⊢
    split at there
    · cases Option.some.inj there
      simp [Pc.locked] at holds
    · rename_i other
      rcases undisturbed with rfl | held
      · exact serial.reads there holds
      · exact absurd (serial.sole there found (by rw [holds]; rfl) held) other
  logged := by
    intro t member
    simp only [World.close,setCall found]
    rcases List.mem_append.mp member with before | last
    · rw [if_neg (serial.unlogged found running before)]
      exact serial.logged t before
    · cases List.mem_singleton.mp last
      rw [if_pos rfl]
  ended := by
    intro j c o there done
    simp only [World.close,setCall found] at there ⊢
    split at there
    · rename_i here
      subst here
      cases Option.some.inj there
      cases Option.some.inj done
      simp
    · exact List.mem_append_left _ (serial.ended there done)
  once := by
    simp only [World.close,List.map_append,List.map_cons,List.map_nil]
    refine List.nodup_append.mpr ⟨serial.once,by simp,?_⟩
    intro index member last here same
    obtain ⟨t,inside,rfl⟩ := List.mem_map.mp member
    cases List.mem_singleton.mp here
    exact serial.unlogged found running inside same

theorem serialStep (serial : Serial config account start w) {a w'} (taken : step config account w a = some w') :
    Serial config account start w' := by
  cases stepCases taken with
  | spawned presented env => exact serialSpawn serial presented env
  | @moved _ i call pc found running unended released =>
    refine serialMove serial found running unended ?_ ?_
    · intro holds j d there holds'
      rcases released with none | same
      · simp [none] at holds
      · exact serial.sole there found holds' (same ▸ holds)
    · intro row stored holds
      rcases released with none | same
      · simp [none] at holds
      · exact serial.reads found (same ▸ holds)
  | @acquired _ i call row stored found running granted unheld locked opened =>
    refine serialMove serial found running rfl ?_ ?_
    · intro _ j d there holds
      simp [unheldNone unheld there] at holds
    · intro row' stored' holds
      cases Option.some.inj holds
      exact ⟨granted,locked,opened⟩
  | refused found running whole => exact serialClose serial found running whole (.inl rfl)
  | @settled _ i call row stored found running holds =>
    obtain ⟨granted,locked,opened⟩ := serial.reads found holds
    refine serialClose serial found running ?_ (.inr (by rw [holds]; rfl))
    unfold refresh
    simp only [ne_eq,granted,not_true_eq_false,if_false,locked,opened]

theorem serialRun {labels} (run : Run (step config account) free ⟨start,[],[]⟩ labels w) :
    Serial config account start w := by
  refine run.preserves (Serial config account start) ?_ ?_
  · intro s a t serial _ taken
    exact serialStep serial taken
  · exact ⟨.nil _,by simp,by simp,by simp,by simp,by simp⟩

end Serial

section Histories
variable (config : Config) (account id : Uuid)

/- What one turn does to the vault, by what it presents to the family it finds. -/
structure Honoured (f : Family) (v : Vault) (t : Turn) (after : Vault) : Prop where
  -- The token retired last, presented once it is no longer the current one, ends the family.
  replayed : f.standing = .active → t.env.locked = .ok → t.env.committed ≠ .fault →
    ∀ token, t.presented = some token → token ≠ f.current.refreshToken → f.retired = some token →
      after = setAccountState (scrubRevoke v id) account .reauthRequired ∧
        (t.env.committed = .ok → t.outcome = .error .refreshReplay)
  -- Any other token that is not the current one is refused.
  stale : ∀ token, t.presented = some token → token ≠ f.current.refreshToken → f.retired ≠ some token → after = v
  failed : f.token t.presented = f.current.refreshToken →
    ∀ failure, t.env.tokens = .error failure → failure ≠ .upstreamInvalidation → after = v
  invalidated : f.standing = .active → t.env.locked = .ok → t.env.committed ≠ .fault →
    f.token t.presented = f.current.refreshToken → t.env.tokens = .error .upstreamInvalidation →
      after = setAccountState (markExpired v id) account .reauthRequired
  rotated : ∀ p, f.rotation t.presented t.env = some p → ∃ response, t.env.tokens = .ok response ∧ response.payload = p
  succeeded : t.outcome = .ok ↔ t.env.committed = .ok ∧ ∃ p, f.rotation t.presented t.env = some p
  -- A call that presents no token adopts the current one.
  adopted : t.presented = none → t.outcome ≠ .error .refreshReplay ∧
    ((f.turn t.presented t.env).standing = .revoked → f.standing = .revoked)

/- What a credential holds after the pairs that have replaced the first: the newest of them,
and the hash of the refresh token of the one before. -/
structure Chained (first : Family) (pairs : List CredentialPayload) (row : CredentialRow) : Prop where
  newest : row.status ≠ .revoked → ∃ p, (first.current::pairs)[pairs.length]? = some p ∧
    openPayload config account row.encryptedPayload = .ok p
  replaced : ∀ n, pairs.length = n + 1 → ∃ p, (first.current::pairs)[n]? = some p ∧
    row.supersededRefreshHash = some (refreshHash config p.refreshToken)
  unreplaced : pairs = [] → row.supersededRefreshHash = first.retired.map (refreshHash config)

variable {config account id} {v after : Vault} {f : Family}

theorem chained (turns : List Turn) {row} (shown : Shows config account id v (f.play turns) row) :
    Chained config account f (f.rotations turns) row := by
  obtain ⟨current,unreplaced,replaced⟩ := f.playChain turns
  constructor
  · intro kept
    refine ⟨_,current,?_⟩
    have stored := shown.payload
    rwa [if_neg (shown.standing ▸ kept)] at stored
  · intro n length
    obtain ⟨p,found,same⟩ := replaced n length
    exact ⟨p,found,by rw [shown.retired,same]; rfl⟩
  · intro none
    rw [shown.retired,unreplaced none]

/- The tokens of a family and of a turn are among those at hand. -/
def FamilyKnown (tokens : List String) (f : Family) : Prop :=
  f.current.refreshToken ∈ tokens ∧ ∀ t, f.retired = some t → t ∈ tokens

def CallKnown (tokens : List String) (presented : Option String) (env : RefreshAnswers) : Prop :=
  (∀ t, presented = some t → t ∈ tokens) ∧ ∀ response, env.tokens = .ok response → response.refreshToken ∈ tokens

theorem rotationAnswer {presented env p} (swapped : f.rotation presented env = some p) :
    ∃ response, env.tokens = .ok response ∧ response.payload = p := by
  unfold Family.rotation Family.exit at swapped
  split at swapped
  · simp at swapped
  · split at swapped
    · rename_i response expiresAt taken
      cases Option.some.inj swapped
      split at taken
      · simp at taken
      split at taken
      · simp at taken
      split at taken
      · split at taken <;> simp at taken
      split at taken
      · simp at taken
      · simp at taken
      · rename_i answer answered
        split at taken
        · simp at taken
        · cases taken
          exact ⟨response,answered,rfl⟩
    · simp at swapped

theorem replayedToken {presented env} (replay : f.exit presented env = .replayed) :
    f.token presented ≠ f.current.refreshToken := by
  intro current
  unfold Family.exit at replay
  rw [if_neg (not_not.mpr current)] at replay
  split at replay
  · simp at replay
  split at replay
  · simp at replay
  split at replay
  · simp at replay
  · simp at replay
  · split at replay <;> simp at replay

theorem endedReplay {ack} {e : Exit} (same : e.ended ack = .error .refreshReplay) : e = .replayed := by
  cases e with
  | replayed => rfl
  | failed failure => cases failure <;> simp [Exit.ended,ProviderFailure.flow] at same
  | _ => cases ack <;> simp [Exit.ended,acknowledged] at same

theorem turnKnown {tokens presented env} (known : FamilyKnown tokens f) (call : CallKnown tokens presented env) :
    FamilyKnown tokens (f.turn presented env) := by
  cases swapped : f.rotation presented env with
  | none =>
    obtain ⟨kept,same⟩ := Family.turnUnrotated swapped
    unfold FamilyKnown
    rw [kept,same]
    exact known
  | some p =>
    obtain ⟨response,answered,rfl⟩ := rotationAnswer swapped
    rw [Family.rotationTurn swapped]
    refine ⟨call.2 response answered,?_⟩
    intro t same
    cases Option.some.inj same
    exact known.1

theorem turnExit {t tokens} (shown : Represents config account id v f) (digests : DigestsApart config tokens)
    (known : FamilyKnown tokens f) (call : CallKnown tokens t.presented t.env)
    (taken : turnStep config account v t = some after) :
    after = (if t.env.committed = .fault then v
        else (f.exit t.presented t.env).effect config account id f t.env.nonce v) ∧
      t.outcome = (f.exit t.presented t.env).ended t.env.committed := by
  have whole := refreshExit shown digests call.1 known.2 t.env
  unfold turnStep at taken
  rw [whole] at taken
  simp only [Option.ite_none_right_eq_some,Option.some.injEq] at taken
  exact ⟨taken.2.symm,taken.1.symm⟩

theorem playShows {tokens turns} (digests : DigestsApart config tokens)
    (run : Run (turnStep config account) free v turns after) (shown : Represents config account id v f)
    (known : FamilyKnown tokens f) (calls : ∀ t ∈ turns, CallKnown tokens t.presented t.env) :
    Represents config account id after (f.play turns) ∧ FamilyKnown tokens (f.play turns) := by
  induction run generalizing f with
  | nil s => exact ⟨shown,known⟩
  | @cons s t u rest last _ taken later ih =>
    have call := calls t List.mem_cons_self
    have next : Represents config account id u (f.turn t.presented t.env) := by
      rw [(turnExit shown digests known call taken).1]
      exact turnShows shown t.presented t.env
    exact ih next (turnKnown known call) (fun t' member => calls t' (List.mem_cons_of_mem _ member))

theorem honoured {t tokens} (shown : Represents config account id v f) (digests : DigestsApart config tokens)
    (known : FamilyKnown tokens f) (call : CallKnown tokens t.presented t.env)
    (taken : turnStep config account v t = some after) : Honoured account id f v t after := by
  obtain ⟨left,returned⟩ := turnExit shown digests known call taken
  have unwritten : (f.exit t.presented t.env).effect config account id f t.env.nonce v = v → after = v := by
    intro quiet
    rw [left,quiet,ite_self]
  constructor
  · intro active granted committed token presented other retired
    have exited : f.exit t.presented t.env = .replayed := by
      simp [Family.exit,Family.token,granted,active,presented,other,retired]
    rw [exited,if_neg committed] at left
    rw [exited] at returned
    refine ⟨left,?_⟩
    intro acked
    rw [returned,acked]
    rfl
  · intro token presented other unretired
    apply unwritten
    unfold Family.exit
    split
    · rfl
    split
    · rfl
    · simp [Family.token,presented,other,unretired,Exit.effect]
  · intro current failure failed transient
    apply unwritten
    unfold Family.exit
    split
    · rfl
    split
    · rfl
    · rw [if_neg (not_not.mpr current),failed]
      cases failure with
      | upstreamInvalidation => exact absurd rfl transient
      | transport | malformedProviderResponse => rfl
  · intro active granted committed current invalid
    have exited : f.exit t.presented t.env = .invalidated := by
      simp [Family.exit,granted,active,current,invalid]
    rw [exited,if_neg committed] at left
    exact left
  · intro p swapped
    exact rotationAnswer swapped
  · rw [returned]
    unfold Family.rotation
    cases f.exit t.presented t.env with
    | failed failure => cases failure <;> simp [Exit.ended,ProviderFailure.flow]
    | _ => cases t.env.committed <;> simp [Exit.ended,acknowledged]
  · intro presented
    have adopts : f.exit t.presented t.env ≠ .replayed := by
      intro replay
      refine replayedToken replay ?_
      rw [presented]
      rfl
    constructor
    · rw [returned]
      intro same
      exact adopts (endedReplay same)
    · intro scrubbed
      unfold Family.turn at scrubbed
      split at scrubbed
      · exact scrubbed
      · cases exited : f.exit t.presented t.env with
        | replayed => exact absurd exited adopts
        | invalidated => simp [exited,Family.take] at scrubbed
        | _ => simpa [exited,Family.take] using scrubbed

end Histories

section Tokens
variable {config : Config} {account : Uuid} {start : Vault} {w : World}

def answeredToken : Except ProviderFailure TokenResponse → Option String
  | .ok response => some response.refreshToken
  | .error _ => none

def Label.tokens : Label → List String
  | .spawn presented env => presented.toList ++ (answeredToken env.tokens).toList
  | _ => []

def CallsKnown (tokens : List String) (w : World) : Prop := ∀ c ∈ w.calls, CallKnown tokens c.presented c.env

theorem familyKnown {f : Family} {tokens} (member : f.tokens ⊆ tokens) : FamilyKnown tokens f :=
  ⟨member (by simp [Family.tokens]),fun t same => member (by simp [Family.tokens,same])⟩

theorem setKnown {tokens} (known : CallsKnown tokens w) {i : Nat} {call : RefreshCall} (found : w.calls[i]? = some call)
    {pc c} (member : c ∈ w.calls.set i {call with pc := pc}) : CallKnown tokens c.presented c.env := by
  rcases List.mem_or_eq_of_mem_set member with old | rfl
  · exact known c old
  · exact known call (List.mem_of_getElem? found)

theorem knownStep {tokens a w'} (known : CallsKnown tokens w) (within : a.tokens ⊆ tokens)
    (taken : step config account w a = some w') : CallsKnown tokens w' := by
  cases stepCases taken with
  | spawned presented env =>
    intro c member
    rcases List.mem_append.mp member with old | fresh
    · exact known c old
    · cases List.mem_singleton.mp fresh
      refine ⟨?_,?_⟩
      · intro t same
        have same' : presented = some t := same
        exact within (by simp [Label.tokens,same'])
      · intro response answered
        have answered' : env.tokens = .ok response := answered
        exact within (by simp [Label.tokens,answeredToken,answered'])
  | moved found | acquired found | refused found | settled found =>
    intro c member
    exact setKnown known found member

theorem runKnown {tokens labels} (run : Run (step config account) free ⟨start,[],[]⟩ labels w)
    (within : labels.flatMap Label.tokens ⊆ tokens) : CallsKnown tokens w := by
  have guarded : Run (step config account) (fun _ a => a.tokens ⊆ tokens) ⟨start,[],[]⟩ labels w := by
    refine run.meets _ ?_
    rintro t a v ⟨before,after,rfl,_⟩
    exact fun token member => within (List.mem_flatMap.mpr ⟨a,by simp,member⟩)
  refine guarded.preserves (CallsKnown tokens) ?_ ?_
  · intro s a t known inside taken
    exact knownStep known inside taken
  · intro c member
    simp at member

end Tokens

/- Any number of refresh calls of an account, in any interleaving and under any answers of the
provider: they take effect one at a time, the rows always show what their turns made of the
family, and each turn did to the vault what the family promises for it. -/
theorem refreshesTakeTurns (config : Config) (account id : Uuid) {start : Vault} {f : Family} {labels w}
    (shown : Represents config account id start f)
    (digests : DigestsApart config (f.tokens ++ labels.flatMap Label.tokens))
    (run : Run (step config account) free ⟨start,[],[]⟩ labels w) :
    Serial config account start w ∧
    (∃ row, Shows config account id w.vault (f.play w.turns) row ∧
      Chained config account f (f.rotations w.turns) row) ∧
    ∀ before t after, w.turns = before ++ t::after → ∃ v v',
      Run (turnStep config account) free start before v ∧ Represents config account id v (f.play before) ∧
      turnStep config account v t = some v' ∧ Honoured account id (f.play before) v t v' ∧
      Run (turnStep config account) free v' after w.vault := by
  have serial := serialRun run
  have known : FamilyKnown (f.tokens ++ labels.flatMap Label.tokens) f :=
    familyKnown (List.subset_append_left ..)
  have calls : ∀ t ∈ w.turns, CallKnown (f.tokens ++ labels.flatMap Label.tokens) t.presented t.env := by
    intro t member
    exact runKnown run (List.subset_append_right ..) _ (List.mem_of_getElem? (serial.logged t member))
  obtain ⟨⟨row,last⟩,_⟩ := playShows digests serial.turns shown known calls
  refine ⟨serial,⟨row,last,chained w.turns last⟩,?_⟩
  intro before t after split
  have turns := serial.turns
  rw [split] at turns calls
  obtain ⟨v,first,rest⟩ := turns.split
  obtain ⟨there,knownThen⟩ := playShows digests first shown known
    (fun t' member => calls t' (List.mem_append_left _ member))
  cases rest with
  | @cons _ _ v' _ _ _ taken later =>
    have call := calls t (by simp)
    exact ⟨v,v',first,there,taken,honoured there digests knownThen call taken,later⟩

section Race
open ConnectionHistory (sampleExchange sampleVault firstResponse secondResponse thirdResponse)

def connectedVault : Vault := ((sampleExchange firstResponse 1).run sampleService sampleVault).1

def connectedFamily : Family := ⟨samplePair 1,none,.active,.connected⟩

def sampleAnswers (r : TokenResponse) (n : UInt8) : RefreshAnswers := ⟨.ok,.ok r,sampleNonce n,Schedule.sampleInstant,.ok⟩

/- Two callers race; then a late one presents the first token, and another the second. -/
def race : List Label :=
  [.spawn (some "refresh-1") (sampleAnswers secondResponse 2),.spawn none (sampleAnswers thirdResponse 3),.lock 0,.ask 0,
    .spawn (some "refresh-1") (sampleAnswers thirdResponse 3),.finish 0,.lock 1,.ask 1,.finish 1,.lock 2,.finish 2,
    .spawn (some "refresh-2") (sampleAnswers firstResponse 1),.lock 3,.finish 3]

def raceEnd : World := (replay (step sampleService 1) free ⟨connectedVault,[],[]⟩ race).get (by decide +kernel)

theorem connectedShows : Represents sampleService 1 1 connectedVault connectedFamily :=
  ⟨(connectedVault.credentials.find 1).get (by decide +kernel),Option.some_get _|>.symm,by decide +kernel,by decide +kernel,
    by decide +kernel,by decide +kernel,⟨1,7,"user-1",.connected⟩,by decide +kernel,rfl⟩

theorem raceDigests : DigestsApart sampleService (connectedFamily.tokens ++ race.flatMap Label.tokens) :=
  ⟨by decide +kernel,by decide +kernel⟩

theorem refreshesTakeTurnsRacing :
    raceEnd.turns.map Turn.outcome = [.ok,.ok,.error .staleRefreshToken,.error .refreshReplay] ∧
    connectedFamily.rotations raceEnd.turns = [samplePair 2,samplePair 3] ∧
    Serial sampleService 1 connectedVault raceEnd ∧
    ∃ row, Shows sampleService 1 1 raceEnd.vault (connectedFamily.play raceEnd.turns) row ∧
      Chained sampleService 1 connectedFamily (connectedFamily.rotations raceEnd.turns) row :=
  have run : Run (step sampleService 1) free ⟨connectedVault,[],[]⟩ race raceEnd := replayRun (Option.some_get _).symm
  have settled := refreshesTakeTurns sampleService 1 1 connectedShows raceDigests run
  ⟨by decide +kernel,by decide +kernel,settled.1,settled.2.1⟩

end Race
end RatatoskrX.RefreshTurns
