import RatatoskrX.Callbacks

/-! Single use of an intent. Lookup, expiry check and consumption of a presentation are
separate steps on a row without a lock, so the invariant ties each presentation under way
to the row that it found, and each consumption to the presentation that won it. -/
namespace RatatoskrX.CallbackRuns
open Relational Schema Writeback Sealing Connection Transition Callbacks

section Moves
variable (config : Config)

/- What a step of resolve_callback can do. -/
inductive Resolved (w : World) (index : Nat) (call : Presentation) (ack : Ack) : World → Prop where
  | unmatched (pc : call.pc = .find) (none : findIntentByStateHash w.intents (stateDigest config call.state) = none) :
      Resolved w index call ack (w.move index call (.done (.ok .unmatched)))
  | found (pc : call.pc = .find) {intent}
      (found : findIntentByStateHash w.intents (stateDigest config call.state) = some intent) :
      Resolved w index call ack (w.move index call (.check intent))
  | failed (open_ : ∀ result, call.pc ≠ .done result) :
      Resolved w index call ack (w.move index call (.done (.error .persistence)))
  | expired {intent} (pc : call.pc = .check intent) (late : intent.expiresAt ≤ w.clock) :
      Resolved w index call ack (w.move index {call with checkedAt := some w.clock} (.done (.ok .expired)))
  | timely {intent} (pc : call.pc = .check intent) (early : w.clock < intent.expiresAt) :
      Resolved w index call ack (w.move index {call with checkedAt := some w.clock} (.consume intent))
  | replayed {intent} (pc : call.pc = .consume intent) (gone : w.intents.table.rows.any (unconsumed intent.id) = false) :
      Resolved w index call ack (w.move index call (.done (.ok .replayed)))
  | consumed {intent result} (pc : call.pc = .consume intent)
      (live : w.intents.table.rows.any (unconsumed intent.id) = true)
      (returns : result = acceptance config intent ∨ result = .error .persistence) :
      Resolved w index call ack {w.move index call (.done result) with
        intents := (consumeIntent w.intents intent.id w.clock).1, consumptions := w.consumptions ++ [(intent.id,index)]}

variable {config} {w v : World} {index : Nat} {call : Presentation} {ack : Ack}

theorem resolveCases (taken : resolve config w index call ack = some v) : Resolved config w index call ack v := by
  unfold resolve at taken
  split at taken
  · rename_i pc
    split at taken
    · rename_i none
      cases Option.some.inj taken
      exact .unmatched pc none
    · rename_i intent found
      cases Option.some.inj taken
      exact .found pc found
  · rename_i pc _
    cases Option.some.inj taken
    exact .failed (by simp [pc])
  · rename_i intent pc
    dsimp only at taken
    split at taken
    · rename_i late
      cases Option.some.inj taken
      exact .expired pc late
    · rename_i early
      cases Option.some.inj taken
      exact .timely pc (Int.not_le.mp early)
  · simp at taken
  · rename_i intent pc
    cases Option.some.inj taken
    exact .failed (by simp [pc])
  · rename_i intent pc _
    unfold consumeIntent at taken
    cases live : w.intents.table.rows.any (unconsumed intent.id) with
    | false =>
      simp only [live,Bool.false_eq_true,if_false] at taken
      cases Option.some.inj taken
      split
      · exact .replayed pc live
      · exact .failed (by simp [pc])
    | true =>
      simp only [live,if_true] at taken
      cases Option.some.inj taken
      refine .consumed pc live ?_
      split
      · exact .inl rfl
      · exact .inr rfl
  · simp at taken

end Moves

section Invariant
variable (config : Config)

/- The row of the state that was presented, as the presentation read it. -/
def Entitled (w : World) (call : Presentation) (intent : IntentRow) : Prop :=
  intent.stateHash = stateDigest config call.state ∧
    ∃ row ∈ w.intents.table.rows, {row with consumedAt := intent.consumedAt} = intent

def Early (call : Presentation) (intent : IntentRow) : Prop := ∃ t, call.checkedAt = some t ∧ t < intent.expiresAt

def Lost (w : World) (index : Nat) : Prop := ∀ id, (id,index) ∉ w.consumptions

/- What a presentation knows at each of its control points. -/
def Stage (w : World) (index : Nat) (call : Presentation) : Pc → Prop
  | .find => call.checkedAt = none ∧ Lost w index
  | .check intent => call.checkedAt = none ∧ Lost w index ∧ Entitled config w call intent
  | .consume intent => Early call intent ∧ Lost w index ∧ Entitled config w call intent
  | .done (.ok .unmatched) => call.checkedAt = none ∧ call.issued = false ∧ Lost w index
  | .done (.ok .expired) =>
    Lost w index ∧ ∃ intent t, Entitled config w call intent ∧ call.checkedAt = some t ∧ intent.expiresAt ≤ t
  | .done (.ok .replayed) => Lost w index ∧ ∃ intent, Entitled config w call intent ∧ Early call intent
  | .done (.ok (.accepted callback)) => ∃ intent, Entitled config w call intent ∧ Early call intent ∧
    callback.accepted.intentId = intent.id ∧ (intent.id,index) ∈ w.consumptions
  | .done (.error error) => error = .persistence

structure CallSound (w : World) (index : Nat) (call : Presentation) : Prop where
  presented : call.presentedAt ≤ w.clock
  checked : ∀ t, call.checkedAt = some t → call.presentedAt ≤ t
  issued : call.issued = true → ∃ row ∈ w.intents.table.rows, row.stateHash = stateDigest config call.state
  stage : Stage config w index call call.pc

structure Sound (w : World) : Prop where
  single : (w.consumptions.map Prod.fst).Nodup
  consumed : ∀ row ∈ w.intents.table.rows, row.consumedAt.isSome = true ↔ row.id ∈ w.consumptions.map Prod.fst
  winner : ∀ id index, (id,index) ∈ w.consumptions → ∃ call intent, w.calls[index]? = some call ∧
    Entitled config w call intent ∧ Early call intent ∧ intent.id = id
  opens : ∀ row ∈ w.intents.table.rows, ∃ callback, acceptance config row = .ok (.accepted callback) ∧
    callback.accepted.intentId = row.id
  calls : ∀ index call, w.calls[index]? = some call → CallSound config w index call

/- What a step leaves of the rows and of what one presentation consumed. -/
structure Keeps (w v : World) (index : Nat) : Prop where
  rows : ∀ row ∈ w.intents.table.rows, ∃ later ∈ v.intents.table.rows, {later with consumedAt := row.consumedAt} = row
  clock : w.clock ≤ v.clock
  log : ∀ id, (id,index) ∈ v.consumptions ↔ (id,index) ∈ w.consumptions

variable {config} {w v : World} {index : Nat} {call : Presentation} {intent : IntentRow}

theorem entitledKept (keeps : ∀ row ∈ w.intents.table.rows, ∃ later ∈ v.intents.table.rows,
    {later with consumedAt := row.consumedAt} = row) (entitled : Entitled config w call intent) :
    Entitled config v call intent := by
  obtain ⟨same,row,member,known⟩ := entitled
  obtain ⟨later,present,kept⟩ := keeps row member
  refine ⟨same,later,present,?_⟩
  rw [← known,← kept]

theorem sameIntent {other} (left : Entitled config w call intent) (right : Entitled config w call other) :
    {other with consumedAt := intent.consumedAt} = intent := by
  obtain ⟨hash,row,member,known⟩ := left
  obtain ⟨hash',row',member',known'⟩ := right
  have one : row = row' := by
    refine w.intents.states.row member member' ?_
    rw [← known] at hash
    rw [← known'] at hash'
    exact hash.trans hash'.symm
  subst one
  rw [← known',← known]

theorem rowEntitled {row} (member : row ∈ w.intents.table.rows) (hash : row.stateHash = stateDigest config call.state) :
    Entitled config w call row := ⟨hash,row,member,rfl⟩

theorem stageKept (keeps : Keeps w v index) {pc} (stage : Stage config w index call pc) : Stage config v index call pc := by
  have lost : Lost w index → Lost v index := fun idle id won => idle id ((keeps.log id).mp won)
  have entitled : ∀ intent, Entitled config w call intent → Entitled config v call intent :=
    fun intent => entitledKept keeps.rows
  cases pc with
  | find => exact ⟨stage.1,lost stage.2⟩
  | check intent => exact ⟨stage.1,lost stage.2.1,entitled intent stage.2.2⟩
  | consume intent => exact ⟨stage.1,lost stage.2.1,entitled intent stage.2.2⟩
  | done result =>
    rcases result with error | ⟨callback⟩ | _ | _ | _
    · exact stage
    · obtain ⟨intent,mine,early,same,won⟩ := stage
      exact ⟨intent,entitled intent mine,early,same,(keeps.log _).mpr won⟩
    · obtain ⟨idle,intent,t,mine,late⟩ := stage
      exact ⟨lost idle,intent,t,entitled intent mine,late⟩
    · obtain ⟨idle,intent,mine,early⟩ := stage
      exact ⟨lost idle,intent,entitled intent mine,early⟩
    · exact ⟨stage.1,stage.2.1,lost stage.2.2⟩

theorem callKept (keeps : Keeps w v index) (sound : CallSound config w index call) : CallSound config v index call where
  presented := Int.le_trans sound.presented keeps.clock
  checked := sound.checked
  issued given := by
    obtain ⟨row,member,hash⟩ := sound.issued given
    obtain ⟨later,present,kept⟩ := keeps.rows row member
    exact ⟨later,present,by rw [← hash,← kept]⟩
  stage := stageKept keeps sound.stage

end Invariant

section Preservation
variable {config : Config} {w v : World} {index : Nat} {call : Presentation}

theorem underWay (stage : Stage config w index call call.pc) (open_ : ∀ result, call.pc ≠ .done result) : Lost w index := by
  cases pc : call.pc with
  | find =>
    rw [pc] at stage
    exact stage.2
  | check intent =>
    rw [pc] at stage
    exact stage.2.1
  | consume intent =>
    rw [pc] at stage
    exact stage.2.1
  | done result => exact absurd pc (open_ result)

theorem keepsCalls (w : World) (calls index) : Keeps w {w with calls := calls} index :=
  ⟨fun row member => ⟨row,member,rfl⟩,Int.le_refl _,fun _ => Iff.rfl⟩

theorem movedSound {call' pc} (sound : Sound config w) (found : w.calls[index]? = some call) (lost : Lost w index)
    (here : CallSound config w index {call' with pc := pc}) : Sound config (w.move index call' pc) where
  single := sound.single
  consumed := sound.consumed
  winner id i won := by
    obtain ⟨other,intent,there,facts⟩ := sound.winner id i won
    have apart : i ≠ index := by
      intro same
      subst same
      exact lost id won
    refine ⟨other,intent,?_,facts⟩
    show (w.calls.set index _)[i]? = some other
    rw [setCall found,if_neg apart]
    exact there
  opens := sound.opens
  calls i other there := by
    have moved : (w.calls.set index {call' with pc := pc})[i]? = some other := there
    rw [setCall found] at moved
    split at moved
    · rename_i same
      cases Option.some.inj moved
      subst same
      exact callKept (keepsCalls ..) here
    · exact callKept (keepsCalls ..) (sound.calls i other moved)

def settled (id : Uuid) (now : DateTime) (row : IntentRow) : IntentRow :=
  if unconsumed id row then {row with consumedAt := some now} else row

theorem memConsumed {intents : Intents} {id now row} :
    row ∈ (consumeIntent intents id now).1.table.rows ↔ ∃ old ∈ intents.table.rows, settled id now old = row :=
  List.mem_map

theorem settledKeeps (id now) (row : IntentRow) : {settled id now row with consumedAt := row.consumedAt} = row := by
  unfold settled
  split
  · rfl
  · rfl

theorem settledConsumed (id now) (row : IntentRow) :
    (settled id now row).consumedAt.isSome = (row.consumedAt.isSome || decide (row.id = id)) := by
  unfold settled unconsumed
  by_cases same : row.id = id
  · cases live : row.consumedAt with
    | none => simp [same]
    | some t => simp [live]
  · simp [same]

@[simp] theorem settledId (id now) (row : IntentRow) : (settled id now row).id = row.id := by
  unfold settled
  split
  · rfl
  · rfl

theorem acceptanceColumns {intent row : IntentRow} (same : {row with consumedAt := intent.consumedAt} = intent) :
    acceptance config intent = acceptance config row := by
  rw [← same]
  rfl

theorem consumedSound {intent result} (sound : Sound config w) (found : w.calls[index]? = some call)
    (pc : call.pc = .consume intent) (live : w.intents.table.rows.any (unconsumed intent.id) = true)
    (returns : result = acceptance config intent ∨ result = .error .persistence) :
    Sound config {w.move index call (.done result) with
      intents := (consumeIntent w.intents intent.id w.clock).1, consumptions := w.consumptions ++ [(intent.id,index)]} := by
  have here := sound.calls index call found
  have stage := here.stage
  rw [pc] at stage
  obtain ⟨early,lost,entitled⟩ := stage
  have unwon : intent.id ∉ w.consumptions.map Prod.fst := by
    obtain ⟨row,member,meets⟩ := List.any_eq_true.mp live
    simp only [unconsumed,Bool.and_eq_true,decide_eq_true_eq,Option.isNone_iff_eq_none] at meets
    rw [← meets.1,← sound.consumed row member,meets.2]
    simp
  have rows : ∀ row ∈ w.intents.table.rows, ∃ later ∈ (consumeIntent w.intents intent.id w.clock).1.table.rows,
      {later with consumedAt := row.consumedAt} = row :=
    fun row member => ⟨_,memConsumed.mpr ⟨row,member,rfl⟩,settledKeeps _ _ row⟩
  have own := entitled
  obtain ⟨hash,row,member,known⟩ := own
  obtain ⟨callback,opened,callbackId⟩ := sound.opens row member
  have named : row.id = intent.id := by rw [← known]
  constructor
  · rw [List.map_append]
    exact List.nodup_append.mpr ⟨sound.single,by simp,by
      rintro a left b right rfl
      cases List.mem_singleton.mp right
      exact unwon left⟩
  · intro later present
    obtain ⟨old,there,rfl⟩ := memConsumed.mp present
    rw [settledConsumed,settledId,Bool.or_eq_true,sound.consumed old there,List.map_append,List.mem_append]
    simp
  · intro id i won
    rcases List.mem_append.mp won with before | now
    · obtain ⟨other,mine,there,belongs,facts⟩ := sound.winner id i before
      have apart : i ≠ index := by
        intro same
        subst same
        exact lost id before
      refine ⟨other,mine,?_,entitledKept rows belongs,facts⟩
      show (w.calls.set index _)[i]? = some other
      rw [setCall found,if_neg apart]
      exact there
    · cases List.mem_singleton.mp now
      refine ⟨{call with pc := .done result},intent,?_,entitledKept rows entitled,early,rfl⟩
      show (w.calls.set index _)[index]? = _
      rw [setCall found,if_pos rfl]
  · intro later present
    obtain ⟨old,there,rfl⟩ := memConsumed.mp present
    rw [← acceptanceColumns (settledKeeps intent.id w.clock old),settledId]
    exact sound.opens old there
  · intro i other there
    have moved : (w.calls.set index {call with pc := .done result})[i]? = some other := there
    rw [setCall found] at moved
    split at moved
    · rename_i same
      cases Option.some.inj moved
      subst same
      refine ⟨here.presented,here.checked,?_,?_⟩
      · exact fun _ => ⟨_,memConsumed.mpr ⟨row,member,rfl⟩,by
          rw [← hash,← known]
          unfold settled
          split <;> rfl⟩
      · rcases returns with accepted | failed
        · rw [accepted,acceptanceColumns known,opened]
          refine ⟨intent,entitledKept rows entitled,early,callbackId.trans named,?_⟩
          exact List.mem_append_right _ (List.mem_singleton.mpr rfl)
        · rw [failed]
          rfl
    · rename_i apart
      refine callKept ⟨rows,Int.le_refl _,fun id => ?_⟩ (sound.calls i other moved)
      simp [List.mem_append,apart]

theorem acceptIssued {intent : IntentRow} {verifier : String} {nonce} (purpose : IntentPurpose)
    (short : (Purpose.intentVerifier.bindingPrefix (ownerOf intent.internalUserId) ++ utf8 verifier).length ≤ plaintextMax)
    (sealed_ : intent.codeVerifierEncrypted =
      sealEnvelope config.gcm nonce (ownerOf intent.internalUserId) .intentVerifier (utf8 verifier))
    (columns : (intent.purpose,intent.accountId) = persistenceBinding purpose) :
    acceptance config intent =
      .ok (.accepted ⟨⟨intent.id,intent.internalUserId,purpose,intent.requestedScopes⟩,verifier⟩) := by
  unfold acceptance
  rw [sealed_,openSealed _ _ _ _ short]
  cases purpose with
  | readConnection =>
    obtain ⟨read,unbound⟩ := Prod.mk.inj columns
    simp [read,unbound]
  | bookmarkWrite accountId =>
    obtain ⟨write,bound⟩ := Prod.mk.inj columns
    simp [write,bound]

theorem keepsIssued {intents row fresh states} (index) (same : intents = ⟨w.intents.table.append row fresh,states⟩) :
    Keeps w {w with intents := intents} index := by
  subst same
  exact ⟨fun old member => ⟨old,List.mem_append_left _ member,rfl⟩,Int.le_refl _,fun _ => Iff.rfl⟩

theorem issuedSound {state verifier internalUserId purpose requestedScopes expiresAt nonce intents} (sound : Sound config w)
    (short : (Purpose.intentVerifier.bindingPrefix (ownerOf internalUserId) ++ utf8 verifier).length ≤ plaintextMax)
    (inserted : insertIntent config w.intents state verifier internalUserId purpose requestedScopes expiresAt nonce =
      some intents) : Sound config {w with intents := intents} := by
  unfold insertIntent at inserted
  split at inserted
  · have same := (Option.some.inj inserted).symm
    have keeps := fun index => keepsIssued (w := w) index same
    have rows : ∀ row ∈ intents.table.rows, row ∈ w.intents.table.rows ∨
        (row.consumedAt = none ∧ row.id ∉ w.intents.table.rows.map IntentRow.id ∧
          ∃ callback, acceptance config row = .ok (.accepted callback) ∧ callback.accepted.intentId = row.id) := by
      intro row member
      rw [same] at member
      rcases List.mem_append.mp member with old | new
      · exact .inl old
      · cases List.mem_singleton.mp new
        refine .inr ⟨rfl,freshIdAbsent _,_,acceptIssued purpose short rfl ?_,rfl⟩
        rfl
    constructor
    · exact sound.single
    · intro row member
      rcases rows row member with old | ⟨unconsumed,fresh,_⟩
      · exact sound.consumed row old
      · rw [unconsumed]
        refine iff_of_false (by simp) (fun won => fresh ?_)
        obtain ⟨entry,logged,won⟩ := List.mem_map.mp won
        obtain ⟨_,intent,_,⟨_,old,there,known⟩,_,named⟩ := sound.winner entry.1 entry.2 logged
        refine List.mem_map.mpr ⟨old,there,?_⟩
        rw [← won,← named,← known]
    · intro id i won
      obtain ⟨other,intent,there,mine,facts⟩ := sound.winner id i won
      exact ⟨other,intent,there,entitledKept (keeps i).rows mine,facts⟩
    · intro row member
      rcases rows row member with old | ⟨_,_,opened⟩
      · exact sound.opens row old
      · exact opened
    · exact fun i other there => callKept (keeps i) (sound.calls i other there)
  · simp at inserted

theorem presentedSound {state} (sound : Sound config w) : Sound config {w with calls := w.calls ++
    [⟨state,w.clock,(findIntentByStateHash w.intents (stateDigest config state)).isSome,none,.find⟩]} where
  single := sound.single
  consumed := sound.consumed
  winner id i won := by
    obtain ⟨other,intent,there,facts⟩ := sound.winner id i won
    exact ⟨other,intent,by
      rw [List.getElem?_append_left (List.getElem?_eq_some_iff.mp there).1]
      exact there,facts⟩
  opens := sound.opens
  calls i other there := by
    rw [List.getElem?_append] at there
    split at there
    · exact callKept (keepsCalls ..) (sound.calls i other there)
    · rename_i past
      obtain ⟨_,rfl⟩ := List.getElem?_eq_some_iff.mp there
      have last : ∀ id, (id,i) ∉ w.consumptions := by
        intro id won
        obtain ⟨_,_,found,_⟩ := sound.winner id i won
        exact past (List.getElem?_eq_some_iff.mp found).1
      refine ⟨?_,?_,?_,?_⟩
      · simp
        exact Int.le_refl _
      · simp
      · simp only [List.getElem_singleton,Option.isSome_iff_exists]
        rintro ⟨row,found⟩
        exact ⟨row,List.mem_of_find?_eq_some found,by simpa using List.find?_some found⟩
      · simp only [List.getElem_singleton]
        exact ⟨rfl,last⟩

theorem resolvedSound {ack} (sound : Sound config w) (found : w.calls[index]? = some call)
    (resolved : Resolved config w index call ack v) : Sound config v := by
  have here := sound.calls index call found
  have stage := here.stage
  cases resolved with
  | unmatched pc none =>
    rw [pc] at stage
    refine movedSound sound found stage.2 ⟨here.presented,here.checked,here.issued,stage.1,?_,stage.2⟩
    by_contra issued
    obtain ⟨row,member,hash⟩ := here.issued (by simpa using issued)
    simpa [hash] using List.find?_eq_none.mp none row member
  | @found pc intent known =>
    rw [pc] at stage
    refine movedSound sound found stage.2 ⟨here.presented,here.checked,here.issued,stage.1,stage.2,?_⟩
    exact rowEntitled (List.mem_of_find?_eq_some known) (by simpa using List.find?_some known)
  | failed open_ =>
    exact movedSound sound found (underWay stage open_) ⟨here.presented,here.checked,here.issued,rfl⟩
  | @expired intent pc late =>
    rw [pc] at stage
    refine movedSound sound found stage.2.1 ⟨here.presented,?_,here.issued,stage.2.1,intent,w.clock,stage.2.2,rfl,late⟩
    rintro t checked
    cases Option.some.inj checked
    exact here.presented
  | @timely intent pc early =>
    rw [pc] at stage
    refine movedSound sound found stage.2.1 ⟨here.presented,?_,here.issued,⟨w.clock,rfl,early⟩,stage.2.1,stage.2.2⟩
    rintro t checked
    cases Option.some.inj checked
    exact here.presented
  | @replayed intent pc gone =>
    rw [pc] at stage
    exact movedSound sound found stage.2.1
      ⟨here.presented,here.checked,here.issued,stage.2.1,intent,stage.2.2,stage.1⟩
  | consumed pc live returns => exact consumedSound sound found pc live returns

theorem stepSound {a} (sound : Sound config w) (taken : step config w a = some v) : Sound config v := by
  cases a with
  | issue state verifier internalUserId purpose requestedScopes expiresAt nonce =>
    simp only [step] at taken
    split at taken
    · rename_i short
      obtain ⟨intents,inserted,rfl⟩ := Option.map_eq_some_iff.mp taken
      exact issuedSound sound short inserted
    · simp at taken
  | tick now =>
    simp only [step] at taken
    split at taken
    · rename_i later
      cases Option.some.inj taken
      have keeps : ∀ i, Keeps w {w with clock := now} i :=
        fun i => ⟨fun row member => ⟨row,member,rfl⟩,later,fun _ => Iff.rfl⟩
      exact ⟨sound.single,sound.consumed,sound.winner,sound.opens,fun i other there =>
        callKept (keeps i) (sound.calls i other there)⟩
    · simp at taken
  | present state =>
    cases Option.some.inj taken
    exact presentedSound sound
  | advance index ack =>
    simp only [step] at taken
    split at taken
    · simp at taken
    · rename_i call found
      exact resolvedSound sound found (resolveCases taken)

theorem openedSound (clock) : Sound config (World.opened clock) := by
  constructor <;> simp [World.opened,Table.empty]

end Preservation

section Promises
variable (config : Config)

/- A presentation at or after the expiry of its intent, by the clock when it came or when it
was checked. -/
def Late (call : Presentation) (row : IntentRow) : Prop :=
  (call.issued = true ∧ row.expiresAt ≤ call.presentedAt) ∨ ∃ t, call.checkedAt = some t ∧ row.expiresAt ≤ t

structure Answered (w : World) : Prop where
  once : ∀ (i j : Nat) (left right : Presentation) mine other, w.calls[i]? = some left → w.calls[j]? = some right →
    left.pc = .done (.ok (.accepted mine)) → right.pc = .done (.ok (.accepted other)) →
    mine.accepted.intentId = other.accepted.intentId → i = j
  expired : ∀ (index : Nat) call, w.calls[index]? = some call → ∀ row ∈ w.intents.table.rows,
    row.stateHash = stateDigest config call.state → Late call row →
      Lost w index ∧ ∀ result, call.pc = .done (.ok result) → result = .expired
  timely : ∀ (index : Nat) call, w.calls[index]? = some call → ∀ row ∈ w.intents.table.rows,
    row.stateHash = stateDigest config call.state → Early call row → ∀ result, call.pc = .done (.ok result) →
      if (row.id,index) ∈ w.consumptions then
        ∃ callback, result = .accepted callback ∧ callback.accepted.intentId = row.id
      else result = .replayed
  unknown : ∀ (index : Nat) call, w.calls[index]? = some call →
    (∀ row ∈ w.intents.table.rows, row.stateHash ≠ stateDigest config call.state) →
      Lost w index ∧ ∀ result, call.pc = .done (.ok result) → result = .unmatched
  failed : ∀ (index : Nat) (call : Presentation) error, w.calls[index]? = some call → call.pc = .done (.error error) → error = .persistence

/- A step of a presentation changes nothing, or it consumes the intent of its state, which was
unconsumed and had not expired when the presentation checked it. -/
def Confined (w : World) (index : Nat) (v : World) : Prop :=
  (v.intents = w.intents ∧ v.consumptions = w.consumptions) ∨
    ∃ call, w.calls[index]? = some call ∧ ∃ row ∈ w.intents.table.rows,
      row.stateHash = stateDigest config call.state ∧ row.consumedAt = none ∧ Early call row ∧
      v.intents.table.rows = w.intents.table.rows.map (fun other =>
        if other.id = row.id then {other with consumedAt := some w.clock} else other) ∧
      v.consumptions = w.consumptions ++ [(row.id,index)]

variable {config} {w v : World}

theorem wonOnce {id i j} (sound : Sound config w) (left : (id,i) ∈ w.consumptions) (right : (id,j) ∈ w.consumptions) :
    i = j :=
  (Prod.mk.inj (List.inj_on_of_nodup_map sound.single left right rfl)).2

theorem earlyColumns {call : Presentation} {intent row : IntentRow} (same : {row with consumedAt := intent.consumedAt} = intent) :
    Early call intent ↔ Early call row := by
  rw [← same]
  exact Iff.rfl

theorem answered (sound : Sound config w) : Answered config w where
  once i j left right mine other there there' took took' same := by
    have first := (sound.calls i left there).stage
    have second := (sound.calls j right there').stage
    rw [took] at first
    rw [took'] at second
    obtain ⟨_,_,_,named,won⟩ := first
    obtain ⟨_,_,_,named',won'⟩ := second
    rw [← named] at won
    rw [← named',← same] at won'
    exact wonOnce sound won won'
  expired index call there row member hash late := by
    have here := sound.calls index call there
    have mine := rowEntitled member hash
    have unmet : ¬Early call row := by
      rintro ⟨t,checked,early⟩
      rcases late with ⟨_,past⟩ | ⟨t',checked',past⟩
      · exact Int.not_lt.mpr (Int.le_trans past (here.checked t checked)) early
      · cases checked.symm.trans checked'
        exact Int.not_lt.mpr past early
    have alone : ∀ intent, Entitled config w call intent → ¬Early call intent :=
      fun intent known early => unmet ((earlyColumns (sameIntent known mine)).mp early)
    refine ⟨?_,?_⟩
    · intro id won
      obtain ⟨other,intent,found,known,early,_⟩ := sound.winner id index won
      cases there.symm.trans found
      exact alone intent known early
    · intro result returned
      have stage := here.stage
      rw [returned] at stage
      rcases result with ⟨callback⟩ | _ | _ | _
      · obtain ⟨intent,known,early,_⟩ := stage
        exact absurd early (alone intent known)
      · rfl
      · obtain ⟨_,intent,known,early⟩ := stage
        exact absurd early (alone intent known)
      · rcases late with ⟨issued,_⟩ | ⟨t,checked,_⟩
        · simp [stage.2.1] at issued
        · simp [stage.1] at checked
  timely index call there row member hash early result returned := by
    have stage := (sound.calls index call there).stage
    have mine := rowEntitled member hash
    rw [returned] at stage
    rcases result with ⟨callback⟩ | _ | _ | _
    · obtain ⟨intent,known,_,named,won⟩ := stage
      have same : intent.id = row.id := by rw [← sameIntent known mine]
      rw [← same,if_pos won]
      exact ⟨callback,rfl,named⟩
    · obtain ⟨_,intent,t,known,checked,late⟩ := stage
      obtain ⟨t',checked',timely⟩ := (earlyColumns (sameIntent known mine)).mpr early
      cases checked.symm.trans checked'
      exact absurd timely (Int.not_lt.mpr late)
    · rw [if_neg (stage.1 row.id)]
    · obtain ⟨t,checked,_⟩ := early
      simp [stage.1] at checked
  unknown index call there absent := by
    have foreign : ∀ intent, ¬Entitled config w call intent := by
      rintro intent ⟨hash,row,member,known⟩
      exact absent row member (by rw [← hash,← known])
    refine ⟨?_,?_⟩
    · intro id won
      obtain ⟨other,intent,found,known,_⟩ := sound.winner id index won
      cases there.symm.trans found
      exact foreign intent known
    · intro result returned
      have stage := (sound.calls index call there).stage
      rw [returned] at stage
      rcases result with ⟨callback⟩ | _ | _ | _
      · obtain ⟨intent,known,_⟩ := stage
        exact absurd known (foreign intent)
      · obtain ⟨_,intent,_,known,_⟩ := stage
        exact absurd known (foreign intent)
      · obtain ⟨_,intent,known,_⟩ := stage
        exact absurd known (foreign intent)
      · rfl
  failed index call error there returned := by
    have stage := (sound.calls index call there).stage
    rw [returned] at stage
    exact stage

theorem confinedStep {index ack} (sound : Sound config w) (taken : step config w (.advance index ack) = some v) :
    Confined config w index v := by
  simp only [step] at taken
  split at taken
  · simp at taken
  · rename_i call found
    cases resolveCases taken with
    | @consumed intent result pc live returns =>
      have stage := (sound.calls index call found).stage
      rw [pc] at stage
      obtain ⟨early,_,hash,row,member,known⟩ := stage
      have named : row.id = intent.id := by rw [← known]
      obtain ⟨other,there,meets⟩ := List.any_eq_true.mp live
      simp only [unconsumed,Bool.and_eq_true,decide_eq_true_eq,Option.isNone_iff_eq_none] at meets
      have one : other = row := w.intents.table.sameRow there member (meets.1.trans named.symm)
      subst one
      refine .inr ⟨call,found,other,there,?_,meets.2,(earlyColumns known).mp early,?_,?_⟩
      · rw [← hash,← known]
      · refine List.map_congr_left (fun r present => ?_)
        by_cases same : r.id = other.id
        · have one := w.intents.table.sameRow present there same
          subst one
          simp [unconsumed,meets]
        · simp [unconsumed,same,← named]
      · rw [named]
    | _ => exact .inl ⟨rfl,rfl⟩

/- Presentations of any number of intents, in any interleaving of their steps. -/
theorem callbacksOnce {clock labels} (run : Run (step config) free (World.opened clock) labels w) : Answered config w ∧
    ∀ t index ack v, Passes (step config) free (World.opened clock) labels w t (.advance index ack) v →
      Confined config t index v := by
  have always : ∀ {before t}, Run (step config) free (World.opened clock) before t → Sound config t :=
    fun run => run.preserves (Sound config) (fun _ _ _ sound _ taken => stepSound sound taken) (openedSound clock)
  refine ⟨answered (always run),?_⟩
  rintro t index ack v ⟨before,after,_,first,_,taken,_⟩
  exact confinedStep (always first) taken

end Promises

section Sample

/- What AES-256-GCM under 32 bytes of 41 makes of one verifier of owner 1. -/
def sampleVerifier : Bytes := Purpose.intentVerifier.bindingPrefix 1 ++ utf8 "verifier"

def sampleSealedVerifier : Bytes :=
  [160,40,245,51,91,249,194,211,163,33,78,235,6,47,94,89,104,245,47,160,0,251,27,66,
  23,145,87,252,100,72,250,28,32,183,206,244,146,100,234,37,43,121,167,155,221,226,
  15,185,167,27,143,41,3,74,174,152,77,59,217,118,207,111,176,152,114,76,72,104,193,
  117]

def sampleCipher : Aead where
  encrypt nonce inner :=
    if nonce = List.replicate 12 4 ∧ inner = sampleVerifier then sampleSealedVerifier else inner ++ List.replicate tagLen 0
  decrypt nonce text :=
    if nonce = List.replicate 12 4 ∧ text = sampleSealedVerifier then some sampleVerifier
    else some (text.take (text.length - tagLen))
  opens nonce inner _ := by
    have tag : sampleSealedVerifier.drop (sampleSealedVerifier.length - tagLen) ≠ List.replicate tagLen 0 := by
      decide +kernel
    by_cases known : nonce = List.replicate 12 4 ∧ inner = sampleVerifier
    · simp [known]
    · rw [if_neg known,if_neg]
      · simp
      · intro same
        refine tag ?_
        rw [← same.2]
        simp
  tagged nonce inner _ := by
    have length : sampleSealedVerifier.length = sampleVerifier.length + tagLen := by decide +kernel
    split
    · rename_i known
      rw [known.2,length]
    · simp

def sampleConfig : Config := {sampleService with gcm := sampleCipher}

def opening : DateTime := ⟨1784797200000000,DateTime.openingRepresentable⟩
def lapse : DateTime := ⟨1784797800000000,by decide⟩

/- Two presentations race for one intent, one comes at its expiry, one has an unknown state. -/
def raced : List Label :=
  [.issue "other" "verifier" 1 .readConnection ["users.read"] lapse ⟨List.replicate 12 4,rfl⟩,.present "other",
    .present "other",.advance 0 .ok,.advance 1 .ok,.advance 0 .ok,.advance 1 .ok,.advance 1 .ok,.advance 0 .ok,
    .tick lapse,.present "other",.present "refresh-1",.advance 2 .ok,.advance 2 .ok,.advance 3 .ok]

def racedEnd : World := (replay (step sampleConfig) free (World.opened opening) raced).get (by decide +kernel)

theorem callbacksOnceRaced : racedEnd.calls.map Presentation.pc = [.done (.ok .replayed),
      .done (.ok (.accepted ⟨⟨1,1,.readConnection,["users.read"]⟩,"verifier"⟩)),.done (.ok .expired),.done (.ok .unmatched)] ∧
    Answered sampleConfig racedEnd ∧
    ∀ t index ack v, Passes (step sampleConfig) free (World.opened opening) raced racedEnd t (.advance index ack) v →
      Confined sampleConfig t index v :=
  ⟨by decide +kernel,callbacksOnce (replayRun (Option.some_get _).symm)⟩

end Sample
end RatatoskrX.CallbackRuns
