import RatatoskrX.Foundation.Framing
import RatatoskrX.Writeback

/-! What a digest and a fingerprint are taken of can be read back: bytes from their
hexadecimal text, identities from theirs, and the six components of a request from the bytes
that are fingerprinted for it. -/
namespace RatatoskrX.Fingerprints
open Schema Writeback

section Texts

theorem hexDigitApart {m n : Nat} (left : m < 16) (right : n < 16) (same : hexDigit m = hexDigit n) : m = n := by
  have every : ∀ m n : Fin 16, hexDigit m = hexDigit n → m = n := by decide +kernel
  exact congrArg Fin.val (every ⟨m,left⟩ ⟨n,right⟩ same)

theorem hexDigestApart {a b : List UInt8} (same : hexDigest a = hexDigest b) : a = b := by
  have digits := String.ofList_injective same
  clear same
  induction a generalizing b with
  | nil =>
    cases b with
    | nil => rfl
    | cons y rest => simp at digits
  | cons x rest ih =>
    cases b with
    | nil => simp at digits
    | cons y rest' =>
      simp only [List.flatMap_cons,List.cons_append,List.nil_append,List.cons.injEq] at digits
      obtain ⟨high,low,later⟩ := digits
      have bound := x.toNat_lt
      have bound' := y.toNat_lt
      have quotient := hexDigitApart (by omega) (by omega) high
      have remainder := hexDigitApart (by omega) (by omega) low
      have byte : x = y := UInt8.toNat_inj.mp (by omega)
      rw [byte,ih later]

theorem hexDigitPlain : ∀ a < 16, (hexDigit a ≠ '-') = true := by decide

theorem nibblesDetermine {u v : Nat} (n : Nat) (same : ∀ i < n, u / 16 ^ i % 16 = v / 16 ^ i % 16) :
    u % 16 ^ n = v % 16 ^ n := by
  induction n with
  | zero => simp [Nat.mod_one]
  | succ n ih => rw [Nat.mod_pow_succ,Nat.mod_pow_succ,ih (fun i below => same i (by omega)),same n (by omega)]

theorem uuidDigits (u : Uuid) : (uuidText u).toList.filter (· ≠ '-') =
    (List.range 32).map (fun i => hexDigit (u / 16 ^ (31 - i) % 16)) := by
  have plain : ∀ c ∈ (List.range 32).map (fun i => hexDigit (u / 16 ^ (31 - i) % 16)), decide (c ≠ '-') = true := by
    intro c member
    obtain ⟨i,_,rfl⟩ := List.mem_map.mp member
    simpa using hexDigitPlain _ (Nat.mod_lt _ (by decide))
  unfold uuidText
  generalize (List.range 32).map (fun i => hexDigit (u / 16 ^ (31 - i) % 16)) = digits at plain ⊢
  have part : ∀ l : List Char, (∀ c ∈ l, c ∈ digits) → l.filter (· ≠ '-') = l :=
    fun l sub => List.filter_eq_self.mpr (fun c member => plain c (sub c member))
  have hyphen : ['-'].filter (fun c => decide (c ≠ '-')) = [] := by decide
  simp only [String.toList_ofList,List.filter_append,hyphen,List.append_nil]
  rw [part _ (fun c member => List.mem_of_mem_take member),
    part _ (fun c member => List.mem_of_mem_drop (List.mem_of_mem_take member)),
    part _ (fun c member => List.mem_of_mem_drop (List.mem_of_mem_take member)),
    part _ (fun c member => List.mem_of_mem_drop (List.mem_of_mem_take member)),
    part _ (fun c member => List.mem_of_mem_drop member)]
  have joined : ∀ n m, (digits.drop n).take m ++ digits.drop (n + m) = digits.drop n := by
    intro n m
    rw [← List.drop_drop]
    exact List.take_append_drop m (digits.drop n)
  rw [List.append_assoc,joined 16 4,List.append_assoc,joined 12 4,List.append_assoc,joined 8 4,List.take_append_drop]

theorem uuidTextInjective {u v : Uuid} (left : u < 2 ^ 128) (right : v < 2 ^ 128) (same : uuidText u = uuidText v) :
    u = v := by
  have digits := (uuidDigits u).symm.trans ((congrArg (fun text : String => text.toList.filter (· ≠ '-')) same).trans
    (uuidDigits v))
  have nibbles : ∀ i < 32, u / 16 ^ i % 16 = v / 16 ^ i % 16 := by
    intro i below
    have here := List.map_inj_left.mp digits (31 - i) (List.mem_range.mpr (by omega))
    have index : 31 - (31 - i) = i := by omega
    rw [index] at here
    exact hexDigitApart (Nat.mod_lt _ (by decide)) (Nat.mod_lt _ (by decide)) here
  have determined := nibblesDetermine 32 nibbles
  have width : 16 ^ 32 = 2 ^ 128 := by simp
  rwa [width,Nat.mod_eq_of_lt left,Nat.mod_eq_of_lt right] at determined

theorem utf8Injective {s t : String} (same : utf8 s = utf8 t) : s = t :=
  String.toByteArray_inj.mp (ByteArray.ext (Array.toList_inj.mp same))

theorem utf8Chars (t : List Char) : utf8 (String.ofList t) = t.flatMap String.utf8EncodeChar := by
  simp [utf8,String.toByteArray_ofList,List.utf8Encode]

theorem utf8Length (t : List Char) : (utf8 (String.ofList t)).length ≤ 4 * t.length := by
  rw [utf8Chars]
  induction t with
  | nil => simp
  | cons c rest ih =>
    have four := c.utf8Size_le_four
    rw [List.flatMap_cons,List.length_append,List.length_cons,String.length_utf8EncodeChar]
    omega

theorem uuidBytes (u : Uuid) : (utf8 (uuidText u)).length ≤ 144 := by
  refine (utf8Length _).trans ?_
  simp

theorem actionNameInjective {a b : BookmarkAction} (same : actionName a = actionName b) : a = b := by
  cases a <;> cases b <;> first | rfl | simp [actionName] at same

theorem modeNameInjective {a b : ExecutionMode} (same : modeName a = modeName b) : a = b := by
  cases a <;> cases b <;> first | rfl | simp [modeName] at same

theorem actionBytes (a : BookmarkAction) : (utf8 (actionName a)).length ≤ 6 := by
  cases a <;> decide

theorem modeBytes (m : ExecutionMode) : (utf8 (modeName m)).length ≤ 7 := by
  cases m <;> decide

end Texts

/- The length prefix of fingerprint_parts is the framing of the library at eight bytes. -/
theorem lengthPrefixWrites (n : Nat) : lengthPrefix n = BigEndian.write 8 n := by
  have byte : ∀ {a b : Nat}, a % 256 = b % 256 → UInt8.ofNat a = UInt8.ofNat b :=
    fun same => UInt8.toNat_inj.mp (by simpa using same)
  have range : List.range 8 = [0,1,2,3,4,5,6,7] := rfl
  simp only [lengthPrefix,range,List.map_cons,List.map_nil,BigEndian.write,List.nil_append,List.cons_append,
    Nat.div_div_eq_div_mul,List.cons.injEq,and_true]
  exact ⟨byte (by omega),byte (by omega),byte (by omega),byte (by omega),byte (by omega),byte (by omega),
    byte (by omega),byte (by omega)⟩

theorem framedInput (parts : List (List UInt8)) :
    fingerprintInput parts = utf8 "ratatoskr-x-bookmark-write" ++ [0] ++ parts.flatMap (Framing.frame 8) := by
  have frame : (fun part : List UInt8 => lengthPrefix part.length ++ part) = Framing.frame 8 :=
    funext fun part => congrArg (· ++ part) (lengthPrefixWrites part.length)
  rw [fingerprintInput,frame]

/- The bytes that request_fingerprint feeds to SHA-256. -/
def requestInput (request : BookmarkWriteRequest) (action : BookmarkAction) (mode : ExecutionMode) : List UInt8 :=
  fingerprintInput
    [utf8 (uuidText request.internalUserId),utf8 (uuidText request.accountId),utf8 (actionName action),
      utf8 request.providerPostId,utf8 (uuidText request.consentId),utf8 (modeName mode)]

def components (request : BookmarkWriteRequest) (action : BookmarkAction) (mode : ExecutionMode) :
    Uuid × Uuid × BookmarkAction × String × Uuid × ExecutionMode :=
  (request.internalUserId,request.accountId,action,request.providerPostId,request.consentId,mode)

/- Every Uuid of the source is a 128-bit value. -/
structure Sized (request : BookmarkWriteRequest) : Prop where
  owner : request.internalUserId < 2 ^ 128
  account : request.accountId < 2 ^ 128
  consent : request.consentId < 2 ^ 128

/- Fingerprinted bytes determine what was fingerprinted, however long the provider's post id. -/
theorem inputDetermines {r r' : BookmarkWriteRequest} {a a' m m'} (sized : Sized r) (sized' : Sized r')
    (same : requestInput r a m = requestInput r' a' m') : components r a m = components r' a' m' := by
  unfold requestInput at same
  rw [framedInput,framedInput] at same
  have frames := List.append_cancel_left same
  have total := congrArg List.length frames
  simp only [List.flatMap_cons,List.flatMap_nil,List.length_append,Framing.frameLength,List.length_nil] at total
  have owner := uuidBytes r.internalUserId
  have owner' := uuidBytes r'.internalUserId
  have account := uuidBytes r.accountId
  have account' := uuidBytes r'.accountId
  have consent := uuidBytes r.consentId
  have consent' := uuidBytes r'.consentId
  have action := actionBytes a
  have action' := actionBytes a'
  have mode := modeBytes m
  have mode' := modeBytes m'
  have parts := Framing.framesDetermine (.cons (Framing.nearShort (by omega) (by omega))
    (.cons (Framing.nearShort (by omega) (by omega)) (.cons (Framing.nearShort (by omega) (by omega))
    (.cons ⟨by omega,by omega⟩ (.cons (Framing.nearShort (by omega) (by omega))
    (.cons (Framing.nearShort (by omega) (by omega)) .nil)))))) frames
  simp only [List.cons.injEq,and_true] at parts
  obtain ⟨owners,accounts,actions,posts,consents,modes⟩ := parts
  unfold components
  rw [uuidTextInjective sized.owner sized'.owner (utf8Injective owners),
    uuidTextInjective sized.account sized'.account (utf8Injective accounts),
    actionNameInjective (utf8Injective actions),utf8Injective posts,
    uuidTextInjective sized.consent sized'.consent (utf8Injective consents),modeNameInjective (utf8Injective modes)]

end RatatoskrX.Fingerprints
