import RatatoskrX.Foundation.Outcome
import RatatoskrX.Fingerprints
import RatatoskrX.TokenMembers

/-! The client of the token endpoint: an answer is read under a bound on its body, classified
by its status, and parsed where it succeeded. -/
namespace RatatoskrX.TokenClient
open Outcome Sealing Connection JsonText TokenMembers Writeback Fingerprints

def maxBodyBytes : Nat := 64 * 1024

/- An HTTP answer; its body is none where reading it failed. -/
structure Response where
  status : Nat
  contentLength : Option Nat
  body : Option Bytes
  deriving DecidableEq, Repr

section Utf8

def continues (b : UInt8) : Bool := 0x80 ≤ b && b < 0xc0

/- The second byte that a lead byte of a longer sequence admits. -/
def secondFits (lead second : UInt8) : Bool :=
  if lead = 0xe0 then 0xa0 ≤ second && second < 0xc0
  else if lead = 0xed then 0x80 ≤ second && second < 0xa0
  else if lead = 0xf0 then 0x90 ≤ second && second < 0xc0
  else if lead = 0xf4 then 0x80 ≤ second && second < 0x90
  else continues second

def extend (n : Nat) (b : UInt8) : Nat := n * 64 + b.toNat % 64

def replacement : Char := '\ufffd'

/- String::from_utf8_lossy: each longest broken beginning of a character is replaced. -/
def fromUtf8Lossy : Bytes → Text
  | [] => []
  | b::rest =>
    if b < 0x80 then Char.ofNat b.toNat::fromUtf8Lossy rest
    else if 0xc2 ≤ b ∧ b < 0xe0 then
      match rest with
      | c::more =>
        if continues c then Char.ofNat (extend (b.toNat % 32) c)::fromUtf8Lossy more
        else replacement::fromUtf8Lossy (c::more)
      | [] => [replacement]
    else if 0xe0 ≤ b ∧ b < 0xf0 then
      match rest with
      | c::more =>
        if secondFits b c then
          match more with
          | d::later =>
            if continues d then Char.ofNat (extend (extend (b.toNat % 16) c) d)::fromUtf8Lossy later
            else replacement::fromUtf8Lossy (d::later)
          | [] => [replacement]
        else replacement::fromUtf8Lossy (c::more)
      | [] => [replacement]
    else if 0xf0 ≤ b ∧ b < 0xf5 then
      match rest with
      | c::more =>
        if secondFits b c then
          match more with
          | d::later =>
            if continues d then
              match later with
              | e::last =>
                if continues e then Char.ofNat (extend (extend (extend (b.toNat % 8) c) d) e)::fromUtf8Lossy last
                else replacement::fromUtf8Lossy (e::last)
              | [] => [replacement]
            else replacement::fromUtf8Lossy (d::later)
          | [] => [replacement]
        else replacement::fromUtf8Lossy (c::more)
      | [] => [replacement]
    else replacement::fromUtf8Lossy rest

theorem lossyLength (bytes : Bytes) : (fromUtf8Lossy bytes).length ≤ bytes.length := by
  fun_induction fromUtf8Lossy bytes <;> simp only [List.length_cons,List.length_nil] at * <;> omega

variable {b c d e : UInt8} {rest : Bytes}

theorem lossyOne (lead : b < 0x80) : fromUtf8Lossy (b::rest) = Char.ofNat b.toNat::fromUtf8Lossy rest := by
  rw [fromUtf8Lossy.eq_def]
  simp only [if_pos lead]

theorem lossyTwo (lead : 0xc2 ≤ b ∧ b < 0xe0) (second : continues c = true) :
    fromUtf8Lossy (b::c::rest) = Char.ofNat (extend (b.toNat % 32) c)::fromUtf8Lossy rest := by
  have one : ¬b < 0x80 := UInt8.not_lt.mpr (UInt8.le_trans (by decide) lead.1)
  rw [fromUtf8Lossy.eq_def]
  simp only [if_neg one,if_pos lead,second,if_true]

theorem lossyThree (lead : 0xe0 ≤ b ∧ b < 0xf0) (second : secondFits b c = true) (third : continues d = true) :
    fromUtf8Lossy (b::c::d::rest) = Char.ofNat (extend (extend (b.toNat % 16) c) d)::fromUtf8Lossy rest := by
  have one : ¬b < 0x80 := UInt8.not_lt.mpr (UInt8.le_trans (by decide) lead.1)
  have two : ¬(0xc2 ≤ b ∧ b < 0xe0) := fun shorter => UInt8.not_lt.mpr lead.1 shorter.2
  rw [fromUtf8Lossy.eq_def]
  simp only [if_neg one,if_neg two,if_pos lead,second,third,if_true]

theorem lossyFour (lead : 0xf0 ≤ b ∧ b < 0xf5) (second : secondFits b c = true) (third : continues d = true)
    (fourth : continues e = true) :
    fromUtf8Lossy (b::c::d::e::rest) = Char.ofNat (extend (extend (extend (b.toNat % 8) c) d) e)::fromUtf8Lossy rest := by
  have one : ¬b < 0x80 := UInt8.not_lt.mpr (UInt8.le_trans (by decide) lead.1)
  have two : ¬(0xc2 ≤ b ∧ b < 0xe0) := fun shorter => UInt8.not_lt.mpr (UInt8.le_trans (by decide) lead.1) shorter.2
  have three : ¬(0xe0 ≤ b ∧ b < 0xf0) := fun shorter => UInt8.not_lt.mpr lead.1 shorter.2
  rw [fromUtf8Lossy.eq_def]
  simp only [if_neg one,if_neg two,if_neg three,if_pos lead,second,third,fourth,if_true]

theorem byteLt {n} (small : n < 256) : UInt8.ofNat n < b ↔ n < b.toNat := by
  rw [UInt8.lt_iff_toNat_lt,UInt8.toNat_ofNat',Nat.mod_eq_of_lt small]

theorem byteGe {n} (small : n < 256) : b ≤ UInt8.ofNat n ↔ b.toNat ≤ n := by
  rw [UInt8.le_iff_toNat_le,UInt8.toNat_ofNat',Nat.mod_eq_of_lt small]

theorem tailContinues (n : ℕ) : continues (UInt8.ofNat (n % 64 + 128)) = true := by
  simp only [continues,Bool.and_eq_true,decide_eq_true_eq]
  rw [byteGe (by omega),byteLt (by omega)]
  simp
  omega

theorem tailExtends (n m : ℕ) : extend n (UInt8.ofNat (m % 64 + 128)) = n * 64 + m % 64 := by
  simp only [extend,UInt8.toNat_ofNat']
  omega

theorem fitsSecond (second : continues c = true) (low : b.toNat = 0xe0 → 0xa0 ≤ c.toNat)
    (surrogate : b.toNat = 0xed → c.toNat < 0xa0) (wide : b.toNat = 0xf0 → 0x90 ≤ c.toNat)
    (last : b.toNat = 0xf4 → c.toNat < 0x90) : secondFits b c = true := by
  have range := second
  simp only [continues,Bool.and_eq_true,decide_eq_true_eq] at range
  obtain ⟨least,most⟩ := range
  unfold secondFits
  split
  · rename_i lead
    subst lead
    simp only [Bool.and_eq_true,decide_eq_true_eq]
    exact ⟨UInt8.le_iff_toNat_le.mpr (low rfl),most⟩
  split
  · rename_i lead
    subst lead
    simp only [Bool.and_eq_true,decide_eq_true_eq]
    exact ⟨least,UInt8.lt_iff_toNat_lt.mpr (surrogate rfl)⟩
  split
  · rename_i lead
    subst lead
    simp only [Bool.and_eq_true,decide_eq_true_eq]
    exact ⟨UInt8.le_iff_toNat_le.mpr (wide rfl),most⟩
  split
  · rename_i lead
    subst lead
    simp only [Bool.and_eq_true,decide_eq_true_eq]
    exact ⟨least,UInt8.lt_iff_toNat_lt.mpr (last rfl)⟩
  · exact second

theorem lossyChar (c : Char) (rest : Bytes) : fromUtf8Lossy (String.utf8EncodeChar c ++ rest) = c::fromUtf8Lossy rest := by
  have valid : c.val.toNat < 0xd800 ∨ 0xdfff < c.val.toNat ∧ c.val.toNat < 0x110000 := c.valid
  have self : ∀ {n}, n = c.val.toNat → Char.ofNat n = c := fun same => same ▸ Char.ofNat_toNat c
  unfold String.utf8EncodeChar
  generalize c.val.toNat = v at valid self
  dsimp only
  split
  · rw [List.singleton_append,lossyOne ((byteLt (by omega)).mpr (by simp; omega)),UInt8.toNat_ofNat',self (by omega)]
  split
  · have lead : 0xc2 ≤ UInt8.ofNat (v / 64 % 32 + 192) ∧ UInt8.ofNat (v / 64 % 32 + 192) < 0xe0 := by
      rw [byteLt (by omega),byteGe (by omega)]
      simp
      omega
    rw [List.cons_append,List.cons_append,List.nil_append,lossyTwo lead (tailContinues v),tailExtends,
      UInt8.toNat_ofNat',self (by omega)]
  split
  · have lead : 0xe0 ≤ UInt8.ofNat (v / 4096 % 16 + 224) ∧ UInt8.ofNat (v / 4096 % 16 + 224) < 0xf0 := by
      rw [byteLt (by omega),byteGe (by omega)]
      simp
      omega
    have second : secondFits (UInt8.ofNat (v / 4096 % 16 + 224)) (UInt8.ofNat (v / 64 % 64 + 128)) = true := by
      refine fitsSecond (tailContinues _) ?_ ?_ ?_ ?_ <;> simp only [UInt8.toNat_ofNat'] <;> omega
    rw [List.cons_append,List.cons_append,List.cons_append,List.nil_append,lossyThree lead second (tailContinues v),tailExtends,
      tailExtends,UInt8.toNat_ofNat',self (by omega)]
  · have lead : 0xf0 ≤ UInt8.ofNat (v / 262144 % 8 + 240) ∧ UInt8.ofNat (v / 262144 % 8 + 240) < 0xf5 := by
      rw [byteLt (by omega),byteGe (by omega)]
      simp
      omega
    have second : secondFits (UInt8.ofNat (v / 262144 % 8 + 240)) (UInt8.ofNat (v / 4096 % 64 + 128)) = true := by
      refine fitsSecond (tailContinues _) ?_ ?_ ?_ ?_ <;> simp only [UInt8.toNat_ofNat'] <;> omega
    rw [List.cons_append,List.cons_append,List.cons_append,List.cons_append,List.nil_append,
      lossyFour lead second (tailContinues _) (tailContinues v),tailExtends,tailExtends,tailExtends,
      UInt8.toNat_ofNat',self (by omega)]
theorem lossyRead (s : String) : fromUtf8Lossy (utf8 s) = s.toList := by
  have chars := utf8Chars s.toList
  rw [String.ofList_toList] at chars
  rw [chars]
  generalize s.toList = t
  induction t with
  | nil => rfl
  | cons c rest ih => rw [List.flatMap_cons,lossyChar,ih]

end Utf8

section Bounds

theorem trimLength (t : Text) : (trim t).length ≤ t.length :=
  ((List.rdropWhile_prefix isWhitespace (t.dropWhile isWhitespace)).length_le).trans
    (List.dropWhile_suffix isWhitespace).length_le

theorem prefixLength {c : Char} {t rest : Text} (stripped : stripPrefix c t = some rest) : rest.length ≤ t.length := by
  cases t with
  | nil => simp [stripPrefix] at stripped
  | cons d t =>
    simp only [stripPrefix,Option.ite_none_right_eq_some,Option.some.injEq] at stripped
    rw [← stripped.2,List.length_cons]
    omega

theorem suffixLength {c : Char} {t rest : Text} (stripped : stripSuffix c t = some rest) : rest.length ≤ t.length := by
  simp only [stripSuffix,Option.ite_none_right_eq_some,Option.some.injEq] at stripped
  rw [← stripped.2,List.length_dropLast]
  omega

theorem strippedLength {c d : Char} {t rest : Text} (stripped : (stripPrefix c t).bind (stripSuffix d) = some rest) :
    rest.length ≤ t.length := by
  obtain ⟨inner,first,last⟩ := Option.bind_eq_some_iff.mp stripped
  exact (suffixLength last).trans (prefixLength first)

/- No member that the scan finds is longer than what it has read. -/
def Scan.Within (s : Scan) (n : Nat) : Prop := s.current.length ≤ n ∧ ∀ m ∈ s.members, m.length ≤ n

theorem stepWithin {s : Scan} {n} (within : Scan.Within s n) (c : Char) : Scan.Within (s.step c) (n + 1) := by
  have pushed : (s.push c).current.length ≤ n + 1 := by
    have bound := within.1
    simp [Scan.push]
    exact bound
  have others : ∀ m ∈ s.members, m.length ≤ n + 1 := fun m member => Nat.le_succ_of_le (within.2 m member)
  unfold Scan.step
  split
  · split
    · exact ⟨pushed,others⟩
    split
    · exact ⟨pushed,others⟩
    split <;> exact ⟨pushed,others⟩
  split
  · exact ⟨pushed,others⟩
  split
  · exact ⟨pushed,others⟩
  split
  · exact ⟨pushed,others⟩
  split
  · refine ⟨Nat.zero_le _,?_⟩
    intro m member
    obtain old | last := List.mem_append.mp member
    · exact others m old
    · rw [List.mem_singleton.mp last]
      exact Nat.le_succ_of_le within.1
  · exact ⟨pushed,others⟩

theorem scanWithin {s : Scan} {t : Text} {n} (within : Scan.Within s n) :
    Scan.Within (t.foldl Scan.step s) (n + t.length) := by
  induction t generalizing s n with
  | nil => exact within
  | cons c rest ih =>
    have later := ih (stepWithin within c)
    rw [List.length_cons]
    rwa [Nat.add_right_comm] at later

theorem readLength {member : Text} {pair} (read : readMember member = .ok (some pair)) :
    pair.2.length ≤ member.length := by
  unfold readMember at read
  simp only at read
  split at read
  · simp at read
  split at read
  · simp [malformed] at read
  split at read
  · simp [malformed] at read
  cases Option.some.inj (Except.ok.inj read)
  have dropped := (List.drop_suffix 1 ((trim member).dropWhile (· ≠ ':'))).length_le
  have passed := (List.dropWhile_suffix (fun c : Char => decide (c ≠ ':')) (l := trim member)).length_le
  exact (trimLength _).trans (dropped.trans (passed.trans (trimLength member)))

theorem readsLength {members : List Text} {pairs n} (read : readMembers members = .ok pairs)
    (each : ∀ m ∈ members, m.length ≤ n) : ∀ pair ∈ pairs, pair.2.length ≤ n := by
  induction members generalizing pairs with
  | nil =>
    cases Except.ok.inj read
    simp
  | cons m rest ih =>
    rw [List.forall_mem_cons] at each
    simp only [readMembers,bindOk] at read
    obtain ⟨first,found,later,others,last⟩ := read
    cases Except.ok.inj last
    intro pair member
    obtain old | new := List.mem_append.mp member
    · have here : first = some pair := by simpa using old
      subst here
      exact (readLength found).trans each.1
    · exact ih others each.2 pair new

theorem rawLength {body : Text} {key raw} (read : rawMember body key = .ok (some raw)) : raw.length ≤ body.length := by
  obtain ⟨pairs,split_,looked⟩ := bindOk.mp read
  obtain ⟨pair,found,rfl⟩ := Option.map_eq_some_iff.mp (Except.ok.inj looked)
  have member := List.mem_of_find?_eq_some found
  unfold splitTopLevelMembers at split_
  split at split_
  · simp [malformed] at split_
  rename_i inner stripped
  simp only at split_
  split at split_
  · simp [malformed] at split_
  have within : Scan.Within (scan inner) (0 + inner.length) := scanWithin ⟨Nat.le_refl _,by simp [Scan.start]⟩
  rw [Nat.zero_add] at within
  have shorter := (strippedLength stripped).trans (trimLength body)
  refine (readsLength split_ ?_ pair member).trans shorter
  intro m member
  obtain old | last := List.mem_append.mp member
  · exact within.2 m old
  · rw [List.mem_singleton.mp last]
    exact within.1

theorem stringLength {body : Text} {key s} (ok : extractStringMember body key = .ok (some s))
    (bounded : body.length ≤ maxBodyBytes) : (utf8 s).length < 2 ^ 32 := by
  obtain ⟨found,read,ok⟩ := bindOk.mp ok
  split at ok
  · simp [pure,Except.pure] at ok
  rename_i raw
  split at ok
  · simp [malformed] at ok
  rename_i decoded stripped
  cases Option.some.inj (Except.ok.inj ok)
  obtain ⟨rest,opened,decoded_⟩ := Option.bind_eq_some_iff.mp stripped
  have shorter := (prefixLength opened).trans (rawLength read)
  have bound := decodedLength decoded_
  have bytes := utf8Length decoded
  simp only [maxBodyBytes] at bounded
  simp only [List.length_nil] at bound
  omega

def BoundedBody := {t : Text // t.length ≤ maxBodyBytes}

theorem requiredOk {α : Type} {found : Option α} {value} : required found = .ok value ↔ found = some value := by
  cases found <;> simp [required,malformed]

theorem parsedFields {body : Text} {fields} (ok : parseTokenResponse body = .ok fields) :
    extractStringMember body "access_token" = .ok (some fields.accessToken) ∧
      extractNumberMember body "expires_in" = .ok (some fields.expiresIn) ∧
      ∃ found, extractStringMember body "refresh_token" = .ok found ∧ fields.refreshToken = found.getD "" := by
  simp only [parseTokenResponse,bindOk,requiredOk] at ok
  obtain ⟨_,access,accessToken,rfl,_,expires,expiresIn,rfl,found,refresh,scope,_,made⟩ := ok
  cases Except.ok.inj made
  exact ⟨access,expires,found,refresh,rfl⟩

theorem parsedStorable (body : BoundedBody) {fields} (ok : parseTokenResponse body.1 = .ok fields) :
    CredentialPayload.Storable ⟨fields.accessToken,fields.refreshToken⟩ := by
  obtain ⟨access,_,found,refresh,made⟩ := parsedFields ok
  refine ⟨stringLength access body.2,?_⟩
  dsimp only
  rw [made]
  cases found with
  | none => decide
  | some token => exact stringLength refresh body.2

end Bounds

section Answers

def boundedResponse (r : Response) : Except ProviderFailure (Nat × BoundedBody) :=
  if r.contentLength.any (maxBodyBytes < ·) then malformed
  else match r.body with
  | none => .error .transport
  | some bytes =>
    if bounded : bytes.length ≤ maxBodyBytes then .ok (r.status,⟨fromUtf8Lossy bytes,(lossyLength bytes).trans bounded⟩)
    else malformed

def tokenResponse (body : BoundedBody) : Except ProviderFailure TokenResponse :=
  match parsed : parseTokenResponse body.1 with
  | .error failure => .error failure
  | .ok fields =>
    .ok ⟨fields.accessToken,fields.refreshToken,fields.expiresIn,fields.scope,parsedStorable body parsed⟩

def IsSuccess (status : Nat) : Prop := 200 ≤ status ∧ status < 300

instance (status) : Decidable (IsSuccess status) := by unfold IsSuccess; infer_instance

/-- post_token_form; none is a request that was not answered. -/
def postTokenForm : Option Response → Except ProviderFailure TokenResponse
  | none => .error .transport
  | some r => do
    let (status,body) ← boundedResponse r
    if IsSuccess status then tokenResponse body
    -- Whatever the provider answered without success counts against the grant.
    else .error .upstreamInvalidation

theorem tokenFields {body : BoundedBody} {response} (ok : tokenResponse body = .ok response) :
    ∃ fields, parseTokenResponse body.1 = .ok fields ∧ response.accessToken = fields.accessToken ∧
      response.refreshToken = fields.refreshToken ∧ response.expiresIn = fields.expiresIn := by
  unfold tokenResponse at ok
  split at ok
  · simp at ok
  · rename_i fields parsed
    cases Except.ok.inj ok
    exact ⟨fields,parsed,rfl,rfl,rfl⟩

end Answers
end RatatoskrX.TokenClient
