import RatatoskrX.Connection

/-! What opens under a key. The cipher is taken to be an ideal one here: what it decrypts is
exactly what it encrypts. An envelope then opens for the owner and the purpose it was sealed
for, and nothing that was not sealed opens at all. -/
namespace RatatoskrX.SealedEnvelopes
open Writeback Sealing Connection

/- Decryption inverts encryption and accepts nothing else. -/
structure Ideal (gcm : Aead) : Prop where
  opens : ∀ nonce inner, gcm.decrypt nonce (gcm.encrypt nonce inner) = some inner
  only : ∀ nonce text inner, gcm.decrypt nonce text = some inner → text = gcm.encrypt nonce inner
  tagged : ∀ nonce inner, (gcm.encrypt nonce inner).length = inner.length + tagLen

def IsSealed (gcm : Aead) (envelope : Bytes) : Prop :=
  ∃ nonce owner purpose plaintext, envelope = sealEnvelope gcm nonce owner purpose plaintext

def Authentic (gcm : Aead) (envelope : Bytes) : Prop :=
  ∃ (nonce : Nonce) (inner : Bytes), envelope = versionPrefix ++ nonce.bytes ++ gcm.encrypt nonce.bytes inner

def openInner (owner : BitVec 128) (purpose : Purpose) (inner : Bytes) : Except CipherError Bytes :=
  match matchedLabel inner with
  | none => .error .binding
  | some (sealedPurpose,labelLen) =>
    if inner.length < labelLen + 16 then .error .binding
    else if sealedPurpose ≠ purpose ∨
        BitVec.ofNat 128 (BigEndian.read ((inner.drop labelLen).take 16)) ≠ owner then .error .binding
    else .ok (inner.drop (labelLen + 16))

section Parts
variable {gcm : Aead} {owner : BitVec 128} {purpose : Purpose}

theorem openParts (nonce : Nonce) {text : Bytes} (long : tagLen ≤ text.length) :
    openEnvelope gcm owner purpose (versionPrefix ++ nonce.bytes ++ text) =
      match gcm.decrypt nonce.bytes text with
      | none => .error .auth
      | some inner => openInner owner purpose inner := by
  have head : (versionPrefix ++ nonce.bytes).length = versionPrefix.length + nonceLen := by
    rw [List.length_append,nonce.length]
  have version : (versionPrefix ++ nonce.bytes ++ text).take 2 = versionPrefix := by
    rw [List.append_assoc]
    exact List.take_left' rfl
  have drawn : ((versionPrefix ++ nonce.bytes ++ text).drop versionPrefix.length).take nonceLen = nonce.bytes := by
    rw [List.append_assoc,List.drop_left,← nonce.length,List.take_left]
  have body : (versionPrefix ++ nonce.bytes ++ text).drop (versionPrefix.length + nonceLen) = text := by
    rw [← head,List.drop_left]
  have size : ¬(versionPrefix ++ nonce.bytes ++ text).length < versionPrefix.length + nonceLen + tagLen := by
    rw [List.length_append,head]
    omega
  unfold openEnvelope
  simp only [version,drawn,body,size,ne_eq,not_true_eq_false,if_false]
  rfl

theorem envelopeParts {envelope : Bytes} (version : envelope.take 2 = versionPrefix)
    (long : ¬envelope.length < versionPrefix.length + nonceLen + tagLen) :
    ∃ (nonce : Nonce) (text : Bytes), tagLen ≤ text.length ∧ envelope = versionPrefix ++ nonce.bytes ++ text := by
  have drawn : ((envelope.drop 2).take nonceLen).length = nonceLen := by
    rw [List.length_take,List.length_drop]
    simp only [versionPrefix,List.length_cons,List.length_nil] at long
    omega
  refine ⟨⟨_,drawn⟩,envelope.drop (2 + nonceLen),?_,?_⟩
  · rw [List.length_drop]
    simp only [versionPrefix,List.length_cons,List.length_nil] at long
    omega
  · rw [← version,List.append_assoc,← List.drop_drop,List.take_append_drop,List.take_append_drop]

theorem bindingLength : (purpose.bindingPrefix owner).length = purpose.label.length + 16 := by
  simp [Purpose.bindingPrefix]

theorem boundOwner (plaintext : Bytes) : BitVec.ofNat 128 (BigEndian.read
    (((purpose.bindingPrefix owner ++ plaintext).drop purpose.label.length).take 16)) = owner := by
  unfold Purpose.bindingPrefix
  rw [List.append_assoc,List.drop_left,List.take_append_of_le_length (by simp),List.take_of_length_le (by simp),
    BigEndian.readFits owner.isLt]
  exact BitVec.ofNat_toNat ..

theorem openBound (owner' : BitVec 128) (purpose' : Purpose) (plaintext : Bytes) :
    openInner owner' purpose' (purpose.bindingPrefix owner ++ plaintext) =
      if owner = owner' ∧ purpose = purpose' then .ok plaintext else .error .binding := by
  have long : ¬(purpose.bindingPrefix owner ++ plaintext).length < purpose.label.length + 16 := by
    rw [List.length_append,bindingLength]
    omega
  have rest : (purpose.bindingPrefix owner ++ plaintext).drop (purpose.label.length + 16) = plaintext := by
    have skipped : purpose.label.length + 16 = (purpose.bindingPrefix owner).length := bindingLength.symm
    rw [skipped,List.drop_left]
  unfold openInner
  simp only [matchedBinding,long,if_false,boundOwner,rest]
  by_cases same : owner = owner' ∧ purpose = purpose'
  · simp [same.1,same.2]
  · rw [if_neg same,if_pos]
    by_contra none
    rw [not_or,not_not,not_not] at none
    exact same ⟨none.2,none.1⟩

theorem matchedPrefix {inner : Bytes} {labelLen} (matched : matchedLabel inner = some (purpose,labelLen)) :
    labelLen = purpose.label.length ∧ inner.take labelLen = purpose.label := by
  obtain ⟨known,_,found⟩ := List.exists_of_findSome?_eq_some matched
  split at found
  · rename_i same
    cases Option.some.inj found
    exact ⟨rfl,same⟩
  · simp at found

theorem openInnerBound {inner plaintext : Bytes} (ok : openInner owner purpose inner = .ok plaintext) :
    inner = purpose.bindingPrefix owner ++ plaintext := by
  unfold openInner at ok
  split at ok
  · simp at ok
  rename_i sealedPurpose labelLen matched
  split at ok
  · simp at ok
  rename_i long
  split at ok
  · simp at ok
  rename_i same
  rw [not_or,not_not,not_not] at same
  obtain ⟨rfl,bound⟩ := same
  obtain ⟨rfl,labelled⟩ := matchedPrefix matched
  cases Except.ok.inj ok
  have sixteen : ((inner.drop sealedPurpose.label.length).take 16).length = 16 := by
    rw [List.length_take,List.length_drop]
    omega
  have fits := BigEndian.readLt ((inner.drop sealedPurpose.label.length).take 16)
  rw [sixteen] at fits
  have number : owner.toNat = BigEndian.read ((inner.drop sealedPurpose.label.length).take 16) := by
    rw [← bound,BitVec.toNat_ofNat]
    exact Nat.mod_eq_of_lt (by simpa using fits)
  have written := BigEndian.writeRead ((inner.drop sealedPurpose.label.length).take 16)
  rw [sixteen] at written
  rw [Purpose.bindingPrefix,number,written,← labelled,List.append_assoc,← List.drop_drop,List.length_take,
    Nat.min_eq_left (by omega),List.take_append_drop,List.take_append_drop]

theorem openInnerFails {inner : Bytes} {error} (failed : openInner owner purpose inner = .error error) :
    error = .binding := by
  unfold openInner at failed
  split at failed
  · exact (Except.error.inj failed).symm
  split at failed
  · exact (Except.error.inj failed).symm
  split at failed
  · exact (Except.error.inj failed).symm
  · simp at failed

end Parts

section Binding
variable {gcm : Aead}

/- How open ends on an envelope that was never sealed. -/
inductive Refused (gcm : Aead) (envelope : Bytes) : Except CipherError Bytes → Prop where
  | version : Refused gcm envelope (.error .version)
  | auth : Refused gcm envelope (.error .auth)
  | binding (authentic : Authentic gcm envelope) : Refused gcm envelope (.error .binding)

theorem openSealedFor (ideal : Ideal gcm) (nonce : Nonce) (owner owner' : BitVec 128) (purpose purpose' : Purpose)
    (plaintext : Bytes) : openEnvelope gcm owner' purpose' (sealEnvelope gcm nonce owner purpose plaintext) =
      if owner = owner' ∧ purpose = purpose' then .ok plaintext else .error .binding := by
  unfold sealEnvelope
  rw [openParts nonce,ideal.opens]
  · exact openBound owner' purpose' plaintext
  · rw [ideal.tagged]
    omega

theorem openUnsealed (ideal : Ideal gcm) {envelope : Bytes} (unsealed : ¬IsSealed gcm envelope) (owner purpose) :
    Refused gcm envelope (openEnvelope gcm owner purpose envelope) := by
  by_cases version : envelope.take 2 = versionPrefix
  · by_cases long : envelope.length < versionPrefix.length + nonceLen + tagLen
    · unfold openEnvelope
      simp only [version,long,ne_eq,not_true_eq_false,if_false,if_true]
      exact .auth
    · obtain ⟨nonce,text,tag,rfl⟩ := envelopeParts version long
      rw [openParts nonce tag]
      cases decrypted : gcm.decrypt nonce.bytes text with
      | none => exact .auth
      | some inner =>
        have made := ideal.only _ _ _ decrypted
        subst made
        dsimp only
        cases opened : openInner owner purpose inner with
        | error error =>
          cases openInnerFails opened
          exact .binding ⟨nonce,inner,rfl⟩
        | ok plaintext =>
          -- A text that opens is bound, so its envelope was sealed.
          refine absurd ⟨nonce,owner,purpose,plaintext,?_⟩ unsealed
          rw [sealEnvelope,openInnerBound opened]
  · unfold openEnvelope
    rw [if_pos version]
    exact .version

/-- An envelope opens for the owner and the purpose it was sealed for and is refused as
wrongly bound for every other; what was not sealed never opens, and is refused as wrongly
bound only where it is an encryption under the key. -/
theorem envelopesOpenForBinding (ideal : Ideal gcm) :
    (∀ nonce owner owner' purpose purpose' plaintext,
      openEnvelope gcm owner' purpose' (sealEnvelope gcm nonce owner purpose plaintext) =
        if owner = owner' ∧ purpose = purpose' then .ok plaintext else .error .binding) ∧
      ∀ envelope, ¬IsSealed gcm envelope → ∀ owner purpose,
        Refused gcm envelope (openEnvelope gcm owner purpose envelope) :=
  ⟨fun nonce owner owner' purpose purpose' => openSealedFor ideal nonce owner owner' purpose purpose',
    fun _ unsealed => openUnsealed ideal unsealed⟩

end Binding

section Sample

/- The sealed pairs of account 1, and what AES-256-GCM under the same key makes of the
empty text and of a pair without a refresh token. -/
def sampleAuthentic : List (Bytes × Bytes × Bytes) :=
  sampleSealed ++ [
    (List.replicate 12 4,[],[89,111,28,17,13,244,79,84,144,91,89,216,197,90,251,51]),
    (List.replicate 12 5,Purpose.credential.bindingPrefix 1 ++ CredentialPayload.encode ⟨"access-2",""⟩,
      [4,61,120,48,78,22,230,67,126,13,76,8,221,81,143,110,177,12,202,221,121,174,
        178,186,73,57,35,127,176,194,7,114,34,178,130,221,161,128,120,47,128,231,251,
        91,147,207,204,83,166,11,103,207,154,9,180,15,32,234,207,64,4,150,239,97,166,
        98,71,54,85,43,212,186,108])]

def idealEncrypt (nonce inner : Bytes) : Bytes :=
  match sampleAuthentic.find? (fun s => s.1 = nonce ∧ s.2.1 = inner) with
  | some s => s.2.2
  | none => inner ++ List.replicate tagLen 0

def idealDecrypt (nonce text : Bytes) : Option Bytes :=
  match sampleAuthentic.find? (fun s => s.1 = nonce ∧ s.2.2 = text) with
  | some s => some s.2.1
  | none =>
    let inner := text.take (text.length - tagLen)
    if idealEncrypt nonce inner = text then some inner else none

theorem authenticNonces : ∀ s ∈ sampleAuthentic, ∀ s' ∈ sampleAuthentic, s.1 = s'.1 → s = s' := by decide +kernel

theorem authenticTags : ∀ s ∈ sampleAuthentic, s.2.2.length = s.2.1.length + tagLen ∧
    s.2.2.drop (s.2.2.length - tagLen) ≠ List.replicate tagLen 0 := by decide +kernel

theorem idealOpens (nonce inner) : idealDecrypt nonce (idealEncrypt nonce inner) = some inner := by
  cases known : sampleAuthentic.find? (fun s => s.1 = nonce ∧ s.2.1 = inner) with
  | some s =>
    obtain ⟨rfl,rfl⟩ : s.1 = nonce ∧ s.2.1 = inner := by simpa using List.find?_some known
    have member := List.mem_of_find?_eq_some known
    unfold idealDecrypt idealEncrypt
    simp only [known]
    split
    · rename_i s' found
      have same : s'.1 = s.1 ∧ s'.2.2 = s.2.2 := by simpa using List.find?_some found
      rw [authenticNonces s' (List.mem_of_find?_eq_some found) s member same.1]
    · rename_i absent
      have missing := List.find?_eq_none.mp absent s member
      simp at missing
  | none =>
    have text : idealEncrypt nonce inner = inner ++ List.replicate tagLen 0 := by
      unfold idealEncrypt
      simp only [known]
    unfold idealDecrypt
    rw [text]
    split
    · rename_i s found
      have same : s.1 = nonce ∧ s.2.2 = inner ++ List.replicate tagLen 0 := by simpa using List.find?_some found
      refine absurd ?_ (authenticTags s (List.mem_of_find?_eq_some found)).2
      rw [same.2]
      simp
    · simp [text]

theorem idealOnly {nonce text inner} (opened : idealDecrypt nonce text = some inner) : text = idealEncrypt nonce inner := by
  unfold idealDecrypt at opened
  split at opened
  · rename_i s found
    obtain ⟨rfl,rfl⟩ : s.1 = nonce ∧ s.2.2 = text := by simpa using List.find?_some found
    cases Option.some.inj opened
    have member := List.mem_of_find?_eq_some found
    unfold idealEncrypt
    split
    · rename_i s' found'
      have same : s'.1 = s.1 ∧ s'.2.1 = s.2.1 := by simpa using List.find?_some found'
      rw [authenticNonces s' (List.mem_of_find?_eq_some found') s member same.1]
    · rename_i absent
      have missing := List.find?_eq_none.mp absent s member
      simp at missing
  · simp only at opened
    split at opened
    · rename_i made
      cases Option.some.inj opened
      exact made.symm
    · simp at opened

theorem idealTagged (nonce inner) : (idealEncrypt nonce inner).length = inner.length + tagLen := by
  unfold idealEncrypt
  split
  · rename_i s found
    obtain ⟨rfl,rfl⟩ : s.1 = nonce ∧ s.2.1 = inner := by simpa using List.find?_some found
    exact (authenticTags s (List.mem_of_find?_eq_some found)).1
  · simp

def idealGcm : Aead where
  encrypt := idealEncrypt
  decrypt := idealDecrypt
  opens nonce inner _ := idealOpens nonce inner
  tagged nonce inner _ := idealTagged nonce inner

theorem sampleIdeal : Ideal idealGcm where
  opens := idealOpens
  only _ _ _ := idealOnly
  tagged := idealTagged

/- A sealed pair opens for its account alone, and a bare format marker is refused. -/
theorem envelopesOpenForBindingAtPair :
    openEnvelope idealGcm 1 .credential
        (sealEnvelope idealGcm (sampleNonce 1) 1 .credential (samplePair 1).encode) = .ok (samplePair 1).encode ∧
      openEnvelope idealGcm 2 .credential
        (sealEnvelope idealGcm (sampleNonce 1) 1 .credential (samplePair 1).encode) = .error .binding ∧
      Refused idealGcm [0x76,0x01] (openEnvelope idealGcm 1 .credential [0x76,0x01]) := by
  have law := envelopesOpenForBinding sampleIdeal
  refine ⟨(law.1 (sampleNonce 1) 1 1 .credential .credential (samplePair 1).encode).trans (by decide +kernel),
    (law.1 (sampleNonce 1) 1 2 .credential .credential (samplePair 1).encode).trans (by decide +kernel),
    law.2 [0x76,0x01] ?_ 1 .credential⟩
  rintro ⟨nonce,owner,purpose,plaintext,same⟩
  have length := congrArg List.length same
  simp [sealEnvelope,versionPrefix,nonce.length,nonceLen] at length

/-- The encryption of the empty text is no envelope that seal makes, and open refuses it as
wrongly bound. -/
theorem unsealedTextMisbound :
    Ideal idealGcm ∧ ∃ envelope, ¬IsSealed idealGcm envelope ∧
      openEnvelope idealGcm 1 .credential envelope = .error .binding := by
  refine ⟨sampleIdeal,versionPrefix ++ (sampleNonce 4).bytes ++ idealEncrypt (sampleNonce 4).bytes [],?_,
    by decide +kernel⟩
  rintro ⟨nonce,owner,purpose,plaintext,same⟩
  have length := congrArg List.length same
  have sized := idealTagged nonce.bytes (purpose.bindingPrefix owner ++ plaintext)
  have made : (sealEnvelope idealGcm nonce owner purpose plaintext).length =
      14 + (idealEncrypt nonce.bytes (purpose.bindingPrefix owner ++ plaintext)).length := by
    simp only [sealEnvelope,List.length_append,nonce.length]
    rfl
  have short : (versionPrefix ++ (sampleNonce 4).bytes ++ idealEncrypt (sampleNonce 4).bytes []).length = 30 := by
    decide +kernel
  rw [made,short,sized,List.length_append,bindingLength] at length
  simp only [tagLen] at length
  omega

end Sample
end RatatoskrX.SealedEnvelopes
