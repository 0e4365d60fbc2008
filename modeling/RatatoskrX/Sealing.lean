import RatatoskrX.Foundation.BigEndian
import RatatoskrX.Writeback

/-! A credential at rest: the token pair in its byte encoding, sealed into a versioned
envelope bound to one owner and one purpose. AES-256-GCM under the configured key is a
parameter, of which the code relies on two documented facts. -/
namespace RatatoskrX.Sealing
open Writeback

abbrev Bytes := List UInt8

def nonceLen : Nat := 12
def tagLen : Nat := 16
def versionPrefix : Bytes := [0x76,0x01]

def plaintextMax : Nat := 2 ^ 36

structure Aead where
  encrypt : Bytes → Bytes → Bytes
  decrypt : Bytes → Bytes → Option Bytes
  opens : ∀ nonce inner, inner.length ≤ plaintextMax → decrypt nonce (encrypt nonce inner) = some inner
  tagged : ∀ nonce inner, inner.length ≤ plaintextMax → (encrypt nonce inner).length = inner.length + tagLen

structure Nonce where
  bytes : Bytes
  length : bytes.length = nonceLen
  deriving DecidableEq, Repr

inductive CipherError where
  | key | auth | binding | version
  deriving DecidableEq, Repr

inductive Purpose where
  | credential | intentVerifier
  deriving DecidableEq, Repr

namespace Purpose

def label : Purpose → Bytes
  | credential => utf8 "ratatoskr/x/credential/v1"
  | intentVerifier => utf8 "ratatoskr/x/intent-verifier/v1"

def bindingPrefix (purpose : Purpose) (owner : BitVec 128) : Bytes :=
  purpose.label ++ BigEndian.write 16 owner.toNat

end Purpose

/-- matched_label: the first purpose whose label the text begins with, and the label's length. -/
def matchedLabel (inner : Bytes) : Option (Purpose × Nat) :=
  [Purpose.credential,.intentVerifier].findSome? (fun purpose =>
    if inner.take purpose.label.length = purpose.label then some (purpose,purpose.label.length) else none)

def sealEnvelope (gcm : Aead) (nonce : Nonce) (owner : BitVec 128) (purpose : Purpose) (plaintext : Bytes) : Bytes :=
  versionPrefix ++ nonce.bytes ++ gcm.encrypt nonce.bytes (purpose.bindingPrefix owner ++ plaintext)

def openEnvelope (gcm : Aead) (owner : BitVec 128) (purpose : Purpose) (envelope : Bytes) :
    Except CipherError Bytes :=
  let bodyStart := versionPrefix.length + nonceLen
  if envelope.take 2 ≠ versionPrefix then .error .version
  else if envelope.length < bodyStart + tagLen then .error .auth
  else match gcm.decrypt ((envelope.drop versionPrefix.length).take nonceLen) (envelope.drop bodyStart) with
    | none => .error .auth
    | some inner => match matchedLabel inner with
      | none => .error .binding
      | some (sealedPurpose,labelLen) =>
        if inner.length < labelLen + 16 then .error .binding
        else if sealedPurpose ≠ purpose ∨
            BitVec.ofNat 128 (BigEndian.read ((inner.drop labelLen).take 16)) ≠ owner then .error .binding
        else .ok (inner.drop (labelLen + 16))

theorem matchedBinding (purpose : Purpose) (owner plaintext) :
    matchedLabel (purpose.bindingPrefix owner ++ plaintext) = some (purpose,purpose.label.length) := by
  unfold matchedLabel Purpose.bindingPrefix
  cases purpose with
  | credential =>
    rw [List.append_assoc,List.findSome?_cons,List.take_left]
    simp
  | intentVerifier =>
    have other : (Purpose.intentVerifier.label ++ BigEndian.write 16 owner.toNat ++ plaintext).take
        Purpose.credential.label.length ≠ Purpose.credential.label := by
      rw [List.append_assoc,List.take_append_of_le_length (by decide +kernel)]
      decide +kernel
    rw [List.findSome?_cons,if_neg other,List.append_assoc,List.findSome?_cons,List.take_left]
    simp

theorem openSealed (gcm : Aead) (nonce owner) (purpose : Purpose) {plaintext : Bytes}
    (short : (purpose.bindingPrefix owner ++ plaintext).length ≤ plaintextMax) :
    openEnvelope gcm owner purpose (sealEnvelope gcm nonce owner purpose plaintext) = .ok plaintext := by
  have head : (versionPrefix ++ nonce.bytes).length = versionPrefix.length + nonceLen := by
    rw [List.length_append,nonce.length]
  have version : (sealEnvelope gcm nonce owner purpose plaintext).take 2 = versionPrefix := by
    unfold sealEnvelope
    rw [List.append_assoc]
    exact List.take_left' rfl
  have long : ¬(sealEnvelope gcm nonce owner purpose plaintext).length < versionPrefix.length + nonceLen + tagLen := by
    unfold sealEnvelope
    rw [List.length_append,head,gcm.tagged _ _ short]
    omega
  have drawn : ((sealEnvelope gcm nonce owner purpose plaintext).drop versionPrefix.length).take nonceLen =
      nonce.bytes := by
    unfold sealEnvelope
    rw [List.append_assoc,List.drop_left,← nonce.length,List.take_left]
  have body : (sealEnvelope gcm nonce owner purpose plaintext).drop (versionPrefix.length + nonceLen) =
      gcm.encrypt nonce.bytes (purpose.bindingPrefix owner ++ plaintext) := by
    unfold sealEnvelope
    rw [← head,List.drop_left]
  have bound : (purpose.bindingPrefix owner).length = purpose.label.length + 16 := by
    simp [Purpose.bindingPrefix]
  have read : BitVec.ofNat 128 (BigEndian.read (((purpose.bindingPrefix owner ++ plaintext).drop
      purpose.label.length).take 16)) = owner := by
    unfold Purpose.bindingPrefix
    rw [List.append_assoc,List.drop_left,List.take_append_of_le_length (by simp),List.take_of_length_le (by simp),
      BigEndian.readFits owner.isLt]
    exact BitVec.ofNat_toNat ..
  have rest : (purpose.bindingPrefix owner ++ plaintext).drop (purpose.label.length + 16) = plaintext := by
    rw [← bound,List.drop_left]
  unfold openEnvelope
  simp only [version,long,drawn,body,gcm.opens _ _ short,matchedBinding,read,rest,ne_eq,not_true_eq_false,if_false,
    or_self]
  rw [if_neg]
  rw [List.length_append,bound]
  omega

structure CredentialPayload where
  accessToken : String
  refreshToken : String
  deriving DecidableEq, Repr

namespace CredentialPayload

def fromUtf8 (bytes : Bytes) : Option String := String.fromUTF8? ⟨bytes.toArray⟩

@[simp] theorem fromUtf8Encoded (s : String) : fromUtf8 (utf8 s) = some s := by
  have bytes : (⟨(utf8 s).toArray⟩ : ByteArray) = s.toByteArray := by simp [utf8]
  unfold fromUtf8 String.fromUTF8?
  rw [bytes,dif_pos s.isValidUTF8]
  rfl

/-- append_length_prefixed; a longer value saturates its prefix. -/
def lengthPrefixed (value : Bytes) : Bytes := BigEndian.write 4 (min value.length (2 ^ 32 - 1)) ++ value

def takeLengthPrefixed (bytes : Bytes) : Option (Bytes × Bytes) :=
  if bytes.length < 4 then none
  else
    let len := BigEndian.read (bytes.take 4)
    if bytes.length < 4 + len then none else some ((bytes.drop 4).take len,bytes.drop (4 + len))

def encode (p : CredentialPayload) : Bytes := lengthPrefixed (utf8 p.accessToken) ++ lengthPrefixed (utf8 p.refreshToken)

def decode (bytes : Bytes) : Option CredentialPayload := do
  let (access,rest) ← takeLengthPrefixed bytes
  let (refresh,tail) ← takeLengthPrefixed rest
  if tail ≠ [] then none
  else some ⟨← fromUtf8 access,← fromUtf8 refresh⟩

/- A prefix of four bytes holds the length of each token. -/
def Storable (p : CredentialPayload) : Prop :=
  (utf8 p.accessToken).length < 2 ^ 32 ∧ (utf8 p.refreshToken).length < 2 ^ 32

instance (p : CredentialPayload) : Decidable p.Storable := by unfold Storable; infer_instance

theorem takePrefixed {value : Bytes} (rest) (fits : value.length < 2 ^ 32) :
    takeLengthPrefixed (lengthPrefixed value ++ rest) = some (value,rest) := by
  have saturated : min value.length (2 ^ 32 - 1) = value.length := by omega
  have head : (lengthPrefixed value ++ rest).take 4 = BigEndian.write 4 value.length := by
    unfold lengthPrefixed
    rw [saturated,List.append_assoc,List.take_append_of_le_length (by simp),List.take_of_length_le (by simp)]
  have read : BigEndian.read ((lengthPrefixed value ++ rest).take 4) = value.length := by
    rw [head]
    exact BigEndian.readFits (by simpa using fits)
  have length : (lengthPrefixed value ++ rest).length = 4 + value.length + rest.length := by
    simp [lengthPrefixed]
    omega
  have body : (lengthPrefixed value ++ rest).drop 4 = value ++ rest := by
    unfold lengthPrefixed
    rw [List.append_assoc]
    exact List.drop_left' (by simp)
  unfold takeLengthPrefixed
  simp only [read]
  rw [if_neg (by omega),if_neg (by omega),body,← List.drop_drop,body,List.take_left,List.drop_left]

theorem decodeEncode {p : CredentialPayload} (storable : p.Storable) : decode p.encode = some p := by
  have last : takeLengthPrefixed (lengthPrefixed (utf8 p.refreshToken)) = some (utf8 p.refreshToken,[]) := by
    have taken := takePrefixed [] storable.2
    rwa [List.append_nil] at taken
  simp [decode,encode,takePrefixed _ storable.1,last]

theorem encodeLength (p : CredentialPayload) :
    p.encode.length = 8 + (utf8 p.accessToken).length + (utf8 p.refreshToken).length := by
  simp [encode,lengthPrefixed]
  omega

theorem takenPrefixed {bytes value rest : Bytes} (taken : takeLengthPrefixed bytes = some (value,rest)) :
    bytes = lengthPrefixed value ++ rest := by
  unfold takeLengthPrefixed at taken
  split at taken
  · simp at taken
  rename_i four
  simp only at taken
  split at taken
  · simp at taken
  rename_i long
  cases Option.some.inj taken
  have head : (bytes.take 4).length = 4 := by
    rw [List.length_take]
    omega
  have bound := BigEndian.readLt (bytes.take 4)
  rw [head] at bound
  have length : ((bytes.drop 4).take (BigEndian.read (bytes.take 4))).length = BigEndian.read (bytes.take 4) := by
    rw [List.length_take,List.length_drop]
    omega
  have written : BigEndian.write 4 (BigEndian.read (bytes.take 4)) = bytes.take 4 := by
    have same := BigEndian.writeRead (bytes.take 4)
    rwa [head] at same
  have saturated : min (BigEndian.read (bytes.take 4)) (2 ^ 32 - 1) = BigEndian.read (bytes.take 4) := by omega
  rw [lengthPrefixed,length,saturated,written,List.append_assoc,← List.drop_drop,List.take_append_drop,
    List.take_append_drop]

theorem utf8Decoded {bytes : Bytes} {s} (read : fromUtf8 bytes = some s) : utf8 s = bytes := by
  unfold fromUtf8 String.fromUTF8? at read
  split at read
  · cases Option.some.inj read
    rfl
  · simp at read

theorem encodeDecode {bytes : Bytes} {p} (ok : decode bytes = some p) : p.encode = bytes := by
  simp only [decode,bind,Option.bind_eq_some_iff] at ok
  obtain ⟨⟨access,rest⟩,first,⟨refresh,tail⟩,second,ok⟩ := ok
  split at ok
  · simp at ok
  rename_i ended
  simp only [ne_eq,not_not] at ended
  subst ended
  simp only [Option.bind_eq_some_iff] at ok
  obtain ⟨accessToken,left,refreshToken,right,same⟩ := ok
  cases Option.some.inj same
  have last := takenPrefixed second
  rw [List.append_nil] at last
  rw [encode,utf8Decoded left,utf8Decoded right,takenPrefixed first,← last]

/-- A storable pair decodes from its encoding, and a byte string that decodes is the encoding
of the pair it decodes to. -/
theorem payloadCodec : (∀ p : CredentialPayload, p.Storable → decode p.encode = some p) ∧
    (∀ bytes p, decode bytes = some p → p.encode = bytes) ∧
    ∀ bytes bytes' p, decode bytes = some p → decode bytes' = some p → bytes = bytes' := by
  refine ⟨fun _ => decodeEncode,fun _ _ => encodeDecode,?_⟩
  intro bytes bytes' p left right
  rw [← encodeDecode left,← encodeDecode right]

theorem payloadCodecAtPair :
    decode (CredentialPayload.encode ⟨"access","refresh"⟩) = some ⟨"access","refresh"⟩ ∧
      CredentialPayload.encode ⟨"é",""⟩ = [0,0,0,2,195,169,0,0,0,0] :=
  ⟨payloadCodec.1 _ (by decide +kernel),payloadCodec.2.1 _ _ (by decide +kernel)⟩

end CredentialPayload
end RatatoskrX.Sealing
