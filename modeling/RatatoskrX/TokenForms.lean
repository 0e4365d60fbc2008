import RatatoskrX.Foundation.FormEncoding
import RatatoskrX.TokenClient

/-! The requests of the token client: the fields of each, the body that carries them, and
what the form decoder of its receiver reads from that body. -/
namespace RatatoskrX.TokenForms
open JsonText Writeback Sealing Fingerprints TokenClient FormEncoding

section Bodies

def charFrom (byte : UInt8) : Char := Char.ofNat byte.toNat

/- The bytes that RFC 3986 leaves unreserved. -/
def unreserved (byte : UInt8) : Bool := (charFrom byte).isAlphanum || charFrom byte ∈ ['-','.','_','~']

/- A digit of the format 02X. -/
def upperDigit (n : Nat) : Char := "0123456789ABCDEF".toList.getD n '0'

def encodedByte (byte : UInt8) : Text :=
  if unreserved byte then [charFrom byte]
  else ['%',upperDigit (byte.toNat / 16),upperDigit (byte.toNat % 16)]

def percentEncode (value : String) : Text := (utf8 value).flatMap encodedByte

def pushField (body : Text) (field : String × String) : Text :=
  (if body = [] then body else body ++ ['&']) ++ percentEncode field.1 ++ ['='] ++ percentEncode field.2

def urlencoded (fields : List (String × String)) : Text := fields.foldl pushField []

example : urlencoded [("code","a b"),("","&=+%é")] = "code=a%20b&=%26%3D%2B%25%C3%A9".toList := by decide +kernel

end Bodies

/- The requests that post a form: exchange_code, refresh_token and revoke. -/
inductive TokenRequest where
  | exchangeCode (code redirectUri codeVerifier : String)
  | refreshToken (token : String)
  | revoke (token : String)
  deriving DecidableEq, Repr

def TokenRequest.fields : TokenRequest → List (String × String)
  | .exchangeCode code redirectUri codeVerifier =>
    [("grant_type","authorization_code"),("code",code),("redirect_uri",redirectUri),("code_verifier",codeVerifier)]
  | .refreshToken token => [("grant_type","refresh_token"),("refresh_token",token)]
  | .revoke token => [("token",token)]

/- The bytes of the body, as post_form_raw sends it. -/
def sentBody (fields : List (String × String)) : Bytes := utf8 (String.ofList (urlencoded fields))

/- What a form decoder reads: names and values are percent-decoded, then read as UTF-8. -/
def receivedFields (body : Bytes) : List (String × String) :=
  (decode body).map fun f => (String.ofList (fromUtf8Lossy f.1),String.ofList (fromUtf8Lossy f.2))

section Encoding

theorem unreservedLiteral : Literal unreserved := by
  intro b kept special
  simp only [List.mem_cons,List.not_mem_nil,or_false] at special
  rcases special with rfl | rfl | rfl | rfl <;> exact absurd kept (by decide)

theorem byteSent (b : UInt8) : (encodedByte b).flatMap String.utf8EncodeChar = encodeByte unreserved b := by
  have every : ∀ n : Fin 256, (encodedByte (UInt8.ofNat n)).flatMap String.utf8EncodeChar =
      encodeByte unreserved (UInt8.ofNat n) := by decide +kernel
  have here := every ⟨b.toNat,b.toNat_lt⟩
  rwa [UInt8.ofNat_toNat] at here

theorem componentSent (value : String) :
    (percentEncode value).flatMap String.utf8EncodeChar = encodeComponent unreserved (utf8 value) := by
  rw [percentEncode,List.flatMap_assoc,encodeComponent]
  exact congrArg (List.flatMap · (utf8 value)) (funext byteSent)

def pieceOf (field : String × String) : Text := percentEncode field.1 ++ '='::percentEncode field.2

theorem pieceSent (field : String × String) :
    (pieceOf field).flatMap String.utf8EncodeChar = encodeField unreserved (utf8 field.1,utf8 field.2) := by
  rw [pieceOf,List.flatMap_append,List.flatMap_cons,componentSent,componentSent]
  rfl

theorem pushLater {body : Text} (some_ : body ≠ []) (field) : pushField body field = body ++ '&'::pieceOf field := by
  simp [pushField,pieceOf,some_]

theorem pushFirst (field) : pushField [] field = pieceOf field := by simp [pushField,pieceOf]

theorem pieceNonempty (field) : pieceOf field ≠ [] := by simp [pieceOf]

theorem pushedFields {body : Text} (some_ : body ≠ []) (fields : List (String × String)) :
    fields.foldl pushField body = List.intercalate ['&'] (body::fields.map pieceOf) := by
  induction fields generalizing body with
  | nil => simp [List.intercalate]
  | cons field rest ih =>
    rw [List.foldl_cons,pushLater some_,ih (by simp [some_]),List.map_cons,List.intercalate_cons_cons]
    cases rest <;> simp [List.intercalate]

theorem bodyPieces (fields : List (String × String)) : urlencoded fields = List.intercalate ['&'] (fields.map pieceOf) := by
  cases fields with
  | nil => rfl
  | cons first rest =>
    rw [urlencoded,List.foldl_cons,pushFirst,pushedFields (pieceNonempty first),List.map_cons]

theorem bodySent (fields : List (String × String)) :
    sentBody fields = encode unreserved (fields.map fun field => (utf8 field.1,utf8 field.2)) := by
  have separator : ['&'].flatMap String.utf8EncodeChar = [0x26] := by decide
  rw [sentBody,utf8Chars,bodyPieces,Splitting.joinedSpelled,separator,encode,List.map_map,List.map_map]
  exact congrArg (List.intercalate [0x26]) (List.map_congr_left (fun field _ => pieceSent field))

theorem bodyReceived (fields : List (String × String)) : receivedFields (sentBody fields) = fields := by
  rw [receivedFields,bodySent,decodeEncode unreservedLiteral,List.map_map]
  refine (List.map_congr_left (fun field _ => ?_)).trans (List.map_id _)
  simp only [Function.comp_apply,lossyRead,String.ofList_toList]
  rfl

end Encoding

/-- Whatever the fields hold, a form decoder reads them back from the body; so the fields of a
token request are the ones it was made with, for every code, verifier and token. -/
theorem formCarriesFields :
    (∀ fields, receivedFields (sentBody fields) = fields) ∧
      ∀ request : TokenRequest, receivedFields (sentBody request.fields) = request.fields :=
  ⟨bodyReceived,fun request => bodyReceived request.fields⟩

end RatatoskrX.TokenForms
