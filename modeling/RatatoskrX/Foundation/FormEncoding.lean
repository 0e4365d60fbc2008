import RatatoskrX.Foundation.Splitting

/-! The media type application/x-www-form-urlencoded on bytes: fields with an ampersand
between them, each a name and a value around an equals sign. A byte that the encoder does not
keep is a percent sign and two hexadecimal digits; a decoder reads a plus sign as a space and
skips what is empty between two ampersands. -/
namespace FormEncoding

abbrev Field := List UInt8 × List UInt8

section Decoding

def digitValue (b : UInt8) : Option ℕ :=
  if 0x30 ≤ b ∧ b ≤ 0x39 then some (b.toNat - 0x30)
  else if 0x41 ≤ b ∧ b ≤ 0x46 then some (b.toNat - 0x37)
  else if 0x61 ≤ b ∧ b ≤ 0x66 then some (b.toNat - 0x57)
  else none

/- A percent sign without two digits behind it stands for itself. -/
def percentDecode : List UInt8 → List UInt8
  | [] => []
  | b::rest =>
    if b = 0x25 then
      match rest with
      | high::low::later =>
        match digitValue high, digitValue low with
        | some h, some l => UInt8.ofNat (h * 16 + l)::percentDecode later
        | _, _ => b::percentDecode (high::low::later)
      | short => b::short
    else b::percentDecode rest

theorem decodeOther {b : UInt8} (other : b ≠ 0x25) (rest : List UInt8) :
    percentDecode (b::rest) = b::percentDecode rest := by
  rw [percentDecode.eq_def]
  simp only [if_neg other]

theorem decodeEscape {high low : UInt8} {h l : ℕ} (first : digitValue high = some h) (second : digitValue low = some l)
    (rest : List UInt8) : percentDecode (0x25::high::low::rest) = UInt8.ofNat (h * 16 + l)::percentDecode rest := by
  rw [percentDecode.eq_def]
  simp only [if_true,first,second]

def plusToSpace (bytes : List UInt8) : List UInt8 := bytes.map fun b => if b = 0x2b then 0x20 else b

def decodeComponent (bytes : List UInt8) : List UInt8 := percentDecode (plusToSpace bytes)

def decodeField (part : List UInt8) : Field :=
  (decodeComponent (part.takeWhile (· ≠ 0x3d)),decodeComponent ((part.dropWhile (· ≠ 0x3d)).drop 1))

def decode (body : List UInt8) : List Field := ((body.splitOn 0x26).filter (· ≠ [])).map decodeField

end Decoding

section Encoding

def digit (n : ℕ) : UInt8 := UInt8.ofNat (if n < 10 then 0x30 + n else 0x37 + n)

def encodeByte (keep : UInt8 → Bool) (b : UInt8) : List UInt8 :=
  if keep b then [b] else [0x25,digit (b.toNat / 16),digit (b.toNat % 16)]

def encodeComponent (keep : UInt8 → Bool) (bytes : List UInt8) : List UInt8 := bytes.flatMap (encodeByte keep)

def encodeField (keep : UInt8 → Bool) (f : Field) : List UInt8 :=
  encodeComponent keep f.1 ++ 0x3d::encodeComponent keep f.2

def encode (keep : UInt8 → Bool) (fields : List Field) : List UInt8 :=
  List.intercalate [0x26] (fields.map (encodeField keep))

/- What is kept means itself to a decoder. -/
def Literal (keep : UInt8 → Bool) : Prop := ∀ b, keep b = true → b ∉ [0x25,0x26,0x2b,0x3d]

end Encoding

section RoundTrip

theorem digitRead {n : ℕ} (small : n < 16) : digitValue (digit n) = some n := by
  have every : ∀ n : Fin 16, digitValue (digit n) = some n.val := by decide
  exact every ⟨n,small⟩

theorem digitPlain {n : ℕ} (small : n < 16) : digit n ∉ [0x25,0x26,0x2b,0x3d] := by
  have every : ∀ n : Fin 16, digit n ∉ [0x25,0x26,0x2b,0x3d] := by decide
  exact every ⟨n,small⟩

variable {keep : UInt8 → Bool}

theorem componentPlain (literal : Literal keep) {bytes : List UInt8} {b : UInt8} (member : b ∈ encodeComponent keep bytes) :
    b ∉ [0x26,0x2b,0x3d] := by
  obtain ⟨x,_,inside⟩ := List.mem_flatMap.mp member
  have bound := x.toNat_lt
  unfold encodeByte at inside
  split at inside
  · rename_i kept
    rw [List.mem_singleton.mp inside]
    exact fun special => literal x kept (List.mem_cons_of_mem _ special)
  · obtain rfl | rfl | rfl : b = 0x25 ∨ b = digit (x.toNat / 16) ∨ b = digit (x.toNat % 16) := by simpa using inside
    · decide
    · exact fun special => digitPlain (by omega) (List.mem_cons_of_mem _ special)
    · exact fun special => digitPlain (by omega) (List.mem_cons_of_mem _ special)

theorem componentNoPlus (literal : Literal keep) (bytes : List UInt8) :
    plusToSpace (encodeComponent keep bytes) = encodeComponent keep bytes := by
  refine (List.map_congr_left (fun b member => ?_)).trans (List.map_id _)
  exact if_neg (fun plus => componentPlain literal member (by simp [plus]))

theorem byteDecoded (literal : Literal keep) (b : UInt8) (rest : List UInt8) :
    percentDecode (encodeByte keep b ++ rest) = b::percentDecode rest := by
  have bound := b.toNat_lt
  unfold encodeByte
  split
  · rename_i kept
    have other : b ≠ 0x25 := fun percent => literal b kept (by simp [percent])
    rw [List.singleton_append,decodeOther other]
  · have whole : b.toNat / 16 * 16 + b.toNat % 16 = b.toNat := by omega
    rw [List.cons_append,List.cons_append,List.singleton_append,
      decodeEscape (digitRead (by omega)) (digitRead (by omega)),whole,UInt8.ofNat_toNat]

theorem componentDecoded (literal : Literal keep) (bytes : List UInt8) :
    decodeComponent (encodeComponent keep bytes) = bytes := by
  rw [decodeComponent,componentNoPlus literal]
  induction bytes with
  | nil => rfl
  | cons b rest ih =>
    rw [encodeComponent,List.flatMap_cons,byteDecoded literal]
    exact congrArg (b::·) ih

theorem fieldDecoded (literal : Literal keep) (f : Field) : decodeField (encodeField keep f) = f := by
  have name : ∀ b ∈ encodeComponent keep f.1, decide (b ≠ 0x3d) = true := by
    intro b member
    exact decide_eq_true (fun equals => componentPlain literal member (by simp [equals]))
  simp only [decodeField,encodeField]
  rw [List.takeWhile_append_of_pos name,List.dropWhile_append_of_pos name,List.takeWhile_cons_of_neg (by simp),
    List.dropWhile_cons_of_neg (by simp),List.append_nil,List.drop_one,List.tail_cons,componentDecoded literal,
    componentDecoded literal]

theorem fieldApart (literal : Literal keep) (f : Field) : 0x26 ∉ encodeField keep f := by
  intro member
  obtain name | value := List.mem_append.mp member
  · exact componentPlain literal name (by simp)
  · obtain same | inside := List.mem_cons.mp value
    · simp at same
    · exact componentPlain literal inside (by simp)

theorem fieldNonempty (f : Field) : encodeField keep f ≠ [] := by simp [encodeField]

theorem decodeEncode (literal : Literal keep) (fields : List Field) : decode (encode keep fields) = fields := by
  cases fields with
  | nil => rfl
  | cons first rest =>
    have apart : ∀ part ∈ (first::rest).map (encodeField keep), 0x26 ∉ part := by
      intro part member
      obtain ⟨f,_,rfl⟩ := List.mem_map.mp member
      exact fieldApart literal f
    have each : ((first::rest).map (encodeField keep)).filter (· ≠ []) = (first::rest).map (encodeField keep) := by
      refine List.filter_eq_self.mpr (fun part member => ?_)
      obtain ⟨f,_,rfl⟩ := List.mem_map.mp member
      exact decide_eq_true (fieldNonempty f)
    rw [decode,encode,List.splitOn_intercalate 0x26 apart (by simp),each,List.map_map]
    exact (List.map_congr_left (fun f _ => fieldDecoded literal f)).trans (List.map_id _)

end RoundTrip
end FormEncoding
