import Mathlib.Data.List.Basic

/-! Base64 in the alphabet that is safe in an URL, without padding: three bytes are four
letters, and a last byte or two are two letters or three. -/
namespace Base64Url

def alphabet : List Char := "ABCDEFGHIJKLMNOPQRSTUVWXYZabcdefghijklmnopqrstuvwxyz0123456789-_".toList

def letter (n : Nat) : Char := alphabet.getD n 'A'

def sextets : List UInt8 → List Nat
  | a::b::c::rest =>
    let n := a.toNat * 65536 + b.toNat * 256 + c.toNat
    n / 262144::n / 4096 % 64::n / 64 % 64::n % 64::sextets rest
  | [a,b] =>
    let n := (a.toNat * 256 + b.toNat) * 4
    [n / 4096,n / 64 % 64,n % 64]
  | [a] =>
    let n := a.toNat * 16
    [n / 64,n % 64]
  | [] => []

def encode (bytes : List UInt8) : List Char := (sextets bytes).map letter

example : encode [102,111,111,98] = "Zm9vYg".toList ∧ encode [251,255] = "-_8".toList := by decide

/- What sextets make, eight bits at a time; bits that fill no byte are dropped. -/
def bytes : List Nat → List UInt8
  | a::b::c::d::rest =>
    let n := ((a * 64 + b) * 64 + c) * 64 + d
    UInt8.ofNat (n / 65536)::UInt8.ofNat (n / 256 % 256)::UInt8.ofNat (n % 256)::bytes rest
  | [a,b,c] =>
    let n := (a * 64 + b) * 64 + c
    [UInt8.ofNat (n / 1024),UInt8.ofNat (n / 4 % 256)]
  | [a,b] => [UInt8.ofNat ((a * 64 + b) / 16)]
  | _ => []

def decode (text : List Char) : List UInt8 := bytes (text.map (alphabet.idxOf ·))

theorem sextetsLength (raw : List UInt8) : (sextets raw).length = (raw.length * 4 + 2) / 3 := by
  fun_induction sextets raw with
  | case1 a b c rest n ih =>
    simp only [List.length_cons,ih]
    omega
  | _ => simp

theorem encodeLength (raw : List UInt8) : (encode raw).length = (raw.length * 4 + 2) / 3 := by
  rw [encode,List.length_map,sextetsLength]

theorem sextetsBelow (raw : List UInt8) : ∀ n ∈ sextets raw, n < 64 := by
  fun_induction sextets raw with
  | case1 a b c rest n ih =>
    have bounds := And.intro a.toNat_lt (And.intro b.toNat_lt c.toNat_lt)
    simp only [List.mem_cons]
    rintro m (rfl | rfl | rfl | rfl | later)
    · omega
    · exact Nat.mod_lt _ (by decide)
    · exact Nat.mod_lt _ (by decide)
    · exact Nat.mod_lt _ (by decide)
    · exact ih m later
  | case2 a b n =>
    have bounds := And.intro a.toNat_lt b.toNat_lt
    simp only [List.mem_cons,List.not_mem_nil,or_false]
    rintro m (rfl | rfl | rfl) <;> omega
  | case3 a n =>
    have bound := a.toNat_lt
    simp only [List.mem_cons,List.not_mem_nil,or_false]
    rintro m (rfl | rfl) <;> omega
  | case4 => simp

theorem bytesSextets (raw : List UInt8) : bytes (sextets raw) = raw := by
  fun_induction sextets raw with
  | case1 a b c rest n ih =>
    have bounds := And.intro a.toNat_lt (And.intro b.toNat_lt c.toNat_lt)
    have whole : ((n / 262144 * 64 + n / 4096 % 64) * 64 + n / 64 % 64) * 64 + n % 64 = n := by omega
    have first : n / 65536 = a.toNat := by omega
    have second : n / 256 % 256 = b.toNat := by omega
    have third : n % 256 = c.toNat := by omega
    simp only [bytes,whole,first,second,third,UInt8.ofNat_toNat,ih]
  | case2 a b n =>
    have bounds := And.intro a.toNat_lt b.toNat_lt
    have whole : (n / 4096 * 64 + n / 64 % 64) * 64 + n % 64 = n := by omega
    have first : n / 1024 = a.toNat := by omega
    have second : n / 4 % 256 = b.toNat := by omega
    simp only [bytes,whole,first,second,UInt8.ofNat_toNat]
  | case3 a n =>
    have bound := a.toNat_lt
    have whole : (n / 64 * 64 + n % 64) / 16 = a.toNat := by omega
    simp only [bytes,whole,UInt8.ofNat_toNat]
  | case4 => rfl

theorem letterIndex {n : Nat} (small : n < 64) : alphabet.idxOf (letter n) = n := by
  have every : ∀ n : Fin 64, alphabet.idxOf (letter n) = n := by decide +kernel
  exact every ⟨n,small⟩

theorem decodeEncode (raw : List UInt8) : decode (encode raw) = raw := by
  have indices : (encode raw).map (alphabet.idxOf ·) = sextets raw := by
    rw [encode,List.map_map]
    exact (List.map_congr_left (fun n member => letterIndex (sextetsBelow raw n member))).trans (List.map_id _)
  rw [decode,indices,bytesSextets]

theorem encodeLetters (raw : List UInt8) : ∀ c ∈ encode raw, c ∈ alphabet := by
  have every : ∀ n : Fin 64, letter n ∈ alphabet := by decide +kernel
  intro c member
  obtain ⟨n,there,rfl⟩ := List.mem_map.mp member
  exact every ⟨n,sextetsBelow raw n there⟩

end Base64Url
