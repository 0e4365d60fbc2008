import Mathlib.Data.List.Induction
import Mathlib.Data.Nat.Notation
import Mathlib.Tactic.Ring

/-! Natural numbers as big-endian byte strings of a fixed width. The width truncates, so
reading back what was written gives the number modulo 256 to the width, and writing what was
read gives the bytes. -/
namespace BigEndian

def write : ℕ → ℕ → List UInt8
  | 0,_ => []
  | width + 1,n => write width (n / 256) ++ [UInt8.ofNat n]

def read (bytes : List UInt8) : ℕ := bytes.foldl (fun n byte => n * 256 + byte.toNat) 0

@[simp] theorem writeLength (width n : ℕ) : (write width n).length = width := by
  induction width generalizing n with
  | zero => rfl
  | succ width ih => simp [write,ih]

theorem readSnoc (bytes : List UInt8) (byte) : read (bytes ++ [byte]) = read bytes * 256 + byte.toNat := by
  simp [read]

theorem readWrite (width n : ℕ) : read (write width n) = n % 256 ^ width := by
  induction width generalizing n with
  | zero => simp [write,read,Nat.mod_one]
  | succ width ih =>
    rw [write,readSnoc,ih,Nat.pow_succ',Nat.mod_mul,UInt8.toNat_ofNat']
    ring

theorem readFits {width n : ℕ} (fits : n < 256 ^ width) : read (write width n) = n := by
  rw [readWrite,Nat.mod_eq_of_lt fits]

theorem readLt (bytes : List UInt8) : read bytes < 256 ^ bytes.length := by
  induction bytes using List.reverseRecOn with
  | nil => simp [read]
  | append_singleton bytes byte ih =>
    have bound := byte.toNat_lt
    rw [readSnoc,List.length_append,List.length_singleton,Nat.pow_succ]
    omega

theorem writeRead (bytes : List UInt8) : write bytes.length (read bytes) = bytes := by
  induction bytes using List.reverseRecOn with
  | nil => rfl
  | append_singleton bytes byte ih =>
    have bound := byte.toNat_lt
    have quotient : (read bytes * 256 + byte.toNat) / 256 = read bytes := by omega
    have last : UInt8.ofNat (read bytes * 256 + byte.toNat) = byte := by
      apply UInt8.toNat_inj.mp
      rw [UInt8.toNat_ofNat']
      omega
    rw [readSnoc,List.length_append,List.length_singleton,write,quotient,last,ih]

end BigEndian
