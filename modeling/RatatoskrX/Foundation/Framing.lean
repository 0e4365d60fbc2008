import Mathlib.Data.Nat.ModEq
import RatatoskrX.Foundation.BigEndian

/-! Byte strings one behind another, each after its length in a fixed number of big-endian
bytes. The width truncates the length, so two strings are told apart where their lengths
differ by less than it can count. -/
namespace Framing

def frame (width : ℕ) (part : List UInt8) : List UInt8 := BigEndian.write width part.length ++ part

def Near (width : ℕ) (p q : List UInt8) : Prop :=
  p.length < q.length + 256 ^ width ∧ q.length < p.length + 256 ^ width

theorem nearShort {width p q} (left : p.length < 256 ^ width) (right : q.length < 256 ^ width) : Near width p q :=
  ⟨by omega,by omega⟩

@[simp] theorem frameLength (width part) : (frame width part).length = width + part.length := by
  simp [frame]

theorem frameCancel {width p q x y} (near : Near width p q) (same : frame width p ++ x = frame width q ++ y) :
    p = q ∧ x = y := by
  unfold frame at same
  rw [List.append_assoc,List.append_assoc] at same
  obtain ⟨heads,tails⟩ := List.append_inj same (by simp)
  have residue := congrArg BigEndian.read heads
  rw [BigEndian.readWrite,BigEndian.readWrite] at residue
  obtain ⟨left,right⟩ := near
  have close : |(q.length : ℤ) - p.length| < (256 ^ width : ℕ) := by
    rw [abs_lt]
    omega
  exact List.append_inj tails (Nat.ModEq.eq_of_abs_lt residue close)

theorem framesDetermine {width ps qs} (near : List.Forall₂ (Near width) ps qs)
    (same : ps.flatMap (frame width) = qs.flatMap (frame width)) : ps = qs := by
  induction near with
  | nil => rfl
  | cons head _ ih =>
    obtain ⟨rfl,rest⟩ := frameCancel head same
    rw [ih rest]

end Framing
