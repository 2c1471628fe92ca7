import Mathlib
import ScriptAnalysis.Bytes.LittleEndian

namespace ScriptAnalysis

namespace LittleEndian

theorem toNat_lt (bytes : List UInt8) : toNat bytes < 256 ^ bytes.length := by
  induction bytes with
  | nil => simp [toNat]
  | cons byte bytes ih =>
    have := byte.toNat_lt
    simp only [toNat, List.length_cons, Nat.pow_succ]
    omega

theorem toNat_ofNat (width n : Nat) : toNat (ofNat width n) = n % 256 ^ width := by
  induction width generalizing n with
  | zero => simp [ofNat, toNat, Nat.mod_one]
  | succ width ih =>
    have : (UInt8.ofNat (n % 256)).toNat = n % 256 := by simp
    rw [ofNat, toNat, ih, this, Nat.pow_succ', Nat.mod_mul]

theorem toNat_ofNat_of_lt {width n : Nat} (h : n < 256 ^ width) : toNat (ofNat width n) = n := by
  rw [toNat_ofNat, Nat.mod_eq_of_lt h]

theorem toNat_append (front back : List UInt8)
    : toNat (front ++ back) = toNat front + 256 ^ front.length * toNat back := by
  induction front with
  | nil => simp [toNat]
  | cons byte front ih =>
    rw [List.cons_append, toNat, toNat, ih, List.length_cons, Nat.pow_succ']
    ring

theorem toNat_concat (front : List UInt8) (last : UInt8)
    : toNat (front ++ [last]) = toNat front + 256 ^ front.length * last.toNat := by
  rw [toNat_append, toNat, toNat, Nat.mul_zero, Nat.add_zero]

theorem eq_of_toNat_eq {first second : List UInt8} (hlength : first.length = second.length)
    (h : toNat first = toNat second)
    : first = second := by
  rw [← ofNat_toNat first, ← ofNat_toNat second, hlength, h]

end LittleEndian

end ScriptAnalysis
