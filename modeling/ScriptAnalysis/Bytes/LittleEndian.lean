namespace ScriptAnalysis

namespace LittleEndian

def ofNat : (width : Nat) → (n : Nat) → List UInt8
  | 0, _ => []
  | width + 1, n => UInt8.ofNat (n % 256) :: ofNat width (n / 256)

def toNat : List UInt8 → Nat
  | [] => 0
  | byte :: bytes => byte.toNat + 256 * toNat bytes

@[simp]
theorem length_ofNat (width n : Nat) : (ofNat width n).length = width := by
  induction width generalizing n with
  | zero => rfl
  | succ width ih => simp [ofNat, ih]

theorem ofNat_toNat (bytes : List UInt8) : ofNat bytes.length (toNat bytes) = bytes := by
  induction bytes with
  | nil => rfl
  | cons byte bytes ih =>
    have := byte.toNat_lt
    simp only [List.length_cons, ofNat, toNat, List.cons.injEq]
    constructor
    . rw [show (byte.toNat + 256 * toNat bytes) % 256 = byte.toNat by omega]
      simp
    . rw [show (byte.toNat + 256 * toNat bytes) / 256 = toNat bytes by omega]
      exact ih

end LittleEndian

end ScriptAnalysis
