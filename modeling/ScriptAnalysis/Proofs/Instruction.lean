import Mathlib
import ScriptAnalysis.Bytes.LittleEndian.Lemmas
import ScriptAnalysis.Instruction.Decode

namespace ScriptAnalysis

theorem LengthWidth.le_maxLength_iff {width : LengthWidth} {length : Nat}
    : length ≤ width.maxLength ↔ length < 256 ^ width.bytes := by
  cases width <;> simp only [maxLength, bytes] <;> omega

theorem Opcode.carriesData_iff {op : Opcode}
    : op.carriesData = true ↔ 0x01 ≤ op.byte ∧ op.byte ≤ 0x4e := by
  rcases op with ⟨byte⟩
  simp only [carriesData, operand, pushData1, pushData2, pushData4, mk.injEq,
    UInt8.le_iff_toNat_le, ← UInt8.toNat_inj, UInt8.reduceToNat]
  split_ifs <;> simp <;> omega

namespace Instruction

section Operand

variable {opcode : Opcode} {payload : List UInt8}

theorem fits_iff_of_none (h : opcode.operand = .none)
    : Fits ⟨opcode, payload⟩ ↔ payload = [] := by
  simp [Fits, h]

theorem fits_iff_of_fixed {length : Nat} (h : opcode.operand = .fixed length)
    : Fits ⟨opcode, payload⟩ ↔ payload.length = length := by
  simp [Fits, h]

theorem bytes_of_none (h : opcode.operand = .none)
    : bytes ⟨opcode, payload⟩ = opcode.byte :: payload := by
  simp [bytes, lengthField, h]

theorem bytes_of_fixed {length : Nat} (h : opcode.operand = .fixed length)
    : bytes ⟨opcode, payload⟩ = opcode.byte :: payload := by
  simp [bytes, lengthField, h]

theorem size_of_none (h : opcode.operand = .none)
    : size ⟨opcode, payload⟩ = 1 + payload.length := by
  simp [size, lengthField, h]

theorem size_of_fixed {length : Nat} (h : opcode.operand = .fixed length)
    : size ⟨opcode, payload⟩ = 1 + payload.length := by
  simp [size, lengthField, h]

theorem size_of_prefixed {width : LengthWidth} (h : opcode.operand = .prefixed width)
    : size ⟨opcode, payload⟩ = 1 + width.bytes + payload.length := by
  simp [size, lengthField, h]

end Operand

theorem Fits.carriesData {ins : Instruction} (h : ins.Fits) (hpayload : ins.payload ≠ [])
    : ins.opcode.carriesData = true := by
  rw [Opcode.carriesData, decide_eq_true_iff]
  intro hnone
  exact hpayload ((fits_iff_of_none hnone).mp h)

theorem fits_of_decode {opcode : Opcode} {rest tail : List UInt8} {ins : Instruction}
    (h : decode opcode rest = .ok (ins, tail))
    : ins.Fits := by
  unfold decode at h
  split at h
  . next hop =>
    cases h
    simp [Fits, hop]
  . next hop =>
    split at h
    . next hcut =>
      cases h
      have := (Block.cut?_eq_some_iff.mp hcut).right
      simpa [Fits, hop]
    . contradiction
  . next hop =>
    split at h
    . contradiction
    . next field body hfield =>
      dsimp at h
      split at h
      . next hcut =>
        cases h
        have hwidth := (Block.cut?_eq_some_iff.mp hfield).right
        have hlength := (Block.cut?_eq_some_iff.mp hcut).right
        simp only [Fits, hop]
        rw [LengthWidth.le_maxLength_iff, hlength, ← hwidth]
        apply LittleEndian.toNat_lt
      . contradiction

theorem decode_of_fits {ins : Instruction} (h : ins.Fits) (tail : List UInt8)
    : decode ins.opcode (ins.lengthField ++ ins.payload ++ tail) = .ok (ins, tail) := by
  rcases ins with ⟨opcode, payload⟩
  cases hop : opcode.operand with
  | none =>
    simp only [Fits, hop] at h
    simp [decode, lengthField, hop, h]
  | fixed length =>
    simp only [Fits, hop] at h
    simp only [decode, lengthField, hop, List.nil_append]
    rw [Block.cut?_eq_some_iff.mpr ⟨rfl, h⟩]
  | prefixed width =>
    simp only [Fits, hop, LengthWidth.le_maxLength_iff] at h
    simp only [decode, lengthField, hop, List.append_assoc]
    rw [Block.cut?_eq_some_iff.mpr ⟨rfl, LittleEndian.length_ofNat ..⟩]
    dsimp
    rw [LittleEndian.toNat_ofNat_of_lt h]
    rw [Block.cut?_eq_some_iff.mpr ⟨rfl, rfl⟩]

theorem decode_eq_ok_iff {opcode : Opcode} {rest tail : List UInt8} {ins : Instruction}
    : decode opcode rest = .ok (ins, tail)
        ↔
      ins.Fits ∧ ins.bytes ++ tail = opcode.byte :: rest := by
  constructor
  . intro h
    exact ⟨fits_of_decode h, bytes_append_of_decode h⟩
  . rintro ⟨hfits, hbytes⟩
    simp only [bytes, List.cons_append, List.cons.injEq] at hbytes
    rcases ins with ⟨⟨byte⟩, payload⟩
    rcases opcode with ⟨byte'⟩
    obtain ⟨rfl, rfl⟩ := hbytes
    apply decode_of_fits hfits

end Instruction

end ScriptAnalysis
