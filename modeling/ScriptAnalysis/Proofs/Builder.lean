import ScriptAnalysis.Builder.Basic
import ScriptAnalysis.Proofs.Canonical
import ScriptAnalysis.Proofs.ScriptNumber

namespace ScriptAnalysis

def Instruction.ofInt (value : Int) : Instruction :=
  canonicalPush (ScriptNumber.encode value)

namespace Instruction

theorem ofInt_natCast_of_le {n : Nat} (h : n ≤ 16) : ofInt n = ⟨.smallInt n, []⟩ := by
  have : ∀ n : Fin 17, ofInt n.val = ⟨.smallInt n.val, []⟩ := by decide +kernel
  exact this ⟨n, by omega⟩

theorem ofInt_natCast_of_lt {n : Nat} (hlow : 16 < n) (hhigh : n < 128)
    : ofInt n = ⟨.data 1, [UInt8.ofNat n]⟩ := by
  have hbyte : (UInt8.ofNat n).toNat = n := by
    rw [UInt8.toNat_ofNat']
    omega
  have hstanding : Opcode.standingFor? [UInt8.ofNat n] = none := by
    simp only [Opcode.standingFor?, UInt8.le_iff_toNat_le, ← UInt8.toNat_inj, hbyte]
    rw [if_neg (by simpa using hlow), if_neg (by simp; omega)]
  unfold ofInt
  rw [ScriptNumber.encode_natCast_of_lt (by omega) hhigh]
  simp [canonicalPush, hstanding, LengthWidth.shortest?]

theorem length_encode_natCast_le {n : Nat} (h : n < 128) : (ScriptNumber.encode n).length ≤ 1 := by
  cases Nat.eq_zero_or_pos n with
  | inl hzero =>
    subst hzero
    decide +kernel
  | inr hpos => simp [ScriptNumber.encode_natCast_of_lt hpos h]

theorem size_ofInt_natCast_le {n : Nat} (h : n < 128) : (ofInt n).size ≤ 2 := by
  cases Nat.lt_or_ge 16 n with
  | inl hlow =>
    rw [ofInt_natCast_of_lt hlow h]
    rw [size_of_fixed (Opcode.operand_data (Nat.le_refl 1) (by decide))]
    simp
  | inr hle =>
    rw [ofInt_natCast_of_le hle, size_of_none (Opcode.operand_smallInt hle)]
    simp

theorem fits_ofInt_natCast {n : Nat} (h : n < 128) : (ofInt n).Fits := by
  apply fits_canonicalPush
  apply Nat.le_trans (length_encode_natCast_le h)
  decide

theorem ofInt_neg_one : ofInt (-1) = ⟨.negate1, []⟩ := by
  decide +kernel

end Instruction

namespace ScriptBuilder

@[simp]
theorem script_empty : empty.script = [] := by
  rfl

@[simp]
theorem script_append (builder : ScriptBuilder) (bytes : List UInt8)
    : (builder.append bytes).script = builder.script ++ bytes := by
  rfl

theorem append_append (builder : ScriptBuilder) (front back : List UInt8)
    : (builder.append front).append back = builder.append (front ++ back) := by
  simp [append]

theorem hasRoom_append_iff {builder : ScriptBuilder} {bytes : List UInt8} {size : Nat}
    : (builder.append bytes).HasRoom size ↔ builder.HasRoom (bytes.length + size) := by
  simp [HasRoom, Nat.add_assoc]

theorem hasRoom_of_le {builder : ScriptBuilder} {small large : Nat} (h : builder.HasRoom large)
    (hle : small ≤ large)
    : builder.HasRoom small := by
  unfold HasRoom at *
  omega

theorem addData_of_fits {builder : ScriptBuilder} {data : List UInt8}
    (hroom : builder.HasRoom (Instruction.canonicalPush data).size)
    (hsize : data.length ≤ Limits.maxElementSize)
    : builder.addData data = .ok (builder.append (Instruction.canonicalPush data).bytes) := by
  rw [Instruction.size_canonicalPush] at hroom
  unfold addData
  rw [if_neg (by simpa using hroom), if_neg (by omega)]

theorem addData_of_opcode {builder : ScriptBuilder} {data : List UInt8} {opcode : Opcode}
    (hpush : Instruction.canonicalPush data = ⟨opcode, []⟩) (hop : opcode.operand = .none)
    (hroom : builder.HasRoom 1)
    : builder.addData data = .ok (builder.append [opcode.byte]) := by
  rw [addData_of_fits, hpush, Instruction.bytes_of_none hop]
  . rw [hpush, Instruction.size_of_none hop]
    exact hroom
  . have : data.length ≤ 1 := by
      apply Instruction.length_le_one_of_payload_eq_nil
      rw [hpush]
    unfold Limits.maxElementSize
    omega

theorem addInt_of_hasRoom {builder : ScriptBuilder} (hroom : builder.HasRoom 1) (value : Int64)
    : builder.addInt value = builder.addData (ScriptNumber.encode value.toInt) := by
  unfold addInt
  rw [if_neg (by simpa using hroom)]
  -- The small integers that `addInt` has an opcode for are pushed by the same opcode as data.
  split
  . next hvalue =>
    rw [Int64.le_iff_toInt_le, Int64.le_iff_toInt_le] at hvalue
    obtain ⟨n, hn⟩ := Int.eq_ofNat_of_zero_le hvalue.left
    have hle : n ≤ 16 := by
      have : value.toInt ≤ 16 := hvalue.right
      omega
    rw [hn, Int.toNat_natCast]
    rw [addData_of_opcode (Instruction.ofInt_natCast_of_le hle) (Opcode.operand_smallInt hle) hroom]
  . split
    . next hvalue =>
      rw [hvalue]
      exact (addData_of_opcode Instruction.ofInt_neg_one (by decide) hroom).symm
    . rfl

theorem addInt_ofNat {builder : ScriptBuilder} {n : Nat} (h : n < 128)
    (hroom : builder.HasRoom (Instruction.ofInt n).size)
    : builder.addInt (.ofNat n) = .ok (builder.append (Instruction.ofInt n).bytes) := by
  have hvalue : (Int64.ofNat n).toInt = n := by
    apply Int64.toInt_ofNat_of_lt
    omega
  rw [addInt_of_hasRoom (hasRoom_of_le hroom (Instruction.size_pos _)), hvalue]
  apply addData_of_fits hroom
  apply Nat.le_trans (Instruction.length_encode_natCast_le h)
  decide

theorem addOp_of_hasRoom {builder : ScriptBuilder} (hroom : builder.HasRoom 1) (opcode : Opcode)
    : builder.addOp opcode = .ok (builder.append [opcode.byte]) := by
  simp [addOp, hroom]

end ScriptBuilder

end ScriptAnalysis
