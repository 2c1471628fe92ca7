import ScriptAnalysis.Builder.ScriptNumber
import ScriptAnalysis.Instruction.Canonical
import ScriptAnalysis.Proofs.Instruction

namespace ScriptAnalysis

namespace Opcode

theorem operand_data {length : Nat} (hpos : 0 < length) (hle : length ≤ 75)
    : (data length).operand = .fixed length := by
  have hbyte : (UInt8.ofNat length).toNat = length := by
    rw [UInt8.toNat_ofNat']
    omega
  simp [operand, data, UInt8.le_iff_toNat_le, hbyte]
  omega

theorem operand_pushData (width : LengthWidth)
    : (pushData width).operand = .prefixed width := by
  cases width <;> decide

theorem operand_smallInt {n : Nat} (h : n ≤ 16) : (smallInt n).operand = .none := by
  interval_cases n <;> decide

theorem isPush_smallInt {n : Nat} (h : n ≤ 16) : (smallInt n).isPush = true := by
  interval_cases n <;> decide

theorem smallInt_smallInt? {n : Nat} (h : n ≤ 16) : (smallInt n).smallInt? = some n := by
  interval_cases n <;> decide

theorem smallInt?_eq_some_iff {op : Opcode} {n : Nat}
    : op.smallInt? = some n ↔ n ≤ 16 ∧ op = .smallInt n := by
  constructor
  . intro h
    rcases op with ⟨byte⟩
    unfold smallInt? at h
    split at h
    . next hop =>
      cases h
      exact ⟨by omega, hop⟩
    . split at h
      . next hop =>
        cases h
        simp only [isPositiveSmallInt, op1, op16, UInt8.le_iff_toNat_le, UInt8.reduceToNat,
          decide_eq_true_eq] at hop
        have hle : byte.toNat - 0x50 ≤ 16 := by omega
        have hpos : byte.toNat - 0x50 ≠ 0 := by omega
        have hbyte : 0x50 + (byte.toNat - 0x50) = byte.toNat := by omega
        refine ⟨hle, ?_⟩
        rw [smallInt, if_neg hpos, hbyte, UInt8.ofNat_toNat]
      . contradiction
  . rintro ⟨hle, rfl⟩
    apply smallInt_smallInt? hle

theorem isPush_of_carriesData {op : Opcode} (h : op.carriesData = true) : op.isPush = true := by
  have hle := (carriesData_iff.mp h).right
  rw [isPush, decide_eq_true_iff]
  apply UInt8.le_trans hle
  decide

theorem isPush_of_operand_ne_none {op : Opcode} (h : op.operand ≠ .none) : op.isPush = true := by
  apply isPush_of_carriesData
  rw [carriesData, decide_eq_true_iff]
  exact h

theorem spec_of_standingFor {data : List UInt8} {op : Opcode} (h : standingFor? data = some op)
    : op.operand = .none ∧ op.isPush = true ∧ data.length ≤ 1 := by
  unfold standingFor? at h
  split at h
  . cases h
    decide
  . next byte =>
    split at h
    . next hle =>
      cases h
      have : byte.toNat ≤ 16 := by simpa [UInt8.le_iff_toNat_le] using hle
      exact ⟨operand_smallInt this, isPush_smallInt this, Nat.le_refl 1⟩
    . split at h
      . cases h
        exact ⟨by decide, by decide, Nat.le_refl 1⟩
      . contradiction
  . contradiction

end Opcode

namespace LengthWidth

theorem le_of_shortest_none {length : Nat} (h : shortest? length = none) : length ≤ 75 := by
  unfold shortest? at h
  split at h
  . assumption
  . split at h
    . contradiction
    . split at h <;> contradiction

theorem le_maxLength_of_shortest {length : Nat} {width : LengthWidth}
    (h : shortest? length = some width) (hle : length ≤ four.maxLength)
    : length ≤ width.maxLength := by
  unfold shortest? at h
  split at h
  . contradiction
  . split at h
    . cases h
      assumption
    . split at h
      . cases h
        assumption
      . cases h
        assumption

def below : LengthWidth → Nat
  | one => 75
  | two => one.maxLength
  | four => two.maxLength

theorem below_lt_of_shortest {length : Nat} {width : LengthWidth}
    (h : shortest? length = some width)
    : width.below < length := by
  unfold shortest? at h
  split at h
  . contradiction
  . next hdirect =>
    split at h
    . cases h
      exact Nat.lt_of_not_le hdirect
    . next hone =>
      split at h
      . cases h
        exact Nat.lt_of_not_le hone
      . next htwo =>
        cases h
        exact Nat.lt_of_not_le htwo

end LengthWidth

namespace Instruction

theorem canonicalPush_cases (data : List UInt8)
    : (∃ op, Opcode.standingFor? data = some op ∧ op.operand = .none
          ∧ canonicalPush data = ⟨op, []⟩)
      ∨ (Opcode.standingFor? data = none ∧ LengthWidth.shortest? data.length = none
          ∧ (Opcode.data data.length).operand = .fixed data.length
          ∧ canonicalPush data = ⟨.data data.length, data⟩)
      ∨ (∃ width, Opcode.standingFor? data = none ∧ LengthWidth.shortest? data.length = some width
          ∧ canonicalPush data = ⟨.pushData width, data⟩) := by
  unfold canonicalPush
  cases hop : Opcode.standingFor? data with
  | some op => exact .inl ⟨op, rfl, (Opcode.spec_of_standingFor hop).left, rfl⟩
  | none =>
    cases hwidth : LengthWidth.shortest? data.length with
    | some width => exact .inr (.inr ⟨width, rfl, rfl, rfl⟩)
    | none =>
      have hpos : 0 < data.length := by
        rw [List.length_pos_iff]
        rintro rfl
        contradiction
      have hle := LengthWidth.le_of_shortest_none hwidth
      exact .inr (.inl ⟨rfl, rfl, Opcode.operand_data hpos hle, rfl⟩)

theorem fits_canonicalPush {data : List UInt8} (h : data.length ≤ LengthWidth.four.maxLength)
    : (canonicalPush data).Fits := by
  rcases canonicalPush_cases data with ⟨op, -, hop, hpush⟩ | ⟨-, -, hop, hpush⟩
    | ⟨width, -, hwidth, hpush⟩
  . rw [hpush, fits_iff_of_none hop]
  . rw [hpush, fits_iff_of_fixed hop]
  . simp only [hpush, Fits, Opcode.operand_pushData]
    apply LengthWidth.le_maxLength_of_shortest hwidth h

theorem length_le_one_of_payload_eq_nil {data : List UInt8} (h : (canonicalPush data).payload = [])
    : data.length ≤ 1 := by
  rcases canonicalPush_cases data with ⟨op, hdata, -, -⟩ | ⟨-, -, -, hpush⟩ | ⟨width, -, -, hpush⟩
  . exact (Opcode.spec_of_standingFor hdata).right.right
  . simp_all
  . simp_all

theorem isPush_canonicalPush (data : List UInt8) : (canonicalPush data).opcode.isPush = true := by
  rcases canonicalPush_cases data with ⟨op, hdata, -, hpush⟩ | ⟨-, -, hop, hpush⟩
    | ⟨width, -, -, hpush⟩
  . rw [hpush]
    exact (Opcode.spec_of_standingFor hdata).right.left
  . rw [hpush]
    apply Opcode.isPush_of_operand_ne_none
    rw [hop]
    simp
  . rw [hpush]
    apply Opcode.isPush_of_operand_ne_none
    rw [Opcode.operand_pushData]
    simp

theorem size_canonicalPush (data : List UInt8)
    : (canonicalPush data).size = canonicalSize data := by
  unfold canonicalSize
  rcases canonicalPush_cases data with ⟨op, hdata, hop, hpush⟩ | ⟨hdata, hwidth, hop, hpush⟩
    | ⟨width, hdata, hwidth, hpush⟩
  . simp [hpush, hdata, size_of_none hop]
  . simp [hpush, hdata, hwidth, size_of_fixed hop]
  . simp [hpush, hdata, hwidth, size_of_prefixed (Opcode.operand_pushData width)]

theorem canonicalPush_of_length {data : List UInt8} (hlow : 2 ≤ data.length)
    (hhigh : data.length ≤ 75)
    : canonicalPush data = ⟨.data data.length, data⟩ := by
  rcases canonicalPush_cases data with ⟨op, hdata, -, -⟩ | ⟨-, -, -, hpush⟩ | ⟨width, -, hwidth, -⟩
  . have := (Opcode.spec_of_standingFor hdata).right.right
    omega
  . exact hpush
  . simp [LengthWidth.shortest?, hhigh] at hwidth

section Canonical

variable {opcode : Opcode} {payload : List UInt8}

theorem isCanonicalPush_of_none (h : opcode.operand = .none)
    : isCanonicalPush ⟨opcode, payload⟩ = true := by
  simp [isCanonicalPush, h]

theorem isCanonicalPush_of_fixed_iff {length : Nat} (h : opcode.operand = .fixed length)
    : isCanonicalPush ⟨opcode, payload⟩ = true ↔ ∀ byte, payload = [byte] → 16 < byte := by
  match payload with
  | [] => simp [isCanonicalPush, h]
  | [byte] => simp [isCanonicalPush, h]
  | _ :: _ :: _ => simp [isCanonicalPush, h]

theorem isCanonicalPush_of_prefixed_iff {width : LengthWidth} (h : opcode.operand = .prefixed width)
    : isCanonicalPush ⟨opcode, payload⟩ = true ↔ width.below < payload.length := by
  cases width <;> simp [isCanonicalPush, h, LengthWidth.below]

end Canonical

theorem isCanonicalPush_canonicalPush (data : List UInt8)
    : (canonicalPush data).isCanonicalPush = true := by
  rcases canonicalPush_cases data with ⟨op, -, hop, hpush⟩ | ⟨hdata, -, hop, hpush⟩
    | ⟨width, -, hwidth, hpush⟩
  . rw [hpush, isCanonicalPush_of_none hop]
  . rw [hpush, isCanonicalPush_of_fixed_iff hop]
    rintro byte rfl
    -- An opcode stands for each byte up to 16, but for this one there is none.
    rw [← UInt8.not_le]
    intro hle
    simp [Opcode.standingFor?, hle] at hdata
  . rw [hpush, isCanonicalPush_of_prefixed_iff (Opcode.operand_pushData width)]
    exact LengthWidth.below_lt_of_shortest hwidth

end Instruction

end ScriptAnalysis
