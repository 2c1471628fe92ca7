import ScriptAnalysis.Proofs.Builder.Run
import ScriptAnalysis.Proofs.ScriptHashSignature

namespace ScriptAnalysis

namespace Opcode

variable {op : Opcode}

theorem eq_data_of_operand {length : Nat} (h : op.operand = .fixed length)
    : op = .data length ∧ 1 ≤ length ∧ length ≤ 75 := by
  rcases op with ⟨byte⟩
  unfold operand at h
  split at h
  . next hbyte =>
    cases h
    simp only [UInt8.le_iff_toNat_le, UInt8.reduceToNat] at hbyte
    simpa [data] using hbyte
  . repeat' split at h
    all_goals contradiction

theorem eq_pushData_of_operand {width : LengthWidth} (h : op.operand = .prefixed width)
    : op = .pushData width := by
  unfold operand at h
  split at h
  . contradiction
  . split at h
    . next hop =>
      cases h
      exact hop
    . split at h
      . next hop =>
        cases h
        exact hop
      . split at h
        . next hop =>
          cases h
          exact hop
        . contradiction

end Opcode

namespace LengthWidth

theorem le_below (width : LengthWidth) : 75 ≤ width.below := by
  cases width <;> decide

theorem shortest_of_between {length : Nat} {width : LengthWidth} (hbelow : width.below < length)
    (hle : length ≤ width.maxLength)
    : shortest? length = some width := by
  have hdirect : ¬ length ≤ 75 := by
    have := width.le_below
    omega
  rw [shortest?, if_neg hdirect]
  cases width with
  | one => rw [if_pos hle]
  | two =>
    have hone : ¬ length ≤ one.maxLength := Nat.not_le_of_lt hbelow
    rw [if_neg hone, if_pos hle]
  | four =>
    have htwo : ¬ length ≤ two.maxLength := Nat.not_le_of_lt hbelow
    have hone : ¬ length ≤ one.maxLength := by
      have : one.maxLength ≤ two.maxLength := by decide
      omega
    rw [if_neg hone, if_neg htwo]

theorem bytes_lt_of_between {length : Nat} {width other : LengthWidth}
    (hbelow : width.below < length) (hle : length ≤ other.maxLength) (hne : other ≠ width)
    : width.bytes < other.bytes := by
  have hwider : width.below < other.maxLength := Nat.lt_of_lt_of_le hbelow hle
  revert hwider hne
  cases width <;> cases other <;> decide

theorem bytes_pos (width : LengthWidth) : 0 < width.bytes := by
  cases width <;> decide

end LengthWidth

namespace Instruction

section Smallest

variable {opcode : Opcode} {payload : List UInt8}

theorem opcode_cases_of_carriesData (hcarries : opcode.carriesData = true)
    (hfits : Fits ⟨opcode, payload⟩)
    : (opcode = .data payload.length ∧ opcode.operand = .fixed payload.length
          ∧ 0 < payload.length ∧ payload.length ≤ 75)
      ∨ ∃ width, opcode = .pushData width ∧ payload.length ≤ width.maxLength := by
  cases hop : opcode.operand with
  | none => simp [Opcode.carriesData, hop] at hcarries
  | fixed length =>
    left
    rw [fits_iff_of_fixed hop] at hfits
    subst hfits
    obtain ⟨rfl, hpos, hle⟩ := Opcode.eq_data_of_operand hop
    exact ⟨rfl, rfl, hpos, hle⟩
  | prefixed width =>
    right
    simp only [Fits, hop] at hfits
    exact ⟨width, Opcode.eq_pushData_of_operand hop, hfits⟩

theorem size_pushData (width : LengthWidth) (payload : List UInt8)
    : size ⟨.pushData width, payload⟩ = 1 + width.bytes + payload.length := by
  apply size_of_prefixed
  apply Opcode.operand_pushData

theorem canonicalPush_of_le (hop : Opcode.standingFor? payload = none) (hle : payload.length ≤ 75)
    : canonicalPush payload = ⟨.data payload.length, payload⟩ := by
  simp [canonicalPush, hop, LengthWidth.shortest?, hle]

theorem canonicalPush_of_between {width : LengthWidth} (hbelow : width.below < payload.length)
    (hle : payload.length ≤ width.maxLength)
    : canonicalPush payload = ⟨.pushData width, payload⟩ := by
  have hwidth := LengthWidth.shortest_of_between hbelow hle
  rcases canonicalPush_cases payload with ⟨op, hop, -, -⟩ | ⟨-, hnone, -, -⟩
    | ⟨other, -, hother, hpush⟩
  . have := (Opcode.spec_of_standingFor hop).right.right
    have := width.le_below
    omega
  . rw [hwidth] at hnone
    contradiction
  . rw [hwidth] at hother
    cases hother
    exact hpush

theorem canonicalSize_lt_size (hcarries : opcode.carriesData = true)
    (hfits : Fits ⟨opcode, payload⟩) (hne : ⟨opcode, payload⟩ ≠ canonicalPush payload)
    : canonicalSize payload < size ⟨opcode, payload⟩ := by
  rw [← size_canonicalPush]
  rcases opcode_cases_of_carriesData hcarries hfits with ⟨hdata, hoperand, hpos, hle⟩
    | ⟨width, rfl, hle⟩
  . rw [size_of_fixed hoperand]
    rcases canonicalPush_cases payload with ⟨op, -, hop, hpush⟩ | ⟨-, -, -, hpush⟩
      | ⟨width, -, hwidth, -⟩
    . rw [hpush, size_of_none hop]
      simpa using hpos
    . rw [hdata, hpush] at hne
      contradiction
    . have := LengthWidth.below_lt_of_shortest hwidth
      have := width.le_below
      omega
  . rw [size_pushData]
    have := width.bytes_pos
    rcases canonicalPush_cases payload with ⟨op, -, hop, hpush⟩ | ⟨-, -, hop, hpush⟩
      | ⟨shortest, -, hshortest, hpush⟩
    . rw [hpush, size_of_none hop, List.length_nil]
      omega
    . rw [hpush, size_of_fixed hop]
      omega
    . have hbytes : shortest.bytes < width.bytes := by
        apply LengthWidth.bytes_lt_of_between (LengthWidth.below_lt_of_shortest hshortest) hle
        rintro rfl
        exact hne hpush.symm
      rw [hpush, size_pushData]
      omega

theorem canonicalSize_le_size (hcarries : opcode.carriesData = true)
    (hfits : Fits ⟨opcode, payload⟩)
    : canonicalSize payload ≤ size ⟨opcode, payload⟩ := by
  by_cases h : ⟨opcode, payload⟩ = canonicalPush payload
  . rw [h, size_canonicalPush]
  . exact Nat.le_of_lt (canonicalSize_lt_size hcarries hfits h)

theorem size_eq_canonicalSize_iff (hcarries : opcode.carriesData = true)
    (hfits : Fits ⟨opcode, payload⟩)
    : size ⟨opcode, payload⟩ = canonicalSize payload ↔ ⟨opcode, payload⟩ = canonicalPush payload := by
  constructor
  . intro hsize
    apply Decidable.byContradiction
    intro hne
    exact Nat.ne_of_gt (canonicalSize_lt_size hcarries hfits hne) hsize
  . intro h
    rw [h, size_canonicalPush]

def minusOnePush : Instruction := ⟨.data 1, [0x81]⟩

theorem isCanonicalPush_iff_eq (hcarries : opcode.carriesData = true)
    (hfits : Fits ⟨opcode, payload⟩)
    : isCanonicalPush ⟨opcode, payload⟩ = true
        ↔
      ⟨opcode, payload⟩ = canonicalPush payload ∨ ⟨opcode, payload⟩ = minusOnePush := by
  constructor
  . intro hcanonical
    rcases opcode_cases_of_carriesData hcarries hfits with ⟨hdata, hoperand, hpos, hle⟩
      | ⟨width, rfl, hle⟩
    . rw [isCanonicalPush_of_fixed_iff hoperand] at hcanonical
      cases hop : Opcode.standingFor? payload with
      | none =>
        left
        rw [canonicalPush_of_le hop hle, ← hdata]
      | some op =>
        right
        rcases exists_standingFor_iff.mp ⟨op, hop⟩ with rfl | ⟨byte, rfl, hbyte | rfl⟩
        . simp at hpos
        . exact absurd (hcanonical byte rfl) (UInt8.not_lt.mpr hbyte)
        . rw [hdata]
          rfl
    . rw [isCanonicalPush_of_prefixed_iff (Opcode.operand_pushData width)] at hcanonical
      exact .inl (canonicalPush_of_between hcanonical hle).symm
  . rintro (h | h)
    . rw [h]
      apply isCanonicalPush_canonicalPush
    . rw [h]
      decide

theorem carriesData_canonicalPush {data : List UInt8} (hdata : data ≠ [])
    (hvalue : ¬ IsValueByte data)
    : (canonicalPush data).opcode.carriesData = true := by
  rcases canonicalPush_cases data with ⟨op, hop, -, -⟩ | ⟨-, -, hop, hpush⟩ | ⟨width, -, -, hpush⟩
  . rcases exists_standingFor_iff.mp ⟨op, hop⟩ with h | h <;> contradiction
  . rw [hpush]
    simp [Opcode.carriesData, hop]
  . rw [hpush]
    simp [Opcode.carriesData, Opcode.operand_pushData]

theorem carries_canonically_iff {data : List UInt8}
    (hle : data.length ≤ LengthWidth.four.maxLength) (hdata : data ≠ [])
    (hvalue : ¬ IsValueByte data)
    : (opcode.carriesData = true ∧ Fits ⟨opcode, data⟩ ∧ isCanonicalPush ⟨opcode, data⟩ = true)
        ↔
      ⟨opcode, data⟩ = canonicalPush data := by
  have hminusOne : ⟨opcode, data⟩ ≠ minusOnePush := by
    intro h
    apply hvalue
    rw [minusOnePush, mk.injEq] at h
    exact ⟨0x81, h.right, .inr rfl⟩
  constructor
  . rintro ⟨hcarries, hfits, hcanonical⟩
    exact ((isCanonicalPush_iff_eq hcarries hfits).mp hcanonical).resolve_right hminusOne
  . intro h
    refine ⟨?_, ?_, ?_⟩
    . have := carriesData_canonicalPush hdata hvalue
      rwa [← h] at this
    . rw [h]
      apply fits_canonicalPush hle
    . rw [h]
      apply isCanonicalPush_canonicalPush

end Smallest

/--
A push is canonical exactly if no push of its payload is smaller, apart from the one of minus one.
Data that no opcode stands for has one canonical push, and that is the one the builder appends.
-/
theorem isCanonicalPush_iff_smallest
    : (∀ (ins : Instruction) (bytes : List UInt8), ins.opcode.carriesData = true
          → ins.encode = .ok bytes
          → (ins.isCanonicalPush = true
                ↔ bytes.length = canonicalSize ins.payload ∨ ins = minusOnePush)
            ∧ canonicalSize ins.payload ≤ bytes.length)
      ∧ minusOnePush.isCanonicalPush = true
      ∧ canonicalPush minusOnePush.payload = ⟨.negate1, []⟩
      ∧ canonicalSize minusOnePush.payload < minusOnePush.size
      ∧ (∀ data : List UInt8, data.length ≤ LengthWidth.four.maxLength → data ≠ []
          → ¬ IsValueByte data
          → ∃ opcode, canonicalPush data = ⟨opcode, data⟩
            ∧ (∀ builder next : ScriptBuilder, builder.addData data = .ok next
                ↔ builder.HasRoom (canonicalSize data) ∧ data.length ≤ Limits.maxElementSize
                  ∧ next = builder.append (bytes ⟨opcode, data⟩))
            ∧ ∀ other : Opcode, (other.carriesData = true ∧ Fits ⟨other, data⟩
                ∧ isCanonicalPush ⟨other, data⟩ = true) ↔ other = opcode) := by
  refine ⟨?_, by decide, by decide, by decide, ?_⟩
  . rintro ⟨opcode, payload⟩ bytes hcarries hencode
    obtain ⟨hfits, rfl⟩ := encode_eq_ok_iff.mp hencode
    rw [length_bytes, size_eq_canonicalSize_iff hcarries hfits]
    exact ⟨isCanonicalPush_iff_eq hcarries hfits, canonicalSize_le_size hcarries hfits⟩
  . intro data hle hdata hvalue
    have hpush := (canonicalPush_of_not_isValueByte hvalue).left
    refine ⟨(canonicalPush data).opcode, hpush, ?_, ?_⟩
    . intro builder next
      rw [← hpush]
      apply ScriptBuilder.addData_eq_ok_iff
    . intro other
      rw [carries_canonically_iff hle hdata hvalue]
      constructor
      . intro h
        rw [← h]
      . rintro rfl
        exact hpush.symm

theorem push256_canonical_in_two_bytes
    : isCanonicalPush ⟨.pushData2, List.replicate 256 7⟩ = true
        ∧ isCanonicalPush ⟨.pushData4, List.replicate 256 7⟩ = false := by
  have hvalue : ¬ IsValueByte (List.replicate 256 7) := by
    rintro ⟨byte, hbyte, -⟩
    have hlength := congrArg List.length hbyte
    rw [List.length_replicate] at hlength
    exact absurd hlength (by decide : 256 ≠ 1)
  obtain ⟨hsmallest, -, -, -, honly⟩ := isCanonicalPush_iff_smallest
  obtain ⟨opcode, hpush, -, hopcode⟩
    := honly (List.replicate 256 7) (by decide +kernel) (by decide) hvalue
  have hfour : Opcode.pushData4 ≠ opcode := by
    rintro rfl
    have : (canonicalPush (List.replicate 256 7)).opcode = .pushData2 := by decide +kernel
    rw [hpush] at this
    exact absurd this (by decide)
  constructor
  . have hencode : encode ⟨.pushData2, List.replicate 256 7⟩ = .ok _ :=
      encode_eq_ok_iff.mpr ⟨by decide +kernel, rfl⟩
    rw [(hsmallest _ _ (by decide) hencode).left, length_bytes]
    left
    decide +kernel
  . rw [Bool.eq_false_iff]
    intro hcanonical
    apply hfour
    rw [← hopcode]
    exact ⟨by decide, by decide +kernel, hcanonical⟩

end Instruction

end ScriptAnalysis
