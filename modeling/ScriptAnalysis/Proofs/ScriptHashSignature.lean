import ScriptAnalysis.Builder.Payment
import ScriptAnalysis.Proofs.Append
import ScriptAnalysis.Proofs.Builder
import ScriptAnalysis.Proofs.RedeemGuard
import ScriptAnalysis.Proofs.SigOps

/-!
This module contains what can be read off the signature script that redeems a script hash. Its last
instruction is the smallest push of the redeem script, so the redeem script is its last payload. The
exceptions are redeem scripts of one byte that an opcode stands for: they leave no payload behind,
but they hold no signature operation either.
-/

namespace ScriptAnalysis

section Value

variable {data : List UInt8}

def IsValueByte (data : List UInt8) : Prop :=
  ∃ byte, data = [byte] ∧ (byte ≤ 16 ∨ byte = 0x81)

theorem exists_standingFor_iff
    : (∃ op, Opcode.standingFor? data = some op) ↔ data = [] ∨ IsValueByte data := by
  unfold Opcode.standingFor? IsValueByte
  split
  . simp
  . next byte =>
    split
    . next hle => simp [hle]
    . next hle =>
      split
      . next hbyte => simp [hbyte]
      . next hbyte => simp [hle, hbyte]
  . next hnil hsingle =>
    simp only [reduceCtorEq, exists_false, false_iff]
    rintro (h | ⟨byte, h, -⟩)
    . exact hnil h
    . exact hsingle byte h

namespace Instruction

theorem canonicalPush_of_not_isValueByte (h : ¬ IsValueByte data)
    : canonicalPush data = ⟨(canonicalPush data).opcode, data⟩
        ∧ (canonicalPush data).opcode.byte ≤ Opcode.pushData4.byte := by
  rw [← Opcode.carriesData_or_op0_iff]
  rcases canonicalPush_cases data with
    ⟨op, hop, -, hpush⟩ | ⟨-, -, hop, hpush⟩ | ⟨width, -, -, hpush⟩
  . have hdata : data = [] := (exists_standingFor_iff.mp ⟨op, hop⟩).resolve_right h
    rw [hdata]
    decide
  . rw [hpush]
    simp [Opcode.carriesData, hop]
  . rw [hpush]
    simp [Opcode.carriesData, Opcode.operand_pushData]

theorem payload_canonicalPush_of_isValueByte (h : IsValueByte data)
    : (canonicalPush data).payload = [] := by
  obtain ⟨op, hop⟩ := exists_standingFor_iff.mpr (.inr h)
  simp [canonicalPush, hop]

theorem lt_byte_canonicalPush (h : IsValueByte data) (hzero : data ≠ [0])
    : Opcode.pushData4.byte < (canonicalPush data).opcode.byte := by
  obtain ⟨byte, rfl, hbyte⟩ := h
  have : ∀ byte : UInt8, (byte ≤ 16 ∨ byte = 0x81) → byte ≠ 0
      → Opcode.pushData4.byte < (canonicalPush [byte]).opcode.byte := by
    decide +kernel
  apply this byte hbyte
  simpa using hzero

theorem canonicalSize_le (data : List UInt8) : canonicalSize data ≤ data.length + 5 := by
  unfold canonicalSize
  split
  . omega
  . split
    . omega
    . next width _ => cases width <;> simp only [LengthWidth.bytes] <;> omega

end Instruction

theorem SigOps.count_of_isValueByte (h : IsValueByte data)
    : count .precise (decode data).instructions = 0 := by
  obtain ⟨byte, rfl, hbyte⟩ := h
  have : ∀ byte : UInt8, (byte ≤ 16 ∨ byte = 0x81)
      → count .precise (decode [byte]).instructions = 0 := by
    decide +kernel
  exact this byte hbyte

end Value

section Signature

variable {redeemScript signatures signatureScript : List UInt8} {instructions : List Instruction}

theorem scriptHashSignature_eq_ok_iff
    : scriptHashSignature redeemScript signatures = .ok signatureScript
        ↔
      redeemScript.length ≤ Limits.maxElementSize
        ∧ signatureScript = signatures ++ (Instruction.canonicalPush redeemScript).bytes := by
  unfold scriptHashSignature
  by_cases hsize : redeemScript.length ≤ Limits.maxElementSize
  . have hroom : ScriptBuilder.empty.HasRoom (Instruction.canonicalPush redeemScript).size := by
      have := Instruction.canonicalSize_le redeemScript
      rw [Instruction.size_canonicalPush]
      simp only [ScriptBuilder.HasRoom, ScriptBuilder.script_empty, List.length_nil,
        Limits.maxScriptSize, Limits.maxElementSize] at *
      omega
    rw [ScriptBuilder.addData_of_fits hroom hsize]
    simp [bind, Except.bind, pure, Except.pure, hsize, eq_comm]
  . unfold ScriptBuilder.addData
    rw [if_pos (Nat.lt_of_not_le hsize)]
    split <;> simp [bind, Except.bind, hsize]

theorem exists_scriptHashSignature (h : redeemScript.length ≤ Limits.maxElementSize)
    (signatures : List UInt8)
    : ∃ signatureScript, scriptHashSignature redeemScript signatures = .ok signatureScript := by
  exact ⟨_, scriptHashSignature_eq_ok_iff.mpr ⟨h, rfl⟩⟩

theorem decode_scriptHashSignature (hsignatures : decode signatures = ⟨instructions, none⟩)
    (hsignature : scriptHashSignature redeemScript signatures = .ok signatureScript)
    : decode signatureScript
        =
      ⟨instructions ++ [Instruction.canonicalPush redeemScript], none⟩ := by
  obtain ⟨hsize, rfl⟩ := scriptHashSignature_eq_ok_iff.mp hsignature
  apply decode_append_bytes hsignatures
  apply Instruction.fits_canonicalPush
  apply Nat.le_trans hsize
  decide

/-! What the signature script pushes. -/

theorem pushesLast_scriptHashSignature (hsignatures : decode signatures = ⟨instructions, none⟩)
    (hsignature : scriptHashSignature redeemScript signatures = .ok signatureScript)
    (hvalue : ¬ IsValueByte redeemScript)
    : PushesLast signatureScript redeemScript := by
  obtain ⟨hpush, hbyte⟩ := Instruction.canonicalPush_of_not_isValueByte hvalue
  have hdecode := decode_scriptHashSignature hsignatures hsignature
  exact ⟨instructions, _, [], hdecode, hbyte, congrArg Instruction.payload hpush, by simp⟩

theorem pushesLast_scriptHashSignature_zero (hsignatures : decode signatures = ⟨instructions, none⟩)
    (hsignature : scriptHashSignature [0] signatures = .ok signatureScript)
    : PushesLast signatureScript [] := by
  have hdecode := decode_scriptHashSignature hsignatures hsignature
  exact ⟨instructions, _, [], hdecode, by decide, rfl, by simp⟩

theorem pushedPayloads_scriptHashSignature_of_isValueByte
    (hsignatures : decode signatures = ⟨instructions, none⟩)
    (hsignature : scriptHashSignature redeemScript signatures = .ok signatureScript)
    (hvalue : IsValueByte redeemScript) (hzero : redeemScript ≠ [0])
    : pushedPayloads signatureScript = pushedPayloads signatures := by
  have hbyte := Instruction.lt_byte_canonicalPush hvalue hzero
  have hdecode := decode_scriptHashSignature hsignatures hsignature
  have hdropped : [Instruction.canonicalPush redeemScript].filter
      (·.opcode.byte ≤ Opcode.pushData4.byte) = [] := by
    apply filter_push_eq_nil
    simpa using hbyte
  rw [pushedPayloads_of_complete hdecode, pushedPayloads_of_complete hsignatures,
    List.filter_append, hdropped, List.append_nil]

/-! How the signature script is judged. -/

theorem guardedOutput_payToScriptHash (hash : Hash160)
    : GuardedOutput 0 (payToScriptHash hash) := by
  exact .inr ⟨rfl, hash, rfl⟩

theorem checkRedeemScript_congr {version : UInt16} {other : List UInt8}
    (h : pushedPayloads signatureScript = pushedPayloads other) (outputScript : List UInt8)
    : checkRedeemScript version signatureScript outputScript
        =
      checkRedeemScript version other outputScript := by
  unfold checkRedeemScript
  rw [h]

theorem checkRedeemScript_of_pushesLast (h : PushesLast signatureScript redeemScript)
    (hash : Hash160)
    : checkRedeemScript 0 signatureScript (payToScriptHash hash)
        =
      match containsStakeTags redeemScript with
      | .ok true => .error (.stakeOpcodes "stake opcodes were found in a p2sh script")
      | .ok false => .ok ()
      | .error error => .error error := by
  obtain ⟨front, hpayloads⟩ := h.pushedPayloads
  exact checkRedeemScript_of_append (guardedOutput_payToScriptHash hash) hpayloads

structure Judges (redeemScript : List UInt8) (answer : Except ScriptError Unit) : Prop where
  tagged_iff
    : answer = .error (.stakeOpcodes "stake opcodes were found in a p2sh script")
        ↔
      containsStakeTags redeemScript = .ok true
  malformed_iff
    : ∀ error,
        (decode redeemScript).error = some error
          ↔
        answer = .error error ∧ containsStakeTags redeemScript ≠ .ok true
  accepted_iff
    : answer = .ok ()
        ↔
      (decode redeemScript).error = none ∧ containsStakeTags redeemScript ≠ .ok true

theorem judges_checkRedeemScript (h : PushesLast signatureScript redeemScript) (hash : Hash160)
    : Judges redeemScript (checkRedeemScript 0 signatureScript (payToScriptHash hash)) := by
  rw [checkRedeemScript_of_pushesLast h]
  cases hdecode : (decode redeemScript).toExcept with
  | error error =>
    rw [Decoded.toExcept_eq_error_iff] at hdecode
    have htags := containsStakeTags_eq_error_iff.mpr hdecode
    -- The error of a malformed script cannot be taken for the one about stake tags.
    obtain ⟨_, _, _, hmalformed⟩ := exists_malformedPush_of_error hdecode
    constructor <;> simp [htags, hdecode, hmalformed]
  | ok instructions =>
    rw [Decoded.toExcept_eq_ok_iff] at hdecode
    have htags := containsStakeTags_of_complete hdecode
    generalize instructions.any (·.opcode.isStakeTag) = tagged at htags
    cases tagged with
    | true => constructor <;> simp [htags, hdecode]
    | false => constructor <;> simp [htags, hdecode]

theorem Judges.zero {answer : Except ScriptError Unit} (h : Judges [] answer)
    : Judges [0] answer := by
  have herror : (decode [0]).error = (decode []).error := by decide +kernel
  have htags : containsStakeTags [0] = containsStakeTags [] := by decide +kernel
  constructor
  . rw [htags]
    exact h.tagged_iff
  . rw [herror, htags]
    exact h.malformed_iff
  . rw [herror, htags]
    exact h.accepted_iff

theorem scriptHashSignature_reveals_redeemScript (hsignatures : (decode signatures).error = none)
    (hsignature : scriptHashSignature redeemScript signatures = .ok signatureScript)
    : (∃ payloads, pushedPayloads signatureScript = .ok payloads)
        ∧ (¬ IsValueByte redeemScript
            → (∃ front, pushedPayloads signatureScript = .ok (front ++ [redeemScript]))
              ∧ ∀ hash, Judges redeemScript
                  (checkRedeemScript 0 signatureScript (payToScriptHash hash)))
        ∧ (redeemScript = [0]
            → (∃ front, pushedPayloads signatureScript = .ok (front ++ [[]]))
              ∧ ∀ hash, Judges redeemScript
                  (checkRedeemScript 0 signatureScript (payToScriptHash hash)))
        ∧ (IsValueByte redeemScript → redeemScript ≠ [0]
            → pushedPayloads signatureScript = pushedPayloads signatures
              ∧ ∀ hash, checkRedeemScript 0 signatureScript (payToScriptHash hash)
                  = checkRedeemScript 0 signatures (payToScriptHash hash)) := by
  have hsignatures : decode signatures = ⟨(decode signatures).instructions, none⟩ := by
    rw [← hsignatures]
  refine ⟨?_, ?_, ?_, ?_⟩
  . exact ⟨_, pushedPayloads_of_complete (decode_scriptHashSignature hsignatures hsignature)⟩
  . intro hvalue
    have hlast := pushesLast_scriptHashSignature hsignatures hsignature hvalue
    exact ⟨hlast.pushedPayloads, judges_checkRedeemScript hlast⟩
  . rintro rfl
    have hlast := pushesLast_scriptHashSignature_zero hsignatures hsignature
    refine ⟨hlast.pushedPayloads, ?_⟩
    intro hash
    exact (judges_checkRedeemScript hlast hash).zero
  . intro hvalue hzero
    have hpayloads
      := pushedPayloads_scriptHashSignature_of_isValueByte hsignatures hsignature hvalue hzero
    refine ⟨hpayloads, ?_⟩
    intro hash
    exact checkRedeemScript_congr hpayloads _

theorem taggedRedeemScript_revealed
    : (decode [0x00]).error = none
        ∧ scriptHashSignature [0xba, 0x51] [0x00] = .ok [0x00, 0x02, 0xba, 0x51]
        ∧ ¬ IsValueByte [0xba, 0x51]
        ∧ checkRedeemScript 0 [0x00, 0x02, 0xba, 0x51]
              (payToScriptHash ⟨List.replicate 20 0, rfl⟩)
            = .error (.stakeOpcodes "stake opcodes were found in a p2sh script") := by
  have hsignatures : (decode [0x00]).error = none := by decide +kernel
  have hsignature : scriptHashSignature [0xba, 0x51] [0x00] = .ok [0x00, 0x02, 0xba, 0x51] := by
    decide +kernel
  have hvalue : ¬ IsValueByte [0xba, 0x51] := by simp [IsValueByte]
  obtain ⟨-, hrevealed, -⟩ := scriptHashSignature_reveals_redeemScript hsignatures hsignature
  refine ⟨hsignatures, hsignature, hvalue, ?_⟩
  apply ((hrevealed hvalue).right _).tagged_iff.mpr
  decide +kernel

theorem redeemScript_not_revealed_of_minus_one
    : (decode [0x01, 0xba]).error = none
        ∧ scriptHashSignature [0x81] [0x01, 0xba] = .ok [0x01, 0xba, 0x4f]
        ∧ pushedPayloads [0x01, 0xba, 0x4f] = .ok [[0xba]]
        ∧ (decode [0x81]).error = none
        ∧ containsStakeTags [0x81] = .ok false
        ∧ checkRedeemScript 0 [0x01, 0xba, 0x4f] (payToScriptHash ⟨List.replicate 20 0, rfl⟩)
            = .error (.stakeOpcodes "stake opcodes were found in a p2sh script") := by
  decide +kernel

/-! What the signature script is charged. -/

theorem isPushOnlyScript_iff
    : isPushOnlyScript signatures = true
        ↔
      ∃ instructions, decode signatures = ⟨instructions, none⟩
        ∧ isPushOnly instructions = true := by
  simp only [← Decoded.toExcept_eq_ok_iff]
  unfold isPushOnlyScript
  split
  . next instructions hdecode => simp [hdecode]
  . next error hdecode => simp [hdecode]

theorem isPushOnly_concat_canonicalPush (h : isPushOnly instructions = true)
    (data : List UInt8)
    : isPushOnly (instructions ++ [Instruction.canonicalPush data]) = true := by
  unfold isPushOnly at *
  rw [List.all_append, h, List.all_cons, Instruction.isPush_canonicalPush]
  rfl

namespace SigOps

theorem count_payload_canonicalPush (data : List UInt8)
    : count .precise (decode (Instruction.canonicalPush data).payload).instructions
        =
      count .precise (decode data).instructions := by
  by_cases hvalue : IsValueByte data
  . rw [Instruction.payload_canonicalPush_of_isValueByte hvalue, count_of_isValueByte hvalue]
    rw [decode_nil, count_nil]
  . rw [(Instruction.canonicalPush_of_not_isValueByte hvalue).left]

theorem ofSpending_scriptHashSignature (hsize : redeemScript.length ≤ Limits.maxElementSize)
    (hpush : isPushOnlyScript signatures = true) (hash : Hash160)
    : ∃ signatureScript, scriptHashSignature redeemScript signatures = .ok signatureScript
        ∧ isPushOnlyScript signatureScript = true
        ∧ ∀ other, ofSpending signatureScript (payToScriptHash hash) true
            = ofSpending other redeemScript false := by
  obtain ⟨instructions, hsignatures, hpush⟩ := isPushOnlyScript_iff.mp hpush
  obtain ⟨signatureScript, hsignature⟩ := exists_scriptHashSignature hsize signatures
  have hdecode := decode_scriptHashSignature hsignatures hsignature
  have hpush := isPushOnly_concat_canonicalPush hpush redeemScript
  refine ⟨_, hsignature, ?_, ?_⟩
  . exact isPushOnlyScript_iff.mpr ⟨_, hdecode, hpush⟩
  . intro other
    have hpays : PaysToScriptHash (payToScriptHash hash) := ⟨hash, [], by simp, .inl rfl⟩
    rw [ofSpending_of_paysToScriptHash hpays, ofRedeemScript_of_last hdecode hpush]
    rw [count_payload_canonicalPush, ofSpending_of_not_paysToScriptHash (by simp)]

theorem ofSpending_twoOfTwo_scriptHashSignature
    : ([0x52, 0xae] : List UInt8).length ≤ Limits.maxElementSize
        ∧ isPushOnlyScript [0x00] = true
        ∧ ∃ signatureScript, scriptHashSignature [0x52, 0xae] [0x00] = .ok signatureScript
          ∧ ofSpending signatureScript (payToScriptHash ⟨List.replicate 20 0, rfl⟩) true = 2 := by
  have hsize : ([0x52, 0xae] : List UInt8).length ≤ Limits.maxElementSize := by decide
  have hpush : isPushOnlyScript [0x00] = true := by decide +kernel
  obtain ⟨_, hsignature, -, hcount⟩
    := ofSpending_scriptHashSignature hsize hpush ⟨List.replicate 20 0, rfl⟩
  refine ⟨hsize, hpush, _, hsignature, ?_⟩
  rw [hcount []]
  decide +kernel

end SigOps

end Signature

end ScriptAnalysis
