import ScriptAnalysis.Proofs.Exclusion
import ScriptAnalysis.Proofs.ScriptHash

namespace ScriptAnalysis

section Image

variable {script : List UInt8}

theorem paysToHash_iff_payToPubKeyHash
    : PaysToHash [.dup, .hash160] [.equalVerify, .checkSig] script
        ↔
      ∃ hash, script = payToPubKeyHash hash := by
  have hbytes : ∀ hash, [Opcode.dup, .hash160].map (·.byte) ++ hash.push.bytes
      ++ [Opcode.equalVerify, .checkSig].map (·.byte) = payToPubKeyHash hash := by
    intro hash
    rw [hash.bytes_push]
    rfl
  rw [paysToHash_iff (by decide) (by decide)]
  simp only [hbytes]

theorem paysToHash_iff_payToScriptHash
    : PaysToHash [.hash160] [.equal] script ↔ ∃ hash, script = payToScriptHash hash := by
  have hbytes : ∀ hash, [Opcode.hash160].map (·.byte) ++ hash.push.bytes
      ++ [Opcode.equal].map (·.byte) = payToScriptHash hash := by
    intro hash
    rw [hash.bytes_push]
    rfl
  rw [paysToHash_iff (by decide) (by decide)]
  simp only [hbytes]

end Image

theorem payToPubKeyHash_injective : Function.Injective payToPubKeyHash := by
  rintro ⟨first, _⟩ ⟨second, _⟩ h
  simpa [payToPubKeyHash] using h

theorem payToScriptHash_injective : Function.Injective payToScriptHash := by
  rintro ⟨first, _⟩ ⟨second, _⟩ h
  simpa [payToScriptHash] using h

namespace ScriptClass

variable {instructions : List Instruction} {version : UInt16} {script : List UInt8}

theorem recognises_pubKeyHash_iff
    : pubKeyHash.recognises instructions = true
        ↔
      instructions.map (·.opcode) = [.dup, .hash160, .data20, .equalVerify, .checkSig] := by
  rw [← Template.accepts_map_op_iff]
  simp [recognises, templates, Template.pubKeyHash, Template.hashedKey]

theorem recognises_scriptHash_iff
    : scriptHash.recognises instructions = true
        ↔
      instructions.map (·.opcode) = [.hash160, .data20, .equal] := by
  rw [← Template.accepts_map_op_iff]
  simp [recognises, templates, Template.scriptHash]

theorem isScriptHash_eq_recognises (instructions : List Instruction)
    : isScriptHash instructions = scriptHash.recognises instructions := by
  simp [isScriptHash, recognises, templates]

theorem ofScript_eq_pubKeyHash_iff
    : ofScript version script = pubKeyHash
        ↔
      version = 0 ∧ PaysToHash [.dup, .hash160] [.equalVerify, .checkSig] script := by
  rw [ofScript_eq_iff (by decide)]
  simp only [recognises_pubKeyHash_iff]
  rfl

theorem ofScript_eq_scriptHash_iff
    : ofScript version script = scriptHash
        ↔
      version = 0 ∧ PaysToHash [.hash160] [.equal] script := by
  rw [ofScript_eq_iff (by decide)]
  simp only [recognises_scriptHash_iff]
  rfl

end ScriptClass

theorem isPayToScriptHash_iff {script : List UInt8}
    : isPayToScriptHash script = true ↔ PaysToHash [.hash160] [.equal] script := by
  unfold isPayToScriptHash PaysToHash
  cases hdecode : (decode script).toExcept with
  | ok instructions =>
    rw [Decoded.toExcept_eq_ok_iff] at hdecode
    simp [hdecode, isScriptHash_iff_map_opcode]
  | error error =>
    rw [Decoded.toExcept_eq_error_iff] at hdecode
    simp only [Bool.false_eq_true, false_iff]
    rintro ⟨instructions, hcomplete, -⟩
    rw [hcomplete] at hdecode
    contradiction

/--
The classes that pay to a hash hold exactly the scripts that are written for one, each for one hash
only. So no script of such a class can be continued or cut off, and none pushes its hash in another
way.
-/
theorem hash_classes_eq_images
    : (∀ script, ScriptClass.ofScript 0 script = .pubKeyHash
          ↔ ∃ hash, script = payToPubKeyHash hash)
      ∧ (∀ script, ScriptClass.ofScript 0 script = .scriptHash ↔ isPayToScriptHash script = true)
      ∧ (∀ script, isPayToScriptHash script = true ↔ ∃ hash, script = payToScriptHash hash)
      ∧ Function.Injective payToPubKeyHash
      ∧ Function.Injective payToScriptHash
      ∧ (∀ script tail, tail ≠ [] → ∀ cls ∈ [ScriptClass.pubKeyHash, .scriptHash],
          ScriptClass.ofScript 0 script = cls → ScriptClass.ofScript 0 (script ++ tail) ≠ cls)
      ∧ (∀ push : Instruction, push.Fits
          → (ScriptClass.ofScript 0 ([Opcode.dup.byte, Opcode.hash160.byte] ++ push.bytes
                  ++ [Opcode.equalVerify.byte, Opcode.checkSig.byte]) = .pubKeyHash
                → push.opcode = .data20)
            ∧ (ScriptClass.ofScript 0 ([Opcode.hash160.byte] ++ push.bytes
                  ++ [Opcode.equal.byte]) = .scriptHash
                → push.opcode = .data20)) := by
  have hkey : ∀ script, ScriptClass.ofScript 0 script = .pubKeyHash
      ↔ PaysToHash [.dup, .hash160] [.equalVerify, .checkSig] script := by
    intro script
    rw [ScriptClass.ofScript_eq_pubKeyHash_iff, eq_self, true_and]
  have hscript : ∀ script, ScriptClass.ofScript 0 script = .scriptHash
      ↔ PaysToHash [.hash160] [.equal] script := by
    intro script
    rw [ScriptClass.ofScript_eq_scriptHash_iff, eq_self, true_and]
  refine ⟨?_, ?_, ?_, payToPubKeyHash_injective, payToScriptHash_injective, ?_, ?_⟩
  . intro script
    rw [hkey, paysToHash_iff_payToPubKeyHash]
  . intro script
    rw [hscript, isPayToScriptHash_iff]
  . intro script
    rw [isPayToScriptHash_iff, paysToHash_iff_payToScriptHash]
  . intro script tail htail
    simp only [List.forall_mem_cons, ne_eq, hkey, hscript]
    refine ⟨?_, ?_, by simp⟩
    . intro h
      exact h.not_append (by decide) (by decide) htail
    . intro h
      exact h.not_append (by decide) (by decide) htail
  . intro push hpush
    rw [hkey, hscript]
    constructor
    . intro h
      exact PaysToHash.opcode_eq (by decide) (by decide) hpush h
    . intro h
      exact PaysToHash.opcode_eq (by decide) (by decide) hpush h

end ScriptAnalysis
