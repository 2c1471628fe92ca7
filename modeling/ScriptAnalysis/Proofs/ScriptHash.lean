import ScriptAnalysis.Payment.ScriptClass
import ScriptAnalysis.Proofs.HashPayment
import ScriptAnalysis.Proofs.Template

namespace ScriptAnalysis

def scriptHashInstructions (hash : Hash160) : List Instruction :=
  [⟨.hash160, []⟩, ⟨.data20, hash.bytes⟩, ⟨.equal, []⟩]

@[simp]
theorem flatMap_bytes_scriptHashInstructions (hash : Hash160)
    : (scriptHashInstructions hash).flatMap Instruction.bytes = payToScriptHash hash := by
  exact @flatMap_bytes_pushAmong [.hash160] [.equal] (by decide) (by decide) hash.push

theorem fits_of_mem_scriptHashInstructions {hash : Hash160}
    : ∀ ins ∈ scriptHashInstructions hash, ins.Fits := by
  exact @fits_of_mem_pushAmong [.hash160] [.equal] (by decide) (by decide) _ hash.fits_push

theorem isScriptHash_iff_map_opcode {instructions : List Instruction}
    : isScriptHash instructions = true
        ↔
      instructions.map (·.opcode) = [.hash160, .data20, .equal] := by
  have : Template.scriptHash = [.hash160, .data20, .equal].map Slot.op := by rfl
  unfold isScriptHash
  rw [this]
  apply Template.accepts_map_op_iff

theorem isScriptHash_iff_of_fits {instructions : List Instruction}
    (h : ∀ ins ∈ instructions, ins.Fits)
    : isScriptHash instructions = true ↔ ∃ hash, instructions = scriptHashInstructions hash := by
  rw [isScriptHash_iff_map_opcode]
  exact @map_opcode_eq_iff_pushAmong [.hash160] [.equal] (by decide) (by decide) _ h

def PaysToScriptHash (script : List UInt8) : Prop :=
  ∃ hash tail, script = payToScriptHash hash ++ tail ∧ (tail = [] ∨ StartsMalformed tail)

theorem isScriptHash_decode_iff {script : List UInt8}
    : isScriptHash (decode script).instructions = true ↔ PaysToScriptHash script := by
  rw [isScriptHash_iff_of_fits (fun _ => fits_of_mem_decode)]
  constructor
  . rintro ⟨hash, hinstructions⟩
    obtain ⟨tail, hscript, htail⟩ := exists_decode_split script
    rw [hinstructions, flatMap_bytes_scriptHashInstructions] at hscript
    exact ⟨hash, tail, hscript, htail⟩
  . rintro ⟨hash, tail, rfl, htail⟩
    refine ⟨hash, ?_⟩
    rw [← flatMap_bytes_scriptHashInstructions]
    rw [decode_flatMap_append fits_of_mem_scriptHashInstructions]
    rw [Decoded.instructions_behind, decode_instructions_eq_nil_iff.mpr htail, List.append_nil]

end ScriptAnalysis
