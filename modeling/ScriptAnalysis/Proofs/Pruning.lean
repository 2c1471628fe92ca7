import ScriptAnalysis.Proofs.ClassCost
import ScriptAnalysis.Proofs.StakeTagged
import ScriptAnalysis.Proofs.Unspendable

/-!
This module contains which outputs of the standard classes can be pruned. A standard script decodes
in full, so only the opcode that returns at once makes it unspendable, and only the scripts that
carry data start with that one.
-/

namespace ScriptAnalysis

namespace Slot

theorem opcode_eq_opReturn_iff {slot : Slot} {ins : Instruction} (h : slot.accepts ins = true)
    (hfits : ins.Fits)
    : ins.opcode = .opReturn ↔ slot = .op .opReturn := by
  by_cases hslot : ∃ opcode, slot = .op opcode
  . obtain ⟨opcode, rfl⟩ := hslot
    rw [accepts_op_iff.mp h, op.injEq]
  . rw [not_exists] at hslot
    -- A slot for anything but one opcode accepts pushes only, in particular any key that fits.
    have hpush := isPush_of_accepts hslot h hfits
    constructor
    . intro hreturn
      rw [hreturn] at hpush
      contradiction
    . intro hop
      exact absurd hop (hslot _)

end Slot

namespace ScriptClass

def payable : List ScriptClass :=
  [pubKey, pubKeyAlt, pubKeyHash, pubKeyHashAlt, scriptHash, multisig, stakeSubmission, stakeGen,
    stakeRevocation, stakeChange]

theorem ne_of_mem_payable {cls : ScriptClass} (h : cls ∈ payable)
    : cls ≠ nonStandard ∧ cls ≠ nullData := by
  have : ∀ cls ∈ payable, cls ≠ nonStandard ∧ cls ≠ nullData := by
    decide
  exact this cls h

theorem head_templates_eq_opReturn_iff {cls : ScriptClass} {keys : Nat} {template : Template}
    (h : template ∈ cls.templates keys)
    : template.head? = some (.op .opReturn) ↔ cls = nullData := by
  have hfixed : ∀ template ∈ cls.templates 0,
      template.head? = some (.op .opReturn) ↔ cls = nullData := by
    cases cls <;> decide
  apply forall_templates ?_ hfixed template h
  rintro rfl
  simp [Template.multisig]

theorem head_eq_opReturn_iff_of_recognises {cls : ScriptClass} {instructions : List Instruction}
    (h : cls.recognises instructions = true) (hfits : ∀ ins ∈ instructions, ins.Fits)
    : (∃ ins, instructions.head? = some ins ∧ ins.opcode = .opReturn) ↔ cls = nullData := by
  cases instructions with
  | nil =>
    have hempty : nullData.recognises [] = false := by
      decide
    constructor
    . rintro ⟨ins, hins, -⟩
      contradiction
    . rintro rfl
      rw [hempty] at h
      contradiction
  | cons first rest =>
    rw [List.forall_mem_cons] at hfits
    obtain ⟨template, hmem, haccepts⟩ := exists_template_of_recognises h
    obtain ⟨slot, hslot, haccepts⟩ := Template.accepts_head haccepts
    rw [← head_templates_eq_opReturn_iff hmem, hslot, Option.some.injEq]
    rw [← Slot.opcode_eq_opReturn_iff haccepts hfits.left]
    simp

end ScriptClass

theorem isUnspendable_iff_of_standard {amount : Int64} {script : List UInt8} (hamount : amount ≠ 0)
    (hclass : ScriptClass.ofScript 0 script ≠ .nonStandard)
    : isUnspendable amount script = true ↔ ScriptClass.ofScript 0 script = .nullData := by
  obtain ⟨-, instructions, hdecode, hrecognises⟩ := (ScriptClass.ofScript_eq_iff hclass).mp rfl
  have hfits := (decode_eq_complete_iff.mp hdecode).left
  rw [isUnspendable_iff, hdecode]
  simp only [hamount, ne_eq, not_true_eq_false, false_or]
  apply ScriptClass.head_eq_opReturn_iff_of_recognises hrecognises hfits

theorem standard_pruned_iff_nullData (amount : Int64) (script : List UInt8) (hamount : amount ≠ 0)
    : (ScriptClass.ofScript 0 script ≠ .nonStandard
          → (isUnspendable amount script = true ↔ ScriptClass.ofScript 0 script = .nullData))
      ∧ (ScriptClass.ofScript 0 script ∈ ScriptClass.payable
          → isUnspendable amount script = false)
      ∧ (ScriptClass.ofScript 0 script = .nullData → isUnspendable amount script = true) := by
  refine ⟨?_, ?_, ?_⟩
  . intro hclass
    apply isUnspendable_iff_of_standard hamount hclass
  . intro hpayable
    obtain ⟨hclass, hcarrier⟩ := ScriptClass.ne_of_mem_payable hpayable
    rw [Bool.eq_false_iff, Ne, isUnspendable_iff_of_standard hamount hclass]
    exact hcarrier
  . intro hcarrier
    rw [isUnspendable_iff_of_standard hamount]
    . exact hcarrier
    . rw [hcarrier]
      decide

def keyOfReturns : List UInt8 :=
  [0x4c, 0x21] ++ List.replicate 33 0x6a ++ [0xac]

theorem keyOfReturns_kept_returned_data_pruned
    : ScriptClass.ofScript 0 keyOfReturns = .pubKey ∧ isUnspendable (-1) keyOfReturns = false
        ∧ ScriptClass.ofScript 0 [0x6a, 0x01, 0x6a] = .nullData
        ∧ isUnspendable (-1) [0x6a, 0x01, 0x6a] = true := by
  have hkey : ScriptClass.ofScript 0 keyOfReturns = .pubKey := by decide +kernel
  have hdata : ScriptClass.ofScript 0 [0x6a, 0x01, 0x6a] = .nullData := by decide +kernel
  obtain ⟨-, hkept, -⟩ := standard_pruned_iff_nullData (-1) keyOfReturns (by decide)
  obtain ⟨-, -, hpruned⟩ := standard_pruned_iff_nullData (-1) [0x6a, 0x01, 0x6a] (by decide)
  refine ⟨hkey, ?_, hdata, hpruned hdata⟩
  apply hkept
  rw [hkey]
  decide

end ScriptAnalysis
