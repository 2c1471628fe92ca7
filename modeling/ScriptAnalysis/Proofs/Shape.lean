import ScriptAnalysis.Proofs.RedeemGuard
import ScriptAnalysis.Proofs.SigOps
import ScriptAnalysis.Proofs.Unspendable

/-!
This module contains that scripts are judged by their shape, which is made of the opcodes and the
sizes of the payloads. Two scripts of the same shape belong to the same class, cost the same and get
the same answer to every other question that does not ask for the payloads themselves.
-/

namespace ScriptAnalysis

namespace Instruction

structure SameShape (first second : Instruction) : Prop where
  opcode_eq : first.opcode = second.opcode
  length_eq : first.payload.length = second.payload.length

namespace SameShape

variable {first second : Instruction}

theorem lengthField_eq (h : SameShape first second) : first.lengthField = second.lengthField := by
  unfold lengthField
  rw [h.opcode_eq, h.length_eq]

theorem fits (h : SameShape first second) (hfits : first.Fits) : second.Fits := by
  rcases first with ⟨opcode, payload⟩
  rcases second with ⟨_, payload'⟩
  obtain ⟨rfl, hlength⟩ := h
  cases hop : opcode.operand with
  | none =>
    rw [fits_iff_of_none hop] at hfits ⊢
    rwa [← List.length_eq_zero_iff, ← hlength, List.length_eq_zero_iff]
  | fixed length =>
    rw [fits_iff_of_fixed hop] at hfits ⊢
    rwa [← hlength]
  | prefixed width =>
    simp only [Fits, hop] at hfits ⊢
    rwa [← hlength]

end SameShape

end Instruction

theorem Slot.accepts_congr {first second : Instruction} (h : first.SameShape second) (slot : Slot)
    : slot.accepts first = slot.accepts second := by
  cases slot <;> simp only [accepts, h.opcode_eq, h.length_eq]

section Congr

variable {first second : List Instruction} (h : List.Forall₂ Instruction.SameShape first second)

include h

theorem Template.accepts_congr (template : Template)
    : template.accepts first = template.accepts second := by
  induction h generalizing template with
  | nil => rfl
  | cons hins _ ih =>
    cases template with
    | nil => rfl
    | cons slot template => rw [accepts, accepts, slot.accepts_congr hins, ih]

theorem ScriptClass.recognises_congr (cls : ScriptClass)
    : cls.recognises first = cls.recognises second := by
  unfold recognises
  rw [h.length_eq]
  simp only [Template.accepts_congr h]

theorem ScriptClass.ofInstructions_congr : ofInstructions first = ofInstructions second := by
  unfold ofInstructions
  simp only [recognises_congr h]

theorem map_opcode_congr : first.map (·.opcode) = second.map (·.opcode) := by
  induction h with
  | nil => rfl
  | cons hins _ ih => rw [List.map_cons, List.map_cons, hins.opcode_eq, ih]

theorem all_opcode_congr (p : Opcode → Bool)
    : first.all (p ·.opcode) = second.all (p ·.opcode) := by
  have := congrArg (List.all · p) (map_opcode_congr h)
  simpa [Function.comp_def] using this

theorem any_opcode_congr (p : Opcode → Bool)
    : first.any (p ·.opcode) = second.any (p ·.opcode) := by
  have := congrArg (List.any · p) (map_opcode_congr h)
  simpa [Function.comp_def] using this

theorem filter_opcode_congr (p : Opcode → Bool)
    : List.Forall₂ Instruction.SameShape (first.filter (p ·.opcode))
        (second.filter (p ·.opcode)) := by
  apply List.rel_filter ?_ h
  intro ins ins' hins
  simp only [hins.opcode_eq]

theorem SigOps.count.go_congr (counting : Counting) (previous : Option Opcode) (acc : Nat)
    : count.go counting previous acc first = count.go counting previous acc second := by
  induction h generalizing previous acc with
  | nil => rfl
  | cons hins _ ih => rw [count.go, count.go, hins.opcode_eq, ih]

end Congr

section Script

variable {script other : List UInt8} {instructions others : List Instruction}
  (hscript : decode script = ⟨instructions, none⟩) (hother : decode other = ⟨others, none⟩)
  (h : List.Forall₂ Instruction.SameShape instructions others)

include hscript hother h

theorem ScriptClass.ofScript_congr (version : UInt16)
    : ofScript version script = ofScript version other := by
  unfold ofScript
  rw [Decoded.toExcept_eq_ok_iff.mpr hscript, Decoded.toExcept_eq_ok_iff.mpr hother]
  simp only [ofInstructions_congr h]

theorem isStakeOutput_congr : isStakeOutput script = isStakeOutput other := by
  unfold isStakeOutput
  rw [ScriptClass.ofScript_congr hscript hother h]

theorem stakeSubclass_congr : stakeSubclass? script = stakeSubclass? other := by
  unfold stakeSubclass?
  rw [Decoded.toExcept_eq_ok_iff.mpr hscript, Decoded.toExcept_eq_ok_iff.mpr hother]
  have huntagged := filter_opcode_congr h (!·.isStakeTag)
  simp only [ScriptClass.ofInstructions_congr h, ScriptClass.ofInstructions_congr huntagged]

theorem isPayToScriptHash_congr : isPayToScriptHash script = isPayToScriptHash other := by
  unfold isPayToScriptHash
  rw [Decoded.toExcept_eq_ok_iff.mpr hscript, Decoded.toExcept_eq_ok_iff.mpr hother]
  exact Template.accepts_congr h Template.scriptHash

theorem isPushOnlyScript_congr : isPushOnlyScript script = isPushOnlyScript other := by
  unfold isPushOnlyScript
  rw [Decoded.toExcept_eq_ok_iff.mpr hscript, Decoded.toExcept_eq_ok_iff.mpr hother]
  exact all_opcode_congr h Opcode.isPush

theorem containsStakeTags_congr : containsStakeTags script = containsStakeTags other := by
  rw [containsStakeTags_of_complete hscript, containsStakeTags_of_complete hother]
  rw [any_opcode_congr h Opcode.isStakeTag]

theorem isUnspendable_congr (amount : Int64)
    : isUnspendable amount script = isUnspendable amount other := by
  have hhead : ∀ {instructions : List Instruction},
      (∃ ins, instructions.head? = some ins ∧ ins.opcode = .opReturn)
        ↔ (instructions.map (·.opcode)).head? = some .opReturn := by
    simp
  rw [Bool.eq_iff_iff, isUnspendable_iff, isUnspendable_iff, hscript, hother]
  rw [hhead, hhead, map_opcode_congr h]

theorem SigOps.ofScript_congr : ofScript script = ofScript other := by
  unfold ofScript count
  rw [hscript, hother]
  exact count.go_congr h ..

theorem SigOps.ofSpending_congr (signatureScript : List UInt8)
    : ofSpending signatureScript script false = ofSpending signatureScript other false := by
  unfold ofSpending count
  rw [hscript, hother]
  exact count.go_congr h ..

end Script

end ScriptAnalysis
