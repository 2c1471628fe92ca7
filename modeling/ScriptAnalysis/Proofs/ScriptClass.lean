import Mathlib.Data.List.Basic
import ScriptAnalysis.Payment.ScriptClass
import ScriptAnalysis.Proofs.Template

namespace ScriptAnalysis

namespace ScriptClass

theorem exists_template_of_recognises {cls : ScriptClass} {instructions : List Instruction}
    (h : cls.recognises instructions = true)
    : ∃ template ∈ cls.templates (instructions.length - 3),
        template.accepts instructions = true := by
  simpa [recognises] using h

theorem templates_of_ne_multisig {cls : ScriptClass} (h : cls ≠ multisig) (keys : Nat)
    : cls.templates keys = cls.templates 0 := by
  cases cls <;> first | rfl | contradiction

theorem forall_templates {cls : ScriptClass} {keys : Nat} {p : Template → Prop}
    (hmultisig : cls = multisig → p (.multisig keys))
    (hfixed : ∀ template ∈ cls.templates 0, p template)
    : ∀ template ∈ cls.templates keys, p template := by
  intro template htemplate
  by_cases hcls : cls = multisig
  . subst hcls
    simp only [templates] at htemplate
    split at htemplate
    . rw [List.mem_singleton] at htemplate
      subst htemplate
      exact hmultisig rfl
    . contradiction
  . rw [templates_of_ne_multisig hcls] at htemplate
    exact hfixed template htemplate

def closingSlots : List Slot :=
  [.op .checkSig, .op .checkSigAlt, .op .equal, .op .opReturn, .carrier]

theorem getLast_templates_mem (cls : ScriptClass)
    : ∀ template ∈ cls.templates 0, template.getLast? ∈ closingSlots.map some := by
  cases cls <;> decide

theorem accepts_closingSlot {slot : Slot} {ins : Instruction} (hslot : slot ∈ closingSlots)
    (hins : ins.opcode = .checkMultisig)
    : slot.accepts ins = false := by
  have hcarrier : ¬ (Opcode.checkMultisig.isSmallInt = true
      ∨ Opcode.checkMultisig.byte ≤ Opcode.pushData4.byte) := by
    decide
  simp only [closingSlots, List.mem_cons, List.not_mem_nil, or_false] at hslot
  rcases hslot with rfl | rfl | rfl | rfl | rfl
  . simp [Slot.accepts, hins, Opcode.checkMultisig, Opcode.checkSig]
  . simp [Slot.accepts, hins, Opcode.checkMultisig, Opcode.checkSigAlt]
  . simp [Slot.accepts, hins, Opcode.checkMultisig, Opcode.equal]
  . simp [Slot.accepts, hins, Opcode.checkMultisig, Opcode.opReturn]
  . simp only [Slot.accepts, hins, hcarrier, false_and, decide_false]

theorem eq_multisig_of_recognises {cls : ScriptClass} {front : List Instruction}
    {last : Instruction} (h : cls.recognises (front ++ [last]) = true)
    (hlast : last.opcode = .checkMultisig)
    : cls = multisig := by
  apply Decidable.byContradiction
  intro hcls
  obtain ⟨template, hmem, haccepts⟩ := exists_template_of_recognises h
  obtain ⟨slot, hslot, haccepts⟩ := Template.accepts_getLast haccepts
  -- The templates of all other classes end with a slot that does not accept the check.
  rw [templates_of_ne_multisig hcls] at hmem
  have hclosing := getLast_templates_mem cls template hmem
  have : slot ∈ closingSlots := by simpa [hslot] using hclosing
  rw [accepts_closingSlot this hlast] at haccepts
  contradiction

theorem ofInstructions_of_checkMultisig {front : List Instruction} {last : Instruction}
    (hlast : last.opcode = .checkMultisig)
    : ofInstructions (front ++ [last])
        =
      if multisig.recognises (front ++ [last]) then multisig else nonStandard := by
  unfold ofInstructions
  cases hfind : all.find? (·.recognises (front ++ [last])) with
  | none =>
    have : multisig.recognises (front ++ [last]) = false := by
      simpa using List.find?_eq_none.mp hfind multisig (by decide)
    simp [this]
  | some cls =>
    have hrecognises := List.find?_some hfind
    have := eq_multisig_of_recognises hrecognises hlast
    subst this
    simp [hrecognises]

theorem recognises_multisig {first last check : Instruction} {keys : List Instruction}
    (hpos : 1 ≤ keys.length) (hle : keys.length ≤ 16) (hfirst : first.opcode.isSmallInt = true)
    (hkeys : ∀ key ∈ keys, Limits.isKeySize key.payload.length = true)
    (hlast : last.opcode = .smallInt keys.length) (hcheck : check.opcode = .checkMultisig)
    : multisig.recognises (first :: (keys ++ [last, check])) = true := by
  have hlength : (first :: (keys ++ [last, check])).length - 3 = keys.length := by
    simp
  have hreplicate := Template.accepts_replicate_key_iff.mpr ⟨rfl, hkeys⟩
  unfold recognises
  rw [hlength]
  simp only [templates, hpos, hle, and_self, if_true, List.any_cons, List.any_nil, Bool.or_false]
  unfold Template.multisig
  rw [List.append_assoc, List.singleton_append, Template.accepts]
  rw [Template.accepts_append (by simp), hreplicate]
  simp [Template.accepts, Slot.accepts, hfirst, hlast, hcheck]

theorem exists_of_recognises_multisig {instructions : List Instruction}
    (h : multisig.recognises instructions = true)
    : ∃ first keys last check, instructions = first :: (keys ++ [last, check])
        ∧ 1 ≤ keys.length ∧ keys.length ≤ 16 ∧ first.opcode.isSmallInt = true
        ∧ (∀ key ∈ keys, Limits.isKeySize key.payload.length = true)
        ∧ last.opcode = .smallInt keys.length ∧ check.opcode = .checkMultisig := by
  obtain ⟨template, hmem, haccepts⟩ := exists_template_of_recognises h
  generalize instructions.length - 3 = size at hmem
  simp only [templates] at hmem
  split at hmem
  . next hsize =>
    rw [List.mem_singleton] at hmem
    subst hmem
    rw [Template.multisig, Template.accepts_append_iff] at haccepts
    obtain ⟨_, behind, rfl, hfront, hbehind⟩ := haccepts
    rw [Template.accepts_append_iff] at hfront
    obtain ⟨opening, keys, rfl, hopening, hkeys⟩ := hfront
    obtain ⟨rfl, hsizes⟩ := Template.accepts_replicate_key_iff.mp hkeys
    obtain ⟨first, rfl⟩ := List.length_eq_one_iff.mp (Template.length_of_accepts hopening)
    obtain ⟨last, check, rfl⟩ := List.length_eq_two.mp (Template.length_of_accepts hbehind)
    have hfirst : first.opcode.isSmallInt = true := by
      simpa [Template.accepts, Slot.accepts] using hopening
    have hclosing : last.opcode = .smallInt keys.length ∧ check.opcode = .checkMultisig := by
      simpa [Template.accepts, Slot.accepts] using hbehind
    exact ⟨first, keys, last, check, by simp, hsize.left, hsize.right, hfirst, hsizes, hclosing⟩
  . contradiction

theorem not_recognises_multisig {instructions : List Instruction} (h : 19 < instructions.length)
    : multisig.recognises instructions = false := by
  have : ¬ (1 ≤ instructions.length - 3 ∧ instructions.length - 3 ≤ 16) := by omega
  unfold recognises
  simp only [templates, if_neg this, List.any_nil]

end ScriptClass

end ScriptAnalysis
