import ScriptAnalysis.Proofs.ScriptClass

/-!
This module contains that no instructions belong to two classes. Two templates exclude each other
if they differ in length, or if at some position one of them asks for an opcode that the other does
not admit there. So the order in which the classes are tried does not matter.
-/

namespace ScriptAnalysis

namespace Slot

def admits : Slot → Opcode → Bool
  | op opcode, other => other = opcode
  | key, _ => true
  | altKey, other => other.carriesData
  | suite, other => other.isPositiveSmallInt
  | smallInt, other => other.isSmallInt
  | carrier, other => other.isSmallInt ∨ other.byte ≤ Opcode.pushData4.byte

theorem accepts_op_iff {opcode : Opcode} {ins : Instruction}
    : (op opcode).accepts ins = true ↔ ins.opcode = opcode := by
  simp [accepts]

theorem admits_of_accepts {slot : Slot} {ins : Instruction} (h : slot.accepts ins = true)
    : slot.admits ins.opcode = true := by
  cases slot with
  | op opcode => exact h
  | key => rfl
  | altKey =>
    simp only [accepts, decide_eq_true_eq] at h
    exact h.left
  | suite => exact h
  | smallInt => exact h
  | carrier =>
    simp only [accepts, decide_eq_true_eq] at h
    simpa only [admits, decide_eq_true_eq] using h.left

def excludes : Slot → Slot → Bool
  | op opcode, other => !other.admits opcode
  | other, op opcode => !other.admits opcode
  | _, _ => false

theorem accepts_of_excludes {first second : Slot} {ins : Instruction}
    (h : first.excludes second = true) (hfirst : first.accepts ins = true)
    : second.accepts ins = false := by
  rw [Bool.eq_false_iff]
  intro hsecond
  unfold excludes at h
  split at h
  . rw [← accepts_op_iff.mp hfirst, admits_of_accepts hsecond] at h
    contradiction
  . rw [← accepts_op_iff.mp hsecond, admits_of_accepts hfirst] at h
    contradiction
  . contradiction

end Slot

namespace Template

def excludes : Template → Template → Bool
  | [], [] => false
  | first :: front, second :: back => first.excludes second || excludes front back
  | _, _ => true

theorem accepts_of_excludes {first second : Template} {instructions : List Instruction}
    (h : first.excludes second = true) (hfirst : first.accepts instructions = true)
    : second.accepts instructions = false := by
  induction first generalizing second instructions with
  | nil =>
    cases instructions with
    | cons => simp [accepts] at hfirst
    | nil =>
      cases second with
      | nil => simp [excludes] at h
      | cons => rfl
  | cons slot first ih =>
    cases instructions with
    | nil => simp [accepts] at hfirst
    | cons ins instructions =>
      cases second with
      | nil => rfl
      | cons slot' second =>
        simp only [accepts, Bool.and_eq_true] at hfirst
        simp only [excludes, Bool.or_eq_true] at h
        rw [accepts, Bool.and_eq_false_iff]
        cases h with
        | inl h => exact .inl (Slot.accepts_of_excludes h hfirst.left)
        | inr h => exact .inr (ih h hfirst.right)

end Template

namespace ScriptClass

theorem mem_all (cls : ScriptClass) : cls ∈ all := by
  cases cls <;> decide

theorem excludes_templates {first second : ScriptClass} (h : first ≠ second)
    : ∀ front ∈ first.templates 0, ∀ back ∈ second.templates 0,
        Template.excludes front back = true := by
  have : ∀ first ∈ all, ∀ second ∈ all, first ≠ second
      → ∀ front ∈ first.templates 0, ∀ back ∈ second.templates 0,
          Template.excludes front back = true := by
    decide
  exact this first first.mem_all second second.mem_all h

theorem exists_check_of_recognises_multisig {instructions : List Instruction}
    (h : multisig.recognises instructions = true)
    : ∃ front last, instructions = front ++ [last] ∧ last.opcode = .checkMultisig := by
  obtain ⟨first, keys, last, check, rfl, -, -, -, -, -, hcheck⟩
    := exists_of_recognises_multisig h
  exact ⟨first :: (keys ++ [last]), check, by simp, hcheck⟩

theorem eq_of_recognises {first second : ScriptClass} {instructions : List Instruction}
    (hfirst : first.recognises instructions = true)
    (hsecond : second.recognises instructions = true)
    : first = second := by
  by_cases hmultisig : first = multisig
  . subst hmultisig
    obtain ⟨front, last, rfl, hlast⟩ := exists_check_of_recognises_multisig hfirst
    exact (eq_multisig_of_recognises hsecond hlast).symm
  . by_cases hmultisig' : second = multisig
    . subst hmultisig'
      obtain ⟨front, last, rfl, hlast⟩ := exists_check_of_recognises_multisig hsecond
      exact eq_multisig_of_recognises hfirst hlast
    . apply Decidable.byContradiction
      intro hne
      obtain ⟨front, hfront, haccepts⟩ := exists_template_of_recognises hfirst
      obtain ⟨back, hback, haccepts'⟩ := exists_template_of_recognises hsecond
      rw [templates_of_ne_multisig hmultisig] at hfront
      rw [templates_of_ne_multisig hmultisig'] at hback
      have hexcludes := excludes_templates hne front hfront back hback
      rw [Template.accepts_of_excludes hexcludes haccepts] at haccepts'
      contradiction

def firstIn (order : List ScriptClass) (instructions : List Instruction) : ScriptClass :=
  (order.find? (·.recognises instructions)).getD nonStandard

theorem firstIn_eq_iff {order : List ScriptClass} {cls : ScriptClass}
    {instructions : List Instruction} (h : cls ≠ nonStandard)
    : firstIn order instructions = cls ↔ cls ∈ order ∧ cls.recognises instructions = true := by
  unfold firstIn
  cases hfind : order.find? (·.recognises instructions) with
  | none =>
    constructor
    . intro hcls
      exact absurd hcls.symm h
    . rintro ⟨hmem, hrecognises⟩
      have := List.find?_eq_none.mp hfind cls hmem
      contradiction
  | some other =>
    have hother := List.find?_some hfind
    constructor
    . rintro rfl
      exact ⟨List.mem_of_find?_eq_some hfind, hother⟩
    . rintro ⟨-, hrecognises⟩
      exact eq_of_recognises hother hrecognises

theorem ofInstructions_eq_iff {cls : ScriptClass} {instructions : List Instruction}
    (h : cls ≠ nonStandard)
    : ofInstructions instructions = cls ↔ cls.recognises instructions = true := by
  have hall : ofInstructions instructions = firstIn all instructions := by rfl
  rw [hall, firstIn_eq_iff h, and_iff_right cls.mem_all]

theorem ofScript_eq_iff {cls : ScriptClass} {version : UInt16} {script : List UInt8}
    (h : cls ≠ nonStandard)
    : ofScript version script = cls
        ↔
      version = 0
        ∧ ∃ instructions, decode script = ⟨instructions, none⟩
            ∧ cls.recognises instructions = true := by
  unfold ofScript
  by_cases hversion : version = Limits.supportedVersion
  . rw [if_neg (Decidable.not_not.mpr hversion)]
    cases hdecode : (decode script).toExcept with
    | error error =>
      rw [Decoded.toExcept_eq_error_iff] at hdecode
      constructor
      . intro hcls
        exact absurd hcls.symm h
      . rintro ⟨-, instructions, hcomplete, -⟩
        rw [hcomplete] at hdecode
        contradiction
    | ok instructions =>
      rw [Decoded.toExcept_eq_ok_iff] at hdecode
      simp only [ofInstructions_eq_iff h, hdecode, Decoded.mk.injEq, and_true, exists_eq_left']
      exact (and_iff_right hversion).symm
  . rw [if_pos hversion]
    constructor
    . intro hcls
      exact absurd hcls.symm h
    . rintro ⟨hsupported, -⟩
      exact absurd hsupported hversion

end ScriptClass

end ScriptAnalysis
