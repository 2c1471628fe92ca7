import ScriptAnalysis.Proofs.Canonical
import ScriptAnalysis.Proofs.SigOps

namespace ScriptAnalysis

namespace Opcode

theorem isMultisigCheck_iff {op : Opcode}
    : op.isMultisigCheck = true ↔ op = .checkMultisig ∨ op = .checkMultisigVerify := by
  simp [isMultisigCheck]

theorem smallInt?_of_isPositiveSmallInt {op : Opcode} (h : op.isPositiveSmallInt = true)
    : op.smallInt? = some (op.byte.toNat - 0x50) ∧ 0 < op.byte.toNat - 0x50 := by
  have hne : op ≠ op0 := by
    rintro rfl
    contradiction
  constructor
  . rw [smallInt?, if_neg hne, if_pos h]
  . simp only [isPositiveSmallInt, op1, UInt8.le_iff_toNat_le, UInt8.reduceToNat,
      decide_eq_true_eq] at h
    omega

end Opcode

namespace SigOps

def DeclaresKeys (previous check : Opcode) (keys : Nat) : Prop :=
  1 ≤ keys ∧ keys ≤ 16 ∧ previous = .smallInt keys
    ∧ (check = .checkMultisig ∨ check = .checkMultisigVerify)

def declaredKeys? (previous check : Opcode) : Option Nat :=
  if check.isMultisigCheck then
    previous.smallInt?.filter (0 < ·)
  else
    none

theorem declaredKeys?_eq_some_iff {previous check : Opcode} {keys : Nat}
    : declaredKeys? previous check = some keys ↔ DeclaresKeys previous check keys := by
  unfold declaredKeys? DeclaresKeys
  rw [← Opcode.isMultisigCheck_iff]
  split
  . next hcheck =>
    simp only [Option.filter_eq_some_iff, Opcode.smallInt?_eq_some_iff, decide_eq_true_eq, hcheck,
      and_true]
    constructor
    . rintro ⟨⟨hle, hprevious⟩, hpos⟩
      exact ⟨hpos, hle, hprevious⟩
    . rintro ⟨hpos, hle, hprevious⟩
      exact ⟨⟨hle, hprevious⟩, hpos⟩
  . next hcheck => simp [hcheck]

theorem declaredKeys?_of_not_isMultisigCheck {check : Opcode} (h : check.isMultisigCheck = false)
    (previous : Opcode)
    : declaredKeys? previous check = none := by
  simp [declaredKeys?, h]

def declaredKeys (instructions : List Instruction) : List Nat :=
  instructions.consecutivePairs.filterMap fun pair => declaredKeys? pair.1.opcode pair.2.opcode

def saved (keys : List Nat) : Nat :=
  (keys.map (Limits.maxMultisigKeys - ·)).sum

theorem saved_append (front back : List Nat)
    : saved (front ++ back) = saved front + saved back := by
  simp [saved]

theorem declaredKeys_cons_cons (previous check : Instruction) (instructions : List Instruction)
    : declaredKeys (previous :: check :: instructions)
        =
      (declaredKeys? previous.opcode check.opcode).toList ++ declaredKeys (check :: instructions)
        := by
  unfold declaredKeys
  rw [List.consecutivePairs, List.tail_cons, List.zip_cons_cons, List.filterMap_cons]
  cases declaredKeys? previous.opcode check.opcode <;> rfl

theorem mem_declaredKeys_iff {instructions : List Instruction} {keys : Nat}
    : keys ∈ declaredKeys instructions
        ↔
      ∃ position previous check, instructions[position]? = some previous
        ∧ instructions[position + 1]? = some check
        ∧ DeclaresKeys previous.opcode check.opcode keys := by
  rw [declaredKeys, List.mem_filterMap]
  simp only [List.mem_iff_getElem?, declaredKeys?_eq_some_iff, Prod.exists,
    List.getElem?_zip_eq_some, List.getElem?_tail]
  constructor
  . rintro ⟨previous, check, ⟨position, hprevious, hcheck⟩, hkeys⟩
    exact ⟨position, previous, check, hprevious, hcheck, hkeys⟩
  . rintro ⟨position, previous, check, hprevious, hcheck, hkeys⟩
    exact ⟨previous, check, ⟨position, hprevious, hcheck⟩, hkeys⟩

theorem declaredKeys_eq_nil_iff {instructions : List Instruction}
    : declaredKeys instructions = []
        ↔
      ¬ ∃ position previous check keys, instructions[position]? = some previous
          ∧ instructions[position + 1]? = some check
          ∧ DeclaresKeys previous.opcode check.opcode keys := by
  rw [List.eq_nil_iff_forall_not_mem]
  simp only [mem_declaredKeys_iff]
  constructor
  . rintro h ⟨position, previous, check, keys, hkeys⟩
    exact h keys ⟨position, previous, check, hkeys⟩
  . rintro h keys ⟨position, previous, check, hkeys⟩
    exact h ⟨position, previous, check, keys, hkeys⟩

theorem saved_eq_zero_iff {instructions : List Instruction}
    : saved (declaredKeys instructions) = 0 ↔ declaredKeys instructions = [] := by
  constructor
  . intro hsaved
    rw [saved, List.sum_eq_zero_iff, List.forall_mem_map] at hsaved
    rw [List.eq_nil_iff_forall_not_mem]
    intro keys hkeys
    obtain ⟨_, _, _, -, -, -, hle, -⟩ := mem_declaredKeys_iff.mp hkeys
    have hzero := hsaved keys hkeys
    rw [Limits.maxMultisigKeys] at hzero
    omega
  . intro hnone
    rw [hnone]
    rfl

section Cost

variable {op : Opcode}

theorem cost_worstCase_of_isMultisigCheck (h : op.isMultisigCheck = true)
    (previous : Option Opcode)
    : cost .worstCase previous op = Limits.maxMultisigKeys := by
  rcases Opcode.isMultisigCheck_iff.mp h with rfl | rfl <;> rfl

theorem cost_precise_of_isMultisigCheck (h : op.isMultisigCheck = true) (previous : Opcode)
    : cost .precise (some previous) op
        =
      (declaredKeys? previous op).getD Limits.maxMultisigKeys := by
  have hcost : cost .precise (some previous) op
      = if previous.isPositiveSmallInt then previous.byte.toNat - 0x50
        else Limits.maxMultisigKeys := by
    rcases Opcode.isMultisigCheck_iff.mp h with rfl | rfl <;> rfl
  rw [hcost, declaredKeys?, if_pos h]
  split
  . next hsmall =>
    obtain ⟨hsome, hpos⟩ := Opcode.smallInt?_of_isPositiveSmallInt hsmall
    rw [hsome, Option.filter_some, if_pos (decide_eq_true hpos), Option.getD_some]
  . next hsmall =>
    unfold Opcode.smallInt?
    rw [if_neg hsmall]
    split <;> rfl

theorem cost_worstCase_eq (previous op : Opcode)
    : cost .worstCase (some previous) op
        =
      cost .precise (some previous) op + saved (declaredKeys? previous op).toList := by
  cases hcheck : op.isMultisigCheck with
  | false =>
    rw [cost_of_not_isMultisigCheck hcheck .worstCase, cost_of_not_isMultisigCheck hcheck .precise,
      declaredKeys?_of_not_isMultisigCheck hcheck]
    rfl
  | true =>
    rw [cost_worstCase_of_isMultisigCheck hcheck, cost_precise_of_isMultisigCheck hcheck]
    cases hkeys : declaredKeys? previous op with
    | none => rfl
    | some keys =>
      obtain ⟨-, hle, -⟩ := declaredKeys?_eq_some_iff.mp hkeys
      simp only [Option.getD_some, Option.toList_some, saved, List.map_cons, List.map_nil,
        List.sum_cons, List.sum_nil, Limits.maxMultisigKeys]
      omega

theorem cost_none_eq (op : Opcode) : cost .worstCase none op = cost .precise none op := by
  rfl

theorem cost_le_worstCase (counting : Counting) (previous : Option Opcode) (op : Opcode)
    : cost counting previous op ≤ cost .worstCase previous op := by
  cases counting with
  | worstCase => apply Nat.le_refl
  | precise =>
    cases previous with
    | none =>
      rw [cost_none_eq]
    | some previous =>
      rw [cost_worstCase_eq]
      apply Nat.le_add_right

theorem cost_le (counting : Counting) (previous : Option Opcode) (op : Opcode)
    : cost counting previous op ≤ Limits.maxMultisigKeys := by
  apply Nat.le_trans (cost_le_worstCase counting previous op)
  unfold cost
  split
  . decide
  . split
    . apply Nat.le_refl
    . apply Nat.zero_le

end Cost

theorem count.go_le (counting : Counting) (previous : Option Opcode) (acc : Nat)
    (instructions : List Instruction)
    : count.go counting previous acc instructions
        ≤
      acc + Limits.maxMultisigKeys * instructions.length := by
  induction instructions generalizing previous acc with
  | nil => apply Nat.le_refl
  | cons ins instructions ih =>
    have hcost := cost_le counting previous ins.opcode
    have hrest := ih (some ins.opcode) (acc + cost counting previous ins.opcode)
    rw [count.go, List.length_cons, Nat.mul_succ]
    omega

theorem count.go_worstCase_eq (previous : Option Instruction) (instructions : List Instruction)
    : count.go .worstCase (previous.map (·.opcode)) 0 instructions
        =
      count.go .precise (previous.map (·.opcode)) 0 instructions
        + saved (declaredKeys (previous.toList ++ instructions)) := by
  induction instructions generalizing previous with
  | nil => cases previous <;> rfl
  | cons ins instructions ih =>
    have hrest := ih (some ins)
    rw [Option.map_some, Option.toList_some, List.singleton_append] at hrest
    rw [count.go, count.go, count.go_eq_add, count.go_eq_add .precise, hrest]
    cases previous with
    | none =>
      rw [Option.map_none, cost_none_eq, Option.toList_none, List.nil_append]
      omega
    | some previous =>
      rw [Option.map_some, cost_worstCase_eq, Option.toList_some, List.singleton_append,
        declaredKeys_cons_cons, saved_append]
      omega

theorem count_worstCase_eq (instructions : List Instruction)
    : count .worstCase instructions
        =
      count .precise instructions + saved (declaredKeys instructions) := by
  apply count.go_worstCase_eq none

/--
Counting precisely saves, at each multisig check that is declared its number of keys, what this
number falls short of 20, and nothing anywhere else. Neither count is ever more than 20 for each
instruction.
-/
theorem precise_saves_on_declaredKeys (instructions : List Instruction)
    : count .worstCase instructions
          = count .precise instructions + ((declaredKeys instructions).map (20 - ·)).sum
      ∧ count .precise instructions ≤ count .worstCase instructions
      ∧ (count .precise instructions = count .worstCase instructions
          ↔ ¬ ∃ position previous check keys, instructions[position]? = some previous
              ∧ instructions[position + 1]? = some check
              ∧ DeclaresKeys previous.opcode check.opcode keys)
      ∧ ∀ counting, count counting instructions ≤ 20 * instructions.length := by
  have hworst := count_worstCase_eq instructions
  refine ⟨hworst, ?_, ?_, ?_⟩
  . rw [hworst]
    apply Nat.le_add_right
  . rw [← declaredKeys_eq_nil_iff, ← saved_eq_zero_iff]
    omega
  . intro counting
    have hle := count.go_le counting none 0 instructions
    rwa [Nat.zero_add] at hle

example
    : count .worstCase [⟨.smallInt 2, []⟩, ⟨.checkMultisig, []⟩, ⟨.checkMultisigVerify, []⟩] = 40
        ∧ count .precise [⟨.smallInt 2, []⟩, ⟨.checkMultisig, []⟩, ⟨.checkMultisigVerify, []⟩]
            = 22 := by
  decide

end SigOps

end ScriptAnalysis
