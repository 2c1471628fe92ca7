import ScriptAnalysis.Proofs.StakeClass

namespace ScriptAnalysis

namespace ScriptClass

def standard : List ScriptClass :=
  all.filter (· ≠ nonStandard)

theorem mem_standard_iff {cls : ScriptClass} : cls ∈ standard ↔ cls ≠ nonStandard := by
  simp [standard, cls.mem_all]

example : standard.length = 11 := by rfl

variable {instructions : List Instruction}

theorem firstIn_congr {order other : List ScriptClass}
    (h : ∀ cls, cls ≠ nonStandard → (cls ∈ order ↔ cls ∈ other))
    (instructions : List Instruction)
    : firstIn order instructions = firstIn other instructions := by
  have hiff : ∀ cls, cls ≠ nonStandard
      → (firstIn order instructions = cls ↔ firstIn other instructions = cls) := by
    intro cls hcls
    rw [firstIn_eq_iff hcls, firstIn_eq_iff hcls, h cls hcls]
  by_cases horder : firstIn order instructions = nonStandard
  . by_cases hother : firstIn other instructions = nonStandard
    . rw [horder, hother]
    . exact (hiff _ hother).mpr rfl
  . exact ((hiff _ horder).mp rfl).symm

theorem firstIn_of_perm {order : List ScriptClass} (h : order.Perm standard)
    (instructions : List Instruction)
    : firstIn order instructions = ofInstructions instructions := by
  apply firstIn_congr
  intro cls hcls
  rw [h.mem_iff, mem_standard_iff]
  exact iff_of_true hcls cls.mem_all

theorem pairwise_standard (instructions : List Instruction)
    : standard.Pairwise fun first second =>
        ¬ (first.recognises instructions = true ∧ second.recognises instructions = true) := by
  have hnodup : standard.Nodup := by decide
  apply hnodup.imp
  intro first second hne hboth
  apply hne
  apply eq_of_recognises hboth.left hboth.right

theorem isScriptHash_iff_ofInstructions
    : isScriptHash instructions = true ↔ ofInstructions instructions = scriptHash := by
  rw [isScriptHash_eq_recognises, ofInstructions_eq_iff (by decide)]

theorem isStakeScriptHash_iff_ofInstructions
    : isStakeScriptHash instructions = true
        ↔
      (ofInstructions instructions).isStake = true
        ∧ ofInstructions instructions.tail = scriptHash := by
  rw [isStake_ofInstructions_iff]
  cases instructions with
  | nil => simp [isStakeScriptHash]
  | cons first rest =>
    rw [isStakeScriptHash, Bool.and_eq_true, isScriptHash_iff_ofInstructions, List.tail_cons]
    constructor
    . rintro ⟨htag, hrest⟩
      have hrecognises := (ofInstructions_eq_iff (by decide)).mp hrest
      exact ⟨⟨first, rest, scriptHash, rfl, htag, .inr rfl, hrecognises⟩, hrest⟩
    . rintro ⟨⟨_, _, _, hcons, htag, -, -⟩, hrest⟩
      cases hcons
      exact ⟨htag, hrest⟩

/--
At most one of the patterns matches, so whichever is tried first the class is the same. It tells
whether the instructions pay to a script hash, with or without a stake tag.
-/
theorem patterns_exclusive_in_any_order (instructions : List Instruction)
    : standard.Pairwise (fun first second =>
          ¬ (first.recognises instructions = true ∧ second.recognises instructions = true))
      ∧ (∀ order : List ScriptClass, order.Perm standard
          → firstIn order instructions = ofInstructions instructions)
      ∧ (isAnyScriptHash instructions = true
          ↔ ofInstructions instructions = scriptHash
            ∨ ((ofInstructions instructions).isStake = true
                ∧ ofInstructions instructions.tail = scriptHash)) := by
  refine ⟨pairwise_standard instructions, ?_, ?_⟩
  . intro order horder
    apply firstIn_of_perm horder
  . rw [isAnyScriptHash, Bool.or_eq_true]
    rw [isScriptHash_iff_ofInstructions, isStakeScriptHash_iff_ofInstructions]

def misfitTagged : List Instruction :=
  [⟨.stakeGen, [1]⟩, ⟨.hash160, [2, 3]⟩, ⟨.data20, []⟩, ⟨.equal, List.replicate 33 0⟩]

theorem misfitTagged_stakeGen_in_reverse
    : standard.reverse.Perm standard
        ∧ firstIn standard.reverse misfitTagged = stakeGen
        ∧ isAnyScriptHash misfitTagged = true := by
  have hperm : standard.reverse.Perm standard := List.reverse_perm standard
  have hclass : ofInstructions misfitTagged = stakeGen := by decide
  have hrest : ofInstructions misfitTagged.tail = scriptHash := by decide
  obtain ⟨-, horder, hscriptHash⟩ := patterns_exclusive_in_any_order misfitTagged
  refine ⟨hperm, ?_, ?_⟩
  . rw [horder standard.reverse hperm, hclass]
  . rw [hscriptHash, hclass, hrest]
    exact .inr ⟨rfl, rfl⟩

end ScriptClass

end ScriptAnalysis
