import ScriptAnalysis.Proofs.Builder

namespace ScriptAnalysis

namespace Instruction

theorem size_ofInt_of_le {value : Int} (hlow : -1 ≤ value) (hhigh : value ≤ 16)
    : (ofInt value).size = 1 := by
  cases Int.lt_or_le value 0 with
  | inl hneg =>
    have : value = -1 := by omega
    rw [this, ofInt_neg_one, size_of_none (by decide)]
    rfl
  | inr hnonneg =>
    obtain ⟨n, rfl⟩ := Int.eq_ofNat_of_zero_le hnonneg
    have hle : n ≤ 16 := by omega
    rw [ofInt_natCast_of_le hle, size_of_none (Opcode.operand_smallInt hle)]
    rfl

end Instruction

namespace ScriptBuilder

namespace Step

def added : Step → List UInt8
  | addOp opcode => [opcode.byte]
  | addOps opcodes => opcodes.map (·.byte)
  | addData data => (Instruction.canonicalPush data).bytes
  | addInt value => (Instruction.ofInt value.toInt).bytes
  | drain => []
  | restart => []

def size : Step → Nat
  | addOp _ => 1
  | addOps opcodes => opcodes.length
  | addData data => Instruction.canonicalSize data
  | addInt value =>
    if -1 ≤ value ∧ value ≤ 16 then
      1
    else
      Instruction.canonicalSize (ScriptNumber.encode value.toInt)
  | drain => 0
  | restart => 0

def ElementFits : Step → Prop
  | addData data => data.length ≤ Limits.maxElementSize
  | _ => True

def clears : Step → Bool
  | drain => true
  | restart => true
  | _ => false

theorem size_addInt (value : Int64)
    : (addInt value).size = Instruction.canonicalSize (ScriptNumber.encode value.toInt) := by
  rw [size]
  split
  . next hvalue =>
    rw [Int64.le_iff_toInt_le, Int64.le_iff_toInt_le] at hvalue
    rw [← Instruction.size_canonicalPush]
    exact (Instruction.size_ofInt_of_le hvalue.left hvalue.right).symm
  . rfl

theorem length_added (step : Step) : step.added.length = step.size := by
  cases step with
  | addOp opcode => rfl
  | addOps opcodes => simp [added, size]
  | addData data => rw [added, Instruction.length_bytes, Instruction.size_canonicalPush, size]
  | addInt value =>
    rw [added, Instruction.length_bytes, size_addInt, ← Instruction.size_canonicalPush]
    rfl
  | drain => rfl
  | restart => rfl

end Step

section Accept

variable {builder next : ScriptBuilder}

theorem addOp_eq_ok_iff {opcode : Opcode}
    : builder.addOp opcode = .ok next
        ↔
      builder.HasRoom 1 ∧ next = builder.append [opcode.byte] := by
  unfold addOp
  split <;> simp [*, eq_comm]

theorem addOps_eq_ok_iff {opcodes : List Opcode}
    : builder.addOps opcodes = .ok next
        ↔
      builder.HasRoom opcodes.length ∧ next = builder.append (opcodes.map (·.byte)) := by
  unfold addOps
  split <;> simp [*, eq_comm]

theorem addData_eq_ok_iff {data : List UInt8}
    : builder.addData data = .ok next
        ↔
      builder.HasRoom (Instruction.canonicalSize data) ∧ data.length ≤ Limits.maxElementSize
        ∧ next = builder.append (Instruction.canonicalPush data).bytes := by
  unfold addData
  split
  . next hroom => simp [hroom]
  . next hroom =>
    rw [Decidable.not_not] at hroom
    split
    . next hsize => simp [Nat.not_le.mpr hsize]
    . next hsize => simp [hroom, Nat.not_lt.mp hsize, eq_comm]

theorem addInt_eq_ok_iff {value : Int64}
    : builder.addInt value = .ok next
        ↔
      builder.HasRoom (Step.addInt value).size
        ∧ next = builder.append (Instruction.ofInt value.toInt).bytes := by
  rw [Step.size_addInt]
  by_cases hroom : builder.HasRoom 1
  . have hsize : (ScriptNumber.encode value.toInt).length ≤ Limits.maxElementSize := by
      apply Nat.le_trans (ScriptNumber.length_encode_toInt_le value)
      decide
    rw [addInt_of_hasRoom hroom, addData_eq_ok_iff, and_iff_right hsize]
    rfl
  . have hlarge : ¬ builder.HasRoom
        (Instruction.canonicalSize (ScriptNumber.encode value.toInt)) := by
      rw [← Instruction.size_canonicalPush]
      intro h
      exact hroom (hasRoom_of_le h (Instruction.size_pos _))
    simp [addInt, hroom, hlarge]

def extended (builder : ScriptBuilder) (step : Step) : ScriptBuilder :=
  if step.clears then empty else builder.append step.added

theorem step_eq_ok_iff {step : Step} (h : builder.HasRoom 0)
    : builder.step step = .ok next
        ↔
      (builder.HasRoom step.size ∧ step.ElementFits) ∧ next = builder.extended step := by
  cases step with
  | addOp opcode =>
    rw [ScriptBuilder.step, addOp_eq_ok_iff]
    simp [Step.size, Step.ElementFits, extended, Step.clears, Step.added]
  | addOps opcodes =>
    rw [ScriptBuilder.step, addOps_eq_ok_iff]
    simp [Step.size, Step.ElementFits, extended, Step.clears, Step.added]
  | addData data =>
    rw [ScriptBuilder.step, addData_eq_ok_iff, and_assoc]
    rfl
  | addInt value =>
    rw [ScriptBuilder.step, addInt_eq_ok_iff]
    simp [Step.ElementFits, extended, Step.clears, Step.added]
  | drain =>
    rw [ScriptBuilder.step, ScriptBuilder.drain]
    simp [Step.size, h, Step.ElementFits, extended, Step.clears, eq_comm]
  | restart =>
    rw [ScriptBuilder.step]
    simp [Step.size, h, Step.ElementFits, extended, Step.clears, eq_comm]

end Accept

section Run

variable {builder : ScriptBuilder}

theorem after_of_ok {next : ScriptBuilder} {step : Step} (h : builder.step step = .ok next)
    : builder.after step = next := by
  simp [after, h]

theorem after_of_error {error : BuilderError} {step : Step} (h : builder.step step = .error error)
    : builder.after step = builder := by
  simp [after, h]

theorem run_concat (builder : ScriptBuilder) (steps : List Step) (step : Step)
    : builder.run (steps ++ [step]) = (builder.run steps).after step := by
  simp [run]

theorem hasRoom_empty : empty.HasRoom 0 := by
  decide

theorem hasRoom_extended {step : Step} (h : builder.HasRoom step.size)
    : (builder.extended step).HasRoom 0 := by
  unfold extended
  split
  . exact hasRoom_empty
  . rw [hasRoom_append_iff, Step.length_added]
    exact h

theorem hasRoom_after (h : builder.HasRoom 0) (step : Step) : (builder.after step).HasRoom 0 := by
  cases hstep : builder.step step with
  | error error =>
    rw [after_of_error hstep]
    exact h
  | ok next =>
    obtain ⟨⟨hroom, -⟩, rfl⟩ := (step_eq_ok_iff h).mp hstep
    rw [after_of_ok hstep]
    exact hasRoom_extended hroom

theorem hasRoom_run (h : builder.HasRoom 0) (steps : List Step)
    : (builder.run steps).HasRoom 0 := by
  induction steps generalizing builder with
  | nil => exact h
  | cons step steps ih => exact ih (hasRoom_after h step)

theorem script_extended (builder : ScriptBuilder) (step : Step)
    : (builder.extended step).script
        =
      if step.clears then [] else builder.script ++ step.added := by
  unfold extended
  split <;> rfl

theorem addData_of_too_large {data : List UInt8} (h : Limits.maxElementSize < data.length)
    : builder.addData data
        =
      .error (if builder.HasRoom (Instruction.canonicalSize data) then
        .elementTooLarge data.length
      else
        .dataRejected (Instruction.canonicalSize data)) := by
  unfold addData
  split <;> simp [*]

/--
Whatever steps have been taken, the script is within its limit. The next step is accepted exactly if
what it adds is within the limits too, and then it adds just that; otherwise the script stays as it
is. Data that breaks both limits is refused because of the script, not because of the element.
-/
theorem run_stays_within_limits (steps : List Step)
    : (empty.run steps).script.length ≤ Limits.maxScriptSize
        ∧ (∀ step : Step,
            ((∃ next, (empty.run steps).step step = .ok next)
                ↔ (empty.run steps).HasRoom step.size ∧ step.ElementFits)
              ∧ (∀ error, (empty.run steps).step step = .error error
                  → (empty.run (steps ++ [step])).script = (empty.run steps).script)
              ∧ (∀ next, (empty.run steps).step step = .ok next
                  → (empty.run (steps ++ [step])).script
                      = (if step.clears then [] else (empty.run steps).script ++ step.added)
                    ∧ step.added.length = step.size))
        ∧ (∀ data, Limits.maxElementSize < data.length
            → (empty.run steps).step (.addData data)
                = .error (if (empty.run steps).HasRoom (Instruction.canonicalSize data) then
                    .elementTooLarge data.length
                  else
                    .dataRejected (Instruction.canonicalSize data))) := by
  have hroom := hasRoom_run hasRoom_empty steps
  refine ⟨hroom, ?_, ?_⟩
  . intro step
    refine ⟨?_, ?_, ?_⟩
    . simp [step_eq_ok_iff hroom]
    . intro error hstep
      rw [run_concat, after_of_error hstep]
    . intro next hstep
      rw [run_concat, after_of_ok hstep, ((step_eq_ok_iff hroom).mp hstep).right]
      exact ⟨script_extended _ _, step.length_added⟩
  . intro data hdata
    apply addData_of_too_large hdata

end Run

end ScriptBuilder

end ScriptAnalysis
