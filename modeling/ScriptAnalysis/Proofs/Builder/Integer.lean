import ScriptAnalysis.Proofs.Builder.Run

namespace ScriptAnalysis

namespace ScriptBuilder

section Full

variable {builder : ScriptBuilder}

theorem hasRoom_one_iff (h : builder.HasRoom 0)
    : builder.HasRoom 1 ↔ builder.script.length ≠ Limits.maxScriptSize := by
  unfold HasRoom at *
  omega

theorem addInt_of_full (h : ¬ builder.HasRoom 1) (value : Int64)
    : builder.addInt value = .error (.integerRejected value) := by
  rw [addInt, if_pos h]

theorem addData_eq_error_iff {data : List UInt8} (h : data.length ≤ Limits.maxElementSize)
    {error : BuilderError}
    : builder.addData data = .error error
        ↔
      ¬ builder.HasRoom (Instruction.canonicalSize data)
        ∧ error = .dataRejected (Instruction.canonicalSize data) := by
  unfold addData
  rw [if_neg (Nat.not_lt.mpr h)]
  split <;> simp [*, eq_comm]

end Full

section Integer

variable {builder : ScriptBuilder} {value : Int64}

theorem length_encode_toInt_le_maxElementSize (value : Int64)
    : (ScriptNumber.encode value.toInt).length ≤ Limits.maxElementSize := by
  apply Nat.le_trans (ScriptNumber.length_encode_toInt_le value)
  decide

theorem addInt_eq_ok_iff_addData {next : ScriptBuilder}
    : builder.addInt value = .ok next
        ↔
      builder.addData (ScriptNumber.encode value.toInt) = .ok next := by
  rw [addInt_eq_ok_iff, addData_eq_ok_iff, Step.size_addInt]
  rw [and_iff_right (length_encode_toInt_le_maxElementSize value)]
  rfl

theorem addInt_eq_error (h : builder.HasRoom 0) {error : BuilderError}
    (herror : builder.addInt value = .error error)
    : error
        =
      if builder.script.length = Limits.maxScriptSize then
        .integerRejected value
      else
        .dataRejected (Instruction.canonicalSize (ScriptNumber.encode value.toInt)) := by
  by_cases hroom : builder.HasRoom 1
  . rw [addInt_of_hasRoom hroom, addData_eq_error_iff] at herror
    . rw [if_neg ((hasRoom_one_iff h).mp hroom)]
      exact herror.right
    . apply length_encode_toInt_le_maxElementSize
  . rw [addInt_of_full hroom, Except.error.injEq] at herror
    rw [hasRoom_one_iff h, not_not] at hroom
    rw [if_pos hroom, herror]

/--
Whatever steps have been taken, an integer is accepted exactly if the data of its script number
would be, with the same script as the result. If it is refused the script stays as it is, and the
error is that of the data, unless the script has no byte left at all.
-/
theorem addInt_agrees_with_addData (steps : List Step) (value : Int64)
    : (∀ next, (empty.run steps).addInt value = .ok next
          ↔ (empty.run steps).addData (ScriptNumber.encode value.toInt) = .ok next)
        ∧ (∀ error, (empty.run steps).addInt value = .error error
            → (empty.run (steps ++ [.addInt value])).script = (empty.run steps).script
              ∧ error = if (empty.run steps).script.length = Limits.maxScriptSize then
                  .integerRejected value
                else
                  .dataRejected (Instruction.canonicalSize (ScriptNumber.encode value.toInt))) := by
  constructor
  . intro next
    apply addInt_eq_ok_iff_addData
  . intro error herror
    constructor
    . have hstep : (empty.run steps).step (.addInt value) = .error error := herror
      rw [run_concat, after_of_error hstep]
    . apply addInt_eq_error (hasRoom_run hasRoom_empty steps) herror

end Integer

end ScriptBuilder

end ScriptAnalysis
