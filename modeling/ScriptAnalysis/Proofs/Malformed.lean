import ScriptAnalysis.Proofs.StakeTagged
import ScriptAnalysis.Proofs.RedeemGuard
import ScriptAnalysis.Proofs.Unspendable
import ScriptAnalysis.Script.Disassembly
import ScriptAnalysis.Script.Listing

namespace ScriptAnalysis

section Fail

variable {script : List UInt8} {error : ScriptError}

theorem checkDecodes_eq_error_iff
    : checkDecodes 0 script = .error error ↔ (decode script).error = some error := by
  unfold checkDecodes
  rw [(Cursor.drain_start script).right]
  cases (decode script).error <;> simp

theorem listing_eq_error_iff
    : listing script = .error error ↔ (decode script).error = some error := by
  rw [listing]
  dsimp only
  split
  . next h => simp [h]
  . next h => simp [h]

theorem error_disassemble (script : List UInt8)
    : (disassemble script).error = (decode script).error := by
  rw [← (Cursor.drain_start script).right]
  unfold disassemble
  dsimp only
  split
  . next h => exact h.symm
  . next h => exact h.symm

end Fail

section Refuse

variable {script : List UInt8} {error : ScriptError} (h : (decode script).error = some error)

include h

theorem ofScript_of_error (version : UInt16)
    : ScriptClass.ofScript version script = .nonStandard := by
  rw [← Decoded.toExcept_eq_error_iff] at h
  simp [ScriptClass.ofScript, h]

theorem isPayToScriptHash_of_error : isPayToScriptHash script = false := by
  rw [← Decoded.toExcept_eq_error_iff] at h
  simp [isPayToScriptHash, h]

theorem isPushOnlyScript_of_error : isPushOnlyScript script = false := by
  rw [← Decoded.toExcept_eq_error_iff] at h
  simp [isPushOnlyScript, h]

theorem isStakeOutput_of_error : isStakeOutput script = false := by
  unfold isStakeOutput
  rw [ofScript_of_error h]
  rfl

theorem isUnspendable_of_error (amount : Int64) : isUnspendable amount script = true := by
  rw [isUnspendable_iff, h]
  simp

end Refuse

section Version

variable {version : UInt16} (h : version ≠ 0) (script : List UInt8)

include h

theorem checkDecodes_of_ne_zero
    : checkDecodes version script = .error (.unsupportedVersion version) := by
  have herror : (Cursor.start version script).error? = some (.unsupportedVersion version) := by
    rw [Cursor.start_of_ne_zero h]
    rfl
  unfold checkDecodes
  rw [Cursor.error_drain herror]

theorem ofScript_of_ne_zero : ScriptClass.ofScript version script = .nonStandard := by
  have : version ≠ Limits.supportedVersion := h
  simp [ScriptClass.ofScript, this]

end Version

/--
Everything that can fail on a malformed script fails on the malformed scripts only, with the error
of decoding them, and nothing takes a malformed script for a standard one. In other versions no
script is read at all.
-/
theorem malformed_refused_alike
    : (∀ script error,
          (checkDecodes 0 script = .error error ↔ (decode script).error = some error)
            ∧ (listing script = .error error ↔ (decode script).error = some error)
            ∧ (pushedPayloads script = .error error ↔ (decode script).error = some error)
            ∧ (containsStakeTags script = .error error ↔ (decode script).error = some error)
            ∧ ((disassemble script).error = some error ↔ (decode script).error = some error))
      ∧ (∀ script, (decode script).error ≠ none
          → ScriptClass.ofScript 0 script = .nonStandard
            ∧ isPayToScriptHash script = false
            ∧ isPushOnlyScript script = false
            ∧ isStakeOutput script = false
            ∧ stakeSubclass? script = none
            ∧ ∀ amount, isUnspendable amount script = true)
      ∧ (∀ version script, version ≠ 0
          → checkDecodes version script = .error (.unsupportedVersion version)
            ∧ ScriptClass.ofScript version script = .nonStandard) := by
  refine ⟨?_, ?_, ?_⟩
  . intro script error
    refine ⟨checkDecodes_eq_error_iff, listing_eq_error_iff, pushedPayloads_eq_error_iff,
      containsStakeTags_eq_error_iff, ?_⟩
    rw [error_disassemble]
  . intro script h
    obtain ⟨error, h⟩ := Option.ne_none_iff_exists'.mp h
    have hstake := isStakeOutput_of_error h
    exact ⟨ofScript_of_error h 0, isPayToScriptHash_of_error h, isPushOnlyScript_of_error h, hstake,
      stakeSubclass_of_not_isStakeOutput hstake, isUnspendable_of_error h⟩
  . intro version script h
    exact ⟨checkDecodes_of_ne_zero h script, ofScript_of_ne_zero h script⟩

theorem truncatedPush_refused_alike
    : (decode [0x51, 0x02, 0xaa]).error = some (.malformedPush (.data 2) 1 (.truncated 3 2))
        ∧ checkDecodes 0 [0x51, 0x02, 0xaa]
            = .error (.malformedPush (.data 2) 1 (.truncated 3 2))
        ∧ isUnspendable 1 [0x51, 0x02, 0xaa] = true
        ∧ isUnspendable 1 [0x51] = false
        ∧ checkDecodes 1 [0x51] = .error (.unsupportedVersion 1) := by
  have herror : (decode [0x51, 0x02, 0xaa]).error
      = some (.malformedPush (.data 2) 1 (.truncated 3 2)) := by
    decide +kernel
  obtain ⟨hfail, hrefuse, hversion⟩ := malformed_refused_alike
  obtain ⟨-, -, -, -, -, hunspendable⟩ := hrefuse [0x51, 0x02, 0xaa] (by simp [herror])
  refine ⟨herror, ?_, hunspendable 1, by decide +kernel, ?_⟩
  . exact (hfail _ _).left.mpr herror
  . exact (hversion 1 [0x51] (by decide)).left

end ScriptAnalysis
