import ScriptAnalysis.Proofs.ScriptHash
import ScriptAnalysis.SigOps

namespace ScriptAnalysis

namespace SigOps

@[simp]
theorem count_nil (counting : Counting) : count counting [] = 0 := by
  rfl

theorem cost_of_isPush {op : Opcode} (h : op.isPush = true) (counting : Counting)
    (previous : Option Opcode)
    : cost counting previous op = 0 := by
  have hne : ∀ other : Opcode, other.isPush = false → op ≠ other := by
    rintro other hother rfl
    rw [h] at hother
    contradiction
  have hsig := hne .checkSig (by decide)
  have hsigVerify := hne .checkSigVerify (by decide)
  have hsigAlt := hne .checkSigAlt (by decide)
  have hsigAltVerify := hne .checkSigAltVerify (by decide)
  have hmultisig := hne .checkMultisig (by decide)
  have hmultisigVerify := hne .checkMultisigVerify (by decide)
  simp [cost, Opcode.isMultisigCheck, *]

theorem cost_of_not_isMultisigCheck {op : Opcode} (h : op.isMultisigCheck = false)
    (counting : Counting) (previous : Option Opcode)
    : cost counting previous op = cost .worstCase none op := by
  simp [cost, h]

theorem cost_precise_smallInt {n : Nat} (hpos : 0 < n) (hle : n ≤ 16)
    : cost .precise (some (.smallInt n)) .checkMultisig = n := by
  interval_cases n <;> decide

theorem count.go_eq_add (counting : Counting) (previous : Option Opcode) (acc : Nat)
    (instructions : List Instruction)
    : count.go counting previous acc instructions
        =
      acc + count.go counting previous 0 instructions := by
  induction instructions generalizing previous acc with
  | nil => rfl
  | cons ins instructions ih =>
    rw [count.go, count.go, ih, ih _ (0 + _), Nat.zero_add, Nat.add_assoc]

theorem count.go_append (counting : Counting) (previous : Option Opcode) (acc : Nat)
    (front back : List Instruction)
    : count.go counting previous acc (front ++ back)
        =
      count.go counting ((front.getLast?.map (·.opcode)).or previous)
        (count.go counting previous acc front) back := by
  induction front generalizing previous acc with
  | nil => simp [count.go]
  | cons ins front ih =>
    rw [List.cons_append, count.go, count.go, ih]
    cases front with
    | nil => simp
    | cons => simp [List.getLast?_cons]

theorem count.go_of_isPushOnly {instructions : List Instruction}
    (h : isPushOnly instructions = true) (counting : Counting) (previous : Option Opcode)
    (acc : Nat)
    : count.go counting previous acc instructions = acc := by
  induction instructions generalizing previous with
  | nil => rfl
  | cons ins instructions ih =>
    simp only [isPushOnly, List.all_cons, Bool.and_eq_true] at h
    rw [count.go, cost_of_isPush h.left, Nat.add_zero]
    apply ih h.right

-- Pushes cost nothing, so only the instruction behind them counts.
theorem count_of_isPushOnly {front : List Instruction} {previous last : Instruction}
    (h : isPushOnly (front ++ [previous]) = true) (counting : Counting)
    : count counting (front ++ [previous] ++ [last])
        =
      cost counting (some previous.opcode) last.opcode := by
  unfold count
  rw [count.go_append, count.go_of_isPushOnly h]
  simp [count.go]

def RevealsNothing (signatureScript : List UInt8) : Prop :=
  (decode signatureScript).error ≠ none
    ∨ (∃ ins ∈ (decode signatureScript).instructions, Opcode.op16.byte < ins.opcode.byte)
    ∨ signatureScript = []

theorem not_isPushOnly_iff {instructions : List Instruction}
    : isPushOnly instructions = false
        ↔
      ∃ ins ∈ instructions, Opcode.op16.byte < ins.opcode.byte := by
  simp [isPushOnly, Opcode.isPush]

theorem ofRedeemScript_eq_zero {signatureScript : List UInt8} (h : RevealsNothing signatureScript)
    : ofRedeemScript signatureScript = 0 := by
  unfold ofRedeemScript
  split
  . rfl
  . next instructions hdecode =>
    rw [Decoded.toExcept_eq_ok_iff] at hdecode
    rcases h with h | h | h
    . simp [hdecode] at h
    . rw [hdecode, ← not_isPushOnly_iff] at h
      simp [h]
    . rw [h, decode_nil] at hdecode
      cases hdecode
      rfl

theorem ofRedeemScript_of_last {signatureScript : List UInt8} {front : List Instruction}
    {last : Instruction} (hdecode : decode signatureScript = ⟨front ++ [last], none⟩)
    (hpush : isPushOnly (front ++ [last]) = true)
    : ofRedeemScript signatureScript = count .precise (decode last.payload).instructions := by
  unfold ofRedeemScript
  rw [Decoded.toExcept_eq_ok_iff.mpr hdecode]
  simp [hpush]

theorem exists_last_of_not_revealsNothing {signatureScript : List UInt8}
    (h : ¬ RevealsNothing signatureScript)
    : ∃ front last, decode signatureScript = ⟨front ++ [last], none⟩
        ∧ isPushOnly (front ++ [last]) = true := by
  unfold RevealsNothing at h
  rw [← not_isPushOnly_iff, not_or, not_or, not_not, Bool.not_eq_false] at h
  obtain ⟨herror, hpush, hscript⟩ := h
  have hnil : (decode signatureScript).instructions ≠ [] := by
    rw [Ne, decode_instructions_eq_nil_iff]
    rintro (h | h)
    . exact hscript h
    . exact h.error_decode_ne_none herror
  have hlast := List.dropLast_concat_getLast hnil
  refine ⟨(decode signatureScript).instructions.dropLast,
    (decode signatureScript).instructions.getLast hnil, ?_, ?_⟩
  . rw [hlast, ← herror]
  . rwa [hlast]

theorem ofSpending_of_paysToScriptHash {outputScript : List UInt8}
    (h : PaysToScriptHash outputScript) (signatureScript : List UInt8)
    : ofSpending signatureScript outputScript true = ofRedeemScript signatureScript := by
  rw [← isScriptHash_decode_iff] at h
  simp [ofSpending, h]

theorem ofSpending_of_not_paysToScriptHash {outputScript : List UInt8} {scriptHashes : Bool}
    (h : ¬ (scriptHashes = true ∧ PaysToScriptHash outputScript)) (signatureScript : List UInt8)
    : ofSpending signatureScript outputScript scriptHashes
        =
      count .precise (decode outputScript).instructions := by
  rw [← isScriptHash_decode_iff] at h
  simp [ofSpending, h]

/--
An output is charged for the redeem script exactly if it pays to a script hash as far as it can be
decoded. Of the signature script only the last payload counts then, and of the output nothing.
-/
theorem ofSpending_redeemScript (signatureScript outputScript : List UInt8) (scriptHashes : Bool)
    : ((scriptHashes && isScriptHash (decode outputScript).instructions) = true
          ↔ scriptHashes = true ∧ PaysToScriptHash outputScript)
      ∧ (¬ (scriptHashes = true ∧ PaysToScriptHash outputScript)
          → ofSpending signatureScript outputScript scriptHashes
              = count .precise (decode outputScript).instructions)
      ∧ (scriptHashes = true ∧ PaysToScriptHash outputScript → RevealsNothing signatureScript
          → ofSpending signatureScript outputScript scriptHashes = 0)
      ∧ (scriptHashes = true ∧ PaysToScriptHash outputScript → ¬ RevealsNothing signatureScript
          → ∃ front last, decode signatureScript = ⟨front ++ [last], none⟩
            ∧ ofSpending signatureScript outputScript scriptHashes
                = count .precise (decode last.payload).instructions
            ∧ (last.payload = []
                → ofSpending signatureScript outputScript scriptHashes = 0))
      ∧ (∀ otherOutput, PaysToScriptHash outputScript → PaysToScriptHash otherOutput
          → ofSpending signatureScript outputScript true
              = ofSpending signatureScript otherOutput true)
      ∧ (∀ otherScript front otherFront last, PaysToScriptHash outputScript
          → decode signatureScript = ⟨front ++ [last], none⟩
          → decode otherScript = ⟨otherFront ++ [last], none⟩
          → isPushOnly (front ++ [last]) = true → isPushOnly (otherFront ++ [last]) = true
          → ofSpending signatureScript outputScript true
              = ofSpending otherScript outputScript true) := by
  refine ⟨?_, ?_, ?_, ?_, ?_, ?_⟩
  . rw [Bool.and_eq_true, isScriptHash_decode_iff]
  . intro h
    apply ofSpending_of_not_paysToScriptHash h
  . rintro ⟨rfl, hpays⟩ hnothing
    rw [ofSpending_of_paysToScriptHash hpays, ofRedeemScript_eq_zero hnothing]
  . rintro ⟨rfl, hpays⟩ hsomething
    obtain ⟨front, last, hdecode, hpush⟩ := exists_last_of_not_revealsNothing hsomething
    rw [ofSpending_of_paysToScriptHash hpays, ofRedeemScript_of_last hdecode hpush]
    refine ⟨front, last, hdecode, rfl, ?_⟩
    intro hpayload
    rw [hpayload, decode_nil, count_nil]
  . intro otherOutput hpays hother
    rw [ofSpending_of_paysToScriptHash hpays, ofSpending_of_paysToScriptHash hother]
  . intro otherScript front otherFront last hpays hdecode hother hpush hotherPush
    rw [ofSpending_of_paysToScriptHash hpays, ofSpending_of_paysToScriptHash hpays]
    rw [ofRedeemScript_of_last hdecode hpush, ofRedeemScript_of_last hother hotherPush]

example
    : ofSpending [0x01, 0xac] (payToScriptHash ⟨List.replicate 20 0, rfl⟩ ++ [0x4c]) true = 1 := by
  decide +kernel

end SigOps

end ScriptAnalysis
