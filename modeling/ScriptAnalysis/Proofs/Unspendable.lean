import ScriptAnalysis.Payment.Unspendable
import ScriptAnalysis.Proofs.Cursor.Drain

namespace ScriptAnalysis

namespace isUnspendable

section Equations

variable {first : Bool} {cursor cursor' : Cursor}

theorem go_of_spent (h : cursor.Spent) : go first cursor = false := by
  rw [go]
  split <;> simp_all [Cursor.Spent]

theorem go_of_error {error : ScriptError} (h : cursor.next = (some (.error error), cursor'))
    : go first cursor = true := by
  rw [go]
  split <;> simp_all

theorem go_of_ok {ins : Instruction} (h : cursor.next = (some (.ok ins), cursor'))
    : go first cursor = ((first && ins.opcode = .opReturn) || go false cursor') := by
  rw [go]
  split <;> simp_all

end Equations

theorem go_eq_true_iff {first : Bool} {cursor : Cursor}
    : go first cursor = true
        ↔
      (∃ error, .error error ∈ cursor.drain.1)
        ∨ (first = true
            ∧ ∃ ins, cursor.drain.1.head? = some (.ok ins) ∧ ins.opcode = .opReturn) := by
  induction cursor using Cursor.next_induction generalizing first with
  | spent cursor hspent => simp [go_of_spent hspent, Cursor.drain_of_spent hspent]
  | step cursor item cursor' hnext ih =>
    rw [Cursor.drain_of_some hnext]
    cases item with
    | error error => simp [go_of_error hnext]
    | ok ins =>
      -- Behind the first instruction the loop looks for nothing but the error.
      simp [go_of_ok hnext, ih, or_comm]

end isUnspendable

theorem isUnspendable_iff {amount : Int64} {script : List UInt8}
    : isUnspendable amount script = true
        ↔
      amount = 0 ∨ (decode script).error ≠ none
        ∨ ∃ ins, (decode script).instructions.head? = some ins ∧ ins.opcode = .opReturn := by
  have hstart : Cursor.start Limits.supportedVersion script = Cursor.start 0 script := by rfl
  rw [isUnspendable, Bool.or_eq_true, decide_eq_true_iff, hstart, isUnspendable.go_eq_true_iff]
  rw [(Cursor.drain_start script).left]
  rcases decode script with ⟨_ | ⟨ins, instructions⟩, _ | error⟩ <;> simp

theorem head_decode_iff {script : List UInt8} {op : Opcode} (h : (decode script).error = none)
    : (∃ ins, (decode script).instructions.head? = some ins ∧ ins.opcode = op)
        ↔
      script.head? = some op.byte := by
  have hdecode : decode script = ⟨(decode script).instructions, none⟩ := by rw [← h]
  generalize (decode script).instructions = instructions at *
  obtain ⟨-, rfl⟩ := decode_eq_complete_iff.mp hdecode
  cases instructions with
  | nil => simp
  | cons ins instructions =>
    rcases ins with ⟨⟨byte⟩, payload⟩
    rcases op with ⟨byte'⟩
    simp [Instruction.bytes]

theorem isUnspendable_iff_head {amount : Int64} {script : List UInt8}
    : isUnspendable amount script = true
        ↔
      amount = 0 ∨ (decode script).error ≠ none
        ∨ script.head? = some Opcode.opReturn.byte := by
  rw [isUnspendable_iff]
  by_cases herror : (decode script).error = none
  . rw [head_decode_iff herror]
  . simp [herror]

theorem isUnspendable_bytes_append_iff {ins : Instruction} (h : ins.Fits) (amount : Int64)
    (tail : List UInt8)
    : isUnspendable amount (ins.bytes ++ tail) = true
        ↔
      amount = 0 ∨ (decode tail).error ≠ none ∨ ins.opcode = .opReturn := by
  rw [isUnspendable_iff, decode_bytes_append h]
  simp [Decoded.behind]

/--
The loop finds what the whole script says: an output is unspendable if it has no value, if its
script is malformed anywhere, or if the first byte of its script returns. A script that returns
later or has the byte in a payload, such as one that is empty, is no worse for it.
-/
theorem isUnspendable_iff_whole_script (amount : Int64)
    : (∀ script, isUnspendable amount script = true
          ↔ amount = 0 ∨ (decode script).error ≠ none
            ∨ script.head? = some Opcode.opReturn.byte)
      ∧ (isUnspendable amount [] = true ↔ amount = 0)
      ∧ (∀ (ins : Instruction) (tail : List UInt8), ins.Fits → ins.opcode ≠ .opReturn
          → (isUnspendable amount (ins.bytes ++ tail) = true
              ↔ amount = 0 ∨ (decode tail).error ≠ none)) := by
  refine ⟨?_, ?_, ?_⟩
  . intro script
    apply isUnspendable_iff_head
  . rw [isUnspendable_iff_head]
    simp
  . intro ins tail hfits hreturn
    rw [isUnspendable_bytes_append_iff hfits]
    simp [hreturn]

theorem isUnspendable_return_behind_push
    : isUnspendable (-1) [0x02, 0x6a, 0x6a, 0x6a] = false ∧ isUnspendable (-1) [0x6a] = true := by
  obtain ⟨hscript, -, hbehind⟩ := isUnspendable_iff_whole_script (-1)
  have hbytes : [0x02, 0x6a, 0x6a, 0x6a] = Instruction.bytes ⟨.data 2, [0x6a, 0x6a]⟩ ++ [0x6a] := by
    decide
  constructor
  . rw [Bool.eq_false_iff, Ne, hbytes, hbehind _ _ (by decide) (by decide)]
    decide +kernel
  . rw [hscript]
    exact .inr (.inr rfl)

end ScriptAnalysis
