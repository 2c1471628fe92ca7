import ScriptAnalysis.Proofs.Malformed
import ScriptAnalysis.Proofs.Words

namespace ScriptAnalysis

theorem Instruction.length_flatMap_bytes_eq_zero_iff {instructions : List Instruction}
    : (instructions.flatMap bytes).length = 0 ↔ instructions = [] := by
  cases instructions with
  | nil => simp
  | cons ins instructions =>
    have := ins.size_pos
    simp only [List.flatMap_cons, List.length_append, length_bytes, reduceCtorEq, iff_false]
    omega

theorem Cursor.Reached.offset_eq_zero_iff {version : UInt16} {script : List UInt8}
    {items : List Item} {cursor : Cursor} (h : Reached version script items cursor)
    : cursor.offset = 0 ↔ instructionsOf items = [] := by
  cases h with
  | reading =>
    rw [instructionsOf_map_ok]
    apply Instruction.length_flatMap_bytes_eq_zero_iff
  | failed =>
    rw [instructionsOf_append_error, instructionsOf_map_ok]
    apply Instruction.length_flatMap_bytes_eq_zero_iff
  | refused => simp [instructionsOf]
  | unsupported => simp [instructionsOf, Except.toOption]

namespace Disassembly

/--
The byte of an opcode tells what stands for the instruction. That is the payload in lower-case
hexadecimal digits wherever the opcode carries one, even if it is empty, a number if the opcode
pushes one without a payload, and else the name of the opcode.
-/
def token : Instruction → String
  | ⟨⟨byte⟩, payload⟩ =>
    if 0x01 ≤ byte ∧ byte ≤ 0x4e then
      String.ofList (payload.flatMap fun byte =>
        [Nat.digitChar (byte.toNat / 16), Nat.digitChar (byte.toNat % 16)])
    else if byte = 0x00 then
      "0"
    else if byte = 0x4f then
      "-1"
    else if 0x51 ≤ byte ∧ byte ≤ 0x60 then
      toString (byte.toNat - 0x50)
    else
      Opcode.mnemonics.get ⟨byte.toNat, byte.toNat_lt⟩

def tokens (decoded : Decoded) : List String :=
  decoded.instructions.map token ++ decoded.error.toList.map fun _ => "[error]"

theorem shortText_eq_token (ins : Instruction) : ins.shortText = token ins := by
  rcases ins with ⟨⟨byte⟩, payload⟩
  rw [Instruction.shortText, token]
  by_cases hdata : 0x01 ≤ byte ∧ byte ≤ 0x4e
  . rw [if_pos (Opcode.carriesData_iff.mpr hdata), if_pos hdata]
    rfl
  . rw [if_neg (mt Opcode.carriesData_iff.mp hdata), if_neg hdata]
    unfold Opcode.shortName Opcode.smallInt? Opcode.isPositiveSmallInt Opcode.mnemonic
    by_cases hzero : byte = 0x00
    . subst hzero
      rfl
    . by_cases hint : 0x51 ≤ byte ∧ byte ≤ 0x60
      . simp [Opcode.negate1, Opcode.op0, Opcode.op1, Opcode.op16, hzero, hint]
      . simp [Opcode.negate1, Opcode.op0, Opcode.op1, Opcode.op16, hzero, hint]

theorem bracket_notMem_shortName (op : Opcode) : ']' ∉ op.shortName.toList := by
  unfold Opcode.shortName
  split
  . decide
  . split
    . next n _ =>
      intro hmem
      rw [Nat.toString_eq_repr, Nat.toList_repr] at hmem
      have := isDigit_of_mem_toDigits hmem
      contradiction
    . apply op.notMem_mnemonic
      rfl

theorem bracket_notMem_token (ins : Instruction) : ']' ∉ (token ins).toList := by
  rw [← shortText_eq_token]
  unfold Instruction.shortText
  split
  . rw [Hex.toList_ofBytes]
    apply Hex.notMem_digits
    decide
  . apply bracket_notMem_shortName

theorem not_marker_suffix_intercalate (instructions : List Instruction)
    : ¬ "[error]".toList <:+ (" ".intercalate (instructions.map token)).toList := by
  intro hsuffix
  have hmarker : ']' ∈ "[error]".toList := by decide
  apply notMem_intercalate _ _ (hsuffix.subset hmarker)
  . decide
  . rw [List.forall_mem_map]
    intro ins _
    apply bracket_notMem_token

theorem write_eq_intercalate (written rest : List Instruction)
    : write written.length (" ".intercalate (written.map token)) rest
        =
      " ".intercalate ((written ++ rest).map token) := by
  induction rest generalizing written with
  | nil => rw [write, List.append_nil]
  | cons ins rest ih =>
    have hnext := ih (written ++ [ins])
    rw [List.length_append, List.length_singleton, List.append_assoc, List.singleton_append]
      at hnext
    rw [write, ← hnext, List.map_append, List.map_singleton, intercalate_concat,
      shortText_eq_token]
    -- The index counts what `text` joins, so it is zero exactly where nothing stands in front.
    cases written with
    | nil => simp
    | cons first written => simp [String.push_eq_append]

end Disassembly

open Disassembly

theorem text_disassemble (script : List UInt8)
    : (disassemble script).text = " ".intercalate (tokens (decode script)) := by
  have hreached := (Cursor.reached_start 0 script).drain
  obtain ⟨hitems, herror⟩ := Cursor.drain_start script
  have hinstructions : (Cursor.start 0 script).drain.1.filterMap Except.toOption
      = (decode script).instructions := by
    rw [hitems]
    cases (decode script).error <;> simp [List.filterMap_map, Function.comp_def, Except.toOption]
  -- The marker is set apart where bytes have been decoded, the join where instructions have been.
  have hoffset := hreached.offset_eq_zero_iff
  rw [List.nil_append, Cursor.instructionsOf, hinstructions] at hoffset
  have hwrite : write 0 "" (decode script).instructions
      = " ".intercalate ((decode script).instructions.map token) := by
    exact write_eq_intercalate [] _
  have hversion : Cursor.start Limits.supportedVersion script = Cursor.start 0 script := rfl
  unfold disassemble tokens errorMarker
  simp only [hversion, hinstructions, herror, hwrite]
  cases (decode script).error with
  | none => simp
  | some error =>
    simp only [Option.toList_some, List.map_cons, List.map_nil, intercalate_concat, hoffset,
      List.map_eq_nil_iff]
    split
    . rw [String.append_empty]
    . rw [String.push_eq_append]
      rfl

/--
One-line disassembly is the join of its tokens with single spaces. It tells the error of decoding
the script, and its text ends with the marker exactly if there is one.
-/
theorem disassemble_joins_tokens (script : List UInt8)
    : (disassemble script).text = " ".intercalate (tokens (decode script))
        ∧ (disassemble script).error = (decode script).error
        ∧ ("[error]".toList <:+ (disassemble script).text.toList
            ↔ (decode script).error.isSome = true) := by
  refine ⟨text_disassemble script, error_disassemble script, ?_⟩
  rw [text_disassemble, tokens]
  cases (decode script).error with
  | none => simpa using not_marker_suffix_intercalate (decode script).instructions
  | some error =>
    simp only [Option.toList_some, List.map_cons, List.map_nil, intercalate_concat,
      String.toList_append, Option.isSome_some, iff_true]
    apply List.suffix_append

example : (disassemble [0x4c, 0x00, 0x02, 0xaa]).text = " [error]" := by
  decide +kernel

end ScriptAnalysis
