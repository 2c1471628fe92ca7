import ScriptAnalysis.Bytes.Block
import ScriptAnalysis.Instruction.Basic

namespace ScriptAnalysis

namespace Instruction

def decode (opcode : Opcode) (rest : List UInt8)
    : Except PushFault (Instruction × List UInt8) :=
  match opcode.operand with
  | .none => .ok (⟨opcode, []⟩, rest)
  | .fixed length =>
    match Block.cut? length rest with
    | some (payload, tail) => .ok (⟨opcode, payload⟩, tail)
    -- Here the opcode itself counts both as required and as remaining.
    | none => .error (.truncated (1 + length) (1 + rest.length))
  | .prefixed width =>
    match Block.cut? width.bytes rest with
    | none => .error (.truncated width.bytes rest.length)
    | some (field, body) =>
      let declared := LittleEndian.toNat field
      match Block.cut? declared body with
      | some (payload, tail) => .ok (⟨opcode, payload⟩, tail)
      | none => .error (.overlong declared body.length)

theorem bytes_append_of_decode {opcode : Opcode} {rest tail : List UInt8} {ins : Instruction}
    (h : decode opcode rest = .ok (ins, tail))
    : ins.bytes ++ tail = opcode.byte :: rest := by
  unfold decode at h
  split at h
  . next hop =>
    cases h
    simp [bytes, lengthField, hop]
  . next hop =>
    split at h
    . next hcut =>
      cases h
      obtain ⟨rfl, -⟩ := Block.cut?_eq_some_iff.mp hcut
      simp [bytes, lengthField, hop]
    . contradiction
  . next hop =>
    split at h
    . contradiction
    . next field body hfield =>
      dsimp at h
      split at h
      . next hcut =>
        cases h
        obtain ⟨rfl, hwidth⟩ := Block.cut?_eq_some_iff.mp hfield
        obtain ⟨rfl, hlen⟩ := Block.cut?_eq_some_iff.mp hcut
        simp [bytes, lengthField, hop, hlen, ← hwidth, LittleEndian.ofNat_toNat]
      . contradiction

theorem length_rest_of_decode {opcode : Opcode} {rest tail : List UInt8} {ins : Instruction}
    (h : decode opcode rest = .ok (ins, tail))
    : rest.length + 1 = ins.size + tail.length := by
  have := congrArg List.length (bytes_append_of_decode h)
  simp only [List.length_append, length_bytes, List.length_cons] at this
  omega

theorem length_tail_le_of_decode {opcode : Opcode} {rest tail : List UInt8} {ins : Instruction}
    (h : decode opcode rest = .ok (ins, tail))
    : tail.length ≤ rest.length := by
  have := length_rest_of_decode h
  have := ins.size_pos
  omega

theorem length_payload_le_of_decode {opcode : Opcode} {rest tail : List UInt8} {ins : Instruction}
    (h : decode opcode rest = .ok (ins, tail))
    : ins.payload.length ≤ rest.length := by
  have := length_rest_of_decode h
  unfold size at this
  omega

end Instruction

end ScriptAnalysis
