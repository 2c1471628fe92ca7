import ScriptAnalysis.Bytes.LittleEndian
import ScriptAnalysis.ScriptError

/-!
This module contains instructions, which are opcodes with their payloads, and their byte encoding.
An instruction may be made by hand with any payload; it can be encoded exactly when the payload
fits the operand of its opcode.
-/

namespace ScriptAnalysis

structure Instruction where
  opcode : Opcode
  payload : List UInt8
deriving DecidableEq

namespace Instruction

def Fits (ins : Instruction) : Prop :=
  match ins.opcode.operand with
  | .none => ins.payload = []
  | .fixed length => ins.payload.length = length
  | .prefixed width => ins.payload.length ≤ width.maxLength

instance (ins : Instruction) : Decidable ins.Fits := by
  unfold Fits
  split <;> infer_instance

def lengthField (ins : Instruction) : List UInt8 :=
  match ins.opcode.operand with
  | .prefixed width => LittleEndian.ofNat width.bytes ins.payload.length
  | _ => []

def bytes (ins : Instruction) : List UInt8 :=
  ins.opcode.byte :: (ins.lengthField ++ ins.payload)

def size (ins : Instruction) : Nat :=
  1 + ins.lengthField.length + ins.payload.length

def misfit (ins : Instruction) : String :=
  "parsed opcode " ++ ins.opcode.mnemonic ++ " has data length " ++ toString ins.payload.length
    ++ " when " ++ toString ins.opcode.operand.maxLength ++ " was expected"

def encode (ins : Instruction) : Except ScriptError (List UInt8) :=
  if ins.Fits then
    .ok ins.bytes
  else
    .error (.inconsistent ins.misfit)

/--
Whether the instruction is no push at all, or pushes its payload in the smallest way that it could
be pushed. A payload that a shorter push could carry makes the instruction non-canonical; a single
byte up to 16 has an opcode of its own.
-/
def isCanonicalPush (ins : Instruction) : Bool :=
  match ins.opcode.operand, ins.payload with
  | .fixed _, [byte] => 16 < byte
  | .prefixed .one, payload => 75 < payload.length
  | .prefixed .two, payload => LengthWidth.one.maxLength < payload.length
  | .prefixed .four, payload => LengthWidth.two.maxLength < payload.length
  | _, _ => true

@[simp]
theorem length_bytes (ins : Instruction) : ins.bytes.length = ins.size := by
  simp [bytes, size]
  omega

theorem size_pos (ins : Instruction) : 0 < ins.size := by
  unfold size
  omega

theorem encode_eq_ok_iff {ins : Instruction} {bytes : List UInt8}
    : ins.encode = .ok bytes ↔ ins.Fits ∧ ins.bytes = bytes := by
  unfold encode
  split <;> simp [*]

end Instruction

end ScriptAnalysis
