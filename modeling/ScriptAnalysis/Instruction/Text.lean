import ScriptAnalysis.Instruction.Basic

namespace ScriptAnalysis

namespace Instruction

def fullText (ins : Instruction) : String :=
  match ins.opcode.operand with
  | .none => ins.opcode.mnemonic
  | .fixed _ => ins.opcode.mnemonic ++ " 0x" ++ Hex.ofBytes ins.payload
  | .prefixed width =>
    ins.opcode.mnemonic ++ " 0x" ++ Hex.ofNat (2 * width.bytes) ins.payload.length ++ " 0x"
      ++ Hex.ofBytes ins.payload

def shortText (ins : Instruction) : String :=
  if ins.opcode.carriesData then
    Hex.ofBytes ins.payload
  else
    ins.opcode.shortName

def rawText (ins : Instruction) : String :=
  ins.opcode.labelled ++ "\x7b data:[" ++ ", ".intercalate (ins.payload.map Hex.ofByte) ++ "] \x7d"

end Instruction

end ScriptAnalysis
