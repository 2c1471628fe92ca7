import ScriptAnalysis.Instruction.Basic

/-!
This module contains the smallest push for given data. Some values have an opcode of their own and
need no payload at all; all other data is pushed by the opcode with the shortest length that can
carry it.
-/

namespace ScriptAnalysis

def Opcode.standingFor? (data : List UInt8) : Option Opcode :=
  match data with
  | [] => some op0
  | [byte] =>
    if byte ≤ 16 then
      some (smallInt byte.toNat)
    else if byte = 0x81 then
      some negate1
    else
      none
  | _ => none

def LengthWidth.shortest? (length : Nat) : Option LengthWidth :=
  if length ≤ 75 then
    none
  else if length ≤ one.maxLength then
    some one
  else if length ≤ two.maxLength then
    some two
  else
    some four

namespace Instruction

def canonicalPush (data : List UInt8) : Instruction :=
  match Opcode.standingFor? data with
  | some op => ⟨op, []⟩
  | none =>
    match LengthWidth.shortest? data.length with
    | none => ⟨.data data.length, data⟩
    | some width => ⟨.pushData width, data⟩

def canonicalSize (data : List UInt8) : Nat :=
  if (Opcode.standingFor? data).isSome then
    1
  else
    match LengthWidth.shortest? data.length with
    | none => 1 + data.length
    | some width => 1 + width.bytes + data.length

end Instruction

end ScriptAnalysis
