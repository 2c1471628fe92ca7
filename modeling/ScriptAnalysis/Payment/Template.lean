import ScriptAnalysis.Instruction.Basic
import ScriptAnalysis.Limits

/-!
This module contains templates, which describe payment scripts position by position, and the
templates of the standard forms of payment.
-/

namespace ScriptAnalysis

inductive Slot where
  | op (opcode : Opcode)
  | key
  | altKey
  | suite
  | smallInt
  | carrier
deriving DecidableEq

namespace Slot

def accepts (slot : Slot) (ins : Instruction) : Bool :=
  match slot with
  | op opcode => ins.opcode = opcode
  | key => Limits.isKeySize ins.payload.length
  | altKey => ins.opcode.carriesData ∧ 0 < ins.payload.length ∧ ins.payload.length < 512
  | suite => ins.opcode.isPositiveSmallInt
  | smallInt => ins.opcode.isSmallInt
  | carrier =>
    (ins.opcode.isSmallInt ∨ ins.opcode.byte ≤ Opcode.pushData4.byte)
      ∧ ins.payload.length ≤ Limits.maxCarriedData

end Slot

abbrev Template := List Slot

namespace Template

def accepts : Template → List Instruction → Bool
  | [], [] => true
  | slot :: template, ins :: instructions =>
    slot.accepts ins && accepts template instructions
  | _, _ => false

def pubKey : Template :=
  [.key, .op .checkSig]

def pubKeyAlt : Template :=
  [.altKey, .suite, .op .checkSigAlt]

def hashedKey : Template :=
  [.op .dup, .op .hash160, .op .data20, .op .equalVerify]

def pubKeyHash : Template :=
  hashedKey ++ [.op .checkSig]

def pubKeyHashAlt : Template :=
  hashedKey ++ [.suite, .op .checkSigAlt]

def scriptHash : Template :=
  [.op .hash160, .op .data20, .op .equal]

def multisig (keys : Nat) : Template :=
  [.smallInt] ++ List.replicate keys .key ++ [.op (.smallInt keys), .op .checkMultisig]

def bareReturn : Template :=
  [.op .opReturn]

def dataCarrier : Template :=
  [.op .opReturn, .carrier]

def tagged (tag : Opcode) (template : Template) : Template :=
  .op tag :: template

end Template

end ScriptAnalysis
