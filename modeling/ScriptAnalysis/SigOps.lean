import ScriptAnalysis.Payment.ScriptClass
import ScriptAnalysis.Script.Pushes

/-!
This module contains the count of signature operations. A multisig check costs as many as it may
check keys, which the precise count reads from the instruction in front of it. Outputs that pay to
a script hash are charged for their redeem script.
-/

namespace ScriptAnalysis

namespace SigOps

inductive Counting where
  | worstCase
  | precise
deriving DecidableEq

def cost (counting : Counting) (previous : Option Opcode) (op : Opcode) : Nat :=
  if op = .checkSig ∨ op = .checkSigVerify ∨ op = .checkSigAlt ∨ op = .checkSigAltVerify then
    1
  else if op.isMultisigCheck then
    match counting, previous with
    | .precise, some previous =>
      if previous.isPositiveSmallInt then
        previous.byte.toNat - 0x50
      else
        Limits.maxMultisigKeys
    | _, _ => Limits.maxMultisigKeys
  else
    0

def count (counting : Counting) (instructions : List Instruction) : Nat :=
  go none 0 instructions
where
  go (previous : Option Opcode) (acc : Nat) : List Instruction → Nat
    | [] => acc
    | ins :: instructions =>
      go (some ins.opcode) (acc + cost counting previous ins.opcode) instructions

def ofScript (script : List UInt8) : Nat :=
  count .worstCase (decode script).instructions

def ofRedeemScript (signatureScript : List UInt8) : Nat :=
  match (decode signatureScript).toExcept with
  | .error _ => 0
  | .ok instructions =>
    if isPushOnly instructions then
      match instructions.getLast? with
      | none => 0
      | some last => count .precise (decode last.payload).instructions
    else
      0

/--
The precise number of signature operations of spending an output. From the time that script hashes
are known, an output that pays to one costs what its redeem script does; whether it pays to one is
told from the instructions in front of its error.
-/
def ofSpending (signatureScript outputScript : List UInt8) (scriptHashes : Bool) : Nat :=
  let output := (decode outputScript).instructions
  if scriptHashes && isScriptHash output then
    ofRedeemScript signatureScript
  else
    count .precise output

end SigOps

end ScriptAnalysis
