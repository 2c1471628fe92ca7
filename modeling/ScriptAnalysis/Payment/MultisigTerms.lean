import ScriptAnalysis.Instruction.Basic
import ScriptAnalysis.Limits

/-!
This module contains the terms of a multisig check: how many signatures it requires, and of which
keys. They stand in the instructions in front of the check, the number of keys last.
-/

namespace ScriptAnalysis

structure MultisigTerms where
  required : Nat
  keys : List (List UInt8)
deriving DecidableEq

namespace MultisigTerms

def signers (terms : MultisigTerms) : Nat :=
  terms.keys.length

def pushesKey (ins : Instruction) : Bool :=
  ins.opcode.carriesData && Limits.isKeySize ins.payload.length

def ofPreceding? (preceding : List Instruction) : Option MultisigTerms :=
  match preceding with
  | [] => none
  | last :: before =>
    match last.opcode.smallInt? with
    | none => none
    | some signers =>
      let keys := before.take signers
      if signers = 0 ∨ keys.length ≠ signers ∨ ¬ keys.all pushesKey then
        none
      else
        match before.drop signers with
        | [] => none
        | first :: _ =>
          match first.opcode.smallInt? with
          | none => none
          | some required =>
            if required ≤ signers then
              some ⟨required, (keys.map (·.payload)).reverse⟩
            else
              none

def atIndex? (instructions : List Instruction) (index : Nat) : Option MultisigTerms :=
  if index ≤ instructions.length then
    ofPreceding? (instructions.take index).reverse
  else
    none

end MultisigTerms

end ScriptAnalysis
