import ScriptAnalysis.Payment.ScriptClass
import ScriptAnalysis.Script.Pushes

namespace ScriptAnalysis

def isStakeOutput (script : List UInt8) : Bool :=
  (ScriptClass.ofScript Limits.supportedVersion script).isStake

def stakeSubclass? (script : List UInt8) : Option ScriptClass :=
  match (decode script).toExcept with
  | .ok instructions =>
    if (ScriptClass.ofInstructions instructions).isStake then
      some (.ofInstructions (instructions.filter fun ins => !ins.opcode.isStakeTag))
    else
      none
  | .error _ => none

def containsStakeTags (script : List UInt8) : Except ScriptError Bool := do
  let instructions ← (decode script).toExcept
  return instructions.any (·.opcode.isStakeTag)

/--
Fails if the output pays to a script hash, with or without a stake tag, and the redeem script in
the signature script contains stake tags. The redeem script is the last payload that the signature
script pushes.
-/
def checkRedeemScript (version : UInt16) (signatureScript outputScript : List UInt8)
    : Except ScriptError Unit := do
  let cls := (stakeSubclass? outputScript).getD (.ofScript version outputScript)
  if cls = .scriptHash then
    let payloads ← pushedPayloads signatureScript
    match payloads.getLast? with
    | none => throw (.notPushOnly "script has no pushed data")
    | some redeemScript =>
      if (← containsStakeTags redeemScript) then
        throw (.stakeOpcodes "stake opcodes were found in a p2sh script")

end ScriptAnalysis
