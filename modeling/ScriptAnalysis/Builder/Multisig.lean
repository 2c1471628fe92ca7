import ScriptAnalysis.Builder.Basic

namespace ScriptAnalysis

inductive MultisigError where
  | noKeys
  | tooManyKeys (count : Nat)
  | noneRequired
  | tooManyRequired
  | invalidKeySize (size : Nat)
  | builder (error : BuilderError)
deriving DecidableEq

namespace MultisigError

def message : MultisigError → String
  | noKeys => "provided public keys should not be empty"
  | tooManyKeys count =>
    toString count ++ " public keys exceed the maximum of " ++ toString Limits.maxMultisigKeys
  | noneRequired => "at least one signature must be required"
  | tooManyRequired => "too many required signatures"
  | invalidKeySize size =>
    "public key of " ++ toString size ++ " bytes is neither compressed nor uncompressed"
  | builder error => error.message

end MultisigError

namespace ScriptBuilder

def addKeys (builder : ScriptBuilder) (keys : List (List UInt8))
    : Except MultisigError ScriptBuilder :=
  keys.foldlM (fun builder key =>
    if Limits.isKeySize key.length then
      (builder.addData key).mapError .builder
    else
      .error (.invalidKeySize key.length)) builder

end ScriptBuilder

def multisigRedeemScript (keys : List (List UInt8)) (required : Nat)
    : Except MultisigError (List UInt8) := do
  if keys.length = 0 then
    throw .noKeys
  if Limits.maxMultisigKeys < keys.length then
    throw (.tooManyKeys keys.length)
  if required = 0 then
    throw .noneRequired
  if keys.length < required then
    throw .tooManyRequired
  let builder ← (ScriptBuilder.empty.addInt (.ofNat required)).mapError .builder
  let builder ← builder.addKeys keys
  let builder ← (builder.addInt (.ofNat keys.length)).mapError .builder
  let builder ← (builder.addOp .checkMultisig).mapError .builder
  return builder.script

end ScriptAnalysis
