import ScriptAnalysis.Builder.Basic

namespace ScriptAnalysis

structure Hash160 where
  bytes : List UInt8
  length_eq : bytes.length = 20
deriving DecidableEq

namespace Hash160

def ofBytes? (bytes : List UInt8) : Option Hash160 :=
  if h : bytes.length = 20 then
    some ⟨bytes, h⟩
  else
    none

end Hash160

def payToPubKeyHash (hash : Hash160) : List UInt8 :=
  [Opcode.dup.byte, Opcode.hash160.byte, Opcode.data20.byte] ++ hash.bytes
    ++ [Opcode.equalVerify.byte, Opcode.checkSig.byte]

def payToScriptHash (hash : Hash160) : List UInt8 :=
  [Opcode.hash160.byte, Opcode.data20.byte] ++ hash.bytes ++ [Opcode.equal.byte]

def stakeTagged? (tag : Opcode) (script : List UInt8) : Option (List UInt8) :=
  if tag.isStakeTag then
    some (tag.byte :: script)
  else
    none

def scriptHashSignature (redeemScript signatures : List UInt8)
    : Except BuilderError (List UInt8) := do
  let builder ← ScriptBuilder.empty.addData redeemScript
  return signatures ++ builder.script

end ScriptAnalysis
