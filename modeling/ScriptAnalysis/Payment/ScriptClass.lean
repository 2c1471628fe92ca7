import ScriptAnalysis.Payment.Template
import ScriptAnalysis.Script.Decode

namespace ScriptAnalysis

inductive ScriptClass where
  | nonStandard
  | pubKey
  | pubKeyAlt
  | pubKeyHash
  | pubKeyHashAlt
  | scriptHash
  | multisig
  | nullData
  | stakeSubmission
  | stakeGen
  | stakeRevocation
  | stakeChange
deriving DecidableEq

namespace ScriptClass

def all : List ScriptClass :=
  [nonStandard, pubKey, pubKeyAlt, pubKeyHash, pubKeyHashAlt, scriptHash, multisig, nullData,
    stakeSubmission, stakeGen, stakeRevocation, stakeChange]

def number : ScriptClass → Nat
  | nonStandard => 0
  | pubKey => 1
  | pubKeyAlt => 2
  | pubKeyHash => 3
  | pubKeyHashAlt => 4
  | scriptHash => 5
  | multisig => 6
  | nullData => 7
  | stakeSubmission => 8
  | stakeGen => 9
  | stakeRevocation => 10
  | stakeChange => 11

def name : ScriptClass → String
  | nonStandard => "nonstandard"
  | pubKey => "pubkey"
  | pubKeyAlt => "pubkeyalt"
  | pubKeyHash => "pubkeyhash"
  | pubKeyHashAlt => "pubkeyhashalt"
  | scriptHash => "scripthash"
  | multisig => "multisig"
  | nullData => "nulldata"
  | stakeSubmission => "stakesubmission"
  | stakeGen => "stakegen"
  | stakeRevocation => "stakerevoke"
  | stakeChange => "sstxchange"

def ofName? (name : String) : Option ScriptClass :=
  all.find? (·.name = name)

def unknownName (name : String) : String :=
  "invalid script class " ++ name

def tag? : ScriptClass → Option Opcode
  | stakeSubmission => some .stakeSubmission
  | stakeGen => some .stakeGen
  | stakeRevocation => some .stakeRevocation
  | stakeChange => some .stakeChange
  | _ => none

def isStake (cls : ScriptClass) : Bool :=
  cls.tag?.isSome

def templates (keys : Nat) : ScriptClass → List Template
  | nonStandard => []
  | pubKey => [.pubKey]
  | pubKeyAlt => [.pubKeyAlt]
  | pubKeyHash => [.pubKeyHash]
  | pubKeyHashAlt => [.pubKeyHashAlt]
  | scriptHash => [.scriptHash]
  | multisig => if 1 ≤ keys ∧ keys ≤ 16 then [.multisig keys] else []
  | nullData => [.bareReturn, .dataCarrier]
  | stakeSubmission => taggedBy .stakeSubmission
  | stakeGen => taggedBy .stakeGen
  | stakeRevocation => taggedBy .stakeRevocation
  | stakeChange => taggedBy .stakeChange
where
  taggedBy (tag : Opcode) : List Template :=
    [Template.pubKeyHash.tagged tag, Template.scriptHash.tagged tag]

def recognises (cls : ScriptClass) (instructions : List Instruction) : Bool :=
  -- A multisig check is made of its keys and three more instructions.
  (cls.templates (instructions.length - 3)).any (·.accepts instructions)

def ofInstructions (instructions : List Instruction) : ScriptClass :=
  (all.find? (·.recognises instructions)).getD nonStandard

def ofScript (version : UInt16) (script : List UInt8) : ScriptClass :=
  if version ≠ Limits.supportedVersion then
    nonStandard
  else
    match (decode script).toExcept with
    | .ok instructions => ofInstructions instructions
    | .error _ => nonStandard

end ScriptClass

def isScriptHash (instructions : List Instruction) : Bool :=
  Template.scriptHash.accepts instructions

def isStakeScriptHash : List Instruction → Bool
  | [] => false
  | tag :: instructions => tag.opcode.isStakeTag && isScriptHash instructions

def isAnyScriptHash (instructions : List Instruction) : Bool :=
  isScriptHash instructions || isStakeScriptHash instructions

def isPayToScriptHash (script : List UInt8) : Bool :=
  match (decode script).toExcept with
  | .ok instructions => isScriptHash instructions
  | .error _ => false

end ScriptAnalysis
