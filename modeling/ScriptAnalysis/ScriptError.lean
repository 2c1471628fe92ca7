import ScriptAnalysis.Opcode.Mnemonic

namespace ScriptAnalysis

inductive PushFault where
  | truncated (required remaining : Nat)
  | overlong (declared remaining : Nat)
deriving DecidableEq

inductive ScriptError where
  | malformedPush (opcode : Opcode) (offset : Nat) (fault : PushFault)
  | notPushOnly (reason : String)
  | stakeOpcodes (reason : String)
  | unsupportedVersion (version : UInt16)
  | inconsistent (reason : String)
deriving DecidableEq

namespace PushFault

def message : PushFault → String
  | truncated required remaining =>
    "requires " ++ toString required ++ " bytes, but script only has " ++ toString remaining
      ++ " remaining"
  | overlong declared remaining =>
    "pushes " ++ toString declared ++ " bytes, but script only has " ++ toString remaining
      ++ " remaining"

end PushFault

namespace ScriptError

def message : ScriptError → String
  | malformedPush opcode offset fault =>
    "opcode " ++ opcode.mnemonic ++ " at offset " ++ toString offset ++ " " ++ fault.message
  | notPushOnly reason => reason
  | stakeOpcodes reason => reason
  | unsupportedVersion version => "script version " ++ toString version ++ " is not supported"
  | inconsistent reason => "internal consistency error - " ++ reason

inductive Kind where
  | malformedPush
  | notPushOnly
  | stakeOpcodes
  | unsupportedVersion
  | inconsistent
deriving DecidableEq

def Kind.name : Kind → String
  | malformedPush => "ErrMalformedPush"
  | notPushOnly => "ErrNotPushOnly"
  | stakeOpcodes => "ErrP2SHStakeOpCodes"
  | unsupportedVersion => "ErrUnsupportedScriptVersion"
  | inconsistent => "ErrInternal"

def kind : ScriptError → Kind
  | malformedPush .. => .malformedPush
  | notPushOnly _ => .notPushOnly
  | stakeOpcodes _ => .stakeOpcodes
  | unsupportedVersion _ => .unsupportedVersion
  | inconsistent _ => .inconsistent

def offset? : ScriptError → Option Nat
  | malformedPush _ offset _ => some offset
  | _ => none

end ScriptError

end ScriptAnalysis
