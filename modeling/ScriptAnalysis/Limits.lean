namespace ScriptAnalysis

namespace Limits

def supportedVersion : UInt16 := 0

def maxScriptSize : Nat := 16384

def maxElementSize : Nat := 2048

def maxOperations : Nat := 255

/--
The largest number of public keys in one multisig check. It is also what such a check costs when
the number of its keys is not known.
-/
def maxMultisigKeys : Nat := 20

def maxCarriedData : Nat := 256

def isKeySize (size : Nat) : Bool :=
  size = 33 ∨ size = 65

end Limits

end ScriptAnalysis
