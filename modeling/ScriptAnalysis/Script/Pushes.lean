import ScriptAnalysis.Script.Decode

namespace ScriptAnalysis

def isPushOnly (instructions : List Instruction) : Bool :=
  instructions.all (·.opcode.isPush)

def isPushOnlyScript (script : List UInt8) : Bool :=
  match (decode script).toExcept with
  | .ok instructions => isPushOnly instructions
  | .error _ => false

/--
The payloads that the script pushes, in order. The opcode for zero pushes an empty one; the other
opcodes that stand for numbers do not count.
-/
def pushedPayloads (script : List UInt8) : Except ScriptError (List (List UInt8)) := do
  let instructions ← (decode script).toExcept
  let pushes := instructions.filter fun ins => ins.opcode.carriesData || ins.opcode = .op0
  return pushes.map (·.payload)

def removeData (data : List UInt8) (instructions : List Instruction) : List Instruction :=
  instructions.filter fun ins => !(ins.isCanonicalPush && Block.occursIn data ins.payload)

end ScriptAnalysis
