import ScriptAnalysis.Builder.ScriptNumber
import ScriptAnalysis.Instruction.Canonical
import ScriptAnalysis.Limits

/-!
This module contains the script builder. It appends opcodes, data and integers to a script, always
with the smallest push, and refuses whatever would make the script or one of its elements too
large. What is refused leaves the script as it was.
-/

namespace ScriptAnalysis

inductive BuilderError where
  | opcodeRejected (opcode : Opcode)
  | opcodesRejected (count : Nat)
  | dataRejected (size : Nat)
  | elementTooLarge (size : Nat)
  | integerRejected (value : Int64)
deriving DecidableEq

namespace BuilderError

def message : BuilderError → String
  | opcodeRejected opcode => "adding opcode " ++ toString opcode.byte ++ exceedsScript
  | opcodesRejected count => "adding " ++ toString count ++ " opcodes" ++ exceedsScript
  | dataRejected size => "adding " ++ toString size ++ " bytes of data" ++ exceedsScript
  | elementTooLarge size =>
    "adding a data element of " ++ toString size
      ++ " bytes exceeds the maximum allowed script element size of "
      ++ toString Limits.maxElementSize
  | integerRejected value => "adding integer " ++ toString value ++ exceedsScript
where
  exceedsScript : String :=
    " would exceed the maximum allowed script length of " ++ toString Limits.maxScriptSize

end BuilderError

structure ScriptBuilder where
  script : List UInt8
deriving DecidableEq

namespace ScriptBuilder

def empty : ScriptBuilder := ⟨[]⟩

def append (builder : ScriptBuilder) (bytes : List UInt8) : ScriptBuilder :=
  ⟨builder.script ++ bytes⟩

def HasRoom (builder : ScriptBuilder) (size : Nat) : Prop :=
  builder.script.length + size ≤ Limits.maxScriptSize

instance (builder : ScriptBuilder) (size : Nat) : Decidable (builder.HasRoom size) :=
  inferInstanceAs (Decidable (_ ≤ _))

def addOp (builder : ScriptBuilder) (opcode : Opcode) : Except BuilderError ScriptBuilder :=
  if builder.HasRoom 1 then
    .ok (builder.append [opcode.byte])
  else
    .error (.opcodeRejected opcode)

def addOps (builder : ScriptBuilder) (opcodes : List Opcode)
    : Except BuilderError ScriptBuilder :=
  if builder.HasRoom opcodes.length then
    .ok (builder.append (opcodes.map (·.byte)))
  else
    .error (.opcodesRejected opcodes.length)

/--
Appends the smallest push of the data. Of the two limits, that of the script comes first.
-/
def addData (builder : ScriptBuilder) (data : List UInt8) : Except BuilderError ScriptBuilder :=
  if ¬ builder.HasRoom (Instruction.canonicalSize data) then
    .error (.dataRejected (Instruction.canonicalSize data))
  else if Limits.maxElementSize < data.length then
    .error (.elementTooLarge data.length)
  else
    .ok (builder.append (Instruction.canonicalPush data).bytes)

def addInt (builder : ScriptBuilder) (value : Int64) : Except BuilderError ScriptBuilder :=
  if ¬ builder.HasRoom 1 then
    .error (.integerRejected value)
  else if 0 ≤ value ∧ value ≤ 16 then
    .ok (builder.append [(Opcode.smallInt value.toInt.toNat).byte])
  else if value = -1 then
    .ok (builder.append [Opcode.negate1.byte])
  else
    builder.addData (ScriptNumber.encode value.toInt)

def drain (builder : ScriptBuilder) : List UInt8 × ScriptBuilder :=
  (builder.script, empty)

inductive Step where
  | addOp (opcode : Opcode)
  | addOps (opcodes : List Opcode)
  | addData (data : List UInt8)
  | addInt (value : Int64)
  | drain
  | restart
deriving DecidableEq

def step (builder : ScriptBuilder) : Step → Except BuilderError ScriptBuilder
  | .addOp opcode => builder.addOp opcode
  | .addOps opcodes => builder.addOps opcodes
  | .addData data => builder.addData data
  | .addInt value => builder.addInt value
  | .drain => .ok builder.drain.2
  | .restart => .ok empty

def after (builder : ScriptBuilder) (step : Step) : ScriptBuilder :=
  match builder.step step with
  | .ok builder => builder
  | .error _ => builder

def run (builder : ScriptBuilder) (steps : List Step) : ScriptBuilder :=
  steps.foldl after builder

end ScriptBuilder

end ScriptAnalysis
