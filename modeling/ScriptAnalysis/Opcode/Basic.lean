namespace ScriptAnalysis

inductive LengthWidth where
  | one
  | two
  | four
deriving DecidableEq

namespace LengthWidth

def bytes : LengthWidth → Nat
  | one => 1
  | two => 2
  | four => 4

def maxLength : LengthWidth → Nat
  | one => 0xff
  | two => 0xffff
  | four => 0xffffffff

end LengthWidth

inductive Operand where
  | none
  | fixed (length : Nat)
  | prefixed (width : LengthWidth)
deriving DecidableEq

namespace Operand

def maxLength : Operand → Nat
  | none => 0
  | fixed length => length
  | prefixed width => width.maxLength

end Operand

structure Opcode where
  byte : UInt8
deriving DecidableEq

namespace Opcode

def op0 : Opcode := ⟨0x00⟩
def data20 : Opcode := ⟨0x14⟩
def pushData1 : Opcode := ⟨0x4c⟩
def pushData2 : Opcode := ⟨0x4d⟩
def pushData4 : Opcode := ⟨0x4e⟩
def negate1 : Opcode := ⟨0x4f⟩
def op1 : Opcode := ⟨0x51⟩
def op16 : Opcode := ⟨0x60⟩
def opIf : Opcode := ⟨0x63⟩
def opNotIf : Opcode := ⟨0x64⟩
def opElse : Opcode := ⟨0x67⟩
def opEndIf : Opcode := ⟨0x68⟩
def opReturn : Opcode := ⟨0x6a⟩
def dup : Opcode := ⟨0x76⟩
def equal : Opcode := ⟨0x87⟩
def equalVerify : Opcode := ⟨0x88⟩
def hash160 : Opcode := ⟨0xa9⟩
def checkSig : Opcode := ⟨0xac⟩
def checkSigVerify : Opcode := ⟨0xad⟩
def checkMultisig : Opcode := ⟨0xae⟩
def checkMultisigVerify : Opcode := ⟨0xaf⟩
def stakeSubmission : Opcode := ⟨0xba⟩
def stakeGen : Opcode := ⟨0xbb⟩
def stakeRevocation : Opcode := ⟨0xbc⟩
def stakeChange : Opcode := ⟨0xbd⟩
def checkSigAlt : Opcode := ⟨0xbe⟩
def checkSigAltVerify : Opcode := ⟨0xbf⟩

/--
The opcode that pushes `length` bytes directly. Meant for lengths from 1 to 75.
-/
def data (length : Nat) : Opcode :=
  ⟨UInt8.ofNat length⟩

def pushData : LengthWidth → Opcode
  | .one => pushData1
  | .two => pushData2
  | .four => pushData4

def smallInt (n : Nat) : Opcode :=
  if n = 0 then op0 else ⟨UInt8.ofNat (0x50 + n)⟩

def operand (op : Opcode) : Operand :=
  if 0x01 ≤ op.byte ∧ op.byte ≤ 0x4b then
    .fixed op.byte.toNat
  else if op = pushData1 then
    .prefixed .one
  else if op = pushData2 then
    .prefixed .two
  else if op = pushData4 then
    .prefixed .four
  else
    .none

def carriesData (op : Opcode) : Bool :=
  op.operand ≠ .none

/--
Whether the opcode only pushes. This takes in the one reserved opcode among the pushes, although
it can never be executed.
-/
def isPush (op : Opcode) : Bool :=
  op.byte ≤ op16.byte

def isPositiveSmallInt (op : Opcode) : Bool :=
  op1.byte ≤ op.byte ∧ op.byte ≤ op16.byte

def smallInt? (op : Opcode) : Option Nat :=
  if op = op0 then
    some 0
  else if op.isPositiveSmallInt then
    some (op.byte.toNat - 0x50)
  else
    none

def isSmallInt (op : Opcode) : Bool :=
  op.smallInt?.isSome

def isStakeTag (op : Opcode) : Bool :=
  stakeSubmission.byte ≤ op.byte ∧ op.byte ≤ stakeChange.byte

def isMultisigCheck (op : Opcode) : Bool :=
  op = checkMultisig ∨ op = checkMultisigVerify

end Opcode

end ScriptAnalysis
