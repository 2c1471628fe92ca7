import ScriptAnalysis.Bytes.LittleEndian

/-!
This module contains script numbers, the bytes that stand for an integer on the stack: its absolute
value in as few little-endian bytes as possible, with the sign in the top bit of the last byte.
-/

namespace ScriptAnalysis

namespace ScriptNumber

def magnitude (n : Nat) : List UInt8 :=
  if n = 0 then
    []
  else
    UInt8.ofNat (n % 256) :: magnitude (n / 256)

def encode (value : Int) : List UInt8 :=
  let bytes := magnitude value.natAbs
  match bytes.getLast? with
  | none => []
  | some last =>
    if 0x80 ≤ last then
      bytes ++ [if value < 0 then 0x80 else 0x00]
    else if value < 0 then
      bytes.dropLast ++ [last ||| 0x80]
    else
      bytes

def decode (bytes : List UInt8) : Int :=
  match bytes.getLast? with
  | none => 0
  | some last =>
    let absolute := LittleEndian.toNat (bytes.dropLast ++ [last &&& 0x7f])
    if 0x80 ≤ last then -absolute else absolute

end ScriptNumber

end ScriptAnalysis
