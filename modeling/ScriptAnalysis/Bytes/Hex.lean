namespace ScriptAnalysis

namespace Hex

def byteDigits (byte : UInt8) : List Char :=
  [Nat.digitChar (byte.toNat / 16), Nat.digitChar (byte.toNat % 16)]

def digits (bytes : List UInt8) : List Char :=
  bytes.flatMap byteDigits

def ofBytes (bytes : List UInt8) : String :=
  String.ofList (digits bytes)

def ofByte (byte : UInt8) : String :=
  String.ofList (byteDigits byte)

def ofNat (width : Nat) (n : Nat) : String :=
  String.ofList ((Nat.toDigits 16 n).leftpad width '0')

@[simp]
theorem toList_ofBytes (bytes : List UInt8) : (ofBytes bytes).toList = digits bytes := by
  simp [ofBytes]

@[simp]
theorem length_digits (bytes : List UInt8) : (digits bytes).length = 2 * bytes.length := by
  induction bytes with
  | nil => rfl
  | cons byte bytes ih =>
    have : digits (byte :: bytes) = byteDigits byte ++ digits bytes := rfl
    simp only [this, List.length_append, ih, byteDigits, List.length_cons, List.length_nil]
    omega

end Hex

end ScriptAnalysis
