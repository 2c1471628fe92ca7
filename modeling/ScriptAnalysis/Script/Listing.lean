import ScriptAnalysis.Payment.MultisigTerms
import ScriptAnalysis.Script.Decode

/-!
This module contains script listings, which show a script with one line for each instruction. Lines
are indented along the branches of conditionals, multisig checks come with a note of their terms,
and a payload that is a script itself is listed below the line that pushes it.
-/

namespace ScriptAnalysis

namespace Listing

structure Line where
  depth : Nat
  text : String
  nested : Option String

namespace Line

def render (line : Line) : String :=
  let head := String.ofList (List.replicate (2 * line.depth) ' ') ++ line.text
  match line.nested with
  | none => head ++ "\n"
  | some nested =>
    head ++ "\n    -- Begin Redeem Script --\n" ++ nested ++ "\n    -- End Redeem Script --\n"

end Line

def depthAt (depth : Nat) (op : Opcode) : Nat :=
  if op = .opElse ∨ op = .opEndIf then depth - 1 else depth

def depthBehind (depth : Nat) (op : Opcode) : Nat :=
  if op = .opIf ∨ op = .opNotIf ∨ op = .opElse then depth + 1 else depth

def note (preceding : List Instruction) (op : Opcode) : String :=
  if op.isMultisigCheck then
    match MultisigTerms.ofPreceding? preceding with
    | some terms => " // " ++ toString terms.required ++ " of " ++ toString terms.signers
    | none => ""
  else
    ""

def lineText (preceding : List Instruction) (ins : Instruction) : String :=
  match ins.opcode.operand with
  | .none => ins.opcode.mnemonic ++ note preceding ins.opcode
  | .fixed _ => ins.opcode.mnemonic ++ " " ++ Hex.ofBytes ins.payload
  | .prefixed _ =>
    ins.opcode.mnemonic ++ " " ++ toString ins.payload.length ++ " " ++ Hex.ofBytes ins.payload

def lines (instructions : List (Instruction × Option String)) : List Line :=
  go 0 [] [] instructions
where
  go (depth : Nat) (preceding : List Instruction) (acc : List Line)
      : List (Instruction × Option String) → List Line
    | [] => acc.reverse
    | (ins, nested) :: instructions =>
      let depth := depthAt depth ins.opcode
      let line := ⟨depth, lineText preceding ins, nested⟩
      go (depthBehind depth ins.opcode) (ins :: preceding) (line :: acc) instructions

/--
Whether a payload is taken for a script: it decodes in full and ends with an instruction that is
not a push, as redeem scripts do. Keys and hashes rarely pass.
-/
def isNestedScript (payload : List UInt8) : Bool :=
  match (decode payload).toExcept with
  | .error _ => false
  | .ok instructions =>
    match instructions.getLast? with
    | none => false
    | some last => !last.opcode.isPush

/--
The text without the white space at its end. Listings are ASCII, so no other spaces occur.
-/
def trimEnd (text : String) : String :=
  String.ofList (text.toList.reverse.dropWhile Char.isWhitespace).reverse

def failure (error : ScriptError) : String :=
  "Error disassembling script: " ++ error.message

end Listing

def listing (script : List UInt8) : Except ScriptError String :=
  let decoded := decode script
  match decoded.error with
  | some error => .error error
  | none =>
    let instructions := decoded.instructions.attach.map fun ⟨ins, _⟩ =>
      if ins.opcode.carriesData && Listing.isNestedScript ins.payload then
        (ins, (listing ins.payload).toOption.map Listing.trimEnd)
      else
        (ins, none)
    .ok (String.join ((Listing.lines instructions).map Listing.Line.render))
termination_by script.length
decreasing_by
  apply length_payload_lt_of_mem_decode
  assumption

end ScriptAnalysis
