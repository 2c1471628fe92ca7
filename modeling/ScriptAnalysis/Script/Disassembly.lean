import ScriptAnalysis.Instruction.Text
import ScriptAnalysis.Script.Cursor

namespace ScriptAnalysis

structure Disassembly where
  text : String
  error : Option ScriptError

namespace Disassembly

def errorMarker : String := "[error]"

def write (index : Nat) (text : String) : List Instruction → String
  | [] => text
  | ins :: instructions =>
    let text := if 0 < index then text.push ' ' else text
    write (index + 1) (text ++ ins.shortText) instructions

end Disassembly

/--
A script as one line of text. If it does not decode in full it is shown up to its error, and the
marker is set apart as soon as any byte has been decoded.
-/
def disassemble (script : List UInt8) : Disassembly :=
  let (items, finish) := (Cursor.start Limits.supportedVersion script).drain
  let text := Disassembly.write 0 "" (items.filterMap Except.toOption)
  match finish.error? with
  | none => ⟨text, none⟩
  | some error =>
    let text := if finish.offset = 0 then text else text.push ' '
    ⟨text ++ Disassembly.errorMarker, some error⟩

end ScriptAnalysis
