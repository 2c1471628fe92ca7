import ScriptAnalysis.Script.Cursor

namespace ScriptAnalysis

def isUnspendable (amount : Int64) (script : List UInt8) : Bool :=
  amount = 0 || go true (Cursor.start Limits.supportedVersion script)
where
  /--
  Reads on until the script is known to fail. The flag holds in front of the first instruction.
  -/
  go (first : Bool) (cursor : Cursor) : Bool :=
    match h : cursor.next with
    | (none, _) => false
    | (some (.error _), _) => true
    | (some (.ok ins), cursor') =>
      have := Cursor.budget_lt_of_next h
      (first && ins.opcode = .opReturn) || go false cursor'
  termination_by cursor.budget

end ScriptAnalysis
