import ScriptAnalysis.Proofs.Canonical
import ScriptAnalysis.Proofs.Decode
import ScriptAnalysis.Proofs.Words
import ScriptAnalysis.Script.Listing

/-!
This module contains the lines of a listing one by one. The line of an instruction depends on the
instructions in front of it through its depth and through the note of a multisig check, and what is
nested below it depends on its payload alone.
-/

namespace ScriptAnalysis

namespace Listing

def nested? (ins : Instruction) : Option String :=
  if ins.opcode.carriesData && isNestedScript ins.payload then
    (listing ins.payload).toOption.map trimEnd
  else
    none

def lineBehind (depth : Nat) (preceding : List Instruction) (ins : Instruction) : Line :=
  ⟨depthAt depth ins.opcode, lineText preceding ins, nested? ins⟩

def linesBehind (depth : Nat) (preceding : List Instruction) : List Instruction → List Line
  | [] => []
  | ins :: instructions =>
    lineBehind depth preceding ins
      :: linesBehind (depthBehind (depthAt depth ins.opcode) ins.opcode) (ins :: preceding)
        instructions

def depthThrough (depth : Nat) (instructions : List Instruction) : Nat :=
  instructions.foldl (fun depth ins => depthBehind (depthAt depth ins.opcode) ins.opcode) depth

theorem depthThrough_cons (depth : Nat) (ins : Instruction) (rest : List Instruction)
    : depthThrough depth (ins :: rest)
        =
      depthThrough (depthBehind (depthAt depth ins.opcode) ins.opcode) rest := by
  rfl

theorem depthThrough_append (depth : Nat) (front back : List Instruction)
    : depthThrough depth (front ++ back) = depthThrough (depthThrough depth front) back := by
  simp [depthThrough]

def render (lines : List Line) : String :=
  String.join (lines.map Line.render)

@[simp]
theorem render_nil : render [] = "" := by
  rfl

@[simp]
theorem render_cons (line : Line) (lines : List Line)
    : render (line :: lines) = line.render ++ render lines := by
  simp [render]

@[simp]
theorem render_append (front back : List Line)
    : render (front ++ back) = render front ++ render back := by
  simp [render]

@[simp]
theorem length_linesBehind (depth : Nat) (preceding instructions : List Instruction)
    : (linesBehind depth preceding instructions).length = instructions.length := by
  induction instructions generalizing depth preceding with
  | nil => rfl
  | cons ins instructions ih => rw [linesBehind, List.length_cons, List.length_cons, ih]

theorem linesBehind_append (depth : Nat) (preceding front back : List Instruction)
    : linesBehind depth preceding (front ++ back)
        =
      linesBehind depth preceding front
        ++ linesBehind (depthThrough depth front) (front.reverse ++ preceding) back := by
  induction front generalizing depth preceding with
  | nil => rfl
  | cons ins front ih => simp [linesBehind, ih, depthThrough]

theorem lines_go_eq (depth : Nat) (preceding : List Instruction) (acc : List Line)
    (instructions : List Instruction)
    : lines.go depth preceding acc (instructions.map fun ins => (ins, nested? ins))
        =
      acc.reverse ++ linesBehind depth preceding instructions := by
  induction instructions generalizing depth preceding acc with
  | nil => simp [lines.go, linesBehind]
  | cons ins instructions ih =>
    rw [List.map_cons, lines.go, ih]
    simp [linesBehind, lineBehind]

theorem lines_eq (instructions : List Instruction)
    : lines (instructions.map fun ins => (ins, nested? ins)) = linesBehind 0 [] instructions := by
  rw [lines, lines_go_eq]
  rfl

end Listing

open Listing

theorem listing_of_complete {script : List UInt8} {instructions : List Instruction}
    (h : decode script = ⟨instructions, none⟩)
    : listing script = .ok (render (linesBehind 0 [] instructions)) := by
  have hnested : ∀ ins : Instruction,
      (if (ins.opcode.carriesData && isNestedScript ins.payload) = true then
        (ins, (listing ins.payload).toOption.map trimEnd)
      else
        (ins, none))
        = (ins, nested? ins) := by
    intro ins
    unfold nested?
    split <;> rfl
  rw [listing]
  simp only [h, hnested]
  rw [List.attach_map_val (f := fun ins => (ins, nested? ins)), h, lines_eq,
    render]

namespace Listing

def PushesScript (ins : Instruction) : Prop :=
  ins.opcode.carriesData = true ∧ ins.payload ≠ []
    ∧ ∃ front last, decode ins.payload = ⟨front ++ [last], none⟩
        ∧ Opcode.op16.byte < last.opcode.byte

theorem isNestedScript_iff {payload : List UInt8}
    : isNestedScript payload = true
        ↔
      ∃ front last, decode payload = ⟨front ++ [last], none⟩
        ∧ Opcode.op16.byte < last.opcode.byte := by
  unfold isNestedScript
  cases hdecode : (decode payload).toExcept with
  | error error =>
    rw [Decoded.toExcept_eq_error_iff] at hdecode
    simp only [Bool.false_eq_true, false_iff]
    rintro ⟨front, last, hcomplete, -⟩
    rw [hcomplete] at hdecode
    contradiction
  | ok instructions =>
    rw [Decoded.toExcept_eq_ok_iff] at hdecode
    rw [hdecode]
    cases instructions using List.reverseRecOn with
    | nil => simp
    | append_singleton front last =>
      simp only [List.getLast?_append, List.getLast?_singleton, Option.some_or, Opcode.isPush,
        Bool.not_eq_true', decide_eq_false_iff_not, UInt8.not_le, Decoded.mk.injEq, and_true]
      constructor
      . intro h
        exact ⟨front, last, rfl, h⟩
      . rintro ⟨front', last', heq, h⟩
        obtain ⟨-, hlast⟩ := List.append_inj' heq rfl
        cases hlast
        exact h

theorem pushesScript_iff {ins : Instruction}
    : PushesScript ins ↔ (ins.opcode.carriesData && isNestedScript ins.payload) = true := by
  rw [Bool.and_eq_true, isNestedScript_iff, PushesScript]
  constructor
  . rintro ⟨hdata, -, hscript⟩
    exact ⟨hdata, hscript⟩
  . rintro ⟨hdata, front, last, hdecode, hlast⟩
    refine ⟨hdata, ?_, front, last, hdecode, hlast⟩
    intro hnil
    simp [hnil] at hdecode

theorem trimEnd_newline {text : String} (h : EndsInWord text)
    : trimEnd (text ++ "\n") = text := by
  obtain ⟨front, word, rfl, hword, hne⟩ := h
  have hreverse : word.toList.reverse ≠ [] := by simpa using hne
  obtain ⟨c, rest, hrest⟩ := List.exists_cons_of_ne_nil hreverse
  have hc : c.isWhitespace = false := by
    apply hword
    rw [← List.mem_reverse, hrest]
    apply List.mem_cons_self
  have hnewline : "\n".toList = ['\n'] := by decide
  have hdrop : ((front ++ word ++ "\n").toList.reverse).dropWhile Char.isWhitespace
      = (front ++ word).toList.reverse := by
    simp only [String.toList_append, hnewline, List.reverse_append, List.reverse_singleton,
      hrest, List.cons_append, List.nil_append]
    rw [List.dropWhile_cons_of_pos (by decide), List.dropWhile_cons_of_neg (by simp [hc])]
  rw [trimEnd, hdrop, List.reverse_reverse, String.ofList_toList]

theorem note_eq_or (preceding : List Instruction) (op : Opcode)
    : note preceding op = ""
        ∨ ∃ required signers : Nat,
            note preceding op = " // " ++ toString required ++ " of " ++ toString signers := by
  unfold note
  split
  . split
    . next terms _ => exact .inr ⟨terms.required, terms.signers, rfl⟩
    . exact .inl rfl
  . exact .inl rfl

theorem endsInWord_lineText {ins : Instruction} (h : ins.opcode.operand = .none)
    (preceding : List Instruction)
    : EndsInWord (lineText preceding ins) := by
  have htext : lineText preceding ins = ins.opcode.mnemonic ++ note preceding ins.opcode := by
    simp [lineText, h]
  rw [htext]
  obtain hnote | ⟨required, signers, hnote⟩ := note_eq_or preceding ins.opcode
  . rw [hnote, String.append_empty]
    apply EndsInWord.mnemonic
  . rw [hnote]
    apply EndsInWord.append
    apply EndsInWord.append
    apply EndsInWord.toString

theorem operand_of_not_push {op : Opcode} (h : Opcode.op16.byte < op.byte)
    : op.operand = .none := by
  rw [← Decidable.not_not (p := op.operand = .none)]
  intro hoperand
  have hpush := Opcode.isPush_of_operand_ne_none hoperand
  rw [Opcode.isPush, decide_eq_true_iff, ← UInt8.not_lt] at hpush
  exact hpush h

theorem nested?_of_not_pushesScript {ins : Instruction} (h : ¬ PushesScript ins)
    : nested? ins = none := by
  rw [pushesScript_iff] at h
  rw [nested?, if_neg h]

theorem nested?_of_operand_none {ins : Instruction} (h : ins.opcode.operand = .none)
    : nested? ins = none := by
  apply nested?_of_not_pushesScript
  rintro ⟨hdata, -⟩
  simp [Opcode.carriesData, h] at hdata

theorem nested?_of_pushesScript {ins : Instruction} (h : PushesScript ins)
    : ∃ body, listing ins.payload = .ok (body ++ "\n") ∧ nested? ins = some body := by
  obtain ⟨-, -, front, last, hdecode, hlast⟩ := id h
  have hoperand := operand_of_not_push hlast
  have hlisting := listing_of_complete hdecode
  rw [linesBehind_append, render_append] at hlisting
  simp only [linesBehind, lineBehind, nested?_of_operand_none hoperand, render_cons, render_nil,
    Line.render, String.append_empty] at hlisting
  rw [← String.append_assoc] at hlisting
  refine ⟨_, hlisting, ?_⟩
  rw [pushesScript_iff] at h
  rw [nested?, if_pos h, hlisting]
  simp only [Except.toOption, Option.map_some]
  rw [trimEnd_newline]
  apply EndsInWord.append
  apply EndsInWord.append
  apply endsInWord_lineText hoperand

end Listing

end ScriptAnalysis
