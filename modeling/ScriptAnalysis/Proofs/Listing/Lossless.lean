import ScriptAnalysis.Proofs.Listing

/-!
This module contains that nothing is lost in a listing. The first word of a line is a mnemonic,
which tells the opcode and with it the indentation, and what stands between it and the end of the
line tells the payload. All else in a listing follows from these, so the next line starts at the
same place in equal listings.
-/

namespace ScriptAnalysis

namespace Listing

def operandText (preceding : List Instruction) (ins : Instruction) : String :=
  match ins.opcode.operand with
  | .none => note preceding ins.opcode
  | .fixed _ => " " ++ Hex.ofBytes ins.payload
  | .prefixed _ => " " ++ toString ins.payload.length ++ " " ++ Hex.ofBytes ins.payload

theorem lineText_eq (preceding : List Instruction) (ins : Instruction)
    : lineText preceding ins = ins.opcode.mnemonic ++ operandText preceding ins := by
  unfold lineText operandText
  cases ins.opcode.operand <;> simp [String.append_assoc]

theorem newline_notMem_operandText (preceding : List Instruction) (ins : Instruction)
    : '\n' ∉ (operandText preceding ins).toList := by
  have hnumber : ∀ n : Nat, '\n' ∉ Nat.toDigits 10 n := by
    intro n
    apply (isWord_toDigits n).notMem
    decide
  have hdigits : '\n' ∉ Hex.digits ins.payload := by
    apply (Hex.isWord_digits ins.payload).notMem
    decide
  unfold operandText
  cases ins.opcode.operand with
  | none =>
    obtain hnote | ⟨required, signers, hnote⟩ := note_eq_or preceding ins.opcode
    . simp [hnote]
    . simp [hnote, hnumber]
  | fixed length => simp [hdigits]
  | prefixed width => simp [hdigits, hnumber]

theorem head?_operandText (preceding : List Instruction) (ins : Instruction)
    : (operandText preceding ins).toList.head?.all Char.isWhitespace = true := by
  unfold operandText
  cases ins.opcode.operand with
  | none =>
    obtain hnote | ⟨required, signers, hnote⟩ := note_eq_or preceding ins.opcode
    . simp [hnote]
    . simp [hnote]
  | fixed length => simp
  | prefixed width => simp

theorem payload_eq_of_operandText_eq {preceding : List Instruction} {opcode : Opcode}
    {first second : List UInt8} (hfirst : Instruction.Fits ⟨opcode, first⟩)
    (hsecond : Instruction.Fits ⟨opcode, second⟩)
    (h : operandText preceding ⟨opcode, first⟩ = operandText preceding ⟨opcode, second⟩)
    : first = second := by
  rw [← String.toList_inj] at h
  cases hop : opcode.operand with
  | none =>
    rw [Instruction.fits_iff_of_none hop] at hfirst hsecond
    rw [hfirst, hsecond]
  | fixed length =>
    simp only [operandText, hop, String.toList_append, Hex.toList_ofBytes] at h
    exact Hex.digits_injective (List.append_cancel_left h)
  | prefixed width =>
    have hspace : " ".toList = [' '] := by decide
    have hnumber : ∀ n : Nat, ' ' ∉ (toString n).toList := by
      intro n
      apply (isWord_toString n).notMem
      decide
    simp only [operandText, hop, String.toList_append, Hex.toList_ofBytes, hspace,
      List.append_assoc, List.cons_append, List.nil_append, List.cons.injEq, true_and] at h
    obtain ⟨-, hdigits⟩ := eq_of_append_mark_eq (hnumber _) (hnumber _) h
    exact Hex.digits_injective hdigits

theorem exists_render_lineBehind (depth : Nat) (preceding : List Instruction) (ins : Instruction)
    : ∃ below, (lineBehind depth preceding ins).render.toList
        = List.replicate (2 * depthAt depth ins.opcode) ' '
          ++ (ins.opcode.mnemonic.toList
            ++ ((operandText preceding ins).toList ++ '\n' :: below)) := by
  unfold Line.render lineBehind
  rw [lineText_eq]
  cases nested? ins with
  | none => exact ⟨[], by simp⟩
  | some nested =>
    exact ⟨"    -- Begin Redeem Script --\n".toList
      ++ (nested.toList ++ "\n    -- End Redeem Script --\n".toList), by simp⟩

theorem firstWord_render_lineBehind (depth : Nat) (preceding : List Instruction)
    (ins : Instruction) (behind : String)
    : firstWord ((lineBehind depth preceding ins).render ++ behind).toList
        =
      ins.opcode.mnemonic.toList := by
  obtain ⟨below, hbelow⟩ := exists_render_lineBehind depth preceding ins
  rw [String.toList_append, hbelow, List.append_assoc, List.append_assoc]
  apply ins.opcode.isWord_mnemonic.firstWord_append ins.opcode.mnemonic_ne_nil
  . intro c hc
    rw [List.eq_of_mem_replicate hc]
    rfl
  . have hhead := head?_operandText preceding ins
    cases htext : (operandText preceding ins).toList with
    | nil => rfl
    | cons c text =>
      rw [htext] at hhead
      exact hhead

section Line

variable {depth : Nat} {preceding : List Instruction} {first second : Instruction}
  {behind behind' : String}

theorem opcode_eq_of_render_lineBehind_eq
    (h : (lineBehind depth preceding first).render ++ behind
      = (lineBehind depth preceding second).render ++ behind')
    : first.opcode = second.opcode := by
  apply Opcode.mnemonic_injective
  rw [← String.toList_inj, ← firstWord_render_lineBehind depth preceding first behind, h,
    firstWord_render_lineBehind]

theorem eq_of_render_lineBehind_eq (hfirst : first.Fits) (hsecond : second.Fits)
    (h : (lineBehind depth preceding first).render ++ behind
      = (lineBehind depth preceding second).render ++ behind')
    : first = second := by
  have hopcode := opcode_eq_of_render_lineBehind_eq h
  rcases first with ⟨opcode, first⟩
  rcases second with ⟨_, second⟩
  dsimp only at hopcode
  subst hopcode
  obtain ⟨below, hbelow⟩ := exists_render_lineBehind depth preceding ⟨opcode, first⟩
  obtain ⟨below', hbelow'⟩ := exists_render_lineBehind depth preceding ⟨opcode, second⟩
  have hchars := congrArg String.toList h
  rw [String.toList_append, String.toList_append, hbelow, hbelow'] at hchars
  simp only [List.append_assoc, List.append_cancel_left_eq, List.cons_append] at hchars
  have hnewline := newline_notMem_operandText preceding
  obtain ⟨htext, -⟩ := eq_of_append_mark_eq (hnewline _) (hnewline _) hchars
  rw [String.toList_inj] at htext
  rw [payload_eq_of_operandText_eq hfirst hsecond htext]

end Line

theorem render_linesBehind_cons_ne_nil (depth : Nat) (preceding : List Instruction)
    (ins : Instruction) (instructions : List Instruction)
    : render (linesBehind depth preceding (ins :: instructions)) ≠ "" := by
  obtain ⟨below, hbelow⟩ := exists_render_lineBehind depth preceding ins
  have hne : (lineBehind depth preceding ins).render ≠ "" := by
    rw [ne_eq, ← String.toList_inj, hbelow]
    simp
  rw [linesBehind, render_cons, ne_eq, String.append_eq_empty_iff]
  exact fun h => hne h.left

theorem eq_of_render_linesBehind_eq {depth : Nat} {preceding first second : List Instruction}
    (hfirst : ∀ ins ∈ first, ins.Fits) (hsecond : ∀ ins ∈ second, ins.Fits)
    (h : render (linesBehind depth preceding first) = render (linesBehind depth preceding second))
    : first = second := by
  induction first generalizing depth preceding second with
  | nil =>
    cases second with
    | nil => rfl
    | cons ins second => exact absurd h.symm (render_linesBehind_cons_ne_nil _ _ _ _)
  | cons ins first ih =>
    cases second with
    | nil => exact absurd h (render_linesBehind_cons_ne_nil _ _ _ _)
    | cons ins' second =>
      simp only [linesBehind, render_cons] at h
      rw [List.forall_mem_cons] at hfirst hsecond
      -- Only equal instructions leave the rest of both listings at the same depth.
      have hins := eq_of_render_lineBehind_eq hfirst.left hsecond.left h
      subst hins
      rw [String.append_right_inj] at h
      rw [ih hfirst.right hsecond.right h]

end Listing

open Listing

theorem listing_lossless {first second : List UInt8} (hfirst : (decode first).error = none)
    (hsecond : (decode second).error = none)
    : ∃ text text', listing first = .ok text ∧ listing second = .ok text'
        ∧ (text = text' ↔ first = second) := by
  have hdecode : decode first = ⟨(decode first).instructions, none⟩ := by rw [← hfirst]
  have hdecode' : decode second = ⟨(decode second).instructions, none⟩ := by rw [← hsecond]
  refine ⟨_, _, listing_of_complete hdecode, listing_of_complete hdecode', ?_⟩
  constructor
  . intro h
    obtain ⟨hfits, hbytes⟩ := decode_eq_complete_iff.mp hdecode
    obtain ⟨hfits', hbytes'⟩ := decode_eq_complete_iff.mp hdecode'
    rw [← hbytes, ← hbytes', eq_of_render_linesBehind_eq hfits hfits' h]
  . intro h
    rw [h]

theorem listing_tells_longer_push
    : (decode [0x01, 0x76]).error = none ∧ (decode [0x4c, 0x01, 0x76]).error = none
        ∧ ∃ text text', listing [0x01, 0x76] = .ok text ∧ listing [0x4c, 0x01, 0x76] = .ok text'
          ∧ text ≠ text' := by
  have hfirst : (decode [0x01, 0x76]).error = none := by decide +kernel
  have hsecond : (decode [0x4c, 0x01, 0x76]).error = none := by decide +kernel
  obtain ⟨text, text', htext, htext', hiff⟩ := listing_lossless hfirst hsecond
  refine ⟨hfirst, hsecond, text, text', htext, htext', ?_⟩
  rw [ne_eq, hiff]
  decide

end ScriptAnalysis
