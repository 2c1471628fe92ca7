import ScriptAnalysis.Instruction.Text
import ScriptAnalysis.Proofs.Decode
import ScriptAnalysis.Proofs.Words

/-!
This module contains that the texts of an instruction tell what it is. The mnemonic at their start
tells the opcode. The full text of a push ends with the digits of the payload, and where nothing is
pushed no payload fits but the empty one. In the raw text the digits stand between brackets, whatever
the payload is.
-/

namespace ScriptAnalysis

namespace Instruction

theorem firstWord_fullText (ins : Instruction)
    : firstWord ins.fullText.toList = ins.opcode.mnemonic.toList := by
  obtain ⟨behind, hbehind, htext⟩ : ∃ behind : List Char,
      behind.head?.all Char.isWhitespace = true
        ∧ ins.fullText.toList = ins.opcode.mnemonic.toList ++ behind := by
    unfold fullText
    cases ins.opcode.operand with
    | none => exact ⟨[], rfl, by simp⟩
    | fixed length => exact ⟨" 0x".toList ++ Hex.digits ins.payload, rfl, by simp⟩
    | prefixed width =>
      exact ⟨" 0x".toList ++ (Hex.ofNat (2 * width.bytes) ins.payload.length).toList
        ++ " 0x".toList ++ Hex.digits ins.payload, rfl, by simp⟩
  rw [htext, ← List.nil_append (_ ++ behind)]
  apply ins.opcode.isWord_mnemonic.firstWord_append ins.opcode.mnemonic_ne_nil _ hbehind
  simp

theorem exists_fullText_eq_append {ins : Instruction} (h : ins.opcode.operand ≠ .none)
    : ∃ front, ins.fullText.toList = front ++ 'x' :: Hex.digits ins.payload := by
  unfold fullText
  cases hop : ins.opcode.operand with
  | none => exact absurd hop h
  | fixed length => exact ⟨ins.opcode.mnemonic.toList ++ " 0".toList, by simp⟩
  | prefixed width =>
    exact ⟨ins.opcode.mnemonic.toList ++ " 0x".toList
      ++ (Hex.ofNat (2 * width.bytes) ins.payload.length).toList ++ " 0".toList, by simp⟩

theorem fullText_injOn : Set.InjOn fullText {ins | ins.Fits} := by
  intro first hfirst second hsecond h
  have hopcode : first.opcode = second.opcode := by
    apply Opcode.mnemonic_injective
    rw [← String.toList_inj, ← firstWord_fullText, h, firstWord_fullText]
  rcases first with ⟨opcode, first⟩
  rcases second with ⟨_, second⟩
  dsimp only at hopcode
  subst hopcode
  by_cases hop : opcode.operand = .none
  . rw [(fits_iff_of_none hop).mp hfirst, (fits_iff_of_none hop).mp hsecond]
  . obtain ⟨front, hfront⟩ := @exists_fullText_eq_append ⟨opcode, first⟩ hop
    obtain ⟨front', hfront'⟩ := @exists_fullText_eq_append ⟨opcode, second⟩ hop
    have hmark : ∀ payload, 'x' ∉ Hex.digits payload := by
      intro payload
      apply Hex.notMem_digits
      decide
    rw [← String.toList_inj, hfront, hfront'] at h
    rw [Hex.digits_injective (eq_behind_last_mark (hmark first) (hmark second) h)]

theorem rawText_eq_append (ins : Instruction)
    : ins.rawText.toList
        =
      ins.opcode.mnemonic.toList ++ '<' :: ("0x".toList ++ Hex.byteDigits ins.opcode.byte
        ++ ">\x7b data:[".toList ++ (", ".intercalate (ins.payload.map Hex.ofByte)).toList
        ++ "] \x7d".toList) := by
  simp [rawText, Opcode.labelled, Hex.ofByte]

theorem filter_intercalate_ofByte (bytes : List UInt8)
    : (", ".intercalate (bytes.map Hex.ofByte)).toList.filter (· ∉ ", ".toList)
        =
      Hex.digits bytes := by
  have hdigit : ∀ n < 16, Nat.digitChar n ∉ ", ".toList := by decide
  rw [filter_intercalate]
  . simp [List.flatMap_map, Hex.ofByte, Hex.digits]
  . rw [List.forall_mem_map]
    intro byte _ c hc
    have hc : c ∈ Hex.digits [byte] := by simpa [Hex.ofByte, Hex.digits] using hc
    obtain ⟨n, hn, rfl⟩ := Hex.exists_digitChar_of_mem_digits hc
    exact hdigit n hn

theorem rawText_injective : Function.Injective rawText := by
  intro first second h
  rw [← String.toList_inj, rawText_eq_append, rawText_eq_append] at h
  have hmark : ∀ op : Opcode, '<' ∉ op.mnemonic.toList := by
    intro op
    apply op.notMem_mnemonic
    rfl
  obtain ⟨hmnemonic, h⟩ := eq_of_append_mark_eq (hmark _) (hmark _) h
  have hopcode := Opcode.mnemonic_injective (String.toList_inj.mp hmnemonic)
  rcases first with ⟨opcode, first⟩
  rcases second with ⟨_, second⟩
  dsimp only at hopcode
  subst hopcode
  rw [List.append_cancel_right_eq, List.append_cancel_left_eq] at h
  have hdigits : Hex.digits first = Hex.digits second := by
    rw [← filter_intercalate_ofByte, h, filter_intercalate_ofByte]
  rw [Hex.digits_injective hdigits]

end Instruction

section Scripts

variable {text : Instruction → String} (h : Set.InjOn text {ins | ins.Fits})

include h

theorem eq_of_map_text_eq {first second : List Instruction} (hfirst : ∀ ins ∈ first, ins.Fits)
    (hsecond : ∀ ins ∈ second, ins.Fits) (htexts : first.map text = second.map text)
    : first = second := by
  induction first generalizing second with
  | nil => simpa using htexts.symm
  | cons ins first ih =>
    cases second with
    | nil => contradiction
    | cons ins' second =>
      rw [List.forall_mem_cons] at hfirst hsecond
      rw [List.map_cons, List.map_cons, List.cons.injEq] at htexts
      rw [h hfirst.left hsecond.left htexts.left, ih hfirst.right hsecond.right htexts.right]

theorem scripts_injOn_of_text
    : Set.InjOn (fun script => (decode script).instructions.map text)
        {script | (decode script).error = none} := by
  intro first hfirst second hsecond htexts
  have hinstructions := eq_of_map_text_eq h (fun _ => fits_of_mem_decode)
    (fun _ => fits_of_mem_decode) htexts
  rw [← flatMap_bytes_decode hfirst, ← flatMap_bytes_decode hsecond, hinstructions]

end Scripts

theorem texts_lossless
    : Set.InjOn Instruction.fullText {ins | ins.Fits}
        ∧ Set.InjOn (fun script => (decode script).instructions.map Instruction.fullText)
            {script | (decode script).error = none}
        ∧ Function.Injective Instruction.rawText
        ∧ Set.InjOn (fun script => (decode script).instructions.map Instruction.rawText)
            {script | (decode script).error = none} := by
  refine ⟨Instruction.fullText_injOn, ?_, Instruction.rawText_injective, ?_⟩
  . exact scripts_injOn_of_text Instruction.fullText_injOn
  . exact scripts_injOn_of_text Instruction.rawText_injective.injOn

theorem texts_tell_pushed_byte
    : Instruction.Fits ⟨.data 1, [0x76]⟩ ∧ Instruction.Fits ⟨.pushData1, [0x76]⟩
        ∧ Instruction.fullText ⟨.data 1, [0x76]⟩ ≠ Instruction.fullText ⟨.pushData1, [0x76]⟩
        ∧ (decode [0x01, 0x76]).error = none ∧ (decode [0x4c, 0x01, 0x76]).error = none
        ∧ (decode [0x01, 0x76]).instructions.map Instruction.fullText
            ≠ (decode [0x4c, 0x01, 0x76]).instructions.map Instruction.fullText
        ∧ Instruction.fullText ⟨.dup, [0x76]⟩ = Instruction.fullText ⟨.dup, []⟩
        ∧ Instruction.rawText ⟨.dup, [0x76]⟩ ≠ Instruction.rawText ⟨.dup, []⟩ := by
  have hfits : Instruction.Fits ⟨.data 1, [0x76]⟩ := by decide
  have hfits' : Instruction.Fits ⟨.pushData1, [0x76]⟩ := by decide
  have hdecode : (decode [0x01, 0x76]).error = none := by decide +kernel
  have hdecode' : (decode [0x4c, 0x01, 0x76]).error = none := by decide +kernel
  obtain ⟨hfull, hscripts, hraw, -⟩ := texts_lossless
  refine ⟨hfits, hfits', hfull.ne hfits hfits' (by decide), hdecode, hdecode', ?_, rfl, ?_⟩
  . exact hscripts.ne hdecode hdecode' (by decide)
  . exact hraw.ne (by decide)

end ScriptAnalysis
