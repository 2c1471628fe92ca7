import ScriptAnalysis.Proofs.ClassCost
import ScriptAnalysis.Proofs.Listing
import ScriptAnalysis.Proofs.Multisig.Window

/-!
This module contains how the class of multisig scripts agrees with the terms of their check. The two
are told in different ways, one by a template for the whole script and the other by a look back
from the check. They differ on scripts that require more signatures than they have keys.
-/

namespace ScriptAnalysis

namespace Listing

theorem depthThrough_of_isPushOnly {instructions : List Instruction}
    (h : isPushOnly instructions = true) (depth : Nat)
    : depthThrough depth instructions = depth := by
  have hbranches : ∀ op ∈ [Opcode.opIf, .opNotIf, .opElse, .opEndIf], op.isPush = false := by
    decide
  simp only [List.forall_mem_cons] at hbranches
  obtain ⟨hif, hnotIf, helse, hendIf, -⟩ := hbranches
  induction instructions with
  | nil => rfl
  | cons ins instructions ih =>
    rw [isPushOnly, List.all_cons, Bool.and_eq_true] at h
    have hne : ∀ op : Opcode, op.isPush = false → ins.opcode ≠ op := by
      rintro op hop rfl
      simp [hop] at h
    have hdepth : depthBehind (depthAt depth ins.opcode) ins.opcode = depth := by
      simp [depthAt, depthBehind, hne _ hif, hne _ hnotIf, hne _ helse, hne _ hendIf]
    rw [depthThrough_cons, hdepth]
    exact ih h.right

theorem note_eq_ite {preceding : List Instruction} {required : Nat} {keys : List (List UInt8)}
    (h : MultisigTerms.ofPreceding? preceding
      = if required ≤ keys.length then some ⟨required, keys⟩ else none)
    : note preceding .checkMultisig
        =
      if required ≤ keys.length then
        " // " ++ toString required ++ " of " ++ toString keys.length
      else
        "" := by
  rw [note, if_pos (by decide), h]
  by_cases hle : required ≤ keys.length
  . simp only [if_pos hle]
    rfl
  . simp only [if_neg hle]

theorem listing_concat_check {front : List Instruction} {check : Instruction}
    (hfits : ∀ ins ∈ front ++ [check], ins.Fits) (hpush : isPushOnly front = true)
    (hcheck : check.opcode = .checkMultisig)
    : ∃ text, listing ((front ++ [check]).flatMap Instruction.bytes).dropLast = .ok text
        ∧ listing ((front ++ [check]).flatMap Instruction.bytes)
          = .ok (text ++ "OP_CHECKMULTISIG" ++ note front.reverse .checkMultisig ++ "\n") := by
  have hmnemonic : Opcode.checkMultisig.mnemonic = "OP_CHECKMULTISIG" := by
    decide +kernel
  have hnone : check.opcode.operand = .none := by
    rw [hcheck]
    decide
  have hline : lineText front.reverse check
      = "OP_CHECKMULTISIG" ++ note front.reverse .checkMultisig := by
    simp only [lineText, hnone]
    rw [hcheck, hmnemonic]
  have hdepth : depthAt 0 check.opcode = 0 := by
    rw [hcheck]
    decide
  refine ⟨render (linesBehind 0 [] front), ?_, ?_⟩
  . have hpayload := (Instruction.fits_iff_of_none hnone).mp (hfits check (by simp))
    have hbytes : check.bytes = [check.opcode.byte] := by
      rw [Instruction.bytes_of_none hnone, hpayload]
    rw [List.flatMap_append, List.flatMap_singleton, hbytes, List.dropLast_concat]
    apply listing_of_complete
    apply decode_flatMap
    intro ins hins
    exact hfits ins (by simp [hins])
  . rw [listing_of_complete (decode_flatMap hfits), linesBehind_append,
      depthThrough_of_isPushOnly hpush, render_append]
    simp [linesBehind, lineBehind, nested?_of_operand_none hnone, hline, hdepth, Line.render,
      String.append_assoc]

end Listing

namespace ScriptClass

theorem ofInstructions_of_terms {instructions : List Instruction} {terms : MultisigTerms}
    (hterms : MultisigTerms.atIndex? instructions (instructions.length - 1) = some terms)
    (hcheck : instructions.getLast?.map (·.opcode) = some .checkMultisig)
    (hlength : instructions.length = terms.signers + 3)
    : ofInstructions instructions = .multisig := by
  obtain ⟨before, first, keys, last, behind, rfl, hindex, hwindow⟩
    := MultisigTerms.atIndex_eq_some_iff.mp hterms
  have hsigners := hwindow.signers_eq
  have hrequired := hwindow.required_le
  have hle := hwindow.keys_le
  -- The length leaves no room for anything but the window and the check.
  simp only [List.length_append, List.length_cons] at hindex hlength
  obtain rfl : before = [] := by
    apply List.eq_nil_of_length_eq_zero
    omega
  obtain ⟨check, rfl⟩ : ∃ check, behind = [check] := by
    apply List.length_eq_one_iff.mp
    simp only [List.length_nil] at hlength
    omega
  have hcheck : check.opcode = .checkMultisig := by
    simpa [List.getLast?_cons] using hcheck
  rw [ofInstructions_eq_iff (by decide)]
  apply recognises_multisig hwindow.keys_pos hle _ _ hwindow.last_eq hcheck
  . rw [hwindow.first_eq, Opcode.isSmallInt, Opcode.smallInt_smallInt? (by omega)]
    rfl
  . intro key hkey
    simpa [Limits.isKeySize] using hwindow.isKeySize key hkey

theorem terms_of_multisig {first last : Instruction} {keys : List Instruction} {required : Nat}
    (hpos : 1 ≤ keys.length) (hle : keys.length ≤ 16)
    (hfirst : first.opcode.smallInt? = some required)
    (hkeys : ∀ key ∈ keys, Limits.isKeySize key.payload.length = true)
    (hfits : ∀ key ∈ keys, key.Fits) (hlast : last.opcode = .smallInt keys.length)
    : MultisigTerms.ofPreceding? (first :: keys ++ [last]).reverse
        =
      if required ≤ keys.length then some ⟨required, keys.map (·.payload)⟩ else none := by
  have hpushes : ∀ key ∈ keys, MultisigTerms.pushesKey key = true := by
    intro key hkey
    have hdata := (hfits key hkey).carriesData_of_isKeySize (hkeys key hkey)
    simp [MultisigTerms.pushesKey, hdata, hkeys key hkey]
  have hlast : last.opcode.smallInt? = some keys.length := by
    rw [hlast, Opcode.smallInt_smallInt? hle]
  simpa using MultisigTerms.ofPreceding_eq_ite hpos hlast hpushes hfirst []

theorem multisig_agrees_with_terms {script : List UInt8} {instructions : List Instruction}
    (h : decode script = ⟨instructions, none⟩)
    : (∀ terms, MultisigTerms.atIndex? instructions (instructions.length - 1) = some terms
          → instructions.getLast?.map (·.opcode) = some .checkMultisig
          → instructions.length = terms.signers + 3
          → ofInstructions instructions = .multisig)
      ∧ (ofInstructions instructions = .multisig
          → ∃ first keys last check required,
              instructions = first :: (keys ++ [last, check])
                ∧ first.opcode.smallInt? = some required
                ∧ keys.length = instructions.length - 3
                ∧ MultisigTerms.atIndex? instructions (instructions.length - 1)
                  = (if required ≤ keys.length then
                      some ⟨required, keys.map (·.payload)⟩
                    else
                      none)
                ∧ ∃ text, listing script.dropLast = .ok text
                  ∧ listing script = .ok (text ++ "OP_CHECKMULTISIG"
                      ++ (if required ≤ keys.length then
                          " // " ++ toString required ++ " of " ++ toString keys.length
                        else
                          "")
                      ++ "\n")) := by
  constructor
  . intro terms
    exact ofInstructions_of_terms
  . intro hclass
    rw [ofInstructions_eq_iff (by decide)] at hclass
    obtain ⟨first, keys, last, check, rfl, hpos, hle, hsmallInt, hkeys, hlast, hcheck⟩
      := exists_of_recognises_multisig hclass
    obtain ⟨hfits, rfl⟩ := decode_eq_complete_iff.mp h
    obtain ⟨required, hfirst⟩ := Option.isSome_iff_exists.mp hsmallInt
    have hsplit : first :: (keys ++ [last, check]) = (first :: keys ++ [last]) ++ [check] := by
      simp
    have hfitsKeys : ∀ key ∈ keys, key.Fits := by
      intro key hkey
      apply hfits
      simp [hkey]
    have hterms := terms_of_multisig hpos hle hfirst hkeys hfitsKeys hlast
    have hpush := isPushOnly_in_front_of_check hsmallInt hkeys hfitsKeys hle hlast
    refine ⟨first, keys, last, check, required, rfl, hfirst, by simp, ?_, ?_⟩
    . rw [hsplit, MultisigTerms.atIndex_length_sub_one, hterms]
    . rw [hsplit] at hfits ⊢
      obtain ⟨text, hfront, hlisting⟩ := Listing.listing_concat_check hfits hpush hcheck
      refine ⟨text, hfront, ?_⟩
      rw [← List.length_map (·.payload)] at hterms
      rw [hlisting, Listing.note_eq_ite hterms, List.length_map]

def checkOfOneKey (required : UInt8) : List UInt8 :=
  [required, 0x21] ++ List.replicate 33 0x02 ++ [0x51, 0xae]

theorem twoOfOne_lists_no_terms
    : ofInstructions (decode (checkOfOneKey 0x51)).instructions = .multisig
        ∧ ofInstructions (decode (checkOfOneKey 0x52)).instructions = .multisig
        ∧ MultisigTerms.atIndex? (decode (checkOfOneKey 0x52)).instructions 3 = none
        ∧ ∃ text, listing (checkOfOneKey 0x52) = .ok (text ++ "OP_CHECKMULTISIG\n") := by
  have hone : decode (checkOfOneKey 0x51) = ⟨(decode (checkOfOneKey 0x51)).instructions, none⟩ := by
    decide +kernel
  have htwo : decode (checkOfOneKey 0x52) = ⟨(decode (checkOfOneKey 0x52)).instructions, none⟩ := by
    decide +kernel
  have hlength : (decode (checkOfOneKey 0x52)).instructions.length = 4 := by decide +kernel
  have hclass : ofInstructions (decode (checkOfOneKey 0x52)).instructions = .multisig := by
    decide +kernel
  have hopening : (decode (checkOfOneKey 0x52)).instructions.head?
      = some ⟨.smallInt 2, []⟩ := by
    decide +kernel
  obtain ⟨hread, -⟩ := multisig_agrees_with_terms hone
  obtain ⟨-, hmultisig⟩ := multisig_agrees_with_terms htwo
  refine ⟨?_, hclass, ?_⟩
  . apply hread ⟨1, [List.replicate 33 0x02]⟩
    all_goals decide +kernel
  . obtain ⟨first, keys, last, check, required, heq, hfirst, hkeys, hterms, text, -, hlisting⟩
      := hmultisig hclass
    rw [heq, List.head?_cons, Option.some.injEq] at hopening
    obtain rfl : 2 = required := by
      simpa [hopening, Opcode.smallInt_smallInt?] using hfirst
    rw [hlength] at hkeys hterms
    rw [if_neg (by omega)] at hterms hlisting
    exact ⟨hterms, text, by simpa [String.append_assoc] using hlisting⟩

end ScriptClass

end ScriptAnalysis
