import ScriptAnalysis.Proofs.Append
import ScriptAnalysis.Proofs.SigOps.Saving

namespace ScriptAnalysis

namespace SigOps

def declaredAcross? (front back : List Instruction) : Option Nat :=
  front.getLast?.bind fun last => back.head?.bind fun first =>
    declaredKeys? last.opcode first.opcode

theorem declaredAcross?_eq_some_iff {front back : List Instruction} {keys : Nat}
    : declaredAcross? front back = some keys
        ↔
      ∃ last first, front.getLast? = some last ∧ back.head? = some first
        ∧ DeclaresKeys last.opcode first.opcode keys := by
  simp only [declaredAcross?, Option.bind_eq_some_iff, declaredKeys?_eq_some_iff]
  constructor
  . rintro ⟨last, hlast, first, hfirst, hkeys⟩
    exact ⟨last, first, hlast, hfirst, hkeys⟩
  . rintro ⟨last, first, hlast, hfirst, hkeys⟩
    exact ⟨last, hlast, first, hfirst, hkeys⟩

theorem declaredAcross?_eq_none_iff {front back : List Instruction}
    : declaredAcross? front back = none
        ↔
      ¬ ∃ last first keys, front.getLast? = some last ∧ back.head? = some first
          ∧ DeclaresKeys last.opcode first.opcode keys := by
  rw [Option.eq_none_iff_forall_ne_some]
  simp only [ne_eq, declaredAcross?_eq_some_iff]
  constructor
  . rintro h ⟨last, first, keys, hkeys⟩
    exact h keys ⟨last, first, hkeys⟩
  . rintro h keys ⟨last, first, hkeys⟩
    exact h ⟨last, first, keys, hkeys⟩

theorem declaredKeys_append (front back : List Instruction)
    : declaredKeys (front ++ back)
        =
      declaredKeys front ++ (declaredAcross? front back).toList ++ declaredKeys back := by
  induction front with
  | nil => rfl
  | cons ins front ih =>
    cases front with
    | cons second front =>
      rw [List.cons_append, List.cons_append, declaredKeys_cons_cons, declaredKeys_cons_cons,
        ← List.cons_append, ih]
      simp [declaredAcross?]
    | nil =>
      cases back with
      | nil => rfl
      | cons first back =>
        rw [List.singleton_append, declaredKeys_cons_cons]
        rfl

theorem count.go_worstCase_congr (previous other : Option Opcode) (acc : Nat)
    (instructions : List Instruction)
    : count.go .worstCase previous acc instructions
        =
      count.go .worstCase other acc instructions := by
  cases instructions <;> rfl

theorem count_worstCase_append (front back : List Instruction)
    : count .worstCase (front ++ back) = count .worstCase front + count .worstCase back := by
  unfold count
  rw [count.go_append, count.go_worstCase_congr _ none, count.go_eq_add]

theorem count_precise_append (front back : List Instruction)
    : count .precise (front ++ back) + saved (declaredAcross? front back).toList
        =
      count .precise front + count .precise back := by
  have hworst := count_worstCase_append front back
  rw [count_worstCase_eq, count_worstCase_eq, count_worstCase_eq, declaredKeys_append,
    saved_append, saved_append] at hworst
  omega

theorem count_le_of_prefix {front whole : List Instruction} (h : front <+: whole)
    (counting : Counting)
    : count counting front ≤ count counting whole := by
  obtain ⟨back, rfl⟩ := h
  unfold count
  rw [count.go_append, count.go_eq_add counting _ (count.go ..)]
  apply Nat.le_add_right

theorem ofSpending_false (signatureScript outputScript : List UInt8)
    : ofSpending signatureScript outputScript false
        =
      count .precise (decode outputScript).instructions := by
  rfl

/--
A script that decodes in full adds to the signature operations of whatever stands behind it what it
has alone, less what the precise count saves on a check that is declared its keys across the seam.
However a script is cut, the part in front of the cut has no more of them than the whole.
-/
theorem sigOps_piecewise (front back signatureScript : List UInt8)
    : (∀ instructions, decode front = ⟨instructions, none⟩
          → ofScript (front ++ back) = ofScript front + ofScript back
            ∧ (∀ last first keys, instructions.getLast? = some last
                → (decode back).instructions.head? = some first
                → DeclaresKeys last.opcode first.opcode keys
                → ofSpending signatureScript (front ++ back) false + (20 - keys)
                    = ofSpending signatureScript front false
                      + ofSpending signatureScript back false)
            ∧ ((¬ ∃ last first keys, instructions.getLast? = some last
                  ∧ (decode back).instructions.head? = some first
                  ∧ DeclaresKeys last.opcode first.opcode keys)
                → ofSpending signatureScript (front ++ back) false
                    = ofSpending signatureScript front false
                      + ofSpending signatureScript back false))
      ∧ ofScript front ≤ ofScript (front ++ back)
      ∧ ofSpending signatureScript front false
          ≤ ofSpending signatureScript (front ++ back) false := by
  have hprefix := decode_prefix (List.prefix_append front back)
  refine ⟨?_, ?_, ?_⟩
  . intro instructions hdecode
    have happend := decode_append hdecode back
    have hprecise := count_precise_append instructions (decode back).instructions
    simp only [ofScript, ofSpending_false, happend, hdecode]
    refine ⟨count_worstCase_append _ _, ?_, ?_⟩
    . intro last first keys hlast hfirst hkeys
      rw [declaredAcross?_eq_some_iff.mpr ⟨last, first, hlast, hfirst, hkeys⟩] at hprecise
      exact hprecise
    . intro hnone
      rw [declaredAcross?_eq_none_iff.mpr hnone] at hprecise
      exact hprecise
  . apply count_le_of_prefix hprefix
  . apply count_le_of_prefix hprefix

theorem sigOps_of_check_cut_from_keys
    : ofScript [0xac, 0x52, 0xae] = ofScript [0xac, 0x52] + ofScript [0xae]
        ∧ ofSpending [] [0xac, 0x52, 0xae] false + 18
            = ofSpending [] [0xac, 0x52] false + ofSpending [] [0xae] false
        ∧ ofSpending [] [0x52, 0xac, 0xae] false
            = ofSpending [] [0x52, 0xac] false + ofSpending [] [0xae] false := by
  have hkeys : decode [0xac, 0x52] = ⟨[⟨.checkSig, []⟩, ⟨.smallInt 2, []⟩], none⟩ := by
    decide +kernel
  have hsig : decode [0x52, 0xac] = ⟨[⟨.smallInt 2, []⟩, ⟨.checkSig, []⟩], none⟩ := by
    decide +kernel
  have hcheck : (decode [0xae]).instructions = [⟨.checkMultisig, []⟩] := by
    decide +kernel
  obtain ⟨hdeclared, -, -⟩ := sigOps_piecewise [0xac, 0x52] [0xae] []
  obtain ⟨hundeclared, -, -⟩ := sigOps_piecewise [0x52, 0xac] [0xae] []
  obtain ⟨hworst, hsaved, -⟩ := hdeclared _ hkeys
  obtain ⟨-, -, hkept⟩ := hundeclared _ hsig
  refine ⟨hworst, ?_, hkept ?_⟩
  . have hdeclares : DeclaresKeys (.smallInt 2) .checkMultisig 2 := by
      exact ⟨by decide, by decide, rfl, .inl rfl⟩
    exact hsaved ⟨.smallInt 2, []⟩ ⟨.checkMultisig, []⟩ 2 rfl (by rw [hcheck]; rfl) hdeclares
  . rintro ⟨last, first, keys, hlast, -, -, hle, hopcode, -⟩
    cases hlast
    have hpush := Opcode.isPush_smallInt hle
    rw [← hopcode] at hpush
    contradiction

end SigOps

end ScriptAnalysis
