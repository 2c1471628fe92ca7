import ScriptAnalysis.Proofs.Removal
import ScriptAnalysis.Proofs.SigOps.Append

/-!
This module contains what the removal of data does to the signature operations of a script. It takes
only instructions that carry data, which cost nothing and declare no keys, so at worst the script
costs what it did. Counted precisely it can cost less: with the pushes between them gone, a number
of keys may come to stand right in front of a multisig check.
-/

namespace ScriptAnalysis

namespace SigOps

section Declared

variable {previous check : Opcode} {keys : Nat}

theorem DeclaresKeys.previous_carriesData (h : DeclaresKeys previous check keys)
    : previous.carriesData = false := by
  obtain ⟨-, hle, rfl, -⟩ := h
  simp [Opcode.carriesData, Opcode.operand_smallInt hle]

theorem DeclaresKeys.check_carriesData (h : DeclaresKeys previous check keys)
    : check.carriesData = false := by
  obtain ⟨-, -, -, rfl | rfl⟩ := h
  all_goals decide

theorem DeclaresKeys.saved_pos (h : DeclaresKeys previous check keys) : 0 < saved [keys] := by
  obtain ⟨-, hle, -⟩ := h
  rw [saved, List.map_singleton, List.sum_singleton, Limits.maxMultisigKeys]
  omega

theorem declaredKeys_cons (ins : Instruction) (instructions : List Instruction)
    : declaredKeys (ins :: instructions)
        =
      (declaredAcross? [ins] instructions).toList ++ declaredKeys instructions := by
  apply declaredKeys_append [ins]

theorem declaredKeys_sublist_append (front back : List Instruction)
    : (declaredKeys back).Sublist (declaredKeys (front ++ back)) := by
  rw [declaredKeys_append]
  apply List.sublist_append_right

theorem saved_nil : saved [] = 0 := by
  rfl

theorem saved_declaredKeys_append (front back : List Instruction)
    : saved (declaredKeys (front ++ back))
        =
      saved (declaredKeys front) + saved (declaredAcross? front back).toList
        + saved (declaredKeys back) := by
  rw [declaredKeys_append, saved_append, saved_append]

theorem saved_le_of_sublist {fewer more : List Nat} (h : fewer.Sublist more)
    : saved fewer ≤ saved more := by
  apply (h.map _).sum_le_sum
  intro keys _
  apply Nat.zero_le

end Declared

section Data

variable {ins : Instruction}

theorem declaredAcross?_of_carriesData_left (h : ins.opcode.carriesData = true)
    (back : List Instruction)
    : declaredAcross? [ins] back = none := by
  rw [declaredAcross?_eq_none_iff]
  rintro ⟨last, first, keys, hlast, -, hkeys⟩
  rw [List.getLast?_singleton, Option.some.injEq] at hlast
  have := hkeys.previous_carriesData
  rw [← hlast, h] at this
  contradiction

theorem declaredAcross?_of_carriesData_right (h : ins.opcode.carriesData = true)
    (front back : List Instruction)
    : declaredAcross? front (ins :: back) = none := by
  rw [declaredAcross?_eq_none_iff]
  rintro ⟨last, first, keys, -, hfirst, hkeys⟩
  rw [List.head?_cons, Option.some.injEq] at hfirst
  have := hkeys.check_carriesData
  rw [← hfirst, h] at this
  contradiction

theorem declaredAcross?_append_of_carriesData {gap : List Instruction} (hne : gap ≠ [])
    (h : ∀ ins ∈ gap, ins.opcode.carriesData = true) (front back : List Instruction)
    : declaredAcross? front (gap ++ back) = none := by
  cases gap with
  | nil => contradiction
  | cons ins gap => apply declaredAcross?_of_carriesData_right (h ins List.mem_cons_self)

theorem declaredKeys_cons_of_carriesData (h : ins.opcode.carriesData = true)
    (instructions : List Instruction)
    : declaredKeys (ins :: instructions) = declaredKeys instructions := by
  rw [declaredKeys_cons, declaredAcross?_of_carriesData_left h]
  rfl

theorem count_of_carriesData (h : ins.opcode.carriesData = true) (counting : Counting)
    : count counting [ins] = 0 := by
  rw [count, count.go, cost_of_isPush (Opcode.isPush_of_carriesData h)]
  rfl

end Data

section Filter

def DropsData (keep : Instruction → Bool) (instructions : List Instruction) : Prop :=
  ∀ ins ∈ instructions, keep ins = false → ins.opcode.carriesData = true

def ClosesGap (keep : Instruction → Bool) (instructions : List Instruction) : Prop :=
  ∃ (front gap back : List Instruction) (previous check : Instruction) (keys : Nat),
    instructions = front ++ previous :: (gap ++ check :: back) ∧ gap ≠ []
      ∧ (∀ ins ∈ gap, keep ins = false) ∧ DeclaresKeys previous.opcode check.opcode keys

variable {keep : Instruction → Bool} {instructions : List Instruction}

theorem DropsData.of_sublist {part : List Instruction} (h : DropsData keep instructions)
    (hpart : part.Sublist instructions)
    : DropsData keep part := by
  intro ins hins
  apply h ins (hpart.subset hins)

theorem DropsData.keep_of_mem {ins : Instruction} (h : DropsData keep instructions)
    (hins : ins ∈ instructions) (hdata : ins.opcode.carriesData = false)
    : keep ins = true := by
  rw [← Bool.not_eq_false]
  intro hkeep
  rw [h ins hins hkeep] at hdata
  contradiction

theorem ClosesGap.cons (h : ClosesGap keep instructions) (ins : Instruction)
    : ClosesGap keep (ins :: instructions) := by
  obtain ⟨front, gap, back, previous, check, keys, rfl, hgap⟩ := h
  exact ⟨ins :: front, gap, back, previous, check, keys, rfl, hgap⟩

theorem filter_gap {gap back : List Instruction} {check : Instruction}
    (hgap : ∀ ins ∈ gap, keep ins = false) (hcheck : keep check = true)
    : (gap ++ check :: back).filter keep = check :: back.filter keep := by
  have hnil : gap.filter keep = [] := by
    rw [List.filter_eq_nil_iff]
    simpa using hgap
  rw [List.filter_append, hnil, List.nil_append, List.filter_cons_of_pos hcheck]

theorem isPushOnly_filter (h : DropsData keep instructions)
    : isPushOnly (instructions.filter keep) = isPushOnly instructions := by
  rw [Bool.eq_iff_iff]
  simp only [isPushOnly, List.all_eq_true, List.mem_filter]
  constructor
  . intro hkept ins hins
    cases hkeep : keep ins with
    | true => apply hkept ins ⟨hins, hkeep⟩
    | false => apply Opcode.isPush_of_carriesData (h ins hins hkeep)
  . intro hall ins hins
    apply hall ins hins.left

theorem count_worstCase_filter (h : DropsData keep instructions)
    : count .worstCase (instructions.filter keep) = count .worstCase instructions := by
  induction instructions with
  | nil => rfl
  | cons ins instructions ih =>
    have hrest := ih (h.of_sublist (List.sublist_cons_self ..))
    rw [← List.singleton_append, List.filter_append, count_worstCase_append,
      count_worstCase_append, hrest]
    cases hkeep : keep ins with
    | true => rw [List.filter_singleton, hkeep, cond_true]
    | false =>
      have hdata := h ins List.mem_cons_self hkeep
      rw [List.filter_singleton, hkeep, cond_false, count_of_carriesData hdata, count_nil]

-- What is declared is declared by an instruction and the one behind it, and both are kept.
theorem declaredKeys_sublist_filter (h : DropsData keep instructions)
    : (declaredKeys instructions).Sublist (declaredKeys (instructions.filter keep)) := by
  induction instructions with
  | nil => apply List.Sublist.refl
  | cons ins instructions ih =>
    have hrest := ih (h.of_sublist (List.sublist_cons_self ..))
    cases hkeep : keep ins with
    | false =>
      rw [List.filter_cons_of_neg (by simp [hkeep])]
      rwa [declaredKeys_cons_of_carriesData (h ins List.mem_cons_self hkeep)]
    | true =>
      rw [List.filter_cons_of_pos hkeep]
      cases instructions with
      | nil => apply List.Sublist.refl
      | cons second instructions =>
        cases hsecond : keep second with
        | true =>
          rw [List.filter_cons_of_pos hsecond] at hrest ⊢
          rw [declaredKeys_cons_cons, declaredKeys_cons_cons]
          apply hrest.append_left
        | false =>
          have hdata := h second (by simp) hsecond
          rw [declaredKeys_cons, declaredAcross?_of_carriesData_right hdata]
          apply hrest.trans
          apply declaredKeys_sublist_append [ins]

theorem declaredAcross?_filter {ins : Instruction} (h : DropsData keep instructions)
    (hgap : ¬ ClosesGap keep (ins :: instructions))
    : declaredAcross? [ins] (instructions.filter keep) = declaredAcross? [ins] instructions := by
  cases instructions with
  | nil => rfl
  | cons second instructions =>
    cases hsecond : keep second with
    | true =>
      rw [List.filter_cons_of_pos hsecond]
      rfl
    | false =>
      rw [declaredAcross?_of_carriesData_right (h second List.mem_cons_self hsecond)]
      rw [declaredAcross?_eq_none_iff]
      rintro ⟨last, check, keys, hlast, hcheck, hkeys⟩
      rw [List.getLast?_singleton, Option.some.injEq] at hlast
      subst hlast
      -- The check is the first instruction that is kept, so what stands in front of it is a gap.
      rw [List.head?_filter, List.find?_eq_some_iff_append] at hcheck
      obtain ⟨hkeep, gap, back, hinstructions, hdropped⟩ := hcheck
      apply hgap
      refine ⟨[], gap, back, ins, check, keys, ?_, ?_, ?_, hkeys⟩
      . rw [hinstructions]
        rfl
      . rintro rfl
        cases hinstructions
        rw [hkeep] at hsecond
        contradiction
      . simpa using hdropped

theorem declaredKeys_filter_of_not_closesGap (h : DropsData keep instructions)
    (hgap : ¬ ClosesGap keep instructions)
    : declaredKeys (instructions.filter keep) = declaredKeys instructions := by
  induction instructions with
  | nil => rfl
  | cons ins instructions ih =>
    have hdata := h.of_sublist (List.sublist_cons_self ..)
    have hrest := ih hdata (fun hrest => hgap (hrest.cons ins))
    cases hkeep : keep ins with
    | false =>
      rw [List.filter_cons_of_neg (by simp [hkeep]), hrest]
      rw [declaredKeys_cons_of_carriesData (h ins List.mem_cons_self hkeep)]
    | true =>
      rw [List.filter_cons_of_pos hkeep, declaredKeys_cons, declaredKeys_cons, hrest]
      rw [declaredAcross?_filter hdata hgap]

-- In front of the gap and behind it no less is saved than before, and across it something more.
theorem saved_lt_of_closesGap (h : DropsData keep instructions) (hgap : ClosesGap keep instructions)
    : saved (declaredKeys instructions) < saved (declaredKeys (instructions.filter keep)) := by
  obtain ⟨front, gap, back, previous, check, keys, rfl, hne, hdropped, hkeys⟩ := hgap
  have hprevious : keep previous = true := h.keep_of_mem (by simp) hkeys.previous_carriesData
  have hcheck : keep check = true := h.keep_of_mem (by simp) hkeys.check_carriesData
  have hfilter : (gap ++ check :: back).filter keep = check :: back.filter keep :=
    filter_gap hdropped hcheck
  have hacross : declaredAcross? (front ++ [previous]) (gap ++ check :: back) = none := by
    apply declaredAcross?_append_of_carriesData hne
    intro ins hins
    apply h ins (by simp [hins]) (hdropped ins hins)
  have hclosed : declaredAcross? ((front ++ [previous]).filter keep) (check :: back.filter keep)
      = some keys := by
    rw [declaredAcross?_eq_some_iff]
    refine ⟨previous, check, ?_, rfl, hkeys⟩
    rw [List.filter_append, List.filter_cons_of_pos hprevious]
    simp
  have hbefore := saved_declaredKeys_append (front ++ [previous]) (gap ++ check :: back)
  have hafter := saved_declaredKeys_append ((front ++ [previous]).filter keep)
    (check :: back.filter keep)
  rw [hacross, Option.toList_none, saved_nil] at hbefore
  rw [hclosed, Option.toList_some] at hafter
  rw [List.append_cons] at h ⊢
  have hfront := saved_le_of_sublist
    (declaredKeys_sublist_filter (h.of_sublist (List.sublist_append_left ..)))
  have hback := saved_le_of_sublist
    (declaredKeys_sublist_filter (h.of_sublist (List.sublist_append_right ..)))
  have hpos := hkeys.saved_pos
  rw [hfilter] at hback
  rw [List.filter_append, hfilter]
  omega

theorem count_precise_filter (h : DropsData keep instructions)
    : count .precise (instructions.filter keep) + saved (declaredKeys (instructions.filter keep))
        =
      count .precise instructions + saved (declaredKeys instructions) := by
  rw [← count_worstCase_eq, ← count_worstCase_eq, count_worstCase_filter h]

theorem count_precise_filter_le (h : DropsData keep instructions)
    : count .precise (instructions.filter keep) ≤ count .precise instructions := by
  have hcount := count_precise_filter h
  have hsaved := saved_le_of_sublist (declaredKeys_sublist_filter h)
  omega

theorem count_precise_filter_lt_iff (h : DropsData keep instructions)
    : count .precise (instructions.filter keep) < count .precise instructions
        ↔
      ClosesGap keep instructions := by
  have hcount := count_precise_filter h
  constructor
  . intro hlt
    by_contra hgap
    rw [declaredKeys_filter_of_not_closesGap h hgap] at hcount
    omega
  . intro hgap
    have hsaved := saved_lt_of_closesGap h hgap
    omega

end Filter

theorem dropsData_keptWithout {data : List UInt8} (hdata : data ≠ []) (script : List UInt8)
    : DropsData (·.KeptWithout data) (decode script).instructions := by
  intro ins hins hremoved
  apply (fits_of_mem_decode hins).carriesData
  intro hpayload
  simp [Instruction.KeptWithout, hpayload, hdata] at hremoved

theorem removeData_hides_no_check {data : List UInt8} (hdata : data ≠ []) (script : List UInt8)
    : (removeData data (decode script).instructions).filter (·.payload = [])
          = (decode script).instructions.filter (·.payload = [])
      ∧ count .worstCase (removeData data (decode script).instructions)
          = count .worstCase (decode script).instructions
      ∧ isPushOnly (removeData data (decode script).instructions)
          = isPushOnly (decode script).instructions
      ∧ count .precise (removeData data (decode script).instructions)
          ≤ count .precise (decode script).instructions
      ∧ (count .precise (removeData data (decode script).instructions)
            < count .precise (decode script).instructions
          ↔ ∃ (front gap back : List Instruction) (previous check : Instruction) (keys : Nat),
              (decode script).instructions = front ++ previous :: (gap ++ check :: back)
                ∧ gap ≠ [] ∧ (∀ ins ∈ gap, ¬ ins.KeptWithout data)
                ∧ DeclaresKeys previous.opcode check.opcode keys) := by
  have hdrops := dropsData_keptWithout hdata script
  rw [removeData_eq_filter]
  refine ⟨?_, ?_, ?_, ?_, ?_⟩
  . rw [List.filter_filter]
    apply List.filter_congr
    intro ins _
    rw [Bool.and_eq_left_iff_imp]
    simp +contextual [Instruction.KeptWithout, hdata]
  . apply count_worstCase_filter hdrops
  . apply isPushOnly_filter hdrops
  . apply count_precise_filter_le hdrops
  . rw [count_precise_filter_lt_iff hdrops]
    simp [ClosesGap]

def gappedCheck : List UInt8 :=
  [0x52, 0x02, 0xaa, 0xbb, 0xae, 0x05]

theorem removeData_gappedCheck
    : [0xbb] ≠ ([] : List UInt8)
        ∧ count .worstCase (removeData [0xbb] (decode gappedCheck).instructions)
            = count .worstCase (decode gappedCheck).instructions
        ∧ count .precise (removeData [0xbb] (decode gappedCheck).instructions)
            < count .precise (decode gappedCheck).instructions := by
  have hdata : [0xbb] ≠ ([] : List UInt8) := by decide
  obtain ⟨-, hworst, -, -, hprecise⟩ := removeData_hides_no_check hdata gappedCheck
  refine ⟨hdata, hworst, ?_⟩
  rw [hprecise]
  refine ⟨[], [⟨.data 2, [0xaa, 0xbb]⟩], [], ⟨.smallInt 2, []⟩, ⟨.checkMultisig, []⟩, 2, ?_⟩
  have hinstructions : (decode gappedCheck).instructions
      = [⟨.smallInt 2, []⟩, ⟨.data 2, [0xaa, 0xbb]⟩, ⟨.checkMultisig, []⟩] := by
    decide +kernel
  refine ⟨hinstructions, by decide, by decide, ?_⟩
  simp [DeclaresKeys]

end SigOps

end ScriptAnalysis
