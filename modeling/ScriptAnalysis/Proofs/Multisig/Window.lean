import Mathlib.Data.Nat.PSub
import ScriptAnalysis.Proofs.Multisig

/-!
This module contains from which instructions the terms of a multisig check are read. They form a
window right in front of the check: the number of required signatures, the keys, and the number of
keys. What stands around the window does not matter, and behind the end of a script there is none.
-/

namespace ScriptAnalysis

namespace MultisigTerms

structure Window (first : Instruction) (keys : List Instruction) (last : Instruction)
    (terms : MultisigTerms) : Prop where
  keys_pos : 1 ≤ keys.length
  keys_le : keys.length ≤ 16
  last_eq : last.opcode = .smallInt keys.length
  first_eq : first.opcode = .smallInt terms.required
  required_le : terms.required ≤ keys.length
  carriesData : ∀ key ∈ keys, key.opcode.carriesData = true
  isKeySize : ∀ key ∈ keys, key.payload.length = 33 ∨ key.payload.length = 65
  signers_eq : terms.signers = keys.length
  keys_eq : terms.keys = keys.map (·.payload)

theorem pushesKey_iff {key : Instruction}
    : pushesKey key = true
        ↔
      key.opcode.carriesData = true ∧ (key.payload.length = 33 ∨ key.payload.length = 65) := by
  simp [pushesKey, Limits.isKeySize]

section Window

variable {first last : Instruction} {keys : List Instruction} {terms : MultisigTerms}

theorem window_iff
    : Window first keys last terms
        ↔
      1 ≤ keys.length ∧ last.opcode.smallInt? = some keys.length
        ∧ (∀ key ∈ keys, pushesKey key = true) ∧ first.opcode.smallInt? = some terms.required
        ∧ terms.required ≤ keys.length ∧ terms.keys = keys.map (·.payload) := by
  simp only [Opcode.smallInt?_eq_some_iff, pushesKey_iff]
  constructor
  . intro h
    have hle := h.keys_le
    have hrequired := h.required_le
    exact ⟨h.keys_pos, ⟨hle, h.last_eq⟩, fun key hkey => ⟨h.carriesData key hkey,
      h.isKeySize key hkey⟩, ⟨by omega, h.first_eq⟩, hrequired, h.keys_eq⟩
  . rintro ⟨hpos, ⟨hle, hlast⟩, hkeys, ⟨-, hfirst⟩, hrequired, heq⟩
    have hsigners : terms.signers = keys.length := by simp [signers, heq]
    exact ⟨hpos, hle, hlast, hfirst, hrequired, fun key hkey => (hkeys key hkey).left,
      fun key hkey => (hkeys key hkey).right, hsigners, heq⟩

theorem Window.ofPreceding (h : Window first keys last terms) (before : List Instruction)
    : ofPreceding? (last :: (keys.reverse ++ first :: before)) = some terms := by
  obtain ⟨hpos, hlast, hkeys, hfirst, hle, heq⟩ := window_iff.mp h
  rw [ofPreceding_of_shape hpos hlast hkeys hfirst hle, ← heq]

end Window

theorem exists_window_of_ofPreceding {preceding : List Instruction} {terms : MultisigTerms}
    (h : ofPreceding? preceding = some terms)
    : ∃ before first keys last, preceding = last :: (keys.reverse ++ first :: before)
        ∧ Window first keys last terms := by
  unfold ofPreceding? at h
  split at h
  . contradiction
  . next last behind =>
    split at h
    . contradiction
    . next signers hsigners =>
      dsimp only at h
      split at h
      . contradiction
      . next hkeys =>
        simp only [not_or, Decidable.not_not, List.all_eq_true] at hkeys
        obtain ⟨hpos, hlength, hkeys⟩ := hkeys
        split at h
        . contradiction
        . next first before hbefore =>
          split at h
          . contradiction
          . next required hrequired =>
            split at h
            . next hle =>
              cases h
              refine ⟨before, first, (behind.take signers).reverse, last, ?_, ?_⟩
              . rw [List.reverse_reverse, ← hbefore, List.take_append_drop]
              . rw [window_iff, List.length_reverse, hlength, List.map_reverse]
                simp only [List.mem_reverse, and_true]
                exact ⟨by omega, hsigners, hkeys, hrequired, hle⟩
            . contradiction

theorem ofPreceding_append {last : Instruction} {front : List Instruction}
    (h : ∀ signers, last.opcode.smallInt? = some signers → signers < front.length)
    (before : List Instruction)
    : ofPreceding? (last :: (front ++ before)) = ofPreceding? (last :: front) := by
  cases hlast : last.opcode.smallInt? with
  | none => rw [ofPreceding_of_not_smallInt hlast, ofPreceding_of_not_smallInt hlast]
  | some signers =>
    have hlt := h signers hlast
    have htake : (front ++ before).take signers = front.take signers := by
      apply List.take_append_of_le_length
      omega
    have hdrop : (front ++ before).drop signers = front.drop signers ++ before := by
      apply List.drop_append_of_le_length
      omega
    obtain ⟨first, rest, hfirst⟩ : ∃ first rest, front.drop signers = first :: rest := by
      apply List.exists_cons_of_ne_nil
      rw [Ne, List.drop_eq_nil_iff]
      omega
    simp only [ofPreceding?, hlast, htake, hdrop, hfirst, List.cons_append]

theorem ofPreceding_append_of_not_smallInt {before : List Instruction}
    (h : ∀ ins ∈ before, ins.opcode.smallInt? = none) (preceding : List Instruction)
    : ofPreceding? (preceding ++ before) = ofPreceding? preceding := by
  apply Option.ext
  intro terms
  constructor
  . intro hterms
    obtain ⟨rest, first, keys, last, heq, hwindow⟩ := exists_window_of_ofPreceding hterms
    have hfirst : first.opcode.smallInt? = some terms.required :=
      (window_iff.mp hwindow).right.right.right.left
    have hsplit : last :: (keys.reverse ++ first :: rest)
        = (last :: keys.reverse ++ [first]) ++ rest := by
      simp
    rw [hsplit, List.append_eq_append_iff] at heq
    obtain ⟨rest', hrest⟩ : ∃ rest', preceding = (last :: keys.reverse ++ [first]) ++ rest' := by
      cases heq with
      | inr hinside =>
        obtain ⟨rest', hpreceding, -⟩ := hinside
        exact ⟨rest', hpreceding⟩
      | inl hacross =>
        obtain ⟨across, hpreceding, hbefore⟩ := hacross
        cases across using List.reverseRecOn with
        | nil => exact ⟨[], by simpa using hpreceding.symm⟩
        | append_singleton across ins =>
          -- The window ends with `first`, so it cannot end among instructions that are no numbers.
          rw [← List.append_assoc] at hpreceding
          obtain ⟨-, hins⟩ := List.append_inj' hpreceding rfl
          have hmem : first ∈ before := by simp [hbefore, List.cons.inj hins]
          rw [h first hmem] at hfirst
          contradiction
    have := hwindow.ofPreceding rest'
    simpa [hrest] using this
  . intro hterms
    obtain ⟨rest, first, keys, last, rfl, hwindow⟩ := exists_window_of_ofPreceding hterms
    have := hwindow.ofPreceding (rest ++ before)
    simpa using this

theorem atIndex_length (front behind : List Instruction)
    : atIndex? (front ++ behind) front.length = ofPreceding? front.reverse := by
  simp [atIndex?]

theorem atIndex_window (before : List Instruction) (first : Instruction) (keys : List Instruction)
    (last : Instruction) (behind : List Instruction)
    : atIndex? (before ++ first :: (keys ++ last :: behind)) (before.length + keys.length + 2)
        =
      ofPreceding? (last :: (keys.reverse ++ first :: before.reverse)) := by
  have := atIndex_length (before ++ first :: (keys ++ [last])) behind
  simpa [Nat.add_assoc] using this

theorem atIndex_eq_some_iff {instructions : List Instruction} {index : Nat}
    {terms : MultisigTerms}
    : atIndex? instructions index = some terms
        ↔
      ∃ before first keys last behind,
        instructions = before ++ first :: (keys ++ last :: behind)
          ∧ before.length + keys.length + 2 = index
          ∧ Window first keys last terms := by
  constructor
  . intro h
    unfold atIndex? at h
    split at h
    . next hle =>
      obtain ⟨before, first, keys, last, heq, hwindow⟩ := exists_window_of_ofPreceding h
      have hfront : instructions.take index = before.reverse ++ first :: (keys ++ [last]) := by
        rw [← List.reverse_inj, heq]
        simp
      refine ⟨before.reverse, first, keys, last, instructions.drop index, ?_, ?_, hwindow⟩
      . calc instructions
          _ = instructions.take index ++ instructions.drop index := by rw [List.take_append_drop]
          _ = _ := by simp [hfront]
      . have := congrArg List.length hfront
        simp only [List.length_take, List.length_append, List.length_cons, List.length_nil]
          at this
        omega
    . contradiction
  . rintro ⟨before, first, keys, last, behind, rfl, rfl, hwindow⟩
    rw [atIndex_window]
    apply hwindow.ofPreceding

def slice? (instructions : List Instruction) (start stop : Nat) : Option (List Instruction) :=
  if start ≤ stop ∧ stop ≤ instructions.length then
    some ((instructions.take stop).drop start)
  else
    none

/--
Reads the terms of the check at the given index by position. Nothing is read at a position that the
script does not have, and no position below zero is looked up.
-/
def byPosition? (instructions : List Instruction) (index : Nat) : Option MultisigTerms := do
  let stop ← index.psub 1
  let last ← instructions[stop]?
  let signers ← last.opcode.smallInt?.filter (1 ≤ ·)
  let start ← stop.psub signers
  let keys ← slice? instructions start stop
  guard (keys.all pushesKey)
  let first ← instructions[← start.psub 1]?
  let required ← first.opcode.smallInt?
  guard (required ≤ signers)
  return ⟨required, keys.map (·.payload)⟩

theorem slice_eq_some_iff {instructions keys : List Instruction} {start stop : Nat}
    : slice? instructions start stop = some keys
        ↔
      (start ≤ stop ∧ stop ≤ instructions.length)
        ∧ (instructions.take stop).drop start = keys := by
  unfold slice?
  split <;> simp_all

theorem eq_append_of_positions {instructions keys : List Instruction} {first last : Instruction}
    {start stop : Nat} (hfirst : instructions[start]? = some first)
    (hkeys : slice? instructions (start + 1) stop = some keys)
    (hlast : instructions[stop]? = some last)
    : instructions
        =
      instructions.take start ++ first :: (keys ++ last :: instructions.drop (stop + 1)) := by
  rw [slice_eq_some_iff] at hkeys
  obtain ⟨⟨hle, hstop⟩, hkeys⟩ := hkeys
  obtain ⟨hlt, hfirst⟩ := List.getElem?_eq_some_iff.mp hfirst
  obtain ⟨hlt', hlast⟩ := List.getElem?_eq_some_iff.mp hlast
  calc instructions
    _ = instructions.take start ++ first :: instructions.drop (start + 1) := by
      rw [← hfirst, List.cons_getElem_drop_succ, List.take_append_drop]
    _ = instructions.take start ++ first :: (keys ++ instructions.drop stop) := by
      rw [← hkeys, ← List.drop_append_of_le_length, List.take_append_drop]
      simp
      omega
    _ = _ := by rw [← hlast, List.cons_getElem_drop_succ]

theorem positions_of_append (before : List Instruction) (first : Instruction)
    (keys : List Instruction) (last : Instruction) (behind : List Instruction)
    : let instructions := before ++ first :: (keys ++ last :: behind)
      instructions[before.length]? = some first
        ∧ slice? instructions (before.length + 1) (before.length + keys.length + 1) = some keys
        ∧ instructions[before.length + keys.length + 1]? = some last := by
  intro instructions
  have hsplit : instructions = (before ++ first :: keys) ++ last :: behind := by
    simp [instructions]
  have hlength : (before ++ first :: keys).length = before.length + keys.length + 1 := by
    simp [Nat.add_assoc]
  refine ⟨by simp [instructions], ?_, ?_⟩
  . rw [slice_eq_some_iff, hsplit, List.take_left' hlength]
    constructor
    . simp
    . rw [List.append_cons]
      apply List.drop_left'
      simp
  . rw [hsplit, ← hlength]
    simp

theorem byPosition_eq_some_iff {instructions : List Instruction} {index : Nat}
    {terms : MultisigTerms}
    : byPosition? instructions index = some terms
        ↔
      ∃ before first keys last behind,
        instructions = before ++ first :: (keys ++ last :: behind)
          ∧ before.length + keys.length + 2 = index
          ∧ Window first keys last terms := by
  simp only [byPosition?, bind, Option.bind_eq_some_iff, Nat.psub_eq_some,
    Option.filter_eq_some_iff, Option.guard_eq_some', pure, Option.some.injEq, decide_eq_true_eq,
    List.all_eq_true]
  constructor
  . rintro ⟨stop, rfl, last, hlast, signers, ⟨hsigners, hpos⟩, start, rfl, keys, hslice, -, hkeys,
      opening, rfl, first, hfirst, required, hrequired, -, hle, rfl⟩
    have heq := eq_append_of_positions hfirst hslice hlast
    obtain ⟨⟨-, hstop⟩, hdrop⟩ := slice_eq_some_iff.mp hslice
    have hlength : keys.length = signers := by
      rw [← hdrop, List.length_drop, List.length_take]
      omega
    refine ⟨_, first, keys, last, _, heq, ?_, ?_⟩
    . rw [List.length_take]
      omega
    . rw [window_iff, hlength]
      exact ⟨hpos, hsigners, hkeys, hrequired, hle, rfl⟩
  . rintro ⟨before, first, keys, last, behind, rfl, rfl, hwindow⟩
    obtain ⟨hpos, hlast, hkeys, hfirst, hle, heq⟩ := window_iff.mp hwindow
    obtain ⟨hfirst', hslice, hlast'⟩ := positions_of_append before first keys last behind
    exact ⟨_, rfl, last, hlast', _, ⟨hlast, hpos⟩, _, by omega, keys, hslice, (), hkeys, _, rfl,
      first, hfirst', _, hfirst, (), hle, by rw [← heq]⟩

theorem byPosition_eq_atIndex (instructions : List Instruction) (index : Nat)
    : byPosition? instructions index = atIndex? instructions index := by
  apply Option.ext
  intro terms
  rw [byPosition_eq_some_iff, atIndex_eq_some_iff]

theorem atIndex_reads_window (instructions : List Instruction) (index : Nat)
    : (∀ terms, atIndex? instructions index = some terms
          ↔ ∃ before first keys last behind,
              instructions = before ++ first :: (keys ++ last :: behind)
                ∧ before.length + keys.length + 2 = index
                ∧ Window first keys last terms)
      ∧ (∀ first keys last,
          (∀ signers, last.opcode.smallInt? = some signers → signers ≤ keys.length)
            → ∀ before before' behind behind',
                atIndex? (before ++ first :: (keys ++ last :: behind))
                    (before.length + keys.length + 2)
                  = atIndex? (before' ++ first :: (keys ++ last :: behind'))
                      (before'.length + keys.length + 2))
      ∧ (∀ front behind behind',
          atIndex? (front ++ behind) front.length = atIndex? (front ++ behind') front.length)
      ∧ (instructions.length < index → atIndex? instructions index = none)
      ∧ byPosition? instructions index = atIndex? instructions index := by
  refine ⟨fun terms => atIndex_eq_some_iff, ?_, ?_, ?_, byPosition_eq_atIndex instructions index⟩
  . intro first keys last hlast before before' behind behind'
    have hwindow : ∀ signers, last.opcode.smallInt? = some signers
        → signers < (keys.reverse ++ [first]).length := by
      intro signers hsigners
      have := hlast signers hsigners
      simp
      omega
    have happend := ofPreceding_append hwindow
    simp only [List.append_assoc, List.singleton_append] at happend
    rw [atIndex_window, atIndex_window, happend before.reverse, happend before'.reverse]
  . intro front behind behind'
    rw [atIndex_length, atIndex_length]
  . intro hlt
    unfold atIndex?
    rw [if_neg (by omega)]

theorem atIndex_oneOfOne_amid_others
    : let key : Instruction := ⟨.data 33, List.replicate 33 0x02⟩
      let window : List Instruction := [⟨.smallInt 1, []⟩, key, ⟨.smallInt 1, []⟩]
      atIndex? ([key] ++ window ++ [key]) 4 = some ⟨1, [key.payload]⟩
        ∧ atIndex? ([key] ++ window ++ [key]) 4 = atIndex? window 3
        ∧ atIndex? window 4 = none := by
  intro key window
  obtain ⟨hread, hwindow, -, -, -⟩ := atIndex_reads_window ([key] ++ window ++ [key]) 4
  obtain ⟨-, -, -, hnone, -⟩ := atIndex_reads_window window 4
  refine ⟨(hread _).mpr ?_, ?_, hnone (by decide)⟩
  . refine ⟨[key], ⟨.smallInt 1, []⟩, [key], ⟨.smallInt 1, []⟩, [key], rfl, rfl, ?_⟩
    constructor
    all_goals decide
  . apply hwindow ⟨.smallInt 1, []⟩ [key] ⟨.smallInt 1, []⟩ _ [key] [] [key] []
    decide

end MultisigTerms

end ScriptAnalysis
