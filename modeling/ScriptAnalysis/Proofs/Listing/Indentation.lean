import ScriptAnalysis.Proofs.Listing.Lossless
import ScriptAnalysis.Proofs.Listing.Nesting
import ScriptAnalysis.Proofs.Multisig.Window

/-!
This module contains how the lines of a listing are indented. The depth of a line is the height of a
walk over the lowest place it has been at, a walk that every branch takes a step up and every end of
a branch a step down. Where conditionals nest well it never goes below its start, so the depth is
the number of conditionals around the line, and where it does go below nothing of that is left in
the lines that follow.
-/

namespace ScriptAnalysis

def aboveLeast (changes : List Int) : Int :=
  changes.sum - changes.partialSums.foldl min 0

def sumAboveZero (start : Int) (changes : List Int) : Int :=
  changes.foldl (fun sum change => max 0 (sum + change)) start

theorem sumAboveZero_append (start : Int) (front back : List Int)
    : sumAboveZero start (front ++ back) = sumAboveZero (sumAboveZero start front) back := by
  simp [sumAboveZero]

theorem partialSums_concat (changes : List Int) (change : Int)
    : (changes ++ [change]).partialSums = changes.partialSums ++ [changes.sum + change] := by
  simp [List.partialSums_append, List.partialSums_cons]

theorem sumAboveZero_eq_aboveLeast (changes : List Int)
    : sumAboveZero 0 changes = aboveLeast changes := by
  induction changes using List.reverseRecOn with
  | nil => rfl
  | append_singleton changes change ih =>
    have hleast : aboveLeast (changes ++ [change])
        = changes.sum + change
          - min (changes.partialSums.foldl min 0) (changes.sum + change) := by
      rw [aboveLeast, partialSums_concat, List.foldl_append, List.sum_append,
        List.sum_singleton]
      rfl
    have hzero : sumAboveZero 0 (changes ++ [change]) = max 0 (aboveLeast changes + change) := by
      rw [sumAboveZero_append, ih]
      rfl
    -- A new least sum is what the floor cuts off.
    rw [hleast, hzero, aboveLeast]
    omega

namespace Listing

def changeBefore (op : Opcode) : Int :=
  if op = .opElse ∨ op = .opEndIf then -1 else 0

def changeBehind (op : Opcode) : Int :=
  if op = .opIf ∨ op = .opNotIf ∨ op = .opElse then 1 else 0

def changes (instructions : List Instruction) : List Int :=
  instructions.flatMap fun ins => [changeBefore ins.opcode, changeBehind ins.opcode]

def changesTo (front : List Instruction) (ins : Instruction) : List Int :=
  changes front ++ [changeBefore ins.opcode]

theorem depthAt_eq_sumAboveZero (depth : Nat) (op : Opcode)
    : depthAt depth op = sumAboveZero depth [changeBefore op] := by
  simp only [depthAt, sumAboveZero, changeBefore, List.foldl_cons, List.foldl_nil]
  split <;> omega

theorem depthBehind_eq_sumAboveZero (depth : Nat) (op : Opcode)
    : depthBehind depth op = sumAboveZero depth [changeBehind op] := by
  simp only [depthBehind, sumAboveZero, changeBehind, List.foldl_cons, List.foldl_nil]
  split <;> omega

theorem depthThrough_eq_sumAboveZero (depth : Nat) (instructions : List Instruction)
    : depthThrough depth instructions = sumAboveZero depth (changes instructions) := by
  induction instructions generalizing depth with
  | nil => rfl
  | cons ins instructions ih =>
    have hstep : changes (ins :: instructions)
        = [changeBefore ins.opcode] ++ ([changeBehind ins.opcode] ++ changes instructions) := by
      rfl
    rw [hstep, sumAboveZero_append, sumAboveZero_append, ← depthAt_eq_sumAboveZero,
      ← depthBehind_eq_sumAboveZero, ← ih]
    rfl

theorem depthAt_depthThrough_eq_aboveLeast (front : List Instruction) (ins : Instruction)
    : depthAt (depthThrough 0 front) ins.opcode = aboveLeast (changesTo front ins) := by
  rw [depthAt_eq_sumAboveZero, depthThrough_eq_sumAboveZero, ← sumAboveZero_append,
    ← sumAboveZero_eq_aboveLeast]
  rfl

def indentation (text : String) : Nat :=
  (text.toList.takeWhile (· = ' ')).length

theorem indentation_render_lineBehind (depth : Nat) (preceding : List Instruction)
    (ins : Instruction)
    : indentation (lineBehind depth preceding ins).render = 2 * depthAt depth ins.opcode := by
  obtain ⟨below, hbelow⟩ := exists_render_lineBehind depth preceding ins
  obtain ⟨c, name, hname⟩ := List.exists_cons_of_ne_nil ins.opcode.mnemonic_ne_nil
  have hc : c ≠ ' ' := by
    rintro rfl
    apply ins.opcode.isWord_mnemonic.notMem (c := ' ') (by decide)
    simp [hname]
  rw [indentation, hbelow, List.takeWhile_append_of_pos, hname, List.cons_append,
    List.takeWhile_cons_of_neg (by simpa using hc), List.append_nil, List.length_replicate]
  intro space hspace
  simp [List.eq_of_mem_replicate hspace]

theorem map_indentation_linesBehind (depth : Nat) (preceding instructions : List Instruction)
    : ((linesBehind depth preceding instructions).map Line.render).map indentation
        =
      (linesBehind depth preceding instructions).map (2 * ·.depth) := by
  induction instructions generalizing depth preceding with
  | nil => rfl
  | cons ins instructions ih =>
    rw [linesBehind, List.map_cons, List.map_cons, List.map_cons, indentation_render_lineBehind, ih]
    rfl

theorem getElem?_linesBehind_append (depth : Nat) (preceding front : List Instruction)
    (ins : Instruction) (back : List Instruction)
    : (linesBehind depth preceding (front ++ ins :: back))[front.length]?
        =
      some (lineBehind (depthThrough depth front) (front.reverse ++ preceding) ins) := by
  rw [linesBehind_append, List.getElem?_append_right (length_linesBehind ..).le,
    length_linesBehind, Nat.sub_self]
  rfl

/--
Instructions within `around` conditionals that nest well, with the number of conditionals that the
line of each stands in. What opens, divides or closes a conditional does not stand in it.
-/
inductive NestsWell : (around : Nat) → List Instruction → (depths : List Nat) → Prop where
  | nil (around : Nat) : NestsWell around [] []
  | plain {around : Nat} {ins : Instruction} {rest : List Instruction} {depths : List Nat}
      (h : ins.opcode ∉ [Opcode.opIf, .opNotIf, .opElse, .opEndIf])
      (hrest : NestsWell around rest depths)
    : NestsWell around (ins :: rest) (around :: depths)
  | divided {around : Nat} {ins : Instruction} {rest : List Instruction} {depths : List Nat}
      (h : ins.opcode = .opElse) (hrest : NestsWell (around + 1) rest depths)
    : NestsWell (around + 1) (ins :: rest) (around :: depths)
  | conditional {around : Nat} {opening closing : Instruction} {inside rest : List Instruction}
      {depthsInside depths : List Nat} (hopening : opening.opcode ∈ [Opcode.opIf, .opNotIf])
      (hinside : NestsWell (around + 1) inside depthsInside) (hclosing : closing.opcode = .opEndIf)
      (hrest : NestsWell around rest depths)
    : NestsWell around (opening :: (inside ++ closing :: rest))
        (around :: (depthsInside ++ around :: depths))

theorem map_depth_linesBehind_cons (depth : Nat) (preceding : List Instruction) (ins : Instruction)
    (rest : List Instruction)
    : (linesBehind depth preceding (ins :: rest)).map (·.depth)
        =
      depthAt depth ins.opcode
        :: (linesBehind (depthBehind (depthAt depth ins.opcode) ins.opcode) (ins :: preceding)
          rest).map (·.depth) := by
  rfl

theorem NestsWell.depths_eq {around : Nat} {instructions : List Instruction} {depths : List Nat}
    (h : NestsWell around instructions depths) (preceding : List Instruction)
    : (linesBehind around preceding instructions).map (·.depth) = depths
        ∧ depthThrough around instructions = around := by
  induction h generalizing preceding with
  | nil => exact ⟨rfl, rfl⟩
  | @plain around ins rest depths h hrest ih =>
    simp only [List.mem_cons, List.not_mem_nil, or_false, not_or] at h
    have hat : depthAt around ins.opcode = around := by simp [depthAt, h]
    have hbehind : depthBehind around ins.opcode = around := by simp [depthBehind, h]
    obtain ⟨hdepths, hthrough⟩ := ih (ins :: preceding)
    rw [map_depth_linesBehind_cons, depthThrough_cons, hat, hbehind, hdepths, hthrough]
    exact ⟨rfl, rfl⟩
  | @divided around ins rest depths h hrest ih =>
    have hat : depthAt (around + 1) ins.opcode = around := by simp [depthAt, h]
    have hbehind : depthBehind around ins.opcode = around + 1 := by simp [depthBehind, h]
    obtain ⟨hdepths, hthrough⟩ := ih (ins :: preceding)
    rw [map_depth_linesBehind_cons, depthThrough_cons, hat, hbehind, hdepths, hthrough]
    exact ⟨rfl, rfl⟩
  | @conditional around opening closing inside rest depthsInside depths hopening hinside hclosing
      hrest ihinside ihrest =>
    simp only [List.mem_cons, List.not_mem_nil, or_false] at hopening
    have hat : depthAt around opening.opcode = around := by
      cases hopening with
      | inl hif => simp [depthAt, hif, Opcode.opIf, Opcode.opElse, Opcode.opEndIf]
      | inr hnotIf => simp [depthAt, hnotIf, Opcode.opNotIf, Opcode.opElse, Opcode.opEndIf]
    have hbehind : depthBehind around opening.opcode = around + 1 := by
      simp only [depthBehind, if_pos (hopening.imp_right Or.inl)]
    have hat' : depthAt (around + 1) closing.opcode = around := by simp [depthAt, hclosing]
    have hbehind' : depthBehind around closing.opcode = around := by
      rw [hclosing]
      rfl
    obtain ⟨hinner, hthrough⟩ := ihinside (opening :: preceding)
    obtain ⟨hdepths, hthrough'⟩ := ihrest (closing :: (inside.reverse ++ opening :: preceding))
    rw [map_depth_linesBehind_cons, depthThrough_cons, hat, hbehind, linesBehind_append,
      depthThrough_append, hthrough, List.map_append, hinner, map_depth_linesBehind_cons,
      depthThrough_cons, hat', hbehind', hdepths, hthrough']
    exact ⟨rfl, rfl⟩

theorem linesBehind_append_of_not_smallInt {before : List Instruction}
    (h : ∀ ins ∈ before, ins.opcode.smallInt? = none) (depth : Nat)
    (preceding instructions : List Instruction)
    : linesBehind depth (preceding ++ before) instructions
        =
      linesBehind depth preceding instructions := by
  induction instructions generalizing depth preceding with
  | nil => rfl
  | cons ins instructions ih =>
    have hnote : ∀ op, note (preceding ++ before) op = note preceding op := by
      intro op
      rw [note, MultisigTerms.ofPreceding_append_of_not_smallInt h, note]
    have htext : lineText (preceding ++ before) ins = lineText preceding ins := by
      simp only [lineText, hnote]
    rw [linesBehind, linesBehind, lineBehind, htext, ← List.cons_append, ih]
    rfl

theorem render_linesBehind_surplus (preceding : List Instruction) (surplus : Nat)
    : (linesBehind 0 preceding (List.replicate surplus ⟨.opEndIf, []⟩)).map Line.render
          = List.replicate surplus "OP_ENDIF\n"
        ∧ depthThrough 0 (List.replicate surplus ⟨.opEndIf, []⟩) = 0 := by
  have hdepth : depthBehind (depthAt 0 .opEndIf) .opEndIf = 0 := by decide
  induction surplus generalizing preceding with
  | zero => exact ⟨rfl, rfl⟩
  | succ surplus ih =>
    obtain ⟨hlines, hthrough⟩ := ih (⟨.opEndIf, []⟩ :: preceding)
    have hline : (lineBehind 0 preceding ⟨.opEndIf, []⟩).render = "OP_ENDIF\n" := by
      rw [lineBehind, nested?_of_operand_none rfl]
      rfl
    rw [List.replicate_succ, List.replicate_succ, linesBehind, depthThrough_cons, hdepth,
      List.map_cons, hline, hlines, hthrough]
    exact ⟨rfl, rfl⟩

theorem linesBehind_surplus_append (surplus : Nat) (instructions : List Instruction)
    : (linesBehind 0 [] (List.replicate surplus ⟨.opEndIf, []⟩ ++ instructions)).map Line.render
        =
      List.replicate surplus "OP_ENDIF\n"
        ++ (linesBehind 0 [] instructions).map Line.render := by
  obtain ⟨hlines, hthrough⟩ := render_linesBehind_surplus [] surplus
  rw [linesBehind_append, hthrough, List.append_nil, List.reverse_replicate, List.map_append, hlines,
    ← List.nil_append (List.replicate surplus (⟨.opEndIf, []⟩ : Instruction)),
    linesBehind_append_of_not_smallInt]
  intro ins hins
  rw [List.eq_of_mem_replicate hins]
  decide

end Listing

theorem decode_surplus_append {script : List UInt8} {instructions : List Instruction}
    (h : decode script = ⟨instructions, none⟩) (surplus : Nat)
    : decode (List.replicate surplus Opcode.opEndIf.byte ++ script)
        =
      ⟨List.replicate surplus ⟨.opEndIf, []⟩ ++ instructions, none⟩ := by
  obtain ⟨hfits, hbytes⟩ := decode_eq_complete_iff.mp h
  apply decode_eq_complete_iff.mpr
  constructor
  . rw [List.forall_mem_append]
    refine ⟨?_, hfits⟩
    intro ins hins
    rw [List.eq_of_mem_replicate hins]
    decide
  . have hclosing : (⟨.opEndIf, []⟩ : Instruction).bytes = [Opcode.opEndIf.byte] := by
      rfl
    rw [List.flatMap_append, hbytes, List.flatMap_replicate, hclosing,
      List.flatten_replicate_singleton]

open Listing

theorem listing_indentation {script : List UInt8} {instructions : List Instruction}
    (h : decode script = ⟨instructions, none⟩)
    : ∃ blocks, listing script = .ok (String.join blocks)
        ∧ List.Forall₂ Shows instructions blocks
        ∧ (∀ front ins back, instructions = front ++ ins :: back
            → ∃ block, blocks[front.length]? = some block
                ∧ (indentation block : Int) = 2 * aboveLeast (changesTo front ins))
        ∧ (∀ depths, NestsWell 0 instructions depths
            → blocks.map indentation = depths.map (2 * ·) ∧ depthThrough 0 instructions = 0)
        ∧ ∀ surplus, listing (List.replicate surplus Opcode.opEndIf.byte ++ script)
            = .ok (String.join (List.replicate surplus "OP_ENDIF\n" ++ blocks)) := by
  refine ⟨(linesBehind 0 [] instructions).map Line.render, listing_of_complete h,
    forall₂_shows_linesBehind 0 [] instructions, ?_, ?_, ?_⟩
  . rintro front ins back rfl
    refine ⟨(lineBehind (depthThrough 0 front) (front.reverse ++ []) ins).render, ?_, ?_⟩
    . rw [List.getElem?_map, getElem?_linesBehind_append]
      rfl
    . rw [indentation_render_lineBehind, Nat.cast_mul, depthAt_depthThrough_eq_aboveLeast]
      rfl
  . intro depths hnests
    obtain ⟨hdepths, hthrough⟩ := hnests.depths_eq []
    rw [map_indentation_linesBehind, ← hdepths, List.map_map]
    exact ⟨rfl, hthrough⟩
  . intro surplus
    rw [listing_of_complete (decode_surplus_append h surplus), render, linesBehind_surplus_append]

theorem listing_indentation_nested_and_unbalanced
    : (∃ instructions,
          decode [0x51, 0x63, 0x76, 0x67, 0x64, 0x75, 0x68, 0x68, 0xac] = ⟨instructions, none⟩
            ∧ NestsWell 0 instructions [0, 0, 1, 0, 1, 2, 1, 0, 0]
            ∧ ∃ blocks,
                listing [0x51, 0x63, 0x76, 0x67, 0x64, 0x75, 0x68, 0x68, 0xac]
                    = .ok (String.join blocks)
                  ∧ blocks.map indentation = [0, 0, 2, 0, 2, 4, 2, 0, 0])
      ∧ ∃ blocks,
          listing [0x68, 0x67, 0x63, 0x76] = .ok (String.join blocks)
            ∧ blocks[3]?.map indentation = some 4 := by
  constructor
  . have hdecode : decode [0x51, 0x63, 0x76, 0x67, 0x64, 0x75, 0x68, 0x68, 0xac]
        = ⟨[⟨.op1, []⟩, ⟨.opIf, []⟩, ⟨.dup, []⟩, ⟨.opElse, []⟩, ⟨.opNotIf, []⟩, ⟨⟨0x75⟩, []⟩,
          ⟨.opEndIf, []⟩, ⟨.opEndIf, []⟩, ⟨.checkSig, []⟩], none⟩ := by
      decide +kernel
    have hinner : NestsWell 1 [⟨.opNotIf, []⟩, ⟨⟨0x75⟩, []⟩, ⟨.opEndIf, []⟩] [1, 2, 1] :=
      .conditional (by decide) (.plain (by decide) (.nil 2)) rfl (.nil 1)
    have hbranches : NestsWell 1
        [⟨.dup, []⟩, ⟨.opElse, []⟩, ⟨.opNotIf, []⟩, ⟨⟨0x75⟩, []⟩, ⟨.opEndIf, []⟩] [1, 0, 1, 2, 1] :=
      .plain (by decide) (.divided rfl hinner)
    have hlast : NestsWell 0 [⟨.checkSig, []⟩] [0] := .plain (by decide) (.nil 0)
    have hnests : NestsWell 0
        [⟨.op1, []⟩, ⟨.opIf, []⟩, ⟨.dup, []⟩, ⟨.opElse, []⟩, ⟨.opNotIf, []⟩, ⟨⟨0x75⟩, []⟩,
          ⟨.opEndIf, []⟩, ⟨.opEndIf, []⟩, ⟨.checkSig, []⟩]
        [0, 0, 1, 0, 1, 2, 1, 0, 0] :=
      .plain (by decide) (.conditional (by decide) hbranches rfl hlast)
    obtain ⟨blocks, hlisting, -, -, hindentation, -⟩ := listing_indentation hdecode
    exact ⟨_, hdecode, hnests, blocks, hlisting, (hindentation _ hnests).left⟩
  . have hdecode : decode [0x68, 0x67, 0x63, 0x76]
        = ⟨[⟨.opEndIf, []⟩, ⟨.opElse, []⟩, ⟨.opIf, []⟩, ⟨.dup, []⟩], none⟩ := by
      decide +kernel
    obtain ⟨blocks, hlisting, -, hlines, -, -⟩ := listing_indentation hdecode
    obtain ⟨block, hblock, hindentation⟩ := hlines [⟨.opEndIf, []⟩, ⟨.opElse, []⟩, ⟨.opIf, []⟩]
      ⟨.dup, []⟩ [] rfl
    have hheight : aboveLeast (changesTo [⟨.opEndIf, []⟩, ⟨.opElse, []⟩, ⟨.opIf, []⟩] ⟨.dup, []⟩)
        = 2 := by
      decide
    have hblock : blocks[3]? = some block := hblock
    refine ⟨blocks, hlisting, ?_⟩
    rw [hheight] at hindentation
    rw [hblock, Option.map_some, Option.some.injEq]
    omega

end ScriptAnalysis
