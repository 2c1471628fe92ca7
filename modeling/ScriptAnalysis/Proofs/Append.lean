import ScriptAnalysis.Proofs.Decode

namespace ScriptAnalysis

theorem prefix_decode_iff {front : List Instruction} {script : List UInt8}
    : front <+: (decode script).instructions
        ↔
      (∀ ins ∈ front, ins.Fits) ∧ front.flatMap Instruction.bytes <+: script := by
  constructor
  . intro h
    constructor
    . intro ins hins
      apply fits_of_mem_decode
      exact h.subset hins
    . obtain ⟨back, hback⟩ := h
      obtain ⟨tail, hscript, -⟩ := exists_decode_split script
      rw [← hback, List.flatMap_append, List.append_assoc] at hscript
      exact ⟨_, hscript.symm⟩
  . rintro ⟨hfits, tail, rfl⟩
    rw [decode_flatMap_append hfits, Decoded.instructions_behind]
    apply List.prefix_append

theorem decode_append {front : List UInt8} {instructions : List Instruction}
    (h : decode front = ⟨instructions, none⟩) (back : List UInt8)
    : decode (front ++ back)
        =
      ⟨instructions ++ (decode back).instructions,
        (decode back).error.map (.shift front.length)⟩ := by
  obtain ⟨hfits, rfl⟩ := decode_eq_complete_iff.mp h
  apply decode_flatMap_append hfits

theorem decode_append_bytes {front : List UInt8} {instructions : List Instruction}
    {ins : Instruction} (h : decode front = ⟨instructions, none⟩) (hfits : ins.Fits)
    : decode (front ++ ins.bytes) = ⟨instructions ++ [ins], none⟩ := by
  obtain ⟨hfront, rfl⟩ := decode_eq_complete_iff.mp h
  rw [decode_eq_complete_iff, List.forall_mem_append, List.forall_mem_singleton]
  exact ⟨⟨hfront, hfits⟩, by simp⟩

theorem decode_prefix {front script : List UInt8} (h : front <+: script)
    : (decode front).instructions <+: (decode script).instructions := by
  obtain ⟨hfits, hbytes⟩ := prefix_decode_iff.mp (List.prefix_refl (decode front).instructions)
  exact prefix_decode_iff.mpr ⟨hfits, hbytes.trans h⟩

theorem prefix_decode_of_le {instructions : List Instruction} {front script : List UInt8}
    (h : front <+: script) (hinstructions : instructions <+: (decode script).instructions)
    (hlength : (instructions.flatMap Instruction.bytes).length ≤ front.length)
    : instructions <+: (decode front).instructions := by
  obtain ⟨hfits, hbytes⟩ := prefix_decode_iff.mp hinstructions
  exact prefix_decode_iff.mpr ⟨hfits, List.prefix_of_prefix_length_le hbytes h hlength⟩

/--
A script decodes piece by piece. Behind a piece that decodes in full only the offset of an error
tells that something stands in front, and whatever is put behind a piece leaves its instructions
as they are, which are all that end in it.
-/
theorem decode_piecewise (front back : List UInt8)
    : (∀ instructions, decode front = ⟨instructions, none⟩
          → (decode (front ++ back)).instructions = instructions ++ (decode back).instructions
            ∧ (decode (front ++ back)).error = (decode back).error.map (.shift front.length))
      ∧ (decode front).instructions <+: (decode (front ++ back)).instructions
      ∧ (∀ instructions, instructions <+: (decode (front ++ back)).instructions
          → (instructions.flatMap Instruction.bytes).length ≤ front.length
          → instructions <+: (decode front).instructions) := by
  have hfront := List.prefix_append front back
  refine ⟨?_, decode_prefix hfront, ?_⟩
  . intro instructions h
    rw [decode_append h]
    exact ⟨rfl, rfl⟩
  . intro instructions hinstructions hlength
    exact prefix_decode_of_le hfront hinstructions hlength

theorem decode_cut_push_behind_op1
    : decode [0x51] = ⟨[⟨.op1, []⟩], none⟩
        ∧ (decode [0x02, 0xaa]).error = some (.malformedPush (.data 2) 0 (.truncated 3 2))
        ∧ (decode [0x51, 0x02, 0xaa]).error = some (.malformedPush (.data 2) 1 (.truncated 3 2))
        ∧ (decode [0x51, 0x02, 0xaa, 0xbb]).instructions
            = [⟨.op1, []⟩, ⟨.data 2, [0xaa, 0xbb]⟩]
        ∧ [⟨.op1, []⟩] <+: (decode [0x51, 0x02, 0xaa]).instructions := by
  have hfront : decode [0x51] = ⟨[⟨.op1, []⟩], none⟩ := by decide +kernel
  have hback : (decode [0x02, 0xaa]).error
      = some (.malformedPush (.data 2) 0 (.truncated 3 2)) := by
    decide +kernel
  have hwhole : (decode [0x51, 0x02, 0xaa, 0xbb]).instructions
      = [⟨.op1, []⟩, ⟨.data 2, [0xaa, 0xbb]⟩] := by
    decide +kernel
  obtain ⟨happend, -, -⟩ := decode_piecewise [0x51] [0x02, 0xaa]
  obtain ⟨-, -, hcut⟩ := decode_piecewise [0x51, 0x02, 0xaa] [0xbb]
  refine ⟨hfront, hback, ?_, hwhole, ?_⟩
  . have herror := (happend _ hfront).right
    rwa [hback] at herror
  . apply hcut
    . exact ⟨[⟨.data 2, [0xaa, 0xbb]⟩], hwhole.symm⟩
    . decide

end ScriptAnalysis
