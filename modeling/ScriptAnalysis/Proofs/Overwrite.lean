import ScriptAnalysis.Proofs.Shape

namespace ScriptAnalysis

namespace Instruction

def header (ins : Instruction) : List UInt8 :=
  ins.opcode.byte :: ins.lengthField

theorem bytes_eq_header_append (ins : Instruction) : ins.bytes = ins.header ++ ins.payload := by
  rfl

theorem size_eq_header_add (ins : Instruction)
    : ins.size = ins.header.length + ins.payload.length := by
  rw [← length_bytes, bytes_eq_header_append, List.length_append]

theorem SameShape.header_eq {first second : Instruction} (h : SameShape first second)
    : first.header = second.header := by
  unfold header
  rw [h.opcode_eq, h.lengthField_eq]

end Instruction

def InPayload (instructions : List Instruction) (index : Nat) : Prop :=
  ∃ front ins back, instructions = front ++ ins :: back
    ∧ (front.flatMap Instruction.bytes).length + ins.header.length ≤ index
    ∧ index < (front.flatMap Instruction.bytes).length + ins.size

theorem inPayload_cons_iff {ins : Instruction} {instructions : List Instruction} {index : Nat}
    : InPayload (ins :: instructions) index
        ↔
      (ins.header.length ≤ index ∧ index < ins.size)
        ∨ (ins.size ≤ index ∧ InPayload instructions (index - ins.size)) := by
  constructor
  . rintro ⟨front, push, back, hsplit, hlow, hhigh⟩
    cases front with
    | nil =>
      simp only [List.nil_append, List.cons.injEq] at hsplit
      obtain ⟨rfl, rfl⟩ := hsplit
      simp only [List.flatMap_nil, List.length_nil, Nat.zero_add] at hlow hhigh
      exact .inl ⟨hlow, hhigh⟩
    | cons first front =>
      simp only [List.cons_append, List.cons.injEq] at hsplit
      obtain ⟨rfl, rfl⟩ := hsplit
      simp only [List.flatMap_cons, List.length_append, Instruction.length_bytes] at hlow hhigh
      exact .inr ⟨by omega, front, push, back, rfl, by omega, by omega⟩
  . rintro (⟨hlow, hhigh⟩ | ⟨hindex, front, push, back, rfl, hlow, hhigh⟩)
    . exact ⟨[], ins, instructions, rfl, by simpa using hlow, by simpa using hhigh⟩
    . refine ⟨ins :: front, push, back, rfl, ?_, ?_⟩
      all_goals
        simp only [List.flatMap_cons, List.length_append, Instruction.length_bytes]
        omega

structure OverwritesPayloads (instructions : List Instruction) (script other : List UInt8)
    : Prop where
  length_eq : other.length = script.length
  inPayload : ∀ index, other[index]? ≠ script[index]? → InPayload instructions index

namespace OverwritesPayloads

variable {ins : Instruction} {instructions : List Instruction} {rest other : List UInt8}

theorem header_prefix (h : OverwritesPayloads (ins :: instructions) (ins.bytes ++ rest) other)
    : ins.header <+: other := by
  rw [List.prefix_iff_getElem?]
  intro index hindex
  have heq : other[index]? = (ins.bytes ++ rest)[index]? := by
    apply Decidable.byContradiction
    intro hne
    have := inPayload_cons_iff.mp (h.inPayload index hne)
    have := ins.size_eq_header_add
    omega
  rw [heq, Instruction.bytes_eq_header_append, List.append_assoc]
  rw [List.getElem?_append_left hindex, List.getElem?_eq_getElem hindex]

theorem exists_first (h : OverwritesPayloads (ins :: instructions) (ins.bytes ++ rest) other)
    : ∃ first rest', ins.SameShape first ∧ other = first.bytes ++ rest' := by
  obtain ⟨tail, rfl⟩ := h.header_prefix
  have hlength := h.length_eq
  simp only [List.length_append, Instruction.length_bytes, ins.size_eq_header_add] at hlength
  have hshape : ins.SameShape ⟨ins.opcode, tail.take ins.payload.length⟩ := by
    constructor
    . rfl
    . rw [List.length_take]
      omega
  refine ⟨_, tail.drop ins.payload.length, hshape, ?_⟩
  rw [Instruction.bytes_eq_header_append, ← hshape.header_eq, List.append_assoc]
  rw [List.take_append_drop]

theorem of_cons {first : Instruction} {rest' : List UInt8}
    (h : OverwritesPayloads (ins :: instructions) (ins.bytes ++ rest) (first.bytes ++ rest'))
    (hshape : ins.SameShape first)
    : OverwritesPayloads instructions rest rest' := by
  have hsize : first.size = ins.size := by
    rw [first.size_eq_header_add, ins.size_eq_header_add, hshape.header_eq, hshape.length_eq]
  constructor
  . have := h.length_eq
    simp only [List.length_append, Instruction.length_bytes, hsize] at this
    omega
  . intro index hne
    have hpayload : InPayload (ins :: instructions) (ins.size + index) := by
      apply h.inPayload
      rw [List.getElem?_append_right (by simp [hsize])]
      rw [List.getElem?_append_right (by simp)]
      simpa [hsize] using hne
    rw [inPayload_cons_iff] at hpayload
    rcases hpayload with ⟨-, hlt⟩ | ⟨-, hpayload⟩
    . omega
    . rwa [Nat.add_sub_cancel_left] at hpayload

theorem exists_sameShape
    (h : OverwritesPayloads instructions (instructions.flatMap Instruction.bytes) other)
    : ∃ others, other = others.flatMap Instruction.bytes
        ∧ List.Forall₂ Instruction.SameShape instructions others := by
  induction instructions generalizing other with
  | nil =>
    have := h.length_eq
    rw [List.flatMap_nil, List.length_nil, List.length_eq_zero_iff] at this
    exact ⟨[], this, .nil⟩
  | cons ins instructions ih =>
    rw [List.flatMap_cons] at h
    obtain ⟨first, rest', hshape, rfl⟩ := h.exists_first
    obtain ⟨others, rfl, hshapes⟩ := ih (h.of_cons hshape)
    exact ⟨first :: others, rfl, .cons hshape hshapes⟩

end OverwritesPayloads

theorem fits_of_sameShape {instructions others : List Instruction}
    (h : List.Forall₂ Instruction.SameShape instructions others)
    (hfits : ∀ ins ∈ instructions, ins.Fits)
    : ∀ ins ∈ others, ins.Fits := by
  induction h with
  | nil => exact hfits
  | cons hins _ ih =>
    rw [List.forall_mem_cons] at hfits ⊢
    exact ⟨hins.fits hfits.left, ih hfits.right⟩

section Judge

variable {script other : List UInt8} {instructions : List Instruction}

theorem decode_overwritten (hscript : decode script = ⟨instructions, none⟩)
    (h : OverwritesPayloads instructions script other)
    : ∃ others, decode other = ⟨others, none⟩
        ∧ List.Forall₂ Instruction.SameShape instructions others := by
  obtain ⟨hfits, rfl⟩ := decode_eq_complete_iff.mp hscript
  obtain ⟨others, rfl, hshapes⟩ := h.exists_sameShape
  exact ⟨others, decode_flatMap (fits_of_sameShape hshapes hfits), hshapes⟩

/--
Whatever is written over the payloads of a script, it decodes into the same opcodes with payloads of
the same sizes, and nothing that is decided about it changes.
-/
theorem overwritten_judged_alike (hscript : decode script = ⟨instructions, none⟩)
    (h : OverwritesPayloads instructions script other)
    : (∃ others, decode other = ⟨others, none⟩
          ∧ List.Forall₂ Instruction.SameShape instructions others)
        ∧ (∀ version, ScriptClass.ofScript version script = ScriptClass.ofScript version other)
        ∧ isStakeOutput script = isStakeOutput other
        ∧ stakeSubclass? script = stakeSubclass? other
        ∧ isPayToScriptHash script = isPayToScriptHash other
        ∧ isPushOnlyScript script = isPushOnlyScript other
        ∧ containsStakeTags script = containsStakeTags other
        ∧ (∀ amount, isUnspendable amount script = isUnspendable amount other)
        ∧ SigOps.ofScript script = SigOps.ofScript other
        ∧ (∀ signatureScript, SigOps.ofSpending signatureScript script false
            = SigOps.ofSpending signatureScript other false) := by
  obtain ⟨others, hother, hshapes⟩ := decode_overwritten hscript h
  exact ⟨⟨others, hother, hshapes⟩,
    ScriptClass.ofScript_congr hscript hother hshapes,
    isStakeOutput_congr hscript hother hshapes,
    stakeSubclass_congr hscript hother hshapes,
    isPayToScriptHash_congr hscript hother hshapes,
    isPushOnlyScript_congr hscript hother hshapes,
    containsStakeTags_congr hscript hother hshapes,
    isUnspendable_congr hscript hother hshapes,
    SigOps.ofScript_congr hscript hother hshapes,
    SigOps.ofSpending_congr hscript hother hshapes⟩

theorem tag_and_number_in_payload_judged_alike
    : decode [0x4c, 0x02, 0x00, 0x00, 0xae]
          = ⟨[⟨.pushData1, [0x00, 0x00]⟩, ⟨.checkMultisig, []⟩], none⟩
        ∧ OverwritesPayloads [⟨.pushData1, [0x00, 0x00]⟩, ⟨.checkMultisig, []⟩]
            [0x4c, 0x02, 0x00, 0x00, 0xae] [0x4c, 0x02, 0xba, 0x53, 0xae]
        ∧ containsStakeTags [0x4c, 0x02, 0xba, 0x53, 0xae] = .ok false
        ∧ SigOps.ofSpending [] [0x4c, 0x02, 0xba, 0x53, 0xae] false = 20 := by
  have hscript : decode [0x4c, 0x02, 0x00, 0x00, 0xae]
      = ⟨[⟨.pushData1, [0x00, 0x00]⟩, ⟨.checkMultisig, []⟩], none⟩ := by
    decide +kernel
  have hoverwrites : OverwritesPayloads [⟨.pushData1, [0x00, 0x00]⟩, ⟨.checkMultisig, []⟩]
      [0x4c, 0x02, 0x00, 0x00, 0xae] [0x4c, 0x02, 0xba, 0x53, 0xae] := by
    constructor
    . rfl
    . intro index hne
      refine ⟨[], ⟨.pushData1, [0x00, 0x00]⟩, [⟨.checkMultisig, []⟩], rfl, ?_⟩
      match index with
      | 0 | 1 | 4 => contradiction
      | 2 | 3 => decide
      | index + 5 => simp at hne
  obtain ⟨-, -, -, -, -, -, htags, -, -, hcost⟩ := overwritten_judged_alike hscript hoverwrites
  refine ⟨hscript, hoverwrites, ?_, ?_⟩
  . rw [← htags]
    decide +kernel
  . rw [← hcost]
    decide +kernel

end Judge

end ScriptAnalysis
