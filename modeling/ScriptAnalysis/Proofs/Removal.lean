import ScriptAnalysis.Proofs.RoundTrip
import ScriptAnalysis.Script.Pushes

namespace ScriptAnalysis

theorem Block.occursIn_iff_isInfix {block bytes : List UInt8}
    : occursIn block bytes = true ↔ block <:+: bytes := by
  rw [occursIn_iff]
  constructor
  . rintro ⟨front, back, h⟩
    exact ⟨front, back, h.symm⟩
  . rintro ⟨front, back, h⟩
    exact ⟨front, back, h.symm⟩

namespace Instruction

def KeptWithout (data : List UInt8) (ins : Instruction) : Prop :=
  ins.isCanonicalPush = false ∨ ¬ data <:+: ins.payload

instance (data : List UInt8) (ins : Instruction) : Decidable (ins.KeptWithout data) :=
  inferInstanceAs (Decidable (_ ∨ _))

theorem KeptWithout.of_isInfix {part whole : List UInt8} {ins : Instruction}
    (h : ins.KeptWithout part) (hpart : part <:+: whole)
    : ins.KeptWithout whole := by
  cases h with
  | inl hcanonical =>
    left
    assumption
  | inr hpayload =>
    right
    intro hwhole
    apply hpayload (hpart.trans hwhole)

end Instruction

theorem exists_script_of_sublist_decode {script : List UInt8} {kept : List Instruction}
    (h : kept.Sublist (decode script).instructions)
    : ∃ bytes, encode kept = .ok bytes ∧ decode bytes = ⟨kept, none⟩ := by
  have hfits : ∀ ins ∈ kept, ins.Fits := by
    intro ins hins
    apply fits_of_mem_decode (h.subset hins)
  have hencode := encode_script_eq_ok_iff.mpr ⟨hfits, rfl⟩
  exact ⟨_, hencode, encode_eq_ok_iff_decode_eq.mp hencode⟩

section Removal

variable {data : List UInt8} {instructions : List Instruction}

theorem removeData_eq_filter
    : removeData data instructions = instructions.filter (·.KeptWithout data) := by
  apply List.filter_congr
  intro ins _
  rw [Bool.eq_iff_iff, decide_eq_true_iff, Instruction.KeptWithout]
  rw [← Block.occursIn_iff_isInfix]
  cases ins.isCanonicalPush <;> simp

theorem removeData_sublist : (removeData data instructions).Sublist instructions := by
  apply List.filter_sublist

theorem removeData_comm (first second : List UInt8)
    : removeData second (removeData first instructions)
        =
      removeData first (removeData second instructions) := by
  simp only [removeData_eq_filter]
  apply List.filter_comm

theorem removeData_removeData
    : removeData data (removeData data instructions) = removeData data instructions := by
  simp only [removeData_eq_filter, List.filter_filter, Bool.and_self]

theorem removeData_sublist_of_isInfix {part whole : List UInt8} (h : part <:+: whole)
    : (removeData part instructions).Sublist (removeData whole instructions) := by
  simp only [removeData_eq_filter]
  apply List.monotone_filter_right
  intro ins hins
  rw [decide_eq_true_iff] at hins ⊢
  apply hins.of_isInfix h

end Removal

/--
Removing data keeps the instructions that stay without it. Removals commute, a second one changes
nothing, and a block removes no less than the data around it. What is kept of the instructions read
from a script can be encoded and decoded back.
-/
theorem removeData_keeps_script
    : (∀ (data : List UInt8) (instructions : List Instruction),
          removeData data instructions = instructions.filter (·.KeptWithout data))
      ∧ (∀ (first second : List UInt8) (instructions : List Instruction),
          removeData second (removeData first instructions)
            = removeData first (removeData second instructions))
      ∧ (∀ (data : List UInt8) (instructions : List Instruction),
          removeData data (removeData data instructions) = removeData data instructions)
      ∧ (∀ (part whole : List UInt8) (instructions : List Instruction), part <:+: whole
          → (removeData part instructions).Sublist (removeData whole instructions))
      ∧ (∀ (data script : List UInt8) (read : List Instruction),
          read <+: (decode script).instructions
            → ∃ bytes, encode (removeData data read) = .ok bytes
              ∧ decode bytes = ⟨removeData data read, none⟩) := by
  refine ⟨?_, ?_, ?_, ?_, ?_⟩
  . intro data instructions
    apply removeData_eq_filter
  . intro first second instructions
    apply removeData_comm
  . intro data instructions
    apply removeData_removeData
  . intro part whole instructions hpart
    apply removeData_sublist_of_isInfix hpart
  . intro data script read hread
    apply exists_script_of_sublist_decode
    apply removeData_sublist.trans hread.sublist

def cutScript : List UInt8 :=
  [0x02, 1, 2, 0x03, 9, 1, 2, 0x4c, 2, 1, 2, 0x05, 7]

theorem removeData_cutScript
    : removeData [1] (decode cutScript).instructions = [⟨.pushData1, [1, 2]⟩]
        ∧ (removeData [1] (decode cutScript).instructions).Sublist
            (removeData [9, 1] (decode cutScript).instructions)
        ∧ ∃ bytes, encode (removeData [9, 1] (decode cutScript).instructions) = .ok bytes
            ∧ decode bytes = ⟨[⟨.data 2, [1, 2]⟩, ⟨.pushData1, [1, 2]⟩], none⟩ := by
  obtain ⟨hkept, -, -, hmono, hscript⟩ := removeData_keeps_script
  have hinstructions : (decode cutScript).instructions
      = [⟨.data 2, [1, 2]⟩, ⟨.data 3, [9, 1, 2]⟩, ⟨.pushData1, [1, 2]⟩] := by
    decide +kernel
  refine ⟨?_, ?_, ?_⟩
  . rw [hkept, hinstructions]
    decide
  . apply hmono
    exact ⟨[9], [], rfl⟩
  . obtain ⟨bytes, hencode, hdecode⟩ := hscript [9, 1] cutScript _ (List.prefix_refl _)
    refine ⟨bytes, hencode, ?_⟩
    rw [hdecode, hkept, hinstructions]
    decide

end ScriptAnalysis
