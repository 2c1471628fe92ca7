import ScriptAnalysis.Builder.Payment
import ScriptAnalysis.Proofs.Decode

/-!
This module contains payments to a hash, which push the hash among opcodes that stand alone. The
opcodes of a payment tell its form, and in each form there is exactly one script for a hash.
-/

namespace ScriptAnalysis

theorem operand_data20 : Opcode.data20.operand = .fixed 20 := by decide

def standAlone (opcodes : List Opcode) : List Instruction :=
  opcodes.map (⟨·, []⟩)

section StandAlone

variable {opcodes : List Opcode} (halone : ∀ op ∈ opcodes, op.operand = .none)

@[simp]
theorem map_opcode_standAlone (opcodes : List Opcode)
    : (standAlone opcodes).map (·.opcode) = opcodes := by
  simp [standAlone, Function.comp_def]

include halone

theorem fits_of_mem_standAlone : ∀ ins ∈ standAlone opcodes, ins.Fits := by
  unfold standAlone
  rw [List.forall_mem_map]
  intro op hop
  rw [Instruction.fits_iff_of_none (halone op hop)]

theorem flatMap_bytes_standAlone
    : (standAlone opcodes).flatMap Instruction.bytes = opcodes.map (·.byte) := by
  induction opcodes with
  | nil => rfl
  | cons op opcodes ih =>
    rw [List.forall_mem_cons] at halone
    have := ih halone.right
    unfold standAlone at *
    simp [this, Instruction.bytes_of_none halone.left]

theorem eq_standAlone_of_fits {instructions : List Instruction}
    (hfits : ∀ ins ∈ instructions, ins.Fits) (hopcodes : instructions.map (·.opcode) = opcodes)
    : instructions = standAlone opcodes := by
  subst hopcodes
  unfold standAlone
  rw [List.map_map]
  calc instructions
    _ = instructions.map id := by rw [List.map_id]
    _ = instructions.map ((⟨·, []⟩) ∘ (·.opcode)) := by
      apply List.map_congr_left
      rintro ⟨op, payload⟩ hins
      have hpayload := hfits _ hins
      rw [Instruction.fits_iff_of_none (halone op (List.mem_map_of_mem hins))] at hpayload
      rw [hpayload]
      rfl

end StandAlone

def pushAmong (front back : List Opcode) (push : Instruction) : List Instruction :=
  standAlone front ++ push :: standAlone back

def Hash160.push (hash : Hash160) : Instruction :=
  ⟨.data20, hash.bytes⟩

theorem Hash160.fits_push (hash : Hash160) : hash.push.Fits := by
  unfold push
  rw [Instruction.fits_iff_of_fixed operand_data20]
  exact hash.length_eq

theorem Hash160.bytes_push (hash : Hash160)
    : hash.push.bytes = Opcode.data20.byte :: hash.bytes := by
  apply Instruction.bytes_of_fixed operand_data20

def PaysToHash (front back : List Opcode) (script : List UInt8) : Prop :=
  ∃ instructions, decode script = ⟨instructions, none⟩
    ∧ instructions.map (·.opcode) = front ++ .data20 :: back

section PushAmong

variable {front back : List Opcode} (hfront : ∀ op ∈ front, op.operand = .none)
  (hback : ∀ op ∈ back, op.operand = .none)

@[simp]
theorem map_opcode_pushAmong (front back : List Opcode) (push : Instruction)
    : (pushAmong front back push).map (·.opcode) = front ++ push.opcode :: back := by
  simp [pushAmong]

include hfront hback

theorem fits_of_mem_pushAmong {push : Instruction} (hpush : push.Fits)
    : ∀ ins ∈ pushAmong front back push, ins.Fits := by
  rw [pushAmong, List.forall_mem_append, List.forall_mem_cons]
  exact ⟨fits_of_mem_standAlone hfront, hpush, fits_of_mem_standAlone hback⟩

theorem flatMap_bytes_pushAmong (push : Instruction)
    : (pushAmong front back push).flatMap Instruction.bytes
        =
      front.map (·.byte) ++ push.bytes ++ back.map (·.byte) := by
  rw [pushAmong, List.flatMap_append, List.flatMap_cons, flatMap_bytes_standAlone hfront,
    flatMap_bytes_standAlone hback, List.append_assoc]

theorem map_opcode_eq_iff_pushAmong {instructions : List Instruction}
    (hfits : ∀ ins ∈ instructions, ins.Fits)
    : instructions.map (·.opcode) = front ++ .data20 :: back
        ↔
      ∃ hash : Hash160, instructions = pushAmong front back hash.push := by
  constructor
  . intro h
    obtain ⟨before, behind, rfl, hbefore, hbehind⟩ := List.map_eq_append_iff.mp h
    obtain ⟨⟨_, payload⟩, after, rfl, rfl, hafter⟩ := List.map_eq_cons_iff.mp hbehind
    rw [List.forall_mem_append, List.forall_mem_cons] at hfits
    obtain ⟨hbeforeFits, hpush, hafterFits⟩ := hfits
    rw [Instruction.fits_iff_of_fixed operand_data20] at hpush
    refine ⟨⟨payload, hpush⟩, ?_⟩
    rw [eq_standAlone_of_fits hfront hbeforeFits hbefore,
      eq_standAlone_of_fits hback hafterFits hafter]
    rfl
  . rintro ⟨hash, rfl⟩
    apply map_opcode_pushAmong

theorem paysToHash_iff {script : List UInt8}
    : PaysToHash front back script
        ↔
      ∃ hash : Hash160, script = front.map (·.byte) ++ hash.push.bytes ++ back.map (·.byte) := by
  constructor
  . rintro ⟨instructions, hdecode, hopcodes⟩
    obtain ⟨hfits, rfl⟩ := decode_eq_complete_iff.mp hdecode
    rw [map_opcode_eq_iff_pushAmong hfront hback hfits] at hopcodes
    obtain ⟨hash, rfl⟩ := hopcodes
    exact ⟨hash, flatMap_bytes_pushAmong hfront hback hash.push⟩
  . rintro ⟨hash, rfl⟩
    rw [← flatMap_bytes_pushAmong hfront hback]
    have hfits := fits_of_mem_pushAmong hfront hback hash.fits_push
    exact ⟨_, decode_flatMap hfits, map_opcode_pushAmong front back hash.push⟩

theorem PaysToHash.length_eq {script : List UInt8} (h : PaysToHash front back script)
    : script.length = front.length + back.length + 21 := by
  obtain ⟨hash, rfl⟩ := (paysToHash_iff hfront hback).mp h
  simp only [Hash160.bytes_push, List.length_append, List.length_map, List.length_cons,
    hash.length_eq]
  omega

theorem PaysToHash.not_append {script tail : List UInt8} (h : PaysToHash front back script)
    (htail : tail ≠ [])
    : ¬ PaysToHash front back (script ++ tail) := by
  intro happend
  have hlength := h.length_eq hfront hback
  have hlength' := happend.length_eq hfront hback
  have := List.length_pos_iff.mpr htail
  rw [List.length_append] at hlength'
  omega

theorem PaysToHash.opcode_eq {push : Instruction} (hpush : push.Fits)
    (h : PaysToHash front back (front.map (·.byte) ++ push.bytes ++ back.map (·.byte)))
    : push.opcode = .data20 := by
  obtain ⟨instructions, hdecode, hopcodes⟩ := h
  rw [← flatMap_bytes_pushAmong hfront hback] at hdecode
  rw [decode_flatMap (fits_of_mem_pushAmong hfront hback hpush), Decoded.mk.injEq] at hdecode
  rw [← hdecode.left, map_opcode_pushAmong] at hopcodes
  simpa using hopcodes

end PushAmong

end ScriptAnalysis
