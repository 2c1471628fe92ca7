import Mathlib
import ScriptAnalysis.Payment.Stake
import ScriptAnalysis.Proofs.HashClass

/-!
This module contains which scripts belong to the stake classes: a stake tag in front of a payment
to the hash of a key or of a script. Without the tag such a script has the class of that payment.
-/

namespace ScriptAnalysis

namespace Opcode

theorem isStakeTag_iff {op : Opcode}
    : op.isStakeTag = true
        ↔
      op = .stakeSubmission ∨ op = .stakeGen ∨ op = .stakeRevocation ∨ op = .stakeChange := by
  rcases op with ⟨byte⟩
  simp only [isStakeTag, stakeSubmission, stakeGen, stakeRevocation, stakeChange, mk.injEq,
    UInt8.le_iff_toNat_le, ← UInt8.toNat_inj, decide_eq_true_eq, UInt8.reduceToNat]
  omega

theorem operand_of_isStakeTag {op : Opcode} (h : op.isStakeTag = true) : op.operand = .none := by
  rcases isStakeTag_iff.mp h with rfl | rfl | rfl | rfl <;> decide

end Opcode

section Cons

variable {op : Opcode} {first : Instruction} {rest : List Instruction} {script tail : List UInt8}

theorem decode_byte_cons (h : op.operand = .none) (tail : List UInt8)
    : decode (op.byte :: tail) = (decode tail).behind [⟨op, []⟩] := by
  have hfits : Instruction.Fits ⟨op, []⟩ := by rw [Instruction.fits_iff_of_none h]
  rw [← decode_bytes_append hfits, Instruction.bytes_of_none h]
  rfl

theorem decode_eq_cons_iff (h : first.opcode.operand = .none)
    : decode script = ⟨first :: rest, none⟩
        ↔
      first.payload = [] ∧ ∃ tail, script = first.opcode.byte :: tail
        ∧ decode tail = ⟨rest, none⟩ := by
  rcases first with ⟨op, payload⟩
  constructor
  . intro hdecode
    obtain ⟨hfits, rfl⟩ := decode_eq_complete_iff.mp hdecode
    rw [List.forall_mem_cons, Instruction.fits_iff_of_none h] at hfits
    obtain ⟨rfl, hrest⟩ := hfits
    refine ⟨rfl, _, ?_, decode_flatMap hrest⟩
    rw [List.flatMap_cons, Instruction.bytes_of_none h]
    rfl
  . rintro ⟨rfl, tail, rfl, hdecode⟩
    rw [decode_byte_cons h, hdecode]
    rfl

end Cons

namespace ScriptClass

def Taggable (cls : ScriptClass) : Prop :=
  cls = pubKeyHash ∨ cls = scriptHash

section Taggable

variable {cls : ScriptClass} {instructions : List Instruction}

theorem Taggable.not_isStakeTag (h : cls.Taggable) (hcls : cls.recognises instructions = true)
    : ∀ ins ∈ instructions, ins.opcode.isStakeTag = false := by
  intro ins hins
  have hop : ins.opcode ∈ instructions.map (·.opcode) := List.mem_map_of_mem hins
  rcases h with rfl | rfl
  . have hnone : ∀ op ∈ [Opcode.dup, .hash160, .data20, .equalVerify, .checkSig],
        op.isStakeTag = false := by
      decide
    rw [recognises_pubKeyHash_iff.mp hcls] at hop
    exact hnone _ hop
  . have hnone : ∀ op ∈ [Opcode.hash160, .data20, .equal], op.isStakeTag = false := by
      decide
    rw [recognises_scriptHash_iff.mp hcls] at hop
    exact hnone _ hop

theorem Taggable.filter_tag_cons {tag : Instruction} (h : cls.Taggable)
    (hcls : cls.recognises instructions = true) (htag : tag.opcode.isStakeTag = true)
    : (tag :: instructions).filter (fun ins => !ins.opcode.isStakeTag) = instructions := by
  rw [List.filter_cons_of_neg (by simp [htag]), List.filter_eq_self]
  intro ins hins
  rw [h.not_isStakeTag hcls ins hins, Bool.not_false]

theorem Taggable.ne_nonStandard (h : cls.Taggable) : cls ≠ nonStandard := by
  rcases h with rfl | rfl <;> decide

end Taggable

theorem exists_tag_iff {tag : Opcode}
    : (∃ cls : ScriptClass, cls.tag? = some tag) ↔ tag.isStakeTag = true := by
  rw [Opcode.isStakeTag_iff]
  constructor
  . rintro ⟨cls, hcls⟩
    cases cls <;> simp_all [tag?]
  . rintro (rfl | rfl | rfl | rfl)
    . exact ⟨stakeSubmission, rfl⟩
    . exact ⟨stakeGen, rfl⟩
    . exact ⟨stakeRevocation, rfl⟩
    . exact ⟨stakeChange, rfl⟩

theorem ne_nonStandard_of_tag {cls : ScriptClass} {tag : Opcode} (h : cls.tag? = some tag)
    : cls ≠ nonStandard := by
  rintro rfl
  contradiction

theorem recognises_iff_of_tag {cls : ScriptClass} {tag : Opcode} {instructions : List Instruction}
    (h : cls.tag? = some tag)
    : cls.recognises instructions = true
        ↔
      ∃ first rest, ∃ base : ScriptClass, instructions = first :: rest ∧ first.opcode = tag
        ∧ base.Taggable ∧ base.recognises rest = true := by
  have htemplates : ∀ keys, cls.templates keys
      = [Template.pubKeyHash.tagged tag, Template.scriptHash.tagged tag] := by
    intro keys
    cases cls <;> simp_all [tag?, templates, templates.taggedBy]
  cases instructions with
  | nil => simp [recognises, htemplates, Template.tagged, Template.accepts]
  | cons first rest =>
    have hkey : pubKeyHash.recognises rest = Template.pubKeyHash.accepts rest := by
      simp [recognises, templates]
    have hscript : scriptHash.recognises rest = Template.scriptHash.accepts rest := by
      simp [recognises, templates]
    have hcons : cls.recognises (first :: rest) = true
        ↔ first.opcode = tag
          ∧ (pubKeyHash.recognises rest = true ∨ scriptHash.recognises rest = true) := by
      rw [hkey, hscript]
      simp [recognises, htemplates, Template.tagged, Template.accepts, Slot.accepts, and_or_left]
    rw [hcons]
    constructor
    . rintro ⟨htag, hbase | hbase⟩
      . exact ⟨first, rest, pubKeyHash, rfl, htag, .inl rfl, hbase⟩
      . exact ⟨first, rest, scriptHash, rfl, htag, .inr rfl, hbase⟩
    . rintro ⟨_, _, base, heq, htag, hbase, hrecognises⟩
      cases heq
      rcases hbase with rfl | rfl
      . exact ⟨htag, .inl hrecognises⟩
      . exact ⟨htag, .inr hrecognises⟩

theorem isStake_ofInstructions_iff {instructions : List Instruction}
    : (ofInstructions instructions).isStake = true
        ↔
      ∃ first rest, ∃ base : ScriptClass, instructions = first :: rest
        ∧ first.opcode.isStakeTag = true ∧ base.Taggable ∧ base.recognises rest = true := by
  constructor
  . intro h
    obtain ⟨tag, htag⟩ := Option.isSome_iff_exists.mp h
    have hrecognises := (ofInstructions_eq_iff (ne_nonStandard_of_tag htag)).mp rfl
    obtain ⟨first, rest, base, hinstructions, hfirst, hbase⟩
      := (recognises_iff_of_tag htag).mp hrecognises
    refine ⟨first, rest, base, hinstructions, ?_, hbase⟩
    rw [hfirst, ← exists_tag_iff]
    exact ⟨_, htag⟩
  . rintro ⟨first, rest, base, rfl, hfirst, hbase⟩
    obtain ⟨cls, htag⟩ := exists_tag_iff.mpr hfirst
    have hrecognises : cls.recognises (first :: rest) = true :=
      (recognises_iff_of_tag htag).mpr ⟨first, rest, base, rfl, rfl, hbase⟩
    rw [(ofInstructions_eq_iff (ne_nonStandard_of_tag htag)).mpr hrecognises, isStake, htag]
    rfl

end ScriptClass

section Subclass

variable {script : List UInt8} {cls : ScriptClass}

theorem stakeSubclass_of_decode {first : Instruction} {rest : List Instruction}
    (hdecode : decode script = ⟨first :: rest, none⟩) (htag : first.opcode.isStakeTag = true)
    (hcls : cls.Taggable) (hrecognises : cls.recognises rest = true)
    : stakeSubclass? script = some cls := by
  have hstake : (ScriptClass.ofInstructions (first :: rest)).isStake = true :=
    ScriptClass.isStake_ofInstructions_iff.mpr ⟨first, rest, cls, rfl, htag, hcls, hrecognises⟩
  have huntagged := hcls.filter_tag_cons hrecognises htag
  unfold stakeSubclass?
  rw [Decoded.toExcept_eq_ok_iff.mpr hdecode]
  simp only [hstake, if_true, huntagged]
  rw [(ScriptClass.ofInstructions_eq_iff hcls.ne_nonStandard).mpr hrecognises]

theorem exists_decode_of_stakeSubclass (h : stakeSubclass? script = some cls)
    : ∃ first rest, decode script = ⟨first :: rest, none⟩ ∧ first.opcode.isStakeTag = true
        ∧ cls.Taggable ∧ cls.recognises rest = true := by
  have hsome := h
  unfold stakeSubclass? at hsome
  split at hsome
  . next instructions hdecode =>
    rw [Decoded.toExcept_eq_ok_iff] at hdecode
    split at hsome
    . next hstake =>
      obtain ⟨first, rest, base, rfl, htag, hbase, hrecognises⟩
        := ScriptClass.isStake_ofInstructions_iff.mp hstake
      rw [stakeSubclass_of_decode hdecode htag hbase hrecognises, Option.some.injEq] at h
      subst h
      exact ⟨first, rest, hdecode, htag, hbase, hrecognises⟩
    . contradiction
  . contradiction

theorem stakeSubclass_eq_some_iff
    : stakeSubclass? script = some cls
        ↔
      ∃ (tag : Opcode) (tail : List UInt8), tag.isStakeTag = true ∧ script = tag.byte :: tail
        ∧ cls.Taggable ∧ ScriptClass.ofScript 0 tail = cls := by
  constructor
  . intro h
    obtain ⟨first, rest, hdecode, htag, hcls, hrecognises⟩ := exists_decode_of_stakeSubclass h
    have hoperand := Opcode.operand_of_isStakeTag htag
    obtain ⟨-, tail, hscript, hrest⟩ := (decode_eq_cons_iff hoperand).mp hdecode
    refine ⟨first.opcode, tail, htag, hscript, hcls, ?_⟩
    rw [ScriptClass.ofScript_eq_iff hcls.ne_nonStandard]
    exact ⟨rfl, rest, hrest, hrecognises⟩
  . rintro ⟨tag, tail, htag, rfl, hcls, htail⟩
    rw [ScriptClass.ofScript_eq_iff hcls.ne_nonStandard] at htail
    obtain ⟨-, rest, hrest, hrecognises⟩ := htail
    have hoperand := Opcode.operand_of_isStakeTag htag
    have hdecode : decode (tag.byte :: tail) = ⟨⟨tag, []⟩ :: rest, none⟩ :=
      (decode_eq_cons_iff hoperand).mpr ⟨rfl, tail, rfl, hrest⟩
    exact stakeSubclass_of_decode hdecode htag hcls hrecognises

theorem isStakeOutput_eq_isSome (script : List UInt8)
    : isStakeOutput script = (stakeSubclass? script).isSome := by
  unfold isStakeOutput ScriptClass.ofScript stakeSubclass?
  rw [if_neg (not_not_intro rfl)]
  cases (decode script).toExcept with
  | error error => rfl
  | ok instructions =>
    cases hstake : (ScriptClass.ofInstructions instructions).isStake <;> simp [hstake]

theorem isStakeOutput_iff
    : isStakeOutput script = true
        ↔
      ∃ (tag : Opcode) (tail : List UInt8), tag.isStakeTag = true ∧ script = tag.byte :: tail
        ∧ (ScriptClass.ofScript 0 tail).Taggable := by
  rw [isStakeOutput_eq_isSome, Option.isSome_iff_exists]
  simp only [stakeSubclass_eq_some_iff]
  constructor
  . rintro ⟨_, tag, tail, htag, hscript, hcls, rfl⟩
    exact ⟨tag, tail, htag, hscript, hcls⟩
  . rintro ⟨tag, tail, htag, hscript, hcls⟩
    exact ⟨_, tag, tail, htag, hscript, hcls, rfl⟩

theorem stakeSubclass_of_not_isStakeOutput (h : isStakeOutput script = false)
    : stakeSubclass? script = none := by
  rw [isStakeOutput_eq_isSome] at h
  simpa using h

end Subclass

end ScriptAnalysis
