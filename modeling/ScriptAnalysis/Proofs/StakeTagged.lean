import ScriptAnalysis.Builder.Payment
import ScriptAnalysis.Proofs.StakeClass

namespace ScriptAnalysis

theorem Template.accepts_head {template : Template} {first : Instruction} {rest : List Instruction}
    (h : accepts template (first :: rest) = true)
    : ∃ slot, template.head? = some slot ∧ slot.accepts first = true := by
  cases template with
  | nil => simp [accepts] at h
  | cons slot template =>
    rw [accepts, Bool.and_eq_true] at h
    exact ⟨slot, rfl, h.left⟩

theorem decode_byte_cons_eq_complete_iff {op : Opcode} {tail : List UInt8}
    {instructions : List Instruction} (h : op.operand = .none)
    : decode (op.byte :: tail) = ⟨instructions, none⟩
        ↔
      ∃ rest, instructions = ⟨op, []⟩ :: rest ∧ decode tail = ⟨rest, none⟩ := by
  rw [decode_byte_cons h]
  rcases decode tail with ⟨rest, error⟩
  simp [Decoded.behind, eq_comm]

namespace ScriptClass

def openingSlots : List Slot :=
  [.key, .altKey, .op .dup, .op .hash160, .smallInt, .op .opReturn]

theorem head_templates_mem {cls : ScriptClass} (h : cls.tag? = none) {keys : Nat}
    {template : Template} (htemplate : template ∈ cls.templates keys)
    : template.head? ∈ openingSlots.map some := by
  have hfixed : ∀ template ∈ cls.templates 0, template.head? ∈ openingSlots.map some := by
    cases cls <;> first | decide | contradiction
  apply forall_templates ?_ hfixed template htemplate
  intro
  simp [Template.multisig, openingSlots]

theorem accepts_openingSlot {slot : Slot} {tag : Opcode} (hslot : slot ∈ openingSlots)
    (htag : tag.isStakeTag = true)
    : slot.accepts ⟨tag, []⟩ = false := by
  have : ∀ tag ∈ [Opcode.stakeSubmission, .stakeGen, .stakeRevocation, .stakeChange],
      ∀ slot ∈ openingSlots, slot.accepts ⟨tag, []⟩ = false := by
    decide
  apply this tag ?_ slot hslot
  simpa using Opcode.isStakeTag_iff.mp htag

section Recognises

variable {cls : ScriptClass} {tag : Opcode} {rest : List Instruction}

theorem tag_of_recognises (htag : tag.isStakeTag = true)
    (h : cls.recognises (⟨tag, []⟩ :: rest) = true)
    : cls.tag? = some tag := by
  cases hcls : cls.tag? with
  | some other =>
    obtain ⟨_, _, _, heq, hfirst, -⟩ := (recognises_iff_of_tag hcls).mp h
    cases heq
    rw [← hfirst]
  | none =>
    -- The templates of all other classes start with a slot that does not accept the tag.
    obtain ⟨template, hmem, haccepts⟩ := exists_template_of_recognises h
    obtain ⟨slot, hslot, haccepts⟩ := Template.accepts_head haccepts
    have hopening := head_templates_mem hcls hmem
    have : slot ∈ openingSlots := by simpa [hslot] using hopening
    rw [accepts_openingSlot this htag] at haccepts
    contradiction

theorem recognises_tag_cons_iff (htag : tag.isStakeTag = true)
    : cls.recognises (⟨tag, []⟩ :: rest) = true
        ↔
      cls.tag? = some tag ∧ ∃ base : ScriptClass, base.Taggable ∧ base.recognises rest = true := by
  constructor
  . intro h
    have hcls := tag_of_recognises htag h
    obtain ⟨_, _, base, heq, -, hbase⟩ := (recognises_iff_of_tag hcls).mp h
    cases heq
    exact ⟨hcls, base, hbase⟩
  . rintro ⟨hcls, base, hbase⟩
    rw [recognises_iff_of_tag hcls]
    exact ⟨_, rest, base, rfl, rfl, hbase⟩

end Recognises

theorem taggable_ofScript_iff {script : List UInt8}
    : (ofScript 0 script).Taggable
        ↔
      ∃ instructions, decode script = ⟨instructions, none⟩
        ∧ ∃ base : ScriptClass, base.Taggable ∧ base.recognises instructions = true := by
  constructor
  . intro h
    obtain ⟨-, instructions, hdecode, hbase⟩ := (ofScript_eq_iff h.ne_nonStandard).mp rfl
    exact ⟨instructions, hdecode, _, h, hbase⟩
  . rintro ⟨instructions, hdecode, base, hbase, hrecognises⟩
    rw [(ofScript_eq_iff hbase.ne_nonStandard).mpr ⟨rfl, instructions, hdecode, hrecognises⟩]
    exact hbase

theorem ofScript_tag_cons_iff {cls : ScriptClass} {tag : Opcode} {script : List UInt8}
    (hcls : cls ≠ nonStandard) (htag : tag.isStakeTag = true)
    : ofScript 0 (tag.byte :: script) = cls
        ↔
      cls.tag? = some tag ∧ (ofScript 0 script).Taggable := by
  have hoperand := Opcode.operand_of_isStakeTag htag
  rw [ofScript_eq_iff hcls, eq_self, true_and, taggable_ofScript_iff]
  simp only [decode_byte_cons_eq_complete_iff hoperand]
  constructor
  . rintro ⟨_, ⟨rest, rfl, hdecode⟩, hrecognises⟩
    obtain ⟨htag, hbase⟩ := (recognises_tag_cons_iff htag).mp hrecognises
    exact ⟨htag, rest, hdecode, hbase⟩
  . rintro ⟨hcls, rest, hdecode, hbase⟩
    exact ⟨_, ⟨rest, rfl, hdecode⟩, (recognises_tag_cons_iff htag).mpr ⟨hcls, hbase⟩⟩

theorem ofScript_tag_cons_of_not_taggable {tag : Opcode} {script : List UInt8}
    (htag : tag.isStakeTag = true) (h : ¬ (ofScript 0 script).Taggable)
    : ofScript 0 (tag.byte :: script) = nonStandard := by
  apply Decidable.byContradiction
  intro hne
  exact h ((ofScript_tag_cons_iff hne htag).mp rfl).right

end ScriptClass

section Tagged

variable {tag : Opcode} {script output : List UInt8}

theorem stakeTagged_eq_some_iff
    : stakeTagged? tag script = some output
        ↔
      tag.isStakeTag = true ∧ output = tag.byte :: script := by
  unfold stakeTagged?
  split
  . next htag => simp [htag, eq_comm]
  . next htag => simp [htag]

theorem stakeSubclass_of_taggable (htag : tag.isStakeTag = true)
    (h : (ScriptClass.ofScript 0 script).Taggable)
    : stakeSubclass? (tag.byte :: script) = some (.ofScript 0 script) := by
  rw [stakeSubclass_eq_some_iff]
  exact ⟨tag, script, htag, rfl, h, rfl⟩

theorem eq_of_tag_cons_eq {tag' : Opcode} {script' : List UInt8}
    (h : tag.byte :: script = tag'.byte :: script')
    : tag = tag' ∧ script = script' := by
  rcases tag with ⟨byte⟩
  rcases tag' with ⟨byte'⟩
  simpa using h

theorem isStakeOutput_of_not_taggable (h : ¬ (ScriptClass.ofScript 0 script).Taggable)
    : isStakeOutput (tag.byte :: script) = false := by
  rw [Bool.eq_false_iff, Ne, isStakeOutput_iff]
  rintro ⟨_, tail, -, heq, htaggable⟩
  rw [(eq_of_tag_cons_eq heq).right] at h
  exact h htaggable

theorem decode_tag_cons_filter (htag : tag.isStakeTag = true)
    (h : (ScriptClass.ofScript 0 script).Taggable)
    : ∃ instructions, decode (tag.byte :: script) = ⟨instructions, none⟩
        ∧ decode script = ⟨instructions.filter fun ins => !ins.opcode.isStakeTag, none⟩ := by
  obtain ⟨rest, hrest, base, hbase, hrecognises⟩ := ScriptClass.taggable_ofScript_iff.mp h
  refine ⟨⟨tag, []⟩ :: rest, ?_, ?_⟩
  . rw [decode_byte_cons_eq_complete_iff (Opcode.operand_of_isStakeTag htag)]
    exact ⟨rest, rfl, hrest⟩
  . rw [hbase.filter_tag_cons hrecognises htag]
    exact hrest

/--
A tag in front of a script gives a stake output, of the class of the tag, exactly if the script pays
to the hash of a key or of a script. A stake output has one tag and one script behind it, which is
what is left when all tags are dropped.
-/
theorem stakeTagged_isStakeOutput_iff_taggable
    : (∀ tag : Opcode, tag.isStakeTag = true → ∃ cls : ScriptClass, cls.tag? = some tag
          ∧ ∀ script, ∃ output, stakeTagged? tag script = some output
            ∧ ((ScriptClass.ofScript 0 script).Taggable
                → ScriptClass.ofScript 0 output = cls ∧ isStakeOutput output = true
                  ∧ stakeSubclass? output = some (.ofScript 0 script))
            ∧ (¬ (ScriptClass.ofScript 0 script).Taggable
                → ScriptClass.ofScript 0 output = .nonStandard ∧ isStakeOutput output = false
                  ∧ stakeSubclass? output = none))
      ∧ (∀ output, isStakeOutput output = true
          → ∃! parts : Opcode × List UInt8, stakeTagged? parts.1 parts.2 = some output
              ∧ (ScriptClass.ofScript 0 parts.2).Taggable)
      ∧ (∀ output, isStakeOutput output = true
          → ∃ instructions, decode output = ⟨instructions, none⟩
            ∧ decode (output.drop 1)
                = ⟨instructions.filter fun ins => !ins.opcode.isStakeTag, none⟩
            ∧ stakeSubclass? output = some (.ofScript 0 (output.drop 1))) := by
  refine ⟨?_, ?_, ?_⟩
  . intro tag htag
    obtain ⟨cls, hcls⟩ := ScriptClass.exists_tag_iff.mpr htag
    refine ⟨cls, hcls, ?_⟩
    intro script
    refine ⟨tag.byte :: script, stakeTagged_eq_some_iff.mpr ⟨htag, rfl⟩, ?_, ?_⟩
    . intro h
      have hne := ScriptClass.ne_nonStandard_of_tag hcls
      refine ⟨?_, ?_, stakeSubclass_of_taggable htag h⟩
      . exact (ScriptClass.ofScript_tag_cons_iff hne htag).mpr ⟨hcls, h⟩
      . exact isStakeOutput_iff.mpr ⟨tag, script, htag, rfl, h⟩
    . intro h
      have hstake : isStakeOutput (tag.byte :: script) = false := isStakeOutput_of_not_taggable h
      refine ⟨?_, hstake, stakeSubclass_of_not_isStakeOutput hstake⟩
      exact ScriptClass.ofScript_tag_cons_of_not_taggable htag h
  . intro output houtput
    obtain ⟨tag, script, htag, rfl, h⟩ := isStakeOutput_iff.mp houtput
    refine ⟨(tag, script), ⟨stakeTagged_eq_some_iff.mpr ⟨htag, rfl⟩, h⟩, ?_⟩
    rintro ⟨tag', script'⟩ ⟨htagged, -⟩
    obtain ⟨-, heq⟩ := stakeTagged_eq_some_iff.mp htagged
    obtain ⟨rfl, rfl⟩ := eq_of_tag_cons_eq heq
    rfl
  . intro output houtput
    obtain ⟨tag, script, htag, rfl, h⟩ := isStakeOutput_iff.mp houtput
    obtain ⟨instructions, houtput, hscript⟩ := decode_tag_cons_filter htag h
    exact ⟨instructions, houtput, hscript, stakeSubclass_of_taggable htag h⟩

theorem stakeTagged_scriptHash_once_not_twice
    : (ScriptClass.ofScript 0 (payToScriptHash ⟨List.replicate 20 0, rfl⟩)).Taggable
        ∧ ∃ once, stakeTagged? .stakeGen (payToScriptHash ⟨List.replicate 20 0, rfl⟩) = some once
          ∧ isStakeOutput once = true
          ∧ stakeSubclass? once = some .scriptHash
          ∧ ∃ twice, stakeTagged? .stakeGen once = some twice
            ∧ isStakeOutput twice = false := by
  have hclass : ScriptClass.ofScript 0 (payToScriptHash ⟨List.replicate 20 0, rfl⟩)
      = .scriptHash := by
    decide +kernel
  have htaggable : (ScriptClass.ofScript 0 (payToScriptHash ⟨List.replicate 20 0, rfl⟩)).Taggable
    := .inr hclass
  obtain ⟨cls, hcls, htagged⟩ := stakeTagged_isStakeOutput_iff_taggable.left .stakeGen (by decide)
  obtain ⟨once, honce, hsome, -⟩ := htagged (payToScriptHash ⟨List.replicate 20 0, rfl⟩)
  obtain ⟨hofScript, hstake, hsubclass⟩ := hsome htaggable
  obtain ⟨twice, htwice, -, hnone⟩ := htagged once
  refine ⟨htaggable, once, honce, hstake, ?_, twice, htwice, ?_⟩
  . rw [hsubclass, hclass]
  . apply (hnone ?_).right.left
    rw [hofScript]
    rintro (rfl | rfl) <;> contradiction

end Tagged

end ScriptAnalysis
