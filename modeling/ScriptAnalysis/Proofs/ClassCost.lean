import ScriptAnalysis.Proofs.Canonical
import ScriptAnalysis.Proofs.SigOps
import ScriptAnalysis.Proofs.StakeClass

/-!
This module contains that the class of a script fixes its signature operations. A template fixes
what each of its positions costs, whatever is counted, as long as it holds no multisig check. What
such a check costs is decided by the instruction in front of it, which counts the keys.
-/

namespace ScriptAnalysis

namespace Opcode

theorem isPush_of_isPositiveSmallInt {op : Opcode} (h : op.isPositiveSmallInt = true)
    : op.isPush = true := by
  simp only [isPositiveSmallInt, decide_eq_true_eq] at h
  simp [isPush, h.right]

theorem isPush_of_isSmallInt {op : Opcode} (h : op.isSmallInt = true) : op.isPush = true := by
  unfold isSmallInt smallInt? at h
  split at h
  . next hop =>
    subst hop
    decide
  . split at h
    . next hop => exact isPush_of_isPositiveSmallInt hop
    . contradiction

end Opcode

theorem Instruction.Fits.carriesData_of_isKeySize {ins : Instruction} (h : ins.Fits)
    (hsize : Limits.isKeySize ins.payload.length = true)
    : ins.opcode.carriesData = true := by
  apply h.carriesData
  intro hpayload
  simp [hpayload, Limits.isKeySize] at hsize

theorem Instruction.Fits.isPush_of_isKeySize {ins : Instruction} (h : ins.Fits)
    (hsize : Limits.isKeySize ins.payload.length = true)
    : ins.opcode.isPush = true := by
  apply Opcode.isPush_of_carriesData
  apply h.carriesData_of_isKeySize hsize

namespace SigOps

theorem cost_of_isStakeTag {tag : Opcode} (h : tag.isStakeTag = true) (counting : Counting)
    (previous : Option Opcode)
    : cost counting previous tag = 0 := by
  have : ∀ tag ∈ [Opcode.stakeSubmission, .stakeGen, .stakeRevocation, .stakeChange],
      tag.isMultisigCheck = false ∧ cost .worstCase none tag = 0 := by
    decide
  obtain ⟨hcheck, hcost⟩ := this tag (by simpa using Opcode.isStakeTag_iff.mp h)
  rw [cost_of_not_isMultisigCheck hcheck, hcost]

end SigOps

namespace Slot

def isMultisigCheck : Slot → Bool
  | op opcode => opcode.isMultisigCheck
  | _ => false

def cost : Slot → Nat
  | op opcode => SigOps.cost .worstCase none opcode
  | _ => 0

theorem isPush_of_accepts {slot : Slot} {ins : Instruction} (hslot : ∀ opcode, slot ≠ op opcode)
    (h : slot.accepts ins = true) (hfits : ins.Fits)
    : ins.opcode.isPush = true := by
  have hadmits := admits_of_accepts h
  cases slot with
  | op opcode => exact absurd rfl (hslot opcode)
  | key => exact hfits.isPush_of_isKeySize h
  | altKey => exact Opcode.isPush_of_carriesData hadmits
  | suite => exact Opcode.isPush_of_isPositiveSmallInt hadmits
  | smallInt => exact Opcode.isPush_of_isSmallInt hadmits
  | carrier =>
    simp only [admits, decide_eq_true_eq] at hadmits
    cases hadmits with
    | inl hadmits => exact Opcode.isPush_of_isSmallInt hadmits
    | inr hadmits =>
      rw [Opcode.isPush, decide_eq_true_iff]
      exact UInt8.le_trans hadmits (by decide)

theorem cost_of_accepts {slot : Slot} {ins : Instruction} (hslot : slot.isMultisigCheck = false)
    (h : slot.accepts ins = true) (hfits : ins.Fits) (counting : SigOps.Counting)
    (previous : Option Opcode)
    : SigOps.cost counting previous ins.opcode = slot.cost := by
  cases slot with
  | op opcode =>
    rw [accepts_op_iff.mp h]
    exact SigOps.cost_of_not_isMultisigCheck hslot counting previous
  | _ => exact SigOps.cost_of_isPush (isPush_of_accepts (by simp) h hfits) counting previous

end Slot

namespace Template

def cost (template : Template) : Nat :=
  (template.map Slot.cost).sum

theorem count_go_of_accepts {template : Template} {instructions : List Instruction}
    (htemplate : ∀ slot ∈ template, slot.isMultisigCheck = false)
    (h : template.accepts instructions = true) (hfits : ∀ ins ∈ instructions, ins.Fits)
    (counting : SigOps.Counting) (previous : Option Opcode) (acc : Nat)
    : SigOps.count.go counting previous acc instructions = acc + template.cost := by
  induction template generalizing instructions previous acc with
  | nil =>
    cases instructions with
    | nil => rfl
    | cons => simp [accepts] at h
  | cons slot template ih =>
    cases instructions with
    | nil => simp [accepts] at h
    | cons ins instructions =>
      rw [accepts, Bool.and_eq_true] at h
      rw [List.forall_mem_cons] at htemplate hfits
      have hcost := Slot.cost_of_accepts htemplate.left h.left hfits.left counting previous
      rw [SigOps.count.go, hcost, ih htemplate.right h.right hfits.right]
      simp [cost, Nat.add_assoc]

end Template

namespace ScriptClass

def cost : ScriptClass → Nat
  | pubKey | pubKeyAlt | pubKeyHash | pubKeyHashAlt => 1
  | _ => 0

section Count

variable {cls : ScriptClass} {instructions : List Instruction} {script : List UInt8}

theorem isMultisigCheck_templates (cls : ScriptClass)
    : ∀ template ∈ cls.templates 0, ∀ slot ∈ template, slot.isMultisigCheck = false := by
  cases cls <;> decide

theorem cost_templates (h : cls.tag? = none)
    : ∀ template ∈ cls.templates 0, template.cost = cls.cost := by
  cases cls <;> first | decide | contradiction

theorem count_go_of_recognises (hcls : cls ≠ multisig) (htag : cls.tag? = none)
    (h : cls.recognises instructions = true) (hfits : ∀ ins ∈ instructions, ins.Fits)
    (counting : SigOps.Counting) (previous : Option Opcode) (acc : Nat)
    : SigOps.count.go counting previous acc instructions = acc + cls.cost := by
  obtain ⟨template, hmem, haccepts⟩ := exists_template_of_recognises h
  rw [templates_of_ne_multisig hcls] at hmem
  rw [← cost_templates htag template hmem]
  exact Template.count_go_of_accepts (cls.isMultisigCheck_templates template hmem) haccepts hfits
    counting previous acc

theorem count_tag_cons {first : Instruction} (hcls : cls.Taggable)
    (h : cls.recognises instructions = true) (hfits : ∀ ins ∈ instructions, ins.Fits)
    (hfirst : first.opcode.isStakeTag = true) (counting : SigOps.Counting)
    : SigOps.count counting (first :: instructions) = cls.cost := by
  have hmultisig : cls ≠ multisig := by
    rcases hcls with rfl | rfl <;> decide
  have htag : cls.tag? = none := by
    rcases hcls with rfl | rfl <;> rfl
  unfold SigOps.count
  rw [SigOps.count.go, SigOps.cost_of_isStakeTag hfirst]
  rw [count_go_of_recognises hmultisig htag h hfits, Nat.zero_add]

theorem isPushOnly_in_front_of_check {first last : Instruction} {keys : List Instruction}
    (hfirst : first.opcode.isSmallInt = true)
    (hkeys : ∀ key ∈ keys, Limits.isKeySize key.payload.length = true)
    (hfits : ∀ key ∈ keys, key.Fits) (hle : keys.length ≤ 16)
    (hlast : last.opcode = .smallInt keys.length)
    : isPushOnly (first :: keys ++ [last]) = true := by
  simp only [isPushOnly, List.all_append, List.all_cons, List.all_nil, Bool.and_true,
    Bool.and_eq_true, List.all_eq_true]
  refine ⟨⟨Opcode.isPush_of_isSmallInt hfirst, ?_⟩, ?_⟩
  . intro key hkey
    exact (hfits key hkey).isPush_of_isKeySize (hkeys key hkey)
  . rw [hlast]
    exact Opcode.isPush_smallInt hle

theorem count_multisig {first last check : Instruction} {keys : List Instruction}
    (hfirst : first.opcode.isSmallInt = true)
    (hkeys : ∀ key ∈ keys, Limits.isKeySize key.payload.length = true)
    (hfits : ∀ key ∈ keys, key.Fits) (hle : keys.length ≤ 16)
    (hlast : last.opcode = .smallInt keys.length) (hcheck : check.opcode = .checkMultisig)
    (counting : SigOps.Counting)
    : SigOps.count counting (first :: (keys ++ [last, check]))
        =
      SigOps.cost counting (some (.smallInt keys.length)) .checkMultisig := by
  have hpush := isPushOnly_in_front_of_check hfirst hkeys hfits hle hlast
  rw [← hlast, ← hcheck, ← SigOps.count_of_isPushOnly hpush counting]
  simp

theorem ofSpending_of_recognises (hdecode : decode script = ⟨instructions, none⟩)
    (h : cls.recognises instructions = true) {scriptHashes : Bool}
    (hcls : cls ≠ scriptHash ∨ scriptHashes = false) (signatureScript : List UInt8)
    : SigOps.ofSpending signatureScript script scriptHashes
        =
      SigOps.count .precise instructions := by
  have hno : (scriptHashes && isScriptHash instructions) = false := by
    rw [Bool.and_eq_false_iff]
    cases hcls with
    | inl hcls =>
      right
      rw [isScriptHash_eq_recognises, Bool.eq_false_iff]
      intro hrecognises
      exact hcls (eq_of_recognises h hrecognises)
    | inr hcls => exact .inl hcls
  simp [SigOps.ofSpending, hdecode, hno]

end Count

end ScriptClass

section Script

variable {cls : ScriptClass} {script : List UInt8}

theorem cost_of_ofScript (h : ScriptClass.ofScript 0 script = cls) (hcls : cls ≠ .nonStandard)
    (hmultisig : cls ≠ .multisig) (htag : cls.tag? = none) {scriptHashes : Bool}
    (hcharged : cls ≠ .scriptHash ∨ scriptHashes = false) (signatureScript : List UInt8)
    : SigOps.ofScript script = cls.cost
        ∧ SigOps.ofSpending signatureScript script scriptHashes = cls.cost := by
  obtain ⟨-, instructions, hdecode, hrecognises⟩ := (ScriptClass.ofScript_eq_iff hcls).mp h
  have hfits := (decode_eq_complete_iff.mp hdecode).left
  have hcount : ∀ counting, SigOps.count counting instructions = cls.cost := by
    intro counting
    unfold SigOps.count
    rw [ScriptClass.count_go_of_recognises hmultisig htag hrecognises hfits, Nat.zero_add]
  constructor
  . rw [SigOps.ofScript, hdecode, hcount]
  . rw [ScriptClass.ofSpending_of_recognises hdecode hrecognises hcharged, hcount]

theorem cost_of_stakeSubclass (h : stakeSubclass? script = some cls) (scriptHashes : Bool)
    (signatureScript : List UInt8)
    : SigOps.ofScript script = cls.cost
        ∧ SigOps.ofSpending signatureScript script scriptHashes = cls.cost := by
  obtain ⟨first, rest, hdecode, hfirst, hcls, hrecognises⟩ := exists_decode_of_stakeSubclass h
  have hfits := (decode_eq_complete_iff.mp hdecode).left
  rw [List.forall_mem_cons] at hfits
  have hcount := ScriptClass.count_tag_cons hcls hrecognises hfits.right hfirst
  have hstake : (ScriptClass.ofInstructions (first :: rest)).isStake = true :=
    ScriptClass.isStake_ofInstructions_iff.mpr ⟨first, rest, cls, rfl, hfirst, hcls, hrecognises⟩
  -- The whole script is of a stake class, so it is not charged for a redeem script itself.
  generalize hwhole : ScriptClass.ofInstructions (first :: rest) = whole at hstake
  have hne : whole ≠ .nonStandard ∧ whole ≠ .scriptHash := by
    constructor <;> rintro rfl <;> contradiction
  rw [ScriptClass.ofInstructions_eq_iff hne.left] at hwhole
  constructor
  . rw [SigOps.ofScript, hdecode, hcount]
  . rw [ScriptClass.ofSpending_of_recognises hdecode hwhole (.inl hne.right), hcount]

theorem cost_of_multisig (h : ScriptClass.ofScript 0 script = .multisig) (scriptHashes : Bool)
    (signatureScript : List UInt8)
    : SigOps.ofScript script = Limits.maxMultisigKeys
        ∧ ∃ first keys last check, decode script = ⟨first :: (keys ++ [last, check]), none⟩
          ∧ (∀ key ∈ keys, Limits.isKeySize key.payload.length = true)
          ∧ 1 ≤ keys.length ∧ keys.length ≤ 16
          ∧ SigOps.ofSpending signatureScript script scriptHashes = keys.length := by
  obtain ⟨-, instructions, hdecode, hrecognises⟩ := (ScriptClass.ofScript_eq_iff (by decide)).mp h
  obtain ⟨first, keys, last, check, rfl, hpos, hle, hfirst, hkeys, hlast, hcheck⟩
    := ScriptClass.exists_of_recognises_multisig hrecognises
  have hfits : ∀ key ∈ keys, key.Fits := by
    intro key hkey
    apply (decode_eq_complete_iff.mp hdecode).left
    simp [hkey]
  have hcount := ScriptClass.count_multisig hfirst hkeys hfits hle hlast hcheck
  constructor
  . rw [SigOps.ofScript, hdecode, hcount]
    rfl
  . refine ⟨first, keys, last, check, hdecode, hkeys, hpos, hle, ?_⟩
    rw [ScriptClass.ofSpending_of_recognises hdecode hrecognises (.inl (by decide)), hcount]
    exact SigOps.cost_precise_smallInt hpos hle

theorem class_fixes_cost (script signatureScript : List UInt8) (scriptHashes : Bool)
    : (∀ cls ∈ [ScriptClass.pubKey, .pubKeyAlt, .pubKeyHash, .pubKeyHashAlt],
          ScriptClass.ofScript 0 script = cls
            → SigOps.ofScript script = 1
              ∧ SigOps.ofSpending signatureScript script scriptHashes = 1)
      ∧ (ScriptClass.ofScript 0 script = .multisig
          → SigOps.ofScript script = 20
            ∧ ∃ first keys last check, decode script = ⟨first :: (keys ++ [last, check]), none⟩
              ∧ (∀ key ∈ keys, Limits.isKeySize key.payload.length = true)
              ∧ 1 ≤ keys.length ∧ keys.length ≤ 16
              ∧ SigOps.ofSpending signatureScript script scriptHashes = keys.length)
      ∧ (ScriptClass.ofScript 0 script = .nullData
          → SigOps.ofScript script = 0
            ∧ SigOps.ofSpending signatureScript script scriptHashes = 0)
      ∧ ((ScriptClass.ofScript 0 script).isStake = true
          → (stakeSubclass? script = some .pubKeyHash ∧ SigOps.ofScript script = 1
                ∧ SigOps.ofSpending signatureScript script scriptHashes = 1)
            ∨ (stakeSubclass? script = some .scriptHash ∧ SigOps.ofScript script = 0
                ∧ SigOps.ofSpending signatureScript script scriptHashes = 0))
      ∧ (ScriptClass.ofScript 0 script = .scriptHash
          → SigOps.ofScript script = 0 ∧ SigOps.ofSpending signatureScript script false = 0) := by
  refine ⟨?_, ?_, ?_, ?_, ?_⟩
  . intro cls hmem h
    have hkinds : ∀ cls ∈ [ScriptClass.pubKey, .pubKeyAlt, .pubKeyHash, .pubKeyHashAlt],
        cls ≠ .nonStandard ∧ cls ≠ .multisig ∧ cls.tag? = none ∧ cls ≠ .scriptHash
          ∧ cls.cost = 1 := by
      decide
    obtain ⟨hstandard, hmultisig, htag, hhash, hcost⟩ := hkinds cls hmem
    rw [← hcost]
    exact cost_of_ofScript h hstandard hmultisig htag (.inl hhash) signatureScript
  . intro h
    exact cost_of_multisig h scriptHashes signatureScript
  . intro h
    exact cost_of_ofScript h (by decide) (by decide) rfl (.inl (by decide)) signatureScript
  . intro h
    have hsome : (stakeSubclass? script).isSome = true := by
      rw [← isStakeOutput_eq_isSome]
      exact h
    obtain ⟨cls, hcls⟩ := Option.isSome_iff_exists.mp hsome
    have hcost := cost_of_stakeSubclass hcls scriptHashes signatureScript
    obtain ⟨-, -, -, -, htaggable, -⟩ := exists_decode_of_stakeSubclass hcls
    cases htaggable with
    | inl hbase =>
      subst hbase
      exact .inl ⟨hcls, hcost⟩
    | inr hbase =>
      subst hbase
      exact .inr ⟨hcls, hcost⟩
  . intro h
    exact cost_of_ofScript h (by decide) (by decide) rfl (.inr rfl) signatureScript

def noneOfOne : List UInt8 :=
  [0x00, 0x4c, 0x21] ++ List.replicate 33 0x02 ++ [0x51, 0xae]

theorem noneOfOne_costs_one_key
    : ScriptClass.ofScript 0 noneOfOne = .multisig ∧ SigOps.ofScript noneOfOne = 20
        ∧ SigOps.ofSpending [] noneOfOne true = 1 := by
  have hclass : ScriptClass.ofScript 0 noneOfOne = .multisig := by decide +kernel
  have hlength : (decode noneOfOne).instructions.length = 4 := by decide +kernel
  obtain ⟨-, hmultisig, -⟩ := class_fixes_cost noneOfOne [] true
  obtain ⟨hworst, first, keys, last, check, hdecode, -, -, -, hprecise⟩ := hmultisig hclass
  refine ⟨hclass, hworst, ?_⟩
  simp only [hdecode, List.length_cons, List.length_append, List.length_nil] at hlength
  omega

end Script

end ScriptAnalysis
