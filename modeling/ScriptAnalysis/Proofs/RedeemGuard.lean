import ScriptAnalysis.Proofs.StakeClass

namespace ScriptAnalysis

/--
An output to a script hash. Behind a stake tag it is one in every script version: what a tagged
output pays to is asked without the version.
-/
def GuardedOutput (version : UInt16) (outputScript : List UInt8) : Prop :=
  (∃ (tag : Opcode) (hash : Hash160),
      tag.isStakeTag = true ∧ outputScript = tag.byte :: payToScriptHash hash)
    ∨ (version = 0 ∧ ∃ hash, outputScript = payToScriptHash hash)

theorem stakeSubclass_payToScriptHash (hash : Hash160)
    : stakeSubclass? (payToScriptHash hash) = none := by
  rw [Option.eq_none_iff_forall_ne_some]
  intro cls hcls
  obtain ⟨tag, tail, htag, heq, -⟩ := stakeSubclass_eq_some_iff.mp hcls
  have hbyte : Opcode.hash160.byte = tag.byte := (List.cons.inj heq).left
  have : tag = Opcode.hash160 := by rw [Opcode.mk.injEq, hbyte]
  subst this
  contradiction

theorem getD_stakeSubclass_eq_scriptHash_iff {version : UInt16} {outputScript : List UInt8}
    : (stakeSubclass? outputScript).getD (.ofScript version outputScript) = .scriptHash
        ↔
      GuardedOutput version outputScript := by
  unfold GuardedOutput
  cases hsubclass : stakeSubclass? outputScript with
  | some cls =>
    obtain ⟨tag, tail, htag, rfl, -, hcls⟩ := stakeSubclass_eq_some_iff.mp hsubclass
    rw [Option.getD_some, ← hcls, ScriptClass.ofScript_eq_scriptHash_iff,
      paysToHash_iff_payToScriptHash]
    constructor
    . rintro ⟨-, hash, rfl⟩
      exact .inl ⟨tag, hash, htag, rfl⟩
    . rintro (⟨other, hash, -, heq⟩ | ⟨-, hash, heq⟩)
      . exact ⟨rfl, hash, (List.cons.inj heq).right⟩
      . rw [heq, stakeSubclass_payToScriptHash] at hsubclass
        contradiction
  | none =>
    rw [Option.getD_none, ScriptClass.ofScript_eq_scriptHash_iff, paysToHash_iff_payToScriptHash]
    constructor
    . exact .inr
    . rintro (⟨tag, hash, htag, rfl⟩ | h)
      . have hcls : ScriptClass.ofScript 0 (payToScriptHash hash) = .scriptHash := by
          rw [ScriptClass.ofScript_eq_scriptHash_iff, paysToHash_iff_payToScriptHash]
          exact ⟨rfl, hash, rfl⟩
        rw [stakeSubclass_eq_some_iff.mpr ⟨tag, _, htag, rfl, .inr rfl, hcls⟩] at hsubclass
        contradiction
      . exact h

section Pushes

theorem Opcode.carriesData_or_op0_iff (op : Opcode)
    : (op.carriesData || op = .op0) = true ↔ op.byte ≤ Opcode.pushData4.byte := by
  rcases op with ⟨byte⟩
  simp only [Bool.or_eq_true, carriesData_iff, decide_eq_true_eq, op0, pushData4, mk.injEq,
    UInt8.le_iff_toNat_le, ← UInt8.toNat_inj, UInt8.reduceToNat]
  omega

variable {instructions : List Instruction} {script payload : List UInt8} {error : ScriptError}

theorem pushedPayloads_eq_error_iff
    : pushedPayloads script = .error error ↔ (decode script).error = some error := by
  apply Decoded.map_toExcept_eq_error_iff

theorem pushedPayloads_of_complete (h : decode script = ⟨instructions, none⟩)
    : pushedPayloads script
        =
      .ok ((instructions.filter (·.opcode.byte ≤ Opcode.pushData4.byte)).map (·.payload)) := by
  unfold pushedPayloads
  rw [Decoded.toExcept_eq_ok_iff.mpr h]
  change Except.ok _ = Except.ok _
  congr 2
  apply List.filter_congr
  intro ins _
  rw [Bool.eq_iff_iff, Opcode.carriesData_or_op0_iff, decide_eq_true_iff]

theorem filter_push_eq_nil (h : ∀ ins ∈ instructions, Opcode.pushData4.byte < ins.opcode.byte)
    : instructions.filter (·.opcode.byte ≤ Opcode.pushData4.byte) = [] := by
  rw [List.filter_eq_nil_iff]
  intro ins hins
  rw [decide_eq_true_iff, UInt8.not_le]
  exact h ins hins

def PushesNothing (script : List UInt8) : Prop :=
  ∃ instructions, decode script = ⟨instructions, none⟩
    ∧ ∀ ins ∈ instructions, Opcode.pushData4.byte < ins.opcode.byte

def PushesLast (script payload : List UInt8) : Prop :=
  ∃ front push back, decode script = ⟨front ++ push :: back, none⟩
    ∧ push.opcode.byte ≤ Opcode.pushData4.byte ∧ push.payload = payload
    ∧ ∀ ins ∈ back, Opcode.pushData4.byte < ins.opcode.byte

theorem PushesNothing.pushedPayloads (h : PushesNothing script)
    : pushedPayloads script = .ok [] := by
  obtain ⟨instructions, hdecode, hnone⟩ := h
  rw [pushedPayloads_of_complete hdecode, filter_push_eq_nil hnone]
  rfl

theorem PushesLast.pushedPayloads (h : PushesLast script payload)
    : ∃ front, pushedPayloads script = .ok (front ++ [payload]) := by
  obtain ⟨front, push, back, hdecode, hpush, rfl, hnone⟩ := h
  refine ⟨(front.filter (·.opcode.byte ≤ Opcode.pushData4.byte)).map (·.payload), ?_⟩
  rw [pushedPayloads_of_complete hdecode, List.filter_append, List.filter_cons,
    if_pos (decide_eq_true hpush), filter_push_eq_nil hnone, List.map_append]
  rfl

theorem pushes_cases (script : List UInt8)
    : (∃ error, (decode script).error = some error)
        ∨ PushesNothing script
        ∨ ∃ payload, PushesLast script payload := by
  cases hdecode : (decode script).toExcept with
  | error error =>
    rw [Decoded.toExcept_eq_error_iff] at hdecode
    exact .inl ⟨error, hdecode⟩
  | ok instructions =>
    rw [Decoded.toExcept_eq_ok_iff] at hdecode
    right
    cases hlast : instructions.reverse.find? (·.opcode.byte ≤ Opcode.pushData4.byte) with
    | none =>
      left
      refine ⟨instructions, hdecode, ?_⟩
      simpa using hlast
    | some push =>
      right
      obtain ⟨hpush, back, front, hsplit, hback⟩ := List.find?_eq_some_iff_append.mp hlast
      rw [List.reverse_eq_iff] at hsplit
      refine ⟨push.payload, front.reverse, push, back.reverse, ?_, of_decide_eq_true hpush, rfl,
        ?_⟩
      . rw [hdecode, hsplit]
        simp
      . simpa using hback

end Pushes

section Tags

variable {instructions : List Instruction} {script : List UInt8} {error : ScriptError}

theorem containsStakeTags_eq_error_iff
    : containsStakeTags script = .error error ↔ (decode script).error = some error := by
  apply Decoded.map_toExcept_eq_error_iff

theorem containsStakeTags_of_complete (h : decode script = ⟨instructions, none⟩)
    : containsStakeTags script = .ok (instructions.any (·.opcode.isStakeTag)) := by
  unfold containsStakeTags
  rw [Decoded.toExcept_eq_ok_iff.mpr h]
  rfl

end Tags

section Check

variable {version : UInt16} {signatureScript outputScript redeemScript : List UInt8}
  {front : List (List UInt8)} {error : ScriptError}

theorem checkRedeemScript_of_not_guarded (h : ¬ GuardedOutput version outputScript)
    (signatureScript : List UInt8)
    : checkRedeemScript version signatureScript outputScript = .ok () := by
  rw [← getD_stakeSubclass_eq_scriptHash_iff] at h
  simp only [checkRedeemScript, if_neg h]
  rfl

theorem checkRedeemScript_of_error (h : GuardedOutput version outputScript)
    (hpayloads : pushedPayloads signatureScript = .error error)
    : checkRedeemScript version signatureScript outputScript = .error error := by
  rw [← getD_stakeSubclass_eq_scriptHash_iff] at h
  simp only [checkRedeemScript, if_pos h, hpayloads]
  rfl

theorem checkRedeemScript_of_nil (h : GuardedOutput version outputScript)
    (hpayloads : pushedPayloads signatureScript = .ok [])
    : checkRedeemScript version signatureScript outputScript
        =
      .error (.notPushOnly "script has no pushed data") := by
  rw [← getD_stakeSubclass_eq_scriptHash_iff] at h
  simp only [checkRedeemScript, if_pos h, hpayloads]
  rfl

theorem checkRedeemScript_of_append (h : GuardedOutput version outputScript)
    (hpayloads : pushedPayloads signatureScript = .ok (front ++ [redeemScript]))
    : checkRedeemScript version signatureScript outputScript
        =
      match containsStakeTags redeemScript with
      | .ok true => .error (.stakeOpcodes "stake opcodes were found in a p2sh script")
      | .ok false => .ok ()
      | .error error => .error error := by
  rw [← getD_stakeSubclass_eq_scriptHash_iff] at h
  simp only [checkRedeemScript, if_pos h, hpayloads, bind, Except.bind, List.getLast?_concat]
  cases containsStakeTags redeemScript with
  | error error => rfl
  | ok tagged => cases tagged <;> rfl

inductive RedeemOutcome (version : UInt16) (signatureScript outputScript : List UInt8)
    : Except ScriptError Unit → Prop where
  | notGuarded (houtput : ¬ GuardedOutput version outputScript)
    : RedeemOutcome version signatureScript outputScript (.ok ())
  | malformedSignature {error : ScriptError} (houtput : GuardedOutput version outputScript)
      (hsignature : (decode signatureScript).error = some error)
    : RedeemOutcome version signatureScript outputScript (.error error)
  | nothingPushed (houtput : GuardedOutput version outputScript)
      (hsignature : PushesNothing signatureScript)
    : RedeemOutcome version signatureScript outputScript
        (.error (.notPushOnly "script has no pushed data"))
  | malformedRedeemScript {redeemScript : List UInt8} {error : ScriptError}
      (houtput : GuardedOutput version outputScript)
      (hsignature : PushesLast signatureScript redeemScript)
      (hredeem : (decode redeemScript).error = some error)
    : RedeemOutcome version signatureScript outputScript (.error error)
  | tagged {redeemScript : List UInt8} {instructions : List Instruction}
      (houtput : GuardedOutput version outputScript)
      (hsignature : PushesLast signatureScript redeemScript)
      (hredeem : decode redeemScript = ⟨instructions, none⟩)
      (htag : ∃ ins ∈ instructions, ins.opcode.isStakeTag = true)
    : RedeemOutcome version signatureScript outputScript
        (.error (.stakeOpcodes "stake opcodes were found in a p2sh script"))
  | untagged {redeemScript : List UInt8} {instructions : List Instruction}
      (houtput : GuardedOutput version outputScript)
      (hsignature : PushesLast signatureScript redeemScript)
      (hredeem : decode redeemScript = ⟨instructions, none⟩)
      (htag : ¬ ∃ ins ∈ instructions, ins.opcode.isStakeTag = true)
    : RedeemOutcome version signatureScript outputScript (.ok ())

variable {result : Except ScriptError Unit}

theorem RedeemOutcome.eq_checkRedeemScript
    (h : RedeemOutcome version signatureScript outputScript result)
    : checkRedeemScript version signatureScript outputScript = result := by
  cases h with
  | notGuarded houtput => exact checkRedeemScript_of_not_guarded houtput signatureScript
  | malformedSignature houtput hsignature =>
    exact checkRedeemScript_of_error houtput (pushedPayloads_eq_error_iff.mpr hsignature)
  | nothingPushed houtput hsignature =>
    exact checkRedeemScript_of_nil houtput hsignature.pushedPayloads
  | malformedRedeemScript houtput hsignature hredeem =>
    obtain ⟨front, hpayloads⟩ := hsignature.pushedPayloads
    rw [checkRedeemScript_of_append houtput hpayloads, containsStakeTags_eq_error_iff.mpr hredeem]
  | tagged houtput hsignature hredeem htag =>
    obtain ⟨front, hpayloads⟩ := hsignature.pushedPayloads
    rw [checkRedeemScript_of_append houtput hpayloads, containsStakeTags_of_complete hredeem,
      List.any_eq_true.mpr htag]
  | untagged houtput hsignature hredeem htag =>
    obtain ⟨front, hpayloads⟩ := hsignature.pushedPayloads
    rw [← List.any_eq_true, Bool.not_eq_true] at htag
    rw [checkRedeemScript_of_append houtput hpayloads, containsStakeTags_of_complete hredeem, htag]

theorem exists_redeemOutcome (version : UInt16) (signatureScript outputScript : List UInt8)
    : ∃ result, RedeemOutcome version signatureScript outputScript result := by
  by_cases houtput : GuardedOutput version outputScript
  . rcases pushes_cases signatureScript with ⟨error, herror⟩ | hnothing | ⟨redeem, hsignature⟩
    . exact ⟨_, .malformedSignature houtput herror⟩
    . exact ⟨_, .nothingPushed houtput hnothing⟩
    . cases hredeem : (decode redeem).toExcept with
      | error error =>
        rw [Decoded.toExcept_eq_error_iff] at hredeem
        exact ⟨_, .malformedRedeemScript houtput hsignature hredeem⟩
      | ok instructions =>
        rw [Decoded.toExcept_eq_ok_iff] at hredeem
        by_cases htag : ∃ ins ∈ instructions, ins.opcode.isStakeTag = true
        . exact ⟨_, .tagged houtput hsignature hredeem htag⟩
        . exact ⟨_, .untagged houtput hsignature hredeem htag⟩
  . exact ⟨_, .notGuarded houtput⟩

theorem checkRedeemScript_eq_iff
    : checkRedeemScript version signatureScript outputScript = result
        ↔
      RedeemOutcome version signatureScript outputScript result := by
  constructor
  . -- Some outcome applies, and the one that applies is what the check answers.
    rintro rfl
    obtain ⟨result, houtcome⟩ := exists_redeemOutcome version signatureScript outputScript
    rwa [houtcome.eq_checkRedeemScript]
  . exact RedeemOutcome.eq_checkRedeemScript

-- An unsupported version does not turn the check off for a tagged output.
example
    : checkRedeemScript 1 []
          (Opcode.stakeGen.byte :: payToScriptHash ⟨List.replicate 20 0, rfl⟩)
        =
      .error (.notPushOnly "script has no pushed data") := by
  decide +kernel

end Check

end ScriptAnalysis
