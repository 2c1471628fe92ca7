import ScriptAnalysis.Builder.Multisig
import ScriptAnalysis.Payment.MultisigTerms
import ScriptAnalysis.Proofs.Builder
import ScriptAnalysis.Proofs.Decode
import ScriptAnalysis.Proofs.ScriptClass
import ScriptAnalysis.Proofs.SigOps

namespace ScriptAnalysis

theorem Limits.eq_of_isKeySize {size : Nat} (h : isKeySize size = true)
    : size = 33 ∨ size = 65 := by
  simpa [isKeySize] using h

namespace MultisigTerms

theorem ofPreceding_of_not_smallInt {last : Instruction} (h : last.opcode.smallInt? = none)
    (before : List Instruction)
    : ofPreceding? (last :: before) = none := by
  simp [ofPreceding?, h]

theorem ofPreceding_eq_ite {first last : Instruction} {keys : List Instruction} {required : Nat}
    (hpos : 0 < keys.length) (hlast : last.opcode.smallInt? = some keys.length)
    (hkeys : ∀ key ∈ keys, pushesKey key = true) (hfirst : first.opcode.smallInt? = some required)
    (before : List Instruction)
    : ofPreceding? (last :: (keys.reverse ++ first :: before))
        =
      if required ≤ keys.length then some ⟨required, keys.map (·.payload)⟩ else none := by
  have htake : (keys.reverse ++ first :: before).take keys.length = keys.reverse := by
    apply List.take_left'
    simp
  have hdrop : (keys.reverse ++ first :: before).drop keys.length = first :: before := by
    apply List.drop_left'
    simp
  unfold ofPreceding?
  simp only [hlast, htake, hdrop, hfirst]
  rw [if_neg]
  . simp
  . simp only [List.length_reverse, List.all_reverse, ne_eq, not_true_eq_false, false_or, not_or,
      not_not, List.all_eq_true]
    exact ⟨by omega, hkeys⟩

theorem ofPreceding_of_shape {first last : Instruction} {keys : List Instruction} {required : Nat}
    (hpos : 0 < keys.length) (hlast : last.opcode.smallInt? = some keys.length)
    (hkeys : ∀ key ∈ keys, pushesKey key = true) (hfirst : first.opcode.smallInt? = some required)
    (hle : required ≤ keys.length) (before : List Instruction)
    : ofPreceding? (last :: (keys.reverse ++ first :: before))
        =
      some ⟨required, keys.map (·.payload)⟩ := by
  rw [ofPreceding_eq_ite hpos hlast hkeys hfirst, if_pos hle]

theorem atIndex_length_sub_one (front : List Instruction) (last : Instruction)
    : atIndex? (front ++ [last]) ((front ++ [last]).length - 1) = ofPreceding? front.reverse := by
  simp [atIndex?]

end MultisigTerms

namespace Instruction

theorem canonicalPush_of_isKeySize {key : List UInt8} (h : Limits.isKeySize key.length = true)
    : canonicalPush key = ⟨.data key.length, key⟩ := by
  apply canonicalPush_of_length
  all_goals
    have := Limits.eq_of_isKeySize h
    omega

theorem operand_of_isKeySize {size : Nat} (h : Limits.isKeySize size = true)
    : (Opcode.data size).operand = .fixed size := by
  apply Opcode.operand_data
  all_goals
    have := Limits.eq_of_isKeySize h
    omega

theorem pushesKey_canonicalPush {key : List UInt8} (h : Limits.isKeySize key.length = true)
    : MultisigTerms.pushesKey (canonicalPush key) = true := by
  simp [canonicalPush_of_isKeySize h, MultisigTerms.pushesKey, Opcode.carriesData,
    operand_of_isKeySize h, h]

theorem map_payload_canonicalPush {keys : List (List UInt8)}
    (h : ∀ key ∈ keys, Limits.isKeySize key.length = true)
    : (keys.map canonicalPush).map (·.payload) = keys := by
  calc (keys.map canonicalPush).map (·.payload)
    _ = keys.map id := by
      rw [List.map_map]
      apply List.map_congr_left
      intro key hkey
      simp [canonicalPush_of_isKeySize (h key hkey)]
    _ = keys := by rw [List.map_id]

theorem size_canonicalPush_of_isKeySize {key : List UInt8}
    (h : Limits.isKeySize key.length = true)
    : (canonicalPush key).size ≤ 66 := by
  rw [canonicalPush_of_isKeySize h, size_of_fixed (operand_of_isKeySize h)]
  have := Limits.eq_of_isKeySize h
  omega

theorem length_flatMap_canonicalPush_le {keys : List (List UInt8)}
    (h : ∀ key ∈ keys, Limits.isKeySize key.length = true)
    : ((keys.map canonicalPush).flatMap bytes).length ≤ 66 * keys.length := by
  induction keys with
  | nil => simp
  | cons key keys ih =>
    rw [List.forall_mem_cons] at h
    have := size_canonicalPush_of_isKeySize h.left
    have := ih h.right
    rw [List.map_cons, List.flatMap_cons, List.length_append, length_bytes, List.length_cons]
    omega

end Instruction

namespace ScriptBuilder

theorem addKeys_cons (builder : ScriptBuilder) (key : List UInt8) (keys : List (List UInt8))
    : builder.addKeys (key :: keys)
        =
      if Limits.isKeySize key.length then
        (builder.addData key).mapError .builder >>= (·.addKeys keys)
      else
        .error (.invalidKeySize key.length) := by
  unfold addKeys
  rw [List.foldlM_cons]
  split <;> rfl

theorem addKeys_of_isKeySize {builder : ScriptBuilder} {keys : List (List UInt8)}
    (hroom : builder.HasRoom (66 * keys.length))
    (hkeys : ∀ key ∈ keys, Limits.isKeySize key.length = true)
    : builder.addKeys keys
        =
      .ok (builder.append ((keys.map Instruction.canonicalPush).flatMap Instruction.bytes)) := by
  induction keys generalizing builder with
  | nil => simp [addKeys, append, pure, Except.pure]
  | cons key keys ih =>
    rw [List.forall_mem_cons] at hkeys
    rw [List.length_cons] at hroom
    have hsize := Instruction.size_canonicalPush_of_isKeySize hkeys.left
    have hadd : builder.addData key
        = .ok (builder.append (Instruction.canonicalPush key).bytes) := by
      apply addData_of_fits
      . apply hasRoom_of_le hroom
        omega
      . have := Limits.eq_of_isKeySize hkeys.left
        unfold Limits.maxElementSize
        omega
    have hrest : (builder.append (Instruction.canonicalPush key).bytes).HasRoom
        (66 * keys.length) := by
      rw [hasRoom_append_iff, Instruction.length_bytes]
      apply hasRoom_of_le hroom
      omega
    rw [addKeys_cons, if_pos hkeys.left, hadd]
    simp only [Except.mapError, bind, Except.bind]
    rw [ih hrest hkeys.right, append_append, List.map_cons, List.flatMap_cons]

theorem isKeySize_of_addKeys {builder next : ScriptBuilder} {keys : List (List UInt8)}
    (h : builder.addKeys keys = .ok next)
    : ∀ key ∈ keys, Limits.isKeySize key.length = true := by
  induction keys generalizing builder with
  | nil => simp
  | cons key keys ih =>
    rw [addKeys_cons] at h
    split at h
    . next hkey =>
      rw [List.forall_mem_cons]
      refine ⟨hkey, ?_⟩
      cases hadd : builder.addData key with
      | error error => simp [hadd, Except.mapError, bind, Except.bind] at h
      | ok next' =>
        simp only [hadd, Except.mapError, bind, Except.bind] at h
        exact ih h
    . contradiction

end ScriptBuilder

structure HasRedeemScript (keys : List (List UInt8)) (required : Nat) : Prop where
  required_pos : 0 < required
  required_le : required ≤ keys.length
  length_le : keys.length ≤ Limits.maxMultisigKeys
  isKeySize : ∀ key ∈ keys, Limits.isKeySize key.length = true

def multisigPushes (keys : List (List UInt8)) (required : Nat) : List Instruction :=
  .ofInt required :: (keys.map .canonicalPush ++ [.ofInt keys.length])

def multisigInstructions (keys : List (List UInt8)) (required : Nat) : List Instruction :=
  multisigPushes keys required ++ [⟨.checkMultisig, []⟩]

theorem hasRedeemScript_of_ok {keys : List (List UInt8)} {required : Nat} {script : List UInt8}
    (h : multisigRedeemScript keys required = .ok script)
    : HasRedeemScript keys required := by
  unfold multisigRedeemScript at h
  simp only [throw, throwThe, MonadExceptOf.throw, bind, Except.bind] at h
  -- The four checks, and then the push of `required`.
  iterate 5
    split at h
    . contradiction
  split at h
  . contradiction
  . next hkeys =>
    constructor
    . omega
    . omega
    . omega
    . apply ScriptBuilder.isKeySize_of_addKeys hkeys

theorem multisigRedeemScript_of_hasRedeemScript {keys : List (List UInt8)} {required : Nat}
    (h : HasRedeemScript keys required)
    : multisigRedeemScript keys required
        =
      .ok ((multisigInstructions keys required).flatMap Instruction.bytes) := by
  have hpos := h.required_pos
  have hle := h.required_le
  have hmax : keys.length ≤ 20 := h.length_le
  have hfirst := @Instruction.size_ofInt_natCast_le required (by omega)
  have hkeys := Instruction.length_flatMap_canonicalPush_le h.isKeySize
  have hlast := @Instruction.size_ofInt_natCast_le keys.length (by omega)
  -- Even the longest redeem script is far from the limit, so the builder refuses nothing.
  have hroom : ∀ {builder : ScriptBuilder} {size : Nat},
      builder.script.length + size ≤ 1325 → builder.HasRoom size := by
    intro builder size hsize
    apply Nat.le_trans hsize
    decide
  unfold multisigRedeemScript
  rw [if_neg (by omega), if_neg (Nat.not_lt.mpr h.length_le), if_neg (by omega), if_neg (by omega)]
  rw [ScriptBuilder.addInt_ofNat (by omega)]
  simp only [Except.mapError, bind, Except.bind]
  rw [ScriptBuilder.addKeys_of_isKeySize _ h.isKeySize]
  simp only
  rw [ScriptBuilder.addInt_ofNat (by omega)]
  simp only
  rw [ScriptBuilder.addOp_of_hasRoom]
  . have hcheck := @Instruction.bytes_of_none .checkMultisig [] (by decide)
    simp [multisigInstructions, multisigPushes, hcheck, pure, Except.pure]
  all_goals
    apply hroom
    simp only [ScriptBuilder.script_append, ScriptBuilder.script_empty, List.length_append,
      List.length_nil, Instruction.length_bytes]
    omega

section RedeemScript

variable {keys : List (List UInt8)} {required : Nat}

theorem fits_of_mem_multisigInstructions (h : HasRedeemScript keys required)
    : ∀ ins ∈ multisigInstructions keys required, ins.Fits := by
  have hle := h.required_le
  have hmax : keys.length ≤ 20 := h.length_le
  have hkeys : ∀ ins ∈ keys.map Instruction.canonicalPush, ins.Fits := by
    rw [List.forall_mem_map]
    intro key hkey
    rw [Instruction.canonicalPush_of_isKeySize (h.isKeySize key hkey)]
    rw [Instruction.fits_iff_of_fixed (Instruction.operand_of_isKeySize (h.isKeySize key hkey))]
  have hcheck : Instruction.Fits ⟨.checkMultisig, []⟩ := by decide
  simp only [multisigInstructions, multisigPushes, List.cons_append, List.forall_mem_cons,
    List.forall_mem_append]
  refine ⟨?_, ⟨hkeys, ?_, by simp⟩, hcheck, by simp⟩
  . apply Instruction.fits_ofInt_natCast
    omega
  . apply Instruction.fits_ofInt_natCast
    omega

theorem isPushOnly_multisigPushes (keys : List (List UInt8)) (required : Nat)
    : isPushOnly (multisigPushes keys required) = true := by
  simp [isPushOnly, multisigPushes, Instruction.ofInt, Instruction.isPush_canonicalPush]

theorem multisigInstructions_eq_cons (keys : List (List UInt8)) (required : Nat)
    : multisigInstructions keys required
        =
      .ofInt required
        :: (keys.map .canonicalPush ++ [.ofInt keys.length, ⟨.checkMultisig, []⟩]) := by
  simp [multisigInstructions, multisigPushes]

theorem ofInstructions_multisigInstructions (h : HasRedeemScript keys required)
    : ScriptClass.ofInstructions (multisigInstructions keys required)
        =
      if keys.length ≤ 16 then .multisig else .nonStandard := by
  have hpos := h.required_pos
  have hle := h.required_le
  have hclass := @ScriptClass.ofInstructions_of_checkMultisig (multisigPushes keys required)
    ⟨.checkMultisig, []⟩ rfl
  split
  . next hsmall =>
    have hrecognises : ScriptClass.multisig.recognises (multisigInstructions keys required) := by
      rw [multisigInstructions_eq_cons]
      apply ScriptClass.recognises_multisig
      . rw [List.length_map]
        omega
      . rw [List.length_map]
        exact hsmall
      . rw [Instruction.ofInt_natCast_of_le (by omega), Opcode.isSmallInt]
        rw [Opcode.smallInt_smallInt? (by omega), Option.isSome_some]
      . rw [List.forall_mem_map]
        intro key hkey
        have hsize := h.isKeySize key hkey
        rwa [Instruction.canonicalPush_of_isKeySize hsize]
      . rw [Instruction.ofInt_natCast_of_le hsmall, List.length_map]
      . rfl
    unfold multisigInstructions at hrecognises ⊢
    rw [hclass, if_pos hrecognises]
  . next hlarge =>
    have hrecognises : ScriptClass.multisig.recognises (multisigInstructions keys required)
        = false := by
      apply ScriptClass.not_recognises_multisig
      simp only [multisigInstructions_eq_cons, List.length_cons, List.length_append,
        List.length_map]
      omega
    unfold multisigInstructions at hrecognises ⊢
    simp only [hclass, hrecognises]
    rfl

theorem ofScript_multisigInstructions (h : HasRedeemScript keys required)
    : ScriptClass.ofScript 0 ((multisigInstructions keys required).flatMap Instruction.bytes)
        =
      if keys.length ≤ 16 then .multisig else .nonStandard := by
  have hcomplete := decode_flatMap (fits_of_mem_multisigInstructions h)
  unfold ScriptClass.ofScript
  rw [if_neg (by decide), Decoded.toExcept_eq_ok_iff.mpr hcomplete]
  apply ofInstructions_multisigInstructions h

theorem atIndex_multisigInstructions (h : HasRedeemScript keys required)
    : MultisigTerms.atIndex? (multisigInstructions keys required)
          ((multisigInstructions keys required).length - 1)
        =
      if keys.length ≤ 16 then some ⟨required, keys⟩ else none := by
  have hpos := h.required_pos
  have hle := h.required_le
  have hmax : keys.length ≤ 20 := h.length_le
  have hreverse : (multisigPushes keys required).reverse
      = .ofInt keys.length :: ((keys.map .canonicalPush).reverse ++ [.ofInt required]) := by
    simp [multisigPushes]
  unfold multisigInstructions
  rw [MultisigTerms.atIndex_length_sub_one, hreverse]
  split
  . next hsmall =>
    rw [MultisigTerms.ofPreceding_of_shape, Instruction.map_payload_canonicalPush h.isKeySize]
    . rw [List.length_map]
      omega
    . rw [Instruction.ofInt_natCast_of_le hsmall, List.length_map]
      apply Opcode.smallInt_smallInt? hsmall
    . rw [List.forall_mem_map]
      intro key hkey
      apply Instruction.pushesKey_canonicalPush (h.isKeySize key hkey)
    . rw [Instruction.ofInt_natCast_of_le (by omega)]
      apply Opcode.smallInt_smallInt?
      omega
    . rwa [List.length_map]
  . next hlarge =>
    apply MultisigTerms.ofPreceding_of_not_smallInt
    -- No opcode stands for that many keys, so their number is pushed as data.
    rw [Instruction.ofInt_natCast_of_lt (by omega) (by omega)]
    show (Opcode.data 1).smallInt? = none
    decide

theorem ofSpending_multisigInstructions (h : HasRedeemScript keys required)
    (signatureScript : List UInt8) (scriptHashes : Bool)
    : SigOps.ofSpending signatureScript
          ((multisigInstructions keys required).flatMap Instruction.bytes) scriptHashes
        =
      if keys.length ≤ 16 then keys.length else Limits.maxMultisigKeys := by
  have hpos := h.required_pos
  have hle := h.required_le
  have hmax : keys.length ≤ 20 := h.length_le
  have hdecode := decode_flatMap (fits_of_mem_multisigInstructions h)
  have hpays : ¬ PaysToScriptHash
      ((multisigInstructions keys required).flatMap Instruction.bytes) := by
    rw [← isScriptHash_decode_iff, hdecode, isScriptHash_iff_map_opcode]
    -- A redeem script starts with a push, and the pattern for script hashes with a hash.
    rw [multisigInstructions_eq_cons, List.map_cons, List.cons.injEq]
    rintro ⟨hfirst, -⟩
    have := Instruction.isPush_canonicalPush (ScriptNumber.encode required)
    rw [Instruction.ofInt] at hfirst
    rw [hfirst] at this
    contradiction
  have hpush := isPushOnly_multisigPushes keys required
  unfold multisigPushes at hpush
  rw [SigOps.ofSpending_of_not_paysToScriptHash (by simp [hpays]), hdecode]
  unfold multisigInstructions multisigPushes
  rw [← List.cons_append] at hpush ⊢
  rw [SigOps.count_of_isPushOnly hpush]
  split
  . next hsmall =>
    rw [Instruction.ofInt_natCast_of_le hsmall]
    apply SigOps.cost_precise_smallInt (by omega) hsmall
  . next hlarge =>
    rw [Instruction.ofInt_natCast_of_lt (by omega) (by omega)]
    rfl

end RedeemScript

/--
The terms of a redeem script can be read off exactly if an opcode stands for the number of keys.
With more keys than that, the script is not standard and every key that could be there counts.
-/
theorem multisigRedeemScript_terms_readable {keys : List (List UInt8)} {required : Nat}
    {script : List UInt8} (h : multisigRedeemScript keys required = .ok script)
    : ∃ instructions, decode script = ⟨instructions, none⟩
        ∧ if keys.length ≤ 16 then
            ScriptClass.ofScript 0 script = .multisig
              ∧ (∃ terms, MultisigTerms.atIndex? instructions (instructions.length - 1) = some terms
                ∧ terms.required = required ∧ terms.signers = keys.length ∧ terms.keys = keys)
              ∧ ∀ signatureScript scriptHashes,
                  SigOps.ofSpending signatureScript script scriptHashes = keys.length
          else
            ScriptClass.ofScript 0 script = .nonStandard
              ∧ MultisigTerms.atIndex? instructions (instructions.length - 1) = none
              ∧ ∀ signatureScript scriptHashes,
                  SigOps.ofSpending signatureScript script scriptHashes = 20 := by
  have hkeys := hasRedeemScript_of_ok h
  rw [multisigRedeemScript_of_hasRedeemScript hkeys, Except.ok.injEq] at h
  subst h
  have hdecode := decode_flatMap (fits_of_mem_multisigInstructions hkeys)
  have hclass := ofScript_multisigInstructions hkeys
  have hterms := atIndex_multisigInstructions hkeys
  have hcount := ofSpending_multisigInstructions hkeys
  refine ⟨_, hdecode, ?_⟩
  split
  . next hsmall =>
    simp only [if_pos hsmall] at hclass hterms hcount
    exact ⟨hclass, ⟨_, hterms, rfl, rfl, rfl⟩, hcount⟩
  . next hlarge =>
    simp only [if_neg hlarge] at hclass hterms hcount
    exact ⟨hclass, hterms, hcount⟩

theorem hasRedeemScript_replicate {count : Nat} (hpos : 0 < count) (hle : count ≤ 20)
    : HasRedeemScript (List.replicate count (List.replicate 33 0x02)) 1 := by
  constructor
  . decide
  . rw [List.length_replicate]
    exact hpos
  . rw [List.length_replicate]
    exact hle
  . simp [Limits.isKeySize]

theorem terms_readable_of_sixteen_keys
    : ∃ script, multisigRedeemScript (List.replicate 16 (List.replicate 33 0x02)) 1 = .ok script
        ∧ ScriptClass.ofScript 0 script = .multisig
        ∧ ∀ signatureScript scriptHashes,
            SigOps.ofSpending signatureScript script scriptHashes = 16 := by
  have hkeys := @hasRedeemScript_replicate 16 (by decide) (by decide)
  have hok := multisigRedeemScript_of_hasRedeemScript hkeys
  obtain ⟨instructions, -, hsmall⟩ := multisigRedeemScript_terms_readable hok
  rw [if_pos (by simp)] at hsmall
  obtain ⟨hclass, -, hcount⟩ := hsmall
  exact ⟨_, hok, hclass, hcount⟩

theorem terms_not_readable_of_seventeen_keys
    : ∃ script, multisigRedeemScript (List.replicate 17 (List.replicate 33 0x02)) 1 = .ok script
        ∧ ScriptClass.ofScript 0 script ≠ .multisig
        ∧ MultisigTerms.atIndex? (decode script).instructions
            ((decode script).instructions.length - 1) = none
        ∧ SigOps.ofSpending [] script true ≠ 17 := by
  have hkeys := @hasRedeemScript_replicate 17 (by decide) (by decide)
  have hclass := ofScript_multisigInstructions hkeys
  have hterms := atIndex_multisigInstructions hkeys
  have hcount := ofSpending_multisigInstructions hkeys [] true
  rw [if_neg (by simp)] at hclass hterms hcount
  refine ⟨_, multisigRedeemScript_of_hasRedeemScript hkeys, ?_, ?_, ?_⟩
  . rw [hclass]
    decide
  . rw [decode_flatMap (fits_of_mem_multisigInstructions hkeys)]
    exact hterms
  . rw [hcount]
    decide

end ScriptAnalysis
