import ScriptAnalysis.Proofs.Multisig

namespace ScriptAnalysis

def multisigFaults (keys : List (List UInt8)) (required : Nat) : List MultisigError :=
  List.flatten [
    if keys.length = 0 then [.noKeys] else [],
    if Limits.maxMultisigKeys < keys.length then [.tooManyKeys keys.length] else [],
    if required = 0 then [.noneRequired] else [],
    if keys.length < required then [.tooManyRequired] else [],
    (keys.filter (!Limits.isKeySize ·.length)).map (.invalidKeySize ·.length)]

theorem ScriptBuilder.addKeys_append (builder : ScriptBuilder) (front back : List (List UInt8))
    : builder.addKeys (front ++ back) = builder.addKeys front >>= (·.addKeys back) := by
  apply List.foldlM_append

theorem ScriptBuilder.addKeys_of_invalid {builder : ScriptBuilder} {front : List (List UInt8)}
    {key : List UInt8} (hroom : builder.HasRoom (66 * front.length))
    (hfront : ∀ key ∈ front, Limits.isKeySize key.length = true)
    (hkey : Limits.isKeySize key.length = false) (back : List (List UInt8))
    : builder.addKeys (front ++ key :: back) = .error (.invalidKeySize key.length) := by
  rw [addKeys_append, addKeys_of_isKeySize hroom hfront]
  simp [bind, Except.bind, addKeys_cons, hkey]

section Faults

variable {keys : List (List UInt8)} {required : Nat}

theorem multisigFaults_of_counts (hpos : 0 < required) (hle : required ≤ keys.length)
    (hmax : keys.length ≤ Limits.maxMultisigKeys)
    : multisigFaults keys required
        =
      (keys.filter (!Limits.isKeySize ·.length)).map (.invalidKeySize ·.length) := by
  unfold multisigFaults
  rw [if_neg (by omega), if_neg (by omega), if_neg (by omega), if_neg (by omega)]
  simp

theorem multisigFaults_eq_nil_iff
    : multisigFaults keys required = [] ↔ HasRedeemScript keys required := by
  constructor
  . intro h
    simp only [multisigFaults, List.flatten_eq_nil_iff, List.forall_mem_cons, ite_eq_right_iff,
      reduceCtorEq, imp_false, List.map_eq_nil_iff, List.filter_eq_nil_iff, Bool.not_eq_true,
      Bool.not_eq_false'] at h
    obtain ⟨-, hmax, hpos, hle, hkeys, -⟩ := h
    exact ⟨Nat.pos_of_ne_zero hpos, Nat.not_lt.mp hle, Nat.not_lt.mp hmax, hkeys⟩
  . intro h
    rw [multisigFaults_of_counts h.required_pos h.required_le h.length_le]
    rw [List.map_eq_nil_iff, List.filter_eq_nil_iff]
    intro key hkey
    simp [h.isKeySize key hkey]

theorem builder_notMem_multisigFaults (error : BuilderError)
    : .builder error ∉ multisigFaults keys required := by
  simp [multisigFaults]

theorem multisigRedeemScript_of_invalid {front back : List (List UInt8)} {key : List UInt8}
    (hpos : 0 < required) (hle : required ≤ (front ++ key :: back).length)
    (hmax : (front ++ key :: back).length ≤ Limits.maxMultisigKeys)
    (hfront : ∀ key ∈ front, Limits.isKeySize key.length = true)
    (hkey : Limits.isKeySize key.length = false)
    : multisigRedeemScript (front ++ key :: back) required
        =
      .error (.invalidKeySize key.length) := by
  have hlength : front.length < (front ++ key :: back).length := by simp
  have hcount : (front ++ key :: back).length ≤ 20 := hmax
  have hsize := @Instruction.size_ofInt_natCast_le required (by omega)
  -- Twenty keys and the number in front of them take no more than this.
  have hroom : ScriptBuilder.empty.HasRoom 1322 := by decide
  unfold multisigRedeemScript
  rw [if_neg (by omega), if_neg (Nat.not_lt.mpr hmax), if_neg (by omega), if_neg (by omega)]
  rw [ScriptBuilder.addInt_ofNat (by omega) (ScriptBuilder.hasRoom_of_le hroom (by omega))]
  simp only [Except.mapError, bind, Except.bind]
  rw [ScriptBuilder.addKeys_of_invalid _ hfront hkey]
  rw [ScriptBuilder.hasRoom_append_iff, Instruction.length_bytes]
  apply ScriptBuilder.hasRoom_of_le hroom
  omega

theorem multisigRedeemScript_of_head? {error : MultisigError}
    (h : (multisigFaults keys required).head? = some error)
    : multisigRedeemScript keys required = .error error := by
  by_cases hnone : keys.length = 0
  . rw [multisigFaults, if_pos hnone] at h
    cases h
    rw [multisigRedeemScript, if_pos hnone]
    rfl
  by_cases hmany : Limits.maxMultisigKeys < keys.length
  . rw [multisigFaults, if_neg hnone, if_pos hmany] at h
    cases h
    rw [multisigRedeemScript, if_neg hnone, if_pos hmany]
    rfl
  by_cases hzero : required = 0
  . rw [multisigFaults, if_neg hnone, if_neg hmany, if_pos hzero] at h
    cases h
    rw [multisigRedeemScript, if_neg hnone, if_neg hmany, if_pos hzero]
    rfl
  by_cases hmore : keys.length < required
  . rw [multisigFaults, if_neg hnone, if_neg hmany, if_neg hzero, if_pos hmore] at h
    cases h
    rw [multisigRedeemScript, if_neg hnone, if_neg hmany, if_neg hzero, if_pos hmore]
    rfl
  -- All counts are in order, so the fault is the first key without a valid size.
  rw [multisigFaults_of_counts (by omega) (by omega) (by omega), List.head?_map, List.head?_filter,
    Option.map_eq_some_iff] at h
  obtain ⟨key, hfind, rfl⟩ := h
  rw [List.find?_eq_some_iff_append] at hfind
  obtain ⟨hkey, front, back, rfl, hfront⟩ := hfind
  apply multisigRedeemScript_of_invalid (by omega) (by omega) (by omega)
  . simpa using hfront
  . simpa using hkey

theorem multisigRedeemScript_eq_error_iff {error : MultisigError}
    : multisigRedeemScript keys required = .error error
        ↔
      (multisigFaults keys required).head? = some error := by
  constructor
  . intro h
    cases hfaults : multisigFaults keys required with
    | nil =>
      rw [multisigFaults_eq_nil_iff] at hfaults
      rw [multisigRedeemScript_of_hasRedeemScript hfaults] at h
      contradiction
    | cons fault faults =>
      have hfault : (multisigFaults keys required).head? = some fault := by
        rw [hfaults, List.head?_cons]
      rw [multisigRedeemScript_of_head? hfault, Except.error.injEq] at h
      rw [List.head?_cons, h]
  . apply multisigRedeemScript_of_head?

theorem exists_multisigRedeemScript_iff
    : (∃ script, multisigRedeemScript keys required = .ok script)
        ↔
      HasRedeemScript keys required := by
  constructor
  . rintro ⟨script, h⟩
    apply hasRedeemScript_of_ok h
  . intro h
    exact ⟨_, multisigRedeemScript_of_hasRedeemScript h⟩

theorem hasRedeemScript_iff
    : HasRedeemScript keys required
        ↔
      (1 ≤ keys.length ∧ keys.length ≤ 20) ∧ (1 ≤ required ∧ required ≤ keys.length)
        ∧ ∀ key ∈ keys, key.length = 33 ∨ key.length = 65 := by
  constructor
  . rintro ⟨hpos, hle, hmax, hkeys⟩
    refine ⟨⟨by omega, hmax⟩, ⟨hpos, hle⟩, ?_⟩
    intro key hkey
    apply Limits.eq_of_isKeySize (hkeys key hkey)
  . rintro ⟨⟨-, hmax⟩, ⟨hpos, hle⟩, hkeys⟩
    refine ⟨hpos, hle, hmax, ?_⟩
    intro key hkey
    simpa [Limits.isKeySize] using hkeys key hkey

theorem decode_multisigRedeemScript {script : List UInt8}
    (h : multisigRedeemScript keys required = .ok script)
    : decode script = ⟨multisigInstructions keys required, none⟩ := by
  have hkeys := hasRedeemScript_of_ok h
  rw [multisigRedeemScript_of_hasRedeemScript hkeys, Except.ok.injEq] at h
  rw [← h]
  apply decode_flatMap (fits_of_mem_multisigInstructions hkeys)

/--
There is a redeem script exactly if the keys have no fault, and otherwise the first one is the
error. Of the redeem script each instruction is known: between the pushes of the two numbers stand
those of the keys, and the check is the last.
-/
theorem multisigRedeemScript_total (keys : List (List UInt8)) (required : Nat)
    : ((∃ script, multisigRedeemScript keys required = .ok script)
          ↔ (1 ≤ keys.length ∧ keys.length ≤ 20) ∧ (1 ≤ required ∧ required ≤ keys.length)
            ∧ ∀ key ∈ keys, key.length = 33 ∨ key.length = 65)
      ∧ (∀ error, multisigRedeemScript keys required = .error error
          ↔ (multisigFaults keys required).head? = some error)
      ∧ (∀ error, multisigRedeemScript keys required ≠ .error (.builder error))
      ∧ (∀ script, multisigRedeemScript keys required = .ok script
          → (decode script).instructions.length = keys.length + 3
            ∧ decode script
                = ⟨.ofInt required
                    :: (keys.map (fun key => ⟨.data key.length, key⟩)
                      ++ [.ofInt keys.length, ⟨.checkMultisig, []⟩]), none⟩) := by
  refine ⟨?_, ?_, ?_, ?_⟩
  . rw [exists_multisigRedeemScript_iff, hasRedeemScript_iff]
  . intro error
    apply multisigRedeemScript_eq_error_iff
  . intro error herror
    rw [multisigRedeemScript_eq_error_iff] at herror
    apply builder_notMem_multisigFaults error (List.mem_of_head? herror)
  . intro script h
    have hkeys := (hasRedeemScript_of_ok h).isKeySize
    have hpushes : keys.map Instruction.canonicalPush
        = keys.map (fun key => ⟨.data key.length, key⟩) := by
      apply List.map_congr_left
      intro key hkey
      apply Instruction.canonicalPush_of_isKeySize (hkeys key hkey)
    rw [decode_multisigRedeemScript h, multisigInstructions_eq_cons, hpushes]
    simp

example : multisigFaults [[0x02]] 2 = [.tooManyRequired, .invalidKeySize 1] := by
  decide

end Faults

end ScriptAnalysis
