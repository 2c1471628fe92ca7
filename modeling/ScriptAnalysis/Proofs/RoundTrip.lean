import ScriptAnalysis.Proofs.Decode

namespace ScriptAnalysis

theorem encode_cons_of_fits {ins : Instruction} (h : ins.Fits) (instructions : List Instruction)
    : encode (ins :: instructions) = (encode instructions).map (ins.bytes ++ ·) := by
  unfold encode
  rw [List.mapM_cons, Instruction.encode_eq_ok_iff.mpr ⟨h, rfl⟩]
  cases instructions.mapM Instruction.encode <;> rfl

theorem encode_cons_of_not_fits {ins : Instruction} (h : ¬ ins.Fits)
    (instructions : List Instruction)
    : encode (ins :: instructions) = .error (.inconsistent ins.misfit) := by
  have : ins.encode = .error (.inconsistent ins.misfit) := by
    simp [Instruction.encode, h]
  unfold encode
  rw [List.mapM_cons, this]
  rfl

theorem encode_eq_find (instructions : List Instruction)
    : encode instructions
        =
      match instructions.find? (¬ ·.Fits) with
      | none => .ok (instructions.flatMap Instruction.bytes)
      | some ins => .error (.inconsistent ins.misfit) := by
  induction instructions with
  | nil => rfl
  | cons ins instructions ih =>
    by_cases hfits : ins.Fits
    . rw [encode_cons_of_fits hfits, ih]
      rw [List.find?_cons_of_neg (by simpa using hfits)]
      split <;> rfl
    . rw [encode_cons_of_not_fits hfits]
      rw [List.find?_cons_of_pos (by simpa using hfits)]

theorem encode_script_eq_ok_iff {instructions : List Instruction} {script : List UInt8}
    : encode instructions = .ok script
        ↔
      (∀ ins ∈ instructions, ins.Fits) ∧ instructions.flatMap Instruction.bytes = script := by
  rw [encode_eq_find]
  cases hfind : instructions.find? (¬ ·.Fits) with
  | none =>
    have hfits : ∀ ins ∈ instructions, ins.Fits := by simpa using hfind
    simp only [Except.ok.injEq]
    constructor
    . intro h
      exact ⟨hfits, h⟩
    . intro h
      exact h.right
  | some ins =>
    have hmem := List.mem_of_find?_eq_some hfind
    have hmisfit : ¬ ins.Fits := by simpa using List.find?_some hfind
    simp only [reduceCtorEq, false_iff]
    rintro ⟨hfits, -⟩
    exact hmisfit (hfits ins hmem)

theorem encode_eq_ok_iff_decode_eq {instructions : List Instruction} {script : List UInt8}
    : encode instructions = .ok script ↔ decode script = ⟨instructions, none⟩ := by
  rw [encode_script_eq_ok_iff, decode_eq_complete_iff]

theorem StartsMalformed.not_prefix {script bytes : List UInt8} {ins : Instruction}
    (h : StartsMalformed script) (hins : ins.encode = .ok bytes)
    : ¬ bytes <+: script := by
  obtain ⟨byte, rest, fault, rfl, hdec⟩ := h
  obtain ⟨hfits, rfl⟩ := Instruction.encode_eq_ok_iff.mp hins
  rintro ⟨tail, hprefix⟩
  rw [Instruction.decode_eq_ok_iff.mpr ⟨hfits, hprefix⟩] at hdec
  contradiction

theorem not_startsMalformed_bytes_append {ins : Instruction} (h : ins.Fits) (tail : List UInt8)
    : ¬ StartsMalformed (ins.bytes ++ tail) := by
  intro hmalformed
  apply hmalformed.not_prefix (Instruction.encode_eq_ok_iff.mpr ⟨h, rfl⟩)
  apply List.prefix_append

/--
What has been decoded is encoded into the bytes in front of the error, and the error stands where
nothing that can be encoded does.
-/
theorem encode_decode_maximal_prefix (script : List UInt8)
    : match (decode script).error with
      | none => encode (decode script).instructions = .ok script
      | some error =>
        ∃ offset, error.offset? = some offset ∧ offset < script.length
          ∧ encode (decode script).instructions = .ok (script.take offset)
          ∧ ∀ (ins : Instruction) (bytes : List UInt8),
              ins.encode = .ok bytes → ¬ bytes <+: script.drop offset := by
  have hfits : ∀ ins ∈ (decode script).instructions, ins.Fits := by
    intros
    apply fits_of_mem_decode
    assumption
  obtain ⟨tail, hscript, htail⟩ := exists_decode_split script
  generalize (decode script).instructions = instructions at *
  cases htail with
  | inl htail =>
    have hdecode : decode script = ⟨instructions, none⟩ := by
      rw [decode_eq_complete_iff]
      rw [htail, List.append_nil] at hscript
      exact ⟨hfits, hscript.symm⟩
    rw [hdecode]
    exact encode_eq_ok_iff_decode_eq.mpr hdecode
  | inr htail =>
    obtain ⟨byte, rest, fault, rfl, hdec⟩ := id htail
    have hdecode := decode_flatMap_append_of_error hfits hdec
    rw [hscript, hdecode]
    refine ⟨_, rfl, ?_, ?_, ?_⟩
    . simp
    . rw [encode_script_eq_ok_iff, List.take_left]
      exact ⟨hfits, rfl⟩
    . intro ins bytes hins
      rw [List.drop_left]
      apply htail.not_prefix hins

/--
Instructions are encoded exactly if they fit, and decoding is the inverse of encoding.
-/
theorem decode_encode_inverse
    : (∀ instructions, (∃ script, encode instructions = .ok script)
          ↔ ∀ ins ∈ instructions, ins.Fits)
      ∧ (∀ (front : List Instruction) (ins : Instruction) (back : List Instruction),
          (∀ before ∈ front, before.Fits) → ¬ ins.Fits
            → encode (front ++ ins :: back) = .error (.inconsistent ins.misfit))
      ∧ (∀ instructions script, encode instructions = .ok script
          → decode script = ⟨instructions, none⟩)
      ∧ (∀ script, (decode script).error = none
          ↔ ∃ instructions, (∀ ins ∈ instructions, ins.Fits) ∧ encode instructions = .ok script)
      ∧ (∀ first second script, encode first = .ok script → encode second = .ok script
          → first = second) := by
  refine ⟨?_, ?_, ?_, ?_, ?_⟩
  . intro instructions
    simp [encode_script_eq_ok_iff]
  . intro front ins back hfront hins
    have hfind : (front ++ ins :: back).find? (¬ ·.Fits) = some ins := by
      rw [List.find?_append, List.find?_eq_none.mpr (by simpa using hfront)]
      simp [hins]
    rw [encode_eq_find, hfind]
  . intro instructions script h
    rwa [← encode_eq_ok_iff_decode_eq]
  . intro script
    constructor
    . intro h
      have hdecode : decode script = ⟨(decode script).instructions, none⟩ := by rw [← h]
      exact ⟨_, (decode_eq_complete_iff.mp hdecode).left, encode_eq_ok_iff_decode_eq.mpr hdecode⟩
    . rintro ⟨instructions, -, hencode⟩
      rw [encode_eq_ok_iff_decode_eq.mp hencode]
  . intro first second script hfirst hsecond
    rw [encode_eq_ok_iff_decode_eq] at hfirst hsecond
    rw [hfirst] at hsecond
    exact congrArg Decoded.instructions hsecond

end ScriptAnalysis
