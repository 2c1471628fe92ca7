import ScriptAnalysis.Proofs.Builder.Run
import ScriptAnalysis.Proofs.ScriptHashSignature

namespace ScriptAnalysis

namespace Instruction

theorem canonicalPush_byte_of_le {n : Nat} (h : n ≤ 16)
    : canonicalPush [UInt8.ofNat n] = ⟨.smallInt n, []⟩ := by
  interval_cases n <;> rfl

end Instruction

namespace ScriptBuilder

inductive Element where
  | alone (opcode : Opcode)
  | push (data : List UInt8)
deriving DecidableEq

namespace Element

def ofStep : Step → List Element
  | .addOp opcode => [alone opcode]
  | .addOps opcodes => opcodes.map alone
  | .addData data => [push data]
  | .addInt value => [push (ScriptNumber.encode value.toInt)]
  | .drain => []
  | .restart => []

inductive ReadAs : Element → Instruction → Prop where
  | alone (opcode : Opcode) : ReadAs (alone opcode) ⟨opcode, []⟩
  | nothing : ReadAs (push []) ⟨.op0, []⟩
  | zero : ReadAs (push [0]) ⟨.op0, []⟩
  | smallInt {n : Nat} (hpos : 1 ≤ n) (hle : n ≤ 16)
    : ReadAs (push [UInt8.ofNat n]) ⟨.smallInt n, []⟩
  | minusOne : ReadAs (push [0x81]) ⟨.negate1, []⟩
  | payload {data : List UInt8} (opcode : Opcode) (hdata : data ≠ []) (hvalue : ¬ IsValueByte data)
    : ReadAs (push data) ⟨opcode, data⟩

def instruction : Element → Instruction
  | alone opcode => ⟨opcode, []⟩
  | push data => .canonicalPush data

theorem readAs_canonicalPush (data : List UInt8)
    : ReadAs (push data) (.canonicalPush data) := by
  by_cases hvalue : IsValueByte data
  . obtain ⟨byte, rfl, hle | rfl⟩ := hvalue
    . obtain ⟨n, hn, rfl⟩ : ∃ n, n ≤ 16 ∧ byte = UInt8.ofNat n :=
        ⟨byte.toNat, by simpa [UInt8.le_iff_toNat_le] using hle, by simp⟩
      rw [Instruction.canonicalPush_byte_of_le hn]
      cases Nat.eq_zero_or_pos n with
      | inl hzero =>
        subst hzero
        exact .zero
      | inr hpos => exact .smallInt hpos hn
    . exact .minusOne
  . by_cases hdata : data = []
    . subst hdata
      exact .nothing
    . rw [(Instruction.canonicalPush_of_not_isValueByte hvalue).left]
      exact .payload _ hdata hvalue

theorem readAs_instruction (element : Element) : element.ReadAs element.instruction := by
  cases element with
  | alone opcode => exact .alone opcode
  | push data => exact readAs_canonicalPush data

end Element

namespace Step

def OpcodesAlone : Step → Prop
  | addOp opcode => opcode.carriesData = false
  | addOps opcodes => ∀ opcode ∈ opcodes, opcode.carriesData = false
  | _ => True

instance (step : Step) : Decidable step.OpcodesAlone := by
  unfold OpcodesAlone
  split <;> infer_instance

variable {step : Step}

theorem OpcodesAlone.operand_eq (h : step.OpcodesAlone) {opcode : Opcode}
    (hmem : .alone opcode ∈ Element.ofStep step)
    : opcode.operand = .none := by
  cases step with
  | addOp other => simp_all [OpcodesAlone, Element.ofStep, Opcode.carriesData]
  | addOps opcodes => simp_all [OpcodesAlone, Element.ofStep, Opcode.carriesData]
  | _ => simp [Element.ofStep] at hmem

theorem OpcodesAlone.fits (h : step.OpcodesAlone) (hsize : step.ElementFits)
    : ∀ element ∈ Element.ofStep step, element.instruction.Fits := by
  have hdata : ∀ {data : List UInt8}, data.length ≤ Limits.maxElementSize
      → (Instruction.canonicalPush data).Fits := by
    intro data hle
    apply Instruction.fits_canonicalPush
    apply Nat.le_trans hle
    decide
  rintro (opcode | data) hmem
  . exact (Instruction.fits_iff_of_none (h.operand_eq hmem)).mpr rfl
  . apply hdata
    cases step with
    | addData other =>
      simp only [Element.ofStep, List.mem_singleton, Element.push.injEq] at hmem
      rw [hmem]
      exact hsize
    | addInt value =>
      simp only [Element.ofStep, List.mem_singleton, Element.push.injEq] at hmem
      rw [hmem]
      apply Nat.le_trans (ScriptNumber.length_encode_toInt_le value)
      decide
    | _ => simp [Element.ofStep] at hmem

theorem OpcodesAlone.added_eq (h : step.OpcodesAlone)
    : step.added = ((Element.ofStep step).map Element.instruction).flatMap Instruction.bytes := by
  cases step with
  | addOp opcode =>
    have := h.operand_eq (List.mem_singleton_self _)
    simp [added, Element.ofStep, Element.instruction, Instruction.bytes_of_none this]
  | addOps opcodes =>
    have halone : ∀ opcode ∈ opcodes, opcode.operand = .none := by
      intro opcode hmem
      exact h.operand_eq (List.mem_map_of_mem hmem)
    have hinstructions : (opcodes.map Element.alone).map Element.instruction
        = standAlone opcodes := by
      simp [standAlone, Element.instruction, Function.comp_def]
    rw [Element.ofStep, hinstructions, flatMap_bytes_standAlone halone]
    rfl
  | addData data => simp [added, Element.ofStep, Element.instruction]
  | addInt value => simp [added, Element.ofStep, Element.instruction, Instruction.ofInt]
  | drain => rfl
  | restart => rfl

end Step

def accepted (builder : ScriptBuilder) : List Step → List Step
  | [] => []
  | step :: steps =>
    match builder.step step with
    | .ok next => step :: next.accepted steps
    | .error _ => builder.accepted steps

def elements (builder : ScriptBuilder) (steps : List Step) : List Element :=
  ((builder.accepted steps).rtakeWhile (!·.clears)).flatMap Element.ofStep

section Run

variable {builder : ScriptBuilder} {steps : List Step} {step : Step}

theorem accepted_cons_of_ok {next : ScriptBuilder} (h : builder.step step = .ok next)
    (steps : List Step)
    : builder.accepted (step :: steps) = step :: next.accepted steps := by
  rw [accepted, h]

theorem accepted_cons_of_error {error : BuilderError} (h : builder.step step = .error error)
    (steps : List Step)
    : builder.accepted (step :: steps) = builder.accepted steps := by
  rw [accepted, h]

theorem accepted_concat (builder : ScriptBuilder) (steps : List Step) (step : Step)
    : builder.accepted (steps ++ [step])
        =
      builder.accepted steps ++ (builder.run steps).accepted [step] := by
  induction steps generalizing builder with
  | nil => rfl
  | cons first steps ih =>
    have hrun : builder.run (first :: steps) = (builder.after first).run steps := by rfl
    rw [List.cons_append, hrun]
    cases hstep : builder.step first with
    | error error =>
      rw [after_of_error hstep, accepted_cons_of_error hstep, accepted_cons_of_error hstep, ih]
    | ok next =>
      rw [after_of_ok hstep, accepted_cons_of_ok hstep, accepted_cons_of_ok hstep, ih,
        List.cons_append]

theorem accepted_sublist (builder : ScriptBuilder) (steps : List Step)
    : (builder.accepted steps).Sublist steps := by
  induction steps generalizing builder with
  | nil => exact .slnil
  | cons step steps ih =>
    cases hstep : builder.step step with
    | error error =>
      rw [accepted_cons_of_error hstep]
      exact (ih builder).cons step
    | ok next =>
      rw [accepted_cons_of_ok hstep]
      exact (ih next).cons_cons step

theorem elements_concat_of_error {error : BuilderError}
    (h : (builder.run steps).step step = .error error)
    : builder.elements (steps ++ [step]) = builder.elements steps := by
  rw [elements, accepted_concat, accepted_cons_of_error h, accepted, List.append_nil, elements]

theorem elements_concat_of_ok {next : ScriptBuilder}
    (h : (builder.run steps).step step = .ok next)
    : builder.elements (steps ++ [step])
        =
      if step.clears then [] else builder.elements steps ++ Element.ofStep step := by
  rw [elements, accepted_concat, accepted_cons_of_ok h, accepted, List.rtakeWhile_concat]
  cases step.clears <;> simp [elements]

theorem decode_run (h : ∀ step ∈ steps, step.OpcodesAlone)
    : decode (empty.run steps).script
        =
      ⟨(empty.elements steps).map Element.instruction, none⟩ := by
  induction steps using List.reverseRecOn with
  | nil => exact decode_nil
  | append_singleton steps step ih =>
    rw [List.forall_mem_append, List.forall_mem_singleton] at h
    have hdecode := ih h.left
    rw [run_concat]
    cases hstep : (empty.run steps).step step with
    | error error => rw [after_of_error hstep, elements_concat_of_error hstep, hdecode]
    | ok next =>
      have hroom := hasRoom_run hasRoom_empty steps
      obtain ⟨⟨-, hsize⟩, rfl⟩ := (step_eq_ok_iff hroom).mp hstep
      rw [after_of_ok hstep, elements_concat_of_ok hstep, script_extended]
      split
      . exact decode_nil
      . have hfits := h.right.fits hsize
        rw [← List.forall_mem_map] at hfits
        rw [h.right.added_eq, decode_append hdecode, decode_flatMap hfits, List.map_append]
        rfl

theorem exists_step_of_mem_elements {element : Element} (h : element ∈ builder.elements steps)
    : ∃ step ∈ steps, element ∈ Element.ofStep step := by
  obtain ⟨step, hstep, helement⟩ := List.mem_flatMap.mp h
  refine ⟨step, ?_, helement⟩
  apply (accepted_sublist builder steps).subset
  apply (List.rtakeWhile_suffix _ _).subset hstep

theorem operand_of_mem_elements (h : ∀ step ∈ steps, step.OpcodesAlone) {opcode : Opcode}
    (hmem : .alone opcode ∈ builder.elements steps)
    : opcode.operand = .none := by
  obtain ⟨step, hstep, hopcode⟩ := exists_step_of_mem_elements hmem
  exact (h step hstep).operand_eq hopcode

theorem isPushOnly_map_instruction_iff (elements : List Element)
    : isPushOnly (elements.map Element.instruction) = true
        ↔
      ¬ ∃ opcode, .alone opcode ∈ elements ∧ Opcode.op16.byte < opcode.byte := by
  rw [← Bool.not_eq_false, SigOps.not_isPushOnly_iff, not_iff_not]
  constructor
  . rintro ⟨_, hins, hbyte⟩
    obtain ⟨element, hmem, rfl⟩ := List.mem_map.mp hins
    cases element with
    | alone opcode => exact ⟨opcode, hmem, hbyte⟩
    | push data =>
      have hpush := Instruction.isPush_canonicalPush data
      rw [Opcode.isPush, decide_eq_true_iff] at hpush
      exact absurd hpush (UInt8.not_le.mpr hbyte)
  . rintro ⟨opcode, hmem, hbyte⟩
    exact ⟨_, List.mem_map_of_mem hmem, hbyte⟩

/--
What the builder has written is read back as what has been added since the script was last taken
away, element by element, and every push is the smallest for its data. The script only pushes
exactly if no opcode has been added that does more.
-/
theorem run_read_back (h : ∀ step ∈ steps, step.OpcodesAlone)
    : ∃ instructions, decode (empty.run steps).script = ⟨instructions, none⟩
        ∧ List.Forall₂ Element.ReadAs (empty.elements steps) instructions
        ∧ (∀ ins ∈ instructions, ins.isCanonicalPush = true)
        ∧ (isPushOnlyScript (empty.run steps).script = true
            ↔ ¬ ∃ opcode, .alone opcode ∈ empty.elements steps
                ∧ Opcode.op16.byte < opcode.byte) := by
  have hdecode := decode_run h
  refine ⟨_, hdecode, ?_, ?_, ?_⟩
  . rw [List.forall₂_map_right_iff, List.forall₂_same]
    intro element _
    exact element.readAs_instruction
  . rw [List.forall_mem_map]
    rintro (opcode | data) hmem
    . exact Instruction.isCanonicalPush_of_none (operand_of_mem_elements h hmem)
    . exact Instruction.isCanonicalPush_canonicalPush data
  . rw [← isPushOnly_map_instruction_iff, isPushOnlyScript_iff, hdecode]
    simp

def mixedSteps : List Step :=
  [.addOp .dup, .drain, .addData [5], .addData (List.replicate 2049 5), .addInt (-1), .addInt 300,
    .addOps [.equalVerify, .checkSig]]

theorem mixedSteps_read_back
    : (∀ step ∈ mixedSteps, step.OpcodesAlone)
        ∧ ∃ instructions, decode (empty.run mixedSteps).script = ⟨instructions, none⟩
          ∧ List.Forall₂ Element.ReadAs
              [.push [5], .push [0x81], .push [0x2c, 0x01], .alone .equalVerify, .alone .checkSig]
              instructions
          ∧ (∀ ins ∈ instructions, ins.isCanonicalPush = true)
          ∧ isPushOnlyScript (empty.run mixedSteps).script = false := by
  have halone : ∀ step ∈ mixedSteps, step.OpcodesAlone := by decide
  have helements : empty.elements mixedSteps
      = [.push [5], .push [0x81], .push [0x2c, 0x01], .alone .equalVerify, .alone .checkSig] := by
    decide +kernel
  obtain ⟨instructions, hdecode, hread, hcanonical, hpush⟩ := run_read_back halone
  rw [helements] at hread hpush
  refine ⟨halone, instructions, hdecode, hread, hcanonical, ?_⟩
  rw [← Bool.not_eq_true, hpush, not_not]
  exact ⟨.checkSig, by simp, by decide⟩

end Run

end ScriptBuilder

end ScriptAnalysis
