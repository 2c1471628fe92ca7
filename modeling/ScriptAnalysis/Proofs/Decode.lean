import ScriptAnalysis.Proofs.Instruction
import ScriptAnalysis.Script.Decode

/-!
This module contains the specification of the decoder for whole scripts. A script is a list of
encodings whose payloads fit, followed by nothing or by a push that does not fit into the script,
and the decoder finds exactly these parts. Proofs about decoded scripts go by this shape.
-/

namespace ScriptAnalysis

def ScriptError.shift (distance : Nat) : ScriptError → ScriptError
  | .malformedPush opcode offset fault => .malformedPush opcode (distance + offset) fault
  | error => error

@[simp]
theorem ScriptError.shift_zero (error : ScriptError) : error.shift 0 = error := by
  cases error <;> simp [shift]

theorem ScriptError.shift_add (first second : Nat) (error : ScriptError)
    : error.shift (first + second) = (error.shift second).shift first := by
  cases error <;> simp [shift, Nat.add_assoc]

namespace Decoded

def behind (decoded : Decoded) (front : List Instruction) : Decoded :=
  ⟨front ++ decoded.instructions,
    decoded.error.map (.shift (front.flatMap Instruction.bytes).length)⟩

@[simp]
theorem instructions_behind (decoded : Decoded) (front : List Instruction)
    : (decoded.behind front).instructions = front ++ decoded.instructions := by
  rfl

@[simp]
theorem behind_nil (decoded : Decoded) : decoded.behind [] = decoded := by
  rcases decoded with ⟨_, _ | _⟩ <;> simp [behind]

theorem behind_append (decoded : Decoded) (front back : List Instruction)
    : decoded.behind (front ++ back) = (decoded.behind back).behind front := by
  rcases decoded with ⟨_, _ | _⟩ <;> simp [behind, ScriptError.shift_add]

end Decoded

theorem decode.go_shift (distance offset : Nat) (bytes : List UInt8)
    : decode.go (distance + offset) [] bytes
        =
      ⟨(decode.go offset [] bytes).instructions,
        (decode.go offset [] bytes).error.map (.shift distance)⟩ := by
  induction hlen : bytes.length using Nat.strongRecOn generalizing offset bytes with
  | ind size ih =>
    subst hlen
    cases bytes with
    | nil => simp [decode.go_nil]
    | cons byte rest =>
      cases hdec : Instruction.decode ⟨byte⟩ rest with
      | error fault => simp [decode.go_of_error _ _ hdec, ScriptError.shift]
      | ok result =>
        obtain ⟨ins, tail⟩ := result
        have hlt : tail.length < (byte :: rest).length := by
          have := Instruction.length_tail_le_of_decode hdec
          simp only [List.length_cons]
          omega
        rw [decode.go_of_ok _ _ hdec, decode.go_of_ok _ _ hdec]
        -- The induction hypothesis is about an empty accumulator, so take `ins` out of it first.
        rw [decode.go_eq, decode.go_eq (offset + ins.size)]
        rw [Nat.add_assoc, ih _ hlt _ _ rfl]

@[simp]
theorem decode_nil : decode [] = ⟨[], none⟩ := by
  unfold decode
  apply decode.go_nil

theorem decode_of_error {byte : UInt8} {rest : List UInt8} {fault : PushFault}
    (h : Instruction.decode ⟨byte⟩ rest = .error fault)
    : decode (byte :: rest) = ⟨[], some (.malformedPush ⟨byte⟩ 0 fault)⟩ := by
  unfold decode
  apply decode.go_of_error _ _ h

theorem decode_bytes_append {ins : Instruction} (h : ins.Fits) (tail : List UInt8)
    : decode (ins.bytes ++ tail) = (decode tail).behind [ins] := by
  unfold decode
  rw [Instruction.bytes, List.cons_append, decode.go_of_ok _ _ (Instruction.decode_of_fits h tail)]
  rw [decode.go_eq, Nat.add_comm, decode.go_shift]
  simp [Decoded.behind]

theorem decode_flatMap_append {front : List Instruction} (h : ∀ ins ∈ front, ins.Fits)
    (tail : List UInt8)
    : decode (front.flatMap Instruction.bytes ++ tail) = (decode tail).behind front := by
  induction front with
  | nil => simp
  | cons ins front ih =>
    rw [List.forall_mem_cons] at h
    rw [List.flatMap_cons, List.append_assoc, decode_bytes_append h.left, ih h.right]
    rw [← Decoded.behind_append]
    rfl

theorem decode_flatMap {instructions : List Instruction} (h : ∀ ins ∈ instructions, ins.Fits)
    : decode (instructions.flatMap Instruction.bytes) = ⟨instructions, none⟩ := by
  have := decode_flatMap_append h []
  simpa [Decoded.behind] using this

theorem decode_flatMap_append_of_error {front : List Instruction} {byte : UInt8}
    {rest : List UInt8} {fault : PushFault} (hfits : ∀ ins ∈ front, ins.Fits)
    (hdec : Instruction.decode ⟨byte⟩ rest = .error fault)
    : decode (front.flatMap Instruction.bytes ++ byte :: rest)
        =
      ⟨front,
        some (.malformedPush ⟨byte⟩ (front.flatMap Instruction.bytes).length fault)⟩ := by
  rw [decode_flatMap_append hfits, decode_of_error hdec]
  simp [Decoded.behind, ScriptError.shift]

/--
The shape of scripts as an induction principle: a script is empty, starts with a push that does not
fit into it, or starts with an encoding.
-/
@[elab_as_elim]
theorem script_induction {motive : List UInt8 → Prop} (nil : motive [])
    (stop : ∀ (byte : UInt8) (rest : List UInt8) (fault : PushFault),
      Instruction.decode ⟨byte⟩ rest = .error fault → motive (byte :: rest))
    (step : ∀ (ins : Instruction) (tail : List UInt8),
      ins.Fits → motive tail → motive (ins.bytes ++ tail))
    (script : List UInt8)
    : motive script := by
  induction hlen : script.length using Nat.strongRecOn generalizing script with
  | ind size ih =>
    subst hlen
    cases script with
    | nil => exact nil
    | cons byte rest =>
      cases hdec : Instruction.decode ⟨byte⟩ rest with
      | error fault => exact stop byte rest fault hdec
      | ok result =>
        obtain ⟨ins, tail⟩ := result
        obtain ⟨hfits, hbytes⟩ := Instruction.decode_eq_ok_iff.mp hdec
        rw [← hbytes]
        apply step ins tail hfits
        apply ih tail.length ?_ tail rfl
        have := Instruction.length_tail_le_of_decode hdec
        simp only [List.length_cons]
        omega

theorem fits_of_mem_decode {script : List UInt8} {ins : Instruction}
    (h : ins ∈ (decode script).instructions)
    : ins.Fits := by
  induction script using script_induction with
  | nil => simp at h
  | stop byte rest fault hdec => simp [decode_of_error hdec] at h
  | step first tail hfits ih =>
    simp only [decode_bytes_append hfits, Decoded.instructions_behind, List.cons_append,
      List.nil_append, List.mem_cons] at h
    cases h with
    | inl h => rwa [h]
    | inr h => exact ih h

def StartsMalformed (script : List UInt8) : Prop :=
  ∃ byte rest fault, script = byte :: rest ∧ Instruction.decode ⟨byte⟩ rest = .error fault

theorem decode_instructions_eq_nil_iff {script : List UInt8}
    : (decode script).instructions = [] ↔ script = [] ∨ StartsMalformed script := by
  induction script using script_induction with
  | nil => simp
  | stop byte rest fault hdec =>
    simp only [decode_of_error hdec, true_iff]
    exact .inr ⟨byte, rest, fault, rfl, hdec⟩
  | step ins tail hfits ih =>
    simp only [decode_bytes_append hfits, Decoded.instructions_behind]
    constructor
    . intro h
      contradiction
    . rintro (h | ⟨byte, rest, fault, hscript, hdec⟩)
      . contradiction
      -- The decoder cannot both refuse the front of the script and find `ins` there.
      . have := Instruction.decode_eq_ok_iff.mpr ⟨hfits, hscript⟩
        rw [this] at hdec
        contradiction

theorem exists_decode_split (script : List UInt8)
    : ∃ tail, script = (decode script).instructions.flatMap Instruction.bytes ++ tail
        ∧ (tail = [] ∨ StartsMalformed tail) := by
  induction script using script_induction with
  | nil => simp
  | stop byte rest fault hdec =>
    refine ⟨byte :: rest, ?_, .inr ⟨byte, rest, fault, rfl, hdec⟩⟩
    simp [decode_of_error hdec]
  | step ins tail hfits ih =>
    obtain ⟨rest, htail, hrest⟩ := ih
    refine ⟨rest, ?_, hrest⟩
    rw [decode_bytes_append hfits]
    simp [← htail]

theorem StartsMalformed.error_decode_ne_none {script : List UInt8} (h : StartsMalformed script)
    : (decode script).error ≠ none := by
  obtain ⟨byte, rest, fault, rfl, hdec⟩ := h
  simp [decode_of_error hdec]

theorem decode_eq_error_iff {script : List UInt8} {instructions : List Instruction}
    {error : ScriptError}
    : decode script = ⟨instructions, some error⟩
        ↔
      (∀ ins ∈ instructions, ins.Fits)
        ∧ ∃ byte rest fault, script = instructions.flatMap Instruction.bytes ++ byte :: rest
          ∧ Instruction.decode ⟨byte⟩ rest = .error fault
          ∧ error
              = .malformedPush ⟨byte⟩ (instructions.flatMap Instruction.bytes).length fault := by
  constructor
  . intro h
    have hfits : ∀ ins ∈ instructions, ins.Fits := by
      have := @fits_of_mem_decode script
      rwa [h] at this
    obtain ⟨tail, hscript, htail⟩ := exists_decode_split script
    rw [h] at hscript
    rcases htail with rfl | ⟨byte, rest, fault, rfl, hdec⟩
    . rw [hscript, List.append_nil, decode_flatMap hfits] at h
      cases h
    . rw [hscript, decode_flatMap_append_of_error hfits hdec] at h
      cases h
      exact ⟨hfits, byte, rest, fault, hscript, hdec, rfl⟩
  . rintro ⟨hfits, byte, rest, fault, rfl, hdec, rfl⟩
    apply decode_flatMap_append_of_error hfits hdec

theorem exists_malformedPush_of_error {script : List UInt8} {error : ScriptError}
    (h : (decode script).error = some error)
    : ∃ opcode offset fault, error = .malformedPush opcode offset fault := by
  have hdecode : decode script = ⟨(decode script).instructions, some error⟩ := by rw [← h]
  obtain ⟨-, byte, rest, fault, -, -, rfl⟩ := decode_eq_error_iff.mp hdecode
  exact ⟨_, _, _, rfl⟩

theorem decode_eq_complete_iff {script : List UInt8} {instructions : List Instruction}
    : decode script = ⟨instructions, none⟩
        ↔
      (∀ ins ∈ instructions, ins.Fits) ∧ instructions.flatMap Instruction.bytes = script := by
  constructor
  . intro h
    have hfits : ∀ ins ∈ instructions, ins.Fits := by
      have := @fits_of_mem_decode script
      rwa [h] at this
    obtain ⟨tail, hscript, htail⟩ := exists_decode_split script
    rw [h] at hscript
    cases htail with
    | inl htail =>
      rw [htail, List.append_nil] at hscript
      exact ⟨hfits, hscript.symm⟩
    | inr htail =>
      rw [hscript, decode_flatMap_append hfits] at h
      have := congrArg Decoded.error h
      simp [Decoded.behind, htail.error_decode_ne_none] at this
  . rintro ⟨hfits, rfl⟩
    apply decode_flatMap hfits

theorem flatMap_bytes_decode {script : List UInt8} (h : (decode script).error = none)
    : (decode script).instructions.flatMap Instruction.bytes = script := by
  have hdecode : decode script = ⟨(decode script).instructions, none⟩ := by rw [← h]
  exact (decode_eq_complete_iff.mp hdecode).right

end ScriptAnalysis
