import ScriptAnalysis.Payment.Template

namespace ScriptAnalysis

namespace Template

theorem accepts_append {front back : Template} {first second : List Instruction}
    (h : first.length = front.length)
    : accepts (front ++ back) (first ++ second)
        =
      (accepts front first && accepts back second) := by
  induction front generalizing first with
  | nil =>
    rw [List.length_nil, List.length_eq_zero_iff] at h
    simp [h, accepts]
  | cons slot front ih =>
    cases first with
    | nil => simp at h
    | cons ins first =>
      simp only [List.length_cons, Nat.add_right_cancel_iff] at h
      simp [accepts, ih h, Bool.and_assoc]

theorem length_of_accepts {template : Template} {instructions : List Instruction}
    (h : accepts template instructions = true)
    : instructions.length = template.length := by
  induction template generalizing instructions with
  | nil =>
    cases instructions with
    | nil => rfl
    | cons => simp [accepts] at h
  | cons slot template ih =>
    cases instructions with
    | nil => simp [accepts] at h
    | cons ins instructions =>
      simp only [accepts, Bool.and_eq_true] at h
      simp [ih h.right]

theorem accepts_append_iff {front back : Template} {instructions : List Instruction}
    : accepts (front ++ back) instructions = true
        ↔
      ∃ first second, instructions = first ++ second
        ∧ accepts front first = true ∧ accepts back second = true := by
  constructor
  . intro h
    have hlength := length_of_accepts h
    rw [List.length_append] at hlength
    have htake : (instructions.take front.length).length = front.length := by
      rw [List.length_take]
      omega
    rw [← List.take_append_drop front.length instructions, accepts_append htake,
      Bool.and_eq_true] at h
    exact ⟨_, _, (List.take_append_drop front.length instructions).symm, h⟩
  . rintro ⟨first, second, rfl, hfirst, hsecond⟩
    rw [accepts_append (length_of_accepts hfirst), hfirst, hsecond]
    rfl

theorem accepts_map_op_iff {opcodes : List Opcode} {instructions : List Instruction}
    : accepts (opcodes.map .op) instructions = true ↔ instructions.map (·.opcode) = opcodes := by
  induction opcodes generalizing instructions with
  | nil => cases instructions <;> simp [accepts]
  | cons opcode opcodes ih =>
    cases instructions with
    | nil => simp [accepts]
    | cons ins instructions => simp [accepts, Slot.accepts, ih]

theorem accepts_replicate_key_iff {keys : Nat} {instructions : List Instruction}
    : accepts (List.replicate keys .key) instructions = true
        ↔
      instructions.length = keys
        ∧ ∀ ins ∈ instructions, Limits.isKeySize ins.payload.length = true := by
  induction keys generalizing instructions with
  | zero => cases instructions <;> simp [accepts]
  | succ keys ih =>
    cases instructions with
    | nil => simp [accepts, List.replicate_succ]
    | cons ins instructions =>
      simp only [List.replicate_succ, accepts, Slot.accepts, Bool.and_eq_true, ih,
        List.length_cons, Nat.add_right_cancel_iff, List.forall_mem_cons]
      constructor <;> simp_all

theorem accepts_getLast {template : Template} {front : List Instruction} {last : Instruction}
    (h : accepts template (front ++ [last]) = true)
    : ∃ slot, template.getLast? = some slot ∧ slot.accepts last = true := by
  have hlength := length_of_accepts h
  have hnil : template ≠ [] := by
    rintro rfl
    simp at hlength
  rw [← List.dropLast_concat_getLast hnil, accepts_append (by simp [← hlength])] at h
  rw [Bool.and_eq_true] at h
  refine ⟨template.getLast hnil, List.getLast?_eq_some_getLast hnil, ?_⟩
  simpa [accepts] using h.right

end Template

end ScriptAnalysis
