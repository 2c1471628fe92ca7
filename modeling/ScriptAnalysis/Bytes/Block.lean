namespace ScriptAnalysis

namespace Block

/--
The first `n` bytes and the bytes after them, if there are as many as `n`. The test looks at no
byte past the block, so cutting many small blocks off a long byte string stays cheap.
-/
def cut? (n : Nat) (bytes : List UInt8) : Option (List UInt8 × List UInt8) :=
  let block := bytes.take n
  if block.length = n then
    some (block, bytes.drop n)
  else
    none

theorem cut?_eq_some_iff {n : Nat} {bytes block rest : List UInt8}
    : cut? n bytes = some (block, rest) ↔ bytes = block ++ rest ∧ block.length = n := by
  unfold cut?
  constructor
  . intro h
    dsimp at h
    split at h
    . next hlen =>
      simp only [Option.some.injEq, Prod.mk.injEq] at h
      obtain ⟨rfl, rfl⟩ := h
      exact ⟨(List.take_append_drop n bytes).symm, hlen⟩
    . contradiction
  . rintro ⟨rfl, rfl⟩
    simp

theorem cut?_eq_none_iff {n : Nat} {bytes : List UInt8}
    : cut? n bytes = none ↔ bytes.length < n := by
  unfold cut?
  dsimp
  split
  . next h =>
    simp only [List.length_take] at h
    simp
    omega
  . next h =>
    simp only [List.length_take] at h
    simp
    omega

def occursIn (block : List UInt8) : List UInt8 → Bool
  | [] => block.isEmpty
  | byte :: bytes => block.isPrefixOf (byte :: bytes) || occursIn block bytes

theorem occursIn_iff {block bytes : List UInt8}
    : occursIn block bytes = true ↔ ∃ front back, bytes = front ++ block ++ back := by
  induction bytes with
  | nil =>
    simp only [occursIn, List.isEmpty_iff]
    constructor
    . rintro rfl
      exact ⟨[], [], rfl⟩
    . rintro ⟨front, back, h⟩
      simp only [List.nil_eq, List.append_eq_nil_iff] at h
      exact h.1.2
  | cons byte bytes ih =>
    simp only [occursIn, Bool.or_eq_true, List.isPrefixOf_iff_prefix, ih]
    constructor
    . rintro (⟨back, h⟩ | ⟨front, back, h⟩)
      . exact ⟨[], back, by simpa using h.symm⟩
      . exact ⟨byte :: front, back, by simp [h]⟩
    . rintro ⟨front, back, h⟩
      cases front with
      | nil => exact Or.inl ⟨back, by simpa using h.symm⟩
      | cons _ front =>
        simp only [List.cons_append, List.cons.injEq] at h
        exact Or.inr ⟨front, back, h.2⟩

end Block

end ScriptAnalysis
