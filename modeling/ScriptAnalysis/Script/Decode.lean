import ScriptAnalysis.Instruction.Decode

/-!
This module contains the decoder for whole scripts and the encoder. A script decodes into the
instructions up to its first malformed push, and keeps that error next to them: some questions are
answered from whatever could be decoded, others only from scripts that decode in full.
-/

namespace ScriptAnalysis

def encode (instructions : List Instruction) : Except ScriptError (List UInt8) :=
  (instructions.mapM Instruction.encode).map List.flatten

structure Decoded where
  instructions : List Instruction
  error : Option ScriptError
deriving DecidableEq

namespace Decoded

def toExcept (decoded : Decoded) : Except ScriptError (List Instruction) :=
  match decoded.error with
  | none => .ok decoded.instructions
  | some error => .error error

def isComplete (decoded : Decoded) : Bool :=
  decoded.error.isNone

theorem toExcept_eq_ok_iff {decoded : Decoded} {instructions : List Instruction}
    : decoded.toExcept = .ok instructions ↔ decoded = ⟨instructions, none⟩ := by
  rcases decoded with ⟨_, _ | _⟩ <;> simp [toExcept]

theorem toExcept_eq_error_iff {decoded : Decoded} {error : ScriptError}
    : decoded.toExcept = .error error ↔ decoded.error = some error := by
  rcases decoded with ⟨_, _ | _⟩ <;> simp [toExcept]

theorem map_toExcept_eq_error_iff {α : Type} {f : List Instruction → α} {decoded : Decoded}
    {error : ScriptError}
    : decoded.toExcept.map f = .error error ↔ decoded.error = some error := by
  rcases decoded with ⟨_, _ | _⟩ <;> simp [toExcept, Except.map]

end Decoded

def decode (script : List UInt8) : Decoded :=
  go 0 [] script
where
  go (offset : Nat) (acc : List Instruction) (bytes : List UInt8) : Decoded :=
    match bytes with
    | [] => ⟨acc.reverse, none⟩
    | byte :: rest =>
      match h : Instruction.decode ⟨byte⟩ rest with
      | .ok (ins, tail) =>
        have := Instruction.length_tail_le_of_decode h
        go (offset + ins.size) (ins :: acc) tail
      | .error fault => ⟨acc.reverse, some (.malformedPush ⟨byte⟩ offset fault)⟩
  termination_by bytes.length
  decreasing_by simp only [List.length_cons]; omega

theorem decode.go_nil (offset : Nat) (acc : List Instruction)
    : decode.go offset acc [] = ⟨acc.reverse, none⟩ := by
  rw [decode.go]

theorem decode.go_of_ok {byte : UInt8} {rest tail : List UInt8} {ins : Instruction}
    (offset : Nat) (acc : List Instruction)
    (h : Instruction.decode ⟨byte⟩ rest = .ok (ins, tail))
    : decode.go offset acc (byte :: rest) = decode.go (offset + ins.size) (ins :: acc) tail := by
  rw [decode.go]
  split <;> simp_all

theorem decode.go_of_error {byte : UInt8} {rest : List UInt8} {fault : PushFault}
    (offset : Nat) (acc : List Instruction)
    (h : Instruction.decode ⟨byte⟩ rest = .error fault)
    : decode.go offset acc (byte :: rest)
        =
      ⟨acc.reverse, some (.malformedPush ⟨byte⟩ offset fault)⟩ := by
  rw [decode.go]
  split <;> simp_all

theorem decode.go_eq (offset : Nat) (acc : List Instruction) (bytes : List UInt8)
    : decode.go offset acc bytes
        =
      ⟨acc.reverse ++ (decode.go offset [] bytes).instructions,
        (decode.go offset [] bytes).error⟩ := by
  induction hlen : bytes.length using Nat.strongRecOn generalizing offset acc bytes with
  | ind size ih =>
    subst hlen
    cases bytes with
    | nil => simp [decode.go_nil]
    | cons byte rest =>
      cases hdec : Instruction.decode ⟨byte⟩ rest with
      | error fault => simp [decode.go_of_error _ _ hdec]
      | ok result =>
        obtain ⟨ins, tail⟩ := result
        have hlt : tail.length < (byte :: rest).length := by
          have := Instruction.length_tail_le_of_decode hdec
          simp only [List.length_cons]
          omega
        rw [decode.go_of_ok _ acc hdec, decode.go_of_ok _ [] hdec]
        rw [ih _ hlt _ (ins :: acc) tail rfl, ih _ hlt _ [ins] tail rfl]
        simp

theorem decode.length_payload_lt_of_mem_go {offset : Nat} {bytes : List UInt8} {ins : Instruction}
    (h : ins ∈ (decode.go offset [] bytes).instructions)
    : ins.payload.length < bytes.length := by
  induction hlen : bytes.length using Nat.strongRecOn generalizing offset bytes with
  | ind size ih =>
    subst hlen
    cases bytes with
    | nil => simp [decode.go_nil] at h
    | cons byte rest =>
      cases hdec : Instruction.decode ⟨byte⟩ rest with
      | error fault => simp [decode.go_of_error _ _ hdec] at h
      | ok result =>
        obtain ⟨first, tail⟩ := result
        have htail := Instruction.length_tail_le_of_decode hdec
        rw [decode.go_of_ok _ _ hdec, decode.go_eq] at h
        simp only [List.reverse_cons, List.reverse_nil, List.nil_append, List.cons_append,
          List.mem_cons] at h
        cases h with
        | inl h =>
          subst h
          have := Instruction.length_payload_le_of_decode hdec
          simp only [List.length_cons]
          omega
        | inr h =>
          simp only [List.length_cons] at *
          have := ih _ (by omega) h rfl
          omega

theorem length_payload_lt_of_mem_decode {script : List UInt8} {ins : Instruction}
    (h : ins ∈ (decode script).instructions)
    : ins.payload.length < script.length := by
  exact decode.length_payload_lt_of_mem_go h

end ScriptAnalysis
