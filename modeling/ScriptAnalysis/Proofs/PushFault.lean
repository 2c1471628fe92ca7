import ScriptAnalysis.Proofs.Append

namespace ScriptAnalysis

namespace PushFault

def wanted : PushFault → Nat
  | truncated required _ => required
  | overlong declared _ => declared

def remaining : PushFault → Nat
  | truncated _ remaining => remaining
  | overlong _ remaining => remaining

def deficit (fault : PushFault) : Nat :=
  fault.wanted - fault.remaining

@[simp]
theorem deficit_truncated (required remaining : Nat)
    : (truncated required remaining).deficit = required - remaining := by
  rfl

@[simp]
theorem deficit_overlong (declared remaining : Nat)
    : (overlong declared remaining).deficit = declared - remaining := by
  rfl

def extend (extra : Nat) : PushFault → PushFault
  | truncated required remaining => truncated required (remaining + extra)
  | overlong declared remaining => overlong declared (remaining + extra)

@[simp]
theorem wanted_extend (extra : Nat) (fault : PushFault)
    : (fault.extend extra).wanted = fault.wanted := by
  cases fault <;> rfl

end PushFault

namespace Instruction

inductive Refused (opcode : Opcode) (bytes : List UInt8) : PushFault → Prop where
  /--
  The payload of fixed length is cut. Here the opcode counts both as required and as remaining.
  -/
  | fixed {length : Nat} (hoperand : opcode.operand = .fixed length)
      (hcut : bytes.length < length + 1)
      : Refused opcode bytes (.truncated (length + 1) bytes.length)
  | field {width : LengthWidth} (hoperand : opcode.operand = .prefixed width)
      (hcut : bytes.length - 1 < width.bytes)
      : Refused opcode bytes (.truncated width.bytes (bytes.length - 1))
  | payload {width : LengthWidth} {field body : List UInt8}
      (hoperand : opcode.operand = .prefixed width)
      (hbytes : bytes = opcode.byte :: (field ++ body)) (hfield : field.length = width.bytes)
      (hcut : body.length < LittleEndian.toNat field)
      : Refused opcode bytes (.overlong (LittleEndian.toNat field) body.length)

section Refused

variable {opcode : Opcode} {rest tail : List UInt8} {fault : PushFault}

theorem refused_of_decode (h : decode opcode rest = .error fault)
    : Refused opcode (opcode.byte :: rest) fault := by
  unfold decode at h
  split at h
  . contradiction
  . next length hoperand =>
    split at h
    . contradiction
    . next hcut =>
      rw [Block.cut?_eq_none_iff] at hcut
      cases h
      rw [Nat.add_comm 1, Nat.add_comm 1]
      apply Refused.fixed hoperand
      rw [List.length_cons]
      omega
  . next width hoperand =>
    split at h
    . next hcut =>
      rw [Block.cut?_eq_none_iff] at hcut
      cases h
      apply Refused.field hoperand
      rwa [List.length_cons, Nat.add_sub_cancel]
    . next field body hcut =>
      obtain ⟨rfl, hfield⟩ := Block.cut?_eq_some_iff.mp hcut
      dsimp at h
      split at h
      . contradiction
      . next hcut =>
        rw [Block.cut?_eq_none_iff] at hcut
        cases h
        apply Refused.payload hoperand rfl hfield hcut

theorem decode_of_refused (h : Refused opcode (opcode.byte :: rest) fault)
    : decode opcode rest = .error fault := by
  unfold decode
  cases h with
  | @fixed length hoperand hcut =>
    rw [List.length_cons, Nat.add_lt_add_iff_right] at hcut
    simp only [hoperand, Block.cut?_eq_none_iff.mpr hcut, List.length_cons, Nat.add_comm 1]
  | @field width hoperand hcut =>
    rw [List.length_cons, Nat.add_sub_cancel] at hcut
    simp only [hoperand, Block.cut?_eq_none_iff.mpr hcut, List.length_cons, Nat.add_sub_cancel]
  | @payload width field body hoperand hbytes hfield hcut =>
    rw [List.cons.injEq] at hbytes
    have hfront : Block.cut? width.bytes rest = some (field, body) :=
      Block.cut?_eq_some_iff.mpr ⟨hbytes.right, hfield⟩
    simp only [hoperand, hfront, Block.cut?_eq_none_iff.mpr hcut]

theorem Refused.append_of_lt (h : Refused opcode (opcode.byte :: rest) fault)
    (htail : tail.length < fault.deficit)
    : Refused opcode (opcode.byte :: (rest ++ tail)) (fault.extend tail.length) := by
  have hlength : (opcode.byte :: (rest ++ tail)).length
      = (opcode.byte :: rest).length + tail.length := by
    rw [← List.cons_append, List.length_append]
  cases h with
  | @fixed length hoperand hcut =>
    rw [PushFault.deficit_truncated] at htail
    rw [PushFault.extend, ← hlength]
    apply Refused.fixed hoperand
    omega
  | @field width hoperand hcut =>
    rw [PushFault.deficit_truncated] at htail
    have hremaining : (opcode.byte :: rest).length - 1 + tail.length
        = (opcode.byte :: (rest ++ tail)).length - 1 := by
      simp
    rw [PushFault.extend, hremaining]
    apply Refused.field hoperand
    omega
  | @payload width field body hoperand hbytes hfield hcut =>
    rw [PushFault.deficit_overlong] at htail
    rw [List.cons.injEq] at hbytes
    rw [PushFault.extend, ← List.length_append, hbytes.right, List.append_assoc]
    apply Refused.payload hoperand rfl hfield
    rw [List.length_append]
    omega

def CutsField (opcode : Opcode) (fault : PushFault) : Prop :=
  ∃ width remaining, opcode.operand = .prefixed width ∧ fault = .truncated width.bytes remaining

theorem fits_of_field {width : LengthWidth} {field payload : List UInt8}
    (hoperand : opcode.operand = .prefixed width) (hfield : field.length = width.bytes)
    (hpayload : payload.length = LittleEndian.toNat field)
    : Fits ⟨opcode, payload⟩ ∧ bytes ⟨opcode, payload⟩ = opcode.byte :: (field ++ payload) := by
  constructor
  . simp only [Fits, hoperand]
    rw [LengthWidth.le_maxLength_iff, hpayload, ← hfield]
    apply LittleEndian.toNat_lt
  . simp only [bytes, lengthField, hoperand]
    rw [hpayload, ← hfield, LittleEndian.ofNat_toNat]

theorem Refused.exists_of_eq (h : Refused opcode (opcode.byte :: rest) fault)
    (hfault : ¬ CutsField opcode fault) (htail : tail.length = fault.deficit)
    : ∃ payload, Fits ⟨opcode, payload⟩
        ∧ bytes ⟨opcode, payload⟩ = opcode.byte :: (rest ++ tail) := by
  cases h with
  | @fixed length hoperand hcut =>
    rw [PushFault.deficit_truncated] at htail
    refine ⟨rest ++ tail, ?_, bytes_of_fixed hoperand⟩
    rw [fits_iff_of_fixed hoperand, List.length_append]
    rw [List.length_cons] at hcut htail
    omega
  | @field width hoperand hcut => exact absurd ⟨width, _, hoperand, rfl⟩ hfault
  | @payload width field body hoperand hbytes hfield hcut =>
    rw [PushFault.deficit_overlong] at htail
    rw [List.cons.injEq] at hbytes
    refine ⟨body ++ tail, ?_⟩
    rw [hbytes.right, List.append_assoc]
    apply fits_of_field hoperand hfield
    rw [List.length_append]
    omega

theorem Refused.complete_field (h : Refused opcode (opcode.byte :: rest) fault)
    (hfault : CutsField opcode fault) (htail : tail.length = fault.deficit)
    : (LittleEndian.toNat (rest ++ tail) = 0
          → Fits ⟨opcode, []⟩ ∧ bytes ⟨opcode, []⟩ = opcode.byte :: (rest ++ tail))
      ∧ (LittleEndian.toNat (rest ++ tail) ≠ 0
          → Refused opcode (opcode.byte :: (rest ++ tail))
              (.overlong (LittleEndian.toNat (rest ++ tail)) 0)) := by
  obtain ⟨width, remaining, hoperand, hfault⟩ := hfault
  have hfield : (rest ++ tail).length = width.bytes := by
    cases h with
    | fixed hother =>
      rw [hoperand] at hother
      contradiction
    | payload => contradiction
    | field hother hcut =>
      rw [hoperand, Operand.prefixed.injEq] at hother
      rw [PushFault.deficit_truncated] at htail
      rw [List.length_cons, Nat.add_sub_cancel, ← hother] at hcut htail
      rw [List.length_append]
      omega
  have hbytes : opcode.byte :: (rest ++ tail) = opcode.byte :: (rest ++ tail ++ []) := by
    rw [List.append_nil]
  constructor
  . intro hzero
    rw [hbytes]
    apply fits_of_field hoperand hfield
    rw [hzero, List.length_nil]
  . intro hne
    apply Refused.payload hoperand hbytes hfield
    rw [List.length_nil]
    omega

end Refused

end Instruction

/--
The error of a script that does not decode in full tells exactly what is wrong with the push at its
offset, and how many bytes are missing. With fewer bytes at its end the script fails in the same
place, asking for as much as before. With just as many it decodes in full and has one instruction
more, unless they only complete the length of a payload that is not there.
-/
theorem malformedPush_tells_deficit (script : List UInt8) (instructions : List Instruction)
    (error : ScriptError) (h : decode script = ⟨instructions, some error⟩)
    : ∃ opcode offset fault, error = .malformedPush opcode offset fault
        ∧ script[offset]? = some opcode.byte
        ∧ Instruction.Refused opcode (script.drop offset) fault
        ∧ (∀ tail, tail.length < fault.deficit
            → (fault.extend tail.length).wanted = fault.wanted
              ∧ decode (script ++ tail)
                  = ⟨instructions,
                      some (.malformedPush opcode offset (fault.extend tail.length))⟩)
        ∧ (∀ tail, tail.length = fault.deficit → ¬ Instruction.CutsField opcode fault
            → ∃ payload, decode (script ++ tail) = ⟨instructions ++ [⟨opcode, payload⟩], none⟩)
        ∧ (∀ tail declared, tail.length = fault.deficit → Instruction.CutsField opcode fault
            → declared = LittleEndian.toNat ((script ++ tail).drop (offset + 1))
            → (declared = 0
                → decode (script ++ tail) = ⟨instructions ++ [⟨opcode, []⟩], none⟩)
              ∧ (declared ≠ 0
                → decode (script ++ tail)
                    = ⟨instructions,
                        some (.malformedPush opcode offset (.overlong declared 0))⟩)) := by
  obtain ⟨hfits, byte, rest, fault, rfl, hdec, rfl⟩ := decode_eq_error_iff.mp h
  have hcomplete := decode_flatMap hfits
  have hrefused := Instruction.refused_of_decode hdec
  have htail : ∀ tail, instructions.flatMap Instruction.bytes ++ byte :: rest ++ tail
      = instructions.flatMap Instruction.bytes ++ byte :: (rest ++ tail) := by
    intro tail
    rw [List.append_assoc, List.cons_append]
  refine ⟨⟨byte⟩, _, fault, rfl, ?_, ?_, ?_, ?_, ?_⟩
  . rw [List.getElem?_append_right (Nat.le_refl _), Nat.sub_self]
    rfl
  . rwa [List.drop_left]
  . intro tail hlt
    have hstill := Instruction.decode_of_refused (hrefused.append_of_lt hlt)
    rw [PushFault.wanted_extend, htail, decode_flatMap_append_of_error hfits hstill]
    exact ⟨rfl, rfl⟩
  . intro tail heq hfault
    obtain ⟨payload, hpayload, hbytes⟩ := hrefused.exists_of_eq hfault heq
    refine ⟨payload, ?_⟩
    rw [htail, ← hbytes]
    apply decode_append_bytes hcomplete hpayload
  . intro tail declared heq hfault hdeclared
    obtain ⟨hempty, hlacks⟩ := hrefused.complete_field hfault heq
    have hfield : (instructions.flatMap Instruction.bytes ++ byte :: rest ++ tail).drop
        ((instructions.flatMap Instruction.bytes).length + 1) = rest ++ tail := by
      rw [htail, List.drop_append]
      simp
    rw [hfield] at hdeclared
    subst hdeclared
    constructor
    . intro hzero
      obtain ⟨hpayload, hbytes⟩ := hempty hzero
      rw [htail, ← hbytes]
      apply decode_append_bytes hcomplete hpayload
    . intro hne
      have hstill := Instruction.decode_of_refused (hlacks hne)
      rw [htail, decode_flatMap_append_of_error hfits hstill]

theorem cutField_completed_either_way
    : decode [0x51, 0x4d, 0x00]
          = ⟨[⟨.op1, []⟩], some (.malformedPush .pushData2 1 (.truncated 2 1))⟩
        ∧ decode [0x51, 0x4d, 0x00, 0x00] = ⟨[⟨.op1, []⟩, ⟨.pushData2, []⟩], none⟩
        ∧ decode [0x51, 0x4d, 0x00, 0x01]
            = ⟨[⟨.op1, []⟩], some (.malformedPush .pushData2 1 (.overlong 256 0))⟩ := by
  have hcut : decode [0x51, 0x4d, 0x00]
      = ⟨[⟨.op1, []⟩], some (.malformedPush .pushData2 1 (.truncated 2 1))⟩ := by
    decide +kernel
  obtain ⟨opcode, offset, fault, herror, -, -, -, -, hfield⟩
    := malformedPush_tells_deficit _ _ _ hcut
  cases herror
  have hcuts : Instruction.CutsField .pushData2 (.truncated 2 1) := ⟨.two, 1, by decide, rfl⟩
  obtain ⟨hzero, -⟩ := hfield [0x00] 0 rfl hcuts rfl
  obtain ⟨-, hlacks⟩ := hfield [0x01] 256 rfl hcuts rfl
  exact ⟨hcut, hzero rfl, hlacks (by decide)⟩

end ScriptAnalysis
