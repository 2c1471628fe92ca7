import ScriptAnalysis.Builder.ScriptNumber
import ScriptAnalysis.Bytes.LittleEndian.Lemmas

namespace ScriptAnalysis

namespace ScriptNumber

section Byte

variable {byte : UInt8}

theorem hasSign_iff : 0x80 ≤ byte ↔ 128 ≤ byte.toNat := by
  rw [UInt8.le_iff_toNat_le]
  rfl

theorem toNat_withoutSign (byte : UInt8) : (byte &&& 0x7f).toNat = byte.toNat % 128 := by
  rw [UInt8.toNat_and]
  apply Nat.and_two_pow_sub_one_eq_mod _ 7

theorem toNat_withSign (h : byte.toNat < 128) : (byte ||| 0x80).toNat = byte.toNat + 128 := by
  have hor : 2 ^ 7 * 1 + byte.toNat = 2 ^ 7 * 1 ||| byte.toNat := Nat.two_pow_add_eq_or_of_lt h 1
  rw [UInt8.toNat_or, Nat.or_comm, Nat.add_comm]
  exact hor.symm

theorem eq_of_withoutSign_eq {other : UInt8} (hsign : 0x80 ≤ byte ↔ 0x80 ≤ other)
    (h : byte &&& 0x7f = other &&& 0x7f)
    : byte = other := by
  have hbyte := toNat_withoutSign byte
  have hother := toNat_withoutSign other
  rw [hasSign_iff, hasSign_iff] at hsign
  rw [h] at hbyte
  rw [← UInt8.toNat_inj]
  have := byte.toNat_lt
  have := other.toNat_lt
  omega

end Byte

section Magnitude

variable {n : Nat} {front : List UInt8} {last : UInt8}

theorem toNat_magnitude (n : Nat) : LittleEndian.toNat (magnitude n) = n := by
  fun_induction magnitude n with
  | case1 => rfl
  | case2 n hn ih =>
    rw [LittleEndian.toNat, ih, UInt8.toNat_ofNat']
    omega

theorem eq_of_magnitude (h : magnitude n = front ++ [last])
    : n = LittleEndian.toNat front + 256 ^ front.length * last.toNat := by
  rw [← LittleEndian.toNat_concat, ← h, toNat_magnitude]

theorem last_pos_of_magnitude (h : magnitude n = front ++ [last]) : 0 < last.toNat := by
  fun_induction magnitude n generalizing front with
  | case1 => simp at h
  | case2 n hn ih =>
    cases front with
    | cons byte front =>
      rw [List.cons_append, List.cons.injEq] at h
      apply ih h.right
    | nil =>
      -- A single byte holds the whole number, which is not zero.
      rw [List.nil_append, List.cons.injEq] at h
      have hrest := toNat_magnitude (n / 256)
      rw [h.right, LittleEndian.toNat] at hrest
      rw [← h.left, UInt8.toNat_ofNat']
      omega

theorem length_magnitude_le {width : Nat} (h : n < 256 ^ width)
    : (magnitude n).length ≤ width := by
  induction width generalizing n with
  | zero =>
    have : n = 0 := by simpa using h
    simp [this, magnitude]
  | succ width ih =>
    unfold magnitude
    split
    . apply Nat.zero_le
    . rw [List.length_cons]
      apply Nat.succ_le_succ
      apply ih
      rw [Nat.pow_succ'] at h
      apply Nat.div_lt_of_lt_mul h

end Magnitude

section Encode

variable {value : Int} {front : List UInt8} {last : UInt8}

theorem encode_zero : encode 0 = [] := by
  simp [encode, magnitude]

theorem encode_of_magnitude (h : magnitude value.natAbs = front ++ [last])
    : encode value
        =
      if 0x80 ≤ last then
        front ++ [last] ++ [if value < 0 then 0x80 else 0x00]
      else
        front ++ [if value < 0 then last ||| 0x80 else last] := by
  simp only [encode, h, List.getLast?_concat, List.dropLast_concat]
  split
  . rfl
  . split <;> rfl

theorem encode_natCast_of_lt {n : Nat} (hpos : 0 < n) (h : n < 128)
    : encode n = [UInt8.ofNat n] := by
  have hmagnitude : magnitude n = [UInt8.ofNat n] := by
    rw [magnitude, if_neg (by omega), Nat.mod_eq_of_lt (by omega)]
    rw [Nat.div_eq_of_lt (by omega), magnitude, if_pos rfl]
  have hlast : ¬ 0x80 ≤ UInt8.ofNat n := by
    simp [UInt8.le_iff_toNat_le, UInt8.toNat_ofNat']
    omega
  simp [encode, hmagnitude, hlast]

theorem length_encode_le (value : Int)
    : (encode value).length ≤ (magnitude value.natAbs).length + 1 := by
  unfold encode
  generalize magnitude value.natAbs = bytes
  dsimp only
  split
  . simp
  . -- At most one byte is added, which holds nothing but the sign.
    split_ifs <;> simp

theorem length_encode_toInt_le (value : Int64) : (encode value.toInt).length ≤ 9 := by
  have hlow := value.le_toInt
  have hhigh := value.toInt_lt
  have hmagnitude : (magnitude value.toInt.natAbs).length ≤ 8 := by
    apply length_magnitude_le
    omega
  have := length_encode_le value.toInt
  omega

end Encode

section Decode

variable {value : Int} {front : List UInt8} {last : UInt8}

theorem decode_nil : decode [] = 0 := by
  rfl

theorem decode_concat (front : List UInt8) (last : UInt8)
    : decode (front ++ [last])
        =
      if 0x80 ≤ last then
        -(LittleEndian.toNat (front ++ [last &&& 0x7f]) : Int)
      else
        LittleEndian.toNat (front ++ [last &&& 0x7f]) := by
  simp [decode]

theorem natAbs_decode_concat (front : List UInt8) (last : UInt8)
    : (decode (front ++ [last])).natAbs = LittleEndian.toNat (front ++ [last &&& 0x7f]) := by
  rw [decode_concat]
  split
  . rw [Int.natAbs_neg, Int.natAbs_natCast]
  . rw [Int.natAbs_natCast]

theorem natAbs_decode_lt (front : List UInt8) (last : UInt8)
    : (decode (front ++ [last])).natAbs < 128 * 256 ^ front.length := by
  rw [natAbs_decode_concat, LittleEndian.toNat_concat, toNat_withoutSign]
  have hfront := LittleEndian.toNat_lt front
  have hlast : 256 ^ front.length * (last.toNat % 128) ≤ 256 ^ front.length * 127 := by
    apply Nat.mul_le_mul_left
    omega
  omega

theorem hasSign_iff_decode_neg (h : decode (front ++ [last]) ≠ 0)
    : 0x80 ≤ last ↔ decode (front ++ [last]) < 0 := by
  rw [decode_concat] at h ⊢
  split
  . next hsign =>
    rw [if_pos hsign] at h
    simp only [hsign, true_iff]
    omega
  . next hsign =>
    simp only [hsign, false_iff]
    omega

theorem eq_of_decode_eq {first second : List UInt8} (hlength : first.length = second.length)
    (h : decode first = decode second) (hne : decode second ≠ 0)
    : first = second := by
  rcases List.eq_nil_or_concat' first with rfl | ⟨first, last, rfl⟩
  . rw [List.eq_nil_of_length_eq_zero hlength.symm]
  rcases List.eq_nil_or_concat' second with rfl | ⟨second, last', rfl⟩
  . contradiction
  have habsolute := natAbs_decode_concat first last
  rw [h, natAbs_decode_concat] at habsolute
  have hbytes := LittleEndian.eq_of_toNat_eq (by simpa using hlength.symm) habsolute
  have hsign : 0x80 ≤ last ↔ 0x80 ≤ last' := by
    rw [hasSign_iff_decode_neg hne, hasSign_iff_decode_neg (h ▸ hne), h]
  simp only [List.append_singleton_inj] at hbytes ⊢
  exact ⟨hbytes.left.symm, eq_of_withoutSign_eq hsign hbytes.right.symm⟩

end Decode

structure Spells (front : List UInt8) (last : UInt8) (value : Int) : Prop where
  natAbs_eq : value.natAbs = LittleEndian.toNat (front ++ [last &&& 0x7f])
  hasSign_iff : 0x80 ≤ last ↔ value < 0
  no_room : ∀ width, width < front.length → 128 * 256 ^ width ≤ value.natAbs

section Spells

variable {value : Int} {front : List UInt8} {last : UInt8}

theorem Spells.decode_eq (h : Spells front last value) : decode (front ++ [last]) = value := by
  rw [decode_concat, ← h.natAbs_eq]
  split
  . next hsign =>
    have := h.hasSign_iff.mp hsign
    omega
  . next hsign =>
    have := mt h.hasSign_iff.mpr hsign
    omega

theorem spells_of_high (h : magnitude value.natAbs = front ++ [last]) (hlast : 128 ≤ last.toNat)
    : Spells (front ++ [last]) (if value < 0 then 0x80 else 0x00) value := by
  have hvalue := eq_of_magnitude h
  constructor
  . rw [LittleEndian.toNat_concat (front ++ [last]), LittleEndian.toNat_concat, ← hvalue]
    split <;> simp
  . split
    . next hneg => simp [hneg]
    . next hneg => simp [hneg]
  . intro width hwidth
    rw [List.length_append, List.length_singleton] at hwidth
    calc 128 * 256 ^ width
      _ ≤ 128 * 256 ^ front.length := by
        apply Nat.mul_le_mul_left
        apply Nat.pow_le_pow_right (by decide)
        omega
      _ ≤ 256 ^ front.length * last.toNat := by
        rw [Nat.mul_comm]
        apply Nat.mul_le_mul_left
        exact hlast
      _ ≤ value.natAbs := by omega

theorem spells_of_low (h : magnitude value.natAbs = front ++ [last]) (hlast : last.toNat < 128)
    : Spells front (if value < 0 then last ||| 0x80 else last) value := by
  have hvalue := eq_of_magnitude h
  have hsigned := toNat_withSign hlast
  constructor
  . rw [LittleEndian.toNat_concat, toNat_withoutSign, hvalue]
    congr 2
    split <;> omega
  . rw [hasSign_iff]
    split
    . next hneg => simp [hneg, hsigned]
    . next hneg => simp [hneg, hlast]
  . intro width hwidth
    have hpos := last_pos_of_magnitude h
    calc 128 * 256 ^ width
      _ ≤ 256 ^ (width + 1) := by
        rw [Nat.pow_succ']
        omega
      _ ≤ 256 ^ front.length * 1 := by
        rw [Nat.mul_one]
        apply Nat.pow_le_pow_right (by decide) hwidth
      _ ≤ 256 ^ front.length * last.toNat := by
        apply Nat.mul_le_mul_left
        exact hpos
      _ ≤ value.natAbs := by omega

theorem exists_spells (h : value ≠ 0)
    : ∃ front last, encode value = front ++ [last] ∧ Spells front last value := by
  have hne : magnitude value.natAbs ≠ [] := by
    intro hnil
    have := toNat_magnitude value.natAbs
    rw [hnil, LittleEndian.toNat] at this
    omega
  have hmagnitude := (List.dropLast_concat_getLast hne).symm
  have hencode := encode_of_magnitude hmagnitude
  rw [hencode]
  split
  . next hlast => exact ⟨_, _, rfl, spells_of_high hmagnitude (hasSign_iff.mp hlast)⟩
  . next hlast =>
    rw [hasSign_iff, Nat.not_le] at hlast
    exact ⟨_, _, rfl, spells_of_low hmagnitude hlast⟩

end Spells

section Shortest

variable {value : Int} {bytes : List UInt8}

theorem decode_encode (value : Int) : decode (encode value) = value := by
  by_cases hvalue : value = 0
  . rw [hvalue, encode_zero, decode_nil]
  . obtain ⟨front, last, hencode, hspells⟩ := exists_spells hvalue
    rw [hencode, hspells.decode_eq]

theorem length_encode_le_of_decode_eq (h : decode bytes = value)
    : (encode value).length ≤ bytes.length := by
  by_cases hvalue : value = 0
  . rw [hvalue, encode_zero]
    apply Nat.zero_le
  . obtain ⟨front, last, hencode, hspells⟩ := exists_spells hvalue
    rcases List.eq_nil_or_concat' bytes with rfl | ⟨other, last', rfl⟩
    . rw [decode_nil] at h
      exact absurd h.symm hvalue
    rw [hencode, List.length_append, List.length_append]
    apply Nat.add_le_add_right
    rw [← Nat.not_lt]
    intro hlt
    have hroom := hspells.no_room other.length hlt
    have hread := natAbs_decode_lt other last'
    rw [h] at hread
    omega

theorem length_encode_lt_of_decode_eq (h : decode bytes = value) (hne : bytes ≠ encode value)
    : (encode value).length < bytes.length := by
  apply Nat.lt_of_le_of_ne (length_encode_le_of_decode_eq h)
  intro hlength
  apply hne
  by_cases hvalue : value = 0
  . rw [hvalue, encode_zero] at hlength ⊢
    apply List.eq_nil_of_length_eq_zero hlength.symm
  . apply eq_of_decode_eq hlength.symm
    . rw [h, decode_encode]
    . rwa [decode_encode]

/--
The script number of an integer is read as that integer, and any other bytes that are read as the
same integer are more. It has at most nine bytes, and no other integer has the same one.
-/
theorem encode_shortest (value : Int64)
    : decode (encode value.toInt) = value.toInt
        ∧ (encode value.toInt).length ≤ 9
        ∧ (∀ bytes, decode bytes = value.toInt → bytes ≠ encode value.toInt
            → (encode value.toInt).length < bytes.length)
        ∧ ∀ other : Int64, encode other.toInt = encode value.toInt → other = value := by
  refine ⟨?_, ?_, ?_, ?_⟩
  . apply decode_encode
  . apply length_encode_toInt_le
  . intro bytes h hne
    apply length_encode_lt_of_decode_eq h hne
  . intro other h
    have hread := congrArg decode h
    rw [decode_encode, decode_encode] at hread
    apply Int64.toInt_inj.mp hread

example : encode Int64.minValue.toInt = [0, 0, 0, 0, 0, 0, 0, 0x80, 0x80] := by
  decide +kernel

end Shortest

end ScriptNumber

end ScriptAnalysis
