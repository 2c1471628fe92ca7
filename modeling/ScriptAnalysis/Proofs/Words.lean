import Mathlib
import ScriptAnalysis.Bytes.LittleEndian
import ScriptAnalysis.Opcode.Mnemonic

/-!
This module contains the words that texts are made of: mnemonics, decimal numbers and hexadecimal
bytes. None of them contains white space, so the white space between them shows where they end, and
other marks that they do not contain show it as well. A mnemonic tells its opcode, and hexadecimal
digits tell the bytes that they stand for.
-/

namespace ScriptAnalysis

def whiteSpace : List Char :=
  [' ', '\t', '\x0d', '\n']

theorem isWhitespace_iff {c : Char} : c.isWhitespace = true ↔ c ∈ whiteSpace := by
  simp [Char.isWhitespace, whiteSpace, or_assoc]

def IsWord (text : List Char) : Prop :=
  ∀ c ∈ text, c.isWhitespace = false

def firstWord (text : List Char) : List Char :=
  (text.dropWhile Char.isWhitespace).takeWhile (!Char.isWhitespace ·)

namespace IsWord

variable {text : List Char}

theorem notMem (h : IsWord text) {c : Char} (hc : c.isWhitespace = true) : c ∉ text := by
  intro hmem
  rw [h c hmem] at hc
  contradiction

theorem firstWord_append (h : IsWord text) (hne : text ≠ []) {front back : List Char}
    (hfront : ∀ c ∈ front, c.isWhitespace = true) (hback : back.head?.all Char.isWhitespace = true)
    : firstWord (front ++ (text ++ back)) = text := by
  have hdrop : (text ++ back).dropWhile Char.isWhitespace = text ++ back := by
    obtain ⟨c, rest, rfl⟩ := List.exists_cons_of_ne_nil hne
    rw [List.cons_append, List.dropWhile_cons_of_neg]
    simp [h c]
  have htake : back.takeWhile (!Char.isWhitespace ·) = [] := by
    cases back with
    | nil => rfl
    | cons c back =>
      rw [List.takeWhile_cons_of_neg]
      simpa using hback
  rw [firstWord, List.dropWhile_append_of_pos hfront, hdrop, List.takeWhile_append_of_pos, htake,
    List.append_nil]
  intro c hc
  simp [h c hc]

end IsWord

theorem takeWhile_append_mark {mark : Char} {front : List Char} (h : mark ∉ front)
    (behind : List Char)
    : (front ++ mark :: behind).takeWhile (· != mark) = front := by
  rw [List.takeWhile_append_of_pos, List.takeWhile_cons_of_neg (by simp), List.append_nil]
  intro c hc
  rw [bne_iff_ne]
  rintro rfl
  exact h hc

theorem eq_of_append_mark_eq {mark : Char} {first second behind behind' : List Char}
    (hfirst : mark ∉ first) (hsecond : mark ∉ second)
    (h : first ++ mark :: behind = second ++ mark :: behind')
    : first = second ∧ behind = behind' := by
  have hfront : first = second := by
    rw [← takeWhile_append_mark hfirst behind, h, takeWhile_append_mark hsecond]
  subst hfront
  exact ⟨rfl, (List.cons.inj (List.append_cancel_left h)).right⟩

theorem eq_behind_last_mark {mark : Char} {front front' first second : List Char}
    (hfirst : mark ∉ first) (hsecond : mark ∉ second)
    (h : front ++ mark :: first = front' ++ mark :: second)
    : first = second := by
  have hreverse := congrArg List.reverse h
  simp only [List.reverse_append, List.reverse_cons, List.append_assoc, List.cons_append,
    List.nil_append] at hreverse
  rw [← List.mem_reverse] at hfirst hsecond
  exact List.reverse_inj.mp (eq_of_append_mark_eq hfirst hsecond hreverse).left

theorem filter_intercalate {separator : String} {parts : List String}
    (h : ∀ part ∈ parts, ∀ c ∈ part.toList, c ∉ separator.toList)
    : (separator.intercalate parts).toList.filter (· ∉ separator.toList)
        =
      parts.flatMap String.toList := by
  have hseparator : separator.toList.filter (· ∉ separator.toList) = [] := by
    simp
  induction parts with
  | nil => simp
  | cons part parts ih =>
    rw [List.forall_mem_cons] at h
    have hpart : part.toList.filter (· ∉ separator.toList) = part.toList := by
      simpa using h.left
    cases parts with
    | nil => rw [String.intercalate_singleton, hpart, List.flatMap_singleton]
    | cons next parts =>
      rw [String.intercalate_cons_cons, String.toList_append, String.toList_append,
        List.filter_append, List.filter_append, hpart, hseparator, ih h.right, List.append_nil]
      rfl

theorem notMem_intercalate {separator : String} {parts : List String} {c : Char}
    (hseparator : c ∉ separator.toList) (hparts : ∀ part ∈ parts, c ∉ part.toList)
    : c ∉ (separator.intercalate parts).toList := by
  induction parts with
  | nil => simp
  | cons part parts ih =>
    rw [List.forall_mem_cons] at hparts
    cases parts with
    | nil =>
      rw [String.intercalate_singleton]
      exact hparts.left
    | cons next parts =>
      simp only [String.intercalate_cons_cons, String.toList_append, List.mem_append, not_or]
      exact ⟨⟨hparts.left, hseparator⟩, ih hparts.right⟩

theorem intercalate_concat (separator : String) (parts : List String) (last : String)
    : separator.intercalate (parts ++ [last])
        =
      separator.intercalate parts ++ (if parts = [] then "" else separator) ++ last := by
  by_cases h : parts = []
  . simp [h]
  . rw [if_neg h, String.intercalate_append_of_ne_nil h (by simp), String.intercalate_singleton]

namespace Opcode

def spelling (text : String) : List UInt8 :=
  text.toByteArray.data.toList

theorem spelling_eq (text : String)
    : spelling text = text.toList.flatMap String.utf8EncodeChar := by
  rw [spelling, ← String.utf8Encode_toList, List.utf8Encode, List.toList_data_toByteArray]

def isNameByte (byte : UInt8) : Bool :=
  (0x30 ≤ byte && byte ≤ 0x39) || (0x41 ≤ byte && byte ≤ 0x5a) || byte = 0x5f

theorem notMem_of_spelling {text : String} (h : (spelling text).all isNameByte = true) {c : Char}
    (hc : (String.utf8EncodeChar c).all isNameByte = false)
    : c ∉ text.toList := by
  intro hmem
  rw [spelling_eq, List.all_flatMap, List.all_eq_true] at h
  rw [h c hmem] at hc
  contradiction

theorem spelling_mnemonics
    : mnemonics.toList.all (fun name =>
        !(spelling name).isEmpty && (spelling name).all isNameByte) = true := by
  decide +kernel

theorem nodup_mnemonics : mnemonics.toList.Nodup := by
  apply List.Nodup.of_map fun name => LittleEndian.toNat (spelling name)
  decide +kernel

theorem byte_lt_length_mnemonics (op : Opcode) : op.byte.toNat < mnemonics.toList.length := by
  rw [Vector.length_toList]
  exact op.byte.toNat_lt

theorem mnemonic_eq_get (op : Opcode)
    : op.mnemonic = mnemonics.toList.get ⟨op.byte.toNat, op.byte_lt_length_mnemonics⟩ := by
  rw [List.get_eq_getElem, Vector.getElem_toList]
  rfl

theorem mnemonic_mem (op : Opcode) : op.mnemonic ∈ mnemonics.toList := by
  rw [mnemonic_eq_get]
  apply List.get_mem

theorem mnemonic_injective {first second : Opcode} (h : first.mnemonic = second.mnemonic)
    : first = second := by
  rw [mnemonic_eq_get, mnemonic_eq_get second] at h
  have hindex := List.nodup_iff_injective_get.mp nodup_mnemonics h
  rw [Fin.mk.injEq, UInt8.toNat_inj] at hindex
  cases first
  cases second
  cases hindex
  rfl

theorem notMem_mnemonic (op : Opcode) {c : Char}
    (hc : (String.utf8EncodeChar c).all isNameByte = false)
    : c ∉ op.mnemonic.toList := by
  have h := List.all_eq_true.mp spelling_mnemonics op.mnemonic op.mnemonic_mem
  rw [Bool.and_eq_true] at h
  exact notMem_of_spelling h.right hc

theorem isWord_mnemonic (op : Opcode) : IsWord op.mnemonic.toList := by
  intro c hc
  rw [Bool.eq_false_iff]
  intro hwhite
  have hspace : whiteSpace.all (fun c => !(String.utf8EncodeChar c).all isNameByte) = true := by
    decide
  have hno := List.all_eq_true.mp hspace c (isWhitespace_iff.mp hwhite)
  rw [Bool.not_eq_true'] at hno
  exact op.notMem_mnemonic hno hc

theorem mnemonic_ne_nil (op : Opcode) : op.mnemonic.toList ≠ [] := by
  have h := List.all_eq_true.mp spelling_mnemonics op.mnemonic op.mnemonic_mem
  intro hnil
  rw [spelling_eq, hnil] at h
  contradiction

end Opcode

theorem isDigit_of_mem_toDigits {n : Nat} {c : Char} (h : c ∈ Nat.toDigits 10 n)
    : c.isDigit = true := by
  apply Nat.isDigit_of_mem_toDigits _ _ h <;> decide

theorem isWord_toDigits (n : Nat) : IsWord (Nat.toDigits 10 n) := by
  intro c hc
  rw [Bool.eq_false_iff]
  intro hwhite
  have hspace : whiteSpace.all (!Char.isDigit ·) = true := by decide
  have hno := List.all_eq_true.mp hspace c (isWhitespace_iff.mp hwhite)
  rw [isDigit_of_mem_toDigits hc] at hno
  contradiction

theorem isWord_toString (n : Nat) : IsWord (toString n).toList := by
  rw [Nat.toString_eq_repr, Nat.toList_repr]
  apply isWord_toDigits

theorem toString_ne_nil (n : Nat) : (toString n).toList ≠ [] := by
  rw [Nat.toString_eq_repr, Nat.toList_repr]
  apply Nat.toDigits_ne_nil

def EndsInWord (text : String) : Prop :=
  ∃ front word, text = front ++ word ∧ IsWord word.toList ∧ word.toList ≠ []

namespace EndsInWord

theorem mnemonic (op : Opcode) : EndsInWord op.mnemonic :=
  ⟨"", op.mnemonic, by simp, op.isWord_mnemonic, op.mnemonic_ne_nil⟩

theorem toString (n : Nat) : EndsInWord (toString n) :=
  ⟨"", ToString.toString n, by simp, isWord_toString n, toString_ne_nil n⟩

theorem append {back : String} (h : EndsInWord back) (front : String)
    : EndsInWord (front ++ back) := by
  obtain ⟨middle, word, rfl, hword, hne⟩ := h
  exact ⟨front ++ middle, word, by rw [String.append_assoc], hword, hne⟩

end EndsInWord

namespace Hex

theorem exists_digitChar_of_mem_digits {bytes : List UInt8} {c : Char} (h : c ∈ digits bytes)
    : ∃ n < 16, c = Nat.digitChar n := by
  simp only [digits, byteDigits, List.mem_flatMap, List.mem_cons, List.not_mem_nil, or_false] at h
  obtain ⟨byte, -, h⟩ := h
  have := byte.toNat_lt
  cases h with
  | inl hhigh => exact ⟨byte.toNat / 16, by omega, hhigh⟩
  | inr hlow => exact ⟨byte.toNat % 16, by omega, hlow⟩

theorem notMem_digits (bytes : List UInt8) {c : Char} (hc : ∀ n < 16, Nat.digitChar n ≠ c)
    : c ∉ digits bytes := by
  intro hmem
  obtain ⟨n, hn, rfl⟩ := exists_digitChar_of_mem_digits hmem
  exact hc n hn rfl

theorem isWord_digits (bytes : List UInt8) : IsWord (digits bytes) := by
  have hdigit : ∀ n < 16, (Nat.digitChar n).isWhitespace = false := by decide
  intro c hc
  obtain ⟨n, hn, rfl⟩ := exists_digitChar_of_mem_digits hc
  exact hdigit n hn

theorem byteDigits_injective {first second : UInt8} (h : byteDigits first = byteDigits second)
    : first = second := by
  have hdigit : ∀ m < 16, ∀ n < 16, Nat.digitChar m = Nat.digitChar n → m = n := by decide
  have hfirst := first.toNat_lt
  have hsecond := second.toNat_lt
  simp only [byteDigits, List.cons.injEq, and_true] at h
  have hhigh := hdigit _ (by omega) _ (by omega) h.left
  have hlow := hdigit _ (by omega) _ (by omega) h.right
  rw [← UInt8.toNat_inj]
  omega

theorem digits_cons (byte : UInt8) (bytes : List UInt8)
    : digits (byte :: bytes) = byteDigits byte ++ digits bytes := by
  rfl

theorem digits_injective {first second : List UInt8} (h : digits first = digits second)
    : first = second := by
  have hlength : first.length = second.length := by
    have := congrArg List.length h
    simp only [length_digits] at this
    omega
  induction first generalizing second with
  | nil => exact (List.length_eq_zero_iff.mp hlength.symm).symm
  | cons byte first ih =>
    cases second with
    | nil => contradiction
    | cons byte' second =>
      rw [digits_cons, digits_cons] at h
      obtain ⟨hbyte, hrest⟩ := List.append_inj h rfl
      rw [byteDigits_injective hbyte, ih hrest (by simpa using hlength)]

end Hex

end ScriptAnalysis
