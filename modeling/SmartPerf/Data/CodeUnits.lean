import Mathlib.Tactic

namespace SmartPerf.Data

open List

/-! The code units of a text in bytes and in units of 16 bits. -/

def utf8 (text : List Char) : List UInt8 := text.flatMap String.utf8EncodeChar

def utf16Char (char : Char) : List UInt16 :=
  if char.toNat < 0x10000 then [char.toNat.toUInt16]
  else [(0xD800 + (char.toNat - 0x10000) / 0x400).toUInt16, (0xDC00 + (char.toNat - 0x10000) % 0x400).toUInt16]

def utf16 (text : List Char) : List UInt16 := text.flatMap utf16Char

theorem toNat_toUInt8 {value : Nat} (small : value < 256) : value.toUInt8.toNat = value := by
  rw [Nat.toUInt8, UInt8.toNat_ofNat', Nat.mod_eq_of_lt small]

theorem toNat_toUInt16 {value : Nat} (small : value < 65536) : value.toUInt16.toNat = value := by
  rw [Nat.toUInt16, UInt16.toNat_ofNat', Nat.mod_eq_of_lt small]

theorem toNat_char_cases (char : Char) : char.toNat < 0xD800 ∨ 0xDFFF < char.toNat ∧ char.toNat < 0x110000 := char.valid

theorem mem_utf8EncodeChar {char : Char} {code : UInt8} (listed : code ∈ String.utf8EncodeChar char) :
    code.toNat = char.toNat ∨ 128 ≤ code.toNat := by
  rw [String.utf8EncodeChar] at listed
  split at listed
  · rw [mem_singleton.mp listed]
    exact .inl (toNat_toUInt8 (by omega))
  · right
    split at listed
    · simp only [mem_cons, not_mem_nil, or_false] at listed
      rcases listed with rfl | rfl <;> rw [UInt8.toNat_ofNat'] <;> omega
    · split at listed
      · simp only [mem_cons, not_mem_nil, or_false] at listed
        rcases listed with rfl | rfl | rfl <;> rw [UInt8.toNat_ofNat'] <;> omega
      · simp only [mem_cons, not_mem_nil, or_false] at listed
        rcases listed with rfl | rfl | rfl | rfl <;> rw [UInt8.toNat_ofNat'] <;> omega

theorem mem_utf16Char {char : Char} {code : UInt16} (listed : code ∈ utf16Char char) :
    code.toNat = char.toNat ∨ 128 ≤ code.toNat := by
  have valid := toNat_char_cases char
  rw [utf16Char] at listed
  split at listed
  · rw [mem_singleton.mp listed]
    exact .inl (toNat_toUInt16 (by omega))
  · simp only [mem_cons, not_mem_nil, or_false] at listed
    rcases listed with rfl | rfl
    · rw [toNat_toUInt16 (by omega)]
      omega
    · rw [toNat_toUInt16 (by omega)]
      omega

theorem utf16Char_append_inj {char other : Char} {rest others : List UInt16}
    (same : utf16Char char ++ rest = utf16Char other ++ others) : char = other ∧ rest = others := by
  have valid := toNat_char_cases char
  have valid_other := toNat_char_cases other
  have of_toNat : char.toNat = other.toNat → char = other := Char.toNat_inj.mp
  have unit_eq : ∀ {left right : Nat}, left < 65536 → right < 65536 → left.toUInt16 = right.toUInt16 → left = right := by
    intro left right left_small right_small equal
    rw [← toNat_toUInt16 left_small, ← toNat_toUInt16 right_small, equal]
  rw [utf16Char, utf16Char] at same
  split at same <;> split at same
  · obtain ⟨units, rests⟩ := List.cons.inj same
    exact ⟨of_toNat (unit_eq (by omega) (by omega) units), rests⟩
  · have first := unit_eq (by omega) (by omega) (List.cons.inj same).1
    omega
  · have first := unit_eq (by omega) (by omega) (List.cons.inj same).1
    omega
  · obtain ⟨high, tails⟩ := List.cons.inj same
    obtain ⟨low, rests⟩ := List.cons.inj tails
    have high_eq := unit_eq (by omega) (by omega) high
    have low_eq := unit_eq (by omega) (by omega) low
    exact ⟨of_toNat (by omega), rests⟩

theorem utf16_injective : Function.Injective utf16 := by
  intro text other same
  have nonempty : ∀ char, utf16Char char ≠ [] := by
    intro char
    rw [utf16Char]
    split
    · exact cons_ne_nil _ _
    · exact cons_ne_nil _ _
  induction text generalizing other with
  | nil =>
    cases other with
    | nil => rfl
    | cons char rest => exact absurd (append_eq_nil_iff.mp same.symm).1 (nonempty char)
  | cons char rest ih =>
    cases other with
    | nil => exact absurd (append_eq_nil_iff.mp same).1 (nonempty char)
    | cons otherChar others =>
      obtain ⟨rfl, rests⟩ := utf16Char_append_inj same
      rw [ih rests]

end SmartPerf.Data
