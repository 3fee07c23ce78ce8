import Mathlib

namespace SmartPerf.Data

open List

/-! Decimal texts of integers, and texts that are put together from them. -/

/-- Digits, after a minus sign or another digit. -/
structure IsNumberText (text : List Char) : Prop where
  nonempty : text ≠ []
  tail : '-' ∉ text.tail
  signed : text.head? = some '-' → text.tail ≠ []

theorem notMem_digits {char : Char} (notDigit : char.isDigit = false) (value : Nat) : char ∉ Nat.toDigits 10 value := by
  intro inside
  have digit : char.isDigit = true := Nat.isDigit_of_mem_toDigits (by decide) (by decide) inside
  rw [notDigit] at digit
  cases digit

theorem repr_eq_digits (value : Int) :
    ∃ digits, value.repr.toList = Nat.toDigits 10 digits ∨ value.repr.toList = '-' :: Nat.toDigits 10 digits := by
  have natText (digits : Nat) : (Nat.repr digits).toList = Nat.toDigits 10 digits := by
    rw [Nat.repr_eq_ofList_toDigits, String.toList_ofList]
  cases value with
  | ofNat value => exact ⟨value, .inl (natText value)⟩
  | negSucc value =>
    refine ⟨value + 1, .inr ?_⟩
    rw [Int.repr, String.toList_append, natText]
    rfl

theorem isNumberText_repr (value : Int) : IsNumberText value.repr.toList := by
  obtain ⟨digits, text | text⟩ := repr_eq_digits value
  all_goals
    have noSign := notMem_digits (show '-'.isDigit = false from rfl) digits
    rw [text]
  · refine ⟨Nat.toDigits_ne_nil, fun inside => noSign (mem_of_mem_tail inside), ?_⟩
    intro sign
    exact absurd (mem_of_mem_head? sign) noSign
  · exact ⟨cons_ne_nil _ _, noSign, fun _ => Nat.toDigits_ne_nil⟩

variable {first second rest other : List Char} {separator : Char}

theorem split_inj_of_notMem (clean : separator ∉ first) (cleanOther : separator ∉ second)
    (same : first ++ separator :: rest = second ++ separator :: other) : first = second ∧ rest = other := by
  have front {text tail : List Char} (clean : separator ∉ text) :
      (text ++ separator :: tail).takeWhile (· ≠ separator) = text := by
    rw [takeWhile_append_of_pos (by simpa using fun char inside => ne_of_mem_of_not_mem inside clean)]
    simp
  have fronts := congrArg (List.takeWhile (· ≠ separator)) same
  rw [front clean, front cleanOther] at fronts
  subst fronts
  exact ⟨rfl, (List.cons.inj (append_cancel_left same)).2⟩

theorem last_split_inj_of_notMem (clean : separator ∉ rest) (cleanOther : separator ∉ other)
    (same : first ++ separator :: rest = second ++ separator :: other) : first = second ∧ rest = other := by
  have reversed := congrArg List.reverse same
  simp only [reverse_append, reverse_cons, append_assoc] at reversed
  obtain ⟨rests, firsts⟩ := split_inj_of_notMem (by simpa using clean) (by simpa using cleanOther) reversed
  exact ⟨reverse_injective firsts, reverse_injective rests⟩

theorem notMem_repr {char : Char} (notDigit : char.isDigit = false) (notMinus : char ≠ '-') (value : Int) :
    char ∉ value.repr.toList := by
  obtain ⟨digits, text | text⟩ := repr_eq_digits value
  · rw [text]
    exact notMem_digits notDigit digits
  · rw [text, mem_cons]
    rintro (sign | inside)
    · exact notMinus sign
    · exact notMem_digits notDigit _ inside

theorem number_dash_inj (number : IsNumberText first) (numberOther : IsNumberText second)
    (same : first ++ '-' :: rest = second ++ '-' :: other) : first = second ∧ rest = other := by
  cases first with
  | nil => exact absurd rfl number.nonempty
  | cons head tail =>
    cases second with
    | nil => exact absurd rfl numberOther.nonempty
    | cons otherHead otherTail =>
      obtain ⟨sameHead, sameTail⟩ := List.cons.inj same
      obtain ⟨tails, rests⟩ := split_inj_of_notMem number.tail numberOther.tail sameTail
      exact ⟨congrArg₂ List.cons sameHead tails, rests⟩

theorem pair_dash_inj (number : first = [] ∨ IsNumberText first) (numberOther : second = [] ∨ IsNumberText second)
    (last : rest = [] ∨ IsNumberText rest) (lastOther : other = [] ∨ IsNumberText other)
    (same : first ++ '-' :: rest = second ++ '-' :: other) : first = second ∧ rest = other := by
  have mixed {first rest other : List Char} (number : IsNumberText first) (lastOther : other = [] ∨ IsNumberText other)
      (same : first ++ '-' :: rest = '-' :: other) : False := by
    cases first with
    | nil => exact number.nonempty rfl
    | cons head tail =>
      obtain ⟨sign, remaining⟩ := List.cons.inj same
      have dash : '-' ∈ other := by
        rw [← remaining]
        exact mem_append_right tail mem_cons_self
      rcases lastOther with rfl | numberOther
      · cases dash
      · cases tail with
        | nil => exact number.signed (by rw [sign]; rfl) rfl
        | cons digit more =>
          rw [← remaining] at numberOther
          exact numberOther.tail (mem_append_right more mem_cons_self)
  rcases number with rfl | number
  · rcases numberOther with rfl | numberOther
    · exact ⟨rfl, (List.cons.inj same).2⟩
    · exact (mixed numberOther last same.symm).elim
  · rcases numberOther with rfl | numberOther
    · exact (mixed number lastOther same).elim
    · exact number_dash_inj number numberOther same

end SmartPerf.Data
