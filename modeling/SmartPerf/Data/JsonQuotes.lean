import Mathlib.Data.Bool.AllAny
import Mathlib.Data.List.TakeWhile
import SmartPerf.Data.JsonReading

namespace SmartPerf.Data.Json

open List

/-! What every text that can be read has in common: its strings are closed, and no backslash stands outside of them. -/

variable {format : NumberFormat} {Number : Type} {code : UInt16} (rest : List UInt16)

/-- Whether the strings of a text are closed, when the text starts inside or outside of a string. -/
def closes : Bool → List UInt16 → Bool
  | inside, [] => !inside
  | false, code :: rest => if code = backslash then false else closes (code = quote) rest
  | true, code :: rest =>
    if code = quote then closes false rest
    else if code = backslash then
      match rest with
      | [] => false
      | _ :: rest => closes true rest
    else closes true rest

/-- The value of a parsed text is changed, and what is left of the text is not. -/
theorem exists_of_map {First Second : Type} {found : Option (First × List UInt16)} {value : Second} {rest : List UInt16}
    {change : First × List UInt16 → Second × List UInt16} (parsed : found.map change = some (value, rest))
    (keeps : ∀ pair, (change pair).2 = pair.2) : ∃ first, found = some (first, rest) := by
  obtain ⟨pair, reads, same⟩ := Option.map_eq_some_iff.mp parsed
  have left := keeps pair
  rw [same] at left
  exact ⟨pair.1, reads.trans (congrArg (fun tail => some (pair.1, tail)) left.symm)⟩

def IsPlain (code : UInt16) : Prop := code ≠ quote ∧ code ≠ backslash

theorem plain_of_all {text : List UInt16} (all : (text.all fun code => code ≠ quote ∧ code ≠ backslash) = true) :
    ∀ code ∈ text, IsPlain code := by
  unfold IsPlain
  exact all_iff_forall_prop.mp all

theorem closes_outside_plain (plain : IsPlain code) (rest : List UInt16) :
    closes false (code :: rest) = closes false rest := by
  rw [closes.eq_def]
  simp only
  rw [if_neg plain.2, decide_eq_false plain.1]

theorem closes_inside_plain (plain : IsPlain code) (rest : List UInt16) :
    closes true (code :: rest) = closes true rest := by
  rw [closes.eq_def]
  simp only
  rw [if_neg plain.1, if_neg plain.2]

theorem closes_outside_quote : closes false (quote :: rest) = closes true rest := by
  rw [closes.eq_def]
  simp only
  rw [if_neg (by decide), decide_eq_true trivial]

theorem closes_inside_quote : closes true (quote :: rest) = closes false rest := by
  rw [closes.eq_def]
  exact if_pos rfl

theorem closes_outside_backslash : closes false (backslash :: rest) = false := by
  exact if_pos rfl

theorem closes_inside_escape (code : UInt16) (rest : List UInt16) :
    closes true (backslash :: code :: rest) = closes true rest := by
  rw [closes.eq_def]
  simp only
  rw [if_neg (by decide), if_pos trivial]

theorem closes_plain_append {front : List UInt16} (inside : Bool) (plain : ∀ code ∈ front, IsPlain code) (rest : List UInt16) :
    closes inside (front ++ rest) = closes inside rest := by
  induction front with
  | nil => rfl
  | cons code others ih =>
    have here := plain code mem_cons_self
    have tail := ih (forall_mem_of_forall_mem_cons plain)
    cases inside with
    | true => rw [cons_append, closes_inside_plain here, tail]
    | false => rw [cons_append, closes_outside_plain here, tail]

/-- What is left of a text has its strings closed exactly when the text has. -/
def KeepsClosed {Result : Type} (parser : List UInt16 → Option (Result × List UInt16)) : Prop :=
  ∀ text result rest, parser text = some (result, rest) → closes false text = closes false rest

theorem closes_dropWhile {kind : UInt16 → Bool} (plain : ∀ code, kind code = true → IsPlain code) (text : List UInt16) :
    closes false text = closes false (text.dropWhile kind) := by
  have taken : ∀ code ∈ text.takeWhile kind, IsPlain code := fun code listed => plain code (mem_takeWhile_imp listed)
  rw [← closes_plain_append false taken (text.dropWhile kind), takeWhile_append_dropWhile]

theorem isPlain_of_isSpace (code : UInt16) (space : isSpace code = true) : IsPlain code := by
  constructor
  · rintro rfl
    exact absurd space (by decide)
  · rintro rfl
    exact absurd space (by decide)

theorem isPlain_of_isDigit (code : UInt16) (digit : isDigit code = true) : IsPlain code := by
  constructor
  · rintro rfl
    exact absurd digit (by decide)
  · rintro rfl
    exact absurd digit (by decide)

theorem closes_skipSpace (text : List UInt16) : closes false text = closes false (skipSpace text) :=
  closes_dropWhile isPlain_of_isSpace text

theorem parseDigits_keepsClosed : KeepsClosed parseDigits := by
  intro text digits rest parsed
  rw [parseDigits] at parsed
  split at parsed
  · cases parsed
  · cases parsed
    exact closes_dropWhile isPlain_of_isDigit text

theorem parseWhole_keepsClosed : KeepsClosed parseWhole := by
  intro text digits rest parsed
  cases text with
  | nil => cases parsed
  | cons code others =>
    rw [parseWhole] at parsed
    split at parsed
    next zero =>
      cases parsed
      exact closes_outside_plain (by rw [zero, IsPlain]; decide) _
    · exact parseDigits_keepsClosed _ _ _ parsed

theorem parseFraction_keepsClosed : KeepsClosed parseFraction := by
  intro text digits rest parsed
  cases text with
  | nil =>
    cases parsed
    rfl
  | cons code others =>
    rw [parseFraction] at parsed
    split at parsed
    next point => rw [closes_outside_plain (by rw [point, IsPlain]; decide), parseDigits_keepsClosed _ _ _ parsed]
    · cases parsed
      rfl

theorem parseSigned_keepsClosed : KeepsClosed parseSigned := by
  intro text exponent rest parsed
  cases text with
  | nil => cases parsed
  | cons code others =>
    rw [parseSigned] at parsed
    split at parsed
    next minus =>
      obtain ⟨digits, reads⟩ := exists_of_map parsed fun _ => rfl
      rw [closes_outside_plain (by rw [minus, IsPlain]; decide), parseDigits_keepsClosed _ _ _ reads]
    · obtain ⟨digits, reads⟩ := exists_of_map parsed fun _ => rfl
      split at reads
      next plus => rw [closes_outside_plain (by rw [plus, IsPlain]; decide), parseDigits_keepsClosed _ _ _ reads]
      · exact parseDigits_keepsClosed _ _ _ reads

theorem parseExponent_keepsClosed : KeepsClosed parseExponent := by
  intro text exponent rest parsed
  cases text with
  | nil =>
    cases parsed
    rfl
  | cons code others =>
    rw [parseExponent] at parsed
    split at parsed
    next letter =>
      rw [closes_outside_plain (by rcases letter with rfl | rfl <;> (rw [IsPlain]; decide)), parseSigned_keepsClosed _ _ _ parsed]
    · cases parsed
      rfl

theorem parseMagnitude_keepsClosed : KeepsClosed parseMagnitude := by
  intro text number rest parsed
  obtain ⟨⟨whole, behind_whole⟩, first, parsed⟩ := Option.bind_eq_some_iff.mp parsed
  obtain ⟨⟨fraction, behind_fraction⟩, second, parsed⟩ := Option.bind_eq_some_iff.mp parsed
  obtain ⟨exponent, third⟩ := exists_of_map parsed fun _ => rfl
  rw [parseWhole_keepsClosed _ _ _ first, parseFraction_keepsClosed _ _ _ second, parseExponent_keepsClosed _ _ _ third]

theorem closes_dropWord {word text rest : List UInt16} (plain : ∀ code ∈ word, IsPlain code)
    (parsed : dropWord word text = some rest) : closes false text = closes false rest := by
  induction word generalizing text with
  | nil => rw [Option.some.inj parsed]
  | cons code word ih =>
    cases text with
    | nil => cases parsed
    | cons other text =>
      rw [dropWord] at parsed
      split at parsed
      next same =>
        rw [← same, closes_outside_plain (plain code mem_cons_self), ih (forall_mem_of_forall_mem_cons plain) parsed]
      · cases parsed

theorem parseWord_keepsClosed : KeepsClosed (@parseWord Number) := by
  intro text value rest parsed
  rw [parseWord] at parsed
  split at parsed
  next word =>
    cases parsed
    exact closes_dropWord (plain_of_all (by decide)) word
  next word _ =>
    cases parsed
    exact closes_dropWord (plain_of_all (by decide)) word
  next word _ _ =>
    cases parsed
    exact closes_dropWord (plain_of_all (by decide)) word
  · cases parsed

theorem isPlain_of_hexDigit {value : Nat} (digit : hexDigit code = some value) : IsPlain code := by
  constructor
  · rintro rfl
    exact absurd digit (by simp [show hexDigit quote = none by decide])
  · rintro rfl
    exact absurd digit (by simp [show hexDigit backslash = none by decide])

theorem isPlain_of_hexUnit {first second third fourth value : UInt16}
    (parsed : hexUnit first second third fourth = some value) :
    ∀ code ∈ [first, second, third, fourth], IsPlain code := by
  obtain ⟨_, first_digit, parsed⟩ := Option.bind_eq_some_iff.mp parsed
  obtain ⟨_, second_digit, parsed⟩ := Option.bind_eq_some_iff.mp parsed
  obtain ⟨_, third_digit, parsed⟩ := Option.bind_eq_some_iff.mp parsed
  obtain ⟨_, fourth_digit, -⟩ := Option.bind_eq_some_iff.mp parsed
  intro code listed
  simp only [mem_cons, not_mem_nil, or_false] at listed
  rcases listed with rfl | rfl | rfl | rfl
  · exact isPlain_of_hexDigit first_digit
  · exact isPlain_of_hexDigit second_digit
  · exact isPlain_of_hexDigit third_digit
  · exact isPlain_of_hexDigit fourth_digit

theorem closes_parseString {text value rest : List UInt16} (parsed : parseString text = some (value, rest)) :
    closes true text = closes false rest := by
  induction text using parseString.induct generalizing value with
  | case1 => cases parsed
  | case2 others =>
    rw [parseString_quote] at parsed
    cases parsed
    exact closes_inside_quote _
  | case3 _ => cases parsed
  | case4 first second third fourth others _ ih =>
    obtain ⟨unicode, hex, parsed⟩ := Option.bind_eq_some_iff.mp parsed
    obtain ⟨tail, reads⟩ := exists_of_map parsed fun _ => rfl
    have plain := closes_plain_append true (isPlain_of_hexUnit hex) others
    rw [closes_inside_escape, ← ih reads, ← plain]
    rfl
  | case5 others short _ =>
    rw [parseString.eq_def] at parsed
    simp only at parsed
    cases parsed
  | case6 code others not_unicode _ ih =>
    rw [parseString_escape not_unicode] at parsed
    obtain ⟨special, -, parsed⟩ := Option.bind_eq_some_iff.mp parsed
    obtain ⟨tail, reads⟩ := exists_of_map parsed fun _ => rfl
    rw [closes_inside_escape, ih reads]
  | case7 code others not_quote not_backslash control =>
    rw [parseString_plain not_quote not_backslash, if_pos control] at parsed
    cases parsed
  | case8 code others not_quote not_backslash visible ih =>
    rw [parseString_plain not_quote not_backslash, if_neg visible] at parsed
    obtain ⟨tail, reads⟩ := exists_of_map parsed fun _ => rfl
    rw [closes_inside_plain ⟨not_quote, not_backslash⟩, ih reads]

/-! ### Values -/

theorem closes_skipSpace_cons {text rest : List UInt16} (skipped : skipSpace text = code :: rest)
    (plain : IsPlain code) : closes false text = closes false rest := by
  rw [closes_skipSpace text, skipped, closes_outside_plain plain]

theorem parseKey_keepsClosed : KeepsClosed parseKey := by
  intro text key rest parsed
  rw [parseKey] at parsed
  split at parsed
  · cases parsed
  next code others skipped =>
    split at parsed
    next is_quote =>
      obtain ⟨⟨name, behind⟩, reads, parsed⟩ := Option.bind_eq_some_iff.mp parsed
      rw [closes_skipSpace text, skipped, is_quote, closes_outside_quote, closes_parseString reads]
      simp only at parsed
      split at parsed
      · cases parsed
      next colon others skipped =>
        split at parsed
        next is_colon =>
          cases parsed
          exact closes_skipSpace_cons skipped (by rw [is_colon, IsPlain]; decide)
        · cases parsed
    · cases parsed

theorem parseMember_keepsClosed {parseValue : List UInt16 → Option (Json Number × List UInt16)} (keeps : KeepsClosed parseValue) :
    KeepsClosed (parseMember parseValue) := by
  intro text member rest parsed
  obtain ⟨⟨key, behind⟩, reads_key, parsed⟩ := Option.bind_eq_some_iff.mp parsed
  obtain ⟨value, reads⟩ := exists_of_map parsed fun _ => rfl
  rw [parseKey_keepsClosed text key behind reads_key, keeps behind value rest reads]

theorem parseItems_keepsClosed {Value : Type} {parseItem : List UInt16 → Option (Value × List UInt16)} {closing : UInt16}
    (keeps : KeepsClosed parseItem) (plain : IsPlain closing) (loops : Nat) :
    KeepsClosed (parseItems parseItem closing loops) := by
  induction loops with
  | zero =>
    intro text values rest parsed
    cases parsed
  | succ loops ih =>
    intro text values rest parsed
    obtain ⟨⟨value, behind⟩, reads, parsed⟩ := Option.bind_eq_some_iff.mp parsed
    rw [keeps text value behind reads]
    simp only at parsed
    split at parsed
    · cases parsed
    next code others skipped =>
      split at parsed
      next is_comma =>
        obtain ⟨more, reads_more⟩ := exists_of_map parsed fun _ => rfl
        rw [closes_skipSpace_cons skipped (by rw [is_comma, IsPlain]; decide), ih others more _ reads_more]
      · split at parsed
        next is_closing =>
          cases parsed
          exact closes_skipSpace_cons skipped (is_closing ▸ plain)
        · cases parsed

section
variable {parseValue : List UInt16 → Option (Json Number × List UInt16)} (keeps : KeepsClosed parseValue)
include keeps

theorem parseArray_keepsClosed : KeepsClosed (parseArray parseValue) := by
  intro text value rest parsed
  rw [parseArray] at parsed
  split at parsed
  · cases parsed
  next code others skipped =>
    split at parsed
    next is_bracket =>
      cases parsed
      exact closes_skipSpace_cons skipped (by rw [is_bracket, IsPlain]; decide)
    · obtain ⟨values, reads⟩ := exists_of_map parsed fun _ => rfl
      rw [parseElements_eq] at reads
      exact parseItems_keepsClosed keeps ⟨by decide, by decide⟩ _ text values _ reads

theorem parseObject_keepsClosed : KeepsClosed (parseObject parseValue) := by
  intro text value rest parsed
  rw [parseObject] at parsed
  split at parsed
  · cases parsed
  next code others skipped =>
    split at parsed
    next is_brace =>
      cases parsed
      exact closes_skipSpace_cons skipped (by rw [is_brace, IsPlain]; decide)
    · obtain ⟨members, reads⟩ := exists_of_map parsed fun _ => rfl
      rw [parseMembers_eq] at reads
      exact parseItems_keepsClosed (parseMember_keepsClosed keeps) ⟨by decide, by decide⟩ _ text members _ reads

end

theorem parseValue_keepsClosed (fuel : Nat) : KeepsClosed (parseValue format fuel) := by
  induction fuel with
  | zero =>
    intro text value rest parsed
    cases parsed
  | succ fuel ih =>
    intro text value rest parsed
    rw [closes_skipSpace text]
    rw [parseValue] at parsed
    split at parsed
    · cases parsed
    next code others skipped =>
      rw [skipped]
      split at parsed
      next is_quote =>
        obtain ⟨string, reads⟩ := exists_of_map parsed fun _ => rfl
        rw [is_quote, closes_outside_quote, closes_parseString reads]
      · split at parsed
        next is_bracket =>
          rw [closes_outside_plain (by rw [is_bracket, IsPlain]; decide)]
          exact parseArray_keepsClosed ih others value rest parsed
        · split at parsed
          next is_brace =>
            rw [closes_outside_plain (by rw [is_brace, IsPlain]; decide)]
            exact parseObject_keepsClosed ih others value rest parsed
          · split at parsed
            next is_minus =>
              obtain ⟨number, reads⟩ := exists_of_map parsed fun _ => rfl
              rw [closes_outside_plain (by rw [is_minus, IsPlain]; decide)]
              exact parseMagnitude_keepsClosed _ _ _ reads
            · split at parsed
              · obtain ⟨number, reads⟩ := exists_of_map parsed fun _ => rfl
                exact parseMagnitude_keepsClosed _ _ _ reads
              · exact parseWord_keepsClosed _ _ _ parsed

theorem parse_eq_none_of_not_closes {text : List UInt16} (open_string : closes false text = false) : parse format text = none := by
  cases parsed : parse format text with
  | none => rfl
  | some value =>
    obtain ⟨⟨whole, rest⟩, reads, ends⟩ := Option.bind_eq_some_iff.mp parsed
    simp only at ends
    split at ends
    next no_rest =>
      have closed := parseValue_keepsClosed _ text whole rest reads
      rw [open_string, closes_skipSpace rest, no_rest] at closed
      cases closed
    · cases ends

/-! ### Texts in parts -/

/-- A part of a text, and whether strings are out of step behind it. -/
structure Part (text : List UInt16) (broken : Bool) : Prop where
  /-- Once out of step, the strings stay so. -/
  stays : ∀ rest, closes true rest = false → closes true (text ++ rest) = false
  breaks : broken = true → ∀ rest, closes true rest = false → closes false (text ++ rest) = false
  keeps : broken = false → ∀ rest, closes false (text ++ rest) = closes false rest

namespace Part

variable {text other : List UInt16} {broken otherBroken : Bool}

theorem append (first : Part text broken) (second : Part other otherBroken) : Part (text ++ other) (broken || otherBroken) where
  stays rest is_open := by
    rw [append_assoc]
    exact first.stays _ (second.stays rest is_open)
  breaks is_broken rest is_open := by
    rw [append_assoc]
    cases broken with
    | true => exact first.breaks rfl _ (second.stays rest is_open)
    | false =>
      rw [first.keeps rfl]
      exact second.breaks is_broken rest is_open
  keeps not_broken rest := by
    obtain ⟨first_kept, second_kept⟩ := Bool.or_eq_false_iff.mp not_broken
    rw [append_assoc, first.keeps first_kept, second.keeps second_kept]

theorem plain (all_plain : ∀ code ∈ text, IsPlain code) : Part text false where
  stays rest is_open := by rw [closes_plain_append true all_plain, is_open]
  breaks is_broken := nomatch is_broken
  keeps _ rest := closes_plain_append false all_plain rest

theorem quoted (all_plain : ∀ code ∈ text, IsPlain code) : Part ([quote] ++ text ++ [quote]) false where
  stays rest is_open := by
    rw [append_assoc, append_assoc, singleton_append, singleton_append, closes_inside_quote,
      closes_plain_append false all_plain, closes_outside_quote, is_open]
  breaks is_broken := nomatch is_broken
  keeps _ rest := by
    rw [append_assoc, append_assoc, singleton_append, singleton_append, closes_outside_quote,
      closes_plain_append true all_plain, closes_inside_quote]

theorem intercalate {Item : Type} {text : Item → List UInt16} {broken : Item → Bool} {items : List Item}
    (parts : ∀ item ∈ items, Part (text item) (broken item)) :
    Part ([comma].intercalate (items.map text)) (items.any broken) := by
  induction items with
  | nil => exact plain nofun
  | cons item others ih =>
    have first := parts item mem_cons_self
    have rest := ih (forall_mem_of_forall_mem_cons parts)
    have separator : Part [comma] false := plain (plain_of_all (by decide))
    cases others with
    | nil =>
      rw [map_singleton, intercalate_singleton, any_cons, any_nil, Bool.or_false]
      exact first
    | cons next others =>
      rw [map_cons, map_cons, intercalate_cons_cons, ← map_cons, any_cons, append_assoc]
      have behind := separator.append rest
      have whole := first.append behind
      rwa [← append_assoc] at whole ⊢

end Part

end SmartPerf.Data.Json
