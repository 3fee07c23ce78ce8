import SmartPerf.Data.Json

namespace SmartPerf.Data.Json

open List

/-! What texts are read as which values. -/

variable {format : NumberFormat} {Number : Type} {code : UInt16} {digits rest : List UInt16}

theorem skipSpace_cons (rest : List UInt16) (visible : isSpace code = false) :
    skipSpace (code :: rest) = code :: rest := by
  rw [skipSpace, dropWhile_cons_of_neg (by rw [visible]; decide)]

def EndsNumber : List UInt16 → Prop
  | [] => True
  | code :: _ => isDigit code = false ∧ code ≠ unit '.' ∧ code ≠ unit 'e' ∧ code ≠ unit 'E'

/-- A text that is read as a value wherever it stands. -/
structure Reads (format : NumberFormat) (text : List UInt16) (value : Json format.Number) : Prop where
  starts : ∃ code tail, text = code :: tail ∧ isSpace code = false ∧ code ≠ unit ']' ∧ code ≠ unit '}'
  reads : ∀ fuel rest, text.length ≤ fuel → EndsNumber rest → parseValue format fuel (text ++ rest) = some (value, rest)

def escapeUnit (code : UInt16) : List UInt16 := if code = quote ∨ code = backslash then [backslash, code] else [code]

theorem escaped_special (special : code = quote ∨ code = backslash) : escaped code = some code := by
  rcases special with rfl | rfl
  · decide
  · decide

theorem parseString_quote (rest : List UInt16) : parseString (quote :: rest) = some ([], rest) := by
  rw [parseString.eq_def]
  exact if_pos rfl

theorem parseString_escape (not_unicode : code ≠ unit 'u') (rest : List UInt16) :
    parseString (backslash :: code :: rest) =
      (escaped code).bind fun value => (parseString rest).map fun (text, rest) => (value :: text, rest) := by
  rw [parseString.eq_def]
  simp only
  rw [if_neg (by decide), if_pos trivial, if_neg not_unicode]

theorem parseString_plain (not_quote : code ≠ quote) (not_backslash : code ≠ backslash) (rest : List UInt16) :
    parseString (code :: rest) =
      if code < 32 then none else (parseString rest).map fun (text, rest) => (code :: text, rest) := by
  rw [parseString.eq_def]
  simp only
  rw [if_neg not_quote, if_neg not_backslash]

theorem parseString_escaped (text rest : List UInt16) (visible : ∀ code ∈ text, 32 ≤ code) :
    parseString (text.flatMap escapeUnit ++ quote :: rest) = some (text, rest) := by
  induction text with
  | nil => exact parseString_quote rest
  | cons code others ih =>
    have tail := ih (forall_mem_of_forall_mem_cons visible)
    have here := visible code mem_cons_self
    rw [flatMap_cons, append_assoc, escapeUnit]
    by_cases special : code = quote ∨ code = backslash
    · have not_unicode : code ≠ unit 'u' := by
        rcases special with rfl | rfl
        · decide
        · decide
      rw [if_pos special, cons_append, singleton_append, parseString_escape not_unicode, escaped_special special, tail]
      rfl
    · obtain ⟨not_quote, not_backslash⟩ := not_or.mp special
      rw [if_neg special, singleton_append, parseString_plain not_quote not_backslash,
        if_neg (UInt16.not_lt.mpr here), tail]
      rfl

theorem Reads.string {text : List UInt16} (visible : ∀ code ∈ text, 32 ≤ code) :
    Reads format ([quote] ++ text.flatMap escapeUnit ++ [quote]) (.string text) where
  starts := ⟨quote, text.flatMap escapeUnit ++ [quote], rfl, by decide, by decide, by decide⟩
  reads fuel rest enough _ := by
    cases fuel with
    | zero => simp at enough
    | succ fuel =>
      rw [append_assoc, append_assoc, singleton_append, singleton_append, parseValue, skipSpace_cons _ (by decide)]
      simp only [if_true]
      rw [parseString_escaped text rest visible]
      rfl

theorem Reads.null : Reads format (units "null") .null where
  starts := ⟨unit 'n', units "ull", rfl, by decide, by decide, by decide⟩
  reads fuel rest enough _ := by
    cases fuel with
    | zero => exact absurd enough (by decide)
    | succ fuel =>
      have whole : units "null" ++ rest = unit 'n' :: (units "ull" ++ rest) := rfl
      have word : dropWord (units "null") (unit 'n' :: (units "ull" ++ rest)) = some rest := by
        simp [units, dropWord]
      rw [whole, parseValue, skipSpace_cons _ (by decide)]
      simp only
      rw [if_neg (by decide), if_neg (by decide), if_neg (by decide), if_neg (by decide), if_neg (by decide), parseWord,
        word]

/-! ### Numbers -/

theorem takeWhile_isDigit_append (all_digits : ∀ code ∈ digits, isDigit code = true)
    (ends : EndsNumber rest) : (digits ++ rest).takeWhile isDigit = digits ∧ (digits ++ rest).dropWhile isDigit = rest := by
  have stops : rest.takeWhile isDigit = [] ∧ rest.dropWhile isDigit = rest := by
    cases rest with
    | nil => exact ⟨rfl, rfl⟩
    | cons code others => simp [ends.1]
  rw [takeWhile_append_of_pos all_digits, dropWhile_append_of_pos all_digits, stops.1, stops.2, append_nil]
  exact ⟨rfl, rfl⟩

theorem parseDigits_append {digit : UInt16}
    (all_digits : ∀ code ∈ digit :: digits, isDigit code = true) (ends : EndsNumber rest) :
    parseDigits (digit :: digits ++ rest) = some (digit :: digits, rest) := by
  obtain ⟨taken, left⟩ := takeWhile_isDigit_append all_digits ends
  rw [parseDigits, taken, left]

theorem parseFraction_of_ends {rest : List UInt16} (ends : EndsNumber rest) : parseFraction rest = some ([], rest) := by
  cases rest with
  | nil => rfl
  | cons code others => rw [parseFraction, if_neg ends.2.1]

theorem parseExponent_of_ends {rest : List UInt16} (ends : EndsNumber rest) : parseExponent rest = some (0, rest) := by
  cases rest with
  | nil => rfl
  | cons code others => rw [parseExponent, if_neg (not_or.mpr ends.2.2)]

/-- Digits without a leading zero, or a zero alone. -/
structure IsWhole (digits : List UInt16) : Prop where
  nonempty : digits ≠ []
  all_digits : ∀ code ∈ digits, isDigit code = true
  leading : digits.head? = some (unit '0') → digits = [unit '0']

theorem parseMagnitude_whole (whole : IsWhole digits) (ends : EndsNumber rest) :
    parseMagnitude (digits ++ rest) = some ((digitsValue digits, 0), rest) := by
  have reads : parseWhole (digits ++ rest) = some (digits, rest) := by
    cases digits with
    | nil => exact absurd rfl whole.nonempty
    | cons digit others =>
      rw [cons_append, parseWhole]
      by_cases zero : digit = unit '0'
      · have alone := whole.leading (by rw [zero]; rfl)
        obtain ⟨rfl, rfl⟩ := List.cons.inj alone
        rw [if_pos rfl, nil_append]
      · rw [if_neg zero]
        exact parseDigits_append whole.all_digits ends
  rw [parseMagnitude, reads]
  simp [parseFraction_of_ends ends, parseExponent_of_ends ends]

theorem digit_cases (digit : isDigit code = true) :
    isSpace code = false ∧ code ≠ quote ∧ code ≠ unit '[' ∧ code ≠ unit ']' ∧ code ≠ unit '{' ∧ code ≠ unit '}' ∧
      code ≠ unit '-' := by
  have bounds : 48 ≤ code ∧ code ≤ 57 := by simpa [isDigit] using digit
  have smallest : (48 : Nat) ≤ code.toNat := UInt16.le_iff_toNat_le.mp bounds.1
  have largest : code.toNat ≤ 57 := UInt16.le_iff_toNat_le.mp bounds.2
  have differs : ∀ other : UInt16, other.toNat < 48 ∨ 57 < other.toNat → code ≠ other := by
    intro other outside same
    rw [same] at smallest largest
    omega
  refine ⟨?_, differs _ (by decide), differs _ (by decide), differs _ (by decide), differs _ (by decide), differs _ (by decide),
    differs _ (by decide)⟩
  simp [isSpace, differs 32 (by decide), differs 9 (by decide), differs 10 (by decide), differs 13 (by decide)]

theorem parseValue_digits (whole : IsWhole digits) (ends : EndsNumber rest) (fuel : Nat) :
    parseValue format (fuel + 1) (digits ++ rest) = some (.number (format.read false (digitsValue digits) 0), rest) := by
  have magnitude := parseMagnitude_whole whole ends
  cases digits with
  | nil => exact absurd rfl whole.nonempty
  | cons digit others =>
    have is_digit := whole.all_digits digit mem_cons_self
    obtain ⟨not_space, not_quote, not_bracket, -, not_brace, -, not_minus⟩ := digit_cases is_digit
    rw [cons_append] at magnitude ⊢
    rw [parseValue, skipSpace_cons _ not_space]
    simp only
    rw [if_neg not_quote, if_neg not_bracket, if_neg not_brace, if_neg not_minus, if_pos is_digit, magnitude]
    rfl

theorem parseValue_minus (whole : IsWhole digits) (ends : EndsNumber rest) (fuel : Nat) :
    parseValue format (fuel + 1) (unit '-' :: digits ++ rest) =
      some (.number (format.read true (digitsValue digits) 0), rest) := by
  rw [cons_append, parseValue, skipSpace_cons _ (by decide)]
  simp only
  rw [if_neg (by decide), if_neg (by decide), if_neg (by decide), if_pos trivial, parseMagnitude_whole whole ends]
  rfl

def decimal (value : Int) : List Char :=
  if value < 0 then '-' :: Nat.toDigits 10 value.natAbs else Nat.toDigits 10 value.natAbs

theorem digitsValue_concat (digits : List UInt16) (code : UInt16) :
    digitsValue (digits ++ [code]) = 10 * digitsValue digits + (code.toNat - 48) := by
  rw [digitsValue, foldl_append]
  rfl

theorem digitChar_facts : ∀ digit < 10, isDigit (unit digit.digitChar) = true ∧
    (unit digit.digitChar).toNat - 48 = digit ∧ (unit digit.digitChar = unit '0' → digit = 0) := by
  decide

theorem toDigits_units (value : Nat) :
    IsWhole ((Nat.toDigits 10 value).map unit) ∧ digitsValue ((Nat.toDigits 10 value).map unit) = value ∧
      (((Nat.toDigits 10 value).map unit).head? = some (unit '0') → value = 0) := by
  induction value using Nat.strongRecOn with
  | ind value ih =>
    by_cases small : value < 10
    · obtain ⟨is_digit, same, zero⟩ := digitChar_facts value small
      rw [Nat.toDigits_of_lt_base small, map_singleton]
      refine ⟨⟨cons_ne_nil _ _, ?_, ?_⟩, ?_, ?_⟩
      · intro code listed
        rw [mem_singleton.mp listed]
        exact is_digit
      · intro leading
        rw [head?_cons, Option.some.injEq] at leading
        rw [leading]
      · simpa [digitsValue] using same
      · intro leading
        rw [head?_cons, Option.some.injEq] at leading
        exact zero leading
    · obtain ⟨shorter, same, leading⟩ := ih (value / 10) (by omega)
      obtain ⟨is_digit, last, -⟩ := digitChar_facts (value % 10) (Nat.mod_lt _ (by decide))
      obtain ⟨first, others, digits⟩ := exists_cons_of_ne_nil shorter.nonempty
      have not_zero : first ≠ unit '0' := by
        intro zero
        have no_value := leading (by rw [digits, zero]; rfl)
        omega
      rw [Nat.toDigits_of_base_le (by decide) (not_lt.mp small), map_append, map_singleton]
      refine ⟨⟨by simp, ?_, ?_⟩, ?_, ?_⟩
      · intro code listed
        rcases mem_append.mp listed with front | end_digit
        · exact shorter.all_digits code front
        · rw [mem_singleton.mp end_digit]
          exact is_digit
      · intro zero
        rw [digits, cons_append, head?_cons, Option.some.injEq] at zero
        exact absurd zero not_zero
      · rw [digitsValue_concat]
        omega
      · intro zero
        rw [digits, cons_append, head?_cons, Option.some.injEq] at zero
        exact absurd zero not_zero

theorem Reads.integer {value : Int} (exact : value.natAbs < 2 ^ 53) :
    Reads format ((decimal value).map unit) (.number (format.ofInt value)) := by
  obtain ⟨whole, same, -⟩ := toDigits_units value.natAbs
  have reading := format.read_exact value exact
  by_cases negative : value < 0
  · rw [decimal, if_pos negative, map_cons]
    rw [decide_eq_true negative] at reading
    refine ⟨⟨_, _, rfl, by decide, by decide, by decide⟩, ?_⟩
    intro fuel rest enough ends
    cases fuel with
    | zero => exact absurd enough (by simp)
    | succ fuel => rw [parseValue_minus whole ends, same, reading]
  · rw [decimal, if_neg negative]
    rw [decide_eq_false negative] at reading
    obtain ⟨first, others, digits⟩ := exists_cons_of_ne_nil whole.nonempty
    obtain ⟨not_space, -, -, not_bracket, -, not_brace, -⟩ := digit_cases (whole.all_digits first (by rw [digits]; exact mem_cons_self))
    refine ⟨⟨first, others, digits, not_space, not_bracket, not_brace⟩, ?_⟩
    intro fuel rest enough ends
    cases fuel with
    | zero =>
      exact absurd enough (by simp)
    | succ fuel => rw [parseValue_digits whole ends, same, reading]

/-! ### Arrays and objects -/

variable {texts : List (List UInt16)}

theorem length_le_intercalate {text : List UInt16} (listed : text ∈ texts) :
    text.length ≤ ([comma].intercalate texts).length := by
  induction texts with
  | nil => exact absurd listed not_mem_nil
  | cons first others ih =>
    cases others with
    | nil => rw [mem_singleton.mp listed, intercalate_singleton]
    | cons next others =>
      rw [intercalate_cons_cons, length_append, length_append]
      rcases mem_cons.mp listed with rfl | later
      · omega
      · have rest := ih later
        omega

theorem count_le_intercalate (nonempty : ∀ text ∈ texts, text ≠ []) :
    texts.length ≤ ([comma].intercalate texts).length := by
  induction texts with
  | nil => exact le_rfl
  | cons first others ih =>
    have here := length_pos_iff.mpr (nonempty first mem_cons_self)
    cases others with
    | nil =>
      rw [intercalate_singleton]
      exact here
    | cons next others =>
      have rest := ih (forall_mem_of_forall_mem_cons nonempty)
      rw [intercalate_cons_cons, length_append, length_append, length_cons]
      omega

theorem intercalate_starts {first : List UInt16} {others : List (List UInt16)} {code : UInt16} {tail : List UInt16}
    (starts : first = code :: tail) : ∃ more, [comma].intercalate (first :: others) = code :: more := by
  cases others with
  | nil => exact ⟨tail, by rw [intercalate_singleton, starts]⟩
  | cons next others => exact ⟨_, by rw [intercalate_cons_cons, starts, cons_append, cons_append]⟩

section Items

variable {Item Value : Type} {parseItem : List UInt16 → Option (Value × List UInt16)} {closing : UInt16}
  {text : Item → List UInt16} {value : Item → Value}

/-- The loop that arrays and objects share. -/
def parseItems (parseItem : List UInt16 → Option (Value × List UInt16)) (closing : UInt16) :
    Nat → List UInt16 → Option (List Value × List UInt16)
  | 0, _ => none
  | fuel + 1, text =>
    (parseItem text).bind fun (value, rest) =>
      match skipSpace rest with
      | [] => none
      | code :: rest =>
        if code = comma then (parseItems parseItem closing fuel rest).map fun (values, rest) => (value :: values, rest)
        else if code = closing then some ([value], rest)
        else none

def parseMember (parseValue : List UInt16 → Option (Json Number × List UInt16)) (text : List UInt16) :
    Option ((List UInt16 × Json Number) × List UInt16) :=
  (parseKey text).bind fun (key, rest) => (parseValue rest).map fun (value, rest) => ((key, value), rest)

variable (parseValue : List UInt16 → Option (Json Number × List UInt16))

theorem parseElements_eq (loops : Nat) :
    parseElements parseValue loops = parseItems parseValue (unit ']') loops := by
  induction loops with
  | zero => rfl
  | succ loops ih =>
    funext text
    rewrite [parseElements, parseItems, ih]
    rcases parseValue text with _ | ⟨value, rest⟩
    · rfl
    · all_goals cases skipSpace rest <;> rfl

theorem parseMembers_eq (loops : Nat) :
    parseMembers parseValue loops = parseItems (parseMember parseValue) (unit '}') loops := by
  induction loops with
  | zero => rfl
  | succ loops ih =>
    funext text
    rw [parseMembers, parseItems, ih, parseMember]
    rcases parseKey text with _ | ⟨key, behind⟩
    · rfl
    · simp only [Option.bind_some]
      rcases parseValue behind with _ | ⟨value, rest⟩
      · rfl
      · all_goals cases skipSpace rest <;> rfl

/-- What may stand behind an item, and is no space. -/
structure Closes (code : UInt16) : Prop where
  ends : ∀ rest, EndsNumber (code :: rest)
  visible : isSpace code = false
  separates : code ≠ comma

theorem closes_bracket : Closes (unit ']') := ⟨fun _ => ⟨by decide, by decide, by decide, by decide⟩, by decide, by decide⟩

theorem closes_brace : Closes (unit '}') := ⟨fun _ => ⟨by decide, by decide, by decide, by decide⟩, by decide, by decide⟩

theorem parseItems_intercalate {items : List Item} (closes : Closes closing)
    (reads : ∀ item ∈ items, ∀ rest, EndsNumber rest → parseItem (text item ++ rest) = some (value item, rest))
    (some_items : items ≠ []) (loops : Nat) (many : items.length ≤ loops) (rest : List UInt16) :
    parseItems parseItem closing loops ([comma].intercalate (items.map text) ++ closing :: rest) =
      some (items.map value, rest) := by
  induction items generalizing loops with
  | nil => exact absurd rfl some_items
  | cons item others ih =>
    obtain ⟨loops, rfl⟩ : ∃ fewer, loops = fewer + 1 := Nat.exists_eq_add_one.mpr (lt_of_lt_of_le (Nat.succ_pos _) many)
    have first := reads item mem_cons_self
    cases others with
    | nil =>
      rw [map_singleton, intercalate_singleton, parseItems, first _ (closes.ends rest)]
      simp only [Option.bind_some]
      rw [skipSpace_cons _ closes.visible]
      simp only
      rw [if_neg closes.separates]
      rfl
    | cons next others =>
      have tail := ih (forall_mem_of_forall_mem_cons reads) (cons_ne_nil _ _) loops
        (Nat.le_of_succ_le_succ many)
      have behind : EndsNumber (comma :: ([comma].intercalate ((next :: others).map text) ++ closing :: rest)) :=
        ⟨by decide, by decide, by decide, by decide⟩
      rw [map_cons, map_cons, intercalate_cons_cons, ← map_cons, append_assoc, append_assoc,
        singleton_append, parseItems, first _ behind]
      simp only [Option.bind_some]
      rw [skipSpace_cons _ (by decide)]
      simp only [if_true]
      rw [tail]
      rfl

/-- All items of an array or an object, with as many rounds as there are characters. -/
theorem parseItems_whole {items : List Item} (closes : Closes closing)
    (reads : ∀ item ∈ items, ∀ rest, EndsNumber rest → parseItem (text item ++ rest) = some (value item, rest))
    (starts : ∀ item ∈ items, ∃ code tail, text item = code :: tail ∧ isSpace code = false ∧ code ≠ closing)
    (some_items : items ≠ []) (rest : List UInt16) :
    (∃ code more, skipSpace ([comma].intercalate (items.map text) ++ closing :: rest) = code :: more ∧ code ≠ closing) ∧
      parseItems parseItem closing ([comma].intercalate (items.map text) ++ closing :: rest).length
        ([comma].intercalate (items.map text) ++ closing :: rest) = some (items.map value, rest) := by
  constructor
  · obtain ⟨item, others, rfl⟩ := exists_cons_of_ne_nil some_items
    obtain ⟨code, tail, begins, visible, other⟩ := starts item mem_cons_self
    obtain ⟨more, whole⟩ := @intercalate_starts (text item) (others.map text) code tail begins
    exact ⟨code, _, by rw [map_cons, whole, cons_append, skipSpace_cons _ visible], other⟩
  · refine parseItems_intercalate closes reads some_items _ ?_ rest
    rw [← @length_map _ _ items text, length_append]
    refine (count_le_intercalate fun other listed => ?_).trans (Nat.le_add_right _ _)
    obtain ⟨item, inside, rfl⟩ := mem_map.mp listed
    obtain ⟨code, tail, begins, -⟩ := starts item inside
    rw [begins]
    exact cons_ne_nil _ _

end Items

section Values

variable {Item : Type} {key : Item → List UInt16} {text : Item → List UInt16} {value : Item → Json format.Number}

theorem Reads.array {items : List Item} (reads : ∀ item ∈ items, Reads format (text item) (value item)) :
    Reads format ([unit '['] ++ [comma].intercalate (items.map text) ++ [unit ']']) (.array (items.map value)) where
  starts := ⟨unit '[', [comma].intercalate (items.map text) ++ [unit ']'], rfl, by decide, by decide, by decide⟩
  reads fuel rest enough _ := by
    cases fuel with
    | zero => simp at enough
    | succ fuel =>
      have lengths : ([comma].intercalate (items.map text)).length ≤ fuel := by
        simp only [length_append, length_singleton] at enough
        omega
      rw [append_assoc, append_assoc, singleton_append, singleton_append, parseValue, skipSpace_cons _ (by decide)]
      simp only [if_true]
      rw [if_neg (by decide), parseArray]
      by_cases none : items = []
      · rw [none]
        rfl
      · obtain ⟨⟨code, more, skipped, other⟩, parsed⟩ := @parseItems_whole _ _ (parseValue format fuel) _ _ value items
          closes_bracket
          (fun item listed rest => (reads item listed).reads fuel rest
            ((length_le_intercalate (mem_map_of_mem listed)).trans lengths))
          (fun item listed => by
            obtain ⟨code, tail, begins, visible, bracket, -⟩ := (reads item listed).starts
            exact ⟨code, tail, begins, visible, bracket⟩)
          none rest
        rw [parseElements_eq, parsed, skipped]
        simp only
        rw [if_neg other]
        rfl

def memberText (key : Item → List UInt16) (text : Item → List UInt16) (item : Item) : List UInt16 :=
  [quote] ++ (key item).flatMap escapeUnit ++ [quote, unit ':'] ++ text item

theorem parseKey_memberText {item : Item} (visible : ∀ code ∈ key item, 32 ≤ code) (rest : List UInt16) :
    parseKey (memberText key text item ++ rest) = some (key item, text item ++ rest) := by
  have whole : memberText key text item ++ rest =
      quote :: ((key item).flatMap escapeUnit ++ quote :: (unit ':' :: (text item ++ rest))) := by
    simp [memberText]
  rw [whole, parseKey, skipSpace_cons _ (by decide)]
  simp only [if_true]
  rw [parseString_escaped _ _ visible]
  simp only [Option.bind_some]
  rw [skipSpace_cons _ (by decide)]
  simp

theorem Reads.object {items : List Item} (visible : ∀ item ∈ items, ∀ code ∈ key item, 32 ≤ code)
    (reads : ∀ item ∈ items, Reads format (text item) (value item)) (some_items : items ≠ []) :
    Reads format ([unit '{'] ++ [comma].intercalate (items.map (memberText key text)) ++ [unit '}'])
      (ofMembers (items.map fun item => (key item, value item))) where
  starts := ⟨unit '{', [comma].intercalate (items.map (memberText key text)) ++ [unit '}'], rfl, by decide, by decide, by decide⟩
  reads fuel rest enough _ := by
    cases fuel with
    | zero => simp at enough
    | succ fuel =>
      have member : ∀ item ∈ items, ∀ rest, EndsNumber rest →
          parseMember (parseValue format fuel) (memberText key text item ++ rest) = some ((key item, value item), rest) := by
        intro item listed rest ends
        have short := length_le_intercalate (@mem_map_of_mem _ _ _ _ (memberText key text) listed)
        rw [memberText, length_append] at short
        simp only [length_append, length_singleton] at enough
        rw [parseMember, parseKey_memberText (visible item listed)]
        simp only [Option.bind_some]
        rw [(reads item listed).reads fuel rest (by omega) ends]
        rfl
      obtain ⟨⟨code, more, skipped, other⟩, parsed⟩ := parseItems_whole closes_brace member
        (fun item _ => ⟨quote, _, rfl, by decide, by decide⟩) some_items rest
      rw [append_assoc, append_assoc, singleton_append, singleton_append, parseValue, skipSpace_cons _ (by decide)]
      simp only
      rw [if_neg (by decide), if_neg (by decide), if_pos trivial, parseObject, parseMembers_eq, parsed, skipped]
      simp only
      rw [if_neg other]
      rfl

end Values

theorem Reads.pair {key other text otherText : List UInt16} {value otherValue : Json format.Number}
    (visible : ∀ code ∈ key, 32 ≤ code) (other_visible : ∀ code ∈ other, 32 ≤ code) (reads : Reads format text value)
    (other_reads : Reads format otherText otherValue) :
    Reads format ([unit '{'] ++ ([quote] ++ key.flatMap escapeUnit ++ [quote, unit ':'] ++ text ++ [comma] ++
        ([quote] ++ other.flatMap escapeUnit ++ [quote, unit ':'] ++ otherText)) ++ [unit '}'])
      (ofMembers [(key, value), (other, otherValue)]) := by
  have whole := @Reads.object format (List UInt16 × List UInt16 × Json format.Number) (·.1) (·.2.1) (·.2.2)
    [(key, text, value), (other, otherText, otherValue)] (by simpa using ⟨visible, other_visible⟩)
    (by simpa using ⟨reads, other_reads⟩) (cons_ne_nil _ _)
  rw [map_cons, map_singleton, intercalate_cons_cons, intercalate_singleton] at whole
  exact whole

theorem Reads.parse {text : List UInt16} {value : Json format.Number} (reads : Reads format text value) :
    Json.parse format text = some value := by
  have whole := reads.reads (text.length + 1) [] (Nat.le_succ _) trivial
  rw [append_nil] at whole
  rw [Json.parse, whole]
  rfl

end SmartPerf.Data.Json
