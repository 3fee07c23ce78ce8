import SmartPerf.Data.JsonQuotes
import SmartPerf.Query.ConvertJson

namespace SmartPerf.Query

open Data List Json

/-! What the logic workers make of the text of a result: they double every backslash, also those that escape, and drop the
vertical bars. -/

namespace ProcedureLogicWorkerCommon

variable {format : NumberFormat}

def isDropped (code : UInt16) : Bool := code = 9 ∨ code = Json.unit '|' ∨ code = 13 ∨ code = 10

def translateUnit (code : UInt16) : List UInt16 :=
  if isDropped code then [] else if code = Json.backslash then [Json.backslash, Json.backslash] else [code]

variable (text : List UInt16)

theorem translateJsonString_eq : translateJsonString text = text.flatMap translateUnit := by
  have doubled : Json.units "\\\\" = [Json.backslash, Json.backslash] := by decide
  rw [translateJsonString, replaceAll, replaceAll, flatMap_assoc, doubled]
  refine flatMap_congr fun code _ => ?_
  rw [translateUnit, isDropped]
  split
  · rfl
  · rw [flatMap_singleton, isBackslash]
    simp

variable {code : UInt16}

theorem mem_translateUnit {code unit : UInt16} (listed : unit ∈ translateUnit code) : unit = code ∧ isDropped code = false := by
  rw [translateUnit] at listed
  split at listed
  · exact absurd listed not_mem_nil
  next kept =>
    refine ⟨?_, Bool.eq_false_iff.mpr kept⟩
    split at listed
    next is_backslash =>
      rw [is_backslash]
      rcases mem_pair.mp listed with same | same
      · exact same
      · exact same
    · exact mem_singleton.mp listed

theorem mem_translate {text : List UInt16} {unit : UInt16} (listed : unit ∈ text.flatMap translateUnit) :
    unit ∈ text ∧ isDropped unit = false := by
  obtain ⟨code, inside, translated⟩ := mem_flatMap.mp listed
  obtain ⟨rfl, kept⟩ := mem_translateUnit translated
  exact ⟨inside, kept⟩

theorem translate_eq_self_iff :
    text.flatMap translateUnit = text ↔ ∀ code ∈ text, isDropped code = false ∧ code ≠ Json.backslash := by
  refine ⟨fun same code listed => ?_, fun plain => ?_⟩
  · have kept : ∀ unit ∈ text, isDropped unit = false := fun unit inside => (mem_translate (same ▸ inside)).2
    refine ⟨kept code listed, ?_⟩
    rintro rfl
    -- each backslash is doubled
    have counted : ∀ units : List UInt16, (units.flatMap translateUnit).count Json.backslash = 2 * units.count Json.backslash := by
      intro units
      induction units with
      | nil => rfl
      | cons unit rest ih =>
        rw [flatMap_cons, count_append, ih, count_cons, translateUnit]
        by_cases is_backslash : unit = Json.backslash
        · subst is_backslash
          rw [if_neg (by decide), if_pos rfl, if_pos (by decide)]
          have two : [Json.backslash, Json.backslash].count Json.backslash = 2 := by decide
          omega
        · have different : (unit == Json.backslash) = false := by simpa using is_backslash
          rw [different]
          split
          · simp
          · simp [is_backslash]
    have twice := counted text
    have some_backslash := count_pos_iff.mpr listed
    rw [same] at twice
    omega
  · have same : ∀ code ∈ text, translateUnit code = [code] :=
      fun code listed => by rw [translateUnit, (plain code listed).1, if_neg (by decide), if_neg (plain code listed).2]
    rw [flatMap_congr same, flatMap_singleton']

/-! ### Texts with quotes -/

def sentUnit (code : UInt16) : List UInt16 := (escapeUnit code).flatMap translateUnit

theorem sentUnit_quote : sentUnit Json.quote = [Json.backslash, Json.backslash, Json.quote] := by decide

theorem sentUnit_backslash : sentUnit Json.backslash = [Json.backslash, Json.backslash, Json.backslash, Json.backslash] := by decide

theorem sentUnit_plain (plain : IsPlain code) : sentUnit code = translateUnit code := by
  rw [sentUnit, escapeUnit, if_neg (not_or.mpr plain), flatMap_singleton]

theorem translateUnit_isPlain (plain : IsPlain code) : ∀ unit ∈ translateUnit code, IsPlain unit := by
  intro unit listed
  rw [(mem_translateUnit listed).1]
  exact plain

theorem closes_outside_sent (text rest : List UInt16) (is_open : closes true rest = false) :
    closes false (text.flatMap sentUnit ++ Json.quote :: rest) = false := by
  induction text with
  | nil => rw [flatMap_nil, nil_append, closes_outside_quote, is_open]
  | cons code others ih =>
    rw [flatMap_cons, append_assoc]
    by_cases is_quote : code = Json.quote
    · rw [is_quote]
      exact closes_outside_backslash _
    · by_cases is_backslash : code = Json.backslash
      · rw [is_backslash]
        exact closes_outside_backslash _
      · have plain : IsPlain code := ⟨is_quote, is_backslash⟩
        rw [sentUnit_plain plain, closes_plain_append false (translateUnit_isPlain plain), ih]

/-- Inside of a string, a text without quotes ends where it should, and one with quotes gets out of step. -/
theorem closes_inside_sent (text rest : List UInt16) :
    (Json.quote ∉ text → closes true (text.flatMap sentUnit ++ Json.quote :: rest) = closes false rest) ∧
      (Json.quote ∈ text → closes true rest = false →
        closes true (text.flatMap sentUnit ++ Json.quote :: rest) = false) := by
  induction text with
  | nil => exact ⟨fun _ => closes_inside_quote rest, fun absent => absurd absent not_mem_nil⟩
  | cons code others ih =>
    rw [flatMap_cons, append_assoc, mem_cons, not_or]
    by_cases is_quote : code = Json.quote
    · refine ⟨fun none => absurd is_quote.symm none.1, fun _ is_open => ?_⟩
      rw [is_quote, sentUnit_quote, cons_append, cons_append, singleton_append, closes_inside_escape,
        closes_inside_quote, closes_outside_sent others rest is_open]
    · have passed : closes true (sentUnit code ++ (others.flatMap sentUnit ++ Json.quote :: rest)) =
          closes true (others.flatMap sentUnit ++ Json.quote :: rest) := by
        by_cases is_backslash : code = Json.backslash
        · rw [is_backslash, sentUnit_backslash]
          simp [closes_inside_escape]
        · have plain : IsPlain code := ⟨is_quote, is_backslash⟩
          rw [sentUnit_plain plain, closes_plain_append true (translateUnit_isPlain plain)]
      rw [passed]
      refine ⟨fun none => ih.1 none.2, fun listed => ih.2 ?_⟩
      rcases listed with same | later
      · exact absurd same.symm is_quote
      · exact later

theorem part_text : Json.Part ([Json.quote] ++ text.flatMap sentUnit ++ [Json.quote]) (decide (Json.quote ∈ text)) where
  stays rest is_open := by
    rw [append_assoc, append_assoc, singleton_append, singleton_append, closes_inside_quote,
      closes_outside_sent text rest is_open]
  breaks has_quote rest is_open := by
    rw [append_assoc, append_assoc, singleton_append, singleton_append, closes_outside_quote,
      (closes_inside_sent text rest).2 (of_decide_eq_true has_quote) is_open]
  keeps no_quote rest := by
    rw [append_assoc, append_assoc, singleton_append, singleton_append, closes_outside_quote,
      (closes_inside_sent text rest).1 (of_decide_eq_false no_quote)]

/-! ### Values as they arrive -/

/-- A printable value: the characters of a text are printable ASCII. -/
def Printable : SqlValue → Prop
  | .null => True
  | .integer value => value.natAbs < 2 ^ 53
  | .text value => ∀ char ∈ value, 32 ≤ char.toNat ∧ char.toNat ≤ 126

variable {value : SqlValue}

theorem Printable.exact (printable : Printable value) : value.Exact := by
  cases value with
  | null => trivial
  | integer value => exact printable
  | text value => exact fun char listed => (printable char listed).1

def hasQuote : SqlValue → Bool
  | .text value => decide ('"' ∈ value)
  | _ => false

def translatedValue (format : NumberFormat) : SqlValue → Json format.Number
  | .text value => .string ((utf16 value).flatMap translateUnit)
  | value => value.jsValue format

theorem decimal_unit {value : Int} (listed : code ∈ (decimal value).map Json.unit) :
    45 ≤ code.toNat ∧ code.toNat ≤ 57 := by
  obtain ⟨char, inside, rfl⟩ := mem_map.mp listed
  have range := decimal_range inside
  have same : (Json.unit char).toNat = char.toNat := toNat_toUInt16 (by omega)
  omega

theorem translate_units_of_no_text {value : SqlValue} (no_text : ∀ text, value ≠ .text text) :
    value.units.flatMap translateUnit = value.units ∧ ∀ code ∈ value.units, IsPlain code := by
  cases value with
  | null =>
    exact ⟨by decide +kernel, plain_of_all (by decide +kernel)⟩
  | integer value =>
    have plain : ∀ code ∈ (decimal value).map Json.unit, (isDropped code = false ∧ code ≠ Json.backslash) ∧ code ≠ Json.quote := by
      intro code listed
      have range := decimal_unit listed
      have differs : ∀ other : UInt16, other.toNat < 45 ∨ 57 < other.toNat → code ≠ other := by
        rintro other outside rfl
        omega
      refine ⟨⟨decide_eq_false ?_, differs _ (by decide)⟩, differs _ (by decide)⟩
      rintro (same | same | same | same)
      · exact differs 9 (by decide) same
      · exact differs _ (by decide) same
      · exact differs 13 (by decide) same
      · exact differs 10 (by decide) same
    exact ⟨(translate_eq_self_iff _).mpr fun code listed => (plain code listed).1,
      fun code listed => ⟨(plain code listed).2, (plain code listed).1.2⟩⟩
  | text value => exact absurd rfl (no_text value)

theorem translate_units_text (text : List Char) :
    (SqlValue.text text).units.flatMap translateUnit =
      [Json.quote] ++ (utf16 text).flatMap sentUnit ++ [Json.quote] := by
  have quoted : [Json.quote].flatMap translateUnit = [Json.quote] := by decide
  have sent : ((utf16 text).flatMap escapeUnit).flatMap translateUnit = (utf16 text).flatMap sentUnit := flatMap_assoc
  rw [SqlValue.units, flatMap_append, flatMap_append, quoted, sent]

theorem part_value (value : SqlValue) : Json.Part (value.units.flatMap translateUnit) (hasQuote value) := by
  cases value with
  | null =>
    obtain ⟨same, plain⟩ := @translate_units_of_no_text .null (by simp)
    exact Json.Part.plain plain
  | integer value =>
    obtain ⟨same, plain⟩ := @translate_units_of_no_text (.integer value) (by simp)
    rw [same]
    exact Json.Part.plain plain
  | text value =>
    have listed : decide (Json.quote ∈ utf16 value) = decide ('"' ∈ value) :=
      decide_eq_decide.mpr (@mem_utf16_iff value '"' (by decide))
    rw [translate_units_text, hasQuote, ← listed]
    exact part_text (utf16 value)

theorem part_body {names : List (List UInt16)} (plain : ∀ name ∈ names, ∀ code ∈ name, IsPlain code)
    (rows : List (List SqlValue)) :
    Json.Part (body Json.unit names (rows.map fun row => row.map fun value => value.units.flatMap translateUnit))
      (rows.any fun row => row.any hasQuote) := by
  have comma_eq : Json.unit ',' = Json.comma := by decide
  have quote_eq : Json.unit '"' = Json.quote := by decide
  have plain_columns : ∀ code ∈ Json.units "columns", IsPlain code := plain_of_all (by decide +kernel)
  have plain_values : ∀ code ∈ Json.units "values", IsPlain code := plain_of_all (by decide +kernel)
  have plain_units : ∀ text ∈ [[Json.unit '{'], Json.units ":[", Json.units "],", [Json.unit '['], [Json.unit ']'],
      endWord.map Json.unit], ∀ code ∈ text, IsPlain code := by
    intro text listed
    have all : ([[Json.unit '{'], Json.units ":[", Json.units "],", [Json.unit '['], [Json.unit ']'],
        endWord.map Json.unit].all fun text => text.all fun code => code ≠ Json.quote ∧ code ≠ Json.backslash) = true := by
      decide +kernel
    exact plain_of_all (all_eq_true.mp all text listed)
  have columns : Json.Part (columnsWord.map Json.unit) false := by
    have word : columnsWord.map Json.unit = [Json.unit '{'] ++ ([Json.quote] ++ Json.units "columns" ++ [Json.quote]) ++ Json.units ":[" := by
      decide +kernel
    rw [word]
    exact ((Json.Part.plain (plain_units _ (by simp))).append (Json.Part.quoted plain_columns)).append
      (Json.Part.plain (plain_units _ (by simp)))
  have values : Json.Part (valuesWord.map Json.unit) false := by
    have word : valuesWord.map Json.unit = Json.units "]," ++ ([Json.quote] ++ Json.units "values" ++ [Json.quote]) ++ Json.units ":[" := by
      decide +kernel
    rw [word]
    exact ((Json.Part.plain (plain_units _ (by simp))).append (Json.Part.quoted plain_values)).append
      (Json.Part.plain (plain_units _ (by simp)))
  have names_part : Json.Part ([Json.comma].intercalate (names.map fun name => [Json.quote] ++ name ++ [Json.quote])) (names.any fun _ => false) :=
    Json.Part.intercalate fun name listed => Json.Part.quoted (plain name listed)
  have rows_part : Json.Part ([Json.comma].intercalate (rows.map fun row => [Json.unit '['] ++
      [Json.comma].intercalate (row.map fun value => value.units.flatMap translateUnit) ++ [Json.unit ']']))
      (rows.any fun row => row.any hasQuote) := by
    refine Json.Part.intercalate fun row _ => ?_
    have inside : Json.Part ([Json.comma].intercalate (row.map fun value => value.units.flatMap translateUnit)) (row.any hasQuote) :=
      Json.Part.intercalate fun value _ => part_value value
    have whole := ((Json.Part.plain (plain_units [Json.unit '['] (by simp))).append inside).append
      (Json.Part.plain (plain_units [Json.unit ']'] (by simp)))
    rwa [Bool.false_or, Bool.or_false] at whole
  have whole := (((columns.append names_part).append values).append rows_part).append
    (Json.Part.plain (plain_units (endWord.map Json.unit) (by simp)))
  have no_names : (names.any fun _ => false) = false := by simp
  rw [no_names, Bool.false_or, Bool.or_false] at whole
  rw [body, comma_eq, quote_eq, map_map]
  exact whole

/-- A table whose texts are printable ASCII. -/
structure PrintableTable (table : ResultTable) : Prop where
  names : ∀ name ∈ table.columns, PlainName name
  distinct : table.columns.Nodup
  values : ∀ row ∈ table.rows, ∀ value ∈ row, Printable value

variable {table : ResultTable}

theorem PrintableTable.sendable (printable : PrintableTable table) : table.Sendable where
  names := printable.names
  distinct := printable.distinct
  values row listed value inside := (printable.values row listed value inside).exact

def arrivedBody (table : ResultTable) : List UInt16 :=
  body Json.unit (table.columns.map fun name => (utf16 name).flatMap translateUnit)
    (table.rows.map fun row => row.map fun value => value.units.flatMap translateUnit)

theorem translateJsonString_bodyUnits (table : ResultTable) :
    translateJsonString (table.bodyUnits ++ Json.units "\r\n") = arrivedBody table := by
  have kept : ∀ char ∈ bodyChars, translateUnit (Json.unit char) = [Json.unit char] := all_iff_forall_prop.mp (by decide +kernel)
  have ending : (Json.units "\r\n").flatMap translateUnit = [] := by decide
  rw [translateJsonString_eq, flatMap_append, ending, append_nil, ResultTable.bodyUnits, body_flatMap kept,
    map_map, map_map, arrivedBody]
  simp [Function.comp_def]

theorem PrintableTable.names_plain (printable : PrintableTable table) :
    ∀ name ∈ table.columns.map fun name => (utf16 name).flatMap translateUnit,
      ∀ code ∈ name, 32 ≤ code ∧ code ≠ Json.quote ∧ code ≠ Json.backslash := by
  intro name listed code inside
  obtain ⟨source, is_column, rfl⟩ := mem_map.mp listed
  exact (printable.names source is_column).units code (mem_translate inside).1

theorem reads_translated (printable : Printable value) (no_quote : hasQuote value = false) :
    Reads format (value.units.flatMap translateUnit) (translatedValue format value) := by
  cases value with
  | null =>
    exact printable.exact.reads
  | integer value =>
    rw [(@translate_units_of_no_text (.integer value) (by simp)).1]
    exact printable.exact.reads
  | text value =>
    have no_units : Json.quote ∉ utf16 value :=
      fun listed => of_decide_eq_false no_quote ((@mem_utf16_iff value '"' (by decide)).mp listed)
    have swapped : (utf16 value).flatMap sentUnit = ((utf16 value).flatMap translateUnit).flatMap escapeUnit := by
      rw [flatMap_assoc]
      refine flatMap_congr fun code listed => ?_
      have not_quote : code ≠ Json.quote := fun same => no_units (same ▸ listed)
      by_cases is_backslash : code = Json.backslash
      · rw [is_backslash]
        decide
      · rw [sentUnit_plain ⟨not_quote, is_backslash⟩]
        have same : ∀ unit ∈ translateUnit code, escapeUnit unit = [unit] := by
          intro unit inside
          rw [(mem_translateUnit inside).1, escapeUnit, if_neg (not_or.mpr ⟨not_quote, is_backslash⟩)]
        rw [flatMap_congr same, flatMap_singleton']
    rw [translate_units_text, swapped]
    refine Reads.string fun code listed => ?_
    exact visible_utf16 printable.exact code (mem_translate listed).1

theorem PrintableTable.parse_arrivedBody (printable : PrintableTable table)
    (no_quotes : ∀ row ∈ table.rows, ∀ value ∈ row, hasQuote value = false) :
    parse format (arrivedBody table) =
      some (bodyValue (table.columns.map fun name => (utf16 name).flatMap translateUnit)
        (table.rows.map fun row => row.map (translatedValue format))) :=
  (body_reads printable.names_plain fun row listed value inside =>
    reads_translated (printable.values row listed value inside) (no_quotes row listed value inside)).parse

theorem printable_sentUnit {code : UInt16} (printable : isUnprintable code = false) :
    ∀ unit ∈ sentUnit code, isUnprintable unit = false := by
  intro unit listed
  obtain ⟨escaped, inside, translated⟩ := mem_flatMap.mp listed
  rw [(mem_translateUnit translated).1]
  rw [escapeUnit] at inside
  split at inside
  · rcases mem_pair.mp inside with rfl | rfl
    · decide
    · exact printable
  · rw [mem_singleton.mp inside]
    exact printable

theorem isUnprintable_eq_false {code : UInt16} (visible : 32 ≤ code.toNat) (ascii : code.toNat ≤ 126) : isUnprintable code = false := by
  refine decide_eq_false ?_
  rintro (low | high)
  · have below := UInt16.lt_iff_toNat_lt.mp low
    exact absurd visible (not_le.mpr below)
  · have above := UInt16.lt_iff_toNat_lt.mp high
    exact absurd ascii (not_le.mpr above)

theorem printable_translated (printable : Printable value) :
    ∀ code ∈ value.units.flatMap translateUnit, isUnprintable code = false := by
  cases value with
  | null => exact all_iff_forall_prop.mp (by decide +kernel)
  | integer value =>
    intro code listed
    have range := decimal_unit (mem_translate listed).1
    exact isUnprintable_eq_false (by omega) (by omega)
  | text value =>
    intro code listed
    rw [translate_units_text, mem_append, mem_append] at listed
    rcases listed with (quoted | inside) | quoted
    · rw [mem_singleton.mp quoted]
      decide
    · obtain ⟨unit, is_unit, sent⟩ := mem_flatMap.mp inside
      obtain ⟨char, is_char, encoded⟩ := mem_flatMap.mp is_unit
      have bounds := printable char is_char
      rw [utf16Char, if_pos (by omega)] at encoded
      have same : unit.toNat = char.toNat := by
        rw [mem_singleton.mp encoded]
        exact toNat_toUInt16 (by omega)
      exact printable_sentUnit (isUnprintable_eq_false (by omega) (by omega)) code sent
    · rw [mem_singleton.mp quoted]
      decide

theorem PrintableTable.parse_eq_none (printable : PrintableTable table)
    (quotes : (table.rows.any fun row => row.any hasQuote) = true) :
    parse format (arrivedBody table) = none ∧
      parse format (replaceAll isUnprintable (Json.units "?") (arrivedBody table)) = none := by
  have kept : ∀ char ∈ bodyChars, isUnprintable (Json.unit char) = false := all_iff_forall_prop.mp (by decide +kernel)
  have mark : ∀ code ∈ Json.units "?", IsPlain code := plain_of_all (by decide)
  have open_string : ∀ names : List (List UInt16), (∀ name ∈ names, ∀ code ∈ name, IsPlain code) →
      closes false (body Json.unit names (table.rows.map fun row => row.map fun value => value.units.flatMap translateUnit)) =
        false := by
    intro names plain
    have broken := (part_body plain table.rows).breaks quotes [] rfl
    rwa [append_nil] at broken
  have values : (table.rows.map fun row => row.map fun value => value.units.flatMap translateUnit).map
      (fun row => row.map (replaceAll isUnprintable (Json.units "?"))) =
      table.rows.map fun row => row.map fun value => value.units.flatMap translateUnit := by
    rw [map_map]
    refine map_congr_left fun row listed => ?_
    rw [Function.comp_apply, map_map]
    refine map_congr_left fun value inside => ?_
    exact replaceAll_eq_self (printable_translated (printable.values row listed value inside)) _
  refine ⟨parse_eq_none_of_not_closes (open_string _ fun name listed code inside => (printable.names_plain name listed code inside).2), ?_⟩
  rw [arrivedBody, replaceAll_body kept, values]
  refine parse_eq_none_of_not_closes (open_string _ fun name listed code inside => ?_)
  obtain ⟨source, is_name, rfl⟩ := mem_map.mp listed
  obtain ⟨unit, is_unit, replaced⟩ := mem_flatMap.mp inside
  split at replaced
  · exact mark code replaced
  · rw [mem_singleton.mp replaced]
    exact (printable.names_plain source is_name unit is_unit).2

/-! ### The rows that arrive -/

/-- A text without the characters that the translation or the parser takes for something else. -/
def Untouched : SqlValue → Prop
  | .text value => '"' ∉ value ∧ '\\' ∉ value ∧ '|' ∉ value
  | _ => True

theorem isDropped_eq_false {code : UInt16} (visible : 32 ≤ code) (no_bar : code ≠ Json.unit '|') : isDropped code = false := by
  refine decide_eq_false ?_
  rintro (rfl | bar | rfl | rfl)
  · exact absurd visible (by decide)
  · exact no_bar bar
  · exact absurd visible (by decide)
  · exact absurd visible (by decide)

theorem translate_utf16_eq_self_iff {text : List Char} (visible : ∀ char ∈ text, 32 ≤ char.toNat) :
    (utf16 text).flatMap translateUnit = utf16 text ↔ '\\' ∉ text ∧ '|' ∉ text := by
  rw [translate_eq_self_iff]
  refine ⟨fun kept => ⟨fun listed => ?_, fun listed => ?_⟩, fun plain code listed => ⟨?_, ?_⟩⟩
  · exact (kept _ ((@mem_utf16_iff text '\\' (by decide)).mpr listed)).2 rfl
  · exact absurd (kept _ ((@mem_utf16_iff text '|' (by decide)).mpr listed)).1 (by decide)
  · refine isDropped_eq_false (visible_utf16 visible code listed) ?_
    rintro rfl
    exact plain.2 ((@mem_utf16_iff text '|' (by decide)).mp listed)
  · rintro rfl
    exact plain.1 ((@mem_utf16_iff text '\\' (by decide)).mp listed)

theorem translatedValue_eq_iff (printable : Printable value) (no_quote : hasQuote value = false) :
    translatedValue format value = value.jsValue format ↔ Untouched value := by
  cases value with
  | null => exact ⟨fun _ => trivial, fun _ => rfl⟩
  | integer value => exact ⟨fun _ => trivial, fun _ => rfl⟩
  | text value =>
    have same := translate_utf16_eq_self_iff printable.exact
    rw [translatedValue, SqlValue.jsValue, string.injEq, same]
    exact ⟨fun plain => ⟨of_decide_eq_false no_quote, plain⟩, fun untouched => untouched.2⟩

theorem PrintableTable.convertJSON_eq (printable : PrintableTable table) (decoder : TextDecoder)
    (no_quotes : ∀ row ∈ table.rows, ∀ value ∈ row, hasQuote value = false) :
    (searchDatabase (some table.statement)).bind (convertJSON decoder format) =
      some (table.rows.map fun row => rowObject (table.columns.map fun name => (utf16 name).flatMap translateUnit)
        (row.map (translatedValue format))) := by
  by_cases some_columns : table.columns = []
  · obtain ⟨sent, no_text⟩ := @ResultTable.searchDatabase_of_no_columns decoder table some_columns
    rw [sent, table.no_columns some_columns, Option.bind_some, convertJSON, no_text]
    rfl
  · obtain ⟨bytes, sent, line⟩ := @ResultTable.Sendable.afterFirstLine_decode decoder table printable.sendable some_columns
    rw [sent, Option.bind_some, convertJSON, line]
    simp only
    rw [if_neg (ResultTable.Sendable.bodyUnits_ne_nil table), translateJsonString_bodyUnits, printable.parse_arrivedBody no_quotes,
      Option.orElse_some, Option.bind_some, convertRows_bodyValue, map_map]
    rfl

theorem PrintableTable.convertJSON_eq_none (printable : PrintableTable table) (decoder : TextDecoder)
    (quotes : (table.rows.any fun row => row.any hasQuote) = true) :
    (searchDatabase (some table.statement)).bind (convertJSON decoder format) = none := by
  have some_columns : table.columns ≠ [] := by
    intro no_columns
    rw [table.no_columns no_columns] at quotes
    cases quotes
  obtain ⟨bytes, sent, line⟩ := @ResultTable.Sendable.afterFirstLine_decode decoder table printable.sendable some_columns
  obtain ⟨first, second⟩ := @PrintableTable.parse_eq_none format table printable quotes
  rw [sent, Option.bind_some, convertJSON, line]
  simp only
  rw [if_neg (ResultTable.Sendable.bodyUnits_ne_nil table), translateJsonString_bodyUnits, first, second]
  rfl

/-- A row arrives unchanged exactly when no column has a bar in its name and its texts are untouched. -/
theorem PrintableTable.rowObject_eq_iff (printable : PrintableTable table) {row : List SqlValue} (listed : row ∈ table.rows)
    (no_quotes : ∀ value ∈ row, hasQuote value = false) :
    rowObject (table.columns.map fun name => (utf16 name).flatMap translateUnit) (row.map (translatedValue format)) =
        ((table.columns.zip row).map fun column => (utf16 column.1, some (column.2.jsValue format))) ↔
      (∀ name ∈ table.columns, '|' ∉ name) ∧ ∀ value ∈ row, Untouched value := by
  have length := table.row_length row listed
  have names_kept : (∀ name ∈ table.columns, '|' ∉ name) →
      (table.columns.map fun name => (utf16 name).flatMap translateUnit) = table.columns.map utf16 := by
    intro no_bars
    refine map_congr_left fun name is_column => ?_
    have plain := printable.names name is_column
    exact (translate_utf16_eq_self_iff plain.visible).mpr ⟨plain.unescaped.2, no_bars name is_column⟩
  refine ⟨fun same => ?_, fun untouched => ?_⟩
  · have no_bars : ∀ name ∈ table.columns, '|' ∉ name := by
      intro name is_column bar
      rw [← map_fst_zip (le_of_eq length.symm)] at is_column
      obtain ⟨column, paired, rfl⟩ := mem_map.mp is_column
      have property : (utf16 column.1, some (column.2.jsValue format)) ∈
          rowObject (table.columns.map fun name => (utf16 name).flatMap translateUnit) (row.map (translatedValue format)) := by
        rw [same]
        exact mem_map_of_mem paired
      obtain ⟨other, -, translated⟩ := mem_map.mp (keys_rowObject property)
      have bar_unit : Json.unit '|' ∈ (utf16 other).flatMap translateUnit := by
        rw [translated]
        exact (@mem_utf16_iff column.1 '|' (by decide)).mpr bar
      exact absurd (mem_translate bar_unit).2 (by decide)
    refine ⟨no_bars, fun value inside => ?_⟩
    rw [names_kept no_bars, printable.sendable.rowObject_eq listed] at same
    rw [← map_snd_zip (le_of_eq length)] at inside
    obtain ⟨column, paired, rfl⟩ := mem_map.mp inside
    have values := (Prod.mk.inj (map_inj_left.mp same column paired)).2
    have in_row := (of_mem_zip paired).2
    exact (translatedValue_eq_iff (printable.values row listed _ in_row) (no_quotes _ in_row)).mp (Option.some.inj values)
  · rw [names_kept untouched.1, printable.sendable.rowObject_eq listed]
    refine map_congr_left fun column paired => ?_
    have in_row := (of_mem_zip paired).2
    rw [(translatedValue_eq_iff (printable.values row listed _ in_row) (no_quotes _ in_row)).mpr (untouched.2 _ in_row)]

/-- The rows reach the logic workers unchanged exactly when no text has a quote, a backslash or a bar, and, if there is a
row, no column has a bar in its name. -/
theorem convertJSON_searchDatabase_iff (decoder : TextDecoder) (format : NumberFormat) (table : ResultTable)
    (printable : PrintableTable table) :
    (searchDatabase (some table.statement)).bind (convertJSON decoder format) = some (table.keyedRows format) ↔
      (∀ row ∈ table.rows, ∀ value ∈ row, Untouched value) ∧ (table.rows ≠ [] → ∀ name ∈ table.columns, '|' ∉ name) := by
  cases quotes : table.rows.any fun row => row.any hasQuote with
  | true =>
    rw [printable.convertJSON_eq_none decoder quotes]
    refine ⟨fun same => (nomatch same), fun untouched => ?_⟩
    obtain ⟨row, listed, in_row⟩ := any_eq_true.mp quotes
    obtain ⟨value, inside, has_quote⟩ := any_eq_true.mp in_row
    have plain := untouched.1 row listed value inside
    cases value with
    | null => cases has_quote
    | integer value => cases has_quote
    | text value => exact absurd (of_decide_eq_true has_quote) plain.1
  | false =>
    have no_quotes : ∀ row ∈ table.rows, ∀ value ∈ row, hasQuote value = false := by
      intro row listed value inside
      have none_in_row := any_eq_false.mp quotes row listed
      rw [Bool.not_eq_true] at none_in_row
      have none_here := any_eq_false.mp none_in_row value inside
      rwa [Bool.not_eq_true] at none_here
    have rows_iff := fun row (listed : row ∈ table.rows) =>
      @PrintableTable.rowObject_eq_iff format table printable row listed (no_quotes row listed)
    rw [printable.convertJSON_eq decoder no_quotes, Option.some.injEq, ResultTable.keyedRows, map_inj_left]
    refine ⟨fun same => ⟨fun row listed => ((rows_iff row listed).mp (same row listed)).2, fun some_rows => ?_⟩, ?_⟩
    · obtain ⟨row, others, rows⟩ := exists_cons_of_ne_nil some_rows
      have listed : row ∈ table.rows := by
        rw [rows]
        exact mem_cons_self
      exact ((rows_iff row listed).mp (same row listed)).1
    · intro untouched row listed
      exact (rows_iff row listed).mpr ⟨untouched.2 (ne_nil_of_mem listed), untouched.1 row listed⟩

private def sampleNames (text : List Char) : ResultTable where
  columns := ["id".toList, "name".toList]
  rows := [[.integer 7, .text text]]
  row_length := by simp
  no_columns := by simp

theorem sampleNames_printable {text : List Char} (printable : ∀ char ∈ text, 32 ≤ char.toNat ∧ char.toNat ≤ 126) :
    PrintableTable (sampleNames text) where
  names := sampleColumns_plain
  distinct := sampleColumns_nodup
  values row listed value inside := by
    have is_row : row = [.integer 7, .text text] := by simpa [sampleNames] using listed
    rw [is_row] at inside
    rcases mem_pair.mp inside with rfl | rfl
    · exact (by decide : (7 : Int).natAbs < 2 ^ 53)
    · exact printable

/-- An ordinary name. -/
theorem convertJSON_searchDatabase_ordinary :
    (searchDatabase (some (sampleNames "render".toList).statement)).bind (convertJSON strictDecoder literalFormat) =
      some ((sampleNames "render".toList).keyedRows literalFormat) := by
  refine (convertJSON_searchDatabase_iff strictDecoder literalFormat _ (sampleNames_printable (all_iff_forall_prop.mp (by decide +kernel)))).mpr ⟨?_, ?_⟩
  · intro row listed value inside
    have is_row : row = [.integer 7, .text "render".toList] := by simpa [sampleNames] using listed
    rw [is_row] at inside
    rcases mem_pair.mp inside with rfl | rfl
    · trivial
    · exact (by decide +kernel : '"' ∉ "render".toList ∧ '\\' ∉ "render".toList ∧ '|' ∉ "render".toList)
  · intro _ name listed
    rcases mem_pair.mp listed with rfl | rfl
    · decide +kernel
    · decide +kernel

/-- A text that is only a quote ends in an exception, and one that is only a backslash arrives with two. -/
theorem convertJSON_searchDatabase_quote :
    (searchDatabase (some (sampleNames "\"".toList).statement)).bind (convertJSON strictDecoder literalFormat) = none ∧
      (searchDatabase (some (sampleNames "\\".toList).statement)).bind (convertJSON strictDecoder literalFormat) ≠
        some ((sampleNames "\\".toList).keyedRows literalFormat) := by
  have quote_printable := @sampleNames_printable "\"".toList (all_iff_forall_prop.mp (by decide +kernel))
  have backslash_printable := @sampleNames_printable "\\".toList (all_iff_forall_prop.mp (by decide +kernel))
  have has_quote : ((sampleNames "\"".toList).rows.any fun row => row.any hasQuote) = true := by decide +kernel
  have no_quotes : ∀ row ∈ (sampleNames "\\".toList).rows, ∀ value ∈ row, hasQuote value = false := by decide +kernel
  refine ⟨quote_printable.convertJSON_eq_none strictDecoder has_quote, ?_⟩
  rw [backslash_printable.convertJSON_eq strictDecoder no_quotes]
  intro same
  have rows := List.cons.inj (Option.some.inj same)
  have untouched := (@PrintableTable.rowObject_eq_iff literalFormat _ backslash_printable [.integer 7, .text "\\".toList]
    mem_cons_self (no_quotes _ mem_cons_self)).mp rows.1
  exact absurd (untouched.2 (.text "\\".toList) (by simp)).2.1 (by decide +kernel)

end ProcedureLogicWorkerCommon

end SmartPerf.Query
