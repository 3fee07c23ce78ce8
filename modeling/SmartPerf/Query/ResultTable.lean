import Mathlib.Data.Bool.AllAny
import Mathlib.Data.List.TakeWhile
import SmartPerf.Data.CodeUnits
import SmartPerf.Data.JsonReading
import SmartPerf.Query.TraceDataDB

namespace SmartPerf.Query

open Data List Json

/-! The tables that queries return, and the text of a table in different code units. -/

inductive SqlValue where
  | null
  | integer (value : Int)
  | text (value : List Char)
deriving Repr, DecidableEq

structure ResultTable where
  columns : List (List Char)
  rows : List (List SqlValue)
  row_length : ∀ row ∈ rows, row.length = columns.length
  no_columns : columns = [] → rows = []

def SqlValue.column : SqlValue → SqliteColumn
  | .null => ⟨none, .null⟩
  | .integer value => ⟨some (utf8 (decimal value)), .integer⟩
  | .text value => ⟨some (utf8 value), .text⟩

def ResultTable.statement (table : ResultTable) : SqliteStatement where
  columnNames := table.columns.map utf8
  rows := table.rows.map fun row => row.map SqlValue.column
  row_length row listed := by
    obtain ⟨values, inside, rfl⟩ := mem_map.mp listed
    rw [length_map, length_map, table.row_length values inside]

/-! ### The body of a result -/

section Body

variable {Code Other : Type} {unit : Char → Code} {other : Char → Other}

def columnsWord : List Char := "\x7b\"columns\":[".toList

def valuesWord : List Char := "],\"values\":[".toList

def endWord : List Char := "]\x7d".toList

/-- The object in which a table is sent, from the names of its columns and the texts of its values. -/
def body (unit : Char → Code) (names : List (List Code)) (rows : List (List (List Code))) : List Code :=
  columnsWord.map unit ++ [unit ','].intercalate (names.map fun name => [unit '"'] ++ name ++ [unit '"']) ++
    valuesWord.map unit ++
    [unit ','].intercalate (rows.map fun row => [unit '['] ++ [unit ','].intercalate row ++ [unit ']']) ++ endWord.map unit

def bodyChars : List Char := columnsWord ++ valuesWord ++ endWord

variable {change : Code → List Other}

theorem flatMap_intercalate {separator : Code} {otherSeparator : Other} (kept : change separator = [otherSeparator])
    (texts : List (List Code)) :
    ([separator].intercalate texts).flatMap change = [otherSeparator].intercalate (texts.map fun text => text.flatMap change) := by
  induction texts with
  | nil => rfl
  | cons text others ih =>
    cases others with
    | nil => simp
    | cons next others =>
      rw [intercalate_cons_cons, map_cons, map_cons, intercalate_cons_cons, ← map_cons, ← ih]
      simp [kept]

theorem flatMap_map_unit {chars : List Char} (kept : ∀ char ∈ chars, change (unit char) = [other char])
    : (chars.map unit).flatMap change = chars.map other := by
  induction chars with
  | nil => rfl
  | cons char rest ih =>
    rw [map_cons, flatMap_cons, kept char mem_cons_self, ih (forall_mem_of_forall_mem_cons kept)]
    rfl

theorem bodyChars_separators : ',' ∈ bodyChars ∧ '"' ∈ bodyChars ∧ '[' ∈ bodyChars ∧ ']' ∈ bodyChars := by decide +kernel

/-- A change of the code units that keeps what stands between them changes the names and the values. -/
theorem body_flatMap (kept : ∀ char ∈ bodyChars, change (unit char) = [other char]) (names : List (List Code))
    (rows : List (List (List Code))) :
    (body unit names rows).flatMap change =
      body other (names.map fun name => name.flatMap change) (rows.map fun row => row.map fun text => text.flatMap change) := by
  obtain ⟨comma_listed, quote_listed, left_listed, right_listed⟩ := bodyChars_separators
  have columns_kept : (columnsWord.map unit).flatMap change = columnsWord.map other :=
    flatMap_map_unit fun char listed => kept char (by simp [bodyChars, listed])
  have values_kept : (valuesWord.map unit).flatMap change = valuesWord.map other :=
    flatMap_map_unit fun char listed => kept char (by simp [bodyChars, listed])
  have end_kept : (endWord.map unit).flatMap change = endWord.map other :=
    flatMap_map_unit fun char listed => kept char (by simp [bodyChars, listed])
  have comma_kept := kept ',' comma_listed
  have names_kept : (names.map fun name => [unit '"'] ++ name ++ [unit '"']).map (fun text => text.flatMap change) =
      (names.map fun name => name.flatMap change).map fun name => [other '"'] ++ name ++ [other '"'] := by
    simp [kept '"' quote_listed]
  have rows_kept : (rows.map fun row => [unit '['] ++ [unit ','].intercalate row ++ [unit ']']).map
        (fun text => text.flatMap change) =
      (rows.map fun row => row.map fun text => text.flatMap change).map fun row =>
        [other '['] ++ [other ','].intercalate row ++ [other ']'] := by
    simp [kept '[' left_listed, kept ']' right_listed, flatMap_intercalate comma_kept]
  rw [body, flatMap_append, flatMap_append, flatMap_append, flatMap_append, columns_kept, values_kept,
    end_kept, flatMap_intercalate comma_kept, flatMap_intercalate comma_kept, names_kept, rows_kept, body]

end Body

/-! ### The text of a table -/

def byte (char : Char) : UInt8 := char.toNat.toUInt8

def formatCharacter (char : Char) : List Char := if char = '\\' ∨ char = '"' then ['\\', char] else [char]

namespace SqlValue

def chars : SqlValue → List Char
  | .null => "null".toList
  | .integer value => decimal value
  | .text value => ['"'] ++ value.flatMap formatCharacter ++ ['"']

def units : SqlValue → List UInt16
  | .null => Json.units "null"
  | .integer value => (decimal value).map Json.unit
  | .text value => [Json.quote] ++ (utf16 value).flatMap escapeUnit ++ [Json.quote]

def NoNull : SqlValue → Prop
  | .text value => '\x00' ∉ value
  | _ => True

end SqlValue

theorem eq_of_toNat_eq {char other : Char} (same : char.toNat = other.toNat) : char = other := Char.toNat_inj.mp same

theorem formatCharacter_utf8 (char : Char) :
    (String.utf8EncodeChar char).flatMap formatChar = utf8 (formatCharacter char) := by
  by_cases special : char = '\\' ∨ char = '"'
  · rcases special with rfl | rfl
    · decide
    · decide
  · have plain : ∀ code ∈ String.utf8EncodeChar char, formatChar code = [code] := by
      intro code listed
      rw [formatChar, if_neg]
      intro is_special
      refine special ?_
      rcases is_special with rfl | rfl
      · rcases mem_utf8EncodeChar listed with same | large
        · exact .inl (eq_of_toNat_eq same.symm)
        · exact absurd large (by decide)
      · rcases mem_utf8EncodeChar listed with same | large
        · exact .inr (eq_of_toNat_eq same.symm)
        · exact absurd large (by decide)
    rw [formatCharacter, if_neg special, flatMap_congr plain, flatMap_singleton', utf8, flatMap_singleton]

theorem formatCharacter_utf16 (char : Char) : (utf16Char char).flatMap escapeUnit = utf16 (formatCharacter char) := by
  by_cases special : char = '\\' ∨ char = '"'
  · rcases special with rfl | rfl
    · decide
    · decide
  · have plain : ∀ code ∈ utf16Char char, escapeUnit code = [code] := by
      intro code listed
      rw [escapeUnit, if_neg]
      intro is_special
      refine special ?_
      rcases is_special with rfl | rfl
      · rcases mem_utf16Char listed with same | large
        · exact .inr (eq_of_toNat_eq same.symm)
        · exact absurd large (by decide)
      · rcases mem_utf16Char listed with same | large
        · exact .inl (eq_of_toNat_eq same.symm)
        · exact absurd large (by decide)
    rw [formatCharacter, if_neg special, flatMap_congr plain, flatMap_singleton', utf16, flatMap_singleton]

theorem utf8_flatMap_formatCharacter (text : List Char) :
    (utf8 text).flatMap formatChar = utf8 (text.flatMap formatCharacter) := by
  rw [utf8, utf8, flatMap_assoc, flatMap_assoc]
  exact flatMap_congr fun char _ => formatCharacter_utf8 char

theorem utf16_flatMap_formatCharacter (text : List Char) :
    (utf16 text).flatMap escapeUnit = utf16 (text.flatMap formatCharacter) := by
  rw [utf16, utf16, flatMap_assoc, flatMap_assoc]
  exact flatMap_congr fun char _ => formatCharacter_utf16 char

theorem cString_utf8 {text : List Char} (no_null : '\x00' ∉ text) : cString (utf8 text) = utf8 text := by
  refine takeWhile_eq_self_iff.mpr fun code listed => ?_
  obtain ⟨char, inside, encoded⟩ := mem_flatMap.mp listed
  rw [bne_iff_ne]
  intro is_null
  rcases mem_utf8EncodeChar encoded with same | large
  · rw [is_null] at same
    have null : char = '\x00' := eq_of_toNat_eq same.symm
    exact no_null (null ▸ inside)
  · rw [is_null] at large
    exact absurd large (by decide)

theorem decimal_range {value : Int} {char : Char} (listed : char ∈ decimal value) :
    45 ≤ char.toNat ∧ char.toNat ≤ 57 := by
  have in_digits : char ∈ Nat.toDigits 10 value.natAbs → 45 ≤ char.toNat ∧ char.toNat ≤ 57 := by
    intro inside
    have bounds := Char.isDigit_iff_toNat.mp (Nat.isDigit_of_mem_toDigits (by decide) (by decide) inside)
    exact ⟨le_trans (by decide) bounds.1, bounds.2⟩
  rw [decimal] at listed
  split at listed
  · rcases mem_cons.mp listed with rfl | digit
    · decide
    · exact in_digits digit
  · exact in_digits listed

theorem decimal_no_null (value : Int) : '\x00' ∉ decimal value := fun listed => absurd (decimal_range listed).1 (by decide)

theorem columnValue_column {value : SqlValue} (no_null : value.NoNull) : columnValue value.column = utf8 value.chars := by
  cases value with
  | null => decide +kernel
  | integer value =>
    rw [columnValue, SqlValue.column]
    simp only
    rw [if_neg (by decide), cString_utf8 (decimal_no_null value), SqlValue.chars]
  | text value =>
    have quoted : utf8 ['"'] = [quote] := by decide
    rw [columnValue, SqlValue.column]
    simp only [if_true]
    rw [formatString, cString_utf8 no_null, utf8_flatMap_formatCharacter, ← quoted, SqlValue.chars]
    simp [utf8]

theorem decimal_utf16 (value : Int) : utf16 (decimal value) = (decimal value).map Json.unit := by
  have all_small : ∀ char ∈ decimal value, utf16Char char = [Json.unit char] := by
    intro char listed
    rw [utf16Char, if_pos (lt_of_le_of_lt (decimal_range listed).2 (by decide)), Json.unit]
  rw [utf16, flatMap_congr all_small, ← map_eq_flatMap]

theorem chars_utf16 (value : SqlValue) : utf16 value.chars = value.units := by
  cases value with
  | null => decide +kernel
  | integer value => exact decimal_utf16 value
  | text value =>
    have quoted : utf16 ['"'] = [Json.quote] := by decide
    rw [SqlValue.units, utf16_flatMap_formatCharacter, ← quoted, SqlValue.chars]
    simp [utf16]

namespace ResultTable

variable (table : ResultTable)

def document : List Char :=
  "ok\r\n".toList ++ body id table.columns (table.rows.map fun row => row.map SqlValue.chars) ++ "\r\n".toList

/-- No name and no text holds the character that ends a string. -/
structure NoNull : Prop where
  columns : ∀ name ∈ table.columns, '\x00' ∉ name
  values : ∀ row ∈ table.rows, ∀ value ∈ row, value.NoNull

theorem text_eq_body :
    table.statement.text = ascii "ok\r\n" ++
      body byte (table.columns.map fun name => cString (utf8 name))
        (table.rows.map fun row => row.map fun value => columnValue value.column) ++ ascii "\r\n" := by
  have start : ascii "ok\r\n\x7b\"columns\":[" = ascii "ok\r\n" ++ columnsWord.map byte := by decide +kernel
  have middle : ascii "],\"values\":[" = valuesWord.map byte := by decide +kernel
  have finish : ascii "]\x7d\r\n" = endWord.map byte ++ ascii "\r\n" := by decide +kernel
  have left : ascii "[" = [byte '['] := by decide +kernel
  have right : ascii "]" = [byte ']'] := by decide +kernel
  have separator : comma = byte ',' := by decide
  have quotes : quote = byte '"' := by decide
  simp only [SqliteStatement.text, columnsText, rowText, statement, body, start, middle, finish, left, right, separator, quotes,
    map_map, Function.comp_def, append_assoc]

theorem searchDatabase_utf8 (no_null : table.NoNull) (some_columns : table.columns ≠ []) :
    searchDatabase (some table.statement) = some (utf8 table.document) := by
  have names_exist : table.statement.columnNames ≠ [] := by simpa [statement] using some_columns
  have names : (table.columns.map fun name => cString (utf8 name)) = table.columns.map utf8 :=
    map_congr_left fun name listed => cString_utf8 (no_null.columns name listed)
  have values : (table.rows.map fun row => row.map fun value => columnValue value.column) =
      (table.rows.map fun row => row.map SqlValue.chars).map fun row => row.map utf8 := by
    rw [map_map]
    refine map_congr_left fun row listed => ?_
    rw [Function.comp_apply, map_map]
    exact map_congr_left fun value inside => columnValue_column (no_null.values row listed value inside)
  have kept : ∀ char ∈ bodyChars, String.utf8EncodeChar (id char) = [byte char] := all_iff_forall_prop.mp (by decide +kernel)
  have start : utf8 "ok\r\n".toList = ascii "ok\r\n" := by decide +kernel
  have finish : utf8 "\r\n".toList = ascii "\r\n" := by decide +kernel
  rw [table.statement.searchDatabase_eq names_exist, table.text_eq_body, names, values, ← start, ← finish, document]
  simp only [utf8, flatMap_append]
  rw [body_flatMap kept]
  rfl

/-- The text that is sent for a table, without what stands around it. -/
def bodyUnits : List UInt16 :=
  body Json.unit (table.columns.map utf16) (table.rows.map fun row => row.map SqlValue.units)

theorem document_utf16 : utf16 table.document = Json.units "ok\r\n" ++ table.bodyUnits ++ Json.units "\r\n" := by
  have kept : ∀ char ∈ bodyChars, utf16Char (id char) = [Json.unit char] := all_iff_forall_prop.mp (by decide +kernel)
  have start : utf16 "ok\r\n".toList = Json.units "ok\r\n" := by decide +kernel
  have finish : utf16 "\r\n".toList = Json.units "\r\n" := by decide +kernel
  have values : ((table.rows.map fun row => row.map SqlValue.chars).map fun row => row.map fun text => text.flatMap utf16Char) =
      table.rows.map fun row => row.map SqlValue.units := by
    rw [map_map]
    refine map_congr_left fun row _ => ?_
    rw [Function.comp_apply, map_map]
    exact map_congr_left fun value _ => chars_utf16 value
  rw [← start, ← finish, bodyUnits, ← values, document]
  simp only [utf16, flatMap_append]
  rw [body_flatMap kept]
  rfl

end ResultTable

/-! ### Reading the body -/

section Reading

variable {format : NumberFormat} {Item : Type} {text : Item → List UInt16} {value : Item → Json format.Number}

def bodyValue (names : List (List UInt16)) (rows : List (List (Json format.Number))) : Json format.Number :=
  .object [(Json.units "columns", .array (names.map .string)), (Json.units "values", .array (rows.map .array))]

theorem body_eq_pair (names : List (List UInt16)) (rows : List (List (List UInt16))) :
    body Json.unit names rows = [Json.unit '{'] ++
      ([Json.quote] ++ (Json.units "columns").flatMap escapeUnit ++ [Json.quote, Json.unit ':'] ++
        ([Json.unit '['] ++ [Json.comma].intercalate (names.map fun name => [Json.quote] ++ name ++ [Json.quote]) ++
          [Json.unit ']']) ++ [Json.comma] ++
      ([Json.quote] ++ (Json.units "values").flatMap escapeUnit ++ [Json.quote, Json.unit ':'] ++
        ([Json.unit '['] ++ [Json.comma].intercalate
          (rows.map fun row => [Json.unit '['] ++ [Json.comma].intercalate row ++ [Json.unit ']']) ++ [Json.unit ']']))) ++
      [Json.unit '}'] := by
  have start : columnsWord.map Json.unit = [Json.unit '{'] ++ [Json.quote] ++ (Json.units "columns").flatMap escapeUnit ++
      [Json.quote, Json.unit ':'] ++ [Json.unit '['] := by decide +kernel
  have middle : valuesWord.map Json.unit = [Json.unit ']'] ++ [Json.comma] ++ [Json.quote] ++
      (Json.units "values").flatMap escapeUnit ++ [Json.quote, Json.unit ':'] ++ [Json.unit '['] := by decide +kernel
  have finish : endWord.map Json.unit = [Json.unit ']'] ++ [Json.unit '}'] := by decide +kernel
  have separator : Json.unit ',' = Json.comma := by decide
  have quotes : Json.unit '"' = Json.quote := by decide
  rw [body, start, middle, finish, separator, quotes]
  simp

theorem body_reads {names : List (List UInt16)} {rows : List (List Item)}
    (plain : ∀ name ∈ names, ∀ code ∈ name, 32 ≤ code ∧ code ≠ Json.quote ∧ code ≠ Json.backslash)
    (reads : ∀ row ∈ rows, ∀ item ∈ row, Reads format (text item) (value item)) :
    Reads format (body Json.unit names (rows.map fun row => row.map text))
      (bodyValue names (rows.map fun row => row.map value)) := by
  have columns : Reads format ([Json.unit '['] ++ [Json.comma].intercalate
      (names.map fun name => [Json.quote] ++ name ++ [Json.quote]) ++ [Json.unit ']']) (.array (names.map .string)) := by
    refine Reads.array fun name listed => ?_
    have unchanged : name.flatMap escapeUnit = name := by
      rw [@flatMap_congr _ _ name escapeUnit fun code => [code], flatMap_singleton']
      intro code inside
      rw [escapeUnit, if_neg (not_or.mpr (plain name listed code inside).2)]
    have string := @Json.Reads.string format name fun code inside => (plain name listed code inside).1
    rwa [unchanged] at string
  have values : Reads format ([Json.unit '['] ++ [Json.comma].intercalate
      ((rows.map fun row => row.map text).map fun row => [Json.unit '['] ++ [Json.comma].intercalate row ++ [Json.unit ']']) ++
        [Json.unit ']']) (.array ((rows.map fun row => row.map value).map .array)) := by
    rw [map_map, map_map]
    exact Reads.array fun row listed => Reads.array (reads row listed)
  rw [body_eq_pair]
  exact Reads.pair (all_iff_forall_prop.mp (by decide +kernel)) (all_iff_forall_prop.mp (by decide +kernel)) columns values

end Reading

end SmartPerf.Query
