import SmartPerf.Query.ResultTable

namespace SmartPerf.Query

open Data List Json

/-! How the workers turn the text of a result into objects. -/

/-- A decoder of bytes, which is right about every text that does not start with a byte order mark. -/
structure TextDecoder where
  decode : List UInt8 → List UInt16
  decode_utf8 : ∀ text : List Char, text.head? ≠ some '\uFEFF' → decode (utf8 text) = utf16 text

/-- What stands behind the first line break, or everything if there is none. -/
def afterFirstLine (text : List UInt16) : List UInt16 := if 10 ∈ text then (text.dropWhile (· != 10)).tail else text

def replaceAll (kind : UInt16 → Bool) (replacement : List UInt16) (text : List UInt16) : List UInt16 :=
  text.flatMap fun code => if kind code then replacement else [code]

def isUnprintable (code : UInt16) : Bool := code < 32 ∨ 126 < code

def isBackslash (code : UInt16) : Bool := code = Json.backslash

/-- The properties of an object; a property that was never set in a row of values is undefined. -/
abbrev JsObject (Number : Type) := List (List UInt16 × Option (Json Number))

section

variable {Number : Type}

/-- Setting this name replaces the prototype of an object, or does nothing, and sets no property. -/
def setProperty (name : List UInt16) (value : Option (Json Number)) (object : JsObject Number) : JsObject Number :=
  if name = units "__proto__" then object else upsert name (fun _ => value) object

def rowObject (columns : List (List UInt16)) (values : List (Json Number)) : JsObject Number :=
  columns.zipIdx.foldl (fun object column => setProperty column.1 values[column.2]? object) []

def columnName : Json Number → Option (List UInt16)
  | .string name => some name
  | _ => none

def rowValues : Json Number → Option (List (Json Number))
  | .array values => some values
  | _ => none

/-- The loops over the rows and the columns; nothing for a text of another shape. -/
def convertRows : Json Number → Option (List (JsObject Number))
  | .object members =>
    match find (units "columns") members, find (units "values") members with
    | some (.array columns), some (.array values) => do
        let columns ← columns.mapM columnName
        let rows ← values.mapM rowValues
        some (rows.map (rowObject columns))
    | _, _ => none
  | _ => none

end

variable (decoder : TextDecoder) (format : NumberFormat)

namespace TraceWorker

/-- Nothing stands for an exception, which is posted and answered with no rows. -/
def convertJSON (arr : List UInt8) : Option (List (JsObject format.Number)) :=
  let str := afterFirstLine (decoder.decode arr)
  if str = [] then some []
  else
    let tansStr := replaceAll (fun code => code = 9 ∨ code = 13 ∨ code = 10) [] str
    let printable := replaceAll isUnprintable (units "?") tansStr
    ((parse format tansStr).orElse fun _ =>
      (parse format printable).orElse fun _ =>
        parse format (replaceAll isBackslash (units "\\\\") printable)).bind convertRows

end TraceWorker

namespace ProcedureLogicWorkerCommon

def translateJsonString (str : List UInt16) : List UInt16 :=
  replaceAll isBackslash (units "\\\\")
    (replaceAll (fun code => code = 9 ∨ code = unit '|' ∨ code = 13 ∨ code = 10) [] str)

def convertJSON (arrBuf : List UInt8) : Option (List (JsObject format.Number)) :=
  let string := afterFirstLine (decoder.decode arrBuf)
  if string = [] then some []
  else
    let tansStr := translateJsonString string
    ((parse format tansStr).orElse fun _ =>
      parse format (replaceAll isUnprintable (units "?") tansStr)).bind convertRows

end ProcedureLogicWorkerCommon

/-! ### The rows of a table -/

variable {decoder format} {Number : Type}

theorem mapM_map_some {Item Other : Type} {change : Item → Other} {get : Other → Option Item}
    (gets : ∀ item, get (change item) = some item) (items : List Item) : (items.map change).mapM get = some items := by
  induction items with
  | nil => rfl
  | cons item rest ih =>
    rw [map_cons, mapM_cons, gets item, ih]
    rfl

theorem convertRows_bodyValue (names : List (List UInt16)) (rows : List (List (Json format.Number))) :
    convertRows (bodyValue names rows) = some (rows.map (rowObject names)) := by
  have distinct : units "columns" ≠ units "values" := by decide +kernel
  have columns := mapM_map_some (fun name => (rfl : @columnName format.Number (.string name) = some name)) names
  have values := mapM_map_some (fun row => (rfl : @rowValues format.Number (.array row) = some row)) rows
  rw [bodyValue, convertRows, find_cons_of_eq rfl, find_cons_of_ne distinct, find_cons_of_eq rfl]
  simp [columns, values]

theorem rowObject_eq_upsertAll (columns : List (List UInt16)) (values : List (Json Number)) :
    rowObject columns values = upsertAll Prod.fst (fun column _ => values[column.2]?)
      (columns.zipIdx.filter fun column => column.1 ≠ units "__proto__") [] := by
  rw [rowObject, upsertAll, foldl_filter]
  simp [setProperty]

variable {columns : List (List UInt16)}

variable {values : List (Json Number)}

theorem keys_rowObject {property : List UInt16 × Option (Json Number)}
    (listed : property ∈ rowObject columns values) : property.1 ∈ columns := by
  have key : property.1 ∈ (rowObject columns values).map Prod.fst := mem_map_of_mem listed
  rw [rowObject_eq_upsertAll, mem_keys_upsertAll] at key
  rcases key with absent | ⟨column, inside, same⟩
  · exact absurd absent not_mem_nil
  · exact same ▸ fst_mem_of_mem_zipIdx (mem_of_mem_filter inside)

theorem rowObject_eq_zip (distinct : columns.Nodup)
    (no_proto : units "__proto__" ∉ columns) (length : values.length = columns.length) :
    rowObject columns values = (columns.zip values).map fun column => (column.1, some column.2) := by
  have all : (columns.zipIdx.filter fun column => column.1 ≠ units "__proto__") = columns.zipIdx := by
    refine filter_eq_self.mpr fun column listed => decide_eq_true fun same => no_proto ?_
    exact same ▸ fst_mem_of_mem_zipIdx listed
  have keys : (columns.zipIdx.map Prod.fst).Nodup := by rwa [zipIdx_map_fst]
  rw [rowObject_eq_upsertAll, all, upsertAll_of_fresh keys fun _ _ => not_mem_nil]
  refine ext_getElem (by simp [length]) fun index inside _ => ?_
  simp

def SqlValue.jsValue (format : NumberFormat) : SqlValue → Json format.Number
  | .null => .null
  | .integer value => .number (format.ofInt value)
  | .text value => .string (utf16 value)

def ResultTable.keyedRows (format : NumberFormat) (table : ResultTable) : List (JsObject format.Number) :=
  table.rows.map fun row => (table.columns.zip row).map fun column => (utf16 column.1, some (column.2.jsValue format))

/-- A name that needs no escaping and is a property like any other. -/
structure PlainName (name : List Char) : Prop where
  visible : ∀ char ∈ name, 32 ≤ char.toNat
  unescaped : '"' ∉ name ∧ '\\' ∉ name
  no_proto : name ≠ "__proto__".toList

/-- A value that JSON can carry: an integer that is exact as a number, or a text without control characters. -/
def SqlValue.Exact : SqlValue → Prop
  | .null => True
  | .integer value => value.natAbs < 2 ^ 53
  | .text value => ∀ char ∈ value, 32 ≤ char.toNat

structure ResultTable.Sendable (table : ResultTable) : Prop where
  names : ∀ name ∈ table.columns, PlainName name
  distinct : table.columns.Nodup
  values : ∀ row ∈ table.rows, ∀ value ∈ row, value.Exact

variable {text : List Char}

theorem visible_utf16 (visible : ∀ char ∈ text, 32 ≤ char.toNat) : ∀ code ∈ utf16 text, 32 ≤ code := by
  intro code listed
  obtain ⟨char, inside, encoded⟩ := mem_flatMap.mp listed
  have large := visible char inside
  refine UInt16.le_iff_toNat_le.mpr ?_
  have limit : (32 : UInt16).toNat = 32 := by decide
  rcases mem_utf16Char encoded with same | beyond
  · omega
  · omega

theorem mem_utf16_iff {text : List Char} {char : Char} (ascii : char.toNat < 128) : unit char ∈ utf16 text ↔ char ∈ text := by
  have small : (unit char).toNat = char.toNat := toNat_toUInt16 (by omega)
  refine ⟨fun listed => ?_, fun inside => mem_flatMap.mpr ⟨char, inside, ?_⟩⟩
  · obtain ⟨other, inside, encoded⟩ := mem_flatMap.mp listed
    rcases mem_utf16Char encoded with same | beyond
    · have is_other : other = char := eq_of_toNat_eq (by omega)
      exact is_other ▸ inside
    · omega
  · rw [utf16Char, if_pos (by omega)]
    exact mem_singleton_self _

variable {value : SqlValue}

theorem SqlValue.Exact.reads (exact : value.Exact) :
    Reads format value.units (value.jsValue format) := by
  cases value with
  | null => exact Reads.null
  | integer value => exact Reads.integer exact
  | text value => exact Reads.string (visible_utf16 exact)

theorem PlainName.units {name : List Char} (plain : PlainName name) :
    ∀ code ∈ utf16 name, 32 ≤ code ∧ code ≠ Json.quote ∧ code ≠ Json.backslash := by
  intro code listed
  refine ⟨visible_utf16 plain.visible code listed, ?_, ?_⟩
  · rintro rfl
    exact plain.unescaped.1 ((@mem_utf16_iff name '"' (by decide)).mp listed)
  · rintro rfl
    exact plain.unescaped.2 ((@mem_utf16_iff name '\\' (by decide)).mp listed)

theorem SqlValue.Exact.noNull (exact : value.Exact) : value.NoNull := by
  cases value with
  | null => trivial
  | integer value => trivial
  | text value => exact fun null => absurd (exact _ null) (by decide)

/-! ### The text that is parsed -/

theorem replaceAll_append (kind : UInt16 → Bool) (replacement text other : List UInt16) :
    replaceAll kind replacement (text ++ other) = replaceAll kind replacement text ++ replaceAll kind replacement other :=
  flatMap_append

variable {kind : UInt16 → Bool}

theorem replaceAll_eq_self {text : List UInt16} (kept : ∀ code ∈ text, kind code = false)
    (replacement : List UInt16) : replaceAll kind replacement text = text := by
  have same : ∀ code ∈ text, (if kind code = true then replacement else [code]) = [code] := by
    intro code listed
    rw [kept code listed, if_neg (by decide)]
  rw [replaceAll, flatMap_congr same, flatMap_singleton']

theorem replaceAll_body (kept : ∀ char ∈ bodyChars, kind (unit char) = false)
    (replacement : List UInt16) (names : List (List UInt16)) (rows : List (List (List UInt16))) :
    replaceAll kind replacement (body unit names rows) =
      body unit (names.map (replaceAll kind replacement)) (rows.map fun row => row.map (replaceAll kind replacement)) := by
  refine body_flatMap (fun char listed => ?_) names rows
  rw [kept char listed, if_neg (by decide)]

theorem visible_units (exact : value.Exact) : ∀ code ∈ value.units, 32 ≤ code := by
  cases value with
  | null => exact all_iff_forall_prop.mp (by decide +kernel)
  | integer value =>
    intro code listed
    rw [SqlValue.units, ← decimal_utf16] at listed
    exact visible_utf16 (fun char inside => le_trans (by decide) (decimal_range inside).1) code listed
  | text value =>
    intro code listed
    rw [SqlValue.units, utf16_flatMap_formatCharacter] at listed
    have visible : ∀ char ∈ value.flatMap formatCharacter, 32 ≤ char.toNat := by
      intro char inside
      obtain ⟨source, listed_source, formatted⟩ := mem_flatMap.mp inside
      rw [formatCharacter] at formatted
      split at formatted
      · rcases mem_cons.mp formatted with rfl | same
        · decide
        · rw [mem_singleton.mp same]
          exact exact source listed_source
      · rw [mem_singleton.mp formatted]
        exact exact source listed_source
    rw [mem_append, mem_append] at listed
    rcases listed with (quote | inside) | quote
    · rw [mem_singleton.mp quote]
      decide
    · exact visible_utf16 visible code inside
    · rw [mem_singleton.mp quote]
      decide

namespace ResultTable.Sendable

variable {table : ResultTable}

theorem noNull (sendable : table.Sendable) : table.NoNull where
  columns name listed null := absurd ((sendable.names name listed).visible _ null) (by decide)
  values row listed value inside := (sendable.values row listed value inside).noNull

theorem afterFirstLine_decode (sendable : table.Sendable) (some_columns : table.columns ≠ []) :
    ∃ bytes, searchDatabase (some table.statement) = some bytes ∧
      afterFirstLine (decoder.decode bytes) = table.bodyUnits ++ units "\r\n" := by
  refine ⟨utf8 table.document, table.searchDatabase_utf8 sendable.noNull some_columns, ?_⟩
  have start : table.document.head? = some 'o' := by
    rfl
  have line : units "ok\r\n" = [111, 107, 13, 10] := by decide
  rw [decoder.decode_utf8 _ (by rw [start]; decide), table.document_utf16, line]
  rfl

theorem bodyUnits_ne_nil (table : ResultTable) : table.bodyUnits ++ units "\r\n" ≠ [] := by
  have ending : units "\r\n" ≠ [] := by decide
  intro empty
  exact ending (append_eq_nil_iff.mp empty).2

theorem rowObject_eq (sendable : table.Sendable) {row : List SqlValue} (listed : row ∈ table.rows)
    (value : SqlValue → Json Number) :
    rowObject (table.columns.map utf16) (row.map value) =
      (table.columns.zip row).map fun column => (utf16 column.1, some (value column.2)) := by
  rw [rowObject_eq_zip (sendable.distinct.map utf16_injective), zip_map, map_map]
  · rfl
  · intro is_name
    obtain ⟨name, inside, same⟩ := mem_map.mp is_name
    exact (sendable.names name inside).no_proto (utf16_injective same)
  · rw [length_map, length_map, table.row_length row listed]

end ResultTable.Sendable

theorem ResultTable.searchDatabase_of_no_columns {table : ResultTable} (no_columns : table.columns = []) :
    searchDatabase (some table.statement) = some [] ∧ decoder.decode [] = [] :=
  ⟨if_pos (map_eq_nil_iff.mpr no_columns), decoder.decode_utf8 [] (by decide)⟩

/-- The rows reach the main worker unchanged. -/
theorem TraceWorker.convertJSON_searchDatabase (decoder : TextDecoder) (format : NumberFormat) (table : ResultTable)
    (sendable : table.Sendable) :
    (searchDatabase (some table.statement)).bind (TraceWorker.convertJSON decoder format) = some (table.keyedRows format) := by
  by_cases some_columns : table.columns = []
  · obtain ⟨sent, no_text⟩ := @ResultTable.searchDatabase_of_no_columns decoder table some_columns
    rw [sent, ResultTable.keyedRows, table.no_columns some_columns, Option.bind_some, convertJSON, no_text]
    rfl
  · obtain ⟨bytes, sent, line⟩ := @ResultTable.Sendable.afterFirstLine_decode decoder table sendable some_columns
    have no_breaks : ∀ code : UInt16, 32 ≤ code → decide (code = 9 ∨ code = 13 ∨ code = 10) = false := by
      intro code visible
      refine decide_eq_false ?_
      rintro (rfl | rfl | rfl)
      · exact absurd visible (by decide)
      · exact absurd visible (by decide)
      · exact absurd visible (by decide)
    have kept : ∀ char ∈ bodyChars, decide (unit char = 9 ∨ unit char = 13 ∨ unit char = 10) = false := by
      exact all_iff_forall_prop.mp (by decide +kernel)
    have names : (table.columns.map utf16).map (replaceAll (fun code => code = 9 ∨ code = 13 ∨ code = 10) []) =
        table.columns.map utf16 := by
      rw [map_map]
      refine map_congr_left fun name listed => ?_
      exact replaceAll_eq_self (fun code inside => no_breaks code ((sendable.names name listed).units code inside).1) []
    have values : (table.rows.map fun row => row.map SqlValue.units).map
        (fun row => row.map (replaceAll (fun code => code = 9 ∨ code = 13 ∨ code = 10) [])) =
        table.rows.map fun row => row.map SqlValue.units := by
      rw [map_map]
      refine map_congr_left fun row listed => ?_
      rw [Function.comp_apply, map_map]
      refine map_congr_left fun value inside => ?_
      exact replaceAll_eq_self (fun code is_unit => no_breaks code (visible_units (sendable.values row listed value inside) code is_unit)) []
    have ending : replaceAll (fun code => code = 9 ∨ code = 13 ∨ code = 10) [] (units "\r\n") = [] := by decide
    have reads := @body_reads format SqlValue SqlValue.units (SqlValue.jsValue format) (table.columns.map utf16) table.rows
      (fun name listed => by
        obtain ⟨source, inside, rfl⟩ := mem_map.mp listed
        exact (sendable.names source inside).units)
      fun row listed value inside => (sendable.values row listed value inside).reads
    rw [sent, Option.bind_some, convertJSON, line]
    simp only
    rw [if_neg (ResultTable.Sendable.bodyUnits_ne_nil table), replaceAll_append, ending, append_nil, ResultTable.bodyUnits,
      replaceAll_body kept, names, values, reads.parse]
    rw [Option.orElse_some, Option.bind_some, convertRows_bodyValue, ResultTable.keyedRows, map_map]
    refine congrArg some (map_congr_left fun row listed => ?_)
    exact sendable.rowObject_eq listed _

def strictDecoder : TextDecoder where
  decode bytes :=
    match bytes.toByteArray.utf8Decode? with
    | some chars => utf16 (if chars.toList.head? = some '\uFEFF' then chars.toList.tail else chars.toList)
    | none => []
  decode_utf8 text no_mark := by
    have decoded : (utf8 text).toByteArray.utf8Decode? = some text.toArray := utf8Decode?_utf8Encode
    rw [decoded]
    simp only
    rw [if_neg no_mark]

def literalFormat : NumberFormat where
  Number := Bool × Nat × Int
  read negative digits exponent := (negative, digits, exponent)
  ofInt value := (decide (value < 0), value.natAbs, 0)
  read_exact _ _ := rfl
  ofInt_inj value other _ _ same := by
    have signs : decide (value < 0) = decide (other < 0) := congrArg Prod.fst same
    have digits : value.natAbs = other.natAbs := congrArg (fun number : Bool × Nat × Int => number.2.1) same
    rw [decide_eq_decide] at signs
    omega

private def sampleTable (text : List Char) : ResultTable where
  columns := ["id".toList, "name".toList]
  rows := [[.integer (-7), .text text], [.null, .null]]
  row_length := by simp
  no_columns := by simp

theorem sampleColumns_plain : ∀ name ∈ ["id".toList, "name".toList], PlainName name := by
  intro name listed
  rcases mem_pair.mp listed with rfl | rfl
  · exact ⟨all_iff_forall_prop.mp (by decide +kernel), by decide +kernel, by decide +kernel⟩
  · exact ⟨all_iff_forall_prop.mp (by decide +kernel), by decide +kernel, by decide +kernel⟩

theorem sampleColumns_nodup : ["id".toList, "name".toList].Nodup := by decide +kernel

theorem sampleTable_sendable (visible : ∀ char ∈ text, 32 ≤ char.toNat) : (sampleTable text).Sendable where
  names := sampleColumns_plain
  distinct := sampleColumns_nodup
  values row listed value inside := by
    have is_row : row = [.integer (-7), .text text] ∨ row = [.null, .null] := by simpa [sampleTable] using listed
    rcases is_row with rfl | rfl
    · rcases mem_pair.mp inside with rfl | rfl
      · exact (by decide : (-7 : Int).natAbs < 2 ^ 53)
      · exact visible
    · rcases mem_pair.mp inside with rfl | rfl
      · trivial
      · trivial

/-- A text with quotes, backslashes and braces. -/
theorem TraceWorker.convertJSON_searchDatabase_quotes :
    (searchDatabase (some (sampleTable "\"\\\x7b|\x7d".toList).statement)).bind
      (TraceWorker.convertJSON strictDecoder literalFormat) =
        some ((sampleTable "\"\\\x7b|\x7d".toList).keyedRows literalFormat) :=
  TraceWorker.convertJSON_searchDatabase strictDecoder literalFormat _ (sampleTable_sendable (all_iff_forall_prop.mp (by decide +kernel)))

end SmartPerf.Query
