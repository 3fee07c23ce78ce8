import SmartPerf.Data.Filling

namespace SmartPerf.Query

open Data List

/-! The texts in which `TraceDataDB` returns the result of a query, as a whole and piece by piece. -/

/-- What `sqlite3_column_type` tells about a column of a row. -/
inductive ColumnType where
  | integer
  | float
  | text
  | blob
  | null
deriving Repr, DecidableEq

/-- What the calls for one column of a row return. -/
structure SqliteColumn where
  /-- The string of `sqlite3_column_text`, or nothing for a null pointer. -/
  columnText : Option (List UInt8)
  columnType : ColumnType
deriving Repr, DecidableEq

/-- A prepared statement with the rows it steps through. -/
structure SqliteStatement where
  columnNames : List (List UInt8)
  rows : List (List SqliteColumn)
  row_length : ∀ row ∈ rows, row.length = columnNames.length

inductive SendFlag where
  | sendContinue
  | sendFinish
deriving Repr, DecidableEq

def ascii (text : String) : List UInt8 := text.toList.map fun char => char.toNat.toUInt8

def quote : UInt8 := 34

def backslash : UInt8 := 92

def comma : UInt8 := 44

def cString (text : List UInt8) : List UInt8 := text.takeWhile (· != 0)

def formatChar (char : UInt8) : List UInt8 := if char = backslash ∨ char = quote then [backslash, char] else [char]

def formatString (text : List UInt8) : List UInt8 := [quote] ++ (cString text).flatMap formatChar ++ [quote]

def popBack (text : List UInt8) : Option (List UInt8) := if text = [] then none else some text.dropLast

def columnString (column : SqliteColumn) : List UInt8 :=
  match column.columnText with
  | none => ascii "null,"
  | some text => (if column.columnType = .text then formatString text else cString text) ++ [comma]

def getRowString (row : List SqliteColumn) : Option (List UInt8) :=
  (popBack (ascii "[" ++ row.flatMap columnString)).map (· ++ ascii "]")

def columnsString (columnNames : List (List UInt8)) : Option (List UInt8) :=
  (popBack (ascii "ok\r\n\x7b\"columns\":[" ++ columnNames.flatMap fun name => [quote] ++ cString name ++ ascii "\",")).map
    (· ++ ascii "],\"values\":[")

def appendRows : List UInt8 → List (List SqliteColumn) → Option (List UInt8)
  | res, [] => some res
  | res, row :: rows => do
      let rowString ← getRowString row
      appendRows (res ++ rowString ++ [comma]) rows

/-- The result as a whole; a statement that was not prepared and one without columns give the empty text. -/
def searchDatabase : Option SqliteStatement → Option (List UInt8)
  | none => some []
  | some statement =>
    if statement.columnNames = [] then some []
    else do
      let res ← columnsString statement.columnNames
      let res ← appendRows res statement.rows
      let res ← if statement.rows ≠ [] then popBack res else some res
      some (res ++ ascii "]\x7d\r\n")

/-- The loop over the rows that sends what it has as soon as this is `onceMaxMb` long. -/
def sendRows (onceMaxMb : Nat) : List UInt8 → List (List SqliteColumn) → Option (List (List UInt8 × SendFlag) × List UInt8)
  | res, [] => some ([], res)
  | res, row :: rows => do
      let rowString ← getRowString row
      let res := res ++ rowString ++ [comma]
      if onceMaxMb ≤ res.length then
        let (sent, rest) ← sendRows onceMaxMb [] rows
        some ((res, .sendContinue) :: sent, rest)
      else sendRows onceMaxMb res rows

/-- The pieces of the result, in the order in which the callback gets them. -/
def searchDatabaseCallback (onceMaxMb : Nat) : Option SqliteStatement → Option (List (List UInt8 × SendFlag))
  | none => some [(ascii "false\r\n", .sendFinish)]
  | some statement =>
    if statement.columnNames = [] then some [(ascii "ok\r\n", .sendFinish)]
    else do
      let res ← columnsString statement.columnNames
      let (sent, res) ← sendRows onceMaxMb res statement.rows
      let res ← if statement.rows ≠ [] then popBack res else some res
      some (sent ++ [(res ++ ascii "]\x7d\r\n", .sendFinish)])

/-! ### The texts of a table -/

theorem popBack_concat (text : List UInt8) (char : UInt8) : popBack (text ++ [char]) = some text := by
  rw [popBack, if_neg (by simp), dropLast_concat]

def columnValue (column : SqliteColumn) : List UInt8 :=
  match column.columnText with
  | none => ascii "null"
  | some text => if column.columnType = .text then formatString text else cString text

variable (column : SqliteColumn)

theorem columnString_eq : columnString column = columnValue column ++ [comma] := by
  cases text : column.columnText with
  | none =>
    rw [columnString, columnValue, text]
    rfl
  | some text' => rw [columnString, columnValue, text]

/-- Items with a separator behind each are the items with a separator between them, and one more at the end. -/
theorem flatMap_concat_eq_intercalate {Item : Type} (text : Item → List UInt8) (separator : UInt8) {items : List Item}
    (some_items : items ≠ []) :
    (items.flatMap fun item => text item ++ [separator]) = [separator].intercalate (items.map text) ++ [separator] := by
  induction items with
  | nil => exact absurd rfl some_items
  | cons item rest ih =>
    cases rest with
    | nil => simp
    | cons next others =>
      rw [flatMap_cons, ih (cons_ne_nil _ _)]
      simp

variable {row : List SqliteColumn}

theorem getRowString_eq (nonempty : row ≠ []) :
    getRowString row = some (ascii "[" ++ [comma].intercalate (row.map columnValue) ++ ascii "]") := by
  have strings : row.flatMap columnString = row.flatMap fun column => columnValue column ++ [comma] :=
    flatMap_congr fun column _ => columnString_eq column
  rw [getRowString, strings, flatMap_concat_eq_intercalate _ _ nonempty, ← append_assoc, popBack_concat,
    Option.map_some]

def rowText (row : List SqliteColumn) : List UInt8 := ascii "[" ++ [comma].intercalate (row.map columnValue) ++ ascii "]"

def columnsText (columnNames : List (List UInt8)) : List UInt8 :=
  ascii "ok\r\n\x7b\"columns\":[" ++ [comma].intercalate (columnNames.map fun name => [quote] ++ cString name ++ [quote]) ++
    ascii "],\"values\":["

variable {columnNames : List (List UInt8)}

theorem columnsString_eq (nonempty : columnNames ≠ []) :
    columnsString columnNames = some (columnsText columnNames) := by
  have strings : (columnNames.flatMap fun name => [quote] ++ cString name ++ ascii "\",") =
      columnNames.flatMap fun name => ([quote] ++ cString name ++ [quote]) ++ [comma] := by
    refine flatMap_congr fun name _ => ?_
    rw [append_assoc _ [quote] [comma]]
    rfl
  rw [columnsString, strings, flatMap_concat_eq_intercalate _ _ nonempty, ← append_assoc, popBack_concat,
    Option.map_some, columnsText]

def rowsText (rows : List (List SqliteColumn)) : List UInt8 := rows.flatMap fun row => rowText row ++ [comma]

theorem rowsText_cons (row : List SqliteColumn) (rows : List (List SqliteColumn)) :
    rowsText (row :: rows) = rowText row ++ [comma] ++ rowsText rows := rfl

variable {rows : List (List SqliteColumn)}

theorem rowsText_eq_concat (some_rows : rows ≠ []) :
    rowsText rows = [comma].intercalate (rows.map rowText) ++ [comma] :=
  flatMap_concat_eq_intercalate _ _ some_rows

theorem appendRows_eq (res : List UInt8) (nonempty : ∀ row ∈ rows, row ≠ []) :
    appendRows res rows = some (res ++ rowsText rows) := by
  induction rows generalizing res with
  | nil => rw [appendRows, rowsText, flatMap_nil, append_nil]
  | cons row rows ih =>
    have here : getRowString row = some (rowText row) := getRowString_eq (nonempty row mem_cons_self)
    rw [appendRows, here, rowsText_cons, ← append_assoc, ← append_assoc]
    exact ih _ (forall_mem_of_forall_mem_cons nonempty)

namespace SqliteStatement

variable (statement : SqliteStatement)

theorem row_ne_nil (nonempty : statement.columnNames ≠ []) : ∀ row ∈ statement.rows, row ≠ [] := by
  intro row listed empty
  have length := statement.row_length row listed
  rw [empty] at length
  exact nonempty (length_eq_zero_iff.mp length.symm)

def text : List UInt8 :=
  columnsText statement.columnNames ++ [comma].intercalate (statement.rows.map rowText) ++ ascii "]\x7d\r\n"

theorem searchDatabase_eq (nonempty : statement.columnNames ≠ []) : searchDatabase (some statement) = some statement.text := by
  simp only [searchDatabase, if_neg nonempty, columnsString_eq nonempty, Option.bind_eq_bind, Option.bind_some,
    appendRows_eq _ (statement.row_ne_nil nonempty)]
  by_cases some_rows : statement.rows = []
  · simp [some_rows, rowsText, text]
  · rw [if_pos some_rows, rowsText_eq_concat some_rows, ← append_assoc, popBack_concat, Option.bind_some, text]

end SqliteStatement

/-! ### The pieces of a table -/

theorem sendRows_spec (onceMaxMb : Nat) (res : List UInt8)
    (nonempty : ∀ row ∈ rows, row ≠ []) :
    ∃ sent rest, sendRows onceMaxMb res rows = some (sent, rest) ∧ (∀ piece ∈ sent, piece.2 = SendFlag.sendContinue) ∧
      sent.flatMap Prod.fst ++ rest = res ++ rowsText rows ∧
      rest.length = heldAfter onceMaxMb res.length (rows.map fun row => (rowText row).length + 1) := by
  induction rows generalizing res with
  | nil =>
    refine ⟨[], res, rfl, nofun, ?_, rfl⟩
    rw [flatMap_nil, rowsText, flatMap_nil, append_nil, nil_append]
  | cons row rows ih =>
    have here : getRowString row = some (rowText row) := getRowString_eq (nonempty row mem_cons_self)
    have others : ∀ other ∈ rows, other ≠ [] := forall_mem_of_forall_mem_cons nonempty
    have length : (res ++ rowText row ++ [comma]).length = res.length + ((rowText row).length + 1) := by
      simp only [length_append, length_singleton]
      omega
    rw [sendRows, here, rowsText_cons, map_cons, heldAfter]
    simp only [Option.bind_eq_bind, Option.bind_some]
    rw [length]
    by_cases full : onceMaxMb ≤ res.length + ((rowText row).length + 1)
    · obtain ⟨sent, rest, sends, continues, joined, held⟩ := ih [] others
      rw [if_pos full, if_pos full, sends]
      refine ⟨(res ++ rowText row ++ [comma], .sendContinue) :: sent, rest, rfl, ?_, ?_, held⟩
      · intro piece listed
        rcases mem_cons.mp listed with rfl | later
        · rfl
        · exact continues piece later
      · rw [flatMap_cons, append_assoc, joined]
        simp
    · obtain ⟨sent, rest, sends, continues, joined, held⟩ := ih (res ++ rowText row ++ [comma]) others
      rw [if_neg full, if_neg full, sends]
      refine ⟨sent, rest, rfl, continues, ?_, by rw [held, length]⟩
      rw [joined]
      simp

/-- The pieces together are the whole text, only the last one ends the result, and no character is removed from an empty
string on the way. -/
def StreamsWhole (onceMaxMb : Nat) (statement : SqliteStatement) : Prop :=
  ∃ sent last whole, searchDatabaseCallback onceMaxMb (some statement) = some (sent ++ [(last, .sendFinish)]) ∧
    searchDatabase (some statement) = some whole ∧ (∀ piece ∈ sent, piece.2 = SendFlag.sendContinue) ∧
    sent.flatMap Prod.fst ++ last = whole

theorem streamsWhole_iff_heldAfter (onceMaxMb : Nat) (statement : SqliteStatement) (nonempty : statement.columnNames ≠ []) :
    StreamsWhole onceMaxMb statement ↔ (statement.rows ≠ [] →
      heldAfter onceMaxMb (columnsText statement.columnNames).length
        (statement.rows.map fun row => (rowText row).length + 1) ≠ 0) := by
  obtain ⟨sent, rest, sends, continues, joined, held⟩ :=
    sendRows_spec onceMaxMb (columnsText statement.columnNames) (statement.row_ne_nil nonempty)
  have whole := statement.searchDatabase_eq nonempty
  rw [StreamsWhole, ← held, searchDatabaseCallback, if_neg nonempty, columnsString_eq nonempty]
  simp only [Option.bind_eq_bind, Option.bind_some, sends]
  by_cases some_rows : statement.rows = []
  · rw [if_neg (not_not.mpr some_rows)]
    refine ⟨fun _ rows => absurd some_rows rows, fun _ => ⟨sent, rest ++ ascii "]\x7d\r\n", _, rfl, whole, continues, ?_⟩⟩
    rw [← append_assoc, joined, SqliteStatement.text, some_rows]
    rfl
  · rw [if_pos some_rows]
    rcases eq_nil_or_concat' rest with rfl | ⟨front, char, rfl⟩
    · -- the last row has been sent with its separator
      refine ⟨fun streams => ?_, fun nonempty => absurd rfl (nonempty some_rows)⟩
      obtain ⟨_, _, _, runs, -⟩ := streams
      cases runs
    · rw [popBack_concat]
      refine ⟨fun _ _ => by simp, fun _ => ⟨sent, front ++ ascii "]\x7d\r\n", _, rfl, whole, continues, ?_⟩⟩
      rw [rowsText_eq_concat some_rows, ← append_assoc, ← append_assoc] at joined
      rw [← append_assoc, SqliteStatement.text, (append_inj' joined rfl).1]

def columnSize (column : SqliteColumn) : Nat :=
  match column.columnText with
  | none => 4
  | some text =>
    if column.columnType = .text then
      (cString text).length + (cString text).countP (fun char => char = backslash ∨ char = quote) + 2
    else (cString text).length

/-- The number of characters of a row and the separator behind it. -/
def rowSize (row : List SqliteColumn) : Nat := (row.map fun column => columnSize column + 1).sum + 2

def columnsSize (columnNames : List (List UInt8)) : Nat := (columnNames.map fun name => (cString name).length + 3).sum + 27

theorem length_formatChars (text : List UInt8) :
    (text.flatMap formatChar).length = text.length + text.countP fun char => char = backslash ∨ char = quote := by
  induction text with
  | nil => rfl
  | cons char rest ih =>
    rw [flatMap_cons, length_append, ih, length_cons, countP_cons, formatChar]
    by_cases special : char = backslash ∨ char = quote
    · rw [if_pos special, if_pos (decide_eq_true special), length_cons, length_singleton]
      omega
    · rw [if_neg special, if_neg (by simpa using special), length_singleton]
      omega

theorem length_columnValue : (columnValue column).length = columnSize column := by
  cases text : column.columnText with
  | none =>
    rw [columnValue, columnSize, text]
    rfl
  | some text' =>
    rw [columnValue, columnSize, text]
    simp only
    split
    · simp only [formatString, length_append, length_formatChars, length_singleton]
      omega
    · rfl

theorem length_intercalate_add_one {texts : List (List UInt8)} (separator : UInt8) (some_texts : texts ≠ []) :
    ([separator].intercalate texts).length + 1 = (texts.map fun text => text.length + 1).sum := by
  have joined := congrArg List.length (flatMap_concat_eq_intercalate id separator some_texts)
  rw [map_id, length_append, length_singleton] at joined
  rw [← joined]
  simp

theorem length_rowText (nonempty : row ≠ []) : (rowText row).length + 1 = rowSize row := by
  have joined := @length_intercalate_add_one (row.map columnValue) comma (by simpa using nonempty)
  have sizes : (row.map columnValue).map (fun text => text.length + 1) = row.map fun column => columnSize column + 1 := by
    rw [map_map]
    exact map_congr_left fun column _ => congrArg (· + 1) (length_columnValue column)
  rw [sizes] at joined
  have bracket : (ascii "[").length = 1 ∧ (ascii "]").length = 1 := by decide
  rw [rowText, rowSize, length_append, length_append]
  omega

theorem length_columnsText (nonempty : columnNames ≠ []) :
    (columnsText columnNames).length = columnsSize columnNames := by
  have joined := @length_intercalate_add_one (columnNames.map fun name => [quote] ++ cString name ++ [quote]) comma
    (by simpa using nonempty)
  have sizes : (columnNames.map fun name => [quote] ++ cString name ++ [quote]).map (fun text => text.length + 1) =
      columnNames.map fun name => (cString name).length + 3 := by
    rw [map_map]
    refine map_congr_left fun name _ => ?_
    simp only [Function.comp_apply, length_append, length_singleton]
    omega
  rw [sizes] at joined
  have around : (ascii "ok\r\n\x7b\"columns\":[").length = 16 ∧ (ascii "],\"values\":[").length = 12 := by decide
  rw [columnsText, columnsSize, length_append, length_append]
  omega

/-- What is added to the buffer by the rows, the text in front of them counted with the first row. -/
def addedSizes (statement : SqliteStatement) : List Nat :=
  match statement.rows with
  | [] => []
  | row :: rows => (columnsSize statement.columnNames + rowSize row) :: rows.map rowSize

/-- The pieces are the whole text unless the rows fill the buffer up with the last of them: then the separator behind that
row is sent, and is missing in the buffer from which it should be removed. -/
theorem streamsWhole_iff (onceMaxMb : Nat) (positive : 0 < onceMaxMb) (statement : SqliteStatement)
    (some_columns : statement.columnNames ≠ []) :
    StreamsWhole onceMaxMb statement ↔ statement.rows = [] ∨ ¬ FillsUp onceMaxMb (addedSizes statement) := by
  rw [streamsWhole_iff_heldAfter onceMaxMb statement some_columns, length_columnsText some_columns]
  have sizes : (statement.rows.map fun row => (rowText row).length + 1) = statement.rows.map rowSize :=
    map_congr_left fun row listed => length_rowText (statement.row_ne_nil some_columns row listed)
  rw [sizes, addedSizes]
  cases statement.rows with
  | nil => simp
  | cons row rows =>
    have some_sizes : ∀ added ∈ rowSize row :: rows.map rowSize, 0 < added := by
      intro added listed
      rw [← map_cons] at listed
      obtain ⟨other, -, rfl⟩ := mem_map.mp listed
      exact Nat.succ_pos _
    rw [map_cons, Ne, Ne, heldAfter_eq_zero_iff positive _ _ _ some_sizes]
    simp

private def sampleStatement (rows : List (List SqliteColumn)) (lengths : ∀ row ∈ rows, row.length = 1) : SqliteStatement :=
  ⟨[ascii "n"], rows, lengths⟩

private def sampleNull : List SqliteColumn := [⟨none, .null⟩]

/-- Two rows, of which the first fills the buffer. -/
theorem streamsWhole_firstRow : StreamsWhole 35 (sampleStatement [sampleNull, sampleNull] (by decide)) := by
  refine (streamsWhole_iff 35 (by decide) _ (by decide)).mpr (.inr fun fills => ?_)
  have held := (@heldAfter_eq_zero_iff 35 (by decide) 31 7 [7] (by decide)).mpr fills
  exact absurd held (by decide)

/-- One row that fills the buffer: a character is removed from an empty string. -/
theorem not_streamsWhole_lastRow :
    searchDatabaseCallback 35 (some (sampleStatement [sampleNull] (by decide))) = none ∧
      ¬ StreamsWhole 35 (sampleStatement [sampleNull] (by decide)) := by
  have removes : searchDatabaseCallback 35 (some (sampleStatement [sampleNull] (by decide))) = none := by decide
  refine ⟨removes, ?_⟩
  intro streams
  obtain ⟨_, _, _, runs, -⟩ := streams
  cases runs

end SmartPerf.Query
