import SmartPerf.Proto.Walk

namespace SmartPerf.Proto

open SmartPerf.Data List ProtoReaderBase

/-! `FindDataArea` over arbitrary bytes. -/

variable {buffer : Buffer} {start dataAreaId : Nat} {fields : List (ReadField × List UInt8)} {last : FieldReading}

/-- Reading on from `next` yields the area again, without end. -/
def Stuck (buffer : Buffer) (area : DataArea) (next : Nat) : Prop :=
  ∀ fuel, readNextLoop buffer (fuel + 1) next = .ok (area, next)

variable {area : DataArea}

theorem stuck_of_abort (parsed : parseOneDataArea buffer start = .ok ⟨.abort, start, area⟩) :
    Stuck buffer area start := by
  intro fuel
  rw [readNextLoop, parsed]
  rfl

/-- `ReadNextDataArea` takes the next complete field, or stays where none can be read. -/
theorem Walk.readNextLoop_eq (walk : Walk buffer start fields last) {fuel : Nat} (enough : buffer.bytes.length - start < fuel) :
    (∃ next, fields = [] ∧ readNextLoop buffer fuel start = .ok (last.leftArea, next) ∧ Stuck buffer last.leftArea next) ∨
      ∃ field rest later, fields = (field, rest) :: later ∧ field.id ≠ 0 ∧
        readNextLoop buffer fuel start = .ok (field.area buffer rest, buffer.bytes.length - rest.length) ∧
        Walk buffer (buffer.bytes.length - rest.length) later last := by
  induction walk generalizing fuel with
  | ends parsed valid =>
    obtain ⟨fuel, rfl⟩ := Nat.exists_eq_add_of_lt enough
    exact .inl ⟨_, rfl, stuck_of_abort parsed _, stuck_of_abort parsed⟩
  | ignored parsed shorter later ih =>
    obtain ⟨fuel, rfl⟩ := Nat.exists_eq_add_of_le' (Nat.one_le_of_lt enough)
    rw [readNextLoop, parsed]
    exact @ih fuel (by omega)
  | complete parsed shorter positive inside later ih =>
    obtain ⟨fuel, rfl⟩ := Nat.exists_eq_add_of_lt enough
    rw [readNextLoop, parsed]
    exact .inr ⟨_, _, _, rfl, positive, rfl, later⟩

theorem readNextDataArea_eq {next : Nat}
    (read : readNextLoop buffer (buffer.bytes.length + 1) start = .ok (area, next)) :
    readNextDataArea ⟨buffer, start⟩ = .ok (area, ⟨buffer, next⟩) := by
  rw [readNextDataArea, read]

/-- A tag that is taken again and again is found or searched for without end. -/
theorem findLoop_stuck {area found : DataArea} {fuel : Nat} (stuck : Stuck buffer area start)
    (valid : area.dataAreaValid = true) (ended : findLoop dataAreaId fuel ⟨buffer, start⟩ = .ok found) :
    found = area := by
  induction fuel with
  | zero => cases ended
  | succ fuel ih =>
    rw [findLoop, readNextDataArea_eq (stuck _)] at ended
    simp only [valid, Bool.not_true, Bool.false_eq_true, if_false] at ended
    split at ended
    · cases ended
      rfl
    · exact ih ended

/-- How the loop of `FindDataArea` ends, by the fields that follow the read address. -/
theorem Walk.findLoop_spec (walk : Walk buffer start fields last) :
    match fields.find? (fun read => decide (read.1.id = dataAreaId)) with
    | some read => ∃ fuel, findLoop dataAreaId fuel ⟨buffer, start⟩ = .ok (read.1.area buffer read.2)
    | none =>
      (last.leftArea.dataAreaValid = true →
        ∀ fuel found, findLoop dataAreaId fuel ⟨buffer, start⟩ = .ok found → found = last.leftArea) ∧
      (last.leftArea.dataAreaValid = false → ∃ fuel, findLoop dataAreaId fuel ⟨buffer, start⟩ = .ok {}) := by
  induction fields generalizing start with
  | nil =>
    obtain ⟨place, -, read, stuck⟩ | ⟨_, _, _, more, -⟩ := walk.readNextLoop_eq (Nat.lt_succ_of_le (Nat.sub_le ..))
    rotate_left
    · cases more
    have taken := readNextDataArea_eq read
    refine ⟨fun isValid fuel found ended => ?_, fun invalid => ⟨1, ?_⟩⟩
    · cases fuel with
      | zero => cases ended
      | succ fuel =>
        rw [findLoop, taken] at ended
        simp only [isValid, Bool.not_true, Bool.false_eq_true, if_false] at ended
        split at ended
        · cases ended
          rfl
        · exact findLoop_stuck stuck isValid ended
    · rw [findLoop, taken]
      simp [invalid]
  | cons read later ih =>
    obtain ⟨_, none, -⟩ | ⟨field, rest, _, same, positive, read, onward⟩ :=
      walk.readNextLoop_eq (Nat.lt_succ_of_le (Nat.sub_le ..))
    · cases none
    cases same
    have taken := readNextDataArea_eq read
    have isValid : (field.area buffer rest).dataAreaValid = true := by
      simpa [DataArea.dataAreaValid, ReadField.area] using positive
    have step : ∀ fuel, findLoop dataAreaId (fuel + 1) ⟨buffer, start⟩ =
        if field.id = dataAreaId then .ok (field.area buffer rest)
        else findLoop dataAreaId fuel ⟨buffer, buffer.bytes.length - rest.length⟩ := by
      intro fuel
      rw [findLoop, taken]
      simp only [isValid, Bool.not_true, Bool.false_eq_true, if_false]
      rfl
    by_cases own : field.id = dataAreaId
    · simp only [find?_cons, own, decide_true]
      exact ⟨1, by rw [step 0, if_pos own]⟩
    · have result := ih onward
      simp only [find?_cons, own, decide_false]
      cases found : later.find? (fun read => decide (read.1.id = dataAreaId)) with
      | some read =>
        rw [found] at result
        obtain ⟨fuel, ended⟩ := result
        exact ⟨fuel + 1, by rw [step, if_neg own, ended]⟩
      | none =>
        rw [found] at result
        refine ⟨fun isValid fuel area ended => ?_, fun invalid => ?_⟩
        · cases fuel with
          | zero => cases ended
          | succ fuel =>
            rw [step, if_neg own] at ended
            exact result.1 isValid fuel area ended
        · obtain ⟨fuel, ended⟩ := result.2 invalid
          exact ⟨fuel + 1, by rw [step, if_neg own, ended]⟩

theorem Walk.leftArea_valid_iff (walk : Walk buffer start fields last) :
    last.leftArea.dataAreaValid = false ↔ last = .nothing := by
  induction walk with
  | ends _ valid => exact valid
  | ignored _ _ _ ih => exact ih
  | complete _ _ _ _ _ ih => exact ih

/-- The search ends, the read address is as before, and the area is invalid or that of the first
complete field with the id. -/
def ProtoReaderBase.FindsComplete (reader : ProtoReaderBase) (dataAreaId : Nat) : Prop :=
  ∃ fuel area, reader.findDataArea dataAreaId fuel = .ok (area, reader) ∧
    (area.dataAreaValid = false ∨
      (areasIn reader.buffer).find? (fun other => decide (other.dataAreaId = dataAreaId)) = some area)

theorem findDataArea_eq (reader : ProtoReaderBase) (dataAreaId fuel : Nat) :
    reader.findDataArea dataAreaId fuel = .ok (area, reader) ↔
      findLoop dataAreaId fuel ⟨reader.buffer, 0⟩ = .ok area := by
  rw [findDataArea]
  split
  next fault failed => simp [failed]
  next found ended => simp [ended]

theorem find_areasIn (buffer : Buffer) (dataAreaId : Nat) :
    (areasIn buffer).find? (fun other => decide (other.dataAreaId = dataAreaId)) =
      ((fieldsOf buffer.bytes).find? (fun read => decide (read.1.id = dataAreaId))).map
        fun read => read.1.area buffer read.2 := by
  rw [areasIn, find?_map]
  rfl

/-- A complete field has the id, or the fields are not followed by a tag with a value that is cut
off or of an unknown type. -/
def Searchable (bytes : List UInt8) (dataAreaId : Nat) : Prop :=
  (∃ read ∈ fieldsOf bytes, read.1.id = dataAreaId) ∨ endOf bytes = .nothing

theorem searchable_of_findsComplete {reader : ProtoReaderBase}
    (finds : reader.FindsComplete dataAreaId) : Searchable reader.buffer.bytes dataAreaId := by
  obtain ⟨fuel, area, ended, right⟩ := finds
  rw [findDataArea_eq] at ended
  rw [find_areasIn] at right
  have walk := walk_fieldsOf reader.buffer
  have spec := @Walk.findLoop_spec _ _ dataAreaId _ _ walk
  cases found : (fieldsOf reader.buffer.bytes).find? (fun read => decide (read.1.id = dataAreaId)) with
  | some read => exact .inl ⟨read, mem_of_find?_eq_some found, by simpa using find?_some found⟩
  | none =>
    rw [found] at spec right
    refine .inr (walk.leftArea_valid_iff.mp ?_)
    rw [← Bool.not_eq_true]
    intro isValid
    have left := spec.1 isValid fuel area ended
    rcases right with invalid | named
    · rw [left] at invalid
      exact absurd (isValid.symm.trans invalid) (by decide)
    · cases named

end SmartPerf.Proto
