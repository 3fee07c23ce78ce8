import SmartPerf.Proto.Decoding

namespace SmartPerf.Proto

open SmartPerf.Data List

/-! The reader's loops over arbitrary bytes. -/

/-- The complete fields up to the first place at which none can be read, each with what follows it. -/
def readFields : Nat → List UInt8 → List (ReadField × List UInt8)
  | 0, _ => []
  | length + 1, bytes =>
    match readField bytes with
    | .complete field rest => (field, rest) :: readFields length rest
    | .ignored rest => readFields length rest
    | _ => []

/-- What stands at the first place at which no field can be read. -/
def lastReading : Nat → List UInt8 → FieldReading
  | 0, _ => .nothing
  | length + 1, bytes =>
    match readField bytes with
    | .complete _ rest => lastReading length rest
    | .ignored rest => lastReading length rest
    | reading => reading

variable (bytes : List UInt8)

def fieldsOf : List (ReadField × List UInt8) := readFields bytes.length bytes

def endOf : FieldReading := lastReading bytes.length bytes

/-- The areas of the complete fields of a buffer. -/
def areasIn (buffer : Buffer) : List DataArea :=
  (fieldsOf buffer.bytes).map fun read => read.1.area buffer read.2

def FieldReading.Within : FieldReading → Prop
  | .nothing => True
  | .incomplete id _ => id ≠ 0
  | .ignored rest => ∃ front, front ≠ [] ∧ bytes = front ++ rest
  | .complete field rest => field.id ≠ 0 ∧ ∃ front, front ≠ [] ∧ bytes = front ++ field.payload ++ rest

theorem readField_within : (readField bytes).Within bytes := by
  rw [readField]
  split
  · trivial
  next tag rest found =>
    obtain ⟨front, nonempty, shape⟩ := readBase128_suffix found
    dsimp only
    split
    · trivial
    next present =>
      have positive : tag / 8 % 2 ^ 32 ≠ 0 := fun zero => present (.inr zero)
      split
      · exact ⟨front, nonempty, shape⟩
      · split
        · exact positive
        next number payload after value =>
          obtain ⟨⟨middle, valueShape⟩, -, -⟩ := readValue_suffix value
          rw [valueShape] at shape
          split
          · exact ⟨front ++ middle ++ payload, by simp [nonempty], by simp [shape]⟩
          · exact ⟨positive, front ++ middle, by simp [nonempty], by simp [shape]⟩

/-- What a reader takes from a place at which no field can be read: the tag is already stored
when the value turns out to be cut off. -/
def FieldReading.leftArea : FieldReading → DataArea
  | .incomplete id type => { dataAreaId := id, type }
  | _ => {}

/-- The calls of `ParseOneDataArea` from a place on, up to one that aborts. -/
inductive Walk (buffer : Buffer) : Nat → List (ReadField × List UInt8) → FieldReading → Prop
  | ends {start : Nat} {last : FieldReading} (parsed : parseOneDataArea buffer start = .ok ⟨.abort, start, last.leftArea⟩)
      (valid : last.leftArea.dataAreaValid = false ↔ last = .nothing) : Walk buffer start [] last
  | ignored {start : Nat} {rest : List UInt8} {area : DataArea} {fields : List (ReadField × List UInt8)} {last : FieldReading}
      (parsed : parseOneDataArea buffer start = .ok ⟨.skip, buffer.bytes.length - rest.length, area⟩)
      (shorter : rest.length < buffer.bytes.length - start)
      (later : Walk buffer (buffer.bytes.length - rest.length) fields last) : Walk buffer start fields last
  | complete {start : Nat} {field : ReadField} {rest : List UInt8} {fields : List (ReadField × List UInt8)} {last : FieldReading}
      (parsed : parseOneDataArea buffer start = .ok ⟨.ok, buffer.bytes.length - rest.length, field.area buffer rest⟩)
      (shorter : rest.length < buffer.bytes.length - start) (positive : field.id ≠ 0)
      (inside : field.payload.length + rest.length ≤ buffer.bytes.length)
      (later : Walk buffer (buffer.bytes.length - rest.length) fields last) : Walk buffer start ((field, rest) :: fields) last

section Reading

variable {buffer : Buffer} {start length : Nat} {fields : List (ReadField × List UInt8)} {last : FieldReading}

theorem walk_readFields (short : buffer.bytes.length - start ≤ length) :
    Walk buffer start (readFields length (buffer.bytes.drop start)) (lastReading length (buffer.bytes.drop start)) := by
  induction length generalizing start with
  | zero =>
    obtain ⟨result, parsed, gives⟩ := parseOneDataArea_spec buffer start
    rw [drop_eq_nil_of_le (by omega)] at gives ⊢
    have aborted : result = ⟨.abort, start, {}⟩ := gives
    exact .ends (aborted ▸ parsed) ⟨fun _ => rfl, fun _ => rfl⟩
  | succ length ih =>
    obtain ⟨result, parsed, gives⟩ := parseOneDataArea_spec buffer start
    have within := readField_within (buffer.bytes.drop start)
    have onward {front rest : List UInt8} (shape : buffer.bytes.drop start = front ++ rest) (nonempty : front ≠ []) :
        rest.length < buffer.bytes.length - start ∧
          Walk buffer (buffer.bytes.length - rest.length) (readFields length rest) (lastReading length rest) := by
      have lengths := length_of_drop shape (length_pos_iff.mpr nonempty)
      have taken := length_pos_iff.mpr nonempty
      have later := @ih (buffer.bytes.length - rest.length) (by omega)
      rw [drop_of_suffix shape] at later
      exact ⟨by omega, later⟩
    rw [readFields, lastReading]
    cases reading : readField (buffer.bytes.drop start) with
    | nothing =>
      rw [reading] at gives
      have aborted : result = ⟨.abort, start, {}⟩ := gives
      exact .ends (aborted ▸ parsed) ⟨fun _ => rfl, fun _ => rfl⟩
    | incomplete id type =>
      rw [reading] at gives within
      have aborted : result = ⟨.abort, start, { dataAreaId := id, type }⟩ := gives
      have positive : id ≠ 0 := within
      exact .ends (aborted ▸ parsed) (by simp [FieldReading.leftArea, DataArea.dataAreaValid, positive])
    | ignored rest =>
      rw [reading] at gives within
      obtain ⟨status, next, area⟩ := result
      obtain ⟨rfl, rfl⟩ : status = .skip ∧ next = _ := gives
      obtain ⟨front, nonempty, shape⟩ := within
      exact .ignored parsed (onward shape nonempty).1 (onward shape nonempty).2
    | complete field rest =>
      rw [reading] at gives within
      have read : result = ⟨.ok, buffer.bytes.length - rest.length, field.area buffer rest⟩ := gives
      obtain ⟨positive, front, nonempty, shape⟩ := within
      obtain ⟨shorter, later⟩ := onward shape (by simp [nonempty])
      have lengths := congrArg List.length shape
      simp only [length_append, length_drop] at lengths
      exact .complete (read ▸ parsed) shorter positive (by omega) later

/-- The loop of `ParseAllDataAreas` stores the areas of the complete fields. -/
theorem Walk.parseAllLoop_eq (walk : Walk buffer start fields last) {fuel : Nat} (storage : Storage)
    (enough : buffer.bytes.length - start < fuel) :
    parseAllLoop buffer fuel start storage = storage.storeAll (fields.map fun read => read.1.area buffer read.2) := by
  induction walk generalizing fuel storage with
  | ends parsed valid =>
    obtain ⟨fuel, rfl⟩ := Nat.exists_eq_add_of_lt enough
    rw [parseAllLoop, parsed]
    rfl
  | ignored parsed shorter later ih =>
    obtain ⟨fuel, rfl⟩ := Nat.exists_eq_add_of_lt enough
    rw [parseAllLoop, parsed]
    exact ih storage (by omega)
  | @complete start field rest fields last parsed shorter positive inside later ih =>
    obtain ⟨fuel, rfl⟩ := Nat.exists_eq_add_of_lt enough
    rw [parseAllLoop, parsed, map_cons, Storage.storeAll]
    dsimp only
    cases storage.store (field.area buffer rest) with
    | error fault => rfl
    | ok after => exact ih after (by omega)

theorem Walk.valid (walk : Walk buffer start fields last) :
    ∀ read ∈ fields, read.1.id ≠ 0 ∧ read.1.payload.length + read.2.length ≤ buffer.bytes.length := by
  induction walk with
  | ends => exact nofun
  | ignored _ _ _ ih => exact ih
  | complete _ _ positive inside _ ih => exact forall_mem_cons.mpr ⟨⟨positive, inside⟩, ih⟩

theorem walk_fieldsOf (buffer : Buffer) : Walk buffer 0 (fieldsOf buffer.bytes) (endOf buffer.bytes) :=
  walk_readFields (Nat.sub_le ..)

end Reading

variable (maxDataAreaId : MaxDataAreaId) (buffer : Buffer) {property : DataArea → Prop} {storage after : Storage}

theorem typedProtoReader_eq :
    typedProtoReader maxDataAreaId buffer = (Storage.new (maxDataAreaId.val + 1)).storeAll (areasIn buffer) := by
  exact (walk_fieldsOf buffer).parseAllLoop_eq _ (Nat.lt_succ_self _)

theorem areasIn_valid : ∀ area ∈ areasIn buffer, area.dataAreaId ≠ 0 := by
  intro area member
  obtain ⟨read, found, rfl⟩ := mem_map.mp member
  exact ((walk_fieldsOf buffer).valid read found).1

/-- A payload lies in the buffer. -/
def DataArea.Inside (area : DataArea) : Prop :=
  area.type = ProtoWireType.kLengthDelimited.code →
    buffer.startAddr ≤ area.intValue ∧ area.intValue + area.size ≤ buffer.startAddr + buffer.bytes.length

theorem areasIn_inside : ∀ area ∈ areasIn buffer, area.Inside buffer := by
  intro area member delimited
  obtain ⟨⟨field, rest⟩, found, rfl⟩ := mem_map.mp member
  have inside : field.payload.length + rest.length ≤ _ := ((walk_fieldsOf buffer).valid _ found).2
  have delimited : field.type = ProtoWireType.kLengthDelimited.code := delimited
  simp only [ReadField.area, if_pos delimited]
  omega

/-- What holds of a cleared area and of the stored one holds of all areas after a store. -/
theorem Storage.forall_store {area : DataArea}
    (cleared : property {}) (new : property area) (old : ∀ other ∈ storage.dataAreas, property other)
    (stored : storage.store area = .ok after) : ∀ other ∈ after.dataAreas, property other := by
  have set : ∀ {areas : List DataArea} {index : Nat} {value : DataArea}, (∀ other ∈ areas, property other) →
      property value → ∀ other ∈ areas.set index value, property other := by
    intro areas index value all own other member
    rcases mem_or_eq_of_mem_set member with before | rfl
    · exact all other before
    · exact own
  have moved : ∀ other ∈ storage.moveToLargerHeapStorage.dataAreas, property other := by
    intro other member
    rcases mem_append.mp member with copied | fresh
    · split at copied
      · exact old other (mem_of_mem_take copied)
      · cases copied
    · rw [(mem_replicate.mp fresh).2]
      exact cleared
  rw [Storage.store] at stored
  dsimp only at stored
  split at stored
  · cases stored
    exact old
  · split at stored
    · cases stored
    · split at stored
      · cases stored
        exact set old new
      · generalize grown : (if storage.size ≥ storage.volume then storage.moveToLargerHeapStorage
          else storage) = larger at stored
        have all : ∀ other ∈ larger.dataAreas, property other := by
          rw [← grown]
          split
          · exact moved
          · exact old
        split at stored
        · cases stored
        next before found =>
          split at stored
          · cases stored
            exact set (set all (all before (mem_of_getElem? found))) new
          · cases stored

theorem Storage.forall_storeAll {areas : List DataArea}
    (cleared : property {}) (new : ∀ area ∈ areas, property area) (old : ∀ other ∈ storage.dataAreas, property other)
    (stored : storage.storeAll areas = .ok after) : ∀ other ∈ after.dataAreas, property other := by
  induction areas generalizing storage with
  | nil =>
    cases stored
    exact old
  | cons area rest ih =>
    rw [Storage.storeAll] at stored
    split at stored
    · cases stored
    next next step =>
      exact ih (forall_mem_of_forall_mem_cons new)
        (Storage.forall_store cleared (new area mem_cons_self) old step) stored

/-- Parsing ends without leaving the buffer or the storage, and the payloads lie in the buffer. -/
def ParsesSafely : Prop :=
  ∃ storage, typedProtoReader maxDataAreaId buffer = .ok storage ∧ ∀ area ∈ storage.dataAreas, area.Inside buffer

/-- The complete fields of the bytes fit a volume that `volume_ << 1` reaches without wrapping. -/
def BytesFit (bytes : List UInt8) : Prop :=
  VolumeSuffices (maxDataAreaId.val + 1)
    (displaced (((fieldsOf bytes).map fun read => read.1.id).filter (fun id => decide (id < maxDataAreaId.val + 1))))

theorem slotted_areasIn_ids (count : Nat) (buffer : Buffer) :
    (slotted count (areasIn buffer)).map DataArea.dataAreaId =
      ((fieldsOf buffer.bytes).map fun read => read.1.id).filter (fun id => decide (id < count)) := by
  simp only [slotted, areasIn, filter_map, map_map]
  rfl

/-- Arbitrary bytes are parsed safely exactly when no doubling of `volume_` leaves 32 bits. -/
theorem parsesSafely_iff (maxDataAreaId : MaxDataAreaId) (buffer : Buffer) :
    ParsesSafely maxDataAreaId buffer ↔ BytesFit maxDataAreaId buffer.bytes := by
  have succeeds := Storage.storeAll_new_iff maxDataAreaId (areasIn_valid buffer)
  rw [slotted_areasIn_ids] at succeeds
  rw [BytesFit, ← succeeds, ParsesSafely, typedProtoReader_eq]
  constructor
  · rintro ⟨storage, stored, -⟩
    exact ⟨storage, stored⟩
  · rintro ⟨storage, stored⟩
    have cleared : DataArea.Inside buffer {} := nofun
    refine ⟨storage, stored, Storage.forall_storeAll cleared (areasIn_inside buffer) ?_ stored⟩
    intro other member
    rw [(mem_replicate.mp member).2]
    exact cleared

theorem not_parsesSafely_zeroFields : ¬ ParsesSafely ⟨7, by decide⟩ (zeroBuffer (2 ^ 31 - 7 + 1) (by decide)) := by
  rintro ⟨storage, constructed, -⟩
  have fits : Fits ⟨7, by decide⟩ (List.replicate (2 ^ 31 - 7 + 1) zeroField) := fits_of_constructed rfl constructed
  have bound := zeroFields_fit fits
  omega

end SmartPerf.Proto
