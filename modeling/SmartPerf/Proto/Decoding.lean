import SmartPerf.Proto.Wire
import SmartPerf.Proto.Storage

namespace SmartPerf.Proto

open SmartPerf.Data List DataArea

/-! Construction of a reader over a list of encoded fields. -/

section Iteration

variable {storage : Storage} {areas slots older free : List DataArea} {id : Nat}

def lastVisit (id : Nat) (areas : List DataArea) : List DataArea :=
  if (newest id areas).dataAreaId ≠ 0 then [newest id areas] else []

/-- An iterator that has walked to index `index` of the overflow area. -/
def Storage.walk (storage : Storage) (id length index : Nat) : RepeatedDataAreaIterator :=
  storage.findNextMatchingDataAreaId (length - index)
    ⟨id, storage.dataAreasCount + index, storage.size, id⟩

theorem Storage.Holds.visited_walk (holds : storage.Holds areas slots older free)
    (inside : id < storage.dataAreasCount) :
    ∀ (suffix : List DataArea) (index fuel : Nat), older.drop index = suffix → index ≤ older.length →
      suffix.length + 2 ≤ fuel →
      storage.visited fuel (storage.walk id older.length index) = some (areasOf id suffix ++ lastVisit id areas) := by
  have size := holds.size
  intro suffix
  induction suffix with
  | nil =>
    intro index fuel rest bound enough
    have atEnd : older.length - index = 0 := by
      have lengths := congrArg List.length rest
      simpa using lengths
    obtain ⟨fuel, rfl⟩ := Nat.exists_eq_add_of_le' (show 2 ≤ fuel by simpa using enough)
    simp only [Storage.walk, atEnd, Storage.findNextMatchingDataAreaId, Storage.idAt, holds.slot_read inside,
      Option.getD_some]
    by_cases valid : (newest id areas).dataAreaId ≠ 0
    · have notEnd : ¬ id = storage.size := by omega
      simp only [lastVisit, if_pos valid, Storage.visited, if_neg notEnd, holds.slot_read inside,
        Storage.advance, ne_eq, not_true, if_false]
      rfl
    · simp only [lastVisit, if_neg valid, Storage.visited]
      rfl
  | cons area rest ih =>
    intro index fuel front bound enough
    have read := holds.older_get front
    have more : index < older.length := by
      have lengths := congrArg List.length front
      simp only [length_drop, length_cons] at lengths
      omega
    have next : older.drop (index + 1) = rest := by
      rw [← drop_drop, front]
      rfl
    have step : older.length - index = older.length - (index + 1) + 1 := by omega
    have idRead : storage.idAt (storage.dataAreasCount + index) = area.dataAreaId := by
      simp [Storage.idAt, read]
    by_cases own : area.dataAreaId = id
    · obtain ⟨fuel, rfl⟩ := Nat.exists_eq_add_of_le' (show 1 ≤ fuel by omega)
      have notEnd : ¬ storage.dataAreasCount + index = storage.size := by omega
      have notLast : storage.dataAreasCount + index ≠ id := by omega
      have here : storage.walk id older.length index =
          ⟨id, storage.dataAreasCount + index, storage.size, id⟩ := by
        simp only [Storage.walk, step, Storage.findNextMatchingDataAreaId, idRead, if_pos own]
      have advanced : storage.advance ⟨id, storage.dataAreasCount + index, storage.size, id⟩ =
          storage.walk id older.length (index + 1) := by
        simp only [Storage.advance, if_pos notLast]
        congr 1
        omega
      have tail := ih (index + 1) fuel next (by omega) (by simp only [length_cons] at enough; omega)
      rw [here]
      simp only [Storage.visited, if_neg notEnd, read, advanced, tail]
      simp [areasOf, own]
    · have onward : storage.walk id older.length index = storage.walk id older.length (index + 1) := by
        simp only [Storage.walk]
        rw [step]
        simp only [Storage.findNextMatchingDataAreaId, idRead, if_neg own, Nat.add_assoc]
      have tail := ih (index + 1) fuel next (by omega) (by simp only [length_cons] at enough; omega)
      rw [onward, tail]
      simp [areasOf, own]

theorem Storage.Holds.enumerate (holds : storage.Holds areas slots older free)
    (inside : id < storage.dataAreasCount) : storage.enumerate id = some (areasOf id areas) := by
  have size := holds.size
  have start : storage.getRepeated id = storage.walk id older.length 0 := by
    simp only [Storage.getRepeated, Storage.walk, size, Nat.add_sub_cancel_left, Nat.sub_zero, Nat.add_zero]
  have walked := holds.visited_walk inside older 0 (storage.size + 2) rfl (Nat.zero_le _) (by omega)
  rw [Storage.enumerate, start, walked, holds.overflow id inside]
  by_cases present : id ∈ areas.map dataAreaId
  · obtain ⟨shape, ownId⟩ := areasOf_eq_append_newest present
    have valid : (newest id areas).dataAreaId ≠ 0 := by
      obtain ⟨area, member, equal⟩ := mem_map.mp present
      rw [ownId, ← equal]
      exact holds.kept area member
    rw [lastVisit, if_pos valid, ← shape]
  · simp [lastVisit, newest, areasOf_eq_nil present]

end Iteration

/-- Storing a whole sequence of areas, as the parsing loop does between its reads. -/
def Storage.storeAll : Storage → List DataArea → Except Fault Storage
  | storage, [] => .ok storage
  | storage, area :: rest =>
    match storage.store area with
    | .error fault => .error fault
    | .ok after => after.storeAll rest

def slotted (count : Nat) (areas : List DataArea) : List DataArea :=
  areas.filter (fun area => decide (area.dataAreaId < count))

theorem Storage.storeAll_stored {storage after : Storage} {before areas : List DataArea}
    (stored : storage.Stored before) (valid : ∀ area ∈ areas, area.dataAreaId ≠ 0)
    (result : storage.storeAll areas = .ok after) :
    after.Stored (before ++ slotted storage.dataAreasCount areas) ∧ after.dataAreasCount = storage.dataAreasCount := by
  induction areas generalizing storage before with
  | nil =>
    cases result
    simpa [slotted] using stored
  | cons area rest ih =>
    have restValid := forall_mem_of_forall_mem_cons valid
    by_cases inside : area.dataAreaId < storage.dataAreasCount
    · rcases storage.store_cases stored (valid area (by simp)) inside with
        ⟨next, stepResult, count, nextStored⟩ | ⟨⟨fault, stepResult⟩, -, -⟩
      · have tail : next.storeAll rest = .ok after := by
          simpa only [Storage.storeAll, stepResult] using result
        obtain ⟨afterStored, afterCount⟩ := ih nextStored restValid tail
        rw [count] at afterStored afterCount
        exact ⟨by simpa [slotted, inside] using afterStored, afterCount⟩
      · simp [Storage.storeAll, stepResult] at result
    · have ignored : storage.store area = .ok storage := by
        simp only [Storage.store, if_pos (Nat.not_lt.mp inside)]
      have tail : storage.storeAll rest = .ok after := by
        simpa only [Storage.storeAll, ignored] using result
      obtain ⟨afterStored, afterCount⟩ := ih stored restValid tail
      exact ⟨by simpa [slotted, inside] using afterStored, afterCount⟩

theorem displaced_le_append (ids more : List Nat) : displaced ids ≤ displaced (ids ++ more) := by
  induction more generalizing ids with
  | nil => simp
  | cons id rest ih =>
    have one := displaced_append_le ids id
    have tail := ih (ids ++ [id])
    rw [append_assoc, singleton_append] at tail
    omega

def VolumeSuffices (count occupied : Nat) : Prop :=
  ∃ doublings, count + occupied ≤ count * 2 ^ doublings ∧ count * 2 ^ doublings < 2 ^ 32

theorem Storage.storeAll_succeeds {storage : Storage} {before areas : List DataArea}
    (stored : storage.Stored before) (valid : ∀ area ∈ areas, area.dataAreaId ≠ 0)
    (room : VolumeSuffices storage.dataAreasCount
      (displaced ((before ++ slotted storage.dataAreasCount areas).map dataAreaId))) :
    ∃ after, storage.storeAll areas = .ok after := by
  induction areas generalizing storage before with
  | nil => exact ⟨storage, rfl⟩
  | cons area rest ih =>
    have restValid := forall_mem_of_forall_mem_cons valid
    by_cases inside : area.dataAreaId < storage.dataAreasCount
    · have shape : slotted storage.dataAreasCount (area :: rest) =
          area :: slotted storage.dataAreasCount rest := by simp [slotted, inside]
      rw [shape, ← singleton_append, ← append_assoc] at room
      rcases storage.store_cases stored (valid area (by simp)) inside with
        ⟨next, stepResult, count, nextStored⟩ | ⟨-, full, wide⟩
      · rw [← count] at room
        obtain ⟨after, tail⟩ := ih nextStored restValid room
        exact ⟨after, by simpa only [Storage.storeAll, stepResult] using tail⟩
      · -- a failed doubling would need more room than any 32-bit volume has
        obtain ⟨doublings, occupied, narrow⟩ := room
        obtain ⟨slots, older, free, holds⟩ := stored
        obtain ⟨done, volume⟩ := holds.doubled
        have prefixed := displaced_le_append ((before ++ [area]).map dataAreaId)
          ((slotted storage.dataAreasCount rest).map dataAreaId)
        rw [← map_append] at prefixed
        have more : storage.dataAreasCount * 2 ^ done < storage.dataAreasCount * 2 ^ doublings := by omega
        have power : done < doublings :=
          (Nat.pow_lt_pow_iff_right (by decide)).mp (Nat.lt_of_mul_lt_mul_left more)
        have next : storage.dataAreasCount * 2 ^ (done + 1) ≤ storage.dataAreasCount * 2 ^ doublings :=
          Nat.mul_le_mul_left _ (Nat.pow_le_pow_right (by decide) power)
        rw [Nat.pow_succ, ← Nat.mul_assoc] at next
        omega
    · have ignored : storage.store area = .ok storage := by
        simp only [Storage.store, if_pos (Nat.not_lt.mp inside)]
      have shape : slotted storage.dataAreasCount (area :: rest) =
          slotted storage.dataAreasCount rest := by simp [slotted, inside]
      rw [shape] at room
      obtain ⟨after, tail⟩ := ih stored restValid room
      exact ⟨after, by simpa only [Storage.storeAll, ignored] using tail⟩

/-- The areas of fields encoded back to back from address `start` on. -/
def areasFrom (buffer : Buffer) : Nat → List Field → List DataArea
  | _, [] => []
  | start, field :: rest =>
    field.areaAt buffer (start + (base128 9 field.tag).length) ::
      areasFrom buffer (start + field.encode.length) rest

theorem areasFrom_ids (buffer : Buffer) (start : Nat) (fields : List Field) :
    (areasFrom buffer start fields).map dataAreaId = fields.map Field.id := by
  induction fields generalizing start with
  | nil => rfl
  | cons field rest ih =>
    rw [areasFrom, map_cons, map_cons, ih]
    rfl

theorem areasFrom_valid (buffer : Buffer) (start : Nat) (fields : List Field) :
    ∀ area ∈ areasFrom buffer start fields, area.dataAreaId ≠ 0 := by
  intro area member
  have image := mem_map_of_mem (f := dataAreaId) member
  rw [areasFrom_ids] at image
  obtain ⟨field, -, equal⟩ := mem_map.mp image
  have positive := field.positive
  omega

section Fields

variable {buffer : Buffer} {fields : List Field}

theorem drop_field {start : Nat} {field : Field} {rest : List Field}
    (front : buffer.bytes.drop start = encodeFields (field :: rest)) :
    buffer.bytes.drop start = field.encode ++ encodeFields rest ∧
      buffer.bytes.drop (start + field.encode.length) = encodeFields rest := by
  have first : buffer.bytes.drop start = field.encode ++ encodeFields rest := by
    simpa [encodeFields] using front
  exact ⟨first, drop_add_of_drop first⟩

theorem areasFrom_denote {start : Nat} (front : buffer.bytes.drop start = encodeFields fields) :
    List.Forall₂ (Denotes buffer) (areasFrom buffer start fields) fields := by
  induction fields generalizing start with
  | nil => exact .nil
  | cons field rest ih =>
    obtain ⟨first, remaining⟩ := drop_field front
    have value : buffer.bytes.drop (start + (base128 9 field.tag).length) =
        field.value.encode ++ encodeFields rest :=
      drop_add_of_drop (by simpa [Field.encode] using first)
    exact .cons (field.areaAt_denotes value) (ih remaining)

theorem areasOf_denote {areas : List DataArea} (id : Nat) (denote : List.Forall₂ (Denotes buffer) areas fields) :
    List.Forall₂ (Denotes buffer) (areasOf id areas) (fields.filter (fun field => field.id == id)) := by
  induction denote with
  | nil => exact .nil
  | @cons area field areas fields first _ ih =>
    by_cases own : field.id = id
    · simp only [areasOf, filter_cons, first.1, own, beq_self_eq_true]
      exact .cons first ih
    · have differs : (field.id == id) = false := by simpa using own
      simpa only [areasOf, filter_cons, first.1, differs, Bool.false_eq_true, if_false] using ih

theorem parseAllLoop_encoded {start fuel : Nat} {storage : Storage}
    (front : buffer.bytes.drop start = encodeFields fields) (enough : fields.length < fuel) :
    parseAllLoop buffer fuel start storage = storage.storeAll (areasFrom buffer start fields) := by
  induction fields generalizing start fuel storage with
  | nil =>
    obtain ⟨fuel, rfl⟩ := Nat.exists_eq_add_of_le' (show 1 ≤ fuel by omega)
    have atEnd : buffer.startAddr + start = 0 ∨ start ≥ buffer.bytes.length := by
      have length := congrArg List.length front
      simp only [encodeFields, flatMap_nil, length_drop, length_nil] at length
      omega
    simp only [parseAllLoop, parseOneDataArea, if_pos atEnd, areasFrom, Storage.storeAll]
  | cons field rest ih =>
    obtain ⟨fuel, rfl⟩ := Nat.exists_eq_add_of_le' (show 1 ≤ fuel by omega)
    obtain ⟨first, remaining⟩ := drop_field front
    have enoughLeft : rest.length < fuel := by simpa using enough
    simp only [parseAllLoop, parseOneDataArea_encoded field first, areasFrom, Storage.storeAll]
    cases storage.store (field.areaAt buffer (start + (base128 9 field.tag).length)) with
    | error fault => rfl
    | ok after => exact ih remaining enoughLeft

theorem fields_length_le (fields : List Field) : fields.length ≤ (encodeFields fields).length := by
  induction fields with
  | nil => simp
  | cons field rest ih =>
    have tag := base128_length_pos 9 field.tag
    simp only [encodeFields, flatMap_cons, length_append, length_cons, Field.encode] at ih ⊢
    omega

variable {fields : List Field} {maxDataAreaId : MaxDataAreaId}

theorem typedProtoReader_encoded (encoded : buffer.bytes = encodeFields fields) :
    typedProtoReader maxDataAreaId buffer =
      (Storage.new (maxDataAreaId.val + 1)).storeAll (areasFrom buffer 0 fields) := by
  have short : fields.length < buffer.bytes.length + 1 := by
    have bound := fields_length_le fields
    rw [encoded]
    omega
  exact parseAllLoop_encoded (by simpa using encoded) short

end Fields

variable (maxDataAreaId : MaxDataAreaId)

def keptIds (fields : List Field) : List Nat :=
  (fields.map Field.id).filter (fun id => decide (id ≤ maxDataAreaId.val))

theorem slotted_ids (buffer : Buffer) (maxDataAreaId : MaxDataAreaId) (fields : List Field) :
    (slotted (maxDataAreaId.val + 1) (areasFrom buffer 0 fields)).map dataAreaId = keptIds maxDataAreaId fields := by
  rw [keptIds, ← areasFrom_ids buffer 0 fields, filter_map]
  simp only [slotted, Nat.lt_succ_iff]
  rfl

theorem areasOf_slotted {count id : Nat} (areas : List DataArea) (inside : id < count) :
    areasOf id (slotted count areas) = areasOf id areas := by
  simp only [areasOf, slotted, filter_filter]
  apply filter_congr
  intro area _
  by_cases own : area.dataAreaId = id
  · simp [own, inside]
  · simp [own]

/-- What a reader constructed over `buffer` says of each id is what `fields` say:
`Get` is the last field of the id, and a cleared area when there is none, and
`GetRepeated` is each field of the id once, in wire order. -/
def Decodes (buffer : Buffer) (fields : List Field) : Prop :=
  ∃ storage, typedProtoReader maxDataAreaId buffer = .ok storage ∧
    ∀ id ≤ maxDataAreaId.val,
      (∃ area, storage.get id = some area ∧
        match (fields.filter (fun field => field.id == id)).getLast? with
        | some field => area.Denotes buffer field
        | none => area = {}) ∧
      ∃ areas, storage.enumerate id = some areas ∧
        List.Forall₂ (Denotes buffer) areas (fields.filter (fun field => field.id == id))

/-- The kept fields fit a volume that `volume_ << 1` reaches without wrapping. -/
def Fits (fields : List Field) : Prop :=
  VolumeSuffices (maxDataAreaId.val + 1) (displaced (keptIds maxDataAreaId fields))

theorem getLast?_related {α β : Type} {related : α → β → Prop} {left : List α} {right : List β}
    (pairs : List.Forall₂ related left right) :
    (left = [] ∧ right = []) ∨ ∃ x y, left.getLast? = some x ∧ right.getLast? = some y ∧ related x y := by
  induction pairs with
  | nil => exact .inl ⟨rfl, rfl⟩
  | @cons x y left right first _ ih =>
    right
    rcases ih with ⟨rfl, rfl⟩ | ⟨x', y', leftLast, rightLast, last⟩
    · exact ⟨x, y, rfl, rfl, first⟩
    · exact ⟨x', y', by simp [getLast?_cons, leftLast], by simp [getLast?_cons, rightLast], last⟩

theorem newest_denotes {buffer : Buffer} {areas : List DataArea} {fields : List Field} {id : Nat}
    (denote : List.Forall₂ (Denotes buffer) (areasOf id areas) fields) :
    match fields.getLast? with
    | some field => (newest id areas).Denotes buffer field
    | none => newest id areas = {} := by
  rcases getLast?_related denote with ⟨empty, rfl⟩ | ⟨area, field, areaLast, fieldLast, last⟩
  · simp [newest, empty]
  · simpa [newest, areaLast, fieldLast] using last

theorem Storage.new_stored : (Storage.new (maxDataAreaId.val + 1)).Stored [] := by
  exact ⟨_, _, _, Storage.new_holds _ (by omega)⟩

theorem decodes_of_fits {maxDataAreaId : MaxDataAreaId} {buffer : Buffer} {fields : List Field}
    (encoded : buffer.bytes = encodeFields fields) (fits : Fits maxDataAreaId fields) :
    Decodes maxDataAreaId buffer fields := by
  have valid := areasFrom_valid buffer 0 fields
  obtain ⟨storage, constructed⟩ := Storage.storeAll_succeeds (Storage.new_stored maxDataAreaId) valid
    (by simpa only [nil_append, Storage.new, slotted_ids, Fits] using fits)
  obtain ⟨⟨slots, older, free, holds⟩, count⟩ :=
    Storage.storeAll_stored (Storage.new_stored maxDataAreaId) valid constructed
  refine ⟨storage, (typedProtoReader_encoded encoded).trans constructed, fun id small => ?_⟩
  have inside : id < storage.dataAreasCount := by
    rw [count]
    exact Nat.lt_succ_of_le small
  have own : areasOf id (slotted (maxDataAreaId.val + 1) (areasFrom buffer 0 fields)) =
      areasOf id (areasFrom buffer 0 fields) :=
    areasOf_slotted _ (Nat.lt_succ_of_le small)
  have all : List.Forall₂ (Denotes buffer) (areasFrom buffer 0 fields) fields :=
    areasFrom_denote (by simpa using encoded)
  have denote := areasOf_denote id all
  rw [← own] at denote
  refine ⟨⟨newest id _, ?_, newest_denotes denote⟩, _, holds.enumerate inside, denote⟩
  rw [Storage.get, if_pos inside, holds.slot_read inside]
  rfl

theorem Storage.storeAll_new_iff {areas : List DataArea} (valid : ∀ area ∈ areas, area.dataAreaId ≠ 0) :
    (∃ storage, (Storage.new (maxDataAreaId.val + 1)).storeAll areas = .ok storage) ↔
      VolumeSuffices (maxDataAreaId.val + 1) (displaced ((slotted (maxDataAreaId.val + 1) areas).map dataAreaId)) := by
  constructor
  · rintro ⟨storage, constructed⟩
    obtain ⟨⟨slots, older, free, holds⟩, count⟩ :=
      Storage.storeAll_stored (Storage.new_stored maxDataAreaId) valid constructed
    obtain ⟨doublings, volume⟩ := holds.doubled
    have total := holds.total
    have narrow := holds.narrow
    have occupied : older.length = displaced ((slotted (maxDataAreaId.val + 1) areas).map dataAreaId) :=
      holds.overflowCount
    have slotCount : storage.dataAreasCount = maxDataAreaId.val + 1 := count
    rw [slotCount] at volume total
    exact ⟨doublings, by omega, by omega⟩
  · intro room
    exact Storage.storeAll_succeeds (Storage.new_stored maxDataAreaId) valid
      (by simpa only [nil_append, Storage.new] using room)

section
variable {buffer : Buffer} {fields : List Field} (encoded : buffer.bytes = encodeFields fields)
include encoded

theorem fits_of_constructed {maxDataAreaId : MaxDataAreaId} {storage : Storage}
    (constructed : typedProtoReader maxDataAreaId buffer = .ok storage) : Fits maxDataAreaId fields := by
  rw [typedProtoReader_encoded encoded] at constructed
  have room := (Storage.storeAll_new_iff maxDataAreaId (areasFrom_valid buffer 0 fields)).mp ⟨storage, constructed⟩
  rwa [slotted_ids] at room

theorem fits_of_decodes {maxDataAreaId : MaxDataAreaId} (decodes : Decodes maxDataAreaId buffer fields) :
    Fits maxDataAreaId fields := by
  obtain ⟨storage, constructed, -⟩ := decodes
  exact fits_of_constructed encoded constructed

end

/-- The reader decodes every list of encoded fields for which no doubling of
`volume_` leaves 32 bits, and no other. -/
theorem typedProtoReader_decodes_iff (maxDataAreaId : MaxDataAreaId) (buffer : Buffer) (fields : List Field)
    (encoded : buffer.bytes = encodeFields fields) : Decodes maxDataAreaId buffer fields ↔ Fits maxDataAreaId fields :=
  ⟨fits_of_decodes encoded, decodes_of_fits encoded⟩

def zeroField : Field := ⟨1, .varint 0, by decide, by decide⟩

def interleaved : List Field :=
  [zeroField, ⟨2, .lengthDelimited [7, 8, 9] (by decide), by decide, by decide⟩, zeroField]

theorem typedProtoReader_decodes_interleaved :
    Decodes ⟨2, by decide⟩ ⟨4096, encodeFields interleaved, by decide, by decide⟩ interleaved :=
  (typedProtoReader_decodes_iff ⟨2, by decide⟩ _ interleaved rfl).mpr ⟨1, by decide, by decide⟩

theorem zeroFields_length (count : Nat) : (encodeFields (List.replicate count zeroField)).length = 2 * count := by
  have two : zeroField.encode.length = 2 := by decide
  induction count with
  | zero => rfl
  | succ count ih =>
    simp only [encodeFields, replicate_succ, flatMap_cons, length_append] at ih ⊢
    omega

theorem zeroFields_fit {count : Nat}
    (fits : Fits ⟨7, by decide⟩ (List.replicate (count + 1) zeroField)) : 8 + count ≤ 2 ^ 31 := by
  obtain ⟨doublings, occupied, narrow⟩ := fits
  have ids : keptIds ⟨7, by decide⟩ (List.replicate (count + 1) zeroField) =
      List.replicate (count + 1) 1 := by
    simp [keptIds, zeroField]
  have repeats : displaced (List.replicate (count + 1) 1) = count := by
    rw [displaced, length_replicate, toFinset_replicate_of_ne_zero (Nat.succ_ne_zero count),
      Finset.card_singleton, Nat.add_sub_cancel]
  rw [ids] at occupied
  have small : 2 ^ doublings < 2 ^ 29 := by
    simp only [Nat.reduceAdd] at narrow
    omega
  have power : doublings ≤ 28 := Nat.lt_succ_iff.mp ((Nat.pow_lt_pow_iff_right (by decide)).mp small)
  have largest : 2 ^ doublings ≤ 2 ^ 28 := Nat.pow_le_pow_right (by decide) power
  simp only [Nat.reduceAdd] at occupied
  omega

/-- The buffer of `count` fields of id one, two bytes each. -/
def zeroBuffer (count : Nat) (short : count < 2 ^ 32) : Buffer where
  startAddr := 4096
  bytes := encodeFields (List.replicate count zeroField)
  addressable := by rw [zeroFields_length]; omega
  placed := fun _ => by decide

/-- With eight slots, `2 ^ 31 - 6` fields of one id need one area more than
`2 ^ 31`, and the doubling of `2 ^ 31` is zero. -/
theorem typedProtoReader_zeroFields_undecoded :
    ¬ Decodes ⟨7, by decide⟩ (zeroBuffer (2 ^ 31 - 7 + 1) (by decide)) (List.replicate (2 ^ 31 - 7 + 1) zeroField) := by
  intro decodes
  have bound := zeroFields_fit (fits_of_decodes rfl decodes)
  omega

end SmartPerf.Proto
