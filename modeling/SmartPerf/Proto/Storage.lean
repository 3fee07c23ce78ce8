import SmartPerf.Proto.Reader

namespace SmartPerf.Proto

open List DataArea

/-! The storage of a reader as three consecutive runs of areas.

The fixed slots hold the newest area of each id, the overflow area the areas
that newer ones displaced, and the rest of the allocation is free.  `Split` says
where the runs lie; `Holds` says which areas they are, given the areas stored so
far.  Neither mentions how often the storage was moved. -/

structure Storage.Split (storage : Storage) (slots older free : List DataArea) : Prop where
  contents : storage.dataAreas = slots ++ older ++ free
  slotCount : slots.length = storage.dataAreasCount
  size : storage.size = storage.dataAreasCount + older.length
  volume : storage.volume = storage.dataAreas.length
  narrow : storage.volume < 2 ^ 32

namespace Storage.Split

variable {storage : Storage} {slots older free : List DataArea}

section

variable (split : storage.Split slots older free)
include split

theorem total : storage.volume = storage.dataAreasCount + older.length + free.length := by
  rw [split.volume, split.contents]
  simp only [length_append, split.slotCount]

theorem slot_get {id : Nat} (inside : id < storage.dataAreasCount) : storage.dataAreas[id]? = slots[id]? := by
  rw [← split.slotCount] at inside
  rw [split.contents, append_assoc, getElem?_append_left inside]

theorem older_get {index : Nat} {area : DataArea} {rest : List DataArea} (suffix : older.drop index = area :: rest) :
    storage.dataAreas[storage.dataAreasCount + index]? = some area := by
  have found : older[index]? = some area := by
    have head : (older.drop index)[0]? = some area := by rw [suffix]; rfl
    simpa using head
  obtain ⟨inside, _⟩ := List.getElem?_eq_some_iff.mp found
  rw [split.contents, append_assoc, getElem?_append_right (by rw [split.slotCount]; omega),
    split.slotCount, Nat.add_sub_cancel_left, getElem?_append_left inside, found]

theorem set_slot {id : Nat} (inside : id < storage.dataAreasCount) (area : DataArea) :
    Split { storage with dataAreas := storage.dataAreas.set id area } (slots.set id area) older free where
  contents := by
    rw [← split.slotCount] at inside
    simp only [split.contents, append_assoc]
    rw [set_append_left _ _ inside]
  slotCount := by simpa using split.slotCount
  size := split.size
  volume := by simpa using split.volume
  narrow := split.narrow

end

theorem displace {spare : DataArea} (split : storage.Split slots older (spare :: free)) {id : Nat}
    (inside : id < storage.dataAreasCount) (old area : DataArea) :
    Split { storage with
      dataAreas := (storage.dataAreas.set storage.size old).set id area
      size := (storage.size + 1) % 2 ^ 32 } (slots.set id area) (older ++ [old]) free where
  contents := by
    rw [← split.slotCount] at inside
    have place : storage.size = (slots ++ older).length := by
      rw [split.size, length_append, split.slotCount]
    simp only [split.contents, place]
    rw [set_append_right _ _ le_rfl, Nat.sub_self, set_cons_zero, append_assoc, set_append_left _ _ inside]
    simp
  slotCount := by simpa using split.slotCount
  size := by
    have total := split.total
    have narrow := split.narrow
    have size := split.size
    simp only [length_cons, length_append, length_nil] at total ⊢
    omega
  volume := by simpa using split.volume
  narrow := split.narrow

theorem grow (split : storage.Split slots older []) (room : 2 * storage.volume < 2 ^ 32) :
    storage.moveToLargerHeapStorage.Split slots older (List.replicate storage.volume ({} : DataArea)) := by
  have larger : (storage.volume <<< 1) % 2 ^ 32 = 2 * storage.volume := by
    omega
  have total := split.total
  have size := split.size
  simp only [length_nil, Nat.add_zero] at total
  have full : storage.size = storage.dataAreas.length := by rw [← split.volume, total, size]
  have copied : storage.dataAreas.take storage.size = slots ++ older := by
    rw [full, take_length, split.contents, append_nil]
  have enough : storage.size ≤ 2 * storage.volume := by omega
  have moved : storage.moveToLargerHeapStorage.dataAreas =
      slots ++ older ++ List.replicate storage.volume ({} : DataArea) := by
    simp only [Storage.moveToLargerHeapStorage, larger, if_pos enough, copied, length_append, split.slotCount]
    congr 2
    omega
  have volume : storage.moveToLargerHeapStorage.volume = 2 * storage.volume := larger
  constructor
  · exact moved
  · exact split.slotCount
  · exact size
  · rw [volume, moved]
    simp only [length_append, length_replicate, split.slotCount]
    omega
  · rw [volume]
    exact room

theorem wrapped (split : storage.Split slots older []) (full : 2 ^ 32 ≤ 2 * storage.volume) :
    storage.moveToLargerHeapStorage.dataAreas.length ≤ storage.moveToLargerHeapStorage.size := by
  have total := split.total
  have size := split.size
  simp only [length_nil] at total
  have less : (storage.volume <<< 1) % 2 ^ 32 < storage.size := by
    omega
  simp only [Storage.moveToLargerHeapStorage, if_neg (Nat.not_le.mpr less), nil_append, length_replicate]
  exact less.le

end Storage.Split

def areasOf (id : Nat) (areas : List DataArea) : List DataArea :=
  areas.filter (fun area => area.dataAreaId == id)

theorem areasOf_append (id : Nat) (areas more : List DataArea) :
    areasOf id (areas ++ more) = areasOf id areas ++ areasOf id more :=
  filter_append ..

theorem areasOf_singleton_self (area : DataArea) : areasOf area.dataAreaId [area] = [area] := by
  simp [areasOf]

variable {id : Nat}

theorem areasOf_singleton_ne {area : DataArea} (other : area.dataAreaId ≠ id) : areasOf id [area] = [] := by
  simp [areasOf, other]

/-- The newest area of an id, or the cleared area of an id without any. -/
def newest (id : Nat) (areas : List DataArea) : DataArea := (areasOf id areas).getLast?.getD {}

/-- How many of the stored areas have been displaced by a newer one. -/
def displaced (ids : List Nat) : Nat := ids.length - ids.toFinset.card

theorem displaced_append_new {ids : List Nat} (new : id ∉ ids) : displaced (ids ++ [id]) = displaced ids := by
  have card : (ids ++ [id]).toFinset.card = ids.toFinset.card + 1 := by
    rw [toFinset_append, toFinset_cons, toFinset_nil, insert_empty_eq,
      Finset.union_comm, ← Finset.insert_eq, Finset.card_insert_of_notMem (by simpa using new)]
  simp only [displaced, length_append, length_singleton]
  omega

theorem displaced_append_old {ids : List Nat} (old : id ∈ ids) : displaced (ids ++ [id]) = displaced ids + 1 := by
  have bound := toFinset_card_le ids
  have card : (ids ++ [id]).toFinset.card = ids.toFinset.card := by
    rw [toFinset_append, toFinset_cons, toFinset_nil, insert_empty_eq, Finset.union_eq_left.mpr (by simpa using old)]
  simp only [displaced, length_append, length_singleton]
  omega

theorem displaced_append_le (ids : List Nat) (id : Nat) : displaced ids ≤ displaced (ids ++ [id]) := by
  by_cases old : id ∈ ids
  · rw [displaced_append_old old]
    omega
  · rw [displaced_append_new old]

theorem areasOf_eq_nil {areas : List DataArea} (absent : id ∉ areas.map dataAreaId) : areasOf id areas = [] := by
  simp only [areasOf, filter_eq_nil_iff, beq_iff_eq]
  intro area member equal
  exact absent (mem_map.mpr ⟨area, member, equal⟩)

theorem areasOf_eq_append_newest {areas : List DataArea} (present : id ∈ areas.map dataAreaId) :
    areasOf id areas = (areasOf id areas).dropLast ++ [newest id areas] ∧ (newest id areas).dataAreaId = id := by
  obtain ⟨area, member, equal⟩ := mem_map.mp present
  have occurs : area ∈ areasOf id areas := by simp [areasOf, member, equal]
  have nonempty : areasOf id areas ≠ [] := ne_nil_of_mem occurs
  have last : newest id areas = (areasOf id areas).getLast nonempty := by
    simp [newest, getLast?_eq_some_getLast nonempty]
  have own : newest id areas ∈ areasOf id areas := by
    rw [last]
    exact getLast_mem nonempty
  constructor
  · rw [last, dropLast_append_getLast nonempty]
  · simpa using (mem_filter.mp own).2

/-- The contents of a storage after `areas` were stored into it. -/
structure Storage.Holds (storage : Storage) (areas slots older free : List DataArea) : Prop
    extends storage.Split slots older free where
  kept : ∀ area ∈ areas, area.dataAreaId ≠ 0
  slot : ∀ id < storage.dataAreasCount, slots[id]? = some (newest id areas)
  overflow : ∀ id < storage.dataAreasCount, areasOf id older = (areasOf id areas).dropLast
  overflowCount : older.length = displaced (areas.map dataAreaId)
  doubled : ∃ doublings, storage.volume = storage.dataAreasCount * 2 ^ doublings

theorem Storage.new_holds (count : Nat) (small : count < 2 ^ 32) :
    (Storage.new count).Holds [] (List.replicate count {}) [] [] where
  contents := by simp [Storage.new]
  slotCount := by simp [Storage.new]
  size := by simp [Storage.new]
  volume := by simp [Storage.new]
  narrow := small
  kept := by simp
  slot := by
    intro id inside
    have inside : id < count := inside
    simp [newest, areasOf, inside]
  overflow := by simp [areasOf]
  overflowCount := by simp [displaced]
  doubled := ⟨0, by simp [Storage.new]⟩

namespace Storage.Holds

variable {storage after : Storage} {areas slots older free rest : List DataArea} {area : DataArea}

section

variable (holds : storage.Holds areas slots older free)
include holds

theorem slots_after
    (inside : area.dataAreaId < storage.dataAreasCount) (id : Nat) (idInside : id < storage.dataAreasCount) :
    (slots.set area.dataAreaId area)[id]? = some (newest id (areas ++ [area])) := by
  by_cases own : area.dataAreaId = id
  · subst own
    rw [getElem?_set_self (by rw [holds.slotCount]; exact inside)]
    simp [newest, areasOf_append, areasOf_singleton_self]
  · rw [getElem?_set_ne own, holds.slot id idInside]
    simp [newest, areasOf_append, areasOf_singleton_ne own]

theorem kept_after (valid : area.dataAreaId ≠ 0) : ∀ stored ∈ areas ++ [area], stored.dataAreaId ≠ 0 := by
  intro stored member
  rcases mem_append.mp member with earlier | new
  · exact holds.kept stored earlier
  · rw [mem_singleton.mp new]
    exact valid

theorem first (valid : area.dataAreaId ≠ 0) (inside : area.dataAreaId < storage.dataAreasCount)
    (new : area.dataAreaId ∉ areas.map dataAreaId) (split : after.Split (slots.set area.dataAreaId area) older free)
    (count : after.dataAreasCount = storage.dataAreasCount) (volume : after.volume = storage.volume) :
    after.Holds (areas ++ [area]) (slots.set area.dataAreaId area) older free where
  toSplit := split
  kept := holds.kept_after valid
  slot := by
    rw [count]
    exact holds.slots_after inside
  overflow := by
    intro id idInside
    rw [count] at idInside
    rw [holds.overflow id idInside, areasOf_append]
    by_cases own : area.dataAreaId = id
    · subst own
      simp [areasOf_eq_nil new, areasOf_singleton_self]
    · rw [areasOf_singleton_ne own, append_nil]
  overflowCount := by
    rw [map_append, map_singleton, displaced_append_new new, holds.overflowCount]
  doubled := by
    rw [count, volume]
    exact holds.doubled

theorem again (valid : area.dataAreaId ≠ 0) (inside : area.dataAreaId < storage.dataAreasCount)
    (old : area.dataAreaId ∈ areas.map dataAreaId)
    (split : after.Split (slots.set area.dataAreaId area) (older ++ [newest area.dataAreaId areas]) rest)
    (count : after.dataAreasCount = storage.dataAreasCount)
    (doubled : ∃ doublings, after.volume = storage.dataAreasCount * 2 ^ doublings) :
    after.Holds (areas ++ [area]) (slots.set area.dataAreaId area) (older ++ [newest area.dataAreaId areas]) rest where
  toSplit := split
  kept := holds.kept_after valid
  slot := by
    rw [count]
    exact holds.slots_after inside
  overflow := by
    intro id idInside
    rw [count] at idInside
    obtain ⟨shape, ownId⟩ := areasOf_eq_append_newest old
    rw [areasOf_append, holds.overflow id idInside, areasOf_append]
    by_cases own : area.dataAreaId = id
    · subst own
      have displacedSelf : areasOf area.dataAreaId [newest area.dataAreaId areas] =
          [newest area.dataAreaId areas] := by
        have self := areasOf_singleton_self (newest area.dataAreaId areas)
        rwa [ownId] at self
      rw [displacedSelf, areasOf_singleton_self, ← shape, dropLast_concat]
    · rw [areasOf_singleton_ne own, append_nil, areasOf_singleton_ne (by rw [ownId]; exact own),
        append_nil]
  overflowCount := by
    rw [map_append, map_singleton, displaced_append_old old, length_append, length_singleton, holds.overflowCount]
  doubled := by
    rw [count]
    exact doubled

theorem slot_read {id : Nat} (inside : id < storage.dataAreasCount) : storage.dataAreas[id]? = some (newest id areas) :=
  (holds.slot_get inside).trans (holds.slot id inside)

end

theorem newest_valid (old : area.dataAreaId ∈ areas.map dataAreaId) (valid : area.dataAreaId ≠ 0) :
    (!(newest area.dataAreaId areas).dataAreaValid) = false := by
  simp [dataAreaValid, (areasOf_eq_append_newest old).2, valid]

theorem store_first (holds : storage.Holds areas slots older free) (valid : area.dataAreaId ≠ 0)
    (inside : area.dataAreaId < storage.dataAreasCount) (new : area.dataAreaId ∉ areas.map dataAreaId) :
    ∃ after, storage.store area = .ok after ∧ after.dataAreasCount = storage.dataAreasCount ∧
      after.Holds (areas ++ [area]) (slots.set area.dataAreaId area) older free := by
  have outside : ¬ area.dataAreaId ≥ storage.dataAreasCount := by omega
  have cleared : (!(newest area.dataAreaId areas).dataAreaValid) = true := by
    simp [newest, areasOf_eq_nil new, dataAreaValid]
  have split := holds.set_slot inside area
  refine ⟨_, ?_, ?_, holds.first valid inside new split rfl rfl⟩
  · simp only [Storage.store, if_neg outside, holds.slot_read inside, cleared, if_true]
  · rfl

theorem store_again {spare : DataArea} (holds : storage.Holds areas slots older (spare :: free))
    (valid : area.dataAreaId ≠ 0) (inside : area.dataAreaId < storage.dataAreasCount)
    (old : area.dataAreaId ∈ areas.map dataAreaId) :
    ∃ after, storage.store area = .ok after ∧ after.dataAreasCount = storage.dataAreasCount ∧
      after.Holds (areas ++ [area]) (slots.set area.dataAreaId area)
        (older ++ [newest area.dataAreaId areas]) free := by
  have outside : ¬ area.dataAreaId ≥ storage.dataAreasCount := by omega
  have total := holds.total
  have size := holds.size
  have volume := holds.volume
  simp only [length_cons] at total
  have room : ¬ storage.size ≥ storage.volume := by omega
  have place : storage.size < storage.dataAreas.length := by omega
  have split := holds.displace inside (newest area.dataAreaId areas) area
  refine ⟨_, ?_, ?_, holds.again valid inside old split rfl holds.doubled⟩
  · simp [Storage.store, if_neg outside, holds.slot_read inside, newest_valid old valid, if_neg room, if_pos place]
  · rfl

theorem store_grown (holds : storage.Holds areas slots older []) (valid : area.dataAreaId ≠ 0)
    (inside : area.dataAreaId < storage.dataAreasCount)
    (old : area.dataAreaId ∈ areas.map dataAreaId) (room : 2 * storage.volume < 2 ^ 32) :
    ∃ after, storage.store area = .ok after ∧ after.dataAreasCount = storage.dataAreasCount ∧
      ∃ rest, after.Holds (areas ++ [area]) (slots.set area.dataAreaId area)
        (older ++ [newest area.dataAreaId areas]) rest := by
  have outside : ¬ area.dataAreaId ≥ storage.dataAreasCount := by omega
  have total := holds.total
  have size := holds.size
  simp only [length_nil] at total
  have full : storage.size ≥ storage.volume := by omega
  have grown := holds.grow room
  have spare : List.replicate storage.volume ({} : DataArea) =
      {} :: List.replicate (storage.volume - 1) {} := by
    rw [← replicate_succ]
    congr 1
    omega
  rw [spare] at grown
  have read : storage.moveToLargerHeapStorage.dataAreas[area.dataAreaId]? =
      some (newest area.dataAreaId areas) :=
    (grown.slot_get inside).trans (holds.slot _ inside)
  have place : storage.moveToLargerHeapStorage.size < storage.moveToLargerHeapStorage.dataAreas.length := by
    have total := grown.total
    have size := grown.size
    have volume := grown.volume
    simp only [length_cons] at total
    omega
  have doubled : ∃ doublings, storage.moveToLargerHeapStorage.volume =
      storage.dataAreasCount * 2 ^ doublings := by
    obtain ⟨doublings, volume⟩ := holds.doubled
    refine ⟨doublings + 1, ?_⟩
    have larger : storage.moveToLargerHeapStorage.volume = 2 * storage.volume := by
      simp only [Storage.moveToLargerHeapStorage]
      omega
    rw [larger, volume]
    ring
  have split := grown.displace inside (newest area.dataAreaId areas) area
  refine ⟨_, ?_, ?_, _, holds.again valid inside old split rfl doubled⟩
  · simp [Storage.store, if_neg outside, holds.slot_read inside, newest_valid old valid, if_pos full, read, if_pos place]
  · rfl

/-- A full storage that cannot be doubled in 32 bits writes past its end, or
reads past it when not even the slot is left. -/
theorem store_wrapped (holds : storage.Holds areas slots older []) (valid : area.dataAreaId ≠ 0)
    (inside : area.dataAreaId < storage.dataAreasCount)
    (old : area.dataAreaId ∈ areas.map dataAreaId) (wide : 2 ^ 32 ≤ 2 * storage.volume) :
    ∃ fault, storage.store area = .error fault := by
  have outside : ¬ area.dataAreaId ≥ storage.dataAreasCount := by omega
  have total := holds.total
  have size := holds.size
  simp only [length_nil] at total
  have full : storage.size ≥ storage.volume := by omega
  have noPlace : ¬ storage.moveToLargerHeapStorage.size < storage.moveToLargerHeapStorage.dataAreas.length :=
    Nat.not_lt.mpr (holds.wrapped wide)
  cases read : storage.moveToLargerHeapStorage.dataAreas[area.dataAreaId]? with
  | none =>
    simp [Storage.store, if_neg outside, holds.slot_read inside, newest_valid old valid, if_pos full, read]
  | some displacedArea =>
    simp [Storage.store, if_neg outside, holds.slot_read inside, newest_valid old valid, if_pos full, read, if_neg noPlace]

end Storage.Holds

def Storage.Stored (storage : Storage) (areas : List DataArea) : Prop :=
  ∃ slots older free, storage.Holds areas slots older free

/-- Everything one store can do to a slot's id: succeed, or fault because the
storage is full and its volume no longer fits when doubled. -/
theorem Storage.store_cases {storage : Storage} {areas : List DataArea} {area : DataArea}
    (stored : storage.Stored areas) (valid : area.dataAreaId ≠ 0) (inside : area.dataAreaId < storage.dataAreasCount) :
    (∃ after, storage.store area = .ok after ∧ after.dataAreasCount = storage.dataAreasCount ∧
        after.Stored (areas ++ [area])) ∨
      ((∃ fault, storage.store area = .error fault) ∧
        storage.dataAreasCount + displaced ((areas ++ [area]).map dataAreaId) =
          storage.volume + 1 ∧ 2 ^ 32 ≤ 2 * storage.volume) := by
  obtain ⟨slots, older, free, holds⟩ := stored
  by_cases old : area.dataAreaId ∈ areas.map dataAreaId
  · cases free with
    | cons spare rest =>
      obtain ⟨after, result, count, afterHolds⟩ := holds.store_again valid inside old
      exact .inl ⟨after, result, count, _, _, _, afterHolds⟩
    | nil =>
      by_cases room : 2 * storage.volume < 2 ^ 32
      · obtain ⟨after, result, count, rest, afterHolds⟩ := holds.store_grown valid inside old room
        exact .inl ⟨after, result, count, _, _, _, afterHolds⟩
      · have wide : 2 ^ 32 ≤ 2 * storage.volume := Nat.not_lt.mp room
        refine .inr ⟨holds.store_wrapped valid inside old wide, ?_, wide⟩
        have total := holds.total
        rw [map_append, map_singleton, displaced_append_old old, total, holds.overflowCount, length_nil]
        omega
  · obtain ⟨after, result, count, afterHolds⟩ := holds.store_first valid inside old
    exact .inl ⟨after, result, count, _, _, _, afterHolds⟩

end SmartPerf.Proto
