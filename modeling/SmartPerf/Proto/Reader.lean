import SmartPerf.Data.Base128

namespace SmartPerf.Proto

/-! The protobuf reader of `proto_reader`.

Addresses are offsets into one buffer, except where the source stores a pointer
in a `DataArea`.  Every read and every write that the source performs through a
pointer is checked here: leaving the buffer or the storage is a `Fault`, which
the source does not notice. -/

inductive Fault where
  | readOutOfBounds
  | writeOutOfBounds
  | diverged
deriving Repr, DecidableEq

def varIntValueBits : Nat := 7
def varIntValueMask : Nat := 0x7f
def varIntValueDecodeMaxOffset : Nat := 64
def byteHighestBitMark : Nat := 0x80
def dataAreaTypeBits : Nat := 3
def dataAreaTypeValue : Nat := 7
def kMessageLengthFieldSize : Nat := 4
def kMaxMessageLength : Nat := 2 ^ (kMessageLengthFieldSize * 7) - 1
def uint16Max : Nat := 2 ^ 16 - 1

/-- The bytes handed to a reader and the address they lie at. -/
structure Buffer where
  startAddr : Nat
  bytes : List UInt8
  addressable : startAddr + bytes.length < 2 ^ 64
  placed : bytes ≠ [] → 0 < startAddr

def readByte (bytes : List UInt8) (address : Nat) : Except Fault Nat :=
  match bytes[address]? with
  | some byte => .ok byte.toNat
  | none => .error .readOutOfBounds

/-- The body of `VarIntDecode`.  Ten turns always leave the loop, so the fuel
of `varIntDecode` is never used up. -/
def varIntDecodeLoop (bytes : List UInt8) (start stop : Nat) :
    Nat → Nat → Nat → Nat → Except Fault (Nat × Nat)
  | 0, _, _, _ => .error .diverged
  | fuel + 1, cursor, shift, temp =>
    match readByte bytes cursor with
    | .error fault => .error fault
    | .ok currentByte =>
      let temp := temp ||| ((currentByte &&& varIntValueMask) <<< shift) % 2 ^ 64
      if currentByte &&& byteHighestBitMark = 0 then .ok (temp, cursor + 1)
      else if cursor + 1 < stop ∧ shift + varIntValueBits < varIntValueDecodeMaxOffset then
        varIntDecodeLoop bytes start stop fuel (cursor + 1) (shift + varIntValueBits) temp
      else .ok (0, start)

/-- `VarIntDecode`: the value and the next address, or the start address when
no complete integer was found. -/
def varIntDecode (bytes : List UInt8) (start stop : Nat) : Except Fault (Nat × Nat) :=
  varIntDecodeLoop bytes start stop 10 start 0 0

/-- Enumerators of `ProtoWireType`. -/
inductive ProtoWireType where
  | kVarInt
  | kFixed64
  | kLengthDelimited
  | kFixed32
deriving Repr, DecidableEq

def ProtoWireType.code : ProtoWireType → Nat
  | .kVarInt => 0
  | .kFixed64 => 1
  | .kLengthDelimited => 2
  | .kFixed32 => 5

structure DataArea where
  intValue : Nat := 0
  size : Nat := 0
  dataAreaId : Nat := 0
  type : Nat := 0
deriving Repr, DecidableEq

variable (area : DataArea) (storage : Storage)

def DataArea.dataAreaValid : Bool := area.dataAreaId != 0

def DataArea.setDataAreaId (id : Nat) : DataArea :=
  { area with dataAreaId := id % 2 ^ 16 }

def DataArea.setDataAreaType (type : Nat) : DataArea :=
  { area with type := type % 2 ^ 8 }

def DataArea.setDataAreaIntValue (intValue : Nat) : DataArea :=
  { area with intValue := intValue % 2 ^ 64 }

def DataArea.setDataAreaSize (size : Nat) : DataArea :=
  { area with size := size % 2 ^ 32 }

inductive ParseProtoStatus where
  | abort
  | skip
  | ok
deriving Repr, DecidableEq

structure ParseDataAreaResult where
  status : ParseProtoStatus
  next : Nat
  dataArea : DataArea
deriving Repr, DecidableEq

/-- `GetNextProtoTag`: `none` stands for the null pointer. -/
def getNextProtoTag (bytes : List UInt8) (startAddr endAddr : Nat) : Except Fault (Option (Nat × Nat)) :=
  match readByte bytes startAddr with
  | .error fault => .error fault
  | .ok first =>
    if first &&& byteHighestBitMark ≠ 0 then
      match varIntDecode bytes startAddr endAddr with
      | .error fault => .error fault
      | .ok (tag, nextAddr) =>
        if nextAddr = startAddr then .ok none
        else if nextAddr ≥ endAddr then .ok none
        else .ok (some (tag, nextAddr))
    else if startAddr + 1 ≥ endAddr then .ok none
    else .ok (some (first, startAddr + 1))

def parseVarIntValue (result : ParseDataAreaResult) (bytes : List UInt8) (startAddr endAddr : Nat) :
    Except Fault ParseDataAreaResult :=
  match varIntDecode bytes startAddr endAddr with
  | .error fault => .error fault
  | .ok (intValue, cursor) =>
    if cursor = startAddr then .ok result
    else .ok ⟨.ok, cursor, result.dataArea.setDataAreaIntValue intValue⟩

/-- The stored value is the address of the payload, not a copy of it. -/
def parseLengthDelimitedValue (buffer : Buffer) (result : ParseDataAreaResult) (startAddr endAddr : Nat) :
    Except Fault ParseDataAreaResult :=
  match varIntDecode buffer.bytes startAddr endAddr with
  | .error fault => .error fault
  | .ok (length, cursor) =>
    if cursor = startAddr ∨ length > endAddr - cursor then .ok result
    else
      let dataArea := (result.dataArea.setDataAreaIntValue (buffer.startAddr + cursor)).setDataAreaSize length
      if length > kMaxMessageLength then .ok ⟨.skip, cursor + length, dataArea⟩
      else .ok ⟨.ok, cursor + length, dataArea⟩

/-- `ParseFixed32Value` and `ParseFixed64Value` differ in their width only. -/
def parseFixedValue (width : Nat) (result : ParseDataAreaResult) (bytes : List UInt8) (startAddr endAddr : Nat) :
    Except Fault ParseDataAreaResult :=
  if startAddr + width > endAddr then .ok result
  else if startAddr + width > bytes.length then .error .readOutOfBounds
  else
    let intValue := Data.ofLittleEndian ((bytes.drop startAddr).take width)
    .ok ⟨.ok, startAddr + width, result.dataArea.setDataAreaIntValue intValue⟩

def parseFixed32Value := parseFixedValue 4

def parseFixed64Value := parseFixedValue 8

/-- `DATA_AREA_TYPE_TO_PARSE_FUNC_MAP`, applied: an unknown type leaves the
aborted result as it is. -/
def parseValueByType (buffer : Buffer) (dataAreaType : Nat) (result : ParseDataAreaResult)
    (startAddr endAddr : Nat) : Except Fault ParseDataAreaResult :=
  if dataAreaType = ProtoWireType.kVarInt.code then
    parseVarIntValue result buffer.bytes startAddr endAddr
  else if dataAreaType = ProtoWireType.kLengthDelimited.code then
    parseLengthDelimitedValue buffer result startAddr endAddr
  else if dataAreaType = ProtoWireType.kFixed32.code then
    parseFixed32Value result buffer.bytes startAddr endAddr
  else if dataAreaType = ProtoWireType.kFixed64.code then
    parseFixed64Value result buffer.bytes startAddr endAddr
  else .ok result

def parseOneDataArea (buffer : Buffer) (startAddr : Nat) : Except Fault ParseDataAreaResult :=
  let endAddr := buffer.bytes.length
  let result : ParseDataAreaResult := ⟨.abort, startAddr, {}⟩
  if buffer.startAddr + startAddr = 0 ∨ startAddr ≥ endAddr then .ok result
  else
    match getNextProtoTag buffer.bytes startAddr endAddr with
    | .error fault => .error fault
    | .ok none => .ok result
    | .ok (some (dataAreaTag, cursor)) =>
      let dataAreaId := (dataAreaTag >>> dataAreaTypeBits) % 2 ^ 32
      if dataAreaId = 0 then .ok result
      -- only the tag is stepped over here, whatever its value is
      else if dataAreaId > uint16Max then .ok { result with status := .skip, next := cursor }
      else
        let dataAreaType := dataAreaTag % 2 ^ 8 &&& dataAreaTypeValue
        let dataArea := (result.dataArea.setDataAreaId dataAreaId).setDataAreaType dataAreaType
        parseValueByType buffer dataAreaType { result with dataArea } cursor endAddr

/-- The storage of a reader.  `dataAreas` is the whole allocation behind
`dataAreas_`; the first `dataAreasCount` areas are the fixed slots and the areas
up to `size` the shared overflow area. -/
structure Storage where
  dataAreas : List DataArea
  dataAreasCount : Nat
  size : Nat
  volume : Nat
deriving Repr, DecidableEq

/-- The constructor clears the slots that `TypedProtoReader` provides. -/
def Storage.new (dataAreasCount : Nat) : Storage where
  dataAreas := List.replicate dataAreasCount {}
  dataAreasCount := dataAreasCount
  size := dataAreasCount
  volume := dataAreasCount

/-- `MoveToLargerHeapStorage`.  `volume_` is a `uint32_t`, and `memcpy_s` copies
nothing when the destination is smaller than the source. -/
def Storage.moveToLargerHeapStorage : Storage :=
  let largerVolume := (storage.volume <<< 1) % 2 ^ 32
  let copied := if storage.size ≤ largerVolume then storage.dataAreas.take storage.size else []
  { storage with
    dataAreas := copied ++ List.replicate (largerVolume - copied.length) {}
    volume := largerVolume }

/-- The part of one turn of `ParseAllDataAreas` that follows a parsed area. -/
def Storage.store (area : DataArea) : Except Fault Storage :=
  let dataAreaId := area.dataAreaId
  if dataAreaId ≥ storage.dataAreasCount then .ok storage
  else
    match storage.dataAreas[dataAreaId]? with
    | none => .error .readOutOfBounds
    | some dataArea =>
      if !dataArea.dataAreaValid then
        .ok { storage with dataAreas := storage.dataAreas.set dataAreaId area }
      else
        let storage :=
          if storage.size ≥ storage.volume then storage.moveToLargerHeapStorage else storage
        match storage.dataAreas[dataAreaId]? with
        | none => .error .readOutOfBounds
        | some dataArea =>
          if storage.size < storage.dataAreas.length then
            .ok { storage with
              dataAreas := (storage.dataAreas.set storage.size dataArea).set dataAreaId area
              size := (storage.size + 1) % 2 ^ 32 }
          else .error .writeOutOfBounds

/-- The loop of `ParseAllDataAreas`.  Each turn that does not leave it reads at
least one byte, so one turn more than the buffer has bytes is enough. -/
def parseAllLoop (buffer : Buffer) : Nat → Nat → Storage → Except Fault Storage
  | 0, _, _ => .error .diverged
  | fuel + 1, cur, storage =>
    match parseOneDataArea buffer cur with
    | .error fault => .error fault
    | .ok result =>
      match result.status with
      | .skip => parseAllLoop buffer fuel result.next storage
      | .abort => .ok storage
      | .ok =>
        match storage.store result.dataArea with
        | .error fault => .error fault
        | .ok storage => parseAllLoop buffer fuel result.next storage

def parseAllDataAreas (buffer : Buffer) (storage : Storage) : Except Fault Storage :=
  parseAllLoop buffer (buffer.bytes.length + 1) 0 storage

structure ProtoReaderBase where
  buffer : Buffer
  currentReadAddr : Nat

/-- The loop of `ReadNextDataArea`: the area and the new read address. -/
def readNextLoop (buffer : Buffer) : Nat → Nat → Except Fault (DataArea × Nat)
  | 0, _ => .error .diverged
  | fuel + 1, currentReadAddr =>
    match parseOneDataArea buffer currentReadAddr with
    | .error fault => .error fault
    | .ok result =>
      if result.status = .skip then readNextLoop buffer fuel result.next
      else .ok (result.dataArea, result.next)

/-- Each skipped area takes at least one byte, so the fuel is never used up. -/
def ProtoReaderBase.readNextDataArea (reader : ProtoReaderBase) : Except Fault (DataArea × ProtoReaderBase) :=
  match readNextLoop reader.buffer (reader.buffer.bytes.length + 1) reader.currentReadAddr with
  | .error fault => .error fault
  | .ok (dataArea, next) => .ok (dataArea, { reader with currentReadAddr := next })

/-- The loop of `FindDataArea`. -/
def ProtoReaderBase.findLoop (dataAreaId : Nat) : Nat → ProtoReaderBase → Except Fault DataArea
  | 0, _ => .error .diverged
  | fuel + 1, reader =>
    match reader.readNextDataArea with
    | .error fault => .error fault
    | .ok (nextDataArea, after) =>
      if !nextDataArea.dataAreaValid then .ok {}
      else if nextDataArea.dataAreaId = dataAreaId then .ok nextDataArea
      else findLoop dataAreaId fuel after

/-- `FindDataArea`, which searches from the start and puts the read address back. -/
def ProtoReaderBase.findDataArea (reader : ProtoReaderBase) (dataAreaId fuel : Nat) :
    Except Fault (DataArea × ProtoReaderBase) :=
  let temp := reader.currentReadAddr
  let reader := { reader with currentReadAddr := 0 }
  match reader.findLoop dataAreaId fuel with
  | .error fault => .error fault
  | .ok dataArea => .ok (dataArea, { reader with currentReadAddr := temp })

/-- `MAX_DATA_AREA_ID` is an `int32_t` template argument, and the storage has
`MAX_DATA_AREA_ID + 1` slots, a number that is an `int32_t` again. -/
abbrev MaxDataAreaId := Fin (2 ^ 31 - 1)

/-- Construction of a `TypedProtoReader<MAX_DATA_AREA_ID>`. -/
def typedProtoReader (maxDataAreaId : MaxDataAreaId) (buffer : Buffer) : Except Fault Storage :=
  parseAllDataAreas buffer (Storage.new (maxDataAreaId.val + 1))

/-- `Get`: ids beyond the slots read slot zero. -/
def Storage.get (id : Nat) : Option DataArea :=
  if id < storage.dataAreasCount then storage.dataAreas[id]? else storage.dataAreas[0]?

/-- `RepeatedDataAreaIterator`, with indices into `dataAreas` for its pointers. -/
structure RepeatedDataAreaIterator where
  dataAreaId : Nat
  currentAddr : Nat
  endAddr : Nat
  lastAddr : Nat
deriving Repr, DecidableEq

def Storage.idAt (address : Nat) : Nat :=
  (storage.dataAreas[address]?.getD {}).dataAreaId

/-- `FindNextMatchingDataAreaId`.  The first argument is the distance from
`currentAddr_` to `endAddr_`, so that zero is the exit of its loop. -/
def Storage.findNextMatchingDataAreaId (storage : Storage) :
    Nat → RepeatedDataAreaIterator → RepeatedDataAreaIterator
  | 0, iterator =>
    if storage.idAt iterator.lastAddr ≠ 0 then { iterator with currentAddr := iterator.lastAddr }
    else { iterator with currentAddr := iterator.endAddr }
  | distance + 1, iterator =>
    if storage.idAt iterator.currentAddr = iterator.dataAreaId then iterator
    else storage.findNextMatchingDataAreaId distance
      { iterator with currentAddr := iterator.currentAddr + 1 }

def Storage.getRepeated (dataAreaId : Nat) : RepeatedDataAreaIterator :=
  storage.findNextMatchingDataAreaId (storage.size - storage.dataAreasCount)
    ⟨dataAreaId, storage.dataAreasCount, storage.size, dataAreaId⟩

/-- `operator++` of the iterator. -/
def Storage.advance (iterator : RepeatedDataAreaIterator) : RepeatedDataAreaIterator :=
  if iterator.currentAddr ≠ iterator.lastAddr then
    storage.findNextMatchingDataAreaId (iterator.endAddr - (iterator.currentAddr + 1))
      { iterator with currentAddr := iterator.currentAddr + 1 }
  else { iterator with currentAddr := iterator.endAddr }

/-- The areas that `for (auto i = GetRepeated(id); i; ++i)` visits. -/
def Storage.visited (storage : Storage) : Nat → RepeatedDataAreaIterator → Option (List DataArea)
  | 0, _ => none
  | fuel + 1, iterator =>
    if iterator.currentAddr = iterator.endAddr then some []
    else
      match storage.dataAreas[iterator.currentAddr]?, storage.visited fuel (storage.advance iterator) with
      | some area, some rest => some (area :: rest)
      | _, _ => none

def Storage.enumerate (dataAreaId : Nat) : Option (List DataArea) :=
  storage.visited (storage.size + 2) (storage.getRepeated dataAreaId)

end SmartPerf.Proto
