import SmartPerf.Split.PerfDataParser

namespace SmartPerf.Split

open Data List

/-! Well-formed perf files, and what cutting one to a time range should give. -/

/-- Where a feature section lies and how long it is. -/
structure FeatureDescriptor where
  offset : Nat
  size : Nat
  offset_lt : offset < 2 ^ 64
  size_lt : size < 2 ^ 64

namespace FeatureDescriptor

def bytes (descriptor : FeatureDescriptor) : List UInt8 := littleEndian 8 descriptor.offset ++ littleEndian 8 descriptor.size

def lower (dropped : Nat) (descriptor : FeatureDescriptor) : FeatureDescriptor where
  offset := descriptor.offset - dropped
  size := descriptor.size
  offset_lt := lt_of_le_of_lt (Nat.sub_le _ _) descriptor.offset_lt
  size_lt := descriptor.size_lt

theorem bytes_length (descriptor : FeatureDescriptor) : descriptor.bytes.length = perfFileSectionSize := by
  rfl

end FeatureDescriptor

def tableBytes (features : List FeatureDescriptor) : List UInt8 := features.flatMap FeatureDescriptor.bytes

/-- A file whose header tells where its parts are, with a clock that the trace knows and with times in its samples. -/
structure PerfFile where
  header : List UInt8
  attrsGap : List UInt8
  attrs : List UInt8
  dataGap : List UInt8
  records : List (List UInt8)
  features : List FeatureDescriptor
  rest : List UInt8
  header_length : header.length = perfFileHeaderSize
  magic : header.take 8 = perfMagic
  attrs_at : headAttrsOffset header = perfFileHeaderSize + attrsGap.length
  attrs_size : headAttrsSize header = attrs.length
  attrs_count : attrs.length / headAttrSize header % 2 ^ 32 ≠ 0
  attrs_hold : 96 ≤ attrs.length
  data_at : headDataOffset header = perfFileHeaderSize + attrsGap.length + attrs.length + dataGap.length
  data_size : headDataSize header = records.flatten.length
  sized : ∀ record ∈ records, perfEventHeaderSize ≤ record.length ∧ eventSize record = record.length
  features_count : countFeatures (headFeatures header) = features.length
  features_some : features ≠ []
  features_after : ∀ descriptor ∈ features, headDataOffset header + headDataSize header ≤ descriptor.offset
  clock : Nat
  clock_used : attrUseClockId attrs = 1
  clock_known : perfToTSClockType (attrClockId attrs) = some clock
  timed : (attrSampleType attrs).testBit perfSampleTime
  times_there : ∀ record ∈ records, eventType record = perfRecordSample →
    perfEventHeaderSize + sampleTimeOffsetOf (attrSampleType attrs) + 8 ≤ record.length
  small : perfFileHeaderSize + attrsGap.length + attrs.length + dataGap.length + records.flatten.length +
    (tableBytes features).length + rest.length < 2 ^ 63

namespace PerfFile

variable (file : PerfFile)

def attrsAt : Nat := perfFileHeaderSize + file.attrsGap.length
def attrsEnd : Nat := file.attrsAt + file.attrs.length
def dataAt : Nat := file.attrsEnd + file.dataGap.length
def dataEnd : Nat := file.dataAt + file.records.flatten.length
def tableEnd : Nat := file.dataEnd + (tableBytes file.features).length

def bytes : List UInt8 :=
  file.header ++ (file.attrsGap ++ (file.attrs ++ (file.dataGap ++
    (file.records.flatten ++ (tableBytes file.features ++ file.rest)))))

variable (request : SplitRequest) (record : List UInt8)

def sampleTime : Nat :=
  request.toPrimaryTraceTime file.clock
    (wordAt record (perfEventHeaderSize + sampleTimeOffsetOf (attrSampleType file.attrs)) 8)

def isEarly : Bool :=
  eventType record = perfRecordSample ∧ file.sampleTime request record < request.splitFileMinTime

def isLate : Bool :=
  eventType record = perfRecordSample ∧ request.splitFileMaxTime < file.sampleTime request record

/-- The records before the first sample behind the range, without the samples before it. -/
def keep (records : List (List UInt8)) : List (List UInt8) :=
  (records.takeWhile fun record => !file.isLate request record).filter fun record => !file.isEarly request record

def kept : List (List UInt8) := file.keep request file.records

def dropped : Nat := file.records.flatten.length - (file.kept request).flatten.length

def cut : List UInt8 :=
  setWord file.header 48 8 (file.kept request).flatten.length ++ (file.attrsGap ++ (file.attrs ++ (file.dataGap ++
    ((file.kept request).flatten ++ (tableBytes (file.features.map (·.lower (file.dropped request))) ++ file.rest)))))

variable {file} {request : SplitRequest}

theorem bytes_length : file.bytes.length = file.tableEnd + file.rest.length := by
  simp only [bytes, length_append, tableEnd, dataEnd, dataAt, attrsEnd, attrsAt, file.header_length]
  omega

theorem bytes_drop_header : file.bytes.drop perfFileHeaderSize =
    file.attrsGap ++ (file.attrs ++ (file.dataGap ++ (file.records.flatten ++ (tableBytes file.features ++ file.rest)))) := by
  rw [bytes, ← file.header_length, drop_left]

theorem bytes_drop_attrs : file.bytes.drop file.attrsAt =
    file.attrs ++ (file.dataGap ++ (file.records.flatten ++ (tableBytes file.features ++ file.rest))) := by
  rw [attrsAt, ← drop_drop, bytes_drop_header, drop_left]

theorem bytes_drop_data : file.bytes.drop file.dataAt =
    file.records.flatten ++ (tableBytes file.features ++ file.rest) := by
  rw [dataAt, attrsEnd, ← drop_drop, ← drop_drop, bytes_drop_attrs, drop_left, drop_left]

theorem bytes_drop_dataEnd : file.bytes.drop file.dataEnd = tableBytes file.features ++ file.rest := by
  rw [dataEnd, ← drop_drop, bytes_drop_data, drop_left]

theorem bytes_drop_tableEnd : file.bytes.drop file.tableEnd = file.rest := by
  rw [tableEnd, ← drop_drop, bytes_drop_dataEnd, drop_left]

theorem bytes_drop_records {done todo : List (List UInt8)} (split : file.records = done ++ todo) :
    file.bytes.drop (file.dataAt + done.flatten.length) = todo.flatten ++ (tableBytes file.features ++ file.rest) := by
  rw [← drop_drop, bytes_drop_data, split, List.flatten_append, append_assoc, drop_left]

theorem tableBytes_length (features : List FeatureDescriptor) :
    (tableBytes features).length = features.length * perfFileSectionSize := by
  induction features with
  | nil => simp [tableBytes]
  | cons first rest ih =>
    rw [tableBytes, flatMap_cons, length_append, first.bytes_length, length_cons, Nat.succ_mul]
    rw [tableBytes] at ih
    omega

theorem lowerOffsets_tableBytes (dropped : Nat) (features : List FeatureDescriptor)
    (behind : ∀ descriptor ∈ features, dropped ≤ descriptor.offset) :
    lowerOffsets dropped features.length (tableBytes features) = tableBytes (features.map (·.lower dropped)) := by
  induction features with
  | nil => rfl
  | cons first rest ih =>
    have table : tableBytes (first :: rest) =
        littleEndian 8 first.offset ++ (littleEndian 8 first.size ++ tableBytes rest) := by
      rw [tableBytes, flatMap_cons, FeatureDescriptor.bytes, append_assoc, tableBytes]
    have offset : wordAt (tableBytes (first :: rest)) 0 8 = first.offset := by
      exact ofLittleEndian_littleEndian 8 first.offset first.offset_lt
    have size : sliceAt (tableBytes (first :: rest)) 8 8 = littleEndian 8 first.size := by
      rw [sliceAt, table, drop_left' (littleEndian_length _ _), take_left' (littleEndian_length _ _)]
    have others : (tableBytes (first :: rest)).drop perfFileSectionSize = tableBytes rest := by
      rw [tableBytes, flatMap_cons, drop_left' first.bytes_length, tableBytes]
    have lowered := subUint64_of_le (behind first mem_cons_self) first.offset_lt
    have rest_lowered := ih (forall_mem_of_forall_mem_cons behind)
    rw [length_cons, lowerOffsets, offset, size, others, lowered, rest_lowered]
    rfl

theorem tableEnd_lt : file.tableEnd < 2 ^ 63 := by
  have small := file.small
  simp only [tableEnd, dataEnd, dataAt, attrsEnd, attrsAt]
  omega

theorem dataEnd_lt : file.dataEnd < 2 ^ 63 := lt_of_le_of_lt (Nat.le_add_right _ _) file.tableEnd_lt

theorem keep_cons (record : List UInt8) (rest : List (List UInt8)) :
    file.keep request (record :: rest) =
      if file.isLate request record then []
      else if file.isEarly request record then file.keep request rest else record :: file.keep request rest := by
  rw [keep, keep, takeWhile_cons]
  cases late : file.isLate request record with
  | true => rfl
  | false => cases early : file.isEarly request record <;> simp [early]

theorem keep_concat (done : List (List UInt8)) (record : List UInt8) :
    file.keep request (done ++ [record]) =
      file.keep request done ++
        if done.any (file.isLate request) ∨ file.isLate request record ∨ file.isEarly request record then [] else [record] := by
  induction done with
  | nil =>
    rw [nil_append, keep_cons]
    cases late : file.isLate request record <;> cases early : file.isEarly request record <;> simp [keep]
  | cons first rest ih =>
    rw [cons_append, keep_cons, keep_cons, ih]
    cases late : file.isLate request first with
    | true => simp [late]
    | false => cases early : file.isEarly request first <;> simp [late]

theorem kept_length_le : (file.kept request).flatten.length ≤ file.records.flatten.length :=
  (filter_sublist.trans (takeWhile_sublist _)).flatten.length_le

theorem dropped_le_offset {descriptor : FeatureDescriptor} (listed : descriptor ∈ file.features) :
    file.dropped request ≤ descriptor.offset := by
  have after := file.features_after descriptor listed
  rw [file.data_size] at after
  rw [dropped]
  omega

theorem header_setWord_length (value : Nat) : (setWord file.header 48 8 value).length = perfFileHeaderSize := by
  rw [setWord_length (by rw [file.header_length]; decide), file.header_length]

theorem cut_drop (file : PerfFile) (request : SplitRequest) :
    (file.cut request).drop (file.tableEnd - file.dropped request) = file.rest := by
  have front : file.cut request =
      (setWord file.header 48 8 (file.kept request).flatten.length ++ file.attrsGap ++ file.attrs ++ file.dataGap ++
        (file.kept request).flatten ++ tableBytes (file.features.map (·.lower (file.dropped request)))) ++ file.rest := by
    simp [cut]
  have kept_le := @kept_length_le file request
  rw [front]
  refine drop_left' ?_
  simp only [length_append, header_setWord_length, tableBytes_length,
    length_map, tableEnd, dataEnd, dataAt, attrsEnd, attrsAt, dropped]
  omega

theorem sliceAt_cut (file : PerfFile) (request : SplitRequest) {descriptor : FeatureDescriptor}
    (behind : file.tableEnd ≤ descriptor.offset) :
    sliceAt (file.cut request) (descriptor.lower (file.dropped request)).offset descriptor.size =
      sliceAt file.bytes descriptor.offset descriptor.size := by
  have dropped_le : file.dropped request ≤ file.tableEnd := by
    rw [dropped, tableEnd, dataEnd]
    omega
  obtain ⟨past, offset⟩ := Nat.exists_eq_add_of_le behind
  have lowered : (descriptor.lower (file.dropped request)).offset = file.tableEnd - file.dropped request + past := by
    change descriptor.offset - file.dropped request = _
    omega
  rw [lowered, offset, sliceAt, sliceAt, ← drop_drop, ← drop_drop, cut_drop, bytes_drop_tableEnd]

end PerfFile

end SmartPerf.Split
