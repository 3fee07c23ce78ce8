import SmartPerf.Hdc.Packet

namespace SmartPerf.Hdc

open Data List DataProcessing DataMessage

/-! What a packet's reader makes of the bytes that its sender wrote. -/

section Heads

theorem setUint_length (count value : Nat) : (setUint count value).length = count := by
  rw [setUint, length_reverse, littleEndian_length]

theorem getUint_setUint (before after : List UInt8) (count value : Nat) :
    getUint (before ++ (setUint count value ++ after)) before.length count = some (value % 256 ^ count) := by
  have fits : before.length + count ≤ (before ++ (setUint count value ++ after)).length := by
    rw [length_append, length_append, setUint_length]
    omega
  have taken : (setUint count value ++ after).take count = setUint count value :=
    take_left' (setUint_length count value)
  rw [getUint, if_pos fits, drop_left, taken, setUint, reverse_reverse, ofLittleEndian_littleEndian_mod]

variable (head : PayloadHead)

theorem PayloadHead.getDataView_length : head.getDataView.length = 11 := by
  simp [PayloadHead.getDataView, setUint_length]

theorem PayloadHead.parsePlayHead_getDataView :
    ∃ parsed, PayloadHead.parsePlayHead head.getDataView = some parsed ∧
      parsed.headSize = head.headSize % 2 ^ 16 ∧ parsed.dataSize = head.dataSize % 2 ^ 32 := by
  have length := head.getDataView_length
  obtain ⟨start, first, view⟩ : ∃ start : List UInt8, start.length = 5 ∧
      head.getDataView = start ++ (setUint 2 head.headSize ++ setUint 4 head.dataSize) :=
    ⟨setUint 1 head.flag.1 ++ setUint 1 head.flag.2 ++ setUint 1 head.reserve.1 ++ setUint 1 head.reserve.2 ++
      setUint 1 head.protocolVer, by simp only [length_append, setUint_length], append_assoc _ _ _⟩
  have headSize := getUint_setUint start (setUint 4 head.dataSize) 2 head.headSize
  have dataSize := getUint_setUint (start ++ setUint 2 head.headSize) [] 4 head.dataSize
  rw [append_nil, append_assoc, length_append, setUint_length, first, ← view] at dataSize
  rw [first, ← view] at headSize
  have byte (offset : Nat) (inside : offset < 11) : ∃ value, getUint head.getDataView offset 1 = some value :=
    ⟨_, if_pos (by omega)⟩
  obtain ⟨flagZero, readFlagZero⟩ := byte 0 (by decide)
  obtain ⟨flagOne, readFlagOne⟩ := byte 1 (by decide)
  obtain ⟨reserveOne, readReserveOne⟩ := byte 3 (by decide)
  have whole : ¬ head.getDataView.length < 11 := by omega
  simp only [PayloadHead.parsePlayHead, readFlagZero, readFlagOne, readReserveOne, headSize, if_neg whole, dataSize]
  exact ⟨_, rfl, rfl, rfl⟩

end Heads

section Protect

variable {channelId commandFlag : Nat}

def afterChannelId (commandFlag checkSum vCode : Nat) : List UInt8 :=
  16 :: (writeVarIntU32 commandFlag ++ (serializeU8 3 checkSum ++ serializeU8 4 vCode))

theorem serializePayloadProtect_eq (channelId commandFlag checkSum vCode : Nat) :
    serializePayloadProtect channelId commandFlag checkSum vCode =
      8 :: (writeVarIntU32 channelId ++ afterChannelId commandFlag checkSum vCode) := by
  have first : writeTagWriteType 1 .varint = [8] := by decide
  have second : writeTagWriteType 2 .varint = [16] := by decide
  simp [serializePayloadProtect, serializeU32, first, second, afterChannelId]

theorem parsePayloadProtect_channelId {checkSum vCode : Nat} (word : channelId < 2 ^ 32) :
    (parsePayloadProtect (serializePayloadProtect channelId commandFlag checkSum vCode)).channelId =
      if channelId < 2 ^ 31 then (channelId : Int) else -1 := by
  rw [serializePayloadProtect_eq]
  exact readVarIntU32_writeVarIntU32 _ word

/-- The command flag is read one byte after the start of the channel id's successor tag, wherever the
channel id ends. -/
theorem parsePayloadProtect_commandFlag {checkSum vCode : Nat} (small : channelId < 2 ^ 31) (flag : commandFlag < 2 ^ 31) :
    (parsePayloadProtect (serializePayloadProtect channelId commandFlag checkSum vCode)).commandFlag =
      if channelId < 128 then (commandFlag : Int)
      else if channelId < 2 ^ 14 then 16 else ((channelId / 2 ^ 14 : Nat) : Int) := by
  have read : (parsePayloadProtect (serializePayloadProtect channelId commandFlag checkSum vCode)).commandFlag =
      readVarIntU32 ((base128 4 channelId ++ afterChannelId commandFlag checkSum vCode).drop 2) := by
    rw [serializePayloadProtect_eq, writeVarIntU32_eq small, parsePayloadProtect]
    simp
  rw [read]
  by_cases one : channelId < 128
  · rw [if_pos one, base128, if_pos one]
    exact (readVarIntU32_writeVarIntU32 _ (by omega)).trans (if_pos flag)
  · rw [if_neg one, base128, if_neg one]
    by_cases two : channelId < 2 ^ 14
    · have last : channelId / 128 < 128 := by omega
      rw [if_pos two, base128, if_pos last]
      rfl
    · have more : ¬ channelId / 128 < 128 := by omega
      have rest : channelId / 128 / 128 = channelId / 2 ^ 14 := Nat.div_div_eq_div_mul _ _ _
      rw [if_neg two, base128, if_neg more, rest]
      exact readVarIntU32_base128 _ (by norm_num; omega) (by decide) (by omega)

theorem writeVarIntU32_length_le (value : Nat) : (writeVarIntU32 value).length ≤ 5 := by
  have bounded (rounds : Nat) (word : BitVec 32) : (writeGroups rounds word).length ≤ rounds := by
    induction rounds generalizing word with
    | zero => exact Nat.le_refl 0
    | succ rounds ih =>
      rw [writeGroups]
      split
      · exact Nat.succ_le_succ (ih _)
      · exact Nat.succ_le_succ (Nat.zero_le rounds)
  exact bounded 5 _

theorem serializePayloadProtect_length_lt (channelId commandFlag checkSum vCode : Nat) :
    (serializePayloadProtect channelId commandFlag checkSum vCode).length < 2 ^ 16 := by
  have bytes := writeVarIntU32_length_le
  have first := bytes channelId
  have second := bytes commandFlag
  have third := bytes checkSum
  have fourth := bytes vCode
  have tag (number : Nat) := bytes (makeTagWireType number .varint)
  have tagOne := tag 1
  have tagTwo := tag 2
  have tagThree := tag 3
  have tagFour := tag 4
  simp only [serializePayloadProtect, serializeU8, serializeU32, writeTagWriteType, length_append]
  omega

end Protect

/-- The message has the packet's channel id, command flag and bytes. A message without a buffer has no bytes. -/
def DataMessage.Recovers (message : DataMessage) (channelId commandFlag : Nat) (data : List UInt8) : Prop :=
  message.channelId = channelId ∧ message.commandFlag = commandFlag ∧ message.payload = data

instance (message : DataMessage) (channelId commandFlag : Nat) (data : List UInt8) :
    Decidable (message.Recovers channelId commandFlag data) :=
  inferInstanceAs (Decidable (_ ∧ _ ∧ _))

/-- A body is taken apart at the places where its parts were put together; the size of the data is kept in
four bytes. -/
theorem DataMessage.new_finalBuf (usbHead : USBHead) (channelId commandFlag : Nat) (data : List UInt8) :
    ∃ body message, finalBuf channelId commandFlag data data.length = some body ∧
      new usbHead (some body) = some message ∧
      let protect := parsePayloadProtect
        (serializePayloadProtect channelId commandFlag DataProcessing.checkSum DataProcessing.vCode)
      message.channelId = protect.channelId ∧ message.commandFlag = protect.commandFlag ∧
        (protect.commandFlag ≠ cmdKernelChannelClose → message.payload = data.take (data.length % 2 ^ 32)) := by
  generalize protectBytes : serializePayloadProtect channelId commandFlag DataProcessing.checkSum DataProcessing.vCode = pbs
  have short : pbs.length < 2 ^ 16 := protectBytes ▸ serializePayloadProtect_length_lt _ _ _ _
  let head : PayloadHead :=
    { flag := packetFlag, reserve := (0, 0), protocolVer := 1, headSize := pbs.length, dataSize := data.length }
  have body : finalBuf channelId commandFlag data data.length = some (head.getDataView ++ (pbs ++ data)) := by
    simp [finalBuf, protectBytes, head]
  obtain ⟨parsed, parse, headSize, dataSize⟩ := head.parsePlayHead_getDataView
  have length := head.getDataView_length
  have size : parsed.headSize = pbs.length := headSize.trans (Nat.mod_eq_of_lt short)
  have headSlice : slice (head.getDataView ++ (pbs ++ data)) 0 11 = head.getDataView := take_left' length
  have protectSlice : slice (head.getDataView ++ (pbs ++ data)) 11 (11 + pbs.length) = pbs := by
    rw [slice, ← length, take_length_add_append, drop_left, take_left]
  have dataSlice : slice (head.getDataView ++ (pbs ++ data)) (11 + pbs.length) (11 + pbs.length + parsed.dataSize) =
      data.take (data.length % 2 ^ 32) := by
    rw [slice, ← length, Nat.add_assoc, take_length_add_append, take_length_add_append, ← append_assoc,
      ← length_append, drop_left, dataSize]
  have split : new usbHead (some (head.getDataView ++ (pbs ++ data))) =
      some (if (parsePayloadProtect pbs).commandFlag = cmdKernelChannelClose then
          { usbHead, channelId := (parsePayloadProtect pbs).channelId, commandFlag := (parsePayloadProtect pbs).commandFlag,
            channelClose := true }
        else if parsed.dataSize > 0 then
          { usbHead, channelId := (parsePayloadProtect pbs).channelId, commandFlag := (parsePayloadProtect pbs).commandFlag,
            resArrayBuffer := some (data.take (data.length % 2 ^ 32)) }
        else
          { usbHead, channelId := (parsePayloadProtect pbs).channelId,
            commandFlag := (parsePayloadProtect pbs).commandFlag }) := by
    simp only [new, splitData, headSlice, parse, size, protectSlice, dataSlice, Option.bind_eq_bind, Option.bind_some]
    split
    · rfl
    · split <;> rfl
  refine ⟨_, _, body, split, ?_, ?_, ?_⟩
  · split
    · rfl
    · split <;> rfl
  · split
    · rfl
    · split <;> rfl
  · intro other
    rw [if_neg other]
    by_cases some : parsed.dataSize > 0
    · rw [if_pos some]
      rfl
    · have none : data.length % 2 ^ 32 = 0 := by
        rw [dataSize] at some
        exact Nat.eq_zero_of_not_pos some
      rw [if_neg some, none]
      rfl

/-- For which packets the reader finds what the sender put in. A channel id of more than one byte moves the
command flag away from where it is read, and a channel id from 2^31 on is written as five bytes that do not
end. -/
def Survives (channelId commandFlag : Nat) (data : List UInt8) : Prop :=
  (channelId < 128 ∨ (128 ≤ channelId ∧ channelId < 2 ^ 14 ∧ commandFlag = 16) ∨
    (2 ^ 14 ≤ channelId ∧ channelId < 2 ^ 31 ∧ commandFlag = channelId / 2 ^ 14)) ∧
  data.length < 2 ^ 32

theorem take_mod_eq_iff (data : List UInt8) : data.take (data.length % 2 ^ 32) = data ↔ data.length < 2 ^ 32 := by
  rw [take_eq_self_iff]
  constructor
  · intro covered
    exact covered.trans_lt (Nat.mod_lt _ (by decide))
  · intro small
    exact (Nat.mod_eq_of_lt small).symm.le

/-- A packet that is sent arrives as it was exactly when it survives. -/
theorem send_recovers_iff (usbHead : USBHead) (sessionId channelId commandFlag : Nat) (data : List UInt8)
    (handedOut : 1 ≤ channelId ∧ channelId ≤ 4294967294) (flag : commandFlag ≤ 65535)
    (notClose : commandFlag ≠ cmdKernelChannelClose) :
    (∃ header body message, send sessionId channelId commandFlag data data.length = some (header, body) ∧
        new usbHead (some body) = some message ∧ message.Recovers channelId commandFlag data) ↔
      Survives channelId commandFlag data := by
  obtain ⟨body, message, sent, built, sameId, sameFlag, samePayload⟩ :=
    new_finalBuf usbHead channelId commandFlag data
  have written : send sessionId channelId commandFlag data data.length =
      some (buildPacketHeader sessionId usbOptionHeader body.length, body) := by
    rw [send, sent]
    rfl
  have only : (∃ header body message,
        send sessionId channelId commandFlag data data.length = some (header, body) ∧
        new usbHead (some body) = some message ∧ message.Recovers channelId commandFlag data) ↔
      message.Recovers channelId commandFlag data := by
    constructor
    · rintro ⟨header, other, received, otherSent, otherBuilt, recovers⟩
      rw [written, Option.some.injEq, Prod.mk.injEq] at otherSent
      rw [← otherSent.2, built, Option.some.injEq] at otherBuilt
      exact otherBuilt ▸ recovers
    · intro recovers
      exact ⟨_, body, message, written, built, recovers⟩
  rw [only, DataMessage.Recovers, sameId, sameFlag]
  rw [parsePayloadProtect_channelId (by omega)]
  by_cases small : channelId < 2 ^ 31
  · have flagRead := @parsePayloadProtect_commandFlag channelId commandFlag DataProcessing.checkSum DataProcessing.vCode
      small (by omega)
    rw [if_pos small]
    have payload : (parsePayloadProtect (serializePayloadProtect channelId commandFlag DataProcessing.checkSum
        DataProcessing.vCode)).commandFlag = commandFlag → (message.payload = data ↔ data.length < 2 ^ 32) := by
      intro same
      have other : (commandFlag : Int) ≠ cmdKernelChannelClose := fun equal => notClose (by exact_mod_cast equal)
      rw [samePayload (by rw [same]; exact other), take_mod_eq_iff]
    have place : (parsePayloadProtect (serializePayloadProtect channelId commandFlag DataProcessing.checkSum
        DataProcessing.vCode)).commandFlag = commandFlag ↔
        channelId < 128 ∨ (128 ≤ channelId ∧ channelId < 2 ^ 14 ∧ commandFlag = 16) ∨
          (2 ^ 14 ≤ channelId ∧ channelId < 2 ^ 31 ∧ commandFlag = channelId / 2 ^ 14) := by
      rw [flagRead]
      split
      · simp_all
      · split <;> omega
    rw [Survives, ← place]
    constructor
    · rintro ⟨_, same, whole⟩
      exact ⟨same, (payload same).mp whole⟩
    · rintro ⟨same, fits⟩
      exact ⟨rfl, same, (payload same).mpr fits⟩
  · rw [if_neg small, Survives]
    omega

theorem send_recovers_smallChannel :
    ∃ header body message, send 7 5 1001 [1, 2, 3] 3 = some (header, body) ∧
      new ⟨usbPacketFlag, 1, 7, 27⟩ (some body) = some message ∧ message.Recovers 5 1001 [1, 2, 3] :=
  (send_recovers_iff ⟨usbPacketFlag, 1, 7, 27⟩ 7 5 1001 [1, 2, 3] (by decide) (by decide) (by decide)).mpr
    ⟨.inl (by decide), by decide⟩

/-- The second byte of the channel id is taken for the tag of the command flag, and that tag for the flag. -/
theorem send_not_recovers_channel128 :
    ∃ header body message, send 7 128 1001 [1, 2, 3] 3 = some (header, body) ∧
      new ⟨usbPacketFlag, 1, 7, 28⟩ (some body) = some message ∧ message.commandFlag = 16 ∧
      ¬ message.Recovers 128 1001 [1, 2, 3] :=
  ⟨_, _, _, rfl, rfl, by decide, by decide⟩

end SmartPerf.Hdc
