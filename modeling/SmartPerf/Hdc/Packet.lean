import SmartPerf.Hdc.Serialize

namespace SmartPerf.Hdc

open Data

/-! Packets as `DataProcessing` writes them and `DataMessage` takes them apart. -/

/-- An unsigned integer of the given number of bytes, most significant byte first. -/
def setUint (count value : Nat) : List UInt8 := (littleEndian count value).reverse

/-- The unsigned integer at an offset; reading over the end is an error. -/
def getUint (data : List UInt8) (offset count : Nat) : Option Nat :=
  if offset + count ≤ data.length then some (ofLittleEndian ((data.drop offset).take count).reverse) else none

/-- `buffer.slice(first, last)`. -/
def slice (data : List UInt8) (first last : Nat) : List UInt8 := (data.take last).drop first

structure USBHead where
  flag : Nat × Nat
  option : Nat
  sessionId : Nat
  dataSize : Nat
deriving Repr, DecidableEq

namespace USBHead

def getUSBHeadLength : Nat := 11

def getDataView (head : USBHead) : List UInt8 :=
  setUint 1 head.flag.1 ++ setUint 1 head.flag.2 ++ setUint 1 head.option ++ setUint 4 head.sessionId ++
    setUint 4 head.dataSize

def parseHeadData (data : List UInt8) : Option USBHead := do
  let flagZero ← getUint data 0 1
  let flagOne ← getUint data 1 1
  let option ← getUint data 2 1
  let sessionId ← getUint data 3 4
  let dataSize ← getUint data 7 4
  some { flag := (flagZero, flagOne), option, sessionId, dataSize }

end USBHead

structure PayloadHead where
  flag : Nat × Nat
  reserve : Nat × Nat
  protocolVer : Nat
  headSize : Nat
  dataSize : Nat
deriving Repr, DecidableEq

namespace PayloadHead

def getDataView (head : PayloadHead) : List UInt8 :=
  setUint 1 head.flag.1 ++ setUint 1 head.flag.2 ++ setUint 1 head.reserve.1 ++ setUint 1 head.reserve.2 ++
    setUint 1 head.protocolVer ++ setUint 2 head.headSize ++ setUint 4 head.dataSize

def parsePlayHead (data : List UInt8) : Option PayloadHead := do
  let flagZero ← getUint data 0 1
  let flagOne ← getUint data 1 1
  let reserveZero ← getUint data 2 1
  let reserveOne ← getUint data 3 1
  let protocolVer ← getUint data 4 1
  let headSize ← getUint data 5 2
  let dataSize ← if data.length < 11 then some 0 else getUint data 7 4
  some { flag := (flagZero, flagOne), reserve := (reserveZero, reserveOne), protocolVer, headSize, dataSize }

end PayloadHead

/-- `HdcCommand.CMD_KERNEL_CHANNEL_CLOSE`. -/
def cmdKernelChannelClose : Nat := 2

/-- `UsbProtocolOption.USB_OPTION_HEADER`. -/
def usbOptionHeader : Nat := 1

/-- The characters of `PACKET_FLAG` and of `USB_PACKET_FLAG`. -/
def packetFlag : Nat × Nat := ('H'.toNat, 'W'.toNat)
def usbPacketFlag : Nat × Nat := ('U'.toNat, 'B'.toNat)

namespace DataProcessing

def vCode : Nat := 9
def checkSum : Nat := 0

def buildPacketHeader (sessionId option dataSize : Nat) : List UInt8 :=
  USBHead.getDataView { flag := usbPacketFlag, option, sessionId, dataSize }

/-- The body of a packet. Data that is longer than its size is an error; shorter data is followed by
zeros. -/
def finalBuf (channelId commandFlag : Nat) (data : List UInt8) (dataSize : Nat) : Option (List UInt8) :=
  let pbs := serializePayloadProtect channelId commandFlag checkSum vCode
  let payloadHead : PayloadHead :=
    { flag := packetFlag, reserve := (0, 0), protocolVer := 1, headSize := pbs.length, dataSize }
  if data.length ≤ dataSize then
    some (payloadHead.getDataView ++ pbs ++ data ++ List.replicate (dataSize - data.length) 0)
  else none

/-- What is written to an open transmission channel: the head and the body. -/
def send (sessionId channelId commandFlag : Nat) (data : List UInt8) (dataSize : Nat) : Option (List UInt8 × List UInt8) := do
  let body ← finalBuf channelId commandFlag data dataSize
  some (buildPacketHeader sessionId usbOptionHeader body.length, body)

end DataProcessing

/-- A message; -1 and no buffer stand for what is not set. -/
structure DataMessage where
  usbHead : USBHead
  channelId : Int := -1
  commandFlag : Int := -1
  channelClose : Bool := false
  resArrayBuffer : Option (List UInt8) := none
deriving Repr, DecidableEq

namespace DataMessage

def splitData (message : DataMessage) (body : List UInt8) : Option DataMessage := do
  let resultPayloadHead ← PayloadHead.parsePlayHead (slice body 0 11)
  let headSize := resultPayloadHead.headSize
  let dataSize := resultPayloadHead.dataSize
  let payloadProtect := parsePayloadProtect (slice body 11 (11 + headSize))
  let message := { message with channelId := payloadProtect.channelId, commandFlag := payloadProtect.commandFlag }
  if payloadProtect.commandFlag = cmdKernelChannelClose then some { message with channelClose := true }
  else if dataSize > 0 then
    some { message with resArrayBuffer := some (slice body (11 + headSize) (11 + headSize + dataSize)) }
  else some message

/-- The constructor; an error in taking the body apart leaves no message. -/
def new (usbHead : USBHead) (body : Option (List UInt8)) : Option DataMessage :=
  match body with
  | none => some { usbHead }
  | some body => splitData { usbHead } body

def payload (message : DataMessage) : List UInt8 := message.resArrayBuffer.getD []

end DataMessage

end SmartPerf.Hdc
