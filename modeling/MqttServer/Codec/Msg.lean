import MqttServer.Codec.Pkt

/-!
# `Codec.Msg` — the MQTT messages the broker decodes and encodes

`mqttc++/mqtt_msg.cpp`. A decoder is a `PktM` program over the whole packet, `none` standing for the
source's `-1`. An encoder writes into a buffer of given size with unchecked writes and compares the length
reached with the length announced at the end; `none` stands for its `-1`.
-/

namespace MqttServer

/-- `MqttType`, the upper nibble of the fixed header. -/
inductive MqttType where
  | reserved1 | connect | connack | publish | puback | pubrec | pubrel | pubcomp
  | subscribe | suback | unsubscribe | unsuback | pingreq | pingresp | disconnect | reserved2
deriving DecidableEq, Repr

namespace MqttType

/-- The cast `(MqttType)nibble`. -/
def ofNibble : Nat → MqttType
  | 1 => connect | 2 => connack | 3 => publish | 4 => puback | 5 => pubrec | 6 => pubrel
  | 7 => pubcomp | 8 => subscribe | 9 => suback | 10 => unsubscribe | 11 => unsuback
  | 12 => pingreq | 13 => pingresp | 14 => disconnect | 15 => reserved2 | _ => reserved1

/-- The nibble of a type. -/
def nibble : MqttType → Nat
  | reserved1 => 0 | connect => 1 | connack => 2 | publish => 3 | puback => 4 | pubrec => 5
  | pubrel => 6 | pubcomp => 7 | subscribe => 8 | suback => 9 | unsubscribe => 10
  | unsuback => 11 | pingreq => 12 | pingresp => 13 | disconnect => 14 | reserved2 => 15

end MqttType

/-- `CMqttFixedHeader`. -/
structure FixedHeader where
  msgType : MqttType
  dupFlag : Bool := false
  qos : Nat := 0
  retainFlag : Bool := false
deriving DecidableEq, Repr

namespace FixedHeader

/-- `CMqttFixedHeader::decode`, through the bit fields of `FixHeaderFlag`. -/
def decode (value : UInt8) : FixedHeader :=
  { msgType := MqttType.ofNibble (value.toNat / 16)
    dupFlag := value.toNat / 8 % 2 = 1
    qos := value.toNat / 2 % 4
    retainFlag := value.toNat % 2 = 1 }

/-- `CMqttFixedHeader::encode`. -/
def encode (h : FixedHeader) : UInt8 :=
  UInt8.ofNat (h.msgType.nibble * 16 + h.dupFlag.toNat * 8 + h.qos % 4 * 2 + h.retainFlag.toNat)

end FixedHeader

/-- `CMqttMsg::decode`: the fixed header and the remaining length. -/
def decodeHeader : PktM FixedHeader := do
  let fixedHeader ← PktM.readByte
  let _ ← PktM.readRemainLength
  pure (FixedHeader.decode fixedHeader)

/-- `CMqttMsg::encode` into a buffer. -/
def encodeHeaderInto (buf : ByteStr) (h : FixedHeader) : Pkt := (Pkt.ofBuf buf).writeByte h.encode

/-- `CMqttMsg::encode` into a buffer of `size` bytes. -/
def encodeHeader (size : Nat) (h : FixedHeader) : Pkt := encodeHeaderInto (List.replicate size 0) h

/-- Run a decoder on a whole packet. -/
def PktM.decode {α : Type} (x : PktM α) (buf : ByteStr) : Option α := (x (Pkt.ofBuf buf)).1

/-- The end of an encoder: the bytes written, if the length reached is the one expected. -/
def Pkt.finish (p : Pkt) (pktLen : Nat) : Option ByteStr :=
  if p.offset = pktLen then some (p.buf.take pktLen) else none

/-! ## CONNECT and CONNACK -/

/-- The fields of a decoded `CMqttConnect`. -/
structure Connect where
  protoName : ByteStr
  protoVersion : Nat
  cleanSession : Bool
  keepAlive : Nat
  clientId : ByteStr
  willTopic : ByteStr
  willMessage : ByteStr
  userName : ByteStr
  password : ByteStr
deriving DecidableEq, Repr

/-- Read a string when its flag is set; the field stays empty otherwise. -/
def readStringIf (flag : Bool) : PktM ByteStr :=
  if flag then PktM.readString else pure []

/-- `CMqttConnect::decode`. -/
def Connect.decode : PktM Connect := do
  let header ← decodeHeader
  if header.msgType ≠ .connect then PktM.failture
  else do
    let protoName ← PktM.readString
    let protoVersion ← PktM.readByte
    let flag ← PktM.readByte
    let keepAlive ← PktM.readShort
    let clientId ← PktM.readString
    let willTopic ← readStringIf (flag.toNat / 4 % 2 = 1)
    let willMessage ← readStringIf (flag.toNat / 4 % 2 = 1)
    let userName ← readStringIf (flag.toNat / 128 % 2 = 1)
    let password ← readStringIf (flag.toNat / 64 % 2 = 1)
    pure
      { protoName, protoVersion := protoVersion.toNat
        cleanSession := flag.toNat / 2 % 2 = 1
        keepAlive, clientId, willTopic, willMessage, userName, password }

/-- The protocol name `encode` sets. -/
def mqIsdp : ByteStr := [77, 81, 73, 115, 100, 112]

/-- `CMqttConnect::encode` into a buffer: the length it returns, and the buffer. The writes are as unchecked as in the other
    encoders, and here the length reached is not compared with the one announced. -/
def Connect.encodeInto (buf : ByteStr) (header : FixedHeader) (clientId : ByteStr) (cleanSession : Bool) :
    Nat × ByteStr :=
  let remainLength := (2 + mqIsdp.length + 1 + 1 + 2 + (2 + clientId.length)) % 2 ^ 32
  let p := (encodeHeaderInto buf header).writeRemainLength remainLength
  let p := ((p.writeString mqIsdp).writeByte 3).writeByte (UInt8.ofNat (cleanSession.toNat * 2))
  let p := (p.writeShort 60).writeString clientId
  (p.offset, p.buf)

/-- `CMqttConnAck::Code`. -/
inductive ConnAckCode where
  | accepted | badVersion | badId | serverUnavailable | badUserOrPwd | noAuth
deriving DecidableEq, Repr

/-- The numeric value of a code. -/
def ConnAckCode.value : ConnAckCode → Nat
  | accepted => 0 | badVersion => 1 | badId => 2 | serverUnavailable => 3
  | badUserOrPwd => 4 | noAuth => 5

/-- `CMqttConnAck::encode` into a buffer, for a message with this header and this code byte. -/
def ConnAck.encodeInto (buf : ByteStr) (header : FixedHeader) (code : UInt8) : Option ByteStr :=
  ((((encodeHeaderInto buf header).writeRemainLength 2).writeByte 0).writeByte code).finish 4

/-- `CMqttConnAck::decode`: header, reserved byte and code. -/
def ConnAck.decode : PktM (FixedHeader × UInt8 × UInt8) := do
  let header ← decodeHeader
  if header.msgType ≠ .connack then PktM.failture
  else do
    let reserved ← PktM.readByte
    let code ← PktM.readByte
    pure (header, reserved, code)

/-- `CMqttConnAck::encode`, as the broker calls it. -/
def encodeConnAck (size : Nat) (code : ConnAckCode) : Option ByteStr :=
  ConnAck.encodeInto (List.replicate size 0) { msgType := .connack } (UInt8.ofNat code.value)

/-! ## SUBSCRIBE, UNSUBSCRIBE and their acknowledgements -/

/-- `CTopic`; equality compares the name and the QoS. -/
structure Topic where
  topicName : ByteStr
  qos : UInt8
deriving DecidableEq, Repr

/-- A decoded `CMqttSubscribe`. -/
structure Subscribe where
  msgId : Nat
  subTopics : List Topic
deriving DecidableEq, Repr

/-- `topics_name()`. -/
def Subscribe.topicsName (m : Subscribe) : List ByteStr := m.subTopics.map (·.topicName)

/-- `topics_qos()`. -/
def Subscribe.topicsQos (m : Subscribe) : List UInt8 := m.subTopics.map (·.qos)

/-- The `while (read_string(…) != FAILTURE)` loop of the SUBSCRIBE decoder. Each round consumes at least
    three bytes, so the packet length is fuel enough. -/
def readTopics : Nat → PktM (List Topic)
  | 0 => pure []
  | fuel + 1 => fun p =>
      match PktM.readString p with
      | (none, p') => (some [], p')
      | (some topicName, p') =>
          match PktM.readByte p' with
          | (none, p'') => (some [], p'')
          | (some qos, p'') =>
              match readTopics fuel p'' with
              | (some rest, p''') => (some ({ topicName, qos } :: rest), p''')
              | (none, p''') => (none, p''')

/-- The loop with the fuel the packet gives. -/
def readAllTopics : PktM (List Topic) := fun p => readTopics p.buf.length p

/-- `CMqttSubscribe::decode`, with the header it has read. -/
def Subscribe.decodeFull : PktM (FixedHeader × Subscribe) := do
  let header ← decodeHeader
  if header.msgType ≠ .subscribe then PktM.failture
  else do
    let msgId ← PktM.readShort
    let subTopics ← readAllTopics
    pure (header, { msgId, subTopics })

/-- `CMqttSubscribe::decode`. -/
def Subscribe.decode : PktM Subscribe := do
  let (_, m) ← Subscribe.decodeFull
  pure m

/-- The loop of `CMqttSubscribe::encode`: every topic with its length, and its QoS. -/
def writeTopics (p : Pkt) (topics : List Topic) : Pkt :=
  topics.foldl (fun p t => (p.writeString t.topicName).writeByte t.qos) p

/-- `CMqttSubscribe::encode` into a buffer. -/
def Subscribe.encodeInto (buf : ByteStr) (header : FixedHeader) (m : Subscribe) : Option ByteStr :=
  if m.subTopics = [] then none
  else
    let payloadLen := (m.subTopics.map fun t => t.topicName.length + 2 + 1).sum
    let remainLength := (payloadLen + 2) % 2 ^ 32
    let p := ((encodeHeaderInto buf header).writeRemainLength remainLength).writeShort m.msgId
    (writeTopics p m.subTopics).finish (remainLength + (Pkt.lengthDigits 5 remainLength).length + 1)

/-- A `CMqttSubAck`. -/
structure SubAck where
  msgId : Nat
  subQos : List UInt8
deriving DecidableEq, Repr

/-- `CMqttSubAck::encode` into a buffer. -/
def SubAck.encodeInto (buf : ByteStr) (header : FixedHeader) (m : SubAck) : Option ByteStr :=
  let remainLength := (m.subQos.length + 2) % 2 ^ 32
  let p := ((encodeHeaderInto buf header).writeRemainLength remainLength).writeShort m.msgId
  let p := m.subQos.foldl (fun p qos => p.writeByte qos) p
  p.finish (remainLength + (Pkt.lengthDigits 5 remainLength).length + 1)

/-- `CMqttSubAck::encode`, as the broker calls it. -/
def encodeSubAck (size msgId : Nat) (subQos : List UInt8) : Option ByteStr :=
  SubAck.encodeInto (List.replicate size 0) { msgType := .suback } { msgId, subQos }

/-- `read_byte(qos)` with its result not looked at: one that fails leaves `qos` as it is. -/
def PktM.readByteOver (qos : UInt8) : PktM UInt8 := fun p =>
  (some ((PktM.readByte p).1.getD qos), (PktM.readByte p).2)

/-- `uint8_t left_size = left_size()`. -/
def PktM.leftSizeByte : PktM Nat := fun p => (some (p.leftSize % 256).toNat, p)

/-- The loop of `CMqttSubAck::decode`. -/
def readCodes : (leftSize : Nat) → (qos : UInt8) → PktM (List UInt8)
  | 0, _ => pure []
  | leftSize + 1, qos => do
      let qos ← PktM.readByteOver qos
      let subQos ← readCodes leftSize qos
      pure (qos :: subQos)

/-- `CMqttSubAck::decode`. `m_msg_id` is not assigned: it stays what it was when the object was made. -/
def SubAck.decode (msgId : Nat) : PktM SubAck := do
  let header ← decodeHeader
  if header.msgType ≠ .suback then PktM.failture
  else do
    let leftSize ← PktM.leftSizeByte
    let subQos ← readCodes leftSize 0
    pure { msgId, subQos }

/-- A decoded `CMqttUnsubscribe`. -/
structure Unsubscribe where
  msgId : Nat
  topicsName : List ByteStr
deriving DecidableEq, Repr

/-- The topic loop of the UNSUBSCRIBE decoder; each round consumes at least two bytes. -/
def readNames : Nat → PktM (List ByteStr)
  | 0 => pure []
  | fuel + 1 => fun p =>
      match PktM.readString p with
      | (none, p') => (some [], p')
      | (some topicName, p') =>
          match readNames fuel p' with
          | (some rest, p'') => (some (topicName :: rest), p'')
          | (none, p'') => (none, p'')

/-- `CMqttUnsubscribe::decode`. -/
def Unsubscribe.decode : PktM Unsubscribe := do
  let header ← decodeHeader
  if header.msgType ≠ .unsubscribe then PktM.failture
  else do
    let msgId ← PktM.readShort
    let topicsName ← fun p => readNames p.buf.length p
    pure { msgId, topicsName }

/-- `CMqttUnsubAck::encode`. -/
def encodeUnsubAck (size msgId : Nat) : Option ByteStr :=
  (((encodeHeader size { msgType := .unsuback }).writeRemainLength 2).writeShort msgId).finish 4

/-! ## PUBLISH and PUBACK -/

/-- A `CMqttPublish`; `msgIdOffset` is where the packet identifier was found. -/
structure Publish where
  header : FixedHeader
  topicName : ByteStr
  msgId : Nat
  payload : ByteStr
  msgIdOffset : Nat := 0
deriving DecidableEq, Repr

/-- `CMqttPublish::decode`. The packet identifier is read whatever the QoS, and the message type is not
    checked. -/
def Publish.decode : PktM Publish := do
  let header ← decodeHeader
  let topicName ← PktM.readString
  let msgIdOffset ← PktM.length
  let msgId ← PktM.readShort
  let payload ← PktM.readRest
  pure { header, topicName, msgId, payload, msgIdOffset }

/-- `CMqttPublish::encode` into a buffer. -/
def Publish.encodeInto (buf : ByteStr) (m : Publish) : Option ByteStr :=
  let remainLength := (m.topicName.length + 2 + 2 + m.payload.length) % 2 ^ 32
  let p := (encodeHeaderInto buf m.header).writeRemainLength remainLength
  let p := ((p.writeString m.topicName).writeShort m.msgId).writeBytes m.payload
  p.finish (remainLength + (Pkt.lengthDigits 5 remainLength).length + 1)

/-- `CMqttPublish::encode` into a buffer of `size` bytes. -/
def Publish.encode (m : Publish) (size : Nat) : Option ByteStr := Publish.encodeInto (List.replicate size 0) m

/-- `CMqttPublishAck::decode`, with the header it has read. -/
def PublishAck.decodeFull : PktM (FixedHeader × Nat) := do
  let header ← decodeHeader
  if header.msgType ≠ .puback then PktM.failture
  else do
    let msgId ← PktM.readShort
    pure (header, msgId)

/-- `CMqttPublishAck::decode`: the acknowledged identifier. -/
def decodePublishAck : PktM Nat := do
  let (_, msgId) ← PublishAck.decodeFull
  pure msgId

/-- `CMqttPublishAck::encode` into a buffer. -/
def PublishAck.encodeInto (buf : ByteStr) (header : FixedHeader) (msgId : Nat) : Option ByteStr :=
  (((encodeHeaderInto buf header).writeRemainLength 2).writeShort msgId).finish 4

/-- `CMqttPublishAck::encode`, as the broker calls it. -/
def encodePublishAck (size msgId : Nat) : Option ByteStr :=
  PublishAck.encodeInto (List.replicate size 0) { msgType := .puback } msgId

/-- `CMqttPingResp::encode`. -/
def encodePingResp (size : Nat) : Option ByteStr :=
  ((encodeHeader size { msgType := .pingresp }).writeRemainLength 0).finish 2

end MqttServer
