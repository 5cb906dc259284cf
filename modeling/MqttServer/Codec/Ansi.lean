import MqttServer.Codec.Wire
import MqttServer.Http.Connection

/-!
# `Codec.Ansi` — the decoders in C

`mqtt/mqtt_pkt_ansi.c` with the helpers of `mqtt/helper.c` decode CONNECT, PUBLISH and SUBSCRIBE a second time. A pointer into
the buffer is an offset, and `buf + offset` with `len - offset` the rest of the buffer from there. A decoder returns a code, or
the number of bytes and a message; a read outside the buffer has no meaning (`Stop.outOfBounds`).

The strings of a message are what `new_string` allocates: the bytes and a NUL behind them. Their length is not kept, so that
what can be read from such a pointer ends at the first NUL (`charPtr`); only the payload of a PUBLISH has its length.
-/

namespace MqttServer
namespace Ansi

/-- Why a decoder gives no message. -/
inductive Stop where
  | returned (res : Int)
  | outOfBounds
deriving DecidableEq, Repr

abbrev DecM := Except Stop

/-- `FAILURE`. -/
def failure : Int := -1

/-- `NEED_MORE_DATA`. -/
def needMoreData : Int := -2

/-- `return FAILURE`. -/
def fail {α : Type} : DecM α := .error (.returned failure)

theorem ok_bind {α β : Type} (a : α) (f : α → DecM β) : ((.ok a : DecM α) >>= f) = f a := rfl

theorem error_bind {α β : Type} (e : Stop) (f : α → DecM β) : ((.error e : DecM α) >>= f) = .error e := rfl

theorem ok_of_bind {α β : Type} {x : DecM α} {f : α → DecM β} {b : β} (h : (x >>= f) = .ok b) :
    ∃ a, x = .ok a ∧ f a = .ok b := by
  cases x with
  | error e => cases h
  | ok a => exact ⟨a, rfl, h⟩

/-! ## Helpers -/

/-- `buf[offset]`. -/
def byteAt (buf : ByteStr) (offset : Nat) : DecM UInt8 :=
  match buf[offset]? with
  | none => .error .outOfBounds
  | some b => .ok b

/-- The loop of `mqtt_remain_length`: the value, and the offset of the last byte if there is one. Each byte shifts what was read
    before it. -/
def scanRemainLength : (fuel : Nat) → (buf : ByteStr) → (offset value : Nat) → Option (Nat × Nat)
  | 0, _, _, _ => none
  | _ + 1, [], _, _ => none
  | fuel + 1, b :: bs, offset, value =>
      let value := (value <<< 7) ||| (b.toNat % 128)
      if b.toNat < 128 then some (value, offset) else scanRemainLength fuel bs (offset + 1) value

/-- `mqtt_remain_length(buf, len, …)`: the value and the number of its bytes. -/
def mqttRemainLength (buf : ByteStr) : DecM (Nat × Nat) :=
  match scanRemainLength maxRemainLengthBytes buf 0 0 with
  | none => .error (.returned (if buf.length ≥ maxRemainLengthBytes then failure else needMoreData))
  | some (value, offset) =>
      if value + offset > buf.length then .error (.returned needMoreData) else .ok (value, offset + 1)

/-- `get_short(buf, len)`: zero if there are not two bytes. -/
def getShort : (buf : ByteStr) → Nat
  | hi :: lo :: _ => hi.toNat * 256 + lo.toNat
  | _ => 0

/-- A string in the buffer: where its bytes begin, and how many there are. -/
structure Part where
  start : Nat
  len : Nat
deriving DecidableEq, Repr

/-- `get_string(buf + offset, len - offset, …)` and `offset += res`: the string and the next offset. The length is compared with
    the rest of the buffer, its own two bytes included. -/
def getString (buf : ByteStr) (offset : Nat) : DecM (Part × Nat) :=
  let strLen := getShort (buf.drop offset)
  if strLen > (buf.drop offset).length % 65536 then fail
  else .ok ({ start := offset + 2, len := strLen }, offset + (strLen + 2))

/-- `get_string` under a flag. -/
def getStringIf (flag : Bool) (buf : ByteStr) (offset : Nat) : DecM (Part × Nat) :=
  if flag then getString buf offset else .ok ({ start := 0, len := 0 }, offset)

/-- `new_string(buf + start, len)`, or `NULL`. A negative length other than `-1` is more than can be allocated; for `-1` nothing
    is allocated, and copied nonetheless. -/
def newString (buf : ByteStr) (start : Nat) (len : Int) : DecM (Option ByteStr) :=
  if len < -1 then .ok none
  else if 0 ≤ len ∧ (len = 0 ∨ start + len.toNat ≤ buf.length) then
    .ok (some ((buf.drop start).take len.toNat ++ [0]))
  else .error .outOfBounds

/-- `new_string` under a flag. -/
def newStringIf (flag : Bool) (buf : ByteStr) (p : Part) : DecM (Option ByteStr) :=
  if flag then newString buf p.start p.len else .ok none

/-- `memcmp(pstart, name, len) != 0`. -/
def differs (buf : ByteStr) (start : Nat) (name : ByteStr) : DecM Bool :=
  if start + name.length ≤ buf.length then .ok (decide ((buf.drop start).take name.length ≠ name))
  else .error .outOfBounds

/-- `check_protocol_name(pstart, protocol_name_len)`. -/
def checkProtocolName (buf : ByteStr) (p : Part) : DecM Unit := do
  if p.len = 6 then
    let wrong ← differs buf p.start mqIsdp
    if wrong then fail else pure ()
  else if p.len = 4 then
    let wrong ← differs buf p.start [77, 81, 84, 84]
    if wrong then fail else pure ()
  else fail

/-! ## The decoders -/

/-- `TMqttConnect`. -/
structure TMqttConnect where
  header : UInt8
  remainLength : Nat
  flags : UInt8
  protocolVer : UInt8
  protocolName : Option ByteStr
  clientId : Option ByteStr
  willTopic : Option ByteStr
  willMsg : Option ByteStr
  userName : Option ByteStr
  userPasswd : Option ByteStr
  keepAliveTimer : Nat
deriving DecidableEq, Repr

/-- `flags.bits.will`. -/
def willBit (flags : UInt8) : Bool := flags.toNat / 4 % 2 = 1

/-- `flags.bits.username`. -/
def usernameBit (flags : UInt8) : Bool := flags.toNat / 128 % 2 = 1

/-- `flags.bits.password`. -/
def passwordBit (flags : UInt8) : Bool := flags.toNat / 64 % 2 = 1

/-- `mqtt_dec_connect(buf, len, mqtt_connect_msg)`. What is read first behind the client id is taken for the will message. -/
def mqttDecConnect (buf : ByteStr) : DecM (Nat × TMqttConnect) := do
  let header ← byteAt buf 0
  if header.toNat / 16 ≠ 1 then fail
  else do
    let (remainLengthValue, remainLengthBytes) ← mqttRemainLength (buf.drop 1)
    let offset := 1 + remainLengthBytes
    let pktEndOffset := remainLengthValue + 1 + remainLengthBytes
    let (protoName, next) ← getString buf offset
    checkProtocolName buf protoName
    let offset := next
    let protocolVer ← byteAt buf offset
    if protocolVer ≠ 3 then fail
    else do
      let offset := offset + 1
      let flags ← byteAt buf offset
      let offset := offset + 1
      let keepAliveTimer := getShort (buf.drop offset)
      let offset := offset + 2
      let clientIdLen := getShort (buf.drop offset)
      let offset := offset + 2
      let clientId : Part := { start := offset, len := clientIdLen }
      let offset := offset + clientIdLen
      let (willMsg, offset) ← getStringIf (willBit flags) buf offset
      let (willTopic, offset) ← getStringIf (willBit flags) buf offset
      let (userName, offset) ← getStringIf (usernameBit flags) buf offset
      let (userPasswd, offset) ← getStringIf (passwordBit flags) buf offset
      if offset > buf.length ∨ offset > pktEndOffset then fail
      else do
        let protocolName ← newString buf protoName.start protoName.len
        let clientId ← newString buf clientId.start clientId.len
        let willMsg ← newStringIf (willBit flags) buf willMsg
        let willTopic ← newStringIf (willBit flags) buf willTopic
        let userName ← newStringIf (usernameBit flags) buf userName
        let userPasswd ← newStringIf (passwordBit flags) buf userPasswd
        pure (offset, { header, remainLength := remainLengthValue, flags, protocolVer, protocolName, clientId, willTopic, willMsg
                        userName, userPasswd, keepAliveTimer })

/-- `TMqttPublish`. -/
structure TMqttPublish where
  header : UInt8
  remainLength : Nat
  topicName : Option ByteStr
  msgIdOffset : Nat
  msgId : Nat
  payloadLen : Int
  payload : Option ByteStr
deriving DecidableEq, Repr

/-- `mqtt_dec_publish(buf, len, mqtt_publish)`. -/
def mqttDecPublish (buf : ByteStr) : DecM (Nat × TMqttPublish) := do
  let header ← byteAt buf 0
  if header.toNat / 16 ≠ 3 then fail
  else do
    let (remainLengthValue, remainLengthBytes) ← mqttRemainLength (buf.drop 1)
    let offset := 1 + remainLengthBytes
    let pktEndOffset := remainLengthValue + 1 + remainLengthBytes
    let (topic, offset) ← getString buf offset
    let topicName ← newString buf topic.start topic.len
    let msgIdOffset := offset
    let msgId := getShort (buf.drop offset)
    let offset := offset + 2
    let payloadLen : Int := pktEndOffset - offset
    let payload ← newString buf offset payloadLen
    pure (pktEndOffset, { header, remainLength := remainLengthValue, topicName, msgIdOffset, msgId, payloadLen, payload })

/-- `TMqttTopic`. -/
structure TMqttTopic where
  topicName : Option ByteStr
  topicQos : Nat
deriving DecidableEq, Repr

/-- `TMqttSubcribe`; `topics` holds the first `topics_count` of them. -/
structure TMqttSubcribe where
  header : UInt8
  remainLength : Nat
  msgId : Nat
  topics : List TMqttTopic
deriving DecidableEq, Repr

/-- `MAX_TOPIC_NUM`. -/
def maxTopicNum : Nat := 5

/-- The loop of `mqtt_dec_subscribe`, with `topic_qos`. Every round moves the offset by two at least, so that the length of the
    buffer is fuel enough. -/
def decTopics (buf : ByteStr) (pktEndOffset : Nat) (subcribe : Bool) : (fuel offset topicQos : Nat) → List TMqttTopic →
    DecM (Nat × List TMqttTopic)
  | 0, offset, _, topics => .ok (offset, topics)
  | fuel + 1, offset, topicQos, topics =>
      if offset < buf.length ∧ offset < pktEndOffset then do
        let (topic, offset) ← getString buf offset
        let (topicQos, offset) ← (if subcribe then do
            let b ← byteAt buf offset
            pure (b.toNat % 4, offset + 1)
          else pure (topicQos, offset))
        if topics.length > maxTopicNum - 1 then pure (offset, topics)
        else do
          let topicName ← newString buf topic.start topic.len
          decTopics buf pktEndOffset subcribe fuel offset topicQos (topics ++ [{ topicName, topicQos }])
      else .ok (offset, topics)

/-- `mqtt_dec_subscribe(buf, len, mqtt_subcribe, subcribe)`. -/
def mqttDecSubscribe (buf : ByteStr) (subcribe : Bool) : DecM (Nat × TMqttSubcribe) := do
  let header ← byteAt buf 0
  if header.toNat / 16 ≠ 8 then fail
  else do
    let (remainLengthValue, remainLengthBytes) ← mqttRemainLength (buf.drop 1)
    let offset := 1 + remainLengthBytes
    let pktEndOffset := remainLengthValue + 1 + remainLengthBytes
    let msgId := getShort (buf.drop offset)
    let offset := offset + 2
    let (offset, topics) ← decTopics buf pktEndOffset subcribe buf.length offset 0 []
    pure (offset, { header, remainLength := remainLengthValue, msgId, topics })

/-- What can be read from a pointer of a message: the bytes in front of the first NUL, and nothing from `NULL`. -/
def charPtr : Option ByteStr → ByteStr
  | none => []
  | some bytes => cString bytes

end Ansi

/-! ## The flags of a CONNECT in C++ -/

/-- The members of `CMqttConnect` that come from the flags byte. -/
structure ConnectFlags where
  hasUserName : Bool
  hasPassword : Bool
  hasWillRetain : Bool
  willQos : Nat
  hasWill : Bool
  cleanSession : Bool
deriving DecidableEq, Repr

/-- The bit fields of a flags byte. -/
def ConnectFlags.ofByte (flag : UInt8) : ConnectFlags :=
  { hasUserName := flag.toNat / 128 % 2 = 1
    hasPassword := flag.toNat / 64 % 2 = 1
    hasWillRetain := flag.toNat / 32 % 2 = 1
    willQos := flag.toNat / 8 % 4
    hasWill := flag.toNat / 4 % 2 = 1
    cleanSession := flag.toNat / 2 % 2 = 1 }

/-- `CMqttConnect::decode`, with all the flags. -/
def Connect.decodeFull : PktM (ConnectFlags × Connect) := do
  let header ← decodeHeader
  if header.msgType ≠ .connect then PktM.failture
  else do
    let protoName ← PktM.readString
    let protoVersion ← PktM.readByte
    let flag ← PktM.readByte
    let keepAlive ← PktM.readShort
    let clientId ← PktM.readString
    let willTopic ← readStringIf (flag.toNat / 4 % 2 = 1)
    let willMessage ← readStringIf (flag.toNat / 4 % 2 = 1)
    let userName ← readStringIf (flag.toNat / 128 % 2 = 1)
    let password ← readStringIf (flag.toNat / 64 % 2 = 1)
    let flags := ConnectFlags.ofByte flag
    pure (flags,
      { protoName, protoVersion := protoVersion.toNat, cleanSession := flags.cleanSession
        keepAlive, clientId, willTopic, willMessage, userName, password })

end MqttServer
