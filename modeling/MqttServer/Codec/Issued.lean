import MqttServer.Codec.Cursor

/-!
# `Codec.Issued` — what the messages ask of their packet

`mqttc++/mqtt_msg.cpp` once more, with each function as a program that only makes calls on its `CMqttPkt`. What such a program
issues on the object of `Codec.Cursor` is a run of that object, so the invariant holds along it exactly as far as the operations fit
(`cursor_kept_iff`). On a packet whose size an `int` holds the programs are those of `Codec.Msg`: `Correctness.Issued`.
-/

namespace MqttServer

/-- A function that works on its packet. -/
abbrev PktCalls := Lib.Calls PktOp PktAnswer

namespace PktAnswer

/-- The value that a successful `read_byte` stores. -/
def byte? : PktAnswer → Option UInt8
  | .byte value => some value
  | _ => none

/-- The value that a successful `read_short` stores. -/
def short? : PktAnswer → Option Nat
  | .short value => some value
  | _ => none

/-- The bytes of a successful `read_string` or `read_byte(payload, …)`. -/
def bytes? : PktAnswer → Option ByteStr
  | .bytes value => some value
  | _ => none

/-- What a successful `read_remain_length` stores. -/
def length? : PktAnswer → Option (Nat × Nat)
  | .length value count => some (value, count)
  | _ => none

/-- The answer of `length()`. -/
def position? : PktAnswer → Option Nat
  | .position value => some value
  | _ => none

/-- The answer of `left_size()`. -/
def size? : PktAnswer → Option Int
  | .size value => some value
  | _ => none

end PktAnswer

namespace PktCalls

/-- `return -1`. -/
def failture {α : Type} : PktCalls α := .ret none

def length : PktCalls Nat := .ask .length PktAnswer.position?

def leftSize : PktCalls Int := .ask .leftSize PktAnswer.size?

def readRemainLength : PktCalls (Nat × Nat) := .ask .readRemainLength PktAnswer.length?

def readByte : PktCalls UInt8 := .ask .readByte PktAnswer.byte?

def readRest : PktCalls ByteStr := .ask .readRest PktAnswer.bytes?

def readShort : PktCalls Nat := .ask .readShort PktAnswer.short?

def readString : PktCalls ByteStr := .ask .readString PktAnswer.bytes?

/-- The results of the writes are looked at nowhere. -/
def writeRemainLength (length : Nat) : PktCalls Unit := .tell (.writeRemainLength length)

def writeByte (value : UInt8) : PktCalls Unit := .tell (.writeByte value)

def writeBytes (bytes : ByteStr) : PktCalls Unit := .tell (.writeBytes bytes)

def writeShort (value : Nat) : PktCalls Unit := .tell (.writeShort value)

def writeString (bytes : ByteStr) : PktCalls Unit := .tell (.writeString bytes)

/-- The end of an encoder: the length reached, if it is the one expected. -/
def finish (pktLen : Nat) : PktCalls Nat := do
  let encodePktLen ← length
  if encodePktLen = pktLen then pure encodePktLen else failture

/-- `CMqttMsg::decode`. -/
def decodeHeader : PktCalls FixedHeader := do
  let fixedHeader ← readByte
  let _ ← readRemainLength
  pure (FixedHeader.decode fixedHeader)

/-- `CMqttMsg::encode`. -/
def encodeHeader (header : FixedHeader) : PktCalls Unit := writeByte header.encode

/-! ## CONNECT and CONNACK -/

/-- A string that is read when its flag is set. -/
def readStringIf (flag : Bool) : PktCalls ByteStr := if flag then readString else pure []

/-- `CMqttConnect::decode`. -/
def decodeConnect : PktCalls Connect := do
  let header ← decodeHeader
  if header.msgType ≠ .connect then failture
  else do
    let protoName ← readString
    let protoVersion ← readByte
    let flag ← readByte
    let keepAlive ← readShort
    let clientId ← readString
    let willTopic ← readStringIf (flag.toNat / 4 % 2 = 1)
    let willMessage ← readStringIf (flag.toNat / 4 % 2 = 1)
    let userName ← readStringIf (flag.toNat / 128 % 2 = 1)
    let password ← readStringIf (flag.toNat / 64 % 2 = 1)
    pure
      { protoName, protoVersion := protoVersion.toNat
        cleanSession := flag.toNat / 2 % 2 = 1
        keepAlive, clientId, willTopic, willMessage, userName, password }

/-- `CMqttConnect::encode`. -/
def encodeConnect (header : FixedHeader) (clientId : ByteStr) (cleanSession : Bool) : PktCalls Nat := do
  encodeHeader header
  writeRemainLength ((2 + mqIsdp.length + 1 + 1 + 2 + (2 + clientId.length)) % 2 ^ 32)
  writeString mqIsdp
  writeByte 3
  writeByte (UInt8.ofNat (cleanSession.toNat * 2))
  writeShort 60
  writeString clientId
  length

/-- `CMqttConnAck::decode`. -/
def decodeConnAck : PktCalls (FixedHeader × UInt8 × UInt8) := do
  let header ← decodeHeader
  if header.msgType ≠ .connack then failture
  else do
    let reserved ← readByte
    let code ← readByte
    pure (header, reserved, code)

/-- `CMqttConnAck::encode`. -/
def encodeConnAck (header : FixedHeader) (code : UInt8) : PktCalls Nat := do
  encodeHeader header
  writeRemainLength 2
  writeByte 0
  writeByte code
  finish 4

/-! ## SUBSCRIBE, UNSUBSCRIBE and their acknowledgements -/

/-- The loop of `CMqttSubscribe::decode`, for so many rounds. -/
def readTopics : (rounds : Nat) → PktCalls (List Topic)
  | 0 => pure []
  | rounds + 1 => do
      let topicName? ← readString.attempt
      topicName?.elim (pure []) fun topicName => do
        let qos? ← readByte.attempt
        qos?.elim (pure []) fun qos => do
          let rest ← readTopics rounds
          pure ({ topicName, qos } :: rest)

/-- `CMqttSubscribe::decode`, with a packet of `maxSize` bytes: no more rounds than that are made. -/
def decodeSubscribe (maxSize : Nat) : PktCalls (FixedHeader × Subscribe) := do
  let header ← decodeHeader
  if header.msgType ≠ .subscribe then failture
  else do
    let msgId ← readShort
    let subTopics ← readTopics maxSize
    pure (header, { msgId, subTopics })

/-- The loop of `CMqttSubscribe::encode`. -/
def writeTopics : List Topic → PktCalls Unit
  | [] => pure ()
  | topic :: topics => do
      writeString topic.topicName
      writeByte topic.qos
      writeTopics topics

/-- `CMqttSubscribe::encode`. The header is written before it is seen that there are no topics. -/
def encodeSubscribe (header : FixedHeader) (m : Subscribe) : PktCalls Nat := do
  encodeHeader header
  if m.subTopics = [] then failture
  else do
    let remainLength := ((m.subTopics.map fun t => t.topicName.length + 2 + 1).sum + 2) % 2 ^ 32
    writeRemainLength remainLength
    writeShort m.msgId
    writeTopics m.subTopics
    finish (remainLength + (Pkt.lengthDigits 5 remainLength).length + 1)

/-- The loop of `CMqttSubAck::decode`: a byte that cannot be read is pushed all the same, as the one before it. -/
def readCodes : (leftSize : Nat) → (qos : UInt8) → PktCalls (List UInt8)
  | 0, _ => pure []
  | leftSize + 1, qos => do
      let read ← readByte.attempt
      let subQos ← readCodes leftSize (read.getD qos)
      pure (read.getD qos :: subQos)

/-- `CMqttSubAck::decode`; `left_size` is a `uint8_t`. -/
def decodeSubAck (msgId : Nat) : PktCalls SubAck := do
  let header ← decodeHeader
  if header.msgType ≠ .suback then failture
  else do
    let left ← leftSize
    let subQos ← readCodes (left % 256).toNat 0
    pure { msgId, subQos }

/-- The loop of `CMqttSubAck::encode`. -/
def writeCodes : List UInt8 → PktCalls Unit
  | [] => pure ()
  | qos :: codes => do
      writeByte qos
      writeCodes codes

/-- `CMqttSubAck::encode`. -/
def encodeSubAck (header : FixedHeader) (m : SubAck) : PktCalls Nat := do
  encodeHeader header
  let remainLength := (m.subQos.length + 2) % 2 ^ 32
  writeRemainLength remainLength
  writeShort m.msgId
  writeCodes m.subQos
  finish (remainLength + (Pkt.lengthDigits 5 remainLength).length + 1)

/-- The loop of `CMqttUnsubscribe::decode`, for so many rounds. -/
def readNames : (rounds : Nat) → PktCalls (List ByteStr)
  | 0 => pure []
  | rounds + 1 => do
      let topicName? ← readString.attempt
      topicName?.elim (pure []) fun topicName => do
        let rest ← readNames rounds
        pure (topicName :: rest)

/-- `CMqttUnsubscribe::decode`, with a packet of `maxSize` bytes. -/
def decodeUnsubscribe (maxSize : Nat) : PktCalls Unsubscribe := do
  let header ← decodeHeader
  if header.msgType ≠ .unsubscribe then failture
  else do
    let msgId ← readShort
    let topicsName ← readNames maxSize
    pure { msgId, topicsName }

/-- `encode` of an acknowledgement that has a packet identifier and nothing else: `CMqttUnsubAck` and `CMqttPublishAck`. -/
def encodeMsgId (header : FixedHeader) (msgId : Nat) : PktCalls Nat := do
  encodeHeader header
  writeRemainLength 2
  writeShort msgId
  finish 4

/-- `CMqttUnsubAck::encode`. -/
def encodeUnsubAck : FixedHeader → Nat → PktCalls Nat := encodeMsgId

/-! ## PUBLISH and PUBACK, and the messages without a body -/

/-- `CMqttPublish::decode`. -/
def decodePublish : PktCalls Publish := do
  let header ← decodeHeader
  let topicName ← readString
  let msgIdOffset ← length
  let msgId ← readShort
  let payload ← readRest
  pure { header, topicName, msgId, payload, msgIdOffset }

/-- `CMqttPublish::encode`. -/
def encodePublish (m : Publish) : PktCalls Nat := do
  encodeHeader m.header
  let remainLength := (m.topicName.length + 2 + 2 + m.payload.length) % 2 ^ 32
  writeRemainLength remainLength
  writeString m.topicName
  writeShort m.msgId
  writeBytes m.payload
  finish (remainLength + (Pkt.lengthDigits 5 remainLength).length + 1)

/-- `CMqttPublishAck::decode`. -/
def decodePublishAck : PktCalls (FixedHeader × Nat) := do
  let header ← decodeHeader
  if header.msgType ≠ .puback then failture
  else do
    let msgId ← readShort
    pure (header, msgId)

/-- `CMqttPublishAck::encode`. -/
def encodePublishAck : FixedHeader → Nat → PktCalls Nat := encodeMsgId

/-- `encode` of a message without a body. -/
def encodeEmpty (header : FixedHeader) : PktCalls Nat := do
  encodeHeader header
  writeRemainLength 0
  finish 2

/-- `CMqttPingReq::encode`. -/
def encodePingReq : FixedHeader → PktCalls Nat := encodeEmpty

/-- `CMqttDisconnect::encode`. -/
def encodeDisconnect : FixedHeader → PktCalls Nat := encodeEmpty

/-- `CMqttPingResp::encode`. -/
def encodePingResp : FixedHeader → PktCalls Nat := encodeEmpty

end PktCalls

/-! ## The functions, and what they issue -/

/-- A call of a `decode` or an `encode`, with the fields of the message that it uses. -/
inductive MsgCall where
  | decode
  | encode (header : FixedHeader)
  | decodeConnect
  | encodeConnect (header : FixedHeader) (clientId : ByteStr) (cleanSession : Bool)
  | decodeConnAck
  | encodeConnAck (header : FixedHeader) (code : UInt8)
  | decodeSubscribe
  | encodeSubscribe (header : FixedHeader) (m : Subscribe)
  | decodeSubAck (msgId : Nat)
  | encodeSubAck (header : FixedHeader) (m : SubAck)
  | decodeUnsubscribe
  | encodeUnsubAck (header : FixedHeader) (msgId : Nat)
  | decodePublish
  | encodePublish (m : Publish)
  | decodePublishAck
  | encodePublishAck (header : FixedHeader) (msgId : Nat)
  | encodePingReq (header : FixedHeader)
  | encodeDisconnect (header : FixedHeader)
  | encodePingResp (header : FixedHeader)

/-- A function whose result is left alone. -/
def PktCalls.void {α : Type} (x : PktCalls α) : PktCalls Unit := x.andThen fun _ => pure ()

/-- The function of a call, on a packet of `maxSize` bytes. -/
def MsgCall.program (maxSize : Nat) : MsgCall → PktCalls Unit
  | decode => PktCalls.decodeHeader.void
  | encode header => PktCalls.encodeHeader header
  | decodeConnect => PktCalls.decodeConnect.void
  | encodeConnect header clientId cleanSession => (PktCalls.encodeConnect header clientId cleanSession).void
  | decodeConnAck => PktCalls.decodeConnAck.void
  | encodeConnAck header code => (PktCalls.encodeConnAck header code).void
  | decodeSubscribe => (PktCalls.decodeSubscribe maxSize).void
  | encodeSubscribe header m => (PktCalls.encodeSubscribe header m).void
  | decodeSubAck msgId => (PktCalls.decodeSubAck msgId).void
  | encodeSubAck header m => (PktCalls.encodeSubAck header m).void
  | decodeUnsubscribe => (PktCalls.decodeUnsubscribe maxSize).void
  | encodeUnsubAck header msgId => (PktCalls.encodeUnsubAck header msgId).void
  | decodePublish => PktCalls.decodePublish.void
  | encodePublish m => (PktCalls.encodePublish m).void
  | decodePublishAck => PktCalls.decodePublishAck.void
  | encodePublishAck header msgId => (PktCalls.encodePublishAck header msgId).void
  | encodePingReq header => (PktCalls.encodePingReq header).void
  | encodeDisconnect header => (PktCalls.encodeDisconnect header).void
  | encodePingResp header => (PktCalls.encodePingResp header).void

namespace Cursor

variable {len : UInt32}

/-- The operations that calls on one object issue. -/
def issued (c : Cursor len) (calls : List MsgCall) : List PktOp :=
  Lib.Calls.issuedAll step (calls.map (MsgCall.program len.toNat)) c

/-- The operations one after the other, as far as the first `n`. -/
def EachOp (P : Cursor len → PktOp → Prop) (c : Cursor len) (calls : List MsgCall) (n : Nat) : Prop :=
  Lib.Along (fun c op => (c.step op).2) P c ((c.issued calls).take n)

/-- **The invariant over everything that is issued**: on a new object, for calls of any functions with any fields, it holds as far as
    any operation exactly when all operations up to there fit. -/
theorem cursor_kept_iff (mem : Nat → UInt8) (len : UInt32) (calls : List MsgCall) (n : Nat) :
    (new mem len).EachOp Keeps calls n ↔ (new mem len).EachOp Fits calls n :=
  (along_keeps_iff _ _ (Nat.zero_le _)).symm

/-! ## The rounds of the loops -/

section Rounds

variable {c : Cursor len}

/-- A string that was read has moved the cursor. -/
theorem readString_moves (h : c.Inside) {bytes : ByteStr} (hread : (c.step .readString).1.bytes? = some bytes) :
    (c.step .readString).2.Inside ∧ c.offset + 2 ≤ (c.step .readString).2.offset := by
  have hop : c.perform .readString = c.readString := rfl
  unfold readString at hop
  unfold step at hread ⊢
  rw [hop] at hread ⊢
  by_cases hleft : c.leftSize < 2
  · rw [guard_of_lt hleft] at hread
    cases hread
  · rw [guard_of_not_lt hleft] at hread ⊢
    obtain ⟨hoffset, hinside, -⟩ := advance_two h hleft
    by_cases hshort : (c.advance 2).leftSize < c.shortHere
    · rw [if_pos hshort] at hread
      cases hread
    · rw [if_neg hshort]
      have hle := (le_of_leftSize hinside hshort).1
      have hlast := advance_offset (Nat.lt_of_le_of_lt hle len.toNat_lt)
      rw [hoffset] at hle hlast
      unfold Inside
      simp only
      rw [hlast]
      exact ⟨hle, Nat.le_add_right _ _⟩

theorem readByte_moves (h : c.Inside) : (c.step .readByte).2.Inside ∧ c.offset ≤ (c.step .readByte).2.offset := by
  have hkeeps := (readByte_keeps h).inside
  have hop : c.perform .readByte = c.readByte := rfl
  refine ⟨hkeeps, ?_⟩
  unfold readByte at hop
  unfold step
  rw [hop]
  by_cases hleft : c.leftSize < 1
  · rw [guard_of_lt hleft]
    exact Nat.le_refl _
  · rw [guard_of_not_lt hleft]
    have hfit := (@le_of_leftSize len c h 1 hleft).1
    have hoffset := @advance_offset len c 1 (Nat.lt_of_le_of_lt hfit len.toNat_lt)
    exact hoffset ▸ Nat.le_succ _

/-- **The loops end by themselves**: when there are more rounds than bytes left, another one changes nothing. -/
theorem readTopics_rounds (rounds : Nat) : ∀ c : Cursor len, c.Inside → len.toNat - c.offset < rounds →
    Lib.Calls.Alike step c (PktCalls.readTopics (rounds + 1)) (PktCalls.readTopics rounds) := by
  induction rounds with
  | zero => exact fun _ _ hless => absurd hless (Nat.not_lt_zero _)
  | succ rounds ih =>
      intro c h hless
      refine Lib.Calls.Alike.andThen (.refl _ c) fun topicName? hname => ?_
      cases topicName? with
      | none => exact .refl _ _
      | some topicName =>
          obtain ⟨hinside, hmoved⟩ := readString_moves h (Option.some.inj hname)
          refine Lib.Calls.Alike.andThen (.refl _ _) fun qos? _ => ?_
          cases qos? with
          | none => exact .refl _ _
          | some qos =>
              obtain ⟨hinside', hmoved'⟩ := readByte_moves hinside
              have hle : (c.step .readString).2.offset ≤ len.toNat := hinside
              exact (ih _ hinside' (by omega)).andThen fun _ _ => .refl _ _

theorem readNames_rounds (rounds : Nat) : ∀ c : Cursor len, c.Inside → len.toNat - c.offset < rounds →
    Lib.Calls.Alike step c (PktCalls.readNames (rounds + 1)) (PktCalls.readNames rounds) := by
  induction rounds with
  | zero => exact fun _ _ hless => absurd hless (Nat.not_lt_zero _)
  | succ rounds ih =>
      intro c h hless
      refine Lib.Calls.Alike.andThen (.refl _ c) fun topicName? hname => ?_
      cases topicName? with
      | none => exact .refl _ _
      | some topicName =>
          obtain ⟨hinside, hmoved⟩ := readString_moves h (Option.some.inj hname)
          have hle : (c.step .readString).2.offset ≤ len.toNat := hinside
          exact (ih _ hinside (by omega)).andThen fun _ _ => .refl _ _

end Rounds

/-! ## Calls that break it -/

/-- Memory that begins with these bytes. -/
def memory (bytes : ByteStr) (i : Nat) : UInt8 := bytes.getD i 0

/-- A CONNECT whose protocol name is cut off: `read_string` fails with the cursor behind the length. A PINGRESP into one byte: the
    length is written behind it. A header of three bytes without a last length byte: the scan goes on behind them. -/
theorem not_cursor_kept :
    ¬ (new (memory [0x10, 3, 0, 6, 0x4d]) 5).EachOp Keeps [.decodeConnect] 3 ∧
      ¬ (new (memory [0]) 1).EachOp Keeps [.encodePingResp { msgType := .pingresp }] 2 ∧
      ¬ (new (memory [0x10, 0x80, 0x80]) 3).EachOp Keeps [.decode] 2 := by
  refine ⟨fun h => ?_, fun h => ?_, fun h => ?_⟩
  · have hmoved := h.2.2.1.refuses rfl
    exact absurd hmoved (by decide)
  · have hwritten := h.2.1.touches 1 (by decide)
    exact absurd hwritten (by decide)
  · have hscanned := h.2.1.touches 3 (by decide)
    exact absurd hscanned (by decide)

end Cursor
end MqttServer
