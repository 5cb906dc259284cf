import MqttServer.Lib.Codec
import MqttServer.Server.Persist

/-!
# `Server.Packing` — the records in msgpack's format

An instance of `MsgPack`. Where the shortest header is enough (numbers below 128, strings below 32 bytes, the data of a
buffer below 256 bytes, fewer than 16 elements) the bytes are those of msgpack; a larger header, for which msgpack has
further forms, is written behind the byte `0xC1` that msgpack never uses. The three fields of a context that nothing is
assigned to are written as zero.
-/

namespace MqttServer

open Lib

namespace Packing

/-- An unsigned number, a string, the data of a buffer, and the headers of arrays and maps. -/
def uint : Codec Nat := Codec.header 0 128 (by decide)
def raw : Codec ByteStr := Codec.list (Codec.header 0xA0 32 (by decide)) Codec.byte
def bin : Codec ByteStr := Codec.list (Codec.marked 0xC4 (by decide)) Codec.byte
def arrayLen : Codec Nat := Codec.header 0x90 16 (by decide)
def mapLen : Codec Nat := Codec.header 0x80 16 (by decide)

/-- `false` and `true`. -/
def bool : Codec Bool := Codec.bool 0xC2 0xC3 (by decide)

/-- A literal header or empty field, then a value. -/
def after {α : Type} (bs : ByteStr) (c : Codec α) : Codec α :=
  ((Codec.lit bs).pair c).iso (fun a => ((), a)) (fun p => p.2) (fun _ => rfl)

/-- `MSG_DATA` is 1 and `MSG_PUBLISH` is 2. -/
def msgType : Codec MsgType :=
  uint.iso (fun t => match t with | .data => 1 | .publish => 2) (fun n => if n = 2 then .publish else .data)
    (by intro t; cases t <;> rfl)

/-- `CTopic`. -/
def topic : Codec Topic :=
  (after [0x92] (raw.pair uint)).iso (fun t => (t.topicName, t.qos.toNat))
    (fun p => { topicName := p.1, qos := UInt8.ofNat p.2 })
    (by rintro ⟨name, qos⟩; simp)

/-- `CMsgMemStore`. -/
def info : Codec DbInfo :=
  (after [0x92] (uint.pair uint)).iso (fun i => (i.lastMsgId, i.lastUpdateTime))
    (fun p => { lastMsgId := p.1, lastUpdateTime := p.2 }) (fun _ => rfl)

/-- `CMbuf`. -/
def mbuf : Codec MbufTmp :=
  (after [0x96] (bin.pair (msgType.pair (uint.pair (uint.pair (uint.pair uint)))))).iso
    (fun m => (m.data, m.msgType, m.readPos, m.writePos, m.msgId, m.time))
    (fun p => { data := p.1, msgType := p.2.1, readPos := p.2.2.1, writePos := p.2.2.2.1
                msgId := p.2.2.2.2.1, time := p.2.2.2.2.2 })
    (fun _ => rfl)

/-- `CTMqttClientContext`: seventeen fields, with the keep-alive and in-flight numbers and the will flag. -/
def client : Codec ClientInfo :=
  (after [0xDC, 0x00, 0x11] (raw.pair (raw.pair (uint.pair (raw.pair (raw.pair (raw.pair
    (after [0x00, 0x00] (uint.pair (uint.pair (uint.pair (uint.pair (uint.pair (bool.pair
      (after [0xC2] ((Codec.list arrayLen uint).pair (Codec.list arrayLen topic))))))))))))))))).iso
    (fun c => (c.remoteAddr, c.protocalName, c.protocalVer, c.clientId, c.userName, c.userPassword, c.acceptTime,
      c.connectTime, c.lastPubTime, c.lastMsgTime, c.lastPubMsgId, c.cleanSession, c.sendMsgIds,
      c.subcribeTopics))
    (fun p =>
      { remoteAddr := p.1, protocalName := p.2.1, protocalVer := p.2.2.1, clientId := p.2.2.2.1
        userName := p.2.2.2.2.1, userPassword := p.2.2.2.2.2.1, acceptTime := p.2.2.2.2.2.2.1
        connectTime := p.2.2.2.2.2.2.2.1, lastPubTime := p.2.2.2.2.2.2.2.2.1
        lastMsgTime := p.2.2.2.2.2.2.2.2.2.1, lastPubMsgId := p.2.2.2.2.2.2.2.2.2.2.1
        cleanSession := p.2.2.2.2.2.2.2.2.2.2.2.1, sendMsgIds := p.2.2.2.2.2.2.2.2.2.2.2.2.1
        subcribeTopics := p.2.2.2.2.2.2.2.2.2.2.2.2.2 })
    (fun _ => rfl)

/-- The map of retained messages. -/
def retain : Codec (List (ByteStr × MbufTmp)) := Codec.list mapLen (raw.pair mbuf)

end Packing

/-- A format as a packer. -/
def Packer.ofCodec {α : Type} (c : Codec α) : Packer α where
  pack := c.enc
  unpack := c.whole
  unpack_pack := c.whole_enc
  unpack_prefix := c.whole_take

/-- The library on records with small headers. -/
def packing : MsgPack :=
  { info := .ofCodec Packing.info, mbuf := .ofCodec Packing.mbuf, client := .ofCodec Packing.client
    retain := .ofCodec Packing.retain }

end MqttServer
