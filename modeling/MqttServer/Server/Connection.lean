import MqttServer.Server.Broker

/-!
# `Server.Connection` — the packet handlers of `CMqttConnection`

`handle_input`, `process` and the handlers of the single packet types, as `mqtt_server/mqtt_connection.cpp`
has them. A handler returns the source's result code, where a negative value makes `CPollerEpoll::run` close
the connection, and the bytes of its packet as it left them in the receive buffer.
-/

namespace MqttServer

open Lib

/-! ## CONNECT -/

/-- `"MQIsdp"` and `"MQTT"`. -/
def protoNameIsdp : ByteStr := [0x4D, 0x51, 0x49, 0x73, 0x64, 0x70]
def protoNameMqtt : ByteStr := [0x4D, 0x51, 0x54, 0x54]

/-- The `ack_code` of a CONNECT. -/
def connAckCode (msg : Connect) : ConnAckCode :=
  if msg.clientId = [] then .badId
  else if msg.protoVersion ≠ 3 ∧ msg.protoVersion ≠ 4 then .badVersion
  else if (msg.protoVersion = 3 ∧ msg.protoName ≠ protoNameIsdp) ∨
      (msg.protoVersion = 4 ∧ msg.protoName ≠ protoNameMqtt) then .badVersion
  else .accepted

/-- Close the connection a known session still has. -/
def closeLast (last : Option ConnId) : BrokerM Unit :=
  match last with
  | some last => handleClose last .takeover
  | none => pure ()

/-- The registry part of `handle_connect_msg`, for a non-empty client id. -/
def bindSession (env : Env) (k : ConnId) (msg : Connect) : BrokerM Unit := do
  let b ← get
  match b.sess.registry.findClientContext msg.clientId with
  | some c => do
      closeLast (b.sess.ctxs c).mqttConnection
      touch k
      modify fun b => b.act (b.sess.resume k c msg) (.connect k msg (connAckCode msg) c)
  | none => do
      let c ← clientContext env k
      modify fun b => b.act (b.sess.register c msg) (.connect k msg (connAckCode msg) c)

/-- `accept_time`, `connect_time` and `remote_addr` of the session. -/
def stampConnect (env : Env) (k : ConnId) : BrokerM Unit := do
  let c ← clientContext env k
  modify fun b =>
    { b with times := Function.update b.times c
                        { b.times c with accept := b.acceptTime k, connect := b.now, remoteAddr := env.peerAddr k } }

/-- The session part of `handle_connect_msg`: an empty client id has none, and a bad version has one. -/
def openSession (env : Env) (k : ConnId) (msg : Connect) : BrokerM Unit :=
  if msg.clientId = [] then pure ()
  else do
    bindSession env k msg
    stampConnect env k

/-- The offline loop: `put` each pending message until one returns `-1`; `res` is the last result. -/
def sendOffline (env : Env) (k : ConnId) : Int → List MbufId → BrokerM Int
  | res, [] => pure res
  | _, m :: ms => do
      let res ← put env k m
      if res = -1 then pure res else sendOffline env k res ms

/-- `handle_connect_msg`. The `-1` of a refused CONNECT is overwritten by the result of the first `put`. -/
def handleConnectMsg (env : Env) (k : ConnId) (buf : ByteStr) : BrokerM Int :=
  match Connect.decode.decode buf with
  | none => pure (-1)
  | some msg => do
      openSession env k msg
      let res ← reply env k 32 (encodeConnAck 32 (connAckCode msg))
      let c ← clientContext env k
      let b ← get
      sendOffline env k res (b.sess.ctxs c).sendMsgQueue

/-! ## PUBLISH and PUBACK -/

/-- `next_msg_id()` and `regist_mem_store` for the buffer of a packet. -/
def registBuf (type : MsgType) (size : Nat) (bytes : Nat → ByteStr) : BrokerM MbufId := do
  let b ← get
  let id := (b.store.lastMsgId + 1) % 2 ^ 64
  let m ← newBuf ((Buf.make size b.now (bytes id)).tag id type true)
  modify fun b =>
    { b with
      store := { lastMsgId := id
                 msgDb := if id = 0 then b.store.msgDb else b.store.msgDb.insert id m
                 lastUpdateTime := if id = 0 then b.store.lastUpdateTime else b.now
                 registered := if id = 0 then b.store.registered else m :: b.store.registered } }
  pure m

/-- The packet with its identifier replaced by the low sixteen bits of the broker's message id. -/
def rewriteMsgId (msg : Publish) (buf : ByteStr) (id : Nat) : ByteStr :=
  if msg.msgIdOffset < buf.length then
    Pkt.store buf msg.msgIdOffset [UInt8.ofNat (id % 65536 / 256), UInt8.ofNat (id % 65536)]
  else buf

/-- `handle_publish_msg`. -/
def handlePublishMsg (env : Env) (k : ConnId) (buf : ByteStr) : BrokerM (Int × ByteStr) := do
  let c ← clientContext env k
  let b ← get
  if (b.sess.ctxs c).clientStatus ≠ .connected then pure (-1, buf)
  else
    match Publish.decode.decode buf with
    | none => pure (-1, buf)
    | some msg => do
        let res ← reply env k 64 (encodePublishAck 64 msg.msgId)
        -- the packet is rewritten in the receive buffer of the connection and copied from there
        touch k
        let m ← registBuf .data buf.length (rewriteMsgId msg buf)
        let b ← get
        publishTopic env msg.topicName m msg
        pure (res, rewriteMsgId msg buf (b.bufs m).msgId)

/-- `handle_puback_msg`. -/
def handlePubackMsg (env : Env) (k : ConnId) (buf : ByteStr) : BrokerM Int :=
  match decodePublishAck.decode buf with
  | none => pure (-1)
  | some msgId => do
      let c ← clientContext env k
      let b ← get
      let idOf := fun m => (b.bufs m).msgId
      let oldest := (b.sess.ctxs c).acked idOf msgId
      set (b.act (b.sess.modifyContext c (·.ackMsg idOf msgId))
        (.puback k c msgId ((b.sess.ctxs c).sendMsgQueue.head?.map idOf)))
      match oldest with
      | none => pure 0
      | some m => do
          modify fun b =>
            { b with times := Function.update b.times c
                                { b.times c with lastPub := (b.bufs m).1.time, lastPubMsgId := idOf m } }
          modify fun b =>
            b.modifyStat (idOf m) fun x => { x with msgId := idOf m, ackClient := x.ackClient + 1 }
          pure 0

/-! ## SUBSCRIBE and UNSUBSCRIBE -/

/-- The loop of `handle_subscribe_msg` over the topic names. -/
def subscribeLoop (env : Env) (k : ConnId) : List ByteStr → BrokerM Unit
  | [] => pure ()
  | t :: ts => do
      let c ← clientContext env k
      let _ ← addClientContext env t c
      subscribeLoop env k ts

/-- `handle_subscribe_msg`. -/
def handleSubscribeMsg (env : Env) (k : ConnId) (buf : ByteStr) : BrokerM Int := do
  let c ← clientContext env k
  let b ← get
  if (b.sess.ctxs c).clientStatus ≠ .connected then pure (-1)
  else
    match Subscribe.decode.decode buf with
    | none => pure (-1)
    | some msg => do
        set (b.act (b.sess.modifyContext c (·.addSubcribeTopics msg.subTopics))
          (.subscribe k c msg.subTopics))
        let res ← reply env k 64 (encodeSubAck 64 msg.msgId msg.topicsQos)
        subscribeLoop env k msg.topicsName
        pure res

/-- The loop of `handle_unsubscribe_msg`: the subscriber sets only, `subcribe_topics` is not touched. -/
def unsubscribeLoop (env : Env) (k : ConnId) : List ByteStr → BrokerM Unit
  | [] => pure ()
  | t :: ts => do
      let c ← clientContext env k
      modify fun b =>
        b.act (b.sess.unsubscribe t c) (.unsubscribe k c t (decide (t ∈ (b.sess.ctxs c).topicNames)))
      unsubscribeLoop env k ts

/-- `handle_unsubscribe_msg`. -/
def handleUnsubscribeMsg (env : Env) (k : ConnId) (buf : ByteStr) : BrokerM Int := do
  let c ← clientContext env k
  let b ← get
  if (b.sess.ctxs c).clientStatus ≠ .connected then pure (-1)
  else
    match Unsubscribe.decode.decode buf with
    | none => pure (-1)
    | some msg => do
        unsubscribeLoop env k msg.topicsName
        reply env k 64 (encodeUnsubAck 64 msg.msgId)

/-! ## PINGREQ and DISCONNECT -/

/-- `handle_pingreq_msg`. -/
def handlePingreqMsg (env : Env) (k : ConnId) : BrokerM Int := reply env k 4 (encodePingResp 4)

/-- `handle_disconnect_msg`. -/
def handleDisconnectMsg (env : Env) (k : ConnId) : BrokerM Int := do
  let c ← clientContext env k
  modify fun b =>
    b.act (b.sess.modifyContext c (·.disconnect)) (.disconnect k c)
  modify fun b =>
    { b with times := Function.update b.times c { b.times c with discon := b.now } }
  pure 0

/-! ## Dispatch and input -/

/-- The `MqttType` of a packet. -/
def packetType (buf : ByteStr) : MqttType := MqttType.ofNibble ((buf.getD 0 0).toNat / 16)

/-- Leave the packet as it is. -/
def keeping (buf : ByteStr) (x : BrokerM Int) : BrokerM (Int × ByteStr) := do
  let res ← x
  pure (res, buf)

/-- `process(buf, len, this)`. -/
def process (env : Env) (k : ConnId) : Handler Broker Fault := fun buf =>
  match packetType buf with
  | .connect => keeping buf (handleConnectMsg env k buf)
  | .publish => handlePublishMsg env k buf
  | .puback => keeping buf (handlePubackMsg env k buf)
  | .subscribe => keeping buf (handleSubscribeMsg env k buf)
  | .unsubscribe => keeping buf (handleUnsubscribeMsg env k buf)
  | .pingreq => keeping buf (handlePingreqMsg env k)
  | .disconnect => keeping buf do
      let _ ← handleDisconnectMsg env k
      pure (-1)
  | _ => pure (-1, buf)

/-- What `::read` on a connection can do. -/
inductive ReadOut where
  | bytes (r : Read)
  | again
  | closed

/-- The bytes of a read that fit into the free space. -/
def Read.limit (r : Read) (free : Nat) : Read := { r with data := r.data.take free }

/-- `m_last_msg_time` of the connection and, when there is one, of its context. -/
def stampInput (k : ConnId) : BrokerM Unit :=
  modify fun b =>
    { b with
      lastMsgTime := Function.update b.lastMsgTime k b.now
      times := match b.sess.contextOf k with
        | some c => Function.update b.times c { b.times c with lastMsg := b.now }
        | none => b.times }

/-- `handle_input()`. A read into a full buffer returns `0`, as does the end of the stream. -/
def handleInput (env : Env) (k : ConnId) (out : ReadOut) : BrokerM Int := do
  touch k
  let b ← get
  match out with
  | .again => pure 0
  | .closed => pure (-1)
  | .bytes r => do
      let r := r.limit (maxBufSize - (b.recv k).curBufPos)
      if r.data = [] then pure (-1)
      else do
        stampInput k
        match ← processMqtt (touch k) (process env k) ((b.recv k).receive r) with
        | none => pure (-1)
        | some recv => do
            modify fun b => { b with recv := Function.update b.recv k recv }
            pure 0

end MqttServer
