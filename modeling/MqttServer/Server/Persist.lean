import MqttServer.Server.Broker

/-!
# `Server.Persist` — storing and restoring the broker

`CPersistMsgPack`. The file is a sequence of chunks: the tag `0xEE`, a type byte, a 32-bit length and the
packed data. `store` writes the global counters, the message table, the persistent sessions and the retained
messages, in this order; `restore` reads them back into empty tables. The chunks go through the buffer of `stdio`:
that `fwrite` has taken them says nothing about the disk, and what `fflush` and `fclose` return is not looked at.

The msgpack library is a parameter `MsgPack`: one packer and unpacker for each record. What is relied on is
that unpacking gives back the packed fields, and that a proper prefix of a packed record is not a record
(`msgpack::unpack` throws, which nothing catches).
-/

namespace MqttServer

open Lib

/-! ## Packed records -/

/-- `MSGPACK_DEFINE` of `CMsgMemStore`. -/
structure DbInfo where
  lastMsgId : Nat
  lastUpdateTime : Nat
deriving DecidableEq, Repr

/-- `MSGPACK_DEFINE` of `CMbuf` and `CMbuf_tmp`. -/
structure MbufTmp where
  data : ByteStr
  msgType : MsgType
  readPos : Nat
  writePos : Nat
  msgId : Nat
  time : Nat
deriving DecidableEq, Repr

/-- `MSGPACK_DEFINE` of `CTMqttClientContext`, without the keep-alive and in-flight numbers and the will flag, to which
    nothing is ever assigned; the pending queue is stored as message ids. -/
structure ClientInfo where
  remoteAddr : ByteStr
  protocalName : ByteStr
  protocalVer : Nat
  clientId : ByteStr
  userName : ByteStr
  userPassword : ByteStr
  acceptTime : Nat
  connectTime : Nat
  lastPubTime : Nat
  lastMsgTime : Nat
  lastPubMsgId : Nat
  cleanSession : Bool
  sendMsgIds : List Nat
  subcribeTopics : List Topic
deriving DecidableEq, Repr

/-- A packer and its unpacker; `none` is an exception. -/
structure Packer (α : Type) where
  pack : α → ByteStr
  unpack : ByteStr → Option α
  unpack_pack : ∀ a, unpack (pack a) = some a
  unpack_prefix : ∀ a n, n < (pack a).length → unpack ((pack a).take n) = none

/-- The library, for the four kinds of records. -/
structure MsgPack where
  info : Packer DbInfo
  mbuf : Packer MbufTmp
  client : Packer ClientInfo
  retain : Packer (List (ByteStr × MbufTmp))

/-! ## Chunks -/

/-- `CHUNK_TYPE`. -/
inductive ChunkType where
  | globalInfo | dbMsg | clientMsg | topicInfo
deriving DecidableEq, Repr

namespace ChunkType

/-- The type byte. -/
def value : ChunkType → UInt8
  | globalInfo => 1 | dbMsg => 2 | clientMsg => 3 | topicInfo => 4

/-- The cast `(CHUNK_TYPE)chunk_type` with the cases of the `switch`. -/
def ofValue : UInt8 → Option ChunkType
  | 1 => some globalInfo | 2 => some dbMsg | 3 => some clientMsg | 4 => some topicInfo
  | _ => none

@[simp] theorem ofValue_value (t : ChunkType) : ofValue t.value = some t := by
  cases t <;> rfl

end ChunkType

/-- A `uint32_t` in memory order. -/
def le32 (n : Nat) : ByteStr :=
  [UInt8.ofNat n, UInt8.ofNat (n / 256), UInt8.ofNat (n / 65536), UInt8.ofNat (n / 16777216)]

/-- The four bytes of a `uint32_t` read back. -/
def readLe32 : ByteStr → Nat
  | b₀ :: b₁ :: b₂ :: b₃ :: _ => b₀.toNat + 256 * b₁.toNat + 65536 * b₂.toNat + 16777216 * b₃.toNat
  | _ => 0

/-- The open db file as a stream: what is on the disk, and what is in the buffer. -/
def Broker.stream (b : Broker) : Stream UInt8 := { out := b.file.getD [], held := b.dbFile.getD [] }

def Broker.setStream (b : Broker) (s : Stream UInt8) : Broker := { b with file := some s.out, dbFile := some s.held }

/-- `fwrite` of some bytes to the open db file. -/
def write (env : Env) (bytes : ByteStr) : BrokerM Int := do
  let b ← get
  let n := b.nfiles
  match env.fwrite n with
  | none => do
      set { b.setStream ((b.stream.feed bytes).release (env.drain n)) with nfiles := n + 1 }
      pure 0
  | some k => do
      set { b.setStream ((b.stream.feed (bytes.take k)).release (env.drain n)) with nfiles := n + 1 }
      pure (-1)

/-- `ERROR_RETURN(x, -1)` before `y`. -/
def errorReturn (x y : BrokerM Int) : BrokerM Int := do
  let res ← x
  if res < 0 then pure (-1) else y

/-- `write_chunk_info(type, chunk_len)`. -/
def writeChunkInfo (env : Env) (type : ChunkType) (chunkLen : Nat) : BrokerM Int :=
  errorReturn (write env [0xEE])
    (errorReturn (write env [type.value])
      (errorReturn (write env (le32 chunkLen)) (pure 0)))

/-- A chunk: both the stored length and the length passed to `write` are 32-bit. -/
def writeChunk (env : Env) (type : ChunkType) (data : ByteStr) : BrokerM Int :=
  errorReturn (writeChunkInfo env type (data.length % 2 ^ 32))
    (errorReturn (write env (data.take (data.length % 2 ^ 32))) (pure 0))

/-! ## Storing -/

/-- What is packed of a buffer. -/
def MbufTmp.ofBuf (b : Buf) : MbufTmp :=
  { data := b.1.data, msgType := b.1.msgType, readPos := b.1.readPos, writePos := b.1.writePos
    msgId := b.1.msgId, time := b.1.time }

/-- `prepare_store()` and what is packed of a context. -/
def ClientInfo.ofContext (b : Broker) (c : CtxId) : ClientInfo :=
  let x := b.sess.ctxs c
  let ts := b.times c
  { protocalName := x.protocalName, protocalVer := x.protocalVer, clientId := x.clientId
    userName := x.userName, userPassword := x.userPassword, remoteAddr := ts.remoteAddr, acceptTime := ts.accept
    connectTime := ts.connect, lastPubTime := ts.lastPub, lastMsgTime := ts.lastMsg
    lastPubMsgId := ts.lastPubMsgId, cleanSession := x.cleanSession
    sendMsgIds := x.sendMsgQueue.map fun m => (b.bufs m).msgId
    subcribeTopics := x.subcribeTopics }

/-- `store_db_info()`. -/
def storeDbInfo (env : Env) (mp : MsgPack) : BrokerM Int := do
  let b ← get
  writeChunk env .globalInfo
    (mp.info.pack { lastMsgId := b.store.lastMsgId, lastUpdateTime := b.store.lastUpdateTime })

/-- The loop of `store_db_msg()` over a copy of the message table. -/
def storeMsgs (env : Env) (mp : MsgPack) : List MbufId → BrokerM Int
  | [] => pure 0
  | m :: ms => do
      let b ← get
      errorReturn (writeChunk env .dbMsg (mp.mbuf.pack (MbufTmp.ofBuf (b.bufs m))))
        (storeMsgs env mp ms)

/-- `store_db_msg()`. -/
def storeDbMsg (env : Env) (mp : MsgPack) : BrokerM Int := do
  let b ← get
  storeMsgs env mp (env.order (b.store.msgDb.entries.map Sigma.snd))

/-- The idle check of one session. -/
def checkIdle (env : Env) (c : CtxId) : BrokerM Unit := do
  let b ← get
  match (b.sess.ctxs c).mqttConnection with
  | none => pure ()
  | some k => do
      touch k
      if (b.now : Int) - b.lastMsgTime k > env.maxIdleTimeout then handleClose k .idle else pure ()

/-- The loop of `store_client_info()` over a copy of the registry. -/
def storeClients (env : Env) (mp : MsgPack) : List CtxId → BrokerM Int
  | [] => pure 0
  | c :: cs => do
      checkIdle env c
      let b ← get
      if (b.sess.ctxs c).cleanSession then storeClients env mp cs
      else
        errorReturn (writeChunk env .clientMsg (mp.client.pack (ClientInfo.ofContext b c)))
          (storeClients env mp cs)

/-- `store_client_info()`. -/
def storeClientInfo (env : Env) (mp : MsgPack) : BrokerM Int := do
  let b ← get
  storeClients env mp (env.order (b.sess.registry.entries.map Sigma.snd))

/-- The retained message of a topic as it goes into the map of `store_retain_msg()`: an empty one is left
    out. -/
def retainEntry (b : Broker) (e : Sigma fun _ : ByteStr => TopicNode) : Option (ByteStr × MbufTmp) :=
  match e.2.retainMsg with
  | none => none
  | some m => if (b.bufs m).1.length = 0 then none else some (e.1, MbufTmp.ofBuf (b.bufs m))

/-- The `std::map` of retained messages, sorted by topic name. -/
def retainMap (env : Env) (b : Broker) : List (ByteStr × MbufTmp) :=
  ((env.order b.sess.topicMgr.entries).filterMap (retainEntry b)).insertionSort fun x y => x.1 ≤ y.1

/-- `store_retain_msg()`. -/
def storeRetainMsg (env : Env) (mp : MsgPack) : BrokerM Int := do
  let b ← get
  let map := retainMap env b
  if map = [] then pure 0 else writeChunk env .topicInfo (mp.retain.pack map)

/-- `CMsgStatMgr::flush()`, without the record it writes. -/
def flushStat (b : Broker) : Broker :=
  { b with stat := fun i =>
      if (b.stat i).msgId > 0 ∧ (b.now : Int) - (b.stat i).pubStart > 120 then { pubStart := b.now }
      else b.stat i }

/-- What the disk has after `fclose(m_db_file)`, if the file is open. -/
def Broker.closed (env : Env) (b : Broker) : Option ByteStr :=
  match b.dbFile with
  | none => b.file
  | some _ => some (b.stream.flush (env.fclose b.nfiles)).out

/-- `fclose(m_db_file)`, if the file is open. -/
def closeFile (env : Env) : BrokerM Unit := modify fun b => { b with file := b.closed env, dbFile := none }

/-- `open(m_file_name, "wb")`: the file is emptied. -/
def openFile (env : Env) : BrokerM Int := do
  let b ← get
  if env.fopen b.nfiles then do
    set { b with file := some [], dbFile := some [], nfiles := b.nfiles + 1 }
    pure 0
  else do
    set { b with dbFile := none, nfiles := b.nfiles + 1 }
    pure (-1)

/-- The chunks of `store`. -/
def storeChunks (env : Env) (mp : MsgPack) : BrokerM Int :=
  errorReturn (storeDbInfo env mp)
    (errorReturn (storeDbMsg env mp)
      (errorReturn (storeClientInfo env mp)
        (errorReturn (storeRetainMsg env mp) (pure 0))))

/-- The end of `store`: the results of `fflush` and `fclose` are not looked at. -/
def finishFile (env : Env) : BrokerM Int := do
  modify fun b => b.setStream (b.stream.flush (env.fflush b.nfiles))
  closeFile env
  pure 0

/-- What `store` does when it is not skipped. After an error the file stays open, until the next `store` closes it. -/
def storeAll (env : Env) (mp : MsgPack) : BrokerM Int := do
  closeFile env
  errorReturn (openFile env) (errorReturn (storeChunks env mp) (finishFile env))

/-- `store(force_flush)`. -/
def store (env : Env) (mp : MsgPack) (forceFlush : Bool) : BrokerM Int := do
  modify flushStat
  let b ← get
  if forceFlush then storeAll env mp
  else if b.store.lastUpdateTime ≤ b.lastDbUpdateTime then pure 0
  else do
    set { b with lastDbUpdateTime := b.store.lastUpdateTime }
    storeAll env mp

/-! ## Restoring -/

/-- `m_tmp_msg_db`, and the number of contexts restored so far. -/
structure RestoreState where
  tmpMsgDb : AList (fun _ : Nat => MbufId) := ∅
  contexts : Nat := 0

/-- `restore_mbuf(obj)`: the unread bytes and the id. A record whose cursors lie outside its data is read out
    of bounds. -/
def restoreMbuf (tmp : MbufTmp) (memDb : Bool) : BrokerM MbufId := do
  let b ← get
  if tmp.readPos ≤ tmp.writePos ∧ tmp.writePos ≤ tmp.data.length ∧ tmp.data.length < 2 ^ 32 then
    newBuf ((Buf.make (tmp.writePos - tmp.readPos) b.now
      ((tmp.data.drop tmp.readPos).take (tmp.writePos - tmp.readPos))).tag tmp.msgId .data memDb)
  else Exec.fault .malformedFile

/-- The result of `msgpack::unpack` and `convert`, or the exception. -/
def unpackOr {α : Type} (p : Packer α) (buf : ByteStr) : BrokerM α :=
  match p.unpack buf with
  | none => Exec.fault .malformedFile
  | some a => pure a

/-- `restore_db_info(buf, len)`. -/
def restoreDbInfo (mp : MsgPack) (buf : ByteStr) : BrokerM Unit := do
  let info ← unpackOr mp.info buf
  modify fun b =>
    { b with store := { b.store with lastMsgId := info.lastMsgId, lastUpdateTime := info.lastUpdateTime } }

/-- `m_tmp_msg_db[msg_id] = mbuf` lets go of the message that was there. -/
def RestoreState.overwrite (st : RestoreState) (id : Nat) (b : Broker) : Broker :=
  match st.tmpMsgDb.lookup id with
  | none => b
  | some m => b.letGo m

/-- `restore_db_msg(buf, len)`. -/
def restoreDbMsg (mp : MsgPack) (st : RestoreState) (buf : ByteStr) : BrokerM RestoreState := do
  let tmp ← unpackOr mp.mbuf buf
  let m ← restoreMbuf tmp (tmp.msgId ≠ 0)
  if tmp.msgId ≠ 0 then do
    modify fun b =>
      { b with store := { b.store with
                          msgDb := b.store.msgDb.insert tmp.msgId m
                          lastUpdateTime := b.now
                          registered := m :: b.store.registered } }
    modify (st.overwrite tmp.msgId)
    pure { st with tmpMsgDb := st.tmpMsgDb.insert tmp.msgId m }
  else pure st

/-- The context `convert` fills in: a new one, not connected. -/
def ClientInfo.toContext (info : ClientInfo) : ClientContext :=
  { mqttConnection := none, clientStatus := .new, protocalName := info.protocalName
    protocalVer := info.protocalVer, clientId := info.clientId, userName := info.userName
    userPassword := info.userPassword, cleanSession := info.cleanSession, sendMsgQueue := []
    subcribeTopics := info.subcribeTopics }

/-- The topic loop of `restore_client_info`. -/
def restoreTopics (env : Env) (c : CtxId) : List ByteStr → BrokerM Unit
  | [] => pure ()
  | t :: ts => do
      let _ ← addClientContext env t c
      restoreTopics env c ts

/-- `restore_client_info(buf, len)`. An id that is not in `m_tmp_msg_db` is skipped. -/
def restoreClientInfo (env : Env) (mp : MsgPack) (st : RestoreState) (buf : ByteStr) :
    BrokerM RestoreState := do
  let info ← unpackOr mp.client buf
  let c := CtxId.stored st.contexts
  modify fun b =>
    { b with
      sess := { b.sess with
                ctxs := Function.update b.sess.ctxs c info.toContext
                registry := b.sess.registry.addClientContext info.clientId c }
      times := Function.update b.times c
        { remoteAddr := info.remoteAddr, accept := info.acceptTime, connect := info.connectTime, lastPub := info.lastPubTime
          lastMsg := info.lastMsgTime, lastPubMsgId := info.lastPubMsgId } }
  restoreTopics env c (info.subcribeTopics.map Topic.topicName)
  modify fun b =>
    { b with sess := b.sess.modifyContext c fun x =>
        { x with sendMsgQueue := info.sendMsgIds.filterMap fun id => st.tmpMsgDb.lookup id } }
  pure { st with contexts := st.contexts + 1 }

/-- The loop of `restore_retain_msg`: only a topic that has a node takes its message back. -/
def restoreRetains : List (ByteStr × MbufTmp) → BrokerM Unit
  | [] => pure ()
  | (t, tmp) :: rest => do
      let m ← restoreMbuf tmp false
      modify fun b => { b with sess := { b.sess with topicMgr := b.sess.topicMgr.setRetainMsg t (some m) } }
      restoreRetains rest

/-- `restore_retain_msg(buf, len)`. -/
def restoreRetainMsg (mp : MsgPack) (buf : ByteStr) : BrokerM Unit := do
  let map ← unpackOr mp.retain buf
  restoreRetains map

/-- The body of the `switch` of `restore`. -/
def restoreChunk (env : Env) (mp : MsgPack) (type : ChunkType) (st : RestoreState) (buf : ByteStr) :
    BrokerM RestoreState :=
  match type with
  | .globalInfo => do
      restoreDbInfo mp buf
      pure st
  | .dbMsg => restoreDbMsg mp st buf
  | .clientMsg => restoreClientInfo env mp st buf
  | .topicInfo => do
      restoreRetainMsg mp buf
      pure st

/-- The size of the static buffer of `restore`. -/
def maxChunkLen : Nat := 1024 * 1024

/-- The `while (1)` loop of `restore` over the rest of the file. Every round consumes at least six bytes, so
    the length of the file is fuel enough. -/
def restoreLoop (env : Env) (mp : MsgPack) : Nat → RestoreState → ByteStr → BrokerM (Int × RestoreState)
  | 0, st, _ => pure (-1, st)
  | fuel + 1, st, file =>
      match file with
      | [] => pure (0, st)
      | tag :: rest =>
          if tag ≠ 0xEE then pure (-1, st)
          else
            match rest with
            | [] => pure (-1, st)
            | type :: rest =>
                let chunkLen := readLe32 rest
                if rest.length < 4 ∨ chunkLen > maxChunkLen ∨ (rest.drop 4).length < chunkLen then
                  pure (-1, st)
                else
                  match ChunkType.ofValue type with
                  | none => pure (-1, st)
                  | some type => do
                      let st ← restoreChunk env mp type st ((rest.drop 4).take chunkLen)
                      restoreLoop env mp fuel st ((rest.drop 4).drop chunkLen)

/-- The end of `restore`: `m_tmp_msg_db.clear()` lets go of the messages, and the file is closed. -/
def RestoreState.clear (st : RestoreState) (b : Broker) : Broker :=
  { (st.tmpMsgDb.entries.map Sigma.snd).foldl Broker.letGo b with dbFile := none }

/-- `restore()`. A file that does not exist is none to read; an empty one stays open. -/
def restore (env : Env) (mp : MsgPack) (file : Option ByteStr) : BrokerM Int :=
  match file with
  | none => pure 0
  | some [] => do
      modify fun b => { b with dbFile := some [] }
      pure 0
  | some bytes => do
      let (res, st) ← restoreLoop env mp (bytes.length + 1) {} bytes
      modify st.clear
      pure res

end MqttServer
