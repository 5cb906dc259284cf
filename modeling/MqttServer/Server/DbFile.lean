import MqttServer.Server.Persist

/-!
# `Server.DbFile` — the hand-written db format

`CPersist` of `mqtt_server/persist.cpp`, which lays out every field itself: the tag `0xEE`, a type byte, a 32-bit length and the
fields. The length of a session's chunk is not known before its topics and ids have been written, so its header is written
twice: `store_client_info` goes back to it when the fields are there. `restore` reads one chunk after the other into a static
buffer of one megabyte, and the functions for the single chunks walk a raw pointer through that buffer, beyond the chunk if
the fields say so; only the end of the static buffer stops them here (`Fault.outOfBounds`).

Writing stops at the first `fwrite` that falls short, with `-1`. The registration of restored messages in the message store is
left out: nothing here reads it.
-/

namespace MqttServer
namespace Persist

open Lib

/-! ## The file while it is written -/

/-- `m_db_file`, open for writing: its bytes, the position of the stream and the number of `fwrite` calls so far. -/
structure DbFile where
  bytes : ByteStr := []
  pos : Nat := 0
  writes : Nat := 0
deriving DecidableEq, Repr

/-- Bytes put at the position of the stream. -/
def DbFile.put (f : DbFile) (bytes : ByteStr) : DbFile :=
  { bytes := Pkt.store f.bytes f.pos bytes, pos := f.pos + bytes.length, writes := f.writes + 1 }

/-- A function with `ERROR_RETURN(…, -1)` behind each call: the first failure ends it, with the file as it is then. -/
abbrev DbM := Exec DbFile Int

/-- `ftell(m_db_file)`. -/
def ftell : DbM Nat := do
  let f ← get
  pure f.pos

/-- `fseek(m_db_file, offset, SEEK_SET)`. -/
def fseek (offset : Nat) : DbM Unit := modify fun f => { f with pos := offset }

/-- A `uint64_t` in memory order. -/
def le64 (n : UInt64) : ByteStr := le32 n.toNat ++ le32 (n.toNat / 2 ^ 32)

/-- What `store` reads of a `CTMqttClientContext`. -/
structure StoredContext where
  cleanSession : Bool
  subcribeTopics : List Topic
  sendMsgIds : List UInt64

/-- What `store` reads: the message table, the registry and the retained messages of the topic nodes. The entries of a map
    stand in the order in which its iterator goes through them. -/
structure Tables where
  lastMsgId : UInt64
  msgDb : AList (fun _ : UInt64 => Buf)
  clientMsg : AList (fun _ : ByteStr => StoredContext)
  topicMgr : AList (fun _ : ByteStr => Option Buf)

section Storing

/-! `fwrite n` is the number of bytes the call with number `n` writes when it falls short. -/

variable (fwrite : Nat → Option Nat)

/-- `write(buf, len)`. -/
def write (bytes : ByteStr) : DbM Unit := fun f =>
  match fwrite f.writes with
  | none => .ok ((), f.put bytes)
  | some k => .error (-1, f.put (bytes.take k))

/-- `write_uint8(value)`. -/
def writeUint8 (value : UInt8) : DbM Unit := write fwrite [value]

/-- `write_uint(value)`. -/
def writeUint (value : Nat) : DbM Unit := write fwrite (le32 value)

/-- `write_uint64(value)`. -/
def writeUint64 (value : UInt64) : DbM Unit := write fwrite (le64 value)

/-- `write_len_buf(buf, len)`. -/
def writeLenBuf (buf : ByteStr) (len : Nat) : DbM Unit := do
  write fwrite (le32 len)
  write fwrite (buf.take len)

/-- `write_str(str)`: the length is narrowed to a `uint32_t`. -/
def writeStr (str : ByteStr) : DbM Unit := writeLenBuf fwrite str (str.length % 2 ^ 32)

/-- `write_chunk_info(type, chunk_len)`. -/
def writeChunkInfo (type : ChunkType) (chunkLen : Nat) : DbM Unit := do
  write fwrite [0xEE]
  write fwrite [type.value]
  write fwrite (le32 chunkLen)

/-- `store_db_info()`. -/
def storeDbInfo (src : Tables) : DbM Unit := do
  writeChunkInfo fwrite .globalInfo 8
  write fwrite (le64 src.lastMsgId)

/-- The loop of `store_db_msg()`. -/
def storeMsgs : List (Sigma fun _ : UInt64 => Buf) → DbM Unit
  | [] => pure ()
  | e :: es => do
      let bufLen := e.2.1.length
      writeChunkInfo fwrite .dbMsg ((8 + bufLen + 4) % 2 ^ 32)
      writeUint64 fwrite e.1
      writeLenBuf fwrite e.2.unread bufLen
      storeMsgs es

/-- `store_db_msg()`. -/
def storeDbMsg (src : Tables) : DbM Unit := storeMsgs fwrite src.msgDb.entries

/-- The topic loop of `store_client_info()`, which adds to `chunk_len`. -/
def storeTopics : List Topic → (chunkLen : Nat) → DbM Nat
  | [], chunkLen => pure chunkLen
  | t :: ts, chunkLen => do
      let chunkLen := (chunkLen + (t.topicName.length + 4)) % 2 ^ 32
      writeStr fwrite t.topicName
      let chunkLen := (chunkLen + 1) % 2 ^ 32
      writeUint8 fwrite t.qos
      storeTopics ts chunkLen

/-- The loop over the pending messages. -/
def storeMsgIds : List UInt64 → (chunkLen : Nat) → DbM Nat
  | [], chunkLen => pure chunkLen
  | id :: ids, chunkLen => do
      let chunkLen := (chunkLen + 8) % 2 ^ 32
      writeUint64 fwrite id
      storeMsgIds ids chunkLen

/-- One persistent session, from the header to the way back behind the chunk; `chunk_len` as it was left by the session before. -/
def storeClient (clientId : ByteStr) (context : StoredContext) (chunkLen : Nat) : DbM Nat := do
  let chunkOffset ← ftell
  writeChunkInfo fwrite .clientMsg chunkLen
  let chunkLen := (chunkLen + (clientId.length + 4)) % 2 ^ 32
  writeStr fwrite clientId
  let chunkLen := (chunkLen + 4) % 2 ^ 32
  writeUint fwrite (context.subcribeTopics.length % 2 ^ 32)
  let chunkLen ← storeTopics fwrite context.subcribeTopics chunkLen
  let chunkLen := (chunkLen + 4) % 2 ^ 32
  writeUint fwrite (context.sendMsgIds.length % 2 ^ 32)
  let chunkLen ← storeMsgIds fwrite context.sendMsgIds chunkLen
  let lastOffset ← ftell
  fseek chunkOffset
  writeChunkInfo fwrite .clientMsg chunkLen
  fseek lastOffset
  pure chunkLen

/-- The loop of `store_client_info()`; a clean session is left out. -/
def storeClients : List (Sigma fun _ : ByteStr => StoredContext) → (chunkLen : Nat) → DbM Unit
  | [], _ => pure ()
  | e :: es, chunkLen =>
      if e.2.cleanSession then storeClients es chunkLen
      else do
        let chunkLen ← storeClient fwrite e.1 e.2 chunkLen
        storeClients es chunkLen

/-- `store_client_info()`: `chunk_len` is set to zero once, before the loop. -/
def storeClientInfo (src : Tables) : DbM Unit := storeClients fwrite src.clientMsg.entries 0

/-- The loop of `store_retain_msg()`; a topic without a retained message, or with an empty one, is left out. -/
def storeRetains : List (Sigma fun _ : ByteStr => Option Buf) → DbM Unit
  | [] => pure ()
  | e :: es =>
      match e.2 with
      | none => storeRetains es
      | some m =>
          if m.1.length = 0 then storeRetains es
          else do
            let chunkLen := (e.1.length + 4) % 2 ^ 32
            let chunkLen := (chunkLen + 8) % 2 ^ 32
            let chunkLen := (chunkLen + (m.1.length + 4)) % 2 ^ 32
            writeChunkInfo fwrite .topicInfo chunkLen
            writeStr fwrite e.1
            writeUint64 fwrite (UInt64.ofNat m.msgId)
            writeLenBuf fwrite m.unread m.1.length
            storeRetains es

/-- `store_retain_msg()`. -/
def storeRetainMsg (src : Tables) : DbM Unit := storeRetains fwrite src.topicMgr.entries

/-- `store(true)`, from the file opened with `"wb"`. -/
def store (src : Tables) : DbM Unit := do
  storeDbInfo fwrite src
  storeDbMsg fwrite src
  storeClientInfo fwrite src
  storeRetainMsg fwrite src

end Storing

/-! ## Reading back -/

theorem store_front_length {buf bytes : ByteStr} (h : bytes.length ≤ buf.length) :
    (Pkt.store buf 0 bytes).length = buf.length := by
  simp only [Pkt.store, List.length_append, List.length_take, List.length_drop]
  omega

/-- `static uint8_t buf[1024*1024]`. -/
structure StaticBuf where
  bytes : ByteStr
  size : bytes.length = maxChunkLen

namespace StaticBuf

/-- As the program starts. -/
def zero : StaticBuf := ⟨List.replicate maxChunkLen 0, List.length_replicate⟩

theorem fread_size (b : StaticBuf) (data : ByteStr) :
    (Pkt.store b.bytes 0 (data.take maxChunkLen)).length = maxChunkLen := by
  have hle : (data.take maxChunkLen).length ≤ b.bytes.length := by
    rw [b.size]
    exact List.length_take_le _ _
  exact (store_front_length hle).trans b.size

/-- `fread` into the buffer, of at most its size: what lies behind the bytes read stays. -/
def fread (b : StaticBuf) (data : ByteStr) : StaticBuf :=
  ⟨Pkt.store b.bytes 0 (data.take maxChunkLen), b.fread_size data⟩

end StaticBuf

/-- What `restore` works on: the static buffer and the raw pointer `buf` (the bytes from there to the end of the buffer), the
    messages made so far, `m_tmp_msg_db`, and the tables of the server. A message is named by its place in `bufs`, the `i`th
    context by `CtxId.stored i`. -/
structure State where
  static : StaticBuf := .zero
  buf : ByteStr := []
  bufs : List Buf := []
  tmpMsgDb : AList (fun _ : UInt64 => MbufId) := ∅
  lastMsgId : UInt64 := 0
  contexts : Nat := 0
  sess : Sess := Sess.empty

/-- The state with the pointer moved. -/
def State.at (s : State) (buf : ByteStr) : State := { s with buf }

/-- The state with other tables. -/
def State.withSess (s : State) (sess : Sess) : State := { s with sess }

/-- Why there is no result: a read behind the static buffer. `outOfFuel` does not come up (`restore_fault`). -/
inductive Fault where
  | outOfBounds | outOfFuel
deriving DecidableEq, Repr

abbrev RestoreM := Exec State Fault

/-- `n` bytes at the pointer, which moves behind them. -/
def readBytes (n : Nat) : RestoreM ByteStr := do
  let s ← get
  if s.buf.length < n then Exec.fault .outOfBounds
  else do
    set (s.at (s.buf.drop n))
    pure (s.buf.take n)

/-- `*((uint32_t *)buf)`. -/
def readUint : RestoreM Nat := do
  let bytes ← readBytes 4
  pure (readLe32 bytes)

/-- `*((uint64_t *)buf)`. -/
def readUint64 : RestoreM UInt64 := do
  let bytes ← readBytes 8
  pure (UInt64.ofNat (readLe32 bytes + 2 ^ 32 * readLe32 (bytes.drop 4)))

/-- `buf[0]`. -/
def readUint8 : RestoreM UInt8 := do
  let bytes ← readBytes 1
  pure (bytes.headD 0)

/-- `uint8_t *buf = chunk_buf`. -/
def setBuf : RestoreM Unit := modify fun s => s.at s.static.bytes

/-- A change of the tables. -/
def modifySess (f : Sess → Sess) : RestoreM Unit := modify fun s => s.withSess (f s.sess)

/-- `make_shared<CMbuf>(buf_len)` with the bytes copied and the id set. -/
def newMbuf (now bufLen : Nat) (bytes : ByteStr) (msgId : UInt64) (memDb : Bool) : RestoreM MbufId := do
  let s ← get
  set { s with bufs := s.bufs ++ [(Buf.make bufLen now bytes).tag msgId.toNat .data memDb] }
  pure s.bufs.length

/-- `restore_db_info(buf, len)`. -/
def restoreDbInfo (len : Nat) : RestoreM Int :=
  if len ≠ 8 then pure (-1)
  else do
    setBuf
    let lastMsgId ← readUint64
    modify fun s => { s with lastMsgId := lastMsgId }
    pure 0

/-- `restore_db_msg(chunk_buf, len)`: the subtraction is made on `size_t`. -/
def restoreDbMsg (now len : Nat) : RestoreM Int := do
  setBuf
  let msgId ← readUint64
  let bufLen ← readUint
  if bufLen ≠ (2 ^ 64 + len - 12) % 2 ^ 64 then pure (-1)
  else do
    let bytes ← readBytes bufLen
    let m ← newMbuf now bufLen bytes msgId true
    modify fun s => { s with tmpMsgDb := s.tmpMsgDb.insert msgId m }
    pure 0

/-- The topic loop of `restore_client_info`, with `i` and the vector `sub_topics`. The loop counts `i` up, and so does its
    body. Every round consumes at least five bytes. -/
def restoreTopics (c : CtxId) (len topicNum : Nat) : (fuel i : Nat) → List Topic → RestoreM (Int × List Topic)
  | 0, _, _ => Exec.fault .outOfFuel
  | fuel + 1, i, subTopics =>
      if i < topicNum then do
        let i := (i + 1) % 2 ^ 32
        let topicNameLen ← readUint
        if topicNameLen > len then pure (-1, subTopics)
        else do
          let topicName ← readBytes topicNameLen
          let topicQos ← readUint8
          modifySess (·.subscribe topicName c)
          restoreTopics c len topicNum fuel ((i + 1) % 2 ^ 32) (subTopics ++ [{ topicName, qos := topicQos }])
      else pure (0, subTopics)

/-- The message loop of `restore_client_info`: an id that is not in `m_tmp_msg_db` is skipped. -/
def restoreMsgs (c : CtxId) : (msgsNum : Nat) → RestoreM Unit
  | 0 => pure ()
  | n + 1 => do
      let msgId ← readUint64
      let s ← get
      match s.tmpMsgDb.lookup msgId with
      | none => restoreMsgs c n
      | some m => do
          modifySess (·.modifyContext c (·.addSendMsg m))
          restoreMsgs c n

/-- `make_shared<CTMqttClientContext>(nullptr)` with the client id set; `m_clean_session` is left uninitialised. -/
def newContext (clientId : ByteStr) : RestoreM CtxId := do
  let s ← get
  let c := CtxId.stored s.contexts
  set { s with contexts := s.contexts + 1 }
  modifySess (·.modifyContext c fun _ => { ClientContext.create none false with clientId })
  pure c

/-- `restore_client_info(chunk_buf, len)`. -/
def restoreClientInfo (len : Nat) : RestoreM Int := do
  setBuf
  let clientIdLen ← readUint
  let clientId ← readBytes clientIdLen
  let c ← newContext clientId
  let topicNum ← readUint
  let (res, subTopics) ← restoreTopics c len topicNum (maxChunkLen + 1) 0 []
  modifySess (·.modifyContext c (·.addSubcribeTopics subTopics))
  let msgsNum ← readUint
  restoreMsgs c msgsNum
  modifySess fun sess => { sess with registry := sess.registry.addClientContext clientId c }
  pure res

/-- `restore_retain_msg(chunk_buf, len)`: only a topic that has a node takes its message back. -/
def restoreRetainMsg (now len : Nat) : RestoreM Int := do
  setBuf
  let topicNameLen ← readUint
  if topicNameLen > len then pure (-1)
  else do
    let topicName ← readBytes topicNameLen
    let msgId ← readUint64
    let bufLen ← readUint
    if (bufLen : Int) ≠ len - (4 + topicNameLen + 8 + 4 : Nat) then pure (-1)
    else if bufLen = 0 then pure 0
    else do
      let bytes ← readBytes bufLen
      let m ← newMbuf now bufLen bytes msgId false
      modifySess fun sess => { sess with topicMgr := sess.topicMgr.setRetainMsg topicName (some m) }
      pure 0

/-- The `switch` of `restore`. -/
def restoreChunk (now : Nat) (type : UInt8) (len : Nat) : RestoreM Int :=
  match ChunkType.ofValue type with
  | some .globalInfo => restoreDbInfo len
  | some .dbMsg => restoreDbMsg now len
  | some .clientMsg => restoreClientInfo len
  | some .topicInfo => restoreRetainMsg now len
  | none => pure (-1)

/-- The `while (1)` loop of `restore` over the rest of the file. Every round consumes at least six bytes. -/
def restoreLoop (now : Nat) : (fuel : Nat) → (file : ByteStr) → RestoreM Int
  | 0, _ => Exec.fault .outOfFuel
  | fuel + 1, file =>
      match file with
      | [] => pure 0
      | tag :: rest =>
          if tag ≠ 0xEE then pure (-1)
          else
            match rest with
            | [] => pure (-1)
            | type :: rest =>
                let chunkLen := readLe32 rest
                if rest.length < 4 ∨ chunkLen > maxChunkLen ∨ (rest.drop 4).length < chunkLen then pure (-1)
                else do
                  modify fun s => { s with static := s.static.fread ((rest.drop 4).take chunkLen) }
                  let res ← restoreChunk now type chunkLen
                  if res = -1 then pure (-1) else restoreLoop now fuel ((rest.drop 4).drop chunkLen)

/-- `restore()` of a file that exists; `m_tmp_msg_db` is cleared at the end. -/
def restore (now : Nat) (file : ByteStr) : RestoreM Int := do
  if file.length = 0 then pure 0
  else do
    let res ← restoreLoop now (file.length + 1) file
    modify fun s => { s with tmpMsgDb := ∅ }
    pure res

end Persist
end MqttServer
