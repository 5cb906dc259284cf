import MqttServer.Lib.Stream
import MqttServer.Server.Framer
import MqttServer.Server.Session

/-!
# `Server.Broker` — the state of the broker, closing, output and fan-out

Everything the reactor thread touches, as one state, and the operations the packet handlers are made of.

A C++ object that has been deleted has no meaning any more, so an access to a destroyed connection is a fault
and not a value: `touch` stands before every access to a member of a connection, and also before the access to
its receive buffer, which is part of the object. The other faults are the dereference of a context that was
never created (`handle_close`) and the increment of an iterator whose element was erased (`publish`).

What the outside decides is in `Env`: the outcome of each `::write`, the iteration order of the unordered
containers, and the content of uninitialised memory. `log` is a ghost trace of what the broker did; nothing
reads it.
-/

namespace MqttServer

open Lib

/-- What the broker cannot decide: outcomes of `::write` (by connection and number of the call), the order in
    which an unordered container is visited, the uninitialised `m_clean_session` and `m_recv_buffer`, the peer
    names, what becomes of the db file, and the configuration. The db file is written through the buffer of `stdio`:
    `fwrite` takes all or only `some n` bytes into it, of which `drain` go on to the disk; `fflush` and `fclose`
    bring all of it to the disk or only `some n` bytes. -/
structure Env where
  write : ConnId → Nat → WriteCall
  order : {α : Type} → List α → List α
  order_perm : ∀ {α : Type} (l : List α), (order l).Perm l
  cleanGarbage : ConnId → Bool
  recvGarbage : ConnId → Nat → UInt8
  peerAddr : ConnId → ByteStr
  fopen : Nat → Bool
  fwrite : Nat → Option Nat
  drain : Nat → Nat
  fflush : Nat → Option Nat
  fclose : Nat → Option Nat
  mqttBridge : Bool
  maxIdleTimeout : Nat

/-- Undefined behaviour the source can run into. -/
inductive Fault where
  | useAfterFree (k : ConnId)
  | nullContext (k : ConnId)
  | iterator (c : CtxId)
  | malformedFile
deriving DecidableEq, Repr

/-- Who called `handle_close`: `CPollerEpoll::run` for the handler of its own event, `nonblk_send` after a
    hard write error, a CONNECT for the same client id, or the idle check of `store_client_info`. -/
inductive Cause where
  | event | lost | takeover | idle
deriving DecidableEq, Repr

/-- The trace. A PUBACK records the id of the oldest pending message; a close records the context and its
    `clean_session`, and whether the connection was `busy`: handler of the current event or of a later one of
    the batch. -/
inductive Act where
  | accept (k : ConnId)
  | context (k : ConnId)
  | connect (k : ConnId) (msg : Connect) (code : ConnAckCode) (c : CtxId)
  | subscribe (k : ConnId) (c : CtxId) (topics : List Topic)
  | retained (c : CtxId) (t : ByteStr) (m : MbufId) (msgId : Nat)
  | unsubscribe (k : ConnId) (c : CtxId) (t : ByteStr) (listed : Bool)
  | publish (t : ByteStr) (m : MbufId) (msgId : Nat)
  | publishAll (m : MbufId) (msgId : Nat)
  | puback (k : ConnId) (c : CtxId) (msgId : Nat) (oldest : Option Nat)
  | disconnect (k : ConnId) (c : CtxId)
  | put (k : ConnId) (m : MbufId) (res : Int)
  | close (k : ConnId) (c : CtxId) (cause : Cause) (clean busy : Bool)
deriving DecidableEq, Repr

/-- The time stamps of a context, and the peer name that CONNECT records with them. -/
structure ContextTimes where
  remoteAddr : ByteStr := []
  accept : Nat := 0
  connect : Nat := 0
  discon : Nat := 0
  close : Nat := 0
  lastPub : Nat := 0
  lastMsg : Nat := 0
  lastPubMsgId : Nat := 0
deriving DecidableEq, Repr

/-- `CMsgMemStore`. `registered` lists the live buffers whose destructor will call `del_msg`. -/
structure MsgMemStore where
  lastMsgId : Nat := 0
  msgDb : AList (fun _ : Nat => MbufId) := ∅
  lastUpdateTime : Nat := 0
  registered : List MbufId := []

/-- `CMsgStat`. -/
structure MsgStat where
  msgId : Nat := 0
  pubStart : Nat := 0
  pubEnd : Nat := 0
  pubOnlineNum : Nat := 0
  pubOfflineNum : Nat := 0
  ackClient : Nat := 0
deriving DecidableEq, Repr

/-- The state of the broker. The clock stands still during one event. `file` is what the disk has of the db file;
    `dbFile` is `m_db_file`: null, or an open stream with the bytes in its buffer. `nfiles` numbers the calls of
    `fopen` and `fwrite`. -/
structure Broker where
  sess : Sess := Sess.empty
  bufs : Bufs := fun _ => Buf.make 0 0 []
  nextBuf : MbufId := 0
  handlers : ConnId → EventHandler := fun _ => EventHandler.opened
  nwrites : ConnId → Nat := fun _ => 0
  recv : ConnId → RecvBuffer := fun _ => { mem := fun _ => 0, curBufPos := 0 }
  lastMsgTime : ConnId → Nat := fun _ => 0
  acceptTime : ConnId → Nat := fun _ => 0
  times : CtxId → ContextTimes := fun _ => {}
  store : MsgMemStore := {}
  stat : Nat → MsgStat := fun _ => {}
  notifyDeque : List MbufId := []
  notifyOpen : Bool := true
  file : Option ByteStr := none
  dbFile : Option ByteStr := none
  nfiles : Nat := 0
  lastDbUpdateTime : Nat := 0
  busy : List ConnId := []
  now : Nat := 0
  log : List Act := []

/-- A piece of the reactor thread. -/
abbrev BrokerM := Exec Broker Fault

namespace Broker

/-- Change the tables and record it. -/
def act (b : Broker) (sess : Sess) (a : Act) : Broker := { b with sess, log := b.log ++ [a] }

/-- The connection is the handler of the current event or of a later one of the batch. -/
def isBusy (b : Broker) (k : ConnId) : Bool := decide (k ∈ b.busy)

/-- Change the statistics slot of a message. -/
def modifyStat (b : Broker) (msgId : Nat) (f : MsgStat → MsgStat) : Broker :=
  { b with stat := Function.update b.stat (msgId % 65536) (f (b.stat (msgId % 65536))) }

/-- `msg_stat(msg_id)` followed by `start_stat()`, which clears the id again. -/
def startStat (b : Broker) (msgId : Nat) : Broker := b.modifyStat msgId fun _ => { pubStart := b.now }

/-- `end_stat()`. -/
def endStat (b : Broker) (msgId : Nat) : Broker :=
  b.modifyStat msgId fun x => { x with pubEnd := b.now }

end Broker

/-- Access a member of a connection. -/
def touch (k : ConnId) : BrokerM Unit := do
  let b ← get
  if b.sess.Alive k then pure () else Exec.fault (.useAfterFree k)

/-! ## Contexts, buffers and closing -/

/-- `client_context()`: a connection without a context gets one. -/
def clientContext (env : Env) (k : ConnId) : BrokerM CtxId := do
  touch k
  let b ← get
  match b.sess.contextOf k with
  | some c => pure c
  | none => do
      set (b.act (b.sess.newContext k (env.cleanGarbage k)) (.context k))
      pure (.conn k)

/-- Allocate a buffer. -/
def newBuf (buf : Buf) : BrokerM MbufId := do
  let b ← get
  set { b with bufs := Function.update b.bufs b.nextBuf buf, nextBuf := b.nextBuf + 1 }
  pure b.nextBuf

/-- `CMqttConnection::handle_close()`. The context is used before the source tests it for null. -/
def handleClose (k : ConnId) (cause : Cause) : BrokerM Unit := do
  touch k
  -- `CEventHandler::close`: no more events, the socket is closed
  modify fun b =>
    { b with handlers := Function.update b.handlers k { b.handlers k with currentEventMask := 0 } }
  let b ← get
  match b.sess.contextOf k with
  | none => Exec.fault (.nullContext k)
  | some c => do
      set (b.act (b.sess.close k c) (.close k c cause (b.sess.ctxs c).cleanSession (b.isBusy k)))
      modify fun b =>
        { b with times := Function.update b.times c { b.times c with close := b.now } }

/-! ## Output -/

/-- The branch of `nonblk_send` for a hard error. -/
def closeOnError (k : ConnId) (closing : Bool) : BrokerM Unit :=
  if closing then handleClose k .lost else pure ()

/-- `put(mbuf)` on a connection. -/
def put (env : Env) (k : ConnId) (m : MbufId) : BrokerM Int := do
  touch k
  let b ← get
  let h := b.handlers k
  let r := h.put b.bufs m (env.write k (b.nwrites k))
  set { b with
        bufs := r.bufs
        handlers := Function.update b.handlers k r.handler
        nwrites := Function.update b.nwrites k
          (if h.sendMsgQueue.isEmpty then b.nwrites k + 1 else b.nwrites k)
        log := b.log ++ [Act.put k m r.res] }
  closeOnError k r.closing
  pure r.res

/-- `CEventHandler::handle_output()`: after a hard error the queue of the deleted connection is read. -/
def handleOutput (env : Env) (k : ConnId) : BrokerM Int := do
  touch k
  let b ← get
  let h := b.handlers k
  let r := h.handleOutput b.bufs (env.write k (b.nwrites k))
  set { b with
        bufs := r.bufs
        handlers := Function.update b.handlers k r.handler
        nwrites := Function.update b.nwrites k
          (if h.sendMsgQueue.isEmpty then b.nwrites k else b.nwrites k + 1) }
  closeOnError k r.closing
  touch k
  pure r.res

/-- A reply: a buffer of `size` bytes is allocated, and put when the encoder succeeded. -/
def reply (env : Env) (k : ConnId) (size : Nat) (bytes : Option ByteStr) : BrokerM Int := do
  let b ← get
  match bytes with
  | none => do
      let _ ← newBuf (Buf.make size b.now [])
      pure (-1)
  | some bytes => do
      let m ← newBuf (Buf.make size b.now bytes)
      put env k m

/-! ## `CSubscriberMgr` -/

/-- `add_client_context(str_topic_name, cli_context)`. The retained message goes to an online session whose
    topic had a node. -/
def addClientContext (env : Env) (t : ByteStr) (c : CtxId) : BrokerM Int := do
  let b ← get
  match b.sess.topicMgr.retainMsg t, (b.sess.ctxs c).mqttConnection with
  | some m, some k => do
      set (b.act (b.sess.subscribe t c) (.retained c t m (b.bufs m).msgId))
      put env k m
  | _, _ => do
      set { b with sess := b.sess.subscribe t c }
      pure 0

/-- `publish(client, mbuf, msg_stat)`. -/
def publishClient (env : Env) (c : CtxId) (m : MbufId) : BrokerM Unit := do
  let b ← get
  let id := (b.bufs m).msgId
  set { b with sess := b.sess.modifyContext c (·.addSendMsg m) }
  match (b.sess.ctxs c).mqttConnection with
  | some k => do
      let _ ← put env k m
      modify fun b => b.modifyStat id fun x => { x with pubOnlineNum := x.pubOnlineNum + 1 }
  | none =>
      modify fun b => b.modifyStat id fun x => { x with pubOfflineNum := x.pubOfflineNum + 1 }

/-- The loop over the subscriber set of `t`. An element erased before its turn is not visited; going on from
    an element that was erased during its turn is a fault. -/
def publishLoop (env : Env) (t : ByteStr) (m : MbufId) : List CtxId → BrokerM Unit
  | [] => pure ()
  | c :: cs => do
      let b ← get
      if c ∈ b.sess.topicMgr.clients t then do
        publishClient env c m
        let b ← get
        if c ∈ b.sess.topicMgr.clients t then publishLoop env t m cs
        else Exec.fault (.iterator c)
      else publishLoop env t m cs

/-- The loop of `publish` and of one round of `publish_all` over the subscriber set of `t`. -/
def publishSet (env : Env) (t : ByteStr) (m : MbufId) : BrokerM Unit := do
  let b ← get
  publishLoop env t m (env.order (b.sess.topicMgr.clients t).toList)

/-- A retained copy: the same unread bytes with the retain bit set, and the same id; it is not registered. -/
def retainCopy (now : Nat) (b : Buf) : Buf :=
  let bytes := match b.unread with
    | [] => []
    | h :: rest => UInt8.ofNat (h.toNat / 2 * 2 + 1) :: rest
  (Buf.make b.unread.length now bytes).tag b.msgId .data false

/-- The retain part of `publish`. -/
def updateRetain (t : ByteStr) (m : MbufId) (msg : Publish) : BrokerM Unit := do
  let b ← get
  if msg.header.retainFlag then do
    let r ← newBuf (retainCopy b.now (b.bufs m))
    let slot := if msg.payload.length > 0 then some r else none
    modify fun b => { b with sess := { b.sess with topicMgr := b.sess.topicMgr.setRetainMsg t slot } }
  else pure ()

/-- `publish(str_topic_name, mbuf, publish_msg)`. A topic that had no node gets one, and nothing is
    delivered. -/
def publishTopic (env : Env) (t : ByteStr) (m : MbufId) (msg : Publish) : BrokerM Unit := do
  let b ← get
  let id := (b.bufs m).msgId
  let noSubClient := (b.sess.topicMgr.lookup t).isNone
  set (b.act { b.sess with topicMgr := b.sess.topicMgr.ensure t } (.publish t m id))
  updateRetain t m msg
  if noSubClient then pure ()
  else do
    modify (·.startStat id)
    publishSet env t m
    modify (·.endStat id)

/-- The topics of `publish_all`, one after the other. -/
def publishTopics (env : Env) (m : MbufId) : List ByteStr → BrokerM Unit
  | [] => pure ()
  | t :: ts => do
      publishSet env t m
      publishTopics env m ts

/-- `publish_all(mbuf, …)`, the bridge mode. -/
def publishAll (env : Env) (m : MbufId) : BrokerM Unit := do
  let b ← get
  let id := (b.bufs m).msgId
  set { b with log := b.log ++ [Act.publishAll m id] }
  modify (·.startStat id)
  publishTopics env m (env.order b.sess.topicMgr.keys)
  modify (·.endStat id)

/-! ## Buffers nobody points at -/

namespace Broker

/-- The live connections. -/
def liveConns (b : Broker) : List ConnId := (List.range b.sess.nextConn).filter fun k => b.sess.Alive k

/-- The contexts something points at. -/
def liveContexts (b : Broker) : List CtxId :=
  b.sess.registry.entries.map Sigma.snd ++ b.sess.topicMgr.entries.flatMap (fun e => e.2.clients.toList) ++
    b.liveConns.filterMap b.sess.contextOf

/-- Some pointer to the buffer is left. -/
def referenced (b : Broker) (m : MbufId) : Bool :=
  b.notifyDeque.contains m || b.liveContexts.any (fun c => (b.sess.ctxs c).sendMsgQueue.contains m) ||
    b.liveConns.any (fun k => (b.handlers k).sendMsgQueue.contains m) ||
    b.sess.topicMgr.entries.any fun e => e.2.retainMsg == some m

/-- `~CMbuf()` of a registered buffer: the id is removed, whatever buffer it stands for. -/
def destroy (b : Broker) (m : MbufId) : Broker :=
  if m ∈ b.store.registered then
    { b with store := { b.store with
                        msgDb := b.store.msgDb.erase (b.bufs m).msgId
                        registered := b.store.registered.filter (· ≠ m) } }
  else b

/-- A pointer to the buffer is gone, perhaps the last one. -/
def letGo (b : Broker) (m : MbufId) : Broker := if b.referenced m then b else b.destroy m

/-- The destructors of the buffers that went out of use during an event: each removes its id from the message
    table. -/
def collect (b : Broker) : Broker :=
  let dead := b.store.registered.filter fun m => !b.referenced m
  { b with store := { b.store with
                      msgDb := dead.foldl (fun db m => db.erase (b.bufs m).msgId) b.store.msgDb
                      registered := b.store.registered.filter fun m => b.referenced m } }

end Broker

end MqttServer
