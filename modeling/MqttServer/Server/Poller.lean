import MqttServer.Server.Connection
import MqttServer.Server.Persist

/-!
# `Server.Poller` — the event loop and the runs of the broker

`CPollerEpoll::run` takes a batch of events from `epoll_wait` and handles them one after the other: new
connections, events of connections, messages other threads have put into the notify queue, and the timer that
checks for idle clients and stores the broker. A run starts with an empty broker or with one restored from a
file; the HTTP server and the bridge client, which have threads of their own, put messages into the notify
queue at any moment between two events.
-/

namespace MqttServer

open Lib

/-! ## The notify queue -/

/-- `CPollerEpoll::notify(mbuf)`; nothing is queued once the notifier is gone. -/
def notify (m : MbufId) : BrokerM Unit :=
  modify fun b => if b.notifyOpen then { b with notifyDeque := b.notifyDeque ++ [m] } else b

/-- `HttpConnection::notify_mqtt_publish` after the parameters are read. -/
def notifyMqttPublish (header : FixedHeader) (topic msg : ByteStr) : BrokerM Unit := do
  let b ← get
  let size := msg.length + topic.length + 8
  let id := (b.store.lastMsgId + 1) % 2 ^ 64
  let publish : Publish := { header, topicName := topic, msgId := id % 65536, payload := msg }
  match publish.encode size with
  | none => do
      let _ ← registBuf .publish size fun _ => []
  | some bytes => do
      let m ← registBuf .publish size fun _ => bytes
      notify m

/-- The PUBLISH case of `TCPClient::process_mqtt`: the message keeps the parent broker's identifier and is
    not registered. -/
def bridgePublish (buf : ByteStr) : BrokerM Unit :=
  match Publish.decode.decode buf with
  | none => pure ()
  | some msg => do
      let b ← get
      let m ← newBuf ((Buf.make buf.length b.now buf).tag msg.msgId .publish false)
      notify m

/-- What the notifier does with one message: in bridge mode it goes to every client. -/
def publishNotified (env : Env) (m : MbufId) (msg : Publish) : BrokerM Unit :=
  if env.mqttBridge then publishAll env m else publishTopic env msg.topicName m msg

/-- The loop of `CPollerNotifyFd::handle_input()`. -/
def notifyLoop (env : Env) : List MbufId → BrokerM Int
  | [] => pure 0
  | m :: ms => do
      modify fun b => { b with notifyDeque := ms }
      let b ← get
      if (b.bufs m).1.msgType = .publish then
        match Publish.decode.decode (b.bufs m).unread with
        | none => pure (-1)
        | some msg => do
            publishNotified env m msg
            notifyLoop env ms
      else notifyLoop env ms

/-- The notify event. A negative result makes `run` close the notifier. -/
def handleNotify (env : Env) : BrokerM Unit := do
  let b ← get
  let res ← notifyLoop env b.notifyDeque
  if res < 0 then modify fun b => { b with notifyOpen := false } else pure ()

/-! ## One event -/

/-- An entry of the array `epoll_wait` fills. -/
inductive Ready where
  | accept
  | conn (k : ConnId) (hup : Bool) (input : Option ReadOut) (output : Bool)
  | notify
  | timer

/-- The connection an event is for. -/
def Ready.conn? : Ready → Option ConnId
  | .conn k _ _ _ => some k
  | _ => none

/-- `Acceptor::handle_input()`. -/
def handleAccept (env : Env) : BrokerM Unit :=
  modify fun b =>
    let k := b.sess.nextConn
    { b.act b.sess.accept (.accept k) with
      handlers := Function.update b.handlers k EventHandler.opened
      recv := Function.update b.recv k { mem := env.recvGarbage k, curBufPos := 0 }
      acceptTime := Function.update b.acceptTime k b.now }

/-- The `EPOLLIN` branch. -/
def runInput (env : Env) (k : ConnId) (input : Option ReadOut) : BrokerM Int :=
  match input with
  | some out => handleInput env k out
  | none => pure 0

/-- The body of the loop of `CPollerEpoll::run` for a connection; `handle_output` never returns a negative
    value. -/
def runConn (env : Env) (k : ConnId) (hup : Bool) (input : Option ReadOut) (output : Bool) :
    BrokerM Unit := do
  touch k
  if hup then handleClose k .event
  else do
    let res ← runInput env k input
    if res < 0 then handleClose k .event
    else if output then do
      let _ ← handleOutput env k
    else pure ()

/-- The body of the loop of `CPollerEpoll::run`. -/
def runEvent (env : Env) (mp : MsgPack) (e : Ready) : BrokerM Unit :=
  match e with
  | .accept => handleAccept env
  | .conn k hup input output => runConn env k hup input output
  | .notify => handleNotify env
  | .timer => do
      let _ ← store env mp false

/-! ## Runs -/

/-- The broker with the events of the current batch that are still to be handled. -/
structure Machine where
  broker : Broker
  batch : List Ready

/-- What happens next: `epoll_wait` returns a batch, the next event of the batch is handled, or another
    thread publishes. -/
inductive Move where
  | wait (now : Nat) (batch : List Ready)
  | next
  | http (header : FixedHeader) (topic msg : ByteStr)
  | bridge (buf : ByteStr)

namespace Machine

/-- A batch names each handler once, and only handlers that are registered. -/
def Enabled (m : Machine) : Move → Prop
  | .wait now batch =>
      m.batch = [] ∧ m.broker.now ≤ now ∧ (batch.filterMap Ready.conn?).Nodup ∧
        ∀ k ∈ batch.filterMap Ready.conn?, m.broker.sess.Alive k
  | .next => m.batch ≠ []
  | .http _ _ _ => True
  | .bridge _ => True

/-- The state after a move. -/
def step (env : Env) (mp : MsgPack) (m : Machine) : Move → Except (Fault × Broker) Machine
  | .wait now batch => .ok { broker := { m.broker with now }, batch }
  | .next =>
      match m.batch with
      | [] => .ok m
      | e :: es =>
          match runEvent env mp e { m.broker with busy := (e :: es).filterMap Ready.conn? } with
          | .ok (_, b) => .ok { broker := b.collect, batch := es }
          | .error f => .error f
  | .http header topic msg =>
      match notifyMqttPublish header topic msg m.broker with
      | .ok (_, b) => .ok { m with broker := b.collect }
      | .error f => .error f
  | .bridge buf =>
      match bridgePublish buf m.broker with
      | .ok (_, b) => .ok { m with broker := b.collect }
      | .error f => .error f

end Machine

/-- A broker ready to serve: empty, or restored from the file on the disk at some time of the clock. -/
inductive Started (env : Env) (mp : MsgPack) : Broker → Prop where
  | empty : Started env mp {}
  | restored (file : Option ByteStr) (now : Nat) (b : Broker) (h : restore env mp file { file, now } = .ok (0, b)) :
      Started env mp b

/-- The states a broker can get into without running into undefined behaviour. -/
inductive Reach (env : Env) (mp : MsgPack) : Machine → Prop where
  | start {b : Broker} (h : Started env mp b) : Reach env mp { broker := b, batch := [] }
  | step {m m' : Machine} {mv : Move} (h : Reach env mp m) (en : m.Enabled mv)
      (hs : m.step env mp mv = .ok m') : Reach env mp m'

/-- The states of the runs of a broker that started as `b₀`. -/
inductive Runs (env : Env) (mp : MsgPack) (b₀ : Broker) : Machine → Prop where
  | start : Runs env mp b₀ { broker := b₀, batch := [] }
  | step {m m' : Machine} {mv : Move} (h : Runs env mp b₀ m) (en : m.Enabled mv)
      (hs : m.step env mp mv = .ok m') : Runs env mp b₀ m'

theorem Runs.reach {env : Env} {mp : MsgPack} {b₀ : Broker} {m : Machine} (hb : Started env mp b₀)
    (h : Runs env mp b₀ m) : Reach env mp m := by
  induction h with
  | start => exact .start hb
  | step _ en hs ih => exact .step ih en hs

/-- The states of runs every step of which meets a condition on the state before it, the move and the state after
    it. -/
inductive RunsWhen (env : Env) (mp : MsgPack) (P : Machine → Move → Machine → Prop) (b₀ : Broker) :
    Machine → Prop where
  | start : RunsWhen env mp P b₀ { broker := b₀, batch := [] }
  | step {m m' : Machine} {mv : Move} (h : RunsWhen env mp P b₀ m) (en : m.Enabled mv)
      (hs : m.step env mp mv = .ok m') (hP : P m mv m') : RunsWhen env mp P b₀ m'

theorem RunsWhen.runs {env : Env} {mp : MsgPack} {P : Machine → Move → Machine → Prop} {b₀ : Broker} {m : Machine}
    (h : RunsWhen env mp P b₀ m) : Runs env mp b₀ m := by
  induction h with
  | start => exact .start
  | step _ en hs _ ih => exact .step ih en hs

/-! ## Playing a script -/

namespace Machine

instance (m : Machine) : (mv : Move) → Decidable (m.Enabled mv)
  | .wait _ _ =>
      have : Decidable (m.batch = []) := decidable_of_iff (m.batch.isEmpty = true) List.isEmpty_iff
      inferInstanceAs (Decidable (_ ∧ _ ∧ _ ∧ _))
  | .next =>
      have : Decidable (m.batch = []) := decidable_of_iff (m.batch.isEmpty = true) List.isEmpty_iff
      inferInstanceAs (Decidable (¬ _))
  | .http _ _ _ => inferInstanceAs (Decidable True)
  | .bridge _ => inferInstanceAs (Decidable True)

/-- The state after a list of moves; `none` when one of them is not enabled, or faults. -/
def play (env : Env) (mp : MsgPack) (m : Machine) : List Move → Option Machine
  | [] => some m
  | mv :: mvs =>
      if m.Enabled mv then
        match m.step env mp mv with
        | .ok m' => play env mp m' mvs
        | .error _ => none
      else none

theorem play_runs {env : Env} {mp : MsgPack} {b₀ : Broker} {m m' : Machine} (mvs : List Move)
    (h : Runs env mp b₀ m) (hp : m.play env mp mvs = some m') : Runs env mp b₀ m' := by
  induction mvs generalizing m with
  | nil =>
      cases hp
      exact h
  | cons mv mvs ih =>
      unfold play at hp
      split at hp
      · rename_i hen
        cases hs : m.step env mp mv with
        | ok m₁ =>
            rw [hs] at hp
            exact ih (.step h hen hs) hp
        | error f =>
            rw [hs] at hp
            cases hp
      · cases hp

/-- The same, when each move also passes a test. -/
def playWhen (env : Env) (mp : MsgPack) (test : Machine → Move → Machine → Bool) (m : Machine) :
    List Move → Option Machine
  | [] => some m
  | mv :: mvs =>
      if m.Enabled mv then
        match m.step env mp mv with
        | .ok m' => if test m mv m' then playWhen env mp test m' mvs else none
        | .error _ => none
      else none

theorem playWhen_runs {env : Env} {mp : MsgPack} {P : Machine → Move → Machine → Prop}
    {test : Machine → Move → Machine → Bool} {b₀ : Broker} {m m' : Machine} (mvs : List Move)
    (htest : ∀ m mv m', m.step env mp mv = .ok m' → test m mv m' = true → P m mv m') (h : RunsWhen env mp P b₀ m)
    (hp : m.playWhen env mp test mvs = some m') : RunsWhen env mp P b₀ m' := by
  induction mvs generalizing m with
  | nil =>
      cases hp
      exact h
  | cons mv mvs ih =>
      unfold playWhen at hp
      split at hp
      · rename_i hen
        cases hs : m.step env mp mv with
        | ok m₁ =>
            simp only [hs] at hp
            split at hp
            · rename_i hpass
              exact ih (.step h hen hs (htest m mv m₁ hs hpass)) hp
            · cases hp
        | error f =>
            rw [hs] at hp
            cases hp
      · cases hp

/-- An empty broker. -/
def initial : Machine := { broker := {}, batch := [] }

/-- What a decidable test of a played script says about runs. -/
theorem exists_runs {env : Env} {mp : MsgPack} {mvs : List Move} {P : Machine → Prop} [DecidablePred P]
    (h : (initial.play env mp mvs).any (fun m => decide (P m)) = true) : ∃ m, Runs env mp {} m ∧ P m := by
  obtain ⟨m, hm, hP⟩ := (Option.any_eq_true _ _).mp h
  exact ⟨m, play_runs mvs .start hm, of_decide_eq_true hP⟩

theorem exists_reach {env : Env} {mp : MsgPack} {mvs : List Move} {P : Machine → Prop} [DecidablePred P]
    (h : (initial.play env mp mvs).any (fun m => decide (P m)) = true) : ∃ m, Reach env mp m ∧ P m := by
  obtain ⟨m, hm, hP⟩ := exists_runs h
  exact ⟨m, hm.reach .empty, hP⟩

end Machine

/-- An outside that takes every byte and never fails. -/
def Env.calm : Env :=
  { write := fun _ _ => { errnoBefore := .none, out := .wrote 65536 }
    order := id, order_perm := fun l => List.Perm.refl l
    cleanGarbage := fun _ => false, recvGarbage := fun _ _ => 0, peerAddr := fun _ => []
    fopen := fun _ => true, fwrite := fun _ => none, drain := fun _ => 0
    fflush := fun _ => none, fclose := fun _ => none
    mqttBridge := false, maxIdleTimeout := 300 }

/-- A batch of one event, handled at once. -/
def Move.alone (now : Nat) (e : Ready) : List Move := [.wait now [e], .next]

/-- A connection delivers some bytes. -/
def Ready.input (k : ConnId) (data : ByteStr) : Ready :=
  .conn k false (some (.bytes { data, behind := fun _ => 0 })) false

/-- A connection is hung up. -/
def Ready.hangup (k : ConnId) : Ready := .conn k true none false

/-- A CONNECT packet of protocol version 3 for a client id of one byte. -/
def connectPacket (clientId flags : UInt8) : ByteStr :=
  [0x10, 15, 0, 6, 0x4D, 0x51, 0x49, 0x73, 0x64, 0x70, 3, flags, 0, 60, 0, 1, clientId]

/-- A SUBSCRIBE packet for one topic of one byte. -/
def subscribePacket (topic : UInt8) : ByteStr := [0x82, 6, 0, 1, 0, 1, topic, 0]

/-- A PUBLISH packet of QoS 1 for a topic of one byte and a payload of one byte. -/
def publishPacket (topic payload : UInt8) : ByteStr := [0x32, 6, 0, 1, topic, 0, 7, payload]

/-- A PUBACK packet. -/
def pubackPacket (id : UInt8) : ByteStr := [0x40, 2, 0, id]

/-- The same PUBLISH packet with the retain flag. -/
def retainPacket (topic payload : UInt8) : ByteStr := [0x33, 6, 0, 1, topic, 0, 7, payload]

end MqttServer
