import Mathlib.Data.List.AList
import MqttServer.Lib.USet
import MqttServer.Codec.Msg
import MqttServer.Reactor.EventHandler

/-!
# `Server.Session` — client contexts, the client-id registry and the topic table

The tables of `CTMqttClientContext`, `CClientIdContext` and `CSubscriberMgr`, with the updates the handlers
make on them. Nothing here sends anything: the operations are pure, and `Server.Broker` puts them together
with output, faults and the trace.

A connection is named by a number that is never used twice, so a destroyed connection stays recognisable. A
context is named by the connection that created it, which creates at most one, or by its place in the file it
was restored from.
-/

namespace MqttServer

open Lib

abbrev ConnId := Nat

/-- The name of a client context. -/
inductive CtxId where
  | conn (k : ConnId)
  | stored (i : Nat)
deriving DecidableEq, Repr

/-- `ClientStatus`. -/
inductive ClientStatus where
  | none | new | connected | disconnected | expiring
deriving DecidableEq, Repr

/-- `CTMqttClientContext`, without its time stamps. -/
structure ClientContext where
  mqttConnection : Option ConnId
  clientStatus : ClientStatus
  protocalName : ByteStr
  protocalVer : Nat
  clientId : ByteStr
  userName : ByteStr
  userPassword : ByteStr
  cleanSession : Bool
  sendMsgQueue : List MbufId
  subcribeTopics : List Topic
deriving DecidableEq, Repr

namespace ClientContext

/-- `CTMqttClientContext(con)`; `m_clean_session` is left uninitialised. -/
def create (con : Option ConnId) (cleanSession : Bool) : ClientContext :=
  { mqttConnection := con, clientStatus := .new, protocalName := [], protocalVer := 0, clientId := []
    userName := [], userPassword := [], cleanSession, sendMsgQueue := [], subcribeTopics := [] }

/-- `init(con_msg)`. -/
def init (c : ClientContext) (msg : Connect) : ClientContext :=
  { c with
    clientStatus := .connected
    protocalName := msg.protoName
    protocalVer := msg.protoVersion
    clientId := msg.clientId
    userName := msg.userName
    userPassword := msg.password
    cleanSession := msg.cleanSession }

/-- `add_subcribe_topics(sub_topics)`: an entry is new unless name and QoS are both known. -/
def addSubcribeTopics (c : ClientContext) (subTopics : List Topic) : ClientContext :=
  { c with
    subcribeTopics := subTopics.foldl (fun ts t => if t ∈ ts then ts else ts ++ [t]) c.subcribeTopics }

/-- `add_send_msg(send_mbuf)`. -/
def addSendMsg (c : ClientContext) (m : MbufId) : ClientContext :=
  { c with sendMsgQueue := c.sendMsgQueue ++ [m] }

/-- The test of `ack_msg(msg_id)`: the oldest pending message, if its low sixteen bits are `msg_id`. -/
def acked (c : ClientContext) (idOf : MbufId → Nat) (msgId : Nat) : Option MbufId :=
  match c.sendMsgQueue with
  | [] => none
  | m :: _ => if idOf m % 65536 = msgId then some m else none

/-- `ack_msg(msg_id)`. -/
def ackMsg (c : ClientContext) (idOf : MbufId → Nat) (msgId : Nat) : ClientContext :=
  if (c.acked idOf msgId).isSome then { c with sendMsgQueue := c.sendMsgQueue.tail } else c

/-- `mqtt_connection(nullptr)`. -/
def detach (c : ClientContext) : ClientContext := { c with mqttConnection := none }

/-- `client_status(CS_DISCONNECTED)`. -/
def disconnect (c : ClientContext) : ClientContext := { c with clientStatus := .disconnected }

/-- The names of the topics in `m_subcribe_topics`. -/
def topicNames (c : ClientContext) : List ByteStr := c.subcribeTopics.map Topic.topicName

end ClientContext

/-! ## The client-id registry -/

/-- `CClientIdContext::m_client_msg`. -/
abbrev Registry := AList (fun _ : ByteStr => CtxId)

namespace Registry

/-- `find_client_context(client_id, …)`. -/
def findClientContext (r : Registry) (clientId : ByteStr) : Option CtxId := r.lookup clientId

/-- `add_client_context(client_id, …)`: an entry that exists is kept. -/
def addClientContext (r : Registry) (clientId : ByteStr) (c : CtxId) : Registry :=
  match r.lookup clientId with
  | none => r.insert clientId c
  | some _ => r

/-- `del_client_context(client_id)`. -/
def delClientContext (r : Registry) (clientId : ByteStr) : Registry := r.erase clientId

end Registry

/-! ## The topic table -/

/-- `CTopicNode`. -/
structure TopicNode where
  retainMsg : Option MbufId
  clients : USet CtxId

/-- `CSubscriberMgr::m_topic_mgr`. -/
abbrev TopicMgr := AList (fun _ : ByteStr => TopicNode)

namespace TopicMgr

/-- The subscriber set of a topic; a topic without a node has none. -/
def clients (mgr : TopicMgr) (t : ByteStr) : USet CtxId :=
  match mgr.lookup t with
  | none => ∅
  | some node => node.clients

/-- The retained message of a topic. -/
def retainMsg (mgr : TopicMgr) (t : ByteStr) : Option MbufId :=
  match mgr.lookup t with
  | none => none
  | some node => node.retainMsg

/-- The table part of `add_client_context(str_topic_name, cli_context)`. -/
def addClientContext (mgr : TopicMgr) (t : ByteStr) (c : CtxId) : TopicMgr :=
  match mgr.lookup t with
  | none => mgr.insert t { retainMsg := none, clients := (∅ : USet CtxId).insert c }
  | some node => mgr.insert t { node with clients := node.clients.insert c }

/-- `del_client_context(str_topic_name, cli_context)`. -/
def delClientContext (mgr : TopicMgr) (t : ByteStr) (c : CtxId) : TopicMgr :=
  match mgr.lookup t with
  | none => mgr
  | some node => mgr.insert t { node with clients := node.clients.erase c }

/-- The start of `publish`: a topic without a node gets an empty one. -/
def ensure (mgr : TopicMgr) (t : ByteStr) : TopicMgr :=
  match mgr.lookup t with
  | none => mgr.insert t { retainMsg := none, clients := ∅ }
  | some _ => mgr

/-- `update_retain_msg` and `clean_retain_msg` on the node of a topic. -/
def setRetainMsg (mgr : TopicMgr) (t : ByteStr) (m : Option MbufId) : TopicMgr :=
  match mgr.lookup t with
  | none => mgr
  | some node => mgr.insert t { node with retainMsg := m }

theorem clients_insert (mgr : TopicMgr) (t t' : ByteStr) (node : TopicNode) :
    clients (AList.insert t node mgr) t' = if t' = t then node.clients else mgr.clients t' := by
  unfold clients
  by_cases h : t' = t
  · subst h
    rw [AList.lookup_insert, if_pos rfl]
  · rw [AList.lookup_insert_ne h, if_neg h]

@[simp] theorem mem_clients_add {mgr : TopicMgr} {t t' : ByteStr} {c c' : CtxId} :
    c' ∈ (mgr.addClientContext t c).clients t' ↔ c' ∈ mgr.clients t' ∨ (t' = t ∧ c' = c) := by
  unfold addClientContext
  cases h : mgr.lookup t with
  | none =>
      have he : mgr.clients t = ∅ := by simp only [clients, h]
      simp only [clients_insert]
      split
      · rename_i ht
        subst ht
        simp [he]
      · rename_i ht
        simp [ht]
  | some node =>
      have he : mgr.clients t = node.clients := by simp only [clients, h]
      simp only [clients_insert]
      split
      · rename_i ht
        subst ht
        simp [he]
      · rename_i ht
        simp [ht]

@[simp] theorem mem_clients_del {mgr : TopicMgr} {t t' : ByteStr} {c c' : CtxId} :
    c' ∈ (mgr.delClientContext t c).clients t' ↔ c' ∈ mgr.clients t' ∧ ¬ (t' = t ∧ c' = c) := by
  unfold delClientContext
  cases h : mgr.lookup t with
  | none =>
      have he : mgr.clients t = ∅ := by simp only [clients, h]
      constructor
      · intro hc
        refine ⟨hc, ?_⟩
        rintro ⟨rfl, -⟩
        rw [he] at hc
        exact USet.not_mem_empty _ hc
      · exact fun hc => hc.1
  | some node =>
      have he : mgr.clients t = node.clients := by simp only [clients, h]
      simp only [clients_insert]
      split
      · rename_i ht
        subst ht
        simp [he]
      · rename_i ht
        simp [ht]

@[simp] theorem clients_ensure (mgr : TopicMgr) (t t' : ByteStr) :
    (mgr.ensure t).clients t' = mgr.clients t' := by
  unfold ensure
  cases h : mgr.lookup t with
  | none =>
      simp only [clients_insert]
      split
      · rename_i ht
        subst ht
        simp only [clients, h]
      · rfl
  | some node => rfl

@[simp] theorem clients_setRetainMsg (mgr : TopicMgr) (t t' : ByteStr) (m : Option MbufId) :
    (mgr.setRetainMsg t m).clients t' = mgr.clients t' := by
  unfold setRetainMsg
  cases h : mgr.lookup t with
  | none => rfl
  | some node =>
      simp only [clients_insert]
      split
      · rename_i ht
        subst ht
        simp only [clients, h]
      · rfl

end TopicMgr

/-! ## All tables together -/

/-- The part of a live `CMqttConnection` that belongs to the tables: `m_client_context`. -/
structure Conn where
  clientContext : Option CtxId
deriving DecidableEq, Repr

/-- Connections, contexts, registry and topics. `conns` holds the live connections only, and `nextConn` is the
    name of the next one. -/
structure Sess where
  nextConn : ConnId
  conns : ConnId → Option Conn
  ctxs : CtxId → ClientContext
  registry : Registry
  topicMgr : TopicMgr

namespace Sess

/-- An empty broker. -/
def empty : Sess :=
  { nextConn := 0, conns := fun _ => none, ctxs := fun _ => ClientContext.create none false
    registry := ∅, topicMgr := ∅ }

/-- The connection is accepted and not destroyed. -/
def Alive (s : Sess) (k : ConnId) : Prop := (s.conns k).isSome = true

instance (s : Sess) (k : ConnId) : Decidable (s.Alive k) := inferInstanceAs (Decidable (_ = true))

/-- The context of a live connection, when it has one. -/
def contextOf (s : Sess) (k : ConnId) : Option CtxId := (s.conns k).bind Conn.clientContext

/-- A context the registry or a subscriber set points at. -/
def Held (s : Sess) (c : CtxId) : Prop :=
  (∃ clientId, s.registry.findClientContext clientId = some c) ∨ ∃ t, c ∈ s.topicMgr.clients t

/-- Change one context. -/
def modifyContext (s : Sess) (c : CtxId) (f : ClientContext → ClientContext) : Sess :=
  { s with ctxs := Function.update s.ctxs c (f (s.ctxs c)) }

/-- Point a live connection at a context. -/
def setContext (s : Sess) (k : ConnId) (c : CtxId) : Sess :=
  { s with conns := Function.update s.conns k (some { clientContext := some c }) }

/-- `Acceptor::handle_input`: a new connection without a context. -/
def accept (s : Sess) : Sess :=
  { s with
    nextConn := s.nextConn + 1
    conns := Function.update s.conns s.nextConn (some { clientContext := none }) }

/-- `client_context()` on a connection that has none. -/
def newContext (s : Sess) (k : ConnId) (cleanSession : Bool) : Sess :=
  { s.setContext k (.conn k) with
    ctxs := Function.update s.ctxs (.conn k) (ClientContext.create (some k) cleanSession) }

/-- The CONNECT branch for a known client id, after the old connection is closed. -/
def resume (s : Sess) (k : ConnId) (c : CtxId) (msg : Connect) : Sess :=
  (s.modifyContext c fun x => { x.init msg with mqttConnection := some k }).setContext k c

/-- The CONNECT branch for an unknown client id, on the connection's own context. -/
def register (s : Sess) (c : CtxId) (msg : Connect) : Sess :=
  { s.modifyContext c (·.init msg) with
    registry := s.registry.addClientContext msg.clientId c }

/-- Remove a context from the subscriber sets of some topics. -/
def dropTopics (mgr : TopicMgr) (c : CtxId) (ts : List ByteStr) : TopicMgr :=
  ts.foldl (fun mgr t => mgr.delClientContext t c) mgr

/-- What `handle_close` does for a clean session: it gives up its subscriptions and its registry entry. -/
def forget (s : Sess) (c : CtxId) : Sess :=
  if (s.ctxs c).cleanSession then
    { s with
      topicMgr := dropTopics s.topicMgr c (s.ctxs c).topicNames
      registry := s.registry.delClientContext (s.ctxs c).clientId }
  else s

/-- The tables' part of `handle_close`: after the clean-up the context loses its connection, and the
    connection is destroyed. -/
def close (s : Sess) (k : ConnId) (c : CtxId) : Sess :=
  { (s.forget c).modifyContext c (·.detach) with
    conns := Function.update s.conns k none }

/-- `SUB_MGR->add_client_context(t, c)` up to the send: the set, and the retained message put on the pending
    queue of an online session whose topic already had a node. -/
def subscribe (s : Sess) (t : ByteStr) (c : CtxId) : Sess :=
  let s' := { s with topicMgr := s.topicMgr.addClientContext t c }
  match s.topicMgr.retainMsg t, (s.ctxs c).mqttConnection with
  | some m, some _ => s'.modifyContext c (·.addSendMsg m)
  | _, _ => s'

/-- `SUB_MGR->del_client_context(t, c)`. -/
def unsubscribe (s : Sess) (t : ByteStr) (c : CtxId) : Sess :=
  { s with topicMgr := s.topicMgr.delClientContext t c }

/-! ### What the operations do to each table -/

variable {s : Sess} {k k' : ConnId} {c c' : CtxId}

theorem alive_of_contextOf (h : s.contextOf k = some c) : s.Alive k := by
  unfold contextOf at h
  unfold Alive
  cases hk : s.conns k with
  | none =>
      rw [hk] at h
      cases h
  | some _ => rfl

@[simp] theorem modifyContext_ctxs (f : ClientContext → ClientContext) :
    (s.modifyContext c f).ctxs c' = if c' = c then f (s.ctxs c) else s.ctxs c' := by
  show Function.update s.ctxs c (f (s.ctxs c)) c' = _
  by_cases h : c' = c
  · subst h
    rw [Function.update_self, if_pos rfl]
  · rw [Function.update_of_ne h, if_neg h]

@[simp] theorem modifyContext_conns (f : ClientContext → ClientContext) :
    (s.modifyContext c f).conns = s.conns := rfl

@[simp] theorem modifyContext_contextOf (f : ClientContext → ClientContext) :
    (s.modifyContext c f).contextOf k = s.contextOf k := rfl

@[simp] theorem modifyContext_registry (f : ClientContext → ClientContext) :
    (s.modifyContext c f).registry = s.registry := rfl

@[simp] theorem modifyContext_topicMgr (f : ClientContext → ClientContext) :
    (s.modifyContext c f).topicMgr = s.topicMgr := rfl

@[simp] theorem accept_conns : s.accept.conns k =
    if k = s.nextConn then some { clientContext := none } else s.conns k := by
  show Function.update s.conns s.nextConn _ k = _
  by_cases h : k = s.nextConn
  · subst h
    rw [Function.update_self, if_pos rfl]
  · rw [Function.update_of_ne h, if_neg h]

theorem mem_clients_dropTopics {mgr : TopicMgr} {ts : List ByteStr} {t : ByteStr} :
    c' ∈ (dropTopics mgr c ts).clients t ↔ c' ∈ mgr.clients t ∧ ¬ (t ∈ ts ∧ c' = c) := by
  unfold dropTopics
  induction ts generalizing mgr with
  | nil => simp
  | cons t' ts ih =>
      rw [List.foldl_cons, ih, TopicMgr.mem_clients_del, and_assoc]
      apply and_congr_right
      intro _
      rw [List.mem_cons]
      constructor
      · rintro ⟨h₁, h₂⟩ ⟨h₃ | h₃, rfl⟩
        · exact h₁ ⟨h₃, rfl⟩
        · exact h₂ ⟨h₃, rfl⟩
      · intro h
        exact ⟨fun ⟨h₁, h₂⟩ => h ⟨Or.inl h₁, h₂⟩, fun ⟨h₁, h₂⟩ => h ⟨Or.inr h₁, h₂⟩⟩

@[simp] theorem forget_ctxs : (s.forget c).ctxs = s.ctxs := by
  unfold forget
  split <;> rfl

@[simp] theorem forget_nextConn : (s.forget c).nextConn = s.nextConn := by
  unfold forget
  split <;> rfl

@[simp] theorem close_nextConn : (s.close k c).nextConn = s.nextConn := forget_nextConn

@[simp] theorem close_conns : (s.close k c).conns k' = if k' = k then none else s.conns k' := by
  show Function.update s.conns k none k' = _
  by_cases hk : k' = k
  · subst hk
    rw [Function.update_self, if_pos rfl]
  · rw [Function.update_of_ne hk, if_neg hk]

@[simp] theorem close_ctxs : (s.close k c).ctxs c' =
    if c' = c then (s.ctxs c).detach else s.ctxs c' := by
  show ((s.forget c).modifyContext c (·.detach)).ctxs c' = _
  rw [modifyContext_ctxs, forget_ctxs]

theorem close_registry : (s.close k c).registry =
    if (s.ctxs c).cleanSession then s.registry.delClientContext (s.ctxs c).clientId else s.registry := by
  show (s.forget c).registry = _
  unfold forget
  split <;> rfl

theorem mem_clients_close {t : ByteStr} : c' ∈ (s.close k c).topicMgr.clients t ↔
    c' ∈ s.topicMgr.clients t ∧
      ¬ ((s.ctxs c).cleanSession = true ∧ t ∈ (s.ctxs c).topicNames ∧ c' = c) := by
  show c' ∈ (s.forget c).topicMgr.clients t ↔ _
  unfold forget
  cases h : (s.ctxs c).cleanSession with
  | false => simp
  | true =>
      simp only [if_true, true_and]
      exact mem_clients_dropTopics

@[simp] theorem close_contextOf : (s.close k c).contextOf k' = if k' = k then none else s.contextOf k' := by
  unfold contextOf
  rw [close_conns]
  by_cases hk : k' = k
  · rw [if_pos hk, if_pos hk]
    rfl
  · rw [if_neg hk, if_neg hk]

theorem alive_close : (s.close k c).Alive k' ↔ k' ≠ k ∧ s.Alive k' := by
  unfold Alive
  rw [close_conns]
  by_cases hk : k' = k
  · simp [hk]
  · simp [hk]

@[simp] theorem setContext_contextOf : (s.setContext k c).contextOf k' =
    if k' = k then some c else s.contextOf k' := by
  unfold contextOf setContext
  by_cases hk : k' = k
  · subst hk
    simp
  · simp [hk]

@[simp] theorem alive_setContext : (s.setContext k c).Alive k' ↔ k' = k ∨ s.Alive k' := by
  unfold Alive setContext
  by_cases hk : k' = k
  · subst hk
    simp
  · simp [hk]

@[simp] theorem alive_resume {msg : Connect} : (s.resume k c msg).Alive k' ↔ k' = k ∨ s.Alive k' :=
  alive_setContext

@[simp] theorem resume_contextOf {msg : Connect} : (s.resume k c msg).contextOf k' =
    if k' = k then some c else s.contextOf k' := setContext_contextOf

@[simp] theorem resume_ctxs {msg : Connect} : (s.resume k c msg).ctxs c' =
    if c' = c then { (s.ctxs c).init msg with mqttConnection := some k } else s.ctxs c' :=
  modifyContext_ctxs (s := s) (c := c) fun x => { x.init msg with mqttConnection := some k }

@[simp] theorem register_ctxs {msg : Connect} : (s.register c msg).ctxs c' =
    if c' = c then (s.ctxs c).init msg else s.ctxs c' :=
  modifyContext_ctxs (s := s) (c := c) (·.init msg)

@[simp] theorem newContext_contextOf {clean : Bool} : (s.newContext k clean).contextOf k' =
    if k' = k then some (.conn k) else s.contextOf k' := setContext_contextOf

@[simp] theorem newContext_ctxs {clean : Bool} : (s.newContext k clean).ctxs c' =
    if c' = .conn k then ClientContext.create (some k) clean else s.ctxs c' := by
  show Function.update s.ctxs (.conn k) _ c' = _
  by_cases h : c' = .conn k
  · subst h
    rw [Function.update_self, if_pos rfl]
  · rw [Function.update_of_ne h, if_neg h]

@[simp] theorem subscribe_conns {t : ByteStr} : (s.subscribe t c).conns = s.conns := by
  unfold subscribe
  split <;> rfl

@[simp] theorem subscribe_contextOf {t : ByteStr} : (s.subscribe t c).contextOf k = s.contextOf k := by
  unfold contextOf
  rw [subscribe_conns]

@[simp] theorem subscribe_registry {t : ByteStr} : (s.subscribe t c).registry = s.registry := by
  unfold subscribe
  split <;> rfl

@[simp] theorem subscribe_nextConn {t : ByteStr} : (s.subscribe t c).nextConn = s.nextConn := by
  unfold subscribe
  split <;> rfl

@[simp] theorem subscribe_topicMgr {t : ByteStr} :
    (s.subscribe t c).topicMgr = s.topicMgr.addClientContext t c := by
  unfold subscribe
  split <;> rfl

/-- Subscribing changes nothing of a context but its pending queue. -/
theorem subscribe_ctxs (s : Sess) (t : ByteStr) (c c' : CtxId) : ∃ q, (s.subscribe t c).ctxs c' =
    { s.ctxs c' with sendMsgQueue := q } := by
  unfold subscribe
  split
  · rw [modifyContext_ctxs]
    by_cases h : c' = c
    · subst h
      rw [if_pos rfl]
      exact ⟨_, rfl⟩
    · rw [if_neg h]
      exact ⟨_, rfl⟩
  · exact ⟨_, rfl⟩

end Sess

/-! ## Retained messages -/

theorem retainMsg_insert (mgr : TopicMgr) (t t' : ByteStr) (node : TopicNode) :
    TopicMgr.retainMsg (AList.insert t node mgr) t' = if t' = t then node.retainMsg else mgr.retainMsg t' := by
  unfold TopicMgr.retainMsg
  by_cases h : t' = t
  · subst h
    rw [AList.lookup_insert, if_pos rfl]
  · rw [AList.lookup_insert_ne h, if_neg h]

theorem retainMsg_delClientContext (mgr : TopicMgr) (t t' : ByteStr) (c : CtxId) :
    (mgr.delClientContext t c).retainMsg t' = mgr.retainMsg t' := by
  unfold TopicMgr.delClientContext
  cases h : mgr.lookup t with
  | none => rfl
  | some node =>
      simp only [retainMsg_insert]
      split
      · rename_i ht
        subst ht
        simp only [TopicMgr.retainMsg, h]
      · rfl

theorem retainMsg_dropTopics (c : CtxId) (ts : List ByteStr) (t : ByteStr) :
    ∀ mgr : TopicMgr, (Sess.dropTopics mgr c ts).retainMsg t = mgr.retainMsg t := by
  unfold Sess.dropTopics
  induction ts with
  | nil => exact fun _ => rfl
  | cons t' ts ih =>
      intro mgr
      rw [List.foldl_cons, ih, retainMsg_delClientContext]

theorem retainMsg_close (s : Sess) (k : ConnId) (c : CtxId) (t : ByteStr) :
    (s.close k c).topicMgr.retainMsg t = s.topicMgr.retainMsg t := by
  show (s.forget c).topicMgr.retainMsg t = _
  unfold Sess.forget
  split
  · exact retainMsg_dropTopics _ _ _ _
  · rfl

theorem retainMsg_addClientContext (mgr : TopicMgr) (t t' : ByteStr) (c : CtxId) :
    (mgr.addClientContext t c).retainMsg t' = mgr.retainMsg t' := by
  unfold TopicMgr.addClientContext
  cases h : mgr.lookup t with
  | none =>
      simp only [retainMsg_insert]
      split
      · rename_i ht
        subst ht
        simp only [TopicMgr.retainMsg, h]
      · rfl
  | some node =>
      simp only [retainMsg_insert]
      split
      · rename_i ht
        subst ht
        simp only [TopicMgr.retainMsg, h]
      · rfl

theorem retainMsg_setRetainMsg (mgr : TopicMgr) (t t' : ByteStr) (m : Option MbufId) :
    (mgr.setRetainMsg t m).retainMsg t' = if t' = t ∧ t ∈ mgr then m else mgr.retainMsg t' := by
  unfold TopicMgr.setRetainMsg
  cases h : mgr.lookup t with
  | none =>
      have hn : t ∉ mgr := AList.lookup_eq_none.mp h
      simp [hn]
  | some node =>
      have hm : t ∈ mgr := AList.lookup_isSome.mp (by rw [h]; rfl)
      simp only [retainMsg_insert, hm, and_true]

theorem retainMsg_ensure (mgr : TopicMgr) (t t' : ByteStr) : (mgr.ensure t).retainMsg t' = mgr.retainMsg t' := by
  unfold TopicMgr.ensure
  cases h : mgr.lookup t with
  | none =>
      simp only [retainMsg_insert]
      split
      · rename_i ht
        subst ht
        simp only [TopicMgr.retainMsg, h]
      · rfl
  | some node => rfl

end MqttServer
