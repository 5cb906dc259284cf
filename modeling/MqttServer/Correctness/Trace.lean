import MqttServer.Lib.Run
import MqttServer.Server.Poller

/-!
# `Correctness.Trace` — the session machine

What the broker can do to its tables, as a machine whose steps are labelled by the trace. An `Atom` changes
the tables at one go; CONNECT is one atom even when it closes another connection on the way. SUBSCRIBE and
PUBLISH touch the tables in several places with output between them: seen one by one these are the further
cases of `Micro`, and a SUBSCRIBE or PUBLISH that runs to its end is one `Step`.

The facts about sessions are proved on this machine; `Correctness.Refine` shows that the handlers of the
broker are runs of it.
-/

namespace MqttServer

open Lib

/-- Changes of the tables made at one go. -/
inductive Atom : Sess → List Act → Sess → Prop where
  | accept {s : Sess} : Atom s [.accept s.nextConn] s.accept
  | context {s : Sess} {k : ConnId} {clean : Bool} (ha : s.Alive k) (hc : s.contextOf k = none) :
      Atom s [.context k] (s.newContext k clean)
  | resume {s : Sess} {k : ConnId} {c : CtxId} {msg : Connect} {code : ConnAckCode}
      (hid : msg.clientId ≠ []) (ha : s.Alive k)
      (hf : s.registry.findClientContext msg.clientId = some c)
      (hn : (s.ctxs c).mqttConnection = none) :
      Atom s [.connect k msg code c] (s.resume k c msg)
  | takeover {s : Sess} {k last : ConnId} {c c' : CtxId} {msg : Connect} {code : ConnAckCode} {busy : Bool}
      (hid : msg.clientId ≠ []) (hf : s.registry.findClientContext msg.clientId = some c)
      (hl : (s.ctxs c).mqttConnection = some last) (hc : s.contextOf last = some c')
      (ha : (s.close last c').Alive k) :
      Atom s [.close last c' .takeover (s.ctxs c').cleanSession busy, .connect k msg code c]
        ((s.close last c').resume k c msg)
  | register {s : Sess} {k : ConnId} {c : CtxId} {msg : Connect} {code : ConnAckCode}
      (hid : msg.clientId ≠ []) (hc : s.contextOf k = some c) (hf : s.registry.findClientContext msg.clientId = none) :
      Atom s [.connect k msg code c] (s.register c msg)
  | unsubscribe {s : Sess} {k : ConnId} {c : CtxId} {t : ByteStr} (hc : s.contextOf k = some c) :
      Atom s [.unsubscribe k c t (decide (t ∈ (s.ctxs c).topicNames))] (s.unsubscribe t c)
  | topics {s : Sess} {mgr : TopicMgr} (h : ∀ t, mgr.clients t = s.topicMgr.clients t) :
      Atom s [] { s with topicMgr := mgr }
  | puback {s : Sess} {k : ConnId} {c : CtxId} {id : Nat} (idOf : MbufId → Nat)
      (hc : s.contextOf k = some c) :
      Atom s [.puback k c id ((s.ctxs c).sendMsgQueue.head?.map idOf)]
        (s.modifyContext c (·.ackMsg idOf id))
  | disconnect {s : Sess} {k : ConnId} {c : CtxId} (hc : s.contextOf k = some c) :
      Atom s [.disconnect k c] (s.modifyContext c (·.disconnect))
  | put {s : Sess} {k : ConnId} {m : MbufId} {r : Int} (ha : s.Alive k) : Atom s [.put k m r] s
  | close {s : Sess} {k : ConnId} {c : CtxId} {cause : Cause} {busy : Bool} (hc : s.contextOf k = some c) :
      Atom s [.close k c cause (s.ctxs c).cleanSession busy] (s.close k c)

/-- The single changes, those inside of a SUBSCRIBE or PUBLISH included. -/
inductive Micro : Sess → List Act → Sess → Prop where
  | atom {s s' : Sess} {ls : List Act} (h : Atom s ls s') : Micro s ls s'
  | list {s : Sess} {k : ConnId} {c : CtxId} {topics : List Topic} (hc : s.contextOf k = some c)
      (hs : (s.ctxs c).clientStatus = .connected) :
      Micro s [.subscribe k c topics] (s.modifyContext c (·.addSubcribeTopics topics))
  | set {s : Sess} {k : ConnId} {c : CtxId} {t : ByteStr} (hc : s.contextOf k = some c)
      (hs : (s.ctxs c).clientStatus = .connected) : Micro s [] (s.subscribe t c)
  | retained {s : Sess} {k : ConnId} {c : CtxId} {t : ByteStr} {m : MbufId} {id : Nat}
      (hc : s.contextOf k = some c) (hs : (s.ctxs c).clientStatus = .connected) :
      Micro s [.retained c t m id] (s.subscribe t c)
  | publish {s : Sess} {t : ByteStr} {m : MbufId} {id : Nat} : Micro s [.publish t m id] s
  | publishAll {s : Sess} {m : MbufId} {id : Nat} : Micro s [.publishAll m id] s
  | deliver {s : Sess} {c : CtxId} {t : ByteStr} {m : MbufId} (hc : c ∈ s.topicMgr.clients t) :
      Micro s [] (s.modifyContext c (·.addSendMsg m))

/-! ## Whole operations -/

/-- What sending a message on the connection of a context does to the tables: nothing, unless the write fails
    hard and the connection closes. -/
inductive Send (c : CtxId) (m : MbufId) : Sess → List Act → Sess → Prop where
  | offline {s : Sess} (h : (s.ctxs c).mqttConnection = none) : Send c m s [] s
  | sent {s : Sess} {k : ConnId} {r : Int} (h : (s.ctxs c).mqttConnection = some k) (ha : s.Alive k) :
      Send c m s [.put k m r] s
  | lost {s : Sess} {k : ConnId} {c' : CtxId} {r : Int} {busy : Bool}
      (h : (s.ctxs c).mqttConnection = some k) (hc : s.contextOf k = some c') :
      Send c m s [.put k m r, .close k c' .lost (s.ctxs c').cleanSession busy] (s.close k c')

/-- The loop of `publish` over the subscriber set of `t`. -/
inductive FanOut (t : ByteStr) (m : MbufId) : List CtxId → Sess → List Act → Sess → Prop where
  | nil {s : Sess} : FanOut t m [] s [] s
  | skip {s s' : Sess} {c : CtxId} {cs : List CtxId} {ls : List Act} (hc : c ∉ s.topicMgr.clients t)
      (h : FanOut t m cs s ls s') : FanOut t m (c :: cs) s ls s'
  | visit {s s₁ s' : Sess} {c : CtxId} {cs : List CtxId} {ls ls' : List Act}
      (hc : c ∈ s.topicMgr.clients t) (hs : Send c m (s.modifyContext c (·.addSendMsg m)) ls s₁)
      (hc' : c ∈ s₁.topicMgr.clients t) (h : FanOut t m cs s₁ ls' s') :
      FanOut t m (c :: cs) s (ls ++ ls') s'

/-- The loop of `publish_all` over the topics. -/
inductive FanOuts (m : MbufId) : List ByteStr → Sess → List Act → Sess → Prop where
  | nil {s : Sess} : FanOuts m [] s [] s
  | cons {s s₁ s' : Sess} {t : ByteStr} {ts : List ByteStr} {cs : List CtxId} {ls ls' : List Act}
      (hp : cs.Perm (s.topicMgr.clients t).toList) (h : FanOut t m cs s ls s₁)
      (hs : FanOuts m ts s₁ ls' s') : FanOuts m (t :: ts) s (ls ++ ls') s'

/-- The topic loop of SUBSCRIBE. -/
inductive SubLoop (c : CtxId) : List ByteStr → Sess → List Act → Sess → Prop where
  | nil {s : Sess} : SubLoop c [] s [] s
  | quiet {s s' : Sess} {t : ByteStr} {ts : List ByteStr} {ls : List Act}
      (hq : s.topicMgr.retainMsg t = none ∨ (s.ctxs c).mqttConnection = none)
      (h : SubLoop c ts (s.subscribe t c) ls s') : SubLoop c (t :: ts) s ls s'
  | retained {s s₁ s' : Sess} {t : ByteStr} {ts : List ByteStr} {m : MbufId} {id : Nat}
      {ls ls' : List Act} (hm : s.topicMgr.retainMsg t = some m)
      (hn : (s.ctxs c).mqttConnection ≠ none) (hs : Send c m (s.subscribe t c) ls s₁)
      (h : SubLoop c ts s₁ ls' s') : SubLoop c (t :: ts) s (.retained c t m id :: (ls ++ ls')) s'

/-- What one operation of the broker does from its start to its end. -/
inductive Step : Sess → List Act → Sess → Prop where
  | atom {s s' : Sess} {ls : List Act} (h : Atom s ls s') : Step s ls s'
  | subscribe {s s' : Sess} {k : ConnId} {c : CtxId} {topics : List Topic} {puts ls : List Act}
      (hc : s.contextOf k = some c) (hs : (s.ctxs c).clientStatus = .connected)
      (hp : ∀ a ∈ puts, ∃ m r, a = .put k m r)
      (hl : SubLoop c (topics.map Topic.topicName) (s.modifyContext c (·.addSubcribeTopics topics)) ls s')
      (ha : s'.Alive k) : Step s (.subscribe k c topics :: (puts ++ ls)) s'
  | publish {s s' : Sess} {mgr : TopicMgr} {t : ByteStr} {m : MbufId} {id : Nat} {cs : List CtxId}
      {ls : List Act} (h : ∀ t, mgr.clients t = s.topicMgr.clients t)
      (hp : cs.Perm (s.topicMgr.clients t).toList)
      (hf : FanOut t m cs { s with topicMgr := mgr } ls s') : Step s (.publish t m id :: ls) s'
  | publishAll {s s' : Sess} {m : MbufId} {id : Nat} {ts : List ByteStr} {ls : List Act}
      (hf : FanOuts m ts s ls s') : Step s (.publishAll m id :: ls) s'

/-- Runs of the session machine, seen change by change and operation by operation. -/
abbrev Micros := Trace Micro
abbrev Steps := Trace Step

/-! ## The relation the handlers respect -/

/-- A context that is held, or is one of `H`, points at the connection. -/
def Linked (H : CtxId → Prop) (s : Sess) (k : ConnId) : Prop :=
  ∃ c, (s.Held c ∨ H c) ∧ (s.ctxs c).mqttConnection = some k

/-- A label from inside of a handler: a close is not one of the event loop, and it tells whether the
    connection was busy; `publish_all` is for bridge mode. -/
def Act.Inner (env : Env) (busy : List ConnId) : Act → Prop
  | .close k _ cause _ flag => cause ≠ .event ∧ flag = decide (k ∈ busy)
  | .publishAll _ _ => env.mqttBridge = true
  | _ => True

/-- Only labels from inside of handlers. -/
def Inners (env : Env) (busy : List ConnId) (ls : List Act) : Prop := ∀ a ∈ ls, a.Inner env busy

theorem Inners.nil {env : Env} {busy : List ConnId} : Inners env busy [] := fun _ h => by cases h

theorem Inners.single {env : Env} {busy : List ConnId} {a : Act} (h : a.Inner env busy) : Inners env busy [a] := by
  intro a' ha'
  cases List.mem_singleton.mp ha'
  exact h

theorem Inners.append {env : Env} {busy : List ConnId} {ls ls' : List Act} (h : Inners env busy ls) (h' : Inners env busy ls') :
    Inners env busy (ls ++ ls') := by
  intro a ha
  rcases List.mem_append.mp ha with ha | ha
  · exact h a ha
  · exact h' a ha

/-- What the broker's tables and trace went through between two states: a run of the session machine.
    Connections are only closed. -/
structure Changes (env : Env) (b b' : Broker) : Prop where
  trace : ∃ ls, b'.log = b.log ++ ls ∧ Micros b.sess ls b'.sess ∧ Inners env b.busy ls
  dying : ∀ k, b'.sess.Alive k → b.sess.Alive k
  busy : b'.busy = b.busy

/-- A run of the session machine that is one of whole operations if the connection `o` of the current event
    survives it. -/
structure Evolves (env : Env) (o : Option ConnId) (b b' : Broker) : Prop where
  trace : ∃ ls, b'.log = b.log ++ ls ∧ Micros b.sess ls b'.sess ∧ Inners env b.busy ls ∧
    ((∀ k ∈ o, b'.sess.Alive k) → Steps b.sess ls b'.sess)
  dying : ∀ k, b'.sess.Alive k → b.sess.Alive k
  busy : b'.busy = b.busy

/-- What holds where a run stops in a fault: a connection that was used after it was destroyed is the one of
    the event, or some context still points at it. -/
structure Faults (env : Env) (o : Option ConnId) (H : CtxId → Prop) (b : Broker) (e : Fault × Broker) : Prop where
  trace : ∃ ls, e.2.log = b.log ++ ls ∧ Micros b.sess ls e.2.sess ∧ Inners env b.busy ls
  dying : ∀ k, e.2.sess.Alive k → b.sess.Alive k
  busy : e.2.busy = b.busy
  cause : ∀ k, e.1 = .useAfterFree k → ¬ e.2.sess.Alive k ∧ (k ∈ o ∨ Linked H e.2.sess k)

namespace Changes

variable {env : Env} {b b₁ b' : Broker}

theorem refl (b : Broker) : Changes env b b := ⟨⟨[], by simp, .nil, .nil⟩, fun _ h => h, rfl⟩

theorem trans (h : Changes env b b₁) (h' : Changes env b₁ b') : Changes env b b' := by
  obtain ⟨ls, hlog, hm, hi⟩ := h.trace
  obtain ⟨ls', hlog', hm', hi'⟩ := h'.trace
  rw [h.busy] at hi'
  refine ⟨⟨ls ++ ls', ?_, hm.append hm', hi.append hi'⟩, fun k hk => h.dying k (h'.dying k hk), ?_⟩
  · rw [hlog', hlog, List.append_assoc]
  · rw [h'.busy, h.busy]

theorem of_micro {ls : List Act} (h : Micro b.sess ls b'.sess) (hlog : b'.log = b.log ++ ls)
    (hi : Inners env b.busy ls) (hd : ∀ k, b'.sess.Alive k → b.sess.Alive k) (hb : b'.busy = b.busy) :
    Changes env b b' :=
  ⟨⟨ls, hlog, .single h, hi⟩, hd, hb⟩

end Changes

namespace Evolves

variable {env : Env} {o : Option ConnId} {b b₁ b' : Broker}

theorem refl (b : Broker) : Evolves env o b b :=
  ⟨⟨[], by simp, .nil, .nil, fun _ => .nil⟩, fun _ h => h, rfl⟩

theorem trans (h : Evolves env o b b₁) (h' : Evolves env o b₁ b') : Evolves env o b b' := by
  obtain ⟨ls, hlog, hm, hi, hs⟩ := h.trace
  obtain ⟨ls', hlog', hm', hi', hs'⟩ := h'.trace
  rw [h.busy] at hi'
  refine ⟨⟨ls ++ ls', ?_, hm.append hm', hi.append hi', fun ho => ?_⟩,
    fun k hk => h.dying k (h'.dying k hk), ?_⟩
  · rw [hlog', hlog, List.append_assoc]
  · exact (hs fun k hk => h'.dying k (ho k hk)).append (hs' ho)
  · rw [h'.busy, h.busy]

/-- An atom is a change and an operation. -/
theorem of_atom {ls : List Act} (h : Atom b.sess ls b'.sess) (hlog : b'.log = b.log ++ ls)
    (hi : Inners env b.busy ls) (hd : ∀ k, b'.sess.Alive k → b.sess.Alive k) (hb : b'.busy = b.busy) :
    Evolves env o b b' :=
  ⟨⟨ls, hlog, .single (.atom h), hi, fun _ => .single (.atom h)⟩, hd, hb⟩

/-- A change of anything but tables and trace. -/
theorem of_same (hs : b'.sess = b.sess) (hl : b'.log = b.log) (hb : b'.busy = b.busy) :
    Evolves env o b b' := by
  refine ⟨⟨[], by simp [hl], ?_, .nil, fun _ => ?_⟩, fun k hk => hs ▸ hk, hb⟩
  · rw [hs]
    exact .nil
  · rw [hs]
    exact .nil

end Evolves

theorem Changes.of_same {env : Env} {b b' : Broker} (hs : b'.sess = b.sess) (hl : b'.log = b.log)
    (hb : b'.busy = b.busy) : Changes env b b' := by
  refine ⟨⟨[], by simp [hl], ?_, .nil⟩, fun k hk => hs ▸ hk, hb⟩
  rw [hs]
  exact .nil

theorem Evolves.changes {env : Env} {o : Option ConnId} {b b' : Broker} (h : Evolves env o b b') : Changes env b b' := by
  obtain ⟨ls, hlog, hm, hi, -⟩ := h.trace
  exact ⟨⟨ls, hlog, hm, hi⟩, h.dying, h.busy⟩

/-- A run that finishes whole operations, if it survives, is an evolution. -/
theorem Changes.evolves {env : Env} {o : Option ConnId} {b b' : Broker} (h : Changes env b b')
    (hs : (∀ k ∈ o, b'.sess.Alive k) → ∃ ls, b'.log = b.log ++ ls ∧ Steps b.sess ls b'.sess) :
    Evolves env o b b' := by
  obtain ⟨ls, hlog, hm, hi⟩ := h.trace
  refine ⟨⟨ls, hlog, hm, hi, fun ho => ?_⟩, h.dying, h.busy⟩
  obtain ⟨ls', hlog', hsteps⟩ := hs ho
  rw [hlog, List.append_cancel_left_eq] at hlog'
  rw [hlog']
  exact hsteps

theorem Faults.extend {env : Env} {o : Option ConnId} {H : CtxId → Prop} {b b₁ : Broker} {e : Fault × Broker}
    (h : Changes env b b₁) (h' : Faults env o H b₁ e) : Faults env o H b e := by
  obtain ⟨ls, hlog, hm, hi⟩ := h.trace
  obtain ⟨ls', hlog', hm', hi'⟩ := h'.trace
  rw [h.busy] at hi'
  refine ⟨⟨ls ++ ls', ?_, hm.append hm', hi.append hi'⟩, fun k hk => h.dying k (h'.dying k hk), ?_,
    h'.cause⟩
  · rw [hlog', hlog, List.append_assoc]
  · rw [h'.busy, h.busy]

/-- The frame of the single changes of an event. -/
def changing (env : Env) (o : Option ConnId) (H : CtxId → Prop) : Exec.Frame Broker Fault where
  rel := Changes env
  flt := Faults env o H
  refl := Changes.refl
  trans := Changes.trans
  extend := Faults.extend

/-- The frame of the handlers of an event. -/
def evolution (env : Env) (o : Option ConnId) (H : CtxId → Prop) : Exec.Frame Broker Fault where
  rel := Evolves env o
  flt := Faults env o H
  refl := Evolves.refl
  trans := Evolves.trans
  extend := fun h => Faults.extend h.changes

/-- Handlers make single changes. -/
theorem resp_changing {env : Env} {o : Option ConnId} {H : CtxId → Prop} {α : Type} {x : BrokerM α} {b : Broker}
    (h : (evolution env o H).Resp x b) : (changing env o H).Resp x b :=
  Exec.Frame.Resp.mono (F := evolution env o H) (G := changing env o H) (fun _ h => h.changes) (fun _ h => h) h

/-- Single changes that make up whole operations are those of a handler. -/
theorem resp_evolution {env : Env} {o : Option ConnId} {H : CtxId → Prop} {α : Type} {x : BrokerM α} {b : Broker}
    (h : (changing env o H).Resp x b)
    (hs : ∀ a b', x b = .ok (a, b') → (∀ k ∈ o, b'.sess.Alive k) →
      ∃ ls, b'.log = b.log ++ ls ∧ Steps b.sess ls b'.sess) : (evolution env o H).Resp x b := by
  unfold Exec.Frame.Resp at h ⊢
  cases hx : x b with
  | ok p =>
      rw [hx] at h
      exact Changes.evolves h (hs p.1 p.2 hx)
  | error e =>
      rw [hx] at h
      exact h

end MqttServer
