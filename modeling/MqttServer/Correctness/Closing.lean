import MqttServer.Correctness.Crash
import MqttServer.Correctness.Output

/-!
# `Correctness.Closing` — what `handle_close` leaves behind

`handle_close` reads the context of the connection before it tests it for null, and a connection has a context only
from its first packet on. For a clean session it walks the topic list of the context and deletes the registry entry of
its client id; that is complete when the list covers the subscriber sets and no other id stands for the context. A
second CONNECT on a connection gives its context another id and leaves the entry of the first.
-/

namespace MqttServer

open Lib Exec

variable {env : Env} {mp : MsgPack} {b b' : Broker} {k : ConnId} {c : CtxId} {cause : Cause}

/-- What a close is to leave of a context: no connection; of a clean session nothing in the topic table and the
    registry; of another one everything. -/
structure Detached (c : CtxId) (b b' : Broker) : Prop where
  offline : (b'.sess.ctxs c).mqttConnection = none
  clean : (b.sess.ctxs c).cleanSession = true →
    (∀ t, c ∉ b'.sess.topicMgr.clients t) ∧ ∀ id, b'.sess.registry.findClientContext id ≠ some c
  kept : (b.sess.ctxs c).cleanSession = false →
    b'.sess.registry = b.sess.registry ∧ b'.sess.topicMgr = b.sess.topicMgr ∧
      (b'.sess.ctxs c).sendMsgQueue = (b.sess.ctxs c).sendMsgQueue

/-- `handle_close` completes, and is complete. -/
def ClosesWell (k : ConnId) (cause : Cause) (b : Broker) : Prop :=
  ∃ b', handleClose k cause b = .ok ((), b') ∧ ∀ c, b.sess.contextOf k = some c → Detached c b b'

/-- The topic list and the client id of a context tell where it is. -/
def Covered (s : Sess) (c : CtxId) : Prop :=
  (∀ t, c ∈ s.topicMgr.clients t → t ∈ (s.ctxs c).topicNames) ∧
    ∀ id, s.registry.findClientContext id = some c → id = (s.ctxs c).clientId

theorem find_delClientContext {r : Registry} {id id' : ByteStr} :
    (r.delClientContext id).findClientContext id' = some c ↔ r.findClientContext id' = some c ∧ id' ≠ id := by
  unfold Registry.delClientContext Registry.findClientContext
  by_cases hid : id' = id
  · subst hid
    rw [AList.lookup_erase]
    exact ⟨(fun h => by cases h), fun h => absurd rfl h.2⟩
  · rw [AList.lookup_erase_ne hid]
    exact ⟨fun h => ⟨h, hid⟩, fun h => h.1⟩

/-- What is left of the context in the tables. -/
theorem detached_iff (hs : b'.sess = b.sess.close k c) :
    Detached c b b' ↔ ((b.sess.ctxs c).cleanSession = true → Covered b.sess c) := by
  have hsets : ∀ t, c ∈ b'.sess.topicMgr.clients t ↔ c ∈ b.sess.topicMgr.clients t ∧
      ¬ ((b.sess.ctxs c).cleanSession = true ∧ t ∈ (b.sess.ctxs c).topicNames ∧ c = c) := by
    intro t
    rw [hs]
    exact Sess.mem_clients_close
  constructor
  · intro h hclean
    obtain ⟨htopics, hids⟩ := h.clean hclean
    refine ⟨fun t ht => ?_, fun id hid => ?_⟩
    · by_contra hlist
      exact htopics t ((hsets t).mpr ⟨ht, fun hx => hlist hx.2.1⟩)
    · by_contra hother
      refine hids id ?_
      rw [hs, Sess.close_registry, if_pos hclean]
      exact find_delClientContext.mpr ⟨hid, hother⟩
  · intro h
    constructor
    case offline =>
      rw [hs, Sess.close_ctxs, if_pos rfl]
      rfl
    case clean =>
      intro hclean
      obtain ⟨htopics, hids⟩ := h hclean
      refine ⟨fun t ht => ?_, fun id hid => ?_⟩
      · obtain ⟨ht, hlist⟩ := (hsets t).mp ht
        exact hlist ⟨hclean, htopics t ht, rfl⟩
      · rw [hs, Sess.close_registry, if_pos hclean] at hid
        obtain ⟨hid, hother⟩ := find_delClientContext.mp hid
        exact hother (hids id hid)
    case kept =>
      intro hclean
      have hforget : b.sess.forget c = b.sess := if_neg (by rw [hclean]; exact Bool.false_ne_true)
      refine ⟨?_, ?_, ?_⟩
      · rw [hs, Sess.close_registry, if_neg (by rw [hclean]; exact Bool.false_ne_true)]
      · rw [hs]
        show (b.sess.forget c).topicMgr = b.sess.topicMgr
        rw [hforget]
      · rw [hs, Sess.close_ctxs, if_pos rfl]
        rfl

/-- **Closing is total and complete exactly when** the connection has a context and, for a clean session, the topic
    list of the context covers the subscriber sets it is in, and its client id is the only one that stands for it. -/
theorem closesWell_iff (k : ConnId) (cause : Cause) (b : Broker) :
    ClosesWell k cause b ↔
      ∃ c, b.sess.contextOf k = some c ∧ ((b.sess.ctxs c).cleanSession = true → Covered b.sess c) := by
  cases hc : b.sess.contextOf k with
  | none =>
      constructor
      · rintro ⟨b', hclose, -⟩
        obtain ⟨c, hc', -⟩ := handleClose_ok hclose
        rw [hc] at hc'
        cases hc'
      · rintro ⟨c, hc', -⟩
        cases hc'
  | some c =>
      have hclose := handleClose_total cause hc
      have hs : (b.afterClose k c cause).sess = b.sess.close k c := rfl
      constructor
      · rintro ⟨b'', hclose', hdet⟩
        rw [hclose] at hclose'
        cases hclose'
        exact ⟨c, rfl, (detached_iff hs).mp (hdet c hc)⟩
      · rintro ⟨c', hc', hcov⟩
        cases hc'
        refine ⟨_, hclose, fun c' hc' => ?_⟩
        rw [hc] at hc'
        cases hc'
        exact (detached_iff hs).mpr hcov

/-- **A connection that is closed before its first packet** has no context to read. -/
theorem not_closesWell_silent : ∃ m : Machine, Reach Env.calm packing m ∧ m.broker.sess.Alive 0 ∧
    (handleClose 0 .event m.broker).toBool = false ∧ ¬ ClosesWell 0 .event m.broker := by
  have hrun : (Machine.initial.play Env.calm packing (Move.alone 1 .accept)).any
      (fun m => decide (m.broker.sess.Alive 0 ∧ (handleClose 0 .event m.broker).toBool = false)) = true := by
    decide +kernel
  obtain ⟨m, hm, halive, hfault⟩ := Machine.exists_reach hrun
  refine ⟨m, hm, halive, hfault, ?_⟩
  rintro ⟨b', hclose, -⟩
  rw [hclose] at hfault
  cases hfault

end MqttServer
