import MqttServer.Correctness.Resting
import MqttServer.Correctness.Subscribing

/-!
# `Correctness.Numbering` — identifiers in the broker

A PUBLISH is published under a new identifier, a retained copy under the old one, and the message of another thread under the
one it came with. The invariant (`Numbered`) says that no pending queue has an identifier twice and that every message which
may still be queued has one of its own. A fan-out keeps it when the message it queues has an identifier nobody has, and a
SUBSCRIBE when the retained messages it queues have (`Deliverable`).
-/

namespace MqttServer

open Lib Exec

variable {env : Env} {mp : MsgPack} {b b' b₁ : Broker} {k : ConnId} {c : CtxId} {m : MbufId} {t : ByteStr}

/-! ## Identifiers in the broker -/

/-- The identifiers of some messages. -/
def Broker.ids (b : Broker) (ms : List MbufId) : List Nat := ms.map fun m => (b.bufs m).packetId

theorem SameMessages.ids (h : SameMessages b b') {ms : List MbufId} (hms : ∀ m ∈ ms, m < b.nextBuf) : b'.ids ms = b.ids ms :=
  List.map_congr_left fun m hm => h.packetId (hms m hm)

/-- **The invariant**: what the tables hold carries its identifier, what was put could be put, a pending queue has no
    identifier twice, and the messages that wait in the notify queue differ from each other and from all pending ones. -/
structure Numbered (b : Broker) : Prop where
  held : ∀ m, Holds b.sess m → m < b.nextBuf ∧ (b.bufs m).Carries
  puts : ∀ k m r, .put k m r ∈ b.log → Sendable b m
  differ : ∀ c, (b.ids (b.sess.ctxs c).sendMsgQueue).Nodup
  waits : ∀ w ∈ b.notifyDeque, w < b.nextBuf
  apart : ∀ w ∈ b.notifyDeque, ∀ m, Pending b m → (b.bufs m).packetId ≠ (b.bufs w).packetId
  queued : (b.ids b.notifyDeque).Nodup

namespace Numbered

theorem sendable (h : Numbered b) (hm : Holds b.sess m) : Sendable b m := ⟨(h.held m hm).1, fun _ => (h.held m hm).2⟩

theorem pending (h : Numbered b) (hm : Pending b m) : m < b.nextBuf := (h.held m (Or.inl hm)).1

/-- **Steps that queue nothing.** -/
theorem rest (h : Numbered b) (hr : Resting b b') : Numbered b' := by
  have hheld : ∀ m, Holds b'.sess m → Holds b.sess m :=
    Holds.mono (fun c => (hr.queue c).subset) hr.retain
  refine ⟨fun m hm => ?_, fun k m r hm => ?_, fun c => ?_, fun w hw => ?_, fun w hw m hm => ?_, ?_⟩
  · obtain ⟨hlt, hc⟩ := h.held m (hheld m hm)
    exact ⟨hlt.trans_le hr.grown, hr.carries hlt hc⟩
  · exact (hr.puts k m r hm).elim (fun hm => (h.puts k m r hm).mono hr.toSameMessages) id
  · have hsame : b'.ids (b.sess.ctxs c).sendMsgQueue = b.ids (b.sess.ctxs c).sendMsgQueue :=
      hr.ids fun m hm => h.pending ⟨c, hm⟩
    have hnodup : (b'.ids (b.sess.ctxs c).sendMsgQueue).Nodup := by
      rw [hsame]
      exact h.differ c
    exact ((hr.queue c).map fun m => (b'.bufs m).packetId).nodup hnodup
  · rw [hr.waiting] at hw
    exact (h.waits w hw).trans_le hr.grown
  · rw [hr.waiting] at hw
    have hm' := hr.pending hm
    rw [hr.packetId (h.pending hm'), hr.packetId (h.waits w hw)]
    exact h.apart w hw m hm'
  · rw [hr.waiting, hr.ids h.waits]
    exact h.queued

end Numbered

/-- A message that may be queued: it carries its identifier, and no waiting message has the same one. -/
structure Outgoing (b : Broker) (m : MbufId) : Prop where
  allocated : m < b.nextBuf
  carries : (b.bufs m).Carries
  apart : ∀ w ∈ b.notifyDeque, (b.bufs m).packetId ≠ (b.bufs w).packetId

theorem Outgoing.sendable (h : Outgoing b m) : Sendable b m := ⟨h.allocated, fun _ => h.carries⟩

theorem Outgoing.mono (h : Outgoing b m) (hs : SameMessages b b') (hw : b'.notifyDeque = b.notifyDeque)
    (hwaits : ∀ w ∈ b.notifyDeque, w < b.nextBuf) : Outgoing b' m := by
  refine ⟨h.allocated.trans_le hs.grown, hs.carries h.allocated h.carries, fun w hin => ?_⟩
  rw [hw] at hin
  rw [hs.packetId h.allocated, hs.packetId (hwaits w hin)]
  exact h.apart w hin

/-- No message of the queue has the identifier of `m`. -/
def Unqueued (b : Broker) (m : MbufId) (c : CtxId) : Prop :=
  ∀ x ∈ (b.sess.ctxs c).sendMsgQueue, (b.bufs x).packetId ≠ (b.bufs m).packetId

theorem Unqueued.mono (h : Unqueued b m c) (hb : Numbered b) (hm : m < b.nextBuf) (hs : SameMessages b b')
    (hq : List.Sublist (b'.sess.ctxs c).sendMsgQueue (b.sess.ctxs c).sendMsgQueue) : Unqueued b' m c := by
  intro x hx
  have hx' := hq.subset hx
  rw [hs.packetId (hb.pending ⟨c, hx'⟩), hs.packetId hm]
  exact h x hx'

/-- The message at the end of a queue. -/
theorem Numbered.pend (h : Numbered b) (hm : Outgoing b m) (hnew : Unqueued b m c) :
    Numbered { b with sess := b.sess.modifyContext c (·.addSendMsg m) } := by
  have hqueue : ∀ c', ((b.sess.modifyContext c (·.addSendMsg m)).ctxs c').sendMsgQueue =
      if c' = c then (b.sess.ctxs c).sendMsgQueue ++ [m] else (b.sess.ctxs c').sendMsgQueue := by
    intro c'
    rw [Sess.modifyContext_ctxs]
    split <;> rfl
  have hpending : ∀ x, Pending { b with sess := b.sess.modifyContext c (·.addSendMsg m) } x → Pending b x ∨ x = m := by
    rintro x ⟨c', hx⟩
    have hx' : x ∈ ((b.sess.modifyContext c (·.addSendMsg m)).ctxs c').sendMsgQueue := hx
    rw [hqueue] at hx'
    split at hx'
    · rcases List.mem_append.mp hx' with hx' | hx'
      · exact Or.inl ⟨c, hx'⟩
      · exact Or.inr (List.mem_singleton.mp hx')
    · exact Or.inl ⟨c', hx'⟩
  refine ⟨fun x hx => ?_, h.puts, fun c' => ?_, h.waits, fun w hw x hx => ?_, h.queued⟩
  · rcases hx with hx | hx
    · rcases hpending x hx with hx | rfl
      · exact h.held x (Or.inl hx)
      · exact ⟨hm.allocated, hm.carries⟩
    · exact h.held x (Or.inr hx)
  · show (((b.sess.modifyContext c (·.addSendMsg m)).ctxs c').sendMsgQueue.map fun m => (b.bufs m).packetId).Nodup
    rw [hqueue]
    split
    · rw [List.map_append, List.nodup_append]
      refine ⟨h.differ c, List.nodup_singleton _, fun x hx y hy => ?_⟩
      obtain ⟨x', hx', rfl⟩ := List.mem_map.mp hx
      rw [List.mem_singleton.mp hy]
      exact hnew x' hx'
    · exact h.differ c'
  · rcases hpending x hx with hx | rfl
    · exact h.apart w hw x hx
    · exact hm.apart w hw

/-! ## The fan-out -/

/-- What a fan-out leaves alone: messages, notify queue, and it adds no subscriber. -/
structure Spread (b b' : Broker) : Prop extends SameMessages b b' where
  waiting : b'.notifyDeque = b.notifyDeque
  clients : ∀ t c, c ∈ b'.sess.topicMgr.clients t → c ∈ b.sess.topicMgr.clients t

theorem Spread.refl (b : Broker) : Spread b b := ⟨.refl b, rfl, fun _ _ h => h⟩

theorem Spread.trans (h : Spread b b₁) (h' : Spread b₁ b') : Spread b b' :=
  ⟨h.toSameMessages.trans h'.toSameMessages, h'.waiting.trans h.waiting, fun t c hc => h.clients t c (h'.clients t c hc)⟩

/-- A fan-out to some contexts adds to no other queue. -/
structure Walk (cs : List CtxId) (b b' : Broker) : Prop extends Spread b b' where
  queue : ∀ c, c ∉ cs → List.Sublist (b'.sess.ctxs c).sendMsgQueue (b.sess.ctxs c).sendMsgQueue

theorem Walk.refl (cs : List CtxId) (b : Broker) : Walk cs b b := ⟨.refl b, fun _ _ => List.Sublist.refl _⟩

theorem Walk.append {cs cs' : List CtxId} (h : Walk cs b b₁) (h' : Walk cs' b₁ b') : Walk (cs ++ cs') b b' := by
  refine ⟨h.toSpread.trans h'.toSpread, fun c hc => ?_⟩
  rw [List.mem_append, not_or] at hc
  exact (h'.queue c hc.2).trans (h.queue c hc.1)

theorem put_clients {r : Int} (h : put env k m b = .ok (r, b')) :
    ∀ t c, c ∈ b'.sess.topicMgr.clients t → c ∈ b.sess.topicMgr.clients t := by
  intro t c hc
  obtain ⟨-, -, ⟨hs, -⟩ | ⟨c', -, hs, -⟩⟩ := put_ok h
  · rwa [hs] at hc
  · rw [hs] at hc
    exact (Sess.mem_clients_close.mp hc).1

/-- **One subscriber.** -/
theorem publishClient_numbered {u : Unit} (hb : Numbered b) (hm : Outgoing b m) (hnew : Unqueued b m c)
    (h : publishClient env c m b = .ok (u, b')) : Numbered b' ∧ Walk [c] b b' := by
  have hpend := hb.pend hm hnew
  have hout : Sendable { b with sess := b.sess.modifyContext c (·.addSendMsg m) } m := hm.sendable
  -- the rest of the round queues nothing
  have hrest : Resting { b with sess := b.sess.modifyContext c (·.addSendMsg m) } b' ∧
      ∀ t c, c ∈ b'.sess.topicMgr.clients t → c ∈ b.sess.topicMgr.clients t := by
    unfold publishClient at h
    rw [get_bind, set_bind] at h
    cases hc : (b.sess.ctxs c).mqttConnection with
    | none =>
        simp only [hc] at h
        cases h
        exact ⟨resting_of_same rfl rfl rfl rfl rfl rfl, fun _ _ h => h⟩
    | some k =>
        simp only [hc] at h
        rw [bind_ok] at h
        obtain ⟨r, b₁, hp, h⟩ := h
        have hput : Resting _ b₁ := Frame.resp_ok (put_resting hout) hp
        have hclients := put_clients hp
        cases h
        exact ⟨hput.trans (resting_of_same rfl rfl rfl rfl rfl rfl), hclients⟩
  obtain ⟨hrest, hclients⟩ := hrest
  refine ⟨hpend.rest hrest, ⟨⟨?_, hrest.waiting, hclients⟩, fun c' hc' => ?_⟩⟩
  · exact (SameMessages.of_same rfl fun _ => ⟨rfl, rfl⟩ : SameMessages b
      { b with sess := b.sess.modifyContext c (·.addSendMsg m) }).trans hrest.toSameMessages
  · have hq := hrest.queue c'
    have hne : c' ≠ c := fun he => hc' (List.mem_singleton.mpr he)
    rwa [Sess.modifyContext_ctxs, if_neg hne] at hq

/-- **The loop over the subscribers.** -/
theorem publishLoop_numbered {u : Unit} (cs : List CtxId) : ∀ b : Broker, Numbered b → Outgoing b m → cs.Nodup →
    (∀ c ∈ cs, Unqueued b m c) → publishLoop env t m cs b = .ok (u, b') → Numbered b' ∧ Walk cs b b' := by
  induction cs with
  | nil =>
      intro b hb _ _ _ h
      cases h
      exact ⟨hb, .refl _ _⟩
  | cons c cs ih =>
      intro b hb hm hnd hnew h
      obtain ⟨hc, hnd⟩ := List.nodup_cons.mp hnd
      unfold publishLoop at h
      rw [get_bind] at h
      split at h
      · rw [bind_ok] at h
        obtain ⟨_, b₁, hp, h⟩ := h
        obtain ⟨hb₁, hw₁⟩ := publishClient_numbered hb hm (hnew c List.mem_cons_self) hp
        rw [get_bind] at h
        split at h
        · have hm₁ := hm.mono hw₁.toSameMessages hw₁.waiting hb.waits
          have hnew₁ : ∀ c' ∈ cs, Unqueued b₁ m c' := by
            intro c' hc'
            have hne : c' ∉ [c] := fun hin => hc (List.mem_singleton.mp hin ▸ hc')
            exact (hnew c' (List.mem_cons_of_mem c hc')).mono hb hm.allocated hw₁.toSameMessages (hw₁.queue c' hne)
          obtain ⟨hb', hw'⟩ := ih b₁ hb₁ hm₁ hnd hnew₁ h
          exact ⟨hb', hw₁.append hw'⟩
        · cases h
      · obtain ⟨hb', hw'⟩ := ih b hb hm hnd (fun c' hc' => hnew c' (List.mem_cons_of_mem c hc')) h
        exact ⟨hb', ⟨hw'.toSpread, fun c' hc' => hw'.queue c' fun hin => hc' (List.mem_cons_of_mem c hin)⟩⟩

theorem publishSet_numbered {u : Unit} (hb : Numbered b) (hm : Outgoing b m)
    (hnew : ∀ c ∈ b.sess.topicMgr.clients t, Unqueued b m c) (h : publishSet env t m b = .ok (u, b')) :
    Numbered b' ∧ ∃ cs, (∀ c ∈ cs, c ∈ b.sess.topicMgr.clients t) ∧ Walk cs b b' := by
  unfold publishSet at h
  rw [get_bind] at h
  have hperm := env.order_perm (b.sess.topicMgr.clients t).toList
  obtain ⟨hb', hw⟩ := publishLoop_numbered _ b hb hm (hperm.nodup_iff.mpr (b.sess.topicMgr.clients t).nodup)
    (fun c hc => hnew c (hperm.mem_iff.mp hc)) h
  exact ⟨hb', _, fun c hc => hperm.mem_iff.mp hc, hw⟩

/-- **The loop over the topics** of the bridge mode, when no client stands in two of them. -/
theorem publishTopics_numbered {u : Unit} (ts : List ByteStr) : ∀ b : Broker, Numbered b → Outgoing b m → ts.Nodup →
    (∀ t ∈ ts, ∀ c ∈ b.sess.topicMgr.clients t, Unqueued b m c) →
    (∀ t t' c, c ∈ b.sess.topicMgr.clients t → c ∈ b.sess.topicMgr.clients t' → t = t') →
    publishTopics env m ts b = .ok (u, b') → Numbered b' ∧ Spread b b' := by
  induction ts with
  | nil =>
      intro b hb _ _ _ _ h
      cases h
      exact ⟨hb, .refl _⟩
  | cons t ts ih =>
      intro b hb hm hnd hnew hone h
      obtain ⟨ht, hnd⟩ := List.nodup_cons.mp hnd
      unfold publishTopics at h
      rw [bind_ok] at h
      obtain ⟨_, b₁, hp, h⟩ := h
      obtain ⟨hb₁, cs, hcs, hw⟩ := publishSet_numbered hb hm (hnew t List.mem_cons_self) hp
      have hm₁ := hm.mono hw.toSameMessages hw.waiting hb.waits
      have hnew₁ : ∀ t' ∈ ts, ∀ c ∈ b₁.sess.topicMgr.clients t', Unqueued b₁ m c := by
        intro t' ht' c hc
        have hc' := hw.clients t' c hc
        have hne : c ∉ cs := fun hin => ht (hone t t' c (hcs c hin) hc' ▸ ht')
        exact (hnew t' (List.mem_cons_of_mem t ht') c hc').mono hb hm.allocated hw.toSameMessages (hw.queue c hne)
      obtain ⟨hb', hs⟩ := ih b₁ hb₁ hm₁ hnd hnew₁
        (fun t₁ t₂ c h₁ h₂ => hone t₁ t₂ c (hw.clients t₁ c h₁) (hw.clients t₂ c h₂)) h
      exact ⟨hb', hw.toSpread.trans hs⟩

/-- **The retained copy** of a message nobody has read of. -/
theorem updateRetain_numbered {u : Unit} {msg : Publish} (hb : Numbered b) (hm : Outgoing b m) (hread : (b.bufs m).1.readPos = 0)
    (h : updateRetain t m msg b = .ok (u, b')) : Numbered b' ∧ Spread b b' ∧ b'.sess.ctxs = b.sess.ctxs := by
  unfold updateRetain at h
  rw [get_bind] at h
  split at h
  · rw [bind_ok] at h
    obtain ⟨r, b₁, hn, h⟩ := h
    obtain ⟨rfl, rfl⟩ := newBuf_ok hn
    cases h
    have hsame : SameMessages b (b.withBuf (retainCopy b.now (b.bufs m))) := .of_new rfl rfl
    have hcopy : (b.withBuf (retainCopy b.now (b.bufs m))).bufs b.nextBuf = retainCopy b.now (b.bufs m) :=
      Function.update_self _ _ _
    have hb₁ : Numbered (b.withBuf (retainCopy b.now (b.bufs m))) := hb.rest resting_newBuf
    refine ⟨⟨fun x hx => ?_, hb₁.puts, hb₁.differ, hb₁.waits, hb₁.apart, hb₁.queued⟩,
      ⟨⟨hsame.grown, hsame.packet, hsame.msgId⟩, rfl, fun t' c hc => ?_⟩, rfl⟩
    rotate_left
    · rwa [TopicMgr.clients_setRetainMsg] at hc
    rcases hx with hx | ⟨t', ht'⟩
    · exact hb₁.held x (Or.inl hx)
    · rw [retainMsg_setRetainMsg] at ht'
      split at ht'
      · split at ht'
        · cases ht'
          refine ⟨Nat.lt_succ_self _, ?_⟩
          show ((b.withBuf (retainCopy b.now (b.bufs m))).bufs b.nextBuf).Carries
          rw [hcopy]
          exact hm.carries.retainCopy hread _
        · cases ht'
      · exact hb₁.held x (Or.inr ⟨t', ht'⟩)
  · cases h
    exact ⟨hb, .refl _, rfl⟩

/-- **Publishing to a topic.** -/
theorem publishTopic_numbered {u : Unit} {msg : Publish} (hb : Numbered b) (hm : Outgoing b m) (hread : (b.bufs m).1.readPos = 0)
    (hnew : ∀ c, Unqueued b m c) (h : publishTopic env t m msg b = .ok (u, b')) : Numbered b' ∧ Spread b b' := by
  unfold publishTopic at h
  rw [get_bind, set_bind, bind_ok] at h
  obtain ⟨_, b₁, hr, h⟩ := h
  have hact : Resting b (b.act { b.sess with topicMgr := b.sess.topicMgr.ensure t } (.publish t m (b.bufs m).msgId)) :=
    resting_act (fun _ _ _ h => by cases h) (fun _ => List.Sublist.refl _) fun t' => retainMsg_ensure b.sess.topicMgr t t'
  have hspread : Spread b (b.act { b.sess with topicMgr := b.sess.topicMgr.ensure t } (.publish t m (b.bufs m).msgId)) :=
    ⟨hact.toSameMessages, rfl, fun t' c hc => by rwa [Broker.act, TopicMgr.clients_ensure] at hc⟩
  have hout := hm.mono hact.toSameMessages hact.waiting hb.waits
  obtain ⟨hb₁, hs₁, hctxs⟩ := updateRetain_numbered (hb.rest hact) hout hread hr
  have hout₁ := hout.mono hs₁.toSameMessages hs₁.waiting (hb.rest hact).waits
  have hnew₁ : ∀ c, Unqueued b₁ m c := by
    intro c
    refine (hnew c).mono hb hm.allocated (hspread.trans hs₁).toSameMessages ?_
    rw [hctxs]
    exact List.Sublist.refl _
  split at h
  · cases h
    exact ⟨hb₁, hspread.trans hs₁⟩
  · rw [modify_bind, bind_ok] at h
    obtain ⟨_, b₂, hp, h⟩ := h
    cases h
    have hstart : Resting b₁ (b₁.startStat (b.bufs m).msgId) := resting_of_same rfl rfl rfl rfl rfl rfl
    obtain ⟨hb₂, cs, -, hw⟩ := publishSet_numbered (hb₁.rest hstart)
      (hout₁.mono hstart.toSameMessages hstart.waiting hb₁.waits) (fun c _ => hnew₁ c) hp
    have hend : Resting b₂ (b₂.endStat (b.bufs m).msgId) := resting_of_same rfl rfl rfl rfl rfl rfl
    refine ⟨hb₂.rest hend, (hspread.trans hs₁).trans ?_⟩
    exact (⟨hstart.toSameMessages, rfl, fun _ _ h => h⟩ : Spread _ _).trans
      (hw.toSpread.trans ⟨hend.toSameMessages, rfl, fun _ _ h => h⟩)

/-- **Publishing to all clients**, each of which stands in one topic at most. -/
theorem publishAll_numbered {u : Unit} (hb : Numbered b) (hm : Outgoing b m) (hnew : ∀ c, Unqueued b m c)
    (hone : ∀ t t' c, c ∈ b.sess.topicMgr.clients t → c ∈ b.sess.topicMgr.clients t' → t = t')
    (h : publishAll env m b = .ok (u, b')) : Numbered b' ∧ Spread b b' := by
  unfold publishAll at h
  rw [get_bind, set_bind, modify_bind, bind_ok] at h
  obtain ⟨_, b₂, hp, h⟩ := h
  cases h
  have hstart : Resting b (({ b with log := b.log ++ [Act.publishAll m (b.bufs m).msgId] } : Broker).startStat
      (b.bufs m).msgId) :=
    resting_of_tables [.publishAll m (b.bufs m).msgId] rfl rfl (fun _ => List.Sublist.refl _) (fun _ => rfl) rfl rfl rfl
      fun a ha => by
        rw [List.mem_singleton.mp ha]
        exact fun _ _ _ h => by cases h
  have hperm := env.order_perm b.sess.topicMgr.keys
  obtain ⟨hb₂, hs⟩ := publishTopics_numbered _ _ (hb.rest hstart) (hm.mono hstart.toSameMessages hstart.waiting hb.waits)
    (hperm.nodup_iff.mpr b.sess.topicMgr.nodupKeys) (fun _ _ c _ => hnew c) hone hp
  have hend : Resting b₂ (b₂.endStat (b.bufs m).msgId) := resting_of_same rfl rfl rfl rfl rfl rfl
  refine ⟨hb₂.rest hend, ?_⟩
  exact (⟨hstart.toSameMessages, rfl, fun _ _ h => h⟩ : Spread _ _).trans
    (hs.trans ⟨hend.toSameMessages, rfl, fun _ _ h => h⟩)

/-! ## Packets -/

/-- The identifier is not zero, and no message that is pending or waits to be published has it. -/
def Broker.Free (b : Broker) (n : Nat) : Prop :=
  n ≠ 0 ∧ ∀ m, Pending b m ∨ m ∈ b.notifyDeque → (b.bufs m).packetId ≠ n

/-- The messages differ from each other, from what is pending at the client, and from what waits to be published. -/
def Broker.Deliverable (b : Broker) (c : CtxId) (ms : List MbufId) : Prop :=
  (b.ids ((b.sess.ctxs c).sendMsgQueue ++ ms)).Nodup ∧
    ∀ m ∈ ms, ∀ w ∈ b.notifyDeque, (b.bufs m).packetId ≠ (b.bufs w).packetId

/-- **What a packet needs** in the state in which it is handed to `process`: the identifier that a PUBLISH is given is free, and
    the retained messages that a SUBSCRIBE is sent can be delivered. -/
structure PacketClear (k : ConnId) (pkt : ByteStr) (b : Broker) : Prop where
  publish : packetType pkt = .publish → ∀ c msg, b.sess.contextOf k = some c → (b.sess.ctxs c).clientStatus = .connected →
    Publish.decode.decode pkt = some msg → b.Free (b.nextMsgId % 65536)
  subscribe : packetType pkt = .subscribe → ∀ c msg, b.sess.contextOf k = some c →
    (b.sess.ctxs c).clientStatus = .connected → Subscribe.decode.decode pkt = some msg →
    b.Deliverable c (b.retainedFor msg.topicsName)

/-- `client_context()` of a client that is connected has nothing to create. -/
theorem clientContext_connected (h : clientContext env k b = .ok (c, b'))
    (hs : (b'.sess.ctxs c).clientStatus = .connected) : b' = b ∧ b.sess.contextOf k = some c := by
  obtain ⟨hof, rfl | ⟨-, -, rfl⟩⟩ := clientContext_ok h
  · exact ⟨rfl, hof⟩
  · have hof' : (b.sess.newContext k (env.cleanGarbage k)).contextOf k = some c := hof
    rw [Sess.newContext_contextOf, if_pos rfl] at hof'
    have hs' : ((b.sess.newContext k (env.cleanGarbage k)).ctxs c).clientStatus = .connected := hs
    rw [Sess.newContext_ctxs, if_pos (Option.some.inj hof').symm] at hs'
    cases hs'

theorem registBuf_ok {type : MsgType} {size : Nat} {bytes : Nat → ByteStr} (h : registBuf type size bytes b = .ok (m, b')) :
    m = b.nextBuf ∧ ∃ store, b' =
      { b.withBuf ((Buf.make size b.now (bytes b.nextMsgId)).tag b.nextMsgId type true) with store } := by
  cases h
  exact ⟨rfl, _, rfl⟩

theorem Numbered.withStore (h : Numbered b) (store : MsgMemStore) : Numbered { b with store } :=
  ⟨h.held, h.puts, h.differ, h.waits, h.apart, h.queued⟩

/-- A new buffer with an identifier that is free. -/
theorem Numbered.outgoing {x : Buf} (h : Numbered b) (hx : x.Carries) (hfree : b.Free x.packetId) (store : MsgMemStore) :
    Outgoing { b.withBuf x with store } b.nextBuf ∧ ∀ c, Unqueued { b.withBuf x with store } b.nextBuf c := by
  have hself : (b.withBuf x).bufs b.nextBuf = x := Function.update_self _ _ _
  have hsame : SameMessages b (b.withBuf x) := .of_new rfl rfl
  refine ⟨⟨Nat.lt_succ_self _, ?_, fun w hw he => ?_⟩, fun c y hy he => ?_⟩
  · show ((b.withBuf x).bufs b.nextBuf).Carries
    rwa [hself]
  · have he' : ((b.withBuf x).bufs b.nextBuf).packetId = ((b.withBuf x).bufs w).packetId := he
    rw [hself, hsame.packetId (h.waits w hw)] at he'
    exact hfree.2 w (Or.inr hw) he'.symm
  · have he' : ((b.withBuf x).bufs y).packetId = ((b.withBuf x).bufs b.nextBuf).packetId := he
    rw [hself, hsame.packetId (h.pending ⟨c, hy⟩)] at he'
    exact hfree.2 y (Or.inl ⟨c, hy⟩) he'

theorem Broker.Free.rest {n : Nat} (h : b.Free n) (hb : Numbered b) (hr : Resting b b') : b'.Free n := by
  refine ⟨h.1, fun m hm => ?_⟩
  rcases hm with hm | hm
  · have hm' := hr.pending hm
    rw [hr.packetId (hb.pending hm')]
    exact h.2 m (Or.inl hm')
  · rw [hr.waiting] at hm
    rw [hr.packetId (hb.waits m hm)]
    exact h.2 m (Or.inr hm)

theorem handlePublishMsg_numbered {pkt : ByteStr} {r : Int × ByteStr} (hb : Numbered b) (hlen : pkt.length < 2 ^ 32)
    (hclear : ∀ c msg, b.sess.contextOf k = some c → (b.sess.ctxs c).clientStatus = .connected →
      Publish.decode.decode pkt = some msg → b.Free (b.nextMsgId % 65536))
    (h : handlePublishMsg env k pkt b = .ok (r, b')) : Numbered b' := by
  unfold handlePublishMsg at h
  rw [bind_ok] at h
  obtain ⟨c, b₁, hc, h⟩ := h
  rw [get_bind] at h
  split at h
  · cases h
    exact hb.rest (Frame.resp_ok clientContext_resting hc)
  · rename_i hstatus
    obtain ⟨rfl, hof⟩ := clientContext_connected hc (not_not.mp hstatus)
    cases hd : Publish.decode.decode pkt with
    | none =>
        simp only [hd] at h
        cases h
        exact hb
    | some msg =>
        simp only [hd] at h
        rw [bind_ok] at h
        obtain ⟨res, b₂, hreply, h⟩ := h
        rw [touch_bind_ok, bind_ok] at h
        obtain ⟨-, m, b₃, hregist, h⟩ := h
        rw [get_bind, bind_ok] at h
        obtain ⟨_, b₄, hpub, h⟩ := h
        cases h
        have hrest : Resting b₁ b₂ := Frame.resp_ok (reply_resting (noPublish_publishAck msg.msgId)) hreply
        have hb₂ := hb.rest hrest
        -- the PUBACK in between issues no identifier
        have hnext : b₂.nextMsgId = b₁.nextMsgId := by
          unfold Broker.nextMsgId
          rw [hrest.issued]
        have hfree : b₂.Free (b₂.nextMsgId % 65536) := by
          rw [hnext]
          exact (hclear c msg hof (not_not.mp hstatus) hd).rest hb hrest
        obtain ⟨rfl, store, rfl⟩ := registBuf_ok hregist
        obtain ⟨msg', hd', hid'⟩ := Publish.decode_rewriteMsgId hd b₂.nextMsgId
        have hrewritten := Publish.rewriteMsgId_length hd b₂.nextMsgId
        have hread : ((Buf.make pkt.length b₂.now (rewriteMsgId msg pkt b₂.nextMsgId)).tag b₂.nextMsgId .data true).1.readPos = 0 :=
          Buf.make_readPos _ _ _
        -- the rewritten packet decodes as before, but for the identifier
        have hcarries : ((Buf.make pkt.length b₂.now (rewriteMsgId msg pkt b₂.nextMsgId)).tag b₂.nextMsgId .data true).Carries := by
          refine Buf.carries_of_decode hread ?_ hid' hfree.1
          rw [Buf.tag_unread, Buf.make_unread (Nat.le_of_eq hrewritten) hlen]
          exact hd'
        obtain ⟨hout, hnew⟩ := hb₂.outgoing hcarries hfree store
        have hself : (b₂.withBuf ((Buf.make pkt.length b₂.now (rewriteMsgId msg pkt b₂.nextMsgId)).tag b₂.nextMsgId .data
            true)).bufs b₂.nextBuf = _ := Function.update_self _ _ _
        refine (publishTopic_numbered ((hb₂.rest resting_newBuf).withStore store) hout ?_ hnew hpub).1
        show ((b₂.withBuf _).bufs b₂.nextBuf).1.readPos = 0
        rw [hself]
        exact hread

/-! ### SUBSCRIBE -/

theorem subscribe_retained {s : Sess} (hret : s.topicMgr.retainMsg t = some m) (hconn : (s.ctxs c).mqttConnection = some k) :
    s.subscribe t c = ({ s with topicMgr := s.topicMgr.addClientContext t c } : Sess).modifyContext c (·.addSendMsg m) := by
  unfold Sess.subscribe
  simp only [hret, hconn]

theorem subscribe_silent {s : Sess} (h : s.topicMgr.retainMsg t = none ∨ (s.ctxs c).mqttConnection = none) :
    s.subscribe t c = { s with topicMgr := s.topicMgr.addClientContext t c } := by
  unfold Sess.subscribe
  rcases h with h | h
  · simp only [h]
  · simp only [h]
    split
    · rename_i hk
      cases hk
    · rfl

theorem Broker.Deliverable.rest {ms ms' : List MbufId} (h : b.Deliverable c ms) (hb : Numbered b)
    (hms : ∀ m ∈ ms, m < b.nextBuf) (hr : SameMessages b b') (hw : b'.notifyDeque = b.notifyDeque)
    (hq : List.Sublist ((b'.sess.ctxs c).sendMsgQueue ++ ms') ((b.sess.ctxs c).sendMsgQueue ++ ms)) (hsub : ms' ⊆ ms) :
    b'.Deliverable c ms' := by
  have hall : ∀ m ∈ (b.sess.ctxs c).sendMsgQueue ++ ms, m < b.nextBuf := by
    intro m hm
    rcases List.mem_append.mp hm with hm | hm
    · exact hb.pending ⟨c, hm⟩
    · exact hms m hm
  refine ⟨?_, fun m hm w hin => ?_⟩
  · have hnodup : (b'.ids ((b.sess.ctxs c).sendMsgQueue ++ ms)).Nodup := by
      rw [hr.ids hall]
      exact h.1
    exact (hq.map fun m => (b'.bufs m).packetId).nodup hnodup
  · rw [hw] at hin
    rw [hr.packetId (hms m (hsub hm)), hr.packetId (hb.waits w hin)]
    exact h.2 m (hsub hm) w hin

theorem Numbered.retained_lt (h : Numbered b) {ts : List ByteStr} : ∀ m ∈ b.retainedFor ts, m < b.nextBuf := by
  intro m hm
  obtain ⟨t, -, ht⟩ := List.mem_filterMap.mp hm
  exact (h.held m (Or.inr ⟨t, ht⟩)).1

theorem Resting.retainedFor (h : Resting b b') (ts : List ByteStr) : b'.retainedFor ts = b.retainedFor ts :=
  List.filterMap_congr fun t _ => h.retain t

theorem addClient_resting (t : ByteStr) (c : CtxId) : Resting b { b with sess := { b.sess with topicMgr := b.sess.topicMgr.addClientContext t c } } :=
  resting_of_tables [] rfl rfl (fun _ => List.Sublist.refl _)
    (fun t' => retainMsg_addClientContext b.sess.topicMgr t t' c) rfl rfl (List.append_nil _).symm
    fun _ h => absurd h List.not_mem_nil

/-- **A retained message** for a client that subscribes. -/
theorem retained_numbered {ts : List ByteStr} {r : Int} (hb : Numbered b) (hret : b.sess.topicMgr.retainMsg t = some m)
    (hd : b.Deliverable c (m :: ts.filterMap b.sess.topicMgr.retainMsg)) (hconn : (b.sess.ctxs c).mqttConnection = some k)
    (h : put env k m (b.act (b.sess.subscribe t c) (.retained c t m (b.bufs m).msgId)) = .ok (r, b')) :
    Numbered b' ∧ b'.Deliverable c (b'.retainedFor ts) := by
  obtain ⟨hlt, hcarries⟩ := hb.held m (Or.inr ⟨t, hret⟩)
  have hout : Outgoing b m := ⟨hlt, hcarries, fun w hw => hd.2 m List.mem_cons_self w hw⟩
  have hnew : Unqueued b m c := by
    intro x hx
    have hnodup := hd.1
    unfold Broker.ids at hnodup
    rw [List.map_append, List.map_cons, List.nodup_append] at hnodup
    exact hnodup.2.2 _ (List.mem_map.mpr ⟨x, hx, rfl⟩) _ List.mem_cons_self
  have hpend := (hb.rest (addClient_resting t c)).pend (hout.mono (addClient_resting t c).toSameMessages rfl hb.waits) hnew
  have hqueue : ((b.sess.subscribe t c).ctxs c).sendMsgQueue = (b.sess.ctxs c).sendMsgQueue ++ [m] := by
    rw [subscribe_retained hret hconn, Sess.modifyContext_ctxs, if_pos rfl]
    rfl
  have hlabel : Resting
      { b with sess := ({ b.sess with topicMgr := b.sess.topicMgr.addClientContext t c } : Sess).modifyContext c (·.addSendMsg m) }
      (b.act (b.sess.subscribe t c) (.retained c t m (b.bufs m).msgId)) := by
    rw [subscribe_retained hret hconn]
    exact resting_act (fun _ _ _ h => by cases h) (fun _ => List.Sublist.refl _) fun _ => rfl
  have hb₁ := hpend.rest hlabel
  have hsend : Sendable (b.act (b.sess.subscribe t c) (.retained c t m (b.bufs m).msgId)) m := by
    refine hb₁.sendable (Or.inl ⟨c, ?_⟩)
    show m ∈ ((b.sess.subscribe t c).ctxs c).sendMsgQueue
    rw [hqueue]
    exact List.mem_append_right _ (List.mem_singleton.mpr rfl)
  have hput : Resting (b.act (b.sess.subscribe t c) (.retained c t m (b.bufs m).msgId)) b' :=
    Frame.resp_ok (put_resting hsend) h
  have hsame : SameMessages b b' := (SameMessages.of_same rfl fun _ => ⟨rfl, rfl⟩ : SameMessages b (b.act
    (b.sess.subscribe t c) (.retained c t m (b.bufs m).msgId))).trans hput.toSameMessages
  refine ⟨hb₁.rest hput, ?_⟩
  have hlater : b'.retainedFor ts = b.retainedFor ts := (hput.retainedFor ts).trans (retainedFor_subscribe ts rfl)
  rw [hlater]
  refine hd.rest hb (fun x hx => ?_) hsame hput.waiting ?_ (List.subset_cons_self _ _)
  · rcases List.mem_cons.mp hx with rfl | hx
    · exact hlt
    · exact hb.retained_lt x hx
  · have hq : List.Sublist (b'.sess.ctxs c).sendMsgQueue ((b.sess.ctxs c).sendMsgQueue ++ [m]) := hqueue ▸ hput.queue c
    have happ := hq.append_right (b.retainedFor ts)
    rwa [List.append_assoc, List.singleton_append] at happ

/-- **One topic.** -/
theorem addClientContext_numbered {r : Int} {ts : List ByteStr} (hb : Numbered b) (hd : b.Deliverable c (b.retainedFor (t :: ts)))
    (h : addClientContext env t c b = .ok (r, b')) : Numbered b' ∧ b'.Deliverable c (b'.retainedFor ts) := by
  have silent (hno : b.sess.topicMgr.retainMsg t = none ∨ (b.sess.ctxs c).mqttConnection = none)
      (hs : b' = { b with sess := b.sess.subscribe t c }) : Numbered b' ∧ b'.Deliverable c (b'.retainedFor ts) := by
    rw [subscribe_silent hno] at hs
    subst hs
    have hsub : List.Sublist (b.retainedFor ts) (b.retainedFor (t :: ts)) := (List.sublist_cons_self t ts).filterMap _
    refine ⟨hb.rest (addClient_resting t c), ?_⟩
    rw [(addClient_resting t c).retainedFor ts]
    exact hd.rest hb hb.retained_lt (addClient_resting t c).toSameMessages rfl ((List.Sublist.refl _).append hsub) hsub.subset
  unfold addClientContext at h
  rw [get_bind] at h
  cases hret : b.sess.topicMgr.retainMsg t with
  | none =>
      simp only [hret] at h
      cases h
      exact silent (Or.inl hret) rfl
  | some m =>
      cases hconn : (b.sess.ctxs c).mqttConnection with
      | none =>
          simp only [hret, hconn] at h
          cases h
          exact silent (Or.inr hconn) rfl
      | some k =>
          simp only [hret, hconn] at h
          rw [set_bind] at h
          rw [Broker.retainedFor, List.filterMap_cons_some hret] at hd
          exact retained_numbered hb hret hd hconn h

/-- **The loop over the topics.** A connection that is lost on the way is not used again. -/
theorem subscribeLoop_numbered {u : Unit} (ts : List ByteStr) : ∀ b : Broker, Numbered b → Serves k c b.sess →
    b.Deliverable c (b.retainedFor ts) → subscribeLoop env k ts b = .ok (u, b') → Numbered b' := by
  induction ts with
  | nil =>
      intro b hb _ _ h
      cases h
      exact hb
  | cons t ts ih =>
      intro b hb hk hd h
      unfold subscribeLoop at h
      rw [bind_ok] at h
      obtain ⟨c', b₁, hc, h⟩ := h
      obtain ⟨rfl, rfl, -, -⟩ := clientContext_serves hk hc
      rw [bind_ok] at h
      obtain ⟨r, b₂, hadd, h⟩ := h
      obtain ⟨hb₂, hd₂⟩ := addClientContext_numbered hb hd hadd
      exact ih b₂ hb₂ (addClientContext_serves hk hadd) hd₂ h

theorem handleSubscribeMsg_numbered {pkt : ByteStr} {r : Int} (hb : Numbered b)
    (hclear : ∀ c msg, b.sess.contextOf k = some c → (b.sess.ctxs c).clientStatus = .connected →
      Subscribe.decode.decode pkt = some msg → b.Deliverable c (b.retainedFor msg.topicsName))
    (h : handleSubscribeMsg env k pkt b = .ok (r, b')) : Numbered b' := by
  unfold handleSubscribeMsg at h
  rw [bind_ok] at h
  obtain ⟨c, b₁, hc, h⟩ := h
  rw [get_bind] at h
  split at h
  · cases h
    exact hb.rest (Frame.resp_ok clientContext_resting hc)
  · rename_i hstatus
    obtain ⟨rfl, hof⟩ := clientContext_connected hc (not_not.mp hstatus)
    cases hd : Subscribe.decode.decode pkt with
    | none =>
        simp only [hd] at h
        cases h
        exact hb
    | some msg =>
        simp only [hd] at h
        rw [set_bind, bind_ok] at h
        obtain ⟨res, b₂, hreply, h⟩ := h
        rw [bind_ok] at h
        obtain ⟨_, b₃, hloop, h⟩ := h
        cases h
        have hnote : Resting b₁ (b₁.act (b₁.sess.modifyContext c (·.addSubcribeTopics msg.subTopics))
            (.subscribe k c msg.subTopics)) :=
          resting_act (fun _ _ _ h => by cases h)
            (fun c' => queue_modifyContext (f := (·.addSubcribeTopics msg.subTopics)) (List.Sublist.refl _) c') fun _ => rfl
        have hserves : Serves k c (b₁.sess.modifyContext c (·.addSubcribeTopics msg.subTopics)) := by
          refine fun _ => ⟨hof, ?_⟩
          rw [Sess.modifyContext_ctxs, if_pos rfl]
          exact not_not.mp hstatus
        have hrest := hnote.trans (Frame.resp_ok (reply_resting (noPublish_subAck msg.msgId msg.topicsQos)) hreply)
        refine subscribeLoop_numbered (c := c) _ b₂ (hb.rest hrest) (reply_serves hserves hreply) ?_ hloop
        rw [hrest.retainedFor]
        exact (hclear c msg hof (not_not.mp hstatus) hd).rest hb hb.retained_lt hrest.toSameMessages hrest.waiting
          ((hrest.queue c).append_right _) fun _ h => h

end MqttServer
