import MqttServer.Correctness.Quiet

/-!
# `Correctness.Delivery` — a message stays pending until it was sent and acknowledged

A message is put on a connection when it is published, when it is retained for a topic the client subscribes to, and when the
session comes back; a PUBACK takes it from the pending queue. Each of these keeps what was sent and not acknowledged in the
pending queue (`Owed`). An acknowledgement does when the client acknowledges what it was sent, in order: then a message leaves
a pending queue only after it was put on this very connection, over all runs (`runs_deliver`).
-/

namespace MqttServer

open Lib Exec

variable {env : Env} {mp : MsgPack} {b b' b₁ : Broker} {k k' : ConnId} {c : CtxId} {m : MbufId} {t : ByteStr}

/-! ## Queueing and sending -/

/-- A message with an identifier. -/
def Broker.Counted (b : Broker) (m : MbufId) : Prop := m < b.nextBuf ∧ (b.bufs m).packetId ≠ 0

theorem Broker.Counted.mono (h : b.Counted m) (hs : SameMessages b b') : b'.Counted m :=
  ⟨h.1.trans_le hs.grown, by rw [hs.packetId h.1]; exact h.2⟩

theorem Numbered.counted (h : Numbered b) (hm : Holds b.sess m) : b.Counted m := by
  obtain ⟨hlt, msg, -, -, hid⟩ := h.held m hm
  exact ⟨hlt, hid⟩

/-- The message at the end of the queue of a session. -/
def Broker.pended (b : Broker) (c : CtxId) (m : MbufId) : Broker := { b with sess := b.sess.modifyContext c (·.addSendMsg m) }

theorem pended_queue (c' : CtxId) : ((b.pended c m).sess.ctxs c').sendMsgQueue =
    if c' = c then (b.sess.ctxs c).sendMsgQueue ++ [m] else (b.sess.ctxs c').sendMsgQueue := by
  show ((b.sess.modifyContext c (·.addSendMsg m)).ctxs c').sendMsgQueue = _
  rw [Sess.modifyContext_ctxs]
  split <;> rfl

/-- **Queued for a session that is online.** It is to be sent on its connection. -/
theorem Owed.pend (h : Owed settled b) (hn : Named (connects b.log) c) (hc : b.sess.contextOf k = some c) :
    Owed (offering k [m]) (b.pended c m) := by
  refine ⟨h.links.modify (f := (·.addSendMsg m)) ⟨rfl, rfl⟩ (Or.inl hn), h.bounded, h.unconnected, h.within, fun k' c' hk' hc' => ?_⟩
  have hc'' : b.sess.contextOf k' = some c' := hc'
  obtain ⟨hsub, heq⟩ := h.queue k' c' hk' hc''
  unfold settled at hsub heq
  rw [List.append_nil] at hsub heq
  rw [pended_queue]
  by_cases hk : k' = k
  · subst hk
    rw [hc] at hc''
    cases hc''
    rw [if_pos rfl, offering_self]
    exact ⟨hsub.append_right [m], fun hr => by rw [heq hr]; rfl⟩
  · have hne : c' ≠ c := fun he => hk (h.links.contextOf_inj hc'' (he ▸ hc))
    rw [if_neg hne, offering_of_ne hk, List.append_nil]
    exact ⟨hsub, heq⟩

/-- **Queued for a session that is offline.** -/
theorem Owed.pend_offline (h : Owed settled b) (hn : Named (connects b.log) c) (hoff : (b.sess.ctxs c).mqttConnection = none) :
    Owed settled (b.pended c m) := by
  refine ⟨h.links.modify (f := (·.addSendMsg m)) ⟨rfl, rfl⟩ (Or.inl hn), h.bounded, h.unconnected, h.within, fun k' c' hk' hc' => ?_⟩
  have hc'' : b.sess.contextOf k' = some c' := hc'
  have hne : c' ≠ c := by
    rintro rfl
    rw [h.links.owner k' c' hc''] at hoff
    cases hoff
  rw [pended_queue, if_neg hne]
  exact h.queue k' c' hk' hc''

theorem sent_put {r : Int} (hid : (b.bufs m).packetId ≠ 0) :
    ([Act.put k m r].filterMap (Act.sentOn k')).filter (fun m => (b.bufs m).packetId ≠ 0) =
      if k = k' ∧ r ≠ -1 then [m] else [] := by
  unfold Act.sentOn
  by_cases hcond : k = k' ∧ r ≠ -1
  · simp [hcond, hid]
  · simp [hcond]

/-- A refusal is not forgotten. -/
theorem Broker.Refused.mono (h : b.Refused k) (hb : Bounded b) (hs : SameMessages b b') {ls : List Act}
    (hlog : b'.log = b.log ++ ls) : b'.Refused k := by
  obtain ⟨m, hm, hid⟩ := h
  refine ⟨m, ?_, by rwa [hs.packetId (hb k m _ hm)]⟩
  rw [hlog]
  exact List.mem_append_left _ hm

/-- The sessions stay, and no message leaves their queues. -/
structure Grows (b b' : Broker) : Prop where
  named : ∀ c, Named (connects b.log) c → Named (connects b'.log) c
  queue : ∀ c, Named (connects b.log) c → (b.sess.ctxs c).sendMsgQueue <+: (b'.sess.ctxs c).sendMsgQueue

theorem Grows.trans (h : Grows b b₁) (h' : Grows b₁ b') : Grows b b' :=
  ⟨fun c hn => h'.named c (h.named c hn), fun c hn => (h.queue c hn).trans (h'.queue c (h.named c hn))⟩

/-- What a step that sends leaves alone. -/
structure Sends (b b' : Broker) : Prop extends SameMessages b b', Grows b b' where
  connects : connects b'.log = connects b.log

theorem Sends.refl (b : Broker) : Sends b b := ⟨.refl b, ⟨fun _ hn => hn, fun _ _ => List.prefix_refl _⟩, rfl⟩

theorem Sends.trans (h : Sends b b₁) (h' : Sends b₁ b') : Sends b b' :=
  ⟨h.toSameMessages.trans h'.toSameMessages, h.toGrows.trans h'.toGrows, h'.connects.trans h.connects⟩

theorem Quiet.sends (h : Quiet b b') : Sends b b' where
  toSameMessages := h.toSameMessages
  connects := h.connects
  named c hn := by rwa [h.connects]
  queue c hn := by rw [h.queues c hn]

theorem pended_sends : Sends b (b.pended c m) where
  toSameMessages := .of_same rfl fun _ => ⟨rfl, rfl⟩
  connects := rfl
  named _ hn := hn
  queue c' _ := by
    rw [pended_queue]
    split
    · rename_i he
      rw [he]
      exact List.prefix_append _ _
    · exact List.prefix_refl _

/-- The label of a `put`. -/
theorem Owed.label {ms : List MbufId} {r : Int} (h : Owed (offering k (m :: ms)) b) (hk : Connected (connects b.log) k)
    (hm : b.Counted m) (hs : SameMessages b b') (hn : b'.nextBuf = b.nextBuf) (hsess : b'.sess = b.sess) (hlog : b'.log = b.log ++ [.put k m r]) :
    Owed (offering k ms) b' := by
  have hid : (b'.bufs m).packetId ≠ 0 := (hm.mono hs).2
  have hconn : connects b'.log = connects b.log := by
    rw [hlog]
    exact connects_quiet rfl
  -- a put that was refused is not on the wire
  have hsent : ∀ k', b'.sent k' = b.sent k' ++ if k = k' ∧ r ≠ -1 then [m] else [] := fun k' => by
    rw [h.bounded.sent_append hs hlog, sent_put hid]
  have hacks : ∀ k', b'.acks k' = b.acks k' := fun k' => by
    rw [Broker.acks_append hlog]
    rfl
  have hunacked : ∀ k', b'.unacked k' = b.unacked k' ++ if k = k' ∧ r ≠ -1 then [m] else [] := fun k' => by
    unfold Broker.unacked
    rw [hsent, hacks, List.drop_append_of_le_length (h.within k')]
  refine ⟨?_, fun k' m' r' hm' => ?_, fun k' hk' => ?_, fun k' => ?_, fun k' c hk' hc => ?_⟩
  · rw [hconn, hsess]
    exact h.links
  · rw [hlog] at hm'
    rcases List.mem_append.mp hm' with hm' | hm'
    · exact (h.bounded k' m' r' hm').trans_le hs.grown
    · cases List.mem_singleton.mp hm'
      rw [hn]
      exact hm.1
  · rw [hconn] at hk'
    rw [hsent, h.unconnected k' hk', List.nil_append, if_neg]
    rintro ⟨rfl, -⟩
    exact hk' hk
  · rw [hsent, hacks, List.length_append]
    exact (h.within k').trans (Nat.le_add_right _ _)
  · rw [hconn] at hk'
    rw [hsess] at hc ⊢
    obtain ⟨hsub, heq⟩ := h.queue k' c hk' hc
    rw [hunacked]
    have hold : ¬ b'.Refused k' → ¬ b.Refused k' := fun hr hr₀ => hr (hr₀.mono h.bounded hs hlog)
    by_cases he : k = k'
    · subst he
      rw [offering_self] at hsub heq ⊢
      by_cases hr : r = -1
      · -- refused
        have hrefused : b'.Refused k := by
          refine ⟨m, ?_, hid⟩
          rw [hlog, hr]
          exact List.mem_append_right _ (List.mem_singleton.mpr rfl)
        rw [if_neg fun hcond => hcond.2 hr, List.append_nil]
        refine ⟨List.Sublist.trans ?_ hsub, fun h => absurd hrefused h⟩
        exact (List.Sublist.refl _).append (List.sublist_cons_self m ms)
      · rw [if_pos ⟨rfl, hr⟩, List.append_assoc, List.singleton_append]
        exact ⟨hsub, fun hr' => heq (hold hr')⟩
    · have hne : k' ≠ k := fun h => he h.symm
      rw [if_neg fun hcond => he hcond.1, List.append_nil]
      rw [offering_of_ne hne] at hsub heq ⊢
      exact ⟨hsub, fun hr' => heq (hold hr')⟩

/-- **A message is put.** The first of those that are to be sent, whatever becomes of it. -/
theorem Owed.put {ms : List MbufId} {r : Int} (h : Owed (offering k (m :: ms)) b) (hk : Connected (connects b.log) k)
    (hm : b.Counted m) (hput : put env k m b = .ok (r, b')) :
    Owed (offering k ms) b' ∧ Sends b b' ∧ (r = -1 → b'.Refused k) ∧
      ∀ t, b'.sess.topicMgr.retainMsg t = b.sess.topicMgr.retainMsg t := by
  have hretain : ∀ t, b'.sess.topicMgr.retainMsg t = b.sess.topicMgr.retainMsg t := by
    intro t
    obtain ⟨-, -, ⟨hs, -⟩ | ⟨c, -, hs, -⟩⟩ := put_ok hput
    · rw [hs]
    · rw [hs]
      exact retainMsg_close b.sess k c t
  unfold MqttServer.put at hput
  rw [touch_bind_ok, get_bind, set_bind, bind_ok] at hput
  obtain ⟨-, u, b₂, hclose, hput⟩ := hput
  cases hput
  have hsame : SameBufs b.bufs ((b.handlers k).put b.bufs m (env.write k (b.nwrites k))).bufs := EventHandler.put_same
  generalize (b.handlers k).put b.bufs m (env.write k (b.nwrites k)) = out at hclose hsame ⊢
  -- the message is noted first, and only then is a broken connection closed
  generalize hb₁ : ({ b with bufs := out.bufs, handlers := _, nwrites := _, log := _ } : Broker) = b₁ at hclose
  have hlog : b₁.log = b.log ++ [.put k m out.res] := by rw [← hb₁]
  have hmsgs : SameMessages b b₁ := by
    rw [← hb₁]
    exact .of_same rfl hsame
  have howed : Owed (offering k ms) b₁ := h.label hk hm hmsgs (by rw [← hb₁]) (by rw [← hb₁]) hlog
  have hquiet : Quiet b₁ b' := (Frame.resp_ok closeOnError_quiet hclose : quieting.rel b₁ b') howed.links
  obtain ⟨ls, hmore, -⟩ := hquiet.labels
  have hconn : connects b₁.log = connects b.log := by
    rw [hlog]
    exact connects_quiet rfl
  have hsends : Sends b b₁ := by
    refine ⟨hmsgs, ⟨fun c hn => by rwa [hconn], fun c _ => ?_⟩, hconn⟩
    rw [← hb₁]
  refine ⟨howed.quiet hquiet, hsends.trans hquiet.sends, fun hr => ?_, hretain⟩
  refine Broker.Refused.mono ⟨m, ?_, (hm.mono hmsgs).2⟩ howed.bounded hquiet.toSameMessages hmore
  rw [hlog, ← hr]
  exact List.mem_append_right _ (List.mem_singleton.mpr rfl)

/-- After a refusal nothing more is claimed. -/
theorem Owed.give {ms : List MbufId} (h : Owed (offering k ms) b) (hr : b.Refused k) : Owed settled b := by
  refine ⟨h.links, h.bounded, h.unconnected, h.within, fun k' c hk' hc => ?_⟩
  obtain ⟨hsub, heq⟩ := h.queue k' c hk' hc
  unfold settled
  rw [List.append_nil]
  by_cases hk : k' = k
  · subst hk
    rw [offering_self] at hsub
    exact ⟨(List.sublist_append_left _ _).trans hsub, fun hno => absurd hr hno⟩
  · rw [offering_of_ne hk, List.append_nil] at hsub heq
    exact ⟨hsub, heq⟩

/-- **One subscriber.** -/
theorem publishClient_owed {u : Unit} (h : Owed settled b) (hc : c ∈ b.sess.topicMgr.clients t) (hm : b.Counted m)
    (hrun : publishClient env c m b = .ok (u, b')) : Owed settled b' ∧ Sends b b' := by
  have hn : Named (connects b.log) c := h.links.subscribed t c hc
  have hsends : Sends b (b.pended c m) := pended_sends
  unfold publishClient at hrun
  rw [get_bind, set_bind] at hrun
  cases hconn : (b.sess.ctxs c).mqttConnection with
  | none =>
      simp only [hconn] at hrun
      cases hrun
      have hpend : Owed settled (b.pended c m) := h.pend_offline hn hconn
      have hstat : Quiet (b.pended c m) ((b.pended c m).modifyStat (b.bufs m).msgId fun x => { x with pubOfflineNum := x.pubOfflineNum + 1 }) :=
        quiet_of_same rfl rfl rfl rfl hpend.links
      exact ⟨hpend.quiet hstat, hsends.trans hstat.sends⟩
  | some k =>
      simp only [hconn] at hrun
      rw [bind_ok] at hrun
      obtain ⟨r, b₁, hput, hrun⟩ := hrun
      cases hrun
      have hof : b.sess.contextOf k = some c := h.links.linked c k hn hconn
      have hk := h.links.connected_of_named hn hof
      obtain ⟨howed, hs, -, -⟩ := (h.pend hn hof).put hk (hm.mono hsends.toSameMessages) hput
      rw [offering_nil] at howed
      have hstat : Quiet b₁ (b₁.modifyStat (b.bufs m).msgId fun x => { x with pubOnlineNum := x.pubOnlineNum + 1 }) :=
        quiet_of_same rfl rfl rfl rfl howed.links
      exact ⟨howed.quiet hstat, (hsends.trans hs).trans hstat.sends⟩

/-- **The loop over the subscribers.** -/
theorem publishLoop_owed {u : Unit} (cs : List CtxId) : ∀ b : Broker, Owed settled b → b.Counted m →
    publishLoop env t m cs b = .ok (u, b') → Owed settled b' ∧ Sends b b' := by
  induction cs with
  | nil =>
      intro b h _ hrun
      cases hrun
      exact ⟨h, .refl _⟩
  | cons c cs ih =>
      intro b h hm hrun
      unfold publishLoop at hrun
      rw [get_bind] at hrun
      split at hrun
      · rename_i hc
        rw [bind_ok] at hrun
        obtain ⟨_, b₁, hp, hrun⟩ := hrun
        obtain ⟨h₁, hs₁⟩ := publishClient_owed h hc hm hp
        rw [get_bind] at hrun
        split at hrun
        · obtain ⟨h', hs'⟩ := ih b₁ h₁ (hm.mono hs₁.toSameMessages) hrun
          exact ⟨h', hs₁.trans hs'⟩
        · cases hrun
      · exact ih b h hm hrun

theorem publishSet_owed {u : Unit} (h : Owed settled b) (hm : b.Counted m) (hrun : publishSet env t m b = .ok (u, b')) :
    Owed settled b' ∧ Sends b b' := by
  unfold publishSet at hrun
  rw [get_bind] at hrun
  exact publishLoop_owed _ b h hm hrun

theorem publishTopics_owed {u : Unit} (ts : List ByteStr) : ∀ b : Broker, Owed settled b → b.Counted m →
    publishTopics env m ts b = .ok (u, b') → Owed settled b' ∧ Sends b b' := by
  induction ts with
  | nil =>
      intro b h _ hrun
      cases hrun
      exact ⟨h, .refl _⟩
  | cons t ts ih =>
      intro b h hm hrun
      unfold publishTopics at hrun
      rw [bind_ok] at hrun
      obtain ⟨_, b₁, hp, hrun⟩ := hrun
      obtain ⟨h₁, hs₁⟩ := publishSet_owed h hm hp
      obtain ⟨h', hs'⟩ := ih b₁ h₁ (hm.mono hs₁.toSameMessages) hrun
      exact ⟨h', hs₁.trans hs'⟩

/-- The retained copy is queued for nobody. -/
theorem updateRetain_quiet {msg : Publish} : quieting.Resp (updateRetain t m msg) b := by
  unfold updateRetain
  refine Frame.resp_get_bind ?_
  split
  · refine Frame.resp_bind (Frame.resp_set_bind quiet_newBuf (Frame.resp_pure _)) fun r b₁ _ => Frame.resp_modify ?_
    refine quiet_topics [] (fun _ h => by cases h) rfl rfl rfl (List.append_nil _).symm fun hl t' c hc => ?_
    rw [TopicMgr.clients_setRetainMsg] at hc
    exact hl.subscribed t' c hc
  · exact Frame.resp_pure _

theorem publishTopic_owed {u : Unit} {msg : Publish} (h : Owed settled b) (hm : b.Counted m)
    (hrun : publishTopic env t m msg b = .ok (u, b')) : Owed settled b' ∧ Grows b b' := by
  unfold publishTopic at hrun
  rw [get_bind, set_bind, bind_ok] at hrun
  obtain ⟨_, b₁, hr, hrun⟩ := hrun
  have hact : Quiet b (b.act { b.sess with topicMgr := b.sess.topicMgr.ensure t } (.publish t m (b.bufs m).msgId)) := by
    refine quiet_topics _ (plain_of rfl (fun _ => rfl) fun _ _ _ h => by cases h) rfl rfl rfl rfl (fun hl t' c hc => ?_) h.links
    rw [TopicMgr.clients_ensure] at hc
    exact hl.subscribed t' c hc
  have hretain : Quiet _ b₁ := (Frame.resp_ok updateRetain_quiet hr : quieting.rel _ b₁) hact.links
  have hquiet := hact.trans hretain
  split at hrun
  · cases hrun
    exact ⟨h.quiet hquiet, hquiet.sends.toGrows⟩
  · rw [modify_bind, bind_ok] at hrun
    obtain ⟨_, b₂, hp, hrun⟩ := hrun
    cases hrun
    have hstart : Quiet b₁ (b₁.startStat (b.bufs m).msgId) := quiet_of_same rfl rfl rfl rfl hquiet.links
    have hall := hquiet.trans hstart
    obtain ⟨h₂, hs₂⟩ := publishSet_owed (h.quiet hall) (hm.mono hall.toSameMessages) hp
    have hend : Quiet b₂ (b₂.endStat (b.bufs m).msgId) := quiet_of_same rfl rfl rfl rfl h₂.links
    exact ⟨h₂.quiet hend, ((hall.sends.trans hs₂).trans hend.sends).toGrows⟩

theorem publishAll_owed {u : Unit} (h : Owed settled b) (hm : b.Counted m) (hrun : publishAll env m b = .ok (u, b')) :
    Owed settled b' ∧ Grows b b' := by
  unfold publishAll at hrun
  rw [get_bind, set_bind, modify_bind, bind_ok] at hrun
  obtain ⟨_, b₂, hp, hrun⟩ := hrun
  cases hrun
  have hstart : Quiet b (({ b with log := b.log ++ [Act.publishAll m (b.bufs m).msgId] } : Broker).startStat (b.bufs m).msgId) :=
    quiet_of_tables _ rfl rfl rfl (plain_of rfl (fun _ => rfl) fun _ _ _ h => by cases h)
      (fun hl => ⟨hl, fun _ _ _ hc => hc, fun _ _ => rfl⟩) h.links
  obtain ⟨h₂, hs₂⟩ := publishTopics_owed _ _ (h.quiet hstart) (hm.mono hstart.toSameMessages) hp
  have hend : Quiet b₂ (b₂.endStat (b.bufs m).msgId) := quiet_of_same rfl rfl rfl rfl h₂.links
  exact ⟨h₂.quiet hend, ((hstart.sends.trans hs₂).trans hend.sends).toGrows⟩

/-! ## Packets -/

/-- The packet is an acknowledgement, by the connection of the session, of the oldest message that was sent to it and not
    acknowledged. -/
structure Acknowledges (b : Broker) (k : ConnId) (pkt : ByteStr) (c : CtxId) (m : MbufId) : Prop where
  type : packetType pkt = .puback
  msgId : decodePublishAck.decode pkt = some (b.bufs m).packetId
  session : b.sess.contextOf k = some c
  oldest : (b.unacked k).head? = some m

/-- The sessions stay, and a message leaves their queues only when the packet acknowledges it. -/
structure Releases (k : ConnId) (pkt : ByteStr) (b b' : Broker) : Prop where
  named : ∀ c, Named (connects b.log) c → Named (connects b'.log) c
  queue : ∀ c, Named (connects b.log) c → ∀ m ∈ (b.sess.ctxs c).sendMsgQueue,
    m ∈ (b'.sess.ctxs c).sendMsgQueue ∨ Acknowledges b k pkt c m

theorem Grows.releases {pkt : ByteStr} (h : Grows b b') : Releases k pkt b b' :=
  ⟨h.named, fun c hn _ hm => Or.inl ((h.queue c hn).subset hm)⟩

/-- **What a client owes the broker**: no second CONNECT on a connection, and an acknowledgement is for the oldest message that
    was sent to it and not acknowledged. -/
structure PacketObliging (k : ConnId) (pkt : ByteStr) (b : Broker) : Prop where
  connect : packetType pkt = .connect → ¬ Connected (connects b.log) k
  puback : packetType pkt = .puback → ∀ msgId, decodePublishAck.decode pkt = some msgId →
    (b.unacked k).head?.map (fun m => (b.bufs m).packetId) = some msgId

theorem handlePublishMsg_owed {pkt : ByteStr} {r : Int × ByteStr} (h : Owed settled b)
    (hfree : ∀ c msg, b.sess.contextOf k = some c → (b.sess.ctxs c).clientStatus = .connected →
      Publish.decode.decode pkt = some msg → b.nextMsgId % 65536 ≠ 0)
    (hrun : handlePublishMsg env k pkt b = .ok (r, b')) : Owed settled b' ∧ Grows b b' := by
  unfold handlePublishMsg at hrun
  rw [bind_ok] at hrun
  obtain ⟨c, b₁, hc, hrun⟩ := hrun
  rw [get_bind] at hrun
  split at hrun
  · cases hrun
    have hquiet : Quiet b b' := (Frame.resp_ok clientContext_quiet hc : quieting.rel b b') h.links
    exact ⟨h.quiet hquiet, hquiet.sends.toGrows⟩
  · rename_i hstatus
    obtain ⟨rfl, hof⟩ := clientContext_connected hc (not_not.mp hstatus)
    cases hd : Publish.decode.decode pkt with
    | none =>
        simp only [hd] at hrun
        cases hrun
        exact ⟨h, (Sends.refl _).toGrows⟩
    | some msg =>
        simp only [hd] at hrun
        rw [bind_ok] at hrun
        obtain ⟨res, b₂, hreply, hrun⟩ := hrun
        rw [touch_bind_ok, bind_ok] at hrun
        obtain ⟨-, m, b₃, hregist, hrun⟩ := hrun
        rw [get_bind, bind_ok] at hrun
        obtain ⟨_, b₄, hpub, hrun⟩ := hrun
        cases hrun
        have hnext : b₂.nextMsgId = b₁.nextMsgId := by
          have hrest : Resting b₁ b₂ := Frame.resp_ok (reply_resting (noPublish_publishAck msg.msgId)) hreply
          unfold Broker.nextMsgId
          rw [hrest.issued]
        have hquiet : Quiet b₁ b₂ := (Frame.resp_ok reply_quiet hreply : quieting.rel b₁ b₂) h.links
        have h₂ := h.quiet hquiet
        obtain ⟨rfl, store, rfl⟩ := registBuf_ok hregist
        have hnew : Quiet b₂ { b₂.withBuf ((Buf.make pkt.length b₂.now (rewriteMsgId msg pkt b₂.nextMsgId)).tag b₂.nextMsgId
            .data true) with store } :=
          (quiet_newBuf h₂.links).trans (quiet_of_same rfl rfl rfl rfl h₂.links)
        have hall := hquiet.trans hnew
        suffices hcounted : Broker.Counted _ b₂.nextBuf by
          obtain ⟨howed, hgrows⟩ := publishTopic_owed (h.quiet hall) hcounted hpub
          exact ⟨howed, hall.sends.toGrows.trans hgrows⟩
        refine ⟨Nat.lt_succ_self _, ?_⟩
        have hself : (b₂.withBuf ((Buf.make pkt.length b₂.now (rewriteMsgId msg pkt b₂.nextMsgId)).tag b₂.nextMsgId .data
            true)).bufs b₂.nextBuf = _ := Function.update_self _ _ _
        show ((b₂.withBuf _).bufs b₂.nextBuf).packetId ≠ 0
        rw [hself]
        show b₂.nextMsgId % 65536 ≠ 0
        rw [hnext]
        exact hfree c msg hof (not_not.mp hstatus) hd

theorem ackMsg_cons {x : ClientContext} {idOf : MbufId → Nat} {msgId : Nat} {ms : List MbufId} (hq : x.sendMsgQueue = m :: ms) :
    (x.ackMsg idOf msgId).sendMsgQueue = if idOf m % 65536 = msgId then ms else m :: ms := by
  unfold ClientContext.ackMsg ClientContext.acked
  simp only [hq]
  by_cases hid : idOf m % 65536 = msgId
  · simp [hid]
  · simp [hid, hq]

/-- The queue after an acknowledgement, when no two messages of it have one identifier. -/
theorem Numbered.acknowledged {msgId : Nat} {rest : List MbufId} (hb : Numbered b) (hid : (b.bufs m).packetId = msgId)
    (hsub : List.Sublist (m :: rest) (b.sess.ctxs c).sendMsgQueue) {P : Prop}
    (heq : P → (b.sess.ctxs c).sendMsgQueue = m :: rest) :
    List.Sublist rest ((b.sess.ctxs c).ackMsg (fun m => (b.bufs m).msgId) msgId).sendMsgQueue ∧
      (P → ((b.sess.ctxs c).ackMsg (fun m => (b.bufs m).msgId) msgId).sendMsgQueue = rest) := by
  cases hq : (b.sess.ctxs c).sendMsgQueue with
  | nil =>
      rw [hq] at hsub
      cases hsub
  | cons x xs =>
      rw [hq] at hsub heq
      rw [ackMsg_cons hq]
      by_cases hx : x = m
      · subst hx
        rw [if_pos (show (b.bufs x).msgId % 65536 = msgId from hid)]
        exact ⟨List.cons_sublist_cons.mp hsub, fun hp => (List.cons.inj (heq hp)).2⟩
      · -- the oldest message is another one, with another identifier
        have hne : (b.bufs x).msgId % 65536 ≠ msgId := by
          intro he
          apply hx
          refine List.inj_on_of_nodup_map (hb.differ c) ?_ ?_ (show (b.bufs x).packetId = (b.bufs m).packetId from he.trans hid.symm)
          · rw [hq]
            exact List.mem_cons_self
          · rw [hq]
            exact hsub.subset List.mem_cons_self
        rw [if_neg hne]
        exact ⟨(List.sublist_cons_self m rest).trans hsub, fun hp => absurd (List.cons.inj (heq hp)).1 hx⟩

/-- The label of a PUBACK, for the oldest message that was sent and not acknowledged. -/
theorem Owed.acknowledge {msgId : Nat} {rest : List MbufId} (h : Owed settled b) (oldest : Option Nat)
    (hb : Numbered b) (hc : b.sess.contextOf k = some c) (hu : b.unacked k = m :: rest) (hid : (b.bufs m).packetId = msgId) :
    Owed settled (b.act (b.sess.modifyContext c (·.ackMsg (fun m => (b.bufs m).msgId) msgId)) (.puback k c msgId oldest)) := by
  generalize hb₁ : b.act (b.sess.modifyContext c (·.ackMsg (fun m => (b.bufs m).msgId) msgId)) (.puback k c msgId oldest) = b₁
  have hlog : b₁.log = b.log ++ [.puback k c msgId oldest] := by rw [← hb₁]; rfl
  have hsess : b₁.sess = b.sess.modifyContext c (·.ackMsg (fun m => (b.bufs m).msgId) msgId) := by rw [← hb₁]; rfl
  have hbufs : b₁.bufs = b.bufs := by rw [← hb₁]; rfl
  have hnext : b₁.nextBuf = b.nextBuf := by rw [← hb₁]; rfl
  have hs : SameMessages b b₁ := .of_same hnext fun m => by rw [hbufs]; exact ⟨rfl, rfl⟩
  have hconn : connects b₁.log = connects b.log := by
    rw [hlog]
    exact connects_quiet rfl
  have hsent : ∀ k', b₁.sent k' = b.sent k' := fun k' => by
    rw [h.bounded.sent_append hs hlog]
    exact List.append_nil _
  have hacks : ∀ k', b₁.acks k' = b.acks k' + if k = k' then 1 else 0 := fun k' => by
    rw [Broker.acks_append hlog, List.countP_singleton]
    simp [Act.acknowledges]
  have hunacked : b₁.unacked k = rest := by
    unfold Broker.unacked at hu ⊢
    rw [hsent, hacks, if_pos rfl, ← List.drop_drop, hu]
    rfl
  -- something is unacknowledged, so the CONNECT was before it
  have hk : Connected (connects b.log) k := by
    by_contra hno
    unfold Broker.unacked at hu
    rw [h.unconnected k hno, List.drop_nil] at hu
    cases hu
  have hn := h.links.named_of_connected hk hc
  have hrefused : ∀ k', ¬ b₁.Refused k' → ¬ b.Refused k' := fun k' hr hr₀ => hr (hr₀.mono h.bounded hs hlog)
  refine ⟨?_, fun k' m' r' hm' => ?_, fun k' hk' => ?_, fun k' => ?_, fun k' c' hk' hc' => ?_⟩
  · rw [hconn, hsess]
    refine h.links.modify ?_ (Or.inl hn)
    unfold ClientContext.ackMsg
    split <;> exact ⟨rfl, rfl⟩
  · rw [hnext]
    rw [hlog] at hm'
    rcases List.mem_append.mp hm' with hm' | hm'
    · exact h.bounded k' m' r' hm'
    · cases List.mem_singleton.mp hm'
  · rw [hconn] at hk'
    rw [hsent, h.unconnected k' hk']
  · rw [hsent, hacks]
    by_cases he : k = k'
    · subst he
      have hlen := congrArg List.length hu
      unfold Broker.unacked at hlen
      rw [List.length_drop, List.length_cons] at hlen
      rw [if_pos rfl]
      omega
    · rw [if_neg he, Nat.add_zero]
      exact h.within k'
  · rw [hconn] at hk'
    rw [hsess, Sess.modifyContext_contextOf] at hc'
    obtain ⟨hsub, heq⟩ := h.queue k' c' hk' hc'
    unfold settled at hsub heq ⊢
    rw [List.append_nil] at hsub heq ⊢
    rw [hsess, Sess.modifyContext_ctxs]
    by_cases he : k = k'
    · subst he
      rw [hc] at hc'
      cases hc'
      rw [hu] at hsub heq
      rw [if_pos rfl, hunacked]
      -- the PUBACK is for the oldest PUBLISH sent, so only that one can leave the queue
      exact hb.acknowledged hid hsub fun hr => heq (hrefused k hr)
    · have hne : c' ≠ c := fun h' => he (h.links.contextOf_inj hc (h' ▸ hc'))
      have hsame : b₁.unacked k' = b.unacked k' := by
        unfold Broker.unacked
        rw [hsent, hacks, if_neg he, Nat.add_zero]
      rw [if_neg hne, hsame]
      exact ⟨hsub, fun hr => heq (hrefused k' hr)⟩

/-- What an acknowledgement takes from the queues. -/
theorem Owed.release {msgId : Nat} {rest : List MbufId} {sess : Sess} (h : Owed settled b) (hb : Numbered b)
    (hc : b.sess.contextOf k = some c) (hu : b.unacked k = m :: rest) (hid : (b.bufs m).packetId = msgId)
    (hs : sess = b.sess.modifyContext c (·.ackMsg (fun m => (b.bufs m).msgId) msgId)) :
    ∀ c' x, x ∈ (b.sess.ctxs c').sendMsgQueue →
      x ∈ (sess.ctxs c').sendMsgQueue ∨ b.sess.contextOf k = some c' ∧ (b.unacked k).head? = some x := by
  intro c' x hx
  rw [hs, Sess.modifyContext_ctxs]
  by_cases he : c' = c
  · subst he
    rw [if_pos rfl]
    refine or_iff_not_imp_left.mpr fun hgone => ⟨hc, ?_⟩
    have hk : Connected (connects b.log) k := by
      by_contra hno
      unfold Broker.unacked at hu
      rw [h.unconnected k hno, List.drop_nil] at hu
      cases hu
    have hm : m ∈ (b.sess.ctxs c').sendMsgQueue := by
      apply (h.queue k c' hk hc).1.subset
      rw [hu]
      exact List.mem_cons_self
    have hxid : (b.bufs x).packetId = msgId := ClientContext.mem_ackMsg hx hgone
    rw [hu, List.inj_on_of_nodup_map (hb.differ c') hx hm (hxid.trans hid.symm)]
    rfl
  · rw [if_neg he]
    exact Or.inl hx

/-- **A PUBACK** of an obliging client. -/
theorem handlePubackMsg_owed {pkt : ByteStr} {r : Int} (h : Owed settled b) (hb : Numbered b)
    (htype : packetType pkt = .puback) (hoblig : ∀ msgId, decodePublishAck.decode pkt = some msgId →
      (b.unacked k).head?.map (fun m => (b.bufs m).packetId) = some msgId)
    (hrun : handlePubackMsg env k pkt b = .ok (r, b')) : Owed settled b' ∧ Releases k pkt b b' := by
  unfold handlePubackMsg at hrun
  cases hd : decodePublishAck.decode pkt with
  | none =>
      simp only [hd] at hrun
      cases hrun
      exact ⟨h, (Sends.refl _).toGrows.releases⟩
  | some msgId =>
      simp only [hd] at hrun
      rw [bind_ok] at hrun
      obtain ⟨c, b₁, hc, hrun⟩ := hrun
      rw [get_bind, set_bind] at hrun
      obtain ⟨m, hhead, hid⟩ := Option.map_eq_some_iff.mp (hoblig msgId hd)
      obtain ⟨rest, hu⟩ := List.head?_eq_some_iff.mp hhead
      obtain ⟨hof, rfl | ⟨hnone, ha, -⟩⟩ := clientContext_ok hc
      · have hack := h.acknowledge ((b₁.sess.ctxs c).sendMsgQueue.head?.map fun m => (b₁.bufs m).msgId) hb hof hu hid
        have hrelease : ∀ c' x, x ∈ (b₁.sess.ctxs c').sendMsgQueue →
            x ∈ ((b₁.sess.modifyContext c (·.ackMsg (fun m => (b₁.bufs m).msgId) msgId)).ctxs c').sendMsgQueue ∨
              Acknowledges b₁ k pkt c' x := by
          intro c' x hx
          refine (h.release hb hof hu hid rfl c' x hx).imp_right fun hgone => ?_
          have hxm : x = m := by
            have hhead' := hgone.2
            rw [hu] at hhead'
            exact (Option.some.inj hhead').symm
          exact ⟨htype, by rw [hxm, hid]; exact hd, hgone.1, hgone.2⟩
        cases hacked : (b₁.sess.ctxs c).acked (fun m => (b₁.bufs m).msgId) msgId with
        | none =>
            simp only [hacked] at hrun
            cases hrun
            refine ⟨hack, ⟨fun c' hn => ?_, fun c' _ x hx => hrelease c' x hx⟩⟩
            show Named (connects (b₁.log ++ _)) c'
            rwa [connects_quiet rfl]
        | some x =>
            simp only [hacked] at hrun
            cases hrun
            refine ⟨hack.quiet (quiet_of_same rfl rfl rfl rfl hack.links), ⟨fun c' hn => ?_, fun c' _ x hx => hrelease c' x hx⟩⟩
            show Named (connects (b₁.log ++ _)) c'
            rwa [connects_quiet rfl]
      · -- a connection that was sent something has a session
        unfold Broker.unacked at hu
        rw [h.unconnected k (h.links.not_connected ha hnone), List.drop_nil] at hu
        cases hu

/-! ### SUBSCRIBE -/

/-- **One topic.** -/
theorem addClientContext_owed {r : Int} (h : Owed settled b) (hb : Numbered b) (hn : Named (connects b.log) c)
    (hrun : addClientContext env t c b = .ok (r, b')) : Owed settled b' ∧ Sends b b' := by
  have hadd : ∀ ls : List Act, (∀ a ∈ ls, a.Plain) → Quiet b
      { b with sess := { b.sess with topicMgr := b.sess.topicMgr.addClientContext t c }, log := b.log ++ ls } := by
    intro ls hls
    refine quiet_topics ls hls rfl rfl rfl rfl (fun hl t' c' hc' => ?_) h.links
    rcases TopicMgr.mem_clients_add.mp hc' with hc' | ⟨-, rfl⟩
    · exact hl.subscribed t' c' hc'
    · exact hn
  have silent (hno : b.sess.topicMgr.retainMsg t = none ∨ (b.sess.ctxs c).mqttConnection = none)
      (hs : b' = { b with sess := b.sess.subscribe t c }) : Owed settled b' ∧ Sends b b' := by
    rw [subscribe_silent hno] at hs
    have hquiet := hadd [] fun _ h => by cases h
    rw [List.append_nil] at hquiet
    rw [hs]
    exact ⟨h.quiet hquiet, hquiet.sends⟩
  unfold addClientContext at hrun
  rw [get_bind] at hrun
  cases hret : b.sess.topicMgr.retainMsg t with
  | none =>
      simp only [hret] at hrun
      cases hrun
      exact silent (Or.inl hret) rfl
  | some m =>
      cases hconn : (b.sess.ctxs c).mqttConnection with
      | none =>
          simp only [hret, hconn] at hrun
          cases hrun
          exact silent (Or.inr hconn) rfl
      | some k =>
          simp only [hret, hconn] at hrun
          rw [set_bind] at hrun
          have hquiet := hadd [.retained c t m (b.bufs m).msgId] (plain_of rfl (fun _ => rfl) fun _ _ _ h => by cases h)
          have hstate : b.act (b.sess.subscribe t c) (.retained c t m (b.bufs m).msgId) = Broker.pended
              { b with sess := { b.sess with topicMgr := b.sess.topicMgr.addClientContext t c }
                       log := b.log ++ [.retained c t m (b.bufs m).msgId] } c m := by
            unfold Broker.act
            rw [subscribe_retained hret hconn]
            rfl
          rw [hstate] at hrun
          have hof : b.sess.contextOf k = some c := h.links.linked c k hn hconn
          have hk := h.links.connected_of_named hn hof
          rw [← hquiet.connects] at hn hk
          obtain ⟨howed, hs, -, -⟩ := ((h.quiet hquiet).pend hn hof).put hk (hb.counted (Or.inr ⟨t, hret⟩)) hrun
          rw [offering_nil] at howed
          exact ⟨howed, (hquiet.sends.trans pended_sends).trans hs⟩

/-- **The loop over the topics.** -/
theorem subscribeLoop_owed {u : Unit} (ts : List ByteStr) : ∀ b : Broker, Owed settled b → Numbered b → Serves k c b.sess →
    b.Deliverable c (b.retainedFor ts) → subscribeLoop env k ts b = .ok (u, b') → Owed settled b' ∧ Grows b b' := by
  induction ts with
  | nil =>
      intro b h _ _ _ hrun
      cases hrun
      exact ⟨h, (Sends.refl _).toGrows⟩
  | cons t ts ih =>
      intro b h hb hk hd hrun
      unfold subscribeLoop at hrun
      rw [bind_ok] at hrun
      obtain ⟨c', b₁, hc, hrun⟩ := hrun
      obtain ⟨rfl, rfl, hof, hstatus⟩ := clientContext_serves hk hc
      rw [bind_ok] at hrun
      obtain ⟨r, b₂, hadd, hrun⟩ := hrun
      obtain ⟨hb₂, hd₂⟩ := addClientContext_numbered hb hd hadd
      obtain ⟨h₂, hs₂⟩ := addClientContext_owed h hb (h.links.named_of_status hof hstatus) hadd
      obtain ⟨h', hg⟩ := ih b₂ h₂ hb₂ (addClientContext_serves hk hadd) hd₂ hrun
      exact ⟨h', hs₂.toGrows.trans hg⟩

theorem handleSubscribeMsg_owed {pkt : ByteStr} {r : Int} (h : Owed settled b) (hb : Numbered b)
    (hclear : ∀ c msg, b.sess.contextOf k = some c → (b.sess.ctxs c).clientStatus = .connected →
      Subscribe.decode.decode pkt = some msg → b.Deliverable c (b.retainedFor msg.topicsName))
    (hrun : handleSubscribeMsg env k pkt b = .ok (r, b')) : Owed settled b' ∧ Grows b b' := by
  unfold handleSubscribeMsg at hrun
  rw [bind_ok] at hrun
  obtain ⟨c, b₁, hc, hrun⟩ := hrun
  rw [get_bind] at hrun
  split at hrun
  · cases hrun
    have hquiet : Quiet b b' := (Frame.resp_ok clientContext_quiet hc : quieting.rel b b') h.links
    exact ⟨h.quiet hquiet, hquiet.sends.toGrows⟩
  · rename_i hstatus
    obtain ⟨rfl, hof⟩ := clientContext_connected hc (not_not.mp hstatus)
    cases hd : Subscribe.decode.decode pkt with
    | none =>
        simp only [hd] at hrun
        cases hrun
        exact ⟨h, (Sends.refl _).toGrows⟩
    | some msg =>
        simp only [hd] at hrun
        rw [set_bind, bind_ok] at hrun
        obtain ⟨res, b₂, hreply, hrun⟩ := hrun
        rw [bind_ok] at hrun
        obtain ⟨_, b₃, hloop, hrun⟩ := hrun
        cases hrun
        have hn : Named (connects b₁.log) c := h.links.named_of_status hof (not_not.mp hstatus)
        have hnote : Quiet b₁ (b₁.act (b₁.sess.modifyContext c (·.addSubcribeTopics msg.subTopics))
            (.subscribe k c msg.subTopics)) :=
          quiet_modifyContext (f := (·.addSubcribeTopics msg.subTopics)) (plain_of rfl (fun _ => rfl) fun _ _ _ h => by cases h)
            (fun _ => rfl) (fun hl => hl.modify (f := (·.addSubcribeTopics msg.subTopics)) ⟨rfl, rfl⟩ (Or.inl hn)) h.links
        have hquiet := hnote.trans ((Frame.resp_ok reply_quiet hreply : quieting.rel _ b₂) hnote.links)
        have hserves : Serves k c (b₁.sess.modifyContext c (·.addSubcribeTopics msg.subTopics)) := by
          refine fun _ => ⟨hof, ?_⟩
          rw [Sess.modifyContext_ctxs, if_pos rfl]
          exact not_not.mp hstatus
        have hnote' : Resting b₁ (b₁.act (b₁.sess.modifyContext c (·.addSubcribeTopics msg.subTopics))
            (.subscribe k c msg.subTopics)) :=
          resting_act (fun _ _ _ h => by cases h)
            (fun c' => queue_modifyContext (f := (·.addSubcribeTopics msg.subTopics)) (List.Sublist.refl _) c') fun _ => rfl
        have hrest := hnote'.trans (Frame.resp_ok (reply_resting (noPublish_subAck msg.msgId msg.topicsQos)) hreply)
        suffices hdel : b₂.Deliverable c (b₂.retainedFor msg.topicsName) by
          obtain ⟨howed, hgrows⟩ :=
            subscribeLoop_owed _ b₂ (h.quiet hquiet) (hb.rest hrest) (reply_serves hserves hreply) hdel hloop
          exact ⟨howed, hquiet.sends.toGrows.trans hgrows⟩
        rw [hrest.retainedFor]
        exact (hclear c msg hof (not_not.mp hstatus) hd).rest hb hb.retained_lt hrest.toSameMessages hrest.waiting
          ((hrest.queue c).append_right _) fun _ h => h

/-! ### CONNECT -/

/-- **The offline loop.** -/
theorem sendOffline_owed {r : Int} (ms : List MbufId) : ∀ (res : Int) (b : Broker), Owed (offering k ms) b →
    Connected (connects b.log) k → (∀ m ∈ ms, b.Counted m) → sendOffline env k res ms b = .ok (r, b') →
    Owed settled b' ∧ Grows b b' := by
  induction ms with
  | nil =>
      intro res b h _ _ hrun
      cases hrun
      rw [offering_nil] at h
      exact ⟨h, (Sends.refl _).toGrows⟩
  | cons m ms ih =>
      intro res b h hk hms hrun
      unfold sendOffline at hrun
      rw [bind_ok] at hrun
      obtain ⟨r₁, b₁, hput, hrun⟩ := hrun
      obtain ⟨h₁, hs, hrefused, -⟩ := h.put hk (hms m List.mem_cons_self) hput
      split at hrun
      · rename_i hr
        cases hrun
        exact ⟨h₁.give (hrefused hr), hs.toGrows⟩
      · rw [← hs.connects] at hk
        obtain ⟨h', hg⟩ := ih r₁ b₁ h₁ hk (fun m' hm' => (hms m' (List.mem_cons_of_mem m hm')).mono hs.toSameMessages) hrun
        exact ⟨h', hs.toGrows.trans hg⟩

/-- The label of a CONNECT: the session gets its connection, with all that is pending to be sent. -/
theorem Owed.connect {msg : Connect} {code : ConnAckCode} (h : Owed settled b) (hk : ¬ Connected (connects b.log) k)
    (hbufs : b'.bufs = b.bufs) (hnext : b'.nextBuf = b.nextBuf) (hlog : b'.log = b.log ++ [.connect k msg code c]) (hl : Links (connects b.log ++ [(k, c)]) b'.sess)
    (hof : ∀ k' ≠ k, b'.sess.contextOf k' = b.sess.contextOf k') (hself : b'.sess.contextOf k = some c)
    (hq : ∀ c', (b'.sess.ctxs c').sendMsgQueue = (b.sess.ctxs c').sendMsgQueue) :
    Owed (offering k (b.sess.ctxs c).sendMsgQueue) b' := by
  have hs : SameMessages b b' := .of_same hnext fun m => by rw [hbufs]; exact ⟨rfl, rfl⟩
  have hconn : connects b'.log = connects b.log ++ [(k, c)] := by
    rw [hlog, connects_append]
    rfl
  have hsent : ∀ k', b'.sent k' = b.sent k' := fun k' => by
    rw [h.bounded.sent_append hs hlog]
    exact List.append_nil _
  have hacks : ∀ k', b'.acks k' = b.acks k' := fun k' => by
    rw [Broker.acks_append hlog]
    rfl
  have hunacked : ∀ k', b'.unacked k' = b.unacked k' := fun k' => by
    unfold Broker.unacked
    rw [hsent, hacks]
  refine ⟨by rw [hconn]; exact hl, fun k' m' r' hm' => ?_, fun k' hk' => ?_, fun k' => ?_, fun k' c' hk' hc' => ?_⟩
  · rw [hnext]
    rw [hlog] at hm'
    rcases List.mem_append.mp hm' with hm' | hm'
    · exact h.bounded k' m' r' hm'
    · cases List.mem_singleton.mp hm'
  · rw [hconn, connected_snoc, not_or] at hk'
    rw [hsent, h.unconnected k' hk'.1]
  · rw [hsent, hacks]
    exact h.within k'
  · rw [hconn, connected_snoc] at hk'
    rw [hunacked, hq]
    by_cases he : k' = k
    · subst he
      rw [hself] at hc'
      cases hc'
      have hnone : b.unacked k' = [] := by
        unfold Broker.unacked
        rw [h.unconnected k' hk, List.drop_nil]
      rw [offering_self, hnone, List.nil_append]
      exact ⟨List.Sublist.refl _, fun _ => rfl⟩
    · rw [hof k' he] at hc'
      obtain ⟨hsub, heq⟩ := h.queue k' c' (hk'.resolve_right he) hc'
      unfold settled at hsub heq
      rw [offering_of_ne he]
      exact ⟨hsub, fun hr => heq fun hr₀ => hr (hr₀.mono h.bounded hs hlog)⟩

theorem connect_grows {msg : Connect} {code : ConnAckCode} (hlog : b'.log = b.log ++ [.connect k msg code c])
    (hq : ∀ c', (b'.sess.ctxs c').sendMsgQueue = (b.sess.ctxs c').sendMsgQueue) : Grows b b' where
  named c' hn := by
    rw [hlog, connects_append]
    exact named_snoc.mpr (Or.inl hn)
  queue c' _ := by rw [hq]

/-- The session that a CONNECT finds is offline once its old connection is closed. -/
theorem closeLast_offline {msg : Connect} {u : Unit} (hl : Links (connects b.log) b.sess)
    (hf : b.sess.registry.findClientContext msg.clientId = some c)
    (hrun : closeLast (b.sess.ctxs c).mqttConnection b = .ok (u, b')) :
    (b'.sess.ctxs c).mqttConnection = none ∧ (b'.sess.ctxs c).clientId = msg.clientId := by
  unfold closeLast at hrun
  cases hconn : (b.sess.ctxs c).mqttConnection with
  | none =>
      simp only [hconn] at hrun
      cases hrun
      exact ⟨hconn, hl.key _ c hf⟩
  | some last =>
      simp only [hconn] at hrun
      obtain ⟨c', hof, hs, -⟩ := handleClose_ok hrun
      have hlinked := hl.linked c last (hl.registered _ c hf) hconn
      rw [hof] at hlinked
      cases hlinked
      rw [hs, Sess.close_ctxs, if_pos rfl]
      exact ⟨rfl, hl.key _ c hf⟩

theorem closeLast_quiet {last : Option ConnId} : quieting.Resp (closeLast last) b := by
  unfold closeLast
  cases last with
  | none => exact Frame.resp_pure _
  | some last => exact handleClose_quiet

/-- **A first CONNECT** binds the connection to a session, and all that is pending is to be sent. -/
theorem bindSession_owed {msg : Connect} {u : Unit} (h : Owed settled b) (hk : ¬ Connected (connects b.log) k)
    (hrun : bindSession env k msg b = .ok (u, b')) :
    Grows b b' ∧
      ∃ c, Owed (offering k (b'.sess.ctxs c).sendMsgQueue) b' ∧ Connected (connects b'.log) k ∧ b'.sess.contextOf k = some c := by
  unfold bindSession at hrun
  rw [get_bind] at hrun
  cases hf : b.sess.registry.findClientContext msg.clientId with
  | none =>
      simp only [hf] at hrun
      rw [bind_ok] at hrun
      obtain ⟨c, b₁, hc, hrun⟩ := hrun
      cases hrun
      have hquiet : Quiet b b₁ := (Frame.resp_ok clientContext_quiet hc : quieting.rel b b₁) h.links
      obtain ⟨hof, hcases⟩ := clientContext_ok hc
      -- a context made just now is under no name yet
      have hf₁ : b₁.sess.registry.findClientContext msg.clientId = none := by
        rcases hcases with rfl | ⟨-, -, rfl⟩
        · exact hf
        · exact hf
      have h₁ := h.quiet hquiet
      rw [← hquiet.connects] at hk
      have hq : ∀ c', ((b₁.sess.register c msg).ctxs c').sendMsgQueue = (b₁.sess.ctxs c').sendMsgQueue := by
        intro c'
        rw [Sess.register_ctxs]
        split
        · rename_i he
          rw [he]
          rfl
        · rfl
      refine ⟨hquiet.sends.toGrows.trans (connect_grows rfl hq), c, ?_, ?_, hof⟩
      · show Owed (offering k ((b₁.sess.register c msg).ctxs c).sendMsgQueue) _
        rw [hq]
        exact h₁.connect hk rfl rfl rfl (h₁.links.register hk hof hf₁) (fun _ _ => rfl) hof hq
      · show Connected (connects (b₁.log ++ [.connect k msg (connAckCode msg) c])) k
        rw [connects_append]
        exact connected_snoc.mpr (Or.inr rfl)
  | some c =>
      simp only [hf] at hrun
      rw [bind_ok] at hrun
      obtain ⟨_, b₁, hclose, hrun⟩ := hrun
      rw [touch_bind_ok] at hrun
      obtain ⟨ha, hrun⟩ := hrun
      cases hrun
      have hquiet : Quiet b b₁ := (Frame.resp_ok closeLast_quiet hclose : quieting.rel b b₁) h.links
      -- the last holder has been closed, so `k` is the only one bound to the session
      obtain ⟨hoff, hkey⟩ := closeLast_offline h.links hf hclose
      have h₁ := h.quiet hquiet
      have hn : Named (connects b₁.log) c := by
        rw [hquiet.connects]
        exact h.links.registered _ c hf
      rw [← hquiet.connects] at hk
      have hlinks := h₁.links.resume hk ha hn hoff fun id hid => by rw [← h₁.links.key id c hid, hkey]
      have hq : ∀ c', ((b₁.sess.resume k c msg).ctxs c').sendMsgQueue = (b₁.sess.ctxs c').sendMsgQueue := by
        intro c'
        rw [Sess.resume_ctxs]
        split
        · rename_i he
          rw [he]
          rfl
        · rfl
      have hself : (b₁.sess.resume k c msg).contextOf k = some c := by
        rw [Sess.resume_contextOf, if_pos rfl]
      refine ⟨hquiet.sends.toGrows.trans (connect_grows rfl hq), c, ?_, ?_, hself⟩
      · show Owed (offering k ((b₁.sess.resume k c msg).ctxs c).sendMsgQueue) _
        rw [hq]
        refine h₁.connect hk rfl rfl rfl hlinks (fun k' hne => ?_) hself hq
        show (b₁.sess.resume k c msg).contextOf k' = _
        rw [Sess.resume_contextOf, if_neg hne]
      · show Connected (connects (b₁.log ++ [.connect k msg (connAckCode msg) c])) k
        rw [connects_append]
        exact connected_snoc.mpr (Or.inr rfl)

theorem stampConnect_quiet : quieting.Resp (stampConnect env k) b := by
  unfold stampConnect
  exact Frame.resp_bind clientContext_quiet fun _ _ _ => Frame.resp_modify (quiet_of_same rfl rfl rfl rfl)

/-- **A CONNECT.** The offline loop sends what is pending. -/
theorem handleConnectMsg_owed {pkt : ByteStr} {r : Int} (h : Owed settled b) (hb : Numbered b)
    (hk : ¬ Connected (connects b.log) k) (hrun : handleConnectMsg env k pkt b = .ok (r, b')) : Owed settled b' ∧ Grows b b' := by
  unfold handleConnectMsg at hrun
  cases hd : Connect.decode.decode pkt with
  | none =>
      simp only [hd] at hrun
      cases hrun
      exact ⟨h, (Sends.refl _).toGrows⟩
  | some msg =>
      simp only [hd] at hrun
      rw [bind_ok] at hrun
      obtain ⟨_, b₁, hopen, hrun⟩ := hrun
      rw [bind_ok] at hrun
      obtain ⟨res, b₂, hreply, hrun⟩ := hrun
      rw [bind_ok] at hrun
      obtain ⟨c, b₃, hc, hrun⟩ := hrun
      rw [get_bind] at hrun
      have hb₃ : Numbered b₃ := by
        have h₁ : Resting b b₁ := Frame.resp_ok openSession_resting hopen
        have h₂ : Resting b₁ b₂ := Frame.resp_ok (reply_resting (noPublish_connAck (connAckCode msg))) hreply
        exact hb.rest ((h₁.trans h₂).trans (Frame.resp_ok clientContext_resting hc))
      have hof := (clientContext_ok hc).1
      have hafter : Links (connects b₁.log) b₁.sess → Quiet b₁ b₃ := fun hl =>
        quieting.trans (Frame.resp_ok reply_quiet hreply) (Frame.resp_ok clientContext_quiet hc) hl
      unfold openSession at hopen
      split at hopen
      · -- no client id, no session: nothing is pending
        cases hopen
        have hquiet := hafter h.links
        have h₃ := h.quiet hquiet
        rw [← hquiet.connects] at hk
        obtain ⟨-, -, -, -, hnone⟩ := h₃.links.fresh k c hk hof
        rw [hnone] at hrun
        cases hrun
        exact ⟨h₃, hquiet.sends.toGrows⟩
      · rw [bind_ok] at hopen
        obtain ⟨_, b₀, hbind, hstamp⟩ := hopen
        obtain ⟨hgrows, c', h₀, hk₀, hof₀⟩ := bindSession_owed h hk hbind
        have hstamp' : Quiet b₀ b₁ := (Frame.resp_ok stampConnect_quiet hstamp : quieting.rel b₀ b₁) h₀.links
        have hquiet := hstamp'.trans (hafter hstamp'.links)
        -- neither the stamps nor the CONNACK bind another session to `k`
        have hsame := hquiet.sessions k c hk₀ hof
        rw [hof₀] at hsame
        cases hsame
        have h₃ := h₀.quiet hquiet
        rw [← hquiet.queues c (h₀.links.named_of_connected hk₀ hof₀)] at h₃
        rw [← hquiet.connects] at hk₀
        obtain ⟨h', hg⟩ := sendOffline_owed _ _ _ h₃ hk₀ (fun m hm => hb₃.counted (Or.inl ⟨c, hm⟩)) hrun
        exact ⟨h', (hgrows.trans hquiet.sends.toGrows).trans hg⟩

/-! ### Any packet -/

/-- **One packet** of an obliging client. -/
theorem process_owed {pkt : ByteStr} {r : Int × ByteStr} (h : Owed settled b) (hb : Numbered b) (hclear : PacketClear k pkt b)
    (hoblig : PacketObliging k pkt b) (hrun : process env k pkt b = .ok (r, b')) : Owed settled b' ∧ Releases k pkt b b' := by
  have kept {x : BrokerM Int} (hx : ∀ res b₁, x b = .ok (res, b₁) → Owed settled b₁ ∧ Releases k pkt b b₁)
      (h : keeping pkt x b = .ok (r, b')) : Owed settled b' ∧ Releases k pkt b b' := by
    unfold keeping at h
    rw [bind_ok] at h
    obtain ⟨res, b₁, hres, h⟩ := h
    cases h
    exact hx res _ hres
  have quietly {x : BrokerM Int} (hx : quieting.Resp x b) {res : Int} {b₁ : Broker} (hres : x b = .ok (res, b₁)) :
      Owed settled b₁ ∧ Releases k pkt b b₁ := by
    have hquiet : Quiet b b₁ := (Frame.resp_ok hx hres : quieting.rel b b₁) h.links
    exact ⟨h.quiet hquiet, hquiet.sends.toGrows.releases⟩
  unfold process at hrun
  cases htype : packetType pkt with
  | connect =>
      simp only [htype] at hrun
      exact kept (fun _ _ hx => (handleConnectMsg_owed h hb (hoblig.connect htype) hx).imp_right Grows.releases) hrun
  | publish =>
      simp only [htype] at hrun
      have hid := fun c msg hc hs hd => (hclear.publish htype c msg hc hs hd).1
      exact (handlePublishMsg_owed h hid hrun).imp_right Grows.releases
  | puback =>
      simp only [htype] at hrun
      exact kept (fun _ _ hx => handlePubackMsg_owed h hb htype (hoblig.puback htype) hx) hrun
  | subscribe =>
      simp only [htype] at hrun
      exact kept (fun _ _ hx => (handleSubscribeMsg_owed h hb (hclear.subscribe htype) hx).imp_right Grows.releases) hrun
  | unsubscribe =>
      simp only [htype] at hrun
      exact kept (fun _ _ hx => quietly handleUnsubscribeMsg_quiet hx) hrun
  | pingreq =>
      simp only [htype] at hrun
      exact kept (fun _ _ hx => quietly reply_quiet hx) hrun
  | disconnect =>
      simp only [htype] at hrun
      refine kept (fun res b₁ hx => ?_) hrun
      rw [bind_ok] at hx
      obtain ⟨_, b₂, hdis, hx⟩ := hx
      cases hx
      exact quietly handleDisconnectMsg_quiet hdis
  | _ =>
      simp only [htype] at hrun
      cases hrun
      exact ⟨h, (Sends.refl _).toGrows.releases⟩

/-! ## Moves -/

theorem handleAccept_quiet : quieting.Resp (handleAccept env) b := by
  unfold handleAccept
  refine Frame.resp_modify ?_
  refine quiet_of_tables [.accept b.sess.nextConn] rfl rfl rfl (plain_of rfl (fun _ => rfl) fun _ _ _ h => by cases h)
    fun hl => ⟨hl.accept, fun k c _ hc => ?_, fun _ _ => rfl⟩
  have hc' : (b.sess.accept).contextOf k = some c := hc
  unfold Sess.contextOf at hc' ⊢
  rw [Sess.accept_conns] at hc'
  split at hc'
  · cases hc'
  · exact hc'

theorem publishNotified_owed {u : Unit} {msg : Publish} (h : Owed settled b) (hm : b.Counted m)
    (hrun : publishNotified env m msg b = .ok (u, b')) : Owed settled b' ∧ Grows b b' := by
  unfold publishNotified at hrun
  split at hrun
  · exact publishAll_owed h hm hrun
  · exact publishTopic_owed h hm hrun

namespace Machine

/-- The clients of a read are obliging. -/
def Obliging (env : Env) (s : Machine) : Move → Prop
  | .next => ∀ k pkt b, s.Processes env k pkt b → PacketObliging k pkt b
  | _ => True

/-- A packet of the next event acknowledges the message. -/
def Acknowledged (env : Env) (s : Machine) (c : CtxId) (m : MbufId) : Prop :=
  ∃ k pkt b, s.Processes env k pkt b ∧ Acknowledges b k pkt c m

/-- A state within a move: every message of a session is still there, or was acknowledged in this move. -/
structure Tracks (env : Env) (s : Machine) (b : Broker) : Prop where
  named : ∀ c, Named (connects s.broker.log) c → Named (connects b.log) c
  queue : ∀ c, Named (connects s.broker.log) c → ∀ m ∈ (s.broker.sess.ctxs c).sendMsgQueue,
    m ∈ (b.sess.ctxs c).sendMsgQueue ∨ s.Acknowledged env c m

variable {s s' : Machine}

theorem Tracks.refl : s.Tracks env s.broker := ⟨fun _ hn => hn, fun _ _ _ hm => Or.inl hm⟩

theorem Tracks.grow (h : s.Tracks env b) (hg : Grows b b') : s.Tracks env b' :=
  ⟨fun c hn => hg.named c (h.named c hn), fun c hn m hm =>
    (h.queue c hn m hm).imp_left fun hm => (hg.queue c (h.named c hn)).subset hm⟩

theorem Tracks.release {pkt : ByteStr} (h : s.Tracks env b) (hp : s.Processes env k pkt b) (hr : Releases k pkt b b') :
    s.Tracks env b' := by
  refine ⟨fun c hn => hr.named c (h.named c hn), fun c hn m hm => ?_⟩
  rcases h.queue c hn m hm with hm | hm
  · exact (hr.queue c (h.named c hn) m hm).imp_right fun hack => ⟨k, pkt, b, hp, hack⟩
  · exact Or.inr hm

/-- What holds within a move. -/
structure Within (env : Env) (s : Machine) (b : Broker) : Prop where
  owed : Owed settled b
  tracks : s.Tracks env b

theorem Within.quiet (h : s.Within env b) (hq : quieting.rel b b') : s.Within env b' :=
  ⟨h.owed.quiet (hq h.owed.links), h.tracks.grow (hq h.owed.links).sends.toGrows⟩

theorem Within.between (env : Env) (mp : MsgPack) (s : Machine) : Between env mp fun b => Numbered b ∧ s.Within env b where
  same b b' hb hbufs hn hs hw hi hlog :=
    ⟨(Numbered.between env mp).same b b' hb.1 hbufs hn hs hw hi hlog, hb.2.quiet (quiet_of_same hbufs hn hs hlog)⟩
  close k cause u b b' hb h :=
    ⟨(Numbered.between env mp).close k cause u b b' hb.1 h, hb.2.quiet (Frame.resp_ok handleClose_quiet h)⟩
  output k r b b' hb h :=
    ⟨(Numbered.between env mp).output k r b b' hb.1 h, hb.2.quiet (Frame.resp_ok handleOutput_quiet h)⟩
  accept u b b' hb h := ⟨(Numbered.between env mp).accept u b b' hb.1 h, hb.2.quiet (Frame.resp_ok handleAccept_quiet h)⟩
  store r b b' hb h := ⟨(Numbered.between env mp).store r b b' hb.1 h, hb.2.quiet (Frame.resp_ok store_quiet h)⟩

/-- A packet within a move. -/
theorem Within.packet {pkt : ByteStr} {r : Int × ByteStr} (h : s.Within env b) (hb : Numbered b) (hp : s.Processes env k pkt b)
    (hclear : PacketClear k pkt b) (hoblig : PacketObliging k pkt b) (hrun : process env k pkt b = .ok (r, b')) :
    s.Within env b' := by
  obtain ⟨howed, hr⟩ := process_owed h.owed hb hclear hoblig hrun
  exact ⟨howed, h.tracks.release hp hr⟩

/-- **One move.** -/
theorem step_owed {mv : Move} (hfed : Fed mv) (hclear : s.Clear env mv) (hoblig : s.Obliging env mv)
    (hb : Coherent s.broker) (h : Owed settled s.broker) (hs : s.step env mp mv = .ok s') : s.Within env s'.broker := by
  have hstart : s.Within env s.broker := ⟨h, .refl⟩
  have pushed (buf : Buf) (store : MsgMemStore) : s.Within env (s.broker.pushed buf store).collect := by
    have hnew : s.Within env (s.broker.withBuf buf) := hstart.quiet quiet_newBuf
    exact hnew.quiet (quiet_of_same rfl rfl rfl rfl)
  cases mv with
  | wait now batch =>
      cases hs
      exact hstart.quiet (quiet_of_same rfl rfl rfl rfl)
  | next =>
      have hpkt : ∀ k pkt b res b', s.Processes env k pkt b → pkt.length < 2 ^ 32 → Numbered b ∧ s.Within env b →
          process env k pkt b = .ok (res, b') → Numbered b' ∧ s.Within env b' := fun k pkt b res b' hp hlen hI hrun =>
        ⟨process_numbered hI.1 hlen (hclear.1 k pkt b hp) hrun,
          hI.2.packet hI.1 hp (hclear.1 k pkt b hp) (hoblig k pkt b hp) hrun⟩
      refine (Machine.next_keeps (Within.between env mp s) hpkt (fun m ms msg u b b' hout hI hpub => ?_) hclear.2 hb hstart hs).2.2
      have hpop : s.Within env { b with notifyDeque := ms } := hI.quiet (quiet_of_same rfl rfl rfl rfl)
      obtain ⟨_, -, -, hid⟩ := hout.carries
      obtain ⟨howed, hg⟩ := publishNotified_owed hpop.owed ⟨hout.allocated, hid⟩ hpub
      exact ⟨howed, hpop.tracks.grow hg⟩
  | http header topic msg =>
      unfold Machine.step at hs
      simp only at hs
      split at hs
      · rename_i he
        cases hs
        obtain ⟨buf, store, -, rfl⟩ := notifyMqttPublish_pushes hfed hb.opened he
        exact pushed buf store
      · cases hs
  | bridge buf =>
      unfold Machine.step at hs
      simp only at hs
      split at hs
      · rename_i he
        cases hs
        obtain ⟨x, store, -, rfl⟩ := bridgePublish_pushes hfed hb.opened he
        exact pushed x store
      · cases hs

end Machine

/-! ## Whole runs -/

/-- What was sent on the connection of a session and not acknowledged is pending, in this order; it is all that is pending
    unless a message was refused. -/
def Broker.Delivers (b : Broker) : Prop :=
  ∀ k c, Connected (connects b.log) k → b.sess.contextOf k = some c →
    List.Sublist (b.unacked k) (b.sess.ctxs c).sendMsgQueue ∧ (¬ b.Refused k → (b.sess.ctxs c).sendMsgQueue = b.unacked k)

theorem Owed.delivers (h : Owed settled b) : b.Delivers := by
  intro k c hk hc
  have hq := h.queue k c hk hc
  unfold settled at hq
  rwa [List.append_nil] at hq

theorem Owed.started (h : Started env mp b) : Owed settled b := by
  obtain ⟨⟨n, hrestored⟩, hlog⟩ := h.tables
  have hconn : connects b.log = [] := by rw [hlog]; rfl
  have hsent : ∀ k, b.sent k = [] := fun k => by
    unfold Broker.sent
    rw [hlog]
    rfl
  refine ⟨by rw [hconn]; exact hrestored.links, fun k m r hm => ?_, fun k _ => hsent k, fun k => ?_, fun k c hk _ => ?_⟩
  · rw [hlog] at hm
    cases hm
  · unfold Broker.acks
    rw [hlog]
    exact Nat.zero_le _
  · rw [hconn] at hk
    exact absurd hk connected_nil

/-- What a run asks of messages and clients. -/
def Honest (env : Env) (s : Machine) (mv : Move) (_ : Machine) : Prop := Fed mv ∧ s.Clear env mv ∧ s.Obliging env mv

theorem RunsWhen.owed {b₀ : Broker} {s : Machine} (hb : Coherent b₀) (ho : Owed settled b₀)
    (h : RunsWhen env mp (Honest env) b₀ s) : Coherent s.broker ∧ Owed settled s.broker := by
  induction h with
  | start => exact ⟨hb, ho⟩
  | step _ _ hs hP ih =>
      exact ⟨Machine.step_coherent hP.1 hP.2.1 ih.1 hs, (Machine.step_owed hP.1 hP.2.1 hP.2.2 ih.1 ih.2 hs).owed⟩

/-- **Delivery over whole runs.** As long as identifiers identify and every client sends one CONNECT and acknowledges what it
    was sent, in order: what was sent on a connection and not acknowledged is pending, in the order of sending, and is all that
    is pending for its session unless a message was refused; the same holds in the middle of a read; and no move takes a
    message from the queue of a session, unless a packet of this move acknowledges it on a connection that it was sent on. -/
theorem runs_deliver {b₀ : Broker} {s : Machine} (hb : Started env mp b₀)
    (hheld : ∀ m, Holds b₀.sess m → (b₀.bufs m).Carries) (hdiffer : ∀ c, (b₀.ids (b₀.sess.ctxs c).sendMsgQueue).Nodup)
    (h : RunsWhen env mp (Honest env) b₀ s) :
    s.broker.Delivers ∧
      (s.Clear env .next → s.Obliging env .next → ∀ k pkt b, s.Processes env k pkt b → b.Delivers) ∧
      ∀ mv s', Honest env s mv s' → s.step env mp mv = .ok s' → ∀ c, Named (connects s.broker.log) c →
        ∀ m ∈ (s.broker.sess.ctxs c).sendMsgQueue, m ∉ (s'.broker.sess.ctxs c).sendMsgQueue → s.Acknowledged env c m := by
  obtain ⟨hcoherent, howed⟩ := h.owed (Coherent.started hb hheld hdiffer) (Owed.started hb)
  refine ⟨howed.delivers, fun hclear hoblig k pkt b hp => ?_, fun mv s' hhonest hs c hn m hm hgone => ?_⟩
  · have hwithin := (Machine.Within.between env mp s).processes ⟨hcoherent.numbered, howed, .refl⟩
      (fun k pkt b res b' hp hlen hI hrun => ⟨process_numbered hI.1 hlen (hclear.1 k pkt b hp) hrun,
        hI.2.packet hI.1 hp (hclear.1 k pkt b hp) (hoblig k pkt b hp) hrun⟩) hp
    exact hwithin.2.owed.delivers
  · obtain ⟨hfed, hclear, hoblig⟩ := hhonest
    exact ((Machine.step_owed hfed hclear hoblig hcoherent howed hs).tracks.queue c hn m hm).resolve_left hgone

/-- The test of an obliging packet. -/
def obligingTest (k : ConnId) (pkt : ByteStr) (b : Broker) : Bool :=
  match packetType pkt with
  | .connect => decide (k ∉ (connects b.log).map Prod.fst)
  | .puback => (decodePublishAck.decode pkt).all fun msgId =>
      decide ((b.unacked k).head?.map (fun m => (b.bufs m).packetId) = some msgId)
  | _ => true

theorem packetObliging_of_test {pkt : ByteStr} (h : obligingTest k pkt b = true) : PacketObliging k pkt b := by
  unfold obligingTest at h
  refine ⟨fun htype => ?_, fun htype msgId hd => ?_⟩
  · simp only [htype, decide_eq_true_eq] at h
    exact h
  · simp only [htype, hd] at h
    exact of_decide_eq_true h

def Machine.obligingMoveTest (s : Machine) : Move → Bool
  | .next => s.readTest obligingTest
  | _ => true

theorem Machine.obliging_of_test {s : Machine} {mv : Move} (h : s.obligingMoveTest mv = true) : s.Obliging env mv := by
  cases mv with
  | next => exact fun k pkt b hp => packetObliging_of_test (Machine.of_readTest h hp).1
  | _ => trivial

/-- A client that has acknowledged the first of two messages: the second one is pending, and is what was sent and not
    acknowledged. -/
theorem runs_deliver_acked : ∃ s, RunsWhen Env.calm packing (Honest Env.calm) {} s ∧ s.broker.Delivers ∧
    s.broker.ids (s.broker.unacked 0) = [2] ∧ s.broker.ids (s.broker.sess.ctxs (.conn 0)).sendMsgQueue = [2] := by
  have hplay : (Machine.initial.playWhen Env.calm packing (fun s mv _ => s.clearTest mv && s.obligingMoveTest mv) ackScript).any
      (fun s => decide (s.broker.ids (s.broker.unacked 0) = [2] ∧
        s.broker.ids (s.broker.sess.ctxs (.conn 0)).sendMsgQueue = [2])) = true := by decide +kernel
  obtain ⟨s, hs, hids⟩ := (Option.any_eq_true _ _).mp hplay
  obtain ⟨hunacked, hqueue⟩ := of_decide_eq_true hids
  have hstart : Started Env.calm packing {} := .empty
  have hrun := Machine.playWhen_reached ackScript (P := Honest Env.calm) (fun s mv _ hrun hmv htest => by
    rw [Bool.and_eq_true] at htest
    have hcoherent := (hrun.owed Coherent.empty (Owed.started hstart)).1
    exact ⟨ackScript_fed mv hmv, Machine.clear_of_test rfl hcoherent.numbered htest.1, Machine.obliging_of_test htest.2⟩)
    .start hs
  refine ⟨s, hrun, (runs_deliver hstart (fun m hm => ?_) (fun _ => List.nodup_nil) hrun).1, hunacked, hqueue⟩
  exact (Coherent.empty.numbered.held m hm).2

end MqttServer
