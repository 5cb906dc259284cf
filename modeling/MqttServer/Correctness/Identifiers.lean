import MqttServer.Correctness.Admission
import MqttServer.Correctness.Numbering

/-!
# `Correctness.Identifiers` — packet identifiers over whole runs

The counter of the broker has 64 bits and a packet identifier 16; the messages of the parent broker keep its identifiers; a
retained message keeps the one of the message it is a copy of; and in the bridge mode a client that stands in two topics is
sent a message twice. Where none of this gives a pending message the identifier of another one (`Machine.Clear`), identifiers
identify: in every state of every run a PUBACK for a pending message removes that message or none (`runs_unambiguous`).
-/

namespace MqttServer

open Lib Exec

variable {env : Env} {mp : MsgPack} {b b' b₁ : Broker} {k : ConnId} {c : CtxId} {m : MbufId} {t : ByteStr}

theorem process_numbered {pkt : ByteStr} {r : Int × ByteStr} (hb : Numbered b) (hlen : pkt.length < 2 ^ 32)
    (hclear : PacketClear k pkt b) (h : process env k pkt b = .ok (r, b')) : Numbered b' := by
  have kept {x : BrokerM Int} (hx : ∀ res b₁, x b = .ok (res, b₁) → Numbered b₁)
      (h : keeping pkt x b = .ok (r, b')) : Numbered b' := by
    unfold keeping at h
    rw [bind_ok] at h
    obtain ⟨res, b₁, hres, h⟩ := h
    cases h
    exact hx res _ hres
  unfold process at h
  cases htype : packetType pkt with
  | connect =>
      simp only [htype] at h
      exact kept (fun _ _ hx => hb.rest
        (Frame.resp_ok (handleConnectMsg_resting fun m hm => hb.sendable (Or.inl hm)) hx)) h
  | publish =>
      simp only [htype] at h
      exact handlePublishMsg_numbered hb hlen (hclear.publish htype) h
  | puback =>
      simp only [htype] at h
      exact kept (fun _ _ hx => hb.rest (Frame.resp_ok handlePubackMsg_resting hx)) h
  | subscribe =>
      simp only [htype] at h
      exact kept (fun _ _ hx => handleSubscribeMsg_numbered hb (hclear.subscribe htype) hx) h
  | unsubscribe =>
      simp only [htype] at h
      exact kept (fun _ _ hx => hb.rest (Frame.resp_ok handleUnsubscribeMsg_resting hx)) h
  | pingreq =>
      simp only [htype] at h
      exact kept (fun _ _ hx => hb.rest (Frame.resp_ok (reply_resting noPublish_pingResp) hx)) h
  | disconnect =>
      simp only [htype] at h
      refine kept (fun res b₁ hx => ?_) h
      rw [bind_ok] at hx
      obtain ⟨_, b₂, hdis, hx⟩ := hx
      cases hx
      exact hb.rest (Frame.resp_ok handleDisconnectMsg_resting hdis)
  | _ =>
      simp only [htype] at h
      cases h
      exact hb

/-! ## The packets of a read -/

section Framing

variable {σ ε : Type} {touch : Exec σ ε Unit} {process : Handler σ ε} {I : σ → Prop}

/-- A packet that is handed over lies within the buffer. -/
theorem Calls.length_le {fuel len offset : Nat} {mem : Nat → UInt8} {s s' : σ} {pkt : ByteStr}
    (h : Calls touch process fuel mem len offset s pkt s') : pkt.length ≤ len := by
  induction h with
  | now _ _ hr =>
      rw [slice_length]
      have := (remainLength_length hr).2
      omega
  | later _ _ _ _ _ _ ih => exact ih

/-- **What each packet keeps** the framing loop keeps. -/
theorem processLoop_keeps (ht : ∀ s s', I s → touch s = .ok ((), s') → I s') (fuel : Nat) :
    ∀ (mem : Nat → UInt8) (len offset : Nat) (s : σ), I s →
      (∀ pkt s₁, Calls touch process fuel mem len offset s pkt s₁ → I s₁ → ∀ r s₂, process pkt s₁ = .ok (r, s₂) → I s₂) →
      (∀ r s', processLoop touch process fuel mem len offset s = .ok (r, s') → I s') ∧
        ∀ pkt s₁, Calls touch process fuel mem len offset s pkt s₁ → I s₁ := by
  -- on the rounds of the loop: a call belongs to this round or to a later one
  induction fuel with
  | zero =>
      intro mem len offset s hs _
      refine ⟨fun r s' h => ?_, fun pkt s₁ h => by cases h⟩
      cases h
      exact hs
  | succ fuel ih =>
      intro mem len offset s hs hp
      refine ⟨fun r s' h => ?_, fun pkt s' h => ?_⟩
      · unfold processLoop at h
        rw [bind_ok] at h
        obtain ⟨_, s₁, htouch, h⟩ := h
        have hs₁ := ht s s₁ hs htouch
        by_cases ho : offset < len
        · rw [if_pos ho] at h
          cases hr : remainLength (RecvBuffer.shift mem offset) (len - offset) with
          | needMoreData =>
              simp only [hr] at h
              split at h
              · cases h
                exact hs₁
              · cases h
                exact hs₁
          | failture =>
              simp only [hr] at h
              cases h
              exact hs₁
          | length value bytes =>
              simp only [hr] at h
              rw [bind_ok] at h
              obtain ⟨⟨res, pkt'⟩, s₂, hproc, h⟩ := h
              have hs₂ := hp _ _ (.now htouch ho hr) hs₁ _ _ hproc
              by_cases hres : res < 0
              · simp only [if_pos hres] at h
                cases h
                exact hs₂
              · simp only [if_neg hres] at h
                exact (ih _ _ _ s₂ hs₂ fun pkt s₃ hc => hp pkt s₃ (.later htouch ho hr hproc hres hc)).1 r s' h
        · rw [if_neg ho] at h
          cases h
          exact hs₁
      · cases h with
        | now htouch ho hr => exact ht _ _ hs htouch
        | later htouch ho hr hproc hres hc =>
            have hs₂ := hp _ _ (.now htouch ho hr) (ht _ _ hs htouch) _ _ hproc
            exact (ih _ _ _ _ hs₂ fun pkt s₃ hc => hp pkt s₃ (.later htouch ho hr hproc hres hc)).2 pkt s' hc

end Framing

/-- The next event is a read on connection `k`, and its framing loop hands over the packet in state `b`. -/
def Machine.Processes (env : Env) (s : Machine) (k : ConnId) (pkt : ByteStr) (b : Broker) : Prop :=
  ∃ (r : Read) (output : Bool) (es : List Ready) (recv : RecvBuffer),
    s.batch = .conn k false (some (.bytes r)) output :: es ∧
    recv = (s.broker.recv k).receive (r.limit (maxBufSize - (s.broker.recv k).curBufPos)) ∧
    (r.limit (maxBufSize - (s.broker.recv k).curBufPos)).data ≠ [] ∧
    Calls (touch k) (process env k) (recv.curBufPos + 1) recv.mem recv.curBufPos 0 (s.receiving k) pkt b

/-- The buffer is not longer than it is. -/
theorem receive_limit_le {recv : RecvBuffer} {r : Read} (h : (r.limit (maxBufSize - recv.curBufPos)).data ≠ []) :
    (recv.receive (r.limit (maxBufSize - recv.curBufPos))).curBufPos ≤ maxBufSize := by
  show recv.curBufPos + (r.data.take (maxBufSize - recv.curBufPos)).length ≤ maxBufSize
  have hne : r.data.take (maxBufSize - recv.curBufPos) ≠ [] := h
  have hpos := List.length_pos_of_ne_nil hne
  rw [List.length_take] at hpos ⊢
  omega

/-- What holds between two packets and what the reactor does there keeps. -/
structure Between (env : Env) (mp : MsgPack) (I : Broker → Prop) : Prop where
  same : ∀ b b' : Broker, I b → b'.bufs = b.bufs → b'.nextBuf = b.nextBuf → b'.sess = b.sess →
    b'.notifyDeque = b.notifyDeque → b'.store.lastMsgId = b.store.lastMsgId → b'.log = b.log → I b'
  close : ∀ k cause u b b', I b → handleClose k cause b = .ok (u, b') → I b'
  output : ∀ k r b b', I b → handleOutput env k b = .ok (r, b') → I b'
  accept : ∀ u b b', I b → handleAccept env b = .ok (u, b') → I b'
  store : ∀ r b b', I b → store env mp false b = .ok (r, b') → I b'

section Between

variable {I : Broker → Prop}

theorem Between.busy (hI : Between env mp I) (hb : I b) (busy : List ConnId) : I { b with busy } :=
  hI.same _ _ hb rfl rfl rfl rfl rfl rfl

/-- The framing loop of the next event. -/
theorem Between.loop {s : Machine} {r : Read} {output : Bool} {es : List Ready} (hI : Between env mp I) (hb : I s.broker)
    (hbatch : s.batch = .conn k false (some (.bytes r)) output :: es)
    (hpkt : ∀ pkt b res b', s.Processes env k pkt b → pkt.length < 2 ^ 32 → I b → process env k pkt b = .ok (res, b') → I b')
    {recv : RecvBuffer} (hrecv : recv = (s.broker.recv k).receive (r.limit (maxBufSize - (s.broker.recv k).curBufPos)))
    (hne : (r.limit (maxBufSize - (s.broker.recv k).curBufPos)).data ≠ []) :
    (∀ res b', processLoop (touch k) (process env k) (recv.curBufPos + 1) recv.mem recv.curBufPos 0 (s.receiving k) =
        .ok (res, b') → I b') ∧
      ∀ pkt b, Calls (touch k) (process env k) (recv.curBufPos + 1) recv.mem recv.curBufPos 0 (s.receiving k) pkt b → I b := by
  subst hrecv
  refine processLoop_keeps (fun _ _ hs ht => ?_) _ _ _ _ _ (hI.same _ _ hb rfl rfl rfl rfl rfl rfl) fun pkt b hc hI' res b' hp => ?_
  · obtain ⟨rfl, -⟩ := touch_ok.mp ht
    exact hs
  · have hle := hc.length_le.trans (receive_limit_le hne)
    exact hpkt pkt b res b' ⟨r, output, es, _, hbatch, rfl, hne, hc⟩ (Nat.lt_of_le_of_lt hle (by decide)) hI' hp

/-- The state in which a packet of the next event is handed over. -/
theorem Between.processes {s : Machine} {pkt : ByteStr} (hI : Between env mp I) (hb : I s.broker)
    (hpkt : ∀ k pkt b res b', s.Processes env k pkt b → pkt.length < 2 ^ 32 → I b → process env k pkt b = .ok (res, b') → I b')
    (hp : s.Processes env k pkt b) : I b := by
  obtain ⟨r, output, es, recv, hbatch, hrecv, hne, hcalls⟩ := hp
  exact (hI.loop hb hbatch (hpkt k) hrecv hne).2 pkt b hcalls

/-- **A read.** -/
theorem Between.input {s : Machine} {r : Read} {output : Bool} {es : List Ready} {n : Int} (hI : Between env mp I)
    (hb : I s.broker) (hbatch : s.batch = .conn k false (some (.bytes r)) output :: es)
    (hpkt : ∀ pkt b res b', s.Processes env k pkt b → pkt.length < 2 ^ 32 → I b → process env k pkt b = .ok (res, b') → I b')
    (h : handleInput env k (.bytes r) { s.broker with busy := s.batch.filterMap Ready.conn? } = .ok (n, b')) : I b' := by
  have hbusy := hI.busy hb (s.batch.filterMap Ready.conn?)
  unfold handleInput at h
  rw [touch_bind_ok, get_bind] at h
  obtain ⟨-, h⟩ := h
  simp only at h
  split at h
  · cases h
    exact hbusy
  · rename_i hne
    rw [bind_ok] at h
    obtain ⟨_, b₁, hstamp, h⟩ := h
    cases hstamp
    rw [bind_ok] at h
    obtain ⟨recv, b₂, hloop, h⟩ := h
    have hb₂ : I b₂ := (hI.loop hb hbatch hpkt rfl hne).1 _ _ hloop
    cases recv with
    | none =>
        cases h
        exact hb₂
    | some recv =>
        cases h
        exact hI.same _ _ hb₂ rfl rfl rfl rfl rfl rfl

/-- **An event of a connection.** -/
theorem Between.conn {s : Machine} {hup : Bool} {input : Option ReadOut} {output : Bool} {es : List Ready} {u : Unit}
    (hI : Between env mp I) (hb : I s.broker) (hbatch : s.batch = .conn k hup input output :: es)
    (hpkt : ∀ k pkt b res b', s.Processes env k pkt b → pkt.length < 2 ^ 32 → I b → process env k pkt b = .ok (res, b') → I b')
    (h : runConn env k hup input output { s.broker with busy := s.batch.filterMap Ready.conn? } = .ok (u, b')) : I b' := by
  have hbusy := hI.busy hb (s.batch.filterMap Ready.conn?)
  unfold runConn at h
  rw [touch_bind_ok] at h
  obtain ⟨-, h⟩ := h
  split at h
  · exact hI.close _ _ _ _ _ hbusy h
  · rename_i hhup
    rw [bind_ok] at h
    obtain ⟨n, b₁, hin, h⟩ := h
    have hb₁ : I b₁ := by
      cases input with
      | none =>
          cases hin
          exact hbusy
      | some out =>
          cases out with
          | bytes r =>
              rw [Bool.eq_false_iff.mpr hhup] at hbatch
              exact hI.input hb hbatch (hpkt k) hin
          | again =>
              unfold runInput handleInput at hin
              rw [touch_bind_ok, get_bind] at hin
              obtain ⟨-, hin⟩ := hin
              cases hin
              exact hbusy
          | closed =>
              unfold runInput handleInput at hin
              rw [touch_bind_ok, get_bind] at hin
              obtain ⟨-, hin⟩ := hin
              cases hin
              exact hbusy
    split at h
    · exact hI.close _ _ _ _ _ hb₁ h
    · split at h
      · rw [bind_ok] at h
        obtain ⟨_, b₂, hout, h⟩ := h
        cases h
        exact hI.output _ _ _ _ hb₁ hout
      · cases h
        exact hb₁

/-- **An event** that drains nothing. -/
theorem Between.event {s : Machine} {e : Ready} {es : List Ready} {u : Unit} (hI : Between env mp I) (hb : I s.broker)
    (hbatch : s.batch = e :: es) (hne : e ≠ .notify)
    (hpkt : ∀ k pkt b res b', s.Processes env k pkt b → pkt.length < 2 ^ 32 → I b → process env k pkt b = .ok (res, b') → I b')
    (h : runEvent env mp e { s.broker with busy := s.batch.filterMap Ready.conn? } = .ok (u, b')) : I b' := by
  have hbusy := hI.busy hb (s.batch.filterMap Ready.conn?)
  cases e with
  | accept => exact hI.accept _ _ _ hbusy h
  | conn k hup input output => exact hI.conn hb hbatch hpkt h
  | notify => exact absurd rfl hne
  | timer =>
      unfold runEvent at h
      simp only at h
      rw [bind_ok] at h
      obtain ⟨_, b₁, hs, h⟩ := h
      cases h
      exact hI.store _ _ _ hbusy hs

end Between

/-- Identifiers between two packets. -/
theorem Numbered.between (env : Env) (mp : MsgPack) : Between env mp Numbered where
  same b b' hb hbufs hn hs hw hi hlog := hb.rest (resting_of_same hbufs hn hs hw hi hlog)
  close k cause u b b' hb h := hb.rest (Frame.resp_ok handleClose_resting h)
  output k r b b' hb h := hb.rest (Frame.resp_ok handleOutput_resting h)
  accept u b b' hb h := by
    cases h
    refine hb.rest ?_
    exact resting_of_tables [.accept b.sess.nextConn] rfl rfl (fun _ => List.Sublist.refl _) (fun _ => rfl) rfl rfl rfl
      fun a ha => by
        rw [List.mem_singleton.mp ha]
        exact fun _ _ _ h => by cases h
  store r b b' hb h := hb.rest (Frame.resp_ok store_resting h)

/-! ## Messages of other threads -/

/-- A message of another thread is new, and has its identifier in its packet. -/
theorem Made.carries {buf : Buf} (h : Made buf) (hne : buf.packetId ≠ 0) : buf.1.readPos = 0 ∧ buf.Carries := by
  have hread : buf.1.readPos = 0 := by
    cases h with
    | http s p dup msgId now bytes hs hp he => exact Buf.make_readPos _ _ _
    | bridge topic garbage start rounds bytes msg now hbuf hd => exact Buf.make_readPos _ _ _
  refine ⟨hread, ?_⟩
  cases h with
  | http s p dup msgId now bytes hs hp he =>
      obtain ⟨hfit, hsize⟩ := publishParams_fits hs hp he
      obtain ⟨bytes', he', hdec⟩ := publishParams_packet hs hp msgId dup
      rw [he] at he'
      cases he'
      obtain ⟨msg, hd, hfields⟩ := Option.map_eq_some_iff.mp hdec
      refine Buf.carries_of_decode hread (by rw [Buf.tag_unread, Buf.make_unread hfit hsize]; exact hd) ?_ hne
      exact congrArg (fun f => f.2.2.1) hfields
  | bridge topic garbage start rounds bytes msg now hbuf hd =>
      have hsound := TCPClient.svc_sound topic rounds _ (.opened garbage start) bytes hbuf
      have hsize : bytes.length < 2 ^ 32 := Nat.lt_of_le_of_lt hsound.1 (by decide)
      refine Buf.carries_of_decode hread (by rw [Buf.tag_unread, Buf.make_unread (Nat.le_refl _) hsize]; exact hd) ?_ hne
      exact (Nat.mod_eq_of_lt (Publish.msgId_lt hd)).symm

/-- The messages in the notify queue have not been read, and carry their identifiers. -/
def Broker.Primed (b : Broker) : Prop := ∀ w ∈ b.notifyDeque, (b.bufs w).1.readPos = 0 ∧ (b.bufs w).Carries

theorem Broker.Primed.keep (h : b.Primed) (hl : Leaves b b') : b'.Primed := by
  intro w hw
  rw [hl.deque] at hw
  rw [hl.bufs w hw]
  exact h w hw

/-- A message more in the queue. -/
theorem Numbered.push {buf : Buf} (h : Numbered b) (hfree : b.Free buf.packetId) (store : MsgMemStore) :
    Numbered (b.pushed buf store) := by
  have hself : (b.pushed buf store).bufs b.nextBuf = buf := Function.update_self _ _ _
  have hb : Numbered { b.withBuf buf with store } := (h.rest resting_newBuf).withStore store
  have hsame : SameMessages b (b.pushed buf store) := .of_new rfl rfl
  refine ⟨hb.held, hb.puts, hb.differ, fun w hw => ?_, fun w hw x hx => ?_, ?_⟩
  · rcases List.mem_append.mp hw with hw | hw
    · exact Nat.lt_succ_of_lt (h.waits w hw)
    · rw [List.mem_singleton.mp hw]
      exact Nat.lt_succ_self _
  · rcases List.mem_append.mp hw with hw | hw
    · exact hb.apart w hw x hx
    · rw [List.mem_singleton.mp hw, hself, hsame.packetId (h.pending hx)]
      exact hfree.2 x (Or.inl hx)
  · show ((b.notifyDeque ++ [b.nextBuf]).map fun x => ((b.pushed buf store).bufs x).packetId).Nodup
    have hold : b.notifyDeque.map (fun x => ((b.pushed buf store).bufs x).packetId) = b.ids b.notifyDeque := hsame.ids h.waits
    rw [List.map_append, hold, List.nodup_append]
    refine ⟨h.queued, List.nodup_singleton _, fun x hx y hy => ?_⟩
    obtain ⟨w, hw, rfl⟩ := List.mem_map.mp hx
    rw [List.map_singleton, List.mem_singleton] at hy
    rw [hy, hself]
    exact hfree.2 w (Or.inr hw)

/-- `pop_front`: the first message can be published. -/
theorem Numbered.pop {ms : List MbufId} (h : Numbered b) (hp : b.Primed) (hq : b.notifyDeque = m :: ms) :
    Numbered { b with notifyDeque := ms } ∧ Outgoing { b with notifyDeque := ms } m ∧ (b.bufs m).1.readPos = 0 ∧
      ∀ c, Unqueued { b with notifyDeque := ms } m c := by
  have hin : m ∈ b.notifyDeque := by
    rw [hq]
    exact List.mem_cons_self
  have hrest : ∀ w ∈ ms, w ∈ b.notifyDeque := fun w hw => by
    rw [hq]
    exact List.mem_cons_of_mem m hw
  have hqueued : (b.ids (m :: ms)).Nodup := hq ▸ h.queued
  obtain ⟨hfirst, hnd⟩ := List.nodup_cons.mp hqueued
  refine ⟨⟨h.held, h.puts, h.differ, fun w hw => h.waits w (hrest w hw), fun w hw => h.apart w (hrest w hw), hnd⟩,
    ⟨h.waits m hin, (hp m hin).2, fun w hw he => hfirst ?_⟩, (hp m hin).1, fun c x hx => h.apart m hin x ⟨c, hx⟩⟩
  exact List.mem_map.mpr ⟨w, hw, he.symm⟩

/-- No client stands in the subscriber sets of two topics. -/
def OneTopic (b : Broker) : Prop := ∀ t t' c, c ∈ b.sess.topicMgr.clients t → c ∈ b.sess.topicMgr.clients t' → t = t'

theorem OneTopic.spread (h : OneTopic b) (hs : Spread b b') : OneTopic b' :=
  fun t t' c ht ht' => h t t' c (hs.clients t c ht) (hs.clients t' c ht')

theorem publishNotified_numbered {u : Unit} {msg : Publish} (hb : Numbered b) (hm : Outgoing b m)
    (hread : (b.bufs m).1.readPos = 0) (hnew : ∀ c, Unqueued b m c) (hone : env.mqttBridge = true → OneTopic b)
    (h : publishNotified env m msg b = .ok (u, b')) : Numbered b' ∧ Spread b b' := by
  unfold publishNotified at h
  split at h
  · rename_i hbridge
    exact publishAll_numbered hb hm hnew (hone hbridge) h
  · exact publishTopic_numbered hb hm hread hnew h

/-- Publishing a message leaves the others alone. -/
theorem publishNotified_tidy {u : Unit} {msg : Publish} (hb : Tidy (· = m) b)
    (h : publishNotified env m msg b = .ok (u, b')) : Tidy idle b' ∧ Leaves b b' := by
  have hresp : (prims env { pub := (· = m) }).Resp (publishNotified env m msg) b := by
    unfold publishNotified
    split
    · exact publishAll_prims (Or.inl rfl)
    · exact publishTopic_prims (Or.inl rfl)
  have hprims : Prims env { pub := (· = m) } b b' := Frame.resp_ok hresp h
  obtain ⟨ht, hl⟩ := hprims.tidy (fun h => h) hb
  exact ⟨ht.stop, hl⟩

/-- **The drain loop**, with what publishing a message of the queue keeps. -/
theorem notifyLoop_keeps {I : Broker → Prop} {r : Int}
    (hI : ∀ m ms msg u b b', Outgoing { b with notifyDeque := ms } m → I b →
      publishNotified env m msg { b with notifyDeque := ms } = .ok (u, b') → I b')
    (ms : List MbufId) : ∀ b : Broker, b.notifyDeque = ms → Tidy idle b → b.Primed → Numbered b ∧ I b →
      (env.mqttBridge = true → OneTopic b) → notifyLoop env ms b = .ok (r, b') → Numbered b' ∧ I b' := by
  induction ms with
  | nil =>
      intro b _ _ _ hb _ h
      cases h
      exact hb
  | cons m ms ih =>
      intro b hq ht hp hb hone h
      have hin : m ∈ b.notifyDeque := by
        rw [hq]
        exact List.mem_cons_self
      obtain ⟨-, -, htype, hdec⟩ := ht.waiting m hin
      obtain ⟨msg, hd⟩ := Option.isSome_iff_exists.mp hdec
      unfold notifyLoop at h
      rw [modify_bind, get_bind, if_pos htype] at h
      simp only [hd] at h
      rw [bind_ok] at h
      obtain ⟨_, b₁, hpub, h⟩ := h
      obtain ⟨hpop, hout, hread, hnew⟩ := hb.1.pop hp hq
      obtain ⟨hb₁, hs⟩ := publishNotified_numbered hpop hout hread hnew hone hpub
      obtain ⟨ht₁, hl⟩ := publishNotified_tidy (ht.pop hq) hpub
      have hp₁ : b₁.Primed := by
        refine Broker.Primed.keep (b := { b with notifyDeque := ms }) (fun w hw => hp w ?_) hl
        rw [hq]
        exact List.mem_cons_of_mem m hw
      exact ih b₁ hl.deque ht₁ hp₁ ⟨hb₁, hI m ms msg _ b b₁ hout hb.2 hpub⟩
        (fun hbridge => OneTopic.spread (b := { b with notifyDeque := ms }) (hone hbridge) hs) h

/-! ## Moves -/

/-- **What a move needs.** The identifier that a message of another thread is given is free; every packet of a read meets its
    condition; and in the bridge mode no client stands in two topics when the notify queue is drained. -/
def Machine.Clear (env : Env) (s : Machine) : Move → Prop
  | .wait _ _ => True
  | .next => (∀ k pkt b, s.Processes env k pkt b → PacketClear k pkt b) ∧
      (env.mqttBridge = true → (∃ es, s.batch = .notify :: es) → OneTopic s.broker)
  | .http _ _ _ => s.broker.Free (s.broker.nextMsgId % 65536)
  | .bridge buf => ∀ msg, Publish.decode.decode buf = some msg → s.broker.Free msg.msgId

theorem Numbered.collect (h : Numbered b) : Numbered b.collect := h.withStore _

/-- What the invariant of a run says between two moves. -/
structure Coherent (b : Broker) : Prop where
  tidy : Tidy idle b
  opened : b.notifyOpen = true
  primed : b.Primed
  numbered : Numbered b

theorem Broker.pushed_new {buf : Buf} {store : MsgMemStore} : (b.pushed buf store).bufs b.nextBuf = buf :=
  Function.update_self _ _ _

/-- The identifier of a message from the HTTP server. -/
theorem notifyMqttPublish_stamps {header : FixedHeader} {topic msg : ByteStr} {u : Unit}
    (h : notifyMqttPublish header topic msg b = .ok (u, b')) : (b'.bufs b.nextBuf).msgId = b.nextMsgId := by
  have registered {m : MbufId} {type : MsgType} {size : Nat} {bytes : Nat → ByteStr} {b₁ : Broker}
      (hr : registBuf type size bytes b = .ok (m, b₁)) : (b₁.bufs b.nextBuf).msgId = b.nextMsgId := by
    obtain ⟨-, store, rfl⟩ := registBuf_ok hr
    have hself : (b.withBuf ((Buf.make size b.now (bytes b.nextMsgId)).tag b.nextMsgId type true)).bufs b.nextBuf = _ :=
      Function.update_self _ _ _
    show ((b.withBuf _).bufs b.nextBuf).msgId = _
    rw [hself]
    rfl
  unfold notifyMqttPublish at h
  rw [get_bind] at h
  cases henc : Publish.encode { header, topicName := topic, msgId := (b.store.lastMsgId + 1) % 2 ^ 64 % 65536, payload := msg }
      (msg.length + topic.length + 8) with
  | none =>
      simp only [henc] at h
      rw [bind_ok] at h
      obtain ⟨m, b₁, hr, h⟩ := h
      cases h
      exact registered hr
  | some bytes =>
      simp only [henc] at h
      rw [bind_ok] at h
      obtain ⟨m, b₁, hr, h⟩ := h
      have hbufs : b'.bufs = b₁.bufs := by
        unfold notify at h
        rw [modify_apply] at h
        cases h
        split <;> rfl
      rw [hbufs]
      exact registered hr

theorem bridgePublish_stamps {buf : ByteStr} {msg : Publish} {u : Unit} (hd : Publish.decode.decode buf = some msg)
    (h : bridgePublish buf b = .ok (u, b')) : (b'.bufs b.nextBuf).msgId = msg.msgId := by
  unfold bridgePublish at h
  simp only [hd] at h
  rw [get_bind, bind_ok] at h
  obtain ⟨m, b₁, hn, h⟩ := h
  obtain ⟨rfl, rfl⟩ := newBuf_ok hn
  have hbufs : b'.bufs = (b.withBuf ((Buf.make buf.length b.now buf).tag msg.msgId .publish false)).bufs := by
    unfold notify at h
    rw [modify_apply] at h
    cases h
    split <;> rfl
  have hself : (b.withBuf ((Buf.make buf.length b.now buf).tag msg.msgId .publish false)).bufs b.nextBuf = _ :=
    Function.update_self _ _ _
  rw [hbufs, hself]
  rfl

/-- A message of another thread with an identifier that is free. -/
theorem Coherent.push {buf : Buf} (h : Coherent b) (hbuf : Made buf) (hfree : b.Free buf.packetId) (store : MsgMemStore) :
    Coherent (b.pushed buf store).collect where
  tidy := (h.tidy.push hbuf.wellFormed).collect
  opened := h.opened
  primed w hw := by
    rcases List.mem_append.mp hw with hw | hw
    · have hother : (b.pushed buf store).bufs w = b.bufs w :=
        Function.update_of_ne (Nat.ne_of_lt (h.tidy.waiting w hw).1) _ _
      have hw' := h.primed w hw
      rwa [← hother] at hw'
    · rw [List.mem_singleton.mp hw]
      have hself : (b.pushed buf store).bufs b.nextBuf = buf := Broker.pushed_new
      have hnew := hbuf.carries hfree.1
      rwa [← hself] at hnew
  numbered := (h.numbered.push hfree store).collect

/-- **The next event**, with what packets, publishing and the reactor keep. -/
theorem Machine.next_keeps {I : Broker → Prop} {s s' : Machine} (hI : Between env mp fun b => Numbered b ∧ I b)
    (hpkt : ∀ k pkt b res b', s.Processes env k pkt b → pkt.length < 2 ^ 32 → Numbered b ∧ I b →
      process env k pkt b = .ok (res, b') → Numbered b' ∧ I b')
    (hpub : ∀ m ms msg u b b', Outgoing { b with notifyDeque := ms } m → I b →
      publishNotified env m msg { b with notifyDeque := ms } = .ok (u, b') → I b')
    (hone : env.mqttBridge = true → (∃ es, s.batch = .notify :: es) → OneTopic s.broker) (hb : Coherent s.broker)
    (hi : I s.broker) (h : s.step env mp .next = .ok s') : s'.broker.Primed ∧ Numbered s'.broker ∧ I s'.broker := by
  have hcollect : ∀ b : Broker, Numbered b ∧ I b → Numbered b.collect ∧ I b.collect := fun b hb =>
    hI.same b b.collect hb rfl rfl rfl rfl rfl rfl
  unfold Machine.step at h
  cases hbatch : s.batch with
  | nil =>
      simp only [hbatch] at h
      cases h
      exact ⟨hb.primed, hb.numbered, hi⟩
  | cons e es =>
      simp only [hbatch] at h
      split at h
      · rename_i b₁ he
        cases h
        have ht := hb.tidy.wait s.broker.now ((e :: es).filterMap Ready.conn?)
        by_cases hn : e = .notify
        · subst hn
          unfold runEvent handleNotify at he
          simp only at he
          rw [get_bind, bind_ok] at he
          obtain ⟨r, b₂, hloop, he⟩ := he
          obtain ⟨rfl, -, hempty, -⟩ := notifyLoop_tidy _ _ rfl ht hloop
          rw [if_neg (by decide)] at he
          cases he
          refine ⟨fun w hw => ?_, hcollect _ ?_⟩
          · have hw' : w ∈ b₁.notifyDeque := hw
            rw [hempty] at hw'
            cases hw'
          · have hbusy := hI.busy ⟨hb.numbered, hi⟩ ((Ready.notify :: es).filterMap Ready.conn?)
            exact notifyLoop_keeps hpub _ _ rfl ht hb.primed hbusy (fun hbridge => hone hbridge ⟨es, hbatch⟩) hloop
        · have hresp : (prims env { file := True }).Resp (runEvent env mp e)
              { s.broker with busy := (e :: es).filterMap Ready.conn? } := runEvent_prims trivial hn
          have hprims : Prims env { file := True } _ b₁ := Frame.resp_ok hresp he
          obtain ⟨-, hl⟩ := hprims.tidy (fun h => h) ht
          rw [← hbatch] at he
          refine ⟨fun w hw => ?_, hcollect _ (hI.event ⟨hb.numbered, hi⟩ hbatch hn hpkt he)⟩
          exact Broker.Primed.keep hb.primed ⟨hl.deque, hl.opened, hl.bufs⟩ w hw
      · cases h

theorem Machine.next_numbered {s s' : Machine} (hclear : s.Clear env .next) (hb : Coherent s.broker)
    (h : s.step env mp .next = .ok s') : s'.broker.Primed ∧ Numbered s'.broker := by
  obtain ⟨hpackets, hone⟩ := hclear
  have hI : Between env mp fun b => Numbered b ∧ True := by
    simp only [and_true]
    exact Numbered.between env mp
  obtain ⟨hp, hn, -⟩ := Machine.next_keeps hI
    (fun k pkt b res b' hproc hlen hI hrun => ⟨process_numbered hI.1 hlen (hpackets k pkt b hproc) hrun, trivial⟩)
    (fun _ _ _ _ _ _ _ _ _ => trivial) hone hb trivial h
  exact ⟨hp, hn⟩

/-- **One move.** -/
theorem Machine.step_coherent {s s' : Machine} {mv : Move} (hfed : Fed mv) (hclear : s.Clear env mv) (hb : Coherent s.broker)
    (h : s.step env mp mv = .ok s') : Coherent s'.broker := by
  cases mv with
  | wait now batch =>
      cases h
      exact ⟨hb.tidy.wait now s.broker.busy, hb.opened, hb.primed, hb.numbered.rest (resting_of_same rfl rfl rfl rfl rfl rfl)⟩
  | next =>
      have hmove := Machine.step_queue hfed hb.tidy hb.opened h
      obtain ⟨ht', ho'⟩ := hmove.tidy hb.tidy hb.opened
      obtain ⟨hprimed, hnumbered⟩ := Machine.next_numbered hclear hb h
      exact ⟨ht', ho', hprimed, hnumbered⟩
  | http header topic msg =>
      unfold Machine.step at h
      simp only at h
      split at h
      · rename_i he
        cases h
        have hid := notifyMqttPublish_stamps he
        obtain ⟨buf, store, hmade, rfl⟩ := notifyMqttPublish_pushes hfed hb.opened he
        rw [Broker.pushed_new] at hid
        refine hb.push hmade ?_ store
        rw [Buf.packetId, hid]
        exact hclear
      · cases h
  | bridge buf =>
      have hclear' : ∀ msg, Publish.decode.decode buf = some msg → s.broker.Free msg.msgId := hclear
      unfold Machine.step at h
      simp only at h
      split at h
      · rename_i he
        cases h
        obtain ⟨topic, garbage, start, rounds, hbuf⟩ := hfed
        have hsound := TCPClient.svc_sound topic rounds _ (.opened garbage start) buf hbuf
        obtain ⟨msg, hd⟩ := Option.isSome_iff_exists.mp hsound.2
        have hid := bridgePublish_stamps hd he
        obtain ⟨x, store, hmade, rfl⟩ := bridgePublish_pushes ⟨topic, garbage, start, rounds, hbuf⟩ hb.opened he
        rw [Broker.pushed_new] at hid
        refine hb.push hmade ?_ store
        rw [Buf.packetId, hid, Nat.mod_eq_of_lt (Publish.msgId_lt hd)]
        exact hclear' msg hd
      · cases h

/-! ## Whole runs -/

/-- **Identifiers that identify.** -/
structure Unambiguous (b : Broker) : Prop where
  carries : ∀ k m r, .put k m r ∈ b.log → packetType (b.bufs m).packet = .publish → (b.bufs m).Carries
  differ : ∀ c, (b.ids (b.sess.ctxs c).sendMsgQueue).Nodup
  acks : ∀ env k c m msg pkt r b', b.sess.contextOf k = some c → m ∈ (b.sess.ctxs c).sendMsgQueue →
    Publish.decode.decode (b.bufs m).packet = some msg → decodePublishAck.decode pkt = some msg.msgId →
    handlePubackMsg env k pkt b = .ok (r, b') →
    ∀ x ∈ (b.sess.ctxs c).sendMsgQueue, x ∉ (b'.sess.ctxs c).sendMsgQueue → x = m

theorem ClientContext.mem_ackMsg {x : ClientContext} {idOf : MbufId → Nat} {msgId : Nat} (hm : m ∈ x.sendMsgQueue)
    (hgone : m ∉ (x.ackMsg idOf msgId).sendMsgQueue) : idOf m % 65536 = msgId := by
  unfold ClientContext.ackMsg ClientContext.acked at hgone
  cases hq : x.sendMsgQueue with
  | nil =>
      rw [hq] at hm
      cases hm
  | cons y ys =>
      simp only [hq] at hgone
      by_cases hid : idOf y % 65536 = msgId
      · rw [hq] at hm
        rcases List.mem_cons.mp hm with rfl | hm
        · exact hid
        · simp only [if_pos hid] at hgone
          exact absurd hm hgone
      · simp only [if_neg hid] at hgone
        exact absurd hm hgone

theorem handlePubackMsg_queue {pkt : ByteStr} {msgId : Nat} {r : Int} (hc : b.sess.contextOf k = some c)
    (hd : decodePublishAck.decode pkt = some msgId) (h : handlePubackMsg env k pkt b = .ok (r, b')) :
    (b'.sess.ctxs c).sendMsgQueue = ((b.sess.ctxs c).ackMsg (fun m => (b.bufs m).msgId) msgId).sendMsgQueue := by
  unfold handlePubackMsg at h
  simp only [hd] at h
  rw [bind_ok] at h
  obtain ⟨c', b₁, hctx, h⟩ := h
  rw [clientContext_some hc] at hctx
  cases hctx
  rw [get_bind, set_bind] at h
  have hsess : b'.sess = b.sess.modifyContext c (·.ackMsg (fun m => (b.bufs m).msgId) msgId) := by
    cases hacked : (b.sess.ctxs c).acked (fun m => (b.bufs m).msgId) msgId with
    | none =>
        simp only [hacked] at h
        cases h
        rfl
    | some m =>
        simp only [hacked] at h
        cases h
        rfl
  rw [hsess, Sess.modifyContext_ctxs, if_pos rfl]

theorem Numbered.unambiguous (h : Numbered b) : Unambiguous b where
  carries k m r hm := (h.puts k m r hm).2
  differ := h.differ
  acks env k c m msg pkt r b' hc hm hd hack hrun x hx hgone := by
    rw [handlePubackMsg_queue hc hack hrun] at hgone
    have hid : (b.bufs x).packetId = msg.msgId := ClientContext.mem_ackMsg hx hgone
    obtain ⟨msg', hd', hid', -⟩ := (h.held m (Or.inl ⟨c, hm⟩)).2
    rw [hd] at hd'
    cases hd'
    exact List.inj_on_of_nodup_map (h.differ c) hx hm (hid.trans hid')

theorem Coherent.started (h : Started env mp b) (hheld : ∀ m, Holds b.sess m → (b.bufs m).Carries)
    (hdiffer : ∀ c, (b.ids (b.sess.ctxs c).sendMsgQueue).Nodup) : Coherent b := by
  obtain ⟨ht, ho, hq⟩ := h.tidy
  have hlog := h.tables.2
  refine ⟨ht, ho, fun w hw => ?_, fun m hm => ⟨ht.allocated m (Or.inl hm), hheld m hm⟩, fun k m r hm => ?_, hdiffer,
    fun w hw => ?_, fun w hw => ?_, ?_⟩
  · rw [hq] at hw
    cases hw
  · rw [hlog] at hm
    cases hm
  · rw [hq] at hw
    cases hw
  · rw [hq] at hw
    cases hw
  · rw [hq]
    exact List.nodup_nil

/-- The next event of a machine whose tables are in order. -/
theorem Numbered.processes {s : Machine} {pkt : ByteStr} (h : Numbered s.broker)
    (hclear : ∀ k pkt b, s.Processes env k pkt b → PacketClear k pkt b) (hp : s.Processes env k pkt b) : Numbered b :=
  (Numbered.between env packing).processes h
    (fun k pkt b _ _ hp hlen hI hproc => process_numbered hI hlen (hclear k pkt b hp) hproc) hp

theorem RunsWhen.coherent {b₀ : Broker} {s : Machine} (hb : Coherent b₀)
    (h : RunsWhen env mp (fun s mv _ => Fed mv ∧ s.Clear env mv) b₀ s) : Coherent s.broker := by
  induction h with
  | start => exact hb
  | step _ _ hs hP ih => exact Machine.step_coherent hP.1 hP.2 ih hs

/-- **Packet identifiers over whole runs.** As long as every message is given an identifier that is free, retained messages are
    sent only where they can be told apart, and nobody is in two topics of a bridge, each PUBLISH that was put carries the low
    sixteen bits of its `msg_id`, and not zero; no pending queue has an identifier twice; and an acknowledgement of a pending
    message removes no other one. The same holds in the middle of a read. -/
theorem runs_unambiguous {b₀ : Broker} {s : Machine} (hb : Started env mp b₀)
    (hheld : ∀ m, Holds b₀.sess m → (b₀.bufs m).Carries) (hdiffer : ∀ c, (b₀.ids (b₀.sess.ctxs c).sendMsgQueue).Nodup)
    (h : RunsWhen env mp (fun s mv _ => Fed mv ∧ s.Clear env mv) b₀ s) :
    Unambiguous s.broker ∧
      (s.Clear env .next → ∀ k pkt b, s.Processes env k pkt b → Unambiguous b) := by
  have hs := h.coherent (Coherent.started hb hheld hdiffer)
  exact ⟨hs.numbered.unambiguous, fun hclear k pkt b hp => (hs.numbered.processes hclear.1 hp).unambiguous⟩

/-! ## A run -/

/-- A read that is one packet hands over that packet. -/
theorem Calls.whole {σ ε : Type} {touch : Exec σ ε Unit} {process : Handler σ ε} {fuel len value bytes : Nat}
    {mem : Nat → UInt8} {s s' : σ} {pkt : ByteStr} (hr : remainLength (RecvBuffer.shift mem 0) len = .length value bytes)
    (hlen : value + bytes + 1 = len) (h : Calls touch process fuel mem len 0 s pkt s') :
    pkt = RecvBuffer.slice mem 0 len ∧ touch s = .ok ((), s') := by
  cases h with
  | now ht _ hr' =>
      rw [Nat.sub_zero, hr] at hr'
      cases hr'
      rw [hlen]
      exact ⟨rfl, ht⟩
  | later _ _ hr' _ _ h =>
      rw [Nat.sub_zero, hr] at hr'
      cases hr'
      rw [hlen, Nat.zero_add] at h
      cases h with
      | now _ ho _ => exact absurd ho (Nat.lt_irrefl _)
      | later _ ho _ _ _ _ => exact absurd ho (Nat.lt_irrefl _)

/-- No buffer at all has the identifier. -/
def Broker.freeTest (b : Broker) (n : Nat) : Bool :=
  decide (n ≠ 0) && (List.range b.nextBuf).all fun m => decide ((b.bufs m).packetId ≠ n)

theorem Broker.free_of_test {n : Nat} (hb : Numbered b) (h : b.freeTest n = true) : b.Free n := by
  unfold Broker.freeTest at h
  rw [Bool.and_eq_true, List.all_eq_true] at h
  refine ⟨of_decide_eq_true h.1, fun m hm => of_decide_eq_true (h.2 m (List.mem_range.mpr ?_))⟩
  exact hm.elim hb.pending (hb.waits m)

/-- A packet that is published with a new identifier, or subscribes to topics nothing is retained for. -/
def packetTest (pkt : ByteStr) (b : Broker) : Bool :=
  match packetType pkt with
  | .publish => b.freeTest (b.nextMsgId % 65536)
  | .subscribe => (Subscribe.decode.decode pkt).all fun msg => (b.retainedFor msg.topicsName).isEmpty
  | _ => true

theorem packetClear_of_test {pkt : ByteStr} (hb : Numbered b) (h : packetTest pkt b = true) : PacketClear k pkt b := by
  unfold packetTest at h
  refine ⟨fun htype _ _ _ _ _ => ?_, fun htype c msg _ _ hd => ?_⟩
  · simp only [htype] at h
    exact b.free_of_test hb h
  · simp only [htype, hd] at h
    have hnone : b.retainedFor msg.topicsName = [] := List.isEmpty_iff.mp h
    rw [hnone]
    refine ⟨?_, fun m hm => by cases hm⟩
    rw [List.append_nil]
    exact hb.differ c

/-- The test of the next event: a read is one packet, and that passes a test. -/
def Machine.readTest (test : ConnId → ByteStr → Broker → Bool) (s : Machine) : Bool :=
  match s.batch with
  | .conn k false (some (.bytes r)) _ :: _ =>
      let recv := (s.broker.recv k).receive (r.limit (maxBufSize - (s.broker.recv k).curBufPos))
      decide (2 ≤ recv.curBufPos) &&
        decide (remainLength (RecvBuffer.shift recv.mem 0) recv.curBufPos = .length (recv.curBufPos - 2) 1) &&
        test k (RecvBuffer.slice recv.mem 0 recv.curBufPos) (s.receiving k)
  | _ => true

theorem Machine.of_readTest {test : ConnId → ByteStr → Broker → Bool} {s : Machine} {pkt : ByteStr}
    (h : s.readTest test = true) (hp : s.Processes env k pkt b) : test k pkt b = true ∧ b = s.receiving k := by
  obtain ⟨r, output, es, recv, hbatch, hrecv, hne, hcalls⟩ := hp
  unfold Machine.readTest at h
  rw [hbatch] at h
  simp only [← hrecv, Bool.and_eq_true, decide_eq_true_eq] at h
  obtain ⟨⟨htwo, hr⟩, htest⟩ := h
  obtain ⟨rfl, ht⟩ := hcalls.whole hr (by omega)
  obtain ⟨rfl, -⟩ := touch_ok.mp ht
  exact ⟨htest, rfl⟩

/-- The test of a move: a read is one packet, and a message of the HTTP server is given a new identifier. -/
def Machine.clearTest (s : Machine) : Move → Bool
  | .wait _ _ => true
  | .next => s.readTest fun _ pkt b => packetTest pkt b
  | .http _ _ _ => s.broker.freeTest (s.broker.nextMsgId % 65536)
  | .bridge _ => false

theorem Machine.clear_of_test {s : Machine} {mv : Move} (hmode : env.mqttBridge = false) (hb : Numbered s.broker)
    (h : s.clearTest mv = true) : s.Clear env mv := by
  cases mv with
  | wait now batch => trivial
  | next =>
      refine ⟨fun k pkt b hp => ?_, fun hbridge => by rw [hmode] at hbridge; cases hbridge⟩
      obtain ⟨htest, rfl⟩ := Machine.of_readTest h hp
      exact packetClear_of_test (hb.rest (resting_of_same rfl rfl rfl rfl rfl rfl)) htest
  | http header topic msg => exact s.broker.free_of_test hb h
  | bridge buf => cases h

/-- A played script each move of which passes the test, where the test is for the states of a run. -/
theorem Machine.playWhen_reached {P : Machine → Move → Machine → Prop} {test : Machine → Move → Machine → Bool} {b₀ : Broker}
    {s s' : Machine} (mvs : List Move)
    (htest : ∀ s mv s', RunsWhen env mp P b₀ s → mv ∈ mvs → test s mv s' = true → P s mv s') (h : RunsWhen env mp P b₀ s)
    (hp : s.playWhen env mp test mvs = some s') : RunsWhen env mp P b₀ s' := by
  induction mvs generalizing s with
  | nil =>
      cases hp
      exact h
  | cons mv mvs ih =>
      unfold Machine.playWhen at hp
      split at hp
      · rename_i hen
        cases hs : s.step env mp mv with
        | ok s₁ =>
            simp only [hs] at hp
            split at hp
            · rename_i hpass
              exact ih (fun s mv' s' hs hmv => htest s mv' s' hs (List.mem_cons_of_mem mv hmv))
                (.step h hen hs (htest s mv s₁ h List.mem_cons_self hpass)) hp
            · cases hp
        | error f =>
            rw [hs] at hp
            cases hp
      · cases hp

theorem Coherent.empty : Coherent {} := by
  have hnone : ∀ m, ¬ Holds ({} : Broker).sess m := by
    rintro m (⟨c, hc⟩ | ⟨t, ht⟩)
    · cases hc
    · cases ht
  have hstart : Started Env.calm packing {} := .empty
  exact Coherent.started hstart (fun m hm => absurd hm (hnone m)) fun _ => List.nodup_nil

/-- A client subscribes to topic `b`, gets a message of the HTTP server and one of its own, and acknowledges the first. -/
def ackScript : List Move :=
  Move.alone 0 .accept ++ Move.alone 0 (.input 0 (connectPacket 65 0)) ++ Move.alone 0 (.input 0 (subscribePacket 98)) ++
    [getMove] ++ Move.alone 1 .notify ++ Move.alone 2 (.input 0 (publishPacket 98 66)) ++
    Move.alone 3 (.input 0 (pubackPacket 1))

theorem ackScript_fed : ∀ mv ∈ ackScript, Fed mv := by
  intro mv hmv
  unfold ackScript Move.alone at hmv
  simp only [List.mem_append, List.mem_cons, List.not_mem_nil, or_false] at hmv
  rcases hmv with (((((h | h) | h) | h) | h) | h) | h
  all_goals first
    | (rcases h with rfl | rfl <;> trivial)
    | (rw [h]; exact getMove_fed)

theorem runs_unambiguous_acked : ∃ s, RunsWhen Env.calm packing (fun s mv _ => Fed mv ∧ s.Clear Env.calm mv) {} s ∧
    s.broker.ids (s.broker.sess.ctxs (.conn 0)).sendMsgQueue = [2] ∧ Unambiguous s.broker := by
  have hplay : (Machine.initial.playWhen Env.calm packing (fun s mv _ => s.clearTest mv) ackScript).any (fun s =>
      decide (s.broker.ids (s.broker.sess.ctxs (.conn 0)).sendMsgQueue = [2])) = true := by decide +kernel
  obtain ⟨s, hs, hids⟩ := (Option.any_eq_true _ _).mp hplay
  have hrun := Machine.playWhen_reached ackScript (P := fun s mv _ => Fed mv ∧ s.Clear Env.calm mv)
    (fun s mv _ hrun hmv htest => ⟨ackScript_fed mv hmv, Machine.clear_of_test rfl (hrun.coherent Coherent.empty).numbered htest⟩)
    .start hs
  refine ⟨s, hrun, of_decide_eq_true hids, (runs_unambiguous .empty ?_ (fun _ => List.nodup_nil) hrun).1⟩
  intro m hm
  exact (Coherent.empty.numbered.held m hm).2

end MqttServer
