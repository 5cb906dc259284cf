import MqttServer.Correctness.Prims
import MqttServer.Http.Cuts
import MqttServer.Reactor.Notify
import MqttServer.Server.Bridge
import MqttServer.Server.Packing

/-!
# `Correctness.Notify` — the messages of other threads

A message from the HTTP server or the bridge client waits in the notify queue until the reactor publishes it.
Until then nobody else points at it: no pending queue, no retained slot, no connection. So it is decoded as it was
encoded, and the notifier never gives up (`fed_notified`).
-/

namespace MqttServer

open Lib Exec

variable {env : Env} {mp : MsgPack} {sc : Scope} {b b' : Broker} {k : ConnId} {m m' : MbufId}

/-! ## What output does to buffers and queues -/

namespace EventHandler

variable {bufs : Bufs} {h : EventHandler} {w : WriteCall}

theorem nonblkSend_other (hm : m' ≠ m) : (nonblkSend bufs h m w).bufs m' = bufs m' := by
  have hupd : Function.update bufs m (send (bufs m) w).buf m' = bufs m' := Function.update_of_ne hm _ _
  unfold nonblkSend
  simp only
  split
  · exact hupd
  · split <;> exact hupd

theorem nonblkSend_queue (hx : m' ∈ (nonblkSend bufs h m w).handler.sendMsgQueue) :
    m' ∈ h.sendMsgQueue ∨ m' = m := by
  unfold nonblkSend at hx
  simp only at hx
  split at hx
  · exact Or.inl hx
  · split at hx
    · rw [scheduleWrite_queue] at hx
      rcases List.mem_cons.mp hx with hx | hx
      · exact Or.inr hx
      · exact Or.inl hx
    · exact Or.inl hx

theorem put_other (hm : m' ≠ m) : (h.put bufs m w).bufs m' = bufs m' := by
  unfold put
  split
  · exact nonblkSend_other hm
  · split <;> rfl

theorem put_queue (hx : m' ∈ (h.put bufs m w).handler.sendMsgQueue) : m' ∈ h.sendMsgQueue ∨ m' = m := by
  unfold put at hx
  split at hx
  · exact nonblkSend_queue hx
  · split at hx
    · exact Or.inl hx
    · rw [scheduleWrite_queue] at hx
      rcases List.mem_append.mp hx with hx | hx
      · exact Or.inl hx
      · exact Or.inr (List.mem_singleton.mp hx)

theorem handleOutput_other (hm : m' ∉ h.sendMsgQueue) : (h.handleOutput bufs w).bufs m' = bufs m' := by
  unfold handleOutput
  split
  · rfl
  · rename_i head rest hq
    refine nonblkSend_other ?_
    rintro rfl
    rw [hq] at hm
    exact hm List.mem_cons_self

theorem handleOutput_queue (hx : m' ∈ (h.handleOutput bufs w).handler.sendMsgQueue) : m' ∈ h.sendMsgQueue := by
  unfold handleOutput at hx
  split at hx
  · exact hx
  · rename_i head rest hq
    simp only [afterOutput_queue] at hx
    rw [hq]
    rcases nonblkSend_queue hx with hx | hx
    · exact List.mem_cons_of_mem _ hx
    · rw [hx]
      exact List.mem_cons_self

end EventHandler

/-! ## Messages in use -/

/-- The message was published or put somewhere, or is being published now. -/
def InUse (pub : MbufId → Prop) (b : Broker) (m : MbufId) : Prop :=
  Holds b.sess m ∨ Published b m ∨ (∃ k, m ∈ (b.handlers k).sendMsgQueue) ∨ pub m

/-- The messages in the notify queue are well formed, and each is in the queue only, and there once. -/
structure Tidy (pub : MbufId → Prop) (b : Broker) : Prop where
  allocated : ∀ m, InUse pub b m → m < b.nextBuf
  waiting : ∀ m ∈ b.notifyDeque, m < b.nextBuf ∧ ¬ InUse pub b m ∧ WellFormed (b.bufs m)
  nodup : b.notifyDeque.Nodup

/-- The messages in the queue are as they were. -/
def Undisturbed (b b' : Broker) : Prop := ∀ m ∈ b.notifyDeque, b'.bufs m = b.bufs m

namespace Tidy

variable {pub : MbufId → Prop}

/-- The buffer made last is no message of another thread. -/
theorem not_newest (h : Tidy pub b) (hm : Newest b m) : m < b.nextBuf ∧ m ∉ b.notifyDeque := by
  refine ⟨Nat.lt_of_succ_le (Nat.le_of_eq hm.1), fun hin => ?_⟩
  have htype := (h.waiting m hin).2.2.1
  rw [hm.2.1] at htype
  cases htype

theorem not_used (h : Tidy pub b) (hm : InUse pub b m) : m < b.nextBuf ∧ m ∉ b.notifyDeque :=
  ⟨h.allocated m hm, fun hin => (h.waiting m hin).2.1 hm⟩

/-- **A change that leaves the waiting messages alone** and takes into use what does not wait. -/
theorem keep (h : Tidy pub b) (hq : b'.notifyDeque = b.notifyDeque) (hn : b.nextBuf ≤ b'.nextBuf)
    (huse : ∀ m, InUse pub b' m → InUse pub b m ∨ (m < b'.nextBuf ∧ m ∉ b.notifyDeque))
    (hbufs : Undisturbed b b') : Tidy pub b' ∧ Undisturbed b b' := by
  refine ⟨⟨fun m hm => ?_, fun m hm => ?_, by rw [hq]; exact h.nodup⟩, hbufs⟩
  · rcases huse m hm with hm | hm
    · exact Nat.lt_of_lt_of_le (h.allocated m hm) hn
    · exact hm.1
  · rw [hq] at hm
    obtain ⟨hlt, hfree, hwf⟩ := h.waiting m hm
    refine ⟨Nat.lt_of_lt_of_le hlt hn, fun hin => ?_, by rw [hbufs m hm]; exact hwf⟩
    rcases huse m hin with hin | hin
    · exact hfree hin
    · exact hin.2 hm

/-- A buffer more. -/
theorem grow (h : Tidy pub b) {buf : Buf} (hq : b'.notifyDeque = b.notifyDeque) (hn : b'.nextBuf = b.nextBuf + 1)
    (hbufs : b'.bufs = Function.update b.bufs b.nextBuf buf)
    (huse : ∀ m, InUse pub b' m → InUse pub b m ∨ m = b.nextBuf) : Tidy pub b' ∧ Undisturbed b b' := by
  have hfresh : b.nextBuf ∉ b.notifyDeque := fun hin => Nat.lt_irrefl _ (h.waiting _ hin).1
  refine h.keep hq (by rw [hn]; exact Nat.le_succ _) (fun m hm => ?_) fun m hm => ?_
  · rcases huse m hm with hm | hm
    · exact Or.inl hm
    · rw [hm, hn]
      exact Or.inr ⟨Nat.lt_succ_self _, hfresh⟩
  · rw [hbufs, Function.update_of_ne]
    rintro rfl
    exact hfresh hm

end Tidy

/-- Labels that publish nothing publish nothing new. -/
theorem Published.of_append {ls : List Act} (hlog : b'.log = b.log ++ ls) (hl : ∀ a ∈ ls, a.message = none)
    (h : Published b' m) : Published b m := by
  obtain ⟨a, ha, ham⟩ := h
  rw [hlog] at ha
  rcases List.mem_append.mp ha with ha | ha
  · exact ⟨a, ha, ham⟩
  · rw [hl a ha] at ham
    cases ham

theorem mem_update_queue {f : ConnId → EventHandler} {h : EventHandler} {k' : ConnId}
    (hx : m ∈ (Function.update f k h k').sendMsgQueue) :
    (k' = k ∧ m ∈ h.sendMsgQueue) ∨ m ∈ (f k').sendMsgQueue := by
  by_cases he : k' = k
  · subst he
    rw [Function.update_self] at hx
    exact Or.inl ⟨rfl, hx⟩
  · rw [Function.update_of_ne he] at hx
    exact Or.inr hx

/-- **One change.** -/
theorem Prim.tidy (hsc : ¬ sc.queue) (h : Prim env sc b b') (hb : Tidy sc.pub b) :
    Tidy sc.pub b' ∧ Undisturbed b b' := by
  -- a change of neither queues nor tables nor published messages
  have same : ∀ {b' : Broker}, b'.sess = b.sess → b'.log = b.log → b'.handlers = b.handlers →
      ∀ m, InUse sc.pub b' m → InUse sc.pub b m := by
    intro b' hs hl hh m hm
    unfold InUse Published at hm ⊢
    rwa [hs, hl, hh] at hm
  cases h with
  | tables sess ls hq hl =>
      refine hb.keep rfl (Nat.le_refl _) (fun m hm => Or.inl ?_) fun _ _ => rfl
      rcases hm with hm | hm | hm
      · exact Or.inl (hq m hm)
      · exact Or.inr (Or.inl (hm.of_append rfl hl))
      · exact Or.inr (Or.inr hm)
  | publish sess a m ha hm hq =>
      have huse : m < b.nextBuf ∧ m ∉ b.notifyDeque := by
        rcases hm with hm | hm
        · exact hb.not_used (Or.inr (Or.inr (Or.inr hm)))
        · exact hb.not_newest hm
      refine hb.keep rfl (Nat.le_refl _) (fun m' hm' => ?_) fun _ _ => rfl
      rcases hm' with hm' | ⟨a', ha', hm'⟩ | hm'
      · exact Or.inl (Or.inl (hq m' hm'))
      · rcases List.mem_append.mp ha' with ha' | ha'
        · exact Or.inl (Or.inr (Or.inl ⟨a', ha', hm'⟩))
        · rw [List.mem_singleton.mp ha', ha] at hm'
          cases hm'
          exact Or.inr huse
      · exact Or.inl (Or.inr (Or.inr hm'))
  | pend c m hm =>
      refine hb.keep rfl (Nat.le_refl _) (fun m' hm' => Or.inl ?_) fun _ _ => rfl
      rcases hm' with (⟨c', hc'⟩ | ht) | hm'
      · rw [Sess.modifyContext_ctxs] at hc'
        split at hc'
        · rcases List.mem_append.mp hc' with hc' | hc'
          · exact Or.inl (Or.inl ⟨c, hc'⟩)
          · rw [List.mem_singleton.mp hc']
            exact Or.inr (Or.inl hm)
        · exact Or.inl (Or.inl ⟨c', hc'⟩)
      · exact Or.inl (Or.inr ht)
      · exact Or.inr hm'
  | retain t m slot hm hs =>
      refine hb.grow rfl rfl rfl fun m' hm' => ?_
      rcases hm' with (hc | ⟨t', ht'⟩) | hm'
      · exact Or.inl (Or.inl (Or.inl hc))
      · rw [retainMsg_setRetainMsg] at ht'
        split at ht'
        · rcases hs with rfl | rfl
          · cases ht'
          · cases ht'
            exact Or.inr rfl
        · exact Or.inl (Or.inl (Or.inr ⟨t', ht'⟩))
      · exact Or.inl (Or.inr hm')
  | answer size bytes => exact hb.grow rfl rfl rfl fun m hm => Or.inl (same rfl rfl rfl m hm)
  | bridged buf id => exact hb.grow rfl rfl rfl fun m hm => Or.inl (same rfl rfl rfl m hm)
  | regist h =>
      cases h
      exact hb.grow rfl rfl rfl fun m hm => Or.inl (same rfl rfl rfl m hm)
  | mask k =>
      refine hb.keep rfl (Nat.le_refl _) (fun m hm => Or.inl ?_) fun _ _ => rfl
      rcases hm with hm | hm | ⟨k', hk'⟩ | hm
      · exact Or.inl hm
      · exact Or.inr (Or.inl hm)
      · rcases mem_update_queue hk' with ⟨-, hk'⟩ | hk'
        · exact Or.inr (Or.inr (Or.inl ⟨k, hk'⟩))
        · exact Or.inr (Or.inr (Or.inl ⟨k', hk'⟩))
      · exact Or.inr (Or.inr (Or.inr hm))
  | put k m hm =>
      have huse : m < b.nextBuf ∧ m ∉ b.notifyDeque := by
        rcases hm with hm | hm | hm
        · exact hb.not_used (Or.inr (Or.inl hm))
        · exact hb.not_used (Or.inl hm)
        · exact hb.not_newest hm
      refine hb.keep rfl (Nat.le_refl _) (fun m' hm' => ?_) fun m' hm' => EventHandler.put_other ?_
      · rcases hm' with hm' | hm' | ⟨k', hk'⟩ | hm'
        · exact Or.inl (Or.inl hm')
        · refine Or.inl (Or.inr (Or.inl (hm'.of_append rfl fun a ha => ?_)))
          rw [List.mem_singleton.mp ha]
          rfl
        · rcases mem_update_queue hk' with ⟨-, hk'⟩ | hk'
          · rcases EventHandler.put_queue hk' with hk' | rfl
            · exact Or.inl (Or.inr (Or.inr (Or.inl ⟨k, hk'⟩)))
            · exact Or.inr huse
          · exact Or.inl (Or.inr (Or.inr (Or.inl ⟨k', hk'⟩)))
        · exact Or.inl (Or.inr (Or.inr (Or.inr hm')))
      · rintro rfl
        exact huse.2 hm'
  | output k =>
      refine hb.keep rfl (Nat.le_refl _) (fun m' hm' => Or.inl ?_) fun m' hm' => EventHandler.handleOutput_other ?_
      · rcases hm' with hm' | hm' | ⟨k', hk'⟩ | hm'
        · exact Or.inl hm'
        · exact Or.inr (Or.inl hm')
        · rcases mem_update_queue hk' with ⟨-, hk'⟩ | hk'
          · exact Or.inr (Or.inr (Or.inl ⟨k, EventHandler.handleOutput_queue hk'⟩))
          · exact Or.inr (Or.inr (Or.inl ⟨k', hk'⟩))
        · exact Or.inr (Or.inr (Or.inr hm'))
      · exact fun hin => (hb.waiting m' hm').2.1 (Or.inr (Or.inr (Or.inl ⟨k, hin⟩)))
  | accept =>
      refine hb.keep rfl (Nat.le_refl _) (fun m' hm' => Or.inl ?_) fun _ _ => rfl
      rcases hm' with hm' | hm' | ⟨k', hk'⟩ | hm'
      · exact Or.inl hm'
      · refine Or.inr (Or.inl (hm'.of_append rfl fun a ha => ?_))
        rw [List.mem_singleton.mp ha]
        rfl
      · rcases mem_update_queue hk' with ⟨-, hk'⟩ | hk'
        · cases hk'
        · exact Or.inr (Or.inr (Or.inl ⟨k', hk'⟩))
      · exact Or.inr (Or.inr (Or.inr hm'))
  | received => exact hb.keep rfl (Nat.le_refl _) (fun m hm => Or.inl (same rfl rfl rfl m hm)) fun _ _ => rfl
  | stamps => exact hb.keep rfl (Nat.le_refl _) (fun m hm => Or.inl (same rfl rfl rfl m hm)) fun _ _ => rfl
  | notified _ _ hq => exact absurd hq hsc
  | file => exact hb.keep rfl (Nat.le_refl _) (fun m hm => Or.inl (same rfl rfl rfl m hm)) fun _ _ => rfl
  | wait => exact hb.keep rfl (Nat.le_refl _) (fun m hm => Or.inl (same rfl rfl rfl m hm)) fun _ _ => rfl
  | collect => exact hb.keep rfl (Nat.le_refl _) (fun m hm => Or.inl (same rfl rfl rfl m hm)) fun _ _ => rfl

/-- Without a hand on the queue it stays as it is. -/
theorem Prim.deque (hsc : ¬ sc.queue) (h : Prim env sc b b') :
    b'.notifyDeque = b.notifyDeque ∧ b'.notifyOpen = b.notifyOpen := by
  cases h with
  | notified _ _ hq => exact absurd hq hsc
  | regist h =>
      cases h
      exact ⟨rfl, rfl⟩
  | _ => exact ⟨rfl, rfl⟩

/-- What a sequence of changes leaves alone: the queue, the messages in it, and the notifier. -/
structure Leaves (b b' : Broker) : Prop where
  deque : b'.notifyDeque = b.notifyDeque
  opened : b'.notifyOpen = b.notifyOpen
  bufs : Undisturbed b b'

theorem Prims.tidy (hsc : ¬ sc.queue) (h : Prims env sc b b') (hb : Tidy sc.pub b) :
    Tidy sc.pub b' ∧ Leaves b b' := by
  refine h.invariant (I := fun b' => Tidy sc.pub b' ∧ Leaves b b') (fun b₁ b₂ hp hI => ?_)
    ⟨hb, rfl, rfl, fun _ _ => rfl⟩
  obtain ⟨ht, hl⟩ := hI
  obtain ⟨hq', ho'⟩ := hp.deque hsc
  obtain ⟨ht', hbufs⟩ := hp.tidy hsc ht
  refine ⟨ht', hq'.trans hl.deque, ho'.trans hl.opened, fun m hm => ?_⟩
  rw [hbufs m (by rw [hl.deque]; exact hm)]
  exact hl.bufs m hm

/-! ## Publishing what waits -/

/-- Nothing is being published between two events. -/
def idle : MbufId → Prop := fun _ => False

theorem Tidy.stop {pub : MbufId → Prop} (h : Tidy pub b) : Tidy idle b := by
  have huse : ∀ m, InUse idle b m → InUse pub b m := by
    rintro m (hm | hm | hm | hm)
    · exact Or.inl hm
    · exact Or.inr (Or.inl hm)
    · exact Or.inr (Or.inr (Or.inl hm))
    · exact hm.elim
  exact ⟨fun m hm => h.allocated m (huse m hm),
    fun m hm => ⟨(h.waiting m hm).1, fun hin => (h.waiting m hm).2.1 (huse m hin), (h.waiting m hm).2.2⟩, h.nodup⟩

/-- `pop_front`: the first message is taken to be published. -/
theorem Tidy.pop {ms : List MbufId} (h : Tidy idle b) (hq : b.notifyDeque = m :: ms) :
    Tidy (· = m) { b with notifyDeque := ms } := by
  have hnodup := h.nodup
  rw [hq, List.nodup_cons] at hnodup
  have hin : ∀ m' ∈ m :: ms, m' ∈ b.notifyDeque := fun m' hm' => by rwa [hq]
  refine ⟨fun m' hm' => ?_, fun m' hm' => ?_, hnodup.2⟩
  · rcases hm' with hm' | hm' | hm' | rfl
    · exact h.allocated m' (Or.inl hm')
    · exact h.allocated m' (Or.inr (Or.inl hm'))
    · exact h.allocated m' (Or.inr (Or.inr (Or.inl hm')))
    · exact (h.waiting m' (hin m' List.mem_cons_self)).1
  · obtain ⟨hlt, hfree, hwf⟩ := h.waiting m' (hin m' (List.mem_cons_of_mem _ hm'))
    refine ⟨hlt, fun hin => ?_, hwf⟩
    rcases hin with hin | hin | hin | rfl
    · exact hfree (Or.inl hin)
    · exact hfree (Or.inr (Or.inl hin))
    · exact hfree (Or.inr (Or.inr (Or.inl hin)))
    · exact hnodup.1 hm'

/-- **A round of the drain loop** decodes its message, and leaves those behind it alone. -/
theorem notifyLoop_round {r : Int} {ms : List MbufId} (hq : b.notifyDeque = m :: ms) (hb : Tidy idle b)
    (h : notifyLoop env (m :: ms) b = .ok (r, b')) :
    ∃ msg b₁, (b.bufs m).1.msgType = .publish ∧ Publish.decode.decode (b.bufs m).unread = some msg ∧
      Tidy idle b₁ ∧ Leaves { b with notifyDeque := ms } b₁ ∧ notifyLoop env ms b₁ = .ok (r, b') := by
  have hin : m ∈ b.notifyDeque := by
    rw [hq]
    exact List.mem_cons_self
  obtain ⟨-, -, htype, hdec⟩ := hb.waiting m hin
  obtain ⟨msg, hd⟩ := Option.isSome_iff_exists.mp hdec
  unfold notifyLoop at h
  rw [modify_bind, get_bind, if_pos htype] at h
  simp only [hd] at h
  rw [bind_ok] at h
  obtain ⟨_, b₁, hp, h⟩ := h
  have hresp : (prims env { pub := (· = m) }).Resp (publishNotified env m msg) { b with notifyDeque := ms } := by
    unfold publishNotified
    split
    · exact publishAll_prims (Or.inl rfl)
    · exact publishTopic_prims (Or.inl rfl)
  have hprims : Prims env { pub := (· = m) } { b with notifyDeque := ms } b₁ := Frame.resp_ok hresp hp
  obtain ⟨ht, hl⟩ := hprims.tidy (fun h => h) (hb.pop hq)
  exact ⟨msg, b₁, htype, hd, ht.stop, hl, h⟩

/-- **The drain loop** takes every message and returns `0`. -/
theorem notifyLoop_tidy {r : Int} (ms : List MbufId) : ∀ b : Broker, b.notifyDeque = ms → Tidy idle b →
    notifyLoop env ms b = .ok (r, b') →
    r = 0 ∧ Tidy idle b' ∧ b'.notifyDeque = [] ∧ b'.notifyOpen = b.notifyOpen := by
  induction ms with
  | nil =>
      intro b hq hb h
      cases h
      exact ⟨rfl, hb, hq, rfl⟩
  | cons m ms ih =>
      intro b hq hb h
      obtain ⟨msg, b₁, -, -, ht, hl, h⟩ := notifyLoop_round hq hb h
      obtain ⟨hr, ht', hq', ho'⟩ := ih b₁ hl.deque ht h
      exact ⟨hr, ht', hq', ho'.trans hl.opened⟩

/-! ## Messages from other threads -/

/-- Where the moves of other threads come from: from a request in the buffer of an HTTP connection, or from the
    bytes the bridge client has read. -/
def Fed : Move → Prop
  | .http header topic msg => ∃ s p dup, s.length ≤ httpBufSize ∧ parseHeaders s = .ok p ∧
      header = (publishParams p.req dup).header ∧ topic = (publishParams p.req dup).topic ∧
      msg = (publishParams p.req dup).msg
  | .bridge buf => ∃ topic garbage start rounds,
      buf ∈ (TCPClient.svc topic (TCPClient.opened garbage start) rounds).out.notified
  | _ => True

/-- A message of another thread: what `HttpConnection::notify_mqtt_publish` makes of a request in its buffer, or
    `TCPClient::process_mqtt` of a packet in the bytes it has read. -/
inductive Made : Buf → Prop where
  | http (s : ByteStr) (p : Parsed) (dup : Bool) (msgId now : Nat) (bytes : ByteStr) (hs : s.length ≤ httpBufSize)
      (hp : parseHeaders s = .ok p)
      (he : ((publishParams p.req dup).packet msgId).encode (publishParams p.req dup).bufLen = some bytes) :
      Made ((Buf.make (publishParams p.req dup).bufLen now bytes).tag msgId .publish true)
  | bridge (topic : ByteStr) (garbage : Nat → UInt8) (start : UInt32) (rounds : List BridgeRound) (buf : ByteStr)
      (msg : Publish) (now : Nat)
      (hbuf : buf ∈ (TCPClient.svc topic (TCPClient.opened garbage start) rounds).out.notified)
      (hd : Publish.decode.decode buf = some msg) :
      Made ((Buf.make buf.length now buf).tag msg.msgId .publish false)

/-- The packet made of a request fits into the buffer its size was computed for. -/
theorem publishParams_fits {s bytes : ByteStr} {p : Parsed} {dup : Bool} {msgId : Nat} (hs : s.length ≤ httpBufSize)
    (hp : parseHeaders s = .ok p)
    (he : ((publishParams p.req dup).packet msgId).encode (publishParams p.req dup).bufLen = some bytes) :
    bytes.length ≤ (publishParams p.req dup).bufLen ∧ (publishParams p.req dup).bufLen < 2 ^ 32 := by
  have hlens := publishParams_length dup hp
  unfold httpBufSize at hs
  have hbody : ((publishParams p.req dup).packet msgId).body.length < 2 ^ 32 := by
    rw [((publishParams p.req dup).packet msgId).body_length]
    show (publishParams p.req dup).topic.length + 2 + 2 + (publishParams p.req dup).msg.length < 2 ^ 32
    omega
  have hroom : 6 ≤ (List.replicate (publishParams p.req dup).bufLen (0 : UInt8)).length := by
    rw [List.length_replicate]
    unfold PublishParams.bufLen
    omega
  refine ⟨?_, by unfold PublishParams.bufLen; omega⟩
  unfold Publish.encode at he
  rw [Publish.encodeInto_eq hroom hbody] at he
  split at he
  · rename_i hle
    cases he
    rwa [List.length_replicate] at hle
  · cases he

/-- **Messages of other threads can be published.** -/
theorem Made.wellFormed {buf : Buf} (h : Made buf) : WellFormed buf := by
  cases h with
  | http s p dup msgId now bytes hs hp he =>
      obtain ⟨hfit, hsize⟩ := publishParams_fits hs hp he
      obtain ⟨bytes', he', hdec⟩ := publishParams_packet hs hp msgId dup
      rw [he] at he'
      cases he'
      refine ⟨rfl, ?_⟩
      rw [Buf.tag_unread, Buf.make_unread hfit hsize]
      cases hd : Publish.decode.decode bytes with
      | none =>
          rw [hd] at hdec
          cases hdec
      | some m => rfl
  | bridge topic garbage start rounds bytes msg now hbuf hd =>
      have hsound := TCPClient.svc_sound topic rounds _ (.opened garbage start) bytes hbuf
      have hsize : bytes.length < 2 ^ 32 := Nat.lt_of_le_of_lt hsound.1 (by decide)
      refine ⟨rfl, ?_⟩
      rw [Buf.tag_unread, Buf.make_unread (Nat.le_refl _) hsize, hd]
      rfl

/-- The broker after another thread has put a message into the queue. -/
def Broker.pushed (b : Broker) (buf : Buf) (store : MsgMemStore) : Broker :=
  { b with bufs := Function.update b.bufs b.nextBuf buf, nextBuf := b.nextBuf + 1, store := store
           notifyDeque := b.notifyDeque ++ [b.nextBuf] }

/-- **A new message in the queue.** -/
theorem Tidy.push (h : Tidy idle b) {buf : Buf} (hbuf : WellFormed buf) {store : MsgMemStore} :
    Tidy idle (b.pushed buf store) := by
  refine ⟨fun m hm => Nat.lt_succ_of_lt (h.allocated m hm), fun m hm => ?_, ?_⟩
  · rcases List.mem_append.mp hm with hm | hm
    · obtain ⟨hlt, hfree, hwf⟩ := h.waiting m hm
      refine ⟨Nat.lt_succ_of_lt hlt, hfree, ?_⟩
      show WellFormed (Function.update b.bufs b.nextBuf buf m)
      rwa [Function.update_of_ne (Nat.ne_of_lt hlt)]
    · rw [List.mem_singleton.mp hm]
      refine ⟨Nat.lt_succ_self _, fun hin => Nat.lt_irrefl _ (h.allocated _ hin), ?_⟩
      show WellFormed (Function.update b.bufs b.nextBuf buf b.nextBuf)
      rwa [Function.update_self]
  · show (b.notifyDeque ++ [b.nextBuf]).Nodup
    rw [List.nodup_append]
    refine ⟨h.nodup, List.nodup_singleton _, fun m hm m' hm' => ?_⟩
    rw [List.mem_singleton.mp hm']
    exact Nat.ne_of_lt (h.waiting m hm).1

theorem notify_opened {u : Unit} (h : notify m b = .ok (u, b')) (ho : b.notifyOpen = true) :
    b' = { b with notifyDeque := b.notifyDeque ++ [m] } := by
  unfold notify at h
  rw [modify_apply, if_pos ho] at h
  cases h
  rfl

theorem notifyMqttPublish_pushes {header : FixedHeader} {topic msg : ByteStr} {u : Unit}
    (hfed : Fed (.http header topic msg)) (ho : b.notifyOpen = true)
    (h : notifyMqttPublish header topic msg b = .ok (u, b')) : ∃ buf store, Made buf ∧ b' = b.pushed buf store := by
  obtain ⟨s, p, dup, hs, hp, rfl, rfl, rfl⟩ := hfed
  obtain ⟨bytes, henc, -⟩ := publishParams_packet hs hp ((b.store.lastMsgId + 1) % 2 ^ 64) dup
  have hmade := Made.http s p dup ((b.store.lastMsgId + 1) % 2 ^ 64) b.now bytes hs hp henc
  unfold PublishParams.packet PublishParams.bufLen at henc
  unfold notifyMqttPublish at h
  rw [get_bind] at h
  simp only [henc] at h
  rw [bind_ok] at h
  obtain ⟨m, b₁, hm, h⟩ := h
  cases hm
  exact ⟨_, _, hmade, notify_opened h ho⟩

theorem bridgePublish_pushes {buf : ByteStr} {u : Unit} (hfed : Fed (.bridge buf)) (ho : b.notifyOpen = true)
    (h : bridgePublish buf b = .ok (u, b')) : ∃ buf store, Made buf ∧ b' = b.pushed buf store := by
  obtain ⟨topic, garbage, start, rounds, hbuf⟩ := hfed
  have hsound := TCPClient.svc_sound topic rounds _ (.opened garbage start) buf hbuf
  unfold bridgePublish at h
  cases hd : Publish.decode.decode buf with
  | none =>
      have hdec := hsound.2
      rw [hd] at hdec
      cases hdec
  | some msg =>
      rw [hd] at h
      simp only at h
      rw [get_bind, bind_ok] at h
      obtain ⟨m, b₁, hm, h⟩ := h
      obtain ⟨rfl, rfl⟩ := newBuf_ok hm
      exact ⟨_, b.store, .bridge topic garbage start rounds buf msg b.now hbuf hd, notify_opened h ho⟩

/-! ## Whole runs -/

theorem Tidy.wait (h : Tidy idle b) (now : Nat) (busy : List ConnId) :
    Tidy idle { b with now := now, busy := busy } := by
  have hwait : Prim Env.calm {} b { b with now := now, busy := busy } := .wait now busy
  exact (hwait.tidy (fun h => h) h).1

theorem Tidy.collect (h : Tidy idle b) : Tidy idle b.collect := by
  have hcollect : Prim Env.calm {} b b.collect := .collect
  exact (hcollect.tidy (fun h => h) h).1


/-- A restored broker has used no message but those of its file, and none waits. -/
structure Unused (st : RestoreState) (b : Broker) : Prop where
  named : ∀ id m, st.tmpMsgDb.lookup id = some m → m < b.nextBuf
  held : ∀ m, Holds b.sess m → m < b.nextBuf
  log : b.log = []
  handlers : ∀ k, (b.handlers k).sendMsgQueue = []
  deque : b.notifyDeque = []
  opened : b.notifyOpen = true

theorem retainMsg_addTopics {mgr : TopicMgr} {c : CtxId} {t : ByteStr} (ts : List ByteStr) :
    (addTopics mgr c ts).retainMsg t = mgr.retainMsg t := by
  unfold addTopics
  induction ts generalizing mgr with
  | nil => rfl
  | cons t' ts ih =>
      rw [List.foldl_cons, ih, retainMsg_addClientContext]

theorem Load.unused {st st' : RestoreState} (h : Load st b st' b') (hb : Unused st b) : Unused st' b' := by
  cases h with
  | info info => exact ⟨hb.named, hb.held, hb.log, hb.handlers, hb.deque, hb.opened⟩
  | unnamed tmp =>
      exact ⟨fun id m hm => Nat.lt_succ_of_lt (hb.named id m hm), fun m hm => Nat.lt_succ_of_lt (hb.held m hm),
        hb.log, hb.handlers, hb.deque, hb.opened⟩
  | msg tmp =>
      refine ⟨fun id m hm => ?_, fun m hm => Nat.lt_succ_of_lt (hb.held m hm), hb.log, hb.handlers, hb.deque, hb.opened⟩
      by_cases hid : id = tmp.msgId
      · rw [hid, AList.lookup_insert] at hm
        cases hm
        exact Nat.lt_succ_self _
      · rw [AList.lookup_insert_ne hid] at hm
        exact Nat.lt_succ_of_lt (hb.named id m hm)
  | client info =>
      refine ⟨hb.named, fun m hm => ?_, hb.log, hb.handlers, hb.deque, hb.opened⟩
      rcases hm with ⟨c, hc⟩ | ⟨t, ht⟩
      · unfold Sess.addStored at hc
        by_cases he : c = .stored st.contexts
        · rw [he] at hc
          simp only [Function.update_self] at hc
          obtain ⟨id, -, hid⟩ := List.mem_filterMap.mp hc
          exact hb.named id m hid
        · simp only [Function.update_of_ne he] at hc
          exact hb.held m (Or.inl ⟨c, hc⟩)
      · unfold Sess.addStored at ht
        simp only [retainMsg_addTopics] at ht
        exact hb.held m (Or.inr ⟨t, ht⟩)
  | retain t tmp =>
      refine ⟨fun id m hm => Nat.lt_succ_of_lt (hb.named id m hm), fun m hm => ?_, hb.log, hb.handlers, hb.deque,
        hb.opened⟩
      rcases hm with hm | ⟨t', ht'⟩
      · exact Nat.lt_succ_of_lt (hb.held m (Or.inl hm))
      · rw [retainMsg_setRetainMsg] at ht'
        split at ht'
        · cases ht'
          exact Nat.lt_succ_self _
        · exact Nat.lt_succ_of_lt (hb.held m (Or.inr ⟨t', ht'⟩))
  | destroy m =>
      obtain ⟨msgDb, registered, he⟩ := destroy_eq b m
      rw [he]
      exact ⟨hb.named, hb.held, hb.log, hb.handlers, hb.deque, hb.opened⟩
  | file dbFile => exact ⟨hb.named, hb.held, hb.log, hb.handlers, hb.deque, hb.opened⟩

theorem Unused.tidy {st : RestoreState} (h : Unused st b) : Tidy idle b := by
  refine ⟨fun m hm => ?_, fun m hm => ?_, by rw [h.deque]; exact List.nodup_nil⟩
  · rcases hm with hm | ⟨a, ha, -⟩ | ⟨k, hk⟩ | hm
    · exact h.held m hm
    · rw [h.log] at ha
      cases ha
    · rw [h.handlers] at hk
      cases hk
    · exact hm.elim
  · rw [h.deque] at hm
    cases hm

theorem Started.tidy (h : Started env mp b) : Tidy idle b ∧ b.notifyOpen = true ∧ b.notifyDeque = [] := by
  have hfresh : ∀ file now, Unused {} ({ file, now } : Broker) := by
    intro file now
    refine ⟨(fun _ _ h => by cases h), fun m hm => ?_, rfl, fun _ => rfl, rfl, rfl⟩
    rcases hm with ⟨c, hc⟩ | ⟨t, ht⟩
    · cases hc
    · cases ht
  cases h with
  | empty => exact ⟨(hfresh none 0).tidy, rfl, rfl⟩
  | restored file now b h =>
      obtain ⟨st, hst⟩ := restore_invariant (fun _ _ _ _ h hi => h.unused hi) (hfresh file now) h
      exact ⟨hst.tidy, hst.opened, hst.deque⟩

/-- What a move does to the queue: nothing, or it puts a message of another thread into it, or the reactor drains
    it. -/
inductive QueueMove (env : Env) (b : Broker) : Broker → Prop where
  | keep {b' : Broker} (ht : Tidy idle b') (hl : Leaves b b') : QueueMove env b b'
  | push {buf : Buf} {store : MsgMemStore} (hbuf : Made buf) : QueueMove env b (b.pushed buf store).collect
  | drain {busy : List ConnId} {r : Int} {b₁ : Broker} (ht : Tidy idle { b with busy := busy })
      (h : notifyLoop env b.notifyDeque { b with busy := busy } = .ok (r, b₁)) : QueueMove env b b₁.collect

/-- **One move.** -/
theorem Machine.step_queue {s s' : Machine} {mv : Move} (hfed : Fed mv) (hb : Tidy idle s.broker)
    (ho : s.broker.notifyOpen = true) (h : s.step env mp mv = .ok s') : QueueMove env s.broker s'.broker := by
  cases mv with
  | wait now batch =>
      cases h
      exact .keep (hb.wait now s.broker.busy) ⟨rfl, rfl, fun _ _ => rfl⟩
  | next =>
      unfold Machine.step at h
      cases hbatch : s.batch with
      | nil =>
          simp only [hbatch] at h
          cases h
          exact .keep hb ⟨rfl, rfl, fun _ _ => rfl⟩
      | cons e es =>
          simp only [hbatch] at h
          split at h
          · rename_i b₁ he
            cases h
            have ht := hb.wait s.broker.now ((e :: es).filterMap Ready.conn?)
            -- only the notify handler drains the queue
            by_cases hn : e = .notify
            · subst hn
              unfold runEvent handleNotify at he
              simp only at he
              rw [get_bind, bind_ok] at he
              obtain ⟨r, b₂, hloop, he⟩ := he
              obtain ⟨rfl, -⟩ := notifyLoop_tidy _ _ rfl ht hloop
              rw [if_neg (by decide)] at he
              cases he
              exact .drain ht hloop
            · have hresp : (prims env { file := True }).Resp (runEvent env mp e)
                  { s.broker with busy := (e :: es).filterMap Ready.conn? } := runEvent_prims trivial hn
              have hprims : Prims env { file := True } _ b₁ := Frame.resp_ok hresp he
              obtain ⟨ht₁, hl⟩ := hprims.tidy (fun h => h) ht
              exact .keep (ht₁.collect) ⟨hl.deque, hl.opened, hl.bufs⟩
          · cases h
  | http header topic msg =>
      unfold Machine.step at h
      simp only at h
      split at h
      · rename_i he
        cases h
        obtain ⟨buf, store, hmade, rfl⟩ := notifyMqttPublish_pushes hfed ho he
        exact .push hmade
      · cases h
  | bridge buf =>
      unfold Machine.step at h
      simp only at h
      split at h
      · rename_i he
        cases h
        obtain ⟨buf, store, hmade, rfl⟩ := bridgePublish_pushes hfed ho he
        exact .push hmade
      · cases h

theorem QueueMove.tidy (h : QueueMove env b b') (hb : Tidy idle b) (ho : b.notifyOpen = true) :
    Tidy idle b' ∧ b'.notifyOpen = true := by
  cases h with
  | keep ht hl => exact ⟨ht, hl.opened.trans ho⟩
  | push hbuf => exact ⟨(hb.push hbuf.wellFormed).collect, ho⟩
  | drain ht hloop =>
      obtain ⟨-, ht', -, ho'⟩ := notifyLoop_tidy _ _ rfl ht hloop
      exact ⟨ht'.collect, ho'.trans ho⟩

theorem RunsWhen.tidy {b₀ : Broker} {s : Machine} (hb : Started env mp b₀)
    (h : RunsWhen env mp (fun _ mv _ => Fed mv) b₀ s) : Tidy idle s.broker ∧ s.broker.notifyOpen = true := by
  induction h with
  | start => exact ⟨hb.tidy.1, hb.tidy.2.1⟩
  | step _ _ hs hfed ih => exact (Machine.step_queue hfed ih.1 ih.2 hs).tidy ih.1 ih.2

/-- **The notify queue holds PUBLISH packets only.** In every state of every run in which other threads publish what
    an HTTP request or the byte stream of the bridge gives them, each message in the queue exists, is a PUBLISH packet
    and can be decoded; draining the queue does not end with an error, and the notifier is never closed. -/
theorem fed_notified {b₀ : Broker} {s : Machine} (hb : Started env mp b₀)
    (h : RunsWhen env mp (fun _ mv _ => Fed mv) b₀ s) :
    (∀ m ∈ s.broker.notifyDeque, m < s.broker.nextBuf ∧ (s.broker.bufs m).1.msgType = .publish ∧
      (Publish.decode.decode (s.broker.bufs m).unread).isSome) ∧
    (∀ busy r b', notifyLoop env s.broker.notifyDeque { s.broker with busy } = .ok (r, b') → r = 0) ∧
    s.broker.notifyOpen = true := by
  obtain ⟨ht, ho⟩ := h.tidy hb
  refine ⟨fun m hm => ?_, fun busy r b' hloop => ?_, ho⟩
  · obtain ⟨hlt, -, hwf⟩ := ht.waiting m hm
    exact ⟨hlt, hwf⟩
  · exact (notifyLoop_tidy _ { s.broker with busy } rfl (ht.wait s.broker.now busy) hloop).1

/-- What the HTTP server does with `getRequest`. -/
def getMove : Move :=
  .http { msgType := .publish, dupFlag := false, qos := 1, retainFlag := false } (text "b") (text "c")

theorem getMove_fed : Fed getMove := by
  have hrun : (parseHeaders HttpConnection.getRequest).toOption.any (fun p =>
      decide ((publishParams p.req false).header =
          { msgType := .publish, dupFlag := false, qos := 1, retainFlag := false } ∧
        (publishParams p.req false).topic = text "b" ∧ (publishParams p.req false).msg = text "c")) = true := by
    decide +kernel
  obtain ⟨p, hp, hparams⟩ := (Option.any_eq_true _ _).mp hrun
  obtain ⟨hheader, htopic, hmsg⟩ := of_decide_eq_true hparams
  exact ⟨_, p, false, by decide +kernel, ok_of_toOption hp, hheader.symm, htopic.symm, hmsg.symm⟩

/-- A publish request puts its message into the queue. -/
theorem fed_notified_request : ∃ s, RunsWhen Env.calm packing (fun _ mv _ => Fed mv) {} s ∧
    s.broker.notifyDeque = [0] ∧ (Publish.decode.decode (s.broker.bufs 0).unread).isSome ∧
    s.broker.notifyOpen = true := by
  have hplay : (Machine.initial.step Env.calm packing getMove).toOption.any (fun s =>
      decide (s.broker.notifyDeque = [0])) = true := by decide +kernel
  obtain ⟨s, hs, hdeque⟩ := (Option.any_eq_true _ _).mp hplay
  replace hdeque := of_decide_eq_true hdeque
  have hen : Machine.initial.Enabled getMove := trivial
  have hrun : RunsWhen Env.calm packing (fun _ mv _ => Fed mv) {} s :=
    .step .start hen (ok_of_toOption hs) getMove_fed
  obtain ⟨hwf, -, ho⟩ := fed_notified .empty hrun
  exact ⟨s, hrun, hdeque, (hwf 0 (by rw [hdeque]; exact List.mem_singleton.mpr rfl)).2.2, ho⟩

end MqttServer
