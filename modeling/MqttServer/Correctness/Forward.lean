import MqttServer.Codec.Wire
import MqttServer.Correctness.Connect
import MqttServer.Correctness.FanOut

/-!
# `Correctness.Forward` — from a PUBLISH to its copies

`handle_publish_msg` decodes a PUBLISH, writes a packet identifier of its own into it and publishes the result. The
decoder takes the two bytes behind the topic for the packet identifier whatever the QoS, so a packet of QoS 0, which
has none, is refused when its payload is shorter than that, and otherwise loses two bytes of the payload to the new
identifier. The copy is one buffer for all subscribers, with one cursor: whoever takes only a part of it leaves the
rest to those who come later.
-/

namespace MqttServer

open Lib Exec

variable {env : Env} {mp : MsgPack} {b b' b₁ : Broker} {k : ConnId} {c : CtxId} {m : MbufId} {t : ByteStr}

/-! ## The layout -/

/-- A PUBLISH of MQTT 3.1 and 3.1.1. -/
structure PublishPacket where
  dup : Bool
  qos : Nat
  retain : Bool
  topic : ByteStr
  msgId : Nat
  payload : ByteStr
  qos_le : qos ≤ 2
  topic_lt : topic.length < 65536
  msgId_lt : msgId < 65536
  size_lt : topic.length + payload.length + 4 < 268435456

namespace PublishPacket

variable {p : PublishPacket}

/-- The first byte. -/
def header (p : PublishPacket) : FixedHeader :=
  { msgType := .publish, dupFlag := p.dup, qos := p.qos, retainFlag := p.retain }

/-- Behind the topic: the packet identifier, which is there exactly when the QoS is not zero, and the payload. -/
def rest (p : PublishPacket) : ByteStr := (if p.qos = 0 then [] else short p.msgId) ++ p.payload

/-- The bytes of the packet. -/
def wire (p : PublishPacket) : ByteStr := wirePacket p.header (shortString p.topic ++ p.rest)

/-- The same packet with another packet identifier. -/
def withId (p : PublishPacket) (id : Nat) (h : id < 65536) : PublishPacket := { p with msgId := id, msgId_lt := h }

/-- These bytes are the packet, but for its packet identifier. -/
def Faithful (p : PublishPacket) (bytes : ByteStr) : Prop := ∃ id h, bytes = (p.withId id h).wire

theorem rest_length_le (p : PublishPacket) : p.rest.length ≤ p.payload.length + 2 := by
  unfold rest
  split
  · rw [List.nil_append]
    omega
  · simp only [short, List.length_append, List.length_cons, List.length_nil]
    omega

theorem body_length (topic rest : ByteStr) : (shortString topic ++ rest).length = topic.length + 2 + rest.length := by
  simp only [shortString, short, List.length_append, List.length_cons, List.length_nil]
  omega

theorem body_lt (p : PublishPacket) : (shortString p.topic ++ p.rest).length < 268435456 := by
  have hrest := p.rest_length_le
  have hsize := p.size_lt
  rw [body_length]
  omega

/-- The packet up to the end of the topic, which is where the decoder looks for the packet identifier. -/
def front (p : PublishPacket) : ByteStr :=
  p.header.encode :: Pkt.lengthDigits 5 (shortString p.topic ++ p.rest).length ++ shortString p.topic

theorem wire_eq (p : PublishPacket) : p.wire = p.front ++ p.rest := by
  unfold wire wirePacket front
  simp

/-- What the decoder makes of the packet, when there are two bytes behind the topic. -/
def decoded (p : PublishPacket) : Publish :=
  { header := p.header
    topicName := p.topic
    msgId := (p.rest.getD 0 0).toNat * 256 + (p.rest.getD 1 0).toNat
    payload := p.rest.drop 2
    msgIdOffset := p.front.length }

/-- Two bytes are a short. -/
theorem rest_two (p : PublishPacket) (h : 2 ≤ p.rest.length) : ∃ n < 65536, p.rest = short n ++ p.rest.drop 2 ∧
    p.decoded.msgId = n := by
  match hr : p.rest with
  | [] =>
      rw [hr] at h
      exact absurd h (by decide)
  | [_] =>
      rw [hr] at h
      exact absurd h (by simp)
  | x :: y :: rest =>
      have hx := x.toNat_lt
      have hy := y.toNat_lt
      refine ⟨x.toNat * 256 + y.toNat, by omega, ?_, ?_⟩
      · have hdiv : (x.toNat * 256 + y.toNat) / 256 = x.toNat := by omega
        have hlow : UInt8.ofNat (x.toNat * 256 + y.toNat) = y := by
          apply UInt8.toNat_inj.mp
          rw [UInt8.toNat_ofNat']
          omega
        simp [short, hdiv, hlow]
      · unfold decoded
        simp [hr]

/-- **Decoding.** -/
theorem decode_wire (p : PublishPacket) : Publish.decode.decode p.wire =
    if p.rest.length < 2 then none else some p.decoded := by
  have hne : shortString p.topic ++ p.rest ≠ [] := by
    refine List.ne_nil_of_length_pos ?_
    rw [body_length]
    omega
  have hqos : p.header.qos ≤ 3 := Nat.le_succ_of_le p.qos_le
  have hfront : p.header.encode :: Pkt.lengthDigits 5 (shortString p.topic ++ p.rest).length ++ shortString p.topic =
      p.front := rfl
  unfold PktM.decode Publish.decode wire
  rw [PktM.bind_some (decodeHeader_wirePacket hqos hne p.body_lt), PktM.bind_some (PktM.readString_behind p.topic_lt),
    PktM.bind_some (PktM.length_eq _), hfront]
  by_cases htwo : p.rest.length < 2
  · have hshort : PktM.readShort (Pkt.behind p.front p.rest) = (none, Pkt.behind p.front p.rest) := by
      unfold PktM.readShort
      rw [if_pos]
      rw [PktM.leftSize_behind]
      omega
    rw [if_pos htwo, PktM.bind_none hshort]
  · obtain ⟨n, hn, hrest, hid⟩ := p.rest_two (by omega)
    have hshort : PktM.readShort (Pkt.behind p.front (short n ++ p.rest.drop 2)) =
        (some n, Pkt.behind (p.front ++ short n) (p.rest.drop 2)) := PktM.readShort_behind hn
    rw [← hrest] at hshort
    rw [if_neg htwo, PktM.bind_some hshort, PktM.bind_some PktM.readRest_behind, ← hid]
    rfl

theorem Faithful.length_eq {bytes : ByteStr} (h : p.Faithful bytes) : bytes.length = p.wire.length := by
  obtain ⟨id, hid, rfl⟩ := h
  have hrest : (p.withId id hid).rest.length = p.rest.length := by
    show ((if p.qos = 0 then [] else short id) ++ p.payload).length = _
    unfold rest
    split <;> simp [short]
  have hbody : (shortString p.topic ++ (p.withId id hid).rest).length = (shortString p.topic ++ p.rest).length := by
    rw [body_length, body_length, hrest]
  unfold wire
  rw [wirePacket_length, wirePacket_length]
  show (shortString p.topic ++ (p.withId id hid).rest).length +
    (Pkt.lengthDigits 5 (shortString p.topic ++ (p.withId id hid).rest).length).length + 1 = _
  rw [hbody]

/-- **Rewriting** puts the identifier over the two bytes behind the topic. -/
theorem rewriteMsgId_wire (p : PublishPacket) (h : 2 ≤ p.rest.length) (id : Nat) :
    rewriteMsgId p.decoded p.wire id = p.front ++ short (id % 65536) ++ p.rest.drop 2 := by
  have hlt : p.decoded.msgIdOffset < p.wire.length := by
    rw [wire_eq, List.length_append]
    show p.front.length < _
    omega
  unfold rewriteMsgId
  rw [if_pos hlt, wire_eq]
  show Pkt.store (p.front ++ p.rest) p.front.length (short (id % 65536)) = _
  unfold Pkt.store
  rw [List.take_left, List.drop_append, List.drop_of_length_le (by omega), List.nil_append]
  simp [short]

theorem rewriteMsgId_length (p : PublishPacket) (h : 2 ≤ p.rest.length) (id : Nat) :
    (rewriteMsgId p.decoded p.wire id).length = p.wire.length := by
  rw [p.rewriteMsgId_wire h, p.wire_eq]
  simp only [short, List.length_append, List.length_cons, List.length_nil, List.length_drop]
  omega

/-- The copy is faithful when there is an identifier to be rewritten, or when the bytes in its place happen to be the
    new one. -/
theorem faithful_rewriteMsgId (p : PublishPacket) (h : 2 ≤ p.rest.length) (id : Nat) :
    p.Faithful (rewriteMsgId p.decoded p.wire id) ↔ 0 < p.qos ∨ p.payload.take 2 = short (id % 65536) := by
  rw [p.rewriteMsgId_wire h]
  by_cases hqos : p.qos = 0
  · have hrest : ∀ i hi, (p.withId i hi).rest = p.payload := by
      intro i hi
      show (if p.qos = 0 then [] else _) ++ p.payload = _
      rw [if_pos hqos, List.nil_append]
    have hself : p.rest = p.payload := hrest p.msgId p.msgId_lt
    have hwire : ∀ i hi, (p.withId i hi).wire = p.front ++ p.payload := by
      intro i hi
      rw [wire_eq, hrest]
      unfold front
      rw [hrest, hself]
      rfl
    have hsplit : p.front ++ short (id % 65536) ++ p.payload.drop 2 = p.front ++ p.payload ↔
        p.payload.take 2 = short (id % 65536) := by
      rw [List.append_assoc, List.append_right_inj]
      constructor
      · intro he
        rw [← he]
        rfl
      · intro he
        rw [← he, List.take_append_drop]
    rw [hself]
    constructor
    · rintro ⟨i, hi, he⟩
      rw [hwire] at he
      exact Or.inr (hsplit.mp he)
    · rintro (hpos | he)
      · omega
      · exact ⟨p.msgId, p.msgId_lt, by rw [hwire]; exact hsplit.mpr he⟩
  · have hid : id % 65536 < 65536 := Nat.mod_lt _ (by decide)
    have hrest : ∀ i hi, (p.withId i hi).rest = short i ++ p.payload := by
      intro i hi
      show (if p.qos = 0 then [] else short i) ++ p.payload = _
      rw [if_neg hqos]
    have hself : p.rest = short p.msgId ++ p.payload := hrest p.msgId p.msgId_lt
    refine ⟨fun _ => Or.inl (Nat.pos_of_ne_zero hqos), fun _ => ⟨id % 65536, hid, ?_⟩⟩
    have hfront : (p.withId (id % 65536) hid).front = p.front := by
      unfold front
      rw [hrest, hself]
      have hlen : (shortString p.topic ++ (short (id % 65536) ++ p.payload)).length =
          (shortString p.topic ++ (short p.msgId ++ p.payload)).length := by simp [short]
      show p.header.encode :: Pkt.lengthDigits 5 (shortString p.topic ++ (short (id % 65536) ++ p.payload)).length ++ _ = _
      rw [hlen]
      rfl
    rw [wire_eq, hfront, hrest, hself, List.append_assoc]
    rfl

end PublishPacket

/-! ## What is put to subscribers -/

/-- The bytes that a round of the loop puts: those left in the buffer, when the subscriber is online. -/
def putBytes (m : MbufId) (b : Broker) (c : CtxId) : List ByteStr :=
  match (b.sess.ctxs c).mqttConnection with
  | some _ => [(b.bufs m).unread]
  | none => []

/-- `handle_publish_msg` with the bytes it puts to subscribers; `none` for a packet it refuses. -/
def handlePublishBytes (env : Env) (k : ConnId) (buf : ByteStr) : BrokerM (Option (Int × ByteStr × List ByteStr)) := do
  let c ← clientContext env k
  let b ← get
  if (b.sess.ctxs c).clientStatus ≠ .connected then pure none
  else
    match Publish.decode.decode buf with
    | none => pure none
    | some msg => do
        let res ← reply env k 64 (encodePublishAck 64 msg.msgId)
        touch k
        let m ← registBuf .data buf.length (rewriteMsgId msg buf)
        let b ← get
        let bytes ← publishTopicNoting (putBytes m) env msg.topicName m msg
        pure (some (res, rewriteMsgId msg buf (b.bufs m).msgId, bytes))

/-- The result of `handle_publish_msg`. -/
def PublishResult (buf : ByteStr) : Option (Int × ByteStr × List ByteStr) → Int × ByteStr
  | none => (-1, buf)
  | some (res, out, _) => (res, out)

/-- Unwatched it is the handler. -/
theorem handlePublishMsg_bytes (buf : ByteStr) (b : Broker) :
    (handlePublishBytes env k buf >>= fun r => pure (PublishResult buf r) : BrokerM (Int × ByteStr)) b =
      handlePublishMsg env k buf b := by
  unfold handlePublishBytes handlePublishMsg
  simp only [bind_assoc]
  rw [bind_apply, bind_apply]
  cases clientContext env k b with
  | error e => rfl
  | ok p =>
      simp only
      rw [get_bind, get_bind]
      by_cases hs : (p.2.sess.ctxs p.1).clientStatus ≠ .connected
      · rw [if_pos hs, if_pos hs]
        rfl
      · rw [if_neg hs, if_neg hs]
        cases Publish.decode.decode buf with
        | none => rfl
        | some msg =>
            simp only [bind_assoc]
            rw [bind_apply, bind_apply]
            cases reply env k 64 (encodePublishAck 64 msg.msgId) p.2 with
            | error e => rfl
            | ok q =>
                simp only
                rw [bind_apply, bind_apply]
                cases touch k q.2 with
                | error e => rfl
                | ok q =>
                    simp only
                    rw [bind_apply, bind_apply]
                    cases registBuf .data buf.length (rewriteMsgId msg buf) q.2 with
                    | error e => rfl
                    | ok q =>
                        simp only
                        rw [get_bind, get_bind, bind_apply, bind_apply, ← publishTopic_noting (putBytes q.1), bind_apply]
                        cases publishTopicNoting (putBytes q.1) env msg.topicName q.1 msg q.2 with
                        | error e => rfl
                        | ok r => rfl

/-- The connections a list of subscribers is online with. -/
def Sess.online (s : Sess) (cs : List CtxId) : List ConnId := cs.filterMap fun c => (s.ctxs c).mqttConnection

/-- Only the last of the connections may take a part of the buffer. -/
def Steady (env : Env) (b : Broker) (m : MbufId) : List ConnId → Prop
  | [] => True
  | k :: ks => (ks = [] ∨ ¬ b.Moves env k m) ∧ Steady env b m ks

/-- What is put, in a loop that goes through. -/
structure PutsOf (env : Env) (b : Broker) (m : MbufId) (ks : List ConnId) (bytes : List ByteStr) : Prop where
  length : bytes.length = ks.length
  first : ∀ x, bytes.head? = some x → x = (b.bufs m).unread
  steady : Steady env b m ks → ∀ x ∈ bytes, x = (b.bufs m).unread
  unsteady : ¬ Steady env b m ks → ∃ x ∈ bytes, x.length < (b.bufs m).unread.length

/-- The connections of the others see the same buffer, unless this one has moved it. -/
theorem steady_congr {ks : List ConnId} (hbuf : b₁.bufs m = b.bufs m)
    (hks : ∀ k ∈ ks, b₁.handlers k = b.handlers k ∧ b₁.nwrites k = b.nwrites k) :
    Steady env b₁ m ks ↔ Steady env b m ks := by
  induction ks with
  | nil => exact Iff.rfl
  | cons k ks ih =>
      obtain ⟨hhand, hwrites⟩ := hks k List.mem_cons_self
      have hmoves : b₁.Moves env k m ↔ b.Moves env k m := by
        unfold Broker.Moves
        rw [hhand, hwrites, hbuf]
      unfold Steady
      rw [hmoves, ih fun k' hk' => hks k' (List.mem_cons_of_mem k hk')]

namespace PutsOf

variable {ks : List ConnId} {bytes : List ByteStr}

theorem congr (h : PutsOf env b₁ m ks bytes) (hbuf : b₁.bufs m = b.bufs m)
    (hks : ∀ k ∈ ks, b₁.handlers k = b.handlers k ∧ b₁.nwrites k = b.nwrites k) : PutsOf env b m ks bytes := by
  have hsteady : Steady env b₁ m ks ↔ Steady env b m ks := steady_congr hbuf hks
  constructor
  case length => exact h.length
  case first =>
    rw [← hbuf]
    exact h.first
  case steady =>
    rw [← hsteady, ← hbuf]
    exact h.steady
  case unsteady =>
    rw [← hsteady, ← hbuf]
    exact h.unsteady

/-- A connection that leaves the buffer alone. -/
theorem cons (h : PutsOf env b m ks bytes) (hm : ¬ b.Moves env k m) :
    PutsOf env b m (k :: ks) ((b.bufs m).unread :: bytes) := by
  constructor
  case length => rw [List.length_cons, List.length_cons, h.length]
  case first =>
    intro x hx
    exact (Option.some.inj hx).symm
  case steady =>
    intro hs x hx
    rcases List.mem_cons.mp hx with rfl | hx
    · rfl
    · exact h.steady hs.2 x hx
  case unsteady =>
    intro hs
    obtain ⟨x, hx, hlt⟩ := h.unsteady fun hks => hs ⟨Or.inr hm, hks⟩
    exact ⟨x, List.mem_cons_of_mem _ hx, hlt⟩

/-- A connection that takes a part of the buffer: the next one, if there is one, gets the rest. -/
theorem cons_moved (h : PutsOf env b₁ m ks bytes) (hm : b.Moves env k m)
    (hlt : (b₁.bufs m).1.length < (b.bufs m).1.length) : PutsOf env b m (k :: ks) ((b.bufs m).unread :: bytes) := by
  constructor
  case length => rw [List.length_cons, List.length_cons, h.length]
  case first =>
    intro x hx
    exact (Option.some.inj hx).symm
  case steady =>
    intro hs x hx
    have hks : ks = [] := hs.1.resolve_right (not_not_intro hm)
    have hnil : bytes = [] := by
      refine List.length_eq_zero_iff.mp ?_
      rw [h.length, hks]
      rfl
    rw [hnil] at hx
    exact List.mem_singleton.mp hx
  case unsteady =>
    intro hs
    have hks : ks ≠ [] := by
      rintro rfl
      exact hs ⟨Or.inl rfl, trivial⟩
    cases bytes with
    | nil =>
        have hlen := h.length
        exact absurd (List.length_eq_zero_iff.mp hlen.symm) hks
    | cons x bytes =>
        refine ⟨x, List.mem_cons_of_mem _ List.mem_cons_self, ?_⟩
        rw [h.first x rfl, Buf.length_unread, Buf.length_unread]
        exact hlt

end PutsOf

/-- **The loop and its bytes.** -/
theorem publishLoopNoting_bytes (cs : List CtxId) : ∀ b : Broker, cs.Nodup →
    (∀ c ∈ cs, c ∈ b.sess.topicMgr.clients t) → b.sess.WellLinked cs →
    (∀ c ∈ cs, Severed env b c → ¬ b.sess.Leaves t c) →
      ∃ bytes b', publishLoopNoting (putBytes m) env t m cs b = .ok (bytes, b') ∧
        PutsOf env b m (b.sess.online cs) bytes := by
  induction cs with
  | nil =>
      intro b _ _ _ _
      exact ⟨[], b, rfl, rfl, (fun _ h => by cases h), (fun _ _ h => by cases h), fun h => absurd trivial h⟩
  | cons c cs ih =>
      intro b hnd hmem hw hstay
      obtain ⟨hc, hnd⟩ := List.nodup_cons.mp hnd
      obtain ⟨b₁, hround, hpub⟩ := publishClient_visited env m fun k hk => hw c List.mem_cons_self k hk
      have hset := hpub.stays (t := t) fun hx => hstay c List.mem_cons_self hx.1 hx.2
      obtain ⟨hw₁, hsame⟩ := hpub.wellLinked (t := t) hc hw
      obtain ⟨bytes, b', hloop, hputs⟩ := ih b₁ hnd
        (fun c' hc' => (hset c').mpr (hmem c' (List.mem_cons_of_mem c hc'))) hw₁ (fun c' hc' hlost hleaves =>
          hstay c' (List.mem_cons_of_mem c hc') ((hsame c' hc').1.mp hlost) ((hsame c' hc').2.mp hleaves))
      have hin := hmem c List.mem_cons_self
      have hrun : publishLoopNoting (putBytes m) env t m (c :: cs) b = .ok (putBytes m b c ++ bytes, b') := by
        rw [publishLoopNoting_round hin hround ((hset c).mpr hin), bind_apply, hloop]
        rfl
      have honline : b₁.sess.online cs = b.sess.online cs := by
        unfold Sess.online
        refine List.filterMap_congr fun c' hc' => ?_
        rw [hpub.other]
        rintro rfl
        exact hc hc'
      have happart : ∀ k, (b.sess.ctxs c).mqttConnection = some k → ∀ k' ∈ b.sess.online cs, k ≠ k' := by
        rintro k hk k' hk' rfl
        obtain ⟨c', hc', hlink⟩ := List.mem_filterMap.mp hk'
        have hown := hw c' (List.mem_cons_of_mem c hc') k hlink
        rw [hw c List.mem_cons_self k hk] at hown
        cases hown
        exact hc hc'
      have hothers : ∀ k' ∈ b.sess.online cs, b₁.handlers k' = b.handlers k' ∧ b₁.nwrites k' = b.nwrites k' := by
        intro k' hk'
        refine hpub.others k' fun hlink => ?_
        exact happart k' hlink k' hk' rfl
      rw [honline] at hputs
      refine ⟨_, b', hrun, ?_⟩
      cases hlink : (b.sess.ctxs c).mqttConnection with
      | none =>
          -- nothing is put, and the buffer is as it was
          have hbuf : b₁.bufs m = b.bufs m := by
            refine hpub.unmoved fun k hk => ?_
            rw [hlink] at hk
            cases hk
          have hnone : putBytes m b c = [] := by
            unfold putBytes
            rw [hlink]
          have hcons : b.sess.online (c :: cs) = b.sess.online cs := by
            unfold Sess.online
            rw [List.filterMap_cons, hlink]
          rw [hnone, List.nil_append, hcons]
          exact hputs.congr hbuf hothers
      | some k =>
          have hone : putBytes m b c = [(b.bufs m).unread] := by
            unfold putBytes
            rw [hlink]
          have hcons : b.sess.online (c :: cs) = k :: b.sess.online cs := by
            unfold Sess.online
            rw [List.filterMap_cons, hlink]
          rw [hone, hcons]
          by_cases hm : b.Moves env k m
          · exact hputs.cons_moved hm (hpub.moved k hlink hm)
          · refine (hputs.congr (hpub.unmoved fun k' hk' => ?_) hothers).cons hm
            rw [hlink] at hk'
            cases hk'
            exact hm

/-- The whole of `publish` and its bytes. -/
theorem publishTopicNoting_bytes (msg : Publish) (hw : b.sess.WellLinked (b.sess.topicMgr.clients t).toList)
    (hstay : ∀ c ∈ b.sess.topicMgr.clients t, Severed env b c → ¬ b.sess.Leaves t c) (hm : m ≠ b.nextBuf) :
    ∃ bytes b', publishTopicNoting (putBytes m) env t m msg b = .ok (bytes, b') ∧
      PutsOf env b m (b.sess.online (env.order (b.sess.topicMgr.clients t).toList)) bytes := by
  obtain ⟨b₁, hsame, hbuf, heq⟩ := publishTopicNoting_eq (putBytes m) env t m msg b
  rw [heq]
  by_cases hno : (b.sess.topicMgr.lookup t).isNone
  · have hempty : (b.sess.topicMgr.clients t).toList = [] := by
      simp only [TopicMgr.clients, Option.isNone_iff_eq_none.mp hno]
      rfl
    have hnil : env.order ([] : List CtxId) = [] := List.perm_nil.mp (env.order_perm [])
    rw [if_pos hno, hempty, hnil]
    exact ⟨[], b₁, rfl, rfl, (fun _ h => by cases h), (fun _ _ h => by cases h), fun h => absurd trivial h⟩
  · have hperm := env.order_perm (b₁.sess.topicMgr.clients t).toList
    have hw₁ : b₁.sess.WellLinked (env.order (b₁.sess.topicMgr.clients t).toList) :=
      hsame.wellLinked.mpr fun c hc => hw c ((mem_order hsame).mp hc)
    obtain ⟨bytes, b', hloop, hputs⟩ := publishLoopNoting_bytes (m := m) _ b₁
      (hperm.nodup_iff.mpr (b₁.sess.topicMgr.clients t).nodup) (fun c hc => hperm.mem_iff.mp hc) hw₁
      fun c hc hlost hleaves => hstay c ((mem_order hsame).mp hc) (hsame.severed.mp hlost) (hsame.leaves.mp hleaves)
    have honline : b₁.sess.online (env.order (b₁.sess.topicMgr.clients t).toList) =
        b.sess.online (env.order (b.sess.topicMgr.clients t).toList) := by
      unfold Sess.online
      rw [hsame.ctxs, hsame.clients]
    rw [honline] at hputs
    refine ⟨bytes, b'.endStat (b.bufs m).msgId, ?_, hputs.congr (hbuf hm) fun k _ => ?_⟩
    · rw [if_neg hno, bind_apply, hloop]
      rfl
    · rw [hsame.handlers, hsame.nwrites]
      exact ⟨rfl, rfl⟩

/-! ## The handler -/

/-- The broker with a new buffer. -/
def Broker.withBuf (b : Broker) (buf : Buf) : Broker :=
  { b with bufs := Function.update b.bufs b.nextBuf buf, nextBuf := b.nextBuf + 1 }

/-- The `put` of the PUBACK. -/
def Broker.ackPut (env : Env) (b : Broker) (k : ConnId) (msgId : Nat) : EventHandler.Output :=
  (b.handlers k).put (b.withBuf (Buf.make 64 b.now ((encodePublishAck 64 msgId).getD []))).bufs b.nextBuf
    (env.write k (b.nwrites k))

/-- The broker after the PUBACK was put. -/
def Broker.acked (env : Env) (b : Broker) (k : ConnId) (msgId : Nat) : Broker :=
  (b.withBuf (Buf.make 64 b.now ((encodePublishAck 64 msgId).getD []))).afterPut env k b.nextBuf

/-- The broker when `publish` is called. -/
def Broker.publishing (env : Env) (b : Broker) (k : ConnId) (p : PublishPacket) : Broker :=
  final (registBuf .data p.wire.length (rewriteMsgId p.decoded p.wire) (b.acked env k p.decoded.msgId))

/-- The id of the next message. -/
def Broker.nextMsgId (b : Broker) : Nat := (b.store.lastMsgId + 1) % 2 ^ 64

variable {p : PublishPacket}

/-- The PUBACK is a `put` of its own. -/
theorem reply_puback (msgId : Nat) : reply env k 64 (encodePublishAck 64 msgId) b =
    put env k b.nextBuf (b.withBuf (Buf.make 64 b.now ((encodePublishAck 64 msgId).getD []))) := by
  have he : encodePublishAck 64 msgId = some (wirePacket { msgType := .puback } (short msgId)) :=
    PublishAck.encodeInto_eq _ msgId (by decide)
  unfold reply Broker.withBuf
  rw [get_bind, he]
  rfl

theorem registBuf_publishing (env : Env) (b : Broker) (k : ConnId) (p : PublishPacket) :
    registBuf .data p.wire.length (rewriteMsgId p.decoded p.wire) (b.acked env k p.decoded.msgId) =
      .ok (b.nextBuf + 1, b.publishing env k p) := rfl

/-- The buffer that is published. -/
theorem publishing_buf (env : Env) (b : Broker) (k : ConnId) (h : 2 ≤ p.rest.length) :
    ((b.publishing env k p).bufs (b.nextBuf + 1)).unread = rewriteMsgId p.decoded p.wire b.nextMsgId := by
  have hlen : (rewriteMsgId p.decoded p.wire b.nextMsgId).length = p.wire.length := p.rewriteMsgId_length h _
  have hsize : p.wire.length < 2 ^ 32 := by
    have hbody := p.body_lt
    have hdigits := Pkt.lengthDigits_length 5 (shortString p.topic ++ p.rest).length
    unfold PublishPacket.wire
    rw [wirePacket_length]
    omega
  have hbuf : (b.publishing env k p).bufs (b.nextBuf + 1) =
      (Buf.make p.wire.length b.now (rewriteMsgId p.decoded p.wire b.nextMsgId)).tag b.nextMsgId .data true :=
    Function.update_self _ _ _
  rw [hbuf, Buf.tag_unread, Buf.make_unread (Nat.le_of_eq hlen) hsize]

/-- A connected client's PUBLISH that can be decoded and whose PUBACK is taken comes to `publish`. -/
theorem handlePublishBytes_eq (hc : b.sess.contextOf k = some c) (hs : (b.sess.ctxs c).clientStatus = .connected)
    (h : 2 ≤ p.rest.length) (ht : b.Takes env k) : handlePublishBytes env k p.wire b =
      (publishTopicNoting (putBytes (b.nextBuf + 1)) env p.topic (b.nextBuf + 1) p.decoded >>= fun bytes =>
        pure (some ((b.ackPut env k p.decoded.msgId).res,
          rewriteMsgId p.decoded p.wire ((b.publishing env k p).bufs (b.nextBuf + 1)).msgId, bytes)) :
        BrokerM _) (b.publishing env k p) := by
  have ha : b.sess.Alive k := Sess.alive_of_contextOf hc
  have hstatus : ¬ (b.sess.ctxs c).clientStatus ≠ .connected := not_not_intro hs
  have hput : put env k b.nextBuf (b.withBuf (Buf.make 64 b.now ((encodePublishAck 64 p.decoded.msgId).getD []))) =
      .ok ((b.ackPut env k p.decoded.msgId).res, b.acked env k p.decoded.msgId) := put_takes ha ht
  have htouch : touch k (b.acked env k p.decoded.msgId) = .ok ((), b.acked env k p.decoded.msgId) := touch_alive ha
  unfold handlePublishBytes
  rw [bind_apply, clientContext_some hc]
  simp only
  rw [get_bind, if_neg hstatus, p.decode_wire, if_neg (by omega)]
  simp only
  rw [bind_apply, reply_puback, hput]
  simp only
  rw [bind_apply, htouch]
  simp only
  rw [bind_apply, registBuf_publishing]
  simp only
  rw [get_bind]
  rfl

/-- A PUBLISH that comes to `publish` was decoded, and its PUBACK did not lose the connection. -/
theorem handlePublishBytes_some {r : Int × ByteStr × List ByteStr} (hc : b.sess.contextOf k = some c)
    (h : handlePublishBytes env k p.wire b = .ok (some r, b')) : 2 ≤ p.rest.length ∧ b.Takes env k := by
  unfold handlePublishBytes at h
  rw [bind_apply, clientContext_some hc] at h
  simp only at h
  rw [get_bind, p.decode_wire] at h
  split at h
  · cases h
  · by_cases htwo : p.rest.length < 2
    · rw [if_pos htwo] at h
      cases h
    · rw [if_neg htwo] at h
      simp only at h
      rw [bind_ok] at h
      obtain ⟨res, b₂, hreply, h⟩ := h
      rw [touch_bind_ok] at h
      rw [reply_puback] at hreply
      have ht : (b.withBuf (Buf.make 64 b.now ((encodePublishAck 64 p.decoded.msgId).getD []))).Takes env k :=
        takes_of_alive hreply h.1
      exact ⟨Nat.le_of_not_lt htwo, ht⟩

/-- The packet is accepted, by a result that is not negative, and whatever is put to a subscriber is the packet, but
    for its packet identifier. -/
def Forwards (env : Env) (k : ConnId) (p : PublishPacket) (b : Broker) : Prop :=
  ∃ res out bytes b', handlePublishBytes env k p.wire b = .ok (some (res, out, bytes), b') ∧ 0 ≤ res ∧
    ∀ x ∈ bytes, p.Faithful x

theorem PublishPacket.two_le_rest (p : PublishPacket) : 2 ≤ p.rest.length ↔ 0 < p.qos ∨ 2 ≤ p.payload.length := by
  unfold PublishPacket.rest
  by_cases hqos : p.qos = 0
  · rw [if_pos hqos, List.nil_append]
    omega
  · rw [if_neg hqos]
    simp only [short, List.length_append, List.length_cons, List.length_nil]
    omega

/-- All copies are faithful when the first one is and nobody moves the buffer under the others. -/
theorem PutsOf.faithful {ks : List ConnId} {bytes : List ByteStr} (htwo : 2 ≤ p.rest.length)
    (h : PutsOf env (b.publishing env k p) (b.nextBuf + 1) ks bytes) : (∀ x ∈ bytes, p.Faithful x) ↔
      ks = [] ∨ (0 < p.qos ∨ p.payload.take 2 = short (b.nextMsgId % 65536)) ∧
        Steady env (b.publishing env k p) (b.nextBuf + 1) ks := by
  have hout := publishing_buf env b k htwo
  have hlen : (rewriteMsgId p.decoded p.wire b.nextMsgId).length = p.wire.length := p.rewriteMsgId_length htwo _
  rw [← p.faithful_rewriteMsgId htwo]
  constructor
  · intro hall
    cases bytes with
    | nil => exact Or.inl (List.length_eq_zero_iff.mp h.length.symm)
    | cons x bytes =>
        right
        have hx := h.first x rfl
        rw [hout] at hx
        refine ⟨hx ▸ hall x List.mem_cons_self, ?_⟩
        by_contra hun
        obtain ⟨y, hy, hlt⟩ := h.unsteady hun
        rw [hout, hlen, (hall y hy).length_eq] at hlt
        exact absurd hlt (Nat.lt_irrefl _)
  · rintro (hnil | ⟨hfaith, hsteady⟩) x hx
    · have hlength := h.length
      rw [hnil] at hlength
      rw [List.length_eq_zero_iff.mp hlength] at hx
      cases hx
    · rw [h.steady hsteady x hx, hout]
      exact hfaith

/-- **A PUBLISH is forwarded faithfully exactly when** its PUBACK is accepted; it has two bytes behind the topic; no clean
    subscriber is lost while the loop stands in the set; and, if any subscriber is online, the two bytes are a packet
    identifier, or happen to be the new one, and no subscriber but the last takes a part of the buffer only. -/
theorem forwards_iff (p : PublishPacket) (hc : b.sess.contextOf k = some c)
    (hs : (b.sess.ctxs c).clientStatus = .connected)
    (hw : b.sess.WellLinked (b.sess.topicMgr.clients p.topic).toList) :
    Forwards env k p b ↔ b.Accepts env k ∧ (0 < p.qos ∨ 2 ≤ p.payload.length) ∧
      (∀ c ∈ b.sess.topicMgr.clients p.topic, Severed env (b.publishing env k p) c → ¬ b.sess.Leaves p.topic c) ∧
      (b.sess.online (env.order (b.sess.topicMgr.clients p.topic).toList) = [] ∨
        (0 < p.qos ∨ p.payload.take 2 = short (b.nextMsgId % 65536)) ∧
        Steady env (b.publishing env k p) (b.nextBuf + 1)
          (b.sess.online (env.order (b.sess.topicMgr.clients p.topic).toList))) := by
  have hw₁ : (b.publishing env k p).sess.WellLinked ((b.publishing env k p).sess.topicMgr.clients p.topic).toList := hw
  have hnew : b.nextBuf + 1 ≠ (b.publishing env k p).nextBuf := Nat.ne_of_lt (Nat.lt_succ_self (b.nextBuf + 1))
  rw [← p.two_le_rest]
  constructor
  · rintro ⟨res, out, bytes, b', hrun, hres, hall⟩
    obtain ⟨htwo, ht⟩ := handlePublishBytes_some hc hrun
    rw [handlePublishBytes_eq hc hs htwo ht, bind_ok] at hrun
    obtain ⟨bytes', b₂, hpub, hrun⟩ := hrun
    cases hrun
    have hstay := publishTopicNoting_stays hw₁ hpub
    obtain ⟨bytes'', b₃, hpub', hputs⟩ := publishTopicNoting_bytes p.decoded hw₁ hstay hnew
    rw [hpub] at hpub'
    cases hpub'
    have haccept : b.Accepts env k := ⟨ht, (EventHandler.put_nonneg_iff _ _ ht).mp hres⟩
    exact ⟨haccept, htwo, hstay, (hputs.faithful htwo).mp hall⟩
  · rintro ⟨⟨ht, hroom⟩, htwo, hstay, hrest⟩
    have hres : 0 ≤ (b.ackPut env k p.decoded.msgId).res := (EventHandler.put_nonneg_iff _ _ ht).mpr hroom
    obtain ⟨bytes, b₂, hpub, hputs⟩ := publishTopicNoting_bytes p.decoded hw₁ hstay hnew
    refine ⟨_, rewriteMsgId p.decoded p.wire ((b.publishing env k p).bufs (b.nextBuf + 1)).msgId, bytes, b₂, ?_,
      hres, (hputs.faithful htwo).mpr hrest⟩
    rw [handlePublishBytes_eq hc hs htwo ht, bind_apply, hpub]
    rfl

/-- A PUBLISH for a topic of one byte. -/
def helloPacket (qos : Nat) (h : qos ≤ 2) : PublishPacket :=
  { dup := false, qos := qos, retain := false, topic := [116], msgId := 7, payload := [104, 105, 33], qos_le := h
    topic_lt := by decide, msgId_lt := by decide, size_lt := by decide }

/-- A subscriber and a publisher. -/
def twoClients : List Move :=
  Move.alone 1 .accept ++ Move.alone 2 .accept ++ Move.alone 3 (.input 0 (connectPacket 65 2)) ++
    Move.alone 4 (.input 0 (subscribePacket 116)) ++ Move.alone 5 (.input 1 (connectPacket 66 2))

/-- With QoS 1 the subscriber gets the packet. -/
theorem forwards_qosOne : ∃ m : Machine, Reach Env.calm packing m ∧
    m.broker.sess.online (m.broker.sess.topicMgr.clients [116]).toList = [0] ∧
    Forwards Env.calm 1 (helloPacket 1 (by decide)) m.broker := by
  have hrun : (Machine.initial.play Env.calm packing twoClients).any (fun m => decide (OneConnect m.broker.log ∧
      m.broker.sess.contextOf 1 = some (.conn 1) ∧ (m.broker.sess.ctxs (.conn 1)).clientStatus = .connected ∧
      m.broker.Accepts Env.calm 1 ∧ (m.broker.sess.topicMgr.clients [116]).toList = [.conn 0] ∧
      (m.broker.sess.ctxs (.conn 0)).mqttConnection = some 0 ∧
      (m.broker.publishing Env.calm 1 (helloPacket 1 (by decide))).Takes Env.calm 0)) = true := by
    decide +kernel
  obtain ⟨m, hm, hone, hctx, hstatus, haccepts, hset, hlink, hsub⟩ := Machine.exists_reach hrun
  have honline : m.broker.sess.online [.conn 0] = [0] := by
    unfold Sess.online
    rw [List.filterMap_cons, hlink]
    rfl
  have hpub : Forwards Env.calm 1 (helloPacket 1 (by decide)) m.broker ↔ _ :=
    forwards_iff (helloPacket 1 (by decide)) hctx hstatus (hm.wellLinked hone [116])
  refine ⟨m, hm, by rw [hset, honline], hpub.mpr ⟨haccepts, Or.inl (by decide), ?_, Or.inr ⟨Or.inl (by decide), ?_⟩⟩⟩
  · rintro c hc ⟨k, hk, hlost⟩
    have hc' : c ∈ (m.broker.sess.topicMgr.clients [116]).toList := hc
    rw [hset, List.mem_singleton] at hc'
    subst hc'
    have hk' : (m.broker.sess.ctxs (.conn 0)).mqttConnection = some k := hk
    rw [hlink] at hk'
    cases hk'
    exact absurd hsub hlost
  · show Steady _ _ _ (m.broker.sess.online (m.broker.sess.topicMgr.clients [116]).toList)
    rw [hset, honline]
    exact ⟨Or.inl rfl, trivial⟩

/-- **With QoS 0** the subscriber gets a packet whose payload begins with the identifier of the broker. -/
theorem not_forwards_qosZero : ∃ m : Machine, Reach Env.calm packing m ∧
    m.broker.sess.contextOf 1 = some (.conn 1) ∧ (m.broker.sess.ctxs (.conn 1)).clientStatus = .connected ∧
    ((handlePublishBytes Env.calm 1 (helloPacket 0 (by decide)).wire m.broker).toOption.any fun r =>
      r.1.any fun x => decide (x.2.2 = [[0x30, 6, 0, 1, 116, 0, 1, 33]])) = true ∧
    ¬ Forwards Env.calm 1 (helloPacket 0 (by decide)) m.broker := by
  have hrun : (Machine.initial.play Env.calm packing twoClients).any (fun m => decide (
      m.broker.sess.contextOf 1 = some (.conn 1) ∧ (m.broker.sess.ctxs (.conn 1)).clientStatus = .connected ∧
      ((handlePublishBytes Env.calm 1 (helloPacket 0 (by decide)).wire m.broker).toOption.any fun r =>
        r.1.any fun x => decide (x.2.2 = [[0x30, 6, 0, 1, 116, 0, 1, 33]])) = true)) = true := by
    decide +kernel
  obtain ⟨m, hm, hctx, hstatus, hbytes⟩ := Machine.exists_reach hrun
  refine ⟨m, hm, hctx, hstatus, hbytes, ?_⟩
  rintro ⟨res, out, bytes, b', hrun', -, hall⟩
  rw [hrun'] at hbytes
  have hone : bytes = [[0x30, 6, 0, 1, 116, 0, 1, 33]] := of_decide_eq_true hbytes
  obtain ⟨id, hid, he⟩ := hall [0x30, 6, 0, 1, 116, 0, 1, 33] (by rw [hone]; exact List.mem_cons_self)
  -- the identifier is not on the wire
  have hwire : ((helloPacket 0 (by decide)).withId id hid).wire = (helloPacket 0 (by decide)).wire := by
    unfold PublishPacket.wire PublishPacket.rest PublishPacket.withId helloPacket
    simp only [if_true]
    rfl
  rw [hwire] at he
  exact absurd he (by decide +kernel)

end MqttServer
