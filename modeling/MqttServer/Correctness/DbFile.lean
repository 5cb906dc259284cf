import MqttServer.Correctness.DbFormat
import MqttServer.Correctness.Restore

/-!
# `Correctness.DbFile` — what comes back from a hand-written db file

Chunks whose headers are right are read one after the other (`restoreLoop_chunks`). The topic loop counts twice in each round,
so that half of the topics is left unread (`restoreTopics_length`), and what stands in their place is taken for the messages.
With one session of at most one topic everything comes back (`gives_back_iff`). Whatever a file contains, there is a result
or a read behind the static buffer (`restore_fault`).
-/

namespace MqttServer
namespace Persist

open Lib Exec

/-! ## What is to come back -/

/-- The id and the bytes of a message of the message table. -/
def storedMsg (src : Tables) (id : UInt64) : Option (Nat × ByteStr) :=
  (src.msgDb.lookup id).map fun m => (id.toNat, m.unread)

/-- The id and the bytes of a message that was made while the file was read. -/
def restoredMsg (s : State) (m : MbufId) : Option (Nat × ByteStr) :=
  (s.bufs[m]?).map fun m => (m.msgId, m.unread)

/-- A session came back as the context `c`: under its client id, with its topics, in their subscriber sets and no others, and
    with its pending messages. -/
structure SameSession (src : Tables) (e : Sigma fun _ : ByteStr => StoredContext) (s : State) (c : CtxId) : Prop where
  registered : s.sess.registry.findClientContext e.1 = some c
  clientId : (s.sess.ctxs c).clientId = e.1
  topics : (s.sess.ctxs c).subcribeTopics = e.2.subcribeTopics
  subscribed : ∀ t, c ∈ s.sess.topicMgr.clients t ↔ t ∈ e.2.subcribeTopics.map Topic.topicName
  pending : (s.sess.ctxs c).sendMsgQueue.map (restoredMsg s) = e.2.sendMsgIds.map (storedMsg src)

/-- Every header in the file has the length of its chunk, and `restore` gives back the stored sessions in their order. -/
structure GivesBack (now : Nat) (src : Tables) (file : ByteStr) : Prop where
  lengths : file = src.chunks.flatMap Chunk.bytes
  restores : ∃ s, restore now file {} = .ok (0, s) ∧ s.contexts = src.persistent.length ∧
    ∀ i (hi : i < src.persistent.length), SameSession src (src.persistent.get ⟨i, hi⟩) s (.stored i)

/-! ## Reading one field -/

section Reading

variable {s s' : State} {rest : ByteStr}

theorem readBytes_eq {bytes : ByteStr} (h : s.buf = bytes ++ rest) :
    readBytes bytes.length s = .ok (bytes, s.at rest) := by
  have hlen : ¬ s.buf.length < bytes.length := by
    rw [h, List.length_append]
    omega
  unfold readBytes
  rw [get_bind, if_neg hlen, set_bind, pure_apply, h, List.take_left, List.drop_left]

theorem readUint_eq {n : Nat} (hn : n < 2 ^ 32) (h : s.buf = le32 n ++ rest) : readUint s = .ok (n, s.at rest) := by
  have hread : readBytes 4 s = .ok (le32 n, s.at rest) := readBytes_eq h
  have hval := readLe32_le32 hn []
  rw [List.append_nil] at hval
  unfold readUint
  rw [bind_apply, hread]
  show Except.ok (readLe32 (le32 n), s.at rest) = _
  rw [hval]

theorem readLe32_le32_mod (n : Nat) (rest : ByteStr) : readLe32 (le32 n ++ rest) = n % 2 ^ 32 := by
  show (UInt8.ofNat n).toNat + 256 * (UInt8.ofNat (n / 256)).toNat +
    65536 * (UInt8.ofNat (n / 65536)).toNat + 16777216 * (UInt8.ofNat (n / 16777216)).toNat = n % 2 ^ 32
  simp only [UInt8.toNat_ofNat']
  omega

theorem readUint64_eq {n : UInt64} (h : s.buf = le64 n ++ rest) : readUint64 s = .ok (n, s.at rest) := by
  have hread : readBytes 8 s = .ok (le64 n, s.at rest) := readBytes_eq h
  have hlow : readLe32 (le64 n) = n.toNat % 2 ^ 32 := readLe32_le32_mod n.toNat _
  have hhigh : readLe32 ((le64 n).drop 4) = n.toNat / 2 ^ 32 := by
    have hlt := n.toNat_lt
    have hdrop : (le64 n).drop 4 = le32 (n.toNat / 2 ^ 32) ++ [] := rfl
    rw [hdrop, readLe32_le32 (by omega)]
  unfold readUint64
  rw [bind_apply, hread]
  show Except.ok (UInt64.ofNat (readLe32 (le64 n) + 2 ^ 32 * readLe32 ((le64 n).drop 4)), s.at rest) = _
  rw [hlow, hhigh, Nat.mod_add_div, UInt64.ofNat_toNat]

theorem readUint8_eq {b : UInt8} (h : s.buf = b :: rest) : readUint8 s = .ok (b, s.at rest) := by
  have hbuf : s.buf = [b] ++ rest := h
  have hread : readBytes 1 s = .ok ([b], s.at rest) := readBytes_eq hbuf
  unfold readUint8
  rw [bind_apply, hread]
  rfl

/-! ## Reading one chunk -/

/-- The static buffer has these bytes in front, and so does the pointer after `buf = chunk_buf`. -/
def Holds (s : State) (data : ByteStr) : Prop := ∃ rest, s.static.bytes = data ++ rest

theorem fread_holds {data : ByteStr} (h : data.length ≤ maxChunkLen) :
    Holds { s with static := s.static.fread data } data := by
  refine ⟨s.static.bytes.drop data.length, ?_⟩
  show Pkt.store s.static.bytes 0 (data.take maxChunkLen) = _
  rw [List.take_of_length_le h, Pkt.store, List.take_zero, List.nil_append, Nat.zero_add]

/-- A file's bytes as a chunk list: what the loop does with each. -/
def restoreChunks (now : Nat) : List Chunk → RestoreM Int
  | [] => pure 0
  | c :: cs => do
      modify fun s => { s with static := s.static.fread c.data }
      let res ← restoreChunk now c.type.value c.data.length
      if res = -1 then pure (-1) else restoreChunks now cs

/-- A chunk that reads without an error. -/
theorem restoreChunks_cons {now : Nat} {c : Chunk} {cs : List Chunk}
    (h : restoreChunk now c.type.value c.data.length { s with static := s.static.fread c.data } = .ok (0, s')) :
    restoreChunks now (c :: cs) s = restoreChunks now cs s' := by
  obtain ⟨next, hnext⟩ : ∃ next, next = restoreChunks now cs := ⟨_, rfl⟩
  rw [← hnext]
  unfold restoreChunks
  rw [← hnext, modify_bind, bind_apply, h]
  rfl

/-- A run without an error reads its first chunk without an error. -/
theorem restoreChunks_cons_ok {now : Nat} {c : Chunk} {cs : List Chunk} {s'' : State}
    (h : restoreChunks now (c :: cs) s = .ok (0, s'')) :
    ∃ res s', restoreChunk now c.type.value c.data.length { s with static := s.static.fread c.data } = .ok (res, s') ∧
      restoreChunks now cs s' = .ok (0, s'') := by
  unfold restoreChunks at h
  rw [modify_bind, bind_ok] at h
  obtain ⟨res, s', hchunk, h⟩ := h
  refine ⟨res, s', hchunk, ?_⟩
  by_cases hres : res = -1
  · rw [if_pos hres] at h
    cases h
  · rwa [if_neg hres] at h

/-- **The loop** over a file of chunks whose headers are right. -/
theorem restoreLoop_chunks (now : Nat) (cs : List Chunk) (hfits : ∀ c ∈ cs, c.data.length ≤ maxChunkLen) :
    ∀ fuel s, (cs.flatMap Chunk.bytes).length < fuel →
      restoreLoop now fuel (cs.flatMap Chunk.bytes) s = restoreChunks now cs s := by
  have hmax : maxChunkLen < 2 ^ 32 := by decide
  induction cs with
  | nil =>
      intro fuel s hfuel
      obtain _ | fuel := fuel
      · exact absurd hfuel (Nat.not_lt_zero _)
      · rfl
  | cons c cs ih =>
      intro fuel s hfuel
      have hfit := hfits c List.mem_cons_self
      obtain _ | fuel := fuel
      · exact absurd hfuel (Nat.not_lt_zero _)
      · have hfile : (c :: cs).flatMap Chunk.bytes =
            0xEE :: c.type.value :: (le32 c.data.length ++ (c.data ++ cs.flatMap Chunk.bytes)) := by
          rw [List.flatMap_cons, Chunk.bytes, header]
          simp only [List.cons_append, List.append_assoc]
        have hlt : (cs.flatMap Chunk.bytes).length < fuel := by
          rw [hfile] at hfuel
          simp only [List.length_cons, List.length_append] at hfuel
          omega
        have hread : readLe32 (le32 c.data.length ++ (c.data ++ cs.flatMap Chunk.bytes)) = c.data.length :=
          readLe32_le32 (by omega) _
        have hdrop : (le32 c.data.length ++ (c.data ++ cs.flatMap Chunk.bytes)).drop 4 =
            c.data ++ cs.flatMap Chunk.bytes := rfl
        have hok : ¬ ((le32 c.data.length ++ (c.data ++ cs.flatMap Chunk.bytes)).length < 4 ∨
            c.data.length > maxChunkLen ∨ (c.data ++ cs.flatMap Chunk.bytes).length < c.data.length) := by
          simp only [List.length_append, length_le32]
          omega
        rw [hfile, restoreLoop]
        simp only [ne_eq, not_true_eq_false, if_false]
        rw [hread, hdrop, if_neg hok, List.take_left, List.drop_left]
        unfold restoreChunks
        rw [modify_bind, modify_bind, bind_apply, bind_apply]
        cases restoreChunk now c.type.value c.data.length { s with static := s.static.fread c.data } with
        | error e => rfl
        | ok r =>
            obtain ⟨res, s'⟩ := r
            show (if res = -1 then (pure (-1) : RestoreM Int) else restoreLoop now fuel (cs.flatMap Chunk.bytes)) s' =
              (if res = -1 then (pure (-1) : RestoreM Int) else restoreChunks now cs) s'
            by_cases hres : res = -1
            · rw [if_pos hres, if_pos hres]
            · rw [if_neg hres, if_neg hres]
              exact ih (fun c' hc' => hfits c' (List.mem_cons_of_mem _ hc')) fuel s' hlt

theorem setBuf_bind {α : Type} (g : Unit → RestoreM α) (s : State) : (setBuf >>= g) s = g () (s.at s.static.bytes) := rfl

theorem modifySess_bind {α : Type} (f : Sess → Sess) (g : Unit → RestoreM α) (s : State) :
    (modifySess f >>= g) s = g () (s.withSess (f s.sess)) := rfl

/-- The messages that were read so far are in `m_tmp_msg_db`. -/
def Loaded (es : List (Sigma fun _ : UInt64 => Buf)) (s : State) : Prop :=
  ∀ e ∈ es, ∃ m, s.tmpMsgDb.lookup e.1 = some m ∧ restoredMsg s m = some (e.1.toNat, e.2.unread)

theorem restoreDbInfo_eq (now : Nat) {id : UInt64} (h : Holds s (le64 id)) :
    ∃ buf, restoreChunk now ChunkType.globalInfo.value 8 s = .ok (0, { s.at buf with lastMsgId := id }) := by
  obtain ⟨rest, hrest⟩ := h
  refine ⟨rest, ?_⟩
  have hread : readUint64 (s.at s.static.bytes) = .ok (id, s.at rest) := readUint64_eq hrest
  show restoreDbInfo 8 s = _
  rw [restoreDbInfo, if_neg (by decide), setBuf_bind, bind_apply, hread]
  rfl

/-- A message comes back under its id. -/
theorem restoreDbMsg_eq (now : Nat) {e : Sigma fun _ : UInt64 => Buf} (hfit : (msgData e).length ≤ maxChunkLen)
    (h : Holds s (msgData e)) : ∃ buf m, m.msgId = e.1.toNat ∧ m.unread = e.2.unread ∧
      restoreChunk now ChunkType.dbMsg.value (msgData e).length s = .ok (0,
        { s.at buf with bufs := s.bufs ++ [m], tmpMsgDb := s.tmpMsgDb.insert e.1 s.bufs.length }) := by
  have hmax : maxChunkLen < 2 ^ 32 := by decide
  obtain ⟨rest, hrest⟩ := h
  have hdata := length_msgData e
  have hlen : e.2.unread.length < 2 ^ 32 := by
    rw [Buf.length_unread]
    omega
  rw [msgData, lenBuf, List.append_assoc, List.append_assoc] at hrest
  have hid : readUint64 (s.at s.static.bytes) = .ok (e.1, s.at (le32 e.2.unread.length ++ (e.2.unread ++ rest))) :=
    readUint64_eq hrest
  have hbufLen : readUint (s.at (le32 e.2.unread.length ++ (e.2.unread ++ rest))) =
      .ok (e.2.unread.length, s.at (e.2.unread ++ rest)) := readUint_eq hlen rfl
  have hbytes : readBytes e.2.unread.length (s.at (e.2.unread ++ rest)) = .ok (e.2.unread, s.at rest) := readBytes_eq rfl
  have hcheck : ¬ e.2.unread.length ≠ (2 ^ 64 + (msgData e).length - 12) % 2 ^ 64 := by
    rw [hdata, Buf.length_unread]
    omega
  refine ⟨rest, (Buf.make e.2.unread.length now e.2.unread).tag e.1.toNat .data true, rfl, ?_, ?_⟩
  · rw [Buf.tag_unread, Buf.make_unread (Nat.le_refl _) hlen]
  · show restoreDbMsg now (msgData e).length s = _
    rw [restoreDbMsg, setBuf_bind, bind_apply, hid]
    simp only
    rw [bind_apply, hbufLen]
    simp only
    rw [if_neg hcheck, bind_apply, hbytes]
    rfl

theorem Loaded.insert {es : List (Sigma fun _ : UInt64 => Buf)} {e : Sigma fun _ : UInt64 => Buf} {m : Buf} (buf : ByteStr)
    (h : Loaded es s) (hnew : ∀ e' ∈ es, e'.1 ≠ e.1) (hid : m.msgId = e.1.toNat) (hm : m.unread = e.2.unread) :
    Loaded (es ++ [e])
      { s.at buf with bufs := s.bufs ++ [m], tmpMsgDb := s.tmpMsgDb.insert e.1 s.bufs.length } := by
  intro e' he'
  rcases List.mem_append.mp he' with he' | he'
  · obtain ⟨n, hn, hr⟩ := h e' he'
    refine ⟨n, ?_, ?_⟩
    · show (s.tmpMsgDb.insert e.1 s.bufs.length).lookup e'.1 = some n
      rw [AList.lookup_insert_ne (hnew e' he'), hn]
    · have hlt : n < s.bufs.length := by
        by_contra hge
        unfold restoredMsg at hr
        rw [List.getElem?_eq_none (Nat.le_of_not_lt hge)] at hr
        cases hr
      unfold restoredMsg at hr ⊢
      show ((s.bufs ++ [m])[n]?).map _ = _
      rw [List.getElem?_append_left hlt, hr]
  · obtain rfl := List.mem_singleton.mp he'
    refine ⟨s.bufs.length, AList.lookup_insert _, ?_⟩
    show ((s.bufs ++ [m])[s.bufs.length]?).map (fun m => (m.msgId, m.unread)) = _
    rw [List.getElem?_concat_length, Option.map_some, hid, hm]

/-- All messages of the file, one after the other. -/
theorem restoreChunks_msgs (now : Nat) (es : List (Sigma fun _ : UInt64 => Buf))
    (hfits : ∀ e ∈ es, (msgData e).length ≤ maxChunkLen) : ∀ (old : List (Sigma fun _ : UInt64 => Buf)) (s : State),
    (old ++ es).Pairwise (fun e e' => e.1 ≠ e'.1) → Loaded old s →
    ∃ s', Loaded (old ++ es) s' ∧ s'.contexts = s.contexts ∧ s'.sess = s.sess ∧
      ∀ cs, restoreChunks now ((es.map fun e => ⟨.dbMsg, msgData e⟩) ++ cs) s = restoreChunks now cs s' := by
  induction es with
  | nil =>
      intro old s _ hold
      refine ⟨s, ?_, rfl, rfl, fun _ => rfl⟩
      rw [List.append_nil]
      exact hold
  | cons e es ih =>
      intro old s hkeys hold
      have hfit := hfits e List.mem_cons_self
      have hnew : ∀ e' ∈ old, e'.1 ≠ e.1 := fun e' he' =>
        (List.pairwise_append.mp hkeys).2.2 e' he' e List.mem_cons_self
      obtain ⟨buf, m, hid, hm, hrun⟩ := restoreDbMsg_eq now hfit (fread_holds hfit (s := s))
      have hloaded : Loaded old { s with static := s.static.fread (msgData e) } := hold
      obtain ⟨s', hall, hcontexts, hsess, hrest⟩ := ih (fun e' he' => hfits e' (List.mem_cons_of_mem _ he')) (old ++ [e])
        _ (by rwa [List.append_assoc]) (Loaded.insert buf hloaded hnew hid hm)
      refine ⟨s', ?_, hcontexts, hsess, ?_⟩
      · rwa [List.append_assoc] at hall
      · intro cs
        rw [← hrest cs, List.map_cons, List.cons_append, restoreChunks_cons (c := ⟨.dbMsg, msgData e⟩) hrun]

/-! ## A session that comes back -/

/-- No topic, or one. -/
theorem restoreTopics_short {c : CtxId} {len fuel : Nat} {ts : List Topic} (hts : ts.length ≤ 1)
    (hnames : ∀ t ∈ ts, t.topicName.length ≤ len ∧ t.topicName.length < 2 ^ 32)
    (hoff : (s.sess.ctxs c).mqttConnection = none) (hbuf : s.buf = ts.flatMap topicData ++ rest) :
    restoreTopics c len ts.length (fuel + 2) 0 [] s = .ok ((0, ts),
      (s.at rest).withSess { s.sess with topicMgr := addTopics s.sess.topicMgr c (ts.map Topic.topicName) }) := by
  match ts with
  | [] =>
      have hs : s.at rest = s := by
        have hrest : s.buf = rest := hbuf
        rw [← hrest]
        rfl
      rw [hs]
      rfl
  | [t] =>
      obtain ⟨hle, hlt⟩ := hnames t List.mem_cons_self
      have hfields : s.buf = le32 t.topicName.length ++ (t.topicName ++ (t.qos :: rest)) := by
        rw [hbuf, List.flatMap_cons, topicData, lenBuf]
        simp only [List.append_assoc, List.flatMap_nil, List.nil_append, List.cons_append]
      have hlen := readUint_eq hlt hfields
      have hname : readBytes t.topicName.length (s.at (t.topicName ++ (t.qos :: rest))) =
          .ok (t.topicName, s.at (t.qos :: rest)) := readBytes_eq rfl
      have hqos : readUint8 (s.at (t.qos :: rest)) = .ok (t.qos, s.at rest) := readUint8_eq rfl
      have hsub : (s.at rest).sess.subscribe t.topicName c =
          { s.sess with topicMgr := s.sess.topicMgr.addClientContext t.topicName c } := subscribe_offline hoff
      have hend : ¬ ((0 + 1) % 2 ^ 32 + 1) % 2 ^ 32 < [t].length := show ¬ ((0 + 1) % 2 ^ 32 + 1) % 2 ^ 32 < 1 by decide
      rw [restoreTopics, if_pos (show 0 < [t].length from Nat.one_pos)]
      simp only
      rw [bind_apply, hlen]
      simp only
      rw [if_neg (Nat.not_lt.mpr hle), bind_apply, hname]
      simp only
      rw [bind_apply, hqos]
      simp only
      rw [modifySess_bind, hsub, restoreTopics, if_neg hend]
      rfl

/-- The pending messages, of which each one is known. -/
theorem restoreMsgs_eq {c : CtxId} (ids : List UInt64) : ∀ s : State, s.buf = ids.flatMap le64 ++ rest →
    restoreMsgs c ids.length s = .ok ((), (s.at rest).withSess (s.sess.modifyContext c fun x =>
      { x with sendMsgQueue := x.sendMsgQueue ++ ids.filterMap fun id => s.tmpMsgDb.lookup id })) := by
  induction ids with
  | nil =>
      intro s hbuf
      have hrest : s.buf = rest := hbuf
      have hself : s.sess.modifyContext c (fun x => { x with sendMsgQueue := x.sendMsgQueue ++ [] }) = s.sess := by
        simp only [Sess.modifyContext, List.append_nil, Function.update_eq_self]
      show Except.ok ((), s) = _
      rw [List.filterMap_nil, hself, ← hrest]
      rfl
  | cons id ids ih =>
      intro s hbuf
      have hid : readUint64 s = .ok (id, s.at (ids.flatMap le64 ++ rest)) := by
        refine readUint64_eq ?_
        rw [hbuf, List.flatMap_cons, List.append_assoc]
      rw [List.length_cons, restoreMsgs, bind_apply, hid]
      simp only
      rw [get_bind]
      have hdb : (s.at (ids.flatMap le64 ++ rest)).tmpMsgDb.lookup id = s.tmpMsgDb.lookup id := rfl
      rw [hdb]
      cases hm : s.tmpMsgDb.lookup id with
      | none =>
          simp only
          rw [ih _ rfl, List.filterMap_cons_none (f := fun id => s.tmpMsgDb.lookup id) hm]
          rfl
      | some m =>
          simp only
          rw [modifySess_bind, ih _ rfl, List.filterMap_cons_some (f := fun id => s.tmpMsgDb.lookup id) hm]
          simp only [State.withSess, State.at, Sess.modifyContext, Function.update_self, Function.update_idem,
            ClientContext.addSendMsg, List.append_assoc, List.cons_append, List.nil_append]

/-- The context of a session that was read, with the messages `queue`. -/
def contextOf (e : Sigma fun _ : ByteStr => StoredContext) (queue : List MbufId) : ClientContext :=
  { ClientContext.create none false with
    clientId := e.1, subcribeTopics := e.2.subcribeTopics, sendMsgQueue := queue }

/-- The tables with a session that was read. -/
def addSession (sess : Sess) (c : CtxId) (e : Sigma fun _ : ByteStr => StoredContext) (queue : List MbufId) : Sess :=
  { sess with
    ctxs := Function.update sess.ctxs c (contextOf e queue)
    registry := sess.registry.addClientContext e.1 c
    topicMgr := addTopics sess.topicMgr c (e.2.subcribeTopics.map Topic.topicName) }

theorem addSubcribeTopics_short {x : ClientContext} {ts : List Topic} (hx : x.subcribeTopics = []) (hts : ts.length ≤ 1) :
    x.addSubcribeTopics ts = { x with subcribeTopics := ts } := by
  match ts with
  | [] =>
      cases x
      cases hx
      rfl
  | [t] =>
      have hnew : t ∉ x.subcribeTopics := by
        rw [hx]
        exact List.not_mem_nil
      unfold ClientContext.addSubcribeTopics
      rw [List.foldl_cons, List.foldl_nil, if_neg hnew, hx]
      rfl

/-- **A session of at most one topic**, with all its fields. -/
theorem restoreClientInfo_eq (now : Nat) {e : Sigma fun _ : ByteStr => StoredContext}
    (hfit : (clientData e).length ≤ maxChunkLen) (hts : e.2.subcribeTopics.length ≤ 1) (h : Holds s (clientData e)) :
    ∃ buf, restoreChunk now ChunkType.clientMsg.value (clientData e).length s = .ok (0,
      { s.at buf with
        contexts := s.contexts + 1
        sess := addSession s.sess (.stored s.contexts) e
          (e.2.sendMsgIds.filterMap fun id => s.tmpMsgDb.lookup id) }) := by
  have hmax : maxChunkLen < 2 ^ 32 := by decide
  have hdata := length_clientData e
  have htopics := length_topics_le e.2.subcribeTopics
  obtain ⟨rest, hrest⟩ := h
  have hfields : s.static.bytes = le32 e.1.length ++ (e.1 ++ (le32 e.2.subcribeTopics.length ++
      (e.2.subcribeTopics.flatMap topicData ++ (le32 e.2.sendMsgIds.length ++ (e.2.sendMsgIds.flatMap le64 ++ rest))))) := by
    rw [hrest, clientData, contextData, lenBuf]
    simp only [List.append_assoc]
  have hnames : ∀ t ∈ e.2.subcribeTopics,
      t.topicName.length ≤ (clientData e).length ∧ t.topicName.length < 2 ^ 32 := by
    intro t ht
    have := length_topic_le ht
    omega
  -- the pointer in front of each field
  obtain ⟨buf₄, hbuf₄⟩ : ∃ buf, buf = e.2.sendMsgIds.flatMap le64 ++ rest := ⟨_, rfl⟩
  obtain ⟨buf₃, hbuf₃⟩ : ∃ buf, buf = le32 e.2.sendMsgIds.length ++ buf₄ := ⟨_, rfl⟩
  obtain ⟨buf₂, hbuf₂⟩ : ∃ buf, buf = e.2.subcribeTopics.flatMap topicData ++ buf₃ := ⟨_, rfl⟩
  obtain ⟨buf₁, hbuf₁⟩ : ∃ buf, buf = le32 e.2.subcribeTopics.length ++ buf₂ := ⟨_, rfl⟩
  rw [← hbuf₄, ← hbuf₃, ← hbuf₂, ← hbuf₁] at hfields
  obtain ⟨s₁, hs₁⟩ : ∃ s₁, s₁ = State.withSess { s with contexts := s.contexts + 1 }
      (s.sess.modifyContext (.stored s.contexts) fun _ => { ClientContext.create none false with clientId := e.1 }) := ⟨_, rfl⟩
  have hidLen : readUint (s.at s.static.bytes) = .ok (e.1.length, s.at (e.1 ++ buf₁)) := readUint_eq (by omega) hfields
  have hid : readBytes e.1.length (s.at (e.1 ++ buf₁)) = .ok (e.1, s.at buf₁) := readBytes_eq rfl
  have hnew : newContext e.1 (s.at buf₁) = .ok (.stored s.contexts, s₁.at buf₁) := by
    rw [hs₁]
    rfl
  have hnum : readUint (s₁.at buf₁) = .ok (e.2.subcribeTopics.length, s₁.at buf₂) := readUint_eq (by omega) hbuf₁
  have hctx : s₁.sess.ctxs (.stored s.contexts) = { ClientContext.create none false with clientId := e.1 } := by
    rw [hs₁]
    exact Function.update_self _ _ _
  have hoff : (s₁.sess.ctxs (.stored s.contexts)).mqttConnection = none := by
    rw [hctx]
    rfl
  obtain ⟨sess₁, hsess₁⟩ : ∃ sess₁, sess₁ = { s₁.sess with
    topicMgr := addTopics s₁.sess.topicMgr (.stored s.contexts) (e.2.subcribeTopics.map Topic.topicName) } := ⟨_, rfl⟩
  have htop : restoreTopics (.stored s.contexts) (clientData e).length e.2.subcribeTopics.length (maxChunkLen - 1 + 2) 0 []
      (s₁.at buf₂) = .ok ((0, e.2.subcribeTopics), (s₁.at buf₃).withSess sess₁) := by
    rw [hsess₁]
    exact restoreTopics_short hts hnames hoff hbuf₂
  have hfuel : maxChunkLen + 1 = maxChunkLen - 1 + 2 := by decide
  obtain ⟨s₂, hs₂⟩ : ∃ s₂, s₂ = s₁.withSess
    (sess₁.modifyContext (.stored s.contexts) (·.addSubcribeTopics e.2.subcribeTopics)) := ⟨_, rfl⟩
  have hadd : ((s₁.at buf₃).withSess sess₁).withSess (((s₁.at buf₃).withSess sess₁).sess.modifyContext (.stored s.contexts)
      (·.addSubcribeTopics e.2.subcribeTopics)) = s₂.at buf₃ := by
    rw [hs₂]
    rfl
  have hmsgsNum : readUint (s₂.at buf₃) = .ok (e.2.sendMsgIds.length, s₂.at buf₄) := readUint_eq (by omega) hbuf₃
  have hmsgs := restoreMsgs_eq (c := .stored s.contexts) e.2.sendMsgIds (s₂.at buf₄) hbuf₄
  refine ⟨rest, ?_⟩
  show restoreClientInfo (clientData e).length s = _
  rw [restoreClientInfo, setBuf_bind, bind_apply, hidLen]
  simp only
  rw [bind_apply, hid]
  simp only
  rw [bind_apply, hnew]
  simp only
  rw [bind_apply, hnum]
  simp only
  rw [hfuel, bind_apply, htop]
  simp only
  rw [modifySess_bind, hadd, bind_apply, hmsgsNum]
  simp only
  rw [bind_apply, hmsgs]
  simp only
  rw [modifySess_bind, pure_apply, hs₂, hsess₁, hs₁]
  have hsub : ({ ClientContext.create none false with clientId := e.1 } : ClientContext).addSubcribeTopics
      e.2.subcribeTopics = { ClientContext.create none false with clientId := e.1, subcribeTopics := e.2.subcribeTopics } :=
    addSubcribeTopics_short rfl hts
  simp only [State.withSess, State.at, Sess.modifyContext, Function.update_self, Function.update_idem, hsub]
  rfl

/-! ## Behind the sessions -/

/-- What the sessions consist of is as before; more messages may have been made. -/
structure Undisturbed (s s' : State) : Prop where
  contexts : s'.contexts = s.contexts
  ctxs : s'.sess.ctxs = s.sess.ctxs
  registry : s'.sess.registry = s.sess.registry
  clients : ∀ t, s'.sess.topicMgr.clients t = s.sess.topicMgr.clients t
  bufs : s.bufs <+: s'.bufs

namespace Undisturbed

variable {s'' : State}

theorem refl (s : State) : Undisturbed s s := ⟨rfl, rfl, rfl, fun _ => rfl, List.prefix_rfl⟩

theorem trans (h : Undisturbed s s') (h' : Undisturbed s' s'') : Undisturbed s s'' where
  contexts := h'.contexts.trans h.contexts
  ctxs := h'.ctxs.trans h.ctxs
  registry := h'.registry.trans h.registry
  clients t := (h'.clients t).trans (h.clients t)
  bufs := h.bufs.trans h'.bufs

theorem restoredMsg (h : Undisturbed s s') {m : MbufId} {x : Nat × ByteStr} (hm : restoredMsg s m = some x) :
    restoredMsg s' m = some x := by
  obtain ⟨more, hmore⟩ := h.bufs
  unfold Persist.restoredMsg at hm ⊢
  have hlt : m < s.bufs.length := by
    by_contra hge
    rw [List.getElem?_eq_none (Nat.le_of_not_lt hge)] at hm
    cases hm
  rw [← hmore, List.getElem?_append_left hlt, hm]

end Undisturbed

/-- A retained message. -/
theorem restoreRetainMsg_eq (now : Nat) {e : ByteStr × Buf} (hfit : (retainData e).length ≤ maxChunkLen)
    (h : Holds s (retainData e)) :
    ∃ s', restoreChunk now ChunkType.topicInfo.value (retainData e).length s = .ok (0, s') ∧ Undisturbed s s' := by
  have hmax : maxChunkLen < 2 ^ 32 := by decide
  have hdata := length_retainData e
  obtain ⟨rest, hrest⟩ := h
  obtain ⟨buf₃, hbuf₃⟩ : ∃ buf, buf = e.2.unread ++ rest := ⟨_, rfl⟩
  obtain ⟨buf₂, hbuf₂⟩ : ∃ buf, buf = le32 e.2.unread.length ++ buf₃ := ⟨_, rfl⟩
  obtain ⟨buf₁, hbuf₁⟩ : ∃ buf, buf = le64 (UInt64.ofNat e.2.msgId) ++ buf₂ := ⟨_, rfl⟩
  have hfields : s.static.bytes = le32 e.1.length ++ (e.1 ++ buf₁) := by
    rw [hrest, retainData, lenBuf, lenBuf, hbuf₁, hbuf₂, hbuf₃]
    simp only [List.append_assoc]
  have hlen : readUint (s.at s.static.bytes) = .ok (e.1.length, s.at (e.1 ++ buf₁)) := readUint_eq (by omega) hfields
  have hname : readBytes e.1.length (s.at (e.1 ++ buf₁)) = .ok (e.1, s.at buf₁) := readBytes_eq rfl
  have hid : readUint64 (s.at buf₁) = .ok (UInt64.ofNat e.2.msgId, s.at buf₂) := readUint64_eq hbuf₁
  have hunread := Buf.length_unread e.2
  have hbufLen : readUint (s.at buf₂) = .ok (e.2.unread.length, s.at buf₃) := readUint_eq (by omega) hbuf₂
  have hbytes : readBytes e.2.unread.length (s.at buf₃) = .ok (e.2.unread, s.at rest) := readBytes_eq hbuf₃
  have hname' : ¬ e.1.length > (retainData e).length := by omega
  have hcheck : ¬ ((e.2.unread.length : Int) ≠ (retainData e).length - (4 + e.1.length + 8 + 4 : Nat)) := by omega
  have hrun : restoreChunk now ChunkType.topicInfo.value (retainData e).length s =
      (if e.2.unread.length = 0 then pure 0 else do
        let bytes ← readBytes e.2.unread.length
        let m ← newMbuf now e.2.unread.length bytes (UInt64.ofNat e.2.msgId) false
        modifySess fun sess => { sess with topicMgr := sess.topicMgr.setRetainMsg e.1 (some m) }
        pure 0 : RestoreM Int) (s.at buf₃) := by
    show restoreRetainMsg now (retainData e).length s = _
    rw [restoreRetainMsg, setBuf_bind, bind_apply, hlen]
    simp only
    rw [if_neg hname', bind_apply, hname]
    simp only
    rw [bind_apply, hid]
    simp only
    rw [bind_apply, hbufLen]
    simp only
    rw [if_neg hcheck]
  rw [hrun]
  by_cases hzero : e.2.unread.length = 0
  · rw [if_pos hzero]
    exact ⟨_, rfl, rfl, rfl, rfl, fun _ => rfl, List.prefix_rfl⟩
  · rw [if_neg hzero, bind_apply, hbytes]
    exact ⟨_, rfl, rfl, rfl, rfl, fun t => TopicMgr.clients_setRetainMsg _ _ _ _, List.prefix_append _ _⟩

/-- All retained messages of the file. -/
theorem restoreChunks_retains (now : Nat) (es : List (ByteStr × Buf))
    (hfits : ∀ e ∈ es, (retainData e).length ≤ maxChunkLen) : ∀ s,
    ∃ s', restoreChunks now (es.map fun e => ⟨.topicInfo, retainData e⟩) s = .ok (0, s') ∧ Undisturbed s s' := by
  induction es with
  | nil => exact fun s => ⟨s, rfl, Undisturbed.refl s⟩
  | cons e es ih =>
      intro s
      have hfit := hfits e List.mem_cons_self
      obtain ⟨s₁, hrun, h₁⟩ := restoreRetainMsg_eq now hfit (fread_holds hfit (s := s))
      obtain ⟨s', hrest, h'⟩ := ih (fun e' he' => hfits e' (List.mem_cons_of_mem _ he')) s₁
      have hread : Undisturbed s { s with static := s.static.fread (retainData e) } :=
        ⟨rfl, rfl, rfl, fun _ => rfl, List.prefix_rfl⟩
      refine ⟨s', ?_, (hread.trans h₁).trans h'⟩
      rw [List.map_cons, restoreChunks_cons (c := ⟨.topicInfo, retainData e⟩) hrun, hrest]

/-! ## Half of the topics -/

/-- Reading moves the pointer and changes nothing else, whatever is read. -/
theorem readBytes_ok {n : Nat} {bytes : ByteStr} (h : readBytes n s = .ok (bytes, s')) :
    n ≤ s.buf.length ∧ s' = s.at (s.buf.drop n) := by
  unfold readBytes at h
  rw [get_bind] at h
  by_cases hlen : s.buf.length < n
  · rw [if_pos hlen] at h
    cases h
  · rw [if_neg hlen] at h
    cases h
    exact ⟨Nat.le_of_not_lt hlen, rfl⟩

theorem readUint_ok {n : Nat} (h : readUint s = .ok (n, s')) : ∃ buf, s' = s.at buf ∧ buf.length < s.buf.length := by
  unfold readUint at h
  rw [bind_ok] at h
  obtain ⟨_, s₁, h₁, h⟩ := h
  cases h
  obtain ⟨hlen, hs⟩ := readBytes_ok h₁
  refine ⟨_, hs, ?_⟩
  rw [List.length_drop]
  omega

theorem readUint64_ok {n : UInt64} (h : readUint64 s = .ok (n, s')) : ∃ buf, s' = s.at buf := by
  unfold readUint64 at h
  rw [bind_ok] at h
  obtain ⟨_, s₁, h₁, h⟩ := h
  cases h
  exact ⟨_, (readBytes_ok h₁).2⟩

theorem readUint8_ok {n : UInt8} (h : readUint8 s = .ok (n, s')) : ∃ buf, s' = s.at buf := by
  unfold readUint8 at h
  rw [bind_ok] at h
  obtain ⟨_, s₁, h₁, h⟩ := h
  cases h
  exact ⟨_, (readBytes_ok h₁).2⟩

/-- **The topic loop** reads one topic where its count goes up by two. -/
theorem restoreTopics_length {c : CtxId} {len topicNum : Nat} (hnum : topicNum + 1 < 2 ^ 32) (fuel : Nat) :
    ∀ (i : Nat) (ts : List Topic) (s : State) (res : Int) (ts' : List Topic) (s' : State),
      (s.sess.ctxs c).mqttConnection = none → restoreTopics c len topicNum fuel i ts s = .ok ((res, ts'), s') →
      ts'.length ≤ ts.length + (topicNum + 1 - i) / 2 ∧ s'.sess.ctxs = s.sess.ctxs := by
  induction fuel with
  | zero =>
      intro i ts s res ts' s' _ h
      cases h
  | succ fuel ih =>
      intro i ts s res ts' s' hoff h
      rw [restoreTopics] at h
      by_cases hi : i < topicNum
      · have hinc : ((i + 1) % 2 ^ 32 + 1) % 2 ^ 32 = i + 2 := by omega
        rw [if_pos hi, bind_ok] at h
        obtain ⟨nameLen, s₁, h₁, h⟩ := h
        obtain ⟨buf₁, rfl, -⟩ := readUint_ok h₁
        by_cases hname : nameLen > len
        · rw [if_pos hname] at h
          cases h
          exact ⟨Nat.le_add_right _ _, rfl⟩
        · rw [if_neg hname, bind_ok] at h
          obtain ⟨name, s₂, h₂, h⟩ := h
          obtain ⟨-, rfl⟩ := readBytes_ok h₂
          rw [bind_ok] at h
          obtain ⟨qos, s₃, h₃, h⟩ := h
          obtain ⟨buf₃, rfl⟩ := readUint8_ok h₃
          have hsub : s.sess.subscribe name c = { s.sess with topicMgr := s.sess.topicMgr.addClientContext name c } :=
            subscribe_offline hoff
          rw [modifySess_bind, hinc] at h
          obtain ⟨hle, hctxs⟩ := ih _ _ _ _ _ _ (by
            show ((s.sess.subscribe name c).ctxs c).mqttConnection = none
            rw [hsub]
            exact hoff) h
          refine ⟨?_, ?_⟩
          · rw [List.length_append, List.length_singleton] at hle
            omega
          · rw [hctxs]
            show (s.sess.subscribe name c).ctxs = _
            rw [hsub]
      · rw [if_neg hi] at h
        cases h
        exact ⟨Nat.le_add_right _ _, rfl⟩

theorem restoreMsgs_topics {c : CtxId} (n : Nat) : ∀ s s' : State, restoreMsgs c n s = .ok ((), s') →
    ∀ c', (s'.sess.ctxs c').subcribeTopics = (s.sess.ctxs c').subcribeTopics := by
  induction n with
  | zero =>
      intro s s' h c'
      cases h
      rfl
  | succ n ih =>
      intro s s' h c'
      rw [restoreMsgs, bind_ok] at h
      obtain ⟨id, s₁, h₁, h⟩ := h
      obtain ⟨buf, rfl⟩ := readUint64_ok h₁
      rw [get_bind] at h
      cases hm : (s.at buf).tmpMsgDb.lookup id with
      | none =>
          rw [hm] at h
          exact ih _ _ h c'
      | some m =>
          rw [hm] at h
          simp only at h
          rw [modifySess_bind] at h
          rw [ih _ _ h c']
          show (Function.update s.sess.ctxs c ((s.sess.ctxs c).addSendMsg m) c').subcribeTopics = _
          by_cases hc : c' = c
          · rw [hc, Function.update_self]
            rfl
          · rw [Function.update_of_ne hc]

theorem addSubcribeTopics_length (x : ClientContext) (ts : List Topic) :
    (x.addSubcribeTopics ts).subcribeTopics.length ≤ x.subcribeTopics.length + ts.length := by
  have hfold : ∀ acc : List Topic,
      (ts.foldl (fun ts t => if t ∈ ts then ts else ts ++ [t]) acc).length ≤ acc.length + ts.length := by
    induction ts with
    | nil => exact fun acc => Nat.le_refl _
    | cons t ts ih =>
        intro acc
        rw [List.foldl_cons, List.length_cons]
        have hrest := ih (if t ∈ acc then acc else acc ++ [t])
        by_cases ht : t ∈ acc
        · rw [if_pos ht] at hrest ⊢
          omega
        · rw [if_neg ht] at hrest ⊢
          rw [List.length_append, List.length_singleton] at hrest
          omega
  exact hfold x.subcribeTopics

/-- **A session comes back with half of its topics**, if it comes back at all. -/
theorem restoreClientInfo_length (now : Nat) {e : Sigma fun _ : ByteStr => StoredContext} {res : Int}
    (hfit : (clientData e).length ≤ maxChunkLen) (hheld : Holds s (clientData e))
    (h : restoreChunk now ChunkType.clientMsg.value (clientData e).length s = .ok (res, s')) :
    (s'.sess.ctxs (.stored s.contexts)).subcribeTopics.length ≤ (e.2.subcribeTopics.length + 1) / 2 := by
  have hmax : maxChunkLen < 2 ^ 31 := by decide
  have hdata := length_clientData e
  have htopics := length_topics_le e.2.subcribeTopics
  obtain ⟨rest, hrest⟩ := hheld
  obtain ⟨buf₁, hfields⟩ : ∃ buf, s.static.bytes = le32 e.1.length ++ (e.1 ++ (le32 e.2.subcribeTopics.length ++ buf)) := by
    refine ⟨(e.2.subcribeTopics.flatMap topicData ++ (le32 e.2.sendMsgIds.length ++ e.2.sendMsgIds.flatMap le64)) ++ rest, ?_⟩
    rw [hrest, clientData, contextData, lenBuf]
    simp only [List.append_assoc]
  have hidLen : readUint (s.at s.static.bytes) = .ok (e.1.length, s.at (e.1 ++ (le32 e.2.subcribeTopics.length ++ buf₁))) :=
    readUint_eq (by omega) hfields
  have hid : readBytes e.1.length (s.at (e.1 ++ (le32 e.2.subcribeTopics.length ++ buf₁))) =
      .ok (e.1, s.at (le32 e.2.subcribeTopics.length ++ buf₁)) := readBytes_eq rfl
  have h' : restoreClientInfo (clientData e).length s = .ok (res, s') := h
  rw [restoreClientInfo, setBuf_bind, bind_apply, hidLen] at h'
  simp only at h'
  rw [bind_apply, hid] at h'
  simp only at h'
  rw [bind_ok] at h'
  obtain ⟨c, s₁, hnew, h'⟩ := h'
  obtain ⟨rfl, hbuf, hctx⟩ : c = .stored s.contexts ∧ s₁.buf = le32 e.2.subcribeTopics.length ++ buf₁ ∧
      s₁.sess.ctxs c = { ClientContext.create none false with clientId := e.1 } := by
    cases hnew
    exact ⟨rfl, rfl, Function.update_self _ _ _⟩
  have hnum : readUint s₁ = .ok (e.2.subcribeTopics.length, s₁.at buf₁) := readUint_eq (by omega) hbuf
  have hoff : ((s₁.at buf₁).sess.ctxs (.stored s.contexts)).mqttConnection = none := by
    show (s₁.sess.ctxs (.stored s.contexts)).mqttConnection = none
    rw [hctx]
    rfl
  rw [bind_apply, hnum] at h'
  simp only at h'
  rw [bind_ok] at h'
  obtain ⟨r, s₂, htop, h'⟩ := h'
  obtain ⟨res', ts⟩ := r
  obtain ⟨hle, hctxs⟩ := restoreTopics_length (by omega) _ _ _ _ _ _ _ hoff htop
  simp only at h'
  rw [modifySess_bind, bind_ok] at h'
  obtain ⟨msgsNum, s₃, hmsgsNum, h'⟩ := h'
  obtain ⟨buf₃, rfl, -⟩ := readUint_ok hmsgsNum
  rw [bind_ok] at h'
  obtain ⟨_, s₄, hmsgs, h'⟩ := h'
  rw [modifySess_bind, pure_apply] at h'
  cases h'
  show (s₄.sess.ctxs (.stored s.contexts)).subcribeTopics.length ≤ _
  rw [restoreMsgs_topics _ _ _ hmsgs]
  show (Function.update s₂.sess.ctxs (.stored s.contexts) _ (.stored s.contexts)).subcribeTopics.length ≤ _
  rw [Function.update_self, hctxs]
  have hadd := addSubcribeTopics_length ((s₁.at buf₁).sess.ctxs (.stored s.contexts)) ts
  have hnone : ((s₁.at buf₁).sess.ctxs (.stored s.contexts)).subcribeTopics = [] := by
    show (s₁.sess.ctxs (.stored s.contexts)).subcribeTopics = []
    rw [hctx]
    rfl
  rw [hnone, List.length_nil] at hadd
  rw [List.length_nil] at hle
  omega

/-! ## There is always a result, or a read behind the buffer -/

/-- The pointer stays in the static buffer, and only a read behind it stops a run. -/
def bounded : Frame State Fault where
  rel s s' := s.buf.length ≤ maxChunkLen → s'.buf.length ≤ maxChunkLen
  flt s e := s.buf.length ≤ maxChunkLen → e.1 = .outOfBounds
  refl _ h := h
  trans h h' hs := h' (h hs)
  extend h h' hs := h' (h hs)

theorem readBytes_bounded (n : Nat) : bounded.Resp (readBytes n) s := by
  unfold readBytes
  refine Frame.resp_get_bind ?_
  by_cases hlen : s.buf.length < n
  · rw [if_pos hlen]
    exact Frame.resp_fault fun _ => rfl
  · rw [if_neg hlen]
    refine Frame.resp_set_bind (fun hs => ?_) (Frame.resp_pure _)
    show (s.buf.drop n).length ≤ maxChunkLen
    rw [List.length_drop]
    omega

theorem readUint_bounded : bounded.Resp readUint s :=
  Frame.resp_bind (readBytes_bounded 4) fun _ _ _ => Frame.resp_pure _

theorem readUint64_bounded : bounded.Resp readUint64 s :=
  Frame.resp_bind (readBytes_bounded 8) fun _ _ _ => Frame.resp_pure _

theorem readUint8_bounded : bounded.Resp readUint8 s :=
  Frame.resp_bind (readBytes_bounded 1) fun _ _ _ => Frame.resp_pure _

theorem setBuf_bounded : bounded.Resp setBuf s := Frame.resp_modify fun _ => Nat.le_of_eq s.static.size

theorem modifySess_bounded (f : Sess → Sess) : bounded.Resp (modifySess f) s := Frame.resp_modify fun h => h

/-- Every round of the topic loop moves the pointer, so that there is fuel for all of them. -/
theorem restoreTopics_bounded {c : CtxId} {len topicNum : Nat} (fuel : Nat) : ∀ (i : Nat) (ts : List Topic) (s : State),
    s.buf.length < fuel → bounded.Resp (restoreTopics c len topicNum fuel i ts) s := by
  induction fuel with
  | zero => exact fun _ _ _ h => absurd h (Nat.not_lt_zero _)
  | succ fuel ih =>
      intro i ts s hfuel
      rw [restoreTopics]
      by_cases hi : i < topicNum
      · rw [if_pos hi]
        refine Frame.resp_bind readUint_bounded fun nameLen s₁ h₁ => ?_
        obtain ⟨buf₁, rfl, hlt⟩ := readUint_ok h₁
        by_cases hname : nameLen > len
        · rw [if_pos hname]
          exact Frame.resp_pure _
        · rw [if_neg hname]
          refine Frame.resp_bind (readBytes_bounded _) fun name s₂ h₂ => ?_
          obtain ⟨-, rfl⟩ := readBytes_ok h₂
          refine Frame.resp_bind readUint8_bounded fun qos s₃ h₃ => ?_
          have hle : s₃.buf.length ≤ buf₁.length := by
            unfold readUint8 at h₃
            rw [bind_ok] at h₃
            obtain ⟨_, s₄, h₄, h₃⟩ := h₃
            cases h₃
            rw [(readBytes_ok h₄).2]
            show ((buf₁.drop nameLen).drop 1).length ≤ _
            rw [List.length_drop, List.length_drop]
            omega
          refine Frame.resp_bind (modifySess_bounded _) fun _ s₄ h₄ => ?_
          cases h₄
          refine ih _ _ _ ?_
          show s₃.buf.length < fuel
          omega
      · rw [if_neg hi]
        exact Frame.resp_pure _

theorem restoreMsgs_bounded {c : CtxId} (n : Nat) : ∀ s : State, bounded.Resp (restoreMsgs c n) s := by
  induction n with
  | zero => exact fun _ => Frame.resp_pure _
  | succ n ih =>
      intro s
      rw [restoreMsgs]
      refine Frame.resp_bind readUint64_bounded fun id s₁ _ => Frame.resp_get_bind ?_
      cases s₁.tmpMsgDb.lookup id with
      | none => exact ih s₁
      | some m => exact Frame.resp_bind (modifySess_bounded _) fun _ s₂ _ => ih s₂

theorem newContext_bounded (clientId : ByteStr) : bounded.Resp (newContext clientId) s :=
  Frame.resp_get_bind (Frame.resp_set_bind (fun h => h)
    (Frame.resp_bind (modifySess_bounded _) fun _ _ _ => Frame.resp_pure _))

theorem restoreClientInfo_bounded (len : Nat) : bounded.Resp (restoreClientInfo len) s := by
  unfold restoreClientInfo
  refine Frame.resp_bind setBuf_bounded fun _ s₁ h₁ => ?_
  have hb₁ : s₁.buf.length ≤ maxChunkLen := by
    cases h₁
    exact Nat.le_of_eq s.static.size
  refine Frame.resp_bind readUint_bounded fun clientIdLen s₂ h₂ => ?_
  have hb₂ : s₂.buf.length ≤ maxChunkLen := Frame.resp_ok readUint_bounded h₂ hb₁
  refine Frame.resp_bind (readBytes_bounded _) fun clientId s₃ h₃ => ?_
  have hb₃ : s₃.buf.length ≤ maxChunkLen := Frame.resp_ok (readBytes_bounded _) h₃ hb₂
  refine Frame.resp_bind (newContext_bounded _) fun c s₄ h₄ => ?_
  have hb₄ : s₄.buf.length ≤ maxChunkLen := Frame.resp_ok (newContext_bounded _) h₄ hb₃
  refine Frame.resp_bind readUint_bounded fun topicNum s₅ h₅ => ?_
  have hb₅ : s₅.buf.length ≤ maxChunkLen := Frame.resp_ok readUint_bounded h₅ hb₄
  -- what is left of the buffer is less than the fuel of the topic loop
  refine Frame.resp_bind (restoreTopics_bounded _ _ _ _ (Nat.lt_succ_of_le hb₅)) fun r s₆ _ => ?_
  obtain ⟨res, subTopics⟩ := r
  exact Frame.resp_bind (modifySess_bounded _) fun _ _ _ => Frame.resp_bind readUint_bounded fun _ _ _ =>
    Frame.resp_bind (restoreMsgs_bounded _ _) fun _ _ _ => Frame.resp_bind (modifySess_bounded _) fun _ _ _ =>
      Frame.resp_pure _

theorem newMbuf_bounded (now bufLen : Nat) (bytes : ByteStr) (msgId : UInt64) (memDb : Bool) :
    bounded.Resp (newMbuf now bufLen bytes msgId memDb) s :=
  Frame.resp_get_bind (Frame.resp_set_bind (fun h => h) (Frame.resp_pure _))

theorem restoreDbInfo_bounded (len : Nat) : bounded.Resp (restoreDbInfo len) s := by
  unfold restoreDbInfo
  by_cases hlen : len ≠ 8
  · rw [if_pos hlen]
    exact Frame.resp_pure _
  · rw [if_neg hlen]
    exact Frame.resp_bind setBuf_bounded fun _ _ _ => Frame.resp_bind readUint64_bounded fun _ _ _ =>
      Frame.resp_modify_bind (fun h => h) (Frame.resp_pure _)

theorem restoreDbMsg_bounded (now len : Nat) : bounded.Resp (restoreDbMsg now len) s := by
  unfold restoreDbMsg
  refine Frame.resp_bind setBuf_bounded fun _ _ _ => Frame.resp_bind readUint64_bounded fun _ _ _ =>
    Frame.resp_bind readUint_bounded fun bufLen _ _ => ?_
  by_cases hlen : bufLen ≠ (2 ^ 64 + len - 12) % 2 ^ 64
  · rw [if_pos hlen]
    exact Frame.resp_pure _
  · rw [if_neg hlen]
    exact Frame.resp_bind (readBytes_bounded _) fun _ _ _ => Frame.resp_bind (newMbuf_bounded _ _ _ _ _) fun _ _ _ =>
      Frame.resp_modify_bind (fun h => h) (Frame.resp_pure _)

theorem restoreRetainMsg_bounded (now len : Nat) : bounded.Resp (restoreRetainMsg now len) s := by
  unfold restoreRetainMsg
  refine Frame.resp_bind setBuf_bounded fun _ _ _ => Frame.resp_bind readUint_bounded fun topicNameLen _ _ => ?_
  by_cases hname : topicNameLen > len
  · rw [if_pos hname]
    exact Frame.resp_pure _
  · rw [if_neg hname]
    refine Frame.resp_bind (readBytes_bounded _) fun _ _ _ => Frame.resp_bind readUint64_bounded fun _ _ _ =>
      Frame.resp_bind readUint_bounded fun bufLen _ _ => ?_
    by_cases hlen : (bufLen : Int) ≠ len - (4 + topicNameLen + 8 + 4 : Nat)
    · rw [if_pos hlen]
      exact Frame.resp_pure _
    · rw [if_neg hlen]
      by_cases hzero : bufLen = 0
      · rw [if_pos hzero]
        exact Frame.resp_pure _
      · rw [if_neg hzero]
        exact Frame.resp_bind (readBytes_bounded _) fun _ _ _ => Frame.resp_bind (newMbuf_bounded _ _ _ _ _) fun _ _ _ =>
          Frame.resp_bind (modifySess_bounded _) fun _ _ _ => Frame.resp_pure _

theorem restoreChunk_bounded (now : Nat) (type : UInt8) (len : Nat) : bounded.Resp (restoreChunk now type len) s := by
  unfold restoreChunk
  cases ChunkType.ofValue type with
  | none => exact Frame.resp_pure _
  | some type =>
      cases type with
      | globalInfo => exact restoreDbInfo_bounded len
      | dbMsg => exact restoreDbMsg_bounded now len
      | clientMsg => exact restoreClientInfo_bounded len
      | topicInfo => exact restoreRetainMsg_bounded now len

/-- Every round of the loop over the file takes some of its bytes. -/
theorem restoreLoop_bounded (now fuel : Nat) : ∀ (file : ByteStr) (s : State), file.length < fuel →
    bounded.Resp (restoreLoop now fuel file) s := by
  induction fuel with
  | zero => exact fun _ _ h => absurd h (Nat.not_lt_zero _)
  | succ fuel ih =>
      intro file s hfuel
      rcases file with _ | ⟨tag, rest⟩
      · exact Frame.resp_pure _
      · rcases rest with _ | ⟨type, rest⟩
        · show bounded.Resp (if tag ≠ 0xEE then pure (-1) else pure (-1)) s
          rw [ite_self]
          exact Frame.resp_pure _
        · rw [restoreLoop]
          by_cases htag : tag ≠ 0xEE
          · rw [if_pos htag]
            exact Frame.resp_pure _
          · rw [if_neg htag]
            by_cases hbad : rest.length < 4 ∨ readLe32 rest > maxChunkLen ∨ (rest.drop 4).length < readLe32 rest
            · rw [if_pos hbad]
              exact Frame.resp_pure _
            · rw [if_neg hbad]
              refine Frame.resp_modify_bind (fun h => h) (Frame.resp_bind (restoreChunk_bounded now _ _) fun res s' _ => ?_)
              by_cases hres : res = -1
              · rw [if_pos hres]
                exact Frame.resp_pure _
              · rw [if_neg hres]
                refine ih _ s' ?_
                rw [List.length_drop, List.length_drop]
                simp only [List.length_cons] at hfuel
                omega

/-- **What can go wrong** for whatever file: a read behind the static buffer, and nothing else. -/
theorem restore_fault {now : Nat} {file : ByteStr} {e : Fault × State} (hbuf : s.buf.length ≤ maxChunkLen)
    (h : restore now file s = .error e) : e.1 = .outOfBounds := by
  have hresp : bounded.Resp (restore now file) s := by
    unfold restore
    by_cases hfile : file.length = 0
    · rw [if_pos hfile]
      exact Frame.resp_pure _
    · rw [if_neg hfile]
      exact Frame.resp_bind (restoreLoop_bounded now _ _ _ (Nat.lt_succ_self _)) fun _ _ _ =>
        Frame.resp_modify_bind (fun h => h) (Frame.resp_pure _)
  exact Frame.resp_error hresp h hbuf

/-! ## The whole file -/

/-- Reading a file of chunks whose headers are right. -/
theorem restore_chunks {now : Nat} {cs : List Chunk} (hcs : cs ≠ []) (hfits : ∀ c ∈ cs, c.data.length ≤ maxChunkLen) :
    restore now (cs.flatMap Chunk.bytes) s = .ok (0, s') ↔
      ∃ s₁, restoreChunks now cs s = .ok (0, s₁) ∧ s' = { s₁ with tmpMsgDb := ∅ } := by
  have hne : (cs.flatMap Chunk.bytes).length ≠ 0 := by
    obtain ⟨c, cs', rfl⟩ := List.exists_cons_of_ne_nil hcs
    rw [List.flatMap_cons, List.length_append, Chunk.bytes, List.length_append, length_header]
    omega
  unfold restore
  rw [if_neg hne, bind_ok]
  simp only [restoreLoop_chunks now cs hfits _ _ (Nat.lt_succ_self _)]
  constructor
  · rintro ⟨res, s₁, hrun, h⟩
    rw [modify_bind, pure_apply] at h
    cases h
    exact ⟨s₁, hrun, rfl⟩
  · rintro ⟨s₁, hrun, rfl⟩
    exact ⟨0, s₁, hrun, rfl⟩

/-- In front of the sessions: the messages are there, and no session. -/
theorem restoreChunks_before (now : Nat) {src : Tables} (hfits : src.Fits) :
    ∃ s₁, Loaded src.msgDb.entries s₁ ∧ s₁.contexts = 0 ∧ s₁.sess = Sess.empty ∧
      ∀ cs, restoreChunks now (src.before ++ cs) {} = restoreChunks now cs s₁ := by
  have hlen : (le64 src.lastMsgId).length ≤ maxChunkLen := by
    rw [length_le64]
    decide
  obtain ⟨buf, hinfo⟩ := restoreDbInfo_eq now (fread_holds hlen (s := {}))
  have hkeys : ([] ++ src.msgDb.entries).Pairwise fun (e e' : Sigma fun _ : UInt64 => Buf) => e.1 ≠ e'.1 :=
    List.pairwise_map.mp src.msgDb.nodupKeys
  obtain ⟨s₁, hloaded, hcontexts, hsess, hrun⟩ := restoreChunks_msgs now src.msgDb.entries hfits.msg []
    { State.at { ({} : State) with static := StaticBuf.zero.fread (le64 src.lastMsgId) } buf with
      lastMsgId := src.lastMsgId } hkeys (fun _ he => absurd he List.not_mem_nil)
  refine ⟨s₁, hloaded, hcontexts, hsess, fun cs => ?_⟩
  rw [Tables.before, List.cons_append, restoreChunks_cons (c := ⟨.globalInfo, le64 src.lastMsgId⟩) hinfo]
  exact hrun cs

/-- Each pending id finds its message. -/
theorem Loaded.pending {src : Tables} (h : Loaded src.msgDb.entries s) (ids : List UInt64)
    (hids : ∀ id ∈ ids, id ∈ src.msgDb) :
    (ids.filterMap fun id => s.tmpMsgDb.lookup id).map (restoredMsg s) = ids.map (storedMsg src) := by
  induction ids with
  | nil => rfl
  | cons id ids ih =>
      obtain ⟨b, hb⟩ := Option.isSome_iff_exists.mp (AList.lookup_isSome.mpr (hids id List.mem_cons_self))
      obtain ⟨m, hm, hr⟩ := h ⟨id, b⟩ (AList.mem_lookup_iff.mp hb)
      rw [List.filterMap_cons_some (f := fun id => s.tmpMsgDb.lookup id) hm, List.map_cons, List.map_cons, hr,
        ih fun id' hid' => hids id' (List.mem_cons_of_mem _ hid'), storedMsg, hb]
      rfl

namespace SameSession

variable {src : Tables} {e : Sigma fun _ : ByteStr => StoredContext} {c : CtxId}

/-- A session put into empty tables. -/
theorem addSession (queue : List MbufId) (hsess : s.sess = Persist.addSession Sess.empty c e queue)
    (hqueue : queue.map (restoredMsg s) = e.2.sendMsgIds.map (storedMsg src)) : SameSession src e s c := by
  have hctx : s.sess.ctxs c = Persist.contextOf e queue := by
    rw [hsess]
    exact Function.update_self _ _ _
  refine ⟨?_, ?_, ?_, ?_, ?_⟩
  · rw [hsess]
    exact AList.lookup_insert _
  · rw [hctx]
    rfl
  · rw [hctx]
    rfl
  · intro t
    rw [hsess]
    show c ∈ (addTopics Sess.empty.topicMgr c _).clients t ↔ _
    rw [mem_clients_addTopics]
    exact ⟨fun h => h.elim (fun h => absurd h (USet.not_mem_empty _)) And.left, fun h => Or.inr ⟨h, rfl⟩⟩
  · rw [hctx]
    exact hqueue

theorem undisturbed (h : SameSession src e s c) (hids : ∀ id ∈ e.2.sendMsgIds, id ∈ src.msgDb) (hs : Undisturbed s s') :
    SameSession src e s' c := by
  refine ⟨?_, ?_, ?_, ?_, ?_⟩
  · rw [hs.registry]
    exact h.registered
  · rw [hs.ctxs]
    exact h.clientId
  · rw [hs.ctxs]
    exact h.topics
  · intro t
    rw [hs.clients]
    exact h.subscribed t
  · rw [hs.ctxs, ← h.pending]
    refine List.map_congr_left fun m hm => ?_
    have hmem : restoredMsg s m ∈ e.2.sendMsgIds.map (storedMsg src) := by
      rw [← h.pending]
      exact List.mem_map_of_mem hm
    obtain ⟨id, hid, hr⟩ := List.mem_map.mp hmem
    obtain ⟨b, hb⟩ := Option.isSome_iff_exists.mp (AList.lookup_isSome.mpr (hids id hid))
    rw [storedMsg, hb, Option.map_some] at hr
    rw [hs.restoredMsg hr.symm, hr]

end SameSession

/-- A run over a file with one session: the state behind the session's chunk, and the one at the end. -/
theorem restoreChunks_one {now : Nat} {src : Tables} {e : Sigma fun _ : ByteStr => StoredContext} (hfits : src.Fits)
    (he : src.persistent = [e]) (h : restoreChunks now src.chunks {} = .ok (0, s')) :
    (s'.sess.ctxs (.stored 0)).subcribeTopics.length ≤ (e.2.subcribeTopics.length + 1) / 2 := by
  have hfit : (clientData e).length ≤ maxChunkLen := hfits.client e (by rw [he]; exact List.mem_cons_self)
  obtain ⟨s₁, -, hcontexts, -, hbefore⟩ := restoreChunks_before now hfits
  have hchunks : src.chunks = src.before ++ (⟨.clientMsg, clientData e⟩ :: src.behind) := by
    show src.before ++ ((src.persistent.map fun e => (⟨.clientMsg, clientData e⟩ : Chunk)) ++ src.behind) = _
    rw [he]
    rfl
  rw [hchunks, hbefore] at h
  obtain ⟨res, s₂, hchunk, hbehind⟩ := restoreChunks_cons_ok h
  have hle := restoreClientInfo_length now hfit (fread_holds hfit) hchunk
  obtain ⟨s₃, hrun, hs⟩ := restoreChunks_retains now src.retained hfits.retain s₂
  have hsame : s₃ = s' := by
    have := hrun.symm.trans hbehind
    cases this
    rfl
  subst hsame
  rw [hs.ctxs]
  have hzero : ({ s₁ with static := s₁.static.fread (clientData e) } : State).contexts = 0 := hcontexts
  rw [hzero] at hle
  exact hle

/-- The same run when the session has at most one topic. -/
theorem restoreChunks_short (now : Nat) {src : Tables} {e : Sigma fun _ : ByteStr => StoredContext} (hfits : src.Fits)
    (hknown : src.Known) (he : src.persistent = [e]) (hts : e.2.subcribeTopics.length ≤ 1) :
    ∃ s', restoreChunks now src.chunks {} = .ok (0, s') ∧ s'.contexts = 1 ∧ SameSession src e s' (.stored 0) := by
  have hmem : e ∈ src.persistent := by
    rw [he]
    exact List.mem_cons_self
  have hfit := hfits.client e hmem
  obtain ⟨s₁, hloaded, hcontexts, hsess, hbefore⟩ := restoreChunks_before now hfits
  have hchunks : src.chunks = src.before ++ (⟨.clientMsg, clientData e⟩ :: src.behind) := by
    show src.before ++ ((src.persistent.map fun e => (⟨.clientMsg, clientData e⟩ : Chunk)) ++ src.behind) = _
    rw [he]
    rfl
  obtain ⟨buf, hchunk⟩ := restoreClientInfo_eq now hfit hts (fread_holds hfit (s := s₁))
  obtain ⟨s₂, hs₂⟩ : ∃ s₂, s₂ = ({ State.at { s₁ with static := s₁.static.fread (clientData e) } buf with
    contexts := s₁.contexts + 1
    sess := addSession s₁.sess (.stored s₁.contexts) e
      (e.2.sendMsgIds.filterMap fun id => s₁.tmpMsgDb.lookup id) } : State) := ⟨_, rfl⟩
  obtain ⟨s₃, hbehind, hs⟩ := restoreChunks_retains now src.retained hfits.retain s₂
  have hsame : SameSession src e s₂ (.stored 0) := by
    refine SameSession.addSession (e.2.sendMsgIds.filterMap fun id => s₁.tmpMsgDb.lookup id) ?_ ?_
    · rw [hs₂, ← hsess, ← hcontexts]
    · rw [hs₂]
      exact hloaded.pending e.2.sendMsgIds (hknown e hmem)
  refine ⟨s₃, ?_, ?_, hsame.undisturbed (hknown e hmem) hs⟩
  · rw [hchunks, hbefore, restoreChunks_cons (c := ⟨.clientMsg, clientData e⟩) hchunk, ← hbehind, hs₂]
    rfl
  · rw [hs.contexts, hs₂]
    show s₁.contexts + 1 = 1
    rw [hcontexts]

end Reading

theorem chunks_ne_nil (src : Tables) : src.chunks ≠ [] := List.cons_ne_nil _ _

/-- There is at most one session, and it has at most one topic. -/
def Tables.Short (src : Tables) : Prop :=
  src.persistent.length ≤ 1 ∧ ∀ e ∈ src.persistent, e.2.subcribeTopics.length ≤ 1

/-- A file that gives back its tables holds at most one session with at most one topic. -/
theorem short_of_givesBack {fwrite : Nat → Option Nat} {now : Nat} {src : Tables} {f : DbFile} (hfits : src.Fits)
    (hstore : store fwrite src {} = .ok ((), f)) (h : GivesBack now src f.bytes) : src.Short := by
  have hone : src.persistent.length ≤ 1 := (lengths_iff hfits hstore).mp h.lengths
  refine ⟨hone, fun e he => ?_⟩
  have hsingle : src.persistent = [e] := by
    obtain ⟨e', he'⟩ := List.length_eq_one_iff.mp (Nat.le_antisymm hone (List.length_pos_of_mem he))
    rw [he'] at he ⊢
    rw [List.mem_singleton.mp he]
  obtain ⟨s, hrun, -, hsame⟩ := h.restores
  rw [h.lengths, restore_chunks (chunks_ne_nil src) hfits] at hrun
  obtain ⟨s₁, hrun, rfl⟩ := hrun
  have hle := restoreChunks_one hfits hsingle hrun
  have hlen : 0 < src.persistent.length := List.length_pos_of_mem he
  have htopics := (hsame 0 hlen).topics
  have hall : ∀ e' ∈ src.persistent, e' = e := by
    rw [hsingle]
    exact fun e' he' => List.mem_singleton.mp he'
  rw [hall _ (List.get_mem _ _)] at htopics
  have hle' : e.2.subcribeTopics.length ≤ (e.2.subcribeTopics.length + 1) / 2 := htopics ▸ hle
  omega

/-- At most one session with at most one topic comes back. -/
theorem givesBack_of_short {fwrite : Nat → Option Nat} {now : Nat} {src : Tables} {f : DbFile} (hfits : src.Fits)
    (hknown : src.Known) (hstore : store fwrite src {} = .ok ((), f)) (h : src.Short) : GivesBack now src f.bytes := by
  obtain ⟨hone, hshort⟩ := h
  have hlengths := (lengths_iff hfits hstore).mpr hone
  refine ⟨hlengths, ?_⟩
  have hdone : ∀ s : State, Undisturbed s { s with tmpMsgDb := ∅ } := fun s =>
    ⟨rfl, rfl, rfl, fun _ => rfl, List.prefix_rfl⟩
  rw [hlengths]
  cases hp : src.persistent with
  | nil =>
      obtain ⟨s₁, -, hcontexts, -, hbefore⟩ := restoreChunks_before now hfits
      obtain ⟨s₂, hbehind, hs⟩ := restoreChunks_retains now src.retained hfits.retain s₁
      have hchunks : src.chunks = src.before ++ src.behind := by
        show src.before ++ ((src.persistent.map fun e => (⟨.clientMsg, clientData e⟩ : Chunk)) ++ src.behind) = _
        rw [hp]
        rfl
      refine ⟨{ s₂ with tmpMsgDb := ∅ }, ?_, ?_, fun i hi => absurd hi (Nat.not_lt_zero i)⟩
      · rw [restore_chunks (chunks_ne_nil src) hfits, hchunks, hbefore]
        exact ⟨s₂, hbehind, rfl⟩
      · exact hs.contexts.trans hcontexts
  | cons e es =>
      have hes : es = [] := by
        rw [hp, List.length_cons] at hone
        exact List.length_eq_zero_iff.mp (by omega)
      subst hes
      have he : e ∈ src.persistent := by
        rw [hp]
        exact List.mem_cons_self
      obtain ⟨s₁, hrun, hcontexts, hsame⟩ := restoreChunks_short now hfits hknown hp (hshort e he)
      refine ⟨{ s₁ with tmpMsgDb := ∅ }, ?_, hcontexts, ?_⟩
      · rw [restore_chunks (chunks_ne_nil src) hfits]
        exact ⟨s₁, hrun, rfl⟩
      · intro i hi
        obtain rfl : i = 0 := Nat.lt_one_iff.mp hi
        exact hsame.undisturbed (hknown e he) (hdone s₁)

/-! ## Two files -/

/-- Message 7. -/
def message : Buf := (Buf.make 3 0 [1, 2, 3]).tag 7 .data true

/-- Message 7 pending for client `A`, which has these topics. -/
def tables (topics : List Topic) : Tables where
  lastMsgId := 7
  msgDb := AList.insert 7 message ∅
  clientMsg := AList.insert [0x41] { cleanSession := false, subcribeTopics := topics, sendMsgIds := [7] } ∅
  topicMgr := ∅

theorem tables_known (topics : List Topic) : (tables topics).Known := by
  intro e he id hid
  have hp : (tables topics).persistent =
      [⟨[0x41], { cleanSession := false, subcribeTopics := topics, sendMsgIds := [7] }⟩] := rfl
  rw [hp] at he
  obtain rfl := List.mem_singleton.mp he
  obtain rfl := List.mem_singleton.mp hid
  exact (AList.mem_insert _).mpr (Or.inl rfl)

theorem fits_of_all {src : Tables} (h : src.chunks.all (fun c => decide (c.data.length ≤ maxChunkLen)) = true) : src.Fits :=
  fun c hc => of_decide_eq_true (List.all_eq_true.mp h c hc)

theorem stored_of_isSome (src : Tables) (h : (store (fun _ => none) src {}).toOption.isSome = true) :
    ∃ f, store (fun _ => none) src {} = .ok ((), f) := by
  obtain ⟨r, hr⟩ := Option.isSome_iff_exists.mp h
  exact ⟨r.2, ok_of_toOption hr⟩

/-- **What a db file gives back.** Every chunk has at most one megabyte and the message table has the pending messages: then
    the file has the right lengths and everything comes back from it if and only if it holds at most one persistent session,
    with at most one topic. -/
theorem gives_back_iff {fwrite : Nat → Option Nat} {now : Nat} {src : Tables} {f : DbFile} (hfits : src.Fits)
    (hknown : src.Known) (hstore : store fwrite src {} = .ok ((), f)) : GivesBack now src f.bytes ↔ src.Short :=
  ⟨short_of_givesBack hfits hstore, givesBack_of_short hfits hknown hstore⟩

/-- Client `A` with topic `B` comes back. -/
theorem gives_back_one : ∃ f, store (fun _ => none) (tables [⟨[0x42], 1⟩]) {} = .ok ((), f) ∧
    GivesBack 0 (tables [⟨[0x42], 1⟩]) f.bytes := by
  obtain ⟨f, hf⟩ := stored_of_isSome (tables [⟨[0x42], 1⟩]) (by decide +kernel)
  refine ⟨f, hf, (gives_back_iff (fits_of_all (by decide +kernel)) (tables_known _) hf).mpr ⟨by decide +kernel, ?_⟩⟩
  intro e he
  obtain rfl := List.mem_singleton.mp he
  exact Nat.le_refl 1

/-- Client `A` with topics `B` and `C` does not: `C` is lost, and its bytes are taken for the number of messages. -/
theorem not_gives_back : ¬ ∀ (src : Tables) (f : DbFile), src.Fits → src.Known →
    store (fun _ => none) src {} = .ok ((), f) → GivesBack 0 src f.bytes := by
  intro hall
  obtain ⟨f, hf⟩ := stored_of_isSome (tables [⟨[0x42], 1⟩, ⟨[0x43], 2⟩]) (by decide +kernel)
  have hfits : (tables [⟨[0x42], 1⟩, ⟨[0x43], 2⟩]).Fits := fits_of_all (by decide +kernel)
  have hshort := short_of_givesBack hfits hf (hall _ f hfits (tables_known _) hf)
  have htwo := hshort.2 _ List.mem_cons_self
  exact absurd htwo (by decide)

end Persist
end MqttServer
