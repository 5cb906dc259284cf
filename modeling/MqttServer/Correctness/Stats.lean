import MqttServer.Correctness.Retained

/-!
# `Correctness.Stats` — the statistics of the messages

`CMsgStatMgr` has a slot for each of the low sixteen bits of a message id. A publish fills the slot of its message, an
acknowledgement counts in it, and `flush` writes a record for each slot that has an id and is older than two minutes.
`start_stat` clears the id that `msg_stat` has just set, so a slot has an id only after an acknowledgement: a message is
reported exactly once when somebody acknowledges it before its first flush, and nobody so late that another flush finds
the slot again (`reportedOnce_iff`).
-/

namespace MqttServer

open Lib Exec

variable {env : Env} {b b' b₀ b₁ : Broker} {c : CtxId} {m : MbufId} {t : ByteStr} {k : ConnId}
variable {i x : Nat} {s : MsgStat} {es post : List StatEvent}

/-! ## What `flush` writes -/

/-- A line of the record file. -/
structure StatRecord where
  msgId : Nat
  pubStart : Nat
  pubEnd : Nat
  curTime : Nat
  pubOnlineNum : Nat
  pubOfflineNum : Nat
  ackClient : Nat
deriving DecidableEq, Repr

namespace MsgStat

/-- The slot has an id, and its message is more than two minutes old. -/
def Due (s : MsgStat) (now : Nat) : Prop := s.msgId > 0 ∧ (now : Int) - s.pubStart > 120

instance (s : MsgStat) (now : Nat) : Decidable (s.Due now) := inferInstanceAs (Decidable (_ ∧ _))

/-- The record of a slot. -/
def record (s : MsgStat) (now : Nat) : StatRecord :=
  { msgId := s.msgId, pubStart := s.pubStart, pubEnd := s.pubEnd, curTime := now
    pubOnlineNum := s.pubOnlineNum, pubOfflineNum := s.pubOfflineNum, ackClient := s.ackClient }

/-- What `flush` writes for a slot. -/
def report (s : MsgStat) (now : Nat) : List StatRecord := if s.Due now then [s.record now] else []

end MsgStat

/-- What `flush` writes. -/
def Broker.statRecords (b : Broker) : List StatRecord :=
  (List.range 65536).flatMap fun i => (b.stat i).report b.now

/-! ## Runs -/

/-- What happens to the statistics: a publish to a topic that has a node, with the subscribers that are online and
    offline; a message removed from a pending queue by its acknowledgement; a flush, with the records it writes. -/
inductive StatOp where
  | publish (msgId online offline : Nat)
  | ack (msgId : Nat)
  | flush (records : List StatRecord)

/-- The message it is about. -/
def StatOp.msgId : StatOp → Option Nat
  | .publish id _ _ => some id
  | .ack id => some id
  | .flush _ => none

/-- The message that is published. -/
def StatOp.published : StatOp → Option Nat
  | .publish id _ _ => some id
  | _ => none

/-- The records that are written. -/
def StatOp.records : StatOp → List StatRecord
  | .flush rs => rs
  | _ => []

structure StatEvent where
  now : Nat
  op : StatOp

/-- The subscribers of a topic that have a connection. -/
def Broker.online (b : Broker) (t : ByteStr) : Nat :=
  ((b.sess.topicMgr.clients t).toList.filter fun c => (b.sess.ctxs c).mqttConnection.isSome).length

/-- The subscribers of a topic that have none. -/
def Broker.offline (b : Broker) (t : ByteStr) : Nat :=
  ((b.sess.topicMgr.clients t).toList.filter fun c => (b.sess.ctxs c).mqttConnection.isNone).length

/-- The message that a PUBACK removes from the pending queue of its session. -/
def Broker.removed (b : Broker) (k : ConnId) (buf : ByteStr) : Option Nat :=
  (decodePublishAck.decode buf).bind fun msgId => (b.sess.contextOf k).bind fun c =>
    ((b.sess.ctxs c).acked (fun m => (b.bufs m).msgId) msgId).map fun m => (b.bufs m).msgId

/-- **A run of publishes, acknowledgements and flushes**, with anything in between that leaves the statistics alone. A
    message is published under an id that nothing before it in the run has used: `CMsgMemStore` counts the ids up. -/
inductive StatRun (env : Env) (b₀ : Broker) : List StatEvent → Broker → Prop where
  | start : StatRun env b₀ [] b₀
  | publish {es : List StatEvent} {b b' : Broker} {t : ByteStr} {m : MbufId} {msg : Publish} :
      StatRun env b₀ es b → b.AllLinked → (b.sess.topicMgr.lookup t).isSome = true →
      (∀ e ∈ es, e.op.msgId ≠ some (b.bufs m).msgId) → publishTopic env t m msg b = .ok ((), b') →
      StatRun env b₀ (es ++ [⟨b.now, .publish (b.bufs m).msgId (b.online t) (b.offline t)⟩]) b'
  | ack {es : List StatEvent} {b b' : Broker} {k : ConnId} {buf : ByteStr} {r : Int} :
      StatRun env b₀ es b → handlePubackMsg env k buf b = .ok (r, b') →
      StatRun env b₀ (es ++ (b.removed k buf).toList.map fun id => ⟨b.now, .ack id⟩) b'
  | flush {es : List StatEvent} {b : Broker} :
      StatRun env b₀ es b → StatRun env b₀ (es ++ [⟨b.now, .flush b.statRecords⟩]) (flushStat b)
  | other {es : List StatEvent} {b b' : Broker} :
      StatRun env b₀ es b → b'.stat = b.stat → StatRun env b₀ es b'

/-! ## One slot -/

/-- What an event does to slot `i`. -/
def MsgStat.after (i : Nat) (s : MsgStat) (e : StatEvent) : MsgStat :=
  match e.op with
  | .publish id online offline =>
      if id % 65536 = i then
        { pubStart := e.now, pubEnd := e.now, pubOnlineNum := online, pubOfflineNum := offline }
      else s
  | .ack id => if id % 65536 = i then { s with msgId := id, ackClient := s.ackClient + 1 } else s
  | .flush _ => if s.Due e.now then { pubStart := e.now } else s

/-- Every flush of the run writes what slot `i` has at that time. -/
def Logged (i : Nat) : MsgStat → List StatEvent → Prop
  | _, [] => True
  | s, e :: es =>
      (∀ rs, e.op = .flush rs → rs.filter (fun r => r.msgId % 65536 = i) = s.report e.now) ∧ Logged i (s.after i e) es

theorem logged_append (es' : List StatEvent) :
    ∀ s, Logged i s (es ++ es') ↔ Logged i s es ∧ Logged i (es.foldl (MsgStat.after i) s) es' := by
  induction es with
  | nil => exact fun s => ⟨fun h => ⟨trivial, h⟩, fun h => h.2⟩
  | cons e es ih =>
      intro s
      show _ ∧ Logged i _ (es ++ es') ↔ (_ ∧ Logged i _ es) ∧ _
      rw [ih, and_assoc]
      rfl

/-- An id sits in its own slot. -/
def Broker.Slotted (b : Broker) : Prop := ∀ i, (b.stat i).msgId = 0 ∨ (b.stat i).msgId % 65536 = i

theorem MsgStat.after_slotted (h : s.msgId = 0 ∨ s.msgId % 65536 = i) (e : StatEvent) :
    (s.after i e).msgId = 0 ∨ (s.after i e).msgId % 65536 = i := by
  unfold MsgStat.after
  split
  · split
    · exact Or.inl rfl
    · exact h
  · split
    · rename_i hid
      exact Or.inr hid
    · exact h
  · split
    · exact Or.inl rfl
    · exact h

/-- The records of a slot carry its id. -/
theorem MsgStat.filter_report (h : s.msgId = 0 ∨ s.msgId % 65536 = i) (j now : Nat) :
    (s.report now).filter (fun r => r.msgId % 65536 = j) = if i = j then s.report now else [] := by
  unfold MsgStat.report
  by_cases hdue : s.Due now
  · have hid : s.msgId % 65536 = i := h.resolve_left (Nat.ne_of_gt hdue.1)
    rw [if_pos hdue, List.filter_singleton]
    show (bif decide (s.msgId % 65536 = j) then _ else _) = _
    rw [hid]
    by_cases hij : i = j
    · rw [if_pos hij, decide_eq_true hij, cond_true]
    · rw [if_neg hij, decide_eq_false hij, cond_false]
  · rw [if_neg hdue]
    split <;> rfl

/-- Behind the filter only the slot itself is left. -/
theorem Broker.filter_statRecords (h : b.Slotted) (hi : i < 65536) :
    b.statRecords.filter (fun r => r.msgId % 65536 = i) = (b.stat i).report b.now := by
  have hslots : ∀ n, ((List.range n).flatMap fun j => (b.stat j).report b.now).filter (fun r => r.msgId % 65536 = i) =
      if i < n then (b.stat i).report b.now else [] := by
    intro n
    induction n with
    | zero => rw [if_neg (Nat.not_lt_zero i)]; rfl
    | succ n ih =>
        rw [List.range_succ, List.flatMap_append, List.filter_append, ih, List.flatMap_singleton,
          MsgStat.filter_report (h n)]
        by_cases hn : n = i
        · rw [if_pos hn, hn, if_neg (Nat.lt_irrefl i), if_pos (Nat.lt_succ_self i), List.nil_append]
        · rw [if_neg hn, List.append_nil]
          exact if_congr ⟨fun hlt => Nat.lt_succ_of_lt hlt,
            fun hlt => Nat.lt_of_le_of_ne (Nat.le_of_lt_succ hlt) (Ne.symm hn)⟩ rfl rfl
  rw [Broker.statRecords, hslots, if_pos hi]

/-! ## What each operation does to the slots -/

theorem modifyStat_stat (b : Broker) (id : Nat) (f : MsgStat → MsgStat) (i : Nat) :
    (b.modifyStat id f).stat i = if id % 65536 = i then f (b.stat i) else b.stat i := by
  unfold Broker.modifyStat
  by_cases hi : id % 65536 = i
  · rw [if_pos hi, hi]
    exact Function.update_self _ _ _
  · rw [if_neg hi]
    exact Function.update_of_ne (Ne.symm hi) _ _

/-- One after the other, subscribers are counted in the slot of the message. -/
structure Counted (m : MbufId) (online offline : Nat) (b b' : Broker) : Prop where
  now : b'.now = b.now
  msgId : (b'.bufs m).msgId = (b.bufs m).msgId
  stat : ∀ i, b'.stat i = if (b.bufs m).msgId % 65536 = i then
    { b.stat i with pubOnlineNum := (b.stat i).pubOnlineNum + online
                    pubOfflineNum := (b.stat i).pubOfflineNum + offline }
    else b.stat i

theorem Counted.refl (m : MbufId) (b : Broker) : Counted m 0 0 b b where
  now := rfl
  msgId := rfl
  stat i := by split <;> rfl

theorem Counted.trans {on₁ off₁ on₂ off₂ : Nat} {b₂ : Broker} (h : Counted m on₁ off₁ b b₁)
    (h₁ : Counted m on₂ off₂ b₁ b₂) : Counted m (on₁ + on₂) (off₁ + off₂) b b₂ where
  now := h₁.now.trans h.now
  msgId := h₁.msgId.trans h.msgId
  stat i := by
    rw [h₁.stat, h.msgId, h.stat]
    by_cases hi : (b.bufs m).msgId % 65536 = i
    · simp only [if_pos hi, Nat.add_assoc]
    · simp only [if_neg hi]

/-- A subscriber counts as online when it has a connection at its turn. -/
theorem publishClient_counted (hl : b.Linked c) (h : publishClient env c m b = .ok ((), b₁)) :
    Counted m (if (b.sess.ctxs c).mqttConnection.isSome then 1 else 0)
      (if (b.sess.ctxs c).mqttConnection.isSome then 0 else 1) b b₁ := by
  unfold publishClient at h
  rw [get_bind, set_bind] at h
  cases hc : (b.sess.ctxs c).mqttConnection with
  | none =>
      simp only [hc] at h
      cases h
      exact ⟨rfl, rfl, modifyStat_stat _ _ fun x => { x with pubOfflineNum := x.pubOfflineNum + 1 }⟩
  | some k =>
      simp only [hc] at h
      have hctx : ({ b with sess := b.sess.modifyContext c (·.addSendMsg m) } : Broker).sess.contextOf k = some c := hl k hc
      by_cases ht : b.Takes env k
      · have hput : put env k m { b with sess := b.sess.modifyContext c (·.addSendMsg m) } = _ :=
          put_takes (Sess.alive_of_contextOf hctx) ht
        rw [bind_apply, hput] at h
        cases h
        exact ⟨rfl, EventHandler.put_msgId m, modifyStat_stat _ _ fun x => { x with pubOnlineNum := x.pubOnlineNum + 1 }⟩
      · have hput : put env k m { b with sess := b.sess.modifyContext c (·.addSendMsg m) } = _ := put_loses ht hctx
        rw [bind_apply, hput] at h
        cases h
        exact ⟨rfl, EventHandler.put_msgId m, modifyStat_stat _ _ fun x => { x with pubOnlineNum := x.pubOnlineNum + 1 }⟩

/-- **The loop** counts everybody as he was when it started. -/
theorem publishLoop_counted (cs : List CtxId) : ∀ b : Broker, cs.Nodup → (∀ c ∈ cs, c ∈ b.sess.topicMgr.clients t) →
    (∀ c ∈ cs, b.Linked c) → publishLoop env t m cs b = .ok ((), b') →
      Counted m (cs.filter fun c => (b.sess.ctxs c).mqttConnection.isSome).length
        (cs.filter fun c => (b.sess.ctxs c).mqttConnection.isNone).length b b' := by
  induction cs with
  | nil =>
      intro b _ _ _ h
      cases h
      exact Counted.refl m _
  | cons c cs ih =>
      intro b hnd hmem hl h
      obtain ⟨hc, hnd⟩ := List.nodup_cons.mp hnd
      have hmem₀ := hmem c List.mem_cons_self
      have hl₀ := hl c List.mem_cons_self
      have hne : ∀ c' ∈ cs, c' ∉ [c] := fun c' hc' hx => hc (List.mem_singleton.mp hx ▸ hc')
      obtain ⟨b₁, hround, hr⟩ := publishClient_rounds env m hl₀
      have hcount := publishClient_counted hl₀ hround
      unfold publishLoop at h
      rw [get_bind, if_pos hmem₀, bind_apply, hround] at h
      simp only at h
      rw [get_bind] at h
      by_cases hin : c ∈ b₁.sess.topicMgr.clients t
      · rw [if_pos hin] at h
        have hrest := ih b₁ hnd
          (fun c' hc' => (hr.clients t c').mpr ⟨hmem c' (List.mem_cons_of_mem c hc'), fun hx => hne c' hc' hx.1⟩)
          (fun c' hc' => hr.linked c' (hl c' (List.mem_cons_of_mem c hc'))) h
        -- the connections of the others are what they were
        have hsame : ∀ p : Option ConnId → Bool, (cs.filter fun c' => p (b₁.sess.ctxs c').mqttConnection) =
            cs.filter fun c' => p (b.sess.ctxs c').mqttConnection := by
          intro p
          refine List.filter_congr fun c' hc' => ?_
          rw [hr.other c' (hne c' hc')]
        have hboth := hcount.trans hrest
        rw [hsame Option.isSome, hsame Option.isNone] at hboth
        rw [List.filter_cons, List.filter_cons]
        cases hconn : (b.sess.ctxs c).mqttConnection with
        | none =>
            rw [hconn] at hboth
            simpa [Nat.add_comm] using hboth
        | some k =>
            rw [hconn] at hboth
            simpa [Nat.add_comm] using hboth
      · rw [if_neg hin] at h
        cases h

/-- **A publish** fills the slot of its message. -/
theorem publishTopic_after {msg : Publish} (hl : b.AllLinked) (hnode : (b.sess.topicMgr.lookup t).isSome = true)
    (h : publishTopic env t m msg b = .ok ((), b')) (i : Nat) : b'.stat i =
      (b.stat i).after i ⟨b.now, .publish (b.bufs m).msgId (b.online t) (b.offline t)⟩ := by
  -- keeping the message as retained touches no session, no slot and no clock
  obtain ⟨b₂, hrun, hctxs, hconns, hclients, hnow, hid, hstat⟩ : ∃ b₂ : Broker, updateRetain t m msg
      (b.act { b.sess with topicMgr := b.sess.topicMgr.ensure t } (.publish t m (b.bufs m).msgId)) = .ok ((), b₂) ∧
      b₂.sess.ctxs = b.sess.ctxs ∧ b₂.sess.conns = b.sess.conns ∧
      (∀ t', b₂.sess.topicMgr.clients t' = b.sess.topicMgr.clients t') ∧ b₂.now = b.now ∧
      (b₂.bufs m).msgId = (b.bufs m).msgId ∧ b₂.stat = b.stat := by
    refine ⟨_, updateRetain_eq t m msg _, ?_⟩
    split
    · refine ⟨rfl, rfl, fun t' => ?_, rfl, ?_, rfl⟩
      · show (TopicMgr.setRetainMsg (b.sess.topicMgr.ensure t) t _).clients t' = _
        rw [TopicMgr.clients_setRetainMsg, TopicMgr.clients_ensure]
      · show (Function.update b.bufs b.nextBuf (retainCopy b.now (b.bufs m)) m).msgId = _
        by_cases hm : m = b.nextBuf
        · rw [hm, Function.update_self]
          rfl
        · rw [Function.update_of_ne hm]
    · exact ⟨rfl, rfl, fun t' => TopicMgr.clients_ensure _ _ _, rfl, rfl, rfl⟩
  have hsome : ¬ (b.sess.topicMgr.lookup t).isNone := by
    rw [Option.isNone_iff_eq_none]
    exact Option.isSome_iff_ne_none.mp hnode
  unfold publishTopic at h
  rw [get_bind, set_bind, bind_apply, hrun] at h
  simp only at h
  rw [if_neg hsome, modify_bind, bind_ok] at h
  obtain ⟨_, b₃, hset, h⟩ := h
  cases h
  have hlinked : ∀ c ∈ b.sess.topicMgr.clients t, (b₂.startStat (b.bufs m).msgId).Linked c := by
    intro c hc k hk
    have hown := hl c ⟨t, hc⟩ k (by rw [← hctxs]; exact hk)
    show b₂.sess.contextOf k = some c
    unfold Sess.contextOf at hown ⊢
    rw [hconns]
    exact hown
  have hperm := env.order_perm (b.sess.topicMgr.clients t).toList
  have hloop : publishLoop env t m (env.order (b.sess.topicMgr.clients t).toList) (b₂.startStat (b.bufs m).msgId) =
      .ok ((), b₃) := by
    rw [← hclients]
    exact hset
  -- the fan-out visits every subscriber once, in the order the set gives
  have hcount := publishLoop_counted _ _ (hperm.nodup_iff.mpr (b.sess.topicMgr.clients t).nodup)
    (fun c hc => by
      show c ∈ b₂.sess.topicMgr.clients t
      rw [hclients]
      exact hperm.mem_iff.mp hc)
    (fun c hc => hlinked c (hperm.mem_iff.mp hc)) hloop
  have hon : ∀ p : CtxId → Bool, ((env.order (b.sess.topicMgr.clients t).toList).filter p).length =
      ((b.sess.topicMgr.clients t).toList.filter p).length := fun p => (hperm.filter p).length_eq
  have hslot := hcount.stat i
  have hstart : ((b₂.startStat (b.bufs m).msgId).bufs m).msgId = (b.bufs m).msgId := hid
  rw [hstart, hon, hon] at hslot
  have hfresh : (b₂.startStat (b.bufs m).msgId).stat i =
      if (b.bufs m).msgId % 65536 = i then { pubStart := b.now } else b.stat i := by
    rw [Broker.startStat, modifyStat_stat, hnow, hstat]
  show (b₃.endStat (b.bufs m).msgId).stat i = _
  rw [Broker.endStat, modifyStat_stat, hslot, hfresh, hcount.now]
  unfold MsgStat.after
  simp only
  by_cases hi : (b.bufs m).msgId % 65536 = i
  · simp only [if_pos hi, Nat.zero_add]
    show ({ pubStart := _, pubEnd := b₂.now, pubOnlineNum := _, pubOfflineNum := _ } : MsgStat) = _
    rw [hnow]
    show ({ pubStart := _, pubEnd := _, pubOnlineNum := ((_ : List CtxId).filter fun c => (b₂.sess.ctxs c).mqttConnection.isSome).length,
            pubOfflineNum := ((_ : List CtxId).filter fun c => (b₂.sess.ctxs c).mqttConnection.isNone).length } : MsgStat) = _
    rw [hctxs]
    rfl
  · simp only [if_neg hi]

/-- **An acknowledgement** counts in the slot of the message that it removes. -/
theorem handlePubackMsg_after {buf : ByteStr} {r : Int} (h : handlePubackMsg env k buf b = .ok (r, b')) (i : Nat) :
    b'.stat i = ((b.removed k buf).toList.map fun id => (⟨b.now, .ack id⟩ : StatEvent)).foldl (MsgStat.after i) (b.stat i) := by
  unfold handlePubackMsg at h
  cases hdec : decodePublishAck.decode buf with
  | none =>
      simp only [hdec] at h
      cases h
      rw [Broker.removed, hdec]
      rfl
  | some msgId =>
      simp only [hdec] at h
      rw [bind_ok] at h
      obtain ⟨c, b₁, hctx, h⟩ := h
      obtain ⟨hc, hcases⟩ := clientContext_ok hctx
      rw [get_bind, set_bind] at h
      -- a context that is only made now has nothing pending
      have hremoved : b.removed k buf = ((b₁.sess.ctxs c).acked (fun m => (b₁.bufs m).msgId) msgId).map
          fun m => (b₁.bufs m).msgId := by
        rw [Broker.removed, hdec]
        show ((b.sess.contextOf k).bind _) = _
        rcases hcases with rfl | ⟨hnone, -, rfl⟩
        · rw [hc]
          rfl
        · have hnew : c = .conn k := by
            have hown : (b.sess.newContext k (env.cleanGarbage k)).contextOf k = some c := hc
            rw [Sess.newContext_contextOf, if_pos rfl] at hown
            exact (Option.some.inj hown).symm
          rw [hnone, hnew]
          show none = (((b.sess.newContext k (env.cleanGarbage k)).ctxs (.conn k)).acked _ msgId).map _
          unfold Sess.newContext
          simp only [Function.update_self]
          rfl
      have hsame : b₁.stat = b.stat ∧ b₁.now = b.now := by
        rcases hcases with rfl | ⟨-, -, rfl⟩
        · exact ⟨rfl, rfl⟩
        · exact ⟨rfl, rfl⟩
      rw [hremoved]
      cases hold : (b₁.sess.ctxs c).acked (fun m => (b₁.bufs m).msgId) msgId with
      | none =>
          simp only [hold] at h
          cases h
          show b₁.stat i = b.stat i
          rw [hsame.1]
      | some m =>
          simp only [hold] at h
          cases h
          have hcount : ∀ b₂ : Broker, b₂.stat = b.stat →
              (b₂.modifyStat (b₁.bufs m).msgId fun x =>
                { x with msgId := (b₁.bufs m).msgId, ackClient := x.ackClient + 1 }).stat i =
              (b.stat i).after i ⟨b.now, .ack (b₁.bufs m).msgId⟩ := by
            intro b₂ hb₂
            rw [modifyStat_stat, hb₂]
            rfl
          exact hcount _ hsame.1

theorem StatRun.stat (h : StatRun env b₀ es b) (i : Nat) : b.stat i = es.foldl (MsgStat.after i) (b₀.stat i) := by
  induction h with
  | start => rfl
  | publish hrun hl hnode _ hpub ih =>
      rw [publishTopic_after hl hnode hpub, List.foldl_append, ← ih]
      rfl
  | ack hrun hack ih => rw [handlePubackMsg_after hack, List.foldl_append, ← ih]
  | flush hrun ih =>
      rw [List.foldl_append, ← ih]
      rfl
  | other hrun hsame ih => rw [hsame, ih]

theorem StatRun.slotted (h : StatRun env b₀ es b) (hslot : b₀.Slotted) : b.Slotted := by
  have hfold : ∀ (es : List StatEvent) (i : Nat) (s : MsgStat), (s.msgId = 0 ∨ s.msgId % 65536 = i) →
      (es.foldl (MsgStat.after i) s).msgId = 0 ∨ (es.foldl (MsgStat.after i) s).msgId % 65536 = i := by
    intro es i
    induction es with
    | nil => exact fun _ hs => hs
    | cons e es ih => exact fun s hs => ih (s.after i e) (MsgStat.after_slotted hs e)
  intro i
  rw [h.stat i]
  exact hfold es i _ (hslot i)

/-- An event that writes nothing. -/
theorem logged_silent {e : StatEvent} (h : ∀ rs, e.op ≠ .flush rs) : Logged i s [e] :=
  ⟨fun rs hrs => absurd hrs (h rs), trivial⟩

/-- **A run slot by slot**: each flush writes what the events have made of the slot. -/
theorem StatRun.logged (h : StatRun env b₀ es b) (hslot : b₀.Slotted) (hi : i < 65536) : Logged i (b₀.stat i) es := by
  induction h with
  | start => trivial
  | publish hrun _ _ _ _ ih => exact (logged_append _ _).mpr ⟨ih, logged_silent fun rs hx => by cases hx⟩
  | @ack es b b' k buf r hrun _ ih =>
      refine (logged_append _ _).mpr ⟨ih, ?_⟩
      cases b.removed k buf with
      | none => trivial
      | some id => exact logged_silent fun rs hx => by cases hx
  | flush hrun ih =>
      refine (logged_append _ _).mpr ⟨ih, ⟨fun rs hrs => ?_, trivial⟩⟩
      rw [← StatOp.flush.inj hrs, Broker.filter_statRecords (hrun.slotted hslot) hi, hrun.stat i]
  | other _ _ ih => exact ih

/-- A message is not published under an id that has been used. -/
theorem StatRun.issued (h : StatRun env b₀ es b) :
    es.Pairwise fun e e' => ∀ id, e.op.msgId = some id → e'.op.published ≠ some id := by
  have hsilent : ∀ {es : List StatEvent} {e : StatEvent},
      es.Pairwise (fun e e' => ∀ id, e.op.msgId = some id → e'.op.published ≠ some id) → e.op.published = none →
      (es ++ [e]).Pairwise fun e e' => ∀ id, e.op.msgId = some id → e'.op.published ≠ some id := by
    intro es e hes hnone
    refine List.pairwise_append.mpr ⟨hes, List.pairwise_singleton _ _, fun e₁ _ e₂ he₂ id _ hx => ?_⟩
    rw [List.mem_singleton.mp he₂, hnone] at hx
    cases hx
  induction h with
  | start => exact List.Pairwise.nil
  | publish hrun _ _ hnew _ ih =>
      refine List.pairwise_append.mpr ⟨ih, List.pairwise_singleton _ _, fun e₁ he₁ e₂ he₂ id hid hx => ?_⟩
      rw [List.mem_singleton.mp he₂] at hx
      cases hx
      exact hnew e₁ he₁ hid
  | @ack es b b' k buf r hrun _ ih =>
      cases b.removed k buf with
      | none =>
          rw [Option.toList_none, List.map_nil, List.append_nil]
          exact ih
      | some id => exact hsilent ih rfl
  | flush hrun ih => exact hsilent ih rfl
  | other _ _ ih => exact ih

/-! ## One message -/

/-- The records of a message. -/
def reports (x : Nat) (es : List StatEvent) : List StatRecord :=
  es.flatMap fun e => e.op.records.filter fun r => r.msgId = x

/-- The acknowledgements of a message. -/
def acks (x : Nat) (es : List StatEvent) : Nat := (es.filter fun e => e.op.msgId = some x).length

theorem acks_cons (x : Nat) (e : StatEvent) (es : List StatEvent) :
    acks x (e :: es) = acks x es + if e.op.msgId = some x then 1 else 0 := by
  unfold acks
  rw [List.filter_cons]
  by_cases hx : e.op.msgId = some x
  · rw [if_pos (decide_eq_true hx), if_pos hx, List.length_cons]
  · rw [if_neg fun h => hx (of_decide_eq_true h), if_neg hx, Nat.add_zero]

/-- A flush more than two minutes after `start`. -/
def StatEvent.Due (e : StatEvent) (start : Nat) : Prop := (∃ rs, e.op = .flush rs) ∧ start + 120 < e.now

/-- The message is acknowledged, and behind that there is a flush more than two minutes after `start`. -/
def Late (start x : Nat) : List StatEvent → Prop
  | [] => False
  | e :: es => (e.op = .ack x ∧ ∃ e' ∈ es, e'.Due start) ∨ Late start x es

/-- Fewer than 65536 ids are in use. -/
def Window (base : Nat) (es : List StatEvent) : Prop :=
  ∀ e ∈ es, ∀ id, e.op.msgId = some id → base < id ∧ id < base + 65536

/-- What the events say about the slot of `x` they say about `x`, and none of them publishes it. -/
def Apart (x : Nat) (es : List StatEvent) : Prop :=
  ∀ e ∈ es, e.op.published ≠ some x ∧ ∀ id, e.op.msgId = some id → id % 65536 = x % 65536 → id = x

theorem Window.same {base id : Nat} (hid : base < id ∧ id < base + 65536) (hx : base < x ∧ x < base + 65536)
    (h : id % 65536 = x % 65536) : id = x := by
  omega

theorem StatEvent.due_iff (start : Nat) (e : StatEvent) (h : e.op = .flush rs) (hs : s.pubStart = start) :
    s.Due e.now ↔ s.msgId > 0 ∧ e.Due start := by
  unfold MsgStat.Due StatEvent.Due
  rw [hs]
  refine and_congr_right fun _ => ⟨fun hlt => ⟨⟨rs, h⟩, ?_⟩, fun hlt => ?_⟩
  · omega
  · have hnow := hlt.2
    omega

/-- An event that is no flush writes nothing. -/
theorem reports_cons_silent {e : StatEvent} (h : e.op.records = []) : reports x (e :: es) = reports x es := by
  unfold reports
  rw [List.flatMap_cons, h]
  rfl

/-- What a flush writes for a message is what it writes for its slot. -/
theorem reports_cons_flush {e : StatEvent} {rs : List StatRecord} (h : e.op = .flush rs)
    (hrs : rs.filter (fun r => r.msgId % 65536 = x % 65536) = s.report e.now) :
    reports x (e :: es) = ((s.report e.now).filter fun r => r.msgId = x) ++ reports x es := by
  unfold reports
  rw [List.flatMap_cons, h, ← hrs, List.filter_filter]
  congr 1
  refine List.filter_congr fun r _ => ?_
  show _ = (decide (r.msgId = x) && decide (r.msgId % 65536 = x % 65536))
  by_cases hr : r.msgId = x
  · rw [decide_eq_true hr, decide_eq_true (congrArg (· % 65536) hr)]
    rfl
  · rw [decide_eq_false hr]
    rfl

/-- The slot of an event that has nothing to do with it. -/
theorem after_other {e : StatEvent} (hid : ∀ id, e.op.msgId = some id → id % 65536 ≠ i)
    (hflush : ∀ rs, e.op = .flush rs → ¬ s.Due e.now) : s.after i e = s := by
  unfold MsgStat.after
  cases hop : e.op with
  | publish id online offline => exact if_neg (hid id (by rw [hop]; rfl))
  | ack id => exact if_neg (hid id (by rw [hop]; rfl))
  | flush rs => exact if_neg (hflush rs hop)

/-- **Before the publish** the slot is empty, and stays so. -/
theorem quiet_before (es : List StatEvent) : ∀ s : MsgStat, s.msgId = 0 → Logged (x % 65536) s es →
    (∀ e ∈ es, ∀ id, e.op.msgId = some id → id % 65536 ≠ x % 65536) →
      reports x es = [] ∧ es.foldl (MsgStat.after (x % 65536)) s = s := by
  induction es with
  | nil => exact fun _ _ _ _ => ⟨rfl, rfl⟩
  | cons e es ih =>
      intro s hs hlog hid
      have hnot : ¬ s.Due e.now := fun hdue => Nat.lt_irrefl 0 (hs ▸ hdue.1)
      have hsame := after_other (s := s) (hid e List.mem_cons_self) fun _ _ => hnot
      obtain ⟨hhead, htail⟩ := hlog
      rw [hsame] at htail
      obtain ⟨hnone, hstay⟩ := ih s hs htail fun e' he' => hid e' (List.mem_cons_of_mem e he')
      refine ⟨?_, ?_⟩
      · cases hop : e.op with
        | publish id online offline => rw [reports_cons_silent (by rw [hop]; rfl), hnone]
        | ack id => rw [reports_cons_silent (by rw [hop]; rfl), hnone]
        | flush rs =>
            rw [reports_cons_flush hop (hhead rs hop), hnone, MsgStat.report, if_neg hnot]
            rfl
      · rw [List.foldl_cons, hsame, hstay]

/-- **Until the first flush that is due** the slot counts the acknowledgements, and has an id as soon as there is one. -/
theorem counts_acks (es : List StatEvent) : ∀ s : MsgStat, Logged (x % 65536) s es → Apart x es →
    (∀ e ∈ es, ¬ e.Due s.pubStart) → reports x es = [] ∧ es.foldl (MsgStat.after (x % 65536)) s =
      { s with msgId := if acks x es = 0 then s.msgId else x, ackClient := s.ackClient + acks x es } := by
  -- on the events in which no flush of the slot is due
  induction es with
  | nil => exact fun _ _ _ _ => ⟨rfl, rfl⟩
  | cons e es ih =>
      intro s hlog hapart hdue
      obtain ⟨hhead, htail⟩ := hlog
      have hrest : ∀ s₁ : MsgStat, s₁.pubStart = s.pubStart → s.after (x % 65536) e = s₁ → reports x es = [] ∧
          es.foldl (MsgStat.after (x % 65536)) s₁ =
            { s₁ with msgId := if acks x es = 0 then s₁.msgId else x, ackClient := s₁.ackClient + acks x es } := by
        intro s₁ hstart heq
        refine ih s₁ (heq ▸ htail) (fun e' he' => hapart e' (List.mem_cons_of_mem e he')) fun e' he' => ?_
        rw [hstart]
        exact hdue e' (List.mem_cons_of_mem e he')
      obtain ⟨hpub, hid⟩ := hapart e List.mem_cons_self
      have hnot : ∀ rs, e.op = .flush rs → ¬ s.Due e.now := fun rs hop hx =>
        hdue e List.mem_cons_self ((StatEvent.due_iff _ e hop rfl).mp hx).2
      by_cases hx : e.op.msgId = some x
      · -- an acknowledgement of the message
        have hop : e.op = .ack x := by
          cases hop : e.op with
          | publish id online offline =>
              rw [hop] at hx hpub
              exact absurd hx hpub
          | ack id =>
              rw [hop] at hx
              rw [Option.some.inj hx]
          | flush rs =>
              rw [hop] at hx
              cases hx
        have hafter : s.after (x % 65536) e = { s with msgId := x, ackClient := s.ackClient + 1 } := by
          unfold MsgStat.after
          rw [hop]
          exact if_pos rfl
        obtain ⟨hnone, hstay⟩ := hrest { s with msgId := x, ackClient := s.ackClient + 1 } rfl hafter
        refine ⟨by rw [reports_cons_silent (by rw [hop]; rfl), hnone], ?_⟩
        rw [List.foldl_cons, hafter, hstay, acks_cons, if_pos hx, ite_self, if_neg (Nat.succ_ne_zero _)]
        show ({ s with msgId := x, ackClient := s.ackClient + 1 + acks x es } : MsgStat) = _
        rw [Nat.add_assoc, Nat.add_comm 1]
      · -- any other event leaves the slot alone
        have hafter : s.after (x % 65536) e = s :=
          after_other (fun id hid' hslot => hx (hid id hid' hslot ▸ hid')) hnot
        obtain ⟨hnone, hstay⟩ := hrest s rfl hafter
        refine ⟨?_, by rw [List.foldl_cons, hafter, hstay, acks_cons, if_neg hx, Nat.add_zero]⟩
        cases hop : e.op with
        | publish id online offline => rw [reports_cons_silent (by rw [hop]; rfl), hnone]
        | ack id => rw [reports_cons_silent (by rw [hop]; rfl), hnone]
        | flush rs =>
            rw [reports_cons_flush hop (hhead rs hop), hnone, MsgStat.report, if_neg (hnot rs hop)]
            rfl

/-- **Behind a report** the message is quiet exactly when no flush finds an acknowledgement of it that came later. -/
theorem reports_late {start : Nat} (hx : 0 < x) (es : List StatEvent) : ∀ s : MsgStat, s.pubStart = start →
    (s.msgId = 0 ∨ s.msgId = x) → Logged (x % 65536) s es → Apart x es →
      (reports x es = [] ↔ (s.msgId = x → ∀ e ∈ es, ¬ e.Due start) ∧ ¬ Late start x es) := by
  induction es with
  | nil =>
      intro s _ _ _ _
      exact iff_of_true rfl ⟨fun _ e he => absurd he List.not_mem_nil, fun h => h⟩
  | cons e es ih =>
      intro s hstart hid hlog hapart
      obtain ⟨hhead, htail⟩ := hlog
      obtain ⟨hpub, hother⟩ := hapart e List.mem_cons_self
      have hapart' : Apart x es := fun e' he' => hapart e' (List.mem_cons_of_mem e he')
      -- an event that leaves the slot alone and is not the acknowledgement
      have hskip : s.after (x % 65536) e = s → (s.msgId = x → ¬ e.Due start) → e.op ≠ .ack x → reports x (e :: es) = reports x es →
          (reports x (e :: es) = [] ↔ (s.msgId = x → ∀ e' ∈ e :: es, ¬ e'.Due start) ∧ ¬ Late start x (e :: es)) := by
        intro hsame hdue hack hrep
        rw [hsame] at htail
        rw [hrep, ih s hstart hid htail hapart']
        refine and_congr (forall_congr' fun hs => ?_) (not_congr ?_)
        · rw [List.forall_mem_cons]
          exact ⟨fun h => ⟨hdue hs, h⟩, fun h => h.2⟩
        · exact ⟨Or.inr, fun h => h.resolve_left fun hx => hack hx.1⟩
      cases hop : e.op with
      | publish id online offline =>
          refine hskip (after_other (fun id' hid' hslot => hpub ?_) fun rs hrs => ?_) (fun _ hdue => ?_)
            (fun h => by rw [hop] at h; cases h) (reports_cons_silent (by rw [hop]; rfl))
          · rw [hother id' hid' hslot] at hid'
            rw [hop] at hid' ⊢
            exact hid'
          · rw [hop] at hrs
            cases hrs
          · obtain ⟨⟨rs, hrs⟩, -⟩ := hdue
            rw [hop] at hrs
            cases hrs
      | ack id =>
          by_cases hidx : id = x
          · subst hidx
            have hafter : s.after (id % 65536) e = { s with msgId := id, ackClient := s.ackClient + 1 } := by
              unfold MsgStat.after
              rw [hop]
              exact if_pos rfl
            have hnot : ¬ e.Due start := by
              rintro ⟨⟨rs, hrs⟩, -⟩
              rw [hop] at hrs
              cases hrs
            rw [hafter] at htail
            rw [reports_cons_silent (by rw [hop]; rfl),
              ih { s with msgId := id, ackClient := s.ackClient + 1 } hstart (Or.inr rfl) htail hapart']
            constructor
            · rintro ⟨hquiet, hlate⟩
              refine ⟨fun _ => List.forall_mem_cons.mpr ⟨hnot, hquiet rfl⟩, ?_⟩
              rintro (⟨-, e', he', hdue⟩ | h)
              · exact hquiet rfl e' he' hdue
              · exact hlate h
            · rintro ⟨-, hlate⟩
              exact ⟨fun _ e' he' hdue => hlate (Or.inl ⟨hop, e', he', hdue⟩), fun h => hlate (Or.inr h)⟩
          · refine hskip (after_other (fun id' hid' hslot => hidx ?_) fun rs hrs => ?_) (fun _ hdue => ?_)
              (fun h => ?_) (reports_cons_silent (by rw [hop]; rfl))
            · rw [hop] at hid'
              rw [Option.some.inj hid']
              exact hother id' (by rw [hop]; exact hid') hslot
            · rw [hop] at hrs
              cases hrs
            · obtain ⟨⟨rs, hrs⟩, -⟩ := hdue
              rw [hop] at hrs
              cases hrs
            · rw [hop] at h
              exact hidx (StatOp.ack.inj h)
      | flush rs =>
          by_cases hdue : s.Due e.now
          · -- the message is reported again
            obtain ⟨hpos, hlate⟩ := (StatEvent.due_iff start e hop hstart).mp hdue
            have hs : s.msgId = x := hid.resolve_left (Nat.ne_of_gt hpos)
            refine iff_of_false (fun hnone => ?_) fun h => h.1 hs e List.mem_cons_self hlate
            rw [reports_cons_flush hop (hhead rs hop), MsgStat.report, if_pos hdue, List.filter_singleton] at hnone
            have hrec : (s.record e.now).msgId = x := hs
            rw [decide_eq_true hrec] at hnone
            cases hnone
          · refine hskip (after_other (fun id' hid' => ?_) fun _ _ => hdue) (fun hs hlate => ?_)
              (fun h => by rw [hop] at h; cases h) ?_
            · rw [hop] at hid'
              cases hid'
            · exact hdue ((StatEvent.due_iff start e hop hstart).mpr ⟨hs ▸ hx, hlate⟩)
            · rw [reports_cons_flush hop (hhead rs hop), MsgStat.report, if_neg hdue]
              rfl

/-! ## Reported once -/

/-- The first flush more than two minutes after the publish writes one record of the message, with its subscribers and
    its acknowledgements so far, and there is no other record of it. -/
structure ReportedOnce (x online offline start : Nat) (pre post : List StatEvent) : Prop where
  early : ∀ before after, post = before ++ after → (∀ e ∈ before, ¬ e.Due start) → reports x (pre ++ before) = []
  first : ∀ before e after, post = before ++ e :: after → e.Due start → (∀ e ∈ before, ¬ e.Due start) →
    ∃ r, reports x [e] = [r] ∧ r.pubOnlineNum = online ∧ r.pubOfflineNum = offline ∧
      r.ackClient = acks x (pre ++ before) ∧ reports x after = []

/-- By the first flush that is due somebody has acknowledged the message, and behind it nobody does before another flush
    more than two minutes later. -/
def AckedInTime (x start : Nat) (post : List StatEvent) : Prop :=
  ∀ before e after, post = before ++ e :: after → e.Due start → (∀ e ∈ before, ¬ e.Due start) →
    acks x before ≠ 0 ∧ ¬ Late e.now x after

/-- **A message is reported once, and correctly, exactly when** it is acknowledged in time. -/
theorem reportedOnce_iff {base start online offline : Nat} {pre post : List StatEvent}
    (h : StatRun env b₀ (pre ++ ⟨start, .publish x online offline⟩ :: post) b) (hclear : ∀ i, (b₀.stat i).msgId = 0)
    (hwin : Window base (pre ++ ⟨start, .publish x online offline⟩ :: post)) :
    ReportedOnce x online offline start pre post ↔ AckedInTime x start post := by
  have hin := hwin _ (List.mem_append_right pre List.mem_cons_self) x rfl
  have hx : 0 < x := Nat.zero_lt_of_lt hin.1
  have hsame : ∀ e ∈ pre ++ ⟨start, .publish x online offline⟩ :: post, ∀ id, e.op.msgId = some id →
      id % 65536 = x % 65536 → id = x := fun e he id hid => Window.same (hwin e he id hid) hin
  obtain ⟨-, hpost, hpre⟩ := List.pairwise_append.mp h.issued
  obtain ⟨hlogpre, -, hlogpost⟩ := (logged_append _ _).mp (h.logged (fun i => Or.inl (hclear i)) (Nat.mod_lt x (by decide)))
  -- nothing is known of the message before it is published, and it is published once
  have hunused : ∀ e ∈ pre, ∀ id, e.op.msgId = some id → id % 65536 ≠ x % 65536 := by
    intro e he id hid hslot
    have hid' := hsame e (List.mem_append_left _ he) id hid hslot
    exact hpre e he _ List.mem_cons_self x (hid' ▸ hid) rfl
  have hapart : Apart x post := fun e he =>
    ⟨(List.pairwise_cons.mp hpost).1 e he x rfl, hsame e (List.mem_append_right _ (List.mem_cons_of_mem _ he))⟩
  obtain ⟨hnone, hstay⟩ := quiet_before pre _ (hclear _) hlogpre hunused
  have hacks : acks x pre = 0 := by
    unfold acks
    rw [List.length_eq_zero_iff, List.filter_eq_nil_iff]
    intro e he hid
    exact hunused e he x (of_decide_eq_true hid) rfl
  rw [hstay] at hlogpost
  have hfill : MsgStat.after (x % 65536) (b₀.stat (x % 65536)) ⟨start, .publish x online offline⟩ =
      { pubStart := start, pubEnd := start, pubOnlineNum := online, pubOfflineNum := offline } := if_pos rfl
  rw [hfill] at hlogpost
  have hbefore : ∀ before after, post = before ++ after → (∀ e ∈ before, ¬ e.Due start) →
      reports x (pre ++ before) = [] ∧ Logged (x % 65536) { msgId := if acks x before = 0 then 0 else x, pubStart := start
                                                            pubEnd := start, pubOnlineNum := online
                                                            pubOfflineNum := offline, ackClient := acks x before } after := by
    rintro before after rfl hnotdue
    obtain ⟨hlog, hlogafter⟩ := (logged_append _ _).mp hlogpost
    obtain ⟨hno, hfold⟩ := counts_acks before _ hlog (fun e he => hapart e (List.mem_append_left _ he)) hnotdue
    rw [hfold] at hlogafter
    simp only [Nat.zero_add] at hlogafter
    refine ⟨?_, hlogafter⟩
    unfold reports at hno hnone ⊢
    rw [List.flatMap_append, hno, hnone, List.append_nil]
  have hflush : ∀ before e after, post = before ++ e :: after → e.Due start → (∀ e ∈ before, ¬ e.Due start) →
      (acks x before = 0 → reports x [e] = []) ∧ (acks x before ≠ 0 →
        reports x [e] = [⟨x, start, start, e.now, online, offline, acks x before⟩] ∧
        (reports x after = [] ↔ ¬ Late e.now x after)) := by
    intro before e after hsplit hdue hnotdue
    obtain ⟨-, hhead, htail⟩ := hbefore before _ hsplit hnotdue
    obtain ⟨⟨rs, hrs⟩, hlate⟩ := hdue
    rw [reports_cons_flush hrs (hhead rs hrs)]
    refine ⟨fun hzero => ?_, fun hne => ?_⟩
    · rw [if_pos hzero, MsgStat.report, if_neg fun hx => Nat.lt_irrefl 0 hx.1]
      rfl
    · rw [if_neg hne] at htail ⊢
      have hdue : MsgStat.Due { msgId := x, pubStart := start, pubEnd := start, pubOnlineNum := online
                                pubOfflineNum := offline, ackClient := acks x before } e.now :=
        (StatEvent.due_iff start e hrs rfl).mpr ⟨hx, ⟨rs, hrs⟩, hlate⟩
      have hafter : ∀ s : MsgStat, s.Due e.now → s.after (x % 65536) e = { pubStart := e.now } := by
        intro s hs
        unfold MsgStat.after
        rw [hrs]
        exact if_pos hs
      rw [hafter _ hdue] at htail
      refine ⟨?_, ?_⟩
      · rw [MsgStat.report, if_pos hdue, List.filter_singleton]
        show (bif decide (x = x) then _ else _) ++ _ = _
        rw [decide_eq_true rfl]
        rfl
      · rw [reports_late hx after { pubStart := e.now } rfl (Or.inl rfl) htail
          fun e' he' => hapart e' (hsplit ▸ List.mem_append_right _ (List.mem_cons_of_mem _ he'))]
        exact ⟨fun h => h.2, fun h => ⟨fun h0 => absurd h0 (Nat.ne_of_lt hx), h⟩⟩
  constructor
  · intro hrep before e after hsplit hdue hnotdue
    obtain ⟨r, hr, -, -, -, hquiet⟩ := hrep.first before e after hsplit hdue hnotdue
    obtain ⟨hzero, hone⟩ := hflush before e after hsplit hdue hnotdue
    have hne : acks x before ≠ 0 := by
      intro hz
      rw [hzero hz] at hr
      cases hr
    exact ⟨hne, (hone hne).2.mp hquiet⟩
  · intro hacked
    refine ⟨fun before after hsplit hnotdue => (hbefore before after hsplit hnotdue).1,
      fun before e after hsplit hdue hnotdue => ?_⟩
    obtain ⟨hne, hlate⟩ := hacked before e after hsplit hdue hnotdue
    obtain ⟨hone, hquiet⟩ := (hflush before e after hsplit hdue hnotdue).2 hne
    have hcount : acks x (pre ++ before) = acks x before := by
      unfold acks at hacks ⊢
      rw [List.filter_append, List.length_append, hacks, Nat.zero_add]
    exact ⟨_, hone, rfl, rfl, hcount.symm, hquiet.mpr hlate⟩

/-- A client on connection 0 that is subscribed to a topic, and a message with the id 1. -/
def Broker.subscriber : Broker :=
  { sess := (Sess.empty.accept.newContext 0 false).subscribe [116] (.conn 0)
    bufs := fun _ => (Buf.make 8 0 (publishPacket 116 65)).tag 1 .data false
    nextBuf := 1
    now := 10 }

/-- The message. -/
def Publish.sample : Publish :=
  { header := { msgType := .publish, qos := 1 }, topicName := [116], msgId := 1, payload := [65] }

theorem subscriber_allLinked : Broker.subscriber.AllLinked := by
  rintro c ⟨t, hc⟩ k hk
  have hmem : c ∈ (TopicMgr.addClientContext ∅ [116] (.conn 0)).clients t := hc
  rw [TopicMgr.mem_clients_add] at hmem
  rcases hmem with hmem | ⟨-, rfl⟩
  · exact absurd hmem (USet.not_mem_empty c)
  · have hzero : k = 0 := (Option.some.inj hk).symm
    rw [hzero]
    rfl

/-- The publish to the subscriber. -/
theorem subscriber_publish (h : publishTopic Env.calm [116] 0 Publish.sample .subscriber = .ok ((), b)) :
    StatRun Env.calm {} [⟨10, .publish 1 1 0⟩] b := by
  have hstart : StatRun Env.calm {} [] .subscriber := StatRun.start.other rfl
  exact hstart.publish subscriber_allLinked (by decide) (fun e he => absurd he List.not_mem_nil) h

theorem ackedInTime_pair (x start now now' : Nat) (rs : List StatRecord) :
    AckedInTime x start [⟨now, .ack x⟩, ⟨now', .flush rs⟩] := by
  intro before e after hsplit hdue _
  cases before with
  | nil =>
      obtain ⟨hhead, -⟩ := List.cons.inj hsplit
      obtain ⟨⟨rs', hrs⟩, -⟩ := hdue
      rw [← hhead] at hrs
      cases hrs
  | cons e₁ before =>
      obtain ⟨hhead, htail⟩ := List.cons.inj hsplit
      have hone : acks x (e₁ :: before) ≠ 0 := by
        have hx : (⟨now, .ack x⟩ : StatEvent).op.msgId = some x := rfl
        rw [← hhead, acks_cons, if_pos hx]
        exact Nat.succ_ne_zero _
      refine ⟨hone, fun hlate => ?_⟩
      -- behind the flush there is nothing
      cases before with
      | nil =>
          obtain ⟨-, hnil⟩ := List.cons.inj htail
          rw [← hnil] at hlate
          exact hlate
      | cons e₂ before =>
          obtain ⟨-, hnil⟩ := List.cons.inj htail
          exact List.append_ne_nil_of_right_ne_nil before (List.cons_ne_nil e after) hnil.symm

/-- The subscriber acknowledges the message, and two minutes later it is reported. -/
theorem reportedOnce_acked : ∃ b rs,
    StatRun Env.calm {} ([] ++ ⟨10, .publish 1 1 0⟩ :: [⟨10, .ack 1⟩, ⟨131, .flush rs⟩]) b ∧
      ReportedOnce 1 1 0 10 [] [⟨10, .ack 1⟩, ⟨131, .flush rs⟩] := by
  have hrun : (publishTopic Env.calm [116] 0 Publish.sample .subscriber).toOption.any (fun p =>
      (handlePubackMsg Env.calm 0 (pubackPacket 1) p.2).toOption.any fun q =>
        decide (p.2.removed 0 (pubackPacket 1) = some 1 ∧ p.2.now = 10)) = true := by
    decide +kernel
  obtain ⟨⟨_, b₁⟩, hpub, hrun⟩ := (Option.any_eq_true _ _).mp hrun
  obtain ⟨⟨r, b₂⟩, hack, hrun⟩ := (Option.any_eq_true _ _).mp hrun
  obtain ⟨hremoved, hnow⟩ := of_decide_eq_true hrun
  have hack₁ := (subscriber_publish (ok_of_toOption hpub)).ack (ok_of_toOption hack)
  simp only at hremoved hnow
  rw [hremoved, hnow] at hack₁
  have hwait : StatRun Env.calm {} _ { b₂ with now := 131 } := hack₁.other rfl
  have hfull := hwait.flush
  refine ⟨_, _, hfull, (@reportedOnce_iff _ _ _ _ 0 _ _ _ _ _ hfull (fun _ => rfl) ?_).mpr ?_⟩
  · intro e he id hid
    have hone : id = 1 := by
      rcases List.mem_cons.mp he with rfl | he
      · exact (Option.some.inj hid).symm
      · rcases List.mem_cons.mp he with rfl | he
        · exact (Option.some.inj hid).symm
        · rw [List.mem_singleton.mp he] at hid
          cases hid
    rw [hone]
    decide
  · exact ackedInTime_pair 1 10 10 131 _

/-- **A message that is not acknowledged** is not reported. -/
theorem not_reportedOnce_unacked : ∃ b rs, StatRun Env.calm {} ([] ++ ⟨10, .publish 1 1 0⟩ :: [⟨131, .flush rs⟩]) b ∧
    ¬ ReportedOnce 1 1 0 10 [] [⟨131, .flush rs⟩] := by
  have hrun : (publishTopic Env.calm [116] 0 Publish.sample .subscriber).toOption.any (fun _ => true) = true := by
    decide +kernel
  obtain ⟨⟨_, b₁⟩, hpub, -⟩ := (Option.any_eq_true _ _).mp hrun
  have hrun₁ : StatRun Env.calm {} _ { b₁ with now := 131 } := (subscriber_publish (ok_of_toOption hpub)).other rfl
  have hslot : Logged (1 % 65536) _ _ := hrun₁.flush.logged (fun _ => Or.inl rfl) (by decide)
  refine ⟨_, _, hrun₁.flush, fun hrep => ?_⟩
  obtain ⟨r, hr, -⟩ := hrep.first [] _ [] rfl ⟨⟨_, rfl⟩, (by decide : 10 + 120 < 131)⟩ fun e he => absurd he List.not_mem_nil
  obtain ⟨-, hhead, -⟩ := hslot
  rw [reports_cons_flush rfl (hhead _ rfl), MsgStat.report, if_neg fun hdue => absurd hdue.1 (by decide)] at hr
  cases hr

end MqttServer
