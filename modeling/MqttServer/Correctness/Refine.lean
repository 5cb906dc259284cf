import MqttServer.Correctness.Trace

/-!
# `Correctness.Refine` — the handlers are runs of the session machine

One lemma for each operation of the broker: it respects `evolution`. For the operations that close
connections there is also a lemma that says where a returning run leaves the tables.
-/

namespace MqttServer

open Lib Exec

variable {env : Env} {o : Option ConnId} {H : CtxId → Prop} {b b' : Broker} {k : ConnId}

/-! ## Access and closing -/

theorem touch_ok {u : Unit} : touch k b = .ok (u, b') ↔ b' = b ∧ b.sess.Alive k := by
  have h : touch k b = if b.sess.Alive k then .ok ((), b) else .error (.useAfterFree k, b) := by
    show (if b.sess.Alive k then pure () else fault (.useAfterFree k) : BrokerM Unit) b = _
    split <;> rfl
  rw [h]
  by_cases ha : b.sess.Alive k
  · rw [if_pos ha]
    constructor
    · intro he
      cases he
      exact ⟨rfl, ha⟩
    · rintro ⟨rfl, -⟩
      rfl
  · rw [if_neg ha]
    constructor
    · intro he
      cases he
    · exact fun he => absurd he.2 ha

theorem touch_bind_ok {α : Type} {f : Unit → BrokerM α} {r : α × Broker} :
    (touch k >>= f) b = .ok r ↔ b.sess.Alive k ∧ f () b = .ok r := by
  rw [bind_ok]
  constructor
  · rintro ⟨u, b₁, ht, hf⟩
    obtain ⟨rfl, ha⟩ := touch_ok.mp ht
    exact ⟨ha, hf⟩
  · rintro ⟨ha, hf⟩
    exact ⟨(), b, touch_ok.mpr ⟨rfl, ha⟩, hf⟩

theorem touch_resp (hk : k ∈ o ∨ Linked H b.sess k) : (evolution env o H).Resp (touch k) b := by
  unfold touch
  refine Frame.resp_get_bind ?_
  split
  · exact Frame.resp_pure _
  · rename_i ha
    refine Frame.resp_fault ⟨⟨[], by simp, .nil, .nil⟩, fun _ h => h, rfl, ?_⟩
    intro k' he
    cases he
    exact ⟨ha, hk⟩

/-- What `handle_close` leaves when it returns. -/
theorem handleClose_ok {cause : Cause} {u : Unit} (h : handleClose k cause b = .ok (u, b')) :
    ∃ c, b.sess.contextOf k = some c ∧ b'.sess = b.sess.close k c ∧
      b'.log = b.log ++ [.close k c cause (b.sess.ctxs c).cleanSession (b.isBusy k)] ∧
      b'.busy = b.busy := by
  unfold handleClose at h
  rw [touch_bind_ok, modify_bind, get_bind] at h
  cases hc : b.sess.contextOf k with
  | none =>
      simp only [hc] at h
      cases h.2
  | some c =>
      simp only [hc] at h
      cases h.2
      exact ⟨c, rfl, rfl, rfl, rfl⟩

theorem handleClose_resp {cause : Cause} (hcause : cause ≠ .event) (hk : k ∈ o ∨ Linked H b.sess k) :
    (evolution env o H).Resp (handleClose k cause) b := by
  unfold handleClose
  refine Frame.resp_bind (touch_resp hk) ?_
  intro _ b₁ ht
  obtain ⟨rfl, ha⟩ := touch_ok.mp ht
  refine Frame.resp_modify_bind (Evolves.of_same rfl rfl rfl) ?_
  refine Frame.resp_get_bind ?_
  cases hc : b₁.sess.contextOf k with
  | none =>
      exact Frame.resp_fault ⟨⟨[], by simp, .nil, .nil⟩, fun _ h => h, rfl, fun _ h => by cases h⟩
  | some c =>
      refine Frame.resp_set_bind ?_ (Frame.resp_modify (Evolves.of_same rfl rfl rfl))
      refine Evolves.of_atom (.close hc) rfl (.single ⟨hcause, rfl⟩) ?_ rfl
      intro k' hk'
      exact (Sess.alive_close.mp hk').2

/-! ## Contexts and buffers -/

/-- `client_context()` returns the context the connection then has. -/
theorem clientContext_ok {c : CtxId} (h : clientContext env k b = .ok (c, b')) :
    b'.sess.contextOf k = some c ∧
      ((b' = b) ∨
       (b.sess.contextOf k = none ∧ b.sess.Alive k ∧
         b' = b.act (b.sess.newContext k (env.cleanGarbage k)) (.context k))) := by
  unfold clientContext at h
  rw [touch_bind_ok, get_bind] at h
  obtain ⟨ha, h⟩ := h
  cases hc : b.sess.contextOf k with
  | some c' =>
      simp only [hc] at h
      cases h
      exact ⟨hc, Or.inl rfl⟩
  | none =>
      simp only [hc] at h
      cases h
      refine ⟨?_, Or.inr ⟨rfl, ha, rfl⟩⟩
      show (b.sess.newContext k _).contextOf k = _
      simp [Sess.newContext, Sess.contextOf, Sess.setContext]

theorem alive_newContext {s : Sess} {clean : Bool} {k' : ConnId} (ha : s.Alive k)
    (h : (s.newContext k clean).Alive k') : s.Alive k' := by
  have h' : (s.setContext k (.conn k)).Alive k' := h
  rcases Sess.alive_setContext.mp h' with rfl | h'
  · exact ha
  · exact h'

theorem clientContext_resp (hk : k ∈ o ∨ Linked H b.sess k) :
    (evolution env o H).Resp (clientContext env k) b := by
  unfold clientContext
  refine Frame.resp_bind (touch_resp hk) ?_
  intro _ b₁ ht
  obtain ⟨rfl, ha⟩ := touch_ok.mp ht
  refine Frame.resp_get_bind ?_
  cases hc : b₁.sess.contextOf k with
  | some c => exact Frame.resp_pure _
  | none =>
      refine Frame.resp_set_bind ?_ (Frame.resp_pure _)
      exact Evolves.of_atom (.context ha hc) rfl (.single trivial) (fun k' hk' => alive_newContext ha hk') rfl

theorem newBuf_ok {buf : Buf} {m : MbufId} (h : newBuf buf b = .ok (m, b')) :
    m = b.nextBuf ∧
      b' = { b with bufs := Function.update b.bufs b.nextBuf buf, nextBuf := b.nextBuf + 1 } := by
  cases h
  exact ⟨rfl, rfl⟩

theorem newBuf_resp {buf : Buf} : (evolution env o H).Resp (newBuf buf) b :=
  Evolves.of_same rfl rfl rfl

/-! ## Output -/

theorem closeOnError_resp {closing : Bool} (hk : k ∈ o ∨ Linked H b.sess k) :
    (evolution env o H).Resp (closeOnError k closing) b := by
  unfold closeOnError
  cases closing with
  | true => exact handleClose_resp (by decide) hk
  | false => exact Frame.resp_pure _

/-- What `put` leaves when it returns: the tables are as before, or the connection was lost. -/
theorem put_ok {m : MbufId} {r : Int} (h : put env k m b = .ok (r, b')) :
    b.sess.Alive k ∧ b'.busy = b.busy ∧
      ((b'.sess = b.sess ∧ b'.log = b.log ++ [.put k m r]) ∨
       ∃ c, b.sess.contextOf k = some c ∧ b'.sess = b.sess.close k c ∧
         b'.log = b.log ++
           [.put k m r, .close k c .lost (b.sess.ctxs c).cleanSession (b.isBusy k)]) := by
  unfold put at h
  rw [touch_bind_ok, get_bind, set_bind, bind_ok] at h
  obtain ⟨ha, _, b₁, hc, h⟩ := h
  cases h
  unfold closeOnError at hc
  split at hc
  · obtain ⟨c, hctx, hsess, hlog, hbusy⟩ := handleClose_ok hc
    refine ⟨ha, hbusy, Or.inr ⟨c, hctx, hsess, ?_⟩⟩
    rw [hlog, List.append_assoc]
    rfl
  · cases hc
    exact ⟨ha, rfl, Or.inl ⟨rfl, rfl⟩⟩

/-- A `put` on the connection of a context. -/
theorem put_send {c : CtxId} {m : MbufId} {r : Int} (hc : (b.sess.ctxs c).mqttConnection = some k)
    (h : put env k m b = .ok (r, b')) : ∃ ls, b'.log = b.log ++ ls ∧ Send c m b.sess ls b'.sess := by
  obtain ⟨ha, -, ⟨hs, hlog⟩ | ⟨c', hctx, hs, hlog⟩⟩ := put_ok h
  · refine ⟨_, hlog, ?_⟩
    rw [hs]
    exact .sent hc ha
  · refine ⟨_, hlog, ?_⟩
    rw [hs]
    exact .lost hc hctx

theorem put_resp {m : MbufId} (hk : k ∈ o ∨ Linked H b.sess k) :
    (evolution env o H).Resp (put env k m) b := by
  unfold put
  refine Frame.resp_bind (touch_resp hk) ?_
  intro _ b₁ ht
  obtain ⟨rfl, ha⟩ := touch_ok.mp ht
  refine Frame.resp_get_bind ?_
  refine Frame.resp_set_bind (Evolves.of_atom (.put ha) rfl (.single trivial) (fun _ h => h) rfl) ?_
  exact Frame.resp_bind (closeOnError_resp hk) fun _ _ _ => Frame.resp_pure _

theorem reply_resp {size : Nat} {bytes : Option ByteStr} (hk : k ∈ o) :
    (evolution env o H).Resp (reply env k size bytes) b := by
  unfold reply
  refine Frame.resp_get_bind ?_
  cases bytes with
  | none => exact Frame.resp_bind newBuf_resp fun _ _ _ => Frame.resp_pure _
  | some bytes => exact Frame.resp_bind newBuf_resp fun _ _ _ => put_resp (Or.inl hk)

theorem handleOutput_resp (hk : k ∈ o) : (evolution env o H).Resp (handleOutput env k) b := by
  unfold handleOutput
  refine Frame.resp_bind (touch_resp (Or.inl hk)) ?_
  intro _ b₁ ht
  obtain ⟨rfl, ha⟩ := touch_ok.mp ht
  refine Frame.resp_get_bind ?_
  refine Frame.resp_set_bind (Evolves.of_same rfl rfl rfl) ?_
  refine Frame.resp_bind (closeOnError_resp (Or.inl hk)) fun _ _ _ => ?_
  exact Frame.resp_bind (touch_resp (Or.inl hk)) fun _ _ _ => Frame.resp_pure _

/-! ## PUBLISH -/

/-- What `publish` to one client leaves when it returns. -/
theorem publishClient_ok {c : CtxId} {m : MbufId} {u : Unit} (h : publishClient env c m b = .ok (u, b')) :
    ∃ ls, b'.log = b.log ++ ls ∧ Send c m (b.sess.modifyContext c (·.addSendMsg m)) ls b'.sess := by
  unfold publishClient at h
  rw [get_bind, set_bind] at h
  have hconn : ((b.sess.modifyContext c (·.addSendMsg m)).ctxs c).mqttConnection =
      (b.sess.ctxs c).mqttConnection := by
    rw [Sess.modifyContext_ctxs, if_pos rfl]
    rfl
  cases hc : (b.sess.ctxs c).mqttConnection with
  | none =>
      simp only [hc] at h
      cases h
      exact ⟨[], by simp [Broker.modifyStat], .offline (hconn.trans hc)⟩
  | some k =>
      simp only [hc] at h
      rw [bind_ok] at h
      obtain ⟨r, b₁, hp, h⟩ := h
      cases h
      exact put_send (hconn.trans hc) hp

theorem publishClient_resp {c : CtxId} {m : MbufId} {t : ByteStr} (hc : c ∈ b.sess.topicMgr.clients t) :
    (changing env o H).Resp (publishClient env c m) b := by
  unfold publishClient
  refine Frame.resp_get_bind ?_
  refine Frame.resp_set_bind ?_ ?_
  · exact Changes.of_micro (.deliver hc) (by simp) .nil (fun _ h => h) rfl
  · cases hk : (b.sess.ctxs c).mqttConnection with
    | none => exact Frame.resp_modify (Changes.of_same rfl rfl rfl)
    | some k =>
        refine Frame.resp_bind (resp_changing (put_resp (Or.inr ⟨c, Or.inl (Or.inr ⟨t, hc⟩), ?_⟩))) ?_
        · show ((b.sess.modifyContext c (·.addSendMsg m)).ctxs c).mqttConnection = some k
          rw [Sess.modifyContext_ctxs, if_pos rfl]
          exact hk
        · intro r b₁ _
          exact Frame.resp_modify (Changes.of_same rfl rfl rfl)

theorem publishLoop_resp {m : MbufId} {t : ByteStr} (cs : List CtxId) :
    ∀ b : Broker, (changing env o H).Resp (publishLoop env t m cs) b := by
  induction cs with
  | nil => exact fun _ => Frame.resp_pure _
  | cons c cs ih =>
      intro b
      unfold publishLoop
      refine Frame.resp_get_bind ?_
      split
      · rename_i hc
        refine Frame.resp_bind (publishClient_resp hc) ?_
        intro _ b₁ _
        refine Frame.resp_get_bind ?_
        split
        · exact ih b₁
        · exact Frame.resp_fault ⟨⟨[], by simp, .nil, .nil⟩, fun _ h => h, rfl, fun _ h => by cases h⟩
      · exact ih b

/-- A fan-out that returns went through the whole list. -/
theorem publishLoop_ok {m : MbufId} {t : ByteStr} {u : Unit} (cs : List CtxId) :
    ∀ b : Broker, publishLoop env t m cs b = .ok (u, b') →
      ∃ ls, b'.log = b.log ++ ls ∧ FanOut t m cs b.sess ls b'.sess := by
  induction cs with
  | nil =>
      intro b h
      cases h
      exact ⟨[], by simp, .nil⟩
  | cons c cs ih =>
      intro b h
      unfold publishLoop at h
      rw [get_bind] at h
      by_cases hc : c ∈ b.sess.topicMgr.clients t
      · rw [if_pos hc, bind_ok] at h
        obtain ⟨_, b₁, hp, h⟩ := h
        rw [get_bind] at h
        obtain ⟨ls, hlog, hsend⟩ := publishClient_ok hp
        by_cases hc' : c ∈ b₁.sess.topicMgr.clients t
        · rw [if_pos hc'] at h
          obtain ⟨ls', hlog', hfan⟩ := ih b₁ h
          refine ⟨ls ++ ls', ?_, .visit hc hsend hc' hfan⟩
          rw [hlog', hlog, List.append_assoc]
        · rw [if_neg hc'] at h
          cases h
      · rw [if_neg hc] at h
        obtain ⟨ls, hlog, hfan⟩ := ih b h
        exact ⟨ls, hlog, .skip hc hfan⟩

theorem publishSet_resp {m : MbufId} {t : ByteStr} : (changing env o H).Resp (publishSet env t m) b := by
  unfold publishSet
  exact Frame.resp_get_bind (publishLoop_resp _ b)

/-- The retain part of `publish` changes no subscriber set. -/
theorem updateRetain_ok {t : ByteStr} {m : MbufId} {msg : Publish} {u : Unit}
    (h : updateRetain t m msg b = .ok (u, b')) :
    b'.log = b.log ∧ b'.busy = b.busy ∧
      ∃ mgr : TopicMgr, (∀ t', mgr.clients t' = b.sess.topicMgr.clients t') ∧
        b'.sess = { b.sess with topicMgr := mgr } := by
  unfold updateRetain at h
  rw [get_bind] at h
  split at h
  · rw [bind_ok] at h
    obtain ⟨r, b₁, hn, h⟩ := h
    obtain ⟨-, rfl⟩ := newBuf_ok hn
    cases h
    exact ⟨rfl, rfl, _, fun t' => TopicMgr.clients_setRetainMsg _ _ _ _, rfl⟩
  · cases h
    exact ⟨rfl, rfl, b.sess.topicMgr, fun _ => rfl, rfl⟩

theorem updateRetain_resp {t : ByteStr} {m : MbufId} {msg : Publish} :
    (changing env o H).Resp (updateRetain t m msg) b := by
  unfold updateRetain
  refine Frame.resp_get_bind ?_
  split
  · refine Frame.resp_bind (resp_changing newBuf_resp) ?_
    intro r b₁ _
    refine Frame.resp_modify (Changes.of_micro (.atom (.topics ?_)) (by simp) .nil (fun _ h => h) rfl)
    exact fun t' => TopicMgr.clients_setRetainMsg _ _ _ _
  · exact Frame.resp_pure _

/-- `publish(topic, …)` is one operation of the session machine. -/
theorem publishTopic_ok {t : ByteStr} {m : MbufId} {msg : Publish} {u : Unit}
    (h : publishTopic env t m msg b = .ok (u, b')) :
    ∃ ls, b'.log = b.log ++ ls ∧ Step b.sess ls b'.sess := by
  unfold publishTopic at h
  rw [get_bind, set_bind, bind_ok] at h
  obtain ⟨_, b₁, hr, h⟩ := h
  obtain ⟨hlog, -, mgr, hmgr, hsess⟩ := updateRetain_ok hr
  have hmgr' : ∀ t', mgr.clients t' = b.sess.topicMgr.clients t' := by
    intro t'
    rw [hmgr t']
    exact TopicMgr.clients_ensure _ _ _
  have hlog₁ : b₁.log = b.log ++ [.publish t m (b.bufs m).msgId] := hlog
  have hsess₁ : b₁.sess = { b.sess with topicMgr := mgr } := hsess
  by_cases hno : (b.sess.topicMgr.lookup t).isNone
  · rw [if_pos hno] at h
    cases h
    refine ⟨_, hlog₁, ?_⟩
    have hempty : (b.sess.topicMgr.clients t).toList = [] := by
      simp only [TopicMgr.clients, Option.isNone_iff_eq_none.mp hno]
      rfl
    rw [hsess₁]
    exact .publish hmgr' (by rw [hempty]) .nil
  · rw [if_neg hno, modify_bind, bind_ok] at h
    obtain ⟨_, b₂, hp, h⟩ := h
    cases h
    unfold publishSet at hp
    rw [get_bind] at hp
    obtain ⟨ls, hlog₂, hfan⟩ := publishLoop_ok _ _ hp
    refine ⟨.publish t m (b.bufs m).msgId :: ls, ?_, ?_⟩
    · show b₂.log = _
      rw [hlog₂]
      show b₁.log ++ ls = _
      rw [hlog₁, List.append_assoc]
      rfl
    · refine .publish hmgr' ?_ (hsess₁ ▸ hfan)
      show (env.order (mgr.clients t).toList).Perm _
      rw [hmgr' t]
      exact env.order_perm _

theorem publishTopic_resp {t : ByteStr} {m : MbufId} {msg : Publish} :
    (evolution env o H).Resp (publishTopic env t m msg) b := by
  refine resp_evolution ?_ ?_
  · unfold publishTopic
    refine Frame.resp_get_bind ?_
    refine Frame.resp_set_bind ?_ ?_
    · have hlabel : Changes env b { b with log := b.log ++ [.publish t m (b.bufs m).msgId] } :=
        Changes.of_micro .publish rfl (.single trivial) (fun _ h => h) rfl
      refine hlabel.trans (Changes.of_micro (.atom (.topics ?_)) (by simp [Broker.act]) .nil (fun _ h => h) rfl)
      exact fun t' => TopicMgr.clients_ensure _ _ _
    · refine Frame.resp_bind updateRetain_resp ?_
      intro _ b₁ _
      split
      · exact Frame.resp_pure _
      · refine Frame.resp_modify_bind (Changes.of_same rfl rfl rfl) ?_
        refine Frame.resp_bind publishSet_resp ?_
        intro _ b₂ _
        exact Frame.resp_modify (Changes.of_same rfl rfl rfl)
  · intro _ b' h _
    obtain ⟨ls, hlog, hstep⟩ := publishTopic_ok h
    exact ⟨ls, hlog, .single hstep⟩

theorem publishTopics_resp {m : MbufId} (ts : List ByteStr) :
    ∀ b : Broker, (changing env o H).Resp (publishTopics env m ts) b := by
  induction ts with
  | nil => exact fun _ => Frame.resp_pure _
  | cons t ts ih =>
      intro b
      unfold publishTopics
      exact Frame.resp_bind publishSet_resp fun _ b₁ _ => ih b₁

theorem publishTopics_ok {m : MbufId} {u : Unit} (ts : List ByteStr) :
    ∀ b : Broker, publishTopics env m ts b = .ok (u, b') →
      ∃ ls, b'.log = b.log ++ ls ∧ FanOuts m ts b.sess ls b'.sess := by
  induction ts with
  | nil =>
      intro b h
      cases h
      exact ⟨[], by simp, .nil⟩
  | cons t ts ih =>
      intro b h
      unfold publishTopics at h
      rw [bind_ok] at h
      obtain ⟨_, b₁, hp, h⟩ := h
      unfold publishSet at hp
      rw [get_bind] at hp
      obtain ⟨ls, hlog, hfan⟩ := publishLoop_ok _ _ hp
      obtain ⟨ls', hlog', hfans⟩ := ih b₁ h
      refine ⟨ls ++ ls', ?_, .cons (env.order_perm _) hfan hfans⟩
      rw [hlog', hlog, List.append_assoc]

theorem publishAll_resp {m : MbufId} (hbridge : env.mqttBridge = true) : (evolution env o H).Resp (publishAll env m) b := by
  refine resp_evolution ?_ ?_
  · unfold publishAll
    refine Frame.resp_get_bind ?_
    refine Frame.resp_set_bind (Changes.of_micro .publishAll rfl (.single hbridge) (fun _ h => h) rfl) ?_
    refine Frame.resp_modify_bind (Changes.of_same rfl rfl rfl) ?_
    refine Frame.resp_bind (publishTopics_resp _ _) ?_
    intro _ b₁ _
    exact Frame.resp_modify (Changes.of_same rfl rfl rfl)
  · intro _ b' h _
    unfold publishAll at h
    rw [get_bind, set_bind, modify_bind, bind_ok] at h
    obtain ⟨_, b₁, hp, h⟩ := h
    cases h
    obtain ⟨ls, hlog, hfans⟩ := publishTopics_ok _ _ hp
    refine ⟨.publishAll m (b.bufs m).msgId :: ls, ?_, .single (.publishAll hfans)⟩
    show b₁.log = _
    rw [hlog]
    simp [Broker.startStat, Broker.modifyStat]

/-! ## CONNECT -/

/-- The registry part of CONNECT is one atom when it returns; it can stop after the old connection was
    closed. -/
theorem bindSession_resp {msg : Connect} (hid : msg.clientId ≠ []) (hk : k ∈ o) :
    (evolution env o H).Resp (bindSession env k msg) b := by
  unfold bindSession
  refine Frame.resp_get_bind ?_
  cases hf : b.sess.registry.findClientContext msg.clientId with
  | none =>
      refine Frame.resp_bind (clientContext_resp (Or.inl hk)) ?_
      intro c b₁ hc
      obtain ⟨hctx, hb⟩ := clientContext_ok hc
      have hreg : b₁.sess.registry.findClientContext msg.clientId = none := by
        rcases hb with rfl | ⟨-, -, rfl⟩
        · exact hf
        · exact hf
      exact Frame.resp_modify (Evolves.of_atom (.register hid hctx hreg) rfl (.single trivial) (fun _ h => h) rfl)
  | some c =>
      simp only
      cases hl : (b.sess.ctxs c).mqttConnection with
      | none =>
          refine Frame.resp_bind (Frame.resp_pure _) ?_
          intro _ b₁ h₁
          cases h₁
          refine Frame.resp_bind (touch_resp (Or.inl hk)) ?_
          intro _ b₁ ht
          obtain ⟨rfl, ha⟩ := touch_ok.mp ht
          refine Frame.resp_modify (Evolves.of_atom (.resume hid ha hf hl) rfl (.single trivial) ?_ rfl)
          intro k' hk'
          rcases Sess.alive_resume.mp hk' with rfl | hk'
          · exact ha
          · exact hk'
      | some last =>
          have hlinked : Linked H b.sess last := ⟨c, Or.inl (Or.inl ⟨_, hf⟩), hl⟩
          have hclose : (evolution env o H).Resp (closeLast (some last)) b :=
            handleClose_resp (by decide) (Or.inr hlinked)
          refine Frame.resp_of_cases ?_ ?_
          · intro _ b' h
            rw [bind_ok] at h
            obtain ⟨_, b₁, hc, h⟩ := h
            obtain ⟨c', hctx, hsess, hlog, hbusy⟩ := handleClose_ok hc
            rw [touch_bind_ok] at h
            obtain ⟨ha, h⟩ := h
            cases h
            -- the close of the last holder and the CONNECT are one action of the trace
            have hatom : Atom b.sess
                [.close last c' .takeover (b.sess.ctxs c').cleanSession (b.isBusy last),
                  .connect k msg (connAckCode msg) c] (b₁.sess.resume k c msg) := by
              rw [hsess] at ha ⊢
              exact .takeover hid hf hl hctx ha
            refine Evolves.of_atom hatom ?_ ?_ ?_ hbusy
            · show b₁.log ++ _ = _
              rw [hlog, List.append_assoc]
              rfl
            · refine Inners.append (.single (a := .close last c' .takeover _ _) ?_) (.single trivial)
              exact ⟨by decide, rfl⟩
            · intro k' hk'
              have hdie := (Frame.resp_ok hclose hc).dying
              rcases Sess.alive_resume.mp hk' with rfl | hk'
              · exact hdie _ ha
              · exact hdie _ hk'
          · intro e h
            rw [bind_error] at h
            rcases h with h | ⟨_, b₁, hc, h⟩
            · exact Frame.resp_error hclose h
            · rw [bind_error] at h
              rcases h with h | ⟨_, b₂, -, h⟩
              · exact (evolution env o H).extend (Frame.resp_ok hclose hc)
                  (Frame.resp_error (touch_resp (Or.inl hk)) h)
              · cases h

theorem openSession_resp {msg : Connect} (hk : k ∈ o) : (evolution env o H).Resp (openSession env k msg) b := by
  unfold openSession
  split
  · exact Frame.resp_pure _
  · rename_i hid
    refine Frame.resp_bind (bindSession_resp hid hk) ?_
    intro _ b₁ _
    unfold stampConnect
    refine Frame.resp_bind (clientContext_resp (Or.inl hk)) ?_
    intro c b₂ _
    exact Frame.resp_modify (Evolves.of_same rfl rfl rfl)

theorem sendOffline_resp (hk : k ∈ o) (ms : List MbufId) :
    ∀ (res : Int) (b : Broker), (evolution env o H).Resp (sendOffline env k res ms) b := by
  induction ms with
  | nil => exact fun _ _ => Frame.resp_pure _
  | cons m ms ih =>
      intro res b
      unfold sendOffline
      refine Frame.resp_bind (put_resp (Or.inl hk)) ?_
      intro r b₁ _
      split
      · exact Frame.resp_pure _
      · exact ih r b₁

theorem handleConnectMsg_resp {buf : ByteStr} (hk : k ∈ o) :
    (evolution env o H).Resp (handleConnectMsg env k buf) b := by
  unfold handleConnectMsg
  cases Connect.decode.decode buf with
  | none => exact Frame.resp_pure _
  | some msg =>
      refine Frame.resp_bind (openSession_resp hk) fun _ _ _ => ?_
      refine Frame.resp_bind (reply_resp hk) fun res _ _ => ?_
      refine Frame.resp_bind (clientContext_resp (Or.inl hk)) fun c b₃ _ => ?_
      exact Frame.resp_get_bind (sendOffline_resp hk _ _ _)

/-! ## PUBLISH and PUBACK from a client -/

theorem registBuf_resp {type : MsgType} {size : Nat} {bytes : Nat → ByteStr} :
    (evolution env o H).Resp (registBuf type size bytes) b := by
  unfold registBuf
  refine Frame.resp_get_bind ?_
  refine Frame.resp_bind newBuf_resp ?_
  intro m b₁ _
  exact Frame.resp_modify_bind (Evolves.of_same rfl rfl rfl) (Frame.resp_pure _)

theorem handlePublishMsg_resp {buf : ByteStr} (hk : k ∈ o) :
    (evolution env o H).Resp (handlePublishMsg env k buf) b := by
  unfold handlePublishMsg
  refine Frame.resp_bind (clientContext_resp (Or.inl hk)) ?_
  intro c b₁ _
  refine Frame.resp_get_bind ?_
  split
  · exact Frame.resp_pure _
  · cases Publish.decode.decode buf with
    | none => exact Frame.resp_pure _
    | some msg =>
        refine Frame.resp_bind (reply_resp hk) fun res _ _ => ?_
        refine Frame.resp_bind (touch_resp (Or.inl hk)) fun _ _ _ => ?_
        refine Frame.resp_bind registBuf_resp fun m b₄ _ => ?_
        refine Frame.resp_get_bind ?_
        exact Frame.resp_bind publishTopic_resp fun _ _ _ => Frame.resp_pure _

theorem handlePubackMsg_resp {buf : ByteStr} (hk : k ∈ o) :
    (evolution env o H).Resp (handlePubackMsg env k buf) b := by
  unfold handlePubackMsg
  cases decodePublishAck.decode buf with
  | none => exact Frame.resp_pure _
  | some msgId =>
      refine Frame.resp_bind (clientContext_resp (Or.inl hk)) ?_
      intro c b₁ hc
      obtain ⟨hctx, -⟩ := clientContext_ok hc
      refine Frame.resp_get_bind ?_
      refine Frame.resp_set_bind (Evolves.of_atom (.puback _ hctx) rfl (.single trivial) (fun _ h => h) rfl) ?_
      split
      · exact Frame.resp_pure _
      · refine Frame.resp_modify_bind (Evolves.of_same rfl rfl rfl) ?_
        exact Frame.resp_modify_bind (Evolves.of_same rfl rfl rfl) (Frame.resp_pure _)

/-! ## SUBSCRIBE -/

/-- Sending changes neither the status nor the topics of any context, and not the context of a connection
    that survives. -/
theorem Send.frame {c : CtxId} {m : MbufId} {s s' : Sess} {ls : List Act} (h : Send c m s ls s')
    (k : ConnId) (c' : CtxId) :
    (s'.ctxs c').clientStatus = (s.ctxs c').clientStatus ∧
      (s'.Alive k → s'.contextOf k = s.contextOf k ∧ s.Alive k) := by
  cases h with
  | offline _ => exact ⟨rfl, fun ha => ⟨rfl, ha⟩⟩
  | sent _ _ => exact ⟨rfl, fun ha => ⟨rfl, ha⟩⟩
  | @lost k' c'' r busy hk hc =>
      constructor
      · rw [Sess.close_ctxs]
        by_cases h : c' = c''
        · subst h
          rw [if_pos rfl]
          rfl
        · rw [if_neg h]
      · intro ha
        obtain ⟨hne, ha⟩ := Sess.alive_close.mp ha
        rw [Sess.close_contextOf, if_neg hne]
        exact ⟨rfl, ha⟩

/-- What `add_client_context` leaves when it returns. -/
theorem addClientContext_ok {t : ByteStr} {c : CtxId} {r : Int}
    (h : addClientContext env t c b = .ok (r, b')) :
    ((b.sess.topicMgr.retainMsg t = none ∨ (b.sess.ctxs c).mqttConnection = none) ∧
        b'.sess = b.sess.subscribe t c ∧ b'.log = b.log) ∨
      ∃ m id ls, b.sess.topicMgr.retainMsg t = some m ∧ (b.sess.ctxs c).mqttConnection ≠ none ∧
        Send c m (b.sess.subscribe t c) ls b'.sess ∧ b'.log = b.log ++ .retained c t m id :: ls := by
  unfold addClientContext at h
  rw [get_bind] at h
  cases hm : b.sess.topicMgr.retainMsg t with
  | none =>
      simp only [hm] at h
      cases h
      exact Or.inl ⟨Or.inl rfl, rfl, rfl⟩
  | some m =>
      cases hk : (b.sess.ctxs c).mqttConnection with
      | none =>
          simp only [hm, hk] at h
          cases h
          exact Or.inl ⟨Or.inr rfl, rfl, rfl⟩
      | some k =>
          simp only [hm, hk] at h
          rw [set_bind] at h
          have hconn : ((b.sess.subscribe t c).ctxs c).mqttConnection = some k := by
            obtain ⟨q, hq⟩ := b.sess.subscribe_ctxs t c c
            rw [hq]
            exact hk
          obtain ⟨ls, hlog, hsend⟩ := put_send hconn h
          refine Or.inr ⟨m, (b.bufs m).msgId, ls, rfl, by simp, hsend, ?_⟩
          rw [hlog]
          simp [Broker.act]

/-- The connection, while it lives, has this connected context. -/
def Serves (k : ConnId) (c : CtxId) (s : Sess) : Prop :=
  s.Alive k → s.contextOf k = some c ∧ (s.ctxs c).clientStatus = .connected

theorem subscribe_status {s : Sess} {t : ByteStr} {c c' : CtxId} :
    ((s.subscribe t c).ctxs c').clientStatus = (s.ctxs c').clientStatus := by
  obtain ⟨q, hq⟩ := s.subscribe_ctxs t c c'
  rw [hq]

theorem alive_subscribe {s : Sess} {t : ByteStr} {c : CtxId} :
    (s.subscribe t c).Alive k ↔ s.Alive k := by
  unfold Sess.Alive
  rw [Sess.subscribe_conns]

theorem addClientContext_serves {t : ByteStr} {c : CtxId} {r : Int} (hs : Serves k c b.sess)
    (h : addClientContext env t c b = .ok (r, b')) : Serves k c b'.sess := by
  have hsub : Serves k c (b.sess.subscribe t c) := by
    intro ha
    rw [Sess.subscribe_contextOf, subscribe_status]
    exact hs (alive_subscribe.mp ha)
  rcases addClientContext_ok h with ⟨-, hsess, -⟩ | ⟨m, id, ls, -, -, hsend, -⟩
  · rw [hsess]
    exact hsub
  · intro ha
    obtain ⟨hctx, ha'⟩ := (hsend.frame k c).2 ha
    rw [hctx, (hsend.frame k c).1]
    exact hsub ha'

theorem addClientContext_resp {t : ByteStr} {c : CtxId} (hc : b.sess.contextOf k = some c)
    (hs : (b.sess.ctxs c).clientStatus = .connected) :
    (changing env o H).Resp (addClientContext env t c) b := by
  unfold addClientContext
  refine Frame.resp_get_bind ?_
  cases hm : b.sess.topicMgr.retainMsg t with
  | none =>
      refine Frame.resp_set_bind ?_ (Frame.resp_pure _)
      exact Changes.of_micro (.set hc hs) (by simp) .nil (fun _ => alive_subscribe.mp) rfl
  | some m =>
      cases hk : (b.sess.ctxs c).mqttConnection with
      | none =>
          refine Frame.resp_set_bind ?_ (Frame.resp_pure _)
          exact Changes.of_micro (.set hc hs) (by simp) .nil (fun _ => alive_subscribe.mp) rfl
      | some k' =>
          refine Frame.resp_set_bind ?_ (resp_changing (put_resp (Or.inr ⟨c, Or.inl (Or.inr ⟨t, ?_⟩), ?_⟩)))
          · exact Changes.of_micro (.retained hc hs) rfl (.single trivial) (fun _ => alive_subscribe.mp) rfl
          · show c ∈ (b.sess.subscribe t c).topicMgr.clients t
            rw [Sess.subscribe_topicMgr, TopicMgr.mem_clients_add]
            exact Or.inr ⟨rfl, rfl⟩
          · obtain ⟨q, hq⟩ := b.sess.subscribe_ctxs t c c
            show ((b.sess.subscribe t c).ctxs c).mqttConnection = some k'
            rw [hq]
            exact hk

/-- On a connection that has a context, `client_context()` only returns it. -/
theorem clientContext_serves {c c' : CtxId} (hs : Serves k c b.sess)
    (h : clientContext env k b = .ok (c', b')) :
    c' = c ∧ b' = b ∧ b.sess.contextOf k = some c ∧ (b.sess.ctxs c).clientStatus = .connected := by
  obtain ⟨hctx, rfl | ⟨hnone, ha, -⟩⟩ := clientContext_ok h
  · obtain ⟨hc, hst⟩ := hs (Sess.alive_of_contextOf hctx)
    rw [hctx] at hc
    cases hc
    exact ⟨rfl, rfl, hctx, hst⟩
  · rw [(hs ha).1] at hnone
    cases hnone

theorem subscribeLoop_resp {c : CtxId} (hk : k ∈ o) (ts : List ByteStr) :
    ∀ b : Broker, Serves k c b.sess → (changing env o H).Resp (subscribeLoop env k ts) b := by
  induction ts with
  | nil => exact fun _ _ => Frame.resp_pure _
  | cons t ts ih =>
      intro b hs
      unfold subscribeLoop
      refine Frame.resp_bind (resp_changing (clientContext_resp (Or.inl hk))) ?_
      intro c' b₁ hc
      obtain ⟨rfl, rfl, hctx, hst⟩ := clientContext_serves hs hc
      refine Frame.resp_bind (addClientContext_resp hctx hst) ?_
      intro r b₂ ha
      exact ih b₂ (addClientContext_serves hs ha)

/-- The topic loop of a SUBSCRIBE that the connection survives. -/
theorem subscribeLoop_ok {c : CtxId} {u : Unit} (ts : List ByteStr) :
    ∀ b : Broker, Serves k c b.sess → subscribeLoop env k ts b = .ok (u, b') → b'.sess.Alive k →
      ∃ ls, b'.log = b.log ++ ls ∧ SubLoop c ts b.sess ls b'.sess := by
  induction ts with
  | nil =>
      intro b _ h _
      cases h
      exact ⟨[], by simp, .nil⟩
  | cons t ts ih =>
      intro b hs h ha
      unfold subscribeLoop at h
      rw [bind_ok] at h
      obtain ⟨c', b₁, hc, h⟩ := h
      obtain ⟨rfl, rfl, -, -⟩ := clientContext_serves hs hc
      rw [bind_ok] at h
      obtain ⟨r, b₂, hadd, h⟩ := h
      obtain ⟨ls, hlog, hloop⟩ := ih b₂ (addClientContext_serves hs hadd) h ha
      rcases addClientContext_ok hadd with ⟨hq, hsess, hlog₂⟩ | ⟨m, id, ls₂, hm, hn, hsend, hlog₂⟩
      · refine ⟨ls, ?_, .quiet hq ?_⟩
        · rw [hlog, hlog₂]
        · rw [← hsess]
          exact hloop
      · refine ⟨.retained c' t m id :: (ls₂ ++ ls), ?_, .retained hm hn hsend hloop⟩
        rw [hlog, hlog₂]
        simp

/-- A reply that the connection survives is at most one `put`. -/
theorem reply_ok {size : Nat} {bytes : Option ByteStr} {r : Int} (h : reply env k size bytes b = .ok (r, b'))
    (ha : b'.sess.Alive k) :
    b'.sess = b.sess ∧ ∃ puts, b'.log = b.log ++ puts ∧ ∀ a ∈ puts, ∃ m r, a = .put k m r := by
  unfold reply at h
  rw [get_bind] at h
  cases bytes with
  | none =>
      rw [bind_ok] at h
      obtain ⟨m, b₁, hn, h⟩ := h
      obtain ⟨-, rfl⟩ := newBuf_ok hn
      cases h
      exact ⟨rfl, [], by simp, by simp⟩
  | some bytes =>
      simp only at h
      rw [bind_ok] at h
      obtain ⟨m, b₁, hn, h⟩ := h
      obtain ⟨-, rfl⟩ := newBuf_ok hn
      obtain ⟨-, -, ⟨hs, hlog⟩ | ⟨c, -, hs, -⟩⟩ := put_ok h
      · exact ⟨hs, _, hlog, by simp⟩
      · rw [hs] at ha
        exact absurd rfl (Sess.alive_close.mp ha).1

/-- The state of the tables between two steps of a SUBSCRIBE. -/
theorem reply_serves {size : Nat} {bytes : Option ByteStr} {r : Int} {c : CtxId} (hs : Serves k c b.sess)
    (h : reply env k size bytes b = .ok (r, b')) : Serves k c b'.sess := by
  intro ha
  have hsess := (reply_ok h ha).1
  rw [hsess] at ha ⊢
  exact hs ha

theorem handleSubscribeMsg_resp {buf : ByteStr} (hk : k ∈ o) :
    (evolution env o H).Resp (handleSubscribeMsg env k buf) b := by
  unfold handleSubscribeMsg
  refine Frame.resp_bind (clientContext_resp (Or.inl hk)) ?_
  intro c b₁ hc
  obtain ⟨hctx, -⟩ := clientContext_ok hc
  refine Frame.resp_get_bind ?_
  by_cases hst : (b₁.sess.ctxs c).clientStatus = .connected
  · rw [if_neg (not_not.mpr hst)]
    cases Subscribe.decode.decode buf with
    | none => exact Frame.resp_pure _
    | some msg =>
        have hserve : Serves k c (b₁.sess.modifyContext c (·.addSubcribeTopics msg.subTopics)) := by
          intro _
          refine ⟨hctx, ?_⟩
          rw [Sess.modifyContext_ctxs, if_pos rfl]
          exact hst
        refine resp_evolution ?_ ?_
        · refine Frame.resp_set_bind (Changes.of_micro (.list hctx hst) rfl (.single trivial) (fun _ h => h) rfl) ?_
          refine Frame.resp_bind (resp_changing (reply_resp hk)) ?_
          intro res b₂ hr
          refine Frame.resp_bind (subscribeLoop_resp hk _ b₂ (reply_serves hserve hr)) ?_
          exact fun _ _ _ => Frame.resp_pure _
        · intro res b' h ho
          simp only at h
          rw [set_bind, bind_ok] at h
          obtain ⟨res', b₂, hr, h⟩ := h
          rw [bind_ok] at h
          obtain ⟨_, b₃, hl, h⟩ := h
          cases h
          have ha : b'.sess.Alive k := ho k hk
          have hdie := (Frame.resp_ok
            (subscribeLoop_resp (o := o) (H := H) hk _ b₂ (reply_serves hserve hr)) hl).dying
          obtain ⟨hsess, puts, hlog, hputs⟩ := reply_ok hr (hdie k ha)
          obtain ⟨ls, hlog', hloop⟩ := subscribeLoop_ok _ b₂ (reply_serves hserve hr) hl ha
          rw [hsess] at hloop
          refine ⟨.subscribe k c msg.subTopics :: (puts ++ ls), ?_, ?_⟩
          · rw [hlog', hlog]
            simp [Broker.act]
          · exact .single (.subscribe hctx hst hputs hloop ha)
  · rw [if_pos hst]
    exact Frame.resp_pure _

/-! ## The other packets -/

theorem unsubscribeLoop_resp (hk : k ∈ o) (ts : List ByteStr) :
    ∀ b : Broker, (evolution env o H).Resp (unsubscribeLoop env k ts) b := by
  induction ts with
  | nil => exact fun _ => Frame.resp_pure _
  | cons t ts ih =>
      intro b
      unfold unsubscribeLoop
      refine Frame.resp_bind (clientContext_resp (Or.inl hk)) ?_
      intro c b₁ hc
      obtain ⟨hctx, -⟩ := clientContext_ok hc
      refine Frame.resp_modify_bind ?_ (ih _)
      exact Evolves.of_atom (.unsubscribe hctx) rfl (.single trivial) (fun _ h => h) rfl

theorem handleUnsubscribeMsg_resp {buf : ByteStr} (hk : k ∈ o) :
    (evolution env o H).Resp (handleUnsubscribeMsg env k buf) b := by
  unfold handleUnsubscribeMsg
  refine Frame.resp_bind (clientContext_resp (Or.inl hk)) ?_
  intro c b₁ _
  refine Frame.resp_get_bind ?_
  split
  · exact Frame.resp_pure _
  · cases Unsubscribe.decode.decode buf with
    | none => exact Frame.resp_pure _
    | some msg =>
        refine Frame.resp_bind (unsubscribeLoop_resp hk _ _) ?_
        exact fun _ _ _ => reply_resp hk

theorem handleDisconnectMsg_resp (hk : k ∈ o) : (evolution env o H).Resp (handleDisconnectMsg env k) b := by
  unfold handleDisconnectMsg
  refine Frame.resp_bind (clientContext_resp (Or.inl hk)) ?_
  intro c b₁ hc
  obtain ⟨hctx, -⟩ := clientContext_ok hc
  refine Frame.resp_modify_bind (Evolves.of_atom (.disconnect hctx) rfl (.single trivial) (fun _ h => h) rfl) ?_
  exact Frame.resp_modify_bind (Evolves.of_same rfl rfl rfl) (Frame.resp_pure _)

theorem keeping_resp {buf : ByteStr} {x : BrokerM Int} (h : (evolution env o H).Resp x b) :
    (evolution env o H).Resp (keeping buf x) b :=
  Frame.resp_bind h fun _ _ _ => Frame.resp_pure _

theorem process_resp {buf : ByteStr} (hk : k ∈ o) : (evolution env o H).Resp (process env k buf) b := by
  unfold process
  cases packetType buf with
  | connect => exact keeping_resp (handleConnectMsg_resp hk)
  | publish => exact handlePublishMsg_resp hk
  | puback => exact keeping_resp (handlePubackMsg_resp hk)
  | subscribe => exact keeping_resp (handleSubscribeMsg_resp hk)
  | unsubscribe => exact keeping_resp (handleUnsubscribeMsg_resp hk)
  | pingreq => exact keeping_resp (reply_resp hk)
  | disconnect =>
      exact keeping_resp (Frame.resp_bind (handleDisconnectMsg_resp hk) fun _ _ _ => Frame.resp_pure _)
  | _ => exact Frame.resp_pure _

/-! ## Events -/

/-- The framing loop respects what its handler respects. -/
theorem processLoop_resp {σ ε : Type} {F : Frame σ ε} {touch : Exec σ ε Unit} {process : Handler σ ε}
    (ht : ∀ s, F.Resp touch s) (hp : ∀ pkt s, F.Resp (process pkt) s) (fuel : Nat) :
    ∀ mem len offset s, F.Resp (processLoop touch process fuel mem len offset) s := by
  induction fuel with
  | zero => exact fun _ _ _ _ => Frame.resp_pure _
  | succ fuel ih =>
      intro mem len offset s
      unfold processLoop
      refine Frame.resp_bind (ht s) ?_
      intro _ s₁ _
      split
      · split
        · split
          · exact Frame.resp_pure _
          · exact Frame.resp_pure _
        · exact Frame.resp_pure _
        · refine Frame.resp_bind (hp _ s₁) ?_
          intro p s₂ _
          split
          split
          · exact Frame.resp_pure _
          · exact ih _ _ _ _
      · exact Frame.resp_pure _

theorem handleInput_resp {out : ReadOut} (hk : k ∈ o) : (evolution env o H).Resp (handleInput env k out) b := by
  unfold handleInput
  refine Frame.resp_bind (touch_resp (Or.inl hk)) ?_
  intro _ b₁ _
  refine Frame.resp_get_bind ?_
  cases out with
  | again => exact Frame.resp_pure _
  | closed => exact Frame.resp_pure _
  | bytes r =>
      simp only
      split
      · exact Frame.resp_pure _
      · refine Frame.resp_bind (Frame.resp_modify (Evolves.of_same rfl rfl rfl)) ?_
        intro _ b₂ _
        refine Frame.resp_bind (processLoop_resp (fun _ => touch_resp (Or.inl hk))
          (fun _ _ => process_resp hk) _ _ _ _ _) ?_
        intro res b₃ _
        cases res with
        | none => exact Frame.resp_pure _
        | some recv =>
            exact Frame.resp_modify_bind (Evolves.of_same rfl rfl rfl) (Frame.resp_pure _)

end MqttServer
