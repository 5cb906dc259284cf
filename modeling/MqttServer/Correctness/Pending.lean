import MqttServer.Correctness.Restore
import MqttServer.Server.Packing

/-!
# `Correctness.Pending` — the pending queue of a client is a reliable FIFO

What a client is owed is written down in a ledger that looks at the trace alone: which context is the session of
the client id, the topics it is subscribed to, the messages addressed to it, and how many of them it has
acknowledged. For a client id that always connects with `clean_session` off, the pending queue in the broker is
what the ledger says (`runs_pending`): a simulation between tables and ledger, operation by operation.
-/

namespace MqttServer

open Lib Exec

/-! ## The ledger -/

/-- What the trace says about one client: its session, its topics, the messages addressed to it in order, and
    the number of those it has acknowledged. -/
structure Ledger where
  owner : Option CtxId
  topics : List ByteStr
  addressed : List MbufId
  removed : Nat
deriving DecidableEq, Repr

namespace Ledger

/-- Addressed and not acknowledged. -/
def pending (l : Ledger) : List MbufId := l.addressed.drop l.removed

/-- One more message. -/
def address (l : Ledger) (m : MbufId) : Ledger := { l with addressed := l.addressed ++ [m] }

/-- What one label means for a client. The session is the first one the client got. A PUBACK counts when it
    carries the low sixteen bits of the id of the oldest pending message. -/
def note (clientId : ByteStr) (l : Ledger) : Act → Ledger
  | .connect _ msg _ c => if msg.clientId = clientId ∧ l.owner = none then { l with owner := some c } else l
  | .subscribe _ c topics =>
      if l.owner = some c then { l with topics := topics.map Topic.topicName ++ l.topics } else l
  | .unsubscribe _ c t _ => if l.owner = some c then { l with topics := l.topics.filter (· ≠ t) } else l
  | .publish t m _ => if t ∈ l.topics then l.address m else l
  | .retained c _ m _ => if l.owner = some c then l.address m else l
  | .puback _ c msgId oldest =>
      if l.owner = some c ∧ oldest.map (· % 65536) = some msgId then { l with removed := l.removed + 1 }
      else l
  | _ => l

/-- What a client is owed when the broker starts: the session that was restored for it. -/
def start (clientId : ByteStr) (s : Sess) : Ledger :=
  match s.registry.findClientContext clientId with
  | none => { owner := none, topics := [], addressed := [], removed := 0 }
  | some c =>
      { owner := some c, topics := (s.ctxs c).topicNames, addressed := (s.ctxs c).sendMsgQueue, removed := 0 }

end Ledger

/-- The ledger of a client after a trace. -/
def ledger (clientId : ByteStr) (s : Sess) (log : List Act) : Ledger :=
  log.foldl (Ledger.note clientId) (Ledger.start clientId s)

theorem ledger_append (clientId : ByteStr) (s : Sess) (log ls : List Act) :
    ledger clientId s (log ++ ls) = ls.foldl (Ledger.note clientId) (ledger clientId s log) :=
  List.foldl_append

variable {env : Env} {mp : MsgPack} {m : Machine} {cs cs' : List (ConnId × CtxId)} {s s' : Sess}
  {ls log : List Act} {k : ConnId} {c c' : CtxId} {t : ByteStr} {id : ByteStr} {l : Ledger}

/-! ## The simulation -/

/-- The tables are as the ledger of the client id says; the topics `todo` are in the ledger, and not yet in
    their sets. -/
structure Tracked (id : ByteStr) (l : Ledger) (todo : List ByteStr) (cs : List (ConnId × CtxId)) (s : Sess) :
    Prop where
  links : Links cs s
  found : s.registry.findClientContext id = l.owner
  mine : ∀ k c, s.contextOf k = some c → (s.ctxs c).clientId = id → l.owner = some c
  persistent : ∀ c, l.owner = some c → (s.ctxs c).mqttConnection ≠ none → (s.ctxs c).cleanSession = false
  topics : ∀ c, l.owner = some c → ∀ t, (c ∈ s.topicMgr.clients t ∨ t ∈ todo) ↔ t ∈ l.topics
  queue : ∀ c, l.owner = some c → (s.ctxs c).sendMsgQueue = l.pending
  idle : l.owner = none → l.topics = [] ∧ l.addressed = []
  bound : l.removed ≤ l.addressed.length

namespace Tracked

variable {todo : List ByteStr}

theorem restored {n : Nat} (h : Restored n s) : Tracked id (Ledger.start id s) [] [] s := by
  have hof : ∀ k, s.contextOf k = none := fun k => by
    unfold Sess.contextOf
    rw [h.conns]
    rfl
  cases hf : s.registry.findClientContext id with
  | none =>
      have hl : Ledger.start id s = { owner := none, topics := [], addressed := [], removed := 0 } := by
        unfold Ledger.start
        rw [hf]
      rw [hl]
      refine ⟨h.links, hf, ?_, ?_, ?_, ?_, fun _ => ⟨rfl, rfl⟩, Nat.le_refl _⟩
      · intro k c hc
        rw [hof] at hc
        cases hc
      · intro c hc
        cases hc
      · intro c hc
        cases hc
      · intro c hc
        cases hc
  | some c =>
      have hl : Ledger.start id s = { owner := some c, topics := (s.ctxs c).topicNames
                                      addressed := (s.ctxs c).sendMsgQueue, removed := 0 } := by
        unfold Ledger.start
        rw [hf]
      rw [hl]
      refine ⟨h.links, hf, ?_, ?_, ?_, ?_, ?_, Nat.zero_le _⟩
      · intro k c hc
        rw [hof] at hc
        cases hc
      · intro c' hc hon
        exact absurd (h.offline c') hon
      · rintro c' ⟨⟩ t
        rw [h.agree]
        simp
      · rintro c' ⟨⟩
        exact List.drop_zero.symm
      · intro hn
        cases hn

/-- The session of the client is a named context. -/
theorem named (h : Tracked id l todo cs s) (hc : l.owner = some c) : Named cs c :=
  h.links.registered id c (h.found.trans hc)

/-- **Steps that are none of the client's business.** -/
theorem frame (h : Tracked id l todo cs s) (hl : Links cs' s')
    (hreg : s'.registry.findClientContext id = s.registry.findClientContext id)
    (hmine : ∀ k c, s'.contextOf k = some c → (s'.ctxs c).clientId = id → l.owner = some c)
    (hctx : ∀ c, l.owner = some c → (s'.ctxs c).sendMsgQueue = (s.ctxs c).sendMsgQueue ∧
      ((s'.ctxs c).mqttConnection ≠ none → (s'.ctxs c).cleanSession = false))
    (hset : ∀ c, l.owner = some c → ∀ t, c ∈ s'.topicMgr.clients t ↔ c ∈ s.topicMgr.clients t) :
    Tracked id l todo cs' s' := by
  refine ⟨hl, hreg.trans h.found, hmine, fun c hc => (hctx c hc).2, ?_, ?_, h.idle, h.bound⟩
  · intro c hc t
    rw [hset c hc]
    exact h.topics c hc t
  · intro c hc
    rw [(hctx c hc).1]
    exact h.queue c hc

/-- A change of a context that is not the client's. -/
theorem modifyOther (h : Tracked id l todo cs s) {f : ClientContext → ClientContext}
    (hl : Links cs (s.modifyContext c f)) (hc : l.owner ≠ some c)
    (hid : (f (s.ctxs c)).clientId = (s.ctxs c).clientId) : Tracked id l todo cs (s.modifyContext c f) := by
  have hctx : ∀ c', l.owner = some c' → (s.modifyContext c f).ctxs c' = s.ctxs c' := by
    intro c' hc'
    rw [Sess.modifyContext_ctxs, if_neg]
    rintro rfl
    exact hc hc'
  refine h.frame hl rfl ?_ ?_ (fun _ _ _ => Iff.rfl)
  · intro k c' hk hc'
    refine h.mine k c' hk ?_
    rw [Sess.modifyContext_ctxs] at hc'
    by_cases he : c' = c
    · subst he
      rwa [if_pos rfl, hid] at hc'
    · rwa [if_neg he] at hc'
  · intro c' hc'
    rw [hctx c' hc']
    exact ⟨rfl, h.persistent c' hc'⟩

/-- A change of the client's context that leaves queue, links and flag alone. -/
theorem modifyOwn (h : Tracked id l todo cs s) {f : ClientContext → ClientContext}
    (hl : Links cs (s.modifyContext c f))
    (hf : ∀ x, (f x).clientId = x.clientId ∧ (f x).mqttConnection = x.mqttConnection ∧
      (f x).cleanSession = x.cleanSession ∧ (f x).sendMsgQueue = x.sendMsgQueue) :
    Tracked id l todo cs (s.modifyContext c f) := by
  have hctx : ∀ c', ((s.modifyContext c f).ctxs c').clientId = (s.ctxs c').clientId ∧
      ((s.modifyContext c f).ctxs c').mqttConnection = (s.ctxs c').mqttConnection ∧
      ((s.modifyContext c f).ctxs c').cleanSession = (s.ctxs c').cleanSession ∧
      ((s.modifyContext c f).ctxs c').sendMsgQueue = (s.ctxs c').sendMsgQueue := by
    intro c'
    rw [Sess.modifyContext_ctxs]
    by_cases he : c' = c
    · subst he
      rw [if_pos rfl]
      exact hf _
    · rw [if_neg he]
      exact ⟨rfl, rfl, rfl, rfl⟩
  refine h.frame hl rfl ?_ ?_ (fun _ _ _ => Iff.rfl)
  · intro k c' hk hc'
    rw [(hctx c').1] at hc'
    exact h.mine k c' hk hc'
  · intro c' hc'
    rw [(hctx c').2.2.2, (hctx c').2.1, (hctx c').2.2.1]
    exact ⟨rfl, h.persistent c' hc'⟩

/-- `handle_close` of the client's connection, or of another one. -/
theorem close (h : Tracked id l todo cs s) (hc : s.contextOf k = some c) :
    Tracked id l todo cs (s.close k c) := by
  have hid : ∀ c', ((s.close k c).ctxs c').clientId = (s.ctxs c').clientId := by
    intro c'
    rw [Sess.close_ctxs]
    split
    · rename_i he
      rw [he]
      rfl
    · rfl
  -- the client's own session is persistent, and another one is not registered under its id
  have hkeep : (s.ctxs c).cleanSession = true → l.owner ≠ some c ∧ (s.ctxs c).clientId ≠ id := by
    intro hclean
    have hown : l.owner ≠ some c := by
      intro he
      have hoff := h.persistent c he
      rw [h.links.owner k c hc, hclean] at hoff
      exact absurd (hoff (by simp)) (by simp)
    exact ⟨hown, fun he => hown (h.mine k c hc he)⟩
  refine h.frame (h.links.close hc) ?_ ?_ ?_ ?_
  · rw [Sess.close_registry]
    split
    · rename_i hclean
      unfold Registry.findClientContext Registry.delClientContext
      rw [AList.lookup_erase_ne (Ne.symm (hkeep hclean).2)]
    · rfl
  · intro k' c' hk' hc'
    rw [Sess.close_contextOf] at hk'
    split at hk'
    · cases hk'
    · rw [hid] at hc'
      exact h.mine k' c' hk' hc'
  · intro c' hc'
    rw [Sess.close_ctxs]
    by_cases he : c' = c
    · subst he
      rw [if_pos rfl]
      exact ⟨rfl, fun hon => absurd rfl hon⟩
    · rw [if_neg he]
      exact ⟨rfl, h.persistent c' hc'⟩
  · intro c' hc' t
    rw [Sess.mem_clients_close]
    constructor
    · exact fun hm => hm.1
    · intro hm
      refine ⟨hm, ?_⟩
      rintro ⟨hclean, -, rfl⟩
      exact (hkeep hclean).1 hc'

/-- A CONNECT that finds a session, the client's own or another one, and has it offline. -/
theorem resume (h : Tracked id l [] cs s) {msg : Connect} (hl : Links cs' (s.resume k c msg))
    (hown : msg.clientId = id → l.owner = some c ∧ msg.cleanSession = false)
    (hother : msg.clientId ≠ id → l.owner ≠ some c) : Tracked id l [] cs' (s.resume k c msg) := by
  have hself : (s.resume k c msg).ctxs c = { (s.ctxs c).init msg with mqttConnection := some k } := by
    rw [Sess.resume_ctxs, if_pos rfl]
  have hctx : ∀ c', c' ≠ c → (s.resume k c msg).ctxs c' = s.ctxs c' := fun c' hc' => by
    rw [Sess.resume_ctxs, if_neg hc']
  refine h.frame hl rfl ?_ ?_ (fun _ _ _ => Iff.rfl)
  · intro k' c' hk' hc'
    by_cases he : c' = c
    · subst he
      rw [hself] at hc'
      exact (hown hc').1
    · rw [hctx c' he] at hc'
      rw [Sess.resume_contextOf] at hk'
      split at hk'
      · cases hk'
        exact absurd rfl he
      · exact h.mine k' c' hk' hc'
  · intro c' hc'
    by_cases he : c' = c
    · subst he
      have hid : msg.clientId = id := by
        by_contra hne
        exact hother hne hc'
      rw [hself]
      exact ⟨rfl, fun _ => (hown hid).2⟩
    · rw [hctx c' he]
      exact ⟨rfl, h.persistent c' hc'⟩

/-- The first CONNECT of the client: its session begins, with nothing pending. -/
theorem registerOwn (h : Tracked id l [] cs s) {msg : Connect} (hl : Links cs' (s.register c msg))
    (hk : ¬ Connected cs k) (hc : s.contextOf k = some c) (hid : msg.clientId = id)
    (hclean : msg.cleanSession = false) (hf : s.registry.findClientContext id = none) :
    Tracked id { l with owner := some c } [] cs' (s.register c msg) := by
  have hnone : l.owner = none := h.found.symm.trans hf
  obtain ⟨htopics, hadd⟩ := h.idle hnone
  obtain ⟨-, -, -, -, hqueue⟩ := h.links.fresh k c hk hc
  refine ⟨hl, ?_, ?_, ?_, ?_, ?_, (fun hn => by cases hn), h.bound⟩
  · unfold Registry.findClientContext at hf ⊢
    unfold Sess.register Registry.addClientContext
    rw [hid]
    simp only [hf, AList.lookup_insert]
  · intro k' c' hk' hc'
    rw [Sess.register_ctxs] at hc'
    by_cases he : c' = c
    · exact congrArg some he.symm
    · rw [if_neg he] at hc'
      rw [h.mine k' c' hk' hc'] at hnone
      cases hnone
  · rintro c' ⟨⟩ _
    rw [Sess.register_ctxs, if_pos rfl]
    exact hclean
  · rintro c' ⟨⟩ t
    show (c ∈ s.topicMgr.clients t ∨ t ∈ []) ↔ t ∈ l.topics
    rw [htopics]
    constructor
    · rintro (hin | hin)
      · exact absurd (h.links.subscribed t c hin) (h.links.not_named hk hc)
      · exact hin
    · exact Or.inr
  · rintro c' ⟨⟩
    rw [Sess.register_ctxs, if_pos rfl]
    show (s.ctxs c).sendMsgQueue = l.addressed.drop l.removed
    rw [hqueue, hadd, List.drop_nil]

/-- The first CONNECT of another client. -/
theorem registerOther (h : Tracked id l [] cs s) {msg : Connect} (hl : Links cs' (s.register c msg))
    (hk : ¬ Connected cs k) (hc : s.contextOf k = some c) (hid : msg.clientId ≠ id)
    (hf : s.registry.findClientContext msg.clientId = none) : Tracked id l [] cs' (s.register c msg) := by
  have hown : l.owner ≠ some c := fun he => h.links.not_named hk hc (h.named he)
  refine h.frame hl ?_ ?_ ?_ (fun _ _ _ => Iff.rfl)
  · unfold Registry.findClientContext at hf ⊢
    unfold Sess.register Registry.addClientContext
    simp only [hf]
    exact AList.lookup_insert_ne (Ne.symm hid)
  · intro k' c' hk' hc'
    rw [Sess.register_ctxs] at hc'
    by_cases he : c' = c
    · rw [if_pos he] at hc'
      exact absurd hc' hid
    · rw [if_neg he] at hc'
      exact h.mine k' c' hk' hc'
  · intro c' hc'
    have he : c' ≠ c := by
      rintro rfl
      exact hown hc'
    rw [Sess.register_ctxs, if_neg he]
    exact ⟨rfl, h.persistent c' hc'⟩

/-- A connection gets a context of its own. -/
theorem newContext (h : Tracked id l [] cs s) {clean : Bool} (hne : id ≠ []) (ha : s.Alive k)
    (hk : s.contextOf k = none) (hl : Links cs (s.newContext k clean)) :
    Tracked id l [] cs (s.newContext k clean) := by
  have hctx : ∀ c', c' ≠ .conn k → (s.newContext k clean).ctxs c' = s.ctxs c' := fun c' hc' => by
    rw [Sess.newContext_ctxs, if_neg hc']
  refine h.frame hl rfl ?_ ?_ (fun _ _ _ => Iff.rfl)
  · intro k' c' hk' hc'
    rw [Sess.newContext_contextOf] at hk'
    by_cases he : c' = .conn k
    · rw [Sess.newContext_ctxs, if_pos he] at hc'
      exact absurd hc'.symm hne
    · rw [hctx c' he] at hc'
      split at hk'
      · cases hk'
        exact absurd rfl he
      · exact h.mine k' c' hk' hc'
  · intro c' hc'
    rw [hctx c']
    · exact ⟨rfl, h.persistent c' hc'⟩
    · rintro rfl
      obtain ⟨c, hc, -⟩ := h.links.bound k (h.links.creator k (h.named hc')) ha
      rw [hk] at hc
      cases hc

/-- A message for the client. -/
theorem deliverOwn (h : Tracked id l todo cs s) {m : MbufId} (hc : l.owner = some c)
    (hl : Links cs (s.modifyContext c (·.addSendMsg m))) :
    Tracked id (l.address m) todo cs (s.modifyContext c (·.addSendMsg m)) := by
  have hctx : ∀ c', l.owner = some c' → (s.modifyContext c (·.addSendMsg m)).ctxs c' =
      (s.ctxs c').addSendMsg m := by
    intro c' hc'
    rw [hc] at hc'
    cases hc'
    rw [Sess.modifyContext_ctxs, if_pos rfl]
  refine ⟨hl, h.found, ?_, ?_, h.topics, ?_, ?_, ?_⟩
  · intro k c' hk hc'
    refine h.mine k c' hk ?_
    rw [Sess.modifyContext_ctxs] at hc'
    by_cases he : c' = c
    · subst he
      rwa [if_pos rfl] at hc'
    · rwa [if_neg he] at hc'
  · intro c' hc'
    rw [hctx c' hc']
    exact h.persistent c' hc'
  · intro c' hc'
    rw [hctx c' hc']
    show (s.ctxs c').sendMsgQueue ++ [m] = (l.addressed ++ [m]).drop l.removed
    rw [List.drop_append_of_le_length h.bound, h.queue c' hc']
    rfl
  · intro hn
    have hn' : l.owner = none := hn
    rw [hc] at hn'
    cases hn'
  · show l.removed ≤ (l.addressed ++ [m]).length
    rw [List.length_append]
    exact Nat.le_add_right_of_le h.bound

/-- One topic of the client's SUBSCRIBE is done. -/
theorem topicOwn (h : Tracked id l (t :: todo) cs s) (hc : l.owner = some c)
    (hl : Links cs { s with topicMgr := s.topicMgr.addClientContext t c }) :
    Tracked id l todo cs { s with topicMgr := s.topicMgr.addClientContext t c } := by
  refine ⟨hl, h.found, h.mine, h.persistent, ?_, h.queue, h.idle, h.bound⟩
  intro c' hc' t'
  rw [hc] at hc'
  cases hc'
  rw [← h.topics c hc t', TopicMgr.mem_clients_add, List.mem_cons]
  simp only [and_true]
  rw [or_assoc]

/-- One topic of another client's SUBSCRIBE is done. -/
theorem topicOther (h : Tracked id l todo cs s) (hc : l.owner ≠ some c)
    (hl : Links cs { s with topicMgr := s.topicMgr.addClientContext t c }) :
    Tracked id l todo cs { s with topicMgr := s.topicMgr.addClientContext t c } := by
  refine h.frame hl rfl h.mine (fun c' hc' => ⟨rfl, h.persistent c' hc'⟩) ?_
  intro c' hc' t'
  rw [TopicMgr.mem_clients_add]
  constructor
  · rintro (hin | ⟨-, rfl⟩)
    · exact hin
    · exact absurd hc' hc
  · exact Or.inl

/-! ## Loops -/

theorem send {m : MbufId} (h : Tracked id l todo cs s) (hs : Send c m s ls s') :
    Tracked id l todo cs s' := by
  cases hs with
  | offline _ => exact h
  | sent _ _ => exact h
  | lost _ hc => exact h.close hc

/-- A fan-out reaches the client once, when its session is among the contexts to visit and in the set. -/
theorem fanOut {m : MbufId} {visit : List CtxId} (hf : FanOut t m visit s ls s') (hnd : visit.Nodup)
    (h : Tracked id l [] cs s) :
    Tracked id (if (∃ c ∈ visit, l.owner = some c) ∧ t ∈ l.topics then l.address m else l) [] cs s' := by
  induction hf generalizing l with
  | nil => simpa using h
  | @skip s s' c visit ls hc _ ih =>
      have hrest := ih hnd.of_cons h
      by_cases hown : l.owner = some c
      · have ht : t ∉ l.topics := by
          rw [← h.topics c hown t]
          simpa using hc
        rw [if_neg (fun hx => ht hx.2)] at hrest ⊢
        exact hrest
      · have hiff : (∃ c' ∈ c :: visit, l.owner = some c') ↔ ∃ c' ∈ visit, l.owner = some c' := by
          simp [hown]
        simp only [hiff]
        exact hrest
  | @visit s s₁ s' c visit ls ls' hc hs _ _ ih =>
      have hlinks : Links cs (s.modifyContext c (·.addSendMsg m)) :=
        h.links.modify ⟨rfl, rfl⟩ (Or.inl (h.links.subscribed _ _ hc))
      by_cases hown : l.owner = some c
      · have ht : t ∈ l.topics := (h.topics c hown t).mp (Or.inl hc)
        have hrest := ih hnd.of_cons ((h.deliverOwn hown hlinks).send hs)
        have hnot : ¬ ∃ c' ∈ visit, (l.address m).owner = some c' := by
          rintro ⟨c', hc', he⟩
          have he' : l.owner = some c' := he
          rw [hown] at he'
          cases he'
          exact (List.nodup_cons.mp hnd).1 hc'
        rw [if_neg (fun hx => hnot hx.1)] at hrest
        rw [if_pos ⟨⟨c, List.mem_cons_self, hown⟩, ht⟩]
        exact hrest
      · have hrest := ih hnd.of_cons ((h.modifyOther hlinks hown rfl).send hs)
        have hiff : (∃ c' ∈ c :: visit, l.owner = some c') ↔ ∃ c' ∈ visit, l.owner = some c' := by
          simp [hown]
        simp only [hiff]
        exact hrest

/-- Labels the ledger does not look at. -/
theorem note_send {m : MbufId} (hs : Send c m s ls s') : ls.foldl (Ledger.note id) l = l := by
  cases hs with
  | offline _ => rfl
  | sent _ _ => rfl
  | lost _ _ => rfl

theorem note_fanOut {m : MbufId} {visit : List CtxId} (hf : FanOut t m visit s ls s') :
    ls.foldl (Ledger.note id) l = l := by
  induction hf with
  | nil => rfl
  | skip _ _ ih => exact ih
  | visit _ hs _ _ ih => rw [List.foldl_append, note_send hs, ih]

theorem note_puts {ls : List Act} (hp : ∀ a ∈ ls, ∃ m r, a = .put k m r) :
    ls.foldl (Ledger.note id) l = l := by
  induction ls with
  | nil => rfl
  | cons a ls ih =>
      obtain ⟨m, r, rfl⟩ := hp a List.mem_cons_self
      exact ih fun a' ha' => hp a' (List.mem_cons_of_mem _ ha')

/-- The topic loop of the client's own SUBSCRIBE. -/
theorem subLoopOwn {ts : List ByteStr} (hs : SubLoop c ts s ls s') (hown : l.owner = some c)
    (h : Tracked id l ts cs s) : Tracked id (ls.foldl (Ledger.note id) l) [] cs s' := by
  induction hs generalizing l with
  | nil => exact h
  | @quiet s s' t ts ls hq _ ih =>
      refine ih hown ?_
      have ht := h.topicOwn hown (h.links.topics fun t' c' hc' => ?_)
      · unfold Sess.subscribe
        rcases hq with hq | hq
        · rw [hq]
          exact ht
        · rw [hq]
          split
          · cases ‹none = some _›
          · exact ht
      · rcases TopicMgr.mem_clients_add.mp hc' with hc' | ⟨-, rfl⟩
        · exact h.links.subscribed t' c' hc'
        · exact h.named hown
  | @retained s s₁ s' t ts m n ls ls' hm hn hsend _ ih =>
      have hnote : (.retained c t m n :: (ls ++ ls')).foldl (Ledger.note id) l =
          ls'.foldl (Ledger.note id) (l.address m) := by
        rw [List.foldl_cons, List.foldl_append, note_send hsend]
        show ls'.foldl _ (if l.owner = some c then l.address m else l) = _
        rw [if_pos hown]
      rw [hnote]
      refine ih hown (send ?_ hsend)
      have hnamed : ∀ t' c', c' ∈ (s.topicMgr.addClientContext t c).clients t' → Named cs c' := by
        intro t' c' hc'
        rcases TopicMgr.mem_clients_add.mp hc' with hc' | ⟨-, rfl⟩
        · exact h.links.subscribed t' c' hc'
        · exact h.named hown
      have ht := h.topicOwn hown (h.links.topics hnamed)
      obtain ⟨k, hk⟩ := Option.ne_none_iff_exists'.mp hn
      unfold Sess.subscribe
      rw [hm, hk]
      exact ht.deliverOwn hown (ht.links.modify ⟨rfl, rfl⟩ (Or.inl (ht.named hown)))

/-- The topic loop of another client's SUBSCRIBE. -/
theorem subLoopOther {ts : List ByteStr} (hs : SubLoop c ts s ls s') (hown : l.owner ≠ some c)
    (hn : Named cs c) (h : Tracked id l [] cs s) : Tracked id (ls.foldl (Ledger.note id) l) [] cs s' := by
  have hset : ∀ {s : Sess} {t : ByteStr}, Tracked id l [] cs s → Tracked id l [] cs (s.subscribe t c) := by
    intro s t h
    have hlinks := h.links.subscribe hn t
    have ht := h.topicOther (t := t) hown (h.links.topics fun t' c' hc' => ?_)
    · unfold Sess.subscribe at hlinks ⊢
      split
      · rename_i hm hk
        rw [hm, hk] at hlinks
        exact ht.modifyOther hlinks hown rfl
      · exact ht
    · rcases TopicMgr.mem_clients_add.mp hc' with hc' | ⟨-, rfl⟩
      · exact h.links.subscribed t' c' hc'
      · exact hn
  induction hs with
  | nil => exact h
  | quiet _ _ ih => exact ih (hset h)
  | @retained s s₁ s' t ts m n ls ls' _ _ hsend _ ih =>
      have hnote : (.retained c t m n :: (ls ++ ls')).foldl (Ledger.note id) l =
          ls'.foldl (Ledger.note id) l := by
        rw [List.foldl_cons, List.foldl_append]
        show ls'.foldl _ (ls.foldl _ (if l.owner = some c then l.address m else l)) = _
        rw [if_neg hown, note_send hsend]
      rw [hnote]
      exact ih (send (hset h) hsend)

end Tracked

/-! ## Operations -/

/-- A CONNECT of the client with `clean_session` set. -/
def Act.cleanConnect (clientId : ByteStr) : Act → Bool
  | .connect _ msg _ _ => decide (msg.clientId = clientId) && msg.cleanSession
  | _ => false

/-- The client id always connects with `clean_session` off. -/
def AlwaysPersistent (clientId : ByteStr) (log : List Act) : Prop := ∀ a ∈ log, a.cleanConnect clientId = false

instance (clientId : ByteStr) (log : List Act) : Decidable (AlwaysPersistent clientId log) :=
  inferInstanceAs (Decidable (∀ a ∈ log, _))

/-- `publish_all`, the publish of bridge mode. -/
def Act.isPublishAll : Act → Bool
  | .publishAll _ _ => true
  | _ => false

/-- The runs the simulation is about. -/
structure Plain (id : ByteStr) (log : List Act) : Prop where
  one : OneConnect log
  persistent : AlwaysPersistent id log
  local_ : ∀ a ∈ log, a.isPublishAll = false

theorem Plain.of_append {l l' : List Act} (h : Plain id (l ++ l')) : Plain id l :=
  ⟨h.one.of_append, fun a ha => h.persistent a (List.mem_append_left _ ha),
    fun a ha => h.local_ a (List.mem_append_left _ ha)⟩

namespace Tracked

/-- The session another client's CONNECT finds is not the client's. -/
theorem not_owner (h : Tracked id l [] cs s) {id' : ByteStr} (hne : id' ≠ id)
    (hf : s.registry.findClientContext id' = some c) : l.owner ≠ some c := by
  intro he
  have hkey := h.links.key id c (h.found.trans he)
  rw [h.links.key id' c hf] at hkey
  exact hne hkey

theorem note_connect {msg : Connect} {code : ConnAckCode} (h : msg.clientId = id → l.owner ≠ none) :
    l.note id (.connect k msg code c) = l := by
  show (if msg.clientId = id ∧ l.owner = none then _ else l) = l
  rw [if_neg]
  rintro ⟨hid, hn⟩
  exact h hid hn

theorem clean_of_plain {msg : Connect} {code : ConnAckCode} (pre : List Act)
    (hp : Plain id (log ++ (pre ++ [.connect k msg code c]))) (hid : msg.clientId = id) :
    msg.cleanSession = false := by
  have hfalse := hp.persistent (.connect k msg code c) (by simp)
  unfold Act.cleanConnect at hfalse
  simpa [hid] using hfalse

theorem puback (h : Tracked id l [] cs s) (k : ConnId) (idOf : MbufId → Nat) {msgId : Nat}
    (hl : Links cs (s.modifyContext c (·.ackMsg idOf msgId))) :
    Tracked id (l.note id (.puback k c msgId ((s.ctxs c).sendMsgQueue.head?.map idOf))) [] cs
      (s.modifyContext c (·.ackMsg idOf msgId)) := by
  -- `ackMsg` changes the queue and nothing else
  have hsame : ((s.ctxs c).ackMsg idOf msgId).clientId = (s.ctxs c).clientId ∧
      ((s.ctxs c).ackMsg idOf msgId).mqttConnection = (s.ctxs c).mqttConnection ∧
      ((s.ctxs c).ackMsg idOf msgId).cleanSession = (s.ctxs c).cleanSession := by
    unfold ClientContext.ackMsg
    split <;> exact ⟨rfl, rfl, rfl⟩
  by_cases hown : l.owner = some c
  · have hq := h.queue c hown
    have hmine : ∀ k c', (s.modifyContext c (·.ackMsg idOf msgId)).contextOf k = some c' →
        ((s.modifyContext c (·.ackMsg idOf msgId)).ctxs c').clientId = id → l.owner = some c' := by
      intro k c' hk hc'
      refine h.mine k c' hk ?_
      rw [Sess.modifyContext_ctxs] at hc'
      by_cases he : c' = c
      · subst he
        rwa [if_pos rfl, hsame.1] at hc'
      · rwa [if_neg he] at hc'
    have hpers : ∀ c', l.owner = some c' →
        ((s.modifyContext c (·.ackMsg idOf msgId)).ctxs c').mqttConnection ≠ none →
          ((s.modifyContext c (·.ackMsg idOf msgId)).ctxs c').cleanSession = false := by
      intro c' hc'
      rw [hown] at hc'
      cases hc'
      rw [Sess.modifyContext_ctxs, if_pos rfl, hsame.2.1, hsame.2.2]
      exact h.persistent c hown
    have hnote : l.note id (.puback k c msgId ((s.ctxs c).sendMsgQueue.head?.map idOf)) =
        if ((s.ctxs c).acked idOf msgId).isSome then { l with removed := l.removed + 1 } else l := by
      show (if l.owner = some c ∧ _ then _ else l) = _
      unfold ClientContext.acked
      cases (s.ctxs c).sendMsgQueue with
      | nil => simp
      | cons m ms =>
          by_cases hm : idOf m % 65536 = msgId
          · simp [hown, hm]
          · simp [hm]
    rw [hnote]
    cases hack : ((s.ctxs c).acked idOf msgId).isSome with
    | false =>
        refine ⟨hl, h.found, hmine, hpers, h.topics, ?_, h.idle, h.bound⟩
        intro c' hc'
        have hc'' : l.owner = some c' := hc'
        rw [hown] at hc''
        cases hc''
        rw [Sess.modifyContext_ctxs, if_pos rfl]
        unfold ClientContext.ackMsg
        rw [hack]
        exact hq
    | true =>
        -- an acknowledged message was pending, so the ledger is not used up
        have hpos : l.removed < l.addressed.length := by
          by_contra hle
          unfold Ledger.pending at hq
          rw [List.drop_eq_nil_of_le (Nat.le_of_not_lt hle)] at hq
          unfold ClientContext.acked at hack
          rw [hq] at hack
          cases hack
        refine ⟨hl, h.found, hmine, hpers, h.topics, ?_, ?_, hpos⟩
        · intro c' hc'
          have hc'' : l.owner = some c' := hc'
          rw [hown] at hc''
          cases hc''
          rw [Sess.modifyContext_ctxs, if_pos rfl]
          unfold ClientContext.ackMsg
          rw [hack]
          show (s.ctxs c).sendMsgQueue.tail = l.addressed.drop (l.removed + 1)
          rw [hq, ← List.tail_drop]
          rfl
        · intro hn
          have hn' : l.owner = none := hn
          rw [hown] at hn'
          cases hn'
  · -- the session of another name: the ledger does not note it
    have hnote : l.note id (.puback k c msgId ((s.ctxs c).sendMsgQueue.head?.map idOf)) = l := by
      show (if l.owner = some c ∧ _ then _ else l) = _
      rw [if_neg fun hx => hown hx.1]
    rw [hnote]
    exact h.modifyOther hl hown hsame.1

theorem unsubscribe (h : Tracked id l [] cs s) (k : ConnId) (listed : Bool) (hl : Links cs (s.unsubscribe t c)) :
    Tracked id (l.note id (.unsubscribe k c t listed)) [] cs (s.unsubscribe t c) := by
  by_cases hown : l.owner = some c
  · have hnote : l.note id (.unsubscribe k c t listed) = { l with topics := l.topics.filter (· ≠ t) } := by
      show (if l.owner = some c then _ else l) = _
      rw [if_pos hown]
    rw [hnote]
    refine ⟨hl, h.found, h.mine, h.persistent, ?_, h.queue, ?_, h.bound⟩
    · intro c' hc' t'
      have hc'' : l.owner = some c' := hc'
      have htop := h.topics c' hc'' t'
      rw [hown] at hc''
      cases hc''
      show (c ∈ (s.topicMgr.delClientContext t c).clients t' ∨ t' ∈ []) ↔ t' ∈ l.topics.filter (· ≠ t)
      rw [TopicMgr.mem_clients_del, List.mem_filter, ← htop]
      simp
    · intro hn
      have hn' : l.owner = none := hn
      rw [hown] at hn'
      cases hn'
  · have hnote : l.note id (.unsubscribe k c t listed) = l := by
      show (if l.owner = some c then _ else l) = _
      rw [if_neg hown]
    rw [hnote]
    refine h.frame hl rfl h.mine (fun c' hc' => ⟨rfl, h.persistent c' hc'⟩) ?_
    intro c' hc' t'
    show c' ∈ (s.topicMgr.delClientContext t c).clients t' ↔ _
    rw [TopicMgr.mem_clients_del]
    constructor
    · exact fun hx => hx.1
    · intro hx
      refine ⟨hx, ?_⟩
      rintro ⟨-, rfl⟩
      exact hown hc'

theorem atom (hne : id ≠ []) (hp : Plain id (log ++ ls)) (h : Tracked id l [] (connects log) s)
    (ha : Atom s ls s') : Tracked id (ls.foldl (Ledger.note id) l) [] (connects (log ++ ls)) s' := by
  have hl := h.links.atom hp.one ha
  cases ha with
  | accept =>
      refine h.frame hl rfl ?_ (fun c hc => ⟨rfl, h.persistent c hc⟩) (fun _ _ _ => Iff.rfl)
      intro k c hk hc
      refine h.mine k c ?_ hc
      unfold Sess.contextOf at hk ⊢
      rw [Sess.accept_conns] at hk
      split at hk
      · cases hk
      · exact hk
  | context halive hc =>
      rw [connects_quiet rfl] at hl ⊢
      exact h.newContext hne halive hc hl
  | @resume k c msg code _ halive hf _ =>
      have hown : msg.clientId = id → l.owner = some c := fun hid => h.found.symm.trans (hid ▸ hf)
      rw [List.foldl_cons, note_connect fun hid => by rw [hown hid]; simp]
      refine h.resume hl (fun hid => ⟨hown hid, ?_⟩) (fun hid => h.not_owner hid hf)
      exact clean_of_plain [] hp hid
  | @takeover k last c c' msg code busy _ hf hlast hc halive =>
      have hown : msg.clientId = id → l.owner = some c := fun hid => h.found.symm.trans (hid ▸ hf)
      have hnote : [.close last c' .takeover (s.ctxs c').cleanSession busy, .connect k msg code c].foldl
          (Ledger.note id) l = l := by
        show l.note id (.connect k msg code c) = l
        exact note_connect fun hid => by rw [hown hid]; simp
      rw [hnote]
      refine (h.close hc).resume hl (fun hid => ⟨hown hid, ?_⟩) (fun hid => h.not_owner hid hf)
      exact clean_of_plain [.close last c' .takeover _ busy] hp hid
  | @register k c msg code _ hc hf =>
      have hk := not_connected_of_one hp.one
      by_cases hid : msg.clientId = id
      · rw [hid] at hf
        have hnote : [.connect k msg code c].foldl (Ledger.note id) l = { l with owner := some c } := by
          show (if msg.clientId = id ∧ l.owner = none then _ else l) = _
          rw [if_pos ⟨hid, h.found.symm.trans hf⟩]
        rw [hnote]
        exact h.registerOwn hl hk hc hid (clean_of_plain [] hp hid) hf
      · rw [List.foldl_cons, note_connect fun hx => absurd hx hid]
        exact h.registerOther hl hk hc hid hf
  | @unsubscribe k c t hc =>
      rw [connects_quiet rfl] at hl ⊢
      exact h.unsubscribe k (decide (t ∈ (s.ctxs c).topicNames)) hl
  | topics hmgr =>
      refine h.frame hl rfl h.mine (fun c hc => ⟨rfl, h.persistent c hc⟩) ?_
      intro c _ t
      show c ∈ TopicMgr.clients _ t ↔ _
      rw [hmgr]
  | @puback k c n idOf hc =>
      rw [connects_quiet rfl] at hl ⊢
      exact h.puback k idOf hl
  | disconnect hc =>
      rw [connects_quiet rfl] at hl ⊢
      exact h.modifyOwn hl fun _ => ⟨rfl, rfl, rfl, rfl⟩
  | put _ =>
      rw [connects_quiet rfl]
      exact h
  | close hc =>
      rw [connects_quiet rfl]
      exact h.close hc

/-- The client's own SUBSCRIBE, and that of another one. -/
theorem subscribe {topics : List Topic} {puts : List Act} (h : Tracked id l [] cs s)
    (hc : s.contextOf k = some c) (hst : (s.ctxs c).clientStatus = .connected)
    (hp : ∀ a ∈ puts, ∃ m r, a = .put k m r)
    (hs : SubLoop c (topics.map Topic.topicName) (s.modifyContext c (·.addSubcribeTopics topics)) ls s') :
    Tracked id ((.subscribe k c topics :: (puts ++ ls)).foldl (Ledger.note id) l) [] cs s' := by
  have hn := h.links.named_of_status hc hst
  have hlist : Tracked id l [] cs (s.modifyContext c (·.addSubcribeTopics topics)) :=
    h.modifyOwn (h.links.modify ⟨rfl, rfl⟩ (Or.inl hn)) fun _ => ⟨rfl, rfl, rfl, rfl⟩
  rw [List.foldl_cons, List.foldl_append, note_puts hp]
  by_cases hown : l.owner = some c
  · have hnote : l.note id (.subscribe k c topics) =
        { l with topics := topics.map Topic.topicName ++ l.topics } := by
      show (if l.owner = some c then _ else l) = _
      rw [if_pos hown]
    rw [hnote]
    refine subLoopOwn hs hown ⟨hlist.links, hlist.found, hlist.mine, hlist.persistent, ?_, hlist.queue, ?_,
      hlist.bound⟩
    · intro c' hc' t
      have htop := hlist.topics c' hc' t
      rw [List.mem_append, ← htop]
      simp only [List.not_mem_nil, or_false]
      exact or_comm
    · intro hnone
      have hnone' : l.owner = none := hnone
      rw [hown] at hnone'
      cases hnone'
  · have hnote : l.note id (.subscribe k c topics) = l := by
      show (if l.owner = some c then _ else l) = _
      rw [if_neg hown]
    rw [hnote]
    exact subLoopOther hs hown hn hlist

/-- A PUBLISH addresses its message to the client exactly when the client is subscribed. -/
theorem publish {mgr : TopicMgr} {m : MbufId} {n : Nat} {visit : List CtxId} (h : Tracked id l [] cs s)
    (hmgr : ∀ t, mgr.clients t = s.topicMgr.clients t) (hperm : visit.Perm (s.topicMgr.clients t).toList)
    (hf : FanOut t m visit { s with topicMgr := mgr } ls s') :
    Tracked id ((.publish t m n :: ls).foldl (Ledger.note id) l) [] cs s' := by
  have hmgr' : Tracked id l [] cs { s with topicMgr := mgr } := by
    refine h.frame (h.links.topics fun t c hc => ?_) rfl h.mine (fun c hc => ⟨rfl, h.persistent c hc⟩) ?_
    · rw [hmgr] at hc
      exact h.links.subscribed t c hc
    · intro c _ t
      show c ∈ mgr.clients t ↔ _
      rw [hmgr]
  have hfan := fanOut hf (hperm.nodup_iff.mpr (s.topicMgr.clients t).nodup) hmgr'
  rw [List.foldl_cons, note_fanOut hf]
  have hnote : l.note id (.publish t m n) =
      if (∃ c ∈ visit, l.owner = some c) ∧ t ∈ l.topics then l.address m else l := by
    show (if t ∈ l.topics then l.address m else l) = _
    by_cases ht : t ∈ l.topics
    · cases hown : l.owner with
      | none =>
          rw [(h.idle hown).1] at ht
          cases ht
      | some c =>
          have hin : c ∈ visit := by
            rw [hperm.mem_iff]
            exact ((h.topics c hown t).mpr ht).resolve_right (by simp)
          rw [if_pos ht, if_pos ⟨⟨c, hin, rfl⟩, ht⟩]
    · rw [if_neg ht, if_neg fun hx => ht hx.2]
  rw [hnote]
  exact hfan

theorem step (hne : id ≠ []) (hp : Plain id (log ++ ls)) (h : Tracked id l [] (connects log) s)
    (hs : Step s ls s') : Tracked id (ls.foldl (Ledger.note id) l) [] (connects (log ++ ls)) s' := by
  cases hs with
  | atom ha => exact h.atom hne hp ha
  | subscribe hc hst hputs hloop _ =>
      rw [connects_quiet (connects_subscribe hputs hloop)]
      exact h.subscribe hc hst hputs hloop
  | publish hmgr hperm hf =>
      rw [connects_quiet (connects_cons_quiet rfl (connects_fanOut hf))]
      exact h.publish hmgr hperm hf
  | @publishAll _ m n ts ls hf =>
      have hfalse := hp.local_ (.publishAll m n) (by simp)
      cases hfalse

end Tracked

/-! ## Runs -/

/-- Outside bridge mode there is no `publish_all`. -/
theorem Runs.local_ {b₀ : Broker} (hs : Started env mp b₀) (hbridge : env.mqttBridge = false)
    (h : Runs env mp b₀ m) : ∀ a ∈ m.broker.log, a.isPublishAll = false := by
  induction h with
  | start =>
      rw [show ({ broker := b₀, batch := [] } : Machine).broker.log = [] from hs.tables.2]
      exact fun _ ha => by cases ha
  | step _ _ hst ih =>
      obtain ⟨o, B, ls, hlog, -, -, hout⟩ := Machine.step_worked hst
      rw [hlog]
      intro a ha
      rcases List.mem_append.mp ha with ha | ha
      · exact ih a ha
      · cases a with
        | publishAll n id =>
            have htrue : env.mqttBridge = true := hout _ ha
            rw [hbridge] at htrue
            cases htrue
        | _ => rfl

/-- The simulation holds in every state of a run. -/
theorem Runs.tracked {b₀ : Broker} (hs : Started env mp b₀) (hne : id ≠ []) (h : Runs env mp b₀ m) :
    Plain id m.broker.log →
      Tracked id (ledger id b₀.sess m.broker.log) [] (connects m.broker.log) m.broker.sess := by
  induction h with
  | start =>
      intro _
      obtain ⟨⟨n, hr⟩, hlog⟩ := hs.tables
      show Tracked id (ledger id b₀.sess b₀.log) [] (connects b₀.log) b₀.sess
      rw [hlog]
      exact Tracked.restored hr
  | step _ _ hst ih =>
      obtain ⟨o, B, ls, hlog, -, hsteps, -⟩ := Machine.step_worked hst
      rw [hlog]
      intro hp
      exact Trace.invariant (I := fun log s => Tracked id (ledger id b₀.sess log) [] (connects log) s)
        (fun _ _ => Plain.of_append)
        (fun log s ls s' hp h hst => by
          rw [ledger_append]
          exact h.step hne hp hst)
        hsteps _ hp (ih hp.of_append)

/-! ## CONNECT -/

/-- The message a label puts on a connection. -/
def Act.put? : Act → Option (ConnId × MbufId)
  | .put k m _ => some (k, m)
  | _ => none

/-- A queue offered to a connection, in order, up to a `put` that returns `-1`. -/
inductive Offered (k : ConnId) : List MbufId → List Act → Prop where
  | done : Offered k [] []
  | next {m : MbufId} {ms : List MbufId} {r : Int} {ls : List Act} (hr : r ≠ -1) (h : Offered k ms ls) :
      Offered k (m :: ms) (.put k m r :: ls)
  | stop {m : MbufId} {ms : List MbufId} {ls : List Act} (h : ∀ a ∈ ls, a.put? = none) :
      Offered k (m :: ms) (.put k m (-1) :: ls)

/-- What an accepted CONNECT does: after the session is bound it puts the CONNACK, and then the pending queue
    of the session. -/
def Served (env : Env) (k : ConnId) (msg : Connect) (b b' : Broker) : Prop :=
  ∃ pre c ack r ls, b'.log = b.log ++ (pre ++ .put k ack r :: ls) ∧
    .connect k msg .accepted c ∈ pre ∧ (∀ a ∈ pre, a.put? = none) ∧
    (∃ b₁ b₂, b₁.log = b.log ++ pre ∧ some (b₁.bufs ack).unread = encodeConnAck 32 .accepted ∧
      put env k ack b₁ = .ok (r, b₂)) ∧
    Offered k (b'.sess.ctxs c).sendMsgQueue ls

section Connect

variable {b b' : Broker}

/-- A `put` leaves the pending queues alone, and is the only one of its labels; where it closes the connection
    it returns `-1`. -/
theorem put_log {n : MbufId} {r : Int} (h : put env k n b = .ok (r, b')) :
    (∀ c, (b'.sess.ctxs c).sendMsgQueue = (b.sess.ctxs c).sendMsgQueue) ∧
      ∃ tail, b'.log = b.log ++ .put k n r :: tail ∧ (∀ a ∈ tail, a.put? = none) ∧
        (tail = [] ∨ r = -1) := by
  unfold put at h
  rw [touch_bind_ok, get_bind, set_bind, bind_ok] at h
  obtain ⟨-, _, b₁, hc, h⟩ := h
  cases h
  unfold closeOnError at hc
  split at hc
  · rename_i hclosing
    obtain ⟨c, -, hsess, hlog, -⟩ := handleClose_ok hc
    refine ⟨fun c' => ?_, [.close k c .lost (b.sess.ctxs c).cleanSession (b.isBusy k)], ?_, ?_,
      Or.inr (EventHandler.put_closing hclosing)⟩
    · rw [hsess, Sess.close_ctxs]
      split
      · rename_i he
        rw [he]
        rfl
      · rfl
    · rw [hlog, List.append_assoc]
      rfl
    · intro a ha
      cases List.mem_singleton.mp ha
      rfl
  · cases hc
    exact ⟨fun _ => rfl, [], rfl, (fun _ ha => by cases ha), Or.inl rfl⟩

/-- The offline loop. -/
theorem sendOffline_ok {res : Int} (ms : List MbufId) : ∀ (r : Int) (b : Broker),
    sendOffline env k r ms b = .ok (res, b') →
      (∀ c, (b'.sess.ctxs c).sendMsgQueue = (b.sess.ctxs c).sendMsgQueue) ∧
        ∃ ls, b'.log = b.log ++ ls ∧ Offered k ms ls := by
  induction ms with
  | nil =>
      intro r b h
      cases h
      exact ⟨fun _ => rfl, [], (List.append_nil _).symm, .done⟩
  | cons n ms ih =>
      intro r b h
      unfold sendOffline at h
      rw [bind_ok] at h
      obtain ⟨r', b₁, hput, h⟩ := h
      obtain ⟨hq, tail, hlog, htail, hor⟩ := put_log hput
      split at h
      · rename_i hr
        cases h
        subst hr
        exact ⟨hq, _, hlog, .stop htail⟩
      · rename_i hr
        obtain rfl := hor.resolve_right hr
        obtain ⟨hq', ls, hlog', hoff⟩ := ih r' b₁ h
        refine ⟨fun c => (hq' c).trans (hq c), _, ?_, .next hr hoff⟩
        rw [hlog', hlog, List.append_assoc]
        rfl

/-- Binding a session ends with the CONNECT label, without a `put` before it. -/
theorem bindSession_ok {msg : Connect} {u : Unit} (h : bindSession env k msg b = .ok (u, b')) :
    ∃ pre c, b'.log = b.log ++ pre ∧ .connect k msg (connAckCode msg) c ∈ pre ∧
      (∀ a ∈ pre, a.put? = none) ∧ b'.sess.contextOf k = some c := by
  unfold bindSession at h
  rw [get_bind] at h
  cases hf : b.sess.registry.findClientContext msg.clientId with
  | none =>
      simp only [hf] at h
      rw [bind_ok] at h
      obtain ⟨c, b₁, hc, h⟩ := h
      obtain ⟨hctx, hb⟩ := clientContext_ok hc
      cases h
      rcases hb with rfl | ⟨-, -, rfl⟩
      · exact ⟨[.connect k msg (connAckCode msg) c], c, rfl, by simp, by simp [Act.put?], hctx⟩
      · refine ⟨[.context k, .connect k msg (connAckCode msg) c], c, ?_, by simp, by simp [Act.put?], hctx⟩
        simp [Broker.act]
  | some c =>
      simp only [hf] at h
      rw [bind_ok] at h
      obtain ⟨_, b₁, hc, h⟩ := h
      rw [touch_bind_ok] at h
      obtain ⟨-, h⟩ := h
      cases h
      have hctx : (b₁.sess.resume k c msg).contextOf k = some c := by
        rw [Sess.resume_contextOf, if_pos rfl]
      unfold closeLast at hc
      cases hl : (b.sess.ctxs c).mqttConnection with
      | none =>
          rw [hl] at hc
          cases hc
          exact ⟨[.connect k msg (connAckCode msg) c], c, rfl, by simp, by simp [Act.put?], hctx⟩
      | some last =>
          rw [hl] at hc
          obtain ⟨c', -, -, hlog, -⟩ := handleClose_ok hc
          refine ⟨[.close last c' .takeover (b.sess.ctxs c').cleanSession (b.isBusy last),
            .connect k msg (connAckCode msg) c], c, ?_, by simp, by simp [Act.put?], hctx⟩
          show b₁.log ++ _ = _
          rw [hlog, List.append_assoc]
          rfl

/-- `client_context()` of a connection that has a context. -/
theorem clientContext_same {c c' : CtxId} (hc : b.sess.contextOf k = some c)
    (h : clientContext env k b = .ok (c', b')) : c' = c ∧ b' = b ∧ b.sess.Alive k := by
  obtain ⟨hctx, hb⟩ := clientContext_ok h
  rcases hb with rfl | ⟨hnone, -⟩
  · rw [hc] at hctx
    cases hctx
    exact ⟨rfl, rfl, Sess.alive_of_contextOf hc⟩
  · rw [hc] at hnone
    cases hnone

/-- The CONNACK as a reply. -/
theorem reply_connack {r : Int} (h : reply env k 32 (encodeConnAck 32 .accepted) b = .ok (r, b')) :
    ∃ ack b₀, b₀.log = b.log ∧ b₀.sess = b.sess ∧
      some (b₀.bufs ack).unread = encodeConnAck 32 .accepted ∧ put env k ack b₀ = .ok (r, b') := by
  unfold reply at h
  rw [get_bind] at h
  cases he : encodeConnAck 32 .accepted with
  | none => cases he
  | some bytes =>
      rw [he] at h
      simp only at h
      rw [bind_ok] at h
      obtain ⟨ack, b₀, hn, hput⟩ := h
      obtain ⟨hack, hb⟩ := newBuf_ok hn
      rw [hack] at hput
      refine ⟨b.nextBuf, b₀, ?_, ?_, ?_, hput⟩
      · rw [hb]
      · rw [hb]
      · rw [hb]
        simp only [Function.update_self]
        have hlen : bytes.length ≤ 32 := by
          cases he
          decide
        rw [Buf.make_unread hlen (by decide)]

/-- **An accepted CONNECT** that returns has put the CONNACK first and then offered the pending queue. -/
theorem handleConnectMsg_served {buf : ByteStr} {msg : Connect} {res : Int}
    (hd : Connect.decode.decode buf = some msg) (hacc : connAckCode msg = .accepted)
    (h : handleConnectMsg env k buf b = .ok (res, b')) : Served env k msg b b' := by
  have hid : msg.clientId ≠ [] := by
    intro he
    unfold connAckCode at hacc
    rw [if_pos he] at hacc
    cases hacc
  unfold handleConnectMsg openSession at h
  rw [hd] at h
  simp only [hacc, if_neg hid, bind_assoc] at h
  rw [bind_ok] at h
  obtain ⟨_, b₁, hbind, h⟩ := h
  obtain ⟨pre, c, hlog₁, hin, hpre, hctx⟩ := bindSession_ok hbind
  rw [hacc] at hin
  -- the time stamps change nothing that matters here
  unfold stampConnect at h
  simp only [bind_assoc] at h
  rw [bind_ok] at h
  obtain ⟨c₁, b₁', hcc, h⟩ := h
  obtain ⟨rfl, rfl, -⟩ := clientContext_same hctx hcc
  rw [modify_bind, bind_ok] at h
  obtain ⟨r, b₂, hreply, h⟩ := h
  obtain ⟨ack, b₀, hlog₀, hsess₀, hack, hput⟩ := reply_connack hreply
  obtain ⟨-, -, hres⟩ := put_ok hput
  rw [bind_ok] at h
  obtain ⟨c₂, b₃, hcc', h⟩ := h
  have ha₂ : b₂.sess.Alive k := by
    unfold clientContext at hcc'
    rw [touch_bind_ok] at hcc'
    exact hcc'.1
  rcases hres with ⟨hsess₂, hlog₂⟩ | ⟨c', -, hsess₂, -⟩
  · have hctx₂ : b₂.sess.contextOf k = some c₁ := by
      rw [hsess₂, hsess₀]
      exact hctx
    obtain ⟨rfl, rfl, -⟩ := clientContext_same hctx₂ hcc'
    rw [get_bind] at h
    obtain ⟨hq, ls, hlog, hoff⟩ := sendOffline_ok _ r b₃ h
    refine ⟨pre, c₂, ack, r, ls, ?_, hin, hpre, ⟨b₀, b₃, hlog₀.trans hlog₁, hack, hput⟩, ?_⟩
    · rw [hlog, hlog₂, hlog₀]
      show (b₁'.log ++ _) ++ _ = _
      rw [hlog₁]
      simp
    · rw [hq]
      exact hoff
  · rw [hsess₂] at ha₂
    exact absurd rfl (Sess.alive_close.mp ha₂).1

end Connect

/-! ## The queue and the ledger -/

/-- Outside bridge mode, and with one CONNECT per connection, a client id that always connects with
    `clean_session` off keeps its session; the pending queue of that is what was addressed to the client
    without the messages it acknowledged one by one, oldest first; and an accepted CONNECT that returns offers
    the pending queue right after the CONNACK. -/
theorem runs_pending {b₀ : Broker} (hs : Started env mp b₀) (h : Runs env mp b₀ m)
    (hbridge : env.mqttBridge = false) (hone : OneConnect m.broker.log) {clientId : ByteStr}
    (hne : clientId ≠ []) (hp : AlwaysPersistent clientId m.broker.log) :
    (m.broker.sess.registry.findClientContext clientId = (ledger clientId b₀.sess m.broker.log).owner ∧
      (∀ c, (ledger clientId b₀.sess m.broker.log).owner = some c →
        (m.broker.sess.ctxs c).sendMsgQueue = (ledger clientId b₀.sess m.broker.log).pending) ∧
      (ledger clientId b₀.sess m.broker.log).removed ≤
        (ledger clientId b₀.sess m.broker.log).addressed.length) ∧
    ∀ (k : ConnId) (buf : ByteStr) (msg : Connect) (b b' : Broker) (res : Int),
      Connect.decode.decode buf = some msg → connAckCode msg = .accepted →
        handleConnectMsg env k buf b = .ok (res, b') → Served env k msg b b' := by
  have ht := h.tracked hs hne ⟨hone, hp, h.local_ hs hbridge⟩
  refine ⟨⟨ht.found, ht.queue, ht.bound⟩, ?_⟩
  intro k buf msg b b' res hd hacc hh
  exact handleConnectMsg_served hd hacc hh

/-- A subscriber goes offline between two messages, comes back and acknowledges the first one. -/
theorem runs_pending_two : ∃ m : Machine, Runs Env.calm packing {} m ∧ OneConnect m.broker.log ∧
    AlwaysPersistent [65] m.broker.log ∧
    (ledger [65] ({} : Broker).sess m.broker.log).addressed.length = 2 ∧
    (ledger [65] ({} : Broker).sess m.broker.log).removed = 1 ∧
    (ledger [65] ({} : Broker).sess m.broker.log).owner = some (.conn 0) ∧
    (m.broker.sess.ctxs (.conn 0)).sendMsgQueue = (ledger [65] ({} : Broker).sess m.broker.log).pending := by
  have hrun : (Machine.initial.play Env.calm packing
      (Move.alone 1 .accept ++ Move.alone 2 .accept ++ Move.alone 3 (.input 0 (connectPacket 65 0)) ++
        Move.alone 4 (.input 1 (connectPacket 66 2)) ++ Move.alone 5 (.input 0 (subscribePacket 116)) ++
        Move.alone 6 (.input 1 (publishPacket 116 1)) ++ Move.alone 7 (.hangup 0) ++
        Move.alone 8 (.input 1 (publishPacket 116 2)) ++ Move.alone 9 .accept ++
        Move.alone 10 (.input 2 (connectPacket 65 0)) ++ Move.alone 11 (.input 2 (pubackPacket 1)))).any
      (fun m => decide (OneConnect m.broker.log ∧ AlwaysPersistent [65] m.broker.log ∧
        (ledger [65] ({} : Broker).sess m.broker.log).addressed.length = 2 ∧
        (ledger [65] ({} : Broker).sess m.broker.log).removed = 1 ∧
        (ledger [65] ({} : Broker).sess m.broker.log).owner = some (.conn 0))) = true := by
    decide +kernel
  obtain ⟨m, hm, hone, hp, hlen, hrem, hown⟩ := Machine.exists_runs hrun
  have hq := (runs_pending .empty hm rfl hone (by decide) hp).1.2.1
  exact ⟨m, hm, hone, hp, hlen, hrem, hown, hq _ hown⟩

end MqttServer
