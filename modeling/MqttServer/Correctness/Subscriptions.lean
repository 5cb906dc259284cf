import MqttServer.Correctness.Restore
import MqttServer.Server.Packing

/-!
# `Correctness.Subscriptions` — topic lists and subscriber sets

A subscription is stored twice: in the topic list of its context, which is persisted, and in the subscriber set
of the topic, which `publish` reads. A context of the registry agrees with the sets about its topics, unless it
gave one up: UNSUBSCRIBE takes the context out of the set and leaves the list as it is.

The invariant is kept by whole operations only. A SUBSCRIBE extends the list first and the sets one by one, so
inside of it the topics still to do are excused.
-/

namespace MqttServer

open Lib Exec

variable {env : Env} {mp : MsgPack} {m : Machine} {cs : List (ConnId × CtxId)} {s s' : Sess} {k : ConnId}
  {c c' : CtxId} {t : ByteStr}

/-! ## Topic lists -/

/-- `add_subcribe_topics` adds the names it is given. -/
theorem mem_topicNames_add (x : ClientContext) (topics : List Topic) :
    t ∈ (x.addSubcribeTopics topics).topicNames ↔ t ∈ x.topicNames ∨ t ∈ topics.map Topic.topicName := by
  show t ∈ (List.foldl _ x.subcribeTopics topics).map _ ↔ t ∈ x.subcribeTopics.map _ ∨ _
  generalize x.subcribeTopics = ts
  induction topics generalizing ts with
  | nil => simp
  | cons topic topics ih =>
      rw [List.foldl_cons, ih, List.map_cons, List.mem_cons]
      split
      · rename_i hin
        constructor
        · rintro (h | h)
          · exact Or.inl h
          · exact Or.inr (Or.inr h)
        · rintro (h | rfl | h)
          · exact Or.inl h
          · exact Or.inl (List.mem_map_of_mem hin)
          · exact Or.inr h
      · rw [List.map_append, List.mem_append, or_assoc]
        simp

theorem close_topicNames : ((s.close k c).ctxs c').topicNames = (s.ctxs c').topicNames := by
  rw [Sess.close_ctxs]
  by_cases he : c' = c
  · subst he
    rw [if_pos rfl]
    rfl
  · rw [if_neg he]

theorem subscribe_topicNames : ((s.subscribe t c).ctxs c').topicNames = (s.ctxs c').topicNames := by
  obtain ⟨q, hq⟩ := Sess.subscribe_ctxs s t c c'
  rw [hq]
  rfl

theorem send_topicNames {m : MbufId} {ls : List Act} (hs : Send c m s ls s') :
    (s'.ctxs c').topicNames = (s.ctxs c').topicNames := by
  cases hs with
  | offline _ => rfl
  | sent _ _ => rfl
  | lost _ _ => exact close_topicNames

/-! ## The invariant -/

/-- Lists and sets agree, up to the subscriptions `todo` that are in a list and not yet in their set. -/
structure Agrees (cs : List (ConnId × CtxId)) (todo : CtxId → ByteStr → Prop) (s : Sess) : Prop where
  links : Links cs s
  listed : ∀ c t, c ∈ s.topicMgr.clients t → t ∈ (s.ctxs c).topicNames
  subscribed : ∀ c t, s.Registered c → t ∈ (s.ctxs c).topicNames → c ∈ s.topicMgr.clients t ∨ todo c t

/-- Nothing is left to do. -/
abbrev done : CtxId → ByteStr → Prop := fun _ _ => False

namespace Agrees

variable {todo : CtxId → ByteStr → Prop}

theorem restored {n : Nat} (h : Restored n s) : Agrees [] done s :=
  ⟨h.links, fun c t hc => (h.agree c t).mp hc, fun c t _ ht => Or.inl ((h.agree c t).mpr ht)⟩

/-- Steps that change neither registry nor sets nor lists. -/
theorem same (h : Agrees cs todo s) {cs' : List (ConnId × CtxId)} (hl : Links cs' s')
    (hreg : s'.registry = s.registry) (hset : ∀ t c, c ∈ s'.topicMgr.clients t ↔ c ∈ s.topicMgr.clients t)
    (hlist : ∀ c, (s'.ctxs c).topicNames = (s.ctxs c).topicNames) : Agrees cs' todo s' := by
  refine ⟨hl, ?_, ?_⟩
  · intro c t hc
    rw [hlist]
    exact h.listed c t ((hset t c).mp hc)
  · intro c t hr ht
    rw [hset]
    rw [hlist] at ht
    unfold Sess.Registered at hr
    rw [hreg] at hr
    exact h.subscribed c t hr ht

/-- A change of one context that keeps its list. -/
theorem modify (h : Agrees cs todo s) {f : ClientContext → ClientContext}
    (hl : Links cs (s.modifyContext c f))
    (hlist : (f (s.ctxs c)).subcribeTopics = (s.ctxs c).subcribeTopics) :
    Agrees cs todo (s.modifyContext c f) := by
  refine h.same hl rfl (fun _ _ => Iff.rfl) fun c' => ?_
  rw [Sess.modifyContext_ctxs]
  by_cases hc : c' = c
  · subst hc
    rw [if_pos rfl]
    unfold ClientContext.topicNames
    rw [hlist]
  · rw [if_neg hc]

/-- Closing: a clean session gives up every topic of its list, and its registry entry with them. -/
theorem close (h : Agrees cs todo s) (hc : s.contextOf k = some c) : Agrees cs todo (s.close k c) := by
  refine ⟨h.links.close hc, ?_, ?_⟩
  · intro c' t hc'
    rw [close_topicNames]
    exact h.listed c' t (Sess.mem_clients_close.mp hc').1
  · rintro c' t ⟨id, hf⟩ ht
    rw [close_topicNames] at ht
    by_cases hclean : (s.ctxs c).cleanSession = true
    · rw [Sess.close_registry, if_pos hclean] at hf
      unfold Registry.findClientContext Registry.delClientContext at hf
      have hid : id ≠ (s.ctxs c).clientId := by
        rintro rfl
        rw [AList.lookup_erase] at hf
        cases hf
      rw [AList.lookup_erase_ne hid] at hf
      have hne : c' ≠ c := by
        rintro rfl
        exact hid (h.links.key id c' hf).symm
      rw [Sess.mem_clients_close]
      rcases h.subscribed c' t ⟨id, hf⟩ ht with hin | htodo
      · exact Or.inl ⟨hin, fun hx => hne hx.2.2⟩
      · exact Or.inr htodo
    · rw [Sess.close_registry, if_neg hclean] at hf
      rw [Sess.mem_clients_close]
      rcases h.subscribed c' t ⟨id, hf⟩ ht with hin | htodo
      · exact Or.inl ⟨hin, fun hx => hclean hx.1⟩
      · exact Or.inr htodo

/-- One topic of a SUBSCRIBE is done. -/
theorem subscribe (h : Agrees cs (fun c' t' => todo c' t' ∨ (c' = c ∧ t' = t)) s) (hn : Named cs c)
    (ht : t ∈ (s.ctxs c).topicNames) : Agrees cs todo (s.subscribe t c) := by
  refine ⟨h.links.subscribe hn t, ?_, ?_⟩
  · intro c' t' hc'
    rw [Sess.subscribe_topicMgr, TopicMgr.mem_clients_add] at hc'
    rw [subscribe_topicNames]
    rcases hc' with hc' | ⟨rfl, rfl⟩
    · exact h.listed c' t' hc'
    · exact ht
  · rintro c' t' ⟨id, hf⟩ ht'
    rw [Sess.subscribe_registry] at hf
    rw [subscribe_topicNames] at ht'
    rw [Sess.subscribe_topicMgr, TopicMgr.mem_clients_add]
    rcases h.subscribed c' t' ⟨id, hf⟩ ht' with hin | htodo | ⟨rfl, rfl⟩
    · exact Or.inl (Or.inl hin)
    · exact Or.inr htodo
    · exact Or.inl (Or.inr ⟨rfl, rfl⟩)

theorem register {msg : Connect} (h : Agrees cs done s) (hk : ¬ Connected cs k) (hc : s.contextOf k = some c)
    (hf : s.registry.findClientContext msg.clientId = none) :
    Agrees (cs ++ [(k, c)]) done (s.register c msg) := by
  have hlist : ∀ c', ((s.register c msg).ctxs c').topicNames = (s.ctxs c').topicNames := by
    intro c'
    rw [Sess.register_ctxs]
    by_cases he : c' = c
    · subst he
      rw [if_pos rfl]
      rfl
    · rw [if_neg he]
  refine ⟨h.links.register hk hc hf, ?_, ?_⟩
  · intro c' t hc'
    rw [hlist]
    exact h.listed c' t hc'
  · rintro c' t ⟨id, hf'⟩ ht
    rw [hlist] at ht
    -- the context that becomes registered has no topics yet
    have hne : c' ≠ c := by
      rintro rfl
      obtain ⟨-, -, -, hnil, -⟩ := h.links.fresh k c' hk hc
      unfold ClientContext.topicNames at ht
      rw [hnil] at ht
      cases ht
    refine h.subscribed c' t ⟨id, ?_⟩ ht
    unfold Registry.findClientContext at hf
    unfold Sess.register Registry.addClientContext Registry.findClientContext at hf'
    simp only [hf] at hf'
    by_cases hid : id = msg.clientId
    · rw [hid, AList.lookup_insert] at hf'
      cases hf'
      exact absurd rfl hne
    · rwa [AList.lookup_insert_ne hid] at hf'

theorem resume {msg : Connect} (h : Agrees cs done s) (hl : Links (cs ++ [(k, c)]) (s.resume k c msg)) :
    Agrees (cs ++ [(k, c)]) done (s.resume k c msg) := by
  refine h.same hl rfl (fun _ _ => Iff.rfl) fun c' => ?_
  rw [Sess.resume_ctxs]
  by_cases hc : c' = c
  · subst hc
    rw [if_pos rfl]
    rfl
  · rw [if_neg hc]

end Agrees

/-! ## Operations -/

/-- An UNSUBSCRIBE that names a topic of the session's list. -/
def Act.givesUp : Act → Bool
  | .unsubscribe _ _ _ listed => listed
  | _ => false

/-- No session gave up a topic of its list. -/
def NoneGivenUp (log : List Act) : Prop := ∀ a ∈ log, a.givesUp = false

instance (log : List Act) : Decidable (NoneGivenUp log) := inferInstanceAs (Decidable (∀ a ∈ log, _))

theorem NoneGivenUp.of_append {l l' : List Act} (h : NoneGivenUp (l ++ l')) : NoneGivenUp l :=
  fun a ha => h a (List.mem_append_left _ ha)

namespace Agrees

variable {todo : CtxId → ByteStr → Prop} {log ls : List Act}

theorem atom (hone : OneConnect (log ++ ls)) (hup : NoneGivenUp (log ++ ls))
    (h : Agrees (connects log) done s) (ha : Atom s ls s') : Agrees (connects (log ++ ls)) done s' := by
  have hl := h.links.atom hone ha
  cases ha with
  | accept => exact h.same hl rfl (fun _ _ => Iff.rfl) (fun _ => rfl)
  | @context k clean halive hc =>
      have hnn : ¬ Named (connects log) (.conn k) := by
        intro hn
        obtain ⟨c, hc', -⟩ := h.links.bound k (h.links.creator k hn) halive
        rw [hc] at hc'
        cases hc'
      have hctx : ∀ c, Named (connects log) c → (s.newContext k clean).ctxs c = s.ctxs c := by
        intro c hn
        rw [Sess.newContext_ctxs, if_neg]
        rintro rfl
        exact hnn hn
      refine ⟨hl, ?_, ?_⟩
      · intro c t hc'
        rw [hctx c (h.links.subscribed t c hc')]
        exact h.listed c t hc'
      · rintro c t ⟨id, hf⟩ ht
        rw [hctx c (h.links.registered id c hf)] at ht
        exact h.subscribed c t ⟨id, hf⟩ ht
  | resume _ halive hf hn =>
      rw [connects_append] at hl ⊢
      exact h.resume hl
  | takeover _ hf hlast hc halive =>
      rw [connects_append] at hl ⊢
      exact (h.close hc).resume hl
  | register _ hc hf =>
      rw [connects_append]
      exact h.register (not_connected_of_one hone) hc hf
  | @unsubscribe k c t hc =>
      rw [connects_quiet rfl] at hl ⊢
      have hnot : t ∉ (s.ctxs c).topicNames := by
        have hfalse := hup (.unsubscribe k c t (decide (t ∈ (s.ctxs c).topicNames))) (by simp)
        exact of_decide_eq_false hfalse
      refine ⟨hl, ?_, ?_⟩
      · intro c' t' hc'
        exact h.listed c' t' (TopicMgr.mem_clients_del.mp hc').1
      · intro c' t' hr ht'
        refine Or.inl (TopicMgr.mem_clients_del.mpr ⟨(h.subscribed c' t' hr ht').resolve_right id, ?_⟩)
        rintro ⟨rfl, rfl⟩
        exact hnot ht'
  | topics hmgr =>
      refine h.same hl rfl (fun t c => ?_) (fun _ => rfl)
      show c ∈ TopicMgr.clients _ t ↔ _
      rw [hmgr]
  | @puback k c id idOf hc =>
      rw [connects_quiet rfl] at hl ⊢
      refine h.modify hl ?_
      unfold ClientContext.ackMsg
      split <;> rfl
  | disconnect hc =>
      rw [connects_quiet rfl] at hl ⊢
      exact h.modify hl rfl
  | put halive =>
      rw [connects_quiet rfl]
      exact h
  | close hc =>
      rw [connects_quiet rfl]
      exact h.close hc

theorem send {m : MbufId} (h : Agrees cs todo s) (hs : Send c m s ls s') : Agrees cs todo s' := by
  cases hs with
  | offline _ => exact h
  | sent _ _ => exact h
  | lost _ hc => exact h.close hc

theorem fanOut {m : MbufId} {todos : List CtxId} (hf : FanOut t m todos s ls s') (h : Agrees cs todo s) :
    Agrees cs todo s' := by
  induction hf with
  | nil => exact h
  | skip _ _ ih => exact ih h
  | visit hc hs _ _ ih =>
      refine ih (send (h.modify ?_ ?_) hs)
      · exact h.links.modify ⟨rfl, rfl⟩ (Or.inl (h.links.subscribed _ _ hc))
      · rfl

theorem fanOuts {m : MbufId} {ts : List ByteStr} (hf : FanOuts m ts s ls s') (h : Agrees cs todo s) :
    Agrees cs todo s' := by
  induction hf with
  | nil => exact h
  | cons _ hf _ ih => exact ih (h.fanOut hf)

/-- The topic loop of a SUBSCRIBE works off the topics that are left to do. -/
theorem subLoop {ts : List ByteStr} (hs : SubLoop c ts s ls s') (hn : Named cs c)
    (hlist : ∀ t ∈ ts, t ∈ (s.ctxs c).topicNames) (h : Agrees cs (fun c' t => c' = c ∧ t ∈ ts) s) :
    Agrees cs done s' := by
  have hsplit : ∀ {t : ByteStr} {ts : List ByteStr} {s : Sess},
      Agrees cs (fun c' t' => c' = c ∧ t' ∈ t :: ts) s →
        Agrees cs (fun c' t' => (c' = c ∧ t' ∈ ts) ∨ (c' = c ∧ t' = t)) s := by
    intro t ts s h
    refine ⟨h.links, h.listed, fun c' t' hr ht' => ?_⟩
    rcases h.subscribed c' t' hr ht' with hin | ⟨rfl, htodo⟩
    · exact Or.inl hin
    · rcases List.mem_cons.mp htodo with rfl | htodo
      · exact Or.inr (Or.inr ⟨rfl, rfl⟩)
      · exact Or.inr (Or.inl ⟨rfl, htodo⟩)
  induction hs with
  | nil =>
      refine ⟨h.links, h.listed, fun c' t' hr ht' => ?_⟩
      rcases h.subscribed c' t' hr ht' with hin | ⟨-, htodo⟩
      · exact Or.inl hin
      · cases htodo
  | quiet _ _ ih =>
      refine ih ?_ ((hsplit h).subscribe hn (hlist _ List.mem_cons_self))
      intro t' ht'
      rw [subscribe_topicNames]
      exact hlist t' (List.mem_cons_of_mem _ ht')
  | retained _ _ hsend _ ih =>
      refine ih ?_ (((hsplit h).subscribe hn (hlist _ List.mem_cons_self)).send hsend)
      intro t' ht'
      rw [send_topicNames hsend, subscribe_topicNames]
      exact hlist t' (List.mem_cons_of_mem _ ht')

/-- One operation. -/
theorem step (hone : OneConnect (log ++ ls)) (hup : NoneGivenUp (log ++ ls))
    (h : Agrees (connects log) done s) (hs : Step s ls s') : Agrees (connects (log ++ ls)) done s' := by
  cases hs with
  | atom ha => exact h.atom hone hup ha
  | @subscribe _ k c topics puts ls hc hst hp hl _ =>
      rw [connects_quiet (connects_subscribe hp hl)]
      have hn := h.links.named_of_status hc hst
      refine subLoop hl hn ?_ ⟨h.links.modify ⟨rfl, rfl⟩ (Or.inl hn), ?_, ?_⟩
      · intro t ht
        rw [Sess.modifyContext_ctxs, if_pos rfl, mem_topicNames_add]
        exact Or.inr ht
      · intro c' t hc'
        have ht := h.listed c' t hc'
        rw [Sess.modifyContext_ctxs]
        by_cases he : c' = c
        · subst he
          rw [if_pos rfl, mem_topicNames_add]
          exact Or.inl ht
        · rwa [if_neg he]
      · intro c' t hr ht
        rw [Sess.modifyContext_ctxs] at ht
        by_cases he : c' = c
        · subst he
          rw [if_pos rfl, mem_topicNames_add] at ht
          rcases ht with ht | ht
          · exact Or.inl ((h.subscribed c' t hr ht).resolve_right id)
          · exact Or.inr ⟨rfl, ht⟩
        · rw [if_neg he] at ht
          exact Or.inl ((h.subscribed c' t hr ht).resolve_right id)
  | publish hmgr _ hf =>
      rw [connects_quiet (connects_cons_quiet rfl (connects_fanOut hf))]
      refine fanOut hf (h.same (h.links.topics fun t c hc => ?_) rfl (fun t c => ?_) (fun _ => rfl))
      · rw [hmgr] at hc
        exact h.links.subscribed t c hc
      · show c ∈ TopicMgr.clients _ t ↔ _
        rw [hmgr]
  | publishAll hf =>
      rw [connects_quiet (connects_cons_quiet rfl (connects_fanOuts hf))]
      exact fanOuts hf h

end Agrees

/-! ## Runs -/

theorem Reach.agrees (h : Reach env mp m) (hone : OneConnect m.broker.log) (hup : NoneGivenUp m.broker.log) :
    Agrees (connects m.broker.log) done m.broker.sess := by
  refine Reach.invariant (I := fun log s => Agrees (connects log) done s)
    (G := fun l => OneConnect l ∧ NoneGivenUp l) (fun _ _ hg => ⟨hg.1.of_append, hg.2.of_append⟩)
    (fun _ _ hr => Agrees.restored hr) ?_ h ⟨hone, hup⟩
  intro log s ls s' hgood hs _ hst
  exact Trace.invariant (I := fun log s => Agrees (connects log) done s)
    (G := fun l => OneConnect l ∧ NoneGivenUp l) (fun _ _ hg => ⟨hg.1.of_append, hg.2.of_append⟩)
    (fun _ _ _ _ hg hs hst => hs.step hg.1 hg.2 hst) hst log hgood hs

/-- A context of the registry is subscribed to exactly the topics of its list. -/
def Sess.TablesAgree (s : Sess) : Prop :=
  ∀ c, s.Registered c → ∀ t, c ∈ s.topicMgr.clients t ↔ t ∈ (s.ctxs c).topicNames

/-- The tables agree in every broker in which no connection carried a second CONNECT and no session gave up
    a topic of its list. -/
theorem reach_tablesAgree (h : Reach env mp m) (hone : OneConnect m.broker.log)
    (hup : NoneGivenUp m.broker.log) : m.broker.sess.TablesAgree := by
  have ha := h.agrees hone hup
  intro c hc t
  exact ⟨ha.listed c t, fun ht => (ha.subscribed c t hc ht).resolve_right id⟩

/-- An UNSUBSCRIBE packet for one topic of one byte. -/
def unsubscribePacket (topic : UInt8) : ByteStr := [0xA2, 5, 0, 1, 0, 1, topic]

/-- A session with a subscription. -/
theorem reach_tablesAgree_one : ∃ m : Machine, Reach Env.calm packing m ∧ OneConnect m.broker.log ∧
    NoneGivenUp m.broker.log ∧ m.broker.sess.registry.findClientContext [65] = some (.conn 0) ∧
    .conn 0 ∈ m.broker.sess.topicMgr.clients [116] ∧ m.broker.sess.TablesAgree := by
  have hrun : (Machine.initial.play Env.calm packing
      (Move.alone 1 .accept ++ Move.alone 2 (.input 0 (connectPacket 65 0)) ++
        Move.alone 3 (.input 0 (subscribePacket 116)))).any (fun m => decide (OneConnect m.broker.log ∧
          NoneGivenUp m.broker.log ∧ m.broker.sess.registry.findClientContext [65] = some (.conn 0) ∧
          .conn 0 ∈ m.broker.sess.topicMgr.clients [116])) = true := by
    decide +kernel
  obtain ⟨m, hm, hone, hup, hf, hc⟩ := Machine.exists_reach hrun
  exact ⟨m, hm, hone, hup, hf, hc, reach_tablesAgree hm hone hup⟩

/-- SUBSCRIBE and UNSUBSCRIBE: the topic stays in the list. -/
theorem tablesAgree_unsubscribe : ∃ m : Machine, Reach Env.calm packing m ∧
    ¬ m.broker.sess.TablesAgree := by
  have hrun : (Machine.initial.play Env.calm packing
      (Move.alone 1 .accept ++ Move.alone 2 (.input 0 (connectPacket 65 0)) ++
        Move.alone 3 (.input 0 (subscribePacket 116)) ++
        Move.alone 4 (.input 0 (unsubscribePacket 116)))).any (fun m => decide (
          m.broker.sess.registry.findClientContext [65] = some (.conn 0) ∧
          [116] ∈ (m.broker.sess.ctxs (.conn 0)).topicNames ∧
          .conn 0 ∉ m.broker.sess.topicMgr.clients [116])) = true := by
    decide +kernel
  obtain ⟨m, hm, hf, ht, hnot⟩ := Machine.exists_reach hrun
  exact ⟨m, hm, fun ha => hnot ((ha _ ⟨_, hf⟩ _).mpr ht)⟩

end MqttServer
