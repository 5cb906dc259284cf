import MqttServer.Correctness.Restore
import MqttServer.Server.Packing

/-!
# `Correctness.Admission` — who may publish and subscribe

The handlers of PUBLISH, SUBSCRIBE and UNSUBSCRIBE look at the status of the context of their connection. The status
outlives a connection, and contexts change hands; but a connection gets a context with the status `connected` only
from a CONNECT of its own (`Gate`). CONNECT sets the status before it knows the return code, and a connection that is
refused for its protocol version stays open: it may act all the same (`refused_subscribes`).
-/

namespace MqttServer

open Lib Exec

variable {env : Env} {mp : MsgPack} {b b' : Broker} {k : ConnId} {c : CtxId} {s s' : Sess} {log ls : List Act}

/-! ## What the trace says of a connection -/

/-- A DISCONNECT on the connection, or its end. -/
def Act.Ends (k : ConnId) : Act → Prop
  | .disconnect k' _ => k' = k
  | .close k' _ _ _ _ => k' = k
  | _ => False

/-- The trace has a CONNECT of the connection, answered with `code`, and neither DISCONNECT nor end after it. -/
def ConnectedWith (code : ConnAckCode) (log : List Act) (k : ConnId) : Prop :=
  ∃ l msg c l', log = l ++ .connect k msg code c :: l' ∧ ∀ a ∈ l', ¬ a.Ends k

/-- The connection is admitted: its CONNECT was accepted. -/
def Admitted (log : List Act) (k : ConnId) : Prop := ConnectedWith .accepted log k

theorem ConnectedWith.append {code : ConnAckCode} (h : ConnectedWith code log k) (hls : ∀ a ∈ ls, ¬ a.Ends k) :
    ConnectedWith code (log ++ ls) k := by
  obtain ⟨l, msg, c, l', rfl, hl'⟩ := h
  refine ⟨l, msg, c, l' ++ ls, by rw [List.append_assoc, List.cons_append], fun a ha => ?_⟩
  rcases List.mem_append.mp ha with ha | ha
  · exact hl' a ha
  · exact hls a ha

theorem connectedWith_snoc {msg : Connect} {code : ConnAckCode} :
    ConnectedWith code (log ++ [.connect k msg code c]) k :=
  ⟨log, msg, c, [], rfl, fun _ h => by cases h⟩

/-! ## The gate -/

/-- The connection, accepted or still to come, has not made its context yet. -/
def Sess.Unmade (s : Sess) (k : ConnId) : Prop := s.contextOf k = none ∧ (s.Alive k ∨ s.nextConn ≤ k)

/-- A context that has been made. -/
def Sess.Made (s : Sess) (c : CtxId) : Prop := ∀ k, c = .conn k → ¬ s.Unmade k

theorem Sess.Made.mono (h : s.Made c) (hu : ∀ k, s'.Unmade k → s.Unmade k) : s'.Made c :=
  fun k hk hun => h k hk (hu k hun)

/-- A connection whose context has the status `connected` has sent a CONNECT itself. -/
structure Gate (log : List Act) (s : Sess) : Prop where
  future : ∀ k, s.nextConn ≤ k → ¬ s.Alive k
  owner : ∀ k c, s.contextOf k = some c → (s.ctxs c).mqttConnection = some k
  made : ∀ k c, s.contextOf k = some c → s.Made c
  registered : ∀ id c, s.registry.findClientContext id = some c → s.Made c
  subscribed : ∀ t c, c ∈ s.topicMgr.clients t → s.Made c
  blank : ∀ k, s.Unmade k → (s.ctxs (.conn k)).sendMsgQueue = []
  opened : ∀ k c, s.contextOf k = some c → (s.ctxs c).clientStatus = .connected → ∃ code, ConnectedWith code log k

namespace Gate

theorem contextOf_inj {k' : ConnId} (h : Gate log s) (hk : s.contextOf k = some c) (hk' : s.contextOf k' = some c) :
    k' = k := by
  have ho := h.owner k c hk
  rw [h.owner k' c hk'] at ho
  exact Option.some.inj ho

/-- **Steps that leave connections and status alone.** -/
theorem frame (h : Gate log s) (hnext : s'.nextConn = s.nextConn) (hconns : s'.conns = s.conns)
    (hreg : s'.registry = s.registry)
    (hctx : ∀ c, (s'.ctxs c).mqttConnection = (s.ctxs c).mqttConnection ∧
      (s'.ctxs c).clientStatus = (s.ctxs c).clientStatus ∧
      (s.Made c ∨ (s'.ctxs c).sendMsgQueue = (s.ctxs c).sendMsgQueue))
    (hsub : ∀ t c, c ∈ s'.topicMgr.clients t → s.Made c) (hls : ∀ a ∈ ls, ∀ k, ¬ a.Ends k) :
    Gate (log ++ ls) s' := by
  have hof : ∀ k, s'.contextOf k = s.contextOf k := by
    intro k
    unfold Sess.contextOf
    rw [hconns]
  have halive : ∀ k, s'.Alive k ↔ s.Alive k := by
    intro k
    unfold Sess.Alive
    rw [hconns]
  have hun : ∀ k, s'.Unmade k → s.Unmade k := by
    intro k hk
    unfold Sess.Unmade at hk
    rwa [hof, halive, hnext] at hk
  constructor
  case future =>
    intro k hk
    rw [halive]
    exact h.future k (hnext ▸ hk)
  case owner =>
    intro k c hc
    rw [(hctx c).1]
    exact h.owner k c (hof k ▸ hc)
  case made => exact fun k c hc => (h.made k c (hof k ▸ hc)).mono hun
  case registered => exact fun id c hc => (h.registered id c (hreg ▸ hc)).mono hun
  case subscribed => exact fun t c hc => (hsub t c hc).mono hun
  case blank =>
    intro k hk
    rcases (hctx (.conn k)).2.2 with hm | hq
    · exact absurd (hun k hk) (hm k rfl)
    · rw [hq]
      exact h.blank k (hun k hk)
  case opened =>
    intro k c hc hs
    rw [(hctx c).2.1] at hs
    obtain ⟨code, hcode⟩ := h.opened k c (hof k ▸ hc) hs
    exact ⟨code, hcode.append fun a ha => hls a ha k⟩

/-- A change of one context that keeps link and status. -/
theorem modify {f : ClientContext → ClientContext} (h : Gate log s)
    (hf : (f (s.ctxs c)).mqttConnection = (s.ctxs c).mqttConnection ∧
      (f (s.ctxs c)).clientStatus = (s.ctxs c).clientStatus) (hm : s.Made c) (hls : ∀ a ∈ ls, ∀ k, ¬ a.Ends k) :
    Gate (log ++ ls) (s.modifyContext c f) := by
  refine h.frame rfl rfl rfl (fun c' => ?_) h.subscribed hls
  rw [Sess.modifyContext_ctxs]
  by_cases hc : c' = c
  · subst hc
    rw [if_pos rfl]
    exact ⟨hf.1, hf.2, Or.inl hm⟩
  · rw [if_neg hc]
    exact ⟨rfl, rfl, Or.inr rfl⟩

theorem topics {mgr : TopicMgr} (h : Gate log s) (hsub : ∀ t c, c ∈ mgr.clients t → s.Made c)
    (hls : ∀ a ∈ ls, ∀ k, ¬ a.Ends k) : Gate (log ++ ls) { s with topicMgr := mgr } :=
  h.frame rfl rfl rfl (fun _ => ⟨rfl, rfl, Or.inr rfl⟩) hsub hls

theorem subscribe {t : ByteStr} (h : Gate log s) (hm : s.Made c) (hls : ∀ a ∈ ls, ∀ k, ¬ a.Ends k) :
    Gate (log ++ ls) (s.subscribe t c) := by
  have ht : Gate (log ++ ls) { s with topicMgr := s.topicMgr.addClientContext t c } := by
    refine h.topics (fun t' c' hc' => ?_) hls
    rcases TopicMgr.mem_clients_add.mp hc' with hc' | ⟨-, rfl⟩
    · exact h.subscribed t' c' hc'
    · exact hm
  unfold Sess.subscribe
  split
  · rw [← List.append_nil (log ++ ls)]
    exact ht.modify ⟨rfl, rfl⟩ hm fun _ ha => by cases ha
  · exact ht

theorem accept (h : Gate log s) : Gate (log ++ [.accept s.nextConn]) s.accept := by
  have hnew : s.contextOf s.nextConn = none := by
    cases hc : s.contextOf s.nextConn with
    | none => rfl
    | some c => exact absurd (Sess.alive_of_contextOf hc) (h.future _ (Nat.le_refl _))
  have hof : ∀ k, s.accept.contextOf k = s.contextOf k := by
    intro k
    by_cases hk : k = s.nextConn
    · subst hk
      rw [hnew]
      unfold Sess.contextOf
      rw [Sess.accept_conns, if_pos rfl]
      rfl
    · unfold Sess.contextOf
      rw [Sess.accept_conns, if_neg hk]
  have halive : ∀ k, s.accept.Alive k → k = s.nextConn ∨ s.Alive k := by
    intro k ha
    unfold Sess.Alive at ha ⊢
    rw [Sess.accept_conns] at ha
    split at ha
    · exact Or.inl ‹_›
    · exact Or.inr ha
  have hun : ∀ k, s.accept.Unmade k → s.Unmade k := by
    rintro k ⟨hk, ha⟩
    rw [hof] at hk
    refine ⟨hk, ?_⟩
    rcases ha with ha | hle
    · rcases halive k ha with rfl | ha
      · exact Or.inr (Nat.le_refl _)
      · exact Or.inl ha
    · exact Or.inr (Nat.le_of_succ_le hle)
  constructor
  case future =>
    intro k hk ha
    have hk' : s.nextConn < k := hk
    rcases halive k ha with rfl | ha
    · exact Nat.lt_irrefl _ hk'
    · exact h.future k (Nat.le_of_lt hk') ha
  case owner => exact fun k c hc => h.owner k c (hof k ▸ hc)
  case made => exact fun k c hc => (h.made k c (hof k ▸ hc)).mono hun
  case registered => exact fun id c hc => (h.registered id c hc).mono hun
  case subscribed => exact fun t c hc => (h.subscribed t c hc).mono hun
  case blank => exact fun k hk => h.blank k (hun k hk)
  case opened =>
    intro k c hc hs
    obtain ⟨code, hcode⟩ := h.opened k c (hof k ▸ hc) hs
    refine ⟨code, hcode.append fun a ha => ?_⟩
    rw [List.mem_singleton.mp ha]
    exact id

theorem newContext {clean : Bool} (h : Gate log s) (ha : s.Alive k) (hk : s.contextOf k = none) :
    Gate (log ++ [.context k]) (s.newContext k clean) := by
  -- nobody has the context of a connection that has not made it
  have hother : ∀ c, s.Made c → c ≠ .conn k := fun c hm he => hm k he ⟨hk, Or.inl ha⟩
  have hctx : ∀ c, s.Made c → (s.newContext k clean).ctxs c = s.ctxs c := by
    intro c hm
    rw [Sess.newContext_ctxs, if_neg (hother c hm)]
  have hun : ∀ k', (s.newContext k clean).Unmade k' → s.Unmade k' ∧ k' ≠ k := by
    rintro k' ⟨hk', ha'⟩
    rw [Sess.newContext_contextOf] at hk'
    split at hk'
    · cases hk'
    · rename_i hne
      exact ⟨⟨hk', ha'.imp_left (alive_newContext ha)⟩, hne⟩
  have hmono : ∀ {c}, s.Made c → (s.newContext k clean).Made c := fun hm => hm.mono fun k' hk' => (hun k' hk').1
  constructor
  case future => exact fun k' hk' ha' => h.future k' hk' (alive_newContext ha ha')
  case owner =>
    intro k' c hc
    rw [Sess.newContext_contextOf] at hc
    split at hc
    · rename_i hkk
      cases hc
      rw [Sess.newContext_ctxs, if_pos rfl, hkk]
      rfl
    · rw [hctx c (h.made k' c hc)]
      exact h.owner k' c hc
  case made =>
    intro k' c hc
    rw [Sess.newContext_contextOf] at hc
    split at hc
    · cases hc
      intro j hj hu
      cases hj
      exact (hun k hu).2 rfl
    · exact hmono (h.made k' c hc)
  case registered => exact fun id c hc => hmono (h.registered id c hc)
  case subscribed => exact fun t c hc => hmono (h.subscribed t c hc)
  case blank =>
    intro k' hk'
    obtain ⟨hu, hne⟩ := hun k' hk'
    rw [Sess.newContext_ctxs, if_neg fun he => hne (CtxId.conn.inj he)]
    exact h.blank k' hu
  case opened =>
    intro k' c hc hs
    rw [Sess.newContext_contextOf] at hc
    split at hc
    · cases hc
      rw [Sess.newContext_ctxs, if_pos rfl] at hs
      cases hs
    · rw [hctx c (h.made k' c hc)] at hs
      obtain ⟨code, hcode⟩ := h.opened k' c hc hs
      refine ⟨code, hcode.append fun a ha => ?_⟩
      rw [List.mem_singleton.mp ha]
      exact id

theorem unmade_close {k' : ConnId} (h : Gate log s) (hc : s.contextOf k = some c) (hu : (s.close k c).Unmade k') :
    s.Unmade k' := by
  obtain ⟨hk', ha⟩ := hu
  rw [Sess.close_nextConn, Sess.alive_close] at ha
  have hne : k' ≠ k := by
    rintro rfl
    rcases ha with ha | hle
    · exact ha.1 rfl
    · exact h.future _ hle (Sess.alive_of_contextOf hc)
  rw [Sess.close_contextOf, if_neg hne] at hk'
  exact ⟨hk', ha.imp_left And.right⟩

theorem close {cause : Cause} {clean busy : Bool} (h : Gate log s) (hc : s.contextOf k = some c) :
    Gate (log ++ [.close k c cause clean busy]) (s.close k c) := by
  have hof : ∀ k' c', (s.close k c).contextOf k' = some c' → k' ≠ k ∧ s.contextOf k' = some c' := by
    intro k' c' hc'
    rw [Sess.close_contextOf] at hc'
    split at hc'
    · cases hc'
    · rename_i hne
      exact ⟨hne, hc'⟩
  have hctx : ∀ k' c', k' ≠ k → s.contextOf k' = some c' → (s.close k c).ctxs c' = s.ctxs c' := by
    intro k' c' hne hc'
    rw [Sess.close_ctxs, if_neg]
    rintro rfl
    exact hne (h.contextOf_inj hc hc')
  have hun : ∀ k', (s.close k c).Unmade k' → s.Unmade k' := fun k' => h.unmade_close hc
  constructor
  case future =>
    intro k' hk' ha
    rw [Sess.close_nextConn] at hk'
    exact h.future k' hk' (Sess.alive_close.mp ha).2
  case owner =>
    intro k' c' hc'
    obtain ⟨hne, hc'⟩ := hof k' c' hc'
    rw [hctx k' c' hne hc']
    exact h.owner k' c' hc'
  case made => exact fun k' c' hc' => (h.made k' c' (hof k' c' hc').2).mono hun
  case registered =>
    intro id c' hc'
    rw [Sess.close_registry] at hc'
    refine Sess.Made.mono ?_ hun
    split at hc'
    · by_cases hid : id = (s.ctxs c).clientId
      · subst hid
        unfold Registry.findClientContext Registry.delClientContext at hc'
        rw [AList.lookup_erase] at hc'
        cases hc'
      · unfold Registry.findClientContext Registry.delClientContext at hc'
        rw [AList.lookup_erase_ne hid] at hc'
        exact h.registered id c' hc'
    · exact h.registered id c' hc'
  case subscribed => exact fun t c' hc' => (h.subscribed t c' (Sess.mem_clients_close.mp hc').1).mono hun
  case blank =>
    intro k' hk'
    have hq : ((s.close k c).ctxs (.conn k')).sendMsgQueue = (s.ctxs (.conn k')).sendMsgQueue := by
      rw [Sess.close_ctxs]
      split
      · rename_i he
        rw [he]
        rfl
      · rfl
    rw [hq]
    exact h.blank k' (hun k' hk')
  case opened =>
    intro k' c' hc' hs
    obtain ⟨hne, hc'⟩ := hof k' c' hc'
    rw [hctx k' c' hne hc'] at hs
    obtain ⟨code, hcode⟩ := h.opened k' c' hc' hs
    refine ⟨code, hcode.append fun a ha => ?_⟩
    rw [List.mem_singleton.mp ha]
    exact fun he => hne he.symm

/-- The CONNECT of a known client. -/
theorem resume {msg : Connect} {code : ConnAckCode} (h : Gate log s) (ha : s.Alive k) (hm : s.Made c)
    (hfree : ∀ k', s.contextOf k' ≠ some c) : Gate (log ++ [.connect k msg code c]) (s.resume k c msg) := by
  have hof : ∀ k' c', (s.resume k c msg).contextOf k' = some c' → (k' = k ∧ c' = c) ∨
      (k' ≠ k ∧ c' ≠ c ∧ s.contextOf k' = some c') := by
    intro k' c' hc'
    rw [Sess.resume_contextOf] at hc'
    split at hc'
    · cases hc'
      exact Or.inl ⟨‹_›, rfl⟩
    · refine Or.inr ⟨‹_›, ?_, hc'⟩
      rintro rfl
      exact hfree k' hc'
  have hctx : ∀ c', c' ≠ c → (s.resume k c msg).ctxs c' = s.ctxs c' := by
    intro c' hne
    rw [Sess.resume_ctxs, if_neg hne]
  have halive : ∀ k', (s.resume k c msg).Alive k' → s.Alive k' := by
    intro k' ha'
    rcases Sess.alive_resume.mp ha' with rfl | ha'
    · exact ha
    · exact ha'
  -- no connection loses its context by a resume
  have hun : ∀ k', (s.resume k c msg).Unmade k' → s.Unmade k' := by
    rintro k' ⟨hk', ha'⟩
    rw [Sess.resume_contextOf] at hk'
    split at hk'
    · cases hk'
    · exact ⟨hk', ha'.imp_left (halive k')⟩
  constructor
  case future => exact fun k' hk' ha' => h.future k' hk' (halive k' ha')
  case owner =>
    intro k' c' hc'
    rcases hof k' c' hc' with ⟨rfl, rfl⟩ | ⟨-, hne, hc'⟩
    · rw [Sess.resume_ctxs, if_pos rfl]
    · rw [hctx c' hne]
      exact h.owner k' c' hc'
  case made =>
    intro k' c' hc'
    refine Sess.Made.mono ?_ hun
    rcases hof k' c' hc' with ⟨-, rfl⟩ | ⟨-, -, hc'⟩
    · exact hm
    · exact h.made k' c' hc'
  case registered => exact fun id c' hc' => (h.registered id c' hc').mono hun
  case subscribed => exact fun t c' hc' => (h.subscribed t c' hc').mono hun
  case blank =>
    intro k' hk'
    rw [hctx _ fun he => hm k' he.symm (hun k' hk')]
    exact h.blank k' (hun k' hk')
  case opened =>
    intro k' c' hc' hs
    rcases hof k' c' hc' with ⟨rfl, rfl⟩ | ⟨-, hne, hc'⟩
    · exact ⟨code, connectedWith_snoc⟩
    · rw [hctx c' hne] at hs
      obtain ⟨code', hcode⟩ := h.opened k' c' hc' hs
      refine ⟨code', hcode.append fun a ha => ?_⟩
      rw [List.mem_singleton.mp ha]
      exact id

/-- The CONNECT of an unknown client. -/
theorem register {msg : Connect} {code : ConnAckCode} (h : Gate log s) (hc : s.contextOf k = some c) :
    Gate (log ++ [.connect k msg code c]) (s.register c msg) := by
  have hm : s.Made c := h.made k c hc
  have hctx : ∀ c', c' ≠ c → (s.register c msg).ctxs c' = s.ctxs c' := by
    intro c' hne
    rw [Sess.register_ctxs, if_neg hne]
  constructor
  case future => exact h.future
  case owner =>
    intro k' c' hc'
    have ho := h.owner k' c' hc'
    by_cases hcc : c' = c
    · subst hcc
      rw [Sess.register_ctxs, if_pos rfl]
      exact ho
    · rw [hctx c' hcc]
      exact ho
  case made => exact h.made
  case registered =>
    intro id c' hc'
    have hfind : (s.registry.addClientContext msg.clientId c).findClientContext id = some c' := hc'
    unfold Registry.addClientContext Registry.findClientContext at hfind
    cases hl : s.registry.lookup msg.clientId with
    | some c₀ =>
        simp only [hl] at hfind
        exact h.registered id c' hfind
    | none =>
        simp only [hl] at hfind
        by_cases hid : id = msg.clientId
        · subst hid
          rw [AList.lookup_insert] at hfind
          cases hfind
          exact hm
        · rw [AList.lookup_insert_ne hid] at hfind
          exact h.registered id c' hfind
  case subscribed => exact h.subscribed
  case blank =>
    intro k' hk'
    rw [hctx _ fun he => hm k' he.symm hk']
    exact h.blank k' hk'
  case opened =>
    intro k' c' hc' hs
    by_cases hcc : c' = c
    · subst hcc
      obtain rfl := h.contextOf_inj hc hc'
      exact ⟨code, connectedWith_snoc⟩
    · rw [hctx c' hcc] at hs
      obtain ⟨code', hcode⟩ := h.opened k' c' hc' hs
      refine ⟨code', hcode.append fun a ha => ?_⟩
      rw [List.mem_singleton.mp ha]
      exact id

theorem disconnect (h : Gate log s) (hc : s.contextOf k = some c) :
    Gate (log ++ [.disconnect k c]) (s.modifyContext c (·.disconnect)) := by
  have hctx : ∀ c', c' ≠ c → (s.modifyContext c (·.disconnect)).ctxs c' = s.ctxs c' := by
    intro c' hne
    rw [Sess.modifyContext_ctxs, if_neg hne]
  have hself : (s.modifyContext c (·.disconnect)).ctxs c = (s.ctxs c).disconnect := by
    rw [Sess.modifyContext_ctxs, if_pos rfl]
  constructor
  case future => exact h.future
  case owner =>
    intro k' c' hc'
    have ho := h.owner k' c' hc'
    by_cases hcc : c' = c
    · subst hcc
      rw [hself]
      exact ho
    · rw [hctx c' hcc]
      exact ho
  case made => exact h.made
  case registered => exact h.registered
  case subscribed => exact h.subscribed
  case blank =>
    intro k' hk'
    rw [hctx _ fun he => h.made k c hc k' he.symm hk']
    exact h.blank k' hk'
  case opened =>
    intro k' c' hc' hs
    by_cases hcc : c' = c
    · subst hcc
      rw [hself] at hs
      cases hs
    · rw [hctx c' hcc] at hs
      obtain ⟨code, hcode⟩ := h.opened k' c' hc' hs
      refine ⟨code, hcode.append fun a ha => ?_⟩
      rw [List.mem_singleton.mp ha]
      rintro rfl
      have hsame : s.contextOf k = some c' := hc'
      rw [hc] at hsame
      exact hcc (Option.some.inj hsame).symm

/-! ### Steps and runs -/

theorem quiet {a : Act} (ha : ∀ k, ¬ a.Ends k) : ∀ a' ∈ [a], ∀ k, ¬ a'.Ends k := by
  intro a' ha' k
  rw [List.mem_singleton.mp ha']
  exact ha k

theorem silent : ∀ a ∈ ([] : List Act), ∀ k, ¬ a.Ends k := fun _ ha => by cases ha

theorem atom (h : Gate log s) (ha : Atom s ls s') : Gate (log ++ ls) s' := by
  cases ha with
  | accept => exact h.accept
  | context halive hc => exact h.newContext halive hc
  | resume _ halive hf hn =>
      refine h.resume halive (h.registered _ _ hf) fun k' hk' => ?_
      rw [h.owner k' _ hk'] at hn
      cases hn
  | @takeover k last c c' msg code busy _ hf hl hc halive =>
      have hclosed : Gate (log ++ [.close last c' .takeover (s.ctxs c').cleanSession busy]) (s.close last c') :=
        h.close hc
      have hfree : ∀ k', (s.close last c').contextOf k' ≠ some c := by
        intro k' hk'
        rw [Sess.close_contextOf] at hk'
        split at hk'
        · cases hk'
        · -- the context would belong to the closed connection
          rename_i hne
          have ho := h.owner k' c hk'
          rw [hl] at ho
          exact hne (Option.some.inj ho).symm
      have hm : (s.close last c').Made c := (h.registered _ _ hf).mono fun k' => h.unmade_close hc
      have hresumed : Gate (_ ++ [.connect k msg code c]) _ := hclosed.resume halive hm hfree
      rwa [List.append_assoc] at hresumed
  | register _ hc hf => exact h.register hc
  | unsubscribe hc =>
      exact h.topics (fun t c hm => h.subscribed t c (TopicMgr.mem_clients_del.mp hm).1) (quiet fun _ => id)
  | topics hmgr =>
      refine h.topics (fun t c hm => ?_) silent
      rw [hmgr] at hm
      exact h.subscribed t c hm
  | puback idOf hc =>
      refine h.modify ?_ (h.made _ _ hc) (quiet fun _ => id)
      unfold ClientContext.ackMsg
      split
      · exact ⟨rfl, rfl⟩
      · exact ⟨rfl, rfl⟩
  | disconnect hc => exact h.disconnect hc
  | put halive =>
      exact h.frame rfl rfl rfl (fun _ => ⟨rfl, rfl, Or.inr rfl⟩) h.subscribed (quiet fun _ => id)
  | close hc => exact h.close hc

/-- One change of the tables. -/
theorem micro (h : Gate log s) (hm : Micro s ls s') : Gate (log ++ ls) s' := by
  cases hm with
  | atom ha => exact h.atom ha
  | list hc hs => exact h.modify ⟨rfl, rfl⟩ (h.made _ _ hc) (quiet fun _ => id)
  | set hc hs => exact h.subscribe (h.made _ _ hc) silent
  | retained hc hs => exact h.subscribe (h.made _ _ hc) (quiet fun _ => id)
  | publish => exact h.frame rfl rfl rfl (fun _ => ⟨rfl, rfl, Or.inr rfl⟩) h.subscribed (quiet fun _ => id)
  | publishAll => exact h.frame rfl rfl rfl (fun _ => ⟨rfl, rfl, Or.inr rfl⟩) h.subscribed (quiet fun _ => id)
  | deliver hc => exact h.modify ⟨rfl, rfl⟩ (h.subscribed _ _ hc) silent

/-- **Runs keep the gate.** -/
theorem micros (h : Gate log s) (hm : Micros s ls s') : Gate (log ++ ls) s' :=
  Trace.invariant (I := Gate) (G := fun _ => True) (fun _ _ _ => trivial) (fun _ _ _ _ _ h hm => h.micro hm) hm log
    trivial h

end Gate

theorem Restored.gate {n : Nat} (h : Restored n s) : Gate [] s := by
  have hnone : ∀ k c, s.contextOf k = some c → False := by
    intro k c hc
    unfold Sess.contextOf at hc
    rw [h.conns] at hc
    cases hc
  constructor
  case future =>
    intro k _ ha
    unfold Sess.Alive at ha
    rw [h.conns] at ha
    cases ha
  case owner => exact fun k c hc => (hnone k c hc).elim
  case made => exact fun k c hc => (hnone k c hc).elim
  case registered =>
    intro id c hc
    obtain ⟨-, i, -, rfl⟩ := h.key id c hc
    exact fun k hk => by cases hk
  case subscribed =>
    intro t c hc k hk
    subst hk
    rw [h.agree, h.blank _ fun i _ he => by cases he] at hc
    cases hc
  case blank =>
    intro k _
    rw [h.blank _ fun i _ he => by cases he]
    rfl
  case opened => exact fun k c hc => (hnone k c hc).elim

theorem Reach.gate {m : Machine} (h : Reach env mp m) : Gate m.broker.log m.broker.sess :=
  Reach.invariant (I := Gate) (G := fun _ => True) (fun _ _ _ => trivial) (fun _ _ hr => hr.gate)
    (fun _ _ _ _ _ h hm _ => h.micros hm) h trivial

/-! ## Packets -/

section Calls

variable {σ ε : Type} {touch : Exec σ ε Unit} {process : Handler σ ε}

open RecvBuffer

/-- The framing loop hands over a packet, in this state. -/
inductive Calls (touch : Exec σ ε Unit) (process : Handler σ ε) :
    Nat → (Nat → UInt8) → Nat → Nat → σ → ByteStr → σ → Prop where
  | now {fuel : Nat} {mem : Nat → UInt8} {len offset value bytes : Nat} {s s₁ : σ} (ht : touch s = .ok ((), s₁))
      (ho : offset < len) (hr : remainLength (shift mem offset) (len - offset) = .length value bytes) :
      Calls touch process (fuel + 1) mem len offset s (slice mem offset (value + bytes + 1)) s₁
  | later {fuel : Nat} {mem : Nat → UInt8} {len offset value bytes : Nat} {s s₁ s₂ s' : σ} {res : Int}
      {pkt' pkt : ByteStr} (ht : touch s = .ok ((), s₁)) (ho : offset < len)
      (hr : remainLength (shift mem offset) (len - offset) = .length value bytes)
      (hp : process (slice mem offset (value + bytes + 1)) s₁ = .ok ((res, pkt'), s₂)) (hres : ¬ res < 0)
      (h : Calls touch process fuel (splice mem offset (pkt'.take (value + bytes + 1))) len
        (offset + (value + bytes + 1)) s₂ pkt s') :
      Calls touch process (fuel + 1) mem len offset s pkt s'

/-- What the handler respects leads to each of its calls. -/
theorem Calls.rel {F : Frame σ ε} {fuel len offset : Nat} {mem : Nat → UInt8} {s s' : σ} {pkt : ByteStr}
    (ht : ∀ s, F.Resp touch s) (hp : ∀ pkt s, F.Resp (process pkt) s)
    (h : Calls touch process fuel mem len offset s pkt s') : F.rel s s' := by
  induction h with
  | now htouch _ _ => exact Frame.resp_ok (ht _) htouch
  | later htouch _ _ hproc _ _ ih =>
      exact F.trans (Frame.resp_ok (ht _) htouch) (F.trans (Frame.resp_ok (hp _ _) hproc) ih)

/-- These are all the calls there are: another handler that does the same in each of them makes no difference. -/
theorem processLoop_congr {process' : Handler σ ε} (fuel : Nat) : ∀ (mem : Nat → UInt8) (len offset : Nat) (s : σ),
    (∀ pkt s', Calls touch process fuel mem len offset s pkt s' → process' pkt s' = process pkt s') →
      processLoop touch process' fuel mem len offset s = processLoop touch process fuel mem len offset s := by
  induction fuel with
  | zero => exact fun _ _ _ _ _ => rfl
  | succ fuel ih =>
      intro mem len offset s hsame
      unfold processLoop
      rw [bind_apply, bind_apply]
      cases ht : touch s with
      | error e => rfl
      | ok p =>
          obtain ⟨_, s₁⟩ := p
          simp only
          by_cases ho : offset < len
          · rw [if_pos ho, if_pos ho]
            cases hr : remainLength (shift mem offset) (len - offset) with
            | needMoreData => rfl
            | failture => rfl
            | length value bytes =>
                simp only
                rw [bind_apply, bind_apply, hsame _ _ (.now ht ho hr)]
                cases hp : process (slice mem offset (value + bytes + 1)) s₁ with
                | error e => rfl
                | ok q =>
                    obtain ⟨⟨res, pkt'⟩, s₂⟩ := q
                    simp only
                    by_cases hres : res < 0
                    · rw [if_pos hres, if_pos hres]
                    · rw [if_neg hres, if_neg hres]
                      exact ih _ _ _ _ fun pkt s' h => hsame pkt s' (.later ht ho hr hp hres h)
          · rw [if_neg ho, if_neg ho]

end Calls

/-- In some run the broker hands the packet to the handlers of connection `k`, in state `b`. -/
def Visit (env : Env) (mp : MsgPack) (k : ConnId) (pkt : ByteStr) (b : Broker) : Prop :=
  ∃ (m : Machine) (r : Read) (output : Bool) (es : List Ready) (b₁ : Broker) (recv : RecvBuffer),
    Reach env mp m ∧ m.batch = .conn k false (some (.bytes r)) output :: es ∧
    recv = (m.broker.recv k).receive (r.limit (maxBufSize - (m.broker.recv k).curBufPos)) ∧
    stampInput k { m.broker with busy := m.batch.filterMap Ready.conn? } = .ok ((), b₁) ∧
    Calls (touch k) (process env k) (recv.curBufPos + 1) recv.mem recv.curBufPos 0 b₁ pkt b

theorem Visit.gate {pkt : ByteStr} (h : Visit env mp k pkt b) : Gate b.log b.sess := by
  obtain ⟨m, r, output, es, b₁, recv, hm, -, -, hstamp, hcalls⟩ := h
  have hevolves : Evolves env (some k) b₁ b :=
    hcalls.rel (F := evolution env (some k) fun _ => False) (fun _ => touch_resp (Or.inl rfl)) fun _ _ => process_resp rfl
  obtain ⟨ls, hlog, hmicros, -⟩ := hevolves.trace
  cases hstamp
  rw [hlog]
  exact hm.gate.micros hmicros

/-- Topic table, retained messages, message store and pending queues are as before. -/
def SameTables (b b' : Broker) : Prop :=
  b'.sess.topicMgr = b.sess.topicMgr ∧ b'.bufs = b.bufs ∧ b'.store = b.store ∧
    ∀ c, (b'.sess.ctxs c).sendMsgQueue = (b.sess.ctxs c).sendMsgQueue

theorem SameTables.refl (b : Broker) : SameTables b b := ⟨rfl, rfl, rfl, fun _ => rfl⟩

/-- `client_context()` touches no table. -/
theorem clientContext_sameTables (h : Gate b.log b.sess) (hc : clientContext env k b = .ok (c, b')) : SameTables b b' := by
  obtain ⟨-, rfl | ⟨hnone, ha, rfl⟩⟩ := clientContext_ok hc
  · exact .refl _
  · refine ⟨rfl, rfl, rfl, fun c' => ?_⟩
    show ((b.sess.newContext k _).ctxs c').sendMsgQueue = _
    rw [Sess.newContext_ctxs]
    split
    · rename_i he
      rw [he, h.blank k ⟨hnone, Or.inl ha⟩]
      rfl
    · rfl

/-- **The gate at work.** A connection that has sent no CONNECT, or has ended its session, gets no further than the
    test of its status. -/
theorem clientContext_status (h : Gate b.log b.sess) (hc : clientContext env k b = .ok (c, b'))
    (hs : (b'.sess.ctxs c).clientStatus = .connected) : ∃ code, ConnectedWith code b.log k := by
  obtain ⟨hof, rfl | ⟨hnone, ha, rfl⟩⟩ := clientContext_ok hc
  · exact h.opened k c hof hs
  · have hself : c = .conn k := by
      have hof' : (b.sess.newContext k (env.cleanGarbage k)).contextOf k = some c := hof
      rw [Sess.newContext_contextOf, if_pos rfl] at hof'
      exact (Option.some.inj hof').symm
    have hs' : ((b.sess.newContext k (env.cleanGarbage k)).ctxs c).clientStatus = .connected := hs
    rw [Sess.newContext_ctxs, if_pos hself] at hs'
    cases hs'

/-- PUBLISH, SUBSCRIBE and UNSUBSCRIBE. -/
def Acting (pkt : ByteStr) : Prop :=
  packetType pkt = .publish ∨ packetType pkt = .subscribe ∨ packetType pkt = .unsubscribe

/-- The way the three handlers begin. -/
theorem gated_ok {α : Type} {v r : α} {f : CtxId → Broker → BrokerM α} (h : Gate b.log b.sess)
    (hx : (clientContext env k >>= fun c => get >>= fun b : Broker =>
      if (b.sess.ctxs c).clientStatus ≠ .connected then pure v else f c b) b = .ok (r, b')) :
    SameTables b b' ∨ ∃ code, ConnectedWith code b.log k := by
  rw [bind_ok] at hx
  obtain ⟨c, b₁, hc, hx⟩ := hx
  rw [get_bind] at hx
  split at hx
  · cases hx
    exact Or.inl (clientContext_sameTables h hc)
  · rename_i hs
    exact Or.inr (clientContext_status h hc (not_not.mp hs))

theorem process_connected {pkt pkt' : ByteStr} {res : Int} (h : Gate b.log b.sess) (hact : Acting pkt)
    (hp : process env k pkt b = .ok ((res, pkt'), b')) :
    SameTables b b' ∨ ∃ code, ConnectedWith code b.log k := by
  unfold process at hp
  rcases hact with htype | htype | htype
  · simp only [htype] at hp
    exact gated_ok h hp
  · simp only [htype] at hp
    unfold keeping at hp
    rw [bind_ok] at hp
    obtain ⟨res', b₁, hx, hp⟩ := hp
    cases hp
    exact gated_ok h hx
  · simp only [htype] at hp
    unfold keeping at hp
    rw [bind_ok] at hp
    obtain ⟨res', b₁, hx, hp⟩ := hp
    cases hp
    exact gated_ok h hx

/-- **Only accepted clients act.** Where no CONNECT of the connection was refused, a PUBLISH, SUBSCRIBE or UNSUBSCRIBE
    changes a table only after a CONNECT that was accepted. -/
theorem visit_admitted {pkt pkt' : ByteStr} {res : Int} (hv : Visit env mp k pkt b) (hact : Acting pkt)
    (haccepted : ∀ msg code c, .connect k msg code c ∈ b.log → code = .accepted)
    (hp : process env k pkt b = .ok ((res, pkt'), b')) : SameTables b b' ∨ Admitted b.log k := by
  rcases process_connected hv.gate hact hp with hsame | ⟨code, hcode⟩
  · exact Or.inl hsame
  · obtain ⟨l, msg, c, l', hlog, hl'⟩ := hcode
    have hmem : Act.connect k msg code c ∈ b.log := by
      rw [hlog]
      exact List.mem_append_right _ List.mem_cons_self
    obtain rfl := haccepted msg code c hmem
    exact Or.inr ⟨l, msg, c, l', hlog, hl'⟩

/-- The broker when the framing loop begins. -/
def Machine.receiving (m : Machine) (k : ConnId) : Broker :=
  { m.broker with
    busy := m.batch.filterMap Ready.conn?
    lastMsgTime := Function.update m.broker.lastMsgTime k m.broker.now
    times := match m.broker.sess.contextOf k with
      | some c => Function.update m.broker.times c { m.broker.times c with lastMsg := m.broker.now }
      | none => m.broker.times }

/-- The first packet of a read. -/
theorem Visit.first {m : Machine} {r : Read} {output : Bool} {es : List Ready} {recv : RecvBuffer} {value bytes : Nat}
    (hm : Reach env mp m) (hb : m.batch = .conn k false (some (.bytes r)) output :: es) (ha : m.broker.sess.Alive k)
    (hrecv : recv = (m.broker.recv k).receive (r.limit (maxBufSize - (m.broker.recv k).curBufPos)))
    (hlen : 0 < recv.curBufPos) (hr : remainLength (RecvBuffer.shift recv.mem 0) recv.curBufPos = .length value bytes) :
    Visit env mp k (RecvBuffer.slice recv.mem 0 (value + bytes + 1)) (m.receiving k) := by
  refine ⟨m, r, output, es, m.receiving k, recv, hm, hb, hrecv, rfl, .now ?_ hlen hr⟩
  exact touch_ok.mpr ⟨rfl, ha⟩

/-- An idle machine that is about to read a packet from a connection. -/
def Machine.reading (m : Machine) (t : Nat) (k : ConnId) (pkt : ByteStr) : Machine :=
  { broker := { m.broker with now := t }, batch := [.input k pkt] }

/-- The buffer that packet is read into. -/
def Machine.reading.recv (m : Machine) (k : ConnId) (pkt : ByteStr) : RecvBuffer :=
  (m.broker.recv k).receive
    (Read.limit { data := pkt, behind := fun _ => 0 } (maxBufSize - (m.broker.recv k).curBufPos))

/-- An idle machine reads a packet, and hands over what its length field says. -/
theorem Visit.of_reading {m : Machine} {t value bytes : Nat} {pkt : ByteStr} (hm : Reach env mp m)
    (hbatch : m.batch.isEmpty = true) (hnow : m.broker.now ≤ t) (halive : m.broker.sess.Alive k)
    (hlen : 0 < (Machine.reading.recv m k pkt).curBufPos)
    (hr : remainLength (RecvBuffer.shift (Machine.reading.recv m k pkt).mem 0) (Machine.reading.recv m k pkt).curBufPos =
      .length value bytes)
    (hpkt : RecvBuffer.slice (Machine.reading.recv m k pkt).mem 0 (value + bytes + 1) = pkt) :
    Visit env mp k pkt ((m.reading t k pkt).receiving k) := by
  have hen : Machine.Enabled m (.wait t [.input k pkt]) := by
    refine ⟨List.isEmpty_iff.mp hbatch, hnow, List.nodup_singleton k, fun k' hk' => ?_⟩
    rw [List.mem_singleton.mp hk']
    exact halive
  have hreach : Reach env mp (m.reading t k pkt) := .step hm hen rfl
  have hvisit : Visit env mp k (RecvBuffer.slice (Machine.reading.recv m k pkt).mem 0 (value + bytes + 1))
      ((m.reading t k pkt).receiving k) := Visit.first hreach rfl halive rfl hlen hr
  rwa [hpkt] at hvisit

/-- The test of an idle machine for the packet to be the one that is handed over first. -/
def Machine.Hands (m : Machine) (t : Nat) (k : ConnId) (pkt : ByteStr) : Prop :=
  m.batch.isEmpty = true ∧ m.broker.now ≤ t ∧ m.broker.sess.Alive k ∧ 2 ≤ pkt.length ∧
    0 < (Machine.reading.recv m k pkt).curBufPos ∧
    remainLength (RecvBuffer.shift (Machine.reading.recv m k pkt).mem 0) (Machine.reading.recv m k pkt).curBufPos =
      .length (pkt.length - 2) 1 ∧
    RecvBuffer.slice (Machine.reading.recv m k pkt).mem 0 pkt.length = pkt

instance (m : Machine) (t : Nat) (k : ConnId) (pkt : ByteStr) : Decidable (m.Hands t k pkt) :=
  inferInstanceAs (Decidable (_ ∧ _))

theorem Visit.of_hands {m : Machine} {t : Nat} {pkt : ByteStr} (hm : Reach env mp m) (h : m.Hands t k pkt) :
    Visit env mp k pkt ((m.reading t k pkt).receiving k) := by
  obtain ⟨hbatch, hnow, halive, htwo, hlen, hr, hpkt⟩ := h
  have hsize : pkt.length - 2 + 1 + 1 = pkt.length := by omega
  refine Visit.of_reading hm hbatch hnow halive hlen hr ?_
  rw [hsize, hpkt]

/-- A CONNECT packet of a protocol version that is not supported. -/
def refusedPacket (clientId : UInt8) : ByteStr :=
  [0x10, 15, 0, 6, 0x4D, 0x51, 0x49, 0x73, 0x64, 0x70, 5, 0, 0, 60, 0, 1, clientId]

/-- The label is not a CONNECT that was accepted. -/
def Act.notAccepted : Act → Bool
  | .connect _ _ code _ => code ≠ .accepted
  | _ => true

/-- The label is not a CONNECT that was refused. -/
def Act.accepted : Act → Bool
  | .connect _ _ code _ => code = .accepted
  | _ => true

theorem not_admitted (h : log.all Act.notAccepted = true) : ¬ Admitted log k := by
  rintro ⟨l, msg, c, l', rfl, -⟩
  have hmem : Act.connect k msg .accepted c ∈ l ++ .connect k msg .accepted c :: l' :=
    List.mem_append_right _ List.mem_cons_self
  have hno := List.all_eq_true.mp h _ hmem
  cases hno

/-- What a connection does that has sent one packet and now sends a SUBSCRIBE. -/
def subscribing (m : Machine) : Machine :=
  { broker := { m.broker with now := 4 }, batch := [.input 0 (subscribePacket 116)] }

/-- The buffer that SUBSCRIBE is read from. -/
def subscribing.recv (m : Machine) : RecvBuffer :=
  ((subscribing m).broker.recv 0).receive
    (Read.limit { data := subscribePacket 116, behind := fun _ => 0 } (maxBufSize - (m.broker.recv 0).curBufPos))

/-- The test of a state for a SUBSCRIBE to be handled next, and to succeed. -/
def subscribing.Succeeds (m : Machine) : Prop :=
  m.batch.isEmpty = true ∧ m.broker.now ≤ 4 ∧ m.broker.sess.Alive 0 ∧ 0 < (subscribing.recv m).curBufPos ∧
    remainLength (RecvBuffer.shift (subscribing.recv m).mem 0) (subscribing.recv m).curBufPos = .length 6 1 ∧
    RecvBuffer.slice (subscribing.recv m).mem 0 8 = subscribePacket 116 ∧
    .conn 0 ∉ m.broker.sess.topicMgr.clients [116] ∧
    (process Env.calm 0 (subscribePacket 116) ((subscribing m).receiving 0)).toOption.any
      (fun p => decide (.conn 0 ∈ p.2.sess.topicMgr.clients [116])) = true

instance (m : Machine) : Decidable (subscribing.Succeeds m) := inferInstanceAs (Decidable (_ ∧ _))

theorem subscribing.visit {m : Machine} (hm : Reach Env.calm packing m) (h : subscribing.Succeeds m) :
    ∃ b b' res pkt', Visit Env.calm packing 0 (subscribePacket 116) b ∧ b.log = m.broker.log ∧
      process Env.calm 0 (subscribePacket 116) b = .ok ((res, pkt'), b') ∧ ¬ SameTables b b' := by
  obtain ⟨hbatch, hnow, halive, hlen, hr, hpkt, hbefore, hafter⟩ := h
  have hvisit : Visit Env.calm packing 0 (subscribePacket 116) ((subscribing m).receiving 0) :=
    Visit.of_reading hm hbatch hnow halive hlen hr hpkt
  obtain ⟨⟨⟨res, pkt'⟩, b'⟩, hp, hin⟩ := (Option.any_eq_true _ _).mp hafter
  have hok := ok_of_toOption hp
  refine ⟨_, b', res, pkt', hvisit, rfl, hok, fun hsame => hbefore ?_⟩
  have hin' := of_decide_eq_true hin
  rw [hsame.1] at hin'
  exact hin'

/-- A client that was accepted subscribes. -/
theorem visit_admitted_subscribe : ∃ b b' res pkt', Visit Env.calm packing 0 (subscribePacket 116) b ∧
    process Env.calm 0 (subscribePacket 116) b = .ok ((res, pkt'), b') ∧ ¬ SameTables b b' ∧ Admitted b.log 0 := by
  have hrun : (Machine.initial.play Env.calm packing
      (Move.alone 1 .accept ++ Move.alone 2 (.input 0 (connectPacket 65 0)))).any
      (fun m => decide (subscribing.Succeeds m ∧ m.broker.log.all Act.accepted = true)) = true := by
    decide +kernel
  obtain ⟨m, hm, hsucc, hlog⟩ := Machine.exists_reach hrun
  obtain ⟨b, b', res, pkt', hv, hb, hp, hdiff⟩ := subscribing.visit hm hsucc
  refine ⟨b, b', res, pkt', hv, hp, hdiff, ?_⟩
  refine (visit_admitted hv (Or.inr (Or.inl rfl)) (fun msg code c hmem => ?_) hp).resolve_left hdiff
  rw [hb] at hmem
  exact of_decide_eq_true (List.all_eq_true.mp hlog _ hmem)

/-- **A refused client acts.** Its CONNECT is answered with the code for a bad version; the SUBSCRIBE behind it is
    carried out. -/
theorem refused_subscribes : ∃ b b' res pkt', Visit Env.calm packing 0 (subscribePacket 116) b ∧
    process Env.calm 0 (subscribePacket 116) b = .ok ((res, pkt'), b') ∧ ¬ (SameTables b b' ∨ Admitted b.log 0) := by
  have hrun : (Machine.initial.play Env.calm packing
      (Move.alone 1 .accept ++ Move.alone 2 (.input 0 (refusedPacket 65)))).any
      (fun m => decide (subscribing.Succeeds m ∧ m.broker.log.all Act.notAccepted = true)) = true := by
    decide +kernel
  obtain ⟨m, hm, hsucc, hlog⟩ := Machine.exists_reach hrun
  obtain ⟨b, b', res, pkt', hv, hb, hp, hdiff⟩ := subscribing.visit hm hsucc
  refine ⟨b, b', res, pkt', hv, hp, ?_⟩
  rintro (hsame | hadm)
  · exact hdiff hsame
  · rw [hb] at hadm
    exact not_admitted hlog hadm

end MqttServer
