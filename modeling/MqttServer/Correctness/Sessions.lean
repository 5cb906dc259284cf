import MqttServer.Correctness.Restore
import MqttServer.Server.Packing

/-!
# `Correctness.Sessions` — sessions and the connections they have

Two facts about the links between sessions and connections, each for the runs in which it holds: no session
points at a dead connection, and a client id has one open connection, which the registry finds. The second one
fails when a CONNECT takes over an online session with `clean_session` set: closing the old connection deletes
the registry entry the new one relies on.
-/

namespace MqttServer

open Lib Exec

variable {env : Env} {mp : MsgPack} {m : Machine}

/-! ## Dead connections -/

/-- No context that the registry or a subscriber set holds points at a connection that is closed, or that
    works for another context; and the registry knows every context by its client id. -/
def Sess.NoneDangling (s : Sess) : Prop :=
  (∀ c k, s.Held c → (s.ctxs c).mqttConnection = some k → s.Alive k ∧ s.contextOf k = some c) ∧
    ∀ clientId c, s.registry.findClientContext clientId = some c → (s.ctxs c).clientId = clientId

/-- A broker none of whose connections carried a second CONNECT has no session that points at a dead
    connection. -/
theorem reach_noneDangling (h : Reach env mp m) (hone : OneConnect m.broker.log) :
    m.broker.sess.NoneDangling := by
  have hl := h.links hone
  refine ⟨?_, hl.key⟩
  intro c k hheld hk
  have hn : Named (connects m.broker.log) c := by
    rcases hheld with ⟨id, hf⟩ | ⟨t, hc⟩
    · exact hl.registered id c hf
    · exact hl.subscribed t c hc
  have hc := hl.linked c k hn hk
  exact ⟨Sess.alive_of_contextOf hc, hc⟩

/-- A client takes over its own session: the old connection is closed and the registry finds the new one. -/
theorem reach_noneDangling_takeover : ∃ m : Machine, Reach Env.calm packing m ∧
    OneConnect m.broker.log ∧ ¬ m.broker.sess.Alive 0 ∧
    m.broker.sess.registry.findClientContext [65] = some (.conn 0) ∧
    (m.broker.sess.ctxs (.conn 0)).mqttConnection = some 1 ∧ m.broker.sess.NoneDangling := by
  have hrun : (Machine.initial.play Env.calm packing
      (Move.alone 1 .accept ++ Move.alone 2 (.input 0 (connectPacket 65 0)) ++ Move.alone 3 .accept ++
        Move.alone 4 (.input 1 (connectPacket 65 0)))).any (fun m => decide (OneConnect m.broker.log ∧
          ¬ m.broker.sess.Alive 0 ∧ m.broker.sess.registry.findClientContext [65] = some (.conn 0) ∧
          (m.broker.sess.ctxs (.conn 0)).mqttConnection = some 1)) = true := by
    decide +kernel
  obtain ⟨m, hm, hone, hdead, hf, hk⟩ := Machine.exists_reach hrun
  exact ⟨m, hm, hone, hdead, hf, hk, reach_noneDangling hm hone⟩

/-- A second CONNECT on a connection, for a session that exists: the first session keeps pointing at the
    connection, also after that is closed. -/
theorem noneDangling_two_connects : ∃ m : Machine, Reach Env.calm packing m ∧
    ¬ m.broker.sess.NoneDangling := by
  have hrun : (Machine.initial.play Env.calm packing
      (Move.alone 1 .accept ++ Move.alone 2 (.input 0 (connectPacket 66 0)) ++
        Move.alone 3 (.hangup 0) ++ Move.alone 4 .accept ++
        Move.alone 5 (.input 1 (connectPacket 65 0)) ++ Move.alone 6 (.input 1 (connectPacket 66 0)) ++
        Move.alone 7 (.hangup 1))).any (fun m => decide (
          m.broker.sess.registry.findClientContext [65] = some (.conn 1) ∧
          (m.broker.sess.ctxs (.conn 1)).mqttConnection = some 1 ∧ ¬ m.broker.sess.Alive 1)) = true := by
    decide +kernel
  obtain ⟨m, hm, hf, hk, hdead⟩ := Machine.exists_reach hrun
  exact ⟨m, hm, fun hs => hdead (hs.1 (.conn 1) 1 (Or.inl ⟨_, hf⟩) hk).1⟩

/-! ## Takeover -/

/-- Closing a connection for another one while its session had `clean_session` set. -/
def Act.cleanTakeover : Act → Bool
  | .close _ _ .takeover clean _ => clean
  | _ => false

/-- No CONNECT took over a session that was online with `clean_session` set. -/
def NoCleanTakeover (log : List Act) : Prop := ∀ a ∈ log, a.cleanTakeover = false

instance (log : List Act) : Decidable (NoCleanTakeover log) := inferInstanceAs (Decidable (∀ a ∈ log, _))

theorem NoCleanTakeover.of_append {l l' : List Act} (h : NoCleanTakeover (l ++ l')) : NoCleanTakeover l :=
  fun a ha => h a (List.mem_append_left _ ha)

/-- Every open connection is bound to the context the registry finds for the client id of its CONNECT. -/
structure Serving (log : List Act) (s : Sess) : Prop where
  links : Links (connects log) s
  ids : ∀ k msg code c, .connect k msg code c ∈ log → msg.clientId ≠ []
  serves : ∀ k msg code c, .connect k msg code c ∈ log → s.Alive k →
    s.contextOf k = some c ∧ s.registry.findClientContext msg.clientId = some c

namespace Serving

variable {log ls : List Act} {s s' : Sess} {k : ConnId} {c : CtxId}

theorem mem_connects {msg : Connect} {code : ConnAckCode} (h : .connect k msg code c ∈ log) :
    (k, c) ∈ connects log := List.mem_filterMap.mpr ⟨_, h, rfl⟩

theorem connected {msg : Connect} {code : ConnAckCode} (h : .connect k msg code c ∈ log) :
    Connected (connects log) k := List.mem_map.mpr ⟨(k, c), mem_connects h, rfl⟩

theorem restored {n : Nat} (h : Restored n s) : Serving [] s := by
  refine ⟨h.links, ?_, ?_⟩
  · intro k msg code c hm
    cases hm
  · intro k msg code c hm
    cases hm

/-- Steps without a CONNECT. -/
theorem keep (h : Serving log s) (hl : Links (connects (log ++ ls)) s') (hq : connects ls = [])
    (hk : ∀ k msg code c, .connect k msg code c ∈ log → s'.Alive k → s.Alive k ∧
      (s.contextOf k = some c → s.registry.findClientContext msg.clientId = some c →
        s'.contextOf k = some c ∧ s'.registry.findClientContext msg.clientId = some c)) :
    Serving (log ++ ls) s' := by
  have hold : ∀ k msg code c, Act.connect k msg code c ∈ log ++ ls → .connect k msg code c ∈ log := by
    intro k msg code c hm
    rcases List.mem_append.mp hm with hm | hm
    · exact hm
    · have hin := mem_connects hm
      rw [hq] at hin
      cases hin
  refine ⟨hl, fun k msg code c hm => h.ids k msg code c (hold _ _ _ _ hm), ?_⟩
  intro k msg code c hm ha
  obtain ⟨ha', himp⟩ := hk k msg code c (hold _ _ _ _ hm) ha
  obtain ⟨hc, hf⟩ := h.serves k msg code c (hold _ _ _ _ hm) ha'
  exact himp hc hf

/-- Steps that change neither connections nor registry. -/
theorem same (h : Serving log s) (hl : Links (connects (log ++ ls)) s') (hq : connects ls = [])
    (hconns : s'.conns = s.conns) (hreg : s'.registry = s.registry) : Serving (log ++ ls) s' := by
  refine h.keep hl hq fun k msg code c _ ha => ?_
  unfold Sess.Alive at ha ⊢
  unfold Sess.contextOf
  rw [hconns] at ha ⊢
  rw [hreg]
  exact ⟨ha, fun hc hf => ⟨hc, hf⟩⟩

/-- Closing a connection deletes no registry entry another open connection relies on. -/
theorem find_close (h : Serving log s) (hc : s.contextOf k = some c) {k' : ConnId} {c' : CtxId}
    {msg : Connect} {code : ConnAckCode} (hm : .connect k' msg code c' ∈ log) (ha : s.Alive k')
    (hne : k' ≠ k) : (s.close k c).registry.findClientContext msg.clientId = some c' := by
  obtain ⟨hc', hf'⟩ := h.serves k' msg code c' hm ha
  rw [Sess.close_registry]
  split
  · have hid : msg.clientId ≠ (s.ctxs c).clientId := by
      intro he
      by_cases hk : Connected (connects log) k
      · obtain ⟨p, hp, rfl⟩ := List.mem_map.mp hk
        obtain ⟨a, ha', hpa⟩ := List.mem_filterMap.mp hp
        cases a with
        | connect k₁ msg₁ code₁ c₁ =>
            cases hpa
            obtain ⟨hc₁, hf₁⟩ := h.serves k₁ msg₁ code₁ c₁ ha' (Sess.alive_of_contextOf hc)
            rw [hc] at hc₁
            cases hc₁
            -- both connections have the session of the same client id
            rw [he, h.links.key _ _ hf₁, hf₁] at hf'
            cases hf'
            exact hne (h.links.contextOf_inj hc' hc)
        | _ => cases hpa
      · have hidle := (h.links.fresh k c hk hc).2
        rw [hidle.2.1] at he
        exact h.ids k' msg code c' hm he
    unfold Registry.findClientContext Registry.delClientContext
    rw [AList.lookup_erase_ne hid]
    exact hf'
  · exact hf'

theorem close (h : Serving log s) {cause : Cause} {clean busy : Bool} (hc : s.contextOf k = some c) :
    Serving (log ++ [.close k c cause clean busy]) (s.close k c) := by
  have hl : Links (connects (log ++ [.close k c cause clean busy])) (s.close k c) := by
    rw [connects_quiet rfl]
    exact h.links.close hc
  refine h.keep hl rfl fun k' msg code c' hm ha => ?_
  obtain ⟨hne, ha⟩ := Sess.alive_close.mp ha
  refine ⟨ha, fun hc' _ => ⟨?_, h.find_close hc hm ha hne⟩⟩
  rw [Sess.close_contextOf, if_neg hne]
  exact hc'

/-- The CONNECT of a session that is offline and registered. -/
theorem resume (h : Serving log s) {msg : Connect} {code : ConnAckCode} (hid : msg.clientId ≠ [])
    (hn : ¬ Connected (connects log) k) (hl : Links (connects (log ++ [.connect k msg code c]))
      (s.resume k c msg)) (hf : s.registry.findClientContext msg.clientId = some c) :
    Serving (log ++ [.connect k msg code c]) (s.resume k c msg) := by
  refine ⟨hl, ?_, ?_⟩
  · intro k' msg' code' c' hm
    rcases List.mem_append.mp hm with hm | hm
    · exact h.ids _ _ _ _ hm
    · cases List.mem_singleton.mp hm
      exact hid
  · intro k' msg' code' c' hm ha
    rw [Sess.resume_contextOf]
    rcases List.mem_append.mp hm with hm' | hm'
    · have hne : k' ≠ k := by
        rintro rfl
        exact hn (connected hm')
      rw [if_neg hne]
      exact h.serves _ _ _ _ hm' ((Sess.alive_resume.mp ha).resolve_left hne)
    · cases List.mem_singleton.mp hm'
      rw [if_pos rfl]
      exact ⟨rfl, hf⟩

theorem register (h : Serving log s) {msg : Connect} {code : ConnAckCode} (hid : msg.clientId ≠ [])
    (hl : Links (connects (log ++ [.connect k msg code c])) (s.register c msg))
    (hc : s.contextOf k = some c) (hf : s.registry.findClientContext msg.clientId = none) :
    Serving (log ++ [.connect k msg code c]) (s.register c msg) := by
  have hreg : (s.register c msg).registry = s.registry.insert msg.clientId c := by
    unfold Registry.findClientContext at hf
    unfold Sess.register Registry.addClientContext
    rw [hf]
  refine ⟨hl, ?_, ?_⟩
  · intro k' msg' code' c' hm
    rcases List.mem_append.mp hm with hm | hm
    · exact h.ids _ _ _ _ hm
    · cases List.mem_singleton.mp hm
      exact hid
  · intro k' msg' code' c' hm ha
    rw [hreg]
    unfold Registry.findClientContext at hf ⊢
    rcases List.mem_append.mp hm with hm | hm
    · obtain ⟨hc', hf'⟩ := h.serves _ _ _ _ hm ha
      refine ⟨hc', ?_⟩
      rw [AList.lookup_insert_ne]
      · exact hf'
      · intro he
        unfold Registry.findClientContext at hf'
        rw [he, hf] at hf'
        cases hf'
    · cases List.mem_singleton.mp hm
      exact ⟨hc, AList.lookup_insert _⟩

theorem atom (hone : OneConnect (log ++ ls)) (hclean : NoCleanTakeover (log ++ ls)) (h : Serving log s)
    (ha : Atom s ls s') : Serving (log ++ ls) s' := by
  have hl := h.links.atom hone ha
  cases ha with
  | accept =>
      refine h.keep hl rfl fun k msg code c hm ha => ?_
      have hne : k ≠ s.nextConn := by
        rintro rfl
        exact (h.links.future _ (Nat.le_refl _)).2 (connected hm)
      unfold Sess.Alive at ha ⊢
      unfold Sess.contextOf
      rw [Sess.accept_conns, if_neg hne] at ha ⊢
      exact ⟨ha, fun hc hf => ⟨hc, hf⟩⟩
  | @context k clean halive hc =>
      refine h.keep hl rfl fun k' msg code c' hm ha => ?_
      refine ⟨alive_newContext halive ha, fun hc' hf => ⟨?_, hf⟩⟩
      rw [Sess.newContext_contextOf, if_neg]
      · exact hc'
      · rintro rfl
        rw [hc] at hc'
        cases hc'
  | resume hid _ hf _ => exact h.resume hid (not_connected_of_one hone) hl hf
  | @takeover k last c c' msg code busy hid hf hlast hc halive =>
      have hcc : c' = c := by
        have hc' := h.links.linked c last (h.links.registered _ _ hf) hlast
        rw [hc] at hc'
        exact Option.some.inj hc'
      subst hcc
      have hnot : (s.ctxs c').cleanSession = false :=
        hclean (.close last c' .takeover (s.ctxs c').cleanSession busy) (by simp)
      have hclose : Serving (log ++ [.close last c' .takeover (s.ctxs c').cleanSession busy])
          (s.close last c') := h.close hc
      have happ : log ++ [.close last c' .takeover (s.ctxs c').cleanSession busy, .connect k msg code c'] =
          log ++ [.close last c' .takeover (s.ctxs c').cleanSession busy] ++ [.connect k msg code c'] := by
        simp
      rw [happ] at hone hl ⊢
      refine hclose.resume hid (not_connected_of_one hone) hl ?_
      rw [Sess.close_registry, hnot]
      exact hf
  | register hid hc hf => exact h.register hid hl hc hf
  | unsubscribe hc => exact h.same hl rfl rfl rfl
  | topics hmgr => exact h.same hl rfl rfl rfl
  | puback idOf hc => exact h.same hl rfl rfl rfl
  | disconnect hc => exact h.same hl rfl rfl rfl
  | put halive => exact h.same hl rfl rfl rfl
  | close hc => exact h.close hc

theorem micro (hone : OneConnect (log ++ ls)) (hclean : NoCleanTakeover (log ++ ls)) (h : Serving log s)
    (hm : Micro s ls s') : Serving (log ++ ls) s' := by
  have hl := h.links.micro hone hm
  cases hm with
  | atom ha => exact h.atom hone hclean ha
  | list _ _ => exact h.same hl rfl rfl rfl
  | set _ _ => exact h.same hl rfl Sess.subscribe_conns Sess.subscribe_registry
  | retained _ _ => exact h.same hl rfl Sess.subscribe_conns Sess.subscribe_registry
  | publish => exact h.same hl rfl rfl rfl
  | publishAll => exact h.same hl rfl rfl rfl
  | deliver _ => exact h.same hl rfl rfl rfl

end Serving

theorem Reach.serving (h : Reach env mp m) (hone : OneConnect m.broker.log)
    (hclean : NoCleanTakeover m.broker.log) : Serving m.broker.log m.broker.sess := by
  refine Reach.invariant (I := Serving) (G := fun l => OneConnect l ∧ NoCleanTakeover l)
    (fun _ _ hg => ⟨hg.1.of_append, hg.2.of_append⟩) (fun _ _ hr => Serving.restored hr) ?_ h ⟨hone, hclean⟩
  intro log s ls s' hgood hs hm _
  exact Trace.invariant (I := Serving) (G := fun l => OneConnect l ∧ NoCleanTakeover l)
    (fun _ _ hg => ⟨hg.1.of_append, hg.2.of_append⟩) (fun _ _ _ _ hg hs hm => hs.micro hg.1 hg.2 hm)
    hm log hgood hs

/-- An accepted CONNECT of the connection for the client id. -/
def Act.carries (k : ConnId) (clientId : ByteStr) : Act → Bool
  | .connect k' msg code _ => decide (k' = k ∧ code = .accepted ∧ msg.clientId = clientId)
  | _ => false

/-- The accepted CONNECT of a connection carried the client id. -/
def Carried (log : List Act) (k : ConnId) (clientId : ByteStr) : Prop :=
  ∃ a ∈ log, a.carries k clientId = true

instance (log : List Act) (k : ConnId) (clientId : ByteStr) : Decidable (Carried log k clientId) :=
  inferInstanceAs (Decidable (∃ a ∈ log, _))

theorem Carried.connect {log : List Act} {k : ConnId} {clientId : ByteStr} (h : Carried log k clientId) :
    ∃ msg c, Act.connect k msg .accepted c ∈ log ∧ msg.clientId = clientId := by
  obtain ⟨a, ha, hc⟩ := h
  cases a with
  | connect k' msg code c =>
      obtain ⟨rfl, rfl, hid⟩ := of_decide_eq_true hc
      exact ⟨msg, c, ha, hid⟩
  | _ => cases hc

/-- A client id has at most one open connection, and the context of that is the one the registry finds. -/
def Exclusive (log : List Act) (s : Sess) : Prop :=
  ∀ clientId k, Carried log k clientId → s.Alive k →
    (∀ k', Carried log k' clientId → s.Alive k' → k' = k) ∧
      ∃ c, s.contextOf k = some c ∧ s.registry.findClientContext clientId = some c

/-- Takeover is exclusive in a broker in which no CONNECT took over an online clean session. -/
theorem reach_exclusive (h : Reach env mp m) (hone : OneConnect m.broker.log)
    (hclean : NoCleanTakeover m.broker.log) : Exclusive m.broker.log m.broker.sess := by
  have hs := h.serving hone hclean
  intro clientId k hcar ha
  obtain ⟨msg, c, hm, rfl⟩ := hcar.connect
  obtain ⟨hc, hf⟩ := hs.serves _ _ _ _ hm ha
  refine ⟨?_, c, hc, hf⟩
  intro k' hcar' ha'
  obtain ⟨msg', c', hm', hid⟩ := hcar'.connect
  obtain ⟨hc', hf'⟩ := hs.serves _ _ _ _ hm' ha'
  rw [hid, hf] at hf'
  cases hf'
  exact hs.links.contextOf_inj hc' hc

/-- Three CONNECTs for one client id, without `clean_session`. -/
theorem reach_exclusive_three : ∃ m : Machine, Reach Env.calm packing m ∧ OneConnect m.broker.log ∧
    NoCleanTakeover m.broker.log ∧ (connects m.broker.log).length = 3 ∧ m.broker.sess.Alive 2 ∧
    Exclusive m.broker.log m.broker.sess := by
  have hrun : (Machine.initial.play Env.calm packing
      (Move.alone 1 .accept ++ Move.alone 2 .accept ++ Move.alone 3 .accept ++
        Move.alone 4 (.input 0 (connectPacket 65 0)) ++ Move.alone 5 (.input 1 (connectPacket 65 0)) ++
        Move.alone 6 (.input 2 (connectPacket 65 0)))).any (fun m => decide (OneConnect m.broker.log ∧
          NoCleanTakeover m.broker.log ∧ (connects m.broker.log).length = 3 ∧
          m.broker.sess.Alive 2)) = true := by
    decide +kernel
  obtain ⟨m, hm, hone, hclean, hlen, ha⟩ := Machine.exists_reach hrun
  exact ⟨m, hm, hone, hclean, hlen, ha, reach_exclusive hm hone hclean⟩

/-- Three CONNECTs for one client id, with `clean_session`: the first takeover deletes the registry entry,
    so the third CONNECT does not find the second connection, and both stay open. -/
theorem exclusive_three_clean : ∃ m : Machine, Reach Env.calm packing m ∧ OneConnect m.broker.log ∧
    ¬ Exclusive m.broker.log m.broker.sess := by
  have hrun : (Machine.initial.play Env.calm packing
      (Move.alone 1 .accept ++ Move.alone 2 .accept ++ Move.alone 3 .accept ++
        Move.alone 4 (.input 0 (connectPacket 65 2)) ++ Move.alone 5 (.input 1 (connectPacket 65 2)) ++
        Move.alone 6 (.input 2 (connectPacket 65 2)))).any (fun m => decide (OneConnect m.broker.log ∧
          m.broker.sess.Alive 1 ∧ m.broker.sess.Alive 2 ∧ Carried m.broker.log 1 [65] ∧
          Carried m.broker.log 2 [65])) = true := by
    decide +kernel
  obtain ⟨m, hm, hone, ha₁, ha₂, h₁, h₂⟩ := Machine.exists_reach hrun
  exact ⟨m, hm, hone, fun he => absurd ((he [65] 1 h₁ ha₁).1 2 h₂ ha₂) (by decide)⟩

end MqttServer
