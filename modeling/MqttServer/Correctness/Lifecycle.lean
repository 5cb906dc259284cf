import MqttServer.Correctness.Restore
import MqttServer.Server.Packing

/-!
# `Correctness.Lifecycle` — connections are closed once and not used afterwards

`handle_close` deletes the connection, and not only the event loop calls it: a hard write error does, a CONNECT
for the same client id, and the idle check. Where one of these closes a connection that is *busy* (the handler
of the event at hand, or of a later one of the batch) the connection is used again. Where none does, and no
connection carries a second CONNECT, no connection is ever used after its end.
-/

namespace MqttServer

open Lib Exec

variable {env : Env} {mp : MsgPack} {m : Machine} {s s' : Sess} {ls log : List Act} {k : ConnId}

/-! ## What a step does to the set of live connections -/

/-- The connection a label closes. -/
def Act.close? : Act → Option ConnId
  | .close k _ _ _ _ => some k
  | _ => none

/-- The connections closed in a trace, one entry for each call of `handle_close`. -/
def closes (log : List Act) : List ConnId := log.filterMap Act.close?

@[simp] theorem closes_append (l l' : List Act) : closes (l ++ l') = closes l ++ closes l' :=
  List.filterMap_append

/-- One change of the tables accepts a connection, closes one, or does neither. -/
inductive Lives (s : Sess) (ls : List Act) (s' : Sess) : Prop where
  | opens (hn : s'.nextConn = s.nextConn + 1) (hc : closes ls = [])
      (h : ∀ k, s'.Alive k ↔ k = s.nextConn ∨ s.Alive k)
  | keeps (hn : s'.nextConn = s.nextConn) (hc : closes ls = []) (h : ∀ k, s'.Alive k ↔ s.Alive k)
  | ends (k : ConnId) (hn : s'.nextConn = s.nextConn) (hc : closes ls = [k]) (hk : s.Alive k)
      (h : ∀ k', s'.Alive k' ↔ k' ≠ k ∧ s.Alive k')

theorem Lives.same (hn : s'.nextConn = s.nextConn) (hc : closes ls = []) (h : s'.conns = s.conns) :
    Lives s ls s' := by
  refine .keeps hn hc fun k => ?_
  unfold Sess.Alive
  rw [h]

theorem Atom.lives (h : Atom s ls s') : Lives s ls s' := by
  cases h with
  | accept =>
      refine .opens rfl rfl fun k => ?_
      unfold Sess.Alive
      rw [Sess.accept_conns]
      by_cases hk : k = s.nextConn
      · simp [hk]
      · simp [hk]
  | context ha _ =>
      refine .keeps rfl rfl fun k => ⟨alive_newContext ha, fun hk => ?_⟩
      exact Sess.alive_setContext.mpr (Or.inr hk)
  | resume _ ha _ _ =>
      refine .keeps rfl rfl fun k => ⟨fun hk => ?_, fun hk => Sess.alive_resume.mpr (Or.inr hk)⟩
      rcases Sess.alive_resume.mp hk with rfl | hk
      · exact ha
      · exact hk
  | @takeover k last c c' msg code busy _ hf hl hc ha =>
      refine .ends last (Sess.close_nextConn (k := last)) rfl (Sess.alive_of_contextOf hc) fun k' => ?_
      rw [Sess.alive_resume, ← Sess.alive_close (c := c')]
      constructor
      · rintro (rfl | hk')
        · exact ha
        · exact hk'
      · exact Or.inr
  | register _ _ _ => exact .same rfl rfl rfl
  | unsubscribe _ => exact .same rfl rfl rfl
  | topics _ => exact .same rfl rfl rfl
  | puback _ _ => exact .same rfl rfl rfl
  | disconnect _ => exact .same rfl rfl rfl
  | put _ => exact .same rfl rfl rfl
  | close hc =>
      exact .ends _ Sess.close_nextConn rfl (Sess.alive_of_contextOf hc) fun k' => Sess.alive_close

theorem Micro.lives (h : Micro s ls s') : Lives s ls s' := by
  cases h with
  | atom ha => exact ha.lives
  | list _ _ => exact .same rfl rfl rfl
  | set _ _ => exact .same Sess.subscribe_nextConn rfl Sess.subscribe_conns
  | retained _ _ => exact .same Sess.subscribe_nextConn rfl Sess.subscribe_conns
  | publish => exact .same rfl rfl rfl
  | publishAll => exact .same rfl rfl rfl
  | deliver _ => exact .same rfl rfl rfl

/-- A connection that dies is closed. -/
theorem Micros.mem_closes (h : Micros s ls s') (ha : s.Alive k) (hd : ¬ s'.Alive k) : k ∈ closes ls := by
  induction h with
  | nil => exact absurd ha hd
  | @cons s s₁ s' ls ls' hm _ ih =>
      rw [closes_append]
      cases hm.lives with
      | opens hn hc hiff =>
          rw [hc]
          exact ih ((hiff k).mpr (Or.inr ha)) hd
      | keeps hn hc hiff =>
          rw [hc]
          exact ih ((hiff k).mpr ha) hd
      | ends j hn hc hj hiff =>
          rw [hc]
          by_cases hk : k = j
          · exact List.mem_append_left _ (List.mem_singleton.mpr hk)
          · exact List.mem_append_right _ (ih ((hiff k).mpr ⟨hk, ha⟩) hd)

/-! ## Closed once -/

/-- Closed connections stay closed. -/
structure Retired (log : List Act) (s : Sess) : Prop where
  dead : ∀ k ∈ closes log, ¬ s.Alive k ∧ k < s.nextConn
  accepted : ∀ k, s.Alive k → k < s.nextConn
  once : (closes log).Nodup

theorem Retired.micro (h : Retired log s) (hm : Micro s ls s') : Retired (log ++ ls) s' := by
  cases hm.lives with
  | opens hn hc hiff =>
      refine ⟨?_, ?_, ?_⟩
      · intro k hk
        rw [closes_append, hc, List.append_nil] at hk
        obtain ⟨hd, hlt⟩ := h.dead k hk
        refine ⟨fun ha => ?_, hn ▸ Nat.lt_succ_of_lt hlt⟩
        -- the new connection has a number that was never given out
        rcases (hiff k).mp ha with rfl | ha
        · exact Nat.lt_irrefl _ hlt
        · exact hd ha
      · intro k ha
        rw [hn]
        rcases (hiff k).mp ha with rfl | ha
        · exact Nat.lt_succ_self _
        · exact Nat.lt_succ_of_lt (h.accepted k ha)
      · rw [closes_append, hc, List.append_nil]
        exact h.once
  | keeps hn hc hiff =>
      refine ⟨?_, ?_, ?_⟩
      · intro k hk
        rw [closes_append, hc, List.append_nil] at hk
        rw [hiff, hn]
        exact h.dead k hk
      · intro k ha
        rw [hn]
        exact h.accepted k ((hiff k).mp ha)
      · rw [closes_append, hc, List.append_nil]
        exact h.once
  | ends j hn hc hj hiff =>
      refine ⟨?_, ?_, ?_⟩
      · intro k hk
        rw [closes_append, hc] at hk
        rw [hiff, hn]
        rcases List.mem_append.mp hk with hk | hk
        · exact ⟨fun ha => (h.dead k hk).1 ha.2, (h.dead k hk).2⟩
        · cases List.mem_singleton.mp hk
          exact ⟨fun ha => ha.1 rfl, h.accepted j hj⟩
      · intro k ha
        rw [hn]
        exact h.accepted k ((hiff k).mp ha).2
      · rw [closes_append, hc]
        -- a connection that has ended is dead and cannot end again
        refine List.nodup_append.mpr ⟨h.once, List.nodup_singleton j, ?_⟩
        intro k hk j' hj'
        cases List.mem_singleton.mp hj'
        rintro rfl
        exact (h.dead k hk).1 hj

theorem Retired.micros (h : Retired log s) (hm : Micros s ls s') : Retired (log ++ ls) s' :=
  Trace.invariant (I := Retired) (G := fun _ => True) (fun _ _ _ => trivial)
    (fun _ _ _ _ _ h hm => h.micro hm) hm log trivial h

theorem Reach.retired (h : Reach env mp m) : Retired m.broker.log m.broker.sess := by
  refine Reach.invariant (I := Retired) (G := fun _ => True) (fun _ _ _ => trivial) ?_
    (fun _ _ _ _ _ h hm _ => h.micros hm) h trivial
  intro n s hr
  refine ⟨?_, ?_, List.nodup_nil⟩
  · intro k hk
    cases hk
  · intro k ha
    unfold Sess.Alive at ha
    rw [hr.conns] at ha
    cases ha

/-! ## The batch -/

/-- A close of a busy connection by anyone but the event loop. -/
def Act.closesBusy : Act → Bool
  | .close _ _ cause _ busy => decide (cause ≠ .event) && busy
  | _ => false

/-- No connection was closed from inside of a handler while it was the handler of the event at hand or of a
    later one of the batch. -/
def NoneBusyClosed (log : List Act) : Prop := ∀ a ∈ log, a.closesBusy = false

instance (log : List Act) : Decidable (NoneBusyClosed log) := inferInstanceAs (Decidable (∀ a ∈ log, _))

theorem NoneBusyClosed.of_append {l l' : List Act} (h : NoneBusyClosed (l ++ l')) : NoneBusyClosed l :=
  fun a ha => h a (List.mem_append_left _ ha)

theorem mem_closes_label (h : k ∈ closes ls) :
    ∃ c cause clean busy, Act.close k c cause clean busy ∈ ls := by
  obtain ⟨a, ha, hk⟩ := List.mem_filterMap.mp h
  cases a with
  | close k' c cause clean busy =>
      cases hk
      exact ⟨c, cause, clean, busy, ha⟩
  | _ => cases hk

/-- The handlers of the events to come are alive. -/
theorem Reach.batch_alive (h : Reach env mp m) : NoneBusyClosed m.broker.log →
    (m.batch.filterMap Ready.conn?).Nodup ∧ ∀ k ∈ m.batch.filterMap Ready.conn?, m.broker.sess.Alive k := by
  induction h with
  | start _ => exact fun _ => ⟨List.nodup_nil, fun k hk => by cases hk⟩
  | @step m m' mv _ en hs ih =>
      intro hbusy
      rcases Machine.step_cases hs with ⟨hsess, hlog, hbatch⟩ | ⟨e, hbatch, -, ls, hlog, hm, -, hout⟩
      · rw [hlog] at hbusy
        rw [hsess]
        rcases hbatch with hbatch | ⟨now, rfl⟩
        · rw [hbatch]
          exact ih hbusy
        · exact ⟨en.2.2.1, en.2.2.2⟩
      · rw [hlog] at hbusy
        obtain ⟨hnodup, halive⟩ := ih hbusy.of_append
        rw [hbatch] at hnodup halive
        have hsub : ∀ k ∈ m'.batch.filterMap Ready.conn?, k ∈ (e :: m'.batch).filterMap Ready.conn? :=
          fun k hk => (List.Sublist.filterMap _ (List.sublist_cons_self e m'.batch)).mem hk
        refine ⟨hnodup.sublist (List.Sublist.filterMap _ (List.sublist_cons_self e m'.batch)), ?_⟩
        intro k hk
        by_contra hd
        obtain ⟨c, cause, clean, busy, hin⟩ := mem_closes_label (hm.mem_closes (halive k (hsub k hk)) hd)
        obtain ⟨hcause, hflag⟩ := hout _ hin
        have hnot := hbusy _ (List.mem_append_right _ hin)
        rw [hflag] at hnot
        by_cases hev : cause = .event
        · -- the event loop closes the connection of the event, which comes once in a batch
          obtain hke : e.conn? = some k := hcause hev
          rw [List.filterMap_cons_some hke] at hnodup
          exact (List.nodup_cons.mp hnodup).1 hk
        · simp [Act.closesBusy, hev, hsub k hk] at hnot

/-! ## Never used again -/

/-- The states of a run, also the one in which it stops in a fault. -/
inductive Reached (env : Env) (mp : MsgPack) : Option Fault → Broker → Prop where
  | running {m : Machine} (h : Reach env mp m) : Reached env mp none m.broker
  | stopped {m : Machine} {mv : Move} {f : Fault} {b : Broker} (h : Reach env mp m) (en : m.Enabled mv)
      (hs : m.step env mp mv = .error (f, b)) : Reached env mp (some f) b

/-- Only an event can fault. -/
theorem Machine.step_error {mv : Move} {f : Fault × Broker} (h : m.step env mp mv = .error f) :
    ∃ e es, m.batch = e :: es ∧
      Faults env e.conn? m.broker.sess.Registered { m.broker with busy := (e :: es).filterMap Ready.conn? } f := by
  cases mv with
  | wait now batch => cases h
  | next =>
      unfold Machine.step at h
      cases hb : m.batch with
      | nil =>
          simp only [hb] at h
          cases h
      | cons e es =>
          simp only [hb] at h
          split at h
          · cases h
          · rename_i f' he
            cases h
            exact ⟨e, es, rfl, runEvent_error he⟩
  | http header topic msg =>
      unfold Machine.step notifyMqttPublish at h
      simp only [get_bind] at h
      cases he : Publish.encode _ (msg.length + topic.length + 8) with
      | none =>
          rw [he] at h
          cases h
      | some bytes =>
          rw [he] at h
          cases h
  | bridge buf =>
      unfold Machine.step bridgePublish at h
      simp only at h
      cases hd : Publish.decode.decode buf with
      | none =>
          rw [hd] at h
          cases h
      | some msg =>
          rw [hd] at h
          cases h

/-- `handle_close` ran at most once on every connection, and no connection was used after that. -/
def Lifecycle (f : Option Fault) (b : Broker) : Prop :=
  (closes b.log).Nodup ∧ ∀ k, f ≠ some (.useAfterFree k)

/-- The lifecycle of connections is respected in every run in which no connection carries a second CONNECT
    and none is closed while it is busy. -/
theorem reached_lifecycle {f : Option Fault} {b : Broker} (h : Reached env mp f b) (hone : OneConnect b.log)
    (hbusy : NoneBusyClosed b.log) : Lifecycle f b := by
  cases h with
  | running h => exact ⟨h.retired.once, fun k hk => by cases hk⟩
  | @stopped m mv f b h en hs =>
      obtain ⟨e, es, hbatch, hflt⟩ := Machine.step_error hs
      obtain ⟨ls, hlog, hm, hinner⟩ := hflt.trace
      have hlog' : b.log = m.broker.log ++ ls := hlog
      rw [hlog'] at hone hbusy
      refine ⟨?_, ?_⟩
      · rw [hlog']
        exact (h.retired.micros hm).once
      · rintro k ⟨⟩
        obtain ⟨hd, hcause⟩ := hflt.cause k rfl
        rcases hcause with hk | ⟨c, hc, hk⟩
        · -- the connection of the event: it was alive before, so a handler closed it
          have hin : k ∈ m.batch.filterMap Ready.conn? := by
            rw [hbatch, List.filterMap_cons_some hk]
            exact List.mem_cons_self
          have ha := (h.batch_alive hbusy.of_append).2 k hin
          obtain ⟨c, cause, clean, busy, hin'⟩ := mem_closes_label (hm.mem_closes ha hd)
          obtain ⟨hev, hflag⟩ := hinner _ hin'
          have hnot := hbusy _ (List.mem_append_right _ hin')
          rw [hbatch] at hin
          rw [hflag] at hnot
          simp [Act.closesBusy, hev, hin] at hnot
        · -- another one: a session points at it, and sessions point at live connections
          have hl := h.links hone.of_append
          have hl' := hl.micros hone hm
          have hn : Named (connects (m.broker.log ++ ls)) c := by
            rcases hc with (⟨id, hf⟩ | ⟨t, ht⟩) | ⟨id, hf⟩
            · exact hl'.registered id c hf
            · exact hl'.subscribed t c ht
            · rcases hl.registered id c hf with hn | hn
              · exact Or.inl hn
              · rw [connects_append]
                refine Or.inr ?_
                rw [List.map_append]
                exact List.mem_append_left _ hn
          exact hd (Sess.alive_of_contextOf (hl'.linked c k hn hk))

/-- A takeover closes the old connection, which no event of the batch is for. -/
theorem reached_lifecycle_takeover : ∃ b : Broker, Reached Env.calm packing none b ∧ OneConnect b.log ∧
    NoneBusyClosed b.log ∧ closes b.log = [0] ∧ Lifecycle none b := by
  have hrun : (Machine.initial.play Env.calm packing
      (Move.alone 1 .accept ++ Move.alone 2 (.input 0 (connectPacket 65 0)) ++ Move.alone 3 .accept ++
        Move.alone 4 (.input 1 (connectPacket 65 0)))).any (fun m => decide (OneConnect m.broker.log ∧
          NoneBusyClosed m.broker.log ∧ closes m.broker.log = [0])) = true := by
    decide +kernel
  obtain ⟨m, hm, hone, hbusy, hc⟩ := Machine.exists_reach hrun
  exact ⟨m.broker, .running hm, hone, hbusy, hc, reached_lifecycle (.running hm) hone hbusy⟩

/-- An outside in which every write fails hard. -/
def Env.reset : Env := { Env.calm with write := fun _ _ => { errnoBefore := .none, out := .failed .other } }

/-- The CONNACK cannot be written: `put` deletes the connection, and `handle_connect_msg` goes on with it. -/
theorem lifecycle_connack_lost : ∃ f b, Reached Env.reset packing f b ∧ ¬ Lifecycle f b := by
  have hrun : (Machine.initial.play Env.reset packing
      (Move.alone 1 .accept ++ [.wait 2 [.input 0 (connectPacket 65 0)]])).any (fun m =>
        decide (m.Enabled .next ∧ (match m.step Env.reset packing .next with
          | .error f => decide (f.1 = .useAfterFree 0)
          | .ok _ => false) = true)) = true := by
    decide +kernel
  obtain ⟨m, hm, hen, hf⟩ := Machine.exists_reach hrun
  cases hs : m.step Env.reset packing .next with
  | ok m' =>
      rw [hs] at hf
      cases hf
  | error f =>
      rw [hs] at hf
      obtain ⟨f, b⟩ := f
      exact ⟨some f, b, .stopped hm hen hs, fun hl => hl.2 0 (congrArg some (of_decide_eq_true hf))⟩

end MqttServer
