import MqttServer.Correctness.Crash

/-!
# `Correctness.Flush` — the periodic flush

The timer calls `store(false)`, which writes the file only when the message table has changed since the last flush:
it compares `last_update_time`, which only `add_msg` sets, with the value it had then. Both are whole seconds. A change
of a session, a subscription, a pending queue or a retained message without a new message is not seen, nor is a new
message in the second of the last one that was flushed. In a run in which each change comes with such a mark
(`Careful`), a flush that returns leaves a file from which the current state is restored (`flush_saves`).
-/

namespace MqttServer

open Lib Exec

variable {env env' : Env} {mp : MsgPack} {b b' b₁ b₂ : Broker} {m m' : Machine} {mv : Move} {r : Int}

/-! ## What is to be saved -/

/-- The session of a client, with its subscriptions and its pending messages, if it is a persistent one. -/
def Broker.session (b : Broker) (id : ByteStr) : Option (Set ByteStr × List (Nat × ByteStr)) :=
  match b.sess.registry.findClientContext id with
  | none => none
  | some c =>
      if (b.sess.ctxs c).cleanSession then none else some ({t | c ∈ b.sess.topicMgr.clients t}, b.pending c)

/-- What a restart is to bring back. -/
structure Saved where
  lastMsgId : Nat
  session : ByteStr → Option (Set ByteStr × List (Nat × ByteStr))
  retained : ByteStr → Option (Nat × ByteStr)

def Broker.saved (b : Broker) : Saved :=
  { lastMsgId := b.store.lastMsgId, session := b.session, retained := b.retained }

/-- A client has a persistent session, or none. -/
theorem session_cases (b : Broker) (id : ByteStr) :
    (∃ c, b.sess.registry.findClientContext id = some c ∧ (b.sess.ctxs c).cleanSession = false) ∨
      ∀ c, b.sess.registry.findClientContext id = some c → (b.sess.ctxs c).cleanSession = true := by
  rw [or_iff_not_imp_left]
  intro h c hc
  rw [← Bool.not_eq_false]
  exact fun hclean => h ⟨c, hc, hclean⟩

theorem session_persistent {id : ByteStr} {c : CtxId} (hfind : b.sess.registry.findClientContext id = some c)
    (hclean : (b.sess.ctxs c).cleanSession = false) :
    b.session id = some ({t | c ∈ b.sess.topicMgr.clients t}, b.pending c) := by
  unfold Broker.session
  rw [hfind]
  simp only [hclean, Bool.false_eq_true, if_false]

theorem session_clean {id : ByteStr} (h : ∀ c, b.sess.registry.findClientContext id = some c →
    (b.sess.ctxs c).cleanSession = true) : b.session id = none := by
  unfold Broker.session
  cases hfind : b.sess.registry.findClientContext id with
  | none => rfl
  | some c => simp only [h c hfind, if_true]

/-- **What comes back from a complete file** is what was to be saved. -/
theorem Revived.saved {st st' : RestoreState} {b₃ b₄ : Broker}
    (h : Revived b.store.lastMsgId (storedMsgs env b) (storedInfos env b) (retainMap env b) st st' b₃ b₄ b₂) (hk : Keyed b) (hsess : SessionsStorable b) (hret : RetainedStorable b) :
    b₂.saved = b.saved := by
  have hlast : b₂.store.lastMsgId = b.store.lastMsgId := by
    rw [h.retained.lastMsgId, h.resumed.store, h.lastMsgId]
  have hids : ∀ id c, b.sess.registry.findClientContext id = some c → (b.sess.ctxs c).cleanSession = false →
      (b.sess.ctxs c).clientId = id := fun id c hc hclean => (hsess id c hc hclean).1
  have hsession : ∀ id, b₂.session id = b.session id := by
    intro id
    rcases session_cases b id with ⟨c, hc, hclean⟩ | hclean
    · obtain ⟨-, htopics, hqueue⟩ := hsess id c hc hclean
      obtain ⟨c', hfind, hclean', hsub, hpend⟩ := h.session hk hids hc hclean
      have hset : {t | c' ∈ b₂.sess.topicMgr.clients t} = {t | c ∈ b.sess.topicMgr.clients t} :=
        Set.ext fun t => (hsub t).trans (htopics t).symm
      rw [session_persistent hfind hclean', session_persistent hc hclean, hset, hpend,
        (pending_filterMap_iff hk).mpr hqueue]
    · rw [session_clean hclean]
      refine session_clean fun c' hc' => ?_
      -- a restored session has the id of a stored one
      rw [h.retained.registry] at hc'
      rcases h.resumed.only id c' hc' with hempty | ⟨info, hinfo, rfl⟩
      · rw [h.empty] at hempty
        cases hempty
      · obtain ⟨c, hc, rfl⟩ := List.mem_map.mp hinfo
        obtain ⟨⟨id', hid'⟩, hcl⟩ := mem_storedClients.mp hc
        have hkey : (ClientInfo.ofContext b c).clientId = id' := hids id' c hid' hcl
        rw [hkey] at hclean
        rw [hclean c hid'] at hcl
        cases hcl
  unfold Broker.saved
  rw [hlast, funext hsession, funext fun t => h.retained_all hret t]

/-! ## Closing idle sessions -/

/-- Closing the connections of these sessions takes no persistent session out of the registry: a clean session on one
    of them does not have the client id of a persistent one. -/
def Unmixed (cs : List CtxId) (b : Broker) : Prop :=
  ∀ x ∈ cs, ∀ k ∈ (b.sess.ctxs x).mqttConnection, ∀ c ∈ b.sess.contextOf k, (b.sess.ctxs c).cleanSession = true →
    ∀ c' ∈ b.sess.registry.findClientContext (b.sess.ctxs c).clientId, (b.sess.ctxs c').cleanSession = true

/-- Steps that keep what is to be saved. -/
def saving (cs : List CtxId) : Frame Broker Fault where
  rel b b' := Unmixed cs b → Unmixed cs b' ∧ b'.saved = b.saved
  flt _ _ := True
  refl _ h := ⟨h, rfl⟩
  trans h h' hu := ⟨(h' (h hu).1).1, (h' (h hu).1).2.trans (h hu).2⟩
  extend _ _ := trivial

theorem saving_of_writing {α : Type} {x : BrokerM α} {cs : List CtxId} (h : writing.Resp x b) :
    (saving cs).Resp x b := by
  refine Frame.Resp.mono ?_ (fun _ _ => trivial) h
  rintro b' ⟨file, dbFile, n, rfl⟩ hu
  exact ⟨hu, rfl⟩

theorem find_close {s : Sess} {k : ConnId} {c : CtxId} (id : ByteStr) :
    (s.close k c).registry.findClientContext id =
      if (s.ctxs c).cleanSession = true ∧ id = (s.ctxs c).clientId then none
      else s.registry.findClientContext id := by
  rw [Sess.close_registry]
  cases hclean : (s.ctxs c).cleanSession with
  | false => simp only [Bool.false_eq_true, if_false, false_and]
  | true =>
      simp only [if_true, true_and]
      by_cases hid : id = (s.ctxs c).clientId
      · subst hid
        rw [if_pos rfl]
        exact AList.lookup_erase _ _
      · rw [if_neg hid]
        exact AList.lookup_erase_ne hid

/-- A close takes no persistent session away. -/
theorem close_saved {cs : List CtxId} {x₀ c : CtxId} {k : ConnId} (hx₀ : x₀ ∈ cs)
    (hlink : (b.sess.ctxs x₀).mqttConnection = some k) (hk : b.sess.contextOf k = some c) (hu : Unmixed cs b)
    (hsess : b'.sess = b.sess.close k c) (hbufs : b'.bufs = b.bufs) (hstore : b'.store = b.store) :
    Unmixed cs b' ∧ b'.saved = b.saved := by
  have hctx : ∀ c', (b'.sess.ctxs c').cleanSession = (b.sess.ctxs c').cleanSession ∧
      (b'.sess.ctxs c').clientId = (b.sess.ctxs c').clientId ∧ b'.pending c' = b.pending c' := by
    intro c'
    unfold Broker.pending
    rw [hsess, hbufs, Sess.close_ctxs]
    by_cases hc : c' = c
    · subst hc
      rw [if_pos rfl]
      exact ⟨rfl, rfl, rfl⟩
    · rw [if_neg hc]
      exact ⟨rfl, rfl, rfl⟩
  have hconn : ∀ x k', (b'.sess.ctxs x).mqttConnection = some k' → (b.sess.ctxs x).mqttConnection = some k' := by
    intro x k' h
    rw [hsess, Sess.close_ctxs] at h
    split at h
    · cases h
    · exact h
  have hfind : ∀ id, b'.sess.registry.findClientContext id =
      if (b.sess.ctxs c).cleanSession = true ∧ id = (b.sess.ctxs c).clientId then none
      else b.sess.registry.findClientContext id := by
    intro id
    rw [hsess]
    exact find_close id
  constructor
  · intro y hy k' hk' x hx hclean x' hx'
    rw [hsess, Sess.close_contextOf] at hx
    rw [(hctx x).1] at hclean
    rw [(hctx x).2.1, hfind] at hx'
    rw [(hctx x').1]
    split at hx
    · cases hx
    · split at hx'
      · cases hx'
      · exact hu y hy k' (hconn y k' hk') x hx hclean x' hx'
  · have hsession : ∀ id, b'.session id = b.session id := by
      intro id
      rcases session_cases b id with ⟨x, hx, hclean⟩ | hclean
      · -- the closing context is clean, and no persistent session has its name
        have hother : ¬ ((b.sess.ctxs c).cleanSession = true ∧ id = (b.sess.ctxs c).clientId) := by
          rintro ⟨hc, rfl⟩
          rw [hu x₀ hx₀ k hlink c hk hc x hx] at hclean
          cases hclean
        have hx' : b'.sess.registry.findClientContext id = some x := by
          rw [hfind, if_neg hother]
          exact hx
        -- closing takes a clean context out of its topics, never a persistent one
        have hset : {t | x ∈ b'.sess.topicMgr.clients t} = {t | x ∈ b.sess.topicMgr.clients t} := by
          ext t
          show x ∈ b'.sess.topicMgr.clients t ↔ _
          rw [hsess, Sess.mem_clients_close]
          refine and_iff_left ?_
          rintro ⟨hc, -, rfl⟩
          rw [hc] at hclean
          cases hclean
        rw [session_persistent hx' (by rw [(hctx x).1]; exact hclean), session_persistent hx hclean, hset,
          (hctx x).2.2]
      · rw [session_clean hclean]
        refine session_clean fun x hx => ?_
        rw [hfind] at hx
        split at hx
        · cases hx
        · rw [(hctx x).1]
          exact hclean x hx
    have hretained : ∀ t, b'.retained t = b.retained t := by
      intro t
      unfold Broker.retained
      rw [hsess, hbufs, retainMsg_close]
    unfold Broker.saved
    rw [hstore, funext hsession, funext hretained]

theorem checkIdle_saving {cs : List CtxId} {x : CtxId} (hx : x ∈ cs) : (saving cs).Resp (checkIdle env x) b := by
  refine Frame.resp_of_cases (fun u b' h hu => ?_) fun _ _ => trivial
  unfold checkIdle at h
  rw [get_bind] at h
  cases hlink : (b.sess.ctxs x).mqttConnection with
  | none =>
      simp only [hlink] at h
      cases h
      exact ⟨hu, rfl⟩
  | some k =>
      simp only [hlink] at h
      rw [touch_bind_ok] at h
      obtain ⟨-, h⟩ := h
      split at h
      · unfold handleClose at h
        rw [touch_bind_ok, modify_bind, get_bind] at h
        obtain ⟨-, h⟩ := h
        cases hc : b.sess.contextOf k with
        | none =>
            simp only [hc] at h
            cases h
        | some c =>
            simp only [hc] at h
            cases h
            exact close_saved hx hlink hc hu rfl rfl rfl
      · cases h
        exact ⟨hu, rfl⟩

/-- The registered sessions. -/
def Broker.registered (b : Broker) : List CtxId := b.sess.registry.entries.map Sigma.snd

/-- **Writing the file** keeps what is to be saved, idle sessions that are closed included. -/
theorem storeAll_saving : (saving b.registered).Resp (storeAll env mp) b :=
  storeAll_frame (fun _ _ _ => saving_of_writing) fun _ hc _ => checkIdle_saving hc

/-! ## Runs -/

/-- A message was added since the last flush, in a later second than the last one before it: `store(false)` writes
    the file. -/
def Marked (b : Broker) : Prop := b.lastDbUpdateTime < b.store.lastUpdateTime

/-- A flush that writes all of a state that can be restored: no write fails, nothing is left in the buffer, every record
    is short enough, what is stored of the sessions and of the retained messages is enough to bring them back, and no
    persistent session is lost when an idle one is closed. -/
structure Storable (env : Env) (mp : MsgPack) (b : Broker) : Prop where
  opened : env.fopen b.nfiles = true
  written : Completed env.fwrite (b.nfiles + 1) (fileWrites mp (records env b))
  flushed : (MqttServer.written env mp b).held = []
  fits : RecordsFit env mp b
  sessions : SessionsStorable b
  retained : RetainedStorable b
  unmixed : Unmixed b.registered b

/-- The move handles the event of the timer. -/
def Machine.Flushes (m : Machine) : Move → Prop
  | .next => ∃ es, m.batch = .timer :: es
  | _ => False

/-- A flush that writes the file succeeds, and everything else that changes what is to be saved leaves a mark. -/
structure Careful (env : Env) (mp : MsgPack) (m : Machine) (mv : Move) (m' : Machine) : Prop where
  flush : m.Flushes mv → Marked m.broker → Storable env mp m.broker
  change : ¬ m.Flushes mv → Marked m'.broker ∨
    (m'.broker.saved = m.broker.saved ∧ m'.broker.store.lastUpdateTime = m.broker.store.lastUpdateTime)

/-- The file holds the current state: a restart brings it back, whenever it is. -/
def Current (env : Env) (mp : MsgPack) (b : Broker) : Prop :=
  ∀ now, ∃ b₂, restore env mp b.file { file := b.file, now } = .ok (0, b₂) ∧ b₂.saved = b.saved

/-- **A flush.** If the file holds the current state whenever there is no mark, it holds the current state
    afterwards. -/
theorem store_current {busy : List ConnId} (hk : Keyed b) (hcur : ¬ Marked b → Current env mp b)
    (hst : Marked b → Storable env mp b) (hs : store env mp false { b with busy } = .ok (r, b₁)) :
    Current env mp b₁ := by
  unfold store at hs
  rw [modify_bind, get_bind, if_neg Bool.false_ne_true] at hs
  split at hs
  · -- the flush is skipped
    rename_i hskip
    cases hs
    exact hcur (Nat.not_lt.mpr hskip)
  · rename_i hwrite
    rw [set_bind] at hs
    have hmark : Marked b := Nat.not_le.mp hwrite
    obtain ⟨hopen, hall, hheld, hfits, hsess, hret, hu⟩ := hst hmark
    have hfile := ((storeAll_writes hs).2 hopen).1
    have hall' : b₁.file = some (fileOf mp (records env b)) := hfile.trans (congrArg some (written_eq hall hheld))
    intro now
    have haccept : ∃ b₂, restore env mp (some (fileOf mp (records env b))) { file := b₁.file, now } = .ok (0, b₂) :=
      (restore_fileOf_iff records_valid).mpr hfits
    obtain ⟨b₂, hr⟩ := haccept
    obtain ⟨st, st', b₃, b₄, hrev⟩ := revived_whole rfl hr
    have hresp : (saving b.registered).Resp (storeAll env mp) { flushStat { b with busy } with
        lastDbUpdateTime := b.store.lastUpdateTime } := storeAll_saving
    have hsaved : b₁.saved = b.saved := (Frame.resp_ok hresp hs hu).2
    refine ⟨b₂, ?_, ?_⟩
    · rw [hall'] at hr ⊢
      exact hr
    rw [hsaved]
    exact hrev.saved hk hsess hret

/-- Everything but the file. -/
def Scope.traffic : Scope := { pub := fun _ => True, queue := True }

/-- Every other move is a sequence of changes that do not write. -/
theorem Machine.step_traffic (h : m.step env mp mv = .ok m') (hno : ¬ m.Flushes mv) :
    Prims env Scope.traffic m.broker m'.broker := by
  cases mv with
  | wait now batch =>
      cases h
      exact .single (.wait now _)
  | next =>
      unfold Machine.step at h
      cases hb : m.batch with
      | nil =>
          simp only [hb] at h
          cases h
          exact .refl
      | cons e es =>
          simp only [hb] at h
          split at h
          · rename_i he
            cases h
            have hresp : ∀ b, (prims env .traffic).Resp (runEvent env mp e) b := by
              intro b
              cases e with
              | accept => exact prims_modify .accept
              | conn k hup input output => exact runConn_prims
              | notify => exact handleNotify_prims (fun _ => trivial) trivial
              -- only the timer stores
              | timer => exact absurd ⟨es, hb⟩ hno
            have hrun : Prims env .traffic _ _ := Frame.resp_ok (hresp _) he
            exact .trans (.single (.wait m.broker.now _)) (.trans hrun (.single .collect))
          · cases h
  | http header topic msg =>
      unfold Machine.step at h
      simp only at h
      split at h
      · rename_i he
        cases h
        have hresp : (prims env .traffic).Resp (notifyMqttPublish header topic msg) m.broker :=
          notifyMqttPublish_prims trivial
        exact .trans (Frame.resp_ok hresp he) (.single .collect)
      · cases h
  | bridge buf =>
      unfold Machine.step at h
      simp only at h
      split at h
      · rename_i he
        cases h
        have hresp : (prims env .traffic).Resp (bridgePublish buf) m.broker := bridgePublish_prims trivial
        exact .trans (Frame.resp_ok hresp he) (.single .collect)
      · cases h

/-- They leave the file alone. -/
theorem Machine.step_disk (h : m.step env mp mv = .ok m') (hno : ¬ m.Flushes mv) :
    m'.broker.file = m.broker.file ∧ m'.broker.lastDbUpdateTime = m.broker.lastDbUpdateTime := by
  have hsame := (Machine.step_traffic h hno).disk fun hf => hf
  exact ⟨hsame.file, hsame.updated⟩

/-- A flush is `store(false)`. -/
theorem Machine.step_flush (h : m.step env mp mv = .ok m') (hf : m.Flushes mv) :
    ∃ (es : List Ready) (busy : List ConnId) (r : Int) (b₁ : Broker),
      store env mp false { m.broker with busy } = .ok (r, b₁) ∧ m' = { broker := b₁.collect, batch := es } := by
  cases mv with
  | next =>
      obtain ⟨es, hb⟩ := hf
      unfold Machine.step at h
      simp only [hb] at h
      split at h
      · rename_i b hrun
        cases h
        unfold runEvent at hrun
        simp only at hrun
        rw [bind_ok] at hrun
        obtain ⟨r, b₁, hstore, hrun⟩ := hrun
        cases hrun
        exact ⟨es, _, r, b, hstore, rfl⟩
      · cases h
  | wait now batch => exact hf.elim
  | http header topic msg => exact hf.elim
  | bridge buf => exact hf.elim

/-- **One move** of a careful run. -/
theorem Careful.current (hk : Keyed m.broker) (hc : Careful env mp m mv m') (hs : m.step env mp mv = .ok m')
    (hcur : ¬ Marked m.broker → Current env mp m.broker) : ¬ Marked m'.broker → Current env mp m'.broker := by
  intro hmark
  by_cases hflush : m.Flushes mv
  · obtain ⟨es, busy, r, b₁, hstore, rfl⟩ := Machine.step_flush hs hflush
    have hflushed : Current env mp b₁ := store_current hk hcur (hc.flush hflush) hstore
    exact hflushed
  · obtain ⟨hfile, hdb⟩ := Machine.step_disk hs hflush
    obtain ⟨hsaved, htime⟩ := (hc.change hflush).resolve_left hmark
    have hmark₀ : ¬ Marked m.broker := by
      unfold Marked at hmark ⊢
      rwa [hdb, htime] at hmark
    intro now
    obtain ⟨b₂, hr, heq⟩ := hcur hmark₀ now
    refine ⟨b₂, by rw [hfile]; exact hr, ?_⟩
    rw [heq, hsaved]

/-! ### The clock of a restart -/

/-- Two brokers that have read the same, at different times. -/
structure Alike (b b' : Broker) : Prop where
  sess : b'.sess = b.sess
  nextBuf : b'.nextBuf = b.nextBuf
  lastMsgId : b'.store.lastMsgId = b.store.lastMsgId
  bufs : ∀ m, (b'.bufs m).msgId = (b.bufs m).msgId ∧ (b'.bufs m).unread = (b.bufs m).unread

theorem Alike.saved (h : Alike b b') : b'.saved = b.saved := by
  have hpending : ∀ c, b'.pending c = b.pending c := by
    intro c
    unfold Broker.pending
    rw [h.sess]
    exact List.map_congr_left fun m _ => by rw [(h.bufs m).1, (h.bufs m).2]
  have hsession : b'.session = b.session := by
    funext id
    unfold Broker.session
    simp only [h.sess, hpending]
  have hretained : b'.retained = b.retained := by
    funext t
    unfold Broker.retained
    rw [h.sess]
    exact Option.map_congr fun m _ => by rw [(h.bufs m).1, (h.bufs m).2]
  unfold Broker.saved
  rw [h.lastMsgId, hsession, hretained]

theorem restoreMbuf_alike {tmp : MbufTmp} {db : Bool} {m₀ : MbufId} (h : Alike b b')
    (hm : restoreMbuf tmp db b = .ok (m₀, b₁)) : ∃ b₁', restoreMbuf tmp db b' = .ok (m₀, b₁') ∧ Alike b₁ b₁' := by
  obtain ⟨hvalid, -, -⟩ := restoreMbuf_new hm
  obtain ⟨m', b₁', hm'⟩ := restoreMbuf_total (b := b') hvalid db
  obtain ⟨rfl, new, hid, hun, rfl⟩ := restoreMbuf_eq hm
  obtain ⟨rfl, new', hid', hun', rfl⟩ := restoreMbuf_eq hm'
  rw [h.nextBuf] at hm'
  refine ⟨_, hm', h.sess, rfl, h.lastMsgId, fun m => ?_⟩
  by_cases hnew : m = b.nextBuf
  · simp only [hnew, Function.update_self]
    exact ⟨hid'.trans hid.symm, hun'.trans hun.symm⟩
  · simp only [Function.update_of_ne hnew]
    exact h.bufs m

theorem restoreRetains_alike {u : Unit} (map : List (ByteStr × MbufTmp)) : ∀ b b' : Broker, Alike b b' →
    restoreRetains map b = .ok (u, b₁) → ∃ b₁', restoreRetains map b' = .ok (u, b₁') ∧ Alike b₁ b₁' := by
  induction map with
  | nil =>
      intro b b' h hm
      cases hm
      exact ⟨b', rfl, h⟩
  | cons e map ih =>
      intro b b' h hm
      obtain ⟨t, tmp⟩ := e
      unfold restoreRetains at hm ⊢
      rw [bind_ok] at hm
      obtain ⟨m, b₂, hbuf, hm⟩ := hm
      rw [modify_bind] at hm
      obtain ⟨b₂', hbuf', h₂⟩ := restoreMbuf_alike h hbuf
      rw [bind_apply, hbuf']
      simp only [modify_bind]
      have hset : Alike { b₂ with sess := { b₂.sess with topicMgr := b₂.sess.topicMgr.setRetainMsg t (some m) } }
          { b₂' with sess := { b₂'.sess with topicMgr := b₂'.sess.topicMgr.setRetainMsg t (some m) } } :=
        ⟨by rw [h₂.sess], h₂.nextBuf, h₂.lastMsgId, h₂.bufs⟩
      exact ih _ _ hset hm

/-- **One chunk** is read alike. -/
theorem restoreChunk_alike {type : ChunkType} {st st₁ : RestoreState} {buf : ByteStr} (h : Alike b b')
    (hc : restoreChunk env mp type st buf b = .ok (st₁, b₁)) :
    ∃ b₁', restoreChunk env mp type st buf b' = .ok (st₁, b₁') ∧ Alike b₁ b₁' := by
  cases type with
  | globalInfo =>
      unfold restoreChunk restoreDbInfo unpackOr at hc ⊢
      cases hu : mp.info.unpack buf with
      | none =>
          rw [hu] at hc
          cases hc
      | some info =>
          rw [hu] at hc
          cases hc
          exact ⟨_, rfl, h.sess, h.nextBuf, rfl, h.bufs⟩
  | dbMsg =>
      unfold restoreChunk restoreDbMsg unpackOr at hc ⊢
      cases hu : mp.mbuf.unpack buf with
      | none =>
          rw [hu] at hc
          cases hc
      | some tmp =>
          rw [hu] at hc
          simp only [pure_bind] at hc ⊢
          rw [bind_ok] at hc
          obtain ⟨m, b₂, hbuf, hc⟩ := hc
          obtain ⟨b₂', hbuf', h₂⟩ := restoreMbuf_alike h hbuf
          rw [bind_apply, hbuf']
          simp only
          split at hc
          · rename_i hid
            rw [if_pos hid]
            rw [modify_bind, modify_bind] at hc ⊢
            cases hc
            obtain ⟨db, reg, he⟩ := overwrite_eq st tmp.msgId _
            obtain ⟨db', reg', he'⟩ := overwrite_eq st tmp.msgId _
            refine ⟨_, rfl, ?_⟩
            rw [he, he']
            exact ⟨h₂.sess, h₂.nextBuf, h₂.lastMsgId, h₂.bufs⟩
          · rename_i hid
            rw [if_neg hid]
            cases hc
            exact ⟨_, rfl, h₂⟩
  | clientMsg =>
      unfold restoreChunk at hc ⊢
      cases hu : mp.client.unpack buf with
      | none =>
          unfold restoreClientInfo unpackOr at hc
          rw [hu] at hc
          cases hc
      | some info =>
          simp only at hc ⊢
          rw [restoreClientInfo_eq hu] at hc ⊢
          cases hc
          exact ⟨_, rfl, by simp only [h.sess], h.nextBuf, h.lastMsgId, h.bufs⟩
  | topicInfo =>
      unfold restoreChunk restoreRetainMsg unpackOr at hc ⊢
      cases hu : mp.retain.unpack buf with
      | none =>
          rw [hu] at hc
          cases hc
      | some map =>
          rw [hu] at hc
          simp only [pure_bind] at hc ⊢
          rw [bind_ok] at hc
          obtain ⟨u, b₂, hmap, hc⟩ := hc
          cases hc
          obtain ⟨b₂', hmap', h₂⟩ := restoreRetains_alike map _ _ h hmap
          rw [bind_apply, hmap']
          exact ⟨_, rfl, h₂⟩

theorem restoreChunks_alike {st₁ : RestoreState} (cs : List (ChunkType × ByteStr)) : ∀ (st : RestoreState) (b b' : Broker),
    Alike b b' → restoreChunks env mp cs st b = .ok (st₁, b₁) →
      ∃ b₁', restoreChunks env mp cs st b' = .ok (st₁, b₁') ∧ Alike b₁ b₁' := by
  induction cs with
  | nil =>
      intro st b b' h hcs
      cases hcs
      exact ⟨b', rfl, h⟩
  | cons c cs ih =>
      intro st b b' h hcs
      unfold restoreChunks at hcs ⊢
      rw [bind_ok] at hcs
      obtain ⟨st₂, b₂, hc, hcs⟩ := hcs
      obtain ⟨b₂', hc', h₂⟩ := restoreChunk_alike h hc
      rw [bind_apply, hc']
      exact ih st₂ b₂ b₂' h₂ hcs

theorem clear_alike (st : RestoreState) (dbFile dbFile' : Option ByteStr) (h : Alike b b') :
    Alike { st.clear b with dbFile } { st.clear b' with dbFile := dbFile' } := by
  obtain ⟨db, reg, he⟩ := clear_eq st b
  obtain ⟨db', reg', he'⟩ := clear_eq st b'
  rw [he, he']
  exact ⟨h.sess, h.nextBuf, h.lastMsgId, h.bufs⟩

/-- **A restart at another time** reads the same. -/
theorem restore_alike {file : Option ByteStr} (h : Alike b b') (hr : restore env mp file b = .ok (0, b₁)) :
    ∃ b₁', restore env mp file b' = .ok (0, b₁') ∧ Alike b₁ b₁' := by
  cases file with
  | none =>
      cases hr
      exact ⟨b', rfl, h⟩
  | some bytes =>
      obtain ⟨st, b₂, dbFile, hloop, rfl⟩ := restore_some hr
      obtain ⟨cs, hreads, hcs⟩ := restoreLoop_reads _ _ _ _ hloop
      obtain ⟨b₂', hcs', h₂⟩ := restoreChunks_alike cs _ _ _ h hcs
      obtain ⟨dbFile', hr'⟩ := restore_of_loop (hreads.restoreLoop (Nat.lt_succ_self _) hcs')
      exact ⟨_, hr', clear_alike st dbFile dbFile' h₂⟩

/-- Reading leaves the file as it is. -/
theorem Load.file_eq {st st' : RestoreState} (h : Load st b st' b') : b'.file = b.file := by
  cases h with
  | destroy m =>
      obtain ⟨db, reg, he⟩ := destroy_eq b m
      rw [he]
  | _ => rfl

theorem Started.current (h : Started env mp b) : Current env mp b := by
  cases h with
  | empty => exact fun now => ⟨_, rfl, rfl⟩
  | restored file now b h =>
      have hfile : b.file = file := by
        obtain ⟨-, hf⟩ := restore_invariant (I := fun _ b => b.file = file)
          (fun _ _ _ _ hl hi => hl.file_eq.trans hi) rfl h
        exact hf
      intro now'
      have hfresh : Alike { file, now } ({ file, now := now' } : Broker) := ⟨rfl, rfl, rfl, fun _ => ⟨rfl, rfl⟩⟩
      obtain ⟨b', hr, halike⟩ := restore_alike hfresh h
      rw [hfile]
      exact ⟨b', hr, halike.saved⟩

/-- **The periodic flush.** In a careful run a flush leaves a file from which the current state is restored. -/
theorem flush_saves {b₀ : Broker} {busy : List ConnId} (hb : Started env mp b₀)
    (h : RunsWhen env mp (Careful env mp) b₀ m) (hst : Marked m.broker → Storable env mp m.broker)
    (hs : store env mp false { m.broker with busy } = .ok (0, b₁)) (now : Nat) :
    ∃ b₂, restore env mp b₁.file { file := b₁.file, now } = .ok (0, b₂) ∧ b₂.saved = b₁.saved := by
  have hinv : Keyed m.broker ∧ (¬ Marked m.broker → Current env mp m.broker) := by
    clear hst hs
    induction h with
    | start => exact ⟨hb.keyed, fun _ => hb.current⟩
    | step _ _ hs hc ih =>
        exact ⟨(Machine.step_prims hs).invariant (fun _ _ hp hk => hp.keyed hk) ih.1, hc.current ih.1 hs ih.2⟩
  exact store_current hinv.1 hinv.2 hst hs now

instance : Decidable (Marked b) := Nat.decLt _ _

instance (cs : List CtxId) : Decidable (Unmixed cs b) := List.decidableBAll _ _

/-- A test that is enough for a careful move when the disk takes everything. -/
def carefulTest (m : Machine) (mv : Move) (m' : Machine) : Bool :=
  match mv, m.batch with
  | .wait _ _, _ => true
  | .next, .timer :: _ => decide (RecordsFit Env.calm packing m.broker ∧ SessionsStorable m.broker ∧
      RetainedStorable m.broker ∧ Unmixed m.broker.registered m.broker)
  | _, _ => decide (Marked m'.broker)

theorem carefulTest_careful (hs : m.step Env.calm packing mv = .ok m') (h : carefulTest m mv m' = true) :
    Careful Env.calm packing m mv m' := by
  unfold carefulTest at h
  split at h
  · refine ⟨fun hf => hf.elim, fun _ => Or.inr ?_⟩
    cases hs
    exact ⟨rfl, rfl⟩
  · rename_i es hb
    obtain ⟨hfit, hsess, hret, hun⟩ := of_decide_eq_true h
    exact ⟨fun _ _ => ⟨rfl, completed_calm _ _, held_calm, hfit, hsess, hret, hun⟩, fun hno => absurd ⟨es, hb⟩ hno⟩
  · rename_i mv _ _ _ hno
    refine ⟨fun hf => ?_, fun _ => Or.inl (of_decide_eq_true h)⟩
    cases mv with
    | next =>
        obtain ⟨es, hb⟩ := hf
        exact (hno es rfl hb).elim
    | _ => exact hf.elim

/-- A message from an HTTP request leaves a mark; then a client subscribes, and the state is flushed. -/
theorem flush_saves_subscription : ∃ (m : Machine) (b₁ : Broker),
    RunsWhen Env.calm packing (Careful Env.calm packing) {} m ∧ ¬ Marked m.broker ∧
    m.broker.sess.registry.findClientContext [65] = some (.conn 0) ∧
    .conn 0 ∈ m.broker.sess.topicMgr.clients [116] ∧
    store Env.calm packing false { m.broker with busy := [] } = .ok (0, b₁) ∧
    ∃ b₂, restore Env.calm packing b₁.file { file := b₁.file, now := 9 } = .ok (0, b₂) ∧ b₂.saved = b₁.saved := by
  have hrun : (Machine.initial.playWhen Env.calm packing carefulTest
      ([.wait 1 [], .http { msgType := .publish, qos := 1 } [120] [9]] ++ Move.alone 2 .accept ++
        Move.alone 3 (.input 0 (connectPacket 65 0)) ++ Move.alone 4 (.input 0 (subscribePacket 116)) ++
        Move.alone 5 .timer)).any
      (fun m => decide (¬ Marked m.broker ∧ m.broker.sess.registry.findClientContext [65] = some (.conn 0) ∧
        .conn 0 ∈ m.broker.sess.topicMgr.clients [116] ∧
        (flushAndRestore Env.calm Env.calm packing { m.broker with busy := [] }).any fun x => decide (x.1 = 0))) =
          true := by
    decide +kernel
  obtain ⟨m, hm, htest⟩ := (Option.any_eq_true _ _).mp hrun
  obtain ⟨hmark, hfind, hsub, hflush⟩ := of_decide_eq_true htest
  obtain ⟨⟨r, b₁, b₂⟩, hflush, hr⟩ := (Option.any_eq_true _ _).mp hflush
  obtain rfl : r = 0 := of_decide_eq_true hr
  have hs := (flushAndRestore_some hflush).1
  have hruns : RunsWhen Env.calm packing (Careful Env.calm packing) {} m :=
    Machine.playWhen_runs _ (fun _ _ _ => carefulTest_careful) .start hm
  exact ⟨m, b₁, hruns, hmark, hfind, hsub, hs, flush_saves .empty hruns (fun h => absurd h hmark) hs 9⟩

/-- **The flush is skipped.** A client subscribes to one more topic after a flush, which changes nothing in the message
    table. The next flush returns `0` and the subscription is not in the file. -/
theorem flush_skips_subscription : ∃ (m : Machine) (b₁ b₂ : Broker), Reach Env.calm packing m ∧
    store Env.calm packing false m.broker = .ok (0, b₁) ∧ restore Env.calm packing b₁.file {} = .ok (0, b₂) ∧
    b₂.saved ≠ b₁.saved := by
  have hrun : (Machine.initial.play Env.calm packing (subscribed ++ Move.alone 7 .timer ++
      Move.alone 8 (.input 0 (subscribePacket 117)))).any
      (fun m => decide ((flushAndRestore Env.calm Env.calm packing m.broker).any fun x => decide (x.1 = 0 ∧
        x.2.1.sess.registry.findClientContext [65] = some (.conn 0) ∧
        (x.2.1.sess.ctxs (.conn 0)).cleanSession = false ∧ .conn 0 ∈ x.2.1.sess.topicMgr.clients [117] ∧
        x.2.2.sess.registry.findClientContext [65] = some (.stored 0) ∧
        (x.2.2.sess.ctxs (.stored 0)).cleanSession = false ∧
        .stored 0 ∉ x.2.2.sess.topicMgr.clients [117]))) = true := by
    decide +kernel
  obtain ⟨m, hm, hflush⟩ := Machine.exists_reach hrun
  obtain ⟨⟨r, b₁, b₂⟩, hflush, htest⟩ := (Option.any_eq_true _ _).mp hflush
  obtain ⟨rfl, hfind₁, hclean₁, hsub₁, hfind₂, hclean₂, hsub₂⟩ := of_decide_eq_true htest
  obtain ⟨hs, hr⟩ := flushAndRestore_some hflush
  refine ⟨m, b₁, b₂, hm, hs, hr, fun heq => hsub₂ ?_⟩
  have hsession : b₂.session [65] = b₁.session [65] := congrFun (congrArg Saved.session heq) [65]
  rw [session_persistent hfind₁ hclean₁, session_persistent hfind₂ hclean₂] at hsession
  have hsets : {t | CtxId.stored 0 ∈ b₂.sess.topicMgr.clients t} = {t | CtxId.conn 0 ∈ b₁.sess.topicMgr.clients t} :=
    congrArg Prod.fst (Option.some.inj hsession)
  have hmem : [117] ∈ {t | CtxId.stored 0 ∈ b₂.sess.topicMgr.clients t} := by
    rw [hsets]
    exact hsub₁
  exact hmem

end MqttServer
