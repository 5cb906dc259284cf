import MqttServer.Correctness.Refine

/-!
# `Correctness.Events` — the moves of the reactor are runs of the session machine

`Correctness.Refine` says what the handlers do; here the events and moves are put together from them. An event
of a connection that returns has handled whole operations only: the connection was alive when its handler
returned, or it was closed by the event loop after that.
-/

namespace MqttServer

open Lib Exec

variable {env : Env} {mp : MsgPack} {o : Option ConnId} {H : CtxId → Prop} {b b' : Broker} {k : ConnId}

/-! ## Events of a connection -/

/-- The framing loop reads the connection right before it returns a buffer. -/
theorem processLoop_alive {process : Handler Broker Fault} {recv : RecvBuffer} (fuel : Nat) :
    ∀ mem len offset b, processLoop (touch k) process fuel mem len offset b = .ok (some recv, b') →
      b'.sess.Alive k := by
  induction fuel with
  | zero =>
      intro mem len offset b h
      cases h
  | succ fuel ih =>
      intro mem len offset b h
      unfold processLoop at h
      rw [touch_bind_ok] at h
      obtain ⟨ha, h⟩ := h
      split at h
      · cases hl : remainLength (RecvBuffer.shift mem offset) (len - offset) with
        | needMoreData =>
            simp only [hl] at h
            split at h <;> cases h <;> exact ha
        | failture =>
            simp only [hl] at h
            cases h
        | length value bytes =>
            simp only [hl] at h
            rw [bind_ok] at h
            obtain ⟨p, b₁, -, h⟩ := h
            split at h
            · cases h
            · exact ih _ _ _ _ h
      · cases h
        exact ha

/-- A connection whose input was handled without an error is alive. -/
theorem handleInput_alive {out : ReadOut} {res : Int} (h : handleInput env k out b = .ok (res, b'))
    (hr : ¬ res < 0) : b'.sess.Alive k := by
  unfold handleInput at h
  rw [touch_bind_ok, get_bind] at h
  obtain ⟨ha, h⟩ := h
  cases out with
  | again =>
      cases h
      exact ha
  | closed =>
      cases h
      exact absurd (by decide) hr
  | bytes r =>
      simp only at h
      split at h
      · cases h
        exact absurd (by decide) hr
      · rw [bind_ok] at h
        obtain ⟨_, b₁, -, h⟩ := h
        rw [bind_ok] at h
        obtain ⟨p, b₂, hp, h⟩ := h
        cases p with
        | none =>
            cases h
            exact absurd (by decide) hr
        | some recv =>
            have ha₂ := processLoop_alive _ _ _ _ _ hp
            cases h
            exact ha₂

theorem runInput_resp {input : Option ReadOut} (hk : k ∈ o) :
    (evolution env o H).Resp (runInput env k input) b := by
  unfold runInput
  cases input with
  | none => exact Frame.resp_pure _
  | some out => exact handleInput_resp hk

theorem runInput_alive {input : Option ReadOut} {res : Int} (ha : b.sess.Alive k)
    (h : runInput env k input b = .ok (res, b')) (hr : ¬ res < 0) : b'.sess.Alive k := by
  cases input with
  | none =>
      cases h
      exact ha
  | some out => exact handleInput_alive h hr

/-- `handle_close` stops where it is, at a dead connection or at one without a context. -/
theorem handleClose_error {cause : Cause} {e : Fault × Broker} (h : handleClose k cause b = .error e) :
    Faults env (some k) H b e := by
  unfold handleClose at h
  rw [bind_error] at h
  rcases h with h | ⟨_, b₁, ht, h⟩
  · exact Frame.resp_error (touch_resp (o := some k) (Or.inl rfl)) h
  · obtain ⟨rfl, -⟩ := touch_ok.mp ht
    rw [modify_bind, get_bind] at h
    cases hc : b₁.sess.contextOf k with
    | none =>
        simp only [hc] at h
        cases h
        exact ⟨⟨[], by simp, .nil, .nil⟩, fun _ h => h, rfl, fun _ h => by cases h⟩
    | some c =>
        simp only [hc] at h
        cases h

/-- An event of a connection that stops in a fault. -/
theorem runConn_error {hup : Bool} {input : Option ReadOut} {output : Bool} {e : Fault × Broker}
    (h : runConn env k hup input output b = .error e) : Faults env (some k) H b e := by
  unfold runConn at h
  rw [bind_error] at h
  rcases h with h | ⟨_, b₁, ht, h⟩
  · exact Frame.resp_error (touch_resp (o := some k) (Or.inl rfl)) h
  · obtain ⟨rfl, -⟩ := touch_ok.mp ht
    split at h
    · exact handleClose_error h
    · rw [bind_error] at h
      rcases h with h | ⟨res, b₂, hi, h⟩
      · exact Frame.resp_error (runInput_resp (o := some k) rfl) h
      · have hin : Evolves env (some k) b₁ b₂ := Frame.resp_ok (runInput_resp (o := some k) (H := H) rfl) hi
        refine Faults.extend hin.changes ?_
        split at h
        · exact handleClose_error h
        · split at h
          · rw [bind_error] at h
            rcases h with h | ⟨_, _, _, h⟩
            · exact Frame.resp_error (handleOutput_resp (o := some k) rfl) h
            · cases h
          · cases h

/-- `handle_output` reads the connection before it returns. -/
theorem handleOutput_alive {r : Int} (h : handleOutput env k b = .ok (r, b')) : b'.sess.Alive k := by
  unfold handleOutput at h
  rw [touch_bind_ok, get_bind, set_bind, bind_ok] at h
  obtain ⟨-, _, b₁, -, h⟩ := h
  rw [touch_bind_ok] at h
  obtain ⟨ha, h⟩ := h
  cases h
  exact ha

/-- A label of an event: a close by the event loop is one of the connection of the event. -/
def Act.Outer (env : Env) (o : Option ConnId) (busy : List ConnId) : Act → Prop
  | .close k _ cause _ flag => (cause = .event → k ∈ o) ∧ flag = decide (k ∈ busy)
  | .publishAll _ _ => env.mqttBridge = true
  | _ => True

/-- What an event, or a move, did to the tables: a run of the session machine, seen both ways. -/
def Worked (env : Env) (o : Option ConnId) (busy : List ConnId) (b b' : Broker) : Prop :=
  ∃ ls, b'.log = b.log ++ ls ∧ Micros b.sess ls b'.sess ∧ Steps b.sess ls b'.sess ∧
    ∀ a ∈ ls, a.Outer env o busy

namespace Worked

variable {b₁ : Broker} {B : List ConnId}

theorem trans (h : Worked env o B b b₁) (h' : Worked env o B b₁ b') : Worked env o B b b' := by
  obtain ⟨ls, hlog, hm, hs, ho⟩ := h
  obtain ⟨ls', hlog', hm', hs', ho'⟩ := h'
  refine ⟨ls ++ ls', by rw [hlog', hlog, List.append_assoc], hm.append hm', hs.append hs', ?_⟩
  intro a ha
  rcases List.mem_append.mp ha with ha | ha
  · exact ho a ha
  · exact ho' a ha

theorem of_same (h : b'.sess = b.sess ∧ b'.log = b.log) : Worked env o B b b' := by
  refine ⟨[], by simp [h.2], ?_, ?_, fun _ h => by cases h⟩
  · rw [h.1]
    exact .nil
  · rw [h.1]
    exact .nil

end Worked

theorem Act.Inner.outer {B : List ConnId} {a : Act} (h : a.Inner env B) : a.Outer env o B := by
  cases a with
  | close k c cause clean flag => exact ⟨fun he => absurd he h.1, h.2⟩
  | publishAll m id => exact h
  | _ => trivial

/-- A handler whose connection is alive at its end has done whole operations. -/
theorem Evolves.worked {o' : Option ConnId} (h : Evolves env o b b') (ha : ∀ k ∈ o, b'.sess.Alive k) :
    Worked env o' b.busy b b' := by
  obtain ⟨ls, hlog, hm, hi, hs⟩ := h.trace
  exact ⟨ls, hlog, hm, hs ha, fun a ha => (hi a ha).outer⟩

/-- `handle_close` from the event loop. -/
theorem handleClose_worked {u : Unit} (h : handleClose k .event b = .ok (u, b')) :
    Worked env (some k) b.busy b b' := by
  obtain ⟨c, hc, hs, hlog, -⟩ := handleClose_ok h
  have hatom : Atom b.sess [.close k c .event (b.sess.ctxs c).cleanSession (b.isBusy k)] b'.sess := by
    rw [hs]
    exact .close hc
  refine ⟨_, hlog, .single (.atom hatom), .single (.atom hatom), ?_⟩
  intro a ha
  cases List.mem_singleton.mp ha
  exact ⟨fun _ => rfl, rfl⟩

/-- An event of a connection that returns is made of whole operations. -/
theorem runConn_ok {hup : Bool} {input : Option ReadOut} {output : Bool} {u : Unit}
    (h : runConn env k hup input output b = .ok (u, b')) : Worked env (some k) b.busy b b' := by
  unfold runConn at h
  rw [touch_bind_ok] at h
  obtain ⟨ha, h⟩ := h
  split at h
  · exact handleClose_worked h
  · rw [bind_ok] at h
    obtain ⟨res, b₁, hi, h⟩ := h
    have hin : Evolves env (some k) b b₁ :=
      Frame.resp_ok (runInput_resp (o := some k) (H := fun _ => False) rfl) hi
    have halive : b₁.sess.Alive k → Worked env (some k) b.busy b b₁ := by
      refine fun ha => hin.worked ?_
      rintro k' ⟨⟩
      exact ha
    split at h
    · -- `handle_close` touches the connection, so it was alive until then
      obtain ⟨c, hc, -⟩ := handleClose_ok h
      have hclose : Worked env (some k) b₁.busy b₁ b' := handleClose_worked h
      rw [hin.busy] at hclose
      exact (halive (Sess.alive_of_contextOf hc)).trans hclose
    · rename_i hr
      have hin' := halive (runInput_alive ha hi hr)
      split at h
      · rw [bind_ok] at h
        obtain ⟨r, b₂, ho, h⟩ := h
        cases h
        have hout : Evolves env (some k) b₁ b' :=
          Frame.resp_ok (handleOutput_resp (o := some k) (H := fun _ => False) rfl) ho
        have hout' : Worked env (some k) b₁.busy b₁ b' := by
          refine hout.worked ?_
          rintro k' ⟨⟩
          exact handleOutput_alive ho
        rw [hin.busy] at hout'
        exact hin'.trans hout'
      · cases h
        exact hin'

/-! ## Notified messages -/

theorem publishNotified_resp {m : MbufId} {msg : Publish} :
    (evolution env o H).Resp (publishNotified env m msg) b := by
  unfold publishNotified
  split
  · exact publishAll_resp ‹_›
  · exact publishTopic_resp

theorem notifyLoop_resp (ms : List MbufId) :
    ∀ b : Broker, (evolution env o H).Resp (notifyLoop env ms) b := by
  induction ms with
  | nil => exact fun _ => Frame.resp_pure _
  | cons m ms ih =>
      intro b
      unfold notifyLoop
      refine Frame.resp_modify_bind (Evolves.of_same rfl rfl rfl) ?_
      refine Frame.resp_get_bind ?_
      split
      · split
        · exact Frame.resp_pure _
        · exact Frame.resp_bind publishNotified_resp fun _ b₁ _ => ih b₁
      · exact ih _

theorem handleNotify_resp : (evolution env o H).Resp (handleNotify env) b := by
  unfold handleNotify
  refine Frame.resp_get_bind ?_
  refine Frame.resp_bind (notifyLoop_resp _ _) ?_
  intro res b₁ _
  split
  · exact Frame.resp_modify (Evolves.of_same rfl rfl rfl)
  · exact Frame.resp_pure _

/-! ## Storing -/

/-- Writing the db file changes nothing else. -/
def writing : Frame Broker Fault where
  rel b b' := ∃ file dbFile nfiles, b' = { b with file, dbFile, nfiles }
  flt _ _ := False
  refl b := ⟨b.file, b.dbFile, b.nfiles, rfl⟩
  trans := by
    rintro b₁ b₂ b₃ ⟨f, d, n, rfl⟩ ⟨f', d', n', rfl⟩
    exact ⟨f', d', n', rfl⟩
  extend := fun _ h => h

theorem errorReturn_resp {F : Frame Broker Fault} {x y : BrokerM Int} (hx : F.Resp x b)
    (hy : ∀ r b', x b = .ok (r, b') → F.Resp y b') : F.Resp (errorReturn x y) b := by
  unfold errorReturn
  refine Frame.resp_bind hx ?_
  intro r b' h
  split
  · exact Frame.resp_pure _
  · exact hy r b' h

theorem write_writing {bytes : ByteStr} : writing.Resp (write env bytes) b := by
  unfold write
  refine Frame.resp_get_bind ?_
  simp only
  split
  · exact Frame.resp_set_bind ⟨_, _, _, rfl⟩ (Frame.resp_pure _)
  · exact Frame.resp_set_bind ⟨_, _, _, rfl⟩ (Frame.resp_pure _)

theorem writeChunk_writing {type : ChunkType} {data : ByteStr} :
    writing.Resp (writeChunk env type data) b := by
  unfold writeChunk writeChunkInfo
  refine errorReturn_resp ?_ fun _ _ _ => errorReturn_resp write_writing fun _ _ _ => Frame.resp_pure _
  refine errorReturn_resp write_writing fun _ _ _ => ?_
  refine errorReturn_resp write_writing fun _ _ _ => ?_
  exact errorReturn_resp write_writing fun _ _ _ => Frame.resp_pure _

theorem openFile_writing : writing.Resp (openFile env) b := by
  unfold openFile
  refine Frame.resp_get_bind ?_
  split
  · exact Frame.resp_set_bind ⟨_, _, _, rfl⟩ (Frame.resp_pure _)
  · exact Frame.resp_set_bind ⟨_, _, _, rfl⟩ (Frame.resp_pure _)

theorem closeFile_writing : writing.Resp (closeFile env) b := Frame.resp_modify ⟨_, _, b.nfiles, rfl⟩

theorem finishFile_writing : writing.Resp (finishFile env) b := by
  refine Frame.resp_modify_bind ⟨_, _, _, rfl⟩ ?_
  exact Frame.resp_bind closeFile_writing fun _ _ _ => Frame.resp_pure _

theorem storeDbInfo_writing : writing.Resp (storeDbInfo env mp) b :=
  Frame.resp_get_bind writeChunk_writing

theorem storeMsgs_writing (ms : List MbufId) : ∀ b : Broker, writing.Resp (storeMsgs env mp ms) b := by
  induction ms with
  | nil => exact fun _ => Frame.resp_pure _
  | cons m ms ih =>
      intro b
      exact Frame.resp_get_bind (errorReturn_resp writeChunk_writing fun _ b' _ => ih b')

theorem storeDbMsg_writing : writing.Resp (storeDbMsg env mp) b :=
  Frame.resp_get_bind (storeMsgs_writing _ _)

theorem storeRetainMsg_writing : writing.Resp (storeRetainMsg env mp) b := by
  unfold storeRetainMsg
  refine Frame.resp_get_bind ?_
  dsimp only
  split
  · exact Frame.resp_pure _
  · exact writeChunk_writing

/-- The sessions are written one after the other, and checked before. -/
theorem storeClients_frame {F : Frame Broker Fault}
    (hw : ∀ (α : Type) (x : BrokerM α) (b : Broker), writing.Resp x b → F.Resp x b) (cs : List CtxId)
    (hidle : ∀ c ∈ cs, ∀ b, F.Resp (checkIdle env c) b) : ∀ b : Broker, F.Resp (storeClients env mp cs) b := by
  induction cs with
  | nil => exact fun _ => Frame.resp_pure _
  | cons c cs ih =>
      intro b
      have ih' := ih fun c' hc' => hidle c' (List.mem_cons_of_mem _ hc')
      unfold storeClients
      refine Frame.resp_bind (hidle c List.mem_cons_self b) fun _ b₁ _ => ?_
      refine Frame.resp_get_bind ?_
      split
      · exact ih' b₁
      · exact errorReturn_resp (hw _ _ _ writeChunk_writing) fun _ b₂ _ => ih' b₂

theorem storeChunks_frame {F : Frame Broker Fault}
    (hw : ∀ (α : Type) (x : BrokerM α) (b : Broker), writing.Resp x b → F.Resp x b)
    (hidle : ∀ c ∈ b.sess.registry.entries.map Sigma.snd, ∀ b', F.Resp (checkIdle env c) b') :
    F.Resp (storeChunks env mp) b := by
  have hclients : ∀ b' : Broker, b'.sess = b.sess → F.Resp (storeClientInfo env mp) b' := by
    intro b' hs
    refine Frame.resp_get_bind (storeClients_frame hw _ (fun c hc => ?_) b')
    rw [(env.order_perm _).mem_iff, hs] at hc
    exact hidle c hc
  unfold storeChunks
  refine errorReturn_resp (hw _ _ _ storeDbInfo_writing) fun _ b₂ h₂ => ?_
  obtain ⟨_, _, _, rfl⟩ := Frame.resp_ok storeDbInfo_writing h₂
  refine errorReturn_resp (hw _ _ _ storeDbMsg_writing) fun _ b₃ h₃ => ?_
  obtain ⟨_, _, _, rfl⟩ := Frame.resp_ok storeDbMsg_writing h₃
  refine errorReturn_resp (hclients _ rfl) fun _ _ _ => ?_
  exact errorReturn_resp (hw _ _ _ storeRetainMsg_writing) fun _ _ _ => Frame.resp_pure _

/-- **What writing and the idle checks respect**, storing respects. -/
theorem storeAll_frame {F : Frame Broker Fault}
    (hw : ∀ (α : Type) (x : BrokerM α) (b : Broker), writing.Resp x b → F.Resp x b)
    (hidle : ∀ c ∈ b.sess.registry.entries.map Sigma.snd, ∀ b', F.Resp (checkIdle env c) b') :
    F.Resp (storeAll env mp) b := by
  unfold storeAll
  refine Frame.resp_bind (hw _ _ _ closeFile_writing) fun _ b₁ h₁ => ?_
  obtain ⟨_, _, _, rfl⟩ := Frame.resp_ok closeFile_writing h₁
  refine errorReturn_resp (hw _ _ _ openFile_writing) fun _ b₂ h₂ => ?_
  obtain ⟨_, _, _, rfl⟩ := Frame.resp_ok openFile_writing h₂
  refine errorReturn_resp (storeChunks_frame hw hidle) fun _ _ _ => ?_
  exact hw _ _ _ finishFile_writing

/-- Writing is no work on the tables. -/
theorem resp_of_writing {α : Type} {x : BrokerM α} (h : writing.Resp x b) : (evolution env o H).Resp x b := by
  refine Frame.Resp.mono ?_ ?_ h
  · rintro b' ⟨_, _, _, rfl⟩
    exact Evolves.of_same rfl rfl rfl
  · exact fun _ h => h.elim

theorem checkIdle_resp {c : CtxId} (hc : H c) : (evolution env o H).Resp (checkIdle env c) b := by
  unfold checkIdle
  refine Frame.resp_get_bind ?_
  cases hk : (b.sess.ctxs c).mqttConnection with
  | none => exact Frame.resp_pure _
  | some k =>
      have hl : Linked H b.sess k := ⟨c, Or.inr hc, hk⟩
      refine Frame.resp_bind (touch_resp (Or.inr hl)) ?_
      intro _ b₁ ht
      obtain ⟨rfl, -⟩ := touch_ok.mp ht
      split
      · exact handleClose_resp (by decide) (Or.inr hl)
      · exact Frame.resp_pure _

/-- The contexts in the registry. -/
def Sess.Registered (s : Sess) (c : CtxId) : Prop :=
  ∃ clientId, s.registry.findClientContext clientId = some c

theorem Sess.registered_of_mem_entries {s : Sess} {c : CtxId}
    (h : c ∈ s.registry.entries.map Sigma.snd) : s.Registered c := by
  obtain ⟨⟨clientId, c'⟩, he, rfl⟩ := List.mem_map.mp h
  exact ⟨clientId, AList.mem_lookup_iff.mpr he⟩

theorem storeAll_resp : (evolution env o b.sess.Registered).Resp (storeAll env mp) b := by
  refine storeAll_frame (fun _ _ _ => resp_of_writing) fun c hc b' => checkIdle_resp ?_
  exact Sess.registered_of_mem_entries hc

theorem store_resp {force : Bool} : (evolution env o b.sess.Registered).Resp (store env mp force) b := by
  unfold store
  refine Frame.resp_modify_bind (Evolves.of_same rfl rfl rfl) ?_
  refine Frame.resp_get_bind ?_
  split
  · exact storeAll_resp (b := flushStat b)
  · split
    · exact Frame.resp_pure _
    · refine Frame.resp_set_bind (Evolves.of_same rfl rfl rfl) ?_
      exact storeAll_resp (b := { flushStat b with lastDbUpdateTime := (flushStat b).store.lastUpdateTime })

/-! ## Events and moves -/

theorem runEvent_ok {e : Ready} {u : Unit} (h : runEvent env mp e b = .ok (u, b')) :
    Worked env e.conn? b.busy b b' := by
  cases e with
  | accept =>
      cases h
      refine ⟨[.accept b.sess.nextConn], rfl, .single (.atom .accept), .single (.atom .accept), ?_⟩
      intro a ha
      cases List.mem_singleton.mp ha
      trivial
  | conn k hup input output => exact runConn_ok h
  | notify =>
      have hr : Evolves env none b b' :=
        Frame.resp_ok (handleNotify_resp (o := none) (H := fun _ => False)) h
      exact hr.worked fun _ h => by cases h
  | timer =>
      unfold runEvent at h
      rw [bind_ok] at h
      obtain ⟨r, b₁, hs, h⟩ := h
      cases h
      have hr : Evolves env none b b' := Frame.resp_ok (store_resp (o := none)) hs
      exact hr.worked fun _ h => by cases h

/-- Where an event stops in a fault, the connection used after its end is the one of the event, or a context
    that is held, or was registered when the event began, points at it. -/
theorem runEvent_error {e : Ready} {f : Fault × Broker} (h : runEvent env mp e b = .error f) :
    Faults env e.conn? b.sess.Registered b f := by
  cases e with
  | accept => cases h
  | conn k hup input output => exact runConn_error h
  | notify => exact Frame.resp_error (handleNotify_resp (o := none)) h
  | timer =>
      unfold runEvent at h
      rw [bind_error] at h
      rcases h with h | ⟨_, _, _, h⟩
      · exact Frame.resp_error (store_resp (o := none)) h
      · cases h

theorem notify_same {m : MbufId} :
    (if b.notifyOpen then { b with notifyDeque := b.notifyDeque ++ [m] } else b).sess = b.sess ∧
      (if b.notifyOpen then { b with notifyDeque := b.notifyDeque ++ [m] } else b).log = b.log := by
  split
  · exact ⟨rfl, rfl⟩
  · exact ⟨rfl, rfl⟩

/-- The tables are not touched by the other threads. -/
theorem notifyMqttPublish_ok {header : FixedHeader} {topic msg : ByteStr} {u : Unit}
    (h : notifyMqttPublish header topic msg b = .ok (u, b')) : b'.sess = b.sess ∧ b'.log = b.log := by
  unfold notifyMqttPublish at h
  rw [get_bind] at h
  cases he : Publish.encode _ (msg.length + topic.length + 8) with
  | none =>
      rw [he] at h
      cases h
      exact ⟨rfl, rfl⟩
  | some bytes =>
      rw [he] at h
      cases h
      exact notify_same

theorem bridgePublish_ok {buf : ByteStr} {u : Unit} (h : bridgePublish buf b = .ok (u, b')) :
    b'.sess = b.sess ∧ b'.log = b.log := by
  unfold bridgePublish at h
  cases hd : Publish.decode.decode buf with
  | none =>
      rw [hd] at h
      cases h
      exact ⟨rfl, rfl⟩
  | some msg =>
      rw [hd] at h
      cases h
      exact notify_same

/-- What a move did: nothing to the tables, or one event. -/
theorem Machine.step_cases {m m' : Machine} {mv : Move} (h : m.step env mp mv = .ok m') :
    (m'.broker.sess = m.broker.sess ∧ m'.broker.log = m.broker.log ∧
      (m'.batch = m.batch ∨ ∃ now, mv = .wait now m'.batch)) ∨
    ∃ e, m.batch = e :: m'.batch ∧ mv = .next ∧
      Worked env e.conn? ((e :: m'.batch).filterMap Ready.conn?) m.broker m'.broker := by
  cases mv with
  | wait now batch =>
      cases h
      exact Or.inl ⟨rfl, rfl, Or.inr ⟨now, rfl⟩⟩
  | next =>
      unfold Machine.step at h
      cases hb : m.batch with
      | nil =>
          simp only [hb] at h
          cases h
          exact Or.inl ⟨rfl, rfl, Or.inl hb⟩
      | cons e es =>
          simp only [hb] at h
          split at h
          · rename_i u b he
            cases h
            have hw := runEvent_ok he
            exact Or.inr ⟨e, rfl, rfl, hw⟩
          · cases h
  | http header topic msg =>
      unfold Machine.step at h
      simp only at h
      split at h
      · rename_i u b he
        cases h
        obtain ⟨hs, hl⟩ := notifyMqttPublish_ok he
        exact Or.inl ⟨hs, hl, Or.inl rfl⟩
      · cases h
  | bridge buf =>
      unfold Machine.step at h
      simp only at h
      split at h
      · rename_i u b he
        cases h
        obtain ⟨hs, hl⟩ := bridgePublish_ok he
        exact Or.inl ⟨hs, hl, Or.inl rfl⟩
      · cases h

/-- **Every move is a run of the session machine.** -/
theorem Machine.step_worked {m m' : Machine} {mv : Move} (h : m.step env mp mv = .ok m') :
    ∃ o B, Worked env o B m.broker m'.broker := by
  rcases Machine.step_cases h with ⟨hs, hl, -⟩ | ⟨e, -, -, hw⟩
  · exact ⟨none, [], Worked.of_same ⟨hs, hl⟩⟩
  · exact ⟨_, _, hw⟩

end MqttServer
