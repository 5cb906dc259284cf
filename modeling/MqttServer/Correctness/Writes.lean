import MqttServer.Correctness.Memory

/-!
# `Correctness.Writes` — what `store` writes

The file is a list of records, one for each chunk (`records`). `store` empties the file and then writes chunk after
chunk, with four calls of `fwrite` each; at the first call that falls short it returns `-1`. The bytes go through a
buffer, which is flushed at the end. So what is on disk afterwards is decided by the records of the broker and by what
the outside makes of the writes, of `fflush` and of `fclose` (`storeAll_writes`): an initial part of the new file, also
when the process is stopped on the way.
-/

namespace MqttServer

open Lib Exec

variable {env : Env} {mp : MsgPack} {b b' : Broker} {r : Int}

/-! ## Records -/

/-- What one chunk holds. -/
inductive Record where
  | info (info : DbInfo)
  | msg (tmp : MbufTmp)
  | client (info : ClientInfo)
  | retains (map : List (ByteStr × MbufTmp))

namespace Record

/-- The type of its chunk. -/
def type : Record → ChunkType
  | info _ => .globalInfo
  | msg _ => .dbMsg
  | client _ => .clientMsg
  | retains _ => .topicInfo

/-- Its packed form. -/
def pack (mp : MsgPack) : Record → ByteStr
  | info i => mp.info.pack i
  | msg tmp => mp.mbuf.pack tmp
  | client i => mp.client.pack i
  | retains map => mp.retain.pack map

end Record

/-- The length of a chunk as the file has it. -/
def chunkLen (data : ByteStr) : Nat := data.length % 2 ^ 32

/-- The bytes of a chunk. -/
def chunk (type : ChunkType) (data : ByteStr) : ByteStr :=
  0xEE :: type.value :: (le32 (chunkLen data) ++ data.take (chunkLen data))

/-- The bytes of a file. -/
def fileOf (mp : MsgPack) (rs : List Record) : ByteStr := rs.flatMap fun r => chunk r.type (r.pack mp)

theorem fileOf_append (rs rs' : List Record) : fileOf mp (rs ++ rs') = fileOf mp rs ++ fileOf mp rs' :=
  List.flatMap_append

theorem readLe32_le32 {n : Nat} (h : n < 2 ^ 32) (rest : ByteStr) : readLe32 (le32 n ++ rest) = n := by
  show (UInt8.ofNat n).toNat + 256 * (UInt8.ofNat (n / 256)).toNat +
    65536 * (UInt8.ofNat (n / 65536)).toNat + 16777216 * (UInt8.ofNat (n / 16777216)).toNat = n
  simp only [UInt8.toNat_ofNat']
  omega

theorem chunkLen_lt (data : ByteStr) : chunkLen data < 2 ^ 32 := Nat.mod_lt _ (by decide)

theorem length_take_chunkLen (data : ByteStr) : (data.take (chunkLen data)).length = chunkLen data := by
  rw [List.length_take]
  exact Nat.min_eq_left (Nat.mod_le _ _)

/-! ## Sequences of writes -/

/-- The db file is open, and this is its stream. -/
def Broker.Open (b : Broker) (s : Stream UInt8) : Prop := b.file = some s.out ∧ b.dbFile = some s.held

theorem Broker.Open.stream {s : Stream UInt8} (h : b.Open s) : b.stream = s := by
  unfold Broker.stream
  rw [h.1, h.2]
  rfl

/-- What a piece of `store` that makes these writes does to an open file. -/
structure Puts (env : Env) (ws : List ByteStr) (b : Broker) (r : Int) (b' : Broker) : Prop where
  file : ∀ s, b.Open s → b'.Open (spool env.fwrite env.drain b.nfiles s ws)
  done : Completed env.fwrite b.nfiles ws → r = 0 ∧ b'.nfiles = b.nfiles + ws.length
  stopped : ¬ Completed env.fwrite b.nfiles ws → r = -1

theorem Puts.nil : Puts env [] b 0 b where
  file _ hs := hs
  done _ := ⟨rfl, rfl⟩
  stopped h := absurd trivial h

/-- The file is all that matters of the state before. -/
theorem Puts.of_disk {ws : List ByteStr} {b₁ : Broker} (h : Puts env ws b₁ r b') (hfile : b₁.file = b.file)
    (hdb : b₁.dbFile = b.dbFile) (hn : b₁.nfiles = b.nfiles) : Puts env ws b r b' := by
  obtain ⟨h₁, h₂, h₃⟩ := h
  unfold Broker.Open at h₁
  rw [hfile, hdb, hn] at h₁
  rw [hn] at h₂ h₃
  exact ⟨h₁, h₂, h₃⟩

/-- **`ERROR_RETURN` between two pieces.** -/
theorem Puts.errorReturn {x y : BrokerM Int} (ws ws' : List ByteStr)
    (h : MqttServer.errorReturn x y b = .ok (r, b')) (hx : ∀ r₁ b₁, x b = .ok (r₁, b₁) → Puts env ws b r₁ b₁)
    (hy : ∀ b₁, x b = .ok (0, b₁) → y b₁ = .ok (r, b') → Puts env ws' b₁ r b') : Puts env (ws ++ ws') b r b' := by
  unfold MqttServer.errorReturn at h
  rw [bind_ok] at h
  obtain ⟨r₁, b₁, hx₁, h⟩ := h
  have hp := hx r₁ b₁ hx₁
  by_cases hc : Completed env.fwrite b.nfiles ws
  · obtain ⟨rfl, hn⟩ := hp.done hc
    rw [if_neg (by decide)] at h
    have hp' := hy b₁ hx₁ h
    refine ⟨fun s hs => ?_, fun hall => ?_, fun hnot => ?_⟩
    · rw [spool_append ws _ s hc, ← hn]
      exact hp'.file _ (hp.file s hs)
    · obtain ⟨hr, hn'⟩ := hp'.done (by rw [hn]; exact ((completed_append ws _).mp hall).2)
      exact ⟨hr, by rw [hn', hn, List.length_append, Nat.add_assoc]⟩
    · refine hp'.stopped fun hrest => hnot ((completed_append ws _).mpr ⟨hc, ?_⟩)
      rwa [hn] at hrest
  · have hr := hp.stopped hc
    subst hr
    rw [if_pos (by decide)] at h
    cases h
    refine ⟨fun s hs => ?_, fun hall => absurd ((completed_append ws _).mp hall).1 hc, fun _ => rfl⟩
    rw [spool_append_of_not ws _ s hc]
    exact hp.file s hs

theorem write_puts {bytes : ByteStr} (h : write env bytes b = .ok (r, b')) : Puts env [bytes] b r b' := by
  unfold write at h
  rw [get_bind] at h
  cases hw : env.fwrite b.nfiles with
  | none =>
      simp only [hw] at h
      cases h
      refine ⟨fun s hs => ?_, fun _ => ⟨rfl, rfl⟩, fun hnot => absurd ⟨hw, trivial⟩ hnot⟩
      rw [hs.stream, spool, hw, spool]
      exact ⟨rfl, rfl⟩
  | some k =>
      simp only [hw] at h
      cases h
      refine ⟨fun s hs => ?_, fun hall => ?_, fun _ => rfl⟩
      · rw [hs.stream, spool, hw]
        exact ⟨rfl, rfl⟩
      · rw [hall.1] at hw
        cases hw

/-- The writes of a chunk, and of a file. -/
def chunkWrites (type : ChunkType) (data : ByteStr) : List ByteStr :=
  [[0xEE], [type.value], le32 (chunkLen data), data.take (chunkLen data)]

def fileWrites (mp : MsgPack) (rs : List Record) : List ByteStr := rs.flatMap fun r => chunkWrites r.type (r.pack mp)

theorem fileWrites_append (rs rs' : List Record) :
    fileWrites mp (rs ++ rs') = fileWrites mp rs ++ fileWrites mp rs' := List.flatMap_append

theorem flatten_fileWrites (rs : List Record) : (fileWrites mp rs).flatten = fileOf mp rs := by
  induction rs with
  | nil => rfl
  | cons r rs ih =>
      unfold fileWrites fileOf at ih ⊢
      rw [List.flatMap_cons, List.flatMap_cons, List.flatten_append, ih]
      simp [chunkWrites, chunk]

theorem writeChunk_puts {type : ChunkType} {data : ByteStr} (h : writeChunk env type data b = .ok (r, b')) :
    Puts env (chunkWrites type data) b r b' := by
  have hlast : ∀ {bytes : ByteStr} {b : Broker} {r : Int} {b' : Broker},
      errorReturn (write env bytes) (pure 0) b = .ok (r, b') → Puts env [bytes] b r b' := by
    intro bytes b r b' h
    refine Puts.errorReturn [bytes] [] h (fun _ _ => write_puts) fun b₁ _ h => ?_
    cases h
    exact .nil
  unfold writeChunk at h
  refine Puts.errorReturn [[0xEE], [type.value], le32 (chunkLen data)] [data.take (chunkLen data)] h (fun _ _ hinfo => ?_)
    fun _ _ h => hlast h
  unfold writeChunkInfo at hinfo
  refine Puts.errorReturn [[0xEE]] _ hinfo (fun _ _ => write_puts) fun _ _ hinfo => ?_
  exact Puts.errorReturn [[type.value]] _ hinfo (fun _ _ => write_puts) fun _ _ hinfo => hlast hinfo

/-! ## Idle sessions

While the sessions are written, the idle ones are closed. That changes neither what is packed of a session, nor
the buffers, nor the retained messages. -/

/-- Two states that differ by idle checks and writing. -/
structure Idled (b b' : Broker) : Prop where
  bufs : b'.bufs = b.bufs
  store : b'.store = b.store
  packed : ∀ c, ClientInfo.ofContext b' c = ClientInfo.ofContext b c
  retained : ∀ t, b'.sess.topicMgr.retainMsg t = b.sess.topicMgr.retainMsg t

namespace Idled

theorem refl (b : Broker) : Idled b b := ⟨rfl, rfl, fun _ => rfl, fun _ => rfl⟩

theorem trans {b₁ : Broker} (h : Idled b b₁) (h' : Idled b₁ b') : Idled b b' :=
  ⟨h'.bufs.trans h.bufs, h'.store.trans h.store, fun c => (h'.packed c).trans (h.packed c),
    fun t => (h'.retained t).trans (h.retained t)⟩

theorem clean (h : Idled b b') (c : CtxId) : (b'.sess.ctxs c).cleanSession = (b.sess.ctxs c).cleanSession :=
  congrArg ClientInfo.cleanSession (h.packed c)

/-- Writing leaves everything but the file alone. -/
theorem of_writing (h : writing.rel b b') : Idled b b' := by
  obtain ⟨file, dbFile, n, rfl⟩ := h
  exact ⟨rfl, rfl, fun _ => rfl, fun _ => rfl⟩

end Idled

/-- A close changes the link and the time of closing of one context. -/
theorem handleClose_idled {k : ConnId} {cause : Cause} {u : Unit} (h : handleClose k cause b = .ok (u, b')) :
    Idled b b' := by
  unfold handleClose at h
  rw [touch_bind_ok, modify_bind, get_bind] at h
  obtain ⟨-, h⟩ := h
  cases hc : b.sess.contextOf k with
  | none =>
      simp only [hc] at h
      cases h
  | some c =>
      simp only [hc] at h
      cases h
      refine ⟨rfl, rfl, fun c' => ?_, fun t => retainMsg_close _ _ _ _⟩
      have hctx : (b.sess.close k c).ctxs c' =
          if c' = c then (b.sess.ctxs c).detach else b.sess.ctxs c' := Sess.close_ctxs
      unfold ClientInfo.ofContext
      simp only [Broker.act, hctx]
      by_cases hcc : c' = c
      · subst hcc
        simp only [if_true, Function.update_self]
        rfl
      · simp only [if_neg hcc, Function.update_of_ne hcc]

theorem checkIdle_idled {c : CtxId} {u : Unit} (h : checkIdle env c b = .ok (u, b')) : Idled b b' := by
  unfold checkIdle at h
  rw [get_bind] at h
  cases hk : (b.sess.ctxs c).mqttConnection with
  | none =>
      simp only [hk] at h
      cases h
      exact .refl b
  | some k =>
      simp only [hk] at h
      rw [touch_bind_ok] at h
      obtain ⟨-, h⟩ := h
      split at h
      · exact handleClose_idled h
      · cases h
        exact .refl b

/-- The sessions that are stored. -/
def persistent (b : Broker) (cs : List CtxId) : List CtxId := cs.filter fun c => !(b.sess.ctxs c).cleanSession

/-! ## Retained messages -/

theorem mem_entries_iff {mgr : TopicMgr} {t : ByteStr} {node : TopicNode} :
    Sigma.mk t node ∈ mgr.entries ↔ mgr.lookup t = some node := AList.mem_lookup_iff.symm

/-- The map has the topics with a retained message that is not empty. -/
theorem mem_retainMap {t : ByteStr} {tmp : MbufTmp} :
    (t, tmp) ∈ retainMap env b ↔
      ∃ m, b.sess.topicMgr.retainMsg t = some m ∧ (b.bufs m).1.length ≠ 0 ∧ tmp = .ofBuf (b.bufs m) := by
  unfold retainMap
  rw [List.mem_insertionSort, List.mem_filterMap]
  constructor
  · rintro ⟨⟨t', node⟩, he, hr⟩
    rw [(env.order_perm _).mem_iff, mem_entries_iff] at he
    unfold retainEntry at hr
    simp only at hr
    split at hr
    · cases hr
    · rename_i m hm
      split at hr
      · cases hr
      · rename_i hlen
        cases hr
        refine ⟨m, ?_, hlen, rfl⟩
        simp only [TopicMgr.retainMsg, he, hm]
  · rintro ⟨m, hm, hlen, rfl⟩
    unfold TopicMgr.retainMsg at hm
    split at hm
    · cases hm
    · rename_i node hnode
      refine ⟨⟨t, node⟩, ?_, ?_⟩
      · rw [(env.order_perm _).mem_iff, mem_entries_iff]
        exact hnode
      · simp only [retainEntry, hm, if_neg hlen]

theorem filterMap_retainEntry_sublist (l : List (Sigma fun _ : ByteStr => TopicNode)) :
    ((l.filterMap (retainEntry b)).map Prod.fst).Sublist (l.map Sigma.fst) := by
  induction l with
  | nil => exact List.Sublist.slnil
  | cons e l ih =>
      rw [List.filterMap_cons, List.map_cons]
      cases he : retainEntry b e with
      | none => exact ih.cons _
      | some p =>
          have hp : p.1 = e.1 := by
            unfold retainEntry at he
            split at he
            · cases he
            · split at he
              · cases he
              · cases he
                rfl
          simp only [List.map_cons, hp]
          exact ih.cons_cons _

theorem nodup_retainMap : ((retainMap env b).map Prod.fst).Nodup := by
  have hkeys : ((env.order b.sess.topicMgr.entries).map Sigma.fst).Nodup :=
    ((env.order_perm b.sess.topicMgr.entries).map _).nodup_iff.mpr b.sess.topicMgr.nodupKeys
  have hsub := hkeys.sublist (filterMap_retainEntry_sublist (b := b) _)
  exact ((List.perm_insertionSort _ _).map _).nodup_iff.mpr hsub

/-! ## The stored file -/

/-- The messages and the sessions that are stored. -/
def storedMsgs (env : Env) (b : Broker) : List MbufTmp :=
  (env.order (b.store.msgDb.entries.map Sigma.snd)).map fun m => .ofBuf (b.bufs m)

def storedClients (env : Env) (b : Broker) : List CtxId :=
  persistent b (env.order (b.sess.registry.entries.map Sigma.snd))

def storedInfos (env : Env) (b : Broker) : List ClientInfo :=
  (storedClients env b).map fun c => .ofContext b c

/-- The records of a broker. -/
def records (env : Env) (b : Broker) : List Record :=
  .info { lastMsgId := b.store.lastMsgId, lastUpdateTime := b.store.lastUpdateTime } ::
    ((storedMsgs env b).map .msg ++ ((storedInfos env b).map .client ++
      if retainMap env b = [] then [] else [.retains (retainMap env b)]))

/-- The records of a file with these counters, messages, sessions and retained messages. -/
def recordsOf (i : DbInfo) (ms : List MbufTmp) (infos : List ClientInfo) (map : List (ByteStr × MbufTmp)) : List Record :=
  .info i :: (ms.map .msg ++ (infos.map .client ++ if map = [] then [] else [.retains map]))

/-- The first records of such a file are the records of a smaller one. -/
theorem take_recordsOf (i : DbInfo) (ms : List MbufTmp) (infos : List ClientInfo) (map : List (ByteStr × MbufTmp)) (n : Nat) :
    (recordsOf i ms infos map).take (n + 1) = recordsOf i (ms.take n) (infos.take (n - ms.length))
      (if n ≤ ms.length + infos.length then [] else map) := by
  have hlast : (if map = [] then [] else [Record.retains map]).take (n - ms.length - infos.length) =
      if (if n ≤ ms.length + infos.length then [] else map) = [] then []
      else [.retains (if n ≤ ms.length + infos.length then [] else map)] := by
    by_cases hn : n ≤ ms.length + infos.length
    · have hz : n - ms.length - infos.length = 0 := by omega
      rw [if_pos hn, if_pos rfl, hz, List.take_zero]
    · have hz : n - ms.length - infos.length = n - ms.length - infos.length - 1 + 1 := by omega
      rw [if_neg hn, hz]
      split
      · exact List.take_nil
      · exact List.take_succ_cons.trans (congrArg _ List.take_nil)
  unfold recordsOf
  rw [List.take_succ_cons, List.take_append, List.take_append, List.length_map, List.length_map, hlast, List.map_take,
    List.map_take]

/-- The map is sorted, so the topics with a retained message decide what it is. -/
theorem Idled.retainMap (h : Idled b b') : retainMap env b' = retainMap env b := by
  have hmem : ∀ {b : Broker} {p : ByteStr × MbufTmp}, p ∈ MqttServer.retainMap env b ↔
      ∃ m, b.sess.topicMgr.retainMsg p.1 = some m ∧ (b.bufs m).1.length ≠ 0 ∧ p.2 = .ofBuf (b.bufs m) :=
    fun {_ p} => by
      obtain ⟨_, _⟩ := p
      exact mem_retainMap
  have hnodup : ∀ b : Broker, (MqttServer.retainMap env b).Nodup := fun _ => nodup_retainMap.of_map _
  have hperm : (MqttServer.retainMap env b').Perm (MqttServer.retainMap env b) := by
    refine (List.perm_ext_iff_of_nodup (hnodup b') (hnodup b)).mpr fun p => ?_
    rw [hmem, hmem, h.retained, h.bufs]
  have hsorted : ∀ b : Broker, (MqttServer.retainMap env b).Pairwise fun x y => x.1 ≤ y.1 :=
    fun _ => List.pairwise_insertionSort _ _
  refine hperm.eq_of_pairwise (fun p q hp hq hpq hqp => ?_) (hsorted b') (hsorted b)
  -- two entries of one topic are the same entry
  obtain ⟨m, hm, -, hpm⟩ := hmem.mp hp
  obtain ⟨m', hm', -, hqm⟩ := hmem.mp hq
  have hfst : p.1 = q.1 := List.le_antisymm hpq hqp
  rw [h.retained, hfst, hm'] at hm
  cases hm
  exact Prod.ext hfst (by rw [hpm, hqm, h.bufs])

/-! ## Storing -/

/-- The db file, what is in its buffer, and what is known of it are the same. -/
structure SameDisk (b b' : Broker) : Prop where
  file : b'.file = b.file
  dbFile : b'.dbFile = b.dbFile
  nfiles : b'.nfiles = b.nfiles
  updated : b'.lastDbUpdateTime = b.lastDbUpdateTime

/-- Only writing moves the disk. -/
theorem Prim.disk {sc : Scope} (hsc : ¬ sc.file) (h : Prim env sc b b') : SameDisk b b' := by
  cases h with
  | file _ _ _ _ hf => exact absurd hf hsc
  | regist h =>
      cases h
      exact ⟨rfl, rfl, rfl, rfl⟩
  | _ => exact ⟨rfl, rfl, rfl, rfl⟩

theorem Prims.disk {sc : Scope} (hsc : ¬ sc.file) (h : Prims env sc b b') : SameDisk b b' := by
  refine h.invariant (I := SameDisk b) (fun b₁ b₂ hp hI => ?_) ⟨rfl, rfl, rfl, rfl⟩
  have hsame := hp.disk hsc
  exact ⟨hsame.file.trans hI.file, hsame.dbFile.trans hI.dbFile, hsame.nfiles.trans hI.nfiles,
    hsame.updated.trans hI.updated⟩

theorem errorReturn_ok {x y : BrokerM Int} {r : Int} (h : errorReturn x y b = .ok (r, b')) (hr : ¬ r < 0) :
    ∃ r₁ b₁, x b = .ok (r₁, b₁) ∧ ¬ r₁ < 0 ∧ y b₁ = .ok (r, b') := by
  unfold errorReturn at h
  rw [bind_ok] at h
  obtain ⟨r₁, b₁, hx, h⟩ := h
  split at h
  · cases h
    exact absurd (by decide) hr
  · rename_i hr₁
    exact ⟨r₁, b₁, hx, hr₁, h⟩

theorem storeMsgs_puts (ms : List MbufId) : ∀ b : Broker, storeMsgs env mp ms b = .ok (r, b') →
    Puts env (fileWrites mp (ms.map fun m => .msg (MbufTmp.ofBuf (b.bufs m)))) b r b' := by
  induction ms with
  | nil =>
      intro b h
      cases h
      exact .nil
  | cons m ms ih =>
      intro b h
      unfold storeMsgs at h
      rw [get_bind] at h
      refine Puts.errorReturn (chunkWrites .dbMsg (mp.mbuf.pack (.ofBuf (b.bufs m)))) _ h
        (fun _ _ => writeChunk_puts) fun b₁ hw h => ?_
      obtain ⟨file, dbFile, n, rfl⟩ := Frame.resp_ok writeChunk_writing hw
      exact ih _ h

/-- Between two sessions an idle one may be closed, which does not touch the file. -/
theorem storeClients_puts (cs : List CtxId) : ∀ b : Broker, storeClients env mp cs b = .ok (r, b') →
    Puts env (fileWrites mp ((persistent b cs).map fun c => .client (.ofContext b c))) b r b' ∧
      (r = 0 → Idled b b') := by
  induction cs with
  | nil =>
      intro b h
      cases h
      exact ⟨.nil, fun _ => .refl _⟩
  | cons c cs ih =>
      intro b h
      unfold storeClients at h
      rw [bind_ok] at h
      obtain ⟨_, b₁, hi, h⟩ := h
      have hidle := checkIdle_idled hi
      have hprims : Prims env {} b b₁ := Frame.resp_ok checkIdle_prims hi
      obtain ⟨hfile, hdb, hn, -⟩ := hprims.disk fun h => h
      have hpers : ∀ {b₂ : Broker}, Idled b b₂ →
          (persistent b₂ cs).map (fun c => Record.client (.ofContext b₂ c)) =
            (persistent b cs).map fun c => Record.client (.ofContext b c) := by
        intro b₂ h₂
        simp only [persistent, h₂.clean, h₂.packed]
      rw [get_bind, hidle.clean] at h
      cases hclean : (b.sess.ctxs c).cleanSession with
      | true =>
          rw [if_pos hclean] at h
          obtain ⟨hputs, hrest⟩ := ih b₁ h
          rw [hpers hidle] at hputs
          simp only [persistent, List.filter_cons, hclean, Bool.not_true, Bool.false_eq_true, if_false]
          exact ⟨hputs.of_disk hfile hdb hn, fun hr => hidle.trans (hrest hr)⟩
      | false =>
          rw [if_neg (by rw [hclean]; decide), hidle.packed c] at h
          simp only [persistent, List.filter_cons, hclean, Bool.not_false, if_true, List.map_cons]
          -- the rest is written from a state that packs the sessions alike
          have hafter : ∀ b₂, writeChunk env .clientMsg (mp.client.pack (.ofContext b c)) b₁ = .ok (0, b₂) →
              Idled b b₂ := by
            intro b₂ hw
            exact hidle.trans (.of_writing (Frame.resp_ok writeChunk_writing hw))
          constructor
          · refine Puts.of_disk ?_ hfile hdb hn
            refine Puts.errorReturn (chunkWrites .clientMsg (mp.client.pack (.ofContext b c))) _ h
              (fun _ _ => writeChunk_puts) fun b₂ hw h => ?_
            have hputs := (ih b₂ h).1
            rw [hpers (hafter b₂ hw)] at hputs
            exact hputs
          · intro hr
            obtain ⟨r₁, b₂, hw, hr₁, h⟩ := errorReturn_ok h (by rw [hr]; decide)
            exact (hidle.trans (.of_writing (Frame.resp_ok writeChunk_writing hw))).trans ((ih b₂ h).2 hr)

theorem storeRetainMsg_puts (h : storeRetainMsg env mp b = .ok (r, b')) :
    Puts env (fileWrites mp (if retainMap env b = [] then [] else [.retains (retainMap env b)])) b r b' := by
  unfold storeRetainMsg at h
  rw [get_bind] at h
  by_cases hmap : retainMap env b = []
  · rw [if_pos hmap] at h ⊢
    cases h
    exact .nil
  · rw [if_neg hmap] at h ⊢
    have hputs := writeChunk_puts h
    unfold fileWrites
    rw [List.flatMap_cons, List.flatMap_nil, List.append_nil]
    exact hputs

/-- The writes of `store` after the file is open. -/
theorem storeChunks_puts {b₀ : Broker} (hb : writing.rel b b₀) (h : storeChunks env mp b₀ = .ok (r, b')) :
    Puts env (fileWrites mp (records env b)) b₀ r b' := by
  obtain ⟨file₀, dbFile₀, n₀, rfl⟩ := hb
  have hwrites : fileWrites mp (records env b) =
      chunkWrites .globalInfo
          (mp.info.pack { lastMsgId := b.store.lastMsgId, lastUpdateTime := b.store.lastUpdateTime }) ++
        (fileWrites mp ((storedMsgs env b).map .msg) ++ (fileWrites mp ((storedInfos env b).map .client) ++
          fileWrites mp (if retainMap env b = [] then [] else [.retains (retainMap env b)]))) := by
    unfold records
    rw [← fileWrites_append, ← fileWrites_append]
    unfold fileWrites
    rw [List.flatMap_cons]
    rfl
  rw [hwrites]
  refine Puts.errorReturn _ _ h (fun _ _ hinfo => writeChunk_puts hinfo) fun b₁ hinfo h => ?_
  obtain ⟨file₁, dbFile₁, n₁, rfl⟩ := Frame.resp_ok storeDbInfo_writing hinfo
  refine Puts.errorReturn _ _ h (fun _ _ hmsgs => ?_) fun b₂ hmsgs h => ?_
  · have hputs := storeMsgs_puts _ _ hmsgs
    unfold storedMsgs
    rw [List.map_map]
    exact hputs
  obtain ⟨file₂, dbFile₂, n₂, rfl⟩ := Frame.resp_ok storeDbMsg_writing hmsgs
  refine Puts.errorReturn _ _ h (fun _ _ hclients => ?_) fun b₃ hclients h => ?_
  · have hputs := (storeClients_puts _ _ hclients).1
    unfold storedInfos storedClients
    rw [List.map_map]
    exact hputs
  have hidle := (storeClients_puts _ _ hclients).2 rfl
  have hmap : retainMap env b₃ = retainMap env b := hidle.retainMap
  rw [← hmap, ← List.append_nil (fileWrites mp _)]
  refine Puts.errorReturn _ _ h (fun _ _ hretain => storeRetainMsg_puts hretain) fun _ _ h => ?_
  cases h
  exact .nil

theorem errorReturn_zero {x y : BrokerM Int} (h : x b = .ok (0, b')) : errorReturn x y b = y b' := by
  unfold errorReturn
  rw [bind_apply, h]
  rfl

theorem errorReturn_negative {x y : BrokerM Int} (h : x b = .ok (-1, b')) : errorReturn x y b = .ok (-1, b') := by
  unfold errorReturn
  rw [bind_apply, h]
  rfl

theorem openFile_opened (h : env.fopen b.nfiles = true) :
    openFile env b = .ok (0, { b with file := some [], dbFile := some [], nfiles := b.nfiles + 1 }) := by
  unfold openFile
  rw [get_bind, if_pos h]
  rfl

theorem openFile_refused (h : env.fopen b.nfiles = false) :
    openFile env b = .ok (-1, { b with dbFile := none, nfiles := b.nfiles + 1 }) := by
  unfold openFile
  rw [get_bind, if_neg (by rw [h]; decide)]
  rfl

theorem closeFile_eq (env : Env) (b : Broker) :
    closeFile env b = .ok ((), { b with file := b.closed env, dbFile := none }) := rfl

/-- The stream of the new file when `store` leaves it: after the first write that falls short, or after `fflush` and
    `fclose`. -/
def written (env : Env) (mp : MsgPack) (b : Broker) : Stream UInt8 :=
  let ws := fileWrites mp (records env b)
  let s := spool env.fwrite env.drain (b.nfiles + 1) {} ws
  if Completed env.fwrite (b.nfiles + 1) ws then
    (s.flush (env.fflush (b.nfiles + 1 + ws.length))).flush (env.fclose (b.nfiles + 1 + ws.length))
  else s

/-- What was given to the stream is an initial part of the file. -/
theorem written_whole_initial : (written env mp b).whole <+: fileOf mp (records env b) := by
  have hwhole : (written env mp b).whole = accepted env.fwrite (b.nfiles + 1) (fileWrites mp (records env b)) := by
    unfold written
    simp only
    split
    · rw [Stream.whole_flush, Stream.whole_flush, spool_whole]
      rfl
    · rw [spool_whole]
      rfl
  rw [hwhole, ← flatten_fileWrites]
  exact accepted_initial _ _

/-- The disk has an initial part of the file. -/
theorem written_prefix : (written env mp b).out <+: fileOf mp (records env b) :=
  (Stream.out_prefix_whole _).trans written_whole_initial

/-- It has the whole file when every write succeeds and nothing is left in the buffer. -/
theorem written_eq (hall : Completed env.fwrite (b.nfiles + 1) (fileWrites mp (records env b)))
    (hheld : (written env mp b).held = []) : (written env mp b).out = fileOf mp (records env b) := by
  rw [Stream.out_eq_whole hheld]
  unfold written
  simp only
  rw [if_pos hall, Stream.whole_flush, Stream.whole_flush, spool_whole, accepted_completed _ _ hall, flatten_fileWrites]
  rfl

theorem finishFile_eq (env : Env) {s : Stream UInt8} (h : b.Open s) : ∃ b', finishFile env b = .ok (0, b') ∧
    b'.file = some ((s.flush (env.fflush b.nfiles)).flush (env.fclose b.nfiles)).out ∧ b'.dbFile = none := by
  unfold finishFile
  rw [modify_bind, bind_apply, closeFile_eq, h.stream]
  exact ⟨_, rfl, rfl, rfl⟩

/-- **What `store` leaves on disk.** -/
theorem storeAll_writes (h : storeAll env mp b = .ok (r, b')) :
    (env.fopen b.nfiles = false → r = -1 ∧ b'.file = b.closed env ∧ b'.dbFile = none) ∧
    (env.fopen b.nfiles = true → b'.file = some (written env mp b).out ∧
      (b'.dbFile = none ∨ b'.dbFile = some (written env mp b).held) ∧
      (r = 0 ↔ Completed env.fwrite (b.nfiles + 1) (fileWrites mp (records env b)))) := by
  unfold storeAll at h
  rw [bind_apply, closeFile_eq] at h
  simp only at h
  constructor
  · intro hopen
    rw [errorReturn_negative (openFile_refused (b := { b with file := b.closed env, dbFile := none }) hopen)] at h
    cases h
    exact ⟨rfl, rfl, rfl⟩
  · intro hopen
    rw [errorReturn_zero (openFile_opened (b := { b with file := b.closed env, dbFile := none }) hopen)] at h
    unfold errorReturn at h
    rw [bind_ok] at h
    obtain ⟨r₁, b₁, hchunks, h⟩ := h
    have hputs := storeChunks_puts (b := b) ⟨_, _, _, rfl⟩ hchunks
    have hfile := hputs.file {} ⟨rfl, rfl⟩
    unfold written
    by_cases hall : Completed env.fwrite (b.nfiles + 1) (fileWrites mp (records env b))
    · obtain ⟨rfl, hn⟩ := hputs.done hall
      obtain ⟨b₂, hfinish, hout, hdb⟩ := finishFile_eq env hfile
      rw [if_neg (by decide), hfinish] at h
      cases h
      rw [hn] at hout
      simp only
      rw [if_pos hall]
      exact ⟨hout, Or.inl hdb, iff_of_true trivial hall⟩
    · obtain rfl := hputs.stopped hall
      rw [if_pos (by decide)] at h
      cases h
      simp only
      rw [if_neg hall]
      exact ⟨hfile.1, Or.inr hfile.2, (fun hr => by cases hr), fun hc => absurd hc hall⟩

/-- **What a `store` that returns `0` has written.** -/
theorem store_force_written (h : store env mp true b = .ok (0, b')) : b'.file = some (written env mp b).out := by
  have hall : storeAll env mp (flushStat b) = .ok (0, b') := h
  obtain ⟨hrefused, hopened⟩ := storeAll_writes hall
  cases hopen : env.fopen b.nfiles with
  | false =>
      obtain ⟨hr, -⟩ := hrefused hopen
      cases hr
  | true => exact (hopened hopen).1

end MqttServer
