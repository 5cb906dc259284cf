import MqttServer.Correctness.Image
import MqttServer.Server.Packing

/-!
# `Correctness.RoundTrip` — storing a broker and restoring it

When `store(true)` and then `restore` on its file both return `0`, what is lost is decided by the state that was
stored and by how much of the file the disk has: `store` does not look at what `fflush` and `fclose` return, and for
`restore` a cut between two chunks is the end of the file. A session comes back if its list and the subscriber sets
agree and all its pending messages are in the message table, which retained copies and bridged messages are not. A
retained message comes back if its topic has got a node when it is read, and that is the case for the topics of the
stored sessions only.
-/

namespace MqttServer

open Lib Exec

variable {env env' : Env} {mp : MsgPack} {b b₁ b₂ : Broker}

/-! ## From the stored state to the restored one -/

theorem mem_storedMsgs {tmp : MbufTmp} :
    tmp ∈ storedMsgs env b ↔ ∃ id m, b.store.msgDb.lookup id = some m ∧ tmp = .ofBuf (b.bufs m) := by
  unfold storedMsgs
  rw [List.mem_map]
  constructor
  · rintro ⟨m, hm, rfl⟩
    rw [(env.order_perm _).mem_iff, List.mem_map] at hm
    obtain ⟨⟨id, m'⟩, he, rfl⟩ := hm
    exact ⟨id, m', AList.mem_lookup_iff.mpr he, rfl⟩
  · rintro ⟨id, m, hm, rfl⟩
    refine ⟨m, ?_, rfl⟩
    rw [(env.order_perm _).mem_iff, List.mem_map]
    exact ⟨⟨id, m⟩, AList.mem_lookup_iff.mp hm, rfl⟩

theorem mem_storedClients {c : CtxId} :
    c ∈ storedClients env b ↔
      (∃ id, b.sess.registry.findClientContext id = some c) ∧ (b.sess.ctxs c).cleanSession = false := by
  unfold storedClients persistent
  rw [List.mem_filter, (env.order_perm _).mem_iff, List.mem_map]
  refine and_congr ⟨?_, ?_⟩ (by simp)
  · rintro ⟨⟨id, c'⟩, he, rfl⟩
    exact ⟨id, AList.mem_lookup_iff.mpr he⟩
  · rintro ⟨id, hid⟩
    exact ⟨⟨id, c⟩, AList.mem_lookup_iff.mp hid, rfl⟩

/-- The phases of `restore` on a file with these records: the counters, messages, sessions, and retained messages. -/
structure Revived (lastMsgId : Nat) (ms : List MbufTmp) (infos : List ClientInfo) (map : List (ByteStr × MbufTmp))
    (st st' : RestoreState) (b₁ b₁' b₂ : Broker) : Prop where
  loaded : Loaded ms st b₁
  empty : b₁.sess = Sess.empty
  lastMsgId : b₁.store.lastMsgId = lastMsgId
  resumed : Resumed infos st st' b₁ b₁'
  retained : Retained map b₁' b₂

/-- A file with no records in it brings nothing back. -/
theorem Revived.nothing {b₀ : Broker} (hsess : b₀.sess = Sess.empty) (hlast : b₀.store.lastMsgId = 0) (dbFile : Option ByteStr) :
    Revived 0 [] [] [] {} {} b₀ b₀ { RestoreState.clear {} b₀ with dbFile } where
  loaded := ⟨(fun _ _ h => by cases h), (fun _ h => by cases h)⟩
  empty := hsess
  lastMsgId := hlast
  resumed := by
    have hnone : restoreRecords Env.calm packing ([].map .client) {} b₀ = .ok ({}, b₀) := rfl
    refine restoreClients_ok [] {} b₀ hnone ?_
    rw [hsess]
    exact Restored.empty
  retained := (restoreRetains_retained (u := ()) [] b₀ rfl).cleared {} dbFile

/-- The record of the retained messages, which is there when there are any. -/
theorem restoreRetainRecord_ok {map : List (ByteStr × MbufTmp)} {st st' : RestoreState}
    (hr : restoreRecords env' mp (if map = [] then [] else [.retains map]) st b = .ok (st', b₂)) : Retained map b b₂ := by
  by_cases hnil : map = []
  · rw [if_pos hnil] at hr
    cases hr
    rw [hnil]
    exact restoreRetains_retained (u := ()) [] _ rfl
  · rw [if_neg hnil] at hr
    unfold restoreRecords at hr
    rw [bind_ok] at hr
    obtain ⟨st₄, b₄, hc, hr⟩ := hr
    cases hr
    unfold restoreChunk restoreRetainMsg at hc
    simp only [Record.type, Record.pack, bind_assoc] at hc
    obtain ⟨map', hu, hc⟩ := unpackOr_bind_ok hc
    rw [mp.retain.unpack_pack] at hu
    cases hu
    rw [bind_ok] at hc
    obtain ⟨_, b₅, hc, he⟩ := hc
    cases he
    exact restoreRetains_retained _ _ hc

theorem Revived.of_records {i : DbInfo} {ms : List MbufTmp} {infos : List ClientInfo} {map : List (ByteStr × MbufTmp)}
    {b₀ : Broker} {st₀ : RestoreState} (hsess : b₀.sess = Sess.empty) (dbFile : Option ByteStr)
    (hr : restoreRecords env' mp (recordsOf i ms infos map) {} b₀ = .ok (st₀, b₂)) :
    ∃ st st' b₃ b₄, Revived i.lastMsgId ms infos map st st' b₃ b₄ { st₀.clear b₂ with dbFile } := by
  unfold recordsOf restoreRecords at hr
  rw [bind_ok] at hr
  obtain ⟨st₀', b₀', hinfo, hr⟩ := hr
  -- the counters
  have hinfo' : st₀' = {} ∧ b₀'.sess = Sess.empty ∧ b₀'.store.lastMsgId = i.lastMsgId := by
    unfold restoreChunk restoreDbInfo at hinfo
    simp only [Record.type, Record.pack, bind_assoc] at hinfo
    obtain ⟨info, hu, hinfo⟩ := unpackOr_bind_ok hinfo
    rw [mp.info.unpack_pack] at hu
    cases hu
    cases hinfo
    exact ⟨rfl, hsess, rfl⟩
  obtain ⟨rfl, hsess₀, hlast₀⟩ := hinfo'
  -- the messages
  obtain ⟨st₁, b₁', hmsgs, hr⟩ := restoreRecords_append _ hr
  have hload₀ : Loaded [] {} b₀' := ⟨(fun _ _ h => by cases h), (fun _ h => by cases h)⟩
  obtain ⟨hload, hctx, hsess₁, hlast₁⟩ := restoreMsgs_ok _ _ _ _ hmsgs hload₀
  -- the sessions
  obtain ⟨st₂, b₂', hclients, hr⟩ := restoreRecords_append _ hr
  have hrestored : Restored st₁.contexts b₁'.sess := by
    rw [hctx, hsess₁, hsess₀]
    exact Restored.empty
  have hresumed := restoreClients_ok _ _ _ hclients hrestored
  have hretained := restoreRetainRecord_ok hr
  exact ⟨st₁, st₂, b₁', b₂', hload, hsess₁.trans hsess₀, hlast₁.trans hlast₀, hresumed, hretained.cleared _ _⟩

/-- **What comes back** from the disk: the first records of the file, as many of them as are there. -/
theorem revived {now : Nat} (hs : store env mp true b = .ok (0, b₁))
    (hr : restore env' mp b₁.file { file := b₁.file, now } = .ok (0, b₂)) :
    ∃ n st st' b₃ b₄, (written env mp b).out = fileOf mp ((records env b).take n) ∧
      Revived (if n = 0 then 0 else b.store.lastMsgId) ((storedMsgs env b).take (n - 1))
        ((storedInfos env b).take (n - 1 - (storedMsgs env b).length))
        (if n ≤ 1 + (storedMsgs env b).length + (storedInfos env b).length then [] else retainMap env b) st st' b₃ b₄ b₂ := by
  have hfile := store_force_written hs
  rw [hfile] at hr
  obtain ⟨n, st₀, b₀, dbFile, hn, hrecs, rfl⟩ := restore_part written_prefix hr
  cases n with
  | zero =>
      cases hrecs
      exact ⟨0, _, _, _, _, hn, by simpa using Revived.nothing rfl rfl dbFile⟩
  | succ n =>
      have htake : (records env b).take (n + 1) = _ := take_recordsOf _ _ _ _ n
      rw [htake] at hrecs
      obtain ⟨st, st', b₃, b₄, hrev⟩ := Revived.of_records rfl dbFile hrecs
      refine ⟨n + 1, st, st', b₃, b₄, hn, ?_⟩
      have hle : n + 1 ≤ 1 + (storedMsgs env b).length + (storedInfos env b).length ↔
          n ≤ (storedMsgs env b).length + (storedInfos env b).length := by omega
      simp only [Nat.add_one_ne_zero, if_false, Nat.add_sub_cancel, hle]
      exact hrev

/-! ## Sessions -/

/-- The pending queue of a session: ids and unread bytes, oldest first. -/
def Broker.pending (b : Broker) (c : CtxId) : List (Nat × ByteStr) :=
  (b.sess.ctxs c).sendMsgQueue.map fun m => ((b.bufs m).msgId, (b.bufs m).unread)

/-- The persistent sessions of `b` are in `b₂`, with the same subscriptions and the same pending messages, and
    the counter of message ids is the same. -/
def SessionsPreserved (b b₂ : Broker) : Prop :=
  b₂.store.lastMsgId = b.store.lastMsgId ∧
    ∀ id c, b.sess.registry.findClientContext id = some c → (b.sess.ctxs c).cleanSession = false →
      ∃ c', b₂.sess.registry.findClientContext id = some c' ∧
        (∀ t, c' ∈ b₂.sess.topicMgr.clients t ↔ c ∈ b.sess.topicMgr.clients t) ∧ b₂.pending c' = b.pending c

/-- A message of the table has the id and the unread bytes of this one. -/
def Broker.InTable (b : Broker) (m : MbufId) : Prop :=
  ∃ m', b.store.msgDb.lookup (b.bufs m).msgId = some m' ∧ (b.bufs m').unread = (b.bufs m).unread

/-- Every persistent session is registered under its own client id, is subscribed to the topics of its list,
    and has pending messages only that are in the message table. -/
def SessionsStorable (b : Broker) : Prop :=
  ∀ id c, b.sess.registry.findClientContext id = some c → (b.sess.ctxs c).cleanSession = false →
    (b.sess.ctxs c).clientId = id ∧ (∀ t, c ∈ b.sess.topicMgr.clients t ↔ t ∈ (b.sess.ctxs c).topicNames) ∧
      ∀ m ∈ (b.sess.ctxs c).sendMsgQueue, b.InTable m

namespace Revived

variable {last : Nat} {ms : List MbufTmp} {infos : List ClientInfo} {map : List (ByteStr × MbufTmp)}
  {st st' : RestoreState} {b₃ b₄ : Broker}

/-- When all messages are there, an id is resolved to a message that reads the same. -/
theorem resolve (h : Revived last (storedMsgs env b) infos map st st' b₃ b₄ b₂) (hk : Keyed b) (id : Nat) :
    (st.tmpMsgDb.lookup id).map (fun r => ((b₂.bufs r).msgId, (b₂.bufs r).unread)) =
      (b.store.msgDb.lookup id).map fun m => ((b.bufs m).msgId, (b.bufs m).unread) := by
  have hsound : ∀ r, st.tmpMsgDb.lookup id = some r → ∃ m, b.store.msgDb.lookup id = some m ∧
      ((b₂.bufs r).msgId, (b₂.bufs r).unread) = ((b.bufs m).msgId, (b.bufs m).unread) := by
    intro r hr
    obtain ⟨hlt, -, hid, tmp, htmp, heq, hun⟩ := h.loaded.sound id r hr
    obtain ⟨id', m, hm, rfl⟩ := mem_storedMsgs.mp htmp
    have heq' : (b.bufs m).msgId = id := heq
    have hid' : id' = id := (hk id' m hm).2.1.symm.trans heq'
    subst hid'
    have hbufs : b₂.bufs r = b₃.bufs r := by
      rw [h.retained.old r (by rw [h.resumed.nextBuf]; exact hlt), h.resumed.bufs]
    refine ⟨m, hm, ?_⟩
    rw [hbufs, hid, hun, heq', MbufTmp.unread_ofBuf]
  cases hr : st.tmpMsgDb.lookup id with
  | some r =>
      obtain ⟨m, hm, he⟩ := hsound r hr
      rw [hm, Option.map_some, Option.map_some, he]
  | none =>
      cases hm : b.store.msgDb.lookup id with
      | none => rfl
      | some m =>
          obtain ⟨-, hid, hne⟩ := hk id m hm
          have hmem : MbufTmp.ofBuf (b.bufs m) ∈ storedMsgs env b := mem_storedMsgs.mpr ⟨id, m, hm, rfl⟩
          have hid' : (MbufTmp.ofBuf (b.bufs m)).msgId = id := hid
          obtain ⟨r, hr'⟩ := h.loaded.complete _ hmem (by rw [hid']; exact hne)
          rw [hid', hr] at hr'
          cases hr'

/-- The sessions are stored under different ids. -/
theorem nodup_clientIds (env : Env) (hid : ∀ id c, b.sess.registry.findClientContext id = some c →
    (b.sess.ctxs c).cleanSession = false → (b.sess.ctxs c).clientId = id) :
    ((storedInfos env b).map ClientInfo.clientId).Nodup := by
  let persists : CtxId → Bool := fun c => !(b.sess.ctxs c).cleanSession
  have hperm : ((storedInfos env b).map ClientInfo.clientId).Perm
      (((b.sess.registry.entries.map Sigma.snd).filter persists).map fun c => (b.sess.ctxs c).clientId) := by
    unfold storedInfos storedClients persistent
    rw [List.map_map]
    exact ((env.order_perm _).filter _).map _
  rw [hperm.nodup_iff, List.filter_map, List.map_map]
  have hfst : ∀ e ∈ b.sess.registry.entries.filter (persists ∘ Sigma.snd),
      ((fun c => (b.sess.ctxs c).clientId) ∘ Sigma.snd) e = e.1 := by
    rintro ⟨id, c⟩ he
    obtain ⟨hmem, hp⟩ := List.mem_filter.mp he
    exact hid id c (AList.mem_lookup_iff.mpr hmem) (by simpa [persists] using hp)
  rw [List.map_congr_left hfst]
  exact List.Nodup.sublist (List.filter_sublist.map _) b.sess.registry.nodupKeys

/-- The session that comes back for a stored one. -/
theorem session (h : Revived last (storedMsgs env b) (storedInfos env b) map st st' b₃ b₄ b₂) (hk : Keyed b)
    (hids : ∀ id c, b.sess.registry.findClientContext id = some c →
      (b.sess.ctxs c).cleanSession = false → (b.sess.ctxs c).clientId = id)
    {id : ByteStr} {c : CtxId} (hc : b.sess.registry.findClientContext id = some c)
    (hclean : (b.sess.ctxs c).cleanSession = false) :
    ∃ c', b₂.sess.registry.findClientContext id = some c' ∧ (b₂.sess.ctxs c').cleanSession = false ∧
      (∀ t, c' ∈ b₂.sess.topicMgr.clients t ↔ t ∈ (b.sess.ctxs c).topicNames) ∧
      b₂.pending c' = (b.sess.ctxs c).sendMsgQueue.filterMap fun m =>
        (b.store.msgDb.lookup (b.bufs m).msgId).map fun m' => ((b.bufs m').msgId, (b.bufs m').unread) := by
  have hnew : ∀ info ∈ storedInfos env b, b₃.sess.registry.findClientContext info.clientId = none := by
    intro info _
    rw [h.empty]
    rfl
  have hmem : ClientInfo.ofContext b c ∈ storedInfos env b :=
    List.mem_map_of_mem (mem_storedClients.mpr ⟨⟨id, hc⟩, hclean⟩)
  obtain ⟨c', hfind, hctx⟩ := h.resumed.sessions (nodup_clientIds env hids) hnew _ hmem
  have hid : (ClientInfo.ofContext b c).clientId = id := hids id c hc hclean
  have hctx₂ : b₂.sess.ctxs c' = (ClientInfo.ofContext b c).context st.tmpMsgDb := by
    rw [h.retained.ctxs, hctx]
  refine ⟨c', ?_, ?_, fun t => ?_, ?_⟩
  · rw [h.retained.registry, ← hid]
    exact hfind
  · rw [hctx₂]
    exact hclean
  · rw [h.retained.clients, h.resumed.tables.agree, hctx]
    rfl
  · unfold Broker.pending
    rw [hctx₂]
    show ((((b.sess.ctxs c).sendMsgQueue.map fun m => (b.bufs m).msgId).filterMap
      fun id => st.tmpMsgDb.lookup id).map _) = _
    rw [List.map_filterMap, List.filterMap_map]
    refine List.filterMap_congr fun m _ => ?_
    exact h.resolve hk _

/-- A session whose record is not read does not come back. -/
theorem cut {k : Nat} (h : Revived last ms ((storedInfos env b).take k) map st st' b₃ b₄ b₂)
    (hids : ∀ id c, b.sess.registry.findClientContext id = some c →
      (b.sess.ctxs c).cleanSession = false → (b.sess.ctxs c).clientId = id)
    (hk : k < (storedInfos env b).length) :
    ¬ ∀ id c, b.sess.registry.findClientContext id = some c → (b.sess.ctxs c).cleanSession = false →
      ∃ c', b₂.sess.registry.findClientContext id = some c' := by
  intro hall
  obtain ⟨c, hc, hinfo⟩ := List.mem_map.mp (List.getElem_mem hk)
  obtain ⟨⟨id, hfind⟩, hclean⟩ := mem_storedClients.mp hc
  obtain ⟨c', hc'⟩ := hall id c hfind hclean
  rw [h.retained.registry] at hc'
  rcases h.resumed.only id c' hc' with hempty | ⟨info, hmem, hid⟩
  · rw [h.empty] at hempty
    cases hempty
  · -- two records of one client id
    obtain ⟨j, hj, rfl⟩ := List.mem_iff_getElem.mp hmem
    rw [List.length_take] at hj
    rw [List.getElem_take] at hid
    have hsame : (storedInfos env b)[k].clientId = id := by
      rw [← hinfo]
      exact hids id c hfind hclean
    have hj' : j < ((storedInfos env b).map ClientInfo.clientId).length := by
      rw [List.length_map]
      omega
    have hk' : k < ((storedInfos env b).map ClientInfo.clientId).length := by
      rw [List.length_map]
      exact hk
    have hjk : ((storedInfos env b).map ClientInfo.clientId)[j] = ((storedInfos env b).map ClientInfo.clientId)[k] := by
      rw [List.getElem_map, List.getElem_map, hid, hsame]
    rw [(nodup_clientIds env hids).getElem_inj_iff] at hjk
    omega

end Revived

theorem pending_filterMap_iff {c : CtxId} (hk : Keyed b) :
    ((b.sess.ctxs c).sendMsgQueue.filterMap fun m =>
        (b.store.msgDb.lookup (b.bufs m).msgId).map fun m' => ((b.bufs m').msgId, (b.bufs m').unread)) =
      b.pending c ↔ ∀ m ∈ (b.sess.ctxs c).sendMsgQueue, b.InTable m := by
  unfold Broker.pending
  rw [List.filterMap_eq_map_iff_forall_eq_some]
  refine forall₂_congr fun m _ => ?_
  unfold Broker.InTable
  rw [Option.map_eq_some_iff]
  refine exists_congr fun m' => and_congr_right fun hm' => ?_
  rw [Prod.mk.injEq, (hk _ m' hm').2.1]
  exact and_iff_right rfl

/-! ### What the disk has of them -/

theorem fileOf_length_lt {r : Record} {rs : List Record} : (fileOf mp rs).length < (fileOf mp (r :: rs)).length := by
  rw [fileOf_cons]
  simp only [List.length_cons, List.length_append]
  omega

/-- An initial part of a file that ends behind a record has the records before it, and no more. -/
theorem fileOf_take_prefix_iff {n : Nat} (rs : List Record) : ∀ k ≤ rs.length,
    (fileOf mp (rs.take k) <+: fileOf mp (rs.take n) ↔ k ≤ n) := by
  intro k hk
  constructor
  · intro hpre
    by_contra hlt
    obtain ⟨j, rfl⟩ := Nat.exists_eq_add_of_lt (Nat.not_le.mp hlt)
    have hsplit : rs.take (n + j + 1) = rs.take n ++ (rs.drop n).take (j + 1) := by
      rw [Nat.add_assoc, List.take_add]
    cases hdrop : rs.drop n with
    | nil =>
        rw [List.drop_eq_nil_iff] at hdrop
        omega
    | cons r rest =>
        have hlen := hpre.length_le
        rw [hsplit, hdrop, List.take_succ_cons, fileOf_append, List.length_append] at hlen
        have hr : (fileOf mp (rest.take j)).length < (fileOf mp (r :: rest.take j)).length := fileOf_length_lt
        omega
  · intro hle
    obtain ⟨j, rfl⟩ := Nat.exists_eq_add_of_le hle
    rw [List.take_add, fileOf_append]
    exact List.prefix_append _ _

/-- The records that have to be read for the sessions: without a session only the counters, and else everything up to the
    last one. -/
def sessionsEnd (env : Env) (b : Broker) : Nat :=
  if storedInfos env b = [] then 1 else 1 + (storedMsgs env b).length + (storedInfos env b).length

/-- The disk has the records of the sessions, or there is nothing to be known of them. -/
def SessionsOnDisk (env : Env) (mp : MsgPack) (b : Broker) : Prop :=
  (b.store.lastMsgId = 0 ∧ storedInfos env b = []) ∨
    fileOf mp ((records env b).take (sessionsEnd env b)) <+: (written env mp b).out

theorem records_length : (records env b).length =
    1 + (storedMsgs env b).length + (storedInfos env b).length + if retainMap env b = [] then 0 else 1 := by
  unfold records
  simp only [List.length_cons, List.length_append, List.length_map]
  split <;> simp only [List.length_nil, List.length_cons] <;> omega

/-- The disk has the whole file when all records are there. -/
theorem records_onDisk_iff {n : Nat} (hn : (written env mp b).out = fileOf mp ((records env b).take n)) :
    (written env mp b).out = fileOf mp (records env b) ↔ (records env b).length ≤ n := by
  have hpre : fileOf mp (records env b) <+: fileOf mp ((records env b).take n) ↔ (records env b).length ≤ n := by
    rw [← fileOf_take_prefix_iff (records env b) _ (Nat.le_refl _), List.take_length]
  rw [hn]
  constructor
  · intro hall
    exact hpre.mp (hall ▸ List.prefix_refl _)
  · intro hle
    rw [List.take_of_length_le hle]

/-- **What comes back** from the whole file. -/
theorem revived_whole {b₀ : Broker} (hsess : b₀.sess = Sess.empty)
    (hr : restore env' mp (some (fileOf mp (records env b))) b₀ = .ok (0, b₂)) :
    ∃ st st' b₃ b₄, Revived b.store.lastMsgId (storedMsgs env b) (storedInfos env b) (retainMap env b) st st' b₃ b₄ b₂ := by
  obtain ⟨n, st₀, b₁, dbFile, hn, hrecs, rfl⟩ := restore_part (List.prefix_refl _) hr
  have hlen : (records env b).length ≤ n := by
    rw [← fileOf_take_prefix_iff (records env b) _ (Nat.le_refl _), List.take_length, ← hn]
  rw [List.take_of_length_le hlen] at hrecs
  exact Revived.of_records hsess dbFile hrecs

theorem sessionsOnDisk_iff {n : Nat} (hn : (written env mp b).out = fileOf mp ((records env b).take n)) :
    SessionsOnDisk env mp b ↔ (b.store.lastMsgId = 0 ∧ storedInfos env b = []) ∨ sessionsEnd env b ≤ n := by
  unfold SessionsOnDisk
  rw [hn, fileOf_take_prefix_iff]
  unfold sessionsEnd
  rw [records_length]
  split <;> omega

/-- **Sessions survive exactly when** they can be stored and the disk has their records. Without a second CONNECT on some
    connection the condition is also necessary; with one, a session can be registered under another client id than its
    own. -/
theorem restored_sessions_iff {m : Machine} {now : Nat} (h : Reach env mp m)
    (hs : store env mp true m.broker = .ok (0, b₁))
    (hr : restore env' mp b₁.file { file := b₁.file, now } = .ok (0, b₂)) :
    (SessionsStorable m.broker ∧ SessionsOnDisk env mp m.broker → SessionsPreserved m.broker b₂) ∧
      (OneConnect m.broker.log → SessionsPreserved m.broker b₂ →
        SessionsStorable m.broker ∧ SessionsOnDisk env mp m.broker) := by
  obtain ⟨n, st, st', b₃, b₄, hn, hrev⟩ := revived hs hr
  have hk := h.keyed
  have hlast : b₂.store.lastMsgId = if n = 0 then 0 else m.broker.store.lastMsgId := by
    rw [hrev.retained.lastMsgId, hrev.resumed.store, hrev.lastMsgId]
  have hnone : storedInfos env m.broker = [] → ∀ id c, m.broker.sess.registry.findClientContext id = some c →
      (m.broker.sess.ctxs c).cleanSession ≠ false := by
    intro hnil id c hc hclean
    rw [storedInfos, List.map_eq_nil_iff] at hnil
    have hmem : c ∈ storedClients env m.broker := mem_storedClients.mpr ⟨⟨id, hc⟩, hclean⟩
    rw [hnil] at hmem
    cases hmem
  -- when the disk has the sessions, everything in front of them is there too
  have hfull : storedInfos env m.broker ≠ [] → sessionsEnd env m.broker ≤ n →
      (storedMsgs env m.broker).take (n - 1) = storedMsgs env m.broker ∧
        (storedInfos env m.broker).take (n - 1 - (storedMsgs env m.broker).length) = storedInfos env m.broker := by
    intro hne hle
    rw [sessionsEnd, if_neg hne] at hle
    exact ⟨List.take_of_length_le (by omega), List.take_of_length_le (by omega)⟩
  rw [sessionsOnDisk_iff hn]
  constructor
  · rintro ⟨hst, hdisk⟩
    refine ⟨?_, fun id c hc hclean => ?_⟩
    · rw [hlast]
      split
      · rename_i hz
        rcases hdisk with ⟨hzero, -⟩ | hle
        · exact hzero.symm
        · rw [hz, sessionsEnd] at hle
          split at hle <;> omega
      · rfl
    have hne : storedInfos env m.broker ≠ [] := fun hnil => hnone hnil id c hc hclean
    obtain ⟨hms, hinfos⟩ := hfull hne (hdisk.resolve_left fun hz => hne hz.2)
    rw [hms, hinfos] at hrev
    obtain ⟨-, htopics, hqueue⟩ := hst id c hc hclean
    obtain ⟨c', hfind, -, hsub, hpend⟩ :=
      hrev.session hk (fun id c hc hclean => (hst id c hc hclean).1) hc hclean
    exact ⟨c', hfind, fun t => (hsub t).trans (htopics t).symm,
      hpend.trans ((pending_filterMap_iff hk).mpr hqueue)⟩
  · intro hone hpres
    have hids : ∀ id c, m.broker.sess.registry.findClientContext id = some c →
        (m.broker.sess.ctxs c).cleanSession = false → (m.broker.sess.ctxs c).clientId = id :=
      fun id c hc _ => (h.links hone).key id c hc
    have hdisk : (m.broker.store.lastMsgId = 0 ∧ storedInfos env m.broker = []) ∨ sessionsEnd env m.broker ≤ n := by
      by_cases hnil : storedInfos env m.broker = []
      · rw [sessionsEnd, if_pos hnil]
        have heq := hlast.symm.trans hpres.1
        split at heq
        · exact Or.inl ⟨heq.symm, hnil⟩
        · exact Or.inr (by omega)
      · right
        rw [sessionsEnd, if_neg hnil]
        have hpos : 0 < (storedInfos env m.broker).length := List.length_pos_iff.mpr hnil
        by_contra hlt
        exact hrev.cut hids (by omega) fun id c hc hclean =>
          (hpres.2 id c hc hclean).imp fun c' hc' => hc'.1
    refine ⟨fun id c hc hclean => ?_, hdisk⟩
    have hne : storedInfos env m.broker ≠ [] := fun hnil => hnone hnil id c hc hclean
    obtain ⟨hms, hinfos⟩ := hfull hne (hdisk.resolve_left fun hz => hne hz.2)
    rw [hms, hinfos] at hrev
    obtain ⟨c', hfind, -, hsub, hpend⟩ := hrev.session hk hids hc hclean
    obtain ⟨c'', hfind', hsub', hpend'⟩ := hpres.2 id c hc hclean
    rw [hfind] at hfind'
    cases hfind'
    refine ⟨hids id c hc hclean, fun t => (hsub' t).symm.trans (hsub t), ?_⟩
    exact (pending_filterMap_iff hk).mp (hpend.symm.trans hpend')

theorem completed_calm (ws : List ByteStr) : ∀ n, Completed Env.calm.fwrite n ws := by
  induction ws with
  | nil => exact fun _ => trivial
  | cons w ws ih => exact fun n => ⟨rfl, ih (n + 1)⟩

theorem held_calm : (written Env.calm mp b).held = [] := by
  unfold written
  simp only
  rw [if_pos (completed_calm _ _)]
  exact Stream.held_flush_none

/-- A disk that takes everything has the whole file. -/
theorem written_calm : (written Env.calm mp b).out = fileOf mp (records Env.calm b) :=
  written_eq (completed_calm _ _) held_calm

theorem sessionsOnDisk_calm : SessionsOnDisk Env.calm mp b := by
  rw [sessionsOnDisk_iff (n := (records Env.calm b).length) (by rw [written_calm, List.take_length])]
  refine Or.inr ?_
  unfold sessionsEnd
  rw [records_length]
  split <;> omega

/-- Store and restore, when both return `0`. -/
def roundTrip (env : Env) (mp : MsgPack) (now : Nat) (b : Broker) : Option Broker :=
  match store env mp true b with
  | .error _ => none
  | .ok (res, b₁) =>
      if res = 0 then
        match restore env mp b₁.file { file := b₁.file, now } with
        | .error _ => none
        | .ok (res, b₂) => if res = 0 then some b₂ else none
      else none

theorem roundTrip_some {now : Nat} (h : roundTrip env mp now b = some b₂) :
    ∃ b₁, store env mp true b = .ok (0, b₁) ∧ restore env mp b₁.file { file := b₁.file, now } = .ok (0, b₂) := by
  unfold roundTrip at h
  cases hs : store env mp true b with
  | error e =>
      rw [hs] at h
      cases h
  | ok p =>
      obtain ⟨res, b₁⟩ := p
      simp only [hs] at h
      split at h
      · rename_i hres
        subst hres
        refine ⟨b₁, rfl, ?_⟩
        cases hr : restore env mp b₁.file { file := b₁.file, now } with
        | error e =>
            rw [hr] at h
            cases h
        | ok q =>
            obtain ⟨res', b₂'⟩ := q
            simp only [hr] at h
            split at h
            · rename_i hres
              cases h
              rw [hres]
            · cases h
      · cases h

instance (b : Broker) (m : MbufId) : Decidable (b.InTable m) :=
  decidable_of_iff (∃ m' ∈ b.store.msgDb.lookup (b.bufs m).msgId, (b.bufs m').unread = (b.bufs m).unread)
    Iff.rfl

/-- Only topics with a node have subscribers. -/
theorem subscribed_iff_of_keys {s : Sess} {c : CtxId} :
    (∀ t ∈ s.topicMgr.keys ++ (s.ctxs c).topicNames,
      c ∈ s.topicMgr.clients t ↔ t ∈ (s.ctxs c).topicNames) ↔
      ∀ t, c ∈ s.topicMgr.clients t ↔ t ∈ (s.ctxs c).topicNames := by
  refine ⟨fun h t => ?_, fun h t _ => h t⟩
  by_cases ht : t ∈ s.topicMgr.keys ++ (s.ctxs c).topicNames
  · exact h t ht
  · rw [List.mem_append, not_or] at ht
    have hnone : s.topicMgr.lookup t = none := AList.lookup_eq_none.mpr ht.1
    have hempty : s.topicMgr.clients t = ∅ := by simp only [TopicMgr.clients, hnone]
    rw [hempty]
    exact ⟨fun hc => absurd hc (USet.not_mem_empty c), fun hc => absurd hc ht.2⟩

instance (b : Broker) : Decidable (SessionsStorable b) :=
  decidable_of_iff (∀ e ∈ b.sess.registry.entries, (b.sess.ctxs e.2).cleanSession = false →
    (b.sess.ctxs e.2).clientId = e.1 ∧
      (∀ t ∈ b.sess.topicMgr.keys ++ (b.sess.ctxs e.2).topicNames,
        e.2 ∈ b.sess.topicMgr.clients t ↔ t ∈ (b.sess.ctxs e.2).topicNames) ∧
      ∀ m ∈ (b.sess.ctxs e.2).sendMsgQueue, b.InTable m) <| by
    unfold SessionsStorable
    simp only [subscribed_iff_of_keys]
    constructor
    · exact fun h id c hc => h ⟨id, c⟩ (AList.mem_lookup_iff.mp hc)
    · exact fun h e he => h e.1 e.2 (AList.mem_lookup_iff.mpr he)

/-- A persistent session with a subscription and a pending message. -/
theorem restored_sessions_pending : ∃ (m : Machine) (b₁ b₂ : Broker), Reach Env.calm packing m ∧
    store Env.calm packing true m.broker = .ok (0, b₁) ∧ restore Env.calm packing b₁.file { file := b₁.file, now := 9 } = .ok (0, b₂) ∧
    m.broker.sess.registry.findClientContext [65] = some (.conn 0) ∧
    .conn 0 ∈ m.broker.sess.topicMgr.clients [116] ∧
    m.broker.pending (.conn 0) = [(1, [0x32, 6, 0, 1, 116, 0, 1, 9])] ∧ SessionsPreserved m.broker b₂ := by
  have hrun : (Machine.initial.play Env.calm packing
      (Move.alone 1 .accept ++ Move.alone 2 .accept ++ Move.alone 3 (.input 0 (connectPacket 65 0)) ++
        Move.alone 4 (.input 1 (connectPacket 66 2)) ++ Move.alone 5 (.input 0 (subscribePacket 116)) ++
        Move.alone 6 (.input 1 (publishPacket 116 9)))).any
      (fun m => decide ((roundTrip Env.calm packing 9 m.broker).isSome ∧ SessionsStorable m.broker ∧
        m.broker.sess.registry.findClientContext [65] = some (.conn 0) ∧
        .conn 0 ∈ m.broker.sess.topicMgr.clients [116] ∧
        m.broker.pending (.conn 0) = [(1, [0x32, 6, 0, 1, 116, 0, 1, 9])])) = true := by
    decide +kernel
  obtain ⟨m, hm, htrip, hst, hfind, hsub, hpend⟩ := Machine.exists_reach hrun
  obtain ⟨b₂, hb₂⟩ := Option.isSome_iff_exists.mp htrip
  obtain ⟨b₁, hs, hr⟩ := roundTrip_some hb₂
  exact ⟨m, b₁, b₂, hm, hs, hr, hfind, hsub, hpend, (restored_sessions_iff hm hs hr).1 ⟨hst, sessionsOnDisk_calm⟩⟩

/-- A retained message that nobody else needs is not in the message table; pending on a new subscriber it is
    lost. -/
theorem restored_sessions_retained : ∃ (m : Machine) (b₁ b₂ : Broker), Reach Env.calm packing m ∧
    store Env.calm packing true m.broker = .ok (0, b₁) ∧ restore Env.calm packing b₁.file { file := b₁.file, now := 9 } = .ok (0, b₂) ∧
    ¬ SessionsPreserved m.broker b₂ := by
  have hrun : (Machine.initial.play Env.calm packing
      (Move.alone 1 .accept ++ Move.alone 2 .accept ++ Move.alone 3 (.input 1 (connectPacket 66 2)) ++
        Move.alone 4 (.input 1 (retainPacket 116 9)) ++ Move.alone 5 (.input 0 (connectPacket 65 0)) ++
        Move.alone 6 (.input 0 (subscribePacket 116)))).any
      (fun m => decide (m.broker.sess.registry.findClientContext [65] = some (.conn 0) ∧
        (m.broker.sess.ctxs (.conn 0)).cleanSession = false ∧
        (m.broker.pending (.conn 0)).length = 1 ∧
        (roundTrip Env.calm packing 9 m.broker).any fun b₂ => decide (
          b₂.sess.registry.findClientContext [65] = some (.stored 0) ∧
          (b₂.pending (.stored 0)).length = 0))) = true := by
    decide +kernel
  obtain ⟨m, hm, hfind, hclean, hpend, htrip⟩ := Machine.exists_reach hrun
  obtain ⟨b₂, hb₂, htest⟩ := (Option.any_eq_true _ _).mp htrip
  obtain ⟨hfind₂, hpend₂⟩ := of_decide_eq_true htest
  obtain ⟨b₁, hs, hr⟩ := roundTrip_some hb₂
  refine ⟨m, b₁, b₂, hm, hs, hr, fun hpres => ?_⟩
  obtain ⟨c', hfind', -, hpend'⟩ := hpres.2 _ _ hfind hclean
  rw [hfind₂] at hfind'
  cases hfind'
  rw [hpend', hpend] at hpend₂
  cases hpend₂

/-! ## Retained messages -/

/-- The retained message of a topic: its id and its unread bytes. -/
def Broker.retained (b : Broker) (t : ByteStr) : Option (Nat × ByteStr) :=
  (b.sess.topicMgr.retainMsg t).map fun m => ((b.bufs m).msgId, (b.bufs m).unread)

/-- Every topic with a retained message has one that is not used up, and is in the list of a persistent
    session. -/
def RetainedStorable (b : Broker) : Prop :=
  ∀ t m, b.sess.topicMgr.retainMsg t = some m → (b.bufs m).unread ≠ [] ∧
    ∃ id c, b.sess.registry.findClientContext id = some c ∧ (b.sess.ctxs c).cleanSession = false ∧
      t ∈ (b.sess.ctxs c).topicNames

theorem unread_ne_nil_iff {buf : Buf} : buf.unread ≠ [] ↔ buf.1.length ≠ 0 := by
  rw [← buf.length_unread, ne_eq, ne_eq, List.length_eq_zero_iff]

namespace Revived

variable {last : Nat} {ms : List MbufTmp} {infos : List ClientInfo} {map : List (ByteStr × MbufTmp)}
  {st st' : RestoreState} {b₃ b₄ : Broker}

/-- The topics of the stored sessions have a node when the retained messages are read, and no others. -/
theorem node_iff (h : Revived last ms (storedInfos env b) map st st' b₃ b₄ b₂) (t : ByteStr) :
    t ∈ b₄.sess.topicMgr ↔ ∃ id c, b.sess.registry.findClientContext id = some c ∧
      (b.sess.ctxs c).cleanSession = false ∧ t ∈ (b.sess.ctxs c).topicNames := by
  rw [h.resumed.nodes t, h.empty]
  constructor
  · rintro (ht | ⟨info, hinfo, ht⟩)
    · cases ht
    · obtain ⟨c, hc, rfl⟩ := List.mem_map.mp hinfo
      obtain ⟨⟨id, hid⟩, hclean⟩ := mem_storedClients.mp hc
      exact ⟨id, c, hid, hclean, ht⟩
  · rintro ⟨id, c, hid, hclean, ht⟩
    exact Or.inr ⟨_, List.mem_map_of_mem (mem_storedClients.mpr ⟨⟨id, hid⟩, hclean⟩), ht⟩

/-- A retained message that is stored comes back if its topic has a node. -/
theorem retained_eq (h : Revived last ms infos (retainMap env b) st st' b₃ b₄ b₂) {t : ByteStr} {m : MbufId}
    (hm : b.sess.topicMgr.retainMsg t = some m) (hne : (b.bufs m).unread ≠ [])
    (hnode : t ∈ b₄.sess.topicMgr) : b₂.retained t = b.retained t := by
  have hmem : (t, MbufTmp.ofBuf (b.bufs m)) ∈ retainMap env b :=
    mem_retainMap.mpr ⟨m, hm, unread_ne_nil_iff.mp hne, rfl⟩
  obtain ⟨r, -, hr, hid, hun⟩ := h.retained.taken nodup_retainMap t _ hmem hnode
  unfold Broker.retained
  rw [hr, hm, Option.map_some, Option.map_some, hid, hun, MbufTmp.unread_ofBuf]
  rfl

/-- No other topic has a retained message afterwards. -/
theorem retained_none (h : Revived last ms infos (retainMap env b) st st' b₃ b₄ b₂) {t : ByteStr}
    (ht : (∀ m, b.sess.topicMgr.retainMsg t = some m → (b.bufs m).unread = []) ∨ t ∉ b₄.sess.topicMgr) :
    b₂.retained t = none := by
  have hkeep : t ∉ (retainMap env b).map Prod.fst ∨ t ∉ b₄.sess.topicMgr := by
    rcases ht with ht | ht
    · refine Or.inl fun hmem => ?_
      obtain ⟨⟨t', tmp⟩, hp, rfl⟩ := List.mem_map.mp hmem
      obtain ⟨m, hm, hlen, -⟩ := mem_retainMap.mp hp
      exact unread_ne_nil_iff.mpr hlen (ht m hm)
    · exact Or.inr ht
  unfold Broker.retained
  rw [h.retained.others t hkeep, h.resumed.retained, h.empty]
  rfl

theorem retained_all (h : Revived last ms (storedInfos env b) (retainMap env b) st st' b₃ b₄ b₂) (hst : RetainedStorable b) (t : ByteStr) :
    b₂.retained t = b.retained t := by
  cases hm : b.sess.topicMgr.retainMsg t with
  | some m =>
      obtain ⟨hne, hnode⟩ := hst t m hm
      exact h.retained_eq hm hne ((h.node_iff t).mpr hnode)
  | none =>
      rw [h.retained_none (Or.inl fun m hm' => by rw [hm] at hm'; cases hm')]
      unfold Broker.retained
      rw [hm]
      rfl

end Revived

/-- Without the record of the retained messages there are none. -/
theorem Revived.retained_nil {last : Nat} {ms : List MbufTmp} {infos : List ClientInfo} {st st' : RestoreState}
    {b₃ b₄ : Broker} (h : Revived last ms infos [] st st' b₃ b₄ b₂) (t : ByteStr) : b₂.retained t = none := by
  unfold Broker.retained
  rw [h.retained.others t (Or.inl List.not_mem_nil), h.resumed.retained, h.empty]
  rfl

theorem retained_eq_none_iff {t : ByteStr} : b.retained t = none ↔ b.sess.topicMgr.retainMsg t = none :=
  Option.map_eq_none_iff

/-- A storable retained message is in the map. -/
theorem retained_of_retainMap_nil (hnil : retainMap env b = []) (hst : RetainedStorable b) {t : ByteStr} :
    b.retained t = none := by
  rw [retained_eq_none_iff]
  cases hm : b.sess.topicMgr.retainMsg t with
  | none => rfl
  | some m =>
      have hmem : (t, MbufTmp.ofBuf (b.bufs m)) ∈ retainMap env b :=
        mem_retainMap.mpr ⟨m, hm, unread_ne_nil_iff.mp (hst t m hm).1, rfl⟩
      rw [hnil] at hmem
      cases hmem

/-- **Retained messages survive exactly when** there are none, or they can be stored and the disk has the whole file, whose
    last record they are. -/
theorem restored_retained_iff {now : Nat} (hs : store env mp true b = .ok (0, b₁))
    (hr : restore env' mp b₁.file { file := b₁.file, now } = .ok (0, b₂)) :
    (∀ t, b₂.retained t = b.retained t) ↔ (∀ t, b.retained t = none) ∨
      (RetainedStorable b ∧ (written env mp b).out = fileOf mp (records env b)) := by
  obtain ⟨n, st, st', b₃, b₄, hn, hrev⟩ := revived hs hr
  by_cases hcut : n ≤ 1 + (storedMsgs env b).length + (storedInfos env b).length
  · -- nothing of them is read
    rw [if_pos hcut] at hrev
    constructor
    · exact fun heq => Or.inl fun t => (heq t).symm.trans (hrev.retained_nil t)
    · rintro (hnone | ⟨hst, hall⟩) t
      · rw [hnone t]
        exact hrev.retained_nil t
      · have hlen := (records_onDisk_iff hn).mp hall
        rw [records_length] at hlen
        have hnil : retainMap env b = [] := by
          by_contra hne
          rw [if_neg hne] at hlen
          omega
        rw [hrev.retained_nil t, retained_of_retainMap_nil hnil hst]
  · rw [if_neg hcut, List.take_of_length_le (by omega : (storedInfos env b).length ≤ _)] at hrev
    have hall : (written env mp b).out = fileOf mp (records env b) := by
      refine (records_onDisk_iff hn).mpr ?_
      rw [records_length]
      split <;> omega
    constructor
    · intro heq
      refine Or.inr ⟨fun t m hm => ?_, hall⟩
      have hsome : b₂.retained t ≠ none := by
        rw [heq t, ne_eq, retained_eq_none_iff, hm]
        exact Option.some_ne_none _
      rw [← hrev.node_iff t]
      constructor
      · intro hnil
        refine hsome (hrev.retained_none (Or.inl fun m' hm' => ?_))
        rw [hm] at hm'
        cases hm'
        exact hnil
      · by_contra hnode
        exact hsome (hrev.retained_none (Or.inr hnode))
    · rintro (hnone | ⟨hst, -⟩)
      · refine hrev.retained_all fun t m hm => ?_
        rw [retained_eq_none_iff.mp (hnone t)] at hm
        cases hm
      · exact hrev.retained_all hst

instance (b : Broker) : Decidable (RetainedStorable b) :=
  decidable_of_iff (∀ e ∈ b.sess.topicMgr.entries, ∀ m ∈ e.2.retainMsg, (b.bufs m).unread ≠ [] ∧
    ∃ e' ∈ b.sess.registry.entries, (b.sess.ctxs e'.2).cleanSession = false ∧
      e.1 ∈ (b.sess.ctxs e'.2).topicNames) <| by
    have hreg : ∀ t, (∃ e' ∈ b.sess.registry.entries, (b.sess.ctxs e'.2).cleanSession = false ∧
        t ∈ (b.sess.ctxs e'.2).topicNames) ↔ ∃ id c, b.sess.registry.findClientContext id = some c ∧
          (b.sess.ctxs c).cleanSession = false ∧ t ∈ (b.sess.ctxs c).topicNames := by
      intro t
      constructor
      · rintro ⟨⟨id, c⟩, he, hc⟩
        exact ⟨id, c, AList.mem_lookup_iff.mpr he, hc⟩
      · rintro ⟨id, c, hid, hc⟩
        exact ⟨⟨id, c⟩, AList.mem_lookup_iff.mp hid, hc⟩
    simp only [hreg]
    unfold RetainedStorable TopicMgr.retainMsg
    constructor
    · intro h t m hm
      split at hm
      · cases hm
      · rename_i node hnode
        exact h ⟨t, node⟩ (mem_entries_iff.mpr hnode) m hm
    · rintro h ⟨t, node⟩ he m hm
      refine h t m ?_
      rw [mem_entries_iff.mp he]
      exact hm

/-- A retained message on a topic of a persistent session. -/
theorem restored_retained_subscribed : ∃ b b₁ b₂ : Broker,
    store Env.calm packing true b = .ok (0, b₁) ∧ restore Env.calm packing b₁.file { file := b₁.file, now := 9 } = .ok (0, b₂) ∧
    b.retained [116] = some (1, [0x33, 6, 0, 1, 116, 0, 1, 9]) ∧ ∀ t, b₂.retained t = b.retained t := by
  have hrun : (Machine.initial.play Env.calm packing
      (Move.alone 1 .accept ++ Move.alone 2 .accept ++ Move.alone 3 (.input 0 (connectPacket 65 0)) ++
        Move.alone 4 (.input 0 (subscribePacket 116)) ++ Move.alone 5 (.input 1 (connectPacket 66 2)) ++
        Move.alone 6 (.input 1 (retainPacket 116 9)))).any
      (fun m => decide ((roundTrip Env.calm packing 9 m.broker).isSome ∧ RetainedStorable m.broker ∧
        m.broker.retained [116] = some (1, [0x33, 6, 0, 1, 116, 0, 1, 9]))) = true := by
    decide +kernel
  obtain ⟨m, -, htrip, hst, hret⟩ := Machine.exists_reach hrun
  obtain ⟨b₂, hb₂⟩ := Option.isSome_iff_exists.mp htrip
  obtain ⟨b₁, hs, hr⟩ := roundTrip_some hb₂
  exact ⟨m.broker, b₁, b₂, hs, hr, hret, (restored_retained_iff hs hr).mpr (Or.inr ⟨hst, written_calm⟩)⟩

/-- A retained message on a topic nobody has subscribed to. -/
theorem restored_retained_nobody : ∃ b b₁ b₂ : Broker,
    store Env.calm packing true b = .ok (0, b₁) ∧ restore Env.calm packing b₁.file { file := b₁.file, now := 9 } = .ok (0, b₂) ∧
    ¬ ∀ t, b₂.retained t = b.retained t := by
  have hrun : (Machine.initial.play Env.calm packing
      (Move.alone 1 .accept ++ Move.alone 2 (.input 0 (connectPacket 66 2)) ++
        Move.alone 3 (.input 0 (retainPacket 116 9)))).any
      (fun m => decide ((m.broker.retained [116]).isSome ∧ (roundTrip Env.calm packing 9 m.broker).any
        fun b₂ => decide (b₂.retained [116] = none))) = true := by
    decide +kernel
  obtain ⟨m, -, hret, htrip⟩ := Machine.exists_reach hrun
  obtain ⟨b₂, hb₂, hnone⟩ := (Option.any_eq_true _ _).mp htrip
  obtain ⟨b₁, hs, hr⟩ := roundTrip_some hb₂
  refine ⟨m.broker, b₁, b₂, hs, hr, fun hall => ?_⟩
  rw [← hall, of_decide_eq_true hnone] at hret
  cases hret

end MqttServer
