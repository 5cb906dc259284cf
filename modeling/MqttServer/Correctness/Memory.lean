import MqttServer.Correctness.Prims

/-!
# `Correctness.Memory` — the message table

Writing moves the read cursor of a buffer and nothing else, so a buffer keeps its message id for life. In every
state of every run the message table is keyed by these ids: an id stands for at most one stored message.
-/

namespace MqttServer

open Lib Exec

variable {env : Env} {mp : MsgPack} {b b' : Broker} {k : ConnId} {m : MbufId}

/-! ## Ids of buffers -/

namespace EventHandler

@[simp] theorem send_msgId (buf : Buf) (w : WriteCall) : (send buf w).buf.msgId = buf.msgId := by
  unfold send
  simp only
  split
  · split <;> rfl
  · split
    · rfl
    · split
      · exact Buf.skip_msgId _ _ (w.taken_le _)
      · rfl

variable {bufs : Bufs} {h : EventHandler} {w : WriteCall}

@[simp] theorem nonblkSend_msgId (m' : MbufId) :
    ((nonblkSend bufs h m w).bufs m').msgId = (bufs m').msgId := by
  have hupd : (Function.update bufs m (send (bufs m) w).buf m').msgId = (bufs m').msgId := by
    by_cases hm : m' = m
    · subst hm
      rw [Function.update_self, send_msgId]
    · rw [Function.update_of_ne hm]
  unfold nonblkSend
  simp only
  split
  · exact hupd
  · split <;> exact hupd

@[simp] theorem put_msgId (m' : MbufId) : ((h.put bufs m w).bufs m').msgId = (bufs m').msgId := by
  unfold put
  split
  · exact nonblkSend_msgId m'
  · split <;> rfl

@[simp] theorem handleOutput_msgId (m' : MbufId) :
    ((h.handleOutput bufs w).bufs m').msgId = (bufs m').msgId := by
  unfold handleOutput
  split
  · rfl
  · exact nonblkSend_msgId m'

end EventHandler

/-! ## The table is keyed by message ids -/

/-- Every stored message is allocated, and stored under its own id, which is not zero. -/
def Keyed (b : Broker) : Prop :=
  ∀ id m, b.store.msgDb.lookup id = some m → m < b.nextBuf ∧ (b.bufs m).msgId = id ∧ id ≠ 0

namespace Keyed

/-- A change that forgets no buffer, changes no id and adds nothing to the table. -/
theorem shrink (h : Keyed b) (hnext : b.nextBuf ≤ b'.nextBuf)
    (hids : ∀ m < b.nextBuf, (b'.bufs m).msgId = (b.bufs m).msgId)
    (hdb : ∀ id m, b'.store.msgDb.lookup id = some m → b.store.msgDb.lookup id = some m) : Keyed b' := by
  intro id m hm
  obtain ⟨hlt, hid, hne⟩ := h id m (hdb id m hm)
  exact ⟨Nat.lt_of_lt_of_le hlt hnext, (hids m hlt).trans hid, hne⟩

/-- A new buffer that is stored under its id. -/
theorem insert (h : Keyed b) {buf : Buf} {id : Nat} (hbuf : buf.msgId = id) (hne : id ≠ 0)
    (hnext : b'.nextBuf = b.nextBuf + 1) (hbufs : b'.bufs = Function.update b.bufs b.nextBuf buf)
    (hdb : b'.store.msgDb = b.store.msgDb.insert id b.nextBuf) : Keyed b' := by
  intro id' m hm
  rw [hdb] at hm
  rw [hnext, hbufs]
  by_cases hi : id' = id
  · subst hi
    rw [AList.lookup_insert] at hm
    cases hm
    rw [Function.update_self]
    exact ⟨Nat.lt_succ_self _, hbuf, hne⟩
  · rw [AList.lookup_insert_ne hi] at hm
    obtain ⟨hlt, hid, hne'⟩ := h id' m hm
    rw [Function.update_of_ne (Nat.ne_of_lt hlt)]
    exact ⟨Nat.lt_succ_of_lt hlt, hid, hne'⟩

theorem newBuf (h : Keyed b) (buf : Buf) :
    Keyed { b with bufs := Function.update b.bufs b.nextBuf buf, nextBuf := b.nextBuf + 1 } := by
  refine h.shrink (Nat.le_succ _) (fun m hm => ?_) fun _ _ hm => hm
  show (Function.update b.bufs b.nextBuf buf m).msgId = _
  rw [Function.update_of_ne (Nat.ne_of_lt hm)]

end Keyed

theorem lookup_foldl_erase {f : MbufId → Nat} (dead : List MbufId) :
    ∀ (db : AList (fun _ : Nat => MbufId)) (id : Nat) (m : MbufId),
      (dead.foldl (fun db m => db.erase (f m)) db).lookup id = some m → db.lookup id = some m := by
  induction dead with
  | nil => exact fun _ _ _ h => h
  | cons m' dead ih =>
      intro db id m h
      have h' := ih (db.erase (f m')) id m h
      by_cases hid : id = f m'
      · subst hid
        rw [AList.lookup_erase] at h'
        cases h'
      · rwa [AList.lookup_erase_ne hid] at h'

theorem Keyed.destroy (h : Keyed b) (m : MbufId) : Keyed (b.destroy m) := by
  unfold Broker.destroy
  split
  · refine h.shrink (Nat.le_refl _) (fun _ _ => rfl) fun id m' hm => ?_
    exact lookup_foldl_erase (f := fun m => (b.bufs m).msgId) [m] _ _ _ hm
  · exact h

/-- Destructors only take messages out of the table. -/
theorem lookup_collect {id : Nat} (h : b.collect.store.msgDb.lookup id = some m) :
    b.store.msgDb.lookup id = some m :=
  lookup_foldl_erase (f := fun m => (b.bufs m).msgId) _ _ _ _ h

/-- A registered buffer is new, and stored under the next id unless the counter wraps around to zero. -/
theorem registBuf_keyed {type : MsgType} {size : Nat} {bytes : Nat → ByteStr}
    (h : registBuf type size bytes b = .ok (m, b')) (hb : Keyed b) : Keyed b' := by
  unfold registBuf at h
  rw [get_bind, bind_ok] at h
  obtain ⟨m', b₁, hn, h⟩ := h
  obtain ⟨rfl, rfl⟩ := newBuf_ok hn
  cases h
  by_cases hid : (b.store.lastMsgId + 1) % 2 ^ 64 = 0
  · refine (hb.newBuf _).shrink (Nat.le_refl _) (fun _ _ => rfl) fun id m hm => ?_
    simpa only [hid, if_true] using hm
  · refine hb.insert (Buf.tag_msgId _ _ type true) hid rfl rfl ?_
    simp only [hid, if_false]

theorem Prim.keyed {sc : Scope} (h : Prim env sc b b') (hb : Keyed b) : Keyed b' := by
  cases h with
  | answer size bytes => exact hb.newBuf _
  | bridged buf id => exact hb.newBuf _
  | retain t m slot => exact hb.newBuf (retainCopy b.now (b.bufs m))
  | regist h => exact registBuf_keyed h hb
  | put k m => exact hb.shrink (Nat.le_refl _) (fun m' _ => EventHandler.put_msgId m') fun _ _ h => h
  | output k => exact hb.shrink (Nat.le_refl _) (fun m' _ => EventHandler.handleOutput_msgId m') fun _ _ h => h
  | collect => exact hb.shrink (Nat.le_refl _) (fun _ _ => rfl) fun _ _ h => lookup_collect h
  | _ => exact hb

/-! ## Restored tables -/

@[simp] theorem MbufTmp.buffer_msgId (tmp : MbufTmp) (now : Nat) (memDb : Bool) :
    (tmp.buffer now memDb).msgId = tmp.msgId := Buf.tag_msgId _ _ _ _

theorem MbufTmp.Valid.buffer_unread {tmp : MbufTmp} (h : tmp.Valid) (now : Nat) (memDb : Bool) :
    (tmp.buffer now memDb).unread = (tmp.data.drop tmp.readPos).take (tmp.writePos - tmp.readPos) := by
  obtain ⟨h₁, h₂, h₃⟩ := h
  unfold MbufTmp.buffer
  rw [Buf.tag_unread, Buf.make_unread]
  · rw [List.length_take]
    exact Nat.min_le_left _ _
  · omega

theorem restoreMbuf_eq {tmp : MbufTmp} {db : Bool} (h : restoreMbuf tmp db b = .ok (m, b')) :
    m = b.nextBuf ∧ ∃ buf : Buf, buf.msgId = tmp.msgId ∧
      buf.unread = (tmp.data.drop tmp.readPos).take (tmp.writePos - tmp.readPos) ∧
      b' = { b with bufs := Function.update b.bufs b.nextBuf buf, nextBuf := b.nextBuf + 1 } := by
  obtain ⟨hv, rfl, rfl⟩ := restoreMbuf_new h
  exact ⟨rfl, _, tmp.buffer_msgId _ _, hv.buffer_unread _ _, rfl⟩

/-- The broker after a message of the file is registered. -/
def Broker.loaded (b : Broker) (id : Nat) (buf : Buf) : Broker :=
  { b with
    bufs := Function.update b.bufs b.nextBuf buf, nextBuf := b.nextBuf + 1
    store := { b.store with
               msgDb := b.store.msgDb.insert id b.nextBuf
               lastUpdateTime := b.now
               registered := b.nextBuf :: b.store.registered } }

/-- What the record of a message does. -/
theorem restoreDbMsg_eq {st st' : RestoreState} {buf : ByteStr}
    (h : restoreDbMsg mp st buf b = .ok (st', b')) :
    ∃ (tmp : MbufTmp) (new : Buf), mp.mbuf.unpack buf = some tmp ∧ new.msgId = tmp.msgId ∧
      new.unread = (tmp.data.drop tmp.readPos).take (tmp.writePos - tmp.readPos) ∧
      b'.bufs = Function.update b.bufs b.nextBuf new ∧ b'.nextBuf = b.nextBuf + 1 ∧ b'.sess = b.sess ∧
      b'.store.lastMsgId = b.store.lastMsgId ∧
      ((tmp.msgId = 0 ∧ st' = st ∧ b'.store = b.store) ∨
       (tmp.msgId ≠ 0 ∧ st' = { st with tmpMsgDb := st.tmpMsgDb.insert tmp.msgId b.nextBuf } ∧
         b' = st.overwrite tmp.msgId (b.loaded tmp.msgId new))) := by
  unfold restoreDbMsg at h
  rw [bind_ok] at h
  obtain ⟨tmp, b₁, hp, h⟩ := h
  obtain ⟨hu, rfl⟩ := unpackOr_ok hp
  rw [bind_ok] at h
  obtain ⟨m, b₂, hm, h⟩ := h
  obtain ⟨rfl, new, hid, hun, rfl⟩ := restoreMbuf_eq hm
  by_cases hz : tmp.msgId = 0
  · rw [if_neg (by simpa using hz)] at h
    cases h
    exact ⟨tmp, new, hu, hid, hun, rfl, rfl, rfl, rfl, Or.inl ⟨hz, rfl, rfl⟩⟩
  · rw [if_pos hz, modify_bind, modify_bind] at h
    cases h
    obtain ⟨db, reg, he⟩ := overwrite_eq st tmp.msgId (b₁.loaded tmp.msgId new)
    have hsame : (st.overwrite tmp.msgId (b₁.loaded tmp.msgId new)).bufs = Function.update b₁.bufs b₁.nextBuf new ∧
        (st.overwrite tmp.msgId (b₁.loaded tmp.msgId new)).nextBuf = b₁.nextBuf + 1 ∧
        (st.overwrite tmp.msgId (b₁.loaded tmp.msgId new)).sess = b₁.sess ∧
        (st.overwrite tmp.msgId (b₁.loaded tmp.msgId new)).store.lastMsgId = b₁.store.lastMsgId := by
      rw [he]
      exact ⟨rfl, rfl, rfl, rfl⟩
    exact ⟨tmp, new, hu, hid, hun, hsame.1, hsame.2.1, hsame.2.2.1, hsame.2.2.2, Or.inr ⟨hz, rfl, rfl⟩⟩

theorem Load.keyed {st st' : RestoreState} (h : Load st b st' b') (hb : Keyed b) : Keyed b' := by
  cases h with
  | unnamed tmp => exact hb.newBuf _
  | msg tmp hv hid => exact hb.insert (tmp.buffer_msgId _ _) hid rfl rfl rfl
  | retain t tmp => exact hb.newBuf (tmp.buffer b.now false)
  | destroy m => exact hb.destroy m
  | _ => exact hb

theorem Started.keyed (h : Started env mp b) : Keyed b := by
  have hempty : ∀ file now, Keyed { file, now } := fun _ _ _ _ h => by cases h
  cases h with
  | empty => exact hempty none 0
  | restored file now b h =>
      obtain ⟨-, hb⟩ := restore_invariant (I := fun _ b => Keyed b) (fun _ _ _ _ h hb => h.keyed hb) (hempty file now) h
      exact hb

/-- **The message table of a running broker** has every message under its own id. -/
theorem Reach.keyed {m : Machine} (h : Reach env mp m) : Keyed m.broker :=
  h.prims_invariant (fun _ hs => hs.keyed) fun _ _ hp hb => hp.keyed hb

end MqttServer
