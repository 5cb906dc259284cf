import MqttServer.Correctness.Accept
import MqttServer.Reactor.WriteN

/-!
# `Correctness.Malformed` — restoring from an arbitrary file

`restore` checks the framing of the chunks and nothing inside them: no exception of the library is caught, the cursors of a
stored buffer are taken as they come, and the object of a TOPIC_INFO chunk is read as a map whatever it is. So it returns
exactly when each chunk that it comes to is well formed (`restore_total_iff`).

`Server.Persist` has what `restore` does to the broker, over a library that turns bytes into records. Here the library yields
objects, as `msgpack::unpack` does, and what is followed is what is read of them; where that model returns, nothing is
read amiss in this one (`Unpacker.restore_of_restore`).
-/

namespace MqttServer

open Lib Exec

variable {env : Env} {mp : MsgPack} {b b' : Broker}

/-! ## Objects -/

/-- `msgpack::object`: a type and a union. -/
inductive Obj where
  | nil
  | boolean (x : Bool)
  | positive (n : Nat)
  | negative (n : Int)
  | float (bits : Nat)
  | str (s : ByteStr)
  | bin (s : ByteStr)
  | ext (data : ByteStr)
  | array (os : List Obj)
  | map (kvs : List (Obj × Obj))

/-- What can go wrong: an exception of the library, or a read outside of what was unpacked. `endless` is not reached: a
    round of the loop takes at least six bytes of the file. -/
inductive ReadFault where
  | exception | outOfBounds | endless
deriving DecidableEq, Repr

/-- The library: `msgpack::unpack`, and `convert` to the types the code asks for; `none` is an exception. `unset` is what an
    object with no size leaves in the first word of its union. Cursors and sizes are `uint32_t`. -/
structure Unpacker where
  unpack : ByteStr → Option Obj
  toStr : Obj → Option ByteStr
  toInfo : Obj → Option DbInfo
  toMbuf : Obj → Option MbufTmp
  toClient : Obj → Option ClientInfo
  unset : Nat
  toMbuf_sized : ∀ o tmp, toMbuf o = some tmp →
    tmp.readPos < 2 ^ 32 ∧ tmp.writePos < 2 ^ 32 ∧ tmp.data.length < 2 ^ 32

/-- A value of the library, or its exception. -/
def orThrow {α : Type} : Option α → Except ReadFault α
  | none => .error .exception
  | some a => .ok a

/-- Some reads, one after the other. -/
def readAll {α β : Type} (read : α → Except ReadFault β) : List α → Except ReadFault (List β)
  | [] => .ok []
  | a :: as => do
      let x ← read a
      let xs ← readAll read as
      .ok (x :: xs)

/-- What `memcpy` is told to copy: `buf_len` is an `int`, and the length a `size_t`. -/
def MbufTmp.count (tmp : MbufTmp) : Nat := (toInt32 ((2 ^ 32 + tmp.writePos - tmp.readPos) % 2 ^ 32) % 2 ^ 64).toNat

namespace Unpacker

variable (L : Unpacker)

/-- `obj.via.map.size`: the first word of the union, whatever the type of the object. -/
def mapSize : Obj → Nat
  | .nil => L.unset
  | .boolean x => L.unset / 256 * 256 + x.toNat
  | .positive n => n % 2 ^ 32
  | .negative n => (n % 2 ^ 32).toNat
  | .float bits => bits % 2 ^ 32
  | .str s => s.length
  | .bin s => s.length
  | .ext data => data.length
  | .array os => os.length
  | .map kvs => kvs.length

/-- `restore_mbuf(obj)`: the id and the bytes of the buffer. -/
def restoreMbuf (obj : Obj) : Except ReadFault (Nat × ByteStr) := do
  let tmp ← orThrow (L.toMbuf obj)
  if tmp.count = 0 ∨ tmp.readPos + tmp.count ≤ tmp.data.length then
    .ok (tmp.msgId, (tmp.data.drop tmp.readPos).take tmp.count)
  else .error .outOfBounds

/-- `restore_db_info(buf, len)`. -/
def restoreDbInfo (buf : ByteStr) : Except ReadFault Unit := do
  let obj ← orThrow (L.unpack buf)
  let _ ← orThrow (L.toInfo obj)
  .ok ()

/-- `restore_db_msg(buf, len)`. -/
def restoreDbMsg (buf : ByteStr) : Except ReadFault Unit := do
  let obj ← orThrow (L.unpack buf)
  let _ ← L.restoreMbuf obj
  .ok ()

/-- `restore_client_info(buf, len)`. -/
def restoreClientInfo (buf : ByteStr) : Except ReadFault Unit := do
  let obj ← orThrow (L.unpack buf)
  let _ ← orThrow (L.toClient obj)
  .ok ()

/-- One round of the loop of `restore_retain_msg`. -/
def readEntry (kv : Obj × Obj) : Except ReadFault (ByteStr × Nat × ByteStr) := do
  let topicName ← orThrow (L.toStr kv.1)
  let mbuf ← L.restoreMbuf kv.2
  .ok (topicName, mbuf)

/-- `restore_retain_msg(buf, len)`. The pointer of a union that is no map does not lead to its entries. -/
def restoreRetainMsg (buf : ByteStr) : Except ReadFault Unit := do
  let obj ← orThrow (L.unpack buf)
  if L.mapSize obj > 0 then
    match obj with
    | .map kvs => do
        let _ ← readAll L.readEntry kvs
        .ok ()
    | _ => .error .outOfBounds
  else .ok ()

/-- The body of the `switch` of `restore`. -/
def restoreChunk (type : ChunkType) (buf : ByteStr) : Except ReadFault Unit :=
  match type with
  | .globalInfo => L.restoreDbInfo buf
  | .dbMsg => L.restoreDbMsg buf
  | .clientMsg => L.restoreClientInfo buf
  | .topicInfo => L.restoreRetainMsg buf

end Unpacker

/-! ## The file -/

/-- The next chunk of a file with what is behind it, or the result `restore` ends with here. -/
inductive NextChunk where
  | ends (res : Int)
  | chunk (type : ChunkType) (data rest : ByteStr)

/-- The checks of a round of `restore`. -/
def nextChunk : ByteStr → NextChunk
  | [] => .ends 0
  | tag :: rest =>
      if tag ≠ 0xEE then .ends (-1)
      else
        match rest with
        | [] => .ends (-1)
        | type :: rest =>
            let chunkLen := readLe32 rest
            if rest.length < 4 ∨ chunkLen > maxChunkLen ∨ (rest.drop 4).length < chunkLen then .ends (-1)
            else
              match ChunkType.ofValue type with
              | none => .ends (-1)
              | some type => .chunk type ((rest.drop 4).take chunkLen) ((rest.drop 4).drop chunkLen)

/-- The `while (1)` loop of `restore`. -/
def Unpacker.restoreLoop (L : Unpacker) : Nat → ByteStr → Except ReadFault Int
  | 0, _ => .error .endless
  | fuel + 1, file =>
      match nextChunk file with
      | .ends res => .ok res
      | .chunk type data rest => do
          L.restoreChunk type data
          L.restoreLoop fuel rest

/-- `restore()`, on the content of the file. -/
def Unpacker.restore (L : Unpacker) (file : ByteStr) : Except ReadFault Int := L.restoreLoop (file.length + 1) file

/-- The chunks up to the first that is not framed well, as far as `fuel` goes. -/
def chunksUpTo : Nat → ByteStr → List (ChunkType × ByteStr)
  | 0, _ => []
  | fuel + 1, file =>
      match nextChunk file with
      | .ends _ => []
      | .chunk type data rest => (type, data) :: chunksUpTo fuel rest

/-- The chunks `restore` comes to. -/
def chunksOf (file : ByteStr) : List (ChunkType × ByteStr) := chunksUpTo (file.length + 1) file

/-! ## What is well formed -/

/-- The cursors of a stored buffer: nothing lies between them, or they are in order, inside the data, and not further apart
    than an `int` can say. -/
def MbufTmp.Within (tmp : MbufTmp) : Prop :=
  tmp.readPos = tmp.writePos ∨
    tmp.readPos < tmp.writePos ∧ tmp.writePos ≤ tmp.data.length ∧ tmp.writePos - tmp.readPos < 2 ^ 31

namespace Unpacker

variable (L : Unpacker)

/-- The object of a buffer. -/
def Buffer (obj : Obj) : Prop := ∃ tmp, L.toMbuf obj = some tmp ∧ tmp.Within

/-- The object of a chunk of this type. -/
def WellFormed : ChunkType → Obj → Prop
  | .globalInfo, obj => (L.toInfo obj).isSome
  | .dbMsg, obj => L.Buffer obj
  | .clientMsg, obj => (L.toClient obj).isSome
  | .topicInfo, obj => L.mapSize obj = 0 ∨
      ∃ kvs, obj = .map kvs ∧ ∀ kv ∈ kvs, (L.toStr kv.1).isSome ∧ L.Buffer kv.2

/-- A chunk that can be read. -/
def Accepts (type : ChunkType) (data : ByteStr) : Prop := ∃ obj, L.unpack data = some obj ∧ L.WellFormed type obj

end Unpacker

/-- **The bytes that are copied** lie inside the data exactly when the cursors are in order. -/
theorem within_iff {tmp : MbufTmp} (hr : tmp.readPos < 2 ^ 32) (hw : tmp.writePos < 2 ^ 32) (hd : tmp.data.length < 2 ^ 32) :
    tmp.count = 0 ∨ tmp.readPos + tmp.count ≤ tmp.data.length ↔ tmp.Within := by
  unfold MbufTmp.Within MbufTmp.count
  obtain ⟨diff, hdiff⟩ : ∃ diff, diff = (2 ^ 32 + tmp.writePos - tmp.readPos) % 2 ^ 32 := ⟨_, rfl⟩
  rw [← hdiff]
  rcases Nat.lt_or_ge diff (2 ^ 31) with hsmall | hlarge
  · rw [toInt32_small hsmall]
    norm_num at hr hw hd hdiff hsmall ⊢
    omega
  · -- a negative length is a huge one
    have hlt : diff < 2 ^ 32 := hdiff ▸ Nat.mod_lt _ (by decide)
    rw [toInt32_large hlarge hlt]
    norm_num at hr hw hd hdiff hlarge hlt ⊢
    omega

/-! ## One chunk -/

theorem except_bind_ok {ε α β : Type} {x : Except ε α} {f : α → Except ε β} {y : β} :
    (x >>= f) = .ok y ↔ ∃ a, x = .ok a ∧ f a = .ok y := by
  cases x with
  | ok a =>
      constructor
      · exact fun h => ⟨a, rfl, h⟩
      · rintro ⟨a', ha, h⟩
        cases ha
        exact h
  | error e =>
      constructor
      · exact (fun h => by cases h)
      · rintro ⟨a, ha, -⟩
        cases ha

@[simp] theorem orThrow_ok {α : Type} {x : Option α} {a : α} : orThrow x = .ok a ↔ x = some a := by
  cases x with
  | none => exact ⟨(fun h => by cases h), (fun h => by cases h)⟩
  | some a' =>
      constructor
      · intro h
        cases h
        rfl
      · intro h
        cases h
        rfl

theorem readAll_ok {α β : Type} {read : α → Except ReadFault β} (as : List α) :
    (∃ xs, readAll read as = .ok xs) ↔ ∀ a ∈ as, ∃ x, read a = .ok x := by
  induction as with
  | nil => exact ⟨fun _ a ha => absurd ha List.not_mem_nil, fun _ => ⟨[], rfl⟩⟩
  | cons a as ih =>
      have hcons : readAll read (a :: as) = read a >>= fun x => readAll read as >>= fun xs => .ok (x :: xs) := rfl
      rw [List.forall_mem_cons, ← ih, hcons]
      constructor
      · rintro ⟨ys, h⟩
        obtain ⟨x, hx, h⟩ := except_bind_ok.mp h
        obtain ⟨xs, hxs, -⟩ := except_bind_ok.mp h
        exact ⟨⟨x, hx⟩, ⟨xs, hxs⟩⟩
      · rintro ⟨⟨x, hx⟩, ⟨xs, hxs⟩⟩
        exact ⟨x :: xs, except_bind_ok.mpr ⟨x, hx, except_bind_ok.mpr ⟨xs, hxs, rfl⟩⟩⟩

namespace Unpacker

variable {L : Unpacker}

theorem restoreMbuf_ok (obj : Obj) : (∃ x, L.restoreMbuf obj = .ok x) ↔ L.Buffer obj := by
  unfold restoreMbuf Buffer
  cases htmp : L.toMbuf obj with
  | none =>
      constructor
      · rintro ⟨x, h⟩
        cases h
      · rintro ⟨tmp, h, -⟩
        cases h
  | some tmp =>
      obtain ⟨hr, hw, hd⟩ := L.toMbuf_sized obj tmp htmp
      have hin := within_iff hr hw hd
      constructor
      · rintro ⟨x, h⟩
        refine ⟨tmp, rfl, hin.mp ?_⟩
        by_contra hout
        obtain ⟨tmp', ht, h⟩ := except_bind_ok.mp h
        cases ht
        rw [if_neg hout] at h
        cases h
      · rintro ⟨tmp', ht, hwithin⟩
        cases ht
        exact ⟨_, except_bind_ok.mpr ⟨tmp, rfl, if_pos (hin.mpr hwithin)⟩⟩

theorem readEntry_ok (kv : Obj × Obj) : (∃ x, L.readEntry kv = .ok x) ↔ (L.toStr kv.1).isSome ∧ L.Buffer kv.2 := by
  rw [← restoreMbuf_ok, Option.isSome_iff_exists]
  unfold readEntry
  constructor
  · rintro ⟨x, h⟩
    obtain ⟨t, ht, h⟩ := except_bind_ok.mp h
    obtain ⟨m, hm, -⟩ := except_bind_ok.mp h
    exact ⟨⟨t, orThrow_ok.mp ht⟩, ⟨m, hm⟩⟩
  · rintro ⟨⟨t, ht⟩, ⟨m, hm⟩⟩
    exact ⟨(t, m), except_bind_ok.mpr ⟨t, orThrow_ok.mpr ht, except_bind_ok.mpr ⟨m, hm, rfl⟩⟩⟩

theorem restoreRetainMsg_ok (data : ByteStr) : L.restoreRetainMsg data = .ok () ↔ L.Accepts .topicInfo data := by
  unfold restoreRetainMsg Accepts
  rw [except_bind_ok]
  refine exists_congr fun obj => ?_
  rw [orThrow_ok]
  refine and_congr_right fun _ => ?_
  show _ ↔ (L.mapSize obj = 0 ∨ _)
  by_cases hsize : L.mapSize obj = 0
  · have hnot : ¬ L.mapSize obj > 0 := fun h => Nat.ne_of_gt h hsize
    rw [if_neg hnot]
    exact ⟨fun _ => Or.inl hsize, fun _ => rfl⟩
  · rw [if_pos (Nat.pos_of_ne_zero hsize)]
    have hor : ∀ P : Prop, (L.mapSize obj = 0 ∨ P) ↔ P := fun P => ⟨fun h => h.resolve_left hsize, Or.inr⟩
    rw [hor]
    cases obj with
    | map kvs =>
        have hall : (∀ kv ∈ kvs, (L.toStr kv.1).isSome ∧ L.Buffer kv.2) ↔ ∃ xs, readAll L.readEntry kvs = .ok xs := by
          rw [readAll_ok]
          exact forall₂_congr fun kv _ => (readEntry_ok kv).symm
        constructor
        · intro h
          obtain ⟨xs, hxs, -⟩ := except_bind_ok.mp h
          exact ⟨kvs, rfl, hall.mpr ⟨xs, hxs⟩⟩
        · rintro ⟨kvs', hkvs, h⟩
          cases hkvs
          obtain ⟨xs, hxs⟩ := hall.mp h
          exact except_bind_ok.mpr ⟨xs, hxs, rfl⟩
    | _ =>
        refine ⟨(fun h => by cases h), ?_⟩
        rintro ⟨kvs, hkvs, -⟩
        cases hkvs

/-- **One chunk** is read exactly when it is well formed. -/
theorem restoreChunk_ok (type : ChunkType) (data : ByteStr) : L.restoreChunk type data = .ok () ↔ L.Accepts type data := by
  cases type with
  | topicInfo => exact restoreRetainMsg_ok data
  | globalInfo =>
      show L.restoreDbInfo data = .ok () ↔ ∃ obj, L.unpack data = some obj ∧ (L.toInfo obj).isSome
      unfold restoreDbInfo
      rw [except_bind_ok]
      refine exists_congr fun obj => ?_
      rw [orThrow_ok, except_bind_ok, Option.isSome_iff_exists]
      exact and_congr_right fun _ => exists_congr fun info => by rw [orThrow_ok]; exact ⟨And.left, fun h => ⟨h, rfl⟩⟩
  | clientMsg =>
      show L.restoreClientInfo data = .ok () ↔ ∃ obj, L.unpack data = some obj ∧ (L.toClient obj).isSome
      unfold restoreClientInfo
      rw [except_bind_ok]
      refine exists_congr fun obj => ?_
      rw [orThrow_ok, except_bind_ok, Option.isSome_iff_exists]
      exact and_congr_right fun _ => exists_congr fun info => by rw [orThrow_ok]; exact ⟨And.left, fun h => ⟨h, rfl⟩⟩
  | dbMsg =>
      show L.restoreDbMsg data = .ok () ↔ ∃ obj, L.unpack data = some obj ∧ L.Buffer obj
      unfold restoreDbMsg
      rw [except_bind_ok]
      refine exists_congr fun obj => ?_
      rw [orThrow_ok, except_bind_ok, ← restoreMbuf_ok]
      exact and_congr_right fun _ => exists_congr fun m => ⟨And.left, fun h => ⟨h, rfl⟩⟩

end Unpacker

/-! ## The whole file -/

theorem nextChunk_ends {file : ByteStr} {res : Int} (h : nextChunk file = .ends res) : res = 0 ∨ res = -1 := by
  unfold nextChunk at h
  split at h
  · cases h
    exact Or.inl rfl
  · refine Or.inr ?_
    split at h
    · cases h
      rfl
    · split at h
      · cases h
        rfl
      · simp only at h
        split at h
        · cases h
          rfl
        · split at h
          · cases h
            rfl
          · cases h

/-- A chunk takes its header at least. -/
theorem nextChunk_shorter {file data rest : ByteStr} {type : ChunkType} (h : nextChunk file = .chunk type data rest) :
    rest.length < file.length := by
  unfold nextChunk at h
  split at h
  · cases h
  · rename_i tag behind
    split at h
    · cases h
    · split at h
      · cases h
      · rename_i type' rest'
        simp only at h
        split at h
        · cases h
        · split at h
          · cases h
          · cases h
            simp only [List.length_drop, List.length_cons]
            omega

namespace Unpacker

variable {L : Unpacker}

theorem restoreLoop_total_iff (fuel : Nat) : ∀ file : ByteStr, file.length < fuel →
    ((∃ res, (res = 0 ∨ res = -1) ∧ L.restoreLoop fuel file = .ok res) ↔
      ∀ ch ∈ chunksUpTo fuel file, L.Accepts ch.1 ch.2) := by
  induction fuel with
  | zero => exact fun _ h => absurd h (Nat.not_lt_zero _)
  | succ fuel ih =>
      intro file hfuel
      cases hnext : nextChunk file with
      | ends res =>
          have hchunks : chunksUpTo (fuel + 1) file = [] := by rw [chunksUpTo, hnext]
          have hloop : L.restoreLoop (fuel + 1) file = .ok res := by rw [Unpacker.restoreLoop, hnext]
          rw [hchunks]
          exact ⟨fun _ ch hch => absurd hch List.not_mem_nil, fun _ => ⟨res, nextChunk_ends hnext, hloop⟩⟩
      | chunk type data rest =>
          have hchunks : chunksUpTo (fuel + 1) file = (type, data) :: chunksUpTo fuel rest := by rw [chunksUpTo, hnext]
          have hloop : L.restoreLoop (fuel + 1) file = L.restoreChunk type data >>= fun _ => L.restoreLoop fuel rest := by
            rw [Unpacker.restoreLoop, hnext]
          have hrest := ih rest (Nat.lt_of_lt_of_le (nextChunk_shorter hnext) (Nat.le_of_lt_succ hfuel))
          rw [hchunks, List.forall_mem_cons, ← hrest, ← restoreChunk_ok, hloop]
          constructor
          · rintro ⟨res, hres, h⟩
            obtain ⟨_, hchunk, h⟩ := except_bind_ok.mp h
            exact ⟨hchunk, res, hres, h⟩
          · rintro ⟨hchunk, res, hres, h⟩
            exact ⟨res, hres, except_bind_ok.mpr ⟨(), hchunk, h⟩⟩

end Unpacker

/-- **`restore` returns `0` or `-1`**, without an exception and without a read outside of what was unpacked, exactly when
    every chunk that it comes to before the framing ends is accepted. -/
theorem restore_total_iff (L : Unpacker) (file : ByteStr) :
    (∃ res, (res = 0 ∨ res = -1) ∧ L.restore file = .ok res) ↔ ∀ ch ∈ chunksOf file, L.Accepts ch.1 ch.2 :=
  Unpacker.restoreLoop_total_iff _ file (Nat.lt_succ_self _)

/-! ## The effects -/

/-- A library of records over this library of objects. The data of a buffer lies in a chunk, and is not longer. -/
structure Unpacker.Agrees (L : Unpacker) (mp : MsgPack) : Prop where
  info : ∀ data, mp.info.unpack data = (L.unpack data).bind L.toInfo
  mbuf : ∀ data, mp.mbuf.unpack data = (L.unpack data).bind L.toMbuf
  client : ∀ data, mp.client.unpack data = (L.unpack data).bind L.toClient
  retain : ∀ data map, mp.retain.unpack data = some map → ∃ obj, L.unpack data = some obj ∧
    (L.mapSize obj = 0 ∨ ∃ kvs, obj = .map kvs ∧
      ∀ kv ∈ kvs, (L.toStr kv.1).isSome ∧ ∃ e ∈ map, L.toMbuf kv.2 = some e.2)
  small : ∀ obj tmp, L.toMbuf obj = some tmp → tmp.data.length < 2 ^ 31

theorem MbufTmp.Valid.within {tmp : MbufTmp} (h : tmp.Valid) (hlen : tmp.data.length < 2 ^ 31) : tmp.Within := by
  unfold MbufTmp.Valid at h
  unfold MbufTmp.Within
  omega

/-- Entries that are all taken back have their cursors in order. -/
theorem restoreRetains_valid (map : List (ByteStr × MbufTmp)) :
    ∀ b : Broker, restoreRetains map b = .ok ((), b') → ∀ e ∈ map, e.2.Valid := by
  induction map with
  | nil => exact fun _ _ e he => absurd he List.not_mem_nil
  | cons e map ih =>
      intro b h
      obtain ⟨t, tmp⟩ := e
      unfold restoreRetains at h
      rw [bind_ok] at h
      obtain ⟨m, b₁, hm, h⟩ := h
      rw [modify_bind] at h
      exact List.forall_mem_cons.mpr ⟨(restoreMbuf_new hm).1, ih _ h⟩

namespace Unpacker

variable {L : Unpacker}

/-- A chunk that the broker takes is read without a fault. -/
theorem accepts_of_restoreChunk (ha : L.Agrees mp) {type : ChunkType} {data : ByteStr} {st st' : RestoreState}
    (h : MqttServer.restoreChunk env mp type st data b = .ok (st', b')) : L.Accepts type data := by
  have hbuffer : ∀ obj tmp, L.toMbuf obj = some tmp → tmp.Valid → L.Buffer obj :=
    fun obj tmp htmp hv => ⟨tmp, htmp, hv.within (ha.small obj tmp htmp)⟩
  cases type with
  | globalInfo =>
      unfold MqttServer.restoreChunk MqttServer.restoreDbInfo at h
      simp only [bind_assoc] at h
      obtain ⟨info, hu, -⟩ := unpackOr_bind_ok h
      rw [ha.info] at hu
      obtain ⟨obj, hobj, hinfo⟩ := Option.bind_eq_some_iff.mp hu
      exact ⟨obj, hobj, Option.isSome_of_eq_some hinfo⟩
  | clientMsg =>
      obtain ⟨info, hu, -⟩ := unpackOr_bind_ok h
      rw [ha.client] at hu
      obtain ⟨obj, hobj, hinfo⟩ := Option.bind_eq_some_iff.mp hu
      exact ⟨obj, hobj, Option.isSome_of_eq_some hinfo⟩
  | dbMsg =>
      obtain ⟨tmp, hu, h⟩ := unpackOr_bind_ok h
      rw [ha.mbuf] at hu
      obtain ⟨obj, hobj, htmp⟩ := Option.bind_eq_some_iff.mp hu
      rw [bind_ok] at h
      obtain ⟨m, b₁, hm, -⟩ := h
      exact ⟨obj, hobj, hbuffer obj tmp htmp (restoreMbuf_new hm).1⟩
  | topicInfo =>
      unfold MqttServer.restoreChunk MqttServer.restoreRetainMsg at h
      simp only [bind_assoc] at h
      obtain ⟨map, hu, h⟩ := unpackOr_bind_ok h
      rw [bind_ok] at h
      obtain ⟨_, b₁, hmap, -⟩ := h
      have hvalid := restoreRetains_valid map b hmap
      obtain ⟨obj, hobj, hsize | ⟨kvs, hkvs, hall⟩⟩ := ha.retain data map hu
      · exact ⟨obj, hobj, Or.inl hsize⟩
      · refine ⟨obj, hobj, Or.inr ⟨kvs, hkvs, fun kv hkv => ?_⟩⟩
        obtain ⟨hname, e, he, htmp⟩ := hall kv hkv
        exact ⟨hname, hbuffer kv.2 e.2 htmp (hvalid e he)⟩

/-- The loop of the broker makes the same checks. -/
theorem restoreLoop_next (env : Env) (mp : MsgPack) (fuel : Nat) (st : RestoreState) (file : ByteStr) :
    (∀ res, nextChunk file = .ends res → MqttServer.restoreLoop env mp (fuel + 1) st file = pure (res, st)) ∧
    ∀ type data rest, nextChunk file = .chunk type data rest → MqttServer.restoreLoop env mp (fuel + 1) st file =
      MqttServer.restoreChunk env mp type st data >>= fun st => MqttServer.restoreLoop env mp fuel st rest := by
  obtain ⟨next, hnext⟩ : ∃ next, next = MqttServer.restoreLoop env mp fuel := ⟨_, rfl⟩
  rw [← hnext]
  unfold nextChunk MqttServer.restoreLoop
  rw [← hnext]
  cases file with
  | nil => exact ⟨(fun _ h => by cases h; rfl), (fun _ _ _ h => by cases h)⟩
  | cons tag rest =>
      simp only
      by_cases htag : tag ≠ 0xEE
      · simp only [if_pos htag]
        exact ⟨(fun _ h => by cases h; rfl), (fun _ _ _ h => by cases h)⟩
      · simp only [if_neg htag]
        cases rest with
        | nil => exact ⟨(fun _ h => by cases h; rfl), (fun _ _ _ h => by cases h)⟩
        | cons type rest =>
            simp only
            by_cases hbad : rest.length < 4 ∨ readLe32 rest > maxChunkLen ∨ (rest.drop 4).length < readLe32 rest
            · simp only [if_pos hbad]
              exact ⟨(fun _ h => by cases h; rfl), (fun _ _ _ h => by cases h)⟩
            · simp only [if_neg hbad]
              cases ChunkType.ofValue type with
              | none => exact ⟨(fun _ h => by cases h; rfl), (fun _ _ _ h => by cases h)⟩
              | some type => exact ⟨(fun _ h => by cases h), (fun _ _ _ h => by cases h; rfl)⟩

theorem restoreLoop_of_restoreLoop (ha : L.Agrees mp) {r : Int} {st' : RestoreState} (fuel : Nat) :
    ∀ (st : RestoreState) (file : ByteStr) (b : Broker), file.length < fuel →
      MqttServer.restoreLoop env mp fuel st file b = .ok ((r, st'), b') → L.restoreLoop fuel file = .ok r := by
  induction fuel with
  | zero => exact fun _ _ _ h => absurd h (Nat.not_lt_zero _)
  | succ fuel ih =>
      intro st file b hfuel h
      obtain ⟨hends, hchunk⟩ := restoreLoop_next env mp fuel st file
      cases hnext : nextChunk file with
      | ends res =>
          rw [hends res hnext] at h
          cases h
          rw [Unpacker.restoreLoop, hnext]
      | chunk type data rest =>
          rw [hchunk type data rest hnext, bind_ok] at h
          obtain ⟨st₁, b₁, hc, h⟩ := h
          have hrest := ih st₁ rest b₁ (Nat.lt_of_lt_of_le (nextChunk_shorter hnext) (Nat.le_of_lt_succ hfuel)) h
          rw [Unpacker.restoreLoop, hnext]
          exact except_bind_ok.mpr ⟨(), (restoreChunk_ok type data).mpr (accepts_of_restoreChunk ha hc), hrest⟩

/-- **Where the broker restores**, nothing is read amiss, and the result is the same. -/
theorem restore_of_restore (ha : L.Agrees mp) {file : ByteStr} {r : Int}
    (h : MqttServer.restore env mp (some file) b = .ok (r, b')) : L.restore file = .ok r := by
  obtain ⟨st, b₁, dbFile, hloop, -⟩ := restore_some h
  exact restoreLoop_of_restoreLoop ha _ _ file b (Nat.lt_succ_self _) hloop

end Unpacker

/-! ## A library -/

namespace Obj

/-- Some objects, one after the other. -/
def parseAll (parse : ByteStr → Option (Obj × ByteStr)) : Nat → ByteStr → Option (List Obj × ByteStr)
  | 0, buf => some ([], buf)
  | n + 1, buf => do
      let (o, buf) ← parse buf
      let (os, buf) ← parseAll parse n buf
      some (o :: os, buf)

/-- Pairs of neighbours. -/
def pairs : List Obj → List (Obj × Obj)
  | k :: v :: rest => (k, v) :: pairs rest
  | _ => []

/-- The formats of small integers, `nil`, short byte strings, and short arrays and maps; any other is refused. -/
def parse : Nat → ByteStr → Option (Obj × ByteStr)
  | 0, _ => none
  | _ + 1, [] => none
  | fuel + 1, selector :: buf =>
      let n := selector.toNat
      if n < 0x80 then some (.positive n, buf)
      else if n < 0x90 then (parseAll (parse fuel) (2 * (n - 0x80)) buf).map fun p => (.map (pairs p.1), p.2)
      else if n < 0xa0 then (parseAll (parse fuel) (n - 0x90) buf).map fun p => (.array p.1, p.2)
      else if n < 0xc0 then
        if buf.length < n - 0xa0 then none else some (.str (buf.take (n - 0xa0)), buf.drop (n - 0xa0))
      else if n = 0xc0 then some (.nil, buf)
      else if n = 0xc4 then
        match buf with
        | [] => none
        | size :: buf =>
            if buf.length < size.toNat then none else some (.bin (buf.take size.toNat), buf.drop size.toNat)
      else none

/-- `convert` to `std::string`. -/
def toStr : Obj → Option ByteStr
  | .str s | .bin s => some s
  | _ => none

/-- `convert` to an unsigned integer of so many bits. -/
def toUnsigned (bits : Nat) : Obj → Option Nat
  | .positive n => if n < 2 ^ bits then some n else none
  | _ => none

/-- `convert` to a `CMsgMemStore`. -/
def toInfo : Obj → Option DbInfo
  | .array [id, time] => do
      let lastMsgId ← id.toUnsigned 64
      let lastUpdateTime ← time.toUnsigned 32
      some { lastMsgId, lastUpdateTime }
  | _ => none

/-- `convert` to a `CMbuf_tmp`. -/
def toMbuf : Obj → Option MbufTmp
  | .array [.bin data, type, read, write, id, time] => do
      let msgType ← type.toUnsigned 32
      let readPos ← read.toUnsigned 32
      let writePos ← write.toUnsigned 32
      let msgId ← id.toUnsigned 64
      let time ← time.toUnsigned 32
      if data.length < 2 ^ 32 then
        some { data, msgType := if msgType = 2 then .publish else .data, readPos, writePos, msgId, time }
      else none
  | _ => none

end Obj

theorem Obj.toUnsigned_lt {bits n : Nat} {o : Obj} (h : o.toUnsigned bits = some n) : n < 2 ^ bits := by
  unfold Obj.toUnsigned at h
  split at h
  · split at h
    · cases h
      assumption
    · cases h
  · cases h

theorem Obj.toMbuf_sized (o : Obj) (tmp : MbufTmp) (h : o.toMbuf = some tmp) :
    tmp.readPos < 2 ^ 32 ∧ tmp.writePos < 2 ^ 32 ∧ tmp.data.length < 2 ^ 32 := by
  unfold Obj.toMbuf at h
  split at h
  · obtain ⟨type, -, h⟩ := Option.bind_eq_some_iff.mp h
    obtain ⟨readPos, hread, h⟩ := Option.bind_eq_some_iff.mp h
    obtain ⟨writePos, hwrite, h⟩ := Option.bind_eq_some_iff.mp h
    obtain ⟨id, -, h⟩ := Option.bind_eq_some_iff.mp h
    obtain ⟨time, -, h⟩ := Option.bind_eq_some_iff.mp h
    split at h
    · cases h
      exact ⟨toUnsigned_lt hread, toUnsigned_lt hwrite, by assumption⟩
    · cases h
  · cases h

/-- The library on files without sessions. -/
def Unpacker.small : Unpacker where
  unpack buf := (Obj.parse (buf.length + 1) buf).map Prod.fst
  toStr := Obj.toStr
  toInfo := Obj.toInfo
  toMbuf := Obj.toMbuf
  toClient _ := none
  unset := 0
  toMbuf_sized := Obj.toMbuf_sized

/-- **A byte that is no object, reversed cursors, and an integer in the place of the map**: an exception escapes, and bytes
    are read that do not belong to what was unpacked. -/
theorem restore_malformed :
    Unpacker.small.restore [0xEE, 1, 1, 0, 0, 0, 0xC1] = .error .exception ∧
    Unpacker.small.restore [0xEE, 2, 8, 0, 0, 0, 0x96, 0xC4, 0, 1, 1, 0, 5, 0] = .error .outOfBounds ∧
    Unpacker.small.restore [0xEE, 4, 1, 0, 0, 0, 1] = .error .outOfBounds ∧
    ¬ ∀ file, ∃ res, (res = 0 ∨ res = -1) ∧ Unpacker.small.restore file = .ok res := by
  have hthrows : Unpacker.small.restore [0xEE, 1, 1, 0, 0, 0, 0xC1] = .error .exception := by rfl
  refine ⟨hthrows, by rfl, by rfl, fun hall => ?_⟩
  obtain ⟨res, -, h⟩ := hall [0xEE, 1, 1, 0, 0, 0, 0xC1]
  rw [hthrows] at h
  cases h

end MqttServer
