import MqttServer.Correctness.Writes
import MqttServer.Server.DbFile

/-!
# `Correctness.DbFormat` — what a hand-written db file consists of

A chunk of the file is a header and the fields (`Chunk`). Writing a file puts chunk after chunk behind each other, also where
the header of a session is written over (`storeClient_appends`); but `chunk_len` is set to zero only once, so the header of
every session after the first one counts the sessions before it too (`lengths_iff`).
-/

namespace MqttServer
namespace Persist

open Lib Exec

/-! ## The format -/

/-- A string or a buffer behind its length. -/
def lenBuf (bytes : ByteStr) : ByteStr := le32 bytes.length ++ bytes

/-- The header of a chunk. -/
def header (type : ChunkType) (chunkLen : Nat) : ByteStr := 0xEE :: type.value :: le32 chunkLen

/-- A chunk: its type and its fields. -/
structure Chunk where
  type : ChunkType
  data : ByteStr

/-- The bytes of a chunk whose header has the length of its fields. -/
def Chunk.bytes (c : Chunk) : ByteStr := header c.type c.data.length ++ c.data

/-- A message: its id and its bytes. -/
def msgData (e : Sigma fun _ : UInt64 => Buf) : ByteStr := le64 e.1 ++ lenBuf e.2.unread

/-- A topic of a session: its name and its QoS. -/
def topicData (t : Topic) : ByteStr := lenBuf t.topicName ++ [t.qos]

/-- The fields of a session behind its client id. -/
def contextData (x : StoredContext) : ByteStr :=
  le32 x.subcribeTopics.length ++ (x.subcribeTopics.flatMap topicData ++
    (le32 x.sendMsgIds.length ++ x.sendMsgIds.flatMap le64))

/-- A session. -/
def clientData (e : Sigma fun _ : ByteStr => StoredContext) : ByteStr := lenBuf e.1 ++ contextData e.2

/-- A retained message: its topic, its id and its bytes. -/
def retainData (e : ByteStr × Buf) : ByteStr := lenBuf e.1 ++ (le64 (UInt64.ofNat e.2.msgId) ++ lenBuf e.2.unread)

namespace Tables

variable (src : Tables)

/-- The sessions that are stored. -/
def persistent : List (Sigma fun _ : ByteStr => StoredContext) :=
  src.clientMsg.entries.filter fun e => !e.2.cleanSession

/-- The retained message of a topic, if there is one and it has bytes. -/
def retainOf (e : Sigma fun _ : ByteStr => Option Buf) : Option (ByteStr × Buf) :=
  (e.2.filter fun m => m.1.length ≠ 0).map fun m => (e.1, m)

/-- The retained messages that are stored. -/
def retained : List (ByteStr × Buf) := src.topicMgr.entries.filterMap retainOf

/-- The chunks of a file, in order. -/
def chunks : List Chunk :=
  ⟨.globalInfo, le64 src.lastMsgId⟩ :: (src.msgDb.entries.map fun e => ⟨.dbMsg, msgData e⟩) ++
    ((src.persistent.map fun e => ⟨.clientMsg, clientData e⟩) ++ src.retained.map fun e => ⟨.topicInfo, retainData e⟩)

/-- Each chunk has at most one megabyte. -/
def Fits : Prop := ∀ c ∈ src.chunks, c.data.length ≤ maxChunkLen

/-- The message table has the pending messages. -/
def Known : Prop := ∀ e ∈ src.persistent, ∀ id ∈ e.2.sendMsgIds, id ∈ src.msgDb

end Tables

/-! ## Lengths -/

@[simp] theorem length_le32 (n : Nat) : (le32 n).length = 4 := rfl

@[simp] theorem length_le64 (n : UInt64) : (le64 n).length = 8 := rfl

@[simp] theorem length_header (type : ChunkType) (n : Nat) : (header type n).length = 6 := rfl

@[simp] theorem length_lenBuf (bytes : ByteStr) : (lenBuf bytes).length = bytes.length + 4 := by
  rw [lenBuf, List.length_append, length_le32, Nat.add_comm]

@[simp] theorem length_topicData (t : Topic) : (topicData t).length = t.topicName.length + 4 + 1 := by
  rw [topicData, List.length_append, length_lenBuf, List.length_singleton]

theorem length_le64s (ids : List UInt64) : (ids.flatMap le64).length = 8 * ids.length := by
  induction ids with
  | nil => rfl
  | cons id ids ih =>
      rw [List.flatMap_cons, List.length_append, length_le64, ih, List.length_cons]
      omega

theorem length_topics_le (ts : List Topic) : ts.length ≤ (ts.flatMap topicData).length := by
  induction ts with
  | nil => exact Nat.le_refl _
  | cons t ts ih =>
      rw [List.flatMap_cons, List.length_append, length_topicData, List.length_cons]
      omega

theorem length_topic_le {ts : List Topic} {t : Topic} (h : t ∈ ts) :
    t.topicName.length ≤ (ts.flatMap topicData).length := by
  induction ts with
  | nil => cases h
  | cons u ts ih =>
      rw [List.flatMap_cons, List.length_append, length_topicData]
      rcases List.mem_cons.mp h with rfl | h
      · omega
      · have := ih h
        omega

/-- The parts of a session, and so its counts and its names, are no longer than its chunk. -/
theorem length_clientData (e : Sigma fun _ : ByteStr => StoredContext) : (clientData e).length =
    e.1.length + 4 + (4 + ((e.2.subcribeTopics.flatMap topicData).length + (4 + 8 * e.2.sendMsgIds.length))) := by
  rw [clientData, contextData, List.length_append, List.length_append, List.length_append, List.length_append,
    length_lenBuf, length_le32, length_le32, length_le64s]

theorem header_inj {type : ChunkType} {m n : Nat} {a b : ByteStr} (hm : m < 2 ^ 32) (hn : n < 2 ^ 32)
    (h : header type m ++ a = header type n ++ b) : m = n := by
  have hlen : (header type m).length = (header type n).length := rfl
  have hhead : header type m = header type n := (List.append_inj h hlen).1
  have hle : le32 m = le32 n := (List.cons.inj (List.cons.inj hhead).2).2
  rw [← readLe32_le32 hm [], ← readLe32_le32 hn [], hle]

/-! ## Writing -/

section Writing

variable {fwrite : Nat → Option Nat} {α β : Type} {f f' : DbFile}

theorem store_store_of_le {buf a b : ByteStr} {i : Nat} (h : i ≤ buf.length) :
    Pkt.store (Pkt.store buf i a) (i + a.length) b = Pkt.store buf i (a ++ b) := by
  have hlen : (buf.take i ++ a).length = i + a.length := by
    rw [List.length_append, List.length_take, Nat.min_eq_left h]
  unfold Pkt.store
  rw [List.take_append_of_le_length (Nat.le_of_eq hlen.symm), List.take_of_length_le (Nat.le_of_eq hlen),
    List.drop_append, List.drop_of_length_le (by omega), List.nil_append, hlen, List.drop_drop, List.length_append]
  simp only [List.append_assoc]
  congr 4
  omega

theorem store_end (buf a : ByteStr) : Pkt.store buf buf.length a = buf ++ a := by
  rw [Pkt.store, List.take_length, List.drop_of_length_le (by omega), List.append_nil]

theorem store_nil {buf : ByteStr} (i : Nat) : Pkt.store buf i [] = buf := by
  rw [Pkt.store, List.append_nil, List.length_nil, Nat.add_zero, List.take_append_drop]

/-- If the run succeeds, it has put `bytes` at the position of the stream and returns `a`. -/
def Puts (x : DbM α) (bytes : ByteStr) (a : α) : Prop :=
  ∀ f a' f', f.pos ≤ f.bytes.length → x f = .ok (a', f') →
    a' = a ∧ f'.bytes = Pkt.store f.bytes f.pos bytes ∧ f'.pos = f.pos + bytes.length

theorem inside_of_store {bytes : ByteStr} (h : f.pos ≤ f.bytes.length)
    (hb : f'.bytes = Pkt.store f.bytes f.pos bytes) (hp : f'.pos = f.pos + bytes.length) : f'.pos ≤ f'.bytes.length := by
  rw [hb, hp]
  simp only [Pkt.store, List.length_append, List.length_take]
  omega

namespace Puts

theorem pure (a : α) : Puts (Pure.pure a : DbM α) [] a := by
  intro f a' f' _ h
  cases h
  exact ⟨rfl, (store_nil _).symm, rfl⟩

theorem bind {x : DbM α} {g : α → DbM β} {bytes bytes' : ByteStr} {a : α} {c : β} (hx : Puts x bytes a)
    (hg : Puts (g a) bytes' c) : Puts (x >>= g) (bytes ++ bytes') c := by
  intro f c' f' hf h
  rw [bind_ok] at h
  obtain ⟨a', f₁, h₁, h₂⟩ := h
  obtain ⟨rfl, hb₁, hp₁⟩ := hx f a' f₁ hf h₁
  obtain ⟨rfl, hb₂, hp₂⟩ := hg f₁ c' f' (inside_of_store hf hb₁ hp₁) h₂
  refine ⟨rfl, ?_, ?_⟩
  · rw [hb₂, hb₁, hp₁, store_store_of_le hf]
  · rw [hp₂, hp₁, List.length_append, Nat.add_assoc]

end Puts

theorem write_puts (bytes : ByteStr) : Puts (write fwrite bytes) bytes () := by
  intro f a f' _ h
  unfold write at h
  cases hw : fwrite f.writes with
  | none =>
      rw [hw] at h
      cases h
      exact ⟨rfl, rfl, rfl⟩
  | some k =>
      rw [hw] at h
      cases h

theorem writeLenBuf_puts (bytes : ByteStr) : Puts (writeLenBuf fwrite bytes bytes.length) (lenBuf bytes) () := by
  have htake : Puts (write fwrite (bytes.take bytes.length)) bytes () := by
    rw [List.take_length]
    exact write_puts bytes
  exact (write_puts _).bind htake

theorem writeStr_puts {str : ByteStr} (h : str.length < 2 ^ 32) : Puts (writeStr fwrite str) (lenBuf str) () := by
  unfold writeStr
  rw [Nat.mod_eq_of_lt h]
  exact writeLenBuf_puts str

theorem writeChunkInfo_puts (type : ChunkType) (n : Nat) :
    Puts (writeChunkInfo fwrite type n) (header type n) () :=
  (write_puts [0xEE]).bind ((write_puts [type.value]).bind (write_puts (le32 n)))

/-- A count that stays below `2 ^ 32` is not changed by adding nothing. -/
theorem Puts.count {x : DbM Nat} {bytes : ByteStr} {m n : Nat} (h : Puts x bytes m) (he : m = n) : Puts x bytes n := by
  rw [← he]
  exact h

/-- The topics, and what they add to the length. -/
theorem storeTopics_puts (ts : List Topic) (hlen : ∀ t ∈ ts, t.topicName.length < 2 ^ 32) : ∀ n < 2 ^ 32,
    Puts (storeTopics fwrite ts n) (ts.flatMap topicData) ((n + (ts.flatMap topicData).length) % 2 ^ 32) := by
  induction ts with
  | nil => exact fun n hn => (Puts.pure n).count (Nat.mod_eq_of_lt hn).symm
  | cons t ts ih =>
      intro n _
      have ht : t.topicName.length < 2 ^ 32 := hlen t List.mem_cons_self
      have hrest := ih (fun u hu => hlen u (List.mem_cons_of_mem _ hu))
        (((n + (t.topicName.length + 4)) % 2 ^ 32 + 1) % 2 ^ 32) (Nat.mod_lt _ (by decide))
      have hbytes : lenBuf t.topicName ++ ([t.qos] ++ ts.flatMap topicData) = (t :: ts).flatMap topicData := by
        rw [List.flatMap_cons, topicData, List.append_assoc]
      have hall : Puts (storeTopics fwrite (t :: ts) n) (lenBuf t.topicName ++ ([t.qos] ++ ts.flatMap topicData)) _ :=
        (writeStr_puts ht).bind ((write_puts [t.qos]).bind hrest)
      rw [hbytes] at hall
      refine hall.count ?_
      rw [List.flatMap_cons, List.length_append, length_topicData]
      omega

/-- The ids, and what they add to the length. -/
theorem storeMsgIds_puts (ids : List UInt64) : ∀ n < 2 ^ 32,
    Puts (storeMsgIds fwrite ids n) (ids.flatMap le64) ((n + 8 * ids.length) % 2 ^ 32) := by
  induction ids with
  | nil => exact fun n hn => (Puts.pure n).count (Nat.mod_eq_of_lt hn).symm
  | cons id ids ih =>
      intro n _
      refine ((write_puts (le64 id)).bind (ih ((n + 8) % 2 ^ 32) (Nat.mod_lt _ (by decide)))).count ?_
      rw [List.length_cons]
      omega

/-- If the run succeeds at the end of the file, it has added `bytes` and returns `a`. -/
def Appends (x : DbM α) (bytes : ByteStr) (a : α) : Prop :=
  ∀ f a' f', f.pos = f.bytes.length → x f = .ok (a', f') →
    a' = a ∧ f'.bytes = f.bytes ++ bytes ∧ f'.pos = f'.bytes.length

theorem Puts.appends {x : DbM α} {bytes : ByteStr} {a : α} (h : Puts x bytes a) : Appends x bytes a := by
  intro f a' f' hf hx
  obtain ⟨ha, hb, hp⟩ := h f a' f' (Nat.le_of_eq hf) hx
  rw [hf, store_end] at hb
  refine ⟨ha, hb, ?_⟩
  rw [hp, hb, hf, List.length_append]

theorem Appends.bind {x : DbM α} {g : α → DbM β} {bytes bytes' : ByteStr} {a : α} {c : β} (hx : Appends x bytes a)
    (hg : Appends (g a) bytes' c) : Appends (x >>= g) (bytes ++ bytes') c := by
  intro f c' f' hf h
  rw [bind_ok] at h
  obtain ⟨a', f₁, h₁, h₂⟩ := h
  obtain ⟨rfl, hb₁, hp₁⟩ := hx f a' f₁ hf h₁
  obtain ⟨rfl, hb₂, hp₂⟩ := hg f₁ c' f' hp₁ h₂
  refine ⟨rfl, ?_, hp₂⟩
  rw [hb₂, hb₁, List.append_assoc]

/-- A header written over. -/
theorem store_header {type : ChunkType} (m n : Nat) (bytes rest : ByteStr) :
    Pkt.store (bytes ++ (header type m ++ rest)) bytes.length (header type n) = bytes ++ (header type n ++ rest) := by
  have hlen : bytes.length + (header type n).length = (bytes ++ header type m).length := by
    rw [List.length_append, length_header, length_header]
  rw [Pkt.store, List.take_left, hlen, ← List.append_assoc, List.drop_left, List.append_assoc]

/-- A session as it is first written, with the header that has the length counted before it. -/
def storeFields (fwrite : Nat → Option Nat) (clientId : ByteStr) (context : StoredContext) (chunkLen : Nat) : DbM Nat := do
  writeChunkInfo fwrite .clientMsg chunkLen
  writeStr fwrite clientId
  writeUint fwrite (context.subcribeTopics.length % 2 ^ 32)
  let chunkLen ← storeTopics fwrite context.subcribeTopics (((chunkLen + (clientId.length + 4)) % 2 ^ 32 + 4) % 2 ^ 32)
  writeUint fwrite (context.sendMsgIds.length % 2 ^ 32)
  storeMsgIds fwrite context.sendMsgIds ((chunkLen + 4) % 2 ^ 32)

theorem storeClient_eq (clientId : ByteStr) (context : StoredContext) (n : Nat) :
    storeClient fwrite clientId context n = (do
      let chunkOffset ← ftell
      let chunkLen ← storeFields fwrite clientId context n
      let lastOffset ← ftell
      fseek chunkOffset
      writeChunkInfo fwrite .clientMsg chunkLen
      fseek lastOffset
      pure chunkLen) := by
  simp only [storeClient, storeFields, bind_assoc]

theorem storeFields_puts {e : Sigma fun _ : ByteStr => StoredContext} (hfits : (clientData e).length ≤ maxChunkLen)
    (n : Nat) : Puts (storeFields fwrite e.1 e.2 n) (header .clientMsg n ++ clientData e)
      ((n + (clientData e).length) % 2 ^ 32) := by
  have hmax : maxChunkLen < 2 ^ 32 := by decide
  have hdata := length_clientData e
  have htopics := length_topics_le e.2.subcribeTopics
  have hnames : ∀ t ∈ e.2.subcribeTopics, t.topicName.length < 2 ^ 32 := by
    intro t ht
    have := length_topic_le ht
    omega
  have hid : e.1.length < 2 ^ 32 := by omega
  unfold storeFields
  rw [Nat.mod_eq_of_lt (show e.2.subcribeTopics.length < 2 ^ 32 by omega),
    Nat.mod_eq_of_lt (show e.2.sendMsgIds.length < 2 ^ 32 by omega)]
  have hbytes : header .clientMsg n ++ (lenBuf e.1 ++ (le32 e.2.subcribeTopics.length ++
      (e.2.subcribeTopics.flatMap topicData ++ (le32 e.2.sendMsgIds.length ++ e.2.sendMsgIds.flatMap le64)))) =
      header .clientMsg n ++ clientData e := by
    rw [clientData, contextData]
  have hlt : ∀ k : Nat, k % 2 ^ 32 < 2 ^ 32 := fun k => Nat.mod_lt k (by decide)
  rw [← hbytes]
  refine ((writeChunkInfo_puts .clientMsg n).bind ((writeStr_puts hid).bind ((write_puts _).bind
    ((storeTopics_puts _ hnames _ (hlt _)).bind ((write_puts _).bind (storeMsgIds_puts _ _ (hlt _))))))).count ?_
  omega

/-- **One session.** Its fields go behind a header that has the length counted so far, this session included. -/
theorem storeClient_appends {e : Sigma fun _ : ByteStr => StoredContext} (hfits : (clientData e).length ≤ maxChunkLen)
    (n : Nat) : Appends (storeClient fwrite e.1 e.2 n)
      (header .clientMsg ((n + (clientData e).length) % 2 ^ 32) ++ clientData e) ((n + (clientData e).length) % 2 ^ 32) := by
  intro f a f' hf h
  rw [storeClient_eq, bind_ok] at h
  obtain ⟨offset, f₀, h₀, h⟩ := h
  cases h₀
  rw [bind_ok] at h
  obtain ⟨chunkLen, f₁, h₁, h⟩ := h
  obtain ⟨rfl, hb₁, hp₁⟩ := (storeFields_puts hfits n).appends _ _ _ hf h₁
  rw [bind_ok] at h
  obtain ⟨last, f₂, h₂, h⟩ := h
  cases h₂
  rw [bind_ok] at h
  obtain ⟨_, f₃, h₃, h⟩ := h
  cases h₃
  rw [bind_ok] at h
  obtain ⟨_, f₄, h₄, h⟩ := h
  have hinside : f.pos ≤ f₁.bytes.length := by
    rw [hb₁, hf, List.length_append]
    omega
  obtain ⟨-, hb₄, -⟩ := writeChunkInfo_puts _ _ _ _ _ hinside h₄
  rw [bind_ok] at h
  obtain ⟨_, f₅, h₅, h⟩ := h
  cases h₅
  cases h
  have hover : f₄.bytes = f.bytes ++ (header .clientMsg ((n + (clientData e).length) % 2 ^ 32) ++ clientData e) := by
    rw [hb₄]
    show Pkt.store f₁.bytes f.pos _ = _
    rw [hb₁, hf, store_header]
  refine ⟨rfl, hover, ?_⟩
  show f₁.pos = f₄.bytes.length
  rw [hp₁, hover, hb₁]
  simp only [List.length_append, length_header]

/-- The chunks of some sessions as they are written, with the length counted from one to the next. -/
def sessionBytes : List (Sigma fun _ : ByteStr => StoredContext) → (chunkLen : Nat) → ByteStr
  | [], _ => []
  | e :: es, n =>
      header .clientMsg ((n + (clientData e).length) % 2 ^ 32) ++ clientData e ++
        sessionBytes es ((n + (clientData e).length) % 2 ^ 32)

theorem storeClients_appends (es : List (Sigma fun _ : ByteStr => StoredContext))
    (hfits : ∀ e ∈ es.filter (fun e => !e.2.cleanSession), (clientData e).length ≤ maxChunkLen) : ∀ n,
    Appends (storeClients fwrite es n) (sessionBytes (es.filter fun e => !e.2.cleanSession) n) () := by
  induction es with
  | nil => exact fun n => (Puts.pure ()).appends
  | cons e es ih =>
      intro n
      unfold storeClients
      by_cases hc : e.2.cleanSession = true
      · have hfilter : (e :: es).filter (fun e => !e.2.cleanSession) = es.filter fun e => !e.2.cleanSession := by
          rw [List.filter_cons, hc]
          rfl
        rw [hfilter] at hfits ⊢
        rw [if_pos hc]
        exact ih hfits n
      · have hfilter : (e :: es).filter (fun e => !e.2.cleanSession) = e :: es.filter fun e => !e.2.cleanSession := by
          rw [List.filter_cons, Bool.eq_false_iff.mpr hc]
          rfl
        rw [hfilter] at hfits ⊢
        rw [if_neg hc]
        exact (storeClient_appends (hfits e List.mem_cons_self) n).bind
          (ih (fun e' he' => hfits e' (List.mem_cons_of_mem _ he')) _)

theorem length_msgData (e : Sigma fun _ : UInt64 => Buf) : (msgData e).length = 8 + (e.2.1.length + 4) := by
  rw [msgData, List.length_append, length_le64, length_lenBuf, Buf.length_unread]

theorem storeMsgs_appends (es : List (Sigma fun _ : UInt64 => Buf))
    (hfits : ∀ e ∈ es, (msgData e).length ≤ maxChunkLen) :
    Appends (storeMsgs fwrite es) ((es.map fun e => (⟨.dbMsg, msgData e⟩ : Chunk)).flatMap Chunk.bytes) () := by
  have hmax : maxChunkLen < 2 ^ 32 := by decide
  induction es with
  | nil => exact (Puts.pure ()).appends
  | cons e es ih =>
      have hlen := length_msgData e
      have hfit := hfits e List.mem_cons_self
      have hsum : (8 + e.2.1.length + 4) % 2 ^ 32 = (msgData e).length := by
        rw [hlen, Nat.mod_eq_of_lt (by omega), Nat.add_assoc]
      have hbuf : Puts (writeLenBuf fwrite e.2.unread e.2.1.length) (lenBuf e.2.unread) () := by
        rw [← Buf.length_unread]
        exact writeLenBuf_puts _
      have hbytes : header .dbMsg (msgData e).length ++ (le64 e.1 ++ (lenBuf e.2.unread ++
          (es.map fun e => (⟨.dbMsg, msgData e⟩ : Chunk)).flatMap Chunk.bytes)) =
          ((e :: es).map fun e => (⟨.dbMsg, msgData e⟩ : Chunk)).flatMap Chunk.bytes := by
        rw [List.map_cons, List.flatMap_cons, Chunk.bytes, msgData]
        simp only [List.append_assoc]
      unfold storeMsgs
      simp only
      rw [hsum, ← hbytes]
      exact (writeChunkInfo_puts _ _).appends.bind ((write_puts _).appends.bind (hbuf.appends.bind
        (ih fun e' he' => hfits e' (List.mem_cons_of_mem _ he'))))

theorem length_retainData (e : ByteStr × Buf) :
    (retainData e).length = e.1.length + 4 + (8 + (e.2.1.length + 4)) := by
  rw [retainData, List.length_append, List.length_append, length_le64, length_lenBuf, length_lenBuf, Buf.length_unread]

theorem storeRetains_appends (es : List (Sigma fun _ : ByteStr => Option Buf))
    (hfits : ∀ e ∈ es.filterMap Tables.retainOf, (retainData e).length ≤ maxChunkLen) :
    Appends (storeRetains fwrite es)
      (((es.filterMap Tables.retainOf).map fun e => (⟨.topicInfo, retainData e⟩ : Chunk)).flatMap Chunk.bytes) () := by
  have hmax : maxChunkLen < 2 ^ 32 := by decide
  induction es with
  | nil => exact (Puts.pure ()).appends
  | cons e es ih =>
      obtain ⟨t, r⟩ := e
      have hskip : Tables.retainOf ⟨t, r⟩ = none →
          ((⟨t, r⟩ :: es : List (Sigma fun _ : ByteStr => Option Buf)).filterMap Tables.retainOf) =
            es.filterMap Tables.retainOf := fun h => List.filterMap_cons_none h
      unfold storeRetains
      cases r with
      | none =>
          rw [hskip rfl] at hfits ⊢
          exact ih hfits
      | some m =>
          by_cases hm : m.1.length = 0
          · have hnone : Tables.retainOf ⟨t, some m⟩ = none := by
              simp [Tables.retainOf, hm]
            rw [hskip hnone] at hfits ⊢
            show Appends (if m.1.length = 0 then storeRetains fwrite es else _) _ _
            rw [if_pos hm]
            exact ih hfits
          · have hsome : Tables.retainOf ⟨t, some m⟩ = some (t, m) := by
              simp [Tables.retainOf, hm]
            rw [List.filterMap_cons_some hsome] at hfits ⊢
            have hlen := length_retainData (t, m)
            have hfit := hfits (t, m) List.mem_cons_self
            have hsum : (((t.length + 4) % 2 ^ 32 + 8) % 2 ^ 32 + (m.1.length + 4)) % 2 ^ 32 =
                (retainData (t, m)).length := by
              rw [hlen]
              show _ = t.length + 4 + (8 + (m.1.length + 4))
              have : t.length + 4 + (8 + (m.1.length + 4)) < 2 ^ 32 := Nat.lt_of_le_of_lt (hlen ▸ hfit) hmax
              omega
            have hname : t.length < 2 ^ 32 := by
              have : t.length + 4 + (8 + (m.1.length + 4)) ≤ maxChunkLen := hlen ▸ hfit
              omega
            have hbuf : Puts (writeLenBuf fwrite m.unread m.1.length) (lenBuf m.unread) () := by
              rw [← Buf.length_unread]
              exact writeLenBuf_puts _
            show Appends (if m.1.length = 0 then storeRetains fwrite es else _) _ _
            simp only
            rw [if_neg hm, hsum, List.map_cons, List.flatMap_cons, Chunk.bytes, retainData]
            simp only [List.append_assoc]
            exact (writeChunkInfo_puts _ _).appends.bind ((writeStr_puts hname).appends.bind ((write_puts _).appends.bind
              (hbuf.appends.bind (ih fun e' he' => hfits e' (List.mem_cons_of_mem _ he')))))

end Writing

namespace Tables.Fits

variable {src : Tables}

theorem msg (h : src.Fits) : ∀ e ∈ src.msgDb.entries, (msgData e).length ≤ maxChunkLen := by
  intro e he
  refine h ⟨.dbMsg, msgData e⟩ (List.mem_append_left _ (List.mem_cons_of_mem _ ?_))
  exact List.mem_map_of_mem he

theorem client (h : src.Fits) : ∀ e ∈ src.persistent, (clientData e).length ≤ maxChunkLen := by
  intro e he
  refine h ⟨.clientMsg, clientData e⟩ (List.mem_append_right _ (List.mem_append_left _ ?_))
  exact List.mem_map_of_mem he

theorem retain (h : src.Fits) : ∀ e ∈ src.retained, (retainData e).length ≤ maxChunkLen := by
  intro e he
  refine h ⟨.topicInfo, retainData e⟩ (List.mem_append_right _ (List.mem_append_right _ ?_))
  exact List.mem_map_of_mem he

end Tables.Fits

/-- The chunks in front of the sessions, and those behind. -/
def Tables.before (src : Tables) : List Chunk :=
  ⟨.globalInfo, le64 src.lastMsgId⟩ :: src.msgDb.entries.map fun e => ⟨.dbMsg, msgData e⟩

def Tables.behind (src : Tables) : List Chunk := src.retained.map fun e => ⟨.topicInfo, retainData e⟩

/-- **What `store` writes.** -/
theorem store_bytes {fwrite : Nat → Option Nat} {src : Tables} {f : DbFile} (hfits : src.Fits)
    (h : store fwrite src {} = .ok ((), f)) :
    f.bytes = src.before.flatMap Chunk.bytes ++ (sessionBytes src.persistent 0 ++ src.behind.flatMap Chunk.bytes) := by
  have hinfo : Puts (storeDbInfo fwrite src) (Chunk.bytes ⟨.globalInfo, le64 src.lastMsgId⟩) () :=
    (writeChunkInfo_puts .globalInfo 8).bind (write_puts (le64 src.lastMsgId))
  have hall : Appends (store fwrite src) _ () := hinfo.appends.bind ((storeMsgs_appends _ hfits.msg).bind
    ((storeClients_appends _ hfits.client 0).bind (storeRetains_appends _ hfits.retain)))
  obtain ⟨-, hb, -⟩ := hall {} () f rfl h
  rw [hb, Tables.before, List.flatMap_cons, List.append_assoc]
  rfl

/-- The chunks of the sessions. -/
def Tables.sessions (src : Tables) : List Chunk := src.persistent.map fun e => ⟨.clientMsg, clientData e⟩

theorem chunks_bytes (src : Tables) : src.chunks.flatMap Chunk.bytes =
    src.before.flatMap Chunk.bytes ++ (src.sessions.flatMap Chunk.bytes ++ src.behind.flatMap Chunk.bytes) := by
  have hchunks : src.chunks = src.before ++ (src.sessions ++ src.behind) := rfl
  rw [hchunks, List.flatMap_append, List.flatMap_append]

/-- The headers are right for the first session and wrong from the second one on. -/
theorem sessionBytes_exact {es : List (Sigma fun _ : ByteStr => StoredContext)}
    (hfits : ∀ e ∈ es, (clientData e).length ≤ maxChunkLen) (rest rest' : ByteStr) :
    sessionBytes es 0 ++ rest = (es.map fun e => (⟨.clientMsg, clientData e⟩ : Chunk)).flatMap Chunk.bytes ++ rest' ↔
      es.length ≤ 1 ∧ rest = rest' := by
  have hmax : maxChunkLen + maxChunkLen < 2 ^ 32 := by decide
  match es with
  | [] => exact ⟨fun h => ⟨Nat.zero_le 1, h⟩, fun h => h.2⟩
  | [e] =>
      have hfit := hfits e List.mem_cons_self
      have hlen : (0 + (clientData e).length) % 2 ^ 32 = (clientData e).length := by
        rw [Nat.zero_add, Nat.mod_eq_of_lt (by omega)]
      have hbytes : sessionBytes [e] 0 = [(⟨.clientMsg, clientData e⟩ : Chunk)].flatMap Chunk.bytes := by
        rw [sessionBytes, hlen, sessionBytes, List.flatMap_cons, Chunk.bytes]
        rfl
      show sessionBytes [e] 0 ++ rest = [(⟨.clientMsg, clientData e⟩ : Chunk)].flatMap Chunk.bytes ++ rest' ↔ _
      rw [hbytes, List.append_cancel_left_eq]
      exact ⟨fun h => ⟨Nat.le_refl 1, h⟩, fun h => h.2⟩
  | e :: e' :: es =>
      constructor
      · intro h
        exfalso
        have hfit := hfits e List.mem_cons_self
        have hfit' := hfits e' (List.mem_cons_of_mem _ List.mem_cons_self)
        have hpos := length_clientData e
        have hlen : (0 + (clientData e).length) % 2 ^ 32 = (clientData e).length := by
          rw [Nat.zero_add, Nat.mod_eq_of_lt (by omega)]
        have hlen' : ((clientData e).length + (clientData e').length) % 2 ^ 32 =
            (clientData e).length + (clientData e').length := Nat.mod_eq_of_lt (by omega)
        rw [sessionBytes, sessionBytes, hlen, hlen', List.map_cons, List.map_cons, List.flatMap_cons, List.flatMap_cons,
          Chunk.bytes, Chunk.bytes] at h
        simp only [List.append_assoc, List.append_cancel_left_eq] at h
        have hsum := header_inj (by omega) (by omega) h
        omega
      · rintro ⟨h, -⟩
        simp only [List.length_cons] at h
        omega

/-- The headers of the file are right if and only if there is at most one session. -/
theorem lengths_iff {fwrite : Nat → Option Nat} {src : Tables} {f : DbFile} (hfits : src.Fits)
    (h : store fwrite src {} = .ok ((), f)) :
    f.bytes = src.chunks.flatMap Chunk.bytes ↔ src.persistent.length ≤ 1 := by
  rw [store_bytes hfits h, chunks_bytes, List.append_cancel_left_eq, Tables.sessions, sessionBytes_exact hfits.client]
  exact and_iff_left rfl

end Persist
end MqttServer
