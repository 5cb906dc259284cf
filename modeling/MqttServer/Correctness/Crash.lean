import MqttServer.Correctness.Accept

/-!
# `Correctness.Crash` — the file after a flush that fails

`store` empties the one file there is before it writes the first chunk. When a write falls short, the process is
stopped, or the buffer cannot be written out, what is on disk is an initial part of the new file, and the old one is
gone. `restore` takes the end of the file after a whole chunk for the end of the state, so a part of the new state may be
restored without an error.

The states are compared through the records of their files. A file is the complete file of some records exactly when
`restore` accepts it and has then restored these records (`yields_iff`).
-/

namespace MqttServer

open Lib Exec

variable {env env' env₀ : Env} {mp : MsgPack} {b b' b₀ : Broker} {r : Int}

/-! ## A file is decided by its chunks -/

theorem readLe32_injective {len len' : ByteStr} (h : len.length = 4) (h' : len'.length = 4)
    (heq : readLe32 len = readLe32 len') : len = len' := by
  match len, len', h, h' with
  | [v₀, v₁, v₂, v₃], [w₀, w₁, w₂, w₃], _, _ =>
      simp only [readLe32] at heq
      have hv₀ := v₀.toNat_lt
      have hv₁ := v₁.toNat_lt
      have hv₂ := v₂.toNat_lt
      have hw₀ := w₀.toNat_lt
      have hw₁ := w₁.toNat_lt
      have hw₂ := w₂.toNat_lt
      have h₀ : v₀ = w₀ := UInt8.toNat_inj.mp (by omega)
      have h₁ : v₁ = w₁ := UInt8.toNat_inj.mp (by omega)
      have h₂ : v₂ = w₂ := UInt8.toNat_inj.mp (by omega)
      have h₃ : v₃ = w₃ := UInt8.toNat_inj.mp (by omega)
      rw [h₀, h₁, h₂, h₃]

/-- Two files with the same chunks are the same file. -/
theorem Reads.file_eq {file file' : ByteStr} {cs : List (ChunkType × ByteStr)} (h : Reads file cs) :
    Reads file' cs → file = file' := by
  induction h generalizing file' with
  | done =>
      intro h'
      cases h'
      rfl
  | @chunk type len data rest cs hlen hdata hmax h ih =>
      intro h'
      cases h' with
      | @chunk _ len' _ rest' _ hlen' hdata' _ h' =>
          have hlens : len = len' := readLe32_injective hlen hlen' (hdata.symm.trans hdata')
          rw [hlens, ih h']

theorem Reads.length_le {file : ByteStr} {cs : List (ChunkType × ByteStr)} (h : Reads file cs) :
    ∀ c ∈ cs, c.2.length ≤ maxChunkLen := by
  induction h with
  | done => exact fun _ hc => by cases hc
  | chunk hlen hdata hmax h ih =>
      intro c hc
      rcases List.mem_cons.mp hc with rfl | hc
      · exact hmax
      · exact ih c hc

/-! ## Complete states -/

/-- `restore` returns `0`, and it has then restored these records: all of them and no others. -/
def Yields (env : Env) (mp : MsgPack) (file : Option ByteStr) (rs : List Record) : Prop :=
  Reads (file.getD []) (rs.map (Record.stored mp)) ∧
    ∃ st b₂ dbFile, restore env mp file {} = .ok (0, { st.clear b₂ with dbFile }) ∧
      restoreRecords env mp rs {} {} = .ok (st, b₂)

/-- **Only the complete file yields the records.** -/
theorem yields_iff {file : ByteStr} {rs : List Record} (hvalid : ∀ r ∈ rs, r.Valid) :
    Yields env mp (some file) rs ↔ file = fileOf mp rs ∧ ∀ r ∈ rs, r.Fits mp := by
  constructor
  · rintro ⟨hreads, st, b₂, dbFile, hrestore, -⟩
    have hlens : ∀ r ∈ rs, chunkLen (r.pack mp) ≤ maxChunkLen := by
      intro r hr
      rw [← length_take_chunkLen]
      exact hreads.length_le _ (List.mem_map_of_mem hr)
    obtain rfl : file = fileOf mp rs := hreads.file_eq ((reads_fileOf rs).mpr ⟨rfl, hlens⟩)
    exact ⟨rfl, (restore_fileOf_iff hvalid).mp ⟨_, hrestore⟩⟩
  · rintro ⟨rfl, hfits⟩
    have hreads : Reads (fileOf mp rs) (rs.map (Record.stored mp)) :=
      (reads_fileOf rs).mpr ⟨rfl, fun r hr => (hfits r hr).stored.1⟩
    obtain ⟨st, b₂, hrs⟩ := restoreRecords_total env mp rs {} {} hvalid
    have hcs := (restoreChunks_fits rs {} {} hfits).trans hrs
    obtain ⟨dbFile, hrestore⟩ := restore_of_loop (hreads.restoreLoop (Nat.lt_succ_self _) hcs)
    exact ⟨hreads, st, b₂, dbFile, hrestore, hrs⟩

/-! ## What is on disk -/

/-- `store` leaves the file alone: it is not forced and takes the state for unchanged, or the file cannot be opened, and
    nothing is left in a buffer from an earlier failure. -/
def Untouched (env : Env) (force : Bool) (b : Broker) : Prop :=
  (force = false ∧ b.store.lastUpdateTime ≤ b.lastDbUpdateTime) ∨
    (env.fopen b.nfiles = false ∧ b.closed env = b.file)

/-- The bytes that are on the disk afterwards: what it takes of the new file, or when that cannot be opened the old file,
    with what comes out of the buffer when it is closed. -/
def taken (env : Env) (mp : MsgPack) (b : Broker) : ByteStr :=
  if env.fopen b.nfiles then (written env mp b).out else (b.closed env).getD []

/-- `store` is skipped, or it is `storeAll`. -/
theorem store_cases {force : Bool} (hs : store env mp force b = .ok (r, b')) :
    (force = false ∧ b.store.lastUpdateTime ≤ b.lastDbUpdateTime ∧ SameDisk b b') ∨
      (¬ (force = false ∧ b.store.lastUpdateTime ≤ b.lastDbUpdateTime) ∧ ∃ last,
        storeAll env mp { flushStat b with lastDbUpdateTime := last } = .ok (r, b')) := by
  unfold store at hs
  rw [modify_bind, get_bind] at hs
  cases force with
  | true => exact Or.inr ⟨(fun h => by cases h.1), b.lastDbUpdateTime, hs⟩
  | false =>
      rw [if_neg Bool.false_ne_true] at hs
      split at hs
      · rename_i hskip
        cases hs
        exact Or.inl ⟨rfl, hskip, rfl, rfl, rfl, rfl⟩
      · rename_i hskip
        rw [set_bind] at hs
        exact Or.inr ⟨fun h => hskip h.2, _, hs⟩

theorem store_untouched {force : Bool} (hs : store env mp force b = .ok (r, b')) (h : Untouched env force b) :
    b'.file = b.file := by
  rcases store_cases hs with ⟨-, -, hsame⟩ | ⟨hforced, last, hall⟩
  · exact hsame.file
  · obtain ⟨hopen, hclosed⟩ := h.resolve_left hforced
    exact ((storeAll_writes hall).1 hopen).2.1.trans hclosed

theorem Broker.closed_getD (h : b.closed env ≠ b.file) : b.closed env = some ((b.closed env).getD []) := by
  unfold Broker.closed at h ⊢
  cases hdb : b.dbFile with
  | none =>
      rw [hdb] at h
      exact absurd rfl h
  | some held => rfl

theorem store_touched {force : Bool} (hs : store env mp force b = .ok (r, b')) (h : ¬ Untouched env force b) :
    b'.file = some (taken env mp b) := by
  unfold Untouched at h
  rw [not_or] at h
  obtain ⟨hforced, hopen⟩ := h
  rcases store_cases hs with ⟨hf, hskip, -⟩ | ⟨-, last, hall⟩
  · exact absurd ⟨hf, hskip⟩ hforced
  · unfold taken
    cases hopened : env.fopen b.nfiles with
    | true =>
        rw [if_pos rfl]
        exact ((storeAll_writes hall).2 hopened).1
    | false =>
        rw [if_neg Bool.false_ne_true]
        exact ((storeAll_writes hall).1 hopened).2.1.trans (Broker.closed_getD fun heq => hopen ⟨hopened, heq⟩)

/-- **A flush leaves a complete state exactly when** the old file is not touched, or the disk takes all of the new
    one. In both cases the file has to be one that `restore` accepts. What the disk takes may also happen to be the
    old file. -/
theorem store_atomic_iff {force : Bool} (hfile : b.file = some (fileOf mp (records env₀ b₀)))
    (hs : store env mp force b = .ok (r, b')) :
    (Yields env' mp b'.file (records env₀ b₀) ∨ Yields env' mp b'.file (records env b)) ↔
      (RecordsFit env₀ mp b₀ ∧ (Untouched env force b ∨ taken env mp b = fileOf mp (records env₀ b₀))) ∨
      (RecordsFit env mp b ∧ ¬ Untouched env force b ∧ taken env mp b = fileOf mp (records env b)) := by
  by_cases hun : Untouched env force b
  · rw [store_untouched hs hun, hfile, yields_iff records_valid, yields_iff records_valid]
    simp only [hun, true_or, and_true, not_true_eq_false, false_and, and_false, or_false, true_and]
    constructor
    · rintro (hfit | ⟨hsame, hfit⟩)
      · exact hfit
      · -- the new file would be the old one, byte for byte
        have haccepted : ∃ b₂, restore env' mp (some (fileOf mp (records env b))) {} = .ok (0, b₂) :=
          (restore_fileOf_iff records_valid).mpr hfit
        rw [← hsame] at haccepted
        exact (restore_fileOf_iff records_valid).mp haccepted
    · exact fun hfit => Or.inl hfit
  · rw [store_touched hs hun, yields_iff records_valid, yields_iff records_valid]
    simp only [hun, false_or, not_false_eq_true, true_and]
    exact or_congr and_comm and_comm

/-- An outside whose disk takes each byte at once, and no more of them from the write with number `n` on. -/
def Env.full (n : Nat) : Env :=
  { Env.calm with fwrite := fun i => if n ≤ i then some 0 else none, drain := fun _ => 65536 }

/-- A subscriber, and a message that is pending for it. -/
def subscribed : List Move :=
  Move.alone 1 .accept ++ Move.alone 2 .accept ++ Move.alone 3 (.input 0 (connectPacket 65 0)) ++
    Move.alone 4 (.input 0 (subscribePacket 116)) ++ Move.alone 5 (.input 1 (connectPacket 66 2)) ++
    Move.alone 6 (.input 1 (publishPacket 116 9))

/-- The state is flushed, and there is one more message. -/
def flushed : List Move := Move.alone 7 .timer ++ Move.alone 8 (.input 1 (publishPacket 116 10))

/-- What `play` of two scripts, one after the other, says about runs. -/
theorem exists_reach_two {mvs mvs' : List Move} {P : Machine → Machine → Prop} [∀ m m', Decidable (P m m')]
    (h : (Machine.initial.play env mp mvs).any (fun m => (m.play env mp mvs').any fun m' => decide (P m m')) = true) :
    ∃ m m', Reach env mp m ∧ Reach env mp m' ∧ P m m' := by
  obtain ⟨m, hm, h⟩ := (Option.any_eq_true _ _).mp h
  obtain ⟨m', hm', hP⟩ := (Option.any_eq_true _ _).mp h
  have hruns : Runs env mp {} m := Machine.play_runs mvs .start hm
  exact ⟨m, m', hruns.reach .empty, (Machine.play_runs mvs' hruns hm').reach .empty, of_decide_eq_true hP⟩

instance (force : Bool) : Decidable (Untouched env force b) := inferInstanceAs (Decidable (_ ∨ _))

/-- A flush, and `restore` from what it leaves: the result of the flush, the broker after it, and the restored one. -/
def flushAndRestore (env env' : Env) (mp : MsgPack) (b : Broker) : Option (Int × Broker × Broker) :=
  match store env mp false b with
  | .error _ => none
  | .ok (r, b') =>
      match restore env' mp b'.file {} with
      | .error _ => none
      | .ok (res, b₂) => if res = 0 then some (r, b', b₂) else none

theorem flushAndRestore_some {b₂ : Broker} (h : flushAndRestore env env' mp b = some (r, b', b₂)) :
    store env mp false b = .ok (r, b') ∧ restore env' mp b'.file {} = .ok (0, b₂) := by
  unfold flushAndRestore at h
  cases hs : store env mp false b with
  | error e =>
      rw [hs] at h
      cases h
  | ok p =>
      simp only [hs] at h
      cases hr : restore env' mp p.2.file {} with
      | error e =>
          rw [hr] at h
          cases h
      | ok q =>
          simp only [hr] at h
          split at h
          · rename_i hres
            cases h
            exact ⟨rfl, by rw [hr, ← hres]⟩
          · cases h

/-- A flush that succeeds leaves the new state. -/
theorem store_atomic_flushed : ∃ (m₀ m : Machine) (b' : Broker), Reach Env.calm packing m₀ ∧
    Reach Env.calm packing m ∧ m.broker.file = some (fileOf packing (records Env.calm m₀.broker)) ∧
    store Env.calm packing false m.broker = .ok (0, b') ∧
    (Yields Env.calm packing b'.file (records Env.calm m₀.broker) ∨
      Yields Env.calm packing b'.file (records Env.calm m.broker)) := by
  have hrun : (Machine.initial.play Env.calm packing subscribed).any (fun m₀ =>
      (m₀.play Env.calm packing flushed).any fun m =>
        decide (m.broker.file = some (fileOf packing (records Env.calm m₀.broker)) ∧
          RecordsFit Env.calm packing m.broker ∧ ¬ Untouched Env.calm false m.broker ∧
          taken Env.calm packing m.broker = fileOf packing (records Env.calm m.broker) ∧
          (flushAndRestore Env.calm Env.calm packing m.broker).any fun x => decide (x.1 = 0))) = true := by
    decide +kernel
  obtain ⟨m₀, m, hm₀, hm, hfile, hfit, htouched, htaken, hflush⟩ := exists_reach_two hrun
  obtain ⟨⟨r, b', b₂⟩, hflush, htest⟩ := (Option.any_eq_true _ _).mp hflush
  obtain rfl : r = 0 := of_decide_eq_true htest
  have hs := (flushAndRestore_some hflush).1
  exact ⟨m₀, m, b', hm₀, hm, hfile, hs, (store_atomic_iff hfile hs).mpr (Or.inr ⟨hfit, htouched, htaken⟩)⟩

/-- **The session is lost.** The second flush gets as far as the first message. `restore` returns `0` from this file;
    the client has lost its session, which is in the old state and in the new one. -/
theorem store_loses_session : ∃ (m₀ m : Machine) (b' b₂ : Broker), Reach (Env.full 22) packing m₀ ∧
    Reach (Env.full 22) packing m ∧ m.broker.file = some (fileOf packing (records (Env.full 22) m₀.broker)) ∧
    store (Env.full 22) packing false m.broker = .ok (-1, b') ∧
    restore Env.calm packing b'.file {} = .ok (0, b₂) ∧
    (m₀.broker.sess.registry.findClientContext [65]).isSome ∧
    (m.broker.sess.registry.findClientContext [65]).isSome ∧
    b₂.sess.registry.findClientContext [65] = none ∧
    ¬ (Yields Env.calm packing b'.file (records (Env.full 22) m₀.broker) ∨
      Yields Env.calm packing b'.file (records (Env.full 22) m.broker)) := by
  have hrun : (Machine.initial.play (Env.full 22) packing subscribed).any (fun m₀ =>
      (m₀.play (Env.full 22) packing flushed).any fun m =>
        decide (m.broker.file = some (fileOf packing (records (Env.full 22) m₀.broker)) ∧
          (m₀.broker.sess.registry.findClientContext [65]).isSome ∧
          (m.broker.sess.registry.findClientContext [65]).isSome ∧ ¬ Untouched (Env.full 22) false m.broker ∧
          (flushAndRestore (Env.full 22) Env.calm packing m.broker).any fun x =>
            decide (x.1 = -1 ∧ x.2.2.sess.registry.findClientContext [65] = none ∧
              x.2.1.file ≠ some (fileOf packing (records (Env.full 22) m₀.broker)) ∧
              x.2.1.file ≠ some (fileOf packing (records (Env.full 22) m.broker))))) = true := by
    decide +kernel
  obtain ⟨m₀, m, hm₀, hm, hfile, hfind₀, hfind, htouched, hflush⟩ := exists_reach_two hrun
  obtain ⟨⟨r, b', b₂⟩, hflush, htest⟩ := (Option.any_eq_true _ _).mp hflush
  obtain ⟨rfl, hlost, hold, hnew⟩ := of_decide_eq_true htest
  obtain ⟨hs, hr⟩ := flushAndRestore_some hflush
  refine ⟨m₀, m, b', b₂, hm₀, hm, hfile, hs, hr, hfind₀, hfind, hlost, ?_⟩
  simp only [store_touched hs htouched] at hold hnew ⊢
  rintro (hyields | hyields)
  · exact hold (congrArg some ((yields_iff records_valid).mp hyields).1)
  · exact hnew (congrArg some ((yields_iff records_valid).mp hyields).1)

end MqttServer
