import MqttServer.Server.Poller
import MqttServer.Server.Packing
import MqttServer.Server.Segmentation
import MqttServer.Server.Bridge

/-!
# `Correctness.Framing` — the framing loops partition the buffer

`process_mqtt` and `TCPClient::process` walk the receive buffer with one offset, hand each complete packet to a
handler that may rewrite it in place, and move what is left to the front. Here a run of the loop is taken together
with the list of the packets it hands over. When it returns `0`, these packets and the bytes that stay in the buffer
are the bytes it was called on: a round that does not return moves the offset behind a packet, and nothing behind the
offset has been written yet. The cut depends on the bytes alone, so a second loop with a handler of its own that
accepts the packets makes the same one.
-/

namespace MqttServer

open Lib Exec RecvBuffer

section Loop

variable {σ ε : Type} {touch : Exec σ ε Unit} {process : Handler σ ε} {mem mem' : Nat → UInt8}
  {fuel len offset offset' : Nat} {s s' : σ}

/-! ## One round -/

/-- One round of the loop: it returns, or goes on with the memory at an offset. -/
def processRound (touch : Exec σ ε Unit) (process : Handler σ ε) (mem : Nat → UInt8) (len offset : Nat) :
    Exec σ ε (Option RecvBuffer ⊕ (Nat → UInt8) × Nat) := do
  touch
  if offset < len then
    match remainLength (shift mem offset) (len - offset) with
    | .needMoreData =>
        if offset ≠ 0 then
          pure (.inl (some { mem := splice mem 0 (slice mem offset (len - offset)), curBufPos := len - offset }))
        else pure (.inl (some { mem := mem, curBufPos := len }))
    | .failture => pure (.inl none)
    | .length value bytes => do
        let pktTotalLen := value + bytes + 1
        let (res, pkt) ← process (slice mem offset pktTotalLen)
        if res < 0 then pure (.inl none)
        else pure (.inr (splice mem offset (pkt.take pktTotalLen), offset + pktTotalLen))
  else pure (.inl (some { mem := mem, curBufPos := 0 }))

/-- The loop is its rounds. -/
theorem processLoop_succ : processLoop touch process (fuel + 1) mem len offset =
    processRound touch process mem len offset >>= fun r =>
      match r with
      | .inl res => pure res
      | .inr x => processLoop touch process fuel x.1 len x.2 := by
  funext s
  conv_lhs => unfold processLoop
  unfold processRound
  simp only [bind_apply]
  cases touch s with
  | error e => rfl
  | ok p =>
      simp only
      by_cases hlt : offset < len
      · simp only [if_pos hlt]
        cases remainLength (shift mem offset) (len - offset) with
        | needMoreData =>
            by_cases h0 : offset ≠ 0
            · simp only [if_pos h0]
              rfl
            · simp only [if_neg h0]
              rfl
        | failture => rfl
        | length value bytes =>
            simp only [bind_apply]
            cases process (slice mem offset (value + bytes + 1)) p.2 with
            | error e => rfl
            | ok q =>
                by_cases hres : q.1.1 < 0
                · simp only [if_pos hres]
                  rfl
                · simp only [if_neg hres]
                  rfl
      · simp only [if_neg hlt]
        rfl

/-- What a round that goes on has done. -/
theorem processRound_inr (h : processRound touch process mem len offset s = .ok (.inr (mem', offset'), s')) :
    ∃ s₁ value bytes res pkt, touch s = .ok ((), s₁) ∧ offset < len ∧
      remainLength (shift mem offset) (len - offset) = .length value bytes ∧
      process (slice mem offset (value + bytes + 1)) s₁ = .ok ((res, pkt), s') ∧ 0 ≤ res ∧
      mem' = splice mem offset (pkt.take (value + bytes + 1)) ∧ offset' = offset + (value + bytes + 1) := by
  unfold processRound at h
  rw [bind_ok] at h
  obtain ⟨_, s₁, ht, h⟩ := h
  by_cases hlt : offset < len
  · rw [if_pos hlt] at h
    cases hr : remainLength (shift mem offset) (len - offset) with
    | needMoreData =>
        simp only [hr] at h
        split at h <;> cases h
    | failture =>
        simp only [hr] at h
        cases h
    | length value bytes =>
        simp only [hr, bind_ok] at h
        obtain ⟨⟨res, pkt⟩, s₂, hp, h⟩ := h
        by_cases hres : res < 0
        · rw [if_pos hres] at h
          cases h
        · rw [if_neg hres] at h
          cases h
          exact ⟨s₁, value, bytes, res, pkt, ht, hlt, rfl, hp, by omega, rfl, rfl⟩
  · rw [if_neg hlt] at h
    cases h

/-- What a round that returns `0` has left in the buffer. -/
theorem processRound_inl {recv : RecvBuffer}
    (h : processRound touch process mem len offset s = .ok (.inl (some recv), s')) (ho : offset ≤ len) :
    recv.pending = slice mem offset (len - offset) ∧ recv.curBufPos = len - offset ∧
      (∀ i, len ≤ i → recv.mem i = mem i) ∧ touch s = .ok ((), s') ∧
      (offset < len → remainLength (shift mem offset) (len - offset) = .needMoreData) := by
  unfold processRound at h
  rw [bind_ok] at h
  obtain ⟨_, s₁, ht, h⟩ := h
  by_cases hlt : offset < len
  · rw [if_pos hlt] at h
    cases hr : remainLength (shift mem offset) (len - offset) with
    | needMoreData =>
        simp only [hr] at h
        by_cases h0 : offset = 0
        · rw [if_neg (not_not.mpr h0)] at h
          cases h
          subst h0
          exact ⟨rfl, rfl, fun _ _ => rfl, ht, fun _ => rfl⟩
        · rw [if_pos h0] at h
          cases h
          refine ⟨?_, rfl, fun i hi => splice_of_lt (Or.inr ?_), ht, fun _ => rfl⟩
          · have hself := slice_splice_self mem 0 (slice mem offset (len - offset))
            rw [slice_length] at hself
            exact hself
          · rw [slice_length]
            omega
    | failture =>
        simp only [hr] at h
        cases h
    | length value bytes =>
        simp only [hr, bind_ok] at h
        obtain ⟨⟨res, pkt⟩, s₂, hp, h⟩ := h
        split at h <;> cases h
  · rw [if_neg hlt] at h
    cases h
    obtain rfl : offset = len := Nat.le_antisymm ho (Nat.le_of_not_lt hlt)
    rw [Nat.sub_self]
    exact ⟨rfl, rfl, fun _ _ => rfl, ht, fun h => absurd h hlt⟩

/-- The loop goes on from the one point to the other. -/
def Continues (touch : Exec σ ε Unit) (process : Handler σ ε) (len : Nat) (x y : ((Nat → UInt8) × Nat) × σ) : Prop :=
  processRound touch process x.1.1 len x.1.2 x.2 = .ok (.inr y.1, y.2)

/-- **The loop ends**: there is no endless chain of rounds. -/
theorem continues_wellFounded (touch : Exec σ ε Unit) (process : Handler σ ε) (len : Nat) :
    WellFounded fun y x => Continues touch process len x y := by
  refine Subrelation.wf (fun {y x} h => ?_) (measure fun x : ((Nat → UInt8) × Nat) × σ => len - x.1.2).wf
  obtain ⟨s₁, value, bytes, res, pkt, -, hlt, -, -, -, -, hoff⟩ := processRound_inr h
  show len - y.1.2 < len - x.1.2
  rw [hoff]
  omega

/-! ## The packets handed over -/

/-- A handler that takes down every packet it is given. -/
def recording (process : Handler σ ε) : Handler (σ × List ByteStr) ε := fun pkt => do
  modify fun p => (p.1, p.2 ++ [pkt])
  onFst (process pkt)

/-- `process_mqtt`, together with the packets it hands to `process`. -/
def processMqttPackets (touch : Exec σ ε Unit) (process : Handler σ ε) (recv : RecvBuffer) :
    Exec (σ × List ByteStr) ε (Option RecvBuffer) :=
  processMqtt (onFst touch) (recording process) recv

theorem recording_ok {pkt : ByteStr} {p p' : σ × List ByteStr} {r : Int × ByteStr} :
    recording process pkt p = .ok (r, p') ↔ process pkt p.1 = .ok (r, p'.1) ∧ p'.2 = p.2 ++ [pkt] := by
  unfold recording
  rw [modify_bind, onFst_ok]

theorem forget_recording (pkt : ByteStr) (p : σ × List ByteStr) : forget (recording process pkt p) = process pkt p.1 := by
  unfold recording
  rw [modify_bind, forget_onFst]

/-- Taking down the packets does not change the run. -/
theorem forget_processLoop (fuel : Nat) : ∀ (mem : Nat → UInt8) (len offset : Nat) (p : σ × List ByteStr),
    forget (processLoop (onFst touch) (recording process) fuel mem len offset p) =
      processLoop touch process fuel mem len offset p.1 := by
  induction fuel with
  | zero => exact fun _ _ _ _ => rfl
  | succ fuel ih =>
      intro mem len offset p
      unfold processLoop
      refine forget_bind (forget_onFst _ _) fun _ p => ?_
      by_cases hlt : offset < len
      · simp only [if_pos hlt]
        cases remainLength (shift mem offset) (len - offset) with
        | needMoreData =>
            simp only
            split <;> rfl
        | failture => rfl
        | length value bytes =>
            refine forget_bind (forget_recording _ _) fun r p => ?_
            by_cases hres : r.1 < 0
            · simp only [if_pos hres]
              rfl
            · simp only [if_neg hres]
              exact ih _ _ _ p
      · simp only [if_neg hlt]
        rfl

theorem forget_processMqttPackets (recv : RecvBuffer) (p : σ × List ByteStr) :
    forget (processMqttPackets touch process recv p) = processMqtt touch process recv p.1 :=
  forget_processLoop _ _ _ _ p

/-! ## The cut -/

/-- One complete packet: `remain_length` on its own bytes, whatever lies behind them, finds all of it. -/
def Complete (pkt : ByteStr) : Prop :=
  ∀ mem : Nat → UInt8, (∀ i < pkt.length, mem i = pkt.getD i 0) →
    ∃ value bytes, remainLength mem pkt.length = .length value bytes ∧ pkt.length = 1 + bytes + value ∧ 2 ≤ pkt.length

/-- The length that was found is enough to find it. -/
theorem remainLength_exact {n value bytes : Nat} (h : remainLength mem n = .length value bytes) :
    remainLength mem (value + bytes + 1) = .length value bytes := by
  unfold remainLength at h ⊢
  cases hs : scanLength mem maxRemainLengthBytes 0 0 with
  | mk v o =>
      cases o with
      | none =>
          rw [hs] at h
          cases h
      | some o =>
          simp only [hs] at h ⊢
          split at h
          · cases h
          · cases h
            rw [if_neg (Nat.lt_irrefl _)]

theorem complete_slice {n value bytes : Nat} (h : remainLength (shift mem offset) n = .length value bytes) :
    Complete (slice mem offset (value + bytes + 1)) := by
  intro mem' hmem
  rw [slice_length] at hmem ⊢
  have hone := (remainLength_length h).1
  refine ⟨value, bytes, remainLength_agree_length (remainLength_exact h) (fun i hi => ?_) (Nat.le_refl _), by omega, by omega⟩
  rw [hmem i hi, slice_getD mem offset _ i hi]
  rfl

/-- The bytes from an offset on are the packets, and what stays in the buffer, which is undecided. -/
structure Cut (mem : Nat → UInt8) (len offset : Nat) (pkts : List ByteStr) (recv : RecvBuffer) : Prop where
  bytes : slice mem offset (len - offset) = pkts.flatten ++ recv.pending
  complete : ∀ pkt ∈ pkts, Complete pkt
  behind : ∀ i, len ≤ i → recv.mem i = mem i
  tail_le : recv.curBufPos ≤ len - offset
  undecided : recv.curBufPos ≠ 0 → remainLength (shift mem (len - recv.curBufPos)) recv.curBufPos = .needMoreData

/-- A handler writes nothing behind its packet. -/
theorem splice_take_behind {pkt : ByteStr} {n i : Nat} (hi : offset + n ≤ i) : splice mem offset (pkt.take n) i = mem i := by
  refine splice_of_lt (Or.inr (Nat.le_trans (Nat.add_le_add_left ?_ _) hi))
  exact List.length_take_le _ _

/-- A packet in front. The handler has rewritten its bytes and no others. -/
theorem Cut.cons {value bytes : Nat} {pkt : ByteStr} {pkts : List ByteStr} {recv : RecvBuffer} (hlt : offset < len)
    (hr : remainLength (shift mem offset) (len - offset) = .length value bytes)
    (h : Cut (splice mem offset (pkt.take (value + bytes + 1))) len (offset + (value + bytes + 1)) pkts recv) :
    Cut mem len offset (slice mem offset (value + bytes + 1) :: pkts) recv := by
  have hfit := (remainLength_length hr).2
  have hsame : ∀ i, offset + (value + bytes + 1) ≤ i → splice mem offset (pkt.take (value + bytes + 1)) i = mem i :=
    fun i hi => splice_take_behind hi
  have htail := h.tail_le
  refine ⟨?_, ?_, ?_, by omega, ?_⟩
  · have hsplit : len - offset = (value + bytes + 1) + (len - (offset + (value + bytes + 1))) := by omega
    have hrest : slice mem (offset + (value + bytes + 1)) (len - (offset + (value + bytes + 1))) =
        pkts.flatten ++ recv.pending := by
      rw [← h.bytes]
      exact slice_congr fun i _ => (hsame _ (Nat.le_add_right _ _)).symm
    rw [hsplit, slice_add, hrest, List.flatten_cons, List.append_assoc]
  · intro pkt' hpkt
    rcases List.mem_cons.mp hpkt with rfl | hpkt
    · exact complete_slice hr
    · exact h.complete pkt' hpkt
  · intro i hi
    rw [h.behind i hi, hsame i (by omega)]
  · intro hne
    have hshift : shift mem (len - recv.curBufPos) =
        shift (splice mem offset (pkt.take (value + bytes + 1))) (len - recv.curBufPos) :=
      funext fun i => (hsame _ (by omega)).symm
    rw [hshift]
    exact h.undecided hne

/-- **A loop that returns `0` has cut the buffer.** -/
theorem processLoop_cut {recv : RecvBuffer} (fuel : Nat) : ∀ (mem : Nat → UInt8) (offset : Nat)
    (p p' : σ × List ByteStr), offset ≤ len →
    processLoop (onFst touch) (recording process) fuel mem len offset p = .ok (some recv, p') →
    ∃ pkts, p'.2 = p.2 ++ pkts ∧ Cut mem len offset pkts recv := by
  induction fuel with
  | zero =>
      intro mem offset p p' _ h
      cases h
  | succ fuel ih =>
      intro mem offset p p' ho h
      rw [processLoop_succ, bind_ok] at h
      obtain ⟨r, p₁, hround, h⟩ := h
      cases r with
      | inl res =>
          cases h
          obtain ⟨hpend, hpos, hbehind, ht, hneed⟩ := processRound_inl hround ho
          have hnone : ∀ pkt ∈ ([] : List ByteStr), Complete pkt := fun _ h => by cases h
          refine ⟨[], by rw [List.append_nil]; exact (onFst_ok.mp ht).2, hpend.symm, hnone, hbehind,
            Nat.le_of_eq hpos, fun hne => ?_⟩
          have hoff : len - recv.curBufPos = offset := by omega
          rw [hoff, hpos]
          exact hneed (by omega)
      | inr x =>
          obtain ⟨mem', offset'⟩ := x
          obtain ⟨p₀, value, bytes, res, pkt, ht, hlt, hr, hp, -, hmem, hoff⟩ := processRound_inr hround
          have hfit := (remainLength_length hr).2
          obtain ⟨pkts, hpkts, hcut⟩ := ih mem' offset' p₁ p' (by omega) h
          rw [hmem, hoff] at hcut
          refine ⟨slice mem offset (value + bytes + 1) :: pkts, ?_, hcut.cons hlt hr⟩
          rw [hpkts, (recording_ok.mp hp).2, (onFst_ok.mp ht).2, List.append_assoc, List.singleton_append]

/-- The fuel does not matter when there is enough of it. -/
theorem processLoop_fuel : ∀ (fuel fuel' : Nat) (mem : Nat → UInt8) (offset : Nat), len - offset < fuel →
    len - offset < fuel' →
    processLoop touch process fuel mem len offset = processLoop touch process fuel' mem len offset := by
  intro fuel
  induction fuel with
  | zero =>
      intro fuel' mem offset h
      exact absurd h (Nat.not_lt_zero _)
  | succ fuel ih =>
      intro fuel' mem offset h h'
      obtain ⟨fuel', rfl⟩ : ∃ n, fuel' = n + 1 := ⟨fuel' - 1, by omega⟩
      funext s
      rw [processLoop_succ, processLoop_succ, bind_apply, bind_apply]
      cases hround : processRound touch process mem len offset s with
      | error e => rfl
      | ok p =>
          obtain ⟨r, s'⟩ := p
          cases r with
          | inl res => rfl
          | inr x =>
              obtain ⟨mem', offset'⟩ := x
              obtain ⟨_, _, _, _, _, -, hlt, -, -, -, -, hoff⟩ := processRound_inr hround
              exact congrFun (ih fuel' mem' offset' (by omega) (by omega)) s'

/-! ## Another handler -/

theorem remainLength_congr {n : Nat} (h : ∀ i < 5, mem' i = mem i) : remainLength mem' n = remainLength mem n := by
  rw [remainLength_eq, remainLength_eq, h 1 (by decide), h 2 (by decide), h 3 (by decide), h 4 (by decide)]

/-- A packet in front is found in memory. -/
theorem Complete.found {pkt rest : ByteStr} (h : Complete pkt) (hmem : slice mem offset (len - offset) = pkt ++ rest) :
    ∃ value bytes, remainLength (shift mem offset) (len - offset) = .length value bytes ∧
      pkt.length = value + bytes + 1 ∧ slice mem offset (value + bytes + 1) = pkt := by
  have hle : pkt.length ≤ len - offset := by
    have hlen := congrArg List.length hmem
    rw [slice_length, List.length_append] at hlen
    omega
  have hpkt : slice mem offset pkt.length = pkt := by
    rw [← slice_take mem offset (len - offset) _ hle, hmem, List.take_left]
  have hbytes : ∀ i < pkt.length, shift mem offset i = pkt.getD i 0 := by
    intro i hi
    conv_rhs => rw [← hpkt]
    rw [slice_getD mem offset _ i hi]
    rfl
  obtain ⟨value, bytes, hr, hlen, -⟩ := h _ hbytes
  have htotal : pkt.length = value + bytes + 1 := by omega
  exact ⟨value, bytes, remainLength_agree_length hr (fun _ _ => rfl) hle, htotal, by rw [← htotal]; exact hpkt⟩

/-- **A handler that accepts the packets is handed the same ones**, and leaves the same tail. -/
theorem processLoop_of_cut {tail : ByteStr} (pkts : List ByteStr) : ∀ (fuel : Nat) (mem : Nat → UInt8) (offset : Nat)
    (p : σ × List ByteStr), offset ≤ len → len - offset < fuel →
    slice mem offset (len - offset) = pkts.flatten ++ tail → (∀ pkt ∈ pkts, Complete pkt) →
    (tail ≠ [] → remainLength (shift mem (len - tail.length)) tail.length = .needMoreData) →
    (∀ pkt ∈ pkts, ∀ s, ∃ r s', process pkt s = .ok (r, s') ∧ 0 ≤ r.1) →
    ∃ recv s', processLoop (onFst (pure ())) (recording process) fuel mem len offset p =
      .ok (some recv, (s', p.2 ++ pkts)) ∧ recv.pending = tail := by
  -- on the whole packets; what is behind them waits for the next read
  induction pkts with
  | nil =>
      intro fuel mem offset p ho hf hmem _ hneed _
      obtain ⟨fuel, rfl⟩ : ∃ n, fuel = n + 1 := ⟨fuel - 1, by omega⟩
      have hlen := congrArg List.length hmem
      rw [slice_length, List.flatten_nil, List.nil_append] at hlen
      rw [List.flatten_nil, List.nil_append] at hmem
      rw [List.append_nil]
      by_cases hlt : offset < len
      · have hr : remainLength (shift mem offset) (len - offset) = .needMoreData := by
          have hoff : len - tail.length = offset := by omega
          have hne : tail ≠ [] := List.ne_nil_of_length_pos (by omega)
          rw [hlen, ← hneed hne, hoff]
        refine ⟨_, p.1, processLoop_needMoreData (recording process) hlt hr, ?_⟩
        by_cases h0 : offset = 0
        · subst h0
          exact hmem
        · rw [if_pos h0]
          have hself := slice_splice_self mem 0 (slice mem offset (len - offset))
          rw [slice_length] at hself
          exact hself.trans hmem
      · refine ⟨_, p.1, processLoop_done (recording process) hlt, ?_⟩
        exact (List.eq_nil_of_length_eq_zero (by omega)).symm
  | cons pkt pkts ih =>
      intro fuel mem offset p ho hf hmem hcomplete hneed haccept
      obtain ⟨fuel, rfl⟩ : ∃ n, fuel = n + 1 := ⟨fuel - 1, by omega⟩
      rw [List.flatten_cons, List.append_assoc] at hmem
      obtain ⟨value, bytes, hr, htotal, hpkt⟩ := (hcomplete pkt List.mem_cons_self).found hmem
      have hfit := (remainLength_length hr).2
      obtain ⟨r, s₁, hp, hres⟩ := haccept pkt List.mem_cons_self p.1
      -- the handler writes into the packet it was given, never behind it
      have hsame : ∀ i, offset + (value + bytes + 1) ≤ i → splice mem offset (r.2.take (value + bytes + 1)) i = mem i :=
        fun i hi => splice_take_behind hi
      have hrest : slice mem (offset + (value + bytes + 1)) (len - (offset + (value + bytes + 1))) =
          pkts.flatten ++ tail := by
        have hdrop := slice_drop mem offset (len - offset) _ hfit
        rw [Nat.sub_sub, hmem, ← htotal, List.drop_left] at hdrop
        rw [← htotal]
        exact hdrop.symm
      have htail : tail.length ≤ len - (offset + (value + bytes + 1)) := by
        have hlen := congrArg List.length hrest
        rw [slice_length, List.length_append] at hlen
        omega
      obtain ⟨recv, s', hrun, hpend⟩ := ih fuel (splice mem offset (r.2.take (value + bytes + 1)))
        (offset + (value + bytes + 1)) (s₁, p.2 ++ [pkt]) (by omega) (by omega)
        ((slice_congr fun i _ => hsame _ (Nat.le_add_right _ _)).trans hrest)
        (fun x hx => hcomplete x (List.mem_cons_of_mem _ hx))
        (fun hne => by
          have hshift : shift (splice mem offset (r.2.take (value + bytes + 1))) (len - tail.length) =
              shift mem (len - tail.length) := funext fun i => hsame _ (by omega)
          rw [hshift]
          exact hneed hne)
        (fun x hx => haccept x (List.mem_cons_of_mem _ hx))
      have hrec : recording process pkt p = .ok (r, (s₁, p.2 ++ [pkt])) := recording_ok.mpr ⟨hp, rfl⟩
      refine ⟨recv, s', ?_, hpend⟩
      refine (processLoop_length (recording process) (by omega) hr).trans ?_
      rw [hpkt, bind_apply, hrec]
      simp only
      rw [if_neg (by omega)]
      refine hrun.trans ?_
      rw [List.append_assoc, List.singleton_append]

end Loop

/-! ## The handlers stay inside their packets -/

section Inside

variable {α β : Type} {pkt : Pkt}

/-- A read that leaves the buffer as it is. -/
def PktM.Keeps (x : PktM α) : Prop := ∀ p, (x p).2.buf = p.buf

theorem PktM.bind_inv {x : PktM α} {f : α → PktM β} {p : Pkt} {b : β} (h : ((x >>= f) p).1 = some b) :
    ∃ a, (x p).1 = some a ∧ (f a (x p).2).1 = some b := by
  cases hx : x p with
  | mk o p' =>
      cases o with
      | none =>
          rw [PktM.bind_none hx] at h
          cases h
      | some a =>
          rw [PktM.bind_some hx] at h
          exact ⟨a, rfl, h⟩

theorem PktM.keeps_bind {x : PktM α} {f : α → PktM β} (hx : x.Keeps) (hf : ∀ a, (f a).Keeps) : (x >>= f).Keeps := by
  intro p
  have hp := hx p
  cases h : x p with
  | mk o p' =>
      rw [h] at hp
      cases o with
      | none =>
          rw [PktM.bind_none h]
          exact hp
      | some a =>
          rw [PktM.bind_some h]
          exact (hf a p').trans hp

theorem PktM.keeps_readShort : PktM.readShort.Keeps := by
  intro p
  unfold PktM.readShort
  split <;> rfl

theorem PktM.keeps_readString : PktM.readString.Keeps := by
  refine PktM.keeps_bind PktM.keeps_readShort fun strLen p => ?_
  by_cases h : p.leftSize < strLen
  · rw [if_pos h]
  · rw [if_neg h]
    rfl

theorem keeps_decodeHeader : decodeHeader.Keeps := by
  refine PktM.keeps_bind (fun p => ?_) fun _ => PktM.keeps_bind (fun p => ?_) fun _ _ => rfl
  · unfold PktM.readByte
    split <;> rfl
  · unfold PktM.readRemainLength
    split
    · rfl
    · split <;> rfl

/-- The identifier a PUBLISH was decoded with lies in the packet. -/
theorem Publish.msgIdOffset_le {buf : ByteStr} {msg : Publish} (h : Publish.decode.decode buf = some msg) :
    msg.msgIdOffset + 2 ≤ buf.length := by
  obtain ⟨header, -, h⟩ := PktM.bind_inv h
  obtain ⟨topicName, -, h⟩ := PktM.bind_inv h
  obtain ⟨offset, ho, h⟩ := PktM.bind_inv h
  obtain ⟨msgId, hshort, h⟩ := PktM.bind_inv h
  obtain ⟨payload, -, h⟩ := PktM.bind_inv h
  cases h
  have hbuf : (PktM.readString (decodeHeader (Pkt.ofBuf buf)).2).2.buf = buf :=
    (PktM.keeps_readString _).trans (keeps_decodeHeader _)
  have hoff : (PktM.readString (decodeHeader (Pkt.ofBuf buf)).2).2.offset = offset := Option.some.inj ho
  unfold PktM.readShort at hshort
  split at hshort
  · cases hshort
  · rename_i hleft
    have hleft' : ¬ ((PktM.readString (decodeHeader (Pkt.ofBuf buf)).2).2.leftSize < 2) := hleft
    unfold Pkt.leftSize at hleft'
    rw [hbuf, hoff] at hleft'
    show offset + 2 ≤ buf.length
    omega

theorem Publish.rewriteMsgId_length {buf : ByteStr} {msg : Publish} (h : Publish.decode.decode buf = some msg) (id : Nat) :
    (rewriteMsgId msg buf id).length = buf.length := by
  have hle := Publish.msgIdOffset_le h
  unfold rewriteMsgId
  split
  · unfold Pkt.store
    rw [List.length_append, List.length_append, List.length_take, List.length_drop]
    simp only [List.length_cons, List.length_nil]
    omega
  · rfl

theorem keeping_length {buf : ByteStr} {x : BrokerM Int} {b b' : Broker} {r : Int × ByteStr}
    (h : keeping buf x b = .ok (r, b')) : r.2 = buf := by
  unfold keeping at h
  rw [bind_ok] at h
  obtain ⟨_, _, -, h⟩ := h
  cases h
  rfl

variable {env : Env} {k : ConnId} {b b' : Broker} {buf : ByteStr} {r : Int × ByteStr}

theorem handlePublishMsg_length (h : handlePublishMsg env k buf b = .ok (r, b')) : r.2.length = buf.length := by
  unfold handlePublishMsg at h
  rw [bind_ok] at h
  obtain ⟨c, b₁, -, h⟩ := h
  rw [get_bind] at h
  split at h
  · cases h
    rfl
  · cases hd : Publish.decode.decode buf with
    | none =>
        simp only [hd] at h
        cases h
        rfl
    | some msg =>
        simp only [hd] at h
        rw [bind_ok] at h
        obtain ⟨_, _, -, h⟩ := h
        rw [bind_ok] at h
        obtain ⟨_, _, -, h⟩ := h
        rw [bind_ok] at h
        obtain ⟨_, _, -, h⟩ := h
        rw [get_bind, bind_ok] at h
        obtain ⟨_, _, -, h⟩ := h
        cases h
        exact Publish.rewriteMsgId_length hd _

/-- **A handler leaves as many bytes as it was given**: one that wrote behind its packet would leave more. -/
theorem process_length (h : process env k buf b = .ok (r, b')) : r.2.length = buf.length := by
  unfold process at h
  cases ht : packetType buf with
  | publish =>
      simp only [ht] at h
      exact handlePublishMsg_length h
  | connect | puback | subscribe | unsubscribe | pingreq | disconnect =>
      simp only [ht] at h
      rw [keeping_length h]
  | _ =>
      simp only [ht] at h
      cases h
      rfl

end Inside

/-! ## Both loops -/

/-- The handler of the bridge client accepts the packet. -/
def TCPClient.Succeeds (topic pkt : ByteStr) : Prop :=
  ∀ out r out', TCPClient.processMqtt topic pkt out = .ok (r, out') → 0 ≤ r.1

theorem TCPClient.Succeeds.run {topic pkt : ByteStr} (h : TCPClient.Succeeds topic pkt) (out : BridgeOut) :
    ∃ r out', TCPClient.processMqtt topic pkt out = .ok (r, out') ∧ 0 ≤ r.1 := by
  cases hp : TCPClient.processMqtt topic pkt out with
  | ok x => exact ⟨x.1, x.2, rfl, h out x.1 x.2 hp⟩
  | error e => exact e.1.elim

/-- **Both loops partition the buffer.** The loop ends, and with the rounds it is given here; no handler writes
    outside its packet; when the loop returns `0` the packets and the tail are the bytes; and the loop of the bridge
    client, on the bytes both loops read, makes the same of them when its handlers accept the packets. -/
theorem processMqtt_partitions (env : Env) (k : ConnId) (recv : RecvBuffer) :
    (WellFounded fun y x => Continues (touch k) (process env k) recv.curBufPos x y) ∧
    (∀ fuel, recv.curBufPos < fuel →
      processLoop (touch k) (process env k) fuel recv.mem recv.curBufPos 0 =
        processMqtt (touch k) (process env k) recv) ∧
    (∀ pkt b r b', process env k pkt b = .ok (r, b') → r.2.length = pkt.length) ∧
    ∀ b b' pkts recv',
      processMqttPackets (touch k) (process env k) recv (b, []) = .ok (some recv', (b', pkts)) →
      recv.pending = pkts.flatten ++ recv'.pending ∧ (∀ pkt ∈ pkts, Complete pkt) ∧
      (∀ i, recv.curBufPos ≤ i → recv'.mem i = recv.mem i) ∧
      ∀ topic out mem, (∀ i < recv.curBufPos + 4, mem i = recv.mem i) → (∀ pkt ∈ pkts, TCPClient.Succeeds topic pkt) →
        ∃ recv'' out', processMqttPackets (pure ()) (TCPClient.processMqtt topic) { recv with mem } (out, []) =
          .ok (some recv'', (out', pkts)) ∧ recv''.pending = recv'.pending := by
  refine ⟨continues_wellFounded _ _ _, fun fuel hf => processLoop_fuel _ _ _ _ hf (Nat.lt_succ_self _),
    fun pkt b r b' h => process_length h, fun b b' pkts recv' h => ?_⟩
  obtain ⟨pkts', hpkts, hcut⟩ := processLoop_cut _ _ _ _ _ (Nat.zero_le _) h
  rw [List.nil_append] at hpkts
  have hpkts' : pkts = pkts' := hpkts
  subst hpkts'
  refine ⟨hcut.bytes, hcut.complete, hcut.behind, fun topic out mem hmem hsucc => ?_⟩
  have hlen : recv'.pending.length = recv'.curBufPos := slice_length _ _ _
  have hle := hcut.tail_le
  refine processLoop_of_cut pkts _ mem 0 (out, []) (Nat.zero_le _) (Nat.lt_succ_self _) ?_ hcut.complete ?_ ?_
  · rw [← hcut.bytes]
    refine slice_congr fun i hi => hmem _ ?_
    have hi' : i < recv.curBufPos := hi
    omega
  · intro hne
    have hpos : recv'.curBufPos ≠ 0 := by
      rw [← hlen]
      exact fun h0 => hne (List.eq_nil_of_length_eq_zero h0)
    rw [hlen, ← hcut.undecided hpos]
    refine remainLength_congr fun i hi => hmem _ ?_
    -- `remain_length` looks at four bytes, also behind what has been received
    show recv.curBufPos - recv'.curBufPos + i < recv.curBufPos + 4
    omega
  · exact fun pkt hpkt s => (hsucc pkt hpkt).run s

/-- Two PUBLISH packets and the first byte of a third one. -/
def twoAndTail : RecvBuffer :=
  RecvBuffer.append { mem := fun _ => 0, curBufPos := 0 } (publishPacket 116 1 ++ publishPacket 116 2 ++ [0x32])

/-- A publisher with that buffer: both loops cut off the two packets and keep the byte. -/
theorem processMqtt_partitions_publish : ∃ (m : Machine) (b' : Broker) (recv' : RecvBuffer),
    Reach Env.calm packing m ∧
    processMqttPackets (touch 0) (process Env.calm 0) twoAndTail (m.broker, []) =
      .ok (some recv', (b', [publishPacket 116 1, publishPacket 116 2])) ∧
    twoAndTail.pending = [publishPacket 116 1, publishPacket 116 2].flatten ++ recv'.pending ∧
    ∃ recv'' out', processMqttPackets (pure ()) (TCPClient.processMqtt [116]) twoAndTail ({}, []) =
      .ok (some recv'', (out', [publishPacket 116 1, publishPacket 116 2])) ∧ recv''.pending = recv'.pending := by
  have hrun : (Machine.initial.play Env.calm packing
      (Move.alone 1 .accept ++ Move.alone 2 (.input 0 (connectPacket 65 2)))).any (fun m => decide (
        ((processMqttPackets (touch 0) (process Env.calm 0) twoAndTail (m.broker, [])).toOption.any fun r =>
          r.1.isSome && decide (r.2.2 = [publishPacket 116 1, publishPacket 116 2])) = true)) = true := by
    decide +kernel
  obtain ⟨m, hm, hloop⟩ := Machine.exists_reach hrun
  obtain ⟨r, hr, hres⟩ := (Option.any_eq_true _ _).mp hloop
  obtain ⟨res, b', pkts⟩ := r
  rw [Bool.and_eq_true, decide_eq_true_iff] at hres
  obtain ⟨recv', hrecv⟩ := Option.isSome_iff_exists.mp hres.1
  have hpkts : pkts = [publishPacket 116 1, publishPacket 116 2] := hres.2
  have hres' : res = some recv' := hrecv
  subst hpkts hres'
  have hok := ok_of_toOption hr
  obtain ⟨-, -, -, hpart⟩ := processMqtt_partitions Env.calm 0 twoAndTail
  obtain ⟨hbytes, -, -, hclient⟩ := hpart _ _ _ _ hok
  refine ⟨m, b', recv', hm, hok, hbytes, hclient [116] {} twoAndTail.mem (fun _ _ => rfl) fun pkt hpkt => ?_⟩
  rcases List.mem_cons.mp hpkt with rfl | hpkt
  · intro out r out' h
    cases h
    decide
  · rw [List.mem_singleton.mp hpkt]
    intro out r out' h
    cases h
    decide

end MqttServer
