import MqttServer.Reactor.EventHandler

/-!
# `Reactor.WriteN` — the blocking writers

`CEventHandler::write_n`, `TCPClient::write_n` and the free `write_n` are three copies of one loop. It counts the remaining
length down and never advances the pointer, so every `::write` offers the buffer from its start. The socket is modelled by the
positions of the buffer whose bytes it took, in order: a buffer is sent when these are `0, …, len - 1`.

A partial write is followed by a second one that starts over: what is sent is the buffer exactly when the first write that
takes anything takes everything (`writeN_sends_iff`).
-/

namespace MqttServer

/-- How a call of `write_n` ends: with the value it returns on success, with `-1`, or not within the writes that were
    made. -/
inductive WriteRes where
  | success (res : Int)
  | failure
  | writing
deriving DecidableEq, Repr

/-- The loop of `write_n` with `len` bytes to go, over the outcomes of its `::write` calls, and the positions sent. -/
def writeNLoop (res : Int) : (len : Nat) → List WriteCall → WriteRes × List Nat
  | 0, _ => (.success res, [])
  | _ + 1, [] => (.writing, [])
  | len + 1, w :: calls =>
      match w.out with
      | .failed _ => if w.errnoAfter.blocking then writeNLoop res (len + 1) calls else (.failure, [])
      | .wrote _ =>
          let taken := w.taken (len + 1)
          if taken = 0 then writeNLoop res (len + 1) calls
          else
            let (end', sent) := writeNLoop res (len + 1 - taken) calls
            (end', List.range taken ++ sent)

/-- The conversion of an unsigned or a wider value to `int`. -/
def toInt32 (n : Nat) : Int := Int.bmod n (2 ^ 32)

theorem toInt32_small {n : Nat} (h : n < 2 ^ 31) : toInt32 n = n := by
  unfold toInt32 Int.bmod
  norm_num at h ⊢
  omega

theorem toInt32_large {n : Nat} (h : 2 ^ 31 ≤ n) (h' : n < 2 ^ 32) : toInt32 n = (n : Int) - 2 ^ 32 := by
  unfold toInt32 Int.bmod
  norm_num at h h' ⊢
  omega

/-- `CEventHandler::write_n`. -/
def EventHandler.writeN (len : Nat) (calls : List WriteCall) : WriteRes × List Nat := writeNLoop (toInt32 len) len calls

/-- `TCPClient::write_n`. -/
def TCPClient.writeN (len : Nat) (calls : List WriteCall) : WriteRes × List Nat := writeNLoop 0 len calls

/-- The free `write_n`. -/
def writeN (len : Nat) (calls : List WriteCall) : WriteRes × List Nat := writeNLoop (toInt32 len) len calls

/-- **The buffer is sent exactly**: on success the bytes taken are those of the buffer, in order and each once. -/
def SendsExactly (out : WriteRes × List Nat) (len : Nat) : Prop :=
  ∀ res, out.1 = .success res → out.2 = List.range len

/-- What the socket is ready to take before the first error: the counts of the writes that take something. -/
def offers : List WriteCall → List Nat
  | [] => []
  | w :: calls =>
      match w.out with
      | .failed e => if e.blocking then offers calls else []
      | .wrote n => if min n maxRwCount = 0 then offers calls else min n maxRwCount :: offers calls

variable {res : Int} {len : Nat} {w : WriteCall} {calls : List WriteCall}

/-- One round of the loop: the call takes nothing and is repeated, fails, or takes some bytes. -/
theorem writeNLoop_cases (res : Int) (len : Nat) (w : WriteCall) (calls : List WriteCall) :
    writeNLoop res (len + 1) (w :: calls) = writeNLoop res (len + 1) calls ∧ offers (w :: calls) = offers calls ∨
    writeNLoop res (len + 1) (w :: calls) = (.failure, []) ∧ offers (w :: calls) = [] ∨
    ∃ n, 0 < n ∧ offers (w :: calls) = n :: offers calls ∧ writeNLoop res (len + 1) (w :: calls) =
      ((writeNLoop res (len + 1 - min n (len + 1)) calls).1,
        List.range (min n (len + 1)) ++ (writeNLoop res (len + 1 - min n (len + 1)) calls).2) := by
  cases hout : w.out with
  | failed e =>
      have hafter : w.errnoAfter = e := by
        unfold WriteCall.errnoAfter
        rw [hout]
      have hloop : writeNLoop res (len + 1) (w :: calls) =
          if e.blocking then writeNLoop res (len + 1) calls else (.failure, []) := by
        rw [writeNLoop]
        simp only [hout, hafter]
      have hoffers : offers (w :: calls) = if e.blocking then offers calls else [] := by
        rw [offers]
        simp only [hout]
      rw [hloop, hoffers]
      by_cases hblocking : e.blocking = true
      · rw [if_pos hblocking, if_pos hblocking]
        exact Or.inl ⟨rfl, rfl⟩
      · rw [if_neg hblocking, if_neg hblocking]
        exact Or.inr (Or.inl ⟨rfl, rfl⟩)
  | wrote n =>
      have htaken : w.taken (len + 1) = min (min n maxRwCount) (len + 1) := by
        unfold WriteCall.taken
        rw [hout]
        show min (min n (len + 1)) maxRwCount = _
        rw [Nat.min_assoc, Nat.min_comm (len + 1), ← Nat.min_assoc]
      have hoffers : offers (w :: calls) =
          if min n maxRwCount = 0 then offers calls else min n maxRwCount :: offers calls := by
        rw [offers]
        simp only [hout]
      rw [hoffers, writeNLoop]
      simp only [hout, htaken]
      by_cases hzero : min n maxRwCount = 0
      · rw [if_pos hzero, if_pos (by omega)]
        exact Or.inl ⟨rfl, rfl⟩
      · rw [if_neg hzero, if_neg (by omega)]
        exact Or.inr (Or.inr ⟨_, Nat.pos_of_ne_zero hzero, rfl, rfl⟩)

/-- **Success** is reached when enough bytes are taken before the first error. -/
theorem writeNLoop_success (res : Int) (calls : List WriteCall) :
    ∀ len, (writeNLoop res len calls).1 = .success res ↔ len ≤ (offers calls).sum := by
  induction calls with
  | nil =>
      intro len
      cases len with
      | zero => exact ⟨fun _ => Nat.le_refl 0, fun _ => rfl⟩
      | succ len => exact ⟨(fun h => by cases h), fun h => absurd h (by simp [offers])⟩
  | cons w calls ih =>
      intro len
      cases len with
      | zero => exact ⟨fun _ => Nat.zero_le _, fun _ => by rw [writeNLoop]⟩
      | succ len =>
          rcases writeNLoop_cases res len w calls with ⟨hloop, hoffers⟩ | ⟨hloop, hoffers⟩ | ⟨n, hn, hoffers, hloop⟩
          · rw [hloop, hoffers]
            exact ih (len + 1)
          · rw [hloop, hoffers]
            exact ⟨(fun h => by cases h), fun h => absurd h (by simp)⟩
          · -- the length goes down by what was taken, whatever position it was taken from
            rw [hloop, hoffers, List.sum_cons]
            refine (ih _).trans ?_
            omega

/-- No other value is returned. -/
theorem writeNLoop_res (calls : List WriteCall) :
    ∀ len r, (writeNLoop res len calls).1 = .success r → r = res := by
  induction calls with
  | nil =>
      intro len r h
      cases len with
      | zero =>
          cases h
          rfl
      | succ len => cases h
  | cons w calls ih =>
      intro len r h
      cases len with
      | zero =>
          rw [writeNLoop] at h
          cases h
          rfl
      | succ len =>
          rcases writeNLoop_cases res len w calls with ⟨hloop, -⟩ | ⟨hloop, -⟩ | ⟨n, -, -, hloop⟩
          · rw [hloop] at h
            exact ih _ _ h
          · rw [hloop] at h
            cases h
          · rw [hloop] at h
            exact ih _ _ h

/-- **Every success sends the first byte**, because every write starts there. -/
theorem writeNLoop_first (calls : List WriteCall) :
    ∀ len, 0 < len → (writeNLoop res len calls).1 = .success res → 0 ∈ (writeNLoop res len calls).2 := by
  induction calls with
  | nil =>
      intro len hlen h
      obtain ⟨len, rfl⟩ := Nat.exists_eq_add_of_lt hlen
      cases h
  | cons w calls ih =>
      intro len hlen h
      obtain ⟨len, rfl⟩ := Nat.exists_eq_add_of_lt hlen
      rw [Nat.zero_add] at hlen h ⊢
      rcases writeNLoop_cases res len w calls with ⟨hloop, -⟩ | ⟨hloop, -⟩ | ⟨n, hn, -, hloop⟩
      · rw [hloop] at h ⊢
        exact ih _ hlen h
      · rw [hloop] at h
        cases h
      · rw [hloop]
        apply List.mem_append_left
        rw [List.mem_range]
        omega

/-- **When the loop sends the buffer exactly**: the first write that takes anything takes everything, or the writes before
    the first error do not take enough for a success. -/
theorem writeNLoop_sends_iff (res : Int) (calls : List WriteCall) (len : Nat) :
    SendsExactly (writeNLoop res len calls) len ↔ len ≤ (offers calls).headD 0 ∨ (offers calls).sum < len := by
  induction calls with
  | nil =>
      cases len with
      | zero => exact ⟨fun _ => Or.inl (Nat.zero_le _), fun _ _ _ => rfl⟩
      | succ len => exact ⟨fun _ => Or.inr (Nat.succ_pos _), (fun _ _ h => by cases h)⟩
  | cons w calls ih =>
      cases len with
      | zero =>
          refine ⟨fun _ => Or.inl (Nat.zero_le _), fun _ _ _ => ?_⟩
          rw [writeNLoop]
          rfl
      | succ len =>
          rcases writeNLoop_cases res len w calls with ⟨hloop, hoffers⟩ | ⟨hloop, hoffers⟩ | ⟨n, hn, hoffers, hloop⟩
          · rw [hloop, hoffers]
            exact ih
          · rw [hloop, hoffers]
            exact ⟨fun _ => Or.inr (Nat.succ_pos _), (fun _ _ h => by cases h)⟩
          · rw [hloop, hoffers, List.headD_cons, List.sum_cons]
            have hsuccess := writeNLoop_success res calls (len + 1 - min n (len + 1))
            constructor
            · intro h
              by_contra hcond
              obtain ⟨hlt, hsum⟩ := not_or.mp hcond
              have hres := hsuccess.mpr (by omega)
              have hfirst := writeNLoop_first calls _ (by omega) hres
              have hrange : List.range (min n (len + 1)) ++ _ = List.range (len + 1) := h res hres
              -- the second write starts over: position 0 is sent twice
              have hnodup := List.nodup_range (n := len + 1)
              rw [← hrange] at hnodup
              exact (List.nodup_append.mp hnodup).2.2 0 (List.mem_range.mpr (by omega)) 0 hfirst rfl
            · -- one write took everything, or there is no success to speak of
              rintro (hle | hlt) r hr
              · rw [Nat.min_eq_right hle, Nat.sub_self]
                show List.range (len + 1) ++ (writeNLoop res 0 calls).2 = _
                rw [writeNLoop, List.append_nil]
              · have hval := writeNLoop_res calls _ _ hr
                rw [hval] at hr
                have hle := hsuccess.mp hr
                omega

/-- **When the three writers send the buffer exactly.** -/
theorem writeN_sends_iff (len : Nat) (calls : List WriteCall) :
    (SendsExactly (EventHandler.writeN len calls) len ↔ len ≤ (offers calls).headD 0 ∨ (offers calls).sum < len) ∧
    (SendsExactly (TCPClient.writeN len calls) len ↔ len ≤ (offers calls).headD 0 ∨ (offers calls).sum < len) ∧
    (SendsExactly (writeN len calls) len ↔ len ≤ (offers calls).headD 0 ∨ (offers calls).sum < len) :=
  ⟨writeNLoop_sends_iff _ calls len, writeNLoop_sends_iff _ calls len, writeNLoop_sends_iff _ calls len⟩

/-- Two bytes in two writes: the first byte is sent twice. -/
theorem writeN_sends_twice :
    let calls : List WriteCall := [⟨.none, .wrote 1⟩, ⟨.none, .wrote 1⟩]
    EventHandler.writeN 2 calls = (.success 2, [0, 0]) ∧ TCPClient.writeN 2 calls = (.success 0, [0, 0]) ∧
    writeN 2 calls = (.success 2, [0, 0]) ∧ ¬ SendsExactly (EventHandler.writeN 2 calls) 2 ∧
    ¬ SendsExactly (TCPClient.writeN 2 calls) 2 ∧ ¬ SendsExactly (writeN 2 calls) 2 := by
  refine ⟨by decide, by decide, by decide, fun h => ?_, fun h => ?_, fun h => ?_⟩
  · exact absurd (h 2 (by decide)) (by decide)
  · exact absurd (h 0 (by decide)) (by decide)
  · exact absurd (h 2 (by decide)) (by decide)

end MqttServer
