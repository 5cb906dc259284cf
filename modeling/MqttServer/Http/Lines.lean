import Mathlib.Data.List.Basic
import MqttServer.Http.Cuts

/-!
# `Http.Lines` — requests as lines, lines as pieces

`parse_headers` walks over its text with `strtok_r`, and `split` over a line with `find_first_of`; both throw empty pieces away.
Here the text is the list of its lines that are not blank (`linesOf`), on which `parse_headers` is the request line followed by
a fold over the other lines (`parseHeaders_lines`), and a line made of pieces that are free of the separator is split into
these pieces (`split_intercalate`), as long as the limit allows.
-/

namespace MqttServer

open StrTools

/-! ## Lines -/

/-- A token as a line: nothing when it is blank. -/
def lineOf (token : ByteStr) : List ByteStr := if trim token = [] then [] else [trim token]

/-- The lines of a text that are not blank, without the white space around them. -/
def linesOf (s : ByteStr) : List ByteStr := (s.splitOn newline).flatMap lineOf

theorem linesOf_append {token rest : ByteStr} (h : newline ∉ token) :
    linesOf (token ++ newline :: rest) = lineOf token ++ linesOf rest := by
  unfold linesOf
  rw [List.splitOn_append_cons_self_of_not_mem h, List.flatMap_cons]

theorem linesOf_last {token : ByteStr} (h : newline ∉ token) : linesOf token = lineOf token := by
  unfold linesOf
  rw [List.splitOn_eq_singleton h, List.flatMap_cons, List.flatMap_nil, List.append_nil]

theorem linesOf_newline (s : ByteStr) : linesOf (newline :: s) = linesOf s := by
  have h : linesOf ([] ++ newline :: s) = lineOf [] ++ linesOf s := linesOf_append List.not_mem_nil
  rwa [List.nil_append] at h

/-- **One `strtok_r`** takes one line off, if there is one, or skips a blank one. -/
theorem strtokR_cases (s : ByteStr) : strtokR s = none ∧ linesOf s = [] ∨
    ∃ token rest, strtokR s = some (token, rest) ∧ linesOf s = lineOf token ++ linesOf rest := by
  induction s with
  | nil => exact Or.inl ⟨rfl, rfl⟩
  | cons c s ih =>
      by_cases hc : c = newline
      · subst hc
        have hstrtok : strtokR (newline :: s) = strtokR s := by
          unfold strtokR
          rw [List.dropWhile_cons_of_pos (by simp)]
        rw [hstrtok, linesOf_newline]
        exact ih
      · right
        have hstart : (c :: s).dropWhile (· = newline) = c :: s := List.dropWhile_cons_of_neg (by simpa using hc)
        refine ⟨(c :: s).takeWhile (· ≠ newline), ((c :: s).dropWhile (· ≠ newline)).drop 1, ?_, ?_⟩
        · unfold strtokR
          rw [hstart]
        · have hfree : newline ∉ (c :: s).takeWhile (· ≠ newline) := by
            intro hmem
            simpa using List.mem_takeWhile_imp hmem
          have hcat := List.takeWhile_append_dropWhile (p := (· ≠ newline)) (l := c :: s)
          have hhead := List.head?_dropWhile_not (· ≠ newline) (c :: s)
          generalize (c :: s).takeWhile (· ≠ newline) = token at hfree hcat ⊢
          generalize (c :: s).dropWhile (· ≠ newline) = rest at hcat hhead ⊢
          rw [← hcat]
          cases rest with
          | nil =>
              rw [List.append_nil, linesOf_last hfree]
              exact (List.append_nil _).symm
          | cons c' rest =>
              have hc' : c' = newline := by simpa using hhead
              rw [hc', linesOf_append hfree]
              rfl

/-! ## `parse_headers` -/

/-- The lines behind the request line. -/
def parseRest (res : Int) (req : HTTPRequest) (lines : List ByteStr) : Except HttpFault (Int × HTTPRequest) :=
  (lines.foldlM headerLine req).map fun req => (res, req)

/-- What `parse_headers` does with the lines of a request. -/
def parseLines (res : Int) (req : HTTPRequest) : List ByteStr → Except HttpFault (Int × HTTPRequest)
  | [] => .ok (res, req)
  | line :: lines =>
      match requestLine req line with
      | .error e => .error e
      | .ok none => .ok (-1, req)
      | .ok (some req) => parseRest res req lines

/-- The result and the request of a parse. -/
def Parsed.outcome (p : Parsed) : Int × HTTPRequest := (p.res, p.req)

/-- The loop of `parse_headers` behind the request line. -/
theorem parseLoop_rest (fuel : Nat) : ∀ (st : Parsed) (s : ByteStr), s.length ≤ fuel →
    (parseLoop fuel true st s).map Parsed.outcome = parseRest st.res st.req (linesOf s) := by
  induction fuel with
  | zero =>
      intro st s hs
      rw [List.length_eq_zero_iff.mp (Nat.le_zero.mp hs)]
      rfl
  | succ fuel ih =>
      intro st s hs
      rcases strtokR_cases s with ⟨hnone, hlines⟩ | ⟨token, rest, hsome, hlines⟩
      · rw [parseLoop, hnone, hlines]
        rfl
      · have hlen := (strtokR_length hsome).2
        rw [parseLoop, hsome, hlines]
        unfold lineOf
        simp only
        by_cases hblank : trim token = []
        · rw [if_pos hblank, if_pos hblank, List.nil_append]
          exact ih _ _ (by omega)
        · rw [if_neg hblank, if_neg hblank, if_pos trivial]
          unfold parseRest
          rw [List.singleton_append, List.foldlM_cons]
          cases hline : headerLine st.req (trim token) with
          | error e => rfl
          | ok req => exact ih { st with req, tokens := st.tokens + 1 } rest (by omega)

/-- The loop of `parse_headers`. -/
theorem parseLoop_lines (fuel : Nat) : ∀ (st : Parsed) (s : ByteStr), s.length ≤ fuel →
    (parseLoop fuel false st s).map Parsed.outcome = parseLines st.res st.req (linesOf s) := by
  induction fuel with
  | zero =>
      intro st s hs
      rw [List.length_eq_zero_iff.mp (Nat.le_zero.mp hs)]
      rfl
  | succ fuel ih =>
      intro st s hs
      rcases strtokR_cases s with ⟨hnone, hlines⟩ | ⟨token, rest, hsome, hlines⟩
      · rw [parseLoop, hnone, hlines]
        rfl
      · have hlen := (strtokR_length hsome).2
        rw [parseLoop, hsome, hlines]
        unfold lineOf
        simp only
        by_cases hblank : trim token = []
        · rw [if_pos hblank, if_pos hblank, List.nil_append]
          exact ih _ _ (by omega)
        · rw [if_neg hblank, if_neg hblank, if_neg Bool.false_ne_true, List.singleton_append, parseLines]
          cases hline : requestLine st.req (trim token) with
          | error e => rfl
          | ok req? =>
              cases req? with
              | none => rfl
              | some req => exact parseLoop_rest fuel { st with req, tokens := st.tokens + 1 } rest (by omega)

/-- **`parse_headers` on lines.** -/
theorem parseHeaders_lines (s : ByteStr) : (parseHeaders s).map Parsed.outcome = parseLines 0 {} (linesOf s) :=
  parseLoop_lines s.length _ s (Nat.le_refl _)

/-! ## Pieces -/

namespace StrTools

/-- A string without blanks keeps all of it. -/
theorem removeSpace_free {str : ByteStr} (hne : str ≠ []) (hfree : ∀ c ∈ str, c ≠ 0x20) : removeSpace str = some str := by
  have hall : ¬ str.all (· = 0x20) = true := by
    intro hall
    obtain ⟨c, hc⟩ := List.exists_mem_of_ne_nil _ hne
    exact hfree c hc (of_decide_eq_true (List.all_eq_true.mp hall c hc))
  have hdrop : str.dropWhile (· = 0x20) = str := by
    cases str with
    | nil => rfl
    | cons c str => exact List.dropWhile_cons_of_neg (by simpa using hfree c List.mem_cons_self)
  unfold removeSpace
  rw [if_neg hall, hdrop, List.rdropWhile_eq_self_iff.mpr]
  intro hne'
  simpa using hfree _ (List.getLast_mem hne')

variable {separator : ByteStr} {max : Int} {c : UInt8}

/-- A string without a separator is left alone. -/
theorem splitLoop_free {str : ByteStr} (h : ∀ x ∈ str, x ∉ separator) (fuel : Nat) (i : Int) :
    splitLoop separator max fuel i str = ([], str) := by
  cases fuel with
  | zero => rfl
  | succ fuel =>
      have hnone : ¬ str.any (· ∈ separator) = true := by simpa using h
      rw [splitLoop, if_neg hnone]

/-- One round takes off what stands before the first separator. -/
theorem splitLoop_round {piece : ByteStr} (hpiece : piece ≠ []) (hfree : ∀ x ∈ piece, x ∉ separator) (hc : c ∈ separator)
    (fuel : Nat) (i : Int) (rest : ByteStr) : splitLoop separator max (fuel + 1) i (piece ++ c :: rest) =
      if max > -1 ∧ i + 1 = max then ([piece], rest)
      else (piece :: (splitLoop separator max fuel (i + 1) rest).1, (splitLoop separator max fuel (i + 1) rest).2) := by
  have hany : (piece ++ c :: rest).any (· ∈ separator) = true := by simp [hc]
  have hfound : (piece ++ c :: rest).findIdx (· ∈ separator) = piece.length := by
    rw [List.findIdx_append, if_neg, List.findIdx_cons]
    · simp [hc]
    · rw [List.findIdx_lt_length]
      rintro ⟨x, hx, hin⟩
      exact hfree x hx (by simpa using hin)
  have hpos : piece.length > 0 := List.length_pos_iff.mpr hpiece
  rw [splitLoop, if_pos hany]
  simp only [hfound, if_pos hpos]
  rw [List.take_left, List.drop_append, List.drop_of_length_le (by omega), List.nil_append, Nat.add_sub_cancel_left]
  rfl

/-- Pieces that a separator can stand between. -/
def Pieces (separator : ByteStr) (ps : List ByteStr) : Prop := ∀ p ∈ ps, p ≠ [] ∧ ∀ x ∈ p, x ∉ separator

theorem splitLoop_intercalate (hc : c ∈ separator) (ps : List ByteStr) : ∀ (p : ByteStr) (fuel : Nat) (i : Int),
    Pieces separator (p :: ps) → ([c].intercalate (p :: ps)).length ≤ fuel → (max = -1 ∨ i + ps.length ≤ max) →
    (splitLoop separator max fuel i ([c].intercalate (p :: ps))).1 ++
        [(splitLoop separator max fuel i ([c].intercalate (p :: ps))).2] = p :: ps ∧
      (splitLoop separator max fuel i ([c].intercalate (p :: ps))).2 ≠ [] := by
  induction ps with
  | nil =>
      intro p fuel i hps _ _
      obtain ⟨hp, hfree⟩ := hps p List.mem_cons_self
      rw [List.intercalate_singleton, splitLoop_free hfree]
      exact ⟨rfl, hp⟩
  | cons q ps ih =>
      intro p fuel i hps hfuel hmax
      obtain ⟨hp, hfree⟩ := hps p List.mem_cons_self
      have hq := hps q (List.mem_cons_of_mem _ List.mem_cons_self)
      have hrest : Pieces separator (q :: ps) := fun r hr => hps r (List.mem_cons_of_mem _ hr)
      rw [List.intercalate_cons_cons, List.append_assoc, List.singleton_append] at hfuel ⊢
      rw [List.length_append, List.length_cons] at hfuel
      rw [List.length_cons] at hmax
      obtain ⟨fuel, rfl⟩ := Nat.exists_eq_add_of_le' (Nat.le_trans (Nat.le_add_left 1 _) (Nat.le_trans (Nat.le_add_left _ _) hfuel))
      rw [splitLoop_round hp hfree hc]
      by_cases hlast : max > -1 ∧ i + 1 = max
      · -- the limit is reached with one piece to go
        have hnil : ps = [] := List.length_eq_zero_iff.mp (by omega)
        rw [if_pos hlast, hnil, List.intercalate_singleton]
        exact ⟨rfl, hq.1⟩
      · rw [if_neg hlast]
        obtain ⟨hall, hne⟩ := ih q fuel (i + 1) hrest (by omega) (by omega)
        exact ⟨congrArg (p :: ·) hall, hne⟩

/-- **A line of pieces is split into its pieces**, when the limit is not below the number of separators. -/
theorem split_intercalate (hc : c ∈ separator) {ps : List ByteStr} (hne : ps ≠ []) (hps : Pieces separator ps)
    (hmax : max = -1 ∨ (ps.length : Int) ≤ max + 1) : split ([c].intercalate ps) separator max = ps := by
  obtain ⟨p, ps, rfl⟩ := List.exists_cons_of_ne_nil hne
  rw [List.length_cons] at hmax
  have hlimit : max = -1 ∨ 0 + (ps.length : Int) ≤ max := by omega
  obtain ⟨hall, hlast⟩ := splitLoop_intercalate hc ps p _ 0 hps (Nat.le_refl _) hlimit
  unfold split
  simp only
  rw [if_pos (List.length_pos_iff.mpr hlast)]
  exact hall

theorem splitLoop_limit (hc : c ∈ separator) (rest : ByteStr) (ps : List ByteStr) : ∀ (p : ByteStr) (fuel : Nat) (i : Int),
    Pieces separator (p :: ps) → ps.length < fuel → -1 ≤ i → i + (ps.length + 1) = max →
    splitLoop separator max fuel i ((p :: ps).foldr (fun p s => p ++ c :: s) rest) = (p :: ps, rest) := by
  induction ps with
  | nil =>
      intro p fuel i hps hfuel hi hmax
      obtain ⟨hp, hfree⟩ := hps p List.mem_cons_self
      rw [List.length_nil] at hfuel hmax
      obtain ⟨fuel, rfl⟩ := Nat.exists_eq_add_of_le' (Nat.succ_le_of_lt hfuel)
      rw [List.foldr_cons, List.foldr_nil, splitLoop_round hp hfree hc, if_pos (by omega)]
  | cons q ps ih =>
      intro p fuel i hps hfuel hi hmax
      obtain ⟨hp, hfree⟩ := hps p List.mem_cons_self
      have hrest : Pieces separator (q :: ps) := fun r hr => hps r (List.mem_cons_of_mem _ hr)
      rw [List.length_cons] at hfuel hmax
      obtain ⟨fuel, rfl⟩ := Nat.exists_eq_add_of_le' (Nat.succ_le_of_lt (Nat.lt_of_le_of_lt (Nat.zero_le _) hfuel))
      rw [List.foldr_cons, splitLoop_round hp hfree hc, if_neg (by omega),
        ih q fuel (i + 1) hrest (by omega) (by omega) (by omega)]

/-- **Beyond the limit the rest stays in one piece.** -/
theorem split_limit (hc : c ∈ separator) {ps : List ByteStr} (hne : ps ≠ []) (hps : Pieces separator ps) {rest : ByteStr}
    (hrest : rest ≠ []) : split (ps.foldr (fun p s => p ++ c :: s) rest) separator ps.length = ps ++ [rest] := by
  have hlen : ∀ ps : List ByteStr, ps.length ≤ (ps.foldr (fun p s => p ++ c :: s) rest).length := by
    intro ps
    induction ps with
    | nil => exact Nat.zero_le _
    | cons p ps ih =>
        rw [List.foldr_cons, List.length_append, List.length_cons, List.length_cons]
        omega
  obtain ⟨p, ps, rfl⟩ := List.exists_cons_of_ne_nil hne
  have hfuel := hlen (p :: ps)
  rw [List.length_cons] at hfuel
  have hmax : (0 : Int) + (ps.length + 1) = ((p :: ps).length : Int) := by
    rw [List.length_cons]
    omega
  have hloop := splitLoop_limit hc rest ps p _ 0 hps hfuel (by decide) hmax
  unfold split
  rw [hloop]
  simp only
  rw [if_pos (List.length_pos_iff.mpr hrest)]

end StrTools

end MqttServer
