import MqttServer.Codec.Wire
import MqttServer.Http.Connection

/-!
# `Http.Cuts` — a request cut into reads

A connection that has read a part of a request parses that part, or what the NULs of the parse before have left
of it: always a prefix of the request. The path found in a prefix is the path of the request, or none at all
(`parseHeaders_prefix_path`), so every read of a publish request is answered, and a request is served once exactly
when it comes in one read (`served_once_iff`).
-/

namespace MqttServer

open StrTools

/-! ## `split` -/

namespace StrTools

variable (separator : ByteStr) (max : Int)

/-- The pieces cut off a prefix are the first pieces cut off the whole. -/
theorem splitLoop_pieces (n : Nat) : ∀ (n' : Nat) (i : Int) (p q : ByteStr), p.length ≤ n →
    (p ++ q).length ≤ n' → (splitLoop separator max n i p).1 <+: (splitLoop separator max n' i (p ++ q)).1 := by
  induction n with
  | zero =>
      intro n' i p q _ _
      exact List.nil_prefix
  | succ n ih =>
      intro n' i p q hn hn'
      by_cases hany : p.any (· ∈ separator)
      · have hfound : p.findIdx (· ∈ separator) < p.length := List.findIdx_lt_length.mpr (List.any_eq_true.mp hany)
        have hall : (p ++ q).any (· ∈ separator) := by
          rw [List.any_append, hany, Bool.true_or]
        have hidx : (p ++ q).findIdx (· ∈ separator) = p.findIdx (· ∈ separator) := by
          rw [List.findIdx_append, if_pos hfound]
        rw [List.length_append] at hn'
        obtain ⟨n', rfl⟩ : ∃ n₁, n' = n₁ + 1 := ⟨n' - 1, by omega⟩
        rw [splitLoop, if_pos hany, splitLoop, if_pos hall]
        simp only [hidx]
        rw [List.take_append_of_le_length (Nat.le_of_lt hfound), List.drop_append_of_le_length hfound]
        split
        · exact List.prefix_refl _
        · refine (List.prefix_append_right_inj _).mpr (ih n' (i + 1) _ q ?_ ?_)
          · rw [List.length_drop]
            omega
          · rw [List.length_append, List.length_drop]
            omega
      · rw [splitLoop, if_neg hany]
        exact List.nil_prefix

/-- No piece is longer than the string. -/
theorem splitLoop_length (n : Nat) : ∀ (i : Int) (str : ByteStr),
    (∀ piece ∈ (splitLoop separator max n i str).1, piece.length ≤ str.length) ∧
      (splitLoop separator max n i str).2.length ≤ str.length := by
  induction n with
  | zero => exact fun _ _ => ⟨(fun _ h => by cases h), Nat.le_refl _⟩
  | succ n ih =>
      intro i str
      rw [splitLoop]
      split
      · simp only
        have hpiece : ∀ piece ∈ (if str.findIdx (· ∈ separator) > 0 then
            [str.take (str.findIdx (· ∈ separator))] else []), piece.length ≤ str.length := by
          intro piece hp
          split at hp
          · rw [List.mem_singleton.mp hp, List.length_take]
            exact Nat.min_le_right _ _
          · cases hp
        have hdrop : (str.drop (str.findIdx (· ∈ separator) + 1)).length ≤ str.length := by
          rw [List.length_drop]
          exact Nat.sub_le _ _
        split
        · exact ⟨hpiece, hdrop⟩
        · obtain ⟨hpieces, hrest⟩ := ih (i + 1) (str.drop (str.findIdx (· ∈ separator) + 1))
          refine ⟨fun piece hp => ?_, Nat.le_trans hrest hdrop⟩
          rcases List.mem_append.mp hp with hp | hp
          · exact hpiece piece hp
          · exact Nat.le_trans (hpieces piece hp) hdrop
      · exact ⟨(fun _ h => by cases h), Nat.le_refl _⟩

theorem split_length {str piece : ByteStr} (h : piece ∈ split str separator max) : piece.length ≤ str.length := by
  obtain ⟨hpieces, hrest⟩ := splitLoop_length separator max str.length 0 str
  unfold split at h
  simp only at h
  split at h
  · rcases List.mem_append.mp h with h | h
    · exact hpieces piece h
    · rw [List.mem_singleton.mp h]
      exact hrest
  · exact hpieces piece h

/-- The first two of three pieces were cut off. -/
theorem split_three {str a b c : ByteStr} (h : split str separator max = [a, b, c]) :
    [a, b] <+: (splitLoop separator max str.length 0 str).1 := by
  unfold split at h
  simp only at h
  split at h
  · have hab : [a, b, c] = [a, b] ++ [c] := rfl
    rw [hab] at h
    rw [(List.append_inj_left' h rfl)]
  · rw [h]
    exact ⟨[c], rfl⟩

/-- A prefix that has three pieces has the first two of the whole, if that has three pieces as well. -/
theorem split_words {p q a b c a' b' c' : ByteStr} (h : split p separator max = [a, b, c])
    (h' : split (p ++ q) separator max = [a', b', c']) : a = a' ∧ b = b' := by
  have hp := (split_three separator max h).trans
    (splitLoop_pieces separator max p.length (p ++ q).length 0 p q (Nat.le_refl _) (Nat.le_refl _))
  have heq := (List.prefix_of_prefix_length_le hp (split_three separator max h') (Nat.le_refl _)).eq_of_length rfl
  cases heq
  exact ⟨rfl, rfl⟩

theorem rdropWhile_append_sub {p : UInt8 → Bool} (s q : ByteStr) : s.rdropWhile p <+: (s ++ q).rdropWhile p := by
  induction q using List.reverseRecOn with
  | nil =>
      rw [List.append_nil]
  | append_singleton q x ih =>
      rw [← List.append_assoc]
      by_cases hx : p x
      · rw [List.rdropWhile_concat_pos _ _ _ hx]
        exact ih
      · rw [List.rdropWhile_concat_neg _ _ _ hx]
        exact ( List.rdropWhile_prefix p s).trans ((List.prefix_append s q).trans (List.prefix_append _ _))

/-- Trimming a prefix that is not blank gives a prefix. -/
theorem trim_pieces {s : ByteStr} (q : ByteStr) (h : trim s ≠ []) : trim s <+: trim (s ++ q) := by
  have hne : s.dropWhile isspace ≠ [] := by
    intro he
    rw [trim, he] at h
    exact h rfl
  unfold trim
  rw [List.dropWhile_append, if_neg (by simpa using hne)]
  exact rdropWhile_append_sub _ _

theorem trim_length (s : ByteStr) : (trim s).length ≤ s.length :=
  Nat.le_trans ( List.rdropWhile_prefix _ _).length_le (List.dropWhile_sublist _).length_le

end StrTools

/-! ## Tokens and lines -/

/-- The next token of a prefix is the next token of the whole, or it is cut short and nothing follows. -/
theorem strtokR_append {s q token context : ByteStr} (h : strtokR s = some (token, context)) :
    ∃ token' context', strtokR (s ++ q) = some (token', context') ∧
      ((token' = token ∧ context' = context ++ q) ∨ (context = [] ∧ ∃ r, token' = token ++ r)) := by
  unfold strtokR at h ⊢
  cases hs : s.dropWhile (· = newline) with
  | nil =>
      simp only [hs] at h
      cases h
  | cons c s₁ =>
      simp only [hs, Option.some.injEq, Prod.mk.injEq] at h
      obtain ⟨htoken, hcontext⟩ := h
      have happ : (s ++ q).dropWhile (· = newline) = c :: (s₁ ++ q) := by
        rw [List.dropWhile_append, hs, if_neg (by simp), List.cons_append]
      rw [happ]
      refine ⟨_, _, rfl, ?_⟩
      rw [← List.cons_append]
      by_cases hend : (c :: s₁).dropWhile (· ≠ newline) = []
      · right
        have hall : (c :: s₁).takeWhile (· ≠ newline) = c :: s₁ := by
          have hcat := List.takeWhile_append_dropWhile (p := (· ≠ newline)) (l := c :: s₁)
          rwa [hend, List.append_nil] at hcat
        refine ⟨?_, ?_⟩
        · rw [← hcontext, hend]
          rfl
        · refine ⟨q.takeWhile (· ≠ newline), ?_⟩
          rw [← htoken, hall, List.takeWhile_append, hall, if_pos rfl]
      · left
        have hshort : ((c :: s₁).takeWhile (· ≠ newline)).length ≠ (c :: s₁).length := by
          intro hlen
          have hcat := congrArg List.length (List.takeWhile_append_dropWhile (p := (· ≠ newline)) (l := c :: s₁))
          rw [List.length_append, hlen] at hcat
          exact hend (List.length_eq_zero_iff.mp (by omega))
        refine ⟨?_, ?_⟩
        · rw [List.takeWhile_append, if_neg hshort, htoken]
        · rw [List.dropWhile_append, if_neg (by simpa using hend), List.drop_append_of_le_length, hcontext]
          exact List.length_pos_iff.mpr hend

theorem strtokR_length {s token context : ByteStr} (h : strtokR s = some (token, context)) :
    token.length ≤ s.length ∧ context.length < s.length := by
  unfold strtokR at h
  have hlen := (List.dropWhile_sublist (l := s) (· = newline)).length_le
  cases hs : s.dropWhile (· = newline) with
  | nil =>
      simp only [hs] at h
      cases h
  | cons c s₁ =>
      rw [hs] at hlen
      simp only [hs, Option.some.injEq, Prod.mk.injEq] at h
      obtain ⟨rfl, rfl⟩ := h
      have htake := (List.takeWhile_sublist (l := c :: s₁) (· ≠ newline)).length_le
      have hdrop := (List.dropWhile_sublist (l := c :: s₁) (· ≠ newline)).length_le
      rw [List.length_cons] at hlen htake hdrop
      rw [List.length_drop]
      exact ⟨by omega, by omega⟩

theorem cString_append (s q : ByteStr) : cString s <+: cString (s ++ q) := by
  unfold cString
  induction s with
  | nil => exact List.nil_prefix
  | cons c s ih =>
      by_cases hc : c = 0
      · rw [List.takeWhile_cons_of_neg (by simpa using hc)]
        exact List.nil_prefix
      · rw [List.cons_append, List.takeWhile_cons_of_pos (by simpa using hc),
          List.takeWhile_cons_of_pos (by simpa using hc)]
        exact List.cons_prefix_cons.mpr ⟨rfl, ih⟩

/-- A NUL only ever replaces a byte. -/
def Masked (mem orig : ByteStr) : Prop := List.Forall₂ (fun b r => b = r ∨ b = 0) mem orig

namespace Masked

theorem refl (s : ByteStr) : Masked s s := List.forall₂_same.mpr fun _ _ => Or.inl rfl

theorem trans {a b c : ByteStr} (h : Masked a b) (h' : Masked b c) : Masked a c := by
  unfold Masked at h h' ⊢
  induction h generalizing c with
  | nil => exact h'
  | cons hb _ ih =>
      cases h' with
      | cons hc ht =>
          refine .cons ?_ (ih ht)
          rcases hb with rfl | rfl
          · exact hc
          · exact Or.inr rfl

theorem append {a b a' b' : ByteStr} (h : Masked a b) (h' : Masked a' b') : Masked (a ++ a') (b ++ b') :=
  List.rel_append h h'

/-- The string in memory is a prefix of the string that came in. -/
theorem cString_sub {mem orig : ByteStr} (h : Masked mem orig) : cString mem <+: cString orig := by
  unfold Masked at h
  unfold cString
  induction h with
  | nil => exact List.prefix_refl _
  | @cons b r mem orig hb _ ih =>
      by_cases hz : b = 0
      · rw [List.takeWhile_cons_of_neg (by simpa using hz)]
        exact List.nil_prefix
      · rcases hb with rfl | hb
        · rw [List.takeWhile_cons_of_pos (by simpa using hz), List.takeWhile_cons_of_pos (by simpa using hz)]
          exact List.cons_prefix_cons.mpr ⟨rfl, ih⟩
        · exact absurd hb hz

theorem strtokMark (s : ByteStr) : ∀ (n : Nat) (inToken : Bool), Masked (strtokMark n inToken s) s := by
  induction s with
  | nil =>
      intro n inToken
      cases n <;> exact refl _
  | cons c s ih =>
      intro n inToken
      cases n with
      | zero => exact refl _
      | succ n =>
          rw [MqttServer.strtokMark]
          split
          · split
            · exact .cons (Or.inr rfl) (ih n false)
            · exact .cons (Or.inl rfl) (ih _ false)
          · exact .cons (Or.inl rfl) (ih _ true)

end Masked

/-! ## The path of a prefix -/

/-- Only the request line sets the path. -/
theorem headerLine_path {req req' : HTTPRequest} {line : ByteStr} (h : headerLine req line = .ok req') :
    req'.path = req.path := by
  unfold headerLine at h
  split at h
  · cases h
    rfl
  · split at h
    · cases hq : postParams req.query (split line (text "&") 3) with
      | error e =>
          rw [hq] at h
          cases h
      | ok query =>
          rw [hq] at h
          cases h
          rfl
    · cases h
      rfl

theorem parseLoop_seen_path (n : Nat) : ∀ (st p : Parsed) (s : ByteStr), parseLoop n true st s = .ok p →
    p.req.path = st.req.path := by
  induction n with
  | zero =>
      intro st p s h
      cases h
      rfl
  | succ n ih =>
      intro st p s h
      unfold parseLoop at h
      cases ht : strtokR s with
      | none =>
          simp only [ht] at h
          cases h
          rfl
      | some tc =>
          simp only [ht] at h
          split at h
          · exact ih { st with tokens := st.tokens + 1 } p tc.2 h
          · rw [if_pos trivial] at h
            cases hl : headerLine st.req (trim tc.1) with
            | error e =>
                simp only [hl] at h
                cases h
            | ok req =>
                simp only [hl] at h
                rw [ih _ _ _ h]
                exact headerLine_path hl

/-- Two request lines, one a prefix of the other, that both have three words have the same path. -/
theorem requestLine_same {req req₁ req₂ : HTTPRequest} {line q : ByteStr}
    (h₁ : requestLine req line = .ok (some req₁)) (h₂ : requestLine req (line ++ q) = .ok (some req₂)) :
    req₁.path = req₂.path := by
  unfold requestLine at h₁ h₂
  split at h₁
  · rename_i method path w hs₁
    split at h₂
    · rename_i method' path' w' hs₂
      -- method and path are whole words of both lines; the cut is in the version or behind it
      obtain ⟨rfl, rfl⟩ := split_words _ _ hs₁ hs₂
      by_cases hq : 0x3F ∈ path
      · rw [if_pos hq] at h₁ h₂
        cases h₁
        cases h₂
        rfl
      · rw [if_neg hq] at h₁ h₂
        split at h₁
        · rename_i hm
          rw [if_pos hm] at h₂
          cases hr : removeSpace path with
          | none =>
              simp only [hr] at h₁
              cases h₁
          | some path' =>
              simp only [hr] at h₁ h₂
              cases h₁
              cases h₂
              rfl
        · rename_i hm
          rw [if_neg hm] at h₂
          cases h₁
          cases h₂
          rfl
    · cases h₂
  · cases h₁

/-- The rounds for the prefix run in step with those for the whole up to the first line that is not blank. -/
theorem parseLoop_prefix_path (n : Nat) : ∀ (n' : Nat) (st st' p p' : Parsed) (s q : ByteStr),
    st.req = {} → st'.req = {} → s.length ≤ n → (s ++ q).length ≤ n' →
    parseLoop n false st s = .ok p → parseLoop n' false st' (s ++ q) = .ok p' → p'.req.path ≠ [] →
    p.req.path = [] ∨ p.req.path = p'.req.path := by
  -- on the lines of the shorter buffer; the longer one has the same lines up to the cut
  induction n with
  | zero =>
      intro n' st st' p p' s q hst _ _ _ h _ _
      cases h
      exact Or.inl (by rw [hst])
  | succ n ih =>
      intro n' st st' p p' s q hst hst' hn hn' h h' hne
      unfold parseLoop at h
      cases ht : strtokR s with
      | none =>
          simp only [ht] at h
          cases h
          exact Or.inl (by rw [hst])
      | some tc =>
          obtain ⟨token, context⟩ := tc
          obtain ⟨token', context', ht', hcut⟩ := strtokR_append (q := q) ht
          have hlen := strtokR_length ht
          have hlen' := strtokR_length ht'
          obtain ⟨n', rfl⟩ : ∃ n₁, n' = n₁ + 1 := ⟨n' - 1, by omega⟩
          unfold parseLoop at h'
          simp only [ht, ht', hst, hst', Bool.false_eq_true, if_false] at h h'
          rcases hcut with ⟨rfl, rfl⟩ | ⟨rfl, r, rfl⟩
          · -- the line ends in front of the cut, and both runs read the whole of it
            by_cases hblank : trim token' = []
            · rw [if_pos hblank] at h h'
              refine ih n' { st with req := {}, tokens := st.tokens + 1 } { st' with req := {}, tokens := st'.tokens + 1 }
                p p' context q rfl rfl (by omega) (by omega) h h' hne
            · rw [if_neg hblank] at h h'
              cases hl : requestLine {} (trim token') with
              | error e =>
                  simp only [hl] at h
                  cases h
              | ok req =>
                  cases req with
                  | none =>
                      simp only [hl] at h
                      cases h
                      exact Or.inl rfl
                  | some req =>
                      simp only [hl] at h h'
                      right
                      rw [parseLoop_seen_path _ _ _ _ h, parseLoop_seen_path _ _ _ _ h']
          · -- the cut falls into this line: the shorter run reads its head, and no line follows
            by_cases hblank : trim token = []
            · rw [if_pos hblank] at h
              have hp : p.req = {} := by
                cases n with
                | zero =>
                    cases h
                    rfl
                | succ n =>
                    unfold parseLoop strtokR at h
                    cases h
                    rfl
              exact Or.inl (by rw [hp])
            · obtain ⟨w, hw⟩ := trim_pieces r hblank
              have hblank' : trim (token ++ r) ≠ [] := by
                rw [← hw]
                exact List.append_ne_nil_of_left_ne_nil hblank w
              rw [if_neg hblank] at h
              rw [if_neg hblank', ← hw] at h'
              cases hl : requestLine {} (trim token) with
              | error e =>
                  simp only [hl] at h
                  cases h
              | ok req =>
                  cases req with
                  | none =>
                      simp only [hl] at h
                      cases h
                      exact Or.inl rfl
                  | some req =>
                      simp only [hl] at h
                      cases hl' : requestLine {} (trim token ++ w) with
                      | error e =>
                          simp only [hl'] at h'
                          cases h'
                      | ok req' =>
                          cases req' with
                          | none =>
                              simp only [hl'] at h'
                              cases h'
                              exact absurd rfl hne
                          | some req' =>
                              simp only [hl'] at h'
                              right
                              rw [parseLoop_seen_path _ _ _ _ h, parseLoop_seen_path _ _ _ _ h']
                              exact requestLine_same hl hl'

/-- **The path found in a prefix of a request** is the path of the request, or empty. -/
theorem parseHeaders_prefix_path {s s' : ByteStr} {p p' : Parsed} (hs : s <+: s') (h : parseHeaders s = .ok p)
    (h' : parseHeaders s' = .ok p') (hne : p'.req.path ≠ []) : p.req.path = [] ∨ p.req.path = p'.req.path := by
  obtain ⟨q, rfl⟩ := hs
  exact parseLoop_prefix_path _ _ _ _ _ _ _ _ rfl rfl (Nat.le_refl _) (Nat.le_refl _) h h' hne

/-! ## Parameters are parts of the request -/

/-- No value is longer than `n`. -/
def QueryBound (n : Nat) (query : AList fun _ : ByteStr => ByteStr) : Prop :=
  ∀ name value, query.lookup name = some value → value.length ≤ n

namespace QueryBound

variable {n : Nat} {query : AList fun _ : ByteStr => ByteStr}

theorem insert {name value : ByteStr} (h : QueryBound n query) (hv : value.length ≤ n) :
    QueryBound n (query.insert name value) := by
  intro name' value' hl
  by_cases he : name' = name
  · subst he
    rw [AList.lookup_insert] at hl
    cases hl
    exact hv
  · rw [AList.lookup_insert_ne he] at hl
    exact h name' value' hl

theorem getParams (qs : List ByteStr) : ∀ query, QueryBound n query → (∀ q ∈ qs, q.length ≤ n) →
    QueryBound n (getParams query qs) := by
  induction qs with
  | nil => exact fun _ h _ => h
  | cons q qs ih =>
      intro query h hqs
      rw [MqttServer.getParams]
      have hq := hqs q List.mem_cons_self
      have hrest : ∀ q' ∈ qs, q'.length ≤ n := fun q' hq' => hqs q' (List.mem_cons_of_mem _ hq')
      split
      · rename_i name value hs
        refine ih _ (h.insert (Nat.le_trans (split_length (text "=") (-1) ?_) hq)) hrest
        rw [hs]
        simp
      · exact ih _ h hrest

theorem postParams (rs : List ByteStr) : ∀ query query', QueryBound n query → (∀ r ∈ rs, r.length ≤ n) →
    postParams query rs = .ok query' → QueryBound n query' := by
  induction rs with
  | nil =>
      intro query query' h _ he
      cases he
      exact h
  | cons r rs ih =>
      intro query query' h hrs he
      rw [MqttServer.postParams] at he
      have hr := hrs r List.mem_cons_self
      split at he
      · rename_i name value rest hs
        have hv : value.length ≤ r.length := by
          refine split_length (text "=") 2 ?_
          rw [hs]
          simp
        exact ih _ _ (h.insert (Nat.le_trans hv hr)) (fun r' hr' => hrs r' (List.mem_cons_of_mem _ hr')) he
      · cases he

theorem requestLine {req req' : HTTPRequest} {line : ByteStr} (h : QueryBound n req.query)
    (hline : line.length ≤ n) (he : requestLine req line = .ok (some req')) : QueryBound n req'.query := by
  unfold MqttServer.requestLine at he
  split at he
  · rename_i method path w hs
    have hpath : path.length ≤ line.length := by
      refine split_length (text " ") 3 ?_
      rw [hs]
      simp
    split at he
    · cases he
      refine getParams _ _ h fun q hq => ?_
      have hlen := split_length _ _ hq
      rw [List.length_drop] at hlen
      omega
    · split at he
      · split at he
        · cases he
        · cases he
          exact h
      · cases he
        exact h
  · cases he

theorem headerLine {req req' : HTTPRequest} {line : ByteStr} (h : QueryBound n req.query)
    (hline : line.length ≤ n) (he : headerLine req line = .ok req') : QueryBound n req'.query := by
  unfold MqttServer.headerLine at he
  split at he
  · cases he
    exact h
  · split at he
    · cases hq : MqttServer.postParams req.query (split line (text "&") 3) with
      | error e =>
          rw [hq] at he
          cases he
      | ok query =>
          rw [hq] at he
          cases he
          exact postParams _ _ _ h (fun r hr => Nat.le_trans (split_length _ _ hr) hline) hq
    · cases he
      exact h

theorem parseLoop (fuel : Nat) : ∀ (seen : Bool) (st p : Parsed) (s : ByteStr), QueryBound n st.req.query →
    s.length ≤ n → parseLoop fuel seen st s = .ok p → QueryBound n p.req.query := by
  induction fuel with
  | zero =>
      intro seen st p s h _ he
      cases he
      exact h
  | succ fuel ih =>
      intro seen st p s h hs he
      unfold MqttServer.parseLoop at he
      cases ht : strtokR s with
      | none =>
          simp only [ht] at he
          cases he
          exact h
      | some tc =>
          obtain ⟨token, context⟩ := tc
          obtain ⟨htoken, hcontext⟩ := strtokR_length ht
          have hline : (trim token).length ≤ n := Nat.le_trans (trim_length token) (by omega)
          simp only [ht] at he
          split at he
          · exact ih seen { st with tokens := st.tokens + 1 } p context h (by omega) he
          · split at he
            · split at he
              · cases he
              · rename_i req hl
                exact ih seen { st with req, tokens := st.tokens + 1 } p context (h.headerLine hline hl) (by omega) he
            · split at he
              · cases he
              · cases he
                exact h
              · rename_i req hl
                exact ih true { st with req, tokens := st.tokens + 1 } p context (h.requestLine hline hl) (by omega) he

end QueryBound

/-- Topic and message are no longer than the request they come from. -/
theorem publishParams_length {s : ByteStr} {p : Parsed} (dup : Bool) (h : parseHeaders s = .ok p) :
    (publishParams p.req dup).topic.length ≤ s.length ∧ (publishParams p.req dup).msg.length ≤ s.length := by
  have hbound : QueryBound s.length p.req.query :=
    QueryBound.parseLoop _ _ _ _ _ (fun _ _ hl => by cases hl) (Nat.le_refl _) h
  have hparam : ∀ name, ((p.req.queryParam name).getD []).length ≤ s.length := by
    intro name
    cases hq : p.req.queryParam name with
    | none => exact Nat.zero_le _
    | some value => exact hbound name value hq
  exact ⟨hparam _, hparam _⟩

theorem publishParams_header (req : HTTPRequest) (dup : Bool) :
    (publishParams req dup).header.msgType = .publish ∧ (publishParams req dup).header.qos ≤ 1 := by
  refine ⟨rfl, ?_⟩
  unfold publishParams
  simp only
  split
  · exact Nat.min_le_right _ _
  · exact Nat.le_refl _

/-- A packet of the size of a request is encoded into the buffer made for it, and has the fields it was made of. -/
theorem packet_encodes {p : PublishParams} (hqos : p.header.qos ≤ 1) (hfit : p.topic.length + p.msg.length ≤ 2 * httpBufSize)
    (msgId : Nat) : ∃ bytes, (p.packet msgId).encode p.bufLen = some bytes ∧
      (Publish.decode.decode bytes).map Publish.fields = some (p.packet msgId).fields := by
  unfold httpBufSize at hfit
  have hbody : (p.packet msgId).body.length < 16384 := by
    rw [(p.packet msgId).body_length]
    show p.topic.length + 2 + 2 + p.msg.length < 16384
    omega
  have hroom : (p.packet msgId).topicName.length + (p.packet msgId).payload.length + 7 ≤ p.bufLen := by
    show p.topic.length + p.msg.length + 7 ≤ p.msg.length + p.topic.length + 8
    omega
  exact ⟨_, Publish.encode_roomy hbody hroom,
    Publish.decode_wire (Nat.le_trans hqos (by decide)) (Nat.mod_lt _ (by decide)) hbody⟩

/-- What is decoded has these fields. -/
theorem fields_of_map {bytes : ByteStr} {m : Publish}
    (h : (Publish.decode.decode bytes).map Publish.fields = some m.fields) :
    ∃ m', Publish.decode.decode bytes = some m' ∧ m'.header = m.header ∧ m'.topicName = m.topicName ∧
      m'.payload = m.payload := by
  cases hd : Publish.decode.decode bytes with
  | none =>
      rw [hd] at h
      cases h
  | some m' =>
      rw [hd, Option.map_some, Option.some.injEq] at h
      exact ⟨m', rfl, congrArg Prod.fst h, congrArg (fun f => f.2.1) h, congrArg (fun f => f.2.2.2) h⟩

/-- **What a request makes can be encoded**, and the packet has the topic and the message of the request. -/
theorem publishParams_packet {s : ByteStr} {p : Parsed} (hs : s.length ≤ httpBufSize) (h : parseHeaders s = .ok p)
    (msgId : Nat) (dup : Bool) : ∃ bytes, ((publishParams p.req dup).packet msgId).encode (publishParams p.req dup).bufLen = some bytes ∧
      (Publish.decode.decode bytes).map Publish.fields = some ((publishParams p.req dup).packet msgId).fields := by
  obtain ⟨htopic, hmsg⟩ := publishParams_length dup h
  exact packet_encodes (publishParams_header p.req dup).2 (by omega) msgId

/-! ## Reads -/

/-- A request that, parsed as a whole, is for `/publish`. -/
def PublishRequest (request : ByteStr) : Prop :=
  ∃ p, parseHeaders (cString request) = .ok p ∧ p.res ≠ -1 ∧ p.req.path = text "/publish"

instance (request : ByteStr) : Decidable (PublishRequest request) :=
  match h : parseHeaders (cString request) with
  | .error _ => isFalse fun ⟨_, hp, _⟩ => by
      rw [h] at hp
      cases hp
  | .ok p => decidable_of_iff (p.res ≠ -1 ∧ p.req.path = text "/publish")
      ⟨fun hp => ⟨p, h, hp⟩, fun ⟨p', hp', hpath⟩ => by
        rw [h] at hp'
        cases hp'
        exact hpath⟩

namespace HttpConnection

variable {c c' : HttpConnection} {res : Int} {msgId : Nat} {dup : Bool}

theorem mark_masked (tokens : Nat) : Masked (c.mark tokens).recvBuffer c.recvBuffer := by
  have hcat : cString c.recvBuffer ++ c.recvBuffer.drop (cString c.recvBuffer).length = c.recvBuffer := by
    obtain ⟨rest, hrest⟩ : cString c.recvBuffer <+: c.recvBuffer := List.takeWhile_prefix _
    rw [← hrest, List.drop_append_of_le_length (by rw [hrest])]
    simp [hrest]
  have happ := (Masked.strtokMark (cString c.recvBuffer) tokens false).append (Masked.refl
    (c.recvBuffer.drop (cString c.recvBuffer).length))
  rwa [hcat] at happ

@[simp] theorem respond_written (code : Nat) (body : ByteStr) :
    (c.respond code body).written.length = c.written.length + 1 := by
  simp [respond, httpSend]

@[simp] theorem respond_recvBuffer (code : Nat) (body : ByteStr) :
    (c.respond code body).recvBuffer = c.recvBuffer := rfl

@[simp] theorem respond_notified (code : Nat) (body : ByteStr) :
    (c.respond code body).notified = c.notified := rfl

/-- The publish branch answers once, whatever the encoder says. -/
theorem publish_answers (c : HttpConnection) (req : HTTPRequest) (msgId : Nat) (dup : Bool) :
    (c.publish req msgId dup).written.length = c.written.length + 1 ∧
      (c.publish req msgId dup).recvBuffer = c.recvBuffer := by
  have hkeep : (c.notifyMqttPublish req msgId dup).2.written = c.written ∧
      (c.notifyMqttPublish req msgId dup).2.recvBuffer = c.recvBuffer := by
    unfold notifyMqttPublish
    simp only
    split <;> exact ⟨rfl, rfl⟩
  unfold publish
  simp only
  split
  · rw [respond_written, respond_recvBuffer, hkeep.1, hkeep.2]
    exact ⟨rfl, rfl⟩
  · rw [respond_written, respond_recvBuffer, hkeep.1, hkeep.2]
    exact ⟨rfl, rfl⟩

/-- A parse of anything but the icon is answered, and the buffer only loses bytes to NULs. -/
theorem process_answers {p : Parsed} (hp : parseHeaders (cString c.recvBuffer) = .ok p)
    (hpath : p.req.path ≠ text "/favicon.ico") (h : c.process msgId dup = .ok (res, c')) :
    res = 0 ∧ c'.written.length = c.written.length + 1 ∧ Masked c'.recvBuffer c.recvBuffer := by
  unfold process at h
  simp only [hp, if_neg hpath] at h
  split at h
  · cases h
    exact ⟨rfl, respond_written _ _, mark_masked _⟩
  · cases h
    obtain ⟨hw, hr⟩ := publish_answers { c.mark p.tokens with
      response := { (c.mark p.tokens).response with type := text "text/json" } } p.req msgId dup
    refine ⟨rfl, hw, ?_⟩
    rw [hr]
    exact mark_masked _

end HttpConnection

/-- The part of a publish request that a connection sees is not a request for the icon. -/
theorem PublishRequest.not_favicon {request s : ByteStr} {p : Parsed} (hreq : PublishRequest request)
    (hs : s <+: cString request) (hp : parseHeaders s = .ok p) : p.req.path ≠ text "/favicon.ico" := by
  obtain ⟨p', hp', -, hpath'⟩ := hreq
  have hpublish : text "/publish" ≠ [] := by decide
  rcases parseHeaders_prefix_path hs hp hp' (by rwa [hpath']) with he | he
  · rw [he]
    decide
  · rw [he, hpath']
    decide

namespace HttpConnection

/-- **Every read of a publish request is answered.** The induction is on the reads; `seen` is what came in
    before them. -/
theorem serve_answers {request : ByteStr} (hreq : PublishRequest request) (hlen : request.length < httpBufSize)
    (reads : List HttpRead) : ∀ (c c' : HttpConnection) (seen : ByteStr), Masked c.recvBuffer seen →
      seen ++ (reads.map HttpRead.data).flatten = request → (∀ r ∈ reads, r.data ≠ []) → c.serve reads = .ok c' →
      c'.written.length = c.written.length + reads.length := by
  induction reads with
  | nil =>
      intro c c' seen _ _ _ h
      cases h
      rfl
  | cons r reads ih =>
      intro c c' seen hmask hcut hne h
      rw [List.map_cons, List.flatten_cons, ← List.append_assoc] at hcut
      have htotal := congrArg List.length hcut
      simp only [List.length_append] at htotal
      have hcur : c.recvBuffer.length = seen.length := hmask.length_eq
      have htake : r.data.take (httpBufSize - c.recvBuffer.length) = r.data := List.take_of_length_le (by omega)
      have hfit : (c.recvBuffer ++ r.data).length < httpBufSize := by
        rw [List.length_append]
        omega
      have hmask' : Masked (c.recvBuffer ++ r.data) (seen ++ r.data) := hmask.append (.refl _)
      have hprefix : cString (c.recvBuffer ++ r.data) <+: cString request := by
        refine hmask'.cString_sub.trans ?_
        rw [← hcut]
        exact cString_append _ _
      unfold serve handleInput at h
      simp only [htake, if_neg (hne r List.mem_cons_self), if_pos hfit] at h
      cases hp : process { c with recvBuffer := c.recvBuffer ++ r.data } r.msgId r.dup with
      | error e =>
          simp only [hp] at h
          cases h
      | ok pc =>
          obtain ⟨res, c₁⟩ := pc
          simp only [hp] at h
          obtain ⟨p, hparse⟩ : ∃ p, parseHeaders (cString (c.recvBuffer ++ r.data)) = .ok p := by
            unfold process at hp
            cases hq : parseHeaders (cString (c.recvBuffer ++ r.data)) with
            | error e =>
                simp only [hq] at hp
                cases hp
            | ok p => exact ⟨p, rfl⟩
          obtain ⟨rfl, hw, hm⟩ := process_answers hparse (hreq.not_favicon hprefix hparse) hp
          rw [if_neg (by decide)] at h
          have hrest := ih c₁ c' (seen ++ r.data) (hm.trans hmask') hcut
            (fun r' hr' => hne r' (List.mem_cons_of_mem _ hr')) h
          rw [hrest, hw, List.length_cons]
          show c.written.length + 1 + reads.length = c.written.length + (reads.length + 1)
          omega

/-- Topic and payload of a packet. -/
def published (bytes : ByteStr) : Option (ByteStr × ByteStr) :=
  (Publish.decode.decode bytes).map fun m => (m.topicName, m.payload)

theorem published_of_fields {bytes : ByteStr} {m : Publish}
    (h : (Publish.decode.decode bytes).map Publish.fields = some m.fields) :
    published bytes = some (m.topicName, m.payload) := by
  obtain ⟨m', hdec, -, htopic, hpayload⟩ := fields_of_map h
  unfold published
  rw [hdec, Option.map_some, htopic, hpayload]

/-- A publish request that comes in one read is published once, with its own topic and message, and answered
    once. -/
theorem serve_whole {request : ByteStr} {p : Parsed} (hp : parseHeaders (cString request) = .ok p)
    (hres : p.res ≠ -1) (hpath : p.req.path = text "/publish") (hlen : request.length < httpBufSize) (msgId : Nat) (dup : Bool) :
    ∃ c bytes, serve {} [{ data := request, msgId, dup }] = .ok c ∧ c.notified = [bytes] ∧ c.written.length = 1 ∧
      published bytes = some ((publishParams p.req dup).topic, (publishParams p.req dup).msg) := by
  have hne : request ≠ [] := by
    rintro rfl
    cases hp
    exact absurd hpath (by decide)
  have htake : request.take (httpBufSize - ([] : ByteStr).length) = request := List.take_of_length_le (Nat.le_of_lt hlen)
  have hstring : (cString request).length ≤ httpBufSize :=
    Nat.le_trans ( List.takeWhile_prefix _).length_le (Nat.le_of_lt hlen)
  obtain ⟨bytes, henc, hdec⟩ := publishParams_packet hstring hp msgId dup
  have hicon : p.req.path ≠ text "/favicon.ico" := by
    rw [hpath]
    decide
  have hbranch : ¬ (p.res = -1 ∨ p.req.path ≠ text "/publish") := by
    rintro (h | h)
    · exact hres h
    · exact h hpath
  have hnotify : ∀ c : HttpConnection, (c.publish p.req msgId dup).notified = c.notified ++ [bytes] := by
    intro c
    have hr : c.notifyMqttPublish p.req msgId dup =
        ((publishParams p.req dup).error, { c with notified := c.notified ++ [bytes] }) := by
      unfold notifyMqttPublish
      simp only [henc]
    unfold publish
    simp only [hr]
    split
    · rw [respond_notified]
    · rw [respond_notified]
  refine ⟨publish { mark { recvBuffer := request } p.tokens with
    response := { (mark { recvBuffer := request } p.tokens).response with type := text "text/json" } } p.req msgId dup,
    bytes, ?_, ?_, ?_, published_of_fields hdec⟩
  · unfold serve handleInput
    simp only [htake, if_neg hne, List.nil_append, if_pos hlen]
    unfold process
    simp only [hp, if_neg hicon, if_neg hbranch]
    rfl
  · rw [hnotify]
    rfl
  · rw [(publish_answers _ p.req msgId dup).1]
    rfl

/-- The request is passed on as one packet, with the topic and the payload it has when it comes in one read, and
    answered once. -/
def ServedOnce (request : ByteStr) (reads : List HttpRead) : Prop :=
  ∃ c bytes, serve {} reads = .ok c ∧ c.notified = [bytes] ∧ c.written.length = 1 ∧
    ∀ msgId dup, ∃ c₁ bytes₁, serve {} [{ data := request, msgId, dup }] = .ok c₁ ∧ c₁.notified = [bytes₁] ∧
      (published bytes).isSome ∧ published bytes = published bytes₁

/-- **A publish request is served once exactly when it comes in one read.** -/
theorem served_once_iff {request : ByteStr} (hreq : PublishRequest request) (hlen : request.length ≤ 4095)
    {reads : List HttpRead} (hne : ∀ r ∈ reads, r.data ≠ []) (hcut : (reads.map HttpRead.data).flatten = request) :
    ServedOnce request reads ↔ reads.length = 1 := by
  have hlt : request.length < httpBufSize := Nat.lt_succ_of_le hlen
  constructor
  · rintro ⟨c, bytes, hserve, -, hwritten, -⟩
    have hcount := serve_answers hreq hlt reads {} c [] (Masked.refl []) hcut hne hserve
    rw [hwritten] at hcount
    have hzero : ({} : HttpConnection).written.length = 0 := rfl
    omega
  · intro hone
    obtain ⟨r, rfl⟩ := List.length_eq_one_iff.mp hone
    have hdata : r.data = request := by
      rw [← hcut]
      simp
    obtain ⟨p, hp, hres, hpath⟩ := hreq
    obtain ⟨c, bytes, hserve, hnotified, hwritten, hpub⟩ := serve_whole hp hres hpath hlt r.msgId r.dup
    rw [← hdata] at hserve
    refine ⟨c, bytes, hserve, hnotified, hwritten, fun msgId dup => ?_⟩
    obtain ⟨c₁, bytes₁, hserve₁, hnotified₁, -, hpub₁⟩ := serve_whole hp hres hpath hlt msgId dup
    exact ⟨c₁, bytes₁, hserve₁, hnotified₁, by rw [hpub]; rfl, by rw [hpub, hpub₁]; rfl⟩

/-- A publish request. -/
def getRequest : ByteStr := text "GET /publish?client=a&topic=b&msg=c HTTP/1.0\r\n\r\n"

theorem served_once_whole : ServedOnce getRequest [{ data := getRequest, msgId := 1 }] :=
  have hreq : PublishRequest getRequest := by decide +kernel
  (served_once_iff hreq (by decide +kernel) (by simp [getRequest, text]) (by simp)).mpr rfl

/-- The same request with its last two bytes in a read of their own is published and answered twice. -/
theorem served_twice :
    PublishRequest getRequest ∧ getRequest.length ≤ 4095 ∧
      ([{ data := getRequest.take 46, msgId := 1 }, { data := getRequest.drop 46, msgId := 2 }].map
        HttpRead.data).flatten = getRequest ∧
      (∃ c, serve {} [{ data := getRequest.take 46, msgId := 1 }, { data := getRequest.drop 46, msgId := 2 }] = .ok c ∧
        c.notified.length = 2 ∧ c.written.length = 2) ∧
      ¬ ServedOnce getRequest
        [{ data := getRequest.take 46, msgId := 1 }, { data := getRequest.drop 46, msgId := 2 }] := by
  have hserve : ∃ c, serve {} [{ data := getRequest.take 46, msgId := 1 },
      { data := getRequest.drop 46, msgId := 2 }] = .ok c ∧ c.notified.length = 2 ∧ c.written.length = 2 := by
    have hrun : (match serve {} [{ data := getRequest.take 46, msgId := 1 },
        { data := getRequest.drop 46, msgId := 2 }] with
      | .ok c => decide (c.notified.length = 2 ∧ c.written.length = 2)
      | .error _ => false) = true := by decide +kernel
    split at hrun
    · rename_i c hc
      exact ⟨c, hc, of_decide_eq_true hrun⟩
    · cases hrun
  refine ⟨by decide +kernel, by decide +kernel, by simp, hserve, ?_⟩
  rintro ⟨c, bytes, hc, hnotified, -⟩
  obtain ⟨c', hc', htwo, -⟩ := hserve
  rw [hc] at hc'
  cases hc'
  rw [hnotified] at htwo
  cases htwo

end HttpConnection

end MqttServer
