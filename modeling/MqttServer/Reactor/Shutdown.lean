import MqttServer.Reactor.Client

/-!
# `Reactor.Shutdown` — closing the poller

`CPollerEpoll::close` calls `handle_close` on the first handler of its map until the map is empty. Only `del_event` takes an
entry out, and it takes out the one of the descriptor the handler has now. The loop ends exactly when every handler is still
in its place: the map has it under its own descriptor, which is watched (`closes_all_iff`).
-/

namespace MqttServer

open Lib

/-- How the loop can stop short. -/
inductive CloseFault where
  | running
  | useAfterFree (h : HandlerId)
  | nullContext (h : HandlerId)
deriving DecidableEq, Repr

/-- `begin()` of an `unordered_map`: some entry. -/
structure Begin where
  first : AList (fun _ : Nat => HandlerId) → Option (Nat × HandlerId)
  first_mem : ∀ map fd h, first map = some (fd, h) → map.lookup fd = some h
  first_none : ∀ map, first map = none → ∀ fd, map.lookup fd = none

namespace PollerEpoll

/-- `handle_close()` of a handler; that of `CMqttConnection` uses its context before it looks whether there is one. -/
def handleClose (p : PollerEpoll) (h : HandlerId) : Except CloseFault PollerEpoll :=
  if (p.handlers h).deleted then .error (.useAfterFree h)
  else
    match (p.handlers h).kind with
    | .event => .ok ((p.close h).delete h)
    | .mqtt hasContext => if hasContext then .ok ((p.close h).delete h) else .error (.nullContext h)
    | .client => .ok (p.clientHandleClose h)

/-- The loop of `CPollerEpoll::close()`, with the handlers that were closed. -/
def closeLoop (beg : Begin) : (fuel : Nat) → PollerEpoll → Except CloseFault (List HandlerId × PollerEpoll)
  | fuel, p =>
    match beg.first p.mapEventHandlers with
    | none => .ok ([], p)
    | some e =>
        match fuel with
        | 0 => .error .running
        | fuel + 1 =>
            match p.handleClose e.2 with
            | .error f => .error f
            | .ok p' => (closeLoop beg fuel p').map fun r => (e.2 :: r.1, r.2)

end PollerEpoll

/-- **The poller closes everything**: the loop ends, each registered handler has been closed once, and the map is empty. -/
def ClosesAll (beg : Begin) (p : PollerEpoll) : Prop :=
  ∃ fuel calls p', p.closeLoop beg fuel = .ok (calls, p') ∧ (∀ fd, p'.mapEventHandlers.lookup fd = none) ∧ calls.Nodup ∧
    ∀ h, h ∈ calls ↔ ∃ fd, p.mapEventHandlers.lookup fd = some h

/-- **Every handler is in its place**: it exists, its descriptor is the one it is found under, and is watched; and a
    connection has a context. -/
def InPlace (p : PollerEpoll) : Prop :=
  ∀ fd h, p.mapEventHandlers.lookup fd = some h → (p.handlers h).deleted = false ∧ (p.handlers h).sockHandle = some fd ∧
    p.kernel.interest fd ≠ none ∧ (p.handlers h).kind ≠ .mqtt false

variable {beg : Begin} {p p₁ : PollerEpoll} {h : HandlerId} {fd fuel : Nat}

/-- What a `handle_close` that returns has done. -/
theorem PollerEpoll.handleClose_ok (hc : p.handleClose h = .ok p₁) :
    (p.handlers h).deleted = false ∧ (p.handlers h).kind ≠ .mqtt false ∧ (p₁.handlers h).sockHandle = none ∧
      (∀ h', h' ≠ h → p₁.handlers h' = p.handlers h') ∧ p₁.kernel = (p.close h).kernel ∧
      p₁.mapEventHandlers = (p.close h).mapEventHandlers := by
  have hothers : ∀ h', h' ≠ h → (p.close h).handlers h' = p.handlers h' := by
    intro h' hne
    cases hfd : (p.handlers h).sockHandle with
    | none => rw [PollerEpoll.close_none hfd]
    | some fd =>
        obtain ⟨-, -, -, hsame, -⟩ := PollerEpoll.close_eq hfd
        exact hsame h' hne
  have hnone : ((p.close h).handlers h).sockHandle = none := by
    cases hfd : (p.handlers h).sockHandle with
    | none => rw [PollerEpoll.close_none hfd, hfd]
    | some fd =>
        obtain ⟨-, -, -, -, mask, hself⟩ := PollerEpoll.close_eq hfd
        rw [hself]
  have hafter : ∀ f : Watched → Watched, (∀ x, (f x).sockHandle = x.sockHandle) →
      (((p.close h).modify h f).handlers h).sockHandle = none ∧
        (∀ h', h' ≠ h → ((p.close h).modify h f).handlers h' = p.handlers h') := by
    intro f hf
    refine ⟨by rw [PollerEpoll.modify_self, hf, hnone], fun h' hne => ?_⟩
    rw [PollerEpoll.modify_of_ne f hne]
    exact hothers h' hne
  unfold PollerEpoll.handleClose at hc
  by_cases hdel : (p.handlers h).deleted = true
  · rw [if_pos hdel] at hc
    cases hc
  · rw [if_neg hdel] at hc
    have halive : (p.handlers h).deleted = false := Bool.eq_false_iff.mpr hdel
    cases hkind : (p.handlers h).kind with
    | event =>
        simp only [hkind] at hc
        cases hc
        obtain ⟨hfd, hrest⟩ := hafter ({ · with deleted := true }) fun _ => rfl
        exact ⟨halive, (fun hx => by cases hx), hfd, hrest, rfl, rfl⟩
    | mqtt hasContext =>
        simp only [hkind] at hc
        cases hasContext with
        | false => cases hc
        | true =>
            cases hc
            obtain ⟨hfd, hrest⟩ := hafter ({ · with deleted := true }) fun _ => rfl
            exact ⟨halive, (fun hx => by cases hx), hfd, hrest, rfl, rfl⟩
    | client =>
        simp only [hkind] at hc
        cases hc
        obtain ⟨hfd, hrest⟩ := hafter ({ · with clientStatus := .unconnected }) fun _ => rfl
        exact ⟨halive, (fun hx => by cases hx), hfd, hrest, rfl, rfl⟩

/-- A handler in its place is closed, and its entry is gone. -/
theorem InPlace.handleClose (hp : InPlace p) (hfd : p.mapEventHandlers.lookup fd = some h) :
    ∃ p₁, p.handleClose h = .ok p₁ ∧ p₁.mapEventHandlers = p.mapEventHandlers.erase fd ∧ InPlace p₁ := by
  obtain ⟨halive, hhandle, hwatched, hkind⟩ := hp fd h hfd
  obtain ⟨p₁, hc⟩ : ∃ p₁, p.handleClose h = .ok p₁ := by
    unfold PollerEpoll.handleClose
    rw [halive]
    cases hk : (p.handlers h).kind with
    | event => exact ⟨_, rfl⟩
    | client => exact ⟨_, rfl⟩
    | mqtt hasContext =>
        cases hasContext with
        | true => exact ⟨_, rfl⟩
        | false => exact absurd hk hkind
  obtain ⟨-, -, -, hothers, hkernel, hmap⟩ := PollerEpoll.handleClose_ok hc
  obtain ⟨-, hinterest, herase, -⟩ := PollerEpoll.close_eq hhandle
  rw [herase, if_neg hwatched] at hmap
  refine ⟨p₁, hc, hmap, fun fd' h' hk => ?_⟩
  rw [hmap] at hk
  have hne : fd' ≠ fd := by
    rintro rfl
    rw [AList.lookup_erase] at hk
    cases hk
  rw [AList.lookup_erase_ne hne] at hk
  obtain ⟨halive', hhandle', hwatched', hkind'⟩ := hp fd' h' hk
  have hother : h' ≠ h := by
    rintro rfl
    rw [hhandle] at hhandle'
    exact hne (Option.some.inj hhandle').symm
  rw [hothers h' hother, hkernel, hinterest, Function.update_of_ne hne]
  exact ⟨halive', hhandle', hwatched', hkind'⟩

/-- **The loop ends** when every handler is in its place, after as many rounds as there are entries. -/
theorem InPlace.closesAll (beg : Begin) (n : Nat) : ∀ p : PollerEpoll, p.mapEventHandlers.keys.length = n → InPlace p →
    ∃ calls p', p.closeLoop beg n = .ok (calls, p') ∧ (∀ fd, p'.mapEventHandlers.lookup fd = none) ∧ calls.Nodup ∧
      ∀ h, h ∈ calls ↔ ∃ fd, p.mapEventHandlers.lookup fd = some h := by
  -- on the entries left in the table: each call takes one out
  induction n with
  | zero =>
      intro p hlen _
      have hempty : ∀ fd, p.mapEventHandlers.lookup fd = none := by
        intro fd
        refine AList.lookup_eq_none.mpr fun hx => ?_
        have hkeys : fd ∈ p.mapEventHandlers.keys := hx
        rw [List.length_eq_zero_iff.mp hlen] at hkeys
        exact List.not_mem_nil hkeys
      refine ⟨[], p, ?_, hempty, List.nodup_nil, fun h => iff_of_false List.not_mem_nil ?_⟩
      · unfold PollerEpoll.closeLoop
        cases hf : beg.first p.mapEventHandlers with
        | none => rfl
        | some e =>
            have hin := beg.first_mem _ e.1 e.2 hf
            rw [hempty] at hin
            cases hin
      · rintro ⟨fd, hfd⟩
        rw [hempty] at hfd
        cases hfd
  | succ n ih =>
      intro p hlen hp
      cases hf : beg.first p.mapEventHandlers with
      | none =>
          have hempty := beg.first_none _ hf
          obtain ⟨fd, hfd⟩ := List.exists_mem_of_length_pos (by rw [hlen]; exact Nat.succ_pos n)
          have hin : (p.mapEventHandlers.lookup fd).isSome = true := AList.lookup_isSome.mpr hfd
          rw [hempty] at hin
          cases hin
      | some e =>
          obtain ⟨fd, h⟩ := e
          have hfd := beg.first_mem _ fd h hf
          obtain ⟨p₁, hc, hmap, hp₁⟩ := hp.handleClose hfd
          have hkey : fd ∈ p.mapEventHandlers.keys := AList.lookup_isSome.mp (by rw [hfd]; rfl)
          obtain ⟨calls, p', hloop, hdone, hnodup, hcalls⟩ := ih p₁ (by
            rw [hmap, AList.keys_erase, List.length_erase_of_mem hkey, hlen]
            rfl) hp₁
          have hwhose : ∀ h', (∃ fd', p₁.mapEventHandlers.lookup fd' = some h') ↔
              ∃ fd', fd' ≠ fd ∧ p.mapEventHandlers.lookup fd' = some h' := by
            intro h'
            refine exists_congr fun fd' => ?_
            rw [hmap]
            by_cases hne : fd' = fd
            · rw [hne, AList.lookup_erase]
              exact iff_of_false (fun hx => by cases hx) fun hx => hx.1 rfl
            · rw [AList.lookup_erase_ne hne]
              exact ⟨fun hx => ⟨hne, hx⟩, fun hx => hx.2⟩
          refine ⟨h :: calls, p', ?_, hdone, List.nodup_cons.mpr ⟨fun hin => ?_, hnodup⟩, fun h' => ?_⟩
          · unfold PollerEpoll.closeLoop
            rw [hf]
            simp only [hc, hloop]
            rfl
          · -- the handler has one descriptor, so one entry
            obtain ⟨fd', hne, hfd'⟩ := (hwhose h).mp ((hcalls h).mp hin)
            have hhandle := (hp fd h hfd).2.1
            rw [(hp fd' h hfd').2.1] at hhandle
            exact hne (Option.some.inj hhandle)
          · rw [List.mem_cons, hcalls, hwhose]
            constructor
            · rintro (rfl | ⟨fd', -, hfd'⟩)
              · exact ⟨fd, hfd⟩
              · exact ⟨fd', hfd'⟩
            · rintro ⟨fd', hfd'⟩
              by_cases hne : fd' = fd
              · rw [hne, hfd] at hfd'
                exact Or.inl (Option.some.inj hfd').symm
              · exact Or.inr ⟨fd', hne, hfd'⟩

/-- **A loop that ends** has found every handler in its place: whoever is not keeps its entry, and is not closed again. -/
theorem inPlace_of_closeLoop (beg : Begin) (fuel : Nat) : ∀ (p p' : PollerEpoll) (calls : List HandlerId),
    p.closeLoop beg fuel = .ok (calls, p') → InPlace p := by
  induction fuel with
  | zero =>
      intro p p' calls hloop fd h hfd
      unfold PollerEpoll.closeLoop at hloop
      cases hf : beg.first p.mapEventHandlers with
      | none =>
          rw [beg.first_none _ hf] at hfd
          cases hfd
      | some e =>
          rw [hf] at hloop
          cases hloop
  | succ fuel ih =>
      intro p p' calls hloop fd' h' hfd'
      unfold PollerEpoll.closeLoop at hloop
      cases hf : beg.first p.mapEventHandlers with
      | none =>
          rw [beg.first_none _ hf] at hfd'
          cases hfd'
      | some e =>
          obtain ⟨fd, h⟩ := e
          have hfd := beg.first_mem _ fd h hf
          rw [hf] at hloop
          simp only at hloop
          cases hc : p.handleClose h with
          | error f =>
              rw [hc] at hloop
              cases hloop
          | ok p₁ =>
              rw [hc] at hloop
              simp only at hloop
              have hp₁ : InPlace p₁ := by
                cases hrest : p₁.closeLoop beg fuel with
                | error f =>
                    rw [hrest] at hloop
                    cases hloop
                | ok r => exact ih p₁ r.2 r.1 hrest
              obtain ⟨halive, hkind, hnone, hothers, hkernel, hmap⟩ := PollerEpoll.handleClose_ok hc
              -- the handler has no descriptor any more, so its entry must be gone
              have hgone : ∀ k, p₁.mapEventHandlers.lookup k ≠ some h := by
                intro k hk
                have hplace := (hp₁ k h hk).2.1
                rw [hnone] at hplace
                cases hplace
              have hself : (p.handlers h).sockHandle = some fd ∧ p.kernel.interest fd ≠ none := by
                cases hhandle : (p.handlers h).sockHandle with
                | none =>
                    rw [PollerEpoll.close_none hhandle] at hmap
                    exact absurd (hmap ▸ hfd) (hgone fd)
                | some k =>
                    obtain ⟨-, -, herase, -⟩ := PollerEpoll.close_eq hhandle
                    rw [herase] at hmap
                    by_cases hwatched : p.kernel.interest k = none
                    · rw [if_pos hwatched] at hmap
                      exact absurd (hmap ▸ hfd) (hgone fd)
                    · rw [if_neg hwatched] at hmap
                      by_cases hk : fd = k
                      · rw [hk]
                        exact ⟨rfl, hwatched⟩
                      · refine absurd ?_ (hgone fd)
                        rw [hmap, AList.lookup_erase_ne hk]
                        exact hfd
              obtain ⟨-, hinterest, herase, -⟩ := PollerEpoll.close_eq hself.1
              rw [herase, if_neg hself.2] at hmap
              by_cases hne : fd' = fd
              · rw [hne, hfd] at hfd'
                cases hfd'
                rw [hne]
                exact ⟨halive, hself.1, hself.2, hkind⟩
              · have hstill : p₁.mapEventHandlers.lookup fd' = some h' := by
                  rw [hmap, AList.lookup_erase_ne hne]
                  exact hfd'
                have hother : h' ≠ h := by
                  rintro rfl
                  exact hgone fd' hstill
                have hplace := hp₁ fd' h' hstill
                rw [hothers h' hother, hkernel, hinterest, Function.update_of_ne hne] at hplace
                exact hplace

/-- **The poller closes everything exactly when** every handler is in its place. -/
theorem closes_all_iff (beg : Begin) (p : PollerEpoll) : ClosesAll beg p ↔ InPlace p := by
  constructor
  · rintro ⟨fuel, calls, p', hloop, -⟩
    exact inPlace_of_closeLoop beg fuel p p' calls hloop
  · intro hp
    obtain ⟨calls, p', hloop, hrest⟩ := hp.closesAll beg _ p rfl
    exact ⟨_, calls, p', hloop, hrest⟩

/-- A client that has not connected. -/
def PollerEpoll.clients : PollerEpoll := { handlers := fun _ => { kind := .client } }

theorem lookup_of_head (map : AList (fun _ : Nat => HandlerId)) (fd : Nat) (h : HandlerId)
    (hhead : (map.entries.head?.map fun e => (e.1, e.2)) = some (fd, h)) : map.lookup fd = some h := by
  obtain ⟨e, hmem, heq⟩ := Option.map_eq_some_iff.mp hhead
  cases heq
  exact AList.mem_lookup_iff.mpr (List.mem_of_mem_head? hmem)

theorem lookup_of_no_head (map : AList (fun _ : Nat => HandlerId))
    (hhead : (map.entries.head?.map fun e => (e.1, e.2)) = none) (fd : Nat) : map.lookup fd = none := by
  have hempty := List.head?_eq_none_iff.mp (Option.map_eq_none_iff.mp hhead)
  unfold AList.lookup
  rw [hempty]
  exact List.dlookup_nil fd

/-- A map whose `begin()` is the entry that was made last. -/
def Begin.latest : Begin where
  first map := map.entries.head?.map fun e => (e.1, e.2)
  first_mem := lookup_of_head
  first_none := lookup_of_no_head

/-- **A client that has reconnected** while its connection was in progress is in the map twice, and the loop does not end. -/
theorem not_closes_all : ¬ ClosesAll .latest
    ((PollerEpoll.clients.connect 0 ⟨some 5, .inProgress, true, 1⟩).handleTimeout 0 ⟨some 6, .inProgress, true, 1⟩) := by
  rintro ⟨fuel, calls, p', hloop, -⟩
  have hplace := (inPlace_of_closeLoop .latest fuel _ p' calls hloop 5 0 rfl).2.1
  cases hplace

end MqttServer
