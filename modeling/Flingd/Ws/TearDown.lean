import Flingd.Ws.Routes

/-! When the teardown of a receiver channel comes to its end. -/
namespace Flingd.Ws.WebsocketServer
open Outcome
variable {json : Rapidjson} {s s' : WebsocketServer} {n r : Nat} {id channelId : Bytes}
  {senders : StdMap Bytes Nat} {es : List Event}

/-! ### Runs -/

/-- Whatever comes to its end leaves the tables linked, also where a message comes after `close`. -/
theorem Linked.step {e : Event} (h : Linked s) (hstep : s.step json e = .ok s') : Linked s' := by
  by_cases he : Deliverable s e
  · exact (step_ends json h he).of_ok hstep
  · cases e with
    | message n msg =>
      have hnot : ∀ id, s.handler n ≠ some (.sender id none) := by
        intro id hn
        rw [WebsocketServer.step, onMessage, hn] at hstep
        cases hstep
      exact (onMessage_ends h hnot).of_ok hstep
    | connect | closing | closed => exact absurd trivial he

theorem run_linked (hrun : start.run json es = .ok s) : Linked s :=
  foldlM_keeps (fun _ _ _ _ h => h.step) Linked.start hrun

/-! ### The loop over the senders -/

def IsOpen (s : WebsocketServer) (n : Nat) : Prop := (s.sessions n).map (·.isOpen) = some true

instance (s : WebsocketServer) (n : Nat) : Decidable (IsOpen s n) :=
  inferInstanceAs (Decidable (_ = _))

theorem isOpen_cutAll {ns : List Nat} (hn : n ∉ ns) : IsOpen (s.cutAll ns) n ↔ IsOpen s n := by
  simp only [IsOpen, cutAll, if_neg hn]

/-- A sender is closed where its connection is open. -/
theorem closeSender_returns {channel : Option Nat} (h : s.handler n = some (.sender id channel)) :
    Returns (s.closeSender n) ↔ IsOpen s n := by
  obtain ⟨w, hw, hx⟩ := handler_iff.mp h
  have hclose : s.closeSender n = (s.setSession n (some { w with
      handler := some (.sender id none) })).close n := by
    rw [closeSender, derefSender_eq h, ok_bind]
    dsimp only
    rw [setHandler_eq hw, ok_bind]
  rw [hclose, close, derefSession_eq (Function.update_self ..), ok_bind, IsOpen, hw, Option.map_some]
  cases hopen : w.isOpen with
  | true => exact iff_of_true (Returns.ok _) rfl
  | false => exact iff_of_false (not_returns_error _) (by simp)

theorem closeSenders_returns {es : List (Bytes × Nat)}
    (h : ∀ e ∈ es, ∃ id channel, s.handler e.2 = some (.sender id channel))
    (hnodup : (es.map (·.2)).Nodup) :
    Returns (es.foldlM (fun s e => s.closeSender e.2) s) ↔ ∀ e ∈ es, IsOpen s e.2 := by
  induction es generalizing s with
  | nil => exact iff_of_true (Returns.ok s) fun _ he => absurd he List.not_mem_nil
  | cons e es ih =>
    obtain ⟨⟨id, channel, he⟩, hes⟩ := List.forall_mem_cons.mp h
    obtain ⟨hnot, hnodup⟩ := List.nodup_cons.mp hnodup
    rw [List.foldlM_cons, returns_bind, List.forall_mem_cons, ← closeSender_returns he]
    -- What follows in the loop is as it was before.
    have hrest : Returns (es.foldlM (fun s e => s.closeSender e.2) (s.cutAll [e.2])) ↔
        ∀ e' ∈ es, IsOpen s e'.2 := by
      have hne : ∀ e' ∈ es, e'.2 ∉ [e.2] := by
        intro e' he' hmem
        exact hnot (List.mem_map.mpr ⟨e', he', List.mem_singleton.mp hmem⟩)
      rw [ih _ hnodup]
      · exact forall₂_congr fun e' he' => isOpen_cutAll (hne e' he')
      · intro e' he'
        rw [handler_cutAll, if_neg (hne e' he')]
        exact hes e' he'
    constructor
    · rintro ⟨s₁, hs₁, hreturns⟩
      obtain rfl := (closeSender_ends he).of_ok hs₁
      exact ⟨⟨_, hs₁⟩, hrest.mp hreturns⟩
    · rintro ⟨⟨s₁, hs₁⟩, hopen⟩
      obtain rfl := (closeSender_ends he).of_ok hs₁
      exact ⟨_, hs₁, hrest.mpr hopen⟩

/-! ### The teardown -/

/-- The channel `r` has been torn down. -/
structure TornDown (s : WebsocketServer) (r : Nat) (channelId : Bytes) (senders : StdMap Bytes Nat)
    (s' : WebsocketServer) : Prop where
  closed : ∀ n ∈ sessionsOf senders, IsOpen s n →
    ∃ w, s'.sessions n = some w ∧ w.isOpen = false ∧ w.closeCalled = true
  empty : ∀ n id, s'.handler n ≠ some (.sender id (some r))
  gone : s'.getReceiverChannel channelId = none
  deleted : s'.sessions r = none

theorem Linked.onClose_receiver (h : Linked s)
    (hr : s.handler r = some (.receiver channelId senders)) :
    Returns (s.onClose r) ↔ ∀ e ∈ senders.entries, IsOpen s e.2 := by
  rw [← closeSenders_returns (h.live_sender hr) (h.nodup_sessionsOf hr)]
  unfold onClose
  rw [hr]
  dsimp only
  rw [returns_bind_ok]
  exact returns_bind_ok

theorem Linked.tornDown (h : Linked s) (hr : s.handler r = some (.receiver channelId senders))
    (hs' : s.onClose r = .ok s') : TornDown s r channelId senders s' := by
  unfold onClose at hs'
  rw [hr] at hs'
  obtain ⟨s₂, hs₂, hs'⟩ := bind_eq_ok.mp hs'
  obtain ⟨s₁, hs₁, hs₂⟩ := bind_eq_ok.mp hs₂
  obtain rfl : s₁ = s.cutAll (sessionsOf senders) := (closeSenders_ends (h.live_sender hr)).of_ok hs₁
  cases hs₂
  cases hs'
  have hlinked := h.remove_receiver hr
  have hdeleted : (((s.cutAll (sessionsOf senders)).removeReceiverChannel channelId).setSession
      r none).sessions r = none :=
    Function.update_self ..
  refine ⟨fun n hn hopen => ?_, fun n id hn => ?_, ?_, hdeleted⟩
  · obtain ⟨w, hw, -⟩ := Option.map_eq_some_iff.mp hopen
    refine ⟨w.cut, ?_, rfl, rfl⟩
    have hne : n ≠ r := by
      rintro rfl
      obtain ⟨id, hsender⟩ := (h.mem_sessionsOf hr).mp hn
      rw [hr] at hsender
      cases hsender
    refine (Function.update_of_ne hne _ _).trans ?_
    simp only [removeReceiverChannel, cutAll]
    rw [if_pos hn, hw, Option.map_some]
  · obtain ⟨c, x, hx, -⟩ := hlinked.channels n id r hn
    obtain ⟨w, hw, -⟩ := handler_iff.mp hx
    exact absurd (hdeleted.symm.trans hw) (Option.some_ne_none w).symm
  · have hkeys : channelId ∉ (s.receivers_.eraseFirst (channelId = ·)).keys :=
      fun hmem => (StdMap.mem_keys_eraseFirst.mp hmem).1 rfl
    rw [← StdMap.scan_isSome, Option.not_isSome_iff_eq_none] at hkeys
    exact Option.map_eq_none_iff.mpr hkeys

/-- In every state that the server comes to, the teardown of a channel comes to its end if and only
if the connections of all its senders are open. -/
theorem torn_down_iff (hrun : start.run json es = .ok s)
    (hr : s.handler r = some (.receiver channelId senders)) :
    (∃ s', s.step json (.closed r) = .ok s' ∧ TornDown s r channelId senders s') ↔
      ∀ e ∈ senders.entries, IsOpen s e.2 := by
  have h := run_linked hrun
  rw [← h.onClose_receiver hr]
  constructor
  · rintro ⟨s', hs', -⟩
    exact ⟨s', hs'⟩
  · rintro ⟨s', hs'⟩
    exact ⟨s', hs', h.tornDown hr hs'⟩

def channel : List Event :=
  [.connect (str "/channels/c"), .connect (str "/channels/c/senders/a"),
    .connect (str "/channels/c/senders/b")]

def channelSenders : StdMap Bytes Nat := (StdMap.empty.insert (str "a") 1).insert (str "b") 2

theorem torn_down_channel : ∃ s s', start.run .compact channel = .ok s ∧
    s.step .compact (.closed 0) = .ok s' ∧ TornDown s 0 (str "c") channelSenders s' := by
  obtain ⟨s, hs, htest⟩ := yields_iff.mp (show yields (start.run .compact channel) (fun s =>
    s.handler 0 = some (.receiver (str "c") channelSenders) ∧ IsOpen s 1 ∧ IsOpen s 2) = true by
      decide +kernel)
  obtain ⟨hr, hfirst, hsecond⟩ := of_decide_eq_true htest
  have hopen : ∀ e ∈ channelSenders.entries, IsOpen s e.2 := by
    intro e he
    have hentries : channelSenders.entries = [(str "a", 1), (str "b", 2)] := by decide
    rw [hentries] at he
    simp only [List.mem_cons, List.not_mem_nil, or_false] at he
    rcases he with rfl | rfl
    · exact hfirst
    · exact hsecond
  obtain ⟨s', hs'⟩ := (torn_down_iff hs hr).mpr hopen
  exact ⟨s, s', hs, hs'⟩

/-- One sender begins to close, and the receiver is closed before that sender is. -/
theorem closing_sender_stays : ∃ s, start.run .compact (channel ++ [.closing 1]) = .ok s ∧
    s.handler 0 = some (.receiver (str "c") channelSenders) ∧
    s.step .compact (.closed 0) = .error .thrown ∧
    ¬ ∃ s', s.step .compact (.closed 0) = .ok s' ∧
      TornDown s 0 (str "c") channelSenders s' := by
  obtain ⟨s, hs, htest⟩ := yields_iff.mp (show yields (start.run .compact
    (channel ++ [.closing 1])) (fun s => s.handler 0 = some (.receiver (str "c") channelSenders) ∧
      faults (s.step .compact (.closed 0)) .thrown) = true by decide +kernel)
  obtain ⟨hr, hfaults⟩ := of_decide_eq_true htest
  have hthrown := faults_iff.mp hfaults
  refine ⟨s, hs, hr, hthrown, ?_⟩
  rintro ⟨s', hs', -⟩
  rw [hthrown] at hs'
  cases hs'

end Flingd.Ws.WebsocketServer
