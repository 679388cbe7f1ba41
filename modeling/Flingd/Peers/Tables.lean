import Flingd.Peers.PeerServer

/-! What the operations of the server do to its two tables. -/
namespace Flingd.Peers.PeerServer
open Http Outcome
variable {s s' : PeerServer}

/-! ### Sessions -/

theorem derefSession_ok {i : Nat} {w : WebsocketSession} :
    s.derefSession i = .ok w ↔ s.sessions i = some w := by
  unfold derefSession
  cases s.sessions i <;> simp

@[simp] theorem setSession_sessions (i : Nat) (w : Option WebsocketSession) :
    (s.setSession i w).sessions i = w := by
  simp [setSession]

@[simp] theorem setSession_setSession (i : Nat) (w w' : Option WebsocketSession) :
    (s.setSession i w).setSession i w' = s.setSession i w' := by
  simp only [setSession]
  congr
  funext j
  split <;> rfl

theorem setSession_of_sessions {i : Nat} {w : Option WebsocketSession} (h : s.sessions i = w) :
    s.setSession i w = s := by
  have hm : (fun j => if j = i then w else s.sessions j) = s.sessions := by
    funext j
    split
    · rw [‹j = i›, h]
    · rfl
  simp only [setSession, hm]

theorem updateSession_ok {i : Nat} {f : WebsocketSession → WebsocketSession} :
    s.updateSession i f = .ok s' ↔
      ∃ w, s.sessions i = some w ∧ s' = s.setSession i (some (f w)) := by
  unfold updateSession
  rw [bind_eq_ok]
  simp only [derefSession_ok, Except.ok.injEq]
  exact ⟨fun ⟨w, hw, h⟩ => ⟨w, hw, h.symm⟩, fun ⟨w, hw, h⟩ => ⟨w, hw, h.symm⟩⟩

/-- A send changes sessions only. -/
theorem sendTo_frame {i : Nat} {f : Frame} (h : s.sendTo i f = .ok s') :
    ∃ m, s' = { s with sessions := m } := by
  obtain ⟨w, -, rfl⟩ := updateSession_ok.mp h
  exact ⟨_, rfl⟩

theorem close_frame {i : Nat} (h : s.close i = .ok s') : ∃ m, s' = { s with sessions := m } := by
  obtain ⟨w, -, h⟩ := bind_eq_ok.mp h
  split at h
  · obtain ⟨w, -, rfl⟩ := updateSession_ok.mp h
    exact ⟨_, rfl⟩
  · cases h

theorem sendError_frame {i : Nat} {errType errMsg : Bytes}
    (h : s.sendError i errType errMsg = .ok s') : ∃ m, s' = { s with sessions := m } := by
  obtain ⟨s₁, h₁, h⟩ := bind_eq_ok.mp h
  obtain ⟨m, rfl⟩ := sendTo_frame h₁
  obtain ⟨m', rfl⟩ := close_frame h
  exact ⟨m', rfl⟩

theorem initSession_frame {ptr i : Nat} (h : s.initSession ptr i = .ok s') :
    ∃ m, s' = { s with sessions := m } := by
  obtain ⟨w, -, rfl⟩ := updateSession_ok.mp h
  exact ⟨_, rfl⟩

theorem sendTo_open {i : Nat} {w : WebsocketSession} (f : Frame) (h : s.sessions i = some w)
    (ho : w.isOpen = true) :
    s.sendTo i f = .ok (s.setSession i (some { w with sent := w.sent ++ [f] })) := by
  refine updateSession_ok.mpr ⟨w, h, ?_⟩
  rw [if_pos ho]

/-! ### What the sessions are bound to -/

def bindings (s : PeerServer) (i : Nat) : Option (Option Nat) :=
  (s.sessions i).map WebsocketSession.bound

theorem bindings_setSession (i : Nat) (w : Option WebsocketSession) :
    (s.setSession i w).bindings = Function.update s.bindings i (w.map WebsocketSession.bound) := by
  funext j
  by_cases hj : j = i
  · subst hj
    rw [bindings, setSession_sessions, Function.update_self]
  · rw [Function.update_of_ne hj, bindings, setSession]
    simp only [if_neg hj]
    rfl

theorem updateSession_bindings {i : Nat} {f : WebsocketSession → WebsocketSession}
    (hf : ∀ w, (f w).bound = w.bound) (h : s.updateSession i f = .ok s') :
    s'.bindings = s.bindings := by
  obtain ⟨w, hw, rfl⟩ := updateSession_ok.mp h
  have hsame : s.bindings i = some w.bound := by
    rw [bindings, hw]
    rfl
  rw [bindings_setSession, Option.map_some, hf, ← hsame, Function.update_eq_self]

theorem sendTo_bindings {i : Nat} {f : Frame} (h : s.sendTo i f = .ok s') :
    s'.bindings = s.bindings := by
  refine updateSession_bindings (fun w => ?_) h
  split <;> rfl

theorem close_bindings {i : Nat} (h : s.close i = .ok s') : s'.bindings = s.bindings := by
  obtain ⟨w, -, h⟩ := bind_eq_ok.mp h
  split at h
  · refine updateSession_bindings (fun w => ?_) h
    rfl
  · cases h

theorem sendError_bindings {i : Nat} {errType errMsg : Bytes}
    (h : s.sendError i errType errMsg = .ok s') : s'.bindings = s.bindings := by
  obtain ⟨s₁, h₁, h⟩ := bind_eq_ok.mp h
  rw [close_bindings h, sendTo_bindings h₁]

theorem initSession_bindings {ptr i : Nat} (h : s.initSession ptr i = .ok s') :
    s'.bindings = Function.update s.bindings i (some (some ptr)) := by
  obtain ⟨w, -, rfl⟩ := updateSession_ok.mp h
  exact bindings_setSession i _

/-! ### Peers -/

def withPeer (s : PeerServer) (ptr : Nat) (f : Peer → Peer) : PeerServer :=
  { s with peers_ := s.peers_.mapValues fun p => if p.ptr = ptr then f p else p }

theorem deref_ok {ptr : Nat} {p : Peer} (h : s.deref ptr = .ok p) :
    ∃ k, (k, p) ∈ s.peers_.entries ∧ p.ptr = ptr := by
  unfold deref at h
  split at h
  · rename_i e he
    cases h
    exact ⟨e.1, List.mem_of_find?_eq_some he, by simpa using List.find?_some he⟩
  · cases h

theorem deref_total {ptr : Nat} {e : Bytes × Peer} (h : e ∈ s.peers_.entries)
    (hp : e.2.ptr = ptr) : ∃ p, s.deref ptr = .ok p := by
  unfold deref
  cases hf : s.peers_.entries.find? fun e => e.2.ptr = ptr with
  | some e => exact ⟨e.2, rfl⟩
  | none =>
    rw [List.find?_eq_none] at hf
    exact absurd (by simpa using hp) (hf e h)

theorem updatePeer_ok {ptr : Nat} {f : Peer → Peer} (h : s.updatePeer ptr f = .ok s') :
    s' = s.withPeer ptr f := by
  obtain ⟨p, -, h⟩ := bind_eq_ok.mp h
  cases h
  rfl

theorem updatePeer_total {ptr : Nat} {e : Bytes × Peer} (f : Peer → Peer)
    (h : e ∈ s.peers_.entries) (hp : e.2.ptr = ptr) :
    s.updatePeer ptr f = .ok (s.withPeer ptr f) := by
  obtain ⟨p, hd⟩ := deref_total h hp
  unfold updatePeer
  rw [hd]
  rfl

theorem removePeer_entries (s : PeerServer) (id : Bytes) (e : Bytes × Peer) :
    e ∈ (s.removePeer id).peers_.entries ↔
      e ∈ s.peers_.entries ∧ s.peers_.scan (iequals id) ≠ some e := by
  cases hscan : s.peers_.scan (iequals id) with
  | none =>
    rw [removePeer, StdMap.eraseFirst_of_scan_none hscan]
    simp
  | some e₀ =>
    refine (StdMap.mem_eraseFirst_iff hscan).trans (and_congr_right fun _ => ?_)
    rw [ne_eq, ne_eq, Option.some.injEq, eq_comm]

theorem getPeer_some {id : Bytes} {p : Peer} (h : s.getPeer id = some p) :
    ∃ k, (k, p) ∈ s.peers_.entries ∧ iequals id k = true := by
  obtain ⟨e, he, rfl⟩ := Option.map_eq_some_iff.mp h
  exact ⟨e.1, (StdMap.scan_some he).1, (StdMap.scan_some he).2⟩

theorem getPeer_none {id : Bytes} : s.getPeer id = none ↔ s.peers_.scan (iequals id) = none := by
  simp [getPeer]

/-- Ids are compared without regard to case. -/
theorem getPeer_congr {id id' : Bytes} (h : iequals id id' = true) :
    s.getPeer id = s.getPeer id' := by
  unfold getPeer
  rw [iequals_congr h]

theorem getPeerMessages_congr {id id' : Bytes} (h : iequals id id' = true) :
    s.getPeerMessages id = s.getPeerMessages id' := by
  unfold getPeerMessages
  rw [iequals_congr h]

theorem getPeer_withPeer (ptr : Nat) (f : Peer → Peer) (id : Bytes) :
    (s.withPeer ptr f).getPeer id =
      (s.getPeer id).map fun p => if p.ptr = ptr then f p else p := by
  unfold getPeer withPeer
  rw [StdMap.scan_mapValues, Option.map_map, Option.map_map]
  rfl

structure PeersSound (s : PeerServer) : Prop where
  session : ∀ e ∈ s.peers_.entries, ∃ ws < s.nextSession, e.2.session = some ws
  fresh : ∀ e ∈ s.peers_.entries, e.2.ptr < s.nextPeer
  distinct : ∀ e ∈ s.peers_.entries, ∀ e' ∈ s.peers_.entries, e.2.ptr = e'.2.ptr → e = e'
  slots : ∀ e ∈ s.peers_.entries, 1 ≤ e.2.messageSlots

theorem PeersSound.lost (h : PeersSound s) (hn : s'.nextSession = s.nextSession)
    (hp : s'.nextPeer = s.nextPeer) (hl : ∀ e ∈ s'.peers_.entries, e ∈ s.peers_.entries) :
    PeersSound s' where
  session e he := hn ▸ h.session e (hl e he)
  fresh e he := hp ▸ h.fresh e (hl e he)
  distinct e he e' he' := h.distinct e (hl e he) e' (hl e' he')
  slots e he := h.slots e (hl e he)

theorem PeersSound.removePeer (h : PeersSound s) (id : Bytes) : PeersSound (s.removePeer id) :=
  h.lost rfl rfl fun _ => StdMap.mem_eraseFirst

/-- A changed peer keeps its pointer and has a session that is not newer than the newest. -/
theorem PeersSound.withPeer {ptr : Nat} {f : Peer → Peer} (h : PeersSound s)
    (hptr : ∀ p, (f p).ptr = p.ptr)
    (hf : ∀ p : Peer, 1 ≤ p.messageSlots → 1 ≤ (f p).messageSlots)
    (hs : ∀ p : Peer, (∃ ws < s.nextSession, p.session = some ws) →
      ∃ ws < s.nextSession, (f p).session = some ws) : PeersSound (s.withPeer ptr f) := by
  have hp : ∀ p : Peer, (if p.ptr = ptr then f p else p).ptr = p.ptr := by
    intro p
    split
    · exact hptr p
    · rfl
  refine ⟨fun e he => ?_, fun e he => ?_, fun e he e' he' heq => ?_, fun e he => ?_⟩ <;>
    obtain ⟨e₀, h₀, rfl⟩ := List.mem_map.mp he
  · change ∃ ws < s.nextSession, (ite _ _ _ : Peer).session = some ws
    split
    · exact hs _ (h.session e₀ h₀)
    · exact h.session e₀ h₀
  · change (ite _ _ _ : Peer).ptr < s.nextPeer
    rw [hp]
    exact h.fresh e₀ h₀
  · obtain ⟨e₁, h₁, rfl⟩ := List.mem_map.mp he'
    simp only [hp] at heq
    rw [h.distinct e₀ h₀ e₁ h₁ heq]
  · change 1 ≤ (ite _ _ _ : Peer).messageSlots
    split
    · exact hf _ (h.slots e₀ h₀)
    · exact h.slots e₀ h₀

/-! ### Queues -/

/-- What holds of the queues between two events: none is deleted, and a message waits in
the queue of its destination. -/
def QueuesSound (s : PeerServer) : Prop :=
  ∀ e ∈ s.outstandings_.entries, ∃ l, e.2 = some l ∧ ∀ pm ∈ l, iequals e.1 pm.dst = true

theorem QueuesSound.getPeerMessages {id : Bytes} {q : Queue} (h : QueuesSound s)
    (hq : s.getPeerMessages id = some q) :
    ∃ l, q = some l ∧ ∀ pm ∈ l, iequals id pm.dst = true := by
  obtain ⟨e, he, rfl⟩ := Option.map_eq_some_iff.mp hq
  obtain ⟨he, hk⟩ := StdMap.scan_some he
  obtain ⟨l, hl, hdst⟩ := h e he
  refine ⟨l, hl, fun pm hpm => ?_⟩
  rw [iequals_congr hk]
  exact hdst pm hpm

def waiting (s : PeerServer) (id : Bytes) : Option (List PeerMessage) :=
  (s.getPeerMessages id).join

theorem waiting_congr {id id' : Bytes} (h : iequals id id' = true) :
    s.waiting id = s.waiting id' := by
  unfold waiting
  rw [getPeerMessages_congr h]

theorem QueuesSound.erase {id : Bytes} (h : QueuesSound s) :
    QueuesSound (s.removePeerMessages id) :=
  fun e he => h e (StdMap.mem_eraseFirst he)

theorem QueuesSound.addPeerMessages {pm : PeerMessage} (h : QueuesSound s)
    (ha : s.addPeerMessages pm.dst pm = .ok s') : QueuesSound s' := by
  unfold PeerServer.addPeerMessages at ha
  cases hq : s.getPeerMessages pm.dst with
  | none =>
    rw [hq] at ha
    cases ha
    intro e he
    rcases StdMap.mem_insert he with rfl | he
    · exact ⟨[], rfl, by simp⟩
    · exact h e he
  | some q =>
    obtain ⟨l, rfl, hdst⟩ := h.getPeerMessages hq
    rw [hq] at ha
    cases ha
    intro e he
    rcases StdMap.mem_modifyFirst he with he | ⟨e', he', hs, rfl⟩
    · exact h e he
    · have hk : iequals pm.dst e'.1 = true := (StdMap.scan_some hs).2
      refine ⟨_, rfl, fun pm' hpm' => ?_⟩
      rw [← iequals_congr hk]
      rcases List.mem_append.mp hpm' with hpm' | hpm'
      · exact hdst pm' hpm'
      · rw [List.mem_singleton.mp hpm', iequals_refl]

/-- What storing a message does to the queue of its destination: the message that makes the
queue does not get into it. -/
def enqueue : Option (List PeerMessage) → PeerMessage → Option (List PeerMessage)
  | none, _ => some []
  | some l, pm => some (l ++ [pm])

theorem addPeerMessages_waiting {b : Bytes} {pm : PeerMessage} (hb : iequals b pm.dst = true)
    (h : s.addPeerMessages pm.dst pm = .ok s') : s'.waiting b = enqueue (s.waiting b) pm := by
  rw [waiting_congr (s := s) hb, waiting_congr (s := s') hb]
  unfold PeerServer.addPeerMessages at h
  cases hq : s.getPeerMessages pm.dst with
  | none =>
    rw [hq] at h
    cases h
    have hnew : s.outstandings_.scan (iequals pm.dst) = none := by
      simpa [PeerServer.getPeerMessages] using hq
    have hw : s.waiting pm.dst = none := by simp [waiting, hq]
    rw [hw]
    simp [waiting, enqueue, PeerServer.getPeerMessages,
      StdMap.scan_insert_new _ hnew (iequals_refl pm.dst)]
  | some q =>
    rw [hq] at h
    cases q with
    | none => cases h
    | some l =>
      cases h
      obtain ⟨e, he, -⟩ := Option.map_eq_some_iff.mp hq
      have hw : s.waiting pm.dst = some l := by simp [waiting, hq]
      rw [hw]
      simp [waiting, enqueue, PeerServer.getPeerMessages, StdMap.scan_modifyFirst, he]

theorem addPeerMessages_other {b : Bytes} {pm : PeerMessage} (hb : iequals b pm.dst = false)
    (h : s.addPeerMessages pm.dst pm = .ok s') : s'.waiting b = s.waiting b := by
  unfold PeerServer.addPeerMessages at h
  unfold waiting PeerServer.getPeerMessages
  split at h <;> cases h
  · rw [StdMap.scan_insert_other _ hb]
  · rw [StdMap.scan_modifyFirst_other _ fun k hk => iequals_disjoint hb k hk]

end Flingd.Peers.PeerServer
