import Flingd.Peers.Tidy

/-! The tables of the server where ids are compared without regard to case: the maps keep keys
apart that differ in case only, the server does not make any. -/
namespace Flingd.Peers.PeerServer
open Http Outcome
variable {ν : Type} {m : StdMap Bytes ν} {s s' : PeerServer}

/-! ### Keys -/

/-- No two keys are one id. -/
def KeysApart (m : StdMap Bytes ν) : Prop :=
  m.entries.Pairwise fun e e' => iequals e.1 e'.1 = false

def matching (m : StdMap Bytes ν) (id : Bytes) : List (Bytes × ν) :=
  m.entries.filter fun e => iequals id e.1

theorem KeysApart.of_eq (h : ∀ e ∈ m.entries, ∀ e' ∈ m.entries, iequals e.1 e'.1 = true → e = e') :
    KeysApart m := by
  refine m.sorted.imp_of_mem fun {e e'} he he' hlt => ?_
  by_contra heq
  have hsame := h e he e' he' ((Bool.not_eq_false _).mp heq)
  exact lt_irrefl _ (hsame ▸ hlt)

theorem iequals_trans {a b c : Bytes} (hab : iequals a b = true) (hac : iequals a c = true) :
    iequals b c = true := by
  rwa [← iequals_congr hab]

theorem KeysApart.eq (h : KeysApart m) {e e' : Bytes × ν} (he : e ∈ m.entries)
    (he' : e' ∈ m.entries) (hk : iequals e.1 e'.1 = true) : e = e' := by
  by_contra hne
  have : Std.Symm fun e e' : Bytes × ν => iequals e.1 e'.1 = false :=
    ⟨fun _ _ h => (iequals_comm _ _).trans h⟩
  have hapart := List.Pairwise.forall h he he' hne
  rw [hk] at hapart
  cases hapart

/-- There is at most one entry to stop at. -/
theorem KeysApart.matching_le_one (h : KeysApart m) (id : Bytes) : (matching m id).length ≤ 1 := by
  have hpair : (matching m id).Pairwise fun e e' => iequals e.1 e'.1 = false :=
    List.Pairwise.sublist List.filter_sublist h
  have hkey : ∀ e ∈ matching m id, iequals id e.1 = true := fun e he => (List.mem_filter.mp he).2
  match hlist : matching m id with
  | [] => exact Nat.zero_le 1
  | [_] => exact le_rfl
  | e :: e' :: _ =>
    rw [hlist] at hpair hkey
    have hapart := (List.pairwise_cons.mp hpair).1 e' (by simp)
    rw [iequals_trans (hkey e (by simp)) (hkey e' (by simp))] at hapart
    cases hapart

/-- Once the entry is gone, no spelling of the id finds another. -/
theorem KeysApart.scan_erased (h : KeysApart m) {id id' : Bytes} (hid : iequals id id' = true) :
    (m.eraseFirst (iequals id)).scan (iequals id') = none := by
  rw [← iequals_congr hid]
  cases hscan : m.scan (iequals id) with
  | none => rw [StdMap.eraseFirst_of_scan_none hscan, hscan]
  | some e =>
    refine StdMap.scan_none.mpr fun e' he' => ?_
    obtain ⟨hmem, hne⟩ := (StdMap.mem_eraseFirst_iff hscan).mp he'
    obtain ⟨he, hk⟩ := StdMap.scan_some hscan
    by_contra hk'
    exact hne (h.eq hmem he (iequals_trans ((Bool.not_eq_false _).mp hk') hk))

/-! ### Tables -/

structure Consistent (s : PeerServer) : Prop where
  peers : KeysApart s.peers_
  /-- A key leads to a live peer of that id. -/
  live : ∀ e ∈ s.peers_.entries, e.2.id = e.1 ∧ s.deref e.2.ptr = .ok e.2
  queues : KeysApart s.outstandings_

theorem deref_live (hs : PeersSound s) {e : Bytes × Peer} (he : e ∈ s.peers_.entries) :
    s.deref e.2.ptr = .ok e.2 := by
  obtain ⟨p, hp⟩ := deref_total he rfl
  obtain ⟨k, hk, hptr⟩ := deref_ok hp
  rw [hp, ← hs.distinct (k, p) hk e he hptr]

theorem Consistent.of_invariants (hs : PeersSound s) (hw : Wired s) (ht : Tidy s) :
    Consistent s where
  peers := .of_eq hw.apart
  live e he := ⟨(hw.keyed e he).symm, deref_live hs he⟩
  queues := .of_eq ht.apart

theorem Consistent.getPeer_eq (h : Consistent s) {id : Bytes} {e : Bytes × Peer}
    (he : e ∈ s.peers_.entries) :
    s.getPeer id = some e.2 ↔ s.peers_.scan (iequals id) = some e := by
  constructor
  · intro hget
    obtain ⟨e', he', heq⟩ := Option.map_eq_some_iff.mp hget
    have hmem := (StdMap.scan_some he').1
    have hkey : e'.1 = e.1 := by rw [← (h.live e' hmem).1, ← (h.live e he).1, heq]
    rw [he', StdMap.eq_of_key_eq hmem he hkey]
  · intro hscan
    rw [getPeer, hscan]
    rfl

/-- A removal takes the peer that is found under the id, and no other. -/
theorem Consistent.removes (h : Consistent s) (id : Bytes) (e : Bytes × Peer) :
    e ∈ (s.removePeer id).peers_.entries ↔ e ∈ s.peers_.entries ∧ s.getPeer id ≠ some e.2 :=
  (removePeer_entries s id e).trans (and_congr_right fun he => not_congr (h.getPeer_eq he).symm)

theorem Consistent.removed (h : Consistent s) {id id' : Bytes} (hid : iequals id id' = true) :
    (s.removePeer id).getPeer id' = none :=
  getPeer_none.mpr (h.peers.scan_erased hid)

theorem Reachable.consistent (h : Reachable s) : Consistent s :=
  .of_invariants h.sound.peers h.wired h.tidy

/-! ### The empty id -/

/-- A connection without an id is refused. -/
theorem connect_nameless {url : Option Url} (hs : Sound s) (h : s.getPeer (str "") = none)
    (hc : s.connect url = .ok s') : s'.getPeer (str "") = none := by
  have hopened : s.opened.getPeer (str "") = none := h
  rcases connect_cases hs hc with
    ⟨m, rfl, -⟩ | ⟨id, token, hid, m, ⟨-, rfl, -⟩ | ⟨p, -, rfl | rfl, -⟩⟩
  · exact hopened
  · have hne : iequals (str "") id = false := (iequals_comm _ _).trans hid
    exact getPeer_none.mpr ((StdMap.scan_insert_other _ hne).trans (getPeer_none.mp hopened))
  · exact getPeer_withPeer_none (s := s.opened.removePeerMessages id) hopened
  · exact getPeer_withPeer_none (s := s.opened) hopened

theorem step_nameless {e : Event} (hs : Sound s) (h : s.getPeer (str "") = none)
    (hstep : s.step e = .ok s') : s'.getPeer (str "") = none := by
  cases e with
  | connect url => exact connect_nameless hs h hstep
  | message i d => exact getPeer_none_of_lost (message_loses hs hstep).peers h
  | closed i =>
    obtain ⟨t, hl, rfl⟩ := closed_loses hstep
    exact getPeer_none_of_lost hl.peers h
  | cleanup => exact getPeer_none_of_lost (handleCleanupIntervals_loses hs hstep).peers h

theorem Reachable.no_nameless (h : Reachable s) : s.getPeer (str "") = none := by
  obtain ⟨es, h⟩ := h
  exact (foldlM_keeps (I := fun t => Sound t ∧ t.getPeer (str "") = none)
    (fun _ _ _ _ ht hstep => ⟨step_sound ht.1 hstep, step_nameless ht.1 ht.2 hstep⟩)
    ⟨start_sound, rfl⟩ h).2

/-- In a run a LEAVE without destination takes its source off the table. -/
theorem Reachable.leave_removes (h : Reachable s) {pm : PeerMessage}
    (htype : iequals pm.type (str "LEAVE") = true) (hdst : iequals pm.dst (str "") = true) :
    s.handleTransmission pm = .ok (s.removePeer pm.src) := by
  have hp : s.getPeer pm.dst = none := by rw [getPeer_congr hdst, h.no_nameless]
  simp only [handleTransmission, transmit, hp, htype, hdst, not_true_eq_false, false_and, if_false,
    and_self, if_true]

/-! ### The result -/

theorem tables_consistent {es : List Event} (h : start.run es = .ok s) :
    s.Consistent ∧ ∀ id,
      (matching s.peers_ id).length ≤ 1 ∧ (matching s.outstandings_ id).length ≤ 1 ∧
      (∀ e, e ∈ (s.removePeer id).peers_.entries ↔
        e ∈ s.peers_.entries ∧ s.getPeer id ≠ some e.2) ∧
      ∀ id', iequals id id' = true → (s.removePeer id).getPeer id' = none := by
  have hc : s.Consistent := Reachable.consistent ⟨es, h⟩
  refine ⟨hc, fun id => ⟨hc.peers.matching_le_one id, hc.queues.matching_le_one id, ?_, ?_⟩⟩
  · exact hc.removes id
  · exact fun id' hid => hc.removed hid

/-- A peer sends to ids that are spelled in two ways. -/
theorem tables_consistent_spelled : ∃ s, start.run [.connect (some (peerUrl (str "a") (str "t"))),
      .connect (some (peerUrl (str "A") (str "T"))),
      .message 1 (some ⟨.string (str "OFFER"), .string (str "b"), .other, fun _ => []⟩),
      .message 1 (some ⟨.string (str "OFFER"), .string (str "B"), .other, fun _ => []⟩)] = .ok s ∧
    (s.Consistent ∧ ∀ id,
      (matching s.peers_ id).length ≤ 1 ∧ (matching s.outstandings_ id).length ≤ 1 ∧
      (∀ e, e ∈ (s.removePeer id).peers_.entries ↔
        e ∈ s.peers_.entries ∧ s.getPeer id ≠ some e.2) ∧
      ∀ id', iequals id id' = true → (s.removePeer id).getPeer id' = none) := by
  have hrun : ∃ s, start.run [.connect (some (peerUrl (str "a") (str "t"))),
      .connect (some (peerUrl (str "A") (str "T"))),
      .message 1 (some ⟨.string (str "OFFER"), .string (str "b"), .other, fun _ => []⟩),
      .message 1 (some ⟨.string (str "OFFER"), .string (str "B"), .other, fun _ => []⟩)] =
        .ok s := ⟨_, rfl⟩
  obtain ⟨s, hrun⟩ := hrun
  exact ⟨s, hrun, tables_consistent hrun⟩

end Flingd.Peers.PeerServer
