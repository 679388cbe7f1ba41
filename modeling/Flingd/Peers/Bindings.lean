import Flingd.Peers.Events

/-! Which peers the sessions are bound to, along a run. A session is bound when it connects, and
to one peer only. -/
namespace Flingd.Peers.PeerServer
open Http Outcome
variable {s s' : PeerServer}

/-! ### One event -/

/-- Peers may be lost, and nothing else changes but queues and what is sent. -/
structure Loses (s s' : PeerServer) : Prop where
  peers : ∀ e ∈ s'.peers_.entries, e ∈ s.peers_.entries
  bindings : s'.bindings = s.bindings
  nextSession : s'.nextSession = s.nextSession
  nextPeer : s'.nextPeer = s.nextPeer

theorem Loses.refl (s : PeerServer) : Loses s s := ⟨fun _ he => he, rfl, rfl, rfl⟩

theorem Loses.trans {s'' : PeerServer} (h : Loses s s') (h' : Loses s' s'') : Loses s s'' where
  peers e he := h.peers e (h'.peers e he)
  bindings := h'.bindings.trans h.bindings
  nextSession := h'.nextSession.trans h.nextSession
  nextPeer := h'.nextPeer.trans h.nextPeer

theorem Loses.removePeer (s : PeerServer) (id : Bytes) : Loses s (s.removePeer id) :=
  ⟨fun _ => StdMap.mem_eraseFirst, rfl, rfl, rfl⟩

theorem handleTransmission_loses {pm : PeerMessage} (hs : PeersSound s)
    (h : s.handleTransmission pm = .ok s') : Loses s s' := by
  have hb := handleTransmission_bindings hs h
  rcases handleTransmission_cases hs h with ⟨-, m, rfl⟩ | ⟨-, -, h⟩ | ⟨-, -, rfl | rfl⟩
  · exact ⟨fun _ he => he, hb, rfl, rfl⟩
  · obtain ⟨o, rfl⟩ := addPeerMessages_frame h
    exact ⟨fun _ he => he, hb, rfl, rfl⟩
  · exact .refl s'
  · exact .removePeer s pm.src

theorem onPeerMessage_loses {ptr : Nat} {d : Option Document} (hs : PeersSound s)
    (h : s.onPeerMessage ptr d = .ok s') : Loses s s' := by
  obtain ⟨p, hp, -⟩ := bind_eq_ok.mp h
  have h := onPeerMessage_ok hp h
  split at h
  · exact handleTransmission_loses hs h
  · exact h ▸ .refl s'

theorem message_loses {i : Nat} {d : Option Document} (hs : Sound s)
    (h : s.message i d = .ok s') : Loses s s' := by
  have h := message_ok h
  split at h
  · exact h ▸ .refl s'
  · obtain ⟨p, -, h⟩ := h
    exact (runSlots_keeps (I := fun t => Sound t ∧ Loses s t) (fun t t' ht h =>
      ⟨onPeerMessage_sound ht.1 h, ht.2.trans (onPeerMessage_loses ht.1.peers h)⟩) ⟨hs, .refl s⟩ h).2

theorem cleanupFrom_loses {depth : Nat} {last : Option Bytes} (hs : PeersSound s)
    (h : s.cleanupFrom depth last = .ok s') : Loses s s' := by
  induction depth generalizing s last with
  | zero => cases h
  | succ depth ih =>
    unfold cleanupFrom at h
    split at h
    · cases h
      exact .refl s'
    · cases h
    · rename_i dst pending _
      obtain ⟨s₁, h₁, h⟩ := bind_eq_ok.mp h
      have hmarked : Loses s { s with
          outstandings_ := s.outstandings_.modifyFirst (dst = ·) fun _ => none } :=
        ⟨fun _ he => he, rfl, rfl, rfl⟩
      have hs₀ : PeersSound { s with
          outstandings_ := s.outstandings_.modifyFirst (dst = ·) fun _ => none } :=
        hs.lost rfl rfl fun _ he => he
      obtain ⟨hs₁, hl⟩ := foldlM_keeps (I := fun t => PeersSound t ∧ Loses s t) (fun t t' pm _ ht h =>
        ⟨ht.1.handleTransmission h, ht.2.trans (handleTransmission_loses ht.1 h)⟩) ⟨hs₀, hmarked⟩ h₁
      exact hl.trans (ih hs₁ h)

theorem handleCleanupIntervals_loses (hs : Sound s) (h : s.handleCleanupIntervals = .ok s') :
    Loses s s' := by
  obtain ⟨s₁, h₁, h⟩ := bind_eq_ok.mp h
  cases h
  have hl := cleanupFrom_loses hs.peers h₁
  exact ⟨hl.peers, hl.bindings, hl.nextSession, hl.nextPeer⟩

/-- A session that closes loses its binding. -/
theorem closed_loses {i : Nat} (h : s.closed i = .ok s') :
    ∃ t, Loses s t ∧ s' = t.setSession i none := by
  unfold closed at h
  split at h
  · rename_i hw
    cases h
    exact ⟨s, .refl s, (setSession_of_sessions hw).symm⟩
  · rename_i w hw
    cases hb : w.bound with
    | none =>
      simp only [hb] at h
      cases h
      exact ⟨s, .refl s, rfl⟩
    | some ptr =>
      simp only [hb] at h
      obtain ⟨p, -, h⟩ := bind_eq_ok.mp h
      obtain ⟨s₁, h₁, h⟩ := bind_eq_ok.mp h
      cases h
      refine ⟨s₁, runSlots_keeps (I := Loses s) (fun t t' ht h => ?_) (.refl s) h₁, rfl⟩
      obtain ⟨id, rfl⟩ := onPeerClose_ok h
      exact ht.trans (.removePeer t id)

/-- A peer on a session, connected to its signals `n` more times. -/
def Peer.reseated (ws n : Nat) (p : Peer) : Peer :=
  { p with
    session := some ws, closeSlots := p.closeSlots + n, messageSlots := p.messageSlots + n }

/-- A connection that is refused at once, or is the first of a peer, or takes the session of a
registered peer. -/
inductive Connected (s s' : PeerServer) : Prop where
  | refused (peers : s'.peers_ = s.peers_) (nextPeer : s'.nextPeer = s.nextPeer)
      (bindings : s'.bindings = Function.update s.bindings s.nextSession (some none))
  | joined (id token : Bytes) (unknown : s.getPeer id = none)
      (peers : s'.peers_ = s.peers_.insert id ⟨s.nextPeer, id, token, some s.nextSession, 1, 1⟩)
      (nextPeer : s'.nextPeer = s.nextPeer + 1)
      (bindings : s'.bindings = Function.update s.bindings s.nextSession (some (some s.nextPeer)))
  | reseated (id : Bytes) (p : Peer) (n : Nat) (known : s.getPeer id = some p)
      (peers : s'.peers_ = s.peers_.mapValues fun q =>
        if q.ptr = p.ptr then Peer.reseated s.nextSession n q else q)
      (nextPeer : s'.nextPeer = s.nextPeer)
      (bindings : s'.bindings = Function.update s.bindings s.nextSession (some (some p.ptr)))

theorem connect_connected {url : Option Url} (hs : Sound s) (h : s.connect url = .ok s') :
    s'.nextSession = s.nextSession + 1 ∧ Connected s s' ∧
      ∀ e ∈ s'.outstandings_.entries, e ∈ s.outstandings_.entries := by
  have hopened : s.opened.bindings = Function.update s.bindings s.nextSession (some none) :=
    bindings_setSession s.nextSession (some ⟨true, none, []⟩)
  have hupdate (b : Option Nat) : Function.update s.opened.bindings s.nextSession (some b) =
      Function.update s.bindings s.nextSession (some b) := by
    rw [hopened, Function.update_idem]
  rcases connect_cases hs h with
    ⟨m, rfl, hb⟩ | ⟨id, token, -, m, ⟨hp, rfl, hb⟩ | ⟨p, hp, rfl | rfl, hb⟩⟩
  · exact ⟨rfl, .refused rfl rfl (hb.trans hopened), fun _ he => he⟩
  · exact ⟨rfl, .joined id token hp rfl rfl (hb.trans (hupdate _)), fun _ => StdMap.mem_eraseFirst⟩
  · exact ⟨rfl, .reseated id p 1 hp rfl rfl (hb.trans (hupdate _)), fun _ => StdMap.mem_eraseFirst⟩
  · exact ⟨rfl, .reseated id p 0 hp rfl rfl (hb.trans (hupdate _)), fun _ he => he⟩

/-! ### Runs -/

structure Wired (s : PeerServer) : Prop where
  /-- Sessions of later connections are not there yet. -/
  unused : ∀ i, s.nextSession ≤ i → s.bindings i = none
  /-- A session that a peer has is bound to it, while it is there. -/
  attached : ∀ e ∈ s.peers_.entries, ∀ i, e.2.session = some i → ∀ b, s.bindings i = some b →
    b = some e.2.ptr
  /-- A peer is registered under its id. -/
  keyed : ∀ e ∈ s.peers_.entries, e.1 = e.2.id
  /-- No two peers have the same id. -/
  apart : ∀ e ∈ s.peers_.entries, ∀ e' ∈ s.peers_.entries, iequals e.1 e'.1 = true → e = e'
  closes : ∀ e ∈ s.peers_.entries, 1 ≤ e.2.closeSlots

theorem Wired.loses (h : Wired s) (hl : Loses s s') : Wired s' where
  unused i hi := hl.bindings ▸ h.unused i (hl.nextSession ▸ hi)
  attached e he := hl.bindings ▸ h.attached e (hl.peers e he)
  keyed e he := h.keyed e (hl.peers e he)
  apart e he e' he' := h.apart e (hl.peers e he) e' (hl.peers e' he')
  closes e he := h.closes e (hl.peers e he)

theorem Wired.closed (h : Wired s) (i : Nat) : Wired (s.setSession i none) where
  unused j hj := by
    rw [bindings_setSession]
    by_cases hji : j = i
    · rw [hji, Function.update_self]
      rfl
    · rw [Function.update_of_ne hji]
      exact h.unused j hj
  attached e he j hj b hb := by
    rw [bindings_setSession] at hb
    by_cases hji : j = i
    · rw [hji, Function.update_self] at hb
      cases hb
    · rw [Function.update_of_ne hji] at hb
      exact h.attached e he j hj b hb
  keyed := h.keyed
  apart := h.apart
  closes := h.closes

theorem Wired.connected (h : Wired s) (hs : PeersSound s)
    (hnext : s'.nextSession = s.nextSession + 1) (hc : Connected s s') : Wired s' := by
  have hold {e : Bytes × Peer} (he : e ∈ s.peers_.entries) {i : Nat} (hi : e.2.session = some i) :
      i ≠ s.nextSession := by
    obtain ⟨ws, hws, hsession⟩ := hs.session e he
    cases hsession.symm.trans hi
    exact Nat.ne_of_lt hws
  have hunused {b : Option Nat} (hb : s'.bindings = Function.update s.bindings s.nextSession (some b))
      (i : Nat) (hi : s'.nextSession ≤ i) : s'.bindings i = none := by
    rw [hnext] at hi
    rw [hb, Function.update_of_ne (by omega)]
    exact h.unused i (by omega)
  cases hc with
  | refused hpeers hpeer hb =>
    refine ⟨hunused hb, fun e he i hi b hb' => ?_, ?_, ?_, ?_⟩
    · rw [hpeers] at he
      rw [hb, Function.update_of_ne (hold he hi)] at hb'
      exact h.attached e he i hi b hb'
    · exact hpeers ▸ h.keyed
    · exact hpeers ▸ h.apart
    · exact hpeers ▸ h.closes
  | joined id token hnone hpeers hpeer hb =>
    have hmem {e : Bytes × Peer} (he : e ∈ s'.peers_.entries) :
        e = (id, ⟨s.nextPeer, id, token, some s.nextSession, 1, 1⟩) ∨ e ∈ s.peers_.entries :=
      StdMap.mem_insert (hpeers ▸ he)
    have hnew := StdMap.scan_none.mp (getPeer_none.mp hnone)
    refine ⟨hunused hb, fun e he i hi b hb' => ?_, fun e he => ?_, fun e he e' he' heq => ?_,
      fun e he => ?_⟩
    · rcases hmem he with rfl | he
      · cases hi
        rw [hb, Function.update_self] at hb'
        exact (Option.some.inj hb').symm
      · rw [hb, Function.update_of_ne (hold he hi)] at hb'
        exact h.attached e he i hi b hb'
    · rcases hmem he with rfl | he
      · rfl
      · exact h.keyed e he
    · rcases hmem he with rfl | he <;> rcases hmem he' with rfl | he'
      · rfl
      · rw [hnew e' he'] at heq
        cases heq
      · rw [iequals_comm, hnew e he] at heq
        cases heq
      · exact h.apart e he e' he' heq
    · rcases hmem he with rfl | he
      · exact le_rfl
      · exact h.closes e he
  | reseated id p n hsome hpeers hpeer hb =>
    have hmem {e : Bytes × Peer} (he : e ∈ s'.peers_.entries) : ∃ e₀ ∈ s.peers_.entries,
        e = (e₀.1, if e₀.2.ptr = p.ptr then Peer.reseated s.nextSession n e₀.2 else e₀.2) := by
      rw [hpeers] at he
      obtain ⟨e₀, he₀, rfl⟩ := List.mem_map.mp he
      exact ⟨e₀, he₀, rfl⟩
    refine ⟨hunused hb, fun e he i hi b hb' => ?_, fun e he => ?_, fun e he e' he' heq => ?_,
      fun e he => ?_⟩
    · obtain ⟨e₀, he₀, rfl⟩ := hmem he
      dsimp only at hi ⊢
      split at hi
      · rename_i hptr
        cases hi
        rw [hb, Function.update_self] at hb'
        rw [if_pos hptr, ← Option.some.inj hb', ← hptr]
        rfl
      · rename_i hptr
        rw [hb, Function.update_of_ne (hold he₀ hi)] at hb'
        rw [if_neg hptr]
        exact h.attached e₀ he₀ i hi b hb'
    · obtain ⟨e₀, he₀, rfl⟩ := hmem he
      dsimp only
      split
      · exact h.keyed e₀ he₀
      · exact h.keyed e₀ he₀
    · obtain ⟨e₀, he₀, rfl⟩ := hmem he
      obtain ⟨e₁, he₁, rfl⟩ := hmem he'
      rw [h.apart e₀ he₀ e₁ he₁ heq]
    · obtain ⟨e₀, he₀, rfl⟩ := hmem he
      dsimp only
      split
      · exact Nat.le_add_right_of_le (h.closes e₀ he₀)
      · exact h.closes e₀ he₀

theorem step_wired {e : Event} (hs : Sound s) (h : Wired s) (hstep : s.step e = .ok s') :
    Wired s' := by
  cases e with
  | connect url =>
    obtain ⟨hnext, hc, -⟩ := connect_connected hs hstep
    exact h.connected hs.peers hnext hc
  | message i d => exact h.loses (message_loses hs hstep)
  | closed i =>
    obtain ⟨t, hl, rfl⟩ := closed_loses hstep
    exact (h.loses hl).closed i
  | cleanup => exact h.loses (handleCleanupIntervals_loses hs hstep)

theorem start_wired : Wired start where
  unused _ _ := rfl
  attached _ he := absurd he List.not_mem_nil
  keyed _ he := absurd he List.not_mem_nil
  apart _ he := absurd he List.not_mem_nil
  closes _ he := absurd he List.not_mem_nil

theorem Reachable.wired (h : Reachable s) : Wired s := by
  obtain ⟨es, h⟩ := h
  exact (foldlM_keeps (I := fun t => Sound t ∧ Wired t) (fun _ _ _ _ ht hstep =>
    ⟨step_sound ht.1 hstep, step_wired ht.1 ht.2 hstep⟩) ⟨start_sound, start_wired⟩ h).2

theorem Reachable.step {e : Event} (h : Reachable s) (hstep : s.step e = .ok s') :
    Reachable s' := by
  obtain ⟨es, h⟩ := h
  refine ⟨es ++ [e], foldlM_append_ok.mpr ⟨s, h, ?_⟩⟩
  rw [List.foldlM_cons, hstep]
  rfl

theorem Reachable.run {es : List Event} (h : Reachable s) (hrun : s.run es = .ok s') :
    Reachable s' := by
  obtain ⟨es', h⟩ := h
  exact ⟨es' ++ es, foldlM_append_ok.mpr ⟨s, h, hrun⟩⟩

/-- A session keeps its binding as long as it is there. -/
theorem step_bindings {e : Event} (hs : Sound s) (hstep : s.step e = .ok s') :
    s.nextSession ≤ s'.nextSession ∧
      ∀ i < s.nextSession, ∀ b, s'.bindings i = some b → s.bindings i = some b := by
  cases e with
  | connect url =>
    obtain ⟨hnext, hc, -⟩ := connect_connected hs hstep
    refine ⟨by omega, fun i hi b hb => ?_⟩
    cases hc with
    | refused _ _ hb' | joined _ _ _ _ _ hb' | reseated _ _ _ _ _ _ hb' =>
      rwa [hb', Function.update_of_ne (Nat.ne_of_lt hi)] at hb
  | message i d =>
    have hl := message_loses hs hstep
    exact ⟨hl.nextSession.ge, fun i _ b hb => hl.bindings ▸ hb⟩
  | closed j =>
    obtain ⟨t, hl, rfl⟩ := closed_loses hstep
    refine ⟨hl.nextSession.ge, fun i _ b hb => ?_⟩
    rw [bindings_setSession] at hb
    by_cases hij : i = j
    · rw [hij, Function.update_self] at hb
      cases hb
    · rw [Function.update_of_ne hij] at hb
      exact hl.bindings ▸ hb
  | cleanup =>
    have hl := handleCleanupIntervals_loses hs hstep
    exact ⟨hl.nextSession.ge, fun i _ b hb => hl.bindings ▸ hb⟩

theorem run_bindings {es : List Event} (hs : Sound s) (hrun : s.run es = .ok s') :
    ∀ i < s.nextSession, ∀ b, s'.bindings i = some b → s.bindings i = some b := by
  refine (foldlM_keeps (I := fun t => Sound t ∧ s.nextSession ≤ t.nextSession ∧
    ∀ i < s.nextSession, ∀ b, t.bindings i = some b → s.bindings i = some b) ?_
    ⟨hs, le_rfl, fun _ _ _ hb => hb⟩ hrun).2.2
  rintro t t' e - ⟨ht, hle, hkeep⟩ hstep
  obtain ⟨hle', hkeep'⟩ := step_bindings ht hstep
  exact ⟨step_sound ht hstep, hle.trans hle',
    fun i hi b hb => hkeep i hi b (hkeep' i (hi.trans_le hle) b hb)⟩

/-! ### Closes -/

theorem deref_entry {e : Bytes × Peer} (hs : PeersSound s) (he : e ∈ s.peers_.entries) :
    s.deref e.2.ptr = .ok e.2 := by
  obtain ⟨p, hp⟩ := deref_total he rfl
  obtain ⟨k, hk, hptr⟩ := deref_ok hp
  rw [hp, ← hs.distinct _ hk e he hptr]

theorem deref_error {ptr : Nat} (h : ∀ e ∈ s.peers_.entries, e.2.ptr ≠ ptr) :
    s.deref ptr = .error .freed := by
  unfold deref
  rw [List.find?_eq_none.mpr (by simpa using h)]

/-- The removal of a registered peer removes it, and no other. -/
theorem Wired.mem_removePeer (h : Wired s) {e e' : Bytes × Peer} (he : e ∈ s.peers_.entries) :
    e' ∈ (s.removePeer e.2.id).peers_.entries ↔ e' ∈ s.peers_.entries ∧ e' ≠ e := by
  have hscan : s.peers_.scan (iequals e.2.id) = some e := by
    cases hf : s.peers_.scan (iequals e.2.id) with
    | none =>
      have hno := StdMap.scan_none.mp hf e he
      rw [h.keyed e he, iequals_refl] at hno
      cases hno
    | some f =>
      obtain ⟨hmem, hkey⟩ := StdMap.scan_some hf
      rw [← h.keyed e he] at hkey
      rw [h.apart e he f hmem hkey]
  exact StdMap.mem_eraseFirst_iff hscan

theorem closed_unbound {i : Nat} (h : s.bindings i = some none) :
    s.closed i = .ok (s.setSession i none) := by
  obtain ⟨w, hw, hb⟩ := Option.map_eq_some_iff.mp h
  unfold closed
  simp only [hw, hb]
  rfl

theorem closed_dangling {i ptr : Nat} (h : s.bindings i = some (some ptr))
    (hd : s.deref ptr = .error .freed) : s.closed i = .error .freed := by
  obtain ⟨w, hw, hb⟩ := Option.map_eq_some_iff.mp h
  unfold closed
  simp only [hw, hb, hd]
  rfl

/-- A close removes the peer that the session is bound to, and then uses it once more for each
further time that the peer has connected. -/
theorem closed_bound {i : Nat} {e : Bytes × Peer} (hs : PeersSound s) (hw : Wired s)
    (he : e ∈ s.peers_.entries) (h : s.bindings i = some (some e.2.ptr)) :
    s.closed i = if e.2.closeSlots = 1 then .ok ((s.removePeer e.2.id).setSession i none)
      else .error .freed := by
  obtain ⟨w, hsession, hb⟩ := Option.map_eq_some_iff.mp h
  have hderef := deref_entry hs he
  have hclose : s.onPeerClose e.2.ptr = .ok (s.removePeer e.2.id) := by
    unfold onPeerClose
    rw [hderef]
    rfl
  have hgone : (s.removePeer e.2.id).deref e.2.ptr = .error .freed := by
    refine deref_error fun e' he' heq => ?_
    obtain ⟨hmem, hne⟩ := (hw.mem_removePeer he).mp he'
    exact hne (hs.distinct e' hmem e he heq)
  unfold closed
  simp only [hsession, hb, hderef, ok_bind]
  have hslots := hw.closes e he
  cases hn : e.2.closeSlots with
  | zero => omega
  | succ n =>
    rw [runSlots, hclose, ok_bind]
    cases n with
    | zero => rfl
    | succ n =>
      have hagain : (s.removePeer e.2.id).onPeerClose e.2.ptr = .error .freed := by
        unfold onPeerClose
        rw [hgone]
        rfl
      rw [runSlots, hagain, if_neg (by omega)]
      rfl

end Flingd.Peers.PeerServer
