import Flingd.Peers.Bindings
import Flingd.Peers.IdTaken

/-! The close of a session that a peer does not use, above all of one that the peer has replaced
by connecting again. -/
namespace Flingd.Peers.PeerServer
open Http Outcome
variable {s s₁ s₂ : PeerServer} {id token : Bytes} {p q : Peer}

/-- The close comes to its end, and the peer is registered as before. -/
def Stays (s : PeerServer) (i : Nat) (id : Bytes) (q : Peer) : Prop :=
  ∃ s', s.closed i = .ok s' ∧ s'.getPeer id = some q

/-- A session is bound to no peer, or to another registered peer that has connected once. -/
def Harmless (s : PeerServer) (bound : Option Nat) (q : Peer) : Prop :=
  bound = none ∨ ∃ e ∈ s.peers_.entries, bound = some e.2.ptr ∧ e.2.ptr ≠ q.ptr ∧ e.2.closeSlots = 1

/-- A peer stays when another is removed. -/
theorem getPeer_removePeer {e : Bytes × Peer} (hw : Wired s) (he : e ∈ s.peers_.entries)
    (hq : s.getPeer id = some q) (hne : e.2.ptr ≠ q.ptr) :
    (s.removePeer e.2.id).getPeer id = some q := by
  obtain ⟨k, hk, hkey⟩ := getPeer_some hq
  unfold getPeer removePeer
  rw [StdMap.scan_eraseFirst_other]
  · exact hq
  · intro k' hk'
    cases hk'' : iequals e.2.id k' with
    | false => rfl
    | true =>
      rw [iequals_iff] at hk' hk''
      have hsame : iequals e.1 k = true := by
        rw [hw.keyed e he, iequals_iff]
        exact hk''.trans (hk'.symm.trans (iequals_iff.mp hkey))
      rw [hw.apart e he _ hk hsame] at hne
      exact absurd rfl hne

theorem stays_iff {i : Nat} {b : Option Nat} (hs : Reachable s) (hq : s.getPeer id = some q)
    (hb : s.bindings i = some b) : Stays s i id q ↔ Harmless s b q := by
  have hpeers := hs.sound.peers
  cases b with
  | none =>
    exact iff_of_true ⟨_, closed_unbound hb, hq⟩ (.inl rfl)
  | some ptr =>
    by_cases hlive : ∃ e ∈ s.peers_.entries, e.2.ptr = ptr
    · obtain ⟨e, he, rfl⟩ := hlive
      have hclosed := closed_bound hpeers hs.wired he hb
      by_cases hslots : e.2.closeSlots = 1
      · rw [if_pos hslots] at hclosed
        by_cases hne : e.2.ptr = q.ptr
        · refine iff_of_false ?_ ?_
          · rintro ⟨s', hs', hget⟩
            rw [hclosed] at hs'
            cases hs'
            obtain ⟨k, hk, -⟩ := getPeer_some hget
            obtain ⟨hmem, hother⟩ := (hs.wired.mem_removePeer he).mp hk
            exact hother (hpeers.distinct _ hmem e he hne.symm)
          · rintro (hnone | ⟨e', -, hptr, hother, -⟩)
            · cases hnone
            · exact hother ((Option.some.inj hptr).symm.trans hne)
        · exact iff_of_true ⟨_, hclosed, getPeer_removePeer hs.wired he hq hne⟩
            (.inr ⟨e, he, rfl, hne, hslots⟩)
      · rw [if_neg hslots] at hclosed
        refine iff_of_false ?_ ?_
        · rintro ⟨s', hs', -⟩
          rw [hclosed] at hs'
          cases hs'
        · rintro (hnone | ⟨e', he', hptr, -, hone⟩)
          · cases hnone
          · rw [hpeers.distinct e' he' e he (Option.some.inj hptr).symm] at hone
            exact hslots hone
    · have hgone : s.deref ptr = .error .freed :=
        deref_error fun e he heq => hlive ⟨e, he, heq⟩
      refine iff_of_false ?_ ?_
      · rintro ⟨s', hs', -⟩
        rw [closed_dangling hb hgone] at hs'
        cases hs'
      · rintro (hnone | ⟨e, he, hptr, -, -⟩)
        · cases hnone
        · exact hlive ⟨e, he, (Option.some.inj hptr).symm⟩

/-- A peer does not stay when a session closes that is bound to it. -/
theorem not_stays_own {i : Nat} (hs : Reachable s) (hq : s.getPeer id = some q)
    (hb : s.bindings i = some (some q.ptr)) : ¬ Stays s i id q := by
  intro hstays
  rcases (stays_iff hs hq hb).mp hstays with hnone | ⟨e, -, hptr, hne, -⟩
  · cases hnone
  · exact hne (Option.some.inj hptr).symm

/-- The peer connects again under its id with its token, and has the new session. -/
structure Reconnects (s : PeerServer) (url : Url) (id token : Bytes) (p : Peer) (s₁ : PeerServer) :
    Prop where
  names : Names url id token
  registered : s.getPeer id = some p
  token : iequals p.token token = true
  connect : s.connect (some url) = .ok s₁
  session : (s₁.getPeer id).bind Peer.session = some s.nextSession

/-- In every run, a session that the peer replaced is bound to it until it closes. -/
theorem Reconnects.bound {url : Url} {es : List Event} {old : Nat} {b : Option Nat}
    (h : Reconnects s url id token p s₁) (hs : Reachable s) (hrun : s₁.run es = .ok s₂)
    (hold : p.session = some old) (hb : s₂.bindings old = some b) : b = some p.ptr := by
  obtain ⟨k, hk, -⟩ := getPeer_some h.registered
  obtain ⟨ws, hlt, hws⟩ := hs.sound.peers.session _ hk
  cases hws.symm.trans hold
  have hstep : s.step (.connect (some url)) = .ok s₁ := h.connect
  obtain ⟨hle, hkeep⟩ := step_bindings hs.sound hstep
  have hb₁ := run_bindings (hs.step hstep).sound hrun old (hlt.trans_le hle) b hb
  exact hs.wired.attached _ hk old hold b (hkeep old hlt b hb₁)

/-- After a peer has connected again, the close of a session that it does not use leaves it
registered if and only if the session is bound to no peer, or to another one that has connected
once. So the close of the session that it replaced never does. -/
theorem reconnected_stays_iff {url : Url} {es : List Event} (hs : Reachable s)
    (h : Reconnects s url id token p s₁) (hrun : s₁.run es = .ok s₂) (hq : s₂.getPeer id = some q)
    (hsame : q.ptr = p.ptr) :
    (∀ i w, s₂.sessions i = some w → q.session ≠ some i →
      (Stays s₂ i id q ↔ Harmless s₂ w.bound q)) ∧
    ∀ old w, p.session = some old → s₂.sessions old = some w → ¬ Stays s₂ old id q := by
  have hs₂ : Reachable s₂ := (hs.step (show s.step (.connect (some url)) = _ from h.connect)).run hrun
  have hbinding {i : Nat} {w : WebsocketSession} (hw : s₂.sessions i = some w) :
      s₂.bindings i = some w.bound := by
    rw [bindings, hw]
    rfl
  refine ⟨fun i w hw _ => stays_iff hs₂ hq (hbinding hw), fun old w hold hw hstays => ?_⟩
  have hb := hbinding hw
  rw [h.bound hs hrun hold hb, ← hsame] at hb
  exact not_stays_own hs₂ hq hb hstays

/-- The peer `a` with token `t`, before and after it connects again. -/
theorem a_reconnects : ∃ s s₁ p q w, start.run [.connect (some (peerUrl (str "a") (str "t")))] = .ok s ∧
    Reconnects s (peerUrl (str "a") (str "t")) (str "a") (str "t") p s₁ ∧ p.session = some 0 ∧
    s₁.getPeer (str "a") = some q ∧ q.ptr = p.ptr ∧ q.session = some 1 ∧ s₁.sessions 0 = some w ∧
    w.bound = some q.ptr :=
  ⟨_, _, _, _, _, rfl, ⟨by unfold Names; decide, rfl, by decide, rfl, rfl⟩, rfl, rfl, rfl, rfl, rfl, rfl⟩

theorem reconnected_stays_iff_a : ∃ s s₁ p q,
    start.run [.connect (some (peerUrl (str "a") (str "t")))] = .ok s ∧
    Reconnects s (peerUrl (str "a") (str "t")) (str "a") (str "t") p s₁ ∧
    ¬ Stays s₁ 0 (str "a") q := by
  obtain ⟨s, s₁, p, q, w, hrun, h, hold, hq, hsame, -, hw, -⟩ := a_reconnects
  have hstill : s₁.run [] = .ok s₁ := rfl
  exact ⟨s, s₁, p, q, hrun, h, (reconnected_stays_iff ⟨_, hrun⟩ h hstill hq hsame).2 0 w hold hw⟩

/-- The close of the first session of `a` comes after the second connection. -/
theorem replaced_close_removes : ∃ s s₁ p q,
    start.run [.connect (some (peerUrl (str "a") (str "t")))] = .ok s ∧
    Reconnects s (peerUrl (str "a") (str "t")) (str "a") (str "t") p s₁ ∧ p.session = some 0 ∧
    s₁.getPeer (str "a") = some q ∧ q.session = some 1 ∧ ¬ Stays s₁ 0 (str "a") q := by
  obtain ⟨s, s₁, p, q, w, hrun, h, hold, hq, hsame, hnew, hw, hb⟩ := a_reconnects
  have hs : Reachable s := ⟨_, hrun⟩
  have hstep : s.step (.connect (some (peerUrl (str "a") (str "t")))) = .ok s₁ := h.connect
  have hbinding : s₁.bindings 0 = some (some q.ptr) := by
    rw [bindings, hw, ← hb]
    rfl
  exact ⟨s, s₁, p, q, hrun, h, hold, hq, hnew, not_stays_own (hs.step hstep) hq hbinding⟩

end Flingd.Peers.PeerServer
