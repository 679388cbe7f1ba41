import Flingd.Peers.Bindings

/-! How often a text is relayed that comes in on the websocket of a peer. Every connection of a
peer connects the server to its signals once more. -/
namespace Flingd.Peers.PeerServer
open Http Outcome
variable {s s' : PeerServer} {id : Bytes} {p : Peer} {i : Nat} {d : Option Document}
  {pm : PeerMessage}

/-- `message`, with how often `onPeerMessage` runs. -/
def messageRuns (s : PeerServer) (session : Nat) (d : Option Document) :
    Except Fault (PeerServer × Nat) :=
  match s.sessions session with
  | none => .ok (s, 0)
  | some w =>
    match w.isOpen, w.bound with
    | true, some ptr => do
      let p ← s.deref ptr
      runSlots (counted (onPeerMessage · ptr d)) p.messageSlots (s, 0)
    | _, _ => .ok (s, 0)

theorem messageRuns_message (s : PeerServer) (i : Nat) (d : Option Document) :
    (s.messageRuns i d).map Prod.fst = s.message i d := by
  unfold messageRuns message
  cases s.sessions i with
  | none => rfl
  | some w =>
    obtain ⟨isOpen, bound, sent⟩ := w
    cases isOpen with
    | false => rfl
    | true =>
      cases bound with
      | none => rfl
      | some ptr =>
        dsimp only
        cases s.deref ptr with
        | error e => rfl
        | ok p =>
          rw [ok_bind, ok_bind, runSlots_counted]
          cases runSlots (onPeerMessage · ptr d) p.messageSlots s <;> rfl

/-- The websocket of the peer is open, so that a text can come in on it. -/
structure Speaks (s : PeerServer) (id : Bytes) (p : Peer) (i : Nat) : Prop where
  registered : s.getPeer id = some p
  session : p.session = some i
  isOpen : ∃ w, s.sessions i = some w ∧ w.isOpen = true

theorem Speaks.messageRuns (h : Speaks s id p i) (hs : Reachable s) (d : Option Document) :
    s.messageRuns i d =
      (runSlots (onPeerMessage · p.ptr d) p.messageSlots s).map fun s => (s, p.messageSlots) := by
  obtain ⟨k, hk, -⟩ := getPeer_some h.registered
  obtain ⟨⟨isOpen, bound, sent⟩, hw, rfl : isOpen = true⟩ := h.isOpen
  have hbound : bound = some p.ptr := hs.wired.attached _ hk i h.session bound (by
    rw [bindings, hw]
    rfl)
  have hderef : s.deref p.ptr = .ok p := deref_entry hs.sound.peers hk
  unfold PeerServer.messageRuns
  simp only [hw, hbound, hderef, ok_bind]
  rw [runSlots_counted, Nat.zero_add]

theorem Speaks.messageRuns_ok {n : Nat} (h : Speaks s id p i) (hs : Reachable s)
    (hruns : s.messageRuns i d = .ok (s', n)) :
    p.messageSlots = n ∧ runSlots (onPeerMessage · p.ptr d) n s = .ok s' := by
  rw [h.messageRuns hs d] at hruns
  cases hrun : runSlots (onPeerMessage · p.ptr d) p.messageSlots s with
  | error e =>
    rw [hrun] at hruns
    cases hruns
  | ok t =>
    rw [hrun] at hruns
    obtain ⟨rfl, rfl⟩ := Prod.mk.inj (Except.ok.inj hruns)
    exact ⟨rfl, hrun⟩

/-- The sessions that the registered destination of a message is on. -/
def Reached (s : PeerServer) (pm : PeerMessage) (ws : Nat) : Prop :=
  ∃ q, s.getPeer pm.dst = some q ∧ q.session = some ws

theorem Reached.unique {ws ws' : Nat} (h : Reached s pm ws) (h' : Reached s pm ws') : ws = ws' := by
  obtain ⟨q, hq, hws⟩ := h
  obtain ⟨q', hq', hws'⟩ := h'
  cases hq.symm.trans hq'
  exact Option.some.inj (hws.symm.trans hws')

/-- `onPeerMessage` runs once, and the destination is sent the message once, if it is registered. -/
def RelayedOnce (s : PeerServer) (i : Nat) (d : Option Document) (pm : PeerMessage) : Prop :=
  ∃ s', s.messageRuns i d = .ok (s', 1) ∧ ∀ ws, Reached s pm ws → ∃ w, s.sessions ws = some w ∧
    s'.sessions ws = some { w with sent := w.sent ++ [.transmission pm] }

theorem handleTransmission_reached {ws : Nat} (h : Reached s pm ws) :
    s.handleTransmission pm = s.sendTo ws (.transmission pm) := by
  obtain ⟨q, hq, hws⟩ := h
  exact handleTransmission_known hq hws

/-- In every reachable state, a text on the websocket of a peer is relayed once if and only if the
peer has connected once, and the destination has an open websocket if it is registered. -/
theorem relayed_once_iff (hs : Reachable s) (h : Speaks s id p i) (hpm : relayed p d = some pm) :
    RelayedOnce s i d pm ↔ p.messageSlots = 1 ∧
      ∀ ws, Reached s pm ws → ∃ w, s.sessions ws = some w ∧ w.isOpen = true := by
  obtain ⟨k, hk, -⟩ := getPeer_some h.registered
  have hhandled : s.onPeerMessage p.ptr d = s.handleTransmission pm :=
    onPeerMessage_relays (deref_entry hs.sound.peers hk) hpm
  constructor
  · rintro ⟨s', hruns, hsent⟩
    obtain ⟨hslots, hrun⟩ := h.messageRuns_ok hs hruns
    rw [runSlots_one, hhandled] at hrun
    refine ⟨hslots, fun ws hws => ?_⟩
    rw [handleTransmission_reached hws] at hrun
    obtain ⟨w, hw, hw'⟩ := hsent ws hws
    obtain ⟨w₀, hw₀, rfl⟩ := updateSession_ok.mp hrun
    cases hw.symm.trans hw₀
    refine ⟨w, hw, ?_⟩
    by_contra hclosed
    rw [setSession_sessions, if_neg hclosed] at hw'
    -- A websocket that is not open is left as it is.
    have hlen := congrArg (fun w : Option WebsocketSession => (w.map fun w => w.sent.length)) hw'
    simp at hlen
  · rintro ⟨hslots, hopen⟩
    unfold RelayedOnce
    rw [h.messageRuns hs d, hslots, runSlots_one, hhandled]
    cases hq : s.getPeer pm.dst with
    | none =>
      obtain ⟨s', hs'⟩ := handleTransmission_unknown hs.sound.queues hq
      rw [hs']
      refine ⟨s', rfl, fun ws hws => ?_⟩
      obtain ⟨q, hq', -⟩ := hws
      cases hq.symm.trans hq'
    | some q =>
      obtain ⟨k', hk', -⟩ := getPeer_some hq
      obtain ⟨ws, -, hsession⟩ := hs.sound.peers.session _ hk'
      have hws : Reached s pm ws := ⟨q, hq, hsession⟩
      obtain ⟨w, hw, ho⟩ := hopen ws hws
      rw [handleTransmission_reached hws, sendTo_open _ hw ho]
      refine ⟨_, rfl, fun ws' hws' => ?_⟩
      obtain rfl := hws.unique hws'
      exact ⟨w, hw, setSession_sessions ws _⟩

/-- The peers `a` and `b`, and the text of an offer of `a` to `b`. -/
def offer : Option Document :=
  some ⟨.string (str "OFFER"), .string (str "b"), .other, fun src => str "offer of " ++ src⟩

/-- The message that it makes. -/
def offered : PeerMessage := ⟨str "OFFER", str "a", str "b", str "offer of a"⟩

theorem relayed_once_iff_offer : ∃ s, start.run [.connect (some (peerUrl (str "a") (str "t"))),
      .connect (some (peerUrl (str "b") (str "u")))] = .ok s ∧ RelayedOnce s 0 offer offered := by
  have hjoined : ∃ s p w, start.run [.connect (some (peerUrl (str "a") (str "t"))),
        .connect (some (peerUrl (str "b") (str "u")))] = .ok s ∧ Speaks s (str "a") p 0 ∧
      p.messageSlots = 1 ∧ relayed p offer = some offered ∧ Reached s offered 1 ∧
      s.sessions 1 = some w ∧ w.isOpen = true :=
    ⟨_, _, _, rfl, ⟨rfl, rfl, ⟨_, rfl, rfl⟩⟩, rfl, by decide, ⟨_, rfl, rfl⟩, rfl, rfl⟩
  obtain ⟨s, p, w, hrun, hp, hslots, hpm, hreached, hw, hopen⟩ := hjoined
  refine ⟨s, hrun, (relayed_once_iff ⟨_, hrun⟩ hp hpm).mpr ⟨hslots, fun ws hws => ?_⟩⟩
  rw [← hreached.unique hws]
  exact ⟨w, hw, hopen⟩

/-- The peer `a` connects twice with its token before it makes the offer. -/
theorem offer_relayed_twice : ∃ s p, start.run [.connect (some (peerUrl (str "a") (str "t"))),
      .connect (some (peerUrl (str "b") (str "u"))),
      .connect (some (peerUrl (str "a") (str "t")))] = .ok s ∧ Speaks s (str "a") p 2 ∧
    relayed p offer = some offered ∧ ¬ RelayedOnce s 2 offer offered := by
  have hjoined : ∃ s p, start.run [.connect (some (peerUrl (str "a") (str "t"))),
        .connect (some (peerUrl (str "b") (str "u"))),
        .connect (some (peerUrl (str "a") (str "t")))] = .ok s ∧ Speaks s (str "a") p 2 ∧
      relayed p offer = some offered ∧ p.messageSlots = 2 :=
    ⟨_, _, rfl, ⟨rfl, rfl, ⟨_, rfl, rfl⟩⟩, by decide, rfl⟩
  obtain ⟨s, p, hrun, hp, hpm, hslots⟩ := hjoined
  refine ⟨s, p, hrun, hp, hpm, ?_⟩
  rintro ⟨s', hruns, -⟩
  rw [(hp.messageRuns_ok ⟨_, hrun⟩ hruns).1] at hslots
  cases hslots

end Flingd.Peers.PeerServer
