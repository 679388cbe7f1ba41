import Flingd.Peers.Tables

/-! What the events of the server do, one lemma a handler, and what holds in every state
that a run reaches. -/
namespace Flingd.Peers.PeerServer
open Http Outcome
variable {s s' : PeerServer}

structure Sound (s : PeerServer) : Prop where
  peers : PeersSound s
  queues : QueuesSound s

theorem Sound.withSessions (h : Sound s) (m : Nat → Option WebsocketSession) :
    Sound { s with sessions := m } :=
  ⟨h.peers.lost rfl rfl fun _ he => he, h.queues⟩

/-! ### Transmission -/

def isStored (pm : PeerMessage) : Bool :=
  !iequals pm.type (str "LEAVE") && !iequals pm.type (str "EXPIRE") && !iequals pm.dst (str "")

theorem handleTransmission_cases {pm : PeerMessage} (hs : PeersSound s)
    (h : s.handleTransmission pm = .ok s') :
    ((s.getPeer pm.dst).isSome ∧ ∃ m, s' = { s with sessions := m }) ∨
    (s.getPeer pm.dst = none ∧ isStored pm = true ∧ s.addPeerMessages pm.dst pm = .ok s') ∨
    (s.getPeer pm.dst = none ∧ isStored pm = false ∧ (s' = s ∨ s' = s.removePeer pm.src)) := by
  unfold handleTransmission transmit at h
  cases hp : s.getPeer pm.dst with
  | some p =>
    obtain ⟨k, hk, -⟩ := getPeer_some hp
    obtain ⟨ws, -, hws : p.session = some ws⟩ := hs.session _ hk
    simp only [hp, hws, Bool.false_eq_true, if_false] at h
    exact .inl ⟨rfl, sendTo_frame h⟩
  | none =>
    simp only [hp] at h
    right
    split_ifs at h with h₁ h₂
    · exact .inl ⟨rfl, by simpa [isStored, and_assoc] using h₁, h⟩
    · have hs : isStored pm = false := by simp [isStored, h₂.1]
      cases h
      exact .inr ⟨rfl, hs, .inr rfl⟩
    · have hs : isStored pm = false := by
        simp only [isStored, Bool.and_eq_false_iff, Bool.not_eq_false']
        grind
      cases h
      exact .inr ⟨rfl, hs, .inl rfl⟩

theorem handleTransmission_known {pm : PeerMessage} {p : Peer} {ws : Nat}
    (hp : s.getPeer pm.dst = some p) (hs : p.session = some ws) :
    s.handleTransmission pm = s.sendTo ws (.transmission pm) := by
  unfold handleTransmission transmit
  simp only [hp, hs, Bool.false_eq_true, if_false]

theorem handleTransmission_unknown {pm : PeerMessage} (hq : QueuesSound s) (h : s.getPeer pm.dst = none) :
    ∃ s', s.handleTransmission pm = .ok s' := by
  unfold handleTransmission transmit
  simp only [h]
  split_ifs
  · unfold addPeerMessages
    cases hm : s.getPeerMessages pm.dst with
    | none => exact ⟨_, rfl⟩
    | some q =>
      obtain ⟨l, rfl, -⟩ := hq.getPeerMessages hm
      exact ⟨_, rfl⟩
  · exact ⟨_, rfl⟩
  · exact ⟨_, rfl⟩

theorem addPeerMessages_frame {id : Bytes} {pm : PeerMessage}
    (h : s.addPeerMessages id pm = .ok s') : ∃ o, s' = { s with outstandings_ := o } := by
  unfold addPeerMessages at h
  split at h <;> cases h
  · exact ⟨_, rfl⟩
  · exact ⟨_, rfl⟩

theorem PeersSound.handleTransmission {pm : PeerMessage} (hs : PeersSound s)
    (h : s.handleTransmission pm = .ok s') : PeersSound s' := by
  rcases handleTransmission_cases hs h with ⟨-, m, rfl⟩ | ⟨-, -, h⟩ | ⟨-, -, rfl | rfl⟩
  · exact hs.lost rfl rfl fun _ he => he
  · obtain ⟨o, rfl⟩ := addPeerMessages_frame h
    exact hs.lost rfl rfl fun _ he => he
  · exact hs
  · exact hs.removePeer _

theorem Sound.handleTransmission {pm : PeerMessage} (hs : Sound s)
    (h : s.handleTransmission pm = .ok s') : Sound s' := by
  refine ⟨hs.peers.handleTransmission h, ?_⟩
  rcases handleTransmission_cases hs.peers h with ⟨-, m, rfl⟩ | ⟨-, -, h⟩ | ⟨-, -, rfl | rfl⟩
  · exact hs.queues
  · exact hs.queues.addPeerMessages h
  · exact hs.queues
  · exact hs.queues

theorem handleTransmission_bindings {pm : PeerMessage} (hs : PeersSound s)
    (h : s.handleTransmission pm = .ok s') : s'.bindings = s.bindings := by
  unfold PeerServer.handleTransmission transmit at h
  cases hp : s.getPeer pm.dst with
  | some p =>
    obtain ⟨k, hk, -⟩ := getPeer_some hp
    obtain ⟨ws, -, hws : p.session = some ws⟩ := hs.session _ hk
    simp only [hp, hws, Bool.false_eq_true, if_false] at h
    exact sendTo_bindings h
  | none =>
    simp only [hp] at h
    split_ifs at h
    · obtain ⟨o, rfl⟩ := addPeerMessages_frame h
      rfl
    · cases h
      rfl
    · cases h
      rfl

/-! ### The outstanding messages -/

theorem transmit_delivers {p : Peer} {ws : Nat} {w : WebsocketSession} {l : List PeerMessage}
    (hp : ∀ pm ∈ l, s.getPeer pm.dst = some p) (hs : p.session = some ws)
    (hw : s.sessions ws = some w) (ho : w.isOpen = true) :
    l.foldlM handleTransmission s =
      .ok (s.setSession ws (some { w with sent := w.sent ++ l.map Frame.transmission })) := by
  induction l generalizing s w with
  | nil =>
    rw [List.map_nil, List.append_nil, setSession_of_sessions hw]
    rfl
  | cons pm l ih =>
    have h₁ : s.handleTransmission pm =
        .ok (s.setSession ws (some { w with sent := w.sent ++ [.transmission pm] })) := by
      unfold PeerServer.handleTransmission transmit
      simp only [hp pm (by simp), hs, Bool.false_eq_true, if_false]
      exact sendTo_open _ hw ho
    have hsent := ih (s := s.setSession ws (some { w with sent := w.sent ++ [.transmission pm] }))
      (fun pm' h => hp pm' (by simp [h])) (setSession_sessions ws _) ho
    rw [List.foldlM_cons, h₁, ok_bind, hsent]
    simp

theorem removePeerMessages_of_none {id : Bytes} (h : s.getPeerMessages id = none) :
    s.removePeerMessages id = s := by
  have hn : s.outstandings_.scan (iequals id) = none := by simpa [getPeerMessages] using h
  unfold removePeerMessages
  rw [StdMap.eraseFirst_of_scan_none hn]

/-- The queue of a peer goes to its open session, in order. -/
theorem processOutstanding_delivers {id : Bytes} {p : Peer} {ws : Nat} {w : WebsocketSession}
    (hq : QueuesSound s) (hp : s.getPeer id = some p) (hs : p.session = some ws)
    (hw : s.sessions ws = some w) (ho : w.isOpen = true) :
    s.processOutstanding id = .ok ((s.setSession ws (some { w with
      sent := w.sent ++ ((s.waiting id).getD []).map Frame.transmission })).removePeerMessages id) := by
  unfold processOutstanding
  cases hm : s.getPeerMessages id with
  | none =>
    have hwait : s.waiting id = none := by simp [waiting, hm]
    simp only [hwait, Option.getD_none, List.map_nil, List.append_nil]
    rw [setSession_of_sessions hw, removePeerMessages_of_none hm]
  | some q =>
    obtain ⟨l, rfl, hl⟩ := hq.getPeerMessages hm
    have hwait : s.waiting id = some l := by simp [waiting, hm]
    simp only [hwait, Option.getD_some]
    rw [transmit_delivers (fun pm h => by rw [← getPeer_congr (hl pm h), hp]) hs hw ho, ok_bind]

/-- Whatever else is the case, only sessions and the queue of the peer have changed. -/
theorem processOutstanding_frame {id : Bytes} {p : Peer} {ws : Nat} (hq : QueuesSound s)
    (hp : s.getPeer id = some p) (hs : p.session = some ws)
    (h : s.processOutstanding id = .ok s') :
    (∃ m, s' = { s.removePeerMessages id with sessions := m }) ∧ s'.bindings = s.bindings := by
  unfold processOutstanding at h
  cases hm : s.getPeerMessages id with
  | none =>
    rw [removePeerMessages_of_none hm]
    simp only [hm] at h
    cases h
    exact ⟨⟨_, rfl⟩, rfl⟩
  | some q =>
    obtain ⟨l, rfl, hl⟩ := hq.getPeerMessages hm
    simp only [hm] at h
    obtain ⟨s₁, h₁, h⟩ := bind_eq_ok.mp h
    cases h
    have hkeep : (∃ m, s₁ = { s with sessions := m }) ∧ s₁.bindings = s.bindings := by
      refine foldlM_keeps (I := fun t => (∃ m, t = { s with sessions := m }) ∧
        t.bindings = s.bindings) ?_ ⟨⟨_, rfl⟩, rfl⟩ h₁
      rintro _ t pm hpm ⟨⟨m, rfl⟩, hb⟩ ht
      have hp' : s.getPeer pm.dst = some p := by rw [← getPeer_congr (hl pm hpm), hp]
      unfold PeerServer.handleTransmission transmit at ht
      have hp'' : PeerServer.getPeer { s with sessions := m } pm.dst = some p := hp'
      simp only [hp'', hs, Bool.false_eq_true, if_false] at ht
      have hb' := (sendTo_bindings ht).trans hb
      obtain ⟨m', rfl⟩ := sendTo_frame ht
      exact ⟨⟨m', rfl⟩, hb'⟩
    obtain ⟨⟨m, rfl⟩, hb⟩ := hkeep
    exact ⟨⟨m, rfl⟩, hb⟩

/-! ### Connections -/

theorem configureWs_joins {id token : Bytes} {p : Peer} {ws : Nat} (hq : QueuesSound s)
    (hp : s.getPeer id = some p) (hs : p.session = some ws) (ht : iequals p.token token = true)
    (h : s.configureWs ws id token = .ok s') :
    (∃ m, s' = { (s.removePeerMessages id).withPeer p.ptr fun p => { p with
      closeSlots := p.closeSlots + 1, messageSlots := p.messageSlots + 1 } with sessions := m }) ∧
      s'.bindings = s.bindings := by
  unfold configureWs at h
  simp only [hp, ht, not_true, if_false] at h
  obtain ⟨s₁, h₁, h⟩ := bind_eq_ok.mp h
  obtain ⟨⟨m, rfl⟩, hb⟩ := processOutstanding_frame hq hp hs h₁
  rw [updatePeer_ok h]
  exact ⟨⟨m, rfl⟩, hb⟩

theorem resetSession_frame {p : Peer} {ws : Nat} (h : s.resetSession p ws = .ok s') :
    (∃ m, s' = { s.withPeer p.ptr fun p => { p with session := some ws } with sessions := m }) ∧
      s'.bindings = Function.update s.bindings ws (some (some p.ptr)) := by
  have hset {t : PeerServer} (h : (t.updatePeer p.ptr fun p => { p with session := some ws }) >>=
      (·.initSession p.ptr ws) = .ok s') :
      (∃ m, s' = { t.withPeer p.ptr fun p => { p with session := some ws } with sessions := m }) ∧
        s'.bindings = Function.update t.bindings ws (some (some p.ptr)) := by
    obtain ⟨t₁, h₁, h⟩ := bind_eq_ok.mp h
    obtain rfl := updatePeer_ok h₁
    have hb := initSession_bindings h
    obtain ⟨m, rfl⟩ := initSession_frame h
    exact ⟨⟨m, rfl⟩, hb⟩
  unfold resetSession at h
  cases hp : p.session with
  | none =>
    simp only [hp] at h
    exact hset h
  | some old =>
    simp only [hp] at h
    obtain ⟨s₁, h₁, h⟩ := bind_eq_ok.mp h
    have hclose := close_bindings h₁
    obtain ⟨m, rfl⟩ := close_frame h₁
    obtain ⟨⟨m', rfl⟩, hb⟩ := hset h
    exact ⟨⟨m', rfl⟩, hclose ▸ hb⟩

/-- Another token comes too late: the peer has the new session by then. -/
theorem connectPeer_rival {key id token : Bytes} {p : Peer} {ws : Nat}
    (hp : s.getPeer id = some p) (ht : iequals p.token token = false)
    (h : s.connectPeer ws key id token = .ok s') :
    s.sendError ws (str "ERROR") (str "No id, token, or key supplied to peerjs server") = .ok s' ∨
      (∃ m, s' = { s.withPeer p.ptr fun p => { p with session := some ws } with sessions := m }) ∧
        s'.bindings = Function.update s.bindings ws (some (some p.ptr)) := by
  unfold connectPeer at h
  split at h
  · exact .inl h
  · simp only [hp] at h
    obtain ⟨s₁, h₁, h⟩ := bind_eq_ok.mp h
    obtain ⟨⟨m, rfl⟩, hb⟩ := resetSession_frame h₁
    unfold configureWs at h
    split at h
    · cases h
      exact .inr ⟨⟨_, rfl⟩, hb⟩
    · rename_i p' hp'
      have hset : PeerServer.getPeer { s.withPeer p.ptr fun p => { p with session := some ws } with
          sessions := m } id = some { p with session := some ws } := by
        refine (getPeer_withPeer p.ptr _ id).trans ?_
        rw [hp]
        simp
      rw [hset] at hp'
      cases hp'
      simp only [ht, Bool.false_eq_true, not_false_eq_true, if_true] at h
      have hb' := (sendError_bindings h).trans hb
      obtain ⟨m', rfl⟩ := sendError_frame h
      exact .inr ⟨⟨m', rfl⟩, hb'⟩

def joined (s : PeerServer) (ws : Nat) (id token : Bytes) : PeerServer :=
  { s with
    nextPeer := s.nextPeer + 1
    peers_ := s.peers_.insert id ⟨s.nextPeer, id, token, some ws, 1, 1⟩
    outstandings_ := s.outstandings_.eraseFirst (iequals id) }

def rejoined (s : PeerServer) (ws : Nat) (id : Bytes) (ptr : Nat) : PeerServer :=
  (s.removePeerMessages id).withPeer ptr fun p => { p with
    session := some ws, closeSlots := p.closeSlots + 1, messageSlots := p.messageSlots + 1 }

theorem getPeer_addPeer {id : Bytes} (p : Peer) (h : s.getPeer id = none) :
    s.addPeer id p = { s with peers_ := s.peers_.insert id p } ∧
      (s.addPeer id p).getPeer id = some p := by
  have ha : s.addPeer id p = { s with peers_ := s.peers_.insert id p } := by
    simp [addPeer, h]
  refine ⟨ha, ?_⟩
  rw [ha]
  unfold getPeer
  rw [StdMap.scan_insert_new p (getPeer_none.mp h) (iequals_refl id)]
  rfl

theorem connectPeer_joins {key id token : Bytes} {ws : Nat} (hs : Sound s)
    (hp : s.getPeer id = none) (h : s.connectPeer ws key id token = .ok s') :
    (∃ m, s' = { s with sessions := m }) ∧ s'.bindings = s.bindings ∨
      s.checkKey key = none ∧ (∃ m, s' = { s.joined ws id token with sessions := m }) ∧
        s'.bindings = Function.update s.bindings ws (some (some s.nextPeer)) := by
  unfold connectPeer at h
  split at h
  · exact .inl ⟨sendError_frame h, sendError_bindings h⟩
  · simp only [hp] at h
    split at h
    · rename_i hkey
      obtain ⟨s₁, h₁, h⟩ := bind_eq_ok.mp h
      have hb₁ := initSession_bindings h₁
      obtain ⟨m, rfl⟩ := initSession_frame h₁
      obtain ⟨s₂, h₂, h⟩ := bind_eq_ok.mp h
      have hb₂ := sendTo_bindings h₂
      obtain ⟨m', rfl⟩ := sendTo_frame h₂
      obtain ⟨hadd, hget⟩ := getPeer_addPeer (s := { s with
        nextPeer := s.nextPeer + 1, sessions := m }) ⟨s.nextPeer, id, token, some ws, 0, 0⟩ hp
      rw [hadd] at h hget hb₂
      have hq : QueuesSound { s with
          nextPeer := s.nextPeer + 1, sessions := m'
          peers_ := s.peers_.insert id ⟨s.nextPeer, id, token, some ws, 0, 0⟩ } := hs.queues
      obtain ⟨⟨m'', rfl⟩, hb₃⟩ := configureWs_joins hq hget rfl (iequals_refl token) h
      refine .inr ⟨hkey, ⟨m'', ?_⟩, hb₃.trans (hb₂.trans hb₁)⟩
      have hpeers : (s.peers_.insert id ⟨s.nextPeer, id, token, some ws, 0, 0⟩).mapValues
          (fun p => if p.ptr = s.nextPeer then { p with
            closeSlots := p.closeSlots + 1, messageSlots := p.messageSlots + 1 } else p) =
          s.peers_.insert id ⟨s.nextPeer, id, token, some ws, 1, 1⟩ := by
        rw [StdMap.mapValues_insert, StdMap.mapValues_of_fixed fun e he => if_neg
          (Nat.ne_of_lt (hs.peers.fresh e he)), if_pos rfl]
      simp only [withPeer, removePeerMessages, joined, hpeers]
    · exact .inl ⟨sendError_frame h, sendError_bindings h⟩

theorem connectPeer_rejoins {key id token : Bytes} {p : Peer} {ws : Nat} (hq : QueuesSound s)
    (hp : s.getPeer id = some p) (ht : iequals p.token token = true)
    (h : s.connectPeer ws key id token = .ok s') :
    (∃ m, s' = { s with sessions := m }) ∧ s'.bindings = s.bindings ∨
      (∃ m, s' = { s.rejoined ws id p.ptr with sessions := m }) ∧
        s'.bindings = Function.update s.bindings ws (some (some p.ptr)) := by
  unfold connectPeer at h
  split at h
  · exact .inl ⟨sendError_frame h, sendError_bindings h⟩
  · simp only [hp] at h
    obtain ⟨s₁, h₁, h⟩ := bind_eq_ok.mp h
    obtain ⟨⟨m, rfl⟩, hb⟩ := resetSession_frame h₁
    have hget : PeerServer.getPeer { s.withPeer p.ptr fun p => { p with session := some ws } with
        sessions := m } id = some { p with session := some ws } := by
      refine (getPeer_withPeer p.ptr _ id).trans ?_
      rw [hp]
      simp
    have hq' : QueuesSound { s.withPeer p.ptr fun p => { p with session := some ws } with
        sessions := m } := hq
    obtain ⟨⟨m', rfl⟩, hb'⟩ := configureWs_joins hq' hget rfl ht h
    refine .inr ⟨⟨m', ?_⟩, hb'.trans hb⟩
    simp only [withPeer, removePeerMessages, rejoined, StdMap.mapValues_mapValues]
    congr 2
    funext q
    simp only [Function.comp_apply]
    split <;> simp_all

theorem Sound.joined {ws : Nat} (hs : Sound s) (hws : ws < s.nextSession) (id token : Bytes) :
    Sound (s.joined ws id token) := by
  have hmem {e : Bytes × Peer} (he : e ∈ (s.joined ws id token).peers_.entries) :
      e = (id, ⟨s.nextPeer, id, token, some ws, 1, 1⟩) ∨ e ∈ s.peers_.entries := StdMap.mem_insert he
  refine ⟨⟨fun e he => ?_, fun e he => ?_, fun e he e' he' heq => ?_, fun e he => ?_⟩,
    hs.queues.erase⟩
  · rcases hmem he with rfl | he
    · exact ⟨ws, hws, rfl⟩
    · exact hs.peers.session e he
  · rcases hmem he with rfl | he
    · exact Nat.lt_succ_self s.nextPeer
    · exact Nat.lt_succ_of_lt (hs.peers.fresh e he)
  · rcases hmem he with rfl | he <;> rcases hmem he' with rfl | he'
    · rfl
    · exact absurd heq.symm (Nat.ne_of_lt (hs.peers.fresh e' he'))
    · exact absurd heq (Nat.ne_of_lt (hs.peers.fresh e he))
    · exact hs.peers.distinct e he e' he' heq
  · rcases hmem he with rfl | he
    · exact le_rfl
    · exact hs.peers.slots e he

theorem Sound.rejoined {ws : Nat} (hs : Sound s) (hws : ws < s.nextSession) (id : Bytes)
    (ptr : Nat) : Sound (s.rejoined ws id ptr) := by
  have hpeers : PeersSound (s.removePeerMessages id) := hs.peers.lost rfl rfl fun _ he => he
  exact ⟨hpeers.withPeer (fun _ => rfl) (fun _ _ => Nat.le_add_left 1 _)
    fun _ _ => ⟨ws, hws, rfl⟩, hs.queues.erase⟩

/-- A connection is refused at once, or is the first of a peer, or takes the session of a
registered peer; where the tokens differ, the rival is refused only afterwards. -/
theorem connectPeer_cases {key id token : Bytes} {ws : Nat} (hs : Sound s)
    (h : s.connectPeer ws key id token = .ok s') :
    (∃ m, s' = { s with sessions := m } ∧ s'.bindings = s.bindings) ∨
    iequals id (str "") = false ∧ ∃ m,
      (s.getPeer id = none ∧ s' = { s.joined ws id token with sessions := m } ∧
        s'.bindings = Function.update s.bindings ws (some (some s.nextPeer)) ∨
      ∃ p, s.getPeer id = some p ∧
        (s' = { s.rejoined ws id p.ptr with sessions := m } ∨
          s' = { s.withPeer p.ptr fun p => { p with session := some ws } with sessions := m }) ∧
        s'.bindings = Function.update s.bindings ws (some (some p.ptr))) := by
  have hrefused {errType errMsg : Bytes} (h : s.sendError ws errType errMsg = .ok s') :
      ∃ m, s' = { s with sessions := m } ∧ s'.bindings = s.bindings := by
    obtain ⟨m, hm⟩ := sendError_frame h
    exact ⟨m, hm, sendError_bindings h⟩
  cases hid : iequals id (str "") with
  | true =>
    rw [connectPeer, if_pos (.inr (.inl hid))] at h
    exact .inl (hrefused h)
  | false =>
    cases hp : s.getPeer id with
    | none =>
      rcases connectPeer_joins hs hp h with ⟨⟨m, hm⟩, hb⟩ | ⟨-, ⟨m, hm⟩, hb⟩
      · exact .inl ⟨m, hm, hb⟩
      · exact .inr ⟨rfl, m, .inl ⟨rfl, hm, hb⟩⟩
    | some p =>
      cases ht : iequals p.token token with
      | true =>
        rcases connectPeer_rejoins hs.queues hp ht h with ⟨⟨m, hm⟩, hb⟩ | ⟨⟨m, hm⟩, hb⟩
        · exact .inl ⟨m, hm, hb⟩
        · exact .inr ⟨rfl, m, .inr ⟨p, rfl, .inl hm, hb⟩⟩
      | false =>
        rcases connectPeer_rival hp ht h with h | ⟨⟨m, hm⟩, hb⟩
        · exact .inl (hrefused h)
        · exact .inr ⟨rfl, m, .inr ⟨p, rfl, .inr hm, hb⟩⟩

theorem connectPeer_sound {key id token : Bytes} {ws : Nat} (hs : Sound s)
    (hws : ws < s.nextSession) (h : s.connectPeer ws key id token = .ok s') : Sound s' := by
  rcases connectPeer_cases hs h with
    ⟨m, rfl, -⟩ | ⟨-, m, ⟨-, rfl, -⟩ | ⟨p, -, rfl | rfl, -⟩⟩
  · exact hs.withSessions m
  · exact (hs.joined hws id token).withSessions m
  · exact (hs.rejoined hws id p.ptr).withSessions m
  · have hpeers : PeersSound (s.withPeer p.ptr fun p => { p with session := some ws }) :=
      hs.peers.withPeer (fun _ => rfl) (fun _ hm => hm) fun _ _ => ⟨ws, hws, rfl⟩
    exact Sound.withSessions ⟨hpeers, hs.queues⟩ m

/-- The state in which a new session is handed to `onWebsocketConnection`. -/
def opened (s : PeerServer) : PeerServer :=
  { s with nextSession := s.nextSession + 1 }.setSession s.nextSession (some ⟨true, none, []⟩)

/-- A connection is either ignored or told to `connectPeer`. -/
theorem connect_ok {url : Option Url} (h : s.connect url = .ok s') :
    s' = s.opened ∨ ∃ u, url = some u ∧ isPeerPath u.path = true ∧
      s.opened.connectPeer s.nextSession
        (UrlParser.getValue (UrlParser.parseQuery u.query) (str "key"))
        (UrlParser.getValue (UrlParser.parseQuery u.query) (str "id"))
        (UrlParser.getValue (UrlParser.parseQuery u.query) (str "token")) = .ok s' := by
  change s.opened.onWebsocketConnection s.nextSession url = .ok s' at h
  unfold onWebsocketConnection at h
  cases url with
  | none =>
    cases h
    exact .inl rfl
  | some u =>
    simp only at h
    split at h
    · cases h
      exact .inl rfl
    · rename_i hpath
      exact .inr ⟨u, rfl, by simpa using hpath, h⟩

theorem Sound.opened (hs : Sound s) : Sound s.opened where
  peers :=
    { session := fun e he => by
        obtain ⟨ws, hws, he⟩ := hs.peers.session e he
        exact ⟨ws, Nat.lt_succ_of_lt hws, he⟩
      fresh := hs.peers.fresh
      distinct := hs.peers.distinct
      slots := hs.peers.slots }
  queues := hs.queues

theorem connect_cases {url : Option Url} (hs : Sound s) (h : s.connect url = .ok s') :
    (∃ m, s' = { s.opened with sessions := m } ∧ s'.bindings = s.opened.bindings) ∨
    ∃ id token, iequals id (str "") = false ∧ ∃ m,
      (s.getPeer id = none ∧
        s' = { s.opened.joined s.nextSession id token with sessions := m } ∧
        s'.bindings = Function.update s.opened.bindings s.nextSession (some (some s.nextPeer)) ∨
      ∃ p, s.getPeer id = some p ∧
        (s' = { s.opened.rejoined s.nextSession id p.ptr with sessions := m } ∨
          s' = { s.opened.withPeer p.ptr fun p => { p with session := some s.nextSession } with
            sessions := m }) ∧
        s'.bindings = Function.update s.opened.bindings s.nextSession (some (some p.ptr))) := by
  rcases connect_ok h with rfl | ⟨u, -, -, h⟩
  · exact .inl ⟨s.opened.sessions, rfl, rfl⟩
  · exact (connectPeer_cases hs.opened h).imp_right fun hc => ⟨_, _, hc⟩

theorem connect_sound {url : Option Url} (hs : Sound s) (h : s.connect url = .ok s') :
    Sound s' := by
  rcases connect_ok h with rfl | ⟨u, -, -, h⟩
  · exact hs.opened
  · exact connectPeer_sound hs.opened (Nat.lt_succ_self _) h

/-! ### Messages and closes -/

def relayed (p : Peer) : Option Document → Option PeerMessage
  | some ⟨.string type, .string dst, payload, withSrc⟩ =>
    if isRelayed type ∧ payload ≠ .null then some ⟨type, p.id, dst, withSrc p.id⟩ else none
  | _ => none

theorem onPeerMessage_ok {ptr : Nat} {d : Option Document} {p : Peer} (hp : s.deref ptr = .ok p)
    (h : s.onPeerMessage ptr d = .ok s') :
    match relayed p d with
    | some pm => s.handleTransmission pm = .ok s'
    | none => s' = s := by
  unfold onPeerMessage at h
  rw [hp, ok_bind] at h
  match d with
  | none => cases h
  | some ⟨.null, _, _, _⟩ =>
    cases h
    rfl
  | some ⟨.other, _, _, _⟩ => cases h
  | some ⟨.string type, dst, payload, withSrc⟩ =>
    simp only [Member.getString, ok_bind, reduceCtorEq, if_false] at h
    by_cases ht : isRelayed type = true
    · rw [if_pos ht] at h
      cases dst with
      | null =>
        cases h
        rfl
      | other =>
        simp only [reduceCtorEq, if_false] at h
        split at h
        · cases h
          rfl
        · cases h
      | string dst =>
        simp only [reduceCtorEq, if_false, ok_bind] at h
        split at h
        · rename_i hpay
          cases h
          simp [relayed, hpay]
        · rename_i hpay
          simpa [relayed, ht, hpay] using h
    · rw [if_neg ht] at h
      cases h
      cases dst <;> simp [relayed, ht]

theorem onPeerMessage_relays {p : Peer} {d : Option Document} {pm : PeerMessage}
    (hp : s.deref p.ptr = .ok p) (h : relayed p d = some pm) :
    s.onPeerMessage p.ptr d = s.handleTransmission pm := by
  unfold relayed at h
  split at h
  · rename_i type dst payload withSrc
    split at h
    · rename_i hrelayed
      cases h
      unfold onPeerMessage
      simp only [hp, ok_bind, reduceCtorEq, if_false, Member.getString, hrelayed.1, if_true,
        hrelayed.2]
    · cases h
  · cases h

theorem onPeerMessage_ignores {p : Peer} {d : Option Document} (hp : s.deref p.ptr = .ok p)
    (h : relayed p d = none) :
    s.onPeerMessage p.ptr d = .ok s ∨ s.onPeerMessage p.ptr d = .error .misused := by
  unfold onPeerMessage
  rw [hp, ok_bind]
  match d with
  | none => exact .inr rfl
  | some ⟨.null, _, _, _⟩ => exact .inl rfl
  | some ⟨.other, _, _, _⟩ => exact .inr rfl
  | some ⟨.string type, dst, payload, withSrc⟩ =>
    simp only [Member.getString, ok_bind, reduceCtorEq, if_false]
    split_ifs with htype hdst hpayload
    · exact .inl rfl
    · exact .inl rfl
    · cases dst with
      | null => exact absurd rfl hdst
      | other => exact .inr rfl
      | string dst =>
        simp only [relayed, htype, ne_eq, hpayload, not_false_eq_true, and_self, if_true,
          reduceCtorEq] at h
    · exact .inl rfl

theorem onPeerMessage_sound {ptr : Nat} {d : Option Document} (hs : Sound s)
    (h : s.onPeerMessage ptr d = .ok s') : Sound s' := by
  obtain ⟨p, hp, -⟩ := bind_eq_ok.mp h
  have h := onPeerMessage_ok hp h
  split at h
  · exact hs.handleTransmission h
  · exact h ▸ hs

theorem onPeerClose_ok {ptr : Nat} (h : s.onPeerClose ptr = .ok s') :
    ∃ id, s' = s.removePeer id := by
  obtain ⟨p, -, h⟩ := bind_eq_ok.mp h
  cases h
  exact ⟨p.id, rfl⟩

def speaker (s : PeerServer) (session : Nat) : Option Nat :=
  match s.sessions session with
  | some ⟨true, bound, _⟩ => bound
  | _ => none

/-- A message of a session goes to the slots of the peer that the session is bound to. -/
theorem message_ok {i : Nat} {d : Option Document} (h : s.message i d = .ok s') :
    match s.speaker i with
    | none => s' = s
    | some ptr => ∃ p, s.deref ptr = .ok p ∧
        runSlots (onPeerMessage · ptr d) p.messageSlots s = .ok s' := by
  unfold message at h
  unfold speaker
  match hw : s.sessions i with
  | none =>
    rw [hw] at h
    cases h
    rfl
  | some ⟨true, some ptr, sent⟩ =>
    rw [hw] at h
    exact bind_eq_ok.mp h
  | some ⟨true, none, sent⟩ =>
    rw [hw] at h
    cases h
    rfl
  | some ⟨false, bound, sent⟩ =>
    rw [hw] at h
    cases h
    rfl

/-- A close removes peers, and the session. -/
theorem closed_keeps {i : Nat} {I : PeerServer → Prop}
    (hk : ∀ t id, I t → I (t.removePeer id)) (hm : ∀ t w, I t → I (t.setSession i w))
    (hs : I s) (h : s.closed i = .ok s') : I s' := by
  unfold closed at h
  split at h
  · cases h
    exact hs
  · rename_i w hw
    cases hb : w.bound with
    | none =>
      simp only [hb] at h
      cases h
      exact hm s _ hs
    | some ptr =>
      simp only [hb] at h
      obtain ⟨p, -, h⟩ := bind_eq_ok.mp h
      obtain ⟨s₁, h₁, h⟩ := bind_eq_ok.mp h
      cases h
      refine hm s₁ _ (runSlots_keeps (fun t t' ht h => ?_) hs h₁)
      obtain ⟨id, rfl⟩ := onPeerClose_ok h
      exact hk t id ht

/-! ### The cleanup -/

theorem cleanupFrom_peers {depth : Nat} {last : Option Bytes} (hs : PeersSound s)
    (h : s.cleanupFrom depth last = .ok s') : PeersSound s' := by
  induction depth generalizing s last with
  | zero => cases h
  | succ depth ih =>
    unfold cleanupFrom at h
    split at h
    · cases h
      exact hs
    · cases h
    · rename_i dst pending _
      obtain ⟨s₁, h₁, h⟩ := bind_eq_ok.mp h
      have hs₀ : PeersSound { s with
          outstandings_ := s.outstandings_.modifyFirst (dst = ·) fun _ => none } :=
        hs.lost rfl rfl fun _ he => he
      exact ih (foldlM_keeps (fun t t' pm _ ht h => ht.handleTransmission h) hs₀ h₁) h

theorem handleCleanupIntervals_sound (hs : Sound s) (h : s.handleCleanupIntervals = .ok s') :
    Sound s' := by
  obtain ⟨s₁, h₁, h⟩ := bind_eq_ok.mp h
  cases h
  exact ⟨(cleanupFrom_peers hs.peers h₁).lost rfl rfl fun _ he => he, fun e he => by cases he⟩

/-! ### Runs -/

theorem step_sound {e : Event} (hs : Sound s) (h : s.step e = .ok s') : Sound s' := by
  cases e with
  | connect url => exact connect_sound hs h
  | message i d =>
    have h := message_ok h
    split at h
    · exact h ▸ hs
    · obtain ⟨p, -, h⟩ := h
      exact runSlots_keeps (fun t t' ht h => onPeerMessage_sound ht h) hs h
  | closed i =>
    exact closed_keeps (fun t id ht => ⟨ht.peers.removePeer id, ht.queues⟩)
      (fun t w ht => ht.withSessions _) hs h
  | cleanup => exact handleCleanupIntervals_sound hs h

def Reachable (s : PeerServer) : Prop := ∃ es, start.run es = .ok s

theorem start_sound : Sound start where
  peers := ⟨by simp [start, StdMap.empty], by simp [start, StdMap.empty],
    by simp [start, StdMap.empty], by simp [start, StdMap.empty]⟩
  queues := by simp [QueuesSound, start, StdMap.empty]

theorem Reachable.sound (h : Reachable s) : Sound s := by
  obtain ⟨es, h⟩ := h
  exact foldlM_keeps (fun _ _ _ _ hs h => step_sound hs h) start_sound h

end Flingd.Peers.PeerServer
