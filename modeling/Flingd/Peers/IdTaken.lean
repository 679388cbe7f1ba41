import Flingd.Peers.Events

/-! A connection under the id of a registered peer with another token. -/
namespace Flingd.Peers.PeerServer
open Http
variable {s s' : PeerServer}

/-- The websocket has been told that the id is taken, and is closing. -/
def Refused (s : PeerServer) (ws : Nat) : Prop :=
  ∃ w, s.sessions ws = some w ∧ w.isOpen = false ∧
    w.sent = [.error (str "ID-TAKEN") (str "ID is taken")]

/-- The registered peer is the same object with the same session, its websocket is open if
it was, and its queue is what it was. -/
def Undisturbed (s s' : PeerServer) (id : Bytes) (p : Peer) : Prop :=
  (∃ p', s'.getPeer id = some p' ∧ p'.ptr = p.ptr ∧ p'.session = p.session) ∧
    (∀ ws, p.session = some ws →
      (s'.sessions ws).map WebsocketSession.isOpen = (s.sessions ws).map WebsocketSession.isOpen) ∧
    s'.getPeerMessages id = s.getPeerMessages id

/-- The connection is refused, and neither that nor its own close disturbs the peer. -/
def Protected (s : PeerServer) (url : Url) (id : Bytes) (p : Peer) : Prop :=
  ∃ s', s.connect (some url) = .ok s' ∧ Refused s' s.nextSession ∧ Undisturbed s s' id p ∧
    ∃ s'', s'.closed s.nextSession = .ok s'' ∧ Undisturbed s s'' id p

/-- The connection asks for `id` with `token`. -/
def Names (url : Url) (id token : Bytes) : Prop :=
  UrlParser.getValue (UrlParser.parseQuery url.query) (str "id") = id ∧
    UrlParser.getValue (UrlParser.parseQuery url.query) (str "token") = token

theorem sendError_sent {i : Nat} {errType errMsg : Bytes} {w : WebsocketSession}
    (hw : s.sessions i = some w) (ho : w.isOpen = true)
    (h : s.sendError i errType errMsg = .ok s') :
    s'.sessions i = some { w with isOpen := false, sent := w.sent ++ [.error errType errMsg] } := by
  unfold sendError at h
  rw [sendTo_open _ hw ho, Outcome.ok_bind] at h
  unfold close derefSession at h
  simp only [setSession_sessions, Outcome.ok_bind, ho, if_true] at h
  obtain ⟨w', hw', rfl⟩ := updateSession_ok.mp h
  rw [setSession_sessions] at hw' ⊢
  cases hw'
  rfl

/-- The peer has the rival's session by the time the rival is refused. -/
theorem connect_rival {url : Url} {id token : Bytes} {p : Peer} (hn : Names url id token)
    (hp : s.getPeer id = some p) (ht : iequals p.token token = false)
    (h : s.connect (some url) = .ok s') (hr : Refused s' s.nextSession) :
    s'.getPeer id = some { p with session := some s.nextSession } := by
  obtain ⟨rfl, rfl⟩ := hn
  obtain ⟨w, hw, hclosed, hsent⟩ := hr
  have hnew : s.opened.sessions s.nextSession = some ⟨true, none, []⟩ := setSession_sessions ..
  rcases connect_ok h with rfl | ⟨u, hu, -, h⟩
  · rw [hnew] at hw
    cases hw
    cases hsent
  · cases hu
    rcases connectPeer_rival (s := s.opened) hp ht h with h | ⟨⟨m, rfl⟩, -⟩
    · rw [sendError_sent hnew rfl h] at hw
      cases hw
      exact absurd hsent (by decide)
    · refine (getPeer_withPeer p.ptr _ _).trans ?_
      have hp' : s.opened.getPeer (UrlParser.getValue (UrlParser.parseQuery url.query)
        (str "id")) = some p := hp
      rw [hp']
      simp

/-- A session older than the connection is not the peer's any more. -/
theorem rival_disturbs {url : Url} {id token : Bytes} {p : Peer} (hn : Names url id token)
    (hp : s.getPeer id = some p) (ht : iequals p.token token = false)
    (hold : p.session ≠ some s.nextSession) : ¬ Protected s url id p := by
  rintro ⟨s', h, hr, ⟨⟨p', hp', -, hsession⟩, -, -⟩, -⟩
  rw [connect_rival hn hp ht h hr] at hp'
  cases hp'
  exact hold hsession.symm

/-- No registered peer is protected from a connection with another token. -/
theorem taken_id_never_protected {url : Url} {id token : Bytes} {p : Peer} (hs : Reachable s)
    (hn : Names url id token) (hp : s.getPeer id = some p)
    (ht : iequals p.token token = false) : ¬ Protected s url id p := by
  refine rival_disturbs hn hp ht fun hnew => ?_
  obtain ⟨k, hk, -⟩ := getPeer_some hp
  obtain ⟨ws, hws, hold⟩ := hs.sound.peers.session _ hk
  have heq : ws = s.nextSession := Option.some.inj (hold.symm.trans hnew)
  omega

theorem peerUrl_names : Names (peerUrl (str "A") (str "x")) (str "A") (str "x") := by
  unfold Names
  decide

/-- The peer `a` with token `t`, once it has connected. -/
theorem a_registered : ∃ s p, start.run [.connect (some (peerUrl (str "a") (str "t")))] = .ok s ∧
    s.getPeer (str "A") = some p ∧ iequals p.token (str "x") = false ∧
    p.session ≠ some s.nextSession :=
  ⟨_, _, rfl, rfl, by decide, by decide⟩

theorem taken_id_never_protected_a :
    ∃ s p, start.run [.connect (some (peerUrl (str "a") (str "t")))] = .ok s ∧
      ¬ Protected s (peerUrl (str "A") (str "x")) (str "A") p := by
  obtain ⟨s, p, hrun, hp, ht, -⟩ := a_registered
  exact ⟨s, p, hrun, taken_id_never_protected ⟨_, hrun⟩ peerUrl_names hp ht⟩

/-- The peer `a` with token `t`, and a connection as `A` with token `x`. -/
theorem taken_id_hijacked :
    ¬ ∀ (s : PeerServer) (url : Url) (id token : Bytes) (p : Peer), Reachable s →
      Names url id token → s.getPeer id = some p → iequals p.token token = false →
      Protected s url id p := by
  intro h
  obtain ⟨s, p, hrun, hp, ht, hold⟩ := a_registered
  exact rival_disturbs peerUrl_names hp ht hold (h s _ _ _ p ⟨_, hrun⟩ peerUrl_names hp ht)

end Flingd.Peers.PeerServer
