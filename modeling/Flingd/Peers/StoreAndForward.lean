import Flingd.Base.Spread
import Flingd.Peers.Events

/-! What waits for a peer that is not there, and what it is sent when it connects. -/
namespace Flingd.Peers.PeerServer
open Http Outcome
variable {s s' : PeerServer}

/-! ### What is said -/

def spoken (s : PeerServer) : Event → Option (Peer × PeerMessage)
  | .message session d =>
    match s.speaker session with
    | none => none
    | some ptr =>
      match s.deref ptr with
      | .ok p => (relayed p d).map (p, ·)
      | .error _ => none
  | _ => none

/-- The message for `b` in an event, with the number of slots that hear it. -/
def heardAt (b : Bytes) (s : PeerServer) (e : Event) : List (Nat × PeerMessage) :=
  match s.spoken e with
  | some (p, pm) => if isStored pm && iequals b pm.dst then [(p.messageSlots, pm)] else []
  | none => []

/-- All of them along a run. -/
def heard (b : Bytes) (s : PeerServer) : List Event → List (Nat × PeerMessage)
  | [] => []
  | e :: es =>
    match s.step e with
    | .ok s' => heardAt b s e ++ heard b s' es
    | .error _ => heardAt b s e

/-- `b` is not registered along the run, and there is no cleanup. -/
def Absent (b : Bytes) (s : PeerServer) : List Event → Prop
  | [] => s.getPeer b = none
  | e :: es => s.getPeer b = none ∧ e ≠ .cleanup ∧ ∀ s', s.step e = .ok s' → Absent b s' es

theorem Absent.here {b : Bytes} {es : List Event} (h : Absent b s es) : s.getPeer b = none := by
  cases es with
  | nil => exact h
  | cons e es => exact h.1

/-! ### One event -/

theorem handleTransmission_waiting {b : Bytes} {pm : PeerMessage} (hs : PeersSound s)
    (hb : (isStored pm && iequals b pm.dst) = false) (h : s.handleTransmission pm = .ok s') :
    s'.waiting b = s.waiting b := by
  rcases handleTransmission_cases hs h with ⟨-, m, rfl⟩ | ⟨-, hst, h⟩ | ⟨-, -, rfl | rfl⟩
  · rfl
  · rw [hst, Bool.true_and] at hb
    exact addPeerMessages_other hb h
  · rfl
  · rfl

/-- The sender does not matter for where a message goes. -/
theorem relayed_route {p p' : Peer} {d : Option Document} {pm : PeerMessage}
    (h : relayed p' d = some pm) :
    ∃ pm', relayed p d = some pm' ∧ isStored pm' = isStored pm ∧ pm'.dst = pm.dst := by
  unfold relayed at h ⊢
  split at h
  · split at h
    · cases h
      rename_i hr
      simp only [if_pos hr]
      exact ⟨_, rfl, rfl, rfl⟩
    · cases h
  · cases h

/-- What no slot stores for `b` leaves the queue of `b` alone. -/
theorem runSlots_unheard {b : Bytes} {ptr n : Nat} {d : Option Document} {p : Peer}
    (hs : PeersSound s)
    (hb : ∀ pm, relayed p d = some pm → (isStored pm && iequals b pm.dst) = false)
    (h : runSlots (onPeerMessage · ptr d) n s = .ok s') : s'.waiting b = s.waiting b := by
  refine (runSlots_keeps (I := fun t => PeersSound t ∧ t.waiting b = s.waiting b) ?_
    ⟨hs, rfl⟩ h).2
  rintro t t' ⟨ht, hw⟩ h
  obtain ⟨p', hp', -⟩ := bind_eq_ok.mp h
  have h := onPeerMessage_ok hp' h
  split at h
  · rename_i pm hpm
    obtain ⟨pm', hpm', hst, hdst⟩ := relayed_route (p := p) hpm
    have hroute := hb pm' hpm'
    rw [hst, hdst] at hroute
    exact ⟨ht.handleTransmission h, (handleTransmission_waiting ht hroute h).trans hw⟩
  · subst h
    exact ⟨ht, hw⟩

/-- What is stored for `b` is stored once a slot. -/
theorem runSlots_heard {b : Bytes} {ptr n : Nat} {d : Option Document} {p : Peer}
    {pm : PeerMessage} (hs : PeersSound s) (hp : s.deref ptr = .ok p)
    (hpm : relayed p d = some pm) (hst : isStored pm = true) (hb : iequals b pm.dst = true)
    (habs : s.getPeer b = none) (h : runSlots (onPeerMessage · ptr d) n s = .ok s') :
    s'.waiting b = (List.replicate n pm).foldl enqueue (s.waiting b) := by
  induction n generalizing s with
  | zero =>
    cases h
    rfl
  | succ n ih =>
    obtain ⟨s₁, h₁, h⟩ := bind_eq_ok.mp h
    have h₁ := onPeerMessage_ok hp h₁
    simp only [hpm] at h₁
    have hdst : s.getPeer pm.dst = none := by rw [← getPeer_congr hb, habs]
    rcases handleTransmission_cases hs h₁ with ⟨hsome, -⟩ | ⟨-, -, h₁⟩ | ⟨-, hno, -⟩
    · rw [hdst] at hsome
      cases hsome
    · have hw := addPeerMessages_waiting hb h₁
      obtain ⟨o, rfl⟩ := addPeerMessages_frame h₁
      have hs₁ : PeersSound { s with outstandings_ := o } := hs.lost rfl rfl fun _ he => he
      rw [ih hs₁ hp habs h, hw, List.replicate_succ, List.foldl_cons]
    · rw [hst] at hno
      cases hno

/-- A connection does not touch the queue of a peer that is not registered after it. -/
theorem connect_waiting {b : Bytes} {url : Option Url} (hs : Sound s)
    (hb : s.getPeer b = none) (hb' : s'.getPeer b = none) (h : s.connect url = .ok s') :
    s'.waiting b = s.waiting b := by
  have herase {t : PeerServer} {id : Bytes} (hid : iequals b id = false) :
      (t.removePeerMessages id).waiting b = t.waiting b := by
    unfold waiting getPeerMessages removePeerMessages
    rw [StdMap.scan_eraseFirst_other fun k hk => iequals_disjoint hid k hk]
  rcases connect_cases hs h with
    ⟨m, rfl, -⟩ | ⟨id, token, -, m, ⟨hp, rfl, -⟩ | ⟨p, hp, rfl | rfl, -⟩⟩
  · rfl
  · have hid : iequals b id = false := by
      by_contra hid
      have hin := StdMap.scan_insert_new (⟨s.nextPeer, id, token, some s.nextSession, 1, 1⟩ : Peer)
        (getPeer_none.mp hb) ((Bool.not_eq_false _).mp hid)
      cases (getPeer_none.mp hb').symm.trans hin
    exact herase (t := s.opened) hid
  · have hid : iequals b id = false := by
      by_contra hid
      rw [← getPeer_congr ((Bool.not_eq_false _).mp hid), hb] at hp
      cases hp
    exact herase (t := s.opened) hid
  · rfl

/-- The queue of `b` after an event is the queue before it with what was heard put in. -/
theorem step_waiting {b : Bytes} {e : Event} (hs : Sound s) (hb : s.getPeer b = none)
    (hb' : s'.getPeer b = none) (he : e ≠ .cleanup) (h : s.step e = .ok s') :
    s'.waiting b = (spread (heardAt b s e)).foldl enqueue (s.waiting b) := by
  cases e with
  | connect url => exact connect_waiting hs hb hb' h
  | closed i =>
    exact closed_keeps (I := fun t => t.waiting b = s.waiting b) (fun t id ht => ht)
      (fun t w ht => ht) rfl h
  | cleanup => exact absurd rfl he
  | message i d =>
    have h := message_ok h
    cases hptr : s.speaker i with
    | none =>
      have hquiet : s.spoken (.message i d) = none := by simp only [spoken, hptr]
      rw [hptr] at h
      rw [h, heardAt, hquiet]
      rfl
    | some ptr =>
      rw [hptr] at h
      obtain ⟨p, hp, h⟩ := h
      have hspoken : s.spoken (.message i d) = (relayed p d).map (p, ·) := by
        simp only [spoken, hptr, hp]
      rw [heardAt, hspoken]
      cases hpm : relayed p d with
      | none => exact runSlots_unheard (p := p) hs.peers (by simp [hpm]) h
      | some pm =>
        simp only [Option.map_some]
        cases hst : isStored pm && iequals b pm.dst with
        | false =>
          refine runSlots_unheard (p := p) hs.peers (fun pm' hpm' => ?_) h
          rw [hpm] at hpm'
          cases hpm'
          exact hst
        | true =>
          rw [Bool.and_eq_true] at hst
          simpa using runSlots_heard hs.peers hp hpm hst.1 hst.2 hb h

/-! ### Runs -/

theorem heardAt_slots {b : Bytes} {e : Event} (hs : Sound s) :
    ∀ x ∈ heardAt b s e, 1 ≤ x.1 := by
  intro x hx
  unfold heardAt at hx
  split at hx
  · rename_i p pm hsp
    split at hx
    · obtain rfl := List.mem_singleton.mp hx
      unfold spoken at hsp
      split at hsp
      · split at hsp
        · cases hsp
        · split at hsp
          · rename_i p' hp'
            obtain ⟨pm', -, h⟩ := Option.map_eq_some_iff.mp hsp
            cases h
            obtain ⟨k, hk, -⟩ := deref_ok hp'
            exact hs.peers.slots _ hk
          · cases hsp
      · cases hsp
    · cases hx
  · cases hx

/-- What holds after a run without `b`. -/
theorem run_waiting {b : Bytes} {es : List Event} (hs : Sound s) (habs : Absent b s es)
    (h : s.run es = .ok s') :
    Sound s' ∧ s'.getPeer b = none ∧ (∀ x ∈ heard b s es, 1 ≤ x.1) ∧
      s'.waiting b = (spread (heard b s es)).foldl enqueue (s.waiting b) := by
  induction es generalizing s with
  | nil =>
    cases h
    exact ⟨hs, habs, by simp [heard], rfl⟩
  | cons e es ih =>
    obtain ⟨s₁, h₁, h⟩ := bind_eq_ok.mp h
    obtain ⟨hb, he, hrest⟩ := habs
    have habs₁ := hrest s₁ h₁
    obtain ⟨hs', hb', hslots, hw⟩ := ih (step_sound hs h₁) habs₁ h
    have hheard : heard b s (e :: es) = heardAt b s e ++ heard b s₁ es := by
      simp only [heard, h₁]
    rw [hheard]
    refine ⟨hs', hb', fun x hx => ?_, ?_⟩
    · rcases List.mem_append.mp hx with hx | hx
      · exact heardAt_slots hs x hx
      · exact hslots x hx
    · rw [hw, step_waiting hs hb habs₁.here he h₁, ← List.foldl_append, spread_append]

theorem foldl_enqueue_some (l ms : List PeerMessage) :
    ms.foldl enqueue (some l) = some (l ++ ms) := by
  induction ms generalizing l with
  | nil => simp
  | cons pm ms ih => simp [enqueue, ih]

theorem foldl_enqueue_none (ms : List PeerMessage) :
    (ms.foldl enqueue none).getD [] = ms.tail := by
  cases ms with
  | nil => rfl
  | cons pm ms => simp [enqueue, foldl_enqueue_some]

/-! ### The connection -/

/-- A connection as `b` that `checkKey` accepts. -/
structure Joins (s : PeerServer) (url : Url) (b : Bytes) : Prop where
  path : isPeerPath url.path = true
  key : iequals (UrlParser.getValue (UrlParser.parseQuery url.query) (str "key")) (str "") = false
  nonempty : iequals (UrlParser.getValue (UrlParser.parseQuery url.query) (str "id")) (str "") = false
  token :
    iequals (UrlParser.getValue (UrlParser.parseQuery url.query) (str "token")) (str "") = false
  accepted : s.checkKey (UrlParser.getValue (UrlParser.parseQuery url.query) (str "key")) = none
  id : iequals b (UrlParser.getValue (UrlParser.parseQuery url.query) (str "id")) = true

theorem configureWs_delivers {id token : Bytes} {p : Peer} {ws : Nat} {w : WebsocketSession}
    (hq : QueuesSound s) (hp : s.getPeer id = some p) (hs : p.session = some ws)
    (ht : iequals p.token token = true) (hw : s.sessions ws = some w) (ho : w.isOpen = true) :
    ∃ s', s.configureWs ws id token = .ok s' ∧ s'.sessions ws = some { w with
      sent := w.sent ++ ((s.waiting id).getD []).map Frame.transmission } := by
  obtain ⟨k, hk, -⟩ := getPeer_some hp
  unfold configureWs
  simp only [hp, ht, not_true, if_false]
  rw [processOutstanding_delivers hq hp hs hw ho, ok_bind]
  exact ⟨_, updatePeer_total _ hk rfl, setSession_sessions ws _⟩

/-- The peer is told that the connection is open, and then everything that waits for it. -/
theorem connect_delivers {url : Url} {b : Bytes} (hs : Sound s) (hb : s.getPeer b = none)
    (hj : Joins s url b) :
    ∃ s' w, s.connect (some url) = .ok s' ∧ s'.sessions s.nextSession = some w ∧
      w.sent = .opened :: ((s.waiting b).getD []).map Frame.transmission := by
  obtain ⟨hpath, hkey, hid, htoken, haccept, hsame⟩ := hj
  rw [waiting_congr hsame]
  rw [getPeer_congr hsame] at hb
  change ∃ s' w, s.opened.onWebsocketConnection s.nextSession (some url) = .ok s' ∧ _
  unfold onWebsocketConnection
  simp only [hpath, not_true, if_false]
  generalize UrlParser.getValue (UrlParser.parseQuery url.query) (str "id") = id at *
  generalize UrlParser.getValue (UrlParser.parseQuery url.query) (str "token") = token at *
  generalize UrlParser.getValue (UrlParser.parseQuery url.query) (str "key") = key at *
  have hb' : s.opened.getPeer id = none := hb
  have haccept' : s.opened.checkKey key = none := haccept
  unfold connectPeer
  simp only [hkey, hid, htoken, Bool.false_eq_true, or_self, if_false, hb', haccept']
  -- the session of the connection is there from `connect` on
  have hnew : PeerServer.sessions { s.opened with nextPeer := s.opened.nextPeer + 1 }
      s.nextSession = some ⟨true, none, []⟩ := setSession_sessions ..
  unfold initSession
  rw [updateSession_ok.mpr ⟨_, hnew, rfl⟩, ok_bind]
  set p : Peer := ⟨s.opened.nextPeer, id, token, some s.nextSession, 0, 0⟩
  set t := PeerServer.setSession { s.opened with nextPeer := s.opened.nextPeer + 1 } s.nextSession
    (some ⟨true, some p.ptr, []⟩)
  obtain ⟨hadd, hget⟩ := getPeer_addPeer (s := t) p hb
  have hbound : (t.addPeer id p).sessions s.nextSession = some ⟨true, some p.ptr, []⟩ := by
    rw [hadd]
    exact setSession_sessions ..
  rw [sendTo_open .opened hbound rfl, ok_bind]
  have hqueues : QueuesSound (t.addPeer id p) := by
    rw [hadd]
    exact hs.queues
  have hwait : (t.addPeer id p).waiting id = s.waiting id := by
    rw [hadd]
    rfl
  obtain ⟨s', h, hw⟩ := configureWs_delivers (s := (t.addPeer id p).setSession s.nextSession
    (some ⟨true, some p.ptr, [.opened]⟩)) hqueues hget rfl (iequals_refl token)
    (setSession_sessions ..) rfl
  refine ⟨s', _, h, hw, ?_⟩
  rw [← hwait]
  rfl

/-! ### Store and forward -/

/-- The data of the messages of `a`. -/
def dataFrom (a : Bytes) (l : List PeerMessage) : List Bytes :=
  (l.filter fun pm => iequals a pm.src).map PeerMessage.data

/-- The data that a session was sent of the messages of `a`. -/
def received (a : Bytes) (sent : List Frame) : List Bytes :=
  dataFrom a (sent.filterMap fun
    | .transmission pm => some pm
    | _ => none)

/-- What `a` says to `b` along a run, with the number of slots that hear it. -/
def said (a b : Bytes) (s : PeerServer) (es : List Event) : List (Nat × Bytes) :=
  ((heard b s es).filter fun x => iequals a x.2.src).map fun x => (x.1, x.2.data)

/-- The connection that follows the run is sent what waited for `b` from `a` before the run,
and then what `a` said in the run, in order and once. -/
def Forwards (a b : Bytes) (s : PeerServer) (es : List Event) (s' : PeerServer) (url : Url) :
    Prop :=
  ∃ s'' w, s'.connect (some url) = .ok s'' ∧ s''.sessions s'.nextSession = some w ∧
    received a w.sent = dataFrom a ((s.waiting b).getD []) ++ (said a b s es).map Prod.snd

/-- There is no queue for `b`, and the first message that makes one is from `a`. -/
def MakesQueue (a b : Bytes) (s : PeerServer) (es : List Event) : Prop :=
  s.waiting b = none ∧ ∃ x xs, heard b s es = x :: xs ∧ iequals a x.2.src = true

theorem received_opened (a : Bytes) (l : List PeerMessage) :
    received a (.opened :: l.map Frame.transmission) = dataFrom a l := by
  have hl : (l.map Frame.transmission).filterMap (fun
      | .transmission pm => some pm
      | _ => none) = l := by
    rw [List.filterMap_map]
    exact List.filterMap_some
  unfold received
  rw [List.filterMap_cons]
  simp only [hl]

theorem dataFrom_append (a : Bytes) (l l' : List PeerMessage) :
    dataFrom a (l ++ l') = dataFrom a l ++ dataFrom a l' := by
  simp [dataFrom]

theorem dataFrom_heard (a b : Bytes) (es : List Event) :
    dataFrom a (spread (heard b s es)) = spread (said a b s es) := by
  unfold dataFrom said
  rw [spread_filter, spread_map]

theorem said_slots {a b : Bytes} {es : List Event} (h : ∀ x ∈ heard b s es, 1 ≤ x.1) :
    ∀ x ∈ said a b s es, 1 ≤ x.1 := by
  intro x hx
  obtain ⟨y, hy, rfl⟩ := List.mem_map.mp hx
  exact h y (List.mem_filter.mp hy).1

/-- What the connection is sent, in terms of the queue. -/
theorem forwards_iff {a b : Bytes} {es : List Event} {url : Url} (hs : Sound s')
    (hb : s'.getPeer b = none) (hj : Joins s' url b) :
    Forwards a b s es s' url ↔ dataFrom a ((s'.waiting b).getD []) =
      dataFrom a ((s.waiting b).getD []) ++ (said a b s es).map Prod.snd := by
  obtain ⟨s'', w, h, hw, hsent⟩ := connect_delivers hs hb hj
  rw [← received_opened, ← hsent]
  constructor
  · rintro ⟨t, w', h', hw', hr⟩
    cases h.symm.trans h'
    cases hw.symm.trans hw'
    exact hr
  · intro hr
    exact ⟨s'', w, h, hw, hr⟩

/-- Without the first message that is heard. -/
theorem dataFrom_tail {a b : Bytes} {es : List Event} {x : Nat × PeerMessage}
    {xs : List (Nat × PeerMessage)} (hh : heard b s es = x :: xs) (hx : 1 ≤ x.1) :
    spread (said a b s es) = if iequals a x.2.src then
      x.2.data :: dataFrom a (spread (heard b s es)).tail
      else dataFrom a (spread (heard b s es)).tail := by
  obtain ⟨n, pm⟩ := x
  obtain ⟨n, rfl⟩ : ∃ k, n = k + 1 := ⟨n - 1, by omega⟩
  rw [← dataFrom_heard, hh, spread_cons, List.replicate_succ, List.cons_append, List.tail_cons]
  unfold dataFrom
  rw [List.filter_cons]
  split <;> rfl

/-- The messages that wait for `b` after a run reach it as `a` said them when `a` does not
make the queue and each is heard by one slot. Otherwise one of them is heard by two, and
all up to it carry the same data. -/
theorem run_forwards_iff {a b : Bytes} {es : List Event} {url : Url} (hs : Reachable s)
    (habs : Absent b s es) (h : s.run es = .ok s') (hj : Joins s' url b) :
    Forwards a b s es s' url ↔
      (¬ MakesQueue a b s es ∧ ∀ x ∈ said a b s es, x.1 = 1) ∨
        (MakesQueue a b s es ∧ ∃ d, Doubled d (said a b s es)) := by
  obtain ⟨hs', hb, hslots, hw⟩ := run_waiting hs.sound habs h
  have hsaid : ∀ x ∈ said a b s es, 1 ≤ x.1 := said_slots hslots
  rw [forwards_iff hs' hb hj, hw]
  cases hq : s.waiting b with
  | some l =>
    have hnot : ¬ MakesQueue a b s es := by
      rintro ⟨hnone, -⟩
      rw [hq] at hnone
      cases hnone
    rw [foldl_enqueue_some, Option.getD_some, Option.getD_some, dataFrom_append,
      List.append_cancel_left_eq, dataFrom_heard, spread_eq_iff hsaid]
    simp [hnot]
  | none =>
    rw [foldl_enqueue_none, Option.getD_none]
    change dataFrom a (spread (heard b s es)).tail = (said a b s es).map Prod.snd ↔ _
    cases hh : heard b s es with
    | nil =>
      have hnot : ¬ MakesQueue a b s es := by
        rintro ⟨-, x, xs, hx, -⟩
        rw [hh] at hx
        cases hx
      simp [hnot, said, hh, dataFrom]
    | cons x xs =>
      have htail := dataFrom_tail (a := a) hh (hslots x (by simp [hh]))
      rw [← hh]
      cases ha : iequals a x.2.src with
      | true =>
        have hmakes : MakesQueue a b s es := ⟨hq, x, xs, hh, ha⟩
        rw [ha, if_pos rfl] at htail
        have hdoubled : (∃ d, Doubled d (said a b s es)) ↔ Doubled x.2.data (said a b s es) := by
          refine ⟨fun ⟨d, hd⟩ => ?_, fun hd => ⟨_, hd⟩⟩
          have hspread := (spread_eq_cons_iff hsaid d).mpr hd
          rw [htail, List.cons.injEq] at hspread
          exact hspread.1 ▸ hd
        rw [hdoubled, ← spread_eq_cons_iff hsaid, htail]
        simp [hmakes]
      | false =>
        have hnot : ¬ MakesQueue a b s es := by
          rintro ⟨-, y, ys, hy, hya⟩
          rw [hh] at hy
          cases hy
          rw [ha] at hya
          cases hya
        rw [ha, if_neg (by simp)] at htail
        rw [← htail, spread_eq_iff hsaid]
        simp [hnot]

/-- An offer to `b`; `m` stands for its text. -/
def offerToB : List Event :=
  [.message 0 (some ⟨.string (str "OFFER"), .string (str "b"), .other, fun _ => str "m"⟩)]

/-- The peer `a`, and its offer to `b` while `b` is not there. -/
theorem a_offers : ∃ s s', start.run [.connect (some (peerUrl (str "a") (str "t")))] = .ok s ∧
    s.run offerToB = .ok s' ∧ Absent (str "b") s offerToB ∧
    Joins s' (peerUrl (str "b") (str "u")) (str "b") ∧
    dataFrom (str "a") ((s'.waiting (str "b")).getD []) = [] ∧
    dataFrom (str "a") ((s.waiting (str "b")).getD []) = [] ∧
    said (str "a") (str "b") s offerToB = [(1, str "m")] := by
  refine ⟨_, _, rfl, rfl, ⟨rfl, nofun, fun s' h => ?_⟩,
    ⟨by decide, by decide, by decide, by decide, by decide, by decide⟩, ?_, ?_, ?_⟩
  · cases h
    rfl
  · decide
  · decide
  · decide

theorem run_forwards_iff_offer : ∃ s s', start.run [.connect (some (peerUrl (str "a") (str "t")))] =
    .ok s ∧ s.run offerToB = .ok s' ∧
    (Forwards (str "a") (str "b") s offerToB s' (peerUrl (str "b") (str "u")) ↔
      (¬ MakesQueue (str "a") (str "b") s offerToB ∧
        ∀ x ∈ said (str "a") (str "b") s offerToB, x.1 = 1) ∨
      (MakesQueue (str "a") (str "b") s offerToB ∧
        ∃ d, Doubled d (said (str "a") (str "b") s offerToB))) := by
  obtain ⟨s, s', h₀, h, habs, hj, -⟩ := a_offers
  exact ⟨s, s', h₀, h, run_forwards_iff ⟨_, h₀⟩ habs h hj⟩

/-- The offer makes the queue, and nothing is left of it. -/
theorem first_offer_lost :
    ¬ ∀ (a b : Bytes) (s s' : PeerServer) (es : List Event) (url : Url), Reachable s →
      Absent b s es → s.run es = .ok s' → Joins s' url b → Forwards a b s es s' url := by
  intro hall
  obtain ⟨s, s', h₀, h, habs, hj, hend, hbegin, hsaid⟩ := a_offers
  have hs : Reachable s := ⟨_, h₀⟩
  obtain ⟨hs', hb, -⟩ := run_waiting hs.sound habs h
  have hf := (forwards_iff hs' hb hj).mp (hall (str "a") _ s s' _ _ hs habs h hj)
  rw [hend, hbegin, hsaid] at hf
  cases hf

end Flingd.Peers.PeerServer
