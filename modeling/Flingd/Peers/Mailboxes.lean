import Flingd.Base.Ledger
import Flingd.Peers.CleanPass
import Flingd.Peers.Consistent
import Flingd.Peers.Relays
import Flingd.Peers.StoreAndForward

/-! What is handed to the server for a peer, and what the peer gets of it over all its
connections. -/
namespace Flingd.Peers.PeerServer
open Http Outcome Ledger
variable {s s' t t' : PeerServer} {b : Bytes} {out : List (Nat × PeerMessage)}

/-! ### What is sent -/

def messageOf : Frame → Option PeerMessage
  | .transmission pm => some pm
  | _ => none

def heardOn (s : PeerServer) (i : Nat) : List PeerMessage :=
  ((s.sessions i).map fun w => w.sent.filterMap messageOf).getD []

def arrivals (s s' : PeerServer) : List (Nat × PeerMessage) :=
  (List.range s'.nextSession).flatMap fun i =>
    ((s'.heardOn i).drop (s.heardOn i).length).map (i, ·)

def IsOpen (s : PeerServer) (i : Nat) : Prop := ∃ w, s.sessions i = some w ∧ w.isOpen = true

/-- What has been sent between two states, in order, on websockets that were open. None is opened. -/
structure Sends (s s' : PeerServer) (out : List (Nat × PeerMessage)) : Prop where
  heard : ∀ i, s'.heardOn i = s.heardOn i ++ (out.filter (·.1 = i)).map Prod.snd
  opened : ∀ x ∈ out, IsOpen s x.1
  shuts : ∀ i, IsOpen s' i → IsOpen s i

def addressed (b : Bytes) (out : List (Nat × PeerMessage)) : List PeerMessage :=
  out.filterMap fun x => if iequals b x.2.dst then some x.2 else none

theorem addressed_eq (b : Bytes) (out : List (Nat × PeerMessage)) :
    addressed b out = (out.map Prod.snd).filter (iequals b ·.dst) := by
  induction out with
  | nil => rfl
  | cons x out ih =>
    rw [addressed, List.filterMap_cons, ← addressed, ih, List.map_cons, List.filter_cons]
    cases iequals b x.2.dst <;> rfl

theorem Sends.of_sessions (h : s'.sessions = s.sessions) : Sends s s' [] where
  heard i := by
    rw [heardOn, h, List.filter_nil, List.map_nil, List.append_nil]
    rfl
  opened x hx := absurd hx List.not_mem_nil
  shuts i hi := by rwa [IsOpen, ← h]

theorem Sends.refl (s : PeerServer) : Sends s s [] := .of_sessions rfl

theorem Sends.congr {u u' : PeerServer} (h : Sends s s' out) (hu : u.sessions = s.sessions)
    (hu' : u'.sessions = s'.sessions) : Sends u u' out where
  heard i := by
    rw [heardOn, heardOn, hu, hu']
    exact h.heard i
  opened x hx := by
    rw [IsOpen, hu]
    exact h.opened x hx
  shuts i hi := by
    rw [IsOpen, hu'] at hi
    rw [IsOpen, hu]
    exact h.shuts i hi

theorem Sends.trans {out' : List (Nat × PeerMessage)} {u : PeerServer} (h : Sends s t out)
    (h' : Sends t u out') : Sends s u (out ++ out') where
  heard i := by rw [h'.heard i, h.heard i, List.filter_append, List.map_append, List.append_assoc]
  opened x hx := (List.mem_append.mp hx).elim (h.opened x) fun hx => h.shuts x.1 (h'.opened x hx)
  shuts i hi := h.shuts i (h'.shuts i hi)

theorem heardOn_setSession (i j : Nat) (w : Option WebsocketSession) :
    (s.setSession i w).heardOn j =
      if j = i then (w.map fun w => w.sent.filterMap messageOf).getD [] else s.heardOn j := by
  unfold heardOn
  by_cases hj : j = i
  · rw [if_pos hj, hj, setSession_sessions]
  · rw [if_neg hj]
    simp only [setSession, if_neg hj]

/-- A session is changed that stays closed if it was. -/
theorem updateSession_sends {i : Nat} {f : WebsocketSession → WebsocketSession}
    (h : s.updateSession i f = .ok s') (hf : ∀ w, (f w).isOpen = true → w.isOpen = true)
    (hout : ∀ w, s.sessions i = some w → (∀ x ∈ out, x.1 = i ∧ w.isOpen = true) ∧
      (f w).sent.filterMap messageOf = w.sent.filterMap messageOf ++ out.map Prod.snd) :
    Sends s s' out := by
  obtain ⟨w, hw, rfl⟩ := updateSession_ok.mp h
  obtain ⟨hon, hsent⟩ := hout w hw
  refine ⟨fun j => ?_, fun x hx => ?_, fun j hj => ?_⟩
  · rw [heardOn_setSession]
    by_cases hj : j = i
    · have hall : out.filter (·.1 = j) = out :=
        List.filter_eq_self.mpr fun x hx => by simp [(hon x hx).1, hj]
      rw [if_pos hj, hall, hj, heardOn, hw]
      exact hsent
    · have hnone : out.filter (·.1 = j) = [] := List.filter_eq_nil_iff.mpr fun x hx => by
        rw [(hon x hx).1]
        simpa using fun h : i = j => hj h.symm
      rw [if_neg hj, hnone, List.map_nil, List.append_nil]
  · rw [(hon x hx).1]
    exact ⟨w, hw, (hon x hx).2⟩
  · obtain ⟨w', hw', ho⟩ := hj
    by_cases hji : j = i
    · rw [hji, setSession_sessions] at hw'
      cases hw'
      exact ⟨w, hji ▸ hw, hf w ho⟩
    · simp only [setSession, if_neg hji] at hw'
      exact ⟨w', hw', ho⟩

/-- What a send adds is on its session, where it is a message. -/
theorem sendTo_sends {i : Nat} {f : Frame} (h : s.sendTo i f = .ok s') :
    Sends s s' [] ∨ Sends s s' ((messageOf f).toList.map (i, ·)) := by
  obtain ⟨w, hw, hs⟩ := updateSession_ok.mp h
  cases ho : w.isOpen with
  | false =>
    left
    rw [if_neg (by simp [ho]), setSession_of_sessions hw] at hs
    exact hs ▸ .refl s
  | true =>
    right
    refine updateSession_sends h (fun w hw => ?_) fun w' hw' => ⟨fun x hx => ?_, ?_⟩
    · split at hw <;> exact hw
    · obtain ⟨pm, -, rfl⟩ := List.mem_map.mp hx
      rw [hw'] at hw
      cases hw
      exact ⟨rfl, ho⟩
    · rw [hw'] at hw
      cases hw
      rw [if_pos ho]
      cases f <;> simp [messageOf]

theorem close_sends {i : Nat} (h : s.close i = .ok s') : Sends s s' [] := by
  obtain ⟨w, -, h⟩ := bind_eq_ok.mp h
  split at h
  · refine updateSession_sends h (fun _ hw => absurd hw Bool.false_ne_true) fun w _ => ⟨?_, ?_⟩
    · exact fun _ hx => absurd hx List.not_mem_nil
    · exact (List.append_nil _).symm
  · cases h

theorem sendError_sends {i : Nat} {errType errMsg : Bytes}
    (h : s.sendError i errType errMsg = .ok s') : Sends s s' [] := by
  obtain ⟨s₁, h₁, h⟩ := bind_eq_ok.mp h
  have hsent : Sends s s₁ [] := (sendTo_sends h₁).elim id id
  exact hsent.trans (close_sends h)

theorem initSession_sends {ptr i : Nat} (h : s.initSession ptr i = .ok s') : Sends s s' [] :=
  updateSession_sends h (fun _ hw => hw)
    fun _ _ => ⟨fun _ hx => absurd hx List.not_mem_nil, (List.append_nil _).symm⟩

theorem heardOn_drop (h : Sends s s' out) (i : Nat) :
    (s'.heardOn i).drop (s.heardOn i).length = (out.filter (·.1 = i)).map Prod.snd := by
  rw [h.heard i, List.drop_left]

theorem flatMap_range_one {α : Type} (i n : Nat) (l : List α) :
    ((List.range n).flatMap fun j => if j = i then l else []) = if i < n then l else [] := by
  induction n with
  | zero => rfl
  | succ n ih =>
    rw [List.range_succ, List.flatMap_append, ih, List.flatMap_singleton]
    rcases Nat.lt_trichotomy i n with h | rfl | h
    · rw [if_pos h, if_neg (by omega), if_pos (by omega), List.append_nil]
    · rw [if_neg (by omega), if_pos rfl, if_pos (by omega), List.nil_append]
    · rw [if_neg (by omega), if_neg (by omega), if_neg (by omega), List.append_nil]

/-- What a peer gets in one event it gets on one session, so that the order of the sessions does
not matter. -/
theorem arrivals_addressed (h : Sends s s' out)
    (hplace : ∃ i, ∀ x ∈ out, iequals b x.2.dst = true → x.1 = i ∧ i < s'.nextSession) :
    addressed b (arrivals s s') = addressed b out := by
  obtain ⟨i, hi⟩ := hplace
  have hsession (j : Nat) : addressed b (((out.filter (·.1 = j)).map Prod.snd).map (j, ·)) =
      if j = i then addressed b out else [] := by
    unfold addressed
    rw [List.filterMap_map, List.filterMap_map, List.filterMap_filter]
    split
    · rename_i hj
      refine List.filterMap_congr fun x hx => ?_
      cases hb : iequals b x.2.dst with
      | false => simp [hb]
      | true => simp [hb, hj, (hi x hx hb).1]
    · rename_i hj
      refine List.filterMap_eq_nil_iff.mpr fun x hx => ?_
      cases hb : iequals b x.2.dst with
      | false => simp [hb]
      | true =>
        have hne : ¬ x.1 = j := fun hx' => hj (hx'.symm.trans (hi x hx hb).1)
        simp [hne]
  have hall : addressed b (arrivals s s') =
      (List.range s'.nextSession).flatMap fun j => if j = i then addressed b out else [] := by
    unfold arrivals
    rw [addressed, List.filterMap_flatMap]
    refine List.flatMap_congr fun j _ => ?_
    rw [heardOn_drop h]
    exact hsession j
  rw [hall, flatMap_range_one]
  split
  · rfl
  · rename_i hnone
    refine (List.filterMap_eq_nil_iff.mpr fun x hx => if_neg fun hb => ?_).symm
    exact hnone (hi x hx hb).2

/-! ### What a peer gets -/

def mailbox (s : PeerServer) (b : Bytes) : List PeerMessage := (s.waiting b).getD []

/-- What has been handed in is passed on in order, for every peer. -/
structure Passes (s s' : PeerServer) (into : List PeerMessage) (out : List (Nat × PeerMessage)) :
    Prop where
  sends : Sends s s' out
  mail : ∀ b, InOrder (s.mailbox b) (into.filter (iequals b ·.dst)) (addressed b out) (s'.mailbox b)

theorem Passes.refl (s : PeerServer) : Passes s s [] [] := ⟨.refl s, fun _ => .refl _⟩

theorem Passes.trans {u : PeerServer} {into into' : List PeerMessage}
    {out' : List (Nat × PeerMessage)} (h : Passes s t into out) (h' : Passes t u into' out') :
    Passes s u (into ++ into') (out ++ out') where
  sends := h.sends.trans h'.sends
  mail b := by
    rw [List.filter_append, addressed, List.filterMap_append]
    exact (h.mail b).trans (h'.mail b)

/-- Nothing is handed in, and nothing is sent. -/
theorem Passes.idle (hs : Sends s s' []) (hq : ∀ b, (s'.mailbox b).Sublist (s.mailbox b)) :
    Passes s s' [] [] :=
  ⟨hs, fun b => .lose (hq b)⟩

theorem mailbox_congr (h : s'.outstandings_ = s.outstandings_) (b : Bytes) :
    s'.mailbox b = s.mailbox b := by
  rw [mailbox, waiting, getPeerMessages, h]
  rfl

/-- Nothing waits for a registered peer. -/
theorem Tidy.mailbox_registered (h : Tidy s) {p : Peer} (hp : s.getPeer b = some p) :
    s.mailbox b = [] := by
  unfold mailbox waiting
  cases hq : s.getPeerMessages b with
  | none => rfl
  | some q =>
    obtain ⟨e, he, -⟩ := Option.map_eq_some_iff.mp hq
    obtain ⟨hmem, hkey⟩ := StdMap.scan_some he
    rw [getPeer_congr hkey, h.unregistered e hmem] at hp
    cases hp

/-- Storing a message loses it, or puts it behind the others. -/
theorem addPeerMessages_mail {pm : PeerMessage} (h : s.addPeerMessages pm.dst pm = .ok s')
    (b : Bytes) : InOrder (s.mailbox b) ([pm].filter (iequals b ·.dst)) [] (s'.mailbox b) := by
  cases hb : iequals b pm.dst with
  | false =>
    rw [mailbox, mailbox, addPeerMessages_other hb h, List.filter_cons_of_neg (by simp [hb])]
    exact .refl _
  | true =>
    rw [mailbox, mailbox, addPeerMessages_waiting hb h, List.filter_cons_of_pos (by simp [hb])]
    cases s.waiting b with
    | none => exact List.nil_sublist _
    | some l => exact List.Sublist.refl _

theorem handleTransmission_passes {pm : PeerMessage} (hs : PeersSound s) (ht : Tidy s)
    (h : s.handleTransmission pm = .ok s') :
    ∃ out, Passes s s' [pm] out ∧ ∀ x ∈ out, x.2 = pm ∧ Reached s pm x.1 := by
  rcases handleTransmission_cases hs h with ⟨hknown, -⟩ | ⟨-, -, h⟩ | ⟨-, -, hsame⟩
  · obtain ⟨p, hp⟩ := Option.isSome_iff_exists.mp hknown
    obtain ⟨k, hk, -⟩ := getPeer_some hp
    obtain ⟨ws, -, hws⟩ := hs.session _ hk
    rw [handleTransmission_known hp hws] at h
    have hbox : ∀ b, s'.mailbox b = s.mailbox b := by
      obtain ⟨m, rfl⟩ := sendTo_frame h
      exact fun b => mailbox_congr rfl b
    rcases sendTo_sends h with hsent | hsent
    · refine ⟨[], ⟨hsent, fun b => ?_⟩, fun x hx => absurd hx List.not_mem_nil⟩
      rw [hbox]
      exact List.sublist_append_left _ _
    · refine ⟨[(ws, pm)], ⟨hsent, fun b => ?_⟩, fun x hx => ?_⟩
      · rw [hbox]
        cases hb : iequals b pm.dst with
        | false => simp [InOrder, addressed, hb]
        | true =>
          have hempty : s.mailbox b = [] := ht.mailbox_registered (by rw [getPeer_congr hb, hp])
          simp [InOrder, addressed, hb, hempty]
      · rw [List.mem_singleton.mp hx]
        exact ⟨rfl, p, hp, hws⟩
  · obtain ⟨o, ho⟩ := addPeerMessages_frame h
    have hsent : Sends s s' [] := .of_sessions (by rw [ho])
    exact ⟨[], ⟨hsent, addPeerMessages_mail h⟩, fun x hx => absurd hx List.not_mem_nil⟩
  · have hidle : Sends s s' [] ∧ ∀ b, s'.mailbox b = s.mailbox b := by
      rcases hsame with rfl | rfl
      · exact ⟨.refl s', fun _ => rfl⟩
      · exact ⟨.of_sessions rfl, fun _ => rfl⟩
    refine ⟨[], ⟨hidle.1, fun b => ?_⟩, fun x hx => absurd hx List.not_mem_nil⟩
    rw [hidle.2]
    exact List.sublist_append_left _ _

/-! ### Texts -/

/-- Where fewer peers are registered, no others are found. -/
theorem Wired.getPeer_lost (hw : Wired s) (hl : Loses s t) {id : Bytes} {p : Peer}
    (h : t.getPeer id = some p) : s.getPeer id = some p := by
  obtain ⟨k, hk, hkey⟩ := getPeer_some h
  have hmem := hl.peers _ hk
  cases hscan : s.getPeer id with
  | none =>
    rw [StdMap.scan_none.mp (getPeer_none.mp hscan) _ hmem] at hkey
    cases hkey
  | some q =>
    obtain ⟨k', hk', hkey'⟩ := getPeer_some hscan
    have hsame : (k', q) = (k, p) := hw.apart _ hk' _ hmem (iequals_trans hkey' hkey)
    rw [(Prod.mk.inj hsame).2]

theorem deref_lost (hs : PeersSound s) (hl : Loses s t) {ptr : Nat} {p q : Peer}
    (hp : s.deref ptr = .ok p) (hq : t.deref ptr = .ok q) : q = p := by
  obtain ⟨k, hk, hkptr⟩ := deref_ok hp
  obtain ⟨k', hk', hk'ptr⟩ := deref_ok hq
  exact congrArg Prod.snd (hs.distinct _ (hl.peers _ hk') _ hk (hk'ptr.trans hkptr.symm))

structure Settled (s : PeerServer) : Prop where
  sound : Sound s
  wired : Wired s
  tidy : Tidy s

theorem Settled.handleTransmission {pm : PeerMessage} (h : Settled s)
    (ht : s.handleTransmission pm = .ok s') : Settled s' where
  sound := h.sound.handleTransmission ht
  wired := h.wired.loses (handleTransmission_loses h.sound.peers ht)
  tidy := h.tidy.handleTransmission h.sound.peers ht

theorem onPeerMessage_passes {ptr : Nat} {d : Option Document} {p : Peer} (h : Settled s)
    (hp : ∀ q, s.deref ptr = .ok q → q = p) (hr : s.onPeerMessage ptr d = .ok s') :
    Settled s' ∧ Loses s s' ∧ ∃ out, Passes s s' (relayed p d).toList out ∧
      ∀ x ∈ out, relayed p d = some x.2 ∧ Reached s x.2 x.1 := by
  obtain ⟨q, hq, -⟩ := bind_eq_ok.mp hr
  have hok := onPeerMessage_ok hq hr
  rw [hp q hq] at hok
  cases hpm : relayed p d with
  | none =>
    simp only [hpm] at hok
    subst hok
    exact ⟨h, .refl s', [], .refl s', fun x hx => absurd hx List.not_mem_nil⟩
  | some pm =>
    simp only [hpm] at hok
    obtain ⟨out, hpass, hout⟩ := handleTransmission_passes h.sound.peers h.tidy hok
    refine ⟨h.handleTransmission hok, handleTransmission_loses h.sound.peers hok, out, hpass,
      fun x hx => ?_⟩
    obtain ⟨rfl, hreached⟩ := hout x hx
    exact ⟨rfl, hreached⟩

/-- The slots hand in the message of a text, each once. -/
theorem runSlots_passes {ptr n : Nat} {d : Option Document} {p : Peer} (h : Settled s)
    (hp : ∀ q, s.deref ptr = .ok q → q = p)
    (hr : runSlots (onPeerMessage · ptr d) n s = .ok s') :
    ∃ out, Passes s s' (List.replicate n (relayed p d).toList).flatten out ∧
      ∀ x ∈ out, relayed p d = some x.2 ∧ Reached s x.2 x.1 := by
  induction n generalizing s with
  | zero =>
    cases hr
    exact ⟨[], .refl _, fun x hx => absurd hx List.not_mem_nil⟩
  | succ n ih =>
    obtain ⟨s₁, h₁, hr⟩ := bind_eq_ok.mp hr
    obtain ⟨hsettled, hl, out, hpass, hout⟩ := onPeerMessage_passes h hp h₁
    obtain ⟨q, hq, -⟩ := bind_eq_ok.mp h₁
    obtain ⟨out', hpass', hout'⟩ := ih hsettled
      (fun q' hq' => (deref_lost h.sound.peers hl hq hq').trans (hp q hq)) hr
    rw [List.replicate_succ, List.flatten_cons]
    refine ⟨out ++ out', hpass.trans hpass', fun x hx => ?_⟩
    rcases List.mem_append.mp hx with hx | hx
    · exact hout x hx
    · obtain ⟨hrelayed, q', hq', hws⟩ := hout' x hx
      exact ⟨hrelayed, q', h.wired.getPeer_lost hl hq', hws⟩

/-- The message of a text is handed in once for each slot. -/
def heardFrom : Option (Peer × PeerMessage) → List PeerMessage
  | some (p, pm) => List.replicate p.messageSlots pm
  | none => []

/-- What an event hands in: what a text says, or the notices of the messages that expire. -/
def handsIn (s : PeerServer) : Event → List PeerMessage
  | .message i d => heardFrom (s.spoken (.message i d))
  | .cleanup => (s.pendingAfter none).map fun x => notice x.2
  | _ => []

theorem message_passes {i : Nat} {d : Option Document} (h : Settled s)
    (hm : s.message i d = .ok s') : ∃ out, Passes s s' (s.handsIn (.message i d)) out ∧
      ∀ x ∈ out, (∃ p, s.spoken (.message i d) = some (p, x.2)) ∧ Reached s x.2 x.1 := by
  have hok := message_ok hm
  have hin : s.handsIn (.message i d) = heardFrom (s.spoken (.message i d)) := rfl
  cases hspeaker : s.speaker i with
  | none =>
    have hspoken : s.spoken (.message i d) = none := by simp [spoken, hspeaker]
    simp only [hspeaker] at hok
    rw [hin, hspoken, hok]
    exact ⟨[], .refl s, fun x hx => absurd hx List.not_mem_nil⟩
  | some ptr =>
    simp only [hspeaker] at hok
    obtain ⟨p, hp, hr⟩ := hok
    have hspoken : s.spoken (.message i d) = (relayed p d).map (p, ·) := by
      simp [spoken, hspeaker, hp]
    have honly : ∀ q, s.deref ptr = .ok q → q = p := fun q hq => Except.ok.inj (hq.symm.trans hp)
    obtain ⟨out, hpass, hout⟩ := runSlots_passes h honly hr
    rw [hin, hspoken]
    have hsaid : (List.replicate p.messageSlots (relayed p d).toList).flatten =
        heardFrom ((relayed p d).map (p, ·)) := by
      cases relayed p d <;> simp [heardFrom]
    rw [hsaid] at hpass
    refine ⟨out, hpass, fun x hx => ?_⟩
    obtain ⟨hpm, hreached⟩ := hout x hx
    exact ⟨⟨p, by rw [hpm]; rfl⟩, hreached⟩

/-! ### Closes -/

theorem closed_passes {i : Nat} (h : s.closed i = .ok s') :
    arrivals s s' = [] ∧ (∀ b, s'.mailbox b = s.mailbox b) ∧ ∀ j, IsOpen s' j → IsOpen s j := by
  obtain ⟨hsame, hqueues⟩ := closed_keeps (i := i) (I := fun t =>
    (∀ j, j ≠ i → t.sessions j = s.sessions j) ∧ t.outstandings_ = s.outstandings_)
    (fun _ _ ht => ht) (fun t w ht => ⟨fun j hj => by
      rw [← ht.1 j hj]
      simp [setSession, hj], ht.2⟩) ⟨fun _ _ => rfl, rfl⟩ h
  obtain ⟨t, -, hgone⟩ := closed_loses h
  have hshuts : ∀ j, IsOpen s' j → IsOpen s j := by
    rintro j ⟨w, hw, ho⟩
    by_cases hj : j = i
    · rw [hj, hgone, setSession_sessions] at hw
      cases hw
    · exact ⟨w, hsame j hj ▸ hw, ho⟩
  refine ⟨List.flatMap_eq_nil_iff.mpr fun j _ => ?_, mailbox_congr hqueues, hshuts⟩
  have hkept : s'.heardOn j = [] ∨ s'.heardOn j = s.heardOn j := by
    by_cases hj : j = i
    · rw [hj, hgone, heardOn_setSession, if_pos rfl]
      exact .inl rfl
    · exact .inr (by rw [heardOn, heardOn, hsame j hj])
  rcases hkept with hj | hj
  · rw [hj, List.drop_nil, List.map_nil]
  · rw [hj, List.drop_length, List.map_nil]

/-! ### The cleanup -/

theorem release_mailbox (ht : Tidy t) (dst b : Bytes) :
    ((t.release dst).mailbox b).Sublist (t.mailbox b) := by
  unfold mailbox waiting
  cases hq : (t.release dst).getPeerMessages b with
  | none => exact List.nil_sublist _
  | some q =>
    obtain ⟨e, he, rfl⟩ := Option.map_eq_some_iff.mp hq
    obtain ⟨hmem, hkey⟩ := StdMap.scan_some he
    rcases mem_release hmem with ⟨hold, -⟩ | rfl
    · have hsame : t.getPeerMessages b = some e.2 := by
        cases hscan : t.getPeerMessages b with
        | none =>
          rw [getPeerMessages_none.mp hscan e hold] at hkey
          cases hkey
        | some q =>
          obtain ⟨f, hf, rfl⟩ := Option.map_eq_some_iff.mp hscan
          obtain ⟨hf, hfkey⟩ := StdMap.scan_some hf
          rw [ht.apart f hf e hold (iequals_trans hfkey hkey)]
      rw [hsame]
    · exact List.nil_sublist _

/-- The notices of a queue are handed in. -/
theorem fold_passes {l : List PeerMessage} (h : Midway s t) (hl : ∀ pm ∈ l, isStored pm = true)
    (hf : l.foldlM (fun s pm => s.handleTransmission (notice pm)) t = .ok t') :
    ∃ out, Passes t t' (l.map notice) out ∧ ∀ x ∈ out, x.2 ∈ l.map notice ∧ Reached s x.2 x.1 := by
  induction l generalizing t with
  | nil =>
    cases hf
    exact ⟨[], .refl _, fun x hx => absurd hx List.not_mem_nil⟩
  | cons pm l ih =>
    obtain ⟨hpm, hl⟩ := List.forall_mem_cons.mp hl
    rw [List.foldlM_cons] at hf
    obtain ⟨t₁, h₁, hf⟩ := bind_eq_ok.mp hf
    obtain ⟨out, hpass, hout⟩ := handleTransmission_passes h.peers h.tidy h₁
    obtain ⟨out', hpass', hout'⟩ := ih (h.handle hpm h₁) hl hf
    refine ⟨out ++ out', hpass.trans hpass', fun x hx => ?_⟩
    rw [List.map_cons]
    rcases List.mem_append.mp hx with hx | hx
    · obtain ⟨hx, p, hp, hws⟩ := hout x hx
      rw [getPeer, h.retains.peers] at hp
      exact ⟨hx ▸ List.mem_cons_self, p, by rw [hx]; exact hx ▸ hp, hws⟩
    · obtain ⟨hx, hreached⟩ := hout' x hx
      exact ⟨List.mem_cons_of_mem _ hx, hreached⟩

/-- A pass hands in the notices of the messages it visits. -/
theorem passFrom_passes {depth : Nat} {last : Option Bytes}
    {visited : List (Bytes × List PeerMessage)} (h : Midway s t)
    (hp : t.passFrom depth last = .ok (visited, t')) :
    ∃ out, Passes t t' ((visited.flatMap (·.2)).map notice) out ∧
      ∀ x ∈ out, x.2 ∈ (visited.flatMap (·.2)).map notice ∧ Reached s x.2 x.1 := by
  induction depth generalizing t last visited with
  | zero => cases hp
  | succ depth ih =>
    unfold passFrom at hp
    split at hp
    · cases hp
      exact ⟨[], .refl _, fun x hx => absurd hx List.not_mem_nil⟩
    · cases hp
    · rename_i dst pending hfind
      obtain ⟨t₁, h₁, hp⟩ := bind_eq_ok.mp hp
      obtain ⟨⟨rest, t₂⟩, h₂, hp⟩ := bind_eq_ok.mp hp
      cases hp
      have hmem : (dst, some pending) ∈ t.outstandings_.entries := List.mem_of_find?_eq_some hfind
      have hstored := h.tidy.stored _ hmem pending rfl
      have hm := h.release dst
      have hidle : Passes t (t.release dst) [] [] :=
        .idle (.of_sessions rfl) (release_mailbox h.tidy dst)
      obtain ⟨out, hpass, hout⟩ := fold_passes hm hstored h₁
      obtain ⟨out', hpass', hout'⟩ := ih (hm.fold hstored h₁).1 h₂
      rw [List.flatMap_cons, List.map_append]
      refine ⟨out ++ out', (hidle.trans hpass).trans hpass', fun x hx => ?_⟩
      rcases List.mem_append.mp hx with hx | hx
      · exact ⟨List.mem_append_left _ (hout x hx).1, (hout x hx).2⟩
      · exact ⟨List.mem_append_right _ (hout' x hx).1, (hout' x hx).2⟩

/-- A notice that waits behind the queue being visited: its own notice comes back to that. -/
theorem doomed_behind {k : Bytes} {pm : PeerMessage} {f : Bytes × Queue}
    {messages : List PeerMessage} (hpm : isStored pm = true) (hunknown : t.getPeer pm.dst = none)
    (hreleased : t.getPeerMessages pm.dst = some none)
    (hf : t.outstandings_.scan (iequals pm.src) = some f) (hv : f.2 = some messages)
    (hlt : k < f.1) (ha : t.addPeerMessages pm.src (notice pm) = .ok t') : Doomed t' (some k) := by
  have hdead : Dead t' (notice pm) := by
    refine ⟨?_, addPeerMessages_released hreleased ha⟩
    obtain ⟨o, rfl⟩ := addPeerMessages_frame ha
    simp only [orphan, notice, Bool.and_eq_true, Option.isNone_iff_eq_none, Bool.not_eq_true']
    exact ⟨hunknown, (isStored_type hpm).2.2⟩
  exact ⟨_, (addPeerMessages_appends hf hv ha).1, by simpa using hlt, _, rfl, notice pm,
    List.mem_append_right _ List.mem_cons_self, hdead⟩

/-- A message in a queue that is not visited any more changes nothing for the pass. -/
theorem addPeerMessages_pending {k id : Bytes} {pm : PeerMessage} {f : Bytes × Queue}
    {messages : List PeerMessage} (hf : t.outstandings_.scan (iequals id) = some f)
    (hv : f.2 = some messages) (hlt : ¬ k < f.1) (ha : t.addPeerMessages id pm = .ok t') :
    t'.pendingAfter (some k) = t.pendingAfter (some k) := by
  have hq : t.getPeerMessages id = some (some messages) := by
    rw [getPeerMessages, hf, Option.map_some, hv]
  obtain ⟨before, after, h₁, h₂⟩ := StdMap.modifyFirst_split
    (fun _ => (some (messages ++ [pm]) : Queue)) hf
  unfold addPeerMessages at ha
  rw [hq] at ha
  cases ha
  unfold pendingAfter
  simp only [h₁, h₂, List.flatMap_append, List.flatMap_cons]
  simp [hlt]

/-- Of a pass that comes to its end, the notices of one queue leave the messages of the others. -/
theorem fold_pending {k : Bytes} {l : List PeerMessage} (h : Midway s t)
    (hl : ∀ pm ∈ l, isStored pm = true)
    (hk : ∀ pm ∈ l, t.getPeer pm.dst = none ∧ t.getPeerMessages pm.dst = some none)
    (hf : l.foldlM (fun s pm => s.handleTransmission (notice pm)) t = .ok t')
    (hdoom : ¬ Doomed t' (some k)) : t'.pendingAfter (some k) = t.pendingAfter (some k) := by
  induction l generalizing t with
  | nil =>
    cases hf
    rfl
  | cons pm l ih =>
    obtain ⟨hpm, hl'⟩ := List.forall_mem_cons.mp hl
    obtain ⟨⟨hunknown, hreleased⟩, hk'⟩ := List.forall_mem_cons.mp hk
    rw [List.foldlM_cons] at hf
    obtain ⟨t₁, h₁, hf⟩ := bind_eq_ok.mp hf
    have hm₁ := h.handle hpm h₁
    cases ho : t.orphan pm with
    | false =>
      obtain ⟨m, hserved⟩ := notice_served h.peers h.tidy.attended hpm ho
      cases hserved.symm.trans h₁
      exact ih (t := { t with sessions := m }) hm₁ hl' hk' hf
    | true =>
      rw [notice_orphan hpm ho] at h₁
      have hpeers : t₁.peers_ = t.peers_ := by
        obtain ⟨o, rfl⟩ := addPeerMessages_frame h₁
        rfl
      have hk₁ : ∀ pm' ∈ l, t₁.getPeer pm'.dst = none ∧ t₁.getPeerMessages pm'.dst = some none :=
        fun pm' hpm' => ⟨by rw [getPeer, hpeers]; exact (hk' pm' hpm').1,
          addPeerMessages_released (hk' pm' hpm').2 h₁⟩
      rw [ih hm₁ hl' hk₁ hf]
      cases hq : t.getPeerMessages pm.src with
      | none =>
        have hnew : t₁ = t.withQueue pm.src := by
          have hn := notice_new hpm ho hq
          rw [notice_orphan hpm ho] at hn
          exact Except.ok.inj (h₁.symm.trans hn)
        rw [hnew, withQueue_pending]
      | some q =>
        obtain ⟨f, hscan, hv⟩ := Option.map_eq_some_iff.mp hq
        cases q with
        | none =>
          unfold addPeerMessages at h₁
          rw [hq] at h₁
          cases h₁
        | some messages =>
          by_cases hlt : k < f.1
          · have hdoomed := doomed_behind hpm hunknown hreleased hscan hv hlt h₁
            exact absurd (hdoomed.fold hm₁ hl' hf) hdoom
          · exact addPeerMessages_pending hscan hv hlt h₁

/-- A pass that comes to its end has visited what was queued when it began. -/
theorem passFrom_pending {depth : Nat} {last : Option Bytes}
    {visited : List (Bytes × List PeerMessage)} (h : Midway s t)
    (hp : t.passFrom depth last = .ok (visited, t')) :
    visited.flatMap (·.2) = (t.pendingAfter last).map Prod.snd := by
  induction depth generalizing t last visited with
  | zero => cases hp
  | succ depth ih =>
    unfold passFrom at hp
    split at hp
    · rename_i hfind
      have hnil : t.pendingAfter last = [] := List.flatMap_eq_nil_iff.mpr fun e he => by
        rw [if_neg]
        exact List.find?_eq_none.mp hfind e he
      cases hp
      rw [hnil]
      rfl
    · cases hp
    · rename_i dst pending hfind
      obtain ⟨t₁, h₁, hp⟩ := bind_eq_ok.mp hp
      obtain ⟨⟨rest, t₂⟩, h₂, hp⟩ := bind_eq_ok.mp hp
      cases hp
      have hmem : (dst, some pending) ∈ t.outstandings_.entries := List.mem_of_find?_eq_some hfind
      have hstored := h.tidy.stored _ hmem pending rfl
      have hm := h.release dst
      have hm₁ := (hm.fold hstored h₁).1
      have hpending := fold_pending hm hstored (h.released hmem) h₁ fun hd => doomed_pass hm₁ hd h₂
      rw [List.flatMap_cons, ih hm₁ h₂, hpending, pendingAfter_first hfind, List.map_append,
        List.map_map]
      congr 1
      exact (List.map_id pending).symm

theorem handleCleanupIntervals_passes (h : Settled s) (hc : s.handleCleanupIntervals = .ok s') :
    ∃ out, Passes s s' (s.handsIn .cleanup) out ∧
      ∀ x ∈ out, x.2 ∈ s.handsIn .cleanup ∧ Reached s x.2 x.1 := by
  obtain ⟨t, ht, hc⟩ := bind_eq_ok.mp hc
  change s.cleanupFrom (s.queued + 1) none = .ok t at ht
  rw [cleanupFrom_eq] at ht
  cases hp : s.passFrom (s.queued + 1) none with
  | error f =>
    rw [hp] at ht
    cases ht
  | ok r =>
    obtain ⟨visited, t'⟩ := r
    rw [hp] at ht
    cases ht
    cases hc
    have hm := Midway.start h.sound h.tidy
    obtain ⟨out, hpass, hout⟩ := passFrom_passes hm hp
    have hin : (visited.flatMap (·.2)).map notice = s.handsIn .cleanup := by
      rw [passFrom_pending hm hp, List.map_map]
      rfl
    rw [hin] at hpass hout
    have hcleared : Passes t' { t' with outstandings_ := StdMap.empty } [] [] :=
      .idle (.of_sessions rfl) fun b => List.nil_sublist _
    refine ⟨out ++ [], ?_, fun x hx => hout x (by simpa using hx)⟩
    rw [← List.append_nil (s.handsIn .cleanup)]
    exact hpass.trans hcleared

/-! ### Connections -/

/-- Messages for a registered peer go to its session. -/
theorem fold_sends {id : Bytes} {p : Peer} {ws : Nat} {l : List PeerMessage}
    (hp : s.getPeer id = some p) (hs : p.session = some ws)
    (hl : ∀ pm ∈ l, iequals id pm.dst = true) (h : l.foldlM handleTransmission s = .ok s') :
    s'.outstandings_ = s.outstandings_ ∧ ∃ out, Sends s s' out ∧ (out.map Prod.snd).Sublist l ∧
      ∀ x ∈ out, x.1 = ws := by
  induction l generalizing s with
  | nil =>
    cases h
    exact ⟨rfl, [], .refl _, List.Sublist.refl _, fun x hx => absurd hx List.not_mem_nil⟩
  | cons pm l ih =>
    obtain ⟨hpm, hl⟩ := List.forall_mem_cons.mp hl
    rw [List.foldlM_cons] at h
    obtain ⟨s₁, h₁, h⟩ := bind_eq_ok.mp h
    have hdst : s.getPeer pm.dst = some p := by rw [← getPeer_congr hpm, hp]
    rw [handleTransmission_known hdst hs] at h₁
    have hsent := sendTo_sends h₁
    obtain ⟨m, rfl⟩ := sendTo_frame h₁
    obtain ⟨hqueues, out, hrest, hsub, hws⟩ := ih (s := { s with sessions := m }) hp hl h
    rcases hsent with hsent | hsent
    · exact ⟨hqueues, out, hsent.trans hrest, hsub.cons pm, hws⟩
    · exact ⟨hqueues, (ws, pm) :: out, hsent.trans hrest, hsub.cons_cons pm,
        List.forall_mem_cons.mpr ⟨rfl, hws⟩⟩

/-- The queue of a registered peer goes to its session. -/
theorem processOutstanding_passes {id : Bytes} {p : Peer} {ws : Nat} (hq : QueuesSound s)
    (ha : KeysApart s.outstandings_) (hp : s.getPeer id = some p) (hs : p.session = some ws)
    (h : s.processOutstanding id = .ok s') :
    ∃ out, Passes s s' [] out ∧ ∀ x ∈ out, x.1 = ws ∧ iequals id x.2.dst = true := by
  unfold processOutstanding at h
  cases hm : s.getPeerMessages id with
  | none =>
    simp only [hm] at h
    cases h
    exact ⟨[], .refl s, fun x hx => absurd hx List.not_mem_nil⟩
  | some q =>
    obtain ⟨l, rfl, hl⟩ := hq.getPeerMessages hm
    simp only [hm] at h
    obtain ⟨s₁, h₁, h⟩ := bind_eq_ok.mp h
    cases h
    obtain ⟨hqueues, out, hsent, hsub, hws⟩ := fold_sends hp hs hl h₁
    have hdst : ∀ x ∈ out, iequals id x.2.dst = true := fun x hx =>
      hl x.2 (hsub.subset (List.mem_map_of_mem hx))
    refine ⟨out, ⟨hsent.congr rfl rfl, fun b => ?_⟩, fun x hx => ⟨hws x hx, hdst x hx⟩⟩
    cases hb : iequals id b with
    | true =>
      have hbox : s.mailbox b = l := by
        rw [mailbox, ← waiting_congr hb, waiting, hm]
        rfl
      have hempty : (s₁.removePeerMessages id).mailbox b = [] := by
        unfold mailbox waiting getPeerMessages removePeerMessages
        rw [hqueues, ha.scan_erased hb]
        rfl
      rw [hbox, hempty, List.filter_nil]
      unfold InOrder
      rw [List.append_nil, List.append_nil, addressed_eq]
      exact List.filter_sublist.trans hsub
    | false =>
      have hnone : addressed b out = [] := List.filterMap_eq_nil_iff.mpr fun x hx => by
        rw [if_neg]
        intro hbx
        rw [iequals_congr (hdst x hx), iequals_comm, hbx] at hb
        cases hb
      have hbox : (s₁.removePeerMessages id).mailbox b = s.mailbox b := by
        unfold mailbox waiting getPeerMessages removePeerMessages
        rw [hqueues, StdMap.scan_eraseFirst_other]
        exact fun k hk => iequals_disjoint ((iequals_comm _ _).trans hb) k hk
      rw [hnone, hbox, List.filter_nil]
      exact .refl _

/-- Only sessions and peers have changed. -/
theorem Passes.of_outstandings (hs : Sends s s' []) (hq : s'.outstandings_ = s.outstandings_) :
    Passes s s' [] [] :=
  .idle hs fun b => mailbox_congr hq b ▸ List.Sublist.refl _

theorem sendError_passes {i : Nat} {errType errMsg : Bytes}
    (h : s.sendError i errType errMsg = .ok s') : Passes s s' [] [] := by
  have hsent := sendError_sends h
  obtain ⟨m, rfl⟩ := sendError_frame h
  exact .of_outstandings hsent rfl

theorem updatePeer_passes {ptr : Nat} {f : Peer → Peer} (h : s.updatePeer ptr f = .ok s') :
    Passes s s' [] [] := by
  rw [updatePeer_ok h]
  exact .of_outstandings (.of_sessions rfl) rfl

def Holds (s : PeerServer) (id token : Bytes) : Prop :=
  ∃ q, s.getPeer id = some q ∧ iequals q.token token = true

/-- What the connection of a peer is sent comes from its queue, and the token is the peer's. -/
def FromQueue (s s' : PeerServer) (ws : Nat) (id token : Bytes) : Prop :=
  ∃ out, Passes s s' [] out ∧
    ∀ x ∈ out, x.1 = ws ∧ iequals id x.2.dst = true ∧ Holds s' id token

theorem FromQueue.of_passes {ws : Nat} (h : Passes s s' [] []) (id token : Bytes) :
    FromQueue s s' ws id token :=
  ⟨[], h, fun _ hx => absurd hx List.not_mem_nil⟩

theorem FromQueue.after {u : PeerServer} {ws : Nat} {id token : Bytes} (h : Passes s t [] [])
    (h' : FromQueue t u ws id token) : FromQueue s u ws id token := by
  obtain ⟨out, hpass, hout⟩ := h'
  exact ⟨out, h.trans hpass, hout⟩

theorem configureWs_queue {id token : Bytes} {p : Peer} {ws : Nat} (hq : QueuesSound s)
    (ha : KeysApart s.outstandings_) (hp : s.getPeer id = some p) (hs : p.session = some ws)
    (h : s.configureWs ws id token = .ok s') : FromQueue s s' ws id token := by
  unfold configureWs at h
  simp only [hp] at h
  split at h
  · exact .of_passes (sendError_passes h) id token
  · rename_i htoken
    obtain ⟨s₁, h₁, h⟩ := bind_eq_ok.mp h
    obtain ⟨out, hpass, hout⟩ := processOutstanding_passes hq ha hp hs h₁
    obtain ⟨⟨m, hframe⟩, -⟩ := processOutstanding_frame hq hp hs h₁
    have hheld : Holds s' id token := by
      have hp₁ : s₁.getPeer id = some p := hframe ▸ hp
      rw [updatePeer_ok h]
      refine ⟨_, (getPeer_withPeer _ _ _).trans (congrArg _ hp₁), ?_⟩
      dsimp only
      rw [if_pos rfl]
      exact not_not.mp htoken
    refine ⟨out ++ [], hpass.trans (updatePeer_passes h), fun x hx => ?_⟩
    obtain ⟨hws, hdst⟩ := hout x (by simpa using hx)
    exact ⟨hws, hdst, hheld⟩

theorem resetSession_passes {p : Peer} {ws : Nat} (h : s.resetSession p ws = .ok s') :
    Passes s s' [] [] := by
  have hset {t : PeerServer} (h : (t.updatePeer p.ptr fun p => { p with session := some ws }) >>=
      (·.initSession p.ptr ws) = .ok s') : Passes t s' [] [] := by
    obtain ⟨t₁, h₁, h⟩ := bind_eq_ok.mp h
    have hsent := initSession_sends h
    obtain ⟨m, rfl⟩ := initSession_frame h
    exact (updatePeer_passes h₁).trans (.of_outstandings hsent rfl)
  unfold resetSession at h
  cases hp : p.session with
  | none =>
    simp only [hp] at h
    exact hset h
  | some old =>
    simp only [hp] at h
    obtain ⟨s₁, h₁, h⟩ := bind_eq_ok.mp h
    have hsent := close_sends h₁
    obtain ⟨m, rfl⟩ := close_frame h₁
    exact Passes.trans (.of_outstandings hsent rfl) (hset h)

/-- A connection gets what waits for its peer, and nothing else. -/
theorem connectPeer_queue {key id token : Bytes} {ws : Nat} (hq : QueuesSound s)
    (ha : KeysApart s.outstandings_) (hc : s.connectPeer ws key id token = .ok s') :
    FromQueue s s' ws id token := by
  unfold connectPeer at hc
  split at hc
  · exact .of_passes (sendError_passes hc) id token
  · cases hp : s.getPeer id with
    | none =>
      simp only [hp] at hc
      split at hc
      · obtain ⟨s₁, h₁, hc⟩ := bind_eq_ok.mp hc
        have hsent₁ := initSession_sends h₁
        obtain ⟨m, rfl⟩ := initSession_frame h₁
        obtain ⟨s₂, h₂, hc⟩ := bind_eq_ok.mp hc
        have hsent₂ : Sends _ s₂ [] := (sendTo_sends h₂).elim (fun h => h) fun h => h
        obtain ⟨m', rfl⟩ := sendTo_frame h₂
        obtain ⟨hadd, hget⟩ := getPeer_addPeer (s := { s with
          nextPeer := s.nextPeer + 1, sessions := m }) ⟨s.nextPeer, id, token, some ws, 0, 0⟩ hp
        rw [hadd] at hc hget hsent₂
        refine FromQueue.after ?_ (configureWs_queue (p := ⟨s.nextPeer, id, token, some ws, 0, 0⟩)
          ?_ ?_ ?_ rfl hc)
        · exact .of_outstandings ((hsent₁.trans (hsent₂.congr rfl rfl)).congr rfl rfl) rfl
        · exact hq
        · exact ha
        · exact hget
      · exact .of_passes (sendError_passes hc) id token
    | some p =>
      simp only [hp] at hc
      obtain ⟨s₁, h₁, hc⟩ := bind_eq_ok.mp hc
      have hpass := resetSession_passes h₁
      obtain ⟨⟨m, rfl⟩, -⟩ := resetSession_frame h₁
      have hget : PeerServer.getPeer { s.withPeer p.ptr fun p => { p with session := some ws } with
          sessions := m } id = some { p with session := some ws } := by
        refine (getPeer_withPeer p.ptr _ id).trans ?_
        rw [hp]
        simp
      exact .after hpass (configureWs_queue (s := { s.withPeer p.ptr fun p => { p with
        session := some ws } with sessions := m }) hq ha hget rfl hc)

def queried (url : Option Url) (key : Bytes) : Bytes :=
  UrlParser.getValue (UrlParser.parseQuery ((url.map (·.query)).getD [])) key

theorem connect_queue {url : Option Url} (h : Settled s) (hc : s.connect url = .ok s') :
    FromQueue s.opened s' s.nextSession (queried url (str "id")) (queried url (str "token")) := by
  rcases connect_ok hc with rfl | ⟨u, rfl, -, hc⟩
  · exact .of_passes (.refl _) _ _
  · exact connectPeer_queue h.sound.opened.queues (.of_eq h.tidy.apart) hc

/-- Nothing has been sent on a session that is new. -/
theorem Settled.arrivals_opened (h : Settled s) : arrivals s s' = arrivals s.opened s' := by
  unfold arrivals
  refine List.flatMap_congr fun j _ => ?_
  have hsame : s.opened.heardOn j = s.heardOn j := by
    refine (heardOn_setSession s.nextSession j _).trans ?_
    split
    · rename_i hj
      have hnone : s.sessions j = none :=
        Option.map_eq_none_iff.mp (h.wired.unused j (Nat.le_of_eq hj.symm))
      rw [heardOn, hnone]
      rfl
    · rfl
  rw [hsame]

/-! ### Runs -/

theorem Settled.step {e : Event} (h : Settled s) (hstep : s.step e = .ok s') : Settled s' where
  sound := step_sound h.sound hstep
  wired := step_wired h.sound h.wired hstep
  tidy := step_tidy h.sound h.wired h.tidy hstep

theorem settled_start : Settled start := ⟨start_sound, start_wired, start_tidy⟩

/-- Messages that reach registered peers reach each on one session. -/
theorem reached_place (hs : PeersSound s) (hn : s'.nextSession = s.nextSession)
    (hout : ∀ x ∈ out, Reached s x.2 x.1) (b : Bytes) :
    ∃ i, ∀ x ∈ out, iequals b x.2.dst = true → x.1 = i ∧ i < s'.nextSession := by
  cases hp : s.getPeer b with
  | none =>
    refine ⟨0, fun x hx hb => ?_⟩
    obtain ⟨q, hq, -⟩ := hout x hx
    rw [← getPeer_congr hb, hp] at hq
    cases hq
  | some p =>
    obtain ⟨k, hk, -⟩ := getPeer_some hp
    obtain ⟨ws, hlt, hws⟩ := hs.session _ hk
    refine ⟨ws, fun x hx hb => ⟨?_, hn ▸ hlt⟩⟩
    obtain ⟨q, hq, hqs⟩ := hout x hx
    rw [← getPeer_congr hb, hp] at hq
    cases hq
    exact Option.some.inj (hqs.symm.trans hws)

/-- Every event passes on in order what it hands in. -/
theorem step_inOrder {e : Event} (h : Settled s) (hstep : s.step e = .ok s') (b : Bytes) :
    InOrder (s.mailbox b) ((s.handsIn e).filter (iequals b ·.dst)) (addressed b (arrivals s s'))
      (s'.mailbox b) := by
  cases e with
  | connect url =>
    obtain ⟨out, hpass, hout⟩ := connect_queue h hstep
    obtain ⟨hnext, -, -⟩ := connect_connected h.sound hstep
    rw [h.arrivals_opened, arrivals_addressed hpass.sends ⟨s.nextSession, fun x hx _ => ⟨(hout x hx).1, by omega⟩⟩]
    exact hpass.mail b
  | message i d =>
    obtain ⟨out, hpass, hout⟩ := message_passes h hstep
    rw [arrivals_addressed hpass.sends (reached_place h.sound.peers
      (message_loses h.sound hstep).nextSession (fun x hx => (hout x hx).2) b)]
    exact hpass.mail b
  | closed i =>
    obtain ⟨hnone, hbox, -⟩ := closed_passes hstep
    rw [hnone, hbox]
    exact .refl _
  | cleanup =>
    obtain ⟨out, hpass, hout⟩ := handleCleanupIntervals_passes h hstep
    rw [arrivals_addressed hpass.sends (reached_place h.sound.peers
      (handleCleanupIntervals_loses h.sound hstep).nextSession (fun x hx => (hout x hx).2) b)]
    exact hpass.mail b

def delivered (es : List Event) : List (Nat × PeerMessage) :=
  along step (fun s _ s' => arrivals s s') start es

def handedIn (es : List Event) : List PeerMessage :=
  along step (fun s e _ => s.handsIn e) start es

theorem run_inOrder {es : List Event} (hrun : start.run es = .ok s) (b : Bytes) :
    InOrder [] ((handedIn es).filter (iequals b ·.dst)) (addressed b (delivered es))
      (s.mailbox b) := by
  have hmail := along_inOrder (I := Settled) (fun s => s.mailbox b)
    (fun s e _ => (s.handsIn e).filter (iequals b ·.dst))
    (fun s _ s' => addressed b (arrivals s s'))
    (fun _ _ _ h hstep => ⟨h.step hstep, step_inOrder h hstep b⟩) settled_start hrun
  unfold delivered handedIn addressed
  rw [along_filterMap, along_filter]
  exact hmail

/-- What a peer gets in a run, over all its connections, and then what waits for it, was handed in
for it in that order. A text is handed in once for each connected slot of the one who speaks it,
and each of these may come. -/
theorem mail_in_order {es : List Event} (hrun : start.run es = .ok s) (b : Bytes) :
    (addressed b (delivered es) ++ s.mailbox b).Sublist
      ((handedIn es).filter fun pm => iequals b pm.dst) :=
  run_inOrder hrun b

/-- `b` connects after two of the three offers of `c` have come to wait for it. -/
theorem mail_in_order_offers : ∃ s pm, start.run (offersOfC ++
      [.connect (some (peerUrl (str "B") (str "u")))]) = .ok s ∧
    delivered (offersOfC ++ [.connect (some (peerUrl (str "B") (str "u")))]) = [(1, pm), (1, pm)] ∧
    (addressed (str "b") (delivered (offersOfC ++ [.connect (some (peerUrl (str "B") (str "u")))])) ++
      s.mailbox (str "b")).Sublist
      ((handedIn (offersOfC ++ [.connect (some (peerUrl (str "B") (str "u")))])).filter
        fun pm => iequals (str "b") pm.dst) := by
  obtain ⟨s, pm, hrun, hsent⟩ : ∃ s pm, start.run (offersOfC ++
      [.connect (some (peerUrl (str "B") (str "u")))]) = .ok s ∧
    delivered (offersOfC ++ [.connect (some (peerUrl (str "B") (str "u")))]) =
      [(1, pm), (1, pm)] := ⟨_, _, rfl, rfl⟩
  exact ⟨s, pm, hrun, hsent, mail_in_order hrun (str "b")⟩

end Flingd.Peers.PeerServer
