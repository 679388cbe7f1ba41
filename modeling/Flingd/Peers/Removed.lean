import Flingd.Peers.Bindings

/-! Events on sessions of peers that have been removed. A peer is removed by a message of its own,
or with one of its sessions, and the others stay bound to it. -/
namespace Flingd.Peers.PeerServer
open Http Outcome
variable {s s' : PeerServer}

/-- Every session that is there is bound to a registered peer, if it is bound. -/
def Live (s : PeerServer) : Prop :=
  ∀ i ptr, s.bindings i = some (some ptr) → ∃ e ∈ s.peers_.entries, e.2.ptr = ptr

def isFarewell : Option Document → Bool
  | some ⟨.string type, .string dst, payload, _⟩ =>
    iequals type (str "LEAVE") && iequals dst (str "") && payload ≠ .null
  | _ => false

/-- No peer is removed while another session is bound to it. -/
def Careful (s : PeerServer) : Event → Prop
  | .message i d => s.speaker i = none ∨ isFarewell d = false
  | .closed i => ∀ ptr, s.bindings i = some (some ptr) → ∀ j < s.nextSession, j ≠ i →
      s.bindings j ≠ some (some ptr)
  | _ => True

structure Kept (s : PeerServer) : Prop where
  live : Live s
  /-- The session of a peer is there, and bound to it. -/
  held : ∀ e ∈ s.peers_.entries, ∀ i, e.2.session = some i → s.bindings i = some (some e.2.ptr)
  /-- A peer that has connected more than once is bound to two sessions. -/
  twice : ∀ e ∈ s.peers_.entries, 2 ≤ e.2.closeSlots → ∃ i j, i ≠ j ∧
    s.bindings i = some (some e.2.ptr) ∧ s.bindings j = some (some e.2.ptr)

theorem start_kept : Kept start where
  live _ _ h := by cases h
  held _ he := absurd he List.not_mem_nil
  twice _ he := absurd he List.not_mem_nil

/-! ### Messages -/

/-- Nothing is lost but queues. -/
structure Retains (s s' : PeerServer) : Prop where
  peers : s'.peers_ = s.peers_
  bindings : s'.bindings = s.bindings

theorem Kept.retains (h : Kept s) (hr : Retains s s') : Kept s' where
  live := by
    unfold Live
    rw [hr.bindings, hr.peers]
    exact h.live
  held := by
    rw [hr.bindings, hr.peers]
    exact h.held
  twice := by
    rw [hr.bindings, hr.peers]
    exact h.twice

/-- Only a LEAVE for no one removes a peer. -/
theorem handleTransmission_retains {pm : PeerMessage} (hs : PeersSound s)
    (hpm : (iequals pm.type (str "LEAVE") && iequals pm.dst (str "")) = false)
    (h : s.handleTransmission pm = .ok s') : Retains s s' := by
  refine ⟨?_, handleTransmission_bindings hs h⟩
  cases hp : s.getPeer pm.dst with
  | some p =>
    obtain ⟨k, hk, -⟩ := getPeer_some hp
    obtain ⟨ws, -, hws : p.session = some ws⟩ := hs.session _ hk
    rw [handleTransmission_known hp hws] at h
    obtain ⟨m, rfl⟩ := sendTo_frame h
    rfl
  | none =>
    unfold PeerServer.handleTransmission transmit at h
    simp only [hp] at h
    split_ifs at h with hstored hleave
    · obtain ⟨o, rfl⟩ := addPeerMessages_frame h
      rfl
    · rw [hleave.1, hleave.2] at hpm
      cases hpm
    · cases h
      rfl

/-- No message that waits is a LEAVE. -/
def NoLeaves (s : PeerServer) : Prop :=
  ∀ e ∈ s.outstandings_.entries, ∀ l, e.2 = some l → ∀ pm ∈ l, iequals pm.type (str "LEAVE") = false

theorem NoLeaves.lost (h : NoLeaves s)
    (hl : ∀ e ∈ s'.outstandings_.entries, e ∈ s.outstandings_.entries) : NoLeaves s' :=
  fun e he => h e (hl e he)

theorem NoLeaves.addPeerMessages {id : Bytes} {pm : PeerMessage} (h : NoLeaves s)
    (hpm : iequals pm.type (str "LEAVE") = false) (ha : s.addPeerMessages id pm = .ok s') :
    NoLeaves s' := by
  unfold PeerServer.addPeerMessages at ha
  split at ha
  · cases ha
    intro e he l hl
    rcases StdMap.mem_insert he with rfl | he
    · cases hl
      exact fun pm hpm => absurd hpm List.not_mem_nil
    · exact h e he l hl
  · cases ha
  · rename_i messages hq
    cases ha
    intro e he l hl
    rcases StdMap.mem_modifyFirst he with he | ⟨e', he', hscan, rfl⟩
    · exact h e he l hl
    · cases hl
      have hold : e'.2 = some messages := by
        unfold getPeerMessages at hq
        rw [hscan] at hq
        exact Option.some.inj hq
      intro pm' hpm'
      rcases List.mem_append.mp hpm' with hpm' | hpm'
      · exact h e' he' messages hold pm' hpm'
      · rwa [List.mem_singleton.mp hpm']

theorem NoLeaves.handleTransmission {pm : PeerMessage} (h : NoLeaves s) (hs : PeersSound s)
    (ht : s.handleTransmission pm = .ok s') : NoLeaves s' := by
  rcases handleTransmission_cases hs ht with ⟨-, m, rfl⟩ | ⟨-, hstored, ha⟩ | ⟨-, -, rfl | rfl⟩
  · exact h
  · simp only [isStored, Bool.and_eq_true, Bool.not_eq_true'] at hstored
    exact h.addPeerMessages hstored.1.1 ha
  · exact h
  · exact h

theorem relayed_farewell {p : Peer} {d : Option Document} {pm : PeerMessage}
    (h : relayed p d = some pm) :
    (iequals pm.type (str "LEAVE") && iequals pm.dst (str "")) = isFarewell d := by
  unfold relayed at h
  split at h
  · split at h
    · rename_i hrelayed
      cases h
      simp [isFarewell, hrelayed.2]
    · cases h
  · cases h

theorem Kept.handleTransmission (h : Kept s) (hs : Sound s) (pm : PeerMessage) :
    ∃ s', s.handleTransmission pm = .ok s' := by
  cases hp : s.getPeer pm.dst with
  | none => exact handleTransmission_unknown hs.queues hp
  | some p =>
    obtain ⟨k, hk, -⟩ := getPeer_some hp
    obtain ⟨ws, -, hws⟩ := hs.peers.session _ hk
    obtain ⟨w, hw, -⟩ := Option.map_eq_some_iff.mp (h.held _ hk ws hws)
    rw [handleTransmission_known hp hws]
    exact ⟨_, updateSession_ok.mpr ⟨w, hw, rfl⟩⟩

/-- What holds between two events of a careful run, with all that its proof needs. -/
structure Steady (s : PeerServer) : Prop where
  sound : Sound s
  wired : Wired s
  kept : Kept s
  noLeaves : NoLeaves s

theorem onPeerMessage_careful {e : Bytes × Peer} {d : Option Document} (h : Steady s)
    (he : e ∈ s.peers_.entries) (hd : isFarewell d = false) :
    Outcome.Ends (s.onPeerMessage e.2.ptr d) (· = .misused) fun t => Steady t ∧ e ∈ t.peers_.entries := by
  have hp := deref_entry h.sound.peers he
  cases hpm : relayed e.2 d with
  | none =>
    rcases onPeerMessage_ignores hp hpm with hsame | hmisused
    · rw [hsame]
      exact ⟨h, he⟩
    · rw [hmisused]
      exact Ends.error rfl
  | some pm =>
    obtain ⟨t, ht⟩ := h.kept.handleTransmission h.sound pm
    have hr := handleTransmission_retains h.sound.peers ((relayed_farewell hpm).trans hd) ht
    rw [onPeerMessage_relays hp hpm, ht]
    refine ⟨⟨h.sound.handleTransmission ht, ?_, h.kept.retains hr,
      h.noLeaves.handleTransmission h.sound.peers ht⟩, hr.peers ▸ he⟩
    exact h.wired.loses (handleTransmission_loses h.sound.peers ht)

/-- A message that is delivered with care runs on a registered peer. -/
theorem message_careful {i : Nat} {d : Option Document} (h : Steady s)
    (hc : Careful s (.message i d)) : Outcome.Ends (s.message i d) (· = .misused) Steady := by
  unfold message
  cases hw : s.sessions i with
  | none => exact h
  | some w =>
    obtain ⟨isOpen, bound, sent⟩ := w
    cases isOpen with
    | false => exact h
    | true =>
      cases bound with
      | none => exact h
      | some ptr =>
        have hspeaker : s.speaker i = some ptr := by
          unfold speaker
          rw [hw]
        have hd : isFarewell d = false := hc.resolve_left (by simp [hspeaker])
        have hb : s.bindings i = some (some ptr) := by
          rw [bindings, hw]
          rfl
        obtain ⟨e, he, rfl⟩ := h.kept.live i ptr hb
        dsimp only
        rw [deref_entry h.sound.peers he, ok_bind]
        refine Ends.mono (Ends.runSlots (I := fun t => Steady t ∧ e ∈ t.peers_.entries)
          (fun t ht => onPeerMessage_careful ht.1 ht.2 hd) ⟨h, he⟩) (fun _ hf => hf) fun t ht => ht.1

/-! ### Closes -/

/-- A session closes that no peer is left of. -/
theorem Kept.drop {i : Nat} (h : Kept s) (hb : s'.bindings = Function.update s.bindings i none)
    (hsub : ∀ e ∈ s'.peers_.entries, e ∈ s.peers_.entries ∧ s.bindings i ≠ some (some e.2.ptr))
    (hlive : ∀ j ≠ i, ∀ ptr, s.bindings j = some (some ptr) →
      ∃ e ∈ s'.peers_.entries, e.2.ptr = ptr) : Kept s' := by
  have hother {e : Bytes × Peer} (he : e ∈ s'.peers_.entries) {j : Nat}
      (hj : s.bindings j = some (some e.2.ptr)) : s'.bindings j = some (some e.2.ptr) := by
    have hne : j ≠ i := fun heq => (hsub e he).2 (heq ▸ hj)
    rw [hb, Function.update_of_ne hne, hj]
  refine ⟨fun j ptr hj => ?_, fun e he j hj => ?_, fun e he hslots => ?_⟩
  · rw [hb] at hj
    by_cases hji : j = i
    · rw [hji, Function.update_self] at hj
      cases hj
    · rw [Function.update_of_ne hji] at hj
      exact hlive j hji ptr hj
  · exact hother he (h.held e (hsub e he).1 j hj)
  · obtain ⟨j, k, hne, hj, hk⟩ := h.twice e (hsub e he).1 hslots
    exact ⟨j, k, hne, hother he hj, hother he hk⟩

theorem Steady.bound_lt {i ptr : Nat} (h : Steady s) (hb : s.bindings i = some (some ptr)) :
    i < s.nextSession := by
  by_contra hlt
  rw [h.wired.unused i (Nat.le_of_not_lt hlt)] at hb
  cases hb

theorem closed_outstandings {i : Nat} (h : s.closed i = .ok s') :
    ∀ e ∈ s'.outstandings_.entries, e ∈ s.outstandings_.entries :=
  closed_keeps (I := fun t => ∀ e ∈ t.outstandings_.entries, e ∈ s.outstandings_.entries)
    (fun _ _ ht => ht) (fun _ _ ht => ht) (fun _ he => he) h

/-- A close with care removes a peer that no other session is bound to, and comes to its end. -/
theorem closed_careful {i : Nat} (h : Steady s) (hc : Careful s (.closed i)) :
    ∃ s', s.closed i = .ok s' ∧ Kept s' := by
  have hbindings (t : PeerServer) (ht : t.bindings = s.bindings) :
      (t.setSession i none).bindings = Function.update s.bindings i none := by
    rw [bindings_setSession, ht]
    rfl
  cases hb : s.bindings i with
  | none =>
    refine ⟨s, ?_, h.kept⟩
    unfold closed
    simp only [Option.map_eq_none_iff.mp hb]
  | some bound =>
    cases bound with
    | none =>
      refine ⟨_, closed_unbound hb, h.kept.drop (hbindings s rfl) (fun e he => ⟨he, ?_⟩) fun j _ => h.kept.live j⟩
      simp [hb]
    | some ptr =>
      obtain ⟨e, he, rfl⟩ := h.kept.live i ptr hb
      have honly {j : Nat} (hj : s.bindings j = some (some e.2.ptr)) : j = i := by
        by_contra hne
        exact hc _ hb j (h.bound_lt hj) hne hj
      have hslots : e.2.closeSlots = 1 := by
        have hone := h.wired.closes e he
        by_contra hne
        obtain ⟨j, k, hjk, hj, hk⟩ := h.kept.twice e he (by omega)
        exact hjk ((honly hj).trans (honly hk).symm)
      have hclosed := closed_bound h.sound.peers h.wired he hb
      rw [if_pos hslots] at hclosed
      refine ⟨_, hclosed, h.kept.drop (hbindings (s.removePeer e.2.id) rfl) (fun e' he' => ?_)
        fun j hji ptr hj => ?_⟩
      · obtain ⟨hmem, hne⟩ := (h.wired.mem_removePeer he).mp he'
        refine ⟨hmem, fun hbound => hne ?_⟩
        rw [hb] at hbound
        exact h.sound.peers.distinct e' hmem e he (Option.some.inj (Option.some.inj hbound)).symm
      · obtain ⟨e', he', rfl⟩ := h.kept.live j ptr hj
        refine ⟨e', (h.wired.mem_removePeer he).mpr ⟨he', ?_⟩, rfl⟩
        rintro rfl
        exact hji (honly hj)

/-! ### Connections and the cleanup -/

theorem Kept.connected (h : Steady s) (hc : Connected s s') : Kept s' := by
  have hnew : s.bindings s.nextSession = none := h.wired.unused _ le_rfl
  have hkeep {b : Option Nat} {j : Nat} {x : Option Nat}
      (hb : s'.bindings = Function.update s.bindings s.nextSession (some b))
      (hj : s.bindings j = some x) : s'.bindings j = some x := by
    have hne : j ≠ s.nextSession := by
      rintro rfl
      rw [hnew] at hj
      cases hj
    rw [hb, Function.update_of_ne hne, hj]
  have hlive {b : Option Nat} (hb : s'.bindings = Function.update s.bindings s.nextSession (some b))
      (hold : ∀ e ∈ s.peers_.entries, ∃ e' ∈ s'.peers_.entries, e'.2.ptr = e.2.ptr)
      (hb' : ∀ ptr, b = some ptr → ∃ e' ∈ s'.peers_.entries, e'.2.ptr = ptr) : Live s' := by
    intro j ptr hj
    rw [hb] at hj
    by_cases hne : j = s.nextSession
    · rw [hne, Function.update_self] at hj
      exact hb' ptr (Option.some.inj hj)
    · rw [Function.update_of_ne hne] at hj
      obtain ⟨e, he, rfl⟩ := h.kept.live j ptr hj
      exact hold e he
  cases hc with
  | refused hpeers _ hb =>
    refine ⟨hlive hb (fun e he => ⟨e, hpeers ▸ he, rfl⟩) (fun ptr hnone => by cases hnone), ?_, ?_⟩
    · rw [hpeers]
      exact fun e he i hi => hkeep hb (h.kept.held e he i hi)
    · rw [hpeers]
      intro e he hslots
      obtain ⟨i, j, hne, hi, hj⟩ := h.kept.twice e he hslots
      exact ⟨i, j, hne, hkeep hb hi, hkeep hb hj⟩
  | joined id token hnone hpeers _ hb =>
    have hself : s'.bindings s.nextSession = some (some s.nextPeer) := by
      rw [hb, Function.update_self]
    have hmem {e : Bytes × Peer} (he : e ∈ s'.peers_.entries) :
        e = (id, ⟨s.nextPeer, id, token, some s.nextSession, 1, 1⟩) ∨ e ∈ s.peers_.entries :=
      StdMap.mem_insert (hpeers ▸ he)
    refine ⟨hlive hb (fun e he => ⟨e, hpeers ▸ StdMap.mem_insert_of_mem _ _ he, rfl⟩)
      (fun ptr hptr => ?_), fun e he i hi => ?_, fun e he hslots => ?_⟩
    · cases hptr
      have hscan := StdMap.scan_insert_new (⟨s.nextPeer, id, token, some s.nextSession, 1, 1⟩ : Peer)
        (getPeer_none.mp hnone) (iequals_refl id)
      exact ⟨_, hpeers ▸ (StdMap.scan_some hscan).1, rfl⟩
    · rcases hmem he with rfl | he
      · cases hi
        exact hself
      · exact hkeep hb (h.kept.held e he i hi)
    · rcases hmem he with rfl | he
      · exact absurd (show 2 ≤ 1 from hslots) (by decide)
      · obtain ⟨i, j, hne, hi, hj⟩ := h.kept.twice e he hslots
        exact ⟨i, j, hne, hkeep hb hi, hkeep hb hj⟩
  | reseated id p n hsome hpeers _ hb =>
    have hself : s'.bindings s.nextSession = some (some p.ptr) := by
      rw [hb, Function.update_self]
    have hmem {e : Bytes × Peer} (he : e ∈ s'.peers_.entries) : ∃ e₀ ∈ s.peers_.entries,
        e = (e₀.1, if e₀.2.ptr = p.ptr then Peer.reseated s.nextSession n e₀.2 else e₀.2) := by
      rw [hpeers] at he
      obtain ⟨e₀, he₀, rfl⟩ := List.mem_map.mp he
      exact ⟨e₀, he₀, rfl⟩
    have hold {e : Bytes × Peer} (he : e ∈ s.peers_.entries) :
        ∃ e' ∈ s'.peers_.entries, e'.2.ptr = e.2.ptr := by
      refine ⟨(e.1, if e.2.ptr = p.ptr then Peer.reseated s.nextSession n e.2 else e.2), ?_, ?_⟩
      · rw [hpeers]
        exact List.mem_map_of_mem he
      · dsimp only
        split
        · rfl
        · rfl
    refine ⟨hlive hb (fun e he => hold he) (fun ptr hptr => ?_), fun e he i hi => ?_,
      fun e he hslots => ?_⟩
    · cases hptr
      obtain ⟨k, hk, -⟩ := getPeer_some hsome
      exact hold hk
    · obtain ⟨e₀, he₀, rfl⟩ := hmem he
      dsimp only at hi ⊢
      split at hi
      · rename_i hptr
        cases hi
        rw [if_pos hptr, hself, ← hptr]
        rfl
      · rename_i hptr
        rw [if_neg hptr]
        exact hkeep hb (h.kept.held e₀ he₀ i hi)
    · obtain ⟨e₀, he₀, rfl⟩ := hmem he
      dsimp only at hslots ⊢
      split at hslots
      · rename_i hptr
        obtain ⟨ws, hlt, hws⟩ := h.sound.peers.session e₀ he₀
        rw [if_pos hptr]
        refine ⟨ws, s.nextSession, Nat.ne_of_lt hlt, hkeep hb (h.kept.held e₀ he₀ ws hws), ?_⟩
        rw [hself, ← hptr]
        rfl
      · rename_i hptr
        obtain ⟨i, j, hne, hi, hj⟩ := h.kept.twice e₀ he₀ hslots
        rw [if_neg hptr]
        exact ⟨i, j, hne, hkeep hb hi, hkeep hb hj⟩

theorem cleanupFrom_retains {depth : Nat} {last : Option Bytes} (hs : PeersSound s)
    (hn : NoLeaves s) (h : s.cleanupFrom depth last = .ok s') : Retains s s' := by
  induction depth generalizing s last with
  | zero => cases h
  | succ depth ih =>
    unfold cleanupFrom at h
    split at h
    · cases h
      exact ⟨rfl, rfl⟩
    · cases h
    · rename_i dst pending hfind
      obtain ⟨s₁, h₁, h⟩ := bind_eq_ok.mp h
      have hpending : ∀ pm ∈ pending, iequals pm.type (str "LEAVE") = false :=
        hn _ (List.mem_of_find?_eq_some hfind) pending rfl
      have hs₀ : PeersSound { s with
          outstandings_ := s.outstandings_.modifyFirst (dst = ·) fun _ => none } :=
        hs.lost rfl rfl fun _ he => he
      have hn₀ : NoLeaves { s with
          outstandings_ := s.outstandings_.modifyFirst (dst = ·) fun _ => none } := by
        intro e he l hl
        rcases StdMap.mem_modifyFirst he with he | ⟨e', he', hscan, rfl⟩
        · exact hn e he l hl
        · cases hl
      have hkeeps : ∀ t t', ∀ pm ∈ pending, PeersSound t ∧ NoLeaves t ∧ Retains s t →
          t.handleTransmission ⟨pm.type, pm.dst, pm.src, []⟩ = .ok t' →
          PeersSound t' ∧ NoLeaves t' ∧ Retains s t' := by
        intro t t' pm hpm ⟨hst, hnt, hrt⟩ hstep
        have hr := handleTransmission_retains hst (by simp [hpending pm hpm]) hstep
        exact ⟨hst.handleTransmission hstep, hnt.handleTransmission hst hstep,
          hr.peers.trans hrt.peers, hr.bindings.trans hrt.bindings⟩
      obtain ⟨hs₁, hn₁, hr₁⟩ := foldlM_keeps hkeeps ⟨hs₀, hn₀, rfl, rfl⟩ h₁
      have hr := ih hs₁ hn₁ h
      exact ⟨hr.peers.trans hr₁.peers, hr.bindings.trans hr₁.bindings⟩

/-- No queue outlives a cleanup, and no peer is lost in it. -/
theorem cleanup_careful (h : Steady s) : Outcome.Ends s.handleCleanupIntervals (fun _ => True) fun t =>
    Kept t ∧ NoLeaves t := by
  cases hc : s.handleCleanupIntervals with
  | error f => trivial
  | ok t =>
    obtain ⟨s₁, h₁, ht⟩ := bind_eq_ok.mp hc
    cases ht
    have hr := cleanupFrom_retains h.sound.peers h.noLeaves h₁
    exact ⟨h.kept.retains ⟨hr.peers, hr.bindings⟩, fun e he => absurd he List.not_mem_nil⟩

/-! ### Runs -/

theorem step_careful {e : Event} (h : Steady s) (hc : Careful s e) :
    Outcome.Ends (s.step e) (fun _ => True) Steady := by
  cases hstep : s.step e with
  | error f => trivial
  | ok t =>
    have hsound := step_sound h.sound hstep
    have hwired := step_wired h.sound h.wired hstep
    cases e with
    | connect url =>
      obtain ⟨-, hconnected, hlost⟩ := connect_connected h.sound hstep
      exact ⟨hsound, hwired, .connected h hconnected, h.noLeaves.lost hlost⟩
    | message i d => exact (message_careful h hc).of_ok hstep
    | closed i =>
      obtain ⟨t', ht', hkept⟩ := closed_careful h hc
      cases ht'.symm.trans hstep
      exact ⟨hsound, hwired, hkept, h.noLeaves.lost (closed_outstandings hstep)⟩
    | cleanup =>
      obtain ⟨hkept, hnone⟩ := (cleanup_careful h).of_ok hstep
      exact ⟨hsound, hwired, hkept, hnone⟩

theorem start_steady : Steady start :=
  ⟨start_sound, start_wired, start_kept, fun _ he => absurd he List.not_mem_nil⟩

/-- In a run in which no peer is removed while another session is bound to it, every session that
is there is bound to a registered peer, if it is bound. No later message or close uses a removed
peer then. -/
theorem careful_run {es : List Event} (hes : Meets step Careful start es)
    (hrun : start.run es = .ok s) :
    Live s ∧ (∀ i d, Careful s (.message i d) → s.message i d ≠ .error .freed) ∧
      ∀ i, Careful s (.closed i) → ∃ s', s.closed i = .ok s' := by
  have h : Steady s := (hes.ends (fun _ _ ht he => step_careful ht he) start_steady).of_ok hrun
  refine ⟨h.kept.live, fun i d hc hfreed => ?_, fun i hc => ?_⟩
  · cases (message_careful h hc).of_error hfreed
  · obtain ⟨t, ht, -⟩ := closed_careful h hc
    exact ⟨t, ht⟩

/-- The text of an offer to the peer `b`. -/
def offerTo : Option Document :=
  some ⟨.string (str "OFFER"), .string (str "b"), .other, fun src => str "offer of " ++ src⟩

theorem careful_run_offer : ∃ s, start.run [.connect (some (peerUrl (str "a") (str "t"))),
      .message 0 offerTo, .cleanup] = .ok s ∧ Live s ∧ s.message 0 offerTo ≠ .error .freed := by
  have hes : Meets step Careful start [.connect (some (peerUrl (str "a") (str "t"))),
      .message 0 offerTo, .cleanup] := ⟨trivial, .inr rfl, trivial, trivial⟩
  have hrun : ∃ s, start.run [.connect (some (peerUrl (str "a") (str "t"))),
      .message 0 offerTo, .cleanup] = .ok s := ⟨_, rfl⟩
  obtain ⟨s, hrun⟩ := hrun
  obtain ⟨hlive, hmessages, -⟩ := careful_run hes hrun
  exact ⟨s, hrun, hlive, hmessages 0 offerTo (.inr rfl)⟩

def farewell : Option Document :=
  some ⟨.string (str "LEAVE"), .string [], .other, fun _ => []⟩

/-- The peer `a` leaves with a message, and its session stays bound to it. -/
theorem left_peer_used : ∃ s, start.run [.connect (some (peerUrl (str "a") (str "t"))),
      .message 0 farewell] = .ok s ∧ ¬ Live s ∧ s.message 0 offerTo = .error .freed ∧
    s.closed 0 = .error .freed := by
  refine ⟨_, rfl, fun hlive => ?_, rfl, rfl⟩
  obtain ⟨e, he, -⟩ := hlive 0 0 rfl
  exact absurd he List.not_mem_nil

end Flingd.Peers.PeerServer
