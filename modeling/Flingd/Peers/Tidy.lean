import Flingd.Peers.Bindings

/-! The queues in every state that a run reaches. No two of them are for one id, none is
for an id that is registered, and the session of a registered peer is there. -/
namespace Flingd.Peers.PeerServer
open Http Outcome
variable {s s' : PeerServer}

def Attended (s : PeerServer) : Prop :=
  ∀ e ∈ s.peers_.entries, ∀ i, e.2.session = some i → (s.bindings i).isSome = true

structure Tidy (s : PeerServer) : Prop where
  apart : ∀ e ∈ s.outstandings_.entries, ∀ e' ∈ s.outstandings_.entries,
    iequals e.1 e'.1 = true → e = e'
  unregistered : ∀ e ∈ s.outstandings_.entries, s.getPeer e.1 = none
  stored : ∀ e ∈ s.outstandings_.entries, ∀ l, e.2 = some l → ∀ pm ∈ l, isStored pm = true
  attended : Attended s

theorem start_tidy : Tidy start where
  apart _ he := absurd he List.not_mem_nil
  unregistered _ he := absurd he List.not_mem_nil
  stored _ he := absurd he List.not_mem_nil
  attended _ he := absurd he List.not_mem_nil

/-- Queues are lost, and peers come and go. -/
theorem Tidy.lost (h : Tidy s) (hq : ∀ e ∈ s'.outstandings_.entries, e ∈ s.outstandings_.entries)
    (hp : ∀ e ∈ s'.outstandings_.entries, s'.getPeer e.1 = none) (ha : Attended s') : Tidy s' where
  apart e he e' he' := h.apart e (hq e he) e' (hq e' he')
  unregistered := hp
  stored e he := h.stored e (hq e he)
  attended := ha

theorem Attended.lost (h : Attended s) (hp : ∀ e ∈ s'.peers_.entries, e ∈ s.peers_.entries)
    (hb : s'.bindings = s.bindings) : Attended s' := by
  intro e he i hi
  rw [hb]
  exact h e (hp e he) i hi

theorem getPeer_none_of_lost (hp : ∀ e ∈ s'.peers_.entries, e ∈ s.peers_.entries) {id : Bytes}
    (h : s.getPeer id = none) : s'.getPeer id = none := by
  rw [getPeer_none, StdMap.scan_none] at *
  exact fun e he => h e (hp e he)

theorem Tidy.loses (h : Tidy s) (hl : Loses s s') (hq : s'.outstandings_ = s.outstandings_) :
    Tidy s' := by
  refine h.lost (fun e he => hq ▸ he) (fun e he => ?_) (h.attended.lost hl.peers hl.bindings)
  exact getPeer_none_of_lost hl.peers (h.unregistered e (hq ▸ he))

/-! ### Messages -/

theorem getPeerMessages_none {id : Bytes} : s.getPeerMessages id = none ↔
    ∀ e ∈ s.outstandings_.entries, iequals id e.1 = false := by
  rw [getPeerMessages, Option.map_eq_none_iff, StdMap.scan_none]

/-- A message is stored for a peer that is not registered. -/
theorem Tidy.addPeerMessages {pm : PeerMessage} (h : Tidy s) (hp : s.getPeer pm.dst = none)
    (hs : isStored pm = true) (ha : s.addPeerMessages pm.dst pm = .ok s') : Tidy s' := by
  unfold PeerServer.addPeerMessages at ha
  cases hq : s.getPeerMessages pm.dst with
  | none =>
    rw [hq] at ha
    cases ha
    have hnew := getPeerMessages_none.mp hq
    refine ⟨fun e he e' he' heq => ?_, fun e he => ?_, fun e he l hl pm' hpm' => ?_, h.attended⟩
    · rcases StdMap.mem_insert he with rfl | he <;> rcases StdMap.mem_insert he' with rfl | he'
      · rfl
      · rw [hnew e' he'] at heq
        cases heq
      · rw [iequals_comm, hnew e he] at heq
        cases heq
      · exact h.apart e he e' he' heq
    · rcases StdMap.mem_insert he with rfl | he
      · exact hp
      · exact h.unregistered e he
    · rcases StdMap.mem_insert he with rfl | he
      · cases hl
        cases hpm'
      · exact h.stored e he l hl pm' hpm'
  | some q =>
    rw [hq] at ha
    cases q with
    | none => cases ha
    | some messages =>
      cases ha
      obtain ⟨e₀, h₀, hv : e₀.2 = some messages⟩ := Option.map_eq_some_iff.mp hq
      have hold {e : Bytes × Queue} (he : e ∈ (s.outstandings_.modifyFirst (iequals pm.dst)
          fun _ => some (messages ++ [pm])).entries) :
          e ∈ s.outstandings_.entries ∨ e = (e₀.1, some (messages ++ [pm])) := by
        rcases StdMap.mem_modifyFirst he with he | ⟨e', -, hs, rfl⟩
        · exact .inl he
        · cases h₀.symm.trans hs
          exact .inr rfl
      have hmem := (StdMap.scan_some h₀).1
      have hkey {e : Bytes × Queue} (he : e ∈ (s.outstandings_.modifyFirst (iequals pm.dst)
          fun _ => some (messages ++ [pm])).entries) :
          ∃ e' ∈ s.outstandings_.entries, e'.1 = e.1 := by
        rcases hold he with he | rfl
        · exact ⟨e, he, rfl⟩
        · exact ⟨e₀, hmem, rfl⟩
      refine ⟨fun e he e' he' heq => ?_, fun e he => ?_, fun e he l hl pm' hpm' => ?_, h.attended⟩
      · obtain ⟨f, hf, hfe⟩ := hkey he
        obtain ⟨f', hf', hfe'⟩ := hkey he'
        have hff := h.apart f hf f' hf' (by rw [hfe, hfe']; exact heq)
        exact StdMap.eq_of_key_eq he he' (by rw [← hfe, ← hfe', hff])
      · obtain ⟨f, hf, hfe⟩ := hkey he
        have hno := h.unregistered f hf
        rwa [hfe] at hno
      · rcases hold he with he | rfl
        · exact h.stored e he l hl pm' hpm'
        · cases hl
          rcases List.mem_append.mp hpm' with hpm' | hpm'
          · exact h.stored e₀ hmem messages hv pm' hpm'
          · rwa [List.mem_singleton.mp hpm']

theorem Tidy.handleTransmission {pm : PeerMessage} (h : Tidy s) (hs : PeersSound s)
    (ht : s.handleTransmission pm = .ok s') : Tidy s' := by
  have hl := handleTransmission_loses hs ht
  rcases handleTransmission_cases hs ht with ⟨-, m, rfl⟩ | ⟨hp, hstored, ha⟩ | ⟨-, -, rfl | rfl⟩
  · exact h.loses hl rfl
  · exact h.addPeerMessages hp hstored ha
  · exact h
  · exact h.loses hl rfl

/-! ### Connections -/

theorem getPeer_withPeer_none {ptr : Nat} {f : Peer → Peer} {id : Bytes}
    (h : s.getPeer id = none) : (s.withPeer ptr f).getPeer id = none := by
  rw [getPeer_withPeer, h]
  rfl

/-- Whoever connects takes the queue for its id. -/
theorem connect_unregistered {url : Option Url} (hs : Sound s) (h : Tidy s)
    (hc : s.connect url = .ok s') : ∀ e ∈ s'.outstandings_.entries, s'.getPeer e.1 = none := by
  have hopened : ∀ e ∈ s.opened.outstandings_.entries, s.opened.getPeer e.1 = none :=
    h.unregistered
  rcases connect_cases hs hc with
    ⟨m, rfl, -⟩ | ⟨id, token, -, m, ⟨-, rfl, -⟩ | ⟨p, -, rfl | rfl, -⟩⟩
  · exact hopened
  · -- no queue for the id is left
    have hgone {e : Bytes × Queue} (he : e ∈ (s.outstandings_.eraseFirst (iequals id)).entries) :
        iequals e.1 id = false := by
      rw [iequals_comm]
      cases hscan : s.outstandings_.scan (iequals id) with
      | none =>
        rw [StdMap.eraseFirst_of_scan_none hscan] at he
        exact StdMap.scan_none.mp hscan e he
      | some f =>
        obtain ⟨hmem, hne⟩ := (StdMap.mem_eraseFirst_iff hscan).mp he
        obtain ⟨hf, hkey⟩ := StdMap.scan_some hscan
        by_contra hid
        refine hne (h.apart e hmem f hf ?_)
        rw [← iequals_congr ((Bool.not_eq_false _).mp hid)]
        exact hkey
    intro e he
    have hold := getPeer_none.mp (hopened e (StdMap.mem_eraseFirst he))
    exact getPeer_none.mpr ((StdMap.scan_insert_other _ (hgone he)).trans hold)
  · intro e he
    have hold := hopened e (StdMap.mem_eraseFirst he)
    exact getPeer_withPeer_none (s := s.opened) (f := fun q => { q with
      session := some s.nextSession, closeSlots := q.closeSlots + 1,
      messageSlots := q.messageSlots + 1 }) hold
  · intro e he
    exact getPeer_withPeer_none (s := s.opened)
      (f := fun q => { q with session := some s.nextSession }) (hopened e he)

theorem Attended.connected (h : Attended s) (hc : Connected s s') : Attended s' := by
  have hkeep {b : Option Nat} {i : Nat}
      (hb : s'.bindings = Function.update s.bindings s.nextSession (some b))
      (hi : (s.bindings i).isSome = true) : (s'.bindings i).isSome = true := by
    rw [hb]
    by_cases hn : i = s.nextSession
    · rw [hn, Function.update_self]
      rfl
    · rw [Function.update_of_ne hn]
      exact hi
  have hself {b : Option Nat}
      (hb : s'.bindings = Function.update s.bindings s.nextSession (some b)) :
      (s'.bindings s.nextSession).isSome = true := by
    rw [hb, Function.update_self]
    rfl
  intro e he i hi
  cases hc with
  | refused hpeers _ hb => exact hkeep hb (h e (hpeers ▸ he) i hi)
  | joined id token _ hpeers _ hb =>
    rcases StdMap.mem_insert (hpeers ▸ he) with rfl | he
    · cases hi
      exact hself hb
    · exact hkeep hb (h e he i hi)
  | reseated id p n _ hpeers _ hb =>
    rw [hpeers] at he
    obtain ⟨e₀, he₀, rfl⟩ := List.mem_map.mp he
    dsimp only at hi
    split at hi
    · cases hi
      exact hself hb
    · exact hkeep hb (h e₀ he₀ i hi)

/-! ### Closes -/

theorem Attended.closed {i : Nat} (h : Attended s) (hs : Sound s) (hw : Wired s)
    (hc : s.closed i = .ok s') : Attended s' := by
  have hother {t : PeerServer} (ht : t.bindings = s.bindings)
      (hp : ∀ e ∈ t.peers_.entries, e ∈ s.peers_.entries ∧ e.2.session ≠ some i) :
      Attended (t.setSession i none) := by
    intro e he j hj
    obtain ⟨hmem, hne⟩ := hp e he
    have hji : j ≠ i := by
      rintro rfl
      exact hne hj
    rw [bindings_setSession, Function.update_of_ne hji, ht]
    exact h e hmem j hj
  have hattached {e : Bytes × Peer} (he : e ∈ s.peers_.entries) (hi : e.2.session = some i) :
      s.bindings i = some (some e.2.ptr) := by
    obtain ⟨b, hb⟩ := Option.isSome_iff_exists.mp (h e he i hi)
    rw [hb, hw.attached e he i hi b hb]
  cases hb : s.bindings i with
  | none =>
    have hsame : s' = s := by
      unfold PeerServer.closed at hc
      simp only [Option.map_eq_none_iff.mp hb] at hc
      cases hc
      rfl
    exact hsame ▸ h
  | some bound =>
    cases bound with
    | none =>
      obtain rfl := Except.ok.inj ((closed_unbound hb).symm.trans hc)
      refine hother rfl fun e he => ⟨he, fun hi => ?_⟩
      rw [hattached he hi] at hb
      cases hb
    | some ptr =>
      by_cases hd : ∃ e ∈ s.peers_.entries, e.2.ptr = ptr
      · obtain ⟨e, he, rfl⟩ := hd
        rw [closed_bound hs.peers hw he hb] at hc
        split at hc
        · cases hc
          refine hother rfl fun e' he' => ?_
          obtain ⟨hmem, hne⟩ := (hw.mem_removePeer he).mp he'
          refine ⟨hmem, fun hi => hne (hs.peers.distinct e' hmem e he ?_)⟩
          rw [hattached hmem hi] at hb
          exact Option.some.inj (Option.some.inj hb)
        · cases hc
      · rw [closed_dangling hb (deref_error fun e he heq => hd ⟨e, he, heq⟩)] at hc
        cases hc

/-! ### Runs -/

theorem step_tidy {e : Event} (hs : Sound s) (hw : Wired s) (h : Tidy s)
    (hstep : s.step e = .ok s') : Tidy s' := by
  cases e with
  | connect url =>
    obtain ⟨-, hc, hq⟩ := connect_connected hs hstep
    exact h.lost hq (connect_unregistered hs h hstep) (h.attended.connected hc)
  | message i d =>
    have hm := message_ok hstep
    split at hm
    · exact hm ▸ h
    · obtain ⟨p, -, hm⟩ := hm
      refine (runSlots_keeps (I := fun t => Sound t ∧ Tidy t) (fun t t' ht hr => ?_) ⟨hs, h⟩ hm).2
      obtain ⟨q, hq, -⟩ := bind_eq_ok.mp hr
      have hok := onPeerMessage_ok hq hr
      refine ⟨onPeerMessage_sound ht.1 hr, ?_⟩
      split at hok
      · exact ht.2.handleTransmission ht.1.peers hok
      · exact hok ▸ ht.2
  | closed i =>
    have hq := closed_keeps (I := fun t => t.outstandings_ = s.outstandings_)
      (fun _ _ ht => ht) (fun _ _ ht => ht) rfl hstep
    obtain ⟨t, hl, rfl⟩ := closed_loses hstep
    exact h.lost (fun e he => hq ▸ he)
      (fun e he => getPeer_none_of_lost hl.peers (h.unregistered e (hq ▸ he)))
      (h.attended.closed hs hw hstep)
  | cleanup =>
    have hl := handleCleanupIntervals_loses hs hstep
    obtain ⟨t, -, ht⟩ := bind_eq_ok.mp hstep
    cases ht
    exact h.lost (fun e he => absurd he List.not_mem_nil)
      (fun e he => absurd he List.not_mem_nil) (h.attended.lost hl.peers hl.bindings)

theorem Reachable.tidy (h : Reachable s) : Tidy s := by
  obtain ⟨es, h⟩ := h
  exact (foldlM_keeps (I := fun t => (Sound t ∧ Wired t) ∧ Tidy t) (fun _ _ _ _ ht hstep =>
    ⟨⟨step_sound ht.1.1 hstep, step_wired ht.1.1 ht.1.2 hstep⟩,
      step_tidy ht.1.1 ht.1.2 ht.2 hstep⟩) ⟨⟨start_sound, start_wired⟩, start_tidy⟩ h).2

end Flingd.Peers.PeerServer
