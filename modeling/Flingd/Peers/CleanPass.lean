import Flingd.Peers.Cleanup

/-! When the cleanup is safe. A notice that finds no peer makes a queue for its own
destination, or goes into the one that is there. A queue behind the one being visited is
visited later; one before it is never released; a message that goes into a queue comes back
to a queue that has been released. -/
namespace Flingd.Peers.PeerServer
open Http Outcome
variable {s t t' : PeerServer}

def Matched (s : PeerServer) : Prop :=
  ∀ e ∈ s.outstandings_.entries, ∀ l, e.2 = some l → ∀ pm ∈ l, iequals e.1 pm.dst = true

/-- What holds in the midst of a pass that began in `s`. -/
structure Midway (s t : PeerServer) : Prop where
  peers : PeersSound t
  tidy : Tidy t
  matched : Matched t
  retains : Retains s t

theorem Midway.start (hs : Sound s) (h : Tidy s) : Midway s s where
  peers := hs.peers
  tidy := h
  matched e he l hl pm hpm := by
    obtain ⟨l', hl', hdst⟩ := hs.queues e he
    rw [hl] at hl'
    cases hl'
    exact hdst pm hpm
  retains := ⟨rfl, rfl⟩

theorem Midway.release (h : Midway s t) (dst : Bytes) : Midway s (t.release dst) := by
  have hkey {e : Bytes × Queue} (he : e ∈ (t.release dst).outstandings_.entries) :
      ∃ e' ∈ t.outstandings_.entries, e'.1 = e.1 := by
    have hk : e.1 ∈ (t.release dst).outstandings_.keys := List.mem_map.mpr ⟨e, he, rfl⟩
    rw [release_keys] at hk
    exact List.mem_map.mp hk
  have hval {e : Bytes × Queue} (he : e ∈ (t.release dst).outstandings_.entries)
      {l : List PeerMessage} (hl : e.2 = some l) : e ∈ t.outstandings_.entries := by
    rcases mem_release he with ⟨he, -⟩ | rfl
    · exact he
    · cases hl
  refine ⟨h.peers.release dst, ⟨fun e he e' he' heq => ?_, fun e he => ?_, fun e he l hl => ?_,
    h.tidy.attended⟩, fun e he l hl => h.matched e (hval he hl) l hl,
    ⟨h.retains.peers, h.retains.bindings⟩⟩
  · obtain ⟨f, hf, hfe⟩ := hkey he
    obtain ⟨f', hf', hfe'⟩ := hkey he'
    have hff := h.tidy.apart f hf f' hf' (by rw [hfe, hfe']; exact heq)
    exact StdMap.eq_of_key_eq he he' (by rw [← hfe, ← hfe', hff])
  · obtain ⟨f, hf, hfe⟩ := hkey he
    have hno := h.tidy.unregistered f hf
    rwa [hfe] at hno
  · exact h.tidy.stored e (hval he hl) l hl

theorem Matched.addPeerMessages {pm : PeerMessage} (h : Matched t)
    (ha : t.addPeerMessages pm.dst pm = .ok t') : Matched t' := by
  unfold PeerServer.addPeerMessages at ha
  split at ha
  · cases ha
    intro e he l hl
    rcases StdMap.mem_insert he with rfl | he
    · cases hl
      exact fun pm hpm => absurd hpm List.not_mem_nil
    · exact h e he l hl
  · cases ha
  · rename_i messages hq
    cases ha
    intro e he l hl
    rcases StdMap.mem_modifyFirst he with he | ⟨e', he', hscan, rfl⟩
    · exact h e he l hl
    · cases hl
      have hold : e'.2 = some messages := by
        unfold getPeerMessages at hq
        rw [hscan] at hq
        exact Option.some.inj hq
      have hkey : iequals pm.dst e'.1 = true := (StdMap.scan_some hscan).2
      intro pm' hpm'
      rcases List.mem_append.mp hpm' with hpm' | hpm'
      · exact h e' he' messages hold pm' hpm'
      · rw [List.mem_singleton.mp hpm', iequals_comm]
        exact hkey

theorem isStored_type {pm : PeerMessage} (h : isStored pm = true) :
    iequals pm.type (str "LEAVE") = false ∧ iequals pm.type (str "EXPIRE") = false ∧
      iequals pm.dst (str "") = false := by
  simpa [isStored, and_assoc] using h

theorem Midway.handle {pm : PeerMessage} (h : Midway s t) (hpm : isStored pm = true)
    (ht : t.handleTransmission (notice pm) = .ok t') : Midway s t' := by
  have hr := handleTransmission_retains h.peers (by simp [notice, (isStored_type hpm).1]) ht
  refine ⟨h.peers.handleTransmission ht, h.tidy.handleTransmission h.peers ht, ?_,
    hr.peers.trans h.retains.peers, hr.bindings.trans h.retains.bindings⟩
  rcases handleTransmission_cases h.peers ht with ⟨-, m, rfl⟩ | ⟨-, -, ha⟩ | ⟨-, -, rfl | rfl⟩
  · exact h.matched
  · exact h.matched.addPeerMessages ha
  · exact h.matched
  · exact h.matched

theorem orphan_congr (h : t.peers_ = s.peers_) : t.orphan = s.orphan := by
  funext pm
  simp only [orphan, getPeer, h]

/-- A notice is stored, or sent, or dropped. -/
theorem notice_orphan {pm : PeerMessage} (hpm : isStored pm = true) (ho : t.orphan pm = true) :
    t.handleTransmission (notice pm) = t.addPeerMessages pm.src (notice pm) := by
  simp only [orphan, Bool.and_eq_true, Option.isNone_iff_eq_none, Bool.not_eq_true'] at ho
  obtain ⟨h₁, h₂, -⟩ := isStored_type hpm
  have hp : t.getPeer (notice pm).dst = none := ho.1
  unfold handleTransmission transmit
  simp only [hp]
  rw [if_pos]
  · rfl
  · exact ⟨by simp [notice, h₁], by simp [notice, h₂], by simp [notice, ho.2]⟩

theorem notice_served {pm : PeerMessage} (hs : PeersSound t) (ha : Attended t)
    (hpm : isStored pm = true) (ho : t.orphan pm = false) :
    ∃ m, t.handleTransmission (notice pm) = .ok { t with sessions := m } := by
  cases hp : t.getPeer pm.src with
  | some p =>
    obtain ⟨k, hk, -⟩ := getPeer_some hp
    obtain ⟨ws, -, hws : p.session = some ws⟩ := hs.session _ hk
    obtain ⟨b, hb⟩ := Option.isSome_iff_exists.mp (ha _ hk ws hws)
    obtain ⟨w, hw, -⟩ := Option.map_eq_some_iff.mp hb
    have hdst : t.getPeer (notice pm).dst = some p := hp
    rw [handleTransmission_known hdst hws]
    exact ⟨_, updateSession_ok.mpr ⟨w, hw, rfl⟩⟩
  | none =>
    have hsrc : iequals pm.src (str "") = true := by simpa [orphan, hp] using ho
    obtain ⟨h₁, -, -⟩ := isStored_type hpm
    have hp' : t.getPeer (notice pm).dst = none := hp
    refine ⟨t.sessions, ?_⟩
    unfold handleTransmission transmit
    simp only [hp']
    rw [if_neg, if_neg]
    · exact fun h => by simp [notice, h₁] at h
    · exact fun h => h.2.2 hsrc

/-! ### Keys only grow -/

theorem addPeerMessages_keys {id : Bytes} {pm : PeerMessage} (h : t.addPeerMessages id pm = .ok t') :
    ∀ k, k ∈ t'.outstandings_.keys ↔
      k ∈ t.outstandings_.keys ∨ k = id ∧ t.getPeerMessages id = none := by
  intro k
  unfold addPeerMessages at h
  split at h
  · rename_i hq
    cases h
    simp only [StdMap.mem_keys_insert, hq, and_true]
    exact or_comm
  · cases h
  · rename_i messages hq
    cases h
    simp [StdMap.keys_modifyFirst, hq]

theorem notice_keys {pm : PeerMessage} (hs : PeersSound t)
    (h : t.handleTransmission (notice pm) = .ok t') :
    ∀ k ∈ t.outstandings_.keys, k ∈ t'.outstandings_.keys := by
  intro k hk
  rcases handleTransmission_cases hs h with ⟨-, m, rfl⟩ | ⟨-, -, ha⟩ | ⟨-, -, rfl | rfl⟩
  · exact hk
  · exact (addPeerMessages_keys ha k).mpr (.inl hk)
  · exact hk
  · exact hk

theorem Midway.fold {l : List PeerMessage} (h : Midway s t) (hl : ∀ pm ∈ l, isStored pm = true)
    (hf : l.foldlM (fun s pm => s.handleTransmission (notice pm)) t = .ok t') :
    Midway s t' ∧ ∀ k ∈ t.outstandings_.keys, k ∈ t'.outstandings_.keys := by
  refine foldlM_keeps (I := fun u => Midway s u ∧ ∀ k ∈ t.outstandings_.keys,
    k ∈ u.outstandings_.keys) ?_ ⟨h, fun _ hk => hk⟩ hf
  exact fun u u' pm hpm hu hstep => ⟨hu.1.handle (hl pm hpm) hstep,
    fun k hk => notice_keys hu.1.peers hstep k (hu.2 k hk)⟩

/-- What a pass visits: the keys in order, all of them after `last`, and all still there. -/
theorem passFrom_visits {depth : Nat} {last : Option Bytes}
    {visited : List (Bytes × List PeerMessage)} (h : Midway s t)
    (hp : t.passFrom depth last = .ok (visited, t')) :
    (∀ k ∈ visited.map Prod.fst, last.all (· < k) = true) ∧
      (visited.map Prod.fst).Pairwise (· < ·) ∧
      (∀ k ∈ visited.map Prod.fst, k ∈ t'.outstandings_.keys) ∧
      ∀ k ∈ t.outstandings_.keys, k ∈ t'.outstandings_.keys := by
  induction depth generalizing t last visited with
  | zero => cases hp
  | succ depth ih =>
    unfold passFrom at hp
    split at hp
    · cases hp
      simp
    · cases hp
    · rename_i dst pending hfind
      obtain ⟨t₁, h₁, hp⟩ := bind_eq_ok.mp hp
      obtain ⟨⟨rest, t₂⟩, h₂, hp⟩ := bind_eq_ok.mp hp
      cases hp
      obtain ⟨before, after, hsplit, hlast, -, -⟩ := find_first hfind
      have hmem : (dst, some pending) ∈ t.outstandings_.entries := List.mem_of_find?_eq_some hfind
      have hstored := h.tidy.stored _ hmem pending rfl
      obtain ⟨hm, hkeys⟩ := (h.release dst).fold hstored h₁
      obtain ⟨hafter, hsorted, hthere, hgrow⟩ := ih hm h₂
      have hdst : dst ∈ t₁.outstandings_.keys :=
        hkeys dst (by rw [release_keys]; exact List.mem_map.mpr ⟨_, hmem, rfl⟩)
      simp only [List.map_cons, List.mem_cons, forall_eq_or_imp, List.pairwise_cons]
      refine ⟨⟨hlast, fun k hk => ?_⟩, ⟨fun k hk => ?_, hsorted⟩, ⟨hgrow dst hdst, hthere⟩,
        fun k hk => hgrow k (hkeys k (by rwa [release_keys]))⟩
      · exact all_lt_trans hlast (by simpa using hafter k hk)
      · simpa using hafter k hk

/-! ### Clear queues -/

/-- Of the messages that are still to be handled, the notices that are stored get new queues,
each behind the queue of its message. -/
def Clear (t : PeerServer) : List (Bytes × PeerMessage) → Prop
  | [] => True
  | (k, pm) :: rest => (t.orphan pm = true → t.getPeerMessages pm.src = none ∧ k < pm.src ∧
      ∀ o ∈ rest, t.orphan o.2 = true → iequals pm.src o.2.src = false) ∧ Clear t rest

theorem clear_iff (l : List (Bytes × PeerMessage)) : Clear t l ↔
    (l.filter (t.orphan ·.2)).Pairwise (fun a b => iequals a.2.src b.2.src = false) ∧
      ∀ o ∈ l.filter (t.orphan ·.2), t.getPeerMessages o.2.src = none ∧ o.1 < o.2.src := by
  induction l with
  | nil => simp [Clear]
  | cons o l ih =>
    obtain ⟨k, pm⟩ := o
    rw [Clear, ih]
    cases ho : t.orphan pm with
    | false =>
      rw [List.filter_cons_of_neg (by simp [ho])]
      simp
    | true =>
      rw [List.filter_cons_of_pos (by simp [ho]), List.pairwise_cons, List.forall_mem_cons]
      simp only [List.mem_filter, true_imp_iff, and_imp]
      constructor
      · rintro ⟨⟨h₁, h₂, h₃⟩, h₄, h₅⟩
        exact ⟨⟨h₃, h₄⟩, ⟨h₁, h₂⟩, h₅⟩
      · rintro ⟨⟨h₃, h₄⟩, ⟨h₁, h₂⟩, h₅⟩
        exact ⟨⟨h₁, h₂, h₃⟩, h₄, h₅⟩

theorem noticesApart_iff (s : PeerServer) : NoticesApart s ↔ Clear s (s.pendingAfter none) :=
  (clear_iff _).symm

theorem Clear.mono {l : List (Bytes × PeerMessage)} (h : Clear t l) (hp : t'.peers_ = t.peers_)
    (hq : ∀ o ∈ l, t.orphan o.2 = true → t.getPeerMessages o.2.src = none →
      t'.getPeerMessages o.2.src = none) : Clear t' l := by
  induction l with
  | nil => trivial
  | cons o l ih =>
    obtain ⟨k, pm⟩ := o
    obtain ⟨h₁, h₂⟩ := h
    rw [Clear, orphan_congr hp]
    refine ⟨fun ho => ?_, ih h₂ fun o' ho' => hq o' (List.mem_cons_of_mem _ ho')⟩
    obtain ⟨hnone, hlt, hapart⟩ := h₁ ho
    exact ⟨hq (k, pm) List.mem_cons_self ho hnone, hlt, hapart⟩

def withQueue (t : PeerServer) (id : Bytes) : PeerServer :=
  { t with outstandings_ := t.outstandings_.insert id (some []) }

theorem notice_new {pm : PeerMessage} (hpm : isStored pm = true) (ho : t.orphan pm = true)
    (hq : t.getPeerMessages pm.src = none) :
    t.handleTransmission (notice pm) = .ok (t.withQueue pm.src) := by
  rw [notice_orphan hpm ho]
  unfold addPeerMessages
  rw [hq]
  rfl

theorem withQueue_pending (t : PeerServer) (id : Bytes) (last : Option Bytes) :
    (t.withQueue id).pendingAfter last = t.pendingAfter last := by
  unfold pendingAfter withQueue
  rcases StdMap.insert_split t.outstandings_ id (some []) with h | ⟨before, after, h₁, h₂⟩
  · rw [h]
  · simp only [h₁, h₂, List.flatMap_append, List.flatMap_cons]
    simp

theorem withQueue_none {id id' : Bytes} (h : t.getPeerMessages id' = none)
    (hne : iequals id id' = false) : (t.withQueue id).getPeerMessages id' = none := by
  rw [getPeerMessages_none] at *
  intro e he
  rcases StdMap.mem_insert he with rfl | he
  · rw [iequals_comm]
    exact hne
  · exact h e he

/-- What the queue being visited does to the others while its notices make new queues. -/
structure Grows (k : Bytes) (t t' : PeerServer) : Prop where
  pending : ∀ last, t'.pendingAfter last = t.pendingAfter last
  entries : ∀ e ∈ t'.outstandings_.entries, e ∈ t.outstandings_.entries ∨ e.2 ≠ none ∧ k < e.1

theorem Grows.trans {k : Bytes} {t'' : PeerServer} (h : Grows k t t') (h' : Grows k t' t'') :
    Grows k t t'' where
  pending last := (h'.pending last).trans (h.pending last)
  entries e he := (h'.entries e he).elim (h.entries e) .inr

theorem fold_clear {k : Bytes} {l : List PeerMessage} {rest : List (Bytes × PeerMessage)}
    (h : Midway s t) (hl : ∀ pm ∈ l, isStored pm = true)
    (hc : Clear t (l.map (k, ·) ++ rest)) :
    ∃ t', l.foldlM (fun s pm => s.handleTransmission (notice pm)) t = .ok t' ∧ Grows k t t' ∧
      Clear t' rest := by
  induction l generalizing t with
  | nil => exact ⟨t, rfl, ⟨fun _ => rfl, fun _ he => .inl he⟩, hc⟩
  | cons pm l ih =>
    obtain ⟨hpm, hl⟩ := List.forall_mem_cons.mp hl
    obtain ⟨hnew, hc⟩ := hc
    cases ho : t.orphan pm with
    | false =>
      obtain ⟨m, h₁⟩ := notice_served h.peers h.tidy.attended hpm ho
      have hc₁ : Clear { t with sessions := m } (l.map (k, ·) ++ rest) :=
        hc.mono rfl fun _ _ _ hnone => hnone
      obtain ⟨t', h₂, hg, hrest⟩ := ih (h.handle hpm h₁) hl hc₁
      refine ⟨t', ?_, ⟨hg.pending, hg.entries⟩, hrest⟩
      rw [List.foldlM_cons, h₁]
      exact h₂
    | true =>
      obtain ⟨hnone, hlt, hapart⟩ := hnew ho
      have h₁ := notice_new hpm ho hnone
      have hc₁ : Clear (t.withQueue pm.src) (l.map (k, ·) ++ rest) :=
        hc.mono rfl fun o hmem horphan hn => withQueue_none hn (hapart o hmem horphan)
      obtain ⟨t', h₂, hg, hrest⟩ := ih (h.handle hpm h₁) hl hc₁
      refine ⟨t', ?_, Grows.trans ⟨withQueue_pending t pm.src, fun e he => ?_⟩ hg, hrest⟩
      · rw [List.foldlM_cons, h₁]
        exact h₂
      · rcases StdMap.mem_insert he with rfl | he
        · exact .inr ⟨by simp, hlt⟩
        · exact .inl he

/-- Where the notices get new queues behind their messages', the pass is clean. -/
theorem passFrom_clear {depth : Nat} {last : Option Bytes} (h : Midway s t)
    (hd : t.weightAfter last < depth)
    (hq : ∀ e ∈ t.outstandings_.entries, last.all (· < e.1) = true → e.2 ≠ none)
    (hc : Clear t (t.pendingAfter last)) :
    ∃ visited t', t.passFrom depth last = .ok (visited, t') ∧
      visited.flatMap (fun v => v.2.map (v.1, ·)) = t.pendingAfter last ∧
      ∀ k ∈ t'.outstandings_.keys, k ∈ visited.map Prod.fst ∨
        k ∈ t.outstandings_.keys ∧ last.all (· < k) = false := by
  induction depth generalizing t last with
  | zero => omega
  | succ depth ih =>
    unfold passFrom
    cases hfind : t.outstandings_.entries.find? fun e => last.all (· < e.1) with
    | none =>
      have hbefore : ∀ e ∈ t.outstandings_.entries, last.all (· < e.1) = false := by
        simpa using hfind
      refine ⟨[], t, rfl, ?_, fun k hk => .inr ⟨hk, ?_⟩⟩
      · refine (List.flatMap_eq_nil_iff.mpr fun e he => ?_).symm
        rw [hbefore e he]
        rfl
      · obtain ⟨e, he, rfl⟩ := List.mem_map.mp hk
        exact hbefore e he
    | some e =>
      obtain ⟨dst, q⟩ := e
      have hmem : (dst, q) ∈ t.outstandings_.entries := List.mem_of_find?_eq_some hfind
      obtain ⟨-, -, -, hlast, -, -⟩ := find_first hfind
      cases q with
      | none => exact absurd rfl (hq _ hmem hlast)
      | some pending =>
        have hstored := h.tidy.stored _ hmem pending rfl
        have hfirst := pendingAfter_first hfind
        have hweight := weightAfter_first hfind
        have hm := h.release dst
        have hc₀ : Clear (t.release dst) (pending.map (dst, ·) ++
            (t.release dst).pendingAfter (some dst)) := by
          rw [← hfirst]
          refine hc.mono rfl fun o _ _ hnone => ?_
          rw [getPeerMessages_isNone_keys, release_keys]
          exact getPeerMessages_isNone_keys.mp hnone
        obtain ⟨t₁, h₁, hg, hrest⟩ := fold_clear hm hstored hc₀
        obtain ⟨hm₁, hkeys⟩ := hm.fold hstored h₁
        obtain ⟨-, hw⟩ := fold_weight hm.peers (some dst) h₁
        have hq₁ : ∀ e ∈ t₁.outstandings_.entries, (some dst).all (· < e.1) = true →
            e.2 ≠ none := by
          intro e he hlt
          have hlt' : dst < e.1 := by simpa using hlt
          rcases hg.entries e he with he | ⟨hne, -⟩
          · rcases mem_release he with ⟨he, -⟩ | rfl
            · exact hq e he (all_lt_trans hlast hlt')
            · exact absurd hlt' (lt_irrefl _)
          · exact hne
        rw [← hg.pending] at hrest
        obtain ⟨visited, t', h₂, hvisited, hall⟩ := ih hm₁ (by omega) hq₁ hrest
        refine ⟨(dst, pending) :: visited, t', ?_, ?_, fun k hk => ?_⟩
        · dsimp only
          rw [h₁, ok_bind, h₂]
          rfl
        · rw [List.flatMap_cons, hvisited, hg.pending, hfirst]
        · rw [List.map_cons, List.mem_cons]
          rcases hall k hk with hk | ⟨hk, hle⟩
          · exact .inl (.inr hk)
          · obtain ⟨e, he, rfl⟩ := List.mem_map.mp hk
            rcases hg.entries e he with he | ⟨-, hlt⟩
            · rcases mem_release he with ⟨he, hne⟩ | rfl
              · refine .inr ⟨List.mem_map.mpr ⟨e, he, rfl⟩, ?_⟩
                rcases first_cases hfind he with hbefore | rfl | hlt
                · exact hbefore
                · exact absurd rfl hne
                · simp [hlt] at hle
              · exact .inl (.inl rfl)
            · simp [hlt] at hle

/-! ### Released queues -/

/-- The notice for the message goes to a queue that has been released. -/
structure Dead (t : PeerServer) (pm : PeerMessage) : Prop where
  orphan : t.orphan pm = true
  released : t.getPeerMessages pm.src = some none

theorem Dead.error {pm : PeerMessage} (h : Dead t pm) (hpm : isStored pm = true) :
    t.handleTransmission (notice pm) = .error .freed := by
  rw [notice_orphan hpm h.orphan]
  unfold addPeerMessages
  rw [h.released]

/-- Nothing brings a released queue back. -/
theorem addPeerMessages_released {id id' : Bytes} {m : PeerMessage}
    (h : t.getPeerMessages id' = some none) (ha : t.addPeerMessages id m = .ok t') :
    t'.getPeerMessages id' = some none := by
  have hne {q : Option Queue} (hq : t.getPeerMessages id = q) (hqn : q ≠ some none) :
      iequals id' id = false := by
    cases hi : iequals id' id
    · rfl
    · rw [← getPeerMessages_congr hi, h] at hq
      exact absurd hq.symm hqn
  unfold addPeerMessages at ha
  cases hq : t.getPeerMessages id with
  | none =>
    rw [hq] at ha
    cases ha
    unfold getPeerMessages
    rw [StdMap.scan_insert_other _ (hne hq (by simp))]
    exact h
  | some q =>
    rw [hq] at ha
    cases q with
    | none => cases ha
    | some messages =>
      cases ha
      unfold getPeerMessages
      rw [StdMap.scan_modifyFirst_other _ fun k hk => iequals_disjoint (hne hq (by simp)) k hk]
      exact h

theorem Dead.handle {pm m : PeerMessage} (h : Dead t pm) (hm : Midway s t)
    (hstored : isStored m = true) (ht : t.handleTransmission (notice m) = .ok t') : Dead t' pm := by
  have hp := (hm.handle hstored ht).retains.peers.trans hm.retains.peers.symm
  refine ⟨by rw [orphan_congr hp]; exact h.orphan, ?_⟩
  rcases handleTransmission_cases hm.peers ht with ⟨-, m, rfl⟩ | ⟨-, -, ha⟩ | ⟨-, -, rfl | rfl⟩
  · exact h.released
  · exact addPeerMessages_released h.released ha
  · exact h.released
  · exact h.released

theorem fold_dead {l : List PeerMessage} {pm : PeerMessage} (h : Midway s t)
    (hl : ∀ m ∈ l, isStored m = true) (hpm : pm ∈ l) (hd : Dead t pm) :
    l.foldlM (fun s pm => s.handleTransmission (notice pm)) t ≠ .ok t' := by
  intro hf
  induction l generalizing t with
  | nil => cases hpm
  | cons m l ih =>
    obtain ⟨hm, hl⟩ := List.forall_mem_cons.mp hl
    rw [List.foldlM_cons] at hf
    obtain ⟨t₁, h₁, hf⟩ := bind_eq_ok.mp hf
    rcases List.mem_cons.mp hpm with rfl | hpm
    · rw [hd.error hm] at h₁
      cases h₁
    · exact ih (h.handle hm h₁) hl hpm (hd.handle h hm h₁) hf

/-- The queue that a message goes into has it then, and the others stay. -/
theorem addPeerMessages_appends {id : Bytes} {m : PeerMessage} {f : Bytes × Queue}
    {messages : List PeerMessage} (hf : t.outstandings_.scan (iequals id) = some f)
    (hv : f.2 = some messages) (ha : t.addPeerMessages id m = .ok t') :
    (f.1, some (messages ++ [m])) ∈ t'.outstandings_.entries ∧
      ∀ e ∈ t.outstandings_.entries, e = f ∨ e ∈ t'.outstandings_.entries := by
  have hq : t.getPeerMessages id = some (some messages) := by
    rw [getPeerMessages, hf, Option.map_some, hv]
  obtain ⟨before, after, h₁, h₂⟩ := StdMap.modifyFirst_split
    (fun _ => (some (messages ++ [m]) : Queue)) hf
  unfold addPeerMessages at ha
  rw [hq] at ha
  cases ha
  change _ ∈ (t.outstandings_.modifyFirst _ _).entries ∧
    ∀ e ∈ t.outstandings_.entries, e = f ∨ e ∈ (t.outstandings_.modifyFirst _ _).entries
  rw [h₁, h₂]
  refine ⟨List.mem_append_right _ List.mem_cons_self, fun e he => ?_⟩
  rcases List.mem_append.mp he with he | he
  · exact .inr (List.mem_append_left _ he)
  · exact (List.mem_cons.mp he).imp_right fun he =>
      List.mem_append_right _ (List.mem_cons_of_mem _ he)

/-- A queue that is still to be visited holds a message whose notice goes to a released one. -/
def Doomed (t : PeerServer) (last : Option Bytes) : Prop :=
  ∃ e ∈ t.outstandings_.entries, last.all (· < e.1) = true ∧ ∃ l, e.2 = some l ∧ ∃ pm ∈ l, Dead t pm

theorem Doomed.handle {m : PeerMessage} {last : Option Bytes} (h : Doomed t last) (hm : Midway s t)
    (hstored : isStored m = true) (ht : t.handleTransmission (notice m) = .ok t') :
    Doomed t' last := by
  obtain ⟨e, he, hlast, l, hl, pm, hpm, hd⟩ := h
  have hd' := hd.handle hm hstored ht
  rcases handleTransmission_cases hm.peers ht with ⟨-, m, rfl⟩ | ⟨-, -, ha⟩ | ⟨-, -, rfl | rfl⟩
  · exact ⟨e, he, hlast, l, hl, pm, hpm, hd'⟩
  · have hadd := ha
    unfold PeerServer.addPeerMessages at ha
    split at ha
    · cases ha
      exact ⟨e, StdMap.mem_insert_of_mem _ _ he, hlast, l, hl, pm, hpm, hd'⟩
    · cases ha
    · rename_i messages hq
      obtain ⟨f, hf, hv : f.2 = some messages⟩ := Option.map_eq_some_iff.mp hq
      obtain ⟨hmem, hothers⟩ := addPeerMessages_appends hf hv hadd
      rcases hothers e he with rfl | he
      · refine ⟨_, hmem, hlast, _, rfl, pm, ?_, hd'⟩
        rw [hl] at hv
        cases hv
        exact List.mem_append_left _ hpm
      · exact ⟨e, he, hlast, l, hl, pm, hpm, hd'⟩
  · exact ⟨e, he, hlast, l, hl, pm, hpm, hd'⟩
  · exact ⟨e, he, hlast, l, hl, pm, hpm, hd'⟩

theorem Doomed.fold {l : List PeerMessage} {last : Option Bytes} (h : Doomed t last)
    (hm : Midway s t) (hl : ∀ m ∈ l, isStored m = true)
    (hf : l.foldlM (fun s pm => s.handleTransmission (notice pm)) t = .ok t') : Doomed t' last :=
  (foldlM_keeps (I := fun u => Midway s u ∧ Doomed u last) (fun _ _ m hmem hu hstep =>
    ⟨hu.1.handle (hl m hmem) hstep, hu.2.handle hu.1 (hl m hmem) hstep⟩) ⟨hm, h⟩ hf).2

/-- A doomed pass does not come to its end. -/
theorem doomed_pass {depth : Nat} {last : Option Bytes}
    {r : List (Bytes × List PeerMessage) × PeerServer} (h : Midway s t) (hd : Doomed t last) :
    t.passFrom depth last ≠ .ok r := by
  intro hp
  induction depth generalizing t last r with
  | zero => cases hp
  | succ depth ih =>
    obtain ⟨e, he, hlast, l, hl, pm, hpm, hdead⟩ := hd
    unfold passFrom at hp
    split at hp
    · rename_i hfind
      rw [List.find?_eq_none] at hfind
      exact hfind e he hlast
    · cases hp
    · rename_i dst pending hfind
      obtain ⟨t₁, h₁, hp⟩ := bind_eq_ok.mp hp
      obtain ⟨⟨rest, t₂⟩, h₂, -⟩ := bind_eq_ok.mp hp
      have hmem : (dst, some pending) ∈ t.outstandings_.entries := List.mem_of_find?_eq_some hfind
      have hstored := h.tidy.stored _ hmem pending rfl
      have hdead' : Dead (t.release dst) pm := ⟨hdead.orphan, getPeerMessages_release hdead.released⟩
      by_cases hk : e.1 = dst
      · -- the queue with the message is visited now
        have heq := StdMap.eq_of_key_eq he hmem hk
        rw [heq] at hl
        cases hl
        exact fold_dead (h.release dst) hstored hpm hdead' h₁
      · have hlt : dst < e.1 := by
          rcases first_cases hfind he with hbefore | rfl | hlt
          · rw [hbefore] at hlast
            cases hlast
          · exact absurd rfl hk
          · exact hlt
        have hd₀ : Doomed (t.release dst) (some dst) :=
          ⟨e, mem_release_of_ne he hk, by simpa using hlt, l, hl, pm, hpm, hdead'⟩
        exact ih ((h.release dst).fold hstored h₁).1 (hd₀.fold (h.release dst) hstored h₁) h₂

/-! ### What a clean pass tells -/

/-- A notice that waits behind the key: its own notice comes back to the key. -/
theorem doomed_of_waiting {k : Bytes} {pm : PeerMessage} {messages : List PeerMessage}
    (hpm : isStored pm = true) (hunknown : t.getPeer pm.dst = none)
    (hreleased : t.getPeerMessages pm.dst = some none)
    (hgone : ∀ e ∈ t.outstandings_.entries, ¬ k < e.1 → e.2 = none)
    (hq : t.getPeerMessages pm.src = some (some messages))
    (ha : t.addPeerMessages pm.src (notice pm) = .ok t') : Doomed t' (some k) := by
  obtain ⟨f, hf, hv : f.2 = some messages⟩ := Option.map_eq_some_iff.mp hq
  have hlt : k < f.1 := by
    by_contra hle
    rw [hgone f (StdMap.scan_some hf).1 hle] at hv
    cases hv
  have hdead : Dead t' (notice pm) := by
    refine ⟨?_, addPeerMessages_released hreleased ha⟩
    obtain ⟨o, rfl⟩ := addPeerMessages_frame ha
    simp only [orphan, notice, Bool.and_eq_true, Option.isNone_iff_eq_none, Bool.not_eq_true']
    exact ⟨hunknown, (isStored_type hpm).2.2⟩
  exact ⟨_, (addPeerMessages_appends hf hv ha).1, by simpa using hlt, _, rfl, notice pm,
    List.mem_append_right _ List.mem_cons_self, hdead⟩

/-- A queue that is being visited: its messages are for a key that is released. -/
theorem fold_tells {k : Bytes} {l : List PeerMessage} (h : Midway s t)
    (hl : ∀ pm ∈ l, isStored pm = true)
    (hk : ∀ pm ∈ l, t.getPeer pm.dst = none ∧ t.getPeerMessages pm.dst = some none)
    (hgone : ∀ e ∈ t.outstandings_.entries, ¬ k < e.1 → e.2 = none)
    (hf : l.foldlM (fun s pm => s.handleTransmission (notice pm)) t = .ok t')
    (hbehind : ∀ x ∈ t'.outstandings_.keys, x ∈ t.outstandings_.keys ∨ k < x)
    (hdoom : ¬ Doomed t' (some k)) :
    t'.pendingAfter (some k) = t.pendingAfter (some k) ∧
      (∀ e ∈ t'.outstandings_.entries, ¬ k < e.1 → e.2 = none) ∧
      ∀ rest, Clear t' rest → Clear t (l.map (k, ·) ++ rest) := by
  induction l generalizing t with
  | nil =>
    cases hf
    exact ⟨rfl, hgone, fun _ hc => hc⟩
  | cons pm l ih =>
    obtain ⟨hpm, hl'⟩ := List.forall_mem_cons.mp hl
    obtain ⟨⟨hunknown, hreleased⟩, hk'⟩ := List.forall_mem_cons.mp hk
    rw [List.foldlM_cons] at hf
    obtain ⟨t₁, h₁, hf⟩ := bind_eq_ok.mp hf
    have hm₁ := h.handle hpm h₁
    cases ho : t.orphan pm with
    | false =>
      obtain ⟨m, hserved⟩ := notice_served h.peers h.tidy.attended hpm ho
      cases hserved.symm.trans h₁
      obtain ⟨hpending, hgone', hclear⟩ := ih hm₁ hl' hk' hgone hf hbehind
      refine ⟨hpending, hgone', fun rest hc => ⟨fun hpos => ?_, ?_⟩⟩
      · rw [ho] at hpos
        cases hpos
      · exact (hclear rest hc).mono rfl fun _ _ _ hnone => hnone
    | true =>
      rw [notice_orphan hpm ho] at h₁
      cases hq : t.getPeerMessages pm.src with
      | none =>
        have hnew : t₁ = t.withQueue pm.src := by
          have hn := notice_new hpm ho hq
          rw [notice_orphan hpm ho] at hn
          exact Except.ok.inj (h₁.symm.trans hn)
        subst hnew
        have hkeys := ((h.handle hpm (notice_new hpm ho hq)).fold hl' hf).2
        have hmem : pm.src ∈ (t.withQueue pm.src).outstandings_.keys :=
          StdMap.mem_keys_insert _ |>.mpr (.inl rfl)
        have hfresh : pm.src ∉ t.outstandings_.keys := by
          intro hin
          have hno := getPeerMessages_isNone_keys.mp hq _ hin
          rw [iequals_refl] at hno
          cases hno
        have hlt : k < pm.src := (hbehind _ (hkeys _ hmem)).resolve_left hfresh
        have hreleased' : ∀ pm' ∈ l, (t.withQueue pm.src).getPeer pm'.dst = none ∧
            (t.withQueue pm.src).getPeerMessages pm'.dst = some none :=
          fun pm' hpm' => ⟨(hk' pm' hpm').1, addPeerMessages_released (hk' pm' hpm').2 h₁⟩
        have hgone' : ∀ e ∈ (t.withQueue pm.src).outstandings_.entries, ¬ k < e.1 → e.2 = none := by
          intro e he hle
          rcases StdMap.mem_insert he with rfl | he
          · exact absurd hlt hle
          · exact hgone e he hle
        have hbehind' : ∀ x ∈ t'.outstandings_.keys,
            x ∈ (t.withQueue pm.src).outstandings_.keys ∨ k < x := fun x hx =>
          (hbehind x hx).imp_left fun hin => StdMap.mem_keys_insert _ |>.mpr (.inr hin)
        obtain ⟨hpending, hgone'', hclear⟩ := ih hm₁ hl' hreleased' hgone' hf hbehind'
        refine ⟨hpending.trans (withQueue_pending t pm.src _), hgone'', fun rest hc => ?_⟩
        have hrest := hclear rest hc
        refine ⟨fun _ => ⟨hq, hlt, fun o hmem' horphan => ?_⟩, hrest.mono rfl fun o _ _ hnone => ?_⟩
        · have hnone := ((clear_iff _).mp hrest).2 o
            (List.mem_filter.mpr ⟨hmem', horphan⟩)
          rw [iequals_comm]
          exact getPeerMessages_isNone_keys.mp hnone.1 _ hmem
        · rw [getPeerMessages_isNone_keys] at hnone ⊢
          exact fun x hx => hnone x (StdMap.mem_keys_insert _ |>.mpr (.inr hx))
      | some q =>
        cases q with
        | none =>
          unfold addPeerMessages at h₁
          rw [hq] at h₁
          cases h₁
        | some messages =>
          have hdoomed := doomed_of_waiting hpm hunknown hreleased hgone hq h₁
          exact absurd (hdoomed.fold hm₁ hl' hf) hdoom

/-- The messages of a queue that is released are for its key. -/
theorem Midway.released (h : Midway s t) {dst : Bytes} {pending : List PeerMessage}
    (hmem : (dst, some pending) ∈ t.outstandings_.entries) :
    ∀ pm ∈ pending, (t.release dst).getPeer pm.dst = none ∧
      (t.release dst).getPeerMessages pm.dst = some none := by
  intro pm hpm
  have hdst : iequals dst pm.dst = true := h.matched _ hmem pending rfl pm hpm
  rw [← getPeer_congr hdst, ← getPeerMessages_congr hdst]
  refine ⟨h.tidy.unregistered _ hmem, ?_⟩
  cases hq : (t.release dst).getPeerMessages dst with
  | none =>
    have hin : dst ∈ (t.release dst).outstandings_.keys := by
      rw [release_keys]
      exact List.mem_map.mpr ⟨_, hmem, rfl⟩
    have hno := getPeerMessages_isNone_keys.mp hq dst hin
    rw [iequals_refl] at hno
    cases hno
  | some q =>
    obtain ⟨f, hf, rfl⟩ := Option.map_eq_some_iff.mp hq
    obtain ⟨hf, hkey⟩ := StdMap.scan_some hf
    rcases mem_release hf with ⟨hf, hne⟩ | rfl
    · exact absurd (congrArg Prod.fst (h.tidy.apart _ hmem f hf hkey)).symm hne
    · rfl

/-- A pass that comes to its end and has visited all queues: the notices got new queues behind
their messages'. -/
theorem clear_of_pass {depth : Nat} {last : Option Bytes}
    {visited : List (Bytes × List PeerMessage)} (h : Midway s t)
    (hgone : ∀ e ∈ t.outstandings_.entries, last.all (· < e.1) = false → e.2 = none)
    (hp : t.passFrom depth last = .ok (visited, t'))
    (hall : ∀ x ∈ t'.outstandings_.keys, x ∈ visited.map Prod.fst ∨
      x ∈ t.outstandings_.keys ∧ last.all (· < x) = false) : Clear t (t.pendingAfter last) := by
  induction depth generalizing t last visited with
  | zero => cases hp
  | succ depth ih =>
    unfold passFrom at hp
    split at hp
    · rename_i hfind
      have hbefore : ∀ e ∈ t.outstandings_.entries, last.all (· < e.1) = false := by
        simpa using hfind
      have hnil : t.pendingAfter last = [] := List.flatMap_eq_nil_iff.mpr fun e he => by
        rw [hbefore e he]
        rfl
      rw [hnil]
      trivial
    · cases hp
    · rename_i dst pending hfind
      obtain ⟨t₁, h₁, hp⟩ := bind_eq_ok.mp hp
      obtain ⟨⟨rest, t₂⟩, h₂, hp⟩ := bind_eq_ok.mp hp
      cases hp
      obtain ⟨-, -, -, hlast, -, -⟩ := find_first hfind
      have hmem : (dst, some pending) ∈ t.outstandings_.entries := List.mem_of_find?_eq_some hfind
      have hstored := h.tidy.stored _ hmem pending rfl
      have hm := h.release dst
      obtain ⟨hm₁, hkeys⟩ := hm.fold hstored h₁
      obtain ⟨hrest, -, hthere, hgrow⟩ := passFrom_visits hm₁ h₂
      have hdst : dst ∈ t.outstandings_.keys := List.mem_map.mpr ⟨_, hmem, rfl⟩
      have hinto {x : Bytes} (hx : x ∈ t.outstandings_.keys) : x ∈ t₁.outstandings_.keys :=
        hkeys x (by rwa [release_keys])
      -- every queue that is there after the visit is one of before, or comes behind
      have hbehind : ∀ x ∈ t₁.outstandings_.keys, x ∈ (t.release dst).outstandings_.keys ∨
          dst < x := by
        intro x hx
        rw [release_keys]
        rcases hall x (hgrow x hx) with hx | ⟨hx, -⟩
        · rcases List.mem_cons.mp hx with rfl | hx
          · exact .inl hdst
          · exact .inr (by simpa using hrest x hx)
        · exact .inl hx
      have hgone₀ : ∀ e ∈ (t.release dst).outstandings_.entries, ¬ dst < e.1 → e.2 = none := by
        intro e he hle
        rcases mem_release he with ⟨he, hne⟩ | rfl
        · refine hgone e he ?_
          rcases first_cases hfind he with hbefore | rfl | hlt
          · exact hbefore
          · exact absurd rfl hne
          · exact absurd hlt hle
        · rfl
      have hdoom : ¬ Doomed t₁ (some dst) := fun hd => doomed_pass hm₁ hd h₂
      obtain ⟨hpending, hgone₁, hclear⟩ := fold_tells hm hstored
        (h.released hmem) hgone₀ h₁ hbehind hdoom
      have hall₁ : ∀ x ∈ t'.outstandings_.keys, x ∈ rest.map Prod.fst ∨
          x ∈ t₁.outstandings_.keys ∧ (some dst).all (· < x) = false := by
        intro x hx
        rcases hall x hx with hx | ⟨hx, hle⟩
        · rcases List.mem_cons.mp hx with rfl | hx
          · exact .inr ⟨hinto hdst, by simp⟩
          · exact .inl hx
        · refine .inr ⟨hinto hx, ?_⟩
          have hle' : ¬ dst < x := fun hlt => by
            rw [all_lt_trans hlast hlt] at hle
            cases hle
          simpa using hle'
      have hc := hclear _ (ih hm₁ (fun e he hle => hgone₁ e he (by simpa using hle)) h₂ hall₁)
      rw [pendingAfter_first hfind, ← hpending]
      refine hc.mono rfl fun o _ _ hnone => ?_
      rw [getPeerMessages_isNone_keys] at *
      rwa [release_keys] at hnone

/-- A pass over the queues of a reachable state is clean exactly when every notice that is
stored makes a queue of its own, behind the queue of the message it is for. -/
theorem clean_pass_iff (h : Reachable s) : CleanPass s ↔ NoticesApart s := by
  have hm := Midway.start h.sound h.tidy
  rw [noticesApart_iff]
  constructor
  · rintro ⟨visited, t, hp, -, -, hkeys, -⟩
    exact clear_of_pass hm (fun e _ hle => by cases hle) hp fun x hx => .inl ((hkeys x).mp hx)
  · intro hc
    have hqueues : ∀ e ∈ s.outstandings_.entries, (none : Option Bytes).all (· < e.1) = true →
        e.2 ≠ none := by
      intro e he _ hnone
      obtain ⟨l, hl, -⟩ := h.sound.queues e he
      rw [hnone] at hl
      cases hl
    obtain ⟨visited, t, hp, hhandled, hall⟩ :=
      passFrom_clear hm (Nat.lt_succ_self s.queued) hqueues hc
    obtain ⟨-, hsorted, hthere, -⟩ := passFrom_visits hm hp
    refine ⟨visited, t, hp, hhandled, hsorted.imp ne_of_lt, fun k => ⟨fun hk => ?_, hthere k⟩, ?_⟩
    · rcases hall k hk with hk | ⟨-, hno⟩
      · exact hk
      · cases hno
    · change (s.cleanupFrom (s.queued + 1) none >>= _) = _
      rw [cleanupFrom_eq, hp]
      rfl

/-- `c` connects, and offers to the absent `b` more than once; the first offer makes the queue. -/
def offersOfC : List Event :=
  [.connect (some (peerUrl (str "c") (str "t"))), .message 0 offerTo, .message 0 offerTo,
    .message 0 offerTo]

theorem clean_pass_iff_offers : ∃ s, start.run offersOfC = .ok s ∧
    (CleanPass s ↔ NoticesApart s) := by
  obtain ⟨s, hs⟩ : ∃ s, start.run offersOfC = .ok s := ⟨_, rfl⟩
  exact ⟨s, hs, clean_pass_iff ⟨_, hs⟩⟩

/-- `c` has gone when its two offers expire: the first notice makes a queue, the second waits
in it, and its own notice goes to the queue of `b`, which is deleted. -/
theorem gone_source_freed : ∃ s, start.run (offersOfC ++ [.closed 0]) = .ok s ∧
    s.handleCleanupIntervals = .error .freed ∧ ¬ CleanPass s := by
  obtain ⟨s, hs, hf⟩ : ∃ s, start.run (offersOfC ++ [.closed 0]) = .ok s ∧
    s.handleCleanupIntervals = .error .freed := ⟨_, rfl, rfl⟩
  refine ⟨s, hs, hf, ?_⟩
  rintro ⟨visited, t, -, -, -, -, hok⟩
  rw [hf] at hok
  cases hok

end Flingd.Peers.PeerServer
