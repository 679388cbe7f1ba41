import Flingd.Peers.Mailboxes

/-! Who may speak and listen for an id: the websockets that named it when they connected, with
the token it was registered with. -/
namespace Flingd.Peers.PeerServer
open Http Outcome Ledger
variable {s s' : PeerServer} {es : List Event} {e : Event}

/-! ### What the connections said -/

/-- The URLs of the connections of a run. Sessions are numbered as they connect. -/
def connections (es : List Event) : List (Option Url) :=
  es.filterMap fun
    | .connect url => some url
    | _ => none

def named (es : List Event) (i : Nat) (key : Bytes) : Bytes :=
  queried ((connections es)[i]?.join) key

theorem connections_append (es fs : List Event) :
    connections (es ++ fs) = connections es ++ connections fs :=
  List.filterMap_append

theorem named_append {i : Nat} (h : i < (connections es).length) (fs : List Event) (key : Bytes) :
    named (es ++ fs) i key = named es i key := by
  rw [named, connections_append, List.getElem?_append_left h]
  rfl

theorem named_connect (es : List Event) (url : Option Url) (key : Bytes) :
    named (es ++ [.connect url]) (connections es).length key = queried url key := by
  rw [named, connections_append, List.getElem?_append_right le_rfl, Nat.sub_self]
  rfl

/-! ### Refused websockets -/

theorem sendError_shut {i : Nat} {errType errMsg : Bytes}
    (h : s.sendError i errType errMsg = .ok s') : ¬ IsOpen s' i := by
  obtain ⟨s₁, -, h⟩ := bind_eq_ok.mp h
  obtain ⟨w, -, h⟩ := bind_eq_ok.mp h
  split at h
  · obtain ⟨w', -, rfl⟩ := updateSession_ok.mp h
    rintro ⟨w'', hw'', ho⟩
    rw [setSession_sessions] at hw''
    cases hw''
    cases ho
  · cases h

/-- A rival's websocket is closed before anything can come in on it. -/
theorem connectPeer_rival_shut {key id token : Bytes} {p : Peer} {ws : Nat}
    (hp : s.getPeer id = some p) (ht : iequals p.token token = false)
    (h : s.connectPeer ws key id token = .ok s') : ¬ IsOpen s' ws := by
  unfold connectPeer at h
  split at h
  · exact sendError_shut h
  · simp only [hp] at h
    obtain ⟨s₁, h₁, h⟩ := bind_eq_ok.mp h
    obtain ⟨⟨m, rfl⟩, -⟩ := resetSession_frame h₁
    have hget : PeerServer.getPeer { s.withPeer p.ptr fun p => { p with session := some ws } with
        sessions := m } id = some { p with session := some ws } := by
      refine (getPeer_withPeer p.ptr _ id).trans ?_
      rw [hp]
      simp
    unfold configureWs at h
    simp only [hget, ht, Bool.false_eq_true, not_false_eq_true, if_true] at h
    exact sendError_shut h

/-! ### Runs -/

/-- The sessions that are bound to registered peers named them, the open ones with the token. -/
structure Vouched (es : List Event) (s : PeerServer) : Prop where
  count : (connections es).length = s.nextSession
  older : ∀ i ptr, s.bindings i = some (some ptr) → ptr < s.nextPeer
  id : ∀ e ∈ s.peers_.entries, ∀ i, s.bindings i = some (some e.2.ptr) →
    iequals (named es i (str "id")) e.1 = true
  token : ∀ e ∈ s.peers_.entries, ∀ i, s.bindings i = some (some e.2.ptr) → IsOpen s i →
    iequals e.2.token (named es i (str "token")) = true

theorem vouched_start : Vouched [] start where
  count := rfl
  older _ _ h := by cases h
  id _ he := absurd he List.not_mem_nil
  token _ he := absurd he List.not_mem_nil

theorem bindings_lt (hw : Wired s) {i : Nat} {b : Option Nat} (h : s.bindings i = some b) :
    i < s.nextSession := by
  by_contra hle
  rw [hw.unused i (by omega)] at h
  cases h

/-- Peers and sessions are lost, and nothing connects. -/
theorem Vouched.lost (h : Vouched es s) (hc : connections (es ++ [e]) = connections es)
    (hn : s'.nextSession = s.nextSession) (hp : s'.nextPeer = s.nextPeer)
    (hpeers : ∀ e ∈ s'.peers_.entries, e ∈ s.peers_.entries)
    (hb : ∀ i b, s'.bindings i = some b → s.bindings i = some b)
    (hshuts : ∀ i, IsOpen s' i → IsOpen s i) : Vouched (es ++ [e]) s' where
  count := by rw [hc, hn, h.count]
  older i ptr hi := hp ▸ h.older i ptr (hb i _ hi)
  id e he i hi := by
    rw [named, hc]
    exact h.id e (hpeers e he) i (hb i _ hi)
  token e he i hi ho := by
    rw [named, hc]
    exact h.token e (hpeers e he) i (hb i _ hi) (hshuts i ho)

theorem Vouched.loses (h : Vouched es s) (hc : connections (es ++ [e]) = connections es)
    (hl : Loses s s') (hshuts : ∀ i, IsOpen s' i → IsOpen s i) : Vouched (es ++ [e]) s' :=
  h.lost hc hl.nextSession hl.nextPeer hl.peers (fun _ _ hi => hl.bindings ▸ hi) hshuts

/-- A session is new, and at most one peer is. -/
theorem Vouched.added {url : Option Url} {b : Option Nat} (h : Vouched es s)
    (hn : s'.nextSession = s.nextSession + 1) (hp : s.nextPeer ≤ s'.nextPeer)
    (hb : s'.bindings = Function.update s.bindings s.nextSession (some b)) (hw : Wired s)
    (hshuts : ∀ i, i ≠ s.nextSession → IsOpen s' i → IsOpen s i)
    (hold : ∀ e ∈ s'.peers_.entries, s.nextPeer ≤ e.2.ptr ∨ ∃ e₀ ∈ s.peers_.entries,
      e₀.1 = e.1 ∧ e₀.2.ptr = e.2.ptr ∧ e₀.2.token = e.2.token)
    (hnew : ∀ ptr, b = some ptr → ptr < s'.nextPeer ∧ ∀ e ∈ s'.peers_.entries, e.2.ptr = ptr →
      iequals (queried url (str "id")) e.1 = true ∧
      (IsOpen s' s.nextSession → iequals e.2.token (queried url (str "token")) = true)) :
    Vouched (es ++ [.connect url]) s' := by
  have hbound {i ptr : Nat} (hi : s'.bindings i = some (some ptr)) :
      i = s.nextSession ∧ b = some ptr ∨ i ≠ s.nextSession ∧ s.bindings i = some (some ptr) := by
    rw [hb] at hi
    by_cases hin : i = s.nextSession
    · rw [hin, Function.update_self] at hi
      exact .inl ⟨hin, Option.some.inj hi⟩
    · rw [Function.update_of_ne hin] at hi
      exact .inr ⟨hin, hi⟩
  have holder {e : Bytes × Peer} (he : e ∈ s'.peers_.entries) {i : Nat}
      (hi : s.bindings i = some (some e.2.ptr)) : ∃ e₀ ∈ s.peers_.entries,
      e₀.1 = e.1 ∧ e₀.2.token = e.2.token ∧ s.bindings i = some (some e₀.2.ptr) := by
    rcases hold e he with hle | ⟨e₀, h₀, hkey, hptr, htoken⟩
    · exact absurd (h.older i _ hi) (by omega)
    · exact ⟨e₀, h₀, hkey, htoken, hptr ▸ hi⟩
  have hkept {i : Nat} {b : Option Nat} (hi : s.bindings i = some b) (key : Bytes) :
      named (es ++ [.connect url]) i key = named es i key :=
    named_append (h.count ▸ bindings_lt hw hi) _ key
  refine ⟨?_, fun i ptr hi => ?_, fun e he i hi => ?_, fun e he i hi ho => ?_⟩
  · rw [connections_append, List.length_append, h.count, hn]
    rfl
  · rcases hbound hi with ⟨-, hptr⟩ | ⟨-, hi⟩
    · exact (hnew ptr hptr).1
    · exact (h.older i ptr hi).trans_le hp
  · rcases hbound hi with ⟨rfl, hptr⟩ | ⟨-, hi⟩
    · rw [← h.count, named_connect]
      exact ((hnew _ hptr).2 e he rfl).1
    · obtain ⟨e₀, h₀, hkey, -, hi₀⟩ := holder he hi
      rw [hkept hi, ← hkey]
      exact h.id e₀ h₀ i hi₀
  · rcases hbound hi with ⟨rfl, hptr⟩ | ⟨hin, hi⟩
    · rw [← h.count, named_connect]
      exact ((hnew _ hptr).2 e he rfl).2 ho
    · obtain ⟨e₀, h₀, -, htoken, hi₀⟩ := holder he hi
      rw [hkept hi, ← htoken]
      exact h.token e₀ h₀ i hi₀ (hshuts i hin ho)

theorem opened_shuts {i : Nat} (hi : i ≠ s.nextSession) (h : IsOpen s.opened i) : IsOpen s i := by
  obtain ⟨w, hw, ho⟩ := h
  refine ⟨w, ?_, ho⟩
  have hsame : s.opened.sessions i = s.sessions i := if_neg hi
  rwa [← hsame]

theorem Vouched.connect {url : Option Url} (h : Vouched es s) (hs : Settled s)
    (hc : s.connect url = .ok s') : Vouched (es ++ [.connect url]) s' := by
  have hopened : s.opened.bindings = Function.update s.bindings s.nextSession (some none) :=
    bindings_setSession s.nextSession (some ⟨true, none, []⟩)
  have hupdate (b : Option Nat) : Function.update s.opened.bindings s.nextSession (some b) =
      Function.update s.bindings s.nextSession (some b) := by
    rw [hopened, Function.update_idem]
  have hkept {e : Bytes × Peer} (he : e ∈ s.peers_.entries) : s.nextPeer ≤ e.2.ptr ∨
      ∃ e₀ ∈ s.peers_.entries, e₀.1 = e.1 ∧ e₀.2.ptr = e.2.ptr ∧ e₀.2.token = e.2.token :=
    .inr ⟨e, he, rfl, rfl, rfl⟩
  obtain ⟨out, hpass, -⟩ := connect_queue hs hc
  have hshuts (i : Nat) (hi : i ≠ s.nextSession) (ho : IsOpen s' i) : IsOpen s i :=
    opened_shuts hi (hpass.sends.shuts i ho)
  rcases connect_ok hc with rfl | ⟨u, rfl, -, hc⟩
  · exact h.added rfl le_rfl hopened hs.wired hshuts (fun e he => hkept he)
      (fun ptr hptr => by cases hptr)
  · have hrival := fun p hp ht => connectPeer_rival_shut (p := p) hp ht hc
    rcases connectPeer_cases hs.sound.opened hc with
      ⟨m, rfl, hb⟩ | ⟨-, m, ⟨-, rfl, hb⟩ | ⟨p, hp, hjoins, hb⟩⟩
    · exact h.added rfl le_rfl (hb.trans hopened) hs.wired hshuts (fun e he => hkept he)
        (fun ptr hptr => by cases hptr)
    · have hmem {e : Bytes × Peer} (he : e ∈ (s.opened.joined s.nextSession
          (queried (some u) (str "id")) (queried (some u) (str "token"))).peers_.entries) :
          e = (queried (some u) (str "id"), ⟨s.nextPeer, queried (some u) (str "id"),
            queried (some u) (str "token"), some s.nextSession, 1, 1⟩) ∨ e ∈ s.peers_.entries :=
        StdMap.mem_insert he
      refine h.added rfl (Nat.le_succ _) (hb.trans (hupdate _)) hs.wired hshuts (fun e he => ?_)
        (fun ptr hptr => ?_)
      · rcases hmem he with rfl | he
        · exact .inl le_rfl
        · exact hkept he
      · cases hptr
        refine ⟨Nat.lt_succ_self _, fun e he hptr => ?_⟩
        rcases hmem he with rfl | he
        · exact ⟨iequals_refl _, fun _ => iequals_refl _⟩
        · exact absurd hptr (Nat.ne_of_lt (hs.sound.peers.fresh e he))
    · obtain ⟨k, hk, hkey⟩ := getPeer_some hp
      have hk : (k, p) ∈ s.peers_.entries := hk
      -- the peer keeps its id, its pointer and its token
      have hmem : ∀ e ∈ s'.peers_.entries, ∃ e₀ ∈ s.peers_.entries,
          e₀.1 = e.1 ∧ e₀.2.ptr = e.2.ptr ∧ e₀.2.token = e.2.token := by
        intro e he
        rcases hjoins with rfl | rfl
        all_goals
          obtain ⟨e₀, h₀, rfl⟩ := List.mem_map.mp he
          refine ⟨e₀, h₀, rfl, ?_⟩
          dsimp only
          split <;> exact ⟨rfl, rfl⟩
      have hcount : s'.nextSession = s.nextSession + 1 ∧ s'.nextPeer = s.nextPeer := by
        rcases hjoins with rfl | rfl <;> exact ⟨rfl, rfl⟩
      refine h.added hcount.1 hcount.2.ge (hb.trans (hupdate _)) hs.wired hshuts
        (fun e he => .inr (hmem e he)) (fun ptr hptr => ?_)
      cases hptr
      refine ⟨hcount.2 ▸ hs.sound.peers.fresh _ hk, fun e he hptr => ?_⟩
      obtain ⟨e₀, h₀, hkey₀, hptr₀, htoken₀⟩ := hmem e he
      obtain rfl := hs.sound.peers.distinct e₀ h₀ (k, p) hk (hptr₀.trans hptr)
      rw [← hkey₀, ← htoken₀]
      refine ⟨hkey, fun ho => ?_⟩
      cases ht : iequals p.token (queried (some u) (str "token")) with
      | true => rfl
      | false => exact absurd ho (hrival p hp ht)

theorem Vouched.step (h : Vouched es s) (hs : Settled s) (hstep : s.step e = .ok s') :
    Vouched (es ++ [e]) s' := by
  have hquiet (hc : ∀ url, e ≠ .connect url) : connections (es ++ [e]) = connections es := by
    rw [connections_append]
    cases e with
    | connect url => exact absurd rfl (hc url)
    | message | closed | cleanup => exact List.append_nil _
  cases e with
  | connect url => exact h.connect hs hstep
  | message i d =>
    obtain ⟨out, hpass, -⟩ := message_passes hs hstep
    exact h.loses (hquiet (by simp)) (message_loses hs.sound hstep) hpass.sends.shuts
  | closed i =>
    obtain ⟨-, -, hshuts⟩ := closed_passes hstep
    obtain ⟨t, hl, rfl⟩ := closed_loses hstep
    refine h.lost (hquiet (by simp)) hl.nextSession hl.nextPeer hl.peers (fun j b hj => ?_) hshuts
    rw [bindings_setSession, hl.bindings] at hj
    by_cases hji : j = i
    · rw [hji, Function.update_self] at hj
      cases hj
    · rwa [Function.update_of_ne hji] at hj
  | cleanup =>
    obtain ⟨out, hpass, -⟩ := handleCleanupIntervals_passes hs hstep
    exact h.loses (hquiet (by simp)) (handleCleanupIntervals_loses hs.sound hstep) hpass.sends.shuts

theorem run_vouched (hrun : start.run es = .ok s) : Settled s ∧ Vouched es s := by
  induction es using List.reverseRecOn generalizing s with
  | nil =>
    cases hrun
    exact ⟨settled_start, vouched_start⟩
  | append_singleton es e ih =>
    obtain ⟨s₁, h₁, hstep⟩ := foldlM_append_ok.mp hrun
    obtain ⟨s₂, h₂, hstep⟩ := bind_eq_ok.mp (List.foldlM_cons.symm.trans hstep)
    cases hstep
    obtain ⟨hs, hv⟩ := ih h₁
    exact ⟨hs.step h₂, hv.step hs h₂⟩

/-! ### Who speaks -/

/-- A text comes in on a websocket that named the source of its message, with the token of the
peer that speaks. -/
def Spoken (es : List Event) (pm : PeerMessage) : Prop :=
  ∃ before i d after s p, es = before ++ .message i d :: after ∧ start.run before = .ok s ∧
    s.spoken (.message i d) = some (p, pm) ∧ iequals (named es i (str "id")) pm.src = true ∧
    iequals p.token (named es i (str "token")) = true

theorem relayed_src {p : Peer} {d : Option Document} {pm : PeerMessage}
    (h : relayed p d = some pm) : pm.src = p.id := by
  unfold relayed at h
  split at h
  · split at h
    · cases h
      rfl
    · cases h
  · cases h

theorem Vouched.spoken {i : Nat} {d : Option Document} {p : Peer} {pm : PeerMessage}
    (h : Vouched es s) (hs : Settled s) (hp : s.spoken (.message i d) = some (p, pm)) :
    i < (connections es).length ∧ iequals (named es i (str "id")) pm.src = true ∧
      iequals p.token (named es i (str "token")) = true := by
  unfold PeerServer.spoken speaker at hp
  match hw : s.sessions i with
  | none => simp [hw] at hp
  | some ⟨false, bound, sent⟩ => simp [hw] at hp
  | some ⟨true, none, sent⟩ => simp [hw] at hp
  | some ⟨true, some ptr, sent⟩ =>
    simp only [hw] at hp
    cases hd : s.deref ptr with
    | error f =>
      rw [hd] at hp
      cases hp
    | ok q =>
      rw [hd] at hp
      obtain ⟨pm', hpm, heq⟩ := Option.map_eq_some_iff.mp hp
      cases heq
      obtain ⟨k, hk, rfl⟩ := deref_ok hd
      have hb : s.bindings i = some (some p.ptr) := by rw [bindings, hw]; rfl
      rw [relayed_src hpm, ← hs.wired.keyed _ hk]
      exact ⟨h.count ▸ bindings_lt hs.wired hb, h.id _ hk i hb, h.token _ hk i hb ⟨_, hw, rfl⟩⟩

theorem Spoken.append {pm : PeerMessage} (h : Spoken es pm) (fs : List Event) :
    Spoken (es ++ fs) pm := by
  obtain ⟨before, i, d, after, s, p, rfl, hrun, hp, hid, htoken⟩ := h
  obtain ⟨hs, hv⟩ := run_vouched hrun
  have hlt : i < (connections (before ++ .message i d :: after)).length := by
    have hbefore := (hv.spoken hs hp).1
    rw [connections_append, List.length_append]
    omega
  refine ⟨before, i, d, after ++ fs, s, p, List.append_assoc _ _ _, hrun, hp, ?_⟩
  rw [named_append hlt, named_append hlt]
  exact ⟨hid, htoken⟩

theorem Vouched.heardFrom {i : Nat} {d : Option Document} {pm : PeerMessage} (h : Vouched es s)
    (hs : Settled s) (hrun : start.run es = .ok s)
    (hpm : pm ∈ s.handsIn (.message i d)) : Spoken (es ++ [.message i d]) pm := by
  change pm ∈ PeerServer.heardFrom (s.spoken (.message i d)) at hpm
  cases hp : s.spoken (.message i d) with
  | none =>
    rw [hp] at hpm
    exact absurd hpm List.not_mem_nil
  | some x =>
    obtain ⟨p, pm'⟩ := x
    rw [hp] at hpm
    obtain rfl := List.eq_of_mem_replicate hpm
    obtain ⟨hlt, hid, htoken⟩ := h.spoken hs hp
    refine ⟨es, i, d, [], s, p, rfl, hrun, hp, ?_⟩
    rw [named_append hlt, named_append hlt]
    exact ⟨hid, htoken⟩

/-- What waits for a peer was spoken. -/
theorem mailbox_spoken (hrun : start.run es = .ok s) (b : Bytes) :
    ∀ pm ∈ s.mailbox b, Spoken es pm := by
  induction es using List.reverseRecOn generalizing s with
  | nil =>
    cases hrun
    exact fun pm hpm => absurd hpm List.not_mem_nil
  | append_singleton es e ih =>
    obtain ⟨s₁, h₁, hstep⟩ := foldlM_append_ok.mp hrun
    obtain ⟨s₂, h₂, hstep⟩ := bind_eq_ok.mp (List.foldlM_cons.symm.trans hstep)
    cases hstep
    obtain ⟨hs, hv⟩ := run_vouched h₁
    intro pm hpm
    have hfrom := (step_inOrder hs h₂ b).subset (List.mem_append_right _ hpm)
    rcases List.mem_append.mp hfrom with hold | hnew
    · exact (ih h₁ pm hold).append [e]
    · obtain ⟨hnew, -⟩ := List.mem_filter.mp hnew
      cases e with
      | connect url => exact absurd hnew List.not_mem_nil
      | message i d => exact hv.heardFrom hs h₁ hnew
      | closed i => exact absurd hnew List.not_mem_nil
      | cleanup =>
        -- nothing waits after the cleanup
        obtain ⟨t, -, ht⟩ := bind_eq_ok.mp h₂
        cases ht
        exact absurd hpm List.not_mem_nil

theorem Settled.pending_waits (h : Settled s) {x : Bytes × PeerMessage}
    (hx : x ∈ s.pendingAfter none) : x.2 ∈ s.mailbox x.1 := by
  obtain ⟨e, he, hx⟩ := List.mem_flatMap.mp hx
  obtain ⟨l, hl, -⟩ := h.sound.queues e he
  rw [Option.all_none, if_pos rfl, hl] at hx
  obtain ⟨pm, hpm, rfl⟩ := List.mem_map.mp hx
  have hscan : s.getPeerMessages e.1 = some e.2 := by
    cases hq : s.getPeerMessages e.1 with
    | none =>
      have hno := getPeerMessages_none.mp hq e he
      rw [iequals_refl] at hno
      cases hno
    | some q =>
      obtain ⟨f, hf, rfl⟩ := Option.map_eq_some_iff.mp hq
      obtain ⟨hf, hkey⟩ := StdMap.scan_some hf
      rw [h.tidy.apart e he f hf hkey]
  rw [mailbox, waiting, hscan, hl]
  exact hpm

/-- Whatever is handed in was spoken, or tells a speaker of its own message. -/
theorem handedIn_spoken (hrun : start.run es = .ok s) {pm : PeerMessage} (hpm : pm ∈ handedIn es) :
    ∃ pm', Spoken es pm' ∧ (pm = pm' ∨ pm = notice pm') := by
  obtain ⟨before, e, after, s₁, s₂, rfl, h₁, h₂, hpm⟩ := mem_along hpm
  obtain ⟨hs, hv⟩ := run_vouched h₁
  cases e with
  | connect url => exact absurd hpm List.not_mem_nil
  | message i d =>
    refine ⟨pm, ?_, .inl rfl⟩
    have hspoken := (hv.heardFrom hs h₁ hpm).append after
    rwa [List.append_assoc] at hspoken
  | closed i => exact absurd hpm List.not_mem_nil
  | cleanup =>
    obtain ⟨x, hx, rfl⟩ := List.mem_map.mp hpm
    exact ⟨x.2, (mailbox_spoken h₁ x.1 x.2 (hs.pending_waits hx)).append _, .inr rfl⟩

/-! ### Who listens -/

/-- The message came to a websocket that named its destination, with the token of the peer that
was registered there just before or just after the event that delivered it. -/
def Heard (es : List Event) (i : Nat) (pm : PeerMessage) : Prop :=
  iequals (named es i (str "id")) pm.dst = true ∧ ∃ before e after s₁ s₂,
    es = before ++ e :: after ∧ start.run before = .ok s₁ ∧ s₁.step e = .ok s₂ ∧
    (i, pm) ∈ arrivals s₁ s₂ ∧ (s₁.Holds pm.dst (named es i (str "token")) ∨
      s₂.Holds pm.dst (named es i (str "token")))

theorem Heard.append {i : Nat} {pm : PeerMessage} (h : Heard es i pm)
    (hi : i < (connections es).length) (fs : List Event) : Heard (es ++ fs) i pm := by
  obtain ⟨hid, before, e, after, s₁, s₂, rfl, hrun, hstep, hin, hq⟩ := h
  unfold Heard
  rw [named_append hi, named_append hi]
  exact ⟨hid, before, e, after ++ fs, s₁, s₂, List.append_assoc _ _ _, hrun, hstep, hin, hq⟩

theorem arrivals_mem {out : List (Nat × PeerMessage)} (h : Sends s s' out)
    {x : Nat × PeerMessage} (hx : x ∈ arrivals s s') : x ∈ out := by
  obtain ⟨i, -, hx⟩ := List.mem_flatMap.mp hx
  obtain ⟨pm, hpm, rfl⟩ := List.mem_map.mp hx
  rw [heardOn_drop h] at hpm
  obtain ⟨y, hy, rfl⟩ := List.mem_map.mp hpm
  obtain ⟨hout, hi⟩ := List.mem_filter.mp hy
  rw [← of_decide_eq_true hi]
  exact hout

/-- The websocket of a peer that a message reaches named it, with the token it is registered
with. -/
theorem Vouched.reached {x : Nat × PeerMessage} (h : Vouched es s) (hs : Settled s)
    (hx : Reached s x.2 x.1) (ho : IsOpen s x.1) :
    x.1 < (connections es).length ∧ iequals (named es x.1 (str "id")) x.2.dst = true ∧
      s.Holds x.2.dst (named es x.1 (str "token")) := by
  obtain ⟨q, hq, hws⟩ := hx
  obtain ⟨k, hk, hkey⟩ := getPeer_some hq
  obtain ⟨b, hb⟩ := Option.isSome_iff_exists.mp (hs.tidy.attended _ hk x.1 hws)
  have hbound := hs.wired.attached _ hk x.1 hws b hb
  rw [hbound] at hb
  have hid := h.id _ hk x.1 hb
  refine ⟨h.count ▸ bindings_lt hs.wired hb, ?_, q, hq, h.token _ hk x.1 hb ho⟩
  rw [iequals_congr hid, iequals_comm]
  exact hkey

theorem Vouched.heard {x : Nat × PeerMessage} (h : Vouched es s) (hs : Settled s)
    (hrun : start.run es = .ok s) (hstep : s.step e = .ok s') (hx : x ∈ arrivals s s') :
    Heard (es ++ [e]) x.1 x.2 ∧ x.1 < (connections (es ++ [e])).length := by
  have hlonger : (connections es).length ≤ (connections (es ++ [e])).length := by
    rw [connections_append, List.length_append]
    omega
  have hreached (hr : Reached s x.2 x.1) (ho : IsOpen s x.1) :
      Heard (es ++ [e]) x.1 x.2 ∧ x.1 < (connections (es ++ [e])).length := by
    obtain ⟨hlt, hid, hq⟩ := h.reached hs hr ho
    unfold Heard
    rw [named_append hlt, named_append hlt]
    exact ⟨⟨hid, es, e, [], s, s', rfl, hrun, hstep, hx, .inl hq⟩, by omega⟩
  cases e with
  | connect url =>
    obtain ⟨out, hpass, hout⟩ := connect_queue hs hstep
    obtain ⟨hws, hdst, q, hq, htoken⟩ := hout x (arrivals_mem hpass.sends
      (hs.arrivals_opened ▸ hx))
    have hnext : x.1 = (connections es).length := hws.trans h.count.symm
    refine ⟨⟨?_, es, _, [], s, s', rfl, hrun, hstep, hx, .inr ⟨q, ?_, ?_⟩⟩, ?_⟩
    · rw [hnext, named_connect]
      exact hdst
    · rw [← getPeer_congr hdst]
      exact hq
    · rw [hnext, named_connect]
      exact htoken
    · rw [hnext, connections_append, List.length_append]
      exact Nat.lt_succ_self _
  | message i d =>
    obtain ⟨out, hpass, hout⟩ := message_passes hs hstep
    have hmem := arrivals_mem hpass.sends hx
    exact hreached (hout x hmem).2 (hpass.sends.opened x hmem)
  | closed i =>
    rw [(closed_passes hstep).1] at hx
    exact absurd hx List.not_mem_nil
  | cleanup =>
    obtain ⟨out, hpass, hout⟩ := handleCleanupIntervals_passes hs hstep
    have hmem := arrivals_mem hpass.sends hx
    exact hreached (hout x hmem).2 (hpass.sends.opened x hmem)

/-- In every run, whatever comes to a websocket is for the id that its connection named, with the
token that the id was registered with when it came, and was said on a websocket that named its
source in that way, or tells that it has expired to the one who said it. -/
theorem mail_vouched (hrun : start.run es = .ok s) :
    ∀ x ∈ delivered es, Heard es x.1 x.2 ∧
      ∃ pm, Spoken es pm ∧ (x.2 = pm ∨ x.2 = notice pm) := by
  intro x hx
  have hhanded : x.2 ∈ handedIn es := by
    have hself : x.2 ∈ addressed x.2.dst (delivered es) :=
      List.mem_filterMap.mpr ⟨x, hx, if_pos (iequals_refl _)⟩
    exact (List.mem_filter.mp ((run_inOrder hrun x.2.dst).subset
      (List.mem_append_left _ hself))).1
  refine ⟨?_, handedIn_spoken hrun hhanded⟩
  obtain ⟨before, e, after, s₁, s₂, rfl, h₁, h₂, hx⟩ := mem_along hx
  obtain ⟨hs, hv⟩ := run_vouched h₁
  obtain ⟨hheard, hlt⟩ := hv.heard hs h₁ h₂ hx
  have hall := hheard.append hlt after
  rwa [List.append_assoc] at hall

theorem mail_vouched_offers : ∃ s x, start.run (offersOfC ++
      [.connect (some (peerUrl (str "B") (str "u")))]) = .ok s ∧
    x ∈ delivered (offersOfC ++ [.connect (some (peerUrl (str "B") (str "u")))]) ∧
    Heard (offersOfC ++ [.connect (some (peerUrl (str "B") (str "u")))]) x.1 x.2 ∧
    ∃ pm, Spoken (offersOfC ++ [.connect (some (peerUrl (str "B") (str "u")))]) pm ∧
      (x.2 = pm ∨ x.2 = notice pm) := by
  obtain ⟨s, x, hrun, hx⟩ : ∃ s x, start.run (offersOfC ++
      [.connect (some (peerUrl (str "B") (str "u")))]) = .ok s ∧
    x ∈ delivered (offersOfC ++ [.connect (some (peerUrl (str "B") (str "u")))]) :=
    ⟨_, _, rfl, List.mem_cons_self⟩
  exact ⟨s, x, hrun, hx, mail_vouched hrun x hx⟩

end Flingd.Peers.PeerServer
