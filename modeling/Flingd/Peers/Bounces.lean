import Flingd.Peers.Tables

/-! How far a transmission goes. A peer that cannot be reached is removed, and the source is told
in a call of its own, which may fail in the same way. -/
namespace Flingd.Peers
open Http Outcome

/-- The session of a peer is dead, or its send throws. -/
def Peer.Fails (throws : Nat → Bool) (p : Peer) : Prop := p.session.all throws = true

instance (throws : Nat → Bool) (p : Peer) : Decidable (p.Fails throws) :=
  inferInstanceAs (Decidable (_ = true))

namespace PeerServer
variable {throws : Nat → Nat → Bool} {s s' t : PeerServer} {pm pm' : PeerMessage} {n depth : Nat}

/-! ### The calls -/

/-- `handleTransmission` where each call is asked anew whether its send throws: `n` calls were
made before. -/
def transmitFrom (throws : Nat → Nat → Bool) :
    Nat → Nat → PeerServer → PeerMessage → Except Fault PeerServer
  | _, 0, _, _ => .error .depth
  | n, depth+1, s, pm =>
    let leave : PeerMessage := ⟨str "LEAVE", pm.dst, pm.src, []⟩
    match s.getPeer pm.dst with
    | some p =>
      match p.session with
      | some session =>
        if throws n session then transmitFrom throws (n + 1) depth (s.removePeer pm.dst) leave
        else s.sendTo session (.transmission pm)
      | none => transmitFrom throws (n + 1) depth (s.removePeer pm.dst) leave
    | none =>
      if ¬ iequals pm.type (str "LEAVE") ∧ ¬ iequals pm.type (str "EXPIRE") ∧
          ¬ iequals pm.dst (str "") then s.addPeerMessages pm.dst pm
      else if iequals pm.type (str "LEAVE") ∧ iequals pm.dst (str "") then
        .ok (s.removePeer pm.src)
      else .ok s

/-- Where a session always throws or never does, this is `transmit`. -/
theorem transmitFrom_eq (throws : Nat → Bool) (n depth : Nat) (s : PeerServer) (pm : PeerMessage) :
    transmitFrom (fun _ => throws) n depth s pm = transmit throws depth s pm := by
  induction depth generalizing n s pm with
  | zero => rfl
  | succ depth ih =>
    unfold transmitFrom transmit
    cases s.getPeer pm.dst with
    | none => rfl
    | some p =>
      dsimp only
      cases p.session with
      | none => exact ih (n + 1) _ _
      | some session =>
        dsimp only
        cases throws session with
        | true => exact ih (n + 1) _ _
        | false => rfl

def nested (throws : Nat → Bool) (s : PeerServer) (pm : PeerMessage) :
    Option (PeerServer × PeerMessage) :=
  match s.getPeer pm.dst with
  | some p =>
    if p.Fails throws then some (s.removePeer pm.dst, ⟨str "LEAVE", pm.dst, pm.src, []⟩) else none
  | none => none

def calls (throws : Nat → Nat → Bool) :
    Nat → Nat → PeerServer → PeerMessage → List (PeerServer × PeerMessage)
  | _, 0, _, _ => []
  | n, depth+1, s, pm =>
    (s, pm) ::
      match nested (throws n) s pm with
      | some (s', pm') => calls throws (n + 1) depth s' pm'
      | none => []

def settle (s : PeerServer) (pm : PeerMessage) : Except Fault PeerServer :=
  match s.getPeer pm.dst with
  | some p =>
    match p.session with
    | some session => s.sendTo session (.transmission pm)
    | none => .ok s
  | none =>
    if ¬ iequals pm.type (str "LEAVE") ∧ ¬ iequals pm.type (str "EXPIRE") ∧
        ¬ iequals pm.dst (str "") then s.addPeerMessages pm.dst pm
    else if iequals pm.type (str "LEAVE") ∧ iequals pm.dst (str "") then .ok (s.removePeer pm.src)
    else .ok s

theorem nested_some (h : nested (throws n) s pm = some (s', pm')) :
    (∃ p, s.getPeer pm.dst = some p ∧ p.Fails (throws n)) ∧ s' = s.removePeer pm.dst ∧
      pm' = ⟨str "LEAVE", pm.dst, pm.src, []⟩ := by
  unfold nested at h
  split at h
  · rename_i p hp
    split at h
    · rename_i hfails
      cases h
      exact ⟨⟨p, hp, hfails⟩, rfl, rfl⟩
    · cases h
  · cases h

theorem transmitFrom_nested (h : nested (throws n) s pm = some (s', pm')) :
    transmitFrom throws n (depth + 1) s pm = transmitFrom throws (n + 1) depth s' pm' := by
  obtain ⟨⟨p, hp, hfails⟩, rfl, rfl⟩ := nested_some h
  rw [transmitFrom, hp]
  simp only
  cases hsession : p.session with
  | none => rfl
  | some session =>
    rw [Peer.Fails, hsession, Option.all_some] at hfails
    exact if_pos hfails

theorem transmitFrom_settles (h : nested (throws n) s pm = none) :
    transmitFrom throws n (depth + 1) s pm = s.settle pm := by
  unfold nested at h
  unfold transmitFrom settle
  cases hp : s.getPeer pm.dst with
  | none => rfl
  | some p =>
    simp only [hp] at h ⊢
    have hreached : ¬ p.Fails (throws n) := fun hfails => by rw [if_pos hfails] at h; cases h
    rw [Peer.Fails] at hreached
    cases hsession : p.session with
    | none => exact absurd (by rw [hsession]; rfl) hreached
    | some session =>
      rw [hsession, Option.all_some] at hreached
      exact if_neg hreached

theorem calls_nested (h : nested (throws n) s pm = some (s', pm')) :
    calls throws n (depth + 1) s pm = (s, pm) :: calls throws (n + 1) depth s' pm' := by
  simp only [calls, h]

theorem calls_settles (h : nested (throws n) s pm = none) :
    calls throws n (depth + 1) s pm = [(s, pm)] := by
  simp only [calls, h]

/-! ### The table gets smaller -/

/-- A peer that is found and removed leaves one peer less. -/
theorem removePeer_size {id : Bytes} {p : Peer} (h : s.getPeer id = some p) :
    (s.removePeer id).peers_.size + 1 = s.peers_.size := by
  obtain ⟨e, he, -⟩ := Option.map_eq_some_iff.mp h
  obtain ⟨hmem, hkey⟩ := StdMap.scan_some he
  have hpos : 0 < s.peers_.entries.length := List.length_pos_of_mem hmem
  have hlen : (s.removePeer id).peers_.entries.length = s.peers_.entries.length - 1 :=
    List.length_eraseP_of_mem (p := fun e : Bytes × Peer => iequals id e.1) hmem hkey
  unfold StdMap.size
  omega

theorem nested_size (h : nested (throws n) s pm = some (s', pm')) :
    s'.peers_.size + 1 = s.peers_.size := by
  obtain ⟨⟨p, hp, -⟩, rfl, -⟩ := nested_some h
  exact removePeer_size hp

/-- More calls than there are peers are never needed. -/
theorem transmitFrom_enough (h : s.peers_.size < depth) :
    transmitFrom throws n depth s pm = transmitFrom throws n (s.peers_.size + 1) s pm ∧
      calls throws n depth s pm = calls throws n (s.peers_.size + 1) s pm := by
  induction depth generalizing n s pm with
  | zero => omega
  | succ depth ih =>
    cases hn : nested (throws n) s pm with
    | none =>
      rw [transmitFrom_settles hn, transmitFrom_settles hn, calls_settles hn, calls_settles hn]
      exact ⟨rfl, rfl⟩
    | some c =>
      obtain ⟨s', pm'⟩ := c
      have hsize := nested_size hn
      rw [transmitFrom_nested hn, transmitFrom_nested hn, calls_nested hn, calls_nested hn, ← hsize]
      have hrest : transmitFrom throws (n + 1) depth s' pm' =
            transmitFrom throws (n + 1) (s'.peers_.size + 1) s' pm' ∧
          calls throws (n + 1) depth s' pm' = calls throws (n + 1) (s'.peers_.size + 1) s' pm' :=
        ih (by omega)
      exact ⟨hrest.1, congrArg _ hrest.2⟩

def HandsOn (c c' : PeerServer × PeerMessage) : Prop :=
  c' = (c.1.removePeer c.2.dst, ⟨str "LEAVE", c.2.dst, c.2.src, []⟩) ∧
    c'.1.peers_.size + 1 = c.1.peers_.size

theorem calls_chain (throws : Nat → Nat → Bool) (n depth : Nat) (s : PeerServer)
    (pm : PeerMessage) : (calls throws n depth s pm).IsChain HandsOn := by
  induction depth generalizing n s pm with
  | zero => exact .nil
  | succ depth ih =>
    cases hn : nested (throws n) s pm with
    | none =>
      rw [calls_settles hn]
      exact .singleton _
    | some c =>
      obtain ⟨s', pm'⟩ := c
      rw [calls_nested hn]
      have hsize := nested_size hn
      obtain ⟨-, rfl, rfl⟩ := nested_some hn
      cases depth with
      | zero => exact .singleton _
      | succ depth =>
        have hrest := ih (n + 1) (s.removePeer pm.dst) ⟨str "LEAVE", pm.dst, pm.src, []⟩
        rw [calls] at hrest ⊢
        exact .cons_cons ⟨rfl, hsize⟩ hrest

/-! ### What is removed -/

def Unreached (throws : Nat → Bool) (c : PeerServer × PeerMessage) (e : Bytes × Peer) : Prop :=
  c.1.peers_.scan (iequals c.2.dst) = some e ∧ e.2.Fails throws

def Leaver (c : PeerServer × PeerMessage) (e : Bytes × Peer) : Prop :=
  iequals c.2.type (str "LEAVE") = true ∧ iequals c.2.dst (str "") = true ∧
    c.1.peers_.scan (iequals c.2.src) = some e

/-- The entry that a call removes. A LEAVE whose empty destination is registered is delivered. -/
def Lost (throws : Nat → Bool) (c : PeerServer × PeerMessage) (e : Bytes × Peer) : Prop :=
  Unreached throws c e ∨ c.1.getPeer c.2.dst = none ∧ Leaver c e

def TouchesFreed (c : PeerServer × PeerMessage) : Prop :=
  (∃ p ws, c.1.getPeer c.2.dst = some p ∧ p.session = some ws ∧ c.1.sessions ws = none) ∨
    c.1.getPeerMessages c.2.dst = some none

theorem addPeerMessages_ends (s : PeerServer) (id : Bytes) (m : PeerMessage) :
    Outcome.Ends (s.addPeerMessages id m) (fun f => f = .freed ∧ s.getPeerMessages id = some none)
      fun t => t.peers_ = s.peers_ := by
  unfold addPeerMessages
  cases hq : s.getPeerMessages id with
  | none => exact .ok rfl
  | some queue =>
    cases queue with
    | none => exact .error ⟨rfl, rfl⟩
    | some messages => exact .ok rfl

theorem sendTo_ends (s : PeerServer) (i : Nat) (f : Frame) :
    Outcome.Ends (s.sendTo i f) (fun f => f = .freed ∧ s.sessions i = none)
      fun t => t.peers_ = s.peers_ := by
  unfold sendTo updateSession derefSession
  cases hw : s.sessions i with
  | none => exact .error ⟨rfl, rfl⟩
  | some w => exact .ok rfl

/-- The last call removes an entry only where a LEAVE has no destination. -/
theorem lost_settles {e : Bytes × Peer} (h : nested (throws n) s pm = none) :
    Lost (throws n) (s, pm) e ↔ s.getPeer pm.dst = none ∧ Leaver (s, pm) e := by
  refine ⟨fun hl => hl.resolve_left ?_, .inr⟩
  rintro ⟨hscan, hfails⟩
  have hp : s.getPeer pm.dst = some e.2 := by
    rw [getPeer, hscan]
    rfl
  rw [nested, hp] at h
  simp only [if_pos hfails] at h
  cases h

theorem entries_kept {e : Bytes × Peer} {p : Prop} (ht : t.peers_ = s.peers_) (h : ¬ p) :
    e ∈ t.peers_.entries ↔ e ∈ s.peers_.entries ∧ ¬ p := by
  rw [ht]
  exact (and_iff_left h).symm

theorem settle_ends (h : nested (throws n) s pm = none) :
    Outcome.Ends (s.settle pm) (fun f => f = .freed ∧ TouchesFreed (s, pm)) fun t =>
      ∀ e, e ∈ t.peers_.entries ↔ e ∈ s.peers_.entries ∧ ¬ Lost (throws n) (s, pm) e := by
  simp only [lost_settles h]
  unfold settle
  cases hp : s.getPeer pm.dst with
  | some p =>
    have hkept : ∀ t : PeerServer, t.peers_ = s.peers_ → ∀ e, e ∈ t.peers_.entries ↔
        e ∈ s.peers_.entries ∧ ¬ (some p = none ∧ Leaver (s, pm) e) :=
      fun t ht e => entries_kept ht fun hlost => nomatch hlost.1
    cases hsession : p.session with
    | none =>
      simp only [hsession]
      exact .ok (hkept s rfl)
    | some session =>
      simp only [hsession]
      exact (sendTo_ends s session _).mono
        (fun f hf => ⟨hf.1, .inl ⟨p, session, hp, hsession, hf.2⟩⟩) hkept
  | none =>
    simp only [true_and]
    split
    · rename_i hqueued
      exact (addPeerMessages_ends s pm.dst pm).mono (fun f hf => ⟨hf.1, .inr hf.2⟩)
        fun t ht e => entries_kept ht fun hleaver => hqueued.1 hleaver.1
    · split
      · rename_i hleave
        refine .ok fun e => (removePeer_entries s pm.src e).trans (and_congr_right fun _ => ?_)
        exact not_congr ⟨fun hscan => ⟨hleave.1, hleave.2, hscan⟩, fun hleaver => hleaver.2.2⟩
      · rename_i hstays
        exact .ok fun e => entries_kept rfl fun hleaver => hstays ⟨hleaver.1, hleaver.2.1⟩

/-- A call that makes another one has removed the peer that it did not reach. -/
theorem lost_nested {e : Bytes × Peer} (h : nested (throws n) s pm = some (s', pm')) :
    Lost (throws n) (s, pm) e ↔ s.peers_.scan (iequals pm.dst) = some e := by
  obtain ⟨⟨p, hp, hfails⟩, -, -⟩ := nested_some h
  constructor
  · rintro (hunreached | ⟨hnone, -⟩)
    · exact hunreached.1
    · rw [hp] at hnone
      cases hnone
  · intro hscan
    refine .inl ⟨hscan, ?_⟩
    rw [getPeer, hscan, Option.map_some, Option.some.injEq] at hp
    exact hp ▸ hfails

/-- An entry is removed by one of the calls, of which the first comes after `n` others. -/
def LostAmong (throws : Nat → Nat → Bool) (n : Nat) (cs : List (PeerServer × PeerMessage))
    (e : Bytes × Peer) : Prop :=
  ∃ i c, cs[i]? = some c ∧ Lost (throws (n + i)) c e

theorem lostAmong_cons {c : PeerServer × PeerMessage} {cs : List (PeerServer × PeerMessage)}
    {e : Bytes × Peer} :
    LostAmong throws n (c :: cs) e ↔ Lost (throws n) c e ∨ LostAmong throws (n + 1) cs e := by
  constructor
  · rintro ⟨i, c', hc, hlost⟩
    cases i with
    | zero =>
      cases hc
      exact .inl hlost
    | succ i => exact .inr ⟨i, c', hc, by rwa [show n + 1 + i = n + (i + 1) by omega]⟩
  · rintro (hlost | ⟨i, c', hc, hlost⟩)
    · exact ⟨0, c, rfl, hlost⟩
    · exact ⟨i + 1, c', hc, by rwa [show n + (i + 1) = n + 1 + i by omega]⟩

theorem not_lostAmong_nil {e : Bytes × Peer} : ¬ LostAmong throws n [] e := by
  rintro ⟨i, c, hc, -⟩
  cases hc

theorem transmitFrom_ends (h : s.peers_.size < depth) :
    Outcome.Ends (transmitFrom throws n depth s pm)
      (fun f => f = .freed ∧ ∃ c, (calls throws n depth s pm).getLast? = some c ∧ TouchesFreed c)
      fun t => ∀ e, e ∈ t.peers_.entries ↔
        e ∈ s.peers_.entries ∧ ¬ LostAmong throws n (calls throws n depth s pm) e := by
  induction depth generalizing n s pm with
  | zero => omega
  | succ depth ih =>
    cases hn : nested (throws n) s pm with
    | none =>
      rw [transmitFrom_settles hn, calls_settles hn]
      refine (settle_ends hn).mono (fun f hf => ⟨hf.1, (s, pm), rfl, hf.2⟩) fun t ht e => ?_
      rw [ht, lostAmong_cons, or_iff_left not_lostAmong_nil]
    | some c =>
      obtain ⟨s', pm'⟩ := c
      have hsize := nested_size hn
      rw [transmitFrom_nested hn, calls_nested hn]
      refine (ih (by omega)).mono (fun f hf => ⟨hf.1, ?_⟩) fun t ht e => ?_
      · obtain ⟨c, hc, hfreed⟩ := hf.2
        exact ⟨c, List.mem_getLast?_cons hc, hfreed⟩
      · obtain ⟨-, rfl, -⟩ := nested_some hn
        rw [ht, removePeer_entries, lostAmong_cons, lost_nested hn, not_or, and_assoc]

/-! ### The result -/

/-- `handleTransmission` in the state of a server, with as many calls as it takes. -/
theorem handleTransmission_calls (s : PeerServer) (pm : PeerMessage) :
    s.handleTransmission pm = transmitFrom (fun _ _ => false) 0 (s.peers_.size + 1) s pm :=
  (transmitFrom_eq _ 0 _ s pm).symm

theorem transmission_terminates (throws : Nat → Nat → Bool) (s : PeerServer) (pm : PeerMessage)
    (extra : Nat) :
    (transmitFrom throws 0 (s.peers_.size + 1 + extra) s pm =
        transmitFrom throws 0 (s.peers_.size + 1) s pm ∧
      calls throws 0 (s.peers_.size + 1 + extra) s pm =
        calls throws 0 (s.peers_.size + 1) s pm) ∧
    (calls throws 0 (s.peers_.size + 1) s pm).IsChain HandsOn ∧
    Outcome.Ends (transmitFrom throws 0 (s.peers_.size + 1) s pm)
      (fun f => f = .freed ∧
        ∃ c, (calls throws 0 (s.peers_.size + 1) s pm).getLast? = some c ∧ TouchesFreed c)
      fun t => ∀ e, e ∈ t.peers_.entries ↔ e ∈ s.peers_.entries ∧
        ¬ LostAmong throws 0 (calls throws 0 (s.peers_.size + 1) s pm) e :=
  ⟨transmitFrom_enough (by omega), calls_chain throws 0 _ s pm, transmitFrom_ends (by omega)⟩

def nameless : PeerServer where
  peers_ := ⟨[(str "", ⟨0, str "", str "t", some 0, 1, 1⟩),
    (str "a", ⟨1, str "a", str "t", some 1, 1, 1⟩)], by decide⟩
  outstandings_ := StdMap.empty
  sessions i := if i < 2 then some ⟨true, some i, []⟩ else none
  nextSession := 2
  nextPeer := 2

/-- A LEAVE without destination is sent to the peer with the empty id, and its source stays. -/
theorem nameless_told : ∃ e ∈ nameless.peers_.entries, ∃ t,
    calls (fun _ _ => false) 0 3 nameless ⟨str "LEAVE", str "a", str "", []⟩ =
        [(nameless, ⟨str "LEAVE", str "a", str "", []⟩)] ∧
      Leaver (nameless, ⟨str "LEAVE", str "a", str "", []⟩) e ∧
      nameless.handleTransmission ⟨str "LEAVE", str "a", str "", []⟩ = .ok t ∧
      e ∈ t.peers_.entries :=
  ⟨(str "a", ⟨1, str "a", str "t", some 1, 1, 1⟩), by decide, _, rfl,
    ⟨by decide, by decide, by decide⟩, rfl, by decide⟩

end PeerServer
end Flingd.Peers
