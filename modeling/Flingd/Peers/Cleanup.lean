import Flingd.Peers.Removed
import Flingd.Peers.Tidy

/-! One pass of the cleanup. It iterates `outstandings_` while the notices it sends may
add queues to that map, and messages to queues. -/
namespace Flingd.Peers.PeerServer
open Http Outcome
variable {s t t' : PeerServer}

def notice (pm : PeerMessage) : PeerMessage := ⟨pm.type, pm.dst, pm.src, []⟩

/-- The queue is iterated over, and deleted afterwards. -/
def release (s : PeerServer) (dst : Bytes) : PeerServer :=
  { s with outstandings_ := s.outstandings_.modifyFirst (dst = ·) fun _ => none }

/-- The loop of `handleCleanupIntervals`, with the queues it has visited and what they held. -/
def passFrom : Nat → PeerServer → Option Bytes →
    Except Fault (List (Bytes × List PeerMessage) × PeerServer)
  | 0, _, _ => .error .depth
  | depth+1, s, last =>
    match s.outstandings_.entries.find? fun e => last.all (· < e.1) with
    | none => .ok ([], s)
    | some (_, none) => .error .freed
    | some (dst, some pending) => do
      let s ← pending.foldlM (fun s pm => s.handleTransmission (notice pm)) (s.release dst)
      let (visited, s) ← passFrom depth s (some dst)
      .ok ((dst, pending) :: visited, s)

theorem cleanupFrom_eq (depth : Nat) (s : PeerServer) (last : Option Bytes) :
    s.cleanupFrom depth last = (s.passFrom depth last).map Prod.snd := by
  induction depth generalizing s last with
  | zero => rfl
  | succ depth ih =>
    unfold cleanupFrom passFrom
    cases s.outstandings_.entries.find? fun e => last.all (· < e.1) with
    | none => rfl
    | some e =>
      obtain ⟨dst, q⟩ := e
      cases q with
      | none => rfl
      | some pending =>
        dsimp only
        change (pending.foldlM (fun s pm => s.handleTransmission (notice pm)) (s.release dst) >>=
          fun s => cleanupFrom depth s (some dst)) = _
        cases pending.foldlM (fun s pm => s.handleTransmission (notice pm)) (s.release dst) with
        | error f => rfl
        | ok s' =>
          rw [ok_bind, ih, ok_bind]
          cases s'.passFrom depth (some dst) with
          | error f => rfl
          | ok r => rfl

def queued (s : PeerServer) : Nat :=
  (s.outstandings_.entries.map fun e => 1 + (e.2.getD []).length).sum

/-- The messages in the queues after `last`, in the order of the pass. -/
def pendingAfter (s : PeerServer) (last : Option Bytes) : List (Bytes × PeerMessage) :=
  s.outstandings_.entries.flatMap fun e =>
    if last.all (· < e.1) then (e.2.getD []).map (e.1, ·) else []

/-- The notice for the message has no one to go to, and is stored. -/
def orphan (s : PeerServer) (pm : PeerMessage) : Bool :=
  (s.getPeer pm.src).isNone && !iequals pm.src (str "")

/-- The pass handles each message that is queued once, uses no queue that it has released,
and has released each queue once when `outstandings_` is cleared. -/
def CleanPass (s : PeerServer) : Prop :=
  ∃ visited t, s.passFrom (s.queued + 1) none = .ok (visited, t) ∧
    visited.flatMap (fun v => v.2.map (v.1, ·)) = s.pendingAfter none ∧
    (visited.map Prod.fst).Nodup ∧
    (∀ k, k ∈ t.outstandings_.keys ↔ k ∈ visited.map Prod.fst) ∧
    s.handleCleanupIntervals = .ok { t with outstandings_ := StdMap.empty }

/-- The sources of the queued messages whose notices are stored have no queue yet, get one
behind the queue of the message, and no two of them the same. -/
def NoticesApart (s : PeerServer) : Prop :=
  ((s.pendingAfter none).filter (s.orphan ·.2)).Pairwise
    (fun a b => iequals a.2.src b.2.src = false) ∧
  ∀ o ∈ (s.pendingAfter none).filter (s.orphan ·.2),
    s.getPeerMessages o.2.src = none ∧ o.1 < o.2.src

/-! ### The loop -/

theorem mem_release {dst : Bytes} {e : Bytes × Queue}
    (h : e ∈ (s.release dst).outstandings_.entries) :
    e ∈ s.outstandings_.entries ∧ e.1 ≠ dst ∨ e = (dst, none) := by
  cases hs : s.outstandings_.scan (dst = ·) with
  | none =>
    have hsame : s.release dst = s := by
      unfold release StdMap.modifyFirst
      rw [hs]
    rw [hsame] at h
    have hne := StdMap.scan_none.mp hs e h
    exact .inl ⟨h, fun heq => by simp [heq] at hne⟩
  | some f =>
    obtain ⟨hf, hkey⟩ := StdMap.scan_some hs
    obtain rfl : dst = f.1 := by simpa using hkey
    by_cases hk : e.1 = f.1
    · obtain ⟨before, after, h₁, h₂⟩ := StdMap.modifyFirst_split (fun _ => (none : Queue)) hs
      have hmem : (f.1, none) ∈ (s.release f.1).outstandings_.entries := by
        change (f.1, none) ∈ (s.outstandings_.modifyFirst (f.1 = ·) fun _ => none).entries
        rw [h₂]
        exact List.mem_append_right _ List.mem_cons_self
      exact .inr (StdMap.eq_of_key_eq h hmem hk)
    · rcases StdMap.mem_modifyFirst h with h | ⟨e', he', hscan, rfl⟩
      · exact .inl ⟨h, hk⟩
      · cases hs.symm.trans hscan
        exact absurd rfl hk

theorem mem_release_of_ne {dst : Bytes} {e : Bytes × Queue} (h : e ∈ s.outstandings_.entries)
    (hne : e.1 ≠ dst) : e ∈ (s.release dst).outstandings_.entries := by
  unfold release StdMap.modifyFirst
  cases hs : s.outstandings_.scan (dst = ·) with
  | none => exact h
  | some f =>
    obtain ⟨-, hkey⟩ := StdMap.scan_some hs
    obtain rfl : dst = f.1 := by simpa using hkey
    exact List.mem_map.mpr ⟨e, h, if_neg hne⟩

theorem getPeerMessages_isNone_keys {id : Bytes} : s.getPeerMessages id = none ↔
    ∀ k ∈ s.outstandings_.keys, iequals id k = false := by
  rw [getPeerMessages_none, StdMap.keys]
  simp only [List.mem_map, forall_exists_index, and_imp, forall_apply_eq_imp_iff₂]

@[simp] theorem release_keys (s : PeerServer) (dst : Bytes) :
    (s.release dst).outstandings_.keys = s.outstandings_.keys := by
  unfold release
  rw [StdMap.keys_modifyFirst]

/-- A key whose first match has been released. -/
theorem getPeerMessages_release {id dst : Bytes} (h : s.getPeerMessages id = some none) :
    (s.release dst).getPeerMessages id = some none := by
  obtain ⟨e, he, hv⟩ := Option.map_eq_some_iff.mp h
  unfold getPeerMessages release StdMap.modifyFirst
  cases hs : s.outstandings_.scan (dst = ·) with
  | none => exact h
  | some f =>
    have hkey : (fun e' : Bytes × Queue => iequals id e'.1) ∘
        (fun e' => if e'.1 = f.1 then (e'.1, (none : Queue)) else e') =
        fun e' => iequals id e'.1 := by
      funext e'
      simp only [Function.comp_apply]
      split <;> rfl
    simp only [StdMap.scan, List.find?_map, hkey]
    have hfind : s.outstandings_.entries.find? (fun e' => iequals id e'.1) = some e := he
    rw [hfind]
    simp only [Option.map_some, Option.some.injEq]
    split
    · rfl
    · exact hv

/-- The first queue after `last` comes before the others. -/
theorem find_first {last : Option Bytes} {e : Bytes × Queue}
    (h : s.outstandings_.entries.find? (fun e => last.all (· < e.1)) = some e) :
    ∃ before after, s.outstandings_.entries = before ++ e :: after ∧
      last.all (· < e.1) = true ∧
      (∀ b ∈ before, last.all (· < b.1) = false ∧ b.1 < e.1) ∧ ∀ b ∈ after, e.1 < b.1 := by
  obtain ⟨hp, before, after, hsplit, hbefore⟩ := List.find?_eq_some_iff_append.mp h
  have hsorted := hsplit ▸ s.outstandings_.sorted
  rw [List.pairwise_append, List.pairwise_cons] at hsorted
  refine ⟨before, after, hsplit, hp, fun b hb => ⟨by simpa using hbefore b hb, ?_⟩,
    hsorted.2.1.1⟩
  exact hsorted.2.2 b hb e List.mem_cons_self

/-- Every other queue is one that was visited, or comes later. -/
theorem first_cases {last : Option Bytes} {e e' : Bytes × Queue}
    (h : s.outstandings_.entries.find? (fun e => last.all (· < e.1)) = some e)
    (he' : e' ∈ s.outstandings_.entries) :
    last.all (· < e'.1) = false ∨ e' = e ∨ e.1 < e'.1 := by
  obtain ⟨before, after, hsplit, -, hbefore, hafter⟩ := find_first h
  rw [hsplit] at he'
  rcases List.mem_append.mp he' with he' | he'
  · exact .inl (hbefore e' he').1
  · exact .inr ((List.mem_cons.mp he').imp id (hafter e'))

theorem all_lt_trans {last : Option Bytes} {k k' : Bytes} (h : last.all (· < k) = true)
    (hk : k < k') : last.all (· < k') = true := by
  cases last with
  | none => rfl
  | some l => simpa using lt_trans (by simpa using h) hk

/-- Without the queues up to the first after `last`, what is pending is what comes behind it. -/
theorem pendingAfter_first {last : Option Bytes} {dst : Bytes} {pending : List PeerMessage}
    (h : s.outstandings_.entries.find? (fun e => last.all (· < e.1)) = some (dst, some pending)) :
    s.pendingAfter last = pending.map (dst, ·) ++ (s.release dst).pendingAfter (some dst) := by
  obtain ⟨before, after, hsplit, hp, hbefore, hafter⟩ := find_first h
  have hmem : (dst, some pending) ∈ s.outstandings_.entries := by
    rw [hsplit]
    exact List.mem_append_right _ List.mem_cons_self
  obtain ⟨before', after', h₁, h₂⟩ := StdMap.modifyFirst_split (fun _ => (none : Queue))
    (StdMap.scan_key.mpr hmem)
  have hafter' {l : Option Bytes} (hl : l.all (· < dst) = true ∨ l = some dst) :
      ∀ b ∈ after, l.all (· < b.1) = true := by
    intro b hb
    rcases hl with hl | rfl
    · exact all_lt_trans hl (hafter b hb)
    · simpa using hafter b hb
  have hnone {l : Option Bytes} (hl : ∀ b ∈ before, l.all (· < b.1) = false) :
      before.flatMap (fun e => if l.all (· < e.1) then (e.2.getD []).map (e.1, ·) else []) = [] :=
    List.flatMap_eq_nil_iff.mpr fun b hb => by rw [hl b hb]; rfl
  have hrelease : (s.release dst).pendingAfter (some dst) = s.pendingAfter (some dst) := by
    unfold pendingAfter release
    simp only [h₁, h₂, List.flatMap_append, List.flatMap_cons]
    simp
  have hself : (some dst).all (· < dst) = false := by simp
  have hall {l : Option Bytes} (hl : l.all (· < dst) = true ∨ l = some dst) :
      after.flatMap (fun e => if l.all (· < e.1) then (e.2.getD []).map (e.1, ·) else []) =
        after.flatMap fun e => (e.2.getD []).map (e.1, ·) := by
    refine List.flatMap_congr fun b hb => ?_
    rw [hafter' hl b hb]
    rfl
  rw [hrelease]
  unfold pendingAfter
  rw [hsplit, List.flatMap_append, List.flatMap_append, List.flatMap_cons, List.flatMap_cons,
    hnone fun b hb => (hbefore b hb).1, hnone fun b hb => ?_, hall (.inl hp), hall (.inr rfl)]
  · simp only [hp, if_true, Option.getD_some, hself, Bool.false_eq_true, if_false,
      List.nil_append]
  · simpa using (hbefore b hb).2.le

/-! ### The passes are enough -/

/-- The queues after `last` and the messages in them. -/
def weightAfter (s : PeerServer) (last : Option Bytes) : Nat :=
  (s.outstandings_.entries.map fun e =>
    if last.all (· < e.1) then 1 + (e.2.getD []).length else 0).sum

/-- A message adds one queue or one message at most. -/
theorem addPeerMessages_weight {id : Bytes} {pm : PeerMessage} (last : Option Bytes)
    (h : t.addPeerMessages id pm = .ok t') : t'.weightAfter last ≤ t.weightAfter last + 1 := by
  unfold addPeerMessages at h
  split at h
  · cases h
    unfold weightAfter
    rcases StdMap.insert_split t.outstandings_ id (some []) with hsame | ⟨before, after, h₁, h₂⟩
    · rw [hsame]
      omega
    · simp only [h₁, h₂, List.map_append, List.map_cons, List.sum_append, List.sum_cons]
      split
      · simp only [Option.getD_some, List.length_nil]
        omega
      · omega
  · cases h
  · rename_i messages hq
    cases h
    obtain ⟨e, he, hv : e.2 = some messages⟩ := Option.map_eq_some_iff.mp hq
    obtain ⟨before, after, h₁, h₂⟩ := StdMap.modifyFirst_split
      (fun _ => (some (messages ++ [pm]) : Queue)) he
    unfold weightAfter
    simp only [h₁, h₂, List.map_append, List.map_cons, List.sum_append, List.sum_cons, hv,
      Option.getD_some, List.length_append, List.length_cons, List.length_nil]
    split <;> omega

theorem handleTransmission_weight {pm : PeerMessage} (hs : PeersSound t) (last : Option Bytes)
    (h : t.handleTransmission pm = .ok t') : t'.weightAfter last ≤ t.weightAfter last + 1 := by
  rcases handleTransmission_cases hs h with ⟨-, m, rfl⟩ | ⟨-, -, h⟩ | ⟨-, -, rfl | rfl⟩
  · exact Nat.le_succ _
  · exact addPeerMessages_weight last h
  · exact Nat.le_succ _
  · exact Nat.le_succ _

theorem fold_weight {l : List PeerMessage} (hs : PeersSound t) (last : Option Bytes)
    (h : l.foldlM (fun s pm => s.handleTransmission (notice pm)) t = .ok t') :
    PeersSound t' ∧ t'.weightAfter last ≤ t.weightAfter last + l.length := by
  induction l generalizing t with
  | nil =>
    cases h
    exact ⟨hs, le_rfl⟩
  | cons pm l ih =>
    rw [List.foldlM_cons] at h
    obtain ⟨t₁, h₁, h⟩ := bind_eq_ok.mp h
    obtain ⟨hs', hw⟩ := ih (hs.handleTransmission h₁) h
    have hw₁ := handleTransmission_weight hs last h₁
    exact ⟨hs', by rw [List.length_cons]; omega⟩

theorem weightAfter_first {last : Option Bytes} {dst : Bytes} {pending : List PeerMessage}
    (h : s.outstandings_.entries.find? (fun e => last.all (· < e.1)) = some (dst, some pending)) :
    (s.release dst).weightAfter (some dst) + pending.length < s.weightAfter last := by
  obtain ⟨before, after, hsplit, hp, hbefore, hafter⟩ := find_first h
  have hmem : (dst, some pending) ∈ s.outstandings_.entries := by
    rw [hsplit]
    exact List.mem_append_right _ List.mem_cons_self
  obtain ⟨before', after', h₁, h₂⟩ := StdMap.modifyFirst_split (fun _ => (none : Queue))
    (StdMap.scan_key.mpr hmem)
  have hrelease : (s.release dst).weightAfter (some dst) = s.weightAfter (some dst) := by
    unfold weightAfter release
    simp only [h₁, h₂, List.map_append, List.map_cons, List.sum_append]
    simp
  have hle (l : List (Bytes × Queue)) (hl : ∀ b ∈ l, dst < b.1 → last.all (· < b.1) = true) :
      (l.map fun e => if (some dst).all (· < e.1) then 1 + (e.2.getD []).length else 0).sum ≤
        (l.map fun e => if last.all (· < e.1) then 1 + (e.2.getD []).length else 0).sum := by
    induction l with
    | nil => exact le_rfl
    | cons b l ih =>
      have ih := ih fun b hb => hl b (List.mem_cons_of_mem _ hb)
      rw [List.map_cons, List.map_cons, List.sum_cons, List.sum_cons]
      refine Nat.add_le_add ?_ ih
      by_cases hlt : dst < b.1
      · simp [hl b List.mem_cons_self hlt, hlt]
      · simp [hlt]
  have hb := hle before fun b _ hlt => all_lt_trans hp hlt
  have ha := hle after fun b _ hlt => all_lt_trans hp hlt
  rw [hrelease]
  unfold weightAfter
  rw [hsplit]
  simp only [List.map_append, List.map_cons, List.sum_append, List.sum_cons, hp, if_true,
    Option.getD_some]
  have hself : (some dst).all (· < dst) = false := by simp
  rw [hself]
  simp only [Bool.false_eq_true, if_false]
  omega

theorem handleTransmission_depth {pm : PeerMessage} (hs : PeersSound t) :
    t.handleTransmission pm ≠ .error .depth := by
  unfold handleTransmission transmit
  cases hp : t.getPeer pm.dst with
  | some p =>
    obtain ⟨k, hk, -⟩ := getPeer_some hp
    obtain ⟨ws, -, hws : p.session = some ws⟩ := hs.session _ hk
    simp only [hws, Bool.false_eq_true, if_false]
    unfold sendTo updateSession derefSession
    cases t.sessions ws with
    | none => exact fun h => by cases h
    | some w => exact fun h => by cases h
  | none =>
    simp only
    split_ifs
    · unfold addPeerMessages
      split <;> exact fun h => by cases h
    · exact fun h => by cases h
    · exact fun h => by cases h

theorem fold_depth {l : List PeerMessage} (hs : PeersSound t) :
    l.foldlM (fun s pm => s.handleTransmission (notice pm)) t ≠ .error .depth := by
  induction l generalizing t with
  | nil => exact fun h => by cases h
  | cons pm l ih =>
    rw [List.foldlM_cons]
    cases h : t.handleTransmission (notice pm) with
    | error f =>
      intro hf
      cases hf
      exact handleTransmission_depth hs h
    | ok t₁ => exact ih (hs.handleTransmission h)

theorem PeersSound.release (h : PeersSound s) (dst : Bytes) : PeersSound (s.release dst) :=
  h.lost rfl rfl fun _ he => he

theorem passFrom_depth {depth : Nat} {last : Option Bytes} (hs : PeersSound s)
    (hd : s.weightAfter last < depth) : s.passFrom depth last ≠ .error .depth := by
  induction depth generalizing s last with
  | zero => omega
  | succ depth ih =>
    unfold passFrom
    split
    · exact fun h => by cases h
    · exact fun h => by cases h
    · rename_i dst pending hfind
      have hfirst := weightAfter_first hfind
      cases h : pending.foldlM (fun s pm => s.handleTransmission (notice pm)) (s.release dst) with
      | error f =>
        intro hf
        cases hf
        exact fold_depth (hs.release dst) h
      | ok s₁ =>
        obtain ⟨hs₁, hw⟩ := fold_weight (hs.release dst) (some dst) h
        have hrest : s₁.passFrom depth (some dst) ≠ .error .depth := ih hs₁ (by omega)
        rw [ok_bind]
        cases hr : s₁.passFrom depth (some dst) with
        | error f =>
          intro hf
          cases hf
          exact hrest hr
        | ok r => exact fun h => by cases h

/-- The cleanup comes to its end within the passes allowed for, or uses a released object. -/
theorem cleanup_depth (hs : PeersSound s) : s.handleCleanupIntervals ≠ .error .depth := by
  have hpass : s.passFrom (s.queued + 1) none ≠ .error .depth :=
    passFrom_depth hs (Nat.lt_succ_self s.queued)
  change (s.cleanupFrom (s.queued + 1) none >>= _) ≠ _
  rw [cleanupFrom_eq]
  cases h : s.passFrom (s.queued + 1) none with
  | error f =>
    intro hf
    cases hf
    exact hpass h
  | ok r => exact fun h => by cases h

end Flingd.Peers.PeerServer
