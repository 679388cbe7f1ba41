import Flingd.Base.Outcome
import Flingd.Sdk.MediaManager

/-! Which request a status answers. There is one place for the id of each kind of request: the next
request of the kind takes it from the one that waits for its answer, and before the first request it
holds what was in the memory. -/
namespace Flingd.Sdk
open Outcome

/-- The kinds of which there was a request, the requests without an answer, and the ids of all. -/
structure Ledger where
  asked : List Kind
  unanswered : List (Kind × Int)
  accepted : List Int

namespace Ledger

def waiting (b : Ledger) : List Kind := b.unanswered.map (·.1)

def accept (b : Ledger) (requestId : Int) (request : MediaRequest) : Ledger :=
  match request.kind with
  | some k => ⟨k :: b.asked, b.unanswered ++ [(k, requestId)], b.accepted ++ [requestId]⟩
  | none => { b with accepted := b.accepted ++ [requestId] }

/-- A status of a kind answers a request of the kind that has its id. -/
def settle (b : Ledger) (k : Kind) : List Status → Ledger
  | [] => b
  | status :: _ => { b with unanswered := b.unanswered.erase (k, status.requestId) }

end Ledger

namespace MediaManager

def Event.answers : Event → Option Kind
  | .onLoaded => some .load
  | .onPlaying => some .play
  | .onPaused => some .pause
  | .onSeeked => some .seek
  | .onVolumeChanged _ => some .setVolume
  | _ => none

end MediaManager

/-- A manager in the course of a run, with the statuses that it has sent. -/
structure Exchange where
  manager : MediaManager
  ledger : Ledger
  sent : List Status

namespace Exchange
open MediaManager
variable (json : Rapidjson) (within : Bytes → Bool)

def start (memory : MediaManager) : Exchange := ⟨.new memory, ⟨[], [], []⟩, []⟩

def accepts (t : Exchange) : Event → Option (Int × MediaRequest)
  | .onMessage message => if t.manager.mediaPlayer_ then (understand json within message).join else none
  | _ => none

def next (t : Exchange) (e : Event) (posted : List Status) : Ledger :=
  match t.accepts json within e, e.answers with
  | some (requestId, request), _ => t.ledger.accept requestId request
  | none, some k => t.ledger.settle k posted
  | none, none => t.ledger

def step (t : Exchange) (e : Event × Readings) : Except Unit Exchange :=
  match t.manager.step json within e.1 e.2 with
  | none => .error ()
  | some (manager, posted) => .ok ⟨manager, t.next json within e.1 posted, t.sent ++ posted⟩

/-- No request is accepted while one of its kind waits, and no callback comes before the first request of
its kind, nor while there is no player if a request of its kind waits. -/
def Calm (t : Exchange) (e : Event × Readings) : Prop :=
  (∀ r ∈ t.accepts json within e.1, ∀ k ∈ r.2.kind, k ∉ t.ledger.waiting) ∧
    ∀ k ∈ e.1.answers, k ∈ t.ledger.asked ∧ (t.manager.mediaPlayer_ = true ∨ k ∉ t.ledger.waiting)

instance (t : Exchange) (e : Event × Readings) : Decidable (Calm json within t e) :=
  inferInstanceAs (Decidable (_ ∧ _))

/-- The status answers a request that has its id, or has none. -/
def Answers (t : Exchange) (e : Event) (status : Status) : Prop :=
  status.requestId = 0 ∨
    (∃ k, e.answers = some k ∧ (k, status.requestId) ∈ t.ledger.unanswered) ∨
    t.accepts json within e = some (status.requestId, .getStatus)

/-- The place of a kind holds the id of the request that waits, and of each kind at most one waits. -/
structure Tracks (t : Exchange) : Prop where
  nodup : t.ledger.waiting.Nodup
  asked : ∀ k ∈ t.ledger.waiting, k ∈ t.ledger.asked
  slot : ∀ k ∈ t.ledger.asked, (k, t.manager.requestId k) ∈ t.ledger.unanswered ∨
    (t.manager.requestId k = 0 ∧ k ∉ t.ledger.waiting)
  counts : ∀ x, x ≠ 0 → (t.sent.map (·.requestId)).count x +
    (t.ledger.unanswered.map (·.2)).count x = t.ledger.accepted.count x

/-! ### The places of the ids -/

variable {s : MediaManager} {k k' : Kind} {readings : Readings}

theorem requestId_setRequestId (s : MediaManager) (n : Int) (k k' : Kind) :
    (s.setRequestId n k).requestId k' = if k' = k then n else s.requestId k' := by
  cases k <;> cases k' <;> rfl

theorem postPlayerStatus_requestId (s : MediaManager) (n : Int) (status : Bytes) :
    (s.postPlayerStatus readings n status).1.requestId k = s.requestId k := by
  unfold postPlayerStatus
  split
  · cases k <;> rfl
  · rfl

theorem postPlayerStatus_posted (s : MediaManager) (readings : Readings) (n : Int) (status : Bytes) :
    (s.postPlayerStatus readings n status).2.map (·.requestId) =
      if s.mediaPlayer_ then [n] else [] := by
  unfold postPlayerStatus
  split <;> rfl

theorem answer_requestId (s : MediaManager) (k : Kind) (status : String) :
    (s.answer k status readings).1.requestId k' = if k' = k then 0 else s.requestId k' := by
  unfold answer
  rw [requestId_setRequestId, postPlayerStatus_requestId]

theorem answer_posted (s : MediaManager) (k : Kind) (status : String) (readings : Readings) :
    (s.answer k status readings).2.map (·.requestId) =
      if s.mediaPlayer_ then [s.requestId k] else [] :=
  postPlayerStatus_posted s readings _ _

theorem perform_posted {n : Int} {request : MediaRequest} (hk : request.kind = some k) :
    (s.perform readings n request).2 = [] := by
  cases request with
  | getStatus => cases hk
  | _ => rfl

/-- A request of a kind takes its place. -/
theorem perform_requestId {n : Int} {request : MediaRequest} (hk : request.kind = some k) :
    (s.perform readings n request).1.requestId k' =
      if k' = k ∧ s.mediaPlayer_ = true then n else s.requestId k' := by
  have hask (s' : MediaManager) (hplayer : s'.mediaPlayer_ = s.mediaPlayer_)
      (hslot : s'.requestId k' = s.requestId k') : (s'.ask n k).requestId k' =
        if k' = k ∧ s.mediaPlayer_ = true then n else s.requestId k' := by
    unfold ask
    rw [hplayer]
    by_cases hp : s.mediaPlayer_ = true
    · rw [if_pos hp, requestId_setRequestId, hslot]
      exact if_congr (by simp [hp]) rfl rfl
    · rw [if_neg hp, hslot, if_neg (by simp [hp])]
  cases request with
  | load currentTime media =>
    cases hk
    exact hask { s with currentTime_ := _, mediaInfo_ := _ } rfl (by cases k' <;> rfl)
  | getStatus => cases hk
  | _ =>
    cases hk
    exact hask s rfl rfl

/-- Without a player no request takes a place, and nothing is told. -/
theorem perform_unheard {s : MediaManager} (hp : s.mediaPlayer_ = false) (n : Int)
    (request : MediaRequest) :
    (∀ k, (s.perform readings n request).1.requestId k = s.requestId k) ∧
      (s.perform readings n request).2 = [] := by
  cases hk : request.kind with
  | some k =>
    refine ⟨fun k' => ?_, perform_posted hk⟩
    rw [perform_requestId hk]
    exact if_neg (by simp [hp])
  | none =>
    cases request with
    | getStatus =>
      refine ⟨fun k => postPlayerStatus_requestId _ _ _, ?_⟩
      have hids := postPlayerStatus_posted s readings n []
      rw [hp] at hids
      exact List.map_eq_nil_iff.mp hids
    | _ => cases hk

theorem accepts_message (t : Exchange) (message : Bytes) :
    t.accepts json within (.onMessage message) =
      if t.manager.mediaPlayer_ then (understand json within message).join else none := rfl

/-- What a step does: it accepts a request of a kind, tells its status, answers a kind, or none of
these. -/
inductive Moves (t : Exchange) (e : Event) (x : MediaManager × List Status) : Prop where
  | asks (n : Int) (request : MediaRequest) (k : Kind)
      (haccepts : t.accepts json within e = some (n, request))
      (hkind : request.kind = some k)
      (hslots : ∀ k', x.1.requestId k' = if k' = k then n else t.manager.requestId k')
      (hposted : x.2 = [])
  | tells (n : Int) (haccepts : t.accepts json within e = some (n, .getStatus))
      (hslots : ∀ k', x.1.requestId k' = t.manager.requestId k')
      (hposted : x.2.map (·.requestId) = [n])
  | answers (k : Kind) (haccepts : t.accepts json within e = none) (hanswers : e.answers = some k)
      (hslots : ∀ k', x.1.requestId k' = if k' = k then 0 else t.manager.requestId k')
      (hposted : x.2.map (·.requestId) =
        if t.manager.mediaPlayer_ then [t.manager.requestId k] else [])
  | other (haccepts : t.accepts json within e = none) (hanswers : e.answers = none)
      (hslots : ∀ k', x.1.requestId k' = t.manager.requestId k')
      (hposted : ∀ p ∈ x.2, p.requestId = 0)

variable {json within} {t t' : Exchange} {e : Event} {x : MediaManager × List Status}

theorem moves_status (status : Bytes) (haccepts : t.accepts json within e = none)
    (hanswers : e.answers = none) :
    Moves json within t e (t.manager.postPlayerStatus readings 0 status) := by
  refine .other haccepts hanswers (fun k' => postPlayerStatus_requestId _ _ _) fun p hp => ?_
  have hin := List.mem_map_of_mem (f := Status.requestId) hp
  rw [postPlayerStatus_posted] at hin
  split at hin
  · exact List.mem_singleton.mp hin
  · cases hin

theorem moves_answer (status : String) (haccepts : t.accepts json within e = none)
    (hanswers : e.answers = some k) : Moves json within t e (t.manager.answer k status readings) :=
  .answers k haccepts hanswers (fun _ => answer_requestId _ _ _) (answer_posted _ _ _ _)

theorem moves_message {message : Bytes}
    (h : t.manager.onMessage json within message readings = some x) :
    Moves json within t (.onMessage message) x := by
  unfold MediaManager.onMessage at h
  cases hu : understand json within message with
  | none =>
    rw [hu] at h
    cases h
  | some r =>
    rw [hu] at h
    cases r with
    | none =>
      obtain rfl := Option.some.inj h
      refine .other ?_ rfl (fun _ => rfl) fun p hp => nomatch hp
      rw [accepts_message, hu]
      split <;> rfl
    | some r =>
      obtain ⟨n, request⟩ := r
      obtain rfl := Option.some.inj h
      cases hp : t.manager.mediaPlayer_ with
      | true =>
        have haccepts : t.accepts json within (.onMessage message) = some (n, request) := by
          rw [accepts_message, if_pos hp, hu]
          rfl
        cases hk : request.kind with
        | some k =>
          refine .asks n request k haccepts hk (fun k' => ?_) (perform_posted hk)
          rw [perform_requestId hk]
          exact if_congr (by simp [hp]) rfl rfl
        | none =>
          cases request with
          | getStatus =>
            refine .tells n haccepts (fun k' => postPlayerStatus_requestId _ _ _) ?_
            refine (postPlayerStatus_posted _ _ _ _).trans ?_
            rw [hp]
            rfl
          | _ => cases hk
      | false =>
        have haccepts : t.accepts json within (.onMessage message) = none := by
          rw [accepts_message, hp]
          rfl
        obtain ⟨hslots, hposted⟩ := @perform_unheard readings t.manager hp n request
        refine .other haccepts rfl hslots fun p hin => ?_
        rw [hposted] at hin
        cases hin

theorem moves (h : t.manager.step json within e readings = some x) : Moves json within t e x := by
  cases e with
  | onMessage message => exact moves_message h
  | setMediaPlayer mediaPlayer =>
    obtain rfl := Option.some.inj h
    exact .other rfl rfl (fun k => by cases k <;> rfl) fun p hp => nomatch hp
  | onLoaded => exact Option.some.inj h ▸ moves_answer _ rfl rfl
  | onPlaying => exact Option.some.inj h ▸ moves_answer _ rfl rfl
  | onPaused => exact Option.some.inj h ▸ moves_answer _ rfl rfl
  | onSeeked => exact Option.some.inj h ▸ moves_answer _ rfl rfl
  | onVolumeChanged volume => exact Option.some.inj h ▸ moves_answer _ rfl rfl
  | onBuffering => exact Option.some.inj h ▸ moves_status _ rfl rfl
  | onIdle => exact Option.some.inj h ▸ moves_status _ rfl rfl
  | onEnded => exact Option.some.inj h ▸ moves_status _ rfl rfl
  | onError => exact Option.some.inj h ▸ moves_status _ rfl rfl

/-! ### What a run keeps -/

/-- An answered request no longer waits. -/
theorem waiting_erase {u : List (Kind × Int)} {n : Int} (h : (u.map (·.1)).Nodup) (hin : (k, n) ∈ u) :
    ((u.erase (k, n)).map (·.1)).Nodup ∧ k ∉ (u.erase (k, n)).map (·.1) ∧
      ∀ x, ((u.erase (k, n)).map (·.2)).count x + [n].count x = (u.map (·.2)).count x := by
  have hperm := List.perm_cons_erase hin
  have hkinds := (hperm.map (·.1)).nodup_iff.mp h
  rw [List.map_cons, List.nodup_cons] at hkinds
  refine ⟨hkinds.2, hkinds.1, fun x => ?_⟩
  have hcount := (hperm.map (·.2)).count_eq x
  rw [List.map_cons, List.count_cons] at hcount
  rw [hcount, List.count_singleton]

variable {request : MediaRequest} {n : Int}

theorem next_asks (haccepts : t.accepts json within e = some (n, request)) (posted : List Status) :
    t.next json within e posted = t.ledger.accept n request := by
  rw [next, haccepts]

theorem next_answers (haccepts : t.accepts json within e = none) (hanswers : e.answers = some k)
    (posted : List Status) : t.next json within e posted = t.ledger.settle k posted := by
  rw [next, haccepts, hanswers]

theorem next_other (haccepts : t.accepts json within e = none) (hanswers : e.answers = none)
    (posted : List Status) : t.next json within e posted = t.ledger := by
  rw [next, haccepts, hanswers]

theorem Tracks.asks (h : Tracks t) (hk : request.kind = some k) (hfree : k ∉ t.ledger.waiting)
    (hslots : ∀ k', s.requestId k' = if k' = k then n else t.manager.requestId k') :
    Tracks ⟨s, t.ledger.accept n request, t.sent⟩ := by
  have haccept : t.ledger.accept n request =
      ⟨k :: t.ledger.asked, t.ledger.unanswered ++ [(k, n)], t.ledger.accepted ++ [n]⟩ := by
    rw [Ledger.accept, hk]
  rw [haccept]
  have hwaiting : (t.ledger.unanswered ++ [(k, n)]).map (·.1) = t.ledger.waiting ++ [k] := by
    rw [List.map_append]
    rfl
  refine ⟨?_, fun k' hk' => ?_, fun k' hk' => ?_, fun x hx => ?_⟩
  · change ((t.ledger.unanswered ++ [(k, n)]).map (·.1)).Nodup
    rw [hwaiting]
    exact List.nodup_append.mpr ⟨h.nodup, List.nodup_singleton k, fun a ha b hb heq =>
      hfree (List.mem_singleton.mp hb ▸ heq ▸ ha)⟩
  · change k' ∈ (t.ledger.unanswered ++ [(k, n)]).map (·.1) at hk'
    rw [hwaiting] at hk'
    rcases List.mem_append.mp hk' with hk' | hk'
    · exact List.mem_cons_of_mem _ (h.asked k' hk')
    · exact List.mem_singleton.mp hk' ▸ List.mem_cons_self
  · change (k', s.requestId k') ∈ t.ledger.unanswered ++ [(k, n)] ∨
      s.requestId k' = 0 ∧ k' ∉ (t.ledger.unanswered ++ [(k, n)]).map (·.1)
    rw [hwaiting, hslots]
    by_cases heq : k' = k
    · rw [if_pos heq, heq]
      exact .inl (List.mem_append_right _ List.mem_cons_self)
    · rw [if_neg heq]
      refine (h.slot k' ((List.mem_cons.mp hk').resolve_left heq)).imp (List.mem_append_left _) ?_
      rintro ⟨hzero, hnot⟩
      exact ⟨hzero, by simp [hnot, heq]⟩
  · have hcounts := h.counts x hx
    change (t.sent.map (·.requestId)).count x +
      ((t.ledger.unanswered ++ [(k, n)]).map (·.2)).count x = (t.ledger.accepted ++ [n]).count x
    rw [List.map_append, List.count_append, List.count_append, ← hcounts]
    exact (Nat.add_assoc _ _ _).symm

theorem Tracks.tells (h : Tracks t) {posted : List Status}
    (hslots : ∀ k', s.requestId k' = t.manager.requestId k')
    (hposted : posted.map (·.requestId) = [n]) :
    Tracks ⟨s, t.ledger.accept n .getStatus, t.sent ++ posted⟩ where
  nodup := h.nodup
  asked := h.asked
  slot k' hk' := by
    change (k', s.requestId k') ∈ t.ledger.unanswered ∨ s.requestId k' = 0 ∧ k' ∉ t.ledger.waiting
    rw [hslots]
    exact h.slot k' hk'
  counts x hx := by
    have hcounts := h.counts x hx
    change ((t.sent ++ posted).map (·.requestId)).count x + (t.ledger.unanswered.map (·.2)).count x =
      (t.ledger.accepted ++ [n]).count x
    rw [List.map_append, List.count_append, List.count_append, hposted, ← hcounts]
    omega

/-- A kind is answered that was asked for: its place is empty again, and what it held was told. -/
theorem Tracks.answers (h : Tracks t) {posted : List Status} (hasked : k ∈ t.ledger.asked)
    (hplayer : t.manager.mediaPlayer_ = true ∨ k ∉ t.ledger.waiting)
    (hslots : ∀ k', s.requestId k' = if k' = k then 0 else t.manager.requestId k')
    (hposted : posted.map (·.requestId) =
      if t.manager.mediaPlayer_ then [t.manager.requestId k] else []) :
    Tracks ⟨s, t.ledger.settle k posted, t.sent ++ posted⟩ ∧
      ∀ p ∈ posted, p.requestId = 0 ∨ (k, p.requestId) ∈ t.ledger.unanswered := by
  -- The slots of what is left waiting: that of `k` is empty, the others are as they were.
  have hkeep {u : List (Kind × Int)} (hnot : k ∉ u.map (·.1))
      (hsub : u.Sublist t.ledger.unanswered)
      (hother : ∀ k' m, k' ≠ k → (k', m) ∈ t.ledger.unanswered → (k', m) ∈ u) :
      ∀ k' ∈ t.ledger.asked,
        (k', s.requestId k') ∈ u ∨ (s.requestId k' = 0 ∧ k' ∉ u.map (·.1)) := by
    intro k' hk'
    rw [hslots]
    by_cases heq : k' = k
    · rw [if_pos heq, heq]
      exact .inr ⟨rfl, hnot⟩
    · rw [if_neg heq]
      refine (h.slot k' hk').imp (hother k' _ heq) fun hzero => ⟨hzero.1, fun hin => ?_⟩
      exact hzero.2 ((hsub.map _).subset hin)
  by_cases hp : t.manager.mediaPlayer_ = true
  · rw [if_pos hp] at hposted
    obtain ⟨p, rfl, hid⟩ := List.map_eq_singleton_iff.mp hposted
    rcases h.slot k hasked with hin | ⟨hzero, hnot⟩
    · rw [← hid] at hin
      obtain ⟨hnodup, hgone, hcount⟩ := waiting_erase h.nodup hin
      refine ⟨⟨hnodup, fun k' hk' => ?_, ?_, fun x hx => ?_⟩, ?_⟩
      · exact h.asked k' ((List.erase_sublist.map _).subset hk')
      · refine hkeep hgone List.erase_sublist fun k' m hne hm => ?_
        exact (List.mem_erase_of_ne fun heq => hne (Prod.mk.inj heq).1).mpr hm
      · have hcounts := h.counts x hx
        have hx' := hcount x
        change ((t.sent ++ [p]).map (·.requestId)).count x +
          ((t.ledger.unanswered.erase (k, p.requestId)).map (·.2)).count x = t.ledger.accepted.count x
        rw [List.map_append, List.count_append, List.map_singleton]
        omega
      · intro q hq
        rw [List.mem_singleton.mp hq]
        exact .inr hin
    · have hfree : (k, p.requestId) ∉ t.ledger.unanswered := fun hin =>
        hnot (List.mem_map_of_mem hin)
      have hsettle : t.ledger.settle k [p] = t.ledger := by
        rw [Ledger.settle, List.erase_of_not_mem hfree]
      rw [hsettle]
      have hpzero : p.requestId = 0 := hid.trans hzero
      refine ⟨⟨h.nodup, h.asked, hkeep hnot (List.Sublist.refl _) fun _ _ _ hm => hm,
        fun x hx => ?_⟩, ?_⟩
      · have hcounts := h.counts x hx
        have hnone : [p.requestId].count x = 0 := List.count_eq_zero.mpr (by simpa [hpzero] using hx)
        change ((t.sent ++ [p]).map (·.requestId)).count x + _ = _
        rw [List.map_append, List.count_append, List.map_singleton, hnone]
        exact hcounts
      · intro q hq
        rw [List.mem_singleton.mp hq]
        exact .inl hpzero
  · rw [if_neg hp] at hposted
    obtain rfl := List.map_eq_nil_iff.mp hposted
    refine ⟨⟨h.nodup, h.asked, hkeep (hplayer.resolve_left hp) (List.Sublist.refl _)
      fun _ _ _ hm => hm, fun x hx => ?_⟩, fun p hp => nomatch hp⟩
    rw [List.append_nil]
    exact h.counts x hx


theorem Tracks.other (h : Tracks t) {posted : List Status}
    (hslots : ∀ k', s.requestId k' = t.manager.requestId k')
    (hposted : ∀ p ∈ posted, p.requestId = 0) :
    Tracks ⟨s, t.ledger, t.sent ++ posted⟩ where
  nodup := h.nodup
  asked := h.asked
  slot k' hk' := by
    change (k', s.requestId k') ∈ t.ledger.unanswered ∨ s.requestId k' = 0 ∧ k' ∉ t.ledger.waiting
    rw [hslots]
    exact h.slot k' hk'
  counts x hx := by
    have hcounts := h.counts x hx
    have hnone : (posted.map (·.requestId)).count x = 0 := by
      refine List.count_eq_zero.mpr fun hin => hx ?_
      obtain ⟨p, hp, rfl⟩ := List.mem_map.mp hin
      exact hposted p hp
    change ((t.sent ++ posted).map (·.requestId)).count x + _ = _
    rw [List.map_append, List.count_append, hnone]
    exact hcounts

theorem Tracks.step (h : Tracks t) {e : Event × Readings} (hcalm : Calm json within t e)
    (hs : t.manager.step json within e.1 e.2 = some x) :
    Tracks ⟨x.1, t.next json within e.1 x.2, t.sent ++ x.2⟩ ∧
      ∀ p ∈ x.2, Answers json within t e.1 p := by
  cases moves hs with
  | asks n request k haccepts hkind hslots hposted =>
    rw [next_asks haccepts, hposted, List.append_nil]
    exact ⟨h.asks hkind (hcalm.1 (n, request) haccepts k hkind) hslots, fun p hp => nomatch hp⟩
  | tells n haccepts hslots hposted =>
    rw [next_asks haccepts]
    refine ⟨h.tells hslots hposted, fun p hp => .inr (.inr ?_)⟩
    have hin : p.requestId ∈ x.2.map (·.requestId) := List.mem_map_of_mem hp
    rw [hposted] at hin
    rw [List.mem_singleton.mp hin]
    exact haccepts
  | answers k haccepts hanswers hslots hposted =>
    obtain ⟨hasked, hplayer⟩ := hcalm.2 k hanswers
    rw [next_answers haccepts hanswers]
    obtain ⟨htracks, hids⟩ := h.answers hasked hplayer hslots hposted
    exact ⟨htracks, fun p hp => (hids p hp).imp id fun hin => .inl ⟨k, hanswers, hin⟩⟩
  | other haccepts hanswers hslots hposted =>
    rw [next_other haccepts hanswers]
    exact ⟨h.other hslots hposted, fun p hp => .inl (hposted p hp)⟩

theorem step_ends (h : Tracks t) {e : Event × Readings} (hcalm : Calm json within t e) :
    Outcome.Ends (t.step json within e) (fun _ => True) Tracks := by
  unfold Exchange.step
  cases hs : t.manager.step json within e.1 e.2 with
  | none => exact .error trivial
  | some x => exact .ok (h.step hcalm hs).1

def ask (requestId type : String) : Event :=
  .onMessage (Json.write (.object [(str "requestId", .number (str requestId)),
    (str "type", .text (str type))]))

def silent : Readings := ⟨str "0.0", str "0.0", str "0.5", false, str "IDLE"⟩

/-- A memory that was not cleared. -/
def stale : MediaManager :=
  ⟨false, none, false, [], [], [], [], 0, 0, 0, 5, 0, 0, 0, 0⟩

def running (es : List Event) : Except Unit Exchange :=
  (es.map fun e => (e, silent)).foldlM (step .compact fun _ => true) (start stale)

end Exchange
end Flingd.Sdk
