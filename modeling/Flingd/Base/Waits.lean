import Mathlib.Data.Finset.Basic
import Mathlib.Data.List.Count

/-! Deadline timers and the queue of their completions. A wait ends by its time or by a cancel, and
either way a completion is queued, which nothing takes back. -/
namespace Flingd

inductive ErrorCode where
  | success
  | operation_aborted
deriving DecidableEq

/-- The timers that wait, and the completions that have not run. -/
structure Waits (α : Type) where
  waiting : Finset α
  queue : List (α × ErrorCode)

namespace Waits
variable {α : Type} {w : Waits α} {a b : α} {error : ErrorCode} {n : Nat}

def none : Waits α := ⟨∅, []⟩

/-- The completion at place `n` leaves the queue. -/
def take (w : Waits α) (n : Nat) : Waits α := ⟨w.waiting, w.queue.eraseIdx n⟩

/-- The time of the timer was up, and its handler has not run. -/
def Expired (w : Waits α) (a : α) : Prop := (a, .success) ∈ w.queue

/-- Nothing of the timer is left. -/
structure Idle (w : Waits α) (a : α) : Prop where
  waiting : a ∉ w.waiting
  queue : ∀ error, (a, error) ∉ w.queue

theorem idle_none (a : α) : (none : Waits α).Idle a := ⟨by simp [none], by simp [none]⟩

theorem mem_take {e : α × ErrorCode} (h : e ∈ (w.take n).queue) : e ∈ w.queue :=
  List.mem_of_mem_eraseIdx h

theorem Idle.take (h : w.Idle a) : (w.take n).Idle a :=
  ⟨h.waiting, fun error hq => h.queue error (mem_take hq)⟩

theorem Idle.not_expired (h : w.Idle a) : ¬ w.Expired a := h.queue .success

variable [DecidableEq α]

def conclude (w : Waits α) (a : α) (error : ErrorCode) : Waits α :=
  if a ∈ w.waiting then ⟨w.waiting.erase a, w.queue ++ [(a, error)]⟩ else w

/-- Also what becomes of the wait of a timer that is destroyed. -/
def cancel (w : Waits α) (a : α) : Waits α := w.conclude a .operation_aborted

def expire (w : Waits α) (a : α) : Waits α := w.conclude a .success

def async_wait (w : Waits α) (a : α) : Waits α := ⟨insert a w.waiting, w.queue⟩

def restart (w : Waits α) (a : α) : Waits α := (w.cancel a).async_wait a

instance (w : Waits α) (a : α) : Decidable (w.Expired a) :=
  inferInstanceAs (Decidable ((a, .success) ∈ w.queue))

/-- No timer waits again before the handler of its last end by time has run. -/
def Once (w : Waits α) : Prop :=
  ∀ a, w.queue.count (a, .success) ≤ 1 ∧ (w.Expired a → a ∉ w.waiting)

theorem once_none : (none : Waits α).Once := fun _ => ⟨by simp [none], fun h => by cases h⟩

theorem mem_conclude {e : α × ErrorCode} (h : e ∈ (w.conclude a error).queue) :
    e ∈ w.queue ∨ (a ∈ w.waiting ∧ e = (a, error)) := by
  unfold conclude at h
  split at h
  · rename_i ha
    exact (List.mem_append.mp h).imp id fun h => ⟨ha, List.mem_singleton.mp h⟩
  · exact .inl h

theorem waiting_conclude (h : b ∈ (w.conclude a error).waiting) : b ∈ w.waiting ∧ b ≠ a := by
  unfold conclude at h
  split at h
  · exact ⟨Finset.mem_of_mem_erase h, Finset.ne_of_mem_erase h⟩
  · rename_i ha
    exact ⟨h, fun heq => ha (heq ▸ h)⟩

theorem conclude_of_not_mem (h : a ∉ w.waiting) : w.conclude a error = w := if_neg h

/-! ### What is idle -/

theorem Idle.conclude (h : w.Idle a) : (w.conclude b error).Idle a where
  waiting hw := h.waiting (waiting_conclude hw).1
  queue error hq := by
    rcases mem_conclude hq with hq | ⟨hb, heq⟩
    · exact h.queue error hq
    · cases heq
      exact h.waiting hb

theorem Idle.restart (h : w.Idle a) (hne : a ≠ b) : (w.restart b).Idle a := by
  have hcancel : (w.cancel b).Idle a := h.conclude
  refine ⟨fun hw => ?_, hcancel.queue⟩
  rcases Finset.mem_insert.mp hw with heq | hw
  · exact hne heq
  · exact hcancel.waiting hw

/-! ### What has expired -/

theorem expired_cancel : (w.cancel b).Expired a ↔ w.Expired a := by
  constructor
  · intro h
    rcases mem_conclude h with h | ⟨-, heq⟩
    · exact h
    · cases heq
  · intro h
    unfold Expired cancel Waits.conclude
    split
    · exact List.mem_append_left _ h
    · exact h

theorem expired_restart : (w.restart b).Expired a ↔ w.Expired a := expired_cancel

theorem not_expired_expire (hne : a ≠ b) (h : ¬ w.Expired a) : ¬ (w.expire b).Expired a := by
  intro hx
  rcases mem_conclude hx with hx | ⟨-, heq⟩
  · exact h hx
  · cases heq
    exact hne rfl

/-! ### One end by time at a time -/

theorem count_cancel (w : Waits α) (b a : α) :
    (w.cancel b).queue.count (a, .success) = w.queue.count (a, .success) := by
  unfold cancel Waits.conclude
  split
  · simp
  · rfl

theorem Once.cancel (h : w.Once) : (w.cancel b).Once := fun a =>
  ⟨(count_cancel w b a).symm ▸ (h a).1,
    fun hx hw => (h a).2 (expired_cancel.mp hx) (waiting_conclude hw).1⟩

theorem Once.restart (h : w.Once) (hb : ¬ w.Expired b) : (w.restart b).Once := fun a =>
  ⟨(h.cancel a).1, fun hx hw => by
    rcases Finset.mem_insert.mp hw with rfl | hw
    · exact hb (expired_restart.mp hx)
    · exact (h.cancel a).2 hx hw⟩

theorem Once.expire (h : w.Once) : (w.expire b).Once := by
  intro a
  by_cases hb : b ∈ w.waiting
  · have hnone : w.queue.count (b, .success) = 0 :=
      List.count_eq_zero.mpr fun hx => (h b).2 hx hb
    have heq : w.expire b = ⟨w.waiting.erase b, w.queue ++ [(b, .success)]⟩ := if_pos hb
    rw [heq]
    constructor
    · rw [List.count_append]
      by_cases hab : a = b
      · rw [hab, hnone]
        simp
      · have hnot : ¬ (b, ErrorCode.success) = (a, .success) := fun he => hab (Prod.mk.inj he).1.symm
        simpa [List.count_cons, hnot] using (h a).1
    · intro hx hw
      obtain ⟨hne, hw⟩ := Finset.mem_erase.mp hw
      rcases List.mem_append.mp hx with hx | hx
      · exact (h a).2 hx hw
      · exact hne (Prod.mk.inj (List.mem_singleton.mp hx)).1
  · rw [Waits.expire, conclude_of_not_mem hb]
    exact h a

theorem Once.take (h : w.Once) : (w.take n).Once := fun a =>
  ⟨((List.eraseIdx_sublist ..).count_le _).trans (h a).1, fun hx => (h a).2 (mem_take hx)⟩

/-- The end of a timer by time is the last of it, where no cancelled wait of it is to be told. -/
theorem Once.last (h : w.Once) (hq : w.queue[n]? = some (a, .success))
    (haborted : (a, .operation_aborted) ∉ w.queue) : (w.take n).Idle a where
  waiting := (h a).2 (List.mem_of_getElem? hq)
  queue error hin := by
    cases error with
    | operation_aborted => exact haborted (mem_take hin)
    | success =>
      obtain ⟨hn, hget⟩ := List.getElem?_eq_some_iff.mp hq
      have hone : (w.queue.eraseIdx n).count (a, .success) + 1 = w.queue.count (a, .success) := by
        rw [← (List.getElem_cons_eraseIdx_perm hn).count_eq, hget, List.count_cons_self]
      have hpos : 0 < (w.queue.eraseIdx n).count (a, .success) := List.count_pos_iff.mpr hin
      have hle := (h a).1
      omega

end Waits
end Flingd
