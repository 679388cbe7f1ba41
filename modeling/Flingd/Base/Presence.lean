import Mathlib.Data.List.Basic

/-! Who is there, by what is told of them: that they come, that they go, and that they say
something. -/
namespace Flingd.Presence
variable {κ : Type} [DecidableEq κ]

inductive Notice (κ : Type) where
  | comes (k : κ)
  | goes (k : κ)
  | speaks (k : κ)
deriving DecidableEq

def Notice.who : Notice κ → κ
  | .comes k => k
  | .goes k => k
  | .speaks k => k

/-- Who is there after a notice. One that is there does not come, and one that is not there
neither goes nor speaks. -/
def attend (here : List κ) : Notice κ → Option (List κ)
  | .comes k => if k ∈ here then none else some (k :: here)
  | .goes k => if k ∈ here then some (here.filter (· ≠ k)) else none
  | .speaks k => if k ∈ here then some here else none

/-- Who is there after all that was told; `none` where it makes no sense. -/
def view (notices : List (Notice κ)) : Option (List κ) := notices.foldlM attend []

/-- Those who are there are those of whom `p` holds. -/
def Shows (notices : List (Notice κ)) (p : κ → Prop) : Prop :=
  ∃ here, view notices = some here ∧ ∀ k, k ∈ here ↔ p k

theorem view_concat (notices : List (Notice κ)) (n : Notice κ) :
    view (notices ++ [n]) = (view notices).bind (attend · n) := by
  rw [view, List.foldlM_append, ← view]
  cases view notices with
  | none => rfl
  | some here =>
    change ([n].foldlM attend here) = attend here n
    rw [List.foldlM_cons]
    cases attend here n <;> rfl

/-- What makes sense made sense before. -/
theorem view_append {notices more : List (Notice κ)} {here : List κ}
    (h : view (notices ++ more) = some here) : ∃ before, view notices = some before := by
  rw [view, List.foldlM_append, ← view] at h
  cases hv : view notices with
  | none =>
    rw [hv] at h
    cases h
  | some before => exact ⟨before, rfl⟩

section
variable {notices : List (Notice κ)} {p q : κ → Prop} {k : κ}

theorem Shows.comes (h : Shows notices p) (hk : ¬ p k) (hq : ∀ k', q k' ↔ k' = k ∨ p k') :
    Shows (notices ++ [.comes k]) q := by
  obtain ⟨here, hv, hp⟩ := h
  refine ⟨k :: here, ?_, fun k' => ?_⟩
  · rw [view_concat, hv, Option.bind_some, attend, if_neg fun hin => hk ((hp k).mp hin)]
  · rw [List.mem_cons, hp, hq]

theorem Shows.goes (h : Shows notices p) (hk : p k) (hq : ∀ k', q k' ↔ k' ≠ k ∧ p k') :
    Shows (notices ++ [.goes k]) q := by
  obtain ⟨here, hv, hp⟩ := h
  refine ⟨here.filter (· ≠ k), ?_, fun k' => ?_⟩
  · rw [view_concat, hv, Option.bind_some, attend, if_pos ((hp k).mpr hk)]
  · rw [List.mem_filter, hp, hq, decide_eq_true_iff, and_comm]

theorem Shows.speaks (h : Shows notices p) (hk : p k) : Shows (notices ++ [.speaks k]) p := by
  obtain ⟨here, hv, hp⟩ := h
  refine ⟨here, ?_, hp⟩
  rw [view_concat, hv, Option.bind_some, attend, if_pos ((hp k).mpr hk)]

end

/-! ### What is not told -/

/-- All is told but some that was said. -/
inductive Thins : List (Notice κ) → List (Notice κ) → Prop where
  | nil : Thins [] []
  | keep {l l' : List (Notice κ)} (n : Notice κ) (h : Thins l l') : Thins (n :: l) (n :: l')
  | drop {l l' : List (Notice κ)} (k : κ) (h : Thins l l') : Thins (.speaks k :: l) l'

omit [DecidableEq κ] in
theorem Thins.append {l₁ l₂ l₁' l₂' : List (Notice κ)} (h₁ : Thins l₁ l₁') (h₂ : Thins l₂ l₂') :
    Thins (l₁ ++ l₂) (l₁' ++ l₂') := by
  induction h₁ with
  | nil => exact h₂
  | keep n h ih => exact .keep n ih
  | drop k h ih => exact .drop k ih

/-- Who is there can be seen all the same. -/
theorem Thins.foldlM {l l' : List (Notice κ)} (h : Thins l l') {before here : List κ}
    (hv : l.foldlM attend before = some here) : l'.foldlM attend before = some here := by
  induction h generalizing before with
  | nil => exact hv
  | keep n h ih =>
    rw [List.foldlM_cons] at hv ⊢
    cases hn : attend before n with
    | none =>
      rw [hn] at hv
      cases hv
    | some after =>
      rw [hn] at hv
      exact ih hv
  | drop k h ih =>
    rw [List.foldlM_cons, attend] at hv
    split at hv
    · exact ih hv
    · cases hv

theorem Thins.view {l l' : List (Notice κ)} (h : Thins l l') {here : List κ}
    (hv : view l = some here) : view l' = some here := h.foldlM hv

end Flingd.Presence
