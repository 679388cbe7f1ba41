import Mathlib.Data.List.Basic

/-! Starts and stops that take turns: one thing is up at a time, and it is the one that is
stopped. -/
namespace Flingd

inductive Turn (α : Type) where
  | start (a : α)
  | stop (a : α)
deriving DecidableEq

/-- The turn by the name of the thing, where it has one. -/
def Turn.told {α β : Type} (name : α → Option β) : Turn α → Option (Turn β)
  | .start a => (name a).map .start
  | .stop a => (name a).map .stop

/-- The starts and stops lead from what is up at first to what is up in the end. -/
def TakeTurns {α : Type} : Option α → List (Turn α) → Option α → Prop
  | up, [], up' => up = up'
  | none, .start a :: ts, up' => TakeTurns (some a) ts up'
  | some a, .stop b :: ts, up' => a = b ∧ TakeTurns none ts up'
  | _, _ :: _, _ => False

namespace TakeTurns
variable {α β : Type} {up mid up' : Option α} {ts us : List (Turn α)}

theorem nil (up : Option α) : TakeTurns up [] up := by
  cases up <;> rfl

theorem eq_of_nil (h : TakeTurns up [] up') : up = up' := by
  cases up <;> exact h

theorem append (h : TakeTurns up ts mid) (h' : TakeTurns mid us up') :
    TakeTurns up (ts ++ us) up' := by
  induction ts generalizing up with
  | nil => exact h.eq_of_nil ▸ h'
  | cons t ts ih =>
    cases up with
    | none =>
      cases t with
      | start a => exact ih (show TakeTurns (some a) ts mid from h)
      | stop a => exact h.elim
    | some a =>
      cases t with
      | start b => exact h.elim
      | stop b => exact ⟨h.1, ih h.2⟩

/-- Things without a name come and go unseen. -/
theorem told (name : α → Option β) (h : TakeTurns up ts up') :
    TakeTurns (up.bind name) (ts.filterMap (Turn.told name)) (up'.bind name) := by
  induction ts generalizing up with
  | nil =>
    rw [h.eq_of_nil]
    exact .nil _
  | cons t ts ih =>
    cases up with
    | none =>
      cases t with
      | start a =>
        have hrest := ih (show TakeTurns (some a) ts up' from h)
        rw [Option.bind_some] at hrest
        cases hname : name a with
        | none =>
          rwa [List.filterMap_cons_none (by rw [Turn.told, hname]; rfl), Option.bind_none, ← hname]
        | some b =>
          rw [hname] at hrest
          rwa [List.filterMap_cons_some (by rw [Turn.told, hname]; rfl)]
      | stop a => exact h.elim
    | some a =>
      cases t with
      | start b => exact h.elim
      | stop b =>
        obtain ⟨rfl, h⟩ := h
        have hrest := ih h
        rw [Option.bind_some]
        cases hname : name a with
        | none => rwa [List.filterMap_cons_none (by rw [Turn.told, hname]; rfl)]
        | some b =>
          rw [List.filterMap_cons_some (by rw [Turn.told, hname]; rfl)]
          exact ⟨rfl, hrest⟩

end TakeTurns
end Flingd
