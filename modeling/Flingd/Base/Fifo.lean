import Mathlib.Data.List.Induction
import Mathlib.Data.List.Nodup

/-! Who entered a queue, who left, and who waits. Some may leave who never entered: they did
not have to wait. -/
namespace Flingd.Fifo
variable {α : Type} [DecidableEq α]

def firstEntries (l : List α) : List α := l.foldl (fun e a => if a ∈ e then e else e ++ [a]) []

theorem firstEntries_concat (l : List α) (a : α) :
    firstEntries (l ++ [a]) =
      if a ∈ firstEntries l then firstEntries l else firstEntries l ++ [a] := by
  unfold firstEntries
  rw [List.foldl_append]
  rfl

theorem mem_firstEntries {l : List α} {a : α} : a ∈ firstEntries l ↔ a ∈ l := by
  induction l using List.reverseRecOn with
  | nil => simp [firstEntries]
  | append_singleton l b ih =>
    rw [firstEntries_concat]
    split
    · rename_i hb
      constructor
      · exact fun ha => List.mem_append_left _ (ih.mp ha)
      · intro ha
        rcases List.mem_append.mp ha with ha | ha
        · exact ih.mpr ha
        · exact List.mem_singleton.mp ha ▸ hb
    · simp [ih]

/-- Those that entered have left in the order in which they first entered, or wait in it. -/
structure InOrder (entered left waiting : List α) : Prop where
  order : left.filter (· ∈ entered) ++ waiting = entered
  nodup : entered.Nodup

variable {entered left waiting : List α} {a : α}

theorem InOrder.nil : InOrder ([] : List α) [] [] := ⟨rfl, .nil⟩

theorem InOrder.mem (h : InOrder entered left waiting) (ha : a ∈ waiting) : a ∈ entered :=
  h.order ▸ List.mem_append_right _ ha

theorem InOrder.enter (h : InOrder entered left waiting) (ha : a ∉ entered) (hl : a ∉ left) :
    InOrder (entered ++ [a]) left (waiting ++ [a]) where
  order := by
    have hsame : left.filter (· ∈ entered ++ [a]) = left.filter (· ∈ entered) := by
      refine List.filter_congr fun b hb => ?_
      have hne : b ≠ a := fun he => hl (he ▸ hb)
      simp [hne]
    rw [hsame, ← List.append_assoc, h.order]
  nodup := List.nodup_append.mpr ⟨h.nodup, by simp, by
    intro b hb c hc
    rw [List.mem_singleton.mp hc]
    rintro rfl
    exact ha hb⟩

theorem InOrder.leave (h : InOrder entered left (a :: waiting)) :
    InOrder entered (left ++ [a]) waiting where
  order := by
    have ha : a ∈ entered := h.mem (by simp)
    rw [List.filter_append]
    simpa [ha] using h.order
  nodup := h.nodup

/-- One leaves that does not wait. -/
theorem InOrder.pass (h : InOrder entered left waiting) (ha : a ∉ entered) :
    InOrder entered (left ++ [a]) waiting where
  order := by
    rw [List.filter_append]
    simpa [ha] using h.order
  nodup := h.nodup

end Flingd.Fifo
