import Mathlib.Data.Set.Basic
import Mathlib.Data.List.Basic

/-! Memory that is written at its end and patched in places. Some of its
offsets are kept: no later write changes them. Words that stand at kept offsets
stand there for good. -/
namespace Flingd.Region
variable {α : Type} {kept kept' : Set Nat} {d d' : List α}

/-- The word `w` stands at offset `i` of `d`, at kept offsets. -/
def Stands (kept : Set Nat) (d : List α) (i : Nat) (w : List α) : Prop :=
  ∀ j b, w[j]? = some b → d[i+j]? = some b ∧ i + j ∈ kept

/-- `d'` has what stood at the kept offsets of `d`. -/
def Keeps (kept : Set Nat) (d d' : List α) : Prop := ∀ i ∈ kept, ∀ b, d[i]? = some b → d'[i]? = some b

theorem Keeps.refl (kept : Set Nat) (d : List α) : Keeps kept d d := fun _ _ _ h => h

theorem Keeps.trans {d'' : List α} (h : Keeps kept d d') (h' : Keeps kept d' d'') :
    Keeps kept d d'' :=
  fun i hi b hb => h' i hi b (h i hi b hb)

theorem Keeps.anti (hk : kept ⊆ kept') (h : Keeps kept' d d') : Keeps kept d d' :=
  fun i hi => h i (hk hi)

theorem keeps_append (kept : Set Nat) (d w : List α) : Keeps kept d (d ++ w) := by
  intro i _ b hb
  obtain ⟨hi, rfl⟩ := List.getElem?_eq_some_iff.mp hb
  rw [List.getElem?_append_left hi, List.getElem?_eq_getElem]

theorem keeps_set {i : Nat} (hi : i ∉ kept) (d : List α) (b : α) : Keeps kept d (d.set i b) := by
  intro j hj c hc
  rw [List.getElem?_set_ne (by rintro rfl; exact hi hj)]
  exact hc

theorem Stands.mono {i : Nat} {w : List α} (h : Stands kept d i w) (hk : kept ⊆ kept')
    (hd : Keeps kept d d') : Stands kept' d' i w := by
  intro j b hb
  obtain ⟨hv, hi⟩ := h j b hb
  exact ⟨hd _ hi b hv, hk hi⟩

theorem Stands.head {i : Nat} {c : α} {w : List α} (h : Stands kept d i (c :: w)) :
    d[i]? = some c :=
  (h 0 c rfl).1

theorem Stands.tail {i : Nat} {c : α} {w : List α} (h : Stands kept d i (c :: w)) :
    Stands kept d (i + 1) w := by
  intro j b hb
  have := h (j + 1) b (by simpa using hb)
  rwa [show i + (j + 1) = i + 1 + j by omega] at this

theorem Stands.inside {i : Nat} {w : List α} (h : Stands kept d i w) (hw : w ≠ []) :
    i + w.length ≤ d.length := by
  have hpos := List.length_pos_iff.mpr hw
  obtain ⟨hv, -⟩ := h (w.length - 1) _ (List.getElem?_eq_getElem (by omega))
  obtain ⟨hi, -⟩ := List.getElem?_eq_some_iff.mp hv
  omega

/-- Two words side by side are one word. -/
theorem stands_append {i : Nat} {u w : List α} :
    Stands kept d i (u ++ w) ↔ Stands kept d i u ∧ Stands kept d (i + u.length) w := by
  constructor
  · intro h
    refine ⟨fun j b hb => h j b ?_, fun j b hb => ?_⟩
    · obtain ⟨hj, -⟩ := List.getElem?_eq_some_iff.mp hb
      rwa [List.getElem?_append_left hj]
    · have := h (u.length + j) b (by simpa [List.getElem?_append_right] using hb)
      simpa [Nat.add_assoc] using this
  · rintro ⟨hu, hw⟩ j b hb
    by_cases hj : j < u.length
    · exact hu j b (by rwa [List.getElem?_append_left hj] at hb)
    · have hb' : w[j - u.length]? = some b := by
        rwa [List.getElem?_append_right (by omega)] at hb
      have := hw (j - u.length) b hb'
      rwa [show i + u.length + (j - u.length) = i + j by omega] at this

/-- What is written at the end stands there, once its offsets are kept. -/
theorem stands_end (d w : List α) (hk : ∀ j < w.length, d.length + j ∈ kept) :
    Stands kept (d ++ w) d.length w := by
  intro j b hb
  obtain ⟨hj, rfl⟩ := List.getElem?_eq_some_iff.mp hb
  refine ⟨?_, hk j hj⟩
  rw [List.getElem?_append_right (by omega), Nat.add_sub_cancel_left]
  exact hb

end Flingd.Region
